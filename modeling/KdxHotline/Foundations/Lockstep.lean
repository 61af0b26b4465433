import KdxHotline.Foundations.Tasks

/-!
# Two runs in lockstep

Two functions are in lockstep if they take their steps together and, as long as the states
they step from are related, so are the states they step to
(`Foundations.Prog.Lockstep`). The relation is one of the shared state and one of what a
task has to itself. Then two runs of many tasks that take the same turns stay related
(`Foundations.Tasks.lockstep_run`), whatever the turns are, as long as the first run only
takes steps that it is asked to.

A function of a part of the state can be run as one of the whole
(`Foundations.Prog.lift`).
-/

namespace Foundations

variable {σ σ' κ κ' ι ι' ε ε' ρ α β : Type}

namespace Prog

/-- Run a function of a part of the state as one of the whole. -/
def lift (f : Focus σ' σ) (g : Focus κ' κ) (l : ι → ι') : Prog σ κ ι ε α → Prog σ' κ' ι' ε α
  | done a => done a
  | fail e => fail e
  | step label x next => step (l label)
    (fun s => let r := x (f.get s.1, g.get s.2)
      (r.1, f.set r.2.1 s.1, g.set r.2.2 s.2)) fun b => (next b).lift f g l

/-! ### Functions in lockstep -/

/-- What relates two runs, and which steps the first is asked to take. -/
structure Twin (σ κ ι : Type) where
  shared : σ → σ → Prop
  own : κ → κ → Prop
  allows : ι → Prop

/-- The two functions take their steps together and keep the states related; where they end,
`Q` relates their results or `E` their errors. -/
def Lockstep (T : Twin σ κ ι) (Q : α → α → Prop) (E : ε → ε → Prop) :
    Prog σ κ ι ε α → Prog σ κ ι ε α → Prop
  | done a, q => ∃ a', q = done a' ∧ Q a a'
  | fail e, q => ∃ e', q = fail e' ∧ E e e'
  | step label x next, q => ∃ (γ : Type) (label' : ι) (x' : σ × κ → γ × σ × κ)
      (next' : γ → Prog σ κ ι ε α), q = step label' x' next' ∧
      (T.allows label → ∀ s s' own own', T.shared s s' → T.own own own' →
        T.shared (x (s, own)).2.1 (x' (s', own')).2.1 ∧ T.own (x (s, own)).2.2 (x' (s', own')).2.2 ∧
        (next (x (s, own)).1).Lockstep T Q E (next' (x' (s', own')).1))

section Rules

variable {T : Twin σ κ ι} {Q Q' : α → α → Prop} {R : β → β → Prop} {E E' : ε → ε → Prop}
  {p q : Prog σ κ ι ε α}

theorem lockstep_pure {a a' : α} (h : Q a a') :
    Lockstep T Q E (pure a : Prog σ κ ι ε α) (pure a') := ⟨a', rfl, h⟩

theorem lockstep_fail {e e' : ε} (h : E e e') :
    Lockstep T Q E (.fail e : Prog σ κ ι ε α) (.fail e') := ⟨e', rfl, h⟩

/-- Less may be asked of the two ends. -/
theorem Lockstep.mono (h : p.Lockstep T Q E q) (hQ : ∀ a a', Q a a' → Q' a a')
    (hE : ∀ e e', E e e' → E' e e') : p.Lockstep T Q' E' q := by
  induction p generalizing q with
  | done a =>
    obtain ⟨a', rfl, ha⟩ := h
    exact ⟨a', rfl, hQ a a' ha⟩
  | fail e =>
    obtain ⟨e', rfl, he⟩ := h
    exact ⟨e', rfl, hE e e' he⟩
  | step label x next ih =>
    obtain ⟨γ, label', x', next', rfl, hstep⟩ := h
    refine ⟨γ, label', x', next', rfl, fun hallows s s' own own' hs hown => ?_⟩
    obtain ⟨hs', hown', hnext⟩ := hstep hallows s s' own own' hs hown
    exact ⟨hs', hown', ih _ hnext⟩

/-- **Sequences of functions in lockstep are.** -/
theorem Lockstep.bind {f f' : α → Prog σ κ ι ε β} (h : p.Lockstep T Q E q)
    (hf : ∀ a a', Q a a' → (f a).Lockstep T R E (f' a')) : (p >>= f).Lockstep T R E (q >>= f') := by
  induction p generalizing q with
  | done a =>
    obtain ⟨a', rfl, ha⟩ := h
    exact hf a a' ha
  | fail e =>
    obtain ⟨e', rfl, he⟩ := h
    exact ⟨e', rfl, he⟩
  | step label x next ih =>
    obtain ⟨γ, label', x', next', rfl, hstep⟩ := h
    refine ⟨γ, label', x', fun b => (next' b).bind f', rfl, fun hallows s s' own own' hs hown => ?_⟩
    obtain ⟨hs', hown', hnext⟩ := hstep hallows s s' own own' hs hown
    exact ⟨hs', hown', ih _ hnext⟩

/-- Outcomes that are handed over as values. -/
theorem Lockstep.attempt {E₀ : ε' → ε' → Prop} (h : p.Lockstep T Q E q) :
    (p.attempt : Prog σ κ ι ε' _).Lockstep T (fun r r' => match r, r' with
      | .ok a, .ok a' => Q a a'
      | .error e, .error e' => E e e'
      | _, _ => False) E₀ q.attempt := by
  induction p generalizing q with
  | done a =>
    obtain ⟨a', rfl, ha⟩ := h
    exact ⟨.ok a', rfl, ha⟩
  | fail e =>
    obtain ⟨e', rfl, he⟩ := h
    exact ⟨.error e', rfl, he⟩
  | step label x next ih =>
    obtain ⟨γ, label', x', next', rfl, hstep⟩ := h
    refine ⟨γ, label', x', fun b => (next' b).attempt, rfl, fun hallows s s' own own' hs hown => ?_⟩
    obtain ⟨hs', hown', hnext⟩ := hstep hallows s s' own own' hs hown
    exact ⟨hs', hown', ih _ hnext⟩

theorem lockstep_step {label label' : ι} {x x' : σ × κ → β × σ × κ}
    (h : T.allows label → ∀ s s' own own', T.shared s s' → T.own own own' →
      T.shared (x (s, own)).2.1 (x' (s', own')).2.1 ∧ T.own (x (s, own)).2.2 (x' (s', own')).2.2 ∧
        R (x (s, own)).1 (x' (s', own')).1) :
    Lockstep T R E (.step label x .done : Prog σ κ ι ε β) (.step label' x' .done) := by
  refine ⟨β, label', x', .done, rfl, fun hallows s s' own own' hs hown => ?_⟩
  obtain ⟨hs', hown', hR⟩ := h hallows s s' own own' hs hown
  exact ⟨hs', hown', _, rfl, hR⟩

/-- Two steps that return together or fail together. -/
theorem lockstep_call {label label' : ι} {x x' : Fallible (σ × κ) ε α}
    (h : T.allows label → ∀ s s' own own', T.shared s s' → T.own own own' →
      (∃ a a' t t', Returns x (s, own) a t ∧ Returns x' (s', own') a' t' ∧ T.shared t.1 t'.1 ∧
        T.own t.2 t'.2 ∧ Q a a') ∨
      ∃ e e' t t', Fails x (s, own) e t ∧ Fails x' (s', own') e' t' ∧ T.shared t.1 t'.1 ∧
        T.own t.2 t'.2 ∧ E e e') :
    Lockstep T Q E (.call label x : Prog σ κ ι ε α) (.call label' x') := by
  refine ⟨_, label', _, _, rfl, fun hallows s s' own own' hs hown => ?_⟩
  rcases h hallows s s' own own' hs hown with ⟨a, a', t, t', hx, hx', hs, hown, hQ⟩ |
    ⟨e, e', t, t', hx, hx', hs, hown, hE⟩
  · simp only [Returns] at hx hx'
    simp only [hx, hx']
    exact ⟨hs, hown, a', rfl, hQ⟩
  · simp only [Fails] at hx hx'
    simp only [hx, hx']
    exact ⟨hs, hown, e', rfl, hE⟩

/-- **Functions of a part that are in lockstep are in lockstep as functions of the whole.** -/
theorem Lockstep.lift {T' : Twin σ' κ' ι'} {f : Focus σ' σ} {g : Focus κ' κ} {l : ι → ι'}
    (h : p.Lockstep T Q E q)
    (hallows : ∀ label, T'.allows (l label) → T.allows label)
    (hget : ∀ {s s'}, T'.shared s s' → T.shared (f.get s) (f.get s'))
    (hset : ∀ {s s' t t'}, T'.shared s s' → T.shared t t' → T'.shared (f.set t s) (f.set t' s'))
    (hgetOwn : ∀ {k k'}, T'.own k k' → T.own (g.get k) (g.get k'))
    (hsetOwn : ∀ {k k' o o'}, T'.own k k' → T.own o o' → T'.own (g.set o k) (g.set o' k')) :
    (p.lift f g l).Lockstep T' Q E (q.lift f g l) := by
  induction p generalizing q with
  | done a =>
    obtain ⟨a', rfl, ha⟩ := h
    exact ⟨a', rfl, ha⟩
  | fail e =>
    obtain ⟨e', rfl, he⟩ := h
    exact ⟨e', rfl, he⟩
  | step label x next ih =>
    obtain ⟨γ, label', x', next', rfl, hstep⟩ := h
    refine ⟨γ, l label', _, _, rfl, fun hlabel s s' own own' hs hown => ?_⟩
    obtain ⟨hs', hown', hnext⟩ :=
      hstep (hallows label hlabel) _ _ _ _ (hget hs) (hgetOwn hown)
    exact ⟨hset hs hs', hsetOwn hown hown', ih _ hnext⟩

end Rules

end Prog

/-! ### Runs in lockstep -/

namespace Tasks

open Prog

variable {T : Twin σ κ ι} {serve serve' : ρ → Prog σ κ ι ε Unit} {new new' : κ}
  {c d c' : Tasks σ κ ι ε} {turn : Turn ρ} {turns : List (Turn ρ)}

/-- The shared states are related, and so is each task to its twin, in what it has and in
what is left of it to do. -/
structure Twins (T : Twin σ κ ι) (c c' : Tasks σ κ ι ε) : Prop where
  shared : T.shared c.shared c'.shared
  tasks : List.Forall₂ (fun t t' => T.own t.1 t'.1 ∧
    t.2.Lockstep T (fun _ _ => True) (fun _ _ => True) t'.2) c.tasks c'.tasks

/-- The turn takes no step that the run is not asked to take. -/
def Asked (allows : ι → Prop) (c : Tasks σ κ ι ε) : Turn ρ → Prop
  | .start _ => True
  | .step i => ∀ label, c.next i = some label → allows label

/-- **A turn that one run takes the other takes too.** -/
theorem Twins.take (hserve : ∀ request, (serve request).Lockstep T (fun _ _ => True)
      (fun _ _ => True) (serve' request)) (hnew : T.own new new') (h : Twins T c c')
    (hasked : Asked T.allows c turn) (htake : c.take serve new turn = some d) :
    ∃ d', c'.take serve' new' turn = some d' ∧ Twins T d d' := by
  cases turn with
  | start request =>
    obtain rfl := Option.some.inj htake
    exact ⟨_, rfl, h.shared, List.rel_append h.tasks (.cons ⟨hnew, hserve request⟩ .nil)⟩
  | step i =>
    obtain ⟨own, β, label, x, next, hi, rfl⟩ := take_step htake
    obtain ⟨hlt, hget⟩ := List.getElem?_eq_some_iff.mp hi
    have hlt' : i < c'.tasks.length := h.tasks.length_eq ▸ hlt
    have htwin := List.forall₂_iff_get.mp h.tasks |>.2 i hlt hlt'
    simp only [List.get_eq_getElem, hget] at htwin
    obtain ⟨hown, γ, label', x', next', hnext, hstep⟩ := htwin
    have hi' : c'.tasks[i]? = some ((c'.tasks[i]).1, .step label' x' next') := by
      rw [← hnext]
      exact List.getElem?_eq_getElem hlt'
    have hlabel : c.next i = some label := by rw [Tasks.next, hi]
    obtain ⟨hs, hown', hrest⟩ := hstep (hasked label hlabel) _ _ _ _ h.shared hown
    refine ⟨⟨(x' (c'.shared, (c'.tasks[i]).1)).2.1, c'.tasks.set i
      ((x' (c'.shared, (c'.tasks[i]).1)).2.2, next' (x' (c'.shared, (c'.tasks[i]).1)).1)⟩, ?_, hs, ?_⟩
    · simp only [Tasks.take, hi']
    refine List.forall₂_iff_get.mpr ⟨by simp [h.tasks.length_eq], fun j hj hj' => ?_⟩
    simp only [List.get_eq_getElem]
    by_cases hij : i = j
    · subst hij
      rw [List.getElem_set_self, List.getElem_set_self]
      exact ⟨hown', hrest⟩
    · rw [List.getElem_set_ne hij, List.getElem_set_ne hij]
      rw [List.length_set] at hj hj'
      exact List.forall₂_iff_get.mp h.tasks |>.2 j hj hj'

/-- **Two runs that take the same turns stay related.** -/
theorem lockstep_run (hserve : ∀ request, (serve request).Lockstep T (fun _ _ => True)
      (fun _ _ => True) (serve' request)) (hnew : T.own new new') (h : Twins T c c')
    (hrun : Run (Guarded (fun c turn d => c.take serve new turn = some d) (Asked T.allows)) c
      turns d) :
    ∃ d', Run (fun c turn d => c.take serve' new' turn = some d) c' turns d' ∧ Twins T d d' := by
  induction hrun generalizing c' with
  | nil => exact ⟨c', .nil _, h⟩
  | cons hstep _ ih =>
    obtain ⟨e, htake, htwins⟩ := h.take hserve hnew hstep.2 hstep.1
    obtain ⟨d', hrun, hd⟩ := ih htwins
    exact ⟨d', .cons htake hrun, hd⟩

end Tasks

end Foundations
