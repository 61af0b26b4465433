import Mathlib.Data.Multiset.AddSub
import KdxHotline.Foundations.Fallible
import KdxHotline.Foundations.Runs

/-!
# Tasks that run side by side

An `async` function of the source is a sequence of atomic steps: between two of
them any other task may run. `Foundations.Prog` is such a function, a tree of
steps over a state `σ` that all tasks share and a part `κ` that each of them has
to itself. It can be run with nobody else around (`Foundations.Prog.alone`), or as
one of many (`Foundations.Tasks`), whose steps are taken in any order.

What holds whatever the order is proved one function at a time. A discipline
(`Foundations.Discipline`) says what always holds of the state and what a single
step of a task may do to it; `Foundations.Discipline.Meets` says of a function
that its steps keep to the discipline, where at each point it may rely on what
survives the steps of the others (`Foundations.Discipline.Stable`). Then every run
keeps to it: `Foundations.Discipline.holds_run`.
-/

namespace Foundations

/-- A function made of atomic steps. Every step has a label to tell it by. -/
inductive Prog (σ κ ι ε α : Type) : Type 1
  | done (a : α)
  | fail (e : ε)
  | step {β : Type} (label : ι) (x : σ × κ → β × σ × κ) (next : β → Prog σ κ ι ε α)

namespace Prog

variable {σ κ ι ε ε' α β : Type}

/-- One program after another. -/
def bind : Prog σ κ ι ε α → (α → Prog σ κ ι ε β) → Prog σ κ ι ε β
  | done a, f => f a
  | fail e, _ => fail e
  | step label x next, f => step label x fun b => (next b).bind f

instance : Monad (Prog σ κ ι ε) where
  pure := done
  bind := bind

/-- Run the function and hand its outcome over as a value. -/
def attempt : Prog σ κ ι ε α → Prog σ κ ι ε' (Except ε α)
  | done a => done (.ok a)
  | fail e => done (.error e)
  | step label x next => step label x fun b => (next b).attempt

/-- The outcome of something that takes no step. -/
def ofExcept : Except ε α → Prog σ κ ι ε α
  | .ok a => done a
  | .error e => fail e

/-- One atomic step that may fail. -/
def call (label : ι) (x : Fallible (σ × κ) ε α) : Prog σ κ ι ε α :=
  step label (fun s => match x.run s with
    | .ok a t => (.ok a, t)
    | .error e t => (.error e, t)) ofExcept

/-- Run the function with nobody else around. -/
def alone : Prog σ κ ι ε α → Fallible (σ × κ) ε α
  | done a => pure a
  | fail e => check (.error e)
  | step _ x next => fun s => (next (x s).1).alone (x s).2

section Alone

variable {s t : σ × κ}

@[simp] theorem alone_pure (a : α) : alone (pure a : Prog σ κ ι ε α) = pure a := rfl

@[simp] theorem alone_fail (e : ε) : alone (fail e : Prog σ κ ι ε α) = check (.error e) := rfl

@[simp] theorem alone_bind (p : Prog σ κ ι ε α) (f : α → Prog σ κ ι ε β) :
    alone (p >>= f) = alone p >>= fun a => alone (f a) := by
  induction p with
  | done a => rfl
  | fail e => rfl
  | step label x next ih =>
    funext s
    exact congrFun (ih (x s).1) (x s).2

@[simp] theorem alone_attempt (p : Prog σ κ ι ε α) :
    alone (p.attempt : Prog σ κ ι ε' _) = Foundations.attempt (alone p) := by
  induction p with
  | done a => rfl
  | fail e => rfl
  | step label x next ih =>
    funext s
    exact congrFun (ih (x s).1) (x s).2

@[simp] theorem alone_ofExcept (x : Except ε α) :
    alone (ofExcept x : Prog σ κ ι ε α) = check x := by
  cases x <;> rfl

@[simp] theorem alone_call (label : ι) (x : Fallible (σ × κ) ε α) : alone (call label x) = x := by
  funext s
  simp only [call, alone, EStateM.run]
  cases x s <;> rfl

end Alone

end Prog

/-! ### Many tasks -/

/-- The shared state, and for each task what it has to itself and what it has left
to do. -/
structure Tasks (σ κ ι ε : Type) : Type 1 where
  shared : σ
  tasks : List (κ × Prog σ κ ι ε Unit)

/-- What may happen next. -/
inductive Turn (ρ : Type)
  /-- A task starts on a request. -/
  | start (request : ρ)
  /-- The task of this number takes its next step. -/
  | step (task : ℕ)

namespace Tasks

variable {σ κ ι ε ρ : Type} (serve : ρ → Prog σ κ ι ε Unit) (new : κ)

/-- Take a turn, if there is one to take. -/
def take (c : Tasks σ κ ι ε) : Turn ρ → Option (Tasks σ κ ι ε)
  | .start request => some { c with tasks := c.tasks ++ [(new, serve request)] }
  | .step i =>
    match c.tasks[i]? with
    | some (own, .step _ x next) =>
      some ⟨(x (c.shared, own)).2.1,
        c.tasks.set i ((x (c.shared, own)).2.2, next (x (c.shared, own)).1)⟩
    | _ => none

variable {serve new} in
/-- The task of this number had a step to take, and that is what was taken. -/
theorem take_step {c c' : Tasks σ κ ι ε} {i : ℕ} (h : c.take serve new (.step i) = some c') :
    ∃ (own : κ) (β : Type) (label : ι) (x : σ × κ → β × σ × κ) (next : β → Prog σ κ ι ε Unit),
      c.tasks[i]? = some (own, .step label x next) ∧
      c' = ⟨(x (c.shared, own)).2.1,
        c.tasks.set i ((x (c.shared, own)).2.2, next (x (c.shared, own)).1)⟩ := by
  simp only [take] at h
  split at h
  case h_1 own β label x next hi => exact ⟨own, β, label, x, next, hi, (Option.some.inj h).symm⟩
  case h_2 => cases h

/-- What the next step of a task is for. -/
def next (c : Tasks σ κ ι ε) (i : ℕ) : Option ι :=
  match c.tasks[i]? with
  | some (_, .step label _ _) => some label
  | _ => none

/-- What each task has to itself. -/
def owns (c : Tasks σ κ ι ε) : Multiset κ := (c.tasks.map Prod.fst : List κ)

/-- What the tasks but one have to themselves. -/
def others (c : Tasks σ κ ι ε) (i : ℕ) : Multiset κ := ((c.tasks.eraseIdx i).map Prod.fst : List κ)

theorem owns_eq {c : Tasks σ κ ι ε} {i : ℕ} {own : κ} {p : Prog σ κ ι ε Unit}
    (h : c.tasks[i]? = some (own, p)) : c.owns = own ::ₘ c.others i := by
  obtain ⟨hi, hget⟩ := List.getElem?_eq_some_iff.mp h
  have hperm : (c.tasks.map Prod.fst).Perm (own :: (c.tasks.eraseIdx i).map Prod.fst) := by
    have hcons := (List.getElem_cons_eraseIdx_perm hi).symm.map Prod.fst
    rwa [hget] at hcons
  exact Multiset.coe_eq_coe.mpr hperm

theorem owns_set {c : Tasks σ κ ι ε} {i : ℕ} (hi : i < c.tasks.length) (s : σ) (own : κ)
    (p : Prog σ κ ι ε Unit) : (Tasks.mk s (c.tasks.set i (own, p))).owns = own ::ₘ c.others i := by
  have hlength : i < (c.tasks.set i (own, p)).length := by
    rw [List.length_set]
    exact hi
  have hget : (c.tasks.set i (own, p))[i]? = some (own, p) :=
    List.getElem?_eq_some_iff.mpr ⟨hlength, List.getElem_set_self hlength⟩
  rw [owns_eq (c := ⟨s, c.tasks.set i (own, p)⟩) hget, others, others, List.eraseIdx_set_eq]

theorem mem_others {c : Tasks σ κ ι ε} {i j : ℕ} {own : κ} (hij : j ≠ i)
    (h : c.tasks[j]?.map Prod.fst = some own) : own ∈ c.others i := by
  obtain ⟨t, hget, rfl⟩ := Option.map_eq_some_iff.mp h
  obtain ⟨hj, hget⟩ := List.getElem?_eq_some_iff.mp hget
  exact List.mem_map_of_mem (List.mem_eraseIdx_iff_getElem.mpr ⟨j, hj, hij, hget⟩)

variable {serve new} in
/-- What the tasks have to themselves when one more has started. -/
theorem owns_start {request : ρ} {c c' : Tasks σ κ ι ε}
    (htake : c.take serve new (.start request) = some c') :
    c'.shared = c.shared ∧ c'.owns = new ::ₘ c.owns := by
  obtain rfl := Option.some.inj htake
  refine ⟨rfl, ?_⟩
  rw [owns, List.map_append, List.map_singleton, ← Multiset.coe_add, Multiset.coe_singleton,
    Multiset.add_comm, Multiset.singleton_add, owns]

end Tasks

/-! ### Disciplines -/

section Discipline

variable {σ κ ι ε ε' ρ α β : Type}

/-- What the tasks keep to. -/
structure Discipline (σ κ ι : Type) where
  /-- What always holds of the shared state and what the tasks have to themselves. -/
  inv : σ → Multiset κ → Prop
  /-- What a step of a task may do. -/
  guar : σ × κ → σ × κ → Prop
  /-- Which steps a run is assumed to take, given what the others have. -/
  allows : ι → σ × κ → Multiset κ → Prop

namespace Discipline

variable (d : Discipline σ κ ι)

/-- What survives the steps of other tasks. -/
def Stable (P : σ × κ → Prop) : Prop :=
  ∀ s own other rest s' other', d.inv s (own ::ₘ other ::ₘ rest) →
    d.guar (s, other) (s', other') → P (s, own) → P (s', own)

/-- A step from where `P` holds keeps to the discipline and ends where `Q` holds. -/
def Keeps (P : σ × κ → Prop) (label : ι) (x : σ × κ → β × σ × κ) (Q : β → σ × κ → Prop) : Prop :=
  ∀ s own rest, d.inv s (own ::ₘ rest) → d.allows label (s, own) rest → P (s, own) →
    d.inv (x (s, own)).2.1 ((x (s, own)).2.2 ::ₘ rest) ∧ d.guar (s, own) (x (s, own)).2 ∧
      Q (x (s, own)).1 (x (s, own)).2

/-- Every step of the function keeps to the discipline, if it starts where `P` holds;
where it ends, `Q` holds of its result or `E` of its error. -/
def Meets : (σ × κ → Prop) → Prog σ κ ι ε α → (α → σ × κ → Prop) → (ε → σ × κ → Prop) → Prop
  | P, .done a, Q, _ => ∀ s, P s → Q a s
  | P, .fail e, _, E => ∀ s, P s → E e s
  | P, .step label x next, Q, E => ∃ M : _ → σ × κ → Prop,
    d.Keeps P label x M ∧ (∀ b, d.Stable (M b)) ∧ ∀ b, Meets (M b) (next b) Q E

variable {d} {P P' : σ × κ → Prop} {Q Q' : α → σ × κ → Prop} {R : β → σ × κ → Prop}
  {E E' : ε → σ × κ → Prop} {p : Prog σ κ ι ε α}

theorem stable_own (P : κ → Prop) : d.Stable fun s => P s.2 := fun _ _ _ _ _ _ _ _ h => h

theorem meets_pure {a : α} (h : ∀ s, P s → Q a s) :
    d.Meets P (pure a : Prog σ κ ι ε α) Q E := h

theorem meets_fail {e : ε} (h : ∀ s, P s → E e s) :
    d.Meets P (.fail e : Prog σ κ ι ε α) Q E := h

/-- **The rule of consequence.** -/
theorem Meets.mono (h : d.Meets P p Q E) (hP : ∀ s, P' s → P s) (hQ : ∀ a s, Q a s → Q' a s)
    (hE : ∀ e s, E e s → E' e s) : d.Meets P' p Q' E' := by
  induction p generalizing P P' with
  | done a => exact fun s hs => hQ a s (h s (hP s hs))
  | fail e => exact fun s hs => hE e s (h s (hP s hs))
  | step label x next ih =>
    obtain ⟨M, hkeeps, hstable, hnext⟩ := h
    refine ⟨M, fun s own rest hinv hallows hs => hkeeps s own rest hinv hallows (hP _ hs), hstable,
      fun b => ih b (hnext b) fun _ hs => hs⟩

/-- **The rule of sequence.** -/
theorem Meets.bind {f : α → Prog σ κ ι ε β} (h : d.Meets P p Q E)
    (hf : ∀ a, d.Meets (Q a) (f a) R E) : d.Meets P (p >>= f) R E := by
  induction p generalizing P with
  | done a => exact (hf a).mono h (fun _ _ hs => hs) fun _ _ hs => hs
  | fail e => exact h
  | step label x next ih =>
    obtain ⟨M, hkeeps, hstable, hnext⟩ := h
    exact ⟨M, hkeeps, hstable, fun b => ih b (hnext b)⟩

/-- An outcome that is handed over as a value. -/
theorem Meets.attempt {E₀ : ε' → σ × κ → Prop} (h : d.Meets P p Q E) :
    d.Meets P (p.attempt : Prog σ κ ι ε' _)
      (fun r s => match r with
        | .ok a => Q a s
        | .error e => E e s) E₀ := by
  induction p generalizing P with
  | done a => exact h
  | fail e => exact h
  | step label x next ih =>
    obtain ⟨M, hkeeps, hstable, hnext⟩ := h
    exact ⟨M, hkeeps, hstable, fun b => ih b (hnext b)⟩

/-- One step that keeps to the discipline. -/
theorem meets_step {label : ι} {x : σ × κ → β × σ × κ} (hkeeps : d.Keeps P label x R)
    (hstable : ∀ b, d.Stable (R b)) : d.Meets P (.step label x .done : Prog σ κ ι ε β) R E :=
  ⟨R, hkeeps, hstable, fun _ _ hs => hs⟩

/-- One step that may fail. -/
theorem meets_call {label : ι} {x : Fallible (σ × κ) ε α}
    (hreturns : ∀ s own rest a t, d.inv s (own ::ₘ rest) → d.allows label (s, own) rest →
      P (s, own) → Returns x (s, own) a t → d.inv t.1 (t.2 ::ₘ rest) ∧ d.guar (s, own) t ∧ Q a t)
    (hfails : ∀ s own rest e t, d.inv s (own ::ₘ rest) → d.allows label (s, own) rest →
      P (s, own) → Fails x (s, own) e t → d.inv t.1 (t.2 ::ₘ rest) ∧ d.guar (s, own) t ∧ E e t)
    (hQ : ∀ a, d.Stable (Q a)) (hE : ∀ e, d.Stable (E e)) :
    d.Meets P (.call label x : Prog σ κ ι ε α) Q E := by
  refine ⟨fun r s => match r with
    | .ok a => Q a s
    | .error e => E e s, ?_, ?_, ?_⟩
  · intro s own rest hinv hallows hs
    rcases hx : x.run (s, own) with ⟨a, t⟩ | ⟨e, t⟩
    · simp only [hx]
      exact hreturns s own rest a t hinv hallows hs hx
    · simp only [hx]
      exact hfails s own rest e t hinv hallows hs hx
  · rintro (e | a)
    · exact hE e
    · exact hQ a
  · rintro (e | a)
    · exact fun s hs => hs
    · exact fun s hs => hs

/-! ### What holds in every run -/

variable (d) in
/-- The invariant holds, and every task is at a point of its function where what it
relies on holds. -/
structure Holds (c : Tasks σ κ ι ε) : Prop where
  inv : d.inv c.shared c.owns
  tasks : ∀ t ∈ c.tasks, ∃ P, d.Stable P ∧ P (c.shared, t.1) ∧
    d.Meets P t.2 (fun _ _ => True) fun _ _ => True

variable (d) in
/-- The step that is taken next is one the run is assumed to take. -/
def Allowed (c : Tasks σ κ ι ε) : Turn ρ → Prop
  | .start _ => True
  | .step i => ∀ own β label x next, c.tasks[i]? = some (own, .step (β := β) label x next) →
    d.allows label (c.shared, own) (c.others i)

variable {serve : ρ → Prog σ κ ι ε Unit} {new : κ} {c c' : Tasks σ κ ι ε} {turn : Turn ρ}

/-- **A turn keeps to the discipline**, if what is started does. -/
theorem holds_take (h : d.Holds c)
    (hserve : ∀ request, turn = .start request →
      d.Meets (fun s => s.2 = new) (serve request) (fun _ _ => True) fun _ _ => True)
    (hnew : ∀ s owns, d.inv s owns → d.inv s (new ::ₘ owns))
    (hallowed : d.Allowed c turn) (htake : c.take serve new turn = some c') : d.Holds c' := by
  cases turn with
  | start request =>
    obtain ⟨-, howns⟩ := Tasks.owns_start htake
    obtain rfl := Option.some.inj htake
    refine ⟨?_, fun t ht => ?_⟩
    · rw [howns]
      exact hnew _ _ h.inv
    · rcases List.mem_append.mp ht with ht | ht
      · exact h.tasks t ht
      · obtain rfl := List.mem_singleton.mp ht
        exact ⟨_, stable_own fun own => own = new, rfl, hserve request rfl⟩
  | step i =>
    obtain ⟨own, β, label, x, next, hi, rfl⟩ := Tasks.take_step htake
    obtain ⟨hlt, hget⟩ := List.getElem?_eq_some_iff.mp hi
    obtain ⟨P, -, hP, hmeets⟩ := h.tasks _ (List.mem_of_getElem? hi)
    -- the task steps by its own rule, and the guarantee of that is what the others rely on
    obtain ⟨M, hkeeps, hstable, hnext⟩ := hmeets
    have hinv := h.inv
    rw [Tasks.owns_eq hi] at hinv
    obtain ⟨hinv', hguar, hM⟩ := hkeeps _ _ _ hinv (hallowed own β label x next hi) hP
    refine ⟨?_, fun t ht => ?_⟩
    · rw [Tasks.owns_set hlt]
      exact hinv'
    · obtain ⟨j, hj, hjt⟩ := List.mem_iff_getElem.mp ht
      by_cases hij : i = j
      · subst hij
        rw [List.getElem_set_self] at hjt
        subst hjt
        exact ⟨_, hstable _, hM, hnext _⟩
      · -- another task: what it relies on survives this step
        rw [List.getElem_set_ne hij] at hjt
        rw [List.length_set] at hj
        obtain ⟨P', hP', hhere, hmeets'⟩ := h.tasks t (hjt ▸ List.getElem_mem hj)
        refine ⟨P', hP', ?_, hmeets'⟩
        have hmem : t.1 ∈ c.others i := List.mem_map_of_mem
          (List.mem_eraseIdx_iff_getElem.mpr ⟨j, hj, fun he => hij he.symm, hjt⟩)
        obtain ⟨rest, hrest⟩ := Multiset.exists_cons_of_mem hmem
        rw [hrest, Multiset.cons_swap] at hinv
        exact hP' _ _ _ _ _ _ hinv hguar hhere

/-- **Whatever the order in which they take their steps, tasks that keep to a
discipline never leave it.** -/
theorem holds_run {turns : List (Turn ρ)} (h : d.Holds c)
    (hserve : ∀ request, d.Meets (fun s => s.2 = new) (serve request) (fun _ _ => True)
      fun _ _ => True)
    (hnew : ∀ s owns, d.inv s owns → d.inv s (new ::ₘ owns))
    (hrun : Run (Guarded (fun c turn c' => c.take serve new turn = some c') d.Allowed) c turns c') :
    d.Holds c' :=
  hrun.invariant d.Holds
    (fun _ _ _ hc hstep => holds_take hc (fun request _ => hserve request) hnew hstep.2 hstep.1) h

/-- What the next step of a task does, it may do. -/
theorem Holds.guar {i : ℕ} {own : κ} {label : ι} {x : σ × κ → β × σ × κ}
    {next : β → Prog σ κ ι ε Unit} (h : d.Holds c)
    (hi : c.tasks[i]? = some (own, .step label x next))
    (hallows : d.allows label (c.shared, own) (c.others i)) :
    d.guar (c.shared, own) (x (c.shared, own)).2 := by
  obtain ⟨P, -, hP, hmeets⟩ := h.tasks _ (List.mem_of_getElem? hi)
  obtain ⟨M, hkeeps, -, -⟩ := hmeets
  have hinv := h.inv
  rw [Tasks.owns_eq hi] at hinv
  exact (hkeeps _ _ _ hinv hallows hP).2.1

end Discipline

end Discipline

/-! ### What the steps of one function do -/

namespace Prog

variable {σ κ ι ε ε' α β : Type} {G : σ × κ → σ × κ → Prop} {p q : Prog σ κ ι ε α}

/-- Whatever state it is taken in and whatever came before, every step of the function
is in `G`. -/
def Always (G : σ × κ → σ × κ → Prop) : Prog σ κ ι ε α → Prop
  | done _ | fail _ => True
  | step _ x next => (∀ s, G s (x s).2) ∧ ∀ b, (next b).Always G

theorem always_ofExcept (x : Except ε α) : Always G (ofExcept x : Prog σ κ ι ε α) := by
  cases x <;> trivial

theorem Always.bind {f : α → Prog σ κ ι ε β} (h : p.Always G) (hf : ∀ a, (f a).Always G) :
    (p >>= f).Always G := by
  induction p with
  | done a => exact hf a
  | fail e => trivial
  | step label x next ih => exact ⟨h.1, fun b => ih b (h.2 b)⟩

theorem Always.attempt (h : p.Always G) : (p.attempt : Prog σ κ ι ε' _).Always G := by
  induction p with
  | done a => trivial
  | fail e => trivial
  | step label x next ih => exact ⟨h.1, fun b => ih b (h.2 b)⟩

/-- `q` is what may be left of a function to do. -/
inductive Rest (p : Prog σ κ ι ε α) : Prog σ κ ι ε α → Prop
  | start : Rest p p
  | step {β : Type} {label : ι} {x : σ × κ → β × σ × κ} {next : β → Prog σ κ ι ε α}
      (h : Rest p (.step label x next)) (b : β) : Rest p (next b)

theorem Rest.always (h : Rest p q) (hp : p.Always G) : q.Always G := by
  induction h with
  | start => exact hp
  | step _ b ih => exact ih.2 b

end Prog

/-! ### Functions that only know their own part -/

namespace Prog

variable {σ κ ι ε ε' α β : Type} {M : ι → σ × κ → σ × κ → Prop} {Q Q' : α → κ → Prop}
  {R : β → κ → Prop} {E E' : ε → κ → Prop} {own : κ} {p : Prog σ κ ι ε α}

/-- Whatever the others do to the shared state in between, every step of the function is
one that `M` allows under its label, if the function starts with `own` to itself; where it
ends, `Q` holds of its result, or `E` of its error, and of what it then has to itself. -/
def Moves (M : ι → σ × κ → σ × κ → Prop) (Q : α → κ → Prop) (E : ε → κ → Prop) :
    κ → Prog σ κ ι ε α → Prop
  | own, done a => Q a own
  | own, fail e => E e own
  | own, step label x next => ∀ s, M label (s, own) (x (s, own)).2 ∧
      (next (x (s, own)).1).Moves M Q E (x (s, own)).2.2

/-- Nothing is left to do. -/
def Over : Prog σ κ ι ε α → Prop
  | done _ | fail _ => True
  | step .. => False

instance decidableOver : (p : Prog σ κ ι ε α) → Decidable p.Over
  | done _ | fail _ => isTrue trivial
  | step .. => isFalse id

theorem moves_pure {a : α} (h : Q a own) : Moves M Q E own (pure a : Prog σ κ ι ε α) := h

theorem moves_fail {e : ε} (h : E e own) : Moves M Q E own (.fail e : Prog σ κ ι ε α) := h

theorem moves_ofExcept {x : Except ε α} (hQ : ∀ a, x = .ok a → Q a own)
    (hE : ∀ e, x = .error e → E e own) : Moves M Q E own (ofExcept x : Prog σ κ ι ε α) := by
  cases x with
  | ok a => exact hQ a rfl
  | error e => exact hE e rfl

theorem Moves.mono (h : p.Moves M Q E own) (hQ : ∀ a own, Q a own → Q' a own)
    (hE : ∀ e own, E e own → E' e own) : p.Moves M Q' E' own := by
  induction p generalizing own with
  | done a => exact hQ a own h
  | fail e => exact hE e own h
  | step label x next ih => exact fun s => ⟨(h s).1, ih _ (h s).2⟩

theorem Moves.bind {f : α → Prog σ κ ι ε β} (h : p.Moves M Q E own)
    (hf : ∀ a own, Q a own → (f a).Moves M R E own) : (p >>= f).Moves M R E own := by
  induction p generalizing own with
  | done a => exact hf a own h
  | fail e => exact h
  | step label x next ih => exact fun s => ⟨(h s).1, ih _ (h s).2⟩

/-- An outcome that is handed over as a value. -/
theorem Moves.attempt {E₀ : ε' → κ → Prop} (h : p.Moves M Q E own) :
    (p.attempt : Prog σ κ ι ε' _).Moves M
      (fun r own => match r with
        | .ok a => Q a own
        | .error e => E e own) E₀ own := by
  induction p generalizing own with
  | done a => exact h
  | fail e => exact h
  | step label x next ih => exact fun s => ⟨(h s).1, ih _ (h s).2⟩

theorem moves_step {label : ι} {x : σ × κ → β × σ × κ}
    (h : ∀ s, M label (s, own) (x (s, own)).2 ∧ R (x (s, own)).1 (x (s, own)).2.2) :
    Moves M R E own (.step label x .done : Prog σ κ ι ε β) := h

/-- One step that may fail. -/
theorem moves_call {label : ι} {x : Fallible (σ × κ) ε α}
    (hreturns : ∀ s a t, Returns x (s, own) a t → M label (s, own) t ∧ Q a t.2)
    (hfails : ∀ s e t, Fails x (s, own) e t → M label (s, own) t ∧ E e t.2) :
    Moves M Q E own (.call label x : Prog σ κ ι ε α) := by
  intro s
  rcases hx : x.run (s, own) with ⟨a, t⟩ | ⟨e, t⟩
  · simp only [hx]
    exact hreturns s a t hx
  · simp only [hx]
    exact hfails s e t hx

theorem Moves.over (h : p.Moves M Q E own) (hover : p.Over) :
    (∃ a, Q a own) ∨ ∃ e, E e own := by
  cases p with
  | done a => exact .inl ⟨a, h⟩
  | fail e => exact .inr ⟨e, h⟩
  | step => exact hover.elim

end Prog

namespace Tasks

section Moves

variable {σ κ ι ε ρ : Type} {serve : ρ → Prog σ κ ι ε Unit} {new : κ} {s : σ}
  {c c' : Tasks σ κ ι ε} {turns : List (Turn ρ)} {turn : Turn ρ} {i : ℕ}
  {M : ι → σ × κ → σ × κ → Prop} {Q : κ → Prop}

/-- Every task is at a point of its function from where it keeps to `M`, and ends where
`Q` holds of what it has to itself. -/
def Moving (M : ι → σ × κ → σ × κ → Prop) (Q : κ → Prop) (c : Tasks σ κ ι ε) : Prop :=
  ∀ t ∈ c.tasks, t.2.Moves M (fun _ => Q) (fun _ => Q) t.1

/-- **A step of a task is one that `M` allows**, and leaves to the others what they have
to themselves. -/
theorem Moving.step (h : c.Moving M Q) (htake : c.take serve new (.step i) = some c') :
    c'.Moving M Q ∧ ∃ own own' label, c.tasks[i]?.map Prod.fst = some own ∧
      c'.tasks[i]?.map Prod.fst = some own' ∧ c.next i = some label ∧
      c.owns = own ::ₘ c.others i ∧ c'.owns = own' ::ₘ c.others i ∧
      (∀ j, j ≠ i → c'.tasks[j]? = c.tasks[j]?) ∧ M label (c.shared, own) (c'.shared, own') := by
  obtain ⟨own, β, label, x, next, hi, rfl⟩ := take_step htake
  have hlt := (List.getElem?_eq_some_iff.mp hi).1
  have hmoves := h _ (List.mem_of_getElem? hi) c.shared
  refine ⟨fun t ht => ?_, own, (x (c.shared, own)).2.2, label, by rw [hi]; rfl, ?_, ?_,
    owns_eq hi, owns_set hlt _ _ _, fun j hj => List.getElem?_set_ne (Ne.symm hj), hmoves.1⟩
  · rcases List.mem_or_eq_of_mem_set ht with ht | rfl
    · exact h t ht
    · exact hmoves.2
  · rw [List.getElem?_set_self hlt]
    rfl
  · rw [Tasks.next, hi]

/-- What one turn keeps of the tasks that are under way. -/
theorem Moving.take (hserve : ∀ request, (serve request).Moves M (fun _ => Q) (fun _ => Q) new)
    (h : c.Moving M Q) (htake : c.take serve new turn = some c') : c'.Moving M Q := by
  cases turn with
  | start request =>
    obtain rfl := Option.some.inj htake
    intro t ht
    rcases List.mem_append.mp ht with ht | ht
    · exact h t ht
    · rw [List.mem_singleton.mp ht]
      exact hserve request
  | step i => exact (h.step htake).1

theorem moving_start : Moving M Q (⟨s, []⟩ : Tasks σ κ ι ε) := nofun

/-- When every task is over, `Q` holds of what each has to itself. -/
theorem Moving.over (h : c.Moving M Q) (hover : ∀ t ∈ c.tasks, t.2.Over) : ∀ own ∈ c.owns, Q own := by
  intro own hown
  obtain ⟨t, ht, rfl⟩ := List.mem_map.mp (Multiset.mem_coe.mp hown)
  rcases (h t ht).over (hover t ht) with ⟨-, hq⟩ | ⟨-, hq⟩
  · exact hq
  · exact hq

/-- **What every move preserves, every run does**, if a run is only asked to be of turns
that meet a condition. -/
theorem invariant_of_moves (Inv : σ → Multiset κ → Prop) {guard : Tasks σ κ ι ε → Turn ρ → Prop}
    (hserve : ∀ request, (serve request).Moves M (fun _ => Q) (fun _ => Q) new)
    (hnew : ∀ {s owns}, Inv s owns → Inv s (new ::ₘ owns))
    (hmove : ∀ {c : Tasks σ κ ι ε} {i label own t own'}, guard c (.step i) →
      c.next i = some label → c.tasks[i]?.map Prod.fst = some own →
      Inv c.shared (own ::ₘ c.others i) →
      M label (c.shared, own) (t, own') → Inv t (own' ::ₘ c.others i))
    (hmoving : c.Moving M Q) (h : Run (Guarded (fun c turn c' => take serve new c turn = some c') guard)
      c turns c') (hinv : Inv c.shared c.owns) : c'.Moving M Q ∧ Inv c'.shared c'.owns := by
  refine h.invariant (fun c => c.Moving M Q ∧ Inv c.shared c.owns) ?_ ⟨hmoving, hinv⟩
  rintro c turn c' ⟨hmoving, hinv⟩ ⟨htake, hguard⟩
  refine ⟨hmoving.take hserve htake, ?_⟩
  cases turn with
  | start request =>
    obtain ⟨hshared, howns⟩ := owns_start htake
    rw [hshared, howns]
    exact hnew hinv
  | step i =>
    obtain ⟨-, own, own', label, hown, -, hnext, howns, howns', -, hmove'⟩ := hmoving.step htake
    rw [howns']
    exact hmove hguard hnext hown (howns ▸ hinv) hmove'

end Moves

variable {σ κ ι ε ρ : Type} {serve : ρ → Prog σ κ ι ε Unit} {new : κ} {s : σ}
  {c : Tasks σ κ ι ε} {turns : List (Turn ρ)} {i : ℕ}

/-- The requests that were started, the tasks' numbers their places. -/
def requests (turns : List (Turn ρ)) : List ρ :=
  turns.filterMap fun turn => match turn with
    | .start request => some request
    | .step _ => none

theorem requests_append (turns turns' : List (Turn ρ)) :
    requests (turns ++ turns') = requests turns ++ requests turns' := List.filterMap_append

/-- **Every task is about the request it was started on.** -/
theorem rest_of_run (h : Run (fun c turn c' => take serve new c turn = some c') ⟨s, []⟩ turns c) :
    c.tasks.length = (requests turns).length ∧ ∀ {i : ℕ} {own : κ} {p : Prog σ κ ι ε Unit},
      c.tasks[i]? = some (own, p) → ∃ request, (requests turns)[i]? = some request ∧
        Prog.Rest (serve request) p := by
  refine h.history (P := fun turns c => c.tasks.length = (requests turns).length ∧
    ∀ {i : ℕ} {own : κ} {p : Prog σ κ ι ε Unit}, c.tasks[i]? = some (own, p) →
      ∃ request, (requests turns)[i]? = some request ∧ Prog.Rest (serve request) p)
    ⟨rfl, fun hi => ?_⟩ ?_
  · obtain ⟨hlt, -⟩ := List.getElem?_eq_some_iff.mp hi
    exact absurd hlt (Nat.not_lt_zero _)
  rintro turns c turn c' - ⟨hlength, hrest⟩ htake
  cases turn with
  | start request =>
    obtain rfl := Option.some.inj htake
    have hrequests : requests (turns ++ [.start request]) = requests turns ++ [request] :=
      requests_append _ _
    rw [hrequests]
    refine ⟨by simp [hlength], fun {i own p} hi => ?_⟩
    rcases lt_or_ge i c.tasks.length with hlt | hge
    · rw [List.getElem?_append_left hlt] at hi
      obtain ⟨request', hreq, hr⟩ := hrest hi
      exact ⟨request', by rw [List.getElem?_append_left (hlength ▸ hlt), hreq], hr⟩
    · rw [List.getElem?_append_right hge] at hi
      obtain ⟨hlt, he⟩ := List.getElem?_eq_some_iff.mp hi
      -- it is the task just started, which has all of its call left
      have hzero : i = c.tasks.length := by
        rw [List.length_singleton] at hlt
        omega
      subst hzero
      have hp : p = serve request := by simpa using (congrArg Prod.snd he).symm
      refine ⟨request, ?_, hp ▸ .start⟩
      rw [hlength, List.getElem?_append_right le_rfl, Nat.sub_self]
      rfl
  | step j =>
    have hrequests : requests (turns ++ [.step j]) = requests turns :=
      (requests_append _ _).trans (List.append_nil _)
    obtain ⟨own, β, label, x, next, hj, rfl⟩ := take_step htake
    rw [hrequests]
    refine ⟨by rw [List.length_set, hlength], fun {i own' p} hi => ?_⟩
    by_cases hij : j = i
    · subst hij
      obtain ⟨hlt, he⟩ := List.getElem?_eq_some_iff.mp hi
      rw [List.getElem_set_self] at he
      obtain ⟨request, hreq, hr⟩ := hrest hj
      exact ⟨request, hreq, (Prod.mk.inj he).2 ▸ hr.step _⟩
    · rw [List.getElem?_set_ne hij] at hi
      exact hrest hi

end Tasks

end Foundations
