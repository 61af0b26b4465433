import KdxHotline.Foundations.Lockstep

/-!
# A task with nobody else around

What a function does if none but itself takes a step: in how many steps it ends, with what
outcome and in what state (`Foundations.Prog.Solo`). Sequences, outcomes that are handed
over as values, and functions of a part of the state compose; and what a function does on
its own is a run of many tasks in which only one ever takes a turn
(`Foundations.Prog.Solo.run`).
-/

namespace Foundations

namespace Prog

variable {σ σ' κ κ' ι ι' ε ε' ρ α β : Type} {allows : ι → Prop} {s t u : σ × κ} {m n : ℕ}

/-- On its own, the function ends with this outcome in that many steps, all of them allowed. -/
inductive Solo (allows : ι → Prop) : Prog σ κ ι ε α → σ × κ → ℕ → Except ε α → σ × κ → Prop
  | done (a : α) (s : σ × κ) : Solo allows (.done a) s 0 (.ok a) s
  | fail (e : ε) (s : σ × κ) : Solo allows (.fail e) s 0 (.error e) s
  | step {β : Type} {label : ι} {x : σ × κ → β × σ × κ} {next : β → Prog σ κ ι ε α} {s t : σ × κ}
      {n : ℕ} {r : Except ε α} (hlabel : allows label)
      (h : Solo allows (next (x s).1) (x s).2 n r t) : Solo allows (.step label x next) s (n + 1) r t

namespace Solo

variable {p : Prog σ κ ι ε α} {r : Except ε α}

/-- **Sequences take their steps one after the other.** -/
theorem bind {f : α → Prog σ κ ι ε β} {a : α} {r : Except ε β} (h : p.Solo allows s n (.ok a) t)
    (hf : (f a).Solo allows t m r u) : (p >>= f).Solo allows s (n + m) r u := by
  generalize hr : Except.ok a = outcome at h
  induction h with
  | done a s =>
    obtain rfl := Except.ok.inj hr
    rw [Nat.zero_add]
    exact hf
  | fail e s => cases hr
  | step hlabel _ ih =>
    rw [Nat.add_right_comm]
    exact .step hlabel (ih hf hr)

theorem bind_error {f : α → Prog σ κ ι ε β} {e : ε} (h : p.Solo allows s n (.error e) t) :
    (p >>= f).Solo allows s n (.error e) t := by
  generalize hr : Except.error e = outcome at h
  induction h with
  | done a s => cases hr
  | fail e s =>
    obtain rfl := Except.error.inj hr
    exact .fail _ s
  | step hlabel _ ih => exact .step hlabel (ih hr)

theorem attempt (h : p.Solo allows s n r t) :
    (p.attempt : Prog σ κ ι ε' _).Solo allows s n (.ok r) t := by
  induction h with
  | done a s => exact .done _ _
  | fail e s => exact .done _ _
  | step hlabel _ ih => exact .step hlabel ih

theorem single {label : ι} {x : σ × κ → β × σ × κ} (hlabel : allows label) :
    (Prog.step label x .done : Prog σ κ ι ε β).Solo allows s 1 (.ok (x s).1) (x s).2 :=
  .step hlabel (.done _ _)

theorem call {label : ι} {x : Fallible (σ × κ) ε α} {a : α} (hlabel : allows label)
    (h : Returns x s a t) : (Prog.call label x).Solo allows s 1 (.ok a) t := by
  have hx : x.run s = .ok a t := h
  refine .step hlabel ?_
  simp only [hx]
  exact .done a t

/-- A function of a part leaves alone what every change of the part leaves alone. -/
theorem lift {allows' : ι' → Prop} {f : Focus σ' σ} {g : Focus κ' κ} {l : ι → ι'} {s' : σ' × κ'}
    (P : σ' × κ' → Prop) (hset : ∀ a b w, P w → P (f.set a w.1, g.set b w.2))
    (hallows : ∀ label, allows label → allows' (l label)) (h : p.Solo allows s n r t)
    (hs : (f.get s'.1, g.get s'.2) = s) (hP : P s') :
    ∃ t', (p.lift f g l).Solo allows' s' n r t' ∧ P t' := by
  induction h generalizing s' with
  | done a s => exact ⟨s', .done a s', hP⟩
  | fail e s => exact ⟨s', .fail e s', hP⟩
  | @step β label x next s t n r hlabel _ ih =>
    have hnext : (f.get (f.set (x s).2.1 s'.1), g.get (g.set (x s).2.2 s'.2)) = (x s).2 := by
      rw [f.get_set, g.get_set]
    obtain ⟨t', ht', hP'⟩ := ih hnext (hset _ _ _ hP)
    refine ⟨t', .step (hallows _ hlabel) ?_, hP'⟩
    simp only [hs]
    exact ht'

/-- **What a task does on its own is a run in which it takes every turn.** -/
theorem run {serve : ρ → Prog σ κ ι ε Unit} {new : κ} {p : Prog σ κ ι ε Unit} {r : Except ε Unit}
    (h : p.Solo allows s n r t) : Run (Guarded (fun c turn d => Tasks.take serve new c turn = some d)
      (Tasks.Asked allows)) ⟨s.1, [(s.2, p)]⟩ (List.replicate n (.step 0)) ⟨t.1, [(t.2, ofExcept r)]⟩ := by
  induction h with
  | done a s => exact .nil _
  | fail e s => exact .nil _
  | step hlabel _ ih =>
    refine .cons ⟨rfl, fun label' hnext => ?_⟩ ih
    obtain rfl := Option.some.inj hnext
    exact hlabel

end Solo

end Prog

end Foundations
