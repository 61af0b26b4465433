/-!
# Runs of a transition system

A transition system is a relation `step s a t`: from `s`, the action `a` may lead
to `t`. A run is a list of actions taken one after another. What one step
preserves, a run preserves (`Foundations.Run.invariant`); when a step preserves
it only under a condition on the state it starts from, a run all of whose steps
meet the condition still does (`Foundations.Guarded`).
-/

namespace Foundations

section Runs

universe u v

variable {σ : Type u} {α : Type v} {step : σ → α → σ → Prop} {s t u : σ} {a : α} {as bs : List α}

/-- The actions `as`, taken in turn, may lead from the first state to the last. -/
inductive Run (step : σ → α → σ → Prop) : σ → List α → σ → Prop
  | nil (s : σ) : Run step s [] s
  | cons {s t u : σ} {a : α} {as : List α} (h : step s a t) (hs : Run step t as u) :
      Run step s (a :: as) u

/-- The steps of `step` that start where `guard` holds. -/
def Guarded (step : σ → α → σ → Prop) (guard : σ → α → Prop) (s : σ) (a : α) (t : σ) : Prop :=
  step s a t ∧ guard s a

namespace Run

theorem append (h : Run step s as t) (h' : Run step t bs u) : Run step s (as ++ bs) u := by
  induction h with
  | nil => exact h'
  | cons hstep _ ih => exact .cons hstep (ih h')

/-- **What every step preserves, every run preserves.** -/
theorem invariant (Inv : σ → Prop) (hstep : ∀ s a t, Inv s → step s a t → Inv t)
    (h : Run step s as t) (hs : Inv s) : Inv t := by
  induction h with
  | nil => exact hs
  | cons h₁ _ ih => exact ih (hstep _ _ _ hs h₁)

/-- **What every step keeps of the actions so far, every run does.** -/
theorem history {P : List α → σ → Prop} (hnil : P [] s)
    (hstep : ∀ {as t a u}, Run step s as t → P as t → step t a u → P (as ++ [a]) u)
    (h : Run step s as t) : P as t := by
  have hgeneral : ∀ {t bs u}, Run step t bs u → ∀ as, Run step s as t → P as t → P (as ++ bs) u := by
    intro t bs u h
    induction h with
    | nil =>
      intro as _ hP
      rw [List.append_nil]
      exact hP
    | cons h₁ _ ih =>
      intro as hrun hP
      rw [List.append_cons]
      exact ih _ (hrun.append (.cons h₁ (.nil _))) (hstep hrun hP h₁)
  exact hgeneral h [] (.nil s) hnil

/-- A run of some of the steps is a run. -/
theorem mono {step' : σ → α → σ → Prop} (hsub : ∀ {s a t}, step s a t → step' s a t)
    (h : Run step s as t) : Run step' s as t := by
  induction h with
  | nil => exact .nil _
  | cons h₁ _ ih => exact .cons (hsub h₁) ih

end Run

/-- Take the actions in turn, where a step is a function that may refuse one. -/
def perform (f : σ → α → Option σ) : σ → List α → Option σ
  | s, [] => some s
  | s, a :: as => (f s a).bind fun t => perform f t as

theorem perform_append (f : σ → α → Option σ) (s : σ) (as bs : List α) :
    perform f s (as ++ bs) = (perform f s as).bind fun t => perform f t bs := by
  induction as generalizing s with
  | nil => rfl
  | cons a as ih =>
    rw [List.cons_append, perform, perform, Option.bind_assoc]
    simp only [ih]

/-- A run of a step function can be computed. -/
theorem run_of_perform {f : σ → α → Option σ} : ∀ {as : List α} {s : σ}, perform f s as = some t →
    Run (fun s a t => f s a = some t) s as t
  | [], s, h => Option.some.inj h ▸ .nil s
  | a :: as, s, h => by
    obtain ⟨u, hu, h⟩ := Option.bind_eq_some_iff.mp h
    exact .cons hu (run_of_perform h)

/-- What a run of a step function leads to is what it computes. -/
theorem perform_of_run {f : σ → α → Option σ} (h : Run (fun s a t => f s a = some t) s as t) :
    perform f s as = some t := by
  induction h with
  | nil => rfl
  | cons h₁ _ ih => rw [perform, h₁, Option.bind_some, ih]

/-- A run whose steps all meet a condition can be computed. -/
theorem guarded_of_perform {f : σ → α → Option σ} {guard : σ → α → Prop}
    [∀ s a, Decidable (guard s a)] : ∀ {as : List α} {s : σ},
    perform (fun s a => if guard s a then f s a else none) s as = some t →
      Run (Guarded (fun s a t => f s a = some t) guard) s as t
  | [], s, h => Option.some.inj h ▸ .nil s
  | a :: as, s, h => by
    obtain ⟨u, hu, h⟩ := Option.bind_eq_some_iff.mp h
    dsimp only at hu
    split at hu
    case isTrue hguard => exact .cons ⟨hu, hguard⟩ (guarded_of_perform h)
    case isFalse => cases hu

end Runs

end Foundations
