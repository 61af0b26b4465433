import Mathlib.Logic.Basic
import Mathlib.Tactic.Common

/-!
# Computations that may fail half way

A server request is a sequence of checks and writes, any of which may end it
with an error; what it has written by then stays written. That is the monad
`EStateM`: a failed computation still hands back a state. This file gives the
few rules every proof about such a computation peels it apart with, so that no
proof unfolds the monad.

* `Foundations.Returns` and `Foundations.Fails` say what a run from a given
  state did; `Foundations.returns_bind` and `Foundations.fails_bind` split a
  sequence.
* `Foundations.Keeps` is a computation that never changes a given view of the
  state, and `Foundations.Atomic` one that leaves it alone *when it fails*.
  Reads followed by an atomic step are atomic (`Foundations.Keeps.atomic_bind`),
  and an atomic step may be followed by anything that cannot fail
  (`Foundations.Atomic.bind_total`): together they are the usual shape “check,
  write once, then update memory”.
* `Foundations.refuseIf` is the guard `if c { return Err(e) }`.
-/

namespace Foundations

/-! ### Guards and sequences of pure checks -/

section Checks

variable {ε α β : Type}

/-- The guard `if c { return Err(e) }`. -/
def refuseIf (c : Bool) (e : ε) : Except ε Unit := if c then .error e else .ok ()

@[simp] theorem refuseIf_eq_ok {c : Bool} {e : ε} {u : Unit} :
    refuseIf c e = .ok u ↔ c = false := by
  cases c <;> simp [refuseIf]

theorem refuseIf_bind {β : Type} {c : Bool} {e : ε} {f : Unit → Except ε β} :
    (refuseIf c e >>= f) = if c then .error e else f () := by
  cases c <;> rfl

@[simp] theorem refuseIf_eq_error {c : Bool} {e e' : ε} :
    refuseIf c e = .error e' ↔ c = true ∧ e = e' := by
  cases c <;> simp [refuseIf]

@[simp] theorem ok_bind {a : α} {f : α → Except ε β} : (Except.ok a >>= f) = f a := rfl

@[simp] theorem error_bind {e : ε} {f : α → Except ε β} :
    ((Except.error e : Except ε α) >>= f) = .error e := rfl

/-- A sequence of checks passes when each of them does. -/
theorem checks_pass {x : Except ε α} {f : α → Except ε β} {b : β} :
    (x >>= f) = .ok b ↔ ∃ a, x = .ok a ∧ f a = .ok b := by
  cases x <;> simp [bind, Except.bind]

/-- A sequence of checks is refused by the first one that fails. -/
theorem checks_refuse {x : Except ε α} {f : α → Except ε β} {e : ε} :
    (x >>= f) = .error e ↔ x = .error e ∨ ∃ a, x = .ok a ∧ f a = .error e := by
  cases x <;> simp [bind, Except.bind]

/-- A check that reports its error as another passes when it does. -/
theorem mapError_eq_ok {ε' : Type} {f : ε → ε'} {x : Except ε α} {a : α} :
    x.mapError f = .ok a ↔ x = .ok a := by
  cases x <;> simp [Except.mapError]

/-- Reading an optional value, with the error for its absence. -/
def required (e : ε) : Option α → Except ε α
  | some a => .ok a
  | none => .error e

@[simp] theorem required_eq_ok {e : ε} {o : Option α} {a : α} :
    required e o = .ok a ↔ o = some a := by
  cases o <;> simp [required]

end Checks

/-! ### Runs of a fallible computation -/

/-- A computation over a state `σ` that may fail with an `ε`. -/
abbrev Fallible (σ ε α : Type) : Type := EStateM ε σ α

section Runs

variable {σ ε ε' α β : Type}

/-- From `s` the computation returns `a` and leaves `t`. -/
def Returns (x : Fallible σ ε α) (s : σ) (a : α) (t : σ) : Prop := x.run s = .ok a t

/-- From `s` the computation fails with `e` and leaves `t`. -/
def Fails (x : Fallible σ ε α) (s : σ) (e : ε) (t : σ) : Prop := x.run s = .error e t

/-- A pure sequence of checks, run as a step of a computation. -/
def check (x : Except ε α) : Fallible σ ε α := fun s =>
  match x with
  | .ok a => .ok a s
  | .error e => .error e s

/-- Run a computation and hand its outcome over as a value. -/
def attempt (x : Fallible σ ε α) : Fallible σ ε' (Except ε α) := fun s =>
  match x.run s with
  | .ok a t => .ok (.ok a) t
  | .error e t => .ok (.error e) t

@[simp] theorem returns_pure {s t : σ} {a b : α} :
    Returns (pure a : Fallible σ ε α) s b t ↔ a = b ∧ s = t := by
  simp [Returns, EStateM.run, pure, EStateM.pure]

@[simp] theorem fails_pure {s t : σ} {a : α} {e : ε} :
    ¬Fails (pure a : Fallible σ ε α) s e t := by
  simp [Fails, EStateM.run, pure, EStateM.pure]

@[simp] theorem returns_check {x : Except ε α} {s t : σ} {a : α} :
    Returns (check x) s a t ↔ x = .ok a ∧ s = t := by
  cases x <;> simp [Returns, EStateM.run, check]

@[simp] theorem fails_check {x : Except ε α} {s t : σ} {e : ε} :
    Fails (check x) s e t ↔ x = .error e ∧ s = t := by
  cases x <;> simp [Fails, EStateM.run, check]

@[simp] theorem returns_get {s t a : σ} :
    Returns (get : Fallible σ ε σ) s a t ↔ s = a ∧ s = t := by
  show (EStateM.Result.ok s s : EStateM.Result ε σ σ) = .ok a t ↔ _
  rw [EStateM.Result.ok.injEq]

@[simp] theorem fails_get {s t : σ} {e : ε} : ¬Fails (get : Fallible σ ε σ) s e t := by
  show ¬(EStateM.Result.ok s s : EStateM.Result ε σ σ) = .error e t
  exact nofun

@[simp] theorem returns_modify {f : σ → σ} {s t : σ} {u : PUnit} :
    Returns (modify f : Fallible σ ε PUnit) s u t ↔ f s = t := by
  show (EStateM.Result.ok PUnit.unit (f s) : EStateM.Result ε σ PUnit) = .ok u t ↔ _
  simp

@[simp] theorem fails_modify {f : σ → σ} {s t : σ} {e : ε} :
    ¬Fails (modify f : Fallible σ ε PUnit) s e t := by
  show ¬(EStateM.Result.ok PUnit.unit (f s) : EStateM.Result ε σ PUnit) = .error e t
  exact nofun

/-- **A sequence returns when both parts do.** -/
theorem returns_bind {x : Fallible σ ε α} {f : α → Fallible σ ε β} {s u : σ} {b : β} :
    Returns (x >>= f) s b u ↔ ∃ a t, Returns x s a t ∧ Returns (f a) t b u := by
  simp only [Returns, EStateM.run, bind, EStateM.bind]
  cases h : x s <;> simp

/-- **A sequence fails when its first part does, or the second after it.** -/
theorem fails_bind {x : Fallible σ ε α} {f : α → Fallible σ ε β} {s u : σ} {e : ε} :
    Fails (x >>= f) s e u ↔ Fails x s e u ∨ ∃ a t, Returns x s a t ∧ Fails (f a) t e u := by
  simp only [Returns, Fails, EStateM.run, bind, EStateM.bind]
  cases h : x s <;> simp

/-- What follows a first part that returns goes on where it left. -/
theorem run_bind {x : Fallible σ ε α} {f : α → Fallible σ ε β} {s t : σ} {a : α}
    (h : Returns x s a t) : (x >>= f).run s = (f a).run t := by
  simp only [Returns, EStateM.run] at h
  simp only [EStateM.run, bind, EStateM.bind, h]

@[simp] theorem returns_map {f : α → β} {x : Fallible σ ε α} {s t : σ} {b : β} :
    Returns (f <$> x) s b t ↔ ∃ a, Returns x s a t ∧ f a = b := by
  simp only [Returns, EStateM.run, Functor.map, EStateM.map]
  cases h : x s <;> simp [and_comm]

@[simp] theorem fails_map {f : α → β} {x : Fallible σ ε α} {s t : σ} {e : ε} :
    Fails (f <$> x) s e t ↔ Fails x s e t := by
  simp only [Fails, EStateM.run, Functor.map, EStateM.map]
  cases h : x s <;> simp

theorem returns_attempt {x : Fallible σ ε α} {s t : σ} {r : Except ε α} :
    Returns (attempt x : Fallible σ ε' _) s r t ↔
      (∃ a, r = .ok a ∧ Returns x s a t) ∨ (∃ e, r = .error e ∧ Fails x s e t) := by
  simp only [Returns, Fails, EStateM.run, attempt]
  cases h : x s <;> cases r <;> simp [eq_comm]

@[simp] theorem fails_attempt {x : Fallible σ ε α} {s t : σ} {e : ε'} :
    ¬Fails (attempt x : Fallible σ ε' _) s e t := by
  simp only [Fails, EStateM.run, attempt]
  cases h : x s <;> simp

/-- Report the errors of a computation as other errors. -/
def mapError (f : ε → ε') (x : Fallible σ ε α) : Fallible σ ε' α := fun s =>
  match x.run s with
  | .ok a t => .ok a t
  | .error e t => .error (f e) t

@[simp] theorem returns_mapError {f : ε → ε'} {x : Fallible σ ε α} {s t : σ} {a : α} :
    Returns (mapError f x) s a t ↔ Returns x s a t := by
  simp only [Returns, EStateM.run, mapError]
  cases h : x s <;> simp

theorem fails_mapError {f : ε → ε'} {x : Fallible σ ε α} {s t : σ} {e' : ε'} :
    Fails (mapError f x) s e' t ↔ ∃ e, Fails x s e t ∧ f e = e' := by
  simp only [Fails, EStateM.run, mapError]
  cases h : x s <;> simp [and_comm]

/-- Whether the computation returns from `s`. -/
def succeeds (x : Fallible σ ε α) (s : σ) : Bool :=
  match x.run s with
  | .ok _ _ => true
  | .error _ _ => false

/-- The state the computation leaves, whether it returns or fails. -/
def leaves (x : Fallible σ ε α) (s : σ) : σ :=
  match x.run s with
  | .ok _ t => t
  | .error _ t => t

theorem returns_of_succeeds {x : Fallible σ ε Unit} {s : σ} (h : succeeds x s = true) :
    Returns x s () (leaves x s) := by
  simp only [Returns, succeeds, leaves] at *
  cases hx : x.run s with
  | ok a t => rfl
  | error e t => simp [hx] at h

/-- Two runs of one computation from one state agree. -/
theorem Returns.unique {x : Fallible σ ε α} {s t t' : σ} {a a' : α} (h : Returns x s a t)
    (h' : Returns x s a' t') : a = a' ∧ t = t' := by
  have hr : EStateM.Result.ok (ε := ε) a t = .ok a' t' := h.symm.trans h'
  cases hr
  exact ⟨rfl, rfl⟩

/-- Every run either returns or fails. -/
theorem returns_or_fails (x : Fallible σ ε α) (s : σ) :
    (∃ a t, Returns x s a t) ∨ ∃ e t, Fails x s e t := by
  simp only [Returns, Fails]
  cases h : x.run s <;> simp

/-- From `s` the computation ends with this outcome, and leaves `t`. -/
def Ends (x : Fallible σ ε α) (s : σ) (r : Except ε α) (t : σ) : Prop :=
  x.run s = match r with
    | .ok a => .ok a t
    | .error e => .error e t

/-- A run that ends returns or fails. -/
theorem Ends.returns_or_fails {x : Fallible σ ε α} {s t : σ} {r : Except ε α} (h : Ends x s r t) :
    (∃ a, Returns x s a t) ∨ ∃ e, Fails x s e t := by
  cases r with
  | ok a => exact .inl ⟨a, h⟩
  | error e => exact .inr ⟨e, h⟩

/-- A computation ends in one way. -/
theorem Ends.unique {x : Fallible σ ε α} {s t t' : σ} {r r' : Except ε α} (h : Ends x s r t)
    (h' : Ends x s r' t') : r = r' ∧ t = t' := by
  have hr := h.symm.trans h'
  cases r <;> cases r' <;> cases hr <;> exact ⟨rfl, rfl⟩

/-- **A sequence ends where its first part fails, or as the second does after
it.** -/
theorem ends_bind {x : Fallible σ ε α} {f : α → Fallible σ ε β} {s u : σ} {r : Except ε β} :
    Ends (x >>= f) s r u ↔
      (∃ e, r = .error e ∧ Fails x s e u) ∨ ∃ a t, Returns x s a t ∧ Ends (f a) t r u := by
  simp only [Ends, Returns, Fails, EStateM.run, bind, EStateM.bind]
  cases h : x s <;> cases r <;> simp [eq_comm]

theorem ends_get_bind {f : σ → Fallible σ ε β} {s u : σ} {r : Except ε β} :
    Ends (get >>= f) s r u ↔ Ends (f s) s r u := Iff.rfl

theorem ends_modify_bind {g : σ → σ} {f : PUnit → Fallible σ ε β} {s u : σ} {r : Except ε β} :
    Ends (modify g >>= f) s r u ↔ Ends (f ⟨⟩) (g s) r u := Iff.rfl

theorem ends_modify {g : σ → σ} {s u : σ} {r : Except ε PUnit} :
    Ends (modify g : Fallible σ ε PUnit) s r u ↔ r = .ok ⟨⟩ ∧ g s = u := by
  cases r with
  | ok a => exact returns_modify.trans ⟨fun h => ⟨rfl, h⟩, fun h => h.2⟩
  | error e => exact iff_of_false fails_modify nofun

theorem ends_pure {a : α} {s u : σ} {r : Except ε α} :
    Ends (pure a : Fallible σ ε α) s r u ↔ r = .ok a ∧ s = u := by
  cases r with
  | ok b => exact returns_pure.trans (and_congr_left fun _ => ⟨fun h => h ▸ rfl, fun h => (Except.ok.inj h).symm⟩)
  | error e => exact iff_of_false fails_pure nofun

theorem ends_check {x r : Except ε α} {s u : σ} : Ends (check x) s r u ↔ r = x ∧ s = u := by
  cases r with
  | ok a => exact returns_check.trans (and_congr_left fun _ => eq_comm)
  | error e => exact fails_check.trans (and_congr_left fun _ => eq_comm)

/-- What is attempted returns or fails, and what follows knows which. -/
theorem ends_attempt_bind {x : Fallible σ ε α} {f : Except ε α → Fallible σ ε' β} {s u : σ}
    {r : Except ε' β} : Ends (attempt x >>= f) s r u ↔
      (∃ a t, Returns x s a t ∧ Ends (f (.ok a)) t r u) ∨
        ∃ e t, Fails x s e t ∧ Ends (f (.error e)) t r u := by
  simp only [Ends, Returns, Fails, EStateM.run, bind, EStateM.bind, attempt]
  cases h : x s <;> simp

/-- What a run answers, whatever state it leaves. -/
def outcome (x : Fallible σ ε α) (s : σ) : Except ε α :=
  match x.run s with
  | .ok a _ => .ok a
  | .error e _ => .error e

theorem Returns.outcome {x : Fallible σ ε α} {s t : σ} {a : α} (h : Returns x s a t) :
    outcome x s = .ok a := by
  rw [Foundations.outcome, show x.run s = .ok a t from h]

theorem Fails.outcome {x : Fallible σ ε α} {s t : σ} {e : ε} (h : Fails x s e t) :
    outcome x s = .error e := by
  rw [Foundations.outcome, show x.run s = .error e t from h]

/-- A run that answers with an error fails with it. -/
theorem fails_of_outcome {x : Fallible σ ε α} {s : σ} {e : ε} (h : outcome x s = .error e) :
    Fails x s e (leaves x s) := by
  simp only [Fails, outcome, leaves] at *
  cases hx : x.run s with
  | ok a t => simp [hx] at h
  | error e' t => simpa [hx] using h

/-- Every run ends with what it answers and leaves. -/
theorem ends_leaves (x : Fallible σ ε α) (s : σ) : Ends x s (outcome x s) (leaves x s) := by
  simp only [Ends, outcome, leaves]
  cases x.run s <;> rfl

theorem outcome_check_bind {x : Except ε α} {f : α → Fallible σ ε β} {s : σ} :
    outcome (check x >>= f) s = x >>= fun a => outcome (f a) s := by
  cases x <;> rfl

theorem outcome_get_bind {f : σ → Fallible σ ε α} {s : σ} : outcome (get >>= f) s = outcome (f s) s :=
  rfl

/-! ### What a computation leaves alone

A state usually carries more than what a property is about (the faults still to
come, a log of what was sent), so both notions below are about a *view* of it. -/

variable {τ : Type} {v : σ → τ}

/-- Whatever the computation does, it leaves the view `v` of the state alone. -/
structure Keeps (v : σ → τ) (x : Fallible σ ε α) : Prop where
  returns : ∀ {s a t}, Returns x s a t → v t = v s
  fails : ∀ {s e t}, Fails x s e t → v t = v s

/-- When the computation fails, it leaves the view `v` of the state alone. -/
structure Atomic (v : σ → τ) (x : Fallible σ ε α) : Prop where
  fails : ∀ {s e t}, Fails x s e t → v t = v s

theorem Keeps.ends {x : Fallible σ ε α} (h : Keeps v x) {s t : σ} {r : Except ε α}
    (hr : Ends x s r t) : v t = v s := by
  cases r with
  | ok a => exact h.returns hr
  | error e => exact h.fails hr

theorem Keeps.atomic {x : Fallible σ ε α} (h : Keeps v x) : Atomic v x := ⟨h.fails⟩

/-- What is computed from a view that is left alone is left alone too. -/
theorem Keeps.map {ω : Type} (g : τ → ω) {x : Fallible σ ε α} (h : Keeps v x) :
    Keeps (fun s => g (v s)) x :=
  ⟨fun hr => congrArg g (h.returns hr), fun hf => congrArg g (h.fails hf)⟩

theorem keeps_pure (a : α) : Keeps v (pure a : Fallible σ ε α) :=
  ⟨fun h => by rw [(returns_pure.mp h).2], fun h => absurd h fails_pure⟩

theorem keeps_check (x : Except ε α) : Keeps v (check x : Fallible σ ε α) :=
  ⟨fun h => by rw [(returns_check.mp h).2], fun h => by rw [(fails_check.mp h).2]⟩

theorem keeps_get : Keeps v (get : Fallible σ ε σ) :=
  ⟨fun h => by rw [(returns_get.mp h).2], fun h => absurd h fails_get⟩

theorem Keeps.bind {x : Fallible σ ε α} {f : α → Fallible σ ε β} (hx : Keeps v x)
    (hf : ∀ a, Keeps v (f a)) : Keeps v (x >>= f) where
  returns h := by
    obtain ⟨a, t, h₁, h₂⟩ := returns_bind.mp h
    rw [(hf a).returns h₂, hx.returns h₁]
  fails h := by
    rcases fails_bind.mp h with h₁ | ⟨a, t, h₁, h₂⟩
    · exact hx.fails h₁
    · rw [(hf a).fails h₂, hx.returns h₁]

theorem Keeps.attempt {x : Fallible σ ε α} (hx : Keeps v x) :
    Keeps v (attempt x : Fallible σ ε' _) where
  returns h := by
    rcases returns_attempt.mp h with ⟨a, -, h₁⟩ | ⟨e, -, h₁⟩
    · exact hx.returns h₁
    · exact hx.fails h₁
  fails h := absurd h fails_attempt

theorem Keeps.mapError {x : Fallible σ ε α} (hx : Keeps v x) (f : ε → ε') :
    Keeps v (mapError f x) where
  returns h := hx.returns (returns_mapError.mp h)
  fails h := by
    obtain ⟨e, h₁, -⟩ := fails_mapError.mp h
    exact hx.fails h₁

/-- Two views that are left alone are left alone together. -/
theorem Keeps.prod {ω : Type} {v' : σ → ω} {x : Fallible σ ε α} (h : Keeps v x) (h' : Keeps v' x) :
    Keeps (fun s => (v s, v' s)) x :=
  ⟨fun hr => Prod.ext (h.returns hr) (h'.returns hr), fun hf => Prod.ext (h.fails hf) (h'.fails hf)⟩

theorem Atomic.prod {ω : Type} {v' : σ → ω} {x : Fallible σ ε α} (h : Atomic v x)
    (h' : Atomic v' x) : Atomic (fun s => (v s, v' s)) x :=
  ⟨fun hf => Prod.ext (h.fails hf) (h'.fails hf)⟩

theorem Atomic.mapError {x : Fallible σ ε α} (hx : Atomic v x) (f : ε → ε') :
    Atomic v (mapError f x) where
  fails h := by
    obtain ⟨e', h₁, -⟩ := fails_mapError.mp h
    exact hx.fails h₁

/-- **Checks before an atomic step leave it atomic.** -/
theorem Keeps.atomic_bind {x : Fallible σ ε α} {f : α → Fallible σ ε β} (hx : Keeps v x)
    (hf : ∀ a, Atomic v (f a)) : Atomic v (x >>= f) where
  fails h := by
    rcases fails_bind.mp h with h₁ | ⟨a, t, h₁, h₂⟩
    · exact hx.fails h₁
    · rw [(hf a).fails h₂, hx.returns h₁]

/-- **An atomic step may be followed by anything that cannot fail.** -/
theorem Atomic.bind_total {x : Fallible σ ε α} {f : α → Fallible σ ε β} (hx : Atomic v x)
    (hf : ∀ a s e t, ¬Fails (f a) s e t) : Atomic v (x >>= f) where
  fails h := by
    rcases fails_bind.mp h with h₁ | ⟨a, t, -, h₂⟩
    · exact hx.fails h₁
    · exact absurd h₂ (hf a _ _ _)

/-! ### What a computation may do at all

Whether it returns or fails, and however far it gets. -/

/-- However a run of the computation ends, the state it leaves is related to the one
it started from. -/
structure Confined (R : σ → σ → Prop) (x : Fallible σ ε α) : Prop where
  returns : ∀ {s a t}, Returns x s a t → R s t
  fails : ∀ {s e t}, Fails x s e t → R s t

variable {R : σ → σ → Prop}

theorem Keeps.confined {x : Fallible σ ε α} (h : Keeps v x) (hR : ∀ {s t}, v t = v s → R s t) :
    Confined R x :=
  ⟨fun hr => hR (h.returns hr), fun hf => hR (h.fails hf)⟩

/-- An atomic computation need only be looked at when it returns. -/
theorem Atomic.confined {x : Fallible σ ε α} (h : Atomic v x) (hR : ∀ {s t}, v t = v s → R s t)
    (hret : ∀ {s a t}, Returns x s a t → R s t) : Confined R x :=
  ⟨hret, fun hf => hR (h.fails hf)⟩

theorem Confined.bind [Trans R R R] {x : Fallible σ ε α} {f : α → Fallible σ ε β} (hx : Confined R x)
    (hf : ∀ a, Confined R (f a)) : Confined R (x >>= f) where
  returns h := by
    obtain ⟨a, t, h₁, h₂⟩ := returns_bind.mp h
    exact Trans.trans (hx.returns h₁) ((hf a).returns h₂)
  fails h := by
    rcases fails_bind.mp h with h₁ | ⟨a, t, h₁, h₂⟩
    · exact hx.fails h₁
    · exact Trans.trans (hx.returns h₁) ((hf a).fails h₂)

end Runs

/-! ### One component of a larger state -/

/-- A component of a state that can be read and replaced. -/
structure Focus (σ τ : Type) where
  get : σ → τ
  set : τ → σ → σ
  get_set : ∀ t s, get (set t s) = t

section Fields

variable {σ τ ε α ω : Type}

/-- Run a computation on one component of the state. -/
def zoom (f : Focus σ τ) (x : Fallible τ ε α) : Fallible σ ε α := fun s =>
  match x.run (f.get s) with
  | .ok a t => .ok a (f.set t s)
  | .error e t => .error e (f.set t s)

variable {f : Focus σ τ} {x : Fallible τ ε α} {s s' : σ}

theorem returns_zoom {a : α} :
    Returns (zoom f x) s a s' ↔ ∃ t, Returns x (f.get s) a t ∧ f.set t s = s' := by
  simp only [Returns, EStateM.run, zoom]
  cases h : x (f.get s) <;> simp [and_assoc]

theorem fails_zoom {e : ε} :
    Fails (zoom f x) s e s' ↔ ∃ t, Fails x (f.get s) e t ∧ f.set t s = s' := by
  simp only [Fails, EStateM.run, zoom]
  cases h : x (f.get s) <;> simp [and_assoc]

/-- What a computation keeps of a component, it keeps of the whole state. -/
theorem Keeps.zoom {v : τ → ω} (h : Keeps v x) : Keeps (v ∘ f.get) (zoom f x) where
  returns hr := by
    obtain ⟨t, h₁, rfl⟩ := returns_zoom.mp hr
    simp only [Function.comp, f.get_set, h.returns h₁]
  fails hf := by
    obtain ⟨t, h₁, rfl⟩ := fails_zoom.mp hf
    simp only [Function.comp, f.get_set, h.fails h₁]

theorem Atomic.zoom {v : τ → ω} (h : Atomic v x) : Atomic (v ∘ f.get) (zoom f x) where
  fails hf := by
    obtain ⟨u, h₁, rfl⟩ := fails_zoom.mp hf
    simp only [Function.comp, f.get_set, h.fails h₁]

/-- A view that the component has no part in is left alone. -/
theorem keeps_zoom_frame {u : σ → ω} (hframe : ∀ t s, u (f.set t s) = u s) :
    Keeps u (zoom f x) where
  returns hr := by
    obtain ⟨t, -, rfl⟩ := returns_zoom.mp hr
    exact hframe t _
  fails hf := by
    obtain ⟨t, -, rfl⟩ := fails_zoom.mp hf
    exact hframe t _

end Fields

end Foundations
