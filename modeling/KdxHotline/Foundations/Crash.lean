import KdxHotline.Foundations.Tasks

/-!
# Functions that may be cut off

A program that repairs what a crash has left may itself be cut off by the next one, after any of its
steps (`Foundations.Prog.cutOff`). What is said of it then is said of every state between two steps, not
only of the last one: `Foundations.Prog.Lasts` says both, and its rules follow the constructs of a
function.
-/

namespace Foundations

namespace Prog

variable {σ κ ι ε ε' α β : Type}

/-- The state that a function leaves behind that is cut off after so many steps. -/
def cutOff : ℕ → Prog σ κ ι ε α → σ × κ → σ × κ
  | n + 1, step _ x next, s => (next (x s).1).cutOff n (x s).2
  | _, _, s => s

/-- With nobody else around, every step of the function leads to a state that `I` holds of; where it
ends, `Q` holds of its result, or `E` of its error. -/
def Lasts (I : σ × κ → Prop) (Q : α → σ × κ → Prop) (E : ε → σ × κ → Prop) :
    Prog σ κ ι ε α → σ × κ → Prop
  | done a, s => Q a s
  | fail e, s => E e s
  | step _ x next, s => I (x s).2 ∧ (next (x s).1).Lasts I Q E (x s).2

section Lasts

variable {I : σ × κ → Prop} {Q Q' : α → σ × κ → Prop} {R : β → σ × κ → Prop} {E E' : ε → σ × κ → Prop}
  {s t : σ × κ} {p : Prog σ κ ι ε α}

theorem lasts_pure {a : α} (h : Q a s) : (pure a : Prog σ κ ι ε α).Lasts I Q E s := h

theorem Lasts.mono (h : p.Lasts I Q E s) (hQ : ∀ a t, Q a t → Q' a t) (hE : ∀ e t, E e t → E' e t) :
    p.Lasts I Q' E' s := by
  induction p generalizing s with
  | done a => exact hQ a s h
  | fail e => exact hE e s h
  | step label x next ih => exact ⟨h.1, ih _ h.2⟩

theorem Lasts.bind {f : α → Prog σ κ ι ε β} (h : p.Lasts I Q E s)
    (hf : ∀ a t, Q a t → (f a).Lasts I R E t) : (p >>= f).Lasts I R E s := by
  induction p generalizing s with
  | done a => exact hf a s h
  | fail e => exact h
  | step label x next ih => exact ⟨h.1, ih _ h.2⟩

/-- What follows a function starts where the function ends. -/
theorem lasts_bind {f : α → Prog σ κ ι ε β} (h : p.Lasts I (fun a t => (f a).Lasts I R E t) E s) :
    (p >>= f).Lasts I R E s := h.bind fun _ _ hf => hf

theorem lasts_attempt {Q : Except ε α → σ × κ → Prop} {E₀ : ε' → σ × κ → Prop}
    (h : p.Lasts I (fun a => Q (.ok a)) (fun e => Q (.error e)) s) :
    (p.attempt : Prog σ κ ι ε' _).Lasts I Q E₀ s := by
  induction p generalizing s with
  | done a => exact h
  | fail e => exact h
  | step label x next ih => exact ⟨h.1, ih _ h.2⟩

theorem lasts_step {label : ι} {x : σ × κ → β × σ × κ} (hI : I (x s).2) (hR : R (x s).1 (x s).2) :
    (.step label x pure : Prog σ κ ι ε β).Lasts I R E s := ⟨hI, hR⟩

/-- A step that returns. -/
theorem lasts_call {label : ι} {x : Fallible (σ × κ) ε α} {a : α} (h : Returns x s a t) (hI : I t)
    (hQ : Q a t) : (.call label x : Prog σ κ ι ε α).Lasts I Q E s := by
  have hx : x.run s = .ok a t := h
  simp only [call, Lasts, hx]
  exact ⟨hI, hQ⟩

/-- **Wherever the function is cut off**, `I` holds of what it leaves. -/
theorem Lasts.cutOff (h : p.Lasts I Q E s) (hs : I s) (n : ℕ) : I (p.cutOff n s) := by
  induction n generalizing p s with
  | zero => exact hs
  | succ n ih =>
    cases p with
    | done a => exact hs
    | fail e => exact hs
    | step label x next => exact ih h.2 h.1

/-- If it is not, it ends as it should. -/
theorem Lasts.ends (h : p.Lasts I Q E s) :
    (∃ a t, Returns p.alone s a t ∧ Q a t) ∨ ∃ e t, Fails p.alone s e t ∧ E e t := by
  induction p generalizing s with
  | done a => exact .inl ⟨a, s, rfl, h⟩
  | fail e => exact .inr ⟨e, s, rfl, h⟩
  | step label x next ih => exact ih _ h.2

end Lasts

end Prog

end Foundations
