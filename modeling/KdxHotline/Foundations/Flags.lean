import Mathlib.Data.BitVec

/-!
# Sets of flags in a machine word

A word read as the set of the positions of its one bits. The only question an
access policy asks of two such sets is inclusion, and the only way to answer it
about an expression built with `|||`, `&&&` and `~~~` is bit by bit:
`Foundations.within_iff` turns an inclusion into a statement about single bits,
after which it is propositional.
-/

namespace Foundations

variable {w : ℕ} {a b c d : BitVec w}

/-- Every flag of `b` is a flag of `a`. -/
def Within (b a : BitVec w) : Prop := a &&& b = b

instance : Decidable (Within b a) := inferInstanceAs (Decidable (a &&& b = b))

/-- **Inclusion is decided bit by bit.** -/
theorem within_iff : Within b a ↔ ∀ i, b.getLsbD i = true → a.getLsbD i = true := by
  constructor
  · intro h i hi
    have hbit : (a &&& b).getLsbD i = true := by rw [h]; exact hi
    exact (Bool.and_eq_true _ _ ▸ BitVec.getLsbD_and ▸ hbit).1
  · intro h
    refine BitVec.eq_of_getLsbD_eq fun i _ => ?_
    rw [BitVec.getLsbD_and]
    cases hb : b.getLsbD i with
    | false => simp
    | true => simp [h i hb]

theorem Within.refl (a : BitVec w) : Within a a := BitVec.and_self

theorem Within.trans (h₁ : Within c b) (h₂ : Within b a) : Within c a :=
  within_iff.mpr fun i hi => within_iff.mp h₂ i (within_iff.mp h₁ i hi)

theorem within_union_left (a b : BitVec w) : Within a (a ||| b) :=
  within_iff.mpr fun i hi => by simp [hi]

theorem within_union_right (a b : BitVec w) : Within b (a ||| b) :=
  within_iff.mpr fun i hi => by simp [hi]

theorem and_within_right (a b : BitVec w) : Within (a &&& b) b := by
  rw [Within, BitVec.and_comm b, BitVec.and_assoc, BitVec.and_self]

/-- A union is included when both its parts are. -/
theorem union_within_iff : Within (b ||| c) a ↔ Within b a ∧ Within c a := by
  constructor
  · intro h
    exact ⟨(within_union_left b c).trans h, (within_union_right b c).trans h⟩
  · rintro ⟨h₁, h₂⟩
    refine within_iff.mpr fun i hi => ?_
    rw [BitVec.getLsbD_or, Bool.or_eq_true] at hi
    exact hi.elim (within_iff.mp h₁ i) (within_iff.mp h₂ i)

/-- The flags of `a` that are not flags of `b`. -/
def without (a b : BitVec w) : BitVec w := a &&& ~~~b

/-- A flag of a difference is a flag of the first set and not of the second. -/
theorem getLsbD_without (a b : BitVec w) (i : ℕ) :
    (without a b).getLsbD i = true ↔ a.getLsbD i = true ∧ b.getLsbD i = false := by
  rw [without, BitVec.getLsbD_and, BitVec.getLsbD_not, Bool.and_eq_true, Bool.and_eq_true]
  constructor
  · rintro ⟨ha, -, hb⟩
    exact ⟨ha, by simpa using hb⟩
  · rintro ⟨ha, hb⟩
    exact ⟨ha, by simpa using BitVec.lt_of_getLsbD ha, by simp [hb]⟩

/-- Two sets have no flag in common, bit by bit. -/
theorem and_eq_zero_iff : a &&& b = 0 ↔ ∀ i, b.getLsbD i = true → a.getLsbD i = false := by
  have hzero : ∀ i, (0 : BitVec w).getLsbD i = false := fun i => BitVec.getLsbD_zero
  constructor
  · intro h i hi
    have hbit := congrArg (fun x : BitVec w => x.getLsbD i) h
    simpa only [BitVec.getLsbD_and, hi, Bool.and_true, hzero] using hbit
  · intro h
    refine BitVec.eq_of_getLsbD_eq fun i _ => ?_
    rw [BitVec.getLsbD_and, hzero]
    cases hb : b.getLsbD i with
    | false => exact Bool.and_false _
    | true => rw [h i hb, Bool.false_and]

end Foundations
