import Mathlib.Algebra.Order.Group.Nat
import Mathlib.Tactic.Common

/-!
# Binary trees laid out in an array

A tree of a given depth whose root is cell `1`, whose inner cell `i` is made of
the cells `2 * i` and `2 * i + 1`, and whose leaves are the cells from
`2 ^ depth` on. A walk from a leaf up to the root that is given the siblings on
its way ends in the root (`Foundations.HeapTree.climb_siblings`); and when making
a cell is injective, a walk that ends in the root, with whatever siblings it was
given, began in the leaf of its position (`Foundations.HeapTree.eq_of_climb`).
-/

namespace Foundations

variable {δ : Type*}

/-- A tree of a given depth, each of whose inner cells is made of the two below
it. -/
structure HeapTree (node : δ → δ → δ) (depth : ℕ) where
  cells : ℕ → δ
  inner : ∀ i, 1 ≤ i → i < 2 ^ depth → cells i = node (cells (2 * i)) (cells (2 * i + 1))

/-- The walk up from the cell at a position of its level, with a list of
siblings. -/
def climb (node : δ → δ → δ) : ℕ → δ → List δ → δ
  | _, d, [] => d
  | position, d, s :: siblings =>
    climb node (position / 2) (if position % 2 = 0 then node d s else node s d) siblings

namespace HeapTree

variable {node : δ → δ → δ} {depth : ℕ} (t : HeapTree node depth)

/-- The cell beside a cell. -/
def beside (i : ℕ) : ℕ := if i % 2 = 0 then i + 1 else i - 1

/-- The cells beside the ones on the way up from cell `i`, for `k` levels. -/
def siblings : ℕ → ℕ → List δ
  | 0, _ => []
  | k + 1, i => t.cells (beside i) :: siblings k (i / 2)

@[simp] theorem length_siblings (k i : ℕ) : (t.siblings k i).length = k := by
  induction k generalizing i with
  | zero => rfl
  | succ k ih => rw [siblings, List.length_cons, ih]

/-- Cell `i` is on level `k`: `k` steps up from it is the root. -/
def OnLevel (k i : ℕ) : Prop := 2 ^ k ≤ i ∧ i < 2 ^ (k + 1)

theorem OnLevel.up {k i : ℕ} (h : OnLevel (k + 1) i) : OnLevel k (i / 2) := by
  have h1 := h.1
  have h2 := h.2
  simp only [OnLevel, Nat.pow_succ] at *
  omega

/-- The parent of a cell below the root is made of the cell and the one beside
it, on the sides the cell's parity says. -/
theorem cells_parent {k i : ℕ} (h : OnLevel (k + 1) i) (hk : k < depth) :
    t.cells (i / 2)
      = if i % 2 = 0 then node (t.cells i) (t.cells (beside i))
        else node (t.cells (beside i)) (t.cells i) := by
  have hup := h.up
  have hpos : 1 ≤ i / 2 := le_trans Nat.one_le_two_pow hup.1
  have hlt : i / 2 < 2 ^ depth :=
    lt_of_lt_of_le hup.2 (Nat.pow_le_pow_right (by decide) hk)
  rw [t.inner (i / 2) hpos hlt, beside]
  by_cases hi : i % 2 = 0
  · have h0 : 2 * (i / 2) = i := by omega
    rw [if_pos hi, if_pos hi, h0]
  · have h0 : 2 * (i / 2) = i - 1 := by omega
    have h1 : i - 1 + 1 = i := by omega
    rw [if_neg hi, if_neg hi, h0, h1]

/-- The position of a cell and the cell keep the same parity all the way up. -/
theorem position_step {k position i : ℕ} (h : position % 2 ^ (k + 1) = i % 2 ^ (k + 1)) :
    position % 2 = i % 2 ∧ position / 2 % 2 ^ k = i / 2 % 2 ^ k := by
  have hdvd : 2 ∣ 2 ^ (k + 1) := ⟨2 ^ k, Nat.pow_succ'⟩
  constructor
  · rw [← Nat.mod_mod_of_dvd position hdvd, h, Nat.mod_mod_of_dvd i hdvd]
  · rw [Nat.pow_succ'] at h
    rw [← Nat.mod_mul_right_div_self, h, Nat.mod_mul_right_div_self]

/-- **With the tree's own siblings the walk ends in the root.** -/
theorem climb_siblings {k position i : ℕ} (hk : k ≤ depth) (hi : OnLevel k i)
    (hp : position % 2 ^ k = i % 2 ^ k) :
    climb node position (t.cells i) (t.siblings k i) = t.cells 1 := by
  induction k generalizing position i with
  | zero =>
    have h1 : i = 1 := by
      have := hi.1
      have := hi.2
      omega
    rw [siblings, climb, h1]
  | succ k ih =>
    obtain ⟨hpar, hup⟩ := position_step hp
    rw [siblings, climb, hpar, ← t.cells_parent hi hk]
    exact ih (by omega) hi.up hup

/-- **A walk that ends in the root began in the tree's own cell**, whatever
siblings it was given: the last step was made of the cells below the root, so
the walk without it ended in one of those. -/
theorem eq_of_climb (hinj : ∀ a b c d, node a b = node c d → a = c ∧ b = d) {k position i : ℕ}
    {d : δ} {given : List δ} (hk : k ≤ depth) (hi : OnLevel k i)
    (hp : position % 2 ^ k = i % 2 ^ k) (hlen : given.length = k)
    (hroot : climb node position d given = t.cells 1) : d = t.cells i := by
  induction given generalizing k position i d with
  | nil =>
    subst hlen
    have h1 : i = 1 := by
      have := hi.1
      have := hi.2
      simp only [List.length_nil, Nat.pow_zero] at *
      omega
    rw [h1]
    exact hroot
  | cons s given ih =>
    obtain ⟨k, rfl⟩ : ∃ j, k = j + 1 := ⟨given.length, hlen.symm⟩
    obtain ⟨hpar, hup⟩ := position_step hp
    rw [climb, hpar] at hroot
    have hparent := ih (by omega) hi.up hup (by simpa using hlen) hroot
    rw [t.cells_parent hi hk] at hparent
    by_cases heven : i % 2 = 0
    · rw [if_pos heven, if_pos heven] at hparent
      exact (hinj _ _ _ _ hparent).1
    · rw [if_neg heven, if_neg heven] at hparent
      exact (hinj _ _ _ _ hparent).2

/-- A leaf is on the level of the depth, at its own position. -/
theorem onLevel_leaf {position : ℕ} (h : position < 2 ^ depth) :
    OnLevel depth (2 ^ depth + position) := by
  rw [OnLevel, Nat.pow_succ]
  omega

theorem leaf_mod {position : ℕ} : position % 2 ^ depth = (2 ^ depth + position) % 2 ^ depth := by
  rw [Nat.add_mod_left]

end HeapTree

end Foundations
