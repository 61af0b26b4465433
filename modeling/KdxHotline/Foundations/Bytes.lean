import Mathlib.Algebra.Ring.Nat
import Mathlib.Data.List.Induction
import Mathlib.Tactic.Common

/-!
# Numbers as bytes

The big-endian bytes of a number, a fixed count of them, and the number a run of
bytes spells. The two undo each other as long as the number fits
(`Foundations.ofBe_toBe`, `Foundations.toBe_ofBe`).
-/

namespace Foundations

/-- The last `k` bytes of a number, most significant first. -/
def toBe : ℕ → ℕ → List UInt8
  | 0, _ => []
  | k + 1, n => toBe k (n / 256) ++ [UInt8.ofNat n]

/-- The number a run of bytes spells, most significant first. -/
def ofBe (bytes : List UInt8) : ℕ := bytes.foldl (fun n b => 256 * n + b.toNat) 0

@[simp] theorem ofBe_nil : ofBe [] = 0 := rfl

@[simp] theorem ofBe_concat (bytes : List UInt8) (b : UInt8) :
    ofBe (bytes ++ [b]) = 256 * ofBe bytes + b.toNat := by
  simp [ofBe, List.foldl_append]

@[simp] theorem length_toBe (k n : ℕ) : (toBe k n).length = k := by
  induction k generalizing n with
  | zero => rfl
  | succ k ih => rw [toBe, List.length_append, ih, List.length_singleton]

/-- **A number that fits is read back from its bytes.** -/
theorem ofBe_toBe {k n : ℕ} (h : n < 256 ^ k) : ofBe (toBe k n) = n := by
  induction k generalizing n with
  | zero => exact (Nat.lt_one_iff.mp h).symm
  | succ k ih =>
    have hdiv : n / 256 < 256 ^ k := by
      rw [Nat.div_lt_iff_lt_mul (by decide), ← Nat.pow_succ]
      exact h
    rw [toBe, ofBe_concat, ih hdiv, UInt8.toNat_ofNat']
    omega

/-- A run of bytes spells a number that fits. -/
theorem ofBe_lt (bytes : List UInt8) : ofBe bytes < 256 ^ bytes.length := by
  induction bytes using List.reverseRecOn with
  | nil => decide
  | append_singleton bytes b ih =>
    have hb := b.toNat_lt
    rw [ofBe_concat, List.length_append, List.length_singleton, Nat.pow_succ]
    omega

/-- **A run of bytes is read back from the number it spells.** -/
theorem toBe_ofBe (bytes : List UInt8) : toBe bytes.length (ofBe bytes) = bytes := by
  induction bytes using List.reverseRecOn with
  | nil => rfl
  | append_singleton bytes b ih =>
    have hb := b.toNat_lt
    have hdiv : (256 * ofBe bytes + b.toNat) / 256 = ofBe bytes := by omega
    have hlast : UInt8.ofNat (256 * ofBe bytes + b.toNat) = b := by
      refine UInt8.toNat_inj.mp ?_
      rw [UInt8.toNat_ofNat']
      omega
    rw [List.length_append, List.length_singleton, toBe, ofBe_concat, hdiv, ih, hlast]

end Foundations
