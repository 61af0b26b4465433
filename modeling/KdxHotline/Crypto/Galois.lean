import Mathlib.Algebra.CharP.Lemmas
import Mathlib.Algebra.CharP.Two
import Mathlib.Algebra.Field.Basic
import Mathlib.Tactic.Ring

/-!
# The field of 256 elements, as bytes

The shift-and-xor multiplication of the secret sharing, its powers and its
inverses by the 254th power, exactly as the code computes them, and the proof
that with `^^^` as the addition they make the bytes a field
(`KdxHotline.Crypto.GF256`).

The multiplication is additive in each argument, one round after another; so the
laws that are multilinear in bytes are checked on the eight bytes that have one
bit, and nothing is enumerated beyond single bytes and triples of bits.
-/

namespace KdxHotline

namespace Crypto

/-! ### The code's arithmetic -/

/-- The byte all of whose bits are the given bit: `0u8.wrapping_sub(bit)`. -/
def mask (bit : UInt8) : UInt8 := 0 - bit

/-- Multiplication by `x`, modulo `x⁸ + x⁴ + x³ + x + 1`. -/
def double (a : UInt8) : UInt8 := (a <<< 1) ^^^ ((0x1B : UInt8) &&& mask (a >>> 7))

/-- The rounds of `gf_mul`: `a` and `b` as they stand, and the product so far. -/
def gfMulRounds : ℕ → UInt8 → UInt8 → UInt8 → UInt8
  | 0, _, _, p => p
  | n + 1, a, b, p => gfMulRounds n (double a) (b >>> 1) (p ^^^ (a &&& mask (b &&& 1)))

/-- Multiplication: always eight rounds. -/
def gfMul (a b : UInt8) : UInt8 := gfMulRounds 8 a b 0

/-- The loop of `gf_pow`, which ends when the exponent does. An exponent of 64
bits is used up after 64 rounds. -/
def gfPowLoop : ℕ → UInt8 → UInt64 → UInt8 → UInt8
  | 0, _, _, acc => acc
  | n + 1, base, exp, acc =>
    if exp > 0 then
      gfPowLoop n (gfMul base base) (exp >>> 1)
        (if exp &&& 1 = 1 then gfMul acc base else acc)
    else acc

/-- Powers, by squaring. -/
def gfPow (base : UInt8) (exp : UInt64) : UInt8 := gfPowLoop 64 base exp 1

/-- Multiplicative inverse, by the 254th power. Callers must not pass 0. -/
def gfInv (a : UInt8) : UInt8 := gfPow a 254

/-! ### The multiplication is additive in each argument -/

theorem xor_swap (a b c d : UInt8) : (a ^^^ b) ^^^ (c ^^^ d) = (a ^^^ c) ^^^ (b ^^^ d) := by
  rw [UInt8.xor_assoc, UInt8.xor_assoc, ← UInt8.xor_assoc b, UInt8.xor_comm b c,
    UInt8.xor_assoc c]

theorem and_xor (a b c : UInt8) : a &&& (b ^^^ c) = (a &&& b) ^^^ (a &&& c) := by
  refine UInt8.toBitVec_inj.mp (BitVec.eq_of_getElem_eq fun i hi => ?_)
  simp [Bool.and_xor_distrib_left]

theorem xor_and (a b c : UInt8) : (a ^^^ b) &&& c = (a &&& c) ^^^ (b &&& c) := by
  rw [UInt8.and_comm, and_xor, UInt8.and_comm c, UInt8.and_comm c]

/-- What is asked of every byte can be asked of the 256 of them. -/
instance decidableForallByte {P : UInt8 → Prop} [DecidablePred P] : Decidable (∀ a, P a) :=
  decidable_of_iff (∀ i : Fin 256, P (UInt8.ofFin i))
    ⟨fun h a => h a.toFin, fun h i => h (UInt8.ofFin i)⟩

/-- The lowest bit of a byte, and the highest, are bits. -/
theorem low_bit (b : UInt8) : b &&& 1 = 0 ∨ b &&& 1 = 1 := by
  revert b
  decide +kernel

theorem high_bit (a : UInt8) : a >>> 7 = 0 ∨ a >>> 7 = 1 := by
  revert a
  decide +kernel

theorem mask_xor {u v : UInt8} (hu : u = 0 ∨ u = 1) (hv : v = 0 ∨ v = 1) :
    mask (u ^^^ v) = mask u ^^^ mask v := by
  rcases hu with rfl | rfl <;> rcases hv with rfl | rfl <;> rfl

theorem double_xor (a a' : UInt8) : double (a ^^^ a') = double a ^^^ double a' := by
  rw [double, UInt8.shiftLeft_xor, UInt8.shiftRight_xor, mask_xor (high_bit a) (high_bit a'),
    and_xor, xor_swap]
  rfl

theorem gfMulRounds_xor_left (n : ℕ) (a a' b p p' : UInt8) :
    gfMulRounds n (a ^^^ a') b (p ^^^ p')
      = gfMulRounds n a b p ^^^ gfMulRounds n a' b p' := by
  induction n generalizing a a' b p p' with
  | zero => rfl
  | succ n ih =>
    rw [gfMulRounds, double_xor, xor_and, xor_swap]
    exact ih _ _ _ _ _

theorem gfMulRounds_xor_right (n : ℕ) (a b b' p p' : UInt8) :
    gfMulRounds n a (b ^^^ b') (p ^^^ p')
      = gfMulRounds n a b p ^^^ gfMulRounds n a b' p' := by
  induction n generalizing a b b' p p' with
  | zero => rfl
  | succ n ih =>
    rw [gfMulRounds, UInt8.shiftRight_xor, xor_and, mask_xor (low_bit b) (low_bit b'),
      and_xor, xor_swap]
    exact ih _ _ _ _ _

theorem gfMul_xor_left (a a' b : UInt8) : gfMul (a ^^^ a') b = gfMul a b ^^^ gfMul a' b :=
  gfMulRounds_xor_left 8 a a' b 0 0

theorem gfMul_xor_right (a b b' : UInt8) : gfMul a (b ^^^ b') = gfMul a b ^^^ gfMul a b' :=
  gfMulRounds_xor_right 8 a b b' 0 0

/-! ### Laws checked on single bits -/

/-- The byte with one bit. -/
def bit (i : Fin 8) : UInt8 := 1 <<< UInt8.ofNat i

theorem byte_eq_bits (a : UInt8) :
    a = (List.finRange 8).foldl
      (fun acc i => acc ^^^ (if a &&& bit i = 0 then 0 else bit i)) 0 := by
  revert a
  decide +kernel

/-- **What holds of zero and of the single bits, and of a sum when it holds of
both, holds of every byte.** -/
theorem byte_induction {P : UInt8 → Prop} (zero : P 0) (bits : ∀ i, P (bit i))
    (xor : ∀ a b, P a → P b → P (a ^^^ b)) (a : UInt8) : P a := by
  have hfold : ∀ (l : List (Fin 8)) (acc : UInt8), P acc →
      P (l.foldl (fun acc i => acc ^^^ (if a &&& bit i = 0 then 0 else bit i)) acc) := by
    intro l
    induction l with
    | nil => exact fun _ h => h
    | cons i l ih =>
      intro acc hacc
      refine ih _ (xor _ _ hacc ?_)
      by_cases hi : a &&& bit i = 0
      · rw [if_pos hi]
        exact zero
      · rw [if_neg hi]
        exact bits i
  rw [byte_eq_bits a]
  exact hfold _ _ zero

@[simp] theorem gfMul_zero (a : UInt8) : gfMul a 0 = 0 := by
  have h := gfMul_xor_right a 0 0
  rwa [UInt8.xor_self, UInt8.xor_self] at h

@[simp] theorem zero_gfMul (b : UInt8) : gfMul 0 b = 0 := by
  have h := gfMul_xor_left 0 0 b
  rwa [UInt8.xor_self, UInt8.xor_self] at h

@[simp] theorem gfMul_one (a : UInt8) : gfMul a 1 = a := by
  induction a using byte_induction with
  | zero => exact zero_gfMul 1
  | xor a a' iha iha' => rw [gfMul_xor_left, iha, iha']
  | bits i =>
    revert i
    decide +kernel

/-- Multiplying bytes is commutative. -/
theorem gfMul_comm (a b : UInt8) : gfMul a b = gfMul b a := by
  induction a using byte_induction with
  | zero => rw [zero_gfMul, gfMul_zero]
  | xor a a' iha iha' => rw [gfMul_xor_left, gfMul_xor_right, iha, iha']
  | bits i =>
    induction b using byte_induction with
    | zero => rw [zero_gfMul, gfMul_zero]
    | xor b b' ihb ihb' => rw [gfMul_xor_left, gfMul_xor_right, ihb, ihb']
    | bits j =>
      revert i j
      decide +kernel

/-- Multiplying bytes is associative. -/
theorem gfMul_assoc (a b c : UInt8) : gfMul (gfMul a b) c = gfMul a (gfMul b c) := by
  induction a using byte_induction with
  | zero => simp
  | xor a a' iha iha' => simp only [gfMul_xor_left, iha, iha']
  | bits i =>
    induction b using byte_induction with
    | zero => simp
    | xor b b' ihb ihb' => simp only [gfMul_xor_left, gfMul_xor_right, ihb, ihb']
    | bits j =>
      induction c using byte_induction with
      | zero => simp
      | xor c c' ihc ihc' => simp only [gfMul_xor_right, ihc, ihc']
      | bits k =>
        revert i j k
        decide +kernel

/-- Nothing but zero and one is its own square. -/
theorem eq_zero_or_one_of_gfMul_self {e : UInt8} (h : gfMul e e = e) : e = 0 ∨ e = 1 := by
  revert e
  decide +kernel

/-! ### The ring -/

/-- A byte, as an element of the field: the addition is `^^^`, the
multiplication `gf_mul`. -/
@[ext] structure GF256 where
  byte : UInt8
deriving DecidableEq

namespace GF256

instance : Zero GF256 := ⟨⟨0⟩⟩
instance : One GF256 := ⟨⟨1⟩⟩
instance : Add GF256 := ⟨fun a b => ⟨a.byte ^^^ b.byte⟩⟩
instance : Neg GF256 := ⟨fun a => a⟩
instance : Mul GF256 := ⟨fun a b => ⟨gfMul a.byte b.byte⟩⟩

@[simp] theorem byte_zero : (0 : GF256).byte = 0 := rfl
@[simp] theorem byte_one : (1 : GF256).byte = 1 := rfl
@[simp] theorem byte_add (a b : GF256) : (a + b).byte = a.byte ^^^ b.byte := rfl
@[simp] theorem byte_neg (a : GF256) : (-a).byte = a.byte := rfl
@[simp] theorem byte_mul (a b : GF256) : (a * b).byte = gfMul a.byte b.byte := rfl

theorem byte_eq_zero {a : GF256} : a.byte = 0 ↔ a = 0 := by
  rw [GF256.ext_iff, byte_zero]

instance : CommRing GF256 where
  add_assoc a b c := GF256.ext (UInt8.xor_assoc _ _ _)
  zero_add a := GF256.ext (UInt8.zero_xor)
  add_zero a := GF256.ext (UInt8.xor_zero)
  add_comm a b := GF256.ext (UInt8.xor_comm _ _)
  neg_add_cancel a := GF256.ext (UInt8.xor_self)
  nsmul := nsmulRec
  zsmul := zsmulRec
  left_distrib a b c := GF256.ext (gfMul_xor_right _ _ _)
  right_distrib a b c := GF256.ext (gfMul_xor_left _ _ _)
  zero_mul a := GF256.ext (zero_gfMul _)
  mul_zero a := GF256.ext (gfMul_zero _)
  mul_assoc a b c := GF256.ext (gfMul_assoc _ _ _)
  one_mul a := GF256.ext ((gfMul_comm _ _).trans (gfMul_one _))
  mul_one a := GF256.ext (gfMul_one _)
  mul_comm a b := GF256.ext (gfMul_comm _ _)

theorem two_eq_zero : (2 : GF256) = 0 := by
  rw [← one_add_one_eq_two]
  exact GF256.ext UInt8.xor_self

instance : CharP GF256 2 := CharTwo.of_one_ne_zero_of_two_eq_zero (by decide) two_eq_zero

/-! ### Powers and inverses -/

/-- Squaring and multiplying gives the power. -/
theorem byte_gfPowLoop {n : ℕ} (base acc : GF256) (exp : UInt64) (h : exp.toNat < 2 ^ n) :
    gfPowLoop n base.byte exp acc.byte = (acc * base ^ exp.toNat).byte := by
  induction n generalizing base acc exp with
  | zero =>
    have h0 : exp.toNat = 0 := by omega
    rw [gfPowLoop, h0, pow_zero, mul_one]
  | succ n ih =>
    have hhalf : (exp >>> 1).toNat = exp.toNat / 2 := by
      simp [UInt64.toNat_shiftRight, Nat.shiftRight_eq_div_pow]
    have hbit : exp &&& 1 = 1 ↔ exp.toNat % 2 = 1 := by
      rw [← UInt64.toNat_inj, UInt64.toNat_and, UInt64.toNat_one, Nat.and_one_is_mod]
    rw [gfPowLoop]
    split
    case isTrue hpos =>
      have hrec := ih (base * base) (if exp &&& 1 = 1 then acc * base else acc) (exp >>> 1)
        (by rw [hhalf]; omega)
      rw [byte_mul, apply_ite byte, byte_mul] at hrec
      rw [hrec, hhalf, ← sq, ← pow_mul]
      -- the lowest bit of the exponent goes to the accumulator
      split
      case isTrue hodd =>
        have he : exp.toNat = 2 * (exp.toNat / 2) + 1 := by
          have := hbit.mp hodd
          omega
        conv_rhs => rw [he, pow_succ', ← mul_assoc]
      case isFalse heven =>
        have he : exp.toNat = 2 * (exp.toNat / 2) := by
          have : exp.toNat % 2 ≠ 1 := fun h => heven (hbit.mpr h)
          omega
        rw [← he]
    case isFalse hpos =>
      have h0 : exp.toNat = 0 := by
        have : ¬ 0 < exp.toNat := fun h => hpos (UInt64.lt_iff_toNat_lt.mpr h)
        omega
      rw [h0, pow_zero, mul_one]

/-- `gf_pow` computes the powers of the ring, for every exponent it can be
given. -/
theorem byte_gfPow (base : GF256) (exp : UInt64) :
    gfPow base.byte exp = (base ^ exp.toNat).byte := by
  rw [gfPow, ← byte_one, byte_gfPowLoop base 1 exp exp.toNat_lt, one_mul]

/-- Eight squarings bring every element back: squaring is additive, so it is
enough that they bring back the single bits. -/
theorem pow_256 (a : GF256) : a ^ 256 = a := by
  have hadd : ∀ x y : GF256, (x + y) ^ 256 = x ^ 256 + y ^ 256 :=
    fun x y => by simpa only [Nat.reducePow] using add_pow_char_pow x y 2 8
  have h : ∀ b : UInt8, (⟨b⟩ : GF256) ^ 256 = ⟨b⟩ := by
    intro b
    induction b using byte_induction with
    | zero => exact zero_pow (by decide)
    | xor b b' ih ih' =>
      have hsum := hadd ⟨b⟩ ⟨b'⟩
      rw [ih, ih'] at hsum
      exact hsum
    | bits i =>
      have hbit : gfPow (bit i) 256 = bit i := by
        revert i
        decide +kernel
      exact GF256.ext ((byte_gfPow ⟨bit i⟩ 256).symm.trans hbit)
  exact h a.byte

/-- **The 254th power of an element other than zero is its inverse.** Their
product is its own square, and not zero. -/
theorem mul_pow_254 {a : GF256} (h : a ≠ 0) : a * a ^ 254 = 1 := by
  have hback : a * (a * a ^ 254) = a := by
    calc a * (a * a ^ 254) = a ^ 256 := by ring
      _ = a := pow_256 a
  have hsq : (a * a ^ 254) * (a * a ^ 254) = a * a ^ 254 := by
    calc (a * a ^ 254) * (a * a ^ 254) = (a * (a * a ^ 254)) * a ^ 254 := by ring
      _ = a * a ^ 254 := by rw [hback]
  rcases eq_zero_or_one_of_gfMul_self (congrArg byte hsq) with h0 | h1
  · rw [byte_eq_zero.mp h0, mul_zero] at hback
    exact absurd hback.symm h
  · exact GF256.ext h1

instance : Inv GF256 := ⟨fun a => if a = 0 then 0 else ⟨gfInv a.byte⟩⟩

theorem inv_eq_pow {a : GF256} (h : a ≠ 0) : a⁻¹ = a ^ 254 :=
  (if_neg h).trans (GF256.ext (byte_gfPow a 254))

/-- The inverse of the field is the code's. -/
theorem byte_inv {a : GF256} (h : a ≠ 0) : (a⁻¹).byte = gfInv a.byte :=
  congrArg byte (if_neg h)

instance : Field GF256 where
  exists_pair_ne := ⟨0, 1, by decide⟩
  mul_inv_cancel a ha := by rw [inv_eq_pow ha, mul_pow_254 ha]
  inv_zero := if_pos rfl
  nnqsmul := _
  nnqsmul_def := fun _ _ => rfl
  qsmul := _
  qsmul_def := fun _ _ => rfl

@[simp] theorem byte_sub (a b : GF256) : (a - b).byte = a.byte ^^^ b.byte := by
  rw [sub_eq_add_neg, byte_add, byte_neg]

end GF256

end Crypto

end KdxHotline
