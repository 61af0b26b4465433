import Mathlib.Algebra.Group.Nat.Defs
import Mathlib.Data.List.GetD
import Mathlib.Data.Nat.Bits

/-!
# Bit vectors stored in bytes

A growable bit vector is a list of bits; in bytes it is stored eight to the byte,
the first bit in the lowest place (`Foundations.Bits.ofBytes`). Cutting it or
filling it up with zeros to a given length is `Foundations.Bits.resize`. Done in place, this
leaves what the last byte has beyond the last bit (`Foundations.Bits.resizeBytes`); a copy
has zeros there (`Foundations.Bits.copyBytes`).
-/

namespace Foundations

namespace Bits

/-- The bits of a byte, the lowest first. -/
def ofByte (b : UInt8) : List Bool := (List.range 8).map fun i => b.toNat.testBit i

/-- The bits of some bytes, the lowest of each byte first. -/
def ofBytes (bytes : List UInt8) : List Bool := bytes.flatMap ofByte

/-- Cut to `n` bits, or fill up with zeros. -/
def resize (n : ℕ) (bits : List Bool) : List Bool :=
  (bits ++ List.replicate (n - bits.length) false).take n

/-- The bytes that `n` bits take. -/
def bytesFor (n : ℕ) : ℕ := (n + 7) / 8

/-- The bytes under a bit vector that is resized in place. -/
def resizeBytes (n : ℕ) (bytes : List UInt8) : List UInt8 :=
  (bytes ++ List.replicate (bytesFor n - bytes.length) 0).take (bytesFor n)

/-- The bytes of a copy of `n` bits: beyond the last bit they are clear. -/
def copyBytes (n : ℕ) (bytes : List UInt8) : List UInt8 :=
  bytes.modify (n / 8) fun b => b &&& UInt8.ofNat (2 ^ (n % 8) - 1)

variable {bytes : List UInt8} {bits : List Bool} {n i : ℕ}

@[simp] theorem length_ofByte (b : UInt8) : (ofByte b).length = 8 := by simp [ofByte]

@[simp] theorem length_ofBytes : (ofBytes bytes).length = 8 * bytes.length := by
  induction bytes with
  | nil => rfl
  | cons b bytes ih =>
    rw [ofBytes, List.flatMap_cons, List.length_append, length_ofByte, List.length_cons, ← ofBytes, ih]
    omega

theorem getD_ofByte (b : UInt8) (hi : i < 8) : (ofByte b).getD i false = b.toNat.testBit i := by
  rw [ofByte, List.getD_eq_getElem?_getD, List.getElem?_map, List.getElem?_range hi]
  rfl

/-- A bit is found in its byte. -/
theorem getD_ofBytes (bytes : List UInt8) (i : ℕ) :
    (ofBytes bytes).getD i false = (bytes.getD (i / 8) 0).toNat.testBit (i % 8) := by
  induction bytes generalizing i with
  | nil => simp [ofBytes]
  | cons b bytes ih =>
    have hcons : ofBytes (b :: bytes) = ofByte b ++ ofBytes bytes := rfl
    rcases Nat.lt_or_ge i 8 with hlt | hge
    · rw [hcons, List.getD_append _ _ _ _ (by rwa [length_ofByte]), getD_ofByte b hlt,
        Nat.div_eq_of_lt hlt, Nat.mod_eq_of_lt hlt, List.getD_cons_zero]
    · rw [hcons, List.getD_append_right _ _ _ _ (by rwa [length_ofByte]), length_ofByte, ih,
        Nat.div_eq_sub_div (by decide) hge, List.getD_cons_succ, Nat.mod_eq_sub_mod hge]

/-- Setting a bit of a byte sets no other. -/
theorem testBit_set (b : UInt8) (hi : i < 8) (j : ℕ) :
    (b ||| 1 <<< UInt8.ofNat i).toNat.testBit j = (decide (j = i) || b.toNat.testBit j) := by
  have hlt : 2 ^ i < 2 ^ 8 := Nat.pow_lt_pow_right (by decide) hi
  have hmask : (1 <<< UInt8.ofNat i : UInt8).toNat = 2 ^ i := by
    rw [UInt8.toNat_shiftLeft, UInt8.toNat_ofNat', Nat.mod_eq_of_lt (by omega : i < 2 ^ 8),
      Nat.mod_eq_of_lt hi, UInt8.toNat_one, Nat.one_shiftLeft, Nat.mod_eq_of_lt hlt]
  rw [UInt8.toNat_or, Nat.testBit_or, hmask, Nat.testBit_two_pow, Bool.or_comm]
  simp only [eq_comm]

@[simp] theorem length_resize : (resize n bits).length = n := by
  rw [resize, List.length_take, List.length_append, List.length_replicate]
  omega

/-- Resizing changes no bit that stays, and what it adds is clear. -/
theorem getD_resize (hi : i < n) : (resize n bits).getD i false = bits.getD i false := by
  rw [resize, List.getD_eq_getElem?_getD, List.getD_eq_getElem?_getD, List.getElem?_take_of_lt hi]
  rcases Nat.lt_or_ge i bits.length with hlt | hge
  · rw [List.getElem?_append_left hlt]
  · rw [List.getElem?_append_right hge, List.getElem?_replicate, List.getElem?_eq_none hge]
    split <;> rfl

@[simp] theorem length_resizeBytes : (resizeBytes n bytes).length = bytesFor n := by
  rw [resizeBytes, List.length_take, List.length_append, List.length_replicate]
  omega

@[simp] theorem length_copyBytes : (copyBytes n bytes).length = bytes.length :=
  List.length_modify _ _ _

/-- Resizing in place changes no bit that stays. -/
theorem getD_resizeBytes (hi : i < n) :
    (ofBytes (resizeBytes n bytes)).getD i false = (ofBytes bytes).getD i false := by
  have hbyte : i / 8 < bytesFor n := by
    unfold bytesFor
    omega
  rw [getD_ofBytes, getD_ofBytes, resizeBytes, List.getD_eq_getElem?_getD,
    List.getElem?_take_of_lt hbyte, List.getD_eq_getElem?_getD]
  rcases Nat.lt_or_ge (i / 8) bytes.length with hlt | hge
  · rw [List.getElem?_append_left hlt]
  · rw [List.getElem?_append_right hge, List.getElem?_replicate, List.getElem?_eq_none hge]
    split <;> rfl

/-- Masking a byte clears the bits from a place on. -/
theorem testBit_mask (b : UInt8) (hn : n < 8) (j : ℕ) :
    (b &&& UInt8.ofNat (2 ^ n - 1)).toNat.testBit j = (decide (j < n) && b.toNat.testBit j) := by
  have hlt : 2 ^ n < 2 ^ 8 := Nat.pow_lt_pow_right (by decide) hn
  rw [UInt8.toNat_and, UInt8.toNat_ofNat', Nat.mod_eq_of_lt (by omega), Nat.testBit_and,
    Nat.testBit_two_pow_sub_one, Bool.and_comm]

/-- **A copy has the bits, and zeros beyond them.** -/
theorem getD_copyBytes (h : bytes.length = bytesFor n) :
    (ofBytes (copyBytes n bytes)).getD i false =
      (decide (i < n) && (ofBytes bytes).getD i false) := by
  rw [getD_ofBytes, getD_ofBytes, copyBytes, List.getD_eq_getElem?_getD, List.getElem?_modify,
    List.getD_eq_getElem?_getD]
  unfold bytesFor at h
  by_cases hbyte : n / 8 = i / 8
  · -- the byte that the last bit is in
    have hsame : i % 8 < n % 8 ↔ i < n := by omega
    cases bytes[i / 8]? with
    | none => simp
    | some b =>
      rw [Option.map_eq_map, Option.map_some, if_pos hbyte, Option.getD_some, Option.getD_some,
        testBit_mask _ (Nat.mod_lt _ (by decide)), decide_eq_decide.mpr hsame]
  · simp only [if_neg hbyte, id_map']
    rcases Nat.lt_or_ge i n with hlt | hge
    · rw [decide_eq_true hlt, Bool.true_and]
    · -- there is no byte any more
      rw [List.getElem?_eq_none (by omega)]
      simp

end Bits

end Foundations
