import Mathlib.Data.List.Basic
import Mathlib.Data.Option.Basic
import Mathlib.Tactic.Common

/-!
# Values as text

A codec writes the values of a type as text and reads them. What a program relies on of one it
did not write is said of the codec: that what is written reads back, and in which characters
(`Foundations.TextCodec.ReadsBack`).

Of base64 for bytes it is also how long a text is (`Foundations.Base64.Strict`), so that of a
part of what is written nothing reads back that is as long
(`Foundations.Base64.Strict.length_lt_of_part`). The codec with the standard alphabet, padded to
whole groups of four, is one (`Foundations.Base64.strict_standard`). Its reading is strict: padding
stands only where the last group needs it, and the bits it leaves over are zero.
-/

namespace Foundations

/-- A way to write the values of a type as text, and to read them. -/
structure TextCodec (α : Type) where
  encode : α → List Char
  decode : List Char → Option α

/-- What is written reads back, and is in the characters of an alphabet. -/
structure TextCodec.ReadsBack {α : Type} (codec : TextCodec α) (alphabet : Char → Prop) :
    Prop where
  decode_encode : ∀ a, codec.decode (codec.encode a) = some a
  mem_encode : ∀ a, ∀ c ∈ codec.encode a, alphabet c

namespace Base64

/-- The characters of base64: the digits and the padding. -/
def IsSymbol (c : Char) : Prop :=
  ('A' ≤ c ∧ c ≤ 'Z') ∨ ('a' ≤ c ∧ c ≤ 'z') ∨ ('0' ≤ c ∧ c ≤ '9') ∨ c = '+' ∨ c = '/' ∨ c = '='

/-- What is written reads back, and what is read is padded to whole groups and has no other
characters. -/
structure Strict (codec : TextCodec (List UInt8)) : Prop where
  decode_encode : ∀ bytes, codec.decode (codec.encode bytes) = some bytes
  length_of_decode : ∀ {cs bytes}, codec.decode cs = some bytes →
    cs.length = 4 * ((bytes.length + 2) / 3)
  mem_of_decode : ∀ {cs bytes}, codec.decode cs = some bytes → ∀ c ∈ cs, IsSymbol c

namespace Strict

variable {codec : TextCodec (List UInt8)}

theorem length_encode (h : Strict codec) (bytes : List UInt8) :
    (codec.encode bytes).length = 4 * ((bytes.length + 2) / 3) :=
  h.length_of_decode (h.decode_encode bytes)

theorem readsBack (h : Strict codec) : codec.ReadsBack IsSymbol :=
  ⟨h.decode_encode, fun bytes => h.mem_of_decode (h.decode_encode bytes)⟩

/-- **Of a part of what is written nothing reads back that is as long.** -/
theorem length_lt_of_part (hstrict : Strict codec) {bytes read : List UInt8} {cs : List Char}
    (hpart : cs <+: codec.encode bytes) (hne : cs ≠ codec.encode bytes)
    (h : codec.decode cs = some read) : read.length < bytes.length := by
  have hlength := hstrict.length_of_decode h
  have hshort : cs.length < (codec.encode bytes).length :=
    Nat.lt_of_le_of_ne hpart.length_le fun he => hne (hpart.eq_of_length he)
  rw [hstrict.length_encode] at hshort
  omega

end Strict

/-! ### The standard alphabet -/

/-- The digit of a value below 64. -/
def digit (n : ℕ) : Char :=
  if n < 26 then Char.ofNat ('A'.toNat + n)
  else if n < 52 then Char.ofNat ('a'.toNat + (n - 26))
  else if n < 62 then Char.ofNat ('0'.toNat + (n - 52))
  else if n = 62 then '+'
  else '/'

/-- The value of a digit. -/
def value (c : Char) : Option ℕ :=
  if 'A' ≤ c ∧ c ≤ 'Z' then some (c.toNat - 'A'.toNat)
  else if 'a' ≤ c ∧ c ≤ 'z' then some (c.toNat - 'a'.toNat + 26)
  else if '0' ≤ c ∧ c ≤ '9' then some (c.toNat - '0'.toNat + 52)
  else if c = '+' then some 62
  else if c = '/' then some 63
  else none

/-- Three bytes in four digits, and padding after the last digits. -/
def encode : List UInt8 → List Char
  | [] => []
  | [a] => [digit (a.toNat / 4), digit (a.toNat % 4 * 16), '=', '=']
  | [a, b] =>
    [digit (a.toNat / 4), digit (a.toNat % 4 * 16 + b.toNat / 16), digit (b.toNat % 16 * 4), '=']
  | a :: b :: c :: rest =>
    digit (a.toNat / 4) :: digit (a.toNat % 4 * 16 + b.toNat / 16) ::
      digit (b.toNat % 16 * 4 + c.toNat / 64) :: digit (c.toNat % 64) :: encode rest

/-- The byte that two digits spell. -/
def one (w x : Char) : Option (List UInt8) := do
  let w ← value w
  let x ← value x
  guard (x % 16 = 0)
  return [UInt8.ofNat (w * 4 + x / 16)]

/-- The bytes that three digits spell. -/
def two (w x y : Char) : Option (List UInt8) := do
  let w ← value w
  let x ← value x
  let y ← value y
  guard (y % 4 = 0)
  return [UInt8.ofNat (w * 4 + x / 16), UInt8.ofNat (x % 16 * 16 + y / 4)]

/-- The bytes that four digits spell. -/
def three (w x y z : Char) : Option (List UInt8) := do
  let w ← value w
  let x ← value x
  let y ← value y
  let z ← value z
  return [UInt8.ofNat (w * 4 + x / 16), UInt8.ofNat (x % 16 * 16 + y / 4),
    UInt8.ofNat (y % 4 * 64 + z)]

/-- The bytes of whole groups, of which the last may be padded. -/
def decode : List Char → Option (List UInt8)
  | [] => some []
  | w :: x :: y :: z :: rest =>
    if rest = [] ∧ z = '=' then
      if y = '=' then one w x else two w x y
    else do
      let bytes ← three w x y z
      return bytes ++ (← decode rest)
  | _ => none

/-! ### What is written -/

theorem value_digit {n : ℕ} (h : n < 64) : value (digit n) = some n := by
  have hall : ∀ k : Fin 64, value (digit k) = some k.val := by decide
  exact hall ⟨n, h⟩

theorem digit_ne_pad {n : ℕ} (h : n < 64) : digit n ≠ '=' := by
  intro he
  have hpad : value '=' = none := by decide
  rw [← he, value_digit h] at hpad
  cases hpad

/-! ### What is read -/

theorem guard_eq {p : Prop} [Decidable p] (h : p) : (guard p : Option Unit) = some () := if_pos h

theorem ofNat_toNat_of {a : UInt8} {n : ℕ} (h : n = a.toNat) : UInt8.ofNat n = a := by
  rw [h, UInt8.ofNat_toNat]

/-- **What is written reads back.** -/
theorem decode_encode (bytes : List UInt8) : decode (encode bytes) = some bytes := by
  have hbyte (a : UInt8) : a.toNat < 256 := a.toNat_lt
  induction bytes using encode.induct with
  | case1 => rfl
  | case2 a =>
    have ha := hbyte a
    rw [encode, decode, if_pos ⟨rfl, rfl⟩, if_pos rfl, one, value_digit (by omega),
      value_digit (by omega)]
    simp only [Option.bind_eq_bind, Option.bind_some]
    rw [guard_eq (by omega), ofNat_toNat_of (a := a) (by omega)]
    rfl
  | case3 a b =>
    have ha := hbyte a
    have hb := hbyte b
    rw [encode, decode, if_pos ⟨rfl, rfl⟩, if_neg (digit_ne_pad (by omega)), two,
      value_digit (by omega), value_digit (by omega), value_digit (by omega)]
    simp only [Option.bind_eq_bind, Option.bind_some]
    rw [guard_eq (by omega), ofNat_toNat_of (a := a) (by omega), ofNat_toNat_of (a := b) (by omega)]
    rfl
  | case4 a b c rest ih =>
    have ha := hbyte a
    have hb := hbyte b
    have hc := hbyte c
    rw [encode, decode, if_neg (fun h => digit_ne_pad (by omega) h.2), three,
      value_digit (by omega), value_digit (by omega), value_digit (by omega),
      value_digit (by omega), ih]
    simp only [Option.bind_eq_bind, Option.bind_some]
    rw [ofNat_toNat_of (a := a) (by omega), ofNat_toNat_of (a := b) (by omega),
      ofNat_toNat_of (a := c) (by omega)]
    rfl

/-- Four characters spell three bytes, or what is left of them. -/
theorem length_of_decode {cs : List Char} {bytes : List UInt8} (h : decode cs = some bytes) :
    cs.length = 4 * ((bytes.length + 2) / 3) := by
  induction cs using decode.induct generalizing bytes with
  | case1 =>
    obtain rfl := Option.some.inj h
    rfl
  | case2 w x z rest hlast =>
    rw [decode, if_pos hlast, if_pos rfl] at h
    simp only [one, Option.bind_eq_bind, Option.bind_eq_some_iff] at h
    obtain ⟨_, -, _, -, _, -, h⟩ := h
    obtain rfl := Option.some.inj h
    simp [hlast.1]
  | case3 w x y z rest hlast hpad =>
    rw [decode, if_pos hlast, if_neg hpad] at h
    simp only [two, Option.bind_eq_bind, Option.bind_eq_some_iff] at h
    obtain ⟨_, -, _, -, _, -, _, -, h⟩ := h
    obtain rfl := Option.some.inj h
    simp [hlast.1]
  | case4 w x y z rest hmore ih =>
    rw [decode, if_neg hmore] at h
    simp only [three, Option.bind_eq_bind, Option.bind_eq_some_iff] at h
    obtain ⟨_, ⟨_, -, _, -, _, -, _, -, hthree⟩, more, hrest, h⟩ := h
    obtain rfl := Option.some.inj hthree
    obtain rfl := Option.some.inj h
    have hmore := ih hrest
    simp only [List.length_cons, List.length_append, List.length_nil]
    omega
  | case5 cs hnil hshort =>
    rw [decode] at h
    · cases h
    · exact hnil
    · exact hshort

/-- What is read are digits and padding. -/
theorem mem_of_decode {c : Char} {cs : List Char} {bytes : List UInt8} (h : decode cs = some bytes)
    (hc : c ∈ cs) : c = '=' ∨ (value c).isSome = true := by
  have hdigit {d : Char} {k : ℕ} (hd : value d = some k) : d = '=' ∨ (value d).isSome = true :=
    .inr (by rw [hd]; rfl)
  induction cs using decode.induct generalizing bytes with
  | case1 => cases hc
  | case2 w x z rest hlast =>
    rw [decode, if_pos hlast, if_pos rfl] at h
    simp only [one, Option.bind_eq_bind, Option.bind_eq_some_iff] at h
    obtain ⟨_, hw, _, hx, -⟩ := h
    rw [hlast.1, hlast.2] at hc
    simp only [List.mem_cons, List.not_mem_nil, or_false] at hc
    rcases hc with rfl | rfl | rfl | rfl
    · exact hdigit hw
    · exact hdigit hx
    · exact .inl rfl
    · exact .inl rfl
  | case3 w x y z rest hlast hpad =>
    rw [decode, if_pos hlast, if_neg hpad] at h
    simp only [two, Option.bind_eq_bind, Option.bind_eq_some_iff] at h
    obtain ⟨_, hw, _, hx, _, hy, -⟩ := h
    rw [hlast.1, hlast.2] at hc
    simp only [List.mem_cons, List.not_mem_nil, or_false] at hc
    rcases hc with rfl | rfl | rfl | rfl
    · exact hdigit hw
    · exact hdigit hx
    · exact hdigit hy
    · exact .inl rfl
  | case4 w x y z rest hmore ih =>
    rw [decode, if_neg hmore] at h
    simp only [three, Option.bind_eq_bind, Option.bind_eq_some_iff] at h
    obtain ⟨_, ⟨_, hw, _, hx, _, hy, _, hz, -⟩, more, hrest, -⟩ := h
    simp only [List.mem_cons] at hc
    rcases hc with rfl | rfl | rfl | rfl | hc
    · exact hdigit hw
    · exact hdigit hx
    · exact hdigit hy
    · exact hdigit hz
    · exact ih hrest hc
  | case5 cs hnil hshort =>
    rw [decode] at h
    · cases h
    · exact hnil
    · exact hshort

theorem isSymbol_of_value {c : Char} (h : (value c).isSome = true) : IsSymbol c := by
  rw [value] at h
  split_ifs at h with hupper hlower hdigit hplus hslash
  · exact .inl hupper
  · exact .inr (.inl hlower)
  · exact .inr (.inr (.inl hdigit))
  · exact .inr (.inr (.inr (.inl hplus)))
  · exact .inr (.inr (.inr (.inr (.inl hslash))))
  · cases h

/-- The codec with the standard alphabet. -/
def standard : TextCodec (List UInt8) := ⟨encode, decode⟩

theorem strict_standard : Strict standard where
  decode_encode := decode_encode
  length_of_decode := length_of_decode
  mem_of_decode h c hc := by
    rcases mem_of_decode h hc with hpad | hvalue
    · exact .inr (.inr (.inr (.inr (.inr hpad))))
    · exact isSymbol_of_value hvalue

end Base64

end Foundations
