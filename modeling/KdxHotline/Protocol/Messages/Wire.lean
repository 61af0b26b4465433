import KdxHotline.Files.Names
import KdxHotline.Foundations.Reader
import KdxHotline.Protocol.Header

/-!
# The pieces of a payload

How the payload types write and read their fields. A string carries its length in
two bytes, and so does a blob; a list carries its count in two or four. What does
not fit is clamped, so that a prefix always matches what follows it: a string is cut
to its longest prefix of whole characters (`KdxHotline.Protocol.clampStr_longest`), a
blob or a list to the most the prefix can say.

Every piece comes with what reading it says about the bytes, for the payload types to
use by rewriting.
-/

namespace KdxHotline

namespace Protocol

open Foundations Reader Files Limits

/-- A reader of a payload. -/
abbrev PayloadReader (α : Type) : Type := Reader ProtocolError α

/-- A payload type. -/
abbrev Payload (α : Type) : Type := Message ProtocolError α

/-! ### Strings -/

/-- The most bytes, or entries, a prefix of two bytes can count. -/
def maxU16Len : ℕ := 65535

/-- The most entries a prefix of four bytes can count. -/
def maxU32Len : ℕ := 4294967295

/-- Whether a character starts at a byte, or the string ends there. -/
def isCharBoundary : List Char → ℕ → Bool
  | _, 0 => true
  | [], _ + 1 => false
  | c :: cs, i + 1 => decide (c.utf8Size ≤ i + 1) && isCharBoundary cs (i + 1 - c.utf8Size)

/-- Back off to the nearest boundary. -/
def backOff (cs : List Char) : ℕ → ℕ
  | 0 => 0
  | i + 1 => if isCharBoundary cs (i + 1) then i + 1 else backOff cs i

/-- The longest prefix of at most `max` bytes that ends on a boundary. -/
def clampStr (s : String) (max : ℕ) : String :=
  if s.utf8ByteSize ≤ max then s else String.ofList (takeBytes (backOff s.toList max) s.toList)

/-- The bytes of a string. -/
def strBytes (s : String) : List UInt8 := s.toByteArray.data.toList

/-- The string some bytes spell, if they are UTF-8. -/
def fromUtf8 (bytes : List UInt8) : Option String := String.fromUTF8? ⟨bytes.toArray⟩

section Strings

variable {s : String} {cs p : List Char} {max n : ℕ}

@[simp] theorem length_strBytes (s : String) : (strBytes s).length = s.utf8ByteSize := rfl

theorem fromUtf8_eq_some {bytes : List UInt8} : fromUtf8 bytes = some s ↔ bytes = strBytes s := by
  rw [fromUtf8, String.fromUTF8?]
  constructor
  · split
    case isTrue hvalid =>
      intro h
      obtain rfl := Option.some.inj h
      rfl
    case isFalse => rintro ⟨⟩
  · rintro rfl
    have hback : (⟨(strBytes s).toArray⟩ : ByteArray) = s.toByteArray := rfl
    simp only [hback, dif_pos s.isValidUTF8]
    rfl

/-- Taking bytes takes every prefix that fits. -/
theorem initial_takeBytes (hp : p <+: cs) (hlen : byteLen p ≤ n) : p <+: takeBytes n cs := by
  induction cs generalizing p n with
  | nil => exact List.prefix_nil.mp hp ▸ List.nil_prefix
  | cons c cs ih =>
    obtain _ | ⟨d, p⟩ := p
    · exact List.nil_prefix
    · obtain ⟨rfl, hrest⟩ := List.cons_prefix_cons.mp hp
      simp only [byteLen, List.map_cons, List.sum_cons] at hlen
      rw [takeBytes, if_pos (by omega)]
      exact (List.prefix_cons_inj d).mpr (ih hrest (by rw [byteLen]; omega))

/-- A prefix ends on a boundary. -/
theorem isCharBoundary_of_initial (hp : p <+: cs) : isCharBoundary cs (byteLen p) = true := by
  induction cs generalizing p with
  | nil =>
    obtain rfl := List.prefix_nil.mp hp
    rfl
  | cons c cs ih =>
    obtain _ | ⟨d, p⟩ := p
    · rfl
    · obtain ⟨rfl, hrest⟩ := List.cons_prefix_cons.mp hp
      have hpos := d.utf8Size_pos
      have hlen : byteLen (d :: p) = d.utf8Size + byteLen p := by simp [byteLen]
      obtain ⟨k, hk⟩ : ∃ k, byteLen (d :: p) = k + 1 := ⟨_, (Nat.succ_pred (by omega)).symm⟩
      have hsub : k + 1 - d.utf8Size = byteLen p := by omega
      rw [hk, isCharBoundary, hsub, ih hrest, Bool.and_true]
      exact decide_eq_true (by omega)

theorem backOff_le (cs : List Char) (n : ℕ) : backOff cs n ≤ n := by
  induction n with
  | zero => exact le_rfl
  | succ n ih =>
    rw [backOff]
    split
    · exact le_rfl
    · exact ih.trans n.le_succ

/-- Backing off stops at the nearest boundary. -/
theorem le_backOff {i : ℕ} (hi : i ≤ n) (h : isCharBoundary cs i = true) : i ≤ backOff cs n := by
  induction n with
  | zero => exact hi
  | succ n ih =>
    rw [backOff]
    split
    · exact hi
    · rename_i hno
      refine ih (Nat.le_of_lt_succ (lt_of_le_of_ne hi ?_))
      rintro rfl
      exact hno h

theorem clampStr_of_le (h : s.utf8ByteSize ≤ max) : clampStr s max = s := if_pos h

theorem utf8ByteSize_clampStr_le (s : String) (max : ℕ) : (clampStr s max).utf8ByteSize ≤ max := by
  rw [clampStr]
  split
  · assumption
  · rw [utf8ByteSize_ofList]
    exact (byteLen_takeBytes_le _ _).trans (backOff_le _ _)

theorem clampStr_eq_self : clampStr s max = s ↔ s.utf8ByteSize ≤ max :=
  ⟨fun h => h ▸ utf8ByteSize_clampStr_le s max, clampStr_of_le⟩

/-- **A clamped string is the longest prefix that fits.** -/
theorem clampStr_longest (s : String) (max : ℕ) : (clampStr s max).toList <+: s.toList ∧
    (clampStr s max).utf8ByteSize ≤ max ∧
    ∀ p, p <+: s.toList → (String.ofList p).utf8ByteSize ≤ max → p <+: (clampStr s max).toList := by
  refine ⟨?_, utf8ByteSize_clampStr_le s max, ?_⟩
  · rw [clampStr]
    split
    · exact List.prefix_rfl
    · rw [String.toList_ofList]
      exact takeBytes_isPrefix _ _
  · intro p hp hlen
    rw [utf8ByteSize_ofList] at hlen
    rw [clampStr]
    split
    · exact hp
    · rw [String.toList_ofList]
      exact initial_takeBytes hp (le_backOff hlen (isCharBoundary_of_initial hp))

end Strings

/-! ### Numbers -/

/-- A byte. -/
def putU8 (x : UInt8) : List UInt8 := [x]
/-- Two bytes, the highest first. -/
def putU16 (x : UInt16) : List UInt8 := toBe 2 x.toNat
/-- Four bytes, the highest first. -/
def putU32 (x : UInt32) : List UInt8 := toBe 4 x.toNat
/-- Eight bytes, the highest first. -/
def putU64 (x : UInt64) : List UInt8 := toBe 8 x.toNat
/-- Four bytes, in two's complement. -/
def putI32 (x : Int32) : List UInt8 := putU32 x.toUInt32
/-- A byte that is 1 or 0. -/
def putBool (x : Bool) : List UInt8 := putU8 (if x then 1 else 0)
/-- An array of bytes is written as it is. -/
def putArray {n : ℕ} (v : Vector UInt8 n) : List UInt8 := v.toList

/-- Read a byte. -/
def getU8 : PayloadReader UInt8 := UInt8.ofNat <$> getBe 1
/-- Read two bytes. -/
def getU16 : PayloadReader UInt16 := UInt16.ofNat <$> getBe 2
/-- Read four bytes. -/
def getU32 : PayloadReader UInt32 := UInt32.ofNat <$> getBe 4
/-- Read eight bytes. -/
def getU64 : PayloadReader UInt64 := UInt64.ofNat <$> getBe 8
/-- Read four bytes in two's complement. -/
def getI32 : PayloadReader Int32 := UInt32.toInt32 <$> getU32

/-! ### Checks -/

/-- What a malformed payload of this kind is refused with. -/
abbrev malformed (context : String) : ProtocolError := .malformedPayload context

/-- Refuse fewer than `n` bytes. -/
def needBytes (n : ℕ) (context : String) : PayloadReader Unit := need n (malformed context)

/-- Refuse any other number of bytes than `n`. -/
def needJust (n : ℕ) (context : String) : PayloadReader Unit := needExactly n (malformed context)

/-- Refuse bytes that are left over. -/
def expectEnd (context : String) : PayloadReader Unit := needExactly 0 (malformed context)

/-! ### Strings, blobs and flags -/

/-- Write a string after its length. -/
def putStr (s : String) : List UInt8 :=
  let s := clampStr s maxU16Len
  putU16 (UInt16.ofNat s.utf8ByteSize) ++ strBytes s

/-- Read a text after its length. -/
def getStr (context : String) : PayloadReader String := do
  needBytes 2 context
  let len ← getU16
  needBytes len.toNat context
  let bytes ← getBytes len.toNat
  check (required (.refused (malformed context)) (fromUtf8 bytes))

/-- Write a blob after its length. -/
def putBytes16 (bytes : List UInt8) : List UInt8 :=
  let n := min bytes.length maxU16Len
  putU16 (UInt16.ofNat n) ++ bytes.take n

/-- Read some bytes after their length. -/
def getBytes16 (context : String) : PayloadReader (List UInt8) := do
  needBytes 2 context
  let len ← getU16
  needBytes len.toNat context
  getBytes len.toNat

/-- Read a flag; only its canonical bytes are accepted. -/
def getBool (context : String) : PayloadReader Bool := do
  needBytes 1 context
  let flag ← getU8
  check (if flag = 0 then .ok false else if flag = 1 then .ok true
    else .error (.refused (malformed context)))

/-- Read the sixteen bytes of an id. -/
def getId (context : String) : PayloadReader (Vector UInt8 16) := do
  needBytes 16 context
  getArray 16

/-- Read the thirty-two bytes of a hash. -/
def getHash (context : String) : PayloadReader (Vector UInt8 32) := do
  needBytes 32 context
  getArray 32

/-- Read what is left, which has to be `n` bytes. -/
def getLast (n : ℕ) (context : String) : PayloadReader (Vector UInt8 n) := do
  needJust n context
  getArray n

/-- Write an optional value after the flag that says it is there. -/
def putOption {α : Type} (put : α → List UInt8) : Option α → List UInt8
  | some a => putU8 1 ++ put a
  | none => putU8 0

/-- Read a byte that says whether an item follows, and the item. -/
def getOption {α : Type} (context : String) (item : PayloadReader α) : PayloadReader (Option α) := do
  if ← getBool context then return some (← item) else return none

/-! ### Lists -/

/-- Write a count of entries in two bytes, and as many entries. -/
def putList16 {α : Type} (put : α → List UInt8) (as : List α) : List UInt8 :=
  let n := min as.length maxU16Len
  putU16 (UInt16.ofNat n) ++ (as.take n).flatMap put

/-- Write a count of entries in four bytes, and as many entries. -/
def putList32 {α : Type} (put : α → List UInt8) (as : List α) : List UInt8 :=
  let n := min as.length maxU32Len
  putU32 (UInt32.ofNat n) ++ (as.take n).flatMap put

/-- Read a count of two bytes, and as many entries. -/
def getList16 {α : Type} (item : PayloadReader α) : PayloadReader (List α) := do
  let count ← getU16
  times item count.toNat

/-- Read a count of four bytes, and as many entries. -/
def getList32 {α : Type} (item : PayloadReader α) : PayloadReader (List α) := do
  let count ← getU32
  times item count.toNat

/-! ### What is clamped -/

/-- A string as it is sent. -/
def clampText (s : String) : String := clampStr s maxU16Len

/-- A blob as it is sent. -/
def clampBytes (bytes : List UInt8) : List UInt8 := bytes.take maxU16Len

/-- A list counted in two bytes as it is sent. -/
def clampList16 {α : Type} (clamp : α → α) (as : List α) : List α := (as.take maxU16Len).map clamp

/-- A list counted in four bytes as it is sent. -/
def clampList32 {α : Type} (clamp : α → α) (as : List α) : List α := (as.take maxU32Len).map clamp

/-- A string that its prefix can count. -/
def FitsText (s : String) : Prop := s.utf8ByteSize ≤ maxU16Len

/-- A blob that its prefix can count. -/
def FitsBytes (bytes : List UInt8) : Prop := bytes.length ≤ maxU16Len

/-- A list that a count of two bytes can count, of entries that fit. -/
def FitsList16 {α : Type} (Fits : α → Prop) (as : List α) : Prop :=
  as.length ≤ maxU16Len ∧ ∀ a ∈ as, Fits a

/-- A list that a count of four bytes can count, of entries that fit. -/
def FitsList32 {α : Type} (Fits : α → Prop) (as : List α) : Prop :=
  as.length ≤ maxU32Len ∧ ∀ a ∈ as, Fits a

section Clamp

variable {α : Type} {put : α → List UInt8} {clamp : α → α} {Fits : α → Prop}

theorem clampText_eq_self {s : String} : clampText s = s ↔ FitsText s := clampStr_eq_self

@[simp] theorem clampText_clampText (s : String) : clampText (clampText s) = clampText s :=
  clampStr_of_le (utf8ByteSize_clampStr_le s maxU16Len)

@[simp] theorem putStr_clampText (s : String) : putStr (clampText s) = putStr s := by
  have hsame : clampStr (clampText s) maxU16Len = clampStr s maxU16Len := clampText_clampText s
  simp only [putStr, hsame]

theorem clampBytes_eq_self {bytes : List UInt8} :
    clampBytes bytes = bytes ↔ FitsBytes bytes := List.take_eq_self_iff bytes

/-- A list that a clamp leaves alone fits its count, and its entries are as they
were. -/
theorem map_take_eq_self {n : ℕ} {as : List α} :
    (as.take n).map clamp = as ↔ as.length ≤ n ∧ ∀ a ∈ as, clamp a = a := by
  have hmap : as.map clamp = as ↔ ∀ a ∈ as, clamp a = a := by
    conv_lhs => rhs; rw [← List.map_id as]
    exact List.map_inj_left
  constructor
  · intro h
    have hle : as.length ≤ n := by
      rw [← h, List.length_map, List.length_take]
      exact min_le_left _ _
    rw [List.take_of_length_le hle] at h
    exact ⟨hle, hmap.mp h⟩
  · rintro ⟨hle, h⟩
    rw [List.take_of_length_le hle]
    exact hmap.mpr h

theorem clampList16_eq_self (h : ∀ {a}, clamp a = a ↔ Fits a) {as : List α} :
    clampList16 clamp as = as ↔ FitsList16 Fits as := by
  simp only [clampList16, map_take_eq_self, h, FitsList16]

theorem clampList32_eq_self (h : ∀ {a}, clamp a = a ↔ Fits a) {as : List α} :
    clampList32 clamp as = as ↔ FitsList32 Fits as := by
  simp only [clampList32, map_take_eq_self, h, FitsList32]

theorem clampIds_eq_self {ids : List α} : clampList16 id ids = ids ↔ ids.length ≤ maxU16Len := by
  simp only [clampList16, map_take_eq_self, id, implies_true, and_true]

theorem clampOption_eq_self (h : ∀ {a}, clamp a = a ↔ Fits a) {o : Option α} :
    o.map clamp = o ↔ ∀ a ∈ o, Fits a := by
  cases o <;> simp [h]

@[simp] theorem clampBytes_clampBytes (bytes : List UInt8) :
    clampBytes (clampBytes bytes) = clampBytes bytes := by
  rw [clampBytes_eq_self, FitsBytes, clampBytes, List.length_take]
  exact min_le_left _ _

@[simp] theorem putBytes16_clampBytes (bytes : List UInt8) :
    putBytes16 (clampBytes bytes) = putBytes16 bytes := by
  simp [putBytes16, clampBytes, List.take_take, min_comm]

theorem flatMap_map_clamp (hput : ∀ a, put (clamp a) = put a) (as : List α) :
    (as.map clamp).flatMap put = as.flatMap put := by
  simp [List.flatMap_map, hput]

/-- Clamping the first entries twice is clamping them once. -/
theorem take_map_clamp (n : ℕ) (hclamp : ∀ a, clamp (clamp a) = clamp a) (as : List α) :
    ((((as.take n).map clamp).take n).map clamp) = (as.take n).map clamp := by
  simp [← List.map_take, List.take_take, Function.comp_def, hclamp]

theorem putList16_clampList16 (hput : ∀ a, put (clamp a) = put a) (as : List α) :
    putList16 put (clampList16 clamp as) = putList16 put as := by
  simp [putList16, clampList16, ← List.map_take, List.take_take, flatMap_map_clamp hput, min_comm]

theorem putList32_clampList32 (hput : ∀ a, put (clamp a) = put a) (as : List α) :
    putList32 put (clampList32 clamp as) = putList32 put as := by
  simp [putList32, clampList32, ← List.map_take, List.take_take, flatMap_map_clamp hput, min_comm]

theorem clampList16_clampList16 (hclamp : ∀ a, clamp (clamp a) = clamp a) (as : List α) :
    clampList16 clamp (clampList16 clamp as) = clampList16 clamp as := take_map_clamp _ hclamp as

theorem clampList32_clampList32 (hclamp : ∀ a, clamp (clamp a) = clamp a) (as : List α) :
    clampList32 clamp (clampList32 clamp as) = clampList32 clamp as := take_map_clamp _ hclamp as

/-- Ids are not clamped. -/
theorem putList16_clampIds (ids : List (Vector UInt8 n)) :
    putList16 putArray (clampList16 id ids) = putList16 putArray ids :=
  putList16_clampList16 (fun _ => rfl) ids

theorem clampList16_clampIds (ids : List (Vector UInt8 n)) :
    clampList16 id (clampList16 id ids) = clampList16 id ids :=
  clampList16_clampList16 (fun _ => rfl) ids

theorem putOption_map (hput : ∀ a, put (clamp a) = put a) (o : Option α) :
    putOption put (o.map clamp) = putOption put o := by
  cases o <;> simp [putOption, hput]

end Clamp

/-! ### What is read -/

section Reads

variable {α β : Type} {context : String} {b t : List UInt8} {n : ℕ} {put : α → List UInt8}
  {clamp : α → α} {item : PayloadReader α}

theorem toNat_ofNat_min16 (n : ℕ) : (UInt16.ofNat (min n maxU16Len)).toNat = min n maxU16Len := by
  rw [UInt16.toNat_ofNat', maxU16Len]
  omega

theorem toNat_ofNat_min32 (n : ℕ) : (UInt32.ofNat (min n maxU32Len)).toNat = min n maxU32Len := by
  rw [UInt32.toNat_ofNat', maxU32Len]
  omega

@[simp] theorem returns_needBytes {u : Unit} :
    Returns (needBytes n context) b u t ↔ n ≤ b.length ∧ b = t := returns_need

@[simp] theorem returns_needJust {u : Unit} :
    Returns (needJust n context) b u t ↔ b.length = n ∧ b = t := returns_needExactly

@[simp] theorem returns_expectEnd {u : Unit} :
    Returns (expectEnd context) b u t ↔ b = [] ∧ t = [] := by
  rw [expectEnd, returns_needExactly, List.length_eq_zero_iff]
  constructor
  · rintro ⟨rfl, rfl⟩
    exact ⟨rfl, rfl⟩
  · rintro ⟨rfl, rfl⟩
    exact ⟨rfl, rfl⟩

@[simp] theorem returns_getU8 {x : UInt8} : Returns getU8 b x t ↔ b = putU8 x ++ t := by
  have hone : toBe 1 x.toNat = putU8 x := by simp [toBe, putU8]
  simp only [getU8, returns_map, returns_getBe]
  constructor
  · rintro ⟨n, ⟨hlt, rfl⟩, rfl⟩
    rw [← hone, UInt8.toNat_ofNat_of_lt' hlt]
  · rintro rfl
    exact ⟨x.toNat, ⟨x.toNat_lt, by rw [hone]⟩, UInt8.ofNat_toNat⟩

@[simp] theorem returns_getU16 {x : UInt16} : Returns getU16 b x t ↔ b = putU16 x ++ t := by
  simp only [getU16, returns_map, returns_getBe]
  constructor
  · rintro ⟨n, ⟨hlt, rfl⟩, rfl⟩
    rw [putU16, UInt16.toNat_ofNat_of_lt' hlt]
  · rintro rfl
    exact ⟨x.toNat, ⟨x.toNat_lt, rfl⟩, UInt16.ofNat_toNat⟩

@[simp] theorem returns_getU32 {x : UInt32} : Returns getU32 b x t ↔ b = putU32 x ++ t := by
  simp only [getU32, returns_map, returns_getBe]
  constructor
  · rintro ⟨n, ⟨hlt, rfl⟩, rfl⟩
    rw [putU32, UInt32.toNat_ofNat_of_lt' hlt]
  · rintro rfl
    exact ⟨x.toNat, ⟨x.toNat_lt, rfl⟩, UInt32.ofNat_toNat⟩

@[simp] theorem returns_getU64 {x : UInt64} : Returns getU64 b x t ↔ b = putU64 x ++ t := by
  simp only [getU64, returns_map, returns_getBe]
  constructor
  · rintro ⟨n, ⟨hlt, rfl⟩, rfl⟩
    rw [putU64, UInt64.toNat_ofNat_of_lt' hlt]
  · rintro rfl
    exact ⟨x.toNat, ⟨x.toNat_lt, rfl⟩, UInt64.ofNat_toNat⟩

@[simp] theorem returns_getI32 {x : Int32} : Returns getI32 b x t ↔ b = putI32 x ++ t := by
  simp only [getI32, returns_map, returns_getU32]
  constructor
  · rintro ⟨n, rfl, rfl⟩
    rfl
  · rintro rfl
    exact ⟨x.toUInt32, rfl, rfl⟩

@[simp] theorem returns_getArray' {v : Vector UInt8 n} :
    Returns (getArray n : PayloadReader _) b v t ↔ b = putArray v ++ t := returns_getArray

/-- An array read once there was seen to be room for it. -/
theorem returns_checked {v : Vector UInt8 n} :
    Returns (do needBytes n context; getArray n) b v t ↔ b = putArray v ++ t := by
  simp only [returns_bind, returns_needBytes, returns_getArray']
  constructor
  · rintro ⟨⟨⟩, _, ⟨-, rfl⟩, rfl⟩
    rfl
  · rintro rfl
    exact ⟨(), _, ⟨by simp [putArray], rfl⟩, rfl⟩

@[simp] theorem returns_getId {v : Vector UInt8 16} :
    Returns (getId context) b v t ↔ b = putArray v ++ t := returns_checked

@[simp] theorem returns_getHash {v : Vector UInt8 32} :
    Returns (getHash context) b v t ↔ b = putArray v ++ t := returns_checked

@[simp] theorem returns_getLast {v : Vector UInt8 n} :
    Returns (getLast n context) b v t ↔ b = putArray v ∧ t = [] := by
  simp only [getLast, returns_bind, returns_needJust, returns_getArray']
  constructor
  · rintro ⟨⟨⟩, _, ⟨hlen, rfl⟩, rfl⟩
    obtain rfl : t = [] := List.eq_nil_of_length_eq_zero (by simpa [putArray] using hlen)
    exact ⟨List.append_nil _, rfl⟩
  · rintro ⟨rfl, rfl⟩
    exact ⟨(), _, ⟨by simp [putArray], rfl⟩, (List.append_nil _).symm⟩

/-- An id is not clamped. -/
theorem returns_id {v : Vector UInt8 16} :
    Returns (getId context) b v t ↔ id v = v ∧ b = putArray v ++ t :=
  returns_getId.trans (and_iff_right rfl).symm

/-- A hash is not clamped. -/
theorem returns_hash {v : Vector UInt8 32} :
    Returns (getHash context) b v t ↔ id v = v ∧ b = putArray v ++ t :=
  returns_getHash.trans (and_iff_right rfl).symm

/-- A blob whose length was written before it. -/
theorem returns_counted {bytes : List UInt8} : Returns (getBytes16 context) b bytes t ↔
    bytes.length ≤ maxU16Len ∧ b = putU16 (UInt16.ofNat bytes.length) ++ (bytes ++ t) := by
  simp only [getBytes16, returns_bind, returns_needBytes, returns_getU16, returns_getBytes]
  constructor
  · rintro ⟨⟨⟩, _, ⟨-, rfl⟩, len, _, rfl, ⟨⟩, _, ⟨-, rfl⟩, hlen, rfl⟩
    have hlt := len.toNat_lt
    refine ⟨by rw [hlen, maxU16Len]; omega, ?_⟩
    rw [hlen, UInt16.ofNat_toNat]
  · rintro ⟨hle, rfl⟩
    have hlen : (UInt16.ofNat bytes.length).toNat = bytes.length := by
      rw [← min_eq_left hle, toNat_ofNat_min16]
    refine ⟨(), _, ⟨?_, rfl⟩, _, _, rfl, (), _, ⟨?_, rfl⟩, ?_, rfl⟩
    · rw [List.length_append, putU16, length_toBe]
      omega
    · rw [hlen, List.length_append]
      omega
    · exact hlen.symm

theorem getStr_eq (context : String) : getStr context = (getBytes16 context >>= fun bytes =>
    check (required (.refused (malformed context)) (fromUtf8 bytes))) := by
  simp only [getStr, getBytes16, bind_assoc]

@[simp] theorem returns_getStr {s : String} :
    Returns (getStr context) b s t ↔ clampText s = s ∧ b = putStr s ++ t := by
  simp only [getStr_eq, returns_bind, returns_counted, returns_check, required_eq_ok,
    fromUtf8_eq_some, clampText_eq_self]
  constructor
  · rintro ⟨_, _, ⟨hle, rfl⟩, rfl, rfl⟩
    exact ⟨hle, by simp only [putStr, clampStr_of_le hle, length_strBytes, List.append_assoc]⟩
  · rintro ⟨hle, rfl⟩
    refine ⟨strBytes s, t, ⟨hle, ?_⟩, rfl, rfl⟩
    simp only [putStr, clampStr_of_le hle, length_strBytes, List.append_assoc]

@[simp] theorem returns_getBytes16 {bytes : List UInt8} :
    Returns (getBytes16 context) b bytes t ↔ clampBytes bytes = bytes ∧ b = putBytes16 bytes ++ t := by
  rw [returns_counted, clampBytes_eq_self, FitsBytes]
  refine and_congr_right fun hle => ?_
  simp only [putBytes16, min_eq_left hle, List.take_length, List.append_assoc]

@[simp] theorem returns_getBool {x : Bool} :
    Returns (getBool context) b x t ↔ b = putBool x ++ t := by
  simp only [getBool, returns_bind, returns_needBytes, returns_getU8, returns_check]
  constructor
  · rintro ⟨⟨⟩, _, ⟨-, rfl⟩, flag, _, rfl, h, rfl⟩
    by_cases h0 : flag = 0
    · rw [if_pos h0] at h
      cases h
      rw [h0, putBool, if_neg (by decide)]
    · by_cases h1 : flag = 1
      · rw [if_neg h0, if_pos h1] at h
        cases h
        rw [h1, putBool, if_pos rfl]
      · rw [if_neg h0, if_neg h1] at h
        cases h
  · rintro rfl
    refine ⟨(), _, ⟨?_, rfl⟩, _, t, rfl, ?_, rfl⟩
    · simp [putBool, putU8]
    · cases x <;> rfl

theorem returns_getOption (hitem : ∀ {b a t}, Returns item b a t ↔ clamp a = a ∧ b = put a ++ t)
    {o : Option α} : Returns (getOption context item) b o t ↔
      o.map clamp = o ∧ b = putOption put o ++ t := by
  simp only [getOption, returns_bind, returns_getBool]
  constructor
  · rintro ⟨flag, _, rfl, h⟩
    cases flag with
    | true =>
      simp only [if_true, returns_bind, hitem, returns_pure] at h
      obtain ⟨a, _, ⟨ha, rfl⟩, rfl, rfl⟩ := h
      exact ⟨by rw [Option.map_some, ha], by simp [putOption, putBool]⟩
    | false =>
      simp only [Bool.false_eq_true, if_false, returns_pure] at h
      obtain ⟨rfl, rfl⟩ := h
      exact ⟨rfl, by simp [putOption, putBool]⟩
  · rintro ⟨hclamp, rfl⟩
    cases o with
    | none => exact ⟨false, t, by simp [putOption, putBool], by simp⟩
    | some a =>
      rw [Option.map_some, Option.some.injEq] at hclamp
      refine ⟨true, put a ++ t, by simp [putOption, putBool], ?_⟩
      simp only [if_true, returns_bind, hitem, returns_pure]
      exact ⟨a, t, ⟨hclamp, rfl⟩, rfl, rfl⟩

theorem putList16_of_le {as : List α} (hle : as.length ≤ maxU16Len) :
    putList16 put as = putU16 (UInt16.ofNat as.length) ++ as.flatMap put := by
  simp only [putList16, min_eq_left hle, List.take_length]

theorem returns_getList16 (hitem : ∀ {b a t}, Returns item b a t ↔ clamp a = a ∧ b = put a ++ t)
    {as : List α} : Returns (getList16 item) b as t ↔
      clampList16 clamp as = as ∧ b = putList16 put as ++ t := by
  simp only [getList16, returns_bind, returns_getU16, returns_times hitem, clampList16,
    map_take_eq_self]
  constructor
  · rintro ⟨count, _, rfl, hlen, has, rfl⟩
    have hlt := count.toNat_lt
    have hle : as.length ≤ maxU16Len := by rw [hlen, maxU16Len]; omega
    refine ⟨⟨hle, has⟩, ?_⟩
    rw [putList16_of_le hle, hlen, UInt16.ofNat_toNat, List.append_assoc]
  · rintro ⟨⟨hle, has⟩, rfl⟩
    refine ⟨UInt16.ofNat as.length, _, ?_, ?_, has, rfl⟩
    · rw [putList16_of_le hle, List.append_assoc]
    · rw [← min_eq_left hle, toNat_ofNat_min16]

theorem putList32_of_le {as : List α} (hle : as.length ≤ maxU32Len) :
    putList32 put as = putU32 (UInt32.ofNat as.length) ++ as.flatMap put := by
  simp only [putList32, min_eq_left hle, List.take_length]

theorem returns_getList32 (hitem : ∀ {b a t}, Returns item b a t ↔ clamp a = a ∧ b = put a ++ t)
    {as : List α} : Returns (getList32 item) b as t ↔
      clampList32 clamp as = as ∧ b = putList32 put as ++ t := by
  simp only [getList32, returns_bind, returns_getU32, returns_times hitem, clampList32,
    map_take_eq_self]
  constructor
  · rintro ⟨count, _, rfl, hlen, has, rfl⟩
    have hlt := count.toNat_lt
    have hle : as.length ≤ maxU32Len := by rw [hlen, maxU32Len]; omega
    refine ⟨⟨hle, has⟩, ?_⟩
    rw [putList32_of_le hle, hlen, UInt32.ofNat_toNat, List.append_assoc]
  · rintro ⟨⟨hle, has⟩, rfl⟩
    refine ⟨UInt32.ofNat as.length, _, ?_, ?_, has, rfl⟩
    · rw [putList32_of_le hle, List.append_assoc]
    · rw [← min_eq_left hle, toNat_ofNat_min32]

end Reads

/-! ### Staying within the payload -/

section Safety

variable {α β : Type} {context : String} {n k : ℕ} {put : α → List UInt8} {clamp : α → α}
  {item : PayloadReader α}

@[simp] theorem length_putU8 (x : UInt8) : (putU8 x).length = 1 := rfl

@[simp] theorem length_putU16 (x : UInt16) : (putU16 x).length = 2 := length_toBe 2 _

@[simp] theorem length_putU32 (x : UInt32) : (putU32 x).length = 4 := length_toBe 4 _

@[simp] theorem length_putU64 (x : UInt64) : (putU64 x).length = 8 := length_toBe 8 _

@[simp] theorem length_putI32 (x : Int32) : (putI32 x).length = 4 := length_toBe 4 _

@[simp] theorem length_putBool (x : Bool) : (putBool x).length = 1 := rfl

@[simp] theorem length_putArray (v : Vector UInt8 n) : (putArray v).length = n := v.length_toList

@[simp] theorem two_le_length_putStr (s : String) : 2 ≤ (putStr s).length := by
  simp [putStr]

@[simp] theorem two_le_length_putBytes16 (bytes : List UInt8) : 2 ≤ (putBytes16 bytes).length := by
  simp [putBytes16]

@[simp] theorem length_putList16 (as : List α) : (putList16 put as).length =
    2 + ((as.take (min as.length maxU16Len)).flatMap put).length := by
  simp only [putList16, List.length_append, length_putU16]

@[simp] theorem length_putList32 (as : List α) : (putList32 put as).length =
    4 + ((as.take (min as.length maxU32Len)).flatMap put).length := by
  simp only [putList32, List.length_append, length_putU32]

theorem one_le_length_putOption (o : Option α) : 1 ≤ (putOption put o).length := by
  cases o <;> simp [putOption]

@[simp] theorem safe_map {f : α → β} : Safe n (f <$> item) ↔ Safe n item :=
  ⟨fun h => ⟨fun hn hf => h.not_overrun hn (fails_map.mpr hf)⟩,
    fun h => ⟨fun hn hf => h.not_overrun hn (fails_map.mp hf)⟩⟩

@[simp] theorem safe_expectEnd (n : ℕ) : Safe n (expectEnd context) := safe_needExactly n 0 _

theorem safe_getBe (h : k ≤ n) : Safe n (getBe k : PayloadReader _) := safe_map.mpr (safe_getArray h)

@[simp] theorem safe_getU8 (h : 1 ≤ n) : Safe n getU8 := safe_map.mpr (safe_getBe h)

@[simp] theorem safe_getU16 (h : 2 ≤ n) : Safe n getU16 := safe_map.mpr (safe_getBe h)

@[simp] theorem safe_getU32 (h : 4 ≤ n) : Safe n getU32 := safe_map.mpr (safe_getBe h)

@[simp] theorem safe_getU64 (h : 8 ≤ n) : Safe n getU64 := safe_map.mpr (safe_getBe h)

theorem safe_getI32 (h : 4 ≤ n) : Safe n getI32 := safe_map.mpr (safe_getU32 h)

theorem safe_check (x : Except (ReadError ProtocolError) α) (hx : x ≠ .error .overrun) :
    Safe n (check x) := ⟨fun _ h => hx (fails_check.mp h).1⟩

@[simp] theorem safe_needBytes_bind {f : Unit → PayloadReader β} :
    Safe n (needBytes k context >>= f) ↔ Safe (max n k) (f ()) := safe_need_bind

/-- After the length was checked, that many bytes are left. -/
theorem safe_needJust_bind {f : Unit → PayloadReader β} (h : Safe k (f ())) :
    Safe n (needJust k context >>= f) := by
  refine (safe_needExactly n k _).bind ?_
  intro b _ t _ hneed
  obtain ⟨rfl, rfl⟩ := returns_needJust.mp hneed
  exact h

@[simp] theorem safe_getU8_bind {f : UInt8 → PayloadReader β} (h : 1 ≤ n) :
    Safe n (getU8 >>= f) ↔ ∀ x, Safe (n - 1) (f x) := by
  exact safe_bind_of_length (safe_getU8 h) (by simp) length_putU8 h

@[simp] theorem safe_getU16_bind {f : UInt16 → PayloadReader β} (h : 2 ≤ n) :
    Safe n (getU16 >>= f) ↔ ∀ x, Safe (n - 2) (f x) := by
  exact safe_bind_of_length (safe_getU16 h) (by simp) length_putU16 h

@[simp] theorem safe_getU32_bind {f : UInt32 → PayloadReader β} (h : 4 ≤ n) :
    Safe n (getU32 >>= f) ↔ ∀ x, Safe (n - 4) (f x) := by
  exact safe_bind_of_length (safe_getU32 h) (by simp) length_putU32 h

@[simp] theorem safe_getU64_bind {f : UInt64 → PayloadReader β} (h : 8 ≤ n) :
    Safe n (getU64 >>= f) ↔ ∀ x, Safe (n - 8) (f x) := by
  exact safe_bind_of_length (safe_getU64 h) (by simp) length_putU64 h

@[simp] theorem safe_getI32_bind {f : Int32 → PayloadReader β} (h : 4 ≤ n) :
    Safe n (getI32 >>= f) ↔ ∀ x, Safe (n - 4) (f x) := by
  exact safe_bind_of_length (safe_getI32 h) (by simp) length_putI32 h

@[simp] theorem safe_getArray_bind {f : Vector UInt8 k → PayloadReader β} (h : k ≤ n) :
    Safe n (getArray k >>= f) ↔ ∀ v, Safe (n - k) (f v) := by
  exact safe_bind_of_length (safe_getArray h) (by simp) length_putArray h

@[simp] theorem safe_getId (n : ℕ) (context : String) : Safe n (getId context) := by
  rw [getId, safe_needBytes_bind]
  exact safe_getArray (Nat.le_max_right n 16)

@[simp] theorem safe_getHash (n : ℕ) (context : String) : Safe n (getHash context) := by
  rw [getHash, safe_needBytes_bind]
  exact safe_getArray (Nat.le_max_right n 32)

@[simp] theorem safe_getLast (n k : ℕ) (context : String) : Safe n (getLast k context) :=
  safe_needJust_bind (safe_getArray le_rfl)

@[simp] theorem safe_getBytes16 (n : ℕ) (context : String) : Safe n (getBytes16 context) := by
  rw [getBytes16, safe_needBytes_bind, safe_getU16_bind (Nat.le_max_right n 2)]
  intro len
  rw [safe_needBytes_bind]
  exact safe_map.mpr (safe_getArray (Nat.le_max_right _ _))

@[simp] theorem safe_getStr (n : ℕ) (context : String) : Safe n (getStr context) := by
  rw [getStr_eq]
  refine (safe_getBytes16 n context).bind ?_
  rintro b bytes t - -
  refine safe_check _ ?_
  cases fromUtf8 bytes <;> simp [required]

@[simp] theorem safe_getBool (n : ℕ) (context : String) : Safe n (getBool context) := by
  rw [getBool, safe_needBytes_bind, safe_getU8_bind (Nat.le_max_right n 1)]
  intro flag
  refine safe_check _ ?_
  split
  · exact nofun
  · split <;> exact nofun

@[simp] theorem safe_getStr_bind {f : String → PayloadReader β} (h : n ≤ 2) :
    Safe n (getStr context >>= f) ↔ ∀ s, clampText s = s → Safe 0 (f s) :=
  safe_bind_of_le_length (safe_getStr n context) returns_getStr
    fun s => h.trans (two_le_length_putStr s)

@[simp] theorem safe_getBytes16_bind {f : List UInt8 → PayloadReader β} (h : n ≤ 2) :
    Safe n (getBytes16 context >>= f) ↔ ∀ s, clampBytes s = s → Safe 0 (f s) :=
  safe_bind_of_le_length (safe_getBytes16 n context) returns_getBytes16
    fun s => h.trans (two_le_length_putBytes16 s)

@[simp] theorem safe_getId_bind {f : Vector UInt8 16 → PayloadReader β} (h : n ≤ 16) :
    Safe n (getId context >>= f) ↔ ∀ v, Safe 0 (f v) := by
  exact safe_bind_of_le_length_all (safe_getId n context) (by simp)
    fun v => h.trans (length_putArray v).ge

@[simp] theorem safe_getBool_bind {f : Bool → PayloadReader β} (h : n ≤ 1) :
    Safe n (getBool context >>= f) ↔ ∀ x, Safe 0 (f x) := by
  exact safe_bind_of_le_length_all (safe_getBool n context) (by simp)
    fun x => h.trans (length_putBool x).ge

/-- After a record, any number of bytes may be left. -/
theorem safe_bind_record {f : α → PayloadReader β} (hsafe : Safe 0 item)
    (hitem : ∀ {b a t}, Returns item b a t ↔ clamp a = a ∧ b = put a ++ t) :
    Safe 0 (item >>= f) ↔ ∀ a, clamp a = a → Safe 0 (f a) :=
  safe_bind_of_le_length hsafe hitem fun _ => Nat.zero_le _

theorem safe_getOption_bind {f : Option α → PayloadReader β} (hsafe : Safe 0 item)
    (hitem : ∀ {b a t}, Returns item b a t ↔ clamp a = a ∧ b = put a ++ t) (h : n ≤ 1) :
    Safe n (getOption context item >>= f) ↔ ∀ o, o.map clamp = o → Safe 0 (f o) := by
  refine safe_bind_of_le_length ?_ (returns_getOption hitem)
    fun o => h.trans (one_le_length_putOption o)
  refine (safe_getBool n context).bind ?_
  rintro b flag t - -
  cases flag with
  | true =>
    refine (hsafe.mono (Nat.zero_le _)).bind ?_
    rintro b a t - -
    exact safe_pure _ _
  | false => exact safe_pure _ _

theorem safe_getList16_bind {f : List α → PayloadReader β} (hsafe : Safe 0 item)
    (hitem : ∀ {b a t}, Returns item b a t ↔ clamp a = a ∧ b = put a ++ t) :
    Safe 2 (getList16 item >>= f) ↔ ∀ as, clampList16 clamp as = as → Safe 0 (f as) := by
  refine safe_bind_of_le_length ?_ (returns_getList16 hitem) fun as => ?_
  · rw [getList16, safe_getU16_bind le_rfl]
    exact fun count => safe_times hsafe _ _
  · rw [length_putList16]
    exact Nat.le_add_right _ _

theorem safe_getList32_bind {f : List α → PayloadReader β} (hsafe : Safe 0 item)
    (hitem : ∀ {b a t}, Returns item b a t ↔ clamp a = a ∧ b = put a ++ t) :
    Safe 4 (getList32 item >>= f) ↔ ∀ as, clampList32 clamp as = as → Safe 0 (f as) := by
  refine safe_bind_of_le_length ?_ (returns_getList32 hitem) fun as => ?_
  · rw [getList32, safe_getU32_bind le_rfl]
    exact fun count => safe_times hsafe _ _
  · rw [length_putList32]
    exact Nat.le_add_right _ _

end Safety

/-! ### The plainest payloads -/

/-- No payload. -/
def emptyPayload (context : String) : Payload Unit :=
  .ofReads (fun _ => []) (expectEnd context) id (fun _ => True) (by simp) (by simp) (by simp) (by simp)
    (by simp)

/-- One string. -/
def strPayload (context : String) : Payload String :=
  .ofReads putStr
    (do
      let s ← getStr context
      expectEnd context
      return s)
    clampText FitsText clampText_eq_self (by simp) (by simp)
    (by
      intro b m t
      simp [returns_bind, and_assoc, and_comm, and_left_comm])
    (by simp)

/-- Two strings. -/
def strPairPayload (context : String) : Payload (String × String) :=
  .ofReads (fun m => putStr m.1 ++ putStr m.2)
    (do
      let first ← getStr context
      let second ← getStr context
      expectEnd context
      return (first, second))
    (fun m => (clampText m.1, clampText m.2)) (fun m => FitsText m.1 ∧ FitsText m.2)
    (by simp [Prod.ext_iff, clampText_eq_self]) (by simp) (by simp)
    (by
      rintro b ⟨first, second⟩ t
      simp [returns_bind, and_assoc, and_comm, and_left_comm])
    (by simp)

/-- One id. -/
def idPayload (context : String) : Payload (Vector UInt8 16) :=
  .ofReads putArray
    (do
      let id ← getId context
      expectEnd context
      return id)
    id (fun _ => True) (by simp) (by simp) (by simp)
    (by
      intro b m t
      simp [returns_bind, and_assoc, and_comm])
    (by simp)

/-- A string and an id. -/
def strIdPayload (context : String) : Payload (String × Vector UInt8 16) :=
  .ofReads (fun m => putStr m.1 ++ putArray m.2)
    (do
      let s ← getStr context
      let id ← getId context
      expectEnd context
      return (s, id))
    (fun m => (clampText m.1, m.2)) (fun m => FitsText m.1)
    (by simp [Prod.ext_iff, clampText_eq_self]) (by simp) (by simp)
    (by
      rintro b ⟨s, id⟩ t
      simp [returns_bind, and_assoc, and_comm, and_left_comm])
    (by simp)

end Protocol

end KdxHotline
