import Mathlib.Data.List.TakeWhile
import KdxHotline.Client.Geometry
import KdxHotline.Crypto.Scram
import KdxHotline.Foundations.Base64
import KdxHotline.Foundations.Lines
import KdxHotline.Protocol.Messages.Wire

/-!
# The resume sidecar of a download

Beside its partial file a download keeps a text that says what is downloaded, from where and to
where, and which chunks are there. Whatever its strings hold, it reads back exactly when its
bitmap fits the geometry, and of a part of it nothing else reads back
(`KdxHotline.Client.sidecar_roundtrip`).

The bitmap is the last line. A part of the text that is cut within it may still be base64, but
then of fewer bytes than the geometry asks for. The base64 is that of any engine that reads
strictly, and an id is in any text that reads back and is in hexadecimal with hyphens.
-/

namespace KdxHotline

namespace Client

open Foundations Crypto Protocol

/-- A partial download: what it is and which of its chunks are on disk. -/
structure Sidecar where
  server : String
  remote : String
  /-- The bytes of a path; any bytes are a path. -/
  destination : List UInt8
  transferId : Vector UInt8 16
  size : UInt64
  chunkSize : UInt32
  sha256 : Vector UInt8 32
  bitmap : List UInt8
  deriving DecidableEq

/-- The version that is written, and the only one that is read. -/
def sidecarVersion : List Char := "3".toList
/-- How many fields a sidecar has. -/
def sidecarFields : ℕ := 9
/-- Upper bound on a sidecar that is read. -/
def maxSidecarBytes : ℕ := 256 * 1024

/-! ### Fields -/

/-- A 64-bit number in decimal, after an optional plus sign. -/
def parseU64 (cs : List Char) : Option ℕ :=
  let digits := if cs.head? = some '+' then cs.tail else cs
  if digits ≠ [] ∧ digits.all Char.isDigit ∧ Nat.ofDigitChars 10 digits 0 < 2 ^ 64 then
    some (Nat.ofDigitChars 10 digits 0)
  else none

/-- The characters of an id: hexadecimal digits in lower case and hyphens. -/
def IsIdSymbol (c : Char) : Prop := ('0' ≤ c ∧ c ≤ '9') ∨ ('a' ≤ c ∧ c ≤ 'f') ∨ c = '-'

instance IsIdSymbol.decidable (c : Char) : Decidable (IsIdSymbol c) :=
  inferInstanceAs (Decidable (('0' ≤ c ∧ c ≤ '9') ∨ ('a' ≤ c ∧ c ≤ 'f') ∨ c = '-'))

/-- A key and its value. -/
abbrev Field : Type := List Char × List Char

/-- A field as a line, with its end. -/
def fieldLine (field : Field) : List Char := field.1 ++ '=' :: (field.2 ++ ['\n'])

/-- Take in one line; no key comes twice. -/
def addField (fields : List Field) (line : List Char) : Option (List Field) := do
  let (key, value) ← splitOnce '=' line
  if (fields.lookup key).isSome then none else some (fields ++ [(key, value)])

/-! ### Writing and reading -/

namespace Sidecar

/-- Is it a transfer whose bitmap fits its chunk count? -/
def isConsistent (sc : Sidecar) : Bool :=
  let total := totalChunks sc.size.toNat sc.chunkSize.toNat
  decide (minChunkSize ≤ sc.chunkSize.toNat ∧ sc.chunkSize.toNat ≤ maxChunkSize) &&
    decide (sc.size.toNat ≤ maxTransferSize) && decide (total ≤ maxTotalChunks) &&
      sc.bitmap.length == bitmapBytes total

section Text

variable (engine : TextCodec (List UInt8)) (ids : TextCodec (Vector UInt8 16))

/-- What is written before the bitmap. -/
def front (sc : Sidecar) : List Field :=
  [("version".toList, sidecarVersion),
    ("server".toList, engine.encode (strBytes sc.server)),
    ("remote".toList, engine.encode (strBytes sc.remote)),
    ("destination".toList, engine.encode sc.destination),
    ("id".toList, ids.encode sc.transferId),
    ("size".toList, Nat.toDigits 10 sc.size.toNat),
    ("chunk_size".toList, Nat.toDigits 10 sc.chunkSize.toNat),
    ("sha256".toList, engine.encode sc.sha256.toList)]

/-- The text of a sidecar. -/
def encode (sc : Sidecar) : List Char :=
  (sc.front engine ids ++ [("bitmap".toList, engine.encode sc.bitmap)]).flatMap fieldLine

/-- A sidecar of its fields. -/
def ofFields (fields : List Field) : Option Sidecar := do
  guard (fields.length = sidecarFields)
  guard ((← fields.lookup "version".toList) = sidecarVersion)
  let server ← engine.decode (← fields.lookup "server".toList) >>= fromUtf8
  let remote ← engine.decode (← fields.lookup "remote".toList) >>= fromUtf8
  let destination ← engine.decode (← fields.lookup "destination".toList)
  let transferId ← ids.decode (← fields.lookup "id".toList)
  let size ← parseU64 (← fields.lookup "size".toList)
  let chunkSize ← parseU32 (← fields.lookup "chunk_size".toList)
  let sha256 ← engine.decode (← fields.lookup "sha256".toList) >>= toKey
  let bitmap ← engine.decode (← fields.lookup "bitmap".toList)
  let sc : Sidecar :=
    ⟨server, remote, destination, transferId, .ofNat size, .ofNat chunkSize, sha256, bitmap⟩
  if sc.isConsistent then some sc else none

/-- Parse a sidecar, strictly. -/
def decode (text : List Char) : Option Sidecar := do
  let fields ← (lines text).foldlM addField []
  ofFields engine ids fields

/-- The bytes of the file a sidecar is written to. -/
def written (sc : Sidecar) : List UInt8 := strBytes (String.ofList (sc.encode engine ids))

/-- Read a sidecar from the bytes of its file, up to a bound. -/
def read (file : List UInt8) : Option Sidecar := do
  let text ← fromUtf8 (file.take maxSidecarBytes)
  decode engine ids text.toList

end Text

end Sidecar

/-! ### Reading back a field -/

variable {engine : TextCodec (List UInt8)} {ids : TextCodec (Vector UInt8 16)} {n : ℕ}
  {bytes : List UInt8} {c : Char} {line rest : List Char} {fields : List Field} {field : Field}
  {sc : Sidecar}

theorem parseU64_digits (hn : n < 2 ^ 64) : parseU64 (Nat.toDigits 10 n) = some n := by
  have hplus : (Nat.toDigits 10 n).head? ≠ some '+' := fun h =>
    separator_digits (by decide) (List.mem_of_head? h)
  have hdigits : (Nat.toDigits 10 n).all Char.isDigit = true :=
    List.all_eq_true.mpr fun c hc => Nat.isDigit_of_mem_toDigits (by decide) (by decide) hc
  simp only [parseU64, if_neg hplus, Nat.ofDigitChars_ten_toDigits]
  exact if_pos ⟨Nat.toDigits_ne_nil, hdigits, hn⟩

/-! ### What is written is printable -/

/-- A text of printable ASCII characters, which is one line or a part of one. -/
def Printable (text : List Char) : Prop := ∀ c ∈ text, 32 ≤ c.toNat ∧ c.toNat < 128

theorem Printable.not_mem {text : List Char} (h : Printable text) (hc : c.toNat < 32) : c ∉ text :=
  fun hmem => absurd (h c hmem).1 (Nat.not_le.mpr hc)

theorem Printable.append {text text' : List Char} (h : Printable text) (h' : Printable text') :
    Printable (text ++ text') := fun c hmem =>
  (List.mem_append.mp hmem).elim (h c) (h' c)

theorem Printable.cons {text : List Char} (h : Printable text)
    (hc : 32 ≤ c.toNat ∧ c.toNat < 128) : Printable (c :: text) := fun c' hmem =>
  (List.mem_cons.mp hmem).elim (fun he => he ▸ hc) (h c')

theorem Printable.of_subset {text text' : List Char} (h : Printable text) (hsub : text' ⊆ text) :
    Printable text' := fun c hmem => h c (hsub hmem)

theorem printable_of_between {a b : Char} (h : a ≤ c ∧ c ≤ b) (ha : 32 ≤ a.toNat)
    (hb : b.toNat < 128) : 32 ≤ c.toNat ∧ c.toNat < 128 :=
  ⟨ha.trans (UInt32.le_iff_toNat_le.mp h.1), (UInt32.le_iff_toNat_le.mp h.2).trans_lt hb⟩

/-- Base64 is printable. -/
theorem printable_base64 (hstrict : Base64.Strict engine) (bytes : List UInt8) :
    Printable (engine.encode bytes) := by
  intro c hmem
  rcases hstrict.readsBack.mem_encode bytes c hmem with h | h | h | rfl | rfl | rfl
  · exact printable_of_between h (by decide) (by decide)
  · exact printable_of_between h (by decide) (by decide)
  · exact printable_of_between h (by decide) (by decide)
  · decide
  · decide
  · decide

theorem printable_digits (n : ℕ) : Printable (Nat.toDigits 10 n) := by
  intro c hmem
  have hdigit := Nat.isDigit_of_mem_toDigits (by decide) (by decide) hmem
  simp only [Char.isDigit, Bool.and_eq_true, decide_eq_true_eq] at hdigit
  exact printable_of_between (a := '0') (b := '9') hdigit (by decide) (by decide)

theorem printable_id (hids : ids.ReadsBack IsIdSymbol) (id : Vector UInt8 16) :
    Printable (ids.encode id) := by
  intro c hmem
  rcases hids.mem_encode id c hmem with h | h | rfl
  · exact printable_of_between h (by decide) (by decide)
  · exact printable_of_between h (by decide) (by decide)
  · decide

/-! ### Reading back the lines -/

/-- Fields that read back line by line. -/
structure Legible (fields : List Field) : Prop where
  keys : (fields.map Prod.fst).Nodup
  key : ∀ field ∈ fields, '=' ∉ field.1
  printable : ∀ field ∈ fields, Printable (field.1 ++ '=' :: field.2)

/-- The lines of some fields are the fields. -/
theorem lines_fields (h : ∀ field ∈ fields, Printable (field.1 ++ '=' :: field.2))
    (rest : List Char) : lines (fields.flatMap fieldLine ++ rest) =
      fields.map (fun field => field.1 ++ '=' :: field.2) ++ lines rest := by
  induction fields with
  | nil => rfl
  | cons field fields ih =>
    have hline := h field List.mem_cons_self
    have hfirst : (field :: fields).flatMap fieldLine ++ rest =
        (field.1 ++ '=' :: field.2) ++ '\n' :: (fields.flatMap fieldLine ++ rest) := by
      simp [fieldLine]
    rw [hfirst, lines_line (hline.not_mem (by decide)) (hline.not_mem (by decide)),
      ih fun field hmem => h field (List.mem_cons_of_mem _ hmem)]
    rfl

theorem splitOnce_field (h : '=' ∉ field.1) :
    splitOnce '=' (field.1 ++ '=' :: field.2) = some field := by
  have hall : ∀ c ∈ field.1, decide (c ≠ '=') = true := fun c hc =>
    decide_eq_true fun he => h (he ▸ hc)
  rw [splitOnce, List.dropWhile_append_of_pos hall, List.dropWhile_cons_of_neg (by simp)]
  dsimp only
  rw [List.takeWhile_append_of_pos hall, List.takeWhile_cons_of_neg (by simp), List.append_nil]

theorem addField_new (h : '=' ∉ field.1) (hnew : field.1 ∉ fields.map Prod.fst) :
    addField fields (field.1 ++ '=' :: field.2) = some (fields ++ [field]) := by
  have hnone : (fields.lookup field.1).isSome = false := by
    rw [Option.isSome_eq_false_iff, Option.isNone_iff_eq_none, List.lookup_eq_none_iff]
    intro other hmem
    exact bne_iff_ne.mpr fun he => hnew (List.mem_map.mpr ⟨other, hmem, he.symm⟩)
  simp [addField, splitOnce_field h, hnone]

/-- **The fields read back from their lines.** -/
theorem foldlM_fields {before : List Field} (h : Legible (before ++ fields)) :
    (fields.map fun field => field.1 ++ '=' :: field.2).foldlM addField before =
      some (before ++ fields) := by
  induction fields generalizing before with
  | nil => simp
  | cons field fields ih =>
    have hnew : field.1 ∉ before.map Prod.fst := by
      have hkeys := h.keys
      rw [List.map_append, List.map_cons, List.nodup_append] at hkeys
      exact fun hmem => hkeys.2.2 _ hmem _ List.mem_cons_self rfl
    have hkey := h.key field (List.mem_append_right _ List.mem_cons_self)
    rw [List.map_cons, List.foldlM_cons, addField_new hkey hnew, Option.bind_eq_bind,
      Option.bind_some, ih (by rwa [List.append_assoc]), List.append_assoc]
    rfl

/-- Every line that is taken in is one field more. -/
theorem length_foldlM {texts : List (List Char)} {before after : List Field}
    (h : texts.foldlM addField before = some after) :
    after.length = before.length + texts.length := by
  induction texts generalizing before with
  | nil =>
    obtain rfl := Option.some.inj h
    rfl
  | cons line texts ih =>
    rw [List.foldlM_cons, Option.bind_eq_bind, Option.bind_eq_some_iff] at h
    obtain ⟨mid, hadd, h⟩ := h
    have hmid : mid.length = before.length + 1 := by
      rw [addField, Option.bind_eq_bind, Option.bind_eq_some_iff] at hadd
      obtain ⟨⟨key, value⟩, -, hadd⟩ := hadd
      dsimp only at hadd
      split_ifs at hadd
      rw [← Option.some.inj hadd, List.length_append, List.length_singleton]
    rw [ih h, hmid, List.length_cons]
    omega

namespace Sidecar

/-! ### A sidecar and its parts -/

/-- The line of the bitmap, of which a part may have been cut off. -/
def lastLine (value : List Char) : List Char := "bitmap".toList ++ '=' :: value

/-- The fields of a sidecar read back line by line. -/
theorem legible_front (hstrict : Base64.Strict engine) (hids : ids.ReadsBack IsIdSymbol)
    (sc : Sidecar) {value : List Char} (h : Printable value) :
    Legible (sc.front engine ids ++ [("bitmap".toList, value)]) := by
  have hkeys : (sc.front engine ids ++ [("bitmap".toList, value)]).map Prod.fst = ["version".toList,
    "server".toList, "remote".toList, "destination".toList, "id".toList, "size".toList,
    "chunk_size".toList, "sha256".toList, "bitmap".toList] := rfl
  have hkey {field : Field} (hmem : field ∈ sc.front engine ids ++ [("bitmap".toList, value)]) :=
    hkeys ▸ List.mem_map_of_mem (f := Prod.fst) hmem
  constructor
  case keys =>
    rw [hkeys]
    decide
  case key =>
    intro field hmem
    have hall : ["version".toList, "server".toList, "remote".toList, "destination".toList,
      "id".toList, "size".toList, "chunk_size".toList, "sha256".toList, "bitmap".toList].all
        (fun key => decide ('=' ∉ key)) = true := by decide
    exact of_decide_eq_true (List.all_eq_true.mp hall _ (hkey hmem))
  case printable =>
    intro field hmem
    have hall : ["version".toList, "server".toList, "remote".toList, "destination".toList,
      "id".toList, "size".toList, "chunk_size".toList, "sha256".toList, "bitmap".toList].all
        (fun key => key.all fun c => decide (32 ≤ c.toNat ∧ c.toNat < 128)) = true := by decide
    have hname : Printable field.1 := fun c hc =>
      of_decide_eq_true (List.all_eq_true.mp (List.all_eq_true.mp hall _ (hkey hmem)) c hc)
    refine hname.append (Printable.cons ?_ (by decide))
    simp only [front, List.cons_append, List.nil_append, List.mem_cons, List.not_mem_nil,
      or_false] at hmem
    rcases hmem with rfl | rfl | rfl | rfl | rfl | rfl | rfl | rfl | rfl
    · have hversion : sidecarVersion.all
          (fun c => decide (32 ≤ c.toNat ∧ c.toNat < 128)) = true := by decide
      exact fun c hc => of_decide_eq_true (List.all_eq_true.mp hversion c hc)
    · exact printable_base64 hstrict _
    · exact printable_base64 hstrict _
    · exact printable_base64 hstrict _
    · exact printable_id hids _
    · exact printable_digits _
    · exact printable_digits _
    · exact printable_base64 hstrict _
    · exact h

/-- All fields but the bitmap read back. -/
theorem ofFields_front (hstrict : Base64.Strict engine) (hids : ids.ReadsBack IsIdSymbol)
    (sc : Sidecar) (value : List Char) :
    ofFields engine ids (sc.front engine ids ++ [("bitmap".toList, value)]) =
      (engine.decode value).bind fun bitmap =>
      if { sc with bitmap }.isConsistent then some { sc with bitmap } else none := by
  have htext (s : String) : fromUtf8 (strBytes s) = some s := fromUtf8_eq_some.mpr rfl
  have hversion : (sc.front engine ids ++ [("bitmap".toList, value)]).lookup "version".toList =
    some sidecarVersion := rfl
  have hserver : (sc.front engine ids ++ [("bitmap".toList, value)]).lookup "server".toList =
    some (engine.encode (strBytes sc.server)) := rfl
  have hremote : (sc.front engine ids ++ [("bitmap".toList, value)]).lookup "remote".toList =
    some (engine.encode (strBytes sc.remote)) := rfl
  have hdestination :
    (sc.front engine ids ++ [("bitmap".toList, value)]).lookup "destination".toList =
      some (engine.encode sc.destination) := rfl
  have hid : (sc.front engine ids ++ [("bitmap".toList, value)]).lookup "id".toList =
    some (ids.encode sc.transferId) := rfl
  have hsize : (sc.front engine ids ++ [("bitmap".toList, value)]).lookup "size".toList =
    some (Nat.toDigits 10 sc.size.toNat) := rfl
  have hchunk : (sc.front engine ids ++ [("bitmap".toList, value)]).lookup "chunk_size".toList =
    some (Nat.toDigits 10 sc.chunkSize.toNat) := rfl
  have hsha : (sc.front engine ids ++ [("bitmap".toList, value)]).lookup "sha256".toList =
    some (engine.encode sc.sha256.toList) := rfl
  have hbitmap : (sc.front engine ids ++ [("bitmap".toList, value)]).lookup "bitmap".toList =
    some value := rfl
  have hlength : (sc.front engine ids ++ [("bitmap".toList, value)]).length = sidecarFields := rfl
  simp only [ofFields, hlength, hversion, hserver, hremote, hdestination, hid, hsize, hchunk, hsha,
    hbitmap, Base64.guard_eq, hstrict.decode_encode, htext, hids.decode_encode,
    parseU64_digits sc.size.toNat_lt, parseU32_digits sc.chunkSize.toNat_lt, toKey_toList,
    Option.bind_eq_bind, Option.bind_some, UInt64.ofNat_toNat, UInt32.ofNat_toNat]

theorem encode_eq (sc : Sidecar) : sc.encode engine ids =
    (sc.front engine ids).flatMap fieldLine ++ (lastLine (engine.encode sc.bitmap) ++ ['\n']) := by
  simp [encode, lastLine, fieldLine, List.flatMap_append]

theorem lines_front (hstrict : Base64.Strict engine) (hids : ids.ReadsBack IsIdSymbol)
    (sc : Sidecar) (rest : List Char) :
    lines ((sc.front engine ids).flatMap fieldLine ++ rest) =
      (sc.front engine ids).map (fun field => field.1 ++ '=' :: field.2) ++ lines rest :=
  lines_fields (fun field hmem =>
    (legible_front hstrict hids sc (printable_base64 hstrict [])).printable field
      (List.mem_append_left _ hmem)) rest

theorem printable_lastLine {value : List Char} (h : Printable value) :
    Printable (lastLine value) := by
  have hkey : ("bitmap".toList).all (fun c => decide (32 ≤ c.toNat ∧ c.toNat < 128)) = true := by
    decide
  have hname : Printable "bitmap".toList := fun c hc =>
    of_decide_eq_true (List.all_eq_true.mp hkey c hc)
  exact hname.append (h.cons (by decide))

/-- With eight lines and a part of the ninth, the part decides. -/
theorem foldlM_front (hstrict : Base64.Strict engine) (hids : ids.ReadsBack IsIdSymbol)
    (sc : Sidecar) {last : List Char} (hlast : Printable last) (hne : last ≠ [])
    {tail : List Char} (htail : tail = [] ∨ tail = ['\n']) :
    (lines ((sc.front engine ids).flatMap fieldLine ++ (last ++ tail))).foldlM addField [] =
      addField (sc.front engine ids) last := by
  have hlegible : Legible ([] ++ sc.front engine ids) := by
    obtain ⟨hkeys, hkey, hprintable⟩ := legible_front hstrict hids sc (printable_base64 hstrict [])
    rw [List.map_append] at hkeys
    exact ⟨hkeys.of_append_left, fun field hmem => hkey field (List.mem_append_left _ hmem),
      fun field hmem => hprintable field (List.mem_append_left _ hmem)⟩
  have hone : lines (last ++ tail) = [last] := by
    rcases htail with rfl | rfl
    · rw [List.append_nil, lines_last (hlast.not_mem (by decide)) hne]
    · rw [lines_line (hlast.not_mem (by decide)) (hlast.not_mem (by decide))]
      rfl
  rw [lines_front hstrict hids, hone, List.foldlM_append, foldlM_fields hlegible]
  simp

/-- With a whole line for the bitmap, the sidecar reads back up to it. -/
theorem decode_lastLine (hstrict : Base64.Strict engine) (hids : ids.ReadsBack IsIdSymbol)
    (sc : Sidecar) {value : List Char} (h : Printable value) {tail : List Char}
    (htail : tail = [] ∨ tail = ['\n']) :
    decode engine ids ((sc.front engine ids).flatMap fieldLine ++ (lastLine value ++ tail)) =
      (engine.decode value).bind fun bitmap =>
        if { sc with bitmap }.isConsistent then some { sc with bitmap } else none := by
  have hnew : "bitmap".toList ∉ (sc.front engine ids).map Prod.fst := by
    have hkeys : (sc.front engine ids).map Prod.fst = ["version".toList, "server".toList,
      "remote".toList, "destination".toList, "id".toList, "size".toList, "chunk_size".toList,
      "sha256".toList] := rfl
    rw [hkeys]
    decide
  have hkey : '=' ∉ "bitmap".toList := by decide
  have hadd : addField (sc.front engine ids) (lastLine value) =
      some (sc.front engine ids ++ [("bitmap".toList, value)]) :=
    @addField_new (sc.front engine ids) ("bitmap".toList, value) hkey hnew
  rw [decode, foldlM_front hstrict hids sc (printable_lastLine h) (by simp [lastLine]) htail, hadd,
    Option.bind_eq_bind, Option.bind_some, ofFields_front hstrict hids]

theorem decode_encode (hstrict : Base64.Strict engine) (hids : ids.ReadsBack IsIdSymbol)
    (sc : Sidecar) : decode engine ids (sc.encode engine ids) =
      if sc.isConsistent then some sc else none := by
  rw [encode_eq, decode_lastLine hstrict hids sc (printable_base64 hstrict _) (.inr rfl),
    hstrict.decode_encode, Option.bind_some]

/-- With fewer lines than there are fields nothing reads back. -/
theorem decode_few {text : List Char} (h : (lines text).length < sidecarFields) :
    decode engine ids text = none := by
  rw [decode]
  cases hfold : (lines text).foldlM addField [] with
  | none => rfl
  | some fields =>
    have hlength : fields.length = 0 + (lines text).length := length_foldlM hfold
    have hne : fields.length ≠ sidecarFields := by omega
    rw [Option.bind_eq_bind, Option.bind_some, ofFields, guard, if_neg hne]
    rfl

theorem length_of_isConsistent (h : sc.isConsistent = true) :
    sc.bitmap.length = bitmapBytes (totalChunks sc.size.toNat sc.chunkSize.toNat) := by
  rw [isConsistent, Bool.and_eq_true] at h
  exact beq_iff_eq.mp h.2

/-- What is read is consistent. -/
theorem isConsistent_of_decode {text : List Char} (h : decode engine ids text = some sc) :
    sc.isConsistent = true := by
  obtain ⟨fields, -, h⟩ := Option.bind_eq_some_iff.mp h
  rw [ofFields] at h
  -- all that is read before the sidecar is looked at
  iterate 19 obtain ⟨_, -, h⟩ := Option.bind_eq_some_iff.mp h
  dsimp only at h
  split_ifs at h with hconsistent
  exact Option.some.inj h ▸ hconsistent

/-- **Of a part of what is written nothing else reads back.** -/
theorem decode_part (hstrict : Base64.Strict engine) (hids : ids.ReadsBack IsIdSymbol)
    (hsc : sc.isConsistent = true) {part : List Char} (h : part <+: sc.encode engine ids) :
    decode engine ids part = none ∨ decode engine ids part = some sc := by
  rw [encode_eq] at h
  -- cut before the last line there are too few fields, cut in it the other eight are read
  rcases List.prefix_or_prefix_of_prefix h (List.prefix_append _ _) with hfew | ⟨last, rfl⟩
  · left
    refine decode_few ((length_lines_of_part hfew).trans_lt ?_)
    rw [← List.append_nil ((sc.front engine ids).flatMap fieldLine), lines_front hstrict hids,
      List.length_append, List.length_map]
    exact (by decide : 8 + 0 < sidecarFields)
  · have hlast := (List.prefix_append_right_inj _).mp h
    have hwhole : Printable (lastLine (engine.encode sc.bitmap)) :=
      printable_lastLine (printable_base64 hstrict _)
    rcases List.prefix_concat_iff.mp hlast with rfl | hlast
    · rw [← encode_eq, decode_encode hstrict hids, if_pos hsc]
      exact .inr rfl
    have hbefore : "bitmap".toList ++ ['='] <+: lastLine (engine.encode sc.bitmap) :=
      ⟨_, List.append_assoc _ _ _⟩
    -- the cut is in the key of the last line or after its `=`
    have hcut : last <+: "bitmap".toList ∨ "bitmap".toList ++ ['='] <+: last := by
      rcases List.prefix_or_prefix_of_prefix hlast hbefore with hkey | hkey
      · rcases List.prefix_concat_iff.mp hkey with rfl | hkey
        · exact .inr (List.prefix_refl _)
        · exact .inl hkey
      · exact .inr hkey
    rcases hcut with hkey | ⟨value, rfl⟩
    · -- the last line has no value
      left
      have hsilent : '=' ∉ last := fun hmem =>
        absurd (hkey.subset hmem) (by decide)
      have hprintable : Printable last := hwhole.of_subset hlast.subset
      by_cases hnil : last = []
      · subst hnil
        refine decode_few ?_
        rw [lines_front hstrict hids, List.length_append, List.length_map]
        exact (by decide : 8 + 0 < sidecarFields)
      · have hsplit : splitOnce '=' last = none := by
          rw [splitOnce, List.dropWhile_eq_nil_iff.mpr]
          exact fun c hc => decide_eq_true fun he => hsilent (he ▸ hc)
        have hfold := foldlM_front hstrict hids sc hprintable hnil (.inl rfl)
        rw [List.append_nil, addField, hsplit] at hfold
        rw [decode, hfold]
        rfl
    · -- the last line has a part of its value
      have hvalue : value <+: engine.encode sc.bitmap := by
        have hline : lastLine (engine.encode sc.bitmap) =
            "bitmap".toList ++ ['='] ++ engine.encode sc.bitmap := by
          rw [List.append_assoc]
          rfl
        rw [hline] at hlast
        exact (List.prefix_append_right_inj _).mp hlast
      have hprintable : Printable value := (printable_base64 hstrict _).of_subset hvalue.subset
      have hread := decode_lastLine hstrict hids sc hprintable (.inl rfl)
      rw [List.append_nil, lastLine] at hread
      rw [List.append_assoc "bitmap".toList, List.singleton_append, hread]
      cases hbytes : engine.decode value with
      | none => exact .inl rfl
      | some bitmap =>
        by_cases hall : value = engine.encode sc.bitmap
        · obtain rfl : bitmap = sc.bitmap := by
            rw [hall, hstrict.decode_encode] at hbytes
            exact (Option.some.inj hbytes).symm
          exact .inr (if_pos hsc)
        · have hshort := hstrict.length_lt_of_part hvalue hall hbytes
          -- a part that is base64 is a shorter bitmap, and the chunks need one of the full length
          refine .inl (if_neg fun hconsistent => ?_)
          have hlength := length_of_isConsistent hconsistent
          rw [← length_of_isConsistent hsc] at hlength
          exact absurd hlength hshort.ne

/-! ### A file that was written -/

/-- Printable characters are a byte each. -/
theorem strBytes_printable {text : List Char} (h : ∀ c ∈ text, c.toNat < 128) :
    strBytes (String.ofList text) = text.map fun c => UInt8.ofNat c.toNat := by
  rw [strBytes, String.toByteArray_ofList, List.utf8Encode, List.toList_data_toByteArray]
  induction text with
  | nil => rfl
  | cons c text ih =>
    have hc := h c List.mem_cons_self
    have hone : String.utf8EncodeChar c = [UInt8.ofNat c.toNat] := by
      simp [String.utf8EncodeChar, Nat.le_of_lt_succ hc]
    rw [List.flatMap_cons, hone, ih fun c hmem => h c (List.mem_cons_of_mem _ hmem)]
    rfl

/-- The text of a sidecar is ASCII. -/
theorem ascii_encode (hstrict : Base64.Strict engine) (hids : ids.ReadsBack IsIdSymbol)
    (sc : Sidecar) : ∀ c ∈ sc.encode engine ids, c.toNat < 128 := by
  intro c hmem
  obtain ⟨field, hfield, hc⟩ := List.mem_flatMap.mp hmem
  have hline : fieldLine field = (field.1 ++ '=' :: field.2) ++ ['\n'] := by
    simp [fieldLine]
  rw [hline, List.mem_append, List.mem_singleton] at hc
  rcases hc with hc | rfl
  · have hlegible := legible_front hstrict hids sc (printable_base64 hstrict sc.bitmap)
    exact (hlegible.printable field hfield c hc).2
  · decide

/-- **The resume sidecar is read whole or not at all.** It reads back exactly when it is
consistent; of a part of it nothing else reads back, however the file was cut and however much of
it is read; and whatever is read from whatever text is consistent. -/
theorem sidecar_roundtrip (engine : TextCodec (List UInt8)) (ids : TextCodec (Vector UInt8 16))
    (hstrict : Base64.Strict engine) (hids : ids.ReadsBack IsIdSymbol) :
    (∀ sc : Sidecar, decode engine ids (sc.encode engine ids) =
        if sc.isConsistent then some sc else none) ∧
      (∀ sc : Sidecar, sc.isConsistent = true → ∀ part, part <+: sc.encode engine ids →
        decode engine ids part = none ∨ decode engine ids part = some sc) ∧
      (∀ sc : Sidecar, sc.isConsistent = true → ∀ cut,
        read engine ids ((sc.written engine ids).take cut) = none ∨
          read engine ids ((sc.written engine ids).take cut) = some sc) ∧
      ∀ text sc, decode engine ids text = some sc → sc.isConsistent = true := by
  refine ⟨decode_encode hstrict hids, fun sc hsc part => decode_part hstrict hids hsc,
    fun sc hsc cut => ?_, fun text sc => isConsistent_of_decode⟩
  have hwhole := ascii_encode hstrict hids sc
  -- what is read of the file is a part of the text
  have hpart (n : ℕ) : fromUtf8 ((sc.written engine ids).take n) =
      some (String.ofList ((sc.encode engine ids).take n)) := by
    have hascii : ∀ c ∈ (sc.encode engine ids).take n, c.toNat < 128 := fun c hmem =>
      hwhole c (List.mem_of_mem_take hmem)
    rw [fromUtf8_eq_some, written, strBytes_printable hwhole, strBytes_printable hascii,
      List.map_take]
  rw [read, List.take_take, hpart, Option.bind_eq_bind, Option.bind_some, String.toList_ofList]
  exact decode_part hstrict hids hsc (List.take_prefix _ _)

end Sidecar

/-! ### The text of an id -/

/-- An id with hyphens, in lower case. -/
def uuidChars (id : Vector UInt8 16) : List Char :=
  let hex := (toHex id.toList).toList
  hex.take 8 ++ '-' :: ((hex.drop 8).take 4 ++ '-' :: ((hex.drop 12).take 4 ++
    '-' :: ((hex.drop 16).take 4 ++ '-' :: hex.drop 20)))

/-- An id without hyphens. -/
def parseSimple (cs : List Char) : Option (Vector UInt8 16) := do
  let bytes ← fromHex cs
  if h : bytes.toArray.size = 16 then some ⟨bytes.toArray, h⟩ else none

/-- An id with hyphens where they belong. -/
def parseHyphenated (cs : List Char) : Option (Vector UInt8 16) :=
  match cs.splitOn '-' with
  | [a, b, c, d, e] =>
    if a.length = 8 ∧ b.length = 4 ∧ c.length = 4 ∧ d.length = 4 ∧ e.length = 12 then
      parseSimple (a ++ (b ++ (c ++ (d ++ e))))
    else none
  | _ => none

/-- An id in any of its spellings. -/
def parseUuid (cs : List Char) : Option (Vector UInt8 16) :=
  if cs.length = 32 then parseSimple cs
  else if cs.length = 36 then parseHyphenated cs
  else if cs.length = 38 ∧ cs.head? = some '{' ∧ cs.getLast? = some '}' then
    parseHyphenated cs.tail.dropLast
  else if cs.length = 45 ∧ cs.take 9 = "urn:uuid:".toList then parseHyphenated (cs.drop 9)
  else none

theorem isIdSymbol_hexDigit : ∀ n < 16, IsIdSymbol (hexDigit n) ∧ hexDigit n ≠ '-' := by
  decide

theorem isIdSymbol_of_mem_toHex (h : c ∈ (toHex bytes).toList) : IsIdSymbol c ∧ c ≠ '-' := by
  rw [toHex, String.toList_ofList, List.mem_flatMap] at h
  obtain ⟨b, -, hb⟩ := h
  obtain ⟨hhi, hlo⟩ := hexDigit_bounds b
  rcases List.mem_pair.mp hb with rfl | rfl
  · exact isIdSymbol_hexDigit _ hhi
  · exact isIdSymbol_hexDigit _ hlo

theorem length_toHex (bytes : List UInt8) : (toHex bytes).toList.length = bytes.length * 2 := by
  rw [toHex, String.toList_ofList, List.length_flatMap]
  simp

theorem parseSimple_toHex (id : Vector UInt8 16) :
    parseSimple (toHex id.toList).toList = some id := by
  obtain ⟨bytes, hbytes⟩ := id
  simp [parseSimple, fromHex_toHex, hbytes]

/-- **An id reads back from its text.** -/
theorem parseUuid_uuidChars (id : Vector UInt8 16) : parseUuid (uuidChars id) = some id := by
  have hlength : (toHex id.toList).toList.length = 32 := by
    rw [length_toHex, Vector.length_toList]
  have hhyphen : '-' ∉ (toHex id.toList).toList := fun hmem =>
    (isIdSymbol_of_mem_toHex hmem).2 rfl
  have hpart (k m : ℕ) : '-' ∉ ((toHex id.toList).toList.drop k).take m := fun hmem =>
    hhyphen (List.mem_of_mem_drop (List.mem_of_mem_take hmem))
  have hfirst : '-' ∉ (toHex id.toList).toList.take 8 := hpart 0 8
  generalize hhex : (toHex id.toList).toList = hex at *
  -- the five parts of the text
  have hsplit : (uuidChars id).splitOn '-' = [hex.take 8, (hex.drop 8).take 4,
      (hex.drop 12).take 4, (hex.drop 16).take 4, hex.drop 20] := by
    rw [uuidChars, hhex, List.splitOn_append_cons_self_of_not_mem hfirst,
      List.splitOn_append_cons_self_of_not_mem (hpart 8 4),
      List.splitOn_append_cons_self_of_not_mem (hpart 12 4),
      List.splitOn_append_cons_self_of_not_mem (hpart 16 4), List.splitOn_eq_singleton]
    exact fun hmem => hhyphen (List.mem_of_mem_drop hmem)
  have hjoin : hex.take 8 ++ ((hex.drop 8).take 4 ++ ((hex.drop 12).take 4 ++
      ((hex.drop 16).take 4 ++ hex.drop 20))) = hex := by
    have hnext (k m : ℕ) : (hex.drop k).take m ++ hex.drop (k + m) = hex.drop k := by
      rw [← List.drop_drop, List.take_append_drop]
    rw [hnext 16 4, hnext 12 4, hnext 8 4, List.take_append_drop]
  have htext : (uuidChars id).length = 36 := by
    simp [uuidChars, hhex, hlength]
  rw [parseUuid, htext, if_neg (by decide), if_pos rfl, parseHyphenated, hsplit]
  dsimp only
  rw [if_pos (by simp [hlength]), hjoin, ← hhex, parseSimple_toHex]

/-- The ids with hyphens, in lower case, as they are written. -/
def hyphenatedIds : TextCodec (Vector UInt8 16) := ⟨uuidChars, parseUuid⟩

/-- The text of an id is hexadecimal with hyphens. -/
theorem isIdSymbol_of_mem_uuidChars (id : Vector UInt8 16) :
    ∀ c ∈ uuidChars id, IsIdSymbol c := by
  have hpart (k m : ℕ) : ∀ c ∈ ((toHex id.toList).toList.drop k).take m, IsIdSymbol c :=
    fun c hmem => (isIdSymbol_of_mem_toHex (List.mem_of_mem_drop (List.mem_of_mem_take hmem))).1
  have hlast : ∀ c ∈ (toHex id.toList).toList.drop 20, IsIdSymbol c :=
    fun c hmem => (isIdSymbol_of_mem_toHex (List.mem_of_mem_drop hmem)).1
  have hhyphen : IsIdSymbol '-' := by decide
  rw [uuidChars]
  simp only [List.forall_mem_append, List.forall_mem_cons]
  exact ⟨hpart 0 8, hhyphen, hpart 8 4, hhyphen, hpart 12 4, hhyphen, hpart 16 4, hhyphen, hlast⟩

theorem readsBack_hyphenatedIds : hyphenatedIds.ReadsBack IsIdSymbol :=
  ⟨parseUuid_uuidChars, isIdSymbol_of_mem_uuidChars⟩

namespace Sidecar

/-- The sidecar of a file of one chunk reads back, and of the file cut after 250 bytes nothing
else does. -/
theorem sidecar_roundtrip_cut :
    let sc : Sidecar := ⟨"kdx.example", "news/größe", [0x2F, 0xFF], .replicate 16 0xAB, 5, 65536,
      .replicate 32 7, [1]⟩
    decode Base64.standard hyphenatedIds (sc.encode Base64.standard hyphenatedIds) = some sc ∧
      (read Base64.standard hyphenatedIds ((sc.written Base64.standard hyphenatedIds).take 250) =
          none ∨
        read Base64.standard hyphenatedIds ((sc.written Base64.standard hyphenatedIds).take 250) =
          some sc) := by
  intro sc
  have hsc : sc.isConsistent = true := by decide
  have h := sidecar_roundtrip Base64.standard hyphenatedIds Base64.strict_standard
    readsBack_hyphenatedIds
  exact ⟨(h.1 sc).trans (if_pos hsc), h.2.2.1 sc hsc 250⟩

end Sidecar

end Client

end KdxHotline
