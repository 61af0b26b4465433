import Mathlib.Data.List.DropRight
import KdxHotline.Files.FreeName

/-!
# Local names for the server's files

The client reduces a name it got from the server to a name for the local file system:
it keeps the last component, drops and replaces characters, trims both ends, marks a
device name with an underscore and cuts what is too long
(`KdxHotline.Client.safeLocalFileName`).

The mark is set before the cut. What is cut off may be all that told a long name from a
device name (`KdxHotline.Client.CutToDevice`), and this is the one way in which the result
is not harmless (`KdxHotline.Client.safeLocalFileName_harmless`).
-/

namespace KdxHotline

namespace Client

open Limits Files

/-- Longest name returned, in bytes. -/
def maxNameBytes : ℕ := 200

/-- Used when nothing usable is left of the server's name. -/
def fallbackName : List Char := "download".toList

/-- Windows device names, reserved with any extension and in any case. -/
def reserved : List String :=
  ["CON", "PRN", "AUX", "NUL", "CONIN$", "CONOUT$", "CLOCK$", "COM0", "COM1", "COM2", "COM3",
    "COM4", "COM5", "COM6", "COM7", "COM8", "COM9", "COM¹", "COM²", "COM³", "LPT0", "LPT1", "LPT2",
    "LPT3", "LPT4", "LPT5", "LPT6", "LPT7", "LPT8", "LPT9", "LPT¹", "LPT²", "LPT³"]

/-- Invisible formatting that can reorder or hide parts of a name. -/
def isInvisible (c : Char) : Bool :=
  let n := c.toNat
  n == 0x061c || n == 0x200b || n == 0x200e || n == 0x200f || decide (0x202a ≤ n ∧ n ≤ 0x202e) ||
    n == 0x2028 || n == 0x2029 || decide (0x2066 ≤ n ∧ n ≤ 0x2069) || n == 0xfeff

/-- Characters Windows forbids in a name. -/
def isForbidden (c : Char) : Bool := "<>:\"|?*".toList.contains c

/-- Both separate the components of a path. -/
def isSeparator (c : Char) : Bool := c == '/' || c == '\\'

/-- What a trailing dot or space is. -/
def isTail (c : Char) : Bool := c == '.' || c == ' '

/-- The last component of a path that is not blank. -/
def lastPart (name : List Char) : List Char :=
  ((name.splitOnP isSeparator).reverse.find? fun part => !(trim part).isEmpty).getD []

/-- The last component without what is invisible, forbidden or at its ends. -/
def cleaned (name : List Char) : List Char :=
  let kept := (lastPart name).filter fun c => !isControl c && !isInvisible c
  let replaced := kept.map fun c => if isForbidden c then '_' else c
  (replaced.dropWhile isWhitespace).rdropWhile isTail

/-- The part before the first dot, without the whitespace at its end. -/
def stemOf (name : List Char) : List Char := (name.takeWhile (· ≠ '.')).rdropWhile isWhitespace

/-- Whether a stem is a device name in any case. -/
def isReserved (stem : List Char) : Bool :=
  reserved.any fun r => r.toList.map Char.toLower == stem.map Char.toLower

/-- A short extension, with its dot. -/
def shortExtension (name : List Char) : List Char :=
  let back := name.reverse.takeWhile (· ≠ '.')
  let stem := (name.reverse.dropWhile (· ≠ '.')).drop 1
  if stem ≠ [] ∧ byteLen ('.' :: back.reverse) ≤ 16 then '.' :: back.reverse else []

/-- Truncate on a character boundary, preserving a short extension. -/
def capLength (name : List Char) : List Char :=
  if byteLen name ≤ maxNameBytes then name
  else
    let ext := shortExtension name
    let out := (takeBytes (maxNameBytes - byteLen ext) name).rdropWhile isTail
    (if out.isEmpty then fallbackName else out) ++ ext

/-- Reduce a server-supplied name to a single local file name. -/
def safeLocalFileName (name : String) : String :=
  let out := cleaned name.toList
  if out.isEmpty || out.all (· == '.') then String.ofList fallbackName
  else String.ofList (capLength (if isReserved (stemOf out) then '_' :: out else out))

/-- As much of a name as fits in front of its extension. -/
def keptOf (name : List Char) : List Char :=
  takeBytes (maxNameBytes - byteLen (shortExtension name)) name

/-- A name that is over the cap and no device name, and of which nothing fits in front of
its extension but a device name and whitespace. -/
def CutToDevice (name : List Char) : Prop :=
  maxNameBytes < byteLen name ∧ isReserved (stemOf name) = false ∧
    isReserved ((keptOf name).rdropWhile isWhitespace) = true

/-- A character a local name may have. -/
def Plain (c : Char) : Prop :=
  isSeparator c = false ∧ isControl c = false ∧ isInvisible c = false ∧ isForbidden c = false

instance decidablePlain (c : Char) : Decidable (Plain c) := inferInstanceAs (Decidable (_ ∧ _))

/-- What every name has until it is cut: its characters and its ends. -/
structure Tidy (name : List Char) : Prop where
  nonempty : name ≠ []
  chars : ∀ c ∈ name, Plain c
  front : ∀ c ∈ name.head?, isWhitespace c = false
  back : ∀ c ∈ name.getLast?, isTail c = false

/-- A name that is safe to give to a local file. -/
structure Harmless (name : List Char) : Prop extends Tidy name where
  short : byteLen name ≤ maxNameBytes
  notDots : name ≠ ['.'] ∧ name ≠ ['.', '.']
  notDevice : isReserved (stemOf name) = false

/-- The name that stands in for an empty one. -/
theorem tidy_fallback : Tidy fallbackName where
  nonempty := by decide
  chars := by
    have hall : fallbackName.all (fun c => decide (Plain c)) = true := by decide
    exact fun c hc => of_decide_eq_true (List.all_eq_true.mp hall c hc)
  front := by
    have hhead : fallbackName.head? = some 'd' := by decide
    intro c hc
    rw [hhead] at hc
    obtain rfl := Option.some.inj hc
    decide
  back := by
    have hlast : fallbackName.getLast? = some 'd' := by decide
    intro c hc
    rw [hlast] at hc
    obtain rfl := Option.some.inj hc
    decide

/-! ### Ends of a list -/

section Ends

variable {α : Type} {p q : α → Bool} {a : α} {l t : List α}

theorem rdropWhile_cons_neg (ha : p a = false) : (a :: l).rdropWhile p = a :: l.rdropWhile p := by
  rw [List.rdropWhile, List.rdropWhile, List.reverse_cons, List.dropWhile_append]
  split
  case isTrue hnone => simp [List.isEmpty_iff.mp hnone, ha]
  case isFalse => simp

theorem rdropWhile_append_of_forall (h : ∀ c ∈ t, p c = true) :
    (l ++ t).rdropWhile p = l.rdropWhile p := by
  induction t using List.reverseRecOn with
  | nil => rw [List.append_nil]
  | append_singleton t c ih =>
    rw [← List.append_assoc, List.rdropWhile_concat_pos p (l ++ t) c (h c (by simp))]
    exact ih fun d hd => h d (List.mem_append_left _ hd)

/-- What is taken ends within the first part. -/
theorem takeWhile_append_of_mem (ha : a ∈ l) (hp : p a = false) :
    (l ++ t).takeWhile p = l.takeWhile p := by
  induction l with
  | nil => cases ha
  | cons b l ih =>
    rw [List.cons_append, List.takeWhile_cons, List.takeWhile_cons]
    rcases List.mem_cons.mp ha with rfl | ha
    · rw [hp]
      rfl
    · rw [ih ha]

/-- What dropping from the end leaves does not end in what is dropped. -/
theorem getLast?_rdropWhile {c : α} (h : c ∈ (l.rdropWhile p).getLast?) : p c = false := by
  cases hl : l.rdropWhile p with
  | nil => rw [hl] at h; cases h
  | cons b k =>
    have hne : l.rdropWhile p ≠ [] := by rw [hl]; exact List.cons_ne_nil b k
    rw [List.getLast?_eq_some_getLast hne] at h
    obtain rfl := Option.some.inj h
    exact Bool.eq_false_iff.mpr (List.rdropWhile_last_not p l hne)

end Ends

/-! ### Device names -/

section Device

variable {name stem : List Char} {c : Char}

/-- A device name has no dot and no underscore in it. -/
theorem IsReserved.not_mem (h : isReserved stem = true) : '.' ∉ stem ∧ '_' ∉ stem ∧ stem ≠ [] := by
  obtain ⟨r, hr, hsame⟩ := List.any_eq_true.mp h
  have hsame : r.toList.map Char.toLower = stem.map Char.toLower := eq_of_beq hsame
  have hnone : ∀ r ∈ reserved, '.' ∉ r.toList.map Char.toLower ∧ '_' ∉ r.toList.map Char.toLower ∧
      r.toList.map Char.toLower ≠ [] := by decide
  obtain ⟨hdot, hmark, hne⟩ := hnone r hr
  rw [hsame] at hdot hmark hne
  refine ⟨fun hmem => hdot ?_, fun hmem => hmark ?_, fun he => hne (by rw [he]; rfl)⟩
  · exact List.mem_map.mpr ⟨'.', hmem, rfl⟩
  · exact List.mem_map.mpr ⟨'_', hmem, rfl⟩

/-- A name that is marked is no device name, however much of its end is missing. -/
theorem not_isReserved_marked (rest : List Char) : isReserved (stemOf ('_' :: rest)) = false := by
  have hmark : '_' ∈ stemOf ('_' :: rest) := by
    rw [stemOf, List.takeWhile_cons_of_pos (by decide), rdropWhile_cons_neg (by decide)]
    exact List.mem_cons_self
  refine Bool.eq_false_iff.mpr fun h => ?_
  exact (IsReserved.not_mem h).2.1 hmark

/-- The stem of a name that starts with another one that has a dot. -/
theorem stemOf_append_of_mem {t : List Char} (h : '.' ∈ name) : stemOf (name ++ t) = stemOf name := by
  rw [stemOf, takeWhile_append_of_mem h (by decide), stemOf]

/-- A name that starts with a dot, or is empty, has no stem. -/
theorem stemOf_of_dot (h : ∀ c ∈ name.head?, c = '.') : stemOf name = [] := by
  cases name with
  | nil => rfl
  | cons c name =>
    rw [h c rfl, stemOf, List.takeWhile_cons_of_neg (by decide)]
    rfl

/-- The stem of a name without a dot, whatever extension comes after it. -/
theorem stemOf_append_of_not_mem {ext : List Char} (h : '.' ∉ name) (hext : ∀ c ∈ ext.head?, c = '.') :
    stemOf (name ++ ext) = name.rdropWhile isWhitespace := by
  have hfront : ∀ c ∈ name, decide (c ≠ '.') = true := fun c hc =>
    decide_eq_true fun he => h (he ▸ hc)
  have hstop : ext.takeWhile (· ≠ '.') = [] := by
    cases ext with
    | nil => rfl
    | cons c ext => rw [hext c rfl, List.takeWhile_cons_of_neg (by decide)]
  rw [stemOf, List.takeWhile_append_of_pos hfront, hstop, List.append_nil]

end Device

/-! ### The cut -/

section Cut

variable {name : List Char}

/-- What a short extension is. -/
theorem shortExtension_eq (name : List Char) : shortExtension name <:+ name ∧
    (∀ c ∈ (shortExtension name).head?, c = '.') ∧ byteLen (shortExtension name) ≤ 16 := by
  unfold shortExtension
  dsimp only
  split
  case isTrue h =>
    obtain ⟨hstem, hshort⟩ := h
    refine ⟨?_, by simp, hshort⟩
    cases hdrop : name.reverse.dropWhile (· ≠ '.') with
    | nil =>
      rw [hdrop] at hstem
      exact absurd rfl hstem
    | cons c rest =>
      have hcut := List.takeWhile_append_dropWhile (p := fun c => decide (c ≠ '.')) (l := name.reverse)
      have hhead := List.head?_dropWhile_not (fun c => decide (c ≠ '.')) name.reverse
      rw [hdrop] at hhead hcut
      obtain rfl : c = '.' := by simpa using hhead
      have hback := congrArg List.reverse hcut
      rw [List.reverse_reverse, List.reverse_append, List.reverse_cons, List.append_assoc] at hback
      exact ⟨rest.reverse, hback⟩
  case isFalse => exact ⟨List.nil_suffix, nofun, Nat.zero_le _⟩

theorem keptOf_isPrefix (name : List Char) : keptOf name <+: name := takeBytes_isPrefix _ _

/-- There is room for the first character of a name at least. -/
theorem keptOf_cons (c : Char) (rest : List Char) : ∃ kept, keptOf (c :: rest) = c :: kept := by
  have hroom := (shortExtension_eq (c :: rest)).2.2
  have hsize := c.utf8Size_le_four
  rw [keptOf, takeBytes, if_pos (by rw [maxNameBytes]; omega)]
  exact ⟨_, rfl⟩

theorem capLength_of_le (h : byteLen name ≤ maxNameBytes) : capLength name = name := by
  rw [capLength, if_pos h]

theorem capLength_of_lt (h : maxNameBytes < byteLen name) : capLength name =
    (if ((keptOf name).rdropWhile isTail).isEmpty then fallbackName
      else (keptOf name).rdropWhile isTail) ++ shortExtension name := by
  rw [capLength, if_neg (Nat.not_le.mpr h)]
  rfl

/-- **The cut makes every name fit.** -/
theorem byteLen_capLength (name : List Char) : byteLen (capLength name) ≤ maxNameBytes := by
  rcases Nat.lt_or_ge maxNameBytes (byteLen name) with hlong | hshort
  · have hext := (shortExtension_eq name).2.2
    rw [capLength_of_lt hlong, byteLen_append]
    split
    case isTrue =>
      have hfallback : byteLen fallbackName = 8 := by decide
      rw [hfallback, maxNameBytes]
      omega
    case isFalse =>
      have hkept := byteLen_takeBytes_le (maxNameBytes - byteLen (shortExtension name)) name
      obtain ⟨t, ht⟩ := List.rdropWhile_prefix isTail (keptOf name)
      have hlen := congrArg byteLen ht
      rw [byteLen_append] at hlen
      rw [keptOf] at hlen ⊢
      rw [maxNameBytes] at hkept hlen ⊢
      omega
  · rw [capLength_of_le hshort]
    exact hshort

/-- **The cut keeps a name tidy.** -/
theorem Tidy.capLength (h : Tidy name) : Tidy (capLength name) := by
  rcases Nat.lt_or_ge maxNameBytes (byteLen name) with hlong | hshort
  case inr => rwa [capLength_of_le hshort]
  rw [capLength_of_lt hlong]
  obtain ⟨hsuf, hdot, -⟩ := shortExtension_eq name
  -- the last character is that of the name, if the extension is kept
  have hback : ∀ {l}, (∀ c ∈ l.getLast?, isTail c = false) →
      ∀ c ∈ (l ++ shortExtension name).getLast?, isTail c = false := by
    intro l hl c hc
    rw [List.getLast?_append] at hc
    cases hext : (shortExtension name).getLast? with
    | none =>
      rw [hext] at hc
      exact hl c hc
    | some d =>
      rw [hext] at hc
      obtain ⟨t, ht⟩ := hsuf
      refine h.back c ?_
      rw [← ht, List.getLast?_append, hext]
      exact hc
  split
  case isTrue =>
    constructor
    case nonempty => exact List.append_ne_nil_of_left_ne_nil tidy_fallback.nonempty _
    case chars =>
      intro c hc
      rcases List.mem_append.mp hc with hc | hc
      · exact tidy_fallback.chars c hc
      · exact h.chars c (hsuf.mem hc)
    case front =>
      intro c hc
      rw [List.head?_append_of_ne_nil _ tidy_fallback.nonempty] at hc
      exact tidy_fallback.front c hc
    case back => exact hback tidy_fallback.back
  case isFalse hne =>
    have hpre := (List.rdropWhile_prefix isTail (keptOf name)).trans (keptOf_isPrefix name)
    rw [List.isEmpty_iff] at hne
    constructor
    case nonempty => exact List.append_ne_nil_of_left_ne_nil hne _
    case chars =>
      intro c hc
      rcases List.mem_append.mp hc with hc | hc
      · exact h.chars c (hpre.mem hc)
      · exact h.chars c (hsuf.mem hc)
    case front =>
      intro c hc
      refine h.front c ?_
      obtain ⟨t, ht⟩ := hpre
      rw [List.head?_append_of_ne_nil _ hne] at hc
      rw [← ht, List.head?_append_of_ne_nil _ hne]
      exact hc
    case back => exact hback fun c hc => getLast?_rdropWhile hc

/-- Neither the tail that is trimmed nor the extension that is put back changes a stem. -/
theorem stemOf_trimmed (kept : List Char) {ext : List Char} (hext : ∀ c ∈ ext.head?, c = '.') :
    stemOf (kept.rdropWhile isTail ++ ext) = stemOf kept := by
  obtain ⟨tail, htail⟩ : ∃ tail, kept = kept.rdropWhile isTail ++ tail ∧ ∀ c ∈ tail, isTail c = true :=
    ⟨kept.rtakeWhile isTail, List.rdropWhile_append_rtakeWhile.symm, fun _ => List.mem_rtakeWhile_imp⟩
  generalize kept.rdropWhile isTail = out at htail ⊢
  obtain ⟨rfl, htail⟩ := htail
  by_cases hdot : '.' ∈ out
  · rw [stemOf_append_of_mem hdot, stemOf_append_of_mem hdot]
  · have hfront : ∀ c ∈ out, decide (c ≠ '.') = true := fun c hc =>
      decide_eq_true fun he => hdot (he ▸ hc)
    rw [stemOf_append_of_not_mem hdot hext, stemOf, List.takeWhile_append_of_pos hfront]
    refine (rdropWhile_append_of_forall fun c hc => ?_).symm
    -- what is left of the tail in front of a dot are spaces
    have hspace := htail c ((List.takeWhile_sublist _).subset hc)
    have hne := List.mem_takeWhile_imp hc
    simp only [isTail, Bool.or_eq_true, beq_iff_eq] at hspace
    rcases hspace with rfl | rfl
    · exact absurd hne (by decide)
    · rfl

/-- A name that starts with another one without its stem has no device name there. -/
theorem isReserved_keptOf (hplain : isReserved (stemOf name) = false) :
    isReserved (stemOf (keptOf name)) = isReserved ((keptOf name).rdropWhile isWhitespace) := by
  obtain ⟨rest, hrest⟩ := keptOf_isPrefix name
  by_cases hdot : '.' ∈ keptOf name
  · have hstem : stemOf (keptOf name) = stemOf name :=
      (stemOf_append_of_mem hdot).symm.trans (congrArg stemOf hrest)
    rw [hstem, hplain]
    refine (Bool.eq_false_iff.mpr fun hreserved => ?_).symm
    refine (IsReserved.not_mem hreserved).1 ?_
    have hsplit := List.rdropWhile_append_rtakeWhile (p := isWhitespace) (l := keptOf name)
    rw [← hsplit] at hdot
    rcases List.mem_append.mp hdot with hdot | hdot
    · exact hdot
    · exact absurd (List.mem_rtakeWhile_imp hdot) (by decide)
  · have hstem : stemOf (keptOf name ++ []) = _ := stemOf_append_of_not_mem hdot nofun
    rw [← hstem, List.append_nil]

/-- **A long name is cut to a device name just if nothing else fits.** -/
theorem isReserved_capLength (hplain : isReserved (stemOf name) = false) :
    isReserved (stemOf (capLength name)) = true ↔ CutToDevice name := by
  rcases Nat.lt_or_ge maxNameBytes (byteLen name) with hlong | hshort
  case inr =>
    rw [capLength_of_le hshort, hplain]
    exact iff_of_false Bool.false_ne_true fun hcut => absurd hcut.1 (Nat.not_lt.mpr hshort)
  obtain ⟨-, hdot, -⟩ := shortExtension_eq name
  rw [CutToDevice, and_iff_right hlong, and_iff_right hplain, capLength_of_lt hlong,
    ← isReserved_keptOf hplain]
  split
  case isTrue hnone =>
    have hstem := stemOf_trimmed (keptOf name) hdot
    rw [List.isEmpty_iff.mp hnone, List.nil_append] at hstem
    have hfallback := stemOf_append_of_not_mem (by decide : '.' ∉ fallbackName) hdot
    rw [hfallback, ← hstem, stemOf_of_dot hdot]
    decide
  case isFalse => rw [stemOf_trimmed (keptOf name) hdot]

end Cut

/-! ### Names of all kinds -/

section Names

variable {name : List Char}

/-- The parts of a list that was split have no separator in them. -/
theorem mem_of_mem_splitOnP {α : Type} {p : α → Bool} : ∀ {l part : List α}, part ∈ l.splitOnP p →
    ∀ c ∈ part, p c = false
  | [], part, h, c, hc => by
    rw [List.splitOnP_nil] at h
    rw [List.mem_singleton.mp h] at hc
    cases hc
  | a :: l, part, h, c, hc => by
    rw [List.splitOnP_cons_eq_if_modifyHead] at h
    split at h
    case isTrue =>
      rcases List.mem_cons.mp h with rfl | h
      · cases hc
      · exact mem_of_mem_splitOnP h c hc
    case isFalse ha =>
      obtain ⟨first, others, hsplit⟩ := List.exists_cons_of_ne_nil (List.splitOnP_ne_nil p l)
      rw [hsplit, List.modifyHead_cons] at h
      rcases List.mem_cons.mp h with rfl | h
      · rcases List.mem_cons.mp hc with rfl | hc
        · exact Bool.eq_false_iff.mpr ha
        · exact mem_of_mem_splitOnP (hsplit ▸ List.mem_cons_self) c hc
      · exact mem_of_mem_splitOnP (hsplit ▸ List.mem_cons_of_mem _ h) c hc

theorem lastPart_plain {c : Char} (h : c ∈ lastPart name) : isSeparator c = false := by
  rw [lastPart] at h
  cases hfind : (name.splitOnP isSeparator).reverse.find? fun part => !(trim part).isEmpty with
  | none =>
    rw [hfind] at h
    cases h
  | some part =>
    rw [hfind] at h
    exact mem_of_mem_splitOnP (List.mem_reverse.mp (List.mem_of_find?_eq_some hfind)) c h

/-- What is left of any name is tidy. -/
theorem tidy_cleaned (hne : cleaned name ≠ []) : Tidy (cleaned name) := by
  rw [cleaned] at hne ⊢
  generalize hkept : ((lastPart name).filter fun c => !isControl c && !isInvisible c) = kept at hne ⊢
  generalize hout : (kept.map fun c => if isForbidden c then '_' else c).dropWhile isWhitespace = out
    at hne ⊢
  have hpre := List.rdropWhile_prefix isTail out
  constructor
  case nonempty => exact hne
  case chars =>
    intro c hc
    have hc := (List.dropWhile_suffix _).mem (hout ▸ hpre.mem hc)
    obtain ⟨d, hd, rfl⟩ := List.mem_map.mp hc
    split
    case isTrue => decide
    case isFalse hallowed =>
      rw [← hkept] at hd
      obtain ⟨hd, hvisible⟩ := List.mem_filter.mp hd
      rw [Bool.and_eq_true, Bool.not_eq_true', Bool.not_eq_true'] at hvisible
      exact ⟨lastPart_plain hd, hvisible.1, hvisible.2, Bool.eq_false_iff.mpr hallowed⟩
  case front =>
    intro c hc
    obtain ⟨t, ht⟩ := hpre
    have hhead := List.head?_dropWhile_not isWhitespace (kept.map fun c => if isForbidden c then '_' else c)
    rw [hout, ← ht, List.head?_append_of_ne_nil _ hne] at hhead
    cases hc' : (out.rdropWhile isTail).head? with
    | none =>
      rw [hc'] at hc
      cases hc
    | some d =>
      rw [hc'] at hhead hc
      exact Option.some.inj hc ▸ Bool.eq_false_iff.mpr (by simpa using hhead)
  case back => exact fun c hc => getLast?_rdropWhile hc

/-- The name that is cut, when something is left of the server's. -/
theorem safeLocalFileName_of_cleaned (hne : cleaned name ≠ []) :
    safeLocalFileName (String.ofList name) = String.ofList (capLength
      (if isReserved (stemOf (cleaned name)) then '_' :: cleaned name else cleaned name)) := by
  have htidy := tidy_cleaned hne
  have hdots : (cleaned name).all (· == '.') = false := by
    refine Bool.eq_false_iff.mpr fun hall => ?_
    have hback := htidy.back _ (List.getLast?_eq_some_getLast hne)
    rw [isTail, List.all_eq_true.mp hall _ (List.getLast_mem hne)] at hback
    cases hback
  rw [safeLocalFileName, String.toList_ofList, hdots, Bool.or_false, if_neg]
  rwa [List.isEmpty_iff]

/-- **A harmless name is left as it is.** -/
theorem Harmless.fixed (h : Harmless name) :
    safeLocalFileName (String.ofList name) = String.ofList name := by
  obtain ⟨c, rest, rfl⟩ := List.exists_cons_of_ne_nil h.nonempty
  have hfront : isWhitespace c = false := h.front c rfl
  have hblank : (trim (c :: rest)).isEmpty = false := by
    refine Bool.eq_false_iff.mpr fun hempty => ?_
    have hnil : ((c :: rest).dropWhile isWhitespace).rdropWhile isWhitespace = [] :=
      List.isEmpty_iff.mp hempty
    rw [List.dropWhile_cons_of_neg (by rw [hfront]; exact Bool.false_ne_true)] at hnil
    have hall := List.rdropWhile_eq_nil_iff.mp hnil c List.mem_cons_self
    rw [hfront] at hall
    cases hall
  have hlast : lastPart (c :: rest) = c :: rest := by
    rw [lastPart, List.splitOnP_eq_singleton fun d hd => (h.chars d hd).1, List.reverse_singleton,
      List.find?_cons_of_pos (by rw [hblank]; rfl)]
    rfl
  have hcleaned : cleaned (c :: rest) = c :: rest := by
    have hfilter : (c :: rest).filter (fun c => !isControl c && !isInvisible c) = c :: rest := by
      refine List.filter_eq_self.mpr fun d hd => ?_
      rw [(h.chars d hd).2.1, (h.chars d hd).2.2.1]
      rfl
    have hmap : (c :: rest).map (fun c => if isForbidden c then '_' else c) = c :: rest := by
      refine (List.map_congr_left fun d hd => ?_).trans (List.map_id _)
      rw [(h.chars d hd).2.2.2]
      rfl
    rw [cleaned, hlast, hfilter, hmap, List.dropWhile_cons_of_neg (by rw [hfront]; exact Bool.false_ne_true)]
    refine List.rdropWhile_eq_self_iff.mpr fun hne => ?_
    rw [h.back _ (List.getLast?_eq_some_getLast hne)]
    exact Bool.false_ne_true
  rw [safeLocalFileName_of_cleaned (by rw [hcleaned]; exact List.cons_ne_nil c rest), hcleaned,
    h.notDevice, if_neg Bool.false_ne_true, capLength_of_le h.short]

/-- A tidy name that fits and is no device name is harmless. -/
theorem Tidy.harmless (h : Tidy name) (hshort : byteLen name ≤ maxNameBytes)
    (hdevice : isReserved (stemOf name) = false) : Harmless name := by
  refine ⟨h, hshort, ⟨?_, ?_⟩, hdevice⟩
  · rintro rfl
    exact absurd (h.back '.' rfl) (by decide)
  · rintro rfl
    exact absurd (h.back '.' rfl) (by decide)

/-- A mark in front keeps a name tidy. -/
theorem Tidy.marked (h : Tidy name) : Tidy ('_' :: name) := by
  constructor
  case nonempty => exact List.cons_ne_nil _ _
  case chars =>
    refine List.forall_mem_cons.mpr ⟨by decide, h.chars⟩
  case front =>
    intro c hc
    obtain rfl := Option.some.inj hc
    decide
  case back =>
    intro c hc
    rw [List.getLast?_cons_of_ne_nil h.nonempty] at hc
    exact h.back c hc

/-- A marked name is not cut to a device name. -/
theorem not_cutToDevice_marked (name : List Char) : ¬CutToDevice ('_' :: name) := by
  rintro ⟨-, -, hdevice⟩
  obtain ⟨kept, hkept⟩ := keptOf_cons '_' name
  rw [hkept, rdropWhile_cons_neg (by decide)] at hdevice
  exact (IsReserved.not_mem hdevice).2.1 List.mem_cons_self

theorem harmless_fallback : Harmless fallbackName := tidy_fallback.harmless (by decide) (by decide)

end Names

/-- **A server-supplied name becomes a harmless local name, and one that stays as it is, just
if it is not cut to a device name.** -/
theorem safeLocalFileName_harmless (name : String) :
    Harmless (safeLocalFileName name).toList ∧
        safeLocalFileName (safeLocalFileName name) = safeLocalFileName name ↔
      ¬CutToDevice (cleaned name.toList) := by
  obtain ⟨name, rfl⟩ : ∃ cs, name = String.ofList cs := ⟨name.toList, (String.ofList_toList).symm⟩
  rw [String.toList_ofList]
  -- the second half follows from the first
  have hfixed : ∀ out, safeLocalFileName (String.ofList name) = String.ofList out → Harmless out →
      Harmless (safeLocalFileName (String.ofList name)).toList ∧
        safeLocalFileName (safeLocalFileName (String.ofList name)) =
          safeLocalFileName (String.ofList name) := by
    intro out hout h
    rw [hout, String.toList_ofList]
    exact ⟨h, h.fixed⟩
  by_cases hne : cleaned name = []
  · have hout : safeLocalFileName (String.ofList name) = String.ofList fallbackName := by
      rw [safeLocalFileName, String.toList_ofList, hne]
      rfl
    refine iff_of_true (hfixed _ hout harmless_fallback) fun hcut => ?_
    rw [hne] at hcut
    exact absurd hcut.1 (by decide)
  have htidy := tidy_cleaned hne
  have hout := safeLocalFileName_of_cleaned hne
  cases hdevice : isReserved (stemOf (cleaned name)) with
  | true =>
    rw [hdevice, if_pos rfl] at hout
    refine iff_of_true (hfixed _ hout ?_) fun hcut => absurd hcut.2.1 (by rw [hdevice]; decide)
    refine htidy.marked.capLength.harmless (byteLen_capLength _) (Bool.eq_false_iff.mpr fun h => ?_)
    exact not_cutToDevice_marked _ ((isReserved_capLength (not_isReserved_marked _)).mp h)
  | false =>
    rw [hdevice, if_neg Bool.false_ne_true] at hout
    rw [← isReserved_capLength hdevice]
    constructor
    · rintro ⟨h, -⟩ hreserved
      rw [hout, String.toList_ofList] at h
      rw [h.notDevice] at hreserved
      cases hreserved
    · intro h
      exact hfixed _ hout (htidy.capLength.harmless (byteLen_capLength _) (Bool.eq_false_iff.mpr h))

/-- A device name, then spaces up to the cap, then what makes it another name. -/
def padded : List Char := "CON".toList ++ List.replicate 250 ' ' ++ "x.txt".toList

/-- What told the name from a device name is cut off. -/
theorem safeLocalFileName_device : ¬∀ name : String, Harmless (safeLocalFileName name).toList ∧
    safeLocalFileName (safeLocalFileName name) = safeLocalFileName name := by
  intro hall
  have hcut : safeLocalFileName (String.ofList padded) = "CON.txt" := by decide +kernel
  have hdevice := (hall (String.ofList padded)).1.notDevice
  rw [hcut] at hdevice
  exact absurd hdevice (by decide)

end Client

end KdxHotline
