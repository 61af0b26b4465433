import Mathlib.Data.List.Forall2
import Mathlib.Data.List.Nodup
import KdxHotline.Crypto.Scram
import KdxHotline.Foundations.Base64
import KdxHotline.Foundations.Lines
import KdxHotline.Limits

/-!
# The lines of the pin file

The pins of a client are a text of one line each, a host with its port and a fingerprint, both in
quotes. It is read strictly: a line is blank, or a comment, or it spells a pin
(`KdxHotline.Client.parseEntry_eq_some_iff`), and anything else is an error, so that a damaged
file is never read as one with fewer pins.

What is written reads back as what it was written from (`KdxHotline.Client.spelled_bodyOf`). That
rests on what a pin is: nothing in its two parts can end the quotes or the line. The base64 of the
fingerprints is that of any engine that reads strictly.
-/

namespace KdxHotline

namespace Client

open Foundations Crypto Limits

/-! ### Keys and fingerprints -/

/-- A 16-bit number in decimal, after an optional plus sign. -/
def parseU16 (cs : List Char) : Option ℕ :=
  let digits := if cs.head? = some '+' then cs.tail else cs
  if digits ≠ [] ∧ digits.all Char.isDigit ∧ Nat.ofDigitChars 10 digits 0 < 2 ^ 16 then
    some (Nat.ofDigitChars 10 digits 0)
  else none

/-- The text before the last separator and the text after it. -/
def rsplitOnce (sep : Char) (cs : List Char) : Option (List Char × List Char) :=
  (splitOnce sep cs.reverse).map fun (after, before) => (before.reverse, after.reverse)

/-- The text after a first character. -/
def stripPrefix (first : Char) : List Char → Option (List Char)
  | [] => none
  | c :: cs => if c = first then some cs else none

/-- The text before a last character. -/
def stripSuffix (last : Char) (cs : List Char) : Option (List Char) :=
  if cs.getLast? = some last then some cs.dropLast else none

/-- The text without the whitespace before it. -/
def trimStart (cs : List Char) : List Char := cs.dropWhile isWhitespace

/-- What every fingerprint begins with. -/
def fingerprintPrefix : List Char := "sha256:".toList

section Entries

variable (engine : TextCodec (List UInt8))

/-- Is a text the prefix and 32 bytes in base64? -/
def isValidFingerprint (s : List Char) : Bool :=
  if fingerprintPrefix.isPrefixOf s then
    let b64 := s.drop fingerprintPrefix.length
    (b64.map Char.utf8Size).sum == 44 && (engine.decode b64).any fun d => d.length == 32
  else false

/-- The characters that would break the quotes or smuggle in a line. -/
def isUnsafe (c : Char) : Bool := c == '"' || c == '\\' || isWhitespace c || isControl c

/-- Is a key a host that is not empty, a colon and a port? -/
def isSafeKey (key : List Char) : Bool :=
  match rsplitOnce ':' key with
  | none => false
  | some (host, port) => !host.isEmpty && (parseU16 port).isSome && !key.any isUnsafe

/-- The key of a host and a port. -/
def hostKey (host : List Char) (port : UInt16) : List Char :=
  host ++ ':' :: Nat.toDigits 10 port.toNat

/-- A fingerprint pinned for a key. -/
structure Pin where
  key : List Char
  fingerprint : List Char
  safe : isSafeKey key = true
  valid : isValidFingerprint engine fingerprint = true
  deriving DecidableEq

/-! ### Reading and writing -/

/-- Read one line. -/
def parseEntry (line : List Char) : Option (Pin engine) := do
  let rest ← stripPrefix '"' line
  let (key, rest) ← splitOnce '"' rest
  let rest ← stripPrefix '=' (trimStart rest)
  let rest ← stripPrefix '"' (trimStart rest)
  let value ← stripSuffix '"' rest
  if h : isSafeKey key = true ∧ isValidFingerprint engine value = true then
    some ⟨key, value, h.1, h.2⟩
  else none

/-- Why a pin file cannot be used. -/
inductive Corruption
  | unreadable
  | tooLarge
  | notUtf8
  | malformed (line : ℕ)
  | duplicate (line : ℕ) (key : List Char)
  deriving DecidableEq

/-- Is a line neither blank nor a comment? -/
def isSignificant (line : List Char) : Bool := !line.isEmpty && line.head? != some '#'

/-- Read the lines from number `n` on, after some pins. -/
def readLines : ℕ → List (List Char) → List (Pin engine) → Except Corruption (List (Pin engine))
  | _, [], entries => .ok entries
  | n, line :: rest, entries =>
    let line := trim line
    if isSignificant line then
      match parseEntry engine line with
      | none => .error (.malformed n)
      | some pin =>
        if entries.any fun p => p.key == pin.key then .error (.duplicate n pin.key)
        else readLines (n + 1) rest (entries ++ [pin])
    else readLines (n + 1) rest entries

end Entries

variable {engine : TextCodec (List UInt8)}

/-- A text without the byte order mark before it. -/
def withoutBom (text : List Char) : List Char := (stripPrefix '\ufeff' text).getD text

/-- A pin as a line. -/
def Pin.quoted (pin : Pin engine) : List Char :=
  '"' :: (pin.key ++ '"' :: (" = ".toList ++ '"' :: (pin.fingerprint ++ ['"'])))

/-- The text that is written for some pins. -/
def bodyOf (entries : List (Pin engine)) : List Char :=
  entries.flatMap fun pin => pin.quoted ++ ['\n']

/-! ### What a line spells -/

/-- A line is a key and a fingerprint in quotes, with an equals sign between them. -/
def Spells (line : List Char) (pin : Pin engine) : Prop :=
  ∃ before after : List Char, before.all isWhitespace = true ∧ after.all isWhitespace = true ∧
    line = '"' :: (pin.key ++ '"' ::
      (before ++ '=' :: (after ++ '"' :: (pin.fingerprint ++ ['"']))))

/-- The lines of a text that spell something. -/
def significantLines (text : List Char) : List (List Char) :=
  ((lines (withoutBom text)).map trim).filter isSignificant

/-- A text spells pins, one a line, no two for one key. -/
structure Spelled (text : List Char) (entries : List (Pin engine)) : Prop where
  lines : List.Forall₂ Spells (significantLines text) entries
  keys : (entries.map Pin.key).Nodup

variable {cs rest line key value host host' text : List Char} {c : Char}
  {pin pin' : Pin engine} {entries entries' : List (Pin engine)} {ls : List (List Char)} {n : ℕ}
  {port port' : UInt16}

theorem stripPrefix_eq_some : stripPrefix c cs = some rest ↔ cs = c :: rest := by
  cases cs with
  | nil => simp [stripPrefix]
  | cons d ds =>
    rw [stripPrefix]
    split
    case isTrue h => simp [h]
    case isFalse h => simp [h]

/-- What is before a last character. -/
theorem stripSuffix_eq_some : stripSuffix c cs = some rest ↔ cs = rest ++ [c] := by
  rw [stripSuffix]
  constructor
  · intro h
    split at h
    case isTrue hlast =>
      obtain rfl := Option.some.inj h
      exact (List.dropLast_append_getLast? c hlast).symm
    case isFalse => cases h
  · rintro rfl
    rw [List.getLast?_concat, if_pos rfl, List.dropLast_concat]

theorem splitOnce_of_not_mem (h : c ∉ key) : splitOnce c (key ++ c :: rest) = some (key, rest) := by
  have hall : ∀ d ∈ key, decide (d ≠ c) = true := fun d hd =>
    decide_eq_true fun he => h (he ▸ hd)
  rw [splitOnce, List.dropWhile_append_of_pos hall, List.dropWhile_cons_of_neg (by simp)]
  dsimp only
  rw [List.takeWhile_append_of_pos hall, List.takeWhile_cons_of_neg (by simp), List.append_nil]

/-- What is split is the two parts and the separator. -/
theorem splitOnce_eq_some (h : splitOnce c cs = some (key, rest)) : cs = key ++ c :: rest := by
  rw [splitOnce] at h
  split at h
  case h_1 d after hdrop =>
    obtain ⟨rfl, rfl⟩ := Prod.mk.inj (Option.some.inj h)
    have hd : d = c := by
      by_contra hne
      have hhead := List.head?_dropWhile_not (fun d => decide (d ≠ c)) cs
      rw [hdrop] at hhead
      simp [hne] at hhead
    have hsplit := List.takeWhile_append_dropWhile (p := fun d => decide (d ≠ c)) (l := cs)
    rw [hdrop, hd] at hsplit
    exact hsplit.symm
  case h_2 => cases h

/-- Whitespace in front is trimmed, up to a character that is none. -/
theorem trimStart_append (h : cs.all isWhitespace = true) (hc : isWhitespace c = false) :
    trimStart (cs ++ c :: rest) = c :: rest := by
  rw [trimStart, List.dropWhile_append_of_pos (fun d hd => List.all_eq_true.mp h d hd),
    List.dropWhile_cons_of_neg (by rw [hc]; decide)]

theorem trimStart_split (h : trimStart cs = rest) :
    ∃ front, front.all isWhitespace = true ∧ cs = front ++ rest := by
  refine ⟨cs.takeWhile isWhitespace, List.all_takeWhile, ?_⟩
  rw [← h, trimStart, List.takeWhile_append_dropWhile]

theorem not_mem_of_isSafeKey (h : isSafeKey key = true) (hc : isUnsafe c = true) : c ∉ key := by
  intro hmem
  rw [isSafeKey] at h
  split at h
  · cases h
  · rw [Bool.and_eq_true, Bool.not_eq_true', List.any_eq_false] at h
    exact h.2 c hmem hc

/-- **A line is read as the pin it spells, and no other line is read.** -/
theorem parseEntry_eq_some_iff : parseEntry engine line = some pin ↔ Spells line pin := by
  constructor
  · intro h
    simp only [parseEntry, Option.bind_eq_bind, Option.bind_eq_some_iff] at h
    obtain ⟨opened, hopened, ⟨key, rest⟩, hkey, atValue, hequals, quoted, hquoted, value, hvalue,
      hout⟩ := h
    obtain ⟨before, hbefore, hrest⟩ := trimStart_split (stripPrefix_eq_some.mp hequals)
    obtain ⟨after, hafter, hatValue⟩ := trimStart_split (stripPrefix_eq_some.mp hquoted)
    split at hout
    case isTrue =>
      obtain rfl := Option.some.inj hout
      refine ⟨before, after, hbefore, hafter, ?_⟩
      dsimp only at hrest ⊢
      rw [stripPrefix_eq_some.mp hopened, splitOnce_eq_some hkey, hrest, hatValue,
        stripSuffix_eq_some.mp hvalue]
    case isFalse => cases hout
  · rintro ⟨before, after, hbefore, hafter, rfl⟩
    have hquote : '"' ∉ pin.key := not_mem_of_isSafeKey pin.safe (by decide)
    simp only [parseEntry, Option.bind_eq_bind]
    rw [stripPrefix_eq_some.mpr rfl, Option.bind_some, splitOnce_of_not_mem hquote,
      Option.bind_some]
    dsimp only
    rw [trimStart_append hbefore (by decide), stripPrefix_eq_some.mpr rfl, Option.bind_some,
      trimStart_append hafter (by decide), stripPrefix_eq_some.mpr rfl, Option.bind_some,
      stripSuffix_eq_some.mpr rfl, Option.bind_some, dif_pos ⟨pin.safe, pin.valid⟩]

theorem Spells.unique (h : Spells line pin) (h' : Spells line pin') : pin = pin' :=
  Option.some.inj ((parseEntry_eq_some_iff.mpr h).symm.trans (parseEntry_eq_some_iff.mpr h'))

/-! ### Reading all lines -/

/-- **The lines are read as the pins they spell, if no key comes twice.** -/
theorem readLines_eq_ok_iff (hkeys : (entries.map Pin.key).Nodup) :
    readLines engine n ls entries = .ok entries' ↔ ∃ new, entries' = entries ++ new ∧
      List.Forall₂ Spells ((ls.map trim).filter isSignificant) new ∧
        (entries'.map Pin.key).Nodup := by
  induction ls generalizing n entries with
  | nil =>
    constructor
    · intro h
      obtain rfl := Except.ok.inj h
      exact ⟨[], (List.append_nil _).symm, List.Forall₂.nil, hkeys⟩
    · rintro ⟨new, rfl, hspells, -⟩
      obtain rfl := List.forall₂_nil_left_iff.mp hspells
      rw [readLines, List.append_nil]
  | cons line ls ih =>
    rw [readLines, List.map_cons]
    by_cases hsig : isSignificant (trim line) = true
    · rw [List.filter_cons_of_pos hsig, if_pos hsig]
      cases hparse : parseEntry engine (trim line) with
      | none =>
        refine ⟨fun h => (by cases h), ?_⟩
        rintro ⟨new, -, hspells, -⟩
        obtain ⟨pin, rest, hpin, -, -⟩ := List.forall₂_cons_left_iff.mp hspells
        rw [parseEntry_eq_some_iff.mpr hpin] at hparse
        cases hparse
      | some pin =>
        have hpin : Spells (trim line) pin := parseEntry_eq_some_iff.mp hparse
        dsimp only
        by_cases hold : pin.key ∈ entries.map Pin.key
        · -- a key that was there already is never read
          have hany : entries.any (fun p => p.key == pin.key) = true := by
            obtain ⟨p, hp, he⟩ := List.mem_map.mp hold
            exact List.any_eq_true.mpr ⟨p, hp, beq_iff_eq.mpr he⟩
          rw [if_pos hany]
          refine ⟨fun h => (by cases h), ?_⟩
          rintro ⟨new, rfl, hspells, hnodup⟩
          obtain ⟨pin', rest, hpin', -, rfl⟩ := List.forall₂_cons_left_iff.mp hspells
          obtain rfl := hpin.unique hpin'
          rw [List.map_append, List.map_cons] at hnodup
          exact absurd rfl ((List.nodup_append.mp hnodup).2.2 _ hold _ List.mem_cons_self)
        · have hany : ¬entries.any (fun p => p.key == pin.key) = true := by
            intro h
            obtain ⟨p, hp, he⟩ := List.any_eq_true.mp h
            exact hold (List.mem_map.mpr ⟨p, hp, beq_iff_eq.mp he⟩)
          -- the induction goes on with the pin read, whose key is new
          have hkeys' : ((entries ++ [pin]).map Pin.key).Nodup := by
            rw [List.map_append, List.map_singleton]
            exact List.nodup_append.mpr ⟨hkeys, List.nodup_singleton _,
              fun key hkey key' hkey' he => hold (List.mem_singleton.mp hkey' ▸ he ▸ hkey)⟩
          rw [if_neg hany, ih hkeys']
          constructor
          · rintro ⟨new, rfl, hspells, hnodup⟩
            exact ⟨pin :: new, by rw [List.append_assoc, List.singleton_append],
              List.Forall₂.cons hpin hspells, hnodup⟩
          · rintro ⟨new, rfl, hspells, hnodup⟩
            obtain ⟨pin', rest, hpin', hrest, rfl⟩ := List.forall₂_cons_left_iff.mp hspells
            obtain rfl := hpin.unique hpin'
            exact ⟨rest, by rw [List.append_assoc, List.singleton_append], hrest, hnodup⟩
    · rw [List.filter_cons_of_neg hsig, if_neg hsig, ih hkeys]

theorem readLines_eq_ok_iff_spelled :
    readLines engine n (lines (withoutBom text)) [] = .ok entries ↔ Spelled text entries := by
  rw [readLines_eq_ok_iff (by rw [List.map_nil]; exact List.nodup_nil)]
  constructor
  · rintro ⟨new, rfl, hspells, hnodup⟩
    exact ⟨hspells, hnodup⟩
  · rintro ⟨hspells, hnodup⟩
    exact ⟨entries, (List.nil_append _).symm, hspells, hnodup⟩

/-! ### What is written reads back -/

/-- Where the unsafe characters are. -/
theorem toNat_of_isUnsafe (h : isUnsafe c = true) :
    c.toNat ≤ 34 ∨ c.toNat = 92 ∨ 127 ≤ c.toNat := by
  simp only [isUnsafe, isWhitespace, isControl, Bool.or_eq_true, beq_iff_eq,
    decide_eq_true_eq] at h
  rcases h with ((rfl | rfl) | hwhite) | hcontrol
  · decide
  · decide
  · omega
  · omega

/-- Where the characters of base64 are. -/
theorem toNat_of_isSymbol (h : Base64.IsSymbol c) :
    35 ≤ c.toNat ∧ c.toNat ≠ 92 ∧ c.toNat < 127 := by
  have hbetween {a b : Char} (h : a ≤ c ∧ c ≤ b) : a.toNat ≤ c.toNat ∧ c.toNat ≤ b.toNat :=
    ⟨UInt32.le_iff_toNat_le.mp h.1, UInt32.le_iff_toNat_le.mp h.2⟩
  rcases h with hupper | hlower | hdigit | rfl | rfl | rfl
  · have hbounds : 65 ≤ c.toNat ∧ c.toNat ≤ 90 := hbetween hupper
    omega
  · have hbounds : 97 ≤ c.toNat ∧ c.toNat ≤ 122 := hbetween hlower
    omega
  · have hbounds : 48 ≤ c.toNat ∧ c.toNat ≤ 57 := hbetween hdigit
    omega
  · decide
  · decide
  · decide

/-- A fingerprint holds nothing that is unsafe. -/
theorem not_mem_of_isValidFingerprint (hstrict : Base64.Strict engine)
    (h : isValidFingerprint engine value = true) (hc : isUnsafe c = true) : c ∉ value := by
  intro hmem
  have hplace := toNat_of_isUnsafe hc
  rw [isValidFingerprint] at h
  split at h
  case isTrue hprefix =>
    obtain ⟨b64, rfl⟩ := List.isPrefixOf_iff_prefix.mp hprefix
    dsimp only at h
    rw [List.drop_left, Bool.and_eq_true, Option.any_eq_true] at h
    obtain ⟨-, bytes, hdecode, -⟩ := h
    rcases List.mem_append.mp hmem with hname | hb64
    · have hsafe : fingerprintPrefix.all (fun d => !isUnsafe d) = true := by decide
      have hnot := List.all_eq_true.mp hsafe c hname
      rw [hc] at hnot
      cases hnot
    · have hsymbol := toNat_of_isSymbol (hstrict.mem_of_decode hdecode c hb64)
      omega
  case isFalse => cases h

theorem quoted_not_mem (hstrict : Base64.Strict engine) (pin : Pin engine)
    (hc : isUnsafe c = true) (hspecial : c ≠ '"' ∧ c ≠ ' ') : c ∉ pin.quoted := by
  have hkey := not_mem_of_isSafeKey pin.safe hc
  have hvalue := not_mem_of_isValidFingerprint hstrict pin.valid hc
  have hequals : c ≠ '=' := by
    rintro rfl
    exact absurd hc (by decide)
  simp [Pin.quoted, hkey, hvalue, hspecial.1, hspecial.2, hequals]

theorem Pin.spells_quoted (pin : Pin engine) : Spells pin.quoted pin :=
  ⟨[' '], [' '], by decide, by decide, rfl⟩

theorem Pin.trim_quoted (pin : Pin engine) : trim pin.quoted = pin.quoted := by
  have hlast : pin.quoted = ('"' :: (pin.key ++ '"' :: (" = ".toList ++ '"' :: pin.fingerprint))) ++
      ['"'] := by
    simp [Pin.quoted]
  have hquote : isWhitespace '"' = false := by decide
  rw [trim, Pin.quoted, List.dropWhile_cons_of_neg (by rw [hquote]; decide), ← Pin.quoted, hlast,
    List.reverse_concat, List.dropWhile_cons_of_neg (by rw [hquote]; decide), List.reverse_cons,
    List.reverse_reverse]

theorem Pin.isSignificant_quoted (pin : Pin engine) : isSignificant pin.quoted = true := rfl

theorem lines_bodyOf (hstrict : Base64.Strict engine) (entries : List (Pin engine)) :
    lines (bodyOf entries) = entries.map Pin.quoted := by
  induction entries with
  | nil => rfl
  | cons pin entries ih =>
    have hfirst : bodyOf (pin :: entries) = pin.quoted ++ '\n' :: bodyOf entries := by
      simp [bodyOf]
    rw [hfirst, lines_line (quoted_not_mem hstrict pin (by decide) (by decide))
      (quoted_not_mem hstrict pin (by decide) (by decide)), ih, List.map_cons]

theorem withoutBom_bodyOf (entries : List (Pin engine)) :
    withoutBom (bodyOf entries) = bodyOf entries := by
  cases entries with
  | nil => rfl
  | cons pin entries =>
    have hquote : bodyOf (pin :: entries) = '"' :: (bodyOf (pin :: entries)).tail := rfl
    rw [hquote, withoutBom, stripPrefix, if_neg (by decide), Option.getD_none]

/-- **What is written spells what it was written from.** -/
theorem spelled_bodyOf (hstrict : Base64.Strict engine) (h : (entries.map Pin.key).Nodup) :
    Spelled (bodyOf entries) entries := by
  refine ⟨?_, h⟩
  have hlines : significantLines (bodyOf entries) = entries.map Pin.quoted := by
    rw [significantLines, withoutBom_bodyOf, lines_bodyOf hstrict, List.map_map]
    have htrim : trim ∘ (Pin.quoted : Pin engine → List Char) = Pin.quoted :=
      funext Pin.trim_quoted
    rw [htrim, List.filter_eq_self]
    intro line hline
    obtain ⟨pin, -, rfl⟩ := List.mem_map.mp hline
    exact pin.isSignificant_quoted
  rw [hlines, List.forall₂_map_left_iff]
  exact List.forall₂_same.mpr fun pin _ => pin.spells_quoted

/-! ### Keys -/

theorem rsplitOnce_of_not_mem (h : c ∉ value) :
    rsplitOnce c (key ++ c :: value) = some (key, value) := by
  have hreverse : (key ++ c :: value).reverse = value.reverse ++ c :: key.reverse := by
    simp
  rw [rsplitOnce, hreverse, splitOnce_of_not_mem (List.mem_reverse.not.mpr h), Option.map_some]
  dsimp only
  rw [List.reverse_reverse, List.reverse_reverse]

/-- **A key is of one host and one port**, also when the host has colons of its own. -/
theorem hostKey_inj : hostKey host port = hostKey host' port' ↔ host = host' ∧ port = port' := by
  constructor
  · intro h
    have hcolon (n : ℕ) : ':' ∉ Nat.toDigits 10 n := separator_digits (by decide)
    have hsplit : rsplitOnce ':' (host ++ ':' :: Nat.toDigits 10 port.toNat) =
        some (host, Nat.toDigits 10 port.toNat) := rsplitOnce_of_not_mem (hcolon _)
    rw [← hostKey, h, hostKey, rsplitOnce_of_not_mem (hcolon port'.toNat)] at hsplit
    obtain ⟨hhost, hdigits⟩ := Prod.mk.inj (Option.some.inj hsplit)
    have hport := congrArg (fun cs => Nat.ofDigitChars 10 cs 0) hdigits
    rw [Nat.ofDigitChars_ten_toDigits, Nat.ofDigitChars_ten_toDigits] at hport
    exact ⟨hhost.symm, (UInt16.toNat_inj.mp hport).symm⟩
  · rintro ⟨rfl, rfl⟩
    rfl

end Client

end KdxHotline
