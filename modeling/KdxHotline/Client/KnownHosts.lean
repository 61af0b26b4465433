import KdxHotline.Client.PinFile
import KdxHotline.Client.Spki
import KdxHotline.Protocol.Messages.Wire

/-!
# The pin file

The fingerprints of the servers a client has accepted, one for each host and port. To pin a host
the file is read, the host's line is replaced or added, and the file is written anew; a file that
cannot be read is never written over.

Over any calls the file remembers what was pinned last for each host and port, and nothing else
(`KdxHotline.Client.KnownHosts.pins_never_forgotten`). The invariant is that the pins of the file
are those of the run, most recent first, over those that were there before it.
-/

namespace KdxHotline

namespace Client

namespace KnownHosts

open Foundations Protocol

/-- Largest pin file that is read. -/
def maxKnownHostsBytes : ℕ := 4 * 1024 * 1024

/-- The bytes of the pin file, if there is one. -/
abbrev PinFile : Type := Option (List UInt8)

/-- Which of its accesses to the disk a call gets through: it reads a file that is there, makes
the directory, and replaces the file as a whole. -/
structure Disk where
  reads : Bool
  creates : Bool
  replaces : Bool

/-- Why a call on the pins fails. -/
inductive KnownHostsError
  | knownHosts (why : Corruption)
  | invalidServerName (host : List Char)
  | malformedFingerprint
  | io
  deriving DecidableEq

/-! ### The calls -/

section Calls

variable (engine : TextCodec (List UInt8)) (disk : Disk) (file : PinFile)

/-- The pins of the file; a missing one has none. -/
def readAll : Except Corruption (List (Pin engine)) :=
  if disk.reads = false then .error .unreadable
  else match file with
    | none => .ok []
    | some bytes =>
      let bytes := bytes.take (maxKnownHostsBytes + 1)
      if maxKnownHostsBytes < bytes.length then .error .tooLarge
      else match fromUtf8 bytes with
        | none => .error .notUtf8
        | some text => readLines engine 1 (lines (withoutBom text.toList)) []

/-- The fingerprint of a key among some pins. -/
def lookup {engine : TextCodec (List UInt8)} (entries : List (Pin engine)) (key : List Char) :
    Option (List Char) :=
  (entries.find? fun pin => pin.key == key).map Pin.fingerprint

/-- The pinned fingerprint of a host and port, if any. -/
def get (host : List Char) (port : UInt16) : Except KnownHostsError (Option (List Char)) :=
  match readAll engine disk file with
  | .error why => .error (.knownHosts why)
  | .ok entries => .ok (lookup entries (hostKey host port))

/-- The pins with one of them replaced or added. -/
def replaced {engine : TextCodec (List UInt8)} (entries : List (Pin engine)) (pin : Pin engine) :
    List (Pin engine) :=
  entries.filter (fun p => p.key != pin.key) ++ [pin]

/-- The bytes that are written for some pins. -/
def written {engine : TextCodec (List UInt8)} (entries : List (Pin engine)) : List UInt8 :=
  strBytes (String.ofList (bodyOf entries))

/-- Pin a fingerprint for a host and port: the answer, and the file after it. Which texts are
names of servers is not decided here. -/
def pin (isServerName : List Char → Bool) (host : List Char) (port : UInt16)
    (fingerprint : List Char) : Except KnownHostsError Unit × PinFile :=
  if isServerName host = false then (.error (.invalidServerName host), file)
  else if hsafe : isSafeKey (hostKey host port) = true then
    if hvalid : isValidFingerprint engine fingerprint = true then
      match readAll engine disk file with
      | .error why => (.error (.knownHosts why), file)
      | .ok entries =>
        let entries := replaced entries ⟨hostKey host port, fingerprint, hsafe, hvalid⟩
        if disk.creates && disk.replaces then (.ok (), some (written entries))
        else (.error .io, file)
    else (.error .malformedFingerprint, file)
  else (.error (.invalidServerName host), file)

end Calls

/-! ### Runs -/

/-- A call, with what the disk lets it do. -/
inductive Call
  | get (disk : Disk) (host : List Char) (port : UInt16)
  | pin (disk : Disk) (host : List Char) (port : UInt16) (fingerprint : List Char)

/-- A pin that was made. -/
structure Made where
  host : List Char
  port : UInt16
  fingerprint : List Char

/-- The file in a run, and the pins that were made, the last one first. -/
structure PinRun where
  file : PinFile
  made : List Made

namespace PinRun

variable (engine : TextCodec (List UInt8)) (isServerName : List Char → Bool)

/-- The run after one more call. -/
def after (r : PinRun) : Call → PinRun
  | .get _ _ _ => r
  | .pin disk host port fingerprint =>
    match KnownHosts.pin engine disk r.file isServerName host port fingerprint with
    | (.ok (), file) => ⟨file, ⟨host, port, fingerprint⟩ :: r.made⟩
    | (.error _, file) => ⟨file, r.made⟩

/-- The run of some calls on a file. -/
def ofCalls (file : PinFile) (calls : List Call) : PinRun :=
  calls.foldl (after engine isServerName) ⟨file, []⟩

/-- The fingerprint that was pinned last for a host and port in the run. -/
def lastMade (r : PinRun) (host : List Char) (port : UInt16) : Option (List Char) :=
  (r.made.find? fun made => made.host == host && made.port == port).map Made.fingerprint

end PinRun

/-! ### Well-formed and malformed files -/

variable {engine : TextCodec (List UInt8)}

/-- What the file says, if it is within its bound and every line is blank, a comment or a pin. -/
def Says (file : PinFile) (entries : List (Pin engine)) : Prop :=
  match file with
  | none => entries = []
  | some bytes => bytes.length ≤ maxKnownHostsBytes ∧
      ∃ text, fromUtf8 bytes = some text ∧ Spelled text.toList entries

/-- A file that is not UTF-8, or has a line that spells nothing, or spells two pins of one key. -/
def Malformed (engine : TextCodec (List UInt8)) (bytes : List UInt8) : Prop :=
  fromUtf8 bytes = none ∨ ∃ text, fromUtf8 bytes = some text ∧
    ((∃ line ∈ significantLines text.toList, ∀ pin : Pin engine, ¬Spells line pin) ∨
      ¬(significantLines text.toList).Pairwise fun line line' =>
        ∀ pin pin' : Pin engine, Spells line pin → Spells line' pin' → pin.key ≠ pin'.key)

variable {disk : Disk} {file : PinFile} {entries entries' : List (Pin engine)}
  {bytes : List UInt8} {isServerName : List Char → Bool} {host fingerprint key : List Char}
  {port : UInt16} {p : Pin engine} {r : PinRun} {calls : List Call}

theorem readAll_unreadable (h : ¬disk.reads = true) :
    readAll engine disk file = .error .unreadable := by
  have hreads : disk.reads = false := Bool.not_eq_true _ ▸ h
  cases file with
  | none => rw [readAll, if_pos hreads]
  | some bytes => rw [readAll, if_pos hreads]

/-- **What is read is what the file says.** -/
theorem readAll_eq_ok_iff (h : disk.reads = true) :
    readAll engine disk file = .ok entries ↔ Says file entries := by
  have hreads : ¬disk.reads = false := by
    rw [h]
    decide
  cases file with
  | none =>
    rw [readAll, if_neg hreads]
    constructor
    · intro hread
      exact (Except.ok.inj hread).symm
    · rintro rfl
      rfl
  | some bytes =>
    have hsize : maxKnownHostsBytes < (bytes.take (maxKnownHostsBytes + 1)).length ↔
        ¬bytes.length ≤ maxKnownHostsBytes := by
      rw [List.length_take]
      omega
    rw [readAll, if_neg hreads, Says]
    dsimp only
    by_cases hlong : bytes.length ≤ maxKnownHostsBytes
    · rw [if_neg (fun hlt => hsize.mp hlt hlong), List.take_of_length_le (by omega)]
      cases htext : fromUtf8 bytes with
      | none =>
        refine ⟨fun hread => (by cases hread), ?_⟩
        rintro ⟨-, text, ⟨⟩, -⟩
      | some text =>
        rw [readLines_eq_ok_iff_spelled]
        refine ⟨fun hspelled => ⟨hlong, text, rfl, hspelled⟩, ?_⟩
        rintro ⟨-, text', ⟨⟩, hspelled⟩
        exact hspelled
    · rw [if_pos (hsize.mpr hlong)]
      exact ⟨fun hread => (by cases hread), fun hsaid => absurd hsaid.1 hlong⟩

theorem Says.nodup (h : Says file entries) : (entries.map Pin.key).Nodup := by
  cases file with
  | none =>
    obtain rfl : entries = [] := h
    exact List.nodup_nil
  | some bytes =>
    obtain ⟨-, text, -, hspelled⟩ := h
    exact hspelled.keys

/-- **What is written for some pins says them.** -/
theorem says_written (hstrict : Base64.Strict engine) (hkeys : (entries.map Pin.key).Nodup)
    (hfits : (written entries).length ≤ maxKnownHostsBytes) :
    Says (some (written entries)) entries := by
  refine ⟨hfits, String.ofList (bodyOf entries), fromUtf8_eq_some.mpr rfl, ?_⟩
  rw [String.toList_ofList]
  exact spelled_bodyOf hstrict hkeys

theorem nodup_replaced (h : (entries.map Pin.key).Nodup) :
    ((replaced entries p).map Pin.key).Nodup := by
  rw [replaced, List.map_append, List.map_singleton, List.nodup_append]
  refine ⟨h.sublist (List.filter_sublist.map _), List.nodup_singleton _, ?_⟩
  intro key hkey key' hkey' he
  obtain ⟨other, hother, rfl⟩ := List.mem_map.mp hkey
  have hne := bne_iff_ne.mp (List.mem_filter.mp hother).2
  exact hne (he.trans (List.mem_singleton.mp hkey'))

/-- **One pin is replaced or added, and no other is touched.** -/
theorem lookup_replaced : lookup (replaced entries p) key =
    if p.key = key then some p.fingerprint else lookup entries key := by
  rw [lookup, replaced, List.find?_append, List.find?_filter]
  split
  case isTrue h =>
    obtain rfl := h
    have hnone : entries.find?
        (fun q => decide ((q.key != p.key) = true ∧ (q.key == p.key) = true)) = none := by
      rw [List.find?_eq_none]
      intro q _
      simp
    rw [hnone, Option.none_or, List.find?_singleton, if_pos (beq_self_eq_true _), Option.map_some]
  case isFalse h =>
    have hother : (fun q : Pin engine => decide ((q.key != p.key) = true ∧ (q.key == key) = true)) =
        fun q => q.key == key := by
      funext q
      by_cases hq : q.key = key
      · rw [hq]
        simp [Ne.symm h]
      · simp [hq]
    rw [hother, List.find?_singleton, if_neg (fun he => h (beq_iff_eq.mp he)), Option.or_none,
      lookup]

/-- **Every fingerprint of a certificate can be pinned.** -/
theorem isValidFingerprint_fingerprintOf (hstrict : Base64.Strict engine)
    (sha256 : List UInt8 → Vector UInt8 32) (bytes : List UInt8) :
    isValidFingerprint engine (fingerprintOf sha256 engine bytes) = true := by
  have hone : ∀ c ∈ engine.encode (sha256 bytes).toList, c.utf8Size = 1 := by
    intro c hc
    have hsmall := (toNat_of_isSymbol (hstrict.readsBack.mem_encode _ c hc)).2.2
    exact Char.utf8Size_eq_one_iff.mpr (UInt32.le_iff_toNat_le.mpr (Nat.le_of_lt hsmall))
  have hlength : (engine.encode (sha256 bytes).toList).length = 44 := by
    rw [hstrict.length_encode, Vector.length_toList]
  have hsum : ((engine.encode (sha256 bytes).toList).map Char.utf8Size).sum = 44 := by
    rw [List.map_congr_left hone, List.map_const', hlength]
    rfl
  have hprefix : fingerprintPrefix.isPrefixOf (fingerprintOf sha256 engine bytes) = true :=
    List.isPrefixOf_iff_prefix.mpr ⟨_, rfl⟩
  rw [isValidFingerprint, if_pos hprefix]
  have hdrop : (fingerprintOf sha256 engine bytes).drop fingerprintPrefix.length =
      engine.encode (sha256 bytes).toList := List.drop_left
  dsimp only
  rw [hdrop, hsum, hstrict.decode_encode]
  simp

/-! ### What one call does -/

/-- A pin is refused and the file is as it was, or the file is that of its pins with one of them
replaced or added. -/
theorem pin_cases (engine : TextCodec (List UInt8)) (disk : Disk) (file : PinFile)
    (isServerName : List Char → Bool) (host : List Char) (port : UInt16) (fingerprint : List Char) :
    (∃ why, pin engine disk file isServerName host port fingerprint = (.error why, file)) ∨
      ∃ entries p, disk.reads = true ∧ readAll engine disk file = .ok entries ∧
        p.key = hostKey host port ∧ p.fingerprint = fingerprint ∧
          pin engine disk file isServerName host port fingerprint =
            (.ok (), some (written (replaced entries p))) := by
  rw [pin]
  by_cases hname : isServerName host = false
  · rw [if_pos hname]
    exact .inl ⟨_, rfl⟩
  rw [if_neg hname]
  by_cases hsafe : isSafeKey (hostKey host port) = true
  · rw [dif_pos hsafe]
    by_cases hvalid : isValidFingerprint engine fingerprint = true
    · rw [dif_pos hvalid]
      cases hread : readAll engine disk file with
      | error why => exact .inl ⟨_, rfl⟩
      | ok entries =>
        have hreads : disk.reads = true := by
          by_contra hfalse
          rw [readAll_unreadable hfalse] at hread
          cases hread
        by_cases hdone : (disk.creates && disk.replaces) = true
        · exact .inr ⟨entries, ⟨_, _, hsafe, hvalid⟩, hreads, rfl, rfl, rfl, if_pos hdone⟩
        · exact .inl ⟨_, if_neg hdone⟩
    · rw [dif_neg hvalid]
      exact .inl ⟨_, rfl⟩
  · rw [dif_neg hsafe]
    exact .inl ⟨_, rfl⟩

/-- Is the file within its bound? -/
def Fits (file : PinFile) : Prop := ∀ bytes ∈ file, bytes.length ≤ maxKnownHostsBytes

instance Fits.decidable (file : PinFile) : Decidable (Fits file) :=
  inferInstanceAs (Decidable (∀ bytes ∈ file, bytes.length ≤ maxKnownHostsBytes))

/-- **A pin that is made is in the file that it writes.** -/
theorem readAll_of_pin (hstrict : Base64.Strict engine) {file' : PinFile}
    (hsaid : Says file entries)
    (hpin : pin engine disk file isServerName host port fingerprint = (.ok (), file'))
    (hfits : Fits file') :
    ∃ p : Pin engine, p.key = hostKey host port ∧ p.fingerprint = fingerprint ∧
      readAll engine disk file = .ok entries ∧ Says file' (replaced entries p) ∧
        readAll engine disk file' = .ok (replaced entries p) := by
  obtain ⟨why, hrefused⟩ | ⟨read, p, hreads, hread, hkey, hprint, hmade⟩ :=
    pin_cases engine disk file isServerName host port fingerprint
  · rw [hrefused] at hpin
    cases hpin
  · rw [hmade] at hpin
    obtain rfl := (Prod.mk.inj hpin).2
    have hentries := (readAll_eq_ok_iff hreads).mpr hsaid
    obtain rfl := Except.ok.inj (hread.symm.trans hentries)
    have hsaid' : Says (some (written (replaced read p))) (replaced read p) :=
      says_written hstrict (nodup_replaced hsaid.nodup) (hfits _ rfl)
    exact ⟨p, hkey, hprint, hread, hsaid', (readAll_eq_ok_iff hreads).mpr hsaid'⟩

/-! ### Runs -/

namespace PinRun

/-- The file says what was pinned last in the run, or else before it. -/
def Remembers (first : List (Pin engine)) (r : PinRun) : Prop :=
  ∃ entries : List (Pin engine), Says r.file entries ∧
    ∀ host port, lookup entries (hostKey host port) =
      (r.lastMade host port).or (lookup first (hostKey host port))

theorem ofCalls_concat (calls : List Call) (call : Call) :
    ofCalls engine isServerName file (calls ++ [call]) =
      (ofCalls engine isServerName file calls).after engine isServerName call := by
  rw [ofCalls, List.foldl_concat, ofCalls]

/-- What one call keeps. -/
theorem Remembers.after (hstrict : Base64.Strict engine) {first : List (Pin engine)} {call : Call}
    (h : Remembers first r)
    (hfits : Fits (r.after engine isServerName call).file) :
    Remembers first (r.after engine isServerName call) := by
  cases call with
  | get => exact h
  | pin disk host port fingerprint =>
    obtain ⟨entries, hsaid, hlookup⟩ := h
    obtain ⟨why, hrefused⟩ | ⟨read, q, -, -, -, -, hmade⟩ :=
      pin_cases engine disk r.file isServerName host port fingerprint
    · rw [PinRun.after, hrefused]
      exact ⟨entries, hsaid, hlookup⟩
    · rw [PinRun.after, hmade] at hfits ⊢
      obtain ⟨p, hkey, hprint, -, hsaid', -⟩ := readAll_of_pin hstrict hsaid hmade hfits
      refine ⟨_, hsaid', fun host' port' => ?_⟩
      rw [lookup_replaced, hkey, hprint, lastMade, List.find?_cons]
      by_cases hsame : host = host' ∧ port = port'
      · obtain ⟨rfl, rfl⟩ := hsame
        simp
      · have hne : ¬hostKey host port = hostKey host' port' := fun he => hsame (hostKey_inj.mp he)
        have hother : (host == host' && port == port') = false := by
          rw [Bool.eq_false_iff, Ne, Bool.and_eq_true, beq_iff_eq, beq_iff_eq]
          exact hsame
        rw [if_neg hne, hother]
        exact hlookup host' port'

/-- What every run keeps. -/
theorem remembers_ofCalls (hstrict : Base64.Strict engine) (hsaid : Says file entries)
    (hfits : ∀ part, part <+: calls → Fits (ofCalls engine isServerName file part).file) :
    Remembers entries (ofCalls engine isServerName file calls) := by
  induction calls using List.reverseRecOn with
  | nil => exact ⟨entries, hsaid, fun _ _ => rfl⟩
  | append_singleton calls call ih =>
    have hbefore := ih fun part hpart => hfits part (hpart.trans (List.prefix_append _ _))
    have hall := hfits _ (List.prefix_refl _)
    rw [ofCalls_concat] at hall ⊢
    exact hbefore.after hstrict hall

end PinRun

/-! ### Malformed files -/

theorem Spells.exists_of_mem {ls : List (List Char)} {line : List Char}
    (h : List.Forall₂ Spells ls entries) (hline : line ∈ ls) : ∃ pin ∈ entries, Spells line pin := by
  induction h with
  | nil => cases hline
  | cons hfirst _ ih =>
    rcases List.mem_cons.mp hline with rfl | hrest
    · exact ⟨_, List.mem_cons_self, hfirst⟩
    · obtain ⟨pin, hpin, hspells⟩ := ih hrest
      exact ⟨pin, List.mem_cons_of_mem _ hpin, hspells⟩

/-- Lines that spell pins of different keys spell no two of one key. -/
theorem pairwise_of_nodup {ls : List (List Char)} (h : List.Forall₂ Spells ls entries)
    (hkeys : (entries.map Pin.key).Nodup) : ls.Pairwise fun line line' =>
      ∀ pin pin' : Pin engine, Spells line pin → Spells line' pin' → pin.key ≠ pin'.key := by
  induction h with
  | nil => exact List.Pairwise.nil
  | cons hfirst hrest ih =>
    rw [List.map_cons, List.nodup_cons] at hkeys
    refine List.Pairwise.cons (fun line' hline' pin pin' hpin hpin' he => ?_) (ih hkeys.2)
    obtain ⟨other, hother, hspells⟩ := Spells.exists_of_mem hrest hline'
    obtain rfl := hfirst.unique hpin
    obtain rfl := hspells.unique hpin'
    exact hkeys.1 (he ▸ List.mem_map_of_mem hother)

/-- A malformed file says nothing. -/
theorem Malformed.not_says (h : Malformed engine bytes) : ¬Says (some bytes) entries := by
  rintro ⟨-, text, htext, hspelled⟩
  rcases h with hnone | ⟨text', htext', hbad⟩
  · rw [hnone] at htext
    cases htext
  · obtain rfl := Option.some.inj (htext.symm.trans htext')
    rcases hbad with ⟨line, hline, hspells⟩ | hdup
    · obtain ⟨pin, -, hpin⟩ := Spells.exists_of_mem hspelled.lines hline
      exact hspells pin hpin
    · exact hdup (pairwise_of_nodup hspelled.lines hspelled.keys)

/-- **A malformed file is never read.** -/
theorem Malformed.readAll_eq_error (h : Malformed engine bytes) (disk : Disk) :
    ∃ why, readAll engine disk (some bytes) = .error why := by
  cases hread : readAll engine disk (some bytes) with
  | error why => exact ⟨why, rfl⟩
  | ok entries =>
    by_cases hreads : disk.reads = true
    · exact absurd ((readAll_eq_ok_iff hreads).mp hread) h.not_says
    · rw [readAll_unreadable hreads] at hread
      cases hread

/-- **The pin file never forgets or mixes up a host.** In every run on a file that is missing or
well formed, and that stays within its bound, a pin that is made leaves the pins of before with
its own replaced or added, one that is not leaves the file as it was, and a lookup gives what was
pinned last for that host and port. A malformed file gives an error, and stays. -/
theorem pins_never_forgotten (engine : TextCodec (List UInt8)) (hstrict : Base64.Strict engine)
    (isServerName : List Char → Bool) :
    (∀ file (entries : List (Pin engine)) calls, Says file entries →
      (∀ part, part <+: calls → Fits (PinRun.ofCalls engine isServerName file part).file) →
        ∀ before call after, calls = before ++ call :: after →
          let r := PinRun.ofCalls engine isServerName file before
          (∀ disk host port, call = .get disk host port → disk.reads = true →
            get engine disk r.file host port =
              .ok ((r.lastMade host port).or (lookup entries (hostKey host port)))) ∧
          ∀ disk host port fingerprint, call = .pin disk host port fingerprint →
            (∀ file', pin engine disk r.file isServerName host port fingerprint = (.ok (), file') →
              ∃ (held : List (Pin engine)) (p : Pin engine),
                p.key = hostKey host port ∧ p.fingerprint = fingerprint ∧
                  readAll engine disk r.file = .ok held ∧
                    readAll engine disk file' = .ok (replaced held p)) ∧
            ∀ why file', pin engine disk r.file isServerName host port fingerprint =
              (.error why, file') → file' = r.file) ∧
      ∀ bytes, Malformed engine bytes → ∀ disk host port fingerprint,
        (∃ why, get engine disk (some bytes) host port = .error why) ∧
          ∃ why, pin engine disk (some bytes) isServerName host port fingerprint =
            (.error why, some bytes) := by
  constructor
  · rintro file entries calls hsaid hfits before call after rfl r
    have hpart {part : List Call} (h : part <+: before) : part <+: before ++ call :: after :=
      h.trans (List.prefix_append _ _)
    obtain ⟨held, hheld, hlookup⟩ :=
      PinRun.remembers_ofCalls hstrict hsaid fun part h => hfits part (hpart h)
    refine ⟨?_, ?_⟩
    · rintro disk host port - hreads
      rw [get, (readAll_eq_ok_iff hreads).mpr hheld]
      exact congrArg Except.ok (hlookup host port)
    · rintro disk host port fingerprint rfl
      refine ⟨fun file' hpin => ?_, fun why file' hpin => ?_⟩
      -- the file as this call leaves it is within the bound too, so it reads back
      · have hafter := hfits (before ++ [.pin disk host port fingerprint])
          ⟨after, by rw [List.append_assoc, List.singleton_append]⟩
        rw [PinRun.ofCalls_concat, PinRun.after, hpin] at hafter
        obtain ⟨p, hkey, hprint, hread, -, hread'⟩ := readAll_of_pin hstrict hheld hpin hafter
        exact ⟨held, p, hkey, hprint, hread, hread'⟩
      · obtain ⟨_, hrefused⟩ | ⟨_, _, _, _, _, _, hmade⟩ :=
          pin_cases engine disk r.file isServerName host port fingerprint
        · rw [hrefused] at hpin
          exact (Prod.mk.inj hpin).2.symm
        · rw [hmade] at hpin
          cases hpin
  · intro bytes hbad disk host port fingerprint
    obtain ⟨why, hread⟩ := hbad.readAll_eq_error disk
    refine ⟨⟨.knownHosts why, by rw [get, hread]⟩, ?_⟩
    obtain hrefused | ⟨entries, _, _, hentries, -⟩ :=
      pin_cases engine disk (some bytes) isServerName host port fingerprint
    · exact hrefused
    · rw [hread] at hentries
      cases hentries

/-- A fingerprint is pinned for a host of many colons, and looked up. -/
theorem pins_never_forgotten_colons :
    get Base64.standard ⟨true, true, true⟩ (PinRun.ofCalls Base64.standard (fun _ => true) none
        [.pin ⟨true, true, true⟩ "::1".toList 7
          "sha256:AAAAAAAAAAAAAAAAAAAAAAAAAAAAAAAAAAAAAAAAAAA=".toList]).file "::1".toList 7 =
      .ok (some "sha256:AAAAAAAAAAAAAAAAAAAAAAAAAAAAAAAAAAAAAAAAAAA=".toList) := by
  have hfits : ∀ part, part <+: [Call.pin ⟨true, true, true⟩ "::1".toList 7
      "sha256:AAAAAAAAAAAAAAAAAAAAAAAAAAAAAAAAAAAAAAAAAAA=".toList,
      .get ⟨true, true, true⟩ "::1".toList 7] →
      Fits (PinRun.ofCalls Base64.standard (fun _ => true) none part).file := by
    intro part hpart
    obtain rfl | ⟨rest, rfl, hrest⟩ := List.prefix_cons_iff.mp hpart
    · decide
    · obtain rfl | ⟨last, rfl, hlast⟩ := List.prefix_cons_iff.mp hrest
      · decide +kernel
      · obtain rfl := List.prefix_nil.mp hlast
        decide +kernel
  have h := ((pins_never_forgotten Base64.standard Base64.strict_standard fun _ => true).1
    none [] _ rfl hfits
    [.pin ⟨true, true, true⟩ "::1".toList 7
      "sha256:AAAAAAAAAAAAAAAAAAAAAAAAAAAAAAAAAAAAAAAAAAA=".toList]
    (.get ⟨true, true, true⟩ "::1".toList 7) [] rfl).1 _ _ _ rfl rfl
  rw [h]
  decide +kernel

end KnownHosts

end Client

end KdxHotline
