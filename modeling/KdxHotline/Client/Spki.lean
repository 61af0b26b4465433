import Mathlib.Data.Nat.Log
import KdxHotline.Foundations.Base64
import KdxHotline.Foundations.Bytes

/-!
# The key of a certificate

The client pins a server by the digest of its `subjectPublicKeyInfo`, which it finds by walking
the certificate: an element is a tag, a length and that many bytes of content, and the fields
before the key are stepped over by their tags alone.

In every certificate that is assembled from its fields the walk ends at the key's own field,
whatever the other fields hold (`KdxHotline.Client.pinned_key_is_own`), so that a certificate
issued anew for the same key keeps its fingerprint.
-/

namespace KdxHotline

namespace Client

open Foundations

/-! ### One element -/

/-- One element split off the front of some bytes. -/
structure Tlv where
  tag : UInt8
  /-- The whole element: tag, length and content. -/
  element : List UInt8
  content : List UInt8
  rest : List UInt8
  deriving DecidableEq

/-- The sum of two sizes, if it is a size. -/
def checkedAdd (m n : ℕ) : Option ℕ := if m + n < 2 ^ 64 then some (m + n) else none

/-- The length that an element gives, and how many bytes come before its content. -/
def derLength : List UInt8 → Option (ℕ × ℕ)
  | [] => none
  | first :: afterLen =>
    if first < 0x80 then some (first.toNat, 2)
    else
      let n := (first &&& 0x7F).toNat
      -- a length without end, or an absurd one
      if n = 0 ∨ 4 < n ∨ afterLen.length < n then none
      else some (ofBe (afterLen.take n), 2 + n)

/-- Split one element off the front. -/
def derTlv : List UInt8 → Option Tlv
  | [] => none
  | tag :: afterTag => do
    -- tags of more bytes never come in the fields that are walked
    guard (tag &&& 0x1F ≠ 0x1F)
    let (len, headerLen) ← derLength afterTag
    let stop ← checkedAdd headerLen len
    let input := tag :: afterTag
    if input.length < stop then none
    else some ⟨tag, input.take stop, (input.take stop).drop headerLen, input.drop stop⟩

/-! ### The walk -/

/-- The tag of a sequence. -/
def sequenceTag : UInt8 := 0x30
/-- The tag of an integer. -/
def integerTag : UInt8 := 0x02
/-- The tag of the version, which may be left out. -/
def versionTag : UInt8 := 0xA0

/-- Step over one element of each of the tags. -/
def skipFields : List UInt8 → List UInt8 → Option (List UInt8)
  | [], rest => some rest
  | want :: wants, rest => do
    let field ← derTlv rest
    if field.tag = want then skipFields wants field.rest else none

/-- Walk a certificate to the field of its key. -/
def extractSpki (cert : List UInt8) : Option (List UInt8) := do
  let outer ← derTlv cert
  guard (outer.tag = sequenceTag)
  let tbs ← derTlv outer.content
  guard (tbs.tag = sequenceTag)
  let first ← derTlv tbs.content
  let rest := if first.tag = versionTag then first.rest else tbs.content
  -- serial number, signature algorithm, issuer, validity, subject
  let rest ← skipFields [integerTag, sequenceTag, sequenceTag, sequenceTag, sequenceTag] rest
  let spki ← derTlv rest
  guard (spki.tag = sequenceTag)
  return spki.element

section Fingerprint

variable (sha256 : List UInt8 → Vector UInt8 32) (engine : TextCodec (List UInt8))
  (cert : List UInt8)

/-- The prefix and the digest of some bytes in base64. -/
def fingerprintOf (bytes : List UInt8) : List Char :=
  "sha256:".toList ++ engine.encode (sha256 bytes).toList

/-- The fingerprint of the key, if the certificate can be walked. -/
def trySpkiFingerprint : Option (List Char) := (extractSpki cert).map (fingerprintOf sha256 engine)

/-- The fingerprint of the whole certificate, as pins had it before. -/
def legacyCertFingerprint : List Char := fingerprintOf sha256 engine cert

/-- The fingerprint of the key, or else of the whole certificate. -/
def spkiFingerprint : List Char :=
  (trySpkiFingerprint sha256 engine cert).getD (legacyCertFingerprint sha256 engine cert)

end Fingerprint

/-! ### Assembled certificates -/

/-- A length in as few bytes as it takes. -/
def lengthBytes (n : ℕ) : List UInt8 :=
  if n < 0x80 then [UInt8.ofNat n]
  else UInt8.ofNat (0x80 + (Nat.log 256 n + 1)) :: toBe (Nat.log 256 n + 1) n

/-- An element with its content. -/
def tlv (tag : UInt8) (content : List UInt8) : List UInt8 :=
  tag :: (lengthBytes content.length ++ content)

/-- What a certificate is assembled from: the contents of its fields, and what comes after. -/
structure CertificateParts where
  version : Option (List UInt8)
  serialNumber : List UInt8
  signature : List UInt8
  issuer : List UInt8
  validity : List UInt8
  subject : List UInt8
  keyInfo : List UInt8
  afterKeyInfo : List UInt8
  afterTbs : List UInt8
  afterCertificate : List UInt8

namespace CertificateParts

variable (parts : CertificateParts)

/-- The field of the key, whole. -/
def keyInfoTlv : List UInt8 := tlv sequenceTag parts.keyInfo

/-- The fields between the version and the key. -/
def middle : List (UInt8 × List UInt8) :=
  [(integerTag, parts.serialNumber), (sequenceTag, parts.signature), (sequenceTag, parts.issuer),
    (sequenceTag, parts.validity), (sequenceTag, parts.subject)]

/-- The middle, the key and what follows it. -/
def fromSerial : List UInt8 :=
  parts.middle.flatMap (fun field => tlv field.1 field.2) ++
    (parts.keyInfoTlv ++ parts.afterKeyInfo)

/-- The inner sequence, which is what is signed. -/
def tbs : List UInt8 := (parts.version.elim [] (tlv versionTag)) ++ parts.fromSerial

/-- What the outer sequence holds. -/
def body : List UInt8 := tlv sequenceTag parts.tbs ++ parts.afterTbs

end CertificateParts

/-- A certificate all of whose lengths are below `2 ^ 32`; the longest is that of the whole. -/
structure Certificate extends CertificateParts where
  fits : toCertificateParts.body.length < 2 ^ 32

/-- The bytes of a certificate. -/
def Certificate.encode (cert : Certificate) : List UInt8 :=
  tlv sequenceTag cert.body ++ cert.afterCertificate

/-! ### What is split off -/

/-- Some bytes are an element and what follows it, with nothing lost; the element is a header,
which begins with the tag, and the content. -/
structure Tlv.Splits (t : Tlv) (input : List UInt8) : Prop where
  whole : t.element ++ t.rest = input
  inside : ∃ header, [t.tag] <+: header ∧ 2 ≤ header.length ∧ header ++ t.content = t.element

variable {input rest bytes cert content spki : List UInt8} {wants : List UInt8} {tag : UInt8}
  {t : Tlv} {n len headerLen : ℕ} {fields : List (UInt8 × List UInt8)}

/-- A header has a tag and a length. -/
theorem two_le_of_derLength (h : derLength bytes = some (len, headerLen)) : 2 ≤ headerLen := by
  cases bytes with
  | nil => exact absurd h (by simp [derLength])
  | cons first afterLen =>
    rw [derLength] at h
    split at h
    · obtain ⟨-, rfl⟩ := Prod.mk.inj (Option.some.inj h)
      exact Nat.le_refl 2
    · dsimp only at h
      split at h
      · exact absurd h (by simp)
      · obtain ⟨-, rfl⟩ := Prod.mk.inj (Option.some.inj h)
        exact Nat.le_add_right _ _

theorem checkedAdd_eq {m n sum : ℕ} (h : checkedAdd m n = some sum) : sum = m + n := by
  rw [checkedAdd] at h
  split at h
  · exact (Option.some.inj h).symm
  · exact absurd h (by simp)

/-- **What is split off is an element and its rest.** -/
theorem derTlv_splits (h : derTlv input = some t) : t.Splits input := by
  cases input with
  | nil => exact absurd h (by simp [derTlv])
  | cons tag afterTag =>
    simp only [derTlv, Option.bind_eq_bind, Option.bind_eq_some_iff] at h
    obtain ⟨-, -, ⟨len, headerLen⟩, hlen, stop, hstop, hout⟩ := h
    split at hout
    · exact absurd hout (by simp)
    rename_i hfits
    obtain rfl := Option.some.inj hout
    have htwo : 2 ≤ headerLen := two_le_of_derLength hlen
    obtain rfl := checkedAdd_eq hstop
    have hheader : (((tag :: afterTag).take (headerLen + len)).take headerLen).length = headerLen := by
      simp only [List.length_take]
      omega
    refine ⟨List.take_append_drop _ _, _, ?_, by rw [hheader]; exact htwo,
      List.take_append_drop headerLen _⟩
    -- a header of two bytes or more begins with the first byte
    obtain ⟨k, rfl⟩ := Nat.exists_eq_add_of_le' htwo
    rw [List.take_take, Nat.min_eq_left (Nat.le_add_right _ _)]
    exact ⟨afterTag.take (k + 1), rfl⟩

theorem Tlv.Splits.element_isPrefix (h : t.Splits input) : t.element <+: input := ⟨_, h.whole⟩

theorem Tlv.Splits.rest_isSuffix (h : t.Splits input) : t.rest <:+ input := ⟨_, h.whole⟩

theorem Tlv.Splits.content_isInfix (h : t.Splits input) : t.content <:+: input := by
  obtain ⟨header, -, -, hcontent⟩ := h.inside
  have hsuffix : t.content <:+ t.element := ⟨header, hcontent⟩
  exact hsuffix.isInfix.trans h.element_isPrefix.isInfix

theorem skipFields_isSuffix (h : skipFields wants bytes = some rest) : rest <:+ bytes := by
  induction wants generalizing bytes with
  | nil => exact (Option.some.inj h) ▸ List.suffix_refl _
  | cons want wants ih =>
    simp only [skipFields, Option.bind_eq_bind, Option.bind_eq_some_iff] at h
    obtain ⟨field, hfield, hrest⟩ := h
    split at hrest
    · exact (ih hrest).trans (derTlv_splits hfield).rest_isSuffix
    · exact absurd hrest (by simp)

/-- **The key that is found is a part of the certificate.** -/
theorem extractSpki_isInfix (h : extractSpki cert = some spki) : spki <:+: cert := by
  simp only [extractSpki, Option.bind_eq_bind, Option.bind_eq_some_iff] at h
  obtain ⟨outer, houter, -, -, tbs, htbs, -, -, first, hfirst, rest, hrest, field, hfield, -, -,
    hspki⟩ := h
  obtain rfl := Option.some.inj hspki
  have hskipped : rest <:+ tbs.content := by
    refine (skipFields_isSuffix hrest).trans ?_
    split
    · exact (derTlv_splits hfirst).rest_isSuffix
    · exact List.suffix_refl _
  have htbsContent : tbs.content <:+: cert :=
    (derTlv_splits htbs).content_isInfix.trans (derTlv_splits houter).content_isInfix
  exact ((derTlv_splits hfield).element_isPrefix.isInfix.trans hskipped.isInfix).trans htbsContent

/-! ### What is assembled reads back -/

/-- A first byte says how many bytes of length come after it. -/
theorem longForm {k : ℕ} (h : k < 5) :
    ¬UInt8.ofNat (0x80 + k) < 0x80 ∧ (UInt8.ofNat (0x80 + k) &&& 0x7F).toNat = k := by
  revert k
  decide

/-- A length reads back. -/
theorem derLength_lengthBytes (h : n < 2 ^ 32) :
    derLength (lengthBytes n ++ bytes) = some (n, 1 + (lengthBytes n).length) := by
  rw [lengthBytes]
  split
  next hshort =>
    have htoNat : (UInt8.ofNat n).toNat = n := by
      rw [UInt8.toNat_ofNat', Nat.mod_eq_of_lt (by omega)]
    have hlt : UInt8.ofNat n < 0x80 := UInt8.lt_iff_toNat_lt.mpr (by rw [htoNat]; exact hshort)
    rw [List.singleton_append, derLength, if_pos hlt, htoNat, List.length_singleton]
  next hlong =>
    have hcount : Nat.log 256 n < 4 := Nat.log_lt_of_lt_pow (by omega) (by omega)
    have hspells : n < 256 ^ (Nat.log 256 n + 1) := Nat.lt_pow_succ_log_self (by decide) n
    obtain ⟨hfirst, hk⟩ := longForm (Nat.succ_lt_succ hcount)
    set k := Nat.log 256 n + 1 with hkdef
    have htake : (toBe k n ++ bytes).take k = toBe k n := by
      rw [List.take_append_of_le_length (length_toBe k n).ge, List.take_of_length_le
        (length_toBe k n).le]
    have henough : ¬(k = 0 ∨ 4 < k ∨ (toBe k n ++ bytes).length < k) := by
      rw [List.length_append, length_toBe]
      omega
    rw [List.cons_append, derLength, if_neg hfirst]
    dsimp only
    rw [hk, if_neg henough, htake, ofBe_toBe hspells, List.length_cons, length_toBe]
    refine congrArg some (Prod.ext rfl ?_)
    show 2 + k = 1 + (k + 1)
    omega

/-- A length is of five bytes at most. -/
theorem length_lengthBytes_le (h : n < 2 ^ 32) : (lengthBytes n).length ≤ 5 := by
  have hcount : Nat.log 256 n < 4 ∨ n = 0 := by
    by_cases hn : n = 0
    · exact Or.inr hn
    · exact Or.inl (Nat.log_lt_of_lt_pow hn h)
  rw [lengthBytes]
  split
  · exact Nat.le_add_left 1 4
  · rw [List.length_cons, length_toBe]
    omega

/-- **An element reads back, whatever follows it.** -/
theorem derTlv_tlv (htag : tag &&& 0x1F ≠ 0x1F) (h : content.length < 2 ^ 32) :
    derTlv (tlv tag content ++ rest) = some ⟨tag, tlv tag content, content, rest⟩ := by
  have hheader := length_lengthBytes_le h
  have hlength : (tlv tag content).length =
      1 + (lengthBytes content.length).length + content.length := by
    rw [tlv, List.length_cons, List.length_append]
    omega
  have hderLength : derLength (lengthBytes content.length ++ (content ++ rest)) =
      some (content.length, 1 + (lengthBytes content.length).length) := derLength_lengthBytes h
  have hstop : checkedAdd (1 + (lengthBytes content.length).length) content.length =
      some (tlv tag content).length := by
    rw [checkedAdd, if_pos (by omega), hlength]
  have henough : ¬(tlv tag content ++ rest).length < (tlv tag content).length := by
    rw [List.length_append]
    omega
  -- the header is what comes before the content
  have hcontent : (tlv tag content).drop (1 + (lengthBytes content.length).length) = content := by
    rw [tlv, Nat.add_comm, List.drop_succ_cons, List.drop_left]
  have hinput : tlv tag content ++ rest =
      tag :: (lengthBytes content.length ++ (content ++ rest)) := by
    rw [tlv, List.cons_append, List.append_assoc]
  rw [hinput] at henough
  rw [hinput, derTlv, hderLength]
  simp only [guard, if_pos htag, Option.bind_eq_bind, Option.pure_def, Option.bind_some, hstop,
    if_neg henough]
  rw [← hinput, List.take_left, List.drop_left, hcontent]

/-- Fields are stepped over by their tags. -/
theorem skipFields_fields (hlong : ∀ field ∈ fields, field.2.length < 2 ^ 32)
    (htags : ∀ field ∈ fields, field.1 &&& 0x1F ≠ 0x1F) :
    skipFields (fields.map Prod.fst) (fields.flatMap (fun field => tlv field.1 field.2) ++ rest) =
      some rest := by
  induction fields with
  | nil => rfl
  | cons field fields ih =>
    obtain ⟨hfield, hfields⟩ := List.forall_mem_cons.mp hlong
    obtain ⟨htag, htags⟩ := List.forall_mem_cons.mp htags
    rw [List.map_cons, List.flatMap_cons, List.append_assoc, skipFields, derTlv_tlv htag hfield]
    simp only [Option.bind_eq_bind, Option.bind_some]
    exact ih hfields htags

theorem length_lt_tlv (tag : UInt8) (content : List UInt8) :
    content.length < (tlv tag content).length := by
  rw [tlv, List.length_cons, List.length_append]
  omega

/-- A field is shorter than what it stands in. -/
theorem length_lt_flatMap {field : UInt8 × List UInt8} (h : field ∈ fields) :
    field.2.length < (fields.flatMap fun field => tlv field.1 field.2).length := by
  obtain ⟨before, after, rfl⟩ := List.append_of_mem h
  have hlt := length_lt_tlv field.1 field.2
  rw [List.flatMap_append, List.flatMap_cons, List.length_append, List.length_append]
  omega

namespace CertificateParts

variable (parts : CertificateParts)

theorem length_tbs_lt : parts.tbs.length < parts.body.length := by
  have hlt := length_lt_tlv sequenceTag parts.tbs
  rw [body, List.length_append]
  omega

theorem length_fromSerial_le : parts.fromSerial.length ≤ parts.tbs.length := by
  rw [tbs, List.length_append]
  omega

/-- The walk from the serial number on ends at the key. -/
theorem skipFields_fromSerial (h : parts.fromSerial.length < 2 ^ 32) :
    skipFields [integerTag, sequenceTag, sequenceTag, sequenceTag, sequenceTag] parts.fromSerial =
      some (parts.keyInfoTlv ++ parts.afterKeyInfo) := by
  rw [fromSerial, List.length_append] at h
  refine @skipFields_fields _ parts.middle (fun field hfield => ?_) ?_
  · have hlt := length_lt_flatMap hfield
    omega
  · simp only [middle, List.forall_mem_cons, List.not_mem_nil, false_imp_iff, implies_true]
    decide

theorem derTlv_keyInfo (h : parts.fromSerial.length < 2 ^ 32) :
    derTlv (parts.keyInfoTlv ++ parts.afterKeyInfo) =
      some ⟨sequenceTag, parts.keyInfoTlv, parts.keyInfo, parts.afterKeyInfo⟩ := by
  refine derTlv_tlv (by decide) ?_
  have hlt := length_lt_tlv sequenceTag parts.keyInfo
  rw [fromSerial, keyInfoTlv, List.length_append, List.length_append] at h
  omega

/-- What the first field of the inner sequence is: the version, or the serial number. -/
theorem derTlv_tbs (h : parts.tbs.length < 2 ^ 32) :
    ∃ first, derTlv parts.tbs = some first ∧
      (if first.tag = versionTag then first.rest else parts.tbs) = parts.fromSerial := by
  cases hversion : parts.version with
  | none =>
    have htbs : parts.tbs = parts.fromSerial := by
      rw [tbs, hversion, Option.elim_none, List.nil_append]
    -- without a version the first field is the serial number, whose tag differs
    have hserial : parts.serialNumber.length < 2 ^ 32 := by
      have hmem : (integerTag, parts.serialNumber) ∈ parts.middle := List.mem_cons_self
      have hlt := length_lt_flatMap hmem
      rw [htbs, fromSerial, List.length_append] at h
      exact hlt.trans (Nat.lt_of_le_of_lt (Nat.le_add_right _ _) h)
    rw [htbs, fromSerial, middle, List.flatMap_cons, List.append_assoc]
    have htag : integerTag &&& 0x1F ≠ 0x1F := by decide
    refine ⟨_, derTlv_tlv htag hserial, if_neg ?_⟩
    show ¬integerTag = versionTag
    decide
  | some version =>
    have htbs : parts.tbs = tlv versionTag version ++ parts.fromSerial := by
      rw [tbs, hversion, Option.elim_some]
    have hlt := length_lt_tlv versionTag version
    rw [htbs, List.length_append] at h
    rw [htbs]
    exact ⟨_, derTlv_tlv (by decide) (by omega), if_pos rfl⟩

end CertificateParts

/-- The walk of an assembled certificate ends at its key. -/
theorem Certificate.extractSpki_encode (cert : Certificate) :
    extractSpki cert.encode = some cert.keyInfoTlv := by
  have hbody := cert.fits
  have htbs : cert.tbs.length < 2 ^ 32 := cert.length_tbs_lt.trans hbody
  have hserial : cert.fromSerial.length < 2 ^ 32 :=
    Nat.lt_of_le_of_lt cert.length_fromSerial_le htbs
  have houter : derTlv cert.encode = some ⟨sequenceTag, tlv sequenceTag cert.body, cert.body,
      cert.afterCertificate⟩ := derTlv_tlv (by decide) hbody
  have hinner : derTlv cert.body = some ⟨sequenceTag, tlv sequenceTag cert.tbs, cert.tbs,
      cert.afterTbs⟩ := derTlv_tlv (by decide) htbs
  obtain ⟨first, hfirst, hrest⟩ := cert.derTlv_tbs htbs
  simp only [extractSpki, Option.bind_eq_bind, houter, Option.bind_some, guard, if_true,
    Option.pure_def, hinner, hfirst, hrest, cert.skipFields_fromSerial hserial,
    cert.derTlv_keyInfo hserial]

/-- **The pinned key is the certificate's own.** In every assembled certificate the walk ends at
the field of the key, so that two certificates with the same key have the same fingerprint. And
of any bytes, an element is split off with nothing lost, and what is taken for the key is a part
of them. -/
theorem pinned_key_is_own :
    (∀ cert : Certificate, extractSpki cert.encode = some cert.keyInfoTlv) ∧
      (∀ cert cert' : Certificate, cert.keyInfo = cert'.keyInfo →
        extractSpki cert.encode = extractSpki cert'.encode ∧
          ∀ sha256 engine, spkiFingerprint sha256 engine cert.encode =
            spkiFingerprint sha256 engine cert'.encode) ∧
      (∀ input, derTlv input = none ∨ ∃ t, derTlv input = some t ∧ t.Splits input) ∧
      ∀ bytes spki, extractSpki bytes = some spki → spki <:+: bytes := by
  refine ⟨Certificate.extractSpki_encode, fun cert cert' hkey => ?_, fun input => ?_,
    fun _ _ => extractSpki_isInfix⟩
  · have hsame : extractSpki cert.encode = extractSpki cert'.encode := by
      rw [cert.extractSpki_encode, cert'.extractSpki_encode, CertificateParts.keyInfoTlv, hkey,
        CertificateParts.keyInfoTlv]
    refine ⟨hsame, fun sha256 engine => ?_⟩
    -- the fingerprint is of the key, not of the whole certificate
    have hkeyed (c : Certificate) :
        spkiFingerprint sha256 engine c.encode = fingerprintOf sha256 engine c.keyInfoTlv := by
      rw [spkiFingerprint, trySpkiFingerprint, c.extractSpki_encode, Option.map_some,
        Option.getD_some]
    rw [hkeyed, hkeyed, CertificateParts.keyInfoTlv, hkey, CertificateParts.keyInfoTlv]
  · cases hsplit : derTlv input with
    | none => exact Or.inl rfl
    | some t => exact Or.inr ⟨t, rfl, derTlv_splits hsplit⟩

/-- A certificate and the one issued after it for the same key. -/
theorem pinned_key_is_own_reissued :
    extractSpki [0x30, 16, 0x30, 14, 0x02, 0, 0x30, 0, 0x30, 0, 0x30, 0, 0x30, 0,
      0x30, 2, 8, 9] =
      extractSpki [0x30, 20, 0x30, 18, 0xA0, 1, 2, 0x02, 1, 7, 0x30, 0, 0x30, 0, 0x30, 0, 0x30, 0,
        0x30, 2, 8, 9] := by
  have h := pinned_key_is_own.2.1 ⟨⟨none, [], [], [], [], [], [8, 9], [], [], []⟩, by decide⟩
    ⟨⟨some [2], [7], [], [], [], [], [8, 9], [], [], []⟩, by decide⟩ rfl
  exact h.1

end Client

end KdxHotline
