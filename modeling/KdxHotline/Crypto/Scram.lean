import Mathlib.Algebra.Ring.Nat
import KdxHotline.Crypto.Transcript

/-!
# Verifying a proof

The server's side of a login. A credential is read back from the text it is stored as
(`KdxHotline.Crypto.StoredCredential.decode`), or converted from the password hash that an
older version stored (`KdxHotline.Crypto.StoredCredential.fromLegacyPhc`), and a proof is
verified against it.

What was stored as a text reads back as what it was
(`KdxHotline.Crypto.StoredCredential.decode_encode`). Several texts may read back as one
credential, so the text says more than the credential does.
-/

namespace KdxHotline

namespace Crypto

open Foundations

/-! ### What the libraries do -/

/-- The parameters of an Argon2 hash. -/
structure PhcParams where
  costs : KdfParams
  keyid : List UInt8
  data : List UInt8
  costs_words : costs.Words

/-- A password hash that was parsed, its salt decoded. -/
structure PasswordHash where
  algorithm : String
  version : Option ℕ
  salt : Option (List UInt8)
  params : Option PhcParams
  hash : Option (List UInt8)
  /-- The format has no room for a salt longer than this, and none for an empty one. -/
  salt_bounds : ∀ bytes ∈ salt, bytes ≠ [] ∧ bytes.length ≤ maxSaltLen

/-- The hash functions, and the parser of password hashes. -/
structure Primitives where
  hmac : List UInt8 → List UInt8 → Vector UInt8 32
  sha256 : List UInt8 → Vector UInt8 32
  parsePhc : String → Option PasswordHash

/-! ### Reading a stored credential -/

/-- The name of the format. -/
def credentialScheme : List Char := "kdx-scram-sha256".toList
/-- The version of the format. -/
def credentialVersion : List Char := "v=1".toList

/-- A 32-bit number in decimal, after an optional plus sign. -/
def parseU32 (cs : List Char) : Option ℕ :=
  let digits := if cs.head? = some '+' then cs.tail else cs
  if digits ≠ [] ∧ digits.all Char.isDigit ∧ Nat.ofDigitChars 10 digits 0 < 2 ^ 32 then
    some (Nat.ofDigitChars 10 digits 0)
  else none

/-- The text before the first separator and the text after it. -/
def splitOnce (sep : Char) (cs : List Char) : Option (List Char × List Char) :=
  match cs.dropWhile (· ≠ sep) with
  | _ :: rest => some (cs.takeWhile (· ≠ sep), rest)
  | [] => none

/-- The costs that were read so far. -/
structure CostSlots where
  mCost : Option ℕ
  tCost : Option ℕ
  pCost : Option ℕ

/-- A slot is filled once. -/
def fill (slot : Option ℕ) (value : ℕ) : Option (Option ℕ) :=
  if slot.isSome then none else some (some value)

/-- Read one `key=value`. -/
def CostSlots.read (slots : CostSlots) (kv : List Char) : Option CostSlots := do
  let (key, value) ← splitOnce '=' kv
  let value ← parseU32 value
  if key = ['m'] then return { slots with mCost := ← fill slots.mCost value }
  else if key = ['t'] then return { slots with tCost := ← fill slots.tCost value }
  else if key = ['p'] then return { slots with pCost := ← fill slots.pCost value }
  else none

/-- Read the three costs, in any order. -/
def decodeParams (cs : List Char) : Option KdfParams := do
  let slots ← (cs.splitOn ',').foldlM CostSlots.read ⟨none, none, none⟩
  return ⟨← slots.mCost, ← slots.tCost, ← slots.pCost⟩

/-- The value of a hexadecimal digit. -/
def nibble (c : Char) : Option ℕ :=
  if '0' ≤ c ∧ c ≤ '9' then some (c.toNat - '0'.toNat)
  else if 'a' ≤ c ∧ c ≤ 'f' then some (c.toNat - 'a'.toNat + 10)
  else if 'A' ≤ c ∧ c ≤ 'F' then some (c.toNat - 'A'.toNat + 10)
  else none

/-- Bytes in hexadecimal, of either case. -/
def fromHex : List Char → Option (List UInt8)
  | [] => some []
  | [_] => none
  | hi :: lo :: rest => do
    let hi ← nibble hi
    let lo ← nibble lo
    return UInt8.ofNat (hi * 16 + lo) :: (← fromHex rest)

/-- Bytes as a key, if there are as many as a key has. -/
def toKey (bytes : List UInt8) : Option (Vector UInt8 32) :=
  if h : bytes.toArray.size = 32 then some ⟨bytes.toArray, h⟩ else none

/-- Parse what `encode` writes. -/
def StoredCredential.decode (encoded : String) : Option StoredCredential :=
  match encoded.toList.splitOn '$' with
  | [empty, scheme, version, params, salt, storedKey, serverKey] => do
    guard (empty = [] ∧ scheme = credentialScheme ∧ version = credentialVersion)
    let params ← decodeParams params
    let salt ← fromHex salt
    guard (salt ≠ [] ∧ salt.length ≤ maxSaltLen)
    let storedKey ← fromHex storedKey >>= toKey
    let serverKey ← fromHex serverKey >>= toKey
    return ⟨salt, params, storedKey, serverKey⟩
  | _ => none

/-! ### Converting a legacy hash -/

/-- The keys that a salted password gives. -/
structure Keys where
  clientKey : Vector UInt8 32
  storedKey : Vector UInt8 32
  serverKey : Vector UInt8 32

/-- The keys that follow from a salted password. -/
def Keys.fromSaltedPassword (P : Primitives) (salted : Vector UInt8 32) : Keys :=
  let clientKey := P.hmac salted.toList (asBytes "Client Key")
  ⟨clientKey, P.sha256 clientKey.toList, P.hmac salted.toList (asBytes "Server Key")⟩

/-- The credential that is stored for a salted password. -/
def StoredCredential.fromSaltedPassword (P : Primitives) (salted : Vector UInt8 32)
    (salt : List UInt8) (params : KdfParams) : StoredCredential :=
  let keys := Keys.fromSaltedPassword P salted
  ⟨salt, params, keys.storedKey, keys.serverKey⟩

/-- Convert a legacy hash, whose output is the salted password. -/
def StoredCredential.fromLegacyPhc (P : Primitives) (phc : String) : Option StoredCredential := do
  let parsed ← P.parsePhc phc
  guard (parsed.algorithm = "argon2id" ∧ parsed.version.all (· = 19))
  let salt ← parsed.salt
  let params ← parsed.params
  guard (params.keyid = [] ∧ params.data = [])
  let salted ← parsed.hash >>= toKey
  return fromSaltedPassword P salted salt params.costs

/-! ### Verifying -/

namespace StoredCredential

/-- Recover the client's key from its proof, and accept it if its hash is the stored key.
The answer is signed with the server's key. -/
def verify (P : Primitives) (c : StoredCredential) (message : List UInt8) (proof : Vector UInt8 32) :
    Option (Vector UInt8 32) :=
  let clientSignature := P.hmac c.storedKey.toList message
  let clientKey := proof.zipWith (· ^^^ ·) clientSignature
  if P.sha256 clientKey.toList = c.storedKey then some (P.hmac c.serverKey.toList message) else none

/-- Check the proof of a login. The costs are words by their type. -/
def verifyProof (P : Primitives) (c : StoredCredential) (username : String)
    (challenge channelBinding proof : Vector UInt8 32) : Option (Vector UInt8 32) :=
  if h : c.params.Words then
    c.verify P (AuthContext.authMessage ⟨username, challenge, c.salt, c.params, channelBinding, h⟩)
      proof
  else none

/-- Check the proof of a password change, made for replacing `c` with `new`. -/
def verifyPasswordChangeProof (P : Primitives) (c : StoredCredential) (username : String)
    (challenge channelBinding : Vector UInt8 32) (new : StoredCredential)
    (proof : Vector UInt8 32) : Option (Vector UInt8 32) :=
  if h : c.params.Words ∧ new.params.Words then
    c.verify P (PasswordChangeContext.changeMessage
      ⟨⟨username, challenge, c.salt, c.params, channelBinding, h.1⟩, new, h.2⟩) proof
  else none

end StoredCredential

/-! ### What was written reads back -/

section RoundTrip

variable {n : ℕ} {bytes : List UInt8} {c : StoredCredential}

/-- A separator of the text form. -/
def isSeparator (c : Char) : Bool := c == '$' || c == ',' || c == '='

theorem nibble_hexDigit : ∀ n < 16, nibble (hexDigit n) = some n ∧ isSeparator (hexDigit n) = false := by
  decide

theorem hexDigit_bounds (b : UInt8) : b.toNat / 16 < 16 ∧ b.toNat % 16 < 16 := by
  have hlt := b.toNat_lt
  omega

theorem fromHex_flatMap : ∀ bytes : List UInt8,
    fromHex (bytes.flatMap fun b => [hexDigit (b.toNat / 16), hexDigit (b.toNat % 16)]) = some bytes
  | [] => rfl
  | b :: bytes => by
    obtain ⟨hhi, hlo⟩ := hexDigit_bounds b
    have hsum : b.toNat / 16 * 16 + b.toNat % 16 = b.toNat := by omega
    simp only [List.flatMap_cons, List.cons_append, List.nil_append, fromHex,
      (nibble_hexDigit _ hhi).1, (nibble_hexDigit _ hlo).1, fromHex_flatMap bytes,
      Option.bind_eq_bind, Option.bind_some, hsum, UInt8.ofNat_toNat, pure]

theorem fromHex_toHex (bytes : List UInt8) : fromHex (toHex bytes).toList = some bytes := by
  rw [toHex, String.toList_ofList, fromHex_flatMap]

/-- Hexadecimal has no separator. -/
theorem separator_toHex {d : Char} (hd : isSeparator d = true) : d ∉ (toHex bytes).toList := by
  intro hmem
  rw [toHex, String.toList_ofList, List.mem_flatMap] at hmem
  obtain ⟨b, -, hb⟩ := hmem
  obtain ⟨hhi, hlo⟩ := hexDigit_bounds b
  rw [List.mem_cons, List.mem_singleton] at hb
  rcases hb with rfl | rfl
  · rw [(nibble_hexDigit _ hhi).2] at hd
    cases hd
  · rw [(nibble_hexDigit _ hlo).2] at hd
    cases hd

@[simp] theorem toKey_toList (key : Vector UInt8 32) : toKey key.toList = some key := by
  obtain ⟨bytes, hbytes⟩ := key
  simp [toKey, hbytes]

theorem separator_digits {d : Char} (hd : d.isDigit = false) : d ∉ Nat.toDigits 10 n := by
  intro hmem
  rw [Nat.isDigit_of_mem_toDigits (by decide) (by decide) hmem] at hd
  cases hd

theorem parseU32_digits (hn : n < 2 ^ 32) : parseU32 (Nat.toDigits 10 n) = some n := by
  have hplus : (Nat.toDigits 10 n).head? ≠ some '+' := by
    intro h
    exact separator_digits (by decide) (List.mem_of_head? h)
  have hdigits : (Nat.toDigits 10 n).all Char.isDigit = true :=
    List.all_eq_true.mpr fun c hc => Nat.isDigit_of_mem_toDigits (by decide) (by decide) hc
  simp only [parseU32, if_neg hplus, Nat.ofDigitChars_ten_toDigits]
  exact if_pos ⟨Nat.toDigits_ne_nil, hdigits, hn⟩

theorem splitOnce_key {d : Char} (hd : d ≠ '=') (cs : List Char) :
    splitOnce '=' (d :: '=' :: cs) = some ([d], cs) := by
  simp [splitOnce, hd]

/-- The costs as they are written. -/
def costChars (p : KdfParams) : List Char :=
  'm' :: '=' :: Nat.toDigits 10 p.mCost ++ ',' :: ('t' :: '=' :: Nat.toDigits 10 p.tCost ++
    ',' :: ('p' :: '=' :: Nat.toDigits 10 p.pCost))

theorem read_cost {slots : CostSlots} {d : Char} (hd : d ≠ '=') (hn : n < 2 ^ 32) :
    slots.read (d :: '=' :: Nat.toDigits 10 n) =
      if [d] = ['m'] then return { slots with mCost := ← fill slots.mCost n }
      else if [d] = ['t'] then return { slots with tCost := ← fill slots.tCost n }
      else if [d] = ['p'] then return { slots with pCost := ← fill slots.pCost n }
      else none := by
  simp only [CostSlots.read, splitOnce_key hd, parseU32_digits hn, Option.bind_eq_bind,
    Option.bind_some]

/-- The costs read back. -/
theorem decodeParams_costChars {p : KdfParams} (h : p.Words) : decodeParams (costChars p) = some p := by
  obtain ⟨hm, ht, hp⟩ := h
  have hcost : ∀ {d : Char} {n : ℕ}, d ≠ ',' → ',' ∉ d :: '=' :: Nat.toDigits 10 n := by
    intro d n hd hmem
    rcases List.mem_cons.mp hmem with he | hmem
    · exact hd he.symm
    · rcases List.mem_cons.mp hmem with he | hmem
      · cases he
      · exact separator_digits (by decide) hmem
  have hsplit : (costChars p).splitOn ',' = ['m' :: '=' :: Nat.toDigits 10 p.mCost,
      't' :: '=' :: Nat.toDigits 10 p.tCost, 'p' :: '=' :: Nat.toDigits 10 p.pCost] := by
    rw [costChars, List.splitOn_append_cons_self_of_not_mem (hcost (by decide)),
      List.splitOn_append_cons_self_of_not_mem (hcost (by decide)),
      List.splitOn_eq_singleton (hcost (by decide))]
  have hfirst : CostSlots.read ⟨none, none, none⟩ ('m' :: '=' :: Nat.toDigits 10 p.mCost) =
      some ⟨some p.mCost, none, none⟩ := (read_cost (by decide) hm).trans rfl
  have hsecond : CostSlots.read ⟨some p.mCost, none, none⟩ ('t' :: '=' :: Nat.toDigits 10 p.tCost) =
      some ⟨some p.mCost, some p.tCost, none⟩ := (read_cost (by decide) ht).trans rfl
  have hthird : CostSlots.read ⟨some p.mCost, some p.tCost, none⟩
      ('p' :: '=' :: Nat.toDigits 10 p.pCost) = some ⟨some p.mCost, some p.tCost, some p.pCost⟩ :=
    (read_cost (by decide) hp).trans rfl
  simp only [decodeParams, hsplit, List.foldlM_cons, List.foldlM_nil, hfirst, hsecond, hthird,
    Option.bind_eq_bind, Option.bind_some]
  rfl

theorem credentialScheme_eq : credentialScheme =
    ['k', 'd', 'x', '-', 's', 'c', 'r', 'a', 'm', '-', 's', 'h', 'a', '2', '5', '6'] :=
  String.toList_ofList

theorem credentialVersion_eq : credentialVersion = ['v', '=', '1'] := String.toList_ofList

/-- The text of a credential, part by part. -/
theorem encode_chars (c : StoredCredential) : c.encode.toList =
    [] ++ '$' :: (credentialScheme ++ '$' :: (credentialVersion ++ '$' :: (costChars c.params ++
      '$' :: ((toHex c.salt).toList ++ '$' :: ((toHex c.storedKey.toList).toList ++
        '$' :: (toHex c.serverKey.toList).toList))))) := by
  have hopening : "$kdx-scram-sha256$v=1$m=".toList =
      '$' :: (credentialScheme ++ '$' :: (credentialVersion ++ ['$', 'm', '='])) := by
    rw [credentialScheme_eq, credentialVersion_eq]
    exact String.toList_ofList
  have htime : ",t=".toList = [',', 't', '='] := String.toList_ofList
  have hlanes : ",p=".toList = [',', 'p', '='] := String.toList_ofList
  have hend : "$".toList = ['$'] := String.toList_ofList
  have happend : ∀ a m b t d p e x y z : String,
      (a ++ m ++ b ++ t ++ d ++ p ++ e ++ x ++ e ++ y ++ e ++ z).toList =
        a.toList ++ (m.toList ++ (b.toList ++ (t.toList ++ (d.toList ++ (p.toList ++ (e.toList ++
          (x.toList ++ (e.toList ++ (y.toList ++ (e.toList ++ z.toList)))))))))) := by
    intro a m b t d p e x y z
    simp only [String.toList_append, List.append_assoc]
  have hencode : c.encode = "$kdx-scram-sha256$v=1$m=" ++ c.params.mCost.repr ++ ",t=" ++
      c.params.tCost.repr ++ ",p=" ++ c.params.pCost.repr ++ "$" ++ toHex c.salt ++ "$" ++
      toHex c.storedKey.toList ++ "$" ++ toHex c.serverKey.toList := rfl
  rw [hencode, happend, hopening, htime, hlanes, hend, Nat.toList_repr,
    Nat.toList_repr, Nat.toList_repr, costChars]
  simp only [List.append_assoc, List.cons_append, List.nil_append]

/-- **A credential reads back from its text.** -/
theorem StoredCredential.decode_encode (hwords : c.params.Words) (hne : c.salt ≠ [])
    (hle : c.salt.length ≤ maxSaltLen) : decode c.encode = some c := by
  have hhex : ∀ bytes : List UInt8, '$' ∉ (toHex bytes).toList := fun _ => separator_toHex (by decide)
  have hcosts : '$' ∉ costChars c.params := by
    simp [costChars, separator_digits (show Char.isDigit '$' = false by decide)]
  have hscheme : '$' ∉ credentialScheme ∧ '$' ∉ credentialVersion := by
    rw [credentialScheme_eq, credentialVersion_eq]
    decide
  have hsplit : c.encode.toList.splitOn '$' = [[], credentialScheme, credentialVersion,
      costChars c.params, (toHex c.salt).toList, (toHex c.storedKey.toList).toList,
      (toHex c.serverKey.toList).toList] := by
    rw [encode_chars, List.splitOn_append_cons_self_of_not_mem List.not_mem_nil,
      List.splitOn_append_cons_self_of_not_mem hscheme.1,
      List.splitOn_append_cons_self_of_not_mem hscheme.2,
      List.splitOn_append_cons_self_of_not_mem hcosts,
      List.splitOn_append_cons_self_of_not_mem (hhex _),
      List.splitOn_append_cons_self_of_not_mem (hhex _), List.splitOn_eq_singleton (hhex _)]
  have hguard : ∀ p [Decidable p], p → (guard p : Option Unit) = some () := fun p _ hp => if_pos hp
  have hkey : ∀ key : Vector UInt8 32, fromHex (toHex key.toList).toList >>= toKey = some key := by
    intro key
    rw [fromHex_toHex]
    exact toKey_toList key
  rw [decode, hsplit]
  refine Option.bind_eq_some_iff.mpr ⟨(), hguard _ ⟨rfl, rfl, rfl⟩, ?_⟩
  refine Option.bind_eq_some_iff.mpr ⟨c.params, decodeParams_costChars hwords, ?_⟩
  refine Option.bind_eq_some_iff.mpr ⟨c.salt, fromHex_toHex _, ?_⟩
  refine Option.bind_eq_some_iff.mpr ⟨(), hguard _ ⟨hne, hle⟩, ?_⟩
  refine Option.bind_eq_some_iff.mpr ⟨c.storedKey, hkey _, ?_⟩
  exact Option.bind_eq_some_iff.mpr ⟨c.serverKey, hkey _, rfl⟩

/-- **So does one that was converted.** -/
theorem StoredCredential.decode_fromLegacyPhc {P : Primitives} {phc : String}
    (h : fromLegacyPhc P phc = some c) : decode c.encode = some c := by
  obtain ⟨parsed, -, h⟩ := Option.bind_eq_some_iff.mp h
  obtain ⟨-, -, h⟩ := Option.bind_eq_some_iff.mp h
  obtain ⟨salt, hsalt, h⟩ := Option.bind_eq_some_iff.mp h
  obtain ⟨params, -, h⟩ := Option.bind_eq_some_iff.mp h
  obtain ⟨-, -, h⟩ := Option.bind_eq_some_iff.mp h
  obtain ⟨salted, -, h⟩ := Option.bind_eq_some_iff.mp h
  obtain rfl := Option.some.inj h
  obtain ⟨hne, hle⟩ := parsed.salt_bounds salt hsalt
  exact decode_encode params.costs_words hne hle

theorem KdfParams.checkBounds_eq_ok {p : KdfParams} {saltLen : ℕ} : p.checkBounds saltLen = .ok () ↔
    (minMCost ≤ p.mCost ∧ p.mCost ≤ maxMCost) ∧ (minTCost ≤ p.tCost ∧ p.tCost ≤ maxTCost) ∧
      (minPCost ≤ p.pCost ∧ p.pCost ≤ maxPCost) ∧ minSaltLen ≤ saltLen ∧ saltLen ≤ maxSaltLen := by
  have houtside : ∀ {low high value : ℕ}, outside low high value = false ↔ low ≤ value ∧ value ≤ high := by
    simp [outside]
  simp [checkBounds, checks_pass, houtside]

/-- Costs within the bounds are words. -/
theorem KdfParams.words_of_bounds {p : KdfParams} {saltLen : ℕ} (h : p.checkBounds saltLen = .ok ()) :
    p.Words := by
  obtain ⟨⟨-, hm⟩, ⟨-, ht⟩, ⟨-, hp⟩, -⟩ := checkBounds_eq_ok.mp h
  exact ⟨lt_of_le_of_lt hm (by decide), lt_of_le_of_lt ht (by decide), lt_of_le_of_lt hp (by decide)⟩

/-- **And one whose costs and salt are within the bounds.** -/
theorem StoredCredential.decode_of_bounds (h : c.params.checkBounds c.salt.length = .ok ()) :
    decode c.encode = some c := by
  obtain ⟨-, -, -, hmin, hmax⟩ := KdfParams.checkBounds_eq_ok.mp h
  refine decode_encode (KdfParams.words_of_bounds h) ?_ hmax
  rintro hnil
  rw [hnil] at hmin
  exact absurd hmin (by decide)

/-- A credential that is fit to store has its costs and its salt within the bounds. -/
theorem StoredCredential.bounds_of_acceptable (h : c.checkAcceptable = .ok ()) :
    c.params.checkBounds c.salt.length = .ok () := by
  obtain ⟨_, hbounds, -⟩ := checks_pass.mp h
  exact hbounds

theorem StoredCredential.decode_acceptable (h : c.checkAcceptable = .ok ()) :
    decode c.encode = some c :=
  decode_of_bounds (bounds_of_acceptable h)

end RoundTrip

end Crypto

end KdxHotline
