import KdxHotline.Protocol.Messages.Wire

/-!
# Accounts, logins and roles

The payloads of the handshake, of logging in, and of administering accounts and
their roles. Two of them are not written as the others are: the salt of a login
challenge is not clamped, and a login result is a success for any flag but 0.
-/

namespace KdxHotline

namespace Protocol

open Foundations Reader

/-! ### Handshake -/

/-- The client's first message: its version, and the features it knows. -/
structure HandshakeInit where
  version : UInt8
  features : UInt16
  deriving DecidableEq

namespace HandshakeInit

def encode (m : HandshakeInit) : List UInt8 := putU8 m.version ++ putU16 m.features

def decode : PayloadReader HandshakeInit := do
  needJust 3 "HandshakeInit"
  let version ← getU8
  let features ← getU16
  return { version, features }

theorem reads (b : List UInt8) (m : HandshakeInit) (t : List UInt8) :
    Returns decode b m t ↔ id m = m ∧ b = m.encode ∧ t = [] := by
  obtain ⟨version, features⟩ := m
  constructor
  · intro h
    simp only [decode, returns_bind, returns_needJust, returns_getU8, returns_getU16,
      returns_pure] at h
    obtain ⟨⟨⟩, _, ⟨hlen, rfl⟩, v, _, rfl, f, u, rfl, he, rfl⟩ := h
    obtain ⟨rfl, rfl⟩ := HandshakeInit.mk.inj he
    obtain rfl : u = [] := List.eq_nil_of_length_eq_zero (by simpa [← Nat.add_assoc] using hlen)
    exact ⟨rfl, by simp [encode], rfl⟩
  · rintro ⟨-, rfl, rfl⟩
    simp [decode, encode, returns_bind]

def payload : Payload HandshakeInit :=
  .ofReads encode decode id (fun _ => True) (by simp) (fun _ => rfl) (fun _ => rfl) reads
    (safe_needJust_bind (by simp))

end HandshakeInit

/-- The server's version and features. -/
structure HandshakeResp where
  version : UInt8
  features : UInt16
  deriving DecidableEq

namespace HandshakeResp

def encode (m : HandshakeResp) : List UInt8 := putU8 m.version ++ putU16 m.features

def decode : PayloadReader HandshakeResp := do
  needJust 3 "HandshakeResp"
  let version ← getU8
  let features ← getU16
  return { version, features }

theorem reads (b : List UInt8) (m : HandshakeResp) (t : List UInt8) :
    Returns decode b m t ↔ id m = m ∧ b = m.encode ∧ t = [] := by
  obtain ⟨version, features⟩ := m
  constructor
  · intro h
    simp only [decode, returns_bind, returns_needJust, returns_getU8, returns_getU16,
      returns_pure] at h
    obtain ⟨⟨⟩, _, ⟨hlen, rfl⟩, v, _, rfl, f, u, rfl, he, rfl⟩ := h
    obtain ⟨rfl, rfl⟩ := HandshakeResp.mk.inj he
    obtain rfl : u = [] := List.eq_nil_of_length_eq_zero (by simpa [← Nat.add_assoc] using hlen)
    exact ⟨rfl, by simp [encode], rfl⟩
  · rintro ⟨-, rfl, rfl⟩
    simp [decode, encode, returns_bind]

def payload : Payload HandshakeResp :=
  .ofReads encode decode id (fun _ => True) (by simp) (fun _ => rfl) (fun _ => rfl) reads
    (safe_needJust_bind (by simp))

end HandshakeResp

/-! ### Accounts -/

/-- A credential derived by the client from a new password. -/
structure Credential where
  mCost : UInt32
  tCost : UInt32
  pCost : UInt32
  salt : List UInt8
  storedKey : Vector UInt8 32
  serverKey : Vector UInt8 32
  deriving DecidableEq

namespace Credential

def put (r : Credential) : List UInt8 :=
  putU32 r.mCost ++ putU32 r.tCost ++ putU32 r.pCost ++ putBytes16 r.salt ++ putArray r.storedKey ++
    putArray r.serverKey

def get (context : String) : PayloadReader Credential := do
  needBytes 12 context
  let mCost ← getU32
  let tCost ← getU32
  let pCost ← getU32
  let salt ← getBytes16 context
  needBytes 64 context
  let storedKey ← getArray 32
  let serverKey ← getArray 32
  return { mCost, tCost, pCost, salt, storedKey, serverKey }

/-- The record as it is sent. -/
def clamp (r : Credential) : Credential :=
  { r with salt := clampBytes r.salt }

def Fits (r : Credential) : Prop := FitsBytes r.salt

theorem clamp_eq_self {r : Credential} : r.clamp = r ↔ r.Fits := by
  obtain ⟨mCost, tCost, pCost, salt, storedKey, serverKey⟩ := r
  simp [clamp, Fits, clampBytes_eq_self]

theorem put_clamp (r : Credential) : r.clamp.put = r.put := by
  simp [put, clamp]

theorem clamp_clamp (r : Credential) : r.clamp.clamp = r.clamp := by
  simp [clamp]

theorem returns_get {context : String} {b t : List UInt8} {r : Credential} :
    Returns (get context) b r t ↔ r.clamp = r ∧ b = r.put ++ t := by
  obtain ⟨mCost, tCost, pCost, salt, storedKey, serverKey⟩ := r
  simp +arith +contextual [get, put, clamp, returns_bind, and_assoc, and_comm, and_left_comm]

theorem safe_get (context : String) : Safe 0 (get context) := by
  simp [get]

end Credential

/-- A new account, with the credential the client has derived. -/
structure AccountCreate where
  username : String
  credential : Credential
  baseClass : UInt8
  granted : UInt32
  revoked : UInt32
  deriving DecidableEq

namespace AccountCreate

def encode (m : AccountCreate) : List UInt8 :=
  putStr m.username ++ m.credential.put ++ putU8 m.baseClass ++ putU32 m.granted ++ putU32 m.revoked

def decode : PayloadReader AccountCreate := do
  let username ← getStr "AccountCreate"
  let credential ← Credential.get "AccountCreate"
  needBytes (1 + 4 + 4) "AccountCreate"
  let baseClass ← getU8
  let granted ← getU32
  let revoked ← getU32
  expectEnd "AccountCreate"
  return { username, credential, baseClass, granted, revoked }

def clamp (m : AccountCreate) : AccountCreate :=
  { m with username := clampText m.username, credential := m.credential.clamp }

def Fits (m : AccountCreate) : Prop := FitsText m.username ∧ m.credential.Fits

theorem clamp_eq_self {m : AccountCreate} : m.clamp = m ↔ m.Fits := by
  obtain ⟨username, credential, baseClass, granted, revoked⟩ := m
  simp [clamp, Fits, clampText_eq_self, Credential.clamp_eq_self]

theorem reads (b : List UInt8) (m : AccountCreate) (t : List UInt8) :
    Returns decode b m t ↔ m.clamp = m ∧ b = m.encode ∧ t = [] := by
  obtain ⟨username, credential, baseClass, granted, revoked⟩ := m
  simp +arith [decode, encode, clamp, returns_bind, Credential.returns_get, and_assoc]
  tauto

def payload : Payload AccountCreate :=
  .ofReads encode decode clamp Fits clamp_eq_self
    (by simp [encode, clamp, Credential.put_clamp]) (by simp [clamp, Credential.clamp_clamp])
    reads (by simp [decode, safe_bind_record (Credential.safe_get _) Credential.returns_get])

end AccountCreate

/-- A new credential for an account. -/
structure AccountSetPassword where
  username : String
  credential : Credential
  deriving DecidableEq

namespace AccountSetPassword

def encode (m : AccountSetPassword) : List UInt8 := putStr m.username ++ m.credential.put

def decode : PayloadReader AccountSetPassword := do
  let username ← getStr "AccountSetPassword"
  let credential ← Credential.get "AccountSetPassword"
  expectEnd "AccountSetPassword"
  return { username, credential }

def clamp (m : AccountSetPassword) : AccountSetPassword :=
  { username := clampText m.username, credential := m.credential.clamp }

def Fits (m : AccountSetPassword) : Prop := FitsText m.username ∧ m.credential.Fits

theorem clamp_eq_self {m : AccountSetPassword} : m.clamp = m ↔ m.Fits := by
  obtain ⟨username, credential⟩ := m
  simp [clamp, Fits, clampText_eq_self, Credential.clamp_eq_self]

theorem reads (b : List UInt8) (m : AccountSetPassword) (t : List UInt8) :
    Returns decode b m t ↔ m.clamp = m ∧ b = m.encode ∧ t = [] := by
  obtain ⟨username, credential⟩ := m
  simp [decode, encode, clamp, returns_bind, Credential.returns_get, and_assoc]
  tauto

def payload : Payload AccountSetPassword :=
  .ofReads encode decode clamp Fits clamp_eq_self
    (by simp [encode, clamp, Credential.put_clamp]) (by simp [clamp, Credential.clamp_clamp])
    reads (by simp [decode, safe_bind_record (Credential.safe_get _) Credential.returns_get])

end AccountSetPassword

/-- A new class and new privileges for an account. -/
structure AccountUpdate where
  username : String
  baseClass : UInt8
  granted : UInt32
  revoked : UInt32
  deriving DecidableEq

namespace AccountUpdate

def encode (m : AccountUpdate) : List UInt8 :=
  putStr m.username ++ putU8 m.baseClass ++ putU32 m.granted ++ putU32 m.revoked

def decode : PayloadReader AccountUpdate := do
  let username ← getStr "AccountUpdate"
  needBytes (1 + 4 + 4) "AccountUpdate"
  let baseClass ← getU8
  let granted ← getU32
  let revoked ← getU32
  expectEnd "AccountUpdate"
  return { username, baseClass, granted, revoked }

def clamp (m : AccountUpdate) : AccountUpdate :=
  { m with username := clampText m.username }

def Fits (m : AccountUpdate) : Prop := FitsText m.username

theorem clamp_eq_self {m : AccountUpdate} : m.clamp = m ↔ m.Fits := by
  obtain ⟨username, baseClass, granted, revoked⟩ := m
  simp [clamp, Fits, clampText_eq_self]

theorem reads (b : List UInt8) (m : AccountUpdate) (t : List UInt8) :
    Returns decode b m t ↔ m.clamp = m ∧ b = m.encode ∧ t = [] := by
  obtain ⟨username, baseClass, granted, revoked⟩ := m
  simp +arith [decode, encode, clamp, returns_bind, and_assoc]

def payload : Payload AccountUpdate :=
  .ofReads encode decode clamp Fits clamp_eq_self
    (by simp [encode, clamp]) (by simp [clamp]) reads (by simp [decode])

end AccountUpdate

/-- What accounts are there? -/
structure AccountListRequest where
  deriving DecidableEq

def AccountListRequest.payload : Payload AccountListRequest :=
  (emptyPayload "AccountListRequest").as (fun _ => ⟨⟩) (fun _ => ()) (fun _ => rfl)
    fun _ => rfl

/-- An account as the accounts window shows it. -/
structure AccountSummary where
  username : String
  baseClass : UInt8
  granted : UInt32
  revoked : UInt32
  deriving DecidableEq

namespace AccountSummary

def put (r : AccountSummary) : List UInt8 :=
  putStr r.username ++ putU8 r.baseClass ++ putU32 r.granted ++ putU32 r.revoked

def get (context : String) : PayloadReader AccountSummary := do
  let username ← getStr context
  needBytes (1 + 4 + 4) context
  let baseClass ← getU8
  let granted ← getU32
  let revoked ← getU32
  return { username, baseClass, granted, revoked }

/-- The record as it is sent. -/
def clamp (r : AccountSummary) : AccountSummary :=
  { r with username := clampText r.username }

def Fits (r : AccountSummary) : Prop := FitsText r.username

theorem clamp_eq_self {r : AccountSummary} : r.clamp = r ↔ r.Fits := by
  obtain ⟨username, baseClass, granted, revoked⟩ := r
  simp [clamp, Fits, clampText_eq_self]

theorem put_clamp (r : AccountSummary) : r.clamp.put = r.put := by
  simp [put, clamp]

theorem clamp_clamp (r : AccountSummary) : r.clamp.clamp = r.clamp := by
  simp [clamp]

theorem returns_get {context : String} {b t : List UInt8} {r : AccountSummary} :
    Returns (get context) b r t ↔ r.clamp = r ∧ b = r.put ++ t := by
  obtain ⟨username, baseClass, granted, revoked⟩ := r
  simp +arith [get, put, clamp, returns_bind, and_assoc]

theorem safe_get (context : String) : Safe 0 (get context) := by
  simp [get]

end AccountSummary

/-- The accounts. -/
structure AccountListResponse where
  accounts : List AccountSummary
  deriving DecidableEq

namespace AccountListResponse

def encode (m : AccountListResponse) : List UInt8 := putList32 AccountSummary.put m.accounts

def decode : PayloadReader AccountListResponse := do
  needBytes 4 "AccountListResponse"
  let accounts ← getList32 (AccountSummary.get "AccountListResponse")
  expectEnd "AccountListResponse"
  return { accounts }

def clamp (m : AccountListResponse) : AccountListResponse :=
  { accounts := clampList32 AccountSummary.clamp m.accounts }

def Fits (m : AccountListResponse) : Prop := FitsList32 AccountSummary.Fits m.accounts

theorem clamp_eq_self {m : AccountListResponse} : m.clamp = m ↔ m.Fits := by
  obtain ⟨accounts⟩ := m
  simp [clamp, Fits, clampList32_eq_self AccountSummary.clamp_eq_self]

theorem reads (b : List UInt8) (m : AccountListResponse) (t : List UInt8) :
    Returns decode b m t ↔ m.clamp = m ∧ b = m.encode ∧ t = [] := by
  obtain ⟨accounts⟩ := m
  simp +arith +contextual [decode, encode, clamp, returns_bind,
    returns_getList32 AccountSummary.returns_get, and_assoc]

def payload : Payload AccountListResponse :=
  .ofReads encode decode clamp Fits clamp_eq_self
    (by simp [encode, clamp, putList32_clampList32 AccountSummary.put_clamp])
    (by simp [clamp, clampList32_clampList32 AccountSummary.clamp_clamp]) reads
    (by simp [decode, safe_getList32_bind (AccountSummary.safe_get _) AccountSummary.returns_get])

end AccountListResponse

/-! ### Logging in -/

/-- The name of who wants to log in. -/
structure AuthRequest where
  username : String
  deriving DecidableEq

def AuthRequest.payload : Payload AuthRequest :=
  (strPayload "AuthRequest").as AuthRequest.mk AuthRequest.username
    (fun _ => rfl) fun _ => rfl

/-- The challenge of a login, and what the client needs to answer it. -/
structure AuthChallenge where
  challenge : Vector UInt8 32
  salt : List UInt8
  mCost : UInt32
  tCost : UInt32
  pCost : UInt32
  deriving DecidableEq

namespace AuthChallenge

/-- The length of the salt wraps instead of being clamped. -/
def encode (m : AuthChallenge) : List UInt8 :=
  putArray m.challenge ++ putU32 m.mCost ++ putU32 m.tCost ++ putU32 m.pCost ++
    putU16 (UInt16.ofNat m.salt.length) ++ m.salt

def decode : PayloadReader AuthChallenge := do
  needBytes (32 + 12 + 2) "AuthChallenge"
  let challenge ← getArray 32
  let mCost ← getU32
  let tCost ← getU32
  let pCost ← getU32
  let saltLen ← getU16
  needJust saltLen.toNat "AuthChallenge"
  let salt ← getRest
  return { challenge, salt, mCost, tCost, pCost }

theorem reads {b t : List UInt8} {m : AuthChallenge} :
    Returns decode b m t ↔ m.salt.length ≤ maxU16Len ∧ b = m.encode ∧ t = [] := by
  obtain ⟨challenge, salt, mCost, tCost, pCost⟩ := m
  simp only [decode, returns_bind, returns_needBytes, returns_getArray', returns_getU32,
    returns_getU16, returns_needJust, returns_getRest, returns_pure]
  constructor
  · rintro ⟨⟨⟩, _, ⟨-, rfl⟩, c, _, rfl, mc, _, rfl, tc, _, rfl, pc, _, rfl, len, _, rfl, ⟨⟩, _,
      ⟨hlen, rfl⟩, s, _, ⟨rfl, rfl⟩, he, rfl⟩
    have hlt := len.toNat_lt
    cases he
    refine ⟨by rw [hlen, maxU16Len]; omega, ?_, rfl⟩
    simp [encode, hlen]
  · rintro ⟨hle, rfl, rfl⟩
    have hlen : (UInt16.ofNat salt.length).toNat = salt.length := by
      rw [← min_eq_left hle, toNat_ofNat_min16]
    refine ⟨(), _, ⟨?_, rfl⟩, challenge, _, ?_, mCost, _, rfl, tCost, _, rfl, pCost, _, rfl,
      UInt16.ofNat salt.length, salt, rfl, (), salt, ⟨hlen.symm, rfl⟩, salt, [], ⟨rfl, rfl⟩, rfl, rfl⟩
    · simp [encode, ← Nat.add_assoc]
    · simp [encode]

def payload : Payload AuthChallenge where
  encode := encode
  decode := decode
  clamp := id
  Fits _ := True
  Sendable m := m.salt.length ≤ maxU16Len
  Canonical _ := True
  clamp_eq_self := by simp
  decode_encode h := reads.mpr ⟨h, rfl, rfl⟩
  encode_decode _ h := ⟨(reads.mp h).2.1.symm, (reads.mp h).2.2⟩
  safe := by
    simp only [decode]
    simp
    intro _ _ _ _ len
    exact safe_needJust_bind (by simp [safe_getRest])

end AuthChallenge

/-- The proof that answers a challenge. -/
structure AuthResponse where
  response : Vector UInt8 32
  deriving DecidableEq

namespace AuthResponse

def encode (m : AuthResponse) : List UInt8 := putArray m.response

def decode : PayloadReader AuthResponse := do
  let response ← getLast 32 "AuthResponse"
  return { response }

def payload : Payload AuthResponse :=
  .ofReads encode decode (fun m => m) (fun _ => True) (by simp) (fun _ => rfl) (fun _ => rfl)
    (by
      rintro b ⟨response⟩ t
      simp [decode, encode])
    (by simp [decode])

end AuthResponse

/-- The outcome of a login. -/
structure AuthResult where
  success : Bool
  sessionId : Vector UInt8 16
  class_ : UInt8
  privileges : UInt32
  message : String
  serverSignature : Vector UInt8 32
  deriving DecidableEq

namespace AuthResult

/-- What follows the flag. -/
def encodeTail (m : AuthResult) : List UInt8 :=
  putArray m.sessionId ++ putU8 m.class_ ++ putU32 m.privileges ++ putStr m.message ++
    putArray m.serverSignature

def encode (m : AuthResult) : List UInt8 := putBool m.success ++ m.encodeTail

/-- Any flag but 0 is a success. -/
def decode : PayloadReader AuthResult := do
  needBytes (1 + 16 + 1 + 4 + 2) "AuthResult"
  let flag ← getU8
  let success := decide (flag ≠ 0)
  let sessionId ← getArray 16
  let class_ ← getU8
  let privileges ← getU32
  let message ← getStr "AuthResult"
  let serverSignature ← getLast 32 "AuthResult"
  return { success, sessionId, class_, privileges, message, serverSignature }

def clamp (m : AuthResult) : AuthResult := { m with message := clampText m.message }

theorem reads {b t : List UInt8} {m : AuthResult} : Returns decode b m t ↔
    m.clamp = m ∧ (∃ flag, m.success = decide (flag ≠ 0) ∧ b = putU8 flag ++ m.encodeTail) ∧
      t = [] := by
  obtain ⟨success, sessionId, class_, privileges, message, serverSignature⟩ := m
  simp only [decode, clamp, encodeTail, returns_bind, returns_needBytes, returns_getU8,
    returns_getArray', returns_getU32, returns_getStr, returns_getLast, returns_pure]
  constructor
  · rintro ⟨⟨⟩, _, ⟨-, rfl⟩, flag, _, rfl, i, _, rfl, c, _, rfl, p, _, rfl, s, _, ⟨hs, rfl⟩, g, _,
      ⟨rfl, rfl⟩, he, rfl⟩
    cases he
    exact ⟨by rw [hs], ⟨flag, rfl, by simp⟩, rfl⟩
  · rintro ⟨hs, ⟨flag, rfl, rfl⟩, rfl⟩
    have htext := two_le_length_putStr message
    refine ⟨(), _, ⟨?_, rfl⟩, flag, _, rfl, sessionId, _, ?_, class_, _, rfl, privileges, _, rfl,
      message, _, ⟨?_, rfl⟩, serverSignature, [], ⟨rfl, rfl⟩, rfl, rfl⟩
    · simp only [List.length_append, length_putU8, length_putArray, length_putU32]
      omega
    · simp
    · simpa using hs

/-- Of the successes only the flag 1 is ever written. -/
def payload : Payload AuthResult where
  encode := encode
  decode := decode
  clamp := clamp
  Fits m := FitsText m.message
  Sendable _ := True
  Canonical b := b.head? = some 0 ∨ b.head? = some 1
  clamp_eq_self {m} := by
    obtain ⟨success, sessionId, class_, privileges, message, serverSignature⟩ := m
    simp [clamp, clampText_eq_self]
  decode_encode {m} _ := by
    refine reads.mpr ⟨by simp [clamp], ⟨if m.success then 1 else 0, ?_, ?_⟩, rfl⟩
    · cases hs : m.success <;> simp [clamp, hs]
    · simp [encode, putBool, encodeTail, clamp]
  encode_decode {b m t} hb h := by
    obtain ⟨-, ⟨flag, hs, rfl⟩, rfl⟩ := reads.mp h
    refine ⟨?_, rfl⟩
    simp only [putU8, List.cons_append, List.head?_cons, Option.some.injEq] at hb
    rcases hb with rfl | rfl
    · simp [encode, hs, putBool]
    · simp [encode, hs, putBool]
  safe := by simp [decode]

end AuthResult

/-- The wish to change one's own password. -/
structure PasswordChangeBegin where
  deriving DecidableEq

def PasswordChangeBegin.payload : Payload PasswordChangeBegin :=
  (emptyPayload "PasswordChangeBegin").as (fun _ => ⟨⟩) (fun _ => ()) (fun _ => rfl)
    fun _ => rfl

/-- What the proof of the current password is made for. -/
structure PasswordChangeChallenge where
  challenge : Vector UInt8 32
  salt : List UInt8
  mCost : UInt32
  tCost : UInt32
  pCost : UInt32
  deriving DecidableEq

namespace PasswordChangeChallenge

def encode (m : PasswordChangeChallenge) : List UInt8 :=
  putArray m.challenge ++ putU32 m.mCost ++ putU32 m.tCost ++ putU32 m.pCost ++ putBytes16 m.salt

def decode : PayloadReader PasswordChangeChallenge := do
  needBytes (32 + 12) "PasswordChangeChallenge"
  let challenge ← getArray 32
  let mCost ← getU32
  let tCost ← getU32
  let pCost ← getU32
  let salt ← getBytes16 "PasswordChangeChallenge"
  expectEnd "PasswordChangeChallenge"
  return { challenge, salt, mCost, tCost, pCost }

def clamp (m : PasswordChangeChallenge) : PasswordChangeChallenge :=
  { m with salt := clampBytes m.salt }

def Fits (m : PasswordChangeChallenge) : Prop := FitsBytes m.salt

theorem clamp_eq_self {m : PasswordChangeChallenge} : m.clamp = m ↔ m.Fits := by
  obtain ⟨challenge, salt, mCost, tCost, pCost⟩ := m
  simp [clamp, Fits, clampBytes_eq_self]

theorem reads (b : List UInt8) (m : PasswordChangeChallenge) (t : List UInt8) :
    Returns decode b m t ↔ m.clamp = m ∧ b = m.encode ∧ t = [] := by
  obtain ⟨challenge, salt, mCost, tCost, pCost⟩ := m
  simp +arith +contextual [decode, encode, clamp, returns_bind, and_assoc, and_comm,
    and_left_comm]

def payload : Payload PasswordChangeChallenge :=
  .ofReads encode decode clamp Fits clamp_eq_self
    (by simp [encode, clamp]) (by simp [clamp]) reads (by simp [decode])

end PasswordChangeChallenge

/-- The proof of the current password, with the credential of the new one. -/
structure PasswordChangeProof where
  proof : Vector UInt8 32
  credential : Credential
  deriving DecidableEq

namespace PasswordChangeProof

def encode (m : PasswordChangeProof) : List UInt8 := putArray m.proof ++ m.credential.put

def decode : PayloadReader PasswordChangeProof := do
  needBytes 32 "PasswordChangeProof"
  let proof ← getArray 32
  let credential ← Credential.get "PasswordChangeProof"
  expectEnd "PasswordChangeProof"
  return { proof, credential }

def clamp (m : PasswordChangeProof) : PasswordChangeProof :=
  { m with credential := m.credential.clamp }

def Fits (m : PasswordChangeProof) : Prop := m.credential.Fits

theorem clamp_eq_self {m : PasswordChangeProof} : m.clamp = m ↔ m.Fits := by
  obtain ⟨proof, credential⟩ := m
  simp [clamp, Fits, Credential.clamp_eq_self]

theorem reads (b : List UInt8) (m : PasswordChangeProof) (t : List UInt8) :
    Returns decode b m t ↔ m.clamp = m ∧ b = m.encode ∧ t = [] := by
  obtain ⟨proof, credential⟩ := m
  simp +arith +contextual [decode, encode, clamp, returns_bind, Credential.returns_get,
    and_assoc, and_comm, and_left_comm]

def payload : Payload PasswordChangeProof :=
  .ofReads encode decode clamp Fits clamp_eq_self
    (by simp [encode, clamp, Credential.put_clamp]) (by simp [clamp, Credential.clamp_clamp])
    reads (by simp [decode, safe_bind_record (Credential.safe_get _) Credential.returns_get])

end PasswordChangeProof

/-- Whether the password was changed, and the server's signature. -/
structure PasswordChangeResult where
  success : Bool
  message : String
  serverSignature : Vector UInt8 32
  deriving DecidableEq

namespace PasswordChangeResult

def encode (m : PasswordChangeResult) : List UInt8 :=
  putBool m.success ++ putStr m.message ++ putArray m.serverSignature

def decode : PayloadReader PasswordChangeResult := do
  let success ← getBool "PasswordChangeResult"
  let message ← getStr "PasswordChangeResult"
  let serverSignature ← getLast 32 "PasswordChangeResult"
  return { success, message, serverSignature }

def clamp (m : PasswordChangeResult) : PasswordChangeResult :=
  { m with message := clampText m.message }

def payload : Payload PasswordChangeResult :=
  .ofReads encode decode clamp (fun m => FitsText m.message)
    (by
      rintro ⟨success, message, serverSignature⟩
      simp [clamp, clampText_eq_self])
    (by simp [encode, clamp]) (by simp [clamp])
    (by
      rintro b ⟨success, message, serverSignature⟩ t
      simp [decode, encode, clamp, returns_bind, and_assoc, and_comm, and_left_comm])
    (by simp [decode])

end PasswordChangeResult

/-! ### Roles -/

/-- A role: a bundle of privileges an account may hold. -/
structure RoleInfo where
  id : Vector UInt8 16
  name : String
  privileges : UInt32
  rank : Int32
  color : String
  deriving DecidableEq

namespace RoleInfo

def put (r : RoleInfo) : List UInt8 :=
  putArray r.id ++ putStr r.name ++ putU32 r.privileges ++ putI32 r.rank ++ putStr r.color

def get (context : String) : PayloadReader RoleInfo := do
  needBytes 16 context
  let id ← getArray 16
  let name ← getStr context
  needBytes (4 + 4) context
  let privileges ← getU32
  let rank ← getI32
  let color ← getStr context
  return { id, name, privileges, rank, color }

/-- The record as it is sent. -/
def clamp (r : RoleInfo) : RoleInfo :=
  { r with name := clampText r.name, color := clampText r.color }

def Fits (r : RoleInfo) : Prop := FitsText r.name ∧ FitsText r.color

theorem clamp_eq_self {r : RoleInfo} : r.clamp = r ↔ r.Fits := by
  obtain ⟨id, name, privileges, rank, color⟩ := r
  simp [clamp, Fits, clampText_eq_self]

theorem put_clamp (r : RoleInfo) : r.clamp.put = r.put := by
  simp [put, clamp]

theorem clamp_clamp (r : RoleInfo) : r.clamp.clamp = r.clamp := by
  simp [clamp]

theorem returns_get {context : String} {b t : List UInt8} {r : RoleInfo} :
    Returns (get context) b r t ↔ r.clamp = r ∧ b = r.put ++ t := by
  obtain ⟨id, name, privileges, rank, color⟩ := r
  simp +arith +contextual [get, put, clamp, returns_bind, and_assoc, and_comm, and_left_comm]

theorem safe_get (context : String) : Safe 0 (get context) := by
  simp [get]

end RoleInfo

/-- What roles are there? -/
structure RoleListRequest where
  deriving DecidableEq

def RoleListRequest.payload : Payload RoleListRequest :=
  (emptyPayload "RoleListRequest").as (fun _ => ⟨⟩) (fun _ => ()) (fun _ => rfl)
    fun _ => rfl

/-- The roles. -/
structure RoleListResponse where
  roles : List RoleInfo
  deriving DecidableEq

namespace RoleListResponse

def encode (m : RoleListResponse) : List UInt8 := putList16 RoleInfo.put m.roles

def decode : PayloadReader RoleListResponse := do
  needBytes 2 "RoleListResponse"
  let roles ← getList16 (RoleInfo.get "RoleInfo")
  expectEnd "RoleListResponse"
  return { roles }

def clamp (m : RoleListResponse) : RoleListResponse :=
  { roles := clampList16 RoleInfo.clamp m.roles }

def Fits (m : RoleListResponse) : Prop := FitsList16 RoleInfo.Fits m.roles

theorem clamp_eq_self {m : RoleListResponse} : m.clamp = m ↔ m.Fits := by
  obtain ⟨roles⟩ := m
  simp [clamp, Fits, clampList16_eq_self RoleInfo.clamp_eq_self]

theorem reads (b : List UInt8) (m : RoleListResponse) (t : List UInt8) :
    Returns decode b m t ↔ m.clamp = m ∧ b = m.encode ∧ t = [] := by
  obtain ⟨roles⟩ := m
  simp +arith +contextual [decode, encode, clamp, returns_bind,
    returns_getList16 RoleInfo.returns_get, and_assoc]

def payload : Payload RoleListResponse :=
  .ofReads encode decode clamp Fits clamp_eq_self
    (by simp [encode, clamp, putList16_clampList16 RoleInfo.put_clamp])
    (by simp [clamp, clampList16_clampList16 RoleInfo.clamp_clamp]) reads
    (by simp [decode, safe_getList16_bind (RoleInfo.safe_get _) RoleInfo.returns_get])

end RoleListResponse

/-- A new role. -/
structure RoleCreate where
  name : String
  privileges : UInt32
  rank : Int32
  color : String
  deriving DecidableEq

namespace RoleCreate

def encode (m : RoleCreate) : List UInt8 :=
  putStr m.name ++ putU32 m.privileges ++ putI32 m.rank ++ putStr m.color

def decode : PayloadReader RoleCreate := do
  let name ← getStr "RoleCreate"
  needBytes (4 + 4) "RoleCreate"
  let privileges ← getU32
  let rank ← getI32
  let color ← getStr "RoleCreate"
  expectEnd "RoleCreate"
  return { name, privileges, rank, color }

def clamp (m : RoleCreate) : RoleCreate :=
  { m with name := clampText m.name, color := clampText m.color }

def Fits (m : RoleCreate) : Prop := FitsText m.name ∧ FitsText m.color

theorem clamp_eq_self {m : RoleCreate} : m.clamp = m ↔ m.Fits := by
  obtain ⟨name, privileges, rank, color⟩ := m
  simp [clamp, Fits, clampText_eq_self]

theorem reads (b : List UInt8) (m : RoleCreate) (t : List UInt8) :
    Returns decode b m t ↔ m.clamp = m ∧ b = m.encode ∧ t = [] := by
  obtain ⟨name, privileges, rank, color⟩ := m
  simp +arith [decode, encode, clamp, returns_bind, and_assoc]
  tauto

def payload : Payload RoleCreate :=
  .ofReads encode decode clamp Fits clamp_eq_self
    (by simp [encode, clamp]) (by simp [clamp]) reads (by simp [decode])

end RoleCreate

/-- A role as it shall be. -/
structure RoleUpdate where
  id : Vector UInt8 16
  name : String
  privileges : UInt32
  rank : Int32
  color : String
  deriving DecidableEq

namespace RoleUpdate

def encode (m : RoleUpdate) : List UInt8 :=
  putArray m.id ++ putStr m.name ++ putU32 m.privileges ++ putI32 m.rank ++ putStr m.color

def decode : PayloadReader RoleUpdate := do
  let id ← getId "RoleUpdate"
  let name ← getStr "RoleUpdate"
  needBytes (4 + 4) "RoleUpdate"
  let privileges ← getU32
  let rank ← getI32
  let color ← getStr "RoleUpdate"
  expectEnd "RoleUpdate"
  return { id, name, privileges, rank, color }

def clamp (m : RoleUpdate) : RoleUpdate :=
  { m with name := clampText m.name, color := clampText m.color }

def Fits (m : RoleUpdate) : Prop := FitsText m.name ∧ FitsText m.color

theorem clamp_eq_self {m : RoleUpdate} : m.clamp = m ↔ m.Fits := by
  obtain ⟨id, name, privileges, rank, color⟩ := m
  simp [clamp, Fits, clampText_eq_self]

theorem reads (b : List UInt8) (m : RoleUpdate) (t : List UInt8) :
    Returns decode b m t ↔ m.clamp = m ∧ b = m.encode ∧ t = [] := by
  obtain ⟨id, name, privileges, rank, color⟩ := m
  simp +arith [decode, encode, clamp, returns_bind, and_assoc]
  tauto

def payload : Payload RoleUpdate :=
  .ofReads encode decode clamp Fits clamp_eq_self
    (by simp [encode, clamp]) (by simp [clamp]) reads (by simp [decode])

end RoleUpdate

/-- The role to delete. -/
structure RoleDelete where
  id : Vector UInt8 16
  deriving DecidableEq

namespace RoleDelete

def encode (m : RoleDelete) : List UInt8 := putArray m.id

def decode : PayloadReader RoleDelete := do
  let id ← getLast 16 "RoleDelete"
  return { id }

def payload : Payload RoleDelete :=
  .ofReads encode decode (fun m => m) (fun _ => True) (by simp) (fun _ => rfl) (fun _ => rfl)
    (by
      rintro b ⟨id⟩ t
      simp [decode, encode])
    (by simp [decode])

end RoleDelete

/-- A role for an account. -/
structure RoleAssign where
  username : String
  roleId : Vector UInt8 16
  deriving DecidableEq

def RoleAssign.payload : Payload RoleAssign :=
  (strIdPayload "RoleAssign").as (fun p => ⟨p.1, p.2⟩) (fun m => (m.username, m.roleId))
    (fun _ => rfl) fun _ => rfl

/-- A role that an account shall lose. -/
structure RoleUnassign where
  username : String
  roleId : Vector UInt8 16
  deriving DecidableEq

def RoleUnassign.payload : Payload RoleUnassign :=
  (strIdPayload "RoleUnassign").as (fun p => ⟨p.1, p.2⟩) (fun m => (m.username, m.roleId))
    (fun _ => rfl) fun _ => rfl

/-- What roles has an account? -/
structure AccountRolesRequest where
  username : String
  deriving DecidableEq

def AccountRolesRequest.payload : Payload AccountRolesRequest :=
  (strPayload "AccountRolesRequest").as AccountRolesRequest.mk AccountRolesRequest.username
    (fun _ => rfl) fun _ => rfl

/-- The roles of an account. -/
structure AccountRolesResponse where
  username : String
  roleIds : List (Vector UInt8 16)
  deriving DecidableEq

namespace AccountRolesResponse

def encode (m : AccountRolesResponse) : List UInt8 :=
  putStr m.username ++ putList16 putArray m.roleIds

def decode : PayloadReader AccountRolesResponse := do
  let username ← getStr "AccountRolesResponse"
  needBytes 2 "AccountRolesResponse"
  let roleIds ← getList16 (getId "AccountRolesResponse")
  expectEnd "AccountRolesResponse"
  return { username, roleIds }

def clamp (m : AccountRolesResponse) : AccountRolesResponse :=
  { username := clampText m.username, roleIds := clampList16 id m.roleIds }

def Fits (m : AccountRolesResponse) : Prop := FitsText m.username ∧ m.roleIds.length ≤ maxU16Len

theorem clamp_eq_self {m : AccountRolesResponse} : m.clamp = m ↔ m.Fits := by
  obtain ⟨username, roleIds⟩ := m
  simp [clamp, Fits, clampText_eq_self, clampIds_eq_self]

theorem reads (b : List UInt8) (m : AccountRolesResponse) (t : List UInt8) :
    Returns decode b m t ↔ m.clamp = m ∧ b = m.encode ∧ t = [] := by
  obtain ⟨username, roleIds⟩ := m
  simp +arith [decode, encode, clamp, returns_bind, returns_getList16 returns_id, and_assoc]
  tauto

def payload : Payload AccountRolesResponse :=
  .ofReads encode decode clamp Fits clamp_eq_self
    (by simp [encode, clamp, putList16_clampIds]) (by simp [clamp, clampList16_clampIds]) reads
    (by simp [decode, safe_getList16_bind (safe_getId 0 _) returns_id])

end AccountRolesResponse

end Protocol

end KdxHotline
