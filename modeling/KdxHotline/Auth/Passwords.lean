import KdxHotline.Auth.Roles
import KdxHotline.Crypto.Scram
import KdxHotline.Foundations.Tasks
import KdxHotline.Foundations.WriteLog
import KdxHotline.Storage.Bans
import KdxHotline.Storage.Credentials

/-!
# Logins and password changes

A login and a password change are dialogues: a challenge goes out for the credential that
was read, and what comes back is verified against it. By then the credential may have been
replaced, so a login reads the row again before it is let in, and a change is stored only
in place of the text it began with.

The server's steps in these dialogues, and whatever else writes a credential, are
functions that share the database, one atomic step to each call of it. Which of them
wrote what is kept in a log beside the tables (`KdxHotline.Auth.AuthManager.history`).
-/

namespace KdxHotline

namespace Auth

open Foundations Storage Crypto

/-! ### What the dialogues carry -/

/-- The challenge that a client is sent. -/
structure ChallengeData where
  challenge : Vector UInt8 32
  salt : List UInt8
  params : KdfParams
  deriving DecidableEq

/-- A login between its challenge and its response. -/
structure PendingAuth where
  challenge : Vector UInt8 32
  username : String
  channelBinding : Vector UInt8 32
  salt : List UInt8
  account : Option (AccountRow × StoredCredential)
  deriving DecidableEq

/-- A password change between its challenge and its proof. -/
structure PendingPasswordChange where
  challenge : Vector UInt8 32
  accountId : String
  username : String
  channelBinding : Vector UInt8 32
  /-- The account's credential when the challenge went out. -/
  credential : StoredCredential
  /-- Its stored encoding, which the change compares against. -/
  stored : String
  deriving DecidableEq

/-- A login that was verified. -/
structure Verified where
  accountId : String
  session : Session
  serverSignature : Vector UInt8 32
  credentialStamp : Vector UInt8 32

/-- Why a dialogue fails. -/
inductive LoginError
  | invalidCredentials
  | banned (until_ : ℤ) (reason : String)
  | accountGone
  | credentialChanged
  | internal (what : String)
  | storage (e : StorageError)
  | crypto (e : CryptoError)
  deriving DecidableEq

/-- The stamp of a credential: a hash of its encoding. -/
def credentialStamp (P : Primitives) (credential : StoredCredential) : Vector UInt8 32 :=
  P.sha256 (asBytes credential.encode)

/-- The parameters of a credential that is derived today. -/
def defaultParams : KdfParams := ⟨19456, 2, 1⟩

/-- The bytes of a salt. -/
def saltLen : ℕ := 16

/-- The salt of a name that has no account. -/
def decoySalt (P : Primitives) (serverSecret : Vector UInt8 32) (username : String) : List UInt8 :=
  (P.hmac serverSecret.toList (asBytes "KDX-decoy-salt-v1\x00" ++ asBytes username)).toList.take saltLen

/-- Whether a row still holds a credential. A row that was not converted yet is compared
by its conversion. -/
def holdsCredential (P : Primitives) (row : AccountRow) (credential : StoredCredential) : Bool :=
  match row.credential with
  | some encoded => decide (StoredCredential.decode encoded = some credential)
  | none => decide (StoredCredential.fromLegacyPhc P row.passwordPhc = some credential)

/-! ### The server and its tasks -/

/-- A row as it was read, and how many writes had been made by then. -/
structure Reading where
  writes : ℕ
  row : AccountRow
  deriving DecidableEq

/-- Why a credential was written. -/
inductive Cause
  | converted
  | reset
  | changed (pending : PendingPasswordChange) (new : StoredCredential) (proof : Vector UInt8 32)
  deriving DecidableEq

/-- A write of an account's credential, and what the task that made it had read. -/
structure CredentialWrite where
  accountId : String
  text : String
  cause : Cause
  readings : List Reading
  deriving DecidableEq

/-- The accounts and the key for the salts of unknown names. -/
structure AuthManager where
  pool : AccountPool
  /-- The decoy key as it is stored. -/
  serverSecret : Option (List UInt8)
  /-- The decoy key, once it was loaded. -/
  decoyKey : Option (Vector UInt8 32)
  /-- The writes of credentials so far, oldest first. -/
  history : List CredentialWrite

/-- What a client was told that it had done. -/
inductive Success
  | changed (pending : PendingPasswordChange) (new : StoredCredential) (proof : Vector UInt8 32)
  | reset (accountId : String) (credential : StoredCredential)
  deriving DecidableEq

/-- What a dialogue has read and written, the login it let in, and the success it was answered. -/
structure Dialogue where
  readings : List Reading
  admitted : Option (PendingAuth × Vector UInt8 32)
  /-- The writes it was there for, with their numbers in the log. -/
  wrote : List (ℕ × CredentialWrite)
  answered : Option Success
  deriving DecidableEq

/-- A dialogue in which nothing was read or said. -/
def Dialogue.fresh : Dialogue := ⟨[], none, [], none⟩

/-- A write was made. No dialogue is there for a conversion. -/
def Dialogue.noting (own : Dialogue) (number : ℕ) (w : CredentialWrite) : Dialogue :=
  match w.cause with
  | .converted => own
  | _ => { own with wrote := own.wrote ++ [(number, w)] }

/-- What a step is. -/
inductive AuthStep
  /-- It asks for something that is no credential. -/
  | consult
  /-- It reads an account. -/
  | read
  /-- It may write a credential. -/
  | write
  /-- It lets a login in. -/
  | enter
  /-- It tells the client that all went well. -/
  | answer
  deriving DecidableEq

/-- A call on the accounts. -/
abbrev AuthCall (α : Type) : Type 1 := Prog AuthManager Dialogue AuthStep LoginError α

section Calls

variable {α : Type}

/-- A call of the storage layer, and what is noted when it returns. -/
def calling (x : Fallible AccountPool StorageError α)
    (note : α → AuthManager × Dialogue → AuthManager × Dialogue) :
    Fallible (AuthManager × Dialogue) LoginError α := fun s =>
  match x.run s.1.pool with
  | .ok a pool => .ok a (note a ({ s.1 with pool }, s.2))
  | .error e pool => .error (.storage e) ({ s.1 with pool }, s.2)

/-- A call that concerns no credential. -/
def consulting (x : Fallible AccountPool StorageError α) : AuthCall α :=
  .call .consult (calling x fun _ s => s)

/-- The row of a username. -/
def byUsername (username : String) : AuthCall (Option AccountRow) :=
  .call .read (calling (Accounts.byUsername username) fun row s =>
    (s.1, { s.2 with readings := s.2.readings ++ (row.map (Reading.mk s.1.history.length)).toList }))

/-- A statement that writes a credential, and says whether it did. -/
def writing (accountId text : String) (cause : Cause) (x : Fallible AccountPool StorageError Bool) :
    AuthCall Bool :=
  .call .write (calling x fun done s =>
    if done then
      let w : CredentialWrite := ⟨accountId, text, cause, s.2.readings⟩
      ({ s.1 with history := s.1.history ++ [w] }, s.2.noting s.1.history.length w)
    else s)

/-- Write the converted credential of an account. -/
def upgradeCredential (id text : String) : AuthCall Bool :=
  writing id text .converted (Accounts.upgradeCredential id text)

/-! ### Reading a credential -/

section

variable (P : Primitives)

/-- The usable credential of a row, if it has one. A legacy row is converted. -/
def credentialFor (row : AccountRow) : AuthCall (Option StoredCredential) :=
  match row.credential with
  | some encoded => pure (StoredCredential.decode encoded)
  | none =>
    match StoredCredential.fromLegacyPhc P row.passwordPhc with
    | some credential => do
      -- a conversion that could not be stored is only logged
      let _ ← ((upgradeCredential row.id credential.encode).attempt : AuthCall _)
      return some credential
    | none => pure none

/-- Convert the rows that have no credential, as far as they can be. -/
def upgradeRows : List AccountRow → AuthCall Unit
  | [] => pure ()
  | row :: rows => do
    match StoredCredential.fromLegacyPhc P row.passwordPhc with
    | some credential =>
      let _ ← upgradeCredential row.id credential.encode
      upgradeRows rows
    | none => upgradeRows rows

/-- Convert every credential of the old format. -/
def upgradeLegacyCredentials : AuthCall Unit := do
  let rows ← consulting Accounts.legacyRows
  upgradeRows P rows

/-- The key that decoy salts are made with. The first caller converts what is left to
convert, and stores `candidate` if there is no key. -/
def loadDecoyKey (candidate : Vector UInt8 32) : AuthCall (Vector UInt8 32) := do
  let loaded ← .step .consult (fun s => (s.1.decoyKey, s)) .done
  match loaded with
  | some key => return key
  | none =>
    upgradeLegacyCredentials P
    -- insert or ignore, then read back what is there
    .call .consult (calling (statement fun db => .ok ((), db)) fun _ s =>
      ({ s.1 with serverSecret := s.1.serverSecret <|> some candidate.toList }, s.2))
    let secret ← .call .consult (do
      calling (query fun _ => ()) fun _ s => s
      return (← get).1.serverSecret)
    let key ← .ofExcept (required (.internal "stored decoy key has the wrong length")
      (secret >>= toKey))
    .step .consult (fun s => ((), { s.1 with decoyKey := some key }, s.2)) .done
    return key

/-! ### Logging in -/

/-- A row with its usable credential. -/
def accountFor : Option AccountRow → AuthCall (Option (AccountRow × StoredCredential))
  | some row => do
    let credential ← credentialFor P row
    return credential.map (Prod.mk row)
  | none => pure none

/-- Look up the account and issue a challenge. A name without a usable account gets a
decoy. -/
def begin (candidate challenge channelBinding : Vector UInt8 32) (username : String) :
    AuthCall (ChallengeData × PendingAuth) := do
  let decoyKey ← loadDecoyKey P candidate
  let account ← accountFor P (← byUsername username)
  let salt := match account with
    | some (_, credential) => credential.salt
    | none => decoySalt P decoyKey username
  let params := match account with
    | some (_, credential) => credential.params
    | none => defaultParams
  return (⟨challenge, salt, params⟩, ⟨challenge, username, channelBinding, salt, account⟩)

/-- The session of a row, after its credentials checked out. -/
def openSession (P : Primitives) (now : ℤ) (account : AccountRow) (credential : StoredCredential)
    (serverSignature : Vector UInt8 32) : AuthCall Verified := do
  let ban ← consulting (query fun db => Bans.inForce db account.id now)
  match ban with
  | some ban => .fail (.banned ban.until_ ban.reason)
  | none =>
    let class_ ← .ofExcept (required .invalidCredentials
      (BaseClass.tryFrom (BitVec.ofInt 8 account.baseClass).toNat))
    let roles ← consulting (Roles.forAccount account.id)
    return ⟨account.id,
      ⟨account.username, class_, effectivePrivileges class_ (unionPrivileges roles)
        (BitVec.ofInt 32 account.granted) (BitVec.ofInt 32 account.revoked)⟩,
      serverSignature, credentialStamp P credential⟩

/-- Verify the client's proof and build its session. -/
def complete (now : ℤ) (pending : PendingAuth) (proof : Vector UInt8 32) : AuthCall Verified :=
  match pending.account with
  | none => .fail .invalidCredentials
  | some (account, credential) =>
    match credential.verifyProof P pending.username pending.challenge pending.channelBinding proof with
    | none => .fail .invalidCredentials
    | some serverSignature => do
      -- the row was read when the challenge went out: go by what it is now
      match ← byUsername pending.username with
      | some row =>
        if row.id = account.id ∧ holdsCredential P row credential = true then
          openSession P now row credential serverSignature
        else .fail .invalidCredentials
      | none => .fail .invalidCredentials

/-! ### Changing a password -/

/-- Start a password change for a session's own account. -/
def beginPasswordChange (challenge channelBinding : Vector UInt8 32) (username accountId : String) :
    AuthCall (ChallengeData × PendingPasswordChange) := do
  let found ← byUsername username
  let row ← .ofExcept (required .accountGone (found.filter fun row => row.id = accountId))
  let usable ← credentialFor P row
  let credential ← .ofExcept
    (required (.internal "the account's stored credential is unusable") usable)
  -- a legacy row was just converted, and stored as this encoding
  let stored := row.credential.getD credential.encode
  return (⟨challenge, credential.salt, credential.params⟩,
    ⟨challenge, row.id, row.username, channelBinding, credential, stored⟩)

/-- Finish a password change: verify the proof of the current password, and store `new` in
place of exactly the credential the challenge was issued for. -/
def completePasswordChange (pending : PendingPasswordChange) (proof : Vector UInt8 32)
    (new : StoredCredential) : AuthCall (Vector UInt8 32) := do
  .ofExcept (new.checkAcceptable.mapError .crypto)
  let serverSignature ← .ofExcept (required .invalidCredentials
    (pending.credential.verifyPasswordChangeProof P pending.username pending.challenge
      pending.channelBinding new proof))
  let stored ← writing pending.accountId new.encode (.changed pending new proof)
    (Accounts.setCredential pending.accountId new.encode (some pending.stored))
  if stored then return serverSignature else .fail .credentialChanged

/-- An administrator's reset. -/
def setCredential (accountId : String) (credential : StoredCredential) : AuthCall Bool := do
  .ofExcept (credential.checkAcceptable.mapError .crypto)
  writing accountId credential.encode .reset
    (Accounts.setCredential accountId credential.encode none)

/-- The stamp of a username's current credential, if the account is still that one. -/
def credentialStampOf (username accountId : String) : AuthCall (Option (Vector UInt8 32)) := do
  match ← byUsername username with
  | none => return none
  | some row =>
    if row.id ≠ accountId then return none
    else return (← credentialFor P row).map (credentialStamp P)

/-! ### What may be going on -/

/-- A dialogue with all that its client sends, or a request. -/
inductive AuthRequest
  | login (candidate challenge channelBinding : Vector UInt8 32) (username : String) (now : ℤ)
      (proof : Vector UInt8 32)
  | change (challenge channelBinding : Vector UInt8 32) (username accountId : String)
      (proof : Vector UInt8 32) (new : StoredCredential)
  | reset (accountId : String) (credential : StoredCredential)
  | stamp (username accountId : String)
  | prepare (candidate : Vector UInt8 32)

/-- What a request does: a login, a change of the password, a reset or the conversion at startup. -/
def serveAuth : AuthRequest → AuthCall Unit
  | .login candidate challenge channelBinding username now proof => do
    let (_, pending) ← begin P candidate challenge channelBinding username
    let _ ← complete P now pending proof
    .step .enter (fun s => ((), s.1, { s.2 with admitted := some (pending, proof) })) .done
  | .change challenge channelBinding username accountId proof new => do
    let (_, pending) ← beginPasswordChange P challenge channelBinding username accountId
    let _ ← completePasswordChange P pending proof new
    .step .answer
      (fun s => ((), s.1, { s.2 with answered := some (.changed pending new proof) })) .done
  | .reset accountId credential => do
    if ← setCredential accountId credential then
      .step .answer
        (fun s => ((), s.1, { s.2 with answered := some (.reset accountId credential) })) .done
    else pure ()
  | .stamp username accountId => do
    let _ ← credentialStampOf P username accountId
  | .prepare candidate => do
    let _ ← loadDecoyKey P candidate

end

end Calls

/-- The server, and every dialogue with how far it has come. -/
abbrev AuthServer : Type 1 := Tasks AuthManager Dialogue AuthStep LoginError

/-- Take a turn. -/
def AuthServer.Takes (P : Primitives) (c : AuthServer) (turn : Turn AuthRequest) (c' : AuthServer) : Prop :=
  Tasks.take (serveAuth P) .fresh c turn = some c'

end Auth

end KdxHotline
