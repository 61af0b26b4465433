import KdxHotline.Auth.Roles
import KdxHotline.Storage.Bans

/-!
# The admin requests

Each request resolves its actor against the stored account, applies the checks
of `KdxHotline.Auth.Denied`, writes, and then forces off the live sessions of
every account whose privileges changed. Requests are serialised by the mutation
lock, so a request is one computation over the tables and the log of forced
disconnections (`KdxHotline.Auth.World`).

For every request one lemma says what it has checked and what it has written
when it returns (`KdxHotline.Auth.createAccount_returns` and its siblings).
Everything after the write only reads, so it changes no table
(`KdxHotline.Auth.kickChanged_keeps`).
-/

namespace KdxHotline

namespace Auth

open Foundations Storage

open Privileges Limits

/-! ### The state requests run on -/

/-- What an admin request reads and changes. -/
structure World where
  pool : AccountPool
  /-- The forced disconnections, a username and a reason each, oldest first. -/
  kicks : List (String × String)

namespace World

/-- The tables. -/
def db (w : World) : AccountTables := w.pool.db

/-- The tables and the failures of their statements. -/
def poolField : Focus World AccountPool := ⟨World.pool, fun p w => { w with pool := p }, fun _ _ => rfl⟩

/-- Everything a request can be seen to have changed: the tables, and who was
disconnected. -/
def effects (w : World) : AccountTables × List (String × String) := (w.db, w.kicks)

end World

section Steps

variable {α : Type} {w w' : World}

/-- Call the storage layer, reporting its error as a refusal. -/
def stored (onError : StorageError → Refusal) (x : Fallible AccountPool StorageError α) :
    Fallible World Refusal α := mapError onError (zoom World.poolField x)

/-- Apply a check of the policy. -/
def policy (x : Except Denied α) : Fallible World Refusal α := check (x.mapError Refusal.of)

/-- Force off every connection of `username`. -/
def disconnect (username reason : String) : Fallible World Refusal PUnit :=
  modify fun w => { w with kicks := w.kicks ++ [(username, reason)] }

theorem returns_stored {onError : StorageError → Refusal} {x : Fallible AccountPool StorageError α}
    {a : α} (h : Returns (stored onError x) w a w') : Returns x w.pool a w'.pool := by
  obtain ⟨p, hp, rfl⟩ := returns_zoom.mp (returns_mapError.mp h)
  exact hp

theorem stored_reads {x : Fallible AccountPool StorageError α} (hx : Keeps Pool.db x)
    (onError : StorageError → Refusal) : Keeps World.effects (stored onError x) := by
  have hzoom : Keeps (Pool.db ∘ World.poolField.get) (zoom World.poolField x) := hx.zoom
  exact (hzoom.prod (keeps_zoom_frame fun _ _ => rfl)).mapError onError

/-- A storage call disconnects nobody. -/
theorem stored_kicks {onError : StorageError → Refusal} {x : Fallible AccountPool StorageError α}
    {a : α} (h : Returns (stored onError x) w a w') : w'.kicks = w.kicks :=
  ((keeps_zoom_frame (u := World.kicks) fun _ _ => rfl).mapError onError).returns h

theorem stored_keeps {x : Fallible AccountPool StorageError α} (hx : Keeps Pool.db x)
    (onError : StorageError → Refusal) : Keeps World.db (stored onError x) :=
  (stored_reads hx onError).map Prod.fst

/-- **A storage call that fails has no effect**, if it leaves the tables alone. -/
theorem zoom_effectless {ε : Type} {x : Fallible AccountPool ε α} (hx : Atomic Pool.db x) :
    Atomic World.effects (zoom World.poolField x) := by
  have hzoom : Atomic (Pool.db ∘ World.poolField.get) (zoom World.poolField x) := hx.zoom
  exact hzoom.prod (keeps_zoom_frame (u := World.kicks) fun _ _ => rfl).atomic

theorem stored_effectless {x : Fallible AccountPool StorageError α} (hx : Atomic Pool.db x)
    (onError : StorageError → Refusal) : Atomic World.effects (stored onError x) :=
  (zoom_effectless hx).mapError onError

theorem stored_atomic {x : Fallible AccountPool StorageError α} (hx : Atomic Pool.db x)
    (onError : StorageError → Refusal) : Atomic World.db (stored onError x) :=
  ⟨fun h => congrArg Prod.fst ((stored_effectless hx onError).fails h)⟩

@[simp] theorem returns_policy {x : Except Denied α} {a : α} :
    Returns (policy x) w a w' ↔ x = .ok a ∧ w = w' := by
  cases x <;> simp [policy, Except.mapError]

theorem policy_keeps (x : Except Denied α) : Keeps World.db (policy x) := keeps_check _

theorem policy_reads (x : Except Denied α) : Keeps World.effects (policy x) := keeps_check _

theorem disconnect_keeps (username reason : String) :
    Keeps World.db (disconnect username reason) where
  returns h := by
    rw [← returns_modify.mp h]
    rfl
  fails h := absurd h fails_modify

end Steps

/-! ### The parts requests share -/

/-- Resolve the acting session's current authority and require `required` of it. -/
def resolveActor (session : Session) (required : Privileges) : Fallible World Refusal Actor := do
  let missing := Denied.missing (privilegeName required)
  policy (refuseIf (!session.privileges.contains required) missing)
  let state ← stored (fun e => .internal "permission check" (storageErrorText e))
    (accountState session.username)
  let stored ← policy (Foundations.required .actorGone state)
  let actor := Actor.narrowed session stored
  policy (refuseIf (!actor.authority.privileges.contains required) missing)
  return actor

/-- Disconnect reason sent to a live session whose privileges just changed. -/
def privilegesChangedReason : String := "your privileges changed — please reconnect"

/-- Disconnect reason for an account's sessions after an admin reset its password. -/
def passwordReset : String := "your password was reset by an administrator — please log in again"

/-- Whether an account must be kicked, from what re-reading it gave: its class or
effective privileges changed, or it can no longer be read. -/
def mustKick (old : AccountState) : Except Refusal (Option AccountState) → Bool
  | .ok (some new) => privilegesChanged old new
  | .ok none | .error _ => true

/-- Tell a live session whose privileges changed to reconnect. -/
def kickIf (kick : Bool) (username : String) : Fallible World Refusal PUnit :=
  if kick then disconnect username privilegesChangedReason else pure ⟨⟩

/-- Re-read each affected account and force off the live sessions of every one
that must be kicked. -/
def kickChanged : List AccountState → Fallible World Refusal Unit
  | [] => return ()
  | old :: rest => do
    let read ← attempt (stored (fun e => .internal "" (storageErrorText e))
      (accountState old.username))
    kickIf (mustKick old read) old.username
    kickChanged rest

/-- Look up a role for a mutation. -/
def existingRole (what id : String) : Fallible World Refusal Role := do
  let role ← stored (fun e => .storage what e "" "no such role") (getRole id)
  check (required (.denied "no such role") role)

/-- Look up an account for a mutation. -/
def existingAccount (what username : String) : Fallible World Refusal AccountState := do
  let state ← stored (fun e => .storage what e "" "no such account") (accountState username)
  check (required (.denied "no such account") state)

/-- What the second role of a name is refused with. -/
def roleExistsMessage (name : String) : String := "a role named \"" ++ name ++ "\" already exists"

section Shared

variable {w w' : World}

/-- The session acts on `db` as `actor`, who holds `required`. -/
def ActsAs (db : AccountTables) (session : Session) (required : Privileges) (actor : Actor) : Prop :=
  ∃ stored, storedState db session.username = some stored ∧
    actor = Actor.narrowed session stored ∧ Within required actor.authority.privileges

theorem resolveActor_reads (session : Session) (required : Privileges) :
    Keeps World.effects (resolveActor session required) :=
  (policy_reads _).bind fun _ => (stored_reads (accountState_keeps _) _).bind fun _ =>
    (policy_reads _).bind fun _ => (policy_reads _).bind fun _ => keeps_pure _

theorem resolveActor_keeps (session : Session) (required : Privileges) :
    Keeps World.db (resolveActor session required) :=
  (resolveActor_reads session required).map Prod.fst

/-- **An actor that was resolved is the session narrowed by its stored account.** -/
theorem resolveActor_returns {session : Session} {required : Privileges} {actor : Actor}
    (h : Returns (resolveActor session required) w actor w') :
    ActsAs w.db session required actor := by
  obtain ⟨_, w₁, h₁, h⟩ := returns_bind.mp h
  obtain ⟨-, rfl⟩ := returns_policy.mp h₁
  obtain ⟨state, w₂, h₂, h⟩ := returns_bind.mp h
  have hstate := accountState_returns (returns_stored h₂)
  obtain ⟨stored, w₃, h₃, h⟩ := returns_bind.mp h
  obtain ⟨hsome, rfl⟩ := returns_policy.mp h₃
  obtain ⟨_, w₄, h₄, h⟩ := returns_bind.mp h
  obtain ⟨hheld, rfl⟩ := returns_policy.mp h₄
  obtain ⟨rfl, rfl⟩ := returns_pure.mp h
  refine ⟨stored, ?_, rfl, by simpa using hheld⟩
  rw [← required_eq_ok.mp hsome, hstate]
  rfl

theorem kickChanged_keeps : ∀ before, Keeps World.db (kickChanged before)
  | [] => keeps_pure _
  | old :: rest => by
    refine (stored_keeps (accountState_keeps _) _).attempt.bind fun read => ?_
    refine Keeps.bind ?_ fun _ => kickChanged_keeps rest
    unfold kickIf
    split
    · exact disconnect_keeps _ _
    · exact keeps_pure _

/-- Telling sessions to reconnect cannot fail: an account that cannot be read is
told so too. -/
theorem kickChanged_total : ∀ before w e w', ¬Fails (kickChanged before) w e w'
  | [], _, _, _ => fails_pure
  | old :: rest, _, _, _ => fun h => by
    rcases fails_bind.mp h with hread | ⟨read, w₁, -, h⟩
    · exact fails_attempt hread
    rcases fails_bind.mp h with hkick | ⟨_, w₂, -, h⟩
    · unfold kickIf at hkick
      split at hkick
      · exact fails_modify hkick
      · exact fails_pure hkick
    · exact kickChanged_total rest _ _ _ h

theorem existingRole_reads (what id : String) : Keeps World.effects (existingRole what id) :=
  (stored_reads (getRole_keeps _) _).bind fun _ => keeps_check _

theorem existingRole_keeps (what id : String) : Keeps World.db (existingRole what id) :=
  (existingRole_reads what id).map Prod.fst

theorem existingRole_returns {what id : String} {role : Role}
    (h : Returns (existingRole what id) w role w') :
    ∃ row ∈ w.db.roles, row.id = id ∧ role = fromRow row := by
  obtain ⟨found, w₁, h₁, h₂⟩ := returns_bind.mp h
  have hfound := getRole_returns (returns_stored h₁)
  rw [required_eq_ok.mp (returns_check.mp h₂).1, eq_comm, Option.map_eq_some_iff] at hfound
  obtain ⟨row, hrow, rfl⟩ := hfound
  exact ⟨row, List.mem_of_find?_eq_some hrow, by simpa using List.find?_some hrow, rfl⟩

theorem existingAccount_reads (what username : String) :
    Keeps World.effects (existingAccount what username) :=
  (stored_reads (accountState_keeps _) _).bind fun _ => keeps_check _

theorem existingAccount_keeps (what username : String) :
    Keeps World.db (existingAccount what username) :=
  (existingAccount_reads what username).map Prod.fst

theorem existingAccount_returns {what username : String} {target : AccountState}
    (h : Returns (existingAccount what username) w target w') :
    storedState w.db username = some target := by
  obtain ⟨found, w₁, h₁, h₂⟩ := returns_bind.mp h
  rw [← required_eq_ok.mp (returns_check.mp h₂).1]
  exact (accountState_returns (returns_stored h₁)).symm

end Shared

/-! ### Creating an account -/

/-- A credential as a client sends it. -/
structure Credential where
  salt : List UInt8
  mCost : ℕ
  tCost : ℕ
  pCost : ℕ
  storedKey : Vector UInt8 32
  serverKey : Vector UInt8 32

/-- A credential from the wire, checked to be fit to store. -/
def credentialFromWire (wire : Credential) : Except Refusal Crypto.StoredCredential := do
  let credential : Crypto.StoredCredential :=
    ⟨wire.salt, ⟨wire.mCost, wire.tCost, wire.pCost⟩, wire.storedKey, wire.serverKey⟩
  credential.checkAcceptable.mapError fun e => .denied ("invalid credential: " ++ e.toString)
  return credential

/-- A request for a new account. -/
structure AccountCreate where
  username : String
  credential : Credential
  baseClass : ℕ
  granted : BitVec 32
  revoked : BitVec 32

/-- Provision a new account with `credential`: the account and its overrides are
written in one `INSERT`. -/
def createAccountWithCredential (id username : String) (credential : Crypto.StoredCredential)
    (baseClass granted revoked : ℤ) : Fallible AccountPool AuthError Unit := do
  check (refuseIf (username.isEmpty || decide (maxUsernameLen < username.utf8ByteSize))
    .invalidUsername)
  check (credential.checkAcceptable.mapError .crypto)
  let classify (e : StorageError) : AuthError :=
    if e = .alreadyExists then .accountExists else .storage e
  let _ ← mapError classify
    (Accounts.create id username credential.encode baseClass granted revoked)

/-- Create an account under the policy; `id` is the fresh id its row gets. -/
def createAccount (id : String) (session : Session) (req : AccountCreate) :
    Fallible World Refusal Unit := do
  let what := "account create"
  check (refuseIf req.username.isEmpty (.denied "a username is required"))
  check ((checkLen "username" req.username maxUsernameLen).mapError .denied)
  let credential ← check (credentialFromWire req.credential)
  let actor ← resolveActor session userAdmin
  let class_ ← policy (checkAccountCreate actor.authority req.baseClass req.granted req.revoked)
  mapError (fun e => .auth what e "no such account")
    (zoom World.poolField (createAccountWithCredential id req.username credential class_.toNat
      (knownBits req.granted).toNat (knownBits req.revoked).toNat))

section

variable {w w' : World}

/-- **A creation that returns was checked, and appends one account that holds no
role.** -/
theorem createAccount_returns {id : String} {session : Session} {req : AccountCreate}
    (h : Returns (createAccount id session req) w () w') :
    ∃ actor class_ row, ActsAs w.db session userAdmin actor ∧
      checkAccountCreate actor.authority req.baseClass req.granted req.revoked = .ok class_ ∧
      row.id = id ∧ row.username = req.username ∧ row.baseClass = (class_.toNat : ℤ) ∧
      row.granted = ((knownBits req.granted).toNat : ℤ) ∧
      row.revoked = ((knownBits req.revoked).toNat : ℤ) ∧
      (∀ r ∈ w.db.accounts, r.id ≠ id ∧ r.username ≠ req.username) ∧
      w'.db.accounts = w.db.accounts ++ [row] ∧ w'.db.roles = w.db.roles ∧
      w'.db.accountRoles = w.db.accountRoles := by
  obtain ⟨_, w₁, h₁, h⟩ := returns_bind.mp h
  obtain ⟨-, rfl⟩ := returns_check.mp h₁
  obtain ⟨_, w₂, h₂, h⟩ := returns_bind.mp h
  obtain ⟨-, rfl⟩ := returns_check.mp h₂
  obtain ⟨credential, w₃, h₃, h⟩ := returns_bind.mp h
  obtain ⟨-, rfl⟩ := returns_check.mp h₃
  obtain ⟨actor, w₄, h₄, h⟩ := returns_bind.mp h
  have hdb := (resolveActor_keeps _ _).returns h₄
  obtain ⟨class_, w₅, h₅, h⟩ := returns_bind.mp h
  obtain ⟨hclass, rfl⟩ := returns_policy.mp h₅
  obtain ⟨p, hp, rfl⟩ := returns_zoom.mp (returns_mapError.mp h)
  obtain ⟨_, p₁, hp₁, hp⟩ := returns_bind.mp hp
  obtain ⟨-, rfl⟩ := returns_check.mp hp₁
  obtain ⟨_, p₂, hp₂, hp⟩ := returns_bind.mp hp
  obtain ⟨-, rfl⟩ := returns_check.mp hp₂
  obtain ⟨row, p₃, hp₃, hp⟩ := returns_bind.mp hp
  obtain ⟨-, rfl⟩ := returns_pure.mp hp
  obtain ⟨rfl, hfree, hacc, hroles, hheld⟩ := Accounts.returns_create (returns_mapError.mp hp₃)
  have hpool : (World.poolField.get w₄).db = w.db := hdb
  rw [hpool] at hfree hacc hroles hheld
  exact ⟨actor, class_, _, resolveActor_returns h₄, hclass, rfl, rfl, rfl, rfl, rfl, hfree, hacc,
    hroles, hheld⟩

end

/-! ### Editing an account -/

/-- A request to change an account's class and privileges. -/
structure AccountUpdate where
  username : String
  baseClass : ℕ
  granted : BitVec 32
  revoked : BitVec 32

/-- Refuse a change that would leave the server without an administrator. -/
def guardLastAdmin (what : String) (target after : AccountState) : Fallible World Refusal Unit :=
  if removesAdministrator target after then do
    let others ← stored (fun e => .internal what (storageErrorText e))
      (otherAdministrators target.username)
    policy (refuseIf (others == 0) .lastAdmin)
  else return ()

/-- Edit an account under the policy. -/
def updateAccount (session : Session) (req : AccountUpdate) : Fallible World Refusal Unit := do
  let what := "account update"
  let actor ← resolveActor session userAdmin
  let target ← existingAccount what req.username
  let class_ ← policy (checkAccountUpdate actor target req.baseClass req.granted req.revoked)
  let after := target.withOverrides class_ (knownBits req.granted) (knownBits req.revoked)
  guardLastAdmin what target after
  mapError (fun e => .auth what e "no such account") (zoom World.poolField (mapError .storage
    (Accounts.update req.username class_.toNat after.granted.toNat after.revoked.toNat)))
  kickChanged [target]

section

variable {w w' : World}

/-- A guard that passed found another administrator, or none was taken away. -/
theorem guardLastAdmin_returns {what : String} {target after : AccountState}
    (h : Returns (guardLastAdmin what target after) w () w')
    (hremoves : removesAdministrator target after = true) :
    ∃ others, Returns (otherAdministrators target.username) w.pool others w'.pool ∧
      others ≠ 0 := by
  rw [guardLastAdmin, if_pos hremoves] at h
  obtain ⟨others, w₁, h₁, h⟩ := returns_bind.mp h
  obtain ⟨hothers, rfl⟩ := returns_policy.mp h
  exact ⟨others, returns_stored h₁, by simpa using hothers⟩

theorem guardLastAdmin_reads (what : String) (target after : AccountState) :
    Keeps World.effects (guardLastAdmin what target after) := by
  unfold guardLastAdmin
  split
  · exact (stored_reads (otherAdministrators_keeps _) _).bind fun _ => policy_reads _
  · exact keeps_pure _

theorem guardLastAdmin_keeps (what : String) (target after : AccountState) :
    Keeps World.db (guardLastAdmin what target after) :=
  (guardLastAdmin_reads what target after).map Prod.fst

/-- **An edit that returns was checked against the stored target, and rewrites
that row only.** -/
theorem updateAccount_returns {session : Session} {req : AccountUpdate}
    (h : Returns (updateAccount session req) w () w') :
    ∃ actor target class_, ActsAs w.db session userAdmin actor ∧
      storedState w.db req.username = some target ∧
      checkAccountUpdate actor target req.baseClass req.granted req.revoked = .ok class_ ∧
      (removesAdministrator target
          (target.withOverrides class_ (knownBits req.granted) (knownBits req.revoked)) = true →
        ∃ p others q, p.db = w.db ∧ Returns (otherAdministrators req.username) p others q ∧
          others ≠ 0) ∧
      w'.db.accounts = setWhere (fun r => r.username = req.username)
        (fun r => { r with
          baseClass := class_.toNat
          granted := (knownBits req.granted).toNat
          revoked := (knownBits req.revoked).toNat }) w.db.accounts ∧
      w'.db.roles = w.db.roles ∧ w'.db.accountRoles = w.db.accountRoles := by
  obtain ⟨actor, w₁, h₁, h⟩ := returns_bind.mp h
  have hdb₁ := (resolveActor_keeps _ _).returns h₁
  obtain ⟨target, w₂, h₂, h⟩ := returns_bind.mp h
  have hdb₂ := (existingAccount_keeps _ _).returns h₂
  obtain ⟨class_, w₃, h₃, h⟩ := returns_bind.mp h
  obtain ⟨hclass, rfl⟩ := returns_policy.mp h₃
  obtain ⟨_, w₄, h₄, h⟩ := returns_bind.mp h
  have hdb₄ := (guardLastAdmin_keeps _ _ _).returns h₄
  obtain ⟨_, w₅, h₅, h⟩ := returns_bind.mp h
  have hdb₆ := (kickChanged_keeps _).returns h
  obtain ⟨p, hp, rfl⟩ := returns_zoom.mp (returns_mapError.mp h₅)
  obtain ⟨hacc, hroles, hheld⟩ := Accounts.returns_update (returns_mapError.mp hp)
  have hpool : (World.poolField.get w₄).db = w.db := by
    rw [← hdb₁, ← hdb₂, ← hdb₄]
    rfl
  rw [hpool] at hacc hroles hheld
  have htarget := existingAccount_returns h₂
  rw [hdb₁] at htarget
  refine ⟨actor, target, class_, resolveActor_returns h₁, htarget, hclass, fun hremoves => ?_,
    ?_, ?_, ?_⟩
  · obtain ⟨others, hothers, hne⟩ := guardLastAdmin_returns h₄ hremoves
    obtain ⟨t, -, hname, rfl⟩ := storedState_eq_some htarget
    change Returns (otherAdministrators t.username) _ others _ at hothers
    rw [hname] at hothers
    exact ⟨_, others, _, hdb₂.trans hdb₁, hothers, hne⟩
  · rw [hdb₆]
    exact hacc
  · rw [hdb₆]
    exact hroles
  · rw [hdb₆]
    exact hheld

end

/-! ### Bans and passwords -/

/-- Lift a ban under the policy, at the time `now`. -/
def removeBan (now : ℤ) (session : Session) (username : String) :
    Fallible World Refusal Bans.RankedBan := do
  let what := "unban"
  check (refuseIf username.isEmpty (.denied "username is required"))
  check ((checkLen "username" username maxUsernameLen).mapError .denied)
  let actor ← resolveActor session userBan
  let target ← existingAccount what username
  policy (refuseIf (decide (actor.authority.class_ < target.class_)) .unbanOutranks)
  let removal ← stored (fun e => .internal what (storageErrorText e))
    (Bans.removeIf target.accountId now fun ban =>
      mayLiftBan actor ban.bannedBy (classFromStored ban.bannedByClass))
  match removal with
  | .removed ban => return ban
  | .notBanned => check (.error (.denied (target.username ++ " is not banned")))
  | .refused _ => policy (.error .banOutranks)

/-- A request to reset an account's credential. -/
structure AccountSetPassword where
  username : String
  credential : Credential

/-- Store an admin-supplied credential under the policy, then force off the
target's live sessions. -/
def setAccountPassword (session : Session) (req : AccountSetPassword) :
    Fallible World Refusal Unit := do
  let what := "password reset"
  let credential ← check (credentialFromWire req.credential)
  let actor ← resolveActor session userAdmin
  let target ← existingAccount what req.username
  policy (checkPasswordReset actor target)
  check ((credential.checkAcceptable.mapError .crypto).mapError fun e =>
    .auth what e "no such account")
  let done ← stored (fun e => .auth what (.storage e) "no such account")
    (Accounts.setCredential target.accountId credential.encode none)
  check (refuseIf (!done) (.denied "no such account"))
  disconnect target.username passwordReset

section

variable {w w' : World} {session : Session}

/-- **A password reset that returns was checked, and rewrites credentials of the
target's row only.** -/
theorem setAccountPassword_returns {req : AccountSetPassword}
    (h : Returns (setAccountPassword session req) w () w') :
    ∃ actor target credential, ActsAs w.db session userAdmin actor ∧
      storedState w.db req.username = some target ∧ checkPasswordReset actor target = .ok () ∧
      w'.db.accounts = setWhere (fun r => r.id = target.accountId)
        (fun r => { r with credential := some credential, passwordPhc := "" }) w.db.accounts ∧
      w'.db.roles = w.db.roles ∧ w'.db.accountRoles = w.db.accountRoles := by
  obtain ⟨credential, w₁, h₁, h⟩ := returns_bind.mp h
  obtain ⟨-, rfl⟩ := returns_check.mp h₁
  obtain ⟨actor, w₂, h₂, h⟩ := returns_bind.mp h
  have hdb₂ := (resolveActor_keeps _ _).returns h₂
  obtain ⟨target, w₃, h₃, h⟩ := returns_bind.mp h
  have hdb₃ := (existingAccount_keeps _ _).returns h₃
  obtain ⟨_, w₄, h₄, h⟩ := returns_bind.mp h
  obtain ⟨hcheck, rfl⟩ := returns_policy.mp h₄
  obtain ⟨_, w₅, h₅, h⟩ := returns_bind.mp h
  obtain ⟨-, rfl⟩ := returns_check.mp h₅
  obtain ⟨done, w₆, h₆, h⟩ := returns_bind.mp h
  obtain ⟨hacc, hroles, hheld⟩ := Accounts.returns_setCredential (returns_stored h₆)
  obtain ⟨_, w₇, h₇, h⟩ := returns_bind.mp h
  obtain ⟨-, rfl⟩ := returns_check.mp h₇
  have hdb₈ := (disconnect_keeps _ _).returns h
  have htarget := existingAccount_returns h₃
  rw [hdb₂] at htarget
  have hpool : w₃.pool.db = w.db := hdb₃.trans hdb₂
  rw [hpool] at hacc hroles hheld
  rw [hdb₈]
  refine ⟨actor, target, credential.encode, resolveActor_returns h₂, htarget, hcheck, ?_, hroles,
    hheld⟩
  simp only [Option.isNone_none, Bool.true_or, Bool.and_true] at hacc
  exact hacc

/-- **However an unban ends, it leaves the tables alone or is one removal**, which
the actor's rank decides. -/
theorem removeBan_ends {now : ℤ} {username : String} {r : Except Refusal Bans.RankedBan}
    (h : Ends (removeBan now session username) w r w') :
    w'.db = w.db ∨ ∃ actor, ∃ target : AccountState, ∃ removal p q,
      ActsAs w.db session userBan actor ∧ p.db = w.db ∧ q.db = w'.db ∧
      Returns (Bans.removeIf target.accountId now fun ban =>
        mayLiftBan actor ban.bannedBy (classFromStored ban.bannedByClass)) p removal q := by
  rcases ends_bind.mp h with ⟨e, rfl, hf⟩ | ⟨_, w₁, h₁, h⟩
  · exact .inl ((keeps_check _).fails hf)
  obtain ⟨-, rfl⟩ := returns_check.mp h₁
  rcases ends_bind.mp h with ⟨e, rfl, hf⟩ | ⟨_, w₂, h₂, h⟩
  · exact .inl ((keeps_check _).fails hf)
  obtain ⟨-, rfl⟩ := returns_check.mp h₂
  rcases ends_bind.mp h with ⟨e, rfl, hf⟩ | ⟨actor, w₃, h₃, h⟩
  · exact .inl ((resolveActor_keeps _ _).fails hf)
  have hdb₃ := (resolveActor_keeps _ _).returns h₃
  rcases ends_bind.mp h with ⟨e, rfl, hf⟩ | ⟨target, w₄, h₄, h⟩
  · exact .inl (((existingAccount_keeps _ _).fails hf).trans hdb₃)
  have hdb₄ := ((existingAccount_keeps _ _).returns h₄).trans hdb₃
  rcases ends_bind.mp h with ⟨e, rfl, hf⟩ | ⟨_, w₅, h₅, h⟩
  · exact .inl (((policy_keeps _).fails hf).trans hdb₄)
  obtain ⟨-, rfl⟩ := returns_policy.mp h₅
  rcases ends_bind.mp h with ⟨e, rfl, hf⟩ | ⟨removal, w₆, h₆, h⟩
  · -- a transaction that fails has not happened
    exact .inl (((stored_atomic (transaction_atomic _) _).fails hf).trans hdb₄)
  · refine .inr ⟨actor, target, removal, w₄.pool, w₆.pool, resolveActor_returns h₃, hdb₄, ?_,
      returns_stored h₆⟩
    cases removal with
    | removed ban => exact ((keeps_pure (v := World.db) ban).ends h).symm
    | notBanned => exact ((keeps_check (v := World.db) _).ends h).symm
    | refused ban => exact ((policy_keeps _).ends h).symm

end

/-! ### Roles -/

/-- A request for a new role. -/
structure RoleCreate where
  name : String
  privileges : BitVec 32
  rank : ℤ
  color : String

/-- A request to change a role. -/
structure RoleUpdate where
  id : String
  name : String
  privileges : BitVec 32
  rank : ℤ
  color : String

/-- The colour of a request: an empty one is none. -/
def colorOf (color : String) : Option String := if color.isEmpty then none else some color

/-- Create a role under the policy; `id` is the fresh id its row gets. -/
def createRole (id : String) (session : Session) (req : RoleCreate) :
    Fallible World Refusal Unit := do
  let what := "role create"
  check ((validateRoleFields req.name req.color).mapError .denied)
  let privileges := fromBitsTruncate req.privileges
  let actor ← resolveActor session userAdmin
  policy (checkRolePrivileges actor.authority privileges)
  let _ ← stored (fun e => .storage what e (roleExistsMessage req.name) "no such role")
    (Roles.create id req.name privileges.toNat req.rank (colorOf req.color))

/-- Edit a role under the policy, then kick holders whose privileges changed. -/
def updateRole (session : Session) (req : RoleUpdate) : Fallible World Refusal Unit := do
  let what := "role update"
  check ((validateRoleFields req.name req.color).mapError .denied)
  let privileges := fromBitsTruncate req.privileges
  let actor ← resolveActor session userAdmin
  let role ← existingRole what req.id
  policy (checkRolePrivileges actor.authority (role.privileges ||| privileges))
  let held ← stored (fun e => .internal what (storageErrorText e)) (holders req.id)
  policy (checkRoleHolders actor.authority held)
  stored (fun e => .storage what e (roleExistsMessage req.name) "no such role")
    (Roles.update req.id req.name privileges.toNat req.rank (colorOf req.color))
  if role.privileges != privileges then kickChanged held else return ()

/-- Delete a role under the policy, then kick holders whose privileges changed. -/
def deleteRole (session : Session) (id : String) : Fallible World Refusal Unit := do
  let what := "role delete"
  let actor ← resolveActor session userAdmin
  let role ← existingRole what id
  policy (checkRolePrivileges actor.authority role.privileges)
  let held ← stored (fun e => .internal what (storageErrorText e)) (holders id)
  policy (checkRoleHolders actor.authority held)
  stored (fun e => .storage what e "" "no such role") (Roles.delete id)
  kickChanged held

/-- Assign a role to an account, or take it away, under the policy. -/
def setRoleAssignment (session : Session) (username roleId : String) (assign : Bool) :
    Fallible World Refusal Unit := do
  let what := if assign then "role assign" else "role unassign"
  let actor ← resolveActor session userAdmin
  let role ← existingRole what roleId
  let target ← existingAccount what username
  policy (checkRolePrivileges actor.authority role.privileges)
  policy (refuseIf (!actor.authority.mayManage target.authority) .targetOutranks)
  stored (fun e => .storage what e "" "no such role or account")
    (if assign then Roles.assign target.accountId roleId else Roles.unassign target.accountId roleId)
  kickChanged [target]

section

variable {w w' : World} {session : Session}

/-- **A role creation that returns was checked, and appends one role nobody
holds.** -/
theorem createRole_returns {id : String} {req : RoleCreate}
    (h : Returns (createRole id session req) w () w') :
    ∃ actor row, ActsAs w.db session userAdmin actor ∧ row.id = id ∧
      (∀ a, (a, row.id) ∉ w.db.accountRoles) ∧ w'.db.accounts = w.db.accounts ∧
      w'.db.roles = w.db.roles ++ [row] ∧ w'.db.accountRoles = w.db.accountRoles := by
  obtain ⟨_, w₁, h₁, h⟩ := returns_bind.mp h
  obtain ⟨-, rfl⟩ := returns_check.mp h₁
  obtain ⟨actor, w₂, h₂, h⟩ := returns_bind.mp h
  have hdb₂ := (resolveActor_keeps _ _).returns h₂
  obtain ⟨_, w₃, h₃, h⟩ := returns_bind.mp h
  obtain ⟨-, rfl⟩ := returns_policy.mp h₃
  obtain ⟨row, w₄, h₄, h⟩ := returns_bind.mp h
  obtain ⟨-, rfl⟩ := returns_pure.mp h
  obtain ⟨rfl, hacc, hroles, hheld, hfree⟩ := Roles.returns_create (returns_stored h₄)
  have hpool : w₂.pool.db = w.db := hdb₂
  rw [hpool] at hacc hroles hheld hfree
  exact ⟨actor, row, resolveActor_returns h₂, rfl, hfree, hacc, hroles, hheld⟩

/-- The actor manages every account that holds the role. -/
def ManagesHolders (db : AccountTables) (actor : Actor) (roleId : String) : Prop :=
  ∀ a ∈ db.accounts, (a.id, roleId) ∈ db.accountRoles →
    actor.authority.mayManage (stateOfRow db a.privilegeRow).authority = true

/-- Holders that passed the check are managed. -/
theorem managesHolders_of_check {roleId : String} {actor : Actor} {held : List AccountState}
    {w₁ w₂ : World} {onError : StorageError → Refusal}
    (hheld : Returns (stored onError (holders roleId)) w₁ held w₂)
    (hcheck : checkRoleHolders actor.authority held = .ok ()) :
    ManagesHolders w₁.db actor roleId := by
  intro a ha hholds
  have hmem : stateOfRow w₁.db a.privilegeRow ∈ held :=
    mem_holders_returns (returns_stored hheld) ha hholds
  simp only [checkRoleHolders, refuseIf_eq_ok, Bool.not_eq_false', List.all_eq_true] at hcheck
  exact hcheck _ hmem

/-- **A role edit that returns was checked for what the role carried and carries,
and rewrites that role only.** -/
theorem updateRole_returns {req : RoleUpdate} (h : Returns (updateRole session req) w () w') :
    ∃ actor, ActsAs w.db session userAdmin actor ∧ ManagesHolders w.db actor req.id ∧
      Within (fromBitsTruncate req.privileges) actor.authority.privileges ∧
      w'.db.accounts = w.db.accounts ∧
      w'.db.roles = setWhere (fun r => r.id = req.id)
        (fun r => { r with
          name := req.name
          privileges := (fromBitsTruncate req.privileges).toNat
          rank := req.rank
          color := colorOf req.color }) w.db.roles ∧
      w'.db.accountRoles = w.db.accountRoles := by
  obtain ⟨_, w₁, h₁, h⟩ := returns_bind.mp h
  obtain ⟨-, rfl⟩ := returns_check.mp h₁
  obtain ⟨actor, w₂, h₂, h⟩ := returns_bind.mp h
  have hdb₂ := (resolveActor_keeps _ _).returns h₂
  obtain ⟨role, w₃, h₃, h⟩ := returns_bind.mp h
  have hdb₃ := (existingRole_keeps _ _).returns h₃
  obtain ⟨_, w₄, h₄, h⟩ := returns_bind.mp h
  obtain ⟨hrole, rfl⟩ := returns_policy.mp h₄
  obtain ⟨held, w₅, h₅, h⟩ := returns_bind.mp h
  have hdb₅ := (stored_keeps (holders_keeps _) _).returns h₅
  obtain ⟨_, w₆, h₆, h⟩ := returns_bind.mp h
  obtain ⟨hmanaged, rfl⟩ := returns_policy.mp h₆
  obtain ⟨_, w₇, h₇, h⟩ := returns_bind.mp h
  obtain ⟨hacc, hroles, hheld⟩ := Roles.returns_update (returns_stored h₇)
  have hdb₈ : w'.db = w₇.db := by
    split at h
    · exact (kickChanged_keeps _).returns h
    · rw [(returns_pure.mp h).2]
  have hpool : w₅.pool.db = w.db := by
    rw [← hdb₂, ← hdb₃, ← hdb₅]
    rfl
  have hmanages := managesHolders_of_check h₅ hmanaged
  rw [hdb₃, hdb₂] at hmanages
  rw [hpool] at hacc hroles hheld
  rw [hdb₈]
  exact ⟨actor, resolveActor_returns h₂, hmanages, (union_within_iff.mp (checkRolePrivileges_within hrole)).2,
    hacc, hroles, hheld⟩

/-- **A role deletion that returns was checked for every holder, and removes the
role and its assignments.** -/
theorem deleteRole_returns {id : String} (h : Returns (deleteRole session id) w () w') :
    ∃ actor, ActsAs w.db session userAdmin actor ∧ ManagesHolders w.db actor id ∧
      w'.db.accounts = w.db.accounts ∧ w'.db.roles = w.db.roles.filter (fun r => r.id ≠ id) ∧
      w'.db.accountRoles = w.db.accountRoles.filter fun x => x.2 ≠ id := by
  obtain ⟨actor, w₁, h₁, h⟩ := returns_bind.mp h
  have hdb₁ := (resolveActor_keeps _ _).returns h₁
  obtain ⟨role, w₂, h₂, h⟩ := returns_bind.mp h
  have hdb₂ := (existingRole_keeps _ _).returns h₂
  obtain ⟨_, w₃, h₃, h⟩ := returns_bind.mp h
  obtain ⟨-, rfl⟩ := returns_policy.mp h₃
  obtain ⟨held, w₄, h₄, h⟩ := returns_bind.mp h
  have hdb₄ := (stored_keeps (holders_keeps _) _).returns h₄
  obtain ⟨_, w₅, h₅, h⟩ := returns_bind.mp h
  obtain ⟨hmanaged, rfl⟩ := returns_policy.mp h₅
  obtain ⟨_, w₆, h₆, h⟩ := returns_bind.mp h
  obtain ⟨hacc, hroles, hheld⟩ := Roles.returns_delete (returns_stored h₆)
  have hdb₇ := (kickChanged_keeps _).returns h
  have hpool : w₄.pool.db = w.db := by
    rw [← hdb₁, ← hdb₂, ← hdb₄]
    rfl
  have hmanages := managesHolders_of_check h₄ hmanaged
  rw [hdb₂, hdb₁] at hmanages
  rw [hpool] at hacc hroles hheld
  rw [hdb₇]
  exact ⟨actor, resolveActor_returns h₁, hmanages, hacc, hroles, hheld⟩

/-- **An assignment that returns was checked for what the role carries and for
its target, and touches that one holding.** -/
theorem setRoleAssignment_returns {username roleId : String} {assign : Bool}
    (h : Returns (setRoleAssignment session username roleId assign) w () w') :
    ∃ actor, ∃ row ∈ w.db.roles, ∃ target, ActsAs w.db session userAdmin actor ∧
      row.id = roleId ∧ Within (fromRow row).privileges actor.authority.privileges ∧
      storedState w.db username = some target ∧
      actor.authority.mayManage target.authority = true ∧
      w'.db.accounts = w.db.accounts ∧ w'.db.roles = w.db.roles ∧
      ∀ x, x ≠ (target.accountId, roleId) → (x ∈ w'.db.accountRoles ↔ x ∈ w.db.accountRoles) := by
  obtain ⟨actor, w₁, h₁, h⟩ := returns_bind.mp h
  have hdb₁ := (resolveActor_keeps _ _).returns h₁
  obtain ⟨role, w₂, h₂, h⟩ := returns_bind.mp h
  have hdb₂ := (existingRole_keeps _ _).returns h₂
  obtain ⟨target, w₃, h₃, h⟩ := returns_bind.mp h
  have hdb₃ := (existingAccount_keeps _ _).returns h₃
  obtain ⟨_, w₄, h₄, h⟩ := returns_bind.mp h
  obtain ⟨hwithin, rfl⟩ := returns_policy.mp h₄
  obtain ⟨_, w₅, h₅, h⟩ := returns_bind.mp h
  obtain ⟨hmanaged, rfl⟩ := returns_policy.mp h₅
  obtain ⟨_, w₆, h₆, h⟩ := returns_bind.mp h
  have hdb₇ := (kickChanged_keeps _).returns h
  have htarget := existingAccount_returns h₃
  rw [hdb₂, hdb₁] at htarget
  obtain ⟨row, hrow, hid, rfl⟩ := existingRole_returns h₂
  rw [hdb₁] at hrow
  have hpool : w₃.pool.db = w.db := by
    rw [← hdb₁, ← hdb₂, ← hdb₃]
    rfl
  rw [hdb₇]
  refine ⟨actor, row, hrow, target, resolveActor_returns h₁, hid,
    checkRolePrivileges_within hwithin, htarget, by simpa using hmanaged, ?_⟩
  cases assign with
  | true =>
    obtain ⟨hacc, hroles, hheld⟩ := Roles.returns_assign (returns_stored h₆)
    rw [hpool] at hacc hroles hheld
    exact ⟨hacc, hroles, fun x hx => (hheld x).trans (or_iff_right hx)⟩
  | false =>
    obtain ⟨hacc, hroles, hheld⟩ := Roles.returns_unassign (returns_stored h₆)
    rw [hpool] at hacc hroles hheld
    refine ⟨hacc, hroles, fun x hx => ?_⟩
    change x ∈ w₆.pool.db.accountRoles ↔ x ∈ w.db.accountRoles
    rw [hheld, List.mem_filter]
    exact and_iff_left (decide_eq_true hx)

end

end Auth

end KdxHotline
