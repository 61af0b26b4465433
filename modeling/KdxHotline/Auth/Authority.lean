import KdxHotline.Auth.Classes
import KdxHotline.Crypto.Credential
import KdxHotline.Limits
import KdxHotline.Storage.Pool

/-!
# Who may change what

The pure half of the admin policy: the authority an actor acts with, the stored
state of the account it acts on, and the checks that compare the two. Every
refusal is one of `KdxHotline.Auth.Denied`, with the text the client is shown.

An actor's authority is its login snapshot *narrowed* by its stored account
(`KdxHotline.Auth.Actor.narrowed`), so a demotion bites at once while a promotion
waits for a fresh login.
-/

namespace KdxHotline

namespace Auth

open Foundations Storage

open Privileges Limits

/-- The privileges that make an account an administrator. -/
def adminCore : Privileges := userAdmin ||| serverAdmin

/-- Keep only privilege bits that are defined today. -/
def knownBits (bits : BitVec 32) : BitVec 32 := bits &&& all

@[simp] theorem fromBitsTruncate_knownBits (bits : BitVec 32) :
    fromBitsTruncate (knownBits bits) = fromBitsTruncate bits := fromBitsTruncate_and_all bits

/-! ### Refusals -/

/-- Why the policy refused a mutation. -/
inductive Denied
  | missing (privilege : String)
  | actorGone
  | invalidClass
  | classTooHigh
  | exceedsOwnPrivileges
  | targetOutranks
  | holderOutranks
  | selfEscalation
  | lastAdmin
  | banOutranks
  | unbanOutranks
  | ownPassword
  deriving DecidableEq, Repr

/-- The text shown to the client. -/
def Denied.toString : Denied → String
  | missing privilege => "missing " ++ privilege ++ " privilege"
  | actorGone => "your account no longer exists"
  | invalidClass => "invalid class (must be 0-3)"
  | classTooHigh => "you can only assign classes below your own"
  | exceedsOwnPrivileges => "you cannot grant privileges you do not hold yourself"
  | targetOutranks => "that account is at or above your rank, or has privileges you lack"
  | holderOutranks =>
      "that role is held by an account at or above your rank, or with privileges you lack"
  | selfEscalation => "you cannot raise your own class or privileges"
  | lastAdmin => "refusing: this would leave the server without an administrator"
  | banOutranks => "that ban was set by someone at or above your rank"
  | unbanOutranks => "cannot unban a higher-class user"
  | ownPassword => "use Change Password to change your own password"

/-- A failed admin request, split by what the client may see. -/
inductive Refusal
  | denied (message : String)
  | internal (what detail : String)
  deriving DecidableEq, Repr

/-- The refusal a policy check reports. -/
def Refusal.of (d : Denied) : Refusal := .denied d.toString

/-- The message to send the client. -/
def Refusal.clientMessage : Refusal → String
  | denied message => message
  | internal what _ => what ++ " failed: internal server error"

/-- The text of a storage error, without the driver's own. -/
def storageErrorText : StorageError → String
  | .sqlx => "database error"
  | .notFound => "row not found"
  | .alreadyExists => "already exists"
  | .foreignKey => "referenced item does not exist"

/-- Map a storage error: a uniqueness violation becomes `exists_`, a foreign-key
violation or missing row becomes `missing`, anything else is internal. -/
def Refusal.storage (what : String) (err : StorageError) (exists_ missing : String) : Refusal :=
  match err with
  | .notFound | .foreignKey => .denied missing
  | .alreadyExists => .denied exists_
  | .sqlx => .internal what (storageErrorText err)

/-- What can go wrong in the account manager. -/
inductive AuthError
  | accountExists
  | invalidUsername
  | storage (e : StorageError)
  | crypto (e : Crypto.CryptoError)
  deriving DecidableEq, Repr

/-- What a failure is reported as. -/
def AuthError.toString : AuthError → String
  | accountExists => "an account with that name already exists"
  | invalidUsername => "username must be 1 to " ++ maxUsernameLen.repr ++ " bytes"
  | storage e => "storage error: " ++ storageErrorText e
  | crypto e => "crypto error: " ++ e.toString

/-- The refusal that a failure of `what` is answered with; `missing` is said when the row is
gone. -/
def Refusal.auth (what : String) (err : AuthError) (missing : String) : Refusal :=
  match err with
  | .accountExists => .denied err.toString
  | .storage e => .storage what e "an account with that name already exists" missing
  | other => .internal what other.toString

/-! ### Authorities and accounts -/

/-- A class plus effective privileges: what an account can do. -/
structure Authority where
  class_ : BaseClass
  privileges : Privileges
  deriving DecidableEq, Repr

/-- Whether this authority may change `target`'s class, overrides or roles:
Admins may act on anyone, others only on strictly lower classes, and never on an
account holding privileges they lack. -/
def Authority.mayManage (self target : Authority) : Bool :=
  (self.class_ == .admin || decide (target.class_ < self.class_)) &&
    self.privileges.contains target.privileges

/-- An account's stored, privilege-relevant state. -/
structure AccountState where
  accountId : String
  username : String
  class_ : BaseClass
  granted : BitVec 32
  revoked : BitVec 32
  /-- Union of the privileges of every role the account holds. -/
  rolePrivileges : Privileges
  deriving DecidableEq, Repr

namespace AccountState

/-- The privileges an account ends up with. -/
def effective (s : AccountState) : Privileges :=
  effectivePrivileges s.class_ s.rolePrivileges s.granted s.revoked

/-- What an account may do: its class and its privileges. -/
def authority (s : AccountState) : Authority := ⟨s.class_, s.effective⟩

/-- Admin class and still holding every privilege of `adminCore`. -/
def administers (s : AccountState) : Bool :=
  s.class_ == .admin && s.effective.contains adminCore

/-- This account with a new class and overrides (same roles). -/
def withOverrides (s : AccountState) (class_ : BaseClass) (granted revoked : BitVec 32) :
    AccountState :=
  { s with class_ := class_, granted := granted, revoked := revoked }

end AccountState

/-- What a login left behind: the snapshot of the account's authority. -/
structure Session where
  username : String
  class_ : BaseClass
  privileges : Privileges
  deriving DecidableEq, Repr

/-- The account performing an admin request. -/
structure Actor where
  username : String
  authority : Authority
  deriving DecidableEq, Repr

/-- The login snapshot narrowed by the stored account: the lower class and the
intersection of privileges. -/
def Actor.narrowed (session : Session) (stored : AccountState) : Actor :=
  ⟨session.username, ⟨min session.class_ stored.class_, session.privileges &&& stored.effective⟩⟩

/-! ### The checks -/

/-- Validate a class the actor wants to give an account. -/
def checkAssignableClass (actor : Authority) (class_ : ℕ) : Except Denied BaseClass := do
  let class_ ← required .invalidClass (BaseClass.tryFrom class_)
  refuseIf (actor.class_ != .admin && decide (actor.class_ ≤ class_)) .classTooHigh
  return class_

/-- The granted bits, and everything an account gets from its class plus the
overrides, must be privileges the actor holds. The roles the account holds are
not looked at. -/
def checkOverrides (actor : Authority) (class_ : BaseClass) (granted revoked : BitVec 32) :
    Except Denied Unit :=
  let grantedBits := fromBitsTruncate granted
  let resulting := effectivePrivileges class_ Privileges.empty granted revoked
  refuseIf (!actor.privileges.contains (grantedBits ||| resulting)) .exceedsOwnPrivileges

/-- The check of a creation: returns the validated class. -/
def checkAccountCreate (actor : Authority) (class_ : ℕ) (granted revoked : BitVec 32) :
    Except Denied BaseClass := do
  let class_ ← checkAssignableClass actor class_
  checkOverrides actor class_ granted revoked
  return class_

/-- The check of an edit of `target`: returns the validated class. -/
def checkAccountUpdate (actor : Actor) (target : AccountState) (class_ : ℕ)
    (granted revoked : BitVec 32) : Except Denied BaseClass := do
  refuseIf (!actor.authority.mayManage target.authority) .targetOutranks
  let class_ ← checkAssignableClass actor.authority class_
  checkOverrides actor.authority class_ granted revoked
  let after := target.withOverrides class_ granted revoked
  refuseIf (target.username == actor.username &&
    (decide (target.class_ < class_) || !target.effective.contains after.effective)) .selfEscalation
  return class_

/-- The check of a password reset on `target`. -/
def checkPasswordReset (actor : Actor) (target : AccountState) : Except Denied Unit := do
  refuseIf (target.username == actor.username) .ownPassword
  refuseIf (!actor.authority.mayManage target.authority) .targetOutranks

/-- A role's privileges must all be ones the actor could grant. -/
def checkRolePrivileges (actor : Authority) (role : Privileges) : Except Denied Unit :=
  refuseIf (!actor.privileges.contains role) .exceedsOwnPrivileges

/-- Every account a role change would affect must be one the actor manages. -/
def checkRoleHolders (actor : Authority) (holders : List AccountState) : Except Denied Unit :=
  refuseIf (!holders.all fun h => actor.mayManage h.authority) .holderOutranks

/-- Whether `actor` may lift a ban set by `bannedBy` at class `bannedByClass`. -/
def mayLiftBan (actor : Actor) (bannedBy : String) (bannedByClass : BaseClass) : Bool :=
  actor.authority.class_ == .admin || decide (bannedByClass < actor.authority.class_) ||
    (actor.username == bannedBy && decide (bannedByClass ≤ actor.authority.class_))

/-- Whether going from `before` to `after` takes away an administrator. -/
def removesAdministrator (before after : AccountState) : Bool :=
  before.administers && !after.administers

/-- Whether a live session of this account would now hold stale privileges. -/
def privilegesChanged (before after : AccountState) : Bool :=
  before.class_ != after.class_ || before.effective != after.effective

/-- Whether a text is a hexadecimal colour such as `#e11b1b`. -/
def isHexColor (s : String) : Bool :=
  match s.toList with
  | '#' :: hex => [3, 4, 6, 8].contains hex.length && hex.all fun c =>
      ('0' ≤ c && c ≤ '9') || ('a' ≤ c && c ≤ 'f') || ('A' ≤ c && c ≤ 'F')
  | _ => false

/-- Validate the text fields of a role. -/
def validateRoleFields (name color : String) : Except String Unit := do
  refuseIf (isBlank name) "role name is required"
  checkLen "role name" name maxNameLen
  refuseIf (!color.isEmpty && !isHexColor color) "role color must be a hex value like #e11b1b"

/-- The name of the lowest privilege of a set. -/
def privilegeName (required : Privileges) : String :=
  ((named.find? fun p => required.contains p.2).map Prod.fst).getD "required"

/-! ### What an accepted change satisfies -/

section Accepted

variable {actor : Actor} {a : Authority} {target : AccountState} {class_ : ℕ} {c : BaseClass}
  {granted revoked : BitVec 32}

/-- An account's privileges bit by bit. -/
theorem AccountState.effective_bit (s : AccountState) (i : ℕ) :
    s.effective.getLsbD i = true ↔
      (s.class_.privileges.getLsbD i = true ∨ s.rolePrivileges.getLsbD i = true ∨
        (fromBitsTruncate s.granted).getLsbD i = true) ∧
      (fromBitsTruncate s.revoked).getLsbD i = false :=
  effectivePrivileges_bit _ _ _ _ i

/-- **What an account gets from class and overrides that were checked, the actor
holds.** -/
theorem checkOverrides_within (h : checkOverrides a c granted revoked = .ok ()) :
    Within (effectivePrivileges c Privileges.empty granted revoked) a.privileges := by
  simp only [checkOverrides, refuseIf_eq_ok, Bool.not_eq_false', contains_iff] at h
  exact (union_within_iff.mp h).2

theorem checkAccountCreate_overrides (h : checkAccountCreate a class_ granted revoked = .ok c) :
    checkOverrides a c granted revoked = .ok () := by
  obtain ⟨c', -, h⟩ := checks_pass.mp h
  obtain ⟨⟨⟩, hover, h⟩ := checks_pass.mp h
  cases h
  exact hover

theorem checkAccountUpdate_overrides
    (h : checkAccountUpdate actor target class_ granted revoked = .ok c) :
    checkOverrides actor.authority c granted revoked = .ok () := by
  obtain ⟨-, -, h⟩ := checks_pass.mp h
  obtain ⟨c', -, h⟩ := checks_pass.mp h
  obtain ⟨⟨⟩, hover, h⟩ := checks_pass.mp h
  obtain ⟨-, -, h⟩ := checks_pass.mp h
  cases h
  exact hover

theorem checkRolePrivileges_within {role : Privileges} (h : checkRolePrivileges a role = .ok ()) :
    Within role a.privileges := by
  simpa [checkRolePrivileges] using h

end Accepted

end Auth

end KdxHotline
