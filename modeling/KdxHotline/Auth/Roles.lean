import KdxHotline.Auth.Authority
import KdxHotline.Storage.Accounts

/-!
# Stored privileges

The questions the admin policy asks of the database: an account's current class
and effective privileges, who holds a role, how many administrators remain. Each
is answered by statements that may fail, and each has a pure counterpart that
says what the tables themselves answer: `KdxHotline.Auth.accountState_returns`
is the link the policy proofs use, so that they never look at a statement.
-/

namespace KdxHotline

namespace Auth

open Foundations Storage

open Privileges

/-- A role with its privilege bits decoded. -/
structure Role where
  id : String
  name : String
  privileges : Privileges
  rank : ℤ
  color : Option String
  deriving DecidableEq, Repr

/-- The privileges a stored mask stands for. -/
def privilegesFromStored (value : ℤ) : Privileges := fromBitsTruncate (BitVec.ofInt 32 value)

/-- What storing a set of privileges and reading it back gives. -/
@[simp] theorem privilegesFromStored_toNat (p : BitVec 32) :
    privilegesFromStored (p.toNat : ℤ) = fromBitsTruncate p := by
  simp [privilegesFromStored]

/-- A role of its row. -/
def fromRow (row : RoleRow) : Role :=
  ⟨row.id, row.name, privilegesFromStored row.privileges, row.rank, row.color⟩

/-- A stored class value as a class. Out-of-range values read as the nearest
class. -/
def classFromStored (value : ℤ) : BaseClass :=
  (BaseClass.tryFrom (min (max value 0) 3).toNat).getD .admin

@[simp] theorem classFromStored_toNat (c : BaseClass) : classFromStored (c.toNat : ℤ) = c := by
  cases c <;> rfl

/-! ### What the tables say -/

/-- The union of the privileges of the listed roles. -/
def unionPrivileges (rows : List RoleRow) : Privileges :=
  rows.foldl (fun acc r => acc ||| privilegesFromStored r.privileges) Privileges.empty

/-- A bit of a union of roles is a bit of one of them. -/
theorem unionPrivileges_bit (rows : List RoleRow) (i : ℕ) :
    (unionPrivileges rows).getLsbD i = true ↔
      ∃ r ∈ rows, (privilegesFromStored r.privileges).getLsbD i = true := by
  have hfold : ∀ (rows : List RoleRow) (acc : Privileges),
      (rows.foldl (fun acc r => acc ||| privilegesFromStored r.privileges) acc).getLsbD i = true ↔
        acc.getLsbD i = true ∨
          ∃ r ∈ rows, (privilegesFromStored r.privileges).getLsbD i = true := by
    intro rows
    induction rows with
    | nil => simp
    | cons r rows ih =>
      intro acc
      rw [List.foldl_cons, ih, BitVec.getLsbD_or, Bool.or_eq_true, List.exists_mem_cons_iff, or_assoc]
  rw [unionPrivileges, hfold]
  simp [Privileges.empty]

/-- The roles an account holds, in rank order. -/
def rolesOf (db : AccountTables) (accountId : String) : List RoleRow :=
  (db.roles.filter fun r => (accountId, r.id) ∈ db.accountRoles).insertionSort
    fun a b => b.rank ≤ a.rank

/-- The privilege-relevant state of a stored account. -/
def stateOfRow (db : AccountTables) (row : AccountPrivilegeRow) : AccountState :=
  ⟨row.id, row.username, classFromStored row.baseClass, BitVec.ofInt 32 row.granted,
    BitVec.ofInt 32 row.revoked, unionPrivileges (rolesOf db row.id)⟩

/-- The stored state of the account of a name. -/
def storedState (db : AccountTables) (username : String) : Option AccountState :=
  (db.account username).map fun a => stateOfRow db a.privilegeRow

/-- The stored state of every account. -/
def storedStates (db : AccountTables) : List AccountState :=
  db.accounts.map fun a => stateOfRow db a.privilegeRow

theorem storedState_eq_some {db : AccountTables} {username : String} {s : AccountState}
    (h : storedState db username = some s) :
    ∃ a ∈ db.accounts, a.username = username ∧ s = stateOfRow db a.privilegeRow := by
  obtain ⟨a, ha, rfl⟩ := Option.map_eq_some_iff.mp h
  obtain ⟨hmem, hname⟩ := AccountTables.mem_of_account ha
  exact ⟨a, hmem, hname, rfl⟩

theorem storedState_of_mem {db : AccountTables} {a : AccountRow} (ha : a ∈ db.accounts) :
    storedState db a.username = some (stateOfRow db a.privilegeRow) := by
  rw [storedState, AccountTables.account_username ha, Option.map_some]

/-- **An account's role privileges, bit by bit:** one of the roles it holds has
the bit. -/
theorem rolePrivileges_bit (db : AccountTables) (row : AccountPrivilegeRow) (i : ℕ) :
    (stateOfRow db row).rolePrivileges.getLsbD i = true ↔
      ∃ r ∈ db.roles, (row.id, r.id) ∈ db.accountRoles ∧
        (privilegesFromStored r.privileges).getLsbD i = true := by
  rw [stateOfRow, unionPrivileges_bit]
  simp [rolesOf, and_assoc]

/-! ### The role manager -/

/-- The account whose columns are at hand, with its roles' privileges. -/
def accountStateFromRow (row : AccountPrivilegeRow) :
    Fallible AccountPool StorageError AccountState := do
  let rows ← Roles.forAccount row.id
  return ⟨row.id, row.username, classFromStored row.baseClass, BitVec.ofInt 32 row.granted,
    BitVec.ofInt 32 row.revoked, unionPrivileges rows⟩

/-- An account's stored class, overrides and role privileges. -/
def accountState (username : String) : Fallible AccountPool StorageError (Option AccountState) := do
  match ← Roles.accountPrivileges username with
  | some row => return some (← accountStateFromRow row)
  | none => return none

/-- One role by id. -/
def getRole (id : String) : Fallible AccountPool StorageError (Option Role) := do
  return (← Roles.byId id).map fromRow

/-- The states of the listed accounts, one after another. -/
def accountStates : List AccountPrivilegeRow → Fallible AccountPool StorageError (List AccountState)
  | [] => return []
  | row :: rows => do
    let s ← accountStateFromRow row
    return s :: (← accountStates rows)

/-- The current state of every account holding a role. -/
def holders (roleId : String) : Fallible AccountPool StorageError (List AccountState) := do
  accountStates (← Roles.holders roleId)

/-- How many accounts other than `username` can still administer the server. -/
def otherAdministrators (username : String) : Fallible AccountPool StorageError ℕ :=
  Roles.countAdministrators (adminCore.toNat : ℤ) username

section

variable {p q : AccountPool}

theorem accountStateFromRow_keeps (row : AccountPrivilegeRow) :
    Keeps Pool.db (accountStateFromRow row) :=
  (query_keeps _).bind fun _ => keeps_pure _

theorem accountState_keeps (username : String) : Keeps Pool.db (accountState username) := by
  refine (query_keeps _).bind fun row => ?_
  cases row with
  | none => exact keeps_pure _
  | some row => exact (accountStateFromRow_keeps row).bind fun _ => keeps_pure _

theorem getRole_keeps (id : String) : Keeps Pool.db (getRole id) :=
  (query_keeps _).bind fun _ => keeps_pure _

theorem accountStates_keeps : ∀ rows, Keeps Pool.db (accountStates rows)
  | [] => keeps_pure _
  | row :: rows => (accountStateFromRow_keeps row).bind fun _ =>
      (accountStates_keeps rows).bind fun _ => keeps_pure _

theorem holders_keeps (roleId : String) : Keeps Pool.db (holders roleId) :=
  (query_keeps _).bind fun rows => accountStates_keeps rows

theorem otherAdministrators_keeps (username : String) :
    Keeps Pool.db (otherAdministrators username) := by
  unfold otherAdministrators Roles.countAdministrators
  exact query_keeps _

theorem accountStateFromRow_returns {row : AccountPrivilegeRow} {s : AccountState}
    (h : Returns (accountStateFromRow row) p s q) : s = stateOfRow p.db row := by
  obtain ⟨rows, r, h₁, h₂⟩ := returns_bind.mp h
  obtain ⟨rfl, -⟩ := returns_query h₁
  obtain ⟨rfl, -⟩ := returns_pure.mp h₂
  rfl

/-- The accounts that are read are those of the rows. -/
theorem accountStates_returns : ∀ {rows : List AccountPrivilegeRow} {states : List AccountState}
    {p q : AccountPool}, Returns (accountStates rows) p states q →
      states = rows.map (stateOfRow p.db)
  | [], _, _, _, h => (returns_pure.mp h).1.symm
  | row :: rows, _, p, _, h => by
    obtain ⟨s, r, h₁, h₂⟩ := returns_bind.mp h
    obtain ⟨rest, t, h₃, h₄⟩ := returns_bind.mp h₂
    obtain ⟨rfl, -⟩ := returns_pure.mp h₄
    rw [List.map_cons, accountStateFromRow_returns h₁, accountStates_returns h₃,
      (accountStateFromRow_keeps row).returns h₁]

/-- **Every account that holds the role is among the holders that were read.** -/
theorem mem_holders_returns {roleId : String} {held : List AccountState}
    (h : Returns (holders roleId) p held q) {a : AccountRow} (ha : a ∈ p.db.accounts)
    (hholds : (a.id, roleId) ∈ p.db.accountRoles) : stateOfRow p.db a.privilegeRow ∈ held := by
  obtain ⟨rows, r, h₁, h₂⟩ := returns_bind.mp h
  obtain ⟨rfl, hdb⟩ := returns_query h₁
  rw [accountStates_returns h₂, hdb]
  refine List.mem_map.mpr ⟨a.privilegeRow, List.mem_map.mpr ⟨a, ?_, rfl⟩, rfl⟩
  rw [List.mem_insertionSort]
  exact List.mem_filter.mpr ⟨ha, decide_eq_true hholds⟩

/-- **An account state that was read is the stored one.** -/
theorem accountState_returns {username : String} {s : Option AccountState}
    (h : Returns (accountState username) p s q) : s = storedState p.db username := by
  obtain ⟨row, r, h₁, h₂⟩ := returns_bind.mp h
  obtain ⟨hrow, hdb⟩ := returns_query h₁
  rw [storedState]
  cases ha : p.db.account username with
  | none =>
    rw [ha, Option.map_none] at hrow
    subst hrow
    exact (returns_pure.mp h₂).1.symm
  | some a =>
    rw [ha, Option.map_some] at hrow
    subst hrow
    obtain ⟨t, u, h₃, h₄⟩ := returns_bind.mp h₂
    rw [← (returns_pure.mp h₄).1, accountStateFromRow_returns h₃, hdb, Option.map_some]

/-- A role that was read is the stored one. -/
theorem getRole_returns {id : String} {role : Option Role} (h : Returns (getRole id) p role q) :
    role = (p.db.roles.find? fun r => r.id = id).map fromRow := by
  obtain ⟨row, r, h₁, h₂⟩ := returns_bind.mp h
  obtain ⟨rfl, -⟩ := returns_query h₁
  exact (returns_pure.mp h₂).1.symm

end

end Auth

end KdxHotline
