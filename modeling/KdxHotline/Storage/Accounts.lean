import KdxHotline.Foundations.Table
import KdxHotline.Storage.Pool
import Mathlib.Data.BitVec

/-!
# The account tables

Accounts, roles, the assignment of roles to accounts, and bans: the tables the
admin requests read and write, with the statements the storage layer sends them.

The schema's constraints are fields of `KdxHotline.Storage.AccountTables`, so a
state that violates one of them cannot be built: every statement below either
reports the constraint it would break or proves that it breaks none. Integers
are stored as `Int`, and what they mean (a class, a mask of privileges) is for
the layer above to say.
-/

namespace KdxHotline

namespace Storage

open Foundations

/-! ### The tables -/

/-- A row of `accounts`. -/
structure AccountRow where
  id : String
  username : String
  passwordPhc : String
  credential : Option String
  baseClass : ℤ
  granted : ℤ
  revoked : ℤ
  deriving DecidableEq, Repr

/-- A row of `roles`. -/
structure RoleRow where
  id : String
  name : String
  privileges : ℤ
  rank : ℤ
  color : Option String
  deriving DecidableEq, Repr

/-- A row of `bans`. -/
structure BanRow where
  accountId : String
  until_ : ℤ
  reason : String
  bannedBy : String
  bannedByClass : ℤ
  deriving DecidableEq, Repr

/-- The account tables with the constraints of their schema. -/
structure AccountTables where
  accounts : List AccountRow
  roles : List RoleRow
  /-- `account_roles`: an account's id and the id of a role it holds. -/
  accountRoles : List (String × String)
  bans : List BanRow
  accounts_id : UniqueKey AccountRow.id accounts
  accounts_username : UniqueKey AccountRow.username accounts
  roles_id : UniqueKey RoleRow.id roles
  roles_name : UniqueKey RoleRow.name roles
  accountRoles_pk : accountRoles.Nodup
  accountRoles_account : ∀ p ∈ accountRoles, p.1 ∈ accounts.map AccountRow.id
  accountRoles_role : ∀ p ∈ accountRoles, p.2 ∈ roles.map RoleRow.id
  bans_pk : UniqueKey BanRow.accountId bans
  bans_account : ∀ b ∈ bans, b.accountId ∈ accounts.map AccountRow.id

instance lawfulBEq_accountRole : LawfulBEq (String × String) := inferInstance

theorem accountRoles_pk_nil : ([] : List (String × String)).Nodup := List.nodup_nil

theorem accountRoles_role_nil :
    ∀ p ∈ ([] : List (String × String)), p.2 ∈ ([] : List RoleRow).map RoleRow.id := by
  simp

/-- A fresh database. -/
def AccountTables.empty : AccountTables where
  accounts := []
  roles := []
  accountRoles := []
  bans := []
  accounts_id := uniqueKey_nil _
  accounts_username := uniqueKey_nil _
  roles_id := uniqueKey_nil _
  roles_name := uniqueKey_nil _
  accountRoles_pk := accountRoles_pk_nil
  accountRoles_account := by simp
  accountRoles_role := accountRoles_role_nil
  bans_pk := uniqueKey_nil _
  bans_account := by simp

/-- The account of a name. -/
def AccountTables.account (db : AccountTables) (username : String) : Option AccountRow :=
  db.accounts.find? fun a => a.username = username

theorem AccountTables.mem_of_account {db : AccountTables} {username : String} {a : AccountRow}
    (h : db.account username = some a) : a ∈ db.accounts ∧ a.username = username :=
  ⟨List.mem_of_find?_eq_some h, by simpa using List.find?_some h⟩

/-- Usernames are unique, so every row is found under its own. -/
theorem AccountTables.account_username {db : AccountTables} {a : AccountRow}
    (ha : a ∈ db.accounts) : db.account a.username = some a := by
  cases h : db.account a.username with
  | none => simpa using List.find?_eq_none.mp h a ha
  | some b =>
    obtain ⟨hb, hname⟩ := AccountTables.mem_of_account h
    rw [db.accounts_username.eq hb ha hname]

/-- The tables of the accounts, with the failures of their statements. -/
abbrev AccountPool := Pool AccountTables

/-! ### Statements on `accounts` -/

namespace Accounts

/-- Create an account with its credential and privilege overrides in a single
`INSERT`. -/
def create (id username credential : String) (baseClass granted revoked : ℤ) :
    Fallible AccountPool StorageError AccountRow :=
  let row : AccountRow := ⟨id, username, "", some credential, baseClass, granted, revoked⟩
  statement fun db =>
    if h : ∃ r ∈ db.accounts, r.id = id ∨ r.username = username then .error .alreadyExists
    else .ok (row, { db with
      accounts := db.accounts ++ [row]
      accounts_id := db.accounts_id.append fun r hr he => h ⟨r, hr, .inl he⟩
      accounts_username := db.accounts_username.append fun r hr he => h ⟨r, hr, .inr he⟩
      accountRoles_account := fun p hp => by
        rw [List.map_append]
        exact List.mem_append_left _ (db.accountRoles_account p hp)
      bans_account := fun b hb => by
        rw [List.map_append]
        exact List.mem_append_left _ (db.bans_account b hb) })

/-- Rewrite columns of the accounts `p` selects, leaving `id` and `username`
alone. -/
def rewrite (db : AccountTables) (p : AccountRow → Bool) (f : AccountRow → AccountRow)
    (hid : ∀ r, (f r).id = r.id) (hname : ∀ r, (f r).username = r.username) : AccountTables :=
  { db with
    accounts := setWhere p f db.accounts
    accounts_id := db.accounts_id.setWhere_same hid
    accounts_username := db.accounts_username.setWhere_same hname
    accountRoles_account := fun q hq => by
      rw [map_setWhere hid]
      exact db.accountRoles_account q hq
    bans_account := fun b hb => by
      rw [map_setWhere hid]
      exact db.bans_account b hb }

/-- Set base class and privilege overrides in one shot. -/
def update (username : String) (baseClass granted revoked : ℤ) :
    Fallible AccountPool StorageError Unit :=
  statement fun db =>
    if (db.account username).isSome then
      .ok ((), rewrite db (fun r => r.username = username)
        (fun r => { r with baseClass := baseClass, granted := granted, revoked := revoked })
        (fun _ => rfl) fun _ => rfl)
    else .error .notFound

/-- Replace an account's credential, with `expected` only if the stored one is
still that. Whether a row was updated. -/
def setCredential (id credential : String) (expected : Option String) :
    Fallible AccountPool StorageError Bool :=
  statement fun db =>
    let selects : AccountRow → Bool := fun r =>
      r.id = id && (expected.isNone || r.credential == expected)
    .ok (db.accounts.any selects, rewrite db selects
      (fun r => { r with credential := some credential, passwordPhc := "" })
      (fun _ => rfl) fun _ => rfl)

section

variable {p q : AccountPool} {id username credential : String} {baseClass granted revoked : ℤ}

/-- **An account that was created is the new last row, and held no name or id
that was there.** -/
theorem returns_create {row : AccountRow}
    (h : Returns (create id username credential baseClass granted revoked) p row q) :
    row = ⟨id, username, "", some credential, baseClass, granted, revoked⟩ ∧
      (∀ r ∈ p.db.accounts, r.id ≠ id ∧ r.username ≠ username) ∧
      q.db.accounts = p.db.accounts ++ [row] ∧ q.db.roles = p.db.roles ∧
      q.db.accountRoles = p.db.accountRoles := by
  simp only [create] at h
  have hs := returns_statement h
  split at hs
  · cases hs
  · rename_i hfree
    obtain ⟨rfl, hdb⟩ := outcome_inj hs
    rw [← hdb]
    refine ⟨rfl, fun r hr => ?_, rfl, rfl, rfl⟩
    exact ⟨fun he => hfree ⟨r, hr, .inl he⟩, fun he => hfree ⟨r, hr, .inr he⟩⟩

theorem update_atomic : Atomic Pool.db (update username baseClass granted revoked) :=
  statement_atomic _

theorem returns_update (h : Returns (update username baseClass granted revoked) p () q) :
    q.db.accounts = setWhere (fun r => r.username = username)
        (fun r => { r with baseClass := baseClass, granted := granted, revoked := revoked })
        p.db.accounts ∧
      q.db.roles = p.db.roles ∧ q.db.accountRoles = p.db.accountRoles := by
  have hs := returns_statement h
  split at hs
  · obtain ⟨-, hdb⟩ := outcome_inj hs
    rw [← hdb]
    exact ⟨rfl, rfl, rfl⟩
  · cases hs

/-- **A credential that was replaced is the only column that changes**, in the
row of that id. -/
theorem returns_setCredential {expected : Option String} {done : Bool}
    (h : Returns (setCredential id credential expected) p done q) :
    q.db.accounts = setWhere (fun r => r.id = id && (expected.isNone || r.credential == expected))
        (fun r => { r with credential := some credential, passwordPhc := "" }) p.db.accounts ∧
      q.db.roles = p.db.roles ∧ q.db.accountRoles = p.db.accountRoles := by
  obtain ⟨-, hdb⟩ := outcome_inj (returns_statement h)
  rw [← hdb]
  exact ⟨rfl, rfl, rfl⟩

/-- Rewriting rows none of which is selected changes nothing. -/
theorem rewrite_of_none {db : AccountTables} {p : AccountRow → Bool} {f : AccountRow → AccountRow}
    {hid : ∀ r, (f r).id = r.id} {hname : ∀ r, (f r).username = r.username}
    (hnone : db.accounts.any p = false) : rewrite db p f hid hname = db := by
  have hsame : setWhere p f db.accounts = db.accounts := by
    refine (List.map_congr_left fun r hr => ?_).trans (List.map_id _)
    exact if_neg (List.any_eq_false.mp hnone r hr)
  cases db
  simp only [rewrite, AccountTables.mk.injEq, and_true]
  exact hsame

/-- A credential that found no account to go to changed nothing. -/
theorem setCredential_missed {expected : Option String}
    (h : Returns (setCredential id credential expected) p false q) : q.db = p.db := by
  obtain ⟨hnone, hdb⟩ := outcome_inj (returns_statement h)
  rw [← hdb, rewrite_of_none hnone]

end

end Accounts

/-! ### Statements on `roles` and `account_roles` -/

/-- The privilege-relevant columns of one account. -/
structure AccountPrivilegeRow where
  id : String
  username : String
  baseClass : ℤ
  granted : ℤ
  revoked : ℤ
  deriving DecidableEq, Repr

/-- Drop the credential columns of an account. -/
def AccountRow.privilegeRow (a : AccountRow) : AccountPrivilegeRow :=
  ⟨a.id, a.username, a.baseClass, a.granted, a.revoked⟩

namespace Roles

/-- Insert a role. -/
def create (id name : String) (privileges rank : ℤ) (color : Option String) :
    Fallible AccountPool StorageError RoleRow :=
  let row : RoleRow := ⟨id, name, privileges, rank, color⟩
  statement fun db =>
    if h : ∃ r ∈ db.roles, r.id = id ∨ r.name = name then .error .alreadyExists
    else .ok (row, { db with
      roles := db.roles ++ [row]
      roles_id := db.roles_id.append fun r hr he => h ⟨r, hr, .inl he⟩
      roles_name := db.roles_name.append fun r hr he => h ⟨r, hr, .inr he⟩
      accountRoles_role := fun p hp => by
        rw [List.map_append]
        exact List.mem_append_left _ (db.accountRoles_role p hp) })

/-- Rename a role and/or change its privilege bits, rank, or color. -/
def update (id name : String) (privileges rank : ℤ) (color : Option String) :
    Fallible AccountPool StorageError Unit :=
  let set : RoleRow → RoleRow := fun r =>
    { r with name := name, privileges := privileges, rank := rank, color := color }
  statement fun db =>
    if db.roles.all fun r => r.id ≠ id then .error .notFound
    else if h : ∃ r ∈ db.roles, r.id ≠ id ∧ r.name = name then .error .alreadyExists
    else .ok ((), { db with
      roles := setWhere (fun r => r.id = id) set db.roles
      roles_id := db.roles_id.setWhere_same fun _ => rfl
      roles_name := db.roles_name.setWhere_fresh db.roles_id
        (fun r _ r' _ hr hr' => by simp only [decide_eq_true_eq] at hr hr'; rw [hr, hr'])
        (fun r _ r' hr' _ hne he => h ⟨r', hr', by simpa using hne, he.symm⟩)
      accountRoles_role := fun p hp => by
        have hids : (setWhere (fun r => r.id = id) set db.roles).map RoleRow.id =
            db.roles.map RoleRow.id := map_setWhere fun _ => rfl
        rw [hids]
        exact db.accountRoles_role p hp })

/-- Delete a role and any account assignments referencing it: the assignments
first, in a statement of their own. -/
def delete (id : String) : Fallible AccountPool StorageError Unit := do
  statement fun db => .ok ((), { db with
    accountRoles := db.accountRoles.filter fun p => p.2 ≠ id
    accountRoles_pk := db.accountRoles_pk.filter _
    accountRoles_account := fun p hp => db.accountRoles_account p (List.mem_of_mem_filter hp)
    accountRoles_role := fun p hp => db.accountRoles_role p (List.mem_of_mem_filter hp) })
  statement fun db =>
    if db.roles.all fun r => r.id ≠ id then .error .notFound
    else .ok ((), { db with
      roles := db.roles.filter fun r => r.id ≠ id
      -- the schema's ON DELETE CASCADE
      accountRoles := db.accountRoles.filter fun p => p.2 ≠ id
      roles_id := db.roles_id.filter _
      roles_name := db.roles_name.filter _
      accountRoles_pk := db.accountRoles_pk.filter _
      accountRoles_account := fun p hp => db.accountRoles_account p (List.mem_of_mem_filter hp)
      accountRoles_role := fun p hp => by
        obtain ⟨hp, hne⟩ := List.mem_filter.mp hp
        obtain ⟨r, hr, hid⟩ := List.mem_map.mp (db.accountRoles_role p hp)
        exact List.mem_map.mpr ⟨r, List.mem_filter.mpr ⟨hr, by rw [hid]; exact hne⟩, hid⟩ })

/-- Assign a role to an account. Assigning twice changes nothing. -/
def assign (accountId roleId : String) : Fallible AccountPool StorageError Unit :=
  statement fun db =>
    if hpk : (accountId, roleId) ∈ db.accountRoles then .ok ((), db)
    else if hfk : accountId ∈ db.accounts.map AccountRow.id ∧ roleId ∈ db.roles.map RoleRow.id then
      .ok ((), { db with
        accountRoles := (accountId, roleId) :: db.accountRoles
        accountRoles_pk := List.nodup_cons.mpr ⟨hpk, db.accountRoles_pk⟩
        accountRoles_account := List.forall_mem_cons.mpr ⟨hfk.1, db.accountRoles_account⟩
        accountRoles_role := List.forall_mem_cons.mpr ⟨hfk.2, db.accountRoles_role⟩ })
    else .error .foreignKey

/-- Take a role from an account. -/
def unassign (accountId roleId : String) : Fallible AccountPool StorageError Unit :=
  statement fun db => .ok ((), { db with
    accountRoles := db.accountRoles.filter fun p => p ≠ (accountId, roleId)
    accountRoles_pk := db.accountRoles_pk.filter _
    accountRoles_account := fun p hp => db.accountRoles_account p (List.mem_of_mem_filter hp)
    accountRoles_role := fun p hp => db.accountRoles_role p (List.mem_of_mem_filter hp) })

section

variable {p q : AccountPool} {id accountId roleId name : String} {privileges rank : ℤ}
  {color : Option String}

/-- A role that was created is the new last row, and nobody holds it yet. -/
theorem returns_create {row : RoleRow} (h : Returns (create id name privileges rank color) p row q) :
    row.id = id ∧ q.db.accounts = p.db.accounts ∧ q.db.roles = p.db.roles ++ [row] ∧
      q.db.accountRoles = p.db.accountRoles ∧ ∀ a, (a, id) ∉ p.db.accountRoles := by
  simp only [create] at h
  have hs := returns_statement h
  split at hs
  · cases hs
  · rename_i hfree
    obtain ⟨rfl, hdb⟩ := outcome_inj hs
    rw [← hdb]
    refine ⟨rfl, rfl, rfl, rfl, fun a ha => ?_⟩
    obtain ⟨r, hr, hid⟩ := List.mem_map.mp (p.db.accountRoles_role _ ha)
    exact hfree ⟨r, hr, .inl hid⟩

theorem update_atomic : Atomic Pool.db (update id name privileges rank color) := by
  unfold update
  exact statement_atomic _

theorem returns_update (h : Returns (update id name privileges rank color) p () q) :
    q.db.accounts = p.db.accounts ∧
      q.db.roles = setWhere (fun r => r.id = id)
        (fun r => { r with name := name, privileges := privileges, rank := rank, color := color })
        p.db.roles ∧
      q.db.accountRoles = p.db.accountRoles := by
  simp only [update] at h
  have hs := returns_statement h
  split at hs
  · cases hs
  · split at hs
    · cases hs
    · obtain ⟨-, hdb⟩ := outcome_inj hs
      rw [← hdb]
      exact ⟨rfl, rfl, rfl⟩

/-- A deleted role is gone, and no account has it. -/
theorem returns_delete (h : Returns (delete id) p () q) :
    q.db.accounts = p.db.accounts ∧ q.db.roles = p.db.roles.filter (fun r => r.id ≠ id) ∧
      q.db.accountRoles = p.db.accountRoles.filter fun a => a.2 ≠ id := by
  obtain ⟨_, r, h₁, h₂⟩ := returns_bind.mp h
  obtain ⟨-, hdb₁⟩ := outcome_inj (returns_statement h₁)
  have hs := returns_statement h₂
  split at hs
  · cases hs
  · obtain ⟨-, hdb₂⟩ := outcome_inj hs
    rw [← hdb₂, ← hdb₁]
    exact ⟨rfl, rfl, by simp [List.filter_filter]⟩

/-- **A deletion of a role that is there fails by a fault only**: before its first
statement, or between the two, when the assignments are already gone. -/
theorem fails_delete {e : StorageError} (hthere : id ∈ p.db.roles.map RoleRow.id)
    (h : Fails (delete id) p e q) :
    q.db = p.db ∨ e = .sqlx ∧ q.db.accounts = p.db.accounts ∧ q.db.roles = p.db.roles ∧
      q.db.accountRoles = p.db.accountRoles.filter fun a => a.2 ≠ id := by
  rcases fails_bind.mp h with h₁ | ⟨_, r, h₁, h₂⟩
  · exact .inl ((statement_atomic _).fails h₁)
  obtain ⟨-, hdb₁⟩ := outcome_inj (returns_statement h₁)
  have hdb₂ := (statement_atomic _).fails h₂
  rcases fails_statement h₂ with rfl | hmissing
  · rw [hdb₂, ← hdb₁]
    exact .inr ⟨rfl, rfl, rfl, rfl⟩
  · obtain ⟨row, hrow, hid⟩ := List.mem_map.mp hthere
    rw [← hdb₁] at hmissing
    rw [if_neg] at hmissing
    · cases hmissing
    · rw [List.all_eq_true]
      exact fun hall => by simpa [hid] using hall row hrow

/-- A role that was assigned is held by that account, and no other holding
changes. -/
theorem returns_assign (h : Returns (assign accountId roleId) p () q) :
    q.db.accounts = p.db.accounts ∧ q.db.roles = p.db.roles ∧
      ∀ x, x ∈ q.db.accountRoles ↔ x = (accountId, roleId) ∨ x ∈ p.db.accountRoles := by
  have hs := returns_statement h
  split at hs
  · rename_i hpk
    obtain ⟨-, hdb⟩ := outcome_inj hs
    rw [← hdb]
    exact ⟨rfl, rfl, fun x => ⟨.inr, fun hx => hx.elim (fun he => he ▸ hpk) id⟩⟩
  · split at hs
    · obtain ⟨-, hdb⟩ := outcome_inj hs
      rw [← hdb]
      exact ⟨rfl, rfl, fun x => List.mem_cons⟩
    · cases hs

theorem returns_unassign (h : Returns (unassign accountId roleId) p () q) :
    q.db.accounts = p.db.accounts ∧ q.db.roles = p.db.roles ∧
      q.db.accountRoles = p.db.accountRoles.filter fun x => x ≠ (accountId, roleId) := by
  obtain ⟨-, hdb⟩ := outcome_inj (returns_statement h)
  rw [← hdb]
  exact ⟨rfl, rfl, rfl⟩

end

/-- The roles assigned to an account, in rank order (highest first). -/
def forAccount (accountId : String) : Fallible AccountPool StorageError (List RoleRow) :=
  query fun db => (db.roles.filter fun r => (accountId, r.id) ∈ db.accountRoles).insertionSort
    fun a b => b.rank ≤ a.rank

/-- One role by id. -/
def byId (id : String) : Fallible AccountPool StorageError (Option RoleRow) :=
  query fun db => db.roles.find? fun r => r.id = id

/-- An account's class and overrides by username. -/
def accountPrivileges (username : String) :
    Fallible AccountPool StorageError (Option AccountPrivilegeRow) :=
  query fun db => (db.account username).map AccountRow.privilegeRow

/-- Every account currently holding a role, by name. -/
def holders (roleId : String) : Fallible AccountPool StorageError (List AccountPrivilegeRow) :=
  query fun db => ((db.accounts.filter fun a => (a.id, roleId) ∈ db.accountRoles).insertionSort
    fun a b => a.username ≤ b.username).map AccountRow.privilegeRow

/-- How many accounts other than `excludingUsername` are admin class with none
of `adminBits` revoked. -/
def countAdministrators (adminBits : ℤ) (excludingUsername : String) :
    Fallible AccountPool StorageError ℕ :=
  query fun db => db.accounts.countP fun a =>
    3 ≤ a.baseClass && (BitVec.ofInt 64 a.revoked &&& BitVec.ofInt 64 adminBits) == 0 &&
      a.username ≠ excludingUsername

end Roles

/-! ### Statements on `bans` -/

namespace Bans

/-- A ban in force as `removeIf` hands it to the caller's rank check. -/
structure RankedBan where
  until_ : ℤ
  reason : String
  bannedBy : String
  bannedByClass : ℤ
  deriving DecidableEq, Repr

/-- What `removeIf` did. -/
inductive Removal
  | removed (ban : RankedBan)
  | notBanned
  | refused (ban : RankedBan)
  deriving DecidableEq, Repr

/-- Keep the bans `p` selects. -/
def keep (db : AccountTables) (p : BanRow → Bool) : AccountTables :=
  { db with
    bans := db.bans.filter p
    bans_pk := db.bans_pk.filter _
    bans_account := fun b hb => db.bans_account b (List.mem_of_mem_filter hb) }

/-- Lift the ban on an account if one is in force at `now` and `allow` accepts
it, in one transaction; lapsed bans are swept first. -/
def removeIf (accountId : String) (now : ℤ) (allow : RankedBan → Bool) :
    Fallible AccountPool StorageError Removal :=
  transaction do
    statement fun db => .ok ((), keep db fun b => now < b.until_)
    let ban ← query fun db => db.bans.find? fun b => b.accountId = accountId
    match ban with
    | none => pure .notBanned
    | some b =>
      let ranked : RankedBan := ⟨b.until_, b.reason, b.bannedBy, b.bannedByClass⟩
      if allow ranked then
        statement fun db => .ok ((), keep db fun b => b.accountId ≠ accountId)
        pure (.removed ranked)
      else pure (.refused ranked)

end Bans

end Storage

end KdxHotline
