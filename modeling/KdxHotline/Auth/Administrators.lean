import KdxHotline.Auth.NoMinting
import KdxHotline.Foundations.Runs

/-!
# There is always an administrator

Whether an account administers the server is said twice: by its class and
effective privileges (`KdxHotline.Auth.AccountState.administers`), and by the SQL
that counts the others before one is taken away
(`KdxHotline.Storage.Roles.countAdministrators`). The two agree on every row, because
an admin has every privilege of its class and only a revocation takes one away; no
role and no grant matters.

Only an edit of an account has the guard. The other requests leave class and
revoked bits of every account alone
(`KdxHotline.Auth.Mutation.administered_of_keeps`).
-/

namespace KdxHotline

namespace Auth

open Foundations Storage

open Privileges

/-! ### Two ways to say it -/

/-- The predicate of the SQL that counts administrators, on one row. -/
def countedAdministrator (a : AccountRow) : Bool :=
  decide (3 ≤ a.baseClass) &&
    (BitVec.ofInt 64 a.revoked &&& BitVec.ofInt 64 (adminCore.toNat : ℤ)) == 0

/-- The two core privileges are defined ones, which the admin class has. -/
theorem adminCore_within_all : Within adminCore all := by decide

/-- Only a revocation keeps an account of the admin class from administering. -/
theorem AccountState.administers_iff (s : AccountState) :
    s.administers = true ↔ s.class_ = .admin ∧ s.revoked &&& adminCore = 0 := by
  rw [AccountState.administers, Bool.and_eq_true, beq_iff_eq, contains_iff]
  refine and_congr_right fun hadmin => ?_
  rw [and_eq_zero_iff, within_iff]
  have hall : ∀ i, adminCore.getLsbD i = true → all.getLsbD i = true :=
    within_iff.mp adminCore_within_all
  constructor
  · intro hcore i hi
    have hnot := ((s.effective_bit i).mp (hcore i hi)).2
    rwa [fromBitsTruncate, BitVec.getLsbD_and, hall i hi, Bool.and_true] at hnot
  · intro hrevoked i hi
    refine (s.effective_bit i).mpr ⟨.inl ?_, ?_⟩
    · rw [hadmin]
      exact hall i hi
    · rw [fromBitsTruncate, BitVec.getLsbD_and, hrevoked i hi, Bool.false_and]

/-- A stored class reads as admin from three on. -/
theorem classFromStored_eq_admin {value : ℤ} : classFromStored value = .admin ↔ 3 ≤ value := by
  have hclamp : (min (max value 0) 3).toNat = 3 ↔ 3 ≤ value := by omega
  have hle : (min (max value 0) 3).toNat ≤ 3 := by omega
  rw [← hclamp, classFromStored]
  generalize (min (max value 0) 3).toNat = n at hle
  have hcases : n = 0 ∨ n = 1 ∨ n = 2 ∨ n = 3 := by omega
  rcases hcases with rfl | rfl | rfl | rfl <;> decide

/-- Masking in 64 bits and in 32 finds the same core privileges. -/
theorem and_adminCore {value : ℤ} :
    BitVec.ofInt 64 value &&& BitVec.ofInt 64 (adminCore.toNat : ℤ) = 0 ↔
      BitVec.ofInt 32 value &&& adminCore = 0 := by
  have hvalue : BitVec.ofInt 32 value = (BitVec.ofInt 64 value).setWidth 32 := by
    refine BitVec.eq_of_toNat_eq ?_
    rw [BitVec.toNat_setWidth, BitVec.toNat_ofInt, BitVec.toNat_ofInt]
    omega
  have hcore : BitVec.ofInt 64 (adminCore.toNat : ℤ) = adminCore.setWidth 64 := by decide
  rw [hvalue, hcore]
  rw [and_eq_zero_iff, and_eq_zero_iff]
  constructor
  · intro h i hi
    have hlt : i < 32 := BitVec.lt_of_getLsbD hi
    have hwide : (adminCore.setWidth 64).getLsbD i = true := by
      rw [BitVec.getLsbD_setWidth, hi, Bool.and_true, decide_eq_true_eq]
      omega
    rw [BitVec.getLsbD_setWidth, h i hwide, Bool.and_false]
  · intro h i hi
    rw [BitVec.getLsbD_setWidth, Bool.and_eq_true] at hi
    have hlow := h i hi.2
    have hlt : i < 32 := BitVec.lt_of_getLsbD hi.2
    rwa [BitVec.getLsbD_setWidth, decide_eq_true hlt, Bool.true_and] at hlow

/-- **The SQL counts exactly the accounts that administer**, whatever is stored. -/
theorem countedAdministrator_eq (db : AccountTables) (a : AccountRow) :
    countedAdministrator a = (stateOfRow db a.privilegeRow).administers := by
  rw [Bool.eq_iff_iff, AccountState.administers_iff, countedAdministrator, Bool.and_eq_true,
    decide_eq_true_eq, beq_iff_eq, and_adminCore]
  exact and_congr_left' classFromStored_eq_admin.symm

/-- **The count of the other administrators** is that of the accounts of other names
that administer. -/
theorem otherAdministrators_returns {p q : AccountPool} {username : String} {others : ℕ}
    (h : Returns (otherAdministrators username) p others q) :
    others = (storedStates p.db).countP fun s => s.administers && decide (s.username ≠ username) := by
  rw [otherAdministrators, Roles.countAdministrators] at h
  obtain ⟨rfl, -⟩ := returns_query h
  rw [storedStates, List.countP_map]
  refine List.countP_congr fun a _ => ?_
  change (countedAdministrator a && _) = true ↔ _
  rw [countedAdministrator_eq p.db]
  rfl

/-! ### Every request leaves one -/

/-- The admin requests that run under the mutation lock. -/
inductive Mutation
  | admin (req : AdminRequest)
  | setAccountPassword (req : AccountSetPassword)
  | removeBan (now : ℤ) (username : String)

/-- Run a request for a session. -/
def Mutation.run (session : Session) : Mutation → Fallible World Refusal Unit
  | .admin req => req.run session
  | .setAccountPassword req => Auth.setAccountPassword session req
  | .removeBan now username => do
    let _ ← Auth.removeBan now session username

/-- A session's request is accepted. -/
def Accepts (w : World) (a : Session × Mutation) (w' : World) : Prop :=
  Returns (a.2.run a.1) w () w'

/-- Some account administers the server. -/
def Administered (db : AccountTables) : Prop := ∃ s ∈ storedStates db, s.administers = true

instance (db : AccountTables) : Decidable (Administered db) :=
  inferInstanceAs (Decidable (∃ s ∈ storedStates db, _))

theorem administered_iff {db : AccountTables} :
    Administered db ↔ ∃ a ∈ db.accounts, countedAdministrator a = true := by
  simp only [Administered, storedStates, List.mem_map, exists_exists_and_eq_and,
    countedAdministrator_eq db]

section Steps

variable {w w' : World} {session : Session} {db db' : AccountTables}

/-- A rewriting that leaves class and revoked bits alone leaves the administrators
there. -/
theorem administered_of_setWhere {p : AccountRow → Bool} {f : AccountRow → AccountRow}
    (hf : ∀ a, (f a).baseClass = a.baseClass ∧ (f a).revoked = a.revoked)
    (hacc : db'.accounts = setWhere p f db.accounts) (h : Administered db) : Administered db' := by
  obtain ⟨a, ha, hadmin⟩ := administered_iff.mp h
  refine administered_iff.mpr ⟨if p a then f a else a, ?_, ?_⟩
  · rw [hacc]
    exact mem_setWhere.mpr ⟨a, ha, rfl⟩
  · split
    · rw [countedAdministrator, (hf a).1, (hf a).2]
      exact hadmin
    · exact hadmin

theorem administered_of_subset (hacc : ∀ a ∈ db.accounts, a ∈ db'.accounts)
    (h : Administered db) : Administered db' := by
  obtain ⟨a, ha, hadmin⟩ := administered_iff.mp h
  exact administered_iff.mpr ⟨a, hacc a ha, hadmin⟩

/-- **An edit leaves an administrator**: the target, unless the edit takes it away,
and then the guard has counted another. -/
theorem updateAccount_administered {req : AccountUpdate}
    (h : Returns (updateAccount session req) w () w') (hadmin : Administered w.db) :
    Administered w'.db := by
  obtain ⟨actor, target, class_, -, htarget, -, hguard, hacc, -, -⟩ := updateAccount_returns h
  -- the rows of other names stay as they are
  have hother : ∀ a ∈ w.db.accounts, a.username ≠ req.username → a ∈ w'.db.accounts := by
    intro a ha hne
    rw [hacc]
    exact mem_setWhere.mpr ⟨a, ha, if_neg (by simpa using hne)⟩
  obtain ⟨a, ha, hcounted⟩ := administered_iff.mp hadmin
  by_cases hname : a.username = req.username
  case neg => exact administered_iff.mpr ⟨a, hother a ha hname, hcounted⟩
  obtain ⟨t, ht, htname, rfl⟩ := storedState_eq_some htarget
  obtain rfl : a = t := w.db.accounts_username.eq ha ht (hname.trans htname.symm)
  have hbefore := countedAdministrator_eq w.db a ▸ hcounted
  cases hremoves : removesAdministrator (stateOfRow w.db a.privilegeRow)
      ((stateOfRow w.db a.privilegeRow).withOverrides class_ (knownBits req.granted)
        (knownBits req.revoked)) with
  | true =>
    obtain ⟨p, others, q, hp, hothers, hne⟩ := hguard hremoves
    rw [otherAdministrators_returns hothers, hp, ← Nat.pos_iff_ne_zero, List.countP_pos_iff] at hne
    obtain ⟨s, hs, hcond⟩ := hne
    obtain ⟨b, hb, rfl⟩ := List.mem_map.mp hs
    obtain ⟨hb', hne⟩ := (Bool.and_eq_true _ _).mp hcond
    exact administered_iff.mpr ⟨b, hother b hb (of_decide_eq_true hne),
      countedAdministrator_eq w.db b ▸ hb'⟩
  | false =>
    have hafter : ((stateOfRow w.db a.privilegeRow).withOverrides class_ (knownBits req.granted)
        (knownBits req.revoked)).administers = true := by
      simpa [removesAdministrator, hbefore] using hremoves
    let edited : AccountRow := { a with
      baseClass := class_.toNat
      granted := (knownBits req.granted).toNat
      revoked := (knownBits req.revoked).toNat }
    have hmem : edited ∈ w'.db.accounts := by
      rw [hacc]
      exact mem_setWhere.mpr ⟨a, ha, if_pos (decide_eq_true hname)⟩
    refine ⟨_, List.mem_map.mpr ⟨edited, hmem, rfl⟩, ?_⟩
    obtain ⟨hclass, hrevoked⟩ := (AccountState.administers_iff _).mp hafter
    refine (AccountState.administers_iff _).mpr ⟨(classFromStored_toNat class_).trans hclass, ?_⟩
    have hstored : BitVec.ofInt 32 edited.revoked = knownBits req.revoked := by simp [edited]
    exact (congrArg (· &&& adminCore) hstored).trans hrevoked

/-- **An accepted request leaves an administrator.** -/
theorem accepts_administered {a : Session × Mutation} (h : Accepts w a w')
    (hadmin : Administered w.db) : Administered w'.db := by
  obtain ⟨session, request⟩ := a
  cases request with
  | admin req =>
    cases req with
    | createAccount id req =>
      obtain ⟨_, _, row, -, -, -, -, -, -, -, -, hacc, -, -⟩ := createAccount_returns h
      exact administered_of_subset (fun a ha => hacc ▸ List.mem_append_left _ ha) hadmin
    | updateAccount req => exact updateAccount_administered h hadmin
    | createRole id req =>
      obtain ⟨_, _, -, -, -, hacc, -, -⟩ := createRole_returns h
      exact administered_of_subset (fun a ha => hacc ▸ ha) hadmin
    | updateRole req =>
      obtain ⟨_, -, -, -, hacc, -, -⟩ := updateRole_returns h
      exact administered_of_subset (fun a ha => hacc ▸ ha) hadmin
    | deleteRole id =>
      obtain ⟨_, -, -, hacc, -, -⟩ := deleteRole_returns h
      exact administered_of_subset (fun a ha => hacc ▸ ha) hadmin
    | setRoleAssignment username roleId assign =>
      obtain ⟨_, _, -, _, -, -, -, -, -, hacc, -, -⟩ := setRoleAssignment_returns h
      exact administered_of_subset (fun a ha => hacc ▸ ha) hadmin
  | setAccountPassword req =>
    obtain ⟨_, _, _, -, -, -, hacc, -, -⟩ := setAccountPassword_returns h
    refine administered_of_setWhere ?_ hacc hadmin
    exact fun _ => ⟨rfl, rfl⟩
  | removeBan now username =>
    obtain ⟨ban, w₁, h₁, h⟩ := returns_bind.mp h
    obtain ⟨-, rfl⟩ := returns_pure.mp h
    rcases removeBan_ends (r := .ok ban) h₁ with hdb | ⟨_, _, _, p, q, -, hp, hq, hremoval⟩
    · rw [hdb]
      exact hadmin
    · have htables := (Bans.returns_removeIf username hremoval).1
      rw [hp, hq] at htables
      have hacc : w₁.db.accounts = w.db.accounts := congrArg Prod.fst htables
      exact administered_of_subset (fun a ha => hacc ▸ ha) hadmin

end Steps

/-- **There is always an administrator**: after any sequence of accepted requests,
by anybody, some account administers if one did; and the count that guards the last
one agrees with that notion on every row. -/
theorem always_administered :
    (∀ {w w' : World} {requests : List (Session × Mutation)}, Run Accepts w requests w' →
      Administered w.db → Administered w'.db) ∧
    ∀ {p q : AccountPool} {username : String} {others : ℕ},
      Returns (Roles.countAdministrators (adminCore.toNat : ℤ) username) p others q →
      others = (storedStates p.db).countP fun s =>
        s.administers && decide (s.username ≠ username) :=
  ⟨fun hrun => hrun.invariant (fun w => Administered w.db) fun _ _ _ hadmin h =>
    accepts_administered h hadmin, fun h => otherAdministrators_returns h⟩

/-! Two administrators, one of whom demotes the other. -/

namespace Pair

/-- Two administrators, `root` and `deputy`. -/
def tables : AccountTables where
  accounts := [⟨"a1", "root", "", none, 3, 0, 0⟩, ⟨"a2", "deputy", "", none, 3, 0, 0⟩]
  roles := []
  accountRoles := []
  bans := []
  accounts_id := by decide
  accounts_username := by decide
  roles_id := uniqueKey_nil _
  roles_name := uniqueKey_nil _
  accountRoles_pk := accountRoles_pk_nil
  accountRoles_account := by simp
  accountRoles_role := accountRoles_role_nil
  bans_pk := uniqueKey_nil _
  bans_account := by simp

/-- A server with these tables and no session. -/
def world : World := ⟨⟨tables, []⟩, []⟩

/-- `root`'s session. -/
def session : Session := ⟨"root", .admin, BaseClass.privileges .admin⟩

/-- Make `deputy` an ordinary user. -/
def demote : Mutation := .admin (.updateAccount ⟨"deputy", 1, 0, 0⟩)

end Pair

open Pair in
theorem always_administered_pair :
    Administered (leaves (demote.run session) world).db ∧
      leaves (Roles.countAdministrators (adminCore.toNat : ℤ) "root") world.pool = world.pool ∧
      1 = (storedStates world.db).countP fun s => s.administers && decide (s.username ≠ "root") :=
  ⟨always_administered.1 (.cons (a := (session, demote)) (returns_of_succeeds (by decide +kernel))
      (.nil _)) (by decide +kernel), rfl,
    always_administered.2 (p := world.pool) (q := world.pool) rfl⟩

end Auth

end KdxHotline
