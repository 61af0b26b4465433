import KdxHotline.Auth.NoMinting

/-!
# Rank is respected

Five requests change accounts that exist: editing one, resetting its password,
editing or deleting a role it holds, giving it a role or taking one away. An account
that any of them touches, in class, effective privileges or credential, is one the
actor manages (`KdxHotline.Auth.touched_managed`); nobody raises itself
(`KdxHotline.Auth.actor_notRaised`); and a refused request changes nothing
(`KdxHotline.Auth.denied_unchanged`). `KdxHotline.Auth.rank_respected` is all three.

Role edits reach an account only through a role it holds, so what is to be looked at
is whether some role it holds carries a privilege
(`KdxHotline.Auth.RoleCarries`).
-/

namespace KdxHotline

namespace Auth

open Foundations Storage

open Privileges

/-! ### The requests, and what they touch -/

/-- A request that changes accounts which exist. -/
inductive Management
  | updateAccount (req : AccountUpdate)
  | setAccountPassword (req : AccountSetPassword)
  | updateRole (req : RoleUpdate)
  | deleteRole (id : String)
  | setRoleAssignment (username roleId : String) (assign : Bool)

/-- Run a request for a session. -/
def Management.run (session : Session) : Management → Fallible World Refusal Unit
  | .updateAccount req => Auth.updateAccount session req
  | .setAccountPassword req => Auth.setAccountPassword session req
  | .updateRole req => Auth.updateRole session req
  | .deleteRole id => Auth.deleteRole session id
  | .setRoleAssignment username roleId assign =>
      Auth.setRoleAssignment session username roleId assign

/-- Class and effective privileges of the account of a name. -/
def authorityOf (db : AccountTables) (username : String) : Option Authority :=
  (storedState db username).map AccountState.authority

/-- What a login of the account of a name is checked against. -/
def credentialOf (db : AccountTables) (username : String) : Option (Option String × String) :=
  (db.account username).map fun a => (a.credential, a.passwordPhc)

/-- Class, effective privileges or credential of the account of a name differ. -/
def Touched (db db' : AccountTables) (username : String) : Prop :=
  authorityOf db' username ≠ authorityOf db username ∨
    credentialOf db' username ≠ credentialOf db username

instance (db db' : AccountTables) (username : String) : Decidable (Touched db db' username) :=
  inferInstanceAs (Decidable (_ ∨ _))

section Touching

variable {db db' : AccountTables} {g : AccountRow → AccountRow}

/-- The account of a name after a rewriting of rows that leaves names alone. -/
theorem account_map (hacc : db'.accounts = db.accounts.map g)
    (hname : ∀ a, (g a).username = a.username) (username : String) :
    db'.account username = (db.account username).map g := by
  rw [AccountTables.account, AccountTables.account, hacc, List.find?_map]
  simp only [Function.comp_def, hname]

/-- An account's authority is decided by its row and by what its roles carry. -/
theorem authority_congr {a a' : AccountRow} (hclass : a'.baseClass = a.baseClass)
    (hgranted : a'.granted = a.granted) (hrevoked : a'.revoked = a.revoked)
    (hroles : ∀ i, RoleCarries db' a'.id i ↔ RoleCarries db a.id i) :
    (stateOfRow db' a'.privilegeRow).authority = (stateOfRow db a.privilegeRow).authority := by
  have heffective : (stateOfRow db' a'.privilegeRow).effective
      = (stateOfRow db a.privilegeRow).effective := by
    refine BitVec.eq_of_getLsbD_eq fun i _ => ?_
    rw [Bool.eq_iff_iff, effective_bit, effective_bit, hclass, hgranted, hrevoked, hroles]
  rw [AccountState.authority, AccountState.authority, heffective]
  exact congrArg (Authority.mk · _) (congrArg classFromStored hclass)

/-- **A touched account is a row that was rewritten, or one for which the roles carry
something else.** -/
theorem exists_of_touched (hacc : db'.accounts = db.accounts.map g)
    (hname : ∀ a, (g a).username = a.username) {username : String}
    (h : Touched db db' username) :
    ∃ a ∈ db.accounts, a.username = username ∧
      (g a ≠ a ∨ ∃ i, ¬ (RoleCarries db' a.id i ↔ RoleCarries db a.id i)) := by
  have haccount := account_map hacc hname username
  cases hfound : db.account username with
  | none =>
    rw [hfound, Option.map_none] at haccount
    simp [Touched, authorityOf, credentialOf, storedState, hfound, haccount] at h
  | some a =>
    obtain ⟨ha, hausername⟩ := AccountTables.mem_of_account hfound
    refine ⟨a, ha, hausername, ?_⟩
    by_contra hsame
    rw [not_or, not_not, not_exists] at hsame
    obtain ⟨hrow, hroles⟩ := hsame
    rw [hfound, Option.map_some, hrow] at haccount
    have hauthority : (stateOfRow db' a.privilegeRow).authority = (stateOfRow db a.privilegeRow).authority :=
      authority_congr rfl rfl rfl fun i => not_not.mp (hroles i)
    simp [Touched, authorityOf, credentialOf, storedState, hfound, haccount, hauthority] at h

end Touching

/-! ### Touched accounts are managed -/

section Managed

variable {w w' : World} {session : Session} {username : String}

/-- The actor of the session manages the account of a name. -/
def Manages (db : AccountTables) (session : Session) (username : String) : Prop :=
  ∃ actor target, ActsAs db session userAdmin actor ∧ storedState db username = some target ∧
    actor.authority.mayManage target.authority = true

theorem checkAccountUpdate_manages {actor : Actor} {target : AccountState} {class_ : ℕ}
    {c : BaseClass} {granted revoked : BitVec 32}
    (h : checkAccountUpdate actor target class_ granted revoked = .ok c) :
    actor.authority.mayManage target.authority = true := by
  obtain ⟨_, hmanaged, -⟩ := checks_pass.mp h
  simpa using hmanaged

theorem checkPasswordReset_manages {actor : Actor} {target : AccountState}
    (h : checkPasswordReset actor target = .ok ()) :
    actor.authority.mayManage target.authority = true := by
  obtain ⟨_, -, hmanaged⟩ := checks_pass.mp h
  simpa using hmanaged

/-- Whom an update touches, the actor may manage. -/
theorem updateAccount_manages {req : AccountUpdate} (h : Returns (updateAccount session req) w () w')
    (htouched : Touched w.db w'.db username) : Manages w.db session username := by
  obtain ⟨actor, target, class_, hacts, htarget, hcheck, -, hacc, hroles, hheld⟩ :=
    updateAccount_returns h
  obtain ⟨a, ha, rfl, hchange⟩ := exists_of_touched hacc
    (fun a => by split <;> rfl) htouched
  have hcarries : ∀ i, RoleCarries w'.db a.id i ↔ RoleCarries w.db a.id i := by
    intro i
    rw [RoleCarries, RoleCarries, hroles, hheld]
  by_cases hname : a.username = req.username
  · exact ⟨actor, target, hacts, hname ▸ htarget, checkAccountUpdate_manages hcheck⟩
  · rcases hchange with hrow | ⟨i, hi⟩
    · exact absurd (if_neg (by simpa using hname)) hrow
    · exact absurd (hcarries i) hi

/-- Whom a reset touches, the actor may manage. -/
theorem setAccountPassword_manages {req : AccountSetPassword}
    (h : Returns (setAccountPassword session req) w () w')
    (htouched : Touched w.db w'.db username) : Manages w.db session username := by
  obtain ⟨actor, target, credential, hacts, htarget, hcheck, hacc, hroles, hheld⟩ :=
    setAccountPassword_returns h
  obtain ⟨a, ha, rfl, hchange⟩ := exists_of_touched hacc
    (fun a => by split <;> rfl) htouched
  have hcarries : ∀ i, RoleCarries w'.db a.id i ↔ RoleCarries w.db a.id i := by
    intro i
    rw [RoleCarries, RoleCarries, hroles, hheld]
  obtain ⟨t, ht, htname, rfl⟩ := storedState_eq_some htarget
  by_cases hid : a.id = t.id
  · obtain rfl := w.db.accounts_id.eq ha ht hid
    exact ⟨actor, _, hacts, storedState_of_mem ha, checkPasswordReset_manages hcheck⟩
  · rcases hchange with hrow | ⟨i, hi⟩
    · have hnot : ¬ decide (a.id = t.id) = true := by simpa using hid
      exact absurd (if_neg hnot) hrow
    · exact absurd (hcarries i) hi

/-- A change of roles alone touches the holders of the role only. -/
theorem manages_of_holders {actor : Actor} {roleId : String}
    (hacts : ActsAs w.db session userAdmin actor) (hholders : ManagesHolders w.db actor roleId)
    (hacc : w'.db.accounts = w.db.accounts)
    (hroles : ∀ accountId i, (accountId, roleId) ∉ w.db.accountRoles →
      (RoleCarries w'.db accountId i ↔ RoleCarries w.db accountId i))
    (htouched : Touched w.db w'.db username) : Manages w.db session username := by
  obtain ⟨a, ha, rfl, hchange⟩ := exists_of_touched (g := id)
    (hacc.trans (List.map_id _).symm) (fun _ => rfl) htouched
  by_cases hholds : (a.id, roleId) ∈ w.db.accountRoles
  · exact ⟨actor, _, hacts, storedState_of_mem ha, hholders a ha hholds⟩
  · rcases hchange with hrow | ⟨i, hi⟩
    · exact absurd rfl hrow
    · exact absurd (hroles a.id i hholds) hi

/-- Whom a changed role touches, the actor may manage. -/
theorem updateRole_manages {req : RoleUpdate} (h : Returns (updateRole session req) w () w')
    (htouched : Touched w.db w'.db username) : Manages w.db session username := by
  obtain ⟨actor, hacts, hholders, -, hacc, hroles, hheld⟩ := updateRole_returns h
  refine manages_of_holders hacts hholders hacc (fun accountId i hnot => ?_) htouched
  -- a role that the account holds is another one, and stays as it is
  constructor
  · rintro ⟨r, hr, hholds, hbit⟩
    rw [hheld] at hholds
    rw [hroles] at hr
    obtain ⟨r₀, hr₀, rfl⟩ := mem_setWhere.mp hr
    have hother : ¬ r₀.id = req.id := by
      intro he
      rw [if_pos (decide_eq_true he)] at hholds
      exact hnot (he ▸ hholds)
    rw [if_neg (by simpa using hother)] at hholds hbit
    exact ⟨r₀, hr₀, hholds, hbit⟩
  · rintro ⟨r, hr, hholds, hbit⟩
    have hother : ¬ r.id = req.id := fun he => hnot (he ▸ hholds)
    refine ⟨r, ?_, hheld ▸ hholds, hbit⟩
    rw [hroles]
    exact mem_setWhere.mpr ⟨r, hr, if_neg (by simpa using hother)⟩

/-- Whom a deleted role touches, the actor may manage. -/
theorem deleteRole_manages {id : String} (h : Returns (deleteRole session id) w () w')
    (htouched : Touched w.db w'.db username) : Manages w.db session username := by
  obtain ⟨actor, hacts, hholders, hacc, hroles, hheld⟩ := deleteRole_returns h
  refine manages_of_holders hacts hholders hacc (fun accountId i hnot => ?_) htouched
  rw [RoleCarries, RoleCarries, hroles, hheld]
  constructor
  · rintro ⟨r, hr, hholds, hbit⟩
    exact ⟨r, List.mem_of_mem_filter hr, List.mem_of_mem_filter hholds, hbit⟩
  · rintro ⟨r, hr, hholds, hbit⟩
    have hother : r.id ≠ id := fun he => hnot (he ▸ hholds)
    exact ⟨r, List.mem_filter.mpr ⟨hr, decide_eq_true hother⟩,
      List.mem_filter.mpr ⟨hholds, decide_eq_true hother⟩, hbit⟩

/-- Whom an assignment touches, the actor may manage. -/
theorem setRoleAssignment_manages {name roleId : String} {assign : Bool}
    (h : Returns (setRoleAssignment session name roleId assign) w () w')
    (htouched : Touched w.db w'.db username) : Manages w.db session username := by
  obtain ⟨actor, row, -, target, hacts, -, -, htarget, hmanaged, hacc, hroles, hheld⟩ :=
    setRoleAssignment_returns h
  obtain ⟨t, ht, htname, rfl⟩ := storedState_eq_some htarget
  obtain ⟨a, ha, rfl, hchange⟩ := exists_of_touched (g := id)
    (hacc.trans (List.map_id _).symm) (fun _ => rfl) htouched
  by_cases hid : a.id = t.id
  · obtain rfl := w.db.accounts_id.eq ha ht hid
    exact ⟨actor, _, hacts, storedState_of_mem ha, hmanaged⟩
  · rcases hchange with hrow | ⟨i, hi⟩
    · exact absurd rfl hrow
    · refine absurd ?_ hi
      have hother : ∀ r : RoleRow, (a.id, r.id) ≠ (t.id, roleId) :=
        fun r he => hid (congrArg Prod.fst he)
      rw [RoleCarries, RoleCarries, hroles]
      exact exists_congr fun r => and_congr_right fun _ =>
        and_congr_left fun _ => hheld _ (hother r)

/-- **Every account that an accepted request touches is one the actor manages.** -/
theorem touched_managed {req : Management} (h : Returns (req.run session) w () w')
    (htouched : Touched w.db w'.db username) : Manages w.db session username := by
  cases req with
  | updateAccount req => exact updateAccount_manages h htouched
  | setAccountPassword req => exact setAccountPassword_manages h htouched
  | updateRole req => exact updateRole_manages h htouched
  | deleteRole id => exact deleteRole_manages h htouched
  | setRoleAssignment username roleId assign => exact setRoleAssignment_manages h htouched

end Managed

/-! ### Nobody raises itself -/

section Self

variable {w w' : World} {session : Session}

/-- The account of a name has no higher class and no privilege that it had not. -/
def NotRaised (db db' : AccountTables) (username : String) : Prop :=
  ∀ own own', storedState db username = some own → storedState db' username = some own' →
    own'.class_ ≤ own.class_ ∧ Within own'.effective own.effective

/-- An account that is not touched is not raised. -/
theorem notRaised_of_untouched {db db' : AccountTables} {username : String}
    (h : authorityOf db' username = authorityOf db username) : NotRaised db db' username := by
  intro own own' hown hown'
  rw [authorityOf, authorityOf, hown, hown', Option.map_some, Option.map_some,
    Option.some_inj] at h
  have hclass : own'.class_ = own.class_ := congrArg Authority.class_ h
  have heffective : own'.effective = own.effective := congrArg Authority.privileges h
  rw [hclass, heffective]
  exact ⟨le_rfl, Within.refl _⟩

/-- **A change of roles that mints nothing beyond the actor's own privileges does not
raise the actor**, whose own they are. -/
theorem notRaised_of_mintsNothing (hacc : w'.db.accounts = w.db.accounts)
    (h : MintsNothing (actorPrivileges w.db session) w.db w'.db) :
    NotRaised w.db w'.db session.username := by
  intro own own' hown hown'
  obtain ⟨a, ha, haname, rfl⟩ := storedState_eq_some hown
  obtain ⟨a', ha', haname', rfl⟩ := storedState_eq_some hown'
  obtain rfl : a' = a :=
    w.db.accounts_username.eq (hacc ▸ ha') ha (haname'.trans haname.symm)
  refine ⟨le_rfl, within_iff.mpr fun i hi => ?_⟩
  rcases mintsNothing_iff.mp h a' ha' i hi with hbefore | hheld
  · rwa [effectiveOf_mem ha] at hbefore
  · rw [actorPrivileges, hown, Option.map_some, Option.getD_some, Actor.narrowed,
      BitVec.getLsbD_and, Bool.and_eq_true] at hheld
    exact hheld.2

/-- An edit of the own account is checked not to raise it. -/
theorem checkAccountUpdate_notRaised {actor : Actor} {target : AccountState} {class_ : ℕ}
    {c : BaseClass} {granted revoked : BitVec 32}
    (h : checkAccountUpdate actor target class_ granted revoked = .ok c)
    (hself : target.username = actor.username) :
    c ≤ target.class_ ∧
      Within (target.withOverrides c granted revoked).effective target.effective := by
  obtain ⟨_, -, h⟩ := checks_pass.mp h
  obtain ⟨c', -, h⟩ := checks_pass.mp h
  obtain ⟨_, -, h⟩ := checks_pass.mp h
  obtain ⟨_, hguard, h⟩ := checks_pass.mp h
  cases h
  simpa [hself] using hguard

/-- No one raises oneself by an update. -/
theorem updateAccount_notRaised {req : AccountUpdate} (h : Returns (updateAccount session req) w () w') :
    NotRaised w.db w'.db session.username := by
  obtain ⟨actor, target, class_, hacts, htarget, hcheck, -, hacc, hroles, hheld⟩ :=
    updateAccount_returns h
  obtain ⟨_, _, rfl, -⟩ := hacts
  have hcarries : ∀ accountId i, RoleCarries w'.db accountId i ↔ RoleCarries w.db accountId i := by
    intro accountId i
    rw [RoleCarries, RoleCarries, hroles, hheld]
  intro own own' hown hown'
  obtain ⟨a, ha, haname, rfl⟩ := storedState_eq_some hown
  obtain ⟨a', ha', haname', rfl⟩ := storedState_eq_some hown'
  rw [hacc] at ha'
  obtain ⟨b, hb, rfl⟩ := mem_setWhere.mp ha'
  have hsame : b = a := by
    refine w.db.accounts_username.eq hb ha (Eq.trans ?_ haname.symm)
    rw [← haname']
    split <;> rfl
  subst hsame
  by_cases hname : b.username = req.username
  · -- the actor edits its own account
    obtain ⟨t, ht, htname, rfl⟩ := storedState_eq_some htarget
    obtain rfl : b = t := w.db.accounts_username.eq hb ht (hname.trans htname.symm)
    obtain ⟨hclass, hwithin⟩ := checkAccountUpdate_notRaised hcheck haname
    rw [if_pos (decide_eq_true hname)]
    refine ⟨le_of_eq_of_le (classFromStored_toNat class_) hclass, within_iff.mpr fun i hi => ?_⟩
    refine within_iff.mp hwithin i ?_
    rw [effective_bit, hcarries] at hi
    rw [AccountState.effective_bit]
    simpa [AccountState.withOverrides, rolePrivileges_bit, RoleCarries, AccountRow.privilegeRow]
      using hi
  -- the row of another name is not touched, and roles are no part of the edit
  · have hrow : (if decide (b.username = req.username) = true then
        { b with
          baseClass := (class_.toNat : ℤ)
          granted := ((knownBits req.granted).toNat : ℤ)
          revoked := ((knownBits req.revoked).toNat : ℤ) }
        else b) = b := if_neg (by simpa using hname)
    rw [hrow]
    have hauthority : (stateOfRow w'.db b.privilegeRow).authority
        = (stateOfRow w.db b.privilegeRow).authority := authority_congr rfl rfl rfl (hcarries b.id)
    have hclass : (stateOfRow w'.db b.privilegeRow).class_ = (stateOfRow w.db b.privilegeRow).class_ :=
      congrArg Authority.class_ hauthority
    have heffective : (stateOfRow w'.db b.privilegeRow).effective
        = (stateOfRow w.db b.privilegeRow).effective := congrArg Authority.privileges hauthority
    rw [hclass, heffective]
    exact ⟨le_rfl, Within.refl _⟩

/-- No one raises oneself by a reset. -/
theorem setAccountPassword_notRaised {req : AccountSetPassword}
    (h : Returns (setAccountPassword session req) w () w') :
    NotRaised w.db w'.db session.username := by
  obtain ⟨-, target, credential, -, -, -, hacc, hroles, hheld⟩ := setAccountPassword_returns h
  have haccount := account_map hacc (fun a => by split <;> rfl) session.username
  refine notRaised_of_untouched ?_
  rw [authorityOf, authorityOf, storedState, storedState, haccount, Option.map_map, Option.map_map,
    Option.map_map]
  refine Option.map_congr fun a _ => ?_
  have hcarries : ∀ i, RoleCarries w'.db a.id i ↔ RoleCarries w.db a.id i := by
    intro i
    rw [RoleCarries, RoleCarries, hroles, hheld]
  -- a credential is no part of an authority
  simp only [Function.comp_apply]
  split
  · exact authority_congr rfl rfl rfl hcarries
  · exact authority_congr rfl rfl rfl hcarries

/-- **No accepted request raises the account it is made from.** -/
theorem actor_notRaised {req : Management} (h : Returns (req.run session) w () w') :
    NotRaised w.db w'.db session.username := by
  cases req with
  | updateAccount req => exact updateAccount_notRaised h
  | setAccountPassword req => exact setAccountPassword_notRaised h
  | updateRole req =>
    obtain ⟨-, -, -, -, hacc, -⟩ := updateRole_returns h
    exact notRaised_of_mintsNothing hacc (updateRole_mintsNothing h)
  | deleteRole id =>
    obtain ⟨-, -, -, hacc, -⟩ := deleteRole_returns h
    exact notRaised_of_mintsNothing hacc (deleteRole_mintsNothing h)
  | setRoleAssignment username roleId assign =>
    obtain ⟨-, -, -, -, -, -, -, -, -, hacc, -⟩ := setRoleAssignment_returns h
    exact notRaised_of_mintsNothing hacc (setRoleAssignment_mintsNothing h)

end Self

/-! ### A refused request changes nothing

Four of the requests write once, after their last check, so however they fail they
have changed nothing. Deleting a role is two statements: if the database fails
between them, the role has lost its holders, all of whom the actor manages. -/

section Refused

variable {w w' : World} {session : Session}

theorem updateAccount_effectless (req : AccountUpdate) :
    Atomic World.effects (updateAccount session req) := by
  refine (resolveActor_reads _ _).atomic_bind fun actor => ?_
  refine (existingAccount_reads _ _).atomic_bind fun target => ?_
  refine (policy_reads _).atomic_bind fun class_ => ?_
  refine (guardLastAdmin_reads _ _ _).atomic_bind fun _ => ?_
  refine Atomic.bind_total ?_ fun _ => kickChanged_total _
  exact (zoom_effectless (Accounts.update_atomic.mapError _)).mapError _

/-- A refused reset changes nothing. -/
theorem setAccountPassword_effectless (req : AccountSetPassword) :
    Atomic World.effects (setAccountPassword session req) := by
  refine (keeps_check _).atomic_bind fun credential => ?_
  refine (resolveActor_reads _ _).atomic_bind fun actor => ?_
  refine (existingAccount_reads _ _).atomic_bind fun target => ?_
  refine (policy_reads _).atomic_bind fun _ => ?_
  refine (keeps_check _).atomic_bind fun _ => ⟨fun {w e w'} h => ?_⟩
  rcases fails_bind.mp h with h | ⟨done, w₁, hset, h⟩
  · exact (stored_effectless (statement_atomic _) _).fails h
  rcases fails_bind.mp h with h | ⟨_, w₂, -, h⟩
  · -- refused after the statement, which then found no account
    obtain ⟨hdone, rfl⟩ := fails_check.mp h
    obtain rfl : done = false := by simpa using (refuseIf_eq_error.mp hdone).1
    exact Prod.ext (Accounts.setCredential_missed (returns_stored hset)) (stored_kicks hset)
  · exact absurd h fails_modify

/-- A refused change of a role changes nothing. -/
theorem updateRole_effectless (req : RoleUpdate) :
    Atomic World.effects (updateRole session req) := by
  refine (keeps_check _).atomic_bind fun _ => ?_
  refine (resolveActor_reads _ _).atomic_bind fun actor => ?_
  refine (existingRole_reads _ _).atomic_bind fun role => ?_
  refine (policy_reads _).atomic_bind fun _ => ?_
  refine (stored_reads (holders_keeps _) _).atomic_bind fun held => ?_
  refine (policy_reads _).atomic_bind fun _ => ?_
  refine Atomic.bind_total (stored_effectless Roles.update_atomic _) fun _ w e w' h => ?_
  split at h
  · exact kickChanged_total _ _ _ _ h
  · exact fails_pure h

/-- A refused assignment changes nothing. -/
theorem setRoleAssignment_effectless (username roleId : String) (assign : Bool) :
    Atomic World.effects (setRoleAssignment session username roleId assign) := by
  refine (resolveActor_reads _ _).atomic_bind fun actor => ?_
  refine (existingRole_reads _ _).atomic_bind fun role => ?_
  refine (existingAccount_reads _ _).atomic_bind fun target => ?_
  refine (policy_reads _).atomic_bind fun _ => ?_
  refine (policy_reads _).atomic_bind fun _ => ?_
  refine Atomic.bind_total (stored_effectless ?_ _) fun _ => kickChanged_total _
  split
  · exact statement_atomic _
  · exact statement_atomic _

/-- **A role deletion that fails has changed nothing, or was cut short by the
database**: then nobody holds the role any more, and the actor manages everybody who
did. -/
theorem deleteRole_fails {id : String} {e : Refusal} (h : Fails (deleteRole session id) w e w') :
    w'.effects = w.effects ∨
      (∃ what detail, e = .internal what detail) ∧ w'.kicks = w.kicks ∧
        ∃ actor, ActsAs w.db session userAdmin actor ∧ ManagesHolders w.db actor id ∧
          w'.db.accounts = w.db.accounts ∧ w'.db.roles = w.db.roles ∧
          w'.db.accountRoles = w.db.accountRoles.filter fun x => x.2 ≠ id := by
  rcases fails_bind.mp h with hf | ⟨actor, w₁, h₁, h⟩
  · exact .inl ((resolveActor_reads _ _).fails hf)
  have heff₁ := (resolveActor_reads _ _).returns h₁
  rcases fails_bind.mp h with hf | ⟨role, w₂, h₂, h⟩
  · exact .inl (((existingRole_reads _ _).fails hf).trans heff₁)
  have heff₂ := ((existingRole_reads _ _).returns h₂).trans heff₁
  rcases fails_bind.mp h with hf | ⟨_, w₃, h₃, h⟩
  · exact .inl (((policy_reads _).fails hf).trans heff₂)
  obtain ⟨-, rfl⟩ := returns_policy.mp h₃
  rcases fails_bind.mp h with hf | ⟨held, w₄, h₄, h⟩
  · exact .inl (((stored_reads (holders_keeps _) _).fails hf).trans heff₂)
  have heff₄ := ((stored_reads (holders_keeps _) _).returns h₄).trans heff₂
  rcases fails_bind.mp h with hf | ⟨_, w₅, h₅, h⟩
  · exact .inl (((policy_reads _).fails hf).trans heff₄)
  obtain ⟨hmanaged, rfl⟩ := returns_policy.mp h₅
  rcases fails_bind.mp h with hf | ⟨_, w₆, -, h⟩
  · have hdb : w₄.pool.db = w.db := congrArg Prod.fst heff₄
    obtain ⟨e', hfails, rfl⟩ := fails_mapError.mp hf
    obtain ⟨p, hp, rfl⟩ := fails_zoom.mp hfails
    -- the role was there, and nothing has deleted it since
    obtain ⟨row, hrow, hid, -⟩ := existingRole_returns h₂
    rw [show w₁.db = w.db from congrArg Prod.fst heff₁] at hrow
    rcases Roles.fails_delete (hdb.symm ▸ List.mem_map.mpr ⟨row, hrow, hid⟩) hp with
      hsame | ⟨rfl, hacc, hroles, hheld⟩
    · have heff : (World.poolField.set p w₄).effects = w₄.effects := Prod.ext hsame rfl
      exact .inl (heff.trans heff₄)
    · refine .inr ⟨⟨_, _, rfl⟩, congrArg Prod.snd heff₄, actor, resolveActor_returns h₁, ?_,
        hacc.trans (congrArg _ hdb), hroles.trans (congrArg _ hdb), ?_⟩
      · have hmanages := managesHolders_of_check h₄ hmanaged
        rwa [show w₂.db = w.db from congrArg Prod.fst heff₂] at hmanages
      · exact hheld.trans (congrArg (fun db : AccountTables =>
          db.accountRoles.filter fun x => x.2 ≠ id) hdb)
  · exact absurd h (kickChanged_total _ _ _ _)

/-- A deletion that was cut short touches accounts that the actor manages only. -/
theorem deleteRole_cutShort {id : String} {e : Refusal}
    (h : Fails (deleteRole session id) w e w') :
    w'.effects = w.effects ∨ (∃ what detail, e = .internal what detail) ∧
      ∀ username, Touched w.db w'.db username → Manages w.db session username := by
  rcases deleteRole_fails h with hsame | ⟨he, -, actor, hacts, hholders, hacc, hroles, hheld⟩
  · exact .inl hsame
  refine .inr ⟨he, fun username htouched => ?_⟩
  refine manages_of_holders hacts hholders hacc (fun accountId i hnot => ?_) htouched
  rw [RoleCarries, RoleCarries, hroles, hheld]
  refine exists_congr fun r => and_congr_right fun _ => and_congr_left fun _ => ?_
  constructor
  · exact List.mem_of_mem_filter
  · intro hholds
    have hother : r.id ≠ id := fun he => hnot (he ▸ hholds)
    exact List.mem_filter.mpr ⟨hholds, decide_eq_true hother⟩

/-- **A request that fails has changed nothing, or is a deletion that the database
cut short.** -/
theorem failed_unchanged {req : Management} {e : Refusal} (h : Fails (req.run session) w e w') :
    w'.effects = w.effects ∨
      (∃ id, req = .deleteRole id) ∧ (∃ what detail, e = .internal what detail) ∧
        ∀ username, Touched w.db w'.db username → Manages w.db session username := by
  cases req with
  | updateAccount req => exact .inl ((updateAccount_effectless req).fails h)
  | setAccountPassword req => exact .inl ((setAccountPassword_effectless req).fails h)
  | updateRole req => exact .inl ((updateRole_effectless req).fails h)
  | deleteRole id => exact (deleteRole_cutShort h).imp_right fun hcut => ⟨⟨id, rfl⟩, hcut⟩
  | setRoleAssignment username roleId assign =>
    exact .inl ((setRoleAssignment_effectless username roleId assign).fails h)

/-- **A request that is refused changes nothing.** -/
theorem denied_unchanged {req : Management} {message : String}
    (h : Fails (req.run session) w (.denied message) w') : w'.effects = w.effects := by
  rcases failed_unchanged h with hsame | ⟨-, ⟨_, _, hinternal⟩, -⟩
  · exact hsame
  · cases hinternal

end Refused

/-- **Rank is respected by every request on accounts that exist.** An accepted one
touches accounts that the actor manages only, and does not raise the actor; a refused
one changes nothing. One that fails in any other way changes nothing either, except
that the database may cut a role's deletion short, which again touches accounts that
the actor manages only. -/
theorem rank_respected (session : Session) (req : Management) (w w' : World) :
    (Returns (req.run session) w () w' →
        (∀ username, Touched w.db w'.db username → Manages w.db session username) ∧
          NotRaised w.db w'.db session.username) ∧
      (∀ message, Fails (req.run session) w (.denied message) w' → w'.effects = w.effects) ∧
      ∀ e, Fails (req.run session) w e w' →
        w'.effects = w.effects ∨
          (∃ id, req = .deleteRole id) ∧ (∃ what detail, e = .internal what detail) ∧
            ∀ username, Touched w.db w'.db username → Manages w.db session username :=
  ⟨fun h => ⟨fun _ => touched_managed h, actor_notRaised h⟩, fun _ => denied_unchanged,
    fun _ => failed_unchanged⟩

open Helpdesk

/-- The power user clears a user's overrides: the user is touched, so the power user
manages it. Its request to delete a role that carries a privilege it lacks is refused,
and changes nothing. -/
theorem rank_respected_helpdesk :
    Manages world.db session "muted" ∧
      (leaves (Management.run session (.deleteRole "r1")) world).effects = world.effects :=
  ⟨((rank_respected session (.updateAccount ⟨"muted", 1, 0, 0⟩) world _).1
      (returns_of_succeeds (by decide +kernel))).1 "muted" (by decide +kernel),
    (rank_respected session (.deleteRole "r1") world _).2.1
      Denied.exceedsOwnPrivileges.toString (fails_of_outcome (by decide +kernel))⟩

end Auth

end KdxHotline
