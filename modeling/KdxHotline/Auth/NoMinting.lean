import KdxHotline.Auth.Requests

/-!
# No request mints power, but one

An account gets its privileges from three sources, its class, its roles and its
granted bits, less what is revoked. A request *mints* a privilege when it leaves
an account with one that neither that account nor the actor had.

Five of the six requests never mint (`KdxHotline.Auth.mintsNothing_of_roles`
covers every request on roles). Editing an account checks class and overrides
against the actor's own privileges but looks at no role
(`KdxHotline.Auth.checkOverrides`), so it may lift a revocation that was holding
back a role's privilege. `KdxHotline.Auth.accepted_mintsNothing_iff` says
exactly when it does: an accepted request mints nothing if and only if every
role privilege it stops revoking is one the actor holds.
-/

namespace KdxHotline

namespace Auth

open Foundations Storage

open Privileges

/-! ### The requests, and what minting is -/

/-- An admin request that changes privileges; a creation carries the fresh id of
its row. -/
inductive AdminRequest
  | createAccount (id : String) (req : AccountCreate)
  | updateAccount (req : AccountUpdate)
  | createRole (id : String) (req : RoleCreate)
  | updateRole (req : RoleUpdate)
  | deleteRole (id : String)
  | setRoleAssignment (username roleId : String) (assign : Bool)

/-- Run a request for a session. -/
def AdminRequest.run (session : Session) : AdminRequest → Fallible World Refusal Unit
  | .createAccount id req => Auth.createAccount id session req
  | .updateAccount req => Auth.updateAccount session req
  | .createRole id req => Auth.createRole id session req
  | .updateRole req => Auth.updateRole session req
  | .deleteRole id => Auth.deleteRole session id
  | .setRoleAssignment username roleId assign =>
      Auth.setRoleAssignment session username roleId assign

/-- The effective privileges of the account of a name: none when there is no such
account. -/
def effectiveOf (db : AccountTables) (username : String) : Privileges :=
  ((storedState db username).map AccountState.effective).getD Privileges.empty

/-- The privileges a session acts with: its own, narrowed by its stored account. -/
def actorPrivileges (db : AccountTables) (session : Session) : Privileges :=
  ((storedState db session.username).map fun s =>
    (Actor.narrowed session s).authority.privileges).getD Privileges.empty

/-- Going from `db` to `db'`, no account gained a privilege outside `held`. -/
def MintsNothing (held : Privileges) (db db' : AccountTables) : Prop :=
  ∀ s ∈ storedStates db', Within s.effective (effectiveOf db s.username ||| held)

instance (held : Privileges) (db db' : AccountTables) : Decidable (MintsNothing held db db') :=
  inferInstanceAs (Decidable (∀ s ∈ storedStates db', _))

/-- The privileges that the target's roles carry, that were revoked from it and
that the edit stops revoking. -/
def restored (target : AccountState) (revoked : BitVec 32) : Privileges :=
  without (target.rolePrivileges &&& fromBitsTruncate target.revoked) (fromBitsTruncate revoked)

/-- What a request restores from under a revocation, the session holds itself. -/
def AdminRequest.RestoresOnlyHeld (db : AccountTables) (session : Session) : AdminRequest → Prop
  | .updateAccount req => ∀ target, storedState db req.username = some target →
      Within (restored target req.revoked) (actorPrivileges db session)
  | _ => True

section Bits

variable {db db' : AccountTables} {session : Session} {held : Privileges}

theorem actorPrivileges_eq {required : Privileges} {actor : Actor}
    (h : ActsAs db session required actor) :
    actorPrivileges db session = actor.authority.privileges := by
  obtain ⟨s, hs, rfl, -⟩ := h
  simp [actorPrivileges, hs]

theorem effectiveOf_mem {a : AccountRow} (ha : a ∈ db.accounts) :
    effectiveOf db a.username = (stateOfRow db a.privilegeRow).effective := by
  simp [effectiveOf, storedState_of_mem ha]

/-- **Minting, bit by bit and row by row.** -/
theorem mintsNothing_iff : MintsNothing held db db' ↔
    ∀ a ∈ db'.accounts, ∀ i, (stateOfRow db' a.privilegeRow).effective.getLsbD i = true →
      (effectiveOf db a.username).getLsbD i = true ∨ held.getLsbD i = true := by
  simp only [MintsNothing, storedStates, List.forall_mem_map, within_iff, BitVec.getLsbD_or,
    Bool.or_eq_true]
  rfl

/-- Some role that the account holds carries the privilege. -/
def RoleCarries (db : AccountTables) (accountId : String) (i : ℕ) : Prop :=
  ∃ r ∈ db.roles, (accountId, r.id) ∈ db.accountRoles ∧
    (privilegesFromStored r.privileges).getLsbD i = true

/-- An account row's effective privileges, bit by bit. -/
theorem effective_bit (a : AccountRow) (i : ℕ) :
    (stateOfRow db a.privilegeRow).effective.getLsbD i = true ↔
      ((classFromStored a.baseClass).privileges.getLsbD i = true ∨ RoleCarries db a.id i ∨
        (privilegesFromStored a.granted).getLsbD i = true) ∧
      (privilegesFromStored a.revoked).getLsbD i = false := by
  rw [AccountState.effective_bit, rolePrivileges_bit]
  rfl

/-- **A change of roles mints nothing** when every privilege a role newly carries
for an account is one the actor holds. -/
theorem mintsNothing_of_roles (hacc : db'.accounts = db.accounts)
    (hroles : ∀ accountId i, RoleCarries db' accountId i →
      RoleCarries db accountId i ∨ held.getLsbD i = true) : MintsNothing held db db' := by
  refine mintsNothing_iff.mpr fun a ha i hbit => ?_
  rw [hacc] at ha
  obtain ⟨hsource, hrevoked⟩ := (effective_bit a i).mp hbit
  rw [effectiveOf_mem ha, effective_bit]
  rcases hsource with hclass | hrole | hgranted
  · exact .inl ⟨.inl hclass, hrevoked⟩
  · exact (hroles a.id i hrole).imp (fun h => ⟨.inr (.inl h), hrevoked⟩) id
  · exact .inl ⟨.inr (.inr hgranted), hrevoked⟩

/-- Class and overrides that passed the check give nothing the actor lacks. -/
theorem overrides_held {a : Authority} {class_ : BaseClass} {granted revoked : BitVec 32} {i : ℕ}
    (h : checkOverrides a class_ granted revoked = .ok ())
    (hsource : class_.privileges.getLsbD i = true ∨ (fromBitsTruncate granted).getLsbD i = true)
    (hrevoked : (fromBitsTruncate revoked).getLsbD i = false) :
    a.privileges.getLsbD i = true := by
  refine within_iff.mp (checkOverrides_within h) i ?_
  rw [effectivePrivileges_bit]
  exact ⟨hsource.imp_right .inr, hrevoked⟩

end Bits

/-! ### The requests that never mint -/

section Requests

variable {w w' : World} {session : Session}

/-- **A created account has no more than its creator.** -/
theorem createAccount_mintsNothing {id : String} {req : AccountCreate}
    (h : Returns (createAccount id session req) w () w') :
    MintsNothing (actorPrivileges w.db session) w.db w'.db := by
  obtain ⟨actor, class_, row, hacts, hcheck, hid, -, hclass, hgranted, hrevoked, hfree, hacc,
    hroles, hheld⟩ := createAccount_returns h
  have hcarries : ∀ accountId i, RoleCarries w'.db accountId i → RoleCarries w.db accountId i := by
    rintro accountId i ⟨r, hr, hholds, hbit⟩
    exact ⟨r, hroles ▸ hr, hheld ▸ hholds, hbit⟩
  refine mintsNothing_iff.mpr fun a ha i hbit => ?_
  rw [hacc, List.mem_append, List.mem_singleton] at ha
  obtain ⟨hsource, hnot⟩ := (effective_bit a i).mp hbit
  rcases ha with ha | rfl
  · rw [effectiveOf_mem ha, effective_bit]
    exact .inl ⟨hsource.imp_right (.imp_left (hcarries a.id i)), hnot⟩
  · rw [hclass, hgranted, classFromStored_toNat, privilegesFromStored_toNat, fromBitsTruncate_knownBits] at hsource
    rw [hrevoked, privilegesFromStored_toNat, fromBitsTruncate_knownBits] at hnot
    rw [actorPrivileges_eq hacts]
    refine .inr (overrides_held (checkAccountCreate_overrides hcheck) ?_ hnot)
    rcases hsource with hsource | hrole | hsource
    · exact .inl hsource
    · -- the new account's id is new, so no assignment mentions it
      obtain ⟨r, -, hholds, -⟩ := hcarries a.id i hrole
      obtain ⟨b, hb, hbid⟩ := List.mem_map.mp (w.db.accountRoles_account _ hholds)
      exact absurd (hbid.trans hid) (hfree b hb).1
    · exact .inr hsource

/-- A new role has only privileges the actor holds. -/
theorem createRole_mintsNothing {id : String} {req : RoleCreate}
    (h : Returns (createRole id session req) w () w') :
    MintsNothing (actorPrivileges w.db session) w.db w'.db := by
  obtain ⟨actor, row, -, -, hfree, hacc, hroles, hheld⟩ := createRole_returns h
  refine mintsNothing_of_roles hacc fun accountId i hcarries => .inl ?_
  obtain ⟨r, hr, hholds, hbit⟩ := hcarries
  rw [hheld] at hholds
  rw [hroles, List.mem_append, List.mem_singleton] at hr
  rcases hr with hr | rfl
  · exact ⟨r, hr, hholds, hbit⟩
  · exact absurd hholds (hfree accountId)

/-- A changed role hands out only privileges the actor holds. -/
theorem updateRole_mintsNothing {req : RoleUpdate} (h : Returns (updateRole session req) w () w') :
    MintsNothing (actorPrivileges w.db session) w.db w'.db := by
  obtain ⟨actor, hacts, -, hwithin, hacc, hroles, hheld⟩ := updateRole_returns h
  refine mintsNothing_of_roles hacc fun accountId i hcarries => ?_
  obtain ⟨r, hr, hholds, hbit⟩ := hcarries
  rw [hheld] at hholds
  rw [hroles] at hr
  obtain ⟨r₀, hr₀, rfl⟩ := mem_setWhere.mp hr
  split at hbit
  · -- the edited role: its new privileges are the actor's
    rw [privilegesFromStored_toNat, fromBitsTruncate_idem] at hbit
    rw [actorPrivileges_eq hacts]
    exact .inr (within_iff.mp hwithin i hbit)
  · rename_i hother
    rw [if_neg hother] at hholds
    exact .inl ⟨r₀, hr₀, hholds, hbit⟩

theorem deleteRole_mintsNothing {id : String} (h : Returns (deleteRole session id) w () w') :
    MintsNothing (actorPrivileges w.db session) w.db w'.db := by
  obtain ⟨-, -, -, hacc, hroles, hheld⟩ := deleteRole_returns h
  refine mintsNothing_of_roles hacc fun accountId i hcarries => .inl ?_
  obtain ⟨r, hr, hholds, hbit⟩ := hcarries
  rw [hroles] at hr
  rw [hheld] at hholds
  exact ⟨r, List.mem_of_mem_filter hr, List.mem_of_mem_filter hholds, hbit⟩

/-- A role is handed out only by one who holds its privileges. -/
theorem setRoleAssignment_mintsNothing {username roleId : String} {assign : Bool}
    (h : Returns (setRoleAssignment session username roleId assign) w () w') :
    MintsNothing (actorPrivileges w.db session) w.db w'.db := by
  obtain ⟨actor, row, hrow, target, hacts, hid, hwithin, -, -, hacc, hroles, hheld⟩ :=
    setRoleAssignment_returns h
  refine mintsNothing_of_roles hacc fun holder i hcarries => ?_
  obtain ⟨r, hr, hholds, hbit⟩ := hcarries
  rw [hroles] at hr
  by_cases hnew : (holder, r.id) = (target.accountId, roleId)
  case neg => exact .inl ⟨r, hr, (hheld _ hnew).mp hholds, hbit⟩
  case pos =>
    -- the one new holding is of the role that was checked
    have hsame : r = row := w.db.roles_id.eq hr hrow ((congrArg Prod.snd hnew).trans hid.symm)
    rw [actorPrivileges_eq hacts]
    rw [hsame] at hbit
    exact .inr (within_iff.mp hwithin i hbit)

/-! ### Editing an account -/

/-- **An accepted edit mints nothing exactly when every role privilege it stops
revoking is one the actor holds.** -/
theorem updateAccount_mintsNothing_iff {req : AccountUpdate}
    (h : Returns (updateAccount session req) w () w') :
    MintsNothing (actorPrivileges w.db session) w.db w'.db ↔
      ∀ target, storedState w.db req.username = some target →
        Within (restored target req.revoked) (actorPrivileges w.db session) := by
  obtain ⟨actor, target, class_, hacts, htarget, hcheck, -, hacc, hroles, hheld⟩ :=
    updateAccount_returns h
  have hover := checkAccountUpdate_overrides hcheck
  have hcarries : ∀ accountId i, RoleCarries w'.db accountId i ↔ RoleCarries w.db accountId i := by
    intro accountId i
    simp only [RoleCarries, hroles, hheld]
  obtain ⟨t, ht, htname, rfl⟩ := storedState_eq_some htarget
  -- what the edit stops revoking of what the roles of the target carry
  have hrestored : ∀ i, (restored (stateOfRow w.db t.privilegeRow) req.revoked).getLsbD i = true ↔
      (RoleCarries w.db t.id i ∧ (privilegesFromStored t.revoked).getLsbD i = true) ∧
        (fromBitsTruncate req.revoked).getLsbD i = false := by
    intro i
    rw [restored, getLsbD_without, BitVec.getLsbD_and, Bool.and_eq_true, rolePrivileges_bit]
    rfl
  rw [actorPrivileges_eq hacts, mintsNothing_iff]
  constructor
  · -- a restored privilege the actor lacks shows on the target's row
    intro hmint s hs
    obtain rfl : stateOfRow w.db t.privilegeRow = s := Option.some.inj (htarget.symm.trans hs)
    refine within_iff.mpr fun i hbit => ?_
    obtain ⟨⟨hrole, hwas⟩, hnow⟩ := (hrestored i).mp hbit
    have hmem : ({ t with
        baseClass := (class_.toNat : ℤ)
        granted := ((knownBits req.granted).toNat : ℤ)
        revoked := ((knownBits req.revoked).toNat : ℤ) } : AccountRow) ∈ w'.db.accounts := by
      rw [hacc]
      exact mem_setWhere.mpr ⟨t, ht, by simp [htname]⟩
    rcases hmint _ hmem i ((effective_bit _ i).mpr
        ⟨.inr (.inl ((hcarries _ i).mpr hrole)), by simpa using hnow⟩) with hbefore | hactor
    · rw [effectiveOf_mem ht, effective_bit, hwas] at hbefore
      exact absurd hbefore.2 (by simp)
    · exact hactor
  · intro hrest a ha i hbit
    rw [hacc] at ha
    obtain ⟨b, hb, rfl⟩ := mem_setWhere.mp ha
    obtain ⟨hsource, hnot⟩ := (effective_bit _ i).mp hbit
    split at hsource
    · rename_i hname
      rw [if_pos hname] at hnot ⊢
      rw [decide_eq_true_eq] at hname
      obtain rfl : b = t := w.db.accounts_username.eq hb ht (hname.trans htname.symm)
      simp only [classFromStored_toNat, privilegesFromStored_toNat, fromBitsTruncate_knownBits] at hsource hnot
      rcases hsource with hsource | hrole | hsource
      · exact .inr (overrides_held hover (.inl hsource) hnot)
      · -- from a role: either it was effective before, or the edit restores it
        replace hrole := (hcarries _ i).mp hrole
        cases hwas : (privilegesFromStored b.revoked).getLsbD i with
        | false =>
          -- the rows of all other names are as they were
          refine .inl ?_
          rw [effectiveOf_mem hb, effective_bit]
          exact ⟨.inr (.inl hrole), hwas⟩
        | true =>
          exact .inr (within_iff.mp (hrest _ htarget) i ((hrestored i).mpr ⟨⟨hrole, hwas⟩, hnot⟩))
      · exact .inr (overrides_held hover (.inr hsource) hnot)
    · rename_i hname
      rw [if_neg hname] at hnot ⊢
      refine .inl ?_
      rw [effectiveOf_mem hb, effective_bit]
      exact ⟨hsource.imp_right (.imp_left (hcarries _ i).mp), hnot⟩

/-- **An accepted request mints nothing exactly when it restores nothing the
actor lacks.** -/
theorem accepted_mintsNothing_iff {req : AdminRequest} (h : Returns (req.run session) w () w') :
    MintsNothing (actorPrivileges w.db session) w.db w'.db ↔ req.RestoresOnlyHeld w.db session := by
  cases req with
  | createAccount id req => exact iff_of_true (createAccount_mintsNothing h) trivial
  | updateAccount req => exact updateAccount_mintsNothing_iff h
  | createRole id req => exact iff_of_true (createRole_mintsNothing h) trivial
  | updateRole req => exact iff_of_true (updateRole_mintsNothing h) trivial
  | deleteRole id => exact iff_of_true (deleteRole_mintsNothing h) trivial
  | setRoleAssignment username roleId assign =>
    exact iff_of_true (setRoleAssignment_mintsNothing h) trivial

end Requests

/-! ### A server where an edit mints

A power user who may edit accounts, and a user whose role may kick but from whom
kicking has been revoked. -/

namespace Helpdesk

/-- The server's tables. -/
def tables : AccountTables where
  accounts :=
    [⟨"a1", "helpdesk", "", none, 2, userAdmin.toNat, 0⟩, ⟨"a2", "muted", "", none, 1, 0,
      userKick.toNat⟩]
  roles := [⟨"r1", "moderators", userKick.toNat, 1, none⟩]
  accountRoles := [("a2", "r1")]
  bans := []
  accounts_id := by decide
  accounts_username := by decide
  roles_id := by decide
  roles_name := by decide
  accountRoles_pk := by decide
  accountRoles_account := by decide
  accountRoles_role := by decide
  bans_pk := uniqueKey_nil _
  bans_account := by simp

/-- A server with these tables and no session. -/
def world : World := ⟨⟨tables, []⟩, []⟩

/-- The power user's session, as its login left it. -/
def session : Session :=
  ⟨"helpdesk", .powerUser, BaseClass.privileges .powerUser ||| userAdmin⟩

/-- Clear the user's overrides. -/
def clearOverrides : AdminRequest := .updateAccount ⟨"muted", 1, 0, 0⟩

end Helpdesk

open Helpdesk

/-- The condition decides this request: it restores a privilege the power user
lacks. -/
theorem accepted_mintsNothing_iff_helpdesk :
    MintsNothing (actorPrivileges world.db session) world.db
        (leaves (clearOverrides.run session) world).db ↔
      clearOverrides.RestoresOnlyHeld world.db session :=
  accepted_mintsNothing_iff (returns_of_succeeds (by decide +kernel))

/-- **Clearing the overrides of a user is accepted, and hands it a privilege the
power user lacks.** -/
theorem clearOverrides_mints :
    Returns (clearOverrides.run session) world () (leaves (clearOverrides.run session) world) ∧
      ¬MintsNothing (actorPrivileges world.db session) world.db
        (leaves (clearOverrides.run session) world).db :=
  ⟨returns_of_succeeds (by decide +kernel), by decide +kernel⟩

end Auth

end KdxHotline
