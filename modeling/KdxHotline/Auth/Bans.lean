import KdxHotline.Auth.Requests
import KdxHotline.Foundations.Runs

/-!
# A lower rank never undoes a higher rank's ban

Two requests change bans, setting one and lifting one, and each has its own rule
about rank. Setting goes by the column rules of `KdxHotline.Storage.Bans.merge`;
lifting by `KdxHotline.Auth.mayLiftBan`, after the actor was resolved. As long as a
ban is in force, requests by actors of a class below its banner's can do no more than
extend it (`KdxHotline.Auth.ban_upheld`), whatever their number, order and outcome.
The class on record never decreases at all by setting bans
(`KdxHotline.Auth.ban_ranked`).

Times are only asked to be times at which the ban is in force: that they do not
decrease is not needed.
-/

namespace KdxHotline

namespace Auth

open Foundations Storage

open Privileges Bans

/-! ### The requests -/

/-- A request that changes bans. -/
inductive BanRequest
  | setRanked (accountId : String) (until_ : ℤ) (reason bannedBy : String) (bannedByClass : ℤ)
  | removeBan (session : Session) (username : String)

/-- A request at a time ends, whether it is accepted, refused, or fails. -/
inductive BanStep : World → ℤ × BanRequest → World → Prop
  | setRanked {w w' : World} {now until_ bannedByClass : ℤ} {accountId reason bannedBy : String}
      {r : Except Refusal ℤ}
      (h : Ends (stored (fun e => .internal "ban" (storageErrorText e))
        (Bans.setRanked accountId until_ reason bannedBy bannedByClass now)) w r w') :
      BanStep w (now, .setRanked accountId until_ reason bannedBy bannedByClass) w'
  | removeBan {w w' : World} {now : ℤ} {session : Session} {username : String}
      {r : Except Refusal RankedBan} (h : Ends (Auth.removeBan now session username) w r w') :
      BanStep w (now, .removeBan session username) w'

/-- The actor of the request is of a class strictly below the one the ban was set at:
the class a ban is set with, or the one the resolved actor acts at. -/
def BanRequest.Below (db : AccountTables) (ban : BanRow) : BanRequest → Prop
  | .setRanked _ _ _ _ bannedByClass => bannedByClass < ban.bannedByClass
  | .removeBan session _ => ∀ actor, ActsAs db session userBan actor →
      actor.authority.class_ < classFromStored ban.bannedByClass

/-- The request sets a ban. -/
def BanRequest.Sets : BanRequest → Prop
  | .setRanked .. => True
  | .removeBan .. => False

/-! ### What one request does to a ban in force -/

section Steps

variable {w w' : World} {now : ℤ} {accountId : String} {ban : BanRow}

/-- **Setting a ban, on whatever account, leaves a ban in force as it is or merges
into it.** -/
theorem banOf_setRanked {id reason bannedBy : String} {until_ bannedByClass : ℤ}
    (h : BanStep w (now, .setRanked id until_ reason bannedBy bannedByClass) w')
    (hforce : inForce w.db accountId now = some ban) :
    banOf w'.db accountId = some ban ∨
      banOf w'.db accountId = some (merge ban ⟨id, until_, reason, bannedBy, bannedByClass⟩) := by
  cases h with
  | setRanked h =>
    rcases h.returns_or_fails with ⟨effective, h⟩ | ⟨e, h⟩
    · have hban : banOf w'.db accountId = _ := returns_setRanked (returns_stored h)
      rw [hban]
      split
      case isTrue he =>
        subst he
        rw [show inForce w.pool.db id now = some ban from hforce]
        exact .inr rfl
      case isFalse => exact .inl hforce
    · -- the transaction has not happened
      have hdb : w'.db = w.db := (stored_atomic (transaction_atomic _) _).fails h
      rw [hdb]
      exact .inl (inForce_eq_some.mp hforce).1

/-- **Nobody of a lower class lifts a ban in force.** -/
theorem banOf_removeBan {session : Session} {username : String}
    (h : BanStep w (now, .removeBan session username) w')
    (hforce : inForce w.db accountId now = some ban)
    (hbelow : (BanRequest.removeBan session username).Below w.db ban) :
    banOf w'.db accountId = some ban := by
  cases h with
  | removeBan h =>
    rcases removeBan_ends h with hdb | ⟨actor, target, removal, p, q, hacts, hp, hq, hremoval⟩
    · rw [hdb]
      exact (inForce_eq_some.mp hforce).1
    have hbans := (returns_removeIf accountId hremoval).2
    rw [hp, hq] at hbans
    cases removal with
    | notBanned => exact hbans.2.trans hforce
    | refused _ =>
      obtain ⟨_, -, -, -, hkept⟩ := hbans
      exact hkept.trans hforce
    | removed _ =>
      obtain ⟨b, hb, rfl, hallow, hkept⟩ := hbans
      by_cases he : target.accountId = accountId
      case neg => rwa [if_neg he, hforce] at hkept
      case pos =>
        -- it is this ban that the actor was allowed to lift, which it was not
        rw [he, hforce, Option.some_inj] at hb
        subst hb
        have hlower := hbelow actor hacts
        have hnotadmin : actor.authority.class_ ≠ .admin := by
          intro hadmin
          rw [hadmin] at hlower
          exact absurd (BaseClass.le_admin _) (not_le.mpr hlower)
        simp [mayLiftBan, hnotadmin, hlower.not_ge, hlower.not_gt] at hallow

/-- A ban of a lower class that is merged in extends the old one at most. -/
theorem merge_below {old new : BanRow} (h : new.bannedByClass < old.bannedByClass) :
    (merge old new).until_ = max old.until_ new.until_ ∧
      (merge old new).bannedBy = old.bannedBy ∧
      (merge old new).bannedByClass = old.bannedByClass := by
  have hreplaces : replaces new old = false := by
    simp [replaces, h.le, h.not_ge]
  refine ⟨?_, ?_, max_eq_left h.le⟩
  · rw [merge, hreplaces]
    rfl
  · exact if_neg h.not_gt

end Steps

/-! ### Whole sequences of requests -/

/-- A ban that is upheld by another: it lasts as long, and the same banner set it, at
the same class. -/
structure Upholds (ban ban' : BanRow) : Prop where
  until_le : ban.until_ ≤ ban'.until_
  bannedBy : ban'.bannedBy = ban.bannedBy
  bannedByClass : ban'.bannedByClass = ban.bannedByClass

theorem Upholds.refl (ban : BanRow) : Upholds ban ban := ⟨le_rfl, rfl, rfl⟩

section Runs

variable {w w' : World} {accountId : String} {ban : BanRow} {requests : List (ℤ × BanRequest)}

/-- The account's ban is in force when the request is made. -/
def Banned (accountId : String) (w : World) (request : ℤ × BanRequest) : Prop :=
  (inForce w.db accountId request.1).isSome

/-- **The step:** a ban stays upheld by a request of a lower class. -/
theorem upholds_step {request : ℤ × BanRequest} {current : BanRow}
    (hcurrent : banOf w.db accountId = some current) (hupheld : Upholds ban current)
    (h : BanStep w request w') (hforce : Banned accountId w request)
    (hbelow : request.2.Below w.db ban) :
    ∃ ban', banOf w'.db accountId = some ban' ∧ Upholds ban ban' := by
  obtain ⟨now, request⟩ := request
  obtain ⟨b, hb⟩ := Option.isSome_iff_exists.mp hforce
  obtain rfl : b = current :=
    Option.some.inj ((inForce_eq_some.mp hb).1.symm.trans hcurrent)
  cases request with
  | setRanked id until_ reason bannedBy bannedByClass =>
    rcases banOf_setRanked h hb with hsame | hmerged
    · exact ⟨b, hsame, hupheld⟩
    · have hlower : (BanRow.mk id until_ reason bannedBy bannedByClass).bannedByClass < b.bannedByClass :=
        hupheld.bannedByClass ▸ hbelow
      obtain ⟨huntil, hbanner, hclass⟩ := merge_below hlower
      refine ⟨_, hmerged, ?_, hbanner.trans hupheld.bannedBy, hclass.trans hupheld.bannedByClass⟩
      rw [huntil]
      exact hupheld.until_le.trans (le_max_left _ _)
  | removeBan session username =>
    refine ⟨b, banOf_removeBan h hb fun actor hacts => ?_, hupheld⟩
    rw [hupheld.bannedByClass]
    exact hbelow actor hacts

/-- **A ban in force survives every sequence of requests by lower classes**: it ends no
earlier, and keeps its banner and its class. -/
theorem ban_upheld (hban : banOf w.db accountId = some ban)
    (h : Run (Guarded BanStep fun w request =>
      Banned accountId w request ∧ request.2.Below w.db ban) w requests w') :
    ∃ ban', banOf w'.db accountId = some ban' ∧ Upholds ban ban' := by
  refine h.invariant (fun w => ∃ ban', banOf w.db accountId = some ban' ∧ Upholds ban ban') ?_
    ⟨ban, hban, .refl ban⟩
  rintro s request t ⟨current, hcurrent, hupheld⟩ ⟨hstep, hforce, hbelow⟩
  exact upholds_step hcurrent hupheld hstep hforce hbelow

/-- **The class on record never decreases by setting bans**, of whatever class. -/
theorem ban_ranked (hban : banOf w.db accountId = some ban)
    (h : Run (Guarded BanStep fun w request => Banned accountId w request ∧ request.2.Sets)
      w requests w') :
    ∃ ban', banOf w'.db accountId = some ban' ∧ ban.bannedByClass ≤ ban'.bannedByClass := by
  refine h.invariant (fun w => ∃ ban', banOf w.db accountId = some ban' ∧
    ban.bannedByClass ≤ ban'.bannedByClass) ?_ ⟨ban, hban, le_rfl⟩
  rintro s ⟨now, request⟩ t ⟨current, hcurrent, hle⟩ ⟨hstep, hforce, hsets⟩
  obtain ⟨b, hb⟩ := Option.isSome_iff_exists.mp hforce
  obtain rfl : b = current :=
    Option.some.inj ((inForce_eq_some.mp hb).1.symm.trans hcurrent)
  cases request with
  | setRanked id until_ reason bannedBy bannedByClass =>
    rcases banOf_setRanked hstep hb with hsame | hmerged
    · exact ⟨b, hsame, hle⟩
    · exact ⟨_, hmerged, hle.trans (le_max_left _ _)⟩
  | removeBan => exact absurd hsets id

/-- A ban that upholds another is in force whenever the other would have been. -/
theorem Upholds.inForce {db : AccountTables} {ban' : BanRow} (h : Upholds ban ban')
    (hban : banOf db accountId = some ban') {now : ℤ} (hnow : now < ban.until_) :
    Bans.inForce db accountId now = some ban' :=
  inForce_eq_some.mpr ⟨hban, hnow.trans_le h.until_le⟩

/-- **Bans are ranked.** A ban in force stays in force through every sequence of
requests by lower classes, with an expiry that is no earlier and the banner and class
on record; and setting bans never lowers the class on record. -/
theorem bans_ranked (accountId : String) :
    (∀ {w w' : World} {requests ban}, banOf w.db accountId = some ban →
      Run (Guarded BanStep fun w request =>
        Banned accountId w request ∧ request.2.Below w.db ban) w requests w' →
      ∃ ban', banOf w'.db accountId = some ban' ∧ Upholds ban ban' ∧
        ∀ now < ban.until_, Bans.inForce w'.db accountId now = some ban') ∧
    ∀ {w w' : World} {requests ban}, banOf w.db accountId = some ban →
      Run (Guarded BanStep fun w request => Banned accountId w request ∧ request.2.Sets)
        w requests w' →
      ∃ ban', banOf w'.db accountId = some ban' ∧ ban.bannedByClass ≤ ban'.bannedByClass := by
  refine ⟨fun hban hrun => ?_, ban_ranked⟩
  obtain ⟨ban', hban', hupheld⟩ := ban_upheld hban hrun
  exact ⟨ban', hban', hupheld, fun _ => hupheld.inForce hban'⟩

end Runs

/-! A moderator extends an administrator's ban, and then tries to lift it. -/

namespace Moderated

/-- A power user who may ban, and a user banned by one of class 3. -/
def tables : AccountTables where
  accounts :=
    [⟨"a1", "mod", "", none, 2, userBan.toNat, 0⟩, ⟨"a2", "crash", "", none, 1, 0, 0⟩]
  roles := []
  accountRoles := []
  bans := [⟨"a2", 5000, "spam", "sysop", 3⟩]
  accounts_id := by decide
  accounts_username := by decide
  roles_id := uniqueKey_nil _
  roles_name := uniqueKey_nil _
  accountRoles_pk := accountRoles_pk_nil
  accountRoles_account := by simp
  accountRoles_role := accountRoles_role_nil
  bans_pk := by decide
  bans_account := by decide

/-- A server with these tables and no session. -/
def world : World := ⟨⟨tables, []⟩, []⟩

/-- The moderator's session, as its login left it. -/
def session : Session := ⟨"mod", .powerUser, BaseClass.privileges .powerUser ||| userBan⟩

/-- The state after the extension. -/
def extended : World :=
  leaves (stored (fun e => .internal "ban" (storageErrorText e))
    (Bans.setRanked "a2" 9000 "longer" "mod" 2 100)) world

theorem extend : BanStep world (100, .setRanked "a2" 9000 "longer" "mod" 2) extended :=
  .setRanked (ends_leaves _ _)

theorem unban :
    BanStep extended (200, .removeBan session "crash") (leaves (removeBan 200 session "crash") extended) :=
  .removeBan (ends_leaves _ _)

end Moderated

open Moderated in
/-- A moderator's ban over a higher one keeps it, and lifting it is refused. -/
theorem bans_ranked_moderated :
    (∃ ban, banOf (leaves (removeBan 200 session "crash") extended).db "a2" = some ban ∧
      Upholds ⟨"a2", 5000, "spam", "sysop", 3⟩ ban ∧ ∀ now < 5000,
        Bans.inForce (leaves (removeBan 200 session "crash") extended).db "a2" now = some ban) ∧
    ∃ ban, banOf extended.db "a2" = some ban ∧ 3 ≤ ban.bannedByClass := by
  refine ⟨(bans_ranked "a2").1 rfl (.cons ⟨extend, ?_, ?_⟩ (.cons ⟨unban, ?_, ?_⟩ (.nil _))),
    (bans_ranked "a2").2 (show banOf world.db "a2" = some ⟨"a2", 5000, "spam", "sysop", 3⟩ from rfl)
      (.cons ⟨extend, ?_, trivial⟩ (.nil _))⟩
  · exact (show (Bans.inForce world.db "a2" 100).isSome by decide +kernel)
  · exact (show (2 : ℤ) < 3 by decide)
  · exact (show (Bans.inForce extended.db "a2" 200).isSome by decide +kernel)
  · rintro actor ⟨stored, -, rfl, -⟩
    exact (min_le_left _ _).trans_lt (show BaseClass.powerUser < classFromStored 3 by decide)
  · exact (show (Bans.inForce world.db "a2" 100).isSome by decide +kernel)

end Auth

end KdxHotline
