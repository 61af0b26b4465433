import Mathlib.Data.Multiset.ZeroCons
import KdxHotline.Auth.Administrators
import KdxHotline.Foundations.Tasks
import KdxHotline.Protocol.Messages.Admin

/-!
# Bans are decided against current authority, or not

To ban somebody takes three steps: the actor is resolved, the target is read, the ban
is written (`KdxHotline.Auth.adminDisconnect`). Every other request that changes
accounts, roles or bans holds the mutation lock from its checks to its write, so among
bans it is one step (`KdxHotline.Auth.Mutation`). A ban takes no lock. What was read of
the actor and the target may therefore be changed before the ban is written, and it is
written all the same (`KdxHotline.Auth.written_after_demotion`).

That is the only way to go wrong. As long as no other request lands in between that
takes away what a ban rests on (`KdxHotline.Auth.Stage.Stands`), every ban that is
written is one its actor may set at that moment (`KdxHotline.Auth.bans_decided`); other
bans never take it away, because they leave accounts and roles alone. The class on record
is then no higher than the actor's, unless the target is banned by a higher one already:
that one stays on record.
-/

namespace KdxHotline

namespace Auth

open Foundations Storage

open Privileges Limits Protocol

/-! ### Kicks and bans -/

/-- How far a ban has come: what it has read, and when, by whom and for whom it was written. -/
inductive Stage
  | resolved (actor : Actor)
  | read (actor : Actor) (target : AccountState)
  | wrote (now : ℤ) (actor : Actor) (target : AccountState)
  deriving DecidableEq

/-- What a step belongs to. -/
inductive Label
  | resolve
  | readTarget
  | writeBan
  | disconnect
  | request (session : Session) (mutation : Mutation)

/-- The request that a step is the whole of. -/
def Label.mutation : Label → Option (Session × Mutation)
  | request session mutation => some (session, mutation)
  | _ => none

/-- What a session asks for, step by step. -/
abbrev Steps (α : Type) : Type 1 := Prog World (Option Stage) Label Refusal α

section Staged

variable {α : Type}

/-- Do something, and note the stage it brings a ban to; the ban is given up when it
fails. -/
def staging (x : Fallible World Refusal α) (next : α → Option Stage) :
    Fallible (World × Option Stage) Refusal α := fun s =>
  match x.run s.1 with
  | .ok a w => .ok a (w, next a)
  | .error e w => .error e (w, none)

/-- A step of a ban. -/
def staged (label : Label) (x : Fallible World Refusal α) (next : α → Option Stage) : Steps α :=
  .call label (staging x next)

/-- A staged step returns as what it stages, and stands where that says. -/
theorem returns_staging {x : Fallible World Refusal α} {next : α → Option Stage}
    {s t : World × Option Stage} {a : α} :
    Returns (staging x next) s a t ↔ Returns x s.1 a t.1 ∧ next a = t.2 := by
  obtain ⟨w, own⟩ := t
  simp only [Returns, staging, EStateM.run]
  cases x s.1 with
  | ok b w' =>
    simp only [EStateM.Result.ok.injEq, Prod.mk.injEq]
    grind
  | error e w' => simp

theorem fails_staging {x : Fallible World Refusal α} {next : α → Option Stage}
    {s t : World × Option Stage} {e : Refusal} :
    Fails (staging x next) s e t ↔ Fails x s.1 e t.1 ∧ none = t.2 := by
  obtain ⟨w, own⟩ := t
  simp only [Fails, staging, EStateM.run]
  cases x s.1 <;> simp [and_assoc]

end Staged

/-- Check that the session may kick, and ban if that is what it asks for. -/
def kicker (session : Session) (req : AdminDisconnect) : Fallible World Refusal Actor := do
  let actor ← resolveActor session userKick
  check (refuseIf (decide (0 < req.banSecs) && !actor.authority.privileges.contains userBan)
    (.denied "missing USER_BAN privilege"))
  check (refuseIf (req.username == actor.username) (.denied "cannot disconnect yourself"))
  check ((checkLen "reason" req.reason maxReasonLen).mapError .denied)
  return actor

/-- Read the target and check that it does not outrank the actor, by its stored class or
by that of a live session. -/
def readTarget (live : Option ℕ) (actor : Actor) (req : AdminDisconnect) :
    Fallible World Refusal (Option AccountState) := do
  let state ← stored (fun e => .internal "disconnect" (storageErrorText e))
    (accountState req.username)
  let targetClass := max live (state.map fun s => s.class_.toNat)
  check (refuseIf (targetClass.any fun c => decide (actor.authority.class_.toNat < c))
    (.denied "cannot disconnect a higher-class user"))
  check (refuseIf (decide (0 < req.banSecs) && state.isNone) (.denied "no such account"))
  return state

/-- When a ban of this many seconds ends. -/
def banUntil (now : ℤ) (banSecs : UInt32) : ℤ := min (now + banSecs.toNat) (2 ^ 63 - 1)

/-- Write the ban that was asked for. Returns the expiry now in force. -/
def writeBan (now : ℤ) (actor : Actor) (req : AdminDisconnect) (target : AccountState) :
    Fallible World Refusal ℤ :=
  stored (fun e => .internal "ban" (storageErrorText e))
    (Bans.setRanked target.accountId (banUntil now req.banSecs) req.reason actor.username
      actor.authority.class_.toNat now)

/-- Record the ban before kicking, so that a racing reconnect is refused; a kick records
none. -/
def recordBan (now : ℤ) (actor : Actor) (req : AdminDisconnect) : Option AccountState → Steps ℤ
  | some target =>
    staged .writeBan (writeBan now actor req target) fun _ =>
      some (.wrote now actor target)
  | none => pure 0

/-- What the actor is told when `reached` sessions were dropped. -/
def disconnectAck (req : AdminDisconnect) (longerBanKept : Bool) (reached : ℕ) : String :=
  if 0 < req.banSecs then
    "banned " ++ req.username ++
      (if longerBanKept then " (a longer existing ban stays in force)" else "") ++ " — " ++
      reached.repr ++ " session(s) dropped"
  else "disconnected " ++ req.username ++ " — " ++ reached.repr ++ " session(s)"

/-- Kick a user, and ban it if that is asked for, at the time `now`. What the live
sessions are is up to presence: the class one is shown with, and how many of them are
dropped. -/
def adminDisconnect (now : ℤ) (live : Option ℕ) (reached : ℕ) (session : Session)
    (req : AdminDisconnect) : Steps String := do
  let actor ← staged .resolve (kicker session req) fun actor =>
    if 0 < req.banSecs then some (.resolved actor) else none
  let target ← staged .readTarget (readTarget live actor req) fun state =>
    if 0 < req.banSecs then state.map (.read actor) else none
  let banned := if 0 < req.banSecs then target else none
  let inForce ← recordBan now actor req banned
  staged .disconnect (Auth.disconnect req.username
    (if req.reason.isEmpty then "disconnected by an administrator" else req.reason)) fun _ =>
      banned.map (.wrote now actor)
  if reached = 0 ∧ req.banSecs = 0 then
    .fail (.denied (req.username ++ " is not online"))
  else
    return disconnectAck req (decide (0 < req.banSecs ∧ banUntil now req.banSecs < inForce)) reached

/-- What a session may ask for. -/
inductive Request
  | disconnect (now : ℤ) (live : Option ℕ) (reached : ℕ) (session : Session)
      (req : AdminDisconnect)
  | mutate (session : Session) (mutation : Mutation)

/-- A request that holds the mutation lock: whatever its outcome, it is one step. -/
def locked (session : Session) (mutation : Mutation) : Steps Unit :=
  .step (.request session mutation)
    (fun s => ((), leaves (mutation.run session) s.1, s.2)) pure

/-- What a request does. -/
def serve : Request → Steps Unit
  | .disconnect now live reached session req => do
    let _ ← adminDisconnect now live reached session req
  | .mutate session mutation => locked session mutation

/-- The server: the tables, and every session's request with how far it has come. -/
abbrev AdminServer : Type 1 := Tasks World (Option Stage) Label Refusal

/-- Take a turn. -/
def AdminServer.step (c : AdminServer) (turn : Turn Request) : Option AdminServer :=
  c.take serve none turn

/-- How far the ban of a task has come. -/
def AdminServer.stage (c : AdminServer) (i : ℕ) : Option Stage := c.tasks[i]?.bind Prod.fst

/-! ### What a ban rests on -/

/-- The account may still kick and ban, and is of no lower class than the actor that was
resolved from it. -/
def AccountState.Backs (a : AccountState) (actor : Actor) : Prop :=
  Within userKick a.effective ∧ Within userBan a.effective ∧ actor.authority.class_ ≤ a.class_

instance decidableBacks (a : AccountState) (actor : Actor) : Decidable (a.Backs actor) :=
  inferInstanceAs (Decidable (_ ∧ _))

/-- What the ban rests on, as far as it has come, is so in the tables. -/
def Stage.Stands (db : AccountTables) : Stage → Prop
  | resolved actor => ∃ a ∈ storedState db actor.username, a.Backs actor
  | read actor target => ∃ a ∈ storedState db actor.username, a.Backs actor ∧
      ∃ t ∈ storedState db target.username, t.class_ ≤ a.class_
  | wrote _ _ _ => True

instance decidableStands (db : AccountTables) : (stage : Stage) → Decidable (stage.Stands db)
  | .resolved _ => inferInstanceAs (Decidable (∃ a ∈ _, _))
  | .read _ _ => inferInstanceAs (Decidable (∃ a ∈ _, _))
  | .wrote _ _ _ => inferInstanceAs (Decidable True)

/-- The actor, as it is stored, may kick and ban, is of no lower class than the target, and of
no lower class than the ban on record for it. -/
def Decided (db : AccountTables) (actor : Actor) (target : AccountState) : Prop :=
  ∃ a ∈ storedState db actor.username, Within userKick a.effective ∧ Within userBan a.effective ∧
    (∃ t ∈ storedState db target.username, t.class_ ≤ a.class_) ∧
    ∃ row ∈ Bans.banOf db target.accountId, row.bannedByClass ≤ a.class_.toNat

instance decidableDecided (db : AccountTables) (actor : Actor) (target : AccountState) :
    Decidable (Decided db actor target) :=
  inferInstanceAs (Decidable (∃ a ∈ _, _ ∧ _ ∧ (∃ t ∈ _, _) ∧ ∃ row ∈ _, _))

/-- The target has a ban in force that was set at a higher class than the actor is stored with. -/
def Outranked (db : AccountTables) (now : ℤ) (actor : Actor) (target : AccountState) : Prop :=
  ∃ a ∈ storedState db actor.username, ∃ old ∈ Bans.inForce db target.accountId now,
    (a.class_.toNat : ℤ) < old.bannedByClass

instance decidableOutranked (db : AccountTables) (now : ℤ) (actor : Actor) (target : AccountState) :
    Decidable (Outranked db now actor target) :=
  inferInstanceAs (Decidable (∃ a ∈ _, ∃ old ∈ _, _))

/-- The ban that the actor sets, at the class it was resolved at, is the one on record, merged
into the one that was in force. -/
def OnRecord (before after : AccountTables) (now : ℤ) (actor : Actor) (target : AccountState) :
    Prop :=
  ∃ until_ reason, ∃ new : BanRow,
    new = ⟨target.accountId, until_, reason, actor.username, actor.authority.class_.toNat⟩ ∧
      Bans.banOf after target.accountId =
        some (((Bans.inForce before target.accountId now).map fun old => Bans.merge old new).getD new)

/-- **What is so when a ban is written**: the ban stands, its class is the actor's, and what is
on record is of no higher class than the actor is stored with, unless that class was in force
before. -/
structure Written (before after : AccountTables) (now : ℤ) (actor : Actor)
    (target : AccountState) : Prop where
  stands : (Stage.read actor target).Stands after
  recorded : OnRecord before after now actor target
  decided : Decided after actor target ↔ ¬Outranked before now actor target

/-- No request of another task lands between what a ban has read and its write that
takes away what the ban rests on. -/
def AdminServer.Undisturbed (c : AdminServer) : Turn Request → Prop
  | .start _ => True
  | .step i => ∀ m ∈ (c.next i).bind Label.mutation, ∀ own ∈ c.others i, ∀ stage ∈ own,
      stage.Stands (leaves (m.2.run m.1) c.shared).db

instance decidableUndisturbed (c : AdminServer) :
    (turn : Turn Request) → Decidable (c.Undisturbed turn)
  | .start _ => inferInstanceAs (Decidable True)
  | .step i => inferInstanceAs (Decidable (∀ m ∈ (c.next i).bind Label.mutation,
      ∀ own ∈ c.others i, ∀ stage ∈ own, stage.Stands _))

section Tables

variable {db db' : AccountTables}

/-- The stored accounts do not depend on the bans. -/
theorem storedState_congr (h : Bans.privilegeTables db' = Bans.privilegeTables db)
    (username : String) : storedState db' username = storedState db username := by
  obtain ⟨haccounts, htables⟩ := Prod.mk.inj h
  obtain ⟨hroles, hheld⟩ := Prod.mk.inj htables
  simp only [storedState, AccountTables.account, stateOfRow, rolesOf, haccounts, hroles, hheld]

/-- What a ban rests on is read from accounts and roles alone. -/
theorem Stage.Stands.congr (h : Bans.privilegeTables db' = Bans.privilegeTables db) {stage : Stage}
    (hstands : stage.Stands db) : stage.Stands db' := by
  cases stage with
  | resolved actor =>
    rw [Stands, storedState_congr h]
    exact hstands
  | read actor target =>
    rw [Stands, storedState_congr h, storedState_congr h]
    exact hstands
  | wrote now actor target => trivial

end Tables

/-! ### What one step of a ban does -/

section Steps

variable {w w' : World} {session : Session} {req : AdminDisconnect} {actor : Actor}

theorem kicker_keeps : Keeps World.db (kicker session req) :=
  (resolveActor_keeps _ _).bind fun _ => (keeps_check _).bind fun _ => (keeps_check _).bind
    fun _ => (keeps_check _).bind fun _ => keeps_pure _

theorem readTarget_keeps {live : Option ℕ} : Keeps World.db (readTarget live actor req) :=
  (stored_keeps (accountState_keeps _) _).bind fun _ => (keeps_check _).bind fun _ =>
    (keeps_check _).bind fun _ => keeps_pure _

/-- **An actor that was resolved for a ban stands.** -/
theorem kicker_returns (h : Returns (kicker session req) w actor w') :
    0 < req.banSecs → (Stage.resolved actor).Stands w.db := by
  obtain ⟨actor', w₁, h₁, h⟩ := returns_bind.mp h
  obtain ⟨_, w₂, h₂, h⟩ := returns_bind.mp h
  obtain ⟨hban, rfl⟩ := returns_check.mp h₂
  obtain ⟨_, w₃, h₃, h⟩ := returns_bind.mp h
  obtain ⟨-, rfl⟩ := returns_check.mp h₃
  obtain ⟨_, w₄, h₄, h⟩ := returns_bind.mp h
  obtain ⟨-, rfl⟩ := returns_check.mp h₄
  obtain ⟨rfl, rfl⟩ := returns_pure.mp h
  intro hsecs
  obtain ⟨a, ha, rfl, hkick⟩ := resolveActor_returns h₁
  have hheld : Within userBan (session.privileges &&& a.effective) := by
    simpa [hsecs, Actor.narrowed] using hban
  exact ⟨a, ha, hkick.trans (and_within_right _ _), hheld.trans (and_within_right _ _), min_le_right _ _⟩

/-- **A target that was read does not outrank the actor.** -/
theorem readTarget_returns {live : Option ℕ} {state : Option AccountState}
    (h : Returns (readTarget live actor req) w state w') :
    ∀ target ∈ state, target ∈ storedState w.db target.username ∧
      target.class_ ≤ actor.authority.class_ := by
  obtain ⟨state', w₁, h₁, h⟩ := returns_bind.mp h
  have hstate := accountState_returns (returns_stored h₁)
  obtain ⟨_, w₂, h₂, h⟩ := returns_bind.mp h
  obtain ⟨hrank, rfl⟩ := returns_check.mp h₂
  obtain ⟨_, w₃, h₃, h⟩ := returns_bind.mp h
  obtain ⟨-, rfl⟩ := returns_check.mp h₃
  obtain ⟨rfl, rfl⟩ := returns_pure.mp h
  rintro target rfl
  refine ⟨?_, ?_⟩
  · obtain ⟨row, hrow, -, rfl⟩ := storedState_eq_some hstate.symm
    exact storedState_of_mem hrow
  change target.class_.toNat ≤ actor.authority.class_.toNat
  cases live with
  | none => simpa using hrank
  | some shown =>
    have hboth : shown ≤ actor.authority.class_.toNat ∧
        target.class_.toNat ≤ actor.authority.class_.toNat := by simpa using hrank
    exact hboth.2

/-- **A ban that stands is written as it was decided**, and leaves the accounts and their
roles alone. -/
theorem writeBan_returns {now effective : ℤ} {target : AccountState}
    (h : Returns (writeBan now actor req target) w effective w')
    (hstands : (Stage.read actor target).Stands w.db) :
    Bans.privilegeTables w'.db = Bans.privilegeTables w.db ∧
      Written w.db w'.db now actor target := by
  have htables : Bans.privilegeTables w'.db = Bans.privilegeTables w.db :=
    Bans.setRanked_privilegeTables (returns_stored h)
  have hrow : Bans.banOf w'.db target.accountId = _ := Bans.returns_setRanked (returns_stored h)
  rw [if_pos rfl] at hrow
  refine ⟨htables, hstands.congr htables, ⟨_, _, _, rfl, hrow⟩, ?_⟩
  obtain ⟨a, ha, ⟨hkick, hban, hclass⟩, htarget⟩ := hstands.congr htables
  have hsame : storedState w.db actor.username = storedState w'.db actor.username :=
    (storedState_congr htables _).symm
  have hrank : (actor.authority.class_.toNat : ℤ) ≤ a.class_.toNat :=
    Int.ofNat_le.mpr (show actor.authority.class_.toNat ≤ a.class_.toNat from hclass)
  have hrecorded : (∃ row ∈ Bans.banOf w'.db target.accountId, row.bannedByClass ≤ a.class_.toNat) ↔
      ∀ old ∈ Bans.inForce w.db target.accountId now, old.bannedByClass ≤ a.class_.toNat := by
    rw [hrow]
    cases hold : Bans.inForce w.db target.accountId now with
    | none =>
      rw [show Bans.inForce w.pool.db target.accountId now = none from hold]
      simpa using hrank
    | some old =>
      -- over a ban that is in force the higher class stays on record
      rw [show Bans.inForce w.pool.db target.accountId now = some old from hold]
      simpa [Bans.merge] using fun _ => hrank
  constructor
  · rintro ⟨a', ha', -, -, -, hrow'⟩ ⟨a₀, ha₀, old, hold, hhigher⟩
    obtain rfl : a' = a := Option.some.inj (ha'.symm.trans ha)
    rw [hsame] at ha₀
    obtain rfl : a₀ = a' := Option.some.inj (ha₀.symm.trans ha)
    exact absurd (hrecorded.mp hrow' old hold) (not_le.mpr hhigher)
  · intro hnot
    refine ⟨a, ha, hkick, hban, htarget, hrecorded.mpr fun old hold => ?_⟩
    by_contra hhigher
    exact hnot ⟨a, hsame ▸ ha, old, hold, not_le.mp hhigher⟩

end Steps

/-! ### Whole runs -/

/-- What the tasks keep to: what the bans rest on stands, and a ban that is written is
one its actor may set. -/
def moderation : Discipline World (Option Stage) Label where
  inv w owns := ∀ own ∈ owns, ∀ stage ∈ own, stage.Stands w.db
  guar s t := ∀ now actor target, t.2 = some (.wrote now actor target) → s.2 ≠ t.2 →
    Written s.1.db t.1.db now actor target
  allows label s others := ∀ session mutation, label = .request session mutation →
    ∀ own ∈ others, ∀ stage ∈ own, stage.Stands (leaves (mutation.run session) s.1).db

section Runs

/-- **A step of a ban keeps to the discipline** if it leaves accounts and roles alone, and
brings the ban to a stage that stands. -/
theorem meets_staged {α : Type} {label : Label} {x : Fallible World Refusal α}
    {next : α → Option Stage} {own : Option Stage}
    (hreturns : ∀ {w a w'}, (∀ stage ∈ own, stage.Stands w.db) → Returns x w a w' →
      Bans.privilegeTables w'.db = Bans.privilegeTables w.db ∧
      (∀ stage ∈ next a, stage.Stands w'.db) ∧
      ∀ now actor target, next a = some (.wrote now actor target) → own ≠ next a →
        Written w.db w'.db now actor target)
    (hfails : ∀ {w e w'}, Fails x w e w' → w'.db = w.db) :
    moderation.Meets (fun s => s.2 = own) (staged label x next) (fun a s => s.2 = next a)
      fun _ _ => True := by
  refine Discipline.meets_call ?_ ?_ (fun a => Discipline.stable_own fun o => o = next a)
    fun _ => Discipline.stable_own fun _ => True
  · rintro w o rest a ⟨w', o'⟩ hinv - rfl hstep
    obtain ⟨hx, rfl⟩ := returns_staging.mp hstep
    obtain ⟨htables, hstands, hwrote⟩ :=
      hreturns (hinv _ (Multiset.mem_cons_self _ _)) hx
    refine ⟨fun own hown => ?_, hwrote, rfl⟩
    rcases Multiset.mem_cons.mp hown with rfl | hother
    · exact hstands
    · exact fun stage hstage =>
        (hinv own (Multiset.mem_cons_of_mem hother) stage hstage).congr htables
  · rintro w o rest e ⟨w', o'⟩ hinv - rfl hstep
    obtain ⟨hx, rfl⟩ := fails_staging.mp hstep
    refine ⟨fun own hown => ?_, nofun, trivial⟩
    rw [hfails hx]
    rcases Multiset.mem_cons.mp hown with rfl | hother
    · exact nofun
    · exact hinv own (Multiset.mem_cons_of_mem hother)

variable {now : ℤ} {live : Option ℕ} {reached : ℕ} {session : Session} {req : AdminDisconnect}

/-- **The write of a ban that has read its target**, which stands, keeps to the
discipline. -/
theorem recordBan_meets {actor : Actor} (banned : Option AccountState) :
    moderation.Meets (fun s => s.2 = banned.map (.read actor)) (recordBan now actor req banned)
      (fun _ s => s.2 = banned.map (.wrote now actor)) fun _ _ => True := by
  cases banned with
  | none => exact fun s hs => hs
  | some target =>
    refine meets_staged (fun {w effective w'} hstands h => ?_) fun h =>
      (stored_atomic (transaction_atomic _) _).fails h
    obtain ⟨htables, hwritten⟩ := writeBan_returns h (hstands _ rfl)
    refine ⟨htables, ?_, ?_⟩
    · rintro stage hstage
      cases hstage
      trivial
    · rintro now' actor' target' hwrote -
      cases hwrote
      exact hwritten

/-- A disconnect keeps the discipline, with a ban or without. -/
theorem adminDisconnect_meets :
    moderation.Meets (fun s => s.2 = none) (adminDisconnect now live reached session req)
      (fun _ _ => True) fun _ _ => True := by
  refine Discipline.Meets.bind (meets_staged (fun {w actor w'} _ h => ?_)
    fun h => kicker_keeps.fails h) fun actor => ?_
  · have hdb := kicker_keeps.returns h
    refine ⟨congrArg _ hdb, fun stage hstage => ?_, fun now' actor' target hwrote => ?_⟩
    · obtain ⟨hsecs, rfl⟩ := Option.ite_some_none_eq_some.mp hstage
      rw [hdb]
      exact kicker_returns h hsecs
    · obtain ⟨-, hstage⟩ := Option.ite_some_none_eq_some.mp hwrote
      cases hstage
  refine Discipline.Meets.bind (meets_staged (fun {w state w'} hstands h => ?_)
    fun h => readTarget_keeps.fails h) fun state => ?_
  · have hdb := readTarget_keeps.returns h
    refine ⟨congrArg _ hdb, fun stage hstage => ?_, fun now' actor' target hwrote => ?_⟩
    · split at hstage
      case isFalse => cases hstage
      case isTrue hsecs =>
        obtain ⟨target, htarget, rfl⟩ := Option.map_eq_some_iff.mp hstage
        obtain ⟨hstored, hrank⟩ := readTarget_returns h target htarget
        obtain ⟨a, ha, hbacks⟩ := hstands (.resolved actor) (if_pos hsecs)
        rw [hdb]
        exact ⟨a, ha, hbacks, target, hstored, hrank.trans hbacks.2.2⟩
    · split at hwrote
      case isFalse => cases hwrote
      case isTrue =>
        obtain ⟨_, -, hstage⟩ := Option.map_eq_some_iff.mp hwrote
        cases hstage
  -- only a target that is to be banned is written for
  have hread : (if 0 < req.banSecs then state.map (Stage.read actor) else none) =
      (if 0 < req.banSecs then state else none).map (.read actor) := by
    split <;> rfl
  rw [hread]
  generalize (if 0 < req.banSecs then state else none) = banned
  refine Discipline.Meets.bind (recordBan_meets _) fun inForce => ?_
  refine Discipline.Meets.bind (meets_staged (fun {w _ w'} hstands h => ?_)
    fun h => absurd h fails_modify) fun _ => ?_
  · have hdb := (disconnect_keeps _ _).returns h
    refine ⟨congrArg _ hdb, fun stage hstage => ?_, fun now' actor' target _ hne => absurd rfl hne⟩
    rw [hdb]
    exact hstands stage hstage
  · split
    · exact fun _ _ => trivial
    · exact fun _ _ => trivial

/-- Every request keeps the discipline. -/
theorem serve_moderates (request : Request) :
    moderation.Meets (fun s => s.2 = none) (Auth.serve request) (fun _ _ => True)
      fun _ _ => True := by
  cases request with
  | disconnect now live reached session req =>
    exact adminDisconnect_meets.bind fun _ _ _ => trivial
  | mutate session mutation =>
    refine Discipline.meets_step ?_ fun _ => Discipline.stable_own fun _ => True
    rintro w own rest hinv hallows rfl
    refine ⟨fun own hown => ?_, nofun, trivial⟩
    rcases Multiset.mem_cons.mp hown with rfl | hother
    · exact nofun
    · exact hallows session mutation rfl own hother

variable {w : World} {c c' : AdminServer} {turns : List (Turn Request)} {turn : Turn Request} {i : ℕ}

theorem moderation_allowed (h : c.Undisturbed turn) : moderation.Allowed c turn := by
  cases turn with
  | start request => trivial
  | step i =>
    rintro own β label x next hi session mutation rfl
    have hnext : c.next i = some (.request session mutation) := by rw [Tasks.next, hi]
    exact h (session, mutation) (by rw [hnext]; rfl)

/-- **Bans are decided against current authority**, in every run in which no request of
another task takes away what a ban rests on between its reads and its write: when the
ban is written, the actor's stored account holds what it takes and is of no lower class
than the target and than the class that the ban is set at. What is on record is of no higher
class either, just when no ban of a higher class was in force. -/
theorem bans_decided {now : ℤ} {actor : Actor} {target : AccountState}
    (h : Run (Guarded (fun c turn c' => AdminServer.step c turn = some c') AdminServer.Undisturbed)
      ⟨w, []⟩ turns c)
    (hstep : Guarded (fun c turn c' => AdminServer.step c turn = some c') AdminServer.Undisturbed
      c (.step i) c')
    (hbefore : c.stage i ≠ some (.wrote now actor target))
    (hafter : c'.stage i = some (.wrote now actor target)) :
    Written c.shared.db c'.shared.db now actor target := by
  have hstart : moderation.Holds (⟨w, []⟩ : AdminServer) :=
    ⟨fun own hown => absurd hown (Multiset.notMem_zero own), nofun⟩
  have hnew : ∀ s owns, moderation.inv s owns → moderation.inv s (none ::ₘ owns) := by
    intro s owns hinv own hown
    rcases Multiset.mem_cons.mp hown with rfl | hother
    · exact nofun
    · exact hinv own hother
  have hholds : moderation.Holds c := by
    refine Discipline.holds_run hstart serve_moderates hnew (h.mono ?_)
    rintro s a t ⟨htake, hguard⟩
    exact ⟨htake, moderation_allowed hguard⟩
  obtain ⟨htake, hguard⟩ := hstep
  obtain ⟨own, β, label, x, next, hi, rfl⟩ := Tasks.take_step htake
  -- the step that writes the ban is one of the discipline's, whose guarantee says what was written
  have hguar := hholds.guar hi (moderation_allowed hguard own β label x next hi)
  have hown : c.stage i = own := by
    rw [AdminServer.stage, hi]
    rfl
  have hown' : AdminServer.stage ⟨(x (c.shared, own)).2.1,
      c.tasks.set i ((x (c.shared, own)).2.2, next (x (c.shared, own)).1)⟩ i =
        (x (c.shared, own)).2.2 := by
    rw [AdminServer.stage, List.getElem?_set_self (List.getElem?_eq_some_iff.mp hi).1]
    rfl
  rw [hown'] at hafter
  rw [hown] at hbefore
  exact hguar now actor target hafter fun he => hbefore (he.trans hafter)

end Runs

/-! A moderator bans a user while an administrator is at work. -/

namespace Demotion

/-- An administrator, a moderator and a user. -/
def tables : AccountTables where
  accounts :=
    [⟨"a1", "root", "", none, 3, 0, 0⟩,
      ⟨"a2", "mod", "", none, 2, (userKick ||| userBan).toNat, 0⟩,
      ⟨"a3", "crash", "", none, 1, 0, 0⟩]
  roles := []
  accountRoles := []
  bans := []
  accounts_id := by decide
  accounts_username := by decide
  roles_id := uniqueKey_nil _
  roles_name := uniqueKey_nil _
  accountRoles_pk := accountRoles_pk_nil
  accountRoles_account := by simp
  accountRoles_role := accountRoles_role_nil
  bans_pk := uniqueKey_nil _
  bans_account := by simp

/-- The administrator's session. -/
def root : Session := ⟨"root", .admin, BaseClass.privileges .admin⟩

/-- The moderator's session, with the privileges to kick and to ban. -/
def mod : Session := ⟨"mod", .powerUser, BaseClass.privileges .powerUser ||| userKick ||| userBan⟩

/-- The moderator bans for an hour. -/
def ban : Request := .disconnect 1000 none 0 mod ⟨"crash", "spam", 3600⟩

/-- The administrator takes both privileges and the class away from an account. -/
def demote (username : String) : Request :=
  .mutate root (.admin (.updateAccount ⟨username, 0, 0, 0⟩))

/-- The moderator and the target are read, an account is demoted. -/
def turns (username : String) : List (Turn Request) :=
  [.start ban, .step 0, .step 0, .start (demote username), .step 1]

/-- The server after some turns that can be taken. -/
def after (turns : List (Turn Request)) : AdminServer :=
  (perform AdminServer.step ⟨⟨⟨tables, []⟩, []⟩, []⟩ turns).getD ⟨⟨⟨tables, []⟩, []⟩, []⟩

/-- The moderator, as the request read it. -/
def actor : Actor := ⟨"mod", ⟨.powerUser, mod.privileges⟩⟩

/-- The user, as the request read it. -/
def target : AccountState := ⟨"a3", "crash", .user, 0, 0, Privileges.empty⟩

/-- The guarded run that was computed. -/
theorem guarded_after {turns : List (Turn Request)}
    (h : (perform (fun c turn => if AdminServer.Undisturbed c turn then c.step turn else none)
      ⟨⟨⟨tables, []⟩, []⟩, []⟩ turns).isSome = true) :
    Run (Guarded (fun c turn c' => AdminServer.step c turn = some c') AdminServer.Undisturbed)
      ⟨⟨⟨tables, []⟩, []⟩, []⟩ turns (after turns) := by
  obtain ⟨c, hc⟩ := Option.isSome_iff_exists.mp h
  have hrun := guarded_of_perform hc
  have hafter : after turns = c := by rw [after, perform_of_run (hrun.mono And.left), Option.getD_some]
  rw [hafter]
  exact hrun

theorem run_after {turns : List (Turn Request)}
    (h : (perform AdminServer.step ⟨⟨⟨tables, []⟩, []⟩, []⟩ turns).isSome = true) :
    Run (fun c turn c' => AdminServer.step c turn = some c') ⟨⟨⟨tables, []⟩, []⟩, []⟩ turns
      (after turns) := by
  obtain ⟨c, hc⟩ := Option.isSome_iff_exists.mp h
  rw [after, hc]
  exact run_of_perform hc

/-- The last step of the run that was computed. -/
theorem step_after {turns : List (Turn Request)} {turn : Turn Request}
    (h : (perform AdminServer.step ⟨⟨⟨tables, []⟩, []⟩, []⟩ (turns ++ [turn])).isSome = true) :
    (after turns).step turn = some (after (turns ++ [turn])) := by
  obtain ⟨c', hc'⟩ := Option.isSome_iff_exists.mp h
  have hafter' : after (turns ++ [turn]) = c' := by rw [after, hc', Option.getD_some]
  rw [perform_append] at hc'
  obtain ⟨c, hc, hstep⟩ := Option.bind_eq_some_iff.mp hc'
  have hafter : after turns = c := by rw [after, hc, Option.getD_some]
  rw [hafter, hafter']
  simpa [perform] using hstep

end Demotion

open Demotion

/-- The target is demoted in between, and the ban is still one the moderator may set. -/
theorem bans_decided_demotion :
    Decided (after (turns "crash" ++ [.step 0])).shared.db actor target := by
  have hstep : Guarded (fun c turn c' => AdminServer.step c turn = some c') AdminServer.Undisturbed
      (after (turns "crash")) (.step 0) (after (turns "crash" ++ [.step 0])) :=
    ⟨step_after (by decide +kernel), by decide +kernel⟩
  have hwritten : Written (after (turns "crash")).shared.db
      (after (turns "crash" ++ [.step 0])).shared.db 1000 actor target :=
    bans_decided (guarded_after (by decide +kernel)) hstep (by decide +kernel) (by decide +kernel)
  exact hwritten.decided.mpr (by decide +kernel)

/-- The moderator is demoted in between, and the ban is written all the same. -/
theorem written_after_demotion :
    ¬∀ (w : World) (turns : List (Turn Request)) (c c' : AdminServer) (i : ℕ) (now : ℤ)
      (actor : Actor) (target : AccountState),
      Run (fun c turn c' => AdminServer.step c turn = some c') ⟨w, []⟩ turns c →
      c.step (.step i) = some c' → c.stage i ≠ some (.wrote now actor target) →
      c'.stage i = some (.wrote now actor target) → Decided c'.shared.db actor target := by
  intro h
  have hnot : ¬Decided (after (turns "mod" ++ [.step 0])).shared.db actor target := by
    decide +kernel
  exact hnot (h _ (turns "mod") _ _ 0 1000 actor target (run_after (by decide +kernel))
    (step_after (by decide +kernel)) (by decide +kernel) (by decide +kernel))

end Auth

end KdxHotline
