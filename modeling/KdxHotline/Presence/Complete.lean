import KdxHotline.Presence.Told

/-!
# Presence is complete and leaks no addresses

Over any commands, and whatever the queues are found to be, everybody who was there when a session
left and still is was told so once, after all else they were told of it; nobody who was found to be
gone is in the roster; and who may not see addresses is sent none
(`KdxHotline.Presence.updates_complete`).

Each command keeps two invariants: `KdxHotline.Presence.Told` of who was told what, and
`KdxHotline.Presence.Plain` of what the frames say. Sessions are numbers drawn at random, so no two
joins are taken to be of the same number.
-/

namespace KdxHotline

namespace Presence

open Foundations Protocol

/-! ### Commands, and who is told -/

/-- A session as it joined. -/
structure Joined where
  session : SessionId
  username : String
  seesAddresses : Bool
  deriving DecidableEq

/-- The session that a command lets join. -/
def Command.joins : Command → Option Joined
  | .join session username _ _ seesAddresses => some ⟨session, username, seesAddresses⟩
  | _ => none

/-- The frame that a command hands on. -/
def Command.outbound : Command → Option Outbound
  | .deliver _ outbound | .broadcastAll outbound => some outbound
  | _ => none

variable {w : World} {s s' : Roster} {c : Cascade} {id subject recipient : SessionId} {e : Entry}
  {joined doomed gone dead : List SessionId} {tried : List Attempt} {p : Announcement}
  {rest : List Announcement} {a : Attempt} {now : ℕ} {command : Command} {commands : List Command}

namespace Told

theorem doom (h : Told joined doomed c) (id : SessionId) : Told joined (id :: doomed) c :=
  { h with closed := fun a ha hclosed =>
      ⟨(h.closed a ha hclosed).1, fun hid => List.mem_cons_of_mem _ ((h.closed a ha hclosed).2 hid)⟩ }

/-- **The loop**, at whose end nothing waits. -/
theorem run (h : Told joined doomed c) : Told joined doomed ⟨(c.run w).roster, []⟩ := by
  have hrun : Told joined doomed (c.run w) := h.turns _
  have hpending : (c.run w).pending = [] := Cascade.pending_run
  rwa [← hpending]

/-- A change of a session that is there is announced. -/
theorem broadcast (h : Told joined doomed ⟨s, []⟩) (hsubject : p.subject ∈ s.ids)
    (honline : p.change.online = true) : Told joined doomed ⟨broadcast w s p, []⟩ := by
  have hfirst : Told joined doomed (Cascade.turn w ⟨s, [p]⟩) := by
    refine buryAll (h.record (fun a ha _ => ?_) (fun a ha subject htells => ?_)
      (fun a ha subject => ?_))
    · obtain ⟨id, e, he, -, rfl⟩ := mem_announcing.mp ha
      exact h.present id (List.mem_map.mpr ⟨_, he, rfl⟩)
    · rw [announces_announcing ha, Bool.and_eq_true, beq_iff_eq] at htells
      exact htells.1 ▸ hsubject
    · rw [announces_announcing ha, honline]
      exact Bool.and_false _
  -- the first turn is that of the change itself
  have hturns : Cascade.run w ⟨s, [p]⟩ =
      (Cascade.turn w)^[2 * s.entries.length] (Cascade.turn w ⟨s, [p]⟩) := rfl
  have hpending : (Cascade.run w ⟨s, [p]⟩).pending = [] := Cascade.pending_run
  have hrun : Told joined doomed ⟨(Cascade.run w ⟨s, [p]⟩).roster,
      (Cascade.run w ⟨s, [p]⟩).pending⟩ := hturns ▸ hfirst.turns _
  rwa [hpending] at hrun

theorem removeAll (h : Told joined (gone ++ doomed) ⟨s, []⟩) :
    Told joined doomed ⟨removeAll w s gone, []⟩ := by
  rw [Presence.removeAll]
  generalize w.now s.rounds = now
  induction gone generalizing s with
  | nil => exact h
  | cons id gone ih => exact ih (bury h).run

/-- A new session is in the roster. -/
theorem insert (h : Told joined doomed ⟨s, []⟩) (hnew : id ∉ joined) :
    Told (joined ++ [id]) doomed ⟨s.insert id e, []⟩ := by
  have hother {other : SessionId} (hother : other ∈ joined) (hin : other ∈ (s.insert id e).ids) :
      other ∈ s.ids :=
    (Roster.mem_ids_insert.mp hin).resolve_right fun he => hnew (he ▸ hother)
  constructor
  case present =>
    intro other hin
    rcases Roster.mem_ids_insert.mp hin with hold | rfl
    · exact List.mem_append_left _ (h.present other hold)
    · exact List.mem_append_right _ (List.mem_singleton_self _)
  case left =>
    intro other hjoined hout
    rcases List.mem_append.mp hjoined with hold | hself
    · exact h.left other hold fun hin => hout (Roster.mem_ids_insert.mpr (.inl hin))
    · exact absurd (Roster.mem_ids_insert.mpr (.inr (List.mem_singleton.mp hself))) hout
  case gone =>
    intro d hd
    obtain ⟨hjoined, hout, hpresent⟩ := h.gone d hd
    exact ⟨List.mem_append_left _ hjoined, fun hin => hout (hother hjoined hin),
      fun other hin => List.mem_append_left _ (hpresent other hin)⟩
  case once => exact h.once
  case pending => exact fun p hp => absurd hp List.not_mem_nil
  case waiting => exact List.nodup_nil
  case quiet => exact h.quiet
  case told =>
    intro d hd hwaits other hpresent hin
    exact h.told d hd hwaits other hpresent (hother ((h.gone d hd).2.2 other hpresent) hin)
  case atMost => exact h.atMost
  case ordered => exact h.ordered
  case closed =>
    intro a ha hclosed
    obtain ⟨hjoined, hdoomed⟩ := h.closed a ha hclosed
    exact ⟨List.mem_append_left _ hjoined, fun hin => hdoomed (hother hjoined hin)⟩

/-- **A round that is no announcement**, and whoever it finds gone is taken out. -/
theorem fanOut (h : Told joined [] ⟨s, []⟩) (hrecipients : ∀ a ∈ tried, a.recipient ∈ s.ids)
    (hsilent : ∀ a ∈ tried, ∀ subject online, a.announces subject online = false) :
    Told joined [] ⟨(fanOut w s tried).1, []⟩ :=
  removeAll (h.record (fun a ha _ => h.present _ (hrecipients a ha))
    (fun a ha subject htells => absurd htells (Bool.eq_false_iff.mp (hsilent a ha subject true)))
    fun a ha subject => hsilent a ha subject false)

/-- A round that hands on a frame, or fires kill signals. -/
theorem fanOut_attempts {select : SessionId → Entry → Bool} {attempt : SessionId → Entry → Attempt}
    (h : Told joined [] ⟨s, []⟩) (hids : s.ids = s'.ids)
    (hsilent : ∀ id e, (attempt id e).recipient = id ∧
      ∀ subject online, (attempt id e).announces subject online = false) :
    Told joined [] ⟨(Presence.fanOut w s (attempts w s' select attempt)).1, []⟩ := by
  refine h.fanOut (fun a ha => ?_) (fun a ha => ?_)
  · obtain ⟨id, e, he, -, rfl⟩ := mem_attempts.mp ha
    rw [(hsilent id e).1, hids]
    exact List.mem_map.mpr ⟨_, he, rfl⟩
  · obtain ⟨id, e, -, -, rfl⟩ := mem_attempts.mp ha
    exact (hsilent id e).2

/-- What a session that joins keeps. -/
theorem handle_join {username address : String} {class_ : UInt8} {seesAddresses : Bool}
    (h : Told joined [] ⟨s, []⟩) (hnew : id ∉ joined) : Told (joined ++ [id]) []
      ⟨(s.handle w (.join id username class_ address seesAddresses)).1, []⟩ := by
  have hfired : ∀ a ∈ s.closing.toList.map fun reason => Attempt.kill id reason true,
      a.foundClosed = false ∧ ∀ subject online, a.announces subject online = false := by
    intro a ha
    obtain ⟨reason, -, rfl⟩ := List.mem_map.mp ha
    exact ⟨rfl, fun _ _ => rfl⟩
  have hrecord := h.record (fun a ha hclosed => absurd hclosed (by rw [(hfired a ha).1]; decide))
    (fun a ha subject htells => absurd htells (by rw [(hfired a ha).2]; decide))
    (fun a ha subject => (hfired a ha).2 subject false)
  have hnobody : deadOf (s.closing.toList.map fun reason => Attempt.kill id reason true) = [] := by
    rw [deadOf, List.filter_eq_nil_iff.mpr, List.map_nil]
    exact fun a ha => by rw [(hfired a ha).1]; decide
  rw [hnobody] at hrecord
  exact (hrecord.insert hnew).broadcast (Roster.mem_ids_insert.mpr (.inr rfl)) rfl

/-- Any other command keeps everyone told. -/
theorem handle_other (h : Told joined [] ⟨s, []⟩) (hjoins : command.joins = none) :
    Told joined [] ⟨(s.handle w command).1, []⟩ := by
  have hforward (outbound : Outbound) (id : SessionId) (_ : Entry) :
      (Attempt.forward id outbound (w.queue s.rounds id)).recipient = id ∧
        ∀ subject online, (Attempt.forward id outbound (w.queue s.rounds id)).announces subject
          online = false := ⟨rfl, fun _ _ => rfl⟩
  have hkill (reason : String) (id : SessionId) (_ : Entry) :
      (Attempt.kill id reason (w.listens s.rounds id)).recipient = id ∧
        ∀ subject online, (Attempt.kill id reason (w.listens s.rounds id)).announces subject
          online = false := ⟨rfl, fun _ _ => rfl⟩
  cases command with
  | join => cases hjoins
  | leave session => exact removeAll (h.doom session)
  | touch session => exact h.congr (Roster.ids_update _) rfl rfl
  | setIdentity session name description =>
    rw [Roster.handle]
    cases hentry : s.entry session with
    | none => exact h
    | some entry =>
      refine (h.congr (Roster.ids_update _) rfl rfl).broadcast ?_ rfl
      rw [Roster.ids_update]
      exact Roster.mem_ids_of_entry hentry
  | list => exact h
  | get username => exact h
  | deliver username outbound => exact h.fanOut_attempts rfl (hforward outbound)
  | disconnect username reason => exact h.fanOut_attempts rfl (hkill reason)
  | disconnectOthers username except reason => exact h.fanOut_attempts rfl (hkill reason)
  | broadcastAll outbound => exact h.fanOut_attempts rfl (hforward outbound)
  | disconnectAll reason =>
    have hclosing : Told joined [] ⟨{ s with closing := some reason }, []⟩ := h.congr rfl rfl rfl
    exact hclosing.fanOut_attempts rfl (hkill reason)

/-- **Every command keeps who was told what.** -/
theorem handle (h : Told joined [] ⟨s, []⟩) (hnew : ∀ j ∈ command.joins, j.session ∉ joined) :
    Told (joined ++ (command.joins.toList.map Joined.session)) []
      ⟨(s.handle w command).1, []⟩ := by
  cases hjoins : command.joins with
  | none =>
    rw [Option.toList_none, List.map_nil, List.append_nil]
    exact h.handle_other hjoins
  | some j =>
    cases command with
    | join session username class_ address seesAddresses =>
      obtain rfl := Option.some.inj hjoins
      exact h.handle_join (hnew _ rfl)
    | _ => cases hjoins

/-- **Every run knows who was told what.** -/
theorem ofCommands (hfresh : ((commands.filterMap Command.joins).map Joined.session).Nodup) :
    Told ((commands.filterMap Command.joins).map Joined.session) [] ⟨Roster.run w commands, []⟩ := by
  induction commands using List.reverseRecOn with
  | nil => exact new
  | append_singleton commands command ih =>
    have hlast : ((commands ++ [command]).filterMap Command.joins).map Joined.session =
        (commands.filterMap Command.joins).map Joined.session ++
          command.joins.toList.map Joined.session := by
      rw [List.filterMap_append, List.map_append]
      cases hjoins : command.joins <;> simp [hjoins]
    rw [hlast] at hfresh ⊢
    obtain ⟨hbefore, -, hdisjoint⟩ := List.nodup_append.mp hfresh
    rw [Roster.run, List.foldl_concat]
    refine (ih hbefore).handle fun j hj hmem => ?_
    exact hdisjoint _ hmem _ (List.mem_map_of_mem (Option.mem_toList.mpr hj)) rfl

end Told

/-! ### What the frames say -/

/-- A frame announces a session under the name it joined with, and to a session that may not see
addresses it gives none. -/
def Announces (joined : List Joined) (recipient subject : SessionId) (online : Bool)
    (outbound : Outbound) : Prop :=
  ∃ change, outbound = changeFrame change ∧ change.online = online ∧
    (∃ j ∈ joined, j.session = subject ∧ j.username = change.entry.username) ∧
      ∃ j ∈ joined, j.session = recipient ∧ (j.seesAddresses = false → change.entry.address = "")

/-- Every frame is an announcement or one that was handed on. -/
structure Plain (joined : List Joined) (forwarded : List Outbound) (c : Cascade) : Prop where
  entries : ∀ e ∈ c.roster.entries, ⟨e.1, e.2.username, e.2.seesAddresses⟩ ∈ joined
  pending : ∀ p ∈ c.pending, ∃ j ∈ joined, j.session = p.subject ∧
    j.username = p.change.entry.username
  changes : ∀ recipient subject online outbound queue,
    .change recipient subject online outbound queue ∈ c.roster.log →
      Announces joined recipient subject online outbound
  forwards : ∀ recipient outbound queue, .forward recipient outbound queue ∈ c.roster.log →
    outbound ∈ forwarded

variable {joined joined' : List Joined} {forwarded forwarded' : List Outbound}

namespace Plain

theorem new : Plain [] [] ⟨.new, []⟩ := by
  constructor <;> simp [Roster.new]

/-- More may have joined, and more been forwarded. -/
theorem mono (h : Plain joined forwarded c) (hjoined : joined ⊆ joined')
    (hforwarded : forwarded ⊆ forwarded') : Plain joined' forwarded' c := by
  constructor
  case entries => exact fun e he => hjoined (h.entries e he)
  case pending =>
    intro p hp
    obtain ⟨j, hj, hsubject⟩ := h.pending p hp
    exact ⟨j, hjoined hj, hsubject⟩
  case changes =>
    intro recipient subject online outbound queue ha
    obtain ⟨change, hframe, honline, ⟨j, hj, hsubject⟩, j', hj', hsees⟩ := h.changes _ _ _ _ _ ha
    exact ⟨change, hframe, honline, ⟨j, hjoined hj, hsubject⟩, j', hjoined hj', hsees⟩
  case forwards => exact fun _ _ _ ha => hforwarded (h.forwards _ _ _ ha)

/-- What burying a session keeps. -/
theorem bury (h : Plain joined forwarded c) : Plain joined forwarded (c.bury now id) := by
  rw [Cascade.bury]
  cases hentry : c.roster.entry id with
  | none => exact h
  | some gone =>
    constructor
    case entries => exact fun e he => h.entries e (List.mem_filter.mp he).1
    case pending =>
      intro p hp
      rcases List.mem_cons.mp hp with rfl | hp
      · exact ⟨_, h.entries _ (Roster.mem_of_entry hentry), rfl, rfl⟩
      · exact h.pending p hp
    case changes => exact h.changes
    case forwards => exact h.forwards

theorem buryAll (h : Plain joined forwarded c) :
    Plain joined forwarded (dead.foldl (Cascade.bury now) c) := by
  induction dead generalizing c with
  | nil => exact h
  | cons id dead ih => exact ih h.bury

/-- **An announcement is redacted for who may not see addresses.** -/
theorem announce (h : Plain joined forwarded ⟨s, p :: rest⟩) :
    Plain joined forwarded ⟨s.record (announcing w s p), rest⟩ := by
  constructor
  case entries => exact h.entries
  case pending => exact fun q hq => h.pending q (List.mem_cons_of_mem _ hq)
  case changes =>
    intro recipient subject online outbound queue ha
    rcases List.mem_append.mp ha with hold | hnew
    · exact h.changes _ _ _ _ _ hold
    · obtain ⟨id, e, he, -, heq⟩ := mem_announcing.mp hnew
      injection heq with hrecipient hsubject honline hframe
      obtain ⟨j, hj, hj', hname⟩ := h.pending p List.mem_cons_self
      have hviewer : ⟨id, e.username, e.seesAddresses⟩ ∈ joined := h.entries _ he
      subst hrecipient hsubject honline hframe
      cases hsees : e.seesAddresses with
      | true =>
        refine ⟨p.change, rfl, rfl, ⟨j, hj, hj', hname⟩, _, hviewer, rfl, fun hfalse => ?_⟩
        rw [hsees] at hfalse
        cases hfalse
      | false =>
        exact ⟨{ p.change with entry := redactAddress p.change.entry }, rfl, rfl,
          ⟨j, hj, hj', hname⟩, _, hviewer, rfl, fun _ => rfl⟩
  case forwards =>
    intro recipient outbound queue ha
    rcases List.mem_append.mp ha with hold | hnew
    · exact h.forwards _ _ _ hold
    · obtain ⟨id, e, -, -, heq⟩ := mem_announcing.mp hnew
      cases heq

theorem turn (h : Plain joined forwarded c) : Plain joined forwarded (c.turn w) := by
  obtain ⟨s, pending⟩ := c
  cases pending with
  | nil => exact h
  | cons p rest => exact buryAll h.announce

theorem run (h : Plain joined forwarded c) : Plain joined forwarded ⟨(c.run w).roster, []⟩ := by
  have hrun : Plain joined forwarded (c.run w) :=
    Function.Iterate.rec (Plain joined forwarded) h (fun _ hc => hc.turn) _
  exact { hrun with pending := fun p hp => absurd hp List.not_mem_nil }

theorem broadcast (h : Plain joined forwarded ⟨s, []⟩)
    (hname : ∃ j ∈ joined, j.session = p.subject ∧ j.username = p.change.entry.username) :
    Plain joined forwarded ⟨broadcast w s p, []⟩ := by
  refine run { h with pending := fun q hq => ?_ }
  obtain rfl := List.mem_singleton.mp hq
  exact hname

theorem removeAll (h : Plain joined forwarded ⟨s, []⟩) :
    Plain joined forwarded ⟨removeAll w s gone, []⟩ := by
  rw [Presence.removeAll]
  generalize w.now s.rounds = now
  induction gone generalizing s with
  | nil => exact h
  | cons id gone ih => exact ih h.bury.run

/-- A round that is no announcement; what it hands on may be handed on. -/
theorem record (h : Plain joined forwarded ⟨s, []⟩)
    (hchange : ∀ a ∈ tried, ∀ recipient subject online outbound queue,
      a ≠ .change recipient subject online outbound queue)
    (hforward : ∀ recipient outbound queue, .forward recipient outbound queue ∈ tried →
      outbound ∈ forwarded) : Plain joined forwarded ⟨s.record tried, []⟩ := by
  constructor
  case entries => exact h.entries
  case pending => exact h.pending
  case changes =>
    intro recipient subject online outbound queue ha
    rcases List.mem_append.mp ha with hold | hnew
    · exact h.changes _ _ _ _ _ hold
    · exact absurd rfl (hchange _ hnew _ _ _ _ _)
  case forwards =>
    intro recipient outbound queue ha
    rcases List.mem_append.mp ha with hold | hnew
    · exact h.forwards _ _ _ hold
    · exact hforward _ _ _ hnew

theorem trySend {outbound : Outbound} {select : Entry → Bool} (h : Plain joined forwarded ⟨s, []⟩)
    (houtbound : outbound ∈ forwarded) :
    Plain joined forwarded ⟨(fanOut w s (trySendWhere w s outbound select)).1, []⟩ := by
  refine removeAll (h.record (fun a ha => ?_) fun recipient outbound' queue ha => ?_)
  · obtain ⟨id, e, -, -, rfl⟩ := mem_attempts.mp ha
    exact fun _ _ _ _ _ he => by cases he
  · obtain ⟨id, e, -, -, heq⟩ := mem_attempts.mp ha
    cases heq
    exact houtbound

theorem kill {reason : String} {select : SessionId → Entry → Bool}
    (h : Plain joined forwarded ⟨s, []⟩) :
    Plain joined forwarded ⟨(fanOut w s (killWhereId w s' reason select)).1, []⟩ := by
  refine removeAll (h.record (fun a ha => ?_) fun recipient outbound queue ha => ?_)
  · obtain ⟨id, e, -, -, rfl⟩ := mem_attempts.mp ha
    exact fun _ _ _ _ _ he => by cases he
  · obtain ⟨id, e, -, -, heq⟩ := mem_attempts.mp ha
    cases heq

/-- A session whose entry keeps its name and what it may see. -/
theorem update {f : Entry → Entry} (h : Plain joined forwarded ⟨s, []⟩)
    (hf : ∀ e, (id, e) ∈ s.entries →
      (f e).username = e.username ∧ (f e).seesAddresses = e.seesAddresses) :
    Plain joined forwarded ⟨s.update id f, []⟩ := by
  refine { h with entries := fun e he => ?_ }
  obtain ⟨⟨old, e⟩, hold, rfl⟩ := mem_setWhere.mp he
  split
  case isTrue hid =>
    obtain rfl : old = id := beq_iff_eq.mp hid
    obtain ⟨hname, hsees⟩ := hf e hold
    dsimp only
    rw [hname, hsees]
    exact h.entries _ hold
  case isFalse => exact h.entries _ hold

/-- What a session that joins keeps. -/
theorem handle_join {username address : String} {class_ : UInt8} {seesAddresses : Bool}
    (h : Plain joined forwarded ⟨s, []⟩) (hnew : ⟨id, username, seesAddresses⟩ ∈ joined) :
    Plain joined forwarded
      ⟨(s.handle w (.join id username class_ address seesAddresses)).1, []⟩ := by
  have hrecord : Plain joined forwarded
      ⟨s.record (s.closing.toList.map fun reason => Attempt.kill id reason true), []⟩ := by
    refine h.record (fun a ha => ?_) fun recipient outbound queue ha => ?_
    · obtain ⟨reason, -, rfl⟩ := List.mem_map.mp ha
      exact fun _ _ _ _ _ he => by cases he
    · obtain ⟨reason, -, heq⟩ := List.mem_map.mp ha
      cases heq
  refine broadcast { hrecord with entries := fun e he => ?_ } ⟨_, hnew, rfl, rfl⟩
  rcases List.mem_append.mp he with hold | hself
  · exact h.entries e (List.mem_filter.mp hold).1
  · obtain rfl := List.mem_singleton.mp hself
    exact hnew

/-- **Every command keeps what the frames say.** -/
theorem handle (h : Plain joined forwarded ⟨s, []⟩) :
    Plain (joined ++ command.joins.toList) (forwarded ++ command.outbound.toList)
      ⟨(s.handle w command).1, []⟩ := by
  have hmore := h.mono (List.subset_append_left joined command.joins.toList)
    (List.subset_append_left forwarded command.outbound.toList)
  cases command with
  | join session username class_ address seesAddresses =>
    exact hmore.handle_join (List.mem_append_right _ (List.mem_singleton_self _))
  | leave session => exact hmore.removeAll
  | touch session =>
    exact hmore.update (f := fun e => { e with lastActive := w.now s.rounds }) fun _ _ => ⟨rfl, rfl⟩
  | setIdentity session name description =>
    rw [Roster.handle]
    cases hentry : s.entry session with
    | none => exact hmore
    | some entry =>
      have hin : (session, entry) ∈ s.entries := Roster.mem_of_entry hentry
      refine (hmore.update fun e he => ?_).broadcast ⟨_, hmore.entries _ hin, rfl, rfl⟩
      obtain rfl := congrArg Prod.snd (s.entries_session.eq he hin rfl)
      exact ⟨rfl, rfl⟩
  | list => exact hmore
  | get username => exact hmore
  | deliver username outbound =>
    exact hmore.trySend (List.mem_append_right _ (List.mem_singleton_self _))
  | disconnect username reason => exact hmore.kill
  | disconnectOthers username except reason => exact hmore.kill
  | broadcastAll outbound =>
    exact hmore.trySend (List.mem_append_right _ (List.mem_singleton_self _))
  | disconnectAll reason =>
    have hclosing : Plain _ _ ⟨{ s with closing := some reason }, []⟩ := { hmore with }
    exact hclosing.kill

/-- **Every run's frames say what they may.** -/
theorem ofCommands : Plain (commands.filterMap Command.joins) (commands.filterMap Command.outbound)
    ⟨Roster.run w commands, []⟩ := by
  induction commands using List.reverseRecOn with
  | nil => exact new
  | append_singleton commands command ih =>
    have hsingle {α : Type} (f : Command → Option α) : [command].filterMap f = (f command).toList := by
      cases hf : f command <;> simp [hf]
    rw [List.filterMap_append, List.filterMap_append, hsingle, hsingle, Roster.run,
      List.foldl_concat]
    exact ih.handle

end Plain

/-- **Presence updates are complete and leak no addresses.** After any commands, in any world:
a session that may not see addresses was sent no change with one, except in a frame that a command
had it handed; whoever left was announced as offline once to everybody who was there then and
still is, and to nobody more than once, with no online announcement after it; nobody who was found
to be gone is in the roster. And the loop of announcements ends. -/
theorem updates_complete (w : World) (commands : List Command)
    (hfresh : ((commands.filterMap Command.joins).map Joined.session).Nodup) :
    let s := Roster.run w commands
    (∀ a ∈ s.log, ∀ outbound ∈ a.frame, outbound.packetType = .presenceChange →
      ∀ j ∈ commands.filterMap Command.joins, j.session = a.recipient → j.seesAddresses = false →
        (∃ change, outbound = changeFrame change ∧ change.entry.address = "") ∨
          outbound ∈ commands.filterMap Command.outbound) ∧
    (∀ j ∈ commands.filterMap Command.joins, j.session ∉ s.ids →
      ∃ d ∈ s.departed, d.session = j.session) ∧
    (∀ d ∈ s.departed, d.session ∉ s.ids ∧ ∀ id ∈ d.present, id ∈ s.ids →
      ∃ outbound queue, queue ≠ .closed ∧ .change id d.session false outbound queue ∈ s.log ∧
        Announces (commands.filterMap Command.joins) id d.session false outbound ∧
          s.log.countP (Attempt.announcesTo id d.session false) = 1) ∧
    (∀ id subject, s.log.countP (Attempt.announcesTo id subject false) ≤ 1) ∧
    (s.log.Pairwise fun a b =>
      ∀ subject, a.announces subject false = true → b.announces subject true = false) ∧
    (∀ a ∈ s.log, a.foundClosed = true → a.recipient ∉ s.ids) ∧
    ∀ c : Cascade, (c.run w).pending = [] := by
  have htold : Told _ [] ⟨Roster.run w commands, []⟩ := Told.ofCommands hfresh
  have hplain : Plain _ _ ⟨Roster.run w commands, []⟩ := Plain.ofCommands
  have hclosed : ∀ a ∈ (Roster.run w commands).log, a.foundClosed = true →
      a.recipient ∉ (Roster.run w commands).ids := fun a ha hclosed hin =>
    List.not_mem_nil ((htold.closed a ha hclosed).2 hin)
  refine ⟨?_, ?_, ?_, htold.atMost, htold.ordered, hclosed, fun _ => Cascade.pending_run⟩
  · intro a ha outbound hframe _ j hj hrecipient hsees
    cases a with
    | change recipient subject online frame queue =>
      obtain rfl := Option.some.inj hframe
      obtain ⟨change, hchange, -, -, j', hj', hrecipient', hredacted⟩ :=
        hplain.changes _ _ _ _ _ ha
      -- a session joins once, so it may see what it could see then
      obtain rfl : j' = j := List.inj_on_of_nodup_map hfresh hj' hj
        (hrecipient'.trans hrecipient.symm)
      exact .inl ⟨change, hchange, hredacted hsees⟩
    | forward recipient frame queue =>
      obtain rfl := Option.some.inj hframe
      exact .inr (hplain.forwards _ _ _ ha)
    | kill => cases hframe
  · exact fun j hj hout => htold.left _ (List.mem_map_of_mem hj) hout
  · intro d hd
    refine ⟨(htold.gone d hd).2.1, fun id hid hin => ?_⟩
    have hcount := htold.told d hd (fun p hp => absurd hp List.not_mem_nil) id hid hin
    obtain ⟨a, ha, htells⟩ := List.countP_pos_iff.mp (Nat.lt_of_lt_of_eq Nat.one_pos hcount.symm)
    rw [Attempt.announcesTo, Bool.and_eq_true, beq_iff_eq] at htells
    obtain ⟨rfl, htells⟩ := htells
    cases a with
    | change recipient subject online outbound queue =>
      rw [Attempt.announces, Bool.and_eq_true, beq_iff_eq, beq_iff_eq] at htells
      obtain ⟨rfl, rfl⟩ := htells
      have hopen : queue ≠ .closed := fun he => hclosed _ ha (beq_iff_eq.mpr he) hin
      exact ⟨outbound, queue, hopen, ha, hplain.changes _ _ _ _ _ ha, hcount⟩
    | forward => cases htells
    | kill => cases htells

/-- Three sessions join, the queue of the third is closed, and the first leaves: what the second
hears of the third. -/
theorem updates_complete_ghost :
    let ghost : SessionId := Vector.replicate 16 3
    let w : World := ⟨fun _ entries => entries, fun _ _ => .refl _,
      fun _ id => if id = ghost then .closed else .room, fun _ _ => true, fun _ => 0, fun _ => 0⟩
    (Roster.run w [.join (Vector.replicate 16 1) "admin" 3 "10.0.0.1:1" true,
      .join (Vector.replicate 16 2) "user" 1 "10.0.0.2:2" false,
      .join ghost "ghost" 1 "10.0.0.3:3" false, .leave (Vector.replicate 16 1)]).log.countP
        (Attempt.announcesTo (Vector.replicate 16 2) ghost false) = 1 := by
  intro ghost w
  have h := updates_complete w [.join (Vector.replicate 16 1) "admin" 3 "10.0.0.1:1" true,
      .join (Vector.replicate 16 2) "user" 1 "10.0.0.2:2" false,
      .join ghost "ghost" 1 "10.0.0.3:3" false, .leave (Vector.replicate 16 1)] (by decide +kernel)
  obtain ⟨-, -, -, -, -, hcount⟩ := (h.2.2.1 ⟨ghost, [Vector.replicate 16 2]⟩ (by decide +kernel)).2
    (Vector.replicate 16 2) (by decide +kernel) (by decide +kernel)
  exact hcount

end Presence

end KdxHotline
