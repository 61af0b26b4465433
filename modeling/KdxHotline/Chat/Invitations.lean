import KdxHotline.Chat.Directory

/-!
# Private rooms admit only invitees

A join looks an invite list up in one step, and the room's actor lets the member in at
a later one; in between the room may be evicted, and another of its name be created
with another list. What saves it is that a list is never taken back
(`KdxHotline.Chat.RoomManager.Admits`), that a join knocks at the very actor whose list
it saw, and that an actor the directory has dropped lets nobody in. So whoever has
knocked at an actor is on its list for as long as there is one
(`KdxHotline.Chat.RoomManager.InviteOnly`).

Whether a room is private goes by its name, as long as `joinPrivate` is only asked for
names under the private prefix. A room that was public is therefore never followed by a
private one.
-/

namespace KdxHotline

namespace Chat

open Foundations Auth

/-- A name under the private prefix. -/
def Reserved (room : String) : Prop := privateRoomPrefix.toList.isPrefixOf room.toList = true

instance decidableReserved (room : String) : Decidable (Reserved room) :=
  inferInstanceAs (Decidable (_ = true))

/-! ### Who may join which room -/

namespace RoomManager

variable {s s' t : RoomManager} {tx : ℕ} {room username : String} {m : Member}

/-- The actor was spawned, and if the directory has a private room for it, the username
is on its invite list. -/
def Welcome (s : RoomManager) (tx : ℕ) (username : String) : Prop :=
  tx < s.actors.length ∧ ∀ {room e}, s.rooms room = some e → e.tx = tx → e.isPrivate = true →
    username ∈ e.invited

/-- What always holds of the invite lists. -/
structure InviteOnly (s : RoomManager) : Prop where
  byName : ∀ {room e}, s.rooms room = some e → (e.isPrivate = true ↔ Reserved room)
  knocked : ∀ {tx : ℕ} {a : RoomActor}, s.actors[tx]? = some a → ∀ m ∈ a.state.members,
    .join m ∈ a.inbox
  welcome : ∀ {tx : ℕ} {a : RoomActor}, s.actors[tx]? = some a → ∀ {m}, .join m ∈ a.inbox →
    s.Welcome tx m.username

/-- What a step may do to the invite lists: a room of an actor that was there already is
the same room as before, with the same names on its list at least. Nobody is let in by a
step that changes the directory. -/
structure Admits (s s' : RoomManager) : Prop where
  actors : s.actors.length ≤ s'.actors.length
  rooms : ∀ {room e'}, s'.rooms room = some e' → e'.tx < s.actors.length →
    ∃ e, s.rooms room = some e ∧ e.tx = e'.tx ∧ e.isPrivate = e'.isPrivate ∧
      ∀ name ∈ e.invited, name ∈ e'.invited
  joins : s'.rooms = s.rooms ∨ ∀ {tx : ℕ} {a' : RoomActor}, s'.actors[tx]? = some a' →
    ∀ m ∈ a'.state.members, ∃ a, s.actors[tx]? = some a ∧ m ∈ a.state.members

/-- A change to the actors alone. -/
theorem Admits.of_actors (hrooms : s'.rooms = s.rooms)
    (hlength : s'.actors.length = s.actors.length) : Admits s s' where
  actors := hlength.ge
  rooms he' _ := ⟨_, hrooms ▸ he', rfl, rfl, fun _ => id⟩
  joins := .inl hrooms

theorem Admits.refl (s : RoomManager) : Admits s s := .of_actors rfl rfl

/-- **An invitation is not taken back.** -/
theorem Welcome.admits (h : s.Welcome tx username) (hadmits : Admits s s') :
    s'.Welcome tx username := by
  refine ⟨h.1.trans_le hadmits.actors, fun he' htx hprivate => ?_⟩
  obtain ⟨e, he, htx', hprivate', hsub⟩ := hadmits.rooms he' (htx ▸ h.1)
  exact hsub _ (h.2 he (htx'.trans htx) (hprivate'.trans hprivate))

theorem length_modify (f : RoomActor → RoomActor) :
    (s.actors.modify tx f).length = s.actors.length := List.length_modify _ _ _

/-! ### What the steps keep -/

/-- No private room at the start. -/
theorem inviteOnly_new : InviteOnly new where
  byName {room e} he := by
    change Function.update (fun _ => none) defaultRoom _ room = some e at he
    rw [Function.update_apply] at he
    split at he
    case isTrue hroom =>
      obtain rfl := Option.some.inj he
      subst hroom
      exact ⟨nofun, fun h => absurd h (by decide)⟩
    case isFalse => cases he
  knocked {tx a} ha m hm := by
    rw [List.mem_singleton.mp (List.mem_of_getElem? ha)] at hm
    cases hm
  welcome {tx a} ha m hm := by
    rw [List.mem_singleton.mp (List.mem_of_getElem? ha)] at hm
    cases hm

/-- **An actor that is sent a command, or handles one, keeps the lists**: nobody knocks
but who is welcome, and nobody is in who has not knocked. -/
theorem InviteOnly.modify (h : s.InviteOnly) {f : RoomActor → RoomActor}
    (hmembers : ∀ a : RoomActor, s.actors[tx]? = some a →
      (∀ m ∈ a.state.members, .join m ∈ a.inbox) → ∀ m ∈ (f a).state.members, .join m ∈ (f a).inbox)
    (hinbox : ∀ a : RoomActor, s.actors[tx]? = some a → ∀ m, .join m ∈ (f a).inbox →
      .join m ∈ a.inbox ∨ s.Welcome tx m.username) :
    InviteOnly { s with actors := s.actors.modify tx f } ∧
      Admits s { s with actors := s.actors.modify tx f } := by
  have hadmits : Admits s { s with actors := s.actors.modify tx f } :=
    .of_actors rfl (length_modify f)
  have hold : ∀ {i : ℕ} {a : RoomActor}, (s.actors.modify tx f)[i]? = some a →
      s.actors[i]? = some a ∨ ∃ b, s.actors[i]? = some b ∧ i = tx ∧ a = f b := by
    intro i a ha
    by_cases hi : tx = i
    · subst hi
      rw [List.getElem?_modify_eq] at ha
      obtain ⟨b, hb, rfl⟩ := Option.map_eq_some_iff.mp ha
      exact .inr ⟨b, hb, rfl, rfl⟩
    · rw [List.getElem?_modify_ne _ _ hi] at ha
      exact .inl ha
  refine ⟨⟨h.byName, fun ha m hm => ?_, fun ha m hm => Welcome.admits ?_ hadmits⟩, hadmits⟩
  · rcases hold ha with ha | ⟨b, hb, rfl, rfl⟩
    · exact h.knocked ha m hm
    · exact hmembers b hb (h.knocked hb) m hm
  · rcases hold ha with ha | ⟨b, hb, rfl, rfl⟩
    · exact h.welcome ha hm
    · rcases hinbox b hb m hm with hm | hwelcome
      · exact h.welcome hb hm
      · exact hwelcome

/-- A command that is sent keeps the lists, if it lets nobody knock who is not
welcome. -/
theorem InviteOnly.send (h : s.InviteOnly) (tx : ℕ) (c : RoomCommand)
    (hjoin : ∀ m, c = .join m → s.Welcome tx m.username) :
    (s.send tx c).2.InviteOnly ∧ Admits s (s.send tx c).2 := by
  refine h.modify (fun a _ hold m hm => List.mem_append_left _ (hold m hm)) fun a _ m hm => ?_
  rcases List.mem_append.mp hm with hm | hm
  · exact .inl hm
  · exact .inr (hjoin m (List.mem_singleton.mp hm).symm)

/-- What a room does admits no one that was not welcome. -/
theorem InviteOnly.receive (h : s.InviteOnly) (tx : ℕ) :
    (s.receive tx).InviteOnly ∧ Admits s (s.receive tx) := by
  refine h.modify (fun a _ hold m hm => ?_) fun a _ m hm => .inl (Mailbox.inbox_receive ▸ hm)
  rw [RoomActor.receive, Mailbox.inbox_receive]
  rw [RoomActor.receive] at hm
  cases hnext : a.next with
  | none =>
    rw [Mailbox.receive_of_none hnext] at hm
    exact hold m hm
  | some c =>
    rw [Mailbox.state_receive hnext] at hm
    rcases RoomState.handle_cases s.gone a.state c with
      ⟨m', hfree, rfl, -, -, hthins⟩ | ⟨rfl, hclose⟩ | ⟨hthins, -⟩
    · rcases List.mem_append.mp (hthins.subset m hm) with hm | hm
      · exact hold m hm
      · rw [List.mem_singleton.mp hm]
        exact List.mem_of_getElem? hnext
    · rw [hclose] at hm
      exact hold m hm
    · exact hold m (hthins.subset m hm)

theorem InviteOnly.disconnect (h : s.InviteOnly) :
    (s.disconnect tx).InviteOnly ∧ Admits s (s.disconnect tx) :=
  ⟨⟨h.byName, h.knocked, h.welcome⟩, .of_actors rfl rfl⟩

/-- **A change of the directory keeps the lists**, if no room is taken over by another
and no name comes off a list. -/
theorem InviteOnly.of_rooms (h : s.InviteOnly) {rooms : String → Option RoomEntry}
    (hrooms : ∀ {room e'}, rooms room = some e' → ∃ e, s.rooms room = some e ∧ e.tx = e'.tx ∧
      e.isPrivate = e'.isPrivate ∧ ∀ name ∈ e.invited, name ∈ e'.invited) :
    InviteOnly { s with rooms := rooms } ∧ Admits s { s with rooms := rooms } := by
  have hadmits : Admits s { s with rooms := rooms } :=
    ⟨le_rfl, fun he' _ => hrooms he', .inr fun ha m hm => ⟨_, ha, hm⟩⟩
  refine ⟨⟨fun he' => ?_, h.knocked, fun ha m hm => (h.welcome ha hm).admits hadmits⟩, hadmits⟩
  obtain ⟨e, he, -, hprivate, -⟩ := hrooms he'
  rw [← hprivate]
  exact h.byName he

theorem mem_addInvitee {e : RoomEntry} {invitee : Option String} {name : String}
    (h : name ∈ e.invited) : name ∈ (addInvitee e invitee).invited := by
  cases invitee with
  | none => exact h
  | some _ => exact List.mem_cons_of_mem _ h

theorem isPrivate_addInvitee (e : RoomEntry) (invitee : Option String) :
    (addInvitee e invitee).isPrivate = e.isPrivate := by
  cases invitee <;> rfl

/-- To note an invitee takes no name off a list. -/
theorem InviteOnly.addInvitee (h : s.InviteOnly) {e : RoomEntry} (he : s.rooms room = some e)
    (invitee : Option String) :
    InviteOnly { s with
        rooms := Function.update s.rooms room (some (RoomManager.addInvitee e invitee)) } ∧
      Admits s { s with
        rooms := Function.update s.rooms room (some (RoomManager.addInvitee e invitee)) } := by
  refine h.of_rooms fun {name e'} he' => ?_
  rw [Function.update_apply] at he'
  split at he'
  case isTrue hname =>
    obtain rfl := Option.some.inj he'
    exact ⟨e, hname ▸ he, (tx_addInvitee e invitee).symm, (isPrivate_addInvitee e invitee).symm,
      fun _ => mem_addInvitee⟩
  case isFalse => exact ⟨e', he', rfl, rfl, fun _ => id⟩

theorem InviteOnly.invite (h : s.InviteOnly) (room username : String) :
    (s.invite room username).2.InviteOnly ∧ Admits s (s.invite room username).2 := by
  unfold RoomManager.invite
  split
  case h_1 e he =>
    split
    · exact h.addInvitee he (some username)
    · exact ⟨h, .refl s⟩
  case h_2 => exact ⟨h, .refl s⟩

/-- A forgotten room admits no one. -/
theorem InviteOnly.forget (h : s.InviteOnly) (room : String) (tx : ℕ) :
    (s.forget room tx).InviteOnly ∧ Admits s (s.forget room tx) := by
  unfold RoomManager.forget
  split
  · refine h.of_rooms fun {name e'} he' => ?_
    rw [Function.update_apply] at he'
    split at he'
    · cases he'
    · exact ⟨e', he', rfl, rfl, fun _ => id⟩
  · exact ⟨h, .refl s⟩

/-- **Looking up a name, or spawning a room for it, keeps the lists**, if a room is only
spawned private under a name that says so. -/
theorem InviteOnly.entry {isPrivate : Bool} {invitee : Option String} (h : s.InviteOnly)
    (hname : isPrivate = true ↔ Reserved room) :
    (s.entry room isPrivate invitee).2.InviteOnly ∧ Admits s (s.entry room isPrivate invitee).2 := by
  unfold RoomManager.entry
  split
  case h_1 e he => exact h.addInvitee he invitee
  case h_2 hfree =>
    have hadmits : Admits s ⟨Function.update s.rooms room
        (some (RoomManager.addInvitee ⟨s.actors.length, isPrivate, []⟩ invitee)),
          s.actors ++ [RoomActor.spawn room], s.gone⟩ := by
      refine ⟨by simp, fun {name e'} he' hlt => ?_, .inr fun {i a'} ha' m hm => ?_⟩
      · change Function.update s.rooms room _ name = some e' at he'
        rw [Function.update_apply] at he'
        split at he'
        · obtain rfl := Option.some.inj he'
          rw [tx_addInvitee] at hlt
          exact absurd hlt (lt_irrefl _)
        · exact ⟨e', he', rfl, rfl, fun _ => id⟩
      · rcases Mailbox.getElem?_concat ha' with hold | ⟨-, rfl⟩
        · exact ⟨a', hold, hm⟩
        · cases hm
    refine ⟨⟨fun {name e'} he' => ?_, fun {i a} ha m hm => ?_, fun {i a} ha m hm => ?_⟩, hadmits⟩
    · change Function.update s.rooms room _ name = some e' at he'
      rw [Function.update_apply] at he'
      split at he'
      · rename_i hroom
        obtain rfl := Option.some.inj he'
        rw [isPrivate_addInvitee, hroom]
        exact hname
      · exact h.byName he'
    · rcases Mailbox.getElem?_concat ha with hold | ⟨-, rfl⟩
      · exact h.knocked hold m hm
      · cases hm
    · rcases Mailbox.getElem?_concat ha with hold | ⟨-, rfl⟩
      · exact (h.welcome hold hm).admits hadmits
      · cases hm

/-! ### Who is welcome -/

/-- No two names lead to one actor. -/
theorem Sound.eq_of_tx (h : s.Sound) {room' : String} {e e' : RoomEntry}
    (he : s.rooms room = some e) (he' : s.rooms room' = some e') (htx : e'.tx = e.tx) :
    room' = room := by
  have hlisted : s.txOf room = some e.tx := by
    rw [txOf, he]
    rfl
  have hlisted' : s.txOf room' = some e.tx := by
    rw [txOf, he', ← htx]
    rfl
  obtain ⟨a, ha, hname⟩ := h.named hlisted
  obtain ⟨a', ha', hname'⟩ := h.named hlisted'
  obtain rfl : a = a' := Option.some.inj (ha.symm.trans ha')
  exact hname'.symm.trans hname

/-- The one room of an actor says who is welcome there. -/
theorem Sound.welcome (h : s.Sound) {e : RoomEntry} (he : s.rooms room = some e)
    (hlist : e.isPrivate = true → username ∈ e.invited) : s.Welcome e.tx username := by
  have hnamed : s.Named e.tx room := h.named (by rw [txOf, he]; rfl)
  obtain ⟨a, ha, -⟩ := hnamed
  refine ⟨(List.getElem?_eq_some_iff.mp ha).1, fun {room' e'} he' htx hprivate => ?_⟩
  obtain rfl := h.eq_of_tx he he' htx
  obtain rfl : e = e' := Option.some.inj (he.symm.trans he')
  exact hlist hprivate

/-- Whoever the lookup lets through is welcome. -/
theorem Sound.welcome_existing (h : s.Sound) (hfound : s.existing room username = some (tx, true)) :
    s.Welcome tx username := by
  obtain ⟨e, he, hpair⟩ := Option.map_eq_some_iff.mp hfound
  obtain ⟨rfl, hallowed⟩ := Prod.mk.inj hpair
  refine h.welcome he fun hprivate => ?_
  rw [hprivate, Bool.not_true, Bool.false_or] at hallowed
  exact List.contains_iff_mem.mp hallowed

/-- The room that an access comes to is the one of the actor it returns. -/
theorem rooms_entry (s : RoomManager) (room : String) (isPrivate : Bool) (invitee : Option String) :
    ∃ e, (s.entry room isPrivate invitee).2.rooms room = some (addInvitee e invitee) ∧
      (addInvitee e invitee).tx = (s.entry room isPrivate invitee).1 := by
  unfold RoomManager.entry
  split
  case h_1 e he => exact ⟨e, Function.update_self .., tx_addInvitee e invitee⟩
  case h_2 => exact ⟨_, Function.update_self .., tx_addInvitee _ invitee⟩

/-- **Who asks for a private room is on its list.** -/
theorem Sound.welcome_entry (h : s.Sound) {isPrivate : Bool} :
    (s.entry room isPrivate (some username)).2.Welcome
      (s.entry room isPrivate (some username)).1 username := by
  obtain ⟨e, he, htx⟩ := rooms_entry s room isPrivate (some username)
  rw [← htx]
  exact h.entry.1.welcome he fun _ => List.mem_cons_self

/-- **Anyone is welcome in a room whose name is not under the private prefix.** -/
theorem Sound.welcome_public (h : s.Sound) (hlists : s.InviteOnly) (hname : ¬Reserved room) :
    (s.entry room false none).2.Welcome (s.entry room false none).1 username := by
  obtain ⟨e, he, htx⟩ := rooms_entry s room false none
  rw [← htx]
  refine h.entry.1.welcome he fun hprivate => absurd ?_ hname
  exact ((hlists.entry (iff_of_false Bool.false_ne_true hname)).1.byName he).mp hprivate

end RoomManager

/-! ### The calls keep the lists -/

open RoomManager

section Calls

variable {α : Type} {tx : ℕ} {room username : String} {member : Member} {label : Label}
  {E : JoinError → RoomManager × Option Joined → Prop}

/-- What the tasks keep to, in rooms that are sound: no invitation is taken back, and
nobody knocks at a private room who is not invited. -/
def invitations : Discipline RoomManager (Option Joined) Label where
  inv s _ := s.InviteOnly
  guar s t := s.1.Admits t.1
  allows label s _ := allowed label s.1 = true ∧ s.1.Sound

theorem stable_welcome : invitations.Stable (On fun s => s.Welcome tx username) :=
  fun _ _ _ _ _ _ _ hadmits h => h.admits hadmits

theorem stable_any : invitations.Stable (On fun _ => True) := fun _ _ _ _ _ _ _ _ _ => trivial

/-- One step on the shared state. -/
theorem invites_access {P : RoomManager → Prop} {f : RoomManager → α × RoomManager}
    {Q : α → RoomManager → Prop} (hQ : ∀ a, invitations.Stable (On (Q a)))
    (hstep : ∀ s : RoomManager, s.Sound → s.InviteOnly → allowed label s = true → P s →
      ((f s).2.InviteOnly ∧ s.Admits (f s).2) ∧ Q (f s).1 (f s).2) :
    invitations.Meets (On P) (access label f) (fun a => On (Q a)) E := by
  refine Discipline.meets_step (fun s own rest hinv hallows hP => ?_) hQ
  obtain ⟨⟨hlists, hadmits⟩, hpost⟩ := hstep s hallows.2 hinv hallows.1 hP
  exact ⟨hlists, hadmits, hpost⟩

/-- A step after which nothing need be known. -/
theorem invites_plain {P : RoomManager → Prop} {f : RoomManager → α × RoomManager}
    (hstep : ∀ s : RoomManager, s.Sound → s.InviteOnly → allowed label s = true → P s →
      (f s).2.InviteOnly ∧ s.Admits (f s).2) :
    invitations.Meets (On P) (access label f) (fun _ => On fun _ => True) E :=
  invites_access (Q := fun _ _ => True) (fun _ => stable_any) fun s hs hlists hallowed hP =>
    ⟨hstep s hs hlists hallowed hP, trivial⟩

/-- A step that only looks. -/
theorem invites_look {P : RoomManager → Prop} {f : RoomManager → α} :
    invitations.Meets (On P) (access label fun s => (f s, s)) (fun _ => On fun _ => True) E :=
  invites_plain fun s _ hlists _ _ => ⟨hlists, .refl s⟩

/-- Joining a room in which one is welcome. -/
theorem doJoin_invites :
    invitations.Meets (On fun s => s.Welcome tx member.username) (doJoin tx member)
      (fun _ => On fun _ => True) fun _ => On fun _ => True := by
  refine (invites_plain fun s _ hlists _ hwelcome => ?_).bind fun place => ?_
  · refine hlists.send tx (.join member) fun m hm => ?_
    rw [← RoomCommand.join.inj hm]
    exact hwelcome
  refine invites_look.bind fun r => ?_
  split
  · exact Discipline.meets_pure fun _ _ => trivial
  · exact Discipline.meets_fail fun _ _ => trivial
  · exact Discipline.meets_fail fun _ _ => trivial

theorem forget_invites :
    invitations.Meets (On fun _ => True) (forget room tx) (fun _ => On fun _ => True) E :=
  invites_plain fun _ _ hlists _ _ => hlists.forget room tx

/-- **The loop:** if each attempt knocks where the member is welcome, all do. -/
theorem attempts_invites {find : ℕ → Call ℕ}
    (hfind : ∀ n, invitations.Meets (On fun _ => True) (find n)
      (fun tx => On fun s => s.Welcome tx member.username) fun _ => On fun _ => True) :
    ∀ n, invitations.Meets (On fun _ => True) (attempts find room member n)
      (fun _ => On fun _ => True) fun _ => On fun _ => True
  | 0 => Discipline.meets_fail fun _ _ => trivial
  | n + 1 => by
    refine (hfind n).bind fun tx => doJoin_invites.attempt.bind fun r => ?_
    cases r with
    | ok _ => exact Discipline.meets_pure fun _ _ => trivial
    | error e =>
      dsimp only
      split
      · exact forget_invites.bind fun _ => attempts_invites hfind n
      · rename_i h
        exact absurd h nofun
      · exact Discipline.meets_fail fun _ _ => trivial

/-- A room is only created private under a name that says so, and whoever is noted is
welcome there. -/
theorem create_invites {count : ℕ} {isPrivate : Bool} {invitee : Option String}
    (hname : isPrivate = true ↔ Reserved room)
    (hwelcome : ∀ s : RoomManager, s.Sound → s.InviteOnly →
      (s.entry room isPrivate invitee).2.Welcome (s.entry room isPrivate invitee).1 username) :
    invitations.Meets (On fun _ => True) (create count room isPrivate invitee)
      (fun tx => On fun s => s.Welcome tx username) fun _ => On fun _ => True := by
  refine invites_look.bind fun present => ?_
  split
  · exact Discipline.meets_fail fun _ _ => trivial
  · refine invites_access (Q := fun tx s => s.Welcome tx username) (fun _ => stable_welcome) ?_
    exact fun s hs hlists _ _ => ⟨hlists.entry hname, hwelcome s hs hlists⟩

/-- A public room that is found welcomes everyone. -/
theorem findPublic_invites {count : ℕ} :
    invitations.Meets (On fun _ => True) (findPublic count room member)
      (fun tx => On fun s => s.Welcome tx member.username) fun _ => On fun _ => True := by
  refine (invites_access (Q := fun found s => ∀ tx, found = some (tx, true) →
    s.Welcome tx member.username) ?_ fun s hs hlists _ _ => ?_).bind fun found => ?_
  · exact fun _ _ _ _ _ _ _ _ hadmits h tx hfound => (h tx hfound).admits hadmits
  · exact ⟨⟨hlists, .refl s⟩, fun tx hfound => hs.welcome_existing hfound⟩
  split
  · exact Discipline.meets_fail fun _ _ => trivial
  · exact Discipline.meets_pure fun t ht => ht _ rfl
  · split
    · exact Discipline.meets_fail fun _ _ => trivial
    · rename_i hname
      split
      · exact Discipline.meets_fail fun _ _ => trivial
      · refine (create_invites (iff_of_false Bool.false_ne_true hname) fun s hs hlists => ?_).mono
          (fun _ _ => trivial) (fun _ _ h => h) fun _ _ h => h
        exact hs.welcome_public hlists hname

theorem ofExcept_invites {x : Except JoinError Unit} :
    invitations.Meets (On fun _ => True) (.ofExcept x) (fun _ => On fun _ => True)
      fun _ => On fun _ => True := by
  cases x with
  | ok _ => exact Discipline.meets_pure fun _ h => h
  | error _ => exact Discipline.meets_fail fun _ _ => trivial

/-- Leaving admits no one. -/
theorem leave_invites {sessionId : ℕ} :
    invitations.Meets (On fun _ => True) (leave room sessionId) (fun _ => On fun _ => True)
      fun _ => On fun _ => True := by
  refine invites_look.bind fun found => ?_
  cases found with
  | none => exact Discipline.meets_pure fun _ _ => trivial
  | some tx =>
    refine (invites_plain fun _ _ hlists _ _ => hlists.send tx (.leave sessionId) nofun).bind
      fun _ => ?_
    by_cases hroom : room = defaultRoom
    · rw [if_pos hroom]
      exact Discipline.meets_pure fun _ _ => trivial
    rw [if_neg hroom]
    refine (invites_plain fun _ _ hlists _ _ => hlists.send tx .closeIfEmpty nofun).bind
      fun place => ?_
    refine invites_look.bind fun r => ?_
    cases r with
    | none => exact Discipline.meets_pure fun _ _ => trivial
    | some reply =>
      cases reply with
      | evicted empty =>
        cases empty with
        | true => exact forget_invites
        | false => exact Discipline.meets_pure fun _ _ => trivial
      | _ => exact Discipline.meets_pure fun _ _ => trivial

theorem returnJoined_invites {j : Joined} :
    invitations.Meets (On fun _ => True) (returnJoined j) (fun _ => On fun _ => True)
      fun _ => On fun _ => True :=
  Discipline.meets_step (fun s _ _ hlists _ _ => ⟨hlists, .refl s, trivial⟩) fun _ => stable_any

/-- What is asked of the callers: a private room has a name under the private prefix. -/
def Request.NamesPrivate : Request → Prop
  | .joinPrivate _ room _ => Reserved room
  | _ => True

/-- **Everything that can happen keeps the lists.** -/
theorem serve_invites {request : Request} (h : request.NamesPrivate) :
    invitations.Meets (On fun _ => True) (serve request) (fun _ => On fun _ => True)
      fun _ => On fun _ => True := by
  cases request with
  | join counts room member =>
    refine Discipline.Meets.bind ?_ fun _ => returnJoined_invites
    exact ofExcept_invites.bind fun _ => attempts_invites (fun _ => findPublic_invites) joinAttempts
  | joinPrivate counts room member =>
    refine Discipline.Meets.bind ?_ fun _ => returnJoined_invites
    refine ofExcept_invites.bind fun _ => attempts_invites (fun _ => ?_) joinAttempts
    exact create_invites ⟨fun _ => h, fun _ => rfl⟩ fun s hs _ => hs.welcome_entry
  | invite room username =>
    refine (invites_plain fun _ _ hlists _ _ => hlists.invite room username).bind fun _ => ?_
    exact Discipline.meets_pure fun _ _ => trivial
  | leave room sessionId => exact leave_invites
  | receive tx =>
    rw [serve]
    exact invites_plain fun _ _ hlists _ _ => hlists.receive tx
  | post tx c =>
    refine (invites_plain fun _ _ hlists hallowed _ => hlists.send tx c fun m hm => ?_).bind
      fun _ => Discipline.meets_pure fun _ _ => trivial
    -- members knock at no other room through their own
    subst hm
    cases hallowed
  | disconnect tx =>
    rw [serve]
    exact invites_plain fun _ _ hlists _ _ => hlists.disconnect

end Calls

/-! ### A public join -/

section PublicJoin

variable {α : Type} {label : Label} {room : String} {member : Member}

/-- Whatever actor is spawned by the step, its room has no name under the private
prefix. -/
def SpawnsPublic (s t : RoomManager × Option Joined) : Prop :=
  ∀ (tx : ℕ) (a : RoomActor), s.1.actors.length ≤ tx → t.1.actors[tx]? = some a →
    ¬Reserved a.state.name

/-- A step that spawns nothing. -/
theorem spawnsPublic_access {f : RoomManager → α × RoomManager}
    (hf : ∀ s, (f s).2.actors.length = s.actors.length) :
    Prog.Always SpawnsPublic (access label f) := by
  refine ⟨fun s tx a htx ha => ?_, fun _ => trivial⟩
  have hlt := (List.getElem?_eq_some_iff.mp ha).1
  rw [hf] at hlt
  omega

theorem spawnsPublic_doJoin (tx : ℕ) : Prog.Always SpawnsPublic (doJoin tx member) := by
  refine (spawnsPublic_access fun s => length_modify _).bind fun place => ?_
  refine (spawnsPublic_access fun _ => rfl).bind fun r => ?_
  split <;> trivial

theorem spawnsPublic_forget (tx : ℕ) : Prog.Always SpawnsPublic (forget room tx) := by
  refine spawnsPublic_access fun s => ?_
  unfold RoomManager.forget
  split <;> rfl

/-- A public name opens a public room. -/
theorem spawnsPublic_create {count : ℕ} (hname : ¬Reserved room) :
    Prog.Always SpawnsPublic (create count room false none) := by
  refine (spawnsPublic_access fun _ => rfl).bind fun present => ?_
  split
  · trivial
  · refine ⟨fun s tx a htx ha => ?_, fun _ => trivial⟩
    simp only [RoomManager.entry] at ha
    split at ha
    · have hlt := (List.getElem?_eq_some_iff.mp ha).1
      exact absurd hlt (not_lt.mpr htx)
    · rcases Mailbox.getElem?_concat ha with hold | ⟨-, rfl⟩
      · have hlt := (List.getElem?_eq_some_iff.mp hold).1
        exact absurd hlt (not_lt.mpr htx)
      · exact hname

/-- **A public join creates no room under the private prefix.** -/
theorem spawnsPublic_join {counts : ℕ → ℕ} :
    Prog.Always SpawnsPublic (serve (.join counts room member)) := by
  have hfind : ∀ n, Prog.Always SpawnsPublic (findPublic (counts n) room member) := by
    intro n
    refine (spawnsPublic_access fun _ => rfl).bind fun found => ?_
    split
    · trivial
    · trivial
    · split
      · trivial
      · rename_i hname
        split
        · trivial
        · exact spawnsPublic_create hname
  have hloop : ∀ n, Prog.Always SpawnsPublic
      (attempts (fun n => findPublic (counts n) room member) room member n) := by
    intro n
    induction n with
    | zero => trivial
    | succ n ih =>
      refine (hfind n).bind fun tx => (spawnsPublic_doJoin tx).attempt.bind fun r => ?_
      split
      · exact (spawnsPublic_forget tx).bind fun _ => ih
      · trivial
      · trivial
  refine ((Prog.always_ofExcept _).bind fun _ => hloop joinAttempts).bind fun tx => ?_
  refine ⟨fun s tx a htx ha => ?_, fun _ => trivial⟩
  exact absurd (List.getElem?_eq_some_iff.mp ha).1 (not_lt.mpr htx)

end PublicJoin

/-! ### Whatever the order of steps -/

section Runs

variable {c c' : ChatServer} {turns turns' : List (Turn Request)} {turn : Turn Request}

theorem take_of_step (h : c.step turn = some c') : Tasks.take serve none c turn = some c' := by
  unfold ChatServer.step at h
  split at h
  · exact h
  · cases h

/-- The step that is next is one that need not wait, in rooms that are sound. -/
theorem invitations_allowed (hsound : c.shared.Sound) (h : c.step turn = some c') :
    invitations.Allowed c turn := by
  cases turn with
  | start request => trivial
  | step i =>
    intro own β label x next hi
    exact ⟨(step_guarded h).2 own β label x next hi, hsound⟩

/-- **The lists are kept in every run** in which private rooms have names that say
so. -/
theorem inviteOnly_of_reaches (h : ChatServer.Reaches turns c)
    (hnames : ∀ request ∈ Tasks.requests turns, request.NamesPrivate) : invitations.Holds c := by
  have hstart : invitations.Holds ChatServer.start :=
    ⟨inviteOnly_new, fun t ht => absurd ht List.not_mem_nil⟩
  refine h.history (P := fun turns c => (∀ request ∈ Tasks.requests turns, request.NamesPrivate) →
    invitations.Holds c) (fun _ => hstart) ?_ hnames
  intro turns c turn c' hreach ih hstep hnames
  rw [Tasks.requests_append] at hnames
  have hearlier : ∀ request ∈ Tasks.requests turns, request.NamesPrivate := fun request hmem =>
    hnames request (List.mem_append_left _ hmem)
  refine Discipline.holds_take (ih hearlier) (fun request he => ?_) (fun _ _ h => h)
    (invitations_allowed (sound_of_reaches hreach).1 hstep) (take_of_step hstep)
  refine (serve_invites (hnames request ?_)).mono (fun _ _ => trivial) (fun _ _ _ => trivial)
    fun _ _ _ => trivial
  rw [he]
  exact List.mem_append_right _ List.mem_cons_self

/-- What a step does to the lists, it may do. -/
theorem admits_step (hholds : invitations.Holds c) (hsound : c.shared.Sound)
    (h : c.step turn = some c') : c.shared.Admits c'.shared := by
  have htake := take_of_step h
  have hallowed := invitations_allowed hsound h
  cases turn with
  | start request =>
    obtain rfl := Option.some.inj htake
    exact .refl _
  | step i =>
    obtain ⟨own, β, label, x, next, hi, rfl⟩ := Tasks.take_step htake
    exact hholds.guar hi (hallowed own β label x next hi)

/-- Whoever is in a room is welcome there. -/
theorem welcome_of_mem {s : RoomManager} (hlists : s.InviteOnly) {tx : ℕ} {a : RoomActor} {m : Member}
    (ha : s.actors[tx]? = some a) (hm : m ∈ a.state.members) : s.Welcome tx m.username :=
  hlists.welcome ha (hlists.knocked ha m hm)

/-- A room that somebody is in is the one the directory has. -/
theorem exists_entry {s : RoomManager} (hsound : s.Sound) (hlists : s.InviteOnly) {tx : ℕ}
    {a : RoomActor} {m : Member} (ha : s.actors[tx]? = some a) (hm : m ∈ a.state.members) :
    ∃ e, s.rooms a.state.name = some e ∧ e.tx = tx ∧ (e.isPrivate = true → m.username ∈ e.invited) := by
  have hlisted := hsound.listed ha (hsound.open_of_mem ha (List.ne_nil_of_mem hm))
  obtain ⟨e, he, htx⟩ := Option.map_eq_some_iff.mp hlisted
  exact ⟨e, he, htx, fun hprivate => (welcome_of_mem hlists ha hm).2 he htx hprivate⟩

/-- **Private rooms admit only invitees**, whatever the order in which calls and rooms
take their steps, as long as `joinPrivate` is only asked for names under the private
prefix. Whoever is in a private room is on its invite list, and was when the room's
actor let them in. An actor's room stays as private as it was created, and loses
nobody off its list. What is private goes by the name, so no room replaces one that is
not as private as itself; and no public join creates a room under the private prefix. -/
theorem only_invitees (h : ChatServer.Reaches turns c)
    (hnames : ∀ request ∈ Tasks.requests turns, request.NamesPrivate) :
    (∀ {tx : ℕ} {a : RoomActor} {m : Member}, c.shared.actors[tx]? = some a → m ∈ a.state.members →
      ∃ e, c.shared.rooms a.state.name = some e ∧ e.tx = tx ∧
        (e.isPrivate = true → m.username ∈ e.invited)) ∧
    (∀ {turn : Turn Request} {c' : ChatServer} {tx : ℕ} {a' : RoomActor} {m : Member},
      c.step turn = some c' → c'.shared.actors[tx]? = some a' → m ∈ a'.state.members →
      (∀ a, c.shared.actors[tx]? = some a → m ∉ a.state.members) →
      ∃ e, c.shared.rooms a'.state.name = some e ∧ e.tx = tx ∧
        (e.isPrivate = true → m.username ∈ e.invited)) ∧
    (∀ {turn : Turn Request} {c' : ChatServer} {room : String} {e' : RoomEntry},
      c.step turn = some c' → c'.shared.rooms room = some e' → e'.tx < c.shared.actors.length →
      ∃ e, c.shared.rooms room = some e ∧ e.tx = e'.tx ∧ e.isPrivate = e'.isPrivate ∧
        ∀ name ∈ e.invited, name ∈ e'.invited) ∧
    (∀ {room : String} {e : RoomEntry}, c.shared.rooms room = some e →
      (e.isPrivate = true ↔ Reserved room)) ∧
    (∀ {turns' : List (Turn Request)} {c' : ChatServer} {room : String} {e e' : RoomEntry},
      (∀ request ∈ Tasks.requests turns', request.NamesPrivate) →
      Run (fun c turn c' => c.step turn = some c') c turns' c' →
      c.shared.rooms room = some e → c'.shared.rooms room = some e' →
      e'.isPrivate = e.isPrivate) ∧
    (∀ {i : ℕ} {counts : ℕ → ℕ} {room : String} {member : Member} {c' : ChatServer} {tx : ℕ}
      {a : RoomActor}, (Tasks.requests turns)[i]? = some (.join counts room member) →
      c.step (.step i) = some c' → c.shared.actors.length ≤ tx → c'.shared.actors[tx]? = some a →
      ¬Reserved a.state.name) := by
  have hsound := (sound_of_reaches h).1
  have hholds := inviteOnly_of_reaches h hnames
  have hlists : c.shared.InviteOnly := hholds.inv
  refine ⟨fun ha hm => exists_entry hsound hlists ha hm, fun {turn c' tx a' m} hstep ha' hm hnew => ?_,
    fun hstep he' hlt => ?_, fun he => hlists.byName he, fun {turns' c' room e e'} hnames' hrun he he' => ?_,
    fun {i counts room member c' tx a} hi hstep htx ha => ?_⟩
  · -- whoever is let in is let in by a step that leaves the directory alone
    have hadmits := admits_step hholds hsound hstep
    have hreach' : ChatServer.Reaches (turns ++ [turn]) c' := h.append (.cons hstep (.nil _))
    cases turn with
    | start request =>
      obtain rfl := Option.some.inj (take_of_step hstep)
      exact absurd hm (hnew a' ha')
    | step i =>
      -- a step starts no call, so the names asked for are those of before
      have hsame : Tasks.requests (turns ++ [.step i]) = Tasks.requests turns :=
        (Tasks.requests_append _ _).trans (List.append_nil _)
      have hlists' : c'.shared.InviteOnly := (inviteOnly_of_reaches hreach' (hsame ▸ hnames)).inv
      obtain ⟨e, he, htx, hlist⟩ := exists_entry (sound_of_reaches hreach').1 hlists' ha' hm
      rcases hadmits.joins with hrooms | hnobody
      · exact ⟨e, hrooms ▸ he, htx, hlist⟩
      · obtain ⟨a, ha, hm'⟩ := hnobody ha' m hm
        exact absurd hm' (hnew a ha)
  · exact (admits_step hholds hsound hstep).rooms he' hlt
  · have hnames'' : ∀ request ∈ Tasks.requests (turns ++ turns'), request.NamesPrivate := by
      intro request hmem
      rw [Tasks.requests_append] at hmem
      exact (List.mem_append.mp hmem).elim (hnames request) (hnames' request)
    have hlists' : c'.shared.InviteOnly := (inviteOnly_of_reaches (h.append hrun) hnames'').inv
    -- both are as private as the name says
    rw [Bool.eq_iff_iff, hlists'.byName he', hlists.byName he]
  -- whatever is left of a public join creates no room under the prefix
  · obtain ⟨own, β, label, x, next, htask, rfl⟩ := Tasks.take_step (take_of_step hstep)
    obtain ⟨request, hrequest, hrest⟩ := (Tasks.rest_of_run (h.mono take_of_step)).2 htask
    obtain rfl : request = .join counts room member := Option.some.inj (hrequest.symm.trans hi)
    exact (hrest.always spawnsPublic_join).1 (c.shared, own) tx a htx ha

end Runs

/-! Alice starts a private chat, invites Bob, and he joins it. -/

namespace Visit

/-- The one who opens the private room. -/
def alice : Member := ⟨1, "alice", 0, 0, 7⟩

/-- The one who is invited. -/
def bob : Member := ⟨2, "bob", 0, 0, 8⟩

/-- Alice opens a private room and invites Bob, who joins it. -/
def chat : List (Turn Request) :=
  [.start (.joinPrivate (fun _ => 1) "priv-a" alice), .step 0, .step 0, .step 0,
    .start (.receive 1), .step 1, .step 0, .step 0,
    .start (.invite "priv-a" "bob"), .step 2,
    .start (.join (fun _ => 1) "priv-a" bob), .step 3, .step 3, .start (.receive 1), .step 4]

end Visit

open Visit

/-- Bob is in the room, and on its list. -/
theorem only_invitees_chat : ∃ e, (after chat).shared.rooms "priv-a" = some e ∧ e.tx = 1 ∧
    (e.isPrivate = true → "bob" ∈ e.invited) := by
  have hreach : ChatServer.Reaches chat (after chat) := reaches_after (by decide +kernel)
  have hnames : ∀ request ∈ Tasks.requests chat, request.NamesPrivate := by
    intro request hmem
    rcases List.mem_cons.mp hmem with rfl | hmem
    · exact (by decide : Reserved "priv-a")
    · -- the others ask for no private room
      have hothers : request ∈ [.receive 1, .invite "priv-a" "bob",
          .join (fun _ => 1) "priv-a" bob, .receive 1] := hmem
      simp only [List.mem_cons, List.not_mem_nil, or_false] at hothers
      rcases hothers with rfl | rfl | rfl | rfl <;> trivial
  have hin : (after chat).shared.actors[1]?.any
      (fun a => a.state.name = "priv-a" && a.state.members.contains bob) = true := by
    decide +kernel
  obtain ⟨a, ha, hroom⟩ := (Option.any_eq_true _ _).mp hin
  obtain ⟨hname, hmember⟩ := (Bool.and_eq_true_iff).mp hroom
  have hentry := (only_invitees hreach hnames).1 ha (List.contains_iff_mem.mp hmember)
  rw [of_decide_eq_true hname] at hentry
  exact hentry

end Chat

end KdxHotline
