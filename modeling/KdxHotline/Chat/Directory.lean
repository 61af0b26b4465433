import KdxHotline.Chat.RoomManager

/-!
# Nobody is stranded outside the directory

Eviction, refused joins and the re-creation of a room under its old name race each
other through separate messages. What keeps every member where others can find them
is that a room is only dropped from the directory once it is closed, that it is only
closed when nobody is in it, and that a closed room lets nobody in
(`KdxHotline.Chat.RoomManager.Sound`).

The calls are looked at one by one, against what the steps of all others may do
(`KdxHotline.Chat.directory`): the facts a call relies on between its steps are about
what was sent to an actor, what it answered and that it is closed, none of which is
ever undone (`KdxHotline.Chat.RoomManager.Extends`).
-/

namespace KdxHotline

namespace Chat

open Foundations Auth

/-! ### What is never undone -/

namespace RoomManager

variable {s s' s'' : RoomManager} {tx place : ℕ} {room : String} {c : RoomCommand} {r : Reply}

/-- Actors were spawned, sent commands and handled some; none that was closed opened
again. -/
def Extends (s s' : RoomManager) : Prop :=
  ∀ (tx : ℕ) (a : RoomActor), s.actors[tx]? = some a → ∃ a' : RoomActor, s'.actors[tx]? = some a' ∧ a.Extends a' ∧
    a'.state.name = a.state.name ∧ (a.state.closed = true → a'.state.closed = true)

theorem Extends.refl (s : RoomManager) : Extends s s :=
  fun _ a ha => ⟨a, ha, .refl a, rfl, id⟩

theorem extends_of_actors (h : s'.actors = s.actors) : Extends s s' :=
  fun _ a ha => ⟨a, h ▸ ha, .refl a, rfl, id⟩

/-- What holds of an actor and stays so, holds after others have taken steps. -/
def Lasting (P : RoomManager → Prop) : Prop := ∀ ⦃s s'⦄, Extends s s' → P s → P s'

theorem lasting_true : Lasting fun _ => True := fun _ _ _ _ => trivial

/-- The actor behind `tx` has this name. -/
def Named (s : RoomManager) (tx : ℕ) (room : String) : Prop :=
  ∃ a : RoomActor, s.actors[tx]? = some a ∧ a.state.name = room

/-- The actor behind `tx` is closed. -/
def Closed (s : RoomManager) (tx : ℕ) : Prop :=
  ∃ a : RoomActor, s.actors[tx]? = some a ∧ a.state.closed = true

/-- The actor behind `tx` was sent the command, at this place. -/
def Sent (s : RoomManager) (tx place : ℕ) (c : RoomCommand) : Prop :=
  ∃ a : RoomActor, s.actors[tx]? = some a ∧ a.inbox[place]? = some c

/-- The room's actor has answered the member that they have joined. -/
def Acked (s : RoomManager) (j : Joined) : Prop :=
  ∃ (a : RoomActor) (place : ℕ), s.actors[j.tx]? = some a ∧ a.state.name = j.room ∧
    a.Handled place (.join j.member) (.result (.ok ()))

theorem lasting_named : Lasting fun s => s.Named tx room := by
  rintro s s' hext ⟨a, ha, hname⟩
  obtain ⟨a', ha', -, hname', -⟩ := hext tx a ha
  exact ⟨a', ha', hname'.trans hname⟩

theorem lasting_closed : Lasting fun s => s.Closed tx := by
  rintro s s' hext ⟨a, ha, hclosed⟩
  obtain ⟨a', ha', -, -, hclosed'⟩ := hext tx a ha
  exact ⟨a', ha', hclosed' hclosed⟩

theorem lasting_sent : Lasting fun s => s.Sent tx place c := by
  rintro s s' hext ⟨a, ha, hc⟩
  obtain ⟨a', ha', hgrows, -⟩ := hext tx a ha
  exact ⟨a', ha', Mailbox.getElem?_mono hgrows.inbox hc⟩

theorem lasting_acked {j : Joined} : Lasting fun s => s.Acked j := by
  rintro s s' hext ⟨a, place, ha, hname, hhandled⟩
  obtain ⟨a', ha', hgrows, hname', -⟩ := hext j.tx a ha
  exact ⟨a', place, ha', hname'.trans hname, hhandled.extends hgrows⟩

theorem Lasting.and {P Q : RoomManager → Prop} (hP : Lasting P) (hQ : Lasting Q) :
    Lasting fun s => P s ∧ Q s :=
  fun _ _ hext h => ⟨hP hext h.1, hQ hext h.2⟩

theorem lasting_imp {p : Prop} {P : RoomManager → Prop} (hP : Lasting P) :
    Lasting fun s => p → P s :=
  fun _ _ hext h hp => hP hext (h hp)

/-! ### The directory and the actors -/

/-- The sender that the directory has for a name. -/
def txOf (s : RoomManager) (room : String) : Option ℕ := (s.rooms room).map RoomEntry.tx

theorem txOf_update {rooms : String → Option RoomEntry} {actors : List RoomActor} {gone : List ℕ}
    {name : String} {e : Option RoomEntry} :
    txOf ⟨Function.update rooms room e, actors, gone⟩ name
      = if name = room then e.map RoomEntry.tx else (rooms name).map RoomEntry.tx := by
  change (Function.update rooms room e name).map RoomEntry.tx = _
  rw [Function.update_apply]
  split <;> rfl

/-- **What always holds of the rooms.** -/
structure Sound (s : RoomManager) : Prop where
  named : ∀ {room tx}, s.txOf room = some tx → s.Named tx room
  /-- An actor that is not closed is the one the directory maps its name to. -/
  listed : ∀ {tx : ℕ} {a : RoomActor}, s.actors[tx]? = some a → a.state.closed = false →
    s.txOf a.state.name = some tx
  actors : ∀ {tx : ℕ} {a : RoomActor}, s.actors[tx]? = some a → a.Sound s.gone
  /-- Nobody asks the lobby to close. -/
  lobby : ∀ {tx : ℕ} {a : RoomActor}, s.actors[tx]? = some a → a.state.name = defaultRoom →
    .closeIfEmpty ∉ a.inbox
  first : s.Named 0 defaultRoom

/-- The directory at the start. -/
theorem sound_new : Sound new := by
  -- there is one actor, and one name
  have hactor : ∀ {tx : ℕ} {a : RoomActor}, new.actors[tx]? = some a →
      tx = 0 ∧ a = RoomActor.spawn defaultRoom := by
    intro tx a ha
    obtain ⟨hlt, hget⟩ := List.getElem?_eq_some_iff.mp ha
    obtain rfl : tx = 0 := Nat.lt_one_iff.mp hlt
    exact ⟨rfl, hget.symm⟩
  refine ⟨fun {room tx} hroom => ?_, fun ha _ => ?_, fun ha => ?_, fun ha _ => ?_, ⟨_, rfl, rfl⟩⟩
  · rw [new, txOf_update] at hroom
    split at hroom
    · rename_i hname
      obtain rfl : 0 = tx := Option.some.inj hroom
      exact ⟨_, rfl, hname.symm⟩
    · cases hroom
  · obtain ⟨rfl, rfl⟩ := hactor ha
    rfl
  · rw [(hactor ha).2]
    exact RoomActor.sound_spawn _
  · rw [(hactor ha).2]
    exact List.not_mem_nil

/-- Who may join which room is no matter. -/
theorem Sound.of_txOf (h : s.Sound) {rooms : String → Option RoomEntry}
    (htx : ∀ room, (rooms room).map RoomEntry.tx = s.txOf room) :
    Sound { s with rooms := rooms } where
  named hroom := h.named ((htx _).symm.trans hroom)
  listed ha hopen := (htx _).trans (h.listed ha hopen)
  actors := h.actors
  lobby := h.lobby
  first := h.first

/-- **An actor that does something by itself**, closing for good at most, keeps the
rooms sound. -/
theorem Sound.modify (h : s.Sound) {f : RoomActor → RoomActor}
    (hf : ∀ a : RoomActor, s.actors[tx]? = some a → a.Extends (f a) ∧
      (f a).state.name = a.state.name ∧ (a.state.closed = true → (f a).state.closed = true) ∧
      (f a).Sound s.gone ∧
      (a.state.name = defaultRoom → .closeIfEmpty ∉ (f a).inbox)) :
    Sound { s with actors := s.actors.modify tx f } ∧
      Extends s { s with actors := s.actors.modify tx f } := by
  have hext : Extends s { s with actors := s.actors.modify tx f } := by
    intro i a ha
    by_cases hi : tx = i
    · subst hi
      obtain ⟨hgrows, hname, hclosed, -⟩ := hf a ha
      refine ⟨f a, ?_, hgrows, hname, hclosed⟩
      rw [List.getElem?_modify_eq, ha]
      rfl
    · refine ⟨a, ?_, .refl a, rfl, id⟩
      rw [List.getElem?_modify_ne _ _ hi]
      exact ha
  -- every actor is an old one, or the result of `f`
  have hold : ∀ {i : ℕ} {a : RoomActor}, (s.actors.modify tx f)[i]? = some a →
      s.actors[i]? = some a ∨ ∃ b, s.actors[i]? = some b ∧ i = tx ∧ a = f b := by
    intro i a ha
    by_cases hi : tx = i
    · subst hi
      rw [List.getElem?_modify_eq] at ha
      obtain ⟨b, hb, rfl⟩ := Option.map_eq_some_iff.mp ha
      exact .inr ⟨b, hb, rfl, rfl⟩
    · rw [List.getElem?_modify_ne _ _ hi] at ha
      exact .inl ha
  refine ⟨⟨fun hroom => lasting_named hext (h.named hroom), fun {i a} ha hopen => ?_,
    fun {i a} ha => ?_, fun {i a} ha hlobby => ?_, lasting_named hext h.first⟩, hext⟩
  · rcases hold ha with ha | ⟨b, hb, rfl, rfl⟩
    · exact h.listed ha hopen
    · obtain ⟨-, hname, hclosed, -⟩ := hf b hb
      rw [hname]
      refine h.listed hb ?_
      by_contra hwas
      rw [hclosed (by simpa using hwas)] at hopen
      cases hopen
  · rcases hold ha with ha | ⟨b, hb, rfl, rfl⟩
    · exact h.actors ha
    · exact (hf b hb).2.2.2.1
  · rcases hold ha with ha | ⟨b, hb, rfl, rfl⟩
    · exact h.lobby ha hlobby
    · obtain ⟨-, hname, -, -, hnot⟩ := hf b hb
      exact hnot (hname ▸ hlobby)

/-! ### What the steps keep -/

/-- A command that is sent leaves the rooms sound, unless it asks the lobby to
close. -/
theorem Sound.send (h : s.Sound) (tx : ℕ) (c : RoomCommand) (hclose : c = .closeIfEmpty → ¬ s.Named tx defaultRoom) :
    (s.send tx c).2.Sound ∧ Extends s (s.send tx c).2 := by
  refine h.modify fun a ha => ⟨Mailbox.extends_send, rfl, id, (h.actors ha).send c, fun hlobby hmem => ?_⟩
  rcases List.mem_append.mp hmem with hmem | hmem
  · exact h.lobby ha hlobby hmem
  · exact hclose (List.mem_singleton.mp hmem).symm ⟨a, ha, hlobby⟩

/-- What is sent gets the place it is told. -/
theorem sent_send (h : s.Named tx room) : (s.send tx c).2.Sent tx (s.send tx c).1 c := by
  obtain ⟨a, ha, -⟩ := h
  refine ⟨a.send c, ?_, ?_⟩
  · rw [RoomManager.send, List.getElem?_modify_eq, ha]
    rfl
  · rw [RoomManager.send, ha]
    exact Mailbox.inbox_send

theorem Sound.receive (h : s.Sound) (tx : ℕ) : (s.receive tx).Sound ∧ Extends s (s.receive tx) :=
  h.modify fun _ ha => ⟨Mailbox.extends_receive, RoomActor.receive_name, RoomActor.receive_closed,
    (h.actors ha).receive, fun hlobby hmem => h.lobby ha hlobby (Mailbox.inbox_receive ▸ hmem)⟩

theorem Sound.disconnect (h : s.Sound) : (s.disconnect tx).Sound where
  named := h.named
  listed := h.listed
  actors ha := (h.actors ha).mono fun _ => List.mem_cons_of_mem _
  lobby := h.lobby
  first := h.first

theorem tx_addInvitee (e : RoomEntry) (invitee : Option String) : (addInvitee e invitee).tx = e.tx := by
  cases invitee <;> rfl

/-- An invitation changes no room. -/
theorem Sound.invite (h : s.Sound) (room username : String) :
    (s.invite room username).2.Sound ∧ (s.invite room username).2.actors = s.actors := by
  unfold RoomManager.invite
  split
  · rename_i e he
    split
    · refine ⟨h.of_txOf fun name => ?_, rfl⟩
      rw [Function.update_apply]
      split
      · rename_i hname
        rw [hname, txOf, he]
        rfl
      · rfl
    · exact ⟨h, rfl⟩
  · exact ⟨h, rfl⟩

/-- **Dropping a room whose actor is closed keeps the rooms sound**: whatever is not
closed stays listed. -/
theorem Sound.forget (h : s.Sound) (room : String) (hclosed : s.Closed tx) :
    (s.forget room tx).Sound ∧ (s.forget room tx).actors = s.actors := by
  unfold RoomManager.forget
  split
  · rename_i hthere
    refine ⟨⟨fun {name i} hname => ?_, fun {i a} ha hopen => ?_, h.actors, h.lobby, h.first⟩, rfl⟩
    · rw [txOf_update] at hname
      split at hname
      · cases hname
      · exact h.named hname
    · have hlisted := h.listed ha hopen
      rw [txOf_update]
      split
      · -- the instance dropped is closed, so this is another one
        rename_i hname
        rw [hname, txOf, hthere, Option.some_inj] at hlisted
        subst hlisted
        obtain ⟨b, hb, hbclosed⟩ := hclosed
        obtain rfl : a = b := Option.some.inj (ha.symm.trans hb)
        rw [hopen] at hbclosed
        cases hbclosed
      · exact hlisted
  · exact ⟨h, rfl⟩

/-- **Looking up a name, or spawning a room for it, keeps the rooms sound**, and leads
to an actor of that name. -/
theorem Sound.entry {isPrivate : Bool} {invitee : Option String} (h : s.Sound) :
    (s.entry room isPrivate invitee).2.Sound ∧ Extends s (s.entry room isPrivate invitee).2 ∧
      (s.entry room isPrivate invitee).2.Named (s.entry room isPrivate invitee).1 room := by
  unfold RoomManager.entry
  split
  · rename_i e he
    refine ⟨h.of_txOf fun name => ?_, extends_of_actors rfl, h.named ?_⟩
    · rw [Function.update_apply]
      split
      · rename_i hname
        rw [hname, txOf, he, Option.map_some, Option.map_some, tx_addInvitee]
      · rfl
    · rw [txOf, he]
      rfl
  · rename_i hfree
    have hold : ∀ {i : ℕ} {a : RoomActor}, s.actors[i]? = some a →
        (s.actors ++ [RoomActor.spawn room])[i]? = some a := by
      intro i a ha
      exact Mailbox.getElem?_mono (List.prefix_append _ _) ha
    have hnew : (s.actors ++ [RoomActor.spawn room])[s.actors.length]? = some (.spawn room) := by
      rw [List.getElem?_append_right le_rfl, Nat.sub_self]
      rfl
    have hcases : ∀ {i : ℕ} {a : RoomActor}, (s.actors ++ [RoomActor.spawn room])[i]? = some a →
        s.actors[i]? = some a ∨ (i = s.actors.length ∧ a = .spawn room) := Mailbox.getElem?_concat
    have htx : ∀ {name : String}, txOf ⟨Function.update s.rooms room
        (some (addInvitee ⟨s.actors.length, isPrivate, []⟩ invitee)),
          s.actors ++ [RoomActor.spawn room], s.gone⟩ name
        = if name = room then some s.actors.length else s.txOf name := by
      intro name
      rw [txOf_update, Option.map_some, tx_addInvitee]
      rfl
    refine ⟨⟨fun {name i} hname => ?_, fun {i a} ha hopen => ?_, fun {i a} ha => ?_,
      fun {i a} ha hlobby => ?_, ?_⟩, fun i a ha => ⟨a, hold ha, .refl a, rfl, id⟩,
      ⟨_, hnew, rfl⟩⟩
    · rw [htx] at hname
      split at hname
      · rename_i he
        rw [Option.some_inj] at hname
        exact ⟨_, hname ▸ hnew, he.symm⟩
      · obtain ⟨a, ha, hnamed⟩ := h.named hname
        exact ⟨a, hold ha, hnamed⟩
    · rw [htx]
      rcases hcases ha with ha | ⟨rfl, rfl⟩
      · have hlisted := h.listed ha hopen
        -- the name was free, so it is another one
        have hother : a.state.name ≠ room := by
          intro he
          rw [he, txOf, hfree] at hlisted
          cases hlisted
        rw [if_neg hother]
        exact hlisted
      · exact if_pos rfl
    · rcases hcases ha with ha | ⟨-, rfl⟩
      · exact h.actors ha
      · exact RoomActor.sound_spawn room
    · rcases hcases ha with ha | ⟨-, rfl⟩
      · exact h.lobby ha hlobby
      · exact List.not_mem_nil
    · obtain ⟨a, ha, hname⟩ := h.first
      exact ⟨a, hold ha, hname⟩

end RoomManager

/-! ### The calls keep to it -/

open RoomManager

section Calls

variable {α : Type} {s : RoomManager} {tx place : ℕ} {room : String} {member : Member} {j : Joined}
  {c : RoomCommand} {label : Label} {E : JoinError → RoomManager × Option Joined → Prop}

/-- What the tasks keep to: the rooms stay sound, nothing is undone, and whoever was
told that they have joined was let in by the room's actor. -/
def directory : Discipline RoomManager (Option Joined) Label where
  inv s owns := s.Sound ∧ ∀ j, some j ∈ owns → s.Acked j
  guar s t := s.1.Extends t.1
  allows label s _ := allowed label s.1 = true

/-- A fact about the rooms. -/
def On (P : RoomManager → Prop) (t : RoomManager × Option Joined) : Prop := P t.1

theorem stable_of_lasting {P : RoomManager → Prop} (hP : Lasting P) : directory.Stable (On P) :=
  fun _ _ _ _ _ _ _ hext h => hP hext h

/-- One step on the shared state. -/
theorem meets_access {P : RoomManager → Prop} {f : RoomManager → α × RoomManager}
    {Q : α → RoomManager → Prop} (hQ : ∀ a, Lasting (Q a))
    (hstep : ∀ s : RoomManager, s.Sound → allowed label s = true → P s →
      (f s).2.Sound ∧ s.Extends (f s).2 ∧ Q (f s).1 (f s).2) :
    directory.Meets (On P) (access label f) (fun a => On (Q a)) E := by
  refine Discipline.meets_step (fun s own rest hinv hallows hP => ?_) fun a => stable_of_lasting (hQ a)
  obtain ⟨hsound, hext, hpost⟩ := hstep s hinv.1 hallows hP
  exact ⟨⟨hsound, fun j hj => lasting_acked hext (hinv.2 j hj)⟩, hext, hpost⟩

/-- A step after which nothing need be known. -/
theorem meets_plain {P : RoomManager → Prop} {f : RoomManager → α × RoomManager}
    (hstep : ∀ s : RoomManager, s.Sound → allowed label s = true → P s →
      (f s).2.Sound ∧ s.Extends (f s).2) :
    directory.Meets (On P) (access label f) (fun _ _ => True) E :=
  meets_access (Q := fun _ _ => True) (fun _ => lasting_true) fun s hs hallowed hP =>
    ⟨(hstep s hs hallowed hP).1, (hstep s hs hallowed hP).2, trivial⟩

/-- A step that only looks. -/
theorem meets_look {P : RoomManager → Prop} {f : RoomManager → α} {Q : α → RoomManager → Prop}
    (hQ : ∀ a, Lasting (Q a)) (hlook : ∀ s : RoomManager, s.Sound → P s → Q (f s) s) :
    directory.Meets (On P) (access label fun s => (f s, s)) (fun a => On (Q a)) E :=
  meets_access hQ fun s hs _ hP => ⟨hs, .refl s, hlook s hs hP⟩

/-- A command that was sent and is answered was handled with that answer. -/
theorem handled_of_reply {r : Reply} (hsent : s.Sent tx place c) (hr : s.reply tx place = some r) :
    ∃ a : RoomActor, s.actors[tx]? = some a ∧ a.Handled place c r := by
  obtain ⟨a, ha, hc⟩ := hsent
  rw [reply, ha] at hr
  exact ⟨a, ha, hc, hr⟩

/-- Joining a room that is named keeps the discipline: one is in it, or told that it is closed. -/
theorem doJoin_meets :
    directory.Meets (On fun s => s.Named tx room) (doJoin tx member)
      (fun _ => On fun s => s.Acked ⟨room, member, tx⟩)
      fun e => On fun s => e = .room .closed → s.Closed tx := by
  refine Discipline.Meets.bind
    (meets_access (Q := fun place s => s.Named tx room ∧ s.Sent tx place (.join member))
      (fun _ => lasting_named.and lasting_sent) fun s hs _ hnamed => ?_) fun place => ?_
  · obtain ⟨hsound, hext⟩ := hs.send tx (.join member) nofun
    exact ⟨hsound, hext, lasting_named hext hnamed, sent_send hnamed⟩
  refine Discipline.Meets.bind
    (meets_look (Q := fun r s => (r = some (.result (.ok ())) → s.Acked ⟨room, member, tx⟩) ∧
        (r = some (.result (.error .closed)) → s.Closed tx))
      (fun _ => (lasting_imp lasting_acked).and (lasting_imp lasting_closed))
      fun s hs ⟨⟨a, ha, hname⟩, hsent⟩ => ⟨fun hr => ?_, fun hr => ?_⟩) fun r => ?_
  · obtain ⟨b, hb, hhandled⟩ := handled_of_reply hsent hr
    obtain rfl : a = b := Option.some.inj (ha.symm.trans hb)
    exact ⟨a, place, ha, hname, hhandled⟩
  · obtain ⟨b, hb, hhandled⟩ := handled_of_reply hsent hr
    exact ⟨b, hb, (hs.actors hb).refused hhandled⟩
  · split
    · exact Discipline.meets_pure fun t ht => ht.1 rfl
    · rename_i e
      refine Discipline.meets_fail fun t ht he => ht.2 ?_
      rw [JoinError.room.inj he]
    · exact Discipline.meets_fail fun t _ => nofun

theorem forget_meets :
    directory.Meets (On fun s => s.Closed tx) (forget room tx) (fun _ _ => True) E := by
  refine meets_plain fun s hs _ hclosed => ?_
  obtain ⟨hsound, hactors⟩ := hs.forget room hclosed
  exact ⟨hsound, extends_of_actors hactors⟩

/-- **The loop:** whatever it takes to find a room of the name, a join that succeeds
was let in by that room's actor. -/
theorem attempts_meets {find : ℕ → Call ℕ}
    (hfind : ∀ n, directory.Meets (On fun _ => True) (find n) (fun tx => On fun s => s.Named tx room)
      fun _ _ => True) : ∀ n, directory.Meets (On fun _ => True) (attempts find room member n)
        (fun tx => On fun s => s.Acked ⟨room, member, tx⟩) fun _ _ => True
  | 0 => Discipline.meets_fail fun _ _ => trivial
  | n + 1 => by
    refine (hfind n).bind fun tx => doJoin_meets.attempt.bind fun r => ?_
    cases r with
    | ok _ => exact Discipline.meets_pure fun t ht => ht
    | error e =>
      dsimp only
      split
      · -- the room was closed: it is dropped, and another one looked for
        rename_i hclosed
        exact (forget_meets.bind fun _ => attempts_meets hfind n).mono
          (fun t ht => ht (Except.error.inj hclosed)) (fun _ _ h => h) fun _ _ h => h
      · rename_i h
        exact absurd h nofun
      · exact Discipline.meets_fail fun _ _ => trivial

theorem create_meets {count : ℕ} {isPrivate : Bool} {invitee : Option String} :
    directory.Meets (On fun _ => True) (create count room isPrivate invitee)
      (fun tx => On fun s => s.Named tx room) fun _ _ => True := by
  refine Discipline.Meets.bind
    (meets_look (Q := fun _ _ => True) (fun _ => lasting_true) fun _ _ _ => trivial) fun present => ?_
  split
  · exact Discipline.meets_fail fun _ _ => trivial
  · exact meets_access (Q := fun tx s => s.Named tx room) (fun _ => lasting_named)
      fun s hs _ _ => hs.entry

/-- The room that is found is named. -/
theorem findPublic_meets {count : ℕ} :
    directory.Meets (On fun _ => True) (findPublic count room member)
      (fun tx => On fun s => s.Named tx room) fun _ _ => True := by
  refine Discipline.Meets.bind
    (meets_look (Q := fun found s => ∀ tx b, found = some (tx, b) → s.Named tx room)
      (fun _ _ _ hext h tx b hfound => lasting_named hext (h tx b hfound))
      fun s hs _ tx b hfound => ?_) fun found => ?_
  · obtain ⟨e, he, hpair⟩ := Option.map_eq_some_iff.mp hfound
    have htx : s.txOf room = some tx := by
      rw [txOf, he]
      exact congrArg (some ·.1) hpair
    exact hs.named htx
  · split
    · exact Discipline.meets_fail fun _ _ => trivial
    · exact Discipline.meets_pure fun t ht => ht _ _ rfl
    · split
      · exact Discipline.meets_fail fun _ _ => trivial
      · split
        · exact Discipline.meets_fail fun _ _ => trivial
        · exact create_meets.mono (fun _ _ => trivial) (fun _ _ h => h) fun _ _ h => h

/-- Checks that take no step. -/
theorem ofExcept_meets {x : Except JoinError Unit} {P : RoomManager × Option Joined → Prop} :
    directory.Meets P (.ofExcept x) (fun _ => P) fun _ _ => True := by
  cases x with
  | ok _ => exact Discipline.meets_pure fun _ h => h
  | error _ => exact Discipline.meets_fail fun _ _ => trivial

theorem join_meets {counts : ℕ → ℕ} :
    directory.Meets (On fun _ => True) (join counts room member)
      (fun tx => On fun s => s.Acked ⟨room, member, tx⟩) fun _ _ => True :=
  ofExcept_meets.bind fun _ => attempts_meets (fun _ => findPublic_meets) joinAttempts

theorem joinPrivate_meets {counts : ℕ → ℕ} :
    directory.Meets (On fun _ => True) (joinPrivate counts room member)
      (fun tx => On fun s => s.Acked ⟨room, member, tx⟩) fun _ _ => True :=
  ofExcept_meets.bind fun _ => attempts_meets (fun _ => create_meets) joinAttempts

/-- **Leaving asks no lobby to close**, and drops what was closed only. -/
theorem leave_meets {sessionId : ℕ} :
    directory.Meets (On fun _ => True) (leave room sessionId) (fun _ _ => True) fun _ _ => True := by
  refine Discipline.Meets.bind
    (meets_look (Q := fun found s => ∀ tx, found = some tx → s.Named tx room)
      (fun _ _ _ hext h tx hfound => lasting_named hext (h tx hfound))
      fun s hs _ tx hfound => hs.named hfound) fun found => ?_
  cases found with
  | none => exact Discipline.meets_pure fun _ _ => trivial
  | some tx =>
    refine Discipline.Meets.bind
      (meets_access (Q := fun _ s => s.Named tx room) (fun _ => lasting_named)
        fun s hs _ hnamed => ?_) fun _ => ?_
    · obtain ⟨hsound, hext⟩ := hs.send tx (.leave sessionId) nofun
      exact ⟨hsound, hext, lasting_named hext (hnamed tx rfl)⟩
    by_cases hroom : room = defaultRoom
    · rw [if_pos hroom]
      exact Discipline.meets_pure fun _ _ => trivial
    rw [if_neg hroom]
    refine Discipline.Meets.bind
      (meets_access (Q := fun place s => s.Sent tx place .closeIfEmpty) (fun _ => lasting_sent)
        fun s hs _ hnamed => ?_) fun place => ?_
    -- the actor was found under the name of the room, which is not the lobby
    · have hnotlobby : ¬ s.Named tx defaultRoom := by
        rintro ⟨a, ha, hlobby⟩
        obtain ⟨b, hb, hname⟩ := hnamed
        obtain rfl : a = b := Option.some.inj (ha.symm.trans hb)
        exact hroom (hname.symm.trans hlobby)
      obtain ⟨hsound, hext⟩ := hs.send tx .closeIfEmpty fun _ => hnotlobby
      exact ⟨hsound, hext, sent_send hnamed⟩
    refine Discipline.Meets.bind
      (meets_look (Q := fun r s => r = some (.evicted true) → s.Closed tx)
        (fun _ => lasting_imp lasting_closed) fun s hs hsent hr => ?_) fun r => ?_
    · obtain ⟨a, ha, hhandled⟩ := handled_of_reply hsent hr
      exact ⟨a, ha, (hs.actors ha).evicted hhandled⟩
    · cases r with
      | none => exact Discipline.meets_pure fun _ _ => trivial
      | some reply =>
        cases reply with
        | evicted empty =>
          cases empty with
          | true => exact forget_meets.mono (fun t ht => ht rfl) (fun _ _ h => h) fun _ _ h => h
          | false => exact Discipline.meets_pure fun _ _ => trivial
        | _ => exact Discipline.meets_pure fun _ _ => trivial

/-- A join that returns was let in. -/
theorem returnJoined_meets :
    directory.Meets (On fun s => s.Acked j) (returnJoined j) (fun _ _ => True) E := by
  refine Discipline.meets_step (fun s own rest hinv _ hacked => ?_) fun _ _ _ _ _ _ _ _ _ _ => trivial
  refine ⟨⟨hinv.1, fun j' hj' => ?_⟩, .refl s, trivial⟩
  rcases Multiset.mem_cons.mp hj' with he | hrest
  · rw [Option.some.inj he]
    exact hacked
  · exact hinv.2 j' (Multiset.mem_cons_of_mem hrest)

/-- **Everything that can happen keeps to the discipline.** -/
theorem serve_meets (request : Request) :
    directory.Meets (On fun _ => True) (serve request) (fun _ _ => True) fun _ _ => True := by
  cases request with
  | join counts room member => exact join_meets.bind fun _ => returnJoined_meets
  | joinPrivate counts room member => exact joinPrivate_meets.bind fun _ => returnJoined_meets
  | invite room username =>
    refine Discipline.Meets.bind (meets_plain fun s hs _ _ => ?_) fun _ =>
      Discipline.meets_pure fun _ _ => trivial
    obtain ⟨hsound, hactors⟩ := hs.invite room username
    exact ⟨hsound, extends_of_actors hactors⟩
  | leave room sessionId => exact leave_meets
  | receive tx =>
    rw [serve]
    exact meets_plain fun s hs _ _ => hs.receive tx
  | post tx c =>
    refine Discipline.Meets.bind (meets_plain fun s hs hallowed _ => ?_) fun _ =>
      Discipline.meets_pure fun _ _ => trivial
    -- members do not ask a room to close
    refine hs.send tx c ?_
    rintro rfl
    cases hallowed
  | disconnect tx =>
    rw [serve]
    exact meets_plain fun s hs _ _ => ⟨hs.disconnect, extends_of_actors rfl⟩

end Calls

/-! ### Whatever the order of steps -/

section Runs

variable {c c' : ChatServer} {turns : List (Turn Request)}

/-- Every step is one the discipline allows. -/
theorem step_guarded {turn : Turn Request} (h : c.step turn = some c') :
    Guarded (fun c turn c' => Tasks.take serve none c turn = some c') directory.Allowed c turn c' := by
  unfold ChatServer.step at h
  split at h
  · rename_i hready
    refine ⟨h, ?_⟩
    cases turn with
    | start request => trivial
    | step i =>
      intro own β label x next hi
      simp only [ChatServer.ready, hi] at hready
      exact hready
  · cases h

/-- **In every state that is reached the rooms are sound, and every join that has
returned with success was let in.** -/
theorem sound_of_reaches (h : ChatServer.Reaches turns c) :
    c.shared.Sound ∧ ∀ i j, c.returned i = some j → c.shared.Acked j := by
  have hholds : directory.Holds c := by
    refine Discipline.holds_run ?_
      (fun request => (serve_meets request).mono (fun _ _ => trivial) (fun _ _ h => h) fun _ _ h => h)
      (fun s owns hinv => ?_) (h.mono step_guarded)
    · exact ⟨⟨sound_new, fun j hj => absurd hj (Multiset.notMem_zero _)⟩, nofun⟩
    · refine ⟨hinv.1, fun j hj => hinv.2 j ?_⟩
      rcases Multiset.mem_cons.mp hj with he | hold
      · cases he
      · exact hold
  refine ⟨hholds.inv.1, fun i j hj => hholds.inv.2 j ?_⟩
  obtain ⟨t, ht, he⟩ := Option.bind_eq_some_iff.mp hj
  exact Multiset.mem_coe.mpr (List.mem_map.mpr ⟨t, List.mem_of_getElem? ht, he⟩)

/-- The lobby is never closed. -/
theorem RoomManager.Sound.lobby_open {s : RoomManager} (h : s.Sound) {tx : ℕ} {a : RoomActor}
    (ha : s.actors[tx]? = some a) (hname : a.state.name = defaultRoom) : a.state.closed = false := by
  by_contra hclosed
  exact h.lobby ha hname ((h.actors ha).asked (by simpa using hclosed))

/-- A room with a member is not closed. -/
theorem RoomManager.Sound.open_of_mem {s : RoomManager} (h : s.Sound) {tx : ℕ} {a : RoomActor}
    (ha : s.actors[tx]? = some a) (hmembers : a.state.members ≠ []) : a.state.closed = false := by
  by_contra hclosed
  exact hmembers ((h.actors ha).emptied (by simpa using hclosed))

/-- **Nobody is stranded in a room outside the directory**, whatever the order in which
calls and rooms take their steps. A room with a member is the one the directory maps
its name to. A join that has succeeded was let in by the room's actor, and the member
is in such a room still, unless their channel has closed or the room was told since
that they leave. At most one actor of a name is not closed, and the lobby is the first
of all. -/
theorem nobody_stranded (h : ChatServer.Reaches turns c) :
    (∀ {tx : ℕ} {a : RoomActor}, c.shared.actors[tx]? = some a → a.state.members ≠ [] →
      c.shared.txOf a.state.name = some tx) ∧
    (∀ {i : ℕ} {j : Joined}, c.returned i = some j → ∃ (a : RoomActor) (place : ℕ),
      c.shared.actors[j.tx]? = some a ∧ a.state.name = j.room ∧
      a.Handled place (.join j.member) (.result (.ok ())) ∧
      (j.member ∈ a.state.members ∧ c.shared.txOf j.room = some j.tx ∨
        j.member.tx ∈ c.shared.gone ∨ a.LeftSince place j.member)) ∧
    (∀ {tx tx' : ℕ} {a a' : RoomActor}, c.shared.actors[tx]? = some a →
      c.shared.actors[tx']? = some a' → a.state.name = a'.state.name →
      a.state.closed = false → a'.state.closed = false → tx = tx') ∧
    c.shared.txOf defaultRoom = some 0 := by
  obtain ⟨hsound, hacked⟩ := sound_of_reaches h
  refine ⟨fun ha hmembers => hsound.listed ha (hsound.open_of_mem ha hmembers), fun {i j} hj => ?_,
    fun ha ha' hname hopen hopen' => ?_, ?_⟩
  · obtain ⟨a, place, ha, hname, hhandled⟩ := hacked i j hj
    refine ⟨a, place, ha, hname, hhandled, ?_⟩
    rcases (hsound.actors ha).seated hhandled with hin | hout
    · have hopen := hsound.open_of_mem ha (List.ne_nil_of_mem hin)
      exact .inl ⟨hin, hname ▸ hsound.listed ha hopen⟩
    · exact .inr hout
  -- both are what the directory maps the name to
  · have hlisted := hsound.listed ha hopen
    rw [hname, hsound.listed ha' hopen'] at hlisted
    exact (Option.some.inj hlisted).symm
  · obtain ⟨a, ha, hname⟩ := hsound.first
    rw [← hname]
    exact hsound.listed ha (hsound.lobby_open ha hname)

end Runs

/-! A guest joins the lobby; a leave of the same session may overtake the return. A host opens a
room, leaves it and opens it again. -/

namespace Visit

/-- A guest, who may only join what is there. -/
def guest : Member := ⟨1, "guest", 0, 0, 7⟩

/-- The guest's join until the lobby has answered it. -/
def knock : List (Turn Request) :=
  [.start (.join (fun _ => 0) defaultRoom guest), .step 0, .step 0, .start (.receive 0), .step 1]

/-- A leave of the guest's session until the lobby has handled it. -/
def slip : List (Turn Request) :=
  [.start (.leave defaultRoom 1), .step 2, .step 2, .start (.receive 0), .step 3]

/-- The room that is opened. -/
def den : String := "den"

/-- A member who may open rooms. -/
def host : Member := ⟨2, "host", 0, Privileges.chatCreateRoom, 8⟩

/-- The host's join, which creates the room, until it has returned. -/
def opens : List (Turn Request) :=
  [.start (.join (fun _ => 0) den host), .step 0, .step 0, .step 0, .step 0, .start (.receive 1),
    .step 1, .step 0, .step 0]

/-- The host's leave, which empties the room, until it is dropped. -/
def empties : List (Turn Request) :=
  [.start (.leave den 2), .step 2, .step 2, .step 2, .start (.receive 1), .step 3,
    .start (.receive 1), .step 4, .step 2, .step 2]

/-- The host's second join, which creates another room of the name. -/
def reopens : List (Turn Request) :=
  [.start (.join (fun _ => 0) den host), .step 5, .step 5, .step 5, .step 5, .start (.receive 2),
    .step 6, .step 5, .step 5]

/-- The server after some turns that can be taken. -/
def after (turns : List (Turn Request)) : ChatServer :=
  (perform ChatServer.step .start turns).getD .start

theorem reaches_after {turns : List (Turn Request)}
    (h : (perform ChatServer.step .start turns).isSome = true) :
    ChatServer.Reaches turns (after turns) := by
  obtain ⟨c, hc⟩ := Option.isSome_iff_exists.mp h
  rw [after, hc]
  exact run_of_perform hc

end Visit

open Visit

/-- The host has left the room that was created first, and is in the other, which is the one that
the directory has. -/
theorem nobody_stranded_visit :
    (∃ (a : RoomActor) (place : ℕ), (after (opens ++ empties ++ reopens)).shared.actors[1]? = some a ∧
      a.Handled place (.join host) (.result (.ok ())) ∧ a.LeftSince place host) ∧
    (∃ a : RoomActor, (after (opens ++ empties ++ reopens)).shared.actors[2]? = some a ∧
      a.state.members = [host]) ∧
    (after (opens ++ empties ++ reopens)).shared.txOf den = some 2 := by
  obtain ⟨hlisted, hjoined, -, -⟩ :=
    nobody_stranded (@reaches_after (opens ++ empties ++ reopens) (by decide +kernel))
  have hfirst : ((after (opens ++ empties ++ reopens)).shared.actors[1]?.map
      fun a => a.state.members) = some [] := by decide +kernel
  have hsecond : ((after (opens ++ empties ++ reopens)).shared.actors[2]?.map
      fun a => (a.state.name, a.state.members)) = some (den, [host]) := by decide +kernel
  have hgone : (after (opens ++ empties ++ reopens)).shared.gone = [] := by decide +kernel
  obtain ⟨a₂, ha₂, hboth⟩ := Option.map_eq_some_iff.mp hsecond
  obtain ⟨hname₂, hmembers₂⟩ := Prod.mk.inj hboth
  obtain ⟨a, place, ha, -, hhandled, hcases⟩ := hjoined (i := 0) (j := ⟨den, host, 1⟩) (by decide +kernel)
  refine ⟨⟨a, place, ha, hhandled, ?_⟩, ⟨a₂, ha₂, hmembers₂⟩, ?_⟩
  · rcases hcases with ⟨hin, -⟩ | hleft | hleft
    · rw [ha, Option.map_some, Option.some_inj] at hfirst
      rw [hfirst] at hin
      cases hin
    · rw [hgone] at hleft
      cases hleft
    · exact hleft
  · rw [← hname₂]
    exact hlisted ha₂ (by rw [hmembers₂]; exact List.cons_ne_nil _ _)

/-- **When a join returns with success, the member may have left already:** the room has
handled a leave of the same session in between. -/
theorem returned_after_leaving :
    ¬ ∀ (turns : List (Turn Request)) (c c' : ChatServer) (i : ℕ) (j : Joined),
      ChatServer.Reaches turns c → c.step (.step i) = some c' → c.returned i = none →
      c'.returned i = some j →
      ∃ a ∈ c'.shared.actors, j.member ∈ a.state.members := by
  intro h
  obtain ⟨a, ha, hin⟩ := h (knock ++ slip ++ [.step 0]) (after (knock ++ slip ++ [.step 0]))
    (after (knock ++ slip ++ [.step 0, .step 0])) 0 ⟨defaultRoom, guest, 0⟩
    (reaches_after (by decide +kernel)) rfl (by decide +kernel) (by decide +kernel)
  have hnobody : (after (knock ++ slip ++ [.step 0, .step 0])).shared.actors.all
      (fun a => a.state.members.isEmpty) = true := by decide +kernel
  have hempty := List.all_eq_true.mp hnobody a ha
  rw [List.isEmpty_iff.mp hempty] at hin
  cases hin

end Chat

end KdxHotline
