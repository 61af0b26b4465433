import KdxHotline.Auth.Classes
import KdxHotline.Foundations.Mailbox
import KdxHotline.Foundations.Table

/-!
# The room actor

One chat room is one actor, which alone knows who is in the room; connections talk to
it through commands (`KdxHotline.Chat.RoomState.handle`). A member whose outbound
channel turns out to be closed when something is broadcast is dropped, so which
channels are closed is a parameter of handling a command.

A room that was empty when it was asked to close is closed for good, and refuses every
join. What this file says about an actor over its whole life is
`KdxHotline.Chat.RoomActor.Sound`, kept by every command it handles
(`KdxHotline.Chat.RoomActor.Sound.receive`): a closed room has no members, and
whoever was answered that they had joined is a member, unless the room was since told
that they leave or their channel is closed.

What is broadcast is left out: nothing here depends on it.
-/

namespace KdxHotline

namespace Chat

open Foundations Auth

open Privileges

/-- The room that is always there. -/
def defaultRoom : String := "lobby"

/-- Command-channel depth per room. -/
def roomQueue : ℕ := 256

/-! ### Members and commands -/

/-- A room member as the room actor sees it. Sessions and channels are told apart by
numbers. -/
structure Member where
  sessionId : ℕ
  username : String
  class_ : ℕ
  privileges : Privileges
  /-- The member's connection outbound channel. -/
  tx : ℕ
  deriving DecidableEq, Repr

/-- What is asked of a room. -/
inductive RoomCommand
  | join (member : Member)
  | leave (sessionId : ℕ)
  | message (sessionId : ℕ)
  | setTopic (sessionId : ℕ)
  | memberCount
  | setFlags (sessionId minClassJoin : ℕ) (interviewMode : Bool)
  | getFlags
  /-- If the room is empty, close it for good. -/
  | closeIfEmpty
  deriving DecidableEq, Repr

/-- Why a room refuses. -/
inductive RoomError
  | notMember
  | noPrivilege
  | alreadyJoined
  | classTooLow
  | interviewMuted
  | aboveOwnClass
  | closed
  deriving DecidableEq, Repr

/-- What a command is answered with. -/
inductive Reply
  /-- The command asks for no answer. -/
  | none
  | result (r : Except RoomError Unit)
  | count (members : ℕ)
  | flags (minClassJoin : ℕ) (interviewMode : Bool)
  | evicted (empty : Bool)
  deriving DecidableEq, Repr

/-- The commands a connection sends to a room it has joined; the others are sent by
the room manager. -/
def RoomCommand.fromMember : RoomCommand → Bool
  | join _ | leave _ | closeIfEmpty => false
  | message _ | setTopic _ | memberCount | setFlags .. | getFlags => true

/-! ### The state of a room -/

/-- A room. -/
structure RoomState where
  name : String
  members : List Member
  /-- Minimum class needed to join. -/
  minClassJoin : ℕ
  interviewMode : Bool
  /-- Set by `closeIfEmpty`; a closed room refuses every join. -/
  closed : Bool
  members_session : UniqueKey Member.sessionId members
  deriving DecidableEq

namespace RoomState

/-- A room nobody has joined yet. -/
def new (name : String) : RoomState where
  name := name
  members := []
  minClassJoin := 0
  interviewMode := false
  closed := false
  members_session := uniqueKey_nil _

/-- The member of a session. -/
def member (r : RoomState) (sessionId : ℕ) : Option Member :=
  r.members.find? fun m => m.sessionId = sessionId

/-- Keep the members `p` selects. -/
def keep (r : RoomState) (p : Member → Bool) : RoomState :=
  { r with members := r.members.filter p, members_session := r.members_session.filter p }

/-- Try to send to every member: those whose channel is closed. -/
def fanOut (gone : List ℕ) (r : RoomState) : List ℕ :=
  (r.members.filter fun m => m.tx ∈ gone).map Member.sessionId

/-- Remove the members of the `left` sessions and tell the rest. Members found dead
while announcing are removed in the next round. -/
def prune (gone : List ℕ) (r : RoomState) (left : List ℕ) : RoomState :=
  let rest := r.keep fun m => !left.contains m.sessionId
  if _ : rest.members.length < r.members.length then prune gone rest (rest.fanOut gone) else r
termination_by r.members.length
decreasing_by assumption

/-- Send to every member, and drop those that are found gone. -/
def broadcast (gone : List ℕ) (r : RoomState) : RoomState := r.prune gone (r.fanOut gone)

/-- Put a new member into the room. -/
def insert (r : RoomState) (m : Member) (h : ∀ m' ∈ r.members, m'.sessionId ≠ m.sessionId) :
    RoomState :=
  { r with members := r.members ++ [m], members_session := r.members_session.append h }

/-- Handle one command, when the channels `gone` are closed. -/
def handle (gone : List ℕ) (r : RoomState) : RoomCommand → Reply × RoomState
  | .join member =>
    if r.closed then (.result (.error .closed), r)
    else if h : ∃ m ∈ r.members, m.sessionId = member.sessionId then
      (.result (.error .alreadyJoined), r)
    else if member.class_ < r.minClassJoin then (.result (.error .classTooLow), r)
    else
      let joined := r.insert member fun m hm he => h ⟨m, hm, he⟩
      -- the fresh member list, then the join notice
      (.result (.ok ()), (joined.broadcast gone).broadcast gone)
  | .leave sessionId =>
    if (r.member sessionId).isSome then (.none, r.prune gone [sessionId]) else (.none, r)
  | .message sessionId =>
    match r.member sessionId with
    | none => (.none, r)
    | some member =>
      if r.interviewMode && !member.privileges.contains chatSetTopic then (.none, r)
      else (.none, r.broadcast gone)
  | .setTopic sessionId =>
    match r.member sessionId with
    | none => (.result (.error .notMember), r)
    | some member =>
      if !member.privileges.contains chatSetTopic then (.result (.error .noPrivilege), r)
      else (.result (.ok ()), r.broadcast gone)
  | .memberCount => (.count r.members.length, r)
  | .setFlags sessionId minClassJoin interviewMode =>
    match r.member sessionId with
    | none => (.result (.error .notMember), r)
    | some member =>
      let clamped := min minClassJoin 3
      if !member.privileges.contains chatSetTopic then (.result (.error .noPrivilege), r)
      else if r.name = defaultRoom && !member.privileges.contains serverAdmin then
        (.result (.error .noPrivilege), r)
      else if member.class_ < clamped then (.result (.error .aboveOwnClass), r)
      else
        let set := { r with minClassJoin := clamped, interviewMode := interviewMode }
        (.result (.ok ()), set.broadcast gone)
  | .getFlags => (.flags r.minClassJoin r.interviewMode, r)
  | .closeIfEmpty =>
    (.evicted r.members.isEmpty, { r with closed := r.closed || r.members.isEmpty })

/-! ### What a command does to the members -/

section Members

variable {gone : List ℕ} {r r' r'' : RoomState} {out : Member → Prop} {m : Member}

/-- Some members left the room and nothing else happened: those that are `out`, and
those whose channel is closed. -/
structure Thins (gone : List ℕ) (out : Member → Prop) (r r' : RoomState) : Prop where
  name : r'.name = r.name
  closed : r'.closed = r.closed
  subset : ∀ m ∈ r'.members, m ∈ r.members
  stays : ∀ m ∈ r.members, m ∈ r'.members ∨ out m ∨ m.tx ∈ gone

theorem Thins.refl (r : RoomState) : Thins gone out r r :=
  ⟨rfl, rfl, fun _ => id, fun _ => .inl⟩

theorem Thins.trans (h : Thins gone out r r') (h' : Thins gone out r' r'') :
    Thins gone out r r'' where
  name := h'.name.trans h.name
  closed := h'.closed.trans h.closed
  subset m hm := h.subset m (h'.subset m hm)
  stays m hm := (h.stays m hm).elim (h'.stays m) .inr

theorem Thins.mono {out' : Member → Prop} (h : Thins gone out r r') (hout : ∀ m, out m → out' m) :
    Thins gone out' r r' :=
  ⟨h.name, h.closed, h.subset, fun m hm => (h.stays m hm).imp_right (.imp_left (hout m))⟩

theorem thins_keep {p : Member → Bool} (hout : ∀ m ∈ r.members, p m = false → out m ∨ m.tx ∈ gone) :
    Thins gone out r (r.keep p) where
  name := rfl
  closed := rfl
  subset _ hm := List.mem_of_mem_filter hm
  stays m hm := by
    cases hp : p m with
    | true => exact .inl (List.mem_filter.mpr ⟨hm, hp⟩)
    | false => exact .inr (hout m hm hp)

/-- Who is found gone is a member whose channel is closed. -/
theorem mem_fanOut (hm : m ∈ r.members) (h : m.sessionId ∈ r.fanOut gone) : m.tx ∈ gone := by
  obtain ⟨m', hm', hid⟩ := List.mem_map.mp h
  obtain ⟨hmem, hgone⟩ := List.mem_filter.mp hm'
  rw [← r.members_session.eq hmem hm hid]
  exact of_decide_eq_true hgone

/-- **Pruning takes out the sessions it is given, and members found gone.** -/
theorem thins_prune (gone : List ℕ) (r : RoomState) (left : List ℕ) :
    Thins gone (fun m => m.sessionId ∈ left) r (r.prune gone left) := by
  induction r, left using prune.induct gone with
  | case1 r left rest hlt ih =>
    rw [prune, dif_pos hlt]
    have hfirst : Thins gone (fun m => m.sessionId ∈ left) r rest :=
      thins_keep fun m _ hp => .inl (by simpa using hp)
    -- the next rounds take out members found gone
    refine hfirst.trans ⟨ih.name, ih.closed, ih.subset, fun m hm => ?_⟩
    rcases ih.stays m hm with hstays | hfound | hgone
    · exact .inl hstays
    · exact .inr (.inr (mem_fanOut hm hfound))
    · exact .inr (.inr hgone)
  | case2 r left rest hlt =>
    rw [prune, dif_neg hlt]
    exact .refl r

/-- A broadcast takes out members found gone. -/
theorem thins_broadcast (r : RoomState) : Thins gone (fun _ => False) r (r.broadcast gone) := by
  have h := thins_prune gone r (r.fanOut gone)
  refine ⟨h.name, h.closed, h.subset, fun m hm => ?_⟩
  rcases h.stays m hm with hstays | hfound | hgone
  · exact .inl hstays
  · exact .inr (.inr (mem_fanOut hm hfound))
  · exact .inr (.inr hgone)

/-- **A join is answered with success exactly if it was let in**, into a room that is
not closed. -/
theorem handle_join (gone : List ℕ) (r : RoomState) (m : Member) :
    (∃ e, handle gone r (.join m) = (.result (.error e), r) ∧ (e = .closed → r.closed = true)) ∨
      r.closed = false ∧ ∃ h, (handle gone r (.join m)).1 = .result (.ok ()) ∧
        Thins gone (fun _ => False) (r.insert m h) (handle gone r (.join m)).2 := by
  simp only [handle]
  split
  case isTrue hclosed => exact .inl ⟨_, rfl, fun _ => hclosed⟩
  case isFalse hclosed =>
    split
    case isTrue => exact .inl ⟨_, rfl, fun h => nomatch h⟩
    case isFalse hfree =>
      split
      case isTrue => exact .inl ⟨_, rfl, fun h => nomatch h⟩
      case isFalse =>
        refine .inr ⟨by simpa using hclosed, fun m' hm' he => hfree ⟨m', hm', he⟩, rfl, ?_⟩
        exact (thins_broadcast _).trans (thins_broadcast _)

/-- **Every other command but the request to close takes members out at most**: the
one whose session leaves, and those found gone. -/
theorem handle_thins {c : RoomCommand} (hjoin : ∀ m, c ≠ .join m) (hclose : c ≠ .closeIfEmpty) :
    Thins gone (fun m => c = .leave m.sessionId) r (handle gone r c).2 := by
  have hbroadcast : ∀ r : RoomState, Thins gone (fun m => c = .leave m.sessionId) r (r.broadcast gone) :=
    fun r => (thins_broadcast r).mono fun _ => False.elim
  cases c with
  | join m => exact absurd rfl (hjoin m)
  | closeIfEmpty => exact absurd rfl hclose
  | leave sessionId =>
    simp only [handle]
    split
    · refine (thins_prune gone r [sessionId]).mono fun m hm => ?_
      rw [List.mem_singleton.mp hm]
    · exact .refl r
  | message sessionId =>
    simp only [handle]
    split
    · exact .refl r
    · split
      · exact .refl r
      · exact hbroadcast r
  | setTopic sessionId =>
    simp only [handle]
    split
    · exact .refl r
    · split
      · exact .refl r
      · exact hbroadcast r
  | memberCount => exact .refl r
  | getFlags => exact .refl r
  | setFlags sessionId minClassJoin interviewMode =>
    simp only [handle]
    split
    · exact .refl r
    · split
      · exact .refl r
      · split
        · exact .refl r
        · split
          · exact .refl r
          · -- the flags are no part of the membership
            have h := hbroadcast
              { r with minClassJoin := min minClassJoin 3, interviewMode := interviewMode }
            exact ⟨h.name, h.closed, h.subset, h.stays⟩

/-- No other command is answered as a join or a request to close is. -/
theorem handle_answer (gone : List ℕ) (r : RoomState) {c : RoomCommand} (hjoin : ∀ m, c ≠ .join m) (hclose : c ≠ .closeIfEmpty) :
    (handle gone r c).1 ≠ .result (.error .closed) ∧ (handle gone r c).1 ≠ .evicted true := by
  cases c with
  | join m => exact absurd rfl (hjoin m)
  | closeIfEmpty => exact absurd rfl hclose
  | leave | message | setTopic | memberCount | setFlags | getFlags =>
    simp only [handle]
    repeat' split
    all_goals exact ⟨nofun, nofun⟩

/-- **What handling a command can do:** let a member in, close the room if it is
empty, or at most take members out. -/
theorem handle_cases (gone : List ℕ) (r : RoomState) (c : RoomCommand) :
    (∃ m h, c = .join m ∧ r.closed = false ∧ (handle gone r c).1 = .result (.ok ()) ∧
        Thins gone (fun _ => False) (r.insert m h) (handle gone r c).2) ∨
      (c = .closeIfEmpty ∧ handle gone r c =
        (.evicted r.members.isEmpty, { r with closed := r.closed || r.members.isEmpty })) ∨
      (Thins gone (fun m => c = .leave m.sessionId) r (handle gone r c).2 ∧
        (∀ m, c = .join m → (handle gone r c).1 ≠ .result (.ok ())) ∧
        ((handle gone r c).1 = .result (.error .closed) → r.closed = true) ∧
        (handle gone r c).1 ≠ .evicted true) := by
  by_cases hjoin : ∃ m, c = .join m
  · obtain ⟨m, rfl⟩ := hjoin
    rcases handle_join gone r m with ⟨e, he, hclosed⟩ | ⟨hopen, hfree, hok, hthins⟩
    · rw [he]
      refine .inr (.inr ⟨.refl r, nofun, fun h => ?_, nofun⟩)
      cases h
      exact hclosed rfl
    · exact .inl ⟨m, hfree, rfl, hopen, hok, hthins⟩
  by_cases hclose : c = .closeIfEmpty
  · subst hclose
    exact .inr (.inl ⟨rfl, rfl⟩)
  · have hother : ∀ m, c ≠ .join m := fun m he => hjoin ⟨m, he⟩
    obtain ⟨hrefused, hevicted⟩ := handle_answer gone r hother hclose
    exact .inr (.inr ⟨handle_thins hother hclose, fun m he => absurd he (hother m),
      fun h => absurd h hrefused, hevicted⟩)

/-- No command renames a room. -/
theorem handle_name {c : RoomCommand} : (handle gone r c).2.name = r.name := by
  rcases handle_cases gone r c with ⟨m, h, -, -, -, hthins⟩ | ⟨-, hclose⟩ | ⟨hthins, -⟩
  · exact hthins.name
  · rw [hclose]
  · exact hthins.name

/-- A closed room stays closed. -/
theorem handle_closed {c : RoomCommand} (hclosed : r.closed = true) :
    (handle gone r c).2.closed = true := by
  rcases handle_cases gone r c with ⟨m, h, -, hopen, -⟩ | ⟨-, hclose⟩ | ⟨hthins, -⟩
  · rw [hopen] at hclosed
    cases hclosed
  · rw [hclose]
    exact Bool.or_eq_true_iff.mpr (.inl hclosed)
  · rw [hthins.closed, hclosed]

end Members

end RoomState

/-! ### The life of a room actor -/

/-- A room behind its command channel. -/
abbrev RoomActor := Mailbox RoomState RoomCommand Reply

namespace RoomActor

/-- A room that was just opened. -/
def spawn (name : String) : RoomActor := Mailbox.spawn (.new name)

/-- Take the next command off the channel and handle it. -/
def receive (gone : List ℕ) (a : RoomActor) : RoomActor := Mailbox.receive (RoomState.handle gone) a

section Life

variable {gone gone' : List ℕ} {a : RoomActor} {c : RoomCommand} {k : ℕ} {m : Member}

/-- The room has been told since that the member leaves. -/
def LeftSince (a : RoomActor) (k : ℕ) (m : Member) : Prop :=
  ∃ k' r, k < k' ∧ a.Handled k' (.leave m.sessionId) r

/-- What holds of a room actor all its life. -/
structure Sound (gone : List ℕ) (a : RoomActor) : Prop where
  emptied : a.state.closed = true → a.state.members = []
  asked : a.state.closed = true → .closeIfEmpty ∈ a.inbox
  refused : ∀ {k c}, a.Handled k c (.result (.error .closed)) → a.state.closed = true
  evicted : ∀ {k c}, a.Handled k c (.evicted true) → a.state.closed = true
  seated : ∀ {k m}, a.Handled k (.join m) (.result (.ok ())) →
    m ∈ a.state.members ∨ m.tx ∈ gone ∨ a.LeftSince k m

theorem sound_spawn (name : String) : Sound gone (spawn name) where
  emptied h := nomatch h
  asked h := nomatch h
  refused h := nomatch h.2
  evicted h := nomatch h.2
  seated h := nomatch h.2

/-- Channels only ever get closed. -/
theorem Sound.mono (h : a.Sound gone) (hsub : ∀ tx ∈ gone, tx ∈ gone') : a.Sound gone' :=
  ⟨h.emptied, h.asked, h.refused, h.evicted,
    fun hk => (h.seated hk).imp_right (.imp_left (hsub _))⟩

theorem LeftSince.extends {a' : RoomActor} (h : a.LeftSince k m) (hext : a.Extends a') :
    a'.LeftSince k m :=
  have ⟨k', r, hlt, hk'⟩ := h
  ⟨k', r, hlt, hk'.extends hext⟩

theorem Sound.send (h : a.Sound gone) (c : RoomCommand) : Sound gone (a.send c) where
  emptied := h.emptied
  asked hclosed := List.mem_append_left _ (h.asked hclosed)
  refused hk := h.refused (Mailbox.handled_send.mp hk)
  evicted hk := h.evicted (Mailbox.handled_send.mp hk)
  seated hk := (h.seated (Mailbox.handled_send.mp hk)).imp_right
    (.imp_right fun hleft => hleft.extends Mailbox.extends_send)

theorem receive_name : (a.receive gone).state.name = a.state.name := by
  unfold receive
  cases hnext : a.next with
  | none => rw [Mailbox.receive_of_none hnext]
  | some c =>
    rw [Mailbox.state_receive hnext]
    exact RoomState.handle_name

/-- A closed room stays closed. -/
theorem receive_closed (hclosed : a.state.closed = true) : (a.receive gone).state.closed = true := by
  unfold receive
  cases hnext : a.next with
  | none => rwa [Mailbox.receive_of_none hnext]
  | some c =>
    rw [Mailbox.state_receive hnext]
    exact RoomState.handle_closed hclosed

/-- **Handling a command keeps a room sound.** -/
theorem Sound.receive (h : a.Sound gone) : Sound gone (a.receive gone) := by
  have hext : a.Extends (a.receive gone) := Mailbox.extends_receive
  cases hnext : a.next with
  | none =>
    unfold RoomActor.receive
    rwa [Mailbox.receive_of_none hnext]
  | some c =>
    have hstate : (a.receive gone).state = (a.state.handle gone c).2 := Mailbox.state_receive hnext
    have hinbox : (a.receive gone).inbox = a.inbox := Mailbox.inbox_receive
    have hhandled : ∀ {k d r}, (a.receive gone).Handled k d r ↔
        a.Handled k d r ∨ (k = a.answers.length ∧ d = c ∧ r = (a.state.handle gone c).1) :=
      Mailbox.handled_receive hnext
    have hpast : ∀ {k m}, a.LeftSince k m → (a.receive gone).LeftSince k m :=
      fun hleft => hleft.extends hext
    rcases RoomState.handle_cases gone a.state c with
      ⟨m, hfree, rfl, hopen, hok, hthins⟩ | ⟨rfl, hclose⟩ | ⟨hthins, hnotok, hrefused, hevicted⟩
    · -- a member was let in
      have hstillopen : (a.receive gone).state.closed = false := by
        rw [hstate, hthins.closed]
        exact hopen
      refine ⟨fun hc => ?_, fun hc => ?_, fun hk => ?_, fun hk => ?_, fun {k m'} hk => ?_⟩
      · rw [hstillopen] at hc
        cases hc
      · rw [hstillopen] at hc
        cases hc
      · rcases hhandled.mp hk with hk | ⟨-, -, hr⟩
        · exact receive_closed (h.refused hk)
        · rw [hok] at hr
          cases hr
      · rcases hhandled.mp hk with hk | ⟨-, -, hr⟩
        · exact receive_closed (h.evicted hk)
        · rw [hok] at hr
          cases hr
      · have hstays : m' ∈ a.state.members ∨ m' = m →
            m' ∈ (a.receive gone).state.members ∨ m'.tx ∈ gone := by
          intro hm'
          rw [hstate]
          have hin : m' ∈ (a.state.insert m hfree).members :=
            List.mem_append.mpr (hm'.imp_right List.mem_singleton.mpr)
          exact (hthins.stays m' hin).imp_right (Or.resolve_left · id)
        rcases hhandled.mp hk with hk | ⟨-, hm', -⟩
        · rcases h.seated hk with hin | hgone | hleft
          · exact (hstays (.inl hin)).imp_right .inl
          · exact .inr (.inl hgone)
          · exact .inr (.inr (hpast hleft))
        · exact (hstays (.inr (RoomCommand.join.inj hm'))).imp_right .inl
    · -- the room was asked to close
      have hmembers : (a.receive gone).state.members = a.state.members := by rw [hstate, hclose]
      have hclosed : (a.receive gone).state.closed = (a.state.closed || a.state.members.isEmpty) := by
        rw [hstate, hclose]
      have hanswer : (a.state.handle gone .closeIfEmpty).1 = .evicted a.state.members.isEmpty := by
        rw [hclose]
      refine ⟨fun hc => ?_, fun _ => ?_, fun hk => ?_, fun hk => ?_, fun hk => ?_⟩
      · rw [hmembers]
        rw [hclosed, Bool.or_eq_true] at hc
        exact hc.elim h.emptied List.isEmpty_iff.mp
      · rw [hinbox]
        exact List.mem_of_getElem? hnext
      · rcases hhandled.mp hk with hk | ⟨-, -, hr⟩
        · exact receive_closed (h.refused hk)
        · rw [hanswer] at hr
          cases hr
      · rcases hhandled.mp hk with hk | ⟨-, -, hr⟩
        · exact receive_closed (h.evicted hk)
        · rw [hanswer] at hr
          rw [hclosed, ← Reply.evicted.inj hr, Bool.or_true]
      · rcases hhandled.mp hk with hk | ⟨-, hm, -⟩
        · rw [hmembers]
          exact (h.seated hk).imp_right (.imp_right hpast)
        · cases hm
    · -- members left at most
      have hclosed : (a.receive gone).state.closed = a.state.closed := by rw [hstate, hthins.closed]
      refine ⟨fun hc => ?_, fun hc => ?_, fun hk => ?_, fun hk => ?_, fun {k m} hk => ?_⟩
      · have hnobody := h.emptied (hclosed ▸ hc)
        refine List.eq_nil_iff_forall_not_mem.mpr fun m hm => ?_
        have hin := hthins.subset m (hstate ▸ hm)
        rw [hnobody] at hin
        cases hin
      · rw [hinbox]
        exact h.asked (hclosed ▸ hc)
      · rcases hhandled.mp hk with hk | ⟨-, -, hr⟩
        · exact receive_closed (h.refused hk)
        · exact receive_closed (hrefused hr.symm)
      · rcases hhandled.mp hk with hk | ⟨-, -, hr⟩
        · exact receive_closed (h.evicted hk)
        · exact absurd hr.symm hevicted
      · rcases hhandled.mp hk with hold | ⟨-, hm, hr⟩
        · rcases h.seated hold with hin | hgone | hleft
          · rcases hthins.stays m hin with hin | hleave | hgone
            · exact .inl (hstate ▸ hin)
            · -- it is the command just handled that takes the member out
              refine .inr (.inr ⟨a.answers.length, _, hold.lt, hhandled.mpr (.inr ⟨rfl, ?_, rfl⟩)⟩)
              exact hleave.symm
            · exact .inr (.inl hgone)
          · exact .inr (.inl hgone)
          · exact .inr (.inr (hpast hleft))
        -- no command of this kind answers that a member was let in
        · exact absurd hr.symm (hnotok m hm.symm)

end Life

end RoomActor

end Chat

end KdxHotline
