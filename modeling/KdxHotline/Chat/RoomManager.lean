import KdxHotline.Chat.Room
import KdxHotline.Foundations.Tasks
import KdxHotline.Limits

/-!
# The directory of rooms

Rooms are created on demand and dropped once their last member has left; the lobby
always exists. The directory maps a name to the command sender of a room actor, and
every access to it is one atomic step, as is every command that an actor handles.
Between two steps of a call any other task may run, so the calls are written as
programs of steps (`Foundations.Prog`).

An actor is told by its number, the number of actors spawned before it; a oneshot
reply channel by the place of the command that carries it. A call that sends waits
until the command channel has room, and one that awaits a reply until it is there
(`KdxHotline.Chat.allowed`). How many rooms `len` counts is up to the request, since
it counts them shard by shard while others come and go.
-/

namespace KdxHotline

namespace Chat

open Foundations Auth

open Privileges Limits

/-- Name prefix reserved for invite-only private rooms. -/
def privateRoomPrefix : String := "priv-"

/-- How often `join` retries after losing a race with an eviction. -/
def joinAttempts : ℕ := 3

/-- Why a member is not let into a room. -/
inductive JoinError
  | invalidName
  | cannotCreate
  | notInvited
  | tooManyRooms
  | room (e : RoomError)
  | unavailable
  deriving DecidableEq, Repr

/-- A room's manager-side entry: its command sender, and for a private room, who may
join it. -/
structure RoomEntry where
  tx : ℕ
  /-- Invite-only: only usernames in `invited` may join. -/
  isPrivate : Bool
  invited : List String
  deriving DecidableEq, Repr

/-- The directory, and every actor that was ever spawned. -/
structure RoomManager where
  rooms : String → Option RoomEntry
  actors : List RoomActor
  /-- The connections whose outbound channel is closed. -/
  gone : List ℕ

/-- A name has to be there, and within its bound. -/
def checkName (room : String) : Except JoinError Unit :=
  refuseIf (room.isEmpty || decide (maxNameLen < room.utf8ByteSize)) .invalidName

/-! ### The atomic steps -/

namespace RoomManager

/-- A fresh server: the lobby. -/
def new : RoomManager where
  rooms := Function.update (fun _ => none) defaultRoom (some ⟨0, false, []⟩)
  actors := [RoomActor.spawn defaultRoom]
  gone := []

/-- Look up a name for `username`: the sender, and whether they may join. -/
def existing (room username : String) (s : RoomManager) : Option (ℕ × Bool) :=
  (s.rooms room).map fun e => (e.tx, !e.isPrivate || e.invited.contains username)

/-- Add a username to an invite list. -/
def addInvitee (e : RoomEntry) : Option String → RoomEntry
  | some name => { e with invited := name :: e.invited }
  | none => e

/-- The room's sender, spawning the room if the name is free, and noting the
invitee. -/
def entry (room : String) (isPrivate : Bool) (invitee : Option String) (s : RoomManager) :
    ℕ × RoomManager :=
  match s.rooms room with
  | some e => (e.tx, { s with rooms := Function.update s.rooms room (some (addInvitee e invitee)) })
  | none =>
    let e : RoomEntry := ⟨s.actors.length, isPrivate, []⟩
    (e.tx, { s with
      rooms := Function.update s.rooms room (some (addInvitee e invitee))
      actors := s.actors ++ [RoomActor.spawn room] })

/-- Allow `username` into the private room of that name, if there is one. -/
def invite (room username : String) (s : RoomManager) : Bool × RoomManager :=
  match s.rooms room with
  | some e =>
    if e.isPrivate then
      (true, { s with rooms := Function.update s.rooms room (some (addInvitee e (some username))) })
    else (false, s)
  | none => (false, s)

/-- Drop `room` from the directory if it is still the instance behind `tx`. -/
def forget (room : String) (tx : ℕ) (s : RoomManager) : RoomManager :=
  if (s.rooms room).map RoomEntry.tx = some tx then
    { s with rooms := Function.update s.rooms room none }
  else s

/-- Put a command on an actor's channel: the place it got. -/
def send (tx : ℕ) (c : RoomCommand) (s : RoomManager) : ℕ × RoomManager :=
  ((s.actors[tx]?.map fun a => a.inbox.length).getD 0,
    { s with actors := s.actors.modify tx fun a => a.send c })

/-- The reply to the command of a place, once it is there. -/
def reply (tx place : ℕ) (s : RoomManager) : Option Reply :=
  s.actors[tx]?.bind fun a => a.answers[place]?

/-- An actor handles its next command. -/
def receive (tx : ℕ) (s : RoomManager) : RoomManager :=
  { s with actors := s.actors.modify tx fun a => a.receive s.gone }

/-- A connection goes away, and with it its outbound channel. -/
def disconnect (tx : ℕ) (s : RoomManager) : RoomManager := { s with gone := tx :: s.gone }

end RoomManager

/-! ### The calls -/

/-- What a step does, as far as waiting for it goes. -/
inductive Label
  /-- An access to the directory. -/
  | directory
  /-- A send on an actor's command channel. -/
  | send (tx : ℕ) (c : RoomCommand)
  /-- Waiting for the reply to the command of a place. -/
  | reply (tx place : ℕ)
  /-- The call returns. -/
  | return_
  /-- An actor takes a command. -/
  | receive (tx : ℕ)
  /-- A connection that has joined sends a command. -/
  | post (tx : ℕ) (c : RoomCommand)
  | disconnect (tx : ℕ)
  deriving DecidableEq, Repr

/-- A channel has room for another command. -/
def hasRoom (tx : ℕ) (s : RoomManager) : Bool :=
  s.actors[tx]?.all fun a => a.waiting < roomQueue

/-- Whether a step can be taken now, or has to wait. -/
def allowed : Label → RoomManager → Bool
  | .send tx _, s => hasRoom tx s
  | .reply tx place, s => (s.reply tx place).isSome
  | .post tx c, s => c.fromMember && hasRoom tx s
  | .directory, _ | .return_, _ | .receive _, _ | .disconnect _, _ => true

/-- What a join that was successful returned: the sender of the room joined. -/
structure Joined where
  room : String
  member : Member
  tx : ℕ
  deriving DecidableEq, Repr

/-- A call: between its steps others may run. What it has to itself is what it
returned, if it was a join that has succeeded. -/
abbrev Call := Prog RoomManager (Option Joined) Label JoinError

variable {α : Type}

/-- One step on the shared state. -/
def access (label : Label) (f : RoomManager → α × RoomManager) : Call α :=
  .step label (fun s => ((f s.1).1, (f s.1).2, s.2)) .done

/-- The room's sender, creating the room if it doesn't exist. `count` is how many
rooms `len` finds. -/
def create (count : ℕ) (room : String) (isPrivate : Bool) (invitee : Option String) : Call ℕ := do
  let present ← access .directory fun s => ((s.rooms room).isSome, s)
  if !present && decide (maxRooms ≤ count) then .fail .tooManyRooms
  else access .directory (RoomManager.entry room isPrivate invitee)

/-- Ask the actor behind `tx` to let the member in. -/
def doJoin (tx : ℕ) (member : Member) : Call Unit := do
  let place ← access (.send tx (.join member)) (RoomManager.send tx (.join member))
  match ← access (.reply tx place) fun s => (s.reply tx place, s) with
  | some (.result (.ok ())) => pure ()
  | some (.result (.error e)) => .fail (.room e)
  | _ => .fail .unavailable

/-- Take a room out of the directory, if it is still the one at that address. -/
def forget (room : String) (tx : ℕ) : Call Unit :=
  access .directory fun s => ((), s.forget room tx)

/-- Try to join through the sender that `find` comes to, again while the room it leads
to turns out to be closed. -/
def attempts (find : ℕ → Call ℕ) (room : String) (member : Member) : ℕ → Call ℕ
  | 0 => .fail .unavailable
  | n + 1 => do
    let tx ← find n
    match ← (doJoin tx member).attempt with
    | .error (.room .closed) => do
      forget room tx
      attempts find room member n
    | .ok () => pure tx
    | .error e => .fail e

/-- Find a room to join, creating it (as a public room) if allowed. -/
def findPublic (count : ℕ) (room : String) (member : Member) : Call ℕ := do
  match ← access .directory fun s => (s.existing room member.username, s) with
  | some (_, false) => .fail .notInvited
  | some (tx, true) => pure tx
  | none =>
    if privateRoomPrefix.toList.isPrefixOf room.toList then .fail .notInvited
    else if !member.privileges.contains chatCreateRoom then .fail .cannotCreate
    else create count room false none

/-- Join `member` to `room`, creating it (as a public room) if allowed. -/
def join (counts : ℕ → ℕ) (room : String) (member : Member) : Call ℕ := do
  Prog.ofExcept (checkName room)
  attempts (fun n => findPublic (counts n) room member) room member joinAttempts

/-- Create (if missing) and join a private, invite-only room. -/
def joinPrivate (counts : ℕ → ℕ) (room : String) (member : Member) : Call ℕ := do
  Prog.ofExcept (checkName room)
  attempts (fun n => create (counts n) room true (some member.username)) room member joinAttempts

/-- Leave `room`. If this emptied a room other than the lobby, the room is closed and
dropped. -/
def leave (room : String) (sessionId : ℕ) : Call Unit := do
  match ← access .directory fun s => ((s.rooms room).map RoomEntry.tx, s) with
  | none => pure ()
  | some tx =>
    let _ ← access (.send tx (.leave sessionId)) (RoomManager.send tx (.leave sessionId))
    if room = defaultRoom then pure ()
    else do
      let place ← access (.send tx .closeIfEmpty) (RoomManager.send tx .closeIfEmpty)
      match ← access (.reply tx place) fun s => (s.reply tx place, s) with
      | some (.evicted true) => forget room tx
      | _ => pure ()

/-! ### Everything that can happen -/

/-- What starts a task: a call, a room actor that takes a command, a connection that
sends one or goes away. A join brings what its attempts will count. -/
inductive Request
  | join (counts : ℕ → ℕ) (room : String) (member : Member)
  | joinPrivate (counts : ℕ → ℕ) (room : String) (member : Member)
  | invite (room username : String)
  | leave (room : String) (sessionId : ℕ)
  | receive (tx : ℕ)
  | post (tx : ℕ) (c : RoomCommand)
  | disconnect (tx : ℕ)

/-- A join that succeeded returns. -/
def returnJoined (j : Joined) : Call Unit := .step .return_ (fun s => ((), s.1, some j)) .done

/-- What a request does. -/
def serve : Request → Call Unit
  | .join counts room member => do
    let tx ← join counts room member
    returnJoined ⟨room, member, tx⟩
  | .joinPrivate counts room member => do
    let tx ← joinPrivate counts room member
    returnJoined ⟨room, member, tx⟩
  | .invite room username => do
    let _ ← access .directory (RoomManager.invite room username)
  | .leave room sessionId => leave room sessionId
  | .receive tx => access (.receive tx) fun s => ((), s.receive tx)
  | .post tx c => do
    let _ ← access (.post tx c) (RoomManager.send tx c)
  | .disconnect tx => access (.disconnect tx) fun s => ((), s.disconnect tx)

/-- The rooms and the calls that are under way. -/
abbrev ChatServer := Tasks RoomManager (Option Joined) Label JoinError

namespace ChatServer

/-- A server that has just started. -/
def start : ChatServer := ⟨.new, []⟩

/-- Whether the step that is next need not wait. -/
def ready (c : ChatServer) : Turn Request → Bool
  | .start _ => true
  | .step i =>
    match c.tasks[i]? with
    | some (_, .step label _ _) => allowed label c.shared
    | _ => true

/-- Take a turn, if it can be taken now. -/
def step (c : ChatServer) (turn : Turn Request) : Option ChatServer :=
  if c.ready turn then c.take serve none turn else none

/-- The turns, taken in this order, may lead from the start to `c`. -/
def Reaches (turns : List (Turn Request)) (c : ChatServer) : Prop :=
  Run (fun c turn c' => c.step turn = some c') start turns c

/-- What the task of this number has returned, if it is a join that has succeeded. -/
def returned (c : ChatServer) (i : ℕ) : Option Joined := c.tasks[i]?.bind Prod.fst

end ChatServer

end Chat

end KdxHotline
