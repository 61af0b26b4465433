import Mathlib.Logic.Function.Iterate
import KdxHotline.Foundations.Table
import KdxHotline.Protocol.Header
import KdxHotline.Protocol.Messages.Chat

/-!
# The presence roster

Who is online is known to one actor, which takes its commands one by one
(`KdxHotline.Presence.Roster.handle`). Whoever joins, changes name or leaves is announced to every
session that is there. Sending never waits: a frame for a full queue is lost, and a queue that
turns out to be closed takes its session out of the roster, which is announced in its turn. These
announcements wait on a stack (`KdxHotline.Presence.Cascade`), and the last one found comes first.

What is outside the actor is a `KdxHotline.Presence.World`: the state of a queue at each attempt to
send, the clocks, and the order in which a round goes through the sessions. The roster keeps a log
of what was attempted, and of who left while who was there.
-/

namespace KdxHotline

namespace Presence

open Foundations Protocol

/-! ### Entries -/

/-- A session is a number drawn at random when it begins. -/
abbrev SessionId : Type := Vector UInt8 16

/-- What the roster knows of a session. -/
structure Entry where
  username : String
  class_ : UInt8
  loginAt : UInt64
  /-- An instant, in nanoseconds. -/
  lastActive : ℕ
  address : String
  name : String
  description : String
  /-- Whether this session may see the addresses of others. -/
  seesAddresses : Bool
  deriving DecidableEq

/-- An entry as it is sent. -/
def Entry.toWire (e : Entry) (now : ℕ) : PresenceEntry where
  username := e.username
  class_ := e.class_
  loginAt := e.loginAt
  idleSecs := UInt32.ofNat ((now - e.lastActive) / 10 ^ 9)
  address := e.address
  name := e.name
  description := e.description

/-- What a viewer who may not see addresses sees. -/
def redactAddress (entry : PresenceEntry) : PresenceEntry := { entry with address := "" }

/-- A frame that is ready to be written. -/
structure Outbound where
  packetType : PacketType
  flags : PacketFlags
  payload : List UInt8
  deriving DecidableEq

/-! ### The world outside -/

/-- What a session's queue has for a frame. -/
inductive QueueState
  | room
  | full
  | closed
  deriving DecidableEq

/-- What the actor finds, round by round. -/
structure World where
  /-- The order in which a round goes through the sessions. -/
  order : ℕ → List (SessionId × Entry) → List (SessionId × Entry)
  order_perm : ∀ round entries, (order round entries).Perm entries
  queue : ℕ → SessionId → QueueState
  /-- Does the session still listen to its kill signal? -/
  listens : ℕ → SessionId → Bool
  now : ℕ → ℕ
  unixNow : ℕ → UInt64

/-- Something sent to one session, and what came of it. -/
inductive Attempt
  /-- That another session came online, or changed, or went offline. -/
  | change (recipient subject : SessionId) (online : Bool) (outbound : Outbound) (queue : QueueState)
  | forward (recipient : SessionId) (outbound : Outbound) (queue : QueueState)
  | kill (recipient : SessionId) (reason : String) (heard : Bool)
  deriving DecidableEq

namespace Attempt

/-- The session that an attempt is for. -/
def recipient : Attempt → SessionId
  | change id .. | forward id .. | kill id .. => id

/-- Was the connection found to be gone? -/
def foundClosed : Attempt → Bool
  | change _ _ _ _ queue | forward _ _ queue => queue == .closed
  | kill _ _ heard => !heard

/-- Did it reach its session? -/
def reached : Attempt → Bool
  | change _ _ _ _ queue | forward _ _ queue => queue == .room
  | kill _ _ heard => heard

/-- The frame that was to be queued. -/
def frame : Attempt → Option Outbound
  | change _ _ _ outbound _ | forward _ outbound _ => some outbound
  | kill .. => none

/-- Does it announce a session, as online or as offline? -/
def announces (subject : SessionId) (online : Bool) : Attempt → Bool
  | change _ subject' online' _ _ => subject' == subject && online' == online
  | _ => false

/-- Does it announce a session to another one? -/
def announcesTo (recipient subject : SessionId) (online : Bool) (a : Attempt) : Bool :=
  a.recipient == recipient && a.announces subject online

end Attempt

/-- Who left the roster, and who was in it then. -/
structure Departure where
  session : SessionId
  present : List SessionId
  deriving DecidableEq

/-! ### The roster -/

/-- The sessions that are logged in, and what they were sent. -/
structure Roster where
  entries : List (SessionId × Entry)
  /-- The reason every later join is disconnected with. -/
  closing : Option String
  /-- How many rounds of attempts there were. -/
  rounds : ℕ
  /-- What was attempted so far. -/
  log : List Attempt
  /-- Who left so far. -/
  departed : List Departure
  entries_session : UniqueKey Prod.fst entries
  deriving DecidableEq

namespace Roster

/-- A roster nobody has joined yet. -/
def new : Roster where
  entries := []
  closing := none
  rounds := 0
  log := []
  departed := []
  entries_session := uniqueKey_nil _

/-- The sessions of the roster. -/
def ids (s : Roster) : List SessionId := s.entries.map Prod.fst

/-- The entry of a session. -/
def entry (s : Roster) (id : SessionId) : Option Entry :=
  (s.entries.find? fun e => e.1 == id).map Prod.snd

/-- Take a session out. -/
def remove (s : Roster) (id : SessionId) : Roster :=
  { s with
    entries := s.entries.filter fun e => e.1 != id
    entries_session := s.entries_session.filter _
    departed := s.departed ++ [⟨id, (s.entries.filter fun e => e.1 != id).map Prod.fst⟩] }

/-- Put a session in, over one of the same number. -/
def insert (s : Roster) (id : SessionId) (e : Entry) : Roster :=
  { s with
    entries := (s.entries.filter fun e => e.1 != id) ++ [(id, e)]
    entries_session := (s.entries_session.filter _).append fun _ he =>
      bne_iff_ne.mp (List.mem_filter.mp he).2 }

/-- Change the entry of a session. -/
def update (s : Roster) (id : SessionId) (f : Entry → Entry) : Roster :=
  { s with
    entries := setWhere (fun e => e.1 == id) (fun e => (e.1, f e.2)) s.entries
    entries_session := s.entries_session.setWhere_same fun _ => rfl }

/-- A round of attempts. -/
def record (s : Roster) (attempts : List Attempt) : Roster :=
  { s with rounds := s.rounds + 1, log := s.log ++ attempts }

end Roster

/-- Who was found to be gone in a round. -/
def deadOf (attempts : List Attempt) : List SessionId :=
  (attempts.filter Attempt.foundClosed).map Attempt.recipient

/-! ### Rounds -/

section Rounds

variable (w : World) (s : Roster)

/-- One attempt for each selected session, in the order of the round. -/
def attempts (select : SessionId → Entry → Bool) (attempt : SessionId → Entry → Attempt) :
    List Attempt :=
  ((w.order s.rounds s.entries).filter fun e => select e.1 e.2).map fun e => attempt e.1 e.2

/-- Send a frame to the chosen sessions. -/
def trySendWhere (outbound : Outbound) (select : Entry → Bool) : List Attempt :=
  attempts w s (fun _ e => select e) fun id _ => .forward id outbound (w.queue s.rounds id)

/-- `killWhere` with a selection that also sees the session. -/
def killWhereId (reason : String) (select : SessionId → Entry → Bool) : List Attempt :=
  attempts w s select fun id _ => .kill id reason (w.listens s.rounds id)

/-- Disconnect the chosen sessions. -/
def killWhere (reason : String) (select : Entry → Bool) : List Attempt :=
  attempts w s (fun _ e => select e) fun id _ => .kill id reason (w.listens s.rounds id)

end Rounds

/-! ### Announcements -/

/-- A change that is to be announced, and the session it is about. -/
structure Announcement where
  exclude : Option SessionId
  subject : SessionId
  change : PresenceChange
  deriving DecidableEq

/-- The announcements that wait, the one that was found last first. -/
structure Cascade where
  roster : Roster
  pending : List Announcement
  deriving DecidableEq

/-- The frame of a change. -/
def changeFrame (change : PresenceChange) : Outbound := ⟨.presenceChange, 0, change.encode⟩

/-- Send a change to every session but the excluded one, each in the version it may see. -/
def announcing (w : World) (s : Roster) (p : Announcement) : List Attempt :=
  let full := changeFrame p.change
  let redacted := changeFrame { p.change with entry := redactAddress p.change.entry }
  attempts w s (fun id _ => some id != p.exclude) fun id e =>
    .change id p.subject p.change.online (if e.seesAddresses then full else redacted)
      (w.queue s.rounds id)

namespace Cascade

/-- Take out a session that is gone, if it is still there, and let its announcement wait. -/
def bury (now : ℕ) (c : Cascade) (id : SessionId) : Cascade :=
  match c.roster.entry id with
  | none => c
  | some gone => ⟨c.roster.remove id, ⟨none, id, ⟨gone.toWire now, false⟩⟩ :: c.pending⟩

/-- One turn of the loop: the announcement on top is made, and who is found gone is taken out. -/
def turn (w : World) (c : Cascade) : Cascade :=
  match c.pending with
  | [] => c
  | p :: rest =>
    let tried := announcing w c.roster p
    let s := c.roster.record tried
    (deadOf tried).foldl (bury (w.now s.rounds)) ⟨s, rest⟩

/-- How many turns the loop takes at most. -/
def measure (c : Cascade) : ℕ := 2 * c.roster.entries.length + c.pending.length

/-- The loop, until nothing waits. -/
def run (w : World) (c : Cascade) : Cascade := (turn w)^[c.measure] c

end Cascade

/-- Tell everyone of a change, and of the leavings that follow. -/
def broadcast (w : World) (s : Roster) (p : Announcement) : Roster :=
  (Cascade.run w ⟨s, [p]⟩).roster

/-- Take out sessions and announce each; who is found gone meanwhile is announced too. -/
def removeAll (w : World) (s : Roster) (gone : List SessionId) : Roster :=
  gone.foldl (fun t id => ((Cascade.bury (w.now s.rounds) ⟨t, []⟩ id).run w).roster) s

/-! ### Commands -/

/-- What is asked of the roster. -/
inductive Command
  | join (session : SessionId) (username : String) (class_ : UInt8) (address : String)
      (seesAddresses : Bool)
  | leave (session : SessionId)
  /-- Reset a user's idle clock. -/
  | touch (session : SessionId)
  | setIdentity (session : SessionId) (name description : String)
  | list
  | get (username : String)
  /-- Push a frame to every connection of a user. -/
  | deliver (username : String) (outbound : Outbound)
  /-- Fire the kill signal of every connection of a user. -/
  | disconnect (username reason : String)
  | disconnectOthers (username : String) (except : SessionId) (reason : String)
  | broadcastAll (outbound : Outbound)
  /-- Fire every kill signal; whoever joins later is disconnected as they join. -/
  | disconnectAll (reason : String)
  deriving DecidableEq

/-- What a command is answered with. -/
inductive Reply
  | none
  | joined
  | roster (users : List PresenceEntry)
  | found (user : Option PresenceEntry)
  | reached (sessions : ℕ)
  deriving DecidableEq

/-- A round whose dead are removed, and how many it reached. -/
def fanOut (w : World) (s : Roster) (tried : List Attempt) : Roster × Reply :=
  (removeAll w (s.record tried) (deadOf tried), .reached (tried.countP Attempt.reached))

/-- What a command does. -/
def Roster.handle (w : World) (s : Roster) : Command → Roster × Reply
  | .join session username class_ address seesAddresses =>
    let now := w.now s.rounds
    let entry : Entry := ⟨username, class_, w.unixNow s.rounds, now, address, "", "", seesAddresses⟩
    -- who joins while the server closes is told to go at once
    let fired := s.closing.toList.map fun reason => Attempt.kill session reason true
    let s := (s.record fired).insert session entry
    (broadcast w s ⟨some session, session, ⟨entry.toWire now, true⟩⟩, .joined)
  | .leave session => (removeAll w s [session], .none)
  | .touch session => (s.update session fun e => { e with lastActive := w.now s.rounds }, .none)
  | .setIdentity session name description =>
    match s.entry session with
    | .none => (s, .none)
    | .some entry =>
      let entry := { entry with name, description }
      let s := s.update session fun _ => entry
      (broadcast w s ⟨.none, session, ⟨entry.toWire (w.now s.rounds), true⟩⟩, .none)
  | .list =>
    let users := (w.order s.rounds s.entries).map fun e => e.2.toWire (w.now s.rounds)
    (s, .roster (users.mergeSort fun a b => decide (a.username ≤ b.username)))
  | .get username =>
    let found := (w.order s.rounds s.entries).find? fun e => e.2.username == username
    (s, .found (found.map fun e => e.2.toWire (w.now s.rounds)))
  | .deliver username outbound =>
    fanOut w s (trySendWhere w s outbound fun e => e.username == username)
  | .disconnect username reason =>
    fanOut w s (killWhere w s reason fun e => e.username == username)
  | .disconnectOthers username except reason =>
    fanOut w s (killWhereId w s reason fun id e => id != except && e.username == username)
  | .broadcastAll outbound => fanOut w s (trySendWhere w s outbound fun _ => true)
  | .disconnectAll reason =>
    let tried := killWhere w s reason fun _ => true
    fanOut w { s with closing := some reason } tried

/-- The roster after some commands. -/
def Roster.run (w : World) (commands : List Command) : Roster :=
  commands.foldl (fun s command => (s.handle w command).1) .new

end Presence

end KdxHotline
