import KdxHotline.Auth.Limiter
import KdxHotline.Auth.Passwords
import KdxHotline.Foundations.Lockstep

/-!
# The login prompt

A connection that is not logged in may ask for challenges and answer them. Each request is
put to the limiter first, and each failure is counted there, against the peer's address and
against the pair of it and the username; a connection has a few attempts and then is
closed (`KdxHotline.Auth.authenticate`).

Every step that concerns the limiter has the source in its label, and every proof that is
evaluated is noted with its source and the time (`KdxHotline.Auth.Door.judged`).
-/

namespace KdxHotline

namespace Auth

open Foundations Storage Crypto Limits

/-- Failed attempts before a connection is closed. -/
def maxAuthAttempts : ℕ := 3

/-- Why a connection ends. -/
inductive ConnectionError
  | peerClosed
  | unexpectedPacket
  | tooManyAuthAttempts
  | auth (e : LoginError)
  deriving DecidableEq

/-! ### What is said -/

/-- What the rest of the server says when a proof checks out: the time for bans, whether the
server is full for this session, and its greeting. -/
structure Circumstances where
  now : ℤ
  full : Bool
  greeting : String

/-- What a peer sends. What the server draws for a request comes with it. -/
inductive AuthFrame
  | ping (payload : List UInt8)
  | disconnect
  | request (username : String) (candidate challenge : Vector UInt8 32)
  | response (proof : Vector UInt8 32) (circumstances : Circumstances)
  /-- A packet of another type, or one that does not parse. -/
  | other

/-- What a peer is sent. -/
inductive Answer
  | pong (payload : List UInt8)
  | challenge (data : ChallengeData)
  | refused (message : String)
  | welcome (session : Session) (serverSignature : Vector UInt8 32)
  | info (greeting : String)
  deriving DecidableEq

/-- What a banned account is told. -/
def banMessage (until_ : ℤ) (reason : String) : String :=
  let reason := truncateUtf8 reason maxReasonLen
  if reason.isEmpty then "banned until " ++ toString until_
  else "banned until " ++ toString until_ ++ ": " ++ reason

/-- What a source that is blocked is told. -/
def waitMessage (wait : ℕ) : String :=
  "too many failed login attempts; try again in " ++ (max (wait / second) 1).repr ++ "s"

/-! ### The server and its connections -/

/-- What the connections share while they log in. -/
structure Door where
  auth : AuthManager
  limiter : LoginLimiter
  /-- The time, in nanoseconds. -/
  now : ℕ
  /-- The proofs that were evaluated, oldest first: for which source, and when. -/
  judged : List (Source × ℕ)

/-- What a connection has said, and the challenges it has given out. -/
structure Visit where
  dialogue : Dialogue
  sent : List Answer
  challenged : List PendingAuth
  deriving DecidableEq

/-- A connection on which nothing was said. -/
def Visit.fresh : Visit := ⟨.fresh, [], []⟩

/-- The accounts behind the door. -/
def authField : Focus Door AuthManager := ⟨Door.auth, fun auth s => { s with auth }, fun _ _ => rfl⟩

/-- The dialogue of a connection. -/
def dialogueField : Focus Visit Dialogue :=
  ⟨Visit.dialogue, fun dialogue v => { v with dialogue }, fun _ _ => rfl⟩

/-- What a step is. -/
inductive LoginStep
  | manager (step : AuthStep)
  | check (source : Source)
  | send
  | judge (source : Source) (pending : PendingAuth) (proof : Vector UInt8 32)
  | fail (source : Source)
  | succeed (source : Source)
  | tick
  | replace (accountId : String) (credential : StoredCredential)

/-- A connection's part, up to the session. -/
abbrev LoginCall (α : Type) : Type 1 := Prog Door Visit LoginStep ConnectionError α

section Calls

variable {α : Type}

/-- Send an answer to the client. -/
def send (answer : Answer) : LoginCall Unit :=
  .step .send (fun s => ((), s.1, { s.2 with sent := s.2.sent ++ [answer] })) .done

/-- Send a challenge, and keep what it is pinned to. -/
def sendChallenge (data : ChallengeData) (pending : PendingAuth) : LoginCall Unit :=
  .step .send (fun s => ((), s.1, { s.2 with
    sent := s.2.sent ++ [.challenge data]
    challenged := s.2.challenged ++ [pending] })) .done

/-- Ask the limiter about a source, which may be told to wait. -/
def checkLimiter (source : Source) : LoginCall (Except ℕ Unit) :=
  .step (.check source) (fun s => (s.1.limiter.check s.1.now source, s)) .done

/-- Count a failure of a source. -/
def recordFailure (source : Source) : LoginCall Unit :=
  .step (.fail source) (fun s =>
    ((), { s.1 with limiter := s.1.limiter.recordFailure s.1.now source }, s.2)) .done

/-- Clear the failures of a source. -/
def recordSuccess (source : Source) : LoginCall Unit :=
  .step (.succeed source) (fun s =>
    ((), { s.1 with limiter := s.1.limiter.recordSuccess source }, s.2)) .done

/-- A proof is about to be evaluated. -/
def judge (source : Source) (pending : PendingAuth) (proof : Vector UInt8 32) : LoginCall Unit :=
  .step (.judge source pending proof) (fun s =>
    ((), { s.1 with judged := s.1.judged ++ [(source, s.1.now)] }, s.2)) .done

/-- A call of the account manager. -/
def managing (x : AuthCall α) : LoginCall (Except LoginError α) :=
  (x.lift authField dialogueField .manager : Prog Door Visit LoginStep LoginError α).attempt

/-- Refuse an attempt, which is one more of the connection's failures. -/
def refuse (failures : ℕ) (message : String) : LoginCall ℕ := do
  send (.refused message)
  if maxAuthAttempts ≤ failures + 1 then .fail .tooManyAuthAttempts else return failures + 1

/-- Why a request is refused straight away, if it is. -/
def refusal (ip : IpAddr) (username : String) : LoginCall (Option String) := do
  let source := Source.of ip (truncateUtf8 username maxUsernameLen)
  match ← checkLimiter source with
  | .error wait => return some (waitMessage wait)
  | .ok () =>
    if maxUsernameLen < username.utf8ByteSize then
      recordFailure source
      return some "invalid credentials"
    else return none

variable (P : Primitives)

/-- Evaluate the response to a challenge. Returns the failures so far, or nothing if the login
went through. -/
def respond (ip : IpAddr) (pending : PendingAuth) (proof : Vector UInt8 32) (failures : ℕ)
    (circumstances : Circumstances) : LoginCall (Option ℕ) := do
  let source := Source.of ip pending.username
  judge source pending proof
  match ← managing (complete P circumstances.now pending proof) with
  | .ok verified =>
    if circumstances.full then
      -- the proof was right, so the limiter counts no failure
      let failures ← refuse failures "server is full"
      return some failures
    else
      send (.welcome verified.session verified.serverSignature)
      if circumstances.greeting.isEmpty then pure () else send (.info circumstances.greeting)
      recordSuccess source
      return none
  | .error .invalidCredentials =>
    recordFailure source
    let failures ← refuse failures "invalid credentials"
    return some failures
  | .error (.banned until_ reason) =>
    recordFailure source
    let failures ← refuse failures (banMessage until_ reason)
    return some failures
  | .error e => .fail (.auth e)

/-- The login phase of a connection. Returns whether a session is established. -/
def authenticate (ip : IpAddr) (channelBinding : Vector UInt8 32) :
    ℕ → List AuthFrame → LoginCall Bool
  | _, [] => .fail .peerClosed
  | failures, .ping payload :: frames => do
    send (.pong payload)
    authenticate ip channelBinding failures frames
  | _, .disconnect :: _ => return false
  | failures, .request username candidate challenge :: frames => do
    match ← refusal ip username with
    | some message =>
      let failures ← refuse failures message
      authenticate ip channelBinding failures frames
    | none =>
      let begun ← managing (begin P candidate challenge channelBinding username)
      let (data, pending) ← .ofExcept (begun.mapError .auth)
      sendChallenge data pending
      -- the very next packet must be the response
      match frames with
      | .response proof circumstances :: frames =>
        match ← respond P ip pending proof failures circumstances with
        | some failures => authenticate ip channelBinding failures frames
        | none => return true
      | [] => .fail .peerClosed
      | _ :: _ => .fail .unexpectedPacket
  | _, .response .. :: _ => .fail .unexpectedPacket
  | _, .other :: _ => .fail .unexpectedPacket

/-- What may be going on at the door: a connection with all that its peer sends, the passage
of time, and the replacement of an account's credential. -/
inductive LoginRequest
  | connection (ip : IpAddr) (channelBinding : Vector UInt8 32) (frames : List AuthFrame)
  | tick (elapsed : ℕ)
  | replace (accountId : String) (credential : StoredCredential)

/-- What a request does: a connection, the passing of time, or a new credential. -/
def serveLogin : LoginRequest → LoginCall Unit
  | .connection ip channelBinding frames => do
    let _ ← authenticate P ip channelBinding 0 frames
  | .tick elapsed => .step .tick (fun s => ((), { s.1 with now := s.1.now + elapsed }, s.2)) .done
  | .replace accountId credential => do
    let _ ← ((setCredential accountId credential).lift authField dialogueField
      fun _ => .replace accountId credential : Prog Door Visit LoginStep LoginError Bool).attempt

end Calls

/-- The door, and every connection with how far it has come. -/
abbrev LoginServer : Type 1 := Tasks Door Visit LoginStep ConnectionError

/-- Take a turn. -/
def LoginServer.Takes (P : Primitives) (c : LoginServer) (turn : Turn LoginRequest)
    (c' : LoginServer) : Prop := Tasks.take (serveLogin P) .fresh c turn = some c'

end Auth

end KdxHotline
