import KdxHotline.Crypto.Proof
import KdxHotline.Foundations.WriteLog
import KdxHotline.Protocol.Messages.Account
import KdxHotline.Protocol.Oversized

/-!
# Logging in to a server that has to prove itself

The client answers the challenge of a login once, and believes the server's success only if
its signature is the one that the proof made it expect
(`KdxHotline.Client.LoginActor.onAuthResult`). Whatever frames the server sends, and whenever
they come, a login that succeeds was answered by a server that knows the account's keys, on
this very connection (`KdxHotline.Client.logs_in_only_if_proved`).

The connection writes down what it was asked and what it did, in order
(`KdxHotline.Client.Happening`); the theorem is about this log.
-/

namespace KdxHotline

namespace Client

open Foundations Crypto Protocol

/-! ### A login in flight -/

/-- Why a request of the application failed, or the connection did. -/
inductive ClientError
  | io
  | framing (e : ProtocolError)
  | protocol (e : ReadError ProtocolError)
  | authFailed (message : String)
  | disconnected
  | invalidInput (message : String)
  /-- The failure of a frame that has nothing to do with a login. -/
  | otherFrame

/-- A session, as the server describes it. -/
structure ClientSession where
  sessionId : Vector UInt8 16
  class_ : UInt8
  privileges : UInt32

/-- The session that a result opens. -/
def sessionOf (result : AuthResult) : ClientSession :=
  ⟨result.sessionId, result.class_, result.privileges⟩

/-- What a login waits for. -/
inductive LoginPhase
  | awaitingChallenge
  | awaitingResult
  deriving DecidableEq

/-- A login in flight: which step it waits for and who to answer. -/
structure PendingLogin where
  username : String
  /-- Taken as soon as the proof is computed. -/
  password : Option String
  /-- Kept to check the server's signature. -/
  proof : Option ClientProof
  phase : LoginPhase
  /-- The number of the request to answer. -/
  reply : ℕ

/-- What the connection was asked and what it did; the requests to log in are numbered. -/
inductive Happening
  /-- A login was begun. -/
  | began (reply : ℕ) (username password : String)
  /-- The login's challenge was answered. -/
  | responded (reply : ℕ) (challenge : AuthChallenge) (response : Vector UInt8 32)
  /-- A result came for the login in flight. -/
  | result (result : AuthResult)
  | answered (reply : ℕ) (answer : Except ClientError ClientSession)

namespace Happening

/-- The request it is about, if it is about one. -/
def about : Happening → Option ℕ
  | began reply .. | responded reply .. | answered reply _ => some reply
  | result _ => none

/-- Is it an answer to a challenge of this login? -/
def isResponse (reply : ℕ) : Happening → Bool
  | responded reply' .. => reply' = reply
  | _ => false

/-- Is it a login that succeeded? -/
def isSuccess : Happening → Bool
  | answered _ (.ok _) => true
  | _ => false

end Happening

/-- The part of a connection that a login is about. -/
structure LoginActor where
  login : Option PendingLogin
  authenticated : Bool
  username : Option String
  channelBinding : Vector UInt8 32
  reassembler : Reassembler
  /-- How many requests to log in there were. -/
  logins : ℕ
  /-- Does the connection go on? -/
  isOpen : Bool
  log : List Happening

namespace LoginActor

/-- A client that has just connected. -/
def fresh (channelBinding : Vector UInt8 32) : LoginActor :=
  ⟨none, false, none, channelBinding, .default, 0, true, []⟩

/-- The fragments that have arrived. -/
def reassemblerField : Focus LoginActor Reassembler :=
  ⟨LoginActor.reassembler, fun r actor => { actor with reassembler := r }, fun _ _ => rfl⟩

/-- Set the login that is under way. -/
def setLogin (login : Option PendingLogin) (actor : LoginActor) : LoginActor := { actor with login }

/-- Note what happened. -/
def note (happening : Happening) (actor : LoginActor) : LoginActor :=
  { actor with log := actor.log ++ [happening] }

/-- Give a request its number. -/
def number (actor : LoginActor) : LoginActor := { actor with logins := actor.logins + 1 }

/-- Log in as a user. -/
def setAuthenticated (username : String) (actor : LoginActor) : LoginActor :=
  { actor with authenticated := true, username := some username }

/-- Write to the socket, which may fail. -/
def write (written : Bool) : Fallible LoginActor ClientError Unit :=
  check (if written then .ok () else .error .io)

/-- A request to log in. -/
def requestLogin (username password : String) (written : Bool) :
    Fallible LoginActor ClientError Unit := do
  let actor ← get
  modify number
  if actor.login.isSome then
    modify (note (.answered actor.logins (.error (.authFailed "login already in progress"))))
  else if actor.authenticated then
    modify (note (.answered actor.logins (.error (.invalidInput "already logged in"))))
  else if maxRequestPayload .authRequest < (AuthRequest.payload.encode ⟨username⟩).length then
    -- only this request fails
    return ()
  else do
    write written
    modify (note (.began actor.logins username password))
    modify (setLogin (some ⟨username, some password, none, .awaitingChallenge, actor.logins⟩))

/-- End the login in flight. -/
def failLogin (message : String) : Fallible LoginActor ClientError Unit := do
  let actor ← get
  match actor.login with
  | none => return ()
  | some login =>
    modify (setLogin none)
    modify (note (.answered login.reply (.error (.authFailed message))))

theorem words_of_challenge (challenge : AuthChallenge) : KdfParams.Words
    ⟨challenge.mCost.toNat, challenge.tCost.toNat, challenge.pCost.toNat⟩ :=
  ⟨challenge.mCost.toNat_lt, challenge.tCost.toNat_lt, challenge.pCost.toNat_lt⟩

/-- What the answer to a challenge is bound to. -/
def contextOf (username : String) (channelBinding : Vector UInt8 32) (challenge : AuthChallenge) :
    AuthContext where
  username
  challenge := challenge.challenge
  salt := challenge.salt
  params := ⟨challenge.mCost.toNat, challenge.tCost.toNat, challenge.pCost.toNat⟩
  channelBinding
  params_words := words_of_challenge challenge

section Handlers

variable (P : Primitives) (argon2 : Argon2)

/-- A challenge; the proof is computed on another thread, which may not come back. -/
def onAuthChallenge (payload : List UInt8) (joined written : Bool) :
    Fallible LoginActor ClientError Unit := do
  let actor ← get
  match actor.login with
  | none => return ()
  | some login =>
    if login.phase ≠ .awaitingChallenge then return ()
    else do
      let challenge ← check ((outcome AuthChallenge.decode payload).mapError .protocol)
      match login.password with
      | none => return ()
      | some password =>
        -- the password is taken out first, so a second challenge finds none
        modify (setLogin (some { login with password := none }))
        if joined then
          match clientProof P argon2 password
            (contextOf login.username actor.channelBinding challenge) with
          | .ok proof => do
            modify (setLogin (some
              { login with password := none, proof := some proof, phase := .awaitingResult }))
            modify (note (.responded login.reply challenge proof.proof))
            write written
          | .error e => failLogin e.toString
        else failLogin "login computation failed"

/-- The outcome of a login. A success counts only after our proof, and only with the signature
that the proof expects; a server that cannot make it is dropped. -/
def onAuthResult (payload : List UInt8) : Fallible LoginActor ClientError Unit := do
  let actor ← get
  match actor.login with
  | none => return ()
  | some login =>
    -- the login is over even if the result does not decode
    modify (setLogin none)
    let result ← check ((outcome AuthResult.decode payload).mapError .protocol)
    modify (note (.result result))
    if !result.success then
      modify (note (.answered login.reply (.error (.authFailed result.message))))
    else
      let verified := decide (login.phase = .awaitingResult) &&
        login.proof.any fun p => p.verifyServerSignature result.serverSignature
      if !verified then do
        let message := "server failed to prove it knows this account"
        modify (note (.answered login.reply (.error (.authFailed message))))
        check (.error (.authFailed message))
      else do
        modify (setAuthenticated login.username)
        modify (note (.answered login.reply (.ok (sessionOf result))))

/-- A message of the server; one that is not about a login is handled elsewhere, and may fail. -/
def handleFrame (frame : KdxFrame) (joined written handled : Bool) :
    Fallible LoginActor ClientError Unit :=
  match frame.header.packetType with
  | .authChallenge => onAuthChallenge P argon2 frame.payload joined written
  | .authResult => onAuthResult frame.payload
  | _ => check (if handled then .ok () else .error .otherFrame)

/-- Take in a frame, and handle the packet it completes. -/
def onFrame (frame : KdxFrame) (joined written handled : Bool) :
    Fallible LoginActor ClientError Unit := do
  match ← mapError .framing
    (zoom reassemblerField (Reassembler.push frame maxReassembledPayload)) with
  | some full => handleFrame P argon2 full joined written handled
  | none => return ()

end Handlers

/-- The connection ends, and with it the login in flight. -/
def teardown (actor : LoginActor) : LoginActor :=
  match actor.login with
  | none => { actor with isOpen := false }
  | some login => ({ actor with isOpen := false, login := none }).note
      (.answered login.reply (.error .disconnected))

end LoginActor

/-- What comes next to a connection: a request to log in, a frame, or anything that is not about
a login and may end the connection. The flags say what the surroundings do: whether a write gets
through, whether the thread that computes the proof comes back, and whether a message about
something else is taken well. -/
inductive Input
  | login (username password : String) (written : Bool)
  | frame (frame : KdxFrame) (joined written handled : Bool)
  | other (handled : Bool)

namespace LoginActor

variable (P : Primitives) (argon2 : Argon2)

/-- Take in whatever comes next. -/
def take : Input → Fallible LoginActor ClientError Unit
  | .login username password written => requestLogin username password written
  | .frame frame joined written handled => onFrame P argon2 frame joined written handled
  | .other handled => check (if handled then .ok () else .error .io)

/-- Take what comes next, as long as the connection goes on. -/
def step (actor : LoginActor) (input : Input) : LoginActor :=
  if actor.isOpen then
    match (take P argon2 input).run actor with
    | .ok _ actor => actor
    | .error _ actor => actor.teardown
  else actor

/-- The connection after all that came. -/
def after (channelBinding : Vector UInt8 32) (inputs : List Input) : LoginActor :=
  inputs.foldl (step P argon2) (fresh channelBinding)

end LoginActor

/-! ### What the log says -/

variable {P : Primitives} {argon2 : Argon2} {binding : Vector UInt8 32} {log new : List Happening}
  {actor actor' : LoginActor} {reply : ℕ} {username password : String} {challenge : AuthChallenge}
  {p : ClientProof} {result : AuthResult} {session : ClientSession}

/-- The log tells of this login that its challenge was answered with this proof. -/
def Responded (P : Primitives) (argon2 : Argon2) (binding : Vector UInt8 32) (log : List Happening)
    (reply : ℕ) (username : String) (p : ClientProof) : Prop :=
  ∃ password challenge,
    clientProof P argon2 password (LoginActor.contextOf username binding challenge) = .ok p ∧
      [.began reply username password, .responded reply challenge p.proof].Sublist log

/-- The log tells of a login that succeeded that the server proved itself: after the answer to
the challenge of this login came a success with the signature that is expected for the name of
the login, the challenge answered and this connection. -/
def Proved (P : Primitives) (argon2 : Argon2) (binding : Vector UInt8 32) (log : List Happening)
    (reply : ℕ) (session : ClientSession) : Prop :=
  ∃ username password challenge p result,
    clientProof P argon2 password (LoginActor.contextOf username binding challenge) = .ok p ∧
      result.success = true ∧ result.serverSignature = p.serverSignature ∧
        session = sessionOf result ∧
          [.began reply username password, .responded reply challenge p.proof, .result result,
            .answered reply (.ok session)].Sublist log

/-- The login in flight is where its phase says. -/
inductive InFlight (P : Primitives) (argon2 : Argon2) (binding : Vector UInt8 32)
    (log : List Happening) : PendingLogin → Prop
  | awaitingChallenge {username password : String} {proof : Option ClientProof} {reply : ℕ}
      (hbegan : .began reply username password ∈ log)
      (hsilent : log.countP (Happening.isResponse reply) = 0) :
      InFlight P argon2 binding log ⟨username, some password, proof, .awaitingChallenge, reply⟩
  | awaitingResult {username : String} {password : Option String} {p : ClientProof} {reply : ℕ}
      (h : Responded P argon2 binding log reply username p) :
      InFlight P argon2 binding log ⟨username, password, some p, .awaitingResult, reply⟩

/-- What every connection keeps of its logins. -/
structure Sound (P : Primitives) (argon2 : Argon2) (actor : LoginActor) : Prop where
  inFlight : ∀ login, actor.login = some login →
    login.reply < actor.logins ∧ InFlight P argon2 actor.channelBinding actor.log login
  numbered : ∀ happening ∈ actor.log, ∀ reply, happening.about = some reply → reply < actor.logins
  once : ∀ reply, actor.log.countP (Happening.isResponse reply) ≤ 1
  bounded : ∀ reply challenge response, .responded reply challenge response ∈ actor.log →
    KdfParams.checkBounds ⟨challenge.mCost.toNat, challenge.tCost.toNat, challenge.pCost.toNat⟩
      challenge.salt.length = .ok ()
  proved : ∀ reply session, .answered reply (.ok session) ∈ actor.log →
    Proved P argon2 actor.channelBinding actor.log reply session
  authenticated : actor.log.countP Happening.isSuccess = if actor.authenticated then 1 else 0
  settled : actor.authenticated = true → actor.login = none

/-- Neither an answer to a challenge nor a login that succeeded. -/
def Happening.Quiet (happening : Happening) : Prop :=
  happening.isSuccess = false ∧ ∀ reply, happening.isResponse reply = false

theorem Happening.about_of_isResponse {happening : Happening}
    (h : happening.isResponse reply = true) : happening.about = some reply := by
  cases happening with
  | responded reply' => exact congrArg some (of_decide_eq_true h)
  | began => cases h
  | result => cases h
  | answered => cases h

theorem Responded.append (h : Responded P argon2 binding log reply username p)
    (new : List Happening) : Responded P argon2 binding (log ++ new) reply username p := by
  obtain ⟨password, challenge, hproof, hsub⟩ := h
  exact ⟨password, challenge, hproof, hsub.trans (List.sublist_append_left _ _)⟩

theorem Proved.append (h : Proved P argon2 binding log reply session) (new : List Happening) :
    Proved P argon2 binding (log ++ new) reply session := by
  obtain ⟨username, password, challenge, p, result, hproof, hsuccess, hsig, hsession, hsub⟩ := h
  exact ⟨username, password, challenge, p, result, hproof, hsuccess, hsig, hsession,
    hsub.trans (List.sublist_append_left _ _)⟩

/-- A login stays in flight while nothing is said of it. -/
theorem InFlight.append {login : PendingLogin} (h : InFlight P argon2 binding log login)
    (hquiet : ∀ happening ∈ new, happening.Quiet) :
    InFlight P argon2 binding (log ++ new) login := by
  cases h with
  | awaitingChallenge hbegan hsilent =>
    refine .awaitingChallenge (List.mem_append_left _ hbegan) ?_
    rw [List.countP_append, hsilent, Nat.zero_add]
    refine List.countP_eq_zero.mpr fun happening hnew => ?_
    rw [(hquiet happening hnew).2]
    exact Bool.false_ne_true
  | awaitingResult h => exact .awaitingResult (h.append new)

/-! ### What the steps keep of the logins -/

namespace Sound

/-- **Nothing that is quiet changes what is known of the logins.** -/
theorem quiet (h : Sound P argon2 actor) (hlog : actor'.log = actor.log ++ new)
    (hbinding : actor'.channelBinding = actor.channelBinding)
    (hauthenticated : actor'.authenticated = actor.authenticated)
    (hlogin : actor'.login = actor.login ∨ actor'.login = none)
    (hlogins : actor.logins ≤ actor'.logins)
    (hquiet : ∀ happening ∈ new, happening.Quiet)
    (hnumbered : ∀ happening ∈ new, ∀ reply, happening.about = some reply → reply < actor'.logins) :
    Sound P argon2 actor' := by
  -- what is quiet neither answers a challenge nor reports a success
  have hresponses : ∀ reply, new.countP (Happening.isResponse reply) = 0 := by
    intro reply
    refine List.countP_eq_zero.mpr fun happening hnew => ?_
    rw [(hquiet happening hnew).2]
    exact Bool.false_ne_true
  have hsuccesses : new.countP Happening.isSuccess = 0 := by
    refine List.countP_eq_zero.mpr fun happening hnew => ?_
    rw [(hquiet happening hnew).1]
    exact Bool.false_ne_true
  constructor
  case inFlight =>
    intro login hsome
    rcases hlogin with hsame | hnone
    · obtain ⟨hlt, hin⟩ := h.inFlight login (hsame ▸ hsome)
      rw [hlog, hbinding]
      exact ⟨hlt.trans_le hlogins, hin.append hquiet⟩
    · cases hnone.symm.trans hsome
  case numbered =>
    intro happening hmem reply habout
    rcases List.mem_append.mp (hlog ▸ hmem) with hold | hnew
    · exact (h.numbered happening hold reply habout).trans_le hlogins
    · exact hnumbered happening hnew reply habout
  case once =>
    intro reply
    rw [hlog, List.countP_append, hresponses]
    exact h.once reply
  case bounded =>
    intro reply challenge response hmem
    rcases List.mem_append.mp (hlog ▸ hmem) with hold | hnew
    · exact h.bounded reply challenge response hold
    · have hloud := (hquiet _ hnew).2 reply
      simp [Happening.isResponse] at hloud
  case proved =>
    intro reply session hmem
    rcases List.mem_append.mp (hlog ▸ hmem) with hold | hnew
    · rw [hlog, hbinding]
      exact (h.proved reply session hold).append new
    · cases (hquiet _ hnew).1
  case authenticated =>
    rw [hlog, List.countP_append, hsuccesses, hauthenticated]
    exact h.authenticated
  case settled =>
    intro hdone
    have hnone := h.settled (hauthenticated ▸ hdone)
    exact hlogin.elim (fun hsame => hsame.trans hnone) id

/-- A login may be put in flight where its phase says. -/
theorem setLogin (h : Sound P argon2 actor) {login : PendingLogin}
    (hlt : login.reply < actor.logins)
    (hin : InFlight P argon2 actor.channelBinding actor.log login)
    (hout : actor.authenticated = false) : Sound P argon2 (actor.setLogin (some login)) where
  inFlight login' hsome := Option.some.inj hsome ▸ ⟨hlt, hin⟩
  numbered := h.numbered
  once := h.once
  bounded := h.bounded
  proved := h.proved
  authenticated := h.authenticated
  settled hdone := by cases hout.symm.trans hdone

/-- While a login is in flight, no login has succeeded. -/
theorem loggedOut (h : Sound P argon2 actor) {login : PendingLogin}
    (hlogin : actor.login = some login) : actor.authenticated = false := by
  refine Bool.eq_false_iff.mpr fun hdone => ?_
  cases hlogin.symm.trans (h.settled hdone)

theorem bounds_of_clientProof {ctx : AuthContext} (h : clientProof P argon2 password ctx = .ok p) :
    ctx.params.checkBounds ctx.salt.length = .ok () := by
  obtain ⟨_, hbounds, -⟩ := checks_pass.mp h
  exact hbounds

/-- **The challenge of a login is answered once**, and within the bounds. -/
theorem respond (h : Sound P argon2 actor) {proof : Option ClientProof}
    (hlogin : actor.login = some ⟨username, some password, proof, .awaitingChallenge, reply⟩)
    (hproof : clientProof P argon2 password
      (LoginActor.contextOf username actor.channelBinding challenge) = .ok p) :
    Sound P argon2 (LoginActor.note (.responded reply challenge p.proof)
      (actor.setLogin (some ⟨username, none, some p, .awaitingResult, reply⟩))) := by
  obtain ⟨hlt, hin⟩ := h.inFlight _ hlogin
  have hout := h.loggedOut hlogin
  cases hin with
  | awaitingChallenge hbegan hsilent =>
    constructor
    case inFlight =>
      intro login hsome
      obtain rfl := Option.some.inj hsome
      exact ⟨hlt, .awaitingResult ⟨password, challenge, hproof,
        (List.singleton_sublist.mpr hbegan).append (List.Sublist.refl _)⟩⟩
    case numbered =>
      intro happening hmem reply' habout
      rcases List.mem_append.mp hmem with hold | hnew
      · exact h.numbered happening hold reply' habout
      · rw [List.mem_singleton.mp hnew] at habout
        exact Option.some.inj habout ▸ hlt
    case once =>
      intro reply'
      change (actor.log ++ [Happening.responded reply challenge p.proof]).countP _ ≤ 1
      rw [List.countP_append]
      -- the challenge of this login had no answer so far
      by_cases hsame : reply = reply'
      · subst hsame
        rw [hsilent, Nat.zero_add]
        exact List.countP_le_length
      · have hnone : [Happening.responded reply challenge p.proof].countP
            (Happening.isResponse reply') = 0 := by
          simp [Happening.isResponse, hsame]
        rw [hnone]
        exact h.once reply'
    case bounded =>
      intro reply' challenge' response hmem
      rcases List.mem_append.mp hmem with hold | hnew
      · exact h.bounded reply' challenge' response hold
      · cases List.mem_singleton.mp hnew
        -- the proof exists, so the parameters were within the bounds
        exact bounds_of_clientProof hproof
    case proved =>
      intro reply' session hmem
      rcases List.mem_append.mp hmem with hold | hnew
      · exact (h.proved reply' session hold).append _
      · cases List.mem_singleton.mp hnew
    case authenticated =>
      change (actor.log ++ [_]).countP _ = _
      rw [List.countP_append]
      exact h.authenticated
    case settled =>
      intro hdone
      cases hout.symm.trans hdone

/-- **A login succeeds when the server has proved itself.** -/
theorem succeed (h : Sound P argon2 actor) {left : Option String}
    (hlogin : actor.login = some ⟨username, left, some p, .awaitingResult, reply⟩)
    (hsuccess : result.success = true) (hsig : result.serverSignature = p.serverSignature) :
    Sound P argon2 (LoginActor.note (.answered reply (.ok (sessionOf result)))
      (LoginActor.setAuthenticated username (LoginActor.note (.result result)
        (actor.setLogin none)))) := by
  obtain ⟨hlt, hin⟩ := h.inFlight _ hlogin
  have hout := h.loggedOut hlogin
  cases hin with
  | awaitingResult hresponded =>
    obtain ⟨password, challenge, hproof, hsub⟩ := hresponded
    -- what was written down, and what is written down now
    have hmem : ∀ {happening}, happening ∈ (actor.log ++ [.result result]) ++
        [.answered reply (.ok (sessionOf result))] → happening ∈ actor.log ∨
          happening = .result result ∨ happening = .answered reply (.ok (sessionOf result)) := by
      intro happening hmem
      simpa [or_assoc] using hmem
    constructor
    case inFlight => exact nofun
    case numbered =>
      intro happening hhappening reply' habout
      rcases hmem hhappening with hold | rfl | rfl
      · exact h.numbered happening hold reply' habout
      · cases habout
      · exact Option.some.inj habout ▸ hlt
    case once =>
      intro reply'
      change ((actor.log ++ [_]) ++ [_]).countP _ ≤ 1
      rw [List.countP_append, List.countP_append]
      exact h.once reply'
    case bounded =>
      intro reply' challenge' response hhappening
      rcases hmem hhappening with hold | hnew | hnew
      · exact h.bounded reply' challenge' response hold
      · cases hnew
      · cases hnew
    case proved =>
      intro reply' session hhappening
      rcases hmem hhappening with hold | hnew | hnew
      · exact ((h.proved reply' session hold).append _).append _
      · cases hnew
      · cases hnew
        exact ⟨username, password, challenge, p, result, hproof, hsuccess, hsig, rfl,
          (hsub.append (List.Sublist.refl [_])).append (List.Sublist.refl [_])⟩
    case authenticated =>
      have hnone := h.authenticated
      rw [hout] at hnone
      change ((actor.log ++ [_]) ++ [_]).countP _ = 1
      rw [List.countP_append, List.countP_append, hnone]
      rfl
    case settled => exact fun _ => rfl

end Sound

/-! ### What the server is believed -/

/-- A success of the server is followed by the success of the login. -/
def Believed (log : List Happening) : Prop :=
  ∀ before result rest, log = before ++ .result result :: rest → result.success = true →
    ∃ reply session rest', rest = .answered reply (.ok session) :: rest'

/-- The last that happened is that a success of the server was not believed. -/
def Dropped (log : List Happening) : Prop :=
  ∃ before result reply e, log = before ++ [.result result, .answered reply (.error e)] ∧
    Believed before

theorem Believed.append (h : Believed log)
    (hnew : ∀ result, .result result ∈ new → result.success = false) : Believed (log ++ new) := by
  intro before result rest hsplit hsuccess
  rcases split_append hsplit with ⟨mid, hlog, rfl⟩ | ⟨mid, rfl⟩
  · obtain ⟨reply, session, rest', rfl⟩ := h before result mid hlog hsuccess
    exact ⟨reply, session, rest' ++ new, rfl⟩
  · have hmem : .result result ∈ mid ++ .result result :: rest :=
      List.mem_append_right _ List.mem_cons_self
    cases (hnew result hmem).symm.trans hsuccess

/-- A success that was checked is believed. -/
theorem Believed.succeed (h : Believed log) (result : AuthResult) (reply : ℕ)
    (session : ClientSession) :
    Believed (log ++ [.result result] ++ [.answered reply (.ok session)]) := by
  intro before result' rest hsplit hsuccess
  rw [List.append_assoc] at hsplit
  rcases split_append hsplit with ⟨mid, hlog, rfl⟩ | ⟨mid, hnew⟩
  · obtain ⟨reply', session', rest', rfl⟩ := h before result' mid hlog hsuccess
    exact ⟨reply', session', _, rfl⟩
  · rcases split_pair hnew with ⟨-, rfl⟩ | ⟨hother, -⟩
    · exact ⟨reply, session, [], rfl⟩
    · cases hother

/-! ### Every step of a connection -/

/-- How a step may end: what is known of the logins is still known, and a success of the server
that is not believed ends the connection. -/
structure Ended (P : Primitives) (argon2 : Argon2) (actor : LoginActor)
    (r : Except ClientError Unit) (actor' : LoginActor) : Prop where
  sound : Sound P argon2 actor'
  channelBinding : actor'.channelBinding = actor.channelBinding
  believed : Believed actor'.log ∨
    (∃ e, r = .error e) ∧ actor'.login = none ∧ Dropped actor'.log

variable {r : Except ClientError Unit} {payload : List UInt8} {joined written handled : Bool}
  {frame : KdxFrame}

theorem Ended.of_eq (h : Sound P argon2 actor) (hbelieved : Believed actor.log)
    (hsame : actor = actor') : Ended P argon2 actor r actor' :=
  hsame ▸ ⟨h, rfl, .inl hbelieved⟩

/-- An end that is written down by an answer that is not a success. -/
theorem Ended.answered (h : Sound P argon2 actor) (hbelieved : Believed actor.log)
    {answer : ClientError} (hlt : reply < actor'.logins)
    (hlog : actor'.log = actor.log ++ [.answered reply (.error answer)])
    (hbinding : actor'.channelBinding = actor.channelBinding)
    (hauthenticated : actor'.authenticated = actor.authenticated)
    (hlogin : actor'.login = actor.login ∨ actor'.login = none)
    (hlogins : actor.logins ≤ actor'.logins) :
    Ended P argon2 actor r actor' where
  sound := by
    refine h.quiet hlog hbinding hauthenticated hlogin hlogins ?_ ?_
    · intro happening hnew
      rw [List.mem_singleton.mp hnew]
      exact ⟨rfl, fun _ => rfl⟩
    · intro happening hnew reply' habout
      rw [List.mem_singleton.mp hnew] at habout
      exact Option.some.inj habout ▸ hlt
  channelBinding := hbinding
  believed := .inl (hlog ▸ hbelieved.append (by simp))

open LoginActor

/-- What a request to log in keeps. -/
theorem requestLogin_ends (h : Sound P argon2 actor) (hbelieved : Believed actor.log)
    (hends : Ends (requestLogin username password written) actor r actor') :
    Ended P argon2 actor r actor' := by
  rw [requestLogin, ends_get_bind, ends_modify_bind] at hends
  -- the number of the request is the next one
  have hlt : actor.logins < actor.number.logins := Nat.lt_succ_self _
  split at hends
  next =>
    obtain ⟨-, rfl⟩ := ends_modify.mp hends
    exact .answered h hbelieved hlt rfl rfl rfl (.inl rfl) hlt.le
  next hidle =>
    have hnone : actor.login = none := by simpa using hidle
    split at hends
    next =>
      obtain ⟨-, rfl⟩ := ends_modify.mp hends
      exact .answered h hbelieved hlt rfl rfl rfl (.inl rfl) hlt.le
    next hout =>
      have hnumber : Sound P argon2 actor.number :=
        h.quiet (List.append_nil _).symm rfl rfl (.inl rfl) hlt.le (by simp) (by simp)
      split at hends
      next =>
        obtain ⟨-, rfl⟩ := ends_pure.mp hends
        exact ⟨hnumber, rfl, .inl hbelieved⟩
      next =>
        rw [LoginActor.write, ends_bind] at hends
        rcases hends with ⟨e, rfl, hfails⟩ | ⟨_, t, hwritten, hends⟩
        · obtain ⟨-, rfl⟩ := fails_check.mp hfails
          exact ⟨hnumber, rfl, .inl hbelieved⟩
        · obtain ⟨-, rfl⟩ := returns_check.mp hwritten
          rw [ends_modify_bind] at hends
          obtain ⟨-, rfl⟩ := ends_modify.mp hends
          have hbegan : Sound P argon2
              (note (.began actor.logins username password) actor.number) := by
            refine hnumber.quiet rfl rfl rfl (.inl rfl) le_rfl ?_ ?_
            · intro happening hnew
              rw [List.mem_singleton.mp hnew]
              exact ⟨rfl, fun _ => rfl⟩
            · intro happening hnew reply habout
              rw [List.mem_singleton.mp hnew] at habout
              exact Option.some.inj habout ▸ hlt
          -- no challenge of a login that is only now begun was answered
          have hsilent : (actor.log ++ [Happening.began actor.logins username password]).countP
              (Happening.isResponse actor.logins) = 0 := by
            rw [List.countP_append, List.countP_eq_zero.mpr]
            · rfl
            · intro happening hmem hresponse
              exact lt_irrefl _
                (h.numbered happening hmem _ (Happening.about_of_isResponse hresponse))
          have hmem : Happening.began actor.logins username password ∈
              actor.log ++ [.began actor.logins username password] :=
            List.mem_append_right _ (List.mem_singleton_self _)
          exact ⟨hbegan.setLogin hlt (.awaitingChallenge hmem hsilent)
            (Bool.eq_false_iff.mpr hout), rfl, .inl (hbelieved.append (by simp))⟩

/-- What a challenge keeps. -/
theorem onAuthChallenge_ends (h : Sound P argon2 actor) (hbelieved : Believed actor.log)
    (hends : Ends (onAuthChallenge P argon2 payload joined written) actor r actor') :
    Ended P argon2 actor r actor' := by
  rw [onAuthChallenge, ends_get_bind] at hends
  split at hends
  next => exact .of_eq h hbelieved (ends_pure.mp hends).2
  next login hlogin =>
    split at hends
    next => exact .of_eq h hbelieved (ends_pure.mp hends).2
    next hphase =>
      rw [ends_bind] at hends
      rcases hends with ⟨e, -, hfails⟩ | ⟨challenge, t, hdecoded, hends⟩
      · exact .of_eq h hbelieved (fails_check.mp hfails).2
      · obtain ⟨-, rfl⟩ := returns_check.mp hdecoded
        obtain ⟨name, left, proof, phase, reply⟩ := login
        obtain rfl : phase = .awaitingChallenge := by simpa using hphase
        split at hends
        next => exact .of_eq h hbelieved (ends_pure.mp hends).2
        next password hleft =>
          obtain rfl : left = some password := hleft
          -- without its password the login cannot be answered any more, only ended
          have hconsumed {message : String} : Ends (failLogin message)
              (setLogin (some ⟨name, none, proof, .awaitingChallenge, reply⟩) actor) r actor' →
              Ended P argon2 actor r actor' := by
            intro hends
            rw [failLogin, ends_get_bind] at hends
            dsimp only [setLogin] at hends
            rw [ends_modify_bind] at hends
            obtain ⟨-, rfl⟩ := ends_modify.mp hends
            exact .answered h hbelieved (h.inFlight _ hlogin).1 rfl rfl rfl (.inr rfl) le_rfl
          rw [ends_modify_bind] at hends
          split at hends
          next =>
            split at hends
            next p hproof =>
              rw [ends_modify_bind, ends_modify_bind, write] at hends
              obtain ⟨-, rfl⟩ := ends_check.mp hends
              exact ⟨h.respond hlogin hproof, rfl, .inl (hbelieved.append (by simp))⟩
            next => exact hconsumed hends
          next => exact hconsumed hends

/-- A result is taken as the end of the login in flight, if there is one. -/
theorem onAuthResult_ends (h : Sound P argon2 actor) (hbelieved : Believed actor.log)
    (hends : Ends (onAuthResult payload) actor r actor') : Ended P argon2 actor r actor' := by
  rw [onAuthResult, ends_get_bind] at hends
  split at hends
  next => exact .of_eq h hbelieved (ends_pure.mp hends).2
  next login hlogin =>
    have hlt := (h.inFlight login hlogin).1
    rw [ends_modify_bind, ends_bind] at hends
    rcases hends with ⟨e, rfl, hfails⟩ | ⟨result, t, hdecoded, hends⟩
    · obtain ⟨-, rfl⟩ := fails_check.mp hfails
      exact ⟨h.quiet (List.append_nil _).symm rfl rfl (.inr rfl) le_rfl (by simp) (by simp), rfl,
        .inl hbelieved⟩
    · obtain ⟨-, rfl⟩ := returns_check.mp hdecoded
      rw [ends_modify_bind] at hends
      -- however it is refused, the login ends
      have hrefused {answer : ClientError} : Sound P argon2
          (note (.answered login.reply (.error answer))
            (note (.result result) (setLogin none actor))) := by
        refine h.quiet (List.append_assoc _ _ _) rfl rfl (.inr rfl) le_rfl ?_ ?_
        · simp [Happening.Quiet, Happening.isSuccess, Happening.isResponse]
        · intro happening hnew reply habout
          rcases List.mem_pair.mp hnew with rfl | rfl
          · cases habout
          · exact Option.some.inj habout ▸ hlt
      split at hends
      next hrefusal =>
        obtain ⟨-, rfl⟩ := ends_modify.mp hends
        refine ⟨hrefused, rfl, .inl ?_⟩
        have hfailure : result.success = false := by simpa using hrefusal
        exact (hbelieved.append (by simpa using hfailure)).append (by simp)
      next hsuccess =>
        replace hsuccess : result.success = true := by simpa using hsuccess
        dsimp only at hends
        split at hends
        next =>
          rw [ends_modify_bind] at hends
          obtain ⟨rfl, rfl⟩ := ends_check.mp hends
          exact ⟨hrefused, rfl,
            .inr ⟨⟨_, rfl⟩, rfl, _, _, _, _, List.append_assoc _ _ _, hbelieved⟩⟩
        next hverified =>
          rw [ends_modify_bind] at hends
          obtain ⟨-, rfl⟩ := ends_modify.mp hends
          obtain ⟨name, left, proof, phase, reply⟩ := login
          simp only [Bool.not_eq_true, Bool.not_eq_false', Bool.and_eq_true, decide_eq_true_eq,
            Option.any_eq_true] at hverified
          obtain ⟨rfl, p, rfl, hsig⟩ := hverified
          exact ⟨h.succeed hlogin hsuccess (verifyServerSignature_iff.mp hsig), rfl,
            .inl (hbelieved.succeed result reply _)⟩

theorem handleFrame_ends (h : Sound P argon2 actor) (hbelieved : Believed actor.log)
    (hends : Ends (handleFrame P argon2 frame joined written handled) actor r actor') :
    Ended P argon2 actor r actor' := by
  rw [handleFrame] at hends
  split at hends
  · exact onAuthChallenge_ends h hbelieved hends
  · exact onAuthResult_ends h hbelieved hends
  · exact .of_eq h hbelieved (ends_check.mp hends).2

/-- Putting fragments together is not about logins. -/
theorem onFrame_ends (h : Sound P argon2 actor) (hbelieved : Believed actor.log)
    (hends : Ends (onFrame P argon2 frame joined written handled) actor r actor') :
    Ended P argon2 actor r actor' := by
  have hpushed (reassembler : Reassembler) :
      Sound P argon2 (reassemblerField.set reassembler actor) :=
    h.quiet (List.append_nil _).symm rfl rfl (.inl rfl) le_rfl (by simp) (by simp)
  rw [onFrame, ends_bind] at hends
  rcases hends with ⟨e, -, hfails⟩ | ⟨full, t, hpush, hends⟩
  · obtain ⟨_, hfails, -⟩ := fails_mapError.mp hfails
    obtain ⟨reassembler, -, rfl⟩ := fails_zoom.mp hfails
    exact ⟨hpushed reassembler, rfl, .inl hbelieved⟩
  · obtain ⟨reassembler, -, rfl⟩ := returns_zoom.mp (returns_mapError.mp hpush)
    cases full with
    | some full =>
      obtain ⟨hsound, hopen, hended⟩ := handleFrame_ends (hpushed reassembler) hbelieved hends
      exact ⟨hsound, hopen, hended⟩
    | none =>
      obtain ⟨-, rfl⟩ := ends_pure.mp hends
      exact ⟨hpushed reassembler, rfl, .inl hbelieved⟩

theorem take_ends {input : Input} (h : Sound P argon2 actor) (hbelieved : Believed actor.log)
    (hends : Ends (take P argon2 input) actor r actor') : Ended P argon2 actor r actor' := by
  cases input with
  | login => exact requestLogin_ends h hbelieved hends
  | frame => exact onFrame_ends h hbelieved hends
  | other => exact .of_eq h hbelieved (ends_check.mp hends).2

/-! ### Every run of a connection -/

/-- What holds of a connection after whatever came. -/
structure Kept (P : Primitives) (argon2 : Argon2) (binding : Vector UInt8 32) (actor : LoginActor) :
    Prop where
  sound : Sound P argon2 actor
  channelBinding : actor.channelBinding = binding
  believed : Believed actor.log ∨ actor.isOpen = false ∧ Dropped actor.log

theorem kept_fresh : Kept P argon2 binding (fresh binding) where
  sound := by constructor <;> simp [fresh]
  channelBinding := rfl
  believed := .inl (by simp [Believed, fresh])

/-- The end of a connection ends the login in flight, and nothing else. -/
theorem Sound.teardown (h : Sound P argon2 actor) : Sound P argon2 actor.teardown := by
  rw [LoginActor.teardown]
  split
  next hlogin =>
    exact h.quiet (List.append_nil _).symm rfl rfl (.inl rfl) le_rfl (by simp) (by simp)
  next login hlogin =>
    refine h.quiet rfl rfl rfl (.inr rfl) le_rfl ?_ ?_
    · intro happening hnew
      rw [List.mem_singleton.mp hnew]
      exact ⟨rfl, fun _ => rfl⟩
    · intro happening hnew reply habout
      rw [List.mem_singleton.mp hnew] at habout
      exact Option.some.inj habout ▸ (h.inFlight login hlogin).1

theorem teardown_keeps (actor : LoginActor) : actor.teardown.isOpen = false ∧
    actor.teardown.channelBinding = actor.channelBinding := by
  rw [LoginActor.teardown]
  split <;> exact ⟨rfl, rfl⟩

/-- One step keeps what holds of a connection. -/
theorem Kept.step (h : Kept P argon2 binding actor) (input : Input) :
    Kept P argon2 binding (actor.step P argon2 input) := by
  rw [LoginActor.step]
  split
  next hopen =>
    have hbelieved : Believed actor.log :=
      h.believed.resolve_right fun hclosed => by simp [hopen] at hclosed
    have hended {r actor'} (hends : Ends (take P argon2 input) actor r actor') :
        Ended P argon2 actor r actor' := take_ends h.sound hbelieved hends
    split
    next _ actor' hrun =>
      obtain ⟨hsound, hbinding, hbelieved | ⟨⟨e, he⟩, -⟩⟩ := hended (r := .ok ()) hrun
      · exact ⟨hsound, hbinding.trans h.channelBinding, .inl hbelieved⟩
      · cases he
    next e actor' hrun =>
      obtain ⟨hsound, hbinding, hended⟩ := hended (r := .error e) hrun
      obtain ⟨hclosed, hsame⟩ := teardown_keeps actor'
      refine ⟨hsound.teardown, hsame.trans (hbinding.trans h.channelBinding), ?_⟩
      rcases hended with hbelieved | ⟨-, hlogin, hdropped⟩
      · left
        rw [LoginActor.teardown]
        split
        · exact hbelieved
        · exact hbelieved.append (by simp)
      · refine .inr ⟨hclosed, ?_⟩
        rw [LoginActor.teardown, hlogin]
        exact hdropped
  next => exact h

theorem Kept.after (inputs : List Input) :
    Kept P argon2 binding (after P argon2 binding inputs) := by
  induction inputs using List.reverseRecOn with
  | nil => exact kept_fresh
  | append_singleton inputs input ih =>
    rw [LoginActor.after, List.foldl_append]
    exact ih.step input

/-- A success that nobody waits for is ignored. -/
theorem onAuthResult_unasked (hidle : actor.login = none) (payload : List UInt8) :
    Returns (onAuthResult payload) actor () actor := by
  refine returns_bind.mpr ⟨actor, actor, returns_get.mpr ⟨rfl, rfl⟩, ?_⟩
  simp only [hidle]
  exact returns_pure.mpr ⟨rfl, rfl⟩

/-- **The client logs in only to a server that proved itself.** Whatever frames come, and
whatever logins are requested between them, on one connection:

* the challenge of a login is answered at most once, and only if its costs and its salt are
  within the bounds;
* a login succeeds only after a success whose signature is the one that goes with the proof,
  for the name of this login, the challenge answered and this connection;
* the client counts as logged in from the one login that succeeded, and from nothing else;
* a success that comes for a login in flight makes that login succeed, or is the last that this
  connection takes;
* a result that comes while no login is in flight changes nothing. -/
theorem logs_in_only_if_proved (P : Primitives) (argon2 : Argon2) (binding : Vector UInt8 32)
    (inputs : List Input) :
    let actor := LoginActor.after P argon2 binding inputs
    (∀ reply, actor.log.countP (Happening.isResponse reply) ≤ 1) ∧
      (∀ reply challenge response, .responded reply challenge response ∈ actor.log →
        KdfParams.checkBounds ⟨challenge.mCost.toNat, challenge.tCost.toNat, challenge.pCost.toNat⟩
          challenge.salt.length = .ok ()) ∧
      (∀ reply session, .answered reply (.ok session) ∈ actor.log →
        Proved P argon2 binding actor.log reply session) ∧
      actor.log.countP Happening.isSuccess = (if actor.authenticated then 1 else 0) ∧
      (∀ before result rest, actor.log = before ++ .result result :: rest → result.success = true →
        (∃ reply session rest', rest = .answered reply (.ok session) :: rest') ∨
          actor.isOpen = false ∧ ∃ reply e, rest = [.answered reply (.error e)]) ∧
      (actor.login = none → ∀ payload,
        Returns (LoginActor.onAuthResult payload) actor () actor) := by
  intro actor
  have hkept : Kept P argon2 binding actor := .after inputs
  have hbinding := hkept.channelBinding
  refine ⟨hkept.sound.once, hkept.sound.bounded, hbinding ▸ hkept.sound.proved,
    hkept.sound.authenticated, ?_, onAuthResult_unasked⟩
  intro before result rest hsplit hsuccess
  rcases hkept.believed with hbelieved | ⟨hclosed, before', result', reply, e, hlog, hbelieved⟩
  · exact .inl (hbelieved before result rest hsplit hsuccess)
  · rcases split_append (hlog.symm.trans hsplit) with ⟨mid, rfl, rfl⟩ | ⟨mid, hlast⟩
    · obtain ⟨reply', session, rest', rfl⟩ := hbelieved before result mid rfl hsuccess
      exact .inl ⟨reply', session, _, rfl⟩
    · rcases split_pair hlast with ⟨-, rfl⟩ | ⟨hother, -⟩
      · exact .inr ⟨hclosed, reply, e, rfl⟩
      · cases hother

namespace Unasked

/-- A success with a signature that no key made. -/
def success : AuthResult := ⟨true, .replicate 16 0, 0, 0, "", .replicate 32 0⟩

/-- The packet of a success, on no request. -/
def packet : KdxFrame :=
  ⟨⟨1, .authResult, ⟨0⟩, 0, 56⟩, AuthResult.payload.encode success⟩

/-- Functions that give the same for everything. -/
def primitives : Primitives := ⟨fun _ _ => .replicate 32 1, fun _ => .replicate 32 2, fun _ => none⟩

end Unasked

/-- A server that sends a success nobody asked for is not dropped. -/
theorem unasked_success_goes_on :
    outcome AuthResult.decode Unasked.packet.payload = .ok Unasked.success ∧
      Unasked.success.success = true ∧
      (LoginActor.after Unasked.primitives (fun _ _ _ => .ok (.replicate 32 3)) (.replicate 32 4)
        [.frame Unasked.packet true true true]).isOpen = true := by
  refine ⟨?_, rfl, rfl⟩
  exact (AuthResult.payload.decode_encode trivial).outcome

end Client

end KdxHotline
