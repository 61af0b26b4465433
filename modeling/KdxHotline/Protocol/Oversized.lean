import KdxHotline.Protocol.Reassembly

/-!
# Messages that are too large

The server bounds what it puts together by the type of the message. A group that goes over
its bound is not buffered: the rest of it is skipped, and the whole message is answered with
one error (`KdxHotline.Protocol.Inbox.reassemble`).

Between two frames of a message the inbox has put together what came so far, or has given up
on it and counts the rest (`KdxHotline.Protocol.Midway`); after the last one it is as it was
before the first. So a message that is too large is one answer and nothing else, and the next
message finds the inbox empty (`KdxHotline.Protocol.oversized_never_derails`).
-/

namespace KdxHotline

namespace Protocol

open Foundations

/-! ### The inbox of a connection -/

/-- Largest message either peer sends or puts together. -/
def maxReassembledPayload : ℕ := 4 * 1024 * 1024
/-- Cap on a control message. -/
def maxControlPayload : ℕ := 64 * 1024
/-- Cap on a transfer request, which carries a resume bitmap. -/
def maxTransferStartPayload : ℕ := 1024 * 1024

/-- The largest payload the server accepts from a client, by the type of the message. -/
def maxRequestPayload : PacketType → ℕ
  | .fileTransferData => maxReassembledPayload
  | .fileTransferStart => maxTransferStartPayload
  | _ => maxControlPayload

/-- The longest message of a type. -/
def reassemblyCap (packetType : PacketType) : ℕ := maxRequestPayload packetType

/-- The length of a message that fits its cap is a `u32`. -/
theorem reassemblyCap_lt (packetType : PacketType) : reassemblyCap packetType < 2 ^ 32 := by
  cases packetType <;> decide

/-- The rest of a group that went over its cap, which is skipped. -/
structure Skipping where
  packetType : PacketType
  nextSequence : UInt32
  deriving DecidableEq

/-- What becomes of a message. -/
inductive Outcome
  | message (frame : KdxFrame)
  /-- An `Error` that is sent in answer to it. -/
  | refused (text : String)

/-- What the receiver keeps between frames. -/
structure Inbox where
  reassembler : Reassembler
  skipping : Option Skipping
  /-- What became of the messages so far. -/
  outcomes : List Outcome

namespace Inbox

/-- An inbox nothing has come into. -/
def fresh : Inbox := ⟨.default, none, []⟩

/-- The fragments that have arrived. -/
def reassemblerField : Focus Inbox Reassembler :=
  ⟨Inbox.reassembler, fun r inbox => { inbox with reassembler := r }, fun _ _ => rfl⟩

/-- Begin or end to skip a message. -/
def setSkipping (skipping : Option Skipping) (inbox : Inbox) : Inbox := { inbox with skipping }

/-- Note what became of a message. -/
def log (outcome : Outcome) (inbox : Inbox) : Inbox :=
  { inbox with outcomes := inbox.outcomes ++ [outcome] }

/-- What an oversized message is answered with. -/
def tooLargeText (limit : ℕ) : String := "message too large (the limit is " ++ limit.repr ++ " bytes)"

/-- Answer a message that was too large, once all of it has gone by. -/
def refuse (packetType : PacketType) : Fallible Inbox ProtocolError (Option KdxFrame) := do
  modify (log (.refused (tooLargeText (reassemblyCap packetType))))
  return none

/-- Go on with a group that is skipped. -/
def skip (skip : Skipping) (frame : KdxFrame) : Fallible Inbox ProtocolError (Option KdxFrame) := do
  check (refuseIf (!frame.isFragment || decide (frame.header.packetType ≠ skip.packetType))
    .fragmentInterleaved)
  check (refuseIf (decide (frame.header.sequence ≠ skip.nextSequence))
    (.fragmentOutOfOrder skip.nextSequence frame.header.sequence))
  if frame.hasMore then
    modify (setSkipping (some { skip with nextSequence := frame.header.sequence + 1 }))
    return none
  else
    modify (setSkipping none)
    refuse frame.header.packetType

/-- Push a frame; a group that goes over its cap is given up. -/
def collect (frame : KdxFrame) : Fallible Inbox ProtocolError (Option KdxFrame) := do
  match ← attempt (zoom reassemblerField
    (Reassembler.push frame (reassemblyCap frame.header.packetType))) with
  | .ok pushed => return pushed
  | .error (.reassemblyTooLarge _) =>
    modify fun inbox => { inbox with reassembler := inbox.reassembler.abort }
    if frame.hasMore then
      modify (setSkipping (some ⟨frame.header.packetType, frame.header.sequence + 1⟩))
      return none
    else refuse frame.header.packetType
  | .error e => check (.error e)

/-- Feed one inbound frame to the reassembler. -/
def reassemble (frame : KdxFrame) : Fallible Inbox ProtocolError (Option KdxFrame) := do
  let inbox ← get
  match inbox.skipping with
  | some skipping => skip skipping frame
  | none => collect frame

/-- Take a frame in, and hand on the message it completes. -/
def receive (frame : KdxFrame) : Fallible Inbox ProtocolError Unit := do
  match ← reassemble frame with
  | some message => modify (log (.message message))
  | none => return ()

/-- Receive some frames, one after another. -/
def receiveAll : List KdxFrame → Fallible Inbox ProtocolError Unit
  | [] => return ()
  | frame :: frames => do
    receive frame
    receiveAll frames

end Inbox

/-! ### Pushes that are too large -/

namespace Reassembler

variable {r t : Reassembler} {frame : KdxFrame} {maxTotal : ℕ} {group : GroupState}

/-- A first fragment that is too large is refused. -/
theorem push_tooLargeFirst (hfragment : frame.isFragment = true) (hclosed : r.inProgress = none)
    (hlarge : maxTotal < frame.payload.length) :
    Fails (push frame maxTotal) r (.reassemblyTooLarge maxTotal) ⟨frame.payload, none⟩ := by
  obtain ⟨answer, t, hends, hp⟩ := exists_pushed r frame maxTotal
  cases hp with
  | tooLargeFirst => exact hends
  | whole hplain => cases hplain.symm.trans hfragment
  | opens _ _ hfits => omega
  | single _ _ hfits => omega
  | interleaved group hopen => cases hopen.symm.trans hclosed
  | outOfOrder group hopen => cases hopen.symm.trans hclosed
  | tooLarge group hnext => cases hnext.isOpen.symm.trans hclosed
  | extends_ group hnext => cases hnext.isOpen.symm.trans hclosed
  | closes group hnext => cases hnext.isOpen.symm.trans hclosed

variable (maxTotal) in
/-- A fragment that makes its group too large is refused. -/
theorem push_tooLarge (hnext : Continues r group frame)
    (hlarge : group.maxTotal < (r.buffer ++ frame.payload).length) :
    Fails (push frame maxTotal) r (.reassemblyTooLarge group.maxTotal)
      ⟨r.buffer ++ frame.payload, none⟩ := by
  obtain ⟨answer, t, hends, hp⟩ := exists_pushed r frame maxTotal
  have hsame : ∀ {g}, r.inProgress = some g → g = group := fun h =>
    Option.some.inj (h.symm.trans hnext.isOpen)
  cases hp with
  | tooLarge g hnext' =>
    obtain rfl := hsame hnext'.isOpen
    exact hends
  | extends_ g hnext' hfits =>
    obtain rfl := hsame hnext'.isOpen
    omega
  | closes g hnext' hfits =>
    obtain rfl := hsame hnext'.isOpen
    omega
  | whole hplain => cases hplain.symm.trans hnext.isFragment
  | interleaved g hopen hforeign =>
    obtain rfl := hsame hopen
    rcases hforeign with hplain | htype
    · cases hplain.symm.trans hnext.isFragment
    · exact absurd hnext.packetType htype
  | outOfOrder g hopen hlate =>
    obtain rfl := hsame hopen
    exact absurd hnext.sequence hlate
  | tooLargeFirst _ hclosed => cases hclosed.symm.trans hnext.isOpen
  | opens _ hclosed => cases hclosed.symm.trans hnext.isOpen
  | single _ hclosed => cases hclosed.symm.trans hnext.isOpen

/-- **A push buffers no more than its frame on top of what there was.** -/
theorem buffer_of_ends {answer : Except ProtocolError (Option KdxFrame)}
    (h : Ends (push frame maxTotal) r answer t) :
    t.buffer.length ≤ r.buffer.length + frame.payload.length := by
  cases pushed_of_ends h <;> simp

end Reassembler

/-! ### What a frame does -/

namespace Inbox

/-- The inbox between two messages: no group is open and none is skipped. -/
def closed (outcomes : List Outcome) : Inbox := ⟨⟨[], none⟩, none, outcomes⟩

section Frames

variable {inbox inbox' : Inbox} {r : Reassembler} {frame message : KdxFrame}
  {pushed : Option KdxFrame} {skipping : Skipping} {max : ℕ}

theorem reassemble_collect (hskip : inbox.skipping = none) :
    (reassemble frame).run inbox = (collect frame).run inbox := by
  rw [reassemble, run_bind (returns_get.mpr ⟨rfl, rfl⟩), hskip]

/-- Outside of a message that is skipped, a frame is pushed. -/
theorem reassemble_pushed (hskip : inbox.skipping = none)
    (h : Returns (Reassembler.push frame (reassemblyCap frame.header.packetType)) inbox.reassembler
      pushed r) :
    Returns (reassemble frame) inbox pushed { inbox with reassembler := r } := by
  refine (reassemble_collect hskip).trans ?_
  have hattempt : Returns (attempt (zoom reassemblerField
      (Reassembler.push frame (reassemblyCap frame.header.packetType))) : Fallible Inbox ProtocolError _)
      inbox (.ok pushed) { inbox with reassembler := r } :=
    returns_attempt.mpr (.inl ⟨pushed, rfl, returns_zoom.mpr ⟨r, h, rfl⟩⟩)
  exact returns_bind.mpr ⟨_, _, hattempt, returns_pure.mpr ⟨rfl, rfl⟩⟩

/-- A group that goes over its cap is given up: the rest of it is skipped, or the message is
answered if nothing is left of it. -/
theorem reassemble_tooLarge (hskip : inbox.skipping = none)
    (h : Fails (Reassembler.push frame (reassemblyCap frame.header.packetType)) inbox.reassembler
      (.reassemblyTooLarge max) r) :
    Returns (reassemble frame) inbox none
      (if frame.hasMore then
        ⟨⟨[], none⟩, some ⟨frame.header.packetType, frame.header.sequence + 1⟩, inbox.outcomes⟩
      else closed (inbox.outcomes ++
        [.refused (tooLargeText (reassemblyCap frame.header.packetType))])) := by
  refine (reassemble_collect hskip).trans ?_
  have hattempt : Returns (attempt (zoom reassemblerField
      (Reassembler.push frame (reassemblyCap frame.header.packetType))) : Fallible Inbox ProtocolError _)
      inbox (.error (.reassemblyTooLarge max)) { inbox with reassembler := r } :=
    returns_attempt.mpr (.inr ⟨_, rfl, fails_zoom.mpr ⟨r, h, rfl⟩⟩)
  refine returns_bind.mpr ⟨_, _, hattempt, ?_⟩
  refine returns_bind.mpr ⟨(), _, returns_modify.mpr rfl, ?_⟩
  split
  · exact returns_bind.mpr ⟨(), _, returns_modify.mpr rfl, returns_pure.mpr ⟨rfl, rfl⟩⟩
  · refine returns_bind.mpr ⟨(), _, returns_modify.mpr ?_, returns_pure.mpr ⟨rfl, rfl⟩⟩
    rw [closed, ← hskip]
    rfl

/-- The next fragment of a group that is skipped goes by, and with the last one the message
is answered. -/
theorem reassemble_skipped (hskip : inbox.skipping = some skipping)
    (hfragment : frame.isFragment = true) (htype : frame.header.packetType = skipping.packetType)
    (hsequence : frame.header.sequence = skipping.nextSequence) :
    Returns (reassemble frame) inbox none
      (if frame.hasMore then
        inbox.setSkipping (some ⟨frame.header.packetType, frame.header.sequence + 1⟩)
      else (inbox.setSkipping none).log
        (.refused (tooLargeText (reassemblyCap frame.header.packetType)))) := by
  have hmine : refuseIf (!frame.isFragment || decide (frame.header.packetType ≠ skipping.packetType))
      ProtocolError.fragmentInterleaved = .ok () := by
    rw [hfragment, htype]
    simp
  have hnext : refuseIf (decide (frame.header.sequence ≠ skipping.nextSequence))
      (ProtocolError.fragmentOutOfOrder skipping.nextSequence frame.header.sequence) = .ok () := by
    rw [hsequence]
    simp
  refine returns_bind.mpr ⟨_, _, returns_get.mpr ⟨rfl, rfl⟩, ?_⟩
  rw [hskip]
  refine returns_bind.mpr ⟨(), _, returns_check.mpr ⟨hmine, rfl⟩, ?_⟩
  refine returns_bind.mpr ⟨(), _, returns_check.mpr ⟨hnext, rfl⟩, ?_⟩
  split
  · rw [htype]
    exact returns_bind.mpr ⟨(), _, returns_modify.mpr rfl, returns_pure.mpr ⟨rfl, rfl⟩⟩
  · refine returns_bind.mpr ⟨(), _, returns_modify.mpr rfl, ?_⟩
    exact returns_bind.mpr ⟨(), _, returns_modify.mpr rfl, returns_pure.mpr ⟨rfl, rfl⟩⟩

theorem receive_none (h : Returns (reassemble frame) inbox none inbox') :
    Returns (receive frame) inbox () inbox' :=
  returns_bind.mpr ⟨_, _, h, returns_pure.mpr ⟨rfl, rfl⟩⟩

theorem receive_some (h : Returns (reassemble frame) inbox (some message) inbox') :
    Returns (receive frame) inbox () (inbox'.log (.message message)) :=
  returns_bind.mpr ⟨_, _, h, returns_modify.mpr rfl⟩

end Frames

end Inbox

/-! ### The frames of one message -/

/-- What becomes of a message that was sent in frames of this size. -/
inductive Settles (maxPayload : UInt32) (m : Message) : Outcome → Prop
  | message {frame : KdxFrame}
      (hfits : m.payload.length ≤ maxPayload.toNat ∨ m.payload.length ≤ reassemblyCap m.packetType)
      (hmessage : IsMessage m frame) (hlength : frame.header.length.toNat = m.payload.length) :
      Settles maxPayload m (.message frame)
  | refused (hlong : maxPayload.toNat < m.payload.length)
      (hlarge : reassemblyCap m.packetType < m.payload.length) :
      Settles maxPayload m (.refused (Inbox.tooLargeText (reassemblyCap m.packetType)))

/-- The inbox with a part of a message put together. -/
def Inbox.gathering (m : Message) (outcomes : List Outcome) (fed : List UInt8) (s : UInt32) : Inbox :=
  ⟨⟨fed, some ⟨m.packetType, s, reassemblyCap m.packetType⟩⟩, none, outcomes⟩

/-- The inbox that skips the rest of a message. -/
def Inbox.dropping (m : Message) (outcomes : List Outcome) (s : UInt32) : Inbox :=
  ⟨⟨[], none⟩, some ⟨m.packetType, s⟩, outcomes⟩

/-- The inbox after a first part of a message: it has put the part together, or given up on
it. -/
inductive Midway (m : Message) (outcomes : List Outcome) (fed : List UInt8) (s : UInt32) : Inbox → Prop
  | collecting (hfits : fed.length ≤ reassemblyCap m.packetType) :
      Midway m outcomes fed s (.gathering m outcomes fed s)
  | skipping (hlarge : reassemblyCap m.packetType < fed.length) :
      Midway m outcomes fed s (.dropping m outcomes s)

section Fragments

variable {m : Message} {outcomes : List Outcome} {fed chunk : List UInt8} {s : UInt32} {inbox : Inbox}

variable (m outcomes chunk s) in
/-- The first fragment of a message opens a group, or is too much already. -/
theorem receive_first : ∃ inbox, Midway m outcomes chunk (s + 1) inbox ∧
    Returns (Inbox.receive (fragmentFrame m.packetType m.flags chunk true s)) (.closed outcomes) ()
      inbox := by
  have hmore : (fragmentFrame m.packetType m.flags chunk true s).hasMore = true :=
    fragmentFrame_hasMore m.not_more
  rcases Nat.lt_or_ge (reassemblyCap m.packetType) chunk.length with hlarge | hfits
  · have hpush : Fails (Reassembler.push (fragmentFrame m.packetType m.flags chunk true s)
        (reassemblyCap m.packetType)) ⟨[], none⟩ _ _ :=
      Reassembler.push_tooLargeFirst fragmentFrame_isFragment rfl hlarge
    have h : Returns _ (Inbox.closed outcomes) _ _ := Inbox.reassemble_tooLarge rfl hpush
    rw [if_pos hmore] at h
    exact ⟨_, .skipping hlarge, Inbox.receive_none h⟩
  · have hpush : Returns (Reassembler.push (fragmentFrame m.packetType m.flags chunk true s)
        (reassemblyCap m.packetType)) ⟨[], none⟩ _ _ :=
      Reassembler.push_opens fragmentFrame_isFragment rfl hfits hmore
    have h : Returns _ (Inbox.closed outcomes) _ _ := Inbox.reassemble_pushed rfl hpush
    exact ⟨_, .collecting hfits, Inbox.receive_none h⟩

variable (m fed chunk s) in
/-- A fragment continues the group that is open. -/
theorem continues_fragment (more : Bool) : Reassembler.Continues
    ⟨fed, some ⟨m.packetType, s, reassemblyCap m.packetType⟩⟩
    ⟨m.packetType, s, reassemblyCap m.packetType⟩ (fragmentFrame m.packetType m.flags chunk more s) :=
  ⟨rfl, fragmentFrame_isFragment, rfl, rfl⟩

/-- A fragment that others follow is added to what there is, or skipped with it. -/
theorem Midway.receive_next (h : Midway m outcomes fed s inbox) (chunk : List UInt8) :
    ∃ inbox', Midway m outcomes (fed ++ chunk) (s + 1) inbox' ∧
      Returns (Inbox.receive (fragmentFrame m.packetType m.flags chunk true s)) inbox () inbox' := by
  have hmore : (fragmentFrame m.packetType m.flags chunk true s).hasMore = true :=
    fragmentFrame_hasMore m.not_more
  cases h with
  | collecting hfits =>
    rcases Nat.lt_or_ge (reassemblyCap m.packetType) (fed ++ chunk).length with hlarge | hfits'
    · have h : Returns (Inbox.reassemble (fragmentFrame m.packetType m.flags chunk true s))
          (.gathering m outcomes fed s) _ _ :=
        Inbox.reassemble_tooLarge rfl (Reassembler.push_tooLarge _
          (continues_fragment m fed chunk s true) hlarge)
      rw [if_pos hmore] at h
      exact ⟨_, .skipping hlarge, Inbox.receive_none h⟩
    · have hpush := Reassembler.push_continues (reassemblyCap m.packetType)
        (continues_fragment m fed chunk s true) hfits'
      rw [if_pos hmore] at hpush
      have h : Returns (Inbox.reassemble (fragmentFrame m.packetType m.flags chunk true s))
          (.gathering m outcomes fed s) _ _ := Inbox.reassemble_pushed rfl hpush
      exact ⟨_, .collecting hfits', Inbox.receive_none h⟩
  | skipping hlarge =>
    have h : Returns (Inbox.reassemble (fragmentFrame m.packetType m.flags chunk true s))
        (.dropping m outcomes s) _ _ :=
      Inbox.reassemble_skipped rfl fragmentFrame_isFragment rfl rfl
    rw [if_pos hmore] at h
    refine ⟨_, .skipping ?_, Inbox.receive_none h⟩
    rw [List.length_append]
    omega

/-- **The last fragment completes the message, or brings the answer to it.** -/
theorem Midway.receive_last (h : Midway m outcomes fed s inbox) {maxPayload : UInt32}
    (hlong : maxPayload.toNat < m.payload.length) (hwhole : fed ++ chunk = m.payload) :
    ∃ outcome, Settles maxPayload m outcome ∧
      Returns (Inbox.receive (fragmentFrame m.packetType m.flags chunk false s)) inbox ()
        (.closed (outcomes ++ [outcome])) := by
  have hlast : ¬(fragmentFrame m.packetType m.flags chunk false s).hasMore = true := by
    have hnone : (fragmentFrame m.packetType m.flags chunk false s).hasMore = false :=
      fragmentFrame_hasMore m.not_more
    rw [hnone]
    exact Bool.false_ne_true
  cases h with
  | collecting hfits =>
    rcases Nat.lt_or_ge (reassemblyCap m.packetType) (fed ++ chunk).length with hlarge | hfits'
    · have h : Returns (Inbox.reassemble (fragmentFrame m.packetType m.flags chunk false s))
          (.gathering m outcomes fed s) _ _ :=
        Inbox.reassemble_tooLarge rfl (Reassembler.push_tooLarge _
          (continues_fragment m fed chunk s false) hlarge)
      rw [if_neg hlast] at h
      exact ⟨_, .refused hlong (hwhole ▸ hlarge), Inbox.receive_none h⟩
    · have hpush := Reassembler.push_continues (reassemblyCap m.packetType)
        (continues_fragment m fed chunk s false) hfits'
      rw [if_neg hlast] at hpush
      have h : Returns (Inbox.reassemble (fragmentFrame m.packetType m.flags chunk false s))
          (.gathering m outcomes fed s) _ _ := Inbox.reassemble_pushed rfl hpush
      refine ⟨_, .message (.inr (hwhole ▸ hfits')) ⟨rfl, ?_, hwhole, ?_⟩ ?_, Inbox.receive_some h⟩
      · exact wholeHeader_flags m.not_fragmented m.not_more _
      · rw [← hwhole]
        rfl
      · rw [← hwhole]
        exact UInt32.toNat_ofNat_of_lt' (lt_of_le_of_lt hfits' (reassemblyCap_lt _))
  | skipping hlarge =>
    have h : Returns (Inbox.reassemble (fragmentFrame m.packetType m.flags chunk false s))
        (.dropping m outcomes s) _ _ :=
      Inbox.reassemble_skipped rfl fragmentFrame_isFragment rfl rfl
    rw [if_neg hlast] at h
    refine ⟨_, .refused hlong ?_, Inbox.receive_none h⟩
    rw [← hwhole, List.length_append]
    omega

end Fragments

/-! ### All frames of all messages -/

/-- A frame's worth of room is left: what is buffered fits the cap of the frame's type. -/
def Inbox.Roomy (inbox : Inbox) (frame : KdxFrame) : Prop :=
  inbox.reassembler.buffer.length ≤ reassemblyCap frame.header.packetType

/-- The inbox takes the frames one after another, and has room for each. -/
inductive Feeds : Inbox → List KdxFrame → Inbox → Prop
  | nil (inbox : Inbox) : Feeds inbox [] inbox
  | cons {a b c : Inbox} {frame : KdxFrame} {frames : List KdxFrame} (hroomy : a.Roomy frame)
      (h : Returns (Inbox.receive frame) a () b) (hrest : Feeds b frames c) :
      Feeds a (frame :: frames) c

namespace Feeds

variable {a b c : Inbox} {frame : KdxFrame} {frames rest : List KdxFrame}

theorem append (h : Feeds a frames b) (h' : Feeds b rest c) : Feeds a (frames ++ rest) c := by
  induction h with
  | nil => exact h'
  | cons hroomy hreceive _ ih => exact .cons hroomy hreceive (ih h')

theorem returns (h : Feeds a frames b) : Returns (Inbox.receiveAll frames) a () b := by
  induction h with
  | nil => exact returns_pure.mpr ⟨rfl, rfl⟩
  | cons _ hreceive _ ih => exact returns_bind.mpr ⟨(), _, hreceive, ih⟩

/-- Before each frame there was an inbox with room for it. -/
theorem roomy (h : Feeds a frames b) {seen : List KdxFrame} (hsplit : seen ++ frame :: rest = frames) :
    ∃ inbox, Returns (Inbox.receiveAll seen) a () inbox ∧ inbox.Roomy frame := by
  induction h generalizing seen with
  | nil => simp at hsplit
  | cons hroomy hreceive _ ih =>
    cases seen with
    | nil =>
      cases hsplit
      exact ⟨_, returns_pure.mpr ⟨rfl, rfl⟩, hroomy⟩
    | cons first seen =>
      obtain ⟨rfl, hlater⟩ := List.cons.inj hsplit
      obtain ⟨inbox, hseen, hroomy⟩ := ih hlater
      exact ⟨inbox, returns_bind.mpr ⟨(), _, hreceive, hseen⟩, hroomy⟩

end Feeds

section Loop

variable {m : Message} {outcomes : List Outcome} {fed : List UInt8} {s : UInt32} {inbox : Inbox}

theorem Midway.roomy (h : Midway m outcomes fed s inbox) (chunk : List UInt8) (more : Bool)
    (sequence : UInt32) : inbox.Roomy (fragmentFrame m.packetType m.flags chunk more sequence) := by
  cases h with
  | collecting hfits => exact hfits
  | skipping hlarge => exact Nat.zero_le _

variable (outcomes) in
theorem closed_roomy (frame : KdxFrame) : (Inbox.closed outcomes).Roomy frame := Nat.zero_le _

variable {maxPayload : UInt32} {hmax : 0 < maxPayload}

variable (hmax) in
/-- **The fragments that are left of a message bring what becomes of it.** -/
theorem Midway.feeds_loop {remaining : List UInt8} (h : Midway m outcomes fed s inbox)
    (hne : remaining ≠ []) (hlong : maxPayload.toNat < m.payload.length)
    (hwhole : fed ++ remaining = m.payload) : ∃ outcome, Settles maxPayload m outcome ∧
      Feeds inbox (fragmentLoop m.packetType m.flags maxPayload hmax counter remaining s).1
        (.closed (outcomes ++ [outcome])) := by
  induction hn : remaining.length using Nat.strongRecOn generalizing remaining fed s inbox with
  | ind n ih =>
    have hsplit := List.take_append_drop (min remaining.length maxPayload.toNat) remaining
    have hshorter := length_drop_lt hmax hne
    obtain ⟨chunk, hchunk⟩ : ∃ chunk, remaining.take (min remaining.length maxPayload.toNat) = chunk :=
      ⟨_, rfl⟩
    obtain ⟨rest, hrest⟩ : ∃ rest, remaining.drop (min remaining.length maxPayload.toNat) = rest :=
      ⟨_, rfl⟩
    rw [Reassembler.fragmentLoop_cons hne hchunk hrest]
    rw [hchunk, hrest] at hsplit
    rw [hrest] at hshorter
    rw [← hsplit, ← List.append_assoc] at hwhole
    cases rest with
    | nil =>
      rw [List.append_nil] at hwhole
      obtain ⟨outcome, hsettles, hreceive⟩ := h.receive_last hlong hwhole
      refine ⟨outcome, hsettles, .cons (h.roomy _ _ _) hreceive ?_⟩
      rw [fragmentLoop, dif_pos rfl]
      exact .nil _
    | cons byte rest =>
      obtain ⟨inbox', hmidway, hreceive⟩ := h.receive_next chunk
      obtain ⟨outcome, hsettles, hfeeds⟩ := ih _ (hn ▸ hshorter) hmidway (List.cons_ne_nil byte rest)
        hwhole rfl
      exact ⟨outcome, hsettles, .cons (h.roomy _ _ _) hreceive hfeeds⟩

variable (maxPayload hmax m outcomes s) in
/-- **The frames of one message bring what becomes of it**, and leave the inbox closed. -/
theorem feeds_fragment : ∃ outcome, Settles maxPayload m outcome ∧
    Feeds (.closed outcomes) (fragment m.packetType m.flags m.payload maxPayload hmax counter s).1
      (.closed (outcomes ++ [outcome])) := by
  rw [fragment]
  split
  · rename_i hshort
    have hlength : (UInt32.ofNat m.payload.length).toNat = m.payload.length :=
      UInt32.toNat_ofNat_of_lt' (lt_of_le_of_lt hshort maxPayload.toNat_lt)
    obtain ⟨frame, hframe⟩ : ∃ frame : KdxFrame, frame = ⟨⟨protocolVersion, m.packetType, m.flags, s,
      UInt32.ofNat m.payload.length⟩, m.payload⟩ := ⟨_, rfl⟩
    have hplain : frame.isFragment = false := hframe ▸ m.not_fragmented
    have h : Returns (Inbox.reassemble frame) (.closed outcomes) (some frame) (.closed outcomes) :=
      Inbox.reassemble_pushed rfl (Reassembler.push_whole hplain rfl)
    refine ⟨.message frame, .message (.inl hshort) ?_ ?_, ?_⟩
    · exact hframe ▸ ⟨rfl, rfl, rfl, rfl⟩
    · exact hframe ▸ hlength
    · change Feeds _ [_] _
      exact hframe ▸ .cons (closed_roomy outcomes frame) (Inbox.receive_some h) (.nil _)
  · rename_i hlong
    have hpos : 0 < maxPayload.toNat := UInt32.lt_iff_toNat_lt.mp hmax
    have hne : m.payload ≠ [] := by
      rintro he
      rw [he] at hlong
      exact hlong (Nat.zero_le _)
    obtain ⟨chunk, hchunk⟩ : ∃ chunk, m.payload.take (min m.payload.length maxPayload.toNat) = chunk :=
      ⟨_, rfl⟩
    obtain ⟨rest, hrest⟩ : ∃ rest, m.payload.drop (min m.payload.length maxPayload.toNat) = rest :=
      ⟨_, rfl⟩
    have hwhole : chunk ++ rest = m.payload := by rw [← hchunk, ← hrest, List.take_append_drop]
    have hleft : rest ≠ [] := by
      rintro he
      have hlength := congrArg List.length hrest
      rw [he, List.length_drop, List.length_nil] at hlength
      omega
    rw [Reassembler.fragmentLoop_cons hne hchunk hrest, List.isEmpty_eq_false_iff.mpr hleft]
    obtain ⟨inbox, hmidway, hreceive⟩ := receive_first m outcomes chunk s
    obtain ⟨outcome, hsettles, hfeeds⟩ := hmidway.feeds_loop hmax hleft (Nat.not_le.mp hlong) hwhole
    exact ⟨outcome, hsettles, .cons (closed_roomy outcomes _) hreceive hfeeds⟩

end Loop

/-- A message, and the size of the frames it is sent in. -/
structure Sending where
  message : Message
  maxPayload : UInt32
  hmax : 0 < maxPayload

namespace Sending

/-- The frames of a message. -/
def frames (sending : Sending) (s : UInt32) : List KdxFrame × UInt32 :=
  fragment sending.message.packetType sending.message.flags sending.message.payload
    sending.maxPayload sending.hmax counter s

/-- What becomes of the message. -/
def Settles (sending : Sending) (outcome : Outcome) : Prop :=
  Protocol.Settles sending.maxPayload sending.message outcome

end Sending

/-- Send messages one after another, under one counter. -/
def sendAll : List Sending → UInt32 → List KdxFrame × UInt32
  | [], s => ([], s)
  | sending :: sendings, s =>
    let (frames, s) := sending.frames s
    let (rest, s) := sendAll sendings s
    (frames ++ rest, s)

/-- **The frames of the messages bring what becomes of them**, one after another. -/
theorem feeds_sendAll : ∀ (sendings : List Sending) (outcomes : List Outcome) (s : UInt32),
    ∃ settled, List.Forall₂ Sending.Settles sendings settled ∧
      Feeds (.closed outcomes) (sendAll sendings s).1 (.closed (outcomes ++ settled))
  | [], outcomes, _ => ⟨[], .nil, (List.append_nil outcomes).symm ▸ .nil _⟩
  | sending :: sendings, outcomes, s => by
    obtain ⟨outcome, hsettles, hfirst⟩ :=
      feeds_fragment sending.message outcomes s sending.maxPayload sending.hmax
    obtain ⟨settled, hsettled, hrest⟩ :=
      feeds_sendAll sendings (outcomes ++ [outcome]) (sending.frames s).2
    rw [List.append_assoc] at hrest
    exact ⟨outcome :: settled, .cons hsettles hsettled, hfirst.append hrest⟩

/-- The frames of the first messages are the first frames. -/
theorem sendAll_append (before after : List Sending) (s : UInt32) :
    (sendAll (before ++ after) s).1 =
      (sendAll before s).1 ++ (sendAll after (sendAll before s).2).1 := by
  induction before generalizing s with
  | nil => rfl
  | cons sending before ih =>
    change (sending.frames s).1 ++ (sendAll (before ++ after) (sending.frames s).2).1 = _
    rw [ih, ← List.append_assoc]
    rfl

/-- **A message that is too large is one answer and nothing else.** Whatever is sent, in
frames of whatever size, nothing that is received fails, and each message is handed on or
answered with one error as its size says. After the last frame of each message no group is
open and none is skipped. Before each frame what is buffered fits the cap of the message,
and with the frame it is no more than a frame longer. -/
theorem oversized_never_derails (sendings : List Sending) (sequence : UInt32) :
    (∃ outcomes, List.Forall₂ Sending.Settles sendings outcomes ∧
      Returns (Inbox.receiveAll (sendAll sendings sequence).1) .fresh () (.closed outcomes)) ∧
    (∀ before after, before ++ after = sendings →
      (sendAll before sequence).1 <+: (sendAll sendings sequence).1 ∧
      ∃ outcomes, List.Forall₂ Sending.Settles before outcomes ∧
        Returns (Inbox.receiveAll (sendAll before sequence).1) .fresh () (.closed outcomes)) ∧
    (∀ seen frame rest, seen ++ frame :: rest = (sendAll sendings sequence).1 →
      ∃ inbox, Returns (Inbox.receiveAll seen) .fresh () inbox ∧
        inbox.reassembler.buffer.length ≤ reassemblyCap frame.header.packetType ∧
        ∀ maxTotal answer r, Ends (Reassembler.push frame maxTotal) inbox.reassembler answer r →
          r.buffer.length ≤ reassemblyCap frame.header.packetType + frame.payload.length) := by
  have hsettled : ∀ sendings : List Sending, ∃ outcomes,
      List.Forall₂ Sending.Settles sendings outcomes ∧
        Feeds .fresh (sendAll sendings sequence).1 (.closed outcomes) :=
    fun sendings => feeds_sendAll sendings [] sequence
  refine ⟨?_, fun before after hsplit => ⟨?_, ?_⟩, fun seen frame rest hsplit => ?_⟩
  · obtain ⟨outcomes, hsettles, hfeeds⟩ := hsettled sendings
    exact ⟨outcomes, hsettles, hfeeds.returns⟩
  · rw [← hsplit, sendAll_append]
    exact List.prefix_append _ _
  · obtain ⟨outcomes, hsettles, hfeeds⟩ := hsettled before
    exact ⟨outcomes, hsettles, hfeeds.returns⟩
  · obtain ⟨outcomes, -, hfeeds⟩ := hsettled sendings
    obtain ⟨inbox, hseen, hroomy⟩ := hfeeds.roomy hsplit
    refine ⟨inbox, hseen, hroomy, fun maxTotal answer r hends => ?_⟩
    have hroom : inbox.reassembler.buffer.length ≤ reassemblyCap frame.header.packetType := hroomy
    have hgrown := Reassembler.buffer_of_ends hends
    omega

end Protocol

end KdxHotline
