import Mathlib.Data.List.Chain
import KdxHotline.Foundations.Runs
import KdxHotline.Protocol.Codec

/-!
# Fragments

A payload longer than a frame may be is cut into fragments, frames of consecutive
sequence numbers that the receiver puts together again
(`KdxHotline.Protocol.fragment`, `KdxHotline.Protocol.Reassembler.push`).

What one push does is told once, in nine cases
(`KdxHotline.Protocol.Reassembler.Pushed`). Two results are drawn from it: messages
that were cut come back whole (`KdxHotline.Protocol.reassembly`), and whatever is
pushed, what comes back was sent as one group (`KdxHotline.Protocol.hostile_reassembly`).
-/

namespace KdxHotline

namespace Protocol

open Foundations

/-! ### Cutting -/

namespace KdxFrame

/-- Whether the frame is a fragment. -/
def isFragment (frame : KdxFrame) : Bool := frame.header.flags.contains PacketFlags.fragmented

/-- Whether the frame is a fragment that others follow. -/
def hasMore (frame : KdxFrame) : Bool := frame.header.flags.contains PacketFlags.moreFragments

end KdxFrame

section Cutting

variable {σ : Type}

/-- The frame of one fragment. -/
def fragmentFrame (packetType : PacketType) (flags : PacketFlags) (chunk : List UInt8) (more : Bool)
    (sequence : UInt32) : KdxFrame :=
  let frameFlags := flags ||| PacketFlags.fragmented
  let frameFlags := if more then frameFlags ||| PacketFlags.moreFragments else frameFlags
  ⟨⟨protocolVersion, packetType, frameFlags, sequence, UInt32.ofNat chunk.length⟩, chunk⟩

/-- Something is cut off in every round. -/
theorem length_drop_lt {maxPayload : UInt32} (hmax : 0 < maxPayload) {remaining : List UInt8}
    (h : remaining ≠ []) :
    (remaining.drop (min remaining.length maxPayload.toNat)).length < remaining.length := by
  have hpos : 0 < maxPayload.toNat := UInt32.lt_iff_toNat_lt.mp hmax
  have hlen := List.length_pos_iff.mpr h
  rw [List.length_drop]
  omega

/-- Cut off fragments for as long as something remains. -/
def fragmentLoop (packetType : PacketType) (flags : PacketFlags) (maxPayload : UInt32)
    (hmax : 0 < maxPayload) (nextSequence : σ → UInt32 × σ) (remaining : List UInt8) (s : σ) :
    List KdxFrame × σ :=
  if _ : remaining = [] then ([], s)
  else
    let take := min remaining.length maxPayload.toNat
    let chunk := remaining.take take
    let (sequence, s) := nextSequence s
    let frame := fragmentFrame packetType flags chunk (!(remaining.drop take).isEmpty) sequence
    let (frames, s) := fragmentLoop packetType flags maxPayload hmax nextSequence
      (remaining.drop take) s
    (frame :: frames, s)
  termination_by remaining.length
  decreasing_by exact length_drop_lt hmax ‹_›

/-- Cut a payload into frames of at most `maxPayload` bytes; one that fits in a frame is
not cut. -/
def fragment (packetType : PacketType) (flags : PacketFlags) (payload : List UInt8)
    (maxPayload : UInt32) (hmax : 0 < maxPayload) (nextSequence : σ → UInt32 × σ) (s : σ) :
    List KdxFrame × σ :=
  if payload.length ≤ maxPayload.toNat then
    let (sequence, s) := nextSequence s
    ([⟨⟨protocolVersion, packetType, flags, sequence, UInt32.ofNat payload.length⟩, payload⟩], s)
  else fragmentLoop packetType flags maxPayload hmax nextSequence payload s

end Cutting

/-! ### Putting together -/

/-- What is known of the group that is open. -/
structure GroupState where
  packetType : PacketType
  nextSequence : UInt32
  maxTotal : ℕ
  deriving DecidableEq

/-- The fragments of a group, while one is open. -/
structure Reassembler where
  buffer : List UInt8
  inProgress : Option GroupState
  deriving DecidableEq

namespace Reassembler

/-- Nothing open. -/
def default : Reassembler := ⟨[], none⟩

/-- Set what has arrived. -/
def setBuffer (buffer : List UInt8) (r : Reassembler) : Reassembler := { r with buffer := buffer }

/-- Add to what has arrived. -/
def extend (bytes : List UInt8) (r : Reassembler) : Reassembler :=
  { r with buffer := r.buffer ++ bytes }

/-- Open or close a group. -/
def setGroup (group : Option GroupState) (r : Reassembler) : Reassembler :=
  { r with inProgress := group }

/-- Drop what was put together so far. -/
def abort (r : Reassembler) : Reassembler := (r.setGroup none).setBuffer []

/-- The header of a message, from the one of its last fragment. -/
def wholeHeader (last : PacketHeader) (length : ℕ) : PacketHeader :=
  { last with
    length := UInt32.ofNat length
    flags := last.flags &&& ~~~(PacketFlags.fragmented ||| PacketFlags.moreFragments) }

/-- Hand the buffer over as a message. -/
def finish (last : PacketHeader) : Fallible Reassembler ProtocolError KdxFrame := do
  let r ← get
  modify (setBuffer [])
  return ⟨wholeHeader last r.buffer.length, r.buffer⟩

/-- Push the first fragment of a group. -/
def pushFirst (frame : KdxFrame) (maxTotal : ℕ) :
    Fallible Reassembler ProtocolError (Option KdxFrame) := do
  modify (setBuffer frame.payload)
  check (refuseIf (decide (maxTotal < frame.payload.length)) (.reassemblyTooLarge maxTotal))
  if frame.hasMore then do
    modify (setGroup (some ⟨frame.header.packetType, frame.header.sequence + 1, maxTotal⟩))
    return none
  else some <$> finish frame.header

/-- Push a fragment of the group that is open. -/
def pushNext (group : GroupState) (frame : KdxFrame) :
    Fallible Reassembler ProtocolError (Option KdxFrame) := do
  check (refuseIf (decide (frame.header.packetType ≠ group.packetType)) .fragmentInterleaved)
  check (refuseIf (decide (frame.header.sequence ≠ group.nextSequence))
    (.fragmentOutOfOrder group.nextSequence frame.header.sequence))
  modify (setGroup (some { group with nextSequence := group.nextSequence + 1 }))
  -- the payload is taken in before the check, and stays when the frame is refused
  modify (extend frame.payload)
  let r ← get
  if group.maxTotal < r.buffer.length then do
    modify (setGroup none)
    check (.error (.reassemblyTooLarge group.maxTotal))
  else if frame.hasMore then return none
  else do
    modify (setGroup none)
    some <$> finish frame.header

/-- Push one frame: the message it completes, if it does. -/
def push (frame : KdxFrame) (maxTotal : ℕ) :
    Fallible Reassembler ProtocolError (Option KdxFrame) := do
  let r ← get
  if !frame.isFragment then do
    check (refuseIf r.inProgress.isSome .fragmentInterleaved)
    return some frame
  else match r.inProgress with
    | none => pushFirst frame maxTotal
    | some group => pushNext group frame

/-! ### What a push does -/

/-- The frame is the next fragment of the group that is open. -/
structure Continues (r : Reassembler) (group : GroupState) (frame : KdxFrame) : Prop where
  isOpen : r.inProgress = some group
  isFragment : frame.isFragment = true
  packetType : frame.header.packetType = group.packetType
  sequence : frame.header.sequence = group.nextSequence

/-- What comes of pushing a frame: the answer, and the reassembler afterwards. -/
inductive Pushed (r : Reassembler) (frame : KdxFrame) (maxTotal : ℕ) :
    Except ProtocolError (Option KdxFrame) → Reassembler → Prop
  /-- A frame that is no fragment passes through. -/
  | whole (hplain : frame.isFragment = false) (hclosed : r.inProgress = none) :
      Pushed r frame maxTotal (.ok (some frame)) r
  /-- Nothing but its own fragments may come between the fragments of a group. -/
  | interleaved (group : GroupState) (hopen : r.inProgress = some group)
      (hforeign : frame.isFragment = false ∨ frame.header.packetType ≠ group.packetType) :
      Pushed r frame maxTotal (.error .fragmentInterleaved) r
  | outOfOrder (group : GroupState) (hopen : r.inProgress = some group)
      (hlate : frame.header.sequence ≠ group.nextSequence) :
      Pushed r frame maxTotal
        (.error (.fragmentOutOfOrder group.nextSequence frame.header.sequence)) r
  /-- The first fragment of a group is too much already. -/
  | tooLargeFirst (hfragment : frame.isFragment = true) (hclosed : r.inProgress = none)
      (hlarge : maxTotal < frame.payload.length) :
      Pushed r frame maxTotal (.error (.reassemblyTooLarge maxTotal)) ⟨frame.payload, none⟩
  | opens (hfragment : frame.isFragment = true) (hclosed : r.inProgress = none)
      (hfits : frame.payload.length ≤ maxTotal) (hmore : frame.hasMore = true) :
      Pushed r frame maxTotal (.ok none)
        ⟨frame.payload, some ⟨frame.header.packetType, frame.header.sequence + 1, maxTotal⟩⟩
  /-- A group of one fragment. -/
  | single (hfragment : frame.isFragment = true) (hclosed : r.inProgress = none)
      (hfits : frame.payload.length ≤ maxTotal) (hlast : frame.hasMore = false) :
      Pushed r frame maxTotal
        (.ok (some ⟨wholeHeader frame.header frame.payload.length, frame.payload⟩)) ⟨[], none⟩
  | tooLarge (group : GroupState) (hnext : Continues r group frame)
      (hlarge : group.maxTotal < (r.buffer ++ frame.payload).length) :
      Pushed r frame maxTotal (.error (.reassemblyTooLarge group.maxTotal))
        ⟨r.buffer ++ frame.payload, none⟩
  | extends_ (group : GroupState) (hnext : Continues r group frame)
      (hfits : (r.buffer ++ frame.payload).length ≤ group.maxTotal) (hmore : frame.hasMore = true) :
      Pushed r frame maxTotal (.ok none)
        ⟨r.buffer ++ frame.payload, some { group with nextSequence := group.nextSequence + 1 }⟩
  | closes (group : GroupState) (hnext : Continues r group frame)
      (hfits : (r.buffer ++ frame.payload).length ≤ group.maxTotal) (hlast : frame.hasMore = false) :
      Pushed r frame maxTotal
        (.ok (some ⟨wholeHeader frame.header (r.buffer ++ frame.payload).length,
          r.buffer ++ frame.payload⟩)) ⟨[], none⟩

section Spec

variable {r t : Reassembler} {frame : KdxFrame} {maxTotal : ℕ} {group : GroupState}

theorem returns_finish (last : PacketHeader) :
    Returns (finish last) r ⟨wholeHeader last r.buffer.length, r.buffer⟩ (r.setBuffer []) := rfl

theorem push_plain (hplain : frame.isFragment = false) : (push frame maxTotal).run r =
    (check (refuseIf r.inProgress.isSome .fragmentInterleaved) >>= fun _ =>
      (pure (some frame) : Fallible Reassembler ProtocolError _)).run r := by
  rw [push, run_bind (returns_get.mpr ⟨rfl, rfl⟩), hplain]
  rfl

theorem push_first (hfragment : frame.isFragment = true) (hclosed : r.inProgress = none) :
    (push frame maxTotal).run r = (pushFirst frame maxTotal).run r := by
  rw [push, run_bind (returns_get.mpr ⟨rfl, rfl⟩), hfragment, hclosed]
  rfl

theorem push_next (hfragment : frame.isFragment = true) (hopen : r.inProgress = some group) :
    (push frame maxTotal).run r = (pushNext group frame).run r := by
  rw [push, run_bind (returns_get.mpr ⟨rfl, rfl⟩), hfragment, hopen]
  rfl

variable (maxTotal) in
/-- What a first fragment does. -/
theorem pushFirst_pushed (hfragment : frame.isFragment = true) (hclosed : r.inProgress = none) :
    ∃ answer t, Ends (pushFirst frame maxTotal) r answer t ∧ Pushed r frame maxTotal answer t := by
  have hbuffer : r.setBuffer frame.payload = ⟨frame.payload, none⟩ := by rw [setBuffer, hclosed]
  by_cases hlarge : maxTotal < frame.payload.length
  · refine ⟨_, _, ?_, .tooLargeFirst hfragment hclosed hlarge⟩
    refine fails_bind.mpr (.inr ⟨(), _, returns_modify.mpr hbuffer, fails_bind.mpr (.inl ?_)⟩)
    exact fails_check.mpr ⟨refuseIf_eq_error.mpr ⟨decide_eq_true hlarge, rfl⟩, rfl⟩
  · have hfits := Nat.not_lt.mp hlarge
    have hcheck := refuseIf_eq_ok (e := ProtocolError.reassemblyTooLarge maxTotal) (u := ())
      |>.mpr (decide_eq_false hlarge)
    cases hmore : frame.hasMore with
    | true =>
      refine ⟨_, _, ?_, .opens hfragment hclosed hfits hmore⟩
      refine returns_bind.mpr ⟨(), _, returns_modify.mpr hbuffer, ?_⟩
      refine returns_bind.mpr ⟨(), _, returns_check.mpr ⟨hcheck, rfl⟩, ?_⟩
      rw [if_pos hmore]
      exact returns_bind.mpr ⟨(), _, returns_modify.mpr rfl, returns_pure.mpr ⟨rfl, rfl⟩⟩
    | false =>
      refine ⟨_, _, ?_, .single hfragment hclosed hfits hmore⟩
      refine returns_bind.mpr ⟨(), _, returns_modify.mpr hbuffer, ?_⟩
      refine returns_bind.mpr ⟨(), _, returns_check.mpr ⟨hcheck, rfl⟩, ?_⟩
      rw [if_neg (Bool.eq_false_iff.mp hmore)]
      exact returns_map.mpr ⟨_, returns_finish _, rfl⟩

variable (maxTotal) in
/-- What a later fragment does. -/
theorem pushNext_pushed (hfragment : frame.isFragment = true) (hopen : r.inProgress = some group) :
    ∃ answer t, Ends (pushNext group frame) r answer t ∧ Pushed r frame maxTotal answer t := by
  by_cases htype : frame.header.packetType = group.packetType
  case neg =>
    refine ⟨_, _, ?_, .interleaved group hopen (.inr htype)⟩
    exact fails_bind.mpr (.inl (fails_check.mpr
      ⟨refuseIf_eq_error.mpr ⟨decide_eq_true htype, rfl⟩, rfl⟩))
  have htype' := refuseIf_eq_ok (e := ProtocolError.fragmentInterleaved) (u := ()) |>.mpr
    (decide_eq_false (not_not.mpr htype))
  by_cases hsequence : frame.header.sequence = group.nextSequence
  case neg =>
    refine ⟨_, _, ?_, .outOfOrder group hopen hsequence⟩
    refine fails_bind.mpr (.inr ⟨(), _, returns_check.mpr ⟨htype', rfl⟩, ?_⟩)
    exact fails_bind.mpr (.inl (fails_check.mpr
      ⟨refuseIf_eq_error.mpr ⟨decide_eq_true hsequence, rfl⟩, rfl⟩))
  have hsequence' := refuseIf_eq_ok (u := ())
    (e := ProtocolError.fragmentOutOfOrder group.nextSequence frame.header.sequence) |>.mpr
    (decide_eq_false (not_not.mpr hsequence))
  have hnext : Continues r group frame := ⟨hopen, hfragment, htype, hsequence⟩
  -- from here on the frame is taken, and only its size and its flag count
  have htaken : ∀ {answer t}, Ends (do
      let r ← get
      if group.maxTotal < r.buffer.length then do
        modify (setGroup none)
        check (.error (.reassemblyTooLarge group.maxTotal))
      else if frame.hasMore then return none
      else do
        modify (setGroup none)
        some <$> finish frame.header) ⟨r.buffer ++ frame.payload,
          some { group with nextSequence := group.nextSequence + 1 }⟩ answer t →
      Ends (pushNext group frame) r answer t := by
    intro answer t h
    refine Eq.trans ?_ h
    rw [pushNext, run_bind (returns_check.mpr ⟨htype', rfl⟩),
      run_bind (returns_check.mpr ⟨hsequence', rfl⟩), run_bind (a := ()) (returns_modify.mpr rfl),
      run_bind (a := ()) (returns_modify.mpr rfl)]
    rfl
  by_cases hlarge : group.maxTotal < (r.buffer ++ frame.payload).length
  · refine ⟨_, _, htaken ?_, .tooLarge group hnext hlarge⟩
    refine fails_bind.mpr (.inr ⟨_, _, returns_get.mpr ⟨rfl, rfl⟩, ?_⟩)
    rw [if_pos hlarge]
    exact fails_bind.mpr (.inr ⟨(), _, returns_modify.mpr rfl, fails_check.mpr ⟨rfl, rfl⟩⟩)
  · have hfits := Nat.not_lt.mp hlarge
    cases hmore : frame.hasMore with
    | true =>
      refine ⟨_, _, htaken ?_, .extends_ group hnext hfits hmore⟩
      refine returns_bind.mpr ⟨_, _, returns_get.mpr ⟨rfl, rfl⟩, ?_⟩
      rw [if_neg hlarge, if_pos hmore]
      exact returns_pure.mpr ⟨rfl, rfl⟩
    | false =>
      refine ⟨_, _, htaken ?_, .closes group hnext hfits hmore⟩
      refine returns_bind.mpr ⟨_, _, returns_get.mpr ⟨rfl, rfl⟩, ?_⟩
      rw [if_neg hlarge, if_neg (Bool.eq_false_iff.mp hmore)]
      refine returns_bind.mpr ⟨(), _, returns_modify.mpr rfl, ?_⟩
      exact returns_map.mpr ⟨_, returns_finish _, rfl⟩

/-- **A push ends in one of nine ways.** -/
theorem exists_pushed (r : Reassembler) (frame : KdxFrame) (maxTotal : ℕ) :
    ∃ answer t, Ends (push frame maxTotal) r answer t ∧ Pushed r frame maxTotal answer t := by
  cases hfragment : frame.isFragment with
  | false =>
    cases hopen : r.inProgress with
    | none =>
      refine ⟨_, _, ?_, .whole hfragment hopen⟩
      rw [Ends, push_plain hfragment, hopen]
      rfl
    | some group =>
      refine ⟨_, _, ?_, .interleaved group hopen (.inl hfragment)⟩
      rw [Ends, push_plain hfragment, hopen]
      rfl
  | true =>
    cases hopen : r.inProgress with
    | none =>
      obtain ⟨answer, t, hends, hp⟩ := pushFirst_pushed maxTotal hfragment hopen
      exact ⟨answer, t, (push_first hfragment hopen).trans hends, hp⟩
    | some group =>
      obtain ⟨answer, t, hends, hp⟩ := pushNext_pushed maxTotal hfragment hopen
      exact ⟨answer, t, (push_next hfragment hopen).trans hends, hp⟩

/-- Whatever a push does is one of the nine. -/
theorem pushed_of_ends {answer : Except ProtocolError (Option KdxFrame)}
    (h : Ends (push frame maxTotal) r answer t) : Pushed r frame maxTotal answer t := by
  obtain ⟨answer', t', hends, hp⟩ := exists_pushed r frame maxTotal
  obtain ⟨rfl, rfl⟩ := h.unique hends
  exact hp

end Spec

end Reassembler

end Protocol

end KdxHotline
