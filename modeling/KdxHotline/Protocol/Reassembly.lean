import KdxHotline.Protocol.Fragment

/-!
# Messages over fragments

What the reassembler makes of the frames it is pushed. Messages that were cut and
sent one after another come back one after another
(`KdxHotline.Protocol.reassembly`). And whatever is pushed, in whatever order, a
message that comes back was pushed as one group, of which no other group and no
refused frame is a part (`KdxHotline.Protocol.hostile_reassembly`).
-/

namespace KdxHotline

namespace Protocol

open Foundations

/-! ### The two flags of a fragment -/

namespace PacketFlags

variable {flags : PacketFlags}

/-- A flag is one bit. -/
theorem getLsbD_bit {k : ℕ} (hk : k < 16) (i : ℕ) :
    ((1 : PacketFlags) <<< k).getLsbD i = decide (i = k) := by
  rw [BitVec.getLsbD_shiftLeft]
  by_cases hi : i = k
  · subst hi
    simp [hk]
  · by_cases hlt : i < k
    · simp [hlt, hi]
    · have hpos : ¬i - k = 0 := by omega
      simp [hi, hpos, BitVec.getLsbD_one]

@[simp] theorem getLsbD_fragmented (i : ℕ) : fragmented.getLsbD i = decide (i = 12) :=
  getLsbD_bit (by decide) i

@[simp] theorem getLsbD_moreFragments (i : ℕ) : moreFragments.getLsbD i = decide (i = 13) :=
  getLsbD_bit (by decide) i

theorem contains_fragmented : flags.contains fragmented = flags.getLsbD 12 := by
  rw [contains, Bool.eq_iff_iff, decide_eq_true_iff, within_iff]
  simp

theorem contains_moreFragments : flags.contains moreFragments = flags.getLsbD 13 := by
  rw [contains, Bool.eq_iff_iff, decide_eq_true_iff, within_iff]
  simp

end PacketFlags

section Flags

variable {packetType : PacketType} {flags : PacketFlags} {chunk : List UInt8} {more : Bool}
  {sequence : UInt32}

/-- The flags of a fragment are the message's and the one or two that mark it. -/
theorem fragmentFrame_getLsbD (i : ℕ) :
    (fragmentFrame packetType flags chunk more sequence).header.flags.getLsbD i =
      (flags.getLsbD i || decide (i = 12) || more && decide (i = 13)) := by
  cases more with
  | false =>
    have hflags : (fragmentFrame packetType flags chunk false sequence).header.flags =
        flags ||| PacketFlags.fragmented := rfl
    rw [hflags, BitVec.getLsbD_or, PacketFlags.getLsbD_fragmented, Bool.false_and, Bool.or_false]
  | true =>
    have hflags : (fragmentFrame packetType flags chunk true sequence).header.flags =
        flags ||| PacketFlags.fragmented ||| PacketFlags.moreFragments := rfl
    rw [hflags, BitVec.getLsbD_or, BitVec.getLsbD_or, PacketFlags.getLsbD_fragmented,
      PacketFlags.getLsbD_moreFragments, Bool.true_and]

theorem fragmentFrame_isFragment :
    (fragmentFrame packetType flags chunk more sequence).isFragment = true := by
  rw [KdxFrame.isFragment, PacketFlags.contains_fragmented, fragmentFrame_getLsbD,
    decide_eq_true rfl, Bool.or_true, Bool.true_or]

theorem fragmentFrame_hasMore (hmore : flags.contains PacketFlags.moreFragments = false) :
    (fragmentFrame packetType flags chunk more sequence).hasMore = more := by
  rw [PacketFlags.contains_moreFragments] at hmore
  rw [KdxFrame.hasMore, PacketFlags.contains_moreFragments, fragmentFrame_getLsbD, hmore]
  cases more <;> rfl

/-- **The flags of a message are the ones it was cut under.** -/
theorem wholeHeader_flags (hfragmented : flags.contains PacketFlags.fragmented = false)
    (hmore : flags.contains PacketFlags.moreFragments = false) (length : ℕ) :
    (Reassembler.wholeHeader (fragmentFrame packetType flags chunk more sequence).header length).flags =
      flags := by
  rw [PacketFlags.contains_fragmented] at hfragmented
  rw [PacketFlags.contains_moreFragments] at hmore
  refine BitVec.eq_of_getLsbD_eq fun i hi => ?_
  rw [Reassembler.wholeHeader, BitVec.getLsbD_and, fragmentFrame_getLsbD, BitVec.getLsbD_not,
    BitVec.getLsbD_or, PacketFlags.getLsbD_fragmented, PacketFlags.getLsbD_moreFragments,
    decide_eq_true hi, Bool.true_and]
  by_cases h12 : i = 12
  · rw [h12, hfragmented]
    cases more <;> rfl
  · by_cases h13 : i = 13
    · rw [h13, hmore]
      cases more <;> rfl
    · rw [decide_eq_false h12, decide_eq_false h13]
      cases more <;> cases flags.getLsbD i <;> rfl

end Flags

/-! ### Messages that were cut come back whole -/

/-- A message: no frame of its own is a fragment. -/
structure Message where
  packetType : PacketType
  flags : PacketFlags
  payload : List UInt8
  not_fragmented : flags.contains PacketFlags.fragmented = false
  not_more : flags.contains PacketFlags.moreFragments = false

/-- The sequence numbers of a connection, which wrap. -/
def counter (sequence : UInt32) : UInt32 × UInt32 := (sequence, sequence + 1)

/-- Cut messages one after another. -/
def fragmentAll (maxPayload : UInt32) (hmax : 0 < maxPayload) :
    List Message → UInt32 → List KdxFrame × UInt32
  | [], s => ([], s)
  | m :: messages, s =>
    let (frames, s) := fragment m.packetType m.flags m.payload maxPayload hmax counter s
    let (rest, s) := fragmentAll maxPayload hmax messages s
    (frames ++ rest, s)

/-- Push frames one after another. -/
def pushAll (maxTotal : ℕ) :
    List KdxFrame → Fallible Reassembler ProtocolError (List (Option KdxFrame))
  | [] => return []
  | frame :: frames => do
    let answer ← Reassembler.push frame maxTotal
    let answers ← pushAll maxTotal frames
    return answer :: answers

/-- The frame is this message. -/
structure IsMessage (m : Message) (frame : KdxFrame) : Prop where
  packetType : frame.header.packetType = m.packetType
  flags : frame.header.flags = m.flags
  payload : frame.payload = m.payload
  length : frame.header.length = UInt32.ofNat m.payload.length

namespace Reassembler

section Rules

variable {r t u : Reassembler} {frame message : KdxFrame} {frames rest out out' : List KdxFrame}
  {maxTotal : ℕ} {group : GroupState}

theorem push_whole (hplain : frame.isFragment = false) (hclosed : r.inProgress = none) :
    Returns (push frame maxTotal) r (some frame) r := by
  rw [Returns, push_plain hplain, hclosed]
  rfl

/-- A first fragment opens a group. -/
theorem push_opens (hfragment : frame.isFragment = true) (hclosed : r.inProgress = none)
    (hfits : frame.payload.length ≤ maxTotal) (hmore : frame.hasMore = true) :
    Returns (push frame maxTotal) r none
      ⟨frame.payload, some ⟨frame.header.packetType, frame.header.sequence + 1, maxTotal⟩⟩ := by
  obtain ⟨answer, t, hends, hp⟩ := exists_pushed r frame maxTotal
  cases hp with
  | opens => exact hends
  | whole hplain => cases hplain.symm.trans hfragment
  | tooLargeFirst _ _ hlarge => omega
  | single _ _ _ hlast => cases hlast.symm.trans hmore
  | interleaved group hopen => cases hopen.symm.trans hclosed
  | outOfOrder group hopen => cases hopen.symm.trans hclosed
  | tooLarge group hnext => cases hnext.isOpen.symm.trans hclosed
  | extends_ group hnext => cases hnext.isOpen.symm.trans hclosed
  | closes group hnext => cases hnext.isOpen.symm.trans hclosed

variable (maxTotal) in
/-- The next fragment of a group that stays within its size is taken. -/
theorem push_continues (hnext : Continues r group frame)
    (hfits : (r.buffer ++ frame.payload).length ≤ group.maxTotal) :
    if frame.hasMore then Returns (push frame maxTotal) r none
      ⟨r.buffer ++ frame.payload, some { group with nextSequence := group.nextSequence + 1 }⟩
    else Returns (push frame maxTotal) r
      (some ⟨wholeHeader frame.header (r.buffer ++ frame.payload).length, r.buffer ++ frame.payload⟩)
        ⟨[], none⟩ := by
  obtain ⟨answer, t, hends, hp⟩ := exists_pushed r frame maxTotal
  have hsame : ∀ {g}, r.inProgress = some g → g = group := fun h =>
    Option.some.inj (h.symm.trans hnext.isOpen)
  cases hp with
  | extends_ g hnext' _ hmore =>
    obtain rfl := hsame hnext'.isOpen
    rw [if_pos hmore]
    exact hends
  | closes g hnext' _ hlast =>
    rw [if_neg (Bool.eq_false_iff.mp hlast)]
    exact hends
  | whole hplain => cases hplain.symm.trans hnext.isFragment
  | interleaved g hopen hforeign =>
    obtain rfl := hsame hopen
    rcases hforeign with hplain | htype
    · cases hplain.symm.trans hnext.isFragment
    · exact absurd hnext.packetType htype
  | outOfOrder g hopen hlate =>
    obtain rfl := hsame hopen
    exact absurd hnext.sequence hlate
  | tooLarge g hnext' hlarge =>
    obtain rfl := hsame hnext'.isOpen
    omega
  | tooLargeFirst _ hclosed => cases hclosed.symm.trans hnext.isOpen
  | opens _ hclosed => cases hclosed.symm.trans hnext.isOpen
  | single _ hclosed => cases hclosed.symm.trans hnext.isOpen

/-- Pushing the frames one after another gives these messages: nothing for a fragment
that others follow, and a message for any other frame. -/
inductive Delivers (maxTotal : ℕ) : Reassembler → List KdxFrame → List KdxFrame → Reassembler → Prop
  | nil (r : Reassembler) : Delivers maxTotal r [] [] r
  | waits {r t u : Reassembler} {frame : KdxFrame} {frames out : List KdxFrame}
      (hmore : frame.hasMore = true) (h : Returns (push frame maxTotal) r none t)
      (hrest : Delivers maxTotal t frames out u) : Delivers maxTotal r (frame :: frames) out u
  | gives {r t u : Reassembler} {frame message : KdxFrame} {frames out : List KdxFrame}
      (hlast : frame.hasMore = false) (h : Returns (push frame maxTotal) r (some message) t)
      (hrest : Delivers maxTotal t frames out u) :
      Delivers maxTotal r (frame :: frames) (message :: out) u

theorem Delivers.append (h : Delivers maxTotal r frames out t)
    (h' : Delivers maxTotal t rest out' u) : Delivers maxTotal r (frames ++ rest) (out ++ out') u := by
  induction h with
  | nil => exact h'
  | waits hmore hpush _ ih => exact .waits hmore hpush (ih h')
  | gives hlast hpush _ ih => exact .gives hlast hpush (ih h')

/-- What is delivered is what the pushes answer. -/
theorem Delivers.answers (h : Delivers maxTotal r frames out t) : ∃ answers,
    Returns (pushAll maxTotal frames) r answers t ∧
      answers.map Option.isNone = frames.map KdxFrame.hasMore ∧ answers.reduceOption = out := by
  induction h with
  | nil r => exact ⟨[], returns_pure.mpr ⟨rfl, rfl⟩, rfl, rfl⟩
  | waits hmore hpush _ ih =>
    obtain ⟨answers, hreturns, hnone, rfl⟩ := ih
    refine ⟨none :: answers, ?_, by simp [hmore, hnone], rfl⟩
    exact returns_bind.mpr ⟨_, _, hpush, returns_bind.mpr ⟨_, _, hreturns, returns_pure.mpr ⟨rfl, rfl⟩⟩⟩
  | gives hlast hpush _ ih =>
    obtain ⟨answers, hreturns, hnone, rfl⟩ := ih
    refine ⟨some _ :: answers, ?_, by simp [hlast, hnone], rfl⟩
    exact returns_bind.mpr ⟨_, _, hpush, returns_bind.mpr ⟨_, _, hreturns, returns_pure.mpr ⟨rfl, rfl⟩⟩⟩

end Rules

/-! ### The fragments of one message -/

section Loop

variable {maxPayload : UInt32} {hmax : 0 < maxPayload} {m : Message} {maxTotal cap : ℕ}

theorem fragmentLoop_cons {σ : Type} {packetType : PacketType} {flags : PacketFlags}
    {nextSequence : σ → UInt32 × σ} {remaining chunk rest : List UInt8} {s : σ} (h : remaining ≠ [])
    (hchunk : remaining.take (min remaining.length maxPayload.toNat) = chunk)
    (hrest : remaining.drop (min remaining.length maxPayload.toNat) = rest) :
    fragmentLoop packetType flags maxPayload hmax nextSequence remaining s =
      let more := fragmentLoop packetType flags maxPayload hmax nextSequence rest (nextSequence s).2
      (fragmentFrame packetType flags chunk (!rest.isEmpty) (nextSequence s).1 :: more.1, more.2) := by
  subst hchunk hrest
  rw [fragmentLoop, dif_neg h]

/-- No fragment is longer than a frame may be. -/
theorem fragmentLoop_payload {remaining : List UInt8} {s : UInt32} :
    ∀ frame ∈ (fragmentLoop m.packetType m.flags maxPayload hmax counter remaining s).1,
      frame.payload.length ≤ maxPayload.toNat := by
  induction hn : remaining.length using Nat.strongRecOn generalizing remaining s with
  | ind n ih =>
    by_cases h : remaining = []
    · rw [fragmentLoop, dif_pos h]
      simp
    · rw [fragmentLoop_cons h rfl rfl]
      intro frame hframe
      rcases List.mem_cons.mp hframe with rfl | hframe
      · simp only [fragmentFrame, List.length_take]
        omega
      · exact ih _ (hn ▸ length_drop_lt hmax h) rfl frame hframe

variable (maxPayload hmax maxTotal) in
/-- **The fragments that are left of a message complete it.** -/
theorem delivers_loop {remaining buffer : List UInt8} {s : UInt32} (h : remaining ≠ [])
    (hfits : (buffer ++ remaining).length ≤ cap) (hwhole : buffer ++ remaining = m.payload) :
    ∃ message, IsMessage m message ∧ Delivers maxTotal ⟨buffer, some ⟨m.packetType, s, cap⟩⟩
      (fragmentLoop m.packetType m.flags maxPayload hmax counter remaining s).1 [message]
        ⟨[], none⟩ := by
  induction hn : remaining.length using Nat.strongRecOn generalizing remaining buffer s with
  | ind n ih =>
    have hsplit := List.take_append_drop (min remaining.length maxPayload.toNat) remaining
    have hshorter := length_drop_lt hmax h
    obtain ⟨chunk, hchunk⟩ : ∃ chunk, remaining.take (min remaining.length maxPayload.toNat) = chunk :=
      ⟨_, rfl⟩
    obtain ⟨rest, hrest⟩ : ∃ rest, remaining.drop (min remaining.length maxPayload.toNat) = rest :=
      ⟨_, rfl⟩
    rw [fragmentLoop_cons h hchunk hrest]
    rw [hchunk, hrest] at hsplit
    rw [hrest] at hshorter
    clear hchunk hrest
    subst hsplit
    have hnext : Continues ⟨buffer, some ⟨m.packetType, s, cap⟩⟩ ⟨m.packetType, s, cap⟩
        (fragmentFrame m.packetType m.flags chunk (!rest.isEmpty) s) :=
      ⟨rfl, fragmentFrame_isFragment, rfl, rfl⟩
    -- what is buffered is a part of the whole, which fits
    have hpart : (buffer ++ chunk).length ≤ cap := by
      simp only [List.length_append] at hfits ⊢
      omega
    have hpush := push_continues maxTotal hnext hpart
    have hmore : (fragmentFrame m.packetType m.flags chunk (!rest.isEmpty) s).hasMore = !rest.isEmpty :=
      fragmentFrame_hasMore m.not_more
    rw [hmore] at hpush
    cases rest with
    | nil =>
      refine ⟨_, ⟨rfl, ?_, ?_, ?_⟩, .gives hmore hpush ?_⟩
      · exact wholeHeader_flags m.not_fragmented m.not_more _
      · rw [← hwhole, List.append_nil]
        rfl
      · rw [← hwhole, List.append_nil]
        rfl
      · rw [fragmentLoop, dif_pos rfl]
        exact .nil _
    | cons b rest =>
      rw [← List.append_assoc] at hfits hwhole
      obtain ⟨message, hmessage, hdelivers⟩ := ih _ (hn ▸ hshorter) (List.cons_ne_nil b rest) hfits
        hwhole rfl
      exact ⟨message, hmessage, .waits hmore hpush hdelivers⟩

variable {r : Reassembler}

variable (maxPayload hmax maxTotal) in
/-- **The frames of one message complete it**, and leave no group open. -/
theorem delivers_fragment (hclosed : r.inProgress = none) (hfits : m.payload.length ≤ maxTotal)
    (s : UInt32) : ∃ message t, IsMessage m message ∧ t.inProgress = none ∧ Delivers maxTotal r
      (fragment m.packetType m.flags m.payload maxPayload hmax counter s).1 [message] t := by
  rw [fragment]
  split
  · exact ⟨_, r, ⟨rfl, rfl, rfl, rfl⟩, hclosed, .gives m.not_more (push_whole m.not_fragmented hclosed)
      (.nil r)⟩
  · rename_i hlong
    have hpos : 0 < maxPayload.toNat := UInt32.lt_iff_toNat_lt.mp hmax
    have hne : m.payload ≠ [] := by
      rintro he
      rw [he] at hlong
      exact hlong (Nat.zero_le _)
    obtain ⟨chunk, hchunk⟩ : ∃ chunk, m.payload.take (min m.payload.length maxPayload.toNat) = chunk :=
      ⟨_, rfl⟩
    obtain ⟨rest, hrest⟩ : ∃ rest, m.payload.drop (min m.payload.length maxPayload.toNat) = rest :=
      ⟨_, rfl⟩
    have hwhole : chunk ++ rest = m.payload := by rw [← hchunk, ← hrest, List.take_append_drop]
    -- the payload is longer than a frame, so the first one leaves some
    have hleft : rest ≠ [] := by
      rintro he
      have hlength := congrArg List.length hrest
      rw [he, List.length_drop, List.length_nil] at hlength
      omega
    rw [fragmentLoop_cons hne hchunk hrest, (List.isEmpty_eq_false_iff.mpr hleft)]
    have hpart : chunk.length ≤ maxTotal := by
      rw [← hwhole, List.length_append] at hfits
      omega
    have hmore : (fragmentFrame m.packetType m.flags chunk true s).hasMore = true :=
      fragmentFrame_hasMore m.not_more
    obtain ⟨message, hmessage, hdelivers⟩ := delivers_loop maxPayload hmax maxTotal
      (s := s + 1) hleft (hwhole ▸ hfits) hwhole
    exact ⟨message, _, hmessage, rfl,
      .waits hmore (push_opens fragmentFrame_isFragment hclosed hpart hmore) hdelivers⟩

/-- No frame is longer than it may be. -/
theorem fragment_payload (s : UInt32) :
    ∀ frame ∈ (fragment m.packetType m.flags m.payload maxPayload hmax counter s).1,
      frame.payload.length ≤ maxPayload.toNat := by
  rw [fragment]
  split
  · rename_i hshort
    simpa using hshort
  · exact fragmentLoop_payload

variable (maxPayload hmax maxTotal) in
/-- Messages that are sent one after another arrive so. -/
theorem delivers_fragmentAll : ∀ {messages : List Message} {r : Reassembler} (s : UInt32),
    r.inProgress = none → (∀ m ∈ messages, m.payload.length ≤ maxTotal) →
      ∃ out t, List.Forall₂ IsMessage messages out ∧ t.inProgress = none ∧
        Delivers maxTotal r (fragmentAll maxPayload hmax messages s).1 out t
  | [], r, s, hclosed, _ => ⟨[], r, .nil, hclosed, .nil r⟩
  | m :: messages, r, s, hclosed, hfits => by
    obtain ⟨message, t, hmessage, hclosed, hfirst⟩ := delivers_fragment maxPayload hmax maxTotal
      hclosed (hfits m List.mem_cons_self) s
    obtain ⟨out, u, hout, hclosed, hrest⟩ := delivers_fragmentAll
      (fragment m.packetType m.flags m.payload maxPayload hmax counter s).2 hclosed
      fun m hm => hfits m (List.mem_cons_of_mem _ hm)
    exact ⟨message :: out, u, .cons hmessage hout, hclosed, hfirst.append hrest⟩

theorem fragmentAll_payload : ∀ {messages : List Message} {s : UInt32},
    ∀ frame ∈ (fragmentAll maxPayload hmax messages s).1, frame.payload.length ≤ maxPayload.toNat
  | [], _, _, hframe => absurd hframe List.not_mem_nil
  | _ :: _, s, frame, hframe => (List.mem_append.mp hframe).elim (fragment_payload s frame)
      (fragmentAll_payload frame)

end Loop

end Reassembler

/-- The length in the header of a message is its own as a `u32`. -/
theorem header_length {messages : List Message} {out : List KdxFrame}
    (h : List.Forall₂ IsMessage messages out) :
    ∀ whole ∈ out, whole.header.length = UInt32.ofNat whole.payload.length := by
  induction h with
  | nil => simp
  | cons hmessage _ ih =>
    intro whole hwhole
    rcases List.mem_cons.mp hwhole with rfl | hwhole
    · rw [hmessage.length, hmessage.payload]
    · exact ih whole hwhole

/-- **Reassembly undoes fragmentation.** Messages that were cut one after another and
pushed in order come back one after another, nothing comes back for a fragment that
others follow, and no group is left open. The length in a header is the payload's as a
`u32`. -/
theorem reassembly (maxPayload : UInt32) (hmax : 0 < maxPayload) (messages : List Message)
    (sequence : UInt32) (maxTotal : ℕ) (hfits : ∀ m ∈ messages, m.payload.length ≤ maxTotal) :
    let frames := (fragmentAll maxPayload hmax messages sequence).1
    (∀ frame ∈ frames, frame.payload.length ≤ maxPayload.toNat) ∧
      ∃ answers r, Returns (pushAll maxTotal frames) .default answers r ∧ r.inProgress = none ∧
        answers.map Option.isNone = frames.map KdxFrame.hasMore ∧
          List.Forall₂ IsMessage messages answers.reduceOption ∧
            ∀ message ∈ answers.reduceOption, message.payload.length < 2 ^ 32 →
              message.header.length.toNat = message.payload.length := by
  refine ⟨Reassembler.fragmentAll_payload, ?_⟩
  obtain ⟨out, r, hout, hclosed, hdelivers⟩ := Reassembler.delivers_fragmentAll maxPayload
    hmax maxTotal (r := .default) sequence rfl hfits
  obtain ⟨answers, hreturns, hnone, rfl⟩ := hdelivers.answers
  refine ⟨answers, r, hreturns, hclosed, hnone, hout, fun message hmem hshort => ?_⟩
  rw [header_length hout message hmem, UInt32.toNat_ofNat', Nat.mod_eq_of_lt hshort]

namespace Long

/-- A message of 4 GiB. -/
def message : Message := ⟨.ping, 0, List.replicate (2 ^ 32) 0, rfl, rfl⟩

/-- **A message too long for a `u32` comes back with a length that is not its own.** -/
theorem length_wraps : ∃ (maxPayload : UInt32) (hmax : 0 < maxPayload) (maxTotal : ℕ)
    (answers : List (Option KdxFrame)) (r : Reassembler), message.payload.length ≤ maxTotal ∧
      Returns (pushAll maxTotal (fragmentAll maxPayload hmax [message] 0).1) .default answers r ∧
        ∃ whole ∈ answers.reduceOption, whole.header.length.toNat ≠ whole.payload.length := by
  have hlength : message.payload.length = 2 ^ 32 := List.length_replicate
  obtain ⟨out, r, hout, -, hdelivers⟩ := Reassembler.delivers_fragmentAll 16384 (by decide)
    (2 ^ 32) (r := .default) 0 rfl (List.forall_mem_singleton.mpr hlength.le)
  obtain ⟨answers, hreturns, -, rfl⟩ := hdelivers.answers
  refine ⟨16384, by decide, 2 ^ 32, answers, r, hlength.le, hreturns, ?_⟩
  obtain ⟨whole, rest, hwhole, -, hout'⟩ := List.forall₂_cons_left_iff.mp hout
  have hmem : whole ∈ answers.reduceOption := hout' ▸ List.mem_cons_self
  refine ⟨whole, hmem, ?_⟩
  rw [header_length hout whole hmem, hwhole.payload, hlength]
  decide

/-- Two messages, one of them cut in three, across the wrap of the sequence numbers. -/
theorem reassembly_wraps : ∃ answers r, Returns (pushAll 8 (fragmentAll 2 (by decide)
      [⟨.ping, 8, [1, 2, 3, 4, 5], rfl, rfl⟩, ⟨.pong, 0, [6], rfl, rfl⟩] 0xFFFFFFFF).1) .default
        answers r ∧ r.inProgress = none := by
  obtain ⟨-, answers, r, hreturns, hclosed, -⟩ := reassembly 2 (by decide)
    [⟨.ping, 8, [1, 2, 3, 4, 5], rfl, rfl⟩, ⟨.pong, 0, [6], rfl, rfl⟩] 0xFFFFFFFF 8 (by simp)
  exact ⟨answers, r, hreturns, hclosed⟩

end Long

/-! ### Whatever is pushed -/

/-- Something that happened to a reassembler: a frame that was pushed with a cap and the
answer it got, or an abort. -/
inductive Entry
  | pushed (frame : KdxFrame) (maxTotal : ℕ) (answer : Except ProtocolError (Option KdxFrame))
  | aborted

namespace Entry

/-- A frame that was kept, for others to follow. -/
def kept : Entry → Option KdxFrame
  | pushed frame _ (.ok none) => some frame
  | _ => none

/-- A frame that was refused because it is not the next one of the open group. -/
inductive Refused : Entry → Prop
  | interleaved (frame : KdxFrame) (maxTotal : ℕ) :
      Refused (pushed frame maxTotal (.error .fragmentInterleaved))
  | outOfOrder (frame : KdxFrame) (maxTotal : ℕ) (expected got : UInt32) :
      Refused (pushed frame maxTotal (.error (.fragmentOutOfOrder expected got)))

end Entry

namespace Reassembler

/-- What may come of an entry. -/
def Step (r : Reassembler) (entry : Entry) (t : Reassembler) : Prop :=
  match entry with
  | .pushed frame maxTotal answer => Ends (push frame maxTotal) r answer t
  | .aborted => t = r.abort

/-- The entries lead from a fresh reassembler to this one. -/
def Reached (entries : List Entry) (r : Reassembler) : Prop := Run Step .default entries r

end Reassembler

/-- The fragments of one group, the last one not among them: of one type, numbered
consecutively, all of them followed by others. -/
structure IsGroup (packetType : PacketType) (next : UInt32) (frames : List KdxFrame) : Prop where
  fragment : ∀ frame ∈ frames, frame.isFragment = true ∧ frame.hasMore = true ∧
    frame.header.packetType = packetType
  consecutive : frames.IsChain fun a b => b.header.sequence = a.header.sequence + 1
  next : ∀ frame ∈ frames.getLast?, frame.header.sequence + 1 = next

/-- Since the group was opened, with a cap of `cap`, nothing happened but that its
fragments were pushed and other frames were refused. -/
structure Since (cap : ℕ) (during : List Entry) : Prop where
  opened : ∃ first rest, during = .pushed first cap (.ok none) :: rest
  quiet : ∀ entry ∈ during, (∃ frame, entry.kept = some frame) ∨ entry.Refused

/-- These are the fragments of the group that is open, and this is what is known of it. -/
def GroupOf (entries : List Entry) (group : GroupState) (frames : List KdxFrame) : Prop :=
  ∃ before during, entries = before ++ during ∧
    (∃ r, Reassembler.Reached before r ∧ r.inProgress = none) ∧ Since group.maxTotal during ∧
      during.filterMap Entry.kept = frames ∧ IsGroup group.packetType group.nextSequence frames

/-- The fragments that a frame is added to when it is pushed with a cap of `maxTotal`, and the
cap they must fit: those of the open group and its own, or none and `maxTotal`. -/
def Added (before : List Entry) (maxTotal : ℕ) (frames : List KdxFrame) (cap : ℕ) : Prop :=
  (∃ packetType next, GroupOf before ⟨packetType, next, cap⟩ frames) ∨
    frames = [] ∧ (∃ r, Reassembler.Reached before r ∧ r.inProgress = none) ∧ cap = maxTotal

/-- The frame passed through whole. -/
inductive Entry.Passed : Entry → Prop
  | intro (frame : KdxFrame) (maxTotal : ℕ) (hplain : frame.isFragment = false) :
      Passed (pushed frame maxTotal (.ok (some frame)))

/-- The buffer is what a group has left that was refused for its size: its fragments, and the
frame that made it too large, which is all that goes beyond the group's cap. Nothing has
happened since but that whole frames passed through. -/
def Leftover (entries : List Entry) (buffer : List UInt8) : Prop :=
  ∃ before frame maxTotal frames cap after,
    entries = before ++ .pushed frame maxTotal (.error (.reassemblyTooLarge cap)) :: after ∧
      Added before maxTotal frames cap ∧ (∀ entry ∈ after, entry.Passed) ∧
        buffer = (frames ++ [frame]).flatMap KdxFrame.payload ∧
          buffer.length ≤ cap + frame.payload.length

/-- **What is buffered.** While a group is open these are its fragments, and they fit the cap it
was opened with. While none is open there is nothing, or what the last group has left that was
refused for its size. -/
structure Bounded (entries : List Entry) (r : Reassembler) : Prop where
  isOpen : ∀ group, r.inProgress = some group → ∃ frames, GroupOf entries group frames ∧
    r.buffer = frames.flatMap KdxFrame.payload ∧ r.buffer.length ≤ group.maxTotal
  isClosed : r.inProgress = none → r.buffer = [] ∨ Leftover entries r.buffer

section Hostile

variable {entries : List Entry} {entry : Entry} {r t : Reassembler} {frame : KdxFrame}
  {frames : List KdxFrame} {group : GroupState} {packetType : PacketType} {next : UInt32}
  {buffer : List UInt8} {during : List Entry} {cap : ℕ}

/-- A group grows by its next fragment. -/
theorem IsGroup.append (h : IsGroup packetType next frames) (hfragment : frame.isFragment = true)
    (hmore : frame.hasMore = true) (htype : frame.header.packetType = packetType)
    (hnext : frame.header.sequence = next) : IsGroup packetType (next + 1) (frames ++ [frame]) where
  fragment f hf := by
    rcases List.mem_append.mp hf with hf | hf
    · exact h.fragment f hf
    · rw [List.mem_singleton.mp hf]
      exact ⟨hfragment, hmore, htype⟩
  consecutive := by
    refine List.isChain_append.mpr ⟨h.consecutive, List.isChain_singleton frame, ?_⟩
    rintro a ha b hb
    obtain rfl : frame = b := Option.some.inj hb
    rw [h.next a ha, hnext]
  next f hf := by
    rw [List.getLast?_concat] at hf
    rw [← Option.some.inj hf, hnext]

/-- A group goes on, or a frame that is not its own is refused. -/
theorem Since.append (h : Since cap during) (hentry : (∃ frame, entry.kept = some frame) ∨ entry.Refused) :
    Since cap (during ++ [entry]) where
  opened := by
    obtain ⟨first, rest, rfl⟩ := h.opened
    exact ⟨first, rest ++ [entry], rfl⟩
  quiet e he := by
    rcases List.mem_append.mp he with he | he
    · exact h.quiet e he
    · rw [List.mem_singleton.mp he]
      exact hentry

/-- A frame that is refused is no part of the group. -/
theorem GroupOf.refused (h : GroupOf entries group frames) (hentry : entry.Refused) :
    GroupOf (entries ++ [entry]) group frames := by
  obtain ⟨before, during, rfl, hclosed, hsince, hframes, hgroup⟩ := h
  refine ⟨before, during ++ [entry], List.append_assoc _ _ _, hclosed, hsince.append (.inr hentry), ?_,
    hgroup⟩
  have hkept : entry.kept = none := by
    cases hentry <;> rfl
  rw [List.filterMap_append, hframes, List.filterMap_cons_none hkept, List.filterMap_nil,
    List.append_nil]

/-- A frame that is kept is the next fragment of the group. -/
theorem GroupOf.extend (h : GroupOf entries group frames) (hfragment : frame.isFragment = true)
    (hmore : frame.hasMore = true) (htype : frame.header.packetType = group.packetType)
    (hnext : frame.header.sequence = group.nextSequence) (maxTotal : ℕ) :
    GroupOf (entries ++ [.pushed frame maxTotal (.ok none)])
      { group with nextSequence := group.nextSequence + 1 } (frames ++ [frame]) := by
  obtain ⟨before, during, rfl, hclosed, hsince, hframes, hgroup⟩ := h
  refine ⟨before, during ++ [.pushed frame maxTotal (.ok none)], List.append_assoc _ _ _, hclosed,
    hsince.append (.inl ⟨frame, rfl⟩), ?_, hgroup.append hfragment hmore htype hnext⟩
  rw [List.filterMap_append, hframes]
  rfl

/-- The first fragment of a group is a group. -/
theorem groupOf_first (hreached : Reassembler.Reached entries r) (hclosed : r.inProgress = none)
    (hfragment : frame.isFragment = true) (hmore : frame.hasMore = true) (cap : ℕ) :
    GroupOf (entries ++ [.pushed frame cap (.ok none)])
      ⟨frame.header.packetType, frame.header.sequence + 1, cap⟩ [frame] := by
  refine ⟨entries, [.pushed frame cap (.ok none)], rfl, ⟨r, hreached, hclosed⟩, ⟨⟨frame, [], rfl⟩, ?_⟩,
    rfl, ?_, List.isChain_singleton frame, ?_⟩
  · rintro e he
    rw [List.mem_singleton.mp he]
    exact .inl ⟨frame, rfl⟩
  · rintro f hf
    rw [List.mem_singleton.mp hf]
    exact ⟨hfragment, hmore, rfl⟩
  · rintro f hf
    obtain rfl : frame = f := Option.some.inj hf
    rfl

/-- What is left stays while whole frames pass through. -/
theorem Leftover.append (h : Leftover entries buffer) (hentry : entry.Passed) :
    Leftover (entries ++ [entry]) buffer := by
  obtain ⟨before, frame, maxTotal, frames, cap, after, rfl, hadded, hafter, hbuffer⟩ := h
  refine ⟨before, frame, maxTotal, frames, cap, after ++ [entry], by simp, hadded, ?_, hbuffer⟩
  intro e he
  rcases List.mem_append.mp he with he | he
  · exact hafter e he
  · rw [List.mem_singleton.mp he]
    exact hentry

/-- A frame that is too much is left with those it was added to. -/
theorem Added.leftover {maxTotal : ℕ} (h : Added entries maxTotal frames cap)
    (hbuffer : buffer = frames.flatMap KdxFrame.payload) (hfits : buffer.length ≤ cap) :
    Leftover (entries ++ [.pushed frame maxTotal (.error (.reassemblyTooLarge cap))])
      (buffer ++ frame.payload) := by
  refine ⟨entries, frame, maxTotal, frames, cap, [], rfl, h, by simp, ?_, ?_⟩
  · rw [List.flatMap_append, ← hbuffer, List.flatMap_singleton]
  · rw [List.length_append]
    omega

/-- What is known of a reassembler and what happened to it. -/
structure Sound (entries : List Entry) (r : Reassembler) : Prop extends Bounded entries r where
  reached : Reassembler.Reached entries r

/-- **What one push keeps.** -/
theorem Sound.push (h : Sound entries r) {maxTotal : ℕ}
    {answer : Except ProtocolError (Option KdxFrame)}
    (hends : Ends (Reassembler.push frame maxTotal) r answer t) :
    Sound (entries ++ [.pushed frame maxTotal answer]) t := by
  refine ⟨?_, h.reached.append (.cons hends (.nil t))⟩
  cases Reassembler.pushed_of_ends hends with
  | whole hplain hclosed =>
    refine ⟨fun group hopen => ?_, fun _ => (h.isClosed hclosed).imp_right fun hleft => ?_⟩
    · cases hopen.symm.trans hclosed
    · exact hleft.append (.intro frame maxTotal hplain)
  | interleaved group hopen =>
    refine ⟨fun g hg => ?_, fun hclosed => ?_⟩
    · obtain ⟨frames, hgroup, hbuffer⟩ := h.isOpen g hg
      exact ⟨frames, hgroup.refused (.interleaved frame maxTotal), hbuffer⟩
    · cases hopen.symm.trans hclosed
  | outOfOrder group hopen =>
    refine ⟨fun g hg => ?_, fun hclosed => ?_⟩
    · obtain ⟨frames, hgroup, hbuffer⟩ := h.isOpen g hg
      exact ⟨frames, hgroup.refused (.outOfOrder frame maxTotal _ _), hbuffer⟩
    · cases hopen.symm.trans hclosed
  | tooLargeFirst _ hclosed =>
    -- the group is dropped while its buffer still holds the frame it was refused with
    refine ⟨(fun g hg => nomatch hg), fun _ => .inr ?_⟩
    have hadded : Added entries maxTotal [] maxTotal := .inr ⟨rfl, ⟨r, h.reached, hclosed⟩, rfl⟩
    exact hadded.leftover rfl (Nat.zero_le _)
  | opens hfragment hclosed hfits hmore =>
    refine ⟨fun g hg => ?_, fun hnone => nomatch hnone⟩
    obtain rfl := Option.some.inj hg
    exact ⟨[frame], groupOf_first h.reached hclosed hfragment hmore maxTotal, by simp, hfits⟩
  | single => exact ⟨(fun g hg => nomatch hg), fun _ => .inl rfl⟩
  | tooLarge group hnext =>
    obtain ⟨frames, hgroup, hbuffer, hle⟩ := h.isOpen group hnext.isOpen
    refine ⟨(fun g hg => nomatch hg), fun _ => .inr ?_⟩
    have hadded : Added entries maxTotal frames group.maxTotal :=
      .inl ⟨group.packetType, group.nextSequence, hgroup⟩
    exact hadded.leftover hbuffer hle
  | extends_ group hnext hfits hmore =>
    obtain ⟨frames, hgroup, hbuffer, -⟩ := h.isOpen group hnext.isOpen
    refine ⟨fun g hg => ?_, fun hnone => nomatch hnone⟩
    obtain rfl := Option.some.inj hg
    refine ⟨frames ++ [frame], hgroup.extend hnext.isFragment hmore hnext.packetType hnext.sequence
      maxTotal, ?_, hfits⟩
    -- the buffer grows by the frame, and so does the group
    rw [List.flatMap_append, ← hbuffer, List.flatMap_singleton]
  | closes => exact ⟨(fun g hg => nomatch hg), fun _ => .inl rfl⟩

/-- What every run keeps. -/
theorem sound_reached (h : Reassembler.Reached entries r) : Sound entries r := by
  refine Run.history (P := Sound) ?_ ?_ h
  · exact ⟨⟨(fun g hg => nomatch hg), fun _ => .inl rfl⟩, .nil _⟩
  · intro entries r entry t _ hsound hstep
    cases entry with
    | pushed frame maxTotal answer => exact hsound.push hstep
    | aborted =>
      obtain rfl : t = r.abort := hstep
      exact ⟨⟨(fun g hg => nomatch hg), fun _ => .inl rfl⟩,
        hsound.reached.append (.cons rfl (.nil _))⟩

/-- **Whatever is pushed, what comes back was sent.** A message that comes back is a frame
that was pushed whole while no group was open, or it is the payloads of one group: its
fragments are of one type, numbered consecutively, the last one alone not marked to be
followed, and since the first of them, pushed while no group was open, nothing happened
but that they were pushed and frames that did not belong were refused. It fits the cap
the group was opened with. So does what is buffered while the group is open, and what it
leaves if it is refused for its size is longer by no more than the frame it is refused with. -/
theorem hostile_reassembly (h : Reassembler.Reached entries r) :
    (∀ frame maxTotal message t, Returns (Reassembler.push frame maxTotal) r (some message) t →
      (frame.isFragment = false ∧ r.inProgress = none ∧ message = frame) ∨
        ∃ frames cap, frame.isFragment = true ∧ frame.hasMore = false ∧
          (GroupOf entries ⟨frame.header.packetType, frame.header.sequence, cap⟩ frames ∨
            frames = [] ∧ r.inProgress = none ∧ cap = maxTotal) ∧
              message.header.packetType = frame.header.packetType ∧
                message.payload = (frames ++ [frame]).flatMap KdxFrame.payload ∧
                  message.payload.length ≤ cap) ∧
      Bounded entries r := by
  have hsound := sound_reached h
  refine ⟨?_, hsound.toBounded⟩
  · intro frame maxTotal message t hreturns
    have hends : Ends (Reassembler.push frame maxTotal) r (.ok (some message)) t := hreturns
    have hpushed := Reassembler.pushed_of_ends hends
    generalize hanswer : (Except.ok (some message) : Except ProtocolError _) = answer at hpushed
    cases hpushed with
    | whole hplain hclosed =>
      cases hanswer
      exact .inl ⟨hplain, hclosed, rfl⟩
    | single hfragment hclosed hfits hlast =>
      cases hanswer
      exact .inr ⟨[], maxTotal, hfragment, hlast, .inr ⟨rfl, hclosed, rfl⟩, rfl, by simp, hfits⟩
    | closes group hnext hfits hlast =>
      cases hanswer
      obtain ⟨frames, hgroup, hbuffer, -⟩ := hsound.isOpen group hnext.isOpen
      refine .inr ⟨frames, group.maxTotal, hnext.isFragment, hlast, .inl ?_, rfl, ?_, hfits⟩
      · rw [hnext.packetType, hnext.sequence]
        exact hgroup
      · rw [List.flatMap_append, ← hbuffer, List.flatMap_singleton]
    | interleaved => cases hanswer
    | outOfOrder => cases hanswer
    | tooLargeFirst => cases hanswer
    | opens => cases hanswer
    | tooLarge => cases hanswer
    | extends_ => cases hanswer

end Hostile

namespace Stray

/-- The first fragment of a group. -/
def first : KdxFrame := fragmentFrame .ping 0 [1] true 0

/-- A fragment whose number is not the next one. -/
def stray : KdxFrame := fragmentFrame .ping 0 [9] true 5

/-- The last fragment of the group. -/
def last : KdxFrame := fragmentFrame .ping 0 [2] false 1

/-- The stray fragment comes between the two, and is refused. -/
def entries : List Entry :=
  [.pushed first 10 (.ok none), .pushed stray 10 (.error (.fragmentOutOfOrder 1 5))]

/-- The group is still open. -/
def between : Reassembler := ⟨[1], some ⟨.ping, 1, 10⟩⟩

theorem reached : Reassembler.Reached entries between :=
  .cons (show Ends (Reassembler.push first 10) .default (.ok none) between from rfl)
    (.cons (show Ends (Reassembler.push stray 10) between (.error (.fragmentOutOfOrder 1 5)) between
      from rfl) (.nil between))

/-- **A refused fragment leaves its group open**: what comes back is not the payloads of
frames that were pushed one right after another. -/
theorem group_survives_refusal : ∃ message t, Reassembler.Reached entries between ∧
    Returns (Reassembler.push last 10) between (some message) t ∧
      ∀ run ∈ [first, stray, last].tails, run.flatMap KdxFrame.payload ≠ message.payload :=
  ⟨⟨⟨2, .ping, 0, 1, 2⟩, [1, 2]⟩, .default, reached, rfl, by decide⟩

theorem hostile_reassembly_stray : ∃ frames : List KdxFrame,
    [1, 2] = (frames ++ [last]).flatMap KdxFrame.payload := by
  have hreturns : Returns (Reassembler.push last 10) between (some ⟨⟨2, .ping, 0, 1, 2⟩, [1, 2]⟩)
      .default := rfl
  rcases (hostile_reassembly reached).1 _ _ _ _ hreturns with ⟨hplain, -⟩ | ⟨frames, _, _, _, _, _, h, _⟩
  · exact absurd hplain (by decide)
  · exact ⟨frames, h⟩

end Stray

end Protocol

end KdxHotline
