import KdxHotline.Foundations.Incremental
import KdxHotline.Protocol.Header

/-!
# Frames on a byte stream

A frame is a header and a payload of the length the header gives. The decoder takes
frames off the front of what has arrived; when a payload is not all there yet, it
keeps the header it has parsed and waits (`KdxHotline.Protocol.KdxCodec.decode`).

So there are two states in which it can wait in front of the same frame, and the
bytes decide which of them it is in: `KdxHotline.Protocol.Decoder.At` says that the
next frame has a given header, whether that header is still in the buffer or parked.
What the decoder does next depends on that header alone, which makes it a decoder
whose pieces cannot be seen (`KdxHotline.Protocol.stream`).
-/

namespace KdxHotline

namespace Protocol

open Foundations

/-- A frame: a header and its payload. -/
structure KdxFrame where
  header : PacketHeader
  payload : List UInt8
  deriving DecidableEq

/-- What the decoder keeps between calls. -/
structure KdxCodec where
  /-- The longest payload this side accepts in one frame. -/
  maxPayload : UInt32
  /-- A header that was decoded while its payload had not arrived. -/
  pending : Option PacketHeader
  deriving DecidableEq

/-- A decoder at the start of a stream. -/
def KdxCodec.new (maxPayload : UInt32) : KdxCodec := ⟨maxPayload, none⟩

/-- A codec with the bytes that have arrived. -/
structure Decoder where
  codec : KdxCodec
  src : List UInt8
  deriving DecidableEq

namespace Decoder

/-- Put bytes behind the ones that have arrived. -/
def arrive (bytes : List UInt8) (d : Decoder) : Decoder := { d with src := d.src ++ bytes }

/-- Keep a header for the next call, or none. -/
def park (pending : Option PacketHeader) (d : Decoder) : Decoder :=
  { d with codec := { d.codec with pending := pending } }

/-- Take bytes off the front. -/
def skip (n : ℕ) (d : Decoder) : Decoder := { d with src := d.src.drop n }

/-- The bytes that are not yet decoded. -/
def srcField : Focus Decoder (List UInt8) := ⟨Decoder.src, fun src d => { d with src := src }, fun _ _ => rfl⟩

end Decoder

section Codec

variable (crc32 : List UInt8 → UInt32)

namespace KdxCodec

/-- The header of the next frame: the one that was parked, or else one that is taken
off the front, when all of it is there. -/
def nextHeader : Fallible Decoder ProtocolError (Option PacketHeader) := do
  let d ← get
  match d.codec.pending with
  | some header =>
    modify (Decoder.park none)
    return some header
  | none =>
    if d.src.length < headerLen then return none
    else do
      let header ← zoom Decoder.srcField (PacketHeader.decode crc32)
      check (refuseIf (decide (d.codec.maxPayload < header.length))
        (.payloadTooLarge header.length d.codec.maxPayload))
      return some header

/-- The frame with a given header, when all of its payload is there. -/
def takePayload (header : PacketHeader) : Fallible Decoder ProtocolError (Option KdxFrame) := do
  let d ← get
  if d.src.length < header.length.toNat then do
    modify (Decoder.park (some header))
    return none
  else do
    modify (Decoder.skip header.length.toNat)
    return some ⟨header, d.src.take header.length.toNat⟩

/-- Decode the next frame, when all of it is there. -/
def decode : Fallible Decoder ProtocolError (Option KdxFrame) := do
  match ← nextHeader crc32 with
  | none => return none
  | some header => takePayload header

/-- Write a frame behind what was written before. -/
def encode (codec : KdxCodec) (frame : KdxFrame) : Fallible (List UInt8) ProtocolError Unit := do
  let len := frame.payload.length
  check (refuseIf (decide (codec.maxPayload.toNat < len))
    (.payloadTooLarge (UInt32.ofNat (min len (2 ^ 32 - 1))) codec.maxPayload))
  check (refuseIf (decide (frame.header.length.toNat ≠ len)) (.lengthMismatch frame.header.length len))
  modify fun dst => dst ++ frame.header.encode crc32
  modify fun dst => dst ++ frame.payload

/-- Write frames one after another. -/
def encodeAll (codec : KdxCodec) : List KdxFrame → Fallible (List UInt8) ProtocolError Unit
  | [] => return ()
  | frame :: frames => do
    encode crc32 codec frame
    encodeAll codec frames

end KdxCodec

/-! ### What the decoder waits for -/

variable {crc32} {d t : Decoder} {header : PacketHeader} {src rest bytes : List UInt8}
  {frame : KdxFrame} {e : ProtocolError} {max : UInt32}

namespace Decoder

variable (crc32) in
/-- The header at the front of what has arrived, if its frame is accepted. -/
def front (max : UInt32) (src : List UInt8) : Except ProtocolError PacketHeader := do
  let header ← PacketHeader.parseFront crc32 src
  refuseIf (decide (max < header.length)) (.payloadTooLarge header.length max)
  return header

theorem front_append (hlong : headerLen ≤ src.length) (bytes : List UInt8) :
    front crc32 max (src ++ bytes) = front crc32 max src := by
  rw [front, front, PacketHeader.parseFront_append hlong]

variable (crc32) in
/-- The next frame has this header, and these bytes follow it. -/
inductive At : Decoder → PacketHeader → List UInt8 → Prop
  | parked (max : UInt32) (header : PacketHeader) (src : List UInt8) :
      At ⟨⟨max, some header⟩, src⟩ header src
  | ahead {max : UInt32} {src : List UInt8} {header : PacketHeader} (hlong : headerLen ≤ src.length)
      (hfront : front crc32 max src = .ok header) :
      At ⟨⟨max, none⟩, src⟩ header (src.drop headerLen)

variable (crc32) in
/-- The next frame is refused. -/
inductive Refused : Decoder → ProtocolError → Prop
  | ahead {max : UInt32} {src : List UInt8} {e : ProtocolError} (hlong : headerLen ≤ src.length)
      (hfront : front crc32 max src = .error e) : Refused ⟨⟨max, none⟩, src⟩ e

/-- What follows the header grows with what arrives. -/
theorem At.arrive (h : At crc32 d header rest) (bytes : List UInt8) :
    At crc32 (d.arrive bytes) header (rest ++ bytes) := by
  cases h with
  | parked max => exact .parked max header (rest ++ bytes)
  | ahead hlong hfront =>
    rw [← List.drop_append_of_le_length hlong]
    refine .ahead (hlong.trans ?_) ((front_append hlong bytes).trans hfront)
    rw [List.length_append]
    exact Nat.le_add_right _ _

/-- A frame that is refused stays refused, whatever arrives. -/
theorem Refused.arrive (h : Refused crc32 d e) (bytes : List UInt8) :
    Refused crc32 (d.arrive bytes) e := by
  cases h with
  | ahead hlong hfront =>
    refine .ahead (hlong.trans ?_) ((front_append hlong bytes).trans hfront)
    rw [List.length_append]
    exact Nat.le_add_right _ _

variable (crc32) in
/-- The decoder waits for a header, has one, or has one it refuses. -/
theorem cases_next (d : Decoder) : (d.codec.pending = none ∧ d.src.length < headerLen) ∨
    (∃ header rest, At crc32 d header rest) ∨ ∃ e, Refused crc32 d e := by
  obtain ⟨⟨max, pending⟩, src⟩ := d
  cases pending with
  | some header => exact .inr (.inl ⟨header, src, .parked max header src⟩)
  | none =>
    by_cases hlong : headerLen ≤ src.length
    · cases hfront : front crc32 max src with
      | ok header => exact .inr (.inl ⟨header, _, .ahead hlong hfront⟩)
      | error e => exact .inr (.inr ⟨e, .ahead hlong hfront⟩)
    · exact .inl ⟨rfl, Nat.lt_of_not_le hlong⟩

end Decoder

/-! ### What a call of the decoder does -/

namespace KdxCodec

open Decoder

theorem returns_decodeFront (hlong : headerLen ≤ src.length)
    (hparse : PacketHeader.parseFront crc32 src = .ok header) {codec : KdxCodec} :
    Returns (zoom srcField (PacketHeader.decode crc32)) ⟨codec, src⟩ header
      ⟨codec, src.drop headerLen⟩ :=
  returns_zoom.mpr ⟨_, PacketHeader.returns_decode hlong hparse, rfl⟩

theorem nextHeader_waits (hnone : d.codec.pending = none) (hshort : d.src.length < headerLen) :
    Returns (nextHeader crc32) d none d := by
  refine returns_bind.mpr ⟨d, d, returns_get.mpr ⟨rfl, rfl⟩, ?_⟩
  simp only [hnone, if_pos hshort]
  exact returns_pure.mpr ⟨rfl, rfl⟩

/-- A whole header is taken from the front. -/
theorem nextHeader_at (h : At crc32 d header rest) :
    Returns (nextHeader crc32) d (some header) ⟨.new d.codec.maxPayload, rest⟩ := by
  refine returns_bind.mpr ⟨d, d, returns_get.mpr ⟨rfl, rfl⟩, ?_⟩
  cases h with
  | parked max header src =>
    exact returns_bind.mpr ⟨(), _, returns_modify.mpr rfl, returns_pure.mpr ⟨rfl, rfl⟩⟩
  | ahead hlong hfront =>
    obtain ⟨parsed, hparse, hfront⟩ := checks_pass.mp hfront
    obtain ⟨_, hfits, hfront⟩ := checks_pass.mp hfront
    cases hfront
    simp only [if_neg (Nat.not_lt.mpr hlong)]
    refine returns_bind.mpr ⟨header, _, returns_decodeFront hlong hparse, ?_⟩
    exact returns_bind.mpr ⟨(), _, returns_check.mpr ⟨hfits, rfl⟩, returns_pure.mpr ⟨rfl, rfl⟩⟩

/-- A header that is refused is skipped. -/
theorem nextHeader_refused (h : Refused crc32 d e) :
    Fails (nextHeader crc32) d e (d.skip headerLen) := by
  refine fails_bind.mpr (.inr ⟨d, d, returns_get.mpr ⟨rfl, rfl⟩, ?_⟩)
  cases h with
  | ahead hlong hfront =>
    simp only [if_neg (Nat.not_lt.mpr hlong)]
    rcases checks_refuse.mp hfront with hparse | ⟨parsed, hparse, hfront⟩
    · exact fails_bind.mpr (.inl (fails_zoom.mpr ⟨_, PacketHeader.fails_decode hlong hparse, rfl⟩))
    · refine fails_bind.mpr (.inr ⟨parsed, _, returns_decodeFront hlong hparse, ?_⟩)
      rcases checks_refuse.mp hfront with hlarge | ⟨_, _, hok⟩
      · exact fails_bind.mpr (.inl (fails_check.mpr ⟨hlarge, rfl⟩))
      · cases hok

/-- **All that counts of a decoder is the next header and what follows it.** -/
theorem decode_at (h : At crc32 d header rest) :
    (decode crc32).run d = (takePayload header).run ⟨.new d.codec.maxPayload, rest⟩ := by
  rw [decode, run_bind (nextHeader_at h)]

theorem decode_waits (hnone : d.codec.pending = none) (hshort : d.src.length < headerLen) :
    Returns (decode crc32) d none d :=
  returns_bind.mpr ⟨none, d, nextHeader_waits hnone hshort, returns_pure.mpr ⟨rfl, rfl⟩⟩

theorem decode_refused (h : Refused crc32 d e) : Fails (decode crc32) d e (d.skip headerLen) :=
  fails_bind.mpr (.inl (nextHeader_refused h))

/-- A payload that is all there is taken off the front. -/
theorem takePayload_some {codec : KdxCodec} (hthere : header.length.toNat ≤ rest.length) :
    Returns (takePayload header) ⟨codec, rest⟩ (some ⟨header, rest.take header.length.toNat⟩)
      ⟨codec, rest.drop header.length.toNat⟩ := by
  refine returns_bind.mpr ⟨_, _, returns_get.mpr ⟨rfl, rfl⟩, ?_⟩
  simp only [if_neg (Nat.not_lt.mpr hthere)]
  exact returns_bind.mpr ⟨(), _, returns_modify.mpr rfl, returns_pure.mpr ⟨rfl, rfl⟩⟩

/-- A header whose payload is not all there is parked. -/
theorem takePayload_none {codec : KdxCodec} (hshort : rest.length < header.length.toNat) :
    Returns (takePayload header) ⟨codec, rest⟩ none
      ⟨{ codec with pending := some header }, rest⟩ := by
  refine returns_bind.mpr ⟨_, _, returns_get.mpr ⟨rfl, rfl⟩, ?_⟩
  simp only [if_pos hshort]
  exact returns_bind.mpr ⟨(), _, returns_modify.mpr rfl, returns_pure.mpr ⟨rfl, rfl⟩⟩

variable (crc32) in
/-- How a call ends, told by the next header. -/
inductive Outcome (d : Decoder) : Prop
  | waits (hnone : d.codec.pending = none) (hshort : d.src.length < headerLen)
      (h : Returns (decode crc32) d none d)
  | parks (header : PacketHeader) (rest : List UInt8) (hat : At crc32 d header rest)
      (h : Returns (decode crc32) d none ⟨⟨d.codec.maxPayload, some header⟩, rest⟩)
  | gives (header : PacketHeader) (rest : List UInt8) (hat : At crc32 d header rest)
      (hthere : header.length.toNat ≤ rest.length)
      (h : Returns (decode crc32) d (some ⟨header, rest.take header.length.toNat⟩)
        ⟨.new d.codec.maxPayload, rest.drop header.length.toNat⟩)
  | refuses (e : ProtocolError) (hrefused : Refused crc32 d e)
      (h : Fails (decode crc32) d e (d.skip headerLen))

variable (crc32) in
/-- A call ends in one of four ways. -/
theorem outcome (d : Decoder) : Outcome crc32 d := by
  rcases cases_next crc32 d with ⟨hnone, hshort⟩ | ⟨header, rest, hat⟩ | ⟨e, hrefused⟩
  · exact .waits hnone hshort (decode_waits hnone hshort)
  · by_cases hthere : header.length.toNat ≤ rest.length
    · exact .gives header rest hat hthere ((decode_at hat).trans (takePayload_some hthere))
    · have hshort := Nat.lt_of_not_le hthere
      exact .parks header rest hat ((decode_at hat).trans (takePayload_none hshort))
  · exact .refuses e hrefused (decode_refused hrefused)

end KdxCodec

/-! ### The stream -/

namespace Decoder

/-- How much there is to decode; a parked header counts too. -/
def size (d : Decoder) : ℕ := 2 * d.src.length + if d.codec.pending.isSome then 1 else 0

/-- Behind a header there is less to decode. -/
theorem At.size_lt (h : At crc32 d header rest) (codec : KdxCodec) (hnone : codec.pending = none)
    (n : ℕ) : size ⟨codec, rest.drop n⟩ < d.size := by
  simp only [size, hnone, List.length_drop]
  cases h with
  | parked =>
    show 2 * (rest.length - n) + 0 < 2 * rest.length + 1
    omega
  | ahead hlong =>
    have hlong' : 20 ≤ _ := hlong
    simp [headerLen]
    omega

end Decoder

open KdxCodec in
variable (crc32) in
/-- **The frame decoder, as a decoder that is fed piece by piece.** -/
def stream : Incremental Decoder UInt8 ProtocolError KdxFrame where
  poll := KdxCodec.decode crc32
  arrive := Decoder.arrive
  arrive_nil d := by simp [Decoder.arrive]
  arrive_append b c d := by simp [Decoder.arrive]
  size := Decoder.size
  item_size := by
    intro d frame t h
    cases outcome crc32 d with
    | waits _ _ h' => cases (h.unique h').1
    | parks _ _ _ h' => cases (h.unique h').1
    | gives header rest hat hthere h' =>
      rw [(h.unique h').2]
      exact hat.size_lt _ rfl _
    | refuses e _ h' => cases h.symm.trans h'
  item_arrive := by
    intro d frame t bytes h
    cases outcome crc32 d with
    | waits _ _ h' => cases (h.unique h').1
    | parks _ _ _ h' => cases (h.unique h').1
    | gives header rest hat hthere h' =>
      obtain ⟨hframe, rfl⟩ := h.unique h'
      obtain rfl := Option.some.inj hframe
      have hmore : header.length.toNat ≤ (rest ++ bytes).length := by
        rw [List.length_append]
        omega
      have hgives := (decode_at (hat.arrive bytes)).trans (takePayload_some hmore)
      rw [List.take_append_of_le_length hthere, List.drop_append_of_le_length hthere] at hgives
      exact hgives
    | refuses e _ h' => cases h.symm.trans h'
  error_arrive := by
    intro d e t bytes h
    cases outcome crc32 d with
    | waits _ _ h' => cases h.symm.trans h'
    | parks _ _ _ h' => cases h.symm.trans h'
    | gives _ _ _ _ h' => cases h.symm.trans h'
    | refuses e' hrefused h' =>
      cases h.symm.trans h'
      exact ⟨_, decode_refused (hrefused.arrive bytes)⟩
  none_arrive := by
    intro d t bytes h
    cases outcome crc32 d with
    | waits _ _ h' => rw [(h.unique h').2]
    | parks header rest hat h' =>
      rw [(h.unique h').2, decode_at (hat.arrive bytes), 
        decode_at ((Decoder.At.parked _ header rest).arrive bytes)]
      rfl
    | gives _ _ _ _ h' => cases (h.unique h').1
    | refuses e _ h' => cases h.symm.trans h'

/-! ### What was encoded -/

/-- The bytes a frame is sent as. -/
def KdxFrame.encoded (crc32 : List UInt8 → UInt32) (frame : KdxFrame) : List UInt8 :=
  frame.header.encode crc32 ++ frame.payload

namespace KdxCodec

variable {codec : KdxCodec} {dst dst' : List UInt8} {frames : List KdxFrame}

/-- A fresh decoder waits. -/
theorem settled_new (max : UInt32) : (stream crc32).Settled ⟨.new max, []⟩ :=
  decode_waits rfl (Nat.zero_lt_succ 19)

/-- What is encoded is the frame, whose length is within bounds. -/
theorem encode_returns (h : Returns (encode crc32 codec frame) dst () dst') :
    frame.payload.length ≤ codec.maxPayload.toNat ∧
      frame.header.length.toNat = frame.payload.length ∧ dst' = dst ++ frame.encoded crc32 := by
  obtain ⟨_, _, hcheck, h⟩ := returns_bind.mp h
  obtain ⟨hfits, rfl⟩ := returns_check.mp hcheck
  obtain ⟨_, _, hcheck, h⟩ := returns_bind.mp h
  obtain ⟨hlength, rfl⟩ := returns_check.mp hcheck
  obtain ⟨_, _, hheader, h⟩ := returns_bind.mp h
  obtain rfl := returns_modify.mp hheader
  obtain rfl := returns_modify.mp h
  refine ⟨?_, ?_, by simp [KdxFrame.encoded]⟩
  · exact Nat.not_lt.mp (of_decide_eq_false (refuseIf_eq_ok.mp hfits))
  · exact not_not.mp (of_decide_eq_false (refuseIf_eq_ok.mp hlength))

/-- **A frame that was encoded is decoded**, whatever follows it. -/
theorem decode_encoded {max : UInt32} (hversion : frame.header.version = protocolVersion)
    (hfits : frame.payload.length ≤ max.toNat)
    (hlength : frame.header.length.toNat = frame.payload.length) (rest : List UInt8) :
    Returns (decode crc32) ⟨.new max, frame.encoded crc32 ++ rest⟩ (some frame) ⟨.new max, rest⟩ := by
  have hbytes : frame.encoded crc32 ++ rest = frame.header.encode crc32 ++ (frame.payload ++ rest) :=
    List.append_assoc _ _ _
  have hlong : headerLen ≤ (frame.encoded crc32 ++ rest).length := by
    rw [hbytes, List.length_append, PacketHeader.length_encode]
    exact Nat.le_add_right _ _
  have hle : ¬max < frame.header.length := by
    rw [UInt32.lt_iff_toNat_lt, hlength]
    exact Nat.not_lt.mpr hfits
  have hfront : Decoder.front crc32 max (frame.encoded crc32 ++ rest) = .ok frame.header := by
    rw [Decoder.front, hbytes, PacketHeader.parseFront_encode hversion, ok_bind, decide_eq_false hle]
    rfl
  have hat := Decoder.At.ahead hlong hfront
  rw [hbytes, List.drop_left' (PacketHeader.length_encode _), ← hbytes] at hat
  have hthere : frame.header.length.toNat ≤ (frame.payload ++ rest).length := by
    rw [hlength, List.length_append]
    exact Nat.le_add_right _ _
  have hgives := (decode_at hat).trans (takePayload_some hthere)
  rw [hlength, List.take_left' rfl, List.drop_left' rfl] at hgives
  exact hgives

/-- **Frames that were encoded one after another are decoded one after another.** -/
theorem drain_encodeAll {max : UInt32} : ∀ {frames : List KdxFrame} {dst dst' : List UInt8},
    (∀ frame ∈ frames, frame.header.version = protocolVersion) →
      Returns (encodeAll crc32 (.new max) frames) dst () dst' →
        ∃ bytes, dst' = dst ++ bytes ∧
          (stream crc32).drain ⟨.new max, bytes⟩ = (frames, .ok ⟨.new max, []⟩)
  | [], dst, dst', _, h => by
    obtain ⟨-, rfl⟩ := returns_pure.mp h
    exact ⟨[], (List.append_nil dst).symm, Incremental.drain_none (settled_new max)⟩
  | frame :: frames, dst, dst', hversion, h => by
    obtain ⟨_, mid, hframe, h⟩ := returns_bind.mp h
    obtain ⟨hfits, hlength, rfl⟩ := encode_returns hframe
    obtain ⟨bytes, rfl, hdrain⟩ := drain_encodeAll
      (fun f hf => hversion f (List.mem_cons_of_mem _ hf)) h
    refine ⟨frame.encoded crc32 ++ bytes, List.append_assoc _ _ _, ?_⟩
    have hitem : Returns (stream crc32).poll ⟨.new max, frame.encoded crc32 ++ bytes⟩ (some frame)
        ⟨.new max, bytes⟩ := decode_encoded (hversion frame List.mem_cons_self) hfits hlength bytes
    rw [Incremental.drain_item hitem, hdrain]

end KdxCodec

/-- **Framing does not depend on how the bytes arrive.** Frames of the protocol's version
that were encoded one after another are decoded one after another, whatever pieces their
bytes arrive in, and no byte is left; and of any bytes at all, the frames and the first
error are the same in whatever pieces they arrive. -/
theorem framing (crc32 : List UInt8 → UInt32) (max : UInt32) :
    (∀ frames bytes pieces, (∀ frame ∈ frames, frame.header.version = protocolVersion) →
      Returns (KdxCodec.encodeAll crc32 (.new max) frames) [] () bytes → pieces.flatten = bytes →
        (stream crc32).feed ⟨.new max, []⟩ pieces = (frames, .ok ⟨.new max, []⟩)) ∧
      ∀ pieces pieces' : List (List UInt8), pieces.flatten = pieces'.flatten →
        (stream crc32).feed ⟨.new max, []⟩ pieces = (stream crc32).feed ⟨.new max, []⟩ pieces' := by
  have hsettled : (stream crc32).Settled ⟨.new max, []⟩ := KdxCodec.settled_new max
  constructor
  · rintro frames bytes pieces hversion hencode rfl
    obtain ⟨bytes, hbytes, hdrain⟩ := KdxCodec.drain_encodeAll hversion hencode
    rw [Incremental.feed_eq hsettled, hbytes]
    exact hdrain
  · intro pieces pieces' hflatten
    rw [Incremental.feed_eq hsettled, Incremental.feed_eq hsettled, hflatten]

end Codec

namespace Foreign

/-- One bit of a CRC-32 register. -/
def crcBit (crc : UInt32) : UInt32 :=
  if crc &&& 1 = 1 then (crc >>> 1) ^^^ 0xEDB88320 else crc >>> 1

/-- CRC-32 as IEEE 802.3 has it: reflected, inverted before and after. -/
def crc32 (data : List UInt8) : UInt32 :=
  data.foldl (fun crc b => crcBit^[8] (crc ^^^ b.toUInt32)) 0xFFFFFFFF ^^^ 0xFFFFFFFF

/-- The header that the documentation of the wire format works out. -/
example : PacketHeader.encode crc32 ⟨2, .chatMessage, 8, 42, 13⟩ =
    [0x4B, 0x44, 0x58, 0, 2, 0x30, 0, 8, 0, 0, 0, 0x2A, 0, 0, 0, 0x0D, 0, 0, 0x6E, 0x91] := by
  decide +kernel

/-- A frame of another version. -/
def frame : KdxFrame := ⟨⟨99, .ping, 0, 0, 1⟩, [0x78]⟩

/-- **The encoder writes a frame of any version, and the decoder refuses it.** -/
theorem version_refused : ∃ frames bytes pieces,
    Returns (KdxCodec.encodeAll crc32 (.new 16384) frames) [] () bytes ∧ pieces.flatten = bytes ∧
      (stream crc32).feed ⟨.new 16384, []⟩ pieces ≠ (frames, .ok ⟨.new 16384, []⟩) := by
  refine ⟨[frame], frame.encoded crc32, [frame.encoded crc32], rfl, by simp, ?_⟩
  have hfront : Decoder.front crc32 16384 (frame.encoded crc32) = .error (.unsupportedVersion 99) := by
    decide +kernel
  have hrefused := KdxCodec.decode_refused (.ahead (by decide) hfront)
  rw [Incremental.feed_eq (KdxCodec.settled_new 16384)]
  have hdrain : (stream crc32).drain ((stream crc32).arrive [frame.encoded crc32].flatten
      ⟨.new 16384, []⟩) = ([], .error (.unsupportedVersion 99)) := Incremental.drain_error hrefused
  rw [hdrain]
  decide

/-- Two frames, one of them empty, in pieces that cut a header. -/
theorem framing_ping : (stream crc32).feed ⟨.new 16384, []⟩
    ((KdxFrame.encoded crc32 ⟨⟨2, .ping, 0, 0, 1⟩, [0x78]⟩ ++
      KdxFrame.encoded crc32 ⟨⟨2, .pong, 0, 1, 0⟩, []⟩).toChunks 7) =
        ([⟨⟨2, .ping, 0, 0, 1⟩, [0x78]⟩, ⟨⟨2, .pong, 0, 1, 0⟩, []⟩], .ok ⟨.new 16384, []⟩) :=
  (framing crc32 16384).1 _ _ _ (by decide) rfl (by decide +kernel)

end Foreign

end Protocol

end KdxHotline
