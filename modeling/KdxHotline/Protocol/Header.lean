import Mathlib.Data.BitVec
import KdxHotline.Foundations.Bytes
import KdxHotline.Foundations.Fallible
import KdxHotline.Foundations.Flags

/-!
# The packet header

Every packet starts with a header of twenty bytes: a magic number, the protocol
version, the type of the packet, its flags, a sequence number, the length of its
payload, two bytes that are zero and a checksum over the rest. What the encoder
writes, the decoder reads back, for a header of the version both speak
(`KdxHotline.Protocol.PacketHeader.parse_head`).

The checksum is CRC-32, which is computed elsewhere; here it is any function.
-/

namespace KdxHotline

namespace Protocol

open Foundations

/-- Why a stream of packets was given up. -/
inductive ProtocolError
  | badMagic
  | badChecksum
  | unsupportedVersion (version : UInt8)
  | unknownPacketType (type : UInt8)
  | nonZeroReserved
  | payloadTooLarge (length max : UInt32)
  | lengthMismatch (header : UInt32) (payload : ℕ)
  | fragmentOutOfOrder (expected got : UInt32)
  | fragmentInterleaved
  | reassemblyTooLarge (max : ℕ)
  | malformedPayload (what : String)
  | unexpectedEof
  deriving DecidableEq

/-- What a packet is about. -/
inductive PacketType
  | handshakeInit | handshakeResp | ping | pong | disconnect | authRequest | authChallenge
  | authResponse | authResult | passwordChangeBegin | passwordChangeChallenge
  | passwordChangeProof | passwordChangeResult | fileListRequest | fileListResponse
  | fileTransferStart | fileTransferData | fileTransferEnd | fileCreateFolder | fileDelete
  | fileGenerateCatalog | fileCatalogGenerated | fileSearchRequest | fileSearchResponse
  | fileMove | fileAlias | fileInfoRequest | fileInfoResponse | chatMessage | chatJoin
  | chatLeave | chatUserList | chatTopicSet | setIdentity | presenceListRequest
  | presenceListResponse | presenceChange | userInfoRequest | userInfoResponse | privateSend
  | privateMessage | adminDisconnect | banListRequest | banListResponse | banRemove
  | roleListRequest | roleListResponse | roleCreate | roleUpdate | roleDelete | roleAssign
  | roleUnassign | accountRolesRequest | accountRolesResponse | accountCreate | accountUpdate
  | accountListRequest | accountListResponse | accountSetPassword | newsgroupListRequest
  | newsgroupListResponse | newsThreadListRequest | newsThreadListResponse | newsPostCreate
  | newsPostDelete | newsgroupCreate | newsgroupUpdate | newsgroupDelete | trackerListRequest
  | trackerListResponse | serverSettingsRequest | serverSettingsResponse | serverSettingsUpdate
  | adminBroadcast | adminShutdown | chatInvite | chatInvited | historyListRequest
  | historyListResponse | ipRuleListRequest | ipRuleListResponse | ipRuleCreate | ipRuleDelete
  | connectionListRequest | connectionListResponse | chatRoomFlags | error | warning | info
  deriving DecidableEq

namespace PacketType

/-- The byte a type is sent as. -/
def asU8 : PacketType → UInt8
  | handshakeInit => 0x01 | handshakeResp => 0x02 | ping => 0x03 | pong => 0x04
  | disconnect => 0x0F | authRequest => 0x10 | authChallenge => 0x11 | authResponse => 0x12
  | authResult => 0x13 | passwordChangeBegin => 0x14 | passwordChangeChallenge => 0x15
  | passwordChangeProof => 0x16 | passwordChangeResult => 0x17 | fileListRequest => 0x20
  | fileListResponse => 0x21 | fileTransferStart => 0x22 | fileTransferData => 0x23
  | fileTransferEnd => 0x24 | fileCreateFolder => 0x25 | fileDelete => 0x26
  | fileGenerateCatalog => 0x27 | fileCatalogGenerated => 0x28 | fileSearchRequest => 0x29
  | fileSearchResponse => 0x2A | fileMove => 0x2B | fileAlias => 0x2C | fileInfoRequest => 0x2D
  | fileInfoResponse => 0x2E | chatMessage => 0x30 | chatJoin => 0x31 | chatLeave => 0x32
  | chatUserList => 0x33 | chatTopicSet => 0x34 | setIdentity => 0x3A
  | presenceListRequest => 0x35 | presenceListResponse => 0x36 | presenceChange => 0x37
  | userInfoRequest => 0x38 | userInfoResponse => 0x39 | privateSend => 0x40
  | privateMessage => 0x41 | adminDisconnect => 0x42 | banListRequest => 0x43
  | banListResponse => 0x44 | banRemove => 0x45 | roleListRequest => 0x50
  | roleListResponse => 0x51 | roleCreate => 0x52 | roleUpdate => 0x53 | roleDelete => 0x54
  | roleAssign => 0x55 | roleUnassign => 0x56 | accountRolesRequest => 0x57
  | accountRolesResponse => 0x58 | accountCreate => 0x59 | accountUpdate => 0x5A
  | accountListRequest => 0x5B | accountListResponse => 0x5C | accountSetPassword => 0x5D
  | newsgroupListRequest => 0x60 | newsgroupListResponse => 0x61 | newsThreadListRequest => 0x62
  | newsThreadListResponse => 0x63 | newsPostCreate => 0x64 | newsPostDelete => 0x65
  | newsgroupCreate => 0x66 | newsgroupUpdate => 0x67 | newsgroupDelete => 0x68
  | trackerListRequest => 0x70 | trackerListResponse => 0x71 | serverSettingsRequest => 0x72
  | serverSettingsResponse => 0x73 | serverSettingsUpdate => 0x74 | adminBroadcast => 0x75
  | adminShutdown => 0x76 | chatInvite => 0x77 | chatInvited => 0x78 | historyListRequest => 0x79
  | historyListResponse => 0x7A | ipRuleListRequest => 0x7B | ipRuleListResponse => 0x7C
  | ipRuleCreate => 0x7D | ipRuleDelete => 0x7E | connectionListRequest => 0x7F
  | connectionListResponse => 0x80 | chatRoomFlags => 0x81 | error => 0xF0 | warning => 0xF1
  | info => 0xF2

/-- The type a byte stands for. -/
def tryFrom : UInt8 → Except ProtocolError PacketType
  | 0x01 => .ok .handshakeInit | 0x02 => .ok .handshakeResp | 0x03 => .ok .ping
  | 0x04 => .ok .pong | 0x0F => .ok .disconnect | 0x10 => .ok .authRequest
  | 0x11 => .ok .authChallenge | 0x12 => .ok .authResponse | 0x13 => .ok .authResult
  | 0x14 => .ok .passwordChangeBegin | 0x15 => .ok .passwordChangeChallenge
  | 0x16 => .ok .passwordChangeProof | 0x17 => .ok .passwordChangeResult
  | 0x20 => .ok .fileListRequest | 0x21 => .ok .fileListResponse | 0x22 => .ok .fileTransferStart
  | 0x23 => .ok .fileTransferData | 0x24 => .ok .fileTransferEnd | 0x25 => .ok .fileCreateFolder
  | 0x26 => .ok .fileDelete | 0x27 => .ok .fileGenerateCatalog
  | 0x28 => .ok .fileCatalogGenerated | 0x29 => .ok .fileSearchRequest
  | 0x2A => .ok .fileSearchResponse | 0x2B => .ok .fileMove | 0x2C => .ok .fileAlias
  | 0x2D => .ok .fileInfoRequest | 0x2E => .ok .fileInfoResponse | 0x30 => .ok .chatMessage
  | 0x31 => .ok .chatJoin | 0x32 => .ok .chatLeave | 0x33 => .ok .chatUserList
  | 0x34 => .ok .chatTopicSet | 0x3A => .ok .setIdentity | 0x35 => .ok .presenceListRequest
  | 0x36 => .ok .presenceListResponse | 0x37 => .ok .presenceChange
  | 0x38 => .ok .userInfoRequest | 0x39 => .ok .userInfoResponse | 0x40 => .ok .privateSend
  | 0x41 => .ok .privateMessage | 0x42 => .ok .adminDisconnect | 0x43 => .ok .banListRequest
  | 0x44 => .ok .banListResponse | 0x45 => .ok .banRemove | 0x50 => .ok .roleListRequest
  | 0x51 => .ok .roleListResponse | 0x52 => .ok .roleCreate | 0x53 => .ok .roleUpdate
  | 0x54 => .ok .roleDelete | 0x55 => .ok .roleAssign | 0x56 => .ok .roleUnassign
  | 0x57 => .ok .accountRolesRequest | 0x58 => .ok .accountRolesResponse
  | 0x59 => .ok .accountCreate | 0x5A => .ok .accountUpdate | 0x5B => .ok .accountListRequest
  | 0x5C => .ok .accountListResponse | 0x5D => .ok .accountSetPassword
  | 0x60 => .ok .newsgroupListRequest | 0x61 => .ok .newsgroupListResponse
  | 0x62 => .ok .newsThreadListRequest | 0x63 => .ok .newsThreadListResponse
  | 0x64 => .ok .newsPostCreate | 0x65 => .ok .newsPostDelete | 0x66 => .ok .newsgroupCreate
  | 0x67 => .ok .newsgroupUpdate | 0x68 => .ok .newsgroupDelete | 0x70 => .ok .trackerListRequest
  | 0x71 => .ok .trackerListResponse | 0x72 => .ok .serverSettingsRequest
  | 0x73 => .ok .serverSettingsResponse | 0x74 => .ok .serverSettingsUpdate
  | 0x75 => .ok .adminBroadcast | 0x76 => .ok .adminShutdown | 0x77 => .ok .chatInvite
  | 0x78 => .ok .chatInvited | 0x79 => .ok .historyListRequest | 0x7A => .ok .historyListResponse
  | 0x7B => .ok .ipRuleListRequest | 0x7C => .ok .ipRuleListResponse | 0x7D => .ok .ipRuleCreate
  | 0x7E => .ok .ipRuleDelete | 0x7F => .ok .connectionListRequest
  | 0x80 => .ok .connectionListResponse | 0x81 => .ok .chatRoomFlags | 0xF0 => .ok .error
  | 0xF1 => .ok .warning | 0xF2 => .ok .info
  | other => .error (.unknownPacketType other)

/-- **A type is read back from its byte.** -/
theorem tryFrom_asU8 (t : PacketType) : tryFrom t.asU8 = .ok t := by
  cases t <;> rfl

end PacketType

/-! ### Flags -/

/-- The flags of a packet. -/
abbrev PacketFlags := BitVec 16

namespace PacketFlags

/-- The packet is a fragment. -/
def fragmented : PacketFlags := 1 <<< 12

/-- Another fragment of the group follows. -/
def moreFragments : PacketFlags := 1 <<< 13

/-- Whether every one of the given flags is set. -/
def contains (flags other : PacketFlags) : Bool := decide (Within other flags)

end PacketFlags

/-! ### The header -/

/-- The bytes every packet starts with. -/
def magic : List UInt8 := [0x4B, 0x44, 0x58, 0x00]

/-- The version of the protocol. -/
def protocolVersion : UInt8 := 2

/-- The bytes of a header. -/
def headerLen : ℕ := 20

/-- The header of a packet. -/
structure PacketHeader where
  version : UInt8
  packetType : PacketType
  flags : PacketFlags
  sequence : UInt32
  length : UInt32
  deriving DecidableEq

section Header

variable (crc32 : List UInt8 → UInt32)

/-- The CRC-32 of the data folded to 16 bits by xoring its halves. -/
def foldCrc (data : List UInt8) : UInt16 :=
  let crc := crc32 data
  (crc >>> 16).toUInt16 ^^^ (crc &&& 0xFFFF).toUInt16

namespace PacketHeader

/-- All of a header but its checksum. -/
def head (h : PacketHeader) : List UInt8 :=
  magic ++ [h.version, h.packetType.asU8] ++ toBe 2 h.flags.toNat ++ toBe 4 h.sequence.toNat ++
    toBe 4 h.length.toNat ++ [0, 0]

/-- The bytes of a header, with its checksum last. -/
def encode (h : PacketHeader) : List UInt8 := h.head ++ toBe 2 (foldCrc crc32 h.head).toNat

/-- Validate the bytes of a header against the checksum that came with them. -/
def parse (head : List UInt8) (storedChecksum : UInt16) : Except ProtocolError PacketHeader := do
  refuseIf (decide (head.take 4 ≠ magic)) .badMagic
  refuseIf (decide (foldCrc crc32 head ≠ storedChecksum)) .badChecksum
  let version := head.getD 4 0
  refuseIf (decide (version ≠ protocolVersion)) (.unsupportedVersion version)
  refuseIf (decide ((head.drop 16).take 2 ≠ [0, 0])) .nonZeroReserved
  let packetType ← PacketType.tryFrom (head.getD 5 0)
  return { version := version, packetType := packetType
           flags := BitVec.ofNat 16 (ofBe ((head.drop 6).take 2))
           sequence := UInt32.ofNat (ofBe ((head.drop 8).take 4))
           length := UInt32.ofNat (ofBe ((head.drop 12).take 4)) }

/-- Parse the header at the front of a buffer. -/
def parseFront (buf : List UInt8) : Except ProtocolError PacketHeader :=
  parse crc32 (buf.take (headerLen - 2)) (UInt16.ofNat (ofBe ((buf.drop (headerLen - 2)).take 2)))

/-- Take a header off the front of a buffer; the bytes are gone even when they are
refused. -/
def decode : Fallible (List UInt8) ProtocolError PacketHeader := do
  let buf ← get
  check (refuseIf (decide (buf.length < headerLen)) .unexpectedEof)
  modify (List.drop headerLen)
  check (parseFront crc32 buf)

variable {crc32} {h : PacketHeader} {buf : List UInt8} {e : ProtocolError}

theorem length_head (h : PacketHeader) : h.head.length = headerLen - 2 := rfl

theorem length_encode (h : PacketHeader) : (h.encode crc32).length = headerLen := rfl

/-- **The bytes of a header are parsed to it**, when it is of the version that is
spoken. -/
theorem parse_head (hversion : h.version = protocolVersion) :
    parse crc32 h.head (foldCrc crc32 h.head) = .ok h := by
  have hflags : BitVec.ofNat 16 (ofBe (toBe 2 h.flags.toNat)) = h.flags := by
    rw [ofBe_toBe h.flags.isLt, BitVec.ofNat_toNat, BitVec.setWidth_eq]
  have hword : ∀ x : UInt32, UInt32.ofNat (ofBe (toBe 4 x.toNat)) = x := by
    intro x
    rw [ofBe_toBe x.toNat_lt, UInt32.ofNat_toNat]
  have hmagic : h.head.take 4 = magic := rfl
  have hv : h.head.getD 4 0 = protocolVersion := hversion
  have ht : PacketType.tryFrom (h.head.getD 5 0) = .ok h.packetType :=
    PacketType.tryFrom_asU8 h.packetType
  have hreserved : (h.head.drop 16).take 2 = [0, 0] := rfl
  have hf : (h.head.drop 6).take 2 = toBe 2 h.flags.toNat := rfl
  have hs : (h.head.drop 8).take 4 = toBe 4 h.sequence.toNat := rfl
  have hl : (h.head.drop 12).take 4 = toBe 4 h.length.toNat := rfl
  simp only [parse, hmagic, hv, ht, hreserved, hf, hs, hl, hflags, hword, ne_eq, not_true_eq_false,
    decide_false, refuseIf, Bool.false_eq_true, if_false, ok_bind, pure, Except.pure, ← hversion]

/-- **A header that was encoded is parsed**, whatever follows it. -/
theorem parseFront_encode (hversion : h.version = protocolVersion) (rest : List UInt8) :
    parseFront crc32 (h.encode crc32 ++ rest) = .ok h := by
  have hhead : (h.encode crc32 ++ rest).take (headerLen - 2) = h.head := by
    rw [encode, List.append_assoc, List.take_left' (length_head h)]
  have hsum : ((h.encode crc32 ++ rest).drop (headerLen - 2)).take 2 =
      toBe 2 (foldCrc crc32 h.head).toNat := by
    rw [encode, List.append_assoc, List.drop_left' (length_head h), List.take_left' (length_toBe 2 _)]
  rw [parseFront, hhead, hsum, ofBe_toBe (foldCrc crc32 h.head).toNat_lt, UInt16.ofNat_toNat]
  exact parse_head hversion

/-- A whole header does not depend on what follows it. -/
theorem parseFront_append (hlong : headerLen ≤ buf.length) (bytes : List UInt8) :
    parseFront crc32 (buf ++ bytes) = parseFront crc32 buf := by
  have hlong' : 20 ≤ buf.length := hlong
  have hhead : (buf ++ bytes).take (headerLen - 2) = buf.take (headerLen - 2) :=
    List.take_append_of_le_length ((Nat.sub_le _ _).trans hlong)
  have hsum : ((buf ++ bytes).drop (headerLen - 2)).take 2 = (buf.drop (headerLen - 2)).take 2 := by
    rw [List.drop_append_of_le_length ((Nat.sub_le _ _).trans hlong),
      List.take_append_of_le_length]
    rw [List.length_drop, headerLen]
    omega
  rw [parseFront, parseFront, hhead, hsum]

theorem returns_decode (hlong : headerLen ≤ buf.length) (hparse : parseFront crc32 buf = .ok h) :
    Returns (decode crc32) buf h (buf.drop headerLen) := by
  refine returns_bind.mpr ⟨_, _, returns_get.mpr ⟨rfl, rfl⟩, ?_⟩
  refine returns_bind.mpr ⟨(), buf, returns_check.mpr ⟨?_, rfl⟩, ?_⟩
  · exact refuseIf_eq_ok.mpr (decide_eq_false (Nat.not_lt.mpr hlong))
  · exact returns_bind.mpr ⟨(), _, returns_modify.mpr rfl, returns_check.mpr ⟨hparse, rfl⟩⟩

theorem fails_decode (hlong : headerLen ≤ buf.length) (hparse : parseFront crc32 buf = .error e) :
    Fails (decode crc32) buf e (buf.drop headerLen) := by
  refine fails_bind.mpr (.inr ⟨_, _, returns_get.mpr ⟨rfl, rfl⟩, ?_⟩)
  refine fails_bind.mpr (.inr ⟨(), buf, returns_check.mpr ⟨?_, rfl⟩, ?_⟩)
  · exact refuseIf_eq_ok.mpr (decide_eq_false (Nat.not_lt.mpr hlong))
  · exact fails_bind.mpr (.inr ⟨(), _, returns_modify.mpr rfl, fails_check.mpr ⟨hparse, rfl⟩⟩)

end PacketHeader

end Header

end Protocol

end KdxHotline
