import KdxHotline.Protocol.Messages.Account
import KdxHotline.Protocol.Messages.Admin
import KdxHotline.Protocol.Messages.File
import KdxHotline.Protocol.Messages.News

/-!
# Every payload type

The payload types as one family. A message survives the wire, clamped at most
(`KdxHotline.Protocol.every_message_survives`), and a decoder accepts nothing but what the
encoder of its type produces (`KdxHotline.Protocol.only_encodings_accepted`). Neither needs a
look at the layouts: each payload type carries its own laws.
-/

namespace KdxHotline

namespace Protocol

open Foundations

/-- The payload types. -/
inductive PayloadType
  | chatSend | chatEvent | chatJoin | chatLeave | chatUserList | chatTopic | chatInvite
  | chatInvited | chatRoomFlags | presenceListRequest | presenceListResponse | presenceChange
  | setIdentity | userInfoRequest | userInfoResponse | privateSend | privateMessage
  | handshakeInit | handshakeResp | accountCreate | accountSetPassword | accountUpdate
  | accountListRequest | accountListResponse | authRequest | roleListRequest | roleListResponse
  | roleCreate | roleUpdate | roleDelete | roleAssign | roleUnassign | accountRolesRequest
  | accountRolesResponse | authChallenge | authResponse | authResult | passwordChangeBegin
  | passwordChangeChallenge | passwordChangeProof | passwordChangeResult | adminDisconnect
  | banListRequest | banListResponse | banRemove | serverSettingsRequest
  | serverSettingsResponse | serverSettingsUpdate | adminBroadcast | adminShutdown
  | historyListRequest | historyListResponse | ipRuleListRequest | ipRuleListResponse
  | ipRuleCreate | ipRuleDelete | connectionListRequest | connectionListResponse
  | trackerListRequest | trackerListResponse | newsgroupListRequest | newsgroupListResponse
  | newsThreadListRequest | newsThreadListResponse | newsPostCreate | newsPostDelete
  | newsgroupCreate | newsgroupUpdate | newsgroupDelete | fileListRequest | fileListResponse
  | fileCreateFolder | fileInfoRequest | fileInfoResponse | fileDelete | fileMove | fileAlias
  | fileGenerateCatalog | fileCatalogGenerated | fileSearchRequest | fileSearchResponse
  | transferRequest | transferAccept | transferData | transferEnd

namespace PayloadType

/-- What a payload of each type says. -/
def Value : PayloadType → Type
  | chatSend => ChatSend
  | chatEvent => ChatEvent
  | chatJoin => ChatJoin
  | chatLeave => ChatLeave
  | chatUserList => ChatUserList
  | chatTopic => ChatTopic
  | chatInvite => ChatInvite
  | chatInvited => ChatInvited
  | chatRoomFlags => ChatRoomFlags
  | presenceListRequest => PresenceListRequest
  | presenceListResponse => PresenceListResponse
  | presenceChange => PresenceChange
  | setIdentity => SetIdentity
  | userInfoRequest => UserInfoRequest
  | userInfoResponse => UserInfoResponse
  | privateSend => PrivateSend
  | privateMessage => PrivateMessage
  | handshakeInit => HandshakeInit
  | handshakeResp => HandshakeResp
  | accountCreate => AccountCreate
  | accountSetPassword => AccountSetPassword
  | accountUpdate => AccountUpdate
  | accountListRequest => AccountListRequest
  | accountListResponse => AccountListResponse
  | authRequest => AuthRequest
  | roleListRequest => RoleListRequest
  | roleListResponse => RoleListResponse
  | roleCreate => RoleCreate
  | roleUpdate => RoleUpdate
  | roleDelete => RoleDelete
  | roleAssign => RoleAssign
  | roleUnassign => RoleUnassign
  | accountRolesRequest => AccountRolesRequest
  | accountRolesResponse => AccountRolesResponse
  | authChallenge => AuthChallenge
  | authResponse => AuthResponse
  | authResult => AuthResult
  | passwordChangeBegin => PasswordChangeBegin
  | passwordChangeChallenge => PasswordChangeChallenge
  | passwordChangeProof => PasswordChangeProof
  | passwordChangeResult => PasswordChangeResult
  | adminDisconnect => AdminDisconnect
  | banListRequest => BanListRequest
  | banListResponse => BanListResponse
  | banRemove => BanRemove
  | serverSettingsRequest => ServerSettingsRequest
  | serverSettingsResponse => ServerSettingsResponse
  | serverSettingsUpdate => ServerSettingsUpdate
  | adminBroadcast => AdminBroadcast
  | adminShutdown => AdminShutdown
  | historyListRequest => HistoryListRequest
  | historyListResponse => HistoryListResponse
  | ipRuleListRequest => IpRuleListRequest
  | ipRuleListResponse => IpRuleListResponse
  | ipRuleCreate => IpRuleCreate
  | ipRuleDelete => IpRuleDelete
  | connectionListRequest => ConnectionListRequest
  | connectionListResponse => ConnectionListResponse
  | trackerListRequest => TrackerListRequest
  | trackerListResponse => TrackerListResponse
  | newsgroupListRequest => NewsgroupListRequest
  | newsgroupListResponse => NewsgroupListResponse
  | newsThreadListRequest => NewsThreadListRequest
  | newsThreadListResponse => NewsThreadListResponse
  | newsPostCreate => NewsPostCreate
  | newsPostDelete => NewsPostDelete
  | newsgroupCreate => NewsgroupCreate
  | newsgroupUpdate => NewsgroupUpdate
  | newsgroupDelete => NewsgroupDelete
  | fileListRequest => FileListRequest
  | fileListResponse => FileListResponse
  | fileCreateFolder => FileCreateFolder
  | fileInfoRequest => FileInfoRequest
  | fileInfoResponse => FileInfoResponse
  | fileDelete => FileDelete
  | fileMove => FileMove
  | fileAlias => FileAlias
  | fileGenerateCatalog => FileGenerateCatalog
  | fileCatalogGenerated => FileCatalogGenerated
  | fileSearchRequest => FileSearchRequest
  | fileSearchResponse => FileSearchResponse
  | transferRequest => TransferRequest
  | transferAccept => TransferAccept
  | transferData => TransferData
  | transferEnd => TransferEnd

/-- How a payload of each type is written and read. -/
def payload : (p : PayloadType) → Payload p.Value
  | chatSend => ChatSend.payload
  | chatEvent => ChatEvent.payload
  | chatJoin => ChatJoin.payload
  | chatLeave => ChatLeave.payload
  | chatUserList => ChatUserList.payload
  | chatTopic => ChatTopic.payload
  | chatInvite => ChatInvite.payload
  | chatInvited => ChatInvited.payload
  | chatRoomFlags => ChatRoomFlags.payload
  | presenceListRequest => PresenceListRequest.payload
  | presenceListResponse => PresenceListResponse.payload
  | presenceChange => PresenceChange.payload
  | setIdentity => SetIdentity.payload
  | userInfoRequest => UserInfoRequest.payload
  | userInfoResponse => UserInfoResponse.payload
  | privateSend => PrivateSend.payload
  | privateMessage => PrivateMessage.payload
  | handshakeInit => HandshakeInit.payload
  | handshakeResp => HandshakeResp.payload
  | accountCreate => AccountCreate.payload
  | accountSetPassword => AccountSetPassword.payload
  | accountUpdate => AccountUpdate.payload
  | accountListRequest => AccountListRequest.payload
  | accountListResponse => AccountListResponse.payload
  | authRequest => AuthRequest.payload
  | roleListRequest => RoleListRequest.payload
  | roleListResponse => RoleListResponse.payload
  | roleCreate => RoleCreate.payload
  | roleUpdate => RoleUpdate.payload
  | roleDelete => RoleDelete.payload
  | roleAssign => RoleAssign.payload
  | roleUnassign => RoleUnassign.payload
  | accountRolesRequest => AccountRolesRequest.payload
  | accountRolesResponse => AccountRolesResponse.payload
  | authChallenge => AuthChallenge.payload
  | authResponse => AuthResponse.payload
  | authResult => AuthResult.payload
  | passwordChangeBegin => PasswordChangeBegin.payload
  | passwordChangeChallenge => PasswordChangeChallenge.payload
  | passwordChangeProof => PasswordChangeProof.payload
  | passwordChangeResult => PasswordChangeResult.payload
  | adminDisconnect => AdminDisconnect.payload
  | banListRequest => BanListRequest.payload
  | banListResponse => BanListResponse.payload
  | banRemove => BanRemove.payload
  | serverSettingsRequest => ServerSettingsRequest.payload
  | serverSettingsResponse => ServerSettingsResponse.payload
  | serverSettingsUpdate => ServerSettingsUpdate.payload
  | adminBroadcast => AdminBroadcast.payload
  | adminShutdown => AdminShutdown.payload
  | historyListRequest => HistoryListRequest.payload
  | historyListResponse => HistoryListResponse.payload
  | ipRuleListRequest => IpRuleListRequest.payload
  | ipRuleListResponse => IpRuleListResponse.payload
  | ipRuleCreate => IpRuleCreate.payload
  | ipRuleDelete => IpRuleDelete.payload
  | connectionListRequest => ConnectionListRequest.payload
  | connectionListResponse => ConnectionListResponse.payload
  | trackerListRequest => TrackerListRequest.payload
  | trackerListResponse => TrackerListResponse.payload
  | newsgroupListRequest => NewsgroupListRequest.payload
  | newsgroupListResponse => NewsgroupListResponse.payload
  | newsThreadListRequest => NewsThreadListRequest.payload
  | newsThreadListResponse => NewsThreadListResponse.payload
  | newsPostCreate => NewsPostCreate.payload
  | newsPostDelete => NewsPostDelete.payload
  | newsgroupCreate => NewsgroupCreate.payload
  | newsgroupUpdate => NewsgroupUpdate.payload
  | newsgroupDelete => NewsgroupDelete.payload
  | fileListRequest => FileListRequest.payload
  | fileListResponse => FileListResponse.payload
  | fileCreateFolder => FileCreateFolder.payload
  | fileInfoRequest => FileInfoRequest.payload
  | fileInfoResponse => FileInfoResponse.payload
  | fileDelete => FileDelete.payload
  | fileMove => FileMove.payload
  | fileAlias => FileAlias.payload
  | fileGenerateCatalog => FileGenerateCatalog.payload
  | fileCatalogGenerated => FileCatalogGenerated.payload
  | fileSearchRequest => FileSearchRequest.payload
  | fileSearchResponse => FileSearchResponse.payload
  | transferRequest => TransferRequest.payload
  | transferAccept => TransferAccept.payload
  | transferData => TransferData.payload
  | transferEnd => TransferEnd.payload

variable (p : PayloadType)

/-- The bytes of a message. -/
def encode (m : p.Value) : List UInt8 := p.payload.encode m

/-- The message of some bytes. -/
def decode (b : List UInt8) : Except (ReadError ProtocolError) p.Value := p.payload.parse b

/-- What a message becomes on the wire: every string, blob and list that its prefix
cannot count is cut. -/
def clamp (m : p.Value) : p.Value := p.payload.clamp m

/-- Every string, blob and list is one that its prefix can count. -/
def Fits (m : p.Value) : Prop := p.payload.Fits m

/-- A transfer goes one way or the other, and the salt of a challenge is counted in two
bytes without being cut. Any other message may be sent. -/
def Sendable : (p : PayloadType) → p.Value → Prop
  | transferRequest, m => m.direction = 0 ∨ m.direction = 1
  | authChallenge, m => m.salt.length ≤ 65535
  | _, _ => True

/-- The flag of a login result is one that is written. -/
def Canonical : PayloadType → List UInt8 → Prop
  | authResult, b => b.head? = some 0 ∨ b.head? = some 1
  | _, _ => True

variable {p}

theorem sendable_payload {m : p.Value} (h : p.Sendable m) : p.payload.Sendable m := by
  cases p <;> exact h

theorem canonical_payload {b : List UInt8} (h : p.Canonical b) : p.payload.Canonical b := by
  cases p <;> exact h

end PayloadType

/-- **Every message survives the wire, clamped at most.** A string is cut to its longest
prefix that fits, a blob and a list to what their prefix counts, and a message whose
fields all fit is not changed. -/
theorem every_message_survives :
    (∀ (p : PayloadType) (m : p.Value), p.Sendable m →
      p.decode (p.encode m) = .ok (p.clamp m) ∧ (p.Fits m ↔ p.clamp m = m)) ∧
    (∀ s : String, (clampText s).toList <+: s.toList ∧ (clampText s).utf8ByteSize ≤ 65535 ∧
      ∀ t, t <+: s.toList → (String.ofList t).utf8ByteSize ≤ 65535 →
        t <+: (clampText s).toList) ∧
    (∀ bytes, clampBytes bytes = bytes.take 65535) ∧
    (∀ {α : Type} (cut : α → α) (as : List α),
      clampList16 cut as = (as.take 65535).map cut ∧
      clampList32 cut as = (as.take 4294967295).map cut) := by
  refine ⟨fun p m h => ⟨?_, ?_⟩, fun s => ?_, fun bytes => ?_, fun cut as => ⟨?_, ?_⟩⟩
  · exact Message.parse_encode (PayloadType.sendable_payload h)
  · exact p.payload.clamp_eq_self.symm
  · exact clampStr_longest s maxU16Len
  · rfl
  · rfl
  · rfl

/-- An upload of a file named `a.txt` into the top of the tree is read back as it was
sent. -/
theorem every_message_survives_upload :
    let m : TransferRequest := {
      direction := directionUpload, path := "", name := "a.txt", size := 7, chunkSize := 4,
      sha256 := Vector.replicate 32 1, resumeId := Vector.replicate 16 0, haveBitmap := [3] }
    PayloadType.transferRequest.decode (PayloadType.transferRequest.encode m) = .ok m := by
  intro m
  obtain ⟨hread, hfits⟩ := every_message_survives.1 .transferRequest m (.inl rfl)
  rw [hread, hfits.mp ⟨?_, ?_, ?_⟩]
  · exact Nat.zero_le _
  · exact Nat.le_of_ble_eq_true rfl
  · exact Nat.le_of_ble_eq_true rfl

/-- **A decoder accepts only what its encoder produces.** No two runs of bytes are read as
one message, and no decoder reads past the end of its payload. -/
theorem only_encodings_accepted :
    (∀ (p : PayloadType) (b : List UInt8) (m : p.Value), p.Canonical b → p.decode b = .ok m →
      p.encode m = b) ∧
    (∀ (p : PayloadType) (b b' : List UInt8) (m : p.Value), p.Canonical b → p.Canonical b' →
      p.decode b = .ok m → p.decode b' = .ok m → b = b') ∧
    (∀ (p : PayloadType) (b : List UInt8), p.decode b ≠ .error .overrun) := by
  refine ⟨fun p b m hb h => ?_, fun p b b' m hb hb' h h' => ?_, fun p b => ?_⟩
  · exact Message.encode_of_parse (PayloadType.canonical_payload hb) h
  · exact Message.parse_injective (PayloadType.canonical_payload hb)
      (PayloadType.canonical_payload hb') h h'
  · exact p.payload.parse_ne_overrun b

/-- A failed login, read off its bytes, is written back as those bytes. -/
theorem only_encodings_accepted_failure :
    PayloadType.authResult.decode (List.replicate 56 0) =
        .ok (⟨false, Vector.replicate 16 0, 0, 0, "", Vector.replicate 32 0⟩ : AuthResult) ∧
      PayloadType.authResult.encode
        (⟨false, Vector.replicate 16 0, 0, 0, "", Vector.replicate 32 0⟩ : AuthResult) =
        List.replicate 56 0 := by
  have hread : PayloadType.authResult.decode (List.replicate 56 0) =
      .ok (⟨false, Vector.replicate 16 0, 0, 0, "", Vector.replicate 32 0⟩ : AuthResult) := rfl
  exact ⟨hread, only_encodings_accepted.1 .authResult _ _ (.inl rfl) hread⟩

end Protocol

end KdxHotline
