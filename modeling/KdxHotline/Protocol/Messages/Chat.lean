import KdxHotline.Protocol.Messages.Wire

/-!
# Chat, presence and private messages

The payloads of the rooms, of the roster and of private messages.
-/

namespace KdxHotline

namespace Protocol

open Foundations Reader

/-! ### Chat -/

/-- A message for a room. -/
structure ChatSend where
  room : String
  flags : UInt8
  text : String
  deriving DecidableEq

namespace ChatSend

def encode (m : ChatSend) : List UInt8 := putStr m.room ++ putU8 m.flags ++ putStr m.text

def decode : PayloadReader ChatSend := do
  let room ← getStr "ChatSend"
  needBytes 1 "ChatSend"
  let flags ← getU8
  let text ← getStr "ChatSend"
  expectEnd "ChatSend"
  return { room, flags, text }

def clamp (m : ChatSend) : ChatSend :=
  { m with room := clampText m.room, text := clampText m.text }

def Fits (m : ChatSend) : Prop := FitsText m.room ∧ FitsText m.text

theorem clamp_eq_self {m : ChatSend} : m.clamp = m ↔ m.Fits := by
  obtain ⟨room, flags, text⟩ := m
  simp [clamp, Fits, clampText_eq_self]

theorem reads (b : List UInt8) (m : ChatSend) (t : List UInt8) :
    Returns decode b m t ↔ m.clamp = m ∧ b = m.encode ∧ t = [] := by
  obtain ⟨room, flags, text⟩ := m
  simp +arith [decode, encode, clamp, returns_bind, and_assoc]
  tauto

def payload : Payload ChatSend :=
  .ofReads encode decode clamp Fits clamp_eq_self
    (by simp [encode, clamp]) (by simp [clamp]) reads (by simp [decode])

end ChatSend

/-- A message delivered to the members of a room. -/
structure ChatEvent where
  room : String
  sender : String
  timestamp : UInt64
  flags : UInt8
  text : String
  deriving DecidableEq

namespace ChatEvent

def encode (m : ChatEvent) : List UInt8 :=
  putStr m.room ++ putStr m.sender ++ putU64 m.timestamp ++ putU8 m.flags ++ putStr m.text

def decode : PayloadReader ChatEvent := do
  let room ← getStr "ChatEvent"
  let sender ← getStr "ChatEvent"
  needBytes 9 "ChatEvent"
  let timestamp ← getU64
  let flags ← getU8
  let text ← getStr "ChatEvent"
  expectEnd "ChatEvent"
  return { room, sender, timestamp, flags, text }

def clamp (m : ChatEvent) : ChatEvent :=
  { m with room := clampText m.room, sender := clampText m.sender, text := clampText m.text }

def Fits (m : ChatEvent) : Prop := FitsText m.room ∧ FitsText m.sender ∧ FitsText m.text

theorem clamp_eq_self {m : ChatEvent} : m.clamp = m ↔ m.Fits := by
  obtain ⟨room, sender, timestamp, flags, text⟩ := m
  simp [clamp, Fits, clampText_eq_self]

theorem reads (b : List UInt8) (m : ChatEvent) (t : List UInt8) :
    Returns decode b m t ↔ m.clamp = m ∧ b = m.encode ∧ t = [] := by
  obtain ⟨room, sender, timestamp, flags, text⟩ := m
  simp +arith [decode, encode, clamp, returns_bind, and_assoc]
  tauto

def payload : Payload ChatEvent :=
  .ofReads encode decode clamp Fits clamp_eq_self
    (by simp [encode, clamp]) (by simp [clamp]) reads (by simp [decode])

end ChatEvent

/-- The room to join. -/
structure ChatJoin where
  room : String
  deriving DecidableEq

def ChatJoin.payload : Payload ChatJoin :=
  (strPayload "ChatJoin").as ChatJoin.mk ChatJoin.room
    (fun _ => rfl) fun _ => rfl

/-- The room to leave. -/
structure ChatLeave where
  room : String
  deriving DecidableEq

def ChatLeave.payload : Payload ChatLeave :=
  (strPayload "ChatLeave").as ChatLeave.mk ChatLeave.room
    (fun _ => rfl) fun _ => rfl

/-- The members of a room. -/
structure ChatUserList where
  room : String
  users : List String
  deriving DecidableEq

namespace ChatUserList

def encode (m : ChatUserList) : List UInt8 := putStr m.room ++ putList16 putStr m.users

def decode : PayloadReader ChatUserList := do
  let room ← getStr "ChatUserList"
  needBytes 2 "ChatUserList"
  let users ← getList16 (getStr "ChatUserList")
  expectEnd "ChatUserList"
  return { room, users }

def clamp (m : ChatUserList) : ChatUserList :=
  { room := clampText m.room, users := clampList16 clampText m.users }

def Fits (m : ChatUserList) : Prop := FitsText m.room ∧ FitsList16 FitsText m.users

theorem clamp_eq_self {m : ChatUserList} : m.clamp = m ↔ m.Fits := by
  obtain ⟨room, users⟩ := m
  simp [clamp, Fits, clampText_eq_self, clampList16_eq_self clampText_eq_self]

theorem reads (b : List UInt8) (m : ChatUserList) (t : List UInt8) :
    Returns decode b m t ↔ m.clamp = m ∧ b = m.encode ∧ t = [] := by
  obtain ⟨room, users⟩ := m
  simp +arith [decode, encode, clamp, returns_bind, returns_getList16 returns_getStr, and_assoc]
  tauto

def payload : Payload ChatUserList :=
  .ofReads encode decode clamp Fits clamp_eq_self
    (by simp [encode, clamp, putList16_clampList16 putStr_clampText])
    (by simp [clamp, clampList16_clampList16 clampText_clampText]) reads
    (by simp [decode, safe_getList16_bind (safe_getStr 0 _) returns_getStr])

end ChatUserList

/-- A room topic, set or announced. -/
structure ChatTopic where
  room : String
  topic : String
  deriving DecidableEq

def ChatTopic.payload : Payload ChatTopic :=
  (strPairPayload "ChatTopic").as (fun p => ⟨p.1, p.2⟩) (fun m => (m.room, m.topic))
    (fun _ => rfl) fun _ => rfl

/-- An invitation into a fresh private chat. -/
structure ChatInvite where
  to_ : String
  deriving DecidableEq

def ChatInvite.payload : Payload ChatInvite :=
  (strPayload "ChatInvite").as ChatInvite.mk ChatInvite.to_
    (fun _ => rfl) fun _ => rfl

/-- An invitation, as the invited one hears of it. -/
structure ChatInvited where
  from_ : String
  room : String
  deriving DecidableEq

def ChatInvited.payload : Payload ChatInvited :=
  (strPairPayload "ChatInvited").as (fun p => ⟨p.1, p.2⟩) (fun m => (m.from_, m.room))
    (fun _ => rfl) fun _ => rfl

/-- The flags of a room that its moderators may change. -/
structure ChatRoomFlags where
  room : String
  minClassJoin : UInt8
  interviewMode : Bool
  deriving DecidableEq

namespace ChatRoomFlags

def encode (m : ChatRoomFlags) : List UInt8 :=
  putStr m.room ++ putU8 m.minClassJoin ++ putBool m.interviewMode

def decode : PayloadReader ChatRoomFlags := do
  let room ← getStr "ChatRoomFlags"
  needBytes 1 "ChatRoomFlags"
  let minClassJoin ← getU8
  let interviewMode ← getBool "ChatRoomFlags"
  expectEnd "ChatRoomFlags"
  return { room, minClassJoin, interviewMode }

def clamp (m : ChatRoomFlags) : ChatRoomFlags :=
  { m with room := clampText m.room }

def Fits (m : ChatRoomFlags) : Prop := FitsText m.room

theorem clamp_eq_self {m : ChatRoomFlags} : m.clamp = m ↔ m.Fits := by
  obtain ⟨room, minClassJoin, interviewMode⟩ := m
  simp [clamp, Fits, clampText_eq_self]

theorem reads (b : List UInt8) (m : ChatRoomFlags) (t : List UInt8) :
    Returns decode b m t ↔ m.clamp = m ∧ b = m.encode ∧ t = [] := by
  obtain ⟨room, minClassJoin, interviewMode⟩ := m
  simp +arith [decode, encode, clamp, returns_bind, and_assoc, and_comm, and_left_comm]

def payload : Payload ChatRoomFlags :=
  .ofReads encode decode clamp Fits clamp_eq_self
    (by simp [encode, clamp]) (by simp [clamp]) reads (by simp [decode])

end ChatRoomFlags

/-! ### Presence -/

/-- One user's presence, as the roster shows it. -/
structure PresenceEntry where
  username : String
  class_ : UInt8
  loginAt : UInt64
  idleSecs : UInt32
  address : String
  name : String
  description : String
  deriving DecidableEq

namespace PresenceEntry

def put (r : PresenceEntry) : List UInt8 :=
  putStr r.username ++ putU8 r.class_ ++ putU64 r.loginAt ++ putU32 r.idleSecs ++
    putStr r.address ++ putStr r.name ++ putStr r.description

def get (context : String) : PayloadReader PresenceEntry := do
  let username ← getStr context
  needBytes 13 context
  let class_ ← getU8
  let loginAt ← getU64
  let idleSecs ← getU32
  let address ← getStr context
  let name ← getStr context
  let description ← getStr context
  return { username, class_, loginAt, idleSecs, address, name, description }

/-- The record as it is sent. -/
def clamp (r : PresenceEntry) : PresenceEntry :=
  { r with
    username := clampText r.username
    address := clampText r.address
    name := clampText r.name
    description := clampText r.description }

def Fits (r : PresenceEntry) : Prop :=
  FitsText r.username ∧ FitsText r.address ∧ FitsText r.name ∧ FitsText r.description

theorem clamp_eq_self {r : PresenceEntry} : r.clamp = r ↔ r.Fits := by
  obtain ⟨username, class_, loginAt, idleSecs, address, name, description⟩ := r
  simp [clamp, Fits, clampText_eq_self]

theorem put_clamp (r : PresenceEntry) : r.clamp.put = r.put := by
  simp [put, clamp]

theorem clamp_clamp (r : PresenceEntry) : r.clamp.clamp = r.clamp := by
  simp [clamp]

theorem returns_get {context : String} {b t : List UInt8} {r : PresenceEntry} :
    Returns (get context) b r t ↔ r.clamp = r ∧ b = r.put ++ t := by
  obtain ⟨username, class_, loginAt, idleSecs, address, name, description⟩ := r
  simp +arith [get, put, clamp, returns_bind, and_assoc]
  tauto

theorem safe_get (context : String) : Safe 0 (get context) := by
  simp [get]

end PresenceEntry

/-- Who is here? -/
structure PresenceListRequest where
  deriving DecidableEq

def PresenceListRequest.payload : Payload PresenceListRequest :=
  (emptyPayload "PresenceListRequest").as (fun _ => ⟨⟩) (fun _ => ()) (fun _ => rfl)
    fun _ => rfl

/-- Everyone who is here. -/
structure PresenceListResponse where
  users : List PresenceEntry
  deriving DecidableEq

namespace PresenceListResponse

def encode (m : PresenceListResponse) : List UInt8 := putList16 PresenceEntry.put m.users

def decode : PayloadReader PresenceListResponse := do
  needBytes 2 "PresenceListResponse"
  let users ← getList16 (PresenceEntry.get "PresenceEntry")
  expectEnd "PresenceListResponse"
  return { users }

def clamp (m : PresenceListResponse) : PresenceListResponse :=
  { users := clampList16 PresenceEntry.clamp m.users }

def Fits (m : PresenceListResponse) : Prop := FitsList16 PresenceEntry.Fits m.users

theorem clamp_eq_self {m : PresenceListResponse} : m.clamp = m ↔ m.Fits := by
  obtain ⟨users⟩ := m
  simp [clamp, Fits, clampList16_eq_self PresenceEntry.clamp_eq_self]

theorem reads (b : List UInt8) (m : PresenceListResponse) (t : List UInt8) :
    Returns decode b m t ↔ m.clamp = m ∧ b = m.encode ∧ t = [] := by
  obtain ⟨users⟩ := m
  simp +arith +contextual [decode, encode, clamp, returns_bind,
    returns_getList16 PresenceEntry.returns_get, and_assoc]

def payload : Payload PresenceListResponse :=
  .ofReads encode decode clamp Fits clamp_eq_self
    (by simp [encode, clamp, putList16_clampList16 PresenceEntry.put_clamp])
    (by simp [clamp, clampList16_clampList16 PresenceEntry.clamp_clamp]) reads
    (by simp [decode, safe_getList16_bind (PresenceEntry.safe_get _) PresenceEntry.returns_get])

end PresenceListResponse

/-- A user came online or went offline. -/
structure PresenceChange where
  entry : PresenceEntry
  online : Bool
  deriving DecidableEq

namespace PresenceChange

def encode (m : PresenceChange) : List UInt8 := putBool m.online ++ m.entry.put

def decode : PayloadReader PresenceChange := do
  let online ← getBool "PresenceChange"
  let entry ← PresenceEntry.get "PresenceEntry"
  expectEnd "PresenceChange"
  return { entry, online }

def clamp (m : PresenceChange) : PresenceChange :=
  { m with entry := m.entry.clamp }

def Fits (m : PresenceChange) : Prop := m.entry.Fits

theorem clamp_eq_self {m : PresenceChange} : m.clamp = m ↔ m.Fits := by
  obtain ⟨entry, online⟩ := m
  simp [clamp, Fits, PresenceEntry.clamp_eq_self]

theorem reads (b : List UInt8) (m : PresenceChange) (t : List UInt8) :
    Returns decode b m t ↔ m.clamp = m ∧ b = m.encode ∧ t = [] := by
  obtain ⟨entry, online⟩ := m
  simp [decode, encode, clamp, returns_bind, PresenceEntry.returns_get, and_assoc, and_comm,
    and_left_comm]

def payload : Payload PresenceChange :=
  .ofReads encode decode clamp Fits clamp_eq_self
    (by simp [encode, clamp, PresenceEntry.put_clamp])
    (by simp [clamp, PresenceEntry.clamp_clamp]) reads
    (by simp [decode, safe_bind_record (PresenceEntry.safe_get _) PresenceEntry.returns_get])

end PresenceChange

/-- The name and the description one wants to be shown with. -/
structure SetIdentity where
  name : String
  description : String
  deriving DecidableEq

def SetIdentity.payload : Payload SetIdentity :=
  (strPairPayload "SetIdentity").as (fun p => ⟨p.1, p.2⟩) (fun m => (m.name, m.description))
    (fun _ => rfl) fun _ => rfl

/-- Who is this user? -/
structure UserInfoRequest where
  username : String
  deriving DecidableEq

def UserInfoRequest.payload : Payload UserInfoRequest :=
  (strPayload "UserInfoRequest").as UserInfoRequest.mk UserInfoRequest.username
    (fun _ => rfl) fun _ => rfl

/-- What is shown of the user. -/
structure UserInfoResponse where
  entry : PresenceEntry
  deriving DecidableEq

namespace UserInfoResponse

def encode (m : UserInfoResponse) : List UInt8 := m.entry.put

def decode : PayloadReader UserInfoResponse := do
  let entry ← PresenceEntry.get "PresenceEntry"
  expectEnd "UserInfoResponse"
  return { entry }

def clamp (m : UserInfoResponse) : UserInfoResponse :=
  { entry := m.entry.clamp }

def Fits (m : UserInfoResponse) : Prop := m.entry.Fits

theorem clamp_eq_self {m : UserInfoResponse} : m.clamp = m ↔ m.Fits := by
  obtain ⟨entry⟩ := m
  simp [clamp, Fits, PresenceEntry.clamp_eq_self]

theorem reads (b : List UInt8) (m : UserInfoResponse) (t : List UInt8) :
    Returns decode b m t ↔ m.clamp = m ∧ b = m.encode ∧ t = [] := by
  obtain ⟨entry⟩ := m
  simp [decode, encode, clamp, returns_bind, PresenceEntry.returns_get, and_assoc]

def payload : Payload UserInfoResponse :=
  .ofReads encode decode clamp Fits clamp_eq_self
    (by simp [encode, clamp, PresenceEntry.put_clamp])
    (by simp [clamp, PresenceEntry.clamp_clamp]) reads
    (by simp [decode, safe_bind_record (PresenceEntry.safe_get _) PresenceEntry.returns_get])

end UserInfoResponse

/-! ### Private messages -/

/-- A message for one user. -/
structure PrivateSend where
  to_ : String
  text : String
  deriving DecidableEq

def PrivateSend.payload : Payload PrivateSend :=
  (strPairPayload "PrivateSend").as (fun p => ⟨p.1, p.2⟩) (fun m => (m.to_, m.text))
    (fun _ => rfl) fun _ => rfl

/-- A message to one user, as it arrives. -/
structure PrivateMessage where
  from_ : String
  to_ : String
  timestamp : UInt64
  text : String
  deriving DecidableEq

namespace PrivateMessage

def encode (m : PrivateMessage) : List UInt8 :=
  putStr m.from_ ++ putStr m.to_ ++ putU64 m.timestamp ++ putStr m.text

def decode : PayloadReader PrivateMessage := do
  let from_ ← getStr "PrivateMessage"
  let to_ ← getStr "PrivateMessage"
  needBytes 8 "PrivateMessage"
  let timestamp ← getU64
  let text ← getStr "PrivateMessage"
  expectEnd "PrivateMessage"
  return { from_, to_, timestamp, text }

def clamp (m : PrivateMessage) : PrivateMessage :=
  { m with from_ := clampText m.from_, to_ := clampText m.to_, text := clampText m.text }

def Fits (m : PrivateMessage) : Prop := FitsText m.from_ ∧ FitsText m.to_ ∧ FitsText m.text

theorem clamp_eq_self {m : PrivateMessage} : m.clamp = m ↔ m.Fits := by
  obtain ⟨from_, to_, timestamp, text⟩ := m
  simp [clamp, Fits, clampText_eq_self]

theorem reads (b : List UInt8) (m : PrivateMessage) (t : List UInt8) :
    Returns decode b m t ↔ m.clamp = m ∧ b = m.encode ∧ t = [] := by
  obtain ⟨from_, to_, timestamp, text⟩ := m
  simp +arith [decode, encode, clamp, returns_bind, and_assoc]
  tauto

def payload : Payload PrivateMessage :=
  .ofReads encode decode clamp Fits clamp_eq_self
    (by simp [encode, clamp]) (by simp [clamp]) reads (by simp [decode])

end PrivateMessage

end Protocol

end KdxHotline
