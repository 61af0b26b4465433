import KdxHotline.Protocol.Messages.Chat

/-!
# Administering a server, and the tracker

The payloads of bans, settings, history, address rules, the connection monitor and
the tracker directory.
-/

namespace KdxHotline

namespace Protocol

open Foundations Reader

/-! ### Bans -/

/-- Disconnect a user, and ban the account for a time. -/
structure AdminDisconnect where
  username : String
  reason : String
  banSecs : UInt32
  deriving DecidableEq

namespace AdminDisconnect

def encode (m : AdminDisconnect) : List UInt8 :=
  putStr m.username ++ putStr m.reason ++ putU32 m.banSecs

def decode : PayloadReader AdminDisconnect := do
  let username ← getStr "AdminDisconnect"
  let reason ← getStr "AdminDisconnect"
  needBytes 4 "AdminDisconnect"
  let banSecs ← getU32
  expectEnd "AdminDisconnect"
  return { username, reason, banSecs }

def clamp (m : AdminDisconnect) : AdminDisconnect :=
  { m with username := clampText m.username, reason := clampText m.reason }

def Fits (m : AdminDisconnect) : Prop := FitsText m.username ∧ FitsText m.reason

theorem clamp_eq_self {m : AdminDisconnect} : m.clamp = m ↔ m.Fits := by
  obtain ⟨username, reason, banSecs⟩ := m
  simp [clamp, Fits, clampText_eq_self]

theorem reads (b : List UInt8) (m : AdminDisconnect) (t : List UInt8) :
    Returns decode b m t ↔ m.clamp = m ∧ b = m.encode ∧ t = [] := by
  obtain ⟨username, reason, banSecs⟩ := m
  simp +arith [decode, encode, clamp, returns_bind, and_assoc]
  tauto

def payload : Payload AdminDisconnect :=
  .ofReads encode decode clamp Fits clamp_eq_self
    (by simp [encode, clamp]) (by simp [clamp]) reads (by simp [decode])

end AdminDisconnect

/-- Who is banned? -/
structure BanListRequest where
  deriving DecidableEq

def BanListRequest.payload : Payload BanListRequest :=
  (emptyPayload "BanListRequest").as (fun _ => ⟨⟩) (fun _ => ()) (fun _ => rfl)
    fun _ => rfl

/-- A ban in force. -/
structure BanEntry where
  username : String
  until_ : UInt64
  reason : String
  bannedBy : String
  bannedByClass : UInt8
  deriving DecidableEq

namespace BanEntry

def put (r : BanEntry) : List UInt8 :=
  putStr r.username ++ putU64 r.until_ ++ putStr r.reason ++ putStr r.bannedBy ++
    putU8 r.bannedByClass

def get (context : String) : PayloadReader BanEntry := do
  let username ← getStr context
  needBytes 8 context
  let until_ ← getU64
  let reason ← getStr context
  let bannedBy ← getStr context
  needBytes 1 context
  let bannedByClass ← getU8
  return { username, until_, reason, bannedBy, bannedByClass }

/-- The record as it is sent. -/
def clamp (r : BanEntry) : BanEntry :=
  { r with
    username := clampText r.username
    reason := clampText r.reason
    bannedBy := clampText r.bannedBy }

def Fits (r : BanEntry) : Prop := FitsText r.username ∧ FitsText r.reason ∧ FitsText r.bannedBy

theorem clamp_eq_self {r : BanEntry} : r.clamp = r ↔ r.Fits := by
  obtain ⟨username, until_, reason, bannedBy, bannedByClass⟩ := r
  simp [clamp, Fits, clampText_eq_self]

theorem put_clamp (r : BanEntry) : r.clamp.put = r.put := by
  simp [put, clamp]

theorem clamp_clamp (r : BanEntry) : r.clamp.clamp = r.clamp := by
  simp [clamp]

theorem returns_get {context : String} {b t : List UInt8} {r : BanEntry} :
    Returns (get context) b r t ↔ r.clamp = r ∧ b = r.put ++ t := by
  obtain ⟨username, until_, reason, bannedBy, bannedByClass⟩ := r
  simp +arith [get, put, clamp, returns_bind, and_assoc]
  tauto

theorem safe_get (context : String) : Safe 0 (get context) := by
  simp [get]

end BanEntry

/-- The bans, or the first of them, with how many there are. -/
structure BanListResponse where
  total : UInt32
  bans : List BanEntry
  deriving DecidableEq

namespace BanListResponse

def encode (m : BanListResponse) : List UInt8 := putU32 m.total ++ putList32 BanEntry.put m.bans

def decode : PayloadReader BanListResponse := do
  needBytes 8 "BanListResponse"
  let total ← getU32
  let bans ← getList32 (BanEntry.get "BanListResponse")
  expectEnd "BanListResponse"
  return { total, bans }

def clamp (m : BanListResponse) : BanListResponse :=
  { m with bans := clampList32 BanEntry.clamp m.bans }

def Fits (m : BanListResponse) : Prop := FitsList32 BanEntry.Fits m.bans

theorem clamp_eq_self {m : BanListResponse} : m.clamp = m ↔ m.Fits := by
  obtain ⟨total, bans⟩ := m
  simp [clamp, Fits, clampList32_eq_self BanEntry.clamp_eq_self]

theorem reads (b : List UInt8) (m : BanListResponse) (t : List UInt8) :
    Returns decode b m t ↔ m.clamp = m ∧ b = m.encode ∧ t = [] := by
  obtain ⟨total, bans⟩ := m
  simp +arith +contextual [decode, encode, clamp, returns_bind,
    returns_getList32 BanEntry.returns_get, and_assoc, and_comm, and_left_comm]

def payload : Payload BanListResponse :=
  .ofReads encode decode clamp Fits clamp_eq_self
    (by simp [encode, clamp, putList32_clampList32 BanEntry.put_clamp])
    (by simp [clamp, clampList32_clampList32 BanEntry.clamp_clamp]) reads
    (by simp [decode, safe_getList32_bind (BanEntry.safe_get _) BanEntry.returns_get])

end BanListResponse

/-- Whose ban to lift. -/
structure BanRemove where
  username : String
  deriving DecidableEq

def BanRemove.payload : Payload BanRemove :=
  (strPayload "BanRemove").as BanRemove.mk BanRemove.username
    (fun _ => rfl) fun _ => rfl

/-! ### Server settings -/

/-- What are the settings? -/
structure ServerSettingsRequest where
  deriving DecidableEq

def ServerSettingsRequest.payload : Payload ServerSettingsRequest :=
  (emptyPayload "ServerSettingsRequest").as (fun _ => ⟨⟩) (fun _ => ()) (fun _ => rfl)
    fun _ => rfl

/-- The settings. -/
structure ServerSettingsResponse where
  name : String
  description : String
  greeting : String
  maxUsers : UInt32
  port : UInt16
  maxUploadBytesPerSec : UInt64
  maxDownloadBytesPerSec : UInt64
  deriving DecidableEq

namespace ServerSettingsResponse

def encode (m : ServerSettingsResponse) : List UInt8 :=
  putStr m.name ++ putStr m.description ++ putStr m.greeting ++ putU32 m.maxUsers ++
    putU16 m.port ++ putU64 m.maxUploadBytesPerSec ++ putU64 m.maxDownloadBytesPerSec

def decode : PayloadReader ServerSettingsResponse := do
  let name ← getStr "ServerSettingsResponse"
  let description ← getStr "ServerSettingsResponse"
  let greeting ← getStr "ServerSettingsResponse"
  needBytes (4 + 2 + 8 + 8) "ServerSettingsResponse"
  let maxUsers ← getU32
  let port ← getU16
  let maxUploadBytesPerSec ← getU64
  let maxDownloadBytesPerSec ← getU64
  expectEnd "ServerSettingsResponse"
  return {
    name, description, greeting, maxUsers, port, maxUploadBytesPerSec, maxDownloadBytesPerSec }

def clamp (m : ServerSettingsResponse) : ServerSettingsResponse :=
  { m with
    name := clampText m.name
    description := clampText m.description
    greeting := clampText m.greeting }

def Fits (m : ServerSettingsResponse) : Prop :=
  FitsText m.name ∧ FitsText m.description ∧ FitsText m.greeting

theorem clamp_eq_self {m : ServerSettingsResponse} : m.clamp = m ↔ m.Fits := by
  obtain ⟨name, description, greeting, maxUsers, port, maxUploadBytesPerSec,
    maxDownloadBytesPerSec⟩ := m
  simp [clamp, Fits, clampText_eq_self]

theorem reads (b : List UInt8) (m : ServerSettingsResponse) (t : List UInt8) :
    Returns decode b m t ↔ m.clamp = m ∧ b = m.encode ∧ t = [] := by
  obtain ⟨name, description, greeting, maxUsers, port, maxUploadBytesPerSec,
    maxDownloadBytesPerSec⟩ := m
  simp +arith [decode, encode, clamp, returns_bind, and_assoc]
  tauto

def payload : Payload ServerSettingsResponse :=
  .ofReads encode decode clamp Fits clamp_eq_self
    (by simp [encode, clamp]) (by simp [clamp]) reads (by simp [decode])

end ServerSettingsResponse

/-- The settings as they shall be. -/
structure ServerSettingsUpdate where
  name : String
  description : String
  greeting : String
  maxUsers : UInt32
  deriving DecidableEq

namespace ServerSettingsUpdate

def encode (m : ServerSettingsUpdate) : List UInt8 :=
  putStr m.name ++ putStr m.description ++ putStr m.greeting ++ putU32 m.maxUsers

def decode : PayloadReader ServerSettingsUpdate := do
  let name ← getStr "ServerSettingsUpdate"
  let description ← getStr "ServerSettingsUpdate"
  let greeting ← getStr "ServerSettingsUpdate"
  needBytes 4 "ServerSettingsUpdate"
  let maxUsers ← getU32
  expectEnd "ServerSettingsUpdate"
  return { name, description, greeting, maxUsers }

def clamp (m : ServerSettingsUpdate) : ServerSettingsUpdate :=
  { m with
    name := clampText m.name
    description := clampText m.description
    greeting := clampText m.greeting }

def Fits (m : ServerSettingsUpdate) : Prop :=
  FitsText m.name ∧ FitsText m.description ∧ FitsText m.greeting

theorem clamp_eq_self {m : ServerSettingsUpdate} : m.clamp = m ↔ m.Fits := by
  obtain ⟨name, description, greeting, maxUsers⟩ := m
  simp [clamp, Fits, clampText_eq_self]

theorem reads (b : List UInt8) (m : ServerSettingsUpdate) (t : List UInt8) :
    Returns decode b m t ↔ m.clamp = m ∧ b = m.encode ∧ t = [] := by
  obtain ⟨name, description, greeting, maxUsers⟩ := m
  simp +arith [decode, encode, clamp, returns_bind, and_assoc]
  tauto

def payload : Payload ServerSettingsUpdate :=
  .ofReads encode decode clamp Fits clamp_eq_self
    (by simp [encode, clamp]) (by simp [clamp]) reads (by simp [decode])

end ServerSettingsUpdate

/-- A message for everyone. -/
structure AdminBroadcast where
  text : String
  deriving DecidableEq

def AdminBroadcast.payload : Payload AdminBroadcast :=
  (strPayload "AdminBroadcast").as AdminBroadcast.mk AdminBroadcast.text
    (fun _ => rfl) fun _ => rfl

/-- The message that everyone gets as the server shuts down. -/
structure AdminShutdown where
  message : String
  deriving DecidableEq

def AdminShutdown.payload : Payload AdminShutdown :=
  (strPayload "AdminShutdown").as AdminShutdown.mk AdminShutdown.message
    (fun _ => rfl) fun _ => rfl

/-! ### History -/

/-- The latest entries of the history, up to a limit. -/
structure HistoryListRequest where
  limit : UInt32
  deriving DecidableEq

namespace HistoryListRequest

def encode (m : HistoryListRequest) : List UInt8 := putU32 m.limit

def decode : PayloadReader HistoryListRequest := do
  needBytes 4 "HistoryListRequest"
  let limit ← getU32
  expectEnd "HistoryListRequest"
  return { limit }

def clamp (m : HistoryListRequest) : HistoryListRequest := m

def Fits (_ : HistoryListRequest) : Prop := True

theorem clamp_eq_self {m : HistoryListRequest} : m.clamp = m ↔ m.Fits := iff_true_intro rfl

theorem reads (b : List UInt8) (m : HistoryListRequest) (t : List UInt8) :
    Returns decode b m t ↔ m.clamp = m ∧ b = m.encode ∧ t = [] := by
  obtain ⟨limit⟩ := m
  simp +arith +contextual [decode, encode, clamp, returns_bind, and_assoc]

def payload : Payload HistoryListRequest :=
  .ofReads encode decode clamp Fits clamp_eq_self
    (by simp [encode, clamp]) (by simp [clamp]) reads (by simp [decode])

end HistoryListRequest

/-- An entry of the audit log. -/
structure HistoryEntry where
  timestamp : UInt64
  actor : String
  action : String
  detail : String
  deriving DecidableEq

namespace HistoryEntry

def put (r : HistoryEntry) : List UInt8 :=
  putU64 r.timestamp ++ putStr r.actor ++ putStr r.action ++ putStr r.detail

def get (context : String) : PayloadReader HistoryEntry := do
  needBytes 8 context
  let timestamp ← getU64
  let actor ← getStr context
  let action ← getStr context
  let detail ← getStr context
  return { timestamp, actor, action, detail }

/-- The record as it is sent. -/
def clamp (r : HistoryEntry) : HistoryEntry :=
  { r with
    actor := clampText r.actor
    action := clampText r.action
    detail := clampText r.detail }

def Fits (r : HistoryEntry) : Prop := FitsText r.actor ∧ FitsText r.action ∧ FitsText r.detail

theorem clamp_eq_self {r : HistoryEntry} : r.clamp = r ↔ r.Fits := by
  obtain ⟨timestamp, actor, action, detail⟩ := r
  simp [clamp, Fits, clampText_eq_self]

theorem put_clamp (r : HistoryEntry) : r.clamp.put = r.put := by
  simp [put, clamp]

theorem clamp_clamp (r : HistoryEntry) : r.clamp.clamp = r.clamp := by
  simp [clamp]

theorem returns_get {context : String} {b t : List UInt8} {r : HistoryEntry} :
    Returns (get context) b r t ↔ r.clamp = r ∧ b = r.put ++ t := by
  obtain ⟨timestamp, actor, action, detail⟩ := r
  simp +arith +contextual [get, put, clamp, returns_bind, and_assoc, and_comm, and_left_comm]

theorem safe_get (context : String) : Safe 0 (get context) := by
  simp [get]

end HistoryEntry

/-- The entries. -/
structure HistoryListResponse where
  entries : List HistoryEntry
  deriving DecidableEq

namespace HistoryListResponse

def encode (m : HistoryListResponse) : List UInt8 := putList32 HistoryEntry.put m.entries

def decode : PayloadReader HistoryListResponse := do
  needBytes 4 "HistoryListResponse"
  let entries ← getList32 (HistoryEntry.get "HistoryListResponse")
  expectEnd "HistoryListResponse"
  return { entries }

def clamp (m : HistoryListResponse) : HistoryListResponse :=
  { entries := clampList32 HistoryEntry.clamp m.entries }

def Fits (m : HistoryListResponse) : Prop := FitsList32 HistoryEntry.Fits m.entries

theorem clamp_eq_self {m : HistoryListResponse} : m.clamp = m ↔ m.Fits := by
  obtain ⟨entries⟩ := m
  simp [clamp, Fits, clampList32_eq_self HistoryEntry.clamp_eq_self]

theorem reads (b : List UInt8) (m : HistoryListResponse) (t : List UInt8) :
    Returns decode b m t ↔ m.clamp = m ∧ b = m.encode ∧ t = [] := by
  obtain ⟨entries⟩ := m
  simp +arith +contextual [decode, encode, clamp, returns_bind,
    returns_getList32 HistoryEntry.returns_get, and_assoc]

def payload : Payload HistoryListResponse :=
  .ofReads encode decode clamp Fits clamp_eq_self
    (by simp [encode, clamp, putList32_clampList32 HistoryEntry.put_clamp])
    (by simp [clamp, clampList32_clampList32 HistoryEntry.clamp_clamp]) reads
    (by simp [decode, safe_getList32_bind (HistoryEntry.safe_get _) HistoryEntry.returns_get])

end HistoryListResponse

/-! ### Address rules -/

/-- What rules are there? -/
structure IpRuleListRequest where
  deriving DecidableEq

def IpRuleListRequest.payload : Payload IpRuleListRequest :=
  (emptyPayload "IpRuleListRequest").as (fun _ => ⟨⟩) (fun _ => ()) (fun _ => rfl)
    fun _ => rfl

/-- A rule that allows or denies addresses. -/
structure IpRuleEntry where
  id : String
  position : Int32
  action : String
  cidr : String
  note : String
  createdBy : String
  createdAt : UInt64
  deriving DecidableEq

namespace IpRuleEntry

def put (r : IpRuleEntry) : List UInt8 :=
  putStr r.id ++ putI32 r.position ++ putStr r.action ++ putStr r.cidr ++ putStr r.note ++
    putStr r.createdBy ++ putU64 r.createdAt

def get (context : String) : PayloadReader IpRuleEntry := do
  let id ← getStr context
  needBytes 4 context
  let position ← getI32
  let action ← getStr context
  let cidr ← getStr context
  let note ← getStr context
  let createdBy ← getStr context
  needBytes 8 context
  let createdAt ← getU64
  return { id, position, action, cidr, note, createdBy, createdAt }

/-- The record as it is sent. -/
def clamp (r : IpRuleEntry) : IpRuleEntry :=
  { r with
    id := clampText r.id
    action := clampText r.action
    cidr := clampText r.cidr
    note := clampText r.note
    createdBy := clampText r.createdBy }

def Fits (r : IpRuleEntry) : Prop :=
  FitsText r.id ∧ FitsText r.action ∧ FitsText r.cidr ∧ FitsText r.note ∧ FitsText r.createdBy

theorem clamp_eq_self {r : IpRuleEntry} : r.clamp = r ↔ r.Fits := by
  obtain ⟨id, position, action, cidr, note, createdBy, createdAt⟩ := r
  simp [clamp, Fits, clampText_eq_self]

theorem put_clamp (r : IpRuleEntry) : r.clamp.put = r.put := by
  simp [put, clamp]

theorem clamp_clamp (r : IpRuleEntry) : r.clamp.clamp = r.clamp := by
  simp [clamp]

theorem returns_get {context : String} {b t : List UInt8} {r : IpRuleEntry} :
    Returns (get context) b r t ↔ r.clamp = r ∧ b = r.put ++ t := by
  obtain ⟨id, position, action, cidr, note, createdBy, createdAt⟩ := r
  simp +arith [get, put, clamp, returns_bind, and_assoc]
  tauto

theorem safe_get (context : String) : Safe 0 (get context) := by
  simp [get]

end IpRuleEntry

/-- The rules. -/
structure IpRuleListResponse where
  rules : List IpRuleEntry
  deriving DecidableEq

namespace IpRuleListResponse

def encode (m : IpRuleListResponse) : List UInt8 := putList32 IpRuleEntry.put m.rules

def decode : PayloadReader IpRuleListResponse := do
  needBytes 4 "IpRuleListResponse"
  let rules ← getList32 (IpRuleEntry.get "IpRuleListResponse")
  expectEnd "IpRuleListResponse"
  return { rules }

def clamp (m : IpRuleListResponse) : IpRuleListResponse :=
  { rules := clampList32 IpRuleEntry.clamp m.rules }

def Fits (m : IpRuleListResponse) : Prop := FitsList32 IpRuleEntry.Fits m.rules

theorem clamp_eq_self {m : IpRuleListResponse} : m.clamp = m ↔ m.Fits := by
  obtain ⟨rules⟩ := m
  simp [clamp, Fits, clampList32_eq_self IpRuleEntry.clamp_eq_self]

theorem reads (b : List UInt8) (m : IpRuleListResponse) (t : List UInt8) :
    Returns decode b m t ↔ m.clamp = m ∧ b = m.encode ∧ t = [] := by
  obtain ⟨rules⟩ := m
  simp +arith +contextual [decode, encode, clamp, returns_bind,
    returns_getList32 IpRuleEntry.returns_get, and_assoc]

def payload : Payload IpRuleListResponse :=
  .ofReads encode decode clamp Fits clamp_eq_self
    (by simp [encode, clamp, putList32_clampList32 IpRuleEntry.put_clamp])
    (by simp [clamp, clampList32_clampList32 IpRuleEntry.clamp_clamp]) reads
    (by simp [decode, safe_getList32_bind (IpRuleEntry.safe_get _) IpRuleEntry.returns_get])

end IpRuleListResponse

/-- A new rule. -/
structure IpRuleCreate where
  position : Int32
  action : String
  cidr : String
  note : String
  deriving DecidableEq

namespace IpRuleCreate

def encode (m : IpRuleCreate) : List UInt8 :=
  putI32 m.position ++ putStr m.action ++ putStr m.cidr ++ putStr m.note

def decode : PayloadReader IpRuleCreate := do
  needBytes 4 "IpRuleCreate"
  let position ← getI32
  let action ← getStr "IpRuleCreate"
  let cidr ← getStr "IpRuleCreate"
  let note ← getStr "IpRuleCreate"
  expectEnd "IpRuleCreate"
  return { position, action, cidr, note }

def clamp (m : IpRuleCreate) : IpRuleCreate :=
  { m with action := clampText m.action, cidr := clampText m.cidr, note := clampText m.note }

def Fits (m : IpRuleCreate) : Prop := FitsText m.action ∧ FitsText m.cidr ∧ FitsText m.note

theorem clamp_eq_self {m : IpRuleCreate} : m.clamp = m ↔ m.Fits := by
  obtain ⟨position, action, cidr, note⟩ := m
  simp [clamp, Fits, clampText_eq_self]

theorem reads (b : List UInt8) (m : IpRuleCreate) (t : List UInt8) :
    Returns decode b m t ↔ m.clamp = m ∧ b = m.encode ∧ t = [] := by
  obtain ⟨position, action, cidr, note⟩ := m
  simp +arith +contextual [decode, encode, clamp, returns_bind, and_assoc, and_comm,
    and_left_comm]

def payload : Payload IpRuleCreate :=
  .ofReads encode decode clamp Fits clamp_eq_self
    (by simp [encode, clamp]) (by simp [clamp]) reads (by simp [decode])

end IpRuleCreate

/-- The rule to delete. -/
structure IpRuleDelete where
  id : String
  deriving DecidableEq

def IpRuleDelete.payload : Payload IpRuleDelete :=
  (strPayload "IpRuleDelete").as IpRuleDelete.mk IpRuleDelete.id
    (fun _ => rfl) fun _ => rfl

/-! ### Connections -/

/-- Who is connected? -/
structure ConnectionListRequest where
  deriving DecidableEq

def ConnectionListRequest.payload : Payload ConnectionListRequest :=
  (emptyPayload "ConnectionListRequest").as (fun _ => ⟨⟩) (fun _ => ()) (fun _ => rfl)
    fun _ => rfl

/-- The connections, each as the roster shows it. -/
structure ConnectionListResponse where
  connections : List PresenceEntry
  deriving DecidableEq

namespace ConnectionListResponse

def encode (m : ConnectionListResponse) : List UInt8 := putList16 PresenceEntry.put m.connections

def decode : PayloadReader ConnectionListResponse := do
  needBytes 2 "ConnectionListResponse"
  let connections ← getList16 (PresenceEntry.get "ConnectionListResponse")
  expectEnd "ConnectionListResponse"
  return { connections }

def clamp (m : ConnectionListResponse) : ConnectionListResponse :=
  { connections := clampList16 PresenceEntry.clamp m.connections }

def Fits (m : ConnectionListResponse) : Prop := FitsList16 PresenceEntry.Fits m.connections

theorem clamp_eq_self {m : ConnectionListResponse} : m.clamp = m ↔ m.Fits := by
  obtain ⟨connections⟩ := m
  simp [clamp, Fits, clampList16_eq_self PresenceEntry.clamp_eq_self]

theorem reads (b : List UInt8) (m : ConnectionListResponse) (t : List UInt8) :
    Returns decode b m t ↔ m.clamp = m ∧ b = m.encode ∧ t = [] := by
  obtain ⟨connections⟩ := m
  simp +arith +contextual [decode, encode, clamp, returns_bind,
    returns_getList16 PresenceEntry.returns_get, and_assoc]

def payload : Payload ConnectionListResponse :=
  .ofReads encode decode clamp Fits clamp_eq_self
    (by simp [encode, clamp, putList16_clampList16 PresenceEntry.put_clamp])
    (by simp [clamp, clampList16_clampList16 PresenceEntry.clamp_clamp]) reads
    (by simp [decode, safe_getList16_bind (PresenceEntry.safe_get _) PresenceEntry.returns_get])

end ConnectionListResponse

/-! ### The tracker -/

/-- A server of the tracker directory. -/
structure TrackerServer where
  name : String
  host : String
  port : UInt16
  users : UInt32
  maxUsers : UInt32
  description : String
  deriving DecidableEq

namespace TrackerServer

def put (r : TrackerServer) : List UInt8 :=
  putStr r.name ++ putStr r.host ++ putU16 r.port ++ putU32 r.users ++ putU32 r.maxUsers ++
    putStr r.description

def get (context : String) : PayloadReader TrackerServer := do
  let name ← getStr context
  let host ← getStr context
  needBytes (2 + 4 + 4) context
  let port ← getU16
  let users ← getU32
  let maxUsers ← getU32
  let description ← getStr context
  return { name, host, port, users, maxUsers, description }

/-- The record as it is sent. -/
def clamp (r : TrackerServer) : TrackerServer :=
  { r with
    name := clampText r.name
    host := clampText r.host
    description := clampText r.description }

def Fits (r : TrackerServer) : Prop := FitsText r.name ∧ FitsText r.host ∧ FitsText r.description

theorem clamp_eq_self {r : TrackerServer} : r.clamp = r ↔ r.Fits := by
  obtain ⟨name, host, port, users, maxUsers, description⟩ := r
  simp [clamp, Fits, clampText_eq_self]

theorem put_clamp (r : TrackerServer) : r.clamp.put = r.put := by
  simp [put, clamp]

theorem clamp_clamp (r : TrackerServer) : r.clamp.clamp = r.clamp := by
  simp [clamp]

theorem returns_get {context : String} {b t : List UInt8} {r : TrackerServer} :
    Returns (get context) b r t ↔ r.clamp = r ∧ b = r.put ++ t := by
  obtain ⟨name, host, port, users, maxUsers, description⟩ := r
  simp +arith [get, put, clamp, returns_bind, and_assoc]
  tauto

theorem safe_get (context : String) : Safe 0 (get context) := by
  simp [get]

end TrackerServer

/-- What servers does a tracker know? -/
structure TrackerListRequest where
  filter : String
  deriving DecidableEq

def TrackerListRequest.payload : Payload TrackerListRequest :=
  (strPayload "TrackerListRequest").as TrackerListRequest.mk TrackerListRequest.filter
    (fun _ => rfl) fun _ => rfl

/-- The servers. -/
structure TrackerListResponse where
  servers : List TrackerServer
  deriving DecidableEq

namespace TrackerListResponse

def encode (m : TrackerListResponse) : List UInt8 := putList32 TrackerServer.put m.servers

def decode : PayloadReader TrackerListResponse := do
  needBytes 4 "TrackerListResponse"
  let servers ← getList32 (TrackerServer.get "TrackerListResponse")
  expectEnd "TrackerListResponse"
  return { servers }

def clamp (m : TrackerListResponse) : TrackerListResponse :=
  { servers := clampList32 TrackerServer.clamp m.servers }

def Fits (m : TrackerListResponse) : Prop := FitsList32 TrackerServer.Fits m.servers

theorem clamp_eq_self {m : TrackerListResponse} : m.clamp = m ↔ m.Fits := by
  obtain ⟨servers⟩ := m
  simp [clamp, Fits, clampList32_eq_self TrackerServer.clamp_eq_self]

theorem reads (b : List UInt8) (m : TrackerListResponse) (t : List UInt8) :
    Returns decode b m t ↔ m.clamp = m ∧ b = m.encode ∧ t = [] := by
  obtain ⟨servers⟩ := m
  simp +arith +contextual [decode, encode, clamp, returns_bind,
    returns_getList32 TrackerServer.returns_get, and_assoc]

def payload : Payload TrackerListResponse :=
  .ofReads encode decode clamp Fits clamp_eq_self
    (by simp [encode, clamp, putList32_clampList32 TrackerServer.put_clamp])
    (by simp [clamp, clampList32_clampList32 TrackerServer.clamp_clamp]) reads
    (by simp [decode, safe_getList32_bind (TrackerServer.safe_get _) TrackerServer.returns_get])

end TrackerListResponse

end Protocol

end KdxHotline
