import KdxHotline.Protocol.Messages.Wire

/-!
# News

The payloads of newsgroups and of the posts in them.
-/

namespace KdxHotline

namespace Protocol

open Foundations Reader

/-- A newsgroup, and the classes that may read it and post in it. -/
structure NewsgroupInfo where
  id : Vector UInt8 16
  name : String
  description : String
  minReadClass : UInt8
  minPostClass : UInt8
  deriving DecidableEq

namespace NewsgroupInfo

def put (r : NewsgroupInfo) : List UInt8 :=
  putArray r.id ++ putStr r.name ++ putStr r.description ++ putU8 r.minReadClass ++
    putU8 r.minPostClass

def get (context : String) : PayloadReader NewsgroupInfo := do
  let id ← getId context
  let name ← getStr context
  let description ← getStr context
  needBytes 2 context
  let minReadClass ← getU8
  let minPostClass ← getU8
  return { id, name, description, minReadClass, minPostClass }

/-- The record as it is sent. -/
def clamp (r : NewsgroupInfo) : NewsgroupInfo :=
  { r with name := clampText r.name, description := clampText r.description }

def Fits (r : NewsgroupInfo) : Prop := FitsText r.name ∧ FitsText r.description

theorem clamp_eq_self {r : NewsgroupInfo} : r.clamp = r ↔ r.Fits := by
  obtain ⟨id, name, description, minReadClass, minPostClass⟩ := r
  simp [clamp, Fits, clampText_eq_self]

theorem put_clamp (r : NewsgroupInfo) : r.clamp.put = r.put := by
  simp [put, clamp]

theorem clamp_clamp (r : NewsgroupInfo) : r.clamp.clamp = r.clamp := by
  simp [clamp]

theorem returns_get {context : String} {b t : List UInt8} {r : NewsgroupInfo} :
    Returns (get context) b r t ↔ r.clamp = r ∧ b = r.put ++ t := by
  obtain ⟨id, name, description, minReadClass, minPostClass⟩ := r
  simp +arith [get, put, clamp, returns_bind, and_assoc]
  tauto

theorem safe_get (context : String) : Safe 0 (get context) := by
  simp [get]

end NewsgroupInfo

/-- A post in a thread. -/
structure NewsPost where
  id : Vector UInt8 16
  newsgroupId : Vector UInt8 16
  parentId : Vector UInt8 16
  author : String
  subject : String
  body : String
  timestamp : UInt64
  deriving DecidableEq

namespace NewsPost

def put (r : NewsPost) : List UInt8 :=
  putArray r.id ++ putArray r.newsgroupId ++ putArray r.parentId ++ putStr r.author ++
    putStr r.subject ++ putStr r.body ++ putU64 r.timestamp

def get (context : String) : PayloadReader NewsPost := do
  let id ← getId context
  let newsgroupId ← getId context
  let parentId ← getId context
  let author ← getStr context
  let subject ← getStr context
  let body ← getStr context
  needBytes 8 context
  let timestamp ← getU64
  return { id, newsgroupId, parentId, author, subject, body, timestamp }

/-- The record as it is sent. -/
def clamp (r : NewsPost) : NewsPost :=
  { r with
    author := clampText r.author
    subject := clampText r.subject
    body := clampText r.body }

def Fits (r : NewsPost) : Prop := FitsText r.author ∧ FitsText r.subject ∧ FitsText r.body

theorem clamp_eq_self {r : NewsPost} : r.clamp = r ↔ r.Fits := by
  obtain ⟨id, newsgroupId, parentId, author, subject, body, timestamp⟩ := r
  simp [clamp, Fits, clampText_eq_self]

theorem put_clamp (r : NewsPost) : r.clamp.put = r.put := by
  simp [put, clamp]

theorem clamp_clamp (r : NewsPost) : r.clamp.clamp = r.clamp := by
  simp [clamp]

theorem returns_get {context : String} {b t : List UInt8} {r : NewsPost} :
    Returns (get context) b r t ↔ r.clamp = r ∧ b = r.put ++ t := by
  obtain ⟨id, newsgroupId, parentId, author, subject, body, timestamp⟩ := r
  simp +arith [get, put, clamp, returns_bind, and_assoc]
  tauto

theorem safe_get (context : String) : Safe 0 (get context) := by
  simp [get]

end NewsPost

/-- What newsgroups are there? -/
structure NewsgroupListRequest where
  deriving DecidableEq

def NewsgroupListRequest.payload : Payload NewsgroupListRequest :=
  (emptyPayload "NewsgroupListRequest").as (fun _ => ⟨⟩) (fun _ => ()) (fun _ => rfl)
    fun _ => rfl

/-- The newsgroups. -/
structure NewsgroupListResponse where
  groups : List NewsgroupInfo
  deriving DecidableEq

namespace NewsgroupListResponse

def encode (m : NewsgroupListResponse) : List UInt8 := putList32 NewsgroupInfo.put m.groups

def decode : PayloadReader NewsgroupListResponse := do
  needBytes 4 "NewsgroupListResponse"
  let groups ← getList32 (NewsgroupInfo.get "NewsgroupListResponse")
  expectEnd "NewsgroupListResponse"
  return { groups }

def clamp (m : NewsgroupListResponse) : NewsgroupListResponse :=
  { groups := clampList32 NewsgroupInfo.clamp m.groups }

def Fits (m : NewsgroupListResponse) : Prop := FitsList32 NewsgroupInfo.Fits m.groups

theorem clamp_eq_self {m : NewsgroupListResponse} : m.clamp = m ↔ m.Fits := by
  obtain ⟨groups⟩ := m
  simp [clamp, Fits, clampList32_eq_self NewsgroupInfo.clamp_eq_self]

theorem reads (b : List UInt8) (m : NewsgroupListResponse) (t : List UInt8) :
    Returns decode b m t ↔ m.clamp = m ∧ b = m.encode ∧ t = [] := by
  obtain ⟨groups⟩ := m
  simp +arith +contextual [decode, encode, clamp, returns_bind,
    returns_getList32 NewsgroupInfo.returns_get, and_assoc]

def payload : Payload NewsgroupListResponse :=
  .ofReads encode decode clamp Fits clamp_eq_self
    (by simp [encode, clamp, putList32_clampList32 NewsgroupInfo.put_clamp])
    (by simp [clamp, clampList32_clampList32 NewsgroupInfo.clamp_clamp]) reads
    (by simp [decode, safe_getList32_bind (NewsgroupInfo.safe_get _) NewsgroupInfo.returns_get])

end NewsgroupListResponse

/-- What was posted to a newsgroup? -/
structure NewsThreadListRequest where
  newsgroupId : Vector UInt8 16
  deriving DecidableEq

def NewsThreadListRequest.payload : Payload NewsThreadListRequest :=
  (idPayload "NewsThreadListRequest").as NewsThreadListRequest.mk NewsThreadListRequest.newsgroupId (fun _ => rfl)
    fun _ => rfl

/-- The posts of a newsgroup. -/
structure NewsThreadListResponse where
  newsgroupId : Vector UInt8 16
  posts : List NewsPost
  deriving DecidableEq

namespace NewsThreadListResponse

def encode (m : NewsThreadListResponse) : List UInt8 :=
  putArray m.newsgroupId ++ putList32 NewsPost.put m.posts

def decode : PayloadReader NewsThreadListResponse := do
  let newsgroupId ← getId "NewsThreadListResponse"
  needBytes 4 "NewsThreadListResponse"
  let posts ← getList32 (NewsPost.get "NewsPost")
  expectEnd "NewsThreadListResponse"
  return { newsgroupId, posts }

def clamp (m : NewsThreadListResponse) : NewsThreadListResponse :=
  { m with posts := clampList32 NewsPost.clamp m.posts }

def Fits (m : NewsThreadListResponse) : Prop := FitsList32 NewsPost.Fits m.posts

theorem clamp_eq_self {m : NewsThreadListResponse} : m.clamp = m ↔ m.Fits := by
  obtain ⟨newsgroupId, posts⟩ := m
  simp [clamp, Fits, clampList32_eq_self NewsPost.clamp_eq_self]

theorem reads (b : List UInt8) (m : NewsThreadListResponse) (t : List UInt8) :
    Returns decode b m t ↔ m.clamp = m ∧ b = m.encode ∧ t = [] := by
  obtain ⟨newsgroupId, posts⟩ := m
  simp +arith [decode, encode, clamp, returns_bind, returns_getList32 NewsPost.returns_get,
    and_assoc]
  tauto

def payload : Payload NewsThreadListResponse :=
  .ofReads encode decode clamp Fits clamp_eq_self
    (by simp [encode, clamp, putList32_clampList32 NewsPost.put_clamp])
    (by simp [clamp, clampList32_clampList32 NewsPost.clamp_clamp]) reads
    (by simp [decode, safe_getList32_bind (NewsPost.safe_get _) NewsPost.returns_get])

end NewsThreadListResponse

/-- A new post, or a reply. -/
structure NewsPostCreate where
  newsgroupId : Vector UInt8 16
  parentId : Vector UInt8 16
  subject : String
  body : String
  deriving DecidableEq

namespace NewsPostCreate

def encode (m : NewsPostCreate) : List UInt8 :=
  putArray m.newsgroupId ++ putArray m.parentId ++ putStr m.subject ++ putStr m.body

def decode : PayloadReader NewsPostCreate := do
  let newsgroupId ← getId "NewsPostCreate"
  let parentId ← getId "NewsPostCreate"
  let subject ← getStr "NewsPostCreate"
  let body ← getStr "NewsPostCreate"
  expectEnd "NewsPostCreate"
  return { newsgroupId, parentId, subject, body }

def clamp (m : NewsPostCreate) : NewsPostCreate :=
  { m with subject := clampText m.subject, body := clampText m.body }

def Fits (m : NewsPostCreate) : Prop := FitsText m.subject ∧ FitsText m.body

theorem clamp_eq_self {m : NewsPostCreate} : m.clamp = m ↔ m.Fits := by
  obtain ⟨newsgroupId, parentId, subject, body⟩ := m
  simp [clamp, Fits, clampText_eq_self]

theorem reads (b : List UInt8) (m : NewsPostCreate) (t : List UInt8) :
    Returns decode b m t ↔ m.clamp = m ∧ b = m.encode ∧ t = [] := by
  obtain ⟨newsgroupId, parentId, subject, body⟩ := m
  simp [decode, encode, clamp, returns_bind, and_assoc]
  tauto

def payload : Payload NewsPostCreate :=
  .ofReads encode decode clamp Fits clamp_eq_self
    (by simp [encode, clamp]) (by simp [clamp]) reads (by simp [decode])

end NewsPostCreate

/-- The post to delete. -/
structure NewsPostDelete where
  postId : Vector UInt8 16
  deriving DecidableEq

def NewsPostDelete.payload : Payload NewsPostDelete :=
  (idPayload "NewsPostDelete").as NewsPostDelete.mk NewsPostDelete.postId (fun _ => rfl)
    fun _ => rfl

/-- A new newsgroup. -/
structure NewsgroupCreate where
  name : String
  description : String
  minReadClass : UInt8
  minPostClass : UInt8
  deriving DecidableEq

namespace NewsgroupCreate

def encode (m : NewsgroupCreate) : List UInt8 :=
  putStr m.name ++ putStr m.description ++ putU8 m.minReadClass ++ putU8 m.minPostClass

def decode : PayloadReader NewsgroupCreate := do
  let name ← getStr "NewsgroupCreate"
  let description ← getStr "NewsgroupCreate"
  needBytes 2 "NewsgroupCreate"
  let minReadClass ← getU8
  let minPostClass ← getU8
  expectEnd "NewsgroupCreate"
  return { name, description, minReadClass, minPostClass }

def clamp (m : NewsgroupCreate) : NewsgroupCreate :=
  { m with name := clampText m.name, description := clampText m.description }

def Fits (m : NewsgroupCreate) : Prop := FitsText m.name ∧ FitsText m.description

theorem clamp_eq_self {m : NewsgroupCreate} : m.clamp = m ↔ m.Fits := by
  obtain ⟨name, description, minReadClass, minPostClass⟩ := m
  simp [clamp, Fits, clampText_eq_self]

theorem reads (b : List UInt8) (m : NewsgroupCreate) (t : List UInt8) :
    Returns decode b m t ↔ m.clamp = m ∧ b = m.encode ∧ t = [] := by
  obtain ⟨name, description, minReadClass, minPostClass⟩ := m
  simp +arith [decode, encode, clamp, returns_bind, and_assoc]
  tauto

def payload : Payload NewsgroupCreate :=
  .ofReads encode decode clamp Fits clamp_eq_self
    (by simp [encode, clamp]) (by simp [clamp]) reads (by simp [decode])

end NewsgroupCreate

/-- A newsgroup as it shall be. -/
structure NewsgroupUpdate where
  id : Vector UInt8 16
  name : String
  description : String
  minReadClass : UInt8
  minPostClass : UInt8
  deriving DecidableEq

namespace NewsgroupUpdate

def encode (m : NewsgroupUpdate) : List UInt8 :=
  putArray m.id ++ putStr m.name ++ putStr m.description ++ putU8 m.minReadClass ++
    putU8 m.minPostClass

def decode : PayloadReader NewsgroupUpdate := do
  let id ← getId "NewsgroupUpdate"
  let name ← getStr "NewsgroupUpdate"
  let description ← getStr "NewsgroupUpdate"
  needBytes 2 "NewsgroupUpdate"
  let minReadClass ← getU8
  let minPostClass ← getU8
  expectEnd "NewsgroupUpdate"
  return { id, name, description, minReadClass, minPostClass }

def clamp (m : NewsgroupUpdate) : NewsgroupUpdate :=
  { m with name := clampText m.name, description := clampText m.description }

def Fits (m : NewsgroupUpdate) : Prop := FitsText m.name ∧ FitsText m.description

theorem clamp_eq_self {m : NewsgroupUpdate} : m.clamp = m ↔ m.Fits := by
  obtain ⟨id, name, description, minReadClass, minPostClass⟩ := m
  simp [clamp, Fits, clampText_eq_self]

theorem reads (b : List UInt8) (m : NewsgroupUpdate) (t : List UInt8) :
    Returns decode b m t ↔ m.clamp = m ∧ b = m.encode ∧ t = [] := by
  obtain ⟨id, name, description, minReadClass, minPostClass⟩ := m
  simp +arith [decode, encode, clamp, returns_bind, and_assoc]
  tauto

def payload : Payload NewsgroupUpdate :=
  .ofReads encode decode clamp Fits clamp_eq_self
    (by simp [encode, clamp]) (by simp [clamp]) reads (by simp [decode])

end NewsgroupUpdate

/-- The newsgroup to delete. -/
structure NewsgroupDelete where
  id : Vector UInt8 16
  deriving DecidableEq

def NewsgroupDelete.payload : Payload NewsgroupDelete :=
  (idPayload "NewsgroupDelete").as NewsgroupDelete.mk NewsgroupDelete.id (fun _ => rfl)
    fun _ => rfl

end Protocol

end KdxHotline
