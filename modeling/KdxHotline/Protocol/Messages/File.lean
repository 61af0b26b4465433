import KdxHotline.Protocol.Messages.Wire

/-!
# The file tree and transfers

The payloads that browse, change and search the tree, and those of a transfer.
-/

namespace KdxHotline

namespace Protocol

open Foundations Reader

/-! ### The tree -/

/-- What is in a folder? -/
structure FileListRequest where
  path : String
  deriving DecidableEq

def FileListRequest.payload : Payload FileListRequest :=
  (strPayload "FileListRequest").as FileListRequest.mk FileListRequest.path
    (fun _ => rfl) fun _ => rfl

/-- What a listing shows of a node. -/
structure FileEntry where
  name : String
  kind : UInt8
  size : UInt64
  deriving DecidableEq

namespace FileEntry

def put (r : FileEntry) : List UInt8 :=
  putStr r.name ++ putU8 r.kind ++ putU64 r.size

def get (context : String) : PayloadReader FileEntry := do
  let name ← getStr context
  needBytes 9 context
  let kind ← getU8
  let size ← getU64
  return { name, kind, size }

/-- The record as it is sent. -/
def clamp (r : FileEntry) : FileEntry :=
  { r with name := clampText r.name }

def Fits (r : FileEntry) : Prop := FitsText r.name

theorem clamp_eq_self {r : FileEntry} : r.clamp = r ↔ r.Fits := by
  obtain ⟨name, kind, size⟩ := r
  simp [clamp, Fits, clampText_eq_self]

theorem put_clamp (r : FileEntry) : r.clamp.put = r.put := by
  simp [put, clamp]

theorem clamp_clamp (r : FileEntry) : r.clamp.clamp = r.clamp := by
  simp [clamp]

theorem returns_get {context : String} {b t : List UInt8} {r : FileEntry} :
    Returns (get context) b r t ↔ r.clamp = r ∧ b = r.put ++ t := by
  obtain ⟨name, kind, size⟩ := r
  simp +arith [get, put, clamp, returns_bind, and_assoc]

theorem safe_get (context : String) : Safe 0 (get context) := by
  simp [get]

end FileEntry

/-- What is in the folder. -/
structure FileListResponse where
  path : String
  entries : List FileEntry
  deriving DecidableEq

namespace FileListResponse

def encode (m : FileListResponse) : List UInt8 :=
  putStr m.path ++ putList16 FileEntry.put m.entries

def decode : PayloadReader FileListResponse := do
  let path ← getStr "FileListResponse"
  needBytes 2 "FileListResponse"
  let entries ← getList16 (FileEntry.get "FileListResponse")
  expectEnd "FileListResponse"
  return { path, entries }

def clamp (m : FileListResponse) : FileListResponse :=
  { path := clampText m.path, entries := clampList16 FileEntry.clamp m.entries }

def Fits (m : FileListResponse) : Prop := FitsText m.path ∧ FitsList16 FileEntry.Fits m.entries

theorem clamp_eq_self {m : FileListResponse} : m.clamp = m ↔ m.Fits := by
  obtain ⟨path, entries⟩ := m
  simp [clamp, Fits, clampText_eq_self, clampList16_eq_self FileEntry.clamp_eq_self]

theorem reads (b : List UInt8) (m : FileListResponse) (t : List UInt8) :
    Returns decode b m t ↔ m.clamp = m ∧ b = m.encode ∧ t = [] := by
  obtain ⟨path, entries⟩ := m
  simp +arith [decode, encode, clamp, returns_bind, returns_getList16 FileEntry.returns_get,
    and_assoc]
  tauto

def payload : Payload FileListResponse :=
  .ofReads encode decode clamp Fits clamp_eq_self
    (by simp [encode, clamp, putList16_clampList16 FileEntry.put_clamp])
    (by simp [clamp, clampList16_clampList16 FileEntry.clamp_clamp]) reads
    (by simp [decode, safe_getList16_bind (FileEntry.safe_get _) FileEntry.returns_get])

end FileListResponse

/-- A new folder, with who may read it and who may write to it. -/
structure FileCreateFolder where
  path : String
  name : String
  kind : UInt8
  minReadClass : UInt8
  minWriteClass : UInt8
  owner : Option String
  deriving DecidableEq

namespace FileCreateFolder

def encode (m : FileCreateFolder) : List UInt8 :=
  putStr m.path ++ putStr m.name ++ putU8 m.kind ++ putU8 m.minReadClass ++ putU8 m.minWriteClass ++
    putOption putStr m.owner

def decode : PayloadReader FileCreateFolder := do
  let path ← getStr "FileCreateFolder"
  let name ← getStr "FileCreateFolder"
  needBytes 3 "FileCreateFolder"
  let kind ← getU8
  let minReadClass ← getU8
  let minWriteClass ← getU8
  let owner ← getOption "FileCreateFolder" (getStr "FileCreateFolder")
  expectEnd "FileCreateFolder"
  return { path, name, kind, minReadClass, minWriteClass, owner }

def clamp (m : FileCreateFolder) : FileCreateFolder :=
  { m with path := clampText m.path, name := clampText m.name, owner := m.owner.map clampText }

def Fits (m : FileCreateFolder) : Prop :=
  FitsText m.path ∧ FitsText m.name ∧ (∀ s ∈ m.owner, FitsText s)

theorem clamp_eq_self {m : FileCreateFolder} : m.clamp = m ↔ m.Fits := by
  obtain ⟨path, name, kind, minReadClass, minWriteClass, owner⟩ := m
  simp [clamp, Fits, clampText_eq_self, clampOption_eq_self clampText_eq_self]

theorem reads (b : List UInt8) (m : FileCreateFolder) (t : List UInt8) :
    Returns decode b m t ↔ m.clamp = m ∧ b = m.encode ∧ t = [] := by
  obtain ⟨path, name, kind, minReadClass, minWriteClass, owner⟩ := m
  simp +arith [decode, encode, clamp, returns_bind, returns_getOption returns_getStr, and_assoc]
  tauto

def payload : Payload FileCreateFolder :=
  .ofReads encode decode clamp Fits clamp_eq_self
    (by simp [encode, clamp, putOption_map putStr_clampText]) (by simp [clamp, Function.comp_def])
    reads (by simp [decode, safe_getOption_bind (safe_getStr 0 _) returns_getStr])

end FileCreateFolder

/-- What is at a path? -/
structure FileInfoRequest where
  path : String
  deriving DecidableEq

def FileInfoRequest.payload : Payload FileInfoRequest :=
  (strPayload "FileInfoRequest").as FileInfoRequest.mk FileInfoRequest.path
    (fun _ => rfl) fun _ => rfl

/-- What is known of a node; only a file has a hash. -/
structure FileInfoResponse where
  name : String
  kind : UInt8
  size : UInt64
  sha256 : Option (Vector UInt8 32)
  minReadClass : UInt8
  minWriteClass : UInt8
  owner : Option String
  deriving DecidableEq

namespace FileInfoResponse

def encode (m : FileInfoResponse) : List UInt8 :=
  putStr m.name ++ putU8 m.kind ++ putU64 m.size ++ putOption putArray m.sha256 ++
    putU8 m.minReadClass ++ putU8 m.minWriteClass ++ putOption putStr m.owner

def decode : PayloadReader FileInfoResponse := do
  let name ← getStr "FileInfoResponse"
  needBytes (1 + 8) "FileInfoResponse"
  let kind ← getU8
  let size ← getU64
  let sha256 ← getOption "FileInfoResponse" (getHash "FileInfoResponse")
  needBytes 2 "FileInfoResponse"
  let minReadClass ← getU8
  let minWriteClass ← getU8
  let owner ← getOption "FileInfoResponse" (getStr "FileInfoResponse")
  expectEnd "FileInfoResponse"
  return { name, kind, size, sha256, minReadClass, minWriteClass, owner }

def clamp (m : FileInfoResponse) : FileInfoResponse :=
  { m with name := clampText m.name, owner := m.owner.map clampText }

def Fits (m : FileInfoResponse) : Prop := FitsText m.name ∧ (∀ s ∈ m.owner, FitsText s)

theorem clamp_eq_self {m : FileInfoResponse} : m.clamp = m ↔ m.Fits := by
  obtain ⟨name, kind, size, sha256, minReadClass, minWriteClass, owner⟩ := m
  simp [clamp, Fits, clampText_eq_self, clampOption_eq_self clampText_eq_self]

theorem reads (b : List UInt8) (m : FileInfoResponse) (t : List UInt8) :
    Returns decode b m t ↔ m.clamp = m ∧ b = m.encode ∧ t = [] := by
  obtain ⟨name, kind, size, sha256, minReadClass, minWriteClass, owner⟩ := m
  simp +arith [decode, encode, clamp, returns_bind, returns_getOption returns_hash,
    returns_getOption returns_getStr, and_assoc]
  tauto

def payload : Payload FileInfoResponse :=
  .ofReads encode decode clamp Fits clamp_eq_self
    (by simp [encode, clamp, putOption_map putStr_clampText]) (by simp [clamp, Function.comp_def])
    reads
    (by simp [decode, safe_getOption_bind (safe_getHash 0 _) returns_hash,
      safe_getOption_bind (safe_getStr 0 _) returns_getStr])

end FileInfoResponse

/-- What to delete. -/
structure FileDelete where
  path : String
  deriving DecidableEq

def FileDelete.payload : Payload FileDelete :=
  (strPayload "FileDelete").as FileDelete.mk FileDelete.path
    (fun _ => rfl) fun _ => rfl

/-- What to move, and where to. -/
structure FileMove where
  path : String
  destPath : String
  deriving DecidableEq

def FileMove.payload : Payload FileMove :=
  (strPairPayload "FileMove").as (fun p => ⟨p.1, p.2⟩) (fun m => (m.path, m.destPath))
    (fun _ => rfl) fun _ => rfl

/-- What to make an alias of, and where. -/
structure FileAlias where
  sourcePath : String
  destPath : String
  deriving DecidableEq

def FileAlias.payload : Payload FileAlias :=
  (strPairPayload "FileAlias").as (fun p => ⟨p.1, p.2⟩) (fun m => (m.sourcePath, m.destPath))
    (fun _ => rfl) fun _ => rfl

/-! ### Searching -/

/-- The wish for a new catalog. -/
structure FileGenerateCatalog where
  deriving DecidableEq

def FileGenerateCatalog.payload : Payload FileGenerateCatalog :=
  (emptyPayload "FileGenerateCatalog").as (fun _ => ⟨⟩) (fun _ => ()) (fun _ => rfl)
    fun _ => rfl

/-- How many entries the catalog has. -/
structure FileCatalogGenerated where
  count : UInt32
  deriving DecidableEq

namespace FileCatalogGenerated

def encode (m : FileCatalogGenerated) : List UInt8 := putU32 m.count

def decode : PayloadReader FileCatalogGenerated := do
  needBytes 4 "FileCatalogGenerated"
  let count ← getU32
  expectEnd "FileCatalogGenerated"
  return { count }

def clamp (m : FileCatalogGenerated) : FileCatalogGenerated := m

def Fits (_ : FileCatalogGenerated) : Prop := True

theorem clamp_eq_self {m : FileCatalogGenerated} : m.clamp = m ↔ m.Fits := iff_true_intro rfl

theorem reads (b : List UInt8) (m : FileCatalogGenerated) (t : List UInt8) :
    Returns decode b m t ↔ m.clamp = m ∧ b = m.encode ∧ t = [] := by
  obtain ⟨count⟩ := m
  simp +arith +contextual [decode, encode, clamp, returns_bind, and_assoc]

def payload : Payload FileCatalogGenerated :=
  .ofReads encode decode clamp Fits clamp_eq_self
    (by simp [encode, clamp]) (by simp [clamp]) reads (by simp [decode])

end FileCatalogGenerated

/-- What to search the catalog for. -/
structure FileSearchRequest where
  query : String
  deriving DecidableEq

def FileSearchRequest.payload : Payload FileSearchRequest :=
  (strPayload "FileSearchRequest").as FileSearchRequest.mk FileSearchRequest.query
    (fun _ => rfl) fun _ => rfl

/-- A node that was found. -/
structure FileSearchEntry where
  path : String
  name : String
  kind : UInt8
  size : UInt64
  deriving DecidableEq

namespace FileSearchEntry

def put (r : FileSearchEntry) : List UInt8 :=
  putStr r.path ++ putStr r.name ++ putU8 r.kind ++ putU64 r.size

def get (context : String) : PayloadReader FileSearchEntry := do
  let path ← getStr context
  let name ← getStr context
  needBytes 9 context
  let kind ← getU8
  let size ← getU64
  return { path, name, kind, size }

/-- The record as it is sent. -/
def clamp (r : FileSearchEntry) : FileSearchEntry :=
  { r with path := clampText r.path, name := clampText r.name }

def Fits (r : FileSearchEntry) : Prop := FitsText r.path ∧ FitsText r.name

theorem clamp_eq_self {r : FileSearchEntry} : r.clamp = r ↔ r.Fits := by
  obtain ⟨path, name, kind, size⟩ := r
  simp [clamp, Fits, clampText_eq_self]

theorem put_clamp (r : FileSearchEntry) : r.clamp.put = r.put := by
  simp [put, clamp]

theorem clamp_clamp (r : FileSearchEntry) : r.clamp.clamp = r.clamp := by
  simp [clamp]

theorem returns_get {context : String} {b t : List UInt8} {r : FileSearchEntry} :
    Returns (get context) b r t ↔ r.clamp = r ∧ b = r.put ++ t := by
  obtain ⟨path, name, kind, size⟩ := r
  simp +arith [get, put, clamp, returns_bind, and_assoc]
  tauto

theorem safe_get (context : String) : Safe 0 (get context) := by
  simp [get]

end FileSearchEntry

/-- The nodes that were found. -/
structure FileSearchResponse where
  entries : List FileSearchEntry
  deriving DecidableEq

namespace FileSearchResponse

def encode (m : FileSearchResponse) : List UInt8 := putList32 FileSearchEntry.put m.entries

def decode : PayloadReader FileSearchResponse := do
  needBytes 4 "FileSearchResponse"
  let entries ← getList32 (FileSearchEntry.get "FileSearchResponse")
  expectEnd "FileSearchResponse"
  return { entries }

def clamp (m : FileSearchResponse) : FileSearchResponse :=
  { entries := clampList32 FileSearchEntry.clamp m.entries }

def Fits (m : FileSearchResponse) : Prop := FitsList32 FileSearchEntry.Fits m.entries

theorem clamp_eq_self {m : FileSearchResponse} : m.clamp = m ↔ m.Fits := by
  obtain ⟨entries⟩ := m
  simp [clamp, Fits, clampList32_eq_self FileSearchEntry.clamp_eq_self]

theorem reads (b : List UInt8) (m : FileSearchResponse) (t : List UInt8) :
    Returns decode b m t ↔ m.clamp = m ∧ b = m.encode ∧ t = [] := by
  obtain ⟨entries⟩ := m
  simp +arith +contextual [decode, encode, clamp, returns_bind,
    returns_getList32 FileSearchEntry.returns_get, and_assoc]

def payload : Payload FileSearchResponse :=
  .ofReads encode decode clamp Fits clamp_eq_self
    (by simp [encode, clamp, putList32_clampList32 FileSearchEntry.put_clamp])
    (by simp [clamp, clampList32_clampList32 FileSearchEntry.clamp_clamp]) reads
    (by simp [decode,
      safe_getList32_bind (FileSearchEntry.safe_get _) FileSearchEntry.returns_get])

end FileSearchResponse

/-! ### Transfers -/

/-- From the client to the server. -/
def directionUpload : UInt8 := 0

/-- From the server to the client. -/
def directionDownload : UInt8 := 1

/-- A request for an upload or a download, fresh or resumed. -/
structure TransferRequest where
  direction : UInt8
  path : String
  name : String
  size : UInt64
  chunkSize : UInt32
  sha256 : Vector UInt8 32
  resumeId : Vector UInt8 16
  haveBitmap : List UInt8
  deriving DecidableEq

namespace TransferRequest

def encode (m : TransferRequest) : List UInt8 :=
  putU8 m.direction ++ putStr m.path ++ putStr m.name ++ putU64 m.size ++ putU32 m.chunkSize ++
    putArray m.sha256 ++ putArray m.resumeId ++ putBytes16 m.haveBitmap

/-- Refuse a direction that is neither of the two. -/
def checkDirection (direction : UInt8) : PayloadReader Unit :=
  check (refuseIf (decide (direction ≠ directionUpload) && decide (direction ≠ directionDownload))
    (.refused (malformed "TransferRequest")))

def decode : PayloadReader TransferRequest := do
  needBytes 1 "TransferRequest"
  let direction ← getU8
  checkDirection direction
  let path ← getStr "TransferRequest"
  let name ← getStr "TransferRequest"
  needBytes (8 + 4 + 32 + 16) "TransferRequest"
  let size ← getU64
  let chunkSize ← getU32
  let sha256 ← getArray 32
  let resumeId ← getArray 16
  let haveBitmap ← getBytes16 "TransferRequest"
  expectEnd "TransferRequest"
  return { direction, path, name, size, chunkSize, sha256, resumeId, haveBitmap }

def clamp (m : TransferRequest) : TransferRequest :=
  { m with
    path := clampText m.path
    name := clampText m.name
    haveBitmap := clampBytes m.haveBitmap }

def Fits (m : TransferRequest) : Prop :=
  FitsText m.path ∧ FitsText m.name ∧ FitsBytes m.haveBitmap

theorem clamp_eq_self {m : TransferRequest} : m.clamp = m ↔ m.Fits := by
  obtain ⟨direction, path, name, size, chunkSize, sha256, resumeId, haveBitmap⟩ := m
  simp [clamp, Fits, clampText_eq_self, clampBytes_eq_self]

/-- The two directions there are. -/
def HasDirection (m : TransferRequest) : Prop :=
  m.direction = directionUpload ∨ m.direction = directionDownload

theorem returns_checkDirection {direction : UInt8} {b t : List UInt8} {u : Unit} :
    Returns (checkDirection direction) b u t ↔
      (direction = directionUpload ∨ direction = directionDownload) ∧ b = t := by
  simp only [checkDirection, returns_check, refuseIf_eq_ok]
  simp [or_iff_not_imp_left]

theorem safe_checkDirection_bind {β : Type} {direction : UInt8} {n : ℕ}
    {f : Unit → PayloadReader β} (h : Safe n (f ())) : Safe n (checkDirection direction >>= f) := by
  refine (safe_check _ ?_).bind ?_
  · rw [Ne, refuseIf_eq_error]
    exact fun h => nomatch h.2
  · intro b _ t hn hret
    obtain ⟨-, rfl⟩ := returns_checkDirection.mp hret
    exact h.mono hn

theorem reads {b t : List UInt8} {m : TransferRequest} :
    Returns decode b m t ↔ m.HasDirection ∧ m.clamp = m ∧ b = m.encode ∧ t = [] := by
  obtain ⟨direction, path, name, size, chunkSize, sha256, resumeId, haveBitmap⟩ := m
  simp +arith +contextual [decode, encode, clamp, HasDirection, returns_bind,
    returns_checkDirection, and_assoc,
    and_comm, and_left_comm]

def payload : Payload TransferRequest where
  encode := encode
  decode := decode
  clamp := clamp
  Fits := Fits
  Sendable := HasDirection
  Canonical _ := True
  clamp_eq_self := clamp_eq_self
  decode_encode {m} h := reads.mpr ⟨h, by simp [clamp], by simp [encode, clamp], rfl⟩
  encode_decode _ h := ⟨(reads.mp h).2.2.1.symm, (reads.mp h).2.2.2⟩
  safe := by
    simp only [decode, safe_needBytes_bind]
    simp
    intro direction
    refine safe_checkDirection_bind ?_
    simp

end TransferRequest

/-- The shape of a transfer and its digest, and the chunks that are already there. -/
structure TransferAccept where
  transferId : Vector UInt8 16
  chunkSize : UInt32
  totalChunks : UInt32
  size : UInt64
  sha256 : Vector UInt8 32
  haveBitmap : List UInt8
  deriving DecidableEq

namespace TransferAccept

def encode (m : TransferAccept) : List UInt8 :=
  putArray m.transferId ++ putU32 m.chunkSize ++ putU32 m.totalChunks ++ putU64 m.size ++
    putArray m.sha256 ++ putBytes16 m.haveBitmap

def decode : PayloadReader TransferAccept := do
  needBytes (16 + 4 + 4 + 8 + 32) "TransferAccept"
  let transferId ← getArray 16
  let chunkSize ← getU32
  let totalChunks ← getU32
  let size ← getU64
  let sha256 ← getArray 32
  let haveBitmap ← getBytes16 "TransferAccept"
  expectEnd "TransferAccept"
  return { transferId, chunkSize, totalChunks, size, sha256, haveBitmap }

def clamp (m : TransferAccept) : TransferAccept :=
  { m with haveBitmap := clampBytes m.haveBitmap }

def Fits (m : TransferAccept) : Prop := FitsBytes m.haveBitmap

theorem clamp_eq_self {m : TransferAccept} : m.clamp = m ↔ m.Fits := by
  obtain ⟨transferId, chunkSize, totalChunks, size, sha256, haveBitmap⟩ := m
  simp [clamp, Fits, clampBytes_eq_self]

theorem reads (b : List UInt8) (m : TransferAccept) (t : List UInt8) :
    Returns decode b m t ↔ m.clamp = m ∧ b = m.encode ∧ t = [] := by
  obtain ⟨transferId, chunkSize, totalChunks, size, sha256, haveBitmap⟩ := m
  simp +arith +contextual [decode, encode, clamp, returns_bind, and_assoc, and_comm,
    and_left_comm]

def payload : Payload TransferAccept :=
  .ofReads encode decode clamp Fits clamp_eq_self
    (by simp [encode, clamp]) (by simp [clamp]) reads (by simp [decode])

end TransferAccept

/-- A chunk of a file; its bytes are not counted. -/
structure TransferData where
  transferId : Vector UInt8 16
  chunkIndex : UInt32
  chunkHash : Vector UInt8 32
  data : List UInt8
  deriving DecidableEq

namespace TransferData

def encode (m : TransferData) : List UInt8 :=
  putArray m.transferId ++ putU32 m.chunkIndex ++ putArray m.chunkHash ++ m.data

def decode : PayloadReader TransferData := do
  needBytes (16 + 4 + 32) "TransferData"
  let transferId ← getArray 16
  let chunkIndex ← getU32
  let chunkHash ← getArray 32
  let data ← getRest
  return { transferId, chunkIndex, chunkHash, data }

def clamp (m : TransferData) : TransferData := m

def Fits (_ : TransferData) : Prop := True

theorem clamp_eq_self {m : TransferData} : m.clamp = m ↔ m.Fits := iff_true_intro rfl

theorem reads (b : List UInt8) (m : TransferData) (t : List UInt8) :
    Returns decode b m t ↔ m.clamp = m ∧ b = m.encode ∧ t = [] := by
  obtain ⟨transferId, chunkIndex, chunkHash, data⟩ := m
  simp +arith +contextual [decode, encode, clamp, returns_bind, and_assoc]

def payload : Payload TransferData :=
  .ofReads encode decode clamp Fits clamp_eq_self
    (by simp [encode, clamp]) (by simp [clamp]) reads (by simp [decode])

end TransferData

/-- How a transfer ended. -/
structure TransferEnd where
  transferId : Vector UInt8 16
  status : UInt8
  message : String
  deriving DecidableEq

namespace TransferEnd

def encode (m : TransferEnd) : List UInt8 :=
  putArray m.transferId ++ putU8 m.status ++ putStr m.message

def decode : PayloadReader TransferEnd := do
  needBytes (16 + 1 + 2) "TransferEnd"
  let transferId ← getArray 16
  let status ← getU8
  let message ← getStr "TransferEnd"
  expectEnd "TransferEnd"
  return { transferId, status, message }

def clamp (m : TransferEnd) : TransferEnd :=
  { m with message := clampText m.message }

def Fits (m : TransferEnd) : Prop := FitsText m.message

theorem clamp_eq_self {m : TransferEnd} : m.clamp = m ↔ m.Fits := by
  obtain ⟨transferId, status, message⟩ := m
  simp [clamp, Fits, clampText_eq_self]

theorem reads (b : List UInt8) (m : TransferEnd) (t : List UInt8) :
    Returns decode b m t ↔ m.clamp = m ∧ b = m.encode ∧ t = [] := by
  obtain ⟨transferId, status, message⟩ := m
  simp +arith +contextual [decode, encode, clamp, returns_bind, and_assoc, and_comm,
    and_left_comm]

def payload : Payload TransferEnd :=
  .ofReads encode decode clamp Fits clamp_eq_self
    (by simp [encode, clamp]) (by simp [clamp]) reads (by simp [decode])

end TransferEnd

end Protocol

end KdxHotline
