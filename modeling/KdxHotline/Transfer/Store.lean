import KdxHotline.Foundations.Tasks
import KdxHotline.Storage.TransferState
import KdxHotline.Transfer.Download

/-!
# Uploads, step by step

An upload that is not finished has a row in the database, a partial file, and while a connection
works on it a claim in the books and a bitmap in memory. Between two accesses to the database or to
the directory any other connection may do something, and so may the sweeper: every function here is
made of steps over one state (`KdxHotline.Transfer.UploadStore`).

Many tasks run at once (`KdxHotline.Transfer.serveUploads`): what a connection does with one upload
from its beginning or resume until it lets go of it, and sweeps. What the file tree answers comes
with the request. Statements and file operations may fail, and what is left half done then stays so.

Two fields of the state are read by no function. They remember what was stored and what had been
received when an upload was let go, for what is said about runs.
-/

namespace KdxHotline

namespace Transfer

open Foundations Storage Files

/-! ### State -/

/-- What the server has of uploads: books, rows and files. -/
structure UploadStore where
  live : Live
  pool : TransferPool
  /-- The bytes of the partial files. -/
  parts : Uuid → Option (List UInt8)
  /-- The bytes of the finished files, each named after its upload. -/
  blobs : Uuid → Option (List UInt8)
  /-- The uploads whose files the tree has entries for. -/
  filed : Finset Uuid
  /-- The files that were moved away, under the time when they were. -/
  quarantine : List ((Uuid × ℕ) × List UInt8)
  /-- Whether each of the coming file operations fails. -/
  disk : List Bool
  /-- The clock of the database. -/
  clock : ℕ
  /-- The chunks that were checked and written. -/
  stored : List (Uuid × ℕ × List UInt8)
  /-- The bitmaps of uploads that were let go and can be resumed. -/
  partings : List (Uuid × List UInt8)

/-- A live upload. -/
structure ActiveUpload where
  id : Uuid
  size : ℕ
  chunkSize : ℕ
  totalChunks : ℕ
  expectedSha256 : List UInt8
  /-- The chunks received, a bit for each. -/
  bitmap : List UInt8
  /-- Set bits in `bitmap`. -/
  received : ℕ
  /-- Chunks received since the bitmap was last saved. -/
  unsaved : ℕ
  deriving DecidableEq

/-- The rows that `makeRoomFor` listed and has not discarded, and how many of them are too many. -/
structure Listing where
  accountId : String
  pending : Finset Uuid
  excess : ℕ
  deriving DecidableEq

/-- What a task has to itself. -/
structure UploadTask where
  claim : Option ClaimKind
  /-- The ids that it holds. -/
  holds : List Uuid
  /-- The row that a resume goes by. -/
  row : Option TransferRow
  listing : Option Listing
  /-- The partial file that is open, and its size. -/
  file : Option (Uuid × ℕ)
  upload : Option ActiveUpload
  /-- Has the bitmap failed to be saved? -/
  failed : Bool
  /-- The held ids that no entry referred to when the tree was read. -/
  unnamed : List Uuid
  /-- The held ids that had no row when the rows were read. -/
  unowned : List Uuid
  deriving DecidableEq

/-- A task that has nothing in hand. -/
def UploadTask.idle : UploadTask := ⟨none, [], none, none, none, none, false, [], []⟩

/-- What a step is. -/
inductive UploadStep
  | claim (bytes : ℕ)
  | dropClaim
  | hold
  | dropHold
  | list (accountId : String)
  | listStale
  | deleteRow (id : Uuid)
  | removePart (id : Uuid)
  | createPart (id : Uuid)
  | createRow
  | readRow
  | lookup
  | rewriteRow
  | openPart
  | start
  | store
  | save
  | hash
  | close
  | file
  | withdraw
  | promote (id : Uuid)
  | restore (id : Uuid)
  | unfile
  | unlink (id : Uuid)
  | readTree
  | readIds
  | prepare
  | quarantine (id : Uuid)
  | purge
  | tick
  deriving DecidableEq

/-- A call on the uploads. -/
abbrev UploadCall (α : Type) : Type 1 := Prog UploadStore UploadTask UploadStep TransferError α

/-! ### Bitmaps -/

/-- Is the chunk marked as received? -/
def hasChunk (bitmap : List UInt8) (index : ℕ) : Bool := (Bits.ofBytes bitmap).getD index false

/-- Mark a chunk as received. -/
def markChunk (bitmap : List UInt8) (index : ℕ) : List UInt8 :=
  bitmap.modify (index / 8) fun b => b ||| 1 <<< UInt8.ofNat (index % 8)

/-- The marked chunks among the first ones. -/
def countChunks (bitmap : List UInt8) (total : ℕ) : ℕ :=
  (List.range total).countP fun index => hasChunk bitmap index

namespace ActiveUpload

/-- Every chunk has arrived. -/
def isComplete (u : ActiveUpload) : Bool := u.received == u.totalChunks

/-- The bytes of a chunk. -/
def chunkLen (u : ActiveUpload) (index : ℕ) : ℕ :=
  expectedChunkLen u.size u.chunkSize u.totalChunks index

/-- The chunk was written. -/
def receive (u : ActiveUpload) (index : ℕ) : ActiveUpload :=
  { u with
    bitmap := markChunk u.bitmap index
    received := u.received + 1
    unsaved := u.unsaved + 1 }

end ActiveUpload

/-! ### Single steps -/

section Steps

variable {α : Type}

/-- A call of the storage layer. -/
def onTable (x : Fallible TransferPool StorageError α) (next : α → UploadTask → UploadTask) :
    Fallible (UploadStore × UploadTask) TransferError α := fun s =>
  match x.run s.1.pool with
  | .ok a pool => .ok a ({ s.1 with pool }, next a s.2)
  | .error e pool => .error (.storage e) ({ s.1 with pool }, s.2)

/-- A file operation, with what it does to the partial files. -/
def onDisk (x : (Uuid → Option (List UInt8)) → Option (Uuid → Option (List UInt8)))
    (next : UploadTask → UploadTask) : Fallible (UploadStore × UploadTask) TransferError Unit :=
  fun s =>
    if s.1.disk.headD false then .error .io ({ s.1 with disk := s.1.disk.tail }, s.2)
    else match x s.1.parts with
      | some parts => .ok () ({ s.1 with parts, disk := s.1.disk.tail }, next s.2)
      | none => .error .io ({ s.1 with disk := s.1.disk.tail }, s.2)

/-- Try something, and go on however it ends. -/
def quietly (x : UploadCall Unit) : UploadCall Unit := do
  let _ ← x.attempt
  return ()

/-- Claim an upload slot; a refused claim leaves nothing behind. -/
def claiming (limits : TransferLimits) (accountId : String) (id : Uuid) (destination : Destination)
    (bytes : ℕ) (available : Option ℕ) : UploadCall (Option String) :=
  .call (.claim bytes) fun s =>
    match (claimUpload limits accountId id destination bytes available).run s.1.live with
    | .ok (claim, name) live => .ok name ({ s.1 with live }, { s.2 with claim := some claim })
    | .error e live => .error e ({ s.1 with live }, s.2)

/-- What an upload leaves behind that can still be resumed. -/
def UploadStore.parting (s : UploadStore) (u : ActiveUpload) : List (Uuid × List UInt8) :=
  if (s.pool.db.row u.id).isSome then [(u.id, u.bitmap)] else []

/-- The claim of a task is dropped. -/
def UploadStore.dropClaim (s : UploadStore) (own : UploadTask) : UploadStore :=
  match own.claim with
  | some claim => { s with
      live := s.live.release claim
      partings := s.partings ++ own.upload.toList.flatMap s.parting }
  | none => s

/-- Drop the claim, and with it all that the task has. -/
def dropClaim : UploadCall Unit :=
  .step .dropClaim (fun s => ((), s.1.dropClaim s.2, .idle)) pure

/-- Hold an id so nobody resumes its upload while it is being deleted. -/
def holding (id : Uuid) : UploadCall Bool :=
  .step .hold (fun s => match hold id s.1.live with
    | (some _, live) => (true, { s.1 with live }, { s.2 with holds := s.2.holds ++ [id] })
    | (none, live) => (false, { s.1 with live }, s.2)) pure

/-- Let go of the id that has been held for longest. What was read while it was held is of no use
without it. -/
def dropHold : UploadCall Unit :=
  .step .dropHold (fun s => match s.2.holds with
    | id :: holds => ((), { s.1 with live := s.1.live.release (.hold id) },
        { s.2 with holds, unnamed := [], unowned := [] })
    | [] => ((), s)) pure

/-- Remove a partial file, if it is there. -/
def removeQuietly (id : Uuid) : UploadCall Unit :=
  quietly (.call (.removePart id)
    (onDisk (fun parts => some (Function.update parts id none)) fun own => own))

/-- One listed row less, and one less too many. -/
def Listing.discarded (id : Uuid) (l : Listing) : Listing :=
  { l with pending := l.pending.erase id, excess := l.excess - 1 }

/-- Delete a row. There is no upload to resume any more. -/
def deleteRow (id : Uuid) : Fallible (UploadStore × UploadTask) TransferError Unit := fun s =>
  let own := { s.2 with listing := s.2.listing.map (Listing.discarded id) }
  match (TransferState.delete id).run s.1.pool with
  | .ok () pool =>
    .ok () ({ s.1 with pool, partings := s.1.partings.filter fun p => p.1 ≠ id }, own)
  | .error e pool => .error (.storage e) ({ s.1 with pool }, own)

/-- Delete a row and its partial file. The id is held. -/
def discard (id : Uuid) : UploadCall Unit := do
  quietly (.call (.deleteRow id) (deleteRow id))
  removeQuietly id

end Steps

/-! ### Making room -/

/-- List an account's unfinished uploads, and count how many are too many if one more is created. -/
def listForAccount (limits : TransferLimits) (accountId : String) :
    Fallible (UploadStore × UploadTask) TransferError (List PendingTransfer) :=
  onTable (TransferState.listForAccount accountId) fun rows own => { own with
    listing := some ⟨accountId, (rows.map PendingTransfer.id).toFinset,
      rows.length + 1 - max limits.maxOpenUploadsPerAccount 1⟩ }

/-- Discard listed rows that no connection works on, until there are none too many. -/
def discardExcess : List PendingTransfer → ℕ → UploadCall ℕ
  | [], excess => pure excess
  | row :: rows, excess =>
    if excess = 0 then pure 0
    else do
      -- one that is live on some connection is left alone
      if ← holding row.id then
        discard row.id
        dropHold
        discardExcess rows (excess - 1)
      else discardExcess rows excess

/-- Keep an account under its cap of unfinished uploads, counting the one about to be created, by
discarding its least recently used idle ones. -/
def makeRoomFor (limits : TransferLimits) (accountId : String) : UploadCall Unit := do
  let rows ← .call (.list accountId) (listForAccount limits accountId)
  let excess ← discardExcess rows (rows.length + 1 - max limits.maxOpenUploadsPerAccount 1)
  .ofExcept (refuseIf (decide (0 < excess)) .tooManyTransfers)

/-! ### Beginning an upload -/

/-- A request for a new upload, with what the tree answers and the id that is drawn. -/
structure BeginRequest where
  accountId : String
  id : Uuid
  dest : Except TreeError TreeState.UploadDest
  /-- Is there an entry of this name in the folder? -/
  taken : String → Bool
  name : String
  size : ℕ
  chunkSize : ℕ
  sha256 : List UInt8
  available : Option ℕ

/-- What the connection answers. -/
structure AcceptInfo where
  transferId : Uuid
  chunkSize : ℕ
  totalChunks : ℕ
  size : ℕ
  sha256 : List UInt8
  haveBitmap : List UInt8
  deriving DecidableEq

section Begin

variable {α : Type} (limits : TransferLimits)

/-- The claim is dropped when what follows fails. -/
def droppingClaim (body : UploadCall α) : UploadCall α := do
  match ← body.attempt with
  | .ok a => pure a
  | .error e => do
    dropClaim
    .fail e

/-- Claim a slot for an upload headed for a folder, and reserve the name. -/
def claimInto (accountId : String) (id : Uuid) (dest : TreeState.UploadDest) (taken : String → Bool)
    (name : String) (bytes : ℕ) (available : Option ℕ) : UploadCall String := do
  let destination := if dest.blind then .free dest.parent.id name dest.nameBudget taken
    else .exact dest.parent.id name
  let reserved ← claiming limits accountId id destination bytes available
  return reserved.getD name

/-- Create a partial file of the upload's size. -/
def createPart (id : Uuid) (size : ℕ) : UploadCall Unit := do
  .call (.createPart id) (onDisk (fun parts => match parts id with
    | some _ => none
    | none => some (Function.update parts id (some []))) fun own => own)
  let sized ← (Prog.call (.createPart id) (onDisk (fun parts =>
    some (Function.update parts id (some (List.replicate size 0))))
      fun own => { own with file := some (id, size) }) : UploadCall Unit).attempt
  match sized with
  | .ok () => pure ()
  | .error e => do
    removeQuietly id
    .fail e

/-- The row of a new upload. -/
def BeginRequest.row (r : BeginRequest) (parentId name : String) (chunks : ℕ) : TransferRow where
  id := r.id
  accountId := r.accountId
  parentId := parentId
  name := name
  size := r.size
  chunkSize := r.chunkSize
  sha256 := r.sha256
  bitmap := List.replicate (Bits.bytesFor chunks) 0
  tempPath := .part r.id
  updatedAt := 0
  tempPath_eq := rfl

/-- Create the row; the upload is live from here on. If that fails the file is closed. -/
def createRow (row : TransferRow) (upload : ActiveUpload) :
    Fallible (UploadStore × UploadTask) TransferError Unit := fun s =>
  match (TransferState.create row s.1.clock).run s.1.pool with
  | .ok () pool => .ok () ({ s.1 with pool }, { s.2 with listing := none, upload := some upload })
  | .error e pool =>
    .error (.storage e) ({ s.1 with pool }, { s.2 with file := none })

/-- Begin a new upload. -/
def beginUpload (r : BeginRequest) : UploadCall AcceptInfo := do
  let chunks ← .ofExcept (checkUploadShape r.size r.chunkSize)
  let dest ← .ofExcept (r.dest.mapError .tree)
  let name ← claimInto limits r.accountId r.id dest r.taken r.name r.size r.available
  droppingClaim do
    makeRoomFor limits r.accountId
    createPart r.id r.size
    let row := r.row dest.parent.id name chunks
    let created ← (Prog.call .createRow (createRow row
      ⟨r.id, r.size, r.chunkSize, chunks, r.sha256, row.bitmap, 0, 0⟩) : UploadCall Unit).attempt
    match created with
    | .ok () => return ⟨r.id, r.chunkSize, chunks, r.size, r.sha256, []⟩
    | .error e => do
      removeQuietly r.id
      .fail e

end Begin

/-! ### Resuming an upload -/

/-- A request to resume an upload, with what the tree answers. -/
structure ResumeRequest where
  accountId : String
  id : Uuid
  size : ℕ
  chunkSize : ℕ
  sha256 : List UInt8
  /-- Is there an entry for it already? -/
  filed : Bool
  dest : Except TreeError TreeState.UploadDest
  taken : String → Bool
  available : Option ℕ

section Resume

variable (limits : TransferLimits)

/-- Read the row of an id. -/
def readRow (id : Uuid) : Fallible (UploadStore × UploadTask) TransferError (Option TransferRow) :=
  onTable (TransferState.get id) fun row own => { own with row }

/-- The size a row says, as a `u64`. -/
def rowSize (row : TransferRow) : ℕ := (row.size % 2 ^ 64).toNat

/-- The chunk size of a row, as the code reads it. -/
def rowChunkSize (row : TransferRow) : ℕ := (row.chunkSize % 2 ^ 64).toNat

/-- Does the request describe the upload of the row? -/
def ResumeRequest.matches_ (r : ResumeRequest) (row : TransferRow) : Bool :=
  decide (rowSize row = r.size ∧ rowChunkSize row = r.chunkSize ∧ row.sha256 = r.sha256)

/-- The bytes a resumed upload may still write. -/
def remainingBytes (size chunkSize : ℕ) (bitmap : List UInt8) (chunks : ℕ) : ℕ :=
  size - countChunks bitmap chunks * chunkSize

/-- Discard an upload, unless it is live. -/
def discardIdle (id : Uuid) : UploadCall Bool := do
  if ← holding id then
    discard id
    dropHold
    return true
  else return false

/-- Where a resumed upload is headed, unless an entry for it is filed already. -/
def resumeDest (r : ResumeRequest) (row : TransferRow) : UploadCall (Option TreeState.UploadDest) :=
  if r.filed then pure none
  else match r.dest with
    | .ok dest => pure (some dest)
    | .error e => do
      -- it can never be filed
      if ← discardIdle row.id then .fail (.tree e) else .fail .busy

/-- Claim what a resumed upload needs: its destination, or none when it was filed. -/
def resumeClaim (r : ResumeRequest) (row : TransferRow) (bytes : ℕ) :
    Option TreeState.UploadDest → UploadCall String
  | some dest => claimInto limits r.accountId row.id dest r.taken row.name bytes r.available
  | none => do
    let _ ← claiming limits r.accountId row.id .filed bytes r.available
    return row.name

/-- Reopen a partial file, checking it still has the right size. -/
def reopen (id : Uuid) (size : ℕ) : Fallible (UploadStore × UploadTask) TransferError Unit :=
  onDisk (fun parts =>
    if (parts id).any fun bytes => bytes.length == size then some parts else none)
    fun own => { own with file := some (id, size) }

/-- Reopen the partial file of a row; if that fails there is nothing to resume. -/
def openPart (id : Uuid) (size : ℕ) : Fallible (UploadStore × UploadTask) TransferError Unit :=
  fun s =>
  match (reopen id size).run s with
  | .ok () t => .ok () t
  | .error e t => .error e (t.1, { t.2 with row := none })

/-- Mark the row as recently used. -/
def touch (id : Uuid) : Fallible (UploadStore × UploadTask) TransferError Unit := fun s =>
  onTable (TransferState.touch id s.1.clock) (fun _ own => own) s

/-- A blind upload whose name was taken while it was paused is headed for a free variant now, which
the row records too. -/
def recordName (row : TransferRow) (name : String) : UploadCall Unit :=
  if name = row.name then pure ()
  else quietly (.call .rewriteRow (onTable (TransferState.setName row.id name) fun _ own => own))

/-- The upload is live from here on. -/
def start (upload : ActiveUpload) : UploadCall Unit :=
  .step .start (fun s => ((), s.1, { s.2 with upload := some upload })) pure

/-- Go on with an upload. -/
def resumeUpload (r : ResumeRequest) : UploadCall AcceptInfo := do
  let row ← .call .readRow (readRow r.id)
  let row ← .ofExcept (required .unknownTransfer row)
  .ofExcept (refuseIf (decide (row.accountId ≠ r.accountId)) .unknownTransfer)
  .ofExcept (refuseIf (!r.matches_ row) .resumeMismatch)
  match checkUploadShape r.size r.chunkSize with
  | .error e => do
    -- a row from before the current caps
    let _ ← discardIdle row.id
    .fail e
  | .ok chunks => do
    let bitmap := Bits.resizeBytes chunks row.bitmap
    let dest ← resumeDest r row
    let name ← resumeClaim limits r row (remainingBytes r.size r.chunkSize bitmap chunks) dest
    droppingClaim do
      recordName row name
      let opened ← (Prog.call .openPart (openPart row.id r.size) : UploadCall Unit).attempt
      match opened with
      | .error e => do
        discard row.id
        .fail e
      | .ok () => do
        quietly (.call .rewriteRow (touch row.id))
        start ⟨row.id, r.size, r.chunkSize, chunks, r.sha256, bitmap, countChunks bitmap chunks, 0⟩
        return ⟨row.id, r.chunkSize, chunks, r.size, r.sha256, Bits.copyBytes chunks bitmap⟩

end Resume

/-! ### Working on an upload -/

/-- A chunk that a client sends. -/
structure ChunkRequest where
  index : ℕ
  hash : List UInt8
  data : List UInt8
  /-- How much of it is written if the write fails. -/
  torn : ℕ
  /-- Has it been long enough since the bitmap was last saved? -/
  late : Bool

/-- The bytes of a file with `data` written at an offset. -/
def writeAt (bytes : List UInt8) (offset : ℕ) (data : List UInt8) : List UInt8 :=
  (bytes ++ List.replicate (offset - bytes.length) 0).take offset ++ data ++
    bytes.drop (offset + data.length)

section Write

variable (sha256 : List UInt8 → List UInt8) (limits : TransferLimits)

/-- What is wrong with a chunk. -/
def checkChunk (u : ActiveUpload) (chunk : ChunkRequest) : Except TransferError Unit := do
  refuseIf (decide (u.totalChunks ≤ chunk.index)) .badChunkIndex
  refuseIf (decide (chunk.data.length ≠ u.chunkLen chunk.index)) .badChunkLength
  refuseIf (decide (sha256 chunk.data ≠ chunk.hash)) .chunkHashMismatch

/-- Write data at the place of a chunk. -/
def UploadStore.write (s : UploadStore) (u : ActiveUpload) (index : ℕ) (data : List UInt8) :
    UploadStore :=
  { s with
    parts := Function.update s.parts u.id
      ((s.parts u.id).map fun bytes => writeAt bytes (index * u.chunkSize) data)
    disk := s.disk.tail }

/-- Is the bitmap to be saved? -/
def saveDue (u : ActiveUpload) (chunk : ChunkRequest) : Bool :=
  !u.isComplete && (decide (limits.bitmapFlushChunks ≤ u.unsaved) || chunk.late)

/-- Check a chunk and write it. Returns whether the bitmap is to be saved, and whether every chunk
is in. -/
def storeChunk (chunk : ChunkRequest) :
    Fallible (UploadStore × UploadTask) TransferError (Bool × Bool) := fun (s, own) =>
  match own.upload with
  | none => .ok (false, false) (s, own)
  | some u =>
    match checkChunk sha256 u chunk with
    | .error e => .error e (s, own)
    | .ok () =>
      -- one that is there already is not written again
      if hasChunk u.bitmap chunk.index then .ok (false, u.isComplete) (s, own)
      else if s.disk.headD false then
        .error .io (s.write u chunk.index (chunk.data.take chunk.torn), own)
      else
        let u' := u.receive chunk.index
        let s' := s.write u chunk.index chunk.data
        .ok (saveDue limits u' chunk, u'.isComplete)
          ({ s' with stored := s'.stored ++ [(u.id, chunk.index, chunk.data)] },
            { own with upload := some u' })

/-- Save the bitmap. -/
def saveBitmap : Fallible (UploadStore × UploadTask) TransferError Unit := fun s =>
  match s.2.upload with
  | none => .ok () s
  | some u =>
    match (TransferState.updateBitmap u.id u.bitmap s.1.clock).run s.1.pool with
    | .ok () pool =>
      .ok () ({ s.1 with pool }, { s.2 with upload := some { u with unsaved := 0 } })
    | .error e pool => .error (.storage e) ({ s.1 with pool }, { s.2 with failed := true })

/-- Accept one chunk. Returns whether every chunk has arrived. -/
def writeChunk (chunk : ChunkRequest) : UploadCall Bool := do
  let (due, complete) ← .call .store (storeChunk sha256 limits chunk)
  if due then .call .save saveBitmap
  return complete

/-- Whatever becomes of each of them, the chunks are accepted one after the other. -/
def writeChunks : List ChunkRequest → UploadCall Unit
  | [] => pure ()
  | chunk :: chunks => do
    let _ ← (writeChunk sha256 limits chunk).attempt
    writeChunks chunks

end Write

/-! ### Letting go of an upload -/

/-- Save the bitmap if there is something to save. -/
def saveProgress : Fallible (UploadStore × UploadTask) TransferError Unit := fun s =>
  match s.2.upload with
  | none => .ok () s
  | some u => if u.unsaved = 0 then .ok () s else saveBitmap s

/-- Let go of an upload but keep it resumable: save its progress, then free its slot. -/
def release : UploadCall Unit := do
  quietly (.call .save saveProgress)
  dropClaim

/-- An upload is dropped. Its slot stays taken until its progress is saved in the background. -/
def dropUpload : UploadCall Unit := do
  quietly (.call .save saveProgress)
  dropClaim

/-- Destroy an upload. There is nothing left worth saving, and its file is closed. -/
def abort (id : Uuid) : UploadCall Unit := do
  .step .close (fun s => ((), s.1, { s.2 with upload := none, file := none, row := none })) pure
  discard id
  dropClaim

/-- Whether the database failed. -/
def TreeError.isStorage : TreeError → Bool
  | .storage _ => true
  | _ => false

/-- Read the file back and hash it, and close it. -/
def hashFile (sha256 : List UInt8 → List UInt8) (id : Uuid) :
    Fallible (UploadStore × UploadTask) TransferError (List UInt8) := fun s =>
  let own := { s.2 with file := none }
  if s.1.disk.headD false then .error .io ({ s.1 with disk := s.1.disk.tail }, own)
  else .ok (sha256 ((s.1.parts id).getD [])) ({ s.1 with disk := s.1.disk.tail }, own)

/-- The tree has an entry for the upload. -/
def fileEntry (id : Uuid) : UploadCall Unit :=
  .step .file (fun s => ((), { s.1 with filed := insert id s.1.filed }, s.2)) pure

/-- Move the partial file to where the blob belongs. -/
def promote (id : Uuid) : Fallible (UploadStore × UploadTask) TransferError Unit := fun s =>
  let t := { s.1 with disk := s.1.disk.tail }
  match s.1.parts id with
  | none => .error .io (t, s.2)
  | some bytes =>
    if s.1.disk.headD false then .error .io (t, s.2)
    else .ok () ({ t with
      parts := Function.update s.1.parts id none
      blobs := Function.update s.1.blobs id (some bytes) }, s.2)

/-- Withdraw the entry of an upload. -/
def withdraw (id : Uuid) : Fallible (UploadStore × UploadTask) TransferError Unit := fun s =>
  match (query fun _ => ()).run s.1.pool with
  | .ok () pool => .ok () ({ s.1 with pool, filed := s.1.filed.erase id }, s.2)
  | .error e pool => .error (.storage e) ({ s.1 with pool }, s.2)

/-- Verify the whole file and file it in the tree, which answers `filed`: the entry is there now, or
why it is not. -/
def finish (sha256 : List UInt8 → List UInt8) (id : Uuid) (expected : List UInt8)
    (filed : Except TreeError Unit) : UploadCall Unit := do
  quietly (.call .save saveProgress)
  match ← (Prog.call .hash (hashFile sha256 id) : UploadCall _).attempt with
  | .error e => do
    abort id
    .fail e
  | .ok actual =>
    if actual ≠ expected then do
      abort id
      .fail .fileHashMismatch
    else match filed with
      | .error e => do
        -- a busy database says nothing against the upload
        if TreeError.isStorage e then release else abort id
        .fail (.tree e)
      | .ok () => do
        fileEntry id
        let renamed ← (Prog.call (.promote id) (promote id) : UploadCall Unit).attempt
        match renamed with
        | .error e => do
          -- the tree would list a file without bytes
          quietly (.call .withdraw (withdraw id))
          release
          .fail e
        | .ok () => do
          quietly (.call (.deleteRow id) (deleteRow id))
          dropUpload

/-! ### Sweeping -/

/-- Discard the listed uploads that are not live. -/
def discardAll : List PendingTransfer → UploadCall Unit
  | [] => pure ()
  | row :: rows => do
    let _ ← discardIdle row.id
    discardAll rows

/-- Remove the partial files that have no row. -/
def sweepOrphanParts : List Uuid → UploadCall Unit
  | [] => pure ()
  | id :: ids => do
    if ← holding id then
      let row ← (Prog.call .lookup (onTable (TransferState.get id) fun _ own => own) :
        UploadCall (Option TransferRow)).attempt
      match row with
      | .ok none => do
        removeQuietly id
        dropHold
        sweepOrphanParts ids
      | .ok (some _) => do
        dropHold
        sweepOrphanParts ids
      -- the database fails, so the rest is left for another time
      | .error _ => dropHold
    else sweepOrphanParts ids

/-- Delete unfinished uploads untouched for so long, and partial files no upload owns: those of the
directory, as it lists them. -/
def sweep (olderThan : ℕ) (directory : List Uuid) : UploadCall Unit := do
  let rows ← (Prog.call .listStale (fun s =>
    onTable (TransferState.listStale olderThan s.1.clock) (fun _ own => own) s) :
      UploadCall (List PendingTransfer)).attempt
  match rows with
  | .ok rows => discardAll rows
  | .error _ => pure ()
  sweepOrphanParts directory

/-! ### Deleting files -/

/-- Take entries out of the tree. Returns those that were there. -/
def unfile (ids : List Uuid) : UploadCall (List Uuid) :=
  .step .unfile (fun s => (ids.filter fun id => id ∈ s.1.filed,
    { s.1 with filed := s.1.filed \ ids.toFinset }, s.2)) pure

/-- Remove a finished file, if it is there. -/
def unlink (id : Uuid) : Fallible (UploadStore × UploadTask) TransferError Unit := fun s =>
  if s.1.disk.headD false then .error .io ({ s.1 with disk := s.1.disk.tail }, s.2)
  else .ok () ({ s.1 with blobs := Function.update s.1.blobs id none, disk := s.1.disk.tail }, s.2)

/-- Remove some partial files. -/
def unlinkAll : List Uuid → UploadCall Unit
  | [] => pure ()
  | id :: ids => do
    quietly (.call (.unlink id) (unlink id))
    unlinkAll ids

/-- Files are deleted: their entries first, then their bytes. -/
def deleteFiles (ids : List Uuid) : UploadCall Unit := do
  let gone ← unfile ids
  unlinkAll gone

/-! ### Orphaned files -/

/-- Hold those of the ids that nobody has. -/
def holdEach : List Uuid → UploadCall (List Uuid)
  | [] => pure []
  | id :: ids => do
    let held ← holding id
    let rest ← holdEach ids
    return if held then id :: rest else rest

/-- Let go of what is held, one after another. -/
def dropHolds : List Uuid → UploadCall Unit
  | [] => pure ()
  | _ :: ids => do
    dropHold
    dropHolds ids

/-- The files that entries refer to. -/
def referencedBlobs : Fallible (UploadStore × UploadTask) TransferError (Finset Uuid) := fun s =>
  match (query fun _ => ()).run s.1.pool with
  | .ok () pool => .ok s.1.filed ({ s.1 with pool },
      { s.2 with unnamed := s.2.holds.filter fun id => id ∉ s.1.filed })
  | .error e pool => .error (.storage e) ({ s.1 with pool }, s.2)

/-- Find which of the held ids have no row. -/
def unfinishedIds : Fallible (UploadStore × UploadTask) TransferError (List Uuid) :=
  onTable TransferState.allIds fun ids own =>
    { own with unowned := own.holds.filter fun id => id ∉ ids }

/-- Move a file away, if it is still there and the name is free. -/
def moveOrphan (now : ℕ) (id : Uuid) : Fallible (UploadStore × UploadTask) TransferError Unit :=
  fun s =>
  match s.1.blobs id with
  | none => .ok () s
  | some bytes =>
    if (id, now) ∈ s.1.quarantine.map Prod.fst then .ok () s
    else if s.1.disk.headD false then .error .io ({ s.1 with disk := s.1.disk.tail }, s.2)
    else .ok () ({ s.1 with
      blobs := Function.update s.1.blobs id none
      quarantine := s.1.quarantine ++ [((id, now), bytes)]
      disk := s.1.disk.tail }, s.2)

/-- Move some files into the quarantine. -/
def moveOrphans (now : ℕ) : List Uuid → UploadCall Unit
  | [] => pure ()
  | id :: ids => do
    quietly (.call (.quarantine id) (moveOrphan now id))
    moveOrphans now ids

/-- Move the files that are neither referenced nor unfinished into the quarantine. -/
def quarantineHeld (now : ℕ) (candidates : List Uuid) : UploadCall Unit := do
  let referenced ← .call .readTree referencedBlobs
  let unfinished ← .call .readIds unfinishedIds
  let orphans := candidates.filter fun id => id ∉ referenced ∧ id ∉ unfinished
  if orphans = [] then pure ()
  else do
    .call .prepare (onDisk some fun own => own)
    moveOrphans now orphans

/-- Move the files that no entry references and no upload owns into the quarantine. The ids are held
before anything is read, so that none of them is filed meanwhile. -/
def quarantineOrphanBlobs (now : ℕ) (directory : List Uuid) : UploadCall Unit :=
  if directory = [] then pure ()
  else do
    let candidates ← holdEach directory
    quietly (quarantineHeld now candidates)
    dropHolds candidates

/-- Delete a file of the quarantine. -/
def purge (name : Uuid × ℕ) : Fallible (UploadStore × UploadTask) TransferError Unit := fun s =>
  if s.1.disk.headD false then .error .io ({ s.1 with disk := s.1.disk.tail }, s.2)
  else .ok () ({ s.1 with
    quarantine := s.1.quarantine.filter fun e => e.1 ≠ name, disk := s.1.disk.tail }, s.2)

/-- Delete those of the files that have been there for long enough. -/
def purgeEach (now retention : ℕ) : List (Uuid × ℕ) → UploadCall Unit
  | [] => pure ()
  | name :: names =>
    if now - name.2 < retention then purgeEach now retention names
    else do
      quietly (.call .purge (purge name))
      purgeEach now retention names

/-- Delete from the quarantine what was in it long enough. -/
def purgeQuarantine (now retention : ℕ) : UploadCall Unit := do
  let names ← .step .purge (fun s => (s.1.quarantine.map Prod.fst, s)) pure
  purgeEach now retention names

/-- Move the files without entries away, and delete the old ones among them. -/
def sweepOrphanBlobs (now : ℕ) (retention : Option ℕ) (directory : List Uuid) :
    UploadCall Unit := do
  quarantineOrphanBlobs now directory
  match retention with
  | some retention => purgeQuarantine now retention
  | none => pure ()

/-! ### Requests -/

/-- How a connection lets go of an upload. -/
inductive Ending
  | release
  | drop
  | abort
  | finish (filed : Except TreeError Unit)

/-- What is asked for: an upload's time on one connection, that files be deleted, a sweep, or that
time passes. -/
inductive UploadRequest
  | begin (request : BeginRequest) (chunks : List ChunkRequest) (ending : Ending)
  | resume (request : ResumeRequest) (chunks : List ChunkRequest) (ending : Ending)
  | delete (ids : List Uuid)
  | sweep (olderThan : ℕ) (directory : List Uuid)
  | sweepBlobs (now : ℕ) (retention : Option ℕ) (directory : List Uuid)
  | tick

section Serve

variable (sha256 : List UInt8 → List UInt8) (limits : TransferLimits)

/-- End an upload. -/
def letGo (accept : AcceptInfo) : Ending → UploadCall Unit
  | .release => release
  | .drop => dropUpload
  | .abort => abort accept.transferId
  | .finish filed => finish sha256 accept.transferId accept.sha256 filed

/-- What a request does. -/
def serveUploads : UploadRequest → UploadCall Unit
  | .begin request chunks ending => do
    let accept ← beginUpload limits request
    writeChunks sha256 limits chunks
    letGo sha256 accept ending
  | .resume request chunks ending => do
    let accept ← resumeUpload limits request
    writeChunks sha256 limits chunks
    letGo sha256 accept ending
  | .delete ids => deleteFiles ids
  | .sweep olderThan directory => sweep olderThan directory
  | .sweepBlobs now retention directory => sweepOrphanBlobs now retention directory
  | .tick => .step .tick (fun s => ((), { s.1 with clock := s.1.clock + 1 }, s.2)) pure

/-- The server: what is shared, and every task with what it has left to do. -/
abbrev UploadServer : Type 1 := Tasks UploadStore UploadTask UploadStep TransferError

/-- Take a turn. -/
def UploadServer.Takes (c : UploadServer) (turn : Foundations.Turn UploadRequest)
    (c' : UploadServer) : Prop :=
  Tasks.take (serveUploads sha256 limits) .idle c turn = some c'

end Serve

end Transfer

end KdxHotline
