import KdxHotline.Transfer.Store

/-!
# What a step of an upload does

Every step of every function of `KdxHotline.Transfer.serveUploads` is one of a few moves
(`KdxHotline.Transfer.UploadMove`): the books change, or one row, or one partial file, and a task
knows which claim it has when it touches either
(`KdxHotline.Transfer.moves_serveUploads`). Each invariant of the uploads is proved over the moves.

The first one is that the books stand for the claims and holds that the tasks have
(`KdxHotline.Transfer.Booked`), so that no two tasks touch the row or the partial file of one id
(`KdxHotline.Transfer.Booked.apart`).
-/

namespace KdxHotline

namespace Transfer

open Foundations Storage Files

/-! ### Tasks -/

namespace UploadTask

/-- The claim is for the upload of this id. -/
def Claims (own : UploadTask) (id : Uuid) : Prop :=
  ∃ accountId destination bytes, own.claim = some (.upload accountId id destination bytes)

/-- Nobody else may touch the row and the partial file of this id. -/
def Holds (own : UploadTask) (id : Uuid) : Prop := own.Claims id ∨ id ∈ own.holds

/-- No id is held, and nothing was read for those that are. -/
def Free (own : UploadTask) : Prop :=
  own.holds = [] ∧ own.unnamed = [] ∧ own.unowned = []

theorem Free.holds {own : UploadTask} (h : own.Free) : own.holds = [] := h.1

theorem Free.unread {own : UploadTask} (h : own.Free) :
    own.unnamed = [] ∧ own.unowned = [] := h.2

/-- There is nothing to give back. -/
structure Vacant (own : UploadTask) : Prop where
  claim : own.claim = none
  free : own.Free
  listing : own.listing = none
  file : own.file = none
  upload : own.upload = none

theorem vacant_idle : UploadTask.idle.Vacant := ⟨rfl, ⟨rfl, rfl, rfl⟩, rfl, rfl, rfl⟩

end UploadTask

namespace ActiveUpload

/-- The bytes that the upload may still write, as a resume counts them. -/
def remaining (u : ActiveUpload) : ℕ := u.size - u.received * u.chunkSize

/-- The upload of a row. -/
def ofRow (row : TransferRow) (total : ℕ) : ActiveUpload where
  id := row.id
  size := rowSize row
  chunkSize := rowChunkSize row
  totalChunks := total
  expectedSha256 := row.sha256
  bitmap := Bits.resizeBytes total row.bitmap
  received := countChunks (Bits.resizeBytes total row.bitmap) total
  unsaved := 0

end ActiveUpload

/-- The row can be resumed, and its file takes so many chunks. -/
def Resumable (row : TransferRow) (total : ℕ) : Prop :=
  checkUploadShape (rowSize row) (rowChunkSize row) = .ok total

/-- The row and the upload that begin together. -/
structure Begun (row : TransferRow) (u : ActiveUpload) : Prop where
  id : u.id = row.id
  size : row.size = u.size
  chunkSize : row.chunkSize = u.chunkSize
  shape : checkUploadShape u.size u.chunkSize = .ok u.totalChunks
  bitmap : u.bitmap = List.replicate (Bits.bytesFor u.totalChunks) 0
  row_bitmap : row.bitmap = u.bitmap
  received : u.received = 0
  unsaved : u.unsaved = 0

/-! ### Moves -/

/-- Nothing changed about unfinished uploads. -/
structure UploadStore.Beside (s s' : UploadStore) : Prop where
  live : s'.live = s.live
  db : s'.pool.db = s.pool.db
  parts : s'.parts = s.parts
  stored : s'.stored = s.stored
  partings : s'.partings = s.partings

/-- Nothing changed but the clock and what is still to fail. -/
structure UploadStore.Same (s s' : UploadStore) : Prop extends s.Beside s' where
  blobs : s'.blobs = s.blobs
  filed : s'.filed = s.filed
  quarantine : s'.quarantine = s.quarantine

/-- Nothing changed but the table. -/
def UploadStore.OnTable (s s' : UploadStore) : Prop := s' = { s with pool := s'.pool }

/-- Nothing changed but the files. -/
def UploadStore.OnDisk (s s' : UploadStore) : Prop :=
  s' = { s with parts := s'.parts, blobs := s'.blobs, disk := s'.disk }

section Frames

variable {s s' : UploadStore}

theorem UploadStore.OnTable.eq (h : s.OnTable s') : s' = { s with pool := s'.pool } := h

theorem UploadStore.OnDisk.eq (h : s.OnDisk s') :
    s' = { s with parts := s'.parts, blobs := s'.blobs, disk := s'.disk } := h

theorem UploadStore.OnTable.live (h : s.OnTable s') : s'.live = s.live := by rw [h.eq]

theorem UploadStore.OnTable.parts (h : s.OnTable s') : s'.parts = s.parts := by rw [h.eq]

theorem UploadStore.OnTable.stored (h : s.OnTable s') : s'.stored = s.stored := by rw [h.eq]

theorem UploadStore.OnTable.partings (h : s.OnTable s') : s'.partings = s.partings := by rw [h.eq]

theorem UploadStore.OnTable.filed (h : s.OnTable s') : s'.filed = s.filed := by rw [h.eq]

theorem UploadStore.OnDisk.filed (h : s.OnDisk s') : s'.filed = s.filed := by rw [h.eq]

theorem UploadStore.OnDisk.live (h : s.OnDisk s') : s'.live = s.live := by rw [h.eq]

theorem UploadStore.OnDisk.pool (h : s.OnDisk s') : s'.pool = s.pool := by rw [h.eq]

theorem UploadStore.OnDisk.stored (h : s.OnDisk s') : s'.stored = s.stored := by rw [h.eq]

theorem UploadStore.OnDisk.partings (h : s.OnDisk s') : s'.partings = s.partings := by rw [h.eq]

end Frames

/-- What a row says of its upload. -/
def SameUpload (r r' : TransferRow) : Prop :=
  r'.id = r.id ∧ r'.accountId = r.accountId ∧ r'.size = r.size ∧ r'.chunkSize = r.chunkSize ∧
    r'.bitmap = r.bitmap

/-- What a step may do about the files that are finished. -/
inductive BlobMove : UploadStep → UploadStore × UploadTask → UploadStore × UploadTask → Prop
  | filed {s own id} (hclaims : own.Claims id) :
      BlobMove .file (s, own) ({ s with filed := insert id s.filed }, own)
  | withdrawn {s own id pool} (hclaims : own.Claims id) (hdb : pool.db = s.pool.db) :
      BlobMove .withdraw (s, own) ({ s with pool, filed := s.filed.erase id }, own)
  | unfiled {s own} (ids : Finset Uuid) :
      BlobMove .unfile (s, own) ({ s with filed := s.filed \ ids }, own)
  | unlinked {s own id disk} :
      BlobMove (.unlink id) (s, own)
        ({ s with blobs := Function.update s.blobs id none, disk }, own)
  | readTree {s s' own} (hclaim : own.claim = none) (hsame : s.Same s') :
      BlobMove .readTree (s, own)
        (s', { own with unnamed := own.holds.filter fun id => id ∉ s.filed })
  | readIds {s s' own} (hclaim : own.claim = none) (hsame : s.Same s') :
      BlobMove .readIds (s, own) (s', { own with
        unowned := own.holds.filter fun id => id ∉ s.pool.db.rows.map TransferRow.id })
  | quarantined {s own id now bytes disk} (hunnamed : id ∈ own.unnamed)
      (hunowned : id ∈ own.unowned)
      (hblob : s.blobs id = some bytes) :
      BlobMove (.quarantine id) (s, own) ({ s with
        blobs := Function.update s.blobs id none
        quarantine := s.quarantine ++ [((id, now), bytes)]
        disk }, own)
  | purged {s own quarantine disk} (hsublist : quarantine.Sublist s.quarantine) :
      BlobMove .purge (s, own) ({ s with quarantine, disk }, own)

/-- What a step may do. -/
inductive UploadMove (sha256 : List UInt8 → List UInt8) (limits : TransferLimits) :
    UploadStep → UploadStore × UploadTask → UploadStore × UploadTask → Prop
  /-- Nothing that matters. -/
  | quiet {label s s' own own'} (hsame : s.Same s')
      (hown : own' = own ∨
        label = .save ∧ s.pool.faults.headD false = true ∧ own' = { own with failed := true }) :
      UploadMove sha256 limits label (s, own) (s', own')
  | claimed {s own accountId id destination bytes available claim name live} (hvacant : own.Vacant)
      (hclaim : Returns (claimUpload limits accountId id destination bytes available) s.live
        (claim, name) live)
      (hrow : ∀ row ∈ own.row, ∃ total, Resumable row total ∧ id = row.id ∧
        bytes = (ActiveUpload.ofRow row total).remaining) :
      UploadMove sha256 limits (.claim bytes) (s, own)
        ({ s with live }, { own with claim := some claim })
  | dropped {s own claim} (hclaim : own.claim = some claim) (hfree : own.Free)
      (hsaved : ∀ u ∈ own.upload, u.unsaved = 0 ∨ own.failed = true) :
      UploadMove sha256 limits .dropClaim (s, own) (s.dropClaim own, .idle)
  | held {s own id} (hunread : own.unnamed = [] ∧ own.unowned = [])
      (hfree : id ∉ s.live.held) :
      UploadMove sha256 limits .hold (s, own)
        ({ s with live := s.live.holdId id }, { own with holds := own.holds ++ [id] })
  | unheld {s own id ids} (hholds : own.holds = id :: ids) :
      UploadMove sha256 limits .dropHold (s, own)
        ({ s with live := s.live.release (.hold id) },
          { own with holds := ids, unnamed := [], unowned := [] })
  | listed {s s' own accountId id destination bytes} {ids : List Uuid}
      (hclaim : own.claim = some (.upload accountId id destination bytes))
      (hlisting : own.listing = none)
      (hsame : s.Same s') (hids : ids.Perm ((s.pool.db.ofAccount accountId).map TransferRow.id)) :
      UploadMove sha256 limits (.list accountId) (s, own) (s', { own with
        listing := some ⟨accountId, ids.toFinset,
          ids.length + 1 - max limits.maxOpenUploadsPerAccount 1⟩ })
  | deleted {s s' own id} (hholds : own.Holds id) (hfile : own.file = none)
      (hrow : own.row = none ∨ own.claim = none ∨ own.upload ≠ none)
      (hlisted : ∀ l ∈ own.listing, id ∈ l.pending)
      (hrows : s'.pool.db.rows = s.pool.db.rows.filter fun r => r.id ≠ id)
      (hframe : s' = { s with
        pool := s'.pool, partings := s.partings.filter fun p => p.1 ≠ id }) :
      UploadMove sha256 limits (.deleteRow id) (s, own)
        (s', { own with listing := own.listing.map (Listing.discarded id) })
  /-- The row could not be deleted. -/
  | undeleted {s s' own id} (hfault : s.pool.faults.headD false = true) (hsame : s.Same s') :
      UploadMove sha256 limits (.deleteRow id) (s, own)
        (s', { own with listing := own.listing.map (Listing.discarded id) })
  /-- A partial file is removed, or has become a finished one. -/
  | removed {label s s' own} {id : Uuid} (hholds : own.Holds id) (hfile : own.file = none)
      (hframe : s.OnDisk s')
      (hparts : s'.parts = Function.update s.parts id none) :
      UploadMove sha256 limits label (s, own) (s', own)
  /-- A partial file was created, but has no size yet. -/
  | parted {s s' own} {id : Uuid} (hclaims : own.Claims id) (hrow : own.row = none)
      (hfile : own.file = none) (hupload : own.upload = none) (hframe : s.OnDisk s')
      (hparts : ∀ j, j ≠ id → s'.parts j = s.parts j) :
      UploadMove sha256 limits (.createPart id) (s, own) (s', own)
  | sized {s s' own accountId destination size} {id : Uuid}
      (hclaim : own.claim = some (.upload accountId id destination size)) (hrow : own.row = none)
      (hupload : own.upload = none) (hframe : s.OnDisk s')
      (hparts : s'.parts = Function.update s.parts id (some (List.replicate size 0))) :
      UploadMove sha256 limits (.createPart id) (s, own) (s', { own with file := some (id, size) })
  | created {s s' own row now u destination ids} (hbegun : Begun row u)
      (hclaim : own.claim = some (.upload row.accountId row.id destination u.size))
      (hrow : own.row = none) (hfile : own.file = some (row.id, u.size))
      (hlisting : own.listing = some ⟨row.accountId, ids, 0⟩) (hframe : s.OnTable s')
      (hnew : s.pool.db.row row.id = none)
      (hrows : s'.pool.db.rows = s.pool.db.rows ++ [{ row with updatedAt := now }]) :
      UploadMove sha256 limits .createRow (s, own)
        (s', { own with listing := none, upload := some u })
  | uncreated {s s' own} (hupload : own.upload = none) (hrow : own.row = none) (hsame : s.Same s') :
      UploadMove sha256 limits .createRow (s, own) (s', { own with file := none })
  | read {s s' own id} (hvacant : own.Vacant) (hsame : s.Same s') :
      UploadMove sha256 limits .readRow (s, own) (s', { own with row := s.pool.db.row id })
  | rewritten {s s' own id f} (hclaims : own.Claims id) (hupload : own.upload = none)
      (hf : ∀ r, SameUpload r (f r)) (hframe : s.OnTable s')
      (hrows : s'.pool.db.rows = setWhere (fun r => r.id = id) f s.pool.db.rows) :
      UploadMove sha256 limits .rewriteRow (s, own) (s', own)
  | opened {s s' own row bytes} (hrow : own.row = some row) (hclaims : own.Claims row.id)
      (hupload : own.upload = none) (hsame : s.Same s') (hpart : s.parts row.id = some bytes)
      (hsize : bytes.length = rowSize row) :
      UploadMove sha256 limits .openPart (s, own)
        (s', { own with file := some (row.id, rowSize row) })
  /-- The partial file could not be opened. -/
  | unopened {s s' own} (hclaim : own.claim ≠ none) (hupload : own.upload = none)
      (hsame : s.Same s') :
      UploadMove sha256 limits .openPart (s, own) (s', { own with row := none })
  | started {s own row total accountId destination} (hrow : own.row = some row)
      (hresumable : Resumable row total)
      (hclaim : own.claim = some (.upload accountId row.id destination
        (ActiveUpload.ofRow row total).remaining))
      (hfile : own.file = some (row.id, rowSize row)) (hupload : own.upload = none) :
      UploadMove sha256 limits .start (s, own)
        (s, { own with upload := some (ActiveUpload.ofRow row total) })
  /-- A chunk could not be written, or not all of it. -/
  | torn {s own u chunk} (hupload : own.upload = some u) (hfile : own.file = some (u.id, u.size))
      (hclaims : own.Claims u.id) (hcheck : checkChunk sha256 u chunk = .ok ())
      (hnew : hasChunk u.bitmap chunk.index = false) :
      UploadMove sha256 limits .store (s, own)
        (s.write u chunk.index (chunk.data.take chunk.torn), own)
  | stored {s own u chunk} (hupload : own.upload = some u) (hfile : own.file = some (u.id, u.size))
      (hclaims : own.Claims u.id) (hcheck : checkChunk sha256 u chunk = .ok ())
      (hnew : hasChunk u.bitmap chunk.index = false) :
      UploadMove sha256 limits .store (s, own)
        ({ s.write u chunk.index chunk.data with
            stored := s.stored ++ [(u.id, chunk.index, chunk.data)] },
          { own with upload := some (u.receive chunk.index) })
  | saved {s s' own u now} (hupload : own.upload = some u) (hclaims : own.Claims u.id)
      (hframe : s.OnTable s')
      (hrows : s'.pool.db.rows = setWhere (fun r => r.id = u.id)
        (fun r => { r with bitmap := u.bitmap, updatedAt := now }) s.pool.db.rows) :
      UploadMove sha256 limits .save (s, own)
        (s', { own with upload := some { u with unsaved := 0 } })
  | closed {label s s' own} (hsame : s.Same s') (hupload : own.upload ≠ none) :
      UploadMove sha256 limits label (s, own) (s', { own with file := none })
  | forgotten {s own} : UploadMove sha256 limits .close (s, own)
      (s, { own with upload := none, file := none, row := none })
  | beside {label s s' own own'} (hblobs : BlobMove label (s, own) (s', own')) :
      UploadMove sha256 limits label (s, own) (s', own')

/-! ### What single steps do -/

section Steps

variable {α : Type} {x : Fallible TransferPool StorageError α} {next : α → UploadTask → UploadTask}
  {s t : UploadStore × UploadTask} {a : α} {e : TransferError}
  {y : (Uuid → Option (List UInt8)) → Option (Uuid → Option (List UInt8))}
  {note : UploadTask → UploadTask}

/-- A statement that returns has changed the table, and gone on as it says. -/
theorem returns_onTable (h : Returns (onTable x next) s a t) : ∃ pool,
    Returns x s.1.pool a pool ∧ t = ({ s.1 with pool }, next a s.2) := by
  simp only [Returns, onTable, EStateM.run] at h ⊢
  cases hx : x s.1.pool with
  | ok b pool =>
    rw [hx] at h
    cases h
    exact ⟨pool, rfl, rfl⟩
  | error e' pool =>
    rw [hx] at h
    cases h

/-- A statement that fails changes nothing of the task. -/
theorem fails_onTable (h : Fails (onTable x next) s e t) : ∃ e' pool,
    Fails x s.1.pool e' pool ∧ t = ({ s.1 with pool }, s.2) := by
  simp only [Fails, onTable, EStateM.run] at h ⊢
  cases hx : x s.1.pool with
  | ok b pool =>
    rw [hx] at h
    cases h
  | error e' pool =>
    rw [hx] at h
    cases h
    exact ⟨e', pool, rfl, rfl⟩

/-- A write that returns has changed the partial files, and is noted. -/
theorem returns_onDisk {u : Unit} (h : Returns (onDisk y note) s u t) : ∃ parts,
    y s.1.parts = some parts ∧ t = ({ s.1 with parts, disk := s.1.disk.tail }, note s.2) := by
  simp only [Returns, onDisk, EStateM.run] at h
  split at h
  · cases h
  · cases hy : y s.1.parts with
    | none =>
      rw [hy] at h
      cases h
    | some parts =>
      rw [hy] at h
      cases h
      exact ⟨parts, rfl, rfl⟩

/-- A write that fails changes nothing of the task. -/
theorem fails_onDisk (h : Fails (onDisk y note) s e t) :
    t = ({ s.1 with disk := s.1.disk.tail }, s.2) := by
  simp only [Fails, onDisk, EStateM.run] at h
  split at h
  · cases h
    rfl
  · cases hy : y s.1.parts with
    | none =>
      rw [hy] at h
      cases h
      rfl
    | some parts =>
      rw [hy] at h
      cases h

/-- A statement that can only fail for reasons of its own. -/
theorem fault_of_fails_statement {f : TransferTable → Except StorageError (α × TransferTable)}
    {p q : TransferPool} {e : StorageError} (hok : ∀ db, ∃ r, f db = .ok r)
    (h : Fails (statement f) p e q) : p.faults.headD false = true := by
  by_contra hquiet
  obtain ⟨⟨b, db⟩, hf⟩ := hok p.db
  have hret := statement_returns (Bool.eq_false_iff.mpr hquiet) hf
  rcases fails_statement h with rfl | he
  · have hclash : EStateM.Result.ok b _ = EStateM.Result.error _ _ := hret.symm.trans h
    cases hclash
  · rw [hf] at he
    cases he

theorem fails_query {f : TransferTable → α} {p q : TransferPool} {e : StorageError}
    (h : Fails (query f) p e q) : p.faults.headD false = true ∧ q.db = p.db :=
  ⟨fault_of_fails_statement (fun _ => ⟨_, rfl⟩) h, (query_keeps f).fails h⟩

theorem fails_rewrite {id : Uuid} {f : TransferRow → TransferRow} {hf : ∀ r, (f r).id = r.id}
    {p q : TransferPool} {e : StorageError} (h : Fails (TransferState.rewrite id f hf) p e q) :
    p.faults.headD false = true ∧ q.db = p.db :=
  ⟨fault_of_fails_statement (fun _ => ⟨_, rfl⟩) h, (statement_atomic _).fails h⟩

theorem same_pool {s : UploadStore} {pool : TransferPool} (h : pool.db = s.pool.db) :
    s.Same { s with pool } := ⟨⟨rfl, h, rfl, rfl, rfl⟩, rfl, rfl, rfl⟩

theorem same_disk (s : UploadStore) (disk : List Bool) : s.Same { s with disk } :=
  ⟨⟨rfl, rfl, rfl, rfl, rfl⟩, rfl, rfl, rfl⟩

/-- Nothing of a task changes but what was read of finished files. -/
theorem BlobMove.frame {label : UploadStep} {s s' : UploadStore} {own own' : UploadTask}
    (h : BlobMove label (s, own) (s', own')) : s.Beside s' ∧
      own' = { own with unnamed := own'.unnamed, unowned := own'.unowned } := by
  cases h with
  | filed | unfiled | unlinked | quarantined | purged => exact ⟨⟨rfl, rfl, rfl, rfl, rfl⟩, rfl⟩
  | withdrawn hclaims hdb => exact ⟨⟨rfl, hdb, rfl, rfl, rfl⟩, rfl⟩
  | readTree _ hsame | readIds _ hsame => exact ⟨hsame.toBeside, rfl⟩

end Steps

/-! ### What the functions do -/

section Moves

variable {sha256 : List UInt8 → List UInt8} {limits : TransferLimits} {α : Type}
  {E : TransferError → UploadTask → Prop} {own : UploadTask} {id : Uuid} {u : ActiveUpload}

theorem moves_quietly {Q : UploadTask → Prop} {x : UploadCall Unit}
    (h : x.Moves (UploadMove sha256 limits) (fun _ => Q) (fun _ => Q) own) :
    (quietly x).Moves (UploadMove sha256 limits) (fun _ => Q) E own := by
  refine Prog.Moves.bind h.attempt fun r own' hown => Prog.moves_pure ?_
  cases r <;> exact hown

/-- A statement that only reads. -/
theorem moves_query {label : UploadStep} {f : TransferTable → α}
    {next : α → UploadTask → UploadTask}
    {Q : α → UploadTask → Prop} (hfailed : ∀ e, E e own)
    (h : ∀ {s s' : UploadStore}, s.Same s' → UploadMove sha256 limits label (s, own)
        (s', next (f s.pool.db) own) ∧ Q (f s.pool.db) (next (f s.pool.db) own)) :
    (Prog.call label (onTable (query f) next) : UploadCall α).Moves (UploadMove sha256 limits) Q E
      own := by
  refine Prog.moves_call (fun s a t hret => ?_) fun s e t hfail => ?_
  · obtain ⟨pool, hquery, rfl⟩ := returns_onTable hret
    obtain ⟨rfl, hdb⟩ := returns_query hquery
    exact h (same_pool hdb)
  · obtain ⟨e', pool, hquery, rfl⟩ := fails_onTable hfail
    exact ⟨.quiet (same_pool (fails_query hquery).2) (.inl rfl), hfailed e⟩

theorem moves_dropClaim {claim : ClaimKind} (hclaim : own.claim = some claim) (hfree : own.Free)
    (hsaved : ∀ u ∈ own.upload, u.unsaved = 0 ∨ own.failed = true) :
    dropClaim.Moves (UploadMove sha256 limits) (fun _ own' => own' = .idle) E own :=
  Prog.moves_step fun _ => ⟨.dropped hclaim hfree hsaved, rfl⟩

/-- Holding an id, if it is free. -/
theorem moves_holding (hunread : own.unnamed = [] ∧ own.unowned = []) :
    (holding id).Moves (UploadMove sha256 limits)
      (fun held own' => own' = if held then { own with holds := own.holds ++ [id] }
        else own) E own := by
  refine Prog.moves_step fun s => ?_
  by_cases hfree : id ∈ s.live.held
  · simp only [hold, if_pos hfree]
    exact ⟨.quiet (same_disk s s.disk) (.inl rfl), rfl⟩
  · simp only [hold, if_neg hfree]
    exact ⟨.held hunread hfree, rfl⟩

theorem moves_dropHold {ids : List Uuid} (hholds : own.holds = id :: ids) :
    dropHold.Moves (UploadMove sha256 limits)
      (fun _ own' => own' = { own with holds := ids, unnamed := [], unowned := [] }) E own := by
  refine Prog.moves_step fun s => ?_
  simp only [hholds]
  exact ⟨.unheld hholds, trivial⟩

/-- The one id that is held is let go of. -/
theorem moves_dropOne (hholds : own.holds = [id])
    (hunread : own.unnamed = [] ∧ own.unowned = []) :
    dropHold.Moves (UploadMove sha256 limits)
      (fun _ own' => own' = { own with holds := [] }) E own := by
  refine (moves_dropHold hholds).mono ?_ fun _ _ he => he
  rintro - own' rfl
  rw [hunread.1, hunread.2]

/-- One id is held by a task that holds none. -/
theorem moves_holdingOne (hfree : own.Free) :
    (holding id).Moves (UploadMove sha256 limits)
      (fun held own' => own' = if held then { own with holds := [id] } else own) E own := by
  have h : (holding id).Moves (UploadMove sha256 limits) _ E own :=
    moves_holding hfree.unread
  rw [hfree.holds] at h
  exact h

theorem moves_removeQuietly (hholds : own.Holds id) (hfile : own.file = none) :
    (removeQuietly id).Moves (UploadMove sha256 limits) (fun _ own' => own' = own) E own := by
  refine moves_quietly (Prog.moves_call (fun s a t hret => ?_) fun s e t hfail => ?_)
  · obtain ⟨parts, hparts, rfl⟩ := returns_onDisk hret
    exact ⟨.removed hholds hfile rfl (Option.some.inj hparts).symm, rfl⟩
  · obtain rfl := fails_onDisk hfail
    exact ⟨.quiet (same_disk s _) (.inl rfl), rfl⟩

/-- What a task is left with that deleted a row, or could not. -/
def Discarded (id : Uuid) (own own' : UploadTask) : Prop :=
  own' = { own with listing := own.listing.map (Listing.discarded id) }

/-- What a task has that deletes the row of an id. -/
structure Discarding (id : Uuid) (own : UploadTask) : Prop where
  holds : own.Holds id
  file : own.file = none
  row : own.row = none ∨ own.claim = none ∨ own.upload ≠ none
  listed : ∀ l ∈ own.listing, id ∈ l.pending

/-- Deleting the row of an upload that is discarded. -/
theorem moves_deleteRow (h : Discarding id own) :
    (Prog.call (.deleteRow id) (deleteRow id) : UploadCall Unit).Moves (UploadMove sha256 limits)
      (fun _ => Discarded id own) (fun _ => Discarded id own) own := by
  refine Prog.moves_call (fun s a t hret => ?_) fun s e t hfail => ?_
  · simp only [Returns, deleteRow, EStateM.run] at hret
    cases hx : TransferState.delete id s.pool with
    | ok b pool =>
      rw [hx] at hret
      cases hret
      exact ⟨.deleted h.holds h.file h.row h.listed (TransferState.delete_returns hx) rfl, rfl⟩
    | error e' pool =>
      rw [hx] at hret
      cases hret
  · simp only [Fails, deleteRow, EStateM.run] at hfail
    cases hx : TransferState.delete id s.pool with
    | ok b pool =>
      rw [hx] at hfail
      cases hfail
    | error e' pool =>
      rw [hx] at hfail
      cases hfail
      exact ⟨.undeleted (fault_of_fails_statement (fun db => ⟨_, rfl⟩) hx)
        (same_pool ((statement_atomic _).fails hx)), rfl⟩

theorem moves_discard (h : Discarding id own) :
    (discard id).Moves (UploadMove sha256 limits) (fun _ => Discarded id own) E own := by
  refine Prog.Moves.bind (moves_quietly (moves_deleteRow h)) ?_
  rintro - own' rfl
  have hholds :
      UploadTask.Holds { own with listing := own.listing.map (Listing.discarded id) } id :=
    h.holds
  exact moves_removeQuietly hholds h.file

/-- An upload is discarded that nobody works on. -/
theorem moves_discardIdle (h : own.Vacant) :
    (discardIdle id).Moves (UploadMove sha256 limits) (fun _ own' => own' = own) E own := by
  refine Prog.Moves.bind (moves_holdingOne h.free) ?_
  rintro held own₁ rfl
  cases held with
  | false => exact Prog.moves_pure rfl
  | true =>
    have hlisted : ∀ l ∈ own.listing, id ∈ l.pending := by
      rw [h.listing]
      exact nofun
    refine Prog.Moves.bind
      (moves_discard ⟨.inr (List.mem_singleton_self _), h.file, .inr (.inl h.claim), hlisted⟩) ?_
    rintro - own₂ rfl
    refine Prog.Moves.bind (moves_dropOne rfl h.free.unread) ?_
    rintro - own₃ rfl
    refine Prog.moves_pure ?_
    simp only [if_true, h.listing, Option.map_none]
    rw [← h.free.holds, ← h.listing]

/-- **Rows are discarded until there are none too many**, and the task keeps count. -/
theorem moves_discardExcess {rows : List PendingTransfer} {excess : ℕ} {l : Listing}
    (hlisting : own.listing = some l) (hexcess : l.excess = excess)
    (hpending : ∀ row ∈ rows, row.id ∈ l.pending) (hnodup : (rows.map PendingTransfer.id).Nodup)
    (hfree : own.Free) (hfile : own.file = none) (hrow : own.row = none) :
    (discardExcess rows excess).Moves (UploadMove sha256 limits)
      (fun n own' => ∃ l', l'.accountId = l.accountId ∧ l'.excess = n ∧
        own' = { own with listing := some l' }) E own := by
  induction rows generalizing own excess l with
  | nil =>
    refine Prog.moves_pure ⟨l, rfl, hexcess, ?_⟩
    rw [← hlisting]
  | cons row rows ih =>
    have hrest : ∀ row' ∈ rows, row'.id ∈ l.pending := fun row' hrow' =>
      hpending row' (List.mem_cons_of_mem _ hrow')
    obtain ⟨hfresh, hnodup'⟩ := List.nodup_cons.mp hnodup
    rw [discardExcess]
    by_cases hzero : excess = 0
    · rw [if_pos hzero]
      refine Prog.moves_pure ⟨l, rfl, hexcess.trans hzero, ?_⟩
      rw [← hlisting]
    rw [if_neg hzero]
    refine Prog.Moves.bind (moves_holdingOne hfree) ?_
    rintro held own₁ rfl
    cases held with
    | false => exact ih hlisting hexcess hrest hnodup' hfree hfile hrow
    | true =>
      have hlisted : ∀ l' ∈ own.listing, row.id ∈ l'.pending := fun l' hl' => by
        obtain rfl := Option.some.inj (hlisting.symm.trans hl')
        exact hpending row List.mem_cons_self
      refine Prog.Moves.bind
        (moves_discard ⟨.inr (List.mem_singleton_self _), hfile, .inl hrow, hlisted⟩) ?_
      rintro - own₂ rfl
      refine Prog.Moves.bind (moves_dropOne rfl hfree.unread) ?_
      rintro - own₃ rfl
      simp only [if_true, hlisting, Option.map_some]
      have hkept : ∀ row' ∈ rows, row'.id ∈ (l.discarded row.id).pending := fun row' hrow' =>
        Finset.mem_erase.mpr ⟨fun he => hfresh (he ▸ List.mem_map_of_mem hrow'), hrest row' hrow'⟩
      refine (@ih { own with holds := [], listing := some (l.discarded row.id) } (excess - 1) _ rfl
        (congrArg (· - 1) hexcess) hkept hnodup' ⟨rfl, hfree.unread⟩ hfile
          hrow).mono ?_ fun _ _ he => he
      rintro n own' ⟨l', haccount, hn, rfl⟩
      refine ⟨l', haccount, hn, ?_⟩
      rw [← hfree.holds]

/-- The claim of an upload, and what goes with it. -/
structure Holding (accountId : String) (id : Uuid) (bytes : ℕ) (row : Option TransferRow)
    (listing : Option Listing) (file : Option (Uuid × ℕ)) (own : UploadTask) : Prop where
  claim : ∃ destination, own.claim = some (.upload accountId id destination bytes)
  free : own.Free
  row : own.row = row
  listing : own.listing = listing
  file : own.file = file
  upload : own.upload = none

theorem Holding.claims {accountId : String} {bytes : ℕ} {row : Option TransferRow}
    {listing : Option Listing} {file : Option (Uuid × ℕ)}
    (h : Holding accountId id bytes row listing file own) : own.Claims id :=
  let ⟨destination, hclaim⟩ := h.claim
  ⟨accountId, destination, bytes, hclaim⟩

/-- Making room for one more upload. -/
theorem moves_makeRoomFor {accountId : String} {bytes : ℕ}
    (h : Holding accountId id bytes none none none own) :
    (makeRoomFor limits accountId).Moves (UploadMove sha256 limits)
      (fun _ own' => ∃ ids, Holding accountId id bytes none (some ⟨accountId, ids, 0⟩) none own')
      (fun _ own' => ∃ listing, Holding accountId id bytes none listing none own') own := by
  obtain ⟨destination, hclaim⟩ := h.claim
  refine Prog.Moves.bind (Q := fun rows own' => (rows.map PendingTransfer.id).Nodup ∧
    Holding accountId id bytes none (some ⟨accountId, (rows.map PendingTransfer.id).toFinset,
      rows.length + 1 - max limits.maxOpenUploadsPerAccount 1⟩) none own') (moves_query ?_ ?_) ?_
  · exact fun _ => ⟨none, h⟩
  · intro s s' hsame
    have hids : (((s.pool.db.ofAccount accountId).insertionSort fun a b =>
        a.updatedAt ≤ b.updatedAt).map TransferRow.pending |>.map PendingTransfer.id).Perm
          ((s.pool.db.ofAccount accountId).map TransferRow.id) := by
      rw [List.map_map]
      exact (List.perm_insertionSort _ _).map _
    refine ⟨?_, hids.nodup_iff.mpr (s.pool.db.rows_id.filter _),
      ⟨destination, hclaim⟩, h.free, h.row, rfl, h.file, h.upload⟩
    have hmove : UploadMove sha256 limits (.list accountId) (s, own) (s', _) :=
      .listed hclaim h.listing hsame hids
    rw [List.length_map] at hmove
    exact hmove
  rintro rows own₁ ⟨hnodup, h'⟩
  refine Prog.Moves.bind (moves_discardExcess h'.listing rfl 
    (fun row hrow => List.mem_toFinset.mpr (List.mem_map_of_mem hrow))
    hnodup h'.free h'.file h'.row) ?_
  rintro n own₂ ⟨l', haccount, rfl, rfl⟩
  have hown (l : Listing) : Holding accountId id bytes none (some l) none
      { own₁ with listing := some l } :=
    ⟨h'.claim, h'.free, h'.row, rfl, h'.file, h'.upload⟩
  refine Prog.moves_ofExcept (fun _ hfew => ?_) fun _ _ => ⟨_, hown l'⟩
  have hzero : l'.excess = 0 := by
    have hfew' := refuseIf_eq_ok.mp hfew
    exact Nat.eq_zero_of_not_pos (of_decide_eq_false hfew')
  obtain ⟨accountId', ids', excess⟩ := l'
  obtain rfl : accountId' = accountId := haccount
  obtain rfl : excess = 0 := hzero
  exact ⟨ids', hown _⟩

/-! ### Beginning and resuming -/

/-- **A claim is dropped when what follows it fails.** -/
theorem moves_droppingClaim {Q : α → UploadTask → Prop} {body : UploadCall α}
    (h : body.Moves (UploadMove sha256 limits) Q
      (fun _ own => (∃ claim, own.claim = some claim) ∧ own.Free ∧ own.upload = none) own) :
    (droppingClaim body).Moves (UploadMove sha256 limits) Q (fun _ own => own.Vacant) own := by
  refine Prog.Moves.bind h.attempt fun r own' hown => ?_
  cases r with
  | ok a => exact Prog.moves_pure hown
  | error e =>
    obtain ⟨⟨claim, hclaim⟩, hfree, hupload⟩ := hown
    refine Prog.Moves.bind (moves_dropClaim hclaim hfree ?_) ?_
    · rw [hupload]
      exact nofun
    · rintro - own'' rfl
      exact Prog.moves_fail UploadTask.vacant_idle

theorem Holding.dropping {accountId : String} {bytes : ℕ} {row : Option TransferRow}
    {listing : Option Listing} {file : Option (Uuid × ℕ)}
    (h : Holding accountId id bytes row listing file own) :
    (∃ claim, own.claim = some claim) ∧ own.Free ∧ own.upload = none :=
  let ⟨_, hclaim⟩ := h.claim
  ⟨⟨_, hclaim⟩, h.free, h.upload⟩

/-- Claiming what an upload needs. -/
theorem moves_claiming {accountId : String} {destination : Destination} {bytes : ℕ}
    {available : Option ℕ} (hvacant : own.Vacant)
    (hrow : ∀ row ∈ own.row, ∃ total, Resumable row total ∧ id = row.id ∧
      bytes = (ActiveUpload.ofRow row total).remaining) :
    (claiming limits accountId id destination bytes available).Moves (UploadMove sha256 limits)
      (fun _ => Holding accountId id bytes own.row none none) (fun _ own' => own' = own) own := by
  refine Prog.moves_call (fun s a t hret => ?_) fun s e t hfail => ?_
  · simp only [Returns, EStateM.run] at hret
    cases hx : claimUpload limits accountId id destination bytes available s.live with
    | ok r live =>
      obtain ⟨claim, name⟩ := r
      rw [hx] at hret
      cases hret
      obtain ⟨dest, -, -, -, -, -, hclaim, -⟩ := claimUpload_returns hx
      obtain ⟨rfl, -⟩ := Prod.mk.inj hclaim
      exact ⟨.claimed hvacant hx hrow,
        ⟨dest, rfl⟩, hvacant.free, rfl, hvacant.listing, hvacant.file, hvacant.upload⟩
    | error e live =>
      rw [hx] at hret
      cases hret
  · simp only [Fails, EStateM.run] at hfail
    cases hx : claimUpload limits accountId id destination bytes available s.live with
    | ok r live =>
      rw [hx] at hfail
      cases hfail
    | error e live =>
      rw [hx] at hfail
      cases hfail
      have hlive : live = s.live := claimUpload_atomic.fails hx
      exact ⟨.quiet ⟨⟨hlive, rfl, rfl, rfl, rfl⟩, rfl, rfl, rfl⟩ (.inl rfl), rfl⟩

theorem moves_claimInto {accountId name : String} {dest : TreeState.UploadDest}
    {taken : String → Bool} {bytes : ℕ} {available : Option ℕ} (hvacant : own.Vacant)
    (hrow : ∀ row ∈ own.row, ∃ total, Resumable row total ∧ id = row.id ∧
      bytes = (ActiveUpload.ofRow row total).remaining) :
    (claimInto limits accountId id dest taken name bytes available).Moves (UploadMove sha256 limits)
      (fun _ => Holding accountId id bytes own.row none none) (fun _ own' => own' = own) own :=
  Prog.Moves.bind (moves_claiming hvacant hrow) fun _ _ hown => Prog.moves_pure hown

/-- Creating the partial file. -/
theorem moves_createPart {accountId : String} {size : ℕ} {listing : Option Listing}
    (h : Holding accountId id size none listing none own) :
    (createPart id size).Moves (UploadMove sha256 limits)
      (fun _ => Holding accountId id size none listing (some (id, size)))
      (fun _ own' => own' = own) own := by
  obtain ⟨destination, hclaim⟩ := h.claim
  refine Prog.Moves.bind (Q := fun _ own' => own' = own)
    (Prog.moves_call (fun s a t hret => ?_) fun s e t hfail => ?_) ?_
  · obtain ⟨parts, hparts, rfl⟩ := returns_onDisk hret
    refine ⟨.parted h.claims h.row h.file h.upload rfl fun j hj => ?_, rfl⟩
    cases hid : s.parts id with
    | some bytes =>
      rw [hid] at hparts
      cases hparts
    | none =>
      rw [hid] at hparts
      obtain rfl := Option.some.inj hparts
      exact Function.update_of_ne hj _ _
  · obtain rfl := fails_onDisk hfail
    exact ⟨.quiet (same_disk s _) (.inl rfl), rfl⟩
  rintro - own' rfl
  refine Prog.Moves.bind (Prog.Moves.attempt (Q := fun _ => Holding accountId id size none listing
    (some (id, size))) (E := fun _ own'' => own'' = own')
      (Prog.moves_call (fun s a t hret => ?_) fun s e t hfail => ?_)) ?_
  · obtain ⟨parts, hparts, rfl⟩ := returns_onDisk hret
    exact ⟨.sized hclaim h.row h.upload rfl (Option.some.inj hparts).symm,
      ⟨destination, hclaim⟩, h.free, h.row, h.listing, rfl, h.upload⟩
  · obtain rfl := fails_onDisk hfail
    exact ⟨.quiet (same_disk s _) (.inl rfl), rfl⟩
  rintro (e | ⟨⟩) own'' hown
  · obtain rfl : own'' = own' := hown
    refine Prog.Moves.bind (moves_removeQuietly (.inl h.claims) h.file) ?_
    rintro - own''' rfl
    exact Prog.moves_fail rfl
  · exact Prog.moves_pure hown

/-- A connection works on the upload of this id. -/
structure Working (id : Uuid) (own : UploadTask) : Prop where
  claims : own.Claims id
  free : own.Free
  listing : own.listing = none
  upload : ∃ u, own.upload = some u ∧ u.id = id

/-- And its partial file is open. -/
structure Receiving (id : Uuid) (own : UploadTask) : Prop extends Working id own where
  file : ∀ u ∈ own.upload, own.file = some (u.id, u.size)

/-- The moves of a new upload: it ends vacant, or receiving. -/
theorem moves_beginUpload (r : BeginRequest) :
    (beginUpload limits r).Moves (UploadMove sha256 limits)
      (fun accept => Receiving accept.transferId) (fun _ own => own.Vacant) .idle := by
  have hidle := UploadTask.vacant_idle
  refine Prog.Moves.bind (Q := fun chunks own =>
    own = .idle ∧ checkUploadShape r.size r.chunkSize = .ok chunks)
      (Prog.moves_ofExcept (fun _ hshape => ⟨rfl, hshape⟩) fun _ _ => hidle) ?_
  rintro chunks own₁ ⟨rfl, hshape⟩
  refine Prog.Moves.bind (Q := fun _ own => own = .idle)
    (Prog.moves_ofExcept (fun _ _ => rfl) fun _ _ => hidle) ?_
  rintro dest own₁ rfl
  refine Prog.Moves.bind ((moves_claimInto hidle nofun).mono (fun _ _ h => h) ?_) ?_
  · rintro - own₁ rfl
    exact hidle
  rintro name own₁ h₁
  -- from here on the claim is dropped whatever fails
  refine moves_droppingClaim ?_
  refine Prog.Moves.bind ((moves_makeRoomFor h₁).mono (fun _ _ h => h) ?_) ?_
  · rintro - own₂ ⟨listing, h₂⟩
    exact h₂.dropping
  rintro - own₂ ⟨ids, h₂⟩
  refine Prog.Moves.bind ((moves_createPart h₂).mono (fun _ _ h => h) ?_) ?_
  · rintro - own₃ rfl
    exact h₂.dropping
  rintro - own₃ h₃
  obtain ⟨destination, hclaim⟩ := h₃.claim
  refine Prog.Moves.bind (Prog.Moves.attempt (Q := fun _ => Receiving r.id)
    (E := fun _ => Holding r.accountId r.id r.size none (some ⟨r.accountId, ids, 0⟩) none)
      (Prog.moves_call (fun s a t hret => ?_) fun s e t hfail => ?_)) ?_
  · simp only [Returns, createRow, EStateM.run] at hret
    cases hx : TransferState.create (r.row dest.parent.id name chunks) s.clock s.pool with
    | ok b pool =>
      rw [hx] at hret
      cases hret
      obtain ⟨hnew, hrows⟩ := TransferState.create_returns hx
      refine ⟨.created ⟨rfl, rfl, rfl, hshape, rfl, rfl, rfl, rfl⟩ hclaim h₃.row h₃.file h₃.listing
        rfl
        hnew hrows, ⟨⟨_, _, _, hclaim⟩, h₃.free, rfl, _, rfl, rfl⟩, fun u hu => ?_⟩
      obtain rfl := Option.some.inj hu
      exact h₃.file
    | error e' pool =>
      rw [hx] at hret
      cases hret
  · simp only [Fails, createRow, EStateM.run] at hfail
    cases hx : TransferState.create (r.row dest.parent.id name chunks) s.clock s.pool with
    | ok b pool =>
      rw [hx] at hfail
      cases hfail
    | error e' pool =>
      rw [hx] at hfail
      cases hfail
      exact ⟨.uncreated h₃.upload h₃.row (same_pool ((statement_atomic _).fails hx)),
        ⟨destination, hclaim⟩, h₃.free, h₃.row, h₃.listing, rfl, h₃.upload⟩
  rintro (e | ⟨⟩) own₄ h₄
  -- the row could not be inserted, so the part goes again
  · refine Prog.Moves.bind (moves_removeQuietly (.inl h₄.claims) h₄.file) ?_
    rintro - own₅ rfl
    exact Prog.moves_fail h₄.dropping
  · exact Prog.moves_pure h₄

/-- A task that has read a row, and nothing else. -/
structure Reading (row : TransferRow) (own : UploadTask) : Prop extends own.Vacant where
  row : own.row = some row

/-- Finding where a resumed upload goes. -/
theorem moves_resumeDest {row : TransferRow} (r : ResumeRequest) (h : Reading row own) :
    (resumeDest r row).Moves (UploadMove sha256 limits) (fun _ => Reading row)
      (fun _ own => own.Vacant) own := by
  rw [resumeDest]
  by_cases hfiled : r.filed = true
  · rw [if_pos hfiled]
    exact Prog.moves_pure h
  rw [if_neg hfiled]
  cases r.dest with
  | ok dest => exact Prog.moves_pure h
  | error e =>
    refine Prog.Moves.bind (moves_discardIdle h.toVacant) ?_
    rintro held own' rfl
    cases held with
    | true => exact Prog.moves_fail h.toVacant
    | false => exact Prog.moves_fail h.toVacant

/-- Claiming what a resumed upload needs. -/
theorem moves_resumeClaim {row : TransferRow} {total : ℕ} (r : ResumeRequest)
    (dest : Option TreeState.UploadDest) (h : Reading row own) (hresumable : Resumable row total) :
    (resumeClaim limits r row (ActiveUpload.ofRow row total).remaining dest).Moves
      (UploadMove sha256 limits)
      (fun _ =>
        Holding r.accountId row.id (ActiveUpload.ofRow row total).remaining (some row) none none)
      (fun _ own => own.Vacant) own := by
  have hvacant : own.Vacant := h.toVacant
  have hrow : ∀ row' ∈ own.row, ∃ total', Resumable row' total' ∧ row.id = row'.id ∧
      (ActiveUpload.ofRow row total).remaining = (ActiveUpload.ofRow row' total').remaining := by
    rw [h.row]
    rintro row' hrow'
    obtain rfl := Option.some.inj hrow'
    exact ⟨total, hresumable, rfl, rfl⟩
  rw [← h.row]
  cases dest with
  | some dest =>
    refine (moves_claimInto hvacant hrow).mono (fun _ _ h => h) ?_
    rintro - own' rfl
    exact hvacant
  | none =>
    refine Prog.Moves.bind ((moves_claiming hvacant hrow).mono (fun _ _ h => h) ?_)
      fun _ _ hown => Prog.moves_pure hown
    rintro - own' rfl
    exact hvacant

/-- A change of the row that says nothing else of the upload. -/
theorem moves_rewriteRow {accountId : String} {bytes : ℕ} {row : Option TransferRow}
    {file : Option (Uuid × ℕ)} {x : Fallible (UploadStore × UploadTask) TransferError Unit}
    (hx : ∀ s, ∃ f hf, x s = onTable (TransferState.rewrite id f hf) (fun _ own => own) s ∧
      ∀ r, SameUpload r (f r)) (h : Holding accountId id bytes row none file own) :
    (quietly (.call .rewriteRow x)).Moves (UploadMove sha256 limits)
      (fun _ => Holding accountId id bytes row none file) E own := by
  refine moves_quietly (Prog.moves_call (fun s a t hret => ?_) fun s e t hfail => ?_)
  · obtain ⟨f, hf, hrewrite, hsame⟩ := hx (s, own)
    obtain ⟨pool, hrewrite, rfl⟩ := returns_onTable (hrewrite.symm.trans hret)
    exact ⟨.rewritten h.claims h.upload hsame rfl (TransferState.rewrite_returns hrewrite), h⟩
  · obtain ⟨f, hf, hrewrite, -⟩ := hx (s, own)
    obtain ⟨e', pool, hrewrite, rfl⟩ := fails_onTable (hrewrite.symm.trans hfail)
    exact ⟨.quiet (same_pool (fails_rewrite hrewrite).2) (.inl rfl), h⟩

theorem sameUpload_name (name : String) (r : TransferRow) : SameUpload r { r with name := name } :=
  ⟨rfl, rfl, rfl, rfl, rfl⟩

theorem sameUpload_updatedAt (now : ℕ) (r : TransferRow) :
    SameUpload r { r with updatedAt := now } :=
  ⟨rfl, rfl, rfl, rfl, rfl⟩

/-- Recording a new name. -/
theorem moves_recordName {accountId : String} {bytes : ℕ} {row : TransferRow} (name : String)
    (h : Holding accountId row.id bytes (some row) none none own) :
    (recordName row name).Moves (UploadMove sha256 limits)
      (fun _ => Holding accountId row.id bytes (some row) none none) E own := by
  rw [recordName]
  by_cases hname : name = row.name
  · rw [if_pos hname]
    exact Prog.moves_pure h
  · rw [if_neg hname]
    exact moves_rewriteRow (fun s => ⟨_, _, rfl, sameUpload_name name⟩) h

/-- A partial file that is opened is opened anew. -/
theorem returns_openPart {size : ℕ} {s t : UploadStore × UploadTask} {a : Unit}
    (h : Returns (openPart id size) s a t) : Returns (reopen id size) s a t := by
  simp only [Returns, openPart, EStateM.run] at h ⊢
  cases hx : reopen id size s with
  | ok a' t' =>
    rw [hx] at h
    exact h
  | error e' t' =>
    rw [hx] at h
    cases h

/-- A partial file that is not opened leaves the task without a row. -/
theorem fails_openPart {size : ℕ} {s t : UploadStore × UploadTask} {e : TransferError}
    (h : Fails (openPart id size) s e t) :
    ∃ t', Fails (reopen id size) s e t' ∧ t = (t'.1, { t'.2 with row := none }) := by
  simp only [Fails, openPart, EStateM.run] at h ⊢
  cases hx : reopen id size s with
  | ok a' t' =>
    rw [hx] at h
    cases h
  | error e' t' =>
    rw [hx] at h
    cases h
    exact ⟨t', rfl, rfl⟩

/-- Opening the partial file. -/
theorem moves_openPart {row : TransferRow} {accountId : String} {bytes : ℕ}
    (h : Holding accountId row.id bytes (some row) none none own) :
    (Prog.call .openPart (openPart row.id (rowSize row)) : UploadCall Unit).Moves
      (UploadMove sha256 limits)
      (fun _ => Holding accountId row.id bytes (some row) none (some (row.id, rowSize row)))
      (fun _ => Holding accountId row.id bytes none none none) own := by
  refine Prog.moves_call (fun s a t hret => ?_) fun s e t hfail => ?_
  · obtain ⟨parts, hparts, rfl⟩ := returns_onDisk (returns_openPart hret)
    dsimp only at hparts
    split at hparts
    case isFalse => cases hparts
    case isTrue hsize =>
      obtain rfl := Option.some.inj hparts
      obtain ⟨bytes, hpart, hlength⟩ := (Option.any_eq_true _ _).mp hsize
      exact ⟨.opened h.row h.claims h.upload (same_disk s _) hpart (beq_iff_eq.mp hlength),
        h.claim, h.free, h.row, h.listing, rfl, h.upload⟩
  · obtain ⟨t', hdisk, rfl⟩ := fails_openPart hfail
    obtain rfl := fails_onDisk hdisk
    obtain ⟨destination, hclaim⟩ := h.claim
    exact ⟨.unopened (hclaim ▸ Option.some_ne_none _) h.upload (same_disk s _),
      ⟨destination, hclaim⟩, h.free, rfl, h.listing, h.file, h.upload⟩

/-- The moves of a resumed upload: it ends vacant, or receiving. -/
theorem moves_resumeUpload (r : ResumeRequest) :
    (resumeUpload limits r).Moves (UploadMove sha256 limits)
      (fun accept => Receiving accept.transferId) (fun _ own => own.Vacant) .idle := by
  have hidle := UploadTask.vacant_idle
  refine Prog.Moves.bind (Q := fun row own => own = { UploadTask.idle with row })
    (moves_query ?_ ?_) ?_
  · exact fun _ => hidle
  · exact fun hsame => ⟨.read hidle hsame, rfl⟩
  rintro row own₁ rfl
  refine Prog.Moves.bind (Q := fun row => Reading row)
    (Prog.moves_ofExcept (fun row' hrow => ?_) fun _ _ => ⟨rfl, hidle.free, rfl, rfl, rfl⟩) ?_
  · obtain rfl := required_eq_ok.mp hrow
    exact ⟨⟨rfl, hidle.free, rfl, rfl, rfl⟩, rfl⟩
  rintro row own₂ h₂
  refine Prog.Moves.bind (Q := fun _ => Reading row)
    (Prog.moves_ofExcept (fun _ _ => h₂) fun _ _ => h₂.toVacant) ?_
  rintro - own₃ h₃
  refine Prog.Moves.bind (Q := fun _ own => Reading row own ∧ r.matches_ row = true)
    (Prog.moves_ofExcept (fun _ hmatch => ⟨h₃, ?_⟩) fun _ _ => h₃.toVacant) ?_
  · simpa using refuseIf_eq_ok.mp hmatch
  rintro - own₄ ⟨h₄, hmatch⟩
  obtain ⟨hsize, hchunk, hsha⟩ := of_decide_eq_true hmatch
  rw [← hsize, ← hchunk]
  cases hshape : checkUploadShape (rowSize row) (rowChunkSize row) with
  | error e =>
    -- a row whose shape no longer passes can never be resumed
    refine Prog.Moves.bind (moves_discardIdle h₄.toVacant) ?_
    rintro held own₅ rfl
    exact Prog.moves_fail h₄.toVacant
  | ok total =>
    refine Prog.Moves.bind (moves_resumeDest r h₄) ?_
    rintro dest own₅ h₅
    refine Prog.Moves.bind (moves_resumeClaim r dest h₅ hshape) ?_
    rintro name own₆ h₆
    refine moves_droppingClaim ?_
    refine Prog.Moves.bind (moves_recordName name h₆) ?_
    rintro - own₇ h₇
    refine Prog.Moves.bind (moves_openPart h₇).attempt ?_
    rintro (e | ⟨⟩) own₈ h₈
    -- the part cannot be opened, so the upload is discarded; a resume has no listing
    · have hlisted : ∀ l ∈ own₈.listing, row.id ∈ l.pending := by
        rw [h₈.listing]
        exact nofun
      refine Prog.Moves.bind (moves_discard ⟨.inl h₈.claims, h₈.file, .inl h₈.row, hlisted⟩) ?_
      rintro - own₉ rfl
      exact Prog.moves_fail h₈.dropping
    · refine Prog.Moves.bind (moves_rewriteRow (fun s => ⟨_, _, rfl, sameUpload_updatedAt _⟩) h₈) ?_
      rintro - own₉ h₉
      obtain ⟨destination, hclaim⟩ := h₉.claim
      refine Prog.Moves.bind (Q := fun _ => Receiving row.id) (Prog.moves_step fun s => ?_)
        fun _ _ hown => Prog.moves_pure hown
      rw [← hsha]
      refine ⟨.started h₉.row hshape hclaim h₉.file h₉.upload,
        ⟨⟨_, _, _, hclaim⟩, h₉.free, h₉.listing, _, rfl, rfl⟩, fun u hu => ?_⟩
      obtain rfl := Option.some.inj hu
      exact h₉.file

/-! ### Working on an upload and letting go of it -/

/-- Storing a chunk. -/
theorem moves_storeChunk {chunk : ChunkRequest} (h : Receiving id own) :
    (Prog.call .store (storeChunk sha256 limits chunk) : UploadCall (Bool × Bool)).Moves
      (UploadMove sha256 limits) (fun _ => Receiving id) (fun _ => Receiving id) own := by
  obtain ⟨u, hupload, rfl⟩ := h.upload
  have hfile := h.file u hupload
  refine Prog.moves_call (fun s a t hret => ?_) fun s e t hfail => ?_
  · simp only [Returns, storeChunk, EStateM.run, hupload] at hret
    cases hcheck : checkChunk sha256 u chunk with
    | error e =>
      rw [hcheck] at hret
      cases hret
    | ok b =>
      rw [hcheck] at hret
      dsimp only at hret
      by_cases hhas : hasChunk u.bitmap chunk.index = true
      · rw [if_pos hhas] at hret
        cases hret
        -- a chunk that is there already is not written again
        exact ⟨.quiet (same_disk s s.disk) (.inl rfl), h⟩
      rw [if_neg hhas] at hret
      by_cases hfault : s.disk.headD false = true
      · rw [if_pos hfault] at hret
        cases hret
      · rw [if_neg hfault] at hret
        cases hret
        refine ⟨.stored hupload hfile h.claims hcheck (Bool.eq_false_iff.mpr hhas),
          ⟨⟨h.claims, h.free, h.listing, _, rfl, rfl⟩, fun u' hu' => ?_⟩⟩
        obtain rfl := Option.some.inj hu'
        exact hfile
  · simp only [Fails, storeChunk, EStateM.run, hupload] at hfail
    cases hcheck : checkChunk sha256 u chunk with
    | error e =>
      rw [hcheck] at hfail
      cases hfail
      exact ⟨.quiet (same_disk s s.disk) (.inl rfl), h⟩
    | ok b =>
      rw [hcheck] at hfail
      dsimp only at hfail
      by_cases hhas : hasChunk u.bitmap chunk.index = true
      · rw [if_pos hhas] at hfail
        cases hfail
      rw [if_neg hhas] at hfail
      by_cases hfault : s.disk.headD false = true
      · rw [if_pos hfault] at hfail
        cases hfail
        -- a write that fails may have changed the part, but marks nothing
        exact ⟨.torn hupload hfile h.claims hcheck (Bool.eq_false_iff.mpr hhas), h⟩
      · rw [if_neg hfault] at hfail
        cases hfail

/-- What a task has after its bitmap was saved, or could not be. -/
def Saved (own own' : UploadTask) : Prop :=
  own' = { own with upload := own.upload.map fun u => { u with unsaved := 0 } } ∨
    own' = { own with failed := true }

theorem Saved.working {own' : UploadTask} (hsaved : Saved own own') (h : Working id own) :
    Working id own' := by
  obtain ⟨u, hupload, hid⟩ := h.upload
  rcases hsaved with rfl | rfl
  · refine ⟨h.claims, h.free, h.listing, { u with unsaved := 0 }, ?_, hid⟩
    rw [hupload]
    rfl
  · exact ⟨h.claims, h.free, h.listing, u, hupload, hid⟩

/-- Who has saved its progress still receives. -/
theorem Saved.receiving {own' : UploadTask} (hsaved : Saved own own') (h : Receiving id own) :
    Receiving id own' := by
  refine ⟨hsaved.working h.toWorking, fun u hu => ?_⟩
  obtain ⟨u', hupload, -⟩ := h.upload
  have hfile := h.file u' hupload
  rcases hsaved with rfl | rfl
  · rw [hupload] at hu
    obtain rfl := Option.some.inj hu
    exact hfile
  · exact h.file u hu

/-- Saving which chunks have arrived. -/
theorem moves_saveBitmap (h : Working id own) :
    (Prog.call .save saveBitmap : UploadCall Unit).Moves (UploadMove sha256 limits)
      (fun _ => Saved own) (fun _ => Saved own) own := by
  obtain ⟨u, hupload, rfl⟩ := h.upload
  refine Prog.moves_call (fun s a t hret => ?_) fun s e t hfail => ?_
  · simp only [Returns, saveBitmap, EStateM.run, hupload] at hret
    cases hsave : TransferState.updateBitmap u.id u.bitmap s.clock s.pool with
    | ok b pool =>
      rw [hsave] at hret
      cases hret
      refine ⟨.saved hupload h.claims rfl (TransferState.rewrite_returns hsave), .inl ?_⟩
      rw [hupload]
      rfl
    | error e' pool =>
      rw [hsave] at hret
      cases hret
  · simp only [Fails, saveBitmap, EStateM.run, hupload] at hfail
    cases hsave : TransferState.updateBitmap u.id u.bitmap s.clock s.pool with
    | ok b pool =>
      rw [hsave] at hfail
      cases hfail
    | error e' pool =>
      rw [hsave] at hfail
      cases hfail
      obtain ⟨hfault, hdb⟩ := fails_rewrite hsave
      rw [← hupload]
      exact ⟨.quiet (same_pool hdb) (.inr ⟨rfl, hfault, rfl⟩), .inr rfl⟩

/-- Writing a chunk, and saving the progress when it is due. -/
theorem moves_writeChunk {chunk : ChunkRequest} (h : Receiving id own) :
    (writeChunk sha256 limits chunk).Moves (UploadMove sha256 limits) (fun _ => Receiving id)
      (fun _ => Receiving id) own := by
  refine Prog.Moves.bind (moves_storeChunk h) ?_
  rintro ⟨due, complete⟩ own₁ h₁
  cases due with
  | true =>
    exact Prog.Moves.bind
      ((moves_saveBitmap h₁.toWorking).mono (fun _ _ hsaved => hsaved.receiving h₁)
      fun _ _ hsaved => hsaved.receiving h₁) fun _ _ h₂ => Prog.moves_pure h₂
  | false => exact Prog.moves_pure h₁

/-- Writing some chunks. -/
theorem moves_writeChunks (chunks : List ChunkRequest) (h : Receiving id own) :
    (writeChunks sha256 limits chunks).Moves (UploadMove sha256 limits) (fun _ => Receiving id) E
      own := by
  induction chunks generalizing own with
  | nil => exact Prog.moves_pure h
  | cons chunk chunks ih =>
    refine Prog.Moves.bind (moves_writeChunk h).attempt ?_
    rintro (e | complete) own₁ h₁
    · exact ih h₁
    · exact ih h₁

/-- What a task has that is about to drop its upload. -/
def Parting (own : UploadTask) : Prop :=
  (∃ claim, own.claim = some claim) ∧ own.Free ∧
    ∀ u ∈ own.upload, u.unsaved = 0 ∨ own.failed = true

/-- Saving the progress at the end, and noting what was there. -/
theorem moves_saveProgress (h : Working id own) :
    (Prog.call .save saveProgress : UploadCall Unit).Moves (UploadMove sha256 limits)
      (fun _ own' => Saved own own' ∧ Parting own') (fun _ own' => Saved own own' ∧ Parting own')
      own := by
  obtain ⟨u, hupload, rfl⟩ := h.upload
  obtain ⟨accountId, destination, bytes, hclaim⟩ := h.claims
  have hparting {own' : UploadTask} (hsaved : Saved own own') : Saved own own' ∧ Parting own' := by
    refine ⟨hsaved, ?_⟩
    rcases hsaved with rfl | rfl
    · refine ⟨⟨_, hclaim⟩, h.free, fun u' hu' => .inl ?_⟩
      rw [hupload] at hu'
      obtain rfl := Option.some.inj hu'
      rfl
    · exact ⟨⟨_, hclaim⟩, h.free, fun _ _ => .inr rfl⟩
  by_cases hzero : u.unsaved = 0
  · have hsame : own = { own with upload := own.upload.map fun u => { u with unsaved := 0 } } := by
      rw [hupload, Option.map_some, ← hzero, ← hupload]
    have hrun (s : UploadStore) : saveProgress (s, own) = .ok () (s, own) := by
      simp only [saveProgress, hupload, if_pos hzero]
    refine Prog.moves_call (fun s a t hret => ?_) fun s e t hfail => ?_
    · have hret' := (hrun s).symm.trans hret
      cases hret'
      exact ⟨.quiet (same_disk s s.disk) (.inl rfl), hparting (.inl hsame)⟩
    · have hfail' := (hrun s).symm.trans hfail
      cases hfail'
  · have hrun (s : UploadStore) : saveProgress (s, own) = saveBitmap (s, own) := by
      simp only [saveProgress, hupload, if_neg hzero]
    have hsave : (Prog.call .save saveBitmap : UploadCall Unit).Moves (UploadMove sha256 limits)
        (fun _ own' => Saved own own' ∧ Parting own') (fun _ own' => Saved own own' ∧ Parting own')
        own := (moves_saveBitmap h).mono (fun _ _ => hparting) fun _ _ => hparting
    intro s
    have hstep := hsave s
    simp only [EStateM.run] at hstep ⊢
    rw [hrun]
    exact hstep

theorem moves_dropping (h : Parting own) :
    dropClaim.Moves (UploadMove sha256 limits) (fun _ own' => own'.Vacant) E own := by
  obtain ⟨⟨claim, hclaim⟩, hfree, hsaved⟩ := h
  refine (moves_dropClaim hclaim hfree hsaved).mono ?_ fun _ _ he => he
  rintro - own' rfl
  exact UploadTask.vacant_idle

/-- **Progress is saved before the claim is dropped.** -/
theorem moves_release (h : Working id own) :
    release.Moves (UploadMove sha256 limits) (fun _ own' => own'.Vacant) E own :=
  Prog.Moves.bind (moves_quietly (moves_saveProgress h)) fun _ _ h₁ => moves_dropping h₁.2

theorem moves_dropUpload (h : Working id own) :
    dropUpload.Moves (UploadMove sha256 limits) (fun _ own' => own'.Vacant) E own :=
  moves_release h

/-- Giving up an upload. -/
theorem moves_abort (h : Working id own) :
    (abort id).Moves (UploadMove sha256 limits) (fun _ own' => own'.Vacant) E own := by
  obtain ⟨accountId, destination, bytes, hclaim⟩ := h.claims
  refine Prog.Moves.bind
    (Q := fun _ own' => own' = { own with upload := none, file := none, row := none })
      (Prog.moves_step fun s => ⟨.forgotten, rfl⟩) ?_
  rintro - own₁ rfl
  have hlisted : ∀ l ∈ own.listing, id ∈ l.pending := by
    rw [h.listing]
    exact nofun
  refine Prog.Moves.bind
    (moves_discard ⟨.inl ⟨accountId, destination, bytes, hclaim⟩, rfl, .inl rfl, hlisted⟩) ?_
  rintro - own₂ rfl
  exact moves_dropping ⟨⟨_, hclaim⟩, h.free, nofun⟩

/-- Moving the file into place. -/
theorem moves_promote (hclaims : own.Claims id) (hfile : own.file = none) :
    (Prog.call (.promote id) (promote id) : UploadCall Unit).Moves (UploadMove sha256 limits)
      (fun _ own' => own' = own) (fun _ own' => own' = own) own := by
  refine Prog.moves_call (fun s a t hret => ?_) fun s e t hfail => ?_
  · simp only [Returns, promote, EStateM.run] at hret
    cases hpart : s.parts id with
    | none =>
      rw [hpart] at hret
      cases hret
    | some bytes =>
      rw [hpart] at hret
      by_cases hfault : s.disk.headD false = true
      · simp only [if_pos hfault] at hret
        cases hret
      · simp only [if_neg hfault] at hret
        cases hret
        exact ⟨.removed (.inl hclaims) hfile rfl rfl, rfl⟩
  · simp only [Fails, promote, EStateM.run] at hfail
    cases hpart : s.parts id with
    | none =>
      rw [hpart] at hfail
      cases hfail
      exact ⟨.quiet (same_disk s _) (.inl rfl), rfl⟩
    | some bytes =>
      rw [hpart] at hfail
      by_cases hfault : s.disk.headD false = true
      · simp only [if_pos hfault] at hfail
        cases hfail
        exact ⟨.quiet (same_disk s _) (.inl rfl), rfl⟩
      · simp only [if_neg hfault] at hfail
        cases hfail

/-- Moving the file back. -/
theorem moves_withdraw (hclaims : own.Claims id) :
    (Prog.call .withdraw (withdraw id) : UploadCall Unit).Moves (UploadMove sha256 limits)
      (fun _ own' => own' = own) (fun _ own' => own' = own) own := by
  refine Prog.moves_call (fun s a t hret => ?_) fun s e t hfail => ?_
  · simp only [Returns, withdraw, EStateM.run] at hret
    cases hx : (query fun _ => () : Fallible TransferPool StorageError Unit) s.pool with
    | ok b pool =>
      rw [hx] at hret
      cases hret
      exact ⟨.beside (.withdrawn hclaims (returns_query hx).2), rfl⟩
    | error e' pool =>
      rw [hx] at hret
      cases hret
  · simp only [Fails, withdraw, EStateM.run] at hfail
    cases hx : (query fun _ => () : Fallible TransferPool StorageError Unit) s.pool with
    | ok b pool =>
      rw [hx] at hfail
      cases hfail
    | error e' pool =>
      rw [hx] at hfail
      cases hfail
      exact ⟨.quiet (same_pool (fails_query hx).2) (.inl rfl), rfl⟩

/-- The moves of finishing: the task ends vacant, filed or not. -/
theorem moves_finish {expected : List UInt8} {filed : Except TreeError Unit}
    (h : Receiving id own) :
    (finish sha256 id expected filed).Moves (UploadMove sha256 limits) (fun _ own' => own'.Vacant)
      (fun _ own' => own'.Vacant) own := by
  -- finishing goes on even if the bitmap could not be saved
  refine Prog.Moves.bind (moves_quietly (moves_saveProgress h.toWorking)) ?_
  rintro - own₁ ⟨hsaved, -⟩
  have h₁ := hsaved.receiving h
  obtain ⟨u, hupload, hid⟩ := h₁.upload
  refine Prog.Moves.bind (Prog.Moves.attempt (Q := fun _ own' => own' = { own₁ with file := none })
    (E := fun _ own' => own' = { own₁ with file := none })
      (Prog.moves_call (fun s a t hret => ?_) fun s e t hfail => ?_)) ?_
  · simp only [Returns, hashFile, EStateM.run] at hret
    split at hret
    · cases hret
    · cases hret
      exact ⟨.closed (same_disk s _) (hupload ▸ Option.some_ne_none u), rfl⟩
  · simp only [Fails, hashFile, EStateM.run] at hfail
    split at hfail
    · cases hfail
      exact ⟨.closed (same_disk s _) (hupload ▸ Option.some_ne_none u), rfl⟩
    · cases hfail
  -- whether the file could be read or not, its handle is gone
  intro r own₂ h₂
  have hown : own₂ = { own₁ with file := none } := by
    rcases r with e | actual
    · exact h₂
    · exact h₂
  obtain rfl := hown
  have hworking : Working id { own₁ with file := none } :=
    ⟨h₁.claims, h₁.free, h₁.listing, u, hupload, hid⟩
  have hfailing {e : TransferError} {body : UploadCall Unit}
      (hbody : body.Moves (UploadMove sha256 limits) (fun _ own' => own'.Vacant)
        (fun _ own' => own'.Vacant) { own₁ with file := none }) :
      (body >>= fun _ => .fail e : UploadCall Unit).Moves (UploadMove sha256 limits)
        (fun _ own' => own'.Vacant) (fun _ own' => own'.Vacant) { own₁ with file := none } :=
    Prog.Moves.bind hbody fun _ _ hvacant => Prog.moves_fail hvacant
  cases r with
  | error e => exact hfailing (moves_abort hworking)
  | ok actual =>
    dsimp only
    by_cases hactual : actual ≠ expected
    · -- these are not the bytes that were promised
      rw [if_pos hactual]
      exact hfailing (moves_abort hworking)
    rw [if_neg hactual]
    cases filed with
    | error e =>
      dsimp only
      by_cases hstorage : TreeError.isStorage e = true
      · -- the client may try again later, so everything is kept
        rw [if_pos hstorage]
        exact hfailing (moves_release hworking)
      · -- the folder does not take the file
        rw [if_neg hstorage]
        exact hfailing (moves_abort hworking)
    | ok =>
      refine Prog.Moves.bind (Q := fun _ own' => own' = { own₁ with file := none })
        (Prog.moves_step fun s => ⟨.beside (.filed hworking.claims), rfl⟩) ?_
      rintro - own₂ rfl
      refine Prog.Moves.bind (moves_promote hworking.claims rfl).attempt ?_
      rintro (e | ⟨⟩) own₃ rfl
      · -- an entry without a blob is taken out again
        refine Prog.Moves.bind (moves_quietly (moves_withdraw hworking.claims)) ?_
        rintro - own₄ rfl
        exact hfailing (moves_release hworking)
      · have hlisted : ∀ l ∈ own₁.listing, id ∈ l.pending := by
          rw [h₁.listing]
          simp
        have hlive : own₁.upload ≠ none := hupload ▸ Option.some_ne_none u
        refine Prog.Moves.bind
          (moves_quietly (moves_deleteRow ⟨.inl h₁.claims, rfl, .inr (.inr hlive), hlisted⟩)) ?_
        rintro - own₄ rfl
        refine moves_dropUpload ⟨h₁.claims, h₁.free, ?_, u, hupload, hid⟩
        simp only [h₁.listing, Option.map_none]

/-! ### Sweeping -/

theorem moves_discardAll (rows : List PendingTransfer) (h : own.Vacant) :
    (discardAll rows).Moves (UploadMove sha256 limits) (fun _ own' => own'.Vacant) E own := by
  induction rows generalizing own with
  | nil => exact Prog.moves_pure h
  | cons row rows ih =>
    refine Prog.Moves.bind (moves_discardIdle h) ?_
    rintro held own₁ rfl
    exact ih h

/-- Sweeping the partial files without rows. -/
theorem moves_sweepOrphanParts (ids : List Uuid) (h : own.Vacant) :
    (sweepOrphanParts ids).Moves (UploadMove sha256 limits) (fun _ own' => own'.Vacant) E own := by
  induction ids generalizing own with
  | nil => exact Prog.moves_pure h
  | cons id ids ih =>
    refine Prog.Moves.bind (moves_holdingOne h.free) ?_
    rintro held own₁ rfl
    cases held with
    | false => exact ih h
    | true =>
      have hafter : UploadTask.Vacant { own with holds := [] } :=
        ⟨h.claim, ⟨rfl, h.free.unread⟩, h.listing, h.file, h.upload⟩
      refine Prog.Moves.bind (Prog.Moves.attempt
        (Q := fun _ own' => own' = { own with holds := [id] })
        (E := fun _ own' => own' = { own with holds := [id] }) (moves_query ?_ ?_)) ?_
      · exact fun _ => rfl
      · exact fun hsame => ⟨.quiet hsame (.inl rfl), rfl⟩
      intro r own₂ h₂
      have hown : own₂ = { own with holds := [id] } := by
        rcases r with e | row
        · exact h₂
        · exact h₂
      obtain rfl := hown
      cases r with
      | error e =>
        have hheld : UploadTask.holds { own with holds := [id] } = [id] := rfl
        refine (moves_dropOne hheld h.free.unread).mono ?_ fun _ _ he => he
        rintro - own₃ rfl
        exact hafter
      | ok row =>
        cases row with
        | none =>
          refine Prog.Moves.bind (moves_removeQuietly (.inr (List.mem_singleton_self _)) h.file) ?_
          rintro - own₃ rfl
          refine Prog.Moves.bind (moves_dropOne rfl h.free.unread) ?_
          rintro - own₄ rfl
          exact ih hafter
        | some row =>
          refine Prog.Moves.bind (moves_dropOne rfl h.free.unread) ?_
          rintro - own₃ rfl
          exact ih hafter

/-- Sweeping what was not used for long. -/
theorem moves_sweep (olderThan : ℕ) (directory : List Uuid) (h : own.Vacant) :
    (sweep olderThan directory).Moves (UploadMove sha256 limits)
      (fun _ own' => own'.Vacant) E own := by
  refine Prog.Moves.bind (Prog.Moves.attempt (Q := fun _ own' => own'.Vacant)
    (E := fun _ own' => own'.Vacant)
      (Prog.moves_call (fun s a t hret => ?_) fun s e t hfail => ?_)) ?_
  · obtain ⟨pool, hquery, rfl⟩ := returns_onTable hret
    exact ⟨.quiet (same_pool (returns_query hquery).2) (.inl rfl), h⟩
  · obtain ⟨e', pool, hquery, rfl⟩ := fails_onTable hfail
    exact ⟨.quiet (same_pool (fails_query hquery).2) (.inl rfl), h⟩
  rintro (e | rows) own₁ h₁
  · exact moves_sweepOrphanParts directory h₁
  · exact Prog.Moves.bind (moves_discardAll rows h₁)
      fun _ _ h₂ => moves_sweepOrphanParts directory h₂

/-! ### Finished files -/

/-- Removing some partial files. -/
theorem moves_unlinkAll (ids : List Uuid) :
    (unlinkAll ids).Moves (UploadMove sha256 limits) (fun _ own' => own' = own) E own := by
  induction ids with
  | nil => exact Prog.moves_pure rfl
  | cons id ids ih =>
    refine Prog.Moves.bind (moves_quietly (Q := fun own' => own' = own)
      (Prog.moves_call (fun s a t hret => ?_) fun s e t hfail => ?_)) ?_
    · simp only [Returns, unlink, EStateM.run] at hret
      by_cases hfault : s.disk.headD false = true
      · rw [if_pos hfault] at hret
        cases hret
      · rw [if_neg hfault] at hret
        cases hret
        exact ⟨.beside .unlinked, rfl⟩
    · simp only [Fails, unlink, EStateM.run] at hfail
      by_cases hfault : s.disk.headD false = true
      · rw [if_pos hfault] at hfail
        cases hfail
        exact ⟨.quiet (same_disk s _) (.inl rfl), rfl⟩
      · rw [if_neg hfault] at hfail
        cases hfail
    · rintro - own₁ rfl
      exact ih

theorem moves_deleteFiles (ids : List Uuid) :
    (deleteFiles ids).Moves (UploadMove sha256 limits) (fun _ own' => own' = own) E own := by
  refine Prog.Moves.bind (Q := fun _ own' => own' = own)
    (Prog.moves_step fun s => ⟨.beside (.unfiled ids.toFinset), rfl⟩) ?_
  rintro gone own₁ rfl
  exact moves_unlinkAll gone

/-- Holding the ids that are free. -/
theorem moves_holdEach (ids : List Uuid) (hunread : own.unnamed = [] ∧ own.unowned = []) :
    (holdEach ids).Moves (UploadMove sha256 limits)
      (fun held own' => own' = { own with holds := own.holds ++ held }) E own := by
  induction ids generalizing own with
  | nil => exact Prog.moves_pure (by rw [List.append_nil])
  | cons id ids ih =>
    refine Prog.Moves.bind (moves_holding hunread) ?_
    rintro held own₁ rfl
    cases held with
    | false =>
      refine Prog.Moves.bind (ih hunread) ?_
      rintro rest own₂ rfl
      exact Prog.moves_pure rfl
    | true =>
      refine Prog.Moves.bind (ih hunread) ?_
      rintro rest own₂ rfl
      refine Prog.moves_pure ?_
      simp only [if_true, List.append_assoc, List.singleton_append]

/-- Letting go of what is held. -/
theorem moves_dropHolds (ids : List Uuid) (hholds : own.holds = ids) :
    (dropHolds ids).Moves (UploadMove sha256 limits) (fun _ own' => own'.holds = [] ∧
      (own' = own ∨ own' = { own with holds := [], unnamed := [], unowned := [] })) E own := by
  induction ids generalizing own with
  | nil => exact Prog.moves_pure ⟨hholds, .inl rfl⟩
  | cons id ids ih =>
    refine Prog.Moves.bind (moves_dropHold hholds) ?_
    rintro - own₁ rfl
    refine (ih rfl).mono ?_ fun _ _ he => he
    rintro - own₂ ⟨hnone, rfl | rfl⟩
    · exact ⟨hnone, .inr (by rw [← hnone])⟩
    · exact ⟨hnone, .inr rfl⟩

/-- Moving one file that has neither entry nor row. -/
theorem moves_moveOrphan {now : ℕ} (hunnamed : id ∈ own.unnamed) (hunowned : id ∈ own.unowned) :
    (quietly (.call (.quarantine id) (moveOrphan now id))).Moves (UploadMove sha256 limits)
      (fun _ own' => own' = own) E own := by
  refine moves_quietly (Prog.moves_call (fun s a t hret => ?_) fun s e t hfail => ?_)
  · simp only [Returns, moveOrphan, EStateM.run] at hret
    cases hblob : s.blobs id with
    | none =>
      rw [hblob] at hret
      cases hret
      exact ⟨.quiet (same_disk s s.disk) (.inl rfl), rfl⟩
    | some bytes =>
      rw [hblob] at hret
      dsimp only at hret
      by_cases hused : (id, now) ∈ s.quarantine.map Prod.fst
      · rw [if_pos hused] at hret
        cases hret
        exact ⟨.quiet (same_disk s s.disk) (.inl rfl), rfl⟩
      rw [if_neg hused] at hret
      by_cases hfault : s.disk.headD false = true
      · rw [if_pos hfault] at hret
        cases hret
      · rw [if_neg hfault] at hret
        cases hret
        exact ⟨.beside (.quarantined hunnamed hunowned hblob), rfl⟩
  · simp only [Fails, moveOrphan, EStateM.run] at hfail
    cases hblob : s.blobs id with
    | none =>
      rw [hblob] at hfail
      cases hfail
    | some bytes =>
      rw [hblob] at hfail
      dsimp only at hfail
      by_cases hused : (id, now) ∈ s.quarantine.map Prod.fst
      · rw [if_pos hused] at hfail
        cases hfail
      rw [if_neg hused] at hfail
      by_cases hfault : s.disk.headD false = true
      · rw [if_pos hfault] at hfail
        cases hfail
        exact ⟨.quiet (same_disk s _) (.inl rfl), rfl⟩
      · rw [if_neg hfault] at hfail
        cases hfail

/-- Moving the files that have neither entry nor row. -/
theorem moves_moveOrphans {now : ℕ} (ids : List Uuid)
    (horphans : ∀ id ∈ ids, id ∈ own.unnamed ∧ id ∈ own.unowned) :
    (moveOrphans now ids).Moves (UploadMove sha256 limits) (fun _ own' => own' = own) E own := by
  induction ids with
  | nil => exact Prog.moves_pure rfl
  | cons id ids ih =>
    obtain ⟨hunnamed, hunowned⟩ := horphans id List.mem_cons_self
    refine Prog.Moves.bind (moves_moveOrphan hunnamed hunowned) ?_
    rintro - own₁ rfl
    exact ih fun id hid => horphans id (List.mem_cons_of_mem _ hid)

/-- What a task knows that has read something about the ids it holds. -/
structure ReadOf (own own' : UploadTask) : Prop where
  frame : own' = { own with unnamed := own'.unnamed, unowned := own'.unowned }
  unnamed : own'.unnamed ⊆ own.holds
  unowned : own'.unowned ⊆ own.holds

/-- **Only held files are moved** that no entry referred to and no row owned. -/
theorem moves_quarantineHeld {now : ℕ} (hclaim : own.claim = none)
    (hunread : own.unnamed = [] ∧ own.unowned = []) :
    (quarantineHeld now own.holds).Moves (UploadMove sha256 limits) (fun _ => ReadOf own)
      (fun _ => ReadOf own) own := by
  have hnil (l : List Uuid) : [] ⊆ l := List.nil_subset l
  refine Prog.Moves.bind (Q := fun referenced own' =>
    own' = { own with unnamed := own.holds.filter fun id => id ∉ referenced })
      (Prog.moves_call (fun s a t hret => ?_) fun s e t hfail => ?_) ?_
  · simp only [Returns, referencedBlobs, EStateM.run] at hret
    cases hx : (query fun _ => () : Fallible TransferPool StorageError Unit) s.pool with
    | ok b pool =>
      rw [hx] at hret
      cases hret
      exact ⟨.beside (.readTree hclaim (same_pool (returns_query hx).2)), rfl⟩
    | error e' pool =>
      rw [hx] at hret
      cases hret
  · simp only [Fails, referencedBlobs, EStateM.run] at hfail
    cases hx : (query fun _ => () : Fallible TransferPool StorageError Unit) s.pool with
    | ok b pool =>
      rw [hx] at hfail
      cases hfail
    | error e' pool =>
      rw [hx] at hfail
      cases hfail
      exact ⟨.quiet (same_pool (fails_query hx).2) (.inl rfl), rfl, hunread.1 ▸ hnil _,
        hunread.2 ▸ hnil _⟩
  rintro referenced own₁ rfl
  refine Prog.Moves.bind (Q := fun unfinished own' => own' = { own with
    unnamed := own.holds.filter fun id => id ∉ referenced
    unowned := own.holds.filter fun id => id ∉ unfinished }) (moves_query ?_ ?_) ?_
  · exact fun _ => ⟨rfl, List.filter_sublist.subset, hunread.2 ▸ hnil _⟩
  · exact fun hsame => ⟨.beside (.readIds hclaim hsame), rfl⟩
  rintro unfinished own₂ rfl
  -- both lists were read while the files are held
  have hread : ReadOf own { own with
      unnamed := own.holds.filter fun id => id ∉ referenced
      unowned := own.holds.filter fun id => id ∉ unfinished } :=
    ⟨rfl, List.filter_sublist.subset, List.filter_sublist.subset⟩
  dsimp only
  by_cases hnone : (own.holds.filter fun id => id ∉ referenced ∧ id ∉ unfinished) = []
  · rw [if_pos hnone]
    exact Prog.moves_pure hread
  rw [if_neg hnone]
  refine Prog.Moves.bind (Q := fun _ own' => own' = { own with
    unnamed := own.holds.filter fun id => id ∉ referenced
    unowned := own.holds.filter fun id => id ∉ unfinished })
      (Prog.moves_call (fun s a t hret => ?_) fun s e t hfail => ?_) ?_
  · obtain ⟨parts, hparts, rfl⟩ := returns_onDisk hret
    obtain rfl := Option.some.inj hparts
    exact ⟨.quiet (same_disk s _) (.inl rfl), rfl⟩
  · obtain rfl := fails_onDisk hfail
    exact ⟨.quiet (same_disk s _) (.inl rfl), hread⟩
  rintro - own₃ rfl
  refine (moves_moveOrphans _ fun id hid => ?_).mono ?_ fun _ _ he => he
  · obtain ⟨hmem, hboth⟩ := List.mem_filter.mp hid
    obtain ⟨hunnamed, hunowned⟩ := of_decide_eq_true hboth
    exact ⟨List.mem_filter.mpr ⟨hmem, decide_eq_true hunnamed⟩,
      List.mem_filter.mpr ⟨hmem, decide_eq_true hunowned⟩⟩
  · rintro - own₄ rfl
    exact hread

/-- Holding, looking and then moving. -/
theorem moves_quarantineOrphanBlobs {now : ℕ} (directory : List Uuid) (h : own.Vacant) :
    (quarantineOrphanBlobs now directory).Moves (UploadMove sha256 limits)
      (fun _ own' => own'.Vacant) E own := by
  rw [quarantineOrphanBlobs]
  by_cases hnone : directory = []
  · rw [if_pos hnone]
    exact Prog.moves_pure h
  rw [if_neg hnone]
  refine Prog.Moves.bind (moves_holdEach directory h.free.unread) ?_
  rintro candidates own₁ rfl
  rw [h.free.holds, List.nil_append]
  refine Prog.Moves.bind (moves_quietly (moves_quarantineHeld h.claim h.free.unread)) ?_
  intro _ own₂ hread
  obtain ⟨hframe, hunnamed, hunowned⟩ := hread
  refine (moves_dropHolds _ (by rw [hframe])).mono ?_ fun _ _ he => he
  rintro - own₃ ⟨hnone, rfl | rfl⟩
  · -- nothing was held, so nothing was read of it
    rw [hframe] at hnone
    obtain rfl : candidates = [] := hnone
    have hread : own₃.unnamed = [] ∧ own₃.unowned = [] :=
      ⟨List.subset_nil.mp hunnamed, List.subset_nil.mp hunowned⟩
    rw [hframe]
    exact ⟨h.claim, ⟨rfl, hread⟩, h.listing, h.file, h.upload⟩
  · rw [hframe]
    exact ⟨h.claim, ⟨rfl, rfl, rfl⟩, h.listing, h.file, h.upload⟩

/-- Purging what was in the quarantine long enough. -/
theorem moves_purgeEach {now retention : ℕ} (names : List (Uuid × ℕ)) :
    (purgeEach now retention names).Moves (UploadMove sha256 limits) (fun _ own' => own' = own) E
      own := by
  induction names with
  | nil => exact Prog.moves_pure rfl
  | cons name names ih =>
    rw [purgeEach]
    by_cases hyoung : now - name.2 < retention
    · rw [if_pos hyoung]
      exact ih
    rw [if_neg hyoung]
    refine Prog.Moves.bind (moves_quietly (Q := fun own' => own' = own)
      (Prog.moves_call (fun s a t hret => ?_) fun s e t hfail => ?_)) ?_
    · simp only [Returns, purge, EStateM.run] at hret
      by_cases hfault : s.disk.headD false = true
      · rw [if_pos hfault] at hret
        cases hret
      · rw [if_neg hfault] at hret
        cases hret
        exact ⟨.beside (.purged List.filter_sublist), rfl⟩
    · simp only [Fails, purge, EStateM.run] at hfail
      by_cases hfault : s.disk.headD false = true
      · rw [if_pos hfault] at hfail
        cases hfail
        exact ⟨.quiet (same_disk s _) (.inl rfl), rfl⟩
      · rw [if_neg hfault] at hfail
        cases hfail
    · rintro - own₁ rfl
      exact ih

/-- Moving the files without entries away, and purging the old ones. -/
theorem moves_sweepOrphanBlobs {now : ℕ} {retention : Option ℕ} (directory : List Uuid)
    (h : own.Vacant) : (sweepOrphanBlobs now retention directory).Moves (UploadMove sha256 limits)
      (fun _ own' => own'.Vacant) E own := by
  refine Prog.Moves.bind (moves_quarantineOrphanBlobs directory h) ?_
  intro _ own₁ h₁
  cases retention with
  | none => exact Prog.moves_pure h₁
  | some retention =>
    refine Prog.Moves.bind (Q := fun _ own' => own' = own₁)
      (Prog.moves_step fun s => ⟨.quiet (same_disk s s.disk) (.inl rfl), rfl⟩) ?_
    rintro names own₂ rfl
    refine (moves_purgeEach names).mono ?_ fun _ _ he => he
    rintro - own₃ rfl
    exact h₁

/-! ### Every request -/

theorem moves_letGo {accept : AcceptInfo} (ending : Ending) (h : Receiving accept.transferId own) :
    (letGo sha256 accept ending).Moves (UploadMove sha256 limits) (fun _ own' => own'.Vacant)
      (fun _ own' => own'.Vacant) own := by
  cases ending with
  | release => exact moves_release h.toWorking
  | drop => exact moves_dropUpload h.toWorking
  | abort => exact moves_abort h.toWorking
  | finish filed => exact moves_finish h

/-- **Every function takes the steps that are allowed**, and ends with nothing to give back. -/
theorem moves_serveUploads (sha256 : List UInt8 → List UInt8) (limits : TransferLimits)
    (request : UploadRequest) :
    (serveUploads sha256 limits request).Moves (UploadMove sha256 limits) (fun _ own => own.Vacant)
      (fun _ own => own.Vacant) .idle := by
  have hidle := UploadTask.vacant_idle
  cases request with
  | begin request chunks ending =>
    refine Prog.Moves.bind (moves_beginUpload request) fun accept own₁ h₁ => ?_
    exact Prog.Moves.bind (moves_writeChunks chunks h₁) fun _ _ h₂ => moves_letGo ending h₂
  | resume request chunks ending =>
    refine Prog.Moves.bind (moves_resumeUpload request) fun accept own₁ h₁ => ?_
    exact Prog.Moves.bind (moves_writeChunks chunks h₁) fun _ _ h₂ => moves_letGo ending h₂
  | delete ids =>
    refine (moves_deleteFiles ids).mono ?_ fun _ _ he => he
    rintro - own' rfl
    exact hidle
  | sweep olderThan directory => exact moves_sweep olderThan directory hidle
  | sweepBlobs now retention directory => exact moves_sweepOrphanBlobs directory hidle
  | tick =>
    exact Prog.moves_step fun s => ⟨.quiet ⟨⟨rfl, rfl, rfl, rfl, rfl⟩, rfl, rfl, rfl⟩ (.inl rfl),
      hidle⟩

end Moves

end Transfer

end KdxHotline
