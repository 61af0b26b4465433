import KdxHotline.Transfer.Chunks
import KdxHotline.Transfer.Exclusive

/-!
# Rows and live uploads

While a connection works on an upload, its row lags behind what is in memory: the row marks no chunk
that the upload does not (`KdxHotline.Transfer.UploadTask.Tracked`). Nobody else touches the row or
the partial file meanwhile, but a resume reads the row before it claims the id. What is in memory is
only the row's if the row is still as it was read when the claim is made
(`KdxHotline.Transfer.UploadStore.Current`); runs are asked for in which that is so.
-/

namespace KdxHotline

namespace Transfer

open Foundations Storage

/-- The second bitmap marks every chunk that the first one marks. -/
def Marks (total : ℕ) (bitmap bitmap' : List UInt8) : Prop :=
  ∀ i < total, hasChunk bitmap i = true → hasChunk bitmap' i = true

theorem Marks.refl (total : ℕ) (bitmap : List UInt8) : Marks total bitmap bitmap := fun _ _ h => h

theorem Marks.trans {total : ℕ} {a b c : List UInt8} (h : Marks total a b) (h' : Marks total b c) :
    Marks total a c := fun i hi hhas => h' i hi (h i hi hhas)

/-- The row that was read is still there as it was, or there is nothing left to resume. -/
def UploadStore.Current (s : UploadStore) (row : TransferRow) : Prop :=
  (∃ r, s.pool.db.row row.id = some r ∧ SameUpload row r) ∨ s.parts row.id = none

/-- What is in memory of an upload fits together. -/
structure ActiveUpload.Sound (u : ActiveUpload) : Prop where
  shape : checkUploadShape u.size u.chunkSize = .ok u.totalChunks
  length : Bits.bytesFor u.totalChunks ≤ u.bitmap.length
  received : u.received = countChunks u.bitmap u.totalChunks

/-- The row of an upload marks what was saved of it. -/
structure ActiveUpload.Saves (u : ActiveUpload) (r : TransferRow) : Prop where
  size : rowSize r = u.size
  chunkSize : rowChunkSize r = u.chunkSize
  marks : Marks u.totalChunks r.bitmap u.bitmap
  saved : u.unsaved = 0 → Marks u.totalChunks u.bitmap r.bitmap

/-- What a task has agrees with the table and the directory. -/
structure UploadTask.Tracked (s : UploadStore) (own : UploadTask) : Prop where
  sound : ∀ u ∈ own.upload, u.Sound
  row : ∀ u ∈ own.upload, ∀ r, s.pool.db.row u.id = some r → u.Saves r
  reading : ∀ row ∈ own.row, own.Claims row.id → own.upload = none → s.Current row
  file : ∀ f ∈ own.file, ∃ bytes, s.parts f.1 = some bytes ∧ bytes.length = f.2

/-! ### Uploads in memory -/

section Sound

variable {u : ActiveUpload} {row : TransferRow} {total index : ℕ}

theorem ActiveUpload.Sound.toShape (h : u.Sound) : Shape u.size u.chunkSize u.totalChunks :=
  shape_of_checkUploadShape h.shape

theorem ActiveUpload.Sound.byte_lt (h : u.Sound) (hindex : index < u.totalChunks) :
    index / 8 < u.bitmap.length := by
  have hlength := h.length
  unfold Bits.bytesFor at hlength
  omega

theorem ActiveUpload.Sound.receive (h : u.Sound) (hindex : index < u.totalChunks)
    (hnew : hasChunk u.bitmap index = false) : (u.receive index).Sound := by
  refine ⟨h.shape, ?_, ?_⟩
  · rw [ActiveUpload.receive, length_markChunk]
    exact h.length
  · simp only [ActiveUpload.receive]
    rw [countChunks_markChunk (h.byte_lt hindex) hindex hnew, h.received]

theorem Begun.sound (h : Begun row u) : u.Sound := by
  refine ⟨h.shape, ?_, ?_⟩
  · rw [h.bitmap, List.length_replicate]
  · rw [h.received, h.bitmap, countChunks]
    symm
    refine List.countP_eq_zero.mpr fun i _ => ?_
    rw [hasChunk_replicate]
    exact Bool.false_ne_true

theorem sound_ofRow (h : Resumable row total) : (ActiveUpload.ofRow row total).Sound :=
  ⟨h, Bits.length_resizeBytes.ge, rfl⟩

/-- What a new row says of its upload. -/
theorem Begun.saves (h : Begun row u) (now : ℕ) : u.Saves { row with updatedAt := now } := by
  obtain ⟨-, hchunk, hsize, -⟩ := checkUploadShape_eq_ok.mp h.shape
  simp only [maxChunk, maxFileSize] at hchunk hsize
  refine ⟨?_, ?_, ?_, fun _ => ?_⟩
  · simp only [rowSize, h.size]
    omega
  · simp only [rowChunkSize, h.chunkSize]
    omega
  · simp only [h.row_bitmap]
    exact Marks.refl _ _
  · simp only [h.row_bitmap]
    exact Marks.refl _ _

/-- A resumed upload marks what its row does. -/
theorem saves_ofRow {r : TransferRow} (hsame : SameUpload row r) :
    (ActiveUpload.ofRow row total).Saves r := by
  obtain ⟨-, -, hsize, hchunk, hbitmap⟩ := hsame
  refine ⟨by rw [rowSize, hsize]; rfl, by rw [rowChunkSize, hchunk]; rfl, fun i hi hhas => ?_,
    fun _ i hi hhas => ?_⟩
  · rw [hbitmap] at hhas
    exact (hasChunk_resizeBytes hi).trans hhas
  · rw [hbitmap]
    exact (hasChunk_resizeBytes hi).symm.trans hhas

/-- A chunk that arrives is not saved yet. -/
theorem ActiveUpload.Saves.receive {r : TransferRow} (h : u.Saves r) (index : ℕ) :
    (u.receive index).Saves r :=
  ⟨h.size, h.chunkSize, fun i hi hhas => hasChunk_markChunk_of (h.marks i hi hhas),
    fun hzero => absurd hzero (Nat.succ_ne_zero _)⟩

theorem SameUpload.trans {p q r : TransferRow} (h : SameUpload p q) (h' : SameUpload q r) :
    SameUpload p r :=
  ⟨h'.1.trans h.1, h'.2.1.trans h.2.1, h'.2.2.1.trans h.2.2.1, h'.2.2.2.1.trans h.2.2.2.1,
    h'.2.2.2.2.trans h.2.2.2.2⟩

end Sound

/-! ### Chunks that are written -/

section Writing

variable {sha256 : List UInt8 → List UInt8} {u : ActiveUpload} {chunk : ChunkRequest}
  {s : UploadStore} {bytes data : List UInt8}

theorem checkChunk_eq_ok : checkChunk sha256 u chunk = .ok () ↔ chunk.index < u.totalChunks ∧
    chunk.data.length = u.chunkLen chunk.index ∧ sha256 chunk.data = chunk.hash := by
  simp [checkChunk, checks_pass, refuseIf_eq_ok]

/-- A chunk that is written lies in the file, also if only part of it is. -/
theorem ActiveUpload.Sound.inside (h : u.Sound) {index : ℕ} (hindex : index < u.totalChunks)
    (hdata : data.length ≤ u.chunkLen index) (hbytes : bytes.length = u.size) :
    index * u.chunkSize + data.length ≤ bytes.length := by
  have hle := h.toShape.chunk_le hindex
  rw [ActiveUpload.chunkLen] at hdata
  omega

end Writing

/-! ### What a step does -/

section Tracked

variable {sha256 : List UInt8 → List UInt8} {limits : TransferLimits} {s s' : UploadStore}
  {own own' : UploadTask} {rest : Multiset UploadTask} {label : UploadStep}

/-- What a task has to do with, the others do not touch. -/
theorem UploadTask.Tracked.of_untouched (h : own.Tracked s) (howned : own.Owned)
    (huntouched : ∀ id, own.Claims id → s.Untouched s' id) : own.Tracked s' := by
  refine ⟨h.sound, fun u hu r hr => ?_, fun row hrow hclaims hupload => ?_, fun f hf => ?_⟩
  · rw [(huntouched u.id (howned.upload u hu)).1] at hr
    exact h.row u hu r hr
  · obtain ⟨hrow', hparts⟩ := huntouched row.id hclaims
    rw [UploadStore.Current, hrow', hparts]
    exact h.reading row hrow hclaims hupload
  · rw [(huntouched f.1 (howned.file f hf)).2]
    exact h.file f hf

/-- A step that touches nothing the task has to do with. -/
theorem UploadTask.Tracked.congr (h : own.Tracked s) (hdb : s'.pool.db = s.pool.db)
    (hparts : s'.parts = s.parts) (hclaim : own'.claim = own.claim) (hrow : own'.row = own.row)
    (hfile : own'.file = own.file) (hupload : own'.upload = own.upload) : own'.Tracked s' := by
  refine ⟨?_, ?_, ?_, ?_⟩
  · rw [hupload]
    exact h.sound
  · rw [hupload, hdb]
    exact h.row
  · rw [hrow, hupload]
    unfold UploadTask.Claims UploadStore.Current
    rw [hclaim, hdb, hparts]
    exact h.reading
  · rw [hfile, hparts]
    exact h.file

/-- What is open stays open, and keeps its size, when a chunk is written. -/
theorem UploadTask.Tracked.file_written (h : own.Tracked s) {u : ActiveUpload} {index : ℕ}
    {data : List UInt8} (hupload : own.upload = some u) (hfile : own.file = some (u.id, u.size))
    (hindex : index < u.totalChunks) (hdata : data.length ≤ u.chunkLen index) :
    ∃ bytes, (s.write u index data).parts u.id = some bytes ∧ bytes.length = u.size := by
  obtain ⟨bytes, hpart, hbytes⟩ := h.file _ hfile
  refine ⟨writeAt bytes (index * u.chunkSize) data, ?_, ?_⟩
  · simp only [UploadStore.write, Function.update_self, hpart, Option.map_some]
  · rw [length_writeAt ((h.sound u hupload).inside hindex hdata hbytes), hbytes]

theorem tracked_idle : UploadTask.idle.Tracked s := ⟨nofun, nofun, nofun, nofun⟩

/-- A task with no upload and no row to resume. -/
theorem tracked_of_none (hupload : own.upload = none) (hrow : own.row = none)
    (hfile : ∀ f ∈ own.file, ∃ bytes, s.parts f.1 = some bytes ∧ bytes.length = f.2) :
    own.Tracked s := by
  refine ⟨?_, ?_, ?_, hfile⟩
  · rw [hupload]
    exact nofun
  · rw [hupload]
    exact nofun
  · rw [hrow]
    exact nofun

/-- What a move of its own keeps of what a task has in mind. -/
theorem UploadTask.Tracked.move (h : own.Tracked s)
    (hmove : UploadMove sha256 limits label (s, own) (s', own'))
    (hcurrent : ∀ bytes, label = .claim bytes → ∀ row ∈ own.row, s.Current row) :
    own'.Tracked s' := by
  cases hmove with
  | quiet hsame hown =>
    rcases hown with rfl | ⟨-, -, rfl⟩
    · exact h.congr hsame.db hsame.parts rfl rfl rfl rfl
    · exact h.congr hsame.db hsame.parts rfl rfl rfl rfl
  | claimed hvacant hclaim hrow =>
    refine ⟨?_, ?_, fun row hrow' _ _ => hcurrent _ rfl row hrow', h.file⟩
    · rw [hvacant.upload]
      exact nofun
    · rw [hvacant.upload]
      exact nofun
  | dropped => exact tracked_idle
  | held => exact h.congr rfl rfl rfl rfl rfl rfl
  | unheld => exact h.congr rfl rfl rfl rfl rfl rfl
  | listed hclaim hlisting hsame => exact h.congr hsame.db hsame.parts rfl rfl rfl rfl
  | deleted hholds hfile hrow hlisted hrows hframe =>
    refine ⟨h.sound, fun u hu r hr => ?_, fun row hrow' hclaims hupload => ?_, ?_⟩
    · rw [TransferTable.row_deleted hrows] at hr
      split at hr
      · cases hr
      · exact h.row u hu r hr
    · -- a resume does not delete its row before the upload is live
      obtain ⟨accountId, destination, bytes, hclaim⟩ := hclaims
      rcases hrow with hnone | hnone | hlive
      · rw [hnone] at hrow'
        cases hrow'
      · rw [hnone] at hclaim
        cases hclaim
      · exact absurd hupload hlive
    · rw [hfile]
      exact nofun
  | undeleted hfault hsame => exact h.congr hsame.db hsame.parts rfl rfl rfl rfl
  | removed hholds hfile hframe hparts =>
    refine ⟨h.sound, fun u hu r hr => ?_, fun row hrow hclaims hupload => ?_, ?_⟩
    · rw [hframe.pool] at hr
      exact h.row u hu r hr
    -- the row is read before its part goes, so it may lose the part but not be a different one
    · rcases h.reading row hrow hclaims hupload with hsame | hgone
      · left
        rw [hframe.pool]
        exact hsame
      · right
        rw [hparts, Function.update_apply]
        split
        · rfl
        · exact hgone
    · rw [hfile]
      exact nofun
  | parted hclaims hrow hfile hupload =>
    refine tracked_of_none hupload hrow ?_
    rw [hfile]
    exact nofun
  | sized hclaim hrow hupload hframe hparts =>
    refine tracked_of_none hupload hrow fun f hf => ?_
    obtain rfl := Option.some.inj hf
    -- the part was truncated to the length that the task has written down
    rw [hparts, Function.update_self]
    exact ⟨_, rfl, List.length_replicate⟩
  | created hbegun hclaim hrow hfile hlisting hframe hnew hrows =>
    refine ⟨fun u' hu => ?_, fun u' hu r hr => ?_, ?_, fun f hf => ?_⟩
    · obtain rfl := Option.some.inj hu
      exact hbegun.sound
    · obtain rfl := Option.some.inj hu
      -- the row is the one just inserted
      rw [TransferTable.row_created hrows hnew, if_pos hbegun.id] at hr
      obtain rfl := Option.some.inj hr
      exact hbegun.saves _
    · rw [hrow]
      exact nofun
    · rw [hframe.parts]
      exact h.file f hf
  | uncreated hupload hrow => exact tracked_of_none hupload hrow nofun
  | read hvacant hsame =>
    refine ⟨?_, ?_, fun row _ hclaims => ?_, ?_⟩
    · rw [hvacant.upload]
      exact nofun
    · rw [hvacant.upload]
      exact nofun
    · obtain ⟨accountId, destination, bytes, hclaim⟩ := hclaims
      rw [hvacant.claim] at hclaim
      cases hclaim
    · rw [hvacant.file]
      exact nofun
  | rewritten hclaims hupload hf hframe hrows =>
    refine ⟨h.sound, ?_, fun row hrow hclaims' hupload' => ?_, ?_⟩
    · rw [hupload]
      exact nofun
    · rw [UploadStore.Current, TransferTable.row_rewritten hrows fun r => (hf r).1, hframe.parts]
      -- the rewrite leaves all that is compared of the row
      rcases h.reading row hrow hclaims' hupload' with ⟨r, hr, hsame⟩ | hgone
      · left
        rw [hr]
        split
        · exact ⟨_, rfl, hsame.trans (hf r)⟩
        · exact ⟨r, rfl, hsame⟩
      · exact .inr hgone
    · rw [hframe.parts]
      exact h.file
  | opened hrow hclaims hupload hsame hpart hsize =>
    refine ⟨h.sound, ?_, fun row' hrow' hclaims' hupload' => ?_, fun f hf => ?_⟩
    · rw [hupload]
      exact nofun
    · rw [UploadStore.Current, hsame.db, hsame.parts]
      exact h.reading row' hrow' hclaims' hupload'
    · obtain rfl := Option.some.inj hf
      rw [hsame.parts]
      exact ⟨_, hpart, hsize⟩
  | unopened hclaim hupload hsame =>
    refine tracked_of_none hupload rfl ?_
    rw [hsame.parts]
    exact h.file
  | started hrow hresumable hclaim hfile hupload =>
    refine ⟨fun u hu => ?_, fun u hu r hr => ?_, nofun, h.file⟩
    · obtain rfl := Option.some.inj hu
      exact sound_ofRow hresumable
    · obtain rfl := Option.some.inj hu
      obtain ⟨bytes, hpart, -⟩ := h.file _ hfile
      rcases h.reading _ hrow ⟨_, _, _, hclaim⟩ hupload with ⟨r', hr', hsame⟩ | hgone
      · obtain rfl := Option.some.inj (hr.symm.trans hr')
        exact saves_ofRow hsame
      -- the part was opened, so it is there
      · rw [hgone] at hpart
        cases hpart
  | torn hupload hfile hclaims hcheck hnew =>
    -- a torn write is no longer than its chunk and inside the part, whose length stays
    refine ⟨h.sound, h.row, fun _ _ _ hnone => ?_, fun f hf => ?_⟩
    · rw [hupload] at hnone
      cases hnone
    · obtain rfl := Option.some.inj (hfile.symm.trans hf)
      have hindex := (checkChunk_eq_ok.mp hcheck).1
      have hlength := (checkChunk_eq_ok.mp hcheck).2.1
      exact h.file_written hupload hfile hindex ((List.length_take_le' _ _).trans hlength.le)
  | stored hupload hfile hclaims hcheck hnew =>
    obtain ⟨hindex, hlength, -⟩ := checkChunk_eq_ok.mp hcheck
    refine ⟨fun u' hu => ?_, fun u' hu r hr => ?_, nofun, fun f hf => ?_⟩
    · obtain rfl := Option.some.inj hu
      exact (h.sound _ hupload).receive hindex hnew
    · obtain rfl := Option.some.inj hu
      exact (h.row _ hupload r hr).receive _
    · obtain rfl := Option.some.inj (hfile.symm.trans hf)
      exact h.file_written hupload hfile hindex hlength.le
  | saved hupload hclaims hframe hrows =>
    refine ⟨fun u' hu => ?_, fun u' hu r hr => ?_, nofun, ?_⟩
    · obtain rfl := Option.some.inj hu
      have hsound := h.sound _ hupload
      exact ⟨hsound.shape, hsound.length, hsound.received⟩
    · obtain rfl := Option.some.inj hu
      rw [TransferTable.row_rewritten hrows fun _ => rfl, if_pos rfl] at hr
      obtain ⟨r', hr', rfl⟩ := Option.map_eq_some_iff.mp hr
      have hsaves := h.row _ hupload r' hr'
      exact ⟨hsaves.size, hsaves.chunkSize, Marks.refl _ _, fun _ => Marks.refl _ _⟩
    · rw [hframe.parts]
      exact h.file
  | closed hsame hupload =>
    refine ⟨h.sound, fun u hu r hr => ?_, fun _ _ _ hnone => absurd hnone hupload, nofun⟩
    rw [hsame.db] at hr
    exact h.row u hu r hr
  | forgotten => exact tracked_of_none rfl rfl nofun
  | beside hblobs =>
    obtain ⟨hbeside, hown⟩ := hblobs.frame
    rw [hown]
    exact h.congr hbeside.db hbeside.parts rfl rfl rfl rfl

/-- The books are those of the tasks, and every task has what the table and the directory say. -/
structure Consistent (limits : TransferLimits) (s : UploadStore) (owns : Multiset UploadTask) :
    Prop where
  booked : Booked limits s owns
  tracked : ∀ own ∈ owns, own.Tracked s

theorem Consistent.move (h : Consistent limits s (own ::ₘ rest))
    (hmove : UploadMove sha256 limits label (s, own) (s', own'))
    (hcurrent : ∀ bytes, label = .claim bytes → ∀ row ∈ own.row, s.Current row) :
    Consistent limits s' (own' ::ₘ rest) := by
  refine ⟨h.booked.move hmove, Multiset.forall_mem_cons.mpr ⟨?_, fun other hother => ?_⟩⟩
  · exact (h.tracked own (Multiset.mem_cons_self _ _)).move hmove hcurrent
  · have hmem : other ∈ own ::ₘ rest := Multiset.mem_cons_of_mem hother
    refine (h.tracked other hmem).of_untouched (h.booked.owned other hmem) fun id hid => ?_
    exact hmove.untouched fun hholds => h.booked.apart hholds hother (.inl hid)

theorem Consistent.idle {owns : Multiset UploadTask} (h : Consistent limits s owns) :
    Consistent limits s (.idle ::ₘ owns) :=
  ⟨h.booked.idle, Multiset.forall_mem_cons.mpr ⟨tracked_idle, h.tracked⟩⟩

theorem consistent_start (hs : s.live = .default) : Consistent limits s 0 :=
  ⟨booked_start hs, fun own hown => absurd hown (Multiset.notMem_zero own)⟩

end Tracked

/-! ### Resumes that are not overtaken -/

/-- The bytes that a step claims. -/
def UploadStep.claims : UploadStep → Option ℕ
  | .claim bytes => some bytes
  | _ => none

/-- A resume claims the id while the row is as it read it. -/
def UploadServer.Resumes (c : UploadServer) : Foundations.Turn UploadRequest → Prop
  | .start _ => True
  | .step i => ∀ own ∈ c.tasks[i]?.map Prod.fst, ((c.next i).bind UploadStep.claims).isSome →
      ∀ row ∈ own.row, c.shared.Current row

instance decidableSameUpload (r r' : TransferRow) : Decidable (SameUpload r r') :=
  inferInstanceAs (Decidable (_ ∧ _ ∧ _ ∧ _ ∧ _))

instance decidableCurrent (s : UploadStore) (row : TransferRow) : Decidable (s.Current row) :=
  inferInstanceAs (Decidable ((∃ r ∈ s.pool.db.row row.id, SameUpload row r) ∨
    s.parts row.id = none))

instance decidableResumes (c : UploadServer) :
    (turn : Foundations.Turn UploadRequest) → Decidable (c.Resumes turn)
  | .start _ => isTrue trivial
  | .step i => inferInstanceAs (Decidable (∀ own ∈ c.tasks[i]?.map Prod.fst,
      ((c.next i).bind UploadStep.claims).isSome → ∀ row ∈ own.row, c.shared.Current row))

/-- What the guard says of a step. -/
theorem UploadServer.Resumes.current {c : UploadServer} {i : ℕ} {label : UploadStep}
    {own : UploadTask}
    (h : c.Resumes (.step i)) (hnext : c.next i = some label)
    (hown : c.tasks[i]?.map Prod.fst = some own) (bytes : ℕ) (hlabel : label = .claim bytes) :
    ∀ row ∈ own.row, c.shared.Current row :=
  h own hown (by rw [hnext, hlabel]; rfl)

end Transfer

end KdxHotline
