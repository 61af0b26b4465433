import KdxHotline.Transfer.Resuming

/-!
# Bitmaps tell the truth

A chunk is marked when it was checked and written, and nothing writes over it
(`KdxHotline.Transfer.There`). This holds of every upload that is worked on and of every row whose
partial file is there (`KdxHotline.Transfer.marked_is_stored`), in every run in which ids are new
and no resume is overtaken between reading the row and claiming the id: whatever chunks arrive,
however writes are torn and whichever bitmaps could not be saved. So when every chunk has arrived,
and the chunks were those of a file, the partial file is that file
(`KdxHotline.Transfer.complete_eq_source`).
-/

namespace KdxHotline

namespace Transfer

open Foundations Storage

/-- The marked chunks are in the file as they were checked and written. -/
def There (stored : List (Uuid × ℕ × List UInt8)) (id : Uuid) (size chunkSize total : ℕ)
    (bitmap bytes : List UInt8) : Prop :=
  ∀ i < total, hasChunk bitmap i = true → ∃ data, (id, i, data) ∈ stored ∧
    slice bytes (i * chunkSize) (expectedChunkLen size chunkSize total i) = data

/-- A row only marks what its partial file holds. -/
def UploadStore.Truthful (s : UploadStore) : Prop :=
  ∀ id r bytes total, s.pool.db.row id = some r → s.parts id = some bytes → Resumable r total →
    There s.stored id (rowSize r) (rowChunkSize r) total r.bitmap bytes

/-- An upload only marks what its partial file holds. -/
def UploadTask.Truthful (s : UploadStore) (own : UploadTask) : Prop :=
  ∀ u ∈ own.upload, ∀ bytes, s.parts u.id = some bytes → bytes.length = u.size ∧
    There s.stored u.id u.size u.chunkSize u.totalChunks u.bitmap bytes

/-- The id of the partial file that a step creates. -/
def UploadStep.creates : UploadStep → Option Uuid
  | .createPart id => some id
  | _ => none

/-- The id that is drawn for an upload is new: no row has it. -/
def UploadServer.Fresh (c : UploadServer) : Foundations.Turn UploadRequest → Prop
  | .start _ => True
  | .step i => ∀ id ∈ (c.next i).bind UploadStep.creates, c.shared.pool.db.row id = none

instance decidableFresh (c : UploadServer) :
    (turn : Foundations.Turn UploadRequest) → Decidable (c.Fresh turn)
  | .start _ => isTrue trivial
  | .step i => inferInstanceAs (Decidable (∀ id ∈ (c.next i).bind UploadStep.creates,
      c.shared.pool.db.row id = none))

/-! ### Chunks in a file -/

section There

variable {stored stored' : List (Uuid × ℕ × List UInt8)} {id : Uuid}
  {size chunkSize total index : ℕ}
  {bitmap bitmap' bytes data : List UInt8}

/-- Fewer marks, and more that was stored. -/
theorem There.mono (h : There stored id size chunkSize total bitmap bytes)
    (hstored : stored ⊆ stored')
    (hmarks : Marks total bitmap' bitmap) :
    There stored' id size chunkSize total bitmap' bytes := by
  intro i hi hhas
  obtain ⟨data, hdata, hslice⟩ := h i hi (hmarks i hi hhas)
  exact ⟨data, hstored hdata, hslice⟩

theorem there_replicate (n : ℕ) :
    There stored id size chunkSize total (List.replicate n 0) bytes := by
  intro i _ hhas
  rw [hasChunk_replicate] at hhas
  cases hhas

/-- Chunks do not overlap. -/
theorem Shape.disjoint (h : Shape size chunkSize total) {i : ℕ} (hi : i < total)
    (hindex : index < total) (hne : i ≠ index)
    (hdata : data.length ≤ expectedChunkLen size chunkSize total index) :
    i * chunkSize + expectedChunkLen size chunkSize total i ≤ index * chunkSize ∨
      index * chunkSize + data.length ≤ i * chunkSize := by
  have hi' := h.chunk_end hi
  have hindex' := h.chunk_end hindex
  rcases Nat.lt_or_gt_of_ne hne with hlt | hgt
  · left
    have hmul := Nat.mul_le_mul_right chunkSize (Nat.succ_le_of_lt hlt)
    rw [Nat.succ_eq_add_one] at hmul
    omega
  · right
    have hmul := Nat.mul_le_mul_right chunkSize (Nat.succ_le_of_lt hgt)
    rw [Nat.succ_eq_add_one] at hmul
    omega

/-- **What is written at the place of a chunk that is not marked** leaves the marked ones there. -/
theorem There.write (h : There stored id size chunkSize total bitmap bytes)
    (hshape : Shape size chunkSize total) (hlength : bytes.length = size) (hindex : index < total)
    (hdata : data.length ≤ expectedChunkLen size chunkSize total index)
    (hnew : hasChunk bitmap index = false) :
    There stored id size chunkSize total bitmap (writeAt bytes (index * chunkSize) data) := by
  intro i hi hhas
  obtain ⟨data', hstored, hslice⟩ := h i hi hhas
  have hne : i ≠ index := by
    rintro rfl
    rw [hnew] at hhas
    cases hhas
  refine ⟨data', hstored, ?_⟩
  have hinside := hshape.chunk_le hindex
  rw [slice_writeAt_of_disjoint (by omega) (hshape.disjoint hi hindex hne hdata), hslice]

/-- **A chunk that is written whole is there.** -/
theorem There.receive (h : There stored id size chunkSize total bitmap bytes)
    (hshape : Shape size chunkSize total) (hlength : bytes.length = size) (hindex : index < total)
    (hbyte : index / 8 < bitmap.length)
    (hdata : data.length = expectedChunkLen size chunkSize total index)
    (hnew : hasChunk bitmap index = false) :
    There (stored ++ [(id, index, data)]) id size chunkSize total (markChunk bitmap index)
      (writeAt bytes (index * chunkSize) data) := by
  intro i hi hhas
  rw [hasChunk_markChunk hbyte] at hhas
  by_cases heq : i = index
  · subst heq
    have hinside := hshape.chunk_le hindex
    refine ⟨data, List.mem_append_right _ (List.mem_singleton_self _), ?_⟩
    rw [← hdata]
    exact slice_writeAt (by omega)
  · rw [decide_eq_false heq, Bool.false_or] at hhas
    obtain ⟨data', hstored, hslice⟩ := h.write hshape hlength hindex hdata.le hnew i hi hhas
    exact ⟨data', List.mem_append_left _ hstored, hslice⟩

end There

/-! ### What a step does -/

section Moves

variable {sha256 : List UInt8 → List UInt8} {limits : TransferLimits} {s s' : UploadStore}
  {own own' : UploadTask} {label : UploadStep} {u : ActiveUpload} {index : ℕ} {data : List UInt8}

theorem UploadStore.Beside.stored_subset (h : s.Beside s') : s.stored ⊆ s'.stored :=
  fun _ hmem => h.stored.symm ▸ hmem

/-- Nothing that was stored is forgotten. -/
theorem UploadMove.stored_subset (hmove : UploadMove sha256 limits label (s, own) (s', own')) :
    s.stored ⊆ s'.stored := by
  cases hmove with
  | quiet hsame | listed _ _ hsame | undeleted _ hsame | uncreated _ _ hsame | read _ hsame
  | opened _ _ _ hsame | unopened _ _ hsame | closed hsame => exact hsame.stored_subset
  | beside hblobs => exact hblobs.frame.1.stored_subset
  | claimed | held | unheld | started | torn | forgotten => exact List.Subset.refl _
  | dropped =>
    rw [dropClaim_frame]
    exact List.Subset.refl _
  | deleted _ _ _ _ _ hframe =>
    rw [hframe]
    exact List.Subset.refl _
  | removed _ _ hframe | parted _ _ _ _ hframe | sized _ _ _ hframe =>
    rw [hframe.stored]
    exact List.Subset.refl _
  | created _ _ _ _ _ hframe | rewritten _ _ _ hframe | saved _ _ hframe =>
    rw [hframe.stored]
    exact List.Subset.refl _
  | stored => exact List.subset_append_left _ _

/-- The same rows and files, and maybe more that was stored. -/
theorem UploadStore.Truthful.congr (h : s.Truthful) (hdb : s'.pool.db = s.pool.db)
    (hparts : s'.parts = s.parts) (hstored : s.stored ⊆ s'.stored) : s'.Truthful := by
  intro id r bytes total hr hbytes hresumable
  rw [hdb] at hr
  rw [hparts] at hbytes
  exact (h id r bytes total hr hbytes hresumable).mono hstored (Marks.refl _ _)

theorem UploadTask.Truthful.congr (h : own.Truthful s) (hupload : own'.upload = own.upload)
    (hparts : ∀ u ∈ own.upload, s'.parts u.id = s.parts u.id) (hstored : s.stored ⊆ s'.stored) :
    own'.Truthful s' := by
  intro u hu bytes hbytes
  rw [hupload] at hu
  rw [hparts u hu] at hbytes
  obtain ⟨hlength, hthere⟩ := h u hu bytes hbytes
  exact ⟨hlength, hthere.mono hstored (Marks.refl _ _)⟩

theorem truthful_of_none (hupload : own.upload = none) : own.Truthful s := by
  rw [UploadTask.Truthful, hupload]
  exact nofun

/-- The partial file after a write. -/
theorem written_of_parts {bytes : List UInt8} (h : (s.write u index data).parts u.id = some bytes) :
    ∃ before, s.parts u.id = some before ∧ writeAt before (index * u.chunkSize) data = bytes := by
  simpa only [UploadStore.write, Function.update_self, Option.map_eq_some_iff] using h

/-- What is written at the place of a chunk is no chunk that the row marks. -/
theorem UploadStore.Truthful.write (h : s.Truthful) (htracked : own.Tracked s)
    (htruthful : own.Truthful s) (hupload : own.upload = some u) (hindex : index < u.totalChunks)
    (hdata : data.length ≤ u.chunkLen index) (hnew : hasChunk u.bitmap index = false) :
    (s.write u index data).Truthful := by
  intro id r bytes total hr hbytes hresumable
  by_cases hid : id = u.id
  · subst hid
    obtain ⟨before, hbefore, rfl⟩ := written_of_parts hbytes
    have hsound := htracked.sound u hupload
    have hsaves := htracked.row u hupload r hr
    have hthere := h u.id r before total hr hbefore hresumable
    rw [Resumable, hsaves.size, hsaves.chunkSize, hsound.shape] at hresumable
    obtain rfl := Except.ok.inj hresumable
    rw [hsaves.size, hsaves.chunkSize] at hthere ⊢
    refine hthere.write hsound.toShape (htruthful u hupload before hbefore).1 hindex hdata ?_
    refine Bool.eq_false_iff.mpr fun hhas => ?_
    rw [hsaves.marks index hindex hhas] at hnew
    cases hnew
  · have hparts : (s.write u index data).parts id = s.parts id := Function.update_of_ne hid _ _
    exact h id r bytes total hr (hparts ▸ hbytes) hresumable

/-- **Rows stay truthful.** -/
theorem UploadStore.Truthful.move (h : s.Truthful) (htracked : own.Tracked s)
    (htruthful : own.Truthful s) (hmove : UploadMove sha256 limits label (s, own) (s', own'))
    (hfresh : ∀ id, label = .createPart id → s.pool.db.row id = none) : s'.Truthful := by
  cases hmove with
  | quiet hsame | listed _ _ hsame | undeleted _ hsame | uncreated _ _ hsame | read _ hsame
  | opened _ _ _ hsame | unopened _ _ hsame | closed hsame =>
    exact h.congr hsame.db hsame.parts hsame.stored_subset
  | beside hblobs =>
    obtain ⟨hbeside, -⟩ := hblobs.frame
    exact h.congr hbeside.db hbeside.parts hbeside.stored_subset
  | claimed | held | unheld | started | forgotten => exact h
  | dropped =>
    rw [dropClaim_frame]
    exact h
  | deleted hholds hfile hrow hlisted hrows hframe =>
    intro id r bytes total hr hbytes hresumable
    rw [hframe] at hbytes ⊢
    rw [TransferTable.row_deleted hrows] at hr
    split at hr
    · cases hr
    · exact h id r bytes total hr hbytes hresumable
  | removed hholds hfile hframe hparts =>
    intro id r bytes total hr hbytes hresumable
    rw [hparts, Function.update_apply] at hbytes
    split at hbytes
    · cases hbytes
    · rw [hframe.pool] at hr
      rw [hframe.stored]
      exact h id r bytes total hr hbytes hresumable
  | @parted s s' own i hclaims hrow hfile hupload hframe hparts =>
    intro id r bytes total hr hbytes hresumable
    rw [hframe.pool] at hr
    -- the id is new, so that no row speaks of this file
    have hne : id ≠ i := fun he => by
      rw [he, hfresh i rfl] at hr
      cases hr
    rw [hparts id hne] at hbytes
    rw [hframe.stored]
    exact h id r bytes total hr hbytes hresumable
  | @sized s s' own accountId destination size i hclaim hrow hupload hframe hparts =>
    intro id r bytes total hr hbytes hresumable
    rw [hframe.pool] at hr
    have hne : id ≠ i := fun he => by
      rw [he, hfresh i rfl] at hr
      cases hr
    rw [hparts, Function.update_of_ne hne] at hbytes
    rw [hframe.stored]
    exact h id r bytes total hr hbytes hresumable
  | created hbegun hclaim hrow hfile hlisting hframe hnew hrows =>
    intro id r bytes total hr hbytes hresumable
    rw [hframe.parts] at hbytes
    rw [hframe.stored]
    rw [TransferTable.row_created hrows hnew] at hr
    split at hr
    · obtain rfl := Option.some.inj hr
      simp only [hbegun.row_bitmap, hbegun.bitmap]
      exact there_replicate _
    · exact h id r bytes total hr hbytes hresumable
  | rewritten hclaims hupload hf hframe hrows =>
    intro id r bytes total hr hbytes hresumable
    rw [hframe.parts] at hbytes
    rw [hframe.stored]
    rw [TransferTable.row_rewritten hrows fun r => (hf r).1] at hr
    split at hr
    · obtain ⟨r', hr', rfl⟩ := Option.map_eq_some_iff.mp hr
      obtain ⟨-, -, hsize, hchunk, hbitmap⟩ := hf r'
      rw [Resumable, rowSize, rowChunkSize, hsize, hchunk] at hresumable
      have hthere := h id r' bytes total hr' hbytes hresumable
      rw [rowSize, rowChunkSize, hsize, hchunk, hbitmap]
      exact hthere
    · exact h id r bytes total hr hbytes hresumable
  | torn hupload hfile hclaims hcheck hnew =>
    obtain ⟨hindex, hlength, -⟩ := checkChunk_eq_ok.mp hcheck
    exact h.write htracked htruthful hupload hindex
      ((List.length_take_le' _ _).trans hlength.le) hnew
  | stored hupload hfile hclaims hcheck hnew =>
    obtain ⟨hindex, hlength, -⟩ := checkChunk_eq_ok.mp hcheck
    exact (h.write htracked htruthful hupload hindex hlength.le hnew).congr rfl rfl
      (List.subset_append_left _ _)
  | @saved s s' own u now hupload hclaims hframe hrows =>
    intro id r bytes total hr hbytes hresumable
    rw [hframe.parts] at hbytes
    rw [hframe.stored]
    rw [TransferTable.row_rewritten hrows fun _ => rfl] at hr
    split at hr
    case isTrue hid =>
      subst hid
      obtain ⟨r', hr', rfl⟩ := Option.map_eq_some_iff.mp hr
      have hsaves := htracked.row u hupload r' hr'
      have hthere := (htruthful u hupload bytes hbytes).2
      have hshape : checkUploadShape (rowSize r') (rowChunkSize r') = .ok total := hresumable
      rw [hsaves.size, hsaves.chunkSize, (htracked.sound u hupload).shape] at hshape
      obtain rfl := Except.ok.inj hshape
      have hsize : rowSize { r' with bitmap := u.bitmap, updatedAt := now } = u.size := hsaves.size
      have hchunk : rowChunkSize { r' with bitmap := u.bitmap, updatedAt := now } = u.chunkSize :=
        hsaves.chunkSize
      rw [hsize, hchunk]
      exact hthere
    case isFalse => exact h id r bytes total hr hbytes hresumable

/-- What a task has in mind is on the disk, and stays so in its moves. -/
theorem UploadTask.Truthful.move (h : own.Truthful s) (hrows : s.Truthful)
    (htracked : own.Tracked s)
    (hmove : UploadMove sha256 limits label (s, own) (s', own')) : own'.Truthful s' := by
  cases hmove with
  | quiet hsame hown =>
    refine h.congr ?_ (fun u _ => by rw [hsame.parts]) hsame.stored_subset
    rcases hown with rfl | ⟨-, -, rfl⟩ <;> rfl
  | listed _ _ hsame | undeleted _ hsame | closed hsame =>
    exact h.congr rfl (fun u _ => by rw [hsame.parts]) hsame.stored_subset
  | beside hblobs =>
    obtain ⟨hbeside, hown⟩ := hblobs.frame
    exact h.congr (by rw [hown]) (fun u _ => by rw [hbeside.parts]) hbeside.stored_subset
  | held | unheld => exact h.congr rfl (fun _ _ => rfl) (List.Subset.refl _)
  | claimed hvacant => exact truthful_of_none hvacant.upload
  | read hvacant => exact truthful_of_none hvacant.upload
  | dropped | forgotten => exact truthful_of_none rfl
  | parted hclaims hrow hfile hupload => exact truthful_of_none hupload
  | sized hclaim hrow hupload => exact truthful_of_none hupload
  | uncreated hupload => exact truthful_of_none hupload
  | rewritten hclaims hupload => exact truthful_of_none hupload
  | opened hrow hclaims hupload => exact truthful_of_none hupload
  | unopened hclaim hupload => exact truthful_of_none hupload
  | deleted hholds hfile hrow hlisted hrows hframe =>
    rw [hframe]
    exact h.congr rfl (fun _ _ => rfl) (List.Subset.refl _)
  | removed hholds hfile hframe hparts =>
    intro u hu bytes hbytes
    rw [hparts, Function.update_apply] at hbytes
    split at hbytes
    · cases hbytes
    · rw [hframe.stored]
      exact h u hu bytes hbytes
  | created hbegun hclaim hrow hfile hlisting hframe hnew hrows' =>
    intro u hu bytes hbytes
    obtain rfl := Option.some.inj hu
    rw [hframe.parts, hbegun.id] at hbytes
    obtain ⟨bytes', hpart, hlength⟩ := htracked.file _ hfile
    obtain rfl := Option.some.inj (hbytes.symm.trans hpart)
    refine ⟨hlength, ?_⟩
    rw [hbegun.bitmap]
    exact there_replicate _
  | @started s own row total accountId destination hrow hresumable hclaim hfile hupload =>
    intro u hu bytes hbytes
    obtain rfl := Option.some.inj hu
    have hpart : s.parts row.id = some bytes := hbytes
    obtain ⟨bytes', hpart', hlength⟩ := htracked.file _ hfile
    obtain rfl := Option.some.inj (hpart.symm.trans hpart')
    refine ⟨hlength, ?_⟩
    -- the row is still as it was read, and it marks what the file holds
    rcases htracked.reading row hrow ⟨_, _, _, hclaim⟩ hupload with ⟨r, hr, hsame⟩ | hgone
    · have hsize : rowSize r = rowSize row := by rw [rowSize, rowSize, hsame.2.2.1]
      have hchunk : rowChunkSize r = rowChunkSize row := by
        rw [rowChunkSize, rowChunkSize, hsame.2.2.2.1]
      have hresumable' : Resumable r total := by
        rw [Resumable, hsize, hchunk]
        exact hresumable
      have hthere := hrows row.id r bytes total hr hpart hresumable'
      rw [hsize, hchunk, hsame.2.2.2.2] at hthere
      exact hthere.mono (List.Subset.refl _)
        fun i hi hhas => (hasChunk_resizeBytes hi).symm.trans hhas
    · rw [hgone] at hpart
      cases hpart
  | @torn s own u chunk hupload hfile hclaims hcheck hnew =>
    obtain ⟨hindex, hlength, -⟩ := checkChunk_eq_ok.mp hcheck
    intro u' hu bytes hbytes
    obtain rfl := Option.some.inj (hupload.symm.trans hu)
    obtain ⟨before, hbefore, rfl⟩ := written_of_parts hbytes
    obtain ⟨hsize, hthere⟩ := h u hupload before hbefore
    have hdata : (chunk.data.take chunk.torn).length ≤ u.chunkLen chunk.index :=
      (List.length_take_le' _ _).trans hlength.le
    have hsound := htracked.sound u hupload
    exact ⟨(length_writeAt (hsound.inside hindex hdata hsize)).trans hsize,
      hthere.write hsound.toShape hsize hindex hdata hnew⟩
  | @stored s own u chunk hupload hfile hclaims hcheck hnew =>
    obtain ⟨hindex, hlength, -⟩ := checkChunk_eq_ok.mp hcheck
    intro u' hu bytes hbytes
    obtain rfl := Option.some.inj hu
    obtain ⟨before, hbefore, rfl⟩ := written_of_parts (u := u) hbytes
    obtain ⟨hsize, hthere⟩ := h u hupload before hbefore
    have hsound := htracked.sound u hupload
    exact ⟨(length_writeAt (hsound.inside hindex hlength.le hsize)).trans hsize,
      hthere.receive hsound.toShape hsize hindex (hsound.byte_lt hindex) hlength hnew⟩
  | @saved s s' own u now hupload hclaims hframe hrows' =>
    intro u' hu bytes hbytes
    obtain rfl := Option.some.inj hu
    rw [hframe.parts] at hbytes
    rw [hframe.stored]
    exact h u hupload bytes hbytes

end Moves

/-! ### Whole files -/

section Whole

variable {size chunkSize total : ℕ} {bytes source : List UInt8}

/-- A file is its chunks. -/
theorem Shape.eq_of_slices (h : Shape size chunkSize total) (hbytes : bytes.length = size)
    (hsource : source.length = size)
    (hslices : ∀ i < total, slice bytes (i * chunkSize) (expectedChunkLen size chunkSize total i) =
      slice source (i * chunkSize) (expectedChunkLen size chunkSize total i)) : bytes = source := by
  refine List.ext_getElem? fun k => ?_
  by_cases hk : size ≤ k
  · rw [List.getElem?_eq_none (by omega), List.getElem?_eq_none (by omega)]
  obtain ⟨hindex, hinside⟩ := h.chunk_of_byte (Nat.lt_of_not_le hk)
  have hdiv := Nat.div_add_mod k chunkSize
  rw [Nat.mul_comm] at hdiv
  have hget := congrArg (fun l => l[k % chunkSize]?) (hslices (k / chunkSize) hindex)
  simp only [slice, List.getElem?_take, if_pos hinside, List.getElem?_drop, hdiv] at hget
  exact hget

theorem ActiveUpload.Sound.hasChunk_of_isComplete {u : ActiveUpload} (h : u.Sound)
    (hcomplete : u.isComplete = true) {i : ℕ} (hi : i < u.totalChunks) :
    hasChunk u.bitmap i = true := by
  have hall : (List.range u.totalChunks).countP (hasChunk u.bitmap) =
      (List.range u.totalChunks).length := by
    rw [List.length_range]
    exact h.received.symm.trans (beq_iff_eq.mp hcomplete)
  exact List.countP_eq_length.mp hall i (List.mem_range.mpr hi)

end Whole

/-! ### Runs -/

/-- Nothing is marked that has not arrived. -/
structure Accurate (limits : TransferLimits) (s : UploadStore) (owns : Multiset UploadTask) :
    Prop where
  consistent : Consistent limits s owns
  rows : s.Truthful
  tasks : ∀ own ∈ owns, own.Truthful s

section Runs

variable {sha256 : List UInt8 → List UInt8} {limits : TransferLimits} {s s' : UploadStore}
  {own own' : UploadTask} {rest : Multiset UploadTask} {label : UploadStep} {c : UploadServer}
  {turns : List (Foundations.Turn UploadRequest)}

/-- What one move keeps. -/
theorem Accurate.move (h : Accurate limits s (own ::ₘ rest))
    (hmove : UploadMove sha256 limits label (s, own) (s', own'))
    (hcurrent : ∀ bytes, label = .claim bytes → ∀ row ∈ own.row, s.Current row)
    (hfresh : ∀ id, label = .createPart id → s.pool.db.row id = none) :
    Accurate limits s' (own' ::ₘ rest) := by
  obtain ⟨hconsistent, hrows, htasks⟩ := h
  obtain ⟨hself, hothers⟩ := Multiset.forall_mem_cons.mp htasks
  have htracked := hconsistent.tracked own (Multiset.mem_cons_self _ _)
  refine ⟨hconsistent.move hmove hcurrent, hrows.move htracked hself hmove hfresh,
    Multiset.forall_mem_cons.mpr ⟨hself.move hrows htracked hmove, fun other hother => ?_⟩⟩
  have howned := hconsistent.booked.owned other (Multiset.mem_cons_of_mem hother)
  refine (hothers other hother).congr rfl (fun u hu => ?_) hmove.stored_subset
  exact (hmove.untouched fun hholds =>
    hconsistent.booked.apart hholds hother (.inl (howned.upload u hu))).2

/-- What every run keeps. -/
theorem accurate_run (hs : s.live = .default) (hrows : s.Truthful)
    (h : Run (Guarded (UploadServer.Takes sha256 limits) fun c turn =>
      c.Resumes turn ∧ c.Fresh turn) ⟨s, []⟩ turns c) : Accurate limits c.shared c.owns := by
  refine (Tasks.invariant_of_moves (Accurate limits) (moves_serveUploads sha256 limits)
    (fun hinv => ⟨hinv.consistent.idle, hinv.rows,
      Multiset.forall_mem_cons.mpr ⟨truthful_of_none rfl, hinv.tasks⟩⟩) ?_ Tasks.moving_start h
    ⟨consistent_start hs, hrows, fun own hown => absurd hown (Multiset.notMem_zero own)⟩).2
  rintro c i label own t own' ⟨hresumes, hfresh⟩ hnext hown hinv hmove
  refine hinv.move hmove (hresumes.current hnext hown) fun id hlabel => hfresh id ?_
  rw [hnext, hlabel]
  rfl

/-- **What is marked is there.** The partial file of an upload that is worked on has its size, and
holds every chunk that is marked as it was checked and written; so it does for every row. -/
theorem marked_is_stored (hs : s.live = .default) (hrows : s.Truthful)
    (h : Run (Guarded (UploadServer.Takes sha256 limits) fun c turn =>
      c.Resumes turn ∧ c.Fresh turn) ⟨s, []⟩ turns c) :
    c.shared.Truthful ∧ ∀ own ∈ c.owns, own.Truthful c.shared :=
  have hinv := accurate_run hs hrows h
  ⟨hinv.rows, hinv.tasks⟩

/-- **A complete upload is its source.** If the chunks that were stored for it are those of a file,
then so are the bytes of its partial file. -/
theorem complete_eq_source (hs : s.live = .default) (hrows : s.Truthful)
    (h : Run (Guarded (UploadServer.Takes sha256 limits) fun c turn =>
      c.Resumes turn ∧ c.Fresh turn) ⟨s, []⟩ turns c) {own : UploadTask} (hown : own ∈ c.owns)
    {u : ActiveUpload} (hu : own.upload = some u) (hcomplete : u.isComplete = true)
    {bytes source : List UInt8} (hbytes : c.shared.parts u.id = some bytes)
    (hlength : source.length = u.size)
    (hsource : ∀ i data, (u.id, i, data) ∈ c.shared.stored →
      data = slice source (i * u.chunkSize) (u.chunkLen i)) : bytes = source := by
  have hinv := accurate_run hs hrows h
  have hsound := (hinv.consistent.tracked own hown).sound u hu
  obtain ⟨hsize, hthere⟩ := hinv.tasks own hown u hu bytes hbytes
  refine hsound.toShape.eq_of_slices hsize hlength fun i hi => ?_
  obtain ⟨data, hstored, hslice⟩ := hthere i hi (hsound.hasChunk_of_isComplete hcomplete hi)
  exact hslice.trans (hsource i data hstored)

end Runs

/-! The upload of one byte, when its chunk has been stored. -/

namespace Received

open Saturated (first)
open OneByte (begin)
open Again (chunk)

/-- The bitmap is not saved before the upload is let go of. -/
def turns : List (Foundations.Turn UploadRequest) :=
  .start (.begin begin [chunk] .release) :: List.replicate 6 (.step 0)

/-- An upload of one byte, which has arrived. -/
def upload : ActiveUpload := ⟨first, 1, minChunk, 1, [], [1], 1, 1⟩

set_option synthInstance.maxSize 256 in
theorem received : (perform (fun (c : UploadServer) turn => if c.Resumes turn ∧ c.Fresh turn then
    Tasks.take (serveUploads id .default) .idle c turn else none) ⟨OneByte.start, []⟩ turns).map
      (fun c =>
        (c.tasks.map fun t => t.1.upload, (c.shared.parts first).map fun _ => c.shared.stored)) =
    some ([some upload], some [(first, 0, [7])]) := by
  decide +kernel

/-- The server at that time. -/
theorem exists_received : ∃ (c : UploadServer) (own : UploadTask) (bytes : List UInt8),
    Run (Guarded (UploadServer.Takes id .default) fun c turn => c.Resumes turn ∧ c.Fresh turn)
      ⟨OneByte.start, []⟩ turns c ∧ own ∈ c.owns ∧ own.upload = some upload ∧
        c.shared.parts first = some bytes ∧ c.shared.stored = [(first, 0, [7])] := by
  obtain ⟨c, hperform, hseen⟩ := Option.map_eq_some_iff.mp received
  obtain ⟨htasks, hpart⟩ := Prod.mk.inj hseen
  obtain ⟨t, ht, hupload⟩ := List.map_eq_singleton_iff.mp htasks
  obtain ⟨bytes, hbytes, hstored⟩ := Option.map_eq_some_iff.mp hpart
  refine ⟨c, t.1, bytes, guarded_of_perform hperform, ?_, hupload, hbytes, hstored⟩
  rw [Tasks.owns, ht]
  exact Multiset.mem_singleton_self _

theorem truthful_start : OneByte.start.Truthful := nofun

end Received

open Received in
open Saturated (first) in
theorem marked_is_stored_received : ∃ (own : UploadTask) (bytes : List UInt8),
    own.upload = some upload ∧ bytes.length = 1 ∧
      There [(first, 0, [7])] first 1 minChunk 1 [1] bytes := by
  obtain ⟨c, own, bytes, hrun, hown, hupload, hbytes, hstored⟩ := exists_received
  obtain ⟨hlength, hthere⟩ :=
    (marked_is_stored rfl truthful_start hrun).2 own hown upload hupload bytes hbytes
  rw [hstored] at hthere
  exact ⟨own, bytes, hupload, hlength, hthere⟩

open Received in
open Saturated (first) in
/-- An upload of one byte that is complete. -/
theorem complete_eq_source_received : ∃ (c : UploadServer) (bytes : List UInt8),
    c.shared.parts first = some bytes ∧ bytes = [7] := by
  obtain ⟨c, own, bytes, hrun, hown, hupload, hbytes, hstored⟩ := exists_received
  refine ⟨c, bytes, hbytes,
    complete_eq_source rfl truthful_start hrun hown hupload rfl hbytes rfl ?_⟩
  intro i data hmem
  rw [hstored] at hmem
  obtain ⟨-, hpair⟩ := Prod.mk.inj (List.mem_singleton.mp hmem)
  obtain ⟨rfl, rfl⟩ := Prod.mk.inj hpair
  rfl

end Transfer

end KdxHotline
