import KdxHotline.Transfer.Tracked

/-!
# What was received is not lost

Who lets go of an upload saves its bitmap before the claim is dropped, and who resumes it claims the
id before working on it. So a resume sees every chunk that anyone before it had received
(`KdxHotline.Transfer.resume_sees_received`), in every run in which bitmaps can be saved and no
resume is overtaken between reading the row and claiming the id.
-/

namespace KdxHotline

namespace Transfer

open Foundations Storage

/-- The rows mark every chunk that was received before an upload was let go of. -/
def Remembered (s : UploadStore) : Prop :=
  ∀ p ∈ s.partings, ∃ r, s.pool.db.row p.1 = some r ∧
    ∀ total, Resumable r total → Marks total p.2 r.bitmap

/-- A bitmap can be saved. -/
def UploadServer.CanSave (c : UploadServer) : Foundations.Turn UploadRequest → Prop
  | .start _ => True
  | .step i => c.next i = some .save → c.shared.pool.faults.headD false = false

instance decidableCanSave (c : UploadServer) :
    (turn : Foundations.Turn UploadRequest) → Decidable (c.CanSave turn)
  | .start _ => isTrue trivial
  | .step i => inferInstanceAs (Decidable (c.next i = some .save →
      c.shared.pool.faults.headD false = false))

section Remembered

variable {sha256 : List UInt8 → List UInt8} {limits : TransferLimits} {s s' : UploadStore}
  {own own' : UploadTask} {rest : Multiset UploadTask} {label : UploadStep}

theorem Remembered.congr (h : Remembered s) (hdb : s'.pool.db = s.pool.db)
    (hpartings : s'.partings = s.partings) : Remembered s' := by
  rw [Remembered, hdb, hpartings]
  exact h

/-- A row that still says the same of its upload is as good. -/
theorem resumable_of_same {r r' : TransferRow} {total : ℕ} (h : SameUpload r r')
    (hresumable : Resumable r' total) : Resumable r total := by
  rw [Resumable, rowSize, rowChunkSize, h.2.2.1, h.2.2.2.1] at hresumable
  exact hresumable

/-- What one move keeps of the partings. -/
theorem Remembered.move (h : Remembered s) (htracked : own.Tracked s) (hfailed : own.failed = false)
    (hmove : UploadMove sha256 limits label (s, own) (s', own')) : Remembered s' := by
  cases hmove with
  | quiet hsame | listed _ _ hsame | undeleted _ hsame | uncreated _ _ hsame | read _ hsame
  | opened _ _ _ hsame | unopened _ _ hsame | closed hsame => exact h.congr hsame.db hsame.partings
  | beside hblobs => exact h.congr hblobs.frame.1.db hblobs.frame.1.partings
  | claimed | held | unheld | started | torn | stored | forgotten => exact h
  | removed _ _ hframe | parted _ _ _ _ hframe | sized _ _ _ hframe =>
    exact h.congr (by rw [hframe.pool]) hframe.partings
  | dropped hclaim hhold hsaved =>
    intro p hp
    simp only [UploadStore.dropClaim, hclaim] at hp ⊢
    rcases List.mem_append.mp hp with hp | hp
    · exact h p hp
    · -- the upload that is let go of: what it received was saved
      obtain ⟨u, hu, hp⟩ := List.mem_flatMap.mp hp
      have hupload := Option.mem_toList.mp hu
      rw [UploadStore.parting] at hp
      split at hp
      case isFalse => cases hp
      case isTrue hsome =>
        obtain rfl := List.mem_singleton.mp hp
        obtain ⟨r, hr⟩ := Option.isSome_iff_exists.mp hsome
        have hsaves := htracked.row u hupload r hr
        have hzero : u.unsaved = 0 := by
          rcases hsaved u hupload with hzero | hfail
          · exact hzero
          · rw [hfailed] at hfail
            cases hfail
        refine ⟨r, hr, fun total hresumable => ?_⟩
        rw [Resumable, hsaves.size, hsaves.chunkSize,
          (htracked.sound u hupload).shape] at hresumable
        exact Except.ok.inj hresumable ▸ hsaves.saved hzero
  | deleted hholds hfile hrow hlisted hrows hframe =>
    intro p hp
    rw [hframe] at hp
    obtain ⟨hp, hne⟩ := List.mem_filter.mp hp
    rw [TransferTable.row_deleted hrows, if_neg (of_decide_eq_true hne)]
    exact h p hp
  | created hbegun hclaim hrow hfile hlisting hframe hnew hrows =>
    intro p hp
    rw [hframe.partings] at hp
    obtain ⟨r, hr, hmarks⟩ := h p hp
    rw [TransferTable.row_created hrows hnew]
    split
    case isTrue heq =>
      rw [heq, hnew] at hr
      cases hr
    case isFalse => exact ⟨r, hr, hmarks⟩
  | rewritten hclaims hupload hf hframe hrows =>
    intro p hp
    rw [hframe.partings] at hp
    obtain ⟨r, hr, hmarks⟩ := h p hp
    rw [TransferTable.row_rewritten hrows fun r => (hf r).1, hr]
    split
    case isTrue =>
      refine ⟨_, rfl, fun total hresumable => ?_⟩
      rw [(hf r).2.2.2.2]
      exact hmarks total (resumable_of_same (hf r) hresumable)
    case isFalse => exact ⟨r, rfl, hmarks⟩
  | @saved s s' own u now hupload hclaims hframe hrows =>
    intro p hp
    rw [hframe.partings] at hp
    obtain ⟨r, hr, hmarks⟩ := h p hp
    rw [TransferTable.row_rewritten hrows fun _ => rfl, hr]
    split
    case isTrue heq =>
      -- what is saved marks what the row did
      have hsaves := htracked.row u hupload r (heq ▸ hr)
      refine ⟨_, rfl, fun total hresumable => (hmarks total hresumable).trans ?_⟩
      have hshape : checkUploadShape (rowSize r) (rowChunkSize r) = .ok total := hresumable
      rw [hsaves.size, hsaves.chunkSize, (htracked.sound u hupload).shape] at hshape
      exact Except.ok.inj hshape ▸ hsaves.marks
    case isFalse => exact ⟨r, rfl, hmarks⟩

/-- A task fails to save its bitmap only where the table cannot be written. -/
theorem failed_of_move (hfailed : own.failed = false)
    (hmove : UploadMove sha256 limits label (s, own) (s', own'))
    (hsave : label = .save → s.pool.faults.headD false = false) : own'.failed = false := by
  cases hmove with
  | quiet hsame hown =>
    rcases hown with rfl | ⟨hlabel, hfault, rfl⟩
    · exact hfailed
    · rw [hsave hlabel] at hfault
      cases hfault
  | dropped => rfl
  | claimed | held | unheld | listed | deleted | undeleted | removed | parted | sized | created
  | uncreated | read | rewritten | opened | unopened | started | torn | stored | saved | closed
  | forgotten => exact hfailed
  | beside hblobs =>
    rw [hblobs.frame.2]
    exact hfailed

end Remembered

section Runs

variable {sha256 : List UInt8 → List UInt8} {limits : TransferLimits} {s : UploadStore}
  {c : UploadServer} {turns : List (Foundations.Turn UploadRequest)}

/-- What every run keeps of the partings. -/
theorem remembered_run (hs : s.live = .default) (hpartings : s.partings = [])
    (h : Run (Guarded (UploadServer.Takes sha256 limits) fun c turn =>
      c.Resumes turn ∧ c.CanSave turn) ⟨s, []⟩ turns c) :
    Consistent limits c.shared c.owns ∧ Remembered c.shared := by
  have hstart : Remembered s := by
    rw [Remembered, hpartings]
    exact nofun
  have hinv := (Tasks.invariant_of_moves
    (fun s owns => Consistent limits s owns ∧ Remembered s ∧ ∀ own ∈ owns, own.failed = false)
    (moves_serveUploads sha256 limits)
    (fun hinv => ⟨hinv.1.idle, hinv.2.1, Multiset.forall_mem_cons.mpr ⟨rfl, hinv.2.2⟩⟩) ?_
    Tasks.moving_start h
    ⟨consistent_start hs, hstart, fun own hown => absurd hown (Multiset.notMem_zero own)⟩).2
  · exact ⟨hinv.1, hinv.2.1⟩
  rintro c i label own t own' ⟨hresumes, hcanSave⟩ hnext hown ⟨hconsistent, hremembered,
    hfailed⟩ hmove
  obtain ⟨hself, hothers⟩ := Multiset.forall_mem_cons.mp hfailed
  have htracked := hconsistent.tracked own (Multiset.mem_cons_self _ _)
  refine ⟨hconsistent.move hmove (hresumes.current hnext hown),
    hremembered.move htracked hself hmove, Multiset.forall_mem_cons.mpr ⟨?_, hothers⟩⟩
  exact failed_of_move hself hmove fun hlabel => hcanSave (hlabel ▸ hnext)

/-- **A resume sees every chunk received before it**: whoever works on an upload now has what each
of those before had received when it let go of it, and so does the row. -/
theorem resume_sees_received (hs : s.live = .default) (hpartings : s.partings = [])
    (h : Run (Guarded (UploadServer.Takes sha256 limits) fun c turn =>
      c.Resumes turn ∧ c.CanSave turn) ⟨s, []⟩ turns c) :
    ∀ p ∈ c.shared.partings,
      (∃ r, c.shared.pool.db.row p.1 = some r ∧
        ∀ total, Resumable r total → Marks total p.2 r.bitmap) ∧
      ∀ own ∈ c.owns, ∀ u ∈ own.upload, u.id = p.1 → Marks u.totalChunks p.2 u.bitmap := by
  obtain ⟨hconsistent, hremembered⟩ := remembered_run hs hpartings h
  intro p hp
  obtain ⟨r, hr, hmarks⟩ := hremembered p hp
  refine ⟨⟨r, hr, hmarks⟩, fun own hown u hu hid => ?_⟩
  have htracked := hconsistent.tracked own hown
  have hsaves := htracked.row u hu r (hid ▸ hr)
  refine (hmarks u.totalChunks ?_).trans hsaves.marks
  rw [Resumable, hsaves.size, hsaves.chunkSize]
  exact (htracked.sound u hu).shape

end Runs

/-! An upload of one byte that is received, let go of and resumed. -/

namespace Again

open Saturated (first)
open OneByte (begin folder)

/-- The only chunk. -/
def chunk : ChunkRequest := ⟨0, [7], [7], 0, false⟩

/-- A request to go on with the upload. -/
def resume : ResumeRequest :=
  ⟨"a", first, 1, minChunk, [], false, .ok ⟨folder, false, 100⟩, fun _ => false, none⟩

/-- The upload is let go of with its eighth step, and is live again after five more. -/
def turns : List (Foundations.Turn UploadRequest) :=
  .start (.begin begin [chunk] .release) :: List.replicate 8 (.step 0) ++
    .start (.resume resume [] .release) :: List.replicate 5 (.step 1)

theorem resumed : (perform (fun (c : UploadServer) turn => if c.Resumes turn ∧ c.CanSave turn then
    Tasks.take (serveUploads id .default) .idle c turn else none) ⟨OneByte.start, []⟩ turns).map
      (fun c => (c.shared.partings, c.tasks.map fun t => t.1.upload.map ActiveUpload.bitmap)) =
    some ([(first, [1])], [none, some [1]]) := by
  decide +kernel

end Again

open Again in
open Saturated (first) in
theorem resume_sees_received_again : ∃ c : UploadServer, (first, [1]) ∈ c.shared.partings ∧
    (∃ r, c.shared.pool.db.row first = some r ∧
      ∀ total, Resumable r total → Marks total [1] r.bitmap) ∧
    ∀ own ∈ c.owns, ∀ u ∈ own.upload, u.id = first → Marks u.totalChunks [1] u.bitmap := by
  obtain ⟨c, hperform, hseen⟩ := Option.map_eq_some_iff.mp resumed
  have hparting : (first, [1]) ∈ c.shared.partings := by
    rw [(Prod.mk.inj hseen).1]
    exact List.mem_singleton_self _
  exact ⟨c, hparting, resume_sees_received rfl rfl (guarded_of_perform hperform) _ hparting⟩

end Transfer

end KdxHotline
