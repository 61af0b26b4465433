import KdxHotline.Transfer.Exclusive

/-!
# What the sweep moves away

A finished file that no entry refers to and no upload owns is moved away. The sweep holds the ids
before it reads anything, so what it read about them stays so until it lets go of them
(`KdxHotline.Transfer.UploadTask.Informed`), whatever begins, is filed, deleted or discarded
meanwhile: nobody files the upload of an id or creates its row who has not claimed it. So what it
takes is an orphan at the very moment it does (`KdxHotline.Transfer.quarantine_takes_orphans`).
-/

namespace KdxHotline

namespace Transfer

open Foundations Storage

/-- What a task read about the ids it holds is still so. One that works on an upload has read
nothing. -/
structure UploadTask.Informed (s : UploadStore) (own : UploadTask) : Prop where
  unnamed : ∀ id ∈ own.unnamed, id ∈ own.holds ∧ id ∉ s.filed
  unowned : ∀ id ∈ own.unowned, id ∈ own.holds ∧ s.pool.db.row id = none
  claiming : own.claim ≠ none → own.unnamed = [] ∧ own.unowned = []

section Moves

variable {sha256 : List UInt8 → List UInt8} {limits : TransferLimits} {s s' : UploadStore}
  {own own' : UploadTask} {label : UploadStep} {id : Uuid}

theorem informed_of_unread (h : own.unnamed = [] ∧ own.unowned = []) : own.Informed s := by
  refine ⟨?_, ?_, fun _ => h⟩
  · rw [h.1]
    exact nofun
  · rw [h.2]
    exact nofun

/-- What a task read stays so if its ids are neither filed nor get rows. -/
theorem UploadTask.Informed.keep (h : own.Informed s) (hholds : own'.holds = own.holds)
    (hunnamed : own'.unnamed = own.unnamed) (hunowned : own'.unowned = own.unowned)
    (hclaim : own'.claim = own.claim) (hfiled : ∀ id ∈ own.unnamed, id ∈ s'.filed → id ∈ s.filed)
    (hrow : ∀ id ∈ own.unowned, s.pool.db.row id = none → s'.pool.db.row id = none) :
    own'.Informed s' := by
  refine ⟨fun id hid => ?_, fun id hid => ?_, ?_⟩
  · rw [hunnamed] at hid
    obtain ⟨hheld, hnot⟩ := h.unnamed id hid
    rw [hholds]
    exact ⟨hheld, fun hmem => hnot (hfiled id hid hmem)⟩
  · rw [hunowned] at hid
    obtain ⟨hheld, hnone⟩ := h.unowned id hid
    rw [hholds]
    exact ⟨hheld, hrow id hid hnone⟩
  · rw [hclaim, hunnamed, hunowned]
    exact h.claiming

/-- **A task only files an upload that it has claimed.** -/
theorem UploadMove.filed_of (hmove : UploadMove sha256 limits label (s, own) (s', own'))
    (hclaims : ¬own.Claims id) (hfiled : id ∈ s'.filed) : id ∈ s.filed := by
  cases hmove with
  | quiet hsame | listed _ _ hsame | undeleted _ hsame | uncreated _ _ hsame | read _ hsame
  | opened _ _ _ hsame | unopened _ _ hsame | closed hsame => exact hsame.filed ▸ hfiled
  | claimed | held | unheld | started | torn | stored | forgotten => exact hfiled
  | dropped =>
    rw [dropClaim_frame] at hfiled
    exact hfiled
  | deleted _ _ _ _ _ hframe =>
    rw [hframe] at hfiled
    exact hfiled
  | removed _ _ hframe | parted _ _ _ _ hframe | sized _ _ _ hframe => exact hframe.filed ▸ hfiled
  | created _ _ _ _ _ hframe | rewritten _ _ _ hframe | saved _ _ hframe =>
    exact hframe.filed ▸ hfiled
  | beside hblobs =>
    cases hblobs with
    | filed hclaimed =>
      rcases Finset.mem_insert.mp hfiled with rfl | hfiled
      · exact absurd hclaimed hclaims
      · exact hfiled
    | withdrawn => exact Finset.mem_of_mem_erase hfiled
    | unfiled => exact (Finset.mem_sdiff.mp hfiled).1
    | unlinked | quarantined | purged => exact hfiled
    | readTree _ hsame | readIds _ hsame => exact hsame.filed ▸ hfiled

/-- **A task only creates the row of an upload that it has claimed.** -/
theorem UploadMove.row_of (hmove : UploadMove sha256 limits label (s, own) (s', own'))
    (hclaims : ¬own.Claims id) (hnone : s.pool.db.row id = none) : s'.pool.db.row id = none := by
  have hsame (hdb : s'.pool.db = s.pool.db) : s'.pool.db.row id = none := hdb ▸ hnone
  cases hmove with
  | quiet h | listed _ _ h | undeleted _ h | uncreated _ _ h | read _ h | opened _ _ _ h
  | unopened _ _ h | closed h => exact hsame h.db
  | claimed | held | unheld | started | torn | stored | forgotten => exact hnone
  | dropped => exact hsame (by rw [dropClaim_frame])
  | deleted _ _ _ _ hrows =>
    rw [TransferTable.row_deleted hrows]
    split
    · rfl
    · exact hnone
  | removed _ _ h | parted _ _ _ _ h | sized _ _ _ h => exact hsame (by rw [h.pool])
  | created hbegun hclaim hrow hfile hlisting hframe hnew hrows =>
    have hne : id ≠ _ := fun he => hclaims (he ▸ ⟨_, _, _, hclaim⟩)
    rw [TransferTable.row_created hrows hnew, if_neg hne]
    exact hnone
  | rewritten _ _ hf _ hrows =>
    rw [TransferTable.row_rewritten hrows fun r => (hf r).1, hnone]
    split <;> rfl
  | saved _ _ _ hrows =>
    rw [TransferTable.row_rewritten hrows fun _ => rfl, hnone]
    split <;> rfl
  | beside hblobs => exact hsame hblobs.frame.1.db

/-- What a task has found out stays so in its own moves. -/
theorem UploadTask.Informed.move (h : own.Informed s)
    (hmove : UploadMove sha256 limits label (s, own) (s', own')) : own'.Informed s' := by
  -- a task with a claim has read neither list, so what it files is not among them
  have hclaims {ids : List Uuid} (hids : own.claim ≠ none → ids = []) :
      ∀ i ∈ ids, ¬own.Claims i := by
    rintro i hi ⟨accountId, destination, bytes, hclaim⟩
    rw [hids (hclaim ▸ Option.some_ne_none _)] at hi
    cases hi
  have hfiled : ∀ i ∈ own.unnamed, i ∈ s'.filed → i ∈ s.filed := fun i hi =>
    hmove.filed_of (hclaims (fun hne => (h.claiming hne).1) i hi)
  have hrow : ∀ i ∈ own.unowned, s.pool.db.row i = none → s'.pool.db.row i = none := fun i hi =>
    hmove.row_of (hclaims (fun hne => (h.claiming hne).2) i hi)
  cases hmove with
  | quiet hsame hown =>
    rcases hown with rfl | ⟨-, -, rfl⟩
    · exact h.keep rfl rfl rfl rfl hfiled hrow
    · exact h.keep rfl rfl rfl rfl hfiled hrow
  | claimed hvacant => exact informed_of_unread hvacant.free.unread
  | dropped => exact informed_of_unread ⟨rfl, rfl⟩
  | held hunread => exact informed_of_unread hunread
  | unheld => exact informed_of_unread ⟨rfl, rfl⟩
  | listed | deleted | undeleted | removed | parted | sized | created | uncreated | read | rewritten
  | opened | unopened | started | torn | stored | saved | closed | forgotten =>
    exact h.keep rfl rfl rfl rfl hfiled hrow
  | beside hblobs =>
    cases hblobs with
    | filed | withdrawn | unfiled | unlinked | quarantined | purged =>
      exact h.keep rfl rfl rfl rfl hfiled hrow
    | readTree hclaim hsame =>
      refine ⟨fun i hi => ?_, fun i hi => ?_, fun hne => absurd hclaim hne⟩
      · obtain ⟨hheld, hnot⟩ := List.mem_filter.mp hi
        rw [hsame.filed]
        exact ⟨hheld, of_decide_eq_true hnot⟩
      · exact ⟨(h.unowned i hi).1, hrow i hi (h.unowned i hi).2⟩
    | readIds hclaim hsame =>
      refine ⟨fun i hi => ?_, fun i hi => ?_, fun hne => absurd hclaim hne⟩
      · exact ⟨(h.unnamed i hi).1, fun hmem => (h.unnamed i hi).2 (hfiled i hi hmem)⟩
      · obtain ⟨hheld, hnot⟩ := List.mem_filter.mp hi
        refine ⟨hheld, ?_⟩
        rw [hsame.db, TransferTable.row_eq_none]
        intro r hr he
        exact of_decide_eq_true hnot (he ▸ List.mem_map_of_mem hr)

end Moves

/-! ### Runs -/

section Runs

variable {sha256 : List UInt8 → List UInt8} {limits : TransferLimits} {s s' : UploadStore}
  {own own' : UploadTask} {rest : Multiset UploadTask} {label : UploadStep}
  {c c' : UploadServer} {turns : List (Foundations.Turn UploadRequest)}

/-- The books are those of the tasks, and what each of them read is still so. -/
structure Watched (limits : TransferLimits) (s : UploadStore) (owns : Multiset UploadTask) :
    Prop where
  booked : Booked limits s owns
  informed : ∀ own ∈ owns, own.Informed s

/-- What one move keeps. -/
theorem Watched.move (h : Watched limits s (own ::ₘ rest))
    (hmove : UploadMove sha256 limits label (s, own) (s', own')) :
    Watched limits s' (own' ::ₘ rest) := by
  refine ⟨h.booked.move hmove, Multiset.forall_mem_cons.mpr ⟨?_, fun other hother => ?_⟩⟩
  · exact (h.informed own (Multiset.mem_cons_self _ _)).move hmove
  · -- whoever holds an id keeps the others from claiming it
    have hinformed := h.informed other (Multiset.mem_cons_of_mem hother)
    have hapart {id : Uuid} (hheld : id ∈ other.holds) : ¬own.Claims id := fun hclaims =>
      h.booked.apart (.inl hclaims) hother (.inr hheld)
    exact hinformed.keep rfl rfl rfl rfl
      (fun id hid => hmove.filed_of (hapart (hinformed.unnamed id hid).1))
      fun id hid => hmove.row_of (hapart (hinformed.unowned id hid).1)

theorem watched_run (hs : s.live = .default)
    (h : Run (UploadServer.Takes sha256 limits) ⟨s, []⟩ turns c) :
    c.Moving (UploadMove sha256 limits) UploadTask.Vacant ∧ Watched limits c.shared c.owns := by
  refine Tasks.invariant_of_moves (Watched limits) (moves_serveUploads sha256 limits)
    (fun hinv => ⟨hinv.booked.idle,
      Multiset.forall_mem_cons.mpr ⟨informed_of_unread ⟨rfl, rfl⟩, hinv.informed⟩⟩)
    (fun _ _ _ => Watched.move) Tasks.moving_start
    (h.mono fun hstep => (⟨hstep, trivial⟩ : Guarded _ (fun _ _ => True) _ _ _))
    ⟨booked_start hs, fun own hown => absurd hown (Multiset.notMem_zero own)⟩

/-- What is moved away has no name, no row and nobody who works on it. -/
theorem quarantined_of_move (h : Watched limits s (own ::ₘ rest))
    (hmove : UploadMove sha256 limits label (s, own) (s', own')) {entry : (Uuid × ℕ) × List UInt8}
    (hentry : entry ∈ s'.quarantine) (hnew : entry ∉ s.quarantine) :
    entry.1.1 ∉ s.filed ∧ s.pool.db.row entry.1.1 = none ∧ s.blobs entry.1.1 = some entry.2 ∧
      s'.parts = s.parts ∧ entry.1.1 ∈ own.holds := by
  have hinformed := h.informed own (Multiset.mem_cons_self _ _)
  cases hmove with
  | quiet hsame | listed _ _ hsame | undeleted _ hsame | uncreated _ _ hsame | read _ hsame
  | opened _ _ _ hsame | unopened _ _ hsame | closed hsame =>
    exact absurd (hsame.quarantine ▸ hentry) hnew
  | claimed | held | unheld | started | torn | stored | forgotten => exact absurd hentry hnew
  | dropped =>
    rw [dropClaim_frame] at hentry
    exact absurd hentry hnew
  | deleted _ _ _ _ _ hframe =>
    rw [hframe] at hentry
    exact absurd hentry hnew
  | removed _ _ hframe | parted _ _ _ _ hframe | sized _ _ _ hframe =>
    rw [hframe.eq] at hentry
    exact absurd hentry hnew
  | created _ _ _ _ _ hframe | rewritten _ _ _ hframe | saved _ _ hframe =>
    rw [hframe.eq] at hentry
    exact absurd hentry hnew
  | beside hblobs =>
    cases hblobs with
    | filed | withdrawn | unfiled | unlinked => exact absurd hentry hnew
    | readTree _ hsame | readIds _ hsame => exact absurd (hsame.quarantine ▸ hentry) hnew
    | purged hsublist => exact absurd (hsublist.subset hentry) hnew
    | quarantined hunnamed hunowned hblob =>
      rcases List.mem_append.mp hentry with hentry | hentry
      · exact absurd hentry hnew
      · obtain rfl := List.mem_singleton.mp hentry
        obtain ⟨hheld, hnot⟩ := hinformed.unnamed _ hunnamed
        exact ⟨hnot, (hinformed.unowned _ hunowned).2, hblob, rfl, hheld⟩

/-- **The sweep only takes orphans.** In every run, whatever fails, at the moment a file is moved
away no entry refers to it, no row owns it, and no other task works on its upload or holds its
id. -/
theorem quarantine_takes_orphans (hs : s.live = .default)
    (h : Run (UploadServer.Takes sha256 limits) ⟨s, []⟩ turns c) {i : ℕ}
    (htakes : UploadServer.Takes sha256 limits c (.step i) c') {entry : (Uuid × ℕ) × List UInt8}
    (hentry : entry ∈ c'.shared.quarantine) (hnew : entry ∉ c.shared.quarantine) :
    entry.1.1 ∉ c.shared.filed ∧ c.shared.pool.db.row entry.1.1 = none ∧
      c.shared.blobs entry.1.1 = some entry.2 ∧ c'.shared.parts = c.shared.parts ∧
        ∀ j own, j ≠ i → c.tasks[j]?.map Prod.fst = some own → ¬own.Holds entry.1.1 := by
  obtain ⟨hmoving, hwatched⟩ := watched_run hs h
  obtain ⟨-, own, own', label, hown, -, -, howns, -, -, hmove⟩ := hmoving.step htakes
  rw [howns] at hwatched
  obtain ⟨hnamed, howned, hblob, hparts, hheld⟩ := quarantined_of_move hwatched hmove hentry hnew
  exact ⟨hnamed, howned, hblob, hparts, fun j other hij hj =>
    hwatched.booked.apart (.inr hheld) (Tasks.mem_others hij hj)⟩

end Runs

/-! A file of one byte that a crash has left. -/

namespace Leftover

open Saturated (first)

/-- A store with a file that the tree has no entry for. -/
def start : UploadStore :=
  { OneByte.start with blobs := fun id => if id = first then some [7] else none }

/-- A run of the server on that store. -/
def run (turns : List (Foundations.Turn UploadRequest)) : Option UploadServer :=
  perform (Tasks.take (serveUploads id .default) .idle) ⟨start, []⟩ turns

/-- The ids are held, and the entries and rows are read. -/
def turns : List (Foundations.Turn UploadRequest) :=
  .start (.sweepBlobs 5 none [first]) :: List.replicate 4 (.step 0)

theorem moved : ((run turns).bind fun c =>
    (Tasks.take (serveUploads id .default) .idle c (.step 0)).map fun c' =>
      (c.shared.quarantine, c'.shared.quarantine)) = some ([], [((first, 5), [7])]) := by
  decide +kernel

end Leftover

open Leftover in
open Saturated (first) in
/-- A file without an entry and without a row, before it is moved. -/
theorem quarantine_takes_orphans_left : ∃ c : UploadServer,
    first ∉ c.shared.filed ∧ c.shared.pool.db.row first = none ∧
      c.shared.blobs first = some [7] := by
  obtain ⟨c, hrun, hnext⟩ := Option.bind_eq_some_iff.mp moved
  obtain ⟨c', htake, hseen⟩ := Option.map_eq_some_iff.mp hnext
  obtain ⟨hbefore, hafter⟩ := Prod.mk.inj hseen
  have hentry : ((first, 5), [7]) ∈ c'.shared.quarantine := by
    rw [hafter]
    exact List.mem_singleton_self _
  have hnew : ((first, 5), [7]) ∉ c.shared.quarantine := by
    rw [hbefore]
    exact nofun
  obtain ⟨hnamed, howned, hblob, -⟩ :=
    quarantine_takes_orphans rfl (run_of_perform hrun) htake hentry hnew
  exact ⟨c, hnamed, howned, hblob⟩

end Transfer

end KdxHotline
