import KdxHotline.Foundations.Crash
import KdxHotline.Transfer.Store

/-!
# Starting up

Finishing an upload takes three steps that cannot share a transaction: the entry is filed, the
partial file becomes the finished one, the row is deleted. What of them a crash has left is repaired
when the server starts, before it serves anyone; then stale uploads and partial files without a row
are discarded, and files that nothing refers to are moved away (`KdxHotline.Transfer.startup`).

What becomes of an upload depends on four things only: whether it is filed, its row, its partial
file and its finished file (`KdxHotline.Transfer.Remains`). `KdxHotline.Transfer.Remains.settled`
says what, and no step of the startup changes the answer (`KdxHotline.Transfer.Recovering`). When
all steps are done every upload is what it was to become (`KdxHotline.Transfer.lasts_startup`,
`KdxHotline.Transfer.Remains.Clean.settled`).
-/

namespace KdxHotline

namespace Transfer

open Foundations Storage

/-! ### The startup -/

/-- Make sure that a filed upload's bytes are where its entry points. Returns whether they are. -/
def moveIntoPlace (id : Uuid) : Fallible (UploadStore × UploadTask) TransferError Bool := fun s =>
  let t := { s.1 with disk := s.1.disk.tail }
  -- a partial file that is left over is an orphan now
  if (s.1.blobs id).isSome then .ok true s
  else match s.1.parts id with
  | none => .ok false s
  | some bytes =>
    if s.1.disk.headD false then .ok false (t, s.2)
    else .ok true ({ t with
      parts := Function.update s.1.parts id none
      blobs := Function.update s.1.blobs id (some bytes) }, s.2)

/-- Turn the finished file of an upload that is not filed back into its partial file. -/
def restorePart (id : Uuid) : Fallible (UploadStore × UploadTask) TransferError Unit := fun s =>
  let t := { s.1 with disk := s.1.disk.tail }
  match s.1.parts id, s.1.blobs id with
  | none, some bytes =>
    if s.1.disk.headD false then .ok () (t, s.2)
    else .ok () ({ t with
      parts := Function.update s.1.parts id (some bytes)
      blobs := Function.update s.1.blobs id none }, s.2)
  | _, _ => .ok () s

/-- The rows that were not used since a time. -/
def listStale (olderThan : ℕ) :
    Fallible (UploadStore × UploadTask) TransferError (List PendingTransfer) := fun s =>
  onTable (TransferState.listStale olderThan s.1.clock) (fun _ own => own) s

/-- Finish the upload of a row if it was filed, or else put its partial file back. -/
def recoverRow (filed : Finset Uuid) (id : Uuid) : UploadCall Unit :=
  if id ∈ filed then do
    let placed ← .call (.promote id) (moveIntoPlace id)
    if placed then quietly (.call (.deleteRow id) (deleteRow id)) else pure ()
  else .call (.restore id) (restorePart id)

/-- Recover some rows, one after another. -/
def recoverRows (filed : Finset Uuid) : List Uuid → UploadCall Unit
  | [] => pure ()
  | id :: ids => do
    recoverRow filed id
    recoverRows filed ids

/-- A partial file whose row is gone, but whose entry is filed. -/
def recoverPart (filed : Finset Uuid) (withRows : List Uuid) (id : Uuid) : UploadCall Unit :=
  if id ∉ withRows ∧ id ∈ filed then do
    let _ ← .call (.promote id) (moveIntoPlace id)
    return ()
  else pure ()

/-- Recover some partial files, one after another. -/
def recoverParts (filed : Finset Uuid) (withRows : List Uuid) : List Uuid → UploadCall Unit
  | [] => pure ()
  | id :: ids => do
    recoverPart filed withRows id
    recoverParts filed withRows ids

/-- Repair what a crash in the middle of `finish` left behind. -/
def recoverInterruptedFinishes (directory : List Uuid) : UploadCall Unit := do
  let filed ← .call .readTree referencedBlobs
  let rows ← .call .listStale (listStale 0)
  let withRows := rows.map PendingTransfer.id
  recoverRows filed withRows
  recoverParts filed withRows directory

/-- What the server does before it serves anyone. -/
def startup (olderThan now : ℕ) (retention : Option ℕ) (directory : List Uuid) :
    UploadCall Unit := do
  quietly (recoverInterruptedFinishes directory)
  sweep olderThan directory
  sweepOrphanBlobs now retention directory

/-! ### What becomes of an upload -/

/-- What there is of an upload. -/
structure Remains where
  filed : Bool
  row : Option TransferRow
  part : Option (List UInt8)
  blob : Option (List UInt8)
  deriving DecidableEq

/-- What is left of an upload. -/
def UploadStore.remains (s : UploadStore) (id : Uuid) : Remains :=
  ⟨decide (id ∈ s.filed), s.pool.db.row id, s.parts id, s.blobs id⟩

namespace Remains

/-- What is to become of an upload. One that is filed has its bytes where its entry points, and one
that can be resumed has them in its partial file. -/
def settled (stale : TransferRow → Bool) (x : Remains) : Remains :=
  if x.filed then
    match x.blob.or x.part with
    | some bytes => ⟨true, none, none, some bytes⟩
    | none => ⟨true, x.row.filter fun r => !stale r, none, none⟩
  else match x.row.filter fun r => !stale r with
    | none => ⟨false, none, none, none⟩
    | some row =>
      match x.part with
      | some bytes => ⟨false, some row, some bytes, x.blob⟩
      | none => ⟨false, some row, x.blob, none⟩

/-- The first repair is done: the bytes of a filed upload are in place, and those of one that can be
resumed are a partial file. -/
structure Repaired (x : Remains) : Prop where
  placed : x.filed = true → x.blob = none → x.part = none
  unowned : x.filed = true → x.row.isSome → x.blob = none
  resumable : x.filed = false → x.row.isSome → x.part = none → x.blob = none

/-- No row is stale, and no partial file is left without a row. -/
structure Swept (stale : TransferRow → Bool) (x : Remains) : Prop extends x.Repaired where
  fresh : ∀ r ∈ x.row, stale r = false
  owned : x.row = none → x.part = none

/-- All is done. -/
structure Clean (stale : TransferRow → Bool) (x : Remains) : Prop extends x.Swept stale where
  named : x.filed = false → x.row = none → x.blob = none

variable {stale : TransferRow → Bool} {x : Remains}

/-- **When all is done an upload is as it should be.** -/
theorem Clean.settled (h : x.Clean stale) : x.settled stale = x := by
  obtain ⟨filed, row, part, blob⟩ := x
  have hrow : (row.filter fun r => !stale r) = row := by
    cases row with
    | none => rfl
    | some r => rw [Option.filter_some, h.fresh r rfl]; rfl
  simp only [Remains.settled, hrow]
  cases filed with
  | true =>
    cases blob with
    | some bytes =>
      have hnone : row = none := by
        by_contra hsome
        cases h.unowned rfl (Option.isSome_iff_ne_none.mpr hsome)
      obtain rfl : part = none := h.owned hnone
      rw [hnone]
      rfl
    | none =>
      obtain rfl : part = none := h.placed rfl rfl
      rfl
  | false =>
    cases row with
    | none =>
      obtain rfl : part = none := h.owned rfl
      obtain rfl : blob = none := h.named rfl rfl
      rfl
    | some r =>
      cases part with
      | some bytes => rfl
      | none =>
        obtain rfl : blob = none := h.resumable rfl rfl rfl
        rfl

/-! ### What a step of the startup does to it -/

/-- The partial file of a filed upload is moved into place. -/
theorem settled_promote {bytes : List UInt8} (hfiled : x.filed = true) (hblob : x.blob = none)
    (hpart : x.part = some bytes) :
    Remains.settled stale { x with part := none, blob := some bytes } = x.settled stale := by
  simp only [Remains.settled, hfiled, hblob, hpart, if_true]
  rfl

/-- The row of an upload that is filed and in place is deleted. -/
theorem settled_placed (hfiled : x.filed = true) (hblob : x.blob.isSome) :
    Remains.settled stale { x with row := none } = x.settled stale := by
  obtain ⟨bytes, hbytes⟩ := Option.isSome_iff_exists.mp hblob
  simp only [Remains.settled, hfiled, hbytes, if_true]
  rfl

theorem settled_restore {bytes : List UInt8} (hfiled : x.filed = false)
    (hblob : x.blob = some bytes)
    (hpart : x.part = none) :
    Remains.settled stale { x with part := some bytes, blob := none } = x.settled stale := by
  simp only [Remains.settled, hfiled, hblob, hpart]
  rfl

/-- The row of an upload that is stale is deleted. -/
theorem settled_discard (h : x.Repaired) (hstale : ∀ r ∈ x.row, stale r = true) :
    Remains.settled stale { x with row := none } = x.settled stale := by
  cases hrow : x.row with
  | none => rw [← hrow]
  | some r =>
    have hfilter : (x.row.filter fun r => !stale r) = none := by
      rw [hrow, Option.filter_some, hstale r hrow]
      rfl
    cases hfiled : x.filed with
    | true =>
      have hblob := h.unowned hfiled (by rw [hrow]; rfl)
      have hpart := h.placed hfiled hblob
      simp only [Remains.settled, hfiled, hblob, hpart, hfilter, if_true]
      rfl
    | false =>
      simp only [Remains.settled, hfiled, hfilter]
      rfl

/-- A partial file without a row is removed. -/
theorem settled_unowned (h : x.Repaired) (hrow : x.row = none) :
    Remains.settled stale { x with part := none } = x.settled stale := by
  cases hfiled : x.filed with
  | true =>
    cases hblob : x.blob with
    | none => simp only [Remains.settled, hfiled, hblob, h.placed hfiled hblob, if_true]
    | some bytes =>
      simp only [Remains.settled, hfiled, hblob, if_true]
      rfl
  | false =>
    simp only [Remains.settled, hfiled, hrow]
    rfl

/-- A finished file is moved away that nothing refers to. -/
theorem settled_orphan (hfiled : x.filed = false) (hrow : x.row = none) :
    Remains.settled stale { x with blob := none } = x.settled stale := by
  simp only [Remains.settled, hfiled, hrow]
  rfl

end Remains

/-! ### What the startup keeps -/

/-- No operation is going to fail. -/
structure UploadStore.Quiet (s : UploadStore) : Prop where
  disk : ∀ b ∈ s.disk, b = false
  faults : ∀ b ∈ s.pool.faults, b = false

/-- The rows that have not been touched for so long. -/
def untouched (olderThan clock : ℕ) (r : TransferRow) : Bool :=
  decide (r.updatedAt + olderThan ≤ clock)

/-- What is known when the startup begins. -/
structure Plan where
  /-- The rows that will have been discarded in the end. -/
  stale : TransferRow → Bool
  clock : ℕ
  /-- The ids with files, as they were listed. -/
  directory : List Uuid
  /-- What is to become of every upload. -/
  aim : Uuid → Remains

/-- **Every upload is still to become what it was to become at first.** Nothing fails, no row is
from the future, and the directory was listed whole. -/
structure Recovering (plan : Plan) (s : UploadStore) : Prop where
  quiet : s.Quiet
  clock : s.clock = plan.clock
  rows : ∀ r ∈ s.pool.db.rows, r.updatedAt ≤ plan.clock
  listed : ∀ id, (s.parts id).isSome ∨ (s.blobs id).isSome → id ∈ plan.directory
  slots : ∀ id, (s.remains id).settled plan.stale = plan.aim id

/-- Only these uploads have changed. -/
structure Mended (ids : List Uuid) (s t : UploadStore) : Prop where
  live : t.live = s.live
  filed : t.filed = s.filed
  quarantine : t.quarantine = s.quarantine
  others : ∀ id ∉ ids, t.remains id = s.remains id

section Recovering

variable {plan : Plan}
  {s t u : UploadStore} {id : Uuid} {ids : List Uuid}

theorem headD_of_quiet {l : List Bool} (h : ∀ b ∈ l, b = false) : l.headD false = false := by
  cases l with
  | nil => rfl
  | cons b l => exact h b List.mem_cons_self

theorem tail_of_quiet {l : List Bool} (h : ∀ b ∈ l, b = false) : ∀ b ∈ l.tail, b = false :=
  fun b hb => h b (List.mem_of_mem_tail hb)

theorem UploadStore.Quiet.disk_headD (h : s.Quiet) : s.disk.headD false = false :=
  headD_of_quiet h.disk

theorem UploadStore.Quiet.faults_headD (h : s.Quiet) : s.pool.faults.headD false = false :=
  headD_of_quiet h.faults

theorem Mended.refl (ids : List Uuid) (s : UploadStore) : Mended ids s s :=
  ⟨rfl, rfl, rfl, fun _ _ => rfl⟩

theorem Mended.trans (h : Mended ids s t) (h' : Mended ids t u) : Mended ids s u :=
  ⟨h'.live.trans h.live, h'.filed.trans h.filed, h'.quarantine.trans h.quarantine,
    fun id hid => (h'.others id hid).trans (h.others id hid)⟩

theorem Mended.mono {ids' : List Uuid} (h : Mended ids s t) (hids : ids ⊆ ids') : Mended ids' s t :=
  ⟨h.live, h.filed, h.quarantine, fun id hid => h.others id fun hmem => hid (hids hmem)⟩

theorem Mended.other {j : Uuid} (h : Mended [id] s t) (hne : j ≠ id) : t.remains j = s.remains j :=
  h.others j fun hmem => hne (List.mem_singleton.mp hmem)

/-- One upload changes. -/
theorem mended_of_slot {y : Remains} (hlive : t.live = s.live) (hfiled : t.filed = s.filed)
    (hquarantine : t.quarantine = s.quarantine)
    (hslot : ∀ j, t.remains j = if j = id then y else s.remains j) : Mended [id] s t :=
  ⟨hlive, hfiled, hquarantine, fun j hj => by rw [hslot, if_neg (List.ne_of_not_mem_cons hj)]⟩

/-- One upload changes, and is still to become the same. -/
theorem Recovering.update {y : Remains} (h : Recovering plan s) (hquiet : t.Quiet)
    (hclock : t.clock = s.clock) (hrows : t.pool.db.rows ⊆ s.pool.db.rows)
    (hslot : ∀ j, t.remains j = if j = id then y else s.remains j)
    (hfiles : y.part.isSome ∨ y.blob.isSome → (s.parts id).isSome ∨ (s.blobs id).isSome)
    (hself : y.settled plan.stale = (s.remains id).settled plan.stale) :
    Recovering plan t := by
  refine ⟨hquiet, hclock.trans h.clock, fun r hr => h.rows r (hrows hr), fun j hj => ?_,
    fun j => ?_⟩
  · have hfile : (t.remains j).part.isSome ∨ (t.remains j).blob.isSome := hj
    rw [hslot] at hfile
    split at hfile
    case isTrue heq => exact heq ▸ h.listed id (hfiles hfile)
    case isFalse => exact h.listed j hfile
  · rw [hslot]
    split
    case isTrue heq => rw [hself, heq, h.slots id]
    case isFalse => exact h.slots j

/-- Nothing about the uploads changes. -/
theorem Recovering.same (h : Recovering plan s) (hquiet : t.Quiet)
    (hclock : t.clock = s.clock) (hdb : t.pool.db = s.pool.db) (hfiled : t.filed = s.filed)
    (hparts : t.parts = s.parts) (hblobs : t.blobs = s.blobs) :
    Recovering plan t := by
  refine ⟨hquiet, hclock.trans h.clock, ?_, ?_, fun id => ?_⟩
  · rw [hdb]
    exact h.rows
  · rw [hparts, hblobs]
    exact h.listed
  · rw [UploadStore.remains, hdb, hfiled, hparts, hblobs]
    exact h.slots id

/-- The books are of no concern. -/
theorem Recovering.booked (h : Recovering plan s) (live : Live) : Recovering plan { s with live } :=
  h.same ⟨h.quiet.disk, h.quiet.faults⟩ rfl rfl rfl rfl rfl

/-- What the functions of the startup leave. -/
structure After (plan : Plan) (own : UploadTask) (ids : List Uuid) (s : UploadStore)
    (t : UploadStore × UploadTask) : Prop where
  own : t.2 = own
  recovering : Recovering plan t.1
  mended : Mended ids s t.1

variable {own : UploadTask} {v : UploadStore × UploadTask}

theorem After.refl (h : Recovering plan s) : After plan own ids s (s, own) := ⟨rfl, h, .refl _ _⟩

theorem After.append {ids' : List Uuid} (h' : After plan own ids' t v) (h : Mended ids s t) :
    After plan own (ids ++ ids') s v :=
  ⟨h'.own, h'.recovering, (h.mono (List.subset_append_left ids ids')).trans
    (h'.mended.mono (List.subset_append_right ids ids'))⟩

end Recovering

/-! ### Single steps -/

section Steps

variable {plan : Plan}
  {s t : UploadStore} {own : UploadTask} {id : Uuid}

/-- Files of one upload change. -/
theorem slot_files (s : UploadStore) (id j : Uuid) (part blob : Option (List UInt8))
    (disk : List Bool) :
    UploadStore.remains { s with
      parts := Function.update s.parts id part
      blobs := Function.update s.blobs id blob
      disk } j = if j = id then { s.remains id with part, blob } else s.remains j := by
  simp only [UploadStore.remains, Function.update_apply]
  split
  case isTrue heq => rw [heq]
  case isFalse => rfl

/-- The outcome of making sure that a filed upload is in place. -/
theorem moveIntoPlace_returns (h : Recovering plan s) (hfiled : id ∈ s.filed) :
    ∃ placed t, Returns (moveIntoPlace id) (s, own) placed (t, own) ∧
      Recovering plan t ∧ Mended [id] s t ∧ (t.remains id).row = (s.remains id).row ∧
        (placed = true → (t.remains id).blob.isSome) ∧
          (placed = false → (t.remains id).blob = none ∧ (t.remains id).part = none) := by
  cases hblob : s.blobs id with
  | some bytes =>
    refine ⟨true, s, ?_, h, .refl _ _, rfl, fun _ => ?_, by simp⟩
    · simp only [Returns, moveIntoPlace, EStateM.run, hblob]
      rfl
    · exact Option.isSome_iff_exists.mpr ⟨bytes, hblob⟩
  | none =>
    cases hpart : s.parts id with
    | none =>
      refine ⟨false, s, ?_, h, .refl _ _, rfl, by simp, fun _ => ⟨hblob, hpart⟩⟩
      simp only [Returns, moveIntoPlace, EStateM.run, hblob, hpart]
      rfl
    | some bytes =>
      have hslot := fun j => slot_files s id j none (some bytes) s.disk.tail
      have hquiet : s.disk.headD false = false := h.quiet.disk_headD
      refine ⟨true, { s with
        parts := Function.update s.parts id none
        blobs := Function.update s.blobs id (some bytes)
        disk := s.disk.tail }, ?_, ?_, mended_of_slot rfl rfl rfl hslot, rfl, fun _ => ?_, by simp⟩
      · simp only [Returns, moveIntoPlace, EStateM.run, hblob, hpart, hquiet]
        rfl
      · refine h.update ⟨tail_of_quiet h.quiet.disk, h.quiet.faults⟩ rfl (fun _ hr => hr) hslot
          (fun _ => .inl (by rw [hpart]; rfl)) ?_
        exact Remains.settled_promote (decide_eq_true hfiled) hblob hpart
      · rw [hslot, if_pos rfl]
        rfl

/-- A file that was moved too early is a partial file again. -/
theorem restorePart_returns (h : Recovering plan s) (hfiled : id ∉ s.filed) :
    ∃ t, Returns (restorePart id) (s, own) () (t, own) ∧ Recovering plan t ∧
      Mended [id] s t ∧ ((t.remains id).part = none → (t.remains id).blob = none) := by
  cases hpart : s.parts id with
  | some bytes =>
    refine ⟨s, ?_, h, .refl _ _, fun hnone => ?_⟩
    · simp only [Returns, restorePart, EStateM.run, hpart]
    · cases hpart.symm.trans hnone
  | none =>
    cases hblob : s.blobs id with
    | none =>
      refine ⟨s, ?_, h, .refl _ _, fun _ => hblob⟩
      simp only [Returns, restorePart, EStateM.run, hpart, hblob]
    | some bytes =>
      have hslot := fun j => slot_files s id j (some bytes) none s.disk.tail
      have hquiet : s.disk.headD false = false := h.quiet.disk_headD
      refine ⟨{ s with
        parts := Function.update s.parts id (some bytes)
        blobs := Function.update s.blobs id none
        disk := s.disk.tail }, ?_, ?_, mended_of_slot rfl rfl rfl hslot, fun _ => ?_⟩
      · simp only [Returns, restorePart, EStateM.run, hblob, hpart, hquiet]
        rfl
      · refine h.update ⟨tail_of_quiet h.quiet.disk, h.quiet.faults⟩ rfl (fun _ hr => hr) hslot
          (fun _ => .inr (by rw [hblob]; rfl)) ?_
        exact Remains.settled_restore (decide_eq_false hfiled) hblob hpart
      · rw [hslot, if_pos rfl]

/-- Deleting a row succeeds while the database does. -/
theorem deleteRow_quiet (id : Uuid) (own : UploadTask) (h : s.Quiet) :
    ∃ pool, Returns (deleteRow id) (s, own) ()
      ({ s with pool, partings := s.partings.filter fun p => p.1 ≠ id },
        { own with listing := own.listing.map (Listing.discarded id) }) ∧
          (∀ b ∈ pool.faults, b = false) ∧
            pool.db.rows = s.pool.db.rows.filter fun r => r.id ≠ id := by
  have hdelete : ∃ pool, Returns (TransferState.delete id) s.pool () pool ∧
      pool.faults = s.pool.faults.tail := ⟨_, statement_returns h.faults_headD rfl, rfl⟩
  obtain ⟨pool, hreturns, hfaults⟩ := hdelete
  have hrun : TransferState.delete id s.pool = .ok () pool := hreturns
  refine ⟨pool, ?_, ?_, TransferState.delete_returns hreturns⟩
  · simp only [Returns, deleteRow, EStateM.run, hrun]
  · rw [hfaults]
    exact tail_of_quiet h.faults

/-- A row is deleted whose upload becomes the same without it. -/
theorem deleteRow_returns (h : Recovering plan s) (hlisting : own.listing = none)
    (hself : Remains.settled plan.stale { s.remains id with row := none } =
      (s.remains id).settled plan.stale) :
    ∃ t, Returns (deleteRow id) (s, own) () (t, own) ∧ Recovering plan t ∧
      Mended [id] s t ∧ t.remains id = { s.remains id with row := none } := by
  obtain ⟨pool, hret, hfaults, hrows⟩ := deleteRow_quiet id own h.quiet
  have hslot (j : Uuid) : UploadStore.remains { s with
      pool, partings := s.partings.filter fun p => p.1 ≠ id } j =
        if j = id then { s.remains id with row := none } else s.remains j := by
    simp only [UploadStore.remains, TransferTable.row_deleted hrows]
    split
    case isTrue heq => rw [heq]
    case isFalse => rfl
  refine ⟨{ s with pool, partings := s.partings.filter fun p => p.1 ≠ id }, ?_, ?_,
    mended_of_slot rfl rfl rfl hslot, ?_⟩
  · rw [hlisting, Option.map_none, ← hlisting] at hret
    exact hret
  · refine h.update ⟨h.quiet.disk, hfaults⟩ rfl ?_ hslot (fun hfile => hfile) hself
    rw [hrows]
    exact List.filter_sublist.subset
  · rw [hslot, if_pos rfl]

/-- A partial file is removed without which the upload becomes the same. -/
theorem removePart_returns (h : Recovering plan s)
    (hself : Remains.settled plan.stale { s.remains id with part := none } =
      (s.remains id).settled plan.stale) :
    ∃ t, Returns (onDisk (fun parts => some (Function.update parts id none)) fun own => own)
      (s, own) ()
      (t, own) ∧ Recovering plan t ∧ Mended [id] s t ∧
        t.remains id = { s.remains id with part := none } := by
  have hquiet : s.disk.headD false = false := h.quiet.disk_headD
  have hslot (j : Uuid) : UploadStore.remains { s with
      parts := Function.update s.parts id none, disk := s.disk.tail } j =
        if j = id then { s.remains id with part := none } else s.remains j := by
    simp only [UploadStore.remains, Function.update_apply]
    split
    case isTrue heq => rw [heq]
    case isFalse => rfl
  refine ⟨{ s with parts := Function.update s.parts id none, disk := s.disk.tail }, ?_, ?_,
    mended_of_slot rfl rfl rfl hslot, ?_⟩
  · simp only [Returns, onDisk, EStateM.run, hquiet]
    rfl
  · refine h.update ⟨tail_of_quiet h.quiet.disk, h.quiet.faults⟩ rfl (fun _ hr => hr) hslot ?_ hself
    rintro (hpart | hblob)
    · cases hpart
    · exact .inr hblob
  · rw [hslot, if_pos rfl]

/-- A statement that only reads. -/
theorem read_returns {α : Type} (f : TransferTable → α) (next : α → UploadTask → UploadTask)
    (own : UploadTask) (h : Recovering plan s) :
    ∃ t, Returns (onTable (query f) next) (s, own) (f s.pool.db) (t, next (f s.pool.db) own) ∧
      Recovering plan t ∧ Mended [] s t ∧ t.pool.db = s.pool.db := by
  have hrun : (query f).run s.pool = .ok (f s.pool.db) ⟨s.pool.db, s.pool.faults.tail⟩ :=
    statement_returns h.quiet.faults_headD rfl
  refine ⟨{ s with pool := ⟨s.pool.db, s.pool.faults.tail⟩ }, ?_,
    h.same ⟨h.quiet.disk, tail_of_quiet h.quiet.faults⟩ rfl rfl rfl rfl rfl,
      ⟨rfl, rfl, rfl, fun _ _ => rfl⟩,
    rfl⟩
  simp only [Returns, onTable, EStateM.run, show query f s.pool = _ from hrun]

/-- The files that the tree has entries for are found. -/
theorem referencedBlobs_returns (own : UploadTask) (h : Recovering plan s) :
    ∃ t, Returns referencedBlobs (s, own) s.filed
      (t, { own with unnamed := own.holds.filter fun id => id ∉ s.filed }) ∧
        Recovering plan t ∧ Mended [] s t := by
  have hrun : (query fun _ => ()).run s.pool = .ok () ⟨s.pool.db, s.pool.faults.tail⟩ :=
    statement_returns h.quiet.faults_headD rfl
  refine ⟨{ s with pool := ⟨s.pool.db, s.pool.faults.tail⟩ }, ?_,
    h.same ⟨h.quiet.disk, tail_of_quiet h.quiet.faults⟩ rfl rfl rfl rfl rfl,
      ⟨rfl, rfl, rfl, fun _ _ => rfl⟩⟩
  simp only [Returns, referencedBlobs, EStateM.run, show (query fun _ => ()) s.pool = _ from hrun]

/-- The rows that have not been touched for so long. -/
theorem listStale_returns (olderThan : ℕ) (own : UploadTask) (h : Recovering plan s) :
    ∃ rows t, Returns (listStale olderThan) (s, own) rows (t, own) ∧ Recovering plan t ∧
      Mended [] s t ∧
      t.pool.db = s.pool.db ∧ ∀ id, id ∈ rows.map PendingTransfer.id ↔
        ∃ r ∈ s.pool.db.rows, r.updatedAt + olderThan ≤ plan.clock ∧ r.id = id := by
  obtain ⟨t, hret, ht, hmended, hdb⟩ := read_returns (fun db : TransferTable => ((db.rows.filter
    fun r => r.updatedAt + olderThan ≤ s.clock).insertionSort
      fun a b : TransferRow => a.updatedAt ≤ b.updatedAt).map TransferRow.pending)
        (fun _ own => own) own h
  refine ⟨_, t, hret, ht, hmended, hdb, fun id => ?_⟩
  simp only [List.map_map, List.mem_map, List.mem_insertionSort, List.mem_filter, decide_eq_true_eq,
    and_assoc, h.clock]
  rfl

end Steps

/-! ### The first repair -/

section Repair

variable {plan : Plan} {ids : List Uuid} {s : UploadStore} {own : UploadTask} {id : Uuid}
  {E : TransferError → UploadStore × UploadTask → Prop}

theorem lasts_quietly {x : UploadCall Unit} {I : UploadStore × UploadTask → Prop}
    {Q : Unit → UploadStore × UploadTask → Prop} {s : UploadStore × UploadTask}
    (h : x.Lasts I Q (fun _ => Q ()) s) : (quietly x).Lasts I Q E s := by
  refine Prog.lasts_bind (Prog.lasts_attempt ?_)
  exact h.mono (fun _ _ ht => Prog.lasts_pure ht) fun _ _ ht => Prog.lasts_pure ht

/-- Recovering a row repairs its upload, wherever it is cut off. -/
theorem lasts_recoverRow (h : Recovering plan s) :
    (recoverRow s.filed id).Lasts (fun t => Recovering plan t.1)
      (fun _ t => After plan .idle [id] s t ∧ (t.1.remains id).Repaired) E (s, .idle) := by
  rw [recoverRow]
  by_cases hfiled : id ∈ s.filed
  · rw [if_pos hfiled]
    obtain ⟨placed, t, hret, ht, hmended, hrow, hyes, hno⟩ := moveIntoPlace_returns h hfiled
    have hslot : (t.remains id).filed = true := by
      simp only [UploadStore.remains, hmended.filed]
      exact decide_eq_true hfiled
    refine Prog.lasts_bind (Prog.lasts_call hret ht ?_)
    cases placed with
    | true =>
      -- the blob is there, so the row may go
      have hblob := hyes rfl
      obtain ⟨u, hret', hu, hmended', hrow'⟩ := deleteRow_returns ht
        (rfl : UploadTask.idle.listing = none) (Remains.settled_placed hslot hblob)
      refine lasts_quietly (Prog.lasts_call hret' hu ⟨⟨rfl, hu, hmended.trans hmended'⟩, ?_⟩)
      rw [hrow']
      refine ⟨fun _ hnone => ?_, nofun, fun _ => nofun⟩
      rw [show (t.remains id).blob = none from hnone] at hblob
      cases hblob
    | false =>
      -- there is no file at all, and the row stays
      obtain ⟨hblob, hpart⟩ := hno rfl
      refine Prog.lasts_pure ⟨⟨rfl, ht, hmended⟩, fun _ _ => hpart, fun _ _ => hblob,
        fun hnot => ?_⟩
      rw [hslot] at hnot
      cases hnot
  · rw [if_neg hfiled]
    obtain ⟨t, hret, ht, hmended, hblob⟩ := restorePart_returns h hfiled
    have hslot : (t.remains id).filed = false := by
      simp only [UploadStore.remains, hmended.filed]
      exact decide_eq_false hfiled
    refine Prog.lasts_call hret ht ⟨⟨rfl, ht, hmended⟩, ?_, ?_, fun _ _ => hblob⟩
    · rw [hslot]
      exact nofun
    · rw [hslot]
      exact nofun

/-- What a loop has done to one upload stays if the rest of it does not come to it again. -/
theorem of_rest {P : Remains → Prop} {t u : UploadStore} (hself : P (t.remains id))
    (hmended : Mended ids t u)
    (hrest : ∀ j ∈ ids, P (u.remains j)) : ∀ j ∈ id :: ids, P (u.remains j) := by
  intro j hj
  by_cases hmem : j ∈ ids
  · exact hrest j hmem
  · rw [hmended.others j hmem]
    rcases List.mem_cons.mp hj with rfl | hmem'
    · exact hself
    · exact absurd hmem' hmem

/-- **Every upload with a row is repaired.** -/
theorem lasts_recoverRows (ids : List Uuid) (h : Recovering plan s) :
    (recoverRows s.filed ids).Lasts (fun t => Recovering plan t.1)
      (fun _ t => After plan .idle ids s t ∧ ∀ j ∈ ids, (t.1.remains j).Repaired) E
        (s, .idle) := by
  induction ids generalizing s with
  | nil => exact Prog.lasts_pure ⟨.refl h, nofun⟩
  | cons id ids ih =>
    refine Prog.Lasts.bind (lasts_recoverRow h) ?_
    rintro - ⟨t, own⟩ ⟨hafter, hrepaired⟩
    obtain rfl : own = .idle := hafter.own
    have hfiled : t.filed = s.filed := hafter.mended.filed
    refine (hfiled ▸ ih hafter.recovering).mono ?_ fun _ _ he => he
    rintro - u ⟨hafter', hrest⟩
    exact ⟨hafter'.append hafter.mended, of_rest hrepaired hafter'.mended hrest⟩

/-- Recovering a partial file repairs its upload, wherever it is cut off. -/
theorem lasts_recoverPart {withRows : List Uuid} (h : Recovering plan s)
    (hrepaired : id ∈ withRows → (s.remains id).Repaired)
    (hnone : id ∉ withRows → (s.remains id).row = none) :
    (recoverPart s.filed withRows id).Lasts (fun t => Recovering plan t.1)
      (fun _ t => After plan .idle [id] s t ∧ (t.1.remains id).Repaired ∧
        (t.1.remains id).row = (s.remains id).row) E (s, .idle) := by
  rw [recoverPart]
  by_cases hlost : id ∉ withRows ∧ id ∈ s.filed
  · rw [if_pos hlost]
    obtain ⟨placed, t, hret, ht, hmended, hrow, hyes, hno⟩ := moveIntoPlace_returns h hlost.2
    have hslot : (t.remains id).filed = true := by
      simp only [UploadStore.remains, hmended.filed]
      exact decide_eq_true hlost.2
    refine Prog.lasts_bind (Prog.lasts_call hret ht ?_)
    refine Prog.lasts_pure ⟨⟨rfl, ht, hmended⟩,
      ⟨fun _ hblob => ?_, fun _ hsome => ?_, fun hnot => ?_⟩, hrow⟩
    · cases placed with
      | true =>
        have hsome := hyes rfl
        rw [hblob] at hsome
        cases hsome
      | false => exact (hno rfl).2
    · rw [hrow, hnone hlost.1] at hsome
      cases hsome
    · rw [hslot] at hnot
      cases hnot
  · rw [if_neg hlost]
    refine Prog.lasts_pure ⟨.refl h, ?_, rfl⟩
    by_cases hmem : id ∈ withRows
    · exact hrepaired hmem
    · have hfiled : (s.remains id).filed = false := decide_eq_false fun hf => hlost ⟨hmem, hf⟩
      refine ⟨fun hf => ?_, fun hf => ?_, fun _ hsome => ?_⟩
      · rw [hfiled] at hf
        cases hf
      · rw [hfiled] at hf
        cases hf
      · rw [hnone hmem] at hsome
        cases hsome

/-- **Every upload with a partial file is repaired.** -/
theorem lasts_recoverParts {withRows : List Uuid} (ids : List Uuid)
    (h : Recovering plan s) (hrepaired : ∀ j ∈ withRows, (s.remains j).Repaired)
    (hnone : ∀ j ∉ withRows, (s.remains j).row = none) :
    (recoverParts s.filed withRows ids).Lasts (fun t => Recovering plan t.1)
      (fun _ t => After plan .idle ids s t ∧ ∀ j ∈ ids, (t.1.remains j).Repaired) E
        (s, .idle) := by
  induction ids generalizing s with
  | nil => exact Prog.lasts_pure ⟨.refl h, nofun⟩
  | cons id ids ih =>
    refine Prog.Lasts.bind (lasts_recoverPart h (hrepaired id) (hnone id)) ?_
    rintro - ⟨t, own⟩ ⟨hafter, hself, hrow⟩
    obtain rfl : own = .idle := hafter.own
    have hfiled : t.filed = s.filed := hafter.mended.filed
    have hslot (j : Uuid) (hne : j ≠ id) : t.remains j = s.remains j := hafter.mended.other hne
    have hrepaired' : ∀ j ∈ withRows, (t.remains j).Repaired := fun j hj => by
      by_cases heq : j = id
      · exact heq ▸ hself
      · exact hslot j heq ▸ hrepaired j hj
    have hnone' : ∀ j ∉ withRows, (t.remains j).row = none := fun j hj => by
      by_cases heq : j = id
      · subst heq
        exact hrow.trans (hnone j hj)
      · exact hslot j heq ▸ hnone j hj
    refine (hfiled ▸ ih hafter.recovering hrepaired' hnone').mono ?_ fun _ _ he => he
    rintro - u ⟨hafter', hrest⟩
    exact ⟨hafter'.append hafter.mended, of_rest hself hafter'.mended hrest⟩

/-- **Every upload is repaired.** -/
theorem lasts_recoverInterruptedFinishes (h : Recovering plan s) :
    (recoverInterruptedFinishes plan.directory).Lasts (fun t => Recovering plan t.1)
      (fun _ t => (∃ ids, After plan .idle ids s t) ∧ ∀ j, (t.1.remains j).Repaired) E
        (s, .idle) := by
  obtain ⟨t, hread, ht, hmended⟩ := referencedBlobs_returns UploadTask.idle h
  obtain ⟨rows, u, hlist, hu, hmended', hdb, hrows⟩ := listStale_returns 0 UploadTask.idle ht
  refine Prog.lasts_bind (Prog.lasts_call hread ht ?_)
  refine Prog.lasts_bind (Prog.lasts_call hlist hu ?_)
  have hfiled : s.filed = u.filed := (hmended.trans hmended').filed.symm
  rw [hfiled]
  refine Prog.lasts_bind ((lasts_recoverRows _ hu).mono ?_ fun _ _ he => he)
  rintro - ⟨v, own⟩ ⟨hafter, hrepaired⟩
  obtain rfl : own = .idle := hafter.own
  -- the rows that were not listed are not there
  have hnone (j : Uuid) (hj : j ∉ rows.map PendingTransfer.id) : (v.remains j).row = none := by
    rw [hafter.mended.others j hj]
    refine TransferTable.row_eq_none.mpr fun r hr heq => hj ((hrows j).mpr ⟨r, hdb ▸ hr, ?_, heq⟩)
    exact ht.rows r (hdb ▸ hr)
  rw [← (show v.filed = u.filed from hafter.mended.filed)]
  refine (lasts_recoverParts _ hafter.recovering hrepaired hnone).mono ?_ fun _ _ he => he
  rintro - w ⟨hafter', hparts⟩
  refine ⟨⟨_, (hafter'.append hafter.mended).append (hmended.trans hmended')⟩, fun j => ?_⟩
  · by_cases hdirectory : j ∈ plan.directory
    · exact hparts j hdirectory
    · rw [hafter'.mended.others j hdirectory]
      by_cases hj : j ∈ rows.map PendingTransfer.id
      · exact hrepaired j hj
      · have hpart : (v.remains j).part = none := by
          by_contra hsome
          exact hdirectory (hafter.recovering.listed j (.inl (Option.isSome_iff_ne_none.mpr hsome)))
        have hblob : (v.remains j).blob = none := by
          by_contra hsome
          exact hdirectory (hafter.recovering.listed j (.inr (Option.isSome_iff_ne_none.mpr hsome)))
        exact ⟨fun _ _ => hpart, fun _ _ => hblob, fun _ _ _ => hblob⟩

end Repair

/-! ### Discarding -/

section Discard

variable {plan : Plan} {ids : List Uuid} {s t : UploadStore} {own : UploadTask} {id : Uuid}
  {E : TransferError → UploadStore × UploadTask → Prop}

/-- Holding an id that is free. -/
theorem lasts_holding {Q : Bool → UploadStore × UploadTask → Prop} (h : Recovering plan s)
    (hfree : id ∉ s.live.held)
    (hQ : Q true ({ s with live := s.live.holdId id }, { own with holds := own.holds ++ [id] })) :
    (holding id).Lasts (fun t => Recovering plan t.1) Q E (s, own) := by
  have hhold : hold id s.live = (some (.hold id), s.live.holdId id) := if_neg hfree
  refine Prog.lasts_step ?_ ?_
  · simp only [hhold]
    exact h.booked _
  · simp only [hhold]
    exact hQ

/-- Letting go of the id that is held. -/
theorem lasts_dropHold {Q : Unit → UploadStore × UploadTask → Prop} {holds : List Uuid}
    (h : Recovering plan s) (hholds : own.holds = id :: holds)
    (hQ : Q () ({ s with live := s.live.release (.hold id) },
      { own with holds, unnamed := [], unowned := [] })) :
    dropHold.Lasts (fun t => Recovering plan t.1) Q E (s, own) := by
  refine Prog.lasts_step ?_ ?_
  · simp only [hholds]
    exact h.booked _
  · simp only [hholds]
    exact hQ

/-- What was done while an id was held. -/
theorem Mended.unheld (h : Mended ids { s with live := s.live.holdId id } t)
    (hfree : id ∉ s.live.held) :
    Mended ids s { t with live := t.live.release (.hold id) } := by
  refine ⟨?_, h.filed, h.quarantine, h.others⟩
  change t.live.dropId id = s.live
  rw [h.live, Live.holdId, Live.dropId, Finset.erase_insert hfree]

/-- A partial file is removed without which the upload becomes the same. -/
theorem lasts_removeQuietly (h : Recovering plan s)
    (hself : Remains.settled plan.stale { s.remains id with part := none } =
      (s.remains id).settled plan.stale) :
    (removeQuietly id).Lasts (fun t => Recovering plan t.1)
      (fun _ t => After plan own [id] s t ∧ t.1.remains id = { s.remains id with part := none }) E
        (s, own) := by
  obtain ⟨t, hret, ht, hmended, hslot⟩ := removePart_returns h hself
  exact lasts_quietly (Prog.lasts_call hret ht ⟨⟨rfl, ht, hmended⟩, hslot⟩)

theorem Remains.Repaired.deleted {x : Remains} (h : x.Repaired) :
    Remains.Repaired { x with row := none } :=
  ⟨h.placed, nofun, fun _ => nofun⟩

/-- A stale upload is discarded. -/
theorem lasts_discard (h : Recovering plan s) (hlisting : own.listing = none)
    (hrepaired : (s.remains id).Repaired) (hstale : ∀ r ∈ (s.remains id).row, plan.stale r = true) :
    (discard id).Lasts (fun t => Recovering plan t.1)
      (fun _ t => After plan own [id] s t ∧
        t.1.remains id = { s.remains id with row := none, part := none }) E
        (s, own) := by
  obtain ⟨t, hret, ht, hmended, hslot⟩ :=
    deleteRow_returns h hlisting (Remains.settled_discard hrepaired hstale)
  have hself : Remains.settled plan.stale { t.remains id with part := none } =
      (t.remains id).settled plan.stale := by
    refine Remains.settled_unowned ?_ ?_
    · rw [hslot]
      exact hrepaired.deleted
    · rw [hslot]
  refine Prog.lasts_bind (lasts_quietly (Prog.lasts_call hret ht ?_))
  refine (lasts_removeQuietly ht hself).mono ?_ fun _ _ he => he
  rintro - u ⟨hafter, hslot'⟩
  refine ⟨⟨hafter.own, hafter.recovering, hmended.trans hafter.mended⟩, ?_⟩
  rw [hslot', hslot]

/-- Discarding an idle upload, wherever it is cut off. -/
theorem lasts_discardIdle (h : Recovering plan s) (hfree : id ∉ s.live.held)
    (hrepaired : (s.remains id).Repaired) (hstale : ∀ r ∈ (s.remains id).row, plan.stale r = true) :
    (discardIdle id).Lasts (fun t => Recovering plan t.1)
      (fun _ t => After plan .idle [id] s t ∧
        t.1.remains id = { s.remains id with row := none, part := none }) E
        (s, .idle) := by
  have hheld := h.booked (s.live.holdId id)
  refine Prog.lasts_bind (lasts_holding h hfree ?_)
  rw [if_pos rfl]
  refine Prog.lasts_bind ((lasts_discard hheld rfl hrepaired hstale).mono ?_ fun _ _ he => he)
  rintro - ⟨t, own⟩ ⟨hafter, hslot⟩
  obtain rfl := hafter.own
  refine Prog.lasts_bind
    (lasts_dropHold hafter.recovering rfl (Prog.lasts_pure ⟨⟨rfl, ?_, ?_⟩, hslot⟩))
  · exact hafter.recovering.booked _
  · exact hafter.mended.unheld hfree

/-- **No stale upload is left.** -/
theorem lasts_discardAll (rows : List PendingTransfer) (h : Recovering plan s)
    (hheld : s.live.held = ∅)
    (hrepaired : ∀ j, (s.remains j).Repaired)
    (hstale : ∀ row ∈ rows, ∀ r ∈ (s.remains row.id).row, plan.stale r = true) :
    (discardAll rows).Lasts (fun t => Recovering plan t.1)
      (fun _ t => After plan .idle (rows.map PendingTransfer.id) s t ∧
        (∀ j, (t.1.remains j).Repaired) ∧
        ∀ j ∈ rows.map PendingTransfer.id, (t.1.remains j).row = none) E (s, .idle) := by
  induction rows generalizing s with
  | nil => exact Prog.lasts_pure ⟨.refl h, hrepaired, nofun⟩
  | cons row rows ih =>
    have hfree : row.id ∉ s.live.held := by simp [hheld]
    have hdiscard :=
      lasts_discardIdle (E := E) h hfree (hrepaired row.id) (hstale row List.mem_cons_self)
    refine Prog.lasts_bind (hdiscard.mono ?_ fun _ _ he => he)
    rintro - ⟨t, own⟩ ⟨hafter, hslot⟩
    obtain rfl : own = .idle := hafter.own
    have hother (j : Uuid) (hne : j ≠ row.id) : t.remains j = s.remains j := hafter.mended.other hne
    have hrepaired' (j : Uuid) : (t.remains j).Repaired := by
      by_cases heq : j = row.id
      · rw [heq, hslot]
        exact ⟨fun _ _ => rfl, nofun, fun _ => nofun⟩
      · rw [hother j heq]
        exact hrepaired j
    have hstale' : ∀ q ∈ rows, ∀ r ∈ (t.remains q.id).row, plan.stale r = true := fun q hq => by
      by_cases heq : q.id = row.id
      · rw [heq, hslot]
        exact nofun
      · rw [hother q.id heq]
        exact hstale q (List.mem_cons_of_mem row hq)
    have hheld' : t.live.held = ∅ := by rw [hafter.mended.live, hheld]
    refine (ih hafter.recovering hheld' hrepaired' hstale').mono ?_ fun _ _ he => he
    rintro - u ⟨hafter', hall, hrest⟩
    refine ⟨hafter'.append hafter.mended, hall,
      of_rest (P := fun x => x.row = none) ?_ hafter'.mended hrest⟩
    rw [hslot]

/-- **No partial file is left that has no row.** -/
theorem lasts_sweepOrphanParts (ids : List Uuid) (h : Recovering plan s) (hheld : s.live.held = ∅)
    (hrepaired : ∀ j, (s.remains j).Repaired) :
    (sweepOrphanParts ids).Lasts (fun t => Recovering plan t.1)
      (fun _ t => After plan .idle ids s t ∧ (∀ j, (t.1.remains j).Repaired) ∧
        (∀ j, (t.1.remains j).row = (s.remains j).row) ∧
          ∀ j ∈ ids, (t.1.remains j).row = none → (t.1.remains j).part = none) E (s, .idle) := by
  induction ids generalizing s with
  | nil => exact Prog.lasts_pure ⟨.refl h, hrepaired, fun _ => rfl, nofun⟩
  | cons id ids ih =>
    have hfree : id ∉ s.live.held := by simp [hheld]
    -- what is left after this one, and what is to be said in the end
    have hrest {t : UploadStore} {x : Remains} (hafter : After plan .idle [id] s (t, .idle))
        (hslot : t.remains id = x) (hself : x.Repaired) (hrow : x.row = (s.remains id).row)
        (hpart : x.row = none → x.part = none) :
        (sweepOrphanParts ids).Lasts (fun t => Recovering plan t.1)
          (fun _ t => After plan .idle (id :: ids) s t ∧ (∀ j, (t.1.remains j).Repaired) ∧
            (∀ j, (t.1.remains j).row = (s.remains j).row) ∧
              ∀ j ∈ id :: ids, (t.1.remains j).row = none → (t.1.remains j).part = none) E
                (t, .idle) := by
      have hother (j : Uuid) (hne : j ≠ id) : t.remains j = s.remains j := hafter.mended.other hne
      have hrepaired' (j : Uuid) : (t.remains j).Repaired := by
        by_cases heq : j = id
        · rw [heq, hslot]
          exact hself
        · exact hother j heq ▸ hrepaired j
      have hheld' : t.live.held = ∅ := hafter.mended.live ▸ hheld
      refine (ih hafter.recovering hheld' hrepaired').mono ?_ fun _ _ he => he
      rintro - u ⟨hafter', hall, hrows, hparts⟩
      refine ⟨hafter'.append hafter.mended, hall, fun j => (hrows j).trans ?_,
        of_rest (P := fun x => x.row = none → x.part = none) (hslot ▸ hpart) hafter'.mended hparts⟩
      by_cases heq : j = id
      · rw [heq, hslot, hrow]
      · rw [hother j heq]
    refine Prog.lasts_bind (lasts_holding h hfree ?_)
    rw [if_pos rfl]
    obtain ⟨t, hret, ht, hmended, hdb⟩ := read_returns (fun db : TransferTable => db.row id)
      (fun _ own => own) { UploadTask.idle with holds := [id] } (h.booked (s.live.holdId id))
    refine Prog.lasts_bind (Prog.lasts_attempt (Prog.lasts_call hret ht ?_))
    have hslot : t.remains id = s.remains id := hmended.others id List.not_mem_nil
    have hmended' := hmended.mono (List.nil_subset [id])
    simp only
    cases hrow : s.pool.db.row id with
    | none =>
      have hself : Remains.settled plan.stale { t.remains id with part := none } =
          (t.remains id).settled plan.stale := by
        rw [hslot]
        exact Remains.settled_unowned (hrepaired id) hrow
      refine Prog.lasts_bind ((lasts_removeQuietly ht hself).mono ?_ fun _ _ he => he)
      rintro - ⟨u, own⟩ ⟨hafter, hpart⟩
      obtain rfl := hafter.own
      have hrepaired' : (s.remains id).Repaired := hrepaired id
      refine Prog.lasts_bind (lasts_dropHold hafter.recovering rfl ?_)
      refine hrest (x := { s.remains id with part := none })
        ⟨rfl, hafter.recovering.booked _, (hmended'.trans hafter.mended).unheld hfree⟩
        (hpart.trans (by rw [hslot])) ⟨fun _ _ => rfl, hrepaired'.unowned, fun _ hsome => ?_⟩ rfl
          fun _ => rfl
      rw [show (s.remains id).row = none from hrow] at hsome
      cases hsome
    | some r =>
      refine Prog.lasts_bind (lasts_dropHold ht rfl ?_)
      refine hrest ⟨rfl, ht.booked _, hmended'.unheld hfree⟩ hslot (hrepaired id) rfl
        fun hnone => ?_
      cases hrow.symm.trans hnone

/-- **Every upload is swept.** -/
theorem lasts_sweep {olderThan : ℕ} (h : Recovering plan s) (hheld : s.live.held = ∅)
    (hrepaired : ∀ j, (s.remains j).Repaired)
    (hstale : ∀ r, untouched olderThan plan.clock r = true → plan.stale r = true) :
    (sweep olderThan plan.directory).Lasts (fun t => Recovering plan t.1)
      (fun _ t => (∃ ids, After plan .idle ids s t) ∧
        ∀ j, (t.1.remains j).Swept (untouched olderThan plan.clock)) E (s, .idle) := by
  obtain ⟨rows, t, hret, ht, hmended, hdb, hrows⟩ := listStale_returns olderThan .idle h
  refine Prog.lasts_bind (Prog.lasts_attempt (Prog.lasts_call hret ht ?_))
  have hslot (j : Uuid) : t.remains j = s.remains j := hmended.others j List.not_mem_nil
  have hstale' : ∀ row ∈ rows, ∀ r ∈ (t.remains row.id).row, plan.stale r = true := by
    intro row hrow r hr
    obtain ⟨q, hq, hold, hid⟩ := (hrows row.id).mp (List.mem_map_of_mem hrow)
    obtain ⟨hmem, hid'⟩ := TransferTable.row_eq_some.mp hr
    obtain rfl : q = r := s.pool.db.rows_id.eq hq (hdb ▸ hmem) (hid.trans hid'.symm)
    exact hstale q (decide_eq_true hold)
  have hheld' : t.live.held = ∅ := by rw [hmended.live, hheld]
  have hdiscard := lasts_discardAll (E := E) rows ht hheld' (fun j => hslot j ▸ hrepaired j) hstale'
  refine Prog.lasts_bind (hdiscard.mono ?_ fun _ _ he => he)
  rintro - ⟨u, own⟩ ⟨hafter, hall, hgone⟩
  obtain rfl : own = .idle := hafter.own
  have hheld'' : u.live.held = ∅ := by rw [hafter.mended.live, hheld']
  refine (lasts_sweepOrphanParts plan.directory hafter.recovering hheld'' hall).mono ?_
    fun _ _ he => he
  rintro - v ⟨hafter', hall', hkept, hparts⟩
  refine ⟨⟨_, (hafter'.append hafter.mended).append hmended⟩,
    fun j => ⟨hall' j, fun r hr => ?_, fun hnone => ?_⟩⟩
  · rw [hkept] at hr
    by_cases hj : j ∈ rows.map PendingTransfer.id
    · rw [hgone j hj] at hr
      cases hr
    · rw [hafter.mended.others j hj, hslot] at hr
      obtain ⟨hmem, hid⟩ := TransferTable.row_eq_some.mp hr
      exact decide_eq_false fun hold => hj ((hrows j).mpr ⟨r, hmem, hold, hid⟩)
  · by_cases hj : j ∈ plan.directory
    · exact hparts j hj hnone
    · by_contra hsome
      exact hj (hafter'.recovering.listed j (.inl (Option.isSome_iff_ne_none.mpr hsome)))

end Discard

/-! ### Moving orphans away -/

section Quarantine

variable {plan : Plan} {ids : List Uuid} {s t : UploadStore} {own : UploadTask} {id : Uuid}
  {now : ℕ}
  {E : TransferError → UploadStore × UploadTask → Prop}

/-- The finished file may have been moved away, if nothing refers to it. -/
def Remains.Taken (x y : Remains) : Prop :=
  y = x ∨ x.filed = false ∧ x.row = none ∧ y = { x with blob := none }

theorem Remains.Taken.trans {x y z : Remains} (h : x.Taken y) (h' : y.Taken z) : x.Taken z := by
  rcases h with rfl | ⟨hfiled, hrow, rfl⟩
  · exact h'
  · rcases h' with rfl | ⟨-, -, rfl⟩
    · exact .inr ⟨hfiled, hrow, rfl⟩
    · exact .inr ⟨hfiled, hrow, rfl⟩

theorem Remains.Taken.filed {x y : Remains} (h : x.Taken y) : y.filed = x.filed := by
  rcases h with rfl | ⟨-, -, rfl⟩ <;> rfl

theorem Remains.Taken.row {x y : Remains} (h : x.Taken y) : y.row = x.row := by
  rcases h with rfl | ⟨-, -, rfl⟩ <;> rfl

theorem Remains.Taken.blob {x y : Remains} (h : x.Taken y) (hnone : x.blob = none) :
    y.blob = none := by
  rcases h with rfl | ⟨-, -, rfl⟩
  · exact hnone
  · rfl

theorem Remains.Taken.swept {stale : TransferRow → Bool} {x y : Remains} (h : x.Taken y)
    (hx : x.Swept stale) :
    y.Swept stale := by
  rcases h with rfl | ⟨hfiled, hrow, rfl⟩
  · exact hx
  · refine ⟨⟨fun hf => ?_, fun _ _ => rfl, fun _ _ _ => rfl⟩, hx.fresh, hx.owned⟩
    cases hfiled.symm.trans hf

/-- Nothing whose finished file is still there has been moved away at this time. -/
def UploadStore.Dated (now : ℕ) (s : UploadStore) : Prop :=
  ∀ e ∈ s.quarantine, e.1.2 < now ∨ s.blobs e.1.1 = none

/-- A file without an entry and without a row is moved away. -/
theorem moveOrphan_returns (own : UploadTask) (h : Recovering plan s) (hdated : s.Dated now)
    (hfiled : (s.remains id).filed = false) (hrow : (s.remains id).row = none) :
    ∃ t, Returns (moveOrphan now id) (s, own) () (t, own) ∧ Recovering plan t ∧ t.Dated now ∧
      (∀ j, (s.remains j).Taken (t.remains j)) ∧ (t.remains id).blob = none := by
  cases hblob : s.blobs id with
  | none =>
    refine ⟨s, ?_, h, hdated, fun _ => .inl rfl, hblob⟩
    simp only [Returns, moveOrphan, EStateM.run, hblob]
  | some bytes =>
    -- two files of one id at one time would clash in the quarantine
    have hfree : (id, now) ∉ s.quarantine.map Prod.fst := by
      rintro hmem
      obtain ⟨e, he, hname⟩ := List.mem_map.mp hmem
      rcases hdated e he with hearlier | hnone
      · rw [hname] at hearlier
        exact Nat.lt_irrefl _ hearlier
      · rw [hname, hblob] at hnone
        cases hnone
    have hquiet : s.disk.headD false = false := h.quiet.disk_headD
    have hslot (j : Uuid) : UploadStore.remains { s with
        blobs := Function.update s.blobs id none
        quarantine := s.quarantine ++ [((id, now), bytes)]
        disk := s.disk.tail } j = if j = id then { s.remains id with blob := none }
          else s.remains j := by
      simp only [UploadStore.remains, Function.update_apply]
      split
      case isTrue heq => rw [heq]
      case isFalse => rfl
    refine ⟨{ s with
      blobs := Function.update s.blobs id none
      quarantine := s.quarantine ++ [((id, now), bytes)]
      disk := s.disk.tail }, ?_, ?_, fun e he => ?_, fun j => ?_, ?_⟩
    · simp only [Returns, moveOrphan, EStateM.run, hblob, if_neg hfree, hquiet]
      rfl
    · refine h.update ⟨tail_of_quiet h.quiet.disk, h.quiet.faults⟩ rfl (fun _ hr => hr) hslot ?_
        (Remains.settled_orphan hfiled hrow)
      rintro (hpart | hnone)
      · exact .inl hpart
      · cases hnone
    · change e.1.2 < now ∨ Function.update s.blobs id none e.1.1 = none
      rw [Function.update_apply]
      rcases List.mem_append.mp he with he | he
      · exact (hdated e he).imp_right fun hnone => by split <;> [rfl; exact hnone]
      · obtain rfl := List.mem_singleton.mp he
        exact .inr (if_pos rfl)
    · rw [hslot]
      split
      case isTrue heq => exact .inr ⟨heq ▸ hfiled, heq ▸ hrow, by rw [heq]⟩
      case isFalse => exact .inl rfl
    · rw [hslot, if_pos rfl]

theorem prepare_returns (own : UploadTask) (h : Recovering plan s) :
    ∃ t, Returns (onDisk some fun own => own) (s, own) () (t, own) ∧ Recovering plan t ∧
      Mended [] s t := by
  have hquiet : s.disk.headD false = false := h.quiet.disk_headD
  refine ⟨{ s with disk := s.disk.tail }, ?_,
    h.same ⟨tail_of_quiet h.quiet.disk, h.quiet.faults⟩ rfl rfl rfl rfl rfl,
      ⟨rfl, rfl, rfl, fun _ _ => rfl⟩⟩
  simp only [Returns, onDisk, EStateM.run, hquiet]
  rfl

theorem UploadStore.Dated.same (h : s.Dated now) (hmended : Mended [] s t) :
    t.Dated now := fun e he => by
  rw [hmended.quarantine] at he
  refine (h e he).imp_right fun hnone => ?_
  exact (congrArg Remains.blob (hmended.others e.1.1 List.not_mem_nil)).trans hnone

/-- **The orphans are moved away.** -/
theorem lasts_moveOrphans (ids : List Uuid) (h : Recovering plan s) (hdated : s.Dated now)
    (horphans : ∀ id ∈ ids, (s.remains id).filed = false ∧ (s.remains id).row = none) :
    (moveOrphans now ids).Lasts (fun t => Recovering plan t.1)
      (fun _ t => Recovering plan t.1 ∧ (∀ j, (s.remains j).Taken (t.1.remains j)) ∧
        ∀ id ∈ ids, (t.1.remains id).blob = none) E (s, own) := by
  induction ids generalizing s with
  | nil => exact Prog.lasts_pure ⟨h, fun _ => .inl rfl, nofun⟩
  | cons id ids ih =>
    obtain ⟨t, hret, ht, hdated', htaken, hblob⟩ := moveOrphan_returns own h hdated
      (horphans id List.mem_cons_self).1 (horphans id List.mem_cons_self).2
    refine Prog.lasts_bind (lasts_quietly (Prog.lasts_call hret ht ?_))
    have horphans' :
        ∀ j ∈ ids, (t.remains j).filed = false ∧ (t.remains j).row = none := fun j hj => by
      rw [(htaken j).filed, (htaken j).row]
      exact horphans j (List.mem_cons_of_mem id hj)
    refine (ih ht hdated' horphans').mono ?_ fun _ _ he => he
    rintro - u ⟨hu, htaken', hrest⟩
    refine ⟨hu, fun j => (htaken j).trans (htaken' j), fun j hj => ?_⟩
    rcases List.mem_cons.mp hj with rfl | hmem
    · exact (htaken' j).blob hblob
    · exact hrest j hmem

/-- Holding the ids that are free. -/
theorem lasts_holdEach (ids : List Uuid) (h : Recovering plan s) :
    (holdEach ids).Lasts (fun t => Recovering plan t.1)
      (fun held t => (∃ live, t = ({ s with live }, { own with holds := own.holds ++ held })) ∧
        ∀ id ∈ ids, id ∈ held ∨ id ∈ s.live.held) E (s, own) := by
  induction ids generalizing s own with
  | nil => exact Prog.lasts_pure ⟨⟨s.live, by rw [List.append_nil]⟩, nofun⟩
  | cons id ids ih =>
    by_cases hfree : id ∈ s.live.held
    · have hhold : hold id s.live = (none, s.live) := if_pos hfree
      refine Prog.lasts_bind (Prog.lasts_step ?_ ?_)
      · simp only [hhold]
        exact h
      · simp only [hhold]
        refine Prog.lasts_bind ((ih h).mono ?_ fun _ _ he => he)
        rintro held t ⟨hlive, hall⟩
        refine Prog.lasts_pure ⟨hlive, fun j hj => ?_⟩
        rcases List.mem_cons.mp hj with rfl | hmem
        · exact .inr hfree
        · exact hall j hmem
    · refine Prog.lasts_bind (lasts_holding h hfree ?_)
      refine Prog.lasts_bind ((ih (h.booked _)).mono ?_ fun _ _ he => he)
      rintro held t ⟨⟨live, rfl⟩, hall⟩
      refine Prog.lasts_pure ⟨⟨live, ?_⟩, fun j hj => ?_⟩
      · rw [List.append_assoc]
        rfl
      · rcases List.mem_cons.mp hj with rfl | hmem
        · exact .inl List.mem_cons_self
        · rcases hall j hmem with hheld | hheld
          · exact .inl (List.mem_cons_of_mem id hheld)
          · rcases Finset.mem_insert.mp hheld with rfl | hheld
            · exact .inl List.mem_cons_self
            · exact .inr hheld

/-- Letting go of the ids that are held. -/
theorem lasts_dropHolds (ids : List Uuid) (h : Recovering plan s) :
    (dropHolds ids).Lasts (fun t => Recovering plan t.1)
      (fun _ t => Recovering plan t.1 ∧ ∀ j, t.1.remains j = s.remains j) E (s, own) := by
  induction ids generalizing s own with
  | nil => exact Prog.lasts_pure ⟨h, fun _ => rfl⟩
  | cons id ids ih =>
    cases hholds : own.holds with
    | nil =>
      refine Prog.lasts_bind (Prog.lasts_step ?_ ?_)
      · simp only [hholds]
        exact h
      · simp only [hholds]
        exact ih h
    | cons first rest =>
      exact Prog.lasts_bind (lasts_dropHold h hholds (ih (h.booked (s.live.release (.hold first)))))

/-- **Nothing is left that has neither an entry nor a row.** -/
theorem lasts_quarantineHeld (candidates : List Uuid) (h : Recovering plan s)
    (hdated : s.Dated now) :
    (quarantineHeld now candidates).Lasts (fun t => Recovering plan t.1)
      (fun _ t => Recovering plan t.1 ∧ (∀ j, (s.remains j).Taken (t.1.remains j)) ∧
        ∀ id ∈ candidates, (t.1.remains id).filed = false → (t.1.remains id).row = none →
          (t.1.remains id).blob = none) E (s, own) := by
  obtain ⟨t, hread, ht, hmended⟩ := referencedBlobs_returns own h
  obtain ⟨u, hlist, hu, hmended', hdb⟩ :=
    read_returns (fun db : TransferTable => db.rows.map TransferRow.id)
    (fun ids own => { own with unowned := own.holds.filter fun id => id ∉ ids })
    { own with unnamed := own.holds.filter fun id => id ∉ s.filed } ht
  have hslot (j : Uuid) : u.remains j = s.remains j :=
    (hmended.trans hmended').others j List.not_mem_nil
  refine Prog.lasts_bind (Prog.lasts_call hread ht ?_)
  refine Prog.lasts_bind (Prog.lasts_call hlist hu ?_)
  -- what is to be moved away has neither an entry nor a row
  have horphans (id : Uuid) : id ∈ (candidates.filter fun id =>
      decide (id ∉ s.filed ∧ id ∉ t.pool.db.rows.map TransferRow.id)) ↔
        id ∈ candidates ∧ (u.remains id).filed = false ∧ (u.remains id).row = none := by
    have hrow : (u.remains id).row = none ↔ id ∉ t.pool.db.rows.map TransferRow.id := by
      rw [UploadStore.remains, hdb, TransferTable.row_eq_none]
      simp
    have hfiled : (u.remains id).filed = false ↔ id ∉ s.filed := by
      rw [hslot]
      exact decide_eq_false_iff_not
    rw [List.mem_filter, decide_eq_true_eq, hrow, hfiled]
  by_cases hempty : (candidates.filter fun id =>
      decide (id ∉ s.filed ∧ id ∉ t.pool.db.rows.map TransferRow.id)) = []
  · rw [if_pos hempty]
    refine Prog.lasts_pure ⟨hu, fun j => .inl (hslot j), fun id hid hfiled hrow => ?_⟩
    have hmem := (horphans id).mpr ⟨hid, hfiled, hrow⟩
    rw [hempty] at hmem
    cases hmem
  · rw [if_neg hempty]
    obtain ⟨v, hprepare, hv, hmended''⟩ := prepare_returns { { own with
      unnamed := own.holds.filter fun id => id ∉ s.filed } with
        unowned := own.holds.filter fun id => id ∉ t.pool.db.rows.map TransferRow.id } hu
    have hslot' (j : Uuid) : v.remains j = u.remains j := hmended''.others j List.not_mem_nil
    refine Prog.lasts_bind (Prog.lasts_call hprepare hv ?_)
    have hdated' : v.Dated now := hdated.same ((hmended.trans hmended').trans hmended'')
    refine (lasts_moveOrphans _ hv hdated' ?_).mono ?_ fun _ _ he => he
    · intro id hid
      rw [hslot']
      exact ((horphans id).mp hid).2
    · rintro - w ⟨hw, htaken, hgone⟩
      have htaken' (j : Uuid) : (s.remains j).Taken (w.1.remains j) := by
        rw [← hslot, ← hslot']
        exact htaken j
      refine ⟨hw, htaken', fun id hid hfiled hrow => hgone id ((horphans id).mpr ⟨hid, ?_⟩)⟩
      rw [hslot, ← (htaken' id).filed, ← (htaken' id).row]
      exact ⟨hfiled, hrow⟩

theorem purge_returns (name : Uuid × ℕ) (own : UploadTask) (h : Recovering plan s) :
    ∃ t, Returns (purge name) (s, own) () (t, own) ∧ Recovering plan t ∧
      ∀ j, t.remains j = s.remains j := by
  have hquiet : s.disk.headD false = false := h.quiet.disk_headD
  refine ⟨{ s with quarantine := s.quarantine.filter fun e => e.1 ≠ name, disk := s.disk.tail }, ?_,
    h.same ⟨tail_of_quiet h.quiet.disk, h.quiet.faults⟩ rfl rfl rfl rfl rfl, fun _ => rfl⟩
  simp only [Returns, purge, EStateM.run, hquiet]
  rfl

/-- Purging touches no upload. -/
theorem lasts_purgeEach {retention : ℕ} (names : List (Uuid × ℕ)) (h : Recovering plan s) :
    (purgeEach now retention names).Lasts (fun t => Recovering plan t.1)
      (fun _ t => Recovering plan t.1 ∧ ∀ j, t.1.remains j = s.remains j) E (s, own) := by
  induction names generalizing s with
  | nil => exact Prog.lasts_pure ⟨h, fun _ => rfl⟩
  | cons name names ih =>
    rw [purgeEach]
    split
    case isTrue => exact ih h
    case isFalse =>
      obtain ⟨t, hret, ht, hslot⟩ := purge_returns name own h
      refine Prog.lasts_bind (lasts_quietly (Prog.lasts_call hret ht ?_))
      refine (ih ht).mono ?_ fun _ _ he => he
      rintro - u ⟨hu, hslot'⟩
      exact ⟨hu, fun j => (hslot' j).trans (hslot j)⟩

/-- **No finished file is left that has neither an entry nor a row.** -/
theorem lasts_sweepOrphanBlobs {stale : TransferRow → Bool} {retention : Option ℕ}
    (h : Recovering plan s) (hheld : s.live.held = ∅) (hdated : s.Dated now)
    (hswept : ∀ j, (s.remains j).Swept stale) :
    (sweepOrphanBlobs now retention plan.directory).Lasts (fun t => Recovering plan t.1)
      (fun _ t => Recovering plan t.1 ∧ ∀ j, (t.1.remains j).Clean stale) E (s, .idle) := by
  refine Prog.lasts_bind (Prog.Lasts.mono (Q := fun _ t => Recovering plan t.1 ∧
    ∀ j, (t.1.remains j).Clean stale) (E := E) ?_ ?_ fun _ _ he => he)
  · rw [quarantineOrphanBlobs]
    by_cases hempty : plan.directory = []
    · rw [if_pos hempty]
      refine Prog.lasts_pure ⟨h, fun j => ⟨hswept j, fun _ _ => ?_⟩⟩
      by_contra hsome
      have hmem := h.listed j (.inr (Option.isSome_iff_ne_none.mpr hsome))
      rw [hempty] at hmem
      cases hmem
    · rw [if_neg hempty]
      refine Prog.lasts_bind ((lasts_holdEach plan.directory h).mono ?_ fun _ _ he => he)
      rintro candidates t ⟨⟨live, rfl⟩, hall⟩
      have hdated' : UploadStore.Dated now { s with live } := hdated
      refine Prog.lasts_bind (lasts_quietly ((lasts_quarantineHeld candidates (h.booked live)
        hdated').mono ?_ fun _ _ he => he))
      rintro - ⟨u, own⟩ ⟨hu, htaken, hgone⟩
      refine (lasts_dropHolds candidates hu).mono ?_ fun _ _ he => he
      rintro - v ⟨hv, hslot⟩
      refine ⟨hv, fun j => ?_⟩
      rw [hslot]
      refine ⟨(htaken j).swept (hswept j), fun hfiled hrow => ?_⟩
      by_contra hsome
      -- what is left was listed, so it was held and looked at
      have hblob : (s.remains j).blob ≠ none := fun hnone => hsome ((htaken j).blob hnone)
      have hmem := h.listed j (.inr (Option.isSome_iff_ne_none.mpr hblob))
      rcases hall j hmem with hcandidate | hheld'
      · exact hsome (hgone j hcandidate hfiled hrow)
      · rw [hheld] at hheld'
        cases hheld'
  · rintro - ⟨t, own⟩ ⟨ht, hclean⟩
    cases retention with
    | none => exact Prog.lasts_pure ⟨ht, hclean⟩
    | some retention =>
      refine Prog.lasts_bind (Prog.lasts_step ht ?_)
      refine (lasts_purgeEach _ ht).mono ?_ fun _ _ he => he
      rintro - u ⟨hu, hslot⟩
      exact ⟨hu, fun j => hslot j ▸ hclean j⟩

end Quarantine

/-! ### The whole startup -/

section Startup

variable {plan : Plan} {s t : UploadStore} {olderThan now : ℕ} {retention : Option ℕ}
  {E : TransferError → UploadStore × UploadTask → Prop}

/-- **Wherever the startup is, every upload is still to become what it was to become.** In the end
all is done. -/
theorem lasts_startup (h : Recovering plan s) (hheld : s.live.held = ∅)
    (hstale : ∀ r, untouched olderThan plan.clock r = true → plan.stale r = true)
    (hdated : ∀ e ∈ s.quarantine, e.1.2 < now) :
    (startup olderThan now retention plan.directory).Lasts (fun t => Recovering plan t.1)
      (fun _ t => Recovering plan t.1 ∧
        ∀ j, (t.1.remains j).Clean (untouched olderThan plan.clock)) E
        (s, .idle) := by
  refine Prog.lasts_bind
    (lasts_quietly ((lasts_recoverInterruptedFinishes h).mono ?_ fun _ _ he => he))
  rintro - ⟨t, own⟩ ⟨⟨ids, hafter⟩, hrepaired⟩
  obtain rfl : own = .idle := hafter.own
  have hheld' : t.live.held = ∅ := by rw [hafter.mended.live, hheld]
  refine Prog.lasts_bind
    ((lasts_sweep hafter.recovering hheld' hrepaired hstale).mono ?_ fun _ _ he => he)
  rintro - ⟨u, own⟩ ⟨⟨ids', hafter'⟩, hswept⟩
  obtain rfl : own = .idle := hafter'.own
  have hheld'' : u.live.held = ∅ := by rw [hafter'.mended.live, hheld']
  refine lasts_sweepOrphanBlobs hafter'.recovering hheld'' (fun e he => .inl ?_) hswept
  rw [hafter'.mended.quarantine, hafter.mended.quarantine] at he
  exact hdated e he

end Startup

end Transfer

end KdxHotline
