import KdxHotline.Foundations.Admission
import KdxHotline.Transfer.Exclusive

/-!
# How many unfinished uploads an account has

Who begins an upload lists the account's rows, discards what is too much, and creates its own row in
a later step (`KdxHotline.Transfer.makeRoomFor`). Uploads of one account that begin at the same time
do not see each other's rows, so the account may end up with more rows than its cap: with as many
more as there are uploads between the two steps at once, less one
(`KdxHotline.Transfer.open_uploads_le_of_width`). Each of them has an upload slot, which bounds
their number in every run (`KdxHotline.Transfer.open_uploads_le`).

A row that could not be deleted is counted as discarded all the same; runs are asked for in which
that does not happen.
-/

namespace KdxHotline

namespace Transfer

open Foundations Storage

/-! ### Rows and listings of an account -/

/-- The cap of unfinished uploads, as `makeRoomFor` has it. -/
def TransferLimits.openUploads (limits : TransferLimits) : ℕ :=
  max limits.maxOpenUploadsPerAccount 1

/-- The ids of an account's rows. -/
def idsOf (db : TransferTable) (accountId : String) : Finset Uuid :=
  ((db.ofAccount accountId).map TransferRow.id).toFinset

/-- What a task counts on that has listed the rows of an account. -/
def snapshotOf (accountId : String) (own : UploadTask) : Option (Snapshot Uuid) :=
  (own.listing.filter fun l => l.accountId = accountId).map fun l => ⟨l.pending, l.excess⟩

/-- The listings of an account's rows. -/
def snapshotsOf (accountId : String) (owns : Multiset UploadTask) : Multiset (Snapshot Uuid) :=
  owns.filterMap (snapshotOf accountId)

/-- Every account has room for the uploads that are about to begin. -/
def Roomy (limits : TransferLimits) (width : ℕ) (s : UploadStore) (owns : Multiset UploadTask) :
    Prop :=
  ∀ a, Admits limits.openUploads width (idsOf s.pool.db a) (snapshotsOf a owns)

section Rows

variable {db db' : TransferTable} {a : String} {id : Uuid} {row : TransferRow}
  {own own' : UploadTask}

theorem mem_idsOf : id ∈ idsOf db a ↔ ∃ r ∈ db.rows, r.accountId = a ∧ r.id = id := by
  simp [idsOf, TransferTable.ofAccount, and_assoc]

theorem card_idsOf : (idsOf db a).card = (db.ofAccount a).length := by
  have hnodup : ((db.ofAccount a).map TransferRow.id).Nodup := db.rows_id.filter _
  rw [idsOf, List.toFinset_card_of_nodup hnodup, List.length_map]

/-- A deleted row is counted no more. -/
theorem idsOf_deleted (h : db'.rows = db.rows.filter fun r => r.id ≠ id) :
    idsOf db' a = (idsOf db a).erase id := by
  ext i
  rw [Finset.mem_erase, mem_idsOf, mem_idsOf, h]
  constructor
  · rintro ⟨r, hr, hacct, rfl⟩
    obtain ⟨hr, hne⟩ := List.mem_filter.mp hr
    exact ⟨of_decide_eq_true hne, r, hr, hacct, rfl⟩
  · rintro ⟨hne, r, hr, hacct, rfl⟩
    exact ⟨r, List.mem_filter.mpr ⟨hr, decide_eq_true hne⟩, hacct, rfl⟩

/-- A new row is counted for its account. -/
theorem idsOf_created (h : db'.rows = db.rows ++ [row]) :
    idsOf db' a = if row.accountId = a then insert row.id (idsOf db a) else idsOf db a := by
  ext i
  split
  case isTrue hacct =>
    rw [Finset.mem_insert, mem_idsOf, mem_idsOf, h]
    grind
  case isFalse hacct =>
    rw [mem_idsOf, mem_idsOf, h]
    grind

theorem idsOf_rewritten {p : TransferRow → Bool} {f : TransferRow → TransferRow}
    (h : db'.rows = setWhere p f db.rows) (hid : ∀ r, (f r).id = r.id)
    (hacct : ∀ r, (f r).accountId = r.accountId) : idsOf db' a = idsOf db a := by
  ext i
  rw [mem_idsOf, mem_idsOf, h]
  simp only [mem_setWhere]
  grind

theorem snapshotsOf_cons_none (h : snapshotOf a own = none) (rest : Multiset UploadTask) :
    snapshotsOf a (own ::ₘ rest) = snapshotsOf a rest := Multiset.filterMap_cons_none _ _ h

theorem snapshotsOf_cons_some {x : Snapshot Uuid} (h : snapshotOf a own = some x)
    (rest : Multiset UploadTask) : snapshotsOf a (own ::ₘ rest) = x ::ₘ snapshotsOf a rest :=
  Multiset.filterMap_cons_some _ _ _ h

theorem snapshotOf_none (h : own.listing = none) : snapshotOf a own = none := by
  rw [snapshotOf, h]
  rfl

theorem snapshotsOf_congr (h : own'.listing = own.listing) (rest : Multiset UploadTask) :
    snapshotsOf a (own' ::ₘ rest) = snapshotsOf a (own ::ₘ rest) := by
  have hsame : snapshotOf a own' = snapshotOf a own := by rw [snapshotOf, snapshotOf, h]
  cases hsnap : snapshotOf a own with
  | none => rw [snapshotsOf_cons_none hsnap, snapshotsOf_cons_none (hsame.trans hsnap)]
  | some x => rw [snapshotsOf_cons_some hsnap, snapshotsOf_cons_some (hsame.trans hsnap)]

/-- A task without a listing adds nothing. -/
theorem snapshotsOf_none (h : own.listing = none) (rest : Multiset UploadTask) :
    snapshotsOf a (own ::ₘ rest) = snapshotsOf a rest :=
      snapshotsOf_cons_none (snapshotOf_none h) rest

/-- One more look at an account's uploads. -/
theorem snapshotsOf_some {l : Listing} (h : own.listing = some l) (rest : Multiset UploadTask) :
    snapshotsOf a (own ::ₘ rest) =
      if l.accountId = a then ⟨l.pending, l.excess⟩ ::ₘ snapshotsOf a rest
        else snapshotsOf a rest := by
  by_cases hacct : l.accountId = a
  · rw [if_pos hacct]
    refine snapshotsOf_cons_some ?_ rest
    simp [snapshotOf, h, Option.filter, hacct]
  · rw [if_neg hacct]
    refine snapshotsOf_cons_none ?_ rest
    simp [snapshotOf, h, Option.filter, hacct]

end Rows

/-! ### What a step does -/

namespace Roomy

variable {sha256 : List UInt8 → List UInt8} {limits : TransferLimits} {width : ℕ}
  {s s' : UploadStore}
  {own own' : UploadTask} {rest : Multiset UploadTask} {label : UploadStep}

/-- No rows are added, and the listing stays. -/
theorem keep (h : Roomy limits width s (own ::ₘ rest))
    (hrows : ∀ a, idsOf s'.pool.db a ⊆ idsOf s.pool.db a) (hlisting : own'.listing = own.listing) :
    Roomy limits width s' (own' ::ₘ rest) := fun a => by
  rw [snapshotsOf_congr hlisting]
  exact (h a).mono (hrows a)

/-- The task has no listing any more. -/
theorem forget (h : Roomy limits width s (own ::ₘ rest)) (hdb : s'.pool.db = s.pool.db)
    (hlisting : own'.listing = none) : Roomy limits width s' (own' ::ₘ rest) := fun a => by
  rw [snapshotsOf_none hlisting, hdb]
  cases hsnap : snapshotOf a own with
  | none => exact snapshotsOf_cons_none hsnap rest ▸ h a
  | some x => exact (snapshotsOf_cons_some hsnap rest ▸ h a).leave

/-- What one move keeps of the looks. -/
theorem move (h : Roomy limits width s (own ::ₘ rest))
    (hmove : UploadMove sha256 limits label (s, own) (s', own'))
    (hwidth : ∀ l ∈ own'.listing, label = .list l.accountId →
      (snapshotsOf l.accountId rest).card < width)
    (hdelete : ∀ id, label = .deleteRow id → own.listing.isSome →
      s.pool.faults.headD false = false) :
    Roomy limits width s' (own' ::ₘ rest) := by
  have hsame (hdb : s'.pool.db = s.pool.db) (a : String) :
      idsOf s'.pool.db a ⊆ idsOf s.pool.db a := by
    rw [hdb]
  cases hmove with
  | quiet hsame' hown =>
    rcases hown with rfl | ⟨-, -, rfl⟩
    · exact h.keep (hsame hsame'.db) rfl
    · exact h.keep (hsame hsame'.db) rfl
  | claimed => exact h.keep (fun _ => Finset.Subset.refl _) rfl
  | dropped => exact h.forget (by rw [dropClaim_frame]) rfl
  | held => exact h.keep (fun _ => Finset.Subset.refl _) rfl
  | unheld => exact h.keep (fun _ => Finset.Subset.refl _) rfl
  | @listed s s' own accountId id destination bytes ids hclaim hlisting hsame' hids =>
    intro a
    have hbefore := h a
    rw [snapshotsOf_none hlisting] at hbefore
    rw [snapshotsOf_some rfl, hsame'.db]
    split
    case isTrue hacct =>
      subst hacct
      -- the look has every row of the account in it
      refine hbefore.look ?_ (fun i hi => ?_) (hwidth _ rfl rfl)
      · have hcard := List.toFinset_card_le ids
        simp only [Snapshot.Few, TransferLimits.openUploads]
        omega
      · obtain ⟨r, hr, hacct, rfl⟩ := mem_idsOf.mp hi
        refine List.mem_toFinset.mpr (hids.mem_iff.mpr (List.mem_map_of_mem ?_))
        exact List.mem_filter.mpr ⟨hr, decide_eq_true hacct⟩
    case isFalse => exact hbefore
  | deleted hholds hfile hrow hlisted hrows hframe =>
    have hsub (a : String) : idsOf s'.pool.db a ⊆ idsOf s.pool.db a := by
      rw [idsOf_deleted hrows]
      exact Finset.erase_subset _ _
    cases hl : own.listing with
    | none => exact h.keep hsub (by rw [hl]; rfl)
    | some l =>
      intro a
      have hadmits := h a
      rw [snapshotsOf_some hl] at hadmits
      rw [Option.map_some, snapshotsOf_some rfl]
      by_cases hacct : l.accountId = a
      · rw [if_pos hacct] at hadmits
        rw [if_pos (show (l.discarded _).accountId = a from hacct)]
        -- the row goes from the listing as it goes from the table
        refine hadmits.discard ?_ (hsub a) ?_
        · have hcard := Finset.card_erase_of_mem (hlisted l hl)
          have hpos := Finset.card_pos.mpr ⟨_, hlisted l hl⟩
          have hfew := hadmits.few
          simp only [Snapshot.Few, Listing.discarded] at hfew ⊢
          omega
        · rw [idsOf_deleted hrows]
          simp only [Listing.discarded]
          grind
      · rw [if_neg hacct] at hadmits
        rw [if_neg (show ¬(l.discarded _).accountId = a from hacct)]
        exact hadmits.mono (hsub a)
  | undeleted hfault hsame' =>
    cases hl : own.listing with
    | none => exact h.keep (hsame hsame'.db) (by rw [hl]; rfl)
    | some l =>
      -- a discard that fails would leave the row in the table and out of the listing
      have hquiet := hdelete _ rfl (by rw [hl]; rfl)
      rw [hfault] at hquiet
      cases hquiet
  | removed hholds hfile hframe => exact h.keep (hsame (by rw [hframe.pool])) rfl
  | parted hclaims hrow hfile hupload hframe => exact h.keep (hsame (by rw [hframe.pool])) rfl
  | sized hclaim hrow hupload hframe => exact h.keep (hsame (by rw [hframe.pool])) rfl
  | created hbegun hclaim hrow hfile hlisting hframe hnew hrows =>
    intro a
    have hadmits := h a
    rw [snapshotsOf_some hlisting] at hadmits
    rw [snapshotsOf_none rfl, idsOf_created hrows]
    split at hadmits
    case isTrue hacct =>
      rw [if_pos hacct]
      -- the new row takes the place that the look had left for it
      exact hadmits.insert rfl _
    case isFalse hacct =>
      rw [if_neg hacct]
      exact hadmits
  | uncreated hupload hrow hsame' => exact h.keep (hsame hsame'.db) rfl
  | read hvacant hsame' => exact h.keep (hsame hsame'.db) rfl
  | rewritten hclaims hupload hf hframe hrows =>
    refine h.keep (fun a => ?_) rfl
    rw [idsOf_rewritten hrows (fun r => (hf r).1) fun r => (hf r).2.1]
  | opened hrow hclaims hupload hsame' => exact h.keep (hsame hsame'.db) rfl
  | unopened hclaim hupload hsame' => exact h.keep (hsame hsame'.db) rfl
  | started => exact h.keep (fun _ => Finset.Subset.refl _) rfl
  | torn => exact h.keep (fun _ => Finset.Subset.refl _) rfl
  | stored => exact h.keep (fun _ => Finset.Subset.refl _) rfl
  | saved hupload hclaims hframe hrows =>
    refine h.keep (fun a => ?_) rfl
    rw [idsOf_rewritten hrows (fun _ => rfl) fun _ => rfl]
  | closed hsame' => exact h.keep (hsame hsame'.db) rfl
  | forgotten => exact h.keep (fun _ => Finset.Subset.refl _) rfl
  | beside hblobs =>
    obtain ⟨hbeside, hown⟩ := hblobs.frame
    exact h.keep (hsame hbeside.db) (by rw [hown])

end Roomy

/-! ### Runs -/

/-- The account whose rows a step lists. -/
def UploadStep.lists : UploadStep → Option String
  | .list accountId => some accountId
  | _ => none

/-- The row that a step deletes. -/
def UploadStep.deletes : UploadStep → Option Uuid
  | .deleteRow id => some id
  | _ => none

namespace UploadServer

/-- A task that has listed rows does not fail to delete one. -/
def Discards (c : UploadServer) : Foundations.Turn UploadRequest → Prop
  | .start _ => True
  | .step i => ∀ own ∈ c.tasks[i]?.map Prod.fst, own.listing.isSome →
      ((c.next i).bind UploadStep.deletes).isSome → c.shared.pool.faults.headD false = false

/-- When a task lists an account's rows, less than `width` others are between doing that and
creating their own. -/
def Within (width : ℕ) (c : UploadServer) : Foundations.Turn UploadRequest → Prop
  | .start _ => True
  | .step i => ∀ a ∈ (c.next i).bind UploadStep.lists, (snapshotsOf a (c.others i)).card < width

instance decidableDiscards (c : UploadServer) :
    (turn : Foundations.Turn UploadRequest) → Decidable (c.Discards turn)
  | .start _ => isTrue trivial
  | .step i => inferInstanceAs (Decidable (∀ own ∈ c.tasks[i]?.map Prod.fst, own.listing.isSome →
      ((c.next i).bind UploadStep.deletes).isSome → c.shared.pool.faults.headD false = false))

instance decidableWithin (width : ℕ) (c : UploadServer) :
    (turn : Foundations.Turn UploadRequest) → Decidable (c.Within width turn)
  | .start _ => isTrue trivial
  | .step i => inferInstanceAs (Decidable (∀ a ∈ (c.next i).bind UploadStep.lists,
      (snapshotsOf a (c.others i)).card < width))

end UploadServer

section Runs

variable {sha256 : List UInt8 → List UInt8} {limits : TransferLimits} {width : ℕ} {s : UploadStore}
  {own : UploadTask} {owns rest : Multiset UploadTask} {c : UploadServer}
  {turns : List (Foundations.Turn UploadRequest)} {a : String}

theorem Roomy.idle (h : Roomy limits width s owns) :
    Roomy limits width s (.idle ::ₘ owns) := fun a => by
  rw [snapshotsOf_none rfl]
  exact h a

theorem roomy_start (hrows : ∀ a, (s.pool.db.ofAccount a).length + 1 ≤ limits.openUploads + width) :
    Roomy limits width s 0 := fun a => admits_zero (card_idsOf ▸ hrows a)

theorem Roomy.length_le (h : Roomy limits width s owns) (a : String) :
    (s.pool.db.ofAccount a).length + 1 ≤ limits.openUploads + width := by
  rw [← card_idsOf]
  exact (h a).card_le

/-- **As many uploads of an account as begin at once, less one, can be too many.** -/
theorem open_uploads_le_of_width
    (hrows : ∀ a, (s.pool.db.ofAccount a).length + 1 ≤ limits.openUploads + width)
    (h : Run (Guarded (UploadServer.Takes sha256 limits) fun c turn =>
      c.Discards turn ∧ c.Within width turn) ⟨s, []⟩ turns c) (a : String) :
    (c.shared.pool.db.ofAccount a).length + 1 ≤ limits.openUploads + width := by
  refine (Tasks.invariant_of_moves (Roomy limits width)
    (moves_serveUploads sha256 limits) Roomy.idle
    ?_ Tasks.moving_start h (roomy_start hrows)).2.length_le a
  rintro c i label own t own' ⟨hdiscards, hwithin⟩ hnext hown hroomy hmove
  refine hroomy.move hmove (fun l _ hlabel => hwithin l.accountId ?_) fun id hlabel hlisting =>
    hdiscards own hown hlisting ?_
  · rw [hnext, hlabel]
    rfl
  · rw [hnext, hlabel]
    rfl

/-- A task that has listed an account's rows has a slot of the account. -/
theorem card_snapshotsOf_le (h : ∀ own ∈ owns, own.Owned) : (snapshotsOf a owns).card ≤
    ((owns.bind UploadTask.claims).filterMap ClaimKind.slot).count (a, .up) := by
  induction owns using Multiset.induction with
  | empty => simp [snapshotsOf]
  | cons own owns ih =>
    obtain ⟨hown, howns⟩ := Multiset.forall_mem_cons.mp h
    have hrest := ih howns
    rw [Multiset.cons_bind, Multiset.filterMap_add, Multiset.count_add]
    cases hl : own.listing with
    | none =>
      rw [snapshotsOf_none hl]
      omega
    | some l =>
      rw [snapshotsOf_some hl]
      split
      case isFalse => omega
      case isTrue hacct =>
        obtain ⟨id, destination, bytes, hclaim⟩ := hown.listing l hl
        have hslot : 1 ≤ (own.claims.filterMap ClaimKind.slot).count (a, .up) := by
          refine Multiset.one_le_count_iff_mem.mpr ((Multiset.mem_filterMap _ _).mpr ?_)
          refine ⟨.upload l.accountId id destination bytes, ?_, by rw [← hacct]; rfl⟩
          rw [UploadTask.claims, hclaim]
          exact Multiset.mem_coe.mpr (List.mem_append_left _ (List.mem_singleton_self _))
        rw [Multiset.card_cons]
        omega

/-- **The cap is exceeded by less than the upload slots of an account**, whatever the order in which
uploads begin, are resumed, finish and are swept. -/
theorem open_uploads_le (hs : s.live = .default)
    (hrows : ∀ a,
      (s.pool.db.ofAccount a).length + 1 ≤ limits.openUploads + limits.maxUploadsPerAccount)
    (h : Run (Guarded (UploadServer.Takes sha256 limits) UploadServer.Discards) ⟨s, []⟩ turns c)
    (a : String) : (c.shared.pool.db.ofAccount a).length + 1 ≤
      limits.openUploads + limits.maxUploadsPerAccount := by
  refine (Tasks.invariant_of_moves (fun s owns => Booked limits s owns ∧
    Roomy limits limits.maxUploadsPerAccount s owns) (moves_serveUploads sha256 limits)
      (fun hinv => ⟨hinv.1.idle, hinv.2.idle⟩) ?_ Tasks.moving_start h
        ⟨booked_start hs, roomy_start hrows⟩).2.2.length_le a
  rintro c i label own t own' hdiscards hnext hown ⟨hbooked, hroomy⟩ hmove
  have hbooked' := hbooked.move hmove
  refine ⟨hbooked', hroomy.move hmove (fun l hl _ => ?_) fun id hlabel hlisting =>
    hdiscards own hown hlisting (by rw [hnext, hlabel]; rfl)⟩
  -- with its own, these are no more than the slots that are taken
  have hslots := card_snapshotsOf_le (a := l.accountId) hbooked'.owned
  have hcount := hbooked'.books.slots.count l.accountId .up
  have hle := hbooked'.books.slots.count_le l.accountId .up
  rw [snapshotsOf_some hl, if_pos rfl, Multiset.card_cons] at hslots
  simp only [TransferLimits.slots] at hle
  omega

end Runs

/-! Two uploads that begin at once, where an account may have one unfinished. -/

namespace AtOnce

open Saturated (first second)
open OneByte (begin)

/-- At most one open upload an account. -/
def limits : TransferLimits := { TransferLimits.default with maxOpenUploadsPerAccount := 1 }

/-- Both list the rows before either creates its own. -/
def turns : List (Foundations.Turn UploadRequest) :=
  [.start (.begin begin [] .release),
    .start (.begin { begin with id := second, name := "y" } [] .release),
    .step 0, .step 1, .step 0, .step 1, .step 0, .step 0, .step 0, .step 1, .step 1, .step 1]

theorem created : (perform (fun (c : UploadServer) turn => if c.Discards turn ∧ c.Within 2 turn then
    Tasks.take (serveUploads id limits) .idle c turn else none) ⟨OneByte.start, []⟩ turns).map
      (fun c => (c.shared.pool.db.ofAccount "a").map TransferRow.id) = some [first, second] := by
  decide +kernel

end AtOnce

open AtOnce in
open Saturated (first second) in
/-- The bound is met with equality. -/
theorem open_uploads_le_of_width_at_once : ∃ c : UploadServer,
    (c.shared.pool.db.ofAccount "a").map TransferRow.id = [first, second] ∧
      (c.shared.pool.db.ofAccount "a").length + 1 ≤ limits.openUploads + 2 := by
  obtain ⟨c, hperform, hrows⟩ := Option.map_eq_some_iff.mp created
  have hroom : 1 ≤ limits.openUploads + 2 := by decide
  exact ⟨c, hrows, open_uploads_le_of_width (fun _ => hroom) (guarded_of_perform hperform) "a"⟩

open AtOnce in
open Saturated (first second) in
/-- Two uploads begin at once, and both find room for one. -/
theorem open_uploads_le_at_once : ∃ c : UploadServer,
    (c.shared.pool.db.ofAccount "a").map TransferRow.id = [first, second] ∧
      (c.shared.pool.db.ofAccount "a").length + 1 ≤
        limits.openUploads + limits.maxUploadsPerAccount := by
  obtain ⟨c, hperform, hrows⟩ := Option.map_eq_some_iff.mp created
  have hrun : Run (Guarded (UploadServer.Takes id limits) UploadServer.Discards) ⟨OneByte.start, []⟩
      turns c :=
    (guarded_of_perform hperform).mono fun {_ _ _} hstep => ⟨hstep.1, hstep.2.1⟩
  have hroom : 1 ≤ limits.openUploads + limits.maxUploadsPerAccount := by decide
  refine ⟨c, hrows, open_uploads_le rfl ?_ hrun "a"⟩
  exact fun _ => hroom

end Transfer

end KdxHotline
