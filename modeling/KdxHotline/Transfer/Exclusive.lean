import KdxHotline.Transfer.StoreMoves

/-!
# One task for each upload

The books hold what the tasks have claimed and what they hold
(`KdxHotline.Transfer.Booked`), in every run and whatever fails. So no two tasks ever touch the row
or the partial file of one id (`KdxHotline.Transfer.Booked.apart`), and once every task is over the
books are empty (`KdxHotline.Transfer.nothing_leaks`).
-/

namespace KdxHotline

namespace Transfer

open Foundations Storage Files

/-- What a task would give back. -/
def UploadTask.claims (own : UploadTask) : Multiset ClaimKind :=
  (own.claim.toList ++ own.holds.map ClaimKind.hold : List ClaimKind)

/-- A task has claimed what it works on. -/
structure UploadTask.Owned (own : UploadTask) : Prop where
  claim : ∀ c ∈ own.claim, ∃ accountId id destination bytes,
    c = .upload accountId id destination bytes
  listing : ∀ l ∈ own.listing, ∃ id destination bytes,
    own.claim = some (.upload l.accountId id destination bytes)
  file : ∀ f ∈ own.file, own.Claims f.1
  upload : ∀ u ∈ own.upload, own.Claims u.id

/-- **The books are those of the tasks.** -/
structure Booked (limits : TransferLimits) (s : UploadStore) (owns : Multiset UploadTask) :
    Prop where
  books : Exact limits s.live (owns.bind UploadTask.claims)
  owned : ∀ own ∈ owns, own.Owned

section Claims

variable {own own' : UploadTask} {id : Uuid} {claim : ClaimKind}

theorem claims_vacant (h : own.Vacant) : own.claims = 0 := by
  rw [UploadTask.claims, h.claim, h.free.holds]
  rfl

theorem claims_claim (hclaim : own.claim = some claim) (hholds : own.holds = []) :
    own.claims = {claim} := by
  rw [UploadTask.claims, hclaim, hholds]
  rfl

/-- A hold comes on top of what a task has. -/
theorem claims_hold (hclaim : own'.claim = own.claim) (hholds : own'.holds.Perm (id :: own.holds)) :
    own'.claims = .hold id ::ₘ own.claims := by
  rw [UploadTask.claims, UploadTask.claims, hclaim]
  refine Multiset.coe_eq_coe.mpr ?_
  have hperm := (hholds.map ClaimKind.hold).append_left own.claim.toList
  rw [List.map_cons] at hperm
  exact hperm.trans List.perm_middle

theorem claims_congr (hclaim : own'.claim = own.claim) (hholds : own'.holds = own.holds) :
    own'.claims = own.claims := by
  rw [UploadTask.claims, UploadTask.claims, hclaim, hholds]

theorem mem_heldIds (h : own.Holds id) : id ∈ own.claims.filterMap ClaimKind.heldId := by
  refine (Multiset.mem_filterMap _ _).mpr ?_
  rcases h with ⟨accountId, destination, bytes, hclaim⟩ | hheld
  · refine ⟨.upload accountId id destination bytes, ?_, rfl⟩
    rw [UploadTask.claims, hclaim]
    exact Multiset.mem_coe.mpr (List.mem_append_left _ (List.mem_singleton_self _))
  · refine ⟨.hold id, ?_, rfl⟩
    rw [UploadTask.claims]
    exact Multiset.mem_coe.mpr (List.mem_append_right _ (List.mem_map_of_mem hheld))

theorem owned_idle : UploadTask.idle.Owned := ⟨nofun, nofun, nofun, nofun⟩

end Claims

namespace Booked

variable {sha256 : List UInt8 → List UInt8} {limits : TransferLimits} {s s' : UploadStore}
  {own own' : UploadTask} {rest : Multiset UploadTask} {id : Uuid} {label : UploadStep}

/-- **No two tasks hold one id.** -/
theorem apart (h : Booked limits s (own ::ₘ rest)) (hown : own.Holds id) (hrest : own' ∈ rest) :
    ¬own'.Holds id := by
  intro hown'
  have hheld := h.books.held
  rw [Multiset.cons_bind, Multiset.filterMap_add] at hheld
  have hnodup : (own.claims.filterMap ClaimKind.heldId +
      (rest.bind UploadTask.claims).filterMap ClaimKind.heldId).Nodup := hheld ▸ s.live.held.nodup
  refine Multiset.disjoint_left.mp (Multiset.nodup_add.mp hnodup).2.2 (mem_heldIds hown) ?_
  obtain ⟨c, hc, hid⟩ := (Multiset.mem_filterMap _ _).mp (mem_heldIds hown')
  exact (Multiset.mem_filterMap _ _).mpr ⟨c, Multiset.mem_bind.mpr ⟨own', hrest, hc⟩, hid⟩

theorem owned_self (h : Booked limits s (own ::ₘ rest)) : own.Owned :=
  h.owned own (Multiset.mem_cons_self _ _)

/-- The books stay as they are. -/
theorem keep (h : Booked limits s (own ::ₘ rest)) (hlive : s'.live = s.live)
    (hclaim : own'.claim = own.claim) (hholds : own'.holds = own.holds) (howned : own'.Owned) :
    Booked limits s' (own' ::ₘ rest) := by
  refine ⟨?_, fun o ho => ?_⟩
  · rw [hlive, Multiset.cons_bind, claims_congr hclaim hholds, ← Multiset.cons_bind]
    exact h.books
  · rcases Multiset.mem_cons.mp ho with rfl | ho
    · exact howned
    · exact h.owned o (Multiset.mem_cons_of_mem ho)

/-- The books of a task change. -/
theorem change (h : Booked limits s (own ::ₘ rest))
    (hbooks : Exact limits s'.live (own'.claims + rest.bind UploadTask.claims))
    (howned : own'.Owned) : Booked limits s' (own' ::ₘ rest) := by
  refine ⟨?_, fun o ho => ?_⟩
  · rw [Multiset.cons_bind]
    exact hbooks
  · rcases Multiset.mem_cons.mp ho with rfl | ho
    · exact howned
    · exact h.owned o (Multiset.mem_cons_of_mem ho)

/-- What one move keeps of the books. -/
theorem move (h : Booked limits s (own ::ₘ rest))
    (hmove : UploadMove sha256 limits label (s, own) (s', own')) :
    Booked limits s' (own' ::ₘ rest) := by
  have howned := h.owned_self
  have hbooks := h.books
  rw [Multiset.cons_bind] at hbooks
  cases hmove with
  | quiet hsame hown =>
    rcases hown with rfl | ⟨-, -, rfl⟩
    · exact h.keep hsame.live rfl rfl howned
    · exact h.keep hsame.live rfl rfl ⟨howned.claim, howned.listing, howned.file, howned.upload⟩
  | @claimed s own accountId id destination bytes available claim name live hvacant hclaim hrow =>
    obtain ⟨dest, -, -, -, -, -, hkind, -⟩ := claimUpload_returns hclaim
    obtain ⟨rfl, -⟩ := Prod.mk.inj hkind
    refine h.change ?_ ⟨fun c hc => ⟨_, _, _, _, (Option.some.inj hc).symm⟩, ?_, ?_, ?_⟩
    -- what the task has in hand is now the claim that the books took
    · have hclaims :
          ({ own with claim := some (.upload accountId id dest bytes) } : UploadTask).claims =
          {.upload accountId id dest bytes} := claims_claim rfl hvacant.free.holds
      rw [hclaims, Multiset.singleton_add]
      rw [claims_vacant hvacant, Multiset.zero_add] at hbooks
      exact hbooks.upload hclaim
    · rw [hvacant.listing]
      simp
    · rw [hvacant.file]
      simp
    · rw [hvacant.upload]
      simp
  | @dropped s own claim hclaim hfree hsaved =>
    refine h.change ?_ owned_idle
    -- the claim leaves the hand and the books at once
    rw [claims_claim hclaim hfree.holds, Multiset.singleton_add] at hbooks
    rw [claims_vacant UploadTask.vacant_idle, Multiset.zero_add, UploadStore.dropClaim, hclaim]
    exact hbooks.release
  | @held s own id hunread hfree =>
    refine h.change ?_ ⟨howned.claim, howned.listing, howned.file, howned.upload⟩
    -- the guard of the move is what lets the hold succeed
    have hsome : (hold id s.live).1 = some (.hold id) := by
      rw [hold, if_neg hfree]
    have hafter : (hold id s.live).2 = s.live.holdId id := by
      rw [hold, if_neg hfree]
    have hclaims : ({ own with holds := own.holds ++ [id] } : UploadTask).claims =
        .hold id ::ₘ own.claims := claims_hold rfl (List.perm_append_singleton _ _)
    rw [hclaims, Multiset.cons_add]
    exact hafter ▸ hbooks.hold hsome
  | @unheld s own id ids hholds =>
    refine h.change ?_ ⟨howned.claim, howned.listing, howned.file, howned.upload⟩
    have hclaims : own.claims = .hold id ::ₘ
        ({ own with holds := ids, unnamed := [], unowned := [] } : UploadTask).claims :=
      claims_hold rfl (List.Perm.of_eq hholds)
    rw [hclaims, Multiset.cons_add] at hbooks
    exact hbooks.release
  | listed hclaim hlisting hsame hids =>
    refine h.keep hsame.live rfl rfl ⟨howned.claim, fun l hl => ?_, howned.file, howned.upload⟩
    obtain rfl := Option.some.inj hl
    exact ⟨_, _, _, hclaim⟩
  | deleted hholds hfile hrow hlisted hrows hframe =>
    have hlive := congrArg UploadStore.live hframe
    refine h.keep hlive rfl rfl
      ⟨howned.claim, fun l hl => ?_, howned.file, howned.upload⟩
    obtain ⟨l', hl', rfl⟩ := Option.map_eq_some_iff.mp hl
    exact howned.listing l' hl'
  | undeleted hfault hsame =>
    refine h.keep hsame.live rfl rfl ⟨howned.claim, fun l hl => ?_, howned.file, howned.upload⟩
    obtain ⟨l', hl', rfl⟩ := Option.map_eq_some_iff.mp hl
    exact howned.listing l' hl'
  | removed hholds hfile hframe hparts => exact h.keep hframe.live rfl rfl howned
  | parted hclaims hrow hfile hupload hframe hparts =>
    exact h.keep hframe.live rfl rfl howned
  | sized hclaim hrow hupload hframe hparts =>
    refine h.keep hframe.live rfl rfl
      ⟨howned.claim, howned.listing, fun f hf => ?_, howned.upload⟩
    obtain rfl := Option.some.inj hf
    exact ⟨_, _, _, hclaim⟩
  | created hbegun hclaim hrow hfile hlisting hframe hnew hrows =>
    refine h.keep hframe.live rfl rfl
      ⟨howned.claim, by simp, howned.file, fun u hu => ?_⟩
    obtain rfl := Option.some.inj hu
    rw [hbegun.id]
    exact ⟨_, _, _, hclaim⟩
  | uncreated hupload hrow hsame =>
    exact h.keep hsame.live rfl rfl ⟨howned.claim, howned.listing, by simp, howned.upload⟩
  | read hvacant hsame =>
    exact h.keep hsame.live rfl rfl ⟨howned.claim, howned.listing, howned.file, howned.upload⟩
  | rewritten hclaims hupload hf hframe hrows =>
    exact h.keep hframe.live rfl rfl howned
  | opened hrow hclaims hupload hsame hpart hsize =>
    refine h.keep hsame.live rfl rfl ⟨howned.claim, howned.listing, fun f hf => ?_, howned.upload⟩
    obtain rfl := Option.some.inj hf
    exact hclaims
  | unopened hclaim hupload hsame =>
    exact h.keep hsame.live rfl rfl ⟨howned.claim, howned.listing, howned.file, howned.upload⟩
  | started hrow hresumable hclaim hfile hupload =>
    refine h.keep rfl rfl rfl ⟨howned.claim, howned.listing, howned.file, fun u hu => ?_⟩
    obtain rfl := Option.some.inj hu
    exact ⟨_, _, _, hclaim⟩
  | torn hupload hfile hclaims hcheck hnew => exact h.keep rfl rfl rfl howned
  | stored hupload hfile hclaims hcheck hnew =>
    refine h.keep rfl rfl rfl ⟨howned.claim, howned.listing, howned.file, fun u hu => ?_⟩
    obtain rfl := Option.some.inj hu
    exact hclaims
  | saved hupload hclaims hframe hrows =>
    refine h.keep hframe.live rfl rfl
      ⟨howned.claim, howned.listing, howned.file, fun u hu => ?_⟩
    obtain rfl := Option.some.inj hu
    exact hclaims
  | closed hsame hupload =>
    exact h.keep hsame.live rfl rfl ⟨howned.claim, howned.listing, by simp, howned.upload⟩
  | forgotten => exact h.keep rfl rfl rfl ⟨howned.claim, howned.listing, by simp, by simp⟩
  | beside hblobs =>
    obtain ⟨hbeside, hown⟩ := hblobs.frame
    rw [hown]
    exact h.keep hbeside.live rfl rfl ⟨howned.claim, howned.listing, howned.file, howned.upload⟩

end Booked

/-! ### Who touches what -/

/-- The row and the partial file of an id are as they were. -/
def UploadStore.Untouched (s s' : UploadStore) (id : Uuid) : Prop :=
  s'.pool.db.row id = s.pool.db.row id ∧ s'.parts id = s.parts id

section Touching

variable {sha256 : List UInt8 → List UInt8} {limits : TransferLimits} {s s' : UploadStore}
  {own own' : UploadTask} {id : Uuid} {label : UploadStep}

theorem dropClaim_frame (s : UploadStore) (own : UploadTask) : s.dropClaim own =
    { s with live := (s.dropClaim own).live, partings := (s.dropClaim own).partings } := by
  unfold UploadStore.dropClaim
  cases own.claim <;> rfl

theorem UploadStore.Beside.untouched (h : s.Beside s') : s.Untouched s' id :=
  ⟨by rw [h.db], by rw [h.parts]⟩

theorem UploadStore.OnDisk.untouched (h : s.OnDisk s') (hparts : s'.parts id = s.parts id) :
    s.Untouched s' id :=
  ⟨by rw [h.pool], hparts⟩

theorem UploadStore.OnTable.untouched (h : s.OnTable s')
    (hrow : s'.pool.db.row id = s.pool.db.row id) : s.Untouched s' id :=
  ⟨hrow, by rw [h.parts]⟩

/-- **A task only touches the row and the partial file of an id that it holds.** -/
theorem UploadMove.untouched (hmove : UploadMove sha256 limits label (s, own) (s', own'))
    (hholds : ¬own.Holds id) : s.Untouched s' id := by
  have hne {i : Uuid} (h : own.Holds i) : id ≠ i := fun he => hholds (he ▸ h)
  cases hmove with
  | quiet hsame => exact hsame.untouched
  | claimed => exact ⟨rfl, rfl⟩
  | dropped =>
    rw [dropClaim_frame]
    exact ⟨rfl, rfl⟩
  | held => exact ⟨rfl, rfl⟩
  | unheld => exact ⟨rfl, rfl⟩
  | listed hclaim hlisting hsame => exact hsame.untouched
  | deleted hown hfile hrow hlisted hrows hframe =>
    refine ⟨?_, by rw [hframe]⟩
    rw [TransferTable.row_deleted hrows, if_neg (hne hown)]
  | undeleted hfault hsame => exact hsame.untouched
  | removed hown hfile hframe hparts =>
    exact hframe.untouched (by rw [hparts, Function.update_of_ne (hne hown)])
  | parted hclaims hrow hfile hupload hframe hparts =>
    exact hframe.untouched (hparts id (hne (.inl hclaims)))
  | sized hclaim hrow hupload hframe hparts =>
    exact hframe.untouched (by rw [hparts, Function.update_of_ne (hne (.inl ⟨_, _, _, hclaim⟩))])
  | created hbegun hclaim hrow hfile hlisting hframe hnew hrows =>
    refine hframe.untouched ?_
    rw [TransferTable.row_created hrows hnew, if_neg (hne (.inl ⟨_, _, _, hclaim⟩))]
  | uncreated hupload hrow hsame => exact hsame.untouched
  | read hvacant hsame => exact hsame.untouched
  | rewritten hclaims hupload hf hframe hrows =>
    refine hframe.untouched ?_
    rw [TransferTable.row_rewritten hrows fun r => (hf r).1, if_neg (hne (.inl hclaims))]
  | opened hrow hclaims hupload hsame => exact hsame.untouched
  | unopened hclaim hupload hsame => exact hsame.untouched
  | started => exact ⟨rfl, rfl⟩
  | torn hupload hfile hclaims =>
    exact ⟨rfl, Function.update_of_ne (hne (.inl hclaims)) _ _⟩
  | stored hupload hfile hclaims =>
    exact ⟨rfl, Function.update_of_ne (hne (.inl hclaims)) _ _⟩
  | saved hupload hclaims hframe hrows =>
    refine hframe.untouched ?_
    rw [TransferTable.row_rewritten hrows fun _ => rfl, if_neg (hne (.inl hclaims))]
  | closed hsame => exact hsame.untouched
  | forgotten => exact ⟨rfl, rfl⟩
  | beside hblobs => exact hblobs.frame.1.untouched

end Touching

/-! ### Runs -/

section Runs

variable {sha256 : List UInt8 → List UInt8} {limits : TransferLimits} {s : UploadStore}
  {c c' : UploadServer} {turns : List (Foundations.Turn UploadRequest)}

/-- A task that starts has nothing. -/
theorem Booked.idle {owns : Multiset UploadTask} (h : Booked limits s owns) :
    Booked limits s (.idle ::ₘ owns) := by
  refine ⟨?_, Multiset.forall_mem_cons.mpr ⟨owned_idle, h.owned⟩⟩
  rw [Multiset.cons_bind, claims_vacant UploadTask.vacant_idle, Multiset.zero_add]
  exact h.books

theorem booked_start (hs : s.live = .default) : Booked limits s 0 :=
  ⟨hs ▸ exact_default limits, fun own hown => absurd hown (Multiset.notMem_zero own)⟩

/-- What every run keeps, whatever it does. -/
theorem booked_run (hs : s.live = .default)
    (h : Run (UploadServer.Takes sha256 limits) ⟨s, []⟩ turns c) :
    c.Moving (UploadMove sha256 limits) UploadTask.Vacant ∧ Booked limits c.shared c.owns := by
  exact Tasks.invariant_of_moves (Booked limits) (moves_serveUploads sha256 limits) Booked.idle
    (fun _ _ _ => Booked.move) Tasks.moving_start
    (h.mono fun hstep => (⟨hstep, trivial⟩ : Guarded _ (fun _ _ => True) _ _ _)) (booked_start hs)

/-- What the moves of a task keep of what it has, every run does. -/
theorem owns_run {P : UploadTask → Prop} (hidle : P .idle)
    (hmove : ∀ {label s s' own own'}, UploadMove sha256 limits label (s, own) (s', own') → P own →
      P own')
    (h : Run (UploadServer.Takes sha256 limits) ⟨s, []⟩ turns c) : ∀ own ∈ c.owns, P own := by
  refine (Tasks.invariant_of_moves (fun _ owns => ∀ own ∈ owns, P own)
    (moves_serveUploads sha256 limits) (fun howns => Multiset.forall_mem_cons.mpr ⟨hidle, howns⟩)
    (fun _ _ _ howns hstep => ?_) Tasks.moving_start
    (h.mono fun hstep => (⟨hstep, trivial⟩ : Guarded _ (fun _ _ => True) _ _ _))
    (fun own hown => absurd hown (Multiset.notMem_zero own))).2
  obtain ⟨hown, hothers⟩ := Multiset.forall_mem_cons.mp howns
  exact Multiset.forall_mem_cons.mpr ⟨hmove hstep hown, hothers⟩

/-- **Only the one task that holds an upload touches it.** In every run, whatever fails, a step
changes the row or the partial file of an id only if its task holds the id, and then no other task
does. -/
theorem touched_by_holder (hs : s.live = .default)
    (h : Run (UploadServer.Takes sha256 limits) ⟨s, []⟩ turns c) {i : ℕ} {own : UploadTask}
    (hown : c.tasks[i]?.map Prod.fst = some own)
    (htakes : UploadServer.Takes sha256 limits c (.step i) c') {id : Uuid}
    (htouched : ¬c.shared.Untouched c'.shared id) :
    own.Holds id ∧ ∀ j own', j ≠ i → c.tasks[j]?.map Prod.fst = some own' → ¬own'.Holds id := by
  obtain ⟨hmoving, hbooked⟩ := booked_run hs h
  obtain ⟨-, own₀, own₁, label, hown₀, -, -, howns, -, -, hmove⟩ := hmoving.step htakes
  obtain rfl := Option.some.inj (hown.symm.trans hown₀)
  have hholds : own.Holds id := by
    by_contra hholds
    exact htouched (hmove.untouched hholds)
  refine ⟨hholds, fun j own' hij hj => ?_⟩
  rw [howns] at hbooked
  exact hbooked.apart hholds (Tasks.mem_others hij hj)

/-- **Nothing leaks.** However requests fail, once all of them are over every slot, every reserved
name and every reserved byte has been given back. -/
theorem nothing_leaks (hs : s.live = .default)
    (h : Run (UploadServer.Takes sha256 limits) ⟨s, []⟩ turns c)
    (hover : ∀ t ∈ c.tasks, t.2.Over) :
    c.shared.live.held = ∅ ∧ (∀ p n, c.shared.live.isReserved p n = false) ∧
      (∀ a, c.shared.live.counts a = (0, 0)) ∧ c.shared.live.total = 0 ∧
      c.shared.live.reservedBytes = 0 := by
  obtain ⟨hmoving, hbooked⟩ := booked_run hs h
  have hbooks := hbooked.books
  have hnone : c.owns.bind UploadTask.claims = 0 :=
    (Multiset.bind_congr fun own hown => claims_vacant (hmoving.over hover own hown)).trans
      (Multiset.bind_zero _)
  rw [hnone] at hbooks
  have hslots := hbooks.slots
  refine ⟨Finset.val_eq_zero.mp hbooks.held, fun p n => ?_, fun a => ?_, hslots.total,
    Nat.le_zero.mp hbooks.reserved.sum_le⟩
  · exact Bool.eq_false_iff.mpr fun hreserved =>
      absurd ((hbooks.names.mem p n).mp hreserved) (Multiset.notMem_zero _)
  · exact Direction.ext_count fun d => (hslots.count a d).trans (by cases d <;> rfl)

end Runs

/-! An upload of one byte, begun and let go of. -/

namespace OneByte

open Saturated (first)

/-- A folder for uploads. -/
def folder : Node :=
  ⟨"f", some rootId, "drop", .uploadFolder, 0, none, .guest, .guest, none, none, .default_, none⟩

/-- A server that has just started, with nothing stored. -/
def start : UploadStore :=
  ⟨.default, ⟨.empty, []⟩, fun _ => none, fun _ => none, ∅, [], [], 0, [], []⟩

/-- A request to upload one byte into it. -/
def begin : BeginRequest :=
  ⟨"a", first, .ok ⟨folder, false, 100⟩, fun _ => false, "x", 1, minChunk, [], none⟩

/-- The upload begins, and takes all its steps. -/
def turns : List (Foundations.Turn UploadRequest) :=
  .start (.begin begin [] .release) :: List.replicate 7 (.step 0)

/-- A run of the server. -/
def run (turns : List (Foundations.Turn UploadRequest)) : Option UploadServer :=
  perform (Tasks.take (serveUploads id .default) .idle) ⟨start, []⟩ turns

/-- Its third step creates the partial file. -/
theorem created : ((run (turns.take 3)).bind fun c =>
    (Tasks.take (serveUploads id .default) .idle c (.step 0)).map fun c' =>
      (c.tasks[0]?.map Prod.fst, c.shared.parts first, c'.shared.parts first)) =
    some (some { UploadTask.idle with
      claim := some (.upload "a" first (some ("f", "x")) 1), listing := some ⟨"a", ∅, 0⟩ },
        none, some []) := by
  decide +kernel

theorem at_rest : (run turns).map (fun c => decide (∀ t ∈ c.tasks, t.2.Over)) = some true := by
  decide +kernel

end OneByte

open OneByte Saturated in
/-- The one that has begun an upload holds its id, and no one else does. -/
theorem touched_by_holder_begun : ∃ own : UploadTask, own.Holds first ∧ ∃ c : UploadServer,
    c.tasks[0]?.map Prod.fst = some own ∧
      ∀ j own', j ≠ 0 → c.tasks[j]?.map Prod.fst = some own' → ¬own'.Holds first := by
  obtain ⟨c, hrun, hnext⟩ := Option.bind_eq_some_iff.mp created
  obtain ⟨c', htake, hseen⟩ := Option.map_eq_some_iff.mp hnext
  obtain ⟨hown, hparts⟩ := Prod.mk.inj hseen
  obtain ⟨hbefore, hafter⟩ := Prod.mk.inj hparts
  have htouched : ¬c.shared.Untouched c'.shared first := by
    rintro ⟨-, hsame⟩
    rw [hbefore, hafter] at hsame
    cases hsame
  obtain ⟨hholds, halone⟩ := touched_by_holder rfl (run_of_perform hrun) hown htake htouched
  exact ⟨_, hholds, c, hown, halone⟩

open OneByte in
theorem nothing_leaks_over : ∃ c : UploadServer, run turns = some c ∧ c.shared.live.held = ∅ := by
  obtain ⟨c, hrun, hover⟩ := Option.map_eq_some_iff.mp at_rest
  exact ⟨c, hrun, (nothing_leaks rfl (run_of_perform hrun) (of_decide_eq_true hover)).1⟩

end Transfer

end KdxHotline
