import Mathlib.Order.Nat
import Mathlib.Tactic.Set
import KdxHotline.History.Log

/-!
# The history stays bounded

Rows are counted after they are written, by the writer and by every `record`, and the count is
reset before old rows are deleted. Whoever brings it to the limit by one wakes the writer, unless
the queue is full. Two things follow for a writer that waits.

* The rows are those to keep and those that were written since rows were deleted last
  (`KdxHotline.History.Bounded`). While some retention has not yet looked for the newest row
  nothing is known; when it does, the rows it leaves are few enough, whatever is counted already.
* Rows written since the writer looked at the count last are rows of calls that it had
  acknowledged by then, or it would not be waiting (`KdxHotline.History.Counted`).

Together they are `KdxHotline.History.table_stays_bounded`.
-/

namespace KdxHotline

namespace History

/-! ### The table -/

/-- The rows are in the order of their numbers. -/
def Ascending (table : List TableRow) : Prop := table.Pairwise fun row row' => row.rowid < row'.rowid

section

variable {table : List TableRow} {meant : TableRow → Bool} {chunk : ℕ} {row : NewHistoryRow}
  {rows : List NewHistoryRow}

theorem le_maxRowid {rowid : ℕ} (h : maxRowid table = some rowid) :
    ∀ row ∈ table, row.rowid ≤ rowid := by
  intro row hrow
  exact (List.max?_eq_some_iff.mp h).2 _ (List.mem_map_of_mem hrow)

theorem eq_nil_of_maxRowid (h : maxRowid table = none) : table = [] :=
  List.map_eq_nil_iff.mp (List.max?_eq_none_iff.mp h)

theorem Ascending.insertRow (h : Ascending table) (row : NewHistoryRow) :
    Ascending (insertRow table row) := by
  refine List.pairwise_append.mpr ⟨h, List.pairwise_singleton _ _, ?_⟩
  intro old hold new hnew
  rw [List.mem_singleton.mp hnew]
  cases hmax : maxRowid table with
  | none => cases eq_nil_of_maxRowid hmax ▸ hold
  | some rowid => exact Nat.lt_succ_of_le (le_maxRowid hmax old hold)

theorem Ascending.insertRows (h : Ascending table) (rows : List NewHistoryRow) :
    Ascending (rows.foldl History.insertRow table) := by
  induction rows generalizing table with
  | nil => exact h
  | cons row rows ih => exact ih (h.insertRow row)

theorem deleteChunk_sublist (meant : TableRow → Bool) (chunk : ℕ) (table : List TableRow) :
    (deleteChunk meant chunk table).Sublist table := by
  fun_induction deleteChunk meant chunk table with
  | case1 => exact .refl _
  | case2 => exact .slnil
  | case3 chunk row table _ ih => exact ih.cons row
  | case4 chunk row table _ ih => exact ih.cons_cons row

/-- When fewer rows were deleted than may be, no row that is meant is left. -/
theorem deleteChunk_complete (h : table.length - (deleteChunk meant chunk table).length < chunk) :
    ∀ row ∈ deleteChunk meant chunk table, meant row = false := by
  fun_induction deleteChunk meant chunk table with
  | case1 => cases h
  | case2 => simp
  | case3 chunk row table hmeant ih =>
    have hle := (deleteChunk_sublist meant chunk table).length_le
    refine ih ?_
    rw [List.length_cons] at h
    omega
  | case4 chunk row table hmeant ih =>
    have hrest := ih (by simpa using h)
    intro other hother
    rcases List.mem_cons.mp hother with rfl | hother
    · exact Bool.eq_false_iff.mpr hmeant
    · exact hrest other hother

/-- There are no more numbers between two than the difference. -/
theorem Ascending.length_le (h : Ascending table) {low high : ℕ}
    (hbetween : ∀ row ∈ table, low < row.rowid ∧ row.rowid ≤ high) : table.length ≤ high - low := by
  induction table generalizing low with
  | nil => exact Nat.zero_le _
  | cons row table ih =>
    obtain ⟨hfirst, hrest⟩ := List.pairwise_cons.mp h
    have hrow := hbetween row List.mem_cons_self
    have hle : table.length ≤ high - row.rowid := ih hrest fun other hother =>
      ⟨hfirst other hother, (hbetween other (List.mem_cons_of_mem _ hother)).2⟩
    rw [List.length_cons]
    omega

end

/-! ### What retention leaves -/

/-- Will this retention keep the row? -/
def Pruning.keeps (pruning : Pruning) (row : TableRow) : Bool :=
  match pruning with
  | .deleting cutoff => cutoff < row.rowid
  | _ => true

/-- Does it know what to keep? -/
def Pruning.IsCut : Pruning → Prop
  | .deleting _ => True
  | _ => False

/-- The rows that no retention in progress is about to delete. -/
def undoomed (prunings : List Pruning) (table : List TableRow) : List TableRow :=
  table.filter fun row => prunings.all fun pruning => pruning.keeps row

/-- Some retention is still to look for the newest row, or the rows are those to keep and some
more. -/
def Bounded (keep : ℕ) (prunings : List Pruning) (table : List TableRow) (more : ℕ) : Prop :=
  (∃ pruning ∈ prunings, ¬ pruning.IsCut) ∨ (undoomed prunings table).length ≤ keep + more

section

variable {keep more : ℕ} {prunings before after : List Pruning} {pruning : Pruning}
  {table rest : List TableRow} {config : HistoryConfig}

theorem undoomed_length_mono {prunings' : List Pruning} (hrest : rest.Sublist table)
    (h : ∀ row ∈ rest, (∀ pruning ∈ prunings', pruning.keeps row = true) →
      ∀ pruning ∈ prunings, pruning.keeps row = true) :
    (undoomed prunings' rest).length ≤ (undoomed prunings table).length := by
  rw [undoomed, undoomed, ← List.countP_eq_length_filter, ← List.countP_eq_length_filter]
  refine (List.countP_mono_left fun row hrow hkept => ?_).trans hrest.countP_le
  exact List.all_eq_true.mpr (h row hrow (List.all_eq_true.mp hkept))

theorem Bounded.mono {more' : ℕ} (h : Bounded keep prunings table more) (hle : more ≤ more') :
    Bounded keep prunings table more' :=
  h.imp_right fun hlength => hlength.trans (Nat.add_le_add_left hle keep)

/-- A row is written. -/
theorem Bounded.insertRow (h : Bounded keep prunings table more) (row : NewHistoryRow) :
    Bounded keep prunings (insertRow table row) (more + 1) := by
  refine h.imp_right fun hlength => ?_
  rw [undoomed, History.insertRow, List.filter_append, List.length_append, ← Nat.add_assoc]
  have hnew := List.length_filter_le (fun row => prunings.all fun pruning => pruning.keeps row)
    [⟨(maxRowid table).getD 0 + 1, row.clipped⟩]
  exact Nat.add_le_add hlength hnew

theorem Bounded.insertRows (h : Bounded keep prunings table more) (rows : List NewHistoryRow) :
    Bounded keep prunings (rows.foldl History.insertRow table) (more + rows.length) := by
  induction rows generalizing table more with
  | nil => exact h
  | cons row rows ih =>
    have hrest := ih (h.insertRow row)
    rwa [Nat.add_assoc, Nat.add_comm 1] at hrest

/-- Retention of the newest rows, once it knows the newest. -/
theorem undoomed_of_cut (hasc : Ascending table) {newest : ℕ} (hmax : maxRowid table = some newest)
    (hmem : Pruning.deleting (newest - min keep (2 ^ 63 - 1)) ∈ prunings) :
    (undoomed prunings table).length ≤ keep := by
  have hsorted : Ascending (undoomed prunings table) := hasc.filter _
  have hle : (undoomed prunings table).length ≤ newest - (newest - min keep (2 ^ 63 - 1)) := by
    refine hsorted.length_le fun row hrow => ?_
    obtain ⟨hold, hkept⟩ := List.mem_filter.mp hrow
    have hcut := List.all_eq_true.mp hkept _ hmem
    exact ⟨of_decide_eq_true hcut, le_maxRowid hmax row hold⟩
  omega

theorem ascending_next (h : Ascending table) (now : ℕ) (pruning : Pruning) :
    Ascending (pruning.next config now table).2 := by
  cases pruning with
  | begun => exact h
  | aging cutoff => exact h.sublist (deleteChunk_sublist _ _ _)
  | counting =>
    rw [Pruning.next]
    split <;> exact h
  | deleting cutoff => exact h.sublist (deleteChunk_sublist _ _ _)

/-- A statement of retention, whichever of those in progress it is of. -/
theorem Bounded.next (h : Bounded keep (before ++ pruning :: after) table more)
    (hasc : Ascending table) (hkeep : config.maxRows = some keep) (now : ℕ) :
    Bounded keep (before ++ (pruning.next config now table).1.toList ++ after)
      (pruning.next config now table).2 more := by
  cases pruning with
  | begun =>
    refine .inl ⟨config.maxAge.elim .counting fun age => .aging (toDbTimestamp (now - age)), ?_, ?_⟩
    · simp [Pruning.next]
    · cases config.maxAge <;> exact id
  | aging cutoff =>
    refine .inl ⟨_, List.mem_append_left _ (List.mem_append_right _ (List.mem_singleton_self _)), ?_⟩
    split <;> exact id
  | counting =>
    rw [Pruning.next, hkeep]
    cases hmax : maxRowid table with
    | none =>
      rw [eq_nil_of_maxRowid hmax]
      exact .inr (Nat.zero_le _)
    | some newest =>
      refine .inr ((undoomed_of_cut hasc hmax ?_).trans (Nat.le_add_right _ _))
      simp
  | deleting cutoff =>
    set rest := deleteChunk (fun row => decide (row.rowid ≤ cutoff)) pruneChunk table with hrest
    have hsub : rest.Sublist table := deleteChunk_sublist _ _ _
    have hnext : Pruning.next config now table (.deleting cutoff) =
      (if table.length - rest.length < pruneChunk then none else some (.deleting cutoff), rest) := rfl
    rw [hnext]
    rcases h with ⟨other, hother, huncut⟩ | hlength
    · refine .inl ⟨other, ?_, huncut⟩
      rcases List.mem_append.mp hother with hother | hother
      · exact List.mem_append_left _ (List.mem_append_left _ hother)
      · rcases List.mem_cons.mp hother with rfl | hother
        · exact absurd trivial huncut
        · exact List.mem_append_right _ hother
    · refine .inr ((undoomed_length_mono hsub ?_).trans hlength)
      intro row hrow hkept other hother
      rcases List.mem_append.mp hother with hother | hother
      · exact hkept other (List.mem_append_left _ (List.mem_append_left _ hother))
      · rcases List.mem_cons.mp hother with rfl | hother
        · split at hkept
          case isTrue hfew =>
            -- the last statement found fewer rows than it may delete
            have hnot := deleteChunk_complete hfew row hrow
            exact decide_eq_true (Nat.lt_of_not_le (of_decide_eq_false hnot))
          case isFalse => exact hkept _ (by simp)
        · exact hkept other (List.mem_append_right _ hother)

end

/-! ### The counters -/

/-- Is the writer not in the midst of a batch? -/
def Writer.IsResting : Writer → Prop
  | .starting _ | .idle | .retaining .. | .acking _ => True
  | _ => False

/-- The retention that the writer is at. -/
def Writer.pruning : Writer → Option Pruning
  | .starting pruning | .retaining pruning _ => some pruning
  | _ => none

/-- The rows that the writer has written and not counted. -/
def Writer.uncounted : Writer → ℕ
  | .written rows _ => rows
  | _ => 0

/-- Has the writer the flush of a call at this stage, with the row not counted yet? -/
def Stage.isLate : Stage → Bool
  | .taken | .acked | .recorded => true
  | _ => false

/-- Whether a call has written its row, and has yet to prune. -/
def Caller.isLate (c : Caller) : Bool := c.row.isSome && c.stage.isLate

/-- Is it a `record` that has written its row, and not counted it? -/
def Caller.isUncounted (c : Caller) : Bool := c.row.isSome && c.stage = .recorded

namespace HistoryLog

variable (s : HistoryLog)

/-- What retention there is in progress. -/
def prunings : List Pruning := s.writer.pruning.toList ++ s.pruners

/-- The rows that were written since the count was reset. -/
def unpruned : ℕ := s.sincePrune + (s.callers.countP Caller.isUncounted + s.writer.uncounted)

/-- There is something in the queue, or a call is about to put something there. -/
def IsRoused : Prop :=
  s.queue ≠ [] ∨ ∃ c ∈ s.callers, c.stage = .granted ∨ c.stage = .waking ∧ c.row.isSome

end HistoryLog

variable {s s' : HistoryLog} {keep : ℕ} {old new : Stage} {caller : ℕ} {c : Caller}

theorem countP_advance (h : s.callers[caller]? = some c) (hold : c.stage = old)
    (p : Caller → Bool) :
    (s.advance caller old new).callers.countP p + (if p c then 1 else 0) =
      s.callers.countP p + if p { c with stage := new } then 1 else 0 := by
  have hcount := countP_modify h (fun c => if c.stage = old then { c with stage := new } else c) p
  rwa [if_pos hold] at hcount

/-- What a log knows of the rows it keeps. -/
structure Kept (keep : ℕ) (s : HistoryLog) : Prop where
  maxRows : s.config.maxRows = some keep
  ascending : Ascending s.table
  bounded : Bounded keep s.prunings s.table s.unpruned

namespace Kept

/-- A step that has nothing to do with the table. -/
theorem of_le (hk : Kept keep s) (hconfig : s'.config = s.config) (htable : s'.table = s.table)
    (hprunings : s'.prunings = s.prunings) (hle : s.unpruned ≤ s'.unpruned) : Kept keep s' where
  maxRows := hconfig ▸ hk.maxRows
  ascending := htable ▸ hk.ascending
  bounded := by
    rw [htable, hprunings]
    exact hk.bounded.mono hle

/-- A step of the writer that has nothing to do with the table. -/
theorem of_writer (hk : Kept keep s) (hconfig : s'.config = s.config) (htable : s'.table = s.table)
    (hpruners : s'.pruners = s.pruners) (hcallers : s'.callers = s.callers)
    (hsince : s'.sincePrune = s.sincePrune) (hpruning : s'.writer.pruning = s.writer.pruning)
    (huncounted : s'.writer.uncounted = s.writer.uncounted) : Kept keep s' := by
  refine hk.of_le hconfig htable ?_ (Nat.le_of_eq ?_)
  · rw [HistoryLog.prunings, HistoryLog.prunings, hpruning, hpruners]
  · rw [HistoryLog.unpruned, HistoryLog.unpruned, hcallers, hsince, huncounted]

/-- A call goes on, and neither writes its row nor counts it. -/
theorem advance (hk : Kept keep s) (hold : old ≠ .recorded) (hnew : new ≠ .recorded) :
    Kept keep (s.advance caller old new) := by
  refine hk.of_le rfl rfl rfl (Nat.le_of_eq ?_)
  have hcount : (s.advance caller old new).callers.countP Caller.isUncounted =
      s.callers.countP Caller.isUncounted :=
    HistoryLog.shifted_advance.countP_eq fun c hc => by simp [Caller.isUncounted, hc, hold, hnew]
  rw [HistoryLog.unpruned, HistoryLog.unpruned, hcount]
  rfl

end Kept

/-- The row that a call writes is not counted yet. -/
theorem unpruned_writeRow {row : NewHistoryRow} {before : List Pending}
    (h : s.callers[caller]? = some ⟨some row, .acked, before⟩) :
    (s.writeRow caller row).unpruned = s.unpruned + 1 := by
  have hcount := @countP_advance _ .acked .recorded _ _ h rfl Caller.isUncounted
  rw [if_neg (by simp [Caller.isUncounted]), if_pos (by simp [Caller.isUncounted])] at hcount
  show s.sincePrune + ((s.advance caller .acked .recorded).callers.countP Caller.isUncounted +
    s.writer.uncounted) = s.unpruned + 1
  rw [HistoryLog.unpruned]
  omega

/-- Counting it changes nothing. -/
theorem unpruned_tallyRow {row : NewHistoryRow} {before : List Pending}
    (h : s.callers[caller]? = some ⟨some row, .recorded, before⟩) :
    (s.tallyRow caller).unpruned = s.unpruned := by
  have hcount (new : Stage) (hnew : new ≠ .recorded) :
      (s.advance caller .recorded new).callers.countP Caller.isUncounted + 1 =
        s.callers.countP Caller.isUncounted := by
    have hcount := @countP_advance _ .recorded new _ _ h rfl Caller.isUncounted
    rwa [if_pos (by simp [Caller.isUncounted]), if_neg (by simp [Caller.isUncounted, hnew])] at hcount
  have hnew : (if s.sincePrune + 1 = s.config.pruneEvery then Stage.waking else .done) ≠ .recorded := by
    split <;> nofun
  have hless := hcount _ hnew
  show s.sincePrune + 1 + ((s.advance caller .recorded _).callers.countP Caller.isUncounted +
    s.writer.uncounted) = s.unpruned
  rw [HistoryLog.unpruned]
  omega

/-- What one step keeps of the bound on the rows. -/
theorem Kept.step (hk : Kept keep s) (h : Step s s') : Kept keep s' := by
  cases h with
  | recordDetached event =>
    rcases s.recordDetached_cases event with heq | heq
    · exact heq ▸ hk.of_le rfl rfl rfl le_rfl
    · exact heq ▸ hk.of_le rfl rfl rfl le_rfl
  | countDrop => exact hk.of_le rfl rfl rfl le_rfl
  | call event =>
    refine hk.of_le rfl rfl rfl (Nat.le_of_eq ?_)
    simp [HistoryLog.unpruned, HistoryLog.call, Caller.isUncounted]
  | @sendFlush caller =>
    rcases s.sendFlush_cases caller with heq | heq
    · rw [heq]
      exact Kept.advance (hk.of_le rfl rfl rfl le_rfl) nofun nofun
    · rw [heq]
      exact Kept.advance (hk.of_le rfl rfl rfl le_rfl) nofun nofun
  | pushFlush => exact Kept.advance (hk.of_le rfl rfl rfl le_rfl) nofun nofun
  | @writeRow caller row before h =>
    refine ⟨hk.maxRows, hk.ascending.insertRow row, ?_⟩
    rw [unpruned_writeRow h]
    exact hk.bounded.insertRow row
  | tallyRow h => exact hk.of_le rfl rfl rfl (unpruned_tallyRow h).ge
  | @wake caller =>
    rcases s.wake_cases caller with heq | ⟨heq, -⟩
    · rw [heq]
      exact Kept.advance (hk.of_le rfl rfl rfl le_rfl) nofun nofun
    · rw [heq]
      exact hk.advance nofun nofun
  | prune =>
    refine ⟨hk.maxRows, hk.ascending, .inl ⟨.begun, ?_, id⟩⟩
    simp [HistoryLog.prunings, HistoryLog.prune]
  | @pruneNext i pruning now h =>
    -- only the pruning that moves changes, the others are on either side of it
    have hsplit : s.pruners = s.pruners.take i ++ pruning :: s.pruners.drop (i + 1) := by
      obtain ⟨hlt, rfl⟩ := List.getElem?_eq_some_iff.mp h
      rw [List.getElem_cons_drop hlt, List.take_append_drop]
    have hb := hk.bounded
    rw [HistoryLog.prunings, hsplit, ← List.append_assoc] at hb
    refine ⟨hk.maxRows, ascending_next hk.ascending now pruning, ?_⟩
    have hnext := hb.next hk.ascending hk.maxRows now
    rwa [List.append_assoc, List.append_assoc, ← List.append_assoc (s.pruners.take i)] at hnext
  | @startNext pruning now h =>
    have hb := hk.bounded
    rw [HistoryLog.prunings, HistoryLog.unpruned, h] at hb
    refine ⟨hk.maxRows, ascending_next hk.ascending now pruning, ?_⟩
    have hnext := @Bounded.next _ _ [] _ _ _ _ hb hk.ascending hk.maxRows now
    rw [HistoryLog.prunings, HistoryLog.unpruned]
    dsimp only [HistoryLog.startNext]
    generalize (pruning.next s.config now s.table).1 = next at hnext ⊢
    cases next <;> exact hnext
  | @takeBatch n h =>
    obtain ⟨taken, callers, waiting, heq, htaken, hgranted⟩ := s.takeBatch_eq n
    -- the callers that move here have no row that is still to be counted
    have hcount : callers.countP Caller.isUncounted = s.callers.countP Caller.isUncounted :=
      (hgranted.countP_eq fun c hc => by simp [Caller.isUncounted, hc]).trans
        (htaken.countP_eq fun c hc => by simp [Caller.isUncounted, hc])
    rw [heq]
    refine hk.of_le rfl rfl ?_ (Nat.le_of_eq ?_)
    · rw [HistoryLog.prunings, HistoryLog.prunings, h]
      rfl
    · rw [HistoryLog.unpruned, HistoryLog.unpruned, h, hcount]
      rfl
  | swapDropped h => exact hk.of_writer rfl rfl rfl rfl rfl (by rw [h]; rfl) (by rw [h]; rfl)
  | @writeBatch entries dropped acks now h =>
    have hb := hk.bounded
    rw [HistoryLog.prunings, HistoryLog.unpruned, h] at hb
    dsimp only [HistoryLog.writeBatch]
    split
    case isTrue hnone =>
      rw [hnone]
      exact hk.of_writer rfl rfl rfl rfl rfl (by rw [h]; rfl) (by rw [h]; rfl)
    case isFalse =>
      -- the rows are in the table now, and in the count of the writer until it has tallied them
      refine ⟨hk.maxRows, hk.ascending.insertRows _, (hb.insertRows _).mono ?_⟩
      exact Nat.le_of_eq (Nat.add_assoc _ (s.callers.countP Caller.isUncounted) _)
  | @tallyBatch rows acks h =>
    have hb := hk.bounded
    rw [HistoryLog.prunings, HistoryLog.unpruned, h] at hb
    refine ⟨hk.maxRows, hk.ascending, hb.mono ?_⟩
    show _ ≤ s.sincePrune + rows + (s.callers.countP Caller.isUncounted + 0)
    dsimp only [Writer.uncounted]
    omega
  | @check acks h =>
    dsimp only [HistoryLog.check]
    split
    case isTrue => exact hk.of_writer rfl rfl rfl rfl rfl (by rw [h]; rfl) (by rw [h]; rfl)
    case isFalse => exact hk.of_writer rfl rfl rfl rfl rfl (by rw [h]; rfl) (by rw [h]; rfl)
  | reset => exact ⟨hk.maxRows, hk.ascending, .inl ⟨.begun, List.mem_cons_self, id⟩⟩
  | @retainNext pruning acks now h =>
    have hb := hk.bounded
    rw [HistoryLog.prunings, HistoryLog.unpruned, h] at hb
    refine ⟨hk.maxRows, ascending_next hk.ascending now pruning, ?_⟩
    have hnext := @Bounded.next _ _ [] _ _ _ _ hb hk.ascending hk.maxRows now
    rw [HistoryLog.prunings, HistoryLog.unpruned]
    dsimp only [HistoryLog.retainNext]
    generalize (pruning.next s.config now s.table).1 = next at hnext ⊢
    cases next <;> exact hnext
  | @acknowledge caller acks h =>
    exact Kept.advance (hk.of_writer rfl rfl rfl rfl rfl (by rw [h]; rfl) (by rw [h]; rfl)) nofun nofun
  | again h => exact hk.of_writer rfl rfl rfl rfl rfl (by rw [h]; rfl) (by rw [h]; rfl)

/-! ### The count and the wake-ups -/

/-- What a log knows of the count. -/
structure Counted (s : HistoryLog) : Prop where
  queueCapacity : 0 < s.config.queueCapacity
  pruneEvery : 0 < s.config.pruneEvery
  peak : s.callers.countP Caller.isRecording ≤ s.peak
  late : s.writer.IsResting →
    s.sincePrune + s.callers.countP Caller.isLate < s.config.pruneEvery + s.peak
  roused : s.writer.IsResting → s.config.pruneEvery ≤ s.sincePrune → s.IsRoused

namespace Counted

theorem late_le_peak (hc : Counted s) : s.callers.countP Caller.isLate ≤ s.peak := by
  refine (List.countP_mono_left fun c _ hlate => ?_).trans hc.peak
  obtain ⟨hrow, hstage⟩ := Bool.and_eq_true_iff.mp hlate
  rw [Caller.isRecording, hrow, Bool.true_and, decide_eq_true_eq]
  rintro hdone
  rw [hdone] at hstage
  cases hstage

/-- A step that leaves the counts alone. -/
theorem of_eq (hc : Counted s) (hconfig : s'.config = s.config) (hpeak : s'.peak = s.peak)
    (hcallers : s'.callers = s.callers) (hsince : s'.sincePrune = s.sincePrune)
    (hresting : s'.writer.IsResting → s.writer.IsResting) (hqueue : s.queue ≠ [] → s'.queue ≠ []) :
    Counted s' where
  queueCapacity := hconfig ▸ hc.queueCapacity
  pruneEvery := hconfig ▸ hc.pruneEvery
  peak := by rw [hcallers, hpeak]; exact hc.peak
  late hrest := by
    rw [hsince, hcallers, hconfig, hpeak]
    exact hc.late (hresting hrest)
  roused hrest hmany := by
    rw [HistoryLog.IsRoused, hcallers]
    rw [hconfig, hsince] at hmany
    exact (hc.roused (hresting hrest) hmany).imp_left hqueue

/-- A step after which the count is below the limit. -/
theorem of_lt (hc : Counted s) (hconfig : s'.config = s.config) (hpeak : s'.peak = s.peak)
    (hcallers : s'.callers = s.callers) (hlt : s'.sincePrune < s.config.pruneEvery) :
    Counted s' where
  queueCapacity := hconfig ▸ hc.queueCapacity
  pruneEvery := hconfig ▸ hc.pruneEvery
  peak := by rw [hcallers, hpeak]; exact hc.peak
  late _ := by
    have hlate := hc.late_le_peak
    rw [hcallers, hconfig, hpeak]
    omega
  roused _ hmany := absurd hlt (Nat.not_lt_of_le (hconfig ▸ hmany))

/-- A step into a batch, or within. -/
theorem of_not_resting (hc : Counted s) (hconfig : s'.config = s.config) (hpeak : s'.peak = s.peak)
    (hcallers : s'.callers.countP Caller.isRecording ≤ s.callers.countP Caller.isRecording)
    (hbusy : ¬ s'.writer.IsResting) : Counted s' where
  queueCapacity := hconfig ▸ hc.queueCapacity
  pruneEvery := hconfig ▸ hc.pruneEvery
  peak := hpeak ▸ hcallers.trans hc.peak
  late hrest := absurd hrest hbusy
  roused hrest _ := absurd hrest hbusy

/-- A message is queued. -/
theorem push (hc : Counted s) (msg : WriterMsg) : Counted { s with queue := s.queue ++ [msg] } :=
  hc.of_eq rfl rfl rfl rfl id fun _ => by simp

/-- A call goes on, and what wakes the writer is still there. -/
theorem advance (hc : Counted s) (hdone : old ≠ .done) (hlate : old.isLate = new.isLate)
    (hroused : s.IsRoused → (s.advance caller old new).IsRoused) :
    Counted (s.advance caller old new) where
  queueCapacity := hc.queueCapacity
  pruneEvery := hc.pruneEvery
  peak := by
    refine (HistoryLog.shifted_advance.countP_le fun c hold hnew => ?_).trans hc.peak
    rw [Caller.isRecording] at hnew ⊢
    rw [(Bool.and_eq_true_iff.mp hnew).1, hold, Bool.true_and]
    exact decide_eq_true hdone
  late hrest := by
    have hcount : (s.advance caller old new).callers.countP Caller.isLate =
        s.callers.countP Caller.isLate :=
      HistoryLog.shifted_advance.countP_eq fun c hold => by rw [Caller.isLate, Caller.isLate, hold, hlate]
    rw [hcount]
    exact hc.late hrest
  roused hrest hmany := hroused (hc.roused hrest hmany)

/-- What wakes the writer is there after a call has gone on that is not about to do that. -/
theorem roused_advance (hgranted : old ≠ .granted) (hwaking : old ≠ .waking) (h : s.IsRoused) :
    (s.advance caller old new).IsRoused := by
  refine h.imp_right ?_
  rintro ⟨c, hmem, hstage⟩
  refine ⟨c, HistoryLog.shifted_advance.mem_of_ne hmem ?_, hstage⟩
  rcases hstage with hstage | ⟨hstage, -⟩
  · exact hstage ▸ hgranted.symm
  · exact hstage ▸ hwaking.symm

end Counted

/-- A call counts its row. If that makes the limit, it is to wake the writer. -/
theorem Counted.tallyRow (hc : Counted s) {row : NewHistoryRow} {before : List Pending}
    (h : s.callers[caller]? = some ⟨some row, .recorded, before⟩) : Counted (s.tallyRow caller) where
  queueCapacity := hc.queueCapacity
  pruneEvery := hc.pruneEvery
  peak := by
    refine (HistoryLog.shifted_advance.countP_le fun c hold hnew => ?_).trans hc.peak
    rw [Caller.isRecording] at hnew ⊢
    rw [(Bool.and_eq_true_iff.mp hnew).1, hold]
    rfl
  late hrest := by
    have hless (new : Stage) (hnew : new.isLate = false) :
        (s.advance caller .recorded new).callers.countP Caller.isLate + 1 =
          s.callers.countP Caller.isLate := by
      have hcount := @countP_advance _ .recorded new _ _ h rfl Caller.isLate
      have hyes : Caller.isLate ⟨some row, .recorded, before⟩ = true := rfl
      rwa [if_pos hyes, if_neg (by simp [Caller.isLate, hnew])] at hcount
    have hlate := hc.late hrest
    have hcount := hless (if s.sincePrune + 1 = s.config.pruneEvery then .waking else .done)
      (by split <;> rfl)
    show s.sincePrune + 1 + (s.advance caller .recorded _).callers.countP Caller.isLate <
      s.config.pruneEvery + s.peak
    omega
  roused hrest hmany := by
    by_cases hlimit : s.sincePrune + 1 = s.config.pruneEvery
    · refine .inr ⟨⟨some row, .waking, before⟩, ?_, .inr ⟨rfl, rfl⟩⟩
      refine List.mem_of_getElem? (i := caller) ?_
      show (s.callers.modify caller _)[caller]? = _
      rw [List.getElem?_modify_eq, h, if_pos hlimit]
      rfl
    · have hmany' : s.config.pruneEvery ≤ s.sincePrune + 1 := hmany
      exact roused_advance nofun nofun (hc.roused hrest (by omega))

/-- A call wakes the writer. If the queue is full there is no need to. -/
theorem Counted.wake (hc : Counted s) : Counted (s.wake caller) := by
  rcases s.wake_cases caller with heq | ⟨heq, hfull⟩
  · rw [heq]
    exact (hc.push .prune).advance nofun rfl fun _ => .inl (by simp [HistoryLog.advance])
  · rw [heq]
    refine hc.advance nofun rfl fun _ => ?_
    by_cases hqueue : s.queue = []
    · have hroom : 0 < s.callers.countP fun c => c.stage = .granted := by
        have hcapacity := hc.queueCapacity
        rw [hqueue, HistoryLog.granted, List.length_nil] at hfull
        omega
      obtain ⟨c, hmem, hgranted⟩ := List.countP_pos_iff.mp hroom
      have hstage : c.stage = .granted := of_decide_eq_true hgranted
      exact .inr ⟨c, HistoryLog.shifted_advance.mem_of_ne hmem (hstage ▸ nofun), .inl hstage⟩
    · exact .inl hqueue

/-- What one step keeps of the count of the rows. -/
theorem Counted.step (hc : Counted s) (h : Step s s') : Counted s' := by
  cases h with
  | recordDetached event =>
    rcases s.recordDetached_cases event with heq | heq
    · exact heq ▸ hc.of_eq rfl rfl rfl rfl id fun _ => by simp
    · exact heq ▸ hc.of_eq rfl rfl rfl rfl id id
  | countDrop => exact hc.of_eq rfl rfl rfl rfl id id
  | call event =>
    -- a new caller has written no row yet, and may make more calls at once than ever before
    have hlate : (s.call event).callers.countP Caller.isLate = s.callers.countP Caller.isLate := by
      simp [HistoryLog.call, Caller.isLate, Stage.isLate]
    refine ⟨hc.queueCapacity, hc.pruneEvery, Nat.le_max_right _ _, ?_, ?_⟩
    · intro hrest
      rw [hlate]
      exact (hc.late hrest).trans_le (Nat.add_le_add_left (Nat.le_max_left _ _) _)
    · intro hrest hmany
      refine (hc.roused hrest hmany).imp_right ?_
      rintro ⟨c, hmem, hstage⟩
      exact ⟨c, List.mem_append_left _ hmem, hstage⟩
  | @sendFlush caller =>
    rcases s.sendFlush_cases caller with heq | heq
    · rw [heq]
      exact (hc.push _).advance nofun rfl (roused_advance nofun nofun)
    · rw [heq]
      exact Counted.advance (hc.of_eq rfl rfl rfl rfl id id) nofun rfl (roused_advance nofun nofun)
  | @pushFlush caller =>
    exact (hc.push _).advance nofun rfl fun _ => .inl (by simp [HistoryLog.advance])
  | writeRow =>
    exact Counted.advance (hc.of_eq rfl rfl rfl rfl id id) nofun rfl (roused_advance nofun nofun)
  | tallyRow h => exact hc.tallyRow h
  | wake => exact hc.wake
  | prune => exact hc.of_lt rfl rfl rfl hc.pruneEvery
  | pruneNext => exact hc.of_eq rfl rfl rfl rfl id id
  | startNext now h => exact hc.of_eq rfl rfl rfl rfl (fun _ => by rw [h]; trivial) id
  | @takeBatch n =>
    obtain ⟨taken, callers, waiting, heq, htaken, hgranted⟩ := s.takeBatch_eq n
    -- the callers that move here are not at work on a row
    have hcount : callers.countP Caller.isRecording = s.callers.countP Caller.isRecording :=
      (hgranted.countP_eq fun c hc => by simp [Caller.isRecording, hc]).trans
        (htaken.countP_eq fun c hc => by simp [Caller.isRecording, hc])
    rw [heq]
    exact hc.of_not_resting rfl rfl hcount.le id
  | swapDropped => exact hc.of_not_resting rfl rfl le_rfl id
  | writeBatch =>
    dsimp only [HistoryLog.writeBatch]
    split
    case isTrue => exact hc.of_not_resting rfl rfl le_rfl id
    case isFalse => exact hc.of_not_resting rfl rfl le_rfl id
  | tallyBatch => exact hc.of_not_resting rfl rfl le_rfl id
  | check =>
    dsimp only [HistoryLog.check]
    split
    case isTrue => exact hc.of_not_resting rfl rfl le_rfl id
    case isFalse hfew => exact hc.of_lt rfl rfl rfl (Nat.lt_of_not_le hfew)
  | reset => exact hc.of_lt rfl rfl rfl hc.pruneEvery
  | retainNext now h => exact hc.of_eq rfl rfl rfl rfl (fun _ => by rw [h]; trivial) id
  | acknowledge h =>
    exact Counted.advance (hc.of_eq rfl rfl rfl rfl (fun _ => by rw [h]; trivial) id) nofun rfl (roused_advance nofun nofun)
  | again h => exact hc.of_eq rfl rfl rfl rfl (fun _ => by rw [h]; trivial) id

/-! ### Every run -/

variable {config : HistoryConfig} {table : List TableRow}

theorem kept_of_reaches (hasc : Ascending table) (hkeep : config.maxRows = some keep)
    (h : Reaches config table s) : Kept keep s := by
  induction h with
  | refl => exact ⟨hkeep, hasc, .inl ⟨.begun, List.mem_cons_self, id⟩⟩
  | tail _ hstep ih => exact ih.step hstep

theorem counted_of_reaches (h : Reaches config table s) : Counted s := by
  induction h with
  | refl =>
    have hevery : 0 < max config.pruneEvery 1 := Nat.le_max_right _ _
    exact ⟨Nat.le_max_right _ _, hevery, le_rfl, fun _ => hevery,
      fun _ hmany => absurd hevery (Nat.not_lt_of_le hmany)⟩
  | tail _ hstep ih => exact ih.step hstep

theorem countP_isUncounted_le (callers : List Caller) :
    callers.countP Caller.isUncounted ≤ callers.countP Caller.isLate := by
  refine List.countP_mono_left fun c _ h => ?_
  obtain ⟨hrow, hstage⟩ := Bool.and_eq_true_iff.mp h
  rw [Caller.isLate, hrow, of_decide_eq_true hstage]
  rfl

/-! ### Calls of `record` only -/

/-- Is it a call of `flush`? -/
def Caller.isPlain (c : Caller) : Bool := c.row.isNone

/-- The states that a log may come to when nobody calls `flush`. -/
inductive Unflushed (config : HistoryConfig) (table : List TableRow) : HistoryLog → Prop
  | fresh : Unflushed config table (HistoryLog.fresh config table)
  | record {s : HistoryLog} (h : Unflushed config table s) (event : Event) :
      Unflushed config table (s.call (some event))
  | step {s s' : HistoryLog} (h : Unflushed config table s) (hstep : Step s s')
      (hcalls : s'.callers.length = s.callers.length) : Unflushed config table s'

theorem Unflushed.reaches (h : Unflushed config table s) : Reaches config table s := by
  induction h with
  | fresh => exact .refl
  | record _ event ih => exact ih.tail (.call _)
  | step _ hstep _ ih => exact ih.tail hstep

theorem countP_isPlain_advance :
    (s.advance caller old new).callers.countP Caller.isPlain = s.callers.countP Caller.isPlain :=
  HistoryLog.shifted_advance.countP_eq fun _ _ => rfl

/-- **A call keeps its row**, whatever happens, and only a call of `flush` has none. -/
theorem Step.countP_isPlain (h : Step s s') :
    s'.callers.countP Caller.isPlain = s.callers.countP Caller.isPlain ∨
      ∃ event, s' = s.call event := by
  cases h with
  | call event => exact .inr ⟨event, rfl⟩
  | recordDetached event =>
    rcases s.recordDetached_cases event with heq | heq
    · exact .inl (heq ▸ rfl)
    · exact .inl (heq ▸ rfl)
  | @sendFlush caller =>
    rcases s.sendFlush_cases caller with heq | heq
    · exact .inl (heq ▸ countP_isPlain_advance)
    · exact .inl (heq ▸ countP_isPlain_advance)
  | @wake caller =>
    rcases s.wake_cases caller with heq | ⟨heq, -⟩
    · exact .inl (heq ▸ countP_isPlain_advance)
    · exact .inl (heq ▸ countP_isPlain_advance)
  | @takeBatch n =>
    obtain ⟨taken, callers, waiting, heq, htaken, hgranted⟩ := s.takeBatch_eq n
    rw [heq]
    exact .inl ((hgranted.countP_eq fun _ _ => rfl).trans (htaken.countP_eq fun _ _ => rfl))
  | writeBatch =>
    dsimp only [HistoryLog.writeBatch]
    split <;> exact .inl rfl
  | pushFlush | writeRow | tallyRow | acknowledge => exact .inl countP_isPlain_advance
  | countDrop | prune | pruneNext | startNext | swapDropped | tallyBatch | check | reset
  | retainNext | again => exact .inl rfl

/-- Without a flush every call has a row. -/
theorem Unflushed.countP_isPlain (h : Unflushed config table s) :
    s.callers.countP Caller.isPlain = 0 := by
  induction h with
  | fresh => rfl
  | record _ event ih => simp [HistoryLog.call, Caller.isPlain, ih]
  | step _ hstep hcalls ih =>
    rcases hstep.countP_isPlain with heq | ⟨event, rfl⟩
    · exact heq.trans ih
    · rw [HistoryLog.call, List.length_append] at hcalls
      exact absurd hcalls (Nat.succ_ne_self _)

/-- **The history stays bounded.** When the writer waits and no retention is in progress, the rows
are the newest to keep, those that make the limit of the count, and two for each call of `record`
that was ever in progress with others. And no wake-up is lost: when the writer waits although the
count is at the limit, a call of `record` is in progress, or a flush that was given room for its
message is about to queue it; where nobody calls `flush`, a call of `record` is in progress. -/
theorem table_stays_bounded (hasc : Ascending table) (hkeep : config.maxRows = some keep)
    (h : Reaches config table s) (hidle : s.writer = .idle) (hqueue : s.queue = []) :
    (s.pruners = [] → s.table.length ≤ keep + s.config.pruneEvery + 2 * s.peak) ∧
      (s.config.pruneEvery ≤ s.sincePrune →
        ∃ c ∈ s.callers, c.isRecording ∨ c.row = none ∧ c.stage = .granted) ∧
      (Unflushed config table s → s.config.pruneEvery ≤ s.sincePrune →
        ∃ c ∈ s.callers, c.isRecording) := by
  have hk := kept_of_reaches hasc hkeep h
  have hc := counted_of_reaches h
  have hrest : s.writer.IsResting := by rw [hidle]; trivial
  -- a writer that waits has an empty queue, so someone is on the way to wake it
  have hwoken : s.config.pruneEvery ≤ s.sincePrune →
      ∃ c ∈ s.callers, c.isRecording ∨ c.row = none ∧ c.stage = .granted := by
    intro hmany
    rcases hc.roused hrest hmany with hfull | ⟨c, hmem, hstage⟩
    · exact absurd hqueue hfull
    · refine ⟨c, hmem, ?_⟩
      rcases hstage with hstage | ⟨hstage, hrow⟩
      · cases hrow : c.row with
        | none => exact .inr ⟨rfl, hstage⟩
        | some row => exact .inl (by simp [Caller.isRecording, hrow, hstage])
      · exact .inl (by simp [Caller.isRecording, hrow, hstage])
  refine ⟨?_, hwoken, fun hunflushed hmany => ?_⟩
  · intro hpruners
    have hb := hk.bounded
    rw [HistoryLog.prunings, HistoryLog.unpruned, hidle, hpruners] at hb
    rcases hb with ⟨_, hmem, -⟩ | hlength
    · cases hmem
    · have hlate := hc.late hrest
      have huncounted := countP_isUncounted_le s.callers
      rw [undoomed, List.filter_eq_self.mpr (by simp [Writer.pruning])] at hlength
      dsimp only [Writer.uncounted] at hlength
      omega
  · obtain ⟨c, hmem, hrecording | ⟨hnone, -⟩⟩ := hwoken hmany
    · exact ⟨c, hmem, hrecording⟩
    -- a caller without a row is in a plain flush, of which there is none
    · have hplain := List.countP_eq_zero.mp hunflushed.countP_isPlain c hmem
      rw [Caller.isPlain, hnone] at hplain
      exact absurd rfl hplain

/-- Keep two rows, and prune after each. -/
def keepTwo : HistoryConfig := ⟨some 2, none, 8, 1⟩

/-- The server starts. -/
def startup : Event := ⟨7, none, "startup", ""⟩

/-- Three rows of an earlier run. -/
def olderRows : List TableRow :=
  [⟨4, ⟨1, none, "startup", ""⟩⟩, ⟨5, ⟨2, none, "startup", ""⟩⟩, ⟨6, ⟨3, none, "startup", ""⟩⟩]

/-- The log after the retention that it starts with. -/
def opened : HistoryLog := { HistoryLog.fresh keepTwo (olderRows.drop 1) with writer := .idle }

/-- The log when the flush of a call was acknowledged. -/
def flushed : HistoryLog := { opened with callers := [⟨some startup.row, .acked, []⟩], peak := 1 }

/-- The log when the row of the call was recorded and counted: the writer is about to be woken. -/
def restarted : HistoryLog := (flushed.writeRow 0 startup.row).tallyRow 0

theorem unflushed_opened : Unflushed keepTwo olderRows opened := by
  have hfresh : Unflushed keepTwo olderRows (.fresh keepTwo olderRows) := .fresh
  have hbegun := hfresh.step (.startNext 0 rfl) rfl
  have hcut := hbegun.step (.startNext 0 rfl) rfl
  have hdeleted := hcut.step (.startNext 0 rfl) rfl
  exact hdeleted

/-- The run has no flush but those of its rows. -/
theorem unflushed_flushed : Unflushed keepTwo olderRows flushed := by
  have hcalled := unflushed_opened.record startup
  have hsent : Unflushed keepTwo olderRows ((opened.call (some startup)).sendFlush 0) :=
    hcalled.step (.sendFlush ⟨_, rfl, rfl⟩) rfl
  have htaken := hsent.step (.takeBatch rfl Nat.one_pos (by decide) (by decide)) rfl
  have hswapped := htaken.step (.swapDropped rfl) rfl
  have hwritten := hswapped.step (.writeBatch 7 rfl) rfl
  have htallied := hwritten.step (.tallyBatch rfl) rfl
  have hchecked := htallied.step (.check rfl) rfl
  have hacknowledged := hchecked.step (.acknowledge rfl) rfl
  exact hacknowledged.step (.again rfl) rfl

theorem unflushed_restarted : Unflushed keepTwo olderRows restarted := by
  have hwritten : Unflushed keepTwo olderRows (flushed.writeRow 0 startup.row) :=
    unflushed_flushed.step (.writeRow rfl) rfl
  exact hwritten.step (.tallyRow rfl) rfl

theorem table_stays_bounded_restarted :
    restarted.table.length = 3 ∧
      restarted.table.length ≤ 2 + restarted.config.pruneEvery + 2 * restarted.peak ∧
      restarted.config.pruneEvery ≤ restarted.sincePrune ∧
      ∃ c ∈ restarted.callers, c.isRecording := by
  have hasc : Ascending olderRows := by simp [Ascending, olderRows]
  obtain ⟨hlength, -, hwake⟩ := table_stays_bounded hasc rfl unflushed_restarted.reaches rfl rfl
  have hmany : restarted.config.pruneEvery ≤ restarted.sincePrune := by decide
  exact ⟨rfl, hlength rfl, hmany, hwake unflushed_restarted hmany⟩

end History

end KdxHotline
