import KdxHotline.Foundations.WriteLog
import KdxHotline.History.Log

/-!
# Nothing is lost, and nothing overtakes

Three facts about every state that a log may come to. The calls of `record_detached` are the
entries that were written, are queued or are in the writer's batch, and the drops that were
reported, are counted or are in the batch (`KdxHotline.History.Balanced`). And what was accepted
is what was written, is in the batch and is queued, in this order; so a flush that comes after an
entry is acknowledged after the entry is written, and the row of a `record` after everything that
was accepted before its call (`KdxHotline.History.Ordered`).

What was written is in the table: a write appends its rows there, whose texts say how many entries
they stand for and how many events were dropped, and nothing but retention takes rows away
(`KdxHotline.History.Changes`).

Together they are `KdxHotline.History.nothing_lost_and_in_order`.
-/

namespace KdxHotline

namespace History

open Foundations

variable {s s' : HistoryLog} {msgs msgs' : List WriterMsg}

@[simp] theorem entriesOf_append : entriesOf (msgs ++ msgs') = entriesOf msgs ++ entriesOf msgs' :=
  List.filterMap_append

@[simp] theorem entriesOf_entry (entry : Pending) : entriesOf [.entry entry] = [entry] := rfl

@[simp] theorem entriesOf_flush (caller : ℕ) : entriesOf [.flush caller] = [] := rfl

@[simp] theorem entriesOf_prune : entriesOf [.prune] = [] := rfl

theorem entriesOf_take_drop (n : ℕ) (msgs : List WriterMsg) :
    entriesOf (msgs.take n) ++ entriesOf (msgs.drop n) = entriesOf msgs := by
  rw [← entriesOf_append, List.take_append_drop]

/-- A flush is somewhere in the queue. -/
theorem mem_flushesOf {caller : ℕ} (h : caller ∈ flushesOf msgs) :
    ∃ before after, msgs = before ++ .flush caller :: after := by
  obtain ⟨msg, hmem, hmsg⟩ := List.mem_filterMap.mp h
  obtain ⟨before, after, rfl⟩ := List.append_of_mem hmem
  cases msg with
  | flush id =>
    obtain rfl := Option.some.inj hmsg
    exact ⟨before, after, rfl⟩
  | entry => cases hmsg
  | prune => cases hmsg

/-! ### Every call is counted once -/

/-- The calls of `record_detached` that the log can account for. -/
def HistoryLog.accounted (s : HistoryLog) : ℕ :=
  (s.log.map Write.counted).sum + (entriesOf s.queue).length + (s.log.map Write.dropped).sum +
    s.dropped + (s.writer.entries.length + s.writer.dropped)

/-- Every call is accounted for, but for those that have not counted their drop. -/
def Balanced (s : HistoryLog) : Prop := s.detached = s.accounted + s.midway

/-- A batch that has no rows has nothing to write. -/
theorem empty_of_rows {entries : List Pending} {dropped now : ℕ}
    (h : (Write.batch entries dropped now).rows = []) : entries = [] ∧ dropped = 0 := by
  obtain ⟨hentries, hdropped⟩ := List.append_eq_nil_iff.mp h
  constructor
  · have hsum := sum_collapse entries
    rw [List.map_eq_nil_iff.mp hentries] at hsum
    exact List.eq_nil_of_length_eq_zero hsum.symm
  · split at hdropped
    case isTrue => cases hdropped
    case isFalse hzero => exact Nat.eq_zero_of_not_pos hzero

/-- What one step keeps of the balance. -/
theorem Balanced.step (hb : Balanced s) (h : Step s s') : Balanced s' := by
  rw [Balanced, HistoryLog.accounted] at hb ⊢
  cases h with
  | recordDetached event =>
    rcases s.recordDetached_cases event with heq | heq
    · rw [heq]
      simp only [entriesOf_append, entriesOf_entry, List.length_append, List.length_singleton]
      omega
    · rw [heq]
      dsimp only
      omega
  | countDrop h =>
    dsimp only [HistoryLog.countDrop]
    omega
  | call => exact hb
  | @sendFlush caller =>
    rcases s.sendFlush_cases caller with heq | heq
    · rw [heq]
      simpa [HistoryLog.advance] using hb
    · rw [heq]
      exact hb
  | pushFlush => simpa [HistoryLog.pushFlush, HistoryLog.advance] using hb
  | writeRow => simpa [HistoryLog.writeRow, HistoryLog.insert, HistoryLog.advance, Write.counted,
      Write.dropped] using hb
  | tallyRow => exact hb
  | @wake caller =>
    rcases s.wake_cases caller with heq | ⟨heq, -⟩
    · rw [heq]
      simpa [HistoryLog.advance] using hb
    · rw [heq]
      exact hb
  | prune => exact hb
  | pruneNext => exact hb
  | @startNext pruning now h =>
    rw [h] at hb
    dsimp only [HistoryLog.startNext]
    cases (pruning.next s.config now s.table).1 <;> exact hb
  | @takeBatch n h =>
    obtain ⟨_, callers, waiting, heq, -, -⟩ := s.takeBatch_eq n
    -- the batch and the rest of the queue are together what the queue was
    have hsplit := congrArg List.length (entriesOf_take_drop n s.queue)
    rw [List.length_append] at hsplit
    rw [h] at hb
    rw [heq]
    simp only [Writer.entries, Writer.dropped, List.length_nil] at hb ⊢
    omega
  | swapDropped h =>
    rw [h] at hb
    simp only [HistoryLog.swapDropped, Writer.entries, Writer.dropped] at hb ⊢
    omega
  | @writeBatch entries dropped acks now h =>
    rw [h] at hb
    dsimp only [HistoryLog.writeBatch]
    split
    case isTrue hnone =>
      obtain ⟨rfl, rfl⟩ := empty_of_rows hnone
      exact hb
    case isFalse =>
      -- collapsing keeps the sum: every entry is counted in one row
      have hcounted : Write.counted (.batch entries dropped now) = entries.length :=
        sum_collapse entries
      simp only [HistoryLog.insert, List.map_append, List.map_singleton, List.sum_append,
        List.sum_singleton, hcounted, Write.dropped, Writer.entries, Writer.dropped,
        List.length_nil] at hb ⊢
      omega
  | tallyBatch h => rw [h] at hb; exact hb
  | check h =>
    rw [h] at hb
    dsimp only [HistoryLog.check]
    split <;> exact hb
  | reset h => rw [h] at hb; exact hb
  | @retainNext pruning acks now h =>
    rw [h] at hb
    dsimp only [HistoryLog.retainNext]
    cases (pruning.next s.config now s.table).1 <;> exact hb
  | acknowledge h => rw [h] at hb; exact hb
  | again h => rw [h] at hb; exact hb

/-- What a call was preceded by is in a list of entries. -/
def Covers (callers : List Caller) (caller : ℕ) (entries : List Pending) : Prop :=
  ∃ c, callers[caller]? = some c ∧ c.before <+: entries

/-- Was the flush of a call at this stage acknowledged? -/
def Stage.IsFlushed (stage : Stage) : Prop :=
  stage = .acked ∨ stage = .recorded ∨ stage = .waking ∨ stage = .done

/-- The entries that were written. -/
def written (log : List Write) : List Pending := log.flatMap Write.entries

/-- What was accepted was written, is in the batch or is queued, in this order, and no flush and
no row overtakes what was accepted before its call. -/
structure Ordered (accepted : List Pending) (log : List Write) (batch : List Pending)
    (acks : List ℕ) (queue : List WriterMsg) (callers : List Caller) : Prop where
  accepted : accepted = written log ++ batch ++ entriesOf queue
  before : ∀ c ∈ callers, c.before <+: written log ++ batch ++ entriesOf queue
  queued : ∀ ⦃before caller after⦄, queue = before ++ .flush caller :: after →
    Covers callers caller (written log ++ batch ++ entriesOf before)
  acks : ∀ caller ∈ acks, Covers callers caller (written log ++ batch)
  flushed : ∀ c ∈ callers, c.stage.IsFlushed → c.before <+: written log
  rows : ∀ ⦃before caller row after⦄, log = before ++ .inline caller row :: after →
    ∃ c, callers[caller]? = some c ∧ c.row = some row ∧ c.before <+: written before

section

variable {accepted batch entries : List Pending} {log : List Write} {acks : List ℕ}
  {queue : List WriterMsg} {callers callers' : List Caller} {old new : Stage} {caller : ℕ}
  {c : Caller}

theorem Covers.mono (h : Covers callers caller entries) (hle : entries <+: batch) :
    Covers callers caller batch := by
  obtain ⟨c, hc, hbefore⟩ := h
  exact ⟨c, hc, hbefore.trans hle⟩

theorem Covers.shift (h : Covers callers caller entries) (hshift : Shifted old new callers callers') :
    Covers callers' caller entries := by
  obtain ⟨c, hc, hbefore⟩ := h
  obtain ⟨c', hc', -, heq⟩ := hshift.getElem? hc
  exact ⟨c', hc', heq ▸ hbefore⟩

namespace Ordered

/-- Calls go on, to where their flush need not be acknowledged or is known to be. -/
theorem shift (h : Ordered accepted log batch acks queue callers)
    (hshift : Shifted old new callers callers')
    (hnew : new.IsFlushed → old.IsFlushed) :
    Ordered accepted log batch acks queue callers' where
  accepted := h.accepted
  before c hc := by
    rcases hshift.mem_cases hc with hmem | ⟨c, hmem, -, rfl⟩
    · exact h.before _ hmem
    · exact h.before c hmem
  queued _ _ _ hqueue := (h.queued hqueue).shift hshift
  acks caller hcaller := (h.acks caller hcaller).shift hshift
  flushed c hc hflushed := by
    rcases hshift.mem_cases hc with hmem | ⟨c, hmem, rfl, rfl⟩
    · exact h.flushed _ hmem hflushed
    · exact h.flushed c hmem (hnew hflushed)
  rows _ _ _ _ hlog := by
    obtain ⟨c, hc, hrow, hbefore⟩ := h.rows hlog
    obtain ⟨c', hc', hrow', heq⟩ := hshift.getElem? hc
    exact ⟨c', hc', hrow'.trans hrow, heq ▸ hbefore⟩

/-- A message is queued; if it is a flush, then of a call that comes after what was accepted. -/
theorem push (h : Ordered accepted log batch acks queue callers) (msg : WriterMsg)
    (hflush : ∀ caller, msg = .flush caller → Covers callers caller accepted) :
    Ordered (accepted ++ entriesOf [msg]) log batch acks (queue ++ [msg]) callers where
  accepted := by rw [h.accepted, entriesOf_append, List.append_assoc _ (entriesOf queue)]
  before c hc := by
    refine (h.before c hc).trans ⟨entriesOf [msg], ?_⟩
    rw [entriesOf_append, List.append_assoc _ (entriesOf queue)]
  queued before caller after hqueue := by
    rcases split_concat hqueue with ⟨mid, hold, -⟩ | ⟨rfl, rfl, -⟩
    · exact h.queued hold
    · exact h.accepted ▸ hflush caller rfl
  acks := h.acks
  flushed := h.flushed
  rows := h.rows

/-- A call begins. -/
theorem call (h : Ordered accepted log batch acks queue callers) (row : Option NewHistoryRow) :
    Ordered accepted log batch acks queue (callers ++ [⟨row, .started, accepted⟩]) := by
  have hcovers {caller : ℕ} {entries : List Pending} (hc : Covers callers caller entries) :
      Covers (callers ++ [⟨row, .started, accepted⟩]) caller entries := by
    obtain ⟨c, hc, hbefore⟩ := hc
    exact ⟨c, List.getElem?_append_left (List.getElem?_eq_some_iff.mp hc).1 ▸ hc, hbefore⟩
  constructor
  case accepted => exact h.accepted
  case before =>
    intro c hc
    rcases List.mem_append.mp hc with hc | hc
    · exact h.before c hc
    · rw [List.mem_singleton.mp hc]
      exact h.accepted ▸ List.prefix_refl _
  case queued => exact fun _ _ _ hqueue => hcovers (h.queued hqueue)
  case acks => exact fun caller hcaller => hcovers (h.acks caller hcaller)
  case flushed =>
    intro c hc hflushed
    rcases List.mem_append.mp hc with hc | hc
    · exact h.flushed c hc hflushed
    · rw [List.mem_singleton.mp hc] at hflushed
      simp [Stage.IsFlushed] at hflushed
  case rows =>
    intro _ _ _ _ hlog
    obtain ⟨c, hc, hrow, hbefore⟩ := h.rows hlog
    exact ⟨c, List.getElem?_append_left (List.getElem?_eq_some_iff.mp hc).1 ▸ hc, hrow, hbefore⟩

/-- A call whose flush was acknowledged writes its row. -/
theorem writeRow (h : Ordered accepted log batch acks queue callers) {row : NewHistoryRow}
    (hc : callers[caller]? = some c) (hflushed : c.stage.IsFlushed) (hrow : c.row = some row) :
    Ordered accepted (log ++ [.inline caller row]) batch acks queue callers := by
  have hwritten : written (log ++ [.inline caller row]) = written log := by
    simp [written, Write.entries]
  refine ⟨?_, ?_, ?_, ?_, ?_, ?_⟩
  · rw [hwritten]; exact h.accepted
  · rw [hwritten]; exact h.before
  · rw [hwritten]; exact h.queued
  · rw [hwritten]; exact h.acks
  · rw [hwritten]; exact h.flushed
  · intro before id row' after hlog
    rcases split_concat hlog with ⟨mid, hold, -⟩ | ⟨rfl, heq, -⟩
    · exact h.rows hold
    · obtain ⟨rfl, rfl⟩ := Write.inline.inj heq
      exact ⟨c, hc, hrow, h.flushed c (List.mem_of_getElem? hc) hflushed⟩

/-- The writer takes a batch. -/
theorem take (h : Ordered accepted log [] [] queue callers) (n : ℕ) :
    Ordered accepted log (entriesOf (queue.take n)) (flushesOf (queue.take n)) (queue.drop n)
      callers := by
  have hsplit : written log ++ entriesOf (queue.take n) ++ entriesOf (queue.drop n) =
      written log ++ [] ++ entriesOf queue := by
    rw [List.append_assoc, entriesOf_take_drop, List.append_nil]
  refine ⟨?_, ?_, ?_, ?_, h.flushed, h.rows⟩
  · rw [hsplit]; exact h.accepted
  · rw [hsplit]; exact h.before
  · intro before caller after hdrop
    have hqueue : queue = (queue.take n ++ before) ++ .flush caller :: after := by
      rw [List.append_assoc, ← hdrop, List.take_append_drop]
    have hcovers := h.queued hqueue
    rwa [entriesOf_append, List.append_nil, ← List.append_assoc] at hcovers
  · intro caller hmem
    obtain ⟨before, after, htake⟩ := mem_flushesOf hmem
    have hqueue : queue = before ++ .flush caller :: (after ++ queue.drop n) := by
      rw [← List.cons_append, ← List.append_assoc, ← htake, List.take_append_drop]
    refine (h.queued hqueue).mono ?_
    rw [htake, List.append_nil, entriesOf_append, ← List.append_assoc]
    exact List.prefix_append _ _

/-- The writer writes its batch. -/
theorem writeBatch (h : Ordered accepted log batch acks queue callers) (dropped now : ℕ) :
    Ordered accepted (log ++ [.batch batch dropped now]) [] acks queue callers := by
  have hwritten : written (log ++ [.batch batch dropped now]) = written log ++ batch := by
    simp [written, Write.entries]
  refine ⟨?_, ?_, ?_, ?_, ?_, ?_⟩
  · rw [hwritten, List.append_nil]; exact h.accepted
  · rw [hwritten, List.append_nil]; exact h.before
  · rw [hwritten, List.append_nil]; exact h.queued
  · rw [hwritten, List.append_nil]; exact h.acks
  · rw [hwritten]
    exact fun c hc hflushed => (h.flushed c hc hflushed).trans (List.prefix_append _ _)
  · intro before id row after hlog
    rcases split_concat hlog with ⟨mid, hold, -⟩ | ⟨-, heq, -⟩
    · exact h.rows hold
    · cases heq

/-- The writer acknowledges a flush, once its batch is written. -/
theorem acknowledge (h : Ordered accepted log [] (caller :: acks) queue callers) :
    Ordered accepted log [] acks queue (callers.modify caller fun c =>
      if c.stage = .taken then { c with stage := .acked } else c) := by
  have hshift := @Shifted.modify .taken .acked callers caller
  constructor
  case accepted => exact h.accepted
  case before =>
    intro c hc
    rcases hshift.mem_cases hc with hmem | ⟨c, hmem, -, rfl⟩
    · exact h.before _ hmem
    · exact h.before c hmem
  case queued => exact fun _ _ _ hqueue => (h.queued hqueue).shift hshift
  case acks => exact fun id hid => (h.acks id (List.mem_cons_of_mem _ hid)).shift hshift
  case flushed =>
    intro c' hc' hflushed
    obtain ⟨i, hi⟩ := List.mem_iff_getElem?.mp hc'
    rw [List.getElem?_modify, Option.map_eq_map, Option.map_eq_some_iff] at hi
    obtain ⟨c, hc, rfl⟩ := hi
    -- all that was accepted before its call is written, as the batch is empty
    by_cases hcaller : caller = i
    · obtain ⟨c₀, hc₀, hbefore⟩ := h.acks caller List.mem_cons_self
      obtain rfl : c₀ = c := Option.some.inj (hc₀.symm.trans (hcaller ▸ hc))
      rw [List.append_nil] at hbefore
      rw [if_pos hcaller]
      split <;> exact hbefore
    · rw [if_neg hcaller] at hflushed ⊢
      exact h.flushed c (List.mem_of_getElem? hc) hflushed
  case rows =>
    intro _ _ _ _ hlog
    obtain ⟨c, hc, hrow, hbefore⟩ := h.rows hlog
    obtain ⟨c', hc', hrow', heq⟩ := hshift.getElem? hc
    exact ⟨c', hc', hrow'.trans hrow, heq ▸ hbefore⟩

end Ordered

end

variable {config : HistoryConfig} {table : List TableRow}

/-- Nothing overtakes in a state. -/
def HistoryLog.Ordered (s : HistoryLog) : Prop :=
  History.Ordered s.accepted s.log s.writer.entries s.writer.acks s.queue s.callers

/-- What one step keeps of the order. -/
theorem HistoryLog.Ordered.step (ho : s.Ordered) (h : Step s s') : s'.Ordered := by
  rw [HistoryLog.Ordered] at ho ⊢
  have hcovers {caller : ℕ} {stage : Stage} (hat : s.IsAt caller stage) :
      ∀ id, WriterMsg.flush caller = .flush id → Covers s.callers id s.accepted := by
    rintro id heq
    obtain rfl := WriterMsg.flush.inj heq
    obtain ⟨c, hc, -⟩ := hat
    exact ⟨c, hc, ho.accepted ▸ ho.before c (List.mem_of_getElem? hc)⟩
  cases h with
  | recordDetached event =>
    rcases s.recordDetached_cases event with heq | heq
    · rw [heq]
      exact ho.push (.entry event.pending) nofun
    · rw [heq]
      exact ho
  | countDrop => exact ho
  | call event => exact ho.call _
  | @sendFlush caller h =>
    rcases s.sendFlush_cases caller with heq | heq
    -- a flush enters the queue behind all that was accepted before its call
    · have hpush := ho.push (.flush caller) (hcovers h)
      rw [entriesOf_flush, List.append_nil] at hpush
      rw [heq]
      exact hpush.shift HistoryLog.shifted_advance (by simp [Stage.IsFlushed])
    · rw [heq]
      exact ho.shift HistoryLog.shifted_advance (by simp [Stage.IsFlushed])
  | @pushFlush caller h =>
    have hpush := ho.push (.flush caller) (hcovers h)
    rw [entriesOf_flush, List.append_nil] at hpush
    exact hpush.shift HistoryLog.shifted_advance (by simp [Stage.IsFlushed])
  | writeRow h =>
    exact (ho.writeRow h (.inl rfl) rfl).shift HistoryLog.shifted_advance (by simp [Stage.IsFlushed])
  | tallyRow => exact ho.shift HistoryLog.shifted_advance (by simp [Stage.IsFlushed])
  | @wake caller =>
    rcases s.wake_cases caller with heq | ⟨heq, -⟩
    · have hpush := ho.push .prune nofun
      rw [entriesOf_prune, List.append_nil] at hpush
      rw [heq]
      exact hpush.shift HistoryLog.shifted_advance (by simp [Stage.IsFlushed])
    · rw [heq]
      exact ho.shift HistoryLog.shifted_advance (by simp [Stage.IsFlushed])
  | prune => exact ho
  | pruneNext => exact ho
  | @startNext pruning now h =>
    rw [h] at ho
    dsimp only [HistoryLog.startNext]
    cases (pruning.next s.config now s.table).1 <;> exact ho
  | @takeBatch n h =>
    obtain ⟨taken, callers, waiting, heq, htaken, hgranted⟩ := s.takeBatch_eq n
    rw [h] at ho
    rw [heq]
    exact ((ho.take n).shift htaken (by simp [Stage.IsFlushed])).shift hgranted
      (by simp [Stage.IsFlushed])
  | swapDropped h => rw [h] at ho; exact ho
  | @writeBatch entries dropped acks now h =>
    rw [h] at ho
    dsimp only [HistoryLog.writeBatch]
    split
    case isTrue hnone =>
      obtain ⟨rfl, rfl⟩ := empty_of_rows hnone
      exact ho
    case isFalse => exact ho.writeBatch dropped now
  | tallyBatch h => rw [h] at ho; exact ho
  | check h =>
    rw [h] at ho
    dsimp only [HistoryLog.check]
    split <;> exact ho
  | reset h => rw [h] at ho; exact ho
  | @retainNext pruning acks now h =>
    rw [h] at ho
    dsimp only [HistoryLog.retainNext]
    cases (pruning.next s.config now s.table).1 <;> exact ho
  | acknowledge h => rw [h] at ho; exact ho.acknowledge
  | again h => rw [h] at ho; exact ho

/-- What a step does to the table and to the log of what was written. -/
inductive Changes (s s' : HistoryLog) : Prop
  | nothing (hlog : s'.log = s.log) (htable : s'.table = s.table)
  /-- The rows of a write are appended, each with its columns cut to what the database keeps. -/
  | wrote (write : Write) (hlog : s'.log = s.log ++ [write])
      (htable : s'.table.map TableRow.row =
        s.table.map TableRow.row ++ write.rows.map NewHistoryRow.clipped)
  /-- A statement of retention. -/
  | pruned (pruning : Pruning) (now : ℕ) (hlog : s'.log = s.log)
      (htable : s'.table = (pruning.next s.config now s.table).2)

theorem map_insertRows (rows : List NewHistoryRow) (table : List TableRow) :
    (rows.foldl insertRow table).map TableRow.row =
      table.map TableRow.row ++ rows.map NewHistoryRow.clipped := by
  induction rows generalizing table with
  | nil => simp
  | cons row rows ih =>
    rw [List.foldl_cons, ih, insertRow, List.map_append, List.append_assoc]
    rfl

theorem changes_insert (s : HistoryLog) (write : Write) : Changes s (s.insert write) :=
  .wrote write rfl (map_insertRows write.rows s.table)

/-- **What every step does to the table**: what it writes is there afterwards, and nothing but
retention takes anything away. -/
theorem Step.changes (h : Step s s') : Changes s s' := by
  cases h with
  | recordDetached event =>
    rcases s.recordDetached_cases event with heq | heq
    · exact heq ▸ .nothing rfl rfl
    · exact heq ▸ .nothing rfl rfl
  | @sendFlush caller =>
    rcases s.sendFlush_cases caller with heq | heq
    · exact heq ▸ .nothing rfl rfl
    · exact heq ▸ .nothing rfl rfl
  | @wake caller =>
    rcases s.wake_cases caller with heq | ⟨heq, -⟩
    · exact heq ▸ .nothing rfl rfl
    · exact heq ▸ .nothing rfl rfl
  | writeRow h =>
    obtain ⟨hlog, htable⟩ | ⟨write, hlog, htable⟩ | ⟨_, _, hlog, htable⟩ := changes_insert s (.inline _ _)
    · exact .nothing hlog htable
    · exact .wrote write hlog htable
    · exact .pruned _ _ hlog htable
  | pruneNext now => exact .pruned _ now rfl rfl
  | startNext now => exact .pruned _ now rfl rfl
  | retainNext now => exact .pruned _ now rfl rfl
  | @takeBatch n =>
    obtain ⟨_, _, _, heq, -, -⟩ := s.takeBatch_eq n
    exact heq ▸ .nothing rfl rfl
  | @writeBatch entries dropped acks now =>
    dsimp only [HistoryLog.writeBatch]
    split
    case isTrue => exact .nothing rfl rfl
    case isFalse => exact .wrote _ rfl (map_insertRows _ s.table)
  | _ => exact .nothing rfl rfl

/-- Every entry that was written has a row in what was written, its own or that of the first of
its batch that equals it. -/
theorem exists_row {log : List Write} {entry : Pending} (h : entry ∈ written log) :
    ∃ entries dropped now first count, .batch entries dropped now ∈ log ∧ entry ∈ entries ∧
      entries.find? (fun other => other.key = entry.key) = some first ∧ (first, count) ∈ collapse entries ∧
      ∃ row ∈ (Write.batch entries dropped now).rows, row.Shows first count := by
  obtain ⟨write, hwrite, hentry⟩ := List.mem_flatMap.mp h
  cases write with
  | batch entries dropped now =>
    obtain ⟨first, count, hfirst, hrow⟩ := row_of_first hentry
    exact ⟨entries, dropped, now, first, count, hwrite, hentry, hfirst, hrow, rowOf (first, count),
      List.mem_append_left _ (List.mem_map_of_mem hrow), rowOf_shows (first, count)⟩
  | inline => cases hentry

end History

end KdxHotline
