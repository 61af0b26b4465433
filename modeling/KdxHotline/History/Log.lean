import Mathlib.Data.List.Forall2
import Mathlib.Logic.Relation
import KdxHotline.History.Rows

/-!
# The history log

Events are recorded in two ways. `record` writes a row and waits for it; `record_detached` puts
an entry in a bounded queue, or counts it as dropped, and returns at once. One writer takes what
is queued in batches, writes each batch in one transaction, with equal entries collapsed into one
row, and reports what was dropped. A counter of the rows written tells when to delete old ones;
the writer looks at it after each batch.

`KdxHotline.History.Step` is what any of the tasks may do next, down to single accesses of a
counter and single statements of the database, so that a run is any interleaving of them.
-/

namespace KdxHotline

namespace History

open Limits

/-! ### The table -/

/-- Longest columns the database keeps, in bytes. -/
def maxActorBytes : ℕ := 256
/-- The longest action that is stored. -/
def maxActionBytes : ℕ := 64
/-- The longest detail that is stored. -/
def maxDetailBytes : ℕ := 4096
/-- Most rows that are deleted in one statement. -/
def pruneChunk : ℕ := 10000

/-- A row of the table, with its number. -/
structure TableRow where
  rowid : ℕ
  row : NewHistoryRow

/-- The highest number of a row. -/
def maxRowid (table : List TableRow) : Option ℕ := (table.map TableRow.rowid).max?

/-- A row with its columns cut to what the database keeps. -/
def NewHistoryRow.clipped (row : NewHistoryRow) : NewHistoryRow where
  timestamp := row.timestamp
  actor := row.actor.map (truncateUtf8 · maxActorBytes)
  action := truncateUtf8 row.action maxActionBytes
  detail := truncateUtf8 row.detail maxDetailBytes

/-- Append a row, under the next number. -/
def insertRow (table : List TableRow) (row : NewHistoryRow) : List TableRow :=
  table ++ [⟨(maxRowid table).getD 0 + 1, row.clipped⟩]

/-- Delete the first rows that are meant, so many at most. -/
def deleteChunk (meant : TableRow → Bool) : ℕ → List TableRow → List TableRow
  | 0, table => table
  | _, [] => []
  | chunk + 1, row :: table =>
    if meant row then deleteChunk meant chunk table else row :: deleteChunk meant (chunk + 1) table

/-- What is kept: how many rows and for how long, and how much waits in the queue. -/
structure HistoryConfig where
  maxRows : Option ℕ
  maxAge : Option ℕ
  queueCapacity : ℕ
  pruneEvery : ℕ

/-- Where retention is, of the statements it makes. -/
inductive Pruning
  | begun
  /-- Deleting what is older. -/
  | aging (cutoff : ℕ)
  /-- About to look for the newest row. -/
  | counting
  /-- Deleting what has no greater number. -/
  | deleting (cutoff : ℕ)

/-- The next statement of retention, until there is none, and the table after it. -/
def Pruning.next (config : HistoryConfig) (now : ℕ) (table : List TableRow) :
    Pruning → Option Pruning × List TableRow
  | begun =>
    (some (config.maxAge.elim counting fun age => aging (toDbTimestamp (now - age))), table)
  | aging cutoff =>
    let rest := deleteChunk (fun row => decide (row.row.timestamp < cutoff)) pruneChunk table
    (some (if table.length - rest.length < pruneChunk then counting else aging cutoff), rest)
  | counting =>
    match config.maxRows, maxRowid table with
    -- the cutoff is fixed now: rows that come later are not counted against it
    | some keep, some rowid => (some (deleting (rowid - min keep (2 ^ 63 - 1))), table)
    | _, _ => (none, table)
  | deleting cutoff =>
    let rest := deleteChunk (fun row => decide (row.rowid ≤ cutoff)) pruneChunk table
    (if table.length - rest.length < pruneChunk then none else some (deleting cutoff), rest)

/-! ### The log and its writer -/

/-- Most queued messages the writer takes per transaction. -/
def maxBatch : ℕ := 256

/-- What waits in the queue. -/
inductive WriterMsg
  | entry (entry : Pending)
  | prune
  /-- The flush of a call. -/
  | flush (caller : ℕ)

/-- The entry of a message. -/
def WriterMsg.asEntry : WriterMsg → Option Pending
  | .entry e => some e
  | _ => none

/-- The call whose flush a message is. -/
def WriterMsg.asFlush : WriterMsg → Option ℕ
  | .flush caller => some caller
  | _ => none

/-- The entries among some messages. -/
def entriesOf (msgs : List WriterMsg) : List Pending := msgs.filterMap WriterMsg.asEntry

/-- The flushes among some messages. -/
def flushesOf (msgs : List WriterMsg) : List ℕ := msgs.filterMap WriterMsg.asFlush

/-- Where the writer is in its loop, and which flushes it has to acknowledge. -/
inductive Writer
  | starting (pruning : Pruning)
  | idle
  | received (entries : List Pending) (acks : List ℕ)
  | counted (entries : List Pending) (dropped : ℕ) (acks : List ℕ)
  | written (rows : ℕ) (acks : List ℕ)
  | tallied (acks : List ℕ)
  /-- Retention was found due. -/
  | due (acks : List ℕ)
  | retaining (pruning : Pruning) (acks : List ℕ)
  | acking (acks : List ℕ)

namespace Writer

/-- The entries of the current batch that are not written. -/
def entries : Writer → List Pending
  | received entries _ | counted entries .. => entries
  | _ => []

/-- The drops of the current batch that are not reported. -/
def dropped : Writer → ℕ
  | counted _ dropped _ => dropped
  | _ => 0

/-- The calls that are told when the writer is done. -/
def acks : Writer → List ℕ
  | received _ acks | counted _ _ acks | written _ acks | tallied acks | due acks
  | retaining _ acks | acking acks => acks
  | _ => []

end Writer

/-- Where a call of `record` or `flush` is. -/
inductive Stage
  | started
  /-- Its flush waits for room in the queue. -/
  | waiting
  /-- There is room for its flush. -/
  | granted
  | queued
  /-- The writer has its flush. -/
  | taken
  | acked
  | recorded
  /-- Retention is due, and the writer is to be woken. -/
  | waking
  | done
  deriving DecidableEq

/-- A call of `record`, or of `flush` if it has no row to write. -/
structure Caller where
  row : Option NewHistoryRow
  stage : Stage
  /-- What was accepted before it was called. -/
  before : List Pending

/-- Is it a `record` in progress? -/
def Caller.isRecording (c : Caller) : Bool := c.row.isSome && c.stage ≠ .done

/-- The history: its queue, its writer, its callers and its table. -/
structure HistoryLog where
  config : HistoryConfig
  queue : List WriterMsg
  /-- The calls that wait for room, in their order. -/
  waiting : List ℕ
  dropped : ℕ
  sincePrune : ℕ
  writer : Writer
  callers : List Caller
  /-- The calls of `prune` in progress. -/
  pruners : List Pruning
  table : List TableRow
  /-- What was written, in order. -/
  log : List Write
  /-- How many calls of `record_detached` there were. -/
  detached : ℕ
  /-- How many of them found the queue full and have not counted that. -/
  midway : ℕ
  /-- What was accepted, in order. -/
  accepted : List Pending
  /-- How many calls of `record` were in progress at most. -/
  peak : ℕ

namespace HistoryLog

/-- A log over the rows that are there. -/
def fresh (config : HistoryConfig) (table : List TableRow) : HistoryLog where
  config := { config with
    queueCapacity := max config.queueCapacity 1
    pruneEvery := max config.pruneEvery 1 }
  queue := []
  waiting := []
  dropped := 0
  sincePrune := 0
  writer := .starting .begun
  callers := []
  pruners := []
  table
  log := []
  detached := 0
  midway := 0
  accepted := []
  peak := 0

variable (s : HistoryLog)

/-- How much of the queue is promised to calls. -/
def granted : ℕ := s.callers.countP fun c => c.stage = .granted

/-- Send a message if there is room. -/
def trySend (msg : WriterMsg) : Option HistoryLog :=
  if s.queue.length + s.granted < s.config.queueCapacity then
    some { s with queue := s.queue ++ [msg] }
  else none

/-- A call that is at one stage goes on to another. -/
def advance (caller : ℕ) (old new : Stage) : HistoryLog :=
  { s with callers := s.callers.modify caller fun c =>
      if c.stage = old then { c with stage := new } else c }

/-- Is this call there, at this stage? -/
def IsAt (caller : ℕ) (stage : Stage) : Prop := ∃ c, s.callers[caller]? = some c ∧ c.stage = stage

/-- Write to the table and to the log. -/
def insert (write : Write) : HistoryLog :=
  { s with table := write.rows.foldl insertRow s.table, log := s.log ++ [write] }

/-! #### Calls -/

/-- Queue an event. -/
def recordDetached (event : Event) : HistoryLog :=
  let s := { s with detached := s.detached + 1 }
  match s.trySend (.entry event.pending) with
  | some s => { s with accepted := s.accepted ++ [event.pending] }
  | none => { s with midway := s.midway + 1 }

/-- A call that found the queue full counts its event as dropped. -/
def countDrop : HistoryLog := { s with midway := s.midway - 1, dropped := s.dropped + 1 }

/-- A call of `record`, or of `flush`. -/
def call (event : Option Event) : HistoryLog :=
  let callers := s.callers ++ [⟨event.map Event.row, .started, s.accepted⟩]
  { s with callers, peak := max s.peak (callers.countP Caller.isRecording) }

/-- Send the flush, or wait for room. -/
def sendFlush (caller : ℕ) : HistoryLog :=
  match s.trySend (.flush caller) with
  | some s => s.advance caller .started .queued
  | none => { s with waiting := s.waiting ++ [caller] }.advance caller .started .waiting

/-- Send the flush into the room that was given. -/
def pushFlush (caller : ℕ) : HistoryLog :=
  { s with queue := s.queue ++ [WriterMsg.flush caller] }.advance caller .granted .queued

/-- Write the row, once the flush was acknowledged. -/
def writeRow (caller : ℕ) (row : NewHistoryRow) : HistoryLog :=
  (s.insert (.inline caller row)).advance caller .acked .recorded

/-- Count the row that a call has written itself. -/
def tallyRow (caller : ℕ) : HistoryLog :=
  let since := s.sincePrune + 1
  { s with sincePrune := since }.advance caller .recorded
    (if since = s.config.pruneEvery then .waking else .done)

/-- Wake the writer, if there is room. -/
def wake (caller : ℕ) : HistoryLog := ((s.trySend .prune).getD s).advance caller .waking .done

/-- A call of `prune`. -/
def prune : HistoryLog := { s with sincePrune := 0, pruners := s.pruners ++ [.begun] }

/-- A call of `prune` goes on. -/
def pruneNext (i now : ℕ) (pruning : Pruning) : HistoryLog :=
  let (next, table) := pruning.next s.config now s.table
  { s with table, pruners := s.pruners.take i ++ next.toList ++ s.pruners.drop (i + 1) }

/-! #### The writer -/

/-- Retention before the first batch. -/
def startNext (now : ℕ) (pruning : Pruning) : HistoryLog :=
  let (next, table) := pruning.next s.config now s.table
  { s with table, writer := next.elim .idle .starting }

/-- Give the room there is to the calls that wait for it, in their order. -/
def handOut : HistoryLog :=
  let room := s.config.queueCapacity - (s.queue.length + s.granted)
  (s.waiting.take room).foldl (fun s caller => s.advance caller .waiting .granted)
    { s with waiting := s.waiting.drop room }

/-- Take a batch of messages from the queue. -/
def takeBatch (n : ℕ) : HistoryLog :=
  let batch := s.queue.take n
  let acks := flushesOf batch
  let s := acks.foldl (fun s caller => s.advance caller .queued .taken) { s with
    queue := s.queue.drop n
    writer := .received (entriesOf batch) acks }
  s.handOut

/-- Take over what was dropped. -/
def swapDropped (entries : List Pending) (acks : List ℕ) : HistoryLog :=
  { s with writer := .counted entries s.dropped acks, dropped := 0 }

/-- Write the rows of the batch, if it has any. -/
def writeBatch (entries : List Pending) (dropped now : ℕ) (acks : List ℕ) : HistoryLog :=
  let write := Write.batch entries dropped now
  { if write.rows = [] then s else s.insert write with writer := .written write.rows.length acks }

/-- Count the rows of a batch. -/
def tallyBatch (rows : ℕ) (acks : List ℕ) : HistoryLog :=
  { s with sincePrune := s.sincePrune + rows, writer := .tallied acks }

/-- Is retention due? -/
def check (acks : List ℕ) : HistoryLog :=
  { s with writer := if s.config.pruneEvery ≤ s.sincePrune then .due acks else .acking acks }

/-- Begin to prune. -/
def reset (acks : List ℕ) : HistoryLog :=
  { s with sincePrune := 0, writer := .retaining .begun acks }

/-- Take the next step of pruning. -/
def retainNext (now : ℕ) (pruning : Pruning) (acks : List ℕ) : HistoryLog :=
  let (next, table) := pruning.next s.config now s.table
  { s with table, writer := next.elim (.acking acks) fun pruning => .retaining pruning acks }

/-- Acknowledge a flush: who waits for that goes on. -/
def acknowledge (caller : ℕ) (acks : List ℕ) : HistoryLog :=
  { s with writer := .acking acks }.advance caller .taken .acked

end HistoryLog

/-- What may happen next, by whichever task. -/
inductive Step (s : HistoryLog) : HistoryLog → Prop
  | recordDetached (event : Event) : Step s (s.recordDetached event)
  | countDrop (h : 0 < s.midway) : Step s s.countDrop
  | call (event : Option Event) : Step s (s.call event)
  | sendFlush {caller : ℕ} (h : s.IsAt caller .started) : Step s (s.sendFlush caller)
  | pushFlush {caller : ℕ} (h : s.IsAt caller .granted) : Step s (s.pushFlush caller)
  | writeRow {caller : ℕ} {row : NewHistoryRow} {before : List Pending}
      (h : s.callers[caller]? = some ⟨some row, .acked, before⟩) : Step s (s.writeRow caller row)
  | tallyRow {caller : ℕ} {row : NewHistoryRow} {before : List Pending}
      (h : s.callers[caller]? = some ⟨some row, .recorded, before⟩) : Step s (s.tallyRow caller)
  | wake {caller : ℕ} (h : s.IsAt caller .waking) : Step s (s.wake caller)
  | prune : Step s s.prune
  | pruneNext {i : ℕ} {pruning : Pruning} (now : ℕ) (h : s.pruners[i]? = some pruning) :
      Step s (s.pruneNext i now pruning)
  | startNext {pruning : Pruning} (now : ℕ) (h : s.writer = .starting pruning) :
      Step s (s.startNext now pruning)
  | takeBatch {n : ℕ} (h : s.writer = .idle) (hpos : 0 < n) (hbatch : n ≤ maxBatch)
      (hqueue : n ≤ s.queue.length) : Step s (s.takeBatch n)
  | swapDropped {entries : List Pending} {acks : List ℕ} (h : s.writer = .received entries acks) :
      Step s (s.swapDropped entries acks)
  | writeBatch {entries : List Pending} {dropped : ℕ} {acks : List ℕ} (now : ℕ)
      (h : s.writer = .counted entries dropped acks) :
      Step s (s.writeBatch entries dropped now acks)
  | tallyBatch {rows : ℕ} {acks : List ℕ} (h : s.writer = .written rows acks) :
      Step s (s.tallyBatch rows acks)
  | check {acks : List ℕ} (h : s.writer = .tallied acks) : Step s (s.check acks)
  | reset {acks : List ℕ} (h : s.writer = .due acks) : Step s (s.reset acks)
  | retainNext {pruning : Pruning} {acks : List ℕ} (now : ℕ)
      (h : s.writer = .retaining pruning acks) : Step s (s.retainNext now pruning acks)
  | acknowledge {caller : ℕ} {acks : List ℕ} (h : s.writer = .acking (caller :: acks)) :
      Step s (s.acknowledge caller acks)
  | again (h : s.writer = .acking []) : Step s { s with writer := .idle }

/-- The states that a log may come to. -/
def Reaches (config : HistoryConfig) (table : List TableRow) (s : HistoryLog) : Prop :=
  Relation.ReflTransGen Step (HistoryLog.fresh config table) s

/-! ### Calls that go on -/

/-- The calls are the same but for their stages, and these changed from one to the other only. -/
def Shifted (old new : Stage) : List Caller → List Caller → Prop :=
  List.Forall₂ fun c c' => c' = c ∨ c.stage = old ∧ c' = { c with stage := new }

namespace Shifted

variable {old new : Stage} {callers callers' callers'' : List Caller} {c c' : Caller}

protected theorem refl (callers : List Caller) : Shifted old new callers callers :=
  List.forall₂_same.mpr fun _ _ => .inl rfl

/-- Two shifts in a row. -/
theorem trans (h : Shifted old new callers callers') (h' : Shifted old new callers' callers'') :
    Shifted old new callers callers'' := by
  induction h generalizing callers'' with
  | nil => exact h'
  | cons hc _ ih =>
    obtain ⟨c'', rest, hc', hrest, rfl⟩ := List.forall₂_cons_left_iff.mp h'
    refine .cons ?_ (ih hrest)
    rcases hc with rfl | ⟨hold, rfl⟩
    · exact hc'
    · rcases hc' with rfl | ⟨-, rfl⟩
      · exact .inr ⟨hold, rfl⟩
      · exact .inr ⟨hold, rfl⟩

/-- One call is shifted. -/
theorem modify (callers : List Caller) (i : ℕ) : Shifted old new callers
    (callers.modify i fun c => if c.stage = old then { c with stage := new } else c) := by
  induction callers generalizing i with
  | nil => rw [List.modify_nil]; exact .nil
  | cons c callers ih =>
    cases i with
    | zero =>
      refine .cons ?_ (Shifted.refl callers)
      beta_reduce
      split
      case isTrue hc => exact .inr ⟨hc, rfl⟩
      case isFalse => exact .inl rfl
    | succ i => exact .cons (.inl rfl) (ih i)

/-- A call is still there, with its row. -/
theorem getElem? (h : Shifted old new callers callers') {i : ℕ} (hc : callers[i]? = some c) :
    ∃ c', callers'[i]? = some c' ∧ c'.row = c.row ∧ c'.before = c.before := by
  induction h generalizing i with
  | nil => cases hc
  | @cons a b l l' hab _ ih =>
    cases i with
    | zero =>
      obtain rfl := Option.some.inj hc
      refine ⟨b, rfl, ?_⟩
      rcases hab with rfl | ⟨-, rfl⟩ <;> exact ⟨rfl, rfl⟩
    | succ i => exact ih hc

/-- Where a call that is there comes from. -/
theorem mem_cases (h : Shifted old new callers callers') (hc : c' ∈ callers') :
    c' ∈ callers ∨ ∃ c ∈ callers, c.stage = old ∧ c' = { c with stage := new } := by
  induction h with
  | nil => exact .inl hc
  | @cons a b l l' hab _ ih =>
    rcases List.mem_cons.mp hc with rfl | hc
    · rcases hab with rfl | ⟨hold, rfl⟩
      · exact .inl List.mem_cons_self
      · exact .inr ⟨a, List.mem_cons_self, hold, rfl⟩
    · refine (ih hc).imp (List.mem_cons_of_mem _) ?_
      rintro ⟨c, hmem, hold⟩
      exact ⟨c, List.mem_cons_of_mem _ hmem, hold⟩

/-- A call at another stage stays where it is. -/
theorem mem_of_ne (h : Shifted old new callers callers') (hc : c ∈ callers) (hne : c.stage ≠ old) :
    c ∈ callers' := by
  induction h with
  | nil => exact hc
  | @cons a b l l' hab _ ih =>
    rcases List.mem_cons.mp hc with rfl | hc
    · rcases hab with rfl | ⟨hold, -⟩
      · exact List.mem_cons_self
      · exact absurd hold hne
    · exact List.mem_cons_of_mem _ (ih hc)

theorem countP_eq (h : Shifted old new callers callers') {p : Caller → Bool}
    (hp : ∀ c, c.stage = old → p { c with stage := new } = p c) :
    callers'.countP p = callers.countP p := by
  induction h with
  | nil => rfl
  | cons hab _ ih =>
    rcases hab with rfl | ⟨hold, rfl⟩
    · rw [List.countP_cons, List.countP_cons, ih]
    · rw [List.countP_cons, List.countP_cons, ih, hp _ hold]

/-- No more calls are counted after a shift that makes none count. -/
theorem countP_le (h : Shifted old new callers callers') {p : Caller → Bool}
    (hp : ∀ c, c.stage = old → p { c with stage := new } = true → p c = true) :
    callers'.countP p ≤ callers.countP p := by
  induction h with
  | nil => exact Nat.le_refl _
  | cons hab _ ih =>
    rw [List.countP_cons, List.countP_cons]
    refine Nat.add_le_add ih ?_
    rcases hab with rfl | ⟨hold, rfl⟩
    · exact Nat.le_refl _
    · split
      case isTrue hnew => exact Nat.le_of_eq (if_pos (hp _ hold hnew)).symm
      case isFalse => exact Nat.zero_le _

end Shifted

/-- What one call adds to a count when it goes on. -/
theorem countP_modify {callers : List Caller} {i : ℕ} {c : Caller} (h : callers[i]? = some c)
    (f : Caller → Caller) (p : Caller → Bool) :
    (callers.modify i f).countP p + (if p c then 1 else 0) =
      callers.countP p + if p (f c) then 1 else 0 := by
  obtain ⟨before, after, rfl, hmodify⟩ := modify_split h f
  rw [hmodify, List.countP_append, List.countP_append, List.countP_cons, List.countP_cons]
  omega

namespace HistoryLog

variable {s : HistoryLog} {caller : ℕ} {old new : Stage}

theorem shifted_advance : Shifted old new s.callers (s.advance caller old new).callers :=
  .modify _ _

theorem trySend_cases (s : HistoryLog) (msg : WriterMsg) :
    s.trySend msg = some { s with queue := s.queue ++ [msg] } ∨
      s.trySend msg = none ∧ s.config.queueCapacity ≤ s.queue.length + s.granted := by
  rw [trySend]
  split
  case isTrue => exact .inl rfl
  case isFalse hfull => exact .inr ⟨rfl, Nat.le_of_not_lt hfull⟩

/-- A detached event is queued or dropped. -/
theorem recordDetached_cases (s : HistoryLog) (event : Event) :
    s.recordDetached event = { s with
      detached := s.detached + 1
      queue := s.queue ++ [.entry event.pending]
      accepted := s.accepted ++ [event.pending] } ∨
    s.recordDetached event = { s with detached := s.detached + 1, midway := s.midway + 1 } := by
  rw [recordDetached]
  rcases trySend_cases { s with detached := s.detached + 1 } (.entry event.pending) with
    hsome | ⟨hnone, -⟩
  · exact .inl (by rw [hsome])
  · exact .inr (by rw [hnone])

theorem sendFlush_cases (s : HistoryLog) (caller : ℕ) :
    s.sendFlush caller =
      { s with queue := s.queue ++ [WriterMsg.flush caller] }.advance caller .started .queued ∨
    s.sendFlush caller =
      { s with waiting := s.waiting ++ [caller] }.advance caller .started .waiting := by
  rw [sendFlush]
  rcases trySend_cases s (.flush caller) with hsome | ⟨hnone, -⟩
  · exact .inl (by rw [hsome])
  · exact .inr (by rw [hnone])

theorem wake_cases (s : HistoryLog) (caller : ℕ) :
    s.wake caller = { s with queue := s.queue ++ [WriterMsg.prune] }.advance caller .waking .done ∨
    s.wake caller = s.advance caller .waking .done ∧
      s.config.queueCapacity ≤ s.queue.length + s.granted := by
  rw [wake]
  rcases trySend_cases s .prune with hsome | ⟨hnone, hfull⟩
  · exact .inl (by rw [hsome]; rfl)
  · exact .inr ⟨by rw [hnone]; rfl, hfull⟩

/-- Several calls that go on leave everything else as it is. -/
theorem foldl_advance (old new : Stage) (ids : List ℕ) (s : HistoryLog) : ∃ callers,
    ids.foldl (fun s caller => s.advance caller old new) s = { s with callers } ∧
      Shifted old new s.callers callers := by
  induction ids generalizing s with
  | nil => exact ⟨s.callers, rfl, .refl _⟩
  | cons caller ids ih =>
    obtain ⟨callers, heq, hshift⟩ := ih (s.advance caller old new)
    exact ⟨callers, heq, shifted_advance.trans hshift⟩

/-- A batch: whose flush is in it is told so, and the room it leaves goes to who waits. -/
theorem takeBatch_eq (s : HistoryLog) (n : ℕ) : ∃ taken callers waiting,
    s.takeBatch n = { s with
      queue := s.queue.drop n
      writer := .received (entriesOf (s.queue.take n)) (flushesOf (s.queue.take n))
      callers
      waiting } ∧
      Shifted .queued .taken s.callers taken ∧ Shifted .waiting .granted taken callers := by
  rw [takeBatch]
  obtain ⟨taken, htaken, hshift⟩ := foldl_advance .queued .taken (flushesOf (s.queue.take n)) { s with
    queue := s.queue.drop n
    writer := .received (entriesOf (s.queue.take n)) (flushesOf (s.queue.take n)) }
  rw [htaken, handOut]
  obtain ⟨callers, hcallers, hshift'⟩ := foldl_advance .waiting .granted _ _
  exact ⟨taken, callers, _, hcallers, hshift, hshift'⟩

end HistoryLog

end History

end KdxHotline
