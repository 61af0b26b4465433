import Mathlib
import KdxHotline.Limits

/-!
# Rows of the history

An event is truncated, and the entries of a batch that are equal but for their times become one
row, with a count in its detail. Nothing is lost by that: the counts of the rows are the entries
(`KdxHotline.History.sum_collapse`), and every entry has the row of the first that equals it
(`KdxHotline.History.row_of_first`).
-/

namespace KdxHotline

namespace History

open Limits

/-- Longest actor, in bytes. -/
def maxHistoryActorLen : ℕ := 64
/-- Longest detail, in bytes. -/
def maxHistoryDetailLen : ℕ := 512
/-- The action of the row that reports dropped events. -/
def actionHistoryDropped : String := "history_dropped"

/-! ### Rows -/

/-- An event as it is reported. -/
structure Event where
  timestamp : ℕ
  actor : Option String
  action : String
  detail : String

/-- An entry waiting for the writer, truncated. -/
structure Pending where
  timestamp : ℕ
  actor : Option String
  action : String
  detail : String
  deriving DecidableEq

/-- A row to be inserted. -/
structure NewHistoryRow where
  timestamp : ℕ
  actor : Option String
  action : String
  detail : String
  deriving DecidableEq

/-- A time as the database takes it. -/
def toDbTimestamp (timestamp : ℕ) : ℕ := min timestamp (2 ^ 63 - 1)

/-- An event as it waits to be written, with its texts cut. -/
def Event.pending (event : Event) : Pending where
  timestamp := event.timestamp
  actor := event.actor.map (truncateUtf8 · maxHistoryActorLen)
  action := event.action
  detail := truncateUtf8 event.detail maxHistoryDetailLen

/-- The row that `record` writes. -/
def Event.row (event : Event) : NewHistoryRow where
  timestamp := toDbTimestamp event.timestamp
  actor := event.actor.map (truncateUtf8 · maxHistoryActorLen)
  action := event.action
  detail := truncateUtf8 event.detail maxHistoryDetailLen

/-- What entries that are collapsed have in common. -/
def Pending.key (entry : Pending) : Option String × String × String :=
  (entry.actor, entry.action, entry.detail)

/-- The rows so far, as entries with their counts, and where the row of a key is. -/
structure Collapsing where
  out : List (Pending × ℕ)
  seen : List ((Option String × String × String) × ℕ)

/-- Take in an entry: count it if its like was seen, or else put it last. -/
def Collapsing.add (state : Collapsing) (entry : Pending) : Collapsing :=
  match state.seen.lookup entry.key with
  | some i => { state with out := state.out.modify i fun row => (row.1, row.2 + 1) }
  | none => ⟨state.out ++ [(entry, 1)], state.seen ++ [(entry.key, state.out.length)]⟩

/-- Collapse equal entries into the first of them, with how many there are. -/
def collapse (entries : List Pending) : List (Pending × ℕ) :=
  (entries.foldl Collapsing.add ⟨[], []⟩).out

/-- A detail with a count. -/
def withRepeatCount (detail : String) (count : ℕ) : String :=
  let suffix := "(x" ++ count.repr ++ ")"
  if detail = "" then suffix
  else
    let room := maxHistoryDetailLen - (suffix.utf8ByteSize + 1)
    truncateUtf8 detail room ++ " " ++ suffix

/-- The row of an entry and its count. -/
def rowOf (row : Pending × ℕ) : NewHistoryRow where
  timestamp := toDbTimestamp row.1.timestamp
  actor := row.1.actor
  action := row.1.action
  detail := if 1 < row.2 then withRepeatCount row.1.detail row.2 else row.1.detail

/-- The rows of a batch. -/
def coalesce (entries : List Pending) : List NewHistoryRow := (collapse entries).map rowOf

/-- The row that reports dropped events. -/
def droppedRow (now dropped : ℕ) : NewHistoryRow :=
  ⟨toDbTimestamp now, none, actionHistoryDropped,
    dropped.repr ++ " events dropped (history queue full)"⟩

/-- A row that says that it stands for so many entries, of which this is the first: it has the
detail of one, or a count after it, for which it may have been cut short. -/
structure NewHistoryRow.Shows (row : NewHistoryRow) (first : Pending) (count : ℕ) : Prop where
  timestamp : row.timestamp = toDbTimestamp first.timestamp
  actor : row.actor = first.actor
  action : row.action = first.action
  once : count = 1 → row.detail = first.detail
  often : 1 < count → ∃ front, row.detail = front ++ "(x" ++ count.repr ++ ")" ∧
    (first.detail = "" ∧ front = "" ∨ ∃ kept, kept.toList <+: first.detail.toList ∧ front = kept ++ " ")

/-- What was written at once: a batch of the writer or the row of a `record`. -/
inductive Write
  | batch (entries : List Pending) (dropped now : ℕ)
  /-- The row of a call, which has a number. -/
  | inline (caller : ℕ) (row : NewHistoryRow)

namespace Write

/-- The rows of a write. -/
def rows : Write → List NewHistoryRow
  | batch entries dropped now =>
    coalesce entries ++ if 0 < dropped then [droppedRow now dropped] else []
  | inline _ row => [row]

/-- The entries that a write took from the queue. -/
def entries : Write → List Pending
  | batch entries .. => entries
  | inline .. => []

/-- The dropped entries that a write reports. -/
def dropped : Write → ℕ
  | batch _ dropped _ => dropped
  | inline .. => 0

/-- How many entries the rows stand for. -/
def counted : Write → ℕ
  | batch entries .. => ((collapse entries).map Prod.snd).sum
  | inline .. => 0

end Write

/-! ### Collapsing loses nothing -/

variable {entry : Pending} {entries : List Pending} {state : Collapsing}

/-- What the rows say of the entries so far. -/
structure Collapsed (entries : List Pending) (state : Collapsing) : Prop where
  found : ∀ key i, state.seen.lookup key = some i → ∃ row, state.out[i]? = some row ∧ row.1.key = key
  missing : ∀ key, state.seen.lookup key = none → ∀ row ∈ state.out, row.1.key ≠ key
  sum : (state.out.map Prod.snd).sum = entries.length
  pos : ∀ row ∈ state.out, 0 < row.2
  mem : ∀ row ∈ state.out, row.1 ∈ entries
  first : ∀ entry ∈ entries, ∃ row ∈ state.out,
    entries.find? (fun other => other.key = entry.key) = some row.1

/-- A list around one of its elements. -/
theorem modify_split {α : Type} {l : List α} {i : ℕ} {a : α} (h : l[i]? = some a) (f : α → α) :
    ∃ before after, l = before ++ a :: after ∧ l.modify i f = before ++ f a :: after := by
  obtain ⟨hlt, rfl⟩ := List.getElem?_eq_some_iff.mp h
  refine ⟨l.take i, l.drop (i + 1), ?_, List.modify_eq_take_cons_drop hlt⟩
  rw [List.getElem_cons_drop hlt, List.take_append_drop]

/-- A row keeps its entry when its count grows. -/
theorem getElem?_counted {out : List (Pending × ℕ)} {i j : ℕ} {row : Pending × ℕ}
    (h : out[j]? = some row) : ∃ row', (out.modify i fun row => (row.1, row.2 + 1))[j]? = some row' ∧
      row'.1 = row.1 := by
  rw [List.getElem?_modify, h]
  by_cases hij : i = j
  · exact ⟨(row.1, row.2 + 1), by simp [hij], rfl⟩
  · exact ⟨row, by simp [hij], rfl⟩

/-- What one more entry keeps. -/
theorem Collapsed.add (h : Collapsed entries state) (entry : Pending) :
    Collapsed (entries ++ [entry]) (state.add entry) := by
  rw [Collapsing.add]
  split
  next i hi =>
    obtain ⟨row, hrow, hkey⟩ := h.found _ i hi
    obtain ⟨before, after, hout, hmodify⟩ := modify_split hrow fun row => (row.1, row.2 + 1)
    -- the entry joins a row, which keeps its own entry
    have hsame {other : Pending × ℕ} (hmem : other ∈ state.out) :
        ∃ other' ∈ state.out.modify i fun row => (row.1, row.2 + 1), other'.1 = other.1 := by
      obtain ⟨j, hj⟩ := List.mem_iff_getElem?.mp hmem
      obtain ⟨other', hother, heq⟩ := getElem?_counted (i := i) hj
      exact ⟨other', List.mem_of_getElem? hother, heq⟩
    constructor
    case found =>
      intro key j hj
      obtain ⟨other, hother, hk⟩ := h.found key j hj
      obtain ⟨other', hother', heq⟩ := getElem?_counted (i := i) hother
      exact ⟨other', hother', heq ▸ hk⟩
    case missing =>
      intro key hnone other hmem
      rw [hmodify] at hmem
      have hold := h.missing key hnone
      rw [hout] at hold
      rcases List.mem_append.mp hmem with hbefore | hafter
      · exact hold other (List.mem_append_left _ hbefore)
      · rcases List.mem_cons.mp hafter with rfl | hafter
        · exact hold row (List.mem_append_right _ List.mem_cons_self)
        · exact hold other (List.mem_append_right _ (List.mem_cons_of_mem _ hafter))
    case sum =>
      have hsum := h.sum
      rw [hout] at hsum
      rw [hmodify, List.length_append, ← hsum]
      simp
      omega
    case pos =>
      intro other hmem
      have hold := h.pos
      rw [hout] at hold
      rw [hmodify] at hmem
      rcases List.mem_append.mp hmem with hbefore | hafter
      · exact hold other (List.mem_append_left _ hbefore)
      · rcases List.mem_cons.mp hafter with rfl | hafter
        · exact Nat.succ_pos _
        · exact hold other (List.mem_append_right _ (List.mem_cons_of_mem _ hafter))
    case mem =>
      intro other hmem
      have hold := h.mem
      rw [hout] at hold
      rw [hmodify] at hmem
      rcases List.mem_append.mp hmem with hbefore | hafter
      · exact List.mem_append_left _ (hold other (List.mem_append_left _ hbefore))
      · rcases List.mem_cons.mp hafter with rfl | hafter
        · exact List.mem_append_left _ (hold row (List.mem_append_right _ List.mem_cons_self))
        · exact List.mem_append_left _
            (hold other (List.mem_append_right _ (List.mem_cons_of_mem _ hafter)))
    case first =>
      have hold {other : Pending} (hmem : other ∈ entries) :
          ∃ row ∈ state.out.modify i fun row => (row.1, row.2 + 1),
            (entries ++ [entry]).find? (fun e => e.key = other.key) = some row.1 := by
        obtain ⟨row, hrow, hfind⟩ := h.first other hmem
        obtain ⟨row', hrow', heq⟩ := hsame hrow
        exact ⟨row', hrow', by rw [List.find?_append, hfind, heq]; rfl⟩
      intro other hmem
      rcases List.mem_append.mp hmem with hmem | hmem
      · exact hold hmem
      · rw [List.mem_singleton.mp hmem, ← hkey]
        exact hold (h.mem row (List.mem_of_getElem? hrow))
  next hnone =>
    constructor
    case found =>
      intro key j hj
      rw [List.lookup_append] at hj
      cases hold : state.seen.lookup key with
      | some j' =>
        obtain rfl : j' = j := by simpa [hold] using hj
        obtain ⟨other, hother, hk⟩ := h.found key j' hold
        have hlt := (List.getElem?_eq_some_iff.mp hother).1
        exact ⟨other, by rw [List.getElem?_append_left hlt, hother], hk⟩
      | none =>
        have hnew : entry.key = key ∧ state.out.length = j := by
          rw [hold, Option.none_or, List.lookup_cons] at hj
          split at hj
          next heq => exact ⟨(beq_iff_eq.mp heq).symm, Option.some.inj hj⟩
          next => cases hj
        obtain ⟨rfl, rfl⟩ := hnew
        exact ⟨(entry, 1), List.getElem?_concat_length, rfl⟩
    case missing =>
      intro key hlookup other hmem
      rw [List.lookup_append, Option.or_eq_none_iff] at hlookup
      rcases List.mem_append.mp hmem with hmem | hmem
      · exact h.missing key hlookup.1 other hmem
      · rw [List.mem_singleton.mp hmem]
        rintro rfl
        simp at hlookup
    case sum => simp [h.sum]
    case pos =>
      intro other hmem
      rcases List.mem_append.mp hmem with hmem | hmem
      · exact h.pos other hmem
      · rw [List.mem_singleton.mp hmem]
        exact Nat.one_pos
    case mem =>
      intro other hmem
      rcases List.mem_append.mp hmem with hmem | hmem
      · exact List.mem_append_left _ (h.mem other hmem)
      · rw [List.mem_singleton.mp hmem]
        exact List.mem_append_right _ (List.mem_singleton_self _)
    case first =>
      intro other hmem
      rcases List.mem_append.mp hmem with hmem | hmem
      · obtain ⟨row, hrow, hfind⟩ := h.first other hmem
        exact ⟨row, List.mem_append_left _ hrow, by rw [List.find?_append, hfind]; rfl⟩
      · obtain rfl := List.mem_singleton.mp hmem
        refine ⟨(other, 1), List.mem_append_right _ (List.mem_singleton_self _), ?_⟩
        -- no entry before it has its key, or that one would have a row
        have hfresh : entries.find? (fun e => e.key = other.key) = none := by
          rw [List.find?_eq_none]
          intro e he heq
          obtain ⟨row, hrow, hfind⟩ := h.first e he
          have hk : row.1.key = e.key := by simpa using List.find?_some hfind
          exact h.missing _ hnone row hrow (hk.trans (of_decide_eq_true heq))
        rw [List.find?_append, hfresh]
        simp

theorem collapsed (entries : List Pending) :
    Collapsed entries (entries.foldl Collapsing.add ⟨[], []⟩) := by
  induction entries using List.reverseRecOn with
  | nil => constructor <;> simp
  | append_singleton entries entry ih =>
    rw [List.foldl_append]
    exact ih.add entry

/-- The counts of the rows are the entries. -/
theorem sum_collapse (entries : List Pending) :
    ((collapse entries).map Prod.snd).sum = entries.length := (collapsed entries).sum

/-! ### What the rows say -/

/-- The count comes last, after as much of the detail as there is room for. -/
theorem withRepeatCount_eq (detail : String) (count : ℕ) : ∃ front,
    withRepeatCount detail count = front ++ "(x" ++ count.repr ++ ")" ∧
      (detail = "" ∧ front = "" ∨
        ∃ kept, kept.toList <+: detail.toList ∧ front = kept ++ " ") := by
  unfold withRepeatCount
  dsimp only
  split
  case isTrue hempty => exact ⟨"", by simp [String.append_assoc], .inl ⟨hempty, rfl⟩⟩
  case isFalse =>
    have hkept := truncateUtf8_isPrefix detail
      (maxHistoryDetailLen - (("(x" ++ count.repr ++ ")").utf8ByteSize + 1))
    exact ⟨_, by simp only [String.append_assoc], .inr ⟨_, hkept, rfl⟩⟩

theorem rowOf_shows (row : Pending × ℕ) : (rowOf row).Shows row.1 row.2 where
  timestamp := rfl
  actor := rfl
  action := rfl
  once hone := if_neg (by omega)
  often hmany := by
    have hdetail : (rowOf row).detail = withRepeatCount row.1.detail row.2 := if_pos hmany
    rw [hdetail]
    exact withRepeatCount_eq row.1.detail row.2

/-- **Every entry has the row of the first that equals it.** -/
theorem row_of_first (h : entry ∈ entries) : ∃ first count,
    entries.find? (fun other => other.key = entry.key) = some first ∧
      (first, count) ∈ collapse entries := by
  obtain ⟨row, hrow, hfind⟩ := (collapsed entries).first entry h
  exact ⟨row.1, row.2, hfind, hrow⟩

end History

end KdxHotline
