import Mathlib.Data.List.Basic
import Mathlib.Tactic.Common
import KdxHotline.Foundations.Table
import KdxHotline.Storage.Pool

/-!
# The table of unfinished uploads

One row per upload that can still be resumed: what was announced, which chunks
have arrived, and when the row was last used. Every row names the partial file of
its own id; that is a field of the row.

A transfer id is a UUID, and the server knows it by its usual text: lower-case
hexadecimal with hyphens. The file a transfer ends up in is named after its id,
and the partial file after the id with `.part` behind it.
-/

namespace KdxHotline

namespace Storage

open Foundations

/-! ### Transfer ids -/

/-- Lower-case hexadecimal digits. -/
def isHexDigit (c : Char) : Bool := ('0' ≤ c && c ≤ '9') || ('a' ≤ c && c ≤ 'f')

/-- Whether the text fits the pattern, in which `x` stands for any digit. -/
def fits : List Char → List Char → Bool
  | [], [] => true
  | p :: ps, c :: cs => (if p = 'x' then isHexDigit c else c == p) && fits ps cs
  | _, _ => false

/-- Whether the text is a UUID with hyphens, in lower case. -/
def isHyphenated (s : String) : Bool :=
  fits "xxxxxxxx-xxxx-xxxx-xxxx-xxxxxxxxxxxx".toList s.toList

/-- A UUID, as its text. -/
structure Uuid where
  toString : String
  hyphenated : isHyphenated toString = true
  deriving DecidableEq

/-- A name in the directory of files. -/
inductive FileName
  /-- The finished file of a transfer. -/
  | blob (id : Uuid)
  /-- The partial file of a transfer, `<id>.part`. -/
  | part (id : Uuid)
  | other (name : String)
  deriving DecidableEq

/-! ### The table -/

/-- An upload that can still be resumed. -/
structure TransferRow where
  id : Uuid
  accountId : String
  parentId : String
  name : String
  size : ℤ
  chunkSize : ℤ
  sha256 : List UInt8
  bitmap : List UInt8
  tempPath : FileName
  updatedAt : ℕ
  tempPath_eq : tempPath = .part id
  deriving DecidableEq

/-- Just enough of a row to discard it. -/
structure PendingTransfer where
  id : Uuid
  tempPath : FileName
  tempPath_eq : tempPath = .part id
  deriving DecidableEq

/-- What it takes to discard the row. -/
def TransferRow.pending (r : TransferRow) : PendingTransfer := ⟨r.id, r.tempPath, r.tempPath_eq⟩

/-- The table with its primary key. -/
structure TransferTable where
  rows : List TransferRow
  rows_id : UniqueKey TransferRow.id rows

/-- No unfinished upload. -/
def TransferTable.empty : TransferTable := ⟨[], uniqueKey_nil _⟩

/-- The row of an id. -/
def TransferTable.row (db : TransferTable) (id : Uuid) : Option TransferRow :=
  db.rows.find? fun r => r.id = id

/-- The rows of an account. -/
def TransferTable.ofAccount (db : TransferTable) (accountId : String) : List TransferRow :=
  db.rows.filter fun r => r.accountId = accountId

/-- The table, with the failures of its statements. -/
abbrev TransferPool := Pool TransferTable

namespace TransferState

/-! ### Writes -/

/-- Insert a row. -/
def create (row : TransferRow) (now : ℕ) : Fallible TransferPool StorageError Unit :=
  statement fun db =>
    if h : ∃ r ∈ db.rows, r.id = row.id then .error .alreadyExists
    else .ok ((),
      { rows := db.rows ++ [{ row with updatedAt := now }]
        rows_id := db.rows_id.append fun r hr he => h ⟨r, hr, he⟩ })

/-- Rewrite the row of an id, if there is one. -/
def rewrite (id : Uuid) (f : TransferRow → TransferRow) (hf : ∀ r, (f r).id = r.id) :
    Fallible TransferPool StorageError Unit :=
  statement fun db => .ok ((),
    { rows := setWhere (fun r => r.id = id) f db.rows, rows_id := db.rows_id.setWhere_same hf })

/-- Write which chunks have arrived. -/
def updateBitmap (id : Uuid) (bitmap : List UInt8) (now : ℕ) :
    Fallible TransferPool StorageError Unit :=
  rewrite id (fun r => { r with bitmap := bitmap, updatedAt := now }) fun _ => rfl

/-- Point an unfinished upload at a new destination name. -/
def setName (id : Uuid) (name : String) : Fallible TransferPool StorageError Unit :=
  rewrite id (fun r => { r with name := name }) fun _ => rfl

/-- Mark a row as recently used. -/
def touch (id : Uuid) (now : ℕ) : Fallible TransferPool StorageError Unit :=
  rewrite id (fun r => { r with updatedAt := now }) fun _ => rfl

/-- Delete a row. -/
def delete (id : Uuid) : Fallible TransferPool StorageError Unit :=
  statement fun db => .ok ((),
    { rows := db.rows.filter fun r => r.id ≠ id, rows_id := db.rows_id.filter _ })

/-! ### Reads -/

/-- The row of an id. -/
def get (id : Uuid) : Fallible TransferPool StorageError (Option TransferRow) :=
  query fun db => db.row id

/-- Every unfinished upload's id. -/
def allIds : Fallible TransferPool StorageError (List Uuid) :=
  query fun db => db.rows.map TransferRow.id

/-- An account's unfinished uploads, least recently used first. -/
def listForAccount (accountId : String) : Fallible TransferPool StorageError (List PendingTransfer) :=
  query fun db => ((db.ofAccount accountId).insertionSort fun a b => a.updatedAt ≤ b.updatedAt).map
    TransferRow.pending

/-- Unfinished uploads not touched for at least `olderThan` seconds, least recently
used first. -/
def listStale (olderThan now : ℕ) : Fallible TransferPool StorageError (List PendingTransfer) :=
  query fun db => ((db.rows.filter fun r => r.updatedAt + olderThan ≤ now).insertionSort
    fun a b => a.updatedAt ≤ b.updatedAt).map TransferRow.pending

end TransferState

/-! ### What the statements leave, id by id -/

namespace TransferTable

variable {db db' : TransferTable} {id : Uuid} {r : TransferRow}

theorem row_eq_some : db.row id = some r ↔ r ∈ db.rows ∧ r.id = id := by
  constructor
  · intro h
    exact ⟨List.mem_of_find?_eq_some h, by simpa using List.find?_some h⟩
  · rintro ⟨hr, rfl⟩
    cases h : db.row r.id with
    | none => simpa using List.find?_eq_none.mp h r hr
    | some q => rw [db.rows_id.eq (List.mem_of_find?_eq_some h) hr (by simpa using List.find?_some h)]

theorem row_eq_none : db.row id = none ↔ ∀ r ∈ db.rows, r.id ≠ id := by
  simp [TransferTable.row]

/-- **A row that was created is found under its id, which was free.** -/
theorem row_created (h : db'.rows = db.rows ++ [r]) (hnew : db.row r.id = none) (i : Uuid) :
    db'.row i = if i = r.id then some r else db.row i := by
  rw [TransferTable.row, h, List.find?_append]
  by_cases hi : i = r.id
  · rw [if_pos hi, hi, show db.rows.find? _ = none from hnew]
    simp
  · rw [if_neg hi, ← TransferTable.row]
    cases db.row i with
    | some r => rfl
    | none => simpa using Ne.symm hi

/-- A row that was rewritten is the only one that changes. -/
theorem row_rewritten {f : TransferRow → TransferRow}
    (h : db'.rows = setWhere (fun r => r.id = id) f db.rows) (hf : ∀ r, (f r).id = r.id) (i : Uuid) :
    db'.row i = if i = id then (db.row i).map f else db.row i := by
  rw [TransferTable.row, h, find_setWhere fun r => by rw [hf r], ← TransferTable.row]
  cases hrow : db.row i with
  | none => simp
  | some r =>
    obtain ⟨-, rfl⟩ := row_eq_some.mp hrow
    by_cases hi : r.id = id <;> simp [hi]

/-- A deleted row is the only one that is gone. -/
theorem row_deleted (h : db'.rows = db.rows.filter fun r => r.id ≠ id) (i : Uuid) :
    db'.row i = if i = id then none else db.row i := by
  refine Option.ext fun r => ?_
  rw [row_eq_some, h, List.mem_filter]
  by_cases hi : i = id
  · rw [if_pos hi]
    refine iff_of_false ?_ (by simp)
    rintro ⟨⟨-, hne⟩, hid⟩
    exact of_decide_eq_true hne (hid.trans hi)
  · rw [if_neg hi, row_eq_some]
    refine ⟨fun ⟨hr, hid⟩ => ⟨hr.1, hid⟩, fun ⟨hr, hid⟩ => ⟨⟨hr, ?_⟩, hid⟩⟩
    exact decide_eq_true fun he => hi (hid.symm.trans he)

end TransferTable

namespace TransferState

variable {p q : TransferPool} {id : Uuid} {row : TransferRow} {now : ℕ}

theorem create_returns (h : Returns (create row now) p () q) :
    p.db.row row.id = none ∧ q.db.rows = p.db.rows ++ [{ row with updatedAt := now }] := by
  have hdb := returns_statement h
  split at hdb
  · cases hdb
  · rename_i hnew
    have hrows := congrArg TransferTable.rows (outcome_inj hdb).2
    exact ⟨TransferTable.row_eq_none.mpr fun r hr he => hnew ⟨r, hr, he⟩, hrows.symm⟩

theorem rewrite_returns {f : TransferRow → TransferRow} {hf : ∀ r, (f r).id = r.id}
    (h : Returns (rewrite id f hf) p () q) :
    q.db.rows = setWhere (fun r => r.id = id) f p.db.rows :=
  (congrArg TransferTable.rows (outcome_inj (returns_statement h)).2).symm

theorem delete_returns (h : Returns (delete id) p () q) :
    q.db.rows = p.db.rows.filter fun r => r.id ≠ id :=
  (congrArg TransferTable.rows (outcome_inj (returns_statement h)).2).symm

end TransferState

end Storage

end KdxHotline
