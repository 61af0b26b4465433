import KdxHotline.Foundations.Table
import KdxHotline.Storage.Pool

/-!
# The table of file nodes

The virtual file tree as the database holds it: one row a node, with its parent
and, for an alias, its target. The schema's constraints are fields of
`KdxHotline.Storage.FileTable`: ids are unique, names are unique among the rows
of one parent (a row without a parent clashes with nothing), and a parent or a
target that is named exists. Deleting a row sets the targets that named it to
null and is refused while another row names it as its parent.
-/

namespace KdxHotline

namespace Storage

open Foundations

/-- The id of the root row. -/
def rootId : String := "root"

/-- A row of `file_nodes`. -/
structure FileNodeRow where
  id : String
  parentId : Option String
  name : String
  kind : ℤ
  size : ℤ
  sha256 : Option (List UInt8)
  minClassRead : ℤ
  minClassWrite : ℤ
  storagePath : Option String
  targetId : Option String
  owner : Option String
  deriving DecidableEq, Repr

/-- The table with the constraints of its schema. -/
structure FileTable where
  rows : List FileNodeRow
  rows_id : UniqueKey FileNodeRow.id rows
  /-- `UNIQUE(parent_id, name)`; a null parent is distinct from any other. -/
  rows_name : ∀ r ∈ rows, ∀ r' ∈ rows, r.parentId.isSome → r.parentId = r'.parentId →
    r.name = r'.name → r.id = r'.id
  rows_parent : ∀ r ∈ rows, ∀ p, r.parentId = some p → ∃ q ∈ rows, q.id = p
  rows_target : ∀ r ∈ rows, ∀ t, r.targetId = some t → ∃ q ∈ rows, q.id = t

/-- The table of a fresh database: the root alone. -/
def FileTable.fresh : FileTable where
  rows := [⟨rootId, none, "", 0, 0, none, 0, 2, none, none, none⟩]
  rows_id := by simp [UniqueKey]
  rows_name := by simp
  rows_parent := by simp
  rows_target := by simp

/-- The row of an id. -/
def FileTable.row (db : FileTable) (id : String) : Option FileNodeRow :=
  db.rows.find? fun r => r.id = id

theorem FileTable.row_eq_some {db : FileTable} {id : String} {r : FileNodeRow} :
    db.row id = some r ↔ r ∈ db.rows ∧ r.id = id := by
  constructor
  · intro h
    exact ⟨List.mem_of_find?_eq_some h, by simpa using List.find?_some h⟩
  · rintro ⟨hr, rfl⟩
    cases h : db.row r.id with
    | none => simpa using List.find?_eq_none.mp h r hr
    | some q => rw [db.rows_id.eq (List.mem_of_find?_eq_some h) hr (by simpa using List.find?_some h)]

theorem FileTable.row_eq_none {db : FileTable} {id : String} :
    db.row id = none ↔ ∀ r ∈ db.rows, r.id ≠ id := by
  simp [FileTable.row]

/-- The table of the nodes, with the failures of its statements. -/
abbrev FilePool := Pool FileTable

namespace FileNodes

/-! ### Insertions -/

/-- Insert one row, against the key, the unique name and the two references. -/
def insert (row : FileNodeRow) (db : FileTable) : Except StorageError (FileNodeRow × FileTable) :=
  if hkey : ∃ r ∈ db.rows, r.id = row.id ∨
      (row.parentId.isSome ∧ r.parentId = row.parentId ∧ r.name = row.name) then
    .error .alreadyExists
  else if hfk : (∀ p, row.parentId = some p → ∃ q ∈ db.rows, q.id = p) ∧
      ∀ t, row.targetId = some t → ∃ q ∈ db.rows, q.id = t then
    .ok (row,
      { rows := db.rows ++ [row]
        rows_id := db.rows_id.append fun r hr he => hkey ⟨r, hr, .inl he⟩
        rows_name := by
          intro r hr r' hr' hsome hparent hname
          simp only [List.mem_append, List.mem_singleton] at hr hr'
          -- two old rows, or an old and the new one, which the check of the names kept apart
          rcases hr with hr | rfl <;> rcases hr' with hr' | rfl
          · exact db.rows_name r hr r' hr' hsome hparent hname
          · exact absurd ⟨r, hr, .inr ⟨hparent ▸ hsome, hparent, hname⟩⟩ hkey
          · exact absurd ⟨r', hr', .inr ⟨hsome, hparent.symm, hname.symm⟩⟩ hkey
          · rfl
        rows_parent := by
          intro r hr p hp
          simp only [List.mem_append, List.mem_singleton] at hr
          obtain ⟨q, hq, hid⟩ : ∃ q ∈ db.rows, q.id = p := by
            rcases hr with hr | rfl
            · exact db.rows_parent r hr p hp
            · exact hfk.1 p hp
          exact ⟨q, List.mem_append_left _ hq, hid⟩
        rows_target := by
          intro r hr t ht
          simp only [List.mem_append, List.mem_singleton] at hr
          obtain ⟨q, hq, hid⟩ : ∃ q ∈ db.rows, q.id = t := by
            rcases hr with hr | rfl
            · exact db.rows_target r hr t ht
            · exact hfk.2 t ht
          exact ⟨q, List.mem_append_left _ hq, hid⟩ })
  else .error .foreignKey

/-- Insert a folder-like node (directory, dropbox, or upload folder). -/
def createFolder (id parentId name : String) (kind minClassRead minClassWrite : ℤ)
    (owner : Option String) : Fallible FilePool StorageError FileNodeRow :=
  statement (insert ⟨id, some parentId, name, kind, 0, none, minClassRead, minClassWrite, none, none,
    owner⟩)

/-- Insert a completed file node. -/
def createFile (id parentId name : String) (size : ℤ) (sha256 : List UInt8) (storagePath : String) :
    Fallible FilePool StorageError FileNodeRow :=
  statement (insert ⟨id, some parentId, name, 1, size, some sha256, 0, 2, some storagePath, none,
    none⟩)

/-- Insert an alias node. -/
def createAlias (id parentId name targetId : String) : Fallible FilePool StorageError FileNodeRow :=
  statement (insert ⟨id, some parentId, name, 4, 0, none, 0, 2, none, some targetId, none⟩)

/-! ### Deletions -/

/-- What is left of a row when `id` is deleted: a target that named it is null. -/
def forget (id : String) (r : FileNodeRow) : FileNodeRow :=
  if r.targetId = some id then { r with targetId := none } else r

@[simp] theorem forget_id (id : String) (r : FileNodeRow) : (forget id r).id = r.id := by
  unfold forget
  split <;> rfl

@[simp] theorem forget_parentId (id : String) (r : FileNodeRow) :
    (forget id r).parentId = r.parentId := by
  unfold forget
  split <;> rfl

@[simp] theorem forget_name (id : String) (r : FileNodeRow) : (forget id r).name = r.name := by
  unfold forget
  split <;> rfl

theorem forget_targetId {id t : String} {r : FileNodeRow} (h : (forget id r).targetId = some t) :
    r.targetId = some t ∧ t ≠ id := by
  unfold forget at h
  split at h
  · cases h
  · rename_i hne
    exact ⟨h, fun he => hne (he ▸ h)⟩

/-- Delete one row: refused while another row names it as its parent. -/
def deleteRow (id : String) (db : FileTable) : Except StorageError FileTable :=
  -- a parent may not go before its children; aliases of what goes lose their target
  if h : ∃ r ∈ db.rows, r.parentId = some id ∧ r.id ≠ id then .error .foreignKey
  else .ok
    { rows := (db.rows.filter fun r => r.id ≠ id).map (forget id)
      rows_id := by
        have hids : FileNodeRow.id ∘ forget id = FileNodeRow.id := funext (forget_id id)
        rw [UniqueKey, List.map_map, hids]
        exact db.rows_id.filter _
      rows_name := by
        intro r hr r' hr' hsome hparent hname
        obtain ⟨q, hq, rfl⟩ := List.mem_map.mp hr
        obtain ⟨q', hq', rfl⟩ := List.mem_map.mp hr'
        simp only [forget_id, forget_parentId, forget_name] at *
        exact db.rows_name q (List.mem_of_mem_filter hq) q' (List.mem_of_mem_filter hq') hsome hparent
          hname
      rows_parent := by
        intro r hr p hp
        obtain ⟨q, hq, rfl⟩ := List.mem_map.mp hr
        obtain ⟨hmem, hne⟩ := List.mem_filter.mp hq
        rw [forget_parentId] at hp
        obtain ⟨u, hu, rfl⟩ := db.rows_parent q hmem p hp
        have hkept : u.id ≠ id := fun he => h ⟨q, hmem, he ▸ hp, by simpa using hne⟩
        exact ⟨forget id u, List.mem_map_of_mem (List.mem_filter.mpr ⟨hu, by simpa using hkept⟩),
          forget_id id u⟩
      rows_target := by
        intro r hr t ht
        obtain ⟨q, hq, rfl⟩ := List.mem_map.mp hr
        obtain ⟨ht, hne⟩ := forget_targetId ht
        obtain ⟨u, hu, rfl⟩ := db.rows_target q (List.mem_of_mem_filter hq) t ht
        exact ⟨forget id u, List.mem_map_of_mem (List.mem_filter.mpr ⟨hu, by simpa using hne⟩),
          forget_id id u⟩ }

/-- Delete a single node by id. -/
def delete (id : String) : Fallible FilePool StorageError Unit :=
  statement fun db => match db.row id with
    | none => .error .notFound
    | some _ => (deleteRow id db).map fun db => ((), db)

/-- Delete the listed rows one after another; a row that is already gone is
skipped. -/
def deleteEach : List String → Fallible FilePool StorageError Unit
  | [] => return ()
  | id :: ids => do
    statement fun db => (deleteRow id db).map fun db => ((), db)
    deleteEach ids

/-- Delete a set of nodes in one transaction. -/
def deleteMany (ids : List String) : Fallible FilePool StorageError Unit :=
  transaction (deleteEach ids)

/-! ### Moves -/

/-- Re-parent a node. -/
def reparent (id newParentId : String) : Fallible FilePool StorageError Unit :=
  statement fun db => match h : db.row id with
    | none => .error .notFound
    | some row =>
      if hname : ∃ r ∈ db.rows, r.id ≠ id ∧ r.parentId = some newParentId ∧ r.name = row.name then
        .error .alreadyExists
      else if hfk : ∃ q ∈ db.rows, q.id = newParentId then .ok ((),
        { rows := setWhere (fun r => r.id = id) (fun r => { r with parentId := some newParentId })
            db.rows
          rows_id := db.rows_id.setWhere_same fun _ => rfl
          rows_name := by
            intro r hr r' hr' hsome hparent hsame
            obtain ⟨q, hq, rfl⟩ := mem_setWhere.mp hr
            obtain ⟨q', hq', rfl⟩ := mem_setWhere.mp hr'
            have hrow : ∀ u ∈ db.rows, u.id = id → u.name = row.name := by
              intro u hu hid
              rw [Option.some.inj (h.symm.trans (FileTable.row_eq_some.mpr ⟨hu, hid⟩))]
            by_cases hid : q.id = id <;> by_cases hid' : q'.id = id <;>
              simp only [hid, hid', decide_true, decide_false, if_true, if_false,
                Bool.false_eq_true] at hsome hparent hsame ⊢
            · exact absurd ⟨q', hq', hid', hparent.symm, hsame ▸ hrow q hq hid⟩ hname
            · exact absurd ⟨q, hq, hid, hparent, hsame ▸ hrow q' hq' hid'⟩ hname
            · exact db.rows_name q hq q' hq' hsome hparent hsame
          rows_parent := by
            intro r hr p hp
            obtain ⟨q, hq, rfl⟩ := mem_setWhere.mp hr
            obtain ⟨u, hu, rfl⟩ : ∃ u ∈ db.rows, u.id = p := by
              split at hp
              · cases hp
                exact hfk
              · exact db.rows_parent q hq p hp
            refine ⟨_, mem_setWhere.mpr ⟨u, hu, rfl⟩, ?_⟩
            split <;> rfl
          rows_target := by
            intro r hr t ht
            obtain ⟨q, hq, rfl⟩ := mem_setWhere.mp hr
            obtain ⟨u, hu, rfl⟩ : ∃ u ∈ db.rows, u.id = t := by
              refine db.rows_target q hq t ?_
              split at ht <;> exact ht
            refine ⟨_, mem_setWhere.mpr ⟨u, hu, rfl⟩, ?_⟩
            split <;> rfl })
      else .error .foreignKey

/-! ### What the statements leave, id by id -/

section

variable {p q : FilePool} {row r : FileNodeRow} {id newParentId i : String} {ids : List String}
  {db db' : FileTable}

/-- What is left of a row when every id of a list is deleted. -/
def forgetAll (ids : List String) (r : FileNodeRow) : FileNodeRow :=
  ids.foldl (fun r id => forget id r) r

/-- **An inserted row is found under its id, which was free, and nothing else
changes.** -/
theorem insert_row (h : insert row db = .ok (r, db')) :
    r = row ∧ db.row row.id = none ∧ (∀ i, db'.row i = if i = row.id then some row else db.row i) ∧
      ∀ r ∈ db.rows, row.parentId.isSome → r.parentId = row.parentId → r.name ≠ row.name := by
  unfold insert at h
  split at h
  · cases h
  · rename_i hkey
    split at h
    · cases h
      refine ⟨rfl, ?_, fun i => Option.ext fun u => ?_, fun r hr hs hp hn =>
        hkey ⟨r, hr, .inr ⟨hs, hp, hn⟩⟩⟩
      · exact FileTable.row_eq_none.mpr fun r hr he => hkey ⟨r, hr, .inl he⟩
      · rw [FileTable.row_eq_some, List.mem_append, List.mem_singleton]
        split
        · rename_i hi
          rw [hi, Option.some.injEq]
          constructor
          · rintro ⟨hu | rfl, hid⟩
            · exact absurd ⟨u, hu, .inl hid⟩ hkey
            · rfl
          · rintro rfl
            exact ⟨.inr rfl, rfl⟩
        · rename_i hi
          rw [FileTable.row_eq_some]
          constructor
          · rintro ⟨hu | rfl, hid⟩
            · exact ⟨hu, hid⟩
            · exact absurd hid.symm hi
          · rintro ⟨hu, hid⟩
            exact ⟨.inl hu, hid⟩
    · cases h

/-- A row of a free id, under a free name, is inserted when what it names is there. -/
theorem insert_ok (hid : ∀ r ∈ db.rows, r.id ≠ row.id)
    (hname : ∀ r ∈ db.rows, row.parentId.isSome → r.parentId = row.parentId → r.name ≠ row.name)
    (hparent : ∀ p, row.parentId = some p → ∃ q ∈ db.rows, q.id = p)
    (htarget : ∀ t, row.targetId = some t → ∃ q ∈ db.rows, q.id = t) :
    ∃ db', insert row db = .ok (row, db') := by
  unfold insert
  split
  · rename_i hkey
    obtain ⟨r, hr, he | ⟨hs, hp, hn⟩⟩ := hkey
    · exact absurd he (hid r hr)
    · exact absurd hn (hname r hr hs hp)
  · split
    · exact ⟨_, rfl⟩
    · rename_i hfk
      exact absurd ⟨hparent, htarget⟩ hfk

/-- A deleted row is gone, and every other row forgets it as a target. -/
theorem deleteRow_row (h : deleteRow id db = .ok db') (i : String) :
    db'.row i = if i = id then none else (db.row i).map (forget id) := by
  unfold deleteRow at h
  split at h
  · cases h
  · cases h
    split
    · rename_i hi
      refine FileTable.row_eq_none.mpr fun r hr he => ?_
      obtain ⟨u, hu, rfl⟩ := List.mem_map.mp hr
      rw [forget_id] at he
      simpa [he, hi] using (List.mem_filter.mp hu).2
    · rename_i hi
      refine Option.ext fun r => ?_
      rw [FileTable.row_eq_some, Option.map_eq_some_iff]
      constructor
      · rintro ⟨hr, rfl⟩
        obtain ⟨u, hu, rfl⟩ := List.mem_map.mp hr
        exact ⟨u, FileTable.row_eq_some.mpr ⟨List.mem_of_mem_filter hu, (forget_id id u).symm⟩, rfl⟩
      · rintro ⟨u, hu, rfl⟩
        obtain ⟨hmem, rfl⟩ := FileTable.row_eq_some.mp hu
        refine ⟨List.mem_map_of_mem (List.mem_filter.mpr ⟨hmem, by simpa using hi⟩), forget_id id u⟩

/-- A deleted node is gone, and no alias stands for it. -/
theorem returns_delete (h : Returns (delete id) p () q) (i : String) :
    q.db.row i = if i = id then none else (p.db.row i).map (forget id) := by
  have hs := returns_statement h
  split at hs
  · cases hs
  · cases hd : deleteRow id p.db with
    | error e =>
      rw [hd] at hs
      cases hs
    | ok db' =>
      rw [hd] at hs
      cases hs
      exact deleteRow_row hd i

/-- Deleted nodes are gone, and no alias stands for any. -/
theorem returns_deleteEach : ∀ {ids : List String} {p : FilePool},
    Returns (deleteEach ids) p () q → ∀ i,
      q.db.row i = if i ∈ ids then none else (p.db.row i).map (forgetAll ids)
  | [], p, h, i => by
    obtain ⟨-, rfl⟩ := returns_pure.mp h
    cases p.db.row i <;> simp [forgetAll]
  | id :: ids, p, h, i => by
    obtain ⟨_, r, h₁, h₂⟩ := returns_bind.mp h
    have hs := returns_statement h₁
    cases hd : deleteRow id p.db with
    | error e =>
      rw [hd] at hs
      cases hs
    | ok db' =>
      rw [hd] at hs
      cases hs
      rw [returns_deleteEach h₂ i, deleteRow_row hd i]
      by_cases hi : i = id <;> by_cases hmem : i ∈ ids <;> simp [hi, hmem]
      rfl

/-- **Rows deleted together are gone, and every other row forgets them as
targets.** -/
theorem returns_deleteMany (h : Returns (deleteMany ids) p () q) (i : String) :
    q.db.row i = if i ∈ ids then none else (p.db.row i).map (forgetAll ids) := by
  obtain ⟨r, hr, hdb⟩ := returns_transaction h
  rw [hdb]
  exact returns_deleteEach hr i

/-- A moved row names its new parent, and nothing else changes. -/
theorem returns_reparent (h : Returns (reparent id newParentId) p () q) :
    (p.db.row id).isSome ∧ ∀ i, q.db.row i =
      if i = id then (p.db.row i).map fun r => { r with parentId := some newParentId }
      else p.db.row i := by
  have hs := returns_statement h
  split at hs
  · cases hs
  · rename_i row hrow
    split at hs
    · cases hs
    · split at hs
      · obtain ⟨-, hdb⟩ := outcome_inj hs
        rw [← hdb]
        refine ⟨by rw [hrow]; rfl, fun i => Option.ext fun r => ?_⟩
        rw [FileTable.row_eq_some]
        constructor
        · rintro ⟨hr, rfl⟩
          obtain ⟨u, hu, rfl⟩ := mem_setWhere.mp hr
          have hfound := FileTable.row_eq_some.mpr ⟨hu, rfl⟩
          by_cases hid : u.id = id
          · subst hid
            simp [hfound]
          · simp [hid, hfound]
        · intro hr
          split at hr
          · rename_i hi
            obtain ⟨u, hu, rfl⟩ := Option.map_eq_some_iff.mp hr
            obtain ⟨hmem, hid⟩ := FileTable.row_eq_some.mp hu
            exact ⟨mem_setWhere.mpr ⟨u, hmem, by simp [hid, hi]⟩, hid⟩
          · rename_i hi
            obtain ⟨hmem, rfl⟩ := FileTable.row_eq_some.mp hr
            exact ⟨mem_setWhere.mpr ⟨r, hmem, by simp [hi]⟩, rfl⟩
      · cases hs

/-- A row is moved when its new parent is there and has no other row of its name. -/
theorem reparent_returns (hquiet : p.faults.headD false = false) (hrow : p.db.row id = some row)
    (hname : ∀ r ∈ p.db.rows, r.id ≠ id → r.parentId = some newParentId → r.name ≠ row.name)
    (hparent : ∃ q ∈ p.db.rows, q.id = newParentId) :
    ∃ q, Returns (reparent id newParentId) p () q ∧ q.faults = p.faults.tail := by
  have hok : ∀ f : FileTable → Except StorageError (Unit × FileTable),
      (∃ db', f p.db = .ok ((), db')) →
        ∃ q, Returns (statement f) p () q ∧ q.faults = p.faults.tail := by
    rintro f ⟨db', hf⟩
    exact ⟨_, statement_returns hquiet hf, rfl⟩
  refine hok _ ?_
  split
  · rename_i hnone
    rw [hrow] at hnone
    cases hnone
  · rename_i row' hrow'
    obtain rfl : row = row' := Option.some.inj (hrow.symm.trans hrow')
    split
    · rename_i htaken
      obtain ⟨r, hr, hne, hp, hn⟩ := htaken
      exact absurd hn (hname r hr hne hp)
    · exact ⟨_, rfl⟩

end

end FileNodes

end Storage

end KdxHotline
