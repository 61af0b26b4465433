import KdxHotline.Files.Operations
import KdxHotline.Files.WellFormed

/-!
# What the operations do

For each operation on the tree, what it has checked and what it has changed when
it returns, and that it changes nothing when it fails
(`KdxHotline.Files.Operation.run_atomic`). The invariants are proved from these
statements alone, without looking at an operation's steps again.
-/

namespace KdxHotline

namespace Files

open Foundations Storage Auth Limits

/-! ### What a walk finds -/

namespace TreeState

variable {st : TreeState} {session : Option Session} {n m : Node}

/-- What an alias stands for is in the tree. -/
theorem resolveThroughAlias_lookup (hn : ∃ i, st.nodes.lookup i = some n)
    (h : st.resolveThroughAlias n = .ok m) : ∃ i, st.nodes.lookup i = some m := by
  unfold resolveThroughAlias at h
  split at h
  · cases h
    exact hn
  · obtain ⟨t, -, h⟩ := checks_pass.mp h
    obtain ⟨target, htarget, h⟩ := checks_pass.mp h
    obtain ⟨-, -, h⟩ := checks_pass.mp h
    cases h
    exact ⟨t, required_eq_ok.mp htarget⟩

theorem mem_childNodes_lookup {p : String} (h : n ∈ st.childNodes p) :
    ∃ i, st.nodes.lookup i = some n := by
  obtain ⟨i, -, hi⟩ := mem_childNodes.mp h
  exact ⟨i, hi⟩

/-- **A walk ends at a node of the tree.** -/
theorem follow_lookup : ∀ {names : List String} {n m : Node}, (∃ i, st.nodes.lookup i = some n) →
    st.follow session n names = .ok m → ∃ i, st.nodes.lookup i = some m
  | [], n, m, hn, h => by
    cases h
    exact hn
  | name :: names, n, m, hn, h => by
    obtain ⟨folder, -, h⟩ := checks_pass.mp h
    obtain ⟨next, hnext, h⟩ := checks_pass.mp h
    exact follow_lookup (mem_childNodes_lookup (List.mem_of_find?_eq_some (required_eq_ok.mp hnext))) h

theorem walk_lookup {path : String} (h : st.walk path session = .ok n) :
    ∃ i, st.nodes.lookup i = some n := by
  obtain ⟨-, -, h⟩ := checks_pass.mp h
  obtain ⟨root, hroot, h⟩ := checks_pass.mp h
  exact follow_lookup ⟨rootId, required_eq_ok.mp hroot⟩ h

theorem parentOf_lookup (h : st.parentOf n = .ok m) :
    ∃ p, n.parentId = some p ∧ st.nodes.lookup p = some m :=
  Option.bind_eq_some_iff.mp (required_eq_ok.mp h)

end TreeState

/-! ### Writing through -/

namespace FileTree

section Steps

variable {α : Type} {t t' : FileTree} {node : Node} {row : FileNodeRow}

theorem returns_stored {onError : StorageError → TreeError} {x : Fallible FilePool StorageError α}
    {a : α} (h : Returns (stored onError x) t a t') :
    Returns x t.pool a t'.pool ∧ t'.state = t.state := by
  obtain ⟨p, hp, rfl⟩ := returns_zoom.mp (returns_mapError.mp h)
  exact ⟨hp, rfl⟩

theorem stored_atomic {x : Fallible FilePool StorageError α} (hx : Atomic Pool.db x)
    (onError : StorageError → TreeError) : Atomic content (stored onError x) where
  fails h := by
    obtain ⟨e', hf, -⟩ := fails_mapError.mp h
    obtain ⟨p, hp, rfl⟩ := fails_zoom.mp hf
    exact Prod.ext rfl (hx.fails hp)

/-- **A new node that was written is in the table and in memory.** -/
theorem addNode_returns (h : Returns (addNode (statement (FileNodes.insert row))) t node t') :
    nodeFromRow row = .ok node ∧ t'.state = t.state.insertInMemory node ∧
      FileNodes.insert row t.db = .ok (row, t'.db) := by
  obtain ⟨r, t₁, h₁, hrest⟩ := returns_bind.mp h
  obtain ⟨hwrite, hstate⟩ := returns_stored h₁
  have hinsert := returns_statement hwrite
  obtain ⟨hr, -⟩ := FileNodes.insert_row hinsert
  rw [hr] at hinsert hrest
  obtain ⟨node', t₂, h₂, hrest⟩ := returns_bind.mp hrest
  obtain ⟨hnode, rfl⟩ := returns_check.mp h₂
  obtain ⟨_, t₃, h₃, hrest⟩ := returns_bind.mp hrest
  obtain ⟨rfl, rfl⟩ := returns_pure.mp hrest
  obtain rfl := returns_modify.mp h₃
  exact ⟨hnode, by rw [hstate], hinsert⟩

/-- A row of a known kind is written and entered together or not at all. -/
theorem addNode_atomic (hkind : nodeFromRow row = .ok node) :
    Atomic content (addNode (statement (FileNodes.insert row))) where
  fails h := by
    rcases fails_bind.mp h with hf | ⟨r, t₁, h₁, hf⟩
    · exact (stored_atomic (statement_atomic _) _).fails hf
    · obtain ⟨hr, -⟩ := FileNodes.insert_row (returns_statement (returns_stored h₁).1)
      rw [hr] at hf
      rcases fails_bind.mp hf with hf | ⟨node', t₂, -, hf⟩
      · rw [(fails_check.mp hf).1] at hkind
        cases hkind
      · rcases fails_bind.mp hf with hf | ⟨_, t₃, -, hf⟩
        · exact absurd hf fails_modify
        · exact absurd hf fails_pure

end Steps

/-! ### Creating -/

section Creating

variable {t t' : FileTree} {node : Node} {s : Session}

/-- The rows that are created are of known kinds. -/
theorem nodeFromRow_ok {row : FileNodeRow} {kind : NodeKind} (hkind : row.kind = kind.asU8) :
    nodeFromRow row = .ok
      { id := row.id, parentId := row.parentId, name := row.name, kind := kind
        size := (BitVec.ofInt 64 row.size).toNat, sha256 := row.sha256
        minClassRead := classFromStored row.minClassRead
        minClassWrite := classFromStored row.minClassWrite
        storagePath := row.storagePath, targetId := row.targetId
        accessItem := .parse row.name, owner := row.owner } := by
  simp only [nodeFromRow, hkind, NodeKind.fromI64_asU8]
  rfl

/-- Where something is placed is a folder with room for it. -/
theorem placeInto_ok {st : TreeState} {path name : String} {parent : Node}
    (h : placeInto st path name s = .ok parent) :
    (∃ i, st.nodes.lookup i = some parent) ∧ parent.kind.isFolder = true ∧
      st.checkRoom parent 0 (1 + name.utf8ByteSize) = .ok () := by
  obtain ⟨p, hwalk, h⟩ := checks_pass.mp h
  obtain ⟨_, hkind, h⟩ := checks_pass.mp h
  obtain ⟨_, -, h⟩ := checks_pass.mp h
  obtain ⟨⟨⟩, hroom, h⟩ := checks_pass.mp h
  obtain ⟨_, -, h⟩ := checks_pass.mp h
  cases h
  exact ⟨TreeState.walk_lookup hwalk, by simpa using hkind, hroom⟩

/-- What an alias is made of is in the tree, and no alias itself. -/
theorem aliasSource_ok {st : TreeState} {path : String} {source : Node}
    (h : aliasSource st path s = .ok source) :
    (∃ i, st.nodes.lookup i = some source) ∧ source.kind ≠ .alias_ ∧
      validateName source.name = .ok () := by
  obtain ⟨n, hwalk, h⟩ := checks_pass.mp h
  obtain ⟨_, hkind, h⟩ := checks_pass.mp h
  obtain ⟨_, -, h⟩ := checks_pass.mp h
  obtain ⟨_, -, h⟩ := checks_pass.mp h
  obtain ⟨_, hvalid, h⟩ := checks_pass.mp h
  cases h
  exact ⟨TreeState.walk_lookup hwalk, by simpa using hkind, mapError_eq_ok.mp hvalid⟩

theorem filingFolder_ok {st : TreeState} {parentId : String} {parent : Node}
    (h : filingFolder st parentId = .ok parent) :
    st.nodes.lookup parentId = some parent ∧ parent.kind.isFolder = true := by
  obtain ⟨p, hp, h⟩ := checks_pass.mp h
  obtain ⟨_, hkind, h⟩ := checks_pass.mp h
  cases h
  exact ⟨required_eq_ok.mp hp, by simpa using hkind⟩

/-- What every creation comes down to: a node whose row is new to the table, in a
folder of the tree, entered in memory. -/
structure Added (t : FileTree) (node parent : Node) (t' : FileTree) : Prop where
  row : ∃ row, nodeFromRow row = .ok node ∧ FileNodes.insert row t.db = .ok (row, t'.db)
  state : t'.state = t.state.insertInMemory node
  parentId : node.parentId = some parent.id
  folder : t.state.nodes.lookup parent.id = some parent ∧ parent.kind.isFolder = true
  plain : node.kind ≠ .alias_ → node.targetId = none
  target : ∀ {target}, node.targetId = some target →
    ∃ source, t.state.nodes.lookup target = some source ∧ source.kind ≠ .alias_

variable (hwf : WellFormed t.state)
include hwf

/-- **A folder that was created found room in its parent.** -/
theorem createFolder_returns {id parentPath name : String} {kind : NodeKind} {r w : BaseClass}
    {owner : Option String}
    (h : Returns (createFolder id parentPath name kind r w owner s) t node t') :
    ∃ parent, Added t node parent t' ∧ node.id = id ∧ validateName node.name = .ok () ∧
      t.state.checkRoom parent 0 (1 + node.name.utf8ByteSize) = .ok () := by
  obtain ⟨_, t₁, h₁, h⟩ := returns_bind.mp h
  obtain ⟨hkind, rfl⟩ := returns_check.mp h₁
  obtain ⟨_, t₂, h₂, h⟩ := returns_bind.mp h
  obtain ⟨hvalid, rfl⟩ := returns_check.mp h₂
  obtain ⟨_, t₃, h₃, h⟩ := returns_bind.mp h
  obtain ⟨-, rfl⟩ := returns_check.mp h₃
  obtain ⟨_, t₄, h₄, h⟩ := returns_bind.mp h
  obtain ⟨rfl, rfl⟩ := returns_get.mp h₄
  obtain ⟨parent, t₅, h₅, h⟩ := returns_bind.mp h
  obtain ⟨hplace, rfl⟩ := returns_check.mp h₅
  obtain ⟨⟨i, hi⟩, hfolder, hroom⟩ := placeInto_ok hplace
  obtain ⟨hnode, hstate, hinsert⟩ := addNode_returns h
  have hrow := hnode
  rw [nodeFromRow_ok rfl] at hrow
  cases hrow
  refine ⟨parent, ⟨⟨_, hnode, hinsert⟩, hstate, rfl, ⟨hwf.ids hi ▸ hi, hfolder⟩, fun _ => rfl, ?_⟩, rfl,
    mapError_eq_ok.mp hvalid, hroom⟩
  intro target ht
  cases ht

/-- **An alias that was created points at a node that is no alias, and found room
in its parent.** -/
theorem createAlias_returns {id sourcePath destPath : String}
    (h : Returns (createAlias id sourcePath destPath s) t node t') :
    ∃ parent, Added t node parent t' ∧ node.id = id ∧ validateName node.name = .ok () ∧
      t.state.checkRoom parent 0 (1 + node.name.utf8ByteSize) = .ok () := by
  obtain ⟨_, t₁, h₁, h⟩ := returns_bind.mp h
  obtain ⟨rfl, rfl⟩ := returns_get.mp h₁
  obtain ⟨source, t₂, h₂, h⟩ := returns_bind.mp h
  obtain ⟨hsource, rfl⟩ := returns_check.mp h₂
  obtain ⟨parent, t₃, h₃, h⟩ := returns_bind.mp h
  obtain ⟨hplace, rfl⟩ := returns_check.mp h₃
  obtain ⟨⟨j, hj⟩, hkind, hvalid⟩ := aliasSource_ok hsource
  obtain ⟨⟨i, hi⟩, hfolder, hroom⟩ := placeInto_ok hplace
  obtain ⟨hnode, hstate, hinsert⟩ := addNode_returns h
  have hrow := hnode
  rw [nodeFromRow_ok (by rfl : (4 : ℤ) = (NodeKind.alias_.asU8 : ℤ))] at hrow
  cases hrow
  refine ⟨parent, ⟨⟨_, hnode, hinsert⟩, hstate, rfl, ⟨hwf.ids hi ▸ hi, hfolder⟩,
    fun hne => absurd rfl hne, ?_⟩, rfl, hvalid, hroom⟩
  intro target ht
  obtain rfl := Option.some.inj ht
  exact ⟨source, hwf.ids hj ▸ hj, hkind⟩

/-- **A file that was filed goes into the folder it was headed for, under the name
the folder had for it.** -/
theorem fileEntry_returns {id parentId name storagePath : String} {size : ℕ} {sha256 : List UInt8}
    {renameIfTaken : Option (String → Bool)}
    (h : Returns (fileEntry id parentId name size sha256 storagePath renameIfTaken) t node t') :
    ∃ parent, Added t node parent t' ∧ node.id = id ∧ validateName name = .ok () ∧
      parent.id = parentId ∧
      filingName t.state parent parentId name renameIfTaken = .ok node.name := by
  obtain ⟨_, t₁, h₁, h⟩ := returns_bind.mp h
  obtain ⟨hvalid, rfl⟩ := returns_check.mp h₁
  obtain ⟨_, t₂, h₂, h⟩ := returns_bind.mp h
  obtain ⟨rfl, rfl⟩ := returns_get.mp h₂
  obtain ⟨parent, t₃, h₃, h⟩ := returns_bind.mp h
  obtain ⟨hparent, rfl⟩ := returns_check.mp h₃
  obtain ⟨filed, t₄, h₄, h⟩ := returns_bind.mp h
  obtain ⟨hname, rfl⟩ := returns_check.mp h₄
  obtain ⟨hlookup, hfolder⟩ := filingFolder_ok hparent
  obtain ⟨hnode, hstate, hinsert⟩ := addNode_returns h
  have hrow := hnode
  rw [nodeFromRow_ok (by rfl : (1 : ℤ) = (NodeKind.file.asU8 : ℤ))] at hrow
  cases hrow
  have hid := hwf.ids hlookup
  refine ⟨parent, ⟨⟨_, hnode, hinsert⟩, hstate, by rw [hid], ⟨hid ▸ hlookup, hfolder⟩, fun _ => rfl,
    ?_⟩, rfl, mapError_eq_ok.mp hvalid, hid, hname⟩
  intro target ht
  cases ht

end Creating

/-! ### Changes of the maps -/

section Maps

variable {st : TreeState} {ids : List String} {i id p q : String}

theorem removeAll_lookup : ∀ {ids : List String} {st : TreeState}, (removeAll st ids).nodes.lookup i =
    if i ∈ ids then none else st.nodes.lookup i
  | [], st => by simp [removeAll]
  | id :: ids, st => by
    rw [removeAll, removeAll_lookup]
    by_cases hi : i = id
    · subst hi
      simp
    · simp [hi]

theorem removeAll_childIds : ∀ {ids : List String} {st : TreeState}, (removeAll st ids).childIds q =
    if q ∈ ids then [] else st.childIds q
  | [], st => by simp [removeAll]
  | id :: ids, st => by
    rw [removeAll, removeAll_childIds]
    by_cases hq : q = id
    · subst hq
      simp [TreeState.childIds]
    · simp [hq, TreeState.childIds]

@[simp] theorem unlist_nodes : (unlist id p st).nodes = st.nodes := by
  unfold unlist
  split <;> rfl

/-- One node is taken from one folder. -/
theorem unlist_childIds : (unlist id p st).childIds q =
    if q = p then (st.childIds p).filter (· ≠ id) else st.childIds q := by
  unfold unlist
  split
  · rename_i siblings hsib
    by_cases hq : q = p
    · subst hq
      simp [TreeState.childIds, hsib]
    · simp [TreeState.childIds, hq]
  · rename_i hnone
    split
    · rename_i hq
      subst hq
      simp [TreeState.childIds, hnone]
    · rfl

/-- A moved node has a new parent, and nothing else changes. -/
theorem moveInMemory_lookup {node : Node} (hnode : st.nodes.lookup id = some node) :
    (moveInMemory id q st).nodes.lookup i =
      if i = id then some { node with parentId := some q } else st.nodes.lookup i := by
  have hkeep : (node.parentId.elim st fun p => unlist id p st).nodes = st.nodes := by
    cases node.parentId <;> simp
  simp only [moveInMemory, hnode, Option.bind_some, hkeep]
  by_cases hi : i = id
  · subst hi
    simp
  · simp [hi]

/-- A moved node leaves one folder and comes last in the other. -/
theorem moveInMemory_childIds {node : Node} (hnode : st.nodes.lookup id = some node)
    (hp : node.parentId = some p) : (moveInMemory id q st).childIds i =
      if i = q then (if q = p then (st.childIds p).filter (· ≠ id) else st.childIds q) ++ [id]
      else if i = p then (st.childIds p).filter (· ≠ id) else st.childIds i := by
  have hchildren : (moveInMemory id q st).children =
      (unlist id p st).children.insert q ((unlist id p st).childIds q ++ [id]) := by
    simp [moveInMemory, hnode, hp]
  rw [TreeState.childIds, hchildren]
  by_cases hi : i = q
  · subst hi
    rw [Finmap.lookup_insert, Option.getD_some, unlist_childIds, if_pos rfl]
  · rw [Finmap.lookup_insert_of_ne _ hi, if_neg hi, ← unlist_childIds]
    rfl

end Maps

/-! ### Deleting -/

section Deleting

variable {t t' : FileTree} {s : Session}

/-- The subtree below `top`: its ids, and how they hang together. -/
structure Subtree (st : TreeState) (top : Node) (ids : List String) : Prop where
  mem : top.id ∈ ids
  lookup : ∀ {i}, i ∈ ids → ∃ n, st.nodes.lookup i = some n
  down : ∀ {i n p}, st.nodes.lookup i = some n → n.parentId = some p → p ∈ ids → i ∈ ids
  up : ∀ {i n}, i ∈ ids → st.nodes.lookup i = some n → i ≠ top.id →
    ∃ p, n.parentId = some p ∧ p ∈ ids
  below : ∀ {i chain}, i ∈ ids → Chain st.parent rootId i chain → top.id ∈ chain

/-- Visiting a node on the way to deleting it leads to its children. -/
theorem visitForDelete_ok {st : TreeState} (hwf : WellFormed st) {n : Node} {next : List Node}
    (hn : st.nodes.lookup n.id = some n) (h : st.visitForDelete s n = .ok next) :
    ∀ c, c ∈ next ↔ c ∈ st.childNodes n.id := by
  unfold TreeState.visitForDelete at h
  split at h
  · obtain ⟨_, -, h⟩ := checks_pass.mp h
    obtain ⟨_, -, h⟩ := checks_pass.mp h
    cases h
    exact fun c => Iff.rfl
  · rename_i hfile
    cases h
    refine fun c => iff_of_false List.not_mem_nil fun hc => hfile ?_
    obtain ⟨hc, hp⟩ := hwf.mem_childNodes.mp hc
    obtain ⟨q, hq, hqk⟩ := hwf.folders hc hp
    rw [hn] at hq
    cases hq
    exact hqk

/-- **What a delete collects is the whole subtree and nothing else.** -/
theorem collectSubtreeForDelete_ok {st : TreeState} (hwf : WellFormed st) {top : Node}
    {ordered paths : List String} (htop : st.nodes.lookup top.id = some top)
    (h : st.collectSubtreeForDelete top s = .ok (ordered, paths)) : Subtree st top ordered := by
  obtain ⟨visited, hvisited, h⟩ := checks_pass.mp h
  cases h
  have hmem : ∀ {i}, i ∈ (visited.map Node.id).reverse ↔ ∃ n ∈ visited, n.id = i := by simp
  obtain ⟨hstack, hclosed⟩ := explore_closed hvisited
  have horigin := explore_origin hvisited
  -- what is visited has the top on its way up
  have hreached : ∀ n ∈ visited, st.nodes.lookup n.id = some n ∧
      ∀ {chain}, Chain st.parent rootId n.id chain → top.id ∈ chain := by
    refine explore_reached ?_ hvisited ?_
    · rintro a b ⟨ha, hbelow⟩ ⟨next, hnext, hb⟩
      obtain ⟨hlookup, hp⟩ := hwf.mem_childNodes.mp ((visitForDelete_ok hwf ha hnext b).mp hb)
      refine ⟨hlookup, fun hc => ?_⟩
      obtain ⟨m, rfl, hm⟩ := hc.of_parent ((TreeState.parent_of_lookup hlookup).trans hp)
      exact List.mem_cons_of_mem _ (hbelow hm)
    · rintro a ha
      obtain rfl := List.mem_singleton.mp ha
      exact ⟨htop, fun hc => hc.head_mem⟩
  constructor
  case mem => exact hmem.mpr ⟨top, hstack top List.mem_cons_self, rfl⟩
  case lookup =>
    intro i hi
    obtain ⟨n, hn, rfl⟩ := hmem.mp hi
    exact ⟨n, (hreached n hn).1⟩
  case down =>
    intro i n p hn hp hmem'
    obtain ⟨q, hq, rfl⟩ := hmem.mp hmem'
    obtain ⟨next, hnext, hall⟩ := hclosed q hq
    have hid := hwf.ids hn
    subst hid
    have hchild := hwf.mem_childNodes.mpr ⟨hn, hp⟩
    exact hmem.mpr ⟨n, hall n ((visitForDelete_ok hwf (hreached q hq).1 hnext n).mpr hchild), rfl⟩
  case up =>
    intro i n hi hn hne
    obtain ⟨n', hn', rfl⟩ := hmem.mp hi
    obtain rfl : n' = n := Option.some.inj ((hreached n' hn').1.symm.trans hn)
    -- it was put there by its parent, which was visited before
    rcases horigin n' hn' with hstart | ⟨a, ha, next, hnext, hb⟩
    · rw [List.mem_singleton.mp hstart] at hne
      exact absurd rfl hne
    · have hchild := (visitForDelete_ok hwf (hreached a ha).1 hnext n').mp hb
      exact ⟨a.id, (hwf.mem_childNodes.mp hchild).2, hmem.mpr ⟨a, ha, rfl⟩⟩
  case below =>
    intro i chain hi hc
    obtain ⟨n, hn, rfl⟩ := hmem.mp hi
    exact (hreached n hn).2 hc

/-- **A delete that returns took one subtree out of the table and the maps.** -/
theorem delete_returns (hwf : WellFormed t.state) {path : String} {kind : NodeKind}
    (h : Returns (delete path s) t kind t') :
    ∃ top p ordered, t.state.nodes.lookup top.id = some top ∧ top.parentId = some p ∧
      top.id ≠ rootId ∧ Subtree t.state top ordered ∧
      t'.state = unlist top.id p (removeAll t.state ordered) ∧
      ∀ i, t'.db.row i = if i ∈ ordered then none else
        (t.db.row i).map (FileNodes.forgetAll ordered) := by
  obtain ⟨_, t₁, h₁, h⟩ := returns_bind.mp h
  obtain ⟨rfl, rfl⟩ := returns_get.mp h₁
  obtain ⟨doomed, t₂, h₂, h⟩ := returns_bind.mp h
  obtain ⟨htarget, rfl⟩ := returns_check.mp h₂
  obtain ⟨_, t₃, h₃, h⟩ := returns_bind.mp h
  obtain ⟨hwrite, hstate⟩ := returns_stored h₃
  obtain ⟨_, t₄, h₄, h⟩ := returns_bind.mp h
  obtain rfl := returns_modify.mp h₄
  obtain ⟨_, t₅, h₅, h⟩ := returns_bind.mp h
  obtain rfl := returns_modify.mp h₅
  obtain ⟨-, rfl⟩ := returns_pure.mp h
  obtain ⟨top, hwalk, htarget⟩ := checks_pass.mp htarget
  obtain ⟨_, hroot, htarget⟩ := checks_pass.mp htarget
  obtain ⟨parent, hparent, htarget⟩ := checks_pass.mp htarget
  obtain ⟨_, -, htarget⟩ := checks_pass.mp htarget
  obtain ⟨_, -, htarget⟩ := checks_pass.mp htarget
  obtain ⟨_, -, htarget⟩ := checks_pass.mp htarget
  obtain ⟨⟨ordered, paths⟩, hcollect, htarget⟩ := checks_pass.mp htarget
  cases htarget
  obtain ⟨i, hi⟩ := TreeState.walk_lookup hwalk
  obtain ⟨p, hp, hplookup⟩ := TreeState.parentOf_lookup hparent
  have htop := hwf.ids hi ▸ hi
  refine ⟨top, p, ordered, htop, hp, by simpa using hroot,
    collectSubtreeForDelete_ok hwf htop hcollect, ?_, FileNodes.returns_deleteMany hwrite⟩
  show unlist top.id parent.id (removeAll t₃.state ordered) = _
  rw [hstate, hwf.ids hplookup]

/-- Removing a file entry that is there takes its row and its node. -/
theorem removeFileNode_returns {id : String}
    (h : Returns (removeFileNode id) t () t') :
    (t'.state = t.state ∧ t'.db = t.db) ∨
      ∃ node, t.state.nodes.lookup id = some node ∧ node.kind = .file ∧
        t'.state = node.parentId.elim { t.state with nodes := t.state.nodes.erase id }
          (fun p => unlist id p { t.state with nodes := t.state.nodes.erase id }) ∧
        ((∀ i, t'.db.row i = if i = id then none else (t.db.row i).map (FileNodes.forget id)) ∨
          t.db.row id = none ∧ t'.db = t.db) := by
  obtain ⟨_, t₁, h₁, h⟩ := returns_bind.mp h
  obtain ⟨rfl, rfl⟩ := returns_get.mp h₁
  cases hnode : t.state.nodes.lookup id with
  | none =>
    rw [hnode] at h
    obtain ⟨-, rfl⟩ := returns_pure.mp h
    exact .inl ⟨rfl, rfl⟩
  | some node =>
    rw [hnode] at h
    obtain ⟨_, t₂, h₂, h⟩ := returns_bind.mp h
    obtain ⟨hkind, rfl⟩ := returns_check.mp h₂
    obtain ⟨_, t₃, h₃, h⟩ := returns_bind.mp h
    obtain ⟨hwrite, hstate⟩ := returns_stored h₃
    obtain rfl := returns_modify.mp h
    refine .inr ⟨node, rfl, by simpa using hkind, by rw [hstate], ?_⟩
    obtain ⟨outcome, r, hattempt, hrest⟩ := returns_bind.mp hwrite
    rcases returns_attempt.mp hattempt with ⟨_, rfl, hdone⟩ | ⟨e, rfl, hfailed⟩
    · obtain ⟨-, rfl⟩ := returns_pure.mp hrest
      exact .inl (FileNodes.returns_delete hdone)
    -- a row that is gone already is no error here, any other failure is
    · have hgone := fails_statement hfailed
      cases e with
      | notFound =>
        have hdb := (statement_atomic _).fails hfailed
        obtain ⟨-, rfl⟩ := returns_pure.mp hrest
        refine .inr ⟨?_, hdb⟩
        rcases hgone with hgone | hgone
        · cases hgone
        · split at hgone
          · assumption
          · rename_i row hrow
            cases hd : FileNodes.deleteRow id t.pool.db with
            | ok db =>
              rw [hd] at hgone
              cases hgone
            | error e =>
              rw [hd] at hgone
              cases hgone
              unfold FileNodes.deleteRow at hd
              split at hd <;> cases hd
      | sqlx => exact absurd (returns_check.mp hrest).1 (by simp)
      | alreadyExists => exact absurd (returns_check.mp hrest).1 (by simp)
      | foreignKey => exact absurd (returns_check.mp hrest).1 (by simp)

end Deleting

/-! ### Moving -/

section Moving

variable {t t' : FileTree} {s : Session}

/-- **A move that returns was free of a cycle and found room, and hangs the node
under its new parent in the table and in the maps.** -/
theorem moveNode_returns (hwf : WellFormed t.state) {path destPath : String}
    (h : Returns (moveNode path destPath s) t () t') :
    ∃ node p dest chain height relLen, t.state.nodes.lookup node.id = some node ∧
      node.parentId = some p ∧ t.state.nodes.lookup dest.id = some dest ∧
      dest.kind.isFolder = true ∧ t.state.ancestry dest = .ok chain ∧
      (∀ n ∈ chain, n.id ≠ node.id) ∧ t.state.subtreeExtent node = .ok (height, relLen) ∧
      t.state.checkRoom dest height relLen = .ok () ∧
      t'.state = moveInMemory node.id dest.id t.state ∧
      ((t.db.row node.id).isSome ∧ ∀ i, t'.db.row i = if i = node.id then
        (t.db.row i).map fun r => { r with parentId := some dest.id } else t.db.row i) := by
  obtain ⟨_, t₁, h₁, h⟩ := returns_bind.mp h
  obtain ⟨rfl, rfl⟩ := returns_get.mp h₁
  obtain ⟨⟨node, dest⟩, t₂, h₂, h⟩ := returns_bind.mp h
  obtain ⟨htarget, rfl⟩ := returns_check.mp h₂
  obtain ⟨_, t₃, h₃, h⟩ := returns_bind.mp h
  obtain ⟨hwrite, hstate⟩ := returns_stored h₃
  obtain rfl := returns_modify.mp h
  obtain ⟨node', hwalk, htarget⟩ := checks_pass.mp htarget
  obtain ⟨_, -, htarget⟩ := checks_pass.mp htarget
  obtain ⟨parent, hparent, htarget⟩ := checks_pass.mp htarget
  obtain ⟨_, -, htarget⟩ := checks_pass.mp htarget
  obtain ⟨_, -, htarget⟩ := checks_pass.mp htarget
  obtain ⟨_, -, htarget⟩ := checks_pass.mp htarget
  obtain ⟨dest', hdest, htarget⟩ := checks_pass.mp htarget
  obtain ⟨_, hfolder, htarget⟩ := checks_pass.mp htarget
  obtain ⟨_, -, htarget⟩ := checks_pass.mp htarget
  obtain ⟨chain, hchain, htarget⟩ := checks_pass.mp htarget
  obtain ⟨_, hcycle, htarget⟩ := checks_pass.mp htarget
  obtain ⟨_, -, htarget⟩ := checks_pass.mp htarget
  obtain ⟨⟨height, relLen⟩, hextent, htarget⟩ := checks_pass.mp htarget
  obtain ⟨⟨⟩, hroom, htarget⟩ := checks_pass.mp htarget
  cases htarget
  obtain ⟨i, hi⟩ := TreeState.walk_lookup hwalk
  obtain ⟨j, hj⟩ := TreeState.walk_lookup hdest
  obtain ⟨p, hp, -⟩ := TreeState.parentOf_lookup hparent
  refine ⟨node, p, dest, chain, height, relLen, hwf.ids hi ▸ hi, hp, hwf.ids hj ▸ hj,
    by simpa using hfolder, hchain, by simpa using hcycle, hextent, hroom, by rw [hstate],
    FileNodes.returns_reparent hwrite⟩

end Moving

/-! ### Errors change nothing -/

section Atomic

variable {s : Session}

theorem setState_total {f : TreeState → TreeState} {t t' : FileTree} {e : TreeError} :
    ¬Fails (setState f) t e t' := fails_modify

theorem createFolder_atomic (id parentPath name : String) (kind : NodeKind) (r w : BaseClass)
    (owner : Option String) :
    Atomic content (createFolder id parentPath name kind r w owner s) :=
  (keeps_check _).atomic_bind fun _ => (keeps_check _).atomic_bind fun _ =>
    (keeps_check _).atomic_bind fun _ => keeps_get.atomic_bind fun _ =>
      (keeps_check _).atomic_bind fun _ => addNode_atomic (nodeFromRow_ok rfl)

theorem createAlias_atomic (id sourcePath destPath : String) :
    Atomic content (createAlias id sourcePath destPath s) :=
  keeps_get.atomic_bind fun _ => (keeps_check _).atomic_bind fun _ =>
    (keeps_check _).atomic_bind fun _ =>
      addNode_atomic (nodeFromRow_ok (by rfl : (4 : ℤ) = (NodeKind.alias_.asU8 : ℤ)))

theorem fileEntry_atomic (id parentId name storagePath : String) (size : ℕ) (sha256 : List UInt8)
    (renameIfTaken : Option (String → Bool)) :
    Atomic content (fileEntry id parentId name size sha256 storagePath renameIfTaken) :=
  (keeps_check _).atomic_bind fun _ => keeps_get.atomic_bind fun _ =>
    (keeps_check _).atomic_bind fun _ => (keeps_check _).atomic_bind fun _ =>
      addNode_atomic (nodeFromRow_ok (by rfl : (1 : ℤ) = (NodeKind.file.asU8 : ℤ)))

theorem delete_atomic (path : String) : Atomic content (delete path s) := by
  refine keeps_get.atomic_bind fun t => (keeps_check _).atomic_bind fun doomed => ?_
  refine (stored_atomic (transaction_atomic _) _).bind_total fun _ t e t' h => ?_
  rcases fails_bind.mp h with h | ⟨_, u, -, h⟩
  · exact setState_total h
  · rcases fails_bind.mp h with h | ⟨_, u', -, h⟩
    · exact fails_modify h
    · exact fails_pure h

/-- A delete that puts up with a missing row changes nothing when it fails. -/
theorem ignoreGone_atomic (id : String) : Atomic Pool.db (ignoreGone (FileNodes.delete id)) := by
  -- the statement's own failure is handed over as a value, which fails no further
  refine ⟨fun h => ?_⟩
  rcases fails_bind.mp h with h | ⟨outcome, r, h, hf⟩
  · exact absurd h fails_attempt
  · rcases returns_attempt.mp h with ⟨_, rfl, -⟩ | ⟨e', rfl, hfailed⟩
    · exact absurd hf fails_pure
    · rw [← (statement_atomic _).fails hfailed]
      cases e' with
      | notFound => exact absurd hf fails_pure
      | sqlx => rw [(fails_check.mp hf).2]
      | alreadyExists => rw [(fails_check.mp hf).2]
      | foreignKey => rw [(fails_check.mp hf).2]

theorem removeFileNode_atomic (id : String) : Atomic content (removeFileNode id) := by
  refine keeps_get.atomic_bind fun t => ?_
  split
  · exact (keeps_pure _).atomic
  · refine (keeps_check _).atomic_bind fun _ => ?_
    exact (stored_atomic (ignoreGone_atomic id) _).bind_total fun _ t e t' h => setState_total h

theorem moveNode_atomic (path destPath : String) : Atomic content (moveNode path destPath s) :=
  keeps_get.atomic_bind fun _ => (keeps_check _).atomic_bind fun _ =>
    (stored_atomic (statement_atomic _) _).bind_total fun _ _ _ _ h => setState_total h

end Atomic

end FileTree

/-! ### The operations as one type -/

/-- An operation that changes the tree; a creation carries the id drawn for its
node. -/
inductive Operation
  | createFolder (id parentPath name : String) (kind : NodeKind)
      (minClassRead minClassWrite : BaseClass) (owner : Option String) (s : Session)
  | createAlias (id sourcePath destPath : String) (s : Session)
  | addFile (id parentId name : String) (size : ℕ) (sha256 : List UInt8) (storagePath : String)
  | addFileRenaming (id parentId name : String) (size : ℕ) (sha256 : List UInt8)
      (storagePath : String) (reserved : String → Bool)
  | delete (path : String) (s : Session)
  | moveNode (path destPath : String) (s : Session)
  | removeFileNode (id : String)

namespace Operation

/-- Run an operation, dropping what it answers. -/
def run : Operation → Fallible FileTree TreeError Unit
  | createFolder id parentPath name kind r w owner s => do
    let _ ← FileTree.createFolder id parentPath name kind r w owner s
  | createAlias id sourcePath destPath s => do
    let _ ← FileTree.createAlias id sourcePath destPath s
  | addFile id parentId name size sha256 storagePath => do
    let _ ← FileTree.addFile id parentId name size sha256 storagePath
  | addFileRenaming id parentId name size sha256 storagePath reserved => do
    let _ ← FileTree.addFileRenaming id parentId name size sha256 storagePath reserved
  | delete path s => do
    let _ ← FileTree.delete path s
  | moveNode path destPath s => FileTree.moveNode path destPath s
  | removeFileNode id => FileTree.removeFileNode id

/-- The id an operation draws for a new node. -/
def newId : Operation → Option String
  | createFolder id .. | createAlias id .. | addFile id .. | addFileRenaming id .. => some id
  | delete .. | moveNode .. | removeFileNode .. => none

/-- **An operation that fails leaves the maps and the table as they were.** -/
theorem run_atomic (op : Operation) : Atomic FileTree.content op.run := by
  have hdrop : ∀ {α : Type} {x : Fallible FileTree TreeError α}, Atomic FileTree.content x →
      Atomic FileTree.content (x >>= fun _ => pure ()) :=
    fun hx => hx.bind_total fun _ _ _ _ h => fails_pure h
  cases op with
  | createFolder => exact hdrop (FileTree.createFolder_atomic _ _ _ _ _ _ _)
  | createAlias => exact hdrop (FileTree.createAlias_atomic _ _ _)
  | addFile => exact hdrop (FileTree.fileEntry_atomic _ _ _ _ _ _ _)
  | addFileRenaming => exact hdrop (FileTree.fileEntry_atomic _ _ _ _ _ _ _)
  | delete => exact hdrop (FileTree.delete_atomic _)
  | moveNode => exact FileTree.moveNode_atomic _ _
  | removeFileNode => exact FileTree.removeFileNode_atomic _

end Operation

end Files

end KdxHotline
