import KdxHotline.Files.Agreement
import KdxHotline.Files.Ancestry

/-!
# Operations that pass their checks return

The checks of an operation are complete: what they accept in memory, the table
accepts too, so an operation only fails after them when a statement does
(`KdxHotline.Files.FileTree.addNode_progress`). For an administrator the access
rules never refuse, every node is found under its path
(`KdxHotline.Files.WellFormed.walk_path`), and what is left to check is the name
and the room.
-/

namespace KdxHotline

namespace Files

open Foundations Storage Auth Limits

/-- An administrator that may upload. -/
structure Session.IsAdmin (s : Session) : Prop where
  class_ : s.class_ = .admin
  upload : s.privileges.contains Privileges.fileUpload = true

variable {st : TreeState} {n m : Node} {s : Session}

/-! ### The rules never refuse an administrator -/

section Admin

theorem not_admin_lt (c : BaseClass) : ¬BaseClass.admin < c := by
  cases c <;> decide

variable (hs : Session.IsAdmin s)
include hs

theorem checkReadNode_admin (n : Node) : checkReadNode n s = .ok () := by
  unfold checkReadNode checkRead
  split
  · simp [hs.class_]
  · simp [hs.class_, not_admin_lt]

theorem checkRemoveFrom_admin (n : Node) : checkRemoveFrom n s = .ok () := by
  unfold checkRemoveFrom checkDelete
  split
  · simp [hs.class_]
  · simp only [hs.class_, lt_self_iff_false, decide_false, Bool.and_false, not_admin_lt]
    rfl

theorem checkWriteNode_admin (n : Node) : checkWriteNode n s = .ok () := by
  simp only [checkWriteNode, checkWrite, hs.class_, hs.upload, not_admin_lt, decide_false]
  rfl

theorem checkManage_admin (n : Node) : TreeState.checkManage n s = .ok () := by
  simp [TreeState.checkManage, hs.class_, refuseIf]

theorem checkReadEach_admin : ∀ chain : List Node, TreeState.checkReadEach s chain = .ok ()
  | [] => rfl
  | n :: chain => checks_pass.mpr
      ⟨(), access_eq_ok.mpr (checkReadNode_admin hs n), checkReadEach_admin chain⟩

variable (h : WellFormed st) (hn : st.nodes.lookup n.id = some n)
include h hn

theorem checkReadChain_admin : st.checkReadChain n s = .ok () := by
  obtain ⟨chain, hchain⟩ := h.exists_chain hn
  exact checks_pass.mpr ⟨chain, (h.ancestry_eq_ok hn).mpr hchain, checkReadEach_admin hs _⟩

theorem checkAbove_admin : st.checkAbove n s = .ok () := by
  unfold TreeState.checkAbove
  cases hp : n.parentId with
  | none => rfl
  | some p =>
    obtain ⟨m, hm, -⟩ := h.folders hn hp
    have hparent : st.parentOf n = .ok m := by
      simp [TreeState.parentOf, hp, hm, required]
    exact checks_pass.mpr ⟨m, hparent, checkReadChain_admin hs h (h.ids hm ▸ hm)⟩

theorem checkPlaceInto_admin (manage : Bool) : st.checkPlaceInto n s manage = .ok () := by
  refine checks_pass.mpr ⟨(), checkAbove_admin hs h hn, checks_pass.mpr ⟨(), ?_, ?_⟩⟩
  · exact access_eq_ok.mpr (checkWriteNode_admin hs n)
  · cases manage
    · rfl
    · exact access_eq_ok.mpr (checkManage_admin hs n)

end Admin

/-! ### Every node is found under its path -/

section Paths

/-- The names from the root down to the head of a chain. -/
def pathOf (chain : List Node) : List String := (chain.dropLast.map Node.name).reverse

theorem pathOf_cons {chain : List Node} (hne : chain ≠ []) (n : Node) :
    pathOf (n :: chain) = pathOf chain ++ [n.name] := by
  simp [pathOf, List.dropLast_cons_of_ne_nil hne]

theorem follow_append {session : Option Session} : ∀ {xs ys : List String} {n : Node},
    st.follow session n (xs ++ ys) = (do
      let m ← st.follow session n xs
      st.follow session m ys)
  | [], ys, n => rfl
  | x :: xs, ys, n => by
    simp only [List.cons_append, TreeState.follow, follow_append, bind_assoc]

/-- A child is the one that a walk finds under its name. -/
theorem WellFormed.find_child (h : WellFormed st) {p : String} (hn : n ∈ st.childNodes p) :
    (st.childNodes p).find? (fun m => m.name = n.name) = some n := by
  cases hfound : (st.childNodes p).find? fun m => m.name = n.name with
  | none => simpa using List.find?_eq_none.mp hfound n hn
  | some m =>
    obtain ⟨hm, hmp⟩ := h.mem_childNodes.mp (List.mem_of_find?_eq_some hfound)
    obtain ⟨hn, hnp⟩ := h.mem_childNodes.mp hn
    have hname : m.name = n.name := by simpa using List.find?_some hfound
    have hid := h.names hm hn hmp hnp hname
    rw [hid, hn] at hm
    exact hm.symm

/-- A walk looks inside a folder that it may look inside. -/
theorem walkable_folder {session : Option Session} (hfolder : n.kind.isFolder = true)
    (hlook : TreeState.checkLook n session = .ok ()) : st.walkable session n = .ok n := by
  unfold TreeState.walkable
  split
  · rename_i halias
    rw [halias] at hfolder
    cases hfolder
  · exact checks_pass.mpr ⟨(), hlook, rfl⟩

/-- **Every node is found under its path**, by who may look inside the folders above it. -/
theorem WellFormed.follow_path (h : WellFormed st) {session : Option Session} {r : Node}
    (hr : st.nodes.lookup rootId = some r) {chain : List Node}
    (hn : st.nodes.lookup n.id = some n) (hchain : NodeChain st n chain)
    (hlook : ∀ f ∈ chain.tail, TreeState.checkLook f session = .ok ()) :
    st.follow session r (pathOf chain) = .ok n := by
  induction chain generalizing n with
  | nil =>
    obtain ⟨rest, hrest⟩ := hchain.head hn
    cases hrest
  | cons k rest ih =>
    obtain ⟨_, hhead⟩ := hchain.head hn
    obtain ⟨rfl, rfl⟩ := List.cons.inj hhead
    cases hp : k.parentId with
    | none =>
      have hroot := h.eq_root hn hp
      have hone := hchain.unique (.root hn hp hroot)
      rw [hroot, hr] at hn
      obtain rfl := Option.some.inj hn
      rw [hone]
      rfl
    | some p =>
      obtain ⟨m, hm, hfolder⟩ := h.folders hn hp
      have hid := h.ids hm
      obtain ⟨rest', hrest, hmchain⟩ := hchain.of_parent hn hp hid
      obtain ⟨-, rfl⟩ := List.cons.inj hrest
      obtain ⟨above, rfl⟩ := hmchain.head (hid ▸ hm)
      have hchild := h.mem_childNodes.mpr ⟨hn, hid ▸ hp⟩
      have hm' := ih (hid ▸ hm) hmchain fun f hf => hlook f (List.mem_cons_of_mem _ hf)
      rw [pathOf_cons (List.cons_ne_nil m above), follow_append, hm']
      have hwalk : st.walkable session m = .ok m :=
        walkable_folder hfolder (hlook m List.mem_cons_self)
      refine checks_pass.mpr ⟨m, rfl, checks_pass.mpr ⟨m, hwalk, ?_⟩⟩
      exact checks_pass.mpr ⟨k, required_eq_ok.mpr (h.find_child hchild), rfl⟩

/-- **A request path made of the names of a chain leads to its node.** -/
theorem WellFormed.walk_path (h : WellFormed st) {session : Option Session} {chain : List Node}
    (hn : st.nodes.lookup n.id = some n) (hchain : NodeChain st n chain)
    (hlook : ∀ f ∈ chain.tail, TreeState.checkLook f session = .ok ()) {path : String}
    (hcheck : checkPath path = .ok ()) (hpath : segments path = pathOf chain) :
    st.walk path session = .ok n := by
  obtain ⟨r, hr, -⟩ := h.root
  refine checks_pass.mpr ⟨(), by rw [hcheck]; rfl, checks_pass.mpr ⟨r, required_eq_ok.mpr hr, ?_⟩⟩
  rw [hpath]
  exact h.follow_path hr hn hchain hlook

/-- An administrator may look inside every folder. -/
theorem checkLook_admin (hs : Session.IsAdmin s) (n : Node) : TreeState.checkLook n (some s) = .ok () := by
  simp [TreeState.checkLook, checkReadNode_admin hs]

end Paths

/-! ### What the checks accept, the table accepts -/

namespace FileTree

section Writes

variable {t : FileTree}

/-- **A row that stands for a leaf the tree can take is one the table takes.** -/
theorem insert_accepted (h : Sound t) {row : FileNodeRow} {parent : Node}
    (hp : row.parentId = some parent.id) (hparent : t.state.nodes.lookup parent.id = some parent)
    (hid : t.state.nodes.lookup row.id = none)
    (hname : t.state.nameTaken parent.id row.name = false)
    (htarget : ∀ x, row.targetId = some x → ∃ n, t.state.nodes.lookup x = some n) :
    ∃ db', FileNodes.insert row t.db = .ok (row, db') := by
  have hrow : ∀ {i n}, t.state.nodes.lookup i = some n → ∃ q ∈ t.db.rows, q.id = i := by
    intro i n hn
    obtain ⟨q, hq, -⟩ := h.agrees.row hn
    exact ⟨q, FileTable.row_eq_some.mp hq⟩
  refine FileNodes.insert_ok (fun r hr he => ?_) (fun r hr _ hrp he => ?_) ?_ ?_
  · obtain ⟨n, hn⟩ := h.agrees.node (FileTable.row_eq_some.mpr ⟨hr, rfl⟩)
    rw [he, hid] at hn
    cases hn
  · obtain ⟨n, hn⟩ := h.agrees.node (FileTable.row_eq_some.mpr ⟨hr, rfl⟩)
    obtain ⟨r', hr', hstored⟩ := h.agrees.row hn
    obtain rfl : r' = r :=
      Option.some.inj (hr'.symm.trans (FileTable.row_eq_some.mpr ⟨hr, rfl⟩))
    obtain ⟨hnid, hnp, hnname⟩ := hstored.fields
    -- a row that clashes would be a child of that name in memory
    refine Bool.false_ne_true (hname.symm.trans (TreeState.nameTaken_iff.mpr ⟨n, ?_, ?_⟩))
    · exact h.wellFormed.mem_childNodes.mpr ⟨hnid ▸ hn, hnp.trans (hrp.trans hp)⟩
    · exact hnname.trans he
  · intro p hp'
    rw [hp] at hp'
    cases hp'
    exact hrow hparent
  · intro x hx
    obtain ⟨n, hn⟩ := htarget x hx
    exact hrow hn

/-- **A row that stands for a leaf the tree can take is written and entered**,
when no statement fails. -/
theorem addNode_progress (h : Sound t) (hquiet : t.pool.faults.headD false = false)
    {row : FileNodeRow} {node parent : Node} (hnode : nodeFromRow row = .ok node)
    (hp : row.parentId = some parent.id) (hparent : t.state.nodes.lookup parent.id = some parent)
    (hid : t.state.nodes.lookup row.id = none)
    (hname : t.state.nameTaken parent.id row.name = false)
    (htarget : ∀ x, row.targetId = some x → ∃ n, t.state.nodes.lookup x = some n) :
    ∃ t', Returns (addNode (statement (FileNodes.insert row))) t node t' ∧
      t'.pool.faults = t.pool.faults.tail ∧ t'.state = t.state.insertInMemory node := by
  obtain ⟨db', hdb⟩ := insert_accepted h hp hparent hid hname htarget
  refine ⟨{ t with pool := ⟨db', t.pool.faults.tail⟩, state := t.state.insertInMemory node }, ?_, rfl, rfl⟩
  refine returns_bind.mpr ⟨row, { t with pool := ⟨db', t.pool.faults.tail⟩ }, ?_, ?_⟩
  · exact returns_mapError.mpr (returns_zoom.mpr ⟨_, statement_returns hquiet hdb, rfl⟩)
  · refine returns_bind.mpr ⟨node, _, returns_check.mpr ⟨hnode, rfl⟩, ?_⟩
    exact returns_bind.mpr ⟨⟨⟩, _, returns_modify.mpr rfl, returns_pure.mpr ⟨rfl, rfl⟩⟩

/-- A folder that an administrator creates where there is room and no entry of
its name. -/
theorem createFolder_progress (h : Sound t) (hquiet : t.pool.faults.headD false = false) {s : Session}
    (hs : Session.IsAdmin s) {id path name : String} {parent : Node} {chain : List Node}
    (hid : t.state.nodes.lookup id = none) (hvalid : validateName name = .ok ())
    (hparent : t.state.nodes.lookup parent.id = some parent) (hfolder : parent.kind.isFolder = true)
    (hchain : NodeChain t.state parent chain) (hcheck : checkPath path = .ok ())
    (hpath : segments path = pathOf chain)
    (hroom : t.state.checkRoom parent 0 (1 + name.utf8ByteSize) = .ok ())
    (hname : t.state.nameTaken parent.id name = false) :
    ∃ node t', Returns (Operation.createFolder id path name .directory .guest .guest none s).run t ()
        t' ∧ t'.pool.faults = t.pool.faults.tail ∧ t'.state = t.state.insertInMemory node ∧ node.id = id ∧
      node.parentId = some parent.id ∧ node.name = name ∧ node.kind = .directory := by
  have hplace : placeInto t.state path name s = .ok parent := by
    refine checks_pass.mpr ⟨parent, h.wellFormed.walk_path hparent hchain (fun f _ => checkLook_admin hs f) hcheck hpath, ?_⟩
    refine checks_pass.mpr ⟨(), by simp [refuseIf, hfolder], ?_⟩
    refine checks_pass.mpr ⟨(), checkPlaceInto_admin hs h.wellFormed hparent true, ?_⟩
    exact checks_pass.mpr ⟨(), hroom, checks_pass.mpr ⟨(), by simp [refuseIf, hname], rfl⟩⟩
  obtain ⟨node, hnode, hnid, hnp, hnname, hnkind⟩ : ∃ node, nodeFromRow
      ⟨id, some parent.id, name, 0, 0, none, 0, 0, none, none, none⟩ = .ok node ∧ node.id = id ∧
        node.parentId = some parent.id ∧ node.name = name ∧ node.kind = .directory :=
    ⟨_, nodeFromRow_ok (by rfl : (0 : ℤ) = (NodeKind.directory.asU8 : ℤ)), rfl, rfl, rfl, rfl⟩
  obtain ⟨t', hret, hquiet', hstate⟩ := addNode_progress h hquiet hnode rfl hparent hid hname
    (fun x hx => by cases hx)
  refine ⟨node, t', ?_, hquiet', hstate, hnid, hnp, hnname, hnkind⟩
  refine returns_bind.mpr ⟨node, t', ?_, returns_pure.mpr ⟨rfl, rfl⟩⟩
  refine returns_bind.mpr ⟨(), t, returns_check.mpr ⟨rfl, rfl⟩, ?_⟩
  refine returns_bind.mpr ⟨(), t, returns_check.mpr ⟨by rw [hvalid]; rfl, rfl⟩, ?_⟩
  refine returns_bind.mpr ⟨(), t, returns_check.mpr ⟨rfl, rfl⟩, ?_⟩
  refine returns_bind.mpr ⟨t, t, returns_get.mpr ⟨rfl, rfl⟩, ?_⟩
  refine returns_bind.mpr ⟨parent, t, returns_check.mpr ⟨hplace, rfl⟩, ?_⟩
  have hguest : min BaseClass.guest s.class_ = .guest := by
    rw [hs.class_]
    decide
  rw [hguest]
  exact hret

/-- A file is filed where its name is free. -/
theorem addFile_progress (size : ℕ) (sha256 : List UInt8) (storagePath : String) (parent : Node)
    (h : Sound t) (hquiet : t.pool.faults.headD false = false) {id name : String} (hid : t.state.nodes.lookup id = none)
    (hvalid : validateName name = .ok ()) (hparent : t.state.nodes.lookup parent.id = some parent)
    (hfolder : parent.kind.isFolder = true) (hname : t.state.nameTaken parent.id name = false) :
    ∃ node t', Returns (Operation.addFile id parent.id name size sha256 storagePath).run t () t' ∧
      t'.pool.faults = t.pool.faults.tail ∧ t'.state = t.state.insertInMemory node ∧ node.id = id ∧
      node.parentId = some parent.id ∧ node.name = name ∧ node.kind = .file := by
  obtain ⟨node, hnode, hnid, hnp, hnname, hnkind⟩ : ∃ node, nodeFromRow ⟨id, some parent.id, name, 1,
      (BitVec.ofNat 64 size).toInt, some sha256, 0, 2, some storagePath, none, none⟩ = .ok node ∧
        node.id = id ∧ node.parentId = some parent.id ∧ node.name = name ∧ node.kind = .file :=
    ⟨_, nodeFromRow_ok (by rfl : (1 : ℤ) = (NodeKind.file.asU8 : ℤ)), rfl, rfl, rfl, rfl⟩
  obtain ⟨t', hret, hquiet', hstate⟩ := addNode_progress h hquiet hnode rfl hparent hid hname
    (fun x hx => by cases hx)
  have hfolder' : filingFolder t.state parent.id = .ok parent :=
    checks_pass.mpr ⟨parent, required_eq_ok.mpr hparent, by simp [refuseIf, hfolder]⟩
  have hfiled : filingName t.state parent parent.id name none = .ok name := by
    simp [filingName, hname]
  refine ⟨node, t', ?_, hquiet', hstate, hnid, hnp, hnname, hnkind⟩
  refine returns_bind.mpr ⟨node, t', ?_, returns_pure.mpr ⟨rfl, rfl⟩⟩
  refine returns_bind.mpr ⟨(), t, returns_check.mpr ⟨by rw [hvalid]; rfl, rfl⟩, ?_⟩
  refine returns_bind.mpr ⟨t, t, returns_get.mpr ⟨rfl, rfl⟩, ?_⟩
  refine returns_bind.mpr ⟨parent, t, returns_check.mpr ⟨hfolder', rfl⟩, ?_⟩
  exact returns_bind.mpr ⟨name, t, returns_check.mpr ⟨hfiled, rfl⟩, hret⟩

/-- **A move to a folder that has no entry of the name is one the table takes.** -/
theorem reparent_accepted (h : Sound t) (hquiet : t.pool.faults.headD false = false)
    {node dest : Node} (hnode : t.state.nodes.lookup node.id = some node)
    (hdest : t.state.nodes.lookup dest.id = some dest)
    (hname : t.state.nameTaken dest.id node.name = false) :
    ∃ q, Returns (FileNodes.reparent node.id dest.id) t.pool () q ∧
      q.faults = t.pool.faults.tail := by
  obtain ⟨row, hrow, hstored⟩ := h.agrees.row hnode
  refine FileNodes.reparent_returns hquiet hrow (fun r hr hne hrp he => ?_) ?_
  · have hfound := FileTable.row_eq_some.mpr ⟨hr, rfl⟩
    obtain ⟨n, hn⟩ := h.agrees.node hfound
    obtain ⟨r', hr', hstored'⟩ := h.agrees.row hn
    obtain rfl : r' = r := Option.some.inj (hr'.symm.trans hfound)
    obtain ⟨hnid, hnp, hnname⟩ := hstored'.fields
    refine Bool.false_ne_true (hname.symm.trans (TreeState.nameTaken_iff.mpr ⟨n, ?_, ?_⟩))
    · exact h.wellFormed.mem_childNodes.mpr ⟨hnid ▸ hn, hnp.trans hrp⟩
    · rw [hnname, he, hstored.fields.2.2]
  · obtain ⟨r, hr, -⟩ := h.agrees.row hdest
    exact ⟨r, FileTable.row_eq_some.mp hr⟩

/-- An administrator moves a node where there is room for its subtree and no entry
of its name. -/
theorem moveNode_progress (h : Sound t) (hquiet : t.pool.faults.headD false = false) {s : Session}
    (hs : Session.IsAdmin s) {path destPath p : String} {node dest : Node}
    {chain destChain : List Node} {height relLen : ℕ}
    (hnode : t.state.nodes.lookup node.id = some node) (hp : node.parentId = some p)
    (hchain : NodeChain t.state node chain) (hcheck : checkPath path = .ok ())
    (hpath : segments path = pathOf chain)
    (hdest : t.state.nodes.lookup dest.id = some dest) (hfolder : dest.kind.isFolder = true)
    (hdestChain : NodeChain t.state dest destChain) (hdestCheck : checkPath destPath = .ok ())
    (hdestPath : segments destPath = pathOf destChain)
    (hcycle : ∀ n ∈ destChain, n.id ≠ node.id)
    (hname : t.state.nameTaken dest.id node.name = false)
    (hext : t.state.subtreeExtent node = .ok (height, relLen))
    (hroom : t.state.checkRoom dest height relLen = .ok ()) :
    ∃ t', Returns (Operation.moveNode path destPath s).run t () t' ∧ t'.pool.faults = t.pool.faults.tail ∧
      t'.state = moveInMemory node.id dest.id t.state := by
  have hwf := h.wellFormed
  obtain ⟨parent, hparent, -⟩ := hwf.folders hnode hp
  have htarget : moveTarget t.state path destPath s = .ok (node, dest) := by
    have hroot : (node.id == rootId) = false := by
      rw [beq_eq_false_iff_ne]
      intro he
      obtain ⟨r, hr, hrp, -⟩ := hwf.root
      rw [he, hr] at hnode
      rw [Option.some.inj hnode, hp] at hrp
      cases hrp
    have hparentOf : t.state.parentOf node = .ok parent := by
      simp [TreeState.parentOf, hp, hparent, required]
    refine checks_pass.mpr ⟨node, hwf.walk_path hnode hchain (fun f _ => checkLook_admin hs f) hcheck hpath, ?_⟩
    refine checks_pass.mpr ⟨(), by simp [hroot], checks_pass.mpr ⟨parent, hparentOf, ?_⟩⟩
    refine checks_pass.mpr ⟨(), checkReadChain_admin hs hwf (hwf.ids hparent ▸ hparent), ?_⟩
    refine checks_pass.mpr ⟨(), access_eq_ok.mpr (checkRemoveFrom_admin hs parent), ?_⟩
    refine checks_pass.mpr ⟨(), ?_, ?_⟩
    · rw [checkRemoveFrom_admin hs node, ite_self]
      rfl
    · refine checks_pass.mpr ⟨dest, hwf.walk_path hdest hdestChain (fun f _ => checkLook_admin hs f) hdestCheck hdestPath, ?_⟩
      refine checks_pass.mpr ⟨(), by simp [hfolder], ?_⟩
      refine checks_pass.mpr ⟨(), checkPlaceInto_admin hs hwf hdest true, ?_⟩
      refine checks_pass.mpr ⟨destChain, (hwf.ancestry_eq_ok hdest).mpr hdestChain, ?_⟩
      refine checks_pass.mpr ⟨(), by simpa using hcycle, checks_pass.mpr ⟨(), by simp [hname], ?_⟩⟩
      exact checks_pass.mpr ⟨(height, relLen), hext, checks_pass.mpr ⟨(), hroom, rfl⟩⟩
  obtain ⟨q, hq, hqfaults⟩ := reparent_accepted h hquiet hnode hdest hname
  refine ⟨{ t with pool := q, state := moveInMemory node.id dest.id t.state }, ?_, hqfaults, rfl⟩
  refine returns_bind.mpr ⟨t, t, returns_get.mpr ⟨rfl, rfl⟩, ?_⟩
  refine returns_bind.mpr ⟨(node, dest), t, returns_check.mpr ⟨htarget, rfl⟩, ?_⟩
  refine returns_bind.mpr ⟨(), { t with pool := q }, ?_, returns_modify.mpr rfl⟩
  exact returns_mapError.mpr (returns_zoom.mpr ⟨q, hq, rfl⟩)

end Writes

end FileTree

end Files

end KdxHotline
