import KdxHotline.Files.Agreement
import KdxHotline.Files.Ancestry

/-!
# Deleting a subtree

A delete collects the subtree below its target on a stack, checking each folder as it comes
to it, and reverses the order it came in. What it has collected is the subtree, each node
once and children before their parents, because a node is put on the stack by its parent
and by nobody else (`KdxHotline.Files.collected`). Nothing is written before all of it was
checked, so a refusal leaves the tree as it was (`KdxHotline.Files.delete_exact`).
-/

namespace KdxHotline

namespace Files

open Foundations Storage Auth

/-- The node of this id is in the subtree below `top`, which it is the top of. -/
def Below (st : TreeState) (top : Node) (i : String) : Prop :=
  ∃ n chain, st.nodes.lookup i = some n ∧ Chain st.parent rootId i chain ∧ top.id ∈ chain

/-- The session may take `top` out of its folder, and empty every folder below it: those that
have contents it may read too. -/
structure Removable (st : TreeState) (s : Session) (top parent : Node) : Prop where
  folder : checkRemoveFrom parent s = .ok ()
  below : ∀ {n}, st.nodes.lookup n.id = some n → Below st top n.id → n.kind.isFolder = true →
    checkRemoveFrom n s = .ok () ∧ (st.childNodes n.id ≠ [] → checkReadNode n s = .ok ())

/-- What a delete takes away is the subtree of its node, each node once and children before
parents, and the storage paths of just these. -/
structure Whole (st : TreeState) (doomed : FileTree.Doomed) : Prop where
  mem : ∀ i, i ∈ doomed.ordered ↔ Below st doomed.node i
  once : doomed.ordered.Nodup
  /-- No node comes after its parent. -/
  childrenFirst : doomed.ordered.Pairwise fun i j => st.parent j ≠ some i
  paths : doomed.storagePaths.Perm
    (doomed.ordered.filterMap fun i => (st.nodes.lookup i).bind Node.storagePath)

section Collecting

variable {st : TreeState} {s : Session} {top : Node} {visited : List Node}

/-- A node that is visited is one of the tree, and has the children that come with it. -/
theorem visit_children (h : WellFormed st) {n : Node} {next : List Node}
    (hn : st.nodes.lookup n.id = some n) (hnext : st.visitForDelete s n = .ok next) :
    next = st.childNodes n.id := by
  unfold TreeState.visitForDelete at hnext
  split at hnext
  case isTrue =>
    obtain ⟨_, -, hnext⟩ := checks_pass.mp hnext
    obtain ⟨_, -, hnext⟩ := checks_pass.mp hnext
    exact (Except.ok.inj hnext).symm
  case isFalse hfile =>
    obtain rfl := Except.ok.inj hnext
    refine (List.eq_nil_iff_forall_not_mem.mpr fun c hc => hfile ?_).symm
    obtain ⟨hc, hp⟩ := h.mem_childNodes.mp hc
    obtain ⟨q, hq, hfolder⟩ := h.folders hc hp
    rw [hn] at hq
    exact Option.some.inj hq ▸ hfolder

/-- What is visited is in the tree. -/
theorem found_of_visited (h : WellFormed st) (htop : st.nodes.lookup top.id = some top)
    (hvisited : explore TreeError.notFound (st.visitForDelete s) st.size [top] = .ok visited) :
    ∀ n ∈ visited, st.nodes.lookup n.id = some n := by
  refine explore_reached ?_ hvisited ?_
  · rintro a b ha ⟨next, hnext, hb⟩
    rw [visit_children h ha hnext] at hb
    exact (h.mem_childNodes.mp hb).1
  · intro n hn
    rw [List.mem_singleton.mp hn]
    exact htop

/-- **No node is visited twice**: the search visits what the search for the extent does. -/
theorem nodup_visited (h : WellFormed st) (htop : st.nodes.lookup top.id = some top)
    (hvisited : explore TreeError.notFound (st.visitForDelete s) st.size [top] = .ok visited) :
    (visited.map Node.id).Nodup := by
  have hextent : ∃ out, explore TreeError.notFound st.visitForExtent st.size
      [(top, 0, 1 + top.name.utf8ByteSize)] = .ok out ∧ out.map Prod.fst = visited := by
    refine explore_map (P := fun n => st.nodes.lookup n.id = some n) ?_ ?_ ?_ hvisited
    · rintro ⟨n, height, len⟩ next hn hnext
      refine ⟨_, rfl, ?_⟩
      rw [List.map_map, visit_children h hn hnext]
      exact List.map_id _
    · rintro a b ha ⟨next, hnext, hb⟩
      rw [visit_children h ha hnext] at hb
      exact (h.mem_childNodes.mp hb).1
    · intro v hv
      rw [List.mem_singleton.mp hv]
      exact htop
  obtain ⟨out, hout, rfl⟩ := hextent
  have hend := explore_invariant (WellFormed.ExtentInv st top) (fun seen a stack next hinv hnext => by
    obtain ⟨next', hnext', hinv'⟩ := h.extentInv_step hinv
    rw [hnext] at hnext'
    exact Except.ok.inj hnext' ▸ hinv') (WellFormed.extentInv_start htop) hout
  have hnodup := hend.noRepeat.nodup
  rw [List.append_nil, List.append_nil, List.map_reverse, List.nodup_reverse] at hnodup
  rw [List.map_map]
  exact hnodup

/-- Everything below the top of a subtree is in it. -/
theorem mem_of_below {ids : List String} (h : FileTree.Subtree st top ids) {i : String} (hi : Below st top i) :
    i ∈ ids := by
  obtain ⟨n, chain, -, hchain, htop⟩ := hi
  clear n
  induction hchain with
  | root => exact List.mem_singleton.mp htop ▸ h.mem
  | @step i p chain hp _ ih =>
    rcases List.mem_cons.mp htop with htop | htop
    · exact htop ▸ h.mem
    · obtain ⟨n, hn, hparent⟩ := Option.bind_eq_some_iff.mp hp
      exact h.down hn hparent (ih htop)

/-- **What a delete collects is the whole subtree**, children before parents. -/
theorem collected (h : WellFormed st) (htop : st.nodes.lookup top.id = some top) {parent : Node}
    {ordered paths : List String}
    (hcollect : st.collectSubtreeForDelete top s = .ok (ordered, paths)) :
    Whole st ⟨top, parent, ordered, paths⟩ := by
  have hsubtree := FileTree.collectSubtreeForDelete_ok h htop hcollect
  obtain ⟨visited, hvisited, hcollect⟩ := checks_pass.mp hcollect
  obtain ⟨rfl, rfl⟩ := Prod.mk.inj (Except.ok.inj hcollect)
  have hnodup := nodup_visited h htop hvisited
  have hfound := found_of_visited h htop hvisited
  have hbelow : ∀ n ∈ visited, Below st top n.id := by
    intro n hn
    obtain ⟨chain, hchain⟩ := h.rooted (hfound n hn)
    have hmem : n.id ∈ (visited.map Node.id).reverse :=
      List.mem_reverse.mpr (List.mem_map_of_mem hn)
    exact ⟨n, chain, hfound n hn, hchain, hsubtree.below hmem hchain⟩
  constructor
  case mem =>
    refine fun i => ⟨fun hi => ?_, mem_of_below hsubtree⟩
    obtain ⟨n, hn, rfl⟩ := List.mem_map.mp (List.mem_reverse.mp hi)
    exact hbelow n hn
  case once => exact List.nodup_reverse.mpr hnodup
  case childrenFirst =>
    refine List.pairwise_reverse.mpr (List.pairwise_map.mpr (pairwise_of_splits ?_))
    rintro pre a suf rfl b hb hparent
    have hb' : b ∈ pre ++ a :: suf := List.mem_append_right _ (List.mem_cons_of_mem _ hb)
    have ha := hfound a (List.mem_append_right _ List.mem_cons_self)
    rcases explore_order hvisited with hstart | ⟨c, hc, next, hnext, hlead⟩
    · -- the parent of the top is not below it
      rw [List.mem_singleton.mp hstart] at hparent
      obtain ⟨-, chain, -, hchain, hmem⟩ := hbelow b hb'
      exact hchain.not_mem_parent hparent hmem
    · -- what came before `a` is its parent, and so is `b` that comes after it
      have hc' : c ∈ pre ++ a :: suf := List.mem_append_left _ hc
      rw [visit_children h (hfound c hc') hnext] at hlead
      have hsame : c.id = b.id := by
        have hp := TreeState.parent_of_lookup ha
        rw [(h.mem_childNodes.mp hlead).2, hparent] at hp
        exact (Option.some.inj hp).symm
      rw [List.map_append] at hnodup
      have hdisjoint := List.nodup_append.mp hnodup
      exact hdisjoint.2.2 c.id (List.mem_map_of_mem hc) b.id
        (List.mem_map_of_mem (List.mem_cons_of_mem _ hb)) hsame
  case paths =>
    have hpaths : (visited.map Node.id).reverse.filterMap (fun i => (st.nodes.lookup i).bind
        Node.storagePath) = visited.reverse.filterMap Node.storagePath := by
      rw [← List.map_reverse, List.filterMap_map]
      refine List.filterMap_congr fun n hn => ?_
      rw [Function.comp_apply, hfound n (List.mem_reverse.mp hn), Option.bind_some]
    rw [hpaths]
    exact (List.reverse_perm visited).symm.filterMap _

/-- **Every check along the way passed.** -/
theorem checks_of_collect (h : WellFormed st) (htop : st.nodes.lookup top.id = some top)
    {ordered paths : List String}
    (hcollect : st.collectSubtreeForDelete top s = .ok (ordered, paths)) {n : Node}
    (hn : st.nodes.lookup n.id = some n) (hbelow : Below st top n.id) (hfolder : n.kind.isFolder = true) :
    checkRemoveFrom n s = .ok () ∧ (st.childNodes n.id ≠ [] → checkReadNode n s = .ok ()) := by
  have hids := mem_of_below (FileTree.collectSubtreeForDelete_ok h htop hcollect) hbelow
  obtain ⟨visited, hvisited, hcollect⟩ := checks_pass.mp hcollect
  obtain ⟨rfl, -⟩ := Prod.mk.inj (Except.ok.inj hcollect)
  obtain ⟨m, hm, hid⟩ := List.mem_map.mp (List.mem_reverse.mp hids)
  have hmfound := found_of_visited h htop hvisited m hm
  rw [hid, hn] at hmfound
  obtain rfl := Option.some.inj hmfound
  obtain ⟨next, hnext, -⟩ := (explore_closed hvisited).2 n hm
  unfold TreeState.visitForDelete at hnext
  rw [if_pos hfolder] at hnext
  obtain ⟨_, hremove, hnext⟩ := checks_pass.mp hnext
  obtain ⟨_, hread, -⟩ := checks_pass.mp hnext
  refine ⟨access_eq_ok.mp hremove, fun hfull => ?_⟩
  have hempty : (st.childNodes n.id).isEmpty = false :=
    Bool.eq_false_iff.mpr fun he => hfull (List.isEmpty_iff.mp he)
  rw [TreeState.checkContents, hempty] at hread
  exact access_eq_ok.mp hread

end Collecting

/-- What a delete checked: the node it takes, and that the session may. -/
theorem deleteTarget_ok {st : TreeState} (h : WellFormed st) {path : String} {s : Session}
    {doomed : FileTree.Doomed} (htarget : FileTree.deleteTarget st path s = .ok doomed) :
    st.resolveAs path s = .ok doomed.node ∧ st.parentOf doomed.node = .ok doomed.parent ∧
      Whole st doomed ∧ Removable st s doomed.node doomed.parent := by
  obtain ⟨top, hwalk, htarget⟩ := checks_pass.mp htarget
  obtain ⟨_, -, htarget⟩ := checks_pass.mp htarget
  obtain ⟨parent, hparent, htarget⟩ := checks_pass.mp htarget
  obtain ⟨_, -, htarget⟩ := checks_pass.mp htarget
  obtain ⟨_, hremove, htarget⟩ := checks_pass.mp htarget
  obtain ⟨_, -, htarget⟩ := checks_pass.mp htarget
  obtain ⟨⟨ordered, paths⟩, hcollect, htarget⟩ := checks_pass.mp htarget
  obtain rfl := Except.ok.inj htarget
  obtain ⟨i, hi⟩ := TreeState.walk_lookup hwalk
  have htop := h.ids hi ▸ hi
  exact ⟨hwalk, hparent, collected h htop hcollect, access_eq_ok.mp hremove,
    fun hn hbelow hfolder => checks_of_collect h htop hcollect hn hbelow hfolder⟩

/-- **A delete takes away the whole subtree of its target and nothing else**, when
the session may remove every part of it; when it may not, the tree stays as it is. -/
theorem delete_exact {t : FileTree} (h : WellFormed t.state) (path : String) (s : Session) :
    (∀ kind t', Returns (FileTree.delete path s) t kind t' →
      ∃ doomed, t.state.resolveAs path s = .ok doomed.node ∧
        t.state.parentOf doomed.node = .ok doomed.parent ∧ kind = doomed.node.kind ∧
        Whole t.state doomed ∧ Removable t.state s doomed.node doomed.parent ∧
        (∀ i, t'.state.nodes.lookup i = if i ∈ doomed.ordered then none else t.state.nodes.lookup i) ∧
        (∀ i, t'.db.row i = if i ∈ doomed.ordered then none else
          (t.db.row i).map (FileNodes.forgetAll doomed.ordered)) ∧
        t'.unlinked = t.unlinked ++ doomed.storagePaths) ∧
    ∀ top parent, t.state.resolveAs path s = .ok top → t.state.parentOf top = .ok parent →
      ¬Removable t.state s top parent → ∃ e, Fails (FileTree.delete path s) t e t := by
  constructor
  · intro kind t' hdelete
    obtain ⟨_, t₁, h₁, hdelete⟩ := returns_bind.mp hdelete
    obtain ⟨rfl, rfl⟩ := returns_get.mp h₁
    obtain ⟨doomed, t₂, h₂, hdelete⟩ := returns_bind.mp hdelete
    obtain ⟨htarget, rfl⟩ := returns_check.mp h₂
    obtain ⟨_, t₃, h₃, hdelete⟩ := returns_bind.mp hdelete
    obtain ⟨p, hwrite, rfl⟩ := returns_zoom.mp (returns_mapError.mp h₃)
    obtain ⟨_, t₄, h₄, hdelete⟩ := returns_bind.mp hdelete
    obtain rfl := returns_modify.mp h₄
    obtain ⟨_, t₅, h₅, hdelete⟩ := returns_bind.mp hdelete
    obtain rfl := returns_modify.mp h₅
    obtain ⟨rfl, rfl⟩ := returns_pure.mp hdelete
    obtain ⟨hwalk, hparent, hwhole, hremovable⟩ := deleteTarget_ok h htarget
    refine ⟨doomed, hwalk, hparent, rfl, hwhole, hremovable, fun i => ?_,
      FileNodes.returns_deleteMany hwrite, rfl⟩
    rw [FileTree.unlist_nodes, FileTree.removeAll_lookup]
    rfl
  · intro top parent hwalk hparent hrefused
    -- the checks come before the statement, so a refusal fails there with nothing changed
    cases htarget : FileTree.deleteTarget t.state path s with
    | error e =>
      refine ⟨e, fails_bind.mpr (.inr ⟨t, t, returns_get.mpr ⟨rfl, rfl⟩, ?_⟩)⟩
      exact fails_bind.mpr (.inl (fails_check.mpr ⟨htarget, rfl⟩))
    | ok doomed =>
      obtain ⟨hwalk', hparent', -, hremovable⟩ := deleteTarget_ok h htarget
      obtain rfl := Except.ok.inj (hwalk.symm.trans hwalk')
      obtain rfl := Except.ok.inj (hparent.symm.trans hparent')
      exact absurd hremovable hrefused

/-! ### A folder with a drop box in it -/

namespace Emptied

/-- A session that sees into drop boxes. -/
def admin : Session := ⟨"admin", .admin, Privileges.all⟩

/-- A session that does not. -/
def visitor : Session := ⟨"visitor", .user, Privileges.all⟩

/-- A folder. -/
def staff : Node :=
  ⟨"s", some rootId, "staff", .directory, 0, none, .guest, .guest, none, none, .default_, none⟩

/-- The drop box in it. -/
def box : Node :=
  ⟨"b", some "s", "box", .dropBox, 0, none, .guest, .guest, none, none, .default_, none⟩

/-- The tree with the two of them. -/
def tree : FileTree :=
  (FileTree.fresh []).after [.createFolder "s" "/" "staff" .directory .guest .guest none admin,
    .createFolder "b" "/staff" "box" .dropBox .guest .guest none admin]

theorem wellFormed_tree : WellFormed tree.state :=
  ((sound_fresh []).run (FileTree.run_after (by decide +kernel))).wellFormed

theorem lookup_box : tree.state.nodes.lookup "b" = some box := by decide +kernel

theorem lookup_staff : tree.state.nodes.lookup "s" = some staff := by decide +kernel

theorem below_staff : Below tree.state staff "b" :=
  ⟨box, ["b", "s", rootId], lookup_box,
    .step (TreeState.parent_of_lookup lookup_box)
      (.step (TreeState.parent_of_lookup lookup_staff) (.root (by decide +kernel))), by decide⟩

theorem staff_deleted : outcome (FileTree.delete "/staff" admin) tree = .ok .directory := by
  decide +kernel

end Emptied

open Emptied in
/-- The administrator takes the folder away with the box in it, and a visitor whom the
folder would let, but not the box, takes nothing. -/
theorem delete_exact_staff :
    (∃ t', Returns (FileTree.delete "/staff" admin) tree .directory t' ∧
      t'.state.nodes.lookup "b" = none) ∧
    ∃ e, Fails (FileTree.delete "/staff" visitor) tree e tree := by
  constructor
  · have hreturns : Returns (FileTree.delete "/staff" admin) tree .directory
        (leaves (FileTree.delete "/staff" admin) tree) := by
      have hends := ends_leaves (FileTree.delete "/staff" admin) tree
      rw [staff_deleted] at hends
      exact hends
    obtain ⟨hdeletes, -⟩ := delete_exact wellFormed_tree "/staff" admin
    obtain ⟨doomed, hwalk, -, -, hwhole, -, hnodes, -⟩ := hdeletes _ _ hreturns
    have hstaff : tree.state.resolveAs "/staff" admin = .ok staff := by decide +kernel
    have hnode : doomed.node = staff := Except.ok.inj (hwalk.symm.trans hstaff)
    refine ⟨_, hreturns, ?_⟩
    rw [hnodes "b", if_pos ((hwhole.mem "b").mpr (hnode ▸ below_staff))]
  · obtain ⟨-, hrefused⟩ := delete_exact wellFormed_tree "/staff" visitor
    refine hrefused staff freshRoot (by decide +kernel) (by decide +kernel) fun hremovable => ?_
    obtain ⟨hbox, -⟩ := hremovable.below (n := box) lookup_box below_staff rfl
    exact absurd hbox (by decide)

end Files

end KdxHotline
