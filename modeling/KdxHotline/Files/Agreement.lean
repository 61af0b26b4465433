import KdxHotline.Files.Effects
import KdxHotline.Foundations.Runs

/-!
# The maps and the table agree

The tree is kept twice, in memory and in the table it is loaded from at startup.
`KdxHotline.Files.Sound` is what every operation keeps: the maps are a tree
(`KdxHotline.Files.WellFormed`), and the table holds a row for each node and no
other. One difference remains: the table sets the target of an alias to null when
the target is deleted, while the alias in memory goes on naming an id that is
gone (`KdxHotline.Files.SameUpToDangling`).

Whatever the operations, and whichever of their statements fail, reading the
table again yields the tree in memory (`KdxHotline.Files.sound_run`).
-/

namespace KdxHotline

namespace Files

open Foundations Storage Auth Limits

/-- `n'` is `n`, except that an alias whose target is gone may have lost it. -/
def SameUpToDangling (st : TreeState) (n n' : Node) : Prop :=
  n' = n ∨ n' = { n with targetId := none } ∧ ∃ t, n.targetId = some t ∧ st.nodes.lookup t = none

/-- The row stands for the node in memory. -/
def Stored (st : TreeState) (n : Node) (row : FileNodeRow) : Prop :=
  ∃ n', nodeFromRow row = .ok n' ∧ SameUpToDangling st n n'

/-- The table holds a row for each node in memory and no other. -/
structure Agrees (st : TreeState) (db : FileTable) : Prop where
  row : ∀ {i n}, st.nodes.lookup i = some n → ∃ row, db.row i = some row ∧ Stored st n row
  node : ∀ {i row}, db.row i = some row → ∃ n, st.nodes.lookup i = some n

/-- What every operation keeps. -/
structure Sound (t : FileTree) : Prop where
  wellFormed : WellFormed t.state
  agrees : Agrees t.state t.db

/-- Two trees are the same, up to the targets that dangle in the first and the
order in which children are listed. -/
structure SameTree (st st' : TreeState) : Prop where
  nodes : ∀ i, Option.Rel (SameUpToDangling st) (st.nodes.lookup i) (st'.nodes.lookup i)
  children : ∀ p, (st.childIds p).Perm (st'.childIds p)

/-! ### Rows and the nodes they stand for -/

section Rows

variable {st st' : TreeState} {n n' : Node} {row : FileNodeRow}

theorem nodeFromRow_fields (h : nodeFromRow row = .ok n) :
    n.id = row.id ∧ n.parentId = row.parentId ∧ n.name = row.name ∧ n.targetId = row.targetId := by
  obtain ⟨kind, -, h⟩ := checks_pass.mp h
  cases h
  exact ⟨rfl, rfl, rfl, rfl⟩

theorem nodeFromRow_target (h : nodeFromRow row = .ok n) (t : Option String) :
    nodeFromRow { row with targetId := t } = .ok { n with targetId := t } := by
  obtain ⟨kind, hkind, h⟩ := checks_pass.mp h
  cases h
  simp only [nodeFromRow, hkind]
  rfl

theorem nodeFromRow_parent (h : nodeFromRow row = .ok n) (p : Option String) :
    nodeFromRow { row with parentId := p } = .ok { n with parentId := p } := by
  obtain ⟨kind, hkind, h⟩ := checks_pass.mp h
  cases h
  simp only [nodeFromRow, hkind]
  rfl

/-- What a row says of a node apart from its target. -/
theorem Stored.fields (h : Stored st n row) :
    n.id = row.id ∧ n.parentId = row.parentId ∧ n.name = row.name := by
  obtain ⟨n', hn', rfl | ⟨rfl, -⟩⟩ := h
  · obtain ⟨hid, hp, hname, -⟩ := nodeFromRow_fields hn'
    exact ⟨hid, hp, hname⟩
  · obtain ⟨hid, hp, hname, -⟩ := nodeFromRow_fields hn'
    exact ⟨hid, hp, hname⟩

/-- A target that dangles in one tree may dangle in another. -/
theorem Stored.mono (h : Stored st n row)
    (hgone : ∀ t, n.targetId = some t → st.nodes.lookup t = none → st'.nodes.lookup t = none) :
    Stored st' n row := by
  obtain ⟨n', hn', hsame⟩ := h
  refine ⟨n', hn', hsame.imp_right fun ⟨hn, t, ht, hlost⟩ => ⟨hn, t, ht, hgone t ht hlost⟩⟩

/-- A row whose target was deleted still stands for its node. -/
theorem Stored.forget (h : Stored st n row) {t : String} (ht : row.targetId = some t)
    (hgone : st'.nodes.lookup t = none) : Stored st' n { row with targetId := none } := by
  obtain ⟨n', hn', rfl | ⟨rfl, -⟩⟩ := h
  · refine ⟨_, nodeFromRow_target hn' none, .inr ⟨rfl, t, ?_, hgone⟩⟩
    rw [(nodeFromRow_fields hn').2.2.2, ht]
  · -- a row that has lost its target has none to lose
    have hnone := (nodeFromRow_fields hn').2.2.2
    rw [ht] at hnone
    cases hnone

/-- Forgetting some targets takes each of them from a row. -/
theorem forgetAll_eq : ∀ {ids : List String} {row : FileNodeRow},
    FileNodes.forgetAll ids row =
      if ∃ t ∈ ids, row.targetId = some t then { row with targetId := none } else row
  | [], row => by simp [FileNodes.forgetAll]
  | id :: ids, row => by
    have hstep : FileNodes.forgetAll (id :: ids) row =
        FileNodes.forgetAll ids (FileNodes.forget id row) := rfl
    rw [hstep, forgetAll_eq, FileNodes.forget]
    by_cases hid : row.targetId = some id
    · simp [hid]
    · simp [hid]

end Rows

/-! ### Loading -/

section Loading

variable {st st' : TreeState} {n : Node} {row : FileNodeRow} {rows : List FileNodeRow} {i p : String}

/-- Entering the rows one after another gives each of them its node, and leaves
the nodes of other ids alone. -/
theorem loadRows_lookup : ∀ {rows : List FileNodeRow} {st : TreeState},
    UniqueKey FileNodeRow.id rows → FileTree.loadRows st rows = .ok st' →
      (∀ row ∈ rows, ∃ n, nodeFromRow row = .ok n ∧ st'.nodes.lookup row.id = some n) ∧
        ∀ i, (∀ row ∈ rows, row.id ≠ i) → st'.nodes.lookup i = st.nodes.lookup i
  | [], st, _, h => by
    cases h
    simp
  | row :: rows, st, hkey, h => by
    obtain ⟨n, hn, h⟩ := checks_pass.mp h
    obtain ⟨hnew, hrest⟩ := List.nodup_cons.mp hkey
    obtain ⟨hin, hout⟩ := loadRows_lookup hrest h
    have hid := (nodeFromRow_fields hn).1
    refine ⟨fun r hr => ?_, fun i hi => ?_⟩
    · rcases List.mem_cons.mp hr with rfl | hr
      · refine ⟨n, hn, ?_⟩
        rw [hout r.id fun r' hr' he => hnew (he ▸ List.mem_map_of_mem hr'),
          TreeState.insertInMemory_lookup, if_pos hid.symm]
      · exact hin r hr
    · rw [hout i fun r hr => hi r (List.mem_cons_of_mem _ hr), TreeState.insertInMemory_lookup,
        if_neg fun he => hi row List.mem_cons_self (hid ▸ he.symm)]

/-- What is loaded lies in its folder in the order of the rows. -/
theorem loadRows_childIds : ∀ {rows : List FileNodeRow} {st : TreeState},
    FileTree.loadRows st rows = .ok st' →
      st'.childIds p = st.childIds p ++ (rows.filter fun r => r.parentId = some p).map FileNodeRow.id
  | [], st, h => by
    cases h
    simp
  | row :: rows, st, h => by
    obtain ⟨n, hn, h⟩ := checks_pass.mp h
    obtain ⟨hid, hp, -, -⟩ := nodeFromRow_fields hn
    rw [loadRows_childIds h, TreeState.insertInMemory_childIds, hid, hp]
    by_cases hparent : row.parentId = some p <;> simp [hparent]

/-- Rows of known kinds can be loaded. -/
theorem loadRows_total : ∀ {rows : List FileNodeRow} {st : TreeState},
    (∀ row ∈ rows, ∃ n, nodeFromRow row = .ok n) → ∃ st', FileTree.loadRows st rows = .ok st'
  | [], st, _ => ⟨st, rfl⟩
  | row :: rows, st, h => by
    obtain ⟨n, hn⟩ := h row List.mem_cons_self
    obtain ⟨st', hst'⟩ := @loadRows_total rows (st.insertInMemory n) fun r hr =>
      h r (List.mem_cons_of_mem _ hr)
    exact ⟨st', checks_pass.mpr ⟨n, hn, hst'⟩⟩

variable {db : FileTable}

theorem load_lookup (h : FileTree.load db = .ok st) :
    (∀ i row, db.row i = some row → ∃ n, nodeFromRow row = .ok n ∧ st.nodes.lookup i = some n) ∧
      ∀ i, db.row i = none → st.nodes.lookup i = none := by
  obtain ⟨hin, hout⟩ := loadRows_lookup db.rows_id h
  refine ⟨fun i row hrow => ?_, fun i hnone => ?_⟩
  · obtain ⟨hmem, rfl⟩ := FileTable.row_eq_some.mp hrow
    exact hin row hmem
  · rw [hout i (FileTable.row_eq_none.mp hnone)]
    exact Finmap.lookup_empty i

/-- **A tree that was just loaded agrees with its table.** -/
theorem agrees_load (h : FileTree.load db = .ok st) : Agrees st db := by
  obtain ⟨hin, hout⟩ := load_lookup h
  constructor
  case row =>
    intro i n hn
    cases hrow : db.row i with
    | none =>
      rw [hout i hrow] at hn
      cases hn
    | some row =>
      obtain ⟨n', hn', hlookup⟩ := hin i row hrow
      obtain rfl : n' = n := Option.some.inj (hlookup.symm.trans hn)
      exact ⟨row, rfl, n', hn', .inl rfl⟩
  case node =>
    intro i row hrow
    obtain ⟨n, -, hn⟩ := hin i row hrow
    exact ⟨n, hn⟩

/-- **A table that agrees with a tree loads to the same tree.** -/
theorem Agrees.load (h : Agrees st db) (hwf : WellFormed st) :
    ∃ st', FileTree.load db = .ok st' ∧ SameTree st st' := by
  -- every row reads back as a node, so no row can stop the loading
  have hknown : ∀ row ∈ db.rows, ∃ n, nodeFromRow row = .ok n := by
    intro row hrow
    have hfound := FileTable.row_eq_some.mpr ⟨hrow, rfl⟩
    obtain ⟨n, hn⟩ := h.node hfound
    obtain ⟨row', hrow', n', hn', -⟩ := h.row hn
    rw [hfound] at hrow'
    cases hrow'
    exact ⟨n', hn'⟩
  obtain ⟨st', hst'⟩ := @loadRows_total db.rows ⟨∅, ∅⟩ hknown
  obtain ⟨hin, hout⟩ := load_lookup hst'
  refine ⟨st', hst', fun i => ?_, fun p => ?_⟩
  · cases hn : st.nodes.lookup i with
    | none =>
      have hnone : db.row i = none := by
        cases hrow : db.row i with
        | none => rfl
        | some row =>
          obtain ⟨n, hn'⟩ := h.node hrow
          rw [hn] at hn'
          cases hn'
      rw [hout i hnone]
      exact .none
    | some n =>
      obtain ⟨row, hrow, n', hn', hsame⟩ := h.row hn
      obtain ⟨n'', hn'', hlookup⟩ := hin i row hrow
      rw [hn'] at hn''
      cases hn''
      rw [hlookup]
      exact .some hsame
  · -- both lists hold the ids of the nodes below `p`, each once
    have hchildren : st'.childIds p = (db.rows.filter fun r => r.parentId = some p).map FileNodeRow.id := by
      rw [loadRows_childIds hst']
      simp [TreeState.childIds]
    rw [hchildren]
    refine (List.perm_ext_iff_of_nodup (hwf.children_nodup p) (db.rows_id.filter _)).mpr fun c => ?_
    rw [hwf.children, List.mem_map]
    constructor
    · rintro ⟨n, hn, hp⟩
      obtain ⟨row, hrow, hstored⟩ := h.row hn
      obtain ⟨hmem, hid⟩ := FileTable.row_eq_some.mp hrow
      refine ⟨row, List.mem_filter.mpr ⟨hmem, ?_⟩, hid⟩
      simpa [← hstored.fields.2.1] using hp
    · rintro ⟨row, hmem, rfl⟩
      obtain ⟨hmem, hp⟩ := List.mem_filter.mp hmem
      have hfound := FileTable.row_eq_some.mpr ⟨hmem, rfl⟩
      obtain ⟨n, hn⟩ := h.node hfound
      obtain ⟨row', hrow', hstored⟩ := h.row hn
      rw [hfound] at hrow'
      cases hrow'
      exact ⟨n, hn, hstored.fields.2.1.trans (by simpa using hp)⟩

end Loading

/-! ### Steps -/

/-- The id an operation draws is not one that a dangling alias still names. -/
def Operation.FreshIn (op : Operation) (t : FileTree) : Prop :=
  ∀ id, op.newId = some id → ∀ {i n}, t.state.nodes.lookup i = some n → n.targetId ≠ some id

namespace FileTree

/-- An operation on the tree: it returns or it fails, at whatever point. -/
def Step (t : FileTree) (op : Operation) (t' : FileTree) : Prop :=
  op.FreshIn t ∧ (Returns op.run t () t' ∨ ∃ e, Fails op.run t e t')

end FileTree

section Steps

variable {t t' : FileTree} {node parent : Node}

/-- **A creation keeps the tree sound.** -/
theorem Sound.added (h : Sound t) (hadd : FileTree.Added t node parent t')
    (hfresh : ∀ {i n}, t.state.nodes.lookup i = some n → n.targetId ≠ some node.id) : Sound t' := by
  obtain ⟨hwf, hagrees⟩ := h
  obtain ⟨row, hnode, hinsert⟩ := hadd.row
  obtain ⟨hid, hp, hname, -⟩ := nodeFromRow_fields hnode
  obtain ⟨-, hfree, hrows, hdistinct⟩ := FileNodes.insert_row hinsert
  have hnew : t.state.nodes.lookup node.id = none := by
    cases hn : t.state.nodes.lookup node.id with
    | none => rfl
    | some n =>
      obtain ⟨r, hr, -⟩ := hagrees.row hn
      rw [hid, hfree] at hr
      cases hr
  have hlookup : ∀ i, t'.state.nodes.lookup i =
      if i = node.id then some node else t.state.nodes.lookup i := by
    rw [hadd.state]
    exact TreeState.insertInMemory_lookup _ _
  constructor
  case wellFormed =>
    rw [hadd.state]
    -- the unique index of the table is what keeps names apart in memory
    refine hwf.insert hnew hadd.parentId hadd.folder.1 hadd.folder.2 ?_ hadd.plain ?_ hfresh ?_
    · intro i n hn hpn
      obtain ⟨r, hr, hstored⟩ := hagrees.row hn
      obtain ⟨-, hrp, hrname⟩ := hstored.fields
      rw [hrname, hname]
      refine hdistinct r (FileTable.row_eq_some.mp hr).1 ?_ ?_
      · rw [← hp, hadd.parentId]
        rfl
      · rw [← hrp, hpn, ← hp, hadd.parentId]
    · intro target m ht hm
      obtain ⟨source, hsource, hkind⟩ := hadd.target ht
      rw [hsource] at hm
      cases hm
      exact hkind
    · intro hself
      obtain ⟨source, hsource, -⟩ := hadd.target hself
      rw [hnew] at hsource
      cases hsource
  case agrees =>
    constructor
    case row =>
      intro i n hn
      rw [hlookup] at hn
      rw [hrows]
      by_cases hi : i = node.id
      · rw [if_pos hi] at hn
        cases hn
        exact ⟨row, if_pos (hi.trans hid), _, hnode, .inl rfl⟩
      · rw [if_neg hi] at hn
        rw [if_neg fun he => hi (he.trans hid.symm)]
        obtain ⟨r, hr, hstored⟩ := hagrees.row hn
        refine ⟨r, hr, hstored.mono fun target ht hgone => ?_⟩
        rw [hlookup, if_neg, hgone]
        rintro rfl
        exact hfresh hn ht
    case node =>
      intro i r hr
      rw [hrows] at hr
      rw [hlookup]
      by_cases hi : i = node.id
      · exact ⟨node, if_pos hi⟩
      · rw [if_neg fun he => hi (he.trans hid.symm)] at hr
        rw [if_neg hi]
        exact hagrees.node hr

/-- **Taking the same nodes out of the maps and the table keeps them in
agreement**, when every row that is left forgets them as targets. -/
theorem Agrees.remove {st st' : TreeState} {db db' : FileTable} {ids : List String}
    (h : Agrees st db)
    (hlookup : ∀ i, st'.nodes.lookup i = if i ∈ ids then none else st.nodes.lookup i)
    (hrows : ∀ i, db'.row i = if i ∈ ids then none else (db.row i).map (FileNodes.forgetAll ids)) :
    Agrees st' db' := by
  have hgone : ∀ t, st.nodes.lookup t = none → st'.nodes.lookup t = none := by
    intro t ht
    rw [hlookup, ht, ite_self]
  constructor
  case row =>
    intro i n hn
    rw [hlookup] at hn
    rw [hrows]
    split at hn
    · cases hn
    · rename_i hi
      obtain ⟨row, hrow, hstored⟩ := h.row hn
      refine ⟨_, by rw [if_neg hi, hrow, Option.map_some], ?_⟩
      rw [forgetAll_eq]
      split
      · rename_i hlost
        obtain ⟨t, ht, htarget⟩ := hlost
        exact hstored.forget htarget (by rw [hlookup, if_pos ht])
      · exact hstored.mono fun t _ => hgone t
  case node =>
    intro i row hrow
    rw [hrows] at hrow
    rw [hlookup]
    split at hrow
    · cases hrow
    · rename_i hi
      obtain ⟨r, hr, -⟩ := Option.map_eq_some_iff.mp hrow
      rw [if_neg hi]
      exact h.node hr

/-- **A delete keeps the tree sound.** -/
theorem Sound.delete (h : Sound t) {path : String} {s : Session} {kind : NodeKind}
    (hret : Returns (FileTree.delete path s) t kind t') : Sound t' := by
  obtain ⟨top, p, ordered, htop, hp, hroot, hsub, hstate, hrows⟩ :=
    FileTree.delete_returns h.wellFormed hret
  have hwf := h.wellFormed
  have hlink := (TreeState.parent_of_lookup htop).trans hp
  obtain ⟨f, hf, -⟩ := hwf.folders htop hp
  obtain ⟨chain, hchain⟩ := hwf.rooted hf
  have hpnot : p ∉ ordered := fun hmem => hchain.not_mem_parent hlink (hsub.below hmem hchain)
  have hlookup : ∀ i, t'.state.nodes.lookup i =
      if i ∈ ordered then none else t.state.nodes.lookup i := by
    intro i
    rw [hstate, FileTree.unlist_nodes, FileTree.removeAll_lookup]
  refine ⟨hwf.remove ?_ hsub.down hsub.up hlink hsub.mem hpnot hlookup fun q => ?_,
    h.agrees.remove hlookup hrows⟩
  · intro hmem
    obtain ⟨r, hr, hrp, -⟩ := hwf.root
    have hbelow := hsub.below hmem (.root ((TreeState.parent_of_lookup hr).trans hrp))
    exact hroot (List.mem_singleton.mp hbelow)
  · rw [hstate, FileTree.unlist_childIds, FileTree.removeAll_childIds, FileTree.removeAll_childIds,
      if_neg hpnot]
    by_cases hq : q = p
    · subst hq
      rw [if_pos rfl, if_neg hpnot, if_pos rfl]
    · rw [if_neg hq, if_neg hq]

/-- **Taking a file entry out keeps the tree sound.** -/
theorem Sound.removeFileNode (h : Sound t) {id : String}
    (hret : Returns (FileTree.removeFileNode id) t () t') : Sound t' := by
  have hwf := h.wellFormed
  rcases FileTree.removeFileNode_returns hret with ⟨hstate, hdb⟩ | ⟨node, hnode, hkind, hstate, hrow⟩
  · exact ⟨hstate ▸ hwf, by rw [hstate, hdb]; exact h.agrees⟩
  · have hrows : ∀ i, t'.db.row i = if i ∈ [id] then none else
        (t.db.row i).map (FileNodes.forgetAll [id]) := by
      rcases hrow with hrow | ⟨hnone, -⟩
      · intro i
        rw [hrow i]
        simp only [List.mem_singleton]
        rfl
      · obtain ⟨r, hr, -⟩ := h.agrees.row hnode
        rw [hnone] at hr
        cases hr
    -- a file is not the root, so it hangs below a folder, and nothing below it
    have hne : id ≠ rootId := by
      rintro rfl
      obtain ⟨r, hr, -, hfolder⟩ := hwf.root
      rw [hnode] at hr
      cases hr
      rw [hkind] at hfolder
      cases hfolder
    have hchild : ∀ {i n}, t.state.nodes.lookup i = some n → n.parentId ≠ some id := by
      intro i n hn hp
      obtain ⟨q, hq, hfolder⟩ := hwf.folders hn hp
      rw [hnode] at hq
      cases hq
      rw [hkind] at hfolder
      cases hfolder
    cases hp : node.parentId with
    | none => exact absurd (hwf.eq_root hnode hp) hne
    | some p =>
      rw [hp, Option.elim_some] at hstate
      have hlookup : ∀ i, t'.state.nodes.lookup i =
          if i ∈ [id] then none else t.state.nodes.lookup i := by
        intro i
        rw [hstate, FileTree.unlist_nodes]
        by_cases hi : i = id
        · subst hi
          simp
        · simp [hi]
      have hpnot : p ≠ id := fun he => hchild hnode (hp.trans (congrArg some he))
      have hempty : t.state.childIds id = [] := by
        refine List.eq_nil_iff_forall_not_mem.mpr fun c hc => ?_
        obtain ⟨n, hn, hpn⟩ := hwf.children.mp hc
        exact hchild hn hpn
      refine ⟨hwf.remove (by simpa using hne.symm) ?_ ?_
        ((TreeState.parent_of_lookup hnode).trans hp) (by simp) (by simpa using hpnot) hlookup ?_,
        h.agrees.remove hlookup hrows⟩
      · intro i n q hn hq hmem
        rw [List.mem_singleton] at hmem
        exact absurd (hmem ▸ hq) (hchild hn)
      · intro i n hi _ hx
        exact absurd (List.mem_singleton.mp hi) hx
      · intro q
        rw [hstate, FileTree.unlist_childIds]
        show (if q = p then (t.state.childIds p).filter (· ≠ id) else t.state.childIds q) = _
        by_cases hq : q = id
        · subst hq
          rw [if_neg (Ne.symm hpnot), hempty]
          simp
        · simp [hq]

/-- **A move keeps the tree sound.** -/
theorem Sound.moveNode (h : Sound t) {path destPath : String} {s : Session}
    (hret : Returns (FileTree.moveNode path destPath s) t () t') : Sound t' := by
  have hwf := h.wellFormed
  obtain ⟨node, p, dest, chain, height, relLen, hnode, hp, hdest, hfolder, hchain, hcycle, -, -,
    hstate, -, hrows⟩ := FileTree.moveNode_returns hwf hret
  obtain ⟨hup, -⟩ := hwf.climb_chain hdest hchain
  have hlookup : ∀ i, t'.state.nodes.lookup i =
      if i = node.id then some { node with parentId := some dest.id }
      else t.state.nodes.lookup i := by
    intro i
    rw [hstate, FileTree.moveInMemory_lookup hnode]
  have hgone : ∀ t₀, t.state.nodes.lookup t₀ = none → t'.state.nodes.lookup t₀ = none := by
    intro t₀ ht₀
    rw [hlookup, if_neg, ht₀]
    rintro rfl
    rw [hnode] at ht₀
    cases ht₀
  have hmoved : ∀ {i row}, i = node.id → t.db.row i = some row →
      t'.db.row i = some { row with parentId := some dest.id } := by
    intro i row hi hrow
    rw [hrows, if_pos hi, hrow, Option.map_some]
  constructor
  case wellFormed =>
    refine hwf.move hnode hp hdest hfolder hup ?_ ?_ hlookup fun q => ?_
    · rintro hmem
      obtain ⟨n, hn, hid⟩ := List.mem_map.mp hmem
      exact hcycle n hn hid
    · -- the table keeps the names below the new parent apart
      intro i k hk hpk hname
      by_cases hi : i = node.id
      · exact hi
      obtain ⟨row, hrow, hstored⟩ := h.agrees.row hnode
      obtain ⟨row', hrow', hstored'⟩ := h.agrees.row hk
      have hafter := hmoved rfl hrow
      have hafter' : t'.db.row i = some row' := by rw [hrows, if_neg hi, hrow']
      obtain ⟨hid, -, hn⟩ := hstored.fields
      obtain ⟨hid', hp', hn'⟩ := hstored'.fields
      obtain ⟨hmem, -⟩ := FileTable.row_eq_some.mp hafter
      obtain ⟨hmem', -⟩ := FileTable.row_eq_some.mp hafter'
      have hsame := t'.db.rows_name _ hmem' _ hmem (by rw [← hp', hpk]; rfl)
        (by rw [← hp', hpk]) (by rw [← hn', hname, hn])
      rw [← hwf.ids hk, hid', hsame, hid]
    · rw [hstate, FileTree.moveInMemory_childIds hnode hp]
  case agrees =>
    constructor
    case row =>
      intro i n hn
      rw [hlookup] at hn
      by_cases hi : i = node.id
      · rw [if_pos hi] at hn
        cases hn
        obtain ⟨row, hrow, n', hn', hsame⟩ := h.agrees.row hnode
        refine ⟨_, hmoved hi (hi ▸ hrow), _, nodeFromRow_parent hn' _, ?_⟩
        -- the row of an alias may have lost its target, which the move does not bring back
        rcases hsame with rfl | ⟨rfl, target, ht, hlost⟩
        · exact .inl rfl
        · exact .inr ⟨rfl, target, ht, hgone target hlost⟩
      · rw [if_neg hi] at hn
        rw [hrows, if_neg hi]
        obtain ⟨row, hrow, hstored⟩ := h.agrees.row hn
        exact ⟨row, hrow, hstored.mono fun t₀ _ => hgone t₀⟩
    case node =>
      intro i row hrow
      rw [hlookup]
      split
      · exact ⟨_, rfl⟩
      · rename_i hi
        rw [hrows, if_neg hi] at hrow
        exact h.agrees.node hrow

/-- **Every operation keeps the tree sound.** -/
theorem Sound.step {op : Operation} (h : Sound t) (hstep : FileTree.Step t op t') : Sound t' := by
  obtain ⟨hfresh, hret | ⟨e, hfail⟩⟩ := hstep
  · have hadded : ∀ {id}, op.newId = some id → (∃ node parent, FileTree.Added t node parent t' ∧
        node.id = id) → Sound t' := by
      rintro id hid ⟨node, parent, hadd, rfl⟩
      exact h.added hadd (hfresh _ hid)
    cases op with
    | createFolder id parentPath name kind r w owner s =>
      obtain ⟨node, t₁, h₁, h₂⟩ := returns_bind.mp hret
      obtain ⟨-, rfl⟩ := returns_pure.mp h₂
      obtain ⟨parent, hadd, hid, -⟩ := FileTree.createFolder_returns h.wellFormed h₁
      exact hadded rfl ⟨node, parent, hadd, hid⟩
    | createAlias id sourcePath destPath s =>
      obtain ⟨node, t₁, h₁, h₂⟩ := returns_bind.mp hret
      obtain ⟨-, rfl⟩ := returns_pure.mp h₂
      obtain ⟨parent, hadd, hid, -⟩ := FileTree.createAlias_returns h.wellFormed h₁
      exact hadded rfl ⟨node, parent, hadd, hid⟩
    | addFile id parentId name size sha256 storagePath =>
      obtain ⟨node, t₁, h₁, h₂⟩ := returns_bind.mp hret
      obtain ⟨-, rfl⟩ := returns_pure.mp h₂
      obtain ⟨parent, hadd, hid, -⟩ := FileTree.fileEntry_returns h.wellFormed h₁
      exact hadded rfl ⟨node, parent, hadd, hid⟩
    | addFileRenaming id parentId name size sha256 storagePath reserved =>
      obtain ⟨node, t₁, h₁, h₂⟩ := returns_bind.mp hret
      obtain ⟨-, rfl⟩ := returns_pure.mp h₂
      obtain ⟨parent, hadd, hid, -⟩ := FileTree.fileEntry_returns h.wellFormed h₁
      exact hadded rfl ⟨node, parent, hadd, hid⟩
    | delete path s =>
      obtain ⟨kind, t₁, h₁, h₂⟩ := returns_bind.mp hret
      obtain ⟨-, rfl⟩ := returns_pure.mp h₂
      exact h.delete h₁
    | moveNode path destPath s => exact h.moveNode hret
    | removeFileNode id => exact h.removeFileNode hret
  · have hsame := op.run_atomic.fails hfail
    obtain ⟨hstate, hdb⟩ := Prod.mk.inj hsame
    exact ⟨hstate ▸ h.wellFormed, by rw [hstate, FileTree.db, hdb]; exact h.agrees⟩

/-- **Every run of operations keeps the tree sound.** -/
theorem Sound.run {ops : List Operation} (h : Sound t) (hrun : Run FileTree.Step t ops t') :
    Sound t' := hrun.invariant Sound (fun _ _ _ hs hstep => hs.step hstep) h

end Steps

/-! ### Running a list of operations -/

section After

/-- Whether the id an operation draws is fresh. -/
def Operation.drawsFresh (op : Operation) (t : FileTree) : Bool :=
  op.newId.all fun id =>
    decide (∀ i ∈ t.state.nodes.keys, (t.state.nodes.lookup i).bind Node.targetId ≠ some id)

theorem Operation.freshIn_of_drawsFresh {op : Operation} {t : FileTree}
    (h : op.drawsFresh t = true) : op.FreshIn t := by
  intro id hid i n hn ht
  rw [Operation.drawsFresh, hid, Option.all_some, decide_eq_true_eq] at h
  refine h i (Finmap.mem_keys.mpr (Finmap.mem_of_lookup_eq_some hn)) ?_
  rw [hn, Option.bind_some, ht]

namespace FileTree

/-- What a list of operations leaves. -/
def after : FileTree → List Operation → FileTree
  | t, [] => t
  | t, op :: ops => after (leaves op.run t) ops

/-- Whether every operation of a list draws a fresh id. -/
def drawFresh : FileTree → List Operation → Bool
  | _, [] => true
  | t, op :: ops => op.drawsFresh t && drawFresh (leaves op.run t) ops

theorem run_after : ∀ {ops : List Operation} {t : FileTree}, t.drawFresh ops = true →
    Run Step t ops (t.after ops)
  | [], t, _ => .nil t
  | op :: ops, t, h => by
    obtain ⟨hop, hops⟩ := Bool.and_eq_true_iff.mp h
    refine .cons ⟨Operation.freshIn_of_drawsFresh hop, ?_⟩ (run_after hops)
    rcases hr : op.run.run t with ⟨⟨⟩, u⟩ | ⟨e, u⟩
    · exact .inl (by simp [Returns, leaves, hr])
    · exact .inr ⟨e, by simp [Fails, leaves, hr]⟩

end FileTree

end After

/-! ### From a freshly loaded tree -/

/-- The root of a fresh database. -/
def freshRoot : Node where
  id := rootId
  parentId := none
  name := ""
  kind := .directory
  size := 0
  sha256 := none
  minClassRead := .guest
  minClassWrite := .powerUser
  storagePath := none
  targetId := none
  accessItem := .default_
  owner := none

/-- The maps of a fresh database: the root alone. -/
def TreeState.fresh : TreeState := TreeState.insertInMemory ⟨∅, ∅⟩ freshRoot

theorem load_fresh : FileTree.load FileTable.fresh = .ok TreeState.fresh := by
  have hnode : nodeFromRow ⟨rootId, none, "", 0, 0, none, 0, 2, none, none, none⟩ = .ok freshRoot := by
    decide
  simp only [FileTree.load, FileTable.fresh, FileTree.loadRows, hnode]
  rfl

/-- The tree at the start. -/
theorem wellFormed_fresh : WellFormed TreeState.fresh := by
  have hlookup : ∀ i n, TreeState.fresh.nodes.lookup i = some n ↔ i = rootId ∧ n = freshRoot := by
    intro i n
    rw [TreeState.fresh, TreeState.insertInMemory_lookup]
    by_cases hi : i = rootId
    · simp [hi, freshRoot, eq_comm]
    · simp [hi, freshRoot]
  have hchildIds : ∀ p, TreeState.fresh.childIds p = [] := by
    intro p
    rw [TreeState.fresh, TreeState.insertInMemory_childIds]
    simp [freshRoot, TreeState.childIds]
  constructor
  case ids =>
    rintro i n hn
    obtain ⟨rfl, rfl⟩ := (hlookup i n).mp hn
    rfl
  case root => exact ⟨freshRoot, (hlookup _ _).mpr ⟨rfl, rfl⟩, rfl, rfl⟩
  case rooted =>
    rintro i n hn
    obtain ⟨rfl, rfl⟩ := (hlookup i n).mp hn
    exact ⟨[rootId], .root (TreeState.parent_of_lookup hn)⟩
  case folders =>
    rintro i n p hn hp
    obtain ⟨rfl, rfl⟩ := (hlookup i n).mp hn
    cases hp
  case names =>
    rintro i j n m p hn hm - - -
    exact ((hlookup i n).mp hn).1.trans ((hlookup j m).mp hm).1.symm
  case children =>
    rintro p c
    rw [hchildIds]
    refine iff_of_false List.not_mem_nil ?_
    rintro ⟨n, hn, hp⟩
    obtain ⟨rfl, rfl⟩ := (hlookup c n).mp hn
    cases hp
  case children_nodup => exact fun p => (hchildIds p).symm ▸ List.nodup_nil
  case plain =>
    rintro i n hn -
    obtain ⟨rfl, rfl⟩ := (hlookup i n).mp hn
    rfl
  case targets =>
    rintro i n t m hn ht
    obtain ⟨rfl, rfl⟩ := (hlookup i n).mp hn
    cases ht

/-- The tree of a fresh database. -/
def FileTree.fresh (faults : List Bool) : FileTree := ⟨.fresh, ⟨.fresh, faults⟩, []⟩

theorem sound_fresh (faults : List Bool) : Sound (FileTree.fresh faults) :=
  ⟨wellFormed_fresh, agrees_load load_fresh⟩

section Load

variable {db : FileTable} {st : TreeState}

/-- **Starting from a well-formed tree that was just loaded, the maps stay a tree
and the table goes on holding it**, whatever the operations and whichever of
their statements fail; and an operation that fails changes neither. -/
theorem sound_run (hload : FileTree.load db = .ok st) (hwf : WellFormed st) {faults : List Bool}
    {ops : List Operation} {t : FileTree} (hrun : Run FileTree.Step ⟨st, ⟨db, faults⟩, []⟩ ops t) :
    WellFormed t.state ∧
      (∀ i n, t.state.nodes.lookup i = some n →
        ∃ chain, Chain t.state.parent rootId i chain ∧ chain.Nodup) ∧
      (∃ st', FileTree.load t.db = .ok st' ∧ SameTree t.state st') ∧
      ∀ op e t', Fails (Operation.run op) t e t' → t'.state = t.state ∧ t'.db = t.db := by
  have hstart : Sound ⟨st, ⟨db, faults⟩, []⟩ := ⟨hwf, agrees_load hload⟩
  have hsound := hstart.run hrun
  refine ⟨hsound.wellFormed, fun i n hn => ?_, hsound.agrees.load hsound.wellFormed,
    fun op e t' hfail => Prod.mk.inj (op.run_atomic.fails hfail)⟩
  obtain ⟨chain, hchain⟩ := hsound.wellFormed.rooted hn
  exact ⟨chain, hchain, hchain.nodup⟩

end Load

namespace Library

/-- A session that may do everything. -/
def librarian : Session := ⟨"librarian", .admin, Privileges.all⟩

/-- A folder and a drop box are made, an alias of the folder is put into the drop
box at the second attempt, and the folder is deleted, which leaves it dangling. -/
def ops : List Operation :=
  [.createFolder "f" "/" "pub" .directory .guest .guest none librarian,
    .createFolder "g" "/" "box" .dropBox .guest .guest none librarian,
    .createAlias "a" "/pub" "/box" librarian,
    .createAlias "a" "/pub" "/box" librarian,
    .delete "/pub" librarian]

/-- Only the third statement fails for reasons of its own. -/
def faults : List Bool := [false, false, true]

end Library

open Library in
/-- A run that makes a library of folders, in which some statements fail. -/
theorem sound_run_library :
    WellFormed ((FileTree.fresh faults).after ops).state ∧
      (∀ i n, ((FileTree.fresh faults).after ops).state.nodes.lookup i = some n →
        ∃ chain, Chain ((FileTree.fresh faults).after ops).state.parent rootId i chain ∧
          chain.Nodup) ∧
      (∃ st', FileTree.load ((FileTree.fresh faults).after ops).db = .ok st' ∧
        SameTree ((FileTree.fresh faults).after ops).state st') ∧
      ∀ op e t', Fails (Operation.run op) ((FileTree.fresh faults).after ops) e t' →
        t'.state = ((FileTree.fresh faults).after ops).state ∧
          t'.db = ((FileTree.fresh faults).after ops).db :=
  sound_run load_fresh wellFormed_fresh (FileTree.run_after (by decide +kernel))

end Files

end KdxHotline
