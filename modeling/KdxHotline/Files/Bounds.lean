import KdxHotline.Files.Progress

/-!
# The caps on depth and path

A node is meant to stay within `KdxHotline.Limits.maxTreeDepth` levels and
`KdxHotline.Limits.maxPathLen` bytes of path, or no request could name it.
Creating a folder or an alias and moving a node all check for room first; filing
a completed upload does not. Between the start of an upload, which does check,
and the moment its file is filed, another session may have moved the folder
further down.

So the caps hold over every run in which each filed file finds room where its
folder is by then (`KdxHotline.Files.bounded_run`), and a run without that leads
to a file no path reaches (`KdxHotline.Files.filed_out_of_reach`).
-/

namespace KdxHotline

namespace Files

open Foundations Storage Auth Limits

/-- Every node is within the caps on depth and path. -/
def Bounded (st : TreeState) : Prop :=
  ∀ i n, st.nodes.lookup i = some n → ∃ chain, st.ancestry n = .ok chain ∧
    chain.length - 1 ≤ maxTreeDepth ∧ TreeState.pathLen chain ≤ maxPathLen

/-- The folder a file is filed into has room for it, and, where the name is taken
and may be varied, for the longest variant it may be given. -/
def Operation.HasRoom (t : FileTree) : Operation → Prop
  | .addFile _ parentId name .. => ∀ parent, t.state.nodes.lookup parentId = some parent →
      t.state.nameTaken parentId name = false →
        t.state.checkRoom parent 0 (1 + name.utf8ByteSize) = .ok ()
  | .addFileRenaming _ parentId name .. => ∀ parent, t.state.nodes.lookup parentId = some parent →
      t.state.checkRoom parent 0 (1 + if t.state.nameTaken parentId name then
        max name.utf8ByteSize minVariantBudget else name.utf8ByteSize) = .ok ()
  | _ => True

/-! ### What the checks leave room for -/

section Room

variable {st : TreeState} {parent : Node} {height relLen : ℕ}

theorem checkRoom_ok (h : st.checkRoom parent height relLen = .ok ()) :
    ∃ chain, st.ancestry parent = .ok chain ∧ chain.length - 1 + 1 + height ≤ maxTreeDepth ∧
      TreeState.pathLen chain + relLen ≤ maxPathLen := by
  obtain ⟨chain, hchain, h⟩ := checks_pass.mp h
  obtain ⟨_, hdepth, h⟩ := checks_pass.mp h
  exact ⟨chain, hchain, by simpa using hdepth, by simpa using h⟩

/-- **A file that is filed under a variant of its name stays within the room of
its folder.** -/
theorem filingName_room {parentId name filed : String} {renameIfTaken : Option (String → Bool)}
    (hroom : st.checkRoom parent 0 (1 + if renameIfTaken.isSome && st.nameTaken parentId name then
      max name.utf8ByteSize minVariantBudget else name.utf8ByteSize) = .ok ())
    (h : FileTree.filingName st parent parentId name renameIfTaken = .ok filed) :
    ∃ chain, st.ancestry parent = .ok chain ∧ chain.length - 1 + 1 ≤ maxTreeDepth ∧
      TreeState.pathLen chain + (1 + filed.utf8ByteSize) ≤ maxPathLen := by
  obtain ⟨chain, hchain, hdepth, hpath⟩ := checkRoom_ok hroom
  refine ⟨chain, hchain, hdepth, ?_⟩
  unfold FileTree.filingName at h
  split at h
  · rename_i hfree
    cases h
    simpa [show st.nameTaken parentId name = false by simpa using hfree] using hpath
  · rename_i htaken
    cases renameIfTaken with
    | none => cases h
    | some reserved =>
      have htaken : st.nameTaken parentId name = true := by simpa using htaken
      rw [Option.isSome_some, htaken, Bool.and_self, if_pos rfl] at hpath
      obtain ⟨room, hbudget, h⟩ := checks_pass.mp h
      obtain ⟨chain', hchain', hbudget⟩ := checks_pass.mp hbudget
      rw [hchain] at hchain'
      cases hchain'
      cases hbudget
      have hle := freeName_le (required_eq_ok.mp h)
      omega

end Room

/-! ### What the operations keep -/

section Steps

variable {t t' : FileTree} {node parent : Node}

/-- **A new node stays within the caps** if its folder had room for it. -/
theorem bounded_added (h : Sound t) (h' : Sound t') (hb : Bounded t.state)
    (hadd : FileTree.Added t node parent t')
    (hroom : ∃ chain, t.state.ancestry parent = .ok chain ∧ chain.length - 1 + 1 ≤ maxTreeDepth ∧
      TreeState.pathLen chain + (1 + node.name.utf8ByteSize) ≤ maxPathLen) : Bounded t'.state := by
  obtain ⟨row, hrow, hinsert⟩ := hadd.row
  have hlookup := TreeState.insertInMemory_lookup t.state node
  rw [← hadd.state] at hlookup
  have hfresh : t.state.nodes.lookup node.id = none := by
    cases hn : t.state.nodes.lookup node.id with
    | none => rfl
    | some n =>
      obtain ⟨r, hr, -⟩ := h.agrees.row hn
      rw [(nodeFromRow_fields hrow).1, (FileNodes.insert_row hinsert).2.1] at hr
      cases hr
  have hold : ∀ {n chain}, NodeChain t.state n chain → NodeChain t'.state n chain := by
    intro n chain hc
    rw [hadd.state]
    exact hc.insertInMemory hfresh
  intro i n hn
  have hn' := hn
  rw [hlookup] at hn
  by_cases hi : i = node.id
  · rw [if_pos hi] at hn
    cases hn
    obtain ⟨chain, hchain, hdepth, hpath⟩ := hroom
    have hup := hold ((h.wellFormed.ancestry_eq_ok hadd.folder.1).mp hchain)
    have hself : t'.state.nodes.lookup node.id = some node := hi ▸ hn'
    refine ⟨node :: chain, ?_, ?_, ?_⟩
    · exact (h'.wellFormed.ancestry_eq_ok hself).mpr (hup.step hself hadd.parentId rfl)
    · rw [List.length_cons]
      omega
    · rw [TreeState.pathLen_cons hadd.parentId]
      omega
  · rw [if_neg hi] at hn
    obtain ⟨chain, hchain, hdepth, hpath⟩ := hb i n hn
    have hid := h.wellFormed.ids hn
    refine ⟨chain, ?_, hdepth, hpath⟩
    have hup := hold ((h.wellFormed.ancestry_eq_ok (hid ▸ hn)).mp hchain)
    exact (h'.wellFormed.ancestry_eq_ok (hid ▸ hn')).mpr hup

/-- **Taking nodes away keeps the others within the caps.** -/
theorem bounded_removed {st st' : TreeState} (h : WellFormed st) (h' : WellFormed st')
    (hb : Bounded st) (hsub : ∀ {i n}, st'.nodes.lookup i = some n → st.nodes.lookup i = some n) :
    Bounded st' := by
  intro i n hn
  have hid := h'.ids hn
  obtain ⟨chain', hchain'⟩ := h'.exists_chain (hid ▸ hn)
  obtain ⟨chain, hchain, hdepth, hpath⟩ := hb i n (hsub hn)
  -- the way up among what is left is a way up in the whole
  have hsame : NodeChain st n chain' := by
    refine ⟨hchain'.ids.congr fun j hj => ?_, fun m hm => hsub (hchain'.lookup m hm)⟩
    obtain ⟨m, hm, rfl⟩ := List.mem_map.mp hj
    have hm' := hchain'.lookup m hm
    rw [TreeState.parent_of_lookup hm', TreeState.parent_of_lookup (hsub hm')]
  have hup := (h.ancestry_eq_ok (hid ▸ hsub hn)).mp hchain
  obtain rfl := hsame.unique hup
  exact ⟨chain', (h'.ancestry_eq_ok (hid ▸ hn)).mpr hchain', hdepth, hpath⟩

/-- **Nodes that move stay within the caps** if there was room for the subtree. -/
theorem bounded_moved {st st' : TreeState} {x d : Node} {p : String} {up : List Node}
    {height relLen : ℕ} (h : WellFormed st) (h' : WellFormed st') (hb : Bounded st)
    (hx : st.nodes.lookup x.id = some x) (hp : x.parentId = some p)
    (hd : st.nodes.lookup d.id = some d) (hup : st.ancestry d = .ok up)
    (hcycle : ∀ n ∈ up, n.id ≠ x.id) (hext : st.subtreeExtent x = .ok (height, relLen))
    (hroom : st.checkRoom d height relLen = .ok ())
    (hlookup : ∀ i, st'.nodes.lookup i =
      if i = x.id then some { x with parentId := some d.id } else st.nodes.lookup i) :
    Bounded st' := by
  obtain ⟨up', hup', hdepth, hpath⟩ := checkRoom_ok hroom
  obtain rfl : up = up' := Except.ok.inj (hup.symm.trans hup')
  have hupchain := (h.ancestry_eq_ok hd).mp hup
  have hlink : ∀ j, j ≠ x.id → st'.parent j = st.parent j := by
    intro j hj
    rw [TreeState.parent, TreeState.parent, hlookup, if_neg hj]
  have hold : ∀ {n chain}, NodeChain st n chain → (∀ m ∈ chain, m.id ≠ x.id) →
      NodeChain st' n chain :=
    fun hc hnot => hc.of_avoids (fun j hj => by rw [hlookup, if_neg hj]) hnot
  have hself : st'.nodes.lookup x.id = some { x with parentId := some d.id } := by
    rw [hlookup, if_pos rfl]
  have hnewx : NodeChain st' { x with parentId := some d.id } ({ x with parentId := some d.id } :: up) :=
    (hold hupchain hcycle).step hself rfl rfl
  intro i n hn
  have hid := h'.ids hn
  -- the same node before the move, and its way up
  obtain ⟨n₀, hn₀, hn₀id⟩ : ∃ n₀, st.nodes.lookup n₀.id = some n₀ ∧ n₀.id = i := by
    rw [hlookup] at hn
    by_cases hi : i = x.id
    · exact ⟨x, hx, hi.symm⟩
    · rw [if_neg hi] at hn
      exact ⟨n, hid ▸ hn, hid⟩
  obtain ⟨chain, hchain, hdepth₀, hpath₀⟩ := hb i n₀ (hn₀id ▸ hn₀)
  have hc := (h.ancestry_eq_ok hn₀).mp hchain
  by_cases hmem : ∃ m ∈ chain, m.id = x.id
  · -- below the moved node: the way up to it is kept, and goes on from its new parent
    obtain ⟨m, hm, hmid⟩ := hmem
    obtain rfl : m = x := by
      have hm' := hc.lookup m hm
      rw [hmid, hx] at hm'
      exact (Option.some.inj hm').symm
    obtain ⟨pre, suf, rfl⟩ := List.append_of_mem hm
    obtain ⟨hheight, hrel⟩ := h.subtreeExtent_le hext hc
    have hnodup := hc.ids.nodup
    rw [List.map_append, List.map_cons, List.nodup_middle, List.nodup_cons] at hnodup
    have hpre : ∀ k ∈ pre, k.id ≠ m.id := by
      intro k hk he
      exact hnodup.1 (List.mem_append_left _ (he ▸ List.mem_map_of_mem hk))
    have hsuf : m.id ∉ suf.map Node.id := fun hmem => hnodup.1 (List.mem_append_right _ hmem)
    obtain ⟨preIds, sufIds, hsplit, hnew⟩ := hc.ids.move hlink hnewx.ids
      (List.mem_map_of_mem (List.mem_append_right _ List.mem_cons_self))
    have hids : pre.map Node.id = preIds := by
      rw [List.map_append, List.map_cons] at hsplit
      have hpre' : m.id ∉ pre.map Node.id := fun hmem => hnodup.1 (List.mem_append_left _ hmem)
      exact ((List.append_cons_inj_of_notMem hpre' hsuf).mp hsplit).1
    have hwhole : NodeChain st' n (pre ++ { m with parentId := some d.id } :: up) := by
      refine ⟨?_, fun k hk => ?_⟩
      · rw [List.map_append, hids, hid, ← hn₀id]
        exact hnew
      · rcases List.mem_append.mp hk with hk | hk
        · rw [hlookup, if_neg (hpre k hk)]
          exact hc.lookup k (List.mem_append_left _ hk)
        · exact hnewx.lookup k hk
    obtain ⟨rest, hrest⟩ := hupchain.head hd
    refine ⟨_, (h'.ancestry_eq_ok (hid ▸ hn)).mpr hwhole, ?_, ?_⟩
    · simp only [hrest, List.length_append, List.length_cons] at hdepth ⊢
      omega
    · rw [TreeState.pathLen_append, TreeState.pathLen_cons (rfl : _ = some d.id)]
      simp only
      omega
  · have hnot : ∀ m ∈ chain, m.id ≠ x.id := fun m hm he => hmem ⟨m, hm, he⟩
    have hsame : n = n₀ := by
      obtain ⟨rest, hrest⟩ := hc.head hn₀
      have hne := hnot n₀ (hrest ▸ List.mem_cons_self)
      rw [hlookup, if_neg (hn₀id ▸ hne), ← hn₀id, hn₀] at hn
      exact (Option.some.inj hn).symm
    subst hsame
    exact ⟨chain, (h'.ancestry_eq_ok (hid ▸ hn)).mpr (hold hc hnot), hdepth₀, hpath₀⟩

/-- **Every operation keeps the tree within the caps**, if a file it files finds
room. -/
theorem bounded_step {op : Operation} (h : Sound t) (hb : Bounded t.state)
    (hstep : FileTree.Step t op t') (hroom : op.HasRoom t) : Bounded t'.state := by
  have h' := h.step hstep
  obtain ⟨-, hret | ⟨e, hfail⟩⟩ := hstep
  · cases op with
    | createFolder id parentPath name kind r w owner s =>
      obtain ⟨node, t₁, h₁, h₂⟩ := returns_bind.mp hret
      obtain ⟨-, rfl⟩ := returns_pure.mp h₂
      obtain ⟨parent, hadd, -, -, hchecked⟩ := FileTree.createFolder_returns h.wellFormed h₁
      obtain ⟨chain, hchain, hdepth, hpath⟩ := checkRoom_ok hchecked
      exact bounded_added h h' hb hadd ⟨chain, hchain, hdepth, hpath⟩
    | createAlias id sourcePath destPath s =>
      obtain ⟨node, t₁, h₁, h₂⟩ := returns_bind.mp hret
      obtain ⟨-, rfl⟩ := returns_pure.mp h₂
      obtain ⟨parent, hadd, -, -, hchecked⟩ := FileTree.createAlias_returns h.wellFormed h₁
      obtain ⟨chain, hchain, hdepth, hpath⟩ := checkRoom_ok hchecked
      exact bounded_added h h' hb hadd ⟨chain, hchain, hdepth, hpath⟩
    | addFile id parentId name size sha256 storagePath =>
      obtain ⟨node, t₁, h₁, h₂⟩ := returns_bind.mp hret
      obtain ⟨-, rfl⟩ := returns_pure.mp h₂
      obtain ⟨parent, hadd, -, -, rfl, hname⟩ := FileTree.fileEntry_returns h.wellFormed h₁
      refine bounded_added h h' hb hadd (filingName_room ?_ hname)
      -- `add_file` renames nothing, so the name it files under was free
      have hfree : t.state.nameTaken parent.id name = false := by
        by_contra htaken
        simp [FileTree.filingName, htaken] at hname
      simpa using hroom parent hadd.folder.1 hfree
    | addFileRenaming id parentId name size sha256 storagePath reserved =>
      obtain ⟨node, t₁, h₁, h₂⟩ := returns_bind.mp hret
      obtain ⟨-, rfl⟩ := returns_pure.mp h₂
      obtain ⟨parent, hadd, -, -, rfl, hname⟩ := FileTree.fileEntry_returns h.wellFormed h₁
      refine bounded_added h h' hb hadd (filingName_room ?_ hname)
      simpa using hroom parent hadd.folder.1
    | delete path s =>
      obtain ⟨kind, t₁, h₁, h₂⟩ := returns_bind.mp hret
      obtain ⟨-, rfl⟩ := returns_pure.mp h₂
      obtain ⟨top, p, ordered, -, -, -, -, hstate, -⟩ := FileTree.delete_returns h.wellFormed h₁
      refine bounded_removed h.wellFormed h'.wellFormed hb fun {i n} hn => ?_
      rw [hstate, FileTree.unlist_nodes, FileTree.removeAll_lookup] at hn
      split at hn
      · cases hn
      · exact hn
    | moveNode path destPath s =>
      obtain ⟨node, p, dest, chain, height, relLen, hnode, hp, hdest, -, hchain, hcycle, hext, hfits,
        hstate, -⟩ := FileTree.moveNode_returns h.wellFormed hret
      refine bounded_moved h.wellFormed h'.wellFormed hb hnode hp hdest hchain hcycle hext hfits
        fun i => ?_
      rw [hstate, FileTree.moveInMemory_lookup hnode]
    | removeFileNode id =>
      refine bounded_removed h.wellFormed h'.wellFormed hb fun {i n} hn => ?_
      rcases FileTree.removeFileNode_returns hret with ⟨hstate, -⟩ | ⟨node, -, -, hstate, -⟩
      · rw [hstate] at hn
        exact hn
      · have hnodes : t'.state.nodes = t.state.nodes.erase id := by
          rw [hstate]
          cases node.parentId <;> simp
        rw [hnodes] at hn
        by_cases hi : i = id
        · rw [hi, Finmap.lookup_erase] at hn
          cases hn
        · rwa [Finmap.lookup_erase_ne hi] at hn
  · obtain ⟨hstate, -⟩ := Prod.mk.inj (op.run_atomic.fails hfail)
    rw [hstate]
    exact hb

end Steps

/-! ### Runs from a fresh tree -/

/-- The tree at the start. -/
theorem bounded_fresh : Bounded TreeState.fresh := by
  intro i n hn
  have hlookup := TreeState.insertInMemory_lookup ⟨∅, ∅⟩ freshRoot i
  rw [TreeState.fresh, hlookup] at hn
  split at hn
  · cases hn
    have hroot : TreeState.fresh.nodes.lookup freshRoot.id = some freshRoot := by
      rw [TreeState.fresh, TreeState.insertInMemory_lookup, if_pos rfl]
    refine ⟨[freshRoot], (wellFormed_fresh.ancestry_eq_ok hroot).mpr (.root hroot rfl rfl), ?_, ?_⟩
    · simp
    · simp [TreeState.pathLen, freshRoot]
  · simp at hn

/-- **Over every run in which each filed file finds room, the tree stays within
the caps.** -/
theorem bounded_run {faults : List Bool} {ops : List Operation} {t : FileTree}
    (hrun : Run (Guarded FileTree.Step fun t op => op.HasRoom t) (FileTree.fresh faults) ops t) :
    Bounded t.state := by
  have hboth : Sound t ∧ Bounded t.state := by
    refine hrun.invariant (fun t => Sound t ∧ Bounded t.state) ?_ ⟨sound_fresh faults, bounded_fresh⟩
    rintro t op t' ⟨h, hb⟩ ⟨hstep, hroom⟩
    exact ⟨h.step hstep, bounded_step h hb hstep hroom⟩
  exact hboth.2

/-! ### A file out of reach

An upload into an empty folder below the root is accepted; meanwhile the folder
is moved to the bottom of a chain as deep as the cap allows; the file is filed one
level below it. -/

namespace OutOfReach

/-- The administrator who does all this. -/
def admin : Session := ⟨"admin", .admin, Privileges.all⟩

theorem isAdmin : Session.IsAdmin admin := ⟨rfl, by decide⟩

/-- The path of the `k`-th folder of the chain. -/
def pathChars : ℕ → List Char
  | 0 => []
  | k + 1 => '/' :: 'a' :: pathChars k

/-- The path down `k` folders. -/
def path (k : ℕ) : String := String.ofList (pathChars k)

/-- The id of the `k`-th folder of the chain. -/
def folderId (k : ℕ) : String := String.ofList (List.replicate k 'c')

/-- Creating the next folder of the chain. -/
def extend (k : ℕ) : Operation :=
  .createFolder (folderId (k + 1)) (path k) "a" .directory .guest .guest none admin

theorem folderId_injective {j k : ℕ} (h : folderId j = folderId k) : j = k := by
  have hlist := congrArg (fun s => s.toList.length) h
  simpa [folderId] using hlist

theorem folderId_ne {k : ℕ} (hk : 0 < k) {i : String} (hi : i.toList.head? ≠ some 'c') :
    folderId k ≠ i := by
  rintro rfl
  obtain ⟨m, rfl⟩ := Nat.exists_eq_add_of_lt hk
  exact hi (by simp [folderId, List.replicate_succ])

/-- The path down some folders is valid. -/
theorem path_ok {k : ℕ} (hk : k < 64) :
    checkPath (path k) = .ok () ∧ segments (path k) = List.replicate k "a" := by
  have hchars : ∀ k < 64, byteLen (pathChars k) ≤ maxPathLen ∧ (pathChars k).any isControl = false ∧
      ((pathChars k).splitOn '/').filter (fun s => !s.isEmpty) = List.replicate k ['a'] := by
    decide +kernel
  obtain ⟨hlen, hcontrol, hsplit⟩ := hchars k hk
  constructor
  · refine checks_pass.mpr ⟨(), ?_, ?_⟩
    · simpa [path, utf8ByteSize_ofList] using hlen
    · simpa [path] using hcontrol
  · rw [segments, path, String.toList_ofList, hsplit, List.map_replicate]

/-- The tree once the chain has `k` folders: `top` is the last of them, and the
folder `u` of the upload is still below the root. -/
structure Chained (k : ℕ) (t : FileTree) (top u : Node) (chain : List Node) : Prop where
  sound : Sound t
  quiet : t.pool.faults = []
  found : t.state.nodes.lookup top.id = some top
  folder : top.kind.isFolder = true
  up : NodeChain t.state top chain
  length : chain.length = k + 1
  pathLen : TreeState.pathLen chain = 2 * k
  names : pathOf chain = List.replicate k "a"
  below : ∀ n ∈ t.state.childNodes top.id, k = 0 ∧ n.name = "u"
  dest : t.state.nodes.lookup "u" = some u
  destId : u.id = "u"
  destName : u.name = "u"
  destParent : u.parentId = some rootId
  destFolder : u.kind = .directory
  destEmpty : t.state.childNodes "u" = []
  destOff : ∀ n ∈ chain, n.id ≠ "u"
  unused : ∀ j, k < j → t.state.nodes.lookup (folderId j) = none
  unfiled : t.state.nodes.lookup "file" = none
  plain : ∀ {i n}, t.state.nodes.lookup i = some n → n.kind ≠ .alias_

/-- Where there is no alias, every id is fresh. -/
theorem freshIn {op : Operation} {t : FileTree} (h : Sound t)
    (hplain : ∀ {i n}, t.state.nodes.lookup i = some n → n.kind ≠ .alias_) : op.FreshIn t := by
  intro _ _ i n hn ht
  rw [h.wellFormed.plain hn (hplain hn)] at ht
  cases ht

/-- A node that was just entered has no children. -/
theorem childNodes_entered {t t' : FileTree} {node : Node} (h : Sound t) (h' : Sound t')
    (hfresh : t.state.nodes.lookup node.id = none) (hself : node.parentId ≠ some node.id)
    (hstate : t'.state = t.state.insertInMemory node) : t'.state.childNodes node.id = [] := by
  refine List.eq_nil_iff_forall_not_mem.mpr fun n hn => ?_
  obtain ⟨hn, hp⟩ := h'.wellFormed.mem_childNodes.mp hn
  rw [hstate, TreeState.insertInMemory_lookup] at hn
  split at hn
  · obtain rfl := Option.some.inj hn
    exact hself hp
  · obtain ⟨q, hq, -⟩ := h.wellFormed.folders hn hp
    rw [hfresh] at hq
    cases hq

theorem checkRoom_of_chain {t : FileTree} (h : Sound t) {n : Node} {chain : List Node}
    {height relLen : ℕ} (hn : t.state.nodes.lookup n.id = some n)
    (hchain : NodeChain t.state n chain) (hdepth : chain.length - 1 + 1 + height ≤ maxTreeDepth)
    (hpath : TreeState.pathLen chain + relLen ≤ maxPathLen) :
    t.state.checkRoom n height relLen = .ok () := by
  refine checks_pass.mpr ⟨chain, (h.wellFormed.ancestry_eq_ok hn).mpr hchain, ?_⟩
  refine checks_pass.mpr ⟨(), by simpa using hdepth, by simpa using hpath⟩

/-- **The chain can be extended** while it is shorter than the cap. -/
theorem chained_succ {k : ℕ} {t : FileTree} {top u : Node} {chain : List Node}
    (h : Chained k t top u chain) (hk : k < 63) :
    ∃ t' top' chain', FileTree.Step t (extend k) t' ∧ Chained (k + 1) t' top' u chain' := by
  obtain ⟨hcheck, hsegments⟩ := path_ok (Nat.lt_succ_of_lt hk)
  -- the only child of the top, if it has one, is the folder of the upload
  have hname : t.state.nameTaken top.id "a" = false := by
    by_contra htaken
    obtain ⟨n, hn, ha⟩ := TreeState.nameTaken_iff.mp (Bool.not_eq_false _ ▸ htaken)
    rw [(h.below n hn).2] at ha
    exact absurd ha (by decide)
  have hroom : t.state.checkRoom top 0 (1 + "a".utf8ByteSize) = .ok () := by
    refine checkRoom_of_chain h.sound h.found h.up ?_ ?_
    · rw [h.length, maxTreeDepth]
      omega
    · rw [h.pathLen, maxPathLen, show "a".utf8ByteSize = 1 from rfl]
      omega
  have hunused := h.unused (k + 1) (Nat.lt_succ_self k)
  obtain ⟨node, t', hret, hquiet, hstate, hid, hp, hnname, hkind⟩ :=
    FileTree.createFolder_progress h.sound (by rw [h.quiet]; rfl) isAdmin hunused (by decide +kernel) h.found h.folder
      h.up hcheck (hsegments.trans h.names.symm) hroom hname
  have hstep : FileTree.Step t (extend k) t' := ⟨freshIn h.sound h.plain, .inl hret⟩
  have hsound := h.sound.step hstep
  rw [← hid] at hunused
  have hlookup := TreeState.insertInMemory_lookup t.state node
  rw [← hstate] at hlookup
  -- the id of the new folder was unused, so that nothing is overwritten
  have hold : ∀ {i n}, t.state.nodes.lookup i = some n → t'.state.nodes.lookup i = some n := by
    intro i n hn
    rw [hlookup, if_neg, hn]
    rintro rfl
    rw [hunused] at hn
    cases hn
  have hne : ∀ {n}, t.state.nodes.lookup n.id = some n → n.id ≠ node.id := by
    intro n hn he
    rw [he, hunused] at hn
    cases hn
  have hself : t'.state.nodes.lookup node.id = some node := by rw [hlookup, if_pos rfl]
  have hempty : t'.state.childNodes node.id = [] := by
    refine childNodes_entered h.sound hsound hunused ?_ hstate
    rw [hp]
    exact fun he => hne h.found (Option.some.inj he)
  have hup : NodeChain t'.state top chain := by
    rw [hstate]
    exact h.up.insertInMemory hunused
  have htop : top ∈ chain := by
    obtain ⟨rest, rfl⟩ := h.up.head h.found
    exact List.mem_cons_self
  refine ⟨t', node, node :: chain, hstep, ?_⟩
  constructor
  case sound => exact hsound
  case quiet => rw [hquiet, h.quiet]; rfl
  case found => exact hself
  case folder => rw [hkind]; rfl
  case up => exact hup.step hself hp rfl
  case length => rw [List.length_cons, h.length]
  case pathLen =>
    rw [TreeState.pathLen_cons hp, h.pathLen, hnname, show "a".utf8ByteSize = 1 from rfl]
    omega
  case names =>
    obtain ⟨rest, rfl⟩ := h.up.head h.found
    have hbefore := h.names
    simp only [pathOf, List.dropLast_cons_cons, List.map_cons, List.reverse_cons] at hbefore ⊢
    rw [hbefore, hnname, List.replicate_succ']
  case below =>
    rw [hempty]
    simp
  case dest => exact hold h.dest
  case destId => exact h.destId
  case destName => exact h.destName
  case destParent => exact h.destParent
  case destFolder => exact h.destFolder
  case destEmpty =>
    refine List.eq_nil_iff_forall_not_mem.mpr fun n hn => ?_
    -- the new folder hangs under the top, which is not the destination
    obtain ⟨hn, hnp⟩ := hsound.wellFormed.mem_childNodes.mp hn
    rw [hlookup] at hn
    split at hn
    · obtain rfl := Option.some.inj hn
      rw [hp] at hnp
      exact h.destOff top htop (Option.some.inj hnp)
    · have hchild := h.sound.wellFormed.mem_childNodes.mpr ⟨hn, hnp⟩
      rw [h.destEmpty] at hchild
      cases hchild
  case destOff =>
    intro n hn
    rcases List.mem_cons.mp hn with rfl | hn
    · intro he
      rw [he, h.dest] at hunused
      cases hunused
    · exact h.destOff n hn
  case unused =>
    intro j hj
    rw [hlookup, if_neg]
    · exact h.unused j (Nat.lt_of_succ_lt hj)
    · rw [hid]
      intro he
      have := folderId_injective he
      omega
  case unfiled =>
    rw [hlookup, if_neg]
    · exact h.unfiled
    · rw [hid]
      exact (folderId_ne (Nat.succ_pos k) (by decide)).symm
  case plain =>
    intro i n hn
    rw [hlookup] at hn
    split at hn
    · rw [← Option.some.inj hn, hkind]
      decide
    · exact h.plain hn

/-- Creating the folder of the upload. -/
def start : Operation := .createFolder "u" "/" "u" .directory .guest .guest none admin

/-- Creating a chain of `k` folders, one inside the other. -/
def extendTo (k : ℕ) : List Operation := (List.range k).map extend

/-- One folder after another is made, down to the bound. -/
theorem run_extendTo {t : FileTree} {top u : Node} {chain : List Node}
    (h : Chained 0 t top u chain) : ∀ {k : ℕ}, k ≤ 63 →
      ∃ t' top' chain', Run FileTree.Step t (extendTo k) t' ∧ Chained k t' top' u chain'
  | 0, _ => ⟨t, top, chain, .nil t, h⟩
  | k + 1, hk => by
    obtain ⟨t₁, top₁, chain₁, hrun, h₁⟩ := run_extendTo h (Nat.le_of_succ_le hk)
    obtain ⟨t₂, top₂, chain₂, hstep, h₂⟩ := chained_succ h₁ (Nat.lt_of_succ_le hk)
    refine ⟨t₂, top₂, chain₂, ?_, h₂⟩
    rw [extendTo, List.range_succ, List.map_append]
    exact hrun.append (.cons hstep (.nil _))

/-- The folder of the upload is there, and the chain is still to come. -/
theorem chained_zero : ∃ t u, FileTree.Step (FileTree.fresh []) start t ∧
    Chained 0 t freshRoot u [freshRoot] := by
  have hsound := sound_fresh []
  have hlookup : ∀ i, TreeState.fresh.nodes.lookup i = if i = rootId then some freshRoot else none := by
    intro i
    rw [TreeState.fresh, TreeState.insertInMemory_lookup]
    rfl
  have hroot : TreeState.fresh.nodes.lookup freshRoot.id = some freshRoot := hlookup rootId
  have hchain : NodeChain TreeState.fresh freshRoot [freshRoot] := .root hroot rfl rfl
  have hfree : ∀ i, i ≠ rootId → TreeState.fresh.nodes.lookup i = none := by
    intro i hi
    rw [hlookup, if_neg hi]
  have hplain : ∀ {i n}, TreeState.fresh.nodes.lookup i = some n → n = freshRoot := by
    intro i n hn
    rw [hlookup] at hn
    split at hn
    · exact (Option.some.inj hn).symm
    · cases hn
  have hchildless : ∀ n p, n ∉ TreeState.fresh.childNodes p := by
    intro n p hn
    obtain ⟨hn, hp⟩ := wellFormed_fresh.mem_childNodes.mp hn
    rw [hplain hn] at hp
    cases hp
  have hname : TreeState.fresh.nameTaken freshRoot.id "u" = false := by
    by_contra htaken
    obtain ⟨n, hn, -⟩ := TreeState.nameTaken_iff.mp (Bool.not_eq_false _ ▸ htaken)
    exact hchildless n _ hn
  have hroom : TreeState.fresh.checkRoom freshRoot 0 (1 + "u".utf8ByteSize) = .ok () :=
    checkRoom_of_chain hsound hroot hchain (by decide) (by decide)
  obtain ⟨u, t, hret, hquiet, hstate, hid, hp, huname, hkind⟩ :=
    FileTree.createFolder_progress hsound rfl isAdmin (hfree "u" (by decide)) (by decide +kernel)
      hroot rfl hchain (by decide +kernel : checkPath "/" = .ok ()) (by decide +kernel) hroom hname
  have hstep : FileTree.Step (FileTree.fresh []) start t := by
    refine ⟨freshIn hsound fun hn => ?_, .inl hret⟩
    rw [hplain hn]
    decide
  have hsound' := hsound.step hstep
  have hfresh : TreeState.fresh.nodes.lookup u.id = none := by
    rw [hid]
    exact hfree "u" (by decide)
  have hafter := TreeState.insertInMemory_lookup TreeState.fresh u
  rw [show TreeState.fresh.insertInMemory u = t.state from hstate.symm, hid] at hafter
  -- after the one step there are the root and the folder of the upload
  have hunused : ∀ i, i ≠ "u" → i ≠ rootId → t.state.nodes.lookup i = none := by
    intro i hiu hir
    rw [hafter, if_neg hiu, hfree i hir]
  refine ⟨t, u, hstep, ?_⟩
  constructor
  case sound => exact hsound'
  case quiet => exact hquiet
  case found => rw [hafter, if_neg (by decide), hroot]
  case folder => rfl
  case up =>
    rw [hstate]
    exact hchain.insertInMemory hfresh
  case length => rfl
  case pathLen => rfl
  case names => rfl
  case below =>
    intro n hn
    obtain ⟨hn, hnp⟩ := hsound'.wellFormed.mem_childNodes.mp hn
    rw [hafter] at hn
    split at hn
    · exact ⟨rfl, Option.some.inj hn ▸ huname⟩
    · rw [hplain hn] at hnp
      cases hnp
  case dest => rw [hafter, if_pos rfl]
  case destId => exact hid
  case destName => exact huname
  case destParent => exact hp
  case destFolder => exact hkind
  case destEmpty =>
    have hempty := childNodes_entered hsound hsound' hfresh
      (by rw [hp, hid]; decide) hstate
    rwa [hid] at hempty
  case destOff =>
    intro n hn
    rw [List.mem_singleton.mp hn]
    decide
  case unused =>
    intro j hj
    exact hunused _ (folderId_ne hj (by decide)) (folderId_ne hj (by decide))
  case unfiled => exact hunused _ (by decide) (by decide)
  case plain =>
    intro i n hn
    rw [hafter] at hn
    split at hn
    · rw [← Option.some.inj hn, hkind]
      decide
    · rw [hplain hn]
      decide

/-- The way up from the folder of the upload, which is still below the root. -/
theorem dest_chain {k : ℕ} {t : FileTree} {top u : Node} {chain : List Node}
    (h : Chained k t top u chain) : t.state.nodes.lookup u.id = some u ∧
      ∃ r, NodeChain t.state u [u, r] ∧ TreeState.pathLen [u, r] = 2 ∧
        pathOf [u, r] = segments "/u" := by
  obtain ⟨r, hr, hrp, -⟩ := h.sound.wellFormed.root
  have hid := h.sound.wellFormed.ids hr
  have hroot : NodeChain t.state r [r] := .root (hid ▸ hr) hrp hid
  have hu : t.state.nodes.lookup u.id = some u := h.destId.symm ▸ h.dest
  refine ⟨hu, r, hroot.step hu h.destParent hid, ?_, ?_⟩
  · rw [TreeState.pathLen_cons h.destParent, h.destName]
    simp [TreeState.pathLen, hrp]
    decide
  have hsegments : segments "/u" = ["u"] := by decide +kernel
  rw [hsegments]
  simp [pathOf, h.destName]

/-- The upload is accepted while its folder is below the root. -/
theorem upload_accepted {t : FileTree} {top u : Node} {chain : List Node}
    (h : Chained 0 t top u chain) :
    ∃ dest, t.state.prepareUpload "/u" "x" admin = .ok dest ∧ dest.parent = u := by
  obtain ⟨hu, r, hup, hlen, hpath⟩ := dest_chain h
  have hwf := h.sound.wellFormed
  have hroom : t.state.checkRoom u 0 (1 + "x".utf8ByteSize) = .ok () :=
    checkRoom_of_chain h.sound hu hup (by simp [maxTreeDepth]) (by rw [hlen]; decide)
  have hbudget : t.state.nameBudget u = .ok
      (min maxFileNameLen (maxPathLen - (TreeState.pathLen [u, r] + 1))) :=
    checks_pass.mpr ⟨_, (hwf.ancestry_eq_ok hu).mpr hup, rfl⟩
  have hname : t.state.nameTaken u.id "x" = false := by
    simp [TreeState.nameTaken, h.destId, h.destEmpty]
  have hfolder : u.kind.isFolder = true := by
    rw [h.destFolder]
    rfl
  have hwalk := hwf.walk_path hu hup (fun f _ => checkLook_admin isAdmin f) (by decide +kernel) hpath.symm
  have hreadable : (checkReadNode u admin).toBool = true := by
    rw [checkReadNode_admin isAdmin]
    rfl
  have hdest : t.state.uploadDest u "x" admin = .ok
      ⟨u, false, min maxFileNameLen (maxPathLen - (TreeState.pathLen [u, r] + 1))⟩ := by
    refine checks_pass.mpr ⟨(), by simp [hfolder], checks_pass.mpr ⟨(), ?_, ?_⟩⟩
    · exact checkPlaceInto_admin isAdmin hwf hu false
    · refine checks_pass.mpr ⟨(), hroom, checks_pass.mpr ⟨_, hbudget, ?_⟩⟩
      rw [hreadable]
      exact checks_pass.mpr ⟨(), by simp [TreeState.checkUploadName, hname], rfl⟩
  exact ⟨_, checks_pass.mpr ⟨(), by decide +kernel, checks_pass.mpr ⟨u, hwalk, hdest⟩⟩, rfl⟩

/-- A file that is filed while the folder is below the root finds room. -/
theorem bounded_run_filed : ∃ t, Run (Guarded FileTree.Step fun t op => op.HasRoom t)
    (FileTree.fresh []) [start, .addFile "file" "u" "x" 0 [] "blob"] t ∧
      t.state.nodes.lookup "file" ≠ none ∧ Bounded t.state := by
  obtain ⟨t₁, u, hstart, h₁⟩ := chained_zero
  obtain ⟨hu, r, hup, hlen, -⟩ := dest_chain h₁
  have hempty : t₁.state.nameTaken u.id "x" = false := by
    simp [TreeState.nameTaken, h₁.destId, h₁.destEmpty]
  obtain ⟨node, t₂, hfiled, -, hstate, hid, -⟩ := FileTree.addFile_progress 0 [] "blob" u
    h₁.sound (by rw [h₁.quiet]; rfl) h₁.unfiled (by decide +kernel : validateName "x" = .ok ()) hu (by rw [h₁.destFolder]; rfl) hempty
  rw [h₁.destId] at hfiled
  have hstep : FileTree.Step t₁ (.addFile "file" "u" "x" 0 [] "blob") t₂ :=
    ⟨freshIn h₁.sound h₁.plain, .inl hfiled⟩
  have hroom : Operation.HasRoom t₁ (.addFile "file" "u" "x" 0 [] "blob") := by
    intro parent hparent _
    rw [h₁.dest] at hparent
    obtain rfl := Option.some.inj hparent
    exact checkRoom_of_chain h₁.sound hu hup (by simp [maxTreeDepth]) (by rw [hlen]; decide)
  have hrun : Run (Guarded FileTree.Step fun t op => op.HasRoom t) (FileTree.fresh [])
      [start, .addFile "file" "u" "x" 0 [] "blob"] t₂ :=
    .cons ⟨hstart, trivial⟩ (.cons ⟨hstep, hroom⟩ (.nil _))
  refine ⟨t₂, hrun, ?_, bounded_run hrun⟩
  rw [hstate, TreeState.insertInMemory_lookup, if_pos hid.symm]
  simp

/-- **An accepted upload whose folder is moved meanwhile is filed out of reach.** -/
theorem filed_out_of_reach : ∃ t₁ dest t₂, Run FileTree.Step (FileTree.fresh []) [start] t₁ ∧
    t₁.state.prepareUpload "/u" "x" admin = .ok dest ∧
    Run FileTree.Step t₁ (extendTo 63 ++ [.moveNode "/u" (path 63) admin,
      .addFile "file" dest.parent.id "x" 0 [] "blob"]) t₂ ∧ ¬Bounded t₂.state := by
  obtain ⟨t₁, u, hstart, h₁⟩ := chained_zero
  obtain ⟨dest, haccepted, rfl⟩ := upload_accepted h₁
  obtain ⟨t₂, top, chain, hextend, h₂⟩ := run_extendTo h₁ (le_refl 63)
  obtain ⟨hcheck, hsegments⟩ := path_ok (by decide : 63 < 64)
  obtain ⟨hu, r, hup, -, hpath⟩ := dest_chain h₂
  have hwf₂ := h₂.sound.wellFormed
  -- the folder is empty, so there is room for it below the chain
  have hext : t₂.state.subtreeExtent dest.parent = .ok (0, 1 + dest.parent.name.utf8ByteSize) := by
    refine subtreeExtent_leaf (by rw [h₂.destId, h₂.destEmpty]) ?_
    have hsize := hup.length_le
    simp only [List.length_cons] at hsize
    omega
  have hroom : t₂.state.checkRoom top 0 (1 + dest.parent.name.utf8ByteSize) = .ok () := by
    refine checkRoom_of_chain h₂.sound h₂.found h₂.up ?_ ?_
    · rw [h₂.length]
      decide
    · rw [h₂.pathLen, h₂.destName]
      decide
  have hname : t₂.state.nameTaken top.id dest.parent.name = false := by
    by_contra htaken
    obtain ⟨n, hn, -⟩ := TreeState.nameTaken_iff.mp (Bool.not_eq_false _ ▸ htaken)
    exact absurd (h₂.below n hn).1 (by decide)
  obtain ⟨t₃, hmove, hquiet, hstate⟩ := FileTree.moveNode_progress h₂.sound (by rw [h₂.quiet]; rfl) isAdmin hu
    h₂.destParent hup (by decide +kernel) hpath.symm h₂.found h₂.folder h₂.up hcheck
    (hsegments.trans h₂.names.symm) (fun n hn => h₂.destId.symm ▸ h₂.destOff n hn) hname hext hroom
  have hstep₃ : FileTree.Step t₂ (.moveNode "/u" (path 63) admin) t₃ :=
    ⟨freshIn h₂.sound h₂.plain, .inl hmove⟩
  have hsound₃ := h₂.sound.step hstep₃
  have hlookup : ∀ i, t₃.state.nodes.lookup i = if i = dest.parent.id then
      some { dest.parent with parentId := some top.id } else t₂.state.nodes.lookup i := by
    intro i
    rw [hstate, FileTree.moveInMemory_lookup hu]
  have hup₃ : NodeChain t₃.state top chain :=
    h₂.up.of_avoids (i := dest.parent.id) (fun j hj => by rw [hlookup, if_neg hj])
      (fun n hn => h₂.destId.symm ▸ h₂.destOff n hn)
  have hu₃ : t₃.state.nodes.lookup dest.parent.id =
      some { dest.parent with parentId := some top.id } := by
    rw [hlookup, if_pos rfl]
  have hempty : t₃.state.nameTaken dest.parent.id "x" = false := by
    by_contra htaken
    obtain ⟨n, hn, -⟩ := TreeState.nameTaken_iff.mp (Bool.not_eq_false _ ▸ htaken)
    obtain ⟨hn, hp⟩ := hsound₃.wellFormed.mem_childNodes.mp hn
    rw [hlookup] at hn
    split at hn
    · obtain ⟨rest, rfl⟩ := h₂.up.head h₂.found
      rw [← Option.some.inj hn] at hp
      exact h₂.destOff top List.mem_cons_self ((Option.some.inj hp).trans h₂.destId)
    · have hchild := hwf₂.mem_childNodes.mpr ⟨hn, hp⟩
      rw [h₂.destId, h₂.destEmpty] at hchild
      cases hchild
  have hfile : t₃.state.nodes.lookup "file" = none := by
    rw [hlookup, if_neg, h₂.unfiled]
    rw [h₂.destId]
    decide
  obtain ⟨node, t₄, hfiled, -, hstate₄, hid, hp, -, -⟩ := FileTree.addFile_progress 0 [] "blob"
    { dest.parent with parentId := some top.id } hsound₃ (by rw [hquiet, h₂.quiet]; rfl) hfile
    (by decide +kernel : validateName "x" = .ok ()) hu₃ (by rw [h₂.destFolder]; rfl) hempty
  have hstep₄ : FileTree.Step t₃ (.addFile "file" dest.parent.id "x" 0 [] "blob") t₄ := by
    refine ⟨freshIn hsound₃ fun {i n} hn => ?_, .inl hfiled⟩
    rw [hlookup] at hn
    split at hn
    · rw [← Option.some.inj hn, h₂.destFolder]
      decide
    · exact h₂.plain hn
  have hsound₄ := hsound₃.step hstep₄
  refine ⟨t₁, dest, t₄, .cons hstart (.nil _), haccepted,
    hextend.append (.cons hstep₃ (.cons hstep₄ (.nil _))), fun hb => ?_⟩
  have hself : t₄.state.nodes.lookup node.id = some node := by
    rw [hstate₄, TreeState.insertInMemory_lookup, if_pos rfl]
  -- two levels below the end of a chain of 63 folders
  have hwhole : NodeChain t₄.state node (node :: { dest.parent with parentId := some top.id } :: chain) := by
    refine NodeChain.step ?_ hself hp rfl
    rw [hstate₄]
    exact (hup₃.step hu₃ rfl rfl).insertInMemory (hid ▸ hfile)
  obtain ⟨chain', hchain', hdepth, -⟩ := hb node.id node hself
  have hsame := hwhole.unique ((hsound₄.wellFormed.ancestry_eq_ok hself).mp hchain')
  rw [← hsame] at hdepth
  simp only [List.length_cons, h₂.length, maxTreeDepth] at hdepth
  omega

end OutOfReach

end Files

end KdxHotline
