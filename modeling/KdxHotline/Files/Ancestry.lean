import KdxHotline.Files.WellFormed

/-!
# Ancestors and descendants

In a well-formed tree the two bounded searches never run out: the way up from a
node always ends (`KdxHotline.Files.WellFormed.ancestry_eq_ok`), and the search
for the extent of a subtree always returns
(`KdxHotline.Files.WellFormed.subtreeExtent_total`) and measures every node below
it (`KdxHotline.Files.WellFormed.subtreeExtent_le`).
-/

namespace KdxHotline

namespace Files

open Foundations Storage Auth Limits

/-- The nodes from `n` up to the root. -/
structure NodeChain (st : TreeState) (n : Node) (chain : List Node) : Prop where
  ids : Chain st.parent rootId n.id (chain.map Node.id)
  lookup : ∀ m ∈ chain, st.nodes.lookup m.id = some m

variable {st : TreeState} {n m top : Node} {chain rest : List Node}

/-! ### Paths -/

namespace TreeState

theorem pathLen_append (a b : List Node) : pathLen (a ++ b) = pathLen a + pathLen b := by
  simp [pathLen]

@[simp] theorem pathLen_nil : pathLen [] = 0 := rfl

/-- A node below the root adds its name and a separator to a path. -/
theorem pathLen_cons {p : String} (hp : n.parentId = some p) (rest : List Node) :
    pathLen (n :: rest) = 1 + n.name.utf8ByteSize + pathLen rest := by
  simp [pathLen, hp]

end TreeState

/-! ### Chains of nodes -/

namespace NodeChain

theorem head (h : NodeChain st n chain) (hn : st.nodes.lookup n.id = some n) :
    ∃ rest, chain = n :: rest := by
  obtain ⟨ids, hids⟩ := h.ids.exists_cons
  obtain ⟨m, rest, rfl, hid, -⟩ := List.map_eq_cons_iff.mp hids
  have hm := h.lookup m List.mem_cons_self
  rw [hid, hn] at hm
  exact ⟨rest, by rw [Option.some.inj hm]⟩

theorem ne_nil (h : NodeChain st n chain) (hn : st.nodes.lookup n.id = some n) : chain ≠ [] := by
  obtain ⟨rest, rfl⟩ := h.head hn
  exact List.cons_ne_nil n rest

theorem unique (h : NodeChain st n chain) (h' : NodeChain st n rest) : chain = rest := by
  have hids := h.ids.unique h'.ids
  have hlookup : ∀ {l : List Node}, (∀ m ∈ l, st.nodes.lookup m.id = some m) →
      l.map some = (l.map Node.id).map fun i => st.nodes.lookup i := by
    intro l hl
    rw [List.map_map]
    exact List.map_congr_left fun m hm => (hl m hm).symm
  refine List.map_injective_iff.mpr (Option.some_injective Node) ?_
  rw [hlookup h.lookup, hlookup h'.lookup, hids]

/-- The chain of a node below the root goes through its parent. -/
theorem of_parent {p : String} (h : NodeChain st n chain) (hn : st.nodes.lookup n.id = some n)
    (hp : n.parentId = some p) (hid : m.id = p) :
    ∃ rest, chain = n :: rest ∧ NodeChain st m rest := by
  obtain ⟨rest, rfl⟩ := h.head hn
  obtain ⟨ids, hids, hrest⟩ := h.ids.of_parent ((TreeState.parent_of_lookup hn).trans hp)
  rw [List.map_cons, List.cons.injEq] at hids
  refine ⟨rest, rfl, ?_, fun k hk => h.lookup k (List.mem_cons_of_mem _ hk)⟩
  rw [hids.2, hid]
  exact hrest

theorem step {p : String} (h : NodeChain st m chain) (hn : st.nodes.lookup n.id = some n)
    (hp : n.parentId = some p) (hid : m.id = p) : NodeChain st n (n :: chain) where
  ids := .step ((TreeState.parent_of_lookup hn).trans hp) (hid ▸ h.ids)
  lookup := by
    intro k hk
    rcases List.mem_cons.mp hk with rfl | hk
    · exact hn
    · exact h.lookup k hk

/-- The root is its own chain. -/
theorem root (hn : st.nodes.lookup n.id = some n) (hp : n.parentId = none) (hid : n.id = rootId) :
    NodeChain st n [n] where
  ids := by
    have hlink := (TreeState.parent_of_lookup hn).trans hp
    rw [hid] at hlink
    simpa [hid] using Chain.root hlink
  lookup := by
    intro k hk
    rw [List.mem_singleton.mp hk]
    exact hn

/-- A chain passes each node once, so it is no longer than the tree has nodes. -/
theorem length_le (h : NodeChain st n chain) : chain.length ≤ st.size := by
  have hmem : ∀ i ∈ chain.map Node.id, i ∈ st.nodes.keys := by
    intro i hi
    obtain ⟨m, hm, rfl⟩ := List.mem_map.mp hi
    exact Finmap.mem_keys.mpr (Finmap.mem_of_lookup_eq_some (h.lookup m hm))
  rw [TreeState.size, ← List.length_map Node.id]
  exact h.ids.length_le hmem

/-- **A way up that does not pass `i` survives what happens to `i`.** -/
theorem of_avoids {st' : TreeState} {i : String} (h : NodeChain st n chain)
    (hlookup : ∀ j, j ≠ i → st'.nodes.lookup j = st.nodes.lookup j)
    (hnot : ∀ k ∈ chain, k.id ≠ i) : NodeChain st' n chain := by
  refine ⟨h.ids.congr fun j hj => ?_, fun k hk => ?_⟩
  · obtain ⟨k, hk, rfl⟩ := List.mem_map.mp hj
    rw [TreeState.parent, TreeState.parent, hlookup k.id (hnot k hk)]
  · rw [hlookup k.id (hnot k hk)]
    exact h.lookup k hk

/-- A new leaf leaves the way up from the other nodes alone. -/
theorem insertInMemory (h : NodeChain st n chain) (hfresh : st.nodes.lookup m.id = none) :
    NodeChain (st.insertInMemory m) n chain := by
  refine h.of_avoids (i := m.id) (fun j hj => ?_) fun k hk he => ?_
  · rw [TreeState.insertInMemory_lookup, if_neg hj]
  · have hlookup := h.lookup k hk
    rw [he, hfresh] at hlookup
    cases hlookup

end NodeChain

/-! ### Going up -/

namespace WellFormed

/-- Every node has its chain of nodes up to the root. -/
theorem exists_chain (h : WellFormed st) (hn : st.nodes.lookup n.id = some n) :
    ∃ chain, NodeChain st n chain := by
  obtain ⟨ids, hids⟩ := h.rooted hn
  generalize hi : n.id = i at hids
  induction hids generalizing n with
  | root hroot =>
    have hp : n.parentId = none := by
      rw [← TreeState.parent_of_lookup hn, hi, hroot]
    exact ⟨[n], .root hn hp hi⟩
  | @step k q ids hlink _ ih =>
    have hp : n.parentId = some q := by
      rw [← TreeState.parent_of_lookup hn, hi, hlink]
    obtain ⟨m, hm, -⟩ := h.folders hn hp
    have hid := h.ids hm
    obtain ⟨chain, hchain⟩ := ih (hid ▸ hm) hid
    exact ⟨n :: chain, hchain.step hn hp hid⟩

/-- With fuel for its chain a node is climbed from to the root. -/
theorem climb_eq_ok (h : WellFormed st) {fuel : ℕ} (hn : st.nodes.lookup n.id = some n)
    (hchain : NodeChain st n chain) (hfuel : chain.length ≤ fuel + 1) :
    st.climb fuel n = .ok chain := by
  induction fuel generalizing n chain with
  | zero =>
    cases hp : n.parentId with
    | none =>
      have hid := h.eq_root hn hp
      rw [TreeState.climb_none hp, if_pos hid, hchain.unique (.root hn hp hid)]
    | some p =>
      obtain ⟨m, hm, -⟩ := h.folders hn hp
      have hid := h.ids hm
      obtain ⟨rest, rfl, hrest⟩ := hchain.of_parent hn hp hid
      obtain ⟨rest', rfl⟩ := hrest.head (hid ▸ hm)
      simp only [List.length_cons] at hfuel
      omega
  | succ fuel ih =>
    cases hp : n.parentId with
    | none =>
      have hid := h.eq_root hn hp
      rw [TreeState.climb_none hp, if_pos hid, hchain.unique (.root hn hp hid)]
    | some p =>
      obtain ⟨m, hm, -⟩ := h.folders hn hp
      have hid := h.ids hm
      obtain ⟨rest, rfl, hrest⟩ := hchain.of_parent hn hp hid
      rw [List.length_cons] at hfuel
      have hup := ih (hid ▸ hm) hrest (by omega)
      rw [TreeState.climb_succ hp, hm]
      exact checks_pass.mpr ⟨m, rfl, checks_pass.mpr ⟨rest, hup, rfl⟩⟩

/-- **The way up from a node ends, with its chain.** -/
theorem ancestry_eq_ok (h : WellFormed st) (hn : st.nodes.lookup n.id = some n) :
    st.ancestry n = .ok chain ↔ NodeChain st n chain := by
  constructor
  · intro hc
    obtain ⟨hids, hlookup⟩ := h.climb_chain hn hc
    exact ⟨hids, hlookup⟩
  · intro hchain
    exact h.climb_eq_ok hn hchain (Nat.le_succ_of_le hchain.length_le)

end WellFormed

/-! ### Going down -/

/-- A node without children is the whole of its subtree. -/
theorem subtreeExtent_leaf (hempty : st.childNodes n.id = []) (hsize : 0 < st.size) :
    st.subtreeExtent n = .ok (0, 1 + n.name.utf8ByteSize) := by
  obtain ⟨size, hsize⟩ := Nat.exists_eq_add_one_of_ne_zero hsize.ne'
  simp [TreeState.subtreeExtent, hsize, explore, TreeState.visitForExtent, hempty, bind, Except.bind,
    pure, Except.pure]

/-- The greatest value is no less than any, and than the start. -/
theorem le_foldl_max {α : Type} {f : α → ℕ} {a : α} :
    ∀ {l : List α} {m : ℕ}, (a ∈ l → f a ≤ l.foldl (fun m v => max m (f v)) m) ∧
      m ≤ l.foldl (fun m v => max m (f v)) m
  | [], m => by simp
  | b :: l, m => by
    obtain ⟨hmem, hle⟩ := @le_foldl_max α f a l (max m (f b))
    refine ⟨fun ha => ?_, le_trans (Nat.le_max_left _ _) hle⟩
    rcases List.mem_cons.mp ha with rfl | ha
    · exact le_trans (Nat.le_max_right _ _) hle
    · exact hmem ha

namespace WellFormed

/-- The children of a node are listed by their ids. -/
theorem childNodes_ids (h : WellFormed st) (p : String) :
    (st.childNodes p).map Node.id = st.childIds p := by
  have hall : ∀ {l : List String}, (∀ c ∈ l, ∃ n, st.nodes.lookup c = some n) →
      (l.filterMap fun c => st.nodes.lookup c).map Node.id = l := by
    intro l hl
    induction l with
    | nil => rfl
    | cons c l ih =>
      obtain ⟨n, hn⟩ := hl c List.mem_cons_self
      rw [List.filterMap_cons_some (f := fun c => st.nodes.lookup c) hn, List.map_cons, h.ids hn,
        ih fun d hd => hl d (List.mem_cons_of_mem _ hd)]
  refine hall fun c hc => ?_
  obtain ⟨n, hn, -⟩ := h.children.mp hc
  exact ⟨n, hn⟩

/-- What the search for the extent of `top`'s subtree keeps: no id is met twice,
and everything on the stack but `top` is a child of a node seen before. -/
structure ExtentInv (st : TreeState) (top : Node) (seen stack : List (Node × ℕ × ℕ)) : Prop where
  noRepeat : NoRepeat (fun v : Node × ℕ × ℕ => v.1.id) st.nodes.keys seen stack
  found : ∀ v ∈ seen ++ stack, st.nodes.lookup v.1.id = some v.1
  below : ∀ v ∈ seen ++ stack, ∀ {chain}, Chain st.parent rootId v.1.id chain → top.id ∈ chain
  origin : ∀ v ∈ seen ++ stack, v.1.id = top.id ∨ ∃ u ∈ seen, v.1.parentId = some u.1.id

/-- What one visit keeps. -/
theorem extentInv_step (h : WellFormed st) {seen stack : List (Node × ℕ × ℕ)} {a : Node × ℕ × ℕ}
    (hinv : ExtentInv st top seen (a :: stack)) :
    ∃ next, st.visitForExtent a = .ok next ∧ ExtentInv st top (a :: seen) (next.reverse ++ stack) := by
  obtain ⟨n, height, len⟩ := a
  have hmem : (n, height, len) ∈ seen ++ (n, height, len) :: stack :=
    List.mem_append_right _ List.mem_cons_self
  have hn := hinv.found _ hmem
  have hnodup := hinv.noRepeat.nodup
  refine ⟨_, rfl, ?_⟩
  generalize hnext : (st.childNodes n.id).map (fun c => (c, height + 1, len + 1 + c.name.utf8ByteSize))
    = next
  have hchild : ∀ v ∈ next, st.nodes.lookup v.1.id = some v.1 ∧ v.1.parentId = some n.id := by
    intro v hv
    rw [← hnext] at hv
    obtain ⟨c, hc, rfl⟩ := List.mem_map.mp hv
    exact h.mem_childNodes.mp hc
  -- a child of the node is none of the nodes met so far
  have hnew : ∀ v ∈ next, ∀ w ∈ seen ++ (n, height, len) :: stack, v.1.id ≠ w.1.id := by
    intro v hv w hw he
    obtain ⟨hv, hp⟩ := hchild v hv
    have hsame : w.1 = v.1 := by
      have hw' := hinv.found w hw
      rw [← he, hv] at hw'
      exact (Option.some.inj hw').symm
    rcases hinv.origin w hw with htop | ⟨u, hu, hup⟩
    · obtain ⟨chain, hchain⟩ := h.rooted hn
      have hlink := (TreeState.parent_of_lookup hv).trans hp
      exact hchain.not_mem_parent hlink (he.trans htop ▸ hinv.below _ hmem hchain)
    · rw [hsame, hp] at hup
      rw [List.map_append, List.map_cons] at hnodup
      exact (List.disjoint_of_nodup_append hnodup) (List.mem_map_of_mem hu)
        (Option.some.inj hup ▸ List.mem_cons_self)
  have hset : ∀ {v}, v ∈ (n, height, len) :: seen ++ (next.reverse ++ stack) ↔
      v ∈ next ∨ v ∈ seen ++ (n, height, len) :: stack := by
    intro v
    simp only [List.mem_append, List.mem_cons, List.mem_reverse]
    tauto
  constructor
  case noRepeat =>
    constructor
    case nodup =>
      have hperm : ((n, height, len) :: seen ++ (next.reverse ++ stack)).Perm
          (next ++ (seen ++ (n, height, len) :: stack)) := by
        refine List.perm_iff_count.mpr fun v => ?_
        simp only [List.count_append, List.count_cons, List.count_reverse, List.cons_append]
        omega
      rw [(hperm.map _).nodup_iff, List.map_append, List.nodup_append]
      refine ⟨?_, hnodup, ?_⟩
      · rw [← hnext, List.map_map]
        have hids := h.childNodes_ids n.id
        have hsame : (fun v : Node × ℕ × ℕ => v.1.id) ∘
            (fun c => (c, height + 1, len + 1 + c.name.utf8ByteSize)) = Node.id := rfl
        rw [hsame, hids]
        exact h.children_nodup n.id
      · intro i hi j hj
        obtain ⟨v, hv, rfl⟩ := List.mem_map.mp hi
        obtain ⟨w, hw, rfl⟩ := List.mem_map.mp hj
        exact hnew v hv w hw
    case keys =>
      intro v hv
      rcases hset.mp hv with hv | hv
      · exact Finmap.mem_keys.mpr (Finmap.mem_of_lookup_eq_some (hchild v hv).1)
      · exact hinv.noRepeat.keys v hv
  case found =>
    intro v hv
    rcases hset.mp hv with hv | hv
    · exact (hchild v hv).1
    · exact hinv.found v hv
  case below =>
    intro v hv chain hchain
    rcases hset.mp hv with hv | hv
    · obtain ⟨hfound, hp⟩ := hchild v hv
      obtain ⟨rest, rfl, hrest⟩ := hchain.of_parent ((TreeState.parent_of_lookup hfound).trans hp)
      exact List.mem_cons_of_mem _ (hinv.below _ hmem hrest)
    · exact hinv.below v hv hchain
  case origin =>
    intro v hv
    rcases hset.mp hv with hv | hv
    · exact .inr ⟨_, List.mem_cons_self, (hchild v hv).2⟩
    · refine (hinv.origin v hv).imp_right ?_
      rintro ⟨u, hu, hp⟩
      exact ⟨u, List.mem_cons_of_mem _ hu, hp⟩

/-- Before the first visit. -/
theorem extentInv_start (htop : st.nodes.lookup top.id = some top) :
    ExtentInv st top [] [(top, 0, 1 + top.name.utf8ByteSize)] := by
  constructor
  case noRepeat =>
    refine ⟨List.nodup_singleton _, fun v hv => ?_⟩
    rw [List.mem_singleton.mp hv]
    exact Finmap.mem_keys.mpr (Finmap.mem_of_lookup_eq_some htop)
  case found =>
    intro v hv
    rw [List.mem_singleton.mp hv]
    exact htop
  case below =>
    intro v hv chain hchain
    rw [List.mem_singleton.mp hv] at hchain
    exact hchain.head_mem
  case origin =>
    intro v hv
    rw [List.mem_singleton.mp hv]
    exact .inl rfl

/-- **The search for the extent of a subtree returns.** -/
theorem subtreeExtent_visits (h : WellFormed st) (htop : st.nodes.lookup top.id = some top) :
    ∃ visited, explore .notFound st.visitForExtent st.size
      [(top, 0, 1 + top.name.utf8ByteSize)] = .ok visited :=
  explore_total (ExtentInv st top) (fun _ _ hinv => hinv.noRepeat)
    (fun _ _ _ hinv => h.extentInv_step hinv) (extentInv_start htop) (le_refl _)

/-- **The extent of a subtree covers every node below its top**: the levels down
to it, and the path down to it. -/
theorem subtreeExtent_le (h : WellFormed st) {height relLen : ℕ} {pre suf : List Node}
    (hext : st.subtreeExtent top = .ok (height, relLen))
    (hchain : NodeChain st n (pre ++ top :: suf)) :
    pre.length ≤ height ∧ TreeState.pathLen pre + (1 + top.name.utf8ByteSize) ≤ relLen := by
  obtain ⟨visited, hvisited, hext⟩ := checks_pass.mp hext
  cases hext
  obtain ⟨hstart, hclosed⟩ := explore_closed hvisited
  -- by induction on the way down: the node is visited with its level and its path
  have hfound : ∀ {pre : List Node} {n : Node}, NodeChain st n (pre ++ top :: suf) →
      (((pre ++ top :: suf).headD top), pre.length,
        TreeState.pathLen pre + (1 + top.name.utf8ByteSize)) ∈ visited := by
    intro pre
    induction pre with
    | nil =>
      intro n _
      have hmem := hstart _ List.mem_cons_self
      simpa using hmem
    | cons k pre ih =>
      intro n hn
      have hk := hn.lookup k List.mem_cons_self
      have hkid : k.id = n.id := by
        obtain ⟨ids, hids⟩ := hn.ids.exists_cons
        rw [List.cons_append, List.map_cons, List.cons.injEq] at hids
        exact hids.1
      have hkchain : NodeChain st k (k :: (pre ++ top :: suf)) := ⟨hkid ▸ hn.ids, hn.lookup⟩
      cases hp : k.parentId with
      | none =>
        -- a node without a parent is the whole of its chain
        have hone := hkchain.unique (.root hk hp (h.eq_root hk hp))
        simp at hone
      | some p =>
        obtain ⟨m, hm, -⟩ := h.folders hk hp
        have hid := h.ids hm
        obtain ⟨rest, hrest, hmchain⟩ := hkchain.of_parent hk hp hid
        rw [List.cons.injEq] at hrest
        rw [← hrest.2] at hmchain
        have hmhead : (pre ++ top :: suf).headD top = m := by
          obtain ⟨rest', hrest'⟩ := hmchain.head (hid ▸ hm)
          rw [hrest']
          rfl
        have hparent := ih hmchain
        rw [hmhead] at hparent
        obtain ⟨next, hnext, hall⟩ := hclosed _ hparent
        cases hnext
        have hchild := hall (k, pre.length + 1, _) (List.mem_map.mpr
          ⟨k, h.mem_childNodes.mpr ⟨hk, hid ▸ hp⟩, rfl⟩)
        have hlen : TreeState.pathLen (k :: pre) + (1 + top.name.utf8ByteSize) =
            TreeState.pathLen pre + (1 + top.name.utf8ByteSize) + 1 + k.name.utf8ByteSize := by
          rw [TreeState.pathLen_cons hp]
          omega
        rw [hlen]
        exact hchild
  have hmem := hfound hchain
  exact ⟨(le_foldl_max (f := fun v : Node × ℕ × ℕ => v.2.1)).1 hmem,
    (le_foldl_max (f := fun v : Node × ℕ × ℕ => v.2.2)).1 hmem⟩

end WellFormed

end Files

end KdxHotline
