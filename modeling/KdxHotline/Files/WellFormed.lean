import KdxHotline.Files.Tree
import KdxHotline.Foundations.Forest

/-!
# Well-formed trees

What the two maps of `KdxHotline.Files.TreeState` must satisfy to be a tree
(`KdxHotline.Files.WellFormed`): parent links lead to the root, only folders have
children, the lists of children are the inverse of the parent links, siblings
have different names, and no alias points at an alias.

Three changes of the maps keep it, each stated by what it does to a lookup rather
than by how it is computed: entering a new leaf
(`KdxHotline.Files.WellFormed.insert`), removing a set of nodes that is closed
downwards (`KdxHotline.Files.WellFormed.remove`) and hanging a node under another
folder (`KdxHotline.Files.WellFormed.move`).
-/

namespace KdxHotline

namespace Files

open Foundations Storage Auth Limits

namespace TreeState

/-- The parent link of an id. -/
def parent (st : TreeState) (i : String) : Option String := (st.nodes.lookup i).bind Node.parentId

theorem parent_of_lookup {st : TreeState} {i : String} {n : Node} (h : st.nodes.lookup i = some n) :
    st.parent i = n.parentId := by
  rw [parent, h, Option.bind_some]

theorem mem_childNodes {st : TreeState} {p : String} {n : Node} :
    n ∈ st.childNodes p ↔ ∃ c ∈ st.childIds p, st.nodes.lookup c = some n := List.mem_filterMap

theorem nameTaken_iff {st : TreeState} {p name : String} :
    st.nameTaken p name = true ↔ ∃ n ∈ st.childNodes p, n.name = name := by
  simp [nameTaken]

theorem climb_none {st : TreeState} {fuel : ℕ} {n : Node} (hp : n.parentId = none) :
    st.climb fuel n = if n.id = rootId then .ok [n] else .error .notFound := by
  cases fuel <;> simp [climb, hp]

theorem climb_zero {st : TreeState} {n : Node} {p : String} (hp : n.parentId = some p) :
    st.climb 0 n = .error .notFound := by
  simp [climb, hp]

theorem climb_succ {st : TreeState} {fuel : ℕ} {n : Node} {p : String} (hp : n.parentId = some p) :
    st.climb (fuel + 1) n = (do
      let parent ← required .notFound (st.nodes.lookup p)
      let chain ← st.climb fuel parent
      return n :: chain) := by
  simp [climb, hp]

/-- A climb from a node without a parent ends where it starts, at the root. -/
theorem climb_parentless {st : TreeState} {fuel : ℕ} {n : Node} {chain : List Node}
    (hp : n.parentId = none) (hc : st.climb fuel n = .ok chain) : n.id = rootId ∧ chain = [n] := by
  rw [climb_none hp] at hc
  split at hc
  · cases hc
    exact ⟨‹_›, rfl⟩
  · cases hc

theorem insertInMemory_lookup (st : TreeState) (node : Node) (i : String) :
    (st.insertInMemory node).nodes.lookup i =
      if i = node.id then some node else st.nodes.lookup i := by
  by_cases hi : i = node.id
  · subst hi
    simp [insertInMemory]
  · simp [insertInMemory, hi]

/-- A new node comes last in its folder. -/
theorem insertInMemory_childIds (st : TreeState) (node : Node) (q : String) :
    (st.insertInMemory node).childIds q =
      if node.parentId = some q then st.childIds q ++ [node.id] else st.childIds q := by
  cases hp : node.parentId with
  | none => simp [insertInMemory, childIds, hp]
  | some p =>
    by_cases hq : p = q
    · subst hq
      simp [insertInMemory, childIds, hp]
    · simp [insertInMemory, childIds, hp, hq, Ne.symm hq]

end TreeState

/-- The maps are a tree with root `rootId`. -/
structure WellFormed (st : TreeState) : Prop where
  ids : ∀ {i n}, st.nodes.lookup i = some n → n.id = i
  root : ∃ r, st.nodes.lookup rootId = some r ∧ r.parentId = none ∧ r.kind.isFolder = true
  rooted : ∀ {i n}, st.nodes.lookup i = some n → ∃ chain, Chain st.parent rootId i chain
  folders : ∀ {i n p}, st.nodes.lookup i = some n → n.parentId = some p →
    ∃ q, st.nodes.lookup p = some q ∧ q.kind.isFolder = true
  names : ∀ {i j n m p}, st.nodes.lookup i = some n → st.nodes.lookup j = some m →
    n.parentId = some p → m.parentId = some p → n.name = m.name → i = j
  children : ∀ {p c}, c ∈ st.childIds p ↔ ∃ n, st.nodes.lookup c = some n ∧ n.parentId = some p
  children_nodup : ∀ p, (st.childIds p).Nodup
  plain : ∀ {i n}, st.nodes.lookup i = some n → n.kind ≠ .alias_ → n.targetId = none
  targets : ∀ {i n t m}, st.nodes.lookup i = some n → n.targetId = some t →
    st.nodes.lookup t = some m → m.kind ≠ .alias_

namespace WellFormed

variable {st st' : TreeState} {i j p q d x : String} {n m node : Node}

/-- A climb that ends has followed the chain of parents. -/
theorem climb_chain (h : WellFormed st) : ∀ {fuel : ℕ} {n : Node} {chain : List Node},
    st.nodes.lookup n.id = some n → st.climb fuel n = .ok chain →
      Chain st.parent rootId n.id (chain.map Node.id) ∧
        ∀ m ∈ chain, st.nodes.lookup m.id = some m := by
  intro fuel n chain hn hc
  induction fuel generalizing n chain with
  | zero =>
    cases hp : n.parentId with
    | none =>
      obtain ⟨hroot, rfl⟩ := TreeState.climb_parentless hp hc
      have hlink := (TreeState.parent_of_lookup hn).trans hp
      rw [hroot] at hlink
      refine ⟨by simpa [hroot] using Chain.root hlink, fun m hm => ?_⟩
      rw [List.mem_singleton.mp hm]
      exact hn
    | some p =>
      rw [TreeState.climb_zero hp] at hc
      cases hc
  | succ fuel ih =>
    cases hp : n.parentId with
    | none =>
      obtain ⟨hroot, rfl⟩ := TreeState.climb_parentless hp hc
      have hlink := (TreeState.parent_of_lookup hn).trans hp
      rw [hroot] at hlink
      refine ⟨by simpa [hroot] using Chain.root hlink, fun m hm => ?_⟩
      rw [List.mem_singleton.mp hm]
      exact hn
    | some p =>
      rw [TreeState.climb_succ hp] at hc
      obtain ⟨parent, hparent, hc⟩ := checks_pass.mp hc
      obtain ⟨rest, hrest, hc⟩ := checks_pass.mp hc
      cases hc
      have hlookup := required_eq_ok.mp hparent
      have hid := h.ids hlookup
      obtain ⟨hchain, hall⟩ := ih (hid ▸ hlookup) hrest
      refine ⟨.step ((TreeState.parent_of_lookup hn).trans hp) (hid ▸ hchain), fun m hm => ?_⟩
      rcases List.mem_cons.mp hm with rfl | hm
      · exact hn
      · exact hall m hm

/-- **The children of a node are the nodes that name it as their parent.** -/
theorem mem_childNodes (h : WellFormed st) :
    n ∈ st.childNodes p ↔ st.nodes.lookup n.id = some n ∧ n.parentId = some p := by
  rw [TreeState.mem_childNodes]
  constructor
  · rintro ⟨c, hc, hn⟩
    obtain ⟨n', hn', hp⟩ := h.children.mp hc
    obtain rfl : n = n' := Option.some.inj (hn.symm.trans hn')
    exact ⟨h.ids hn ▸ hn, hp⟩
  · rintro ⟨hn, hp⟩
    exact ⟨n.id, h.children.mpr ⟨n, hn, hp⟩, hn⟩

/-- A chain of parents stays among the nodes. -/
theorem chain_lookup (h : WellFormed st) {chain : List String}
    (hchain : Chain st.parent rootId i chain) (hj : j ∈ chain) :
    ∃ n, st.nodes.lookup j = some n := by
  obtain ⟨pre, suf, -, hsuf, -⟩ := hchain.of_mem hj
  cases hsuf with
  | root =>
    obtain ⟨r, hr, -⟩ := h.root
    exact ⟨r, hr⟩
  | step hp =>
    obtain ⟨n, hn, -⟩ := Option.bind_eq_some_iff.mp hp
    exact ⟨n, hn⟩

/-- A node without a parent is the root. -/
theorem eq_root (h : WellFormed st) (hn : st.nodes.lookup i = some n) (hp : n.parentId = none) :
    i = rootId := by
  obtain ⟨chain, hchain⟩ := h.rooted hn
  exact hchain.eq_root ((TreeState.parent_of_lookup hn).trans hp)

/-! ### Entering a leaf -/

/-- **A new leaf under a folder keeps the tree well formed**, if its name is free
there and nothing points at its id. -/
theorem insert (h : WellFormed st) (hfresh : st.nodes.lookup node.id = none)
    (hparent : node.parentId = some p) (hfolder : st.nodes.lookup p = some m)
    (hkind : m.kind.isFolder = true)
    (hname : ∀ {i n}, st.nodes.lookup i = some n → n.parentId = some p → n.name ≠ node.name)
    (hplain : node.kind ≠ .alias_ → node.targetId = none)
    (htarget : ∀ {t m}, node.targetId = some t → st.nodes.lookup t = some m → m.kind ≠ .alias_)
    (hloose : ∀ {i n}, st.nodes.lookup i = some n → n.targetId ≠ some node.id)
    (hself : node.targetId ≠ some node.id) :
    WellFormed (st.insertInMemory node) := by
  have hlookup := TreeState.insertInMemory_lookup st node
  -- the ids are new or old, and a chain never runs through the new one
  have hold : ∀ {i n}, st.nodes.lookup i = some n → i ≠ node.id := by
    rintro i n hn rfl
    rw [hfresh] at hn
    cases hn
  have hp : p ≠ node.id := hold hfolder
  have hchildIds : ∀ q, (st.insertInMemory node).childIds q =
      if q = p then st.childIds p ++ [node.id] else st.childIds q := by
    intro q
    simp only [TreeState.insertInMemory_childIds, hparent, Option.some.injEq]
    by_cases hq : q = p
    · rw [if_pos hq.symm, if_pos hq, hq]
    · rw [if_neg (Ne.symm hq), if_neg hq]
  have hlink : ∀ j, j ≠ node.id → (st.insertInMemory node).parent j = st.parent j := by
    intro j hj
    rw [TreeState.parent, TreeState.parent, hlookup, if_neg hj]
  have hchain : ∀ {i chain}, Chain st.parent rootId i chain →
      Chain (st.insertInMemory node).parent rootId i chain := by
    intro i chain hc
    refine hc.congr fun j hj => hlink j ?_
    obtain ⟨n, hn⟩ := h.chain_lookup hc hj
    exact hold hn
  have hsome : ∀ {i n}, (st.insertInMemory node).nodes.lookup i = some n →
      (i = node.id ∧ n = node) ∨ (i ≠ node.id ∧ st.nodes.lookup i = some n) := by
    intro i n hn
    rw [hlookup] at hn
    split at hn
    · exact .inl ⟨‹_›, (Option.some.inj hn).symm⟩
    · exact .inr ⟨‹_›, hn⟩
  constructor
  case ids =>
    intro i n hn
    rcases hsome hn with ⟨rfl, rfl⟩ | ⟨-, hn⟩
    · rfl
    · exact h.ids hn
  case root =>
    obtain ⟨r, hr, hroot⟩ := h.root
    exact ⟨r, by rw [hlookup, if_neg (hold hr)]; exact hr, hroot⟩
  case rooted =>
    intro i n hn
    rcases hsome hn with ⟨rfl, rfl⟩ | ⟨-, hn⟩
    · obtain ⟨chain, hc⟩ := h.rooted hfolder
      refine ⟨n.id :: chain, .step ?_ (hchain hc)⟩
      rw [TreeState.parent_of_lookup hn, hparent]
    · obtain ⟨chain, hc⟩ := h.rooted hn
      exact ⟨chain, hchain hc⟩
  case folders =>
    intro i n q hn hq
    rcases hsome hn with ⟨rfl, rfl⟩ | ⟨-, hn⟩
    · obtain rfl : p = q := Option.some.inj (hparent.symm.trans hq)
      exact ⟨m, by rw [hlookup, if_neg hp]; exact hfolder, hkind⟩
    · obtain ⟨f, hf, hfk⟩ := h.folders hn hq
      exact ⟨f, by rw [hlookup, if_neg (hold hf)]; exact hf, hfk⟩
  case names =>
    intro i j n n' q hn hn' hq hq' hsame
    -- two children of one folder: both old, or one of them new, whose name is free
    rcases hsome hn with ⟨rfl, rfl⟩ | ⟨-, hi⟩ <;> rcases hsome hn' with ⟨rfl, rfl⟩ | ⟨-, hj⟩
    · rfl
    · rw [hparent] at hq
      cases hq
      exact absurd hsame.symm (hname hj hq')
    · rw [hparent] at hq'
      cases hq'
      exact absurd hsame (hname hi hq)
    · exact h.names hi hj hq hq' hsame
  case children =>
    intro q c
    rw [hchildIds]
    constructor
    · intro hc
      split at hc
      · rename_i hq
        subst hq
        rcases List.mem_append.mp hc with hc | hc
        · obtain ⟨n, hn, hpar⟩ := h.children.mp hc
          exact ⟨n, by rw [hlookup, if_neg (hold hn)]; exact hn, hpar⟩
        · rw [List.mem_singleton.mp hc]
          exact ⟨node, by rw [hlookup, if_pos rfl], hparent⟩
      · obtain ⟨n, hn, hpar⟩ := h.children.mp hc
        exact ⟨n, by rw [hlookup, if_neg (hold hn)]; exact hn, hpar⟩
    · rintro ⟨n, hn, hpar⟩
      rcases hsome hn with ⟨rfl, rfl⟩ | ⟨-, hn⟩
      · rw [hparent] at hpar
        cases hpar
        simp
      · have hc := h.children.mpr ⟨n, hn, hpar⟩
        split
        · rename_i hq
          subst hq
          exact List.mem_append_left _ hc
        · exact hc
  case children_nodup =>
    intro q
    rw [hchildIds]
    split
    · refine List.nodup_append.mpr ⟨h.children_nodup p, List.nodup_singleton _, ?_⟩
      rintro a ha b hb rfl
      obtain ⟨n, hn, -⟩ := h.children.mp ha
      exact hold hn (List.mem_singleton.mp hb)
    · exact h.children_nodup q
  case plain =>
    intro i n hn hk
    rcases hsome hn with ⟨rfl, rfl⟩ | ⟨-, hn⟩
    · exact hplain hk
    · exact h.plain hn hk
  case targets =>
    intro i n t n' hn ht hn'
    rcases hsome hn with ⟨rfl, rfl⟩ | ⟨-, hi⟩ <;> rcases hsome hn' with ⟨rfl, rfl⟩ | ⟨-, hj⟩
    · exact absurd ht hself
    · exact htarget ht hj
    · exact absurd ht (hloose hi)
    · exact h.targets hi ht hj

/-! ### Removing nodes -/

/-- **Removing nodes keeps the tree well formed**, if with each node all its
children go, and only the one below `p` is not the child of another that goes. -/
theorem remove (h : WellFormed st) {gone : List String} (hroot : rootId ∉ gone)
    (hdown : ∀ {i n p}, st.nodes.lookup i = some n → n.parentId = some p → p ∈ gone → i ∈ gone)
    (hup : ∀ {i n}, i ∈ gone → st.nodes.lookup i = some n → i ≠ x →
      ∃ p, n.parentId = some p ∧ p ∈ gone)
    (hx : st.parent x = some p) (hxgone : x ∈ gone) (hp : p ∉ gone)
    (hlookup : ∀ i, st'.nodes.lookup i = if i ∈ gone then none else st.nodes.lookup i)
    (hchildIds : ∀ q, st'.childIds q = if q ∈ gone then [] else if q = p then
      (st.childIds p).filter (· ≠ x) else st.childIds q) : WellFormed st' := by
  have hsome : ∀ {i n}, st'.nodes.lookup i = some n → i ∉ gone ∧ st.nodes.lookup i = some n := by
    intro i n hn
    rw [hlookup] at hn
    split at hn
    · cases hn
    · exact ⟨‹_›, hn⟩
  have hkeep : ∀ {i n}, i ∉ gone → st.nodes.lookup i = some n → st'.nodes.lookup i = some n := by
    intro i n hi hn
    rw [hlookup, if_neg hi, hn]
  have hlink : ∀ i, i ∉ gone → st'.parent i = st.parent i := by
    intro i hi
    rw [TreeState.parent, TreeState.parent, hlookup, if_neg hi]
  have hstays : ∀ {i chain}, Chain st.parent rootId i chain → i ∉ gone → ∀ j ∈ chain, j ∉ gone := by
    intro i chain hc
    induction hc with
    | root =>
      intro hi j hj
      rw [List.mem_singleton.mp hj]
      exact hi
    | @step k q chain hq _ ih =>
      intro hi j hj
      rcases List.mem_cons.mp hj with rfl | hj
      · exact hi
      · refine ih (fun hgone => hi ?_) j hj
        obtain ⟨n, hn, hpar⟩ := Option.bind_eq_some_iff.mp hq
        exact hdown hn hpar hgone
  -- a child that goes is `x` or hangs below one that goes
  have hchild : ∀ {q c n}, st.nodes.lookup c = some n → n.parentId = some q → q ∉ gone → c ≠ x →
      c ∉ gone := by
    intro q c n hn hq hgone hc hmem
    obtain ⟨q', hq', hmem'⟩ := hup hmem hn hc
    rw [hq] at hq'
    cases hq'
    exact hgone hmem'
  constructor
  case ids => exact fun hn => h.ids (hsome hn).2
  case root =>
    obtain ⟨r, hr, hrest⟩ := h.root
    exact ⟨r, hkeep hroot hr, hrest⟩
  case rooted =>
    intro i n hn
    obtain ⟨hi, hn⟩ := hsome hn
    obtain ⟨chain, hc⟩ := h.rooted hn
    exact ⟨chain, hc.congr fun j hj => hlink j (hstays hc hi j hj)⟩
  case folders =>
    intro i n q hn hq
    obtain ⟨hi, hn⟩ := hsome hn
    obtain ⟨f, hf, hfk⟩ := h.folders hn hq
    exact ⟨f, hkeep (fun hgone => hi (hdown hn hq hgone)) hf, hfk⟩
  case names => exact fun hn hm => h.names (hsome hn).2 (hsome hm).2
  case children =>
    intro q c
    rw [hchildIds]
    constructor
    · intro hc
      split at hc
      · cases hc
      · rename_i hq
        split at hc
        · rename_i hqp
          obtain ⟨hc, hne⟩ := List.mem_filter.mp hc
          obtain ⟨n, hn, hpar⟩ := h.children.mp hc
          exact ⟨n, hkeep (hchild hn hpar hp (by simpa using hne)) hn, hqp ▸ hpar⟩
        · rename_i hqp
          obtain ⟨n, hn, hpar⟩ := h.children.mp hc
          refine ⟨n, hkeep (hchild hn hpar hq ?_) hn, hpar⟩
          rintro rfl
          rw [TreeState.parent_of_lookup hn, hpar] at hx
          exact hqp (Option.some.inj hx)
    · rintro ⟨n, hn, hpar⟩
      obtain ⟨hcn, hn⟩ := hsome hn
      have hc := h.children.mpr ⟨n, hn, hpar⟩
      have hq : q ∉ gone := fun hgone => hcn (hdown hn hpar hgone)
      rw [if_neg hq]
      split
      · rename_i hqp
        subst hqp
        refine List.mem_filter.mpr ⟨hc, ?_⟩
        have hne : c ≠ x := fun he => hcn (he ▸ hxgone)
        simpa using hne
      · exact hc
  case children_nodup =>
    intro q
    rw [hchildIds]
    split
    · exact List.nodup_nil
    · split
      · exact (h.children_nodup p).filter _
      · exact h.children_nodup q
  case plain => exact fun hn => h.plain (hsome hn).2
  case targets => exact fun hn ht hm => h.targets (hsome hn).2 ht (hsome hm).2

/-! ### Moving a node -/

/-- **Hanging a node under another folder keeps the tree well formed**, if the
folder is not below the node and has no other child of that name. -/
theorem move (h : WellFormed st) (hnode : st.nodes.lookup x = some n) (hp : n.parentId = some p)
    (hd : st.nodes.lookup d = some m) (hkind : m.kind.isFolder = true) {chain : List String}
    (hchain : Chain st.parent rootId d chain) (hcycle : x ∉ chain)
    (hname : ∀ {i k}, st.nodes.lookup i = some k → k.parentId = some d → k.name = n.name → i = x)
    (hlookup : ∀ i, st'.nodes.lookup i =
      if i = x then some { n with parentId := some d } else st.nodes.lookup i)
    (hchildIds : ∀ q, st'.childIds q =
      if q = d then (if d = p then (st.childIds p).filter (· ≠ x) else st.childIds d) ++ [x]
      else if q = p then (st.childIds p).filter (· ≠ x) else st.childIds q) : WellFormed st' := by
  have hlink : ∀ i, i ≠ x → st'.parent i = st.parent i := by
    intro i hi
    rw [TreeState.parent, TreeState.parent, hlookup, if_neg hi]
  have hlinkx : st'.parent x = some d := by
    rw [TreeState.parent, hlookup, if_pos rfl]
    rfl
  -- the chain of `d` avoids `x`, so it is still there and `x` hangs below it
  have hnewd : Chain st'.parent rootId x (x :: chain) := by
    refine .step hlinkx (hchain.congr fun j hj => hlink j ?_)
    rintro rfl
    exact hcycle hj
  have hsome : ∀ {i k}, st'.nodes.lookup i = some k →
      (i = x ∧ k = { n with parentId := some d }) ∨ (i ≠ x ∧ st.nodes.lookup i = some k) := by
    intro i k hk
    rw [hlookup] at hk
    split at hk
    · exact .inl ⟨‹_›, (Option.some.inj hk).symm⟩
    · exact .inr ⟨‹_›, hk⟩
  have hkeep : ∀ {i k}, st.nodes.lookup i = some k → i ≠ x → st'.nodes.lookup i = some k := by
    intro i k hk hi
    rw [hlookup, if_neg hi, hk]
  have hsame : ∀ {i k}, st.nodes.lookup i = some k →
      ∃ k', st'.nodes.lookup i = some k' ∧ k'.kind = k.kind := by
    intro i k hk
    by_cases hi : i = x
    · subst hi
      rw [hnode] at hk
      cases hk
      exact ⟨{ n with parentId := some d }, by rw [hlookup, if_pos rfl], rfl⟩
    · exact ⟨k, hkeep hk hi, rfl⟩
  have hback : ∀ {i k}, st'.nodes.lookup i = some k →
      ∃ k₀, st.nodes.lookup i = some k₀ ∧ k.id = k₀.id ∧ k.name = k₀.name ∧ k.kind = k₀.kind ∧
        k.targetId = k₀.targetId := by
    intro i k hk
    rcases hsome hk with ⟨rfl, rfl⟩ | ⟨-, hk⟩
    · exact ⟨n, hnode, rfl, rfl, rfl, rfl⟩
    · exact ⟨k, hk, rfl, rfl, rfl, rfl⟩
  have hroot : x ≠ rootId := by
    rintro rfl
    obtain ⟨r, hr, hnone, -⟩ := h.root
    rw [hnode] at hr
    cases hr
    rw [hp] at hnone
    cases hnone
  constructor
  case ids =>
    intro i k hk
    obtain ⟨k₀, hk₀, hid, -⟩ := hback hk
    rw [hid, h.ids hk₀]
  case root =>
    obtain ⟨r, hr, hrest⟩ := h.root
    exact ⟨r, hkeep hr hroot.symm, hrest⟩
  case rooted =>
    intro i k hk
    obtain ⟨k₀, hk₀, -⟩ := hback hk
    obtain ⟨c, hc⟩ := h.rooted hk₀
    -- a chain through `x` goes on above it by the new chain, another one is left alone
    by_cases hmem : x ∈ c
    · obtain ⟨pre, suf, -, hnew⟩ := hc.move (fun j hj => hlink j hj) hnewd hmem
      exact ⟨_, hnew⟩
    · refine ⟨c, hc.congr fun j hj => hlink j ?_⟩
      rintro rfl
      exact hmem hj
  case folders =>
    intro i k q hk hq
    obtain ⟨f, hf, hfk⟩ : ∃ f, st.nodes.lookup q = some f ∧ f.kind.isFolder = true := by
      rcases hsome hk with ⟨rfl, rfl⟩ | ⟨-, hk⟩
      · cases hq
        exact ⟨m, hd, hkind⟩
      · exact h.folders hk hq
    obtain ⟨f', hf', hsamek⟩ := hsame hf
    exact ⟨f', hf', by rw [hsamek]; exact hfk⟩
  case names =>
    intro i j k k' q hk hk' hq hq' hnames
    rcases hsome hk with ⟨rfl, rfl⟩ | ⟨-, hi⟩ <;> rcases hsome hk' with ⟨rfl, rfl⟩ | ⟨-, hj⟩
    · rfl
    · cases hq
      exact (hname hj hq' hnames.symm).symm
    · cases hq'
      exact hname hi hq hnames
    · exact h.names hi hj hq hq' hnames
  case children =>
    intro q c
    have hold : c ∈ st.childIds q ↔ ∃ k, st.nodes.lookup c = some k ∧ k.parentId = some q := h.children
    rw [hchildIds]
    by_cases hc : c = x
    · -- the moved node is listed under its new parent only
      subst hc
      have hnew : (∃ k, st'.nodes.lookup c = some k ∧ k.parentId = some q) ↔ q = d := by
        rw [hlookup, if_pos rfl]
        simp [eq_comm]
      have hwas : c ∈ st.childIds q ↔ q = p := by
        rw [hold, hnode]
        simp [hp, eq_comm]
      rw [hnew]
      by_cases hqd : q = d
      · simp [hqd]
      · by_cases hqp : q = p
        · subst hqp
          simp [hqd]
        · simp [hqd, hqp, hwas]
    · have hnew : (∃ k, st'.nodes.lookup c = some k ∧ k.parentId = some q) ↔ c ∈ st.childIds q := by
        rw [hlookup, if_neg hc, hold]
      rw [hnew]
      by_cases hqd : q = d
      · subst hqd
        by_cases hqp : q = p
        · subst hqp
          simp [hc]
        · simp [hqp, hc]
      · by_cases hqp : q = p
        · subst hqp
          simp [hqd, hc]
        · simp [hqd, hqp]
  case children_nodup =>
    intro q
    -- `x` was removed from the list it is appended to, or was never in it
    have hsnoc : ∀ {l : List String}, l.Nodup → x ∉ l → (l ++ [x]).Nodup := by
      intro l hl hx
      refine List.nodup_append.mpr ⟨hl, List.nodup_singleton _, ?_⟩
      rintro a ha b hb rfl
      exact hx (List.mem_singleton.mp hb ▸ ha)
    rw [hchildIds]
    split
    · split
      · exact hsnoc ((h.children_nodup p).filter _) (by simp)
      · rename_i hdp
        refine hsnoc (h.children_nodup d) fun hmem => hdp ?_
        obtain ⟨k, hk, hpar⟩ := h.children.mp hmem
        rw [hnode] at hk
        cases hk
        rw [hp] at hpar
        exact (Option.some.inj hpar).symm
    · split
      · exact (h.children_nodup p).filter _
      · exact h.children_nodup q
  case plain =>
    intro i k hk hkindk
    obtain ⟨k₀, hk₀, -, -, hk₁, ht⟩ := hback hk
    rw [ht]
    exact h.plain hk₀ (hk₁ ▸ hkindk)
  case targets =>
    intro i k t k' hk ht hk'
    obtain ⟨k₀, hk₀, -, -, -, ht₀⟩ := hback hk
    obtain ⟨k₁, hk₁, -, -, hkind₁, -⟩ := hback hk'
    rw [hkind₁]
    exact h.targets hk₀ (ht₀ ▸ ht) hk₁

end WellFormed

end Files

end KdxHotline
