import KdxHotline.Files.Differing

/-!
# Inherited read access

A walk for a session is the walk of the server itself behind one list of read
rules: the folders it looks inside on the way, and at an alias the whole way down
to the target (`KdxHotline.Files.TreeState.looked`). That is
`KdxHotline.Files.WellFormed.follow_eq`, and what a session learns from a refused
walk follows from it: the error belongs to the first folder of that list which
refuses, and the list up to there does not depend on what the folder holds.

The requests that read apply the same rules once more to the node they end at, so
an answer means that every folder above it is open to the session
(`KdxHotline.Files.WellFormed.reads_inherit`).
-/

namespace KdxHotline

namespace Files

open Foundations Storage Auth Limits

variable {st : TreeState} {n m f folder current : Node} {s : Session} {chain : List Node}

/-! ### The folders above a node -/

/-- The folder whose contents a node is read as: itself, or the one a file is in. -/
def IsHome (st : TreeState) (node folder : Node) : Prop :=
  if node.kind.isFolder then folder = node
  else node.parentId = some folder.id ∧ st.nodes.lookup folder.id = some folder

/-- Every folder on the way from a node up to the root lets the session read. -/
def OpenAbove (st : TreeState) (s : Session) (node : Node) : Prop :=
  ∃ folder chain, IsHome st node folder ∧ NodeChain st folder chain ∧
    ∀ k ∈ chain, checkReadNode k s = .ok ()

/-- The first folder of the list that refuses the session does so with `e`. -/
def RefusedWith (s : Session) (l : List Node) (e : AclError) : Prop :=
  ∃ pre g rest, l = pre ++ g :: rest ∧ (∀ k ∈ pre, checkReadNode k s = .ok ()) ∧
    checkReadNode g s = .error e

namespace TreeState

/-- A chain is readable when each of its nodes is. -/
theorem checkReadEach_eq_ok : ∀ {l : List Node},
    checkReadEach s l = .ok () ↔ ∀ k ∈ l, checkReadNode k s = .ok ()
  | [] => by simp [checkReadEach]
  | k :: l => by
    have ih := checkReadEach_eq_ok (l := l)
    constructor
    · intro h
      obtain ⟨_, hk, hl⟩ := checks_pass.mp h
      exact List.forall_mem_cons.mpr ⟨access_eq_ok.mp hk, ih.mp hl⟩
    · intro h
      obtain ⟨hk, hl⟩ := List.forall_mem_cons.mp h
      exact checks_pass.mpr ⟨(), access_eq_ok.mpr hk, ih.mpr hl⟩

/-- Reading the rules in order fails with the first refusal. -/
theorem checkReadEach_eq_error : ∀ {l : List Node} {x : TreeError},
    checkReadEach s l = .error x ↔ ∃ e, RefusedWith s l e ∧ x = .acl e
  | [], x => by
    refine iff_of_false (fun h => by cases h) ?_
    rintro ⟨e, ⟨pre, g, rest, hl, -⟩, -⟩
    exact List.append_ne_nil_of_right_ne_nil pre (List.cons_ne_nil g rest) hl.symm
  | k :: l, x => by
    have ih := checkReadEach_eq_error (l := l) (x := x)
    constructor
    · intro h
      rcases checks_refuse.mp h with hk | ⟨_, hk, hl⟩
      · obtain ⟨e, he, rfl⟩ := access_eq_error.mp hk
        exact ⟨e, ⟨[], k, l, rfl, by simp, he⟩, rfl⟩
      · obtain ⟨e, ⟨pre, g, rest, rfl, hpre, hg⟩, rfl⟩ := ih.mp hl
        exact ⟨e, ⟨k :: pre, g, rest, rfl,
          List.forall_mem_cons.mpr ⟨access_eq_ok.mp hk, hpre⟩, hg⟩, rfl⟩
    · rintro ⟨e, ⟨pre, g, rest, hl, hpre, hg⟩, rfl⟩
      refine checks_refuse.mpr ?_
      cases pre with
      | nil =>
        obtain ⟨rfl, rfl⟩ := List.cons.inj hl
        exact .inl (access_eq_error.mpr ⟨e, hg, rfl⟩)
      | cons k' pre =>
        obtain ⟨rfl, rfl⟩ := List.cons.inj hl
        obtain ⟨hk, hpre⟩ := List.forall_mem_cons.mp hpre
        exact .inr ⟨(), access_eq_ok.mpr hk, ih.mpr ⟨e, ⟨pre, g, rest, rfl, hpre, hg⟩, rfl⟩⟩

theorem checkReadEach_append {l l' : List Node} :
    checkReadEach s (l ++ l') = (do
      checkReadEach s l
      checkReadEach s l') := by
  induction l with
  | nil => rfl
  | cons k l ih => simp only [List.cons_append, checkReadEach, ih, bind_assoc]

/-- The way up from the folder a node is read as. -/
def gate (st : TreeState) (node : Node) : Except TreeError (List Node) :=
  if node.kind.isFolder then st.ancestry node
  else do
    let parent ← st.parentOf node
    st.ancestry parent

theorem checkNodeReadable_eq (st : TreeState) (node : Node) (s : Session) :
    st.checkNodeReadable node s = (do
      let chain ← st.gate node
      checkReadEach s chain.reverse) := by
  unfold checkNodeReadable gate checkReadChain
  split
  · rfl
  · rw [bind_assoc]

end TreeState

theorem RefusedWith.append {l : List Node} {e : AclError} (h : RefusedWith s l e) (l' : List Node) :
    RefusedWith s (l ++ l') e := by
  obtain ⟨pre, g, rest, rfl, hpre, hg⟩ := h
  exact ⟨pre, g, rest ++ l', by simp, hpre, hg⟩

/-- A list with a folder that refuses has a first one. -/
theorem exists_refusedWith {l : List Node} {e : AclError} (hf : f ∈ l)
    (hrefused : checkReadNode f s = .error e) : ∃ e', RefusedWith s l e' := by
  cases hl : TreeState.checkReadEach s l with
  | ok u =>
    have hpass := TreeState.checkReadEach_eq_ok.mp hl f hf
    rw [hrefused] at hpass
    cases hpass
  | error x =>
    obtain ⟨e', he', -⟩ := TreeState.checkReadEach_eq_error.mp hl
    exact ⟨e', he'⟩

namespace WellFormed

/-- Every node is read as some folder. -/
theorem exists_home (h : WellFormed st) (hn : st.nodes.lookup n.id = some n) :
    ∃ folder, IsHome st n folder ∧ st.nodes.lookup folder.id = some folder := by
  unfold IsHome
  by_cases hfolder : n.kind.isFolder = true
  · exact ⟨n, by rw [if_pos hfolder], hn⟩
  · cases hp : n.parentId with
    | none =>
      -- only the root has no parent, and it is a folder
      obtain ⟨r, hr, -, hkind⟩ := h.root
      rw [h.eq_root hn hp, hr] at hn
      rw [Option.some.inj hn] at hkind
      exact absurd hkind hfolder
    | some p =>
      obtain ⟨m, hm, -⟩ := h.folders hn hp
      obtain rfl := h.ids hm
      exact ⟨m, by rw [if_neg hfolder]; exact ⟨rfl, hm⟩, hm⟩

/-- **The gate of a node is the way up from the folder it is read as.** -/
theorem gate_eq_ok (h : WellFormed st) (hhome : IsHome st n folder)
    (hfolder : st.nodes.lookup folder.id = some folder) :
    st.gate n = .ok chain ↔ NodeChain st folder chain := by
  unfold IsHome at hhome
  unfold TreeState.gate
  split at hhome
  · rename_i hkind
    subst hhome
    rw [if_pos hkind]
    exact h.ancestry_eq_ok hfolder
  · rename_i hkind
    obtain ⟨hp, hfound⟩ := hhome
    rw [if_neg hkind, TreeState.parentOf, hp, Option.bind_some, hfound]
    exact h.ancestry_eq_ok hfolder

/-- **A node may be read exactly if every folder above it may.** -/
theorem checkNodeReadable_eq_ok (h : WellFormed st) (hn : st.nodes.lookup n.id = some n) :
    st.checkNodeReadable n s = .ok () ↔ OpenAbove st s n := by
  obtain ⟨folder, hhome, hfolder⟩ := h.exists_home hn
  rw [TreeState.checkNodeReadable_eq]
  constructor
  · intro hread
    obtain ⟨chain, hgate, heach⟩ := checks_pass.mp hread
    refine ⟨folder, chain, hhome, (h.gate_eq_ok hhome hfolder).mp hgate, fun k hk => ?_⟩
    exact TreeState.checkReadEach_eq_ok.mp heach k (List.mem_reverse.mpr hk)
  · rintro ⟨folder', chain, hhome', hchain, hall⟩
    have hfolder' : st.nodes.lookup folder'.id = some folder' := by
      unfold IsHome at hhome'
      split at hhome'
      · exact hhome' ▸ hn
      · exact hhome'.2
    refine checks_pass.mpr ⟨chain, (h.gate_eq_ok hhome' hfolder').mpr hchain, ?_⟩
    exact TreeState.checkReadEach_eq_ok.mpr fun k hk => hall k (List.mem_reverse.mp hk)

end WellFormed

/-! ### The folders a walk looks inside -/

namespace TreeState

/-- The folders whose rules apply before a walk looks inside what it has come to,
the outermost first: the folder itself, or at an alias all of the way down to the
target. -/
def lookedAt (st : TreeState) (current : Node) : List Node :=
  match st.resolveThroughAlias current with
  | .error _ => []
  | .ok target =>
    if current.kind = .alias_ then ((st.gate target).toOption.getD []).reverse
    else if target.kind.isFolder then [target] else []

/-- The folders whose rules apply along the names, in order, as far as they lead. -/
def looked (st : TreeState) : Node → List String → List Node
  | _, [] => []
  | current, name :: rest =>
    st.lookedAt current ++
      match st.follow none current [name] with
      | .error _ => []
      | .ok next => looked st next rest

theorem follow_cons {session : Option Session} {name : String} {rest : List String} :
    st.follow session current (name :: rest) = (do
      let folder ← st.walkable session current
      let next ← required .notFound ((st.childNodes folder.id).find? fun n => n.name = name)
      st.follow session next rest) := rfl

/-- A walk looks inside what its parts look inside. -/
theorem looked_append : ∀ {pre rest : List String} {n : Node}, st.follow none n pre = .ok m →
    st.looked n (pre ++ rest) = st.looked n pre ++ st.looked m rest
  | [], rest, n, h => by
    obtain rfl := Except.ok.inj h
    rfl
  | k :: pre, rest, n, h => by
    rw [show k :: pre = [k] ++ pre from rfl, follow_append] at h
    obtain ⟨next, hnext, h⟩ := checks_pass.mp h
    simp only [List.cons_append, looked, hnext, looked_append h, List.append_assoc]

end TreeState

namespace WellFormed

/-- A walk that hops lands on a node of the tree that is no alias. -/
theorem resolveThroughAlias_eq_ok (h : WellFormed st) (hn : st.nodes.lookup n.id = some n)
    (hthrough : st.resolveThroughAlias n = .ok f) :
    st.nodes.lookup f.id = some f ∧ f.kind ≠ .alias_ := by
  unfold TreeState.resolveThroughAlias at hthrough
  split at hthrough
  · obtain rfl := Except.ok.inj hthrough
    exact ⟨hn, ‹_›⟩
  · obtain ⟨t, -, hrest⟩ := checks_pass.mp hthrough
    obtain ⟨k, hk, hrest⟩ := checks_pass.mp hrest
    obtain ⟨_, hkind, hrest⟩ := checks_pass.mp hrest
    obtain rfl := Except.ok.inj hrest
    have hk := required_eq_ok.mp hk
    exact ⟨h.ids hk ▸ hk, by simpa using hkind⟩

/-- **A session looks inside what the server looks inside**, if the folders that
guard it let it. -/
theorem walkable_eq (h : WellFormed st) (hn : st.nodes.lookup n.id = some n) :
    st.walkable (some s) n = (do
      TreeState.checkReadEach s (st.lookedAt n)
      st.walkable none n) := by
  unfold TreeState.walkable TreeState.lookedAt
  cases hthrough : st.resolveThroughAlias n with
  | error e =>
    by_cases halias : n.kind = .alias_
    · rw [if_pos halias, if_pos halias]
      rfl
    · rw [TreeState.resolveThroughAlias, if_pos halias] at hthrough
      cases hthrough
  | ok f =>
    by_cases halias : n.kind = .alias_
    · obtain ⟨hf, -⟩ := h.resolveThroughAlias_eq_ok hn hthrough
      obtain ⟨folder, hhome, hfolder⟩ := h.exists_home hf
      obtain ⟨chain, hchain⟩ := h.exists_chain hfolder
      simp only [if_pos halias, ok_bind, TreeState.checkHop, TreeState.checkNodeReadable_eq,
        (h.gate_eq_ok hhome hfolder).mpr hchain, Except.toOption, Option.getD_some]
    · rw [TreeState.resolveThroughAlias, if_pos halias] at hthrough
      obtain rfl := Except.ok.inj hthrough
      simp only [if_neg halias, TreeState.checkLook, ok_bind]
      split
      · simp only [TreeState.checkReadEach, bind_assoc, ok_bind]
      · rfl

/-- The child a walk goes on to is a node of the tree. -/
theorem found_child (h : WellFormed st) {p name : String}
    (hfind : (st.childNodes p).find? (fun n => n.name = name) = some m) :
    st.nodes.lookup m.id = some m :=
  (h.mem_childNodes.mp (List.mem_of_find?_eq_some hfind)).1

/-- **A walk for a session is the walk of the server behind the read rules of what
it looks inside.** -/
theorem follow_eq (h : WellFormed st) : ∀ {names : List String} {n : Node},
    st.nodes.lookup n.id = some n →
      st.follow (some s) n names = (do
        TreeState.checkReadEach s (st.looked n names)
        st.follow none n names)
  | [], n, _ => rfl
  | name :: rest, n, hn => by
    have ih := fun next (hnext : st.nodes.lookup next.id = some next) => @follow_eq h rest next hnext
    simp only [TreeState.follow_cons, TreeState.looked, h.walkable_eq hn,
      TreeState.checkReadEach_append, bind_assoc]
    congr 1
    funext _
    cases hwalk : st.walkable none n with
    | error e => simp [TreeState.follow, TreeState.checkReadEach]
    | ok folder =>
      simp only [TreeState.follow, ok_bind]
      cases hfind : (st.childNodes folder.id).find? fun n => n.name = name with
      | none => rfl
      | some next => simp only [required, ok_bind, ih next (h.found_child hfind)]

/-- A node a walk ends at is a node of the tree. -/
theorem follow_lookup (h : WellFormed st) : ∀ {names : List String} {n : Node},
    st.nodes.lookup n.id = some n → st.follow none n names = .ok m → st.nodes.lookup m.id = some m
  | [], n, hn, hm => Except.ok.inj hm ▸ hn
  | name :: rest, n, _, hm => by
    obtain ⟨folder, -, hm⟩ := checks_pass.mp hm
    obtain ⟨next, hnext, hm⟩ := checks_pass.mp hm
    exact h.follow_lookup (h.found_child (required_eq_ok.mp hnext)) hm

/-! ### What an answer says, and what a refusal says -/

/-- What a session resolves, the server resolves, and it is a node of the tree. -/
theorem resolveAs_eq_ok (h : WellFormed st) {path : String} (hn : st.resolveAs path s = .ok n) :
    st.walk path none = .ok n ∧ st.nodes.lookup n.id = some n := by
  obtain ⟨_, hpath, hn⟩ := checks_pass.mp hn
  obtain ⟨root, hroot, hn⟩ := checks_pass.mp hn
  have hlookup := required_eq_ok.mp hroot
  have hroot' := h.ids hlookup ▸ hlookup
  rw [h.follow_eq hroot'] at hn
  obtain ⟨_, -, hn⟩ := checks_pass.mp hn
  refine ⟨?_, h.follow_lookup hroot' hn⟩
  exact checks_pass.mpr ⟨_, hpath, checks_pass.mpr ⟨root, hroot, hn⟩⟩

/-- **A walk is refused by the first folder it looks inside that refuses**, whatever
that folder holds. -/
theorem resolveAs_refused (h : WellFormed st) {path : String} {root : Node} {pre rest : List String}
    {name : String} {e : AclError} (hpath : checkPath path = .ok ())
    (hroot : st.nodes.lookup rootId = some root) (hsegments : segments path = pre ++ name :: rest)
    (hn : st.follow none root pre = .ok n)
    (hrefused : RefusedWith s (st.looked root (pre ++ [name])) e) :
    st.resolveAs path s = .error (.acl e) := by
  have hlooked : ∃ l, st.looked root (segments path) = st.looked root (pre ++ [name]) ++ l := by
    rw [hsegments, TreeState.looked_append hn, TreeState.looked_append hn]
    simp only [TreeState.looked, List.append_assoc]
    split <;> simp
  obtain ⟨l, hl⟩ := hlooked
  have heach : TreeState.checkReadEach s (st.looked root (segments path)) = .error (.acl e) := by
    rw [hl]
    exact TreeState.checkReadEach_eq_error.mpr ⟨e, hrefused.append l, rfl⟩
  rw [TreeState.resolveAs, TreeState.walk, hpath, hroot]
  simp only [Except.mapError, required, ok_bind, h.follow_eq (h.ids hroot ▸ hroot), heach, error_bind]

/-- The folder a walk looks inside is one of those whose rules it applies. -/
theorem mem_lookedAt (h : WellFormed st) (hn : st.nodes.lookup n.id = some n)
    (hthrough : st.resolveThroughAlias n = .ok f) (hfolder : f.kind.isFolder = true) :
    f ∈ st.lookedAt n := by
  unfold TreeState.lookedAt
  rw [hthrough]
  by_cases halias : n.kind = .alias_
  · obtain ⟨hf, -⟩ := h.resolveThroughAlias_eq_ok hn hthrough
    obtain ⟨chain, hchain⟩ := h.exists_chain hf
    obtain ⟨rest, rfl⟩ := hchain.head hf
    have hgate := (h.gate_eq_ok (by rw [IsHome, if_pos hfolder]) hf).mpr hchain
    simp [if_pos halias, hgate, Except.toOption]
  · simp [if_neg halias, if_pos hfolder]

/-- What a request reads is open all the way up. -/
theorem openAbove_of_read (h : WellFormed st) {path : String} (hn : st.resolveAs path s = .ok n)
    (hthrough : st.resolveThroughAlias n = .ok f) (hread : st.checkNodeReadable f s = .ok ()) :
    OpenAbove st s f := by
  obtain ⟨-, hlookup⟩ := h.resolveAs_eq_ok hn
  obtain ⟨hfound, -⟩ := h.resolveThroughAlias_eq_ok hlookup hthrough
  exact (h.checkNodeReadable_eq_ok hfound).mp hread

/-- **Read access is inherited, whatever the path.** What is listed, described or
opened has every folder above it open to the session. A folder on the way that
refuses makes the request fail with the error of the first folder to refuse, in
the order the walk applies their rules and whether or not it holds the next name;
that is its own error when the walk came down to it. -/
theorem reads_inherit (h : WellFormed st) (s : Session) (path : String) :
    (∀ entries, st.list path s = .ok entries → ∃ n folder, st.walk path none = .ok n ∧
      st.resolveThroughAlias n = .ok folder ∧ folder.kind.isFolder = true ∧
      entries = ((st.childNodes folder.id).map (st.entryOf s)).insertionSort (fun a b => a.name ≤ b.name) ∧
      OpenAbove st s folder) ∧
    (∀ node, st.info path s = .ok node → OpenAbove st s node) ∧
    (∀ node, st.openForRead path s = .ok node → OpenAbove st s node) ∧
    ∀ root pre name rest n folder e, checkPath path = .ok () → st.nodes.lookup rootId = some root →
      segments path = pre ++ name :: rest → st.follow none root pre = .ok n →
      st.resolveThroughAlias n = .ok folder → folder.kind.isFolder = true →
      checkReadNode folder s = .error e →
      ∃ e', RefusedWith s (st.looked root (pre ++ [name])) e' ∧
        st.list path s = .error (.acl e') ∧ st.info path s = .error (.acl e') ∧
        st.openForRead path s = .error (.acl e') ∧
        (n.kind ≠ .alias_ → st.follow (some s) root pre = .ok n → e' = e) := by
  refine ⟨fun entries hlist => ?_, fun node hinfo => ?_, fun node hopen => ?_, ?_⟩
  · obtain ⟨n, hn, hlist⟩ := checks_pass.mp hlist
    obtain ⟨folder, hthrough, hlist⟩ := checks_pass.mp hlist
    obtain ⟨_, hfolder, hlist⟩ := checks_pass.mp hlist
    obtain ⟨_, hread, hlist⟩ := checks_pass.mp hlist
    exact ⟨n, folder, (h.resolveAs_eq_ok hn).1, hthrough, by simpa using hfolder,
      (Except.ok.inj hlist).symm, h.openAbove_of_read hn hthrough hread⟩
  · obtain ⟨n, hn, hinfo⟩ := checks_pass.mp hinfo
    obtain ⟨f, hthrough, hinfo⟩ := checks_pass.mp hinfo
    obtain ⟨_, hread, hinfo⟩ := checks_pass.mp hinfo
    obtain rfl := Except.ok.inj hinfo
    exact h.openAbove_of_read hn hthrough hread
  · obtain ⟨n, hn, hopen⟩ := checks_pass.mp hopen
    obtain ⟨f, hthrough, hopen⟩ := checks_pass.mp hopen
    obtain ⟨_, hread, hopen⟩ := checks_pass.mp hopen
    obtain ⟨_, -, hopen⟩ := checks_pass.mp hopen
    obtain rfl := Except.ok.inj hopen
    exact h.openAbove_of_read hn hthrough hread
  · intro root pre name rest n folder e hpath hroot hsegments hn hthrough hfolder hrefused
    have hroot' := h.ids hroot ▸ hroot
    -- the folder is among those that the walk looks at to find the next name
    have hlooked : st.looked root (pre ++ [name]) = st.looked root pre ++ st.lookedAt n := by
      rw [TreeState.looked_append hn]
      simp only [TreeState.looked]
      split <;> simp
    have hmem := h.mem_lookedAt (h.follow_lookup hroot' hn) hthrough hfolder
    obtain ⟨e', he'⟩ := exists_refusedWith (l := st.looked root (pre ++ [name]))
      (hlooked ▸ List.mem_append_right _ hmem) hrefused
    have hresolve := h.resolveAs_refused hpath hroot hsegments hn he'
    refine ⟨e', he', ?_, ?_, ?_, fun hplain hpassed => ?_⟩
    · rw [TreeState.list, hresolve, error_bind]
    · rw [TreeState.info, hresolve, error_bind]
    · rw [TreeState.openForRead, hresolve, error_bind]
    · -- everything before passed, and the folder is the only one looked at here
      rw [h.follow_eq hroot'] at hpassed
      obtain ⟨_, hbefore, -⟩ := checks_pass.mp hpassed
      have hown : st.lookedAt n = [folder] := by
        rw [TreeState.lookedAt, hthrough]
        simp [hplain, hfolder]
      have hlast : TreeState.checkReadEach s (st.looked root (pre ++ [name])) = .error (.acl e) := by
        rw [hlooked, hown, TreeState.checkReadEach_append, hbefore]
        simp only [ok_bind, TreeState.checkReadEach, hrefused, access, Except.mapError, error_bind]
      -- the error of the walk is both that of the folder and the first one
      have hfirst := TreeState.checkReadEach_eq_error.mpr ⟨e', he', rfl⟩
      rw [hlast] at hfirst
      exact (TreeError.acl.inj (Except.error.inj hfirst)).symm

end WellFormed

/-! ### A drop box behind a class gate -/

namespace Hidden

/-- A session that sees into drop boxes. -/
def admin : Session := ⟨"admin", .admin, Privileges.all⟩

/-- A session that does not. -/
def visitor : Session := ⟨"visitor", .user, Privileges.all⟩

/-- A drop box in a folder for administrators, and an alias of it at the root. -/
def made : List Operation :=
  [.createFolder "s" "/" "staff" .directory .admin .admin none admin,
    .createFolder "b" "/staff" "box" .dropBox .guest .guest none admin,
    .createAlias "a" "/staff/box" "/" admin]

/-- The tree that was made. -/
def tree : TreeState := ((FileTree.fresh []).after made).state

/-- The drop box. -/
def box : Node :=
  ⟨"b", some "s", "box", .dropBox, 0, none, .guest, .guest, none, none, .default_, none⟩

/-- The alias of the drop box. -/
def boxAlias : Node :=
  ⟨"a", some rootId, "box", .alias_, 0, none, .guest, .powerUser, none, some "b", .default_, none⟩

theorem wellFormed_tree : WellFormed tree :=
  ((sound_fresh []).run (@FileTree.run_after made _ (by decide +kernel))).wellFormed

theorem hop : tree.follow (some visitor) freshRoot ["box"] = .ok boxAlias := by decide +kernel

theorem lands : tree.resolveThroughAlias boxAlias = .ok box := by decide +kernel

theorem list_refused : tree.list "/box/x" visitor = .error (.acl .classTooLow) := by decide +kernel

end Hidden

open Hidden in
/-- At an alias the error can be that of a folder above the target: here the target
is a drop box, and the folder it is in refuses first. -/
theorem not_own_error : ¬∀ (st : TreeState) (s : Session) (path : String), WellFormed st →
    ∀ root pre name rest n folder e, checkPath path = .ok () → st.nodes.lookup rootId = some root →
      segments path = pre ++ name :: rest → st.follow (some s) root pre = .ok n →
      st.resolveThroughAlias n = .ok folder → folder.kind.isFolder = true →
      checkReadNode folder s = .error e → st.list path s = .error (.acl e) := by
  intro hall
  have hown := hall tree visitor "/box/x" wellFormed_tree freshRoot ["box"] "x" [] boxAlias box
    .dropBoxIsWriteOnly (by decide +kernel) (by decide +kernel) (by decide +kernel) hop lands rfl
    (by decide)
  rw [list_refused] at hown
  exact absurd hown (by decide)

open Hidden in
theorem reads_inherit_hidden : ∃ e', RefusedWith visitor (tree.looked freshRoot (["box"] ++ ["x"])) e' ∧
    tree.list "/box/x" visitor = .error (.acl e') := by
  obtain ⟨-, -, -, hrefused⟩ := wellFormed_tree.reads_inherit visitor "/box/x"
  obtain ⟨e', he', hlist, -⟩ := hrefused freshRoot ["box"] "x" [] boxAlias box .dropBoxIsWriteOnly
    (by decide +kernel) (by decide +kernel) (by decide +kernel) (by decide +kernel) lands rfl
    (by decide)
  exact ⟨e', he', hlist⟩

end Files

end KdxHotline
