import KdxHotline.Files.Differing

/-!
# Probing a folder that may not be listed

What a session can learn about the files of a folder whose own read rule refuses
it. A listing, a download or an upload says the same whatever the folder holds.
The tree operations do not: `create_folder`, `create_alias` and `move_node` look
the name up in their destination, whose read rule they never apply, so where the
write rule lets the session pass, a name that is taken answers differently from
one that is free. (A drop box is safe: its owner rule refuses first.) A source
path that hops through an alias answers differently when the alias points at one
of the files and when it dangles.

`KdxHotline.Files.answer_eq_iff` says exactly when two trees that differ in the
files of the folder give one answer.
-/

namespace KdxHotline

namespace Files

open Foundations Storage Auth Limits

/-- A call a session may make about a folder. -/
inductive Probe
  | prepareUpload (path name : String)
  | createFolder (id parentPath name : String) (kind : NodeKind)
      (minClassRead minClassWrite : BaseClass) (owner : Option String)
  | createAlias (id sourcePath destPath : String)
  | moveNode (path destPath : String)
  | list (path : String)
  | info (path : String)
  | openForRead (path : String)

/-- The path leads, whatever the rules, to the folder, to an alias of it or
further down from there. -/
def GoesThrough (st : TreeState) (f : Node) (path : String) : Prop :=
  ∃ root pre rest n, st.nodes.lookup rootId = some root ∧ segments path = pre ++ rest ∧
    st.follow none root pre = .ok n ∧ st.resolveThroughAlias n = .ok f

namespace Probe

/-- Success, or the error. -/
def answer (t : FileTree) (s : Session) : Probe → Except TreeError Unit
  | prepareUpload path name => (t.state.prepareUpload path name s).map fun _ => ()
  | createFolder id parentPath name kind r w owner =>
    outcome (Operation.createFolder id parentPath name kind r w owner s).run t
  | createAlias id sourcePath destPath =>
    outcome (Operation.createAlias id sourcePath destPath s).run t
  | moveNode path destPath => outcome (Operation.moveNode path destPath s).run t
  | list path => (t.state.list path s).map fun _ => ()
  | info path => (t.state.info path s).map fun _ => ()
  | openForRead path => (t.state.openForRead path s).map fun _ => ()

/-- The call is about the folder: it puts something into it, or its path goes
through it. -/
def About (st : TreeState) (f : Node) : Probe → Prop
  | prepareUpload path _ | createFolder _ path .. | createAlias _ _ path | moveNode _ path =>
    st.walk path none = .ok f
  | list path | info path | openForRead path => GoesThrough st f path

/-- The id drawn for a new node is in use in neither tree. -/
def DrawsFresh (st st' : TreeState) : Probe → Prop
  | createFolder id .. | createAlias id .. =>
    st.nodes.lookup id = none ∧ st'.nodes.lookup id = none
  | _ => True

/-- The path of what is aliased or moved. -/
def sourcePath : Probe → Option String
  | createAlias _ path _ | moveNode path _ => some path
  | _ => none

end Probe

/-! ### The checks before a name is looked up -/

namespace FileTree

/-- What `create_folder` checks before it looks at the tree. -/
def folderChecks (name : String) (kind : NodeKind) (owner : Option String) (s : Session) :
    Except TreeError Unit := do
  refuseIf (!kind.isFolder) .notAFolder
  (validateName name).mapError .invalidName
  checkOwner (owner.filter fun o => !o.isEmpty) s

/-- The checks of a placement up to the name. -/
def placeable (st : TreeState) (path name : String) (s : Session) : Except TreeError Node := do
  let parent ← st.resolveAs path s
  refuseIf (!parent.kind.isFolder) .notAFolder
  st.checkPlaceInto parent s true
  st.checkRoom parent 0 (1 + name.utf8ByteSize)
  return parent

/-- The checks of a move up to the name: the node, its parent and the folder it
is moved to. -/
def movable (st : TreeState) (path destPath : String) (s : Session) :
    Except TreeError (Node × Node × Node) := do
  let node ← st.resolveAs path s
  refuseIf (node.id == rootId) .notAFolder
  let parent ← st.parentOf node
  st.checkReadChain parent s
  access (checkRemoveFrom parent s)
  access (if node.kind.isFolder then checkRemoveFrom node s else .ok ())
  let dest ← st.resolveAs destPath s
  refuseIf (!dest.kind.isFolder) .notAFolder
  st.checkPlaceInto dest s true
  let chain ← st.ancestry dest
  refuseIf (chain.any fun n => n.id == node.id) .wouldCreateCycle
  return (node, parent, dest)

theorem placeInto_eq (st : TreeState) (path name : String) (s : Session) :
    placeInto st path name s = (do
      let parent ← placeable st path name s
      refuseIf (st.nameTaken parent.id name) .exists_
      return parent) := by
  simp [placeInto, placeable]

theorem moveTarget_eq (st : TreeState) (path destPath : String) (s : Session) :
    moveTarget st path destPath s = (do
      let (node, parent, dest) ← movable st path destPath s
      refuseIf (dest.id != parent.id && st.nameTaken dest.id node.name) .exists_
      let (height, relLen) ← st.subtreeExtent node
      st.checkRoom dest height relLen
      return (node, dest)) := by
  simp [moveTarget, movable]

end FileTree

namespace Probe

/-- The name the call looks up in the folder it puts something into, once it has
passed every check before that. -/
def asks (st : TreeState) (s : Session) : Probe → Option String
  | createFolder _ path name kind _ _ owner => Except.toOption do
    FileTree.folderChecks name kind owner s
    let _ ← FileTree.placeable st path name s
    return name
  | createAlias _ path destPath => Except.toOption do
    let source ← FileTree.aliasSource st path s
    let _ ← FileTree.placeable st destPath source.name s
    return source.name
  | moveNode path destPath => Except.toOption do
    let (node, _, _) ← FileTree.movable st path destPath s
    return node.name
  | _ => none

/-- The call cannot tell the trees apart: its source path does not hop through an
alias of something that only one of them has, and a name it looks up in the
folder is taken in both or in neither. -/
def Silent (f : Node) (st st' : TreeState) (s : Session) (p : Probe) : Prop :=
  (∀ path, p.sourcePath = some path → ¬HopsAstray st st' s path) ∧
    ∀ name, p.asks st s = some name → st.nameTaken f.id name = st'.nameTaken f.id name

end Probe

/-! ### What a write answers -/

namespace FileTree

section Answers

variable {t : FileTree} {s : Session}

/-- A statement that meets a fault fails with it. -/
theorem stored_faulty {α : Type} {g : FileTable → Except StorageError (α × FileTable)}
    (onError : StorageError → TreeError) (hfault : t.pool.faults.headD false = true) :
    ∃ t', Fails (stored onError (statement g)) t (onError .sqlx) t' :=
  ⟨_, fails_mapError.mpr ⟨_, fails_zoom.mpr ⟨_, statement_fails hfault, rfl⟩, rfl⟩⟩

/-- A creation that has passed its checks fails only if its statement does. -/
theorem addNode_outcome (h : Sound t) {row : FileNodeRow} {node parent : Node}
    (hnode : nodeFromRow row = .ok node) (hp : row.parentId = some parent.id)
    (hparent : t.state.nodes.lookup parent.id = some parent)
    (hid : t.state.nodes.lookup row.id = none)
    (hname : t.state.nameTaken parent.id row.name = false)
    (htarget : ∀ x, row.targetId = some x → ∃ n, t.state.nodes.lookup x = some n) :
    outcome (do let _ ← addNode (statement (FileNodes.insert row))) t =
      if t.pool.faults.headD false then .error (.storage .sqlx) else .ok () := by
  cases hquiet : t.pool.faults.headD false with
  | false =>
    obtain ⟨t', hret, -⟩ := addNode_progress h hquiet hnode hp hparent hid hname htarget
    exact Returns.outcome (returns_bind.mpr ⟨node, t', hret, returns_pure.mpr ⟨rfl, rfl⟩⟩)
  | true =>
    obtain ⟨t', hfail⟩ := stored_faulty mapWriteErr hquiet
    exact Fails.outcome (fails_bind.mpr (.inl (fails_bind.mpr (.inl hfail))))

/-- A move that has passed its checks fails only if its statement does. -/
theorem reparent_outcome (h : Sound t) {node dest : Node}
    (hnode : t.state.nodes.lookup node.id = some node)
    (hdest : t.state.nodes.lookup dest.id = some dest)
    (hname : t.state.nameTaken dest.id node.name = false) :
    outcome (do
      stored mapWriteErr (FileNodes.reparent node.id dest.id)
      setState (moveInMemory node.id dest.id)) t =
      if t.pool.faults.headD false then .error (.storage .sqlx) else .ok () := by
  cases hquiet : t.pool.faults.headD false with
  | false =>
    obtain ⟨q, hq, -⟩ := reparent_accepted h hquiet hnode hdest hname
    refine Returns.outcome (t := { t with pool := q, state := moveInMemory node.id dest.id t.state })
      (returns_bind.mpr ⟨(), { t with pool := q }, ?_, returns_modify.mpr rfl⟩)
    exact returns_mapError.mpr (returns_zoom.mpr ⟨q, hq, rfl⟩)
  | true =>
    obtain ⟨t', hfail⟩ := stored_faulty mapWriteErr hquiet
    exact Fails.outcome (fails_bind.mpr (.inl hfail))

/-- The row `create_folder` writes below `parent`. -/
def folderRow (id name : String) (kind : NodeKind) (r w : BaseClass) (owner : Option String)
    (s : Session) (parent : Node) : FileNodeRow :=
  ⟨id, some parent.id, name, kind.asU8, 0, none, (min r s.class_).toNat, (min w s.class_).toNat, none,
    none, owner.filter fun o => !o.isEmpty⟩

/-- The row `create_alias` writes below `dest`. -/
def aliasRow (id : String) (source dest : Node) : FileNodeRow :=
  ⟨id, some dest.id, source.name, 4, 0, none, 0, 2, none, some source.id, none⟩

/-- The answer of a new folder, up to its write. -/
theorem createFolder_answer (id path name : String) (kind : NodeKind) (r w : BaseClass)
    (owner : Option String) : (Probe.createFolder id path name kind r w owner).answer t s = (do
      folderChecks name kind owner s
      let parent ← placeable t.state path name s
      refuseIf (t.state.nameTaken parent.id name) .exists_
      outcome (do let _ ← addNode (statement (FileNodes.insert
        (folderRow id name kind r w owner s parent)))) t) := by
  simp only [Probe.answer, Operation.run, createFolder, folderChecks, placeInto_eq, bind_assoc, outcome_check_bind,
    outcome_get_bind, pure_bind]
  rfl

theorem createAlias_answer (id path destPath : String) :
    (Probe.createAlias id path destPath).answer t s = (do
      let source ← aliasSource t.state path s
      let dest ← placeable t.state destPath source.name s
      refuseIf (t.state.nameTaken dest.id source.name) .exists_
      outcome (do let _ ← addNode (statement (FileNodes.insert (aliasRow id source dest)))) t) := by
  simp only [Probe.answer, Operation.run, createAlias, placeInto_eq, bind_assoc, outcome_check_bind,
    outcome_get_bind, pure_bind]
  rfl

/-- The answer of a move, up to its write. -/
theorem moveNode_answer (path destPath : String) : (Probe.moveNode path destPath).answer t s = (do
      let (node, parent, dest) ← movable t.state path destPath s
      refuseIf (dest.id != parent.id && t.state.nameTaken dest.id node.name) .exists_
      let (height, relLen) ← t.state.subtreeExtent node
      t.state.checkRoom dest height relLen
      outcome (do
        stored mapWriteErr (FileNodes.reparent node.id dest.id)
        setState (moveInMemory node.id dest.id)) t) := by
  simp only [Probe.answer, Operation.run, moveNode, moveTarget_eq, bind_assoc, outcome_check_bind,
    outcome_get_bind, pure_bind]

end Answers

end FileTree

/-! ### Two trees, one call -/

section Two

open FileTree

/-- Behind a check for a name, two answers agree when the name is taken in both or
in neither. -/
theorem refuse_iff {taken taken' : Bool} {x x' : Except TreeError Unit}
    (hx : taken = false → x ≠ .error .exists_) (hx' : taken' = false → x' ≠ .error .exists_)
    (hsame : taken = false → taken' = false → x = x') :
    ((refuseIf taken TreeError.exists_ >>= fun _ => x) =
      (refuseIf taken' TreeError.exists_ >>= fun _ => x')) ↔ taken = taken' := by
  cases taken with
  | false =>
    cases taken' with
    | false => exact iff_of_true (hsame rfl rfl) rfl
    | true => exact iff_of_false (hx rfl) Bool.noConfusion
  | true =>
    cases taken' with
    | false => exact iff_of_false (fun he => hx' rfl he.symm) Bool.noConfusion
    | true => exact iff_of_true rfl rfl

/-- A statement never answers that a name is taken. -/
theorem not_exists {b : Bool} {x : Except TreeError Unit}
    (hx : x = if b then .error (.storage .sqlx) else .ok ()) : x ≠ .error .exists_ := by
  rw [hx]
  cases b
  · exact fun he => by cases he
  · exact fun he => TreeError.noConfusion (Except.error.inj he)

/-- A walk looks inside what a node resolves to. -/
theorem walkable_of_resolves {st : TreeState} {session : Option Session} {n m f : Node}
    (hthrough : st.resolveThroughAlias n = .ok f) (hw : st.walkable session n = .ok m) : m = f := by
  unfold TreeState.walkable at hw
  split at hw
  · obtain ⟨target, htarget, hw⟩ := checks_pass.mp hw
    obtain ⟨_, -, hw⟩ := checks_pass.mp hw
    rw [hthrough] at htarget
    exact (Except.ok.inj hw).symm.trans (Except.ok.inj htarget).symm
  · rename_i hplain
    rw [TreeState.resolveThroughAlias, if_pos hplain] at hthrough
    obtain ⟨_, -, hw⟩ := checks_pass.mp hw
    exact (Except.ok.inj hw).symm.trans (Except.ok.inj hthrough)

variable {f : Node} {t t' : FileTree} {s : Session}
  (h : DifferInFiles f t.state t'.state) (hrefused : checkReadNode f s ≠ .ok ())
include h hrefused

/-- An upload into the folder is blind, so it says nothing of what is there. -/
theorem prepareUpload_eq {path : String} (name : String) (hwalk : t.state.walk path none = .ok f) :
    t.state.prepareUpload path name s = t'.state.prepareUpload path name s := by
  obtain ⟨hresolve, hfolder⟩ := h.resolveAs_folder hrefused hwalk
  rw [TreeState.prepareUpload, TreeState.prepareUpload, ← hresolve]
  cases hw : t.state.resolveAs path s with
  | error e => rfl
  | ok n =>
    obtain rfl := hfolder n hw
    have hblind : (checkReadNode n s).toBool = false := by
      cases hread : checkReadNode n s with
      | error e => rfl
      | ok u => exact absurd hread hrefused
    have hdest : t.state.uploadDest n name s = t'.state.uploadDest n name s := by
      simp only [TreeState.uploadDest, h.checkPlaceInto_eq h.self, h.checkRoom_eq h.self,
        h.nameBudget_eq h.self, TreeState.checkUploadName, hblind, Bool.not_false, if_true]
    rw [ok_bind, ok_bind, hdest]

/-- Whether something may be placed does not depend on what the folder holds. -/
theorem placeable_eq {path : String} (name : String) (hwalk : t.state.walk path none = .ok f) :
    placeable t.state path name s = placeable t'.state path name s ∧
      ∀ n, placeable t.state path name s = .ok n → n = f := by
  obtain ⟨hresolve, hfolder⟩ := h.resolveAs_folder hrefused hwalk
  rw [placeable, placeable, ← hresolve]
  cases hw : t.state.resolveAs path s with
  | error e => exact ⟨rfl, fun n hn => by cases hn⟩
  | ok n =>
    obtain rfl := hfolder n hw
    rw [ok_bind, ok_bind, h.checkPlaceInto_eq h.self, h.checkRoom_eq h.self]
    refine ⟨rfl, fun m hm => ?_⟩
    obtain ⟨_, -, hm⟩ := checks_pass.mp hm
    obtain ⟨_, -, hm⟩ := checks_pass.mp hm
    obtain ⟨_, -, hm⟩ := checks_pass.mp hm
    exact (Except.ok.inj hm).symm

/-- What an alias is made of does not depend on what the folder holds. -/
theorem aliasSource_eq {path : String} (hno : ¬HopsAstray t.state t'.state s path) :
    aliasSource t.state path s = aliasSource t'.state path s ∧
      ∀ n, aliasSource t.state path s = .ok n → Shared f t.state n := by
  obtain ⟨hresolve, hshared⟩ := h.resolveAs_eq hrefused hno
  rw [aliasSource, aliasSource, ← hresolve]
  cases hw : t.state.resolveAs path s with
  | error e => exact ⟨rfl, fun n hn => by cases hn⟩
  | ok n =>
    have hn := hshared n hw
    rw [ok_bind, ok_bind, h.checkNodeReadable_eq hn]
    refine ⟨rfl, fun m hm => ?_⟩
    obtain ⟨_, -, hm⟩ := checks_pass.mp hm
    obtain ⟨_, -, hm⟩ := checks_pass.mp hm
    obtain ⟨_, -, hm⟩ := checks_pass.mp hm
    obtain ⟨_, -, hm⟩ := checks_pass.mp hm
    exact Except.ok.inj hm ▸ hn

/-- What a move into the folder has checked by the time it looks the name up. -/
structure Movable (st : TreeState) (f node parent : Node) : Prop where
  shared : Shared f st node
  parent : parent.id ≠ f.id
  chain : ∃ chain, NodeChain st f chain ∧ ∀ m ∈ chain, m.id ≠ node.id

/-- Whether something may be moved does not depend on what the folder holds. -/
theorem movable_eq {path destPath : String} (hno : ¬HopsAstray t.state t'.state s path)
    (hwalk : t.state.walk destPath none = .ok f) :
    movable t.state path destPath s = movable t'.state path destPath s ∧
      ∀ node parent dest, movable t.state path destPath s = .ok (node, parent, dest) →
        dest = f ∧ Movable t.state f node parent := by
  obtain ⟨hresolve, hshared⟩ := h.resolveAs_eq hrefused hno
  obtain ⟨hdest, hfolder⟩ := h.resolveAs_folder hrefused hwalk
  rw [movable, movable, ← hresolve]
  cases hw : t.state.resolveAs path s with
  | error e => exact ⟨rfl, fun _ _ _ hm => by cases hm⟩
  | ok node =>
    have hnode := hshared node hw
    rw [ok_bind, ok_bind, ← h.parentOf_eq hnode]
    cases hparent : t.state.parentOf node with
    | error e =>
      refine ⟨rfl, fun _ _ _ hm => ?_⟩
      obtain ⟨_, -, hm⟩ := checks_pass.mp hm
      cases hm
    | ok parent =>
      have hpshared := h.shared_parent hnode hparent
      simp only [ok_bind, ← h.checkReadChain_eq hpshared, ← hdest]
      cases hd : t.state.resolveAs destPath s with
      | error e =>
        refine ⟨rfl, fun _ _ _ hm => ?_⟩
        obtain ⟨_, -, hm⟩ := checks_pass.mp hm
        obtain ⟨_, -, hm⟩ := checks_pass.mp hm
        obtain ⟨_, -, hm⟩ := checks_pass.mp hm
        obtain ⟨_, -, hm⟩ := checks_pass.mp hm
        cases hm
      | ok dest =>
        obtain rfl := hfolder dest hd
        simp only [ok_bind, h.checkPlaceInto_eq h.self, h.ancestry_eq h.self]
        refine ⟨trivial, fun node' parent' dest' hm => ?_⟩
        obtain ⟨_, -, hm⟩ := checks_pass.mp hm
        obtain ⟨_, hread, hm⟩ := checks_pass.mp hm
        obtain ⟨_, -, hm⟩ := checks_pass.mp hm
        obtain ⟨_, -, hm⟩ := checks_pass.mp hm
        obtain ⟨_, -, hm⟩ := checks_pass.mp hm
        obtain ⟨_, -, hm⟩ := checks_pass.mp hm
        obtain ⟨chain, hchain, hm⟩ := checks_pass.mp hm
        obtain ⟨_, hcycle, hm⟩ := checks_pass.mp hm
        cases hm
        refine ⟨rfl, hnode, fun he => ?_, chain, ?_, by simpa using hcycle⟩
        · -- the folder cannot be read, and the parent of what is moved can
          have hfound := hpshared.found
          rw [he, h.folder] at hfound
          obtain rfl := Option.some.inj hfound
          obtain ⟨e, he⟩ := h.checkReadChain_refused hrefused
          rw [he] at hread
          cases hread
        · rw [← h.ancestry_eq h.self] at hchain
          exact (h.wf.ancestry_eq_ok h.folder).mp hchain

/-! #### Paths through the folder -/

/-- Looking at what a path through the folder leads to is refused the same way in
both trees. -/
theorem resolveThrough_eq {path : String} (hgoes : GoesThrough t.state f path) :
    (∃ e, t.state.resolveAs path s = .error e ∧ t'.state.resolveAs path s = .error e) ∨
      ∃ n, t.state.resolveAs path s = .ok n ∧ t'.state.resolveAs path s = .ok n ∧
        t.state.resolveThroughAlias n = .ok f ∧ t'.state.resolveThroughAlias n = .ok f := by
  obtain ⟨root, pre, rest, n, hroot, hsplit, hwalk, hthrough⟩ := hgoes
  have hroot' := h.root_eq ▸ hroot
  have hfollow := h.follow_eq hrefused pre (h.root_shared hroot)
  cases hcheck : checkPath path with
  | error e =>
    refine .inl ⟨.invalidPath e, ?_, ?_⟩ <;> rw [TreeState.resolveAs, TreeState.walk, hcheck] <;> rfl
  | ok u =>
    have hresolve : ∀ {st : TreeState}, st.nodes.lookup rootId = some root →
        st.resolveAs path s = (st.follow (some s) root pre >>= fun n => st.follow (some s) n rest) := by
      intro st hr
      rw [TreeState.resolveAs, TreeState.walk, hcheck, hr, hsplit]
      exact follow_append
    rw [hresolve hroot, hresolve hroot']
    obtain ⟨hsame, hshared⟩ : t.state.follow (some s) root pre = t'.state.follow (some s) root pre ∧
        ∀ n, t.state.follow (some s) root pre = .ok n → Shared f t.state n := by
      rcases hfollow with hsame | ⟨pre', name, rest', a, hpre, hpath, ha⟩
      · exact hsame
      · -- the walk without rules gets past that alias
        rw [hpre, follow_append, DifferInFiles.follow_none_of_some hpath, ok_bind] at hwalk
        exact absurd ha (h.not_oneSided_of_follow hwalk)
    rw [← hsame]
    cases hs : t.state.follow (some s) root pre with
    | error e => exact .inl ⟨e, rfl, rfl⟩
    | ok m =>
      obtain rfl : n = m :=
        Except.ok.inj (hwalk.symm.trans (DifferInFiles.follow_none_of_some hs))
      have hself' := h.found h.self
      have hnotAlias : f.kind ≠ .alias_ := by
        intro he
        have hfolder := h.isFolder
        rw [he] at hfolder
        cases hfolder
      -- the node is the folder, or an alias of it, in both trees
      have hthrough' : t'.state.resolveThroughAlias n = .ok f ∧ ¬OneSided t.state t'.state n := by
        by_cases halias : n.kind = .alias_
        · rw [TreeState.resolveThroughAlias, if_neg (not_not_intro halias)] at hthrough
          obtain ⟨target, htarget, hrest⟩ := checks_pass.mp hthrough
          obtain ⟨k, hk, hrest⟩ := checks_pass.mp hrest
          obtain ⟨_, -, hrest⟩ := checks_pass.mp hrest
          obtain rfl := Except.ok.inj hrest
          have hid := h.wf.ids (required_eq_ok.mp hk)
          have ht := required_eq_ok.mp htarget
          refine ⟨?_, ?_⟩
          · rw [TreeState.resolveThroughAlias, if_neg (not_not_intro halias)]
            refine checks_pass.mpr ⟨target, htarget, checks_pass.mpr ⟨k, ?_, ?_⟩⟩
            · exact required_eq_ok.mpr (hid ▸ hself')
            · exact checks_pass.mpr ⟨(), by simpa using hnotAlias, rfl⟩
          · rintro ⟨_, t₀, ht₀, hne⟩
            rw [ht] at ht₀
            obtain rfl := Option.some.inj ht₀
            rw [← hid, h.folder, hself'] at hne
            exact hne rfl
        · rw [TreeState.resolveThroughAlias, if_pos halias] at hthrough
          exact ⟨by rw [TreeState.resolveThroughAlias, if_pos halias, hthrough],
            fun ha => halias ha.1⟩
      rw [ok_bind, ok_bind]
      cases rest with
      | nil => exact .inr ⟨n, rfl, rfl, hthrough, hthrough'.1⟩
      | cons name rest =>
        refine .inl ?_
        have hlook := h.walkable_eq hrefused hthrough'.2
        obtain ⟨e, he⟩ : ∃ e, t.state.walkable (some s) n = .error e := by
          cases hw : t.state.walkable (some s) n with
          | error e => exact ⟨e, rfl⟩
          | ok m =>
            -- it would have looked inside the folder
            exact absurd (congrArg Node.id (walkable_of_resolves hthrough hw))
              (h.walkable_ne hrefused (hshared n hs) hw)
        exact ⟨e, by rw [TreeState.follow, he, error_bind],
          by rw [TreeState.follow, ← hlook, he, error_bind]⟩

/-- **A request that reads through the folder answers the same in both trees.** -/
theorem reads_eq {path : String} (hgoes : GoesThrough t.state f path) :
    (Probe.list path).answer t s = (Probe.list path).answer t' s ∧
      (Probe.info path).answer t s = (Probe.info path).answer t' s ∧
      (Probe.openForRead path).answer t s = (Probe.openForRead path).answer t' s := by
  simp only [Probe.answer, TreeState.list, TreeState.info, TreeState.openForRead]
  rcases resolveThrough_eq h hrefused hgoes with ⟨e, he, he'⟩ | ⟨n, hn, hn', hthrough, hthrough'⟩
  · simp only [he, he', error_bind, and_self]
  · obtain ⟨e, he⟩ := h.checkNodeReadable_self hrefused
    have he' := h.checkNodeReadable_eq (s := s) h.self ▸ he
    simp only [hn, hn', hthrough, hthrough', ok_bind, he, he', error_bind, h.isFolder, Bool.not_true,
      refuseIf, Bool.false_eq_true, if_false, and_self]

/-! #### What the tree operations tell -/

/-- A call whose source path hops astray is refused for another reason in each
tree. -/
theorem source_iff {p : Probe} (path : String) (hsource : p.sourcePath = some path)
    (hanswer : ∀ e, t.state.resolveAs path s = .error e → p.answer t s = .error e)
    (hanswer' : ∀ e, t'.state.resolveAs path s = .error e → p.answer t' s = .error e)
    (hno : ¬HopsAstray t.state t'.state s path →
      (p.answer t s = p.answer t' s ↔ p.Silent f t.state t'.state s)) :
    p.answer t s = p.answer t' s ↔ p.Silent f t.state t'.state s := by
  by_cases hop : HopsAstray t.state t'.state s path
  · refine iff_of_false (fun hsame => ?_) fun hsilent => hsilent.1 path hsource hop
    obtain ⟨e, e', hne, he, he'⟩ := h.resolveAs_ne hrefused hop
    rw [hanswer e he, hanswer' e' he'] at hsame
    exact hne (Except.error.inj hsame)
  · exact hno hop

section Writes

variable (hsound : Sound t) (hsound' : Sound t') (hfaults : t.pool.faults = t'.pool.faults)
include hsound hsound' hfaults

/-- Both trees answer a new folder alike just when the call is silent. -/
theorem createFolder_iff {id path name : String} {kind : NodeKind} {r w : BaseClass}
    {owner : Option String} (hwalk : t.state.walk path none = .ok f)
    (hid : t.state.nodes.lookup id = none) (hid' : t'.state.nodes.lookup id = none) :
    (Probe.createFolder id path name kind r w owner).answer t s =
        (Probe.createFolder id path name kind r w owner).answer t' s ↔
      (Probe.createFolder id path name kind r w owner).Silent f t.state t'.state s := by
  obtain ⟨hplace, hfolder⟩ := placeable_eq h hrefused name hwalk
  rw [createFolder_answer, createFolder_answer, ← hplace]
  cases hc : folderChecks name kind owner s with
  | error e => simp [Probe.Silent, Probe.sourcePath, Probe.asks, hc, Except.toOption]
  | ok u =>
    cases hp : placeable t.state path name s with
    | error e => simp [Probe.Silent, Probe.sourcePath, Probe.asks, hc, hp, Except.toOption]
    | ok n =>
      obtain rfl := hfolder n hp
      have hsilent : (Probe.createFolder id path name kind r w owner).Silent n t.state t'.state s ↔
          t.state.nameTaken n.id name = t'.state.nameTaken n.id name := by
        simp [Probe.Silent, Probe.sourcePath, Probe.asks, hc, hp, Except.toOption, pure, Except.pure]
      have hrow : nodeFromRow (folderRow id name kind r w owner s n) = .ok _ :=
        nodeFromRow_ok (by rfl : (kind.asU8 : ℤ) = (kind.asU8 : ℤ))
      have hnone : ∀ {st : TreeState} {x}, (folderRow id name kind r w owner s n).targetId = some x →
          ∃ m, st.nodes.lookup x = some m := fun hx => by cases hx
      have hout : t.state.nameTaken n.id name = false → _ :=
        fun hfree => addNode_outcome hsound hrow rfl h.folder hid hfree fun x hx => hnone hx
      have hout' : t'.state.nameTaken n.id name = false → _ :=
        fun hfree => addNode_outcome hsound' hrow rfl (h.found h.self) hid' hfree fun x hx => hnone hx
      -- the name is all that the two can differ in
      rw [hsilent]
      refine refuse_iff (fun hfree => not_exists (hout hfree)) (fun hfree => not_exists (hout' hfree))
        fun hfree hfree' => ?_
      rw [hout hfree, hout' hfree', hfaults]

/-- Both trees answer a new alias alike just when the call is silent. -/
theorem createAlias_iff {id path destPath : String} (hwalk : t.state.walk destPath none = .ok f)
    (hid : t.state.nodes.lookup id = none) (hid' : t'.state.nodes.lookup id = none) :
    (Probe.createAlias id path destPath).answer t s =
        (Probe.createAlias id path destPath).answer t' s ↔
      (Probe.createAlias id path destPath).Silent f t.state t'.state s := by
  refine source_iff h hrefused path rfl (fun e he => ?_) (fun e he => ?_) fun hno => ?_
  · rw [createAlias_answer, aliasSource, he]
    rfl
  · rw [createAlias_answer, aliasSource, he]
    rfl
  obtain ⟨hsource, hshared⟩ := aliasSource_eq h hrefused hno
  rw [createAlias_answer, createAlias_answer, ← hsource]
  cases hc : aliasSource t.state path s with
  | error e => simp [Probe.Silent, Probe.sourcePath, Probe.asks, hc, hno, Except.toOption]
  | ok source =>
    have hs := hshared source hc
    obtain ⟨hplace, hfolder⟩ := placeable_eq h hrefused source.name hwalk
    rw [ok_bind, ok_bind, ← hplace]
    cases hp : placeable t.state destPath source.name s with
    | error e => simp [Probe.Silent, Probe.sourcePath, Probe.asks, hc, hp, hno, Except.toOption]
    | ok n =>
      obtain rfl := hfolder n hp
      have hsilent : (Probe.createAlias id path destPath).Silent n t.state t'.state s ↔
          t.state.nameTaken n.id source.name = t'.state.nameTaken n.id source.name := by
        simp [Probe.Silent, Probe.sourcePath, Probe.asks, hc, hp, hno, Except.toOption, pure,
          Except.pure]
      have hrow : nodeFromRow (aliasRow id source n) = .ok _ :=
        nodeFromRow_ok (by rfl : (4 : ℤ) = (NodeKind.alias_.asU8 : ℤ))
      have htarget : ∀ {st : TreeState}, st.nodes.lookup source.id = some source →
          ∀ x, (aliasRow id source n).targetId = some x → ∃ m, st.nodes.lookup x = some m :=
        fun hfound x hx => ⟨source, Option.some.inj hx ▸ hfound⟩
      have hout : t.state.nameTaken n.id source.name = false → _ := fun hfree =>
        addNode_outcome hsound hrow rfl h.folder hid hfree (htarget hs.found)
      have hout' : t'.state.nameTaken n.id source.name = false → _ := fun hfree =>
        addNode_outcome hsound' hrow rfl (h.found h.self) hid' hfree (htarget (h.found hs))
      -- the name is all that the two can differ in
      rw [hsilent]
      refine refuse_iff (fun hfree => not_exists (hout hfree)) (fun hfree => not_exists (hout' hfree))
        fun hfree hfree' => ?_
      rw [hout hfree, hout' hfree', hfaults]

/-- Both trees answer a move alike just when the call is silent. -/
theorem moveNode_iff {path destPath : String} (hwalk : t.state.walk destPath none = .ok f) :
    (Probe.moveNode path destPath).answer t s = (Probe.moveNode path destPath).answer t' s ↔
      (Probe.moveNode path destPath).Silent f t.state t'.state s := by
  refine source_iff h hrefused path rfl (fun e he => ?_) (fun e he => ?_) fun hno => ?_
  · rw [moveNode_answer, movable, he]
    rfl
  · rw [moveNode_answer, movable, he]
    rfl
  obtain ⟨hmovable, hshared⟩ := movable_eq h hrefused hno hwalk
  rw [moveNode_answer, moveNode_answer, ← hmovable]
  cases hc : movable t.state path destPath s with
  | error e => simp [Probe.Silent, Probe.sourcePath, Probe.asks, hc, hno, Except.toOption]
  | ok moved =>
    obtain ⟨node, parent, dest⟩ := moved
    obtain ⟨rfl, hnode, hparent, chain, hchain, hcycle⟩ := hshared node parent dest hc
    have hsilent : (Probe.moveNode path destPath).Silent dest t.state t'.state s ↔
        t.state.nameTaken dest.id node.name = t'.state.nameTaken dest.id node.name := by
      simp [Probe.Silent, Probe.sourcePath, Probe.asks, hc, hno, Except.toOption, pure, Except.pure]
    have hne : (dest.id != parent.id) = true := by
      rw [bne_iff_ne]
      exact Ne.symm hparent
    have hout : t.state.nameTaken dest.id node.name = false → _ := fun hfree =>
      reparent_outcome hsound hnode.found h.folder hfree
    have hout' : t'.state.nameTaken dest.id node.name = false → _ := fun hfree =>
      reparent_outcome hsound' (h.found hnode) (h.found h.self) hfree
    rw [hsilent]
    simp only [ok_bind, hne, Bool.true_and, ← h.subtreeExtent_eq hnode hchain hcycle]
    cases hext : t.state.subtreeExtent node with
    | error e =>
      refine refuse_iff (fun _ => ?_) (fun _ => ?_) fun _ _ => rfl
      all_goals
        -- a well-formed tree has no cycle that the count of the subtree could run into
        obtain ⟨visited, hvisited⟩ := h.wf.subtreeExtent_visits hnode.found
        rw [TreeState.subtreeExtent, hvisited] at hext
        cases hext
    | ok extent =>
      obtain ⟨height, relLen⟩ := extent
      have hroom := h.checkRoom_eq h.self height relLen
      simp only [ok_bind, ← hroom]
      cases hr : t.state.checkRoom dest height relLen with
      | error e =>
        -- the refusals for room are never that the name exists
        have hnot : e ≠ .exists_ := by
          rintro rfl
          rcases checks_refuse.mp hr with hr | ⟨up, -, hr⟩
          · obtain ⟨up, hup⟩ := h.wf.exists_chain h.folder
            rw [(h.wf.ancestry_eq_ok h.folder).mpr hup] at hr
            cases hr
          · rcases checks_refuse.mp hr with hr | ⟨_, -, hr⟩
            · exact TreeError.noConfusion (refuseIf_eq_error.mp hr).2
            · exact TreeError.noConfusion (refuseIf_eq_error.mp hr).2
        exact refuse_iff (fun _ he => hnot (Except.error.inj he))
          (fun _ he => hnot (Except.error.inj he)) fun _ _ => rfl
      | ok u =>
        refine refuse_iff (fun hfree => not_exists (hout hfree))
          (fun hfree => not_exists (hout' hfree)) fun hfree hfree' => ?_
        rw [ok_bind, ok_bind, hout hfree, hout' hfree', hfaults]

/-- **What a call about a folder the session may not list tells of its files**: two
trees that differ in them alone give one answer exactly if the call does not hop
through an alias of one of them, and looks up no name that is taken in only one. -/
theorem answer_eq_iff {p : Probe} (habout : p.About t.state f)
    (hfresh : p.DrawsFresh t.state t'.state) :
    p.answer t s = p.answer t' s ↔ p.Silent f t.state t'.state s := by
  have hsilent : ∀ {p : Probe}, p.sourcePath = none → p.asks t.state s = none →
      p.Silent f t.state t'.state s := by
    intro p hsource hasks
    refine ⟨fun path hp => ?_, fun name hn => ?_⟩
    · rw [hsource] at hp
      cases hp
    · rw [hasks] at hn
      cases hn
  cases p with
  | prepareUpload path name =>
    refine iff_of_true ?_ (hsilent rfl rfl)
    rw [Probe.answer, Probe.answer, prepareUpload_eq h hrefused name habout]
  | createFolder id path name kind r w owner =>
    exact createFolder_iff h hrefused hsound hsound' hfaults habout hfresh.1 hfresh.2
  | createAlias id path destPath =>
    exact createAlias_iff h hrefused hsound hsound' hfaults habout hfresh.1 hfresh.2
  | moveNode path destPath => exact moveNode_iff h hrefused hsound hsound' hfaults habout
  | list path => exact iff_of_true (reads_eq h hrefused habout).1 (hsilent rfl rfl)
  | info path => exact iff_of_true (reads_eq h hrefused habout).2.1 (hsilent rfl rfl)
  | openForRead path => exact iff_of_true (reads_eq h hrefused habout).2.2 (hsilent rfl rfl)

end Writes

end Two

/-! ### A folder that takes what it does not show -/

namespace Gated

/-- A session of the highest class. -/
def admin : Session := ⟨"admin", .admin, Privileges.all⟩

/-- An ordinary session. -/
def visitor : Session := ⟨"visitor", .user, Privileges.all⟩

/-- A folder that administrators may read and users may write to. -/
def made : List Operation := [.createFolder "g" "/" "gate" .directory .admin .user none admin]

/-- A folder that only administrators read, and any user writes to. -/
def gate : Node :=
  ⟨"g", some rootId, "gate", .directory, 0, none, .admin, .user, none, none, .default_, none⟩

/-- The tree whose folder is empty. -/
def empty : FileTree := (FileTree.fresh []).after made

/-- What the visitor tries. -/
def probe : Probe := .createFolder "n" "/gate" "x" .directory .guest .guest none

theorem sound_empty : Sound empty :=
  (sound_fresh []).run (FileTree.run_after (by decide +kernel))

theorem lookup_gate : empty.state.nodes.lookup "g" = some gate := by decide +kernel

/-- A tree whose folder holds a file `x` and that is otherwise the same. -/
theorem exists_filed : ∃ t, Sound t ∧ t.pool.faults = [] ∧ DifferInFiles gate empty.state t.state ∧
    t.state.nodes.lookup "n" = none ∧ t.state.nameTaken gate.id "x" = true := by
  have hfree : ∀ i ∈ ["x", "n"], empty.state.nodes.lookup i = none := by decide +kernel
  obtain ⟨node, t, hfiled, hquiet, hstate, hid, hp, hname, hkind⟩ :=
    FileTree.addFile_progress 0 [] "blob" gate sound_empty (by decide +kernel)
      (hfree "x" List.mem_cons_self) (by decide +kernel : validateName "x" = .ok ()) lookup_gate rfl
      (by decide +kernel)
  have hstep : FileTree.Step empty (.addFile "x" "g" "x" 0 [] "blob") t :=
    ⟨Operation.freshIn_of_drawsFresh (by decide +kernel), .inl hfiled⟩
  have hsound := sound_empty.step hstep
  have hlookup := TreeState.insertInMemory_lookup empty.state node
  rw [← hstate, hid] at hlookup
  refine ⟨t, hsound, ?_, ?_, ?_, ?_⟩
  · rw [hquiet]
    decide +kernel
  · have hwf := hsound.wellFormed
    rw [hstate] at hwf ⊢
    refine differInFiles_filed sound_empty.wellFormed hwf rfl lookup_gate ⟨hkind, hp⟩ ?_
    rw [hid]
    exact hfree "x" List.mem_cons_self
  · rw [hlookup, if_neg (by decide)]
    exact hfree "n" (by decide)
  · refine TreeState.nameTaken_iff.mpr ⟨node, hsound.wellFormed.mem_childNodes.mpr ⟨?_, hp⟩, hname⟩
    rw [hid, hlookup, if_pos rfl]

theorem gate_refused : checkReadNode gate visitor ≠ .ok () := by decide

theorem probe_about : probe.About empty.state gate := by
  have hwalk : empty.state.walk "/gate" none = .ok gate := by decide +kernel
  exact hwalk

/-- **The folder says which of its names are taken** to a session that may write to
it but not read it. -/
theorem exists_told : ∃ t t' f s, Sound t ∧ Sound t' ∧ t.pool.faults = t'.pool.faults ∧
    DifferInFiles f t.state t'.state ∧ checkReadNode f s ≠ .ok () ∧ probe.About t.state f ∧
    probe.DrawsFresh t.state t'.state ∧ probe.answer t s = .ok () ∧
    probe.answer t' s = .error .exists_ := by
  obtain ⟨t, hsound, hquiet, hdiffer, hfresh, htaken⟩ := exists_filed
  have hfree : empty.state.nodes.lookup "n" = none := by decide +kernel
  refine ⟨empty, t, gate, visitor, sound_empty, hsound, ?_, hdiffer, gate_refused, probe_about,
    ⟨hfree, hfresh⟩, by decide +kernel, ?_⟩
  · rw [hquiet]
    decide +kernel
  · have hplace : FileTree.placeable empty.state "/gate" "x" visitor = .ok gate := by decide +kernel
    rw [(placeable_eq hdiffer gate_refused "x" probe_about).1] at hplace
    have hchecks : FileTree.folderChecks "x" .directory none visitor = .ok () := by decide +kernel
    rw [probe, FileTree.createFolder_answer, hchecks, hplace, ok_bind, ok_bind, htaken]
    rfl

/-- What gives the folder away is that the name looked up is taken in one tree. -/
theorem answer_eq_iff_gate : ∃ t, Sound t ∧ t.state.nameTaken gate.id "x" = true ∧
    (probe.answer empty visitor = probe.answer t visitor ↔
      probe.Silent gate empty.state t.state visitor) := by
  obtain ⟨t, hsound, hquiet, hdiffer, hfresh, htaken⟩ := exists_filed
  have hfree : empty.state.nodes.lookup "n" = none := by decide +kernel
  have hfaults : empty.pool.faults = t.pool.faults := by
    rw [hquiet]
    decide +kernel
  exact ⟨t, hsound, htaken,
    answer_eq_iff hdiffer gate_refused sound_empty hsound hfaults probe_about ⟨hfree, hfresh⟩⟩

end Gated

end Files

end KdxHotline
