import KdxHotline.Files.Progress

/-!
# Trees that differ in the files of one folder

Two well-formed trees that differ only in which files a folder holds
(`KdxHotline.Files.DifferInFiles`) agree on every check that does not look for a
name inside that folder: the way up from a node, the read rule of everything
above, and the room a folder leaves.

A walk along a path agrees too as long as the session may not look inside the
folder, with one exception: an alias whose target is one of those files can be
told from a dangling one (`KdxHotline.Files.DifferInFiles.follow_eq`).
-/

namespace KdxHotline

namespace Files

open Foundations Storage Auth Limits

/-- `n` is one of the files in the folder `f`. -/
def IsFileIn (f n : Node) : Prop := n.kind = .file ∧ n.parentId = some f.id

/-- The trees differ only in which files the folder `f` holds. -/
structure DifferInFiles (f : Node) (st st' : TreeState) : Prop where
  wf : WellFormed st
  wf' : WellFormed st'
  isFolder : f.kind.isFolder = true
  folder : st.nodes.lookup f.id = some f
  nodes : ∀ {i n}, ¬IsFileIn f n → (st.nodes.lookup i = some n ↔ st'.nodes.lookup i = some n)
  children : ∀ {p}, p ≠ f.id → st.childIds p = st'.childIds p

/-- A node of the tree other than the files in `f`. -/
structure Shared (f : Node) (st : TreeState) (n : Node) : Prop where
  found : st.nodes.lookup n.id = some n
  notFile : ¬IsFileIn f n

/-- An alias whose target is in one of the trees only. -/
def OneSided (st st' : TreeState) (a : Node) : Prop :=
  a.kind = .alias_ ∧ ∃ t, a.targetId = some t ∧
    (st.nodes.lookup t).isSome ≠ (st'.nodes.lookup t).isSome

variable {f : Node} {st st' : TreeState} {n m current : Node} {s : Session}

theorem not_isFileIn_of_folder (h : n.kind.isFolder = true) : ¬IsFileIn f n := by
  rintro ⟨hkind, -⟩
  rw [hkind] at h
  cases h

theorem WellFormed.shared_of_folder (h : WellFormed st) {i : String}
    (hn : st.nodes.lookup i = some n) (hfolder : n.kind.isFolder = true) : Shared f st n :=
  ⟨h.ids hn ▸ hn, not_isFileIn_of_folder hfolder⟩

namespace TreeState

section Walkable

variable {session : Option Session}

theorem walkable_plain (hkind : current.kind ≠ .alias_) :
    st.walkable session current = (do
      checkLook current session
      return current) := if_neg hkind

theorem walkable_dangling (hkind : current.kind = .alias_)
    (hl : (current.targetId.bind fun t => st.nodes.lookup t) = none) :
    st.walkable session current = .error .notFound := by
  rw [walkable, if_pos hkind, resolveThroughAlias, if_neg (not_not_intro hkind)]
  cases ht : current.targetId with
  | none => rfl
  | some t =>
    rw [ht, Option.bind_some] at hl
    simp only [required, ok_bind, hl, error_bind]

theorem walkable_alias {t : String} (hkind : current.kind = .alias_) (ht : current.targetId = some t)
    (hl : st.nodes.lookup t = some n) (hn : n.kind ≠ .alias_) :
    st.walkable session current = (do
      st.checkHop n session
      return n) := by
  have hne : (n.kind == NodeKind.alias_) = false := beq_eq_false_iff_ne.mpr hn
  rw [walkable, if_pos hkind, resolveThroughAlias, if_neg (not_not_intro hkind)]
  simp only [required, ok_bind, ht, hl, hne, refuseIf, Bool.false_eq_true, if_false]
  rfl

theorem walkable_chain {t : String} (hkind : current.kind = .alias_) (ht : current.targetId = some t)
    (hl : st.nodes.lookup t = some n) (hn : n.kind = .alias_) :
    st.walkable session current = .error .aliasChainRefused := by
  rw [walkable, if_pos hkind, resolveThroughAlias, if_neg (not_not_intro hkind)]
  simp only [required, ok_bind, ht, hl, hn, refuseIf, beq_self_eq_true, if_true, error_bind]

end Walkable

end TreeState

/-- A chain of checks that meets a refusal is refused. -/
theorem checkReadEach_refused {l : List Node} (hn : n ∈ l) (hrefused : checkReadNode n s ≠ .ok ()) :
    ∃ e, TreeState.checkReadEach s l = .error (.acl e) := by
  induction l with
  | nil => cases hn
  | cons k l ih =>
    cases hk : checkReadNode k s with
    | error e => exact ⟨e, checks_refuse.mpr (.inl (access_eq_error.mpr ⟨e, hk, rfl⟩))⟩
    | ok u =>
      have hne : n ≠ k := by
        rintro rfl
        exact hrefused hk
      obtain ⟨e, he⟩ := ih ((List.mem_cons.mp hn).resolve_left hne)
      exact ⟨e, checks_refuse.mpr (.inr ⟨u, access_eq_ok.mpr hk, he⟩)⟩

namespace DifferInFiles

theorem symm (h : DifferInFiles f st st') : DifferInFiles f st' st where
  wf := h.wf'
  wf' := h.wf
  isFolder := h.isFolder
  folder := (h.nodes (not_isFileIn_of_folder h.isFolder)).mp h.folder
  nodes := fun hn => (h.nodes hn).symm
  children := fun hp => (h.children hp).symm

theorem found (h : DifferInFiles f st st') (hn : Shared f st n) : st'.nodes.lookup n.id = some n :=
  (h.nodes hn.notFile).mp hn.found

theorem self (h : DifferInFiles f st st') : Shared f st f :=
  ⟨h.folder, not_isFileIn_of_folder h.isFolder⟩

/-- A target that is in one tree only is a file in the folder. -/
theorem isFileIn_of_missing (h : DifferInFiles f st st') {i : String}
    (hn : st.nodes.lookup i = some n) (hmissing : st'.nodes.lookup i = none) : IsFileIn f n := by
  by_contra hnot
  rw [(h.nodes hnot).mp hn] at hmissing
  cases hmissing

/-! ### Children -/

/-- The children of any other folder are nodes of both trees. -/
theorem shared_child (h : DifferInFiles f st st') {p : String} (hp : p ≠ f.id)
    (hn : n ∈ st.childNodes p) : Shared f st n := by
  obtain ⟨hfound, hparent⟩ := h.wf.mem_childNodes.mp hn
  refine ⟨hfound, fun hfile => hp ?_⟩
  exact Option.some.inj (hparent.symm.trans hfile.2)

theorem childNodes_eq (h : DifferInFiles f st st') {p : String} (hp : p ≠ f.id) :
    st.childNodes p = st'.childNodes p := by
  rw [TreeState.childNodes, TreeState.childNodes, h.children hp]
  refine List.filterMap_congr fun c hc => ?_
  obtain ⟨n, hn, hparent⟩ := h.wf.children.mp (h.children hp ▸ hc)
  have hid := h.wf.ids hn
  have hshared := h.shared_child hp (h.wf.mem_childNodes.mpr ⟨hid ▸ hn, hparent⟩)
  rw [hn, ← hid, h.found hshared]

/-! ### Going up -/

/-- The chain of a shared node is the same in both trees. -/
theorem nodeChain (h : DifferInFiles f st st') (hn : Shared f st n) {chain : List Node}
    (hchain : NodeChain st n chain) : NodeChain st' n chain := by
  induction chain generalizing n with
  | nil =>
    obtain ⟨rest, hrest⟩ := hchain.head hn.found
    cases hrest
  | cons k rest ih =>
    obtain ⟨_, hhead⟩ := hchain.head hn.found
    obtain ⟨rfl, rfl⟩ := List.cons.inj hhead
    cases hp : k.parentId with
    | none =>
      have hroot := h.wf.eq_root hn.found hp
      rw [hchain.unique (.root hn.found hp hroot)]
      exact .root (h.found hn) hp hroot
    | some p =>
      obtain ⟨m, hm, hfolder⟩ := h.wf.folders hn.found hp
      have hid := h.wf.ids hm
      obtain ⟨rest', hrest, hmchain⟩ := hchain.of_parent hn.found hp hid
      obtain ⟨-, rfl⟩ := List.cons.inj hrest
      exact (ih (h.wf.shared_of_folder hm hfolder) hmchain).step (h.found hn) hp hid

theorem ancestry_eq (h : DifferInFiles f st st') (hn : Shared f st n) :
    st.ancestry n = st'.ancestry n := by
  obtain ⟨chain, hchain⟩ := h.wf.exists_chain hn.found
  rw [(h.wf.ancestry_eq_ok hn.found).mpr hchain,
    (h.wf'.ancestry_eq_ok (h.found hn)).mpr (h.nodeChain hn hchain)]

theorem parentOf_eq (h : DifferInFiles f st st') (hn : Shared f st n) :
    st.parentOf n = st'.parentOf n := by
  unfold TreeState.parentOf
  cases hp : n.parentId with
  | none => rfl
  | some p =>
    obtain ⟨m, hm, hfolder⟩ := h.wf.folders hn.found hp
    rw [Option.bind_some, Option.bind_some, hm, (h.nodes (not_isFileIn_of_folder hfolder)).mp hm]

/-- The parent of a node of both trees is one too. -/
theorem shared_parent (h : DifferInFiles f st st') (hn : Shared f st n)
    (hm : st.parentOf n = .ok m) : Shared f st m := by
  obtain ⟨p, hp, hm⟩ := TreeState.parentOf_lookup hm
  obtain ⟨q, hq, hfolder⟩ := h.wf.folders hn.found hp
  obtain rfl : m = q := Option.some.inj (hm.symm.trans hq)
  exact h.wf.shared_of_folder hm hfolder

/-! ### The checks -/

theorem checkReadChain_eq (h : DifferInFiles f st st') (hn : Shared f st n) :
    st.checkReadChain n s = st'.checkReadChain n s := by
  rw [TreeState.checkReadChain, TreeState.checkReadChain, h.ancestry_eq hn]

/-- Checking the parent of a node, if it has one. -/
theorem parentChain_eq (h : DifferInFiles f st st') (hn : Shared f st n) :
    (st.parentOf n >>= fun parent => st.checkReadChain parent s) =
      (st'.parentOf n >>= fun parent => st'.checkReadChain parent s) := by
  cases hparent : st.parentOf n with
  | error e => rw [← h.parentOf_eq hn, hparent]; rfl
  | ok m =>
    rw [← h.parentOf_eq hn, hparent]
    exact h.checkReadChain_eq (h.shared_parent hn hparent)

theorem checkNodeReadable_eq (h : DifferInFiles f st st') (hn : Shared f st n) :
    st.checkNodeReadable n s = st'.checkNodeReadable n s := by
  unfold TreeState.checkNodeReadable
  split
  · exact h.checkReadChain_eq hn
  · exact h.parentChain_eq hn

theorem checkPlaceInto_eq (h : DifferInFiles f st st') (hn : Shared f st n) (manage : Bool) :
    st.checkPlaceInto n s manage = st'.checkPlaceInto n s manage := by
  have habove : st.checkAbove n s = st'.checkAbove n s := by
    unfold TreeState.checkAbove
    split
    · exact h.parentChain_eq hn
    · rfl
  rw [TreeState.checkPlaceInto, TreeState.checkPlaceInto, habove]

theorem checkRoom_eq (h : DifferInFiles f st st') (hn : Shared f st n) (height relLen : ℕ) :
    st.checkRoom n height relLen = st'.checkRoom n height relLen := by
  rw [TreeState.checkRoom, TreeState.checkRoom, h.ancestry_eq hn]

theorem nameBudget_eq (h : DifferInFiles f st st') (hn : Shared f st n) :
    st.nameBudget n = st'.nameBudget n := by
  rw [TreeState.nameBudget, TreeState.nameBudget, h.ancestry_eq hn]

/-- A file in the folder is read under the folder's rules. -/
theorem checkNodeReadable_file (h : DifferInFiles f st st') (hfile : IsFileIn f n) :
    st.checkNodeReadable n s = st.checkReadChain f s := by
  have hparent : st.parentOf n = .ok f := by
    rw [TreeState.parentOf, hfile.2, Option.bind_some, h.folder]
    rfl
  have hnot : n.kind.isFolder = false := by
    rw [hfile.1]
    rfl
  rw [TreeState.checkNodeReadable, hnot, if_neg Bool.false_ne_true, hparent]
  rfl

/-! ### Walking -/

section Walking

variable (h : DifferInFiles f st st') (hrefused : checkReadNode f s ≠ .ok ())
include h hrefused

/-- Nothing in the folder can be read. -/
theorem checkReadChain_refused : ∃ e, st.checkReadChain f s = .error (.acl e) := by
  obtain ⟨chain, hchain⟩ := h.wf.exists_chain h.folder
  obtain ⟨rest, rfl⟩ := hchain.head h.folder
  obtain ⟨e, he⟩ := checkReadEach_refused (l := (f :: rest).reverse)
    (List.mem_reverse.mpr List.mem_cons_self) hrefused
  exact ⟨e, checks_refuse.mpr (.inr ⟨_, (h.wf.ancestry_eq_ok h.folder).mpr hchain, he⟩)⟩

theorem checkNodeReadable_self : ∃ e, st.checkNodeReadable f s = .error (.acl e) := by
  rw [TreeState.checkNodeReadable, if_pos h.isFolder]
  exact h.checkReadChain_refused hrefused

/-- A session never gets to look inside the folder. -/
theorem walkable_ne (hn : Shared f st current) (hw : st.walkable (some s) current = .ok m) :
    m.id ≠ f.id := by
  intro hid
  unfold TreeState.walkable at hw
  split at hw
  · obtain ⟨target, htarget, hw⟩ := checks_pass.mp hw
    obtain ⟨_, hhop, hw⟩ := checks_pass.mp hw
    cases hw
    obtain ⟨i, hi⟩ := TreeState.resolveThroughAlias_lookup ⟨current.id, hn.found⟩ htarget
    have hm := h.wf.ids hi
    rw [← hm, hid, h.folder] at hi
    obtain rfl := Option.some.inj hi
    obtain ⟨e, he⟩ := h.checkNodeReadable_self hrefused
    rw [TreeState.checkHop, he] at hhop
    cases hhop
  · obtain ⟨_, hlook, hw⟩ := checks_pass.mp hw
    cases hw
    have hfound := hn.found
    rw [hid, h.folder] at hfound
    obtain rfl := Option.some.inj hfound
    rw [TreeState.checkLook, if_pos h.isFolder, access_eq_ok] at hlook
    exact hrefused hlook

/-- Both trees say the same of looking inside a node, unless it is an alias of
something only one of them has. -/
theorem walkable_eq (hboth : ¬OneSided st st' current) :
    st.walkable (some s) current = st'.walkable (some s) current := by
  by_cases halias : current.kind = .alias_
  case neg => rw [TreeState.walkable_plain halias, TreeState.walkable_plain halias]
  cases hl : current.targetId.bind fun t => st.nodes.lookup t with
  | none =>
    have hl' : (current.targetId.bind fun t => st'.nodes.lookup t) = none := by
      cases ht : current.targetId with
      | none => rfl
      | some t =>
        rw [ht, Option.bind_some] at hl
        rw [Option.bind_some]
        by_contra hsome
        refine hboth ⟨halias, t, ht, ?_⟩
        rw [hl, Option.isSome_iff_ne_none.mpr hsome]
        decide
    rw [TreeState.walkable_dangling halias hl, TreeState.walkable_dangling halias hl']
  | some k =>
    obtain ⟨t, ht, hl⟩ := Option.bind_eq_some_iff.mp hl
    by_cases hfile : IsFileIn f k
    · -- the target is a file in the folder in both trees, and refused in both
      obtain ⟨k', hl'⟩ : ∃ k', st'.nodes.lookup t = some k' := by
        by_contra hnone
        refine hboth ⟨halias, t, ht, ?_⟩
        rw [hl, Option.eq_none_iff_forall_not_mem.mpr fun k' hk' => hnone ⟨k', hk'⟩]
        exact Bool.noConfusion
      have hfile' : IsFileIn f k' := by
        by_contra hnot
        rw [(h.nodes hnot).mpr hl'] at hl
        exact hnot (Option.some.inj hl ▸ hfile)
      have hkind : ∀ {k : Node}, IsFileIn f k → k.kind ≠ .alias_ := by
        rintro k ⟨hk, -⟩ he
        rw [hk] at he
        cases he
      rw [TreeState.walkable_alias halias ht hl (hkind hfile),
        TreeState.walkable_alias halias ht hl' (hkind hfile')]
      obtain ⟨e, he⟩ := h.checkReadChain_refused hrefused
      rw [TreeState.checkHop, TreeState.checkHop, h.checkNodeReadable_file hfile,
        h.symm.checkNodeReadable_file hfile', ← h.checkReadChain_eq h.self, he]
      rfl
    · have hl' := (h.nodes hfile).mp hl
      have hshared : Shared f st k := ⟨h.wf.ids hl ▸ hl, hfile⟩
      by_cases hchain : k.kind = .alias_
      · rw [TreeState.walkable_chain halias ht hl hchain, TreeState.walkable_chain halias ht hl' hchain]
      · rw [TreeState.walkable_alias halias ht hl hchain, TreeState.walkable_alias halias ht hl' hchain,
          TreeState.checkHop, TreeState.checkHop, h.checkNodeReadable_eq hshared]

/-- An alias of something that one tree lacks is refused in one tree and dangles in
the other. -/
theorem walkable_oneSided (ha : OneSided st st' current) :
    ∃ e e', e ≠ e' ∧ st.walkable (some s) current = .error e ∧
      st'.walkable (some s) current = .error e' := by
  obtain ⟨halias, t, ht, hne⟩ := ha
  have hcase : ∀ {st st' : TreeState}, DifferInFiles f st st' → ∀ {k : Node},
      st.nodes.lookup t = some k → st'.nodes.lookup t = none →
        (∃ e, st.walkable (some s) current = .error (.acl e)) ∧
          st'.walkable (some s) current = .error .notFound := by
    intro st st' h k hk hnone
    have hfile := h.isFileIn_of_missing hk hnone
    have hkind : k.kind ≠ .alias_ := by
      rw [hfile.1]
      decide
    obtain ⟨e, he⟩ := h.checkReadChain_refused hrefused
    refine ⟨⟨e, ?_⟩, TreeState.walkable_dangling halias (by rw [ht, Option.bind_some, hnone])⟩
    rw [TreeState.walkable_alias halias ht hk hkind, TreeState.checkHop,
      h.checkNodeReadable_file hfile, he]
    rfl
  cases hk : st.nodes.lookup t with
  | some k =>
    have hnone : st'.nodes.lookup t = none := by
      rw [hk] at hne
      exact Option.not_isSome_iff_eq_none.mp fun hs => hne (by rw [hs]; rfl)
    obtain ⟨⟨e, he⟩, hmissing⟩ := hcase h hk hnone
    exact ⟨_, _, TreeError.noConfusion, he, hmissing⟩
  | none =>
    obtain ⟨k, hk'⟩ : ∃ k, st'.nodes.lookup t = some k := by
      refine Option.isSome_iff_exists.mp ?_
      by_contra hs
      rw [Bool.not_eq_true] at hs
      exact hne (by rw [hk, hs]; rfl)
    obtain ⟨⟨e, he⟩, hmissing⟩ := hcase h.symm hk' hk
    exact ⟨_, _, TreeError.noConfusion, hmissing, he⟩

/-- **A walk says the same in both trees**, or comes to an alias, with names still
to follow, of something that only one of them has. -/
theorem follow_eq : ∀ (names : List String) {current : Node}, Shared f st current →
    (st.follow (some s) current names = st'.follow (some s) current names ∧
      ∀ n, st.follow (some s) current names = .ok n → Shared f st n) ∨
    ∃ pre name rest a, names = pre ++ name :: rest ∧
      st.follow (some s) current pre = .ok a ∧ OneSided st st' a
  | [], current, hn => .inl ⟨rfl, fun n hw => Except.ok.inj hw ▸ hn⟩
  | name :: rest, current, hn => by
    by_cases hside : OneSided st st' current
    · exact .inr ⟨[], name, rest, current, rfl, rfl, hside⟩
    have hwalk := h.walkable_eq hrefused hside
    cases hw : st.walkable (some s) current with
    | error e =>
      refine .inl ⟨?_, fun n hf => ?_⟩
      · rw [TreeState.follow, TreeState.follow, ← hwalk, hw, error_bind, error_bind]
      · rw [TreeState.follow, hw] at hf
        cases hf
    | ok folder =>
      have hne := h.walkable_ne hrefused hn hw
      cases hfound : (st.childNodes folder.id).find? fun n => n.name = name with
      | none =>
        refine .inl ⟨?_, fun n hf => ?_⟩
        · rw [TreeState.follow, TreeState.follow, ← hwalk, hw, ok_bind, ok_bind, ← h.childNodes_eq hne,
            hfound]
          rfl
        · rw [TreeState.follow, hw, ok_bind, hfound] at hf
          cases hf
      | some next =>
        have hnext := h.shared_child hne (List.mem_of_find?_eq_some hfound)
        have hstep : ∀ names, st.follow (some s) current (name :: names) =
            st.follow (some s) next names := by
          intro names
          rw [TreeState.follow, hw, ok_bind, hfound]
          rfl
        have hstep' : ∀ names, st'.follow (some s) current (name :: names) =
            st'.follow (some s) next names := by
          intro names
          rw [TreeState.follow, ← hwalk, hw, ok_bind, ← h.childNodes_eq hne, hfound]
          rfl
        rcases follow_eq rest hnext with hsame | ⟨pre, name', rest', a, hsplit, hpre, ha⟩
        · rw [hstep, hstep']
          exact .inl hsame
        · refine .inr ⟨name :: pre, name', rest', a, by rw [hsplit]; rfl, ?_, ha⟩
          rw [hstep]
          exact hpre

/-- A walk that comes to such an alias is refused for another reason in each tree. -/
theorem follow_ne (name : String) (rest : List String) {pre : List String} {a : Node}
    (hn : Shared f st current) (hpre : st.follow (some s) current pre = .ok a) (ha : OneSided st st' a) :
    ∃ e e', e ≠ e' ∧ st.follow (some s) current (pre ++ name :: rest) = .error e ∧
      st'.follow (some s) current (pre ++ name :: rest) = .error e' := by
  obtain ⟨e, e', hne, he, he'⟩ := h.walkable_oneSided hrefused ha
  have hpre' : st'.follow (some s) current pre = .ok a := by
    rcases h.follow_eq hrefused pre hn with ⟨hsame, -⟩ | ⟨pre', name', rest', a', hsplit, hw, ha'⟩
    · rw [← hsame, hpre]
    · -- the walk would already have been refused at an earlier alias
      obtain ⟨e₀, -, -, he₀, -⟩ := h.walkable_oneSided hrefused ha'
      rw [hsplit, follow_append, hw, ok_bind, TreeState.follow, he₀] at hpre
      cases hpre
  refine ⟨e, e', hne, ?_, ?_⟩
  · rw [follow_append, hpre, ok_bind, TreeState.follow, he, error_bind]
  · rw [follow_append, hpre', ok_bind, TreeState.follow, he', error_bind]

end Walking

/-! ### Walks without rules -/

section Unruled

variable {path : String}

/-- What one may walk with a session, one may walk without. -/
theorem walkable_none_of_some (hw : st.walkable (some s) current = .ok m) :
    st.walkable none current = .ok m := by
  unfold TreeState.walkable at hw ⊢
  split at hw
  · rename_i halias
    rw [if_pos halias]
    obtain ⟨target, htarget, hw⟩ := checks_pass.mp hw
    obtain ⟨_, -, hw⟩ := checks_pass.mp hw
    rw [htarget]
    exact hw
  · rename_i hplain
    rw [if_neg hplain]
    obtain ⟨_, -, hw⟩ := checks_pass.mp hw
    exact hw

/-- Where a session gets, a walk without rules gets too. -/
theorem follow_none_of_some : ∀ {names : List String} {current : Node},
    st.follow (some s) current names = .ok m → st.follow none current names = .ok m
  | [], current, hw => hw
  | name :: names, current, hw => by
    obtain ⟨folder, hfolder, hw⟩ := checks_pass.mp hw
    obtain ⟨next, hnext, hw⟩ := checks_pass.mp hw
    exact checks_pass.mpr ⟨folder, walkable_none_of_some hfolder,
      checks_pass.mpr ⟨next, hnext, follow_none_of_some hw⟩⟩

/-- A walk without rules that gets past an alias has found its target, a folder, in
both trees. -/
theorem not_oneSided_of_follow (h : DifferInFiles f st st') {name : String} {rest : List String}
    (hw : st.follow none current (name :: rest) = .ok m) : ¬OneSided st st' current := by
  rintro ⟨halias, t, ht, hne⟩
  obtain ⟨folder, hfolder, hw⟩ := checks_pass.mp hw
  obtain ⟨next, hnext, -⟩ := checks_pass.mp hw
  cases hl : st.nodes.lookup t with
  | none =>
    rw [TreeState.walkable_dangling halias (by rw [ht, Option.bind_some, hl])] at hfolder
    cases hfolder
  | some k =>
    have hchild := List.mem_of_find?_eq_some (required_eq_ok.mp hnext)
    obtain ⟨hfound, hp⟩ := h.wf.mem_childNodes.mp hchild
    obtain ⟨q, hq, hqfolder⟩ := h.wf.folders hfound hp
    by_cases hk : k.kind = .alias_
    · rw [TreeState.walkable_chain halias ht hl hk] at hfolder
      cases hfolder
    · rw [TreeState.walkable_alias halias ht hl hk] at hfolder
      obtain rfl := Except.ok.inj hfolder
      rw [h.wf.ids hl, hl] at hq
      obtain rfl := Option.some.inj hq
      rw [hl, (h.nodes (not_isFileIn_of_folder hqfolder)).mp hl] at hne
      exact hne rfl

end Unruled

end DifferInFiles

/-! ### Request paths -/

/-- The walk of a session along the path comes to an alias, with names still to
follow, of something that only one of the trees has. -/
def HopsAstray (st st' : TreeState) (s : Session) (path : String) : Prop :=
  checkPath path = .ok () ∧ ∃ root pre name rest a, st.nodes.lookup rootId = some root ∧
    segments path = pre ++ name :: rest ∧ st.follow (some s) root pre = .ok a ∧ OneSided st st' a

namespace DifferInFiles

theorem root_shared (h : DifferInFiles f st st') {r : Node} (hr : st.nodes.lookup rootId = some r) :
    Shared f st r := by
  obtain ⟨r', hr', -, hfolder⟩ := h.wf.root
  rw [hr] at hr'
  obtain rfl := Option.some.inj hr'
  exact h.wf.shared_of_folder hr hfolder

theorem root_eq (h : DifferInFiles f st st') :
    st.nodes.lookup rootId = st'.nodes.lookup rootId := by
  obtain ⟨r, hr, -⟩ := h.wf.root
  have hshared := h.root_shared hr
  rw [hr, (h.nodes hshared.notFile).mp hr]

/-- A walk without rules to the end of a path meets no such alias. -/
theorem not_hopsAstray_of_walk (h : DifferInFiles f st st') {path : String}
    (hwalk : st.walk path none = .ok m) : ¬HopsAstray st st' s path := by
  rintro ⟨-, root, pre, name, rest, a, hroot, hsplit, hpre, ha⟩
  obtain ⟨_, -, hwalk⟩ := checks_pass.mp hwalk
  obtain ⟨r, hr, hwalk⟩ := checks_pass.mp hwalk
  obtain rfl : root = r := Option.some.inj (hroot.symm.trans (required_eq_ok.mp hr))
  rw [hsplit, follow_append, follow_none_of_some hpre, ok_bind] at hwalk
  exact h.not_oneSided_of_follow hwalk ha

theorem walk_none_of_resolveAs {path : String} (hw : st.resolveAs path s = .ok m) :
    st.walk path none = .ok m := by
  obtain ⟨_, hcheck, hw⟩ := checks_pass.mp hw
  obtain ⟨r, hr, hw⟩ := checks_pass.mp hw
  exact checks_pass.mpr ⟨_, hcheck, checks_pass.mpr ⟨r, hr, follow_none_of_some hw⟩⟩

section Resolving

variable (h : DifferInFiles f st st') (hrefused : checkReadNode f s ≠ .ok ()) {path : String}
include h hrefused

/-- **A path resolves to the same answer in both trees**, when it does not hop
astray. -/
theorem resolveAs_eq (hno : ¬HopsAstray st st' s path) :
    st.resolveAs path s = st'.resolveAs path s ∧
      ∀ n, st.resolveAs path s = .ok n → Shared f st n := by
  cases hcheck : checkPath path with
  | error e =>
    rw [TreeState.resolveAs, TreeState.resolveAs, TreeState.walk, TreeState.walk, hcheck]
    exact ⟨rfl, fun n hn => by cases hn⟩
  | ok u =>
    obtain ⟨r, hr, -⟩ := h.wf.root
    have hwalk : ∀ {st : TreeState}, st.nodes.lookup rootId = some r →
        st.resolveAs path s = st.follow (some s) r (segments path) := by
      intro st hr
      rw [TreeState.resolveAs, TreeState.walk, hcheck, hr]
      rfl
    rw [hwalk hr, hwalk (h.root_eq ▸ hr)]
    rcases h.follow_eq hrefused (segments path) (h.root_shared hr) with hsame | hop
    · exact hsame
    · obtain ⟨pre, name, rest, a, hsplit, hpre, ha⟩ := hop
      exact absurd ⟨hcheck, r, pre, name, rest, a, hr, hsplit, hpre, ha⟩ hno

/-- A path that hops astray is refused for another reason in each tree. -/
theorem resolveAs_ne (hop : HopsAstray st st' s path) :
    ∃ e e', e ≠ e' ∧ st.resolveAs path s = .error e ∧ st'.resolveAs path s = .error e' := by
  obtain ⟨hcheck, root, pre, name, rest, a, hroot, hsplit, hpre, ha⟩ := hop
  obtain ⟨e, e', hne, he, he'⟩ :=
    h.follow_ne hrefused name rest (h.root_shared hroot) hpre ha
  refine ⟨e, e', hne, ?_, ?_⟩
  · rw [TreeState.resolveAs, TreeState.walk, hcheck, hroot, hsplit]
    exact he
  · rw [TreeState.resolveAs, TreeState.walk, hcheck, ← h.root_eq, hroot, hsplit]
    exact he'

/-- A path that leads to the folder leads there in both trees, or is refused for
one reason. -/
theorem resolveAs_folder (hwalk : st.walk path none = .ok f) :
    st.resolveAs path s = st'.resolveAs path s ∧ ∀ n, st.resolveAs path s = .ok n → n = f := by
  refine ⟨(h.resolveAs_eq hrefused (h.not_hopsAstray_of_walk hwalk)).1, fun n hn => ?_⟩
  exact Except.ok.inj ((walk_none_of_resolveAs hn).symm.trans hwalk)

end Resolving

/-! ### Going down -/

/-- **The extent of a subtree that does not hold the folder is the same in both
trees.** -/
theorem subtreeExtent_eq (h : DifferInFiles f st st') (hn : Shared f st n) {chain : List Node}
    (hchain : NodeChain st f chain) (hnot : ∀ m ∈ chain, m.id ≠ n.id) :
    st.subtreeExtent n = st'.subtreeExtent n := by
  obtain ⟨visited, hvisited⟩ := h.wf.subtreeExtent_visits hn.found
  obtain ⟨visited', hvisited'⟩ := h.wf'.subtreeExtent_visits (h.found hn)
  -- every node that is visited lies below `n`, where the folder is not
  let P : Node × ℕ × ℕ → Prop := fun v => st.nodes.lookup v.1.id = some v.1 ∧
    ∀ {ids}, Chain st.parent rootId v.1.id ids → n.id ∈ ids
  have hoff : ∀ v, P v → v.1.id ≠ f.id := by
    rintro v ⟨-, hbelow⟩ he
    obtain ⟨m, hm, hid⟩ := List.mem_map.mp (hbelow (he ▸ hchain.ids))
    exact hnot m hm hid
  have hvisit : ∀ v, P v → st.visitForExtent v = st'.visitForExtent v := by
    rintro ⟨v, height, len⟩ hv
    simp only [TreeState.visitForExtent, h.childNodes_eq (hoff _ hv)]
  have hstep : ∀ v w, P v → LeadsTo (st.visitForExtent) v w → P w := by
    rintro ⟨v, height, len⟩ w ⟨-, hbelow⟩ ⟨next, hnext, hw⟩
    rw [← Except.ok.inj hnext] at hw
    obtain ⟨c, hc, rfl⟩ := List.mem_map.mp hw
    obtain ⟨hfound, hp⟩ := h.wf.mem_childNodes.mp hc
    refine ⟨hfound, fun hids => ?_⟩
    obtain ⟨rest, rfl, hrest⟩ := hids.of_parent ((TreeState.parent_of_lookup hfound).trans hp)
    exact List.mem_cons_of_mem _ (hbelow hrest)
  have hstart : ∀ v ∈ [(n, 0, 1 + n.name.utf8ByteSize)], P v := by
    intro v hv
    rw [List.mem_singleton.mp hv]
    exact ⟨hn.found, fun hids => hids.head_mem⟩
  have hsame : explore .notFound st.visitForExtent st'.size [(n, 0, 1 + n.name.utf8ByteSize)] =
      .ok visited' := (explore_congr hvisit hstep hstart).trans hvisited'
  rw [TreeState.subtreeExtent, TreeState.subtreeExtent, hvisited, hvisited',
    explore_unique hvisited hsame]

end DifferInFiles

/-- A file that is filed in the folder makes for such a pair. -/
theorem differInFiles_filed (hwf : WellFormed st) (hwf' : WellFormed (st.insertInMemory n))
    (hfolder : f.kind.isFolder = true) (hf : st.nodes.lookup f.id = some f) (hfile : IsFileIn f n)
    (hfresh : st.nodes.lookup n.id = none) : DifferInFiles f st (st.insertInMemory n) where
  wf := hwf
  wf' := hwf'
  isFolder := hfolder
  folder := hf
  nodes := by
    rintro i k hk
    rw [TreeState.insertInMemory_lookup]
    by_cases hi : i = n.id
    · rw [hi, hfresh, if_pos rfl]
      refine iff_of_false (fun he => by cases he) fun he => hk ?_
      rw [← Option.some.inj he]
      exact hfile
    · rw [if_neg hi]
  children := by
    intro p hp
    rw [TreeState.insertInMemory_childIds, if_neg]
    intro hparent
    exact hp (Option.some.inj (hparent.symm.trans hfile.2))

end Files

end KdxHotline
