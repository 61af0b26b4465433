import KdxHotline.Files.FreeName
import KdxHotline.Files.Inherited
import KdxHotline.Files.Progress

/-!
# The search catalog

The catalog is a flat list of what is in the tree, made once and searched from then on. It is
made by a walk of its own, which carries the highest read class on the way down and stays out
of drop boxes; a search compares that class with the one of the session, and asks the tree
nothing more.

The walk meets each folder that no drop box is above once, with the class that the read rules
of its chain come down to (`KdxHotline.Files.collected_frames`). So a search finds what the
rules would show (`KdxHotline.Files.search_agrees`).
-/

namespace KdxHotline

namespace Files

open Foundations Storage Auth Limits

/-- One entry of the catalog. -/
structure CatalogEntry where
  path : String
  name : String
  kind : NodeKind
  size : ℕ
  minReadClass : BaseClass
  deriving DecidableEq, Repr

/-- A folder that is still to be gone through, its path, which is empty for the root, and the
highest read class down to it. -/
structure Frame where
  folder : Node
  path : String
  readClass : BaseClass

namespace Frame

/-- The entry of a child; aliases are not indexed, and neither are paths that are too long. -/
def entry (frame : Frame) (child : Node) : Option CatalogEntry :=
  if child.kind = .alias_ then none
  else
    let path := frame.path ++ "/" ++ child.name
    if maxPathLen < path.utf8ByteSize then none
    else
      -- a file is as visible as the folder it is in
      let minReadClass := if child.kind.isFolder then max frame.readClass child.minClassRead
        else frame.readClass
      some ⟨path, child.name, child.kind, child.size, minReadClass⟩

/-- The child as a folder that is to be gone through too, unless it is a drop box. -/
def into (frame : Frame) (child : Node) : Option Frame := do
  let entry ← frame.entry child
  if child.kind.isFolder && !isDropBox child.kind child.accessItem then
    some ⟨child, entry.path, entry.minReadClass⟩
  else none

end Frame

namespace TreeState

variable (st : TreeState)

/-- The entries of a folder. -/
def entriesIn (frame : Frame) : List CatalogEntry := (st.childNodes frame.folder.id).filterMap frame.entry

/-- The folders of a folder, which come next. -/
def foldersIn (frame : Frame) : List Frame := (st.childNodes frame.folder.id).filterMap frame.into

/-- Go through the folders on the stack, at most `fuel` of them. -/
def collectLoop : ℕ → List Frame → List CatalogEntry
  | _, [] => []
  | 0, _ :: _ => []
  | fuel + 1, frame :: stack =>
    st.entriesIn frame ++ collectLoop fuel ((st.foldersIn frame).reverse ++ stack)

/-- Flatten the tree into entries. -/
def collectCatalog : List CatalogEntry :=
  match st.nodes.lookup rootId with
  | none => []
  | some root => st.collectLoop st.size [⟨root, "", root.minClassRead⟩]

end TreeState

/-- The catalog, if it was ever made. -/
abbrev Catalog := Option (List CatalogEntry)

/-- A search without a catalog. -/
inductive SearchError
  | catalogNotGenerated
  deriving DecidableEq, Repr

/-- Make the catalog anew, and say how many entries it has. -/
def generateCatalog (st : TreeState) : ℕ × Catalog :=
  let entries := st.collectCatalog
  (entries.length, some entries)

/-- Does the name contain the query, once both are in lower case? -/
def matchesQuery (toLowercase : String → String) (query name : String) : Bool :=
  let needle := toLowercase query
  needle.isEmpty || decide (needle.toList <:+: (toLowercase name).toList)

/-- Search the catalog for names, among the entries that `class_` may see. -/
def search (toLowercase : String → String) (catalog : Catalog) (query : String) (class_ : BaseClass)
    (limit : ℕ) : Except SearchError (List CatalogEntry) := do
  let entries ← required .catalogNotGenerated catalog
  return ((entries.filter fun e => matchesQuery toLowercase query e.name).filter fun e =>
    decide (e.minReadClass ≤ class_)).take limit

/-! ### Paths that spell out names -/

/-- A name that a path can spell out. -/
def Speakable (name : String) : Prop := name ≠ "" ∧ ∀ c ∈ name.toList, c ≠ '/' ∧ isControl c = false

/-- Every node below the root has a name that a path can spell out. -/
def Named (st : TreeState) : Prop :=
  ∀ ⦃i n⦄, st.nodes.lookup i = some n → n.parentId.isSome = true → Speakable n.name

/-- The path that spells out these names. -/
def spelled (names : List String) : String := String.join (names.map fun name => "/" ++ name)

section Paths

variable {names : List String} {name : String}

theorem spelled_concat : spelled (names ++ [name]) = spelled names ++ "/" ++ name := by
  simp [spelled, String.join, List.foldl_append, String.append_assoc]

theorem spelled_toList : (spelled names).toList = names.flatMap fun name => '/' :: name.toList := by
  induction names using List.reverseRecOn with
  | nil => rfl
  | append_singleton names name ih =>
    rw [spelled_concat, List.flatMap_append, ← ih]
    simp

theorem intercalate_slash (names : List String) :
    ['/'].intercalate ([] :: names.map String.toList) = names.flatMap fun name => '/' :: name.toList := by
  induction names with
  | nil => rfl
  | cons name names ih =>
    rw [List.flatMap_cons, ← ih]
    cases names <;> simp [List.intercalate]

/-- **The names a path spells out are the names it is made of.** -/
theorem segments_spelled (h : ∀ name ∈ names, Speakable name) : segments (spelled names) = names := by
  have hslash : ∀ l ∈ [] :: names.map String.toList, '/' ∉ l := by
    intro l hl hmem
    rcases List.mem_cons.mp hl with rfl | hl
    · cases hmem
    · obtain ⟨name, hname, rfl⟩ := List.mem_map.mp hl
      exact ((h name hname).2 '/' hmem).1 rfl
  have hkept : (names.map String.toList).filter (fun s => !s.isEmpty) = names.map String.toList := by
    refine List.filter_eq_self.mpr fun l hl => ?_
    obtain ⟨name, hname, rfl⟩ := List.mem_map.mp hl
    have hne := (h name hname).1
    simpa [List.isEmpty_eq_false_iff] using hne
  rw [segments, spelled_toList, ← intercalate_slash,
    List.splitOn_intercalate '/' hslash (List.cons_ne_nil _ _)]
  rw [List.filter_cons_of_neg (by simp), hkept, List.map_map]
  simp

/-- A path of good names that is not too long is valid. -/
theorem checkPath_spelled (h : ∀ name ∈ names, Speakable name)
    (hlen : (spelled names).utf8ByteSize ≤ maxPathLen) : checkPath (spelled names) = .ok () := by
  have hcontrol : (spelled names).toList.any isControl = false := by
    rw [spelled_toList, List.any_eq_false]
    intro c hc
    obtain ⟨name, hname, hc⟩ := List.mem_flatMap.mp hc
    rcases List.mem_cons.mp hc with rfl | hc
    · decide
    · rw [((h name hname).2 c hc).2]
      exact Bool.false_ne_true
  refine checks_pass.mpr ⟨(), ?_, ?_⟩
  · exact refuseIf_eq_ok.mpr (decide_eq_false (Nat.not_lt.mpr hlen))
  · rw [hcontrol]
    rfl

end Paths

/-! ### The folders that are gone through -/

variable {st : TreeState} {n child : Node} {chain : List Node} {frame : Frame} {e : CatalogEntry}
  {s : Session}

namespace WellFormed

/-- The root is the whole of its chain, and any other node goes on top of its folder's. -/
theorem chain_cases (h : WellFormed st) (hn : st.nodes.lookup n.id = some n)
    (hchain : NodeChain st n chain) : n.parentId = none ∧ n.id = rootId ∧ chain = [n] ∨
      ∃ folder rest, n.parentId = some folder.id ∧ st.nodes.lookup folder.id = some folder ∧
        folder.kind.isFolder = true ∧ chain = n :: rest ∧ NodeChain st folder rest := by
  cases hp : n.parentId with
  | none =>
    have hroot := h.eq_root hn hp
    exact .inl ⟨rfl, hroot, hchain.unique (.root hn hp hroot)⟩
  | some p =>
    obtain ⟨folder, hfolder, hkind⟩ := h.folders hn hp
    have hid := h.ids hfolder
    obtain ⟨rest, hrest, hup⟩ := hchain.of_parent hn hp hid
    exact .inr ⟨folder, rest, hid ▸ rfl, hid ▸ hfolder, hkind, hrest, hup⟩

/-- The names on the way down to a node are names that a path can spell out. -/
theorem speakable_path (h : WellFormed st) (hnamed : Named st) (hn : st.nodes.lookup n.id = some n)
    (hchain : NodeChain st n chain) : ∀ name ∈ pathOf chain, Speakable name := by
  induction chain generalizing n with
  | nil => exact fun _ hname => absurd hname List.not_mem_nil
  | cons k rest ih =>
    rcases h.chain_cases hn hchain with ⟨-, -, hone⟩ | ⟨folder, _, hp, hfolder, -, hcons, hup⟩
    · rw [hone]
      exact fun _ hname => absurd hname List.not_mem_nil
    · obtain ⟨rfl, rfl⟩ := List.cons.inj hcons
      rw [pathOf_cons (hup.ne_nil hfolder)]
      intro name hname
      rcases List.mem_append.mp hname with hname | hname
      · exact ih hfolder hup name hname
      · rw [List.mem_singleton.mp hname]
        exact hnamed hn (by rw [hp]; rfl)

end WellFormed

/-- What is known of a folder that is gone through: its path is the one of its chain, its class
is what the chain's read rules come down to, and no drop box is on the chain. -/
structure Framed (st : TreeState) (frame : Frame) (chain : List Node) : Prop where
  found : st.nodes.lookup frame.folder.id = some frame.folder
  up : NodeChain st frame.folder chain
  path : frame.path = spelled (pathOf chain)
  fits : frame.path.utf8ByteSize ≤ maxPathLen
  gate : ∀ c, frame.readClass ≤ c ↔ ∀ k ∈ chain, k.minClassRead ≤ c
  noBox : ∀ k ∈ chain, isDropBox k.kind k.accessItem = false

/-- What is entered of a node in a folder. -/
theorem Frame.entry_eq_some : frame.entry child = some e ↔ child.kind ≠ .alias_ ∧
    (frame.path ++ "/" ++ child.name).utf8ByteSize ≤ maxPathLen ∧
      e = ⟨frame.path ++ "/" ++ child.name, child.name, child.kind, child.size,
        if child.kind.isFolder then max frame.readClass child.minClassRead else frame.readClass⟩ := by
  unfold Frame.entry
  split
  · rename_i halias
    exact ⟨nofun, fun he => absurd halias he.1⟩
  · rename_i hplain
    dsimp only
    split
    · rename_i hlong
      exact ⟨nofun, fun he => absurd hlong (Nat.not_lt.mpr he.2.1)⟩
    · rename_i hshort
      exact ⟨fun he => ⟨hplain, Nat.not_lt.mp hshort, (Option.some.inj he).symm⟩,
        fun he => congrArg some he.2.2.symm⟩

theorem Frame.into_eq_some {next : Frame} : frame.into child = some next ↔
    ∃ e, frame.entry child = some e ∧ child.kind.isFolder = true ∧
      isDropBox child.kind child.accessItem = false ∧ next = ⟨child, e.path, e.minReadClass⟩ := by
  unfold Frame.into
  refine Option.bind_eq_some_iff.trans (exists_congr fun e => and_congr_right fun _ => ?_)
  cases hkind : child.kind.isFolder <;> cases hbox : isDropBox child.kind child.accessItem <;>
    simp [eq_comm]

namespace Framed

variable (h : WellFormed st) (hf : Framed st frame chain)
include h hf

/-- A child of a folder that is gone through, as its entry has it. -/
theorem entry (hchild : child ∈ st.childNodes frame.folder.id) (he : frame.entry child = some e) :
    NodeChain st child (child :: chain) ∧ e.path = spelled (pathOf (child :: chain)) ∧
      e.path.utf8ByteSize ≤ maxPathLen ∧ ∀ c, e.minReadClass ≤ c ↔
        (∀ k ∈ chain, k.minClassRead ≤ c) ∧ (child.kind.isFolder = true → child.minClassRead ≤ c) := by
  obtain ⟨hlookup, hp⟩ := h.mem_childNodes.mp hchild
  obtain ⟨-, hshort, rfl⟩ := Frame.entry_eq_some.mp he
  refine ⟨hf.up.step hlookup hp rfl, ?_, hshort, fun c => ?_⟩
  · rw [pathOf_cons (hf.up.ne_nil hf.found), spelled_concat, ← hf.path]
  · rw [← hf.gate]
    dsimp only
    split
    · rename_i hkind
      simp [hkind]
    · rename_i hkind
      simp [hkind]

/-- A folder that is gone through leads to others that are. -/
theorem into (hchild : child ∈ st.childNodes frame.folder.id) {next : Frame}
    (hinto : frame.into child = some next) : Framed st next (child :: chain) := by
  obtain ⟨e, he, hkind, hbox, rfl⟩ := Frame.into_eq_some.mp hinto
  obtain ⟨hchain, hpath, hfits, hgate⟩ := hf.entry h hchild he
  refine ⟨(h.mem_childNodes.mp hchild).1, hchain, hpath, hfits, fun c => ?_, ?_⟩
  · rw [hgate, List.forall_mem_cons, and_comm]
    simp [hkind]
  · exact List.forall_mem_cons.mpr ⟨hbox, hf.noBox⟩

end Framed

/-- What going through the folders keeps. -/
structure Collecting (st : TreeState) (seen stack : List Frame) : Prop where
  descending : Descending st.parent (fun frame => frame.folder.id) st.nodes.keys seen stack
  framed : ∀ frame ∈ seen ++ stack, ∃ chain, Framed st frame chain

/-- What one folder keeps. -/
theorem Collecting.step (h : WellFormed st) {seen stack : List Frame}
    (hc : Collecting st seen (frame :: stack)) :
    Collecting st (frame :: seen) ((st.foldersIn frame).reverse ++ stack) := by
  obtain ⟨chain, hf⟩ := hc.framed frame (List.mem_append_right _ List.mem_cons_self)
  have hnext : ∀ {next}, next ∈ st.foldersIn frame → ∃ child ∈ st.childNodes frame.folder.id,
      frame.into child = some next := fun hnext => List.mem_filterMap.mp hnext
  constructor
  case descending =>
    refine hc.descending.step ?_ (fun next hmem => ?_) fun next hmem => ?_
    · have hsame : ∀ l : List Node, ((l.filterMap frame.into).map fun next => next.folder.id).Sublist
          (l.map Node.id) := by
        intro l
        induction l with
        | nil => exact .slnil
        | cons child l ih =>
          cases hinto : frame.into child with
          | none =>
            rw [List.filterMap_cons_none hinto]
            exact ih.cons _
          | some next =>
            obtain ⟨e, -, -, -, rfl⟩ := Frame.into_eq_some.mp hinto
            rw [List.filterMap_cons_some hinto]
            exact ih.cons_cons _
      refine (hsame _).nodup ?_
      rw [h.childNodes_ids]
      exact h.children_nodup _
    · obtain ⟨child, hchild, hinto⟩ := hnext hmem
      exact Finmap.mem_keys.mpr (Finmap.mem_of_lookup_eq_some (hf.into h hchild hinto).found)
    · obtain ⟨child, hchild, hinto⟩ := hnext hmem
      obtain ⟨e, -, -, -, rfl⟩ := Frame.into_eq_some.mp hinto
      obtain ⟨hlookup, hp⟩ := h.mem_childNodes.mp hchild
      exact (TreeState.parent_of_lookup hlookup).trans hp
  case framed =>
    intro next hmem
    rcases List.mem_append.mp hmem with hmem | hmem
    · rcases List.mem_cons.mp hmem with rfl | hmem
      · exact ⟨chain, hf⟩
      · exact hc.framed next (List.mem_append_left _ hmem)
    · rcases List.mem_append.mp hmem with hmem | hmem
      · obtain ⟨child, hchild, hinto⟩ := hnext (List.mem_reverse.mp hmem)
        exact ⟨_, hf.into h hchild hinto⟩
      · exact hc.framed next (List.mem_append_right _ (List.mem_cons_of_mem _ hmem))

/-- The loop collects the entries of the folders it visits. -/
theorem collectLoop_eq : ∀ {fuel : ℕ} {stack out : List Frame},
    explore TreeError.notFound (fun frame => .ok (st.foldersIn frame)) fuel stack = .ok out →
      st.collectLoop fuel stack = out.flatMap st.entriesIn
  | fuel, [], out, hout => by
    rw [explore_nil] at hout
    obtain rfl := Except.ok.inj hout
    cases fuel <;> rfl
  | 0, frame :: stack, out, hout => by cases hout
  | fuel + 1, frame :: stack, out, hout => by
    obtain ⟨_, next, rest, hfuel, hnext, hrest, rfl⟩ := explore_cons hout
    obtain rfl : fuel = _ := Nat.succ.inj hfuel
    obtain rfl := Except.ok.inj hnext
    rw [TreeState.collectLoop, collectLoop_eq hrest, List.flatMap_cons]

/-- The root is no drop box. -/
def RootOpen (st : TreeState) : Prop :=
  ∀ root, st.nodes.lookup rootId = some root → isDropBox root.kind root.accessItem = false

/-- **The folders that are gone through are those that no drop box is above**, each of them once. -/
theorem collected_frames (h : WellFormed st) (hroot : RootOpen st) : ∃ frames : List Frame,
    st.collectCatalog = frames.flatMap st.entriesIn ∧
      (frames.map fun frame => frame.folder.id).Nodup ∧
      (∀ frame ∈ frames, ∃ chain, Framed st frame chain) ∧
      ∀ {folder chain}, st.nodes.lookup folder.id = some folder → NodeChain st folder chain →
        folder.kind.isFolder = true → (∀ k ∈ chain, isDropBox k.kind k.accessItem = false) →
          (spelled (pathOf chain)).utf8ByteSize ≤ maxPathLen →
            ∃ frame ∈ frames, frame.folder = folder := by
  obtain ⟨root, hlookup, hp, hkind⟩ := h.root
  have hid := h.ids hlookup
  have hfound : st.nodes.lookup root.id = some root := hid ▸ hlookup
  have hstart : Framed st ⟨root, "", root.minClassRead⟩ [root] := by
    refine ⟨hfound, .root hfound hp hid, rfl, Nat.zero_le _, fun c => ?_, ?_⟩
    · exact (List.forall_mem_singleton (p := fun k : Node => k.minClassRead ≤ c)).symm
    · exact List.forall_mem_singleton.mpr (hroot root hlookup)
  -- the search is the general one for a forest; it starts at the root with nothing seen
  have hbegin : Collecting st [] [⟨root, "", root.minClassRead⟩] := by
    refine ⟨⟨⟨List.nodup_singleton _, ?_⟩, ?_⟩, ?_⟩
    · exact List.forall_mem_singleton.mpr
        (Finmap.mem_keys.mpr (Finmap.mem_of_lookup_eq_some hfound))
    · refine List.forall_mem_singleton.mpr fun p hlink => ?_
      rw [TreeState.parent_of_lookup hfound, hp] at hlink
      cases hlink
    · exact List.forall_mem_singleton.mpr ⟨_, hstart⟩
  obtain ⟨frames, hframes⟩ : ∃ frames, explore TreeError.notFound
      (fun frame => .ok (st.foldersIn frame)) st.size [⟨root, "", root.minClassRead⟩] = .ok frames :=
    explore_total (Collecting st) (fun _ _ hc => hc.descending.noRepeat)
      (fun _ _ _ hc => ⟨_, rfl, hc.step h⟩) hbegin (le_refl st.size)
  have hend := explore_invariant (Collecting st)
    (fun _ _ _ _ hc hnext => Except.ok.inj hnext ▸ hc.step h) hbegin hframes
  obtain ⟨hstack, hclosed⟩ := explore_closed hframes
  refine ⟨frames, ?_, ?_, fun frame hframe => ?_, ?_⟩
  · rw [TreeState.collectCatalog, hlookup]
    exact collectLoop_eq hframes
  · have hnodup := hend.descending.noRepeat.nodup
    rwa [List.append_nil, List.append_nil, List.map_reverse, List.nodup_reverse] at hnodup
  · exact hend.framed frame (by simpa using hframe)
  · intro folder chain hfolder hchain hkind' hopen hfits
    -- a folder is reached from the one above it, by induction on the chain up to the root
    induction chain generalizing folder with
    | nil => exact absurd rfl (hchain.ne_nil hfolder)
    | cons k rest ih =>
      rcases h.chain_cases hfolder hchain with ⟨-, hone, -⟩ | ⟨above, _, hlink, habove, hakind, hcons, hup⟩
      · rw [hone, hlookup] at hfolder
        exact ⟨_, hstack _ List.mem_cons_self, Option.some.inj hfolder⟩
      · obtain ⟨rfl, rfl⟩ := List.cons.inj hcons
        obtain ⟨hbox, hopen⟩ := List.forall_mem_cons.mp hopen
        rw [pathOf_cons (hup.ne_nil habove), spelled_concat] at hfits
        have hshorter : (spelled (pathOf rest)).utf8ByteSize ≤ maxPathLen := by
          rw [String.utf8ByteSize_append, String.utf8ByteSize_append] at hfits
          omega
        obtain ⟨frame, hframe, rfl⟩ := ih habove hup hakind hopen hshorter
        obtain ⟨chain', hf⟩ := hend.framed frame (by simpa using hframe)
        obtain rfl := hf.up.unique hup
        obtain ⟨next, hnext, hmem⟩ := hclosed frame hframe
        obtain rfl := Except.ok.inj hnext
        have hplain : k.kind ≠ .alias_ := by
          rintro halias
          rw [halias] at hkind'
          cases hkind'
        have he := Frame.entry_eq_some.mpr ⟨hplain, hf.path ▸ hfits, rfl⟩
        have hinto := Frame.into_eq_some.mpr ⟨_, he, hkind', hbox, rfl⟩
        exact ⟨_, hmem _ (List.mem_filterMap.mpr ⟨k, h.mem_childNodes.mpr ⟨hfolder, hlink⟩, hinto⟩), rfl⟩

/-! ### What a search finds -/

/-- A node that a search shows: no alias, its path short enough, no drop box above it, its name
with the query in it, the folder it is in open to the session, and itself if it is a folder. -/
structure Shown (st : TreeState) (toLowercase : String → String) (query : String) (s : Session)
    (n : Node) : Prop where
  found : st.nodes.lookup n.id = some n
  below : n.id ≠ rootId
  plain : n.kind ≠ .alias_
  above : ∃ chain, st.ancestry n = .ok chain ∧ (spelled (pathOf chain)).utf8ByteSize ≤ maxPathLen ∧
    ∀ k ∈ chain.tail, isDropBox k.kind k.accessItem = false
  named : (toLowercase query).toList <:+: (toLowercase n.name).toList
  readable : ∃ folder, st.parentOf n = .ok folder ∧ st.checkReadChain folder s = .ok ()
  own : n.kind.isFolder = true → n.minClassRead ≤ s.class_

/-- An entry says what there is to say of its node, and its path leads there: the server, and
the session that searches. -/
structure Describes (st : TreeState) (s : Session) (n : Node) (e : CatalogEntry) : Prop where
  name : e.name = n.name
  kind : e.kind = n.kind
  size : e.size = n.size
  resolves : st.walk e.path none = .ok n
  reaches : st.resolveAs e.path s = .ok n

theorem checkReadNode_open (hbox : isDropBox n.kind n.accessItem = false) :
    checkReadNode n s = .ok () ↔ n.minClassRead ≤ s.class_ := by
  rw [checkReadNode, checkRead, hbox, if_neg Bool.false_ne_true, refuseIf_eq_ok, decide_eq_false_iff_not,
    not_lt]

theorem matchesQuery_iff {toLowercase : String → String} {query name : String} :
    matchesQuery toLowercase query name = true ↔
      (toLowercase query).toList <:+: (toLowercase name).toList := by
  simp only [matchesQuery, Bool.or_eq_true, decide_eq_true_iff]
  refine ⟨fun hm => hm.elim (fun hempty => ?_) id, .inr⟩
  rw [String.isEmpty_iff.mp hempty]
  exact List.nil_infix

/-- The children of a folder that are indexed, with their entries. -/
def hitsIn (st : TreeState) (frame : Frame) : List (Node × CatalogEntry) :=
  (st.childNodes frame.folder.id).filterMap fun child => (frame.entry child).map fun e => (child, e)

theorem mem_hitsIn : (n, e) ∈ hitsIn st frame ↔
    n ∈ st.childNodes frame.folder.id ∧ frame.entry n = some e := by
  simp [hitsIn, List.mem_filterMap]

theorem hitsIn_entries : (hitsIn st frame).map Prod.snd = st.entriesIn frame := by
  rw [hitsIn, TreeState.entriesIn, List.map_filterMap]
  refine List.filterMap_congr fun child _ => ?_
  cases frame.entry child <;> rfl

/-- **No node is indexed twice.** -/
theorem nodup_hits (h : WellFormed st) {frames : List Frame}
    (hnodup : (frames.map fun frame => frame.folder.id).Nodup) :
    ((frames.flatMap (hitsIn st)).map Prod.fst).Nodup := by
  rw [List.map_flatMap, List.nodup_flatMap]
  constructor
  · intro frame _
    have hsub : ∀ l : List Node, ((l.filterMap fun child => (frame.entry child).map fun e =>
        (child, e)).map Prod.fst).Sublist l := by
      intro l
      induction l with
      | nil => exact .slnil
      | cons child l ih =>
        cases he : frame.entry child with
        | none =>
          rw [List.filterMap_cons_none (by rw [he]; rfl)]
          exact ih.cons _
        | some e =>
          rw [List.filterMap_cons_some (b := (child, e)) (by rw [he]; rfl)]
          exact ih.cons_cons _
    refine (hsub _).nodup (List.Nodup.of_map Node.id ?_)
    rw [h.childNodes_ids]
    exact h.children_nodup _
  · refine (List.pairwise_map.mp hnodup).imp fun {a b} hab n hn hn' => hab ?_
    obtain ⟨⟨m, e⟩, hm, rfl⟩ := List.mem_map.mp hn
    obtain ⟨⟨m', e'⟩, hm', hsame⟩ := List.mem_map.mp hn'
    obtain rfl : m' = m := hsame
    have hp := (h.mem_childNodes.mp (mem_hitsIn.mp hm).1).2
    rw [(h.mem_childNodes.mp (mem_hitsIn.mp hm').1).2] at hp
    exact (Option.some.inj hp).symm

section Hits

variable (h : WellFormed st) (hf : Framed st frame chain) (hchild : n ∈ st.childNodes frame.folder.id)
  (he : frame.entry n = some e) (hclass : e.minReadClass ≤ s.class_)
include h hf hchild he hclass

/-- What is entered and matches is shown. -/
theorem shown_of_entry {toLowercase : String → String} {query : String}
    (hquery : matchesQuery toLowercase query n.name = true) : Shown st toLowercase query s n := by
  obtain ⟨hlookup, hp⟩ := h.mem_childNodes.mp hchild
  obtain ⟨hup, hpath, hfits, hgate⟩ := hf.entry h hchild he
  obtain ⟨habove, hown⟩ := (hgate s.class_).mp hclass
  refine ⟨hlookup, fun hroot => ?_, (Frame.entry_eq_some.mp he).1, ?_, matchesQuery_iff.mp hquery, ?_,
    hown⟩
  · obtain ⟨root, hr, hnone, -⟩ := h.root
    rw [hroot, hr] at hlookup
    rw [Option.some.inj hlookup, hp] at hnone
    cases hnone
  · exact ⟨_, (h.ancestry_eq_ok hlookup).mpr hup, hpath ▸ hfits, hf.noBox⟩
  · refine ⟨frame.folder, ?_, checks_pass.mpr ⟨chain, (h.ancestry_eq_ok hf.found).mpr hf.up, ?_⟩⟩
    · rw [TreeState.parentOf, hp, Option.bind_some, hf.found]
      rfl
    · refine TreeState.checkReadEach_eq_ok.mpr fun k hk => ?_
      have hk' := List.mem_reverse.mp hk
      exact (checkReadNode_open (hf.noBox k hk')).mpr (habove k hk')

/-- An entry describes its node. -/
theorem describes_of_entry (hnamed : Named st) : Describes st s n e := by
  obtain ⟨hlookup, hp⟩ := h.mem_childNodes.mp hchild
  obtain ⟨hup, hpath, hfits, hgate⟩ := hf.entry h hchild he
  obtain ⟨habove, -⟩ := (hgate s.class_).mp hclass
  obtain ⟨-, -, hentry⟩ := Frame.entry_eq_some.mp he
  have hspeak := h.speakable_path hnamed hlookup hup
  rw [hpath] at hfits
  have hlook : ∀ f ∈ chain, TreeState.checkLook f (some s) = .ok () := by
    intro f hmem
    rw [TreeState.checkLook, (checkReadNode_open (hf.noBox f hmem)).mpr (habove f hmem)]
    exact ite_self _
  refine ⟨by rw [hentry], by rw [hentry], by rw [hentry], ?_, ?_⟩
  · rw [hpath]
    exact h.walk_path hlookup hup (fun _ _ => rfl) (checkPath_spelled hspeak hfits) (segments_spelled hspeak)
  · rw [hpath]
    exact h.walk_path hlookup hup hlook (checkPath_spelled hspeak hfits) (segments_spelled hspeak)

end Hits

/-- **A search finds what the rules show**: what the session may see, every node of it once,
each under a path that leads there. -/
theorem search_agrees (h : WellFormed st) (hnamed : Named st) (hroot : RootOpen st)
    (toLowercase : String → String) (query : String) (s : Session) {limit : ℕ}
    (hlimit : (generateCatalog st).1 ≤ limit) : ∃ hits : List (Node × CatalogEntry),
      search toLowercase (generateCatalog st).2 query s.class_ limit = .ok (hits.map Prod.snd) ∧
      (hits.map Prod.fst).Nodup ∧
      (∀ n, n ∈ hits.map Prod.fst ↔ Shown st toLowercase query s n) ∧
      ∀ hit ∈ hits, Describes st s hit.1 hit.2 := by
  obtain ⟨frames, hcatalog, hnodup, hframed, hall⟩ := collected_frames h hroot
  have hentries : st.collectCatalog = (frames.flatMap (hitsIn st)).map Prod.snd := by
    rw [hcatalog, List.map_flatMap]
    exact List.flatMap_congr fun frame _ => hitsIn_entries.symm
  let keep : Node × CatalogEntry → Bool := fun hit =>
    matchesQuery toLowercase query hit.2.name && decide (hit.2.minReadClass ≤ s.class_)
  have hmem : ∀ {n e}, (n, e) ∈ (frames.flatMap (hitsIn st)).filter keep ↔
      ∃ frame ∈ frames, (n ∈ st.childNodes frame.folder.id ∧ frame.entry n = some e) ∧
        matchesQuery toLowercase query e.name = true ∧ e.minReadClass ≤ s.class_ := by
    intro n e
    rw [List.mem_filter, List.mem_flatMap]
    simp only [mem_hitsIn, keep, Bool.and_eq_true, decide_eq_true_iff]
    exact ⟨fun ⟨⟨frame, hframe, hin⟩, hkeep⟩ => ⟨frame, hframe, hin, hkeep⟩,
      fun ⟨frame, hframe, hin, hkeep⟩ => ⟨⟨frame, hframe, hin⟩, hkeep⟩⟩
  refine ⟨(frames.flatMap (hitsIn st)).filter keep, ?_, ?_, fun n => ⟨fun hn => ?_, fun hn => ?_⟩, ?_⟩
  -- nothing is cut off, as the limit is no less than the whole catalog
  · have hlength : ((st.collectCatalog.filter fun e => matchesQuery toLowercase query e.name).filter
        fun e => decide (e.minReadClass ≤ s.class_)).length ≤ limit :=
      ((List.length_filter_le _ _).trans (List.length_filter_le _ _)).trans hlimit
    refine congrArg Except.ok ((List.take_of_length_le hlength).trans ?_)
    rw [hentries, List.filter_map, List.filter_map, List.filter_filter]
    refine congrArg _ (List.filter_congr fun hit _ => ?_)
    exact Bool.and_comm _ _
  · exact ((List.filter_sublist.map Prod.fst).nodup (nodup_hits h hnodup))
  · obtain ⟨⟨m, e⟩, hhit, rfl⟩ := List.mem_map.mp hn
    obtain ⟨frame, hframe, ⟨hchild, he⟩, hquery, hclass⟩ := hmem.mp hhit
    obtain ⟨chain, hf⟩ := hframed frame hframe
    have hname : e.name = m.name := by rw [(Frame.entry_eq_some.mp he).2.2]
    exact shown_of_entry h hf hchild he hclass (hname ▸ hquery)
  · obtain ⟨chain, hancestry, hfits, hopen⟩ := hn.above
    have hchain := (h.ancestry_eq_ok hn.found).mp hancestry
    rcases h.chain_cases hn.found hchain with ⟨-, hid, -⟩ | ⟨folder, rest, hp, hfolder, hkind, rfl, hup⟩
    · exact absurd hid hn.below
    · have hpath := hfits
      rw [pathOf_cons (hup.ne_nil hfolder), spelled_concat] at hpath
      have hshorter : (spelled (pathOf rest)).utf8ByteSize ≤ maxPathLen := by
        rw [String.utf8ByteSize_append, String.utf8ByteSize_append] at hpath
        omega
      -- the folder of the node was gone through, and offered it
      obtain ⟨frame, hframe, rfl⟩ := hall hfolder hup hkind hopen hshorter
      obtain ⟨chain', hf⟩ := hframed frame hframe
      obtain rfl := hf.up.unique hup
      have hchild := h.mem_childNodes.mpr ⟨hn.found, hp⟩
      have he := Frame.entry_eq_some.mpr ⟨hn.plain, hf.path ▸ hpath, rfl⟩
      obtain ⟨-, -, -, hgate⟩ := hf.entry h hchild he
      refine List.mem_map.mpr ⟨(n, _), hmem.mpr ⟨frame, hframe, ⟨hchild, he⟩,
        matchesQuery_iff.mpr hn.named, (hgate _).mpr ⟨fun k hk => ?_, hn.own⟩⟩, rfl⟩
      obtain ⟨folder, hparent, hread⟩ := hn.readable
      rw [TreeState.parentOf, hp, Option.bind_some, hfolder] at hparent
      obtain rfl := Except.ok.inj hparent
      obtain ⟨up, hup', heach⟩ := checks_pass.mp hread
      obtain rfl := ((h.ancestry_eq_ok hfolder).mp hup').unique hup
      exact (checkReadNode_open (hopen k hk)).mp
        (TreeState.checkReadEach_eq_ok.mp heach k (List.mem_reverse.mpr hk))
  · rintro ⟨m, e⟩ hhit
    obtain ⟨frame, hframe, ⟨hchild, he⟩, -, hclass⟩ := hmem.mp hhit
    obtain ⟨chain, hf⟩ := hframed frame hframe
    exact describes_of_entry h hf hchild he hclass hnamed

/-! ### The names of a tree that was built -/

theorem speakable_of_valid {name : String} (h : validateName name = .ok ()) : Speakable name := by
  obtain ⟨hne, -, -, -, -, hchars⟩ := validateName_eq_ok.mp h
  exact ⟨hne, fun c hc => ⟨(hchars c hc).1, (hchars c hc).2.1⟩⟩

/-- A variant of a name is made of its characters and a counter. -/
theorem speakable_freeName {name v : String} {budget : ℕ} {taken : String → Bool}
    (hname : Speakable name) (h : freeName name budget taken = some v) : Speakable v := by
  unfold freeName at h
  split at h
  · exact Option.some.inj h ▸ hname
  · obtain ⟨stem, k, ext, cut, hsplit, hcut, hstem, -⟩ := splitVariant_parts hname.1
    rw [hsplit] at h
    obtain ⟨⟨i, hvariant⟩, -⟩ := freeVariant_some h
    unfold variant at hvariant
    dsimp only at hvariant
    split at hvariant
    · cases hvariant
    · split at hvariant
      · cases hvariant
      · rename_i hkept
        obtain rfl := Option.some.inj hvariant
        have hstem' := (takeBytes_isPrefix
          (budget - (byteLen (" (" ++ i.repr ++ ")").toList + byteLen ext)) stem).trans hstem
        have hchars := hname.2
        rw [hcut] at hchars
        constructor
        · intro hempty
          have hnil := String.toList_eq_nil_iff.mpr hempty
          rw [String.toList_ofList, List.append_eq_nil_iff, List.append_eq_nil_iff] at hnil
          exact hkept (List.isEmpty_iff.mpr hnil.1.1)
        · rw [String.toList_ofList]
          intro c hc
          rcases List.mem_append.mp hc with hc | hc
          · rcases List.mem_append.mp hc with hc | hc
            · exact hchars c (List.mem_append_left _ (hstem'.subset hc))
            · have hallowed : Allowed c := allowed_counterText c hc
              exact ⟨hallowed.1, hallowed.2.1⟩
          · exact hchars c (List.mem_append_right _ hc)

/-- The name a file gets is a good one. -/
theorem speakable_filed {parent : Node} {parentId name filed : String}
    {renameIfTaken : Option (String → Bool)} (hname : Speakable name)
    (h : FileTree.filingName st parent parentId name renameIfTaken = .ok filed) : Speakable filed := by
  unfold FileTree.filingName at h
  split at h
  · exact Except.ok.inj h ▸ hname
  · cases renameIfTaken with
    | none => cases h
    | some reserved =>
      obtain ⟨room, -, h⟩ := checks_pass.mp h
      exact speakable_freeName hname (required_eq_ok.mp h)

theorem Named.insert (h : Named st) (hname : Speakable n.name) : Named (st.insertInMemory n) := by
  intro i m hm hp
  rw [TreeState.insertInMemory_lookup] at hm
  split at hm
  · exact Option.some.inj hm ▸ hname
  · exact h hm hp

/-- **Every operation keeps the names such that a path can spell them out.** -/
theorem named_step {t t' : FileTree} {op : Operation} (h : Sound t) (hnamed : Named t.state)
    (hstep : FileTree.Step t op t') : Named t'.state := by
  obtain ⟨-, hret | ⟨e, hfail⟩⟩ := hstep
  · cases op with
    | createFolder id parentPath name kind r w owner s =>
      obtain ⟨node, t₁, h₁, h₂⟩ := returns_bind.mp hret
      obtain ⟨-, rfl⟩ := returns_pure.mp h₂
      obtain ⟨parent, hadd, -, hvalid, -⟩ := FileTree.createFolder_returns h.wellFormed h₁
      exact hadd.state ▸ hnamed.insert (speakable_of_valid hvalid)
    | createAlias id sourcePath destPath s =>
      obtain ⟨node, t₁, h₁, h₂⟩ := returns_bind.mp hret
      obtain ⟨-, rfl⟩ := returns_pure.mp h₂
      obtain ⟨parent, hadd, -, hvalid, -⟩ := FileTree.createAlias_returns h.wellFormed h₁
      exact hadd.state ▸ hnamed.insert (speakable_of_valid hvalid)
    | addFile id parentId name size sha256 storagePath =>
      obtain ⟨node, t₁, h₁, h₂⟩ := returns_bind.mp hret
      obtain ⟨-, rfl⟩ := returns_pure.mp h₂
      obtain ⟨parent, hadd, -, hvalid, -, hfiled⟩ := FileTree.fileEntry_returns h.wellFormed h₁
      exact hadd.state ▸ hnamed.insert (speakable_filed (speakable_of_valid hvalid) hfiled)
    | addFileRenaming id parentId name size sha256 storagePath reserved =>
      obtain ⟨node, t₁, h₁, h₂⟩ := returns_bind.mp hret
      obtain ⟨-, rfl⟩ := returns_pure.mp h₂
      obtain ⟨parent, hadd, -, hvalid, -, hfiled⟩ := FileTree.fileEntry_returns h.wellFormed h₁
      exact hadd.state ▸ hnamed.insert (speakable_filed (speakable_of_valid hvalid) hfiled)
    | delete path s =>
      obtain ⟨kind, t₁, h₁, h₂⟩ := returns_bind.mp hret
      obtain ⟨-, rfl⟩ := returns_pure.mp h₂
      obtain ⟨top, p, ordered, -, -, -, -, hstate, -⟩ := FileTree.delete_returns h.wellFormed h₁
      intro i n hn hbelow
      rw [hstate, FileTree.unlist_nodes, FileTree.removeAll_lookup] at hn
      split at hn
      · cases hn
      · exact hnamed hn hbelow
    | moveNode path destPath s =>
      obtain ⟨node, p, dest, -, -, -, hnode, hp, -, -, -, -, -, -, hstate, -⟩ :=
        FileTree.moveNode_returns h.wellFormed hret
      intro i n hn hbelow
      rw [hstate, FileTree.moveInMemory_lookup hnode] at hn
      split at hn
      -- the node had a parent before, so its name was one that can be spelled
      · have hname : Speakable node.name := hnamed hnode (by rw [hp]; rfl)
        exact Option.some.inj hn ▸ hname
      · exact hnamed hn hbelow
    | removeFileNode id =>
      intro i n hn
      rcases FileTree.removeFileNode_returns hret with ⟨hstate, -⟩ | ⟨node, -, -, hstate, -⟩
      · exact hnamed (hstate ▸ hn)
      · have hnodes : t'.state.nodes = t.state.nodes.erase id := by
          rw [hstate]
          cases node.parentId <;> simp
        rw [hnodes] at hn
        by_cases hi : i = id
        · rw [hi, Finmap.lookup_erase] at hn
          cases hn
        · exact hnamed (Finmap.lookup_erase_ne hi ▸ hn)
  · obtain ⟨hstate, -⟩ := Prod.mk.inj (op.run_atomic.fails hfail)
    exact hstate ▸ hnamed

theorem named_fresh : Named TreeState.fresh := by
  intro i n hn hbelow
  rw [TreeState.fresh, TreeState.insertInMemory_lookup] at hn
  split at hn
  · obtain rfl := Option.some.inj hn
    cases hbelow
  · simp at hn

/-- **Over every run the names stay such that a path can spell them out.** -/
theorem named_run {faults : List Bool} {ops : List Operation} {t : FileTree}
    (hrun : Run FileTree.Step (FileTree.fresh faults) ops t) : Named t.state := by
  have hboth : Sound t ∧ Named t.state := by
    refine hrun.invariant (fun t => Sound t ∧ Named t.state) ?_ ⟨sound_fresh faults, named_fresh⟩
    rintro t op t' ⟨h, hnamed⟩ hstep
    exact ⟨h.step hstep, named_step h hnamed hstep⟩
  exact hboth.2

/-! ### A drop box in a folder -/

namespace Searched

/-- A session that sees into drop boxes. -/
def admin : Session := ⟨"admin", .admin, Privileges.all⟩

/-- A session that does not. -/
def visitor : Session := ⟨"visitor", .user, Privileges.all⟩

/-- A folder for users with a drop box in it. -/
def made : List Operation :=
  [.createFolder "s" "/" "staff" .directory .user .guest none admin,
    .createFolder "b" "/staff" "box" .dropBox .guest .guest none admin]

/-- A drop box in a folder for users. -/
def tree : FileTree := (FileTree.fresh []).after made

/-- The drop box. -/
def box : Node :=
  ⟨"b", some "s", "box", .dropBox, 0, none, .guest, .guest, none, none, .default_, none⟩

/-- The folder it is in. -/
def staff : Node :=
  ⟨"s", some rootId, "staff", .directory, 0, none, .user, .guest, none, none, .default_, none⟩

theorem run_made : Run FileTree.Step (FileTree.fresh []) made tree :=
  FileTree.run_after (by decide +kernel)

theorem rootOpen_tree : RootOpen tree.state := by
  intro root hroot
  have hfresh : tree.state.nodes.lookup rootId = some freshRoot := by decide +kernel
  rw [hfresh] at hroot
  rw [← Option.some.inj hroot]
  rfl

theorem box_shown : Shown tree.state id "o" visitor box where
  found := by decide +kernel
  below := by decide
  plain := by decide
  above := ⟨[box, staff, freshRoot], by decide +kernel, by decide +kernel, by decide⟩
  named := by decide
  readable := ⟨staff, by decide +kernel, by decide +kernel⟩
  own := by decide

end Searched

open Searched in
/-- A user finds the drop box, though not what is in it. -/
theorem search_agrees_box : ∃ hits : List (Node × CatalogEntry),
    search id (generateCatalog tree.state).2 "o" .user 10 = .ok (hits.map Prod.snd) ∧
      ∃ e, (box, e) ∈ hits ∧ tree.state.resolveAs e.path visitor = .ok box := by
  have hlimit : (generateCatalog tree.state).1 ≤ 10 := by decide +kernel
  obtain ⟨hits, hsearch, -, hshown, hdescribes⟩ :=
    search_agrees ((sound_fresh []).run run_made).wellFormed (named_run run_made) rootOpen_tree
      id "o" visitor hlimit
  obtain ⟨⟨n, e⟩, hhit, hbox⟩ := List.mem_map.mp ((hshown box).mpr box_shown)
  obtain rfl : n = box := hbox
  exact ⟨hits, hsearch, e, hhit, (hdescribes _ hhit).reaches⟩

end Files

end KdxHotline
