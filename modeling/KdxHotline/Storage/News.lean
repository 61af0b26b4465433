import KdxHotline.Foundations.Cascade
import KdxHotline.Storage.Pool

/-!
# The tables of newsgroups and posts

Newsgroups and the posts in them, as the database holds them. The constraints of the schema are
fields of `KdxHotline.Storage.NewsTables`: the ids of either table and the names of newsgroups are
unique, and the newsgroup and the parent of a post exist. Deleting a newsgroup or a post deletes
the posts that refer to it, and those that refer to these; but the database nests no more than
`KdxHotline.Storage.maxTriggerDepth` of these deletions, and deletes nothing if there are more.

The tables that the statements lead to (`KdxHotline.Storage.NewsReaches`) know more than the
schema does: a reply comes after its parent and is in its parent's newsgroup
(`KdxHotline.Storage.threaded_of_reaches`). So the query that collects the replies below a post
comes to an end, and it collects what the deletion of the post would delete
(`KdxHotline.Storage.own_words_only`), if it is not nested too deep
(`KdxHotline.Storage.long_thread_stays`).
-/

namespace KdxHotline

namespace Storage

open Foundations

/-- A row of `newsgroups`. -/
structure NewsgroupRow where
  id : String
  name : String
  description : String
  minReadClass : ℤ
  minPostClass : ℤ

/-- A row of `news_posts`. A thread root has no parent. -/
structure PostRow where
  id : String
  newsgroupId : String
  parentId : Option String
  author : String
  subject : String
  body : String
  createdAt : ℤ
  deriving DecidableEq

/-- The tables with the constraints of their schema. -/
structure NewsTables where
  groups : List NewsgroupRow
  posts : List PostRow
  groups_id : UniqueKey NewsgroupRow.id groups
  groups_name : UniqueKey NewsgroupRow.name groups
  posts_id : UniqueKey PostRow.id posts
  posts_group : ∀ p ∈ posts, ∃ g ∈ groups, g.id = p.newsgroupId
  posts_parent : ∀ p ∈ posts, ∀ k, p.parentId = some k → ∃ q ∈ posts, q.id = k

/-- The tables of a fresh database. -/
def NewsTables.fresh : NewsTables where
  groups := []
  posts := []
  groups_id := uniqueKey_nil _
  groups_name := uniqueKey_nil _
  posts_id := uniqueKey_nil _
  posts_group := by simp
  posts_parent := by simp

/-- The tables of the news, with the failures of their statements. -/
abbrev NewsPool := Pool NewsTables

/-- How many deletions the database lets be nested, each of them caused by the one before: its
limit on the depth of triggers, which this crate leaves as it is. -/
def maxTriggerDepth : ℕ := 1000

/-- The posts without those that are meant and those below them. -/
def withoutPosts (meant : PostRow → Bool) (posts : List PostRow) : List PostRow :=
  cascade PostRow.id PostRow.parentId posts.length meant posts

theorem mem_withoutPosts {meant : PostRow → Bool} {posts : List PostRow} {p : PostRow} :
    p ∈ withoutPosts meant posts ↔
      p ∈ posts ∧ ¬Falls PostRow.id PostRow.parentId posts (meant · = true) p :=
  mem_cascade le_rfl

theorem withoutPosts_parent {meant : PostRow → Bool} {posts : List PostRow}
    (h : ∀ p ∈ posts, ∀ k, p.parentId = some k → ∃ q ∈ posts, q.id = k) :
    ∀ p ∈ withoutPosts meant posts, ∀ k, p.parentId = some k →
      ∃ q ∈ withoutPosts meant posts, q.id = k := by
  intro p hp k hk
  obtain ⟨hmem, hkept⟩ := mem_withoutPosts.mp hp
  obtain ⟨q, hq, rfl⟩ := h p hmem k hk
  exact ⟨q, mem_withoutPosts.mpr ⟨hq, fun hfalls => hkept (.refers hfalls hmem hk)⟩, rfl⟩

namespace NewsTables

variable (db : NewsTables)

/-- Delete posts. -/
def deletePosts (meant : PostRow → Bool) : NewsTables where
  groups := db.groups
  posts := withoutPosts meant db.posts
  groups_id := db.groups_id
  groups_name := db.groups_name
  posts_id := db.posts_id.sublist ((cascade_sublist le_rfl).map _)
  posts_group p hp := db.posts_group p (mem_withoutPosts.mp hp).1
  posts_parent := withoutPosts_parent db.posts_parent

/-- Delete a newsgroup, and the posts in it. -/
def deleteGroup (id : String) : NewsTables where
  groups := db.groups.filter fun g => g.id ≠ id
  posts := withoutPosts (fun p => p.newsgroupId = id) db.posts
  groups_id := db.groups_id.filter _
  groups_name := db.groups_name.filter _
  posts_id := db.posts_id.sublist ((cascade_sublist le_rfl).map _)
  posts_group p hp := by
    obtain ⟨hmem, hkept⟩ := mem_withoutPosts.mp hp
    obtain ⟨g, hg, hid⟩ := db.posts_group p hmem
    refine ⟨g, List.mem_filter.mpr ⟨hg, decide_eq_true ?_⟩, hid⟩
    intro heq
    exact hkept (.meant hmem (decide_eq_true (hid.symm.trans heq)))
  posts_parent := withoutPosts_parent db.posts_parent

/-- Delete posts, unless that is nested too deep. -/
def tryDeletePosts (meant : PostRow → Bool) : Except StorageError NewsTables :=
  if nestsBeyond PostRow.id PostRow.parentId maxTriggerDepth meant db.posts then .error .sqlx
  else .ok (db.deletePosts meant)

/-- Delete a newsgroup and the posts in it, unless that is nested too deep. Each thread goes with
its root, which comes first in it, and a root goes with the newsgroup. -/
def tryDeleteGroup (id : String) : Except StorageError NewsTables :=
  if nestsBeyond PostRow.id PostRow.parentId (maxTriggerDepth - 1)
      (fun p => p.newsgroupId = id ∧ p.parentId = none) db.posts then .error .sqlx
  else .ok (db.deleteGroup id)

variable {db}

theorem tryDeletePosts_eq_ok {meant : PostRow → Bool} {db' : NewsTables}
    (h : db.tryDeletePosts meant = .ok db') : db' = db.deletePosts meant := by
  rw [tryDeletePosts] at h
  split at h
  · cases h
  · exact (Except.ok.inj h).symm

theorem tryDeleteGroup_eq_ok {id : String} {db' : NewsTables}
    (h : db.tryDeleteGroup id = .ok db') : db' = db.deleteGroup id := by
  rw [tryDeleteGroup] at h
  split at h
  · cases h
  · exact (Except.ok.inj h).symm

end NewsTables

/-- The tables of a statement, and what it returns for them. -/
theorem map_eq_ok {α : Type} {x : Except StorageError NewsTables} {a b : α} {db : NewsTables}
    (h : x.map (Prod.mk a) = .ok (b, db)) : x = .ok db := by
  cases x with
  | ok db' =>
    cases h
    rfl
  | error e => cases h

namespace News

/-- Insert a newsgroup. -/
def createGroup (id name description : String) (minReadClass minPostClass : ℤ) :
    Fallible NewsPool StorageError NewsgroupRow :=
  statement fun db =>
    let row : NewsgroupRow := ⟨id, name, description, minReadClass, minPostClass⟩
    if hid : ∃ g ∈ db.groups, g.id = row.id then .error .alreadyExists
    else if hname : ∃ g ∈ db.groups, g.name = row.name then .error .alreadyExists
    else .ok (row, { db with
      groups := db.groups ++ [row]
      groups_id := db.groups_id.append fun g hg he => hid ⟨g, hg, he⟩
      groups_name := db.groups_name.append fun g hg he => hname ⟨g, hg, he⟩
      posts_group := fun p hp => by
        obtain ⟨g, hg, heq⟩ := db.posts_group p hp
        exact ⟨g, List.mem_append_left _ hg, heq⟩ })

/-- Rewrite a newsgroup that the reader may read. -/
def updateGroup (id name description : String) (minReadClass minPostClass readerClass : ℤ) :
    Fallible NewsPool StorageError Bool :=
  statement fun db =>
    let p (g : NewsgroupRow) : Bool := g.id = id ∧ g.minReadClass ≤ readerClass
    if hname : ∃ g ∈ db.groups, g.id ≠ id ∧ g.name = name then
      -- the name clashes only if a row is rewritten at all
      if db.groups.any p then .error .alreadyExists else .ok (false, db)
    else .ok (db.groups.any p, { db with
      groups := setWhere p
        (fun g => { g with
          name := name
          description := description
          minReadClass := minReadClass
          minPostClass := minPostClass }) db.groups
      groups_id := db.groups_id.setWhere_same fun _ => rfl
      groups_name := by
        refine db.groups_name.setWhere_fresh db.groups_id ?_ ?_
        · intro g _ g' _ hg hg'
          exact (of_decide_eq_true hg).1.trans (of_decide_eq_true hg').1.symm
        · intro g hg g' hg' hp hp' heq
          have hother : g'.id ≠ id := by
            intro hid
            rw [db.groups_id.eq hg hg' ((of_decide_eq_true hp).1.trans hid.symm), hp'] at hp
            cases hp
          exact hname ⟨g', hg', hother, heq.symm⟩
      posts_group := fun q hq => by
        obtain ⟨g, hg, hid⟩ := db.posts_group q hq
        refine ⟨_, mem_setWhere.mpr ⟨g, hg, rfl⟩, ?_⟩
        split <;> exact hid })

/-- A newsgroup that was removed. -/
structure DeletedGroup where
  name : String
  /-- Posts (replies included) that went with it. -/
  posts : ℕ

/-- Delete a newsgroup that the reader may read, and every post in it. -/
def deleteGroup (id : String) (readerClass : ℤ) :
    Fallible NewsPool StorageError (Option DeletedGroup) :=
  transaction do
    let found ← query fun db => (db.groups.find? fun g => g.id = id ∧ g.minReadClass ≤ readerClass).map
      fun g => (⟨g.name, db.posts.countP fun p => p.newsgroupId = id⟩ : DeletedGroup)
    match found with
    | none => return none
    | some deleted =>
      statement fun db => (db.tryDeleteGroup id).map (Prod.mk ())
      return some deleted

/-- Insert a post. The parent of a reply has to be in the same newsgroup, or nothing is
inserted. -/
def createPost (id newsgroupId : String) (parentId : Option String) (author subject body : String)
    (createdAt : ℤ) : Fallible NewsPool StorageError PostRow := do
  let row : PostRow := ⟨id, newsgroupId, parentId, author, subject, body, createdAt⟩
  let inserted ← statement fun db =>
    if hparent : ∀ k, row.parentId = some k →
        ∃ p ∈ db.posts, p.id = k ∧ p.newsgroupId = row.newsgroupId then
      if hid : ∃ p ∈ db.posts, p.id = row.id then .error .alreadyExists
      else if hgroup : ∃ g ∈ db.groups, g.id = row.newsgroupId then
        .ok (true, { db with
          posts := db.posts ++ [row]
          posts_id := db.posts_id.append fun p hp he => hid ⟨p, hp, he⟩
          posts_group := fun p hp => by
            rcases List.mem_append.mp hp with hp | hp
            · exact db.posts_group p hp
            · rw [List.mem_singleton.mp hp]
              exact hgroup
          posts_parent := fun p hp k hk => by
            rcases List.mem_append.mp hp with hp | hp
            · obtain ⟨q, hq, hqk⟩ := db.posts_parent p hp k hk
              exact ⟨q, List.mem_append_left _ hq, hqk⟩
            · rw [List.mem_singleton.mp hp] at hk
              obtain ⟨q, hq, hqk, -⟩ := hparent k hk
              exact ⟨q, List.mem_append_left _ hq, hqk⟩ })
      else .error .foreignKey
    else .ok (false, db)
  if inserted then return row else check (.error .notFound)

/-- Delete a post and its replies. -/
def deletePost (id : String) : Fallible NewsPool StorageError Unit := do
  let deleted ← statement fun db =>
    (db.tryDeletePosts fun p => p.id = id).map (Prod.mk (db.posts.any fun p => decide (p.id = id)))
  if deleted then return () else check (.error .notFound)

/-- Delete an author's own post, if every reply below it is by the author too. -/
def deleteOwnPost (id author : String) : Fallible NewsPool StorageError Bool :=
  statement fun db =>
    match db.posts.find? fun p => p.id = id ∧ p.author = author with
    | none => .ok (false, db)
    | some _ =>
      match subtree PostRow.id PostRow.parentId db.posts id with
      -- the query does not come to an end
      | .error _ => .error .sqlx
      | .ok below =>
        if db.posts.any fun p => decide (p.id ∈ below ∧ p.author ≠ author) then .ok (false, db)
        else (db.tryDeletePosts fun p => p.id = id).map (Prod.mk true)

end News

/-! ### The tables that the statements lead to -/

/-- A call of the storage layer. -/
inductive NewsCall
  | createGroup (id name description : String) (minReadClass minPostClass : ℤ)
  | updateGroup (id name description : String) (minReadClass minPostClass readerClass : ℤ)
  | deleteGroup (id : String) (readerClass : ℤ)
  | createPost (id newsgroupId : String) (parentId : Option String) (author subject body : String)
      (createdAt : ℤ)
  | deletePost (id : String)
  | deleteOwnPost (id author : String)

/-- Make a call, and forget what it returns. -/
def NewsCall.run : NewsCall → Fallible NewsPool StorageError Unit
  | createGroup id name description read post => do
    let _ ← News.createGroup id name description read post
  | updateGroup id name description read post reader => do
    let _ ← News.updateGroup id name description read post reader
  | deleteGroup id reader => do let _ ← News.deleteGroup id reader
  | createPost id group parent author subject body time => do
    let _ ← News.createPost id group parent author subject body time
  | deletePost id => News.deletePost id
  | deleteOwnPost id author => do let _ ← News.deleteOwnPost id author

/-- The tables that some calls lead to, whatever fails. -/
inductive NewsReaches : NewsTables → Prop
  | fresh : NewsReaches .fresh
  | call {p q : NewsPool} {r : Except StorageError Unit} (h : NewsReaches p.db) (c : NewsCall)
      (hends : Ends c.run p r q) : NewsReaches q.db

/-- A reply comes after its parent, and is in its parent's newsgroup. -/
def Threaded (db : NewsTables) : Prop :=
  Grown PostRow.id PostRow.parentId (fun p r => p.newsgroupId = r.newsgroupId) db.posts

/-- What is done leaves threads threads. -/
def KeepsThreads (p q : NewsPool) : Prop := Threaded p.db → Threaded q.db

instance transKeepsThreads : Trans KeepsThreads KeepsThreads KeepsThreads :=
  ⟨fun h h' hp => h' (h hp)⟩

theorem KeepsThreads.of_eq {p q : NewsPool} (h : q.db = p.db) : KeepsThreads p q := fun hp => h ▸ hp

variable {α : Type} {f : NewsTables → Except StorageError (α × NewsTables)}

/-- A statement has to be looked at when it returns. -/
theorem confined_statement
    (h : ∀ db a db', f db = .ok (a, db') → Threaded db → Threaded db') :
    Confined KeepsThreads (statement f) :=
  (statement_atomic f).confined .of_eq fun hret => h _ _ _ (returns_statement hret)

/-- A new group keeps the threads. -/
theorem confined_createGroup (id name description : String) (read post : ℤ) :
    Confined KeepsThreads (News.createGroup id name description read post) := by
  refine confined_statement fun db row db' h hdb => ?_
  dsimp only at h
  split at h
  · cases h
  · split at h
    · cases h
    · obtain ⟨-, rfl⟩ := outcome_inj h
      exact hdb

/-- A changed group keeps the threads. -/
theorem confined_updateGroup (id name description : String) (read post reader : ℤ) :
    Confined KeepsThreads (News.updateGroup id name description read post reader) := by
  refine confined_statement fun db found db' h hdb => ?_
  dsimp only at h
  split at h
  · split at h
    · cases h
    · obtain ⟨-, rfl⟩ := outcome_inj h
      exact hdb
  · obtain ⟨-, rfl⟩ := outcome_inj h
    exact hdb

/-- A deleted group takes its threads with it. -/
theorem confined_deleteGroup (id : String) (reader : ℤ) :
    Confined KeepsThreads (News.deleteGroup id reader) := by
  refine (transaction_atomic _).confined .of_eq fun hret => ?_
  obtain ⟨r, hr, hdb⟩ := returns_transaction hret
  refine fun hthreaded => hdb ▸ ?_
  obtain ⟨found, q, hquery, hrest⟩ := returns_bind.mp hr
  obtain ⟨-, hq⟩ := returns_query hquery
  cases found with
  | none =>
    obtain ⟨-, rfl⟩ := returns_pure.mp hrest
    exact hq ▸ hthreaded
  | some deleted =>
    obtain ⟨_, t, hdelete, hreturn⟩ := returns_bind.mp hrest
    obtain ⟨-, rfl⟩ := returns_pure.mp hreturn
    have hdeleted := map_eq_ok (returns_statement hdelete)
    rw [NewsTables.tryDeleteGroup_eq_ok hdeleted, hq]
    exact hthreaded.cascade le_rfl

/-- A new post goes under one of its group. -/
theorem confined_createPost (id group : String) (parent : Option String) (author subject body : String)
    (time : ℤ) : Confined KeepsThreads (News.createPost id group parent author subject body time) := by
  refine Confined.bind (confined_statement fun db inserted db' h hdb => ?_) fun inserted => ?_
  · dsimp only at h
    split at h
    · rename_i hparent
      split at h
      · cases h
      · rename_i hid
        split at h
        · obtain ⟨-, rfl⟩ := outcome_inj h
          exact hdb.add (fun p hp he => hid ⟨p, hp, he⟩) hparent
        · cases h
    · obtain ⟨-, rfl⟩ := outcome_inj h
      exact hdb
  · split
    case isTrue => exact (keeps_pure _).confined KeepsThreads.of_eq
    case isFalse => exact (keeps_check _).confined KeepsThreads.of_eq

theorem confined_deletePost (id : String) : Confined KeepsThreads (News.deletePost id) := by
  refine Confined.bind (confined_statement fun db deleted db' h hdb => ?_) fun deleted => ?_
  · rw [NewsTables.tryDeletePosts_eq_ok (map_eq_ok h)]
    exact hdb.cascade le_rfl
  · split
    case isTrue => exact (keeps_pure _).confined KeepsThreads.of_eq
    case isFalse => exact (keeps_check _).confined KeepsThreads.of_eq

/-- A deleted post takes its replies with it. -/
theorem confined_deleteOwnPost (id author : String) :
    Confined KeepsThreads (News.deleteOwnPost id author) := by
  refine confined_statement fun db deleted db' h hdb => ?_
  split at h
  · obtain ⟨-, rfl⟩ := outcome_inj h
    exact hdb
  · split at h
    · cases h
    · split at h
      · obtain ⟨-, rfl⟩ := outcome_inj h
        exact hdb
      · rw [NewsTables.tryDeletePosts_eq_ok (map_eq_ok h)]
        exact hdb.cascade le_rfl

/-- Every call leaves threads threads. -/
theorem confined_run (c : NewsCall) : Confined KeepsThreads c.run := by
  have hreturn : Confined KeepsThreads (pure () : Fallible NewsPool StorageError Unit) :=
    (keeps_pure ()).confined KeepsThreads.of_eq
  cases c with
  | createGroup => exact (confined_createGroup ..).bind fun _ => hreturn
  | updateGroup => exact (confined_updateGroup ..).bind fun _ => hreturn
  | deleteGroup => exact (confined_deleteGroup ..).bind fun _ => hreturn
  | createPost => exact (confined_createPost ..).bind fun _ => hreturn
  | deletePost => exact confined_deletePost _
  | deleteOwnPost => exact (confined_deleteOwnPost ..).bind fun _ => hreturn

theorem threaded_of_reaches {db : NewsTables} (h : NewsReaches db) : Threaded db := by
  induction h with
  | fresh => exact .nil
  | call _ c hends ih =>
    rcases hends.returns_or_fails with ⟨_, hret⟩ | ⟨_, hfail⟩
    · exact (confined_run c).returns hret ih
    · exact (confined_run c).fails hfail ih

/-! ### Deleting an own post -/

/-- The replies below a post, at any depth. -/
def Below (posts : List PostRow) (id : String) (p : PostRow) : Prop :=
  Falls PostRow.id PostRow.parentId posts (·.parentId = some id) p

variable {db : NewsTables} {id author : String} {p : PostRow}

/-- The posts that a deletion deletes are the post and the replies below it. -/
theorem falls_iff (hid : ∃ q ∈ db.posts, q.id = id) (hp : p ∈ db.posts) :
    Falls PostRow.id PostRow.parentId db.posts (fun q => decide (q.id = id) = true) p ↔
      p.id = id ∨ Below db.posts id p := by
  constructor
  · intro h
    induction h with
    | meant _ hm => exact .inl (of_decide_eq_true hm)
    | @refers s r hs hr hparent ih =>
      rcases ih hs.mem with heq | hbelow
      · exact .inr (.meant hr (heq ▸ hparent))
      · exact .inr (.refers hbelow hr hparent)
  · rintro (heq | h)
    · exact .meant hp (decide_eq_true heq)
    · obtain ⟨q, hq, rfl⟩ := hid
      refine h.trans (fun _ hr => hr) fun r hr hparent => ?_
      exact .refers (.meant hq (decide_eq_true rfl)) hr hparent

open Classical in
theorem posts_deletePosts (hid : ∃ q ∈ db.posts, q.id = id) :
    (db.deletePosts fun p => p.id = id).posts =
      db.posts.filter fun p => ¬(p.id = id ∨ Below db.posts id p) := by
  show withoutPosts _ db.posts = _
  rw [withoutPosts, cascade_eq le_rfl]
  refine List.filter_congr fun p hp => ?_
  rw [decide_eq_decide.mpr (falls_iff hid hp), decide_not]

/-- Who wrote the post and every reply below it. -/
def OwnWords (db : NewsTables) (id author : String) : Prop :=
  ∃ p ∈ db.posts, p.id = id ∧ p.author = author ∧ ∀ r, Below db.posts id r → r.author = author

/-- The query finds the replies below the post. -/
theorem subtree_below (h : Threaded db) (id : String) : ∃ ids,
    subtree PostRow.id PostRow.parentId db.posts id = .ok ids ∧
      ∀ q ∈ db.posts, q.id ∈ ids ↔ Below db.posts id q := by
  obtain ⟨ids, hids⟩ := subtree_total h.uniqueKey fun r hr => h.acyclic hr
  refine ⟨ids, hids, fun q hq => ?_⟩
  rw [mem_subtree hids]
  constructor
  · rintro ⟨r, hr, heq⟩
    rwa [← h.uniqueKey.eq hr.mem hq heq]
  · exact fun hbelow => ⟨q, hbelow, rfl⟩

/-- A reply is so far below the post that the database does not delete it with the post. -/
def TooDeep (db : NewsTables) (id : String) : Prop :=
  ∃ r, FallsAt PostRow.id PostRow.parentId db.posts (·.id = id) maxTriggerDepth r

/-- A post is no reply to itself, or to a reply below it. -/
theorem apart_of_threaded (h : Threaded db) (id : String) :
    Apart PostRow.id PostRow.parentId db.posts (fun p => decide (p.id = id) = true) := by
  intro r hr hid s hs hparent
  have hbelow : Below db.posts id r := by
    rcases (falls_iff ⟨r, hr, of_decide_eq_true hid⟩ hs.mem).mp hs with heq | hbelow
    · exact .meant hr (heq ▸ hparent)
    · exact .refers hbelow hr hparent
  exact h.acyclic hbelow (of_decide_eq_true hid)

/-- **The database gives up just when a reply is too far below the post.** -/
theorem tryDeletePosts_eq (h : Threaded db) (id : String) :
    (TooDeep db id → (db.tryDeletePosts fun p => p.id = id) = .error .sqlx) ∧
      (¬TooDeep db id → (db.tryDeletePosts fun p => p.id = id) =
        .ok (db.deletePosts fun p => p.id = id)) := by
  have hiff := nestsBeyond_iff (n := maxTriggerDepth) h.uniqueKey (apart_of_threaded h id)
  simp only [decide_eq_true_eq] at hiff
  refine ⟨fun hdeep => if_pos (hiff.mpr hdeep), fun hshallow => if_neg ?_⟩
  exact fun hbeyond => hshallow (hiff.mp hbeyond)

/-- What the statement does by whose words are below the post. -/
theorem deleteOwnPost_cases (h : Threaded db) (id author : String) :
    ∃ f : NewsTables → Except StorageError (Bool × NewsTables),
      News.deleteOwnPost id author = statement f ∧
      (¬OwnWords db id author → f db = .ok (false, db)) ∧
      (OwnWords db id author → f db = (db.tryDeletePosts fun p => p.id = id).map (Prod.mk true)) := by
  obtain ⟨ids, hids, hbelow⟩ := subtree_below h id
  refine ⟨_, rfl, fun hnot => ?_, fun hown => ?_⟩
  · cases hfind : db.posts.find? fun p => p.id = id ∧ p.author = author with
    | none => rfl
    | some p =>
      have hp := List.mem_of_find?_eq_some hfind
      obtain ⟨hid, hauthor⟩ : p.id = id ∧ p.author = author := by simpa using List.find?_some hfind
      have hother : (db.posts.any fun p => decide (p.id ∈ ids ∧ p.author ≠ author)) = true := by
        by_contra hnone
        refine hnot ⟨p, hp, hid, hauthor, fun r hr => ?_⟩
        by_contra hne
        exact hnone (List.any_eq_true.mpr ⟨r, hr.mem, decide_eq_true
          ⟨(hbelow r hr.mem).mpr hr, hne⟩⟩)
      simp only [hids, hother, if_true]
  · obtain ⟨p, hp, hid, hauthor, hall⟩ := hown
    obtain ⟨q, hfind⟩ : ∃ q, (db.posts.find? fun p => p.id = id ∧ p.author = author) = some q := by
      refine Option.isSome_iff_exists.mp (List.find?_isSome.mpr ⟨p, hp, ?_⟩)
      exact decide_eq_true ⟨hid, hauthor⟩
    have hother : (db.posts.any fun p => decide (p.id ∈ ids ∧ p.author ≠ author)) = false := by
      refine List.any_eq_false.mpr fun q hq hfound => ?_
      obtain ⟨hmem, hne⟩ := of_decide_eq_true hfound
      exact hne (hall q ((hbelow q hq).mp hmem))
    simp only [hfind, hids, hother, Bool.false_eq_true, if_false]

/-- The answer of an undisturbed database to a deletion that it does not give up. -/
theorem deleteOwnPost_returns (h : Threaded db) {faults : List Bool}
    (hquiet : faults.headD false = false) (hfits : OwnWords db id author → ¬TooDeep db id) :
    ∃ deleted db', Returns (News.deleteOwnPost id author) ⟨db, faults⟩ deleted ⟨db', faults.tail⟩ ∧
      (deleted = true ∧ OwnWords db id author ∧ db' = (db.deletePosts fun p => p.id = id) ∨
        deleted = false ∧ ¬OwnWords db id author ∧ db' = db) := by
  obtain ⟨f, heq, hothers, howns⟩ := deleteOwnPost_cases h id author
  rw [heq]
  by_cases hown : OwnWords db id author
  · refine ⟨true, _, statement_returns hquiet ?_, .inl ⟨rfl, hown, rfl⟩⟩
    rw [howns hown, (tryDeletePosts_eq h id).2 (hfits hown)]
    rfl
  · exact ⟨false, db, statement_returns hquiet (hothers hown), .inr ⟨rfl, hown, rfl⟩⟩

/-- A deletion that is nested too deep fails. -/
theorem deleteOwnPost_fails (h : Threaded db) {faults : List Bool} (hown : OwnWords db id author)
    (hdeep : TooDeep db id) :
    Fails (News.deleteOwnPost id author) ⟨db, faults⟩ .sqlx ⟨db, faults.tail⟩ := by
  obtain ⟨f, heq, -, howns⟩ := deleteOwnPost_cases h id author
  have herror : f db = .error .sqlx := by
    rw [howns hown, (tryDeletePosts_eq h id).1 hdeep]
    rfl
  rw [heq]
  cases hfault : faults.headD false with
  | true => exact statement_fails hfault
  | false => exact statement_refuses hfault herror

open Classical in
/-- What the deletion of an own post is to do: it is answered whether the post is there, is the
author's, and every reply below it is; then the post and these replies are gone and every other post
is as it was, or else all are. -/
def Answered (db : NewsTables) (id author : String) (faults : List Bool) : Prop :=
  ∃ deleted q, Returns (News.deleteOwnPost id author) ⟨db, faults⟩ deleted q ∧
    (deleted = true ↔ OwnWords db id author) ∧ q.db.groups = db.groups ∧
    q.db.posts = if deleted then db.posts.filter fun p => ¬(p.id = id ∨ Below db.posts id p)
      else db.posts

/-- **Deleting your own post takes only your own words.** When no fault comes, the deletion does what
it is to do just when no reply is too far below a post that it is to delete. In that case, and
when a fault comes, it fails and leaves all as it was. In every table that the calls lead to, the
parent of a reply is there, in the same newsgroup. -/
theorem own_words_only (h : NewsReaches db) (id author : String) (faults : List Bool) :
    (faults.headD false = false →
      (Answered db id author faults ↔ (OwnWords db id author → ¬TooDeep db id))) ∧
    (faults.headD false = true ∨ OwnWords db id author ∧ TooDeep db id → ∃ q,
      Fails (News.deleteOwnPost id author) ⟨db, faults⟩ .sqlx q ∧ q.db = db) ∧
    ∀ r ∈ db.posts, ∀ k, r.parentId = some k →
      ∃ p ∈ db.posts, p.id = k ∧ p.newsgroupId = r.newsgroupId := by
  have hthreaded := threaded_of_reaches h
  refine ⟨fun hquiet => ⟨?_, fun hfits => ?_⟩, ?_, fun r hr k hk => hthreaded.exists_parent hr hk⟩
  · rintro ⟨deleted, q, hreturns, -⟩ hown hdeep
    cases hreturns.symm.trans (deleteOwnPost_fails hthreaded hown hdeep)
  · obtain ⟨deleted, db', hreturns, hcases⟩ := deleteOwnPost_returns hthreaded hquiet hfits
    refine ⟨deleted, _, hreturns, ?_⟩
    rcases hcases with ⟨rfl, hown, rfl⟩ | ⟨rfl, hnot, rfl⟩
    · refine ⟨iff_of_true rfl hown, rfl, posts_deletePosts ?_⟩
      obtain ⟨p, hp, hid, -⟩ := hown
      exact ⟨p, hp, hid⟩
    · exact ⟨iff_of_false nofun hnot, rfl, rfl⟩
  · rintro (hfault | ⟨hown, hdeep⟩)
    · exact ⟨_, statement_fails hfault, rfl⟩
    · exact ⟨_, deleteOwnPost_fails hthreaded hown hdeep, rfl⟩

/-- A newsgroup with a post and a reply to it, by the same author. -/
def soliloquy : NewsTables :=
  let group := (leaves (NewsCall.createGroup "g" "general" "" 0 1).run ⟨.fresh, []⟩).db
  let post := (leaves (NewsCall.createPost "a" "g" none "ann" "hello" "" 1).run ⟨group, []⟩).db
  (leaves (NewsCall.createPost "b" "g" (some "a") "ann" "again" "" 2).run ⟨post, []⟩).db

theorem reaches_soliloquy : NewsReaches soliloquy := by
  have hgroup := NewsReaches.call (p := ⟨.fresh, []⟩) .fresh (.createGroup "g" "general" "" 0 1)
    (ends_leaves _ _)
  have hpost := NewsReaches.call (p := ⟨_, []⟩) hgroup
    (.createPost "a" "g" none "ann" "hello" "" 1) (ends_leaves _ _)
  exact NewsReaches.call (p := ⟨_, []⟩) hpost
    (.createPost "b" "g" (some "a") "ann" "again" "" 2) (ends_leaves _ _)

/-- A post and the author's own reply to it are deleted. -/
theorem own_words_only_soliloquy : soliloquy.posts.map PostRow.id = ["a", "b"] ∧
    ∃ q, Returns (News.deleteOwnPost "a" "ann") ⟨soliloquy, []⟩ true q := by
  obtain ⟨hquiet, -, -⟩ := own_words_only reaches_soliloquy "a" "ann" []
  have hshallow : ¬TooDeep soliloquy "a" := by
    have hthreaded := threaded_of_reaches reaches_soliloquy
    have hiff := nestsBeyond_iff (n := maxTriggerDepth) hthreaded.uniqueKey
      (apart_of_threaded hthreaded "a")
    simp only [decide_eq_true_eq] at hiff
    rw [TooDeep, ← hiff]
    decide +kernel
  obtain ⟨deleted, q, hreturns, hiff, -⟩ := (hquiet rfl).mpr fun _ => hshallow
  have hall : ∀ r ∈ soliloquy.posts, r.author = "ann" := by decide +kernel
  have hfirst : ∃ p ∈ soliloquy.posts, p.id = "a" ∧ p.author = "ann" := by decide +kernel
  obtain ⟨p, hp, hid, hauthor⟩ := hfirst
  obtain rfl := hiff.mpr ⟨p, hp, hid, hauthor, fun r hr => hall r hr.mem⟩
  exact ⟨by decide +kernel, q, hreturns⟩

/-! Somebody who answers nobody but themselves, again and again. -/

namespace Monologue

/-- The id of the `n`-th post. -/
def postId (n : ℕ) : String := String.ofList (List.replicate (n + 1) 'x')

theorem postId_injective {n m : ℕ} (h : postId n = postId m) : n = m := by
  have hlength := congrArg (fun s => s.toList.length) h
  simpa [postId] using hlength

/-- What the post of this number is a reply to. -/
def parentOf : ℕ → Option String
  | 0 => none
  | n + 1 => some (postId n)

/-- The `n`-th post, a reply to the one before it. -/
def post (n : ℕ) : PostRow := ⟨postId n, "g", parentOf n, "ann", "again", "", n⟩

/-- The first posts. -/
def posts (n : ℕ) : List PostRow := (List.range n).map post

theorem mem_posts {n m : ℕ} (h : m < n) : post m ∈ posts n :=
  List.mem_map_of_mem (List.mem_range.mpr h)

/-- The parent of the next post is there. -/
theorem exists_parent {n : ℕ} : ∀ k, parentOf n = some k →
    ∃ p ∈ posts n, p.id = k ∧ p.newsgroupId = "g" := by
  intro k hk
  cases n with
  | zero => cases hk
  | succ n =>
    obtain rfl := Option.some.inj hk
    exact ⟨post n, mem_posts n.lt_succ_self, rfl, rfl⟩

/-- A post is inserted if its newsgroup is there, and what it is a reply to. -/
theorem createPost_returns {db : NewsTables} {id group author subject body : String}
    {parent : Option String} {time : ℤ} (hid : ¬∃ p ∈ db.posts, p.id = id)
    (hgroup : ∃ g ∈ db.groups, g.id = group)
    (hparent : ∀ k, parent = some k → ∃ p ∈ db.posts, p.id = k ∧ p.newsgroupId = group) :
    ∃ db', Returns (News.createPost id group parent author subject body time) ⟨db, []⟩
        ⟨id, group, parent, author, subject, body, time⟩ ⟨db', []⟩ ∧ db'.groups = db.groups ∧
      db'.posts = db.posts ++ [⟨id, group, parent, author, subject, body, time⟩] := by
  exact ⟨_, returns_bind.mpr ⟨true, _, statement_returns rfl
    ((dif_pos hparent).trans ((dif_neg hid).trans (dif_pos hgroup))), returns_pure.mpr ⟨rfl, rfl⟩⟩,
    rfl, rfl⟩

/-- The next post is posted. -/
theorem createPost_posts {db : NewsTables} {n : ℕ} (hgroup : ∃ g ∈ db.groups, g.id = "g")
    (hposts : db.posts = posts n) : ∃ db', db'.groups = db.groups ∧ db'.posts = posts (n + 1) ∧
      Returns (News.createPost (postId n) "g" (parentOf n) "ann" "again" "" n) ⟨db, []⟩ (post n)
        ⟨db', []⟩ := by
  have hparent : ∀ k, parentOf n = some k → ∃ p ∈ db.posts, p.id = k ∧ p.newsgroupId = "g" :=
    hposts ▸ exists_parent
  have hid : ¬∃ p ∈ db.posts, p.id = postId n := by
    rintro ⟨p, hp, heq⟩
    rw [hposts] at hp
    obtain ⟨m, hm, rfl⟩ := List.mem_map.mp hp
    have hlt := List.mem_range.mp hm
    exact absurd (postId_injective heq) (Nat.ne_of_lt hlt)
  obtain ⟨db', hreturns, hgroups', hposts'⟩ := createPost_returns hid hgroup hparent
  refine ⟨db', hgroups', ?_, hreturns⟩
  rw [hposts', hposts, posts, posts, List.range_succ, List.map_append]
  rfl

/-- **Any number of posts can be posted.** -/
theorem reaches_posts (n : ℕ) :
    ∃ db, NewsReaches db ∧ (∃ g ∈ db.groups, g.id = "g") ∧ db.posts = posts n := by
  induction n with
  | zero =>
    exact ⟨_, .call (p := ⟨.fresh, []⟩) .fresh (.createGroup "g" "general" "" 0 1) (ends_leaves _ _),
      ⟨_, List.mem_cons_self, rfl⟩, rfl⟩
  | succ n ih =>
    obtain ⟨db, hreaches, hgroup, hposts⟩ := ih
    obtain ⟨db', hgroups', hposts', hreturns⟩ := createPost_posts hgroup hposts
    have hrun : Returns (NewsCall.createPost (postId n) "g" (parentOf n) "ann" "again" "" n).run
        ⟨db, []⟩ () ⟨db', []⟩ :=
      returns_bind.mpr ⟨_, _, hreturns, returns_pure.mpr ⟨rfl, rfl⟩⟩
    have hends : Ends (NewsCall.createPost (postId n) "g" (parentOf n) "ann" "again" "" n).run
        ⟨db, []⟩ (.ok ()) ⟨db', []⟩ := hrun
    exact ⟨db', hreaches.call (p := ⟨db, []⟩) _ hends, hgroups' ▸ hgroup, hposts'⟩

theorem fallsAt_post {n m : ℕ} (h : m < n) :
    FallsAt PostRow.id PostRow.parentId (posts n) (·.id = postId 0) m (post m) := by
  induction m with
  | zero => exact .meant (mem_posts h) rfl
  | succ m ih => exact .refers (ih (Nat.lt_of_succ_lt h)) (mem_posts h) rfl

end Monologue

open Monologue in
/-- **A long thread stays**: the deletion of one's own words is not answered, if they are a thousand
replies one below the other. -/
theorem long_thread_stays : ¬∀ (db : NewsTables) (id author : String) (faults : List Bool),
    NewsReaches db → faults.headD false = false → Answered db id author faults := by
  intro hall
  obtain ⟨db, hreaches, -, hposts⟩ := reaches_posts (maxTriggerDepth + 1)
  have hdeep : TooDeep db (postId 0) := by
    rw [TooDeep, hposts]
    exact ⟨_, fallsAt_post maxTriggerDepth.lt_succ_self⟩
  have hown : OwnWords db (postId 0) "ann" := by
    have hall : ∀ r ∈ db.posts, r.author = "ann" := by
      rw [hposts]
      rintro r hr
      obtain ⟨m, -, rfl⟩ := List.mem_map.mp hr
      rfl
    exact ⟨post 0, hposts ▸ mem_posts maxTriggerDepth.succ_pos, rfl, rfl, fun r hr => hall r hr.mem⟩
  obtain ⟨deleted, q, hreturns, -⟩ := hall db (postId 0) "ann" [] hreaches rfl
  cases hreturns.symm.trans (deleteOwnPost_fails (threaded_of_reaches hreaches) hown hdeep)

end Storage

end KdxHotline
