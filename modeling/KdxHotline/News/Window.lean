import Mathlib.Algebra.BigOperators.Group.List.Basic
import KdxHotline.Protocol.Messages.News
import KdxHotline.Protocol.Oversized

/-!
# The posts of a thread list

A client that opens a newsgroup is sent its newest posts, as many as fit a budget, oldest first. A
reply whose parent is not among them is sent as a thread of its own, so that the client's tree
displays it (`KdxHotline.News.replyWindow`).

The budget counts for each post a little more than what its fixed fields take on the wire, so the
encoded list is bounded by the budget and the list's own header
(`KdxHotline.News.length_encode_le`), far below what a client reassembles.
-/

namespace KdxHotline

namespace News

open Protocol

/-- Budget for one thread list, in bytes. -/
def threadReplyMaxBytes : ℕ := 1024 * 1024

/-- A post. The id of its parent is none for a thread root. -/
structure Post where
  id : Vector UInt8 16
  newsgroupId : Vector UInt8 16
  parentId : Option (Vector UInt8 16)
  author : String
  subject : String
  body : String
  timestamp : UInt64

namespace Post

/-- Fixed fields (three ids, timestamp, length prefixes) plus text. -/
def cost (post : Post) : ℕ :=
  64 + post.author.utf8ByteSize + post.subject.utf8ByteSize + post.body.utf8ByteSize

/-- The post as a thread root, unless its parent is among these. -/
def reparent (ids : List (Vector UInt8 16)) (post : Post) : Post :=
  if post.parentId.any fun parent => decide (parent ∉ ids) then { post with parentId := none } else post

/-- The post as it is sent: the parent of a root is all zeros. -/
def toWire (p : Post) : NewsPost where
  id := p.id
  newsgroupId := p.newsgroupId
  parentId := p.parentId.getD (Vector.replicate 16 0)
  author := p.author
  subject := p.subject
  body := p.body
  timestamp := p.timestamp

end Post

/-- The first posts, as long as they fit the budget. -/
def fitting (budget : ℕ) : List Post → List Post
  | [] => []
  | post :: rest => if budget < post.cost then [] else post :: fitting (budget - post.cost) rest

/-- The newest posts that fit, oldest first. -/
def replyWindow (newestFirst : List Post) : List Post :=
  let window := (fitting threadReplyMaxBytes newestFirst).reverse
  window.map (Post.reparent (window.map Post.id))

/-- The thread list of a newsgroup. -/
def threadList (groupId : Vector UInt8 16) (posts : List Post) : NewsThreadListResponse :=
  ⟨groupId, posts.map Post.toWire⟩

/-! ### What fits -/

variable {budget : ℕ} {posts pre : List Post} {ids : List (Vector UInt8 16)} {post : Post}

/-- What posts cost together. -/
def costOf (posts : List Post) : ℕ := (posts.map Post.cost).sum

@[simp] theorem costOf_nil : costOf [] = 0 := rfl

@[simp] theorem costOf_cons (post : Post) (posts : List Post) :
    costOf (post :: posts) = post.cost + costOf posts := rfl

theorem fitting_prefix (budget : ℕ) (posts : List Post) : fitting budget posts <+: posts := by
  induction posts generalizing budget with
  | nil => exact List.prefix_rfl
  | cons post posts ih =>
    rw [fitting]
    split
    case isTrue => exact List.nil_prefix
    case isFalse => exact (List.prefix_cons_inj post).mpr (ih _)

/-- What is chosen fits. -/
theorem costOf_fitting_le (budget : ℕ) (posts : List Post) : costOf (fitting budget posts) ≤ budget := by
  induction posts generalizing budget with
  | nil => exact Nat.zero_le _
  | cons post posts ih =>
    rw [fitting]
    split
    case isTrue => exact Nat.zero_le _
    case isFalse hfits =>
      have hrest := ih (budget - post.cost)
      rw [costOf_cons]
      omega

/-- **No more of the first posts fit.** -/
theorem prefix_fitting (hpre : pre <+: posts) (hcost : costOf pre ≤ budget) :
    pre <+: fitting budget posts := by
  induction posts generalizing budget pre with
  | nil => exact hpre
  | cons post posts ih =>
    cases pre with
    | nil => exact List.nil_prefix
    | cons first pre =>
      obtain ⟨rfl, hrest⟩ := List.cons_prefix_cons.mp hpre
      rw [costOf_cons] at hcost
      rw [fitting, if_neg (by omega)]
      exact (List.prefix_cons_inj first).mpr (ih hrest (by omega))

/-! ### Parents -/

/-- A post keeps everything but for a parent that is not there. -/
theorem reparent_eq (ids : List (Vector UInt8 16)) (post : Post) :
    post.reparent ids = { post with parentId := post.parentId.filter fun parent => parent ∈ ids } := by
  obtain ⟨id, newsgroupId, parentId, author, subject, body, timestamp⟩ := post
  cases parentId with
  | none => rfl
  | some parent => by_cases hmem : parent ∈ ids <;> simp [Post.reparent, Option.filter, hmem]

theorem id_reparent (ids : List (Vector UInt8 16)) (post : Post) : (post.reparent ids).id = post.id := by
  rw [reparent_eq]

theorem mem_of_parentId {parent : Vector UInt8 16} (h : (post.reparent ids).parentId = some parent) :
    parent ∈ ids := by
  rw [reparent_eq] at h
  exact of_decide_eq_true (Option.filter_eq_some_iff.mp h).2

theorem cost_reparent (ids : List (Vector UInt8 16)) (post : Post) :
    (post.reparent ids).cost = post.cost := by
  rw [reparent_eq]
  rfl

/-! ### On the wire -/

/-- A text takes two bytes more than it has; too long a text is cut. -/
theorem length_putStr_le (s : String) : (putStr s).length ≤ 2 + s.utf8ByteSize := by
  have hcut : (clampStr s maxU16Len).utf8ByteSize ≤ s.utf8ByteSize := by
    by_cases hfits : s.utf8ByteSize ≤ maxU16Len
    · rw [clampStr_of_le hfits]
    · exact (utf8ByteSize_clampStr_le s maxU16Len).trans (Nat.le_of_not_le hfits)
  simp only [putStr, List.length_append, length_putU16, length_strBytes]
  omega

theorem length_put_toWire (post : Post) : (post.toWire.put).length ≤ post.cost := by
  have hauthor := length_putStr_le post.author
  have hsubject := length_putStr_le post.subject
  have hbody := length_putStr_le post.body
  simp only [NewsPost.put, Post.toWire, Post.cost, List.length_append, length_putArray, length_putU64]
  omega

/-- **A thread list takes what its posts cost, and its header.** -/
theorem length_encode_le (groupId : Vector UInt8 16) (posts : List Post) :
    (threadList groupId posts).encode.length ≤ costOf posts + 20 := by
  have hposts : ((posts.map Post.toWire).flatMap NewsPost.put).length ≤ costOf posts := by
    induction posts with
    | nil => exact Nat.zero_le _
    | cons post posts ih =>
      rw [List.map_cons, List.flatMap_cons, List.length_append, costOf_cons]
      exact Nat.add_le_add (length_put_toWire post) ih
  have htake (n : ℕ) : (((posts.map Post.toWire).take n).flatMap NewsPost.put).length ≤
      ((posts.map Post.toWire).flatMap NewsPost.put).length := by
    conv_rhs => rw [← List.take_append_drop n (posts.map Post.toWire)]
    rw [List.flatMap_append, List.length_append]
    exact Nat.le_add_right _ _
  have hall := (htake (min (posts.map Post.toWire).length maxU32Len)).trans hposts
  simp only [threadList, NewsThreadListResponse.encode, List.length_append, length_putArray,
    length_putList32]
  omega

/-- **A thread reply fits and displays.** It is, oldest first, the longest run of the newest posts
that the budget allows, unchanged but for the parents that are not in it; no post points outside of
it; and a client can reassemble it. -/
theorem reply_window_fits_and_displays (newestFirst : List Post) (groupId : Vector UInt8 16) :
    let window := replyWindow newestFirst
    ∃ kept, kept <+: newestFirst ∧ (kept.map Post.cost).sum ≤ threadReplyMaxBytes ∧
      (∀ pre, pre <+: newestFirst → (pre.map Post.cost).sum ≤ threadReplyMaxBytes → pre <+: kept) ∧
      window = kept.reverse.map (fun post =>
        { post with parentId := post.parentId.filter fun parent => parent ∈ window.map Post.id }) ∧
      (∀ post ∈ window, ∀ parent, post.parentId = some parent → ∃ other ∈ window, other.id = parent) ∧
      (threadList groupId window).encode.length ≤ threadReplyMaxBytes + 20 ∧
      threadReplyMaxBytes + 20 < maxReassembledPayload := by
  intro window
  have hids : window.map Post.id = (fitting threadReplyMaxBytes newestFirst).reverse.map Post.id := by
    show (replyWindow newestFirst).map Post.id = _
    rw [replyWindow, List.map_map]
    exact List.map_congr_left fun post _ => id_reparent _ post
  have hwindow : window = (fitting threadReplyMaxBytes newestFirst).reverse.map
      (Post.reparent (window.map Post.id)) := by rw [hids]; rfl
  refine ⟨fitting threadReplyMaxBytes newestFirst, fitting_prefix _ _, costOf_fitting_le _ _,
    fun pre hpre hcost => prefix_fitting hpre hcost, ?_, ?_, ?_, by decide⟩
  · conv_lhs => rw [hwindow]
    exact List.map_congr_left fun post _ => reparent_eq _ post
  · intro post hpost parent hparent
    rw [hwindow] at hpost
    obtain ⟨original, -, rfl⟩ := List.mem_map.mp hpost
    obtain ⟨other, hother, hid⟩ := List.mem_map.mp (mem_of_parentId hparent)
    exact ⟨other, hother, hid⟩
  · have hcost : costOf window = costOf (fitting threadReplyMaxBytes newestFirst) := by
      rw [hwindow, costOf, List.map_map, List.map_reverse, List.sum_reverse, costOf]
      exact congrArg List.sum (List.map_congr_left fun post _ => cost_reparent _ post)
    have hlength := length_encode_le groupId window
    have hfits := costOf_fitting_le threadReplyMaxBytes newestFirst
    omega

end News

end KdxHotline
