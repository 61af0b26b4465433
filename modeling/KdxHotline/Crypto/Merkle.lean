import Mathlib.Data.Nat.Bitwise
import Mathlib.Data.Nat.Log
import Mathlib.Data.Nat.MaxPowDiv
import KdxHotline.Foundations.HeapTree

/-!
# Merkle commitments to the shares of a secret

The dealer's commitment tree, laid out in one array: cell `1` is the root, the
two cells below cell `i` are `2 * i` and `2 * i + 1`, the leaves start at the
padded leaf count, and the padding is zero. A holder's proof is the list of
siblings on the way up; the verifier takes the sides from the share's index and
the length from the share count, never from the proof.

The hash itself is a parameter (`KdxHotline.Crypto.Sha256`): what it makes of a
string of bytes, the bytes of a digest, and the digest of zero bytes.
-/

namespace KdxHotline

namespace Crypto

open Foundations

/-- One share: the point `(index, f(index))` of every byte column's
polynomial. -/
structure Share where
  index : UInt8
  data : List UInt8
  deriving DecidableEq, Repr

/-- The hash function, over a type of digests. -/
structure Sha256 (δ : Type) where
  digest : List UInt8 → δ
  bytes : δ → List UInt8
  zero : δ

/-- One step of a proof: the sibling, and the side the accumulated digest is on
(which no verifier reads). -/
structure ProofStep (δ : Type) where
  sibling : δ
  currentIsLeft : Bool

/-- A membership proof for one share against a root. -/
structure MerkleProof (δ : Type) where
  steps : List (ProofStep δ)

/-- The commitment tree over the shares of one split. -/
structure Commitments (δ : Type) where
  root : δ
  tree : List δ
  leafCount : ℕ
  shareCount : ℕ

/-! ### The code -/

section Code

variable {δ : Type} (H : Sha256 δ)

/-- The byte before a share. -/
def leafPrefix : UInt8 := 0x00
/-- The byte before two digests. -/
def nodePrefix : UInt8 := 0x01

/-- The digest of a share with its index. -/
def leafDigest (share : Share) : δ := H.digest (leafPrefix :: share.index :: share.data)

/-- The digest of two digests. -/
def nodeDigest (left right : δ) : δ := H.digest (nodePrefix :: (H.bytes left ++ H.bytes right))

/-- The least power of two that is not less. -/
def nextPowerOfTwo (n : ℕ) : ℕ := 2 ^ Nat.clog 2 n

/-- How often two divides a number. -/
def trailingZeros (n : ℕ) : ℕ := padicValNat 2 n

/-- The leaves, each placed behind the inner cells. -/
def placeLeaves (leafCount : ℕ) (shares : List Share) (tree : List δ) : List δ :=
  shares.zipIdx.foldl (fun tree s => tree.set (leafCount + s.2) (leafDigest H s.1)) tree

/-- The inner cells, from the given one down to the first. -/
def fillInner : ℕ → List δ → List δ
  | 0, tree => tree
  | i + 1, tree =>
    fillInner i (tree.set (i + 1)
      (nodeDigest H (tree.getD ((i + 1) <<< 1) H.zero) (tree.getD ((i + 1) <<< 1 ||| 1) H.zero)))

/-- Builds the tree over the shares, padded to a power of two. -/
def Commitments.new (shares : List Share) : Commitments δ :=
  let leafCount := nextPowerOfTwo (max shares.length 1)
  let tree := fillInner H (leafCount - 1)
    (placeLeaves H leafCount shares (List.replicate (leafCount * 2) H.zero))
  { root := tree.getD 1 H.zero
    tree := tree
    leafCount := leafCount
    shareCount := shares.length }

/-- The walk from a cell up to the root that collects a proof. -/
def proofSteps (tree : List δ) (idx : ℕ) : List (ProofStep δ) :=
  if 1 < idx then
    ⟨tree.getD (idx ^^^ 1) H.zero, decide (idx &&& 1 = 0)⟩ :: proofSteps tree (idx >>> 1)
  else []
termination_by idx
decreasing_by
  rw [Nat.shiftRight_eq_div_pow]
  omega

/-- The proof for the share with the given index, if present. -/
def Commitments.proof (c : Commitments δ) (shareIndex : UInt8) : Option (MerkleProof δ) :=
  if shareIndex = 0 then none
  else
    let leaf := shareIndex.toNat - 1
    if c.shareCount ≤ leaf then none
    else some ⟨proofSteps H c.tree (c.leafCount + leaf)⟩

/-- The verifier's walk: the sides come from the position. -/
def verifySteps : ℕ → δ → List (ProofStep δ) → δ
  | _, digest, [] => digest
  | position, digest, step :: steps =>
    verifySteps (position >>> 1)
      (if position &&& 1 = 0 then nodeDigest H digest step.sibling
        else nodeDigest H step.sibling digest) steps

variable [DecidableEq δ]

/-- Verifies one share against a root and a proof. -/
def verifyShare (share : Share) (root : δ) (proof : MerkleProof δ) (shareCount : ℕ) : Bool :=
  if share.index = 0 ∨ shareCount < share.index.toNat then false
  else
    let depth := trailingZeros (nextPowerOfTwo shareCount)
    if proof.steps.length ≠ depth then false
    else decide (verifySteps H (share.index.toNat - 1) (leafDigest H share) proof.steps = root)

/-- Verifies a share against this tree's own root, with this tree's proof. -/
def Commitments.verifyShare (c : Commitments δ) (share : Share) : Bool :=
  match c.proof H share.index with
  | some proof => Crypto.verifyShare H share c.root proof c.shareCount
  | none => false

end Code

/-! ### The array is a tree -/

theorem shiftLeft_one (i : ℕ) : i <<< 1 = 2 * i := by
  rw [Nat.shiftLeft_eq, Nat.mul_comm, Nat.pow_one]

theorem shiftLeft_one_or_one (i : ℕ) : i <<< 1 ||| 1 = 2 * i + 1 := by
  rw [shiftLeft_one]
  exact (Nat.two_pow_add_eq_or_of_lt (show 1 < 2 ^ 1 by decide) i).symm

theorem xor_one (i : ℕ) : i ^^^ 1 = HeapTree.beside i := by
  rw [HeapTree.beside]
  split
  case isTrue h => exact Nat.xor_one_of_even (Nat.even_iff.mpr h)
  case isFalse h => exact Nat.xor_one_of_odd (Nat.odd_iff.mpr (by omega))

section Tree

variable {δ : Type} (H : Sha256 δ)

@[simp] theorem length_placeLeaves (leafCount : ℕ) (shares : List Share) (tree : List δ) :
    (placeLeaves H leafCount shares tree).length = tree.length := by
  rw [placeLeaves]
  generalize shares.zipIdx = placed
  induction placed generalizing tree with
  | nil => rfl
  | cons s placed ih => rw [List.foldl_cons, ih, List.length_set]

@[simp] theorem length_fillInner (i : ℕ) (tree : List δ) :
    (fillInner H i tree).length = tree.length := by
  induction i generalizing tree with
  | zero => rfl
  | succ i ih => rw [fillInner, ih, List.length_set]

theorem getD_set_self {tree : List δ} {i : ℕ} (d z : δ) (h : i < tree.length) :
    (tree.set i d).getD i z = d := by
  simp [List.getD_eq_getElem?_getD, h]

theorem getD_set_ne {tree : List δ} {i j : ℕ} (d z : δ) (h : i ≠ j) :
    (tree.set i d).getD j z = tree.getD j z := by
  simp [List.getD_eq_getElem?_getD, h]

/-- The leaf of each share is the cell of its position. -/
theorem getD_placeLeaves {leafCount : ℕ} {shares : List Share} {tree : List δ} {i : ℕ}
    (hsize : leafCount + shares.length ≤ tree.length) (hi : i < shares.length) (z : δ) :
    (placeLeaves H leafCount shares tree).getD (leafCount + i) z = leafDigest H shares[i] := by
  have hplace : ∀ (placed : List Share) (k : ℕ) (tree : List δ),
      leafCount + k + placed.length ≤ tree.length →
      (∀ j, j < k → ((placed.zipIdx k).foldl
        (fun tree s => tree.set (leafCount + s.2) (leafDigest H s.1)) tree).getD (leafCount + j) z
          = tree.getD (leafCount + j) z) ∧
      (∀ j (hj : j < placed.length), ((placed.zipIdx k).foldl
        (fun tree s => tree.set (leafCount + s.2) (leafDigest H s.1)) tree).getD
          (leafCount + k + j) z = leafDigest H placed[j]) := by
    intro placed
    induction placed with
    | nil => exact fun k tree _ => ⟨fun _ _ => rfl, fun _ hj => absurd hj (Nat.not_lt_zero _)⟩
    | cons s placed ih =>
      intro k tree hsize
      rw [List.length_cons] at hsize
      have hlt : leafCount + k < tree.length := by omega
      obtain ⟨hbefore, hat⟩ := ih (k + 1) (tree.set (leafCount + k) (leafDigest H s))
        (by rw [List.length_set]; omega)
      simp only [List.zipIdx_cons, List.foldl_cons]
      constructor
      · intro j hj
        rw [hbefore j (by omega), getD_set_ne _ _ (by omega)]
      · intro j hj
        cases j with
        | zero => exact (hbefore k (by omega)).trans (getD_set_self _ _ hlt)
        | succ j =>
          have hidx : leafCount + k + (j + 1) = leafCount + (k + 1) + j := by omega
          rw [hidx]
          exact hat j (by simpa using hj)
  exact (hplace shares 0 tree hsize).2 i hi

/-- Filling the inner cells leaves those behind them alone. -/
theorem getD_fillInner {i j : ℕ} (tree : List δ) (h : i < j) (z : δ) :
    (fillInner H i tree).getD j z = tree.getD j z := by
  induction i generalizing tree with
  | zero => rfl
  | succ i ih => rw [fillInner, ih _ (by omega), getD_set_ne _ _ (by omega)]

/-- The inner cells behind cell `i` are made of the two below them. -/
def Filled (leafCount i : ℕ) (tree : List δ) : Prop :=
  ∀ j, i < j → j < leafCount →
    tree.getD j H.zero
      = nodeDigest H (tree.getD (2 * j) H.zero) (tree.getD (2 * j + 1) H.zero)

/-- Filling downwards fills all of them. -/
theorem Filled.fillInner {leafCount i : ℕ} {tree : List δ} (h : Filled H leafCount i tree)
    (hi : i < leafCount) (hsize : leafCount ≤ tree.length) :
    Filled H leafCount 0 (fillInner H i tree) := by
  induction i generalizing tree with
  | zero => exact h
  | succ i ih =>
    refine ih ?_ (by omega) (by rwa [List.length_set])
    intro j hj hlt
    rw [getD_set_ne (i := i + 1) (j := 2 * j) _ _ (by omega),
      getD_set_ne (i := i + 1) (j := 2 * j + 1) _ _ (by omega)]
    by_cases hij : j = i + 1
    · subst hij
      rw [getD_set_self _ _ (by omega), shiftLeft_one_or_one, shiftLeft_one]
    · rw [getD_set_ne _ _ (by omega)]
      exact h j (by omega) hlt

namespace Commitments

/-- The depth of the tree over that many shares. -/
def depth (shares : List Share) : ℕ := Nat.clog 2 (max shares.length 1)

theorem new_leafCount (shares : List Share) : (new H shares).leafCount = 2 ^ depth shares := rfl

theorem length_le_leafCount (shares : List Share) : shares.length ≤ 2 ^ depth shares :=
  le_trans (le_max_left _ _) (Nat.le_pow_clog (by decide) _)

/-- The array of the commitments, as a tree. -/
def heap (shares : List Share) : HeapTree (nodeDigest H) (depth shares) where
  cells i := (new H shares).tree.getD i H.zero
  inner i h1 hi := by
    have hpos : 0 < 2 ^ depth shares := Nat.two_pow_pos _
    have hfilled : Filled H (2 ^ depth shares) (2 ^ depth shares - 1)
        (placeLeaves H (2 ^ depth shares) shares
          (List.replicate (2 ^ depth shares * 2) H.zero)) := fun j hj hlt => by omega
    refine hfilled.fillInner H (by omega) ?_ i h1 hi
    rw [length_placeLeaves, List.length_replicate]
    omega

/-- The leaf of each share. -/
theorem heap_leaf {shares : List Share} {i : ℕ} (hi : i < shares.length) :
    (heap H shares).cells (2 ^ depth shares + i) = leafDigest H shares[i] := by
  have hpos : 0 < 2 ^ depth shares := Nat.two_pow_pos _
  have hlen := length_le_leafCount shares
  change (fillInner H (2 ^ depth shares - 1) (placeLeaves H (2 ^ depth shares) shares
    (List.replicate (2 ^ depth shares * 2) H.zero))).getD _ _ = _
  rw [getD_fillInner H _ (by omega),
    getD_placeLeaves H (by rw [List.length_replicate]; omega) hi]

end Commitments

/-! ### The two walks -/

/-- The proof's walk collects the siblings. -/
theorem proofSteps_siblings {depth k idx : ℕ} {tree : List δ}
    (t : HeapTree (nodeDigest H) depth) (ht : ∀ i, t.cells i = tree.getD i H.zero)
    (h : HeapTree.OnLevel k idx) :
    (proofSteps H tree idx).map ProofStep.sibling = t.siblings k idx := by
  induction k generalizing idx with
  | zero =>
    have h2 := h.2
    rw [proofSteps, if_neg (by omega)]
    rfl
  | succ k ih =>
    have h1 : 1 < idx := lt_of_lt_of_le (Nat.one_lt_two_pow (Nat.succ_ne_zero k)) h.1
    rw [proofSteps, if_pos h1, List.map_cons, HeapTree.siblings, ht, ← xor_one,
      Nat.shiftRight_one, ih h.up]

/-- The verifier's walk is the climb with the proof's siblings. -/
theorem verifySteps_climb (position : ℕ) (digest : δ) (steps : List (ProofStep δ)) :
    verifySteps H position digest steps
      = climb (nodeDigest H) position digest (steps.map ProofStep.sibling) := by
  induction steps generalizing position digest with
  | nil => rfl
  | cons step steps ih =>
    rw [verifySteps, ih, List.map_cons, climb, Nat.shiftRight_one, Nat.and_one_is_mod]

/-- The depth the verifier expects is the tree's. -/
theorem trailingZeros_nextPowerOfTwo (n : ℕ) : trailingZeros (nextPowerOfTwo n) = Nat.clog 2 n :=
  padicValNat_base_pow (by decide) _

end Tree

/-! ### The commitments accept the committed shares -/

section Accept

variable {δ : Type} [DecidableEq δ] {H : Sha256 δ} {shares : List Share}

/-- The shares carry the indices from one on, in order. -/
def Indexed (shares : List Share) : Prop :=
  ∀ i (h : i < shares.length), shares[i].index.toNat = i + 1

theorem Commitments.depth_eq (h : shares ≠ []) : depth shares = Nat.clog 2 shares.length := by
  have := List.length_pos_iff.mpr h
  rw [depth, Nat.max_eq_left this]

omit [DecidableEq δ] in
/-- The proof for a share is there, and is its siblings. -/
theorem Commitments.exists_proof {i : ℕ} {index : UInt8} (hi : i < shares.length)
    (hindex : index.toNat = i + 1) :
    ∃ proof, (new H shares).proof H index = some proof ∧
      proof.steps.map ProofStep.sibling
        = (heap H shares).siblings (depth shares) (2 ^ depth shares + i) := by
  have h0 : index ≠ 0 := by
    rintro rfl
    simp at hindex
  have hleaf : index.toNat - 1 = i := by omega
  refine ⟨⟨proofSteps H (new H shares).tree (2 ^ depth shares + i)⟩, ?_, ?_⟩
  · rw [Commitments.proof, if_neg h0, hleaf]
    exact if_neg (not_le.mpr hi)
  · exact proofSteps_siblings H (heap H shares) (fun _ => rfl)
      (HeapTree.onLevel_leaf (lt_of_lt_of_le hi (length_le_leafCount shares)))

/-- What the verifier's answer means: a position among the shares, a proof of
the tree's depth, and a walk from the share's leaf that ends in the root. -/
theorem verifyShare_eq_true {share : Share} {root : δ} {proof : MerkleProof δ} {n : ℕ} :
    verifyShare H share root proof n = true ↔
      share.index ≠ 0 ∧ share.index.toNat ≤ n ∧ proof.steps.length = Nat.clog 2 n ∧
        climb (nodeDigest H) (share.index.toNat - 1) (leafDigest H share)
          (proof.steps.map ProofStep.sibling) = root := by
  rw [verifyShare, trailingZeros_nextPowerOfTwo, verifySteps_climb]
  by_cases hrange : share.index = 0 ∨ n < share.index.toNat
  · rw [if_pos hrange]
    constructor
    · exact fun h => nomatch h
    · rintro ⟨h0, hn, -⟩
      rcases hrange with h | h
      · exact absurd h h0
      · omega
  · rw [if_neg hrange]
    rw [not_or, not_lt] at hrange
    by_cases hlen : proof.steps.length = Nat.clog 2 n
    · simp [hlen, hrange.1, hrange.2]
    · simp [hlen]

/-- A share is accepted with its own proof. -/
theorem Commitments.accepts {share : Share} {proof : MerkleProof δ} {i : ℕ}
    (hi : i < shares.length) (hshare : shares[i] = share) (hindex : share.index.toNat = i + 1)
    (hproof : proof.steps.map ProofStep.sibling
      = (heap H shares).siblings (depth shares) (2 ^ depth shares + i)) :
    Crypto.verifyShare H share (new H shares).root proof (new H shares).shareCount = true := by
  have hne : shares ≠ [] := List.ne_nil_of_length_pos (by omega)
  have hlen : proof.steps.length = depth shares := by
    have hmap : (proof.steps.map ProofStep.sibling).length = depth shares := by
      rw [hproof, HeapTree.length_siblings]
    rwa [List.length_map] at hmap
  have hlevel := HeapTree.onLevel_leaf (lt_of_lt_of_le hi (length_le_leafCount shares))
  refine verifyShare_eq_true.mpr ⟨?_, ?_, ?_, ?_⟩
  · intro h0
    rw [h0] at hindex
    simp at hindex
  · change share.index.toNat ≤ shares.length
    omega
  · exact hlen.trans (depth_eq hne)
  · have hpos : share.index.toNat - 1 = i := by omega
    rw [hproof, hpos, ← hshare, ← heap_leaf H hi]
    exact (heap H shares).climb_siblings le_rfl hlevel HeapTree.leaf_mod

/-- Whatever is accepted, with whatever proof, is the share committed to at its
index. -/
theorem Commitments.eq_of_accepts
    (hleaf : ∀ s s', leafDigest H s = leafDigest H s' → s = s')
    (hnode : ∀ a b c d, nodeDigest H a b = nodeDigest H c d → a = c ∧ b = d)
    {share : Share} {proof : MerkleProof δ}
    (h : Crypto.verifyShare H share (new H shares).root proof (new H shares).shareCount = true) :
    shares[share.index.toNat - 1]? = some share := by
  obtain ⟨h0, hn, hlen, hclimb⟩ := verifyShare_eq_true.mp h
  change share.index.toNat ≤ shares.length at hn
  have hpos : share.index.toNat ≠ 0 := fun hz => h0 (UInt8.toNat_inj.mp hz)
  have hi : share.index.toNat - 1 < shares.length := by omega
  have hne : shares ≠ [] := List.ne_nil_of_length_pos (by omega)
  have hlevel := HeapTree.onLevel_leaf (lt_of_lt_of_le hi (length_le_leafCount shares))
  have hcell := (heap H shares).eq_of_climb hnode le_rfl hlevel HeapTree.leaf_mod
    (by rw [List.length_map]; exact hlen.trans (depth_eq hne).symm) hclimb
  rw [heap_leaf H hi] at hcell
  rw [List.getElem?_eq_getElem hi]
  exact congrArg some (hleaf _ _ hcell).symm

end Accept

end Crypto

end KdxHotline
