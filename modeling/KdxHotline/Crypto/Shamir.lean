import Mathlib.Algebra.BigOperators.Fin
import Mathlib.Data.List.Destutter
import KdxHotline.Crypto.Credential
import KdxHotline.Crypto.Galois
import KdxHotline.Crypto.Merkle
import KdxHotline.Foundations.Threshold

/-!
# Splitting a secret into shares and combining them

Every byte of the secret is the constant term of its own polynomial over
`KdxHotline.Crypto.GF256`, and a share is the value of all of them at its index.
The random coefficients are an argument of `KdxHotline.Crypto.split`.

The loops of the code are the sums and products of
`KdxHotline.Foundations.Threshold`: the dealer's evaluates the polynomial
(`KdxHotline.Crypto.dealByte_eq`), the combiner's recovers the value at zero
(`KdxHotline.Crypto.interpolateByte_eq`).
-/

namespace KdxHotline

namespace Crypto

open Foundations

/-! ### The code -/

/-- Upper bound on the share count. -/
def maxShares : UInt8 := 250

/-- Everything a dealer publishes after a split. -/
structure SplitResult (δ : Type) where
  shares : List Share
  commitments : Commitments δ

/-- What `fill_bytes` puts into the coefficient buffers of one split: a buffer
of `threshold - 1` bytes for every byte of the secret. -/
abbrev Coefficients (columns threshold : ℕ) : Type := Fin columns → Fin (threshold - 1) → UInt8

/-- The value of one byte's polynomial at `x`: the accumulator, and the power of
`x` that is next. -/
def dealByte (secretByte : UInt8) (coeffs : List UInt8) (x : UInt8) : UInt8 :=
  (coeffs.foldl (fun s c => (s.1 ^^^ gfMul c s.2, gfMul s.2 x)) (secretByte, x)).1

/-- Deals one byte of the secret to every holder. -/
def dealColumn (secretByte : UInt8) (coeffs : List UInt8) (holder : List (List UInt8)) :
    List (List UInt8) :=
  holder.mapIdx fun pos data => data ++ [dealByte secretByte coeffs (UInt8.ofNat (pos + 1))]

/-- The bounds of the parameters that both sides check. -/
def checkThreshold (threshold : UInt8) : Except CryptoError Unit :=
  refuseIf (decide (threshold < 2))
    (.shamirParams ("threshold must be at least 2, got " ++ threshold.toNat.repr))

/-- Splits a secret into shares, any `threshold` of which reconstruct it. -/
def split {δ : Type} (H : Sha256 δ) (secret : List UInt8) (threshold shares : UInt8)
    (coeffs : Coefficients secret.length threshold.toNat) :
    Except CryptoError (SplitResult δ) := do
  checkThreshold threshold
  refuseIf (decide (shares < threshold))
    (.shamirParams ("share count " ++ shares.toNat.repr ++ " must be at least threshold " ++
      threshold.toNat.repr))
  refuseIf (decide (maxShares < shares))
    (.shamirParams ("share count " ++ shares.toNat.repr ++ " exceeds max " ++
      maxShares.toNat.repr))
  let holder := (List.finRange secret.length).foldl
    (fun holder col => dealColumn secret[col] (List.ofFn (coeffs col)) holder)
    (List.replicate shares.toNat [])
  let shares := holder.mapIdx fun pos data => ⟨UInt8.ofNat (pos + 1), data⟩
  pure ⟨shares, Commitments.new H shares⟩

/-- `sort_by_key(|s| s.index)`, which is stable. -/
def sortByIndex (shares : List Share) : List Share :=
  shares.mergeSort fun a b => decide (a.index ≤ b.index)

/-- `dedup_by_key(|s| s.index)`: of consecutive shares of one index, the
first. -/
def dedupByIndex (shares : List Share) : List Share :=
  shares.destutter fun a b => a.index ≠ b.index

/-- The numerator and the denominator of the Lagrange weight of the share at
position `i`, whose index is `xi`. -/
def lagrangeTerms (chosen : List Share) (i : ℕ) (xi : UInt8) : UInt8 × UInt8 :=
  chosen.zipIdx.foldl
    (fun t s => if i = s.2 then t else (gfMul t.1 s.1.index, gfMul t.2 (s.1.index ^^^ xi))) (1, 1)

/-- One byte of the secret: the Lagrange interpolation at zero of that column. -/
def interpolateByte (chosen : List Share) (col : ℕ) : UInt8 :=
  chosen.zipIdx.foldl
    (fun acc s =>
      let terms := lagrangeTerms chosen s.2 s.1.index
      acc ^^^ gfMul (s.1.data.getD col 0) (gfMul terms.1 (gfInv terms.2))) 0

/-- The first share whose index no split deals. -/
def badIndex (shares : List Share) : Option Share :=
  shares.find? fun s => decide (s.index = 0) || decide (maxShares < s.index)

/-- The end of `combine`: the shares it has chosen, column by column. -/
def combineChosen (chosen : List Share) : Except CryptoError (List UInt8) := do
  let len := (chosen.map fun s => s.data.length).headD 0
  refuseIf (chosen.any fun s => decide (s.data.length ≠ len)) .shamirLengthMismatch
  pure ((List.range len).map (interpolateByte chosen))

/-- Reconstructs the secret from `threshold` (or more) distinct shares. -/
def combine (shares : List Share) (threshold : UInt8) : Except CryptoError (List UInt8) := do
  checkThreshold threshold
  refuseIf (decide (shares.length < threshold.toNat)) (.shamirThreshold threshold shares.length)
  match badIndex shares with
  | some bad =>
    .error (.shamirParams ("share index " ++ bad.index.toNat.repr ++ " out of range 1..=" ++
      maxShares.toNat.repr))
  | none =>
    let distinct := dedupByIndex (sortByIndex shares)
    refuseIf (decide (distinct.length < threshold.toNat))
      (.shamirThreshold threshold shares.length)
    combineChosen (distinct.take threshold.toNat)

/-! ### The dealer's loops -/

/-- A byte as an element of the field. -/
def field (b : UInt8) : GF256 := ⟨b⟩

@[simp] theorem byte_field (b : UInt8) : (field b).byte = b := rfl

theorem field_injective : Function.Injective field := fun _ _ h => congrArg GF256.byte h

@[simp] theorem field_zero : field 0 = 0 := rfl

/-- The loop of the dealer adds the rest of the polynomial, shifted by the power
reached. -/
theorem dealLoop_eq (coeffs : List UInt8) (x : UInt8) (acc power : GF256) :
    (coeffs.foldl (fun s c => (s.1 ^^^ gfMul c s.2, gfMul s.2 x)) (acc.byte, power.byte)).1
      = (acc + power * deal (coeffs.map field) (field x)).byte := by
  induction coeffs generalizing acc power with
  | nil => simp [deal]
  | cons c coeffs ih =>
    have hrec := ih (acc + field c * power) (power * field x)
    have hsum : acc + power * (field c + field x * deal (coeffs.map field) (field x))
        = acc + field c * power + power * field x * deal (coeffs.map field) (field x) := by ring
    rw [List.foldl_cons, List.map_cons, deal, hsum]
    exact hrec

/-- What is dealt is the value of the polynomial. -/
theorem dealByte_eq (secretByte : UInt8) (coeffs : List UInt8) (x : UInt8) :
    field (dealByte secretByte coeffs x)
      = deal (field secretByte :: coeffs.map field) (field x) :=
  GF256.ext (dealLoop_eq coeffs x (field secretByte) (field x))

/-- The share dealt at an index. -/
def shareAt (secret : List UInt8) {t : ℕ} (coeffs : Coefficients secret.length t)
    (index : UInt8) : Share :=
  ⟨index, (List.finRange secret.length).map fun col =>
    dealByte secret[col] (List.ofFn (coeffs col)) index⟩

@[simp] theorem shareAt_index (secret : List UInt8) {t : ℕ}
    (coeffs : Coefficients secret.length t) (index : UInt8) :
    (shareAt secret coeffs index).index = index := rfl

/-- Dealing the columns one after another gives every holder its own value of
each. -/
theorem dealColumns_eq {κ : Type} (byte : κ → UInt8) (coeffs : κ → List UInt8) (cols : List κ)
    (holder : List (List UInt8)) :
    cols.foldl (fun holder col => dealColumn (byte col) (coeffs col) holder) holder
      = holder.mapIdx fun pos data =>
          data ++ cols.map fun col => dealByte (byte col) (coeffs col) (UInt8.ofNat (pos + 1)) := by
  induction cols generalizing holder with
  | nil => exact (List.ext_getElem (by simp) fun i _ _ => by simp)
  | cons col cols ih =>
    rw [List.foldl_cons, ih, dealColumn]
    refine List.ext_getElem (by simp) fun i _ _ => ?_
    simp only [List.getElem_mapIdx, List.map_cons, List.append_assoc, List.singleton_append]

/-- The shares dealt at the indices from one on. -/
def dealt (secret : List UInt8) {t : ℕ} (coeffs : Coefficients secret.length t) (n : ℕ) :
    List Share :=
  (List.range n).map fun pos => shareAt secret coeffs (UInt8.ofNat (pos + 1))

/-- **What a split deals.** -/
theorem split_eq {δ : Type} (H : Sha256 δ) (secret : List UInt8) {threshold shares : UInt8}
    (coeffs : Coefficients secret.length threshold.toNat) (h2 : 2 ≤ threshold)
    (hle : threshold ≤ shares) (hmax : shares ≤ maxShares) :
    split H secret threshold shares coeffs
      = .ok ⟨dealt secret coeffs shares.toNat,
          Commitments.new H (dealt secret coeffs shares.toNat)⟩ := by
  have hshares : ((List.finRange secret.length).foldl
      (fun holder col => dealColumn secret[col] (List.ofFn (coeffs col)) holder)
      (List.replicate shares.toNat [])).mapIdx (fun pos data => ⟨UInt8.ofNat (pos + 1), data⟩)
        = dealt secret coeffs shares.toNat := by
    rw [dealColumns_eq (fun col : Fin secret.length => secret[col])
      (fun col => List.ofFn (coeffs col))]
    refine List.ext_getElem (by simp [dealt]) fun i hi hi' => ?_
    simp [dealt, shareAt]
  have h2' : ¬ threshold < 2 := UInt8.not_lt.mpr h2
  have hle' : ¬ shares < threshold := UInt8.not_lt.mpr hle
  have hmax' : ¬ maxShares < shares := UInt8.not_lt.mpr hmax
  simp only [split, checkThreshold, refuseIf_bind, decide_eq_true_eq, h2', hle', hmax', hshares,
    if_false]
  rfl

/-- A split that succeeds had parameters in range. -/
theorem bounds_of_split {δ : Type} {H : Sha256 δ} {secret : List UInt8} {threshold shares : UInt8}
    {coeffs : Coefficients secret.length threshold.toNat} {r : SplitResult δ}
    (h : split H secret threshold shares coeffs = .ok r) :
    2 ≤ threshold ∧ threshold ≤ shares ∧ shares ≤ maxShares := by
  simp only [split, checkThreshold, refuseIf_bind, decide_eq_true_eq] at h
  split at h
  case isTrue => exact nomatch h
  case isFalse h2 =>
    split at h
    case isTrue => exact nomatch h
    case isFalse hle =>
      split at h
      case isTrue => exact nomatch h
      case isFalse hmax => exact ⟨UInt8.not_lt.mp h2, UInt8.not_lt.mp hle, UInt8.not_lt.mp hmax⟩

/-- The dealt shares are those of the indices in range. -/
theorem mem_dealt {secret : List UInt8} {t : ℕ} {coeffs : Coefficients secret.length t}
    {shares : UInt8} (hmax : shares ≤ maxShares) {s : Share} :
    s ∈ dealt secret coeffs shares.toNat ↔
      s.index ≠ 0 ∧ s.index ≤ shares ∧ s = shareAt secret coeffs s.index := by
  have hlt : shares.toNat ≤ 250 := hmax
  simp only [dealt, List.mem_map, List.mem_range]
  constructor
  · rintro ⟨pos, hpos, rfl⟩
    have hnat : (UInt8.ofNat (pos + 1)).toNat = pos + 1 := by
      rw [UInt8.toNat_ofNat']
      omega
    refine ⟨fun h0 => ?_, ?_, rfl⟩
    · have := congrArg UInt8.toNat h0
      rw [shareAt_index, hnat] at this
      simp at this
    · rw [UInt8.le_iff_toNat_le, shareAt_index, hnat]
      omega
  · rintro ⟨h0, hle, hs⟩
    have hpos : s.index.toNat ≠ 0 := fun h => h0 (UInt8.toNat_inj.mp h)
    have hle' : s.index.toNat ≤ shares.toNat := hle
    refine ⟨s.index.toNat - 1, by omega, ?_⟩
    have hback : s.index.toNat - 1 + 1 = s.index.toNat := by omega
    rw [hback, UInt8.ofNat_toNat]
    exact hs.symm

/-! ### The combiner's loops -/

section Combine

variable (chosen : List Share)

/-- The point a chosen share is on. -/
def point (i : Fin chosen.length) : GF256 := field chosen[i].index

theorem zipIdx_eq_map {α : Type} (l : List α) :
    l.zipIdx = (List.finRange l.length).map fun i => (l[i], i.val) :=
  List.ext_getElem (by simp) fun i _ _ => by simp

/-- A product that leaves one position out. -/
theorem prod_skip {n : ℕ} (i : Fin n) (f : Fin n → GF256) :
    ((List.finRange n).map fun j => if i = j then 1 else f j).prod
      = ∏ j ∈ Finset.univ.erase i, f j := by
  have hself : (if i = i then 1 else f i) = 1 := if_pos rfl
  rw [← Fin.prod_univ_def,
    ← Finset.prod_erase (f := fun j => if i = j then 1 else f j) Finset.univ hself]
  refine Finset.prod_congr rfl fun j hj => ?_
  exact if_neg (Finset.ne_of_mem_erase hj).symm

/-- The loop over the other shares multiplies their points, and their distances
to the share's own. -/
theorem lagrangeTerms_eq (i : Fin chosen.length) :
    lagrangeTerms chosen i chosen[i].index
      = ((∏ j ∈ Finset.univ.erase i, point chosen j).byte,
          (∏ j ∈ Finset.univ.erase i, (point chosen j - point chosen i)).byte) := by
  have hloop : ∀ (js : List (Fin chosen.length)) (num den : GF256),
      js.foldl (fun t (j : Fin chosen.length) => if (i : ℕ) = j then t
        else (gfMul t.1 chosen[j].index, gfMul t.2 (chosen[j].index ^^^ chosen[i].index)))
        (num.byte, den.byte)
      = ((num * (js.map fun j => if i = j then 1 else point chosen j).prod).byte,
          (den * (js.map fun j => if i = j then 1 else point chosen j - point chosen i).prod).byte)
      := by
    intro js
    induction js with
    | nil => simp
    | cons j js ih =>
      intro num den
      simp only [List.foldl_cons, List.map_cons, List.prod_cons]
      by_cases hij : i = j
      · subst hij
        simpa using ih num den
      · have hne : ¬ (i : ℕ) = j := fun h => hij (Fin.ext h)
        rw [if_neg hij, if_neg hij, if_neg hne, ← mul_assoc, ← mul_assoc]
        exact ih (num * point chosen j) (den * (point chosen j - point chosen i))
  have h := hloop (List.finRange chosen.length) 1 1
  rw [prod_skip, prod_skip, one_mul, one_mul] at h
  rw [lagrangeTerms, zipIdx_eq_map, List.foldl_map]
  exact h

/-- The interpolation of one column recovers the value at zero. -/
theorem interpolateByte_eq (hinj : Function.Injective (point chosen)) (col : ℕ) :
    field (interpolateByte chosen col)
      = recover (point chosen) fun i => field (chosen[i].data.getD col 0) := by
  have hweight : ∀ i : Fin chosen.length,
      gfMul (lagrangeTerms chosen i chosen[i].index).1
          (gfInv (lagrangeTerms chosen i chosen[i].index).2)
        = (weight (point chosen) i).byte := by
    intro i
    have hne : ∏ j ∈ Finset.univ.erase i, (point chosen j - point chosen i) ≠ 0 := by
      refine Finset.prod_ne_zero_iff.mpr fun j hj => sub_ne_zero.mpr fun h => ?_
      exact Finset.ne_of_mem_erase hj (hinj h)
    rw [lagrangeTerms_eq, weight, div_eq_mul_inv, GF256.byte_mul, GF256.byte_inv hne]
  have hloop : ∀ (is : List (Fin chosen.length)) (acc : GF256),
      is.foldl (fun acc (i : Fin chosen.length) => acc ^^^ gfMul (chosen[i].data.getD col 0)
        (gfMul (lagrangeTerms chosen i chosen[i].index).1
          (gfInv (lagrangeTerms chosen i chosen[i].index).2))) acc.byte
      = (acc + (is.map fun i =>
          field (chosen[i].data.getD col 0) * weight (point chosen) i).sum).byte := by
    intro is
    induction is with
    | nil => simp
    | cons i is ih =>
      intro acc
      rw [List.foldl_cons, List.map_cons, List.sum_cons, ← add_assoc, hweight]
      exact ih (acc + field (chosen[i].data.getD col 0) * weight (point chosen) i)
  have h := hloop (List.finRange chosen.length) 0
  rw [zero_add, ← Fin.sum_univ_def] at h
  refine GF256.ext ?_
  rw [byte_field, interpolateByte, zipIdx_eq_map, List.foldl_map]
  exact h

end Combine

/-! ### Choosing the shares -/

theorem pairwise_sortByIndex (shares : List Share) :
    (sortByIndex shares).Pairwise fun a b => a.index ≤ b.index := by
  refine (List.pairwise_mergeSort ?_ ?_ shares).imp fun h => of_decide_eq_true h
  · intro a b c hab hbc
    exact decide_eq_true (UInt8.le_trans (of_decide_eq_true hab) (of_decide_eq_true hbc))
  · intro a b
    rcases UInt8.le_total a.index b.index with h | h <;> simp [h]

/-- Among shares in order only those whose index was already there are left
out. -/
theorem pairwise_dedupByIndex {shares : List Share}
    (h : shares.Pairwise fun a b => a.index ≤ b.index) :
    (dedupByIndex shares).Pairwise fun a b => a.index < b.index := by
  have hle := (h.sublist (List.destutter_sublist (fun a b : Share => a.index ≠ b.index) shares)).isChain
  have hne := List.isChain_destutter (fun a b : Share => a.index ≠ b.index) shares
  have hlt : (dedupByIndex shares).IsChain fun a b => a.index < b.index := by
    rw [List.isChain_iff_getElem] at *
    exact fun i hi => UInt8.lt_of_le_of_ne (hle i hi) (hne i hi)
  have : IsTrans Share fun a b => a.index < b.index := ⟨fun _ _ _ => UInt8.lt_trans⟩
  exact List.isChain_iff_pairwise.mp hlt

/-- Every index is still there. -/
theorem exists_mem_dedupByIndex {shares : List Share} {s : Share} (hs : s ∈ shares) :
    ∃ s' ∈ dedupByIndex shares, s'.index = s.index := by
  have hkeep : ∀ (l : List Share) (a b : Share), b ∈ a :: l →
      ∃ c ∈ l.destutter' (fun a b => a.index ≠ b.index) a, c.index = b.index := by
    intro l
    induction l with
    | nil =>
      intro a b hb
      obtain rfl := List.mem_singleton.mp hb
      exact ⟨b, by simp, rfl⟩
    | cons c l ih =>
      intro a b hb
      by_cases hac : a.index ≠ c.index
      · rw [List.destutter'_cons_pos (R := fun a b : Share => a.index ≠ b.index) _ hac]
        rcases List.mem_cons.mp hb with rfl | hb
        · exact ⟨b, List.mem_cons_self, rfl⟩
        · obtain ⟨d, hd, hdb⟩ := ih c b hb
          exact ⟨d, List.mem_cons_of_mem _ hd, hdb⟩
      · rw [List.destutter'_cons_neg (R := fun a b : Share => a.index ≠ b.index) _ hac]
        rw [ne_eq, not_not] at hac
        rcases List.mem_cons.mp hb with rfl | hb
        · exact ih b b List.mem_cons_self
        · rcases List.mem_cons.mp hb with rfl | hb
          · obtain ⟨d, hd, hda⟩ := ih a a List.mem_cons_self
            exact ⟨d, hd, hda.trans hac⟩
          · exact ih a b (List.mem_cons_of_mem _ hb)
  cases shares with
  | nil => exact absurd hs List.not_mem_nil
  | cons a l => exact hkeep l a s hs

/-- The shares that are left after sorting and leaving out. -/
def distinct (shares : List Share) : List Share := dedupByIndex (sortByIndex shares)

theorem mem_of_mem_distinct {shares : List Share} {s : Share} (h : s ∈ distinct shares) :
    s ∈ shares :=
  List.mem_mergeSort.mp ((List.destutter_sublist _ _).subset h)

theorem pairwise_distinct (shares : List Share) :
    (distinct shares).Pairwise fun a b => a.index < b.index :=
  pairwise_dedupByIndex (pairwise_sortByIndex shares)

/-- Where an index says which share it is, as many are left as there are distinct
shares. -/
theorem length_distinct {shares : List Share}
    (hindex : ∀ s ∈ shares, ∀ s' ∈ shares, s.index = s'.index → s = s') :
    (distinct shares).length = shares.dedup.length := by
  have hnodup : (distinct shares).Nodup :=
    (pairwise_distinct shares).imp fun {a b} hlt (h : a = b) => UInt8.lt_irrefl _ (h ▸ hlt)
  refine ((List.perm_ext_iff_of_nodup hnodup shares.nodup_dedup).mpr fun s => ?_).length_eq
  rw [List.mem_dedup]
  constructor
  · exact mem_of_mem_distinct
  · intro hs
    obtain ⟨s', hs', heq⟩ := exists_mem_dedupByIndex (List.mem_mergeSort.mpr hs)
    exact hindex s' (mem_of_mem_distinct hs') s hs heq ▸ hs'

theorem length_distinct_le (shares : List Share) : (distinct shares).length ≤ shares.length := by
  have h := (List.destutter_sublist (fun a b : Share => a.index ≠ b.index)
    (sortByIndex shares)).length_le
  rwa [sortByIndex, List.length_mergeSort] at h

/-! ### Reconstruction -/

/-- With indices in range, what is combined is decided by the distinct shares
alone. -/
theorem combine_eq {shares : List Share} {threshold : UInt8} (h2 : 2 ≤ threshold)
    (hrange : ∀ s ∈ shares, s.index ≠ 0 ∧ s.index ≤ maxShares) :
    combine shares threshold
      = if (distinct shares).length < threshold.toNat then
          .error (.shamirThreshold threshold shares.length)
        else combineChosen ((distinct shares).take threshold.toNat) := by
  have h2' : ¬ threshold < 2 := UInt8.not_lt.mpr h2
  have hbad : badIndex shares = none := by
    refine List.find?_eq_none.mpr fun s hs => ?_
    obtain ⟨h0, hle⟩ := hrange s hs
    simpa [h0] using hle
  have hle := length_distinct_le shares
  by_cases hfew : shares.length < threshold.toNat
  · have hdistinct : (distinct shares).length < threshold.toNat := by omega
    rw [if_pos hdistinct]
    simp only [combine, checkThreshold, refuseIf_bind, decide_eq_true_eq, h2', hfew, if_true,
      if_false]
  · simp only [combine, checkThreshold, refuseIf_bind, decide_eq_true_eq, h2', hfew, hbad,
      if_false]
    rfl

section Reconstruct

variable {secret : List UInt8} {t : ℕ} {coeffs : Coefficients secret.length t}

/-- Dealt shares of different indices, as many as the polynomials have
coefficients, give every byte of the secret back. -/
theorem interpolateByte_dealt {chosen : List Share}
    (hdealt : ∀ s ∈ chosen, s = shareAt secret coeffs s.index)
    (hpair : chosen.Pairwise fun a b => a.index < b.index) (hpos : 1 ≤ t)
    (hlen : chosen.length = t) {col : ℕ} (hcol : col < secret.length) :
    interpolateByte chosen col = secret[col] := by
  have hinj : Function.Injective (point chosen) := by
    intro i j hij
    have hindex : chosen[i].index = chosen[j].index := field_injective hij
    rw [List.pairwise_iff_getElem] at hpair
    rcases Nat.lt_trichotomy i j with hlt | heq | hgt
    · exact absurd (hindex ▸ hpair i j i.isLt j.isLt hlt) (UInt8.lt_irrefl _)
    · exact Fin.ext heq
    · exact absurd (hindex ▸ hpair j i j.isLt i.isLt hgt) (UInt8.lt_irrefl _)
  have hvalue : ∀ i : Fin chosen.length, field (chosen[i].data.getD col 0)
      = deal (field secret[col] :: (List.ofFn (coeffs ⟨col, hcol⟩)).map field)
          (point chosen i) := by
    intro i
    rw [hdealt chosen[i] (List.getElem_mem i.isLt), shareAt]
    simp [List.getD_eq_getElem?_getD, hcol, dealByte_eq, point]
  refine field_injective ?_
  rw [interpolateByte_eq chosen hinj]
  simp only [hvalue]
  exact recover_deal hinj (by simp only [List.length_cons, List.length_map, List.length_ofFn]; omega)

/-- So the chosen shares give the secret back. -/
theorem combineChosen_dealt {chosen : List Share}
    (hdealt : ∀ s ∈ chosen, s = shareAt secret coeffs s.index)
    (hpair : chosen.Pairwise fun a b => a.index < b.index) (hpos : 1 ≤ t)
    (hlen : chosen.length = t) : combineChosen chosen = .ok secret := by
  have hdata : ∀ s ∈ chosen, s.data.length = secret.length := by
    intro s hs
    rw [hdealt s hs, shareAt, List.length_map, List.length_finRange]
  have hhead : (chosen.map fun s => s.data.length).headD 0 = secret.length := by
    cases chosen with
    | nil =>
      rw [List.length_nil] at hlen
      omega
    | cons s chosen => exact hdata s List.mem_cons_self
  have hany : ¬ (chosen.any fun s => decide (s.data.length ≠ secret.length)) = true := by
    simpa using hdata
  rw [combineChosen, hhead, refuseIf_bind, if_neg hany]
  refine congrArg Except.ok (List.ext_getElem (by simp) fun col hcol hcol' => ?_)
  rw [List.getElem_map, List.getElem_range]
  exact interpolateByte_dealt hdealt hpair hpos hlen hcol'

end Reconstruct

/-- **Any threshold of the dealt shares give the secret back, and fewer give
none**: whatever the coefficients were, for every list of dealt shares in any
order and with any repetitions. -/
theorem combine_split {δ : Type} (H : Sha256 δ) (secret : List UInt8) {threshold shares : UInt8}
    (coeffs : Coefficients secret.length threshold.toNat) (h2 : 2 ≤ threshold)
    (hle : threshold ≤ shares) (hmax : shares ≤ maxShares) :
    ∃ r, split H secret threshold shares coeffs = .ok r ∧
      ∀ list : List Share, (∀ s ∈ list, s ∈ r.shares) →
        (threshold.toNat ≤ list.dedup.length → combine list threshold = .ok secret) ∧
        (list.dedup.length < threshold.toNat →
          combine list threshold = .error (.shamirThreshold threshold list.length)) := by
  refine ⟨_, split_eq H secret coeffs h2 hle hmax, fun list hlist => ?_⟩
  have hmem := fun s hs => (mem_dealt hmax).mp (hlist s hs)
  have hlength : (distinct list).length = list.dedup.length := by
    refine length_distinct fun s hs s' hs' h => ?_
    rw [(hmem s hs).2.2, (hmem s' hs').2.2, h]
  rw [combine_eq h2 fun s hs => ⟨(hmem s hs).1, UInt8.le_trans (hmem s hs).2.1 hmax⟩, hlength]
  constructor
  · intro henough
    have hpos : 1 ≤ threshold.toNat := Nat.le_of_succ_le h2
    rw [if_neg (by omega)]
    have hdealt : ∀ s ∈ (distinct list).take threshold.toNat,
        s = shareAt secret coeffs s.index :=
      fun s hs => (hmem s (mem_of_mem_distinct (List.mem_of_mem_take hs))).2.2
    refine combineChosen_dealt hdealt
      ((pairwise_distinct list).sublist (List.take_sublist _ _)) hpos ?_
    rw [List.length_take, hlength]
    omega
  · intro hfew
    exact if_pos hfew

/-! ### The commitments of a split -/

theorem indexed_dealt {secret : List UInt8} {t : ℕ} {coeffs : Coefficients secret.length t}
    {shares : UInt8} (hmax : shares ≤ maxShares) : Indexed (dealt secret coeffs shares.toNat) := by
  intro i hi
  have hlt : shares.toNat ≤ 250 := hmax
  have hi' : i < shares.toNat := by simpa [dealt] using hi
  simp only [dealt, List.getElem_map, List.getElem_range, shareAt_index, UInt8.toNat_ofNat']
  omega

/-- **The commitments accept exactly the committed shares**: each share of a split
has a proof of the tree's depth that is accepted, and no other share is accepted
with any proof. -/
theorem commitments_split {δ : Type} [DecidableEq δ] {H : Sha256 δ}
    (hleaf : ∀ s s', leafDigest H s = leafDigest H s' → s = s')
    (hnode : ∀ a b c d, nodeDigest H a b = nodeDigest H c d → a = c ∧ b = d)
    {secret : List UInt8} {threshold shares : UInt8}
    {coeffs : Coefficients secret.length threshold.toNat} {r : SplitResult δ}
    (h : split H secret threshold shares coeffs = .ok r) :
    (∀ s ∈ r.shares, ∃ proof, r.commitments.proof H s.index = some proof ∧
      proof.steps.length = Nat.log 2 r.commitments.leafCount ∧
      verifyShare H s r.commitments.root proof r.commitments.shareCount = true) ∧
    ∀ s proof, verifyShare H s r.commitments.root proof r.commitments.shareCount = true →
      r.shares[s.index.toNat - 1]? = some s := by
  obtain ⟨h2, hle, hmax⟩ := bounds_of_split h
  rw [split_eq H secret coeffs h2 hle hmax] at h
  obtain rfl := Except.ok.inj h
  refine ⟨fun s hs => ?_, fun s proof hs => Commitments.eq_of_accepts hleaf hnode hs⟩
  obtain ⟨i, hi, hshare⟩ := List.getElem_of_mem hs
  have hindex : s.index.toNat = i + 1 := hshare ▸ indexed_dealt hmax i hi
  obtain ⟨proof, hproof, hsiblings⟩ := Commitments.exists_proof (H := H) hi hindex
  refine ⟨proof, hproof, ?_, Commitments.accepts hi hshare hindex hsiblings⟩
  have hlen : proof.steps.length = (proof.steps.map ProofStep.sibling).length :=
    (List.length_map _).symm
  rw [Commitments.new_leafCount, Nat.log_pow (by decide), hlen, hsiblings, HeapTree.length_siblings]

/-! A hash that keeps what it hashes, and three shares of one byte. -/

namespace Transparent

/-- Bytes spelled so that the end can be told. -/
def spell : List UInt8 → List UInt8
  | [] => [0]
  | b :: bytes => 1 :: b :: spell bytes

/-- A digest that keeps what it was given. -/
def hash : Sha256 (Option (List UInt8)) where
  digest := some
  bytes
    | none => [2]
    | some bytes => spell bytes
  zero := none

/-- Spelled bytes say where they end. -/
theorem spell_append {a b u v : List UInt8} (h : spell a ++ u = spell b ++ v) :
    a = b ∧ u = v := by
  induction a generalizing b with
  | nil => cases b <;> simp_all [spell]
  | cons x a ih =>
    cases b with
    | nil => simp [spell] at h
    | cons y b =>
      simp only [spell, List.cons_append, List.cons.injEq, true_and] at h
      obtain ⟨rfl, hrest⟩ := h
      obtain ⟨rfl, rfl⟩ := ih hrest
      exact ⟨rfl, rfl⟩

theorem bytes_append {x y : Option (List UInt8)} {u v : List UInt8}
    (h : hash.bytes x ++ u = hash.bytes y ++ v) : x = y ∧ u = v := by
  cases x <;> cases y
  case none.none => simpa [hash] using h
  case none.some b => cases b <;> simp [hash, spell] at h
  case some.none a => cases a <;> simp [hash, spell] at h
  case some.some a b =>
    obtain ⟨rfl, rfl⟩ := spell_append h
    exact ⟨rfl, rfl⟩

theorem leafDigest_injective (s s' : Share) (h : leafDigest hash s = leafDigest hash s') :
    s = s' := by
  simp only [leafDigest, hash, Option.some.injEq, List.cons.injEq, true_and] at h
  cases s
  cases s'
  simp_all

theorem nodeDigest_injective (a b c d : Option (List UInt8))
    (h : nodeDigest hash a b = nodeDigest hash c d) : a = c ∧ b = d := by
  have hbytes : hash.bytes a ++ hash.bytes b = hash.bytes c ++ hash.bytes d :=
    List.tail_eq_of_cons_eq (Option.some.inj h)
  obtain ⟨hac, hbd⟩ := bytes_append hbytes
  have hend : hash.bytes b ++ [] = hash.bytes d ++ [] := by rw [hbd]
  exact ⟨hac, (bytes_append hend).1⟩

/-- The coefficients of a split of one byte among holders two of whom are
needed. -/
def coefficients : Coefficients [(7 : UInt8)].length (2 : UInt8).toNat := fun _ _ => 9

/-- The shares of a one-byte secret, under a digest that keeps what it was given. -/
theorem commitments_split_transparent :
    let shares := dealt [7] coefficients (3 : UInt8).toNat
    let commitments := Commitments.new hash shares
    (∀ s ∈ shares, ∃ proof, commitments.proof hash s.index = some proof ∧
      proof.steps.length = Nat.log 2 commitments.leafCount ∧
      verifyShare hash s commitments.root proof commitments.shareCount = true) ∧
    ∀ s proof, verifyShare hash s commitments.root proof commitments.shareCount = true →
      shares[s.index.toNat - 1]? = some s :=
  commitments_split leafDigest_injective nodeDigest_injective
    (split_eq hash [7] coefficients (show (2 : UInt8) ≤ 2 by decide)
      (show (2 : UInt8) ≤ 3 by decide) (by decide))

theorem combine_split_two_of_three :
    ∃ r, split hash [7] 2 3 coefficients = .ok r ∧
      ∀ list : List Share, (∀ s ∈ list, s ∈ r.shares) →
        ((2 : UInt8).toNat ≤ list.dedup.length → combine list 2 = .ok [7]) ∧
        (list.dedup.length < (2 : UInt8).toNat →
          combine list 2 = .error (.shamirThreshold 2 list.length)) :=
  combine_split hash [7] coefficients (by decide) (by decide) (by decide)

end Transparent

end Crypto

end KdxHotline
