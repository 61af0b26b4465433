import Mathlib.Probability.Distributions.Uniform
import KdxHotline.Crypto.Shamir

/-!
# Fewer shares than the threshold tell nothing

The holders of `threshold - 1` shares see, for every byte of the secret, the
values of a polynomial at as many points as it has random coefficients. Whatever
the secret is, exactly one choice of the coefficients deals them what they see
(`KdxHotline.Crypto.existsUnique_coefficients`); with coefficients drawn
uniformly what they see is therefore distributed the same for every secret of
that length.
-/

namespace KdxHotline

namespace Crypto

open Foundations

/-- What the holders of the given indices are dealt by a split: the data of
their shares. -/
def view {δ : Type} (H : Sha256 δ) (secret : List UInt8) (threshold shares : UInt8) {k : ℕ}
    (indices : Fin k → UInt8) (coeffs : Coefficients secret.length threshold.toNat) :
    Fin k → Option (List UInt8) :=
  fun i =>
    match split H secret threshold shares coeffs with
    | .ok r => (r.shares.find? fun s => decide (s.index = indices i)).map Share.data
    | .error _ => none

/-- The data a table of observed bytes, by column and holder, makes for each
holder. -/
def columns {n k : ℕ} (observed : Fin n → Fin k → UInt8) : Fin k → Option (List UInt8) :=
  fun i => some ((List.finRange n).map fun col => observed col i)

theorem columns_injective {n k : ℕ} :
    Function.Injective (columns : (Fin n → Fin k → UInt8) → Fin k → Option (List UInt8)) := by
  intro a b h
  funext col i
  have hi := Option.some.inj (congrFun h i)
  exact List.map_inj_left.mp hi col (List.mem_finRange col)

section Secrecy

variable {δ : Type} (H : Sha256 δ) {threshold shares : UInt8}

/-- The share of an index is found among the dealt ones. -/
theorem find_dealt {secret : List UInt8} {t : ℕ} {coeffs : Coefficients secret.length t}
    (hmax : shares ≤ maxShares) {index : UInt8} (h0 : index ≠ 0) (hle : index ≤ shares) :
    (dealt secret coeffs shares.toNat).find? (fun s => decide (s.index = index))
      = some (shareAt secret coeffs index) := by
  have hmem : shareAt secret coeffs index ∈ dealt secret coeffs shares.toNat :=
    (mem_dealt hmax).mpr ⟨h0, hle, rfl⟩
  cases hfind : (dealt secret coeffs shares.toNat).find? (fun s => decide (s.index = index)) with
  | none =>
    have := List.find?_eq_none.mp hfind _ hmem
    simp at this
  | some s =>
    have hindex : s.index = index := by simpa using List.find?_some hfind
    obtain ⟨-, -, hs⟩ := (mem_dealt hmax).mp (List.mem_of_find?_eq_some hfind)
    rw [hs, hindex]

/-- What each holder is dealt, column by column. -/
theorem view_eq {secret : List UInt8} {k : ℕ} {indices : Fin k → UInt8} (h2 : 2 ≤ threshold)
    (hle : threshold ≤ shares) (hmax : shares ≤ maxShares)
    (hrange : ∀ i, indices i ≠ 0 ∧ indices i ≤ shares)
    (coeffs : Coefficients secret.length threshold.toNat) :
    view H secret threshold shares indices coeffs
      = columns fun col i => dealByte (secret.get col) (List.ofFn (coeffs col)) (indices i) := by
  funext i
  simp only [view, split_eq H secret coeffs h2 hle hmax,
    find_dealt hmax (hrange i).1 (hrange i).2, Option.map_some, shareAt, columns]
  rfl

/-- A list of field elements of a known length is a row of bytes. -/
theorem exists_row {k : ℕ} {cs : List GF256} (h : cs.length = k) :
    ∃ row : Fin k → UInt8, (List.ofFn row).map field = cs := by
  subst h
  refine ⟨fun i => (cs.get i).byte, ?_⟩
  rw [List.map_ofFn]
  exact List.ofFn_get cs

theorem row_injective {k : ℕ} {row row' : Fin k → UInt8}
    (h : (List.ofFn row).map field = (List.ofFn row').map field) : row = row' :=
  List.ofFn_injective (List.map_injective_iff.mpr field_injective h)

/-- **One column**: for every secret byte and every byte seen at each index,
exactly one row of coefficients deals them. -/
theorem existsUnique_row {k : ℕ} {indices : Fin k → UInt8} (hinj : Function.Injective indices)
    (h0 : ∀ i, indices i ≠ 0) (secretByte : UInt8) (observed : Fin k → UInt8) :
    ∃! row : Fin k → UInt8, ∀ i, dealByte secretByte (List.ofFn row) (indices i) = observed i := by
  obtain ⟨cs, ⟨hlen, hcs⟩, hunique⟩ := existsUnique_deal
    (field_injective.comp hinj) (fun i h => h0 i (field_injective h)) (field secretByte)
    (fun i => field (observed i))
  have hrow : ∀ row : Fin k → UInt8,
      (∀ i, dealByte secretByte (List.ofFn row) (indices i) = observed i) ↔
        (List.ofFn row).map field = cs := by
    intro row
    constructor
    · intro h
      refine hunique _ ⟨by simp, fun i => ?_⟩
      exact (dealByte_eq _ _ _).symm.trans (congrArg field (h i))
    · rintro rfl i
      exact field_injective ((dealByte_eq _ _ _).trans (hcs i))
  obtain ⟨row, hmap⟩ := exists_row hlen
  exact ⟨row, (hrow row).mpr hmap, fun row' h => row_injective (((hrow row').mp h).trans hmap.symm)⟩

/-- **The whole secret**: for every secret and every table of bytes seen, exactly
one choice of the coefficients makes the split deal them. -/
theorem existsUnique_coefficients {indices : Fin (threshold.toNat - 1) → UInt8}
    (h2 : 2 ≤ threshold) (hle : threshold ≤ shares) (hmax : shares ≤ maxShares)
    (hinj : Function.Injective indices) (hrange : ∀ i, indices i ≠ 0 ∧ indices i ≤ shares)
    (secret : List UInt8) (observed : Fin secret.length → Fin (threshold.toNat - 1) → UInt8) :
    ∃! coeffs : Coefficients secret.length threshold.toNat,
      view H secret threshold shares indices coeffs = columns observed := by
  have hview : ∀ coeffs, view H secret threshold shares indices coeffs = columns observed ↔
      ∀ col i, dealByte secret[col] (List.ofFn (coeffs col)) (indices i) = observed col i := by
    intro coeffs
    rw [view_eq H h2 hle hmax hrange, columns_injective.eq_iff]
    exact ⟨fun h col i => congrFun (congrFun h col) i, fun h => funext fun col => funext (h col)⟩
  choose row hrow hunique using fun col : Fin secret.length =>
    existsUnique_row hinj (fun i => (hrange i).1) secret[col] (observed col)
  refine ⟨row, (hview row).mpr hrow, fun coeffs h => funext fun col => ?_⟩
  exact hunique col (coeffs col) ((hview coeffs).mp h col)

/-! ### Distributions -/

instance fintypeByte : Fintype UInt8 :=
  Fintype.ofEquiv (Fin 256) ⟨UInt8.ofFin, UInt8.toFin, fun _ => rfl, fun _ => rfl⟩

/-- Drawing uniformly and applying a bijection is drawing uniformly. -/
theorem map_uniform {α β : Type} [Fintype α] [Nonempty α] [Fintype β] [Nonempty β] {f : α → β}
    (hf : Function.Bijective f) :
    (PMF.uniformOfFintype α).map f = PMF.uniformOfFintype β := by
  ext b
  obtain ⟨a, rfl⟩ := hf.2 b
  rw [PMF.map_apply, tsum_eq_single a]
  · rw [if_pos rfl, PMF.uniformOfFintype_apply, PMF.uniformOfFintype_apply,
      Fintype.card_of_bijective hf]
  · intro a' ha'
    exact if_neg fun h => ha' (hf.1 h).symm

/-- What is seen of a secret with uniform coefficients is a uniform table of
bytes. -/
theorem view_uniform {indices : Fin (threshold.toNat - 1) → UInt8} (h2 : 2 ≤ threshold)
    (hle : threshold ≤ shares) (hmax : shares ≤ maxShares) (hinj : Function.Injective indices)
    (hrange : ∀ i, indices i ≠ 0 ∧ indices i ≤ shares) (secret : List UInt8) :
    (PMF.uniformOfFintype (Coefficients secret.length threshold.toNat)).map
        (view H secret threshold shares indices)
      = (PMF.uniformOfFintype (Fin secret.length → Fin (threshold.toNat - 1) → UInt8)).map
          columns := by
  let table : Coefficients secret.length threshold.toNat →
      Fin secret.length → Fin (threshold.toNat - 1) → UInt8 :=
    fun coeffs col i => dealByte secret[col] (List.ofFn (coeffs col)) (indices i)
  have hview : view H secret threshold shares indices = columns ∘ table :=
    funext fun coeffs => view_eq H h2 hle hmax hrange coeffs
  have hbij : Function.Bijective table := by
    refine Function.bijective_iff_existsUnique table |>.mpr fun observed => ?_
    have h := existsUnique_coefficients H h2 hle hmax hinj hrange secret observed
    simpa only [hview, Function.comp_apply, columns_injective.eq_iff] using h
  rw [hview, ← PMF.map_comp, map_uniform hbij]

/-- **Perfect secrecy.** For all parameters that a split admits and all
`threshold - 1` distinct indices: every byte seen at each of them is explained,
whatever the secret byte is, by exactly one vector of coefficients, and so it is
column by column for whole secrets; and with uniform coefficients what is seen is
distributed the same for any two secrets of equal length. -/
theorem view_hides {indices : Fin (threshold.toNat - 1) → UInt8} (h2 : 2 ≤ threshold)
    (hle : threshold ≤ shares) (hmax : shares ≤ maxShares) (hinj : Function.Injective indices)
    (hrange : ∀ i, indices i ≠ 0 ∧ indices i ≤ shares) :
    (∀ (secretByte : UInt8) (observed : Fin (threshold.toNat - 1) → UInt8),
      ∃! row : Fin (threshold.toNat - 1) → UInt8,
        view H [secretByte] threshold shares indices (fun _ => row) = fun i => some [observed i]) ∧
    (∀ (secret : List UInt8) (observed : Fin secret.length → Fin (threshold.toNat - 1) → UInt8),
      ∃! coeffs, view H secret threshold shares indices coeffs = columns observed) ∧
    ∀ secret secret' : List UInt8, secret.length = secret'.length →
      (PMF.uniformOfFintype (Coefficients secret.length threshold.toNat)).map
          (view H secret threshold shares indices)
        = (PMF.uniformOfFintype (Coefficients secret'.length threshold.toNat)).map
            (view H secret' threshold shares indices) := by
  refine ⟨fun secretByte observed => ?_, existsUnique_coefficients H h2 hle hmax hinj hrange,
    fun secret secret' hlen => ?_⟩
  · have h := existsUnique_row hinj (fun i => (hrange i).1) secretByte observed
    refine (existsUnique_congr fun row => ?_).mp h
    rw [view_eq H h2 hle hmax hrange, funext_iff]
    exact forall_congr' fun i => by simp [columns, List.finRange_succ]
  · rw [view_uniform H h2 hle hmax hinj hrange, view_uniform H h2 hle hmax hinj hrange, hlen]

end Secrecy

/-- Two of the holders of a secret that takes three. -/
theorem view_hides_two_of_three :
    let indices : Fin ((3 : UInt8).toNat - 1) → UInt8 := fun i => if i.val = 0 then 1 else 3
    (∀ (secretByte : UInt8) (observed : Fin ((3 : UInt8).toNat - 1) → UInt8),
      ∃! row : Fin ((3 : UInt8).toNat - 1) → UInt8,
        view Transparent.hash [secretByte] 3 5 indices (fun _ => row)
          = fun i => some [observed i]) ∧
    (∀ (secret : List UInt8) (observed : Fin secret.length → Fin ((3 : UInt8).toNat - 1) → UInt8),
      ∃! coeffs, view Transparent.hash secret 3 5 indices coeffs = columns observed) ∧
    ∀ secret secret' : List UInt8, secret.length = secret'.length →
      (PMF.uniformOfFintype (Coefficients secret.length (3 : UInt8).toNat)).map
          (view Transparent.hash secret 3 5 indices)
        = (PMF.uniformOfFintype (Coefficients secret'.length (3 : UInt8).toNat)).map
            (view Transparent.hash secret' 3 5 indices) :=
  view_hides Transparent.hash (by decide) (by decide) (by decide) (by decide) (by decide)

end Crypto

end KdxHotline
