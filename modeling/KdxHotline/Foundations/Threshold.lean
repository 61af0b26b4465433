import Mathlib.Algebra.Polynomial.Coeff
import Mathlib.Data.List.GetD
import Mathlib.LinearAlgebra.Lagrange

/-!
# Sharing a field element among points

A polynomial given by the list of its coefficients, the secret first, dealt at
the points of a field. As many points as there are coefficients recover the
secret (`Foundations.recover_deal`), and one point fewer tells nothing about it:
whatever the secret is, exactly one choice of the other coefficients explains
the values seen (`Foundations.existsUnique_deal`).
-/

open Polynomial

namespace Foundations

variable {F : Type*} [Field F]

/-! ### A polynomial by its coefficients -/

/-- The polynomial with these coefficients, the constant one first. -/
noncomputable def ofCoeffs : List F → F[X]
  | [] => 0
  | c :: cs => C c + X * ofCoeffs cs

/-- The value dealt at a point: the polynomial with these coefficients there. -/
def deal : List F → F → F
  | [], _ => 0
  | c :: cs, x => c + x * deal cs x

theorem eval_ofCoeffs (cs : List F) (x : F) : (ofCoeffs cs).eval x = deal cs x := by
  induction cs with
  | nil => simp [ofCoeffs, deal]
  | cons c cs ih => simp [ofCoeffs, deal, ih]

@[simp] theorem deal_cons_zero (c : F) (cs : List F) : deal (c :: cs) 0 = c := by
  simp [deal]

theorem coeff_ofCoeffs (cs : List F) (i : ℕ) : (ofCoeffs cs).coeff i = cs.getD i 0 := by
  induction cs generalizing i with
  | nil => simp [ofCoeffs]
  | cons c cs ih =>
    cases i with
    | zero => simp [ofCoeffs]
    | succ i => simp [ofCoeffs, ih]

theorem degree_ofCoeffs_lt (cs : List F) : (ofCoeffs cs).degree < cs.length := by
  rw [degree_lt_iff_coeff_zero]
  intro i hi
  rw [coeff_ofCoeffs, List.getD_eq_default _ _ hi]

/-- Every polynomial below a degree is the polynomial of a list of that many
coefficients. -/
theorem exists_ofCoeffs {n : ℕ} {p : F[X]} (hp : p.degree < n) :
    ∃ cs : List F, cs.length = n ∧ ofCoeffs cs = p := by
  refine ⟨(List.range n).map p.coeff, by simp, ?_⟩
  ext i
  rw [coeff_ofCoeffs]
  by_cases hi : i < n
  · simp [hi]
  · rw [List.getD_eq_default _ _ (by simpa using hi)]
    exact (coeff_eq_zero_of_degree_lt (lt_of_lt_of_le hp (by exact_mod_cast not_lt.mp hi))).symm

theorem ofCoeffs_injOn {cs ds : List F} (hlen : cs.length = ds.length)
    (h : ofCoeffs cs = ofCoeffs ds) : cs = ds := by
  refine List.ext_getElem hlen fun i hc hd => ?_
  have hi := congrArg (fun p => p.coeff i) h
  simpa [coeff_ofCoeffs, List.getD_eq_getElem, hc, hd] using hi

/-! ### Recovering -/

section Recover

variable {n : ℕ}

/-- The weight at zero of the `i`-th point: the product of the others over the
product of their distances to it. -/
def weight (x : Fin n → F) (i : Fin n) : F :=
  (∏ j ∈ Finset.univ.erase i, x j) / ∏ j ∈ Finset.univ.erase i, (x j - x i)

/-- What the points and the values at them say the value at zero is. -/
def recover (x y : Fin n → F) : F := ∑ i, y i * weight x i

theorem eval_basis_zero (x : Fin n → F) (i : Fin n) :
    (Lagrange.basis Finset.univ x i).eval 0 = weight x i := by
  rw [Lagrange.basis, eval_prod, weight, ← Finset.prod_div_distrib]
  refine Finset.prod_congr rfl fun j _ => ?_
  rw [Lagrange.basisDivisor, eval_mul, eval_C, eval_sub, eval_X, eval_C, zero_sub, mul_neg,
    ← neg_sub (x j) (x i), inv_neg, neg_mul, neg_neg, mul_comm, div_eq_mul_inv]

/-- **As many distinct points as there are coefficients recover the secret.** -/
theorem recover_deal {s : F} {cs : List F} {x : Fin n → F} (hx : Function.Injective x)
    (hn : (s :: cs).length = n) : recover x (fun i => deal (s :: cs) (x i)) = s := by
  have hdeg : (ofCoeffs (s :: cs)).degree < (Finset.univ : Finset (Fin n)).card := by
    rw [Finset.card_univ, Fintype.card_fin, ← hn]
    exact degree_ofCoeffs_lt _
  have hp := Lagrange.eq_interpolate (v := x) hx.injOn hdeg
  calc recover x (fun i => deal (s :: cs) (x i))
      = (Lagrange.interpolate Finset.univ x fun i => (ofCoeffs (s :: cs)).eval (x i)).eval 0 := by
        simp only [recover, Lagrange.interpolate_apply, eval_finsetSum, eval_mul, eval_C,
          eval_basis_zero, eval_ofCoeffs]
    _ = (ofCoeffs (s :: cs)).eval 0 := by rw [← hp]
    _ = s := by rw [eval_ofCoeffs, deal_cons_zero]

end Recover

/-! ### Hiding -/

section Hide

variable {n : ℕ} {x : Fin n → F}

/-- The points of the holders, and zero, where the secret is. -/
theorem cons_zero_injective (hx : Function.Injective x) (h0 : ∀ i, x i ≠ 0) :
    Function.Injective (Fin.cons 0 x : Fin (n + 1) → F) := by
  rw [Fin.cons_injective_iff]
  refine ⟨?_, hx⟩
  rintro ⟨i, hi⟩
  exact h0 i hi

/-- **One point fewer hides the secret**: for every secret and every value at
each of the points, exactly one choice of the other coefficients deals those
values. -/
theorem existsUnique_deal (hx : Function.Injective x) (h0 : ∀ i, x i ≠ 0) (s : F)
    (y : Fin n → F) :
    ∃! cs : List F, cs.length = n ∧ ∀ i, deal (s :: cs) (x i) = y i := by
  have hinj := (cons_zero_injective hx h0).injOn (s := ↑(Finset.univ : Finset (Fin (n + 1))))
  have hcard : (Finset.univ : Finset (Fin (n + 1))).card = n + 1 := by simp
  have hdeg := Lagrange.degree_interpolate_lt (Fin.cons s y : Fin (n + 1) → F) hinj
  rw [hcard] at hdeg
  obtain ⟨ds, hlen, hds⟩ := exists_ofCoeffs hdeg
  have hval : ∀ i, deal ds ((Fin.cons 0 x : Fin (n + 1) → F) i)
      = (Fin.cons s y : Fin (n + 1) → F) i := by
    intro i
    rw [← eval_ofCoeffs, hds]
    exact Lagrange.eval_interpolate_at_node _ hinj (Finset.mem_univ i)
  obtain - | ⟨c, cs⟩ := ds
  · simp at hlen
  have hc : c = s := by simpa using hval 0
  subst hc
  refine ⟨cs, ⟨by simpa using hlen, fun i => by simpa using hval i.succ⟩, ?_⟩
  rintro cs' ⟨hlen', hy'⟩
  -- the two polynomials agree at the points and at zero
  have hp : ofCoeffs (c :: cs') = ofCoeffs (c :: cs) := by
    refine Polynomial.eq_of_degrees_lt_of_eval_index_eq Finset.univ hinj ?_ ?_ ?_
    · rw [hcard, ← hlen', ← List.length_cons (a := c)]
      exact degree_ofCoeffs_lt _
    · rw [hcard, ← hlen]
      exact degree_ofCoeffs_lt _
    · intro i _
      rw [eval_ofCoeffs, eval_ofCoeffs, hval i]
      cases i using Fin.cases with
      | zero => simp
      | succ i => simpa using hy' i
  exact List.tail_eq_of_cons_eq (ofCoeffs_injOn (by simpa [hlen'] using hlen.symm) hp)

end Hide

end Foundations
