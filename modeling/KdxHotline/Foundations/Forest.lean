import Mathlib.Data.List.Nodup
import Mathlib.Data.Finset.Card

/-!
# Rooted forests given by parent links

A tree stored as a parent link for each node. What makes such links a tree is
that the chain of parents from every node ends at the root:
`Foundations.Chain parent root i chain` says that `chain` is that chain, from
`i` up to and including `root`.

A chain is unique (`Foundations.Chain.unique`) and never repeats a node
(`Foundations.Chain.nodup`), so there is no acyclicity to maintain apart from the
existence of chains. Links may be changed in two ways: where no chain of interest
passes (`Foundations.Chain.congr`), and by hanging one subtree under another node
(`Foundations.Chain.move`).
-/

namespace Foundations

variable {ι : Type} {parent parent' : ι → Option ι} {root i j d x : ι} {chain m : List ι}

/-- The chain of parents from a node up to the root. -/
inductive Chain (parent : ι → Option ι) (root : ι) : ι → List ι → Prop
  | root (h : parent root = none) : Chain parent root root [root]
  | step {i p : ι} {chain : List ι} (h : parent i = some p) (hp : Chain parent root p chain) :
      Chain parent root i (i :: chain)

namespace Chain

/-- **A node has one chain.** -/
theorem unique (h : Chain parent root i chain) (h' : Chain parent root i m) : chain = m := by
  induction h generalizing m with
  | root hroot =>
    cases h' with
    | root => rfl
    | step h => rw [hroot] at h; cases h
  | step hp _ ih =>
    cases h' with
    | root hroot => rw [hroot] at hp; cases hp
    | step hp' h' =>
      rw [hp] at hp'
      cases hp'
      rw [ih h']

theorem exists_cons (h : Chain parent root i chain) : ∃ rest, chain = i :: rest := by
  cases h with
  | root => exact ⟨[], rfl⟩
  | step => exact ⟨_, rfl⟩

theorem head_mem (h : Chain parent root i chain) : i ∈ chain := by
  cases h <;> exact List.mem_cons_self

/-- Every node of a chain has its own chain inside it. -/
theorem of_mem (h : Chain parent root i chain) (hj : j ∈ chain) :
    ∃ pre suf, chain = pre ++ suf ∧ Chain parent root j suf ∧ j ∉ pre := by
  induction h with
  | root hroot =>
    obtain rfl := List.mem_singleton.mp hj
    exact ⟨[], _, rfl, .root hroot, List.not_mem_nil⟩
  | @step k p chain hp hchain ih =>
    by_cases hjk : j = k
    · subst hjk
      exact ⟨[], _, rfl, .step hp hchain, List.not_mem_nil⟩
    · obtain ⟨pre, suf, rfl, hsuf, hpre⟩ := ih ((List.mem_cons.mp hj).resolve_left hjk)
      refine ⟨k :: pre, suf, rfl, hsuf, fun hmem => ?_⟩
      exact (List.mem_cons.mp hmem).elim hjk hpre

/-- **A chain never passes a node twice.** -/
theorem nodup (h : Chain parent root i chain) : chain.Nodup := by
  induction h with
  | root => exact List.nodup_singleton _
  | @step k p chain hp hchain ih =>
    refine List.nodup_cons.mpr ⟨fun hmem => ?_, ih⟩
    -- the chain from `k` would be a proper part of itself
    obtain ⟨pre, suf, rfl, hsuf, -⟩ := hchain.of_mem hmem
    have hlen := congrArg List.length (hsuf.unique (.step hp hchain))
    rw [List.length_cons, List.length_append] at hlen
    omega

/-- Only the root has no parent. -/
theorem eq_root (h : Chain parent root i chain) (hi : parent i = none) : i = root := by
  cases h with
  | root => rfl
  | step hp => rw [hi] at hp; cases hp

theorem of_parent (h : Chain parent root i chain) (hi : parent i = some j) :
    ∃ m, chain = i :: m ∧ Chain parent root j m := by
  cases h with
  | root hroot => rw [hroot] at hi; cases hi
  | step hp hchain =>
    rw [hi] at hp
    cases hp
    exact ⟨_, rfl, hchain⟩

/-- A node is not on the chain of its own parent. -/
theorem not_mem_parent (h : Chain parent root j m) (hi : parent i = some j) : i ∉ m :=
  (List.nodup_cons.mp (Chain.step hi h).nodup).1

/-- **Links off the chain do not matter to it.** -/
theorem congr (h : Chain parent root i chain) (hsame : ∀ j ∈ chain, parent' j = parent j) :
    Chain parent' root i chain := by
  induction h with
  | root hroot => exact .root ((hsame _ List.mem_cons_self).trans hroot)
  | step hp _ ih =>
    refine .step ((hsame _ List.mem_cons_self).trans hp) (ih fun j hj => ?_)
    exact hsame j (List.mem_cons_of_mem _ hj)

/-- **Hanging the subtree of `x` elsewhere** gives a node below `x` the same way
up to `x`, and from there the new way. -/
theorem move (h : Chain parent root i chain) (hsame : ∀ j, j ≠ x → parent' j = parent j)
    (hx : Chain parent' root x m) (hmem : x ∈ chain) :
    ∃ pre suf, chain = pre ++ x :: suf ∧ Chain parent' root i (pre ++ m) := by
  induction h with
  | root =>
    obtain rfl := List.mem_singleton.mp hmem
    exact ⟨[], [], rfl, hx⟩
  | @step k p chain hp hchain ih =>
    by_cases hk : x = k
    · subst hk
      exact ⟨[], chain, rfl, hx⟩
    · obtain ⟨pre, suf, rfl, hnew⟩ := ih ((List.mem_cons.mp hmem).resolve_left hk)
      exact ⟨k :: pre, suf, rfl, .step ((hsame k (Ne.symm hk)).trans hp) hnew⟩

/-- A chain through a finite set of nodes is no longer than the set. -/
theorem length_le [DecidableEq ι] (h : Chain parent root i chain) {s : Finset ι}
    (hs : ∀ j ∈ chain, j ∈ s) : chain.length ≤ s.card := by
  rw [← List.toFinset_card_of_nodup h.nodup]
  exact Finset.card_le_card fun j hj => hs j (List.mem_toFinset.mp hj)

end Chain

end Foundations
