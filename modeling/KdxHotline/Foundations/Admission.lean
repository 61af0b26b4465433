import Mathlib.Data.Finset.Card
import Mathlib.Data.Multiset.AddSub

/-!
# Checking first and adding later

A collection is to hold no more than `cap` elements. Who adds one looks at the collection first,
takes out what is too much, and adds its element in a later step; between the two others may add
theirs. What it has seen, less what it took out, is its snapshot (`Foundations.Snapshot`).

If no more than `width` of them are between their look and their addition at any time, the
collection never holds more than `cap + width - 1` elements: not `cap` for each round of additions,
because who looks later sees what was added before and takes it out. The invariant
(`Foundations.Admits`) puts the snapshots in the order in which they were taken. All but the first
`k` have seen everything except what the earlier ones have added since; and the collection is small
enough for those first `k` to add theirs too.
-/

namespace Foundations

/-- What someone has seen of a collection and still counts on, and how many elements it still has to
take out. -/
structure Snapshot (ι : Type) where
  seen : Finset ι
  excess : ℕ

section Admission

variable {ι : Type} [DecidableEq ι] {cap width k i : ℕ} {rows rows' : Finset ι} {x x' : Snapshot ι}
  {order : List (Snapshot ι)} {rest : Multiset (Snapshot ι)} {r : ι}

/-- Once nothing is left to take out, there is room for one more element. -/
def Snapshot.Few (cap : ℕ) (x : Snapshot ι) : Prop := x.seen.card + 1 ≤ cap + x.excess

/-- The snapshots in the order in which they were taken; the first `k` may have missed anything. -/
structure InOrder (cap width : ℕ) (rows : Finset ι) (order : List (Snapshot ι)) (k : ℕ) : Prop where
  room : rows.card + k + 1 ≤ cap + width
  few : ∀ x ∈ order, x.Few cap
  missed : ∀ j x, order[j]? = some x → k ≤ j → (rows \ x.seen).card + j + 1 ≤ width

/-- The collection is as small as it should be, whoever adds an element next. -/
def Admits (cap width : ℕ) (rows : Finset ι) (snapshots : Multiset (Snapshot ι)) : Prop :=
  ∃ (order : List (Snapshot ι)) (k : ℕ),
    (order : Multiset (Snapshot ι)) = snapshots ∧ InOrder cap width rows order k

theorem Admits.card_le {snapshots : Multiset (Snapshot ι)} (h : Admits cap width rows snapshots) :
    rows.card + 1 ≤ cap + width := by
  obtain ⟨order, k, -, h⟩ := h
  have hroom := h.room
  omega

theorem Admits.few (h : Admits cap width rows (x ::ₘ rest)) : x.Few cap := by
  obtain ⟨order, k, horder, h⟩ := h
  exact h.few x (Multiset.mem_coe.mp (horder ▸ Multiset.mem_cons_self x rest))

theorem admits_zero (h : rows.card + 1 ≤ cap + width) : Admits cap width rows 0 :=
  ⟨[], 0, rfl, h, fun _ hx => absurd hx List.not_mem_nil, fun _ _ hget => by simp at hget⟩

omit [DecidableEq ι] in
/-- A snapshot has its place in the order, and the others keep theirs. -/
theorem exists_place (h : (order : Multiset (Snapshot ι)) = x ::ₘ rest) : ∃ i, order[i]? = some x ∧
    (order.eraseIdx i : Multiset (Snapshot ι)) = rest := by
  have hmem : x ∈ order := Multiset.mem_coe.mp (h ▸ Multiset.mem_cons_self x rest)
  obtain ⟨i, hi, hget⟩ := List.mem_iff_getElem.mp hmem
  refine ⟨i, List.getElem?_eq_some_iff.mpr ⟨hi, hget⟩, ?_⟩
  have hperm := List.getElem_cons_eraseIdx_perm hi
  rw [hget] at hperm
  refine (Multiset.cons_inj_right x).mp (Eq.trans ?_ h)
  exact Multiset.coe_eq_coe.mpr hperm

/-- A later one sees less that is new when an earlier one is gone. -/
theorem InOrder.missed_erase (h : InOrder cap width rows order k) {j : ℕ}
    (hget : (order.eraseIdx i)[j]? = some x') (hj : i ≤ j) (hk : k ≤ j + 1) :
    (rows \ x'.seen).card + (j + 1) + 1 ≤ width := by
  rw [List.getElem?_eraseIdx_of_ge hj] at hget
  exact h.missed (j + 1) x' hget hk

/-- Elements are taken out. -/
theorem Admits.mono {snapshots : Multiset (Snapshot ι)} (h : Admits cap width rows snapshots)
    (hsub : rows' ⊆ rows) : Admits cap width rows' snapshots := by
  obtain ⟨order, k, horder, h⟩ := h
  refine ⟨order, k, horder, ?_, h.few, fun j x hget hj => ?_⟩
  · have hcard := Finset.card_le_card hsub
    have hroom := h.room
    omega
  · have hcard := Finset.card_le_card (Finset.sdiff_subset_sdiff hsub (Finset.Subset.refl x.seen))
    have hmissed := h.missed j x hget hj
    omega

/-- **Someone looks**: nothing is new to it, and few have looked before. -/
theorem Admits.look {snapshots : Multiset (Snapshot ι)} (h : Admits cap width rows snapshots)
    (hfew : x.Few cap) (hseen : rows ⊆ x.seen) (hwidth : snapshots.card < width) :
    Admits cap width rows (x ::ₘ snapshots) := by
  obtain ⟨order, k, rfl, h⟩ := h
  refine ⟨order ++ [x], k, ?_, h.room, fun y hy => ?_, fun j y hget hj => ?_⟩
  · rw [← Multiset.coe_add, Multiset.coe_singleton, Multiset.add_comm, Multiset.singleton_add]
  · rcases List.mem_append.mp hy with hy | hy
    · exact h.few y hy
    · exact List.mem_singleton.mp hy ▸ hfew
  · rcases Nat.lt_or_ge j order.length with hlt | hge
    · rw [List.getElem?_append_left hlt] at hget
      exact h.missed j y hget hj
    · rw [List.getElem?_append_right hge] at hget
      obtain ⟨hlast, hy⟩ := List.getElem?_eq_some_iff.mp hget
      rw [List.length_singleton] at hlast
      obtain rfl : x = y := by simpa using hy
      rw [Finset.sdiff_eq_empty_iff_subset.mpr hseen, Finset.card_empty]
      rw [Multiset.coe_card] at hwidth
      omega

/-- **Someone takes an element out** and counts on what is left. -/
theorem Admits.discard (h : Admits cap width rows (x ::ₘ rest)) (hfew : x'.Few cap)
    (hsub : rows' ⊆ rows) (hmissed : rows' \ x'.seen ⊆ rows \ x.seen) :
    Admits cap width rows' (x' ::ₘ rest) := by
  obtain ⟨order, k, horder, h⟩ := h
  obtain ⟨i, hi, hrest⟩ := exists_place horder
  obtain ⟨hlt, hget⟩ := List.getElem?_eq_some_iff.mp hi
  have hcard := Finset.card_le_card hsub
  have hroom := h.room
  refine ⟨order.set i x', k, ?_, by omega, fun y hy => ?_, fun j y hj hk => ?_⟩
  · have hlength : i < (order.set i x').length := by rwa [List.length_set]
    have hperm := List.getElem_cons_eraseIdx_perm hlength
    rw [List.getElem_set_self, List.eraseIdx_set_eq] at hperm
    rw [← hrest]
    exact (Multiset.coe_eq_coe.mpr hperm).symm
  · rcases List.mem_or_eq_of_mem_set hy with hy | rfl
    · exact h.few y hy
    · exact hfew
  · by_cases hij : i = j
    · subst hij
      rw [List.getElem?_set_self hlt] at hj
      obtain rfl := Option.some.inj hj
      have hbefore := h.missed i x hi hk
      have hafter := Finset.card_le_card hmissed
      omega
    · rw [List.getElem?_set_ne hij] at hj
      have hbefore := h.missed j y hj hk
      have hafter :=
        Finset.card_le_card (Finset.sdiff_subset_sdiff hsub (Finset.Subset.refl y.seen))
      omega

/-- **Someone adds an element** who has nothing left to take out. -/
theorem Admits.insert (h : Admits cap width rows (x ::ₘ rest)) (hzero : x.excess = 0) (r : ι) :
    Admits cap width (Insert.insert r rows) rest := by
  obtain ⟨order, k, horder, h⟩ := h
  obtain ⟨i, hi, hrest⟩ := exists_place horder
  have hnew (y : Snapshot ι) :
      ((Insert.insert r rows) \ y.seen).card ≤ (rows \ y.seen).card + 1 := by
    have hsub : (Insert.insert r rows) \ y.seen ⊆ Insert.insert r (rows \ y.seen) := by grind
    exact (Finset.card_le_card hsub).trans (Finset.card_insert_le _ _)
  have hcard := Finset.card_insert_le r rows
  have hroom := h.room
  rcases Nat.lt_or_ge i k with hlt | hge
  · -- it was among the first ones, for whom there is room
    refine ⟨order.eraseIdx i, k - 1, hrest, by omega,
      fun y hy => h.few y (List.mem_of_mem_eraseIdx hy),
      fun j y hget hj => ?_⟩
    have hmissed := h.missed_erase hget (by omega) (by omega)
    have hgrown := hnew y
    omega
  · -- what it missed was added by those who looked before it, and they are the first ones now
    have hmissed := h.missed i x hi hge
    have hfew : x.seen.card + 1 ≤ cap + x.excess := h.few x (List.mem_of_getElem? hi)
    have hsplit : rows.card ≤ (rows \ x.seen).card + x.seen.card :=
      Finset.card_le_card_sdiff_add_card
    refine ⟨order.eraseIdx i, i, hrest, by omega, fun y hy => h.few y (List.mem_of_mem_eraseIdx hy),
      fun j y hget hj => ?_⟩
    have hlater := h.missed_erase hget hj (by omega)
    have hgrown := hnew y
    omega

/-- Someone goes without adding anything. -/
theorem Admits.leave (h : Admits cap width rows (x ::ₘ rest)) : Admits cap width rows rest := by
  obtain ⟨order, k, horder, h⟩ := h
  obtain ⟨i, hi, hrest⟩ := exists_place horder
  have hroom := h.room
  refine ⟨order.eraseIdx i, if i < k then k - 1 else k, hrest, ?_,
    fun y hy => h.few y (List.mem_of_mem_eraseIdx hy), fun j y hget hj => ?_⟩
  · split <;> omega
  · rcases Nat.lt_or_ge j i with hlt | hge
    · rw [List.getElem?_eraseIdx_of_lt hlt] at hget
      split at hj
      · omega
      · exact h.missed j y hget hj
    · have hmissed := h.missed_erase hget hge (by split at hj <;> omega)
      omega

end Admission

end Foundations
