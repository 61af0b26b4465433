import Mathlib.Data.List.Nodup
import Mathlib.Data.List.Sort

/-!
# Tables with unique keys

A database table is the list of its rows, and a unique column is a `key` whose
values over the rows have no repetition. The three writes a statement can make
are an insertion at the end, the deletion of a selection and the rewriting of
one row, and each lemma here says when such a write keeps a key unique.
-/

namespace Foundations

variable {ρ κ ι : Type}

/-- No two rows share the value of `key`. -/
def UniqueKey (key : ρ → κ) (rows : List ρ) : Prop := (rows.map key).Nodup

instance [DecidableEq κ] (key : ρ → κ) (rows : List ρ) : Decidable (UniqueKey key rows) :=
  inferInstanceAs (Decidable (rows.map key).Nodup)

/-- Rewrite the selected rows. -/
def setWhere (p : ρ → Bool) (f : ρ → ρ) (rows : List ρ) : List ρ :=
  rows.map fun r => if p r then f r else r

theorem uniqueKey_nil (key : ρ → κ) : UniqueKey key [] := List.nodup_nil

/-- Two rows with one key are the same row. -/
theorem UniqueKey.eq {key : ρ → κ} {rows : List ρ} (h : UniqueKey key rows) {r r' : ρ}
    (hr : r ∈ rows) (hr' : r' ∈ rows) (hk : key r = key r') : r = r' :=
  List.inj_on_of_nodup_map h hr hr' hk

/-- **An insertion under a fresh key keeps it unique.** -/
theorem UniqueKey.append {key : ρ → κ} {rows : List ρ} (h : UniqueKey key rows) {r : ρ}
    (hr : ∀ r' ∈ rows, key r' ≠ key r) : UniqueKey key (rows ++ [r]) := by
  rw [UniqueKey, List.map_append, List.map_singleton, List.nodup_append]
  refine ⟨h, List.nodup_singleton _, fun k hk k' hk' => ?_⟩
  obtain ⟨r', hr', rfl⟩ := List.mem_map.mp hk
  rw [List.mem_singleton.mp hk']
  exact hr r' hr'

theorem UniqueKey.filter {key : ρ → κ} {rows : List ρ} (h : UniqueKey key rows)
    (p : ρ → Bool) : UniqueKey key (rows.filter p) :=
  h.sublist (List.filter_sublist.map key)

/-- A rewriting that leaves a column alone leaves the list of its values alone. -/
theorem map_setWhere {key : ρ → κ} {p : ρ → Bool} {f : ρ → ρ} {rows : List ρ}
    (hf : ∀ r, key (f r) = key r) : (setWhere p f rows).map key = rows.map key := by
  rw [setWhere, List.map_map]
  refine List.map_congr_left fun r _ => ?_
  by_cases hp : p r = true <;> simp [hp, hf]

/-- A rewriting that leaves the key alone keeps it unique. -/
theorem UniqueKey.setWhere_same {key : ρ → κ} {rows : List ρ} (h : UniqueKey key rows)
    {p : ρ → Bool} {f : ρ → ρ} (hf : ∀ r, key (f r) = key r) :
    UniqueKey key (setWhere p f rows) := by
  rw [UniqueKey, map_setWhere hf]
  exact h

/-- **Rewriting one row under a fresh key keeps it unique.** The row is selected
by another unique key, so at most one row changes. -/
theorem UniqueKey.setWhere_fresh {key : ρ → κ} {id : ρ → ι} {rows : List ρ}
    (h : UniqueKey key rows) (hid : UniqueKey id rows) {p : ρ → Bool} {f : ρ → ρ}
    (hp : ∀ r ∈ rows, ∀ r' ∈ rows, p r = true → p r' = true → id r = id r')
    (hf : ∀ r ∈ rows, ∀ r' ∈ rows, p r = true → p r' = false → key (f r) ≠ key r') :
    UniqueKey key (setWhere p f rows) := by
  rw [UniqueKey, setWhere, List.map_map, List.Nodup, List.pairwise_map]
  have hboth : rows.Pairwise fun a b => key a ≠ key b ∧ id a ≠ id b :=
    (List.pairwise_map.mp h).and (List.pairwise_map.mp hid)
  refine hboth.imp_of_mem fun {a b} ha hb hab => ?_
  cases hpa : p a <;> cases hpb : p b <;> simp only [Function.comp, hpa, hpb, if_true, if_false,
    Bool.false_eq_true]
  · exact hab.1
  · exact fun he => hf b hb a ha hpb hpa he.symm
  · exact hf a ha b hb hpa hpb
  · exact absurd (hp a ha b hb hpa hpb) hab.2

theorem mem_setWhere {p : ρ → Bool} {f : ρ → ρ} {rows : List ρ} {r : ρ} :
    r ∈ setWhere p f rows ↔ ∃ r' ∈ rows, (if p r' then f r' else r') = r := by
  simp [setWhere]

/-- A rewriting that a search does not see is done to what it finds. -/
theorem find_setWhere {p q : ρ → Bool} {f : ρ → ρ} {rows : List ρ} (hf : ∀ r, q (f r) = q r) :
    (setWhere p f rows).find? q = (rows.find? q).map fun r => if p r then f r else r := by
  have hsame : (q ∘ fun r => if p r then f r else r) = q := by
    funext r
    rw [Function.comp_apply]
    split
    case isTrue => exact hf r
    case isFalse => rfl
  rw [setWhere, List.find?_map, hsame]

end Foundations
