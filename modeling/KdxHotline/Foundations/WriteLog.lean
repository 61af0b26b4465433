import Mathlib.Data.List.Induction
import Mathlib.Tactic.Common

/-!
# A log of writes

Cells that are only changed by writes of whole values hold what their start and the log of
the writes say (`Foundations.written`): the value of the last write to the cell, or what it
started with. So a cell that holds a value although another one was written to it was
written that value again later (`Foundations.exists_later_write`).
-/

namespace Foundations

variable {κ α ω : Type} [DecidableEq κ] (cell : ω → κ) (value : ω → α)

/-- What a cell holds after a log of writes. -/
def written (start : κ → α) (log : List ω) (k : κ) : α :=
  log.foldl (fun v w => if cell w = k then value w else v) (start k)

variable {cell value} {start : κ → α} {log log' : List ω} {k : κ} {u w : ω} {v : α}

@[simp] theorem written_nil : written cell value start [] k = start k := rfl

theorem written_append :
    written cell value start (log ++ log') k = written cell value (written cell value start log) log' k :=
  List.foldl_append

theorem written_concat : written cell value start (log ++ [w]) k =
    if cell w = k then value w else written cell value start log k := by
  rw [written_append]
  rfl

/-- A cell that no write is to holds what it held. -/
theorem written_of_untouched (h : ∀ w ∈ log, cell w ≠ k) : written cell value start log k = start k := by
  induction log using List.reverseRecOn with
  | nil => rfl
  | append_singleton log w ih =>
    rw [written_concat, if_neg (h w (by simp)), ih fun w hw => h w (List.mem_append_left _ hw)]

/-- A cell holds the value of the last write to it. -/
theorem written_of_last (hw : cell w = k) (h : ∀ w ∈ log', cell w ≠ k) :
    written cell value start (log ++ w :: log') k = value w := by
  rw [List.append_cons, written_append, written_of_untouched h, written_concat, if_pos hw]

/-- What a cell holds is what it held or what was written to it. -/
theorem written_cases : written cell value start log k = start k ∨
    ∃ w ∈ log, cell w = k ∧ value w = written cell value start log k := by
  induction log using List.reverseRecOn with
  | nil => exact .inl rfl
  | append_singleton log w ih =>
    rw [written_concat]
    split
    case isTrue hw => exact .inr ⟨w, by simp, hw, rfl⟩
    case isFalse =>
      refine ih.imp_right ?_
      rintro ⟨w, hmem, hw⟩
      exact ⟨w, List.mem_append_left _ hmem, hw⟩

/-- A cell that was written to holds something that was written to it. -/
theorem written_of_mem (hu : u ∈ log) (hk : cell u = k) :
    ∃ w ∈ log, cell w = k ∧ value w = written cell value start log k := by
  obtain ⟨pre, post, rfl⟩ := List.append_of_mem hu
  rw [List.append_cons, written_append]
  rcases @written_cases _ _ _ _ cell value (written cell value start (pre ++ [u])) post k with
    hsame | ⟨w, hw, hlast⟩
  · refine ⟨u, by simp, hk, ?_⟩
    rw [hsame, written_of_last hk (by simp)]
  · exact ⟨w, List.mem_append_right _ hw, hlast⟩

/-- **A value that is there although another was written was put back.** -/
theorem exists_later_write (h : written cell value start (log ++ u :: log') k = v) (hu : cell u = k)
    (hne : value u ≠ v) : ∃ w ∈ log', cell w = k ∧ value w = v := by
  have hafter : written cell value start (log ++ [u]) k = value u := written_of_last hu (by simp)
  rw [List.append_cons, written_append] at h
  rcases @written_cases _ _ _ _ cell value (written cell value start (log ++ [u])) log' k with hsame | hlater
  · exact absurd (hafter ▸ hsame ▸ h) hne
  · rwa [h] at hlater

/-! ### Parts of a log -/

variable {β : Type}

/-- An element of what was put together is one of either part. -/
theorem split_append {a b before rest : List β} {x : β}
    (h : a ++ b = before ++ x :: rest) :
    (∃ mid, a = before ++ x :: mid ∧ rest = mid ++ b) ∨ ∃ mid, b = mid ++ x :: rest := by
  rcases List.append_eq_append_iff.mp h with ⟨mid, -, hb⟩ | ⟨mid, ha, hrest⟩
  · exact .inr ⟨mid, hb⟩
  · cases mid with
    | nil => exact .inr ⟨[], hrest.symm⟩
    | cons y mid =>
      obtain ⟨rfl, rfl⟩ := List.cons.inj hrest
      exact .inl ⟨mid, ha, rfl⟩

/-- An element of a pair is the first of it or the last. -/
theorem split_pair {x y z : β} {before rest : List β}
    (h : [x, y] = before ++ z :: rest) :
    x = z ∧ rest = [y] ∨ y = z ∧ rest = [] := by
  cases before with
  | nil => exact .inl ⟨(List.cons.inj h).1, (List.cons.inj h).2.symm⟩
  | cons _ before =>
    obtain ⟨-, h⟩ := List.cons.inj h
    cases before with
    | nil => exact .inr ⟨(List.cons.inj h).1, (List.cons.inj h).2.symm⟩
    | cons _ before => cases (List.append_eq_nil_iff.mp (List.cons.inj h).2.symm).2

/-- An element of what was added to is an old one or the new one. -/
theorem split_concat {a before rest : List β} {x y : β} (h : a ++ [y] = before ++ x :: rest) :
    (∃ mid, a = before ++ x :: mid ∧ rest = mid ++ [y]) ∨ a = before ∧ y = x ∧ rest = [] := by
  refine (split_append h).imp_right ?_
  rintro ⟨mid, hmid⟩
  obtain ⟨rfl, hlast⟩ | ⟨last, rfl, hlast⟩ := List.append_eq_cons_iff.mp hmid.symm
  · obtain ⟨rfl, rfl⟩ := List.cons.inj hlast
    exact ⟨(List.append_cancel_right (h.trans (by simp))), rfl, rfl⟩
  · cases (List.append_eq_nil_iff.mp hlast.symm).2

end Foundations
