import Mathlib.Algebra.BigOperators.Group.List.Basic
import Mathlib.Algebra.Order.Group.MinMax
import Mathlib.Tactic.Abel

/-!
# Metering by a virtual clock

A payer's costs are metered by a clock of their own: a charge starts when the
clock or the present is, whichever is later, and moves the clock on by its cost;
it is payable once the clock is no more than a burst ahead of the present. What
becomes payable within a window is then at most the length of the window, and a
burst or the dearest charge (`Foundations.Metered.window`), however the charges
are placed.

The meter may be reset at any moment to a clock that is not behind
(`Foundations.Metered.mono`): a clock the present has overtaken need not be kept.
-/

namespace Foundations

variable {𝕜 : Type*} [AddCommGroup 𝕜] [LinearOrder 𝕜]

/-- A charge: the moment it became payable and what it cost. -/
structure Payment (𝕜 : Type*) where
  ready : 𝕜
  cost : 𝕜

/-- Where a charge leaves the clock. -/
def chargedClock (clock now cost : 𝕜) : 𝕜 := max clock now + cost

/-- Where charges, each made at a moment and of a cost, leave the clock. -/
def clockAfter (clock : 𝕜) (charges : List (𝕜 × 𝕜)) : 𝕜 :=
  charges.foldl (fun clock c => chargedClock clock c.1 c.2) clock

/-- When a charge that leaves the clock there is payable. -/
def payableAt (burst now clock : 𝕜) : 𝕜 := max (clock - burst) now

/-- What became payable from a moment on. -/
def spentSince (log : List (Payment 𝕜)) (start : 𝕜) : 𝕜 :=
  ((log.filter fun p => start ≤ p.ready).map Payment.cost).sum

/-- What became payable within a window. -/
def spentWithin (log : List (Payment 𝕜)) (start stop : 𝕜) : 𝕜 :=
  ((log.filter fun p => start ≤ p.ready ∧ p.ready ≤ stop).map Payment.cost).sum

/-- The charges of a log were metered by a clock: none is payable later than the
clock allows, and what became payable since a charge is paid for by the clock. -/
structure Metered (burst dearest now clock : 𝕜) (log : List (Payment 𝕜)) : Prop where
  ready_le : ∀ p ∈ log, p.ready ≤ payableAt burst now clock
  since : ∀ start, (∃ p ∈ log, start ≤ p.ready) →
    spentSince log start ≤ clock - start + max 0 (dearest - burst)
  window : ∀ start stop, start ≤ stop →
    spentWithin log start stop ≤ stop - start + max burst dearest

theorem clockAfter_concat (clock : 𝕜) (charges : List (𝕜 × 𝕜)) (c : 𝕜 × 𝕜) :
    clockAfter clock (charges ++ [c]) = chargedClock (clockAfter clock charges) c.1 c.2 :=
  List.foldl_concat _ _ _ _

section Log

variable {log : List (Payment 𝕜)} {p : Payment 𝕜} {start stop : 𝕜}

theorem spentSince_concat : spentSince (log ++ [p]) start
    = spentSince log start + if start ≤ p.ready then p.cost else 0 := by
  by_cases h : start ≤ p.ready <;> simp [spentSince, h]

theorem spentWithin_concat : spentWithin (log ++ [p]) start stop
    = spentWithin log start stop + if start ≤ p.ready ∧ p.ready ≤ stop then p.cost else 0 := by
  by_cases h : start ≤ p.ready ∧ p.ready ≤ stop
  · simp [spentWithin, h]
  · simp only [spentWithin, List.filter_append, List.map_append, List.sum_append, if_neg h]
    simp [h]

/-- A window that no charge is payable after is open-ended. -/
theorem spentWithin_eq_spentSince (h : ∀ q ∈ log, q.ready ≤ stop) :
    spentWithin log start stop = spentSince log start := by
  have hsame : log.filter (fun q => start ≤ q.ready ∧ q.ready ≤ stop)
      = log.filter fun q => start ≤ q.ready := by
    refine List.filter_congr fun q hq => ?_
    simp [h q hq]
  rw [spentWithin, hsame, spentSince]

/-- Nothing is payable from a moment on that no charge reaches. -/
theorem spentSince_eq_zero (h : ¬∃ q ∈ log, start ≤ q.ready) : spentSince log start = 0 := by
  have hnone : log.filter (fun q => start ≤ q.ready) = [] := by
    rw [List.filter_eq_nil_iff]
    rintro q hq hle
    exact h ⟨q, hq, by simpa using hle⟩
  rw [spentSince, hnone]
  rfl

end Log

namespace Metered

variable [IsOrderedAddMonoid 𝕜] {burst dearest now now' clock clock' cost : 𝕜}
  {log : List (Payment 𝕜)}

theorem nil (hburst : 0 ≤ burst) : Metered burst dearest now clock [] where
  ready_le := by simp
  since := by simp
  window start stop h := by
    have hmax : burst ≤ max burst dearest := le_max_left _ _
    simp only [spentWithin, List.filter_nil, List.map_nil, List.sum_nil]
    exact add_nonneg (sub_nonneg.mpr h) (hburst.trans hmax)

/-- **A meter may be reset to a clock that is not behind**, and time may pass. -/
theorem mono (h : Metered burst dearest now clock log) (hnow : now ≤ now') (hclock : clock ≤ clock') :
    Metered burst dearest now' clock' log where
  ready_le p hp :=
    (h.ready_le p hp).trans (max_le_max (sub_le_sub_right hclock _) hnow)
  since start hstart :=
    (h.since start hstart).trans
      (add_le_add_left (sub_le_sub_right hclock _) _)
  window := h.window

/-- **A charge keeps the meter.** -/
theorem charge (h : Metered burst dearest now clock log) (hdear : cost ≤ dearest)
    (hcost : 0 ≤ cost) :
    Metered burst dearest now (chargedClock clock now cost)
      (log ++ [⟨payableAt burst now (chargedClock clock now cost), cost⟩]) := by
  obtain ⟨clock', hclock'⟩ : ∃ c, chargedClock clock now cost = c := ⟨_, rfl⟩
  obtain ⟨ready, hready⟩ : ∃ r, payableAt burst now clock' = r := ⟨_, rfl⟩
  rw [hclock', hready]
  have hmove : clock + cost ≤ clock' := by
    rw [← hclock']
    exact add_le_add_left (le_max_left _ _) _
  have hnow : now + cost ≤ clock' := by
    rw [← hclock']
    exact add_le_add_left (le_max_right _ _) _
  have hlast : ∀ p ∈ log, p.ready ≤ ready := by
    intro p hp
    rw [← hready]
    have hle : clock ≤ clock' := (le_add_of_nonneg_right hcost).trans hmove
    exact (h.ready_le p hp).trans (max_le_max (sub_le_sub_right hle _) le_rfl)
  -- what the new charge and those payable with it cost is paid for by the clock
  have hsince : ∀ start, start ≤ ready →
      spentSince log start + cost ≤ clock' - start + max 0 (dearest - burst) := by
    intro start hstart
    by_cases hbefore : ∃ p ∈ log, start ≤ p.ready
    · have hspent := h.since start hbefore
      calc spentSince log start + cost
          ≤ clock - start + max 0 (dearest - burst) + cost := add_le_add_left hspent _
        _ = clock + cost - start + max 0 (dearest - burst) := by abel
        _ ≤ clock' - start + max 0 (dearest - burst) :=
          add_le_add_left (sub_le_sub_right hmove _) _
    · rw [spentSince_eq_zero hbefore, zero_add]
      rw [← hready, payableAt, le_max_iff] at hstart
      rcases hstart with hstart | hstart
      · calc cost ≤ dearest := hdear
          _ = burst + (dearest - burst) := by abel
          _ ≤ clock' - start + max 0 (dearest - burst) :=
            add_le_add (le_sub_comm.mp hstart) (le_max_right _ _)
      · calc cost ≤ clock' - now := le_sub_iff_add_le'.mpr hnow
          _ ≤ clock' - start := sub_le_sub_left hstart _
          _ ≤ clock' - start + max 0 (dearest - burst) := le_add_of_nonneg_right (le_max_left _ _)
  constructor
  case ready_le =>
    intro p hp
    rcases List.mem_append.mp hp with hp | hp
    · exact (hlast p hp).trans hready.ge
    · rw [List.mem_singleton.mp hp, hready]
  case since =>
    rintro start ⟨p, hp, hstart⟩
    have hle : start ≤ ready := by
      rcases List.mem_append.mp hp with hp | hp
      · exact hstart.trans (hlast p hp)
      · rwa [List.mem_singleton.mp hp] at hstart
    rw [spentSince_concat, if_pos hle]
    exact hsince start hle
  case window =>
    intro start stop hle
    rw [spentWithin_concat]
    split
    case isFalse => simpa using h.window start stop hle
    case isTrue hin =>
      -- the new charge is the last one payable, so the window is open-ended
      have hopen : spentWithin log start stop = spentSince log start :=
        spentWithin_eq_spentSince fun q hq => (hlast q hq).trans hin.2
      have hclock : clock' ≤ stop + burst := by
        have hahead : clock' - burst ≤ ready := hready ▸ le_max_left _ _
        exact sub_le_iff_le_add.mp (hahead.trans hin.2)
      calc spentWithin log start stop + cost
          ≤ clock' - start + max 0 (dearest - burst) := hopen ▸ hsince start hin.1
        _ ≤ stop + burst - start + max 0 (dearest - burst) :=
          add_le_add_left (sub_le_sub_right hclock _) _
        _ = stop - start + (burst + max 0 (dearest - burst)) := by abel
        _ = stop - start + max burst dearest := by
          rw [← max_add_add_left, add_zero, add_sub_cancel]

end Metered

end Foundations
