import Mathlib.Algebra.Order.BigOperators.Group.List
import Mathlib.Algebra.Order.Ring.Nat
import KdxHotline.Transfer.Store

/-!
# Chunks that are there

A bitmap marks chunks (`KdxHotline.Transfer.hasChunk`), and marking one marks no other. A chunk is
written at its own place of the file, and what is written there touches no other chunk
(`KdxHotline.Transfer.slice_writeAt_of_disjoint`).

What is still to be written is the sum of the lengths of the chunks that are not marked
(`KdxHotline.Transfer.ActiveUpload.missing`). A resume reserves less than that just when the file
ends in a short chunk which is marked while another is not
(`KdxHotline.Transfer.missing_le_remainingBytes_iff`).
-/

namespace KdxHotline

namespace Transfer

open Foundations Storage

/-! ### Bitmaps -/

section Bitmaps

variable {bitmap : List UInt8} {index i total : ℕ}

@[simp] theorem length_markChunk : (markChunk bitmap index).length = bitmap.length :=
  List.length_modify _ _ _

/-- **Marking a chunk marks no other.** -/
theorem hasChunk_markChunk (hindex : index / 8 < bitmap.length) :
    hasChunk (markChunk bitmap index) i = (decide (i = index) || hasChunk bitmap i) := by
  rw [hasChunk, hasChunk, Bits.getD_ofBytes, Bits.getD_ofBytes, markChunk,
    List.getD_eq_getElem?_getD, List.getElem?_modify, List.getD_eq_getElem?_getD]
  by_cases hbyte : index / 8 = i / 8
  · rw [List.getElem?_eq_getElem (hbyte ▸ hindex), Option.map_eq_map, Option.map_some, if_pos hbyte,
      Option.getD_some, Option.getD_some, Bits.testBit_set _ (Nat.mod_lt _ (by decide))]
    have hsame : i % 8 = index % 8 ↔ i = index := by omega
    rw [decide_eq_decide.mpr hsame]
  · have hne : i ≠ index := fun he => hbyte (he ▸ rfl)
    simp only [if_neg hbyte, decide_eq_false hne, Bool.false_or, id_map']

/-- A marked chunk stays marked. -/
theorem hasChunk_markChunk_of (h : hasChunk bitmap i = true) :
    hasChunk (markChunk bitmap index) i = true := by
  rcases Nat.lt_or_ge (index / 8) bitmap.length with hlt | hge
  · rw [hasChunk_markChunk hlt, h, Bool.or_true]
  · rw [markChunk, List.modify_eq_self hge]
    exact h

theorem hasChunk_replicate (n : ℕ) : hasChunk (List.replicate n 0) i = false := by
  have hbyte : (List.replicate n (0 : UInt8)).getD (i / 8) 0 = 0 := by
    rw [List.getD_eq_getElem?_getD, List.getElem?_replicate]
    split <;> rfl
  rw [hasChunk, Bits.getD_ofBytes, hbyte]
  exact Nat.zero_testBit _

/-- A bitmap that is cut or filled up marks the chunks it marked. -/
theorem hasChunk_resizeBytes (hi : i < total) :
    hasChunk (Bits.resizeBytes total bitmap) i = hasChunk bitmap i :=
  Bits.getD_resizeBytes hi

/-- One number more is counted. -/
theorem countP_range_insert {p : ℕ → Bool} (hlt : index < total) (hnew : p index = false) :
    (List.range total).countP (fun i => decide (i = index) || p i) =
      (List.range total).countP p + 1 := by
  induction total with
  | zero => exact absurd hlt (Nat.not_lt_zero _)
  | succ n ih =>
    rw [List.range_succ, List.countP_append, List.countP_append, List.countP_singleton,
      List.countP_singleton]
    rcases Nat.lt_succ_iff_lt_or_eq.mp hlt with hlt | rfl
    · rw [ih hlt, decide_eq_false (Nat.ne_of_gt hlt), Bool.false_or]
      omega
    · have hsame : (List.range index).countP (fun i => decide (i = index) || p i) =
          (List.range index).countP p := by
        refine List.countP_congr fun i hi => ?_
        rw [decide_eq_false (Nat.ne_of_lt (List.mem_range.mp hi)), Bool.false_or]
      simp [hsame, hnew]

theorem countChunks_markChunk (hindex : index / 8 < bitmap.length) (hlt : index < total)
    (hnew : hasChunk bitmap index = false) :
    countChunks (markChunk bitmap index) total = countChunks bitmap total + 1 := by
  simp only [countChunks, hasChunk_markChunk hindex]
  exact countP_range_insert hlt hnew

end Bitmaps

/-! ### Bytes -/

/-- The bytes from a place on. -/
def slice (bytes : List UInt8) (offset length : ℕ) : List UInt8 := (bytes.drop offset).take length

section Slices

variable {bytes data : List UInt8} {offset at_ length : ℕ}

theorem writeAt_eq (hinside : offset + data.length ≤ bytes.length) :
    writeAt bytes offset data = bytes.take offset ++ data ++ bytes.drop (offset + data.length) := by
  rw [writeAt, Nat.sub_eq_zero_of_le (by omega), List.replicate_zero, List.append_nil]

theorem length_writeAt (hinside : offset + data.length ≤ bytes.length) :
    (writeAt bytes offset data).length = bytes.length := by
  rw [writeAt_eq hinside, List.length_append, List.length_append, List.length_take,
    List.length_drop]
  omega

/-- What was written is there. -/
theorem slice_writeAt (hinside : offset + data.length ≤ bytes.length) :
    slice (writeAt bytes offset data) offset data.length = data := by
  have hlength : (bytes.take offset).length = offset := by
    rw [List.length_take]
    omega
  rw [slice, writeAt_eq hinside, List.append_assoc, List.drop_left' hlength, List.take_left' rfl]

/-- **What is elsewhere stays.** -/
theorem slice_writeAt_of_disjoint (hinside : offset + data.length ≤ bytes.length)
    (hapart : at_ + length ≤ offset ∨ offset + data.length ≤ at_) :
    slice (writeAt bytes offset data) at_ length = slice bytes at_ length := by
  refine List.ext_getElem? fun k => ?_
  rw [slice, slice, List.getElem?_take, List.getElem?_take]
  split
  case isFalse => rfl
  case isTrue hk =>
    rw [List.getElem?_drop, List.getElem?_drop, writeAt_eq hinside]
    rcases hapart with hbefore | hafter
    · rw [List.getElem?_append_left (by
        rw [List.length_append, List.length_take]
        omega), List.getElem?_append_left (by
        rw [List.length_take]
        omega), List.getElem?_take_of_lt (by omega)]
    · rw [List.getElem?_append_right (by
        rw [List.length_append, List.length_take]
        omega), List.getElem?_drop, List.length_append, List.length_take]
      congr 1
      omega

end Slices

/-! ### Bytes still to come -/

/-- The bytes of the chunks that are not marked. -/
def missingBytes (size chunkSize total : ℕ) (bitmap : List UInt8) : ℕ :=
  ((List.range total).map fun i =>
    if hasChunk bitmap i then 0 else expectedChunkLen size chunkSize total i).sum

/-- The bytes of the chunks that have not arrived. -/
def ActiveUpload.missing (u : ActiveUpload) : ℕ :=
  missingBytes u.size u.chunkSize u.totalChunks u.bitmap

section Missing

variable {size chunkSize total : ℕ} {bitmap bitmap' : List UInt8}

/-- Marking chunks leaves no more to come. -/
theorem missingBytes_le (h : ∀ i < total, hasChunk bitmap i = true → hasChunk bitmap' i = true) :
    missingBytes size chunkSize total bitmap' ≤ missingBytes size chunkSize total bitmap := by
  refine List.sum_le_sum fun i hi => ?_
  by_cases hhas : hasChunk bitmap i = true
  · rw [if_pos hhas, if_pos (h i (List.mem_range.mp hi) hhas)]
  · rw [if_neg hhas]
    split
    · exact Nat.zero_le _
    · exact Nat.le_refl _

/-- All of a file is to come at first. -/
theorem missingBytes_replicate (h : Shape size chunkSize total) (n : ℕ) :
    missingBytes size chunkSize total (List.replicate n 0) = size := by
  simp only [missingBytes, hasChunk_replicate, Bool.false_eq_true, if_false]
  exact h.sum_chunkLen

/-- What a resume must count apart: the last chunk is short and marked, and another one is not. -/
def ShortByLast (size chunkSize total : ℕ) (bitmap : List UInt8) : Prop :=
  0 < total ∧ expectedChunkLen size chunkSize total (total - 1) < chunkSize ∧
    hasChunk bitmap (total - 1) = true ∧ countChunks bitmap total < total

/-- What is not selected and what is add up, where all are equal. -/
theorem sum_unless {p : ℕ → Bool} {f : ℕ → ℕ} {c n : ℕ} (hf : ∀ i < n, f i = c) :
    ((List.range n).map fun i => if p i then 0 else f i).sum + (List.range n).countP p * c =
      n * c := by
  induction n with
  | zero => simp
  | succ n ih =>
    have hbelow := ih fun i hi => hf i (Nat.lt_succ_of_lt hi)
    rw [List.range_succ, List.map_append, List.sum_append, List.countP_append, List.map_singleton,
      List.sum_singleton, List.countP_singleton, Nat.add_mul, Nat.succ_mul,
      hf n (Nat.lt_succ_self n)]
    by_cases hp : p n = true
    · rw [if_pos hp, if_pos hp, Nat.one_mul]
      omega
    · rw [if_neg hp, if_neg hp, Nat.zero_mul]
      omega

/-- What is marked and what is to come, the last chunk apart. -/
theorem missingBytes_succ {n : ℕ} (h : Shape size chunkSize (n + 1)) (bitmap : List UInt8) :
    ∃ k ≤ n, countChunks bitmap (n + 1) = k + (if hasChunk bitmap n then 1 else 0) ∧
      missingBytes size chunkSize (n + 1) bitmap + k * chunkSize =
        n * chunkSize + if hasChunk bitmap n then 0 else size - n * chunkSize := by
  have hfull : ∀ i < n, expectedChunkLen size chunkSize (n + 1) i = chunkSize := fun i hi => by
    rw [expectedChunkLen, Nat.add_sub_cancel, if_neg (Nat.ne_of_lt hi)]
  have hlast := h.expectedChunkLen_last (Nat.succ_pos n)
  rw [Nat.add_sub_cancel] at hlast
  have hsum := sum_unless (p := hasChunk bitmap) hfull
  refine ⟨(List.range n).countP (hasChunk bitmap), ?_, ?_, ?_⟩
  · simpa using List.countP_le_length (p := hasChunk bitmap) (l := List.range n)
  · have hcounted :
        countChunks bitmap (n + 1) = (List.range (n + 1)).countP (hasChunk bitmap) := rfl
    rw [hcounted, List.range_succ, List.countP_append, List.countP_singleton]
  · rw [missingBytes, List.range_succ, List.map_append, List.sum_append, List.map_singleton,
      List.sum_singleton, hlast]
    omega

/-- How much shorter than the others the last chunk is. -/
def shortfall (size chunkSize : ℕ) : ℕ :=
  if size % chunkSize = 0 then 0 else chunkSize - size % chunkSize

theorem expectedChunkLen_add_shortfall (h : Shape size chunkSize total) :
    expectedChunkLen size chunkSize total (total - 1) + shortfall size chunkSize = chunkSize := by
  have hmod := Nat.mod_lt size h.pos
  rw [expectedChunkLen, if_pos rfl, shortfall]
  split <;> omega

/-- **A resume reserves what is to come, but for the shortfall of the last chunk.** -/
theorem missingBytes_le_remainingBytes (h : Shape size chunkSize total) :
    missingBytes size chunkSize total bitmap ≤
      remainingBytes size chunkSize bitmap total + shortfall size chunkSize := by
  cases total with
  | zero => simp [missingBytes]
  | succ n =>
    obtain ⟨k, hk, hcount, hsum⟩ := missingBytes_succ h bitmap
    have hshort := expectedChunkLen_add_shortfall h
    rw [h.expectedChunkLen_last (Nat.succ_pos n), Nat.add_sub_cancel] at hshort
    have hstart := h.bounds.2 (Nat.succ_pos n)
    rw [Nat.add_sub_cancel] at hstart
    rw [remainingBytes, hcount]
    by_cases hmarked : hasChunk bitmap n = true
    · rw [if_pos hmarked] at hsum ⊢
      rw [Nat.add_mul, Nat.one_mul]
      omega
    · rw [if_neg hmarked] at hsum ⊢
      rw [Nat.add_mul, Nat.zero_mul]
      omega

/-- **What a resume reserves is enough** unless the short last chunk has overtaken another. -/
theorem missing_le_remainingBytes_iff (h : Shape size chunkSize total) :
    missingBytes size chunkSize total bitmap ≤ remainingBytes size chunkSize bitmap total ↔
      ¬ShortByLast size chunkSize total bitmap := by
  cases total with
  | zero => simp [missingBytes, ShortByLast]
  | succ n =>
    obtain ⟨k, hk, hcount, hsum⟩ := missingBytes_succ h bitmap
    have hshort := expectedChunkLen_add_shortfall h
    have hstart := h.bounds.2 (Nat.succ_pos n)
    rw [ShortByLast, remainingBytes, hcount]
    rw [h.expectedChunkLen_last (Nat.succ_pos n), Nat.add_sub_cancel] at hshort ⊢
    rw [Nat.add_sub_cancel] at hstart
    by_cases hmarked : hasChunk bitmap n = true
    · rw [if_pos hmarked] at hsum ⊢
      rw [Nat.add_mul, Nat.one_mul]
      rcases Nat.lt_or_eq_of_le hk with hlt | rfl
      · -- another chunk is missing, which the last one is counted for
        have hnext := Nat.mul_le_mul_right chunkSize (Nat.succ_le_of_lt hlt)
        rw [Nat.succ_mul] at hnext
        refine ⟨fun hle hby => ?_, fun hnot => ?_⟩
        · have hless := hby.2.1
          omega
        · have hfull : ¬size - n * chunkSize < chunkSize := fun hless =>
            hnot ⟨Nat.succ_pos n, hless, hmarked, by omega⟩
          omega
      · exact ⟨fun _ hby => Nat.lt_irrefl _ hby.2.2.2, fun _ => by omega⟩
    · rw [if_neg hmarked] at hsum ⊢
      rw [Nat.add_mul, Nat.zero_mul]
      exact ⟨fun _ hby => hmarked hby.2.2.1, fun _ => by omega⟩

/-- A file of 4097 bytes of which only the last one may have arrived. -/
theorem missing_le_remainingBytes_iff_last :
    (missingBytes 4097 4096 2 [0] ≤ remainingBytes 4097 4096 [0] 2 ↔ ¬ShortByLast 4097 4096 2 [0]) ∧
      (missingBytes 4097 4096 2 [2] ≤ remainingBytes 4097 4096 [2] 2 ↔
        ¬ShortByLast 4097 4096 2 [2]) :=
  have hshape : Shape 4097 4096 2 := ⟨by decide, by decide⟩
  ⟨missing_le_remainingBytes_iff hshape, missing_le_remainingBytes_iff hshape⟩

end Missing

end Transfer

end KdxHotline
