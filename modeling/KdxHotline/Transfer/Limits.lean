import KdxHotline.Files.Tree

/-!
# Transfers: their caps and their chunks

The constants a transfer is held to, the configurable caps, the errors, and how
a file is cut into chunks: all of one size except that the last one may be
shorter. The chunks tile the file: every byte lies in exactly one of them
(`KdxHotline.Transfer.chunk_of_byte`), and their lengths add up to its size
(`KdxHotline.Transfer.sum_chunkLen`).
-/

namespace KdxHotline

namespace Transfer

open Foundations Storage Files

/-! ### Constants and caps -/

/-- The largest `u64`. -/
def u64Max : ℕ := 2 ^ 64 - 1

/-- `u64::saturating_add`. -/
def saturatingAdd (a b : ℕ) : ℕ := min (a + b) u64Max

/-- Smallest chunk a client may request. -/
def minChunk : ℕ := 4 * 1024
/-- Largest chunk a client may request. -/
def maxChunk : ℕ := 256 * 1024
/-- Largest accepted file. -/
def maxFileSize : ℕ := 16 * 1024 * 1024 * 1024
/-- Most chunks a single transfer may span. -/
def maxTotalChunks : ℕ := 524280

/-- Caps on live and unfinished transfers. Times are in seconds. -/
structure TransferLimits where
  maxUploadsPerAccount : ℕ
  maxDownloadsPerAccount : ℕ
  maxConcurrentTransfers : ℕ
  maxOpenUploadsPerAccount : ℕ
  maxReservedBytes : ℕ
  minFreeSpace : ℕ
  staleAfter : ℕ
  bitmapFlushChunks : ℕ
  orphanRetention : Option ℕ
  deriving DecidableEq, Repr

/-- What the server runs with. -/
def TransferLimits.default : TransferLimits where
  maxUploadsPerAccount := 2
  maxDownloadsPerAccount := 4
  maxConcurrentTransfers := 64
  maxOpenUploadsPerAccount := 4
  maxReservedBytes := 64 * 1024 * 1024 * 1024
  minFreeSpace := 256 * 1024 * 1024
  staleAfter := 24 * 60 * 60
  bitmapFlushChunks := 256
  orphanRetention := some (30 * 24 * 60 * 60)

/-- Why a transfer fails. -/
inductive TransferError
  | tree (e : TreeError)
  | storage (e : StorageError)
  | io
  | badChunkSize
  | tooLarge
  | unknownTransfer
  | resumeMismatch
  | badChunkIndex
  | chunkHashMismatch
  | badChunkLength
  | fileHashMismatch
  | busy
  | tooManyTransfers
  | serverBusy
  | insufficientSpace
  deriving DecidableEq, Repr

/-! ### Chunks -/

/-- How many chunks a file takes. -/
def chunkCount (size chunkSize : ℕ) : ℕ := (size + (max chunkSize 1 - 1)) / max chunkSize 1

/-- Validate an upload's shape and return its chunk count. -/
def checkUploadShape (size chunkSize : ℕ) : Except TransferError ℕ := do
  refuseIf (!(decide (minChunk ≤ chunkSize) && decide (chunkSize ≤ maxChunk))) .badChunkSize
  refuseIf (decide (maxFileSize < size)) .tooLarge
  let chunks := chunkCount size chunkSize
  refuseIf (decide (maxTotalChunks < chunks)) .badChunkSize
  return chunks

/-- The length of a chunk, of a file cut into `totalChunks`. -/
def expectedChunkLen (size chunkSize totalChunks chunkIndex : ℕ) : ℕ :=
  if chunkIndex = totalChunks - 1 then
    if size % chunkSize = 0 then chunkSize else size % chunkSize
  else chunkSize

/-- A file of `size` bytes is cut into `total` chunks of `chunkSize` bytes. -/
structure Shape (size chunkSize total : ℕ) : Prop where
  pos : 0 < chunkSize
  total : total = chunkCount size chunkSize

/-- A shape is accepted just when it is within the caps. -/
theorem checkUploadShape_eq_ok {size chunkSize total : ℕ} :
    checkUploadShape size chunkSize = .ok total ↔ minChunk ≤ chunkSize ∧ chunkSize ≤ maxChunk ∧
      size ≤ maxFileSize ∧ total ≤ maxTotalChunks ∧ total = chunkCount size chunkSize := by
  simp only [checkUploadShape, checks_pass, refuseIf_eq_ok, exists_and_left, exists_const,
    Bool.not_eq_false', Bool.and_eq_true, decide_eq_true_eq, decide_eq_false_iff_not, not_lt, pure,
    Except.pure, Except.ok.injEq]
  constructor
  · rintro ⟨⟨hmin, hmax⟩, hsize, htotal, rfl⟩
    exact ⟨hmin, hmax, hsize, htotal, rfl⟩
  · rintro ⟨hmin, hmax, hsize, htotal, rfl⟩
    exact ⟨⟨hmin, hmax⟩, hsize, htotal, rfl⟩

/-- An accepted shape is one. -/
theorem shape_of_checkUploadShape {size chunkSize total : ℕ}
    (h : checkUploadShape size chunkSize = .ok total) : Shape size chunkSize total := by
  obtain ⟨hmin, -, -, -, htotal⟩ := checkUploadShape_eq_ok.mp h
  exact ⟨lt_of_lt_of_le (by decide) hmin, htotal⟩

namespace Shape

variable {size chunkSize total index : ℕ} (h : Shape size chunkSize total)
include h

/-- All but the last chunk are full, and the last one is not empty. -/
theorem bounds : size ≤ total * chunkSize ∧ (0 < total → (total - 1) * chunkSize < size) := by
  obtain ⟨hpos, rfl⟩ := h
  rw [chunkCount, max_eq_left hpos]
  have hmod := Nat.mod_lt (size + (chunkSize - 1)) hpos
  have hdiv := Nat.div_add_mod (size + (chunkSize - 1)) chunkSize
  rw [Nat.mul_comm] at hdiv
  refine ⟨by omega, fun hq => ?_⟩
  have hsub : ((size + (chunkSize - 1)) / chunkSize - 1) * chunkSize + chunkSize =
      (size + (chunkSize - 1)) / chunkSize * chunkSize := by
    rw [← Nat.succ_mul, Nat.succ_eq_add_one, Nat.sub_add_cancel hq]
  omega

/-- The length of the last chunk is what the others leave. -/
theorem expectedChunkLen_last (hq : 0 < total) :
    expectedChunkLen size chunkSize total (total - 1) = size - (total - 1) * chunkSize := by
  obtain ⟨hle, hlt⟩ := h.bounds
  have hlast := hlt hq
  have htop : total * chunkSize = (total - 1) * chunkSize + chunkSize := by
    rw [← Nat.succ_mul, Nat.succ_eq_add_one, Nat.sub_add_cancel hq]
  have hsize : size = (size - (total - 1) * chunkSize) + (total - 1) * chunkSize := by omega
  have hmod : size % chunkSize = (size - (total - 1) * chunkSize) % chunkSize := by
    conv_lhs => rw [hsize, Nat.add_mul_mod_self_right]
  rw [expectedChunkLen, if_pos rfl]
  by_cases hfull : size - (total - 1) * chunkSize = chunkSize
  · rw [hmod, hfull, Nat.mod_self, if_pos rfl]
  · rw [hmod, Nat.mod_eq_of_lt (by omega), if_neg (by omega)]

theorem expectedChunkLen_le : expectedChunkLen size chunkSize total index ≤ chunkSize := by
  rw [expectedChunkLen]
  have hmod := Nat.mod_lt size h.pos
  split
  · split <;> omega
  · exact le_refl _

/-- A chunk ends where the next one starts, the last one at the end of the file. -/
theorem chunk_end (hindex : index < total) :
    index * chunkSize + expectedChunkLen size chunkSize total index =
      min ((index + 1) * chunkSize) size := by
  obtain ⟨hle, hlt⟩ := h.bounds
  by_cases hlast : index = total - 1
  · subst hlast
    have htotal : total - 1 + 1 = total := by omega
    rw [h.expectedChunkLen_last (by omega), htotal]
    have := hlt (by omega)
    omega
  · rw [expectedChunkLen, if_neg hlast, Nat.succ_mul]
    have hnext : (index + 1) * chunkSize ≤ (total - 1) * chunkSize :=
      Nat.mul_le_mul_right _ (by omega)
    rw [Nat.succ_mul] at hnext
    have := hlt (by omega)
    omega

/-- A chunk lies inside the file. -/
theorem chunk_le (hindex : index < total) :
    index * chunkSize + expectedChunkLen size chunkSize total index ≤ size := by
  rw [h.chunk_end hindex]
  exact min_le_right _ _

/-- **Every byte lies in a chunk**, the one its position divided by the chunk size
says. -/
theorem chunk_of_byte {b : ℕ} (hb : b < size) : b / chunkSize < total ∧
    b % chunkSize < expectedChunkLen size chunkSize total (b / chunkSize) := by
  obtain ⟨hle, -⟩ := h.bounds
  have hindex : b / chunkSize < total := Nat.div_lt_of_lt_mul (by rw [Nat.mul_comm]; omega)
  refine ⟨hindex, ?_⟩
  have hend := h.chunk_end hindex
  have hdiv := Nat.div_add_mod b chunkSize
  have hmod := Nat.mod_lt b h.pos
  rw [Nat.mul_comm] at hdiv
  rw [Nat.succ_mul] at hend
  omega

/-- **The chunks partition the file**: every byte lies in exactly one. -/
theorem existsUnique_chunk {b : ℕ} (hb : b < size) : ∃! index, index < total ∧
    index * chunkSize ≤ b ∧ b < index * chunkSize + expectedChunkLen size chunkSize total index := by
  obtain ⟨hindex, hinside⟩ := h.chunk_of_byte hb
  have hdiv := Nat.div_add_mod b chunkSize
  rw [Nat.mul_comm] at hdiv
  refine ⟨b / chunkSize, ⟨hindex, by omega, by omega⟩, ?_⟩
  rintro i ⟨hi, hle, hlt⟩
  have hfull : expectedChunkLen size chunkSize total i ≤ chunkSize := h.expectedChunkLen_le
  have hnext := Nat.succ_mul i chunkSize
  exact ((Nat.div_eq_iff h.pos).mpr (by omega)).symm

/-- **The lengths of the first chunks add up** to the bytes before the next one. -/
theorem sum_chunkLen_range {n : ℕ} (hn : n ≤ total) :
    ((List.range n).map (expectedChunkLen size chunkSize total)).sum = min (n * chunkSize) size := by
  induction n with
  | zero => simp
  | succ n ih =>
    rw [List.range_succ, List.map_append, List.sum_append, ih (by omega), List.map_singleton,
      List.sum_singleton, ← h.chunk_end (by omega)]
    have hinside : n * chunkSize + expectedChunkLen size chunkSize total n ≤ size :=
      h.chunk_le (by omega)
    omega

theorem sum_chunkLen :
    ((List.range total).map (expectedChunkLen size chunkSize total)).sum = size := by
  rw [h.sum_chunkLen_range (le_refl _), min_eq_right h.bounds.1]

end Shape

end Transfer

end KdxHotline
