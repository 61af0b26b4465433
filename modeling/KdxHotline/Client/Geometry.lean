import KdxHotline.Files.Agreement
import KdxHotline.Transfer.Download

/-!
# The client's chunks

The client cuts files into chunks with arithmetic of its own, picks the chunk
size of an upload, and checks what a server announces before it creates anything
(`KdxHotline.Client.validateGeometry`). It cuts as the server does
(`KdxHotline.Client.Sized.chunkLen_eq`), and what the server announces for a
download passes the check for every file that is not larger than an upload may be
(`KdxHotline.Client.cuts_agree`).
-/

namespace KdxHotline

namespace Client

open Foundations Storage Files Auth Transfer

/-- Default chunk size the client requests. -/
def defaultChunkSize : ℕ := 32 * 1024
/-- Smallest chunk size any server may use. -/
def minChunkSize : ℕ := 4 * 1024
/-- Largest chunk size any server may use. -/
def maxChunkSize : ℕ := 256 * 1024
/-- Hard cap on a single transfer's size. -/
def maxTransferSize : ℕ := 16 * 1024 * 1024 * 1024
/-- Most chunks a transfer may have. -/
def maxTotalChunks : ℕ := 524280
/-- Chunk count the client aims to stay under when it picks a chunk size. -/
def targetTotalChunks : ℕ := 65536
/-- The largest `u32`. -/
def u32Max : ℕ := 2 ^ 32 - 1

/-- Number of chunks a file of `size` splits into at `chunkSize`. -/
def totalChunks (size chunkSize : ℕ) : ℕ :=
  if size = 0 ∨ chunkSize = 0 then 0
  else min ((size + (chunkSize - 1)) / chunkSize) u32Max

/-- Byte length of chunk `index` given the total size. -/
def chunkLen (size chunkSize index total : ℕ) : ℕ :=
  if total = 0 ∨ total ≤ index then 0
  else if index = total - 1 then
    if size % chunkSize = 0 then chunkSize else size % chunkSize
  else chunkSize

/-- Bytes needed for a bitmap of `total` chunks. -/
def bitmapBytes (total : ℕ) : ℕ := (total + 7) / 8

/-- Double the chunk size while that is called for, at most `fuel` times. -/
def growChunk (size : ℕ) : ℕ → ℕ → ℕ
  | 0, chunk => chunk
  | fuel + 1, chunk =>
    if chunk < maxChunkSize ∧ targetTotalChunks < totalChunks size chunk then
      growChunk size fuel (chunk * 2)
    else chunk

/-- Pick a chunk size for a file of `size` bytes. The third doubling of the default
is the maximum. -/
def chooseChunkSize (size : ℕ) : ℕ := growChunk size 3 defaultChunkSize

/-- Check the geometry a server announces. For an upload it must use the chunk size
asked for; for a download it may pick a larger one. -/
def validateGeometry (upload : Bool) (requestedChunk chunkSize total size echoBitmapLen : ℕ) :
    Except String Unit := do
  refuseIf (!(decide (minChunkSize ≤ chunkSize) && decide (chunkSize ≤ maxChunkSize)))
    ("server chose an invalid chunk size (" ++ chunkSize.repr ++ ")")
  refuseIf (upload && chunkSize != requestedChunk) "server changed the upload chunk size"
  refuseIf (!upload && decide (chunkSize < requestedChunk))
    "server chose a smaller chunk size than requested"
  refuseIf (decide (maxTransferSize < size))
    ("server announced an oversized file (" ++ size.repr ++ " bytes)")
  refuseIf (total != totalChunks size chunkSize) "server's chunk count does not match the file size"
  refuseIf (decide (maxTotalChunks < total)) "server announced too many chunks"
  refuseIf (decide (bitmapBytes total < echoBitmapLen))
    "server's chunk bitmap is longer than the chunk count"

variable {size chunkSize total index requested len : ℕ}

theorem validateGeometry_download : validateGeometry false requested chunkSize total size len = .ok () ↔
    minChunkSize ≤ chunkSize ∧ chunkSize ≤ maxChunkSize ∧ requested ≤ chunkSize ∧
      size ≤ maxTransferSize ∧ total = totalChunks size chunkSize ∧ total ≤ maxTotalChunks ∧
      len ≤ bitmapBytes total := by
  simp only [validateGeometry, checks_pass, refuseIf_eq_ok, exists_and_left, exists_const,
    Bool.not_eq_false', Bool.and_eq_true, Bool.not_false, Bool.true_and, Bool.false_and,
    decide_eq_true_eq, decide_eq_false_iff_not, not_lt, bne_eq_false_iff_eq, true_and, and_assoc]

/-! ### The same chunks on both sides -/

/-- A size and a chunk size both sides take. -/
structure Sized (size chunkSize : ℕ) : Prop where
  min : minChunk ≤ chunkSize
  max : chunkSize ≤ maxChunk
  size : size ≤ maxFileSize

namespace Sized

variable (h : Sized size chunkSize)
include h

theorem pos : 0 < chunkSize := lt_of_lt_of_le (by decide) h.min

/-- The number of chunks fits a `u32`, so neither side clamps it. -/
theorem totalChunks_eq : totalChunks size chunkSize = chunkCount size chunkSize := by
  have hpos := h.pos
  have hfits : chunkCount size chunkSize ≤ u32Max := by
    rw [chunkCount_le hpos]
    calc size ≤ maxFileSize := h.size
      _ ≤ u32Max * minChunk := by decide
      _ ≤ u32Max * chunkSize := Nat.mul_le_mul_left _ h.min
  rw [chunkCount, max_eq_left hpos] at *
  rw [totalChunks]
  by_cases hzero : size = 0
  · rw [if_pos (.inl hzero), hzero, Nat.zero_add, Nat.div_eq_of_lt (by omega)]
  · rw [if_neg (by omega), min_eq_left hfits]

theorem shape : Shape size chunkSize (totalChunks size chunkSize) := ⟨h.pos, h.totalChunks_eq⟩

omit h in
theorem chunkLen_eq (hindex : index < total) :
    chunkLen size chunkSize index total = expectedChunkLen size chunkSize total index := by
  rw [chunkLen, if_neg (by omega), expectedChunkLen]

/-- **The slices partition the file**: every byte lies in exactly one. -/
theorem existsUnique_slice {b : ℕ} (hb : b < size) :
    ∃! index, index < totalChunks size chunkSize ∧ index * chunkSize ≤ b ∧
      b < index * chunkSize + chunkLen size chunkSize index (totalChunks size chunkSize) := by
  obtain ⟨index, ⟨hindex, hle, hlt⟩, hunique⟩ := h.shape.existsUnique_chunk hb
  refine ⟨index, ⟨hindex, hle, ?_⟩, ?_⟩
  · rwa [chunkLen_eq hindex]
  · rintro i ⟨hi, hle, hlt⟩
    rw [chunkLen_eq hi] at hlt
    exact hunique i ⟨hi, hle, hlt⟩

end Sized

/-! ### The chunk size of an upload -/

/-- Growing stops at the maximum or at a modest count, with a doubled default. -/
theorem growChunk_spec : ∀ {fuel chunk : ℕ}, maxChunkSize = chunk * 2 ^ fuel →
    chunk ≤ growChunk size fuel chunk ∧ growChunk size fuel chunk ≤ maxChunkSize ∧
      (growChunk size fuel chunk = maxChunkSize ∨
        totalChunks size (growChunk size fuel chunk) ≤ targetTotalChunks)
  | 0, chunk, h => by
    have hchunk : chunk = maxChunkSize := by omega
    exact ⟨le_refl _, hchunk.le, .inl hchunk⟩
  | fuel + 1, chunk, h => by
    rw [growChunk]
    split
    · obtain ⟨hge, hle, hend⟩ := @growChunk_spec fuel (chunk * 2)
        (by rw [h, Nat.pow_succ', Nat.mul_assoc])
      exact ⟨by omega, hle, hend⟩
    · rename_i hstop
      have hle : chunk ≤ maxChunkSize := by
        rw [h]
        exact Nat.le_mul_of_pos_right _ (Nat.two_pow_pos _)
      refine ⟨le_refl _, hle, ?_⟩
      rcases Nat.eq_or_lt_of_le hle with heq | hlt
      · exact .inl heq
      · exact .inr (Nat.le_of_not_lt fun hmany => hstop ⟨hlt, hmany⟩)

/-- **The chunk size picked for an upload is one the server takes.** -/
theorem checkUploadShape_choose (hsize : size ≤ maxFileSize) :
    checkUploadShape size (chooseChunkSize size) =
      .ok (chunkCount size (chooseChunkSize size)) := by
  obtain ⟨hge, hle, hend⟩ := @growChunk_spec size 3 defaultChunkSize rfl
  have hmin : minChunk ≤ chooseChunkSize size := le_trans (by decide) hge
  have hsized : Sized size (chooseChunkSize size) := ⟨hmin, hle, hsize⟩
  refine checkUploadShape_eq_ok.mpr ⟨hmin, hle, hsize, ?_, rfl⟩
  rcases hend with hlargest | hfew
  · rw [chooseChunkSize, hlargest, chunkCount_le (by decide)]
    exact le_trans hsize (by decide)
  · rw [← hsized.totalChunks_eq]
    exact le_trans hfew (by decide)

/-! ### What the server announces -/

/-- **The client takes what the server announces for a download** exactly if the
stored file is not larger than an upload may be. -/
theorem validateGeometry_beginDownload {limits : TransferLimits} {tree : TreeState} {session : Session}
    {accountId path : String} {clientBitmap : List UInt8} {id : Uuid} {opened : Bool}
    {live live' : Live} {d : ActiveDownload} {accept : DownloadAccept}
    (h : Returns (beginDownload limits tree session accountId path requested clientBitmap id opened)
      live (d, accept) live') :
    validateGeometry false requested accept.chunkSize accept.totalChunks accept.size
      accept.haveBitmap.length = .ok () ↔ accept.size ≤ maxTransferSize := by
  obtain ⟨node, -, hmin, hmax, hchunk, hsize, -, htotal, hbitmap, -⟩ := beginDownload_returns h
  obtain ⟨hge, hle, hfew⟩ := downloadChunkSize_ok hmin hmax hchunk
  rw [validateGeometry_download, hsize, htotal]
  constructor
  · exact fun hall => hall.2.2.2.1
  · intro hsmall
    have hsized : Sized node.size accept.chunkSize := ⟨le_trans hmin hge, hle, hsmall⟩
    exact ⟨hsized.min, hle, hge, hsmall, hsized.totalChunks_eq.symm, hfew, htotal ▸ hbitmap⟩

/-- **Both sides cut files alike.** For every size and chunk size in range the
counts and lengths agree and the slices partition the file; the chunk size picked
for an upload is accepted; and what a download announces passes the client's check
for every stored file that is not larger than an upload may be. -/
theorem cuts_agree :
    (∀ size chunkSize, size ≤ maxFileSize → minChunk ≤ chunkSize → chunkSize ≤ maxChunk →
      totalChunks size chunkSize = chunkCount size chunkSize ∧
      (∀ index < totalChunks size chunkSize,
        chunkLen size chunkSize index (totalChunks size chunkSize) =
          expectedChunkLen size chunkSize (chunkCount size chunkSize) index ∧
        (∀ d : ActiveDownload, d.size = size → d.chunkSize = chunkSize →
          d.totalChunks = chunkCount size chunkSize →
          chunkLen size chunkSize index (totalChunks size chunkSize) = d.chunkLen index) ∧
        index * chunkSize + chunkLen size chunkSize index (totalChunks size chunkSize) ≤ size) ∧
      ∀ b < size, ∃! index, index < totalChunks size chunkSize ∧ index * chunkSize ≤ b ∧
        b < index * chunkSize + chunkLen size chunkSize index (totalChunks size chunkSize)) ∧
    (∀ size ≤ maxFileSize, ∃ total, checkUploadShape size (chooseChunkSize size) = .ok total) ∧
    ∀ limits tree session accountId path requested clientBitmap id opened live d accept live',
      Returns (beginDownload limits tree session accountId path requested clientBitmap id opened)
        live (d, accept) live' →
      (∃ node, tree.openForRead path session = .ok node ∧ accept.size = node.size) ∧
      (validateGeometry false requested accept.chunkSize accept.totalChunks accept.size
        accept.haveBitmap.length = .ok () ↔ accept.size ≤ maxFileSize) := by
  refine ⟨fun size chunkSize hsize hmin hmax => ?_, fun size hsize => ⟨_, checkUploadShape_choose hsize⟩,
    fun limits tree session accountId path requested clientBitmap id opened live d accept live' h => ?_⟩
  · have hsized : Sized size chunkSize := ⟨hmin, hmax, hsize⟩
    have hcount := hsized.totalChunks_eq
    refine ⟨hcount, fun index hindex => ?_, fun b hb => hsized.existsUnique_slice hb⟩
    have hlen : chunkLen size chunkSize index (totalChunks size chunkSize) =
        expectedChunkLen size chunkSize (totalChunks size chunkSize) index := Sized.chunkLen_eq hindex
    refine ⟨hcount ▸ hlen, fun d hd hc ht => ?_, ?_⟩
    · rw [hlen, expectedChunkLen, ActiveDownload.chunkLen, hd, hc, ht, hcount]
    · rw [hlen]
      exact hsized.shape.chunk_le hindex
  · obtain ⟨node, hnode, -, -, -, hsize, -⟩ := beginDownload_returns h
    exact ⟨⟨node, hnode, hsize⟩, validateGeometry_beginDownload h⟩

namespace Oversized

/-- A user who may do everything. -/
def visitor : Session := ⟨"visitor", .user, Privileges.all⟩

/-- A file of 17 GiB. -/
def file : Node :=
  ⟨"f", some rootId, "f", .file, 17 * 1024 * 1024 * 1024, some (List.replicate 32 0), .guest, .guest,
    some "blob", none, .default_, none⟩

/-- A tree with that file. -/
def tree : TreeState := TreeState.fresh.insertInMemory file

/-- The id of the download. -/
def id : Uuid := ⟨"00000000-0000-4000-8000-000000000033", by decide⟩

/-- The visitor asks for it, in the largest chunks. -/
def download : Fallible Live TransferError (ActiveDownload × DownloadAccept) :=
  beginDownload .default tree visitor "a" "/f" maxChunk [] id true

theorem openForRead_tree : tree.openForRead "/f" visitor = .ok file := by decide +kernel

theorem succeeds_download : Foundations.succeeds download .default = true := by decide +kernel

end Oversized

open Oversized in
/-- The server announces a file that the client refuses for its size: larger than
an upload may be, but not than a bitmap can cover. -/
theorem not_validated : ¬∀ limits tree session accountId path requested clientBitmap id opened live d
    (accept : DownloadAccept) live',
    Returns (beginDownload limits tree session accountId path requested clientBitmap id opened)
      live (d, accept) live' →
    validateGeometry false requested accept.chunkSize accept.totalChunks accept.size
      accept.haveBitmap.length = .ok () := by
  intro hall
  rcases returns_or_fails download .default with ⟨⟨d, accept⟩, live', hret⟩ | ⟨e, live', hfail⟩
  · have hvalid := hall _ _ _ _ _ _ _ _ _ _ d accept live' hret
    have hsmall := (validateGeometry_beginDownload hret).mp hvalid
    obtain ⟨node, hnode, -, -, -, hsize, -⟩ := beginDownload_returns hret
    obtain rfl := Except.ok.inj (openForRead_tree.symm.trans hnode)
    rw [hsize] at hsmall
    exact absurd hsmall (by decide)
  · have hok := succeeds_download
    unfold Foundations.succeeds at hok
    unfold Fails at hfail
    rw [hfail] at hok
    cases hok

theorem cuts_agree_small : totalChunks (3 * 4096 + 5) 4096 = chunkCount (3 * 4096 + 5) 4096 ∧
    ∃ total, checkUploadShape maxFileSize (chooseChunkSize maxFileSize) = .ok total :=
  ⟨(cuts_agree.1 (3 * 4096 + 5) 4096 (by decide) (by decide) (by decide)).1,
    cuts_agree.2.1 maxFileSize (le_refl _)⟩

end Client

end KdxHotline
