import Mathlib.Data.Nat.Log
import KdxHotline.Foundations.Bits
import KdxHotline.Transfer.Live

/-!
# Downloads

On a download the client knows which chunks it holds: it sends its bitmap with
the request and the server streams only the rest. The client's chunk size is kept
unless the file would need too many chunks; a fresh download then gets a larger
one (`KdxHotline.Transfer.downloadChunkSize`).
-/

namespace KdxHotline

namespace Transfer

open Foundations Storage Files Auth

/-- `u64::next_power_of_two`: the smallest power of two that is no smaller. -/
def nextPowerOfTwo (n : ℕ) : ℕ := 2 ^ Nat.clog 2 n

/-- The chunk size to serve `size` bytes with. A resume must keep its chunk size,
so it is refused where a fresh download gets the smallest power of two that fits. -/
def downloadChunkSize (size requested : ℕ) (resuming : Bool) : Except TransferError ℕ :=
  if chunkCount size requested ≤ maxTotalChunks then .ok requested
  else do
    refuseIf resuming .badChunkSize
    let needed := nextPowerOfTwo ((size + (maxTotalChunks - 1)) / maxTotalChunks)
    refuseIf (decide (maxChunk < needed)) .tooLarge
    return needed

/-- A live download. -/
structure ActiveDownload where
  id : Uuid
  size : ℕ
  chunkSize : ℕ
  totalChunks : ℕ
  sha256 : List UInt8
  /-- Chunks the client already holds. -/
  have_ : List Bool
  /-- Next index to consider sending. -/
  cursor : ℕ
  claim : ClaimKind
  deriving DecidableEq

/-- What the connection reports back for a download. -/
structure DownloadAccept where
  transferId : Uuid
  chunkSize : ℕ
  totalChunks : ℕ
  size : ℕ
  sha256 : List UInt8
  haveBitmap : List UInt8
  deriving DecidableEq

/-- The bytes of a copy of a bitmap that was resized to `total` bits. -/
def resizedBytes (total : ℕ) (bytes : List UInt8) : List UInt8 :=
  Bits.copyBytes total (Bits.resizeBytes total bytes)

/-- Drop a claim and fail. -/
def abandon {α : Type} (claim : ClaimKind) (e : TransferError) : Fallible Live TransferError α := do
  modify fun live => live.release claim
  check (.error e)

/-- Begin a download of `path`. `opened` says whether the stored file could be
opened, and `id` is the new download's. -/
def beginDownload (limits : TransferLimits) (tree : TreeState) (session : Session)
    (accountId path : String) (chunkSize : ℕ) (clientBitmap : List UInt8) (id : Uuid)
    (opened : Bool) : Fallible Live TransferError (ActiveDownload × DownloadAccept) := do
  check (refuseIf (!(decide (minChunk ≤ chunkSize) && decide (chunkSize ≤ maxChunk))) .badChunkSize)
  let node ← check ((tree.openForRead path session).mapError .tree)
  let _ ← check (required .unknownTransfer node.storagePath)
  let sha256 ← check (required .unknownTransfer (node.sha256.filter fun v => v.length == 32))
  let resuming := !clientBitmap.isEmpty
  let chunkSize ← check (downloadChunkSize node.size chunkSize resuming)
  -- the count is cast to a `u32`
  let total := chunkCount node.size chunkSize % 2 ^ 32
  let claim ← claimDownload limits accountId
  if opened then
    let have_ := Bits.resize total (Bits.ofBytes clientBitmap)
    return (⟨id, node.size, chunkSize, total, sha256, have_, 0, claim⟩,
      ⟨id, chunkSize, total, node.size, sha256,
        if resuming then resizedBytes total clientBitmap else []⟩)
  else abandon claim .io

/-- The length of a chunk of a download. -/
def ActiveDownload.chunkLen (d : ActiveDownload) (index : ℕ) : ℕ :=
  if index = d.totalChunks - 1 then
    if d.size % d.chunkSize = 0 then d.chunkSize else d.size % d.chunkSize
  else d.chunkSize

variable {size requested chunkSize total : ℕ} {resuming : Bool}

theorem le_nextPowerOfTwo (n : ℕ) : n ≤ nextPowerOfTwo n := Nat.le_pow_clog (by decide) n

/-- A chunk size gives at most `total` chunks if that many cover the file. -/
theorem chunkCount_le (hpos : 0 < chunkSize) :
    chunkCount size chunkSize ≤ total ↔ size ≤ total * chunkSize := by
  rw [chunkCount, max_eq_left hpos, Nat.div_le_iff_le_mul_add_pred hpos, Nat.mul_comm]
  omega

/-- **The chunk size served is in range, no smaller than requested, and gives no
more chunks than a bitmap has room for.** -/
theorem downloadChunkSize_ok (hmin : minChunk ≤ requested) (hmax : requested ≤ maxChunk)
    (h : downloadChunkSize size requested resuming = .ok chunkSize) :
    requested ≤ chunkSize ∧ chunkSize ≤ maxChunk ∧ chunkCount size chunkSize ≤ maxTotalChunks := by
  have hpos : 0 < requested := lt_of_lt_of_le (by decide) hmin
  unfold downloadChunkSize at h
  split at h
  · rename_i hfits
    obtain rfl := Except.ok.inj h
    exact ⟨le_refl _, hmax, hfits⟩
  · rename_i hfits
    obtain ⟨_, -, h⟩ := checks_pass.mp h
    obtain ⟨_, hlarge, h⟩ := checks_pass.mp h
    obtain rfl := Except.ok.inj h
    have hlarge := decide_eq_false_iff_not.mp (refuseIf_eq_ok.mp hlarge)
    rw [chunkCount_le hpos, Nat.not_le] at hfits
    generalize hn : (size + (maxTotalChunks - 1)) / maxTotalChunks = n at hlarge ⊢
    -- `n` chunks' worth of bytes per place of the bitmap cover the file
    have hcover : size ≤ maxTotalChunks * n := by
      have hdiv := Nat.div_add_mod (size + (maxTotalChunks - 1)) maxTotalChunks
      have hmod := Nat.mod_lt (size + (maxTotalChunks - 1)) (by decide : 0 < maxTotalChunks)
      rw [hn] at hdiv
      omega
    have hup := le_nextPowerOfTwo n
    have hless : requested < n := by
      by_contra hge
      have := Nat.mul_le_mul_left maxTotalChunks (Nat.le_of_not_lt hge)
      omega
    refine ⟨by omega, by omega, ?_⟩
    rw [chunkCount_le (by omega)]
    exact le_trans hcover (Nat.mul_le_mul_left _ hup)

theorem length_resizedBytes (bytes : List UInt8) :
    (resizedBytes total bytes).length = Bits.bytesFor total :=
  Bits.length_copyBytes.trans Bits.length_resizeBytes

/-- **The bitmap that is answered has the chunks below the end that the given one has, and no
others.** -/
theorem getD_resizedBytes (bytes : List UInt8) (i : ℕ) :
    (Bits.ofBytes (resizedBytes total bytes)).getD i false =
      (decide (i < total) && (Bits.ofBytes bytes).getD i false) := by
  rw [resizedBytes, Bits.getD_copyBytes Bits.length_resizeBytes]
  rcases Nat.lt_or_ge i total with hlt | hge
  · rw [Bits.getD_resizeBytes hlt]
  · rw [decide_eq_false (Nat.not_lt.mpr hge), Bool.false_and, Bool.false_and]

/-- The client's bits beyond the last chunk are not answered. -/
example : resizedBytes 3 [255] = [7] ∧ resizedBytes 3 [253] = [5] ∧
    resizedBytes 8 [255] = [255] ∧ resizedBytes 10 [1] = [1, 0] := by decide

/-- **What a download that begins says of itself.** -/
theorem beginDownload_returns {limits : TransferLimits} {tree : TreeState} {session : Session}
    {accountId path : String} {clientBitmap : List UInt8} {id : Uuid} {opened : Bool}
    {live live' : Live} {d : ActiveDownload} {accept : DownloadAccept}
    (h : Returns (beginDownload limits tree session accountId path requested clientBitmap id opened)
      live (d, accept) live') :
    ∃ node, tree.openForRead path session = .ok node ∧ minChunk ≤ requested ∧ requested ≤ maxChunk ∧
      downloadChunkSize node.size requested (!clientBitmap.isEmpty) = .ok accept.chunkSize ∧
      accept.size = node.size ∧ node.sha256 = some accept.sha256 ∧
      accept.totalChunks = chunkCount node.size accept.chunkSize ∧
      accept.haveBitmap.length ≤ Bits.bytesFor accept.totalChunks ∧
      (∀ i, (Bits.ofBytes accept.haveBitmap).getD i false =
        (decide (i < accept.totalChunks) && (Bits.ofBytes clientBitmap).getD i false)) ∧
      d.size = accept.size ∧ d.chunkSize = accept.chunkSize ∧ d.totalChunks = accept.totalChunks ∧
      d.sha256 = accept.sha256 ∧ d.cursor = 0 ∧
      d.have_ = Bits.resize accept.totalChunks (Bits.ofBytes clientBitmap) := by
  simp only [beginDownload, returns_bind, returns_check] at h
  obtain ⟨_, _, ⟨hrange, rfl⟩, node, _, ⟨hnode, rfl⟩, _, _, ⟨-, rfl⟩, sha256, _, ⟨hsha, rfl⟩, chunkSize, _,
    ⟨hchunk, rfl⟩, claim, live₁, -, h⟩ := h
  split at h
  · obtain ⟨he, -⟩ := returns_pure.mp h
    obtain ⟨rfl, rfl⟩ := Prod.mk.inj he
    have hrange := refuseIf_eq_ok.mp hrange
    simp only [Bool.not_eq_false', Bool.and_eq_true, decide_eq_true_eq] at hrange
    obtain ⟨hmin, hmax⟩ := hrange
    have hnode : tree.openForRead path session = .ok node := by
      cases ho : tree.openForRead path session with
      | error e => rw [ho] at hnode; cases hnode
      | ok n => rw [ho] at hnode; exact congrArg Except.ok (Except.ok.inj hnode)
    obtain ⟨-, -, hfew⟩ := downloadChunkSize_ok hmin hmax hchunk
    have htotal : chunkCount node.size chunkSize % 2 ^ 32 = chunkCount node.size chunkSize :=
      Nat.mod_eq_of_lt (lt_of_le_of_lt hfew (by decide))
    refine ⟨node, hnode, hmin, hmax, hchunk, rfl, ?_, htotal, ?_, fun i => ?_, rfl, rfl, rfl, rfl, rfl,
      rfl⟩
    · exact Option.eq_some_of_filter_eq_some (required_eq_ok.mp hsha)
    · dsimp only
      split
      · rw [length_resizedBytes]
      · exact Nat.zero_le _
    · dsimp only
      split
      case isTrue => exact getD_resizedBytes _ _
      case isFalse hfresh =>
        rw [Bool.not_eq_true, Bool.not_eq_false', List.isEmpty_iff] at hfresh
        rw [hfresh]
        exact (Bool.and_false _).symm
  · obtain ⟨_, _, -, h⟩ := returns_bind.mp h
    obtain ⟨h, -⟩ := returns_check.mp h
    cases h

end Transfer

end KdxHotline
