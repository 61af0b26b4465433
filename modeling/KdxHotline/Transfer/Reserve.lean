import KdxHotline.Transfer.Chunks
import KdxHotline.Transfer.Exclusive

/-!
# Reserved bytes

An upload reserves the bytes it may still write when it begins or is resumed, and keeps them until
it is let go of. A resume counts the chunks that arrived as if all were full, so it may reserve less
than is to come, by the shortfall of the last chunk. It is never off by more: what all live uploads
together may still write is reserved up to their shortfalls, in every run
(`KdxHotline.Transfer.missing_le_reserved`).
-/

namespace KdxHotline

namespace Transfer

open Foundations Storage

/-- The uploads that connections work on. -/
def UploadServer.uploads (c : UploadServer) : Multiset ActiveUpload :=
  c.owns.filterMap UploadTask.upload

/-- A task has reserved what its upload may still write, but for the shortfall of the last chunk. -/
def UploadTask.Backed (own : UploadTask) : Prop :=
  ∀ u ∈ own.upload, ∃ accountId destination bytes,
    own.claim = some (.upload accountId u.id destination bytes) ∧
      u.missing ≤ bytes + shortfall u.size u.chunkSize

section Backed

variable {sha256 : List UInt8 → List UInt8} {limits : TransferLimits} {s s' : UploadStore}
  {own own' : UploadTask} {label : UploadStep}

/-- The upload and the claim stay. -/
theorem UploadTask.Backed.keep (h : own.Backed) (hupload : own'.upload = own.upload)
    (hclaim : own'.claim = own.claim) : own'.Backed := by
  rw [UploadTask.Backed, hupload, hclaim]
  exact h

theorem backed_of_none (hupload : own.upload = none) : own.Backed := by
  rw [UploadTask.Backed, hupload]
  exact nofun

/-- A chunk arrives. -/
theorem missing_receive (u : ActiveUpload) (index : ℕ) : (u.receive index).missing ≤ u.missing :=
  missingBytes_le fun _ _ => hasChunk_markChunk_of

/-- What an upload still misses stays set aside in every move. -/
theorem backed_move (hmove : UploadMove sha256 limits label (s, own) (s', own')) (h : own.Backed) :
    own'.Backed := by
  cases hmove with
  | quiet hsame hown =>
    rcases hown with rfl | ⟨-, -, rfl⟩
    · exact h
    · exact h.keep rfl rfl
  | claimed hvacant => exact backed_of_none hvacant.upload
  | dropped => exact backed_of_none rfl
  | created hbegun hclaim =>
    intro u hu
    obtain rfl := Option.some.inj hu
    refine ⟨_, _, _, hbegun.id ▸ hclaim, ?_⟩
    -- a new upload misses all of its bytes, and has set that many aside
    rw [ActiveUpload.missing, hbegun.bitmap,
      missingBytes_replicate (shape_of_checkUploadShape hbegun.shape)]
    exact Nat.le_add_right _ _
  | started hrow hresumable hclaim =>
    intro u hu
    obtain rfl := Option.some.inj hu
    exact ⟨_, _, _, hclaim, missingBytes_le_remainingBytes (shape_of_checkUploadShape hresumable)⟩
  | stored hupload =>
    intro u' hu
    obtain rfl := Option.some.inj hu
    obtain ⟨accountId, destination, bytes, hclaim, hle⟩ := h _ hupload
    exact ⟨accountId, destination, bytes, hclaim, (missing_receive _ _).trans hle⟩
  | saved hupload =>
    intro u' hu
    obtain rfl := Option.some.inj hu
    have hbacked := h _ hupload
    exact hbacked
  | forgotten => exact backed_of_none rfl
  | held | unheld | listed | deleted | undeleted | removed | parted | sized | uncreated | read
  | rewritten | opened | unopened | torn | closed => exact h.keep rfl rfl
  | beside hblobs =>
    have hown := hblobs.frame.2
    exact h.keep (by rw [hown]) (by rw [hown])

end Backed

section Sums

variable {owns : Multiset UploadTask} {own : UploadTask}

/-- What all uploads miss is set aside, up to their shortfall. -/
theorem missing_le_claims (h : ∀ own ∈ owns, own.Backed) :
    ((owns.filterMap UploadTask.upload).map ActiveUpload.missing).sum ≤
      ((owns.bind UploadTask.claims).map ClaimKind.bytes).sum +
        ((owns.filterMap UploadTask.upload).map fun u => shortfall u.size u.chunkSize).sum := by
  induction owns using Multiset.induction with
  | empty => simp
  | cons own owns ih =>
    obtain ⟨hown, howns⟩ := Multiset.forall_mem_cons.mp h
    have hrest := ih howns
    rw [Multiset.cons_bind, Multiset.map_add, Multiset.sum_add]
    cases hupload : own.upload with
    | none =>
      rw [Multiset.filterMap_cons_none _ _ hupload]
      omega
    | some u =>
      rw [Multiset.filterMap_cons_some _ _ _ hupload, Multiset.map_cons, Multiset.map_cons,
        Multiset.sum_cons, Multiset.sum_cons]
      obtain ⟨accountId, destination, bytes, hclaim, hle⟩ := hown u hupload
      have hclaimed : bytes ≤ (own.claims.map ClaimKind.bytes).sum := by
        rw [UploadTask.claims, hclaim]
        simp [ClaimKind.bytes]
      omega

end Sums

section Runs

variable {sha256 : List UInt8 → List UInt8} {limits : TransferLimits} {s : UploadStore}
  {c : UploadServer} {turns : List (Foundations.Turn UploadRequest)}

/-- **What live uploads may still write is reserved**, up to how much shorter than the others the
last chunk of each is. -/
theorem missing_le_reserved (hs : s.live = .default) (hmax : limits.maxReservedBytes < u64Max)
    (h : Run (UploadServer.Takes sha256 limits) ⟨s, []⟩ turns c) :
    (c.uploads.map ActiveUpload.missing).sum ≤ c.shared.live.reservedBytes +
      (c.uploads.map fun u => shortfall u.size u.chunkSize).sum := by
  obtain ⟨-, hbooked⟩ := booked_run hs h
  rw [hbooked.books.reserved.sum hmax]
  exact missing_le_claims (owns_run (backed_of_none rfl) (fun hmove => backed_move hmove) h)

end Runs

open OneByte in
theorem missing_le_reserved_begun : ∃ c : UploadServer, run (turns.take 6) = some c ∧
    (c.uploads.map ActiveUpload.missing).sum ≤ c.shared.live.reservedBytes +
      (c.uploads.map fun u => shortfall u.size u.chunkSize).sum := by
  obtain ⟨c, hrun⟩ : ∃ c, run (turns.take 6) = some c := by
    have hsome : (run (turns.take 6)).isSome = true := by decide +kernel
    exact Option.isSome_iff_exists.mp hsome
  exact ⟨c, hrun, missing_le_reserved rfl (by decide) (run_of_perform hrun)⟩

end Transfer

end KdxHotline
