import Mathlib.Data.List.ReduceOption
import KdxHotline.Files.Agreement
import KdxHotline.Transfer.Download
import KdxHotline.Transfer.Throttle

/-!
# Streaming a download

The connection pulls the chunks of a download one at a time. A pull charges the account's
throttle, waits until the charge is payable, and reads the chunk in the background; while it
waits or reads it may be dropped, and the next one starts again from what the download kept:
its cursor, and the charge that is not used up (`KdxHotline.Transfer.Streaming.apply`).

Whatever is dropped and whatever fails, the pulls that complete give the chunks the client
does not have, each once and in order (`KdxHotline.Transfer.Streams`). Each is charged once: the
throttle's clock is where these charges, and those of other transfers, leave it
(`KdxHotline.Transfer.Accounted`). And a pull fails only if its read does
(`KdxHotline.Transfer.Answers`). All of it is `KdxHotline.Transfer.streams_missing`.
-/

namespace KdxHotline

namespace Transfer

open Foundations Storage Files Auth

/-- One chunk ready to send to the client. -/
structure DownloadChunk where
  index : ℕ
  hash : Vector UInt8 32
  data : List UInt8
  deriving DecidableEq

/-- Where a pull is: there is none, or it waits for its charge, or it reads. -/
inductive Pull
  | idle
  | waiting (index len : ℕ) (ready : ℚ)
  | reading (index len : ℕ)
  deriving DecidableEq

/-- A charge to the throttle. -/
structure Reservation where
  /-- The chunk of the download, or none for another transfer. -/
  chunk : Option ℕ
  bytes : ℕ
  time : ℚ
  deriving DecidableEq

/-- A download that is streamed, with the throttle it shares with others. -/
structure Streaming where
  download : ActiveDownload
  /-- The chunk that was charged last and when that was payable, until it is sent. -/
  charged : Option (ℕ × ℚ)
  bucket : TokenBucket
  now : ℚ
  pull : Pull
  /-- Every charge to the throttle since the download began. -/
  reservations : List Reservation
  /-- What the pulls that completed gave. -/
  answers : List (Except TransferError (Option DownloadChunk))

/-- What happens to a download: it is pulled from, the pull goes on or is dropped, time
passes, or another transfer of the account is charged. -/
inductive Pulling
  | nextChunk
  | wake
  | read (fails : Bool)
  | cancel
  | pass (time : ℚ)
  | other (bytes : ℕ)
  deriving DecidableEq

/-- The first index from `cursor` on that the client does not have. -/
def skipHeld (totalChunks : ℕ) (have_ : List Bool) : ℕ → ℕ → ℕ
  | 0, cursor => cursor
  | fuel + 1, cursor =>
    if cursor < totalChunks ∧ have_.getD cursor false = true then
      skipHeld totalChunks have_ fuel (cursor + 1)
    else cursor

/-- Read and hash `len` bytes at `offset`. -/
def readChunk (sha256 : List UInt8 → Vector UInt8 32) (file : List UInt8) (offset len : ℕ) :
    Except TransferError (List UInt8 × Vector UInt8 32) := do
  refuseIf (decide (file.length < offset + len)) .io
  let buf := (file.drop offset).take len
  return (buf, sha256 buf)

namespace Streaming

/-- A download before its first chunk. -/
def fresh (download : ActiveDownload) (bucket : TokenBucket) (now : ℚ) : Streaming :=
  ⟨download, none, bucket, now, .idle, [], []⟩

/-- Charge the throttle. -/
def reserve (chunk : Option ℕ) (bytes : ℕ) (s : Streaming) : ℚ × Streaming :=
  let (ready, bucket) := s.bucket.reserve bytes s.now
  (ready, { s with bucket, reservations := s.reservations ++ [⟨chunk, bytes, s.now⟩] })

/-- Charge a chunk. -/
def charge (index len : ℕ) (s : Streaming) : ℚ × Streaming :=
  let (ready, s) := s.reserve (some index) len
  (ready, { s with charged := some (index, ready) })

/-- When the chunk is payable. It is charged, unless it was already. -/
def readyAt (index len : ℕ) (s : Streaming) : ℚ × Streaming :=
  match s.charged with
  | some (charged, ready) => if charged = index then (ready, s) else s.charge index len
  | none => s.charge index len

/-- Pass over what the client already has. -/
def skip (s : Streaming) : Streaming :=
  let d := s.download
  { s with download := { d with
      cursor := skipHeld d.totalChunks d.have_ (d.totalChunks - d.cursor) d.cursor } }

/-- A pull completes. -/
def answer (s : Streaming) (outcome : Except TransferError (Option DownloadChunk)) : Streaming :=
  { s with answers := s.answers ++ [outcome] }

/-- A pull up to where it first waits. -/
def nextChunk (s : Streaming) : Streaming :=
  let s := s.skip
  let index := s.download.cursor
  if s.download.totalChunks ≤ index then s.answer (.ok none)
  else
    let len := s.download.chunkLen index
    let (ready, s) := s.readyAt index len
    { s with pull := if s.now < ready then .waiting index len ready else .reading index len }

/-- The end of a pull, when the read is done. -/
def finish (sha256 : List UInt8 → Vector UInt8 32) (file : List UInt8) (index len : ℕ)
    (fails : Bool) (s : Streaming) : Streaming :=
  let s := { s with pull := .idle }
  let offset := index * s.download.chunkSize
  match refuseIf fails .io >>= fun _ => readChunk sha256 file offset len with
  | .error e => s.answer (.error e)
  | .ok (data, hash) =>
    let s := { s with download := { s.download with cursor := index + 1 }, charged := none }
    s.answer (.ok (some ⟨index, hash, data⟩))

/-- What happens next, if it can. -/
def apply (sha256 : List UInt8 → Vector UInt8 32) (file : List UInt8) (s : Streaming) :
    Pulling → Option Streaming
  | .nextChunk => if s.pull = .idle then some s.nextChunk else none
  | .wake =>
    match s.pull with
    | .waiting index len ready => if ready ≤ s.now then some { s with pull := .reading index len } else none
    | _ => none
  | .read fails =>
    match s.pull with
    | .reading index len => some (s.finish sha256 file index len fails)
    | _ => none
  | .cancel => if s.pull = .idle then none else some { s with pull := .idle }
  | .pass time => if s.now ≤ time then some { s with now := time } else none
  | .other bytes => some (s.reserve none bytes).2

/-- One thing that happens to a download of a file. -/
def Step (sha256 : List UInt8 → Vector UInt8 32) (file : List UInt8) (s : Streaming) (e : Pulling)
    (t : Streaming) : Prop := s.apply sha256 file e = some t

/-- Every charge of this download: the chunk and how many bytes. -/
def charges (s : Streaming) : List (ℕ × ℕ) :=
  s.reservations.filterMap fun r => r.chunk.map fun index => (index, r.bytes)

/-- The chunks that were given. -/
def chunks (s : Streaming) : List DownloadChunk :=
  s.answers.filterMap fun answer => answer.toOption.join

/-- What the pulls gave that did not fail: chunks, then none. -/
def completed (s : Streaming) : List (Option ℕ) :=
  s.answers.filterMap fun answer => answer.toOption.map fun chunk => chunk.map DownloadChunk.index

@[simp] theorem charges_charge (s : Streaming) (index len : ℕ) :
    (s.charge index len).2.charges = s.charges ++ [(index, len)] :=
  List.filterMap_append

@[simp] theorem charges_other (s : Streaming) (bytes : ℕ) :
    (s.reserve none bytes).2.charges = s.charges :=
  List.filterMap_append.trans (List.append_nil _)

@[simp] theorem completed_answer_ok (s : Streaming) (chunk : Option DownloadChunk) :
    (s.answer (.ok chunk)).completed = s.completed ++ [chunk.map DownloadChunk.index] :=
  List.filterMap_append

@[simp] theorem completed_answer_error (s : Streaming) (e : TransferError) :
    (s.answer (.error e)).completed = s.completed :=
  List.filterMap_append.trans (List.append_nil _)

@[simp] theorem chunks_answer_some (s : Streaming) (chunk : DownloadChunk) :
    (s.answer (.ok (some chunk))).chunks = s.chunks ++ [chunk] :=
  List.filterMap_append

@[simp] theorem chunks_answer_none (s : Streaming) : (s.answer (.ok none)).chunks = s.chunks :=
  List.filterMap_append.trans (List.append_nil _)

@[simp] theorem chunks_answer_error (s : Streaming) (e : TransferError) :
    (s.answer (.error e)).chunks = s.chunks :=
  List.filterMap_append.trans (List.append_nil _)

/-- The indices of the chunks that were given are what the pulls gave. -/
theorem chunks_index (s : Streaming) : s.chunks.map DownloadChunk.index = s.completed.reduceOption := by
  rw [chunks, completed, List.reduceOption, List.map_filterMap, List.filterMap_filterMap]
  refine List.filterMap_congr fun answer _ => ?_
  rcases answer with e | none | chunk <;> rfl

end Streaming

/-! ### Skipping what the client has -/

section Skipping

variable {d : ActiveDownload} {fuel cursor next : ℕ}

/-- The chunks below an index that the client does not have. -/
def ActiveDownload.missingBelow (d : ActiveDownload) (n : ℕ) : List ℕ :=
  (List.range n).filter fun i => !d.have_.getD i false

/-- Skipping stops at the end or at a chunk that is missing, and passes only over chunks that
are not. -/
theorem skipHeld_spec (hfuel : cursor + fuel = d.totalChunks)
    (h : skipHeld d.totalChunks d.have_ fuel cursor = next) :
    cursor ≤ next ∧ next ≤ d.totalChunks ∧
      (∀ i, cursor ≤ i → i < next → d.have_.getD i false = true) ∧
      (next < d.totalChunks → d.have_.getD next false = false) := by
  induction fuel generalizing cursor with
  | zero =>
    obtain rfl : cursor = next := h
    exact ⟨le_refl _, by omega, fun i _ _ => by omega, fun _ => by omega⟩
  | succ fuel ih =>
    rw [skipHeld] at h
    split at h
    case isTrue hheld =>
      obtain ⟨hle, hend, hbetween, hstop⟩ := ih (by omega) h
      refine ⟨by omega, hend, fun i hi hlt => ?_, hstop⟩
      rcases Nat.eq_or_lt_of_le hi with rfl | hi
      · exact hheld.2
      · exact hbetween i hi hlt
    case isFalse hstop =>
      obtain rfl := h
      refine ⟨le_refl _, by omega, fun i _ _ => by omega, fun hlt => ?_⟩
      exact Bool.eq_false_iff.mpr fun hheld => hstop ⟨hlt, hheld⟩

/-- Chunks that the client has are not missing. -/
theorem missingBelow_skip (hle : cursor ≤ next)
    (hheld : ∀ i, cursor ≤ i → i < next → d.have_.getD i false = true) :
    d.missingBelow next = d.missingBelow cursor := by
  obtain ⟨k, rfl⟩ := Nat.exists_eq_add_of_le hle
  have hnone : ((List.range k).map (cursor + ·)).filter (fun i => !d.have_.getD i false) = [] := by
    refine List.filter_eq_nil_iff.mpr fun i hi => ?_
    obtain ⟨j, hj, rfl⟩ := List.mem_map.mp hi
    have hlt := List.mem_range.mp hj
    rw [hheld (cursor + j) (Nat.le_add_right _ _) (by omega)]
    exact Bool.false_ne_true
  rw [ActiveDownload.missingBelow, List.range_add, List.filter_append, hnone, List.append_nil]
  rfl

theorem missingBelow_succ (hmissing : d.have_.getD cursor false = false) :
    d.missingBelow (cursor + 1) = d.missingBelow cursor ++ [cursor] := by
  rw [ActiveDownload.missingBelow, List.range_succ, List.filter_append, List.filter_singleton,
    hmissing]
  rfl

end Skipping

/-! ### What every step keeps -/

section Steps

variable {d : ActiveDownload} {sha256 : List UInt8 → Vector UInt8 32} {file : List UInt8}
  {s t : Streaming}

/-- A chunk is its slice of the file. -/
structure IsSlice (d : ActiveDownload) (sha256 : List UInt8 → Vector UInt8 32) (file : List UInt8)
    (chunk : DownloadChunk) : Prop where
  data : chunk.data = (file.drop (chunk.index * d.chunkSize)).take (d.chunkLen chunk.index)
  length : chunk.data.length = d.chunkLen chunk.index
  hash : chunk.hash = sha256 chunk.data

/-- What is read is the slice. -/
theorem isSlice_of_read {index : ℕ} {data : List UInt8} {hash : Vector UInt8 32}
    (h : readChunk sha256 file (index * d.chunkSize) (d.chunkLen index) = .ok (data, hash)) :
    IsSlice d sha256 file ⟨index, hash, data⟩ := by
  obtain ⟨_, hlong, hread⟩ := checks_pass.mp h
  obtain ⟨rfl, rfl⟩ := Prod.mk.inj (Except.ok.inj hread)
  have hlong := decide_eq_false_iff_not.mp (refuseIf_eq_ok.mp hlong)
  have hlength : ((file.drop (index * d.chunkSize)).take (d.chunkLen index)).length =
      d.chunkLen index := by
    rw [List.length_take, List.length_drop]
    omega
  exact ⟨rfl, hlength, rfl⟩

/-- The chunk at the cursor is the next one to send. -/
structure Due (d : ActiveDownload) (cursor index : ℕ) : Prop where
  cursor : index = cursor
  inside : index < d.totalChunks
  missing : d.have_.getD index false = false

/-- How far a download has come: all that is missing below its cursor was given, and charged,
and at most the chunk at the cursor is charged besides. -/
structure Streams (d : ActiveDownload) (sha256 : List UInt8 → Vector UInt8 32) (file : List UInt8)
    (s : Streaming) : Prop where
  same : s.download = { d with cursor := s.download.cursor }
  inside : s.download.cursor ≤ d.totalChunks
  given : ∃ m, s.completed = (d.missingBelow s.download.cursor).map some ++ List.replicate m none ∧
    (m ≠ 0 → s.download.cursor = d.totalChunks)
  pulled : ∀ index len, s.pull = .reading index len ∨ (∃ ready, s.pull = .waiting index len ready) →
    len = d.chunkLen index ∧ ∃ ready, s.charged = some (index, ready)
  pending : ∀ index ready, s.charged = some (index, ready) → Due d s.download.cursor index
  charges : s.charges = s.chunks.map (fun c => (c.index, d.chunkLen c.index)) ++
    s.charged.toList.map fun c => (c.1, d.chunkLen c.1)
  slices : ∀ chunk ∈ s.chunks, IsSlice d sha256 file chunk

theorem streams_fresh (hcursor : d.cursor = 0) (bucket : TokenBucket) (now : ℚ) :
    Streams d sha256 file (.fresh d bucket now) where
  same := rfl
  inside := by rw [Streaming.fresh, hcursor]; exact Nat.zero_le _
  given := ⟨0, by rw [Streaming.fresh, hcursor]; rfl, fun h => absurd rfl h⟩
  pulled := by rintro index len (h | ⟨ready, h⟩) <;> cases h
  pending := nofun
  charges := rfl
  slices := nofun

namespace Streams

theorem chunkLen_eq (h : Streams d sha256 file s) (index : ℕ) :
    s.download.chunkLen index = d.chunkLen index := by
  rw [h.same]
  rfl

theorem totalChunks_eq (h : Streams d sha256 file s) : s.download.totalChunks = d.totalChunks := by
  rw [h.same]

/-- Passing over what the client has changes nothing but the cursor, and leaves it at a chunk
that is missing, unless it is at the end. -/
theorem skip (h : Streams d sha256 file s) : Streams d sha256 file s.skip ∧
    (s.skip.download.cursor < d.totalChunks → Due d s.skip.download.cursor s.skip.download.cursor) := by
  have hcursor : skipHeld d.totalChunks d.have_ (d.totalChunks - s.download.cursor) s.download.cursor =
      s.skip.download.cursor := by
    rw [Streaming.skip, h.totalChunks_eq, h.same]
  obtain ⟨hle, hend, hheld, hstop⟩ := skipHeld_spec (Nat.add_sub_of_le h.inside) hcursor
  refine ⟨?_, fun hlt => ⟨rfl, hlt, hstop hlt⟩⟩
  constructor
  case same =>
    rw [Streaming.skip]
    dsimp only
    rw [h.same]
  case inside => exact hend
  case given =>
    obtain ⟨m, hgiven, hnone⟩ := h.given
    refine ⟨m, ?_, fun hm => by have := hnone hm; omega⟩
    rw [missingBelow_skip hle hheld]
    exact hgiven
  case pulled => exact h.pulled
  case pending =>
    intro index ready hcharged
    obtain ⟨hindex, hinside, hmissing⟩ := h.pending index ready hcharged
    -- a chunk that is charged is missing, so the cursor stays at it
    refine ⟨?_, hinside, hmissing⟩
    by_contra hne
    rw [hheld index (by omega) (by omega)] at hmissing
    cases hmissing
  case charges => exact h.charges
  case slices => exact h.slices

/-- With nothing missing any more a pull gives none. -/
theorem gives_none (h : Streams d sha256 file s) (hend : d.totalChunks ≤ s.download.cursor) :
    Streams d sha256 file (s.answer (.ok none)) := by
  obtain ⟨m, hgiven, -⟩ := h.given
  refine ⟨h.same, h.inside, ⟨m + 1, ?_, fun _ => Nat.le_antisymm h.inside hend⟩, h.pulled, h.pending,
    ?_, ?_⟩
  · rw [Streaming.completed_answer_ok, hgiven, List.replicate_succ', List.append_assoc]
    rfl
  · rw [Streaming.chunks_answer_none]
    exact h.charges
  · rw [Streaming.chunks_answer_none]
    exact h.slices

/-- **The chunk at the cursor is charged once**, however often it is asked for. -/
theorem readyAt (h : Streams d sha256 file s) {index len : ℕ} (hdue : Due d s.download.cursor index)
    (hlen : len = d.chunkLen index) :
    Streams d sha256 file (s.readyAt index len).2 ∧
      ∃ ready, (s.readyAt index len).2.charged = some (index, ready) := by
  cases hcharged : s.charged with
  | some charge =>
    obtain ⟨charged, ready⟩ := charge
    have hsame : charged = index := (h.pending charged ready hcharged).cursor.trans hdue.cursor.symm
    have hready : s.readyAt index len = (ready, s) := by
      rw [Streaming.readyAt, hcharged]
      exact if_pos hsame
    rw [hready]
    exact ⟨h, ready, by rw [hcharged, hsame]⟩
  | none =>
    have hready : s.readyAt index len = s.charge index len := by rw [Streaming.readyAt, hcharged]
    rw [hready]
    refine ⟨⟨h.same, h.inside, h.given, fun i l hp => ?_, fun i r hc => ?_, ?_, h.slices⟩, _, rfl⟩
    · obtain ⟨-, r, hr⟩ := h.pulled i l hp
      rw [hcharged] at hr
      cases hr
    · obtain ⟨rfl, -⟩ := Prod.mk.inj (Option.some.inj hc)
      exact hdue
    · have hbefore := h.charges
      rw [hcharged] at hbefore
      rw [Streaming.charges_charge, hbefore, hlen]
      simp [Streaming.charge, Streaming.reserve, Streaming.chunks]

/-- **A pull charges the chunk at the cursor, unless that is charged already**, and waits; or
it gives none at once. -/
theorem nextChunk (h : Streams d sha256 file s) : Streams d sha256 file s.nextChunk := by
  obtain ⟨hskip, hdue⟩ := h.skip
  rw [Streaming.nextChunk]
  dsimp only
  rw [hskip.totalChunks_eq]
  split
  case isTrue hend => exact hskip.gives_none hend
  case isFalse hless =>
    obtain ⟨hready, ready, hcharged⟩ := hskip.readyAt (hdue (Nat.lt_of_not_le hless))
      (hskip.chunkLen_eq _)
    refine ⟨hready.same, hready.inside, hready.given, fun index len hpull => ?_, hready.pending,
      hready.charges, hready.slices⟩
    have hwhich : index = s.skip.download.cursor ∧ len = s.skip.download.chunkLen index := by
      dsimp only at hpull
      split at hpull
      · rcases hpull with hpull | ⟨r, hpull⟩
        · cases hpull
        · obtain ⟨rfl, rfl, -⟩ := Pull.waiting.inj hpull
          exact ⟨rfl, rfl⟩
      · rcases hpull with hpull | ⟨r, hpull⟩
        · obtain ⟨rfl, rfl⟩ := Pull.reading.inj hpull
          exact ⟨rfl, rfl⟩
        · cases hpull
    obtain ⟨rfl, rfl⟩ := hwhich
    exact ⟨hskip.chunkLen_eq _, ready, hcharged⟩

/-- Dropping a pull, or going on with it, changes nothing else. -/
theorem setPull (h : Streams d sha256 file s) {pull : Pull}
    (hpull : ∀ index len, pull = .reading index len ∨ (∃ ready, pull = .waiting index len ready) →
      len = d.chunkLen index ∧ ∃ ready, s.charged = some (index, ready)) :
    Streams d sha256 file { s with pull := pull } :=
  ⟨h.same, h.inside, h.given, hpull, h.pending, h.charges, h.slices⟩

theorem setIdle (h : Streams d sha256 file s) : Streams d sha256 file { s with pull := .idle } := by
  refine h.setPull ?_
  rintro index len (hpull | ⟨ready, hpull⟩) <;> cases hpull

/-- A pull that fails leaves the chunk to the next one, and its charge with it. -/
theorem fails (h : Streams d sha256 file s) (e : TransferError) :
    Streams d sha256 file (s.answer (.error e)) := by
  refine ⟨h.same, h.inside, ?_, h.pulled, h.pending, ?_, ?_⟩
  · rw [Streaming.completed_answer_error]
    exact h.given
  · rw [Streaming.chunks_answer_error]
    exact h.charges
  · rw [Streaming.chunks_answer_error]
    exact h.slices

/-- **A pull that has read its chunk gives it**, and moves on to the next. -/
theorem gives_chunk (h : Streams d sha256 file s) (hidle : s.pull = .idle) {chunk : DownloadChunk}
    {ready : ℚ} (hcharged : s.charged = some (chunk.index, ready)) (hslice : IsSlice d sha256 file chunk) :
    Streams d sha256 file (Streaming.answer
      { s with download := { s.download with cursor := chunk.index + 1 }, charged := none }
      (.ok (some chunk))) := by
  obtain ⟨hcursor, hinside, hmissing⟩ := h.pending _ _ hcharged
  constructor
  case same =>
    change { s.download with cursor := chunk.index + 1 } = { d with cursor := chunk.index + 1 }
    rw [h.same]
  case inside => exact hinside
  case given =>
    -- a pull that found nothing came with the cursor at the end, where no chunk is pending
    obtain ⟨m, hgiven, hnone⟩ := h.given
    obtain rfl : m = 0 := by
      by_contra hm
      have := hnone hm
      omega
    refine ⟨0, ?_, fun hm => absurd rfl hm⟩
    rw [Streaming.completed_answer_ok]
    change s.completed ++ _ = (d.missingBelow (chunk.index + 1)).map some ++ []
    rw [hgiven, missingBelow_succ hmissing, ← hcursor]
    simp
  case pulled =>
    intro index len hpull
    change s.pull = _ ∨ (∃ ready, s.pull = _) at hpull
    rw [hidle] at hpull
    rcases hpull with hpull | ⟨r, hpull⟩ <;> cases hpull
  case pending => nofun
  case charges =>
    have hbefore := h.charges
    rw [Streaming.chunks_answer_some]
    change s.charges = (s.chunks ++ [chunk]).map _ ++ []
    rw [hbefore, hcharged]
    simp
  case slices =>
    rw [Streaming.chunks_answer_some]
    intro c hc
    rcases List.mem_append.mp hc with hc | hc
    · exact h.slices c hc
    · rw [List.mem_singleton.mp hc]
      exact hslice

/-- What the end of a read keeps. -/
theorem finish (h : Streams d sha256 file s) {index len : ℕ} (hreading : s.pull = .reading index len)
    (fails : Bool) : Streams d sha256 file (s.finish sha256 file index len fails) := by
  obtain ⟨rfl, ready, hcharged⟩ := h.pulled index len (.inl hreading)
  have hsize : s.download.chunkSize = d.chunkSize := by rw [h.same]
  rw [Streaming.finish]
  dsimp only
  split
  case h_1 e _ => exact h.setIdle.fails e
  case h_2 data hash hread =>
    obtain ⟨_, -, hread⟩ := checks_pass.mp hread
    rw [hsize] at hread
    exact h.setIdle.gives_chunk rfl hcharged (isSlice_of_read hread)

/-- **Every step keeps how far the download has come.** -/
theorem apply (h : Streams d sha256 file s) {e : Pulling} (hstep : s.apply sha256 file e = some t) :
    Streams d sha256 file t := by
  cases e with
  | nextChunk =>
    obtain ⟨-, ht⟩ := Option.ite_none_right_eq_some.mp hstep
    obtain rfl := Option.some.inj ht
    exact h.nextChunk
  | wake =>
    simp only [Streaming.apply] at hstep
    split at hstep
    case h_2 => cases hstep
    case h_1 index len ready hwaiting =>
      obtain ⟨-, ht⟩ := Option.ite_none_right_eq_some.mp hstep
      obtain rfl := Option.some.inj ht
      refine h.setPull ?_
      rintro i l (hpull | ⟨r, hpull⟩)
      · obtain ⟨rfl, rfl⟩ := Pull.reading.inj hpull
        exact h.pulled index len (.inr ⟨ready, hwaiting⟩)
      · cases hpull
  | read fails =>
    simp only [Streaming.apply] at hstep
    split at hstep
    case h_2 => cases hstep
    case h_1 index len hreading =>
      obtain rfl := Option.some.inj hstep
      exact h.finish hreading fails
  | cancel =>
    obtain ⟨-, ht⟩ := Option.ite_none_left_eq_some.mp hstep
    obtain rfl := Option.some.inj ht
    exact h.setIdle
  | pass time =>
    obtain ⟨-, ht⟩ := Option.ite_none_right_eq_some.mp hstep
    obtain rfl := Option.some.inj ht
    exact ⟨h.same, h.inside, h.given, h.pulled, h.pending, h.charges, h.slices⟩
  | other bytes =>
    obtain rfl := Option.some.inj hstep
    exact ⟨h.same, h.inside, h.given, h.pulled, h.pending,
      (Streaming.charges_other s bytes).trans h.charges, h.slices⟩

/-- **What a whole run keeps.** -/
theorem run (h : Streams d sha256 file s) {events : List Pulling}
    (hrun : Run (Streaming.Step sha256 file) s events t) : Streams d sha256 file t :=
  hrun.invariant (Streams d sha256 file) (fun _ _ _ h hstep => h.apply hstep) h

/-- The chunks that were given are those missing below the cursor. -/
theorem chunks_index (h : Streams d sha256 file s) :
    s.chunks.map DownloadChunk.index = d.missingBelow s.download.cursor := by
  obtain ⟨m, hgiven, -⟩ := h.given
  have hsome : ∀ l : List ℕ, (l.map some).reduceOption = l := fun l => by
    rw [List.reduceOption, List.filterMap_map]
    exact List.filterMap_some
  rw [Streaming.chunks_index, hgiven, List.reduceOption_append, List.reduceOption_replicate_none, hsome,
    List.append_nil]

/-- **What is charged is charged once.** -/
theorem charged_once (h : Streams d sha256 file s) : (s.charges.map Prod.fst).Nodup := by
  have hcharged : s.charges.map Prod.fst = d.missingBelow s.download.cursor ++
      s.charged.toList.map Prod.fst := by
    rw [h.charges, List.map_append, List.map_map, List.map_map, ← h.chunks_index]
    rfl
  rw [hcharged]
  refine List.nodup_append.mpr ⟨List.nodup_range.filter _, ?_, ?_⟩
  · cases s.charged with
    | none => exact List.nodup_nil
    | some charge => exact List.nodup_singleton _
  · intro i hi j hj
    obtain ⟨⟨index, ready⟩, hpending, rfl⟩ := List.mem_map.mp hj
    have hdue := h.pending index ready (Option.mem_toList.mp hpending)
    have hlt := List.mem_range.mp (List.mem_of_mem_filter hi)
    rw [hdue.cursor]
    omega

/-- **What was given so far is what is missing, in order, and then none.** -/
theorem completed_eq (h : Streams d sha256 file s) : s.completed =
    ((d.missingBelow d.totalChunks).map some ++ List.replicate s.completed.length none).take
      s.completed.length := by
  obtain ⟨m, hgiven, hnone⟩ := h.given
  rcases Nat.eq_zero_or_pos m with rfl | hm
  · -- the first of those that are missing
    rw [List.replicate_zero, List.append_nil] at hgiven
    have hpre : d.missingBelow s.download.cursor <+: d.missingBelow d.totalChunks := by
      obtain ⟨k, hk⟩ := Nat.exists_eq_add_of_le h.inside
      rw [ActiveDownload.missingBelow, ActiveDownload.missingBelow, hk, List.range_add, List.filter_append]
      exact List.prefix_append _ _
    obtain ⟨rest, hrest⟩ := hpre
    rw [← hrest, List.map_append, List.append_assoc, ← hgiven, List.take_left]
  · -- all of them, and some more pulls
    have hend := hnone (by omega)
    rw [hend] at hgiven
    have hlength : s.completed.length = ((d.missingBelow d.totalChunks).map some).length + m := by
      rw [hgiven, List.length_append, List.length_replicate]
    rw [hlength, List.take_length_add_append, List.take_replicate, Nat.min_eq_left (by omega), hgiven]

end Streams

/-! ### What the throttle was charged -/

/-- The bytes that another transfer was charged. -/
def Reservation.elsewhere (r : Reservation) : Option ℕ :=
  if r.chunk = none then some r.bytes else none

/-- The bytes that another transfer of the account was charged. -/
def Pulling.elsewhere : Pulling → Option ℕ
  | .other bytes => some bytes
  | _ => none

/-- The throttle was charged what was reserved, and nothing besides: its clock is where these
charges leave it. They were made in the order of their times, and those that are not for chunks of
the download are those of the other transfers. -/
structure Accounted (bucket : TokenBucket) (now : ℚ) (events : List Pulling) (s : Streaming) : Prop
    where
  rate : s.bucket.rate = bucket.rate
  burst : s.bucket.burst = bucket.burst
  clock : ∀ rate, bucket.rate = some rate → s.bucket.tat =
    clockAfter bucket.tat (s.reservations.map fun r => (r.time, r.bytes / rate))
  unlimited : bucket.rate = none → s.bucket.tat = bucket.tat
  others : s.reservations.filterMap Reservation.elsewhere = events.filterMap Pulling.elsewhere
  started : now ≤ s.now
  past : ∀ r ∈ s.reservations, now ≤ r.time ∧ r.time ≤ s.now
  ordered : (s.reservations.map Reservation.time).Pairwise (· ≤ ·)

/-- A step charges the throttle once, at most. -/
inductive Charges (s t : Streaming) : Option ℕ → Prop
  | none (hbucket : t.bucket = s.bucket) (hsame : t.reservations = s.reservations)
      (hnow : s.now ≤ t.now) : Charges s t none
  | one {chunk : Option ℕ} {bytes : ℕ} {elsewhere : Option ℕ}
      (hbucket : t.bucket = (s.bucket.reserve bytes s.now).2)
      (hnew : t.reservations = s.reservations ++ [⟨chunk, bytes, s.now⟩]) (hnow : t.now = s.now)
      (helsewhere : elsewhere = Reservation.elsewhere ⟨chunk, bytes, s.now⟩) : Charges s t elsewhere

theorem charges_readyAt (s : Streaming) (index len : ℕ) :
    Charges s (s.readyAt index len).2 none := by
  rw [Streaming.readyAt]
  split
  · split
    · exact .none rfl rfl le_rfl
    · exact .one rfl rfl rfl rfl
  · exact .one rfl rfl rfl rfl

/-- What a call charges. -/
theorem charges_nextChunk (s : Streaming) : Charges s s.nextChunk none := by
  rw [Streaming.nextChunk]
  dsimp only
  split
  · exact .none rfl rfl le_rfl
  · have hready := charges_readyAt s.skip s.skip.download.cursor
      (s.skip.download.chunkLen s.skip.download.cursor)
    cases hready with
    | none hbucket hsame hnow => exact .none hbucket hsame hnow
    | one hbucket hnew hnow helsewhere => exact .one hbucket hnew hnow helsewhere

theorem charges_finish (s : Streaming) (index len : ℕ) (fails : Bool) :
    Charges s (s.finish sha256 file index len fails) none := by
  rw [Streaming.finish]
  dsimp only
  split <;> exact .none rfl rfl le_rfl

/-- **What a step charges is what another transfer is charged, or at most one chunk.** -/
theorem charges_apply {e : Pulling} (hstep : s.apply sha256 file e = some t) :
    Charges s t e.elsewhere := by
  cases e with
  | nextChunk =>
    obtain ⟨-, ht⟩ := Option.ite_none_right_eq_some.mp hstep
    exact Option.some.inj ht ▸ charges_nextChunk s
  | wake =>
    simp only [Streaming.apply] at hstep
    split at hstep
    case h_2 => cases hstep
    case h_1 =>
      obtain ⟨-, ht⟩ := Option.ite_none_right_eq_some.mp hstep
      exact Option.some.inj ht ▸ .none rfl rfl le_rfl
  | read fails =>
    simp only [Streaming.apply] at hstep
    split at hstep
    case h_2 => cases hstep
    case h_1 index len _ => exact Option.some.inj hstep ▸ charges_finish s index len fails
  | cancel =>
    obtain ⟨-, ht⟩ := Option.ite_none_left_eq_some.mp hstep
    exact Option.some.inj ht ▸ .none rfl rfl le_rfl
  | pass time =>
    obtain ⟨hle, ht⟩ := Option.ite_none_right_eq_some.mp hstep
    exact Option.some.inj ht ▸ .none rfl rfl hle
  | other bytes => exact Option.some.inj hstep ▸ .one rfl rfl rfl rfl

namespace Accounted

variable {bucket : TokenBucket} {now : ℚ} {events : List Pulling} {e : Pulling}

/-- Before the first charge. -/
theorem fresh (d : ActiveDownload) (bucket : TokenBucket) (now : ℚ) :
    Accounted bucket now [] (.fresh d bucket now) where
  rate := rfl
  burst := rfl
  clock _ _ := rfl
  unlimited _ := rfl
  others := rfl
  started := le_rfl
  past := nofun
  ordered := .nil

/-- One charge more. -/
theorem reserve (h : Accounted bucket now events s) {chunk : Option ℕ} {bytes : ℕ}
    (hbucket : t.bucket = (s.bucket.reserve bytes s.now).2)
    (hnew : t.reservations = s.reservations ++ [⟨chunk, bytes, s.now⟩]) (hnow : t.now = s.now)
    (helsewhere : e.elsewhere = Reservation.elsewhere ⟨chunk, bytes, s.now⟩) :
    Accounted bucket now (events ++ [e]) t := by
  have hlimited {rate : ℚ} (hrate : bucket.rate = some rate) :=
    TokenBucket.reserve_limited (h.rate.trans hrate) bytes s.now
  have hunlimited (hnone : bucket.rate = none) :=
    TokenBucket.reserve_unlimited (h.rate.trans hnone) bytes s.now
  -- a charge moves the clock of a limited bucket and nothing else
  have hkept : t.bucket.rate = s.bucket.rate ∧ t.bucket.burst = s.bucket.burst := by
    rw [hbucket]
    cases hrate : bucket.rate with
    | none => rw [hunlimited hrate]; exact ⟨rfl, rfl⟩
    | some rate => rw [hlimited hrate]; exact ⟨rfl, rfl⟩
  constructor
  case rate => exact hkept.1.trans h.rate
  case burst => exact hkept.2.trans h.burst
  case clock =>
    intro rate hrate
    rw [hbucket, hlimited hrate, hnew, List.map_append, List.map_singleton, clockAfter_concat,
      ← h.clock rate hrate]
  case unlimited =>
    intro hnone
    rw [hbucket, hunlimited hnone]
    exact h.unlimited hnone
  case others =>
    rw [hnew, List.filterMap_append, List.filterMap_append, h.others, List.filterMap_cons,
      List.filterMap_cons, helsewhere]
    rfl
  case started => exact hnow ▸ h.started
  case past =>
    intro r hr
    rw [hnew, List.mem_append, List.mem_singleton] at hr
    rcases hr with hr | rfl
    · exact hnow ▸ h.past r hr
    · exact ⟨h.started, hnow.ge⟩
  case ordered =>
    rw [hnew, List.map_append, List.pairwise_append]
    -- all charges of before were made by now
    refine ⟨h.ordered, List.pairwise_singleton _ _, fun time htime time' htime' => ?_⟩
    obtain ⟨r, hr, rfl⟩ := List.mem_map.mp htime
    rw [List.mem_singleton.mp htime']
    exact (h.past r hr).2

/-- **What every step keeps of it.** -/
theorem step (h : Accounted bucket now events s) (hcharges : Charges s t e.elsewhere) :
    Accounted bucket now (events ++ [e]) t := by
  generalize helse : e.elsewhere = elsewhere at hcharges
  cases hcharges with
  | none hbucket hsame hnow =>
    refine ⟨hbucket ▸ h.rate, hbucket ▸ h.burst, hbucket ▸ hsame ▸ h.clock, hbucket ▸ h.unlimited, ?_,
      h.started.trans hnow, fun r hr => ?_, hsame ▸ h.ordered⟩
    · rw [hsame, h.others, List.filterMap_append, List.filterMap_cons, helse]
      exact (List.append_nil _).symm
    · obtain ⟨hafter, hbefore⟩ := h.past r (hsame ▸ hr)
      exact ⟨hafter, hbefore.trans hnow⟩
  | one hbucket hnew hnow helsewhere => exact h.reserve hbucket hnew hnow (helse.trans helsewhere)

/-- **What a whole run keeps of it.** -/
theorem run (hrun : Run (Streaming.Step sha256 file) (.fresh d bucket now) events s) :
    Accounted bucket now events s :=
  hrun.history (fresh d bucket now) fun _ h hstep => h.step (charges_apply hstep)

end Accounted

/-! ### What is answered -/

/-- What is answered in a step: none, if no chunk is missing any more; the chunk that was asked for,
when it has been read; or an error, if the read fails. A pull that begins, and one that is dropped,
is not answered. -/
inductive Answers (d : ActiveDownload) (sha256 : List UInt8 → Vector UInt8 32) (file : List UInt8)
    (s t : Streaming) : Pulling → Prop
  | none (hall : s.chunks.map DownloadChunk.index = d.missingBelow d.totalChunks)
      (h : t.answers = s.answers ++ [.ok none]) : Answers d sha256 file s t .nextChunk
  | begins {index : ℕ} (hdue : Due d t.download.cursor index)
      (hpull : (∃ ready, t.pull = .waiting index (d.chunkLen index) ready) ∨
        t.pull = .reading index (d.chunkLen index))
      (h : t.answers = s.answers) : Answers d sha256 file s t .nextChunk
  | chunk {chunk : DownloadChunk} (hpull : s.pull = .reading chunk.index (d.chunkLen chunk.index))
      (hdue : Due d s.download.cursor chunk.index) (hslice : IsSlice d sha256 file chunk)
      (h : t.answers = s.answers ++ [.ok (some chunk)]) : Answers d sha256 file s t (.read false)
  | error {index : ℕ} {fails : Bool} (hpull : s.pull = .reading index (d.chunkLen index))
      (hfails : fails = true ∨ file.length < index * d.chunkSize + d.chunkLen index)
      (h : t.answers = s.answers ++ [.error .io]) : Answers d sha256 file s t (.read fails)
  | quiet {e : Pulling} (hquiet : e ≠ .nextChunk ∧ ∀ fails, e ≠ .read fails)
      (h : t.answers = s.answers) : Answers d sha256 file s t e

namespace Streams

/-- What a call answers before it reads. -/
theorem answers_nextChunk (h : Streams d sha256 file s) :
    Answers d sha256 file s s.nextChunk .nextChunk := by
  obtain ⟨hskip, hdue⟩ := h.skip
  rw [Streaming.nextChunk]
  dsimp only
  rw [hskip.totalChunks_eq]
  split
  case isTrue hend =>
    refine .none ?_ rfl
    have hall := hskip.chunks_index
    rw [Nat.le_antisymm hskip.inside hend] at hall
    exact hall
  case isFalse hless =>
    have hdue := hdue (Nat.lt_of_not_le hless)
    obtain ⟨hready, -⟩ := hskip.readyAt hdue (hskip.chunkLen_eq _)
    have hsame : ∀ index len, (s.skip.readyAt index len).2.download = s.skip.download ∧
        (s.skip.readyAt index len).2.answers = s.answers := by
      intro index len
      rw [Streaming.readyAt]
      split
      · split <;> exact ⟨rfl, rfl⟩
      · exact ⟨rfl, rfl⟩
    obtain ⟨hdownload, hanswers⟩ := hsame s.skip.download.cursor
      (s.skip.download.chunkLen s.skip.download.cursor)
    rw [← hdownload] at hdue
    refine .begins hdue ?_ hanswers
    dsimp only
    rw [hdownload, hskip.chunkLen_eq]
    split
    · exact .inl ⟨_, rfl⟩
    · exact .inr rfl

/-- What a call answers when its read is over. -/
theorem answers_finish (h : Streams d sha256 file s) {index len : ℕ}
    (hreading : s.pull = .reading index len) (fails : Bool) :
    Answers d sha256 file s (s.finish sha256 file index len fails) (.read fails) := by
  obtain ⟨rfl, ready, hcharged⟩ := h.pulled index len (.inl hreading)
  have hsize : s.download.chunkSize = d.chunkSize := by rw [h.same]
  rw [Streaming.finish]
  dsimp only
  split
  case h_1 e hread =>
    rw [hsize] at hread
    cases fails with
    | true =>
      obtain rfl : e = .io := by
        cases hread
        rfl
      exact .error hreading (.inl rfl) rfl
    | false =>
      -- a read that does not fail finds the file too short
      have hfails : e = .io ∧ file.length < index * d.chunkSize + d.chunkLen index := by
        rw [readChunk] at hread
        by_cases hshort : file.length < index * d.chunkSize + d.chunkLen index
        · rw [decide_eq_true hshort] at hread
          cases hread
          exact ⟨rfl, hshort⟩
        · rw [decide_eq_false hshort] at hread
          cases hread
      obtain ⟨rfl, hshort⟩ := hfails
      exact .error hreading (.inr hshort) rfl
  case h_2 data hash hread =>
    obtain ⟨_, hfine, hread⟩ := checks_pass.mp hread
    obtain rfl := refuseIf_eq_ok.mp hfine
    rw [hsize] at hread
    exact .chunk hreading (h.pending _ _ hcharged)
      (isSlice_of_read hread) rfl

/-- **A pull whose read does not fail is answered with its chunk.** -/
theorem answers (h : Streams d sha256 file s) {e : Pulling} (hstep : s.apply sha256 file e = some t) :
    Answers d sha256 file s t e := by
  cases e with
  | nextChunk =>
    obtain ⟨-, ht⟩ := Option.ite_none_right_eq_some.mp hstep
    exact Option.some.inj ht ▸ h.answers_nextChunk
  | wake =>
    refine .quiet ⟨by simp, by simp⟩ ?_
    simp only [Streaming.apply] at hstep
    split at hstep
    case h_2 => cases hstep
    case h_1 =>
      obtain ⟨-, ht⟩ := Option.ite_none_right_eq_some.mp hstep
      exact Option.some.inj ht ▸ rfl
  | read fails =>
    simp only [Streaming.apply] at hstep
    split at hstep
    case h_2 => cases hstep
    case h_1 index len hreading => exact Option.some.inj hstep ▸ h.answers_finish hreading fails
  | cancel =>
    obtain ⟨-, ht⟩ := Option.ite_none_left_eq_some.mp hstep
    exact Option.some.inj ht ▸ .quiet ⟨by simp, by simp⟩ rfl
  | pass time =>
    obtain ⟨-, ht⟩ := Option.ite_none_right_eq_some.mp hstep
    exact Option.some.inj ht ▸ .quiet ⟨by simp, by simp⟩ rfl
  | other bytes => exact Option.some.inj hstep ▸ .quiet ⟨by simp, by simp⟩ rfl

end Streams

end Steps

/-- **A download gives what is missing, each chunk once, in order and charged once**, whichever
pulls are dropped or fail; and what it gives are the slices of the file, which partition it. The
client is told which chunks it is taken to have. The throttle is charged these chunks, and what other
transfers charge it. A pull that goes on to its end gives its chunk, unless the read fails. -/
theorem streams_missing {limits : TransferLimits} {tree : TreeState} {session : Session}
    {accountId path : String} {requested : ℕ} {clientBitmap : List UInt8} {id : Uuid} {opened : Bool}
    {live live' : Live} {d : ActiveDownload} {accept : DownloadAccept}
    (h : Returns (beginDownload limits tree session accountId path requested clientBitmap id opened)
      live (d, accept) live')
    (sha256 : List UInt8 → Vector UInt8 32) (file : List UInt8) (bucket : TokenBucket) (now : ℚ)
    {events : List Pulling} {s : Streaming}
    (hrun : Run (Streaming.Step sha256 file) (.fresh d bucket now) events s) :
    s.completed = ((((List.range accept.totalChunks).filter fun i =>
        !(Bits.ofBytes clientBitmap).getD i false).map some) ++
      List.replicate s.completed.length none).take s.completed.length ∧
    s.chunks.map DownloadChunk.index = s.completed.reduceOption ∧
    (∀ chunk ∈ s.chunks,
      chunk.data = (file.drop (chunk.index * accept.chunkSize)).take (d.chunkLen chunk.index) ∧
      chunk.data.length = d.chunkLen chunk.index ∧ chunk.hash = sha256 chunk.data ∧
      (chunk.index, d.chunkLen chunk.index) ∈ s.charges ∧
      (s.charges.map Prod.fst).count chunk.index = 1) ∧
    (∀ index < accept.totalChunks,
      index * accept.chunkSize + d.chunkLen index ≤ accept.size) ∧
    (∀ b < accept.size, ∃! index, index < accept.totalChunks ∧ index * accept.chunkSize ≤ b ∧
      b < index * accept.chunkSize + d.chunkLen index) ∧
    (∀ i, (Bits.ofBytes accept.haveBitmap).getD i false =
      (decide (i < accept.totalChunks) && (Bits.ofBytes clientBitmap).getD i false)) ∧
    Accounted bucket now events s ∧
    ∀ e t, Streaming.Step sha256 file s e t → Answers d sha256 file s t e := by
  obtain ⟨node, -, hmin, hmax, hchunk, hsize, -, htotal, -, htold, hdsize, hdchunk, hdtotal, -, hcursor,
    hhave⟩ := beginDownload_returns h
  have hstreams : Streams d sha256 file s := (streams_fresh hcursor bucket now).run hrun
  obtain ⟨hge, -, -⟩ := downloadChunkSize_ok hmin hmax hchunk
  have hshape : Shape accept.size accept.chunkSize accept.totalChunks :=
    ⟨lt_of_lt_of_le (lt_of_lt_of_le (by decide) hmin) hge, hsize ▸ htotal⟩
  have hlen : ∀ index, d.chunkLen index =
      expectedChunkLen accept.size accept.chunkSize accept.totalChunks index := by
    intro index
    rw [ActiveDownload.chunkLen, hdsize, hdchunk, hdtotal, expectedChunkLen]
  -- the bitmap was resized to the chunks, and below their number it says what the client said
  have hmissing : d.missingBelow d.totalChunks = (List.range accept.totalChunks).filter fun i =>
      !(Bits.ofBytes clientBitmap).getD i false := by
    rw [ActiveDownload.missingBelow, hdtotal, hhave]
    refine List.filter_congr fun i hi => ?_
    rw [Bits.getD_resize (List.mem_range.mp hi)]
  refine ⟨hmissing ▸ hstreams.completed_eq, s.chunks_index, fun chunk hchunk => ?_, fun index hindex => ?_,
    fun b hb => ?_, htold, .run hrun, fun e t hstep => hstreams.answers hstep⟩
  · obtain ⟨hdata, hlength, hhash⟩ := hstreams.slices chunk hchunk
    have hcharge : (chunk.index, d.chunkLen chunk.index) ∈ s.charges := by
      rw [hstreams.charges]
      exact List.mem_append_left _ (List.mem_map.mpr ⟨chunk, hchunk, rfl⟩)
    refine ⟨hdchunk ▸ hdata, hlength, hhash, hcharge, ?_⟩
    exact List.count_eq_one_of_mem hstreams.charged_once (List.mem_map.mpr ⟨_, hcharge, rfl⟩)
  · rw [hlen]
    exact hshape.chunk_le hindex
  · simp only [hlen]
    exact hshape.existsUnique_chunk hb

/-! A file of five bytes, pulled twice. -/

namespace FiveBytes

/-- A user who may do everything. -/
def visitor : Session := ⟨"visitor", .user, Privileges.all⟩

/-- A file of five bytes. -/
def file : Node :=
  ⟨"f", some rootId, "f", .file, 5, some (List.replicate 32 0), .guest, .guest, some "blob", none,
    .default_, none⟩

/-- A tree with that file. -/
def tree : TreeState := TreeState.fresh.insertInMemory file

/-- The id of the download. -/
def id : Uuid := ⟨"00000000-0000-4000-8000-000000000047", by decide⟩

/-- Begin to download the file. -/
def download : Fallible Live TransferError (ActiveDownload × DownloadAccept) :=
  beginDownload .default tree visitor "a" "/f" minChunk [] id true

/-- The download as it begins, and what the client is told. -/
def begun : ActiveDownload × DownloadAccept :=
  (⟨id, 5, minChunk, 1, List.replicate 32 0, [false], 0, .download "a"⟩,
    ⟨id, minChunk, 1, 5, List.replicate 32 0, []⟩)

theorem returns_download : Returns download .default begun (leaves download .default) := by
  have hbegun : outcome download .default = .ok begun := by decide +kernel
  have hends := ends_leaves download .default
  rw [hbegun] at hends
  exact hends

/-- A pull that is dropped while it reads, and then two that complete, while another transfer of the
account is charged. -/
def pulls : List Pulling :=
  [.nextChunk, .cancel, .other 64, .nextChunk, .read false, .nextChunk]

/-- What is left of it all, at one byte a second. -/
def pulled : Option Streaming :=
  perform (Streaming.apply (fun _ => Vector.replicate 32 0) [1, 2, 3, 4, 5])
    (.fresh begun.1 (.new 1 0) 0) pulls

theorem completed_pulled : pulled.map (fun s => (s.completed, s.reservations)) =
    some ([some 0, none], [⟨some 0, 5, 0⟩, ⟨none, 64, 0⟩]) := by decide +kernel

end FiveBytes

open FiveBytes in
/-- The throttle's clock is ahead by the five bytes, once, and by those of the other transfer. -/
theorem streams_missing_small : ∃ s, pulled = some s ∧ s.completed = [some 0, none] ∧
    (∀ chunk ∈ s.chunks, (s.charges.map Prod.fst).count chunk.index = 1) ∧ s.bucket.tat = 69 := by
  obtain ⟨s, hs, hboth⟩ := Option.map_eq_some_iff.mp completed_pulled
  obtain ⟨hcompleted, hreservations⟩ := Prod.mk.inj hboth
  have hrun : Run (Streaming.Step _ _) _ pulls s := run_of_perform hs
  obtain ⟨-, -, hchunks, -, -, -, haccounted, -⟩ := streams_missing returns_download _ _ _ _ hrun
  refine ⟨s, hs, hcompleted, fun chunk hc => (hchunks chunk hc).2.2.2.2, ?_⟩
  rw [haccounted.clock 1 rfl, hreservations]
  decide +kernel

end Transfer

end KdxHotline
