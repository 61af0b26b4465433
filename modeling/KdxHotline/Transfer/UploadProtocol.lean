import KdxHotline.Transfer.Uploads

/-!
# The upload protocol of one connection

A connection does, as far as its upload goes, what the machine of
`KdxHotline.Transfer.Uploads` does: the three places where the dispatch loop keeps an upload are
one slot (`KdxHotline.Transfer.Shows`), and every turn is a step of the machine
(`KdxHotline.Transfer.Shows.take`). What holds of every run of the machine holds of every run of
the connection (`KdxHotline.Transfer.upload_protocol`).

A client that sends a chunk while an upload it asked for is still unanswered may be refused, since
the server remembers only the last upload that it ended
(`KdxHotline.Transfer.chunk_refused_unsettled`).
-/

namespace KdxHotline

namespace Transfer

open Foundations Protocol Limits

/-! ### The slot and the three places -/

namespace Slot

/-- The upload between chunks. -/
def upload : Slot → Option TransferId
  | between id => some id
  | _ => none

/-- The chunk that is being written. -/
def chunkWrite : Slot → Option ChunkWrite
  | settling write => some write
  | _ => none

/-- The upload that is being finished. -/
def beingFinished : Slot → Option TransferId
  | finishing id => some id
  | _ => none

end Slot

/-- The machine shows the upload of a connection. -/
structure Shows (c : Connection) (u : Uploads) : Prop where
  upload : c.loop.upload = u.slot.upload
  chunkWrite : c.loop.chunkWrite = u.slot.chunkWrite
  finishing : c.loop.finishing = u.slot.beingFinished
  ended : c.loop.endedUpload = u.ended
  log : c.loop.log = u.log
  said : c.said = u.said
  read : c.read = u.read
  heard : c.heard = u.heard

/-- Nothing changed but the log and what has nothing to do with uploads. -/
structure Alike (s s' : DispatchLoop) (happenings : List Happening) : Prop where
  upload : s'.upload = s.upload
  chunkWrite : s'.chunkWrite = s.chunkWrite
  finishing : s'.finishing = s.finishing
  ended : s'.endedUpload = s.endedUpload
  log : s'.log = s.log ++ happenings

/-- What the client says in a turn. -/
def Turn.saying : Turn → Option Inbound
  | say message => some message
  | _ => none

variable {c c' : Connection} {u : Uploads} {s s' : DispatchLoop} {xs : List Happening} {number : ℕ}
  {work : Work} {message : Inbound} {turn : Turn}

/-! ### What the dispatch of a message does -/

namespace DispatchLoop

/-- A download that begins is answered plainly. -/
theorem startDownload_eq : ∃ m download, isPlain m = true ∧
    s.startDownload number work = { s.answer number m with download := download } := by
  rw [startDownload]
  by_cases hprivilege : (!s.privileges.contains Auth.Privileges.fileDownload) = true
  · rw [if_pos hprivilege]
    exact ⟨.error (.missingPrivilege "FILE_DOWNLOAD"), s.download, rfl, rfl⟩
  rw [if_neg hprivilege]
  by_cases hactive : s.download.isSome = true
  · rw [if_pos hactive]
    exact ⟨.error .downloadActive, s.download, rfl, rfl⟩
  rw [if_neg hactive]
  cases work.beginDownload with
  | ok accept => exact ⟨.downloadAccept accept, some accept.transferId, rfl, rfl⟩
  | error e => exact ⟨.error (.transfer e), s.download, rfl, rfl⟩

/-- A request for an upload is refused, or there was no upload and now there is. -/
theorem startUpload_eq {request : TransferRequest} :
    (∃ complaint, isPlain (.error complaint) = true ∧
      s.startUpload number work request = s.sendError number complaint) ∨
    s.upload = none ∧ s.finishing = none ∧ ∃ accept,
      s.startUpload number work request =
          { s.answer number (.uploadAccept accept) with finishing := some accept.transferId } ∨
        s.startUpload number work request =
          { s.answer number (.uploadAccept accept) with upload := some accept.transferId } := by
  rw [startUpload]
  by_cases hprivilege : (!s.privileges.contains Auth.Privileges.fileUpload) = true
  · rw [if_pos hprivilege]
    exact .inl ⟨.missingPrivilege "FILE_UPLOAD", rfl, rfl⟩
  rw [if_neg hprivilege]
  by_cases hactive : (s.upload.isSome || s.finishing.isSome) = true
  · rw [if_pos hactive]
    exact .inl ⟨.transferActive, rfl, rfl⟩
  rw [if_neg hactive]
  rw [Bool.not_eq_true, Bool.or_eq_false_iff, Option.isSome_eq_false_iff,
    Option.isSome_eq_false_iff, Option.isNone_iff_eq_none, Option.isNone_iff_eq_none] at hactive
  cases (do
      checkLen "path" request.path maxPathLen
      checkLen "file name" request.name maxFileNameLen : Except String Unit) with
  | error message => exact .inl ⟨.tooLong message, rfl, rfl⟩
  | ok =>
    cases work.beginUpload with
    | error e => exact .inl ⟨.transfer e, rfl, rfl⟩
    | ok begun =>
      obtain ⟨accept, complete⟩ := begun
      refine .inr ⟨hactive.1, hactive.2, accept, ?_⟩
      cases complete
      · exact .inr rfl
      · exact .inl rfl

/-- The answers to any other request. -/
theorem foldl_replies (replies : List (Except String (List UInt8))) :
    Alike s (replies.foldl (fun s reply => match reply with
      | .ok payload => s.answer number (.reply payload)
      | .error message => s.sendError number (.other message)) s)
      (replies.map fun reply => .sent (some number) (match reply with
        | .ok payload => .reply payload
        | .error message => .error (.other message))) := by
  induction replies generalizing s with
  | nil => exact ⟨rfl, rfl, rfl, rfl, (List.append_nil _).symm⟩
  | cons reply replies ih =>
    rw [List.foldl_cons, List.map_cons]
    cases reply with
    | ok payload =>
      obtain ⟨hupload, hwrite, hfinishing, hended, hlog⟩ := @ih (s.answer number (.reply payload))
      refine ⟨hupload, hwrite, hfinishing, hended, hlog.trans ?_⟩
      rw [answer, List.append_assoc, List.singleton_append]
    | error message =>
      obtain ⟨hupload, hwrite, hfinishing, hended, hlog⟩ :=
        @ih (s.sendError number (.other message))
      refine ⟨hupload, hwrite, hfinishing, hended, hlog.trans ?_⟩
      rw [sendError, answer, List.append_assoc, List.singleton_append]

end DispatchLoop

/-! ### Every turn is a step -/

namespace Shows

theorem new (privileges : Auth.Privileges) : Shows (.new privileges) .new :=
  ⟨rfl, rfl, rfl, rfl, rfl, rfl, rfl, rfl⟩

/-- Messages that answer none. -/
theorem push (h : Shows c u) (halike : Alike c.loop s' xs)
    (hplain : ∀ x ∈ xs, ∃ m, x = .sent none m ∧ isPlain m = true) :
    ∃ u', Uploads.Step u none u' ∧ Shows { c with loop := s' } u' :=
  ⟨_, .push u xs hplain, halike.upload.trans h.upload, halike.chunkWrite.trans h.chunkWrite,
    halike.finishing.trans h.finishing, halike.ended.trans h.ended,
    halike.log.trans (congrArg (· ++ xs) h.log), h.said, h.read, h.heard⟩

/-- A message is answered, or dropped. -/
theorem answer (h : Shows c u) (hslot : ∀ write, u.slot ≠ .settling write)
    (hsaid : c.said[c.read]? = some message) (halike : Alike c.loop s' xs)
    (hplain : ∀ x ∈ xs, ∃ m, x = .sent (some c.read) m ∧ isPlain m = true)
    (hone : xs.length ≤ 1 ∨ message = .other)
    (hchunk : ∀ data, message = .transferData data → xs = []) :
    ∃ u', Uploads.Step u none u' ∧ Shows { c with loop := s', read := c.read + 1 } u' := by
  rw [h.said, h.read] at hsaid
  rw [h.read] at hplain
  exact ⟨_, .answer u message xs hslot hsaid hplain hone hchunk, halike.upload.trans h.upload,
    halike.chunkWrite.trans h.chunkWrite, halike.finishing.trans h.finishing,
    halike.ended.trans h.ended, halike.log.trans (congrArg (· ++ xs) h.log), h.said,
    congrArg (· + 1) h.read, h.heard⟩

/-- A message other than a chunk gets one answer. -/
theorem answerOnce {m : Outbound} (h : Shows c u) (hslot : ∀ write, u.slot ≠ .settling write)
    (hsaid : c.said[c.read]? = some message) (hchunk : ∀ data, message ≠ .transferData data)
    (halike : Alike c.loop s' [.sent (some c.read) m]) (hplain : isPlain m = true) :
    ∃ u', Uploads.Step u none u' ∧ Shows { c with loop := s', read := c.read + 1 } u' :=
  h.answer hslot hsaid halike (fun _ hx => ⟨m, List.mem_singleton.mp hx, hplain⟩)
    (.inl (Nat.le_refl 1)) fun data he => absurd he (hchunk data)

/-- A message is dropped. -/
theorem drop (h : Shows c u) (hslot : ∀ write, u.slot ≠ .settling write)
    (hsaid : c.said[c.read]? = some message) (halike : Alike c.loop s' []) :
    ∃ u', Uploads.Step u none u' ∧ Shows { c with loop := s', read := c.read + 1 } u' :=
  h.answer hslot hsaid halike nofun (.inl (Nat.zero_le 1)) fun _ _ => rfl

/-- Is there no upload in progress, then the slot is idle. -/
theorem slot_idle (h : Shows c u) (hslot : ∀ write, u.slot ≠ .settling write)
    (hupload : c.loop.upload = none) (hfinishing : c.loop.finishing = none) : u.slot = .idle := by
  rw [h.upload] at hupload
  rw [h.finishing] at hfinishing
  cases hcase : u.slot with
  | idle => rfl
  | between id => rw [hcase] at hupload; cases hupload
  | settling write => exact absurd hcase (hslot write)
  | finishing id => rw [hcase] at hfinishing; cases hfinishing

theorem slot_between (h : Shows c u) {id : TransferId} (hupload : c.loop.upload = some id) :
    u.slot = .between id := by
  rw [h.upload] at hupload
  cases hcase : u.slot with
  | between => rw [hcase] at hupload; exact congrArg Slot.between (Option.some.inj hupload)
  | _ => rw [hcase] at hupload; cases hupload

/-- What is in progress while no chunk is settled. -/
theorem transfer_eq (h : Shows c u) (hslot : ∀ write, u.slot ≠ .settling write) {id : TransferId}
    (htransfer : u.slot.transfer = some id) : c.loop.upload = some id ∨ c.loop.finishing = some id := by
  rw [h.upload, h.finishing]
  cases hcase : u.slot with
  | idle => rw [hcase] at htransfer; cases htransfer
  | between => rw [hcase] at htransfer; exact .inl htransfer
  | settling write => exact absurd hcase (hslot write)
  | finishing => rw [hcase] at htransfer; exact .inr htransfer

/-- An upload that begins is one of the steps. -/
theorem startUpload (h : Shows c u) (hslot : ∀ write, u.slot ≠ .settling write)
    {request : TransferRequest} (hsaid : c.said[c.read]? = some (.transferStart request))
    (hdirection : request.direction ≠ directionDownload) :
    ∃ u', Uploads.Step u none u' ∧ Shows { c with
      loop := c.loop.startUpload c.read work request, read := c.read + 1 } u' := by
  obtain ⟨complaint, hplain, hrefused⟩ | ⟨hupload, hfinishing, accept, hbegun⟩ :=
    @DispatchLoop.startUpload_eq c.loop c.read work request
  · rw [hrefused]
    exact h.answerOnce hslot hsaid nofun ⟨rfl, rfl, rfl, rfl, rfl⟩ hplain
  · have hidle := h.slot_idle hslot hupload hfinishing
    have hstart : (Inbound.transferStart request).isUploadStart = true := bne_iff_ne.mpr hdirection
    have hsaid' : u.said[u.read]? = some (.transferStart request) := by
      rw [← h.said, ← h.read]
      exact hsaid
    have hlog : c.loop.log ++ [Happening.sent (some c.read) (.uploadAccept accept)] =
        u.log ++ [Happening.sent (some u.read) (.uploadAccept accept)] := by
      rw [h.log, h.read]
    have hwrite : c.loop.chunkWrite = none := by
      rw [h.chunkWrite, hidle]
      rfl
    rcases hbegun with hbegun | hbegun
    · rw [hbegun]
      exact ⟨_, .accept u _ accept (.finishing accept.transferId) hidle hsaid' hstart rfl nofun,
        hupload, hwrite, rfl, h.ended, hlog, h.said, congrArg (· + 1) h.read, h.heard⟩
    · rw [hbegun]
      exact ⟨_, .accept u _ accept (.between accept.transferId) hidle hsaid' hstart rfl nofun,
        rfl, hwrite, hfinishing, h.ended, hlog, h.said, congrArg (· + 1) h.read, h.heard⟩

/-- A chunk that is taken in is one of the steps. -/
theorem takeChunk (h : Shows c u) (hslot : ∀ write, u.slot ≠ .settling write) {data : TransferData}
    (hsaid : c.said[c.read]? = some (.transferData data)) :
    ∃ u', Uploads.Step u none u' ∧ Shows { c with
      loop := c.loop.takeChunk c.read data, read := c.read + 1 } u' := by
  have hsaid' : u.said[u.read]? = some (.transferData data) := by
    rw [← h.said, ← h.read]
    exact hsaid
  -- what comes late for an upload that has ended is dropped, other strays are refused
  have hdrop : ∃ u', Uploads.Step u none u' ∧ Shows { c with read := c.read + 1 } u' :=
    h.drop hslot hsaid ⟨rfl, rfl, rfl, rfl, (List.append_nil _).symm⟩
  have hrefuse (complaint : Complaint) (hother : c.loop.upload ≠ some data.transferId)
      (hended : ¬c.loop.ended data.transferId = true) : ∃ u', Uploads.Step u none u' ∧
        Shows { c with loop := c.loop.sendError c.read complaint, read := c.read + 1 } u' := by
    rw [DispatchLoop.ended, Bool.or_eq_true, not_or, decide_eq_true_eq, decide_eq_true_eq] at hended
    have hnone : u.slot.transfer ≠ some data.transferId := fun htransfer =>
      (h.transfer_eq hslot htransfer).elim hother hended.2
    have hnotEnded : u.ended ≠ some data.transferId := h.ended ▸ hended.1
    refine ⟨_, .refuse u data complaint hslot hsaid' hnone hnotEnded, h.upload, h.chunkWrite,
      h.finishing, h.ended, ?_, h.said, congrArg (· + 1) h.read, h.heard⟩
    show c.loop.log ++ [Happening.sent (some c.read) (.error complaint)] = _
    rw [h.log, h.read]
  rw [DispatchLoop.takeChunk]
  cases hupload : c.loop.upload with
  | none =>
    dsimp only
    by_cases hended : c.loop.ended data.transferId = true
    · rw [if_pos hended]
      exact hdrop
    · rw [if_neg hended]
      exact hrefuse _ (by rw [hupload]; exact nofun) hended
  | some active =>
    dsimp only
    by_cases hactive : data.transferId = active
    · rw [if_pos hactive]
      obtain rfl := hactive
      have hbetween := h.slot_between hupload
      have hfinishing : c.loop.finishing = none := by
        rw [h.finishing, hbetween]
        rfl
      refine ⟨_, .chunk u data hbetween hsaid', rfl, ?_, hfinishing, h.ended, h.log, h.said,
        congrArg (· + 1) h.read, h.heard⟩
      show some (ChunkWrite.mk data.transferId c.read) = some ⟨data.transferId, u.read⟩
      rw [h.read]
    · rw [if_neg hactive]
      by_cases hended : c.loop.ended data.transferId = true
      · rw [if_pos hended]
        exact hdrop
      · rw [if_neg hended]
        refine hrefuse _ ?_ hended
        rw [hupload]
        exact fun he => hactive (Option.some.inj he).symm

/-- An end that is taken in is one of the steps. -/
theorem takeEnd (h : Shows c u) (hslot : ∀ write, u.slot ≠ .settling write) {end_ : TransferEnd}
    (hsaid : c.said[c.read]? = some (.transferEnd end_)) :
    ∃ u', Uploads.Step u none u' ∧ Shows { c with
      loop := c.loop.takeEnd c.read end_, read := c.read + 1 } u' := by
  rw [DispatchLoop.takeEnd]
  by_cases hupload : c.loop.upload = some end_.transferId
  · rw [if_pos hupload]
    have hbetween := h.slot_between hupload
    have hsaid' : u.said[u.read]? = some (.transferEnd end_) := by
      rw [← h.said, ← h.read]
      exact hsaid
    have hwrite : c.loop.chunkWrite = none := by
      rw [h.chunkWrite, hbetween]
      rfl
    have hfinishing : c.loop.finishing = none := by
      rw [h.finishing, hbetween]
      rfl
    exact ⟨_, .release u end_ hbetween hsaid', rfl, hwrite, hfinishing, h.ended,
      congrArg (· ++ [Happening.released end_.transferId]) h.log, h.said,
      congrArg (· + 1) h.read, h.heard⟩
  rw [if_neg hupload]
  by_cases hdownload : c.loop.download = some end_.transferId
  · rw [if_pos hdownload]
    exact h.drop hslot hsaid ⟨rfl, rfl, rfl, rfl, (List.append_nil _).symm⟩
  rw [if_neg hdownload]
  by_cases hended : c.loop.ended end_.transferId = true
  · rw [if_pos hended]
    exact h.drop hslot hsaid ⟨rfl, rfl, rfl, rfl, (List.append_nil _).symm⟩
  · rw [if_neg hended]
    exact h.answerOnce hslot hsaid nofun ⟨rfl, rfl, rfl, rfl, rfl⟩ rfl

/-- **A message is dispatched.** -/
theorem dispatch (h : Shows c u) (hslot : ∀ write, u.slot ≠ .settling write)
    (hsaid : c.said[c.read]? = some message) : ∃ u', Uploads.Step u none u' ∧
      Shows { c with loop := c.loop.dispatch c.read work message, read := c.read + 1 } u' := by
  cases message with
  | ping payload => exact h.answerOnce hslot hsaid nofun ⟨rfl, rfl, rfl, rfl, rfl⟩ rfl
  | disconnect => exact h.drop hslot hsaid ⟨rfl, rfl, rfl, rfl, (List.append_nil _).symm⟩
  | transferStart request =>
    rw [DispatchLoop.dispatch]
    by_cases hdirection : request.direction = directionDownload
    · rw [if_pos hdirection]
      obtain ⟨m, download, hplain, hstart⟩ :=
        @DispatchLoop.startDownload_eq c.loop c.read work
      rw [hstart]
      exact h.answerOnce hslot hsaid nofun ⟨rfl, rfl, rfl, rfl, rfl⟩ hplain
    · rw [if_neg hdirection]
      exact h.startUpload hslot hsaid hdirection
  | transferData data => exact h.takeChunk hslot hsaid
  | transferEnd end_ => exact h.takeEnd hslot hsaid
  | other =>
    refine h.answer hslot hsaid (DispatchLoop.foldl_replies work.replies) (fun x hx => ?_) (.inr rfl)
      nofun
    obtain ⟨reply, -, rfl⟩ := List.mem_map.mp hx
    cases reply with
    | ok payload => exact ⟨_, rfl, rfl⟩
    | error message => exact ⟨_, rfl, rfl⟩
  | oversized limit => exact h.answerOnce hslot hsaid nofun ⟨rfl, rfl, rfl, rfl, rfl⟩ rfl
  | malformed => exact h.drop hslot hsaid ⟨rfl, rfl, rfl, rfl, (List.append_nil _).symm⟩

theorem slot_settling (h : Shows c u) {write : ChunkWrite} (hwrite : c.loop.chunkWrite = some write) :
    u.slot = .settling write := by
  rw [h.chunkWrite] at hwrite
  cases hcase : u.slot with
  | settling => rw [hcase] at hwrite; exact congrArg Slot.settling (Option.some.inj hwrite)
  | _ => rw [hcase] at hwrite; cases hwrite

theorem slot_finishing (h : Shows c u) {id : TransferId} (hfinishing : c.loop.finishing = some id) :
    u.slot = .finishing id := by
  rw [h.finishing] at hfinishing
  cases hcase : u.slot with
  | finishing => rw [hcase] at hfinishing; exact congrArg Slot.finishing (Option.some.inj hfinishing)
  | _ => rw [hcase] at hfinishing; cases hfinishing

/-- A chunk was settled. -/
theorem chunkWritten (h : Shows c u) {write : ChunkWrite} (hwrite : c.loop.chunkWrite = some write)
    (result : Except TransferError Bool) :
    ∃ u', Uploads.Step u none u' ∧ Shows { c with loop := c.loop.chunkWritten write result } u' := by
  have hslot := h.slot_settling hwrite
  have hupload : c.loop.upload = none := by
    rw [h.upload, hslot]
    rfl
  have hfinishing : c.loop.finishing = none := by
    rw [h.finishing, hslot]
    rfl
  have hrefused (e : TransferError) : ∃ u', Uploads.Step u none u' ∧
      Shows { c with loop := { { c.loop with chunkWrite := none } with
        upload := some write.active }.sendError write.number (.transfer e) } u' :=
    ⟨_, .settle u write (some e) hslot, rfl, rfl, hfinishing, h.ended,
      congrArg (· ++ [Happening.sent (some write.number) (.error (.transfer e))]) h.log, h.said,
      h.read, h.heard⟩
  cases result with
  | ok complete =>
    cases complete with
    | false =>
      exact ⟨_, .settle u write none hslot, rfl, rfl, hfinishing, h.ended,
        h.log.trans (List.append_nil _).symm, h.said, h.read, h.heard⟩
    | true =>
      exact ⟨_, .complete u write hslot, hupload, rfl, rfl, h.ended, h.log, h.said, h.read, h.heard⟩
  | error e =>
    cases e with
    | chunkHashMismatch => exact hrefused .chunkHashMismatch
    | badChunkIndex => exact hrefused .badChunkIndex
    | badChunkLength => exact hrefused .badChunkLength
    | _ =>
      -- the attempt is over; a resume can take it up again
      exact ⟨_, .stop u write.active .interrupted (congrArg Slot.transfer hslot), hupload, rfl,
        hfinishing, rfl, congrArg (· ++ [Happening.sent none (.uploadEnd write.active .interrupted)])
          h.log, h.said, h.read, h.heard⟩

/-- An upload was verified and filed, or was not. -/
theorem finished (h : Shows c u) {id : TransferId} (hfinishing : c.loop.finishing = some id)
    (result : Except TransferError Unit) :
    ∃ u', Uploads.Step u none u' ∧ Shows { c with loop := c.loop.finished id result } u' := by
  have hslot := h.slot_finishing hfinishing
  have hupload : c.loop.upload = none := by
    rw [h.upload, hslot]
    rfl
  have hwrite : c.loop.chunkWrite = none := by
    rw [h.chunkWrite, hslot]
    rfl
  exact ⟨_, .stop u id (uploadOutcome result) (congrArg Slot.transfer hslot), hupload, hwrite, rfl,
    rfl, congrArg (· ++ [Happening.sent none (.uploadEnd id (uploadOutcome result))]) h.log, h.said,
    h.read, h.heard⟩

/-- A message that answers none. -/
theorem pushOnce {m : Outbound} (h : Shows c u) (halike : Alike c.loop s' [.sent none m])
    (hplain : isPlain m = true) :
    ∃ u', Uploads.Step u none u' ∧ Shows { c with loop := s' } u' :=
  h.push halike fun _ hx => ⟨m, List.mem_singleton.mp hx, hplain⟩

/-- **Every turn is a step.** -/
theorem take (h : Shows c u) (hturn : c.take turn = some c') :
    ∃ u', Uploads.Step u turn.saying u' ∧ Shows c' u' := by
  cases turn with
  | say message =>
    obtain rfl := Option.some.inj hturn
    exact ⟨_, .say u message, h.upload, h.chunkWrite, h.finishing, h.ended, h.log,
      congrArg (· ++ [message]) h.said, h.read, h.heard⟩
  | hear =>
    obtain ⟨-, hheard⟩ := Option.ite_none_right_eq_some.mp hturn
    obtain rfl := Option.some.inj hheard
    exact ⟨_, .hear u, h.upload, h.chunkWrite, h.finishing, h.ended, h.log, h.said, h.read,
      congrArg (· + 1) h.heard⟩
  | read work =>
    obtain ⟨hfree, hread⟩ := Option.ite_none_left_eq_some.mp hturn
    obtain ⟨message, hsaid, rfl⟩ := Option.map_eq_some_iff.mp hread
    -- the loop reads nothing while a chunk is being written
    refine h.dispatch (fun write hslot => hfree ?_) hsaid
    rw [h.chunkWrite, hslot]
    exact Bool.or_true _
  | chunkWritten result =>
    obtain ⟨-, hwritten⟩ := Option.ite_none_left_eq_some.mp hturn
    obtain ⟨write, hwrite, rfl⟩ := Option.map_eq_some_iff.mp hwritten
    exact h.chunkWritten hwrite result
  | finished result =>
    obtain ⟨-, hfinished⟩ := Option.ite_none_left_eq_some.mp hturn
    obtain ⟨id, hfinishing, rfl⟩ := Option.map_eq_some_iff.mp hfinished
    exact h.finished hfinishing result
  | pulled result =>
    obtain ⟨-, hpulled⟩ := Option.ite_none_left_eq_some.mp hturn
    obtain ⟨id, -, rfl⟩ := Option.map_eq_some_iff.mp hpulled
    cases result with
    | error e => exact h.pushOnce ⟨rfl, rfl, rfl, rfl, rfl⟩ rfl
    | ok data =>
      cases data with
      | none => exact h.pushOnce ⟨rfl, rfl, rfl, rfl, rfl⟩ rfl
      | some data => exact h.pushOnce ⟨rfl, rfl, rfl, rfl, rfl⟩ rfl
  | push payload closing =>
    obtain ⟨-, hpush⟩ := Option.ite_none_left_eq_some.mp hturn
    obtain rfl := Option.some.inj hpush
    exact h.pushOnce ⟨rfl, rfl, rfl, rfl, rfl⟩ rfl
  | close =>
    obtain rfl := Option.some.inj hturn
    exact h.push ⟨rfl, rfl, rfl, rfl, (List.append_nil _).symm⟩ nofun

/-- What the client has heard is what the machine says it has. -/
theorem heard_eq (h : Shows c u) : c.loop.sent.take c.heard = u.sent.take u.heard := by
  have hsent : c.loop.sent = u.sent := by
    rw [DispatchLoop.sent, Uploads.sent, h.log]
    refine List.filterMap_congr fun x _ => ?_
    cases x <;> rfl
  rw [hsent, h.heard]

end Shows

/-! ### Runs of a connection -/

/-- The uploads that are in progress, wherever the loop keeps them. -/
def DispatchLoop.inProgress (s : DispatchLoop) : List TransferId :=
  s.upload.toList ++ s.chunkWrite.toList.map ChunkWrite.active ++ s.finishing.toList

theorem Shows.inProgress (h : Shows c u) : c.loop.inProgress = u.slot.transfer.toList := by
  rw [DispatchLoop.inProgress, h.upload, h.chunkWrite, h.finishing]
  cases u.slot <;> rfl

/-- A client sends chunks only of the last upload accepted to it, and none after it ended it. -/
def Connection.Faithful (c : Connection) : Turn → Prop
  | .say (.transferData data) => Open c.said (c.loop.sent.take c.heard) data.transferId
  | _ => True

/-- And none while an upload it asked for is unanswered. -/
def Connection.Patient (c : Connection) : Turn → Prop
  | .say (.transferData data) => Settled c.said (c.loop.sent.take c.heard) ∧
      Open c.said (c.loop.sent.take c.heard) data.transferId
  | _ => True

instance openDecidable (said : List Inbound) (heard : List (Option ℕ × Outbound)) (id : TransferId) :
    Decidable (Open said heard id) :=
  inferInstanceAs (Decidable (∃ p ∈ (accepts heard).getLast?, p.2 = id ∧
    ∀ message ∈ said.drop (p.1 + 1), message.ends id = false))

instance settledDecidable (said : List Inbound) (heard : List (Option ℕ × Outbound)) :
    Decidable (Settled said heard) :=
  inferInstanceAs (Decidable (∀ k < said.length,
    said[k]?.any Inbound.isUploadStart = true → some k ∈ heard.map Prod.fst))

instance faithfulDecidable (c : Connection) (turn : Turn) : Decidable (c.Faithful turn) :=
  match turn with
  | .say (.transferData data) =>
    inferInstanceAs (Decidable (Open c.said (c.loop.sent.take c.heard) data.transferId))
  | .say (.ping _) | .say .disconnect | .say (.transferStart _) | .say (.transferEnd _) |
    .say .other | .say (.oversized _) | .say .malformed => .isTrue trivial
  | .hear | .read _ | .chunkWritten _ | .finished _ | .pulled _ | .push .. | .close => .isTrue trivial

instance patientDecidable (c : Connection) (turn : Turn) : Decidable (c.Patient turn) :=
  match turn with
  | .say (.transferData data) => inferInstanceAs (Decidable (
      Settled c.said (c.loop.sent.take c.heard) ∧
        Open c.said (c.loop.sent.take c.heard) data.transferId))
  | .say (.ping _) | .say .disconnect | .say (.transferStart _) | .say (.transferEnd _) |
    .say .other | .say (.oversized _) | .say .malformed => .isTrue trivial
  | .hear | .read _ | .chunkWritten _ | .finished _ | .pulled _ | .push .. | .close => .isTrue trivial

theorem Shows.honest (h : Shows c u) (hpatient : c.Patient turn) : u.Honest turn.saying := by
  cases turn with
  | say message =>
    cases message with
    | transferData data =>
      rw [Connection.Patient, h.heard_eq, h.said] at hpatient
      exact hpatient
    | _ => trivial
  | _ => trivial

section Runs

variable {privileges : Auth.Privileges} {turns : List Turn}

/-- **A connection runs as the machine does.** -/
theorem sound_of_run (hrun : Run Connection.Takes (.new privileges) turns c) :
    ∃ u, Shows c u ∧ u.Sound := by
  refine hrun.invariant (fun c => ∃ u, Shows c u ∧ u.Sound) ?_
    ⟨.new, .new privileges, ⟨.new, .new⟩⟩
  rintro c turn c' ⟨u, hshows, hsound⟩ hturn
  obtain ⟨u', hstep, hshows'⟩ := hshows.take hturn
  exact ⟨u', hshows', hsound.step hstep⟩

/-- So does one whose client is patient, and no chunk of it is refused. -/
theorem trusted_of_run (hrun : Run (Guarded Connection.Takes Connection.Patient)
    (.new privileges) turns c) : ∃ u, Shows c u ∧ u.Sound ∧ u.Trusted := by
  refine hrun.invariant (fun c => ∃ u, Shows c u ∧ u.Sound ∧ u.Trusted) ?_
    ⟨.new, .new privileges, ⟨.new, .new⟩, .new⟩
  rintro c turn c' ⟨u, hshows, hsound, htrusted⟩ ⟨hturn, hpatient⟩
  obtain ⟨u', hstep, hshows'⟩ := hshows.take hturn
  exact ⟨u', hshows', hsound.step hstep, htrusted.step hsound hstep (hshows.honest hpatient)⟩

end Runs

/-! ### The upload protocol -/

/-- **The upload protocol of one connection.** Whatever the client says and the managers return, at
most one upload is in progress; acceptances and ends take turns, each end is of the upload accepted
before it, and the upload in progress is the one that has no end yet; answers come in the order of
the messages, and a chunk gets at most one. A client that sends chunks only of the last upload
accepted to it, not after its own end of it and not while it waits for another, is never told that
there is no such upload. -/
theorem upload_protocol (privileges : Auth.Privileges) :
    (∀ turns c, Run Connection.Takes (.new privileges) turns c →
      c.loop.inProgress.length ≤ 1 ∧
      (c.loop.log.filterMap Happening.event).foldlM follow none = some c.loop.inProgress.head? ∧
      (Uploads.numbersOf c.loop.log).Pairwise (· ≤ ·) ∧
      ∀ number data, c.said[number]? = some (.transferData data) →
        (Uploads.numbersOf c.loop.log).count number ≤ 1) ∧
    ∀ turns c, Run (Guarded Connection.Takes Connection.Patient) (.new privileges) turns c →
      ∀ x ∈ c.loop.log, x.isRefusal = false := by
  refine ⟨fun turns c hrun => ?_, fun turns c hrun => ?_⟩
  · obtain ⟨u, hshows, hnumbers, hcourse⟩ := sound_of_run hrun
    rw [hshows.inProgress, hshows.log, hshows.said]
    refine ⟨?_, ?_, hnumbers.sorted, fun number data hsaid => ?_⟩
    · cases u.slot.transfer with
      | none => exact Nat.zero_le 1
      | some id => exact Nat.le_refl 1
    · rw [hcourse.events]
      cases u.slot.transfer <;> rfl
    · refine (hnumbers.once number).resolve_right fun hother => ?_
      rw [hsaid] at hother
      cases hother
  · obtain ⟨u, hshows, -, htrusted⟩ := trusted_of_run hrun
    rw [hshows.log]
    exact htrusted.clean

/-! ### Small uploads -/

namespace Small

/-- The hash of one zero. -/
def zeroHash : Vector UInt8 32 :=
  #v[0x6e, 0x34, 0x0b, 0x9c, 0xff, 0xb3, 0x7a, 0x98, 0x9c, 0xa5, 0x44, 0xe6, 0xbb, 0x78, 0x0a, 0x2c,
    0x78, 0x90, 0x1d, 0x3f, 0xb3, 0x37, 0x38, 0x76, 0x85, 0x11, 0xa3, 0x06, 0x17, 0xaf, 0xa0, 0x1d]

/-- The hash of nothing. -/
def emptyHash : Vector UInt8 32 :=
  #v[0xe3, 0xb0, 0xc4, 0x42, 0x98, 0xfc, 0x1c, 0x14, 0x9a, 0xfb, 0xf4, 0xc8, 0x99, 0x6f, 0xb9, 0x24,
    0x27, 0xae, 0x41, 0xe4, 0x64, 0x9b, 0x93, 0x4c, 0xa4, 0x95, 0x99, 0x1b, 0x78, 0x52, 0xb8, 0x55]

/-- A request to upload a file of one zero. -/
def zeroFile : Inbound :=
  .transferStart ⟨directionUpload, "", "zero", 1, 4096, zeroHash, .replicate 16 0, []⟩

/-- An upload of one byte begins. -/
def zeroBegun : Work :=
  ⟨.ok (⟨.replicate 16 1, 4096, 1, 1, zeroHash, []⟩, false), .error .unknownTransfer, []⟩

/-- Its only chunk. -/
def zeroChunk : Inbound := .transferData ⟨.replicate 16 1, 0, zeroHash, [0]⟩

/-- A request to upload an empty file. -/
def emptyFile : Inbound :=
  .transferStart ⟨directionUpload, "", "empty", 0, 4096, emptyHash, .replicate 16 0, []⟩

/-- An upload of no byte begins, and is complete. -/
def emptyBegun : Work :=
  ⟨.ok (⟨.replicate 16 2, 4096, 0, 0, emptyHash, []⟩, true), .error .unknownTransfer, []⟩

/-- The chunk is sent twice, and the empty file asked for in between. -/
def pipelined : List Turn :=
  [.say zeroFile, .read zeroBegun, .hear, .say zeroChunk, .say emptyFile, .say zeroChunk,
    .read zeroBegun, .chunkWritten (.ok true), .finished (.ok ()), .read emptyBegun,
    .finished (.ok ()), .read emptyBegun]

/-- The empty file is asked for last. -/
def patient : List Turn :=
  [.say zeroFile, .read zeroBegun, .hear, .say zeroChunk, .say zeroChunk, .say emptyFile,
    .read zeroBegun, .chunkWritten (.ok true), .finished (.ok ()), .read zeroBegun,
    .read emptyBegun, .finished (.ok ())]

end Small

/-- Two files are uploaded: each acceptance has its end, and the chunk that crosses the first end is
dropped. -/
theorem upload_protocol_patient : ∃ c : Connection,
    (c.loop.inProgress = [] ∧ Uploads.numbersOf c.loop.log = [0, 3] ∧
      (c.loop.log.filterMap Happening.event).length = 4) ∧
    (c.loop.inProgress.length ≤ 1 ∧
      (c.loop.log.filterMap Happening.event).foldlM follow none = some c.loop.inProgress.head?) ∧
    ∀ x ∈ c.loop.log, x.isRefusal = false := by
  have hsome : (perform (fun c turn => if Connection.Patient c turn then c.take turn else none)
      (.new Auth.Privileges.fileUpload) Small.patient).any (fun c =>
        decide (c.loop.inProgress = [] ∧ Uploads.numbersOf c.loop.log = [0, 3] ∧
          (c.loop.log.filterMap Happening.event).length = 4)) = true := by
    decide +kernel
  obtain ⟨c, hperform, hc⟩ := (Option.any_eq_true _ _).mp hsome
  have hrun : Run (Guarded Connection.Takes Connection.Patient)
      (.new Auth.Privileges.fileUpload) Small.patient c := guarded_of_perform hperform
  obtain ⟨hone, hturns, -⟩ :=
    (upload_protocol Auth.Privileges.fileUpload).1 Small.patient c (hrun.mono And.left)
  exact ⟨c, of_decide_eq_true hc, ⟨hone, hturns⟩,
    (upload_protocol Auth.Privileges.fileUpload).2 Small.patient c hrun⟩

/-- **A client that does not wait can be refused**: the second copy of its chunk comes when the
server has ended another upload since. -/
theorem chunk_refused_unsettled : ¬∀ privileges turns c,
    Run (Guarded Connection.Takes Connection.Faithful) (.new privileges) turns c →
      ∀ x ∈ c.loop.log, x.isRefusal = false := by
  intro h
  have hsome : (perform (fun c turn => if Connection.Faithful c turn then c.take turn else none)
      (.new Auth.Privileges.fileUpload) Small.pipelined).any (fun c =>
        c.loop.log.any Happening.isRefusal) = true := by
    decide +kernel
  obtain ⟨c, hperform, hc⟩ := (Option.any_eq_true _ _).mp hsome
  obtain ⟨x, hx, hrefused⟩ := List.any_eq_true.mp hc
  rw [h _ _ c (guarded_of_perform hperform) x hx] at hrefused
  cases hrefused

end Transfer

end KdxHotline
