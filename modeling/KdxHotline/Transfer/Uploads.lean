import Mathlib.Data.List.Count
import KdxHotline.Transfer.Dispatch

/-!
# The one upload of a connection

The dispatch loop with everything left out but its upload (`KdxHotline.Transfer.Uploads`): the
upload is between chunks, or a chunk of it is settled, or it is finished, and there is never more
than one. What may happen is a relation (`KdxHotline.Transfer.Uploads.Step`), and two invariants say
what holds in every run.

* `KdxHotline.Transfer.Uploads.Sound`: acceptances and ends take turns, answers come in the order of
  the messages, and the upload that was accepted last is the one in progress, or the one the server
  ended last, or its client ended it.
* `KdxHotline.Transfer.Uploads.Trusted`: as long as the client sends chunks only of an upload it
  knows to be open, and with no request of its own unanswered, each chunk on its way is of the upload
  that was accepted last, and none is refused.
-/

namespace KdxHotline

namespace Transfer

open Foundations Protocol

/-! ### What was sent -/

/-- The message that was sent, and the number of the one it answers. -/
def Happening.message : Happening → Option (Option ℕ × Outbound)
  | sent about message => some (about, message)
  | released _ => none

/-- An upload was accepted, or it was ended by either side. -/
inductive UploadEvent
  | accepted (id : TransferId)
  | ended (id : TransferId)
  deriving DecidableEq

/-- What a happening means for an upload. -/
def Happening.event : Happening → Option UploadEvent
  | sent _ (.uploadAccept accept) => some (.accepted accept.transferId)
  | sent _ (.uploadEnd id _) => some (.ended id)
  | released id => some (.ended id)
  | _ => none

/-- The upload in progress after an event, if the event may come: an upload is accepted when there
is none, and only the one in progress is ended. -/
def follow : Option TransferId → UploadEvent → Option (Option TransferId)
  | none, .accepted id => some (some id)
  | some id, .ended id' => if id = id' then some none else none
  | _, _ => none

/-- An acceptance, with the number of its request. -/
def acceptOf : Option ℕ × Outbound → Option (ℕ × TransferId)
  | (some number, .uploadAccept accept) => some (number, accept.transferId)
  | _ => none

/-- The acceptances among some messages. -/
def accepts (sent : List (Option ℕ × Outbound)) : List (ℕ × TransferId) := sent.filterMap acceptOf

/-- Is it a message that says nothing of an upload? -/
def isPlain : Outbound → Bool
  | .uploadAccept _ | .uploadEnd .. | .error .unknownTransferId | .error .noActiveTransfer => false
  | _ => true

/-! ### What the client does -/

namespace Inbound

/-- Whether a message asks for an upload. -/
def isUploadStart : Inbound → Bool
  | transferStart request => request.direction != directionDownload
  | _ => false

/-- Is it the client's own end of an upload? -/
def ends (id : TransferId) : Inbound → Bool
  | transferEnd end_ => end_.transferId == id
  | _ => false

end Inbound

/-- Of all uploads the client heard to be accepted, this is the last, and it has not ended it since
it asked for it. -/
def Open (said : List Inbound) (heard : List (Option ℕ × Outbound)) (id : TransferId) : Prop :=
  ∃ p ∈ (accepts heard).getLast?, p.2 = id ∧ ∀ message ∈ said.drop (p.1 + 1), message.ends id = false

/-- The client heard an answer to every upload it asked for. -/
def Settled (said : List Inbound) (heard : List (Option ℕ × Outbound)) : Prop :=
  ∀ k < said.length, said[k]?.any Inbound.isUploadStart = true → some k ∈ heard.map Prod.fst

/-! ### The machine -/

/-- Where the upload is. -/
inductive Slot
  | idle
  | between (id : TransferId)
  | settling (write : ChunkWrite)
  | finishing (id : TransferId)
  deriving DecidableEq

/-- The upload in the slot. -/
def Slot.transfer : Slot → Option TransferId
  | idle => none
  | between id | finishing id => some id
  | settling write => some write.active

/-- A connection, as far as its upload goes. -/
structure Uploads where
  slot : Slot
  /-- The last upload the server ended. -/
  ended : Option TransferId
  log : List Happening
  said : List Inbound
  read : ℕ
  heard : ℕ

namespace Uploads

/-- No upload. -/
def new : Uploads := ⟨.idle, none, [], [], 0, 0⟩

/-- The messages that were sent. -/
def sent (u : Uploads) : List (Option ℕ × Outbound) := u.log.filterMap Happening.message

/-- What may happen. A message is read only while no chunk is settled. -/
inductive Step : Uploads → Option Inbound → Uploads → Prop
  | say (u : Uploads) (message : Inbound) :
    Step u (some message) { u with said := u.said ++ [message] }
  | hear (u : Uploads) : Step u none { u with heard := u.heard + 1 }
  /-- Messages that answer none. -/
  | push (u : Uploads) (happenings : List Happening)
      (h : ∀ x ∈ happenings, ∃ m, x = .sent none m ∧ isPlain m = true) :
    Step u none { u with log := u.log ++ happenings }
  /-- A message is answered, or dropped; a chunk that is not stored is dropped. -/
  | answer (u : Uploads) (message : Inbound) (happenings : List Happening)
      (hslot : ∀ write, u.slot ≠ .settling write) (hsaid : u.said[u.read]? = some message)
      (h : ∀ x ∈ happenings, ∃ m, x = .sent (some u.read) m ∧ isPlain m = true)
      (hone : happenings.length ≤ 1 ∨ message = .other)
      (hchunk : ∀ data, message = .transferData data → happenings = []) :
    Step u none { u with log := u.log ++ happenings, read := u.read + 1 }
  /-- A chunk is of no upload. -/
  | refuse (u : Uploads) (data : TransferData) (complaint : Complaint)
      (hslot : ∀ write, u.slot ≠ .settling write)
      (hsaid : u.said[u.read]? = some (.transferData data))
      (hother : u.slot.transfer ≠ some data.transferId) (hended : u.ended ≠ some data.transferId) :
    Step u none { u with
      log := u.log ++ [.sent (some u.read) (.error complaint)], read := u.read + 1 }
  | accept (u : Uploads) (message : Inbound) (accept : TransferAccept) (slot : Slot)
      (hslot : u.slot = .idle) (hsaid : u.said[u.read]? = some message)
      (hstart : message.isUploadStart = true) (hid : slot.transfer = some accept.transferId)
      (hwrite : ∀ write, slot ≠ .settling write) :
    Step u none { u with
      slot := slot, log := u.log ++ [.sent (some u.read) (.uploadAccept accept)], read := u.read + 1 }
  | chunk (u : Uploads) (data : TransferData) (hslot : u.slot = .between data.transferId)
      (hsaid : u.said[u.read]? = some (.transferData data)) :
    Step u none { u with slot := .settling ⟨data.transferId, u.read⟩, read := u.read + 1 }
  /-- The client ends its upload. -/
  | release (u : Uploads) (end_ : TransferEnd) (hslot : u.slot = .between end_.transferId)
      (hsaid : u.said[u.read]? = some (.transferEnd end_)) :
    Step u none { u with
      slot := .idle, log := u.log ++ [.released end_.transferId], read := u.read + 1 }
  | settle (u : Uploads) (write : ChunkWrite) (complaint : Option TransferError)
      (hslot : u.slot = .settling write) :
    Step u none { u with
      slot := .between write.active
      log := u.log ++ complaint.toList.map fun e => .sent (some write.number) (.error (.transfer e)) }
  | complete (u : Uploads) (write : ChunkWrite) (hslot : u.slot = .settling write) :
    Step u none { u with slot := .finishing write.active }
  /-- The server ends an upload. -/
  | stop (u : Uploads) (id : TransferId) (outcome : UploadOutcome)
      (hslot : u.slot.transfer = some id) :
    Step u none { u with
      slot := .idle, ended := some id, log := u.log ++ [.sent none (.uploadEnd id outcome)] }

/-! ### What holds in every run -/

/-- The numbers of the messages that are answered. -/
def numbersOf (happenings : List Happening) : List ℕ :=
  (happenings.filterMap Happening.message).filterMap Prod.fst

/-- The requests that were answered, as they were. -/
def abouts (u : Uploads) : List ℕ := numbersOf u.log

/-- Answers come in the order of the messages, and all but other requests get one at most. -/
structure Numbers (u : Uploads) : Prop where
  sorted : u.abouts.Pairwise (· ≤ ·)
  below : ∀ n ∈ u.abouts, n < u.read
  /-- The chunk that is settled is the last message that was read. -/
  settling : ∀ write, u.slot = .settling write → write.number + 1 = u.read ∧
    write.number ∉ u.abouts
  once : ∀ n, u.abouts.count n ≤ 1 ∨ u.said[n]? = some .other
  read_le : u.read ≤ u.said.length

/-- Acceptances and ends take turns. -/
structure Course (u : Uploads) : Prop where
  events : (u.log.filterMap Happening.event).foldlM follow none = some u.slot.transfer
  accepted : ∀ p ∈ accepts u.sent, p.1 ∈ u.abouts ∧ u.said[p.1]?.any Inbound.isUploadStart = true
  /-- What became of the upload that was accepted last. -/
  last : ∀ p ∈ (accepts u.sent).getLast?, u.slot.transfer = some p.2 ∨
    u.slot.transfer = none ∧ (u.ended = some p.2 ∨
      ∃ k, p.1 < k ∧ k < u.read ∧ u.said[k]?.any (Inbound.ends p.2) = true)

/-- What holds in every run: the numbers of the answers, and the course of each upload. -/
structure Sound (u : Uploads) : Prop where
  numbers : Numbers u
  course : Course u

end Uploads

/-- Nothing that is said of an upload. -/
def Happening.Neutral (x : Happening) : Prop :=
  x.event = none ∧ ∀ m ∈ x.message, acceptOf m = none

/-- A chunk that is refused as one of no upload. -/
def Happening.isRefusal : Happening → Bool
  | sent _ (.error .unknownTransferId) | sent _ (.error .noActiveTransfer) => true
  | _ => false

theorem neutral_error (about : Option ℕ) (complaint : Complaint) :
    (Happening.sent about (.error complaint)).Neutral := by
  refine ⟨rfl, fun m hm => ?_⟩
  obtain rfl := Option.some.inj hm
  cases about <;> rfl

/-- A plain answer is about no upload. -/
theorem neutral_plain {about : Option ℕ} {m : Outbound} (h : isPlain m = true) :
    (Happening.sent about m).Neutral ∧ (Happening.sent about m).isRefusal = false := by
  cases m with
  | uploadAccept => cases h
  | uploadEnd => cases h
  | error complaint =>
    refine ⟨neutral_error about complaint, ?_⟩
    cases complaint with
    | unknownTransferId => cases h
    | noActiveTransfer => cases h
    | _ => rfl
  | _ =>
    refine ⟨⟨rfl, fun p hp => ?_⟩, rfl⟩
    obtain rfl := Option.some.inj hp
    cases about <;> rfl

namespace Uploads

variable {u u' : Uploads} {xs ys : List Happening} {message : Inbound} {label : Option Inbound}
  {k n : ℕ} {write : ChunkWrite} {said said' : List Inbound} {p : Inbound → Bool}

theorem numbersOf_append : numbersOf (xs ++ ys) = numbersOf xs ++ numbersOf ys := by
  rw [numbersOf, List.filterMap_append, List.filterMap_append, numbersOf, numbersOf]

/-- The answers to one message. -/
theorem numbersOf_answers (h : ∀ x ∈ xs, ∃ m, x = .sent (some n) m) :
    numbersOf xs = List.replicate xs.length n := by
  induction xs with
  | nil => rfl
  | cons x xs ih =>
    obtain ⟨⟨m, rfl⟩, hxs⟩ := List.forall_mem_cons.mp h
    have hrest := ih hxs
    rw [numbersOf] at hrest ⊢
    simp only [List.filterMap_cons, Happening.message, List.length_cons, List.replicate_succ,
      hrest]

theorem numbersOf_pushed (h : ∀ x ∈ xs, ∃ m, x = .sent none m) : numbersOf xs = [] := by
  induction xs with
  | nil => rfl
  | cons x xs ih =>
    obtain ⟨⟨m, rfl⟩, hxs⟩ := List.forall_mem_cons.mp h
    have hrest := ih hxs
    rw [numbersOf] at hrest ⊢
    simp only [List.filterMap_cons, Happening.message, hrest]

theorem events_neutral (h : ∀ x ∈ xs, x.Neutral) : xs.filterMap Happening.event = [] :=
  List.filterMap_eq_nil_iff.mpr fun x hx => (h x hx).1

theorem accepts_neutral (h : ∀ x ∈ xs, x.Neutral) :
    accepts (xs.filterMap Happening.message) = [] := by
  refine List.filterMap_eq_nil_iff.mpr fun m hm => ?_
  obtain ⟨x, hx, hmessage⟩ := List.mem_filterMap.mp hm
  exact (h x hx).2 m hmessage

theorem getElem?_of_extends (h : said <+: said') (hmessage : said[k]? = some message) :
    said'[k]? = some message := by
  obtain ⟨rest, rfl⟩ := h
  rw [List.getElem?_append_left (List.getElem?_eq_some_iff.mp hmessage).1, hmessage]

theorem any_of_extends (h : said <+: said') (hany : said[k]?.any p = true) :
    said'[k]?.any p = true := by
  obtain ⟨message, hmessage, hp⟩ := (Option.any_eq_true _ _).mp hany
  rw [getElem?_of_extends h hmessage]
  exact hp

/-! ### The order of the answers -/

namespace Numbers

theorem new : Numbers new := by
  constructor <;> simp [Uploads.new, abouts, numbersOf]

/-- Nothing is read and nothing answered. -/
theorem keep (h : Numbers u) (habouts : u'.abouts = u.abouts) (hread : u'.read = u.read)
    (hsaid : u.said <+: u'.said)
    (hslot : ∀ write, u'.slot = .settling write → u.slot = .settling write) : Numbers u' := by
  constructor
  case sorted => exact habouts ▸ h.sorted
  case below =>
    rw [habouts, hread]
    exact h.below
  case settling =>
    rw [habouts, hread]
    exact fun write hwrite => h.settling write (hslot write hwrite)
  case once =>
    intro n
    rw [habouts]
    exact (h.once n).imp_right (getElem?_of_extends hsaid)
  case read_le =>
    rw [hread]
    exact h.read_le.trans hsaid.length_le

/-- **The next message is read**, and maybe answered. -/
theorem next (h : Numbers u) (hmessage : u.said[u.read]? = some message)
    (habouts : u'.abouts = u.abouts ++ List.replicate k u.read) (hread : u'.read = u.read + 1)
    (hsaid : u'.said = u.said) (hone : k ≤ 1 ∨ message = .other)
    (hslot : ∀ write, u'.slot = .settling write → write.number = u.read ∧ k = 0) : Numbers u' := by
  -- what was answered so far has a smaller number
  have hfresh : u.read ∉ u.abouts := fun hmem => Nat.lt_irrefl _ (h.below _ hmem)
  constructor
  case sorted =>
    rw [habouts]
    refine List.pairwise_append.mpr ⟨h.sorted, List.pairwise_replicate.mpr (.inr (Nat.le_refl _)), ?_⟩
    intro n hn n' hn'
    rw [List.eq_of_mem_replicate hn']
    exact Nat.le_of_lt (h.below n hn)
  case below =>
    intro n hn
    rw [habouts, List.mem_append] at hn
    rw [hread]
    rcases hn with hold | hnew
    · exact Nat.lt_succ_of_lt (h.below n hold)
    · rw [List.eq_of_mem_replicate hnew]
      exact Nat.lt_succ_self _
  case settling =>
    intro write hwrite
    obtain ⟨hnumber, rfl⟩ := hslot write hwrite
    rw [habouts, List.replicate_zero, List.append_nil, hread, hnumber]
    exact ⟨rfl, hfresh⟩
  case once =>
    intro n
    rw [habouts, hsaid, List.count_append, List.count_replicate]
    by_cases hn : u.read = n
    · subst hn
      rw [List.count_eq_zero_of_not_mem hfresh, beq_self_eq_true, if_pos rfl, Nat.zero_add]
      exact hone.imp_right fun he => hmessage.trans (congrArg some he)
    · rw [if_neg (fun he => hn (beq_iff_eq.mp he)), Nat.add_zero]
      exact h.once n
  case read_le =>
    rw [hread, hsaid]
    exact (List.getElem?_eq_some_iff.mp hmessage).1

/-- **A chunk is settled**, and its message maybe answered. -/
theorem settled (h : Numbers u) (hsettling : u.slot = .settling write)
    (habouts : u'.abouts = u.abouts ++ List.replicate k write.number) (hread : u'.read = u.read)
    (hsaid : u'.said = u.said) (hone : k ≤ 1) (hslot : ∀ write, u'.slot ≠ .settling write) :
    Numbers u' := by
  -- the chunk is the last message read, and still without an answer
  obtain ⟨hnumber, hfresh⟩ := h.settling write hsettling
  constructor
  case sorted =>
    rw [habouts]
    refine List.pairwise_append.mpr ⟨h.sorted, List.pairwise_replicate.mpr (.inr (Nat.le_refl _)), ?_⟩
    intro n hn n' hn'
    have hlt := h.below n hn
    rw [List.eq_of_mem_replicate hn']
    omega
  case below =>
    intro n hn
    rw [habouts, List.mem_append] at hn
    rw [hread]
    rcases hn with hold | hnew
    · exact h.below n hold
    · rw [List.eq_of_mem_replicate hnew]
      omega
  case settling => exact fun write hwrite => absurd hwrite (hslot write)
  case once =>
    intro n
    rw [habouts, hsaid, List.count_append, List.count_replicate]
    by_cases hn : write.number = n
    · subst hn
      rw [List.count_eq_zero_of_not_mem hfresh, beq_self_eq_true, if_pos rfl, Nat.zero_add]
      exact .inl hone
    · rw [if_neg (fun he => hn (beq_iff_eq.mp he)), Nat.add_zero]
      exact h.once n
  case read_le =>
    rw [hread, hsaid]
    exact h.read_le

/-- What one step keeps of the numbers. -/
theorem step (h : Numbers u) (hstep : Step u label u') : Numbers u' := by
  have habouts {xs : List Happening} {ns : List ℕ} (hns : numbersOf xs = ns) :
      numbersOf (u.log ++ xs) = u.abouts ++ ns := by
    rw [numbersOf_append, hns, abouts]
  cases hstep with
  | say message => exact h.keep rfl rfl ( List.prefix_append _ _) fun _ hslot => hslot
  | hear => exact h.keep rfl rfl ( List.prefix_refl _) fun _ hslot => hslot
  | push happenings hplain =>
    refine h.keep ?_ rfl ( List.prefix_refl _) fun _ hslot => hslot
    exact (habouts (numbersOf_pushed fun x hx => (hplain x hx).imp fun _ hm => hm.1)).trans
      (List.append_nil _)
  | answer message happenings hslot hsaid hplain hone hchunk =>
    exact h.next hsaid (habouts (numbersOf_answers fun x hx => (hplain x hx).imp fun _ hm => hm.1))
      rfl rfl hone fun write hwrite => absurd hwrite (hslot write)
  | refuse data complaint hslot hsaid hother hended =>
    exact h.next (k := 1) hsaid (habouts rfl) rfl rfl (.inl (Nat.le_refl 1))
      fun write hwrite => absurd hwrite (hslot write)
  | accept message accept slot hslot hsaid hstart hid hwrite =>
    exact h.next (k := 1) hsaid (habouts rfl) rfl rfl (.inl (Nat.le_refl 1))
      fun write hsettling => absurd hsettling (hwrite write)
  | chunk data hslot hsaid =>
    refine h.next (k := 0) hsaid (List.append_nil _).symm rfl rfl (.inl (Nat.zero_le 1))
      fun write hwrite => ?_
    obtain rfl := Slot.settling.inj hwrite
    exact ⟨rfl, rfl⟩
  | release end_ hslot hsaid =>
    exact h.next (k := 0) hsaid (habouts rfl) rfl rfl (.inl (Nat.zero_le 1)) nofun
  | settle write complaint hslot =>
    refine h.settled (k := complaint.toList.length) hslot (habouts ?_) rfl rfl ?_ nofun
    · cases complaint <;> rfl
    · cases complaint <;> simp
  | complete write hslot =>
    exact h.settled (k := 0) hslot (List.append_nil _).symm rfl rfl (Nat.zero_le 1) nofun
  | stop id outcome hslot =>
    exact h.keep ((habouts rfl).trans (List.append_nil _)) rfl ( List.prefix_refl _) nofun

end Numbers

/-! ### One upload after the other -/

namespace Course

theorem new : Course new := by
  constructor <;> simp [Uploads.new, abouts, numbersOf, accepts, sent, Slot.transfer]

/-- Nothing is said of an upload. -/
theorem note (h : Course u) (hlog : u'.log = u.log ++ xs) (hneutral : ∀ x ∈ xs, x.Neutral)
    (hslot : u'.slot.transfer = u.slot.transfer) (hended : u'.ended = u.ended)
    (hsaid : u.said <+: u'.said) (hread : u.read ≤ u'.read) : Course u' := by
  have hevents : u'.log.filterMap Happening.event = u.log.filterMap Happening.event := by
    rw [hlog, List.filterMap_append, events_neutral hneutral, List.append_nil]
  have haccepts : accepts u'.sent = accepts u.sent := by
    rw [sent, hlog, List.filterMap_append, accepts, List.filterMap_append]
    exact (congrArg (_ ++ ·) (accepts_neutral hneutral)).trans (List.append_nil _)
  have habouts : u.abouts ⊆ u'.abouts := by
    rw [abouts, abouts, hlog, numbersOf_append]
    exact List.subset_append_left _ _
  constructor
  case events =>
    rw [hevents, hslot]
    exact h.events
  case accepted =>
    rw [haccepts]
    intro p hp
    obtain ⟨hnumber, hstart⟩ := h.accepted p hp
    exact ⟨habouts hnumber, any_of_extends hsaid hstart⟩
  case last =>
    rw [haccepts, hslot, hended]
    intro p hp
    refine (h.last p hp).imp_right fun ⟨hnone, hwhy⟩ => ⟨hnone, hwhy.imp_right ?_⟩
    rintro ⟨k, hpk, hk, hends⟩
    exact ⟨k, hpk, Nat.lt_of_lt_of_le hk hread, any_of_extends hsaid hends⟩

/-- The upload in progress is the one that was accepted last. -/
theorem last_eq (h : Course u) {id : TransferId} (hslot : u.slot.transfer = some id)
    {p : ℕ × TransferId} (hp : p ∈ (accepts u.sent).getLast?) : p.2 = id := by
  rcases h.last p hp with hsame | ⟨hnone, -⟩
  · exact Option.some.inj (hsame.symm.trans hslot)
  · rw [hnone] at hslot
    cases hslot

/-- The events so far, and one more. -/
theorem foldlM_concat {event : UploadEvent} {open_ : Option TransferId} (h : Course u)
    (hxs : xs.filterMap Happening.event = [event])
    (hfollow : follow u.slot.transfer event = some open_) :
    ((u.log ++ xs).filterMap Happening.event).foldlM follow none = some open_ := by
  rw [List.filterMap_append, hxs, List.foldlM_append, h.events, Option.bind_eq_bind,
    Option.bind_some, List.foldlM_cons, hfollow]
  rfl

/-- What one step keeps of the course. -/
theorem step (h : Course u) (hnumbers : Numbers u) (hstep : Step u label u') : Course u' := by
  cases hstep with
  | say message =>
    exact h.note (List.append_nil _).symm nofun rfl rfl ( List.prefix_append _ _) (Nat.le_refl _)
  | hear => exact h.note (List.append_nil _).symm nofun rfl rfl ( List.prefix_refl _) (Nat.le_refl _)
  | push happenings hplain =>
    refine h.note rfl (fun x hx => ?_) rfl rfl ( List.prefix_refl _) (Nat.le_refl _)
    obtain ⟨m, rfl, hm⟩ := hplain x hx
    exact (neutral_plain hm).1
  | answer message happenings hslot hsaid hplain hone hchunk =>
    refine h.note rfl (fun x hx => ?_) rfl rfl ( List.prefix_refl _) (Nat.le_succ _)
    obtain ⟨m, rfl, hm⟩ := hplain x hx
    exact (neutral_plain hm).1
  | refuse data complaint hslot hsaid hother hended =>
    refine h.note rfl (fun x hx => ?_) rfl rfl ( List.prefix_refl _) (Nat.le_succ _)
    obtain rfl := List.mem_singleton.mp hx
    exact neutral_error _ _
  | accept message accept slot hslot hsaid hstart hid hwrite =>
    have haccepts : accepts ((u.log ++ [Happening.sent (some u.read) (.uploadAccept accept)]).filterMap
        Happening.message) = accepts u.sent ++ [(u.read, accept.transferId)] := by
      rw [List.filterMap_append, accepts, List.filterMap_append]
      rfl
    constructor
    case events =>
      rw [hid]
      refine h.foldlM_concat rfl ?_
      rw [hslot]
      rfl
    case accepted =>
      intro p hp
      rw [sent, haccepts, List.mem_append, List.mem_singleton] at hp
      rcases hp with hold | rfl
      · obtain ⟨hnumber, hbegan⟩ := h.accepted p hold
        refine ⟨?_, hbegan⟩
        rw [abouts, numbersOf_append]
        exact List.mem_append_left _ hnumber
      · refine ⟨?_, (Option.any_eq_true _ _).mpr ⟨message, hsaid, hstart⟩⟩
        rw [abouts, numbersOf_append]
        exact List.mem_append_right _ (List.mem_singleton_self _)
    case last =>
      intro p hp
      rw [sent, haccepts, List.getLast?_concat] at hp
      obtain rfl := Option.some.inj hp
      exact .inl hid
  | chunk data hslot hsaid =>
    refine h.note (List.append_nil _).symm nofun ?_ rfl ( List.prefix_refl _) (Nat.le_succ _)
    rw [hslot]
    rfl
  | release end_ hslot hsaid =>
    have hopen : u.slot.transfer = some end_.transferId := by
      rw [hslot]
      rfl
    have haccepts : accepts ((u.log ++ [Happening.released end_.transferId]).filterMap
        Happening.message) = accepts u.sent := by
      rw [List.filterMap_append, accepts, List.filterMap_append]
      exact List.append_nil _
    constructor
    case events =>
      refine h.foldlM_concat rfl ?_
      rw [hopen]
      exact if_pos rfl
    case accepted =>
      intro p hp
      rw [sent, haccepts] at hp
      obtain ⟨hnumber, hbegan⟩ := h.accepted p hp
      refine ⟨?_, hbegan⟩
      rw [abouts, numbersOf_append]
      exact List.mem_append_left _ hnumber
    case last =>
      intro p hp
      rw [sent, haccepts] at hp
      have hid := h.last_eq hopen hp
      -- the client's end is the message that is read now
      have hbefore := hnumbers.below p.1 (h.accepted p (List.mem_of_getLast? hp)).1
      refine .inr ⟨rfl, .inr ⟨u.read, hbefore, Nat.lt_succ_self _, ?_⟩⟩
      exact (Option.any_eq_true _ _).mpr ⟨_, hsaid, beq_iff_eq.mpr hid.symm⟩
  | settle write complaint hslot =>
    refine h.note rfl (fun x hx => ?_) ?_ rfl ( List.prefix_refl _) (Nat.le_refl _)
    · obtain ⟨e, -, rfl⟩ := List.mem_map.mp hx
      exact neutral_error _ _
    · rw [hslot]
      rfl
  | complete write hslot =>
    refine h.note (List.append_nil _).symm nofun ?_ rfl ( List.prefix_refl _) (Nat.le_refl _)
    rw [hslot]
    rfl
  | stop id outcome hslot =>
    have haccepts : accepts ((u.log ++ [Happening.sent none (.uploadEnd id outcome)]).filterMap
        Happening.message) = accepts u.sent := by
      rw [List.filterMap_append, accepts, List.filterMap_append]
      exact List.append_nil _
    constructor
    case events =>
      refine h.foldlM_concat rfl ?_
      rw [hslot]
      exact if_pos rfl
    case accepted =>
      intro p hp
      rw [sent, haccepts] at hp
      obtain ⟨hnumber, hbegan⟩ := h.accepted p hp
      refine ⟨?_, hbegan⟩
      rw [abouts, numbersOf_append]
      exact List.mem_append_left _ hnumber
    case last =>
      intro p hp
      rw [sent, haccepts] at hp
      exact .inr ⟨rfl, .inl (congrArg some (h.last_eq hslot hp).symm)⟩

end Course

theorem Sound.step (h : Sound u) (hstep : Step u label u') : Sound u' :=
  ⟨h.numbers.step hstep, h.course.step h.numbers hstep⟩

/-! ### Clients that send chunks of their own upload only -/

/-- What a client may say: a chunk of the upload it knows to be open, while it waits for no answer
to a request for an upload. -/
def Honest (u : Uploads) : Option Inbound → Prop
  | some (.transferData data) =>
    Settled u.said (u.sent.take u.heard) ∧ Open u.said (u.sent.take u.heard) data.transferId
  | _ => True

/-- Every chunk on its way is of the upload that was accepted last, and no chunk was refused. -/
structure Trusted (u : Uploads) : Prop where
  chunks : ∀ m data, u.read ≤ m → u.said[m]? = some (.transferData data) →
    ∃ p ∈ (accepts u.sent).getLast?, p.2 = data.transferId ∧
      (∀ k, p.1 < k → k < m → u.said[k]?.any (Inbound.ends p.2) = false) ∧
        ∀ k, u.read ≤ k → k < m → u.said[k]?.any Inbound.isUploadStart = false
  clean : ∀ x ∈ u.log, x.isRefusal = false

/-- **A client that waits for nothing has heard every acceptance.** -/
theorem Sound.accepts_heard (h : Sound u) (hsettled : Settled u.said (u.sent.take u.heard)) :
    accepts (u.sent.take u.heard) = accepts u.sent := by
  have hsplit : u.sent.take u.heard ++ u.sent.drop u.heard = u.sent := List.take_append_drop _ _
  have hnone : accepts (u.sent.drop u.heard) = [] := by
    refine List.filterMap_eq_nil_iff.mpr fun m hm => ?_
    by_contra hsome
    obtain ⟨p, hp⟩ := Option.ne_none_iff_exists'.mp hsome
    have hmem : p ∈ accepts u.sent :=
      List.mem_filterMap.mpr ⟨m, List.mem_of_mem_drop hm, hp⟩
    obtain ⟨hnumber, hstart⟩ := h.course.accepted p hmem
    obtain ⟨message, hmessage, hbegins⟩ := (Option.any_eq_true _ _).mp hstart
    have hheard := hsettled p.1 (List.getElem?_eq_some_iff.mp hmessage).1 hstart
    have hunheard : some p.1 ∈ (u.sent.drop u.heard).map Prod.fst := by
      obtain ⟨about, m⟩ := m
      refine List.mem_map.mpr ⟨_, hm, ?_⟩
      cases about with
      | none => cases hp
      | some number =>
        cases m with
        | uploadAccept accept => exact congrArg (fun p => some p.1) (Option.some.inj hp)
        | _ => cases hp
    -- its request would have been answered twice
    have htwice : 2 ≤ u.abouts.count p.1 := by
      have habouts : u.abouts = (u.sent.take u.heard).filterMap Prod.fst ++
          (u.sent.drop u.heard).filterMap Prod.fst := by
        rw [← List.filterMap_append, hsplit]
        rfl
      have hcount {l : List (Option ℕ × Outbound)} (hl : some p.1 ∈ l.map Prod.fst) :
          1 ≤ (l.filterMap Prod.fst).count p.1 := by
        obtain ⟨x, hx, hfst⟩ := List.mem_map.mp hl
        exact List.one_le_count_iff.mpr (List.mem_filterMap.mpr ⟨x, hx, hfst⟩)
      rw [habouts, List.count_append]
      exact Nat.add_le_add (hcount hheard) (hcount hunheard)
    rcases h.numbers.once p.1 with honce | hother
    · omega
    · rw [hmessage] at hother
      obtain rfl := Option.some.inj hother
      cases hbegins
  calc accepts (u.sent.take u.heard)
      = accepts (u.sent.take u.heard) ++ accepts (u.sent.drop u.heard) := by
        rw [hnone, List.append_nil]
    _ = accepts (u.sent.take u.heard ++ u.sent.drop u.heard) := List.filterMap_append.symm
    _ = accepts u.sent := by rw [hsplit]

namespace Trusted

theorem new : Trusted new := by
  constructor
  · intro m data _ hm
    cases hm
  · exact nofun

/-- No upload is accepted. -/
theorem note (h : Trusted u) (hlog : u'.log = u.log ++ xs)
    (haccepts : accepts (xs.filterMap Happening.message) = [])
    (hclean : ∀ x ∈ xs, x.isRefusal = false) (hsaid : u'.said = u.said) (hread : u.read ≤ u'.read) :
    Trusted u' := by
  have hall : accepts u'.sent = accepts u.sent := by
    rw [sent, hlog, List.filterMap_append, accepts, List.filterMap_append]
    exact (congrArg (_ ++ ·) haccepts).trans (List.append_nil _)
  constructor
  case chunks =>
    rw [hall, hsaid]
    intro m data hm hmessage
    obtain ⟨p, hp, hid, hends, hstarts⟩ := h.chunks m data (hread.trans hm) hmessage
    exact ⟨p, hp, hid, hends, fun k hk => hstarts k (hread.trans hk)⟩
  case clean =>
    rw [hlog]
    intro x hx
    exact (List.mem_append.mp hx).elim (h.clean x) (hclean x)

/-- What the client says now is no chunk, or one of its own upload. -/
theorem say (h : Trusted u) (hsound : Sound u) (hhonest : Honest u (some message)) :
    Trusted { u with said := u.said ++ [message] } := by
  have hearlier {k : ℕ} (hk : k < u.said.length) : (u.said ++ [message])[k]? = u.said[k]? :=
    List.getElem?_append_left hk
  constructor
  case clean => exact h.clean
  case chunks =>
    intro m data hm hmessage
    dsimp only at hm hmessage ⊢
    rcases Nat.lt_or_ge m u.said.length with hlt | hge
    · rw [hearlier hlt] at hmessage
      obtain ⟨p, hp, hid, hends, hstarts⟩ := h.chunks m data hm hmessage
      refine ⟨p, hp, hid, fun k hpk hk => ?_, fun k hread hk => ?_⟩
      · rw [hearlier (hk.trans hlt)]
        exact hends k hpk hk
      · rw [hearlier (hk.trans hlt)]
        exact hstarts k hread hk
    · -- it is what the client says now
      have hbound := (List.getElem?_eq_some_iff.mp hmessage).1
      rw [List.length_append, List.length_singleton] at hbound
      obtain rfl : m = u.said.length := by omega
      rw [List.getElem?_append_right (Nat.le_refl _), Nat.sub_self] at hmessage
      obtain rfl : message = .transferData data := Option.some.inj hmessage
      obtain ⟨hsettled, p, hp, hid, hends⟩ := hhonest
      rw [hsound.accepts_heard hsettled] at hp
      refine ⟨p, hp, hid, fun k hpk hk => ?_, fun k hread hk => ?_⟩
      · rw [hearlier hk, List.getElem?_eq_getElem hk, Option.any_some, hid]
        refine hends _ (List.mem_iff_getElem?.mpr ⟨k - (p.1 + 1), ?_⟩)
        rw [List.getElem?_drop, Nat.add_sub_cancel' hpk, List.getElem?_eq_getElem hk]
      · rw [hearlier hk, Bool.eq_false_iff]
        intro hstart
        -- it was answered, so it was read
        obtain ⟨⟨about, m⟩, hx, habout⟩ := List.mem_map.mp (hsettled k hk hstart)
        obtain rfl : about = some k := habout
        have hnumber : k ∈ u.abouts := List.mem_filterMap.mpr ⟨_, List.mem_of_mem_take hx, rfl⟩
        exact Nat.not_lt.mpr hread (hsound.numbers.below k hnumber)

/-- **No chunk that is read is refused.** -/
theorem not_refused (h : Trusted u) (hsound : Sound u) {data : TransferData}
    (hsaid : u.said[u.read]? = some (.transferData data)) :
    u.slot.transfer = some data.transferId ∨ u.ended = some data.transferId := by
  obtain ⟨p, hp, hid, hends, -⟩ := h.chunks u.read data (Nat.le_refl _) hsaid
  rcases hsound.course.last p hp with hopen | ⟨-, hended | ⟨k, hpk, hk, hend⟩⟩
  · exact .inl (hid ▸ hopen)
  · exact .inr (hid ▸ hended)
  · rw [hends k hpk hk] at hend
    cases hend

/-- What one step keeps, with an honest client. -/
theorem step (h : Trusted u) (hsound : Sound u) (hstep : Step u label u') (hhonest : Honest u label) :
    Trusted u' := by
  cases hstep with
  | say message => exact h.say hsound hhonest
  | hear => exact h.note (List.append_nil _).symm rfl nofun rfl (Nat.le_refl _)
  | push happenings hplain =>
    refine h.note rfl (accepts_neutral fun x hx => ?_) (fun x hx => ?_) rfl (Nat.le_refl _)
    · obtain ⟨m, rfl, hm⟩ := hplain x hx
      exact (neutral_plain hm).1
    · obtain ⟨m, rfl, hm⟩ := hplain x hx
      exact (neutral_plain hm).2
  | answer message happenings hslot hsaid hplain hone hchunk =>
    refine h.note rfl (accepts_neutral fun x hx => ?_) (fun x hx => ?_) rfl (Nat.le_succ _)
    · obtain ⟨m, rfl, hm⟩ := hplain x hx
      exact (neutral_plain hm).1
    · obtain ⟨m, rfl, hm⟩ := hplain x hx
      exact (neutral_plain hm).2
  | refuse data complaint hslot hsaid hother hended =>
    exact ((h.not_refused hsound hsaid).elim hother hended).elim
  | accept message accept slot hslot hsaid hstart hid hwrite =>
    constructor
    case chunks =>
      -- a chunk on its way would be of an upload accepted before this request
      intro m data hm hmessage
      obtain ⟨-, -, -, -, hstarts⟩ := h.chunks m data (Nat.le_of_succ_le hm) hmessage
      have hnone := hstarts u.read (Nat.le_refl _) hm
      rw [hsaid, Option.any_some, hstart] at hnone
      cases hnone
    case clean =>
      intro x hx
      rcases List.mem_append.mp hx with hold | hnew
      · exact h.clean x hold
      · rw [List.mem_singleton.mp hnew]
        rfl
  | chunk data hslot hsaid => exact h.note (List.append_nil _).symm rfl nofun rfl (Nat.le_succ _)
  | release end_ hslot hsaid =>
    refine h.note rfl rfl (fun x hx => ?_) rfl (Nat.le_succ _)
    rw [List.mem_singleton.mp hx]
    rfl
  | settle write complaint hslot =>
    refine h.note rfl (accepts_neutral fun x hx => ?_) (fun x hx => ?_) rfl (Nat.le_refl _)
    · obtain ⟨e, -, rfl⟩ := List.mem_map.mp hx
      exact neutral_error _ _
    · obtain ⟨e, -, rfl⟩ := List.mem_map.mp hx
      rfl
  | complete write hslot => exact h.note (List.append_nil _).symm rfl nofun rfl (Nat.le_refl _)
  | stop id outcome hslot =>
    refine h.note rfl rfl (fun x hx => ?_) rfl (Nat.le_refl _)
    rw [List.mem_singleton.mp hx]
    rfl

end Trusted

end Uploads

end Transfer

end KdxHotline
