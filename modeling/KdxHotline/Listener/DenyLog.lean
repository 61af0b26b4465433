import Mathlib.Algebra.BigOperators.Group.List.Basic
import Mathlib.Algebra.Order.Ring.Nat
import Mathlib.Data.List.AList
import Mathlib.Data.List.Induction
import KdxHotline.Foundations.Address
import KdxHotline.Limits

/-!
# The log of denied connections

A denied connection is only counted, for its address or, when too many addresses are tracked,
with all others. Now and then the rows that are due are taken: the first for an address right
away, another when a window has passed and it was denied since. An address that was not denied
for a window is forgotten.

Two things are kept over all calls. What was counted is in a row or still counted
(`KdxHotline.Listener.Accounted`). And an address that has no time of its last row has none in the
last window, so that forgetting it loses nothing (`KdxHotline.Listener.Spaced`).
-/

namespace KdxHotline

namespace Listener

open Foundations Limits

/-- At most one row for each address in this time, in nanoseconds. -/
def denyLogWindow : ℕ := 10 * 60 * 1000000000
/-- Most addresses that are tracked at once. -/
def denyLogMaxTracked : ℕ := 1024
/-- Longest note, in bytes. -/
def denyLogNoteLen : ℕ := 200

/-- The denials of an address that are not yet written. -/
structure DenyEntry where
  note : String
  pending : ℕ
  lastWritten : Option ℕ

/-- The denials that are not yet written. -/
structure DenyState where
  perAddr : AList fun _ : IpAddr => DenyEntry
  /-- Denials from addresses beyond those that are tracked. -/
  overflow : ℕ
  overflowWritten : Option ℕ

/-- A row for the history, and what its text shows. -/
structure DenyRow where
  /-- The address, or none for all that are not tracked. -/
  peer : Option IpAddr
  /-- The count, if there is one. -/
  connections : Option ℕ
  detail : String

/-- How many denials a row stands for. -/
def DenyRow.stands (row : DenyRow) : ℕ := row.connections.getD 1

variable (display : IpAddr → String)

/-- The row that is due for an address, and what is kept of its entry. -/
def DenyEntry.review (now : ℕ) (ip : IpAddr) (entry : DenyEntry) :
    Option DenyRow × Option DenyEntry :=
  let written : DenyEntry := { entry with pending := 0, lastWritten := some now }
  match entry.lastWritten with
  | none =>
    let row : DenyRow :=
      -- the first row of an address comes at once, whatever the window
      if 1 < entry.pending then
        ⟨some ip, some entry.pending, "peer=" ++ display ip ++ ", note=" ++ entry.note ++
          ", connections=" ++ entry.pending.repr⟩
      else ⟨some ip, none, "peer=" ++ display ip ++ ", note=" ++ entry.note⟩
    (some row, some written)
  | some last =>
    if denyLogWindow ≤ now - last then
      -- nothing came since the last row, so the entry is forgotten
      if entry.pending = 0 then (none, none)
      else
        (some ⟨some ip, some entry.pending, "peer=" ++ display ip ++ ", note=" ++ entry.note ++
          ", connections=" ++ entry.pending.repr ++ " in the last " ++
          (denyLogWindow / 1000000000).repr ++ "s"⟩, some written)
    else (none, some entry)

namespace DenyState

/-- No denial. -/
def new : DenyState := ⟨∅, 0, none⟩

/-- Count one denied connection, and say if the writer is to be woken. -/
def note (s : DenyState) (ip : IpAddr) (note : String) : DenyState × Bool :=
  match s.perAddr.lookup ip with
  | some entry =>
    ({ s with perAddr := s.perAddr.insert ip { entry with pending := entry.pending + 1 } }, false)
  | none =>
    if denyLogMaxTracked ≤ s.perAddr.entries.length then
      ({ s with overflow := s.overflow + 1 }, s.overflowWritten.isNone)
    else
      ({ s with perAddr := s.perAddr.insert ip ⟨truncateUtf8 note denyLogNoteLen, 1, none⟩ }, true)

/-- What is kept of the entries. -/
def kept (now : ℕ) (entries : List (Sigma fun _ : IpAddr => DenyEntry)) :
    List (Sigma fun _ : IpAddr => DenyEntry) :=
  entries.filterMap fun e => (e.2.review display now e.1).2.map (Sigma.mk e.1)

theorem keys_kept (now : ℕ) (entries : List (Sigma fun _ : IpAddr => DenyEntry)) :
    (kept display now entries).keys.Sublist entries.keys := by
  induction entries with
  | nil => exact .slnil
  | cons e entries ih =>
    rw [kept, List.filterMap_cons]
    cases (e.2.review display now e.1).2 with
    | none => exact ih.cons _
    | some entry => exact ih.cons_cons _

/-- The rows that are due, which count as written. -/
def takeDue (s : DenyState) (now : ℕ) : List DenyRow × DenyState :=
  let rows := s.perAddr.entries.filterMap fun e => (e.2.review display now e.1).1
  let perAddr : AList fun _ : IpAddr => DenyEntry :=
    ⟨kept display now s.perAddr.entries, List.Nodup.sublist (keys_kept display now _) s.perAddr.nodupKeys⟩
  let overflowDue := s.overflowWritten.elim true fun last => denyLogWindow ≤ now - last
  if 0 < s.overflow ∧ overflowDue = true then
    (rows ++ [⟨none, some s.overflow, "peer=(other addresses), connections=" ++ s.overflow.repr ++
      "; too many denied addresses to list individually"⟩],
      ⟨perAddr, 0, some now⟩)
  else (rows, { s with perAddr })

end DenyState

/-! ### Runs -/

/-- A call on the denials. -/
inductive DenyCall
  | note (ip : IpAddr) (note : String)
  | takeDue (now : ℕ)

/-- The log, and the rows it has returned with the times of that. -/
structure DenyRun where
  state : DenyState
  returned : List (ℕ × DenyRow)

/-- What a call does. -/
def DenyRun.step (r : DenyRun) : DenyCall → DenyRun
  | .note ip note => { r with state := (r.state.note ip note).1 }
  | .takeDue now =>
    let (rows, state) := r.state.takeDue display now
    ⟨state, r.returned ++ rows.map (Prod.mk now)⟩

/-- The log after some calls. -/
def DenyRun.after (calls : List DenyCall) : DenyRun := calls.foldl (step display) ⟨.new, []⟩

/-- Whether a call notes a denial. -/
def DenyCall.isNote : DenyCall → Bool
  | .note .. => true
  | .takeDue _ => false

/-- The time of a call that takes what is due. -/
def DenyCall.time : DenyCall → Option ℕ
  | .note .. => none
  | .takeDue now => some now

/-! ### One address -/

/-- Has no row of this address been written in the last window? -/
def DenyEntry.IsDue (entry : DenyEntry) (now : ℕ) : Prop :=
  ∀ last, entry.lastWritten = some last → denyLogWindow ≤ now - last

variable {display} {entry : DenyEntry} {now clock : ℕ} {ip : IpAddr} {row : DenyRow}
  {entries : List (Sigma fun _ : IpAddr => DenyEntry)} {s : DenyState} {r : DenyRun}

/-- What becomes of an address: it has a row, it is forgotten, or it stays as it is. -/
theorem review_cases (display : IpAddr → String) (now : ℕ) (ip : IpAddr) (entry : DenyEntry) :
    (∃ row written, entry.review display now ip = (some row, some written) ∧ entry.IsDue now ∧
      row.peer = some ip ∧ ((entry.lastWritten = none → 0 < entry.pending) → row.stands = entry.pending) ∧
      written.lastWritten = some now ∧ written.pending = 0) ∨
    (entry.review display now ip = (none, none) ∧ entry.IsDue now ∧ entry.pending = 0) ∨
    (entry.review display now ip = (none, some entry) ∧ entry.lastWritten.isSome) := by
  cases hlast : entry.lastWritten with
  | none =>
    refine .inl ⟨_, { entry with pending := 0, lastWritten := some now },
      by rw [DenyEntry.review, hlast], by simp [DenyEntry.IsDue, hlast], ?_, ?_, rfl, rfl⟩
    · split <;> rfl
    · intro hpos
      have hpending := hpos rfl
      split
      · rfl
      · show 1 = entry.pending
        omega
  | some last =>
    by_cases hdue : denyLogWindow ≤ now - last
    · have hisDue : entry.IsDue now := by simpa [DenyEntry.IsDue, hlast] using hdue
      by_cases hzero : entry.pending = 0
      · refine .inr (.inl ⟨?_, hisDue, hzero⟩)
        simp [DenyEntry.review, hlast, hdue, hzero]
      · refine .inl ⟨_, { entry with pending := 0, lastWritten := some now },
          by rw [DenyEntry.review, hlast]; exact (if_pos hdue).trans (if_neg hzero),
          hisDue, ?_, ?_, rfl, rfl⟩
        · rfl
        · exact fun _ => rfl
    · refine .inr (.inr ⟨?_, rfl⟩)
      simp [DenyEntry.review, hlast, hdue]

/-- An address that has a row was due, and is written now. -/
theorem review_row (h : (entry.review display now ip).1 = some row) :
    row.peer = some ip ∧ entry.IsDue now ∧
      (entry.review display now ip).2.bind DenyEntry.lastWritten = some now := by
  rcases review_cases display now ip entry with
    ⟨row', written, heq, hdue, hpeer, -, hwritten, -⟩ | ⟨heq, -⟩ | ⟨heq, -⟩
  · rw [heq] at h ⊢
    obtain rfl := Option.some.inj h
    exact ⟨hpeer, hdue, hwritten⟩
  · rw [heq] at h
    cases h
  · rw [heq] at h
    cases h

/-- The text of a row shows whose it is and, where it has a count, the count, which no digit
follows. -/
structure DenyRow.Shows (display : IpAddr → String) (row : DenyRow) : Prop where
  peer : ∃ rest, row.detail = "peer=" ++ row.peer.elim "(other addresses)" display ++ ", " ++ rest
  connections : ∀ n, row.connections = some n → ∃ front rest,
    row.detail = front ++ ", connections=" ++ n.repr ++ rest ∧
      ∀ c ∈ rest.toList.head?, c.isDigit = false

/-- The text of the row of an address. -/
theorem shows_peer (display : IpAddr → String) (ip : IpAddr) (note : String) (count : ℕ)
    (rest : String) (hrest : ∀ c ∈ rest.toList.head?, c.isDigit = false) :
    DenyRow.Shows display ⟨some ip, some count,
      "peer=" ++ display ip ++ ", note=" ++ note ++ ", connections=" ++ count.repr ++ rest⟩ where
  peer := by
    have hnote : ", note=" = ", " ++ "note=" := rfl
    exact ⟨"note=" ++ note ++ ", connections=" ++ count.repr ++ rest,
      by simp only [hnote, String.append_assoc, Option.elim_some]⟩
  connections n hn := by
    obtain rfl := Option.some.inj hn
    exact ⟨"peer=" ++ display ip ++ ", note=" ++ note, rest, rfl, hrest⟩

/-- The row of an address says its peer and its count. -/
theorem review_shows (h : (entry.review display now ip).1 = some row) : row.Shows display := by
  rw [DenyEntry.review] at h
  dsimp only at h
  split at h
  · obtain rfl := Option.some.inj h
    split
    · have hshows := shows_peer display ip entry.note entry.pending "" (by simp)
      rwa [String.append_empty] at hshows
    · have hnote : ", note=" = ", " ++ "note=" := rfl
      refine ⟨⟨"note=" ++ entry.note, ?_⟩, fun _ hn => by cases hn⟩
      simp only [hnote, String.append_assoc, Option.elim_some]
  · split at h
    · split at h
      · cases h
      · obtain rfl := Option.some.inj h
        have hhead : ∀ c ∈ (" in the last " ++
            ((denyLogWindow / 1000000000).repr ++ "s")).toList.head?, c.isDigit = false := by
          rintro c ⟨⟩
          rfl
        have hshows := shows_peer display ip entry.note entry.pending _ hhead
        rwa [← String.append_assoc, ← String.append_assoc] at hshows
    · cases h

/-- What is kept of an address is what is kept of its entry. -/
theorem dlookup_kept (hnodup : entries.NodupKeys) (ip : IpAddr) :
    (DenyState.kept display now entries).dlookup ip =
      (entries.dlookup ip).bind fun entry => (entry.review display now ip).2 := by
  induction entries with
  | nil => rfl
  | cons e entries ih =>
    obtain ⟨ip', entry⟩ := e
    obtain ⟨hnew, hrest⟩ := List.nodupKeys_cons.mp hnodup
    by_cases hip : ip = ip'
    · subst hip
      rw [List.dlookup_cons_eq, Option.bind_some, DenyState.kept, List.filterMap_cons]
      cases hkept : (entry.review display now ip).2 with
      | some kept => simp
      | none =>
        have hgone : ip ∉ (DenyState.kept display now entries).keys :=
          fun hmem => hnew ((DenyState.keys_kept display now entries).subset hmem)
        exact List.dlookup_eq_none.mpr hgone
    · rw [List.dlookup_cons_ne _ _ hip, ← ih hrest, DenyState.kept, List.filterMap_cons]
      cases (entry.review display now ip').2 with
      | some kept => exact List.dlookup_cons_ne _ _ hip
      | none => rfl

/-! ### What is counted -/

/-- The denials that entries count. -/
def pendingOf (entries : List (Sigma fun _ : IpAddr => DenyEntry)) : ℕ :=
  (entries.map fun e => e.2.pending).sum

/-- The denials that rows stand for. -/
def standsOf (rows : List DenyRow) : ℕ := (rows.map DenyRow.stands).sum

/-- An entry without a row counts something. -/
def Fresh (entries : List (Sigma fun _ : IpAddr => DenyEntry)) : Prop :=
  ∀ e ∈ entries, e.2.lastWritten = none → 0 < e.2.pending

/-- What an address counts is in its row or kept. -/
theorem pending_review (hfresh : entry.lastWritten = none → 0 < entry.pending) :
    standsOf (entry.review display now ip).1.toList +
      pendingOf (((entry.review display now ip).2.map (Sigma.mk ip)).toList) = entry.pending := by
  rcases review_cases display now ip entry with
    ⟨row, written, heq, -, -, hstands, -, hzero⟩ | ⟨heq, -, hzero⟩ | ⟨heq, -⟩
  · simp [heq, standsOf, pendingOf, hstands hfresh, hzero]
  · simp [heq, standsOf, pendingOf, hzero]
  · simp [heq, standsOf, pendingOf]

/-- What is not written stays pending. -/
theorem pending_kept (hfresh : Fresh entries) :
    standsOf (entries.filterMap fun e => (e.2.review display now e.1).1) +
      pendingOf (DenyState.kept display now entries) = pendingOf entries := by
  induction entries with
  | nil => rfl
  | cons e entries ih =>
    have hrest := ih fun e he => hfresh e (List.mem_cons_of_mem _ he)
    have hfirst := @pending_review display e.2 now e.1 (hfresh e List.mem_cons_self)
    have hrows : standsOf ((e :: entries).filterMap fun e => (e.2.review display now e.1).1) =
        standsOf (e.2.review display now e.1).1.toList +
          standsOf (entries.filterMap fun e => (e.2.review display now e.1).1) := by
      rw [List.filterMap_cons]
      cases (e.2.review display now e.1).1 <;> simp [standsOf]
    have hkept : pendingOf (DenyState.kept display now (e :: entries)) =
        pendingOf (((e.2.review display now e.1).2.map (Sigma.mk e.1)).toList) +
          pendingOf (DenyState.kept display now entries) := by
      rw [DenyState.kept, List.filterMap_cons]
      cases (e.2.review display now e.1).2 <;> simp [pendingOf, DenyState.kept]
    have hall : pendingOf (e :: entries) = e.2.pending + pendingOf entries := by simp [pendingOf]
    omega

/-- An address that is denied again. -/
theorem pending_insert (hip : s.perAddr.lookup ip = some entry) {counted : DenyEntry} :
    pendingOf (s.perAddr.insert ip counted).entries + entry.pending =
      pendingOf s.perAddr.entries + counted.pending := by
  have hmem : ip ∈ s.perAddr.entries.keys := AList.lookup_isSome.mp (by rw [hip]; rfl)
  obtain ⟨entry', before, after, hbefore, hsplit, herase⟩ := List.exists_of_kerase hmem
  have hentry : entry' = entry := by
    have hlookup : s.perAddr.entries.dlookup ip = some entry := hip
    rw [hsplit, List.dlookup_append, List.dlookup_eq_none.mpr hbefore] at hlookup
    simpa using hlookup
  rw [AList.entries_insert, herase, hsplit, hentry]
  simp only [pendingOf, List.map_cons, List.map_append, List.sum_cons, List.sum_append]
  omega

/-- The denials that a log can account for. -/
def DenyRun.accounted (r : DenyRun) : ℕ :=
  standsOf (r.returned.map Prod.snd) + pendingOf r.state.perAddr.entries + r.state.overflow

/-- What is kept of the entries has rows. -/
theorem fresh_kept (now : ℕ) : Fresh (DenyState.kept display now entries) := by
  intro e he hnone
  obtain ⟨e', -, hkept⟩ := List.mem_filterMap.mp he
  obtain ⟨kept, hreview, rfl⟩ := Option.map_eq_some_iff.mp hkept
  rcases review_cases display now e'.1 e'.2 with
    ⟨_, written, heq, -, -, -, hwritten, -⟩ | ⟨heq, -⟩ | ⟨heq, hsome⟩
  · rw [heq] at hreview
    obtain rfl := Option.some.inj hreview
    cases hnone.symm.trans hwritten
  · rw [heq] at hreview
    cases hreview
  · rw [heq] at hreview
    obtain rfl := Option.some.inj hreview
    rw [show e'.2.lastWritten = none from hnone] at hsome
    cases hsome

/-- What is taken is written, and the rest stays. -/
theorem accounted_takeDue (hfresh : Fresh s.perAddr.entries) :
    standsOf (s.takeDue display now).1 + pendingOf (s.takeDue display now).2.perAddr.entries +
      (s.takeDue display now).2.overflow = pendingOf s.perAddr.entries + s.overflow := by
  have hkept := @pending_kept display now s.perAddr.entries hfresh
  rw [DenyState.takeDue]
  split
  case isTrue =>
    simp only [standsOf, List.map_append, List.sum_append, List.map_singleton, List.sum_singleton,
      DenyRow.stands, Option.getD_some] at hkept ⊢
    omega
  case isFalse =>
    dsimp only
    omega

theorem fresh_insert (hfresh : Fresh s.perAddr.entries)
    (hentry : entry.lastWritten = none → 0 < entry.pending) :
    Fresh (s.perAddr.insert ip entry).entries := by
  intro e he hnone
  rw [AList.entries_insert] at he
  rcases List.mem_cons.mp he with rfl | he
  · exact hentry hnone
  · exact hfresh e ((List.kerase_sublist _ _).subset he) hnone

/-- An address is denied: one more is counted, and an entry without a row counts something. -/
theorem accounted_note (hfresh : Fresh s.perAddr.entries) (ip : IpAddr) (note : String) :
    pendingOf (s.note ip note).1.perAddr.entries + (s.note ip note).1.overflow =
      pendingOf s.perAddr.entries + s.overflow + 1 ∧ Fresh (s.note ip note).1.perAddr.entries := by
  rw [DenyState.note]
  cases hip : s.perAddr.lookup ip with
  | some entry =>
    have hcount := @pending_insert entry ip s hip { entry with pending := entry.pending + 1 }
    refine ⟨?_, fresh_insert hfresh fun _ => Nat.succ_pos _⟩
    dsimp only at hcount ⊢
    omega
  | none =>
    dsimp only
    split
    case isTrue =>
      refine ⟨?_, hfresh⟩
      dsimp only
      omega
    case isFalse =>
      refine ⟨?_, fresh_insert hfresh fun _ => Nat.one_pos⟩
      dsimp only
      rw [AList.entries_insert_of_notMem (AList.lookup_eq_none.mp hip), pendingOf, List.map_cons,
        List.sum_cons, pendingOf]
      dsimp only
      omega

/-! ### When rows are written -/

/-- When an address had its last row, as far as the log knows. -/
def DenyState.lastOf (s : DenyState) (ip : IpAddr) : Option ℕ :=
  (s.perAddr.lookup ip).bind DenyEntry.lastWritten

/-- What a log knows of the times of its rows. -/
structure Spaced (clock : ℕ) (s : DenyState) (returned : List (ℕ × DenyRow)) : Prop where
  past : ∀ r ∈ returned, r.1 ≤ clock
  written : ∀ ⦃ip last⦄, s.lastOf ip = some last → ∀ r ∈ returned, r.2.peer = some ip → r.1 ≤ last
  /-- An address of which the log knows no row has none in the last window. -/
  quiet : ∀ ⦃ip⦄, s.lastOf ip = none →
    ∀ r ∈ returned, r.2.peer = some ip → r.1 + denyLogWindow ≤ clock
  overflow : ∀ r ∈ returned, r.2.peer = none → ∃ last, s.overflowWritten = some last ∧ r.1 ≤ last
  apart : returned.Pairwise fun r r' => r.2.peer = r'.2.peer → r.1 + denyLogWindow ≤ r'.1

variable {returned : List (ℕ × DenyRow)}

theorem lastOf_insert (h : entry.lastWritten = s.lastOf ip) :
    ({ s with perAddr := s.perAddr.insert ip entry } : DenyState).lastOf = s.lastOf := by
  funext other
  rw [DenyState.lastOf]
  by_cases heq : other = ip
  · rw [heq, AList.lookup_insert, Option.bind_some, h]
  · rw [AList.lookup_insert_ne heq, DenyState.lastOf]

/-- A denial is no row. -/
theorem lastOf_note (s : DenyState) (ip : IpAddr) (note : String) :
    (s.note ip note).1.lastOf = s.lastOf ∧ (s.note ip note).1.overflowWritten = s.overflowWritten := by
  rw [DenyState.note]
  cases hip : s.perAddr.lookup ip with
  | some entry => exact ⟨lastOf_insert (by rw [DenyState.lastOf, hip, Option.bind_some]), rfl⟩
  | none =>
    dsimp only
    split
    case isTrue => exact ⟨rfl, rfl⟩
    case isFalse => exact ⟨lastOf_insert (by rw [DenyState.lastOf, hip, Option.bind_none]), rfl⟩

theorem Spaced.note (h : Spaced clock s returned) (ip : IpAddr) (note : String) :
    Spaced clock (s.note ip note).1 returned := by
  obtain ⟨hlast, hoverflow⟩ := lastOf_note s ip note
  exact ⟨h.past, hlast ▸ h.written, hlast ▸ h.quiet, hoverflow ▸ h.overflow, h.apart⟩

theorem window_pos : 0 < denyLogWindow := by decide

/-- The last row of an address that is due again is a window ago. -/
theorem Spaced.ago (h : Spaced clock s returned) (hclock : clock ≤ now)
    (hip : s.perAddr.lookup ip = some entry) (hdue : entry.IsDue now) :
    ∀ r ∈ returned, r.2.peer = some ip → r.1 + denyLogWindow ≤ now := by
  intro r hr hpeer
  have hlastOf : s.lastOf ip = entry.lastWritten := by rw [DenyState.lastOf, hip, Option.bind_some]
  cases hlast : entry.lastWritten with
  | none => exact (h.quiet (hlastOf.trans hlast) r hr hpeer).trans hclock
  | some last =>
    have hgap := hdue last hlast
    have hle := h.written (hlastOf.trans hlast) r hr hpeer
    have hpos := window_pos
    omega

theorem takeDue_perAddr (s : DenyState) (ip : IpAddr) :
    (s.takeDue display now).2.perAddr.lookup ip =
      (s.perAddr.lookup ip).bind fun entry => (entry.review display now ip).2 := by
  rw [DenyState.takeDue]
  split <;> exact dlookup_kept s.perAddr.nodupKeys ip

/-- A row that is returned is for an address that is due, or for all others. -/
theorem takeDue_cases (h : row ∈ (s.takeDue display now).1) :
    (∃ ip entry, s.perAddr.lookup ip = some entry ∧ entry.IsDue now ∧ row.peer = some ip ∧
      (s.takeDue display now).2.lastOf ip = some now) ∨
    row.peer = none ∧ (s.takeDue display now).2.overflowWritten = some now ∧
      ∀ last, s.overflowWritten = some last → denyLogWindow ≤ now - last := by
  have hentry (hrow : row ∈ s.perAddr.entries.filterMap fun e => (e.2.review display now e.1).1) :
      ∃ ip entry, s.perAddr.lookup ip = some entry ∧ entry.IsDue now ∧ row.peer = some ip ∧
        (s.takeDue display now).2.lastOf ip = some now := by
    obtain ⟨⟨ip, entry⟩, hmem, hreview⟩ := List.mem_filterMap.mp hrow
    have hlookup : s.perAddr.lookup ip = some entry := AList.mem_lookup_iff.mpr hmem
    obtain ⟨hpeer, hdue, hlast⟩ := review_row hreview
    refine ⟨ip, entry, hlookup, hdue, hpeer, ?_⟩
    rw [DenyState.lastOf, takeDue_perAddr, hlookup, Option.bind_some]
    exact hlast
  rw [DenyState.takeDue] at h hentry ⊢
  split at h
  case isTrue hdue =>
    rcases List.mem_append.mp h with hrow | hrow
    · exact .inl (hentry hrow)
    · rw [List.mem_singleton.mp hrow, if_pos hdue]
      refine .inr ⟨rfl, rfl, fun last hlast => ?_⟩
      rw [hlast] at hdue
      exact of_decide_eq_true hdue.2
  case isFalse => exact .inl (hentry h)

/-- No two rows that are returned at once are for the same. -/
theorem takeDue_pairwise (s : DenyState) (now : ℕ) :
    (s.takeDue display now).1.Pairwise fun row row' => row.peer ≠ row'.peer := by
  have hrows : (s.perAddr.entries.filterMap fun e => (e.2.review display now e.1).1).Pairwise
      fun row row' => row.peer ≠ row'.peer := by
    refine List.Pairwise.filterMap _ ?_ (List.nodupKeys_iff_pairwise.mp s.perAddr.nodupKeys)
    intro e e' hne row hrow row' hrow' heq
    rw [(review_row hrow).1, (review_row hrow').1] at heq
    exact hne (Option.some.inj heq)
  rw [DenyState.takeDue]
  split
  case isTrue =>
    refine List.pairwise_append.mpr ⟨hrows, List.pairwise_singleton _ _, ?_⟩
    intro row hrow row' hrow' heq
    obtain ⟨e, -, hreview⟩ := List.mem_filterMap.mp hrow
    rw [(review_row hreview).1, List.mem_singleton.mp hrow'] at heq
    cases heq
  case isFalse => exact hrows

/-- An address whose last row is not known any more was due, or has none. -/
theorem lastOf_takeDue (h : (s.takeDue display now).2.lastOf ip = none) :
    s.lastOf ip = none ∨ ∃ entry, s.perAddr.lookup ip = some entry ∧ entry.IsDue now := by
  rw [DenyState.lastOf, takeDue_perAddr] at h
  cases hip : s.perAddr.lookup ip with
  | none => exact .inl (by rw [DenyState.lastOf, hip, Option.bind_none])
  | some entry =>
    rw [hip, Option.bind_some] at h
    rcases review_cases display now ip entry with ⟨_, _, -, hdue, -⟩ | ⟨-, hdue, -⟩ | ⟨heq, hsome⟩
    · exact .inr ⟨entry, rfl, hdue⟩
    · exact .inr ⟨entry, rfl, hdue⟩
    · rw [heq, Option.bind_some] at h
      rw [h] at hsome
      cases hsome

/-- The time of a last row that is known is the old one, or now. -/
theorem le_lastOf_takeDue {last : ℕ} (h : (s.takeDue display now).2.lastOf ip = some last) :
    last = now ∨ s.lastOf ip = some last := by
  rw [DenyState.lastOf, takeDue_perAddr] at h
  cases hip : s.perAddr.lookup ip with
  | none =>
    rw [hip] at h
    cases h
  | some entry =>
    rw [hip, Option.bind_some] at h
    rcases review_cases display now ip entry with
      ⟨_, written, heq, -, -, -, hwritten, -⟩ | ⟨heq, -⟩ | ⟨heq, -⟩
    · rw [heq, Option.bind_some, hwritten] at h
      exact .inl (Option.some.inj h).symm
    · rw [heq] at h
      cases h
    · rw [heq, Option.bind_some] at h
      exact .inr (by rw [DenyState.lastOf, hip, Option.bind_some, h])

theorem overflowWritten_takeDue (s : DenyState) (now : ℕ) :
    (s.takeDue display now).2.overflowWritten = some now ∨
      (s.takeDue display now).2.overflowWritten = s.overflowWritten := by
  rw [DenyState.takeDue]
  split
  case isTrue => exact .inl rfl
  case isFalse => exact .inr rfl

/-- Rows of one address stay apart in time. -/
theorem Spaced.takeDue (h : Spaced clock s returned) (hclock : clock ≤ now) :
    Spaced now (s.takeDue display now).2
      (returned ++ (s.takeDue display now).1.map (Prod.mk now)) := by
  have hnew {r : ℕ × DenyRow} (hr : r ∈ (s.takeDue display now).1.map (Prod.mk now)) :
      r.1 = now ∧ r.2 ∈ (s.takeDue display now).1 := by
    obtain ⟨row, hrow, rfl⟩ := List.mem_map.mp hr
    exact ⟨rfl, hrow⟩
  constructor
  case past =>
    intro r hr
    rcases List.mem_append.mp hr with hr | hr
    · exact (h.past r hr).trans hclock
    · exact (hnew hr).1.le
  case written =>
    intro ip last hlast r hr hpeer
    rcases List.mem_append.mp hr with hr | hr
    -- an old row: its address was written now, or is as it was
    · rcases le_lastOf_takeDue hlast with hnow | hold
      · exact hnow ▸ (h.past r hr).trans hclock
      · exact h.written hold r hr hpeer
    · rcases takeDue_cases (hnew hr).2 with ⟨ip', _, -, -, hpeer', hnow⟩ | ⟨hnone, -⟩
      · obtain rfl := Option.some.inj (hpeer.symm.trans hpeer')
        obtain rfl := Option.some.inj (hlast.symm.trans hnow)
        exact (hnew hr).1.le
      · cases hnone.symm.trans hpeer
  case quiet =>
    intro ip hnone r hr hpeer
    rcases List.mem_append.mp hr with hr | hr
    -- an address is forgotten once its window is over
    · rcases lastOf_takeDue hnone with hold | ⟨entry, hip, hdue⟩
      · exact (h.quiet hold r hr hpeer).trans hclock
      · exact h.ago hclock hip hdue r hr hpeer
    · rcases takeDue_cases (hnew hr).2 with ⟨ip', _, -, -, hpeer', hnow⟩ | ⟨hother, -⟩
      · obtain rfl := Option.some.inj (hpeer.symm.trans hpeer')
        cases hnone.symm.trans hnow
      · cases hother.symm.trans hpeer
  case overflow =>
    intro r hr hpeer
    rcases List.mem_append.mp hr with hr | hr
    · obtain ⟨last, hlast, hle⟩ := h.overflow r hr hpeer
      rcases @overflowWritten_takeDue display s now with hnow | hsame
      · exact ⟨now, hnow, (h.past r hr).trans hclock⟩
      · exact ⟨last, hsame.trans hlast, hle⟩
    · rcases takeDue_cases (hnew hr).2 with ⟨ip, _, -, -, hsome, -⟩ | ⟨-, hnow, -⟩
      · cases hsome.symm.trans hpeer
      · exact ⟨now, hnow, (hnew hr).1.le⟩
  case apart =>
    refine List.pairwise_append.mpr ⟨h.apart, ?_, ?_⟩
    -- rows of one call are of different addresses
    · refine List.pairwise_map.mpr ((takeDue_pairwise s now).imp ?_)
      exact fun hne heq => absurd heq hne
    · intro r hr r' hr' heq
      rw [(hnew hr').1]
      rcases takeDue_cases (hnew hr').2 with ⟨ip, entry, hip, hdue, hpeer, -⟩ | ⟨hpeer, -, hdue⟩
      · exact h.ago hclock hip hdue r hr (heq.trans hpeer)
      · obtain ⟨last, hlast, hle⟩ := h.overflow r hr (heq.trans hpeer)
        have hgap := hdue last hlast
        have hpos := window_pos
        omega

/-- **The text of every row that is returned shows what it stands for.** -/
theorem takeDue_shows (h : row ∈ (s.takeDue display now).1) : row.Shows display := by
  have hdue {row : DenyRow}
      (hrow : row ∈ s.perAddr.entries.filterMap fun e => (e.2.review display now e.1).1) :
      row.Shows display := by
    obtain ⟨e, -, he⟩ := List.mem_filterMap.mp hrow
    exact review_shows he
  rw [DenyState.takeDue] at h
  split at h
  case isFalse => exact hdue h
  case isTrue =>
    rcases List.mem_append.mp h with h | h
    · exact hdue h
    · rw [List.mem_singleton.mp h]
      have hpeer : "peer=(other addresses), connections=" =
          "peer=" ++ "(other addresses)" ++ ", " ++ "connections=" := rfl
      have hfront : "peer=(other addresses), connections=" =
          "peer=(other addresses)" ++ ", connections=" := rfl
      constructor
      case peer =>
        refine ⟨"connections=" ++ s.overflow.repr ++
          "; too many denied addresses to list individually", ?_⟩
        simp only [hpeer, String.append_assoc, Option.elim_none]
      case connections =>
        intro n hn
        obtain rfl := Option.some.inj hn
        have hhead : ∀ c ∈ "; too many denied addresses to list individually".toList.head?,
            c.isDigit = false := by
          rintro c ⟨⟩
          rfl
        refine ⟨"peer=(other addresses)", _, ?_, hhead⟩
        simp only [hfront]

/-! ### Every run -/

/-- What a log knows after some calls. -/
structure Logged (display : IpAddr → String) (calls : List DenyCall) (r : DenyRun) : Prop where
  fresh : Fresh r.state.perAddr.entries
  shown : ∀ row ∈ r.returned, row.2.Shows display
  accounted : calls.countP DenyCall.isNote = r.accounted
  tracked : r.state.perAddr.entries.length ≤ denyLogMaxTracked

/-- No more addresses are tracked than may be. -/
theorem length_note (h : s.perAddr.entries.length ≤ denyLogMaxTracked) (ip : IpAddr) (note : String) :
    (s.note ip note).1.perAddr.entries.length ≤ denyLogMaxTracked := by
  rw [DenyState.note]
  cases hip : s.perAddr.lookup ip with
  | some entry =>
    dsimp only
    have hmem : ip ∈ s.perAddr.entries.keys := AList.lookup_isSome.mp (by rw [hip]; rfl)
    obtain ⟨_, before, after, -, hsplit, herase⟩ := List.exists_of_kerase hmem
    rw [AList.entries_insert, herase]
    rw [hsplit] at h
    simp only [List.length_append, List.length_cons] at h ⊢
    omega
  | none =>
    dsimp only
    split
    case isTrue => exact h
    case isFalse hroom =>
      rw [AList.entries_insert_of_notMem (AList.lookup_eq_none.mp hip), List.length_cons]
      exact Nat.lt_of_not_le hroom

theorem fresh_takeDue (s : DenyState) (now : ℕ) :
    Fresh (s.takeDue display now).2.perAddr.entries := by
  rw [DenyState.takeDue]
  split <;> exact fresh_kept now

theorem length_takeDue (s : DenyState) (now : ℕ) :
    (s.takeDue display now).2.perAddr.entries.length ≤ s.perAddr.entries.length := by
  rw [DenyState.takeDue]
  split <;> exact List.length_filterMap_le _ _

theorem DenyRun.after_concat (calls : List DenyCall) (call : DenyCall) :
    DenyRun.after display (calls ++ [call]) = (DenyRun.after display calls).step display call :=
  List.foldl_concat _ _ _ _

/-- What every run keeps of the counts. -/
theorem logged (calls : List DenyCall) : Logged display calls (.after display calls) := by
  induction calls using List.reverseRecOn with
  | nil => exact ⟨fun _ he => (List.not_mem_nil he).elim, nofun, rfl, Nat.zero_le _⟩
  | append_singleton calls call ih =>
    obtain ⟨hfresh, hshown, haccounted, htracked⟩ := ih
    rw [DenyRun.after_concat]
    generalize DenyRun.after display calls = r at hfresh hshown haccounted htracked ⊢
    cases call with
    | note ip note =>
      obtain ⟨hcount, hkept⟩ := accounted_note hfresh ip note
      refine ⟨hkept, hshown, ?_, length_note htracked ip note⟩
      rw [List.countP_append, haccounted]
      simp only [DenyRun.accounted, DenyRun.step, List.countP_singleton, DenyCall.isNote, if_true]
      omega
    | takeDue now =>
      have hcount := @accounted_takeDue display now r.state hfresh
      refine ⟨fresh_takeDue r.state now, fun row hrow => ?_, ?_,
        (length_takeDue r.state now).trans htracked⟩
      · rcases List.mem_append.mp hrow with hold | hnew
        · exact hshown row hold
        · obtain ⟨due, hdue, rfl⟩ := List.mem_map.mp hnew
          exact takeDue_shows hdue
      rw [List.countP_append, haccounted]
      simp only [DenyRun.accounted, DenyRun.step, List.map_append, List.map_map, Function.comp_def,
        List.map_id', standsOf, List.sum_append, List.countP_singleton, DenyCall.isNote] at hcount ⊢
      simp only [Bool.false_eq_true, if_false]
      omega

/-- The times of the calls that take rows. -/
def timesOf (calls : List DenyCall) : List ℕ := calls.filterMap DenyCall.time

/-- What every run keeps of the times. -/
theorem spaced (calls : List DenyCall) (h : (timesOf calls).Pairwise (· ≤ ·)) :
    ∃ clock, (clock = 0 ∨ clock ∈ timesOf calls) ∧
      Spaced clock (DenyRun.after display calls).state (DenyRun.after display calls).returned := by
  induction calls using List.reverseRecOn with
  | nil => exact ⟨0, .inl rfl, by constructor <;> simp [DenyRun.after]⟩
  | append_singleton calls call ih =>
    rw [timesOf, List.filterMap_append] at h ⊢
    obtain ⟨hcalls, -, hlater⟩ := List.pairwise_append.mp h
    obtain ⟨clock, hclock, hspaced⟩ := ih hcalls
    rw [DenyRun.after_concat]
    cases call with
    | note ip note =>
      refine ⟨clock, hclock.imp_right (List.mem_append_left _), hspaced.note ip note⟩
    | takeDue now =>
      have hle : clock ≤ now := by
        rcases hclock with rfl | hmem
        · exact Nat.zero_le _
        · exact hlater clock hmem now (List.mem_singleton_self _)
      exact ⟨now, .inr (List.mem_append_right _ (List.mem_singleton_self _)), hspaced.takeDue hle⟩

/-- **Every denial is counted exactly once.** It is in a row that was returned, or pending for its
address, or in the overflow; two rows for one address, or two for all others, are a window apart;
and so many addresses are tracked at most. The text of a row shows whose it is, and its count. -/
theorem denials_counted_once (display : IpAddr → String) (calls : List DenyCall)
    (h : (timesOf calls).Pairwise (· ≤ ·)) :
    let r := DenyRun.after display calls
    calls.countP DenyCall.isNote = (r.returned.map fun row => row.2.stands).sum +
        (r.state.perAddr.entries.map fun e => e.2.pending).sum + r.state.overflow ∧
      (r.returned.Pairwise fun row row' =>
        row.2.peer = row'.2.peer → row.1 + denyLogWindow ≤ row'.1) ∧
      r.state.perAddr.entries.length ≤ denyLogMaxTracked ∧
      ∀ row ∈ r.returned, row.2.Shows display := by
  obtain ⟨-, hshown, haccounted, htracked⟩ := @logged display calls
  obtain ⟨clock, -, hspaced⟩ := @spaced display calls h
  refine ⟨?_, hspaced.apart, htracked, hshown⟩
  rw [haccounted, DenyRun.accounted, standsOf, List.map_map]
  rfl

/-- Two denials of one address and, after its row, one of another. -/
def twoPeers : List DenyCall :=
  [.note (.v4 1) "", .note (.v4 1) "", .takeDue 5, .note (.v4 2) "", .takeDue (5 + denyLogWindow)]

/-- Two peers are denied, one of them twice. -/
theorem denials_counted_once_twoPeers :
    let r := DenyRun.after (fun _ => "peer") twoPeers
    (r.returned.map fun row => (row.1, row.2.peer, row.2.stands)) =
        [(5, some (.v4 1), 2), (5 + denyLogWindow, some (.v4 2), 1)] ∧
      twoPeers.countP DenyCall.isNote = (r.returned.map fun row => row.2.stands).sum +
        (r.state.perAddr.entries.map fun e => e.2.pending).sum + r.state.overflow ∧
      (r.returned.Pairwise fun row row' =>
        row.2.peer = row'.2.peer → row.1 + denyLogWindow ≤ row'.1) ∧
      r.state.perAddr.entries.length ≤ denyLogMaxTracked ∧
      ∀ row ∈ r.returned, row.2.Shows fun _ => "peer" := by
  have htimes : (timesOf twoPeers).Pairwise (· ≤ ·) := by decide
  exact ⟨rfl, denials_counted_once (fun _ => "peer") twoPeers htimes⟩

end Listener

end KdxHotline
