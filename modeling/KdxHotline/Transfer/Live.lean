import Mathlib.Data.Finmap
import Mathlib.Data.Multiset.AddSub
import Mathlib.Algebra.BigOperators.Group.Multiset.Basic
import KdxHotline.Foundations.Runs
import KdxHotline.Files.Names
import KdxHotline.Storage.TransferState
import KdxHotline.Transfer.Limits

/-!
# The live transfers

What the server keeps in memory of the transfers in progress: which ids are
held, which names are spoken for, how many transfers each account and the server
run, and how many bytes they may still write. Every transfer carries a claim,
and dropping the claim gives back what it took.

`KdxHotline.Transfer.Exact` says that the books are balanced: they hold what the
outstanding claims took and nothing else. It survives every claim, refused or
not, and every drop (`KdxHotline.Transfer.exact_run`).
-/

namespace KdxHotline

namespace Transfer

open Foundations Storage Files

/-! ### The books -/

/-- The books of the transfers that are under way. -/
structure Live where
  /-- Ids held right now, by a live upload or by a sweep. -/
  held : Finset Uuid
  /-- Names claimed by live uploads, per destination folder. -/
  destinations : Finmap fun _ : String => Finset String
  /-- Live uploads and downloads, per account. -/
  perAccount : Finmap fun _ : String => ℕ × ℕ
  /-- Live uploads plus downloads. -/
  total : ℕ
  /-- Bytes live uploads may still write. -/
  reservedBytes : ℕ
  /-- The accounts that have throttles. -/
  buckets : Finset String

/-- No transfer under way. -/
def Live.default : Live := ⟨∅, ∅, ∅, 0, 0, ∅⟩

/-- What a claim gives back when it is dropped. -/
inductive ClaimKind
  | upload (accountId : String) (id : Uuid) (destination : Option (String × String)) (bytes : ℕ)
  | download (accountId : String)
  | hold (id : Uuid)
  deriving DecidableEq

/-- Which name a new upload claim reserves in its destination folder. -/
inductive Destination
  | exact (parent name : String)
  | free (parent name : String) (budget : ℕ) (taken : String → Bool)
  | filed

/-- The two counters of an account. -/
inductive Direction
  | up
  | down
  deriving DecidableEq

namespace Direction

/-- The transfers of a direction. -/
def count : Direction → ℕ × ℕ → ℕ
  | up, c => c.1
  | down, c => c.2

/-- Change the count of a direction. -/
def change (f : ℕ → ℕ) : Direction → ℕ × ℕ → ℕ × ℕ
  | up, c => (f c.1, c.2)
  | down, c => (c.1, f c.2)

@[simp] theorem count_change_self (f : ℕ → ℕ) (d : Direction) (c : ℕ × ℕ) :
    d.count (d.change f c) = f (d.count c) := by
  cases d <;> rfl

theorem count_change_ne (f : ℕ → ℕ) {d e : Direction} (h : d ≠ e) (c : ℕ × ℕ) :
    d.count (e.change f c) = d.count c := by
  cases d <;> cases e <;> first | rfl | exact absurd rfl h

theorem ext_count {c c' : ℕ × ℕ} (h : ∀ d : Direction, d.count c = d.count c') : c = c' :=
  Prod.ext (h .up) (h .down)

end Direction

namespace Live

/-- Whether a live upload has claimed the name. -/
def isReserved (live : Live) (parentId name : String) : Bool :=
  match live.destinations.lookup parentId with
  | some names => decide (name ∈ names)
  | none => false

/-- Claim a name in a folder. -/
def reserveName (parentId name : String) (live : Live) : Live :=
  { live with
    destinations := live.destinations.insert parentId
      (insert name ((live.destinations.lookup parentId).getD ∅)) }

/-- Give back a name in a folder. -/
def releaseName (parentId name : String) (live : Live) : Live :=
  { live with
    destinations := match live.destinations.lookup parentId with
      | some names =>
        if names.erase name = ∅ then live.destinations.erase parentId
        else live.destinations.insert parentId (names.erase name)
      | none => live.destinations }

/-- An account's counters. -/
def counts (live : Live) (accountId : String) : ℕ × ℕ :=
  (live.perAccount.lookup accountId).getD (0, 0)

/-- Reserve the name an upload is headed for, if any. -/
def reserve (destination : Option (String × String)) (live : Live) : Live :=
  match destination with
  | some (parent, name) => live.reserveName parent name
  | none => live

/-- Give up the name an upload was headed for, if any. -/
def unreserve (destination : Option (String × String)) (live : Live) : Live :=
  match destination with
  | some (parent, name) => live.releaseName parent name
  | none => live

/-- Hold an id. -/
def holdId (id : Uuid) (live : Live) : Live := { live with held := insert id live.held }

/-- Let go of an id. -/
def dropId (id : Uuid) (live : Live) : Live := { live with held := live.held.erase id }

/-- Set the bytes that are set aside. -/
def setReserved (bytes : ℕ) (live : Live) : Live := { live with reservedBytes := bytes }

/-- Count one more transfer of an account. -/
def takeSlot (accountId : String) (field : Direction) (live : Live) : Live :=
  { live with
    perAccount := live.perAccount.insert accountId (field.change (· + 1) (live.counts accountId))
    total := live.total + 1 }

/-- Count one transfer of an account less. -/
def releaseSlot (accountId : String) (field : Direction) (live : Live) : Live :=
  { live with
    total := live.total - 1
    perAccount := match live.perAccount.lookup accountId with
      | some c =>
        if field.change (· - 1) c = (0, 0) then live.perAccount.erase accountId
        else live.perAccount.insert accountId (field.change (· - 1) c)
      | none => live.perAccount }

/-- Make sure the account has its throttles. -/
def bucketsFor (accountId : String) (live : Live) : Live :=
  { live with buckets := insert accountId live.buckets }

/-- What dropping a claim does. -/
def release (live : Live) : ClaimKind → Live
  | .upload accountId id destination bytes =>
    let live := (live.dropId id).unreserve destination
    (live.setReserved (live.reservedBytes - bytes)).releaseSlot accountId .up
  | .download accountId => live.releaseSlot accountId .down
  | .hold id => live.dropId id

end Live

/-! ### Claiming -/

/-- The name a destination calls for, unless it is taken. -/
def Destination.choose (live : Live) : Destination → Except TransferError (Option (String × String))
  | exact parent name => do
    refuseIf (live.isReserved parent name) (.tree .exists_)
    return some (parent, name)
  | free parent name budget taken => do
    let free ← required (.tree (.invalidPath "path is too long"))
      (freeName name budget fun c => taken c || live.isReserved parent c)
    return some (parent, free)
  | filed => return none

/-- Claim an upload slot. `available` is the free space of the volume, where it can
be told. -/
def claimUpload (limits : TransferLimits) (accountId : String) (id : Uuid)
    (destination : Destination) (bytes : ℕ) (available : Option ℕ) :
    Fallible Live TransferError (ClaimKind × Option String) := do
  let live ← get
  check (refuseIf (decide (id ∈ live.held)) .busy)
  let uploads := (live.counts accountId).1
  check (refuseIf (decide (limits.maxUploadsPerAccount ≤ uploads)) .tooManyTransfers)
  check (refuseIf (decide (limits.maxConcurrentTransfers ≤ live.total)) .serverBusy)
  let destination ← check (destination.choose live)
  let reserved := saturatingAdd live.reservedBytes bytes
  check (refuseIf (decide (limits.maxReservedBytes < reserved)) .insufficientSpace)
  check (match available with
    | some available =>
      refuseIf (decide (available < saturatingAdd reserved limits.minFreeSpace)) .insufficientSpace
    | none => .ok ())
  -- nothing is taken before everything has been checked
  modify (Live.holdId id)
  modify (Live.reserve destination)
  modify (Live.setReserved reserved)
  modify (Live.takeSlot accountId .up)
  modify (Live.bucketsFor accountId)
  return (.upload accountId id destination bytes, destination.map Prod.snd)

/-- Claim a download slot. -/
def claimDownload (limits : TransferLimits) (accountId : String) :
    Fallible Live TransferError ClaimKind := do
  let live ← get
  let downloads := (live.counts accountId).2
  check (refuseIf (decide (limits.maxDownloadsPerAccount ≤ downloads)) .tooManyTransfers)
  check (refuseIf (decide (limits.maxConcurrentTransfers ≤ live.total)) .serverBusy)
  modify (Live.takeSlot accountId .down)
  modify (Live.bucketsFor accountId)
  return .download accountId

/-- Hold an id so nobody resumes its transfer while it is being deleted. -/
def hold (id : Uuid) (live : Live) : Option ClaimKind × Live :=
  if id ∈ live.held then (none, live)
  else (some (.hold id), live.holdId id)

/-! ### Balanced books -/

namespace ClaimKind

/-- The id a claim holds. -/
def heldId : ClaimKind → Option Uuid
  | upload _ id _ _ | hold id => some id
  | download _ => none

/-- The name a claim has reserved. -/
def destination : ClaimKind → Option (String × String)
  | upload _ _ destination _ => destination
  | download _ | hold _ => none

/-- The bytes a claim has reserved. -/
def bytes : ClaimKind → ℕ
  | upload _ _ _ bytes => bytes
  | download _ | hold _ => 0

/-- The counter a claim is counted in. -/
def slot : ClaimKind → Option (String × Direction)
  | upload accountId .. => some (accountId, .up)
  | download accountId => some (accountId, .down)
  | hold _ => none

end ClaimKind

theorem collect_cons {β : Type} (f : ClaimKind → Option β) (c : ClaimKind)
    (claims : Multiset ClaimKind) : (c ::ₘ claims).filterMap f =
      match f c with
      | some b => b ::ₘ claims.filterMap f
      | none => claims.filterMap f := by
  cases hc : f c with
  | none => exact Multiset.filterMap_cons_none _ _ hc
  | some b => exact Multiset.filterMap_cons_some _ _ _ hc

/-- The most transfers an account may run in one direction. -/
def TransferLimits.slots (limits : TransferLimits) : Direction → ℕ
  | .up => limits.maxUploadsPerAccount
  | .down => limits.maxDownloadsPerAccount

/-- The reserved names are these, none of them reserved twice. -/
structure NamedBy (live : Live) (names : Multiset (String × String)) : Prop where
  mem : ∀ p n, live.isReserved p n = true ↔ (p, n) ∈ names
  nodup : names.Nodup
  listed : ∀ p, live.destinations.lookup p ≠ some ∅

/-- The counters count these slots, and keep the caps. -/
structure CountedBy (limits : TransferLimits) (live : Live) (slots : Multiset (String × Direction)) :
    Prop where
  count : ∀ a (d : Direction), d.count (live.counts a) = slots.count (a, d)
  listed : ∀ a, live.perAccount.lookup a ≠ some (0, 0)
  count_le : ∀ a (d : Direction), d.count (live.counts a) ≤ limits.slots d
  total : live.total = slots.card
  total_le : live.total ≤ limits.maxConcurrentTransfers

/-- The reserved bytes are these, unless the cap lets the sum saturate. -/
structure ReservedBy (limits : TransferLimits) (live : Live) (bytes : Multiset ℕ) : Prop where
  sum : limits.maxReservedBytes < u64Max → live.reservedBytes = bytes.sum
  sum_le : live.reservedBytes ≤ bytes.sum
  le : live.reservedBytes ≤ limits.maxReservedBytes

/-- **The books are balanced**: they hold what the outstanding claims took, nothing
is taken twice, and the caps are kept. -/
structure Exact (limits : TransferLimits) (live : Live) (claims : Multiset ClaimKind) : Prop where
  held : live.held.val = claims.filterMap ClaimKind.heldId
  names : NamedBy live (claims.filterMap ClaimKind.destination)
  slots : CountedBy limits live (claims.filterMap ClaimKind.slot)
  reserved : ReservedBy limits live (claims.map ClaimKind.bytes)

theorem exact_default (limits : TransferLimits) : Exact limits .default 0 where
  held := rfl
  names := by constructor <;> simp [Live.default, Live.isReserved]
  slots := by
    constructor <;> simp [Live.default, Live.counts]
    · rintro (_ | _) <;> rfl
    · rintro (_ | _) <;> exact Nat.zero_le _
  reserved := by constructor <;> simp [Live.default]

/-! ### What each update of the books does -/

namespace Live

variable {live : Live} {p q n m a b : String} {d e : Direction}

theorem isReserved_iff :
    live.isReserved p n = true ↔ ∃ names, live.destinations.lookup p = some names ∧ n ∈ names := by
  unfold isReserved
  cases live.destinations.lookup p <;> simp

theorem isReserved_reserveName : (live.reserveName p n).isReserved q m = true ↔
    (q, m) = (p, n) ∨ live.isReserved q m = true := by
  rw [isReserved_iff, isReserved_iff]
  by_cases hq : q = p
  · subst hq
    cases hl : live.destinations.lookup q <;> simp [reserveName, hl]
  · simp [reserveName, Finmap.lookup_insert_of_ne _ hq, hq]

theorem reserve_frame (destination : Option (String × String)) : live.reserve destination =
    { live with destinations := (live.reserve destination).destinations } := by
  cases destination <;> rfl

theorem unreserve_frame (destination : Option (String × String)) : live.unreserve destination =
    { live with destinations := (live.unreserve destination).destinations } := by
  cases destination <;> rfl

theorem reserveName_listed (h : ∀ p, live.destinations.lookup p ≠ some ∅) (q : String) :
    (live.reserveName p n).destinations.lookup q ≠ some ∅ := by
  by_cases hq : q = p
  · subst hq
    simp [reserveName]
  · simpa [reserveName, Finmap.lookup_insert_of_ne _ hq] using h q

/-- One name is given back, and no other. -/
theorem isReserved_releaseName : (live.releaseName p n).isReserved q m = true ↔
    (q, m) ≠ (p, n) ∧ live.isReserved q m = true := by
  rw [isReserved_iff, isReserved_iff]
  unfold releaseName
  cases hl : live.destinations.lookup p with
  | none =>
    refine ⟨fun h => ⟨?_, h⟩, fun h => h.2⟩
    rintro he
    obtain ⟨rfl, rfl⟩ := Prod.mk.inj he
    obtain ⟨names, hnames, -⟩ := h
    rw [hl] at hnames
    cases hnames
  | some names =>
    by_cases hempty : names.erase n = ∅
    · simp only [hempty, if_true]
      by_cases hq : q = p
      · subst hq
        simp only [Finmap.lookup_erase, hl, Prod.mk.injEq, true_and, ne_eq]
        refine iff_of_false (by simp) ?_
        rintro ⟨hne, names', he, hm⟩
        obtain rfl := Option.some.inj he
        have hmem := Finset.mem_erase.mpr ⟨hne, hm⟩
        rw [hempty] at hmem
        exact absurd hmem (Finset.notMem_empty _)
      · simp [Finmap.lookup_erase_ne hq, hq]
    · simp only [hempty, if_false]
      by_cases hq : q = p
      · subst hq
        simp [hl]
      · simp [Finmap.lookup_insert_of_ne _ hq, hq]

/-- A folder without names is not listed. -/
theorem releaseName_listed (h : ∀ p, live.destinations.lookup p ≠ some ∅) (q : String) :
    (live.releaseName p n).destinations.lookup q ≠ some ∅ := by
  unfold releaseName
  cases hl : live.destinations.lookup p with
  | none => exact h q
  | some names =>
    by_cases hempty : names.erase n = ∅
    · simp only [hempty, if_true]
      by_cases hq : q = p
      · subst hq
        simp
      · simpa [Finmap.lookup_erase_ne hq] using h q
    · simp only [hempty, if_false]
      by_cases hq : q = p
      · subst hq
        simpa using hempty
      · simpa [Finmap.lookup_insert_of_ne _ hq] using h q

theorem counts_takeSlot : (live.takeSlot a d).counts b =
    if b = a then d.change (· + 1) (live.counts a) else live.counts b := by
  by_cases hb : b = a
  · subst hb
    simp [takeSlot, counts]
  · simp [takeSlot, counts, hb]

theorem takeSlot_listed (h : ∀ a, live.perAccount.lookup a ≠ some (0, 0)) (b : String) :
    (live.takeSlot a d).perAccount.lookup b ≠ some (0, 0) := by
  by_cases hb : b = a
  · subst hb
    cases d <;> simp [takeSlot, Direction.change]
  · simpa [takeSlot, hb] using h b

/-- One transfer of one account is counted less. -/
theorem counts_releaseSlot : (live.releaseSlot a d).counts b =
    if b = a then d.change (· - 1) (live.counts a) else live.counts b := by
  unfold releaseSlot
  cases hl : live.perAccount.lookup a with
  | none =>
    by_cases hb : b = a
    · subst hb
      cases d <;> simp [counts, hl, Direction.change]
    · simp [counts, hb]
  | some c =>
    by_cases hb : b = a
    · subst hb
      by_cases hzero : d.change (· - 1) c = (0, 0) <;> simp [counts, hl, hzero]
    · by_cases hzero : d.change (· - 1) c = (0, 0) <;> simp [counts, hzero, hb]

/-- An account without transfers is not listed. -/
theorem releaseSlot_listed (h : ∀ a, live.perAccount.lookup a ≠ some (0, 0)) (b : String) :
    (live.releaseSlot a d).perAccount.lookup b ≠ some (0, 0) := by
  unfold releaseSlot
  cases hl : live.perAccount.lookup a with
  | none => simpa [hl] using h b
  | some c =>
    by_cases hb : b = a
    · subst hb
      by_cases hzero : d.change (· - 1) c = (0, 0) <;> simp [hzero]
    · by_cases hzero : d.change (· - 1) c = (0, 0) <;> simp [hzero, hb] <;> exact h b

end Live

/-! ### The books stay balanced -/

section Books

variable {limits : TransferLimits} {live live' : Live} {p n a : String} {d : Direction}

theorem NamedBy.reserve {names : Multiset (String × String)} (h : NamedBy live names)
    (hfree : live.isReserved p n = false) : NamedBy (live.reserveName p n) ((p, n) ::ₘ names) where
  mem q m := by
    rw [Live.isReserved_reserveName, Multiset.mem_cons, h.mem]
  nodup := by
    refine Multiset.nodup_cons.mpr ⟨fun hmem => ?_, h.nodup⟩
    rw [(h.mem p n).mpr hmem] at hfree
    cases hfree
  listed := Live.reserveName_listed h.listed

theorem NamedBy.release {names : Multiset (String × String)} (h : NamedBy live ((p, n) ::ₘ names)) :
    NamedBy (live.releaseName p n) names where
  mem q m := by
    obtain ⟨hnot, -⟩ := Multiset.nodup_cons.mp h.nodup
    rw [Live.isReserved_releaseName, h.mem, Multiset.mem_cons]
    refine ⟨fun ⟨hne, hmem⟩ => hmem.resolve_left hne, fun hmem => ⟨fun he => ?_, .inr hmem⟩⟩
    exact hnot (he ▸ hmem)
  nodup := (Multiset.nodup_cons.mp h.nodup).2
  listed := Live.releaseName_listed h.listed

/-- One more slot is taken. -/
theorem CountedBy.take {slots : Multiset (String × Direction)} (h : CountedBy limits live slots)
    (hcap : d.count (live.counts a) < limits.slots d)
    (htotal : live.total < limits.maxConcurrentTransfers) :
    CountedBy limits (live.takeSlot a d) ((a, d) ::ₘ slots) where
  count b e := by
    rw [Live.counts_takeSlot, Multiset.count_cons, ← h.count]
    by_cases hb : b = a
    · subst hb
      by_cases he : e = d
      · simp [he]
      · simp [Direction.count_change_ne _ he, he]
    · simp [hb]
  listed := Live.takeSlot_listed h.listed
  count_le b e := by
    rw [Live.counts_takeSlot]
    by_cases hb : b = a
    · subst hb
      rw [if_pos rfl]
      by_cases he : e = d
      · subst he
        rw [Direction.count_change_self]
        exact hcap
      · rw [Direction.count_change_ne _ he]
        exact h.count_le b e
    · rw [if_neg hb]
      exact h.count_le b e
  total := by
    rw [Multiset.card_cons, ← h.total]
    rfl
  total_le := htotal

/-- One slot is given back. -/
theorem CountedBy.release {slots : Multiset (String × Direction)}
    (h : CountedBy limits live ((a, d) ::ₘ slots)) :
    CountedBy limits (live.releaseSlot a d) slots where
  count b e := by
    have hb := h.count b e
    rw [Multiset.count_cons] at hb
    rw [Live.counts_releaseSlot]
    by_cases hba : b = a
    · subst hba
      by_cases he : e = d
      · subst he
        simp only [if_true] at hb ⊢
        rw [Direction.count_change_self, hb]
        rfl
      · simp only [Prod.mk.injEq, he, and_false, if_false] at hb
        rw [if_pos rfl, Direction.count_change_ne _ he, hb]
        rfl
    · simp only [Prod.mk.injEq, hba, false_and, if_false] at hb
      rw [if_neg hba, hb]
      rfl
  listed := Live.releaseSlot_listed h.listed
  count_le b e := by
    rw [Live.counts_releaseSlot]
    refine le_trans ?_ (h.count_le b e)
    split
    · rename_i hba
      subst hba
      by_cases he : e = d
      · subst he
        rw [Direction.count_change_self]
        exact Nat.sub_le _ _
      · rw [Direction.count_change_ne _ he]
    · exact le_refl _
  total := by
    have htotal := h.total
    rw [Multiset.card_cons] at htotal
    exact Nat.sub_eq_of_eq_add htotal
  total_le := Nat.le_trans (Nat.sub_le _ _) h.total_le

/-- A claim that is counted has a slot to give back. -/
theorem CountedBy.pos {slots : Multiset (String × Direction)} (h : CountedBy limits live slots)
    (hmem : (a, d) ∈ slots) : 1 ≤ live.total ∧ 1 ≤ d.count (live.counts a) := by
  rw [h.total, h.count]
  exact ⟨Multiset.card_pos_iff_exists_mem.mpr ⟨_, hmem⟩, Multiset.one_le_count_iff_mem.mpr hmem⟩

/-- A sum that the cap admits has not saturated. -/
theorem saturatingAdd_eq {x y : ℕ} (hcap : saturatingAdd x y ≤ limits.maxReservedBytes)
    (hmax : limits.maxReservedBytes < u64Max) : saturatingAdd x y = x + y := by
  rw [saturatingAdd] at hcap ⊢
  omega

end Books

/-! ### What a claim takes -/

section Claims

variable {limits : TransferLimits} {live live' : Live} {accountId : String} {id : Uuid}
  {destination : Destination} {bytes : ℕ} {available : Option ℕ} {c : ClaimKind}
  {claims : Multiset ClaimKind}

/-- **An upload claim is accepted** when its id is free, no cap is in the way and its
name is not reserved. -/
theorem claimUpload_returns {r : ClaimKind × Option String}
    (h : Returns (claimUpload limits accountId id destination bytes available) live r live') :
    ∃ dest, destination.choose live = .ok dest ∧ id ∉ live.held ∧
      (live.counts accountId).1 < limits.maxUploadsPerAccount ∧
      live.total < limits.maxConcurrentTransfers ∧
      saturatingAdd live.reservedBytes bytes ≤ limits.maxReservedBytes ∧
      r = (.upload accountId id dest bytes, dest.map Prod.snd) ∧
      live' = ((((live.holdId id).reserve dest).setReserved
        (saturatingAdd live.reservedBytes bytes)).takeSlot accountId .up).bucketsFor accountId := by
  obtain ⟨_, _, hget, h⟩ := returns_bind.mp h
  obtain ⟨rfl, rfl⟩ := returns_get.mp hget
  obtain ⟨_, _, hcheck, h⟩ := returns_bind.mp h
  obtain ⟨hheld, rfl⟩ := returns_check.mp hcheck
  obtain ⟨_, _, hcheck, h⟩ := returns_bind.mp h
  obtain ⟨hup, rfl⟩ := returns_check.mp hcheck
  obtain ⟨_, _, hcheck, h⟩ := returns_bind.mp h
  obtain ⟨htotal, rfl⟩ := returns_check.mp hcheck
  obtain ⟨dest, _, hcheck, h⟩ := returns_bind.mp h
  obtain ⟨hdest, rfl⟩ := returns_check.mp hcheck
  obtain ⟨_, _, hcheck, h⟩ := returns_bind.mp h
  obtain ⟨hcap, rfl⟩ := returns_check.mp hcheck
  obtain ⟨_, _, hspace, h⟩ := returns_bind.mp h
  obtain ⟨-, rfl⟩ := returns_check.mp hspace
  simp only [returns_bind, returns_modify, returns_pure, exists_eq_left', exists_const] at h
  simp only [refuseIf_eq_ok, decide_eq_false_iff_not, not_le, not_lt] at hheld hup htotal hcap
  exact ⟨dest, hdest, hheld, hup, htotal, hcap, h.1.symm, h.2.symm⟩

/-- **A refused upload claim leaves the books as they were.** -/
theorem claimUpload_atomic : Atomic (fun live : Live => live)
    (claimUpload limits accountId id destination bytes available) := by
  refine keeps_get.atomic_bind fun live => ?_
  refine (keeps_check _).atomic_bind fun _ => (keeps_check _).atomic_bind fun _ => ?_
  refine (keeps_check _).atomic_bind fun _ => (keeps_check _).atomic_bind fun _ => ?_
  refine (keeps_check _).atomic_bind fun _ => (keeps_check _).atomic_bind fun _ => ⟨fun h => ?_⟩
  simp [fails_bind] at h

/-- A claimed download has taken a slot that was free. -/
theorem claimDownload_returns
    (h : Returns (claimDownload limits accountId) live c live') :
    c = .download accountId ∧ (live.counts accountId).2 < limits.maxDownloadsPerAccount ∧
      live.total < limits.maxConcurrentTransfers ∧
      live' = (live.takeSlot accountId .down).bucketsFor accountId := by
  obtain ⟨_, _, hget, h⟩ := returns_bind.mp h
  obtain ⟨rfl, rfl⟩ := returns_get.mp hget
  obtain ⟨_, _, hcheck, h⟩ := returns_bind.mp h
  obtain ⟨hdown, rfl⟩ := returns_check.mp hcheck
  obtain ⟨_, _, hcheck, h⟩ := returns_bind.mp h
  obtain ⟨htotal, rfl⟩ := returns_check.mp hcheck
  simp only [returns_bind, returns_modify, returns_pure, exists_eq_left', exists_const] at h
  simp only [refuseIf_eq_ok, decide_eq_false_iff_not, not_le] at hdown htotal
  exact ⟨h.1.symm, hdown, htotal, h.2.symm⟩

/-- A refused download claim leaves the books as they were. -/
theorem claimDownload_atomic :
    Atomic (fun live : Live => live) (claimDownload limits accountId) := by
  refine keeps_get.atomic_bind fun live => ?_
  refine (keeps_check _).atomic_bind fun _ => (keeps_check _).atomic_bind fun _ => ⟨fun h => ?_⟩
  simp [fails_bind] at h

theorem hold_some (h : (hold id live).1 = some c) :
    c = .hold id ∧ id ∉ live.held ∧ (hold id live).2 = live.holdId id := by
  unfold hold at h ⊢
  split at h
  · cases h
  · rename_i hfree
    rw [if_neg hfree]
    exact ⟨(Option.some.inj h).symm, hfree, rfl⟩

/-- A refused hold leaves the books as they were. -/
theorem hold_none (h : (hold id live).1 = none) : (hold id live).2 = live := by
  unfold hold at h ⊢
  split at h
  · rename_i hheld
    rw [if_pos hheld]
  · cases h

/-- The name that is chosen is not reserved yet. -/
theorem choose_free {p n : String} (h : destination.choose live = .ok (some (p, n))) :
    live.isReserved p n = false := by
  cases destination with
  | exact parent name =>
    obtain ⟨_, hfree, h⟩ := checks_pass.mp h
    cases h
    exact refuseIf_eq_ok.mp hfree
  | free parent name budget taken =>
    obtain ⟨free, hfree, h⟩ := checks_pass.mp h
    cases h
    exact (Bool.or_eq_false_iff.mp (freeName_free (required_eq_ok.mp hfree))).2
  | filed => cases h

/-! ### Every step keeps the books balanced -/

/-- Taking an id that is free. -/
theorem held_insert (h : Exact limits live claims) (hfree : id ∉ live.held) :
    (live.holdId id).held.val = id ::ₘ claims.filterMap ClaimKind.heldId := by
  rw [Live.holdId, Finset.insert_val_of_notMem hfree, h.held]

/-- Giving back an id that is held. -/
theorem held_erase {ids : Multiset Uuid} (h : live.held.val = id ::ₘ ids) :
    (live.dropId id).held.val = ids := by
  rw [Live.dropId, Finset.erase_val, h, Multiset.erase_cons_head]

/-- The books are exact after an upload is claimed. -/
theorem Exact.upload (h : Exact limits live claims) {r : ClaimKind × Option String}
    (hret : Returns (claimUpload limits accountId id destination bytes available) live r live') :
    Exact limits live' (r.1 ::ₘ claims) := by
  obtain ⟨dest, hdest, hfree, hup, htotal, hcap, rfl, rfl⟩ := claimUpload_returns hret
  have hslots := h.slots.take (a := accountId) (d := .up) hup htotal
  constructor
  case held =>
    rw [collect_cons, Live.reserve_frame]
    exact held_insert h hfree
  case names =>
    rw [collect_cons]
    cases dest with
    | none => exact ⟨h.names.mem, h.names.nodup, h.names.listed⟩
    | some name =>
      have hnames := h.names.reserve (choose_free hdest)
      exact ⟨hnames.mem, hnames.nodup, hnames.listed⟩
  case slots =>
    rw [collect_cons, Live.reserve_frame]
    exact ⟨hslots.count, hslots.listed, hslots.count_le, hslots.total, hslots.total_le⟩
  case reserved =>
    rw [Multiset.map_cons]
    refine ⟨fun hmax => ?_, ?_, hcap⟩
    · rw [Multiset.sum_cons, ← h.reserved.sum hmax, add_comm]
      exact saturatingAdd_eq hcap hmax
    · rw [Multiset.sum_cons, add_comm]
      exact (Nat.min_le_left _ _).trans (Nat.add_le_add_right h.reserved.sum_le _)

/-- The books are exact after a download is claimed. -/
theorem Exact.download (h : Exact limits live claims)
    (hret : Returns (claimDownload limits accountId) live c live') :
    Exact limits live' (c ::ₘ claims) := by
  obtain ⟨rfl, hdown, htotal, rfl⟩ := claimDownload_returns hret
  have hslots := h.slots.take (a := accountId) (d := .down) hdown htotal
  constructor
  case held =>
    rw [collect_cons]
    exact h.held
  case names =>
    rw [collect_cons]
    exact ⟨h.names.mem, h.names.nodup, h.names.listed⟩
  case slots =>
    rw [collect_cons]
    exact ⟨hslots.count, hslots.listed, hslots.count_le, hslots.total, hslots.total_le⟩
  case reserved =>
    rw [Multiset.map_cons]
    refine ⟨fun hmax => ?_, ?_, h.reserved.le⟩
    · rw [Multiset.sum_cons, ← h.reserved.sum hmax]
      exact (Nat.zero_add _).symm
    · rw [Multiset.sum_cons]
      exact h.reserved.sum_le.trans (Nat.le_add_left _ _)

/-- The books are exact after an id is held. -/
theorem Exact.hold (h : Exact limits live claims) (hsome : (hold id live).1 = some c) :
    Exact limits (Transfer.hold id live).2 (c ::ₘ claims) := by
  obtain ⟨rfl, hfree, hlive⟩ := hold_some hsome
  rw [hlive]
  constructor
  case held =>
    rw [collect_cons]
    exact held_insert h hfree
  case names =>
    rw [collect_cons]
    exact ⟨h.names.mem, h.names.nodup, h.names.listed⟩
  case slots =>
    rw [collect_cons]
    exact ⟨h.slots.count, h.slots.listed, h.slots.count_le, h.slots.total, h.slots.total_le⟩
  case reserved =>
    rw [Multiset.map_cons]
    refine ⟨fun hmax => ?_, ?_, h.reserved.le⟩
    · rw [Multiset.sum_cons, ← h.reserved.sum hmax]
      exact (Nat.zero_add _).symm
    · rw [Multiset.sum_cons]
      exact h.reserved.sum_le.trans (Nat.le_add_left _ _)

/-- **Dropping a claim gives back what it took.** -/
theorem Exact.release (h : Exact limits live (c ::ₘ claims)) :
    Exact limits (live.release c) claims := by
  -- each of the four books is given back what this claim had in it
  obtain ⟨hheld, hnames, hslots, hreserved⟩ := h
  rw [collect_cons] at hheld hnames hslots
  rw [Multiset.map_cons] at hreserved
  have hsum := hreserved.sum
  have hsumle := hreserved.sum_le
  rw [Multiset.sum_cons] at hsum hsumle
  cases c with
  | upload accountId id dest bytes =>
    replace hslots : CountedBy limits live ((accountId, .up) ::ₘ _) := hslots
    replace hslots := hslots.release
    constructor
    case held =>
      rw [Live.release, Live.unreserve_frame]
      exact held_erase hheld
    case names =>
      cases dest with
      | none => exact ⟨hnames.mem, hnames.nodup, hnames.listed⟩
      | some name =>
        replace hnames : NamedBy live ((name.1, name.2) ::ₘ _) := hnames
        replace hnames := hnames.release
        exact ⟨hnames.mem, hnames.nodup, hnames.listed⟩
    case slots =>
      rw [Live.release, Live.unreserve_frame]
      exact ⟨hslots.count, hslots.listed, hslots.count_le, hslots.total, hslots.total_le⟩
    case reserved =>
      rw [Live.release, Live.unreserve_frame]
      refine ⟨fun hmax => ?_, ?_, Nat.le_trans (Nat.sub_le _ _) hreserved.le⟩
      · exact Nat.sub_eq_of_eq_add ((hsum hmax).trans (Nat.add_comm _ _))
      · exact Nat.sub_le_iff_le_add'.mpr hsumle
  | download accountId =>
    replace hslots : CountedBy limits live ((accountId, .down) ::ₘ _) := hslots
    replace hslots := hslots.release
    refine ⟨hheld, ⟨hnames.mem, hnames.nodup, hnames.listed⟩,
      ⟨hslots.count, hslots.listed, hslots.count_le, hslots.total, hslots.total_le⟩,
      fun hmax => (hsum hmax).trans (Nat.zero_add _), hsumle.trans_eq (Nat.zero_add _), hreserved.le⟩
  | hold id =>
    refine ⟨held_erase hheld, ⟨hnames.mem, hnames.nodup, hnames.listed⟩,
      ⟨hslots.count, hslots.listed, hslots.count_le, hslots.total, hslots.total_le⟩,
      fun hmax => (hsum hmax).trans (Nat.zero_add _), hsumle.trans_eq (Nat.zero_add _), hreserved.le⟩

end Claims

/-! ### Runs -/

/-- The books, and the claims that are outstanding. -/
structure Ledger where
  live : Live
  claims : Multiset ClaimKind

/-- Something that happens to the books. -/
inductive LedgerEvent
  | claimUpload (accountId : String) (id : Uuid) (destination : Destination) (bytes : ℕ)
      (available : Option ℕ)
  | claimDownload (accountId : String)
  | hold (id : Uuid)
  | drop (c : ClaimKind)

namespace Ledger

/-- Nothing is in progress. -/
def empty : Ledger := ⟨.default, 0⟩

/-- A claim that may be refused. -/
def claim {α : Type} (l : Ledger) (x : Fallible Live TransferError α) (kind : α → ClaimKind) : Ledger :=
  match x.run l.live with
  | .ok a live => ⟨live, kind a ::ₘ l.claims⟩
  | .error _ live => ⟨live, l.claims⟩

/-- What an event does; only a claim that is outstanding can be dropped. -/
def after (limits : TransferLimits) (l : Ledger) : LedgerEvent → Option Ledger
  | .claimUpload accountId id destination bytes available =>
    some (l.claim (Transfer.claimUpload limits accountId id destination bytes available) Prod.fst)
  | .claimDownload accountId => some (l.claim (Transfer.claimDownload limits accountId) fun c => c)
  | .hold id =>
    match Transfer.hold id l.live with
    | (some c, live) => some ⟨live, c ::ₘ l.claims⟩
    | (none, live) => some ⟨live, l.claims⟩
  | .drop c => if c ∈ l.claims then some ⟨l.live.release c, l.claims.erase c⟩ else none

/-- One event on the books. -/
def Step (limits : TransferLimits) (l : Ledger) (event : LedgerEvent) (l' : Ledger) : Prop :=
  l.after limits event = some l'

theorem claim_cases {α : Type} (l : Ledger) (x : Fallible Live TransferError α)
    (kind : α → ClaimKind) :
    (∃ a live, Returns x l.live a live ∧ l.claim x kind = ⟨live, kind a ::ₘ l.claims⟩) ∨
      ∃ e live, Fails x l.live e live ∧ l.claim x kind = ⟨live, l.claims⟩ := by
  unfold claim
  rcases hx : x.run l.live with ⟨a, live⟩ | ⟨e, live⟩
  · exact .inl ⟨a, live, hx, rfl⟩
  · exact .inr ⟨e, live, hx, rfl⟩

end Ledger

section Runs

variable {limits : TransferLimits} {l l' : Ledger} {event : LedgerEvent} {events : List LedgerEvent}

/-- What one event keeps. -/
theorem exact_step (h : Exact limits l.live l.claims) (hstep : Ledger.Step limits l event l') :
    Exact limits l'.live l'.claims := by
  cases event with
  | claimUpload accountId id destination bytes available =>
    obtain rfl := Option.some.inj hstep
    obtain ⟨r, live, hret, hl⟩ | ⟨e, live, hfail, hl⟩ := l.claim_cases
      (claimUpload limits accountId id destination bytes available) Prod.fst
    · exact hl ▸ h.upload hret
    · exact hl ▸ claimUpload_atomic.fails hfail ▸ h
  | claimDownload accountId =>
    obtain rfl := Option.some.inj hstep
    obtain ⟨c, live, hret, hl⟩ | ⟨e, live, hfail, hl⟩ := l.claim_cases
      (claimDownload limits accountId) fun c => c
    · exact hl ▸ h.download hret
    · exact hl ▸ claimDownload_atomic.fails hfail ▸ h
  | hold id =>
    simp only [Ledger.Step, Ledger.after] at hstep
    rcases hc : hold id l.live with ⟨_ | c, live⟩
    · simp only [hc] at hstep
      obtain rfl := Option.some.inj hstep
      -- an id that is held already is not held twice
      have hlive := hold_none (congrArg Prod.fst hc)
      rw [hc] at hlive
      obtain rfl : live = l.live := hlive
      exact h
    · simp only [hc] at hstep
      obtain rfl := Option.some.inj hstep
      have hlive := h.hold (congrArg Prod.fst hc)
      rw [hc] at hlive
      exact hlive
  | drop c =>
    simp only [Ledger.Step, Ledger.after] at hstep
    split at hstep
    · rename_i hc
      obtain rfl := Option.some.inj hstep
      refine Exact.release (c := c) ?_
      rw [Multiset.cons_erase hc]
      exact h
    · cases hstep

/-- **However transfers come and go, the books stay balanced**; no counter is ever
given back more than it holds, and a claim that is refused changes nothing. Only a
byte cap as large as a `u64` lets the sum of the reserved bytes saturate. -/
theorem exact_run (hrun : Run (Ledger.Step limits) .empty events l) :
    Exact limits l.live l.claims ∧
      (∀ c ∈ l.claims, ∀ a d, c.slot = some (a, d) →
        1 ≤ l.live.total ∧ 1 ≤ d.count (l.live.counts a)) ∧
      (limits.maxReservedBytes < u64Max → ∀ c ∈ l.claims, c.bytes ≤ l.live.reservedBytes) ∧
      (∀ accountId id destination bytes available e live',
        Fails (claimUpload limits accountId id destination bytes available) l.live e live' →
          live' = l.live) ∧
      (∀ accountId e live', Fails (claimDownload limits accountId) l.live e live' → live' = l.live) ∧
      ∀ id, (hold id l.live).1 = none → (hold id l.live).2 = l.live := by
  have h : Exact limits l.live l.claims :=
    hrun.invariant (fun l => Exact limits l.live l.claims) (fun _ _ _ => exact_step)
      (exact_default limits)
  refine ⟨h, fun c hc a d hslot => ?_, fun hmax c hc => ?_, ?_, ?_, fun id => hold_none⟩
  · exact h.slots.pos ((Multiset.mem_filterMap _ _).mpr ⟨c, hc, hslot⟩)
  · obtain ⟨rest, hrest⟩ := Multiset.exists_cons_of_mem hc
    rw [h.reserved.sum hmax, hrest, Multiset.map_cons, Multiset.sum_cons]
    exact Nat.le_add_right _ _
  · exact fun _ _ _ _ _ _ _ hfail => claimUpload_atomic.fails hfail
  · exact fun _ _ _ hfail => claimDownload_atomic.fails hfail

end Runs

namespace Saturated

/-- The stock limits, but for a byte cap that refuses nothing. -/
def limits : TransferLimits := { TransferLimits.default with maxReservedBytes := u64Max }

/-- The id of one upload. -/
def first : Uuid := ⟨"00000000-0000-4000-8000-000000000001", by decide⟩

/-- The id of another upload. -/
def second : Uuid := ⟨"00000000-0000-4000-8000-000000000002", by decide⟩

/-- Two claims of more bytes than a `u64` counts, and the larger one dropped. -/
def events : List LedgerEvent :=
  [.claimUpload "a" first .filed u64Max none, .claimUpload "a" second .filed 1 none,
    .drop (.upload "a" first none u64Max)]

/-- **Past what a `u64` counts, the reserved bytes are not the sum of the claims**, and
the last drop gives back more than there is. -/
theorem saturates : ∃ l, Run (Ledger.Step limits) .empty events l ∧
    l.live.reservedBytes ≠ (l.claims.map ClaimKind.bytes).sum ∧
      ∃ c ∈ l.claims, ¬c.bytes ≤ l.live.reservedBytes := by
  have hrun : (perform (Ledger.after limits) .empty events).isSome = true := by decide
  obtain ⟨l, hl⟩ := Option.isSome_iff_exists.mp hrun
  have hlast : perform (Ledger.after limits) .empty events = some _ := rfl
  rw [hl] at hlast
  refine ⟨l, run_of_perform hl, ?_, ?_⟩
  · rw [Option.some.inj hlast]
    decide
  · rw [Option.some.inj hlast]
    exact ⟨.upload "a" second none 1, by decide, by decide⟩

/-- An upload and a hold under the stock limits, a refused claim, and a drop. -/
def stock : List LedgerEvent :=
  [.claimUpload "a" first (.exact "f" "x") 10 none, .claimUpload "b" first .filed 5 none,
    .hold second, .drop (.hold second)]

theorem exact_run_stock : ∃ l, perform (Ledger.after .default) .empty stock = some l ∧
    Exact .default l.live l.claims := by
  have hrun : (perform (Ledger.after .default) .empty stock).isSome = true := by decide
  obtain ⟨l, hl⟩ := Option.isSome_iff_exists.mp hrun
  exact ⟨l, hl, (exact_run (run_of_perform hl)).1⟩

end Saturated

end Transfer

end KdxHotline
