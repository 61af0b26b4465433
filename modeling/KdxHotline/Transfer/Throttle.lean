import Mathlib.Data.Rat.Defs
import Mathlib.Algebra.Order.Ring.Rat
import Mathlib.Algebra.Order.Field.Basic
import Mathlib.Tactic.NormNum
import Mathlib.Tactic.Ring
import KdxHotline.Foundations.Runs
import KdxHotline.Foundations.VirtualClock
import KdxHotline.Transfer.Live

/-!
# The bandwidth throttles

Every account has a token bucket in each direction, shared by all its transfers.
A bucket outlives the transfers; the sweep forgets those that no transfer holds.
Time is a rational number of seconds, and no rate is rounded.

What becomes payable to an account within a window is at most a burst, what the
rate allows, and one chunk (`KdxHotline.Transfer.bandwidth_bounded`), in every run
whose sweeps forget a bucket of the account only once it has refilled. The sweep
does not look at the clock of a bucket: one that forgets a bucket still ahead of
the present hands out a fresh burst (`KdxHotline.Transfer.fresh_burst`).
-/

namespace KdxHotline

namespace Transfer

open Foundations

/-! ### Token buckets -/

/-- The throttle of an account in one direction. -/
structure TokenBucket where
  /-- Bytes per second; none for an unlimited one. -/
  rate : Option ℚ
  /-- How far the clock may run ahead of the present. -/
  burst : ℚ
  /-- When everything charged so far is paid. -/
  tat : ℚ
  deriving DecidableEq

namespace TokenBucket

/-- A new bucket: one second of traffic, and at least 64 KiB, come at once. -/
def new (bytesPerSec : ℕ) (now : ℚ) : TokenBucket :=
  let rate : Option ℚ := if 0 < bytesPerSec then some bytesPerSec else none
  let burst := match rate with
    | some rate => max rate (64 * 1024) / rate
    | none => 0
  ⟨rate, burst, now⟩

/-- Charge some bytes; returns when the caller may go on. -/
def reserve (bytes : ℕ) (now : ℚ) (bucket : TokenBucket) : ℚ × TokenBucket :=
  match bucket.rate with
  | none => (now, bucket)
  | some rate =>
    let start := max bucket.tat now
    let tat := start + bytes / rate
    (max (tat - bucket.burst) now, { bucket with tat })

variable {bucket : TokenBucket} {rate : ℚ}

theorem reserve_unlimited (h : bucket.rate = none) (bytes : ℕ) (now : ℚ) :
    bucket.reserve bytes now = (now, bucket) := by
  rw [reserve, h]

/-- A charge moves the clock of a bucket on by what the bytes cost. -/
theorem reserve_limited (h : bucket.rate = some rate) (bytes : ℕ) (now : ℚ) :
    (bucket.reserve bytes now).2 =
      { bucket with tat := chargedClock bucket.tat now (bytes / rate) } := by
  rw [reserve, h]
  rfl

end TokenBucket

/-! ### The throttles of all accounts -/

/-- One of a pair that holds an upload's before a download's. -/
def Direction.of {α : Type} : Direction → α × α → α
  | up, p => p.1
  | down, p => p.2

/-- A transfer's handle on a bucket. -/
structure Handle where
  accountId : String
  direction : Direction
  /-- The address of the bucket. -/
  bucket : ℕ
  deriving DecidableEq

/-- A charge, and when it became payable. -/
structure Charge where
  accountId : String
  direction : Direction
  bytes : ℕ
  ready : ℚ
  deriving DecidableEq

/-- The throttles of the server, with what was charged to them. -/
structure Throttles where
  /-- Every bucket made so far, by its address. -/
  heap : List TokenBucket
  /-- The addresses of an account's (upload, download) buckets. -/
  buckets : String → Option (ℕ × ℕ)
  transfers : List Handle
  now : ℚ
  charges : List Charge

/-- What happens to the throttles. -/
inductive Event
  | claim (accountId : String) (direction : Direction)
  | charge (transfer : Handle) (bytes : ℕ)
  | drop (transfer : Handle)
  | sweep
  deriving DecidableEq

namespace Throttles

/-- No throttle and no transfer. -/
def start (now : ℚ) : Throttles := ⟨[], fun _ => none, [], now, []⟩

/-- The account's buckets, made if there are none. -/
def bucketsFor (rates : ℕ × ℕ) (accountId : String) (s : Throttles) : (ℕ × ℕ) × Throttles :=
  match s.buckets accountId with
  | some pair => (pair, s)
  | none =>
    let pair := (s.heap.length, s.heap.length + 1)
    (pair, { s with
      heap := s.heap ++ [.new rates.1 s.now, .new rates.2 s.now]
      buckets := Function.update s.buckets accountId (some pair) })

/-- A claim that is granted takes the bucket of its direction. -/
def claim (rates : ℕ × ℕ) (accountId : String) (direction : Direction) (s : Throttles) : Throttles :=
  let (pair, s) := s.bucketsFor rates accountId
  { s with transfers := ⟨accountId, direction, direction.of pair⟩ :: s.transfers }

/-- Someone other than the map holds a bucket. -/
def isHeld (s : Throttles) (address : ℕ) : Bool := s.transfers.any fun tr => tr.bucket = address

/-- The sweep forgets the throttles no transfer is using. -/
def sweep (s : Throttles) : Throttles :=
  { s with buckets := fun a => (s.buckets a).filter fun p => s.isHeld p.1 || s.isHeld p.2 }

/-- Charge a chunk to the bucket a transfer holds. -/
def chargeTo (transfer : Handle) (bytes : ℕ) (s : Throttles) : Option Throttles :=
  if transfer ∈ s.transfers then
    (s.heap[transfer.bucket]?).map fun bucket =>
      let (ready, bucket) := bucket.reserve bytes s.now
      { s with
        heap := s.heap.set transfer.bucket bucket
        charges := s.charges ++ [⟨transfer.accountId, transfer.direction, bytes, ready⟩] }
  else none

/-- What an event does. -/
def apply (rates : ℕ × ℕ) (s : Throttles) : Event → Option Throttles
  | .claim accountId direction => some (s.claim rates accountId direction)
  | .charge transfer bytes => s.chargeTo transfer bytes
  | .drop transfer =>
    if transfer ∈ s.transfers then some { s with transfers := s.transfers.erase transfer } else none
  | .sweep => some s.sweep

/-- Let time pass to a moment, if it has not gone by. -/
def advance (time : ℚ) (s : Throttles) : Option Throttles :=
  if s.now ≤ time then some { s with now := time } else none

/-- One event, at its time. -/
def step (rates : ℕ × ℕ) (s : Throttles) (e : ℚ × Event) : Option Throttles :=
  (s.advance e.1).bind fun s => s.apply rates e.2

/-- The bucket an account has in a direction, if it is not forgotten. -/
def bucket (s : Throttles) (accountId : String) (direction : Direction) : Option TokenBucket :=
  (s.buckets accountId).bind fun pair => s.heap[direction.of pair]?

/-- What an account was charged in a direction. -/
def chargesTo (s : Throttles) (accountId : String) (direction : Direction) : List Charge :=
  s.charges.filter fun c => c.accountId = accountId ∧ c.direction = direction

/-- The bytes that became payable to an account within a window. -/
def bytesWithin (s : Throttles) (accountId : String) (direction : Direction)
    (start stop : ℚ) : ℕ :=
  (((s.chargesTo accountId direction).filter fun c => start ≤ c.ready ∧ c.ready ≤ stop).map
    Charge.bytes).sum

/-- A sweep at its time forgets the account's bucket only once it has refilled. -/
def Refilled (accountId : String) (direction : Direction) (s : Throttles) (e : ℚ × Event) : Prop :=
  e.2 = .sweep → s.sweep.bucket accountId direction = none →
    ∀ b ∈ s.bucket accountId direction, b.tat ≤ e.1

instance (accountId : String) (direction : Direction) (s : Throttles) (e : ℚ × Event) :
    Decidable (Refilled accountId direction s e) :=
  inferInstanceAs (Decidable (e.2 = .sweep → s.sweep.bucket accountId direction = none →
    ∀ b ∈ s.bucket accountId direction, b.tat ≤ e.1))

/-! ### The buckets of the accounts -/

/-- A bucket of an account was made with the rate of its direction, no two accounts
or directions share one, and what a transfer holds is the account's bucket. -/
structure Addressed (rates : ℕ × ℕ) (s : Throttles) : Prop where
  made : ∀ {a pair}, s.buckets a = some pair → ∀ d : Direction, ∃ tat,
    s.heap[d.of pair]? = some (.new (d.of rates) tat)
  distinct : ∀ {a a' pair pair'}, s.buckets a = some pair → s.buckets a' = some pair' →
    ∀ {d d' : Direction}, d.of pair = d'.of pair' → a = a' ∧ d = d'
  held : ∀ {tr}, tr ∈ s.transfers →
    ∃ pair, s.buckets tr.accountId = some pair ∧ tr.direction.of pair = tr.bucket

variable {rates : ℕ × ℕ} {s t : Throttles} {a : String} {d : Direction}

/-- The clock of a bucket; a forgotten one keeps up with the present. -/
def clock (s : Throttles) (a : String) (d : Direction) : ℚ :=
  match s.bucket a d with
  | some b => b.tat
  | none => s.now

/-- What an account was charged in a direction, in seconds. -/
def payments (s : Throttles) (a : String) (d : Direction) (rate : ℚ) : List (Payment ℚ) :=
  (s.chargesTo a d).map fun c => ⟨c.ready, c.bytes / rate⟩

/-- The seconds a bucket of a rate gives at once. -/
def burstOf (rate : ℚ) : ℚ := max rate (64 * 1024) / rate

theorem new_of_pos {n : ℕ} (h : 0 < n) (tat : ℚ) :
    TokenBucket.new n tat = ⟨some n, burstOf n, tat⟩ := by
  simp only [TokenBucket.new, if_pos h, burstOf]

theorem reserve_new {n : ℕ} (h : 0 < n) (bytes : ℕ) (now tat : ℚ) :
    (TokenBucket.new n tat).reserve bytes now =
      (payableAt (burstOf n) now (chargedClock tat now (bytes / n)),
        .new n (chargedClock tat now (bytes / n))) := by
  rw [new_of_pos h, new_of_pos h]
  rfl

theorem exists_reserve_new (n bytes : ℕ) (now tat : ℚ) :
    ∃ ready tat', (TokenBucket.new n tat).reserve bytes now = (ready, .new n tat') := by
  rcases Nat.eq_zero_or_pos n with rfl | hn
  · exact ⟨now, tat, rfl⟩
  · exact ⟨_, _, reserve_new hn bytes now tat⟩

theorem clock_of_forgotten (h : s.buckets a = none) : s.clock a d = s.now := by
  rw [clock, bucket, h]
  rfl

/-! #### Making buckets -/

theorem bucketsFor_of_some {pair : ℕ × ℕ} (h : s.buckets a = some pair) :
    s.bucketsFor rates a = (pair, s) := by
  rw [bucketsFor, h]

theorem bucketsFor_of_none (h : s.buckets a = none) : s.bucketsFor rates a =
    ((s.heap.length, s.heap.length + 1), { s with
      heap := s.heap ++ [.new rates.1 s.now, .new rates.2 s.now]
      buckets := Function.update s.buckets a (some (s.heap.length, s.heap.length + 1)) }) := by
  rw [bucketsFor, h]

/-- The buckets made for an account are at the next two addresses. -/
theorem heap_made (heap : List TokenBucket) (now : ℚ) (d : Direction) :
    (heap ++ [TokenBucket.new rates.1 now, .new rates.2 now])[d.of (heap.length, heap.length + 1)]?
      = some (.new (d.of rates) now) := by
  rcases d with _ | _
  · simp [Direction.of]
  · simp [Direction.of]

theorem of_made (n : ℕ) (d : Direction) : n ≤ d.of (n, n + 1) := by
  rcases d with _ | _
  · exact le_rfl
  · exact n.le_succ

theorem Addressed.lt_length (h : Addressed rates s) {pair : ℕ × ℕ} (hpair : s.buckets a = some pair)
    (d : Direction) : d.of pair < s.heap.length := by
  obtain ⟨tat, htat⟩ := h.made hpair d
  exact (List.getElem?_eq_some_iff.mp htat).1

/-- **Making an account's buckets keeps them apart**, and leaves the account with
its buckets. -/
theorem Addressed.bucketsFor (h : Addressed rates s) (a : String) :
    Addressed rates (s.bucketsFor rates a).2 ∧
      (s.bucketsFor rates a).2.buckets a = some (s.bucketsFor rates a).1 := by
  cases hpair : s.buckets a with
  | some pair =>
    rw [bucketsFor_of_some hpair]
    exact ⟨h, hpair⟩
  | none =>
    rw [bucketsFor_of_none hpair]
    refine ⟨?_, by simp⟩
    constructor
    case made =>
      intro a' pair hpair' d
      rcases eq_or_ne a' a with rfl | hne
      · simp only [Function.update_self, Option.some.injEq] at hpair'
        subst hpair'
        exact ⟨s.now, heap_made s.heap s.now d⟩
      · simp only [Function.update_of_ne hne] at hpair'
        obtain ⟨tat, htat⟩ := h.made hpair' d
        refine ⟨tat, ?_⟩
        rw [List.getElem?_append_left (h.lt_length hpair' d), htat]
    case distinct =>
      intro a₁ a₂ pair₁ pair₂ h₁ h₂ d₁ d₂ heq
      -- an address made now is none of those in use
      have hnew : ∀ {a' pair'} {d' : Direction}, s.buckets a' = some pair' → ∀ d : Direction,
          d.of (s.heap.length, s.heap.length + 1) ≠ d'.of pair' := by
        intro a' pair' d' hpair' d he
        have hlt := h.lt_length hpair' d'
        have hge := of_made s.heap.length d
        omega
      rcases eq_or_ne a₁ a with rfl | hne₁ <;> rcases eq_or_ne a₂ a₁ with rfl | hne₂
      · rw [h₁] at h₂
        cases h₂
        simp only [Function.update_self, Option.some.injEq] at h₁
        subst h₁
        refine ⟨rfl, ?_⟩
        rcases d₁ with _ | _ <;> rcases d₂ with _ | _ <;> simp [Direction.of] at heq ⊢
      · simp only [Function.update_self, Option.some.injEq] at h₁
        simp only [Function.update_of_ne hne₂] at h₂
        subst h₁
        exact absurd heq (hnew h₂ d₁)
      · rw [h₁] at h₂
        cases h₂
        simp only [Function.update_of_ne hne₁] at h₁
        exact h.distinct h₁ h₁ heq
      · simp only [Function.update_of_ne hne₁] at h₁
        rcases eq_or_ne a₂ a with rfl | hne
        · simp only [Function.update_self, Option.some.injEq] at h₂
          subst h₂
          exact absurd heq.symm (hnew h₁ d₂)
        · simp only [Function.update_of_ne hne] at h₂
          exact h.distinct h₁ h₂ heq
    case held =>
      intro tr htr
      obtain ⟨pair, hpair', hof⟩ := h.held htr
      have hne : tr.accountId ≠ a := by
        rintro rfl
        rw [hpair] at hpair'
        cases hpair'
      refine ⟨pair, ?_, hof⟩
      simp only [Function.update_of_ne hne, hpair']

/-- The clocks are left as they are: a bucket made anew starts at the present. -/
theorem clock_bucketsFor (h : Addressed rates s) (a a' : String) (d : Direction) :
    (s.bucketsFor rates a).2.clock a' d = s.clock a' d := by
  cases hpair : s.buckets a with
  | some pair => rw [bucketsFor_of_some hpair]
  | none =>
    rw [bucketsFor_of_none hpair]
    rcases eq_or_ne a' a with rfl | hne
    · rw [clock_of_forgotten hpair, clock, bucket]
      simp only [Function.update_self, Option.bind_some]
      rw [heap_made]
      rfl
    · rw [clock, clock, bucket, bucket]
      simp only [Function.update_of_ne hne]
      cases hpair' : s.buckets a' with
      | none => rfl
      | some pair =>
        rw [Option.bind_some, Option.bind_some, List.getElem?_append_left (h.lt_length hpair' d)]

/-! #### Charging a bucket -/

/-- A bucket charged keeps its rate, and the others are as they were. -/
theorem heap_set {n address : ℕ} {heap : List TokenBucket} {tat tat' : ℚ}
    (h : heap[address]? = some (.new n tat)) (b : TokenBucket) (hb : b = .new n tat') (i : ℕ) :
    (heap.set address b)[i]? = if i = address then some (.new n tat') else heap[i]? := by
  have hlt := (List.getElem?_eq_some_iff.mp h).1
  rw [List.getElem?_set, hb]
  rcases eq_or_ne address i with rfl | hne
  · simp [hlt]
  · simp [hne, hne.symm]

/-- **What a charge does**: it moves the clock of one bucket and is payable when
that bucket says. -/
theorem Addressed.chargeTo_eq (h : Addressed rates s) {tr : Handle} {bytes : ℕ}
    (hstep : s.chargeTo tr bytes = some t) : ∃ tat ready tat', tr ∈ s.transfers ∧
      s.bucket tr.accountId tr.direction = some (.new (tr.direction.of rates) tat) ∧
      (TokenBucket.new (tr.direction.of rates) tat).reserve bytes s.now
        = (ready, .new (tr.direction.of rates) tat') ∧
      t.transfers = s.transfers ∧ t.buckets = s.buckets ∧ t.now = s.now ∧
      t.charges = s.charges ++ [⟨tr.accountId, tr.direction, bytes, ready⟩] ∧
      ∀ i, t.heap[i]? =
        if i = tr.bucket then some (.new (tr.direction.of rates) tat') else s.heap[i]? := by
  rw [Throttles.chargeTo] at hstep
  split at hstep
  case isFalse => cases hstep
  case isTrue htr =>
    obtain ⟨b, hb, rfl⟩ := Option.map_eq_some_iff.mp hstep
    obtain ⟨pair, hpair, hof⟩ := h.held htr
    obtain ⟨tat, htat⟩ := h.made hpair tr.direction
    rw [hof, hb] at htat
    obtain rfl := Option.some.inj htat
    obtain ⟨ready, tat', hreserve⟩ := exists_reserve_new (tr.direction.of rates) bytes s.now tat
    refine ⟨tat, ready, tat', htr, ?_, hreserve, rfl, rfl, rfl, ?_, ?_⟩
    · rw [bucket, hpair, Option.bind_some, hof, hb]
    · simp only [hreserve]
    · exact heap_set hb _ (by rw [hreserve])

/-- A charge goes to the bucket of its transfer. -/
theorem Addressed.charge (h : Addressed rates s) {tr : Handle} {bytes : ℕ}
    (hstep : s.chargeTo tr bytes = some t) : Addressed rates t := by
  obtain ⟨tat, ready, tat', htr, -, -, htransfers, hbuckets, -, -, hheap⟩ := h.chargeTo_eq hstep
  constructor
  case made =>
    intro a pair hpair d
    rw [hbuckets] at hpair
    rw [hheap]
    split
    case isFalse => exact h.made hpair d
    case isTrue heq =>
      obtain ⟨pair', hpair', hof⟩ := h.held htr
      obtain ⟨-, rfl⟩ := h.distinct hpair hpair' (heq.trans hof.symm)
      exact ⟨tat', rfl⟩
  case distinct =>
    rw [hbuckets]
    exact h.distinct
  case held =>
    rw [hbuckets, htransfers]
    exact h.held

/-! #### Forgetting buckets -/

theorem sweep_buckets {pair : ℕ × ℕ} : s.sweep.buckets a = some pair ↔
    s.buckets a = some pair ∧ (s.isHeld pair.1 ∨ s.isHeld pair.2) := by
  simp [sweep, Option.filter_eq_some_iff]

/-- A sweep leaves the buckets of the transfers. -/
theorem Addressed.sweep (h : Addressed rates s) : Addressed rates s.sweep := by
  constructor
  case made =>
    intro a pair hpair
    exact h.made (sweep_buckets.mp hpair).1
  case distinct =>
    intro a a' pair pair' hpair hpair'
    exact h.distinct (sweep_buckets.mp hpair).1 (sweep_buckets.mp hpair').1
  case held =>
    intro tr htr
    obtain ⟨pair, hpair, hof⟩ := h.held htr
    have hheld : s.isHeld tr.bucket := List.any_eq_true.mpr ⟨tr, htr, by simp⟩
    refine ⟨pair, sweep_buckets.mpr ⟨hpair, ?_⟩, hof⟩
    rw [← hof] at hheld
    cases hd : tr.direction with
    | up => exact .inl (by rwa [hd] at hheld)
    | down => exact .inr (by rwa [hd] at hheld)

/-- A sweep that forgets a refilled bucket leaves the clock where it was, or
catches it up with the present. -/
theorem le_clock_sweep (hrefilled : s.sweep.bucket a d = none →
    ∀ b ∈ s.bucket a d, b.tat ≤ s.now) : s.clock a d ≤ s.sweep.clock a d := by
  cases hpair : s.sweep.buckets a with
  | some pair =>
    have hbefore := (sweep_buckets.mp hpair).1
    rw [clock, clock, bucket, bucket, hpair, hbefore]
    rfl
  | none =>
    have hgone : s.sweep.bucket a d = none := by rw [bucket, hpair, Option.bind_none]
    rw [clock_of_forgotten hpair, clock]
    cases hb : s.bucket a d with
    | none => exact le_rfl
    | some b => exact hrefilled hgone b hb

/-! ### What an account may use -/

/-- The buckets are as they should be, and the charges to the account in the
direction were metered, if no chunk was longer. -/
structure Sound (rates : ℕ × ℕ) (a : String) (d : Direction) (chunk : ℕ) (s : Throttles) : Prop where
  addressed : Addressed rates s
  metered : (∀ c ∈ s.chargesTo a d, c.bytes ≤ chunk) →
    Metered (burstOf (d.of rates : ℕ)) (chunk / (d.of rates : ℕ)) s.now (s.clock a d)
      (s.payments a d (d.of rates : ℕ))

namespace Sound

variable {chunk : ℕ}

theorem start (hrate : 0 < d.of rates) (now : ℚ) : Sound rates a d chunk (start now) where
  addressed := by constructor <;> simp [Throttles.start]
  metered _ := by
    have hpos : (0 : ℚ) < (d.of rates : ℕ) := Nat.cast_pos.mpr hrate
    refine Metered.nil ?_
    exact div_nonneg (le_max_of_le_left hpos.le) hpos.le

/-- What the passing of time keeps. -/
theorem advance (h : Sound rates a d chunk s) {time : ℚ} (hstep : s.advance time = some t) :
    Sound rates a d chunk t ∧ t.now = time ∧ t = { s with now := time } := by
  rw [Throttles.advance] at hstep
  split at hstep
  case isFalse => cases hstep
  case isTrue hle =>
    obtain rfl := Option.some.inj hstep
    refine ⟨⟨⟨h.addressed.made, h.addressed.distinct, h.addressed.held⟩, fun hchunk => ?_⟩, rfl, rfl⟩
    refine (h.metered hchunk).mono hle ?_
    show s.clock a d ≤ match s.bucket a d with
      | some b => b.tat
      | none => time
    rw [clock]
    cases s.bucket a d with
    | none => exact hle
    | some b => exact le_rfl

/-- What a claim keeps. -/
theorem claim (h : Sound rates a d chunk s) (a' : String) (d' : Direction) :
    Sound rates a d chunk (s.claim rates a' d') := by
  obtain ⟨haddressed, hpair⟩ := h.addressed.bucketsFor a'
  have hclock := clock_bucketsFor h.addressed a' a d
  have hframe : (s.bucketsFor rates a').2.now = s.now ∧
      (s.bucketsFor rates a').2.charges = s.charges := by
    rw [bucketsFor]
    cases s.buckets a' <;> exact ⟨rfl, rfl⟩
  obtain ⟨hnow, hcharges⟩ := hframe
  constructor
  case addressed =>
    refine ⟨haddressed.made, haddressed.distinct, ?_⟩
    intro tr htr
    rcases List.mem_cons.mp htr with rfl | htr
    · exact ⟨_, hpair, rfl⟩
    · exact haddressed.held htr
  case metered =>
    intro hchunk
    have hsame : (s.claim rates a' d').chargesTo a d = s.chargesTo a d := by
      simp only [chargesTo, Throttles.claim, hcharges]
    have hmetered := h.metered (hsame ▸ hchunk)
    rw [← hclock, ← hnow] at hmetered
    rw [payments, hsame]
    exact hmetered

/-- What a charge keeps. -/
theorem charge (hrate : 0 < d.of rates) (h : Sound rates a d chunk s) {tr : Handle} {bytes : ℕ}
    (hstep : s.chargeTo tr bytes = some t) : Sound rates a d chunk t := by
  refine ⟨h.addressed.charge hstep, fun hchunk => ?_⟩
  obtain ⟨tat, ready, tat', htr, hbucket, hreserve, -, hbuckets, hnow, hcharges, hheap⟩ :=
    h.addressed.chargeTo_eq hstep
  obtain ⟨pair', hpair', hof⟩ := h.addressed.held htr
  have hlater : t.chargesTo a d = s.chargesTo a d ++
      if tr.accountId = a ∧ tr.direction = d then [⟨tr.accountId, tr.direction, bytes, ready⟩]
      else [] := by
    rw [chargesTo, hcharges, List.filter_append, chargesTo]
    by_cases hsame : tr.accountId = a ∧ tr.direction = d <;> simp [hsame]
  have hmetered := h.metered fun c hc => hchunk c (hlater ▸ List.mem_append_left _ hc)
  rw [hnow]
  by_cases hsame : tr.accountId = a ∧ tr.direction = d
  · obtain ⟨rfl, rfl⟩ := hsame
    rw [if_pos ⟨rfl, rfl⟩] at hlater
    have hbytes : bytes ≤ chunk :=
      hchunk ⟨_, _, bytes, ready⟩ (hlater ▸ List.mem_append_right _ (List.mem_singleton_self _))
    have hpos : (0 : ℚ) < (tr.direction.of rates : ℕ) := Nat.cast_pos.mpr hrate
    rw [reserve_new hrate] at hreserve
    obtain ⟨hready, htat'⟩ := Prod.mk.inj hreserve
    rw [new_of_pos hrate, new_of_pos hrate, TokenBucket.mk.injEq] at htat'
    have hbefore : s.clock tr.accountId tr.direction = tat := by
      rw [clock, hbucket, new_of_pos hrate]
    have hafter : t.clock tr.accountId tr.direction = tat' := by
      rw [clock, bucket, hbuckets, hpair', Option.bind_some, hheap, if_pos hof, new_of_pos hrate]
    -- the charge is to the bucket in question, and goes by the meter's rule for one
    rw [hbefore] at hmetered
    have hcharged := hmetered.charge
      (div_le_div_of_nonneg_right (Nat.cast_le.mpr hbytes) hpos.le)
      (div_nonneg (Nat.cast_nonneg bytes) hpos.le)
    rw [hready, htat'.2.2] at hcharged
    rw [hafter, payments, hlater, List.map_append]
    exact hcharged
  · rw [if_neg hsame, List.append_nil] at hlater
    have hclock : t.clock a d = s.clock a d := by
      rw [clock, clock, bucket, bucket, hbuckets]
      cases hpair : s.buckets a with
      | none =>
        rw [Option.bind_none]
        exact hnow
      | some pair =>
        rw [Option.bind_some, Option.bind_some, hheap, if_neg, hnow]
        intro heq
        -- a bucket is that of one account and direction only
        obtain ⟨rfl, rfl⟩ := h.addressed.distinct hpair hpair' (heq.trans hof.symm)
        exact hsame ⟨rfl, rfl⟩
    rw [hclock, payments, hlater]
    exact hmetered

theorem drop (h : Sound rates a d chunk s) (tr : Handle) :
    Sound rates a d chunk { s with transfers := s.transfers.erase tr } where
  addressed := ⟨h.addressed.made, h.addressed.distinct,
    fun htr => h.addressed.held (List.mem_of_mem_erase htr)⟩
  metered := h.metered

theorem sweep (h : Sound rates a d chunk s) (hrefilled : s.sweep.bucket a d = none →
    ∀ b ∈ s.bucket a d, b.tat ≤ s.now) : Sound rates a d chunk s.sweep where
  addressed := h.addressed.sweep
  metered hchunk := (h.metered hchunk).mono le_rfl (le_clock_sweep hrefilled)

/-- **Every event keeps the account metered**, a sweep if it forgets no bucket
that is ahead of the present. -/
theorem step (hrate : 0 < d.of rates) (h : Sound rates a d chunk s) {e : ℚ × Event}
    (hstep : s.step rates e = some t) (hrefilled : Refilled a d s e) : Sound rates a d chunk t := by
  obtain ⟨time, event⟩ := e
  obtain ⟨u, hu, hstep⟩ := Option.bind_eq_some_iff.mp hstep
  obtain ⟨h, hnow, rfl⟩ := h.advance hu
  cases event with
  | claim a' d' => exact Option.some.inj hstep ▸ h.claim a' d'
  | charge tr bytes => exact h.charge hrate hstep
  | drop tr =>
    simp only [apply] at hstep
    split at hstep
    case isFalse => cases hstep
    case isTrue => exact Option.some.inj hstep ▸ h.drop tr
  | sweep =>
    refine Option.some.inj hstep ▸ h.sweep ?_
    exact hrefilled rfl

end Sound

/-- The bytes within a window are what was spent in it, at the rate. -/
theorem bytesWithin_eq (s : Throttles) (a : String) (d : Direction) {rate : ℚ} (hrate : rate ≠ 0)
    (start stop : ℚ) :
    (s.bytesWithin a d start stop : ℚ) = spentWithin (s.payments a d rate) start stop * rate := by
  rw [bytesWithin, spentWithin, payments, List.filter_map, List.map_map]
  simp only [Function.comp_def]
  induction (s.chargesTo a d).filter fun c => start ≤ c.ready ∧ c.ready ≤ stop with
  | nil => simp
  | cons c cs ih =>
    simp only [List.map_cons, List.sum_cons, Nat.cast_add, ih, add_mul, div_mul_cancel₀ _ hrate]

end Throttles

open Throttles in
/-- **An account's bandwidth stays within rate and burst**, in a run whose sweeps
forget none of its buckets before it has refilled: within any window no more becomes
payable than a burst, what the rate allows, and one chunk. -/
theorem bandwidth_bounded {rates : ℕ × ℕ} {a : String} {d : Direction} {now : ℚ}
    {events : List (ℚ × Event)} {s : Throttles} {chunk : ℕ} (hrate : 0 < d.of rates)
    (hrun : Run (Guarded (fun s e t => step rates s e = some t) (Refilled a d)) (.start now) events s)
    (hchunk : ∀ c ∈ s.chargesTo a d, c.bytes ≤ chunk) {start stop : ℚ} (hle : start ≤ stop) :
    (s.bytesWithin a d start stop : ℚ) ≤
      (max (d.of rates) (64 * 1024) : ℕ) + (d.of rates : ℕ) * (stop - start) + chunk := by
  have hsound : Sound rates a d chunk s :=
    hrun.invariant (Sound rates a d chunk)
      (fun _ _ _ h hstep => h.step hrate hstep.1 hstep.2) (.start hrate now)
  obtain ⟨rate, hcast⟩ : ∃ rate : ℚ, (d.of rates : ℕ) = rate := ⟨_, rfl⟩
  have hpos : 0 < rate := hcast ▸ Nat.cast_pos.mpr hrate
  have hwindow := (hsound.metered hchunk).window start stop hle
  rw [hcast] at hwindow
  have hburst : burstOf rate * rate = (max (d.of rates) (64 * 1024) : ℕ) := by
    rw [burstOf, div_mul_cancel₀ _ hpos.ne', Nat.cast_max, hcast]
    norm_num
  -- the window of the meter is in seconds; times the rate it is in bytes
  have hboth : max (burstOf rate) (chunk / rate) ≤ burstOf rate + chunk / rate :=
    max_le (le_add_of_nonneg_right (div_nonneg (Nat.cast_nonneg _) hpos.le))
      (le_add_of_nonneg_left (div_nonneg (le_max_of_le_left hpos.le) hpos.le))
  rw [bytesWithin_eq s a d hpos.ne', hcast]
  calc spentWithin (s.payments a d rate) start stop * rate
      ≤ (stop - start + (burstOf rate + chunk / rate)) * rate :=
        mul_le_mul_of_nonneg_right (hwindow.trans (add_le_add_right hboth _)) hpos.le
    _ = burstOf rate * rate + rate * (stop - start) + chunk / rate * rate := by ring
    _ = (max (d.of rates) (64 * 1024) : ℕ) + rate * (stop - start) + chunk := by
        rw [hburst, div_mul_cancel₀ _ hpos.ne']

/-- An upload of one chunk, a sweep once the bucket has refilled, and another. -/
def patient : List (ℚ × Event) :=
  [(0, .claim "a1" .up), (0, .charge ⟨"a1", .up, 0⟩ 65536), (0, .drop ⟨"a1", .up, 0⟩), (1, .sweep),
    (1, .claim "a1" .up), (1, .charge ⟨"a1", .up, 2⟩ 65536)]

open Throttles in
/-- A run that uploads a burst, is forgotten once it has refilled, and uploads
another: within the second both become payable. -/
theorem bandwidth_bounded_patient : ∃ s, bytesWithin s "a1" .up 0 1 = 131072 ∧
    (bytesWithin s "a1" .up 0 1 : ℚ) ≤ (max (Direction.up.of (65536, 65536)) (64 * 1024) : ℕ) +
      (Direction.up.of (65536, 65536) : ℕ) * (1 - 0) + (65536 : ℕ) := by
  have hbytes : (perform (fun s e => if Refilled "a1" .up s e then step (65536, 65536) s e else none)
      (.start 0) patient).map
      (fun s => ((s.chargesTo "a1" .up).map Charge.bytes, s.bytesWithin "a1" .up 0 1))
      = some ([65536, 65536], 131072) := by decide +kernel
  obtain ⟨s, hs, hboth⟩ := Option.map_eq_some_iff.mp hbytes
  obtain ⟨hchunks, hwithin⟩ := Prod.mk.inj hboth
  refine ⟨s, hwithin, bandwidth_bounded (by decide) (guarded_of_perform hs) ?_ zero_le_one⟩
  intro c hc
  have hmem := hchunks ▸ List.mem_map_of_mem hc
  simp only [List.mem_cons, List.not_mem_nil, or_false, or_self] at hmem
  exact hmem.le

/-! ### A fresh burst -/

/-- Two chunks, a sweep once the upload is over, and two chunks more. -/
def hoard : List (ℚ × Event) :=
  [(0, .claim "a1" .up), (0, .charge ⟨"a1", .up, 0⟩ 32768), (0, .charge ⟨"a1", .up, 0⟩ 32768),
    (0, .drop ⟨"a1", .up, 0⟩), (0, .sweep),
    (0, .claim "a1" .up), (0, .charge ⟨"a1", .up, 2⟩ 32768), (0, .charge ⟨"a1", .up, 2⟩ 32768)]

open Throttles in
/-- **A sweep between two uploads hands out a fresh burst**: at 64 KiB per second,
128 KiB of 32 KiB chunks are payable at once. -/
theorem fresh_burst : ∃ s, Run (fun s e t => step (65536, 65536) s e = some t) (.start 0) hoard s ∧
    (∀ c ∈ s.chargesTo "a1" .up, c.bytes ≤ 32768) ∧
    ¬(s.bytesWithin "a1" .up 0 0 : ℚ) ≤
      (max (Direction.up.of (65536, 65536)) (64 * 1024) : ℕ) +
        (Direction.up.of (65536, 65536) : ℕ) * (0 - 0) + (32768 : ℕ) := by
  have hbytes : (perform (step (65536, 65536)) (.start 0) hoard).map
      (fun s => ((s.chargesTo "a1" .up).map Charge.bytes, s.bytesWithin "a1" .up 0 0))
      = some ([32768, 32768, 32768, 32768], 131072) := by decide +kernel
  obtain ⟨s, hs, hboth⟩ := Option.map_eq_some_iff.mp hbytes
  obtain ⟨hchunks, hwithin⟩ := Prod.mk.inj hboth
  refine ⟨s, run_of_perform hs, ?_, ?_⟩
  · intro c hc
    have hmem := hchunks ▸ List.mem_map_of_mem hc
    simp only [List.mem_cons, List.not_mem_nil, or_false, or_self] at hmem
    exact hmem.le
  · rw [hwithin]
    norm_num [Direction.of]

end Transfer

end KdxHotline
