import Mathlib.Data.List.Count
import KdxHotline.Auth.Limiter
import KdxHotline.Foundations.Runs

/-!
# How many guesses the limiter lets through

An attempt is put to the limiter when it begins, and is only counted there once it is decided. In
between others of the same address may have passed, so that more are counted than the limiter would
let through one after another. But an attempt that passes after a failure did wait for as long as
that failure blocks, and this doubles with every one. So within any time of `failureWindow` an
address has no more failures than the free ones, the few whose backoffs are shorter than that, and
one for each attempt that it may have under way at once (`KdxHotline.Auth.guesses_le`).
-/

namespace KdxHotline

namespace Auth

open Foundations

/-- The limiter as it is used. -/
structure Attempts where
  limiter : LoginLimiter
  now : ℕ
  /-- The attempts that have passed and are not decided. -/
  passed : List Source
  /-- The failures there were, and when they were counted. -/
  failed : List (Source × ℕ)

/-- What may happen: time passes, an attempt begins, and one that has passed fails, succeeds, or is
given up. -/
inductive AttemptEvent
  | tick (elapsed : ℕ)
  | check (source : Source)
  | fail (source : Source)
  | succeed (source : Source)
  | leave (source : Source)

namespace Attempts

/-- What an event does; an attempt fails or succeeds only after its check was passed. -/
def apply (s : Attempts) : AttemptEvent → Option Attempts
  | .tick elapsed => some { s with now := s.now + elapsed }
  | .check source =>
    match s.limiter.check s.now source with
    | .ok () => some { s with passed := source :: s.passed }
    | .error _ => some s
  | .fail source =>
    if source ∈ s.passed then
      some { s with
        limiter := s.limiter.recordFailure s.now source
        passed := s.passed.erase source
        failed := s.failed ++ [(source, s.now)] }
    else none
  | .succeed source =>
    if source ∈ s.passed then
      some { s with
        limiter := s.limiter.recordSuccess source
        passed := s.passed.erase source }
    else none
  | .leave source =>
    if source ∈ s.passed then some { s with passed := s.passed.erase source } else none

/-- The event takes place. -/
def Takes (s : Attempts) (event : AttemptEvent) (s' : Attempts) : Prop := s.apply event = some s'

/-- How many attempts of an address are under way. -/
def underWay (s : Attempts) (ip : IpAddr) : ℕ := s.passed.countP fun source => source.ip = ip

/-- How many failures of an address were counted in the window that starts then. -/
def failuresFrom (s : Attempts) (ip : IpAddr) (start : ℕ) : ℕ :=
  s.failed.countP fun f => f.1.ip = ip ∧ start ≤ f.2 ∧ f.2 < start + failureWindow

/-- An address has no more than `most` attempts under way at once. -/
def Sparse (most : ℕ) (s : Attempts) : AttemptEvent → Prop
  | .check source => s.underWay source.ip < most
  | _ => True

/-- What a run is asked for: there is always room to track two keys more, and no address has too
many attempts under way. -/
def Orderly (most : ℕ) (s : Attempts) (event : AttemptEvent) : Prop :=
  s.limiter.entries.length + 2 ≤ maxTracked ∧ s.Sparse most event

instance decidableSparse (most : ℕ) (s : Attempts) :
    (event : AttemptEvent) → Decidable (s.Sparse most event)
  | .check _ => inferInstanceAs (Decidable (_ < _))
  | .tick _ | .fail _ | .succeed _ | .leave _ => isTrue trivial

instance decidableOrderly (most : ℕ) (s : Attempts) (event : AttemptEvent) :
    Decidable (s.Orderly most event) := inferInstanceAs (Decidable (_ ∧ _))

end Attempts

/-! ### One bucket -/

section Buckets

variable {l : LoginLimiter} {b : Bucket} {key : Key} {free now : ℕ}

/-- A bucket has counted as many failures, the last not before `start`, and blocks for as long as it
should. -/
structure Bucket.Counts (b : Bucket) (free failures start : ℕ) : Prop where
  failures : min failures (2 ^ 32 - 1) ≤ b.failures
  recent : start ≤ b.lastFailure
  blocks : free < b.failures →
    b.lastFailure + min (baseBackoff * 2 ^ min (b.failures - free - 1) 20) maxBackoff ≤
      b.blockedUntil

theorem Bucket.counts_fail {n start : ℕ} (hn : min n (2 ^ 32 - 1) ≤ b.failures)
    (hstart : start ≤ now) : (b.fail free now).Counts free (n + 1) start := by
  refine ⟨?_, hstart, fun hfree => ?_⟩
  · dsimp only [Bucket.fail]
    omega
  · dsimp only [Bucket.fail] at hfree ⊢
    rw [if_pos hfree]

/-- A bucket whose last failure is recent has not expired. -/
theorem Bucket.not_expired {start : ℕ} (hstart : start ≤ b.lastFailure)
    (hnow : now < start + failureWindow) : b.expired now = false := by
  rw [Bucket.expired, Bool.and_eq_false_iff]
  right
  have hwindow : 0 < failureWindow := by decide
  exact decide_eq_false (by omega)

/-- A bucket that no longer blocks, though its last failure is recent, has not counted many. -/
theorem Bucket.Counts.failures_le {n start : ℕ} (h : b.Counts free n start)
    (hnow : now < start + failureWindow) (hclear : b.blockedUntil ≤ now) :
    b.failures ≤ free + 10 := by
  by_contra hmany
  have hblocks := h.blocks (by omega)
  have hrecent := h.recent
  have hbackoff : maxBackoff ≤ baseBackoff * 2 ^ min (b.failures - free - 1) 20 := by
    have hdoublings : 10 ≤ min (b.failures - free - 1) 20 := by omega
    calc maxBackoff ≤ baseBackoff * 2 ^ 10 := by decide
      _ ≤ baseBackoff * 2 ^ min (b.failures - free - 1) 20 :=
        Nat.mul_le_mul_left _ (Nat.pow_le_pow_right (by decide) hdoublings)
  rw [min_eq_right hbackoff] at hblocks
  have hsame : maxBackoff = failureWindow := rfl
  omega

/-- What a failure makes of the bucket of its key. -/
theorem counts_bump {n start : ℕ} (hroom : l.entries.length < maxTracked)
    (hstart : start ≤ now) (hnow : now < start + failureWindow)
    (hcounts : 0 < n → ∃ b ∈ l.lookup key, b.Counts free n start) :
    ∃ b ∈ (l.bump key free now).lookup key, b.Counts free (n + 1) start := by
  unfold LoginLimiter.bump
  cases hb : l.lookup key with
  | none =>
    have hn : n = 0 := by
      by_contra hn
      obtain ⟨b, hlookup, -⟩ := hcounts (Nat.pos_of_ne_zero hn)
      rw [hb] at hlookup
      cases hlookup
    subst hn
    simp only [if_neg (not_le.mpr hroom), AList.lookup_insert]
    exact ⟨_, rfl, Bucket.counts_fail (Nat.zero_le _) hstart⟩
  | some b =>
    simp only [AList.lookup_insert]
    refine ⟨_, rfl, Bucket.counts_fail ?_ hstart⟩
    by_cases hn : n = 0
    · rw [hn]
      exact Nat.zero_le _
    · obtain ⟨b', hlookup, hb'⟩ := hcounts (Nat.pos_of_ne_zero hn)
      obtain rfl := Option.some.inj (hb.symm.trans hlookup)
      rw [Bucket.not_expired hb'.recent hnow]
      exact hb'.failures

theorem lookup_recordFailure_ip {source : Source} {ip : IpAddr}
    (hroom : l.entries.length + 2 ≤ maxTracked) (hne : source.ip ≠ ip) :
    (l.recordFailure now source).lookup (.ip ip) = l.lookup (.ip ip) :=
  LoginLimiter.lookup_recordFailure_ne hroom (fun he => hne (Key.ip.inj he).symm) (by simp)

/-- What a failure makes of the bucket of its address. -/
theorem counts_recordFailure {source : Source} {n start : ℕ}
    (hroom : l.entries.length + 2 ≤ maxTracked) (hstart : start ≤ now)
    (hnow : now < start + failureWindow)
    (hcounts : 0 < n → ∃ b ∈ l.lookup (.ip source.ip), b.Counts ipFreeFailures n start) :
    ∃ b ∈ (l.recordFailure now source).lookup (.ip source.ip),
      b.Counts ipFreeFailures (n + 1) start := by
  unfold LoginLimiter.recordFailure
  rw [if_neg (not_lt.mpr hroom), LoginLimiter.lookup_bump_ne (by simp)]
  exact counts_bump (by omega) hstart hnow hcounts

end Buckets

/-! ### A window -/

/-- What holds while failures of an address are counted in a window. -/
structure Attempts.Bounded (most : ℕ) (ip : IpAddr) (start : ℕ) (s : Attempts) : Prop where
  past : ∀ f ∈ s.failed, f.2 ≤ s.now
  failures : s.failuresFrom ip start ≤ ipFreeFailures + 10 + most
  /-- While the window lasts there is room for those under way. -/
  room : s.now < start + failureWindow →
    s.failuresFrom ip start + s.underWay ip ≤ ipFreeFailures + 10 + most
  bucket : s.now < start + failureWindow → 0 < s.failuresFrom ip start →
    ∃ b ∈ s.limiter.lookup (.ip ip), b.Counts ipFreeFailures (s.failuresFrom ip start) start

section Windows

variable {most start : ℕ} {ip : IpAddr} {s s' : Attempts} {source : Source}

/-- One attempt less is under way. -/
theorem underWay_erase (ip : IpAddr) (hmem : source ∈ s.passed) :
    (s.passed.erase source).countP (fun source => source.ip = ip) +
      (if source.ip = ip then 1 else 0) = s.underWay ip := by
  rw [Attempts.underWay, List.Perm.countP_eq _ (List.perm_cons_erase hmem), List.countP_cons]
  simp

/-- One failure more was counted. -/
theorem failuresFrom_concat (s : Attempts) (source : Source) (ip : IpAddr) (start : ℕ) :
    (s.failed ++ [(source, s.now)]).countP
        (fun f => f.1.ip = ip ∧ start ≤ f.2 ∧ f.2 < start + failureWindow) =
      s.failuresFrom ip start +
        if source.ip = ip ∧ start ≤ s.now ∧ s.now < start + failureWindow then 1 else 0 := by
  rw [List.countP_append, List.countP_singleton]
  simp [Attempts.failuresFrom]

theorem failuresFrom_before (h : ∀ f ∈ s.failed, f.2 ≤ s.now) (hnow : s.now < start) :
    s.failuresFrom ip start = 0 := by
  refine List.countP_eq_zero.mpr fun f hf => ?_
  have hpast := h f hf
  simp only [decide_eq_true_eq]
  omega

/-- **Whatever happens, the failures in a window stay bounded.** -/
theorem Attempts.Bounded.step {event : AttemptEvent} (h : s.Bounded most ip start)
    (htakes : s.Takes event s') (horderly : s.Orderly most event) : s'.Bounded most ip start := by
  cases event with
  | tick elapsed =>
    obtain rfl := Option.some.inj htakes
    refine ⟨fun f hf => (h.past f hf).trans (Nat.le_add_right _ _), h.failures, fun hnow => ?_,
      fun hnow => ?_⟩
    · exact h.room (lt_of_le_of_lt (Nat.le_add_right _ _) hnow)
    · exact h.bucket (lt_of_le_of_lt (Nat.le_add_right _ _) hnow)
  | check source =>
    simp only [Takes, apply] at htakes
    split at htakes
    case h_2 => exact Option.some.inj htakes ▸ h
    case h_1 hpasses =>
    obtain rfl := Option.some.inj htakes
    refine ⟨h.past, h.failures, fun hnow => ?_, h.bucket⟩
    have hroom := h.room hnow
    have hmost : s.underWay source.ip < most := horderly.2
    unfold underWay
    rw [List.countP_cons]
    by_cases hip : source.ip = ip
    · -- it passes, so the failures so far do not block any more
      subst hip
      have hfew : s.failuresFrom source.ip start ≤ ipFreeFailures + 10 := by
        by_cases hsome : s.failuresFrom source.ip start = 0
        · rw [hsome]
          exact Nat.zero_le _
        · obtain ⟨b, hlookup, hb⟩ := h.bucket hnow (Nat.pos_of_ne_zero hsome)
          have hclear := (LoginLimiter.check_eq_ok.mp hpasses).1 b hlookup
          have hfailures := hb.failures
          have hle := hb.failures_le hnow hclear
          have hfree : ipFreeFailures = 20 := rfl
          omega
      rw [if_pos (by simp)]
      change s.failuresFrom source.ip start + (s.underWay source.ip + 1) ≤ _
      omega
    · rw [if_neg (by simpa using hip)]
      exact hroom
  | fail source =>
    simp only [Takes, apply] at htakes
    split at htakes
    case isFalse => cases htakes
    case isTrue hmem =>
    obtain rfl := Option.some.inj htakes
    have hroom := h.room
    have hfailures := h.failures
    -- an attempt under way becomes a failure: the sum of the two stays
    have herase := underWay_erase ip hmem
    have hconcat := failuresFrom_concat s source ip start
    refine ⟨fun f hf => ?_, ?_, fun hnow => ?_, fun hnow hsome => ?_⟩
    · rcases List.mem_append.mp hf with hf | hf
      · exact h.past f hf
      · rw [List.mem_singleton.mp hf]
    · -- it was under way, so that there was room for it
      unfold failuresFrom
      rw [hconcat]
      split
      case isTrue hcounted =>
        have hroom := hroom hcounted.2.2
        rw [if_pos hcounted.1] at herase
        omega
      case isFalse => exact hfailures
    · have hroom := hroom hnow
      unfold failuresFrom underWay
      rw [hconcat]
      dsimp only
      split
      case isTrue hcounted =>
        rw [if_pos hcounted.1] at herase
        omega
      case isFalse =>
        have hless := Nat.le.intro herase
        omega
    · unfold failuresFrom at hsome ⊢
      rw [hconcat] at hsome ⊢
      dsimp only at hnow ⊢
      by_cases hip : source.ip = ip
      · subst hip
        -- before the window there is nothing to be counted in the bucket
        by_cases hstart : start ≤ s.now
        · rw [if_pos ⟨rfl, hstart, hnow⟩]
          exact counts_recordFailure horderly.1 hstart hnow (h.bucket hnow)
        · rw [failuresFrom_before h.past (not_le.mp hstart), if_neg fun hcounted =>
            hstart hcounted.2.1] at hsome
          exact absurd hsome (Nat.lt_irrefl 0)
      · rw [if_neg fun hcounted => hip hcounted.1] at hsome ⊢
        rw [lookup_recordFailure_ip horderly.1 hip]
        exact h.bucket hnow hsome
  | succeed source =>
    simp only [Takes, apply] at htakes
    split at htakes
    case isFalse => cases htakes
    case isTrue hmem =>
    obtain rfl := Option.some.inj htakes
    have herase := underWay_erase ip hmem
    refine ⟨h.past, h.failures, fun hnow => ?_, fun hnow hsome => ?_⟩
    · have hroom := h.room hnow
      unfold underWay at herase ⊢
      dsimp only [failuresFrom] at hroom ⊢
      unfold underWay at hroom
      omega
    · dsimp only
      rw [LoginLimiter.lookup_recordSuccess, if_neg (by simp)]
      exact h.bucket hnow hsome
  | leave source =>
    simp only [Takes, apply] at htakes
    split at htakes
    case isFalse => cases htakes
    case isTrue hmem =>
    obtain rfl := Option.some.inj htakes
    have herase := underWay_erase ip hmem
    refine ⟨h.past, h.failures, fun hnow => ?_, h.bucket⟩
    have hroom := h.room hnow
    unfold underWay at herase ⊢
    dsimp only [failuresFrom] at hroom ⊢
    unfold underWay at hroom
    omega

/-- **Guesses are bounded.** However attempts of an address overlap, and whatever the limiter had
counted before: within a window there are no more failures than those that are free, ten, and as
many as the attempts that it may have under way at once. -/
theorem guesses_le {events : List AttemptEvent} (hpassed : s.passed = []) (hfailed : s.failed = [])
    (h : Run (Guarded Attempts.Takes (Attempts.Orderly most)) s events s') (ip : IpAddr)
    (start : ℕ) : s'.failuresFrom ip start ≤ ipFreeFailures + 10 + most := by
  have hnone : s.failuresFrom ip start = 0 := by
    rw [Attempts.failuresFrom, hfailed, List.countP_nil]
  have hbounded : s.Bounded most ip start := by
    refine ⟨fun f hf => ?_, hnone ▸ Nat.zero_le _, fun _ => ?_, fun _ hsome => ?_⟩
    · rw [hfailed] at hf
      cases hf
    · rw [hnone, Attempts.underWay, hpassed, List.countP_nil]
      exact Nat.zero_le _
    · exact absurd hsome (hnone ▸ Nat.lt_irrefl 0)
  exact (h.invariant (Attempts.Bounded most ip start)
    (fun _ _ _ hs hstep => hs.step hstep.1 hstep.2) hbounded).failures

end Windows

/-! Two attempts that overlap, and fail. -/

namespace Overlapping

/-- A name tried from one address. -/
def source : Source := ⟨.v4 1, "a"⟩

/-- A run in which at most two attempts overlap. -/
def run (events : List AttemptEvent) : Option Attempts :=
  perform (fun s event => if s.Orderly 2 event then s.apply event else none) ⟨∅, 0, [], []⟩ events

theorem failed : (run [.check source, .check source, .fail source, .fail source]).map
    (fun s => s.failuresFrom source.ip 0) = some 2 := by
  decide +kernel

end Overlapping

open Overlapping in
theorem guesses_le_overlapping : ∃ s : Attempts, s.failuresFrom source.ip 0 = 2 ∧
    ∀ start, s.failuresFrom source.ip start ≤ 32 := by
  obtain ⟨s, hrun, hseen⟩ := Option.map_eq_some_iff.mp failed
  exact ⟨s, hseen, guesses_le rfl rfl (guarded_of_perform hrun) source.ip⟩

end Auth

end KdxHotline
