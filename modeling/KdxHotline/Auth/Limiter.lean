import Mathlib.Algebra.Order.Ring.Nat
import Mathlib.Data.List.AList
import KdxHotline.Foundations.Address
import KdxHotline.Foundations.Fallible

/-!
# The login limiter

Failures are counted per address and per pair of an address and a username. Each key
has a few for free; after that every further one blocks the key for a backoff that
doubles. A key without failures for a while starts over
(`KdxHotline.Auth.Bucket.expired`).

A source is asked for by its two keys, and refused while either is blocked
(`KdxHotline.Auth.LoginLimiter.check_eq_ok`). A failure and a success leave the keys of other
sources as they are.
-/

namespace KdxHotline

namespace Auth

open Foundations

/-! ### Addresses -/

/-- Group addresses the way a single attacker's allocation is usually sized: IPv6 by /64,
and an IPv4-mapped address as its IPv4 address. -/
def normalize : IpAddr → IpAddr
  | .v4 bits => .v4 bits
  | .v6 bits =>
    match toIpv4Mapped bits with
    | some v4 => .v4 v4
    | none => .v6 (truncBits bits 64)

/-- What a guess is counted against: the address as it is grouped, and the username. -/
structure Source where
  ip : IpAddr
  username : String
  deriving DecidableEq

/-- The source of a peer that names a user. -/
def Source.of (ip : IpAddr) (username : String) : Source := ⟨normalize ip, username⟩

/-! ### Buckets -/

/-- A second, in the clock's nanoseconds. -/
def second : ℕ := 1000000000

/-- Failures one pair may make before backoff starts. -/
def pairFreeFailures : ℕ := 5
/-- Failures one address may make across all usernames before backoff starts. -/
def ipFreeFailures : ℕ := 20
/-- First backoff once a key's free failures are used up. -/
def baseBackoff : ℕ := second
/-- Longest single backoff. -/
def maxBackoff : ℕ := 15 * 60 * second
/-- A key with no failure for this long (and no active block) starts over. -/
def failureWindow : ℕ := 15 * 60 * second
/-- Most keys tracked at once. -/
def maxTracked : ℕ := 65536

/-- What failures are counted for: an address, or an address with a name. -/
inductive Key
  | ip (ip : IpAddr)
  | pair (ip : IpAddr) (username : String)
  deriving DecidableEq

/-- The failures of a key, with the time of the last one and until when it is blocked. -/
structure Bucket where
  failures : ℕ
  lastFailure : ℕ
  blockedUntil : ℕ

namespace Bucket

/-- A bucket without failures. -/
def fresh (now : ℕ) : Bucket := ⟨0, now, now⟩

/-- Whether a bucket is neither blocked nor within the window of its last failure. -/
def expired (b : Bucket) (now : ℕ) : Bool :=
  decide (b.blockedUntil ≤ now) && decide (failureWindow ≤ now - b.lastFailure)

/-- One failure more: past the free ones, each blocks for twice as long as the last. -/
def fail (b : Bucket) (free now : ℕ) : Bucket :=
  let failures := min (b.failures + 1) (2 ^ 32 - 1)
  let doublings := min (failures - free - 1) 20
  { failures
    lastFailure := now
    blockedUntil :=
      if free < failures then now + min (baseBackoff * 2 ^ doublings) maxBackoff
      else b.blockedUntil }

end Bucket

/-- The buckets, one for each key that is tracked. -/
abbrev LoginLimiter : Type := AList fun _ : Key => Bucket

namespace LoginLimiter

/-- Keep the buckets that pass. -/
def retain (l : LoginLimiter) (p : Bucket → Bool) : LoginLimiter :=
  ⟨l.entries.filter fun e => p e.2, List.Nodup.sublist (List.filter_sublist.map _) l.nodupKeys⟩

/-- Count a failure against a key, unless there is no room for a new one. -/
def bump (l : LoginLimiter) (key : Key) (free now : ℕ) : LoginLimiter :=
  match l.lookup key with
  | none => if maxTracked ≤ l.entries.length then l else l.insert key ((Bucket.fresh now).fail free now)
  | some b => l.insert key ((if b.expired now then Bucket.fresh now else b).fail free now)

/-- How long a key has still to wait. -/
def wait (l : LoginLimiter) (key : Key) (now : ℕ) : ℕ :=
  match l.lookup key with
  | some b => b.blockedUntil - now
  | none => 0

/-- An error, how long to wait, if a login by the source must be refused right now. -/
def check (l : LoginLimiter) (now : ℕ) (source : Source) : Except ℕ Unit :=
  let wait := max (l.wait (.ip source.ip) now) (l.wait (.pair source.ip source.username) now)
  if wait = 0 then .ok () else .error wait

/-- Count a failed attempt against both the address and the pair. -/
def recordFailure (l : LoginLimiter) (now : ℕ) (source : Source) : LoginLimiter :=
  let l := if maxTracked < l.entries.length + 2 then l.retain fun b => !b.expired now else l
  (l.bump (.ip source.ip) ipFreeFailures now).bump (.pair source.ip source.username)
    pairFreeFailures now

/-- A successful login clears its pair. -/
def recordSuccess (l : LoginLimiter) (source : Source) : LoginLimiter :=
  l.erase (.pair source.ip source.username)

/-! ### When a source is refused -/

section Checks

variable {l : LoginLimiter} {now : ℕ} {source : Source} {key : Key}

/-- A key that is not blocked. -/
def Clear (l : LoginLimiter) (key : Key) (now : ℕ) : Prop :=
  ∀ b ∈ l.lookup key, b.blockedUntil ≤ now

theorem wait_eq_zero : l.wait key now = 0 ↔ l.Clear key now := by
  unfold wait Clear
  cases l.lookup key with
  | none => simp
  | some b => simp [Nat.sub_eq_zero_iff_le]

/-- **A source is let through when neither of its keys is blocked.** -/
theorem check_eq_ok : l.check now source = .ok () ↔
    l.Clear (.ip source.ip) now ∧ l.Clear (.pair source.ip source.username) now := by
  rw [← wait_eq_zero, ← wait_eq_zero, check]
  split
  case isTrue hzero =>
    simp only [true_iff]
    omega
  case isFalse hpos =>
    simp only [reduceCtorEq, false_iff]
    omega

theorem lookup_recordSuccess (key : Key) : (l.recordSuccess source).lookup key =
    if key = .pair source.ip source.username then none else l.lookup key := by
  unfold recordSuccess
  split
  case isTrue h =>
    rw [h]
    exact AList.lookup_erase _ _
  case isFalse h => exact AList.lookup_erase_ne h

end Checks

/-! ### What a failure leaves alone -/

section Counts

variable {l : LoginLimiter} {now free : ℕ} {source : Source} {key key' : Key}

theorem lookup_bump_ne (h : key' ≠ key) : (l.bump key free now).lookup key' = l.lookup key' := by
  unfold bump
  split
  · split
    · rfl
    · exact AList.lookup_insert_ne h
  · exact AList.lookup_insert_ne h

theorem lookup_recordFailure_ne (hroom : l.entries.length + 2 ≤ maxTracked) (h : key ≠ .ip source.ip)
    (h' : key ≠ .pair source.ip source.username) :
    (l.recordFailure now source).lookup key = l.lookup key := by
  unfold recordFailure
  rw [if_neg (not_lt.mpr hroom), lookup_bump_ne h', lookup_bump_ne h]

end Counts

end LoginLimiter

end Auth

end KdxHotline
