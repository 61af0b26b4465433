import Mathlib.Data.Multiset.Count
import KdxHotline.Auth.Limiter
import KdxHotline.Foundations.Tasks

/-!
# The caps on open connections

A connection takes one of the server's slots, and then a place among the connections of its peer's
address, or of its /64 network. It has both as long as it lives. It gives back the place first and
the slot after it, and other connections may come and go in between.

The counters are those of the connections that are there (`KdxHotline.Listener.Tallied`), whatever
the order of all these steps. So neither cap is ever passed (`KdxHotline.Listener.connections_le`),
nobody is turned away below them (`KdxHotline.Listener.admitted_iff`), and in the end nothing is
left in the books (`KdxHotline.Listener.connections_settle`). An address is counted together with
those that the login limiter takes for one (`KdxHotline.Listener.limitKey_toCanonical`).
-/

namespace KdxHotline

namespace Listener

open Foundations

/-- Why a connection was turned away at accept time. -/
inductive Refusal
  | serverFull
  | perAddressLimit
  deriving DecidableEq

/-- Global and per-address caps on open connections. -/
structure ConnLimits where
  /-- The slots that are free. -/
  slots : ℕ
  maxTotal : ℕ
  perAddr : IpAddr → Option ℕ
  maxPerAddr : ℕ

/-- The per-address key: the address itself for IPv4, its /64 for IPv6. -/
def limitKey : IpAddr → IpAddr
  | .v4 bits => .v4 bits
  | .v6 bits => .v6 (truncBits bits 64)

namespace ConnLimits

/-- The limits with no connection open. -/
def new (maxTotal maxPerAddr : ℕ) : ConnLimits :=
  let maxTotal := min maxTotal (2 ^ 32 - 1)
  ⟨maxTotal, maxTotal, fun _ => none, maxPerAddr⟩

/-- How many slots are taken. -/
def opened (l : ConnLimits) : ℕ := l.maxTotal - l.slots

/-- Every slot can be taken at once, so that nothing is left to wait for. -/
def drained (l : ConnLimits) : Bool := decide (l.maxTotal ≤ l.slots)

/-- How many connections are counted for a key. -/
def tally (l : ConnLimits) (key : IpAddr) : ℕ := (l.perAddr key).getD 0

end ConnLimits

/-- What a connection has claimed. -/
inductive Conn
  | idle
  /-- A slot only. -/
  | slot
  /-- A slot and a place among those of its key. -/
  | guard (key : IpAddr)
  deriving DecidableEq

/-- The steps of admitting a connection and of closing it. -/
inductive ConnStep
  | acquire
  | count
  | uncount
  | release
  deriving DecidableEq

/-- A call on the limits. -/
abbrev ConnCall (α : Type) : Type 1 := Prog ConnLimits Conn ConnStep Refusal α

/-- Take a slot. -/
def acquire : Fallible (ConnLimits × Conn) Refusal Unit := fun s =>
  if s.1.slots = 0 then .error .serverFull s
  else .ok () ({ s.1 with slots := s.1.slots - 1 }, .slot)

/-- Take a place among those of the key. The key gets an entry even if that fails. -/
def count (key : IpAddr) : Fallible (ConnLimits × Conn) Refusal Unit := fun s =>
  if s.1.maxPerAddr ≤ s.1.tally key then
    .error .perAddressLimit
      ({ s.1 with perAddr := Function.update s.1.perAddr key (some (s.1.tally key)) }, s.2)
  else
    .ok ()
      ({ s.1 with perAddr := Function.update s.1.perAddr key (some (s.1.tally key + 1)) },
        .guard key)

/-- The entry of a key with one connection less. -/
def fewer (count : ℕ) : Option ℕ := if count - 1 = 0 then none else some (count - 1)

/-- Give the place back. -/
def uncount (key : IpAddr) (s : ConnLimits × Conn) : Unit × ConnLimits × Conn :=
  match s.1.perAddr key with
  | some count =>
    ((), { s.1 with perAddr := Function.update s.1.perAddr key (fewer count) }, .slot)
  | none => ((), s.1, .slot)

/-- Give the slot back. -/
def release (s : ConnLimits × Conn) : Unit × ConnLimits × Conn :=
  ((), { s.1 with slots := s.1.slots + 1 }, .idle)

/-- Admit a connection, or give back what was taken for it. -/
def tryAdmit (ip : IpAddr) : ConnCall Unit := do
  .call .acquire acquire
  match ← (Prog.call .count (count (limitKey ip))).attempt with
  | .ok () => return
  | .error refusal => do
    .step .release release .done
    .fail refusal

/-- The connection is closed. -/
def dropGuard (key : IpAddr) : ConnCall Unit := do
  .step .uncount (uncount key) .done
  .step .release release .done

/-- A peer connects, is served if it may, and leaves. -/
def serve (peer : IpAddr) : ConnCall Unit := do
  let ip := peer.toCanonical
  tryAdmit ip
  dropGuard (limitKey ip)

/-- The caps, and the connections there are. -/
abbrev ConnServer : Type 1 := Tasks ConnLimits Conn ConnStep Refusal

/-- The server takes a turn: a peer connects, or a connection takes its next step. -/
def ConnServer.Takes (c : ConnServer) (turn : Turn IpAddr) (c' : ConnServer) : Prop :=
  c.take serve .idle turn = some c'

/-! ### Keys -/

/-- **Connections are counted by the addresses the login limiter counts by.** -/
theorem limitKey_toCanonical (ip : IpAddr) : limitKey ip.toCanonical = Auth.normalize ip := by
  cases ip with
  | v4 bits => rfl
  | v6 bits =>
    simp only [Auth.normalize, IpAddr.toCanonical]
    cases toIpv4Mapped bits <;> rfl

/-! ### What a step does -/

section Steps

variable {l l' : ConnLimits} {own : Conn} {key : IpAddr} {s t : ConnLimits × Conn}

theorem returns_acquire : Returns acquire s () t ↔
    s.1.slots ≠ 0 ∧ t = ({ s.1 with slots := s.1.slots - 1 }, .slot) := by
  simp only [Returns, acquire, EStateM.run]
  split
  case isTrue hslots => simp [hslots]
  case isFalse hslots => simp [hslots, eq_comm]

theorem fails_acquire {e : Refusal} :
    Fails acquire s e t ↔ s.1.slots = 0 ∧ e = .serverFull ∧ t = s := by
  simp only [Fails, acquire, EStateM.run]
  split
  case isTrue hslots => simp [hslots, eq_comm]
  case isFalse hslots => simp [hslots]

theorem returns_count : Returns (count key) s () t ↔ s.1.tally key < s.1.maxPerAddr ∧ t =
    ({ s.1 with perAddr := Function.update s.1.perAddr key (some (s.1.tally key + 1)) },
      .guard key) := by
  simp only [Returns, count, EStateM.run]
  split
  case isTrue hcap => simp [Nat.not_lt.mpr hcap]
  case isFalse hcap => simp [Nat.lt_of_not_le hcap, eq_comm]

theorem fails_count {e : Refusal} : Fails (count key) s e t ↔
    s.1.maxPerAddr ≤ s.1.tally key ∧ e = .perAddressLimit ∧ t =
      ({ s.1 with perAddr := Function.update s.1.perAddr key (some (s.1.tally key)) }, s.2) := by
  simp only [Fails, count, EStateM.run]
  split
  case isTrue hcap => simp [hcap, eq_comm]
  case isFalse hcap => simp [hcap]

/-- A peer that is handled while no other step is taken. -/
theorem returns_tryAdmit {ip : IpAddr} : Returns (tryAdmit ip).alone s () t ↔
    s.1.slots ≠ 0 ∧ s.1.tally (limitKey ip) < s.1.maxPerAddr ∧
      t = ({ s.1 with
        slots := s.1.slots - 1
        perAddr := Function.update s.1.perAddr (limitKey ip) (some (s.1.tally (limitKey ip) + 1)) },
          .guard (limitKey ip)) := by
  rw [tryAdmit, Prog.alone_bind, Prog.alone_call]
  constructor
  · intro hret
    obtain ⟨⟨⟩, s₁, hacquire, hrest⟩ := returns_bind.mp hret
    obtain ⟨hslots, rfl⟩ := returns_acquire.mp hacquire
    rw [Prog.alone_bind, Prog.alone_attempt, Prog.alone_call] at hrest
    obtain ⟨r, s₂, hattempt, hrest⟩ := returns_bind.mp hrest
    rcases returns_attempt.mp hattempt with ⟨⟨⟩, rfl, hcount⟩ | ⟨refusal, rfl, -⟩
    · obtain ⟨hcap, rfl⟩ := returns_count.mp hcount
      exact ⟨hslots, hcap, (returns_pure.mp hrest).2.symm⟩
    · dsimp only at hrest
      rw [Prog.alone_bind] at hrest
      obtain ⟨_, _, _, hfail⟩ := returns_bind.mp hrest
      rw [Prog.alone_fail] at hfail
      cases (returns_check.mp hfail).1
  · rintro ⟨hslots, hcap, rfl⟩
    refine returns_bind.mpr ⟨(), _, returns_acquire.mpr ⟨hslots, rfl⟩, ?_⟩
    rw [Prog.alone_bind, Prog.alone_attempt, Prog.alone_call]
    refine returns_bind.mpr ⟨.ok (), _, returns_attempt.mpr (.inl ⟨(), rfl,
      returns_count.mpr ⟨hcap, rfl⟩⟩), returns_pure.mpr ⟨rfl, rfl⟩⟩

theorem tally_update (key key' : IpAddr) (n : Option ℕ) :
    ({ l with perAddr := Function.update l.perAddr key n } : ConnLimits).tally key' =
      if key' = key then n.getD 0 else l.tally key' := by
  unfold ConnLimits.tally
  dsimp only
  rw [Function.update_apply]
  split <;> rfl

theorem fewer_getD (n : ℕ) : (fewer n).getD 0 = n - 1 := by
  unfold fewer
  split
  case isTrue hzero => rw [hzero, Option.getD_none]
  case isFalse => rfl

theorem fewer_ne_zero (n : ℕ) : fewer n ≠ some 0 := by
  unfold fewer
  split
  case isTrue => exact Option.some_ne_none 0 |>.symm
  case isFalse hne => exact fun hzero => hne (Option.some.inj hzero)

/-- What a step may do. -/
inductive ConnMove : ConnStep → ConnLimits × Conn → ConnLimits × Conn → Prop
  | acquired {l : ConnLimits} (hslots : l.slots ≠ 0) :
      ConnMove .acquire (l, .idle) ({ l with slots := l.slots - 1 }, .slot)
  | full {l : ConnLimits} (hslots : l.slots = 0) : ConnMove .acquire (l, .idle) (l, .idle)
  | counted {l : ConnLimits} {key : IpAddr} (hcap : l.tally key < l.maxPerAddr) :
      ConnMove .count (l, .slot)
        ({ l with perAddr := Function.update l.perAddr key (some (l.tally key + 1)) }, .guard key)
  | capped {l : ConnLimits} {key : IpAddr} (hcap : l.maxPerAddr ≤ l.tally key) :
      ConnMove .count (l, .slot)
        ({ l with perAddr := Function.update l.perAddr key (some (l.tally key)) }, .slot)
  | uncounted {l : ConnLimits} {key : IpAddr} {n : ℕ} (hentry : l.perAddr key = some n) :
      ConnMove .uncount (l, .guard key)
        ({ l with perAddr := Function.update l.perAddr key (fewer n) }, .slot)
  | unlisted {l : ConnLimits} {key : IpAddr} (hentry : l.perAddr key = none) :
      ConnMove .uncount (l, .guard key) (l, .slot)
  | released {l : ConnLimits} :
      ConnMove .release (l, .slot) ({ l with slots := l.slots + 1 }, .idle)

/-- A connection is counted, or leaves the limits as they were. -/
theorem moves_tryAdmit (ip : IpAddr) :
    (tryAdmit ip).Moves ConnMove (fun _ own => own = .guard (limitKey ip))
      (fun _ own => own = .idle) .idle := by
  unfold tryAdmit
  refine Prog.Moves.bind (Q := fun _ own => own = .slot) (Prog.moves_call ?_ ?_) ?_
  · intro l _ t hret
    obtain ⟨hslots, rfl⟩ := returns_acquire.mp hret
    exact ⟨.acquired hslots, rfl⟩
  · intro l e t hfail
    obtain ⟨hslots, -, rfl⟩ := fails_acquire.mp hfail
    exact ⟨.full hslots, rfl⟩
  rintro ⟨⟩ own rfl
  have hcount : (Prog.call .count (count (limitKey ip)) : ConnCall Unit).Moves ConnMove
      (fun _ own => own = .guard (limitKey ip)) (fun _ own => own = .slot) .slot := by
    refine Prog.moves_call ?_ ?_
    · intro l _ t hret
      obtain ⟨hcap, rfl⟩ := returns_count.mp hret
      exact ⟨.counted hcap, rfl⟩
    · intro l e t hfail
      obtain ⟨hcap, -, rfl⟩ := fails_count.mp hfail
      exact ⟨.capped hcap, rfl⟩
  refine Prog.Moves.bind hcount.attempt ?_
  rintro (refusal | ⟨⟩) own hown
  · -- the slot is given back before the refusal is told
    obtain rfl : own = .slot := hown
    exact Prog.Moves.bind (Q := fun _ own => own = .idle)
      (Prog.moves_step fun _ => ⟨.released, rfl⟩) fun _ _ hidle => Prog.moves_fail hidle
  · exact Prog.moves_pure hown

theorem uncount_moves (key : IpAddr) (l : ConnLimits) :
    ConnMove .uncount (l, .guard key) (uncount key (l, .guard key)).2 ∧
      (uncount key (l, .guard key)).2.2 = .slot := by
  unfold uncount
  split
  case h_1 n hentry => exact ⟨.uncounted hentry, rfl⟩
  case h_2 hentry => exact ⟨.unlisted hentry, rfl⟩

theorem moves_serve (peer : IpAddr) :
    (serve peer).Moves ConnMove (fun _ own => own = .idle) (fun _ own => own = .idle) .idle := by
  refine Prog.Moves.bind (moves_tryAdmit peer.toCanonical) ?_
  rintro ⟨⟩ own rfl
  refine Prog.Moves.bind (Q := fun _ own => own = .slot)
    (Prog.moves_step fun l => uncount_moves _ l) ?_
  rintro ⟨⟩ own rfl
  exact Prog.moves_step fun _ => ⟨.released, rfl⟩

end Steps

/-! ### The counters are those of the connections -/

/-- **The slots and the places that are taken are those of the connections**, and no cap is
passed. An entry is left of a key without connections only if there is no place to take at all. -/
structure Tallied (total most : ℕ) (l : ConnLimits) (owns : Multiset Conn) : Prop where
  maxTotal : l.maxTotal = total
  maxPerAddr : l.maxPerAddr = most
  slots : l.slots + owns.countP (· ≠ .idle) = total
  tally : ∀ key, l.tally key = owns.count (.guard key)
  cap : ∀ key, l.tally key ≤ most
  entries : 0 < most → ∀ key, l.perAddr key ≠ some 0

section Tallies

variable {total most : ℕ} {l l' : ConnLimits} {own own' : Conn} {owns : Multiset Conn}
  {key : IpAddr} {label : ConnStep}

/-- A connection that holds nothing is not counted. -/
theorem Tallied.idle (h : Tallied total most l owns) :
    Tallied total most l (.idle ::ₘ owns) := by
  refine ⟨h.maxTotal, h.maxPerAddr, ?_, fun key => ?_, h.cap, h.entries⟩
  · rw [Multiset.countP_cons_of_neg owns (by simp)]
    exact h.slots
  · rw [Multiset.count_cons_of_ne (by simp)]
    exact h.tally key

/-- The count of a key is set to what it is with one connection replaced. -/
theorem Tallied.recount (h : Tallied total most l (own ::ₘ owns)) {n : Option ℕ}
    (hown : own ≠ .idle) (hown' : own' ≠ .idle)
    (hkey : n.getD 0 = (own' ::ₘ owns).count (.guard key))
    (hothers : ∀ key', key' ≠ key →
      (own' ::ₘ owns).count (.guard key') = (own ::ₘ owns).count (.guard key'))
    (hcap : n.getD 0 ≤ most) (hentry : 0 < most → n ≠ some 0) :
    Tallied total most { l with perAddr := Function.update l.perAddr key n }
      (own' ::ₘ owns) := by
  refine ⟨h.maxTotal, h.maxPerAddr, ?_, fun key' => ?_, fun key' => ?_, fun hpos key' => ?_⟩
  · have hslots := h.slots
    rw [Multiset.countP_cons_of_pos (p := fun own => own ≠ Conn.idle) owns hown] at hslots
    rw [Multiset.countP_cons_of_pos (p := fun own => own ≠ Conn.idle) owns hown']
    exact hslots
  · rw [tally_update]
    split
    case isTrue hsame => rw [hsame, hkey]
    case isFalse hne => rw [hothers key' hne, h.tally key']
  · rw [tally_update]
    split
    · exact hcap
    · exact h.cap key'
  · dsimp only
    rw [Function.update_apply]
    split
    · exact hentry hpos
    · exact h.entries hpos key'

/-- **Every step keeps the counters right.** -/
theorem Tallied.move (h : Tallied total most l (own ::ₘ owns))
    (hmove : ConnMove label (l, own) (l', own')) : Tallied total most l' (own' ::ₘ owns) := by
  cases hmove with
  | acquired hslots =>
    have hsum := h.slots
    rw [Multiset.countP_cons_of_neg owns (by simp)] at hsum
    refine ⟨h.maxTotal, h.maxPerAddr, ?_, fun key => ?_, h.cap, h.entries⟩
    · rw [Multiset.countP_cons_of_pos owns (by simp)]
      dsimp only
      omega
    · rw [Multiset.count_cons_of_ne (by simp), ← Multiset.count_cons_of_ne (b := .idle) (by simp)]
      exact h.tally key
  | full hslots => exact h
  | @counted _ key hcap =>
    have htally := h.tally key
    rw [Multiset.count_cons_of_ne (by simp)] at htally
    refine h.recount (by simp) (by simp) ?_ (fun key' hne => ?_) ?_ fun _ => by simp
    · rw [Multiset.count_cons_self, Option.getD_some, htally]
    · rw [Multiset.count_cons_of_ne (by simpa using hne), Multiset.count_cons_of_ne (by simp)]
    · rw [h.maxPerAddr] at hcap
      exact hcap
  | @capped _ key hcap =>
    refine h.recount (by simp) (by simp) (h.tally key) (fun _ _ => rfl) (h.cap key) fun hpos => ?_
    -- the entry is that of a connection at least
    rw [h.maxPerAddr] at hcap
    exact fun hzero => absurd (Option.some.inj hzero) (by omega)
  | @uncounted _ key n hentry =>
    have htally := h.tally key
    rw [Multiset.count_cons_self, ConnLimits.tally, hentry, Option.getD_some] at htally
    have hcap := h.cap key
    rw [ConnLimits.tally, hentry, Option.getD_some] at hcap
    refine h.recount (by simp) (by simp) ?_ (fun key' hne => ?_) ?_ fun _ => ?_
    · rw [fewer_getD, Multiset.count_cons_of_ne (by simp)]
      omega
    · rw [Multiset.count_cons_of_ne (by simp), Multiset.count_cons_of_ne (by simpa using hne)]
    · rw [fewer_getD]
      omega
    · exact fewer_ne_zero n
  | @unlisted _ key hentry =>
    -- a connection that has a place is counted
    have htally := h.tally key
    rw [Multiset.count_cons_self, ConnLimits.tally, hentry] at htally
    exact absurd htally (Nat.succ_ne_zero _).symm
  | released =>
    have hsum := h.slots
    rw [Multiset.countP_cons_of_pos owns (by simp)] at hsum
    refine ⟨h.maxTotal, h.maxPerAddr, ?_, fun key => ?_, h.cap, h.entries⟩
    · rw [Multiset.countP_cons_of_neg owns (by simp)]
      dsimp only
      omega
    · rw [Multiset.count_cons_of_ne (by simp), ← Multiset.count_cons_of_ne (b := .slot) (by simp)]
      exact h.tally key

end Tallies

/-! ### Runs -/

section Runs

variable {maxTotal maxPerAddr : ℕ} {c : ConnServer} {turns : List (Turn IpAddr)}

theorem tallied_start :
    Tallied (min maxTotal (2 ^ 32 - 1)) maxPerAddr (.new maxTotal maxPerAddr) 0 :=
  ⟨rfl, rfl, rfl, fun _ => rfl, fun _ => Nat.zero_le _, fun _ _ => nofun⟩

/-- What every run keeps. -/
theorem tallied_run (h : Run ConnServer.Takes ⟨.new maxTotal maxPerAddr, []⟩ turns c) :
    c.Moving ConnMove (fun own => own = .idle) ∧
      Tallied (min maxTotal (2 ^ 32 - 1)) maxPerAddr c.shared c.owns := by
  exact Tasks.invariant_of_moves (Tallied _ maxPerAddr) moves_serve Tallied.idle
    (fun _ _ _ => Tallied.move) Tasks.moving_start
    (h.mono fun hstep => (⟨hstep, trivial⟩ : Guarded _ (fun _ _ => True) _ _ _)) tallied_start

theorem Tallied.opened (h : Tallied maxTotal maxPerAddr c.shared c.owns) :
    c.shared.opened = c.owns.countP (· ≠ .idle) := by
  have hslots := h.slots
  rw [ConnLimits.opened, h.maxTotal]
  omega

/-- **Neither cap is ever passed.** In whatever order connections come, are refused, and go, there
are no more at once than the server allows, and no more from the addresses that the login limiter
takes for one than an address is allowed. -/
theorem connections_le (h : Run ConnServer.Takes ⟨.new maxTotal maxPerAddr, []⟩ turns c) :
    c.shared.opened = c.owns.countP (· ≠ .idle) ∧ c.owns.countP (· ≠ .idle) ≤ maxTotal ∧
      ∀ ip, c.owns.count (.guard (Auth.normalize ip)) ≤ maxPerAddr := by
  obtain ⟨-, htallied⟩ := tallied_run h
  refine ⟨htallied.opened, ?_, fun ip => ?_⟩
  · have hslots := htallied.slots
    omega
  · rw [← htallied.tally]
    exact htallied.cap _

/-- The slots can all be taken at once when no connection is left, and only then. -/
theorem drained_iff (h : Run ConnServer.Takes ⟨.new maxTotal maxPerAddr, []⟩ turns c) :
    c.shared.drained = true ↔ ∀ own ∈ c.owns, own = .idle := by
  obtain ⟨-, htallied⟩ := tallied_run h
  have hslots := htallied.slots
  have hnone : c.owns.countP (· ≠ .idle) = 0 ↔ ∀ own ∈ c.owns, own = .idle :=
    Multiset.countP_eq_zero.trans (forall₂_congr fun _ _ => not_not)
  rw [ConnLimits.drained, htallied.maxTotal, decide_eq_true_iff, ← hnone]
  omega

/-- **Nobody is turned away below the caps, and nobody let in above them.** A peer that connects
while no other connection takes a step is admitted just when there is a slot for it and a place
among those of its address. -/
theorem admitted_iff (h : Run ConnServer.Takes ⟨.new maxTotal maxPerAddr, []⟩ turns c)
    (peer : IpAddr) :
    (∃ l, Returns (tryAdmit peer.toCanonical).alone (c.shared, .idle) ()
        (l, .guard (Auth.normalize peer))) ↔
      c.owns.countP (· ≠ .idle) < min maxTotal (2 ^ 32 - 1) ∧
        c.owns.count (.guard (Auth.normalize peer)) < maxPerAddr := by
  obtain ⟨-, htallied⟩ := tallied_run h
  have hslots := htallied.slots
  rw [← htallied.tally, ← limitKey_toCanonical, ← htallied.maxPerAddr]
  constructor
  · rintro ⟨l, hret⟩
    obtain ⟨hfree, hplace, -⟩ := returns_tryAdmit.mp hret
    dsimp only at hfree hplace
    exact ⟨by omega, hplace⟩
  · rintro ⟨hopen, hplace⟩
    refine ⟨_, returns_tryAdmit.mpr ⟨?_, hplace, rfl⟩⟩
    dsimp only
    omega

/-- **Nothing is left in the end.** When every connection is over, however it was refused or
closed, the books are as at the start. -/
theorem connections_settle (hpos : 0 < maxPerAddr)
    (h : Run ConnServer.Takes ⟨.new maxTotal maxPerAddr, []⟩ turns c)
    (hover : ∀ t ∈ c.tasks, t.2.Over) : c.shared = .new maxTotal maxPerAddr := by
  obtain ⟨hmoving, htallied⟩ := tallied_run h
  have hidle := hmoving.over hover
  have hslots := htallied.slots
  rw [Multiset.countP_eq_zero.mpr fun own hown => not_not.mpr (hidle own hown), Nat.add_zero]
    at hslots
  have hempty : c.shared.perAddr = fun _ => none := by
    funext key
    have htally := htallied.tally key
    have habsent : Conn.guard key ∉ c.owns := fun hmem => by
      have hguard := hidle _ hmem
      simp only [reduceCtorEq] at hguard
    rw [Multiset.count_eq_zero_of_notMem habsent] at htally
    cases hentry : c.shared.perAddr key with
    | none => rfl
    | some n =>
      rw [ConnLimits.tally, hentry] at htally
      obtain rfl : n = 0 := htally
      exact absurd hentry (htallied.entries hpos key)
  cases hshared : c.shared
  rw [hshared] at hslots hempty htallied
  have htotal := htallied.maxTotal
  have hper := htallied.maxPerAddr
  dsimp only at hslots hempty htotal hper
  rw [hslots, hempty, htotal, hper]
  rfl

end Runs

/-! Two peers of one network, one of which may be connected at a time. -/

namespace Neighbours

/-- One address. -/
def first : IpAddr := .v6 1
/-- Another address of the same network. -/
def second : IpAddr := .v6 2

/-- A run under a limit of one connection an address. -/
def run (turns : List (Turn IpAddr)) : Option ConnServer :=
  perform (Tasks.take serve .idle) ⟨.new 4 1, []⟩ turns

/-- Both connect, the second is refused. -/
def turns : List (Turn IpAddr) :=
  [.start first, .step 0, .step 0, .start second, .step 1, .step 1, .step 1]

theorem refused : (run turns).map (fun c => (c.owns.countP (· ≠ .idle),
    c.owns.count (.guard (Auth.normalize second)))) = some (1, 1) := by
  decide +kernel

theorem parted : (run (turns ++ [.step 0, .step 0])).map (fun c =>
    decide (∀ t ∈ c.tasks, t.2.Over)) = some true := by
  decide +kernel

end Neighbours

open Neighbours in
theorem connections_le_neighbours : ∃ c : ConnServer, c.shared.opened = 1 ∧
    c.owns.count (.guard (Auth.normalize first)) ≤ 1 := by
  obtain ⟨c, hrun, hseen⟩ := Option.map_eq_some_iff.mp refused
  obtain ⟨hopened, -, hplaces⟩ := connections_le (run_of_perform hrun)
  exact ⟨c, hopened.trans (Prod.mk.inj hseen).1, hplaces first⟩

open Neighbours in
theorem admitted_iff_neighbours : ∃ c : ConnServer, ¬∃ l,
    Returns (tryAdmit second.toCanonical).alone (c.shared, .idle) ()
      (l, .guard (Auth.normalize second)) := by
  obtain ⟨c, hrun, hseen⟩ := Option.map_eq_some_iff.mp refused
  refine ⟨c, fun hadmitted => ?_⟩
  have hplace := ((admitted_iff (run_of_perform hrun) second).mp hadmitted).2
  rw [(Prod.mk.inj hseen).2] at hplace
  exact absurd hplace (Nat.lt_irrefl 1)

open Neighbours in
theorem connections_settle_neighbours : ∃ c : ConnServer,
    run (turns ++ [.step 0, .step 0]) = some c ∧ c.shared = .new 4 1 := by
  obtain ⟨c, hrun, hover⟩ := Option.map_eq_some_iff.mp parted
  exact ⟨c, hrun, connections_settle (by decide) (run_of_perform hrun) (of_decide_eq_true hover)⟩

end Listener

end KdxHotline
