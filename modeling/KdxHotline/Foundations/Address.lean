import Mathlib.Data.Nat.Notation

/-!
# Addresses and networks

IPv4 and IPv6 addresses and the networks of them given by a prefix. An IPv4 address
also has an IPv6 form, in the block `::ffff:0:0/96`; the canonical form of an address
or a network of that block is the IPv4 one (`Foundations.IpAddr.toCanonical`,
`Foundations.IpNet.canonical`).

`Foundations.IpNet.Covers` says which addresses a network stands for without choosing
a form, by comparing the leading bits. The canonical forms agree with it
(`Foundations.IpNet.contains_canonical`), so it does not matter when they are taken.
-/

namespace Foundations

/-- An address, its bits in network order. -/
inductive IpAddr
  | v4 (bits : BitVec 32)
  | v6 (bits : BitVec 128)
  deriving DecidableEq

/-- The IPv4 address whose mapped form this is. -/
def toIpv4Mapped (bits : BitVec 128) : Option (BitVec 32) :=
  if bits >>> 32 = 65535#128 then some (bits.setWidth 32) else none

/-- An IPv4-mapped address as the IPv4 address. -/
def IpAddr.toCanonical : IpAddr → IpAddr
  | v4 bits => v4 bits
  | v6 bits => ((toIpv4Mapped bits).map v4).getD (v6 bits)

/-- The address without the bits after its first `n`. -/
def truncBits {w : ℕ} (addr : BitVec w) (n : ℕ) : BitVec w := (addr >>> (w - n)) <<< (w - n)

/-- The addresses agree in their first `n` bits. -/
def SameTop {w : ℕ} (n : ℕ) (a b : BitVec w) : Prop := ∀ i, w ≤ i + n → a.getLsbD i = b.getLsbD i

/-- A network: an address in it and how many leading bits its addresses share. -/
inductive IpNet
  | v4 (addr : BitVec 32) (prefixLen : Fin 33)
  | v6 (addr : BitVec 128) (prefixLen : Fin 129)
  deriving DecidableEq

namespace IpNet

/-- Drop the host bits. -/
def trunc : IpNet → IpNet
  | v4 addr n => v4 (truncBits addr n) n
  | v6 addr n => v6 (truncBits addr n) n

/-- Whether an address is of a network. -/
def contains : IpNet → IpAddr → Bool
  | v4 addr n, .v4 bits => truncBits addr n == truncBits bits n
  | v6 addr n, .v6 bits => truncBits addr n == truncBits bits n
  | _, _ => false

/-- A network of IPv4-mapped addresses as the network of IPv4 addresses; anything else
unchanged. Also drops host bits. -/
def canonical : IpNet → IpNet
  | v4 addr n => (v4 addr n).trunc
  | v6 addr n =>
    if 96 ≤ n.val then
      match toIpv4Mapped (truncBits addr n) with
      | some bits => (v4 bits ⟨n - 96, by omega⟩).trunc
      | none => (v6 addr n).trunc
    else (v6 addr n).trunc

/-- The address has the network's leading bits, both read as IPv4 where they are
IPv4-mapped. -/
def Covers (net : IpNet) (ip : IpAddr) : Prop :=
  match net, ip.toCanonical with
  | v4 addr n, .v4 bits => SameTop n addr bits
  | v6 addr n, .v6 bits => SameTop n addr bits
  | v6 addr n, .v4 bits => 96 ≤ n.val ∧ addr >>> 32 = 65535#128 ∧ SameTop (n - 96) (addr.setWidth 32) bits
  | v4 _ _, .v6 _ => False

end IpNet

section Bits

variable {w n : ℕ} {a b : BitVec w}

theorem getLsbD_truncBits {i : ℕ} : (truncBits a n).getLsbD i = (decide (w ≤ i + n) && a.getLsbD i) := by
  rw [truncBits, BitVec.getLsbD_shiftLeft, BitVec.getLsbD_ushiftRight]
  by_cases hi : w ≤ i + n
  · have hsub : w - n + (i - (w - n)) = i := by omega
    by_cases hw : i < w
    · simp [hi, hw, hsub]
    · simp [hw, BitVec.getLsbD_of_ge a i (by omega)]
  · simp [hi]

/-- **Truncated addresses are equal exactly if the leading bits are.** -/
theorem truncBits_inj : truncBits a n = truncBits b n ↔ SameTop n a b := by
  constructor
  · intro h i hi
    have hbit := congrArg (fun v : BitVec w => v.getLsbD i) h
    simpa [getLsbD_truncBits, hi] using hbit
  · intro h
    refine BitVec.eq_of_getLsbD_eq fun i _ => ?_
    rw [getLsbD_truncBits, getLsbD_truncBits]
    by_cases hi : w ≤ i + n
    · rw [h i hi]
    · simp [hi]

theorem sameTop_truncBits : SameTop n (truncBits a n) b ↔ SameTop n a b := by
  refine forall₂_congr fun i hi => ?_
  rw [getLsbD_truncBits, decide_eq_true hi, Bool.true_and]

/-- Dropping host bits does not touch the first 96. -/
theorem truncBits_shift {addr : BitVec 128} (h : 96 ≤ n) :
    truncBits addr n >>> 32 = addr >>> 32 := by
  refine BitVec.eq_of_getLsbD_eq fun i _ => ?_
  rw [BitVec.getLsbD_ushiftRight, BitVec.getLsbD_ushiftRight, getLsbD_truncBits,
    decide_eq_true (by omega), Bool.true_and]

/-- The embedded address of a truncated one is the truncated embedded one. -/
theorem setWidth_truncBits {addr : BitVec 128} (h : 96 ≤ n) :
    (truncBits addr n).setWidth 32 = truncBits (addr.setWidth 32) (n - 96) := by
  refine BitVec.eq_of_getLsbD_eq fun i hi => ?_
  rw [BitVec.getLsbD_setWidth, getLsbD_truncBits, getLsbD_truncBits, BitVec.getLsbD_setWidth]
  have hsame : decide (128 ≤ i + n) = decide (32 ≤ i + (n - 96)) := decide_eq_decide.mpr (by omega)
  rw [hsame, decide_eq_true hi, Bool.true_and, Bool.true_and]

end Bits

namespace IpAddr

/-- A canonical IPv6 address is not a mapped one. -/
theorem toCanonical_v6 {ip : IpAddr} {bits : BitVec 128} (h : ip.toCanonical = .v6 bits) :
    bits >>> 32 ≠ 65535#128 := by
  cases ip with
  | v4 b => cases h
  | v6 b =>
    rw [toCanonical, toIpv4Mapped] at h
    by_cases hb : b >>> 32 = 65535#128
    · rw [if_pos hb] at h
      cases h
    · rw [if_neg hb] at h
      obtain rfl := IpAddr.v6.inj h
      exact hb

@[simp] theorem toCanonical_toCanonical (ip : IpAddr) : ip.toCanonical.toCanonical = ip.toCanonical := by
  cases hip : ip.toCanonical with
  | v4 b => rfl
  | v6 b => rw [toCanonical, toIpv4Mapped, if_neg (toCanonical_v6 hip)]; rfl

end IpAddr

namespace IpNet

variable {net : IpNet} {ip : IpAddr}

theorem contains_trunc : net.trunc.contains ip = net.contains ip := by
  have hidem : ∀ {w : ℕ} (a : BitVec w) (n : ℕ), truncBits (truncBits a n) n = truncBits a n :=
    fun a n => truncBits_inj.mpr (sameTop_truncBits.mpr fun _ _ => rfl)
  cases net <;> cases ip <;> simp [trunc, contains, hidem]

/-- **A network in canonical form contains the canonical forms of what it covers.** -/
theorem contains_canonical : net.canonical.contains ip.toCanonical = true ↔ net.Covers ip := by
  unfold Covers
  cases net with
  | v4 addr n =>
    rw [canonical, contains_trunc]
    cases ip.toCanonical with
    | v4 bits => simp [contains, truncBits_inj]
    | v6 bits => simp [contains]
  | v6 addr n =>
    by_cases hn : 96 ≤ n.val
    · rw [canonical, if_pos hn, toIpv4Mapped, truncBits_shift hn]
      by_cases hmapped : addr >>> 32 = 65535#128
      · rw [if_pos hmapped]
        simp only [contains_trunc]
        cases hip : ip.toCanonical with
        | v4 bits =>
          simp [contains, truncBits_inj, setWidth_truncBits hn, sameTop_truncBits, hn, hmapped]
        | v6 bits =>
          -- its first 96 bits would be those of a mapped address
          refine iff_of_false (by simp [contains]) fun htop => IpAddr.toCanonical_v6 hip ?_
          rw [← hmapped]
          refine BitVec.eq_of_getLsbD_eq fun i _ => ?_
          rw [BitVec.getLsbD_ushiftRight, BitVec.getLsbD_ushiftRight, htop _ (by omega)]
      · rw [if_neg hmapped]
        simp only [contains_trunc]
        cases ip.toCanonical with
        | v4 bits => simp [contains, hmapped]
        | v6 bits => simp [contains, truncBits_inj]
    · rw [canonical, if_neg hn, contains_trunc]
      cases ip.toCanonical with
      | v4 bits => simp [contains, hn]
      | v6 bits => simp [contains, truncBits_inj]

/-- What is canonical stays as it is. -/
theorem canonical_canonical (net : IpNet) : net.canonical.canonical = net.canonical := by
  have hidem : ∀ {w : ℕ} (a : BitVec w) (n : ℕ), truncBits (truncBits a n) n = truncBits a n :=
    fun a n => truncBits_inj.mpr (sameTop_truncBits.mpr fun _ _ => rfl)
  cases net with
  | v4 addr n => simp [canonical, trunc, hidem]
  | v6 addr n =>
    by_cases hn : 96 ≤ n.val
    · by_cases hmapped : addr >>> 32 = 65535#128
      · simp [canonical, hn, toIpv4Mapped, truncBits_shift, hmapped, trunc, hidem]
      · simp [canonical, hn, toIpv4Mapped, truncBits_shift, hmapped, trunc, hidem]
    · simp [canonical, hn, trunc, hidem]

/-- **Putting a network in canonical form changes nothing of what it covers.** -/
theorem covers_canonical : net.canonical.Covers ip ↔ net.Covers ip := by
  rw [← contains_canonical, ← contains_canonical, canonical_canonical]

end IpNet

end Foundations
