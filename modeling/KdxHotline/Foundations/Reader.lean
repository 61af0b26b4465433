import Mathlib.Data.Vector.Defs
import KdxHotline.Foundations.Bytes
import KdxHotline.Foundations.Fallible

/-!
# Reading values off a run of bytes

A reader takes values off the front of a run of bytes. It may refuse the bytes, or
run past their end, which is a fault of the reader and not of the bytes.

A message writes a value, reads it back, and says what it makes of a value that does
not fit (`Foundations.Message`): what is read is exactly what was written, it takes up
all the bytes, and the reader never runs past their end.
-/

namespace Foundations

/-- Why a reader stopped. -/
inductive ReadError (ε : Type)
  | refused (e : ε)
  /-- It read past the end. -/
  | overrun
  deriving DecidableEq

/-- A reader of some bytes, which it takes from the front. -/
abbrev Reader (ε α : Type) : Type := Fallible (List UInt8) (ReadError ε) α

namespace Reader

variable {ε α β : Type} {n k : ℕ} {e : ε} {b t : List UInt8}

/-! ### Taking bytes -/

/-- Refuse fewer than `n` bytes. -/
def need (n : ℕ) (e : ε) : Reader ε Unit := do
  let buf ← get
  check (refuseIf (decide (buf.length < n)) (.refused e))

/-- Refuse any other number of bytes than `n`. -/
def needExactly (n : ℕ) (e : ε) : Reader ε Unit := do
  let buf ← get
  check (refuseIf (decide (buf.length ≠ n)) (.refused e))

/-- Take the next `n` bytes. -/
def getArray (n : ℕ) : Reader ε (Vector UInt8 n) := fun buf =>
  if h : n ≤ buf.length then .ok ⟨(buf.take n).toArray, by simp [h]⟩ (buf.drop n)
  else .error .overrun buf

/-- Take a big-endian number of `n` bytes. -/
def getBe (n : ℕ) : Reader ε ℕ := (fun v : Vector UInt8 n => ofBe v.toList) <$> getArray n

/-- Take a number of bytes as a list. -/
def getBytes (n : ℕ) : Reader ε (List UInt8) := (fun v : Vector UInt8 n => v.toList) <$> getArray n

/-- Take whatever is left. -/
def getRest : Reader ε (List UInt8) := fun buf => .ok buf []

/-- Take `n` values in turn. -/
def times (item : Reader ε α) : ℕ → Reader ε (List α)
  | 0 => return []
  | n + 1 => do
    let a ← item
    let as ← times item n
    return a :: as

@[simp] theorem returns_need {u : Unit} : Returns (need n e) b u t ↔ n ≤ b.length ∧ b = t := by
  simp only [need, returns_bind, returns_get, returns_check, refuseIf_eq_ok]
  simp

@[simp] theorem returns_needExactly {u : Unit} :
    Returns (needExactly n e) b u t ↔ b.length = n ∧ b = t := by
  simp only [needExactly, returns_bind, returns_get, returns_check, refuseIf_eq_ok]
  simp

/-- An array is read just when it comes first. -/
theorem returns_getArray {v : Vector UInt8 n} :
    Returns (getArray n : Reader ε _) b v t ↔ b = v.toList ++ t := by
  rw [Returns, EStateM.run, getArray]
  constructor
  · split
    case isTrue hle =>
      intro h
      cases h
      simp
    case isFalse => rintro ⟨⟩
  · rintro rfl
    have hlen : v.toList.length = n := v.length_toList
    have htake : (v.toList ++ t).take n = v.toList := List.take_left' hlen
    have hdrop : (v.toList ++ t).drop n = t := List.drop_left' hlen
    rw [dif_pos (by simp)]
    have hback : (⟨((v.toList ++ t).take n).toArray, by simp⟩ : Vector UInt8 n) = v := by
      refine Vector.toArray_inj.mp ?_
      show ((v.toList ++ t).take n).toArray = v.toArray
      rw [htake]
      exact v.toArray.toArray_toList
    rw [hback, hdrop]

@[simp] theorem returns_getBe {x : ℕ} :
    Returns (getBe n : Reader ε _) b x t ↔ x < 256 ^ n ∧ b = toBe n x ++ t := by
  rw [getBe, returns_map]
  constructor
  · rintro ⟨v, h, rfl⟩
    have hlen : v.toList.length = n := v.length_toList
    have hback := toBe_ofBe v.toList
    have hlt := ofBe_lt v.toList
    rw [hlen] at hback hlt
    exact ⟨hlt, by rw [hback]; exact returns_getArray.mp h⟩
  · rintro ⟨hlt, rfl⟩
    refine ⟨⟨(toBe n x).toArray, by simp⟩, returns_getArray.mpr ?_, ?_⟩
    · simp
    · simpa using ofBe_toBe hlt

@[simp] theorem returns_getBytes {bytes : List UInt8} :
    Returns (getBytes n : Reader ε _) b bytes t ↔ bytes.length = n ∧ b = bytes ++ t := by
  rw [getBytes, returns_map]
  constructor
  · rintro ⟨v, h, rfl⟩
    exact ⟨v.length_toList, returns_getArray.mp h⟩
  · rintro ⟨hlen, rfl⟩
    refine ⟨⟨bytes.toArray, by simpa using hlen⟩, returns_getArray.mpr ?_, ?_⟩ <;> simp

@[simp] theorem returns_getRest {bytes : List UInt8} :
    Returns (getRest : Reader ε _) b bytes t ↔ b = bytes ∧ t = [] := by
  rw [Returns, EStateM.run, getRest, EStateM.Result.ok.injEq]
  exact and_congr_right fun _ => eq_comm

/-- What each of `n` values read in turn was read from. -/
theorem returns_times {item : Reader ε α} {put : α → List UInt8} {fits : α → Prop}
    (hitem : ∀ {b a t}, Returns item b a t ↔ fits a ∧ b = put a ++ t) {as : List α} :
    Returns (times item n) b as t ↔
      as.length = n ∧ (∀ a ∈ as, fits a) ∧ b = as.flatMap put ++ t := by
  induction n generalizing b as t with
  | zero =>
    rw [times, returns_pure]
    constructor
    · rintro ⟨rfl, rfl⟩
      simp
    · rintro ⟨hlen, -, rfl⟩
      obtain rfl := List.length_eq_zero_iff.mp hlen
      simp
  | succ n ih =>
    simp only [times, returns_bind, hitem, ih, returns_pure]
    constructor
    · rintro ⟨a, u, ⟨ha, rfl⟩, as', v, ⟨hlen, has, rfl⟩, rfl, rfl⟩
      refine ⟨by simp [hlen], ?_, by simp⟩
      rintro x (_ | _)
      · exact ha
      · exact has x ‹_›
    · rintro ⟨hlen, has, rfl⟩
      obtain _ | ⟨a, as⟩ := as
      · cases hlen
      · refine ⟨a, _, ⟨has a List.mem_cons_self, ?_⟩, as, t, ⟨?_, ?_, rfl⟩, rfl, rfl⟩
        · simp
        · simpa using hlen
        · exact fun x hx => has x (List.mem_cons_of_mem a hx)

/-! ### Staying within the bytes -/

/-- From `n` bytes or more, the reader does not run past the end. -/
structure Safe (n : ℕ) (x : Reader ε α) : Prop where
  not_overrun : ∀ {b t}, n ≤ b.length → ¬Fails x b .overrun t

theorem safe_pure (n : ℕ) (a : α) : Safe n (pure a : Reader ε α) := ⟨fun _ => fails_pure⟩

@[simp] theorem safe_getRest (n : ℕ) : Safe n (getRest : Reader ε _) := by
  constructor
  rintro b t - h
  rw [Fails, EStateM.run, getRest] at h
  cases h

theorem Safe.mono {x : Reader ε α} (h : Safe n x) (hle : n ≤ k) : Safe k x :=
  ⟨fun hk => h.not_overrun (Nat.le_trans hle hk)⟩

/-- After a safe reader, what follows has to be safe from where it got to. -/
theorem Safe.bind {x : Reader ε α} {f : α → Reader ε β} (hx : Safe n x)
    (hf : ∀ {b a t}, n ≤ b.length → Returns x b a t → Safe t.length (f a)) : Safe n (x >>= f) := by
  constructor
  intro b t hn h
  rcases fails_bind.mp h with h | ⟨a, u, hx', h⟩
  · exact hx.not_overrun hn h
  · exact (hf hn hx').not_overrun le_rfl h

theorem safe_need (n k : ℕ) (e : ε) : Safe n (need k e) := by
  constructor
  intro b t _ h
  simp only [need, fails_bind, fails_get, fails_check, returns_get] at h
  obtain h | ⟨_, _, -, h, -⟩ := h
  · exact h
  · obtain ⟨-, h⟩ := refuseIf_eq_error.mp h
    cases h

theorem safe_needExactly (n k : ℕ) (e : ε) : Safe n (needExactly k e) := by
  constructor
  intro b t _ h
  simp only [needExactly, fails_bind, fails_get, fails_check, returns_get] at h
  obtain h | ⟨_, _, -, h, -⟩ := h
  · exact h
  · obtain ⟨-, h⟩ := refuseIf_eq_error.mp h
    cases h

@[simp] theorem safe_getArray (h : k ≤ n) : Safe n (getArray k : Reader ε _) := by
  constructor
  intro b t hn hfails
  rw [Fails, EStateM.run, getArray, dif_pos (Nat.le_trans h hn)] at hfails
  cases hfails

section Bind

variable {x : Reader ε α} {f : α → Reader ε β} {put : α → List UInt8} {fits : α → Prop}

/-- After a check for enough bytes, as many are safe to read. -/
theorem safe_need_bind {f : Unit → Reader ε β} :
    Safe n (need k e >>= f) ↔ Safe (max n k) (f ()) := by
  constructor
  · intro h
    constructor
    intro b t hle hfails
    have hneed : Returns (need k e) b () b :=
      returns_need.mpr ⟨Nat.le_trans (Nat.le_max_right n k) hle, rfl⟩
    have hfails' : Fails (need k e >>= f) b .overrun t :=
      fails_bind.mpr (.inr ⟨(), b, hneed, hfails⟩)
    exact h.not_overrun (Nat.le_trans (Nat.le_max_left n k) hle) hfails'
  · intro h
    refine (safe_need n k e).bind ?_
    intro b _ t hn hneed
    obtain ⟨hk, rfl⟩ := returns_need.mp hneed
    exact h.mono (Nat.max_le.mpr ⟨hn, hk⟩)

/-- After a reader of a fixed number of bytes, as many fewer are left. -/
theorem safe_bind_of_length (hx : Safe n x) (hreads : ∀ {b a t}, Returns x b a t ↔ b = put a ++ t)
    (hlen : ∀ a, (put a).length = k) (hk : k ≤ n) : Safe n (x >>= f) ↔ ∀ a, Safe (n - k) (f a) := by
  constructor
  · intro h a
    constructor
    intro b t hle hfails
    have hfails' : Fails (x >>= f) (put a ++ b) .overrun t :=
      fails_bind.mpr (.inr ⟨a, b, hreads.mpr rfl, hfails⟩)
    refine h.not_overrun ?_ hfails'
    rw [List.length_append, hlen]
    omega
  · intro h
    refine hx.bind ?_
    rintro b a t hn hret
    obtain rfl := hreads.mp hret
    rw [List.length_append, hlen] at hn
    exact (h a).mono (by omega)

/-- After a reader of more bytes than were asked for, any number may be left. -/
theorem safe_bind_of_le_length (hx : Safe n x)
    (hreads : ∀ {b a t}, Returns x b a t ↔ fits a ∧ b = put a ++ t)
    (hlen : ∀ a, n ≤ (put a).length) : Safe n (x >>= f) ↔ ∀ a, fits a → Safe 0 (f a) := by
  constructor
  · intro h a ha
    constructor
    intro b t _ hfails
    have hfails' : Fails (x >>= f) (put a ++ b) .overrun t :=
      fails_bind.mpr (.inr ⟨a, b, hreads.mpr ⟨ha, rfl⟩, hfails⟩)
    refine h.not_overrun ?_ hfails'
    rw [List.length_append]
    exact Nat.le_add_right_of_le (hlen a)
  · intro h
    refine hx.bind ?_
    rintro b a t - hret
    exact (h a (hreads.mp hret).1).mono (Nat.zero_le _)

/-- The same, where any value may be read. -/
theorem safe_bind_of_le_length_all (hx : Safe n x)
    (hreads : ∀ {b a t}, Returns x b a t ↔ b = put a ++ t) (hlen : ∀ a, n ≤ (put a).length) :
    Safe n (x >>= f) ↔ ∀ a, Safe 0 (f a) := by
  have hall : ∀ {b a t}, Returns x b a t ↔ True ∧ b = put a ++ t := by
    intro b a t
    rw [hreads, true_and]
  rw [safe_bind_of_le_length hx hall hlen]
  exact forall_congr' fun _ => true_imp_iff

end Bind

theorem safe_times {item : Reader ε α} (h : Safe 0 item) (k n : ℕ) : Safe n (times item k) := by
  induction k generalizing n with
  | zero => exact safe_pure n _
  | succ k ih =>
    refine (h.mono (Nat.zero_le n)).bind ?_
    rintro b a t - -
    refine (ih _).bind ?_
    rintro b as t - -
    exact safe_pure _ _

end Reader

/-! ### Messages -/

/-- A kind of message: how it is written, how it is read, and what it becomes on the
way. What is written can be read back, for a value that may be sent, and only what
is written can be read, from bytes in canonical form. -/
structure Message (ε α : Type) where
  encode : α → List UInt8
  decode : Reader ε α
  clamp : α → α
  /-- The format can say every field in full. -/
  Fits : α → Prop
  Sendable : α → Prop
  Canonical : List UInt8 → Prop
  clamp_eq_self : ∀ {m}, clamp m = m ↔ Fits m
  decode_encode : ∀ {m}, Sendable m → Returns decode (encode m) (clamp m) []
  encode_decode : ∀ {b m t}, Canonical b → Returns decode b m t → encode m = b ∧ t = []
  safe : decode.Safe 0

namespace Message

variable {ε α β : Type}

/-- A message that reads exactly what it writes of the values that fit. -/
def ofReads (encode : α → List UInt8) (decode : Reader ε α) (clamp : α → α) (Fits : α → Prop)
    (clamp_eq_self : ∀ {m}, clamp m = m ↔ Fits m) (encode_clamp : ∀ m, encode (clamp m) = encode m) (clamp_clamp : ∀ m, clamp (clamp m) = clamp m)
    (reads : ∀ b m t, Returns decode b m t ↔ clamp m = m ∧ b = encode m ∧ t = [])
    (safe : decode.Safe 0) : Message ε α where
  encode := encode
  decode := decode
  clamp := clamp
  Fits := Fits
  Sendable _ := True
  Canonical _ := True
  clamp_eq_self := clamp_eq_self
  decode_encode {m} _ := (reads _ _ _).mpr ⟨clamp_clamp m, (encode_clamp m).symm, rfl⟩
  encode_decode _ h := ⟨((reads _ _ _).mp h).2.1.symm, ((reads _ _ _).mp h).2.2⟩
  safe := safe

/-- The same message, its values under another name. -/
def as (msg : Message ε α) (into : α → β) (of : β → α)
    (of_into : ∀ a, of (into a) = a) (into_of : ∀ m, into (of m) = m) : Message ε β where
  encode m := msg.encode (of m)
  decode := into <$> msg.decode
  clamp m := into (msg.clamp (of m))
  Fits m := msg.Fits (of m)
  Sendable m := msg.Sendable (of m)
  Canonical := msg.Canonical
  clamp_eq_self {m} := by
    rw [← msg.clamp_eq_self]
    constructor
    · intro h
      rw [← of_into (msg.clamp (of m)), h]
    · intro h
      rw [h, into_of]
  decode_encode h := returns_map.mpr ⟨_, msg.decode_encode h, rfl⟩
  encode_decode hb h := by
    obtain ⟨a, ha, rfl⟩ := returns_map.mp h
    rw [of_into]
    exact msg.encode_decode hb ha
  safe := ⟨fun hn h => msg.safe.not_overrun hn (fails_map.mp h)⟩

/-- Decode a run of bytes. -/
def parse (msg : Message ε α) (b : List UInt8) : Except (ReadError ε) α := outcome msg.decode b

variable {msg : Message ε α} {m m' : α} {b b' : List UInt8}

theorem parse_eq_ok : msg.parse b = .ok m ↔ ∃ t, Returns msg.decode b m t := by
  constructor
  · intro h
    rcases returns_or_fails msg.decode b with ⟨a, t, hr⟩ | ⟨e, t, hf⟩
    · have hm : m = a := Except.ok.inj (h.symm.trans hr.outcome)
      exact ⟨t, hm ▸ hr⟩
    · cases h.symm.trans hf.outcome
  · rintro ⟨t, h⟩
    exact h.outcome

/-- **A message that may be sent is read back**, clamped. -/
theorem parse_encode (h : msg.Sendable m) : msg.parse (msg.encode m) = .ok (msg.clamp m) :=
  (msg.decode_encode h).outcome

/-- **Only the bytes of a message are read as that message.** -/
theorem encode_of_parse (hb : msg.Canonical b) (h : msg.parse b = .ok m) : msg.encode m = b := by
  obtain ⟨t, ht⟩ := parse_eq_ok.mp h
  exact (msg.encode_decode hb ht).1

/-- **No two runs of bytes are read as one message.** -/
theorem parse_injective (hb : msg.Canonical b) (hb' : msg.Canonical b') (h : msg.parse b = .ok m)
    (h' : msg.parse b' = .ok m) : b = b' :=
  (encode_of_parse hb h).symm.trans (encode_of_parse hb' h')

/-- **A reader of a message does not run past the end of its bytes.** -/
theorem parse_ne_overrun (msg : Message ε α) (b : List UInt8) : msg.parse b ≠ .error .overrun :=
  fun h => msg.safe.not_overrun (Nat.zero_le _) (fails_of_outcome h)

end Message

end Foundations
