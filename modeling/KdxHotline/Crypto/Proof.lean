import KdxHotline.Crypto.Scram

/-!
# Proving a password

The client's side of a login. From the password it derives the keys that the server has
stored, and proves that it knows them without sending them
(`KdxHotline.Crypto.clientProof`, `KdxHotline.Crypto.passwordChangeProof`).

Whoever derives a credential from a password can log in with it: the credential reads back
from its text, and what the client proves is what the server verifies, down to the signature
the client then expects (`KdxHotline.Crypto.password_logs_in`). Nothing is assumed of the hash
functions, not even that they are hard to invert.
-/

namespace KdxHotline

namespace Crypto

open Foundations

/-- Argon2id: the salted password, of a password's bytes, a salt and the costs. -/
abbrev Argon2 : Type := List UInt8 → List UInt8 → KdfParams → Except CryptoError (Vector UInt8 32)

/-- The client's answer to a challenge, and the signature it expects in return. -/
structure ClientProof where
  proof : Vector UInt8 32
  serverSignature : Vector UInt8 32

/-- Check the signature of a server that says the login succeeded. -/
def ClientProof.verifyServerSignature (p : ClientProof) (got : Vector UInt8 32) : Bool :=
  p.serverSignature == got

/-- Derive a credential from a password. -/
def StoredCredential.deriveWith (P : Primitives) (argon2 : Argon2) (password : String)
    (salt : List UInt8) (params : KdfParams) : Except CryptoError StoredCredential := do
  let salted ← argon2 (asBytes password) salt params
  return fromSaltedPassword P salted salt params

/-- Hide the client's key behind a signature of the message. -/
def prove (P : Primitives) (argon2 : Argon2) (password : String) (salt : List UInt8)
    (params : KdfParams) (message : List UInt8) : Except CryptoError ClientProof := do
  params.checkBounds salt.length
  let salted ← argon2 (asBytes password) salt params
  let keys := Keys.fromSaltedPassword P salted
  let clientSignature := P.hmac keys.storedKey.toList message
  let proof := keys.clientKey.zipWith (· ^^^ ·) clientSignature
  return ⟨proof, P.hmac keys.serverKey.toList message⟩

/-- Answer a login challenge. -/
def clientProof (P : Primitives) (argon2 : Argon2) (password : String) (ctx : AuthContext) :
    Except CryptoError ClientProof :=
  prove P argon2 password ctx.salt ctx.params ctx.authMessage

/-- Prove the current password for a change to a new credential. -/
def passwordChangeProof (P : Primitives) (argon2 : Argon2) (currentPassword : String)
    (ctx : PasswordChangeContext) : Except CryptoError ClientProof := do
  ctx.newCredential.checkAcceptable
  prove P argon2 currentPassword ctx.current.salt ctx.current.params ctx.changeMessage

/-! ### Two credentials have two texts -/

section Texts

/-- What comes before the first separator, and what comes after it. -/
theorem append_cons_inj {d : Char} {a b s t : List Char} (ha : d ∉ a) (hb : d ∉ b)
    (h : a ++ d :: s = b ++ d :: t) : a = b ∧ s = t := by
  have hsplit := congrArg (List.splitOn d) h
  rw [List.splitOn_append_cons_self_of_not_mem ha, List.splitOn_append_cons_self_of_not_mem hb] at hsplit
  obtain ⟨rfl, -⟩ := List.cons.inj hsplit
  exact ⟨rfl, (List.cons.inj (List.append_cancel_left h)).2⟩

theorem toDigits_injective {m n : ℕ} (h : Nat.toDigits 10 m = Nat.toDigits 10 n) : m = n := by
  rw [← Nat.ofDigitChars_ten_toDigits (n := m), h, Nat.ofDigitChars_ten_toDigits]

theorem toHex_injective {a b : List UInt8} (h : (toHex a).toList = (toHex b).toList) : a = b := by
  have hback := fromHex_toHex a
  rw [h, fromHex_toHex] at hback
  exact (Option.some.inj hback).symm

/-- The costs are told apart by their text. -/
theorem costChars_injective {p q : KdfParams} (h : costChars p = costChars q) : p = q := by
  have hdigits : ∀ {n : ℕ}, ',' ∉ Nat.toDigits 10 n := separator_digits (by decide)
  rw [costChars, costChars, List.cons_append, List.cons_append, List.cons_append, List.cons_append] at h
  obtain ⟨hm, h⟩ := append_cons_inj hdigits hdigits (List.cons.inj (List.cons.inj h).2).2
  obtain ⟨ht, h⟩ := append_cons_inj hdigits hdigits (List.cons.inj (List.cons.inj h).2).2
  have hp := (List.cons.inj (List.cons.inj h).2).2
  obtain ⟨m, t, l⟩ := p
  obtain ⟨m', t', l'⟩ := q
  obtain rfl : m = m' := toDigits_injective hm
  obtain rfl : t = t' := toDigits_injective ht
  obtain rfl : l = l' := toDigits_injective hp
  rfl

/-- **No two credentials are stored as one text.** -/
theorem StoredCredential.encode_injective : Function.Injective StoredCredential.encode := by
  intro c c' h
  have hhex : ∀ {bytes : List UInt8}, '$' ∉ (toHex bytes).toList := separator_toHex (by decide)
  have hcosts : ∀ {p : KdfParams}, '$' ∉ costChars p := by
    intro p
    simp [costChars, separator_digits (show Char.isDigit '$' = false by decide)]
  have hchars := congrArg String.toList h
  rw [encode_chars, encode_chars] at hchars
  have hrest := List.append_cancel_left (List.cons.inj hchars).2
  have hrest := List.append_cancel_left (List.cons.inj hrest).2
  obtain ⟨hparams, hrest⟩ := append_cons_inj hcosts hcosts (List.cons.inj hrest).2
  obtain ⟨hsalt, hrest⟩ := append_cons_inj hhex hhex hrest
  obtain ⟨hstored, hserver⟩ := append_cons_inj hhex hhex hrest
  obtain ⟨salt, params, storedKey, serverKey⟩ := c
  obtain ⟨salt', params', storedKey', serverKey'⟩ := c'
  obtain rfl : params = params' := costChars_injective hparams
  obtain rfl : salt = salt' := toHex_injective hsalt
  obtain rfl : storedKey = storedKey' := Vector.toList_inj.mp (toHex_injective hstored)
  obtain rfl : serverKey = serverKey' := Vector.toList_inj.mp (toHex_injective hserver)
  rfl

end Texts

/-! ### The server verifies what the client proves -/

section Agree

variable {P : Primitives} {argon2 : Argon2} {password : String} {salt message : List UInt8}
  {params : KdfParams} {c : StoredCredential}

/-- Hiding twice behind one signature hides nothing. -/
theorem zipWith_xor_cancel (a b : Vector UInt8 32) :
    (a.zipWith (· ^^^ ·) b).zipWith (· ^^^ ·) b = a := by
  ext i hi
  rw [Vector.getElem_zipWith, Vector.getElem_zipWith, UInt8.xor_assoc, UInt8.xor_self,
    UInt8.xor_zero]

/-- **A proof made for a credential is verified against it**, and answered with the signature
that is expected. -/
theorem verify_prove (message : List UInt8) (hbounds : params.checkBounds salt.length = .ok ())
    (hderive : StoredCredential.deriveWith P argon2 password salt params = .ok c) :
    ∃ proof, prove P argon2 password salt params message = .ok proof ∧
      c.verify P message proof.proof = some proof.serverSignature := by
  obtain ⟨salted, hsalted, hc⟩ := checks_pass.mp hderive
  obtain rfl := Except.ok.inj hc
  refine ⟨_, checks_pass.mpr ⟨(), hbounds, checks_pass.mpr ⟨salted, hsalted, rfl⟩⟩, ?_⟩
  refine if_pos ?_
  rw [StoredCredential.fromSaltedPassword, zipWith_xor_cancel]
  rfl

/-- A derived credential keeps the salt and the costs it was derived with. -/
theorem deriveWith_params (hderive : StoredCredential.deriveWith P argon2 password salt params = .ok c) :
    c.salt = salt ∧ c.params = params := by
  obtain ⟨salted, -, hc⟩ := checks_pass.mp hderive
  obtain rfl := Except.ok.inj hc
  exact ⟨rfl, rfl⟩

/-- The server puts together the message that the client did. -/
theorem verifyProof_eq {ctx : AuthContext} {proof : Vector UInt8 32} (hsalt : ctx.salt = c.salt)
    (hparams : ctx.params = c.params) :
    c.verifyProof P ctx.username ctx.challenge ctx.channelBinding proof =
      c.verify P ctx.authMessage proof := by
  obtain ⟨username, challenge, salt, params, channelBinding, hwords⟩ := ctx
  obtain ⟨salt', params', storedKey, serverKey⟩ := c
  obtain rfl : salt = salt' := hsalt
  obtain rfl : params = params' := hparams
  exact dif_pos hwords

/-- The proof of a change is verified against the transcript of the change. -/
theorem verifyPasswordChangeProof_eq {ctx : PasswordChangeContext} {proof : Vector UInt8 32}
    (hsalt : ctx.current.salt = c.salt) (hparams : ctx.current.params = c.params) :
    c.verifyPasswordChangeProof P ctx.current.username ctx.current.challenge
        ctx.current.channelBinding ctx.newCredential proof =
      c.verify P ctx.changeMessage proof := by
  obtain ⟨⟨username, challenge, salt, params, channelBinding, hwords⟩, new, hnew⟩ := ctx
  obtain ⟨salt', params', storedKey, serverKey⟩ := c
  obtain rfl : salt = salt' := hsalt
  obtain rfl : params = params' := hparams
  exact dif_pos ⟨hwords, hnew⟩

theorem verifyServerSignature_iff {p : ClientProof} {got : Vector UInt8 32} :
    p.verifyServerSignature got = true ↔ got = p.serverSignature := by
  rw [ClientProof.verifyServerSignature, beq_iff_eq, eq_comm]

/-- What a verifier that accepts has recovered is a preimage of the stored key. -/
theorem sha256_of_verify {proof sig : Vector UInt8 32} (h : c.verify P message proof = some sig) :
    P.sha256 (proof.zipWith (· ^^^ ·) (P.hmac c.storedKey.toList message)).toList = c.storedKey := by
  by_contra hne
  rw [StoredCredential.verify, if_neg hne] at h
  cases h

end Agree

/-- **Whoever derived a credential from a password can log in with it, and change it.** -/
theorem password_logs_in (P : Primitives) (argon2 : Argon2) :
    (∀ c : StoredCredential, c.checkAcceptable = .ok () → StoredCredential.decode c.encode = some c) ∧
    Function.Injective StoredCredential.encode ∧
    (∀ (password : String) (ctx : AuthContext) (c : StoredCredential),
      ctx.params.checkBounds ctx.salt.length = .ok () →
      StoredCredential.deriveWith P argon2 password ctx.salt ctx.params = .ok c →
      ∃ stored, StoredCredential.decode c.encode = some stored ∧
        (∃ p sig, clientProof P argon2 password ctx = .ok p ∧
          stored.verifyProof P ctx.username ctx.challenge ctx.channelBinding p.proof = some sig ∧
          ∀ got, p.verifyServerSignature got = true ↔ got = sig) ∧
        ∀ change : PasswordChangeContext, change.current = ctx →
          change.newCredential.checkAcceptable = .ok () →
          ∃ p sig, passwordChangeProof P argon2 password change = .ok p ∧
            stored.verifyPasswordChangeProof P ctx.username ctx.challenge ctx.channelBinding
              change.newCredential p.proof = some sig ∧
            ∀ got, p.verifyServerSignature got = true ↔ got = sig) ∧
    ∀ (c : StoredCredential) (ctx : AuthContext) (proof sig : Vector UInt8 32),
      ctx.salt = c.salt → ctx.params = c.params →
      (c.verifyProof P ctx.username ctx.challenge ctx.channelBinding proof = some sig →
        P.sha256 (proof.zipWith (· ^^^ ·) (P.hmac c.storedKey.toList ctx.authMessage)).toList =
          c.storedKey) ∧
      ∀ change : PasswordChangeContext, change.current = ctx →
        c.verifyPasswordChangeProof P ctx.username ctx.challenge ctx.channelBinding
          change.newCredential proof = some sig →
        P.sha256 (proof.zipWith (· ^^^ ·) (P.hmac c.storedKey.toList change.changeMessage)).toList =
          c.storedKey := by
  refine ⟨fun c h => StoredCredential.decode_acceptable h, StoredCredential.encode_injective, ?_, ?_⟩
  · intro password ctx c hbounds hderive
    -- what was derived is stored with the salt and parameters it was derived with
    obtain ⟨hsalt, hparams⟩ := deriveWith_params hderive
    have hbounds' : c.params.checkBounds c.salt.length = .ok () := by rw [hsalt, hparams, hbounds]
    refine ⟨c, StoredCredential.decode_of_bounds hbounds', ?_, ?_⟩
    · obtain ⟨p, hp, hverify⟩ := verify_prove ctx.authMessage hbounds hderive
      refine ⟨p, _, hp, ?_, fun _ => verifyServerSignature_iff⟩
      rw [verifyProof_eq hsalt.symm hparams.symm, hverify]
    · rintro change rfl hnew
      obtain ⟨p, hp, hverify⟩ := verify_prove change.changeMessage hbounds hderive
      refine ⟨p, _, checks_pass.mpr ⟨(), hnew, hp⟩, ?_, fun _ => verifyServerSignature_iff⟩
      rw [verifyPasswordChangeProof_eq hsalt.symm hparams.symm, hverify]
  · intro c ctx proof sig hsalt hparams
    refine ⟨fun h => ?_, ?_⟩
    · rw [verifyProof_eq hsalt hparams] at h
      exact sha256_of_verify h
    · rintro change rfl h
      rw [verifyPasswordChangeProof_eq hsalt hparams] at h
      exact sha256_of_verify h

end Crypto

end KdxHotline
