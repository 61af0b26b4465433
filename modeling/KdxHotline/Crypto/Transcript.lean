import KdxHotline.Crypto.Credential
import KdxHotline.Foundations.Delimited

/-!
# What a proof is bound to

A login proof and a password-change proof are keyed hashes over a message that spells
everything they are bound to. No two contexts spell the same message
(`KdxHotline.Crypto.transcripts_unambiguous`): the name and the salts carry their lengths,
everything else is of one length, and the two kinds of message begin with labels that
differ early on.
-/

namespace KdxHotline

namespace Crypto

open Foundations

/-- The bytes of a text. -/
def asBytes (s : String) : List UInt8 := s.toByteArray.data.toList

theorem asBytes_injective : Function.Injective asBytes := by
  intro s s' h
  have hdata : s.toByteArray.data = s'.toByteArray.data := Array.toList_inj.mp h
  exact String.toByteArray_inj.mp (ByteArray.ext hdata)

/-- What the transcript of a login begins with. -/
def authMessageLabel : List UInt8 := asBytes "KDX-AUTH-v2\x00"
/-- What the transcript of a change begins with. -/
def passwordChangeLabel : List UInt8 := asBytes "KDX-PWCHANGE-v1\x00"

/-! ### The contexts -/

/-- Each parameter is a 32-bit word. -/
def KdfParams.Words (p : KdfParams) : Prop := p.mCost < 2 ^ 32 ∧ p.tCost < 2 ^ 32 ∧ p.pCost < 2 ^ 32

instance decidableWords (p : KdfParams) : Decidable p.Words := inferInstanceAs (Decidable (_ ∧ _))

/-- Everything the proof of a login is bound to. -/
structure AuthContext where
  username : String
  challenge : Vector UInt8 32
  salt : List UInt8
  params : KdfParams
  channelBinding : Vector UInt8 32
  params_words : params.Words

/-- Everything the proof of a password change is bound to: the fields of a login with the
current credential, and the whole new one. -/
structure PasswordChangeContext where
  current : AuthContext
  newCredential : StoredCredential
  new_words : newCredential.params.Words

/-! ### The messages -/

/-- A run of bytes after its length. -/
def putBytes (bytes : List UInt8) : List UInt8 := toBe 4 bytes.length ++ bytes

/-- The costs, four bytes each. -/
def putParams (p : KdfParams) : List UInt8 := toBe 4 p.mCost ++ (toBe 4 p.tCost ++ toBe 4 p.pCost)

/-- The fields of a login, after a label. -/
def AuthContext.messageWithLabel (c : AuthContext) (label : List UInt8) : List UInt8 :=
  label ++ (putBytes (asBytes c.username) ++ (c.challenge.toList ++ (putBytes c.salt ++
    (putParams c.params ++ c.channelBinding.toList))))

/-- The message that both sides of a login hash. -/
def AuthContext.authMessage (c : AuthContext) : List UInt8 := c.messageWithLabel authMessageLabel

/-- The message that both sides of a password change hash. -/
def PasswordChangeContext.changeMessage (c : PasswordChangeContext) : List UInt8 :=
  c.current.messageWithLabel passwordChangeLabel ++ (putBytes c.newCredential.salt ++
    (putParams c.newCredential.params ++
      (c.newCredential.storedKey.toList ++ c.newCredential.serverKey.toList)))

/-! ### Reading the messages back -/

/-- The name and the salt have lengths that fit four bytes. -/
def AuthContext.Short (c : AuthContext) : Prop :=
  (asBytes c.username).length < 2 ^ 32 ∧ c.salt.length < 2 ^ 32

/-- Every length fits its four bytes. -/
def PasswordChangeContext.Short (c : PasswordChangeContext) : Prop :=
  c.current.Short ∧ c.newCredential.salt.length < 2 ^ 32

theorem delimited_putBytes : Delimited (fun bytes => bytes.length < 2 ^ 32) putBytes :=
  (delimited_prefixed 4).mono fun _ h => h

theorem delimited_putParams : Delimited KdfParams.Words putParams := by
  have hwords := (delimited_toBe 4).append ((delimited_toBe 4).append (delimited_toBe 4))
  have hfields : Function.Injective fun p : KdfParams => (p.mCost, p.tCost, p.pCost) := by
    rintro ⟨m, t, p⟩ ⟨m', t', p'⟩ h
    simpa using h
  exact (hwords.comp hfields).mono fun _ h => h

/-- **The fields of a login can be read off its message**, whatever comes after. -/
theorem delimited_messageWithLabel (label : List UInt8) :
    Delimited AuthContext.Short fun c => c.messageWithLabel label := by
  have hname := delimited_putBytes.comp asBytes_injective
  have hparts := hname.append ((delimited_vector 32).append (delimited_putBytes.append
    (delimited_putParams.append (delimited_vector 32))))
  have hfields : Function.Injective fun c : AuthContext =>
      (c.username, c.challenge, c.salt, c.params, c.channelBinding) := by
    rintro ⟨_, _, _, _, _, _⟩ ⟨_, _, _, _, _, _⟩ h
    simpa using h
  have hread : Delimited AuthContext.Short fun c => putBytes (asBytes c.username) ++
      (c.challenge.toList ++ (putBytes c.salt ++ (putParams c.params ++ c.channelBinding.toList))) :=
    (hparts.comp hfields).mono fun c h => ⟨h.1, trivial, h.2, c.params_words, trivial⟩
  intro a b s t ha hb h
  simp only [AuthContext.messageWithLabel, List.append_assoc, List.append_cancel_left_eq] at h
  refine hread ha hb ?_
  simpa only [List.append_assoc] using h

/-- **So can those of a password change.** -/
theorem delimited_changeMessage :
    Delimited PasswordChangeContext.Short PasswordChangeContext.changeMessage := by
  have hparts := (delimited_messageWithLabel passwordChangeLabel).append (delimited_putBytes.append
    (delimited_putParams.append ((delimited_vector 32).append (delimited_vector 32))))
  have hfields : Function.Injective fun c : PasswordChangeContext =>
      (c.current, c.newCredential.salt, c.newCredential.params, c.newCredential.storedKey,
        c.newCredential.serverKey) := by
    rintro ⟨_, ⟨_, _, _, _⟩, _⟩ ⟨_, ⟨_, _, _, _⟩, _⟩ h
    simpa using h
  exact (hparts.comp hfields).mono fun c h => ⟨h.1, h.2, c.new_words, trivial, trivial⟩

/-- The labels of the two kinds of message differ before either ends. -/
theorem labels_ne (s t : List UInt8) : authMessageLabel ++ s ≠ passwordChangeLabel ++ t := by
  intro h
  have hfirst := congrArg (List.take 12) h
  rw [List.take_append_of_le_length (by decide), List.take_append_of_le_length (by decide)] at hfirst
  exact absurd hfirst (by decide)

/-- **Transcripts are unambiguous.** Login messages are equal only for one context, and so
are password-change messages, the whole new credential included, as long as the name and
the salts have lengths that fit four bytes; and no message of a login is one of a password
change. -/
theorem transcripts_unambiguous :
    (∀ a b : AuthContext, a.Short → b.Short → a.authMessage = b.authMessage → a = b) ∧
    (∀ a b : PasswordChangeContext, a.Short → b.Short → a.changeMessage = b.changeMessage → a = b) ∧
    ∀ (a : AuthContext) (b : PasswordChangeContext), a.authMessage ≠ b.changeMessage := by
  refine ⟨fun a b ha hb h => (delimited_messageWithLabel authMessageLabel).injective ha hb h,
    fun a b ha hb h => delimited_changeMessage.injective ha hb h, fun a b h => ?_⟩
  rw [PasswordChangeContext.changeMessage, AuthContext.messageWithLabel, List.append_assoc] at h
  exact labels_ne _ _ h

/-! A login and a password change of one account. -/

namespace Phraq

/-- A login. -/
def login : AuthContext :=
  ⟨"phraq", Vector.replicate 32 7, List.replicate 16 1, ⟨19456, 2, 1⟩, Vector.replicate 32 0,
    by decide⟩

/-- A change on that login's terms. -/
def change : PasswordChangeContext :=
  ⟨login, ⟨List.replicate 16 2, ⟨65536, 3, 1⟩, Vector.replicate 32 3, Vector.replicate 32 4⟩,
    by decide⟩

end Phraq

open Phraq in
theorem transcripts_unambiguous_phraq :
    login = login ∧ change = change ∧ login.authMessage ≠ change.changeMessage := by
  have hname : (asBytes "phraq").length < 2 ^ 32 := by decide +kernel
  have hshort : login.Short := ⟨hname, by decide⟩
  have hshort' : change.Short := ⟨hshort, by decide⟩
  exact ⟨transcripts_unambiguous.1 login login hshort hshort rfl,
    transcripts_unambiguous.2.1 change change hshort' hshort' rfl,
    transcripts_unambiguous.2.2 login change⟩

end Crypto

end KdxHotline
