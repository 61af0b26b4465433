import KdxHotline.Foundations.Bytes

/-!
# Encodings that say where they end

An encoding is *delimited* when what follows it can never be taken for a part of it:
what comes before a text that goes on can be read off in one way only
(`Foundations.Delimited`). Encodings of one length are, a length in front makes any other
one so, and one after the other they stay so. A text put together of delimited parts is
therefore put together in one way.
-/

namespace Foundations

section Delimited

variable {α β γ : Type} {P : α → Prop} {Q : β → Prop} {f : α → List UInt8} {g : β → List UInt8}

/-- Where `P` holds, the encoding can be told from what comes after it. -/
def Delimited (P : α → Prop) (f : α → List UInt8) : Prop :=
  ∀ ⦃a b s t⦄, P a → P b → f a ++ s = f b ++ t → a = b ∧ s = t

theorem Delimited.mono {P' : α → Prop} (h : Delimited P f) (hP : ∀ a, P' a → P a) : Delimited P' f :=
  fun _ _ _ _ ha hb he => h (hP _ ha) (hP _ hb) he

/-- Nothing needs to come after it. -/
theorem Delimited.injective (h : Delimited P f) {a b : α} (ha : P a) (hb : P b)
    (he : f a = f b) : a = b :=
  (h (s := []) (t := []) ha hb (by rw [he])).1

/-- **An encoding of one length is delimited**, if it can be read back at all. -/
theorem delimited_of_length (hlength : ∀ a b, P a → P b → (f a).length = (f b).length)
    (hinj : ∀ a b, P a → P b → f a = f b → a = b) : Delimited P f := by
  intro a b s t ha hb h
  obtain ⟨hf, hrest⟩ := List.append_inj h (hlength a b ha hb)
  exact ⟨hinj a b ha hb hf, hrest⟩

/-- A number in a fixed count of bytes. -/
theorem delimited_toBe (k : ℕ) : Delimited (· < 256 ^ k) (toBe k) := by
  refine delimited_of_length (fun a b _ _ => by rw [length_toBe, length_toBe]) fun a b ha hb h => ?_
  rw [← ofBe_toBe ha, h, ofBe_toBe hb]

/-- An array of a fixed length. -/
theorem delimited_vector (n : ℕ) : Delimited (fun _ : Vector UInt8 n => True) Vector.toList :=
  delimited_of_length (fun a b _ _ => by rw [Vector.length_toList, Vector.length_toList])
    fun _ _ _ _ h => Vector.toList_inj.mp h

/-- **A length in front delimits any text** whose length it can hold. -/
theorem delimited_prefixed (k : ℕ) : Delimited (fun bytes : List UInt8 => bytes.length < 256 ^ k)
    fun bytes => toBe k bytes.length ++ bytes := by
  intro a b s t ha hb h
  rw [List.append_assoc, List.append_assoc] at h
  obtain ⟨hlength, hrest⟩ := delimited_toBe k ha hb h
  exact List.append_inj hrest hlength

/-- What is read off an encoded value can be read off the value. -/
theorem Delimited.comp (h : Delimited P f) {e : γ → α} (he : Function.Injective e) :
    Delimited (fun c => P (e c)) fun c => f (e c) := by
  intro a b s t ha hb hab
  obtain ⟨hsame, hrest⟩ := h ha hb hab
  exact ⟨he hsame, hrest⟩

/-- **One delimited encoding after another is delimited.** -/
theorem Delimited.append (h : Delimited P f) (h' : Delimited Q g) :
    Delimited (fun c : α × β => P c.1 ∧ Q c.2) fun c => f c.1 ++ g c.2 := by
  rintro ⟨a, b⟩ ⟨a', b'⟩ s t ⟨ha, hb⟩ ⟨ha', hb'⟩ hab
  rw [List.append_assoc, List.append_assoc] at hab
  obtain ⟨hfirst, hrest⟩ := h ha ha' hab
  obtain ⟨hsecond, hrest⟩ := h' hb hb' hrest
  exact ⟨Prod.ext hfirst hsecond, hrest⟩

end Delimited

end Foundations
