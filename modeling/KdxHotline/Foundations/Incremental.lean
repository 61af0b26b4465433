import Mathlib.Data.List.Basic
import KdxHotline.Foundations.Fallible

/-!
# Decoders that are fed piece by piece

A decoder of a stream keeps a buffer. What arrives is put behind it, and the decoder
is polled for as long as it answers with an item; when it answers with none, it
waits for more, and its first error ends the stream.

`Foundations.Incremental` asks three things of such a decoder: an item, and an
error, do not depend on what arrives later, and an answer of none costs nothing –
polling again with more behind the buffer is as if the first poll had not been
made. Then how the stream was cut into pieces cannot be seen
(`Foundations.Incremental.feed_eq`).
-/

namespace Foundations

/-- A decoder that is polled for items. -/
structure Incremental (σ β ε α : Type) where
  poll : Fallible σ ε (Option α)
  /-- Put what arrives behind the buffer. -/
  arrive : List β → σ → σ
  arrive_nil : ∀ s, arrive [] s = s
  arrive_append : ∀ b c s, arrive c (arrive b s) = arrive (b ++ c) s
  /-- How much there is to decode. -/
  size : σ → ℕ
  item_size : ∀ {s a t}, Returns poll s (some a) t → size t < size s
  item_arrive : ∀ {s a t} b, Returns poll s (some a) t →
    Returns poll (arrive b s) (some a) (arrive b t)
  error_arrive : ∀ {s e t} b, Fails poll s e t → ∃ t', Fails poll (arrive b s) e t'
  none_arrive : ∀ {s t} b, Returns poll s none t → poll.run (arrive b t) = poll.run (arrive b s)

namespace Incremental

variable {σ β ε α : Type} (d : Incremental σ β ε α) {s t : σ} {e : ε} {a : α} {items : List α}

/-- Poll for as long as items come: the items, and what the decoder is left with or
the error that ended it. -/
def drain (s : σ) : List α × Except ε σ :=
  match h : d.poll.run s with
  | .ok (some a) t =>
    have : d.size t < d.size s := d.item_size h
    let r := drain t
    (a :: r.1, r.2)
  | .ok none t => ([], .ok t)
  | .error e _ => ([], .error e)
  termination_by d.size s

/-- Feed the pieces of a stream one after another, up to the first error. -/
def feed : σ → List (List β) → List α × Except ε σ
  | s, [] => ([], .ok s)
  | s, piece :: pieces =>
    match d.drain (d.arrive piece s) with
    | (items, .ok t) =>
      let r := feed t pieces
      (items ++ r.1, r.2)
    | (items, .error e) => (items, .error e)

/-- The decoder waits: it has no item and stays as it is. -/
def Settled (s : σ) : Prop := Returns d.poll s none s

variable {d}

/-- One item, and what else is drained. -/
theorem drain_item (h : Returns d.poll s (some a) t) :
    d.drain s = (a :: (d.drain t).1, (d.drain t).2) := by
  rw [drain]
  split
  · rename_i a' t' h'
    obtain ⟨ha, rfl⟩ := h.unique h'
    obtain rfl := Option.some.inj ha
    rfl
  · rename_i t' h'
    cases (h.unique h').1
  · rename_i e t' h'
    cases h.symm.trans h'

theorem drain_none (h : Returns d.poll s none t) : d.drain s = ([], .ok t) := by
  rw [drain]
  split
  · rename_i a' t' h'
    cases (h.unique h').1
  · rename_i t' h'
    rw [(h.unique h').2]
  · rename_i e t' h'
    cases h.symm.trans h'

/-- Nothing is drained before an error. -/
theorem drain_error (h : Fails d.poll s e t) : d.drain s = ([], .error e) := by
  rw [drain]
  split
  · rename_i a' t' h'
    cases h.symm.trans h'
  · rename_i t' h'
    cases h.symm.trans h'
  · rename_i e' t' h'
    cases h.symm.trans h'
    rfl

/-- Only the next poll counts. -/
theorem drain_congr (h : d.poll.run s = d.poll.run t) : d.drain s = d.drain t := by
  rcases returns_or_fails d.poll s with ⟨a, u, hs⟩ | ⟨e, u, hs⟩
  · have ht : Returns d.poll t a u := h.symm.trans hs
    cases a with
    | none => rw [drain_none hs, drain_none ht]
    | some a => rw [drain_item hs, drain_item ht]
  · have ht : Fails d.poll t e u := h.symm.trans hs
    rw [drain_error hs, drain_error ht]

/-- What a poll answered with none leaves is settled. -/
theorem settled_of_none (h : Returns d.poll s none t) : d.Settled t := by
  have hrun := d.none_arrive [] h
  rw [d.arrive_nil, d.arrive_nil] at hrun
  exact hrun.trans h

/-- What is left after draining is settled. -/
theorem drain_settled {s : σ} (h : d.drain s = (items, .ok t)) : d.Settled t := by
  induction hn : d.size s using Nat.strongRecOn generalizing s items with
  | ind n ih =>
    rcases returns_or_fails d.poll s with ⟨a, u, hs⟩ | ⟨e, u, hs⟩
    · cases a with
      | none =>
        rw [drain_none hs] at h
        cases h
        exact settled_of_none hs
      | some a =>
        rw [drain_item hs, Prod.mk.injEq] at h
        have hrest : d.drain u = ((d.drain u).1, .ok t) := Prod.ext rfl h.2
        exact ih _ (hn ▸ d.item_size hs) hrest rfl
    · rw [drain_error hs] at h
      cases h

/-- **Draining may wait for what is still to arrive**: items that come without it
come first, and an error that comes without it ends the stream all the same. -/
theorem drain_arrive {b : List β} {s : σ} : d.drain (d.arrive b s) =
    match d.drain s with
    | (items, .ok t) => (items ++ (d.drain (d.arrive b t)).1, (d.drain (d.arrive b t)).2)
    | (items, .error e) => (items, .error e) := by
  induction hn : d.size s using Nat.strongRecOn generalizing s with
  | ind n ih =>
    rcases returns_or_fails d.poll s with ⟨a, t, hs⟩ | ⟨e, t, hs⟩
    · cases a with
      | none =>
        rw [drain_none hs]
        rw [← drain_congr (d.none_arrive b hs)]
        rfl
      | some a =>
        rw [drain_item (d.item_arrive b hs), drain_item hs, ih _ (hn ▸ d.item_size hs) rfl]
        rcases d.drain t with ⟨items, u | e⟩ <;> rfl
    · obtain ⟨t', ht'⟩ := d.error_arrive b hs
      rw [drain_error hs, drain_error ht']

/-- **How a stream is cut into pieces cannot be seen.** -/
theorem feed_eq {pieces : List (List β)} {s : σ} (hs : d.Settled s) :
    d.feed s pieces = d.drain (d.arrive pieces.flatten s) := by
  induction pieces generalizing s with
  | nil => rw [List.flatten_nil, d.arrive_nil, drain_none hs, feed]
  | cons piece pieces ih =>
    rw [List.flatten_cons, ← d.arrive_append, drain_arrive, feed]
    rcases hd : d.drain (d.arrive piece s) with ⟨items, e | t⟩
    · rfl
    · simp only [ih (drain_settled hd)]

end Incremental

end Foundations
