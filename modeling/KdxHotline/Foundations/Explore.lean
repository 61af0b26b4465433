import KdxHotline.Foundations.Fallible
import Mathlib.Data.Finset.Card

/-!
# Exploring with a stack

A depth-first search that may visit at most so many nodes: pop a node, visit it,
push what it leads to. `Foundations.explore` returns what it visited, in order.

* A search that returns has visited everything its stack leads to
  (`Foundations.explore_closed`) and nothing else (`Foundations.explore_reached`).
* A search whose visits never repeat a key cannot run out, as long as it may
  visit as many nodes as there are keys (`Foundations.explore_total`).
-/

namespace Foundations

section Explore

variable {α ε κ : Type} {exhausted : ε} {visit : α → Except ε (List α)}

/-- Visit what is on the stack and what that leads to, at most `fuel` nodes; the
last node a visit leads to is visited first. -/
def explore (exhausted : ε) (visit : α → Except ε (List α)) : ℕ → List α → Except ε (List α)
  | _, [] => .ok []
  | 0, _ :: _ => .error exhausted
  | fuel + 1, a :: stack => do
    let next ← visit a
    let rest ← explore exhausted visit fuel (next.reverse ++ stack)
    return a :: rest

/-- `b` is what visiting `a` leads to. -/
def LeadsTo (visit : α → Except ε (List α)) (a b : α) : Prop := ∃ next, visit a = .ok next ∧ b ∈ next

@[simp] theorem explore_nil (fuel : ℕ) : explore exhausted visit fuel [] = .ok [] := by
  cases fuel <;> rfl

/-- A visit, and the rest of the exploration. -/
theorem explore_cons {fuel : ℕ} {a : α} {stack out : List α}
    (h : explore exhausted visit fuel (a :: stack) = .ok out) :
    ∃ fuel' next rest, fuel = fuel' + 1 ∧ visit a = .ok next ∧
      explore exhausted visit fuel' (next.reverse ++ stack) = .ok rest ∧ out = a :: rest := by
  cases fuel with
  | zero => cases h
  | succ fuel =>
    obtain ⟨next, hnext, h⟩ := checks_pass.mp h
    obtain ⟨rest, hrest, h⟩ := checks_pass.mp h
    cases h
    exact ⟨fuel, next, rest, rfl, hnext, hrest, rfl⟩

/-- **A search that returns has visited its stack, and with each node all it
leads to.** -/
theorem explore_closed : ∀ {fuel : ℕ} {stack out : List α},
    explore exhausted visit fuel stack = .ok out →
      (∀ a ∈ stack, a ∈ out) ∧ ∀ a ∈ out, ∃ next, visit a = .ok next ∧ ∀ b ∈ next, b ∈ out
  | fuel, [], out, h => by
    rw [explore_nil] at h
    cases h
    simp
  | 0, a :: stack, out, h => by cases h
  | fuel + 1, a :: stack, out, h => by
    obtain ⟨_, next, rest, hfuel, hnext, hrest, rfl⟩ := explore_cons h
    obtain rfl : fuel = _ := Nat.succ.inj hfuel
    obtain ⟨hstack, hclosed⟩ := explore_closed hrest
    refine ⟨fun b hb => ?_, fun b hb => ?_⟩
    · rcases List.mem_cons.mp hb with rfl | hb
      · exact List.mem_cons_self
      · exact List.mem_cons_of_mem _ (hstack b (List.mem_append_right _ hb))
    · rcases List.mem_cons.mp hb with rfl | hb
      · refine ⟨next, hnext, fun c hc => List.mem_cons_of_mem _ (hstack c ?_)⟩
        exact List.mem_append_left _ (List.mem_reverse.mpr hc)
      · obtain ⟨next', hnext', hmem⟩ := hclosed b hb
        exact ⟨next', hnext', fun c hc => List.mem_cons_of_mem _ (hmem c hc)⟩

/-- **A property of the stack that every visit hands on holds of all that is
visited.** -/
theorem explore_reached {P : α → Prop} (hstep : ∀ a b, P a → LeadsTo visit a b → P b) :
    ∀ {fuel : ℕ} {stack out : List α}, explore exhausted visit fuel stack = .ok out →
      (∀ a ∈ stack, P a) → ∀ a ∈ out, P a
  | fuel, [], out, h, _ => by
    rw [explore_nil] at h
    cases h
    simp
  | 0, a :: stack, out, h, _ => by cases h
  | fuel + 1, a :: stack, out, h, hP => by
    obtain ⟨_, next, rest, hfuel, hnext, hrest, rfl⟩ := explore_cons h
    obtain rfl : fuel = _ := Nat.succ.inj hfuel
    have ha := hP a List.mem_cons_self
    have hrec := explore_reached hstep hrest fun b hb => by
      rcases List.mem_append.mp hb with hb | hb
      · exact hstep a b ha ⟨next, hnext, List.mem_reverse.mp hb⟩
      · exact hP b (List.mem_cons_of_mem _ hb)
    rintro b hb
    rcases List.mem_cons.mp hb with rfl | hb
    · exact ha
    · exact hrec b hb

/-- **Whatever is visited was on the stack or is what another visit led to.** -/
theorem explore_origin : ∀ {fuel : ℕ} {stack out : List α},
    explore exhausted visit fuel stack = .ok out →
      ∀ b ∈ out, b ∈ stack ∨ ∃ a ∈ out, LeadsTo visit a b
  | fuel, [], out, h => by
    rw [explore_nil] at h
    cases h
    simp
  | 0, a :: stack, out, h => by cases h
  | fuel + 1, a :: stack, out, h => by
    obtain ⟨_, next, rest, hfuel, hnext, hrest, rfl⟩ := explore_cons h
    obtain rfl : fuel = _ := Nat.succ.inj hfuel
    intro b hb
    rcases List.mem_cons.mp hb with rfl | hb
    · exact .inl List.mem_cons_self
    · rcases explore_origin hrest b hb with hb | ⟨c, hc, hlead⟩
      · rcases List.mem_append.mp hb with hb | hb
        · exact .inr ⟨a, List.mem_cons_self, next, hnext, List.mem_reverse.mp hb⟩
        · exact .inl (List.mem_cons_of_mem _ hb)
      · exact .inr ⟨c, List.mem_cons_of_mem _ hc, hlead⟩

/-- **Whatever is visited was on the stack or is what an earlier visit led to.** -/
theorem explore_order : ∀ {fuel : ℕ} {stack pre suf : List α} {b : α},
    explore exhausted visit fuel stack = .ok (pre ++ b :: suf) →
      b ∈ stack ∨ ∃ a ∈ pre, LeadsTo visit a b
  | fuel, [], pre, suf, b, h => by
    rw [explore_nil] at h
    exact absurd (Except.ok.inj h).symm (List.append_ne_nil_of_right_ne_nil pre (List.cons_ne_nil b suf))
  | 0, a :: stack, pre, suf, b, h => by cases h
  | fuel + 1, a :: stack, pre, suf, b, h => by
    obtain ⟨_, next, rest, hfuel, hnext, hrest, hout⟩ := explore_cons h
    obtain rfl : fuel = _ := Nat.succ.inj hfuel
    cases pre with
    | nil =>
      obtain ⟨rfl, -⟩ := List.cons.inj hout
      exact .inl List.mem_cons_self
    | cons c pre =>
      obtain ⟨rfl, rfl⟩ := List.cons.inj hout
      rcases explore_order hrest with hb | ⟨d, hd, hlead⟩
      · rcases List.mem_append.mp hb with hb | hb
        · exact .inr ⟨c, List.mem_cons_self, next, hnext, List.mem_reverse.mp hb⟩
        · exact .inl (List.mem_cons_of_mem _ hb)
      · exact .inr ⟨d, List.mem_cons_of_mem _ hd, hlead⟩

/-- What holds of each element and everything after it holds of the list pairwise. -/
theorem pairwise_of_splits {R : α → α → Prop} :
    ∀ {l : List α}, (∀ pre a suf, l = pre ++ a :: suf → ∀ b ∈ suf, R a b) → l.Pairwise R
  | [], _ => .nil
  | a :: l, h => by
    refine .cons (h [] a l rfl) (pairwise_of_splits fun pre b suf hl => h (a :: pre) b suf ?_)
    rw [hl]
    rfl

/-- **What every visit keeps of the nodes seen and the stack holds in the end.** -/
theorem explore_invariant (Inv : List α → List α → Prop)
    (hvisit : ∀ seen a stack next, Inv seen (a :: stack) → visit a = .ok next →
      Inv (a :: seen) (next.reverse ++ stack)) :
    ∀ {fuel : ℕ} {seen stack out : List α}, Inv seen stack →
      explore exhausted visit fuel stack = .ok out → Inv (out.reverse ++ seen) []
  | fuel, seen, [], out, hinv, h => by
    rw [explore_nil] at h
    obtain rfl := Except.ok.inj h
    exact hinv
  | 0, seen, a :: stack, out, _, h => by cases h
  | fuel + 1, seen, a :: stack, out, hinv, h => by
    obtain ⟨_, next, rest, hfuel, hnext, hrest, rfl⟩ := explore_cons h
    obtain rfl : fuel = _ := Nat.succ.inj hfuel
    rw [List.reverse_cons, List.append_assoc, List.singleton_append]
    exact explore_invariant Inv hvisit (hvisit _ _ _ _ hinv hnext) hrest

/-- **A search that carries more along visits the same.** -/
theorem explore_map {β ε' : Type} {exhausted' : ε'} {visit' : β → Except ε' (List β)} {f : β → α}
    {P : α → Prop}
    (hvisit : ∀ b next, P (f b) → visit (f b) = .ok next →
      ∃ next', visit' b = .ok next' ∧ next'.map f = next)
    (hstep : ∀ a b, P a → LeadsTo visit a b → P b) :
    ∀ {fuel : ℕ} {stack : List β} {out : List α}, (∀ b ∈ stack, P (f b)) →
      explore exhausted visit fuel (stack.map f) = .ok out →
        ∃ out', explore exhausted' visit' fuel stack = .ok out' ∧ out'.map f = out
  | fuel, [], out, _, h => by
    rw [List.map_nil, explore_nil] at h
    obtain rfl := Except.ok.inj h
    exact ⟨[], explore_nil fuel, rfl⟩
  | 0, b :: stack, out, _, h => by cases h
  | fuel + 1, b :: stack, out, hP, h => by
    obtain ⟨_, next, rest, hfuel, hnext, hrest, rfl⟩ := explore_cons h
    obtain rfl : fuel = _ := Nat.succ.inj hfuel
    have hb := hP b List.mem_cons_self
    obtain ⟨next', hnext', rfl⟩ := hvisit b next hb hnext
    rw [← List.map_reverse, ← List.map_append] at hrest
    have hP' : ∀ c ∈ next'.reverse ++ stack, P (f c) := by
      intro c hc
      rcases List.mem_append.mp hc with hc | hc
      · exact hstep _ _ hb ⟨_, hnext, List.mem_map_of_mem (List.mem_reverse.mp hc)⟩
      · exact hP c (List.mem_cons_of_mem _ hc)
    obtain ⟨rest', hrest', rfl⟩ := explore_map hvisit hstep hP' hrest
    exact ⟨b :: rest', by rw [explore, hnext', ok_bind, hrest', ok_bind]; rfl, rfl⟩

/-- **Two ways to visit that agree on all that is visited give one search.** -/
theorem explore_congr {visit' : α → Except ε (List α)} {P : α → Prop}
    (hvisit : ∀ a, P a → visit a = visit' a) (hstep : ∀ a b, P a → LeadsTo visit a b → P b) :
    ∀ {fuel : ℕ} {stack : List α}, (∀ a ∈ stack, P a) →
      explore exhausted visit fuel stack = explore exhausted visit' fuel stack
  | _, [], _ => by rw [explore_nil, explore_nil]
  | 0, _ :: _, _ => rfl
  | fuel + 1, a :: stack, hP => by
    have ha := hP a List.mem_cons_self
    rw [explore, explore, ← hvisit a ha]
    cases hnext : visit a with
    | error e => rfl
    | ok next =>
      have hrest : explore exhausted visit fuel (next.reverse ++ stack) =
          explore exhausted visit' fuel (next.reverse ++ stack) := by
        refine explore_congr hvisit hstep fun b hb => ?_
        rcases List.mem_append.mp hb with hb | hb
        · exact hstep a b ha ⟨next, hnext, List.mem_reverse.mp hb⟩
        · exact hP b (List.mem_cons_of_mem _ hb)
      rw [ok_bind, ok_bind, hrest]

/-- What a search visits does not depend on how much it may visit. -/
theorem explore_unique : ∀ {fuel fuel' : ℕ} {stack out out' : List α},
    explore exhausted visit fuel stack = .ok out → explore exhausted visit fuel' stack = .ok out' →
      out = out'
  | _, _, [], out, out', h, h' => by
    rw [explore_nil] at h h'
    rw [← Except.ok.inj h, ← Except.ok.inj h']
  | fuel, fuel', a :: stack, out, out', h, h' => by
    obtain ⟨k, next, rest, rfl, hnext, hrest, rfl⟩ := explore_cons h
    obtain ⟨k', next', rest', rfl, hnext', hrest', rfl⟩ := explore_cons h'
    rw [hnext] at hnext'
    obtain rfl := Except.ok.inj hnext'
    rw [explore_unique hrest hrest']

/-! ### Searches that cannot run out -/

/-- The state of a search that never repeats a key: of the nodes visited and
still on the stack, no two share a key, and every key is one of `keys`. -/
structure NoRepeat (key : α → κ) (keys : Finset κ) (seen stack : List α) : Prop where
  nodup : ((seen ++ stack).map key).Nodup
  keys : ∀ a ∈ seen ++ stack, key a ∈ keys

/-- **A search whose visits all succeed and never repeat a key returns**, when it
may visit as many nodes as there are keys left. -/
theorem explore_total [DecidableEq κ] {key : α → κ} {keys : Finset κ}
    (Inv : List α → List α → Prop)
    (hinv : ∀ seen stack, Inv seen stack → NoRepeat key keys seen stack)
    (hvisit : ∀ seen a stack, Inv seen (a :: stack) →
      ∃ next, visit a = .ok next ∧ Inv (a :: seen) (next.reverse ++ stack)) :
    ∀ {fuel : ℕ} {seen stack : List α}, Inv seen stack → keys.card ≤ fuel + seen.length →
      ∃ out, explore exhausted visit fuel stack = .ok out
  | fuel, seen, [], _, _ => ⟨[], explore_nil fuel⟩
  | 0, seen, a :: stack, h, hfuel => by
    -- every key is already taken by a visited node, so the stack is empty
    have hno := hinv _ _ h
    have hsub : ((seen ++ a :: stack).map key).toFinset ⊆ keys := by
      intro k hk
      obtain ⟨b, hb, rfl⟩ := List.mem_map.mp (List.mem_toFinset.mp hk)
      exact hno.keys b hb
    have hcard := Finset.card_le_card hsub
    rw [List.toFinset_card_of_nodup hno.nodup, List.length_map, List.length_append,
      List.length_cons] at hcard
    omega
  | fuel + 1, seen, a :: stack, h, hfuel => by
    obtain ⟨next, hnext, h'⟩ := hvisit seen a stack h
    have hfuel' : keys.card ≤ fuel + (a :: seen).length := by
      rw [List.length_cons]
      omega
    obtain ⟨rest, hrest⟩ := explore_total Inv hinv hvisit h' hfuel'
    exact ⟨a :: rest, by simp [explore, hnext, hrest, bind, Except.bind, pure, Except.pure]⟩

/-- What a search down parent links keeps: no key was met twice, and the parent of whatever
was met was visited. -/
structure Descending (parent : κ → Option κ) (key : α → κ) (keys : Finset κ)
    (seen stack : List α) : Prop where
  noRepeat : NoRepeat key keys seen stack
  parents : ∀ a ∈ seen ++ stack, ∀ p, parent (key a) = some p → p ∈ seen.map key

/-- The children of a node are new to a search down parent links. -/
theorem Descending.step {parent : κ → Option κ} {key : α → κ} {keys : Finset κ}
    {seen stack next : List α} {a : α} (h : Descending parent key keys seen (a :: stack))
    (hnodup : (next.map key).Nodup) (hkeys : ∀ b ∈ next, key b ∈ keys)
    (hparent : ∀ b ∈ next, parent (key b) = some (key a)) :
    Descending parent key keys (a :: seen) (next.reverse ++ stack) := by
  have hperm : (a :: seen ++ (next.reverse ++ stack)).Perm (next ++ (seen ++ a :: stack)) := by
    have hshift : (a :: seen ++ (next.reverse ++ stack)).Perm (next.reverse ++ (a :: seen ++ stack)) := by
      rw [← List.append_assoc, ← List.append_assoc]
      exact List.perm_append_comm.append_right stack
    exact hshift.trans (next.reverse_perm.append List.perm_middle.symm)
  have hnew : ∀ b ∈ next, key b ∉ (seen ++ a :: stack).map key := by
    intro b hb hmet
    obtain ⟨c, hc, hsame⟩ := List.mem_map.mp hmet
    have hseen := h.parents c hc (key a) (hsame ▸ hparent b hb)
    have hapart := List.disjoint_of_nodup_append (List.map_append ▸ h.noRepeat.nodup)
    exact hapart hseen (List.mem_map_of_mem List.mem_cons_self)
  constructor
  case noRepeat =>
    constructor
    case nodup =>
      rw [(hperm.map key).nodup_iff, List.map_append, List.nodup_append]
      refine ⟨hnodup, h.noRepeat.nodup, ?_⟩
      rintro k hk _ hmet rfl
      obtain ⟨b, hb, rfl⟩ := List.mem_map.mp hk
      exact hnew b hb hmet
    case keys =>
      intro b hb
      rcases List.mem_append.mp (hperm.mem_iff.mp hb) with hb | hb
      · exact hkeys b hb
      · exact h.noRepeat.keys b hb
  case parents =>
    intro b hb p hp
    rcases List.mem_append.mp (hperm.mem_iff.mp hb) with hb | hb
    · obtain rfl := Option.some.inj ((hparent b hb).symm.trans hp)
      exact List.mem_cons_self
    · exact List.mem_cons_of_mem _ (h.parents b hb p hp)

end Explore

end Foundations
