import Mathlib.Data.Finset.Card
import KdxHotline.Foundations.Explore
import KdxHotline.Foundations.Table

/-!
# Rows that refer to rows

A table with a column that refers to other rows of it. When rows are deleted, so are those that
refer to them, those that refer to these, and so on: `Foundations.Falls` is the relation, and
`Foundations.cascade` deletes in rounds (`Foundations.cascade_eq`). A database may give up after so
many rounds: `Foundations.nestsBeyond`, which is so if a row falls in a later one
(`Foundations.nestsBeyond_iff`). A recursive query collects the rows that refer to a key, directly
or not: `Foundations.subtree`.

The query returns if no row refers to itself in the end (`Foundations.subtree_total`). That is so
for a table to which rows are added after those they refer to, and from which they are deleted in
cascades: `Foundations.Grown`.
-/

namespace Foundations

variable {ρ κ : Type} (key : ρ → κ) (parent : ρ → Option κ)

/-- The rows that are meant, and with each row those that refer to it. -/
inductive Falls (rows : List ρ) (meant : ρ → Prop) : ρ → Prop
  | meant {r : ρ} (hr : r ∈ rows) (h : meant r) : Falls rows meant r
  | refers {s r : ρ} (hs : Falls rows meant s) (hr : r ∈ rows) (h : parent r = some (key s)) :
      Falls rows meant r

variable {key parent} {rows kept : List ρ} {meant meant' : ρ → Prop} {r : ρ} {k : κ}

theorem Falls.mem (h : Falls key parent rows meant r) : r ∈ rows := by
  cases h with
  | meant hr => exact hr
  | refers _ hr => exact hr

/-- What falls with rows that fall falls. -/
theorem Falls.trans (h : Falls key parent kept meant' r) (hsub : ∀ r ∈ kept, r ∈ rows)
    (hmeant : ∀ r ∈ kept, meant' r → Falls key parent rows meant r) : Falls key parent rows meant r := by
  induction h with
  | meant hr hm => exact hmeant _ hr hm
  | refers _ hr hparent ih => exact .refers ih (hsub _ hr) hparent

/-- If anything falls then something was meant. -/
theorem Falls.exists_meant (h : Falls key parent rows meant r) : ∃ s ∈ rows, meant s := by
  induction h with
  | meant hr hm => exact ⟨_, hr, hm⟩
  | refers _ _ _ ih => exact ih

/-- The rows that fall in the round of this number, the first one being that of the rows that are
meant. -/
inductive FallsAt (key : ρ → κ) (parent : ρ → Option κ) (rows : List ρ) (meant : ρ → Prop) :
    ℕ → ρ → Prop
  | meant {r : ρ} (hr : r ∈ rows) (h : meant r) : FallsAt key parent rows meant 0 r
  | refers {n : ℕ} {s r : ρ} (hs : FallsAt key parent rows meant n s) (hr : r ∈ rows)
      (h : parent r = some (key s)) : FallsAt key parent rows meant (n + 1) r

theorem FallsAt.falls {n : ℕ} (h : FallsAt key parent rows meant n r) :
    Falls key parent rows meant r := by
  induction h with
  | meant hr hm => exact .meant hr hm
  | refers _ hr hparent ih => exact .refers ih hr hparent

/-! ### Deleting in rounds -/

section Cascade

variable [DecidableEq κ] {p : ρ → Bool} {fuel : ℕ}

/-- Does a row refer to one of these? -/
def refersTo (key : ρ → κ) (parent : ρ → Option κ) (gone : List ρ) (r : ρ) : Bool :=
  (parent r).any fun k => decide (k ∈ gone.map key)

/-- Delete rows, then those that refer to them, and so on. -/
def cascade (key : ρ → κ) (parent : ρ → Option κ) : ℕ → (ρ → Bool) → List ρ → List ρ
  | 0, _, rows => rows
  | fuel + 1, p, rows =>
    if rows.any p then
      cascade key parent fuel (refersTo key parent (rows.filter p)) (rows.filter fun r => !p r)
    else rows

theorem refersTo_eq_true {gone : List ρ} :
    refersTo key parent gone r = true ↔ ∃ s ∈ gone, parent r = some (key s) := by
  rw [refersTo, Option.any_eq_true]
  constructor
  · rintro ⟨k, hk, hmem⟩
    obtain ⟨s, hs, rfl⟩ := List.mem_map.mp (of_decide_eq_true hmem)
    exact ⟨s, hs, hk⟩
  · rintro ⟨s, hs, hk⟩
    exact ⟨key s, hk, decide_eq_true (List.mem_map_of_mem hs)⟩

/-- What falls is meant, or falls in the rounds that follow. -/
theorem falls_round (hr : r ∈ rows) : Falls key parent rows (p · = true) r ↔ p r = true ∨
    Falls key parent (rows.filter fun r => !p r)
      (refersTo key parent (rows.filter p) · = true) r := by
  constructor
  · intro h
    have hkept {s : ρ} (hs : s ∈ rows) (hnot : ¬p s = true) : s ∈ rows.filter fun r => !p r :=
      List.mem_filter.mpr ⟨hs, by simpa using hnot⟩
    induction h with
    | meant _ hm => exact .inl hm
    | @refers s r hs hr' hparent ih =>
      refine or_iff_not_imp_left.mpr fun hnot => ?_
      rcases ih hs.mem with hmeant | hfalls
      · refine .meant (hkept hr' hnot) (refersTo_eq_true.mpr ⟨s, ?_, hparent⟩)
        exact List.mem_filter.mpr ⟨hs.mem, hmeant⟩
      · exact .refers hfalls (hkept hr' hnot) hparent
  · rintro (hm | h)
    · exact .meant hr hm
    · refine h.trans (fun s hs => (List.mem_filter.mp hs).1) fun s hs hm => ?_
      obtain ⟨t, ht, hparent⟩ := refersTo_eq_true.mp hm
      obtain ⟨htrows, htmeant⟩ := List.mem_filter.mp ht
      exact .refers (.meant htrows htmeant) (List.mem_filter.mp hs).1 hparent

open Classical in
/-- **A cascade deletes what falls, and nothing else.** -/
theorem cascade_eq (h : rows.length ≤ fuel) : cascade key parent fuel p rows =
    rows.filter fun r => !decide (Falls key parent rows (p · = true) r) := by
  induction fuel generalizing p rows with
  | zero =>
    rw [List.eq_nil_of_length_eq_zero (Nat.le_zero.mp h)]
    rfl
  | succ fuel ih =>
    rw [cascade]
    split
    case isTrue hany =>
      have hfewer : (rows.filter fun r => !p r).length ≤ fuel := by
        obtain ⟨r, hr, hp⟩ := List.any_eq_true.mp hany
        have hlt : (rows.filter fun r => !p r).length < rows.length :=
          List.length_filter_lt_length_iff_exists.mpr ⟨r, hr, by simpa using hp⟩
        omega
      rw [ih hfewer, List.filter_filter]
      refine List.filter_congr fun r hr => ?_
      rw [decide_eq_decide.mpr (falls_round hr)]
      rw [Bool.decide_or, Bool.not_or, Bool.decide_eq_true, Bool.and_comm]
    case isFalse hnone =>
      refine (List.filter_eq_self.mpr fun r _ => ?_).symm
      rw [Bool.not_eq_true', decide_eq_false_iff_not]
      intro hfalls
      obtain ⟨s, hs, hm⟩ := hfalls.exists_meant
      exact hnone (List.any_eq_true.mpr ⟨s, hs, hm⟩)

theorem mem_cascade (h : rows.length ≤ fuel) : r ∈ cascade key parent fuel p rows ↔
    r ∈ rows ∧ ¬Falls key parent rows (p · = true) r := by
  classical
  rw [cascade_eq h, List.mem_filter, Bool.not_eq_true', decide_eq_false_iff_not]

theorem cascade_sublist (h : rows.length ≤ fuel) : (cascade key parent fuel p rows).Sublist rows := by
  classical
  rw [cascade_eq h]
  exact List.filter_sublist

/-! ### How deep a cascade goes -/

/-- Is there anything left to delete after so many rounds? -/
def nestsBeyond (key : ρ → κ) (parent : ρ → Option κ) : ℕ → (ρ → Bool) → List ρ → Bool
  | 0, p, rows => rows.any p
  | n + 1, p, rows =>
    nestsBeyond key parent n (refersTo key parent (rows.filter p)) (rows.filter fun r => !p r)

variable {n : ℕ}

/-- What falls in the rounds that follow falls one round later. -/
theorem FallsAt.later (h : FallsAt key parent (rows.filter fun r => !p r)
      (refersTo key parent (rows.filter p) · = true) n r) :
    FallsAt key parent rows (p · = true) (n + 1) r := by
  induction h with
  | meant hr hm =>
    obtain ⟨s, hs, hparent⟩ := refersTo_eq_true.mp hm
    obtain ⟨hmem, hmeant⟩ := List.mem_filter.mp hs
    exact .refers (.meant hmem hmeant) (List.mem_filter.mp hr).1 hparent
  | refers _ hr hparent ih => exact .refers ih (List.mem_filter.mp hr).1 hparent

/-- No row that is meant refers to a row that falls. -/
def Apart (key : ρ → κ) (parent : ρ → Option κ) (rows : List ρ) (meant : ρ → Prop) : Prop :=
  ∀ r ∈ rows, meant r → ∀ s, Falls key parent rows meant s → parent r ≠ some (key s)

/-- What falls after the first round falls one round earlier in the rounds that follow. -/
theorem FallsAt.earlier (hapart : Apart key parent rows (p · = true))
    (h : FallsAt key parent rows (p · = true) (n + 1) r) :
    FallsAt key parent (rows.filter fun r => !p r)
      (refersTo key parent (rows.filter p) · = true) n r := by
  have hkept {s t : ρ} (hs : Falls key parent rows (p · = true) s) (ht : t ∈ rows)
      (hparent : parent t = some (key s)) : t ∈ rows.filter fun r => !p r := by
    refine List.mem_filter.mpr ⟨ht, ?_⟩
    rw [Bool.not_eq_true', Bool.eq_false_iff]
    exact fun hmeant => hapart t ht hmeant s hs hparent
  induction n generalizing r with
  | zero =>
    obtain _ | ⟨hs, hr, hparent⟩ := h
    refine .meant (hkept hs.falls hr hparent) (refersTo_eq_true.mpr ⟨_, ?_, hparent⟩)
    obtain ⟨hmem, hmeant⟩ := hs
    exact List.mem_filter.mpr ⟨hmem, hmeant⟩
  | succ n ih =>
    obtain _ | ⟨hs, hr, hparent⟩ := h
    exact .refers (ih hs) (hkept hs.falls hr hparent) hparent

/-- The rounds that follow begin with rows that refer to none that falls in them. -/
theorem Apart.next (hunique : UniqueKey key rows) :
    Apart key parent (rows.filter fun r => !p r)
      (refersTo key parent (rows.filter p) · = true) := by
  intro r _ hr s hs hparent
  obtain ⟨t, ht, hrefers⟩ := refersTo_eq_true.mp hr
  obtain ⟨hmem, hmeant⟩ := List.mem_filter.mp ht
  obtain ⟨hs, hnot⟩ := List.mem_filter.mp hs.mem
  rw [hunique.eq hs hmem (Option.some.inj (hparent.symm.trans hrefers)), hmeant] at hnot
  cases hnot

/-- **A cascade goes beyond so many rounds just when a row falls in the next one.** -/
theorem nestsBeyond_iff (hunique : UniqueKey key rows)
    (hapart : Apart key parent rows (p · = true)) :
    nestsBeyond key parent n p rows = true ↔ ∃ r, FallsAt key parent rows (p · = true) n r := by
  induction n generalizing p rows with
  | zero =>
    rw [nestsBeyond, List.any_eq_true]
    constructor
    · rintro ⟨r, hr, hm⟩
      exact ⟨r, .meant hr hm⟩
    · rintro ⟨r, ⟨hr, hm⟩⟩
      exact ⟨r, hr, hm⟩
  | succ n ih =>
    rw [nestsBeyond, ih (hunique.filter _) (Apart.next hunique)]
    exact ⟨fun ⟨r, hr⟩ => ⟨r, hr.later⟩, fun ⟨r, hr⟩ => ⟨r, hr.earlier hapart⟩⟩

end Cascade

/-! ### Collecting what refers to a key -/

section Subtree

variable [DecidableEq κ] {ids : List κ} {x : κ}

/-- The keys of the rows that refer to a key. -/
def referring (key : ρ → κ) (parent : ρ → Option κ) (rows : List ρ) (k : κ) : List κ :=
  (rows.filter fun r => parent r = some k).map key

/-- The keys of the rows that refer to a key, and of those that refer to them, and so on. -/
def subtree (key : ρ → κ) (parent : ρ → Option κ) (rows : List ρ) (k : κ) : Except Unit (List κ) :=
  explore () (fun k => .ok (referring key parent rows k)) rows.length (referring key parent rows k)

theorem mem_referring : x ∈ referring key parent rows k ↔
    ∃ r ∈ rows, parent r = some k ∧ key r = x := by
  simp [referring, and_assoc]

/-- **The query collects what refers to the key, directly or not.** -/
theorem mem_subtree (h : subtree key parent rows k = .ok ids) :
    x ∈ ids ↔ ∃ r, Falls key parent rows (parent · = some k) r ∧ key r = x := by
  constructor
  · refine explore_reached (P := fun x => ∃ r, Falls key parent rows (parent · = some k) r ∧ key r = x)
      ?_ h ?_ x
    · rintro _ b ⟨r, hr, rfl⟩ ⟨next, hnext, hb⟩
      obtain rfl := Except.ok.inj hnext
      obtain ⟨r', hr', hparent, rfl⟩ := mem_referring.mp hb
      exact ⟨r', .refers hr hr' hparent, rfl⟩
    · intro a ha
      obtain ⟨r, hr, hparent, rfl⟩ := mem_referring.mp ha
      exact ⟨r, .meant hr hparent, rfl⟩
  · rintro ⟨r, hr, rfl⟩
    obtain ⟨hstack, hclosed⟩ := explore_closed h
    induction hr with
    | meant hr hm => exact hstack _ (mem_referring.mpr ⟨_, hr, hm, rfl⟩)
    | refers _ hr hparent ih =>
      obtain ⟨next, hnext, hmem⟩ := hclosed _ ih
      obtain rfl := Except.ok.inj hnext
      exact hmem _ (mem_referring.mpr ⟨_, hr, hparent, rfl⟩)

/-- What the query keeps: it goes down parent links, from rows that fall. -/
structure Collected (key : ρ → κ) (parent : ρ → Option κ) (rows : List ρ) (k : κ) (keys : Finset κ)
    (seen stack : List κ) : Prop where
  descending : Descending (fun x => if x = k then none else (rows.find? (key · = x)).bind parent)
    id keys seen stack
  falls : ∀ x ∈ seen ++ stack, x = k ∨ ∃ r, Falls key parent rows (parent · = some k) r ∧ key r = x

/-- The rows that refer to what was met are new. -/
theorem Collected.step (hunique : UniqueKey key rows)
    (hacyclic : ∀ r, Falls key parent rows (parent · = some k) r → key r ≠ k) {keys : Finset κ}
    (hkeys : ∀ r ∈ rows, key r ∈ keys) {a : κ} {seen stack : List κ}
    (h : Collected key parent rows k keys seen (a :: stack)) {next : List κ}
    (hnext : next.Perm (referring key parent rows a)) :
    Collected key parent rows k keys (a :: seen) (next.reverse ++ stack) := by
  have hbelow {b : κ} (hb : b ∈ next) :
      ∃ r, Falls key parent rows (parent · = some k) r ∧ parent r = some a ∧ key r = b := by
    obtain ⟨r, hr, hparent, rfl⟩ := mem_referring.mp (hnext.mem_iff.mp hb)
    rcases h.falls a (List.mem_append_right _ List.mem_cons_self) with rfl | ⟨s, hs, rfl⟩
    · exact ⟨r, .meant hr hparent, hparent, rfl⟩
    · exact ⟨r, .refers hs hr hparent, hparent, rfl⟩
  constructor
  case descending =>
    refine h.descending.step ?_ ?_ ?_
    · rw [List.map_id, hnext.nodup_iff]
      exact hunique.filter _
    · intro b hb
      obtain ⟨r, hr, -, rfl⟩ := hbelow hb
      exact hkeys r hr.mem
    · intro b hb
      obtain ⟨r, hr, hparent, rfl⟩ := hbelow hb
      have hfind : rows.find? (key · = key r) = some r := by
        cases hfound : rows.find? (key · = key r) with
        | none => simpa using List.find?_eq_none.mp hfound r hr.mem
        | some r' =>
          have hkey : key r' = key r := by simpa using List.find?_some hfound
          rw [hunique.eq (List.mem_of_find?_eq_some hfound) hr.mem hkey]
      rw [id_eq, if_neg (hacyclic r hr), hfind]
      exact hparent
  case falls =>
    intro x hx
    rcases List.mem_append.mp hx with hx | hx
    · rcases List.mem_cons.mp hx with rfl | hx
      · exact h.falls x (List.mem_append_right _ List.mem_cons_self)
      · exact h.falls x (List.mem_append_left _ hx)
    · rcases List.mem_append.mp hx with hx | hx
      · obtain ⟨r, hr, -, rfl⟩ := hbelow (List.mem_reverse.mp hx)
        exact .inr ⟨r, hr, rfl⟩
      · exact h.falls x (List.mem_append_right _ (List.mem_cons_of_mem _ hx))

/-- **The query returns**, if no row that refers to the key has it. -/
theorem subtree_total (hunique : UniqueKey key rows)
    (hacyclic : ∀ r, Falls key parent rows (parent · = some k) r → key r ≠ k) :
    ∃ ids, subtree key parent rows k = .ok ids := by
  classical
  have hkeys : ∀ r ∈ rows, key r ∈ insert k (rows.map key).toFinset := fun r hr =>
    Finset.mem_insert_of_mem (List.mem_toFinset.mpr (List.mem_map_of_mem hr))
  have hstart : Collected key parent rows k (insert k (rows.map key).toFinset) [] [k] := by
    refine ⟨⟨⟨List.nodup_singleton _, ?_⟩, ?_⟩, ?_⟩
    · intro x hx
      rw [List.mem_singleton.mp hx]
      exact Finset.mem_insert_self _ _
    · intro x hx p hp
      rw [List.mem_singleton.mp hx, id_eq, if_pos rfl] at hp
      cases hp
    · exact fun x hx => .inl (List.mem_singleton.mp hx)
  have hfirst := hstart.step hunique hacyclic hkeys (List.reverse_perm (referring key parent rows k))
  rw [List.reverse_reverse, List.append_nil] at hfirst
  refine explore_total (Collected key parent rows k (insert k (rows.map key).toFinset))
    (fun seen stack h => h.descending.noRepeat)
    (fun seen a stack h => ⟨_, rfl, h.step hunique hacyclic hkeys (.refl _)⟩) hfirst ?_
  calc (insert k (rows.map key).toFinset).card
      ≤ (rows.map key).toFinset.card + 1 := Finset.card_insert_le _ _
    _ ≤ rows.length + 1 := by
      have hle := List.toFinset_card_le (rows.map key)
      rw [List.length_map] at hle
      omega

end Subtree

/-! ### Tables that grow -/

/-- A table to which rows were added with a new key, and after a row of the key they refer to that
fits them. -/
inductive Grown (key : ρ → κ) (parent : ρ → Option κ) (fits : ρ → ρ → Prop) : List ρ → Prop
  | nil : Grown key parent fits []
  | add {rows : List ρ} {r : ρ} (h : Grown key parent fits rows) (hkey : ∀ s ∈ rows, key s ≠ key r)
      (hparent : ∀ k, parent r = some k → ∃ s ∈ rows, key s = k ∧ fits s r) :
      Grown key parent fits (rows ++ [r])

namespace Grown

variable {fits : ρ → ρ → Prop}

theorem uniqueKey (h : Grown key parent fits rows) : UniqueKey key rows := by
  induction h with
  | nil => exact uniqueKey_nil key
  | add _ hkey _ ih => exact ih.append hkey

/-- A row that refers to a key refers to a row that fits it. -/
theorem exists_parent (h : Grown key parent fits rows) (hr : r ∈ rows) (hk : parent r = some k) :
    ∃ s ∈ rows, key s = k ∧ fits s r := by
  induction h with
  | nil => cases hr
  | @add rows r' _ _ hparent ih =>
    rcases List.mem_append.mp hr with hr | hr
    · obtain ⟨s, hs, hfits⟩ := ih hr
      exact ⟨s, List.mem_append_left _ hs, hfits⟩
    · obtain rfl := List.mem_singleton.mp hr
      obtain ⟨s, hs, hfits⟩ := hparent k hk
      exact ⟨s, List.mem_append_left _ hs, hfits⟩

/-- No row refers to the row that was added last. -/
theorem not_falls_last (h : Grown key parent fits rows) (hkey : ∀ s ∈ rows, key s ≠ key r)
    (hparent : ∀ k, parent r = some k → ∃ s ∈ rows, key s = k ∧ fits s r) {s : ρ} :
    ¬Falls key parent (rows ++ [r]) (parent · = some (key r)) s := by
  intro hfalls
  obtain ⟨t, ht, hrefers⟩ := hfalls.exists_meant
  obtain ⟨u, hu, hku, -⟩ : ∃ u ∈ rows, key u = key r ∧ fits u t := by
    rcases List.mem_append.mp ht with ht | ht
    · exact h.exists_parent ht hrefers
    · obtain rfl := List.mem_singleton.mp ht
      exact hparent _ hrefers
  exact hkey u hu hku

/-- **No row refers to itself in the end.** -/
theorem acyclic (h : Grown key parent fits rows) (hr : Falls key parent rows (parent · = some k) r) :
    key r ≠ k := by
  induction h generalizing r k with
  | nil => cases hr.mem
  | @add rows last hgrown hkey hparent ih =>
    rintro rfl
    -- nothing falls with the last row, so what falls otherwise fell before it was added
    have hold {s : ρ} (hs : Falls key parent (rows ++ [last]) (parent · = some (key r)) s)
        (hmem : s ∈ rows) : Falls key parent rows (parent · = some (key r)) s := by
      induction hs with
      | meant _ hm => exact .meant hmem hm
      | @refers t s ht _ hrefers ih =>
        refine .refers (ih ?_) hmem hrefers
        rcases List.mem_append.mp ht.mem with htmem | htmem
        · exact htmem
        · obtain rfl := List.mem_singleton.mp htmem
          obtain ⟨u, hu, hku, -⟩ := hgrown.exists_parent hmem hrefers
          exact absurd hku (hkey u hu)
    rcases List.mem_append.mp hr.mem with hmem | hmem
    · exact ih (hold hr hmem) rfl
    · obtain rfl := List.mem_singleton.mp hmem
      exact hgrown.not_falls_last hkey hparent hr

/-- Rows may be deleted, if with each row those that refer to it are. -/
theorem filter (h : Grown key parent fits rows) {p : ρ → Bool}
    (hclosed : ∀ s ∈ rows, ∀ r ∈ rows, p r = true → parent r = some (key s) → p s = true) :
    Grown key parent fits (rows.filter p) := by
  induction h with
  | nil => exact .nil
  | @add rows last _ hkey hparent ih =>
    have hrest := ih fun s hs r hr =>
      hclosed s (List.mem_append_left _ hs) r (List.mem_append_left _ hr)
    rw [List.filter_append]
    cases hp : p last with
    | false => simpa [hp] using hrest
    | true =>
      rw [List.filter_cons_of_pos hp, List.filter_nil]
      refine hrest.add (fun s hs => hkey s (List.mem_filter.mp hs).1) fun k hk => ?_
      obtain ⟨s, hs, rfl, hfits⟩ := hparent k hk
      refine ⟨s, List.mem_filter.mpr ⟨hs, ?_⟩, rfl, hfits⟩
      exact hclosed s (List.mem_append_left _ hs) last
        (List.mem_append_right _ (List.mem_singleton_self _)) hp hk

/-- **A cascade leaves a table as it grows.** -/
theorem cascade [DecidableEq κ] {p : ρ → Bool} {fuel : ℕ} (h : Grown key parent fits rows)
    (hfuel : rows.length ≤ fuel) : Grown key parent fits (cascade key parent fuel p rows) := by
  classical
  rw [cascade_eq hfuel]
  refine h.filter fun s hs r hr hkept hrefers => ?_
  rw [Bool.not_eq_true', decide_eq_false_iff_not] at hkept ⊢
  exact fun hfalls => hkept (.refers hfalls hr hrefers)

end Grown

end Foundations
