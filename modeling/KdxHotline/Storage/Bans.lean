import KdxHotline.Storage.Accounts

/-!
# Bans and their ranks

A ban records who set it and at which class. Setting one over another that is in
force decides each column by itself (`KdxHotline.Storage.Bans.merge`): a higher
class, or the same banner at no lower class, replaces the expiry outright, and
anybody else can only extend it. Both statements sweep the lapsed bans first, so
that a lapsed ban never constrains a new one.

`KdxHotline.Storage.Bans.returns_setRanked` and
`KdxHotline.Storage.Bans.returns_removeIf` say what the two leave in the tables.
-/

namespace KdxHotline

namespace Storage

open Foundations

namespace Bans

/-- Whether the banner of `new` may replace `old` outright. -/
def replaces (new old : BanRow) : Bool :=
  decide (old.bannedByClass < new.bannedByClass) ||
    (new.bannedBy == old.bannedBy && decide (old.bannedByClass ≤ new.bannedByClass))

/-- The row that setting `new` over `old` leaves: the `ON CONFLICT` clause, column
by column. -/
def merge (old new : BanRow) : BanRow where
  accountId := old.accountId
  until_ := if replaces new old then new.until_ else max old.until_ new.until_
  reason := if replaces new old || decide (old.until_ < new.until_) then new.reason else old.reason
  bannedBy := if old.bannedByClass < new.bannedByClass then new.bannedBy else old.bannedBy
  bannedByClass := max old.bannedByClass new.bannedByClass

/-- Insert a ban, or merge it into the one that is there. -/
def upsert (db : AccountTables) (new : BanRow)
    (haccount : new.accountId ∈ db.accounts.map AccountRow.id) : AccountTables :=
  if h : ∃ b ∈ db.bans, b.accountId = new.accountId then
    { db with
      bans := setWhere (fun b => b.accountId = new.accountId) (fun b => merge b new) db.bans
      bans_pk := db.bans_pk.setWhere_same fun _ => rfl
      bans_account := fun b hb => by
        obtain ⟨c, hc, rfl⟩ := mem_setWhere.mp hb
        split
        · exact db.bans_account c hc
        · exact db.bans_account c hc }
  else
    { db with
      bans := db.bans ++ [new]
      bans_pk := db.bans_pk.append fun b hb he => h ⟨b, hb, he⟩
      bans_account := fun b hb => by
        rcases List.mem_append.mp hb with hb | hb
        · exact db.bans_account b hb
        · rw [List.mem_singleton.mp hb]
          exact haccount }

/-- The ban on an account, lapsed or not. -/
def banOf (db : AccountTables) (accountId : String) : Option BanRow :=
  db.bans.find? fun b => b.accountId = accountId

/-- Record a ban set by an account of a class, without letting a lower rank undo a
higher rank's ban, in one transaction. Returns the expiry now in force. -/
def setRanked (accountId : String) (until_ : ℤ) (reason bannedBy : String) (bannedByClass now : ℤ) :
    Fallible AccountPool StorageError ℤ :=
  transaction do
    statement fun db => .ok ((), keep db fun b => now < b.until_)
    statement fun db =>
      if h : accountId ∈ db.accounts.map AccountRow.id then
        let new : BanRow := ⟨accountId, until_, reason, bannedBy, bannedByClass⟩
        let db' := upsert db new h
        .ok (((banOf db' accountId).map BanRow.until_).getD 0, db')
      else .error .foreignKey

/-! ### What the tables hold afterwards -/

section Tables

variable {db : AccountTables} {accountId : String}

/-- The ban of an account is the row of its id. -/
theorem banOf_eq_some {b : BanRow} :
    banOf db accountId = some b ↔ b ∈ db.bans ∧ b.accountId = accountId := by
  constructor
  · intro h
    exact ⟨List.mem_of_find?_eq_some h, by simpa using List.find?_some h⟩
  · rintro ⟨hb, rfl⟩
    cases h : banOf db b.accountId with
    | none =>
      have hnone := List.find?_eq_none.mp h b hb
      simp at hnone
    | some c =>
      have hid : c.accountId = b.accountId := by simpa using List.find?_some h
      rw [db.bans_pk.eq (List.mem_of_find?_eq_some h) hb hid]

/-- A selection that depends on the ban keeps the account's ban or drops it. -/
theorem banOf_keep (p : BanRow → Bool) :
    banOf (keep db p) accountId = (banOf db accountId).filter p := by
  ext b
  rw [banOf_eq_some, Option.filter_eq_some_iff, banOf_eq_some, keep]
  simp only [List.mem_filter]
  exact and_right_comm

/-- **Setting a ban merges it into the account's, or is the account's first**, and
leaves every other account's alone. -/
theorem banOf_upsert {new : BanRow} (h : new.accountId ∈ db.accounts.map AccountRow.id) :
    banOf (upsert db new h) accountId
      = if new.accountId = accountId then
          some (((banOf db accountId).map fun old => merge old new).getD new)
        else banOf db accountId := by
  by_cases hbanned : ∃ b ∈ db.bans, b.accountId = new.accountId
  · rw [upsert, dif_pos hbanned]
    obtain ⟨old, hold, hid⟩ := hbanned
    split
    case isTrue he =>
      have hfound : banOf db accountId = some old := banOf_eq_some.mpr ⟨hold, hid.trans he⟩
      rw [hfound]
      exact banOf_eq_some.mpr
        ⟨mem_setWhere.mpr ⟨old, hold, if_pos (decide_eq_true hid)⟩, hid.trans he⟩
    case isFalse hne =>
      ext b
      rw [banOf_eq_some, banOf_eq_some, mem_setWhere]
      constructor
      · rintro ⟨⟨c, hc, rfl⟩, hb⟩
        by_cases hsel : c.accountId = new.accountId
        · rw [if_pos (decide_eq_true hsel)] at hb
          exact absurd (hsel.symm.trans hb) hne
        · rw [if_neg (by simpa using hsel)] at hb ⊢
          exact ⟨hc, hb⟩
      · rintro ⟨hb, rfl⟩
        exact ⟨⟨b, hb, if_neg (by simpa using fun he => hne he.symm)⟩, rfl⟩
  · rw [upsert, dif_neg hbanned]
    split
    case isTrue he =>
      have hnone : banOf db accountId = none := by
        refine List.find?_eq_none.mpr fun b hb hb' => hbanned ⟨b, hb, ?_⟩
        rw [he]
        simpa using hb'
      rw [hnone]
      exact banOf_eq_some.mpr ⟨List.mem_append_right _ List.mem_cons_self, he⟩
    case isFalse hne =>
      ext b
      rw [banOf_eq_some, banOf_eq_some, List.mem_append, List.mem_singleton]
      constructor
      · rintro ⟨hb | rfl, hid⟩
        · exact ⟨hb, hid⟩
        · exact absurd hid hne
      · rintro ⟨hb, hid⟩
        exact ⟨.inl hb, hid⟩

end Tables

/-! ### The two statements -/

section Statements

variable {p q : AccountPool} {accountId other : String} {now : ℤ}

/-- The ban on an account that is in force at a time. -/
def inForce (db : AccountTables) (accountId : String) (now : ℤ) : Option BanRow :=
  (banOf db accountId).filter fun b => now < b.until_

theorem inForce_eq_some {db : AccountTables} {b : BanRow} :
    inForce db accountId now = some b ↔ banOf db accountId = some b ∧ now < b.until_ := by
  rw [inForce, Option.filter_eq_some_iff, decide_eq_true_eq]

/-- Deleting one account's bans takes away that account's only. -/
theorem inForce_filter {db : AccountTables} :
    (inForce db other now).filter (fun b => b.accountId ≠ accountId)
      = if accountId = other then none else inForce db other now := by
  cases hforce : inForce db other now with
  | none => simp
  | some b =>
    have hid := (banOf_eq_some.mp (inForce_eq_some.mp hforce).1).2
    rw [Option.filter_some, hid]
    by_cases h : accountId = other
    · simp [h]
    · simp [h, Ne.symm h]

/-- The accounts and their roles, which no statement on bans touches. -/
def privilegeTables (db : AccountTables) : List AccountRow × List RoleRow × List (String × String) :=
  (db.accounts, db.roles, db.accountRoles)

/-- **A ban that was set is merged into the one in force.** -/
theorem returns_setRanked {until_ effective : ℤ} {reason bannedBy : String} {bannedByClass : ℤ}
    (h : Returns (setRanked accountId until_ reason bannedBy bannedByClass now) p effective q) :
    banOf q.db other
      = if accountId = other then
          some (((inForce p.db other now).map fun old =>
            merge old ⟨accountId, until_, reason, bannedBy, bannedByClass⟩).getD
              ⟨accountId, until_, reason, bannedBy, bannedByClass⟩)
        else inForce p.db other now := by
  obtain ⟨r, hr, hq⟩ := returns_transaction h
  obtain ⟨_, p₁, h₁, h₂⟩ := returns_bind.mp hr
  obtain ⟨-, hdb₁⟩ := outcome_inj (returns_statement h₁)
  have hs := returns_statement h₂
  split at hs
  · obtain ⟨-, hdb₂⟩ := outcome_inj hs
    rw [hq, ← hdb₂, banOf_upsert, ← hdb₁, banOf_keep]
    rfl
  · cases hs

theorem upsert_privilegeTables {db : AccountTables} {new : BanRow}
    (h : new.accountId ∈ db.accounts.map AccountRow.id) :
    privilegeTables (upsert db new h) = privilegeTables db := by
  unfold upsert
  split <;> rfl

/-- Setting a ban leaves the accounts and their roles alone. -/
theorem setRanked_privilegeTables {until_ effective : ℤ} {reason bannedBy : String} {bannedByClass : ℤ}
    (h : Returns (setRanked accountId until_ reason bannedBy bannedByClass now) p effective q) :
    privilegeTables q.db = privilegeTables p.db := by
  obtain ⟨r, hr, hq⟩ := returns_transaction h
  obtain ⟨_, p₁, h₁, h₂⟩ := returns_bind.mp hr
  obtain ⟨-, hdb₁⟩ := outcome_inj (returns_statement h₁)
  have hswept : privilegeTables p₁.db = privilegeTables p.db := by
    rw [← hdb₁]
    rfl
  have hs := returns_statement h₂
  split at hs
  · obtain ⟨-, hdb₂⟩ := outcome_inj hs
    rw [hq, ← hdb₂]
    exact (upsert_privilegeTables _).trans hswept
  · cases hs

/-- What a removal that returns says, and what it leaves. -/
theorem returns_removeIf (other : String) {allow : RankedBan → Bool} {removal : Removal}
    (h : Returns (removeIf accountId now allow) p removal q) :
    privilegeTables q.db = privilegeTables p.db ∧
    match removal with
    | .notBanned => inForce p.db accountId now = none ∧ banOf q.db other = inForce p.db other now
    | .refused ban => ∃ b, inForce p.db accountId now = some b ∧
        ban = ⟨b.until_, b.reason, b.bannedBy, b.bannedByClass⟩ ∧ allow ban = false ∧
        banOf q.db other = inForce p.db other now
    | .removed ban => ∃ b, inForce p.db accountId now = some b ∧
        ban = ⟨b.until_, b.reason, b.bannedBy, b.bannedByClass⟩ ∧ allow ban = true ∧
        banOf q.db other = if accountId = other then none else inForce p.db other now := by
  obtain ⟨r, hr, hq⟩ := returns_transaction h
  obtain ⟨_, p₁, h₁, hr⟩ := returns_bind.mp hr
  obtain ⟨-, hdb₁⟩ := outcome_inj (returns_statement h₁)
  obtain ⟨ban, p₂, h₂, hr⟩ := returns_bind.mp hr
  obtain ⟨hban, hdb₂⟩ := returns_query h₂
  have hswept : ∀ id, banOf p₂.db id = inForce p.db id now := by
    intro id
    rw [hdb₂, ← hdb₁, banOf_keep]
    rfl
  have hfound : ban = inForce p.db accountId now := by
    rw [← hswept, hdb₂, hban]
    rfl
  have htables : privilegeTables p₂.db = privilegeTables p.db := by
    rw [hdb₂, ← hdb₁]
    rfl
  rw [hq]
  cases ban with
  | none =>
    obtain ⟨rfl, rfl⟩ := returns_pure.mp hr
    exact ⟨htables, hfound.symm, hswept other⟩
  | some b =>
    change Returns (if _ then _ else _) p₂ removal r at hr
    split at hr
    case isTrue hallow =>
      obtain ⟨_, p₃, h₃, hr⟩ := returns_bind.mp hr
      obtain ⟨-, hdb₃⟩ := outcome_inj (returns_statement h₃)
      obtain ⟨rfl, rfl⟩ := returns_pure.mp hr
      refine ⟨?_, b, hfound.symm, rfl, hallow, ?_⟩
      · rw [← hdb₃, ← htables]
        rfl
      · rw [← hdb₃, banOf_keep, hswept]
        exact inForce_filter
    case isFalse hrefuse =>
      obtain ⟨rfl, rfl⟩ := returns_pure.mp hr
      exact ⟨htables, b, hfound.symm, rfl, by simpa using hrefuse, hswept other⟩

end Statements

end Bans

end Storage

end KdxHotline
