import KdxHotline.Storage.Accounts

/-!
# The credential column

An account holds one credential, as a text, or none yet if it is of an older version.
Three statements write that column: converting an account that has none, replacing a
credential that is still the expected one, and replacing whatever is there. Each writes
one text to one account, or changes nothing (`KdxHotline.Storage.Accounts.Rewrites`).
-/

namespace KdxHotline

namespace Storage

open Foundations

namespace Accounts

/-- The account of a name. -/
def byUsername (username : String) : Fallible AccountPool StorageError (Option AccountRow) :=
  query fun db => db.account username

/-- Accounts still without a credential. -/
def legacyRows : Fallible AccountPool StorageError (List AccountRow) :=
  query fun db => db.accounts.filter fun r => r.credential.isNone

/-- A row whose credential was converted. -/
def upgraded (credential : String) (r : AccountRow) : AccountRow :=
  { r with credential := some credential, passwordPhc := "" }

theorem upgraded_id (credential : String) (r : AccountRow) : (upgraded credential r).id = r.id := rfl

theorem upgraded_username (credential : String) (r : AccountRow) :
    (upgraded credential r).username = r.username := rfl

/-- Store a converted credential for an account that has none. -/
def upgradeCredential (id credential : String) : Fallible AccountPool StorageError Bool :=
  statement fun db =>
    let selects : AccountRow → Bool := fun r => r.id = id && r.credential.isNone
    .ok (db.accounts.any selects, rewrite db selects (upgraded credential) (upgraded_id credential)
      (upgraded_username credential))

/-- The credential of an account, by its id. -/
def credentialText (db : AccountTables) (id : String) : Option String :=
  (db.accounts.find? fun r => r.id = id).bind AccountRow.credential

section

variable {db : AccountTables} {row : AccountRow}

theorem find_of_mem (h : row ∈ db.accounts) : (db.accounts.find? fun r => r.id = row.id) = some row := by
  cases hfind : db.accounts.find? fun r => r.id = row.id with
  | none => simpa using List.find?_eq_none.mp hfind row h
  | some r =>
    have hid : r.id = row.id := by simpa using List.find?_some hfind
    rw [db.accounts_id.eq (List.mem_of_find?_eq_some hfind) h hid]

theorem credentialText_of_mem (h : row ∈ db.accounts) : credentialText db row.id = row.credential := by
  rw [credentialText, find_of_mem h]
  rfl

/-- A text is written to the credential of an account that was `before`, or nothing is. -/
structure Rewrites (before : Option String → Prop) (id text : String) (db : AccountTables)
    (done : Bool) (db' : AccountTables) : Prop where
  found : done = true → before (credentialText db id)
  wrote : done = true → ∀ k, credentialText db' k = if id = k then some text else credentialText db k
  missed : done = false → db' = db

/-- What rewriting the credential of the account of an id does. -/
theorem rewrites_credential {id text : String} {g : Option String → Bool} {db' : AccountTables}
    (h : db' = rewrite db (fun r => r.id = id && g r.credential)
      (fun r => { r with credential := some text, passwordPhc := "" }) (fun _ => rfl) fun _ => rfl) :
    Rewrites (fun c => g c = true) id text db
      (db.accounts.any fun r => r.id = id && g r.credential) db' := by
  subst h
  refine ⟨fun hdone => ?_, fun hdone k => ?_, rewrite_of_none⟩
  all_goals
    obtain ⟨row, hrow, hsel⟩ := List.any_eq_true.mp hdone
    simp only [Bool.and_eq_true, decide_eq_true_eq] at hsel
    obtain ⟨rfl, hg⟩ := hsel
  · rw [credentialText_of_mem hrow]
    exact hg
  · rw [credentialText, rewrite, find_setWhere (f := fun r : AccountRow =>
      { r with credential := some text, passwordPhc := "" }) fun _ => rfl]
    by_cases hk : row.id = k
    · subst hk
      rw [find_of_mem hrow]
      simp [hg]
    · rw [if_neg hk, credentialText]
      cases hother : db.accounts.find? fun r => r.id = k with
      | none => rfl
      | some r =>
        have hid : r.id = k := by simpa using List.find?_some hother
        have hne : r.id ≠ row.id := fun he => hk (he.symm.trans hid)
        simp [hne]

variable {p q : AccountPool} {id credential : String} {done : Bool}

theorem rewrites_upgradeCredential (h : Returns (upgradeCredential id credential) p done q) :
    Rewrites (· = none) id credential p.db done q.db := by
  obtain ⟨rfl, hdb⟩ := outcome_inj (returns_statement h)
  have hrewrites := rewrites_credential (g := Option.isNone) hdb.symm
  exact ⟨fun hdone => Option.isNone_iff_eq_none.mp (hrewrites.found hdone), hrewrites.wrote,
    hrewrites.missed⟩

theorem rewrites_setCredential {expected : Option String}
    (h : Returns (setCredential id credential expected) p done q) :
    Rewrites (fun c => expected = none ∨ c = expected) id credential p.db done q.db := by
  obtain ⟨rfl, hdb⟩ := outcome_inj (returns_statement h)
  have hrewrites := rewrites_credential (g := fun c => expected.isNone || c == expected) hdb.symm
  exact ⟨fun hdone => by simpa using hrewrites.found hdone, hrewrites.wrote, hrewrites.missed⟩

end

end Accounts

end Storage

end KdxHotline
