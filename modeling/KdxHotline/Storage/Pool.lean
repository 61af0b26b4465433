import KdxHotline.Foundations.Fallible

/-!
# Statements against a database that may fail

Every call of the storage layer is one SQL statement, or a few of them in a
transaction, sent through a connection pool. A statement that violates a
constraint is refused with the constraint's error, and any statement may fail
for reasons of its own (a busy database, a full disk). Either way its table is
left as it was: `KdxHotline.Storage.statement_atomic`.

Which statements fail for reasons of their own is not up to the program, so a
pool carries the list of these outcomes still to come, and what holds for every
such list holds whatever fails.
-/

namespace KdxHotline

namespace Storage

open Foundations

/-- An error of the storage layer. -/
inductive StorageError
  | sqlx
  | notFound
  | alreadyExists
  | foreignKey
  deriving DecidableEq, Repr

/-- A database behind its connections. -/
structure Pool (δ : Type) where
  db : δ
  /-- Whether each of the coming statements fails for reasons of its own. -/
  faults : List Bool

section Statements

variable {δ α : Type}

/-- Run one statement: a fault, a constraint's error, or the changed tables. -/
def statement (f : δ → Except StorageError (α × δ)) : Fallible (Pool δ) StorageError α := fun p =>
  if p.faults.headD false then .error .sqlx { p with faults := p.faults.tail }
  else match f p.db with
    | .ok (a, db) => .ok a ⟨db, p.faults.tail⟩
    | .error e => .error e { p with faults := p.faults.tail }

/-- Run one statement that only reads. -/
def query (f : δ → α) : Fallible (Pool δ) StorageError α := statement fun db => .ok (f db, db)

/-- Run statements in a transaction: if one of them fails, none has happened. -/
def transaction (x : Fallible (Pool δ) StorageError α) : Fallible (Pool δ) StorageError α := fun p =>
  match x.run p with
  | .ok a q => if q.faults.headD false then .error .sqlx ⟨p.db, q.faults.tail⟩
      else .ok a ⟨q.db, q.faults.tail⟩
  | .error e q => .error e ⟨p.db, q.faults⟩

variable {f : δ → Except StorageError (α × δ)} {p q : Pool δ} {a : α}

/-- **A statement that returns found no fault and no violated constraint.** -/
theorem returns_statement (h : Returns (statement f) p a q) : f p.db = .ok (a, q.db) := by
  simp only [Returns, EStateM.run, statement] at h
  split at h
  · cases h
  · split at h
    · rename_i hf
      cases h
      exact hf
    · cases h

/-- Two outcomes of a statement agree in what they return and in the tables. -/
theorem outcome_inj {b : α} {db db' : δ}
    (h : (Except.ok (a, db) : Except StorageError (α × δ)) = .ok (b, db')) : a = b ∧ db = db' := by
  cases h
  exact ⟨rfl, rfl⟩

/-- A statement that violates nothing returns, when no fault comes. -/
theorem statement_returns {db : δ} (hquiet : p.faults.headD false = false)
    (hf : f p.db = .ok (a, db)) : Returns (statement f) p a ⟨db, p.faults.tail⟩ := by
  simp only [Returns, EStateM.run, statement, hquiet, hf]
  rfl

/-- A fault keeps a statement from running. -/
theorem statement_fails (hfault : p.faults.headD false = true) :
    Fails (statement f) p .sqlx { p with faults := p.faults.tail } := by
  simp only [Fails, EStateM.run, statement, hfault]
  rfl

/-- A statement that violates something fails, when no fault comes. -/
theorem statement_refuses {e : StorageError} (hquiet : p.faults.headD false = false)
    (hf : f p.db = .error e) : Fails (statement f) p e { p with faults := p.faults.tail } := by
  simp only [Fails, EStateM.run, statement, hquiet, hf]
  rfl

/-- A statement fails as it says, or the database does. -/
theorem fails_statement {e : StorageError} (h : Fails (statement f) p e q) :
    e = .sqlx ∨ f p.db = .error e := by
  simp only [Fails, EStateM.run, statement] at h
  split at h
  · cases h
    exact .inl rfl
  · split at h
    · cases h
    · rename_i hf
      cases h
      exact .inr hf

/-- **A statement that fails leaves the tables as they were.** -/
theorem statement_atomic (f : δ → Except StorageError (α × δ)) : Atomic Pool.db (statement f) where
  fails h := by
    simp only [Fails, EStateM.run, statement] at h
    split at h
    · cases h
      rfl
    · split at h
      · cases h
      · cases h
        rfl

theorem query_keeps (g : δ → α) : Keeps Pool.db (query g) where
  returns h := (outcome_inj (returns_statement h)).2.symm
  fails h := (statement_atomic _).fails h

theorem returns_query {g : δ → α} (h : Returns (query g) p a q) : a = g p.db ∧ q.db = p.db := by
  obtain ⟨ha, hdb⟩ := outcome_inj (returns_statement h)
  exact ⟨ha.symm, hdb.symm⟩

/-- **A transaction that fails leaves the tables as they were.** -/
theorem transaction_atomic (x : Fallible (Pool δ) StorageError α) :
    Atomic Pool.db (transaction x) where
  fails h := by
    simp only [Fails, EStateM.run, transaction] at h
    split at h
    · split at h
      · cases h
        rfl
      · cases h
    · cases h
      rfl

/-- A transaction that returns has done what is in it. -/
theorem returns_transaction {x : Fallible (Pool δ) StorageError α}
    (h : Returns (transaction x) p a q) : ∃ r, Returns x p a r ∧ q.db = r.db := by
  simp only [Returns, EStateM.run, transaction] at h
  split at h
  · rename_i r hx
    split at h
    · cases h
    · cases h
      exact ⟨_, hx, rfl⟩
  · cases h

end Statements

end Storage

end KdxHotline
