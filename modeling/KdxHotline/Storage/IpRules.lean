import KdxHotline.Foundations.Table
import KdxHotline.Storage.Pool

/-!
# The table of IP rules

Rows in any order, listed in match order: by position, and rules of one position by
when they were created.
-/

namespace KdxHotline

namespace Storage

open Foundations

/-- A stored rule. -/
structure IpRuleRow where
  id : String
  position : ℤ
  action : String
  cidr : String
  note : String
  createdBy : String
  createdAt : ℤ
  deriving DecidableEq

/-- The action is one of the two there are. -/
def ActionCheck (action : String) : Prop := action = "allow" ∨ action = "deny"

instance decidableActionCheck (action : String) : Decidable (ActionCheck action) :=
  inferInstanceAs (Decidable (_ ∨ _))

/-- The stored rules, with what the schema checks. -/
structure IpRuleTable where
  rows : List IpRuleRow
  id_pk : UniqueKey IpRuleRow.id rows
  action_check : ∀ r ∈ rows, ActionCheck r.action

/-- The table of the rules, with the failures of its statements. -/
abbrev IpRulePool : Type := Pool IpRuleTable

/-- The rule is listed no later than the other. -/
def IpRuleRow.Before (a b : IpRuleRow) : Prop :=
  a.position < b.position ∨ a.position = b.position ∧ a.createdAt ≤ b.createdAt

instance decidableBefore (a b : IpRuleRow) : Decidable (a.Before b) :=
  inferInstanceAs (Decidable (_ ∨ _))

instance totalBefore : Std.Total IpRuleRow.Before where
  total a b := by
    unfold IpRuleRow.Before
    omega

instance transBefore : IsTrans IpRuleRow IpRuleRow.Before where
  trans a b c := by
    unfold IpRuleRow.Before
    omega

namespace IpRules

/-- The rules in match order. -/
def inOrder (db : IpRuleTable) : List IpRuleRow := db.rows.insertionSort IpRuleRow.Before

/-- Insert a rule. -/
def create (row : IpRuleRow) : Fallible IpRulePool StorageError Unit :=
  statement fun db =>
    if hid : ∀ r ∈ db.rows, r.id ≠ row.id then
      if haction : ActionCheck row.action then
        .ok ((), ⟨db.rows ++ [row], db.id_pk.append hid, fun r hr => by
          rcases List.mem_append.mp hr with hr | hr
          · exact db.action_check r hr
          · rw [List.mem_singleton.mp hr]
            exact haction⟩)
      else .error .sqlx
    else .error .alreadyExists

/-- Delete a rule by id. -/
def delete (id : String) : Fallible IpRulePool StorageError Unit :=
  statement fun db =>
    if ∃ r ∈ db.rows, r.id = id then
      .ok ((), ⟨db.rows.filter (·.id ≠ id), db.id_pk.filter _,
        fun r hr => db.action_check r (List.mem_of_mem_filter hr)⟩)
    else .error .notFound

/-- All rules in match order. -/
def list : Fallible IpRulePool StorageError (List IpRuleRow) := query inOrder

variable {db : IpRuleTable} {r : IpRuleRow}

theorem mem_inOrder : r ∈ inOrder db ↔ r ∈ db.rows := List.mem_insertionSort _

theorem inOrder_sorted (db : IpRuleTable) : (inOrder db).Pairwise IpRuleRow.Before :=
  List.pairwise_insertionSort _ _

theorem create_returns {row : IpRuleRow} {p q : IpRulePool} (h : Returns (create row) p () q) :
    q.db.rows = p.db.rows ++ [row] := by
  have hdb := returns_statement h
  split at hdb
  · split at hdb
    · rw [← (outcome_inj hdb).2]
    · cases hdb
  · cases hdb

theorem delete_returns {id : String} {p q : IpRulePool} (h : Returns (delete id) p () q) :
    q.db.rows = p.db.rows.filter (·.id ≠ id) := by
  have hdb := returns_statement h
  split at hdb
  · rw [← (outcome_inj hdb).2]
  · cases hdb

end IpRules

end Storage

end KdxHotline
