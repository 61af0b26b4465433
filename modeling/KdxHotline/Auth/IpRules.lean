import Mathlib.Algebra.Ring.Nat
import Mathlib.Data.Multiset.ZeroCons
import KdxHotline.Foundations.Address
import KdxHotline.Foundations.Tasks
import KdxHotline.Storage.IpRules

/-!
# Verdicts by IP rules

The rules of the table are compiled into a cache that is asked for every peer. A
change holds a lock from its write until it has rebuilt the cache from the table, so
the cache is the compiled table whenever the lock is free
(`KdxHotline.Auth.Tracks`), and a verdict is that of the first rule in match order
that covers the peer (`KdxHotline.Auth.match_first`).

One thing goes wrong: a call whose write has gone through may still fail to list the
table, and then gives the lock up with the cache as it was
(`KdxHotline.Auth.not_match_first`). The rule that `create` reported as an error is
stored then, and not enforced.

How a network is written as text is up to the library that parses it
(`KdxHotline.Auth.CidrFormat`).
-/

namespace KdxHotline

namespace Auth

open Foundations Storage

/-! ### Rules -/

/-- The text form of networks: what is printed parses back. -/
structure CidrFormat where
  parse : String → Option IpNet
  print : IpNet → String
  parse_print : ∀ net, parse (print net) = some net

/-- Why a rule is refused, or a call fails. -/
inductive IpRuleError
  | invalidCidr (cidr : String)
  | invalidAction (action : String)
  | storage (e : StorageError)
  deriving DecidableEq

/-- What a rule does with the addresses it matches. -/
inductive Action
  | allow
  | deny
  deriving DecidableEq

/-- An action as it is stored. -/
def Action.asStr : Action → String
  | allow => "allow"
  | deny => "deny"

/-- The action of a stored text. -/
def Action.parse (s : String) : Except IpRuleError Action :=
  if s = "allow" then .ok allow
  else if s = "deny" then .ok deny
  else .error (.invalidAction s)

/-- Result of matching a peer against the rules. -/
inductive Verdict
  | allow
  | deny (note : String)
  deriving DecidableEq

/-- What a rule with this action and note decides. -/
def Action.verdict (note : String) : Action → Verdict
  | allow => .allow
  | deny => .deny note

/-- A rule of the cache. -/
structure Compiled where
  net : IpNet
  action : Action
  note : String
  deriving DecidableEq

/-- A stored rule, ready to match addresses. -/
def compileRow (fmt : CidrFormat) (row : IpRuleRow) : Except IpRuleError Compiled := do
  let net ← required (.invalidCidr row.cidr) (fmt.parse row.cidr)
  let action ← Action.parse row.action
  return ⟨net.canonical, action, row.note⟩

/-- Compile the rows in order; the first that is no rule is an error. -/
def compile (fmt : CidrFormat) : List IpRuleRow → Except IpRuleError (List Compiled)
  | [] => .ok []
  | row :: rows => do
    let rule ← compileRow fmt row
    let rules ← compile fmt rows
    return rule :: rules

/-- The rules of the server: the table, and what is matched against. -/
structure IpRuleManager where
  pool : IpRulePool
  /-- Compiled rules in priority order. -/
  cache : List Compiled
  /-- Whether some call holds the mutation lock. -/
  locked : Bool

namespace IpRuleManager

/-- The table of the rules. -/
def poolField : Focus IpRuleManager IpRulePool where
  get := pool
  set pool m := { m with pool }
  get_set _ _ := rfl

/-- Verdict for a peer against the cache. First match wins; no match allows. -/
def matchIp (m : IpRuleManager) (ip : IpAddr) : Verdict :=
  match m.cache.find? fun rule => rule.net.contains ip.toCanonical with
  | some rule => rule.action.verdict rule.note
  | none => .allow

end IpRuleManager

/-- The rules of the table, compiled, as they are loaded at startup. -/
def loadRules (fmt : CidrFormat) : Fallible IpRulePool IpRuleError (List Compiled) := do
  let rows ← mapError .storage IpRules.list
  check (compile fmt rows)

/-! ### Changes, step by step -/

/-- How far a call has come. -/
inductive Progress
  /-- It does not hold the lock. -/
  | idle
  /-- It holds the lock; the cache is as it found it, or rebuilt. -/
  | holding
  /-- It has changed the table. -/
  | written
  /-- It has listed the table, and is about to rebuild the cache. -/
  | listed (rows : List IpRuleRow)
  /-- It has changed the table and could not list it. -/
  | stale
  deriving DecidableEq

/-- What a step is. -/
inductive RuleStep
  | lock
  | write
  | list
  | publish
  | unlock
  deriving DecidableEq

/-- A call on the rules. -/
abbrev RuleCall (α : Type) : Type 1 := Prog IpRuleManager Progress RuleStep IpRuleError α

section Calls

variable {α : Type}

/-- A call of the storage layer, with the progress it makes. -/
def storing (x : Fallible IpRulePool StorageError α) (ok : α → Progress) (err : Progress → Progress) :
    Fallible (IpRuleManager × Progress) IpRuleError α := fun s =>
  match x.run s.1.pool with
  | .ok a pool => .ok a ({ s.1 with pool }, ok a)
  | .error e pool => .error (.storage e) ({ s.1 with pool }, err s.2)

/-- What a listing that failed leaves a call with. -/
def Progress.unlisted : Progress → Progress
  | written => stale
  | progress => progress

/-- Rebuild the cache, for callers already holding the lock. -/
def reloadLocked (fmt : CidrFormat) : RuleCall Unit := do
  let rows ← .call .list (storing IpRules.list .listed Progress.unlisted)
  let compiled ← .ofExcept (compile fmt rows)
  .step .publish (fun s => ((), { s.1 with cache := compiled }, .holding)) pure

/-- Hold the mutation lock while `body` runs, however it ends. -/
def withLock (body : RuleCall α) : RuleCall α := do
  .step .lock (fun s => ((), { s.1 with locked := true }, .holding)) pure
  let r ← body.attempt
  .step .unlock (fun s => ((), { s.1 with locked := false }, .idle)) pure
  .ofExcept r

/-- The text a requested network is stored as. -/
def storedCidr (fmt : CidrFormat) (net : IpNet) : String := fmt.print net.canonical

/-- Create a rule under the id `id`. -/
def createRule (fmt : CidrFormat) (id : String) (position : ℤ) (action : Action)
    (cidr note createdBy : String) (createdAt : ℤ) : RuleCall String := do
  let parsed ← .ofExcept (required (.invalidCidr cidr) (fmt.parse cidr))
  withLock do
    .call .write (storing (IpRules.create
      ⟨id, position, action.asStr, storedCidr fmt parsed, note, createdBy, createdAt⟩)
      (fun _ => .written) fun progress => progress)
    reloadLocked fmt
    return id

/-- Delete a rule and compile the rest anew. -/
def deleteRule (fmt : CidrFormat) (id : String) : RuleCall Unit :=
  withLock do
    .call .write (storing (IpRules.delete id) (fun _ => .written) fun progress => progress)
    reloadLocked fmt
    return ()

/-- Compile the stored rules anew. -/
def reloadRules (fmt : CidrFormat) : RuleCall Unit := withLock (reloadLocked fmt)

/-- What an admin may ask for. -/
inductive RuleRequest
  | create (id : String) (position : ℤ) (action : Action) (cidr note createdBy : String)
      (createdAt : ℤ)
  | delete (id : String)
  | reload

/-- What a request does. -/
def serveRules (fmt : CidrFormat) : RuleRequest → RuleCall Unit
  | .create id position action cidr note createdBy createdAt => do
    let _ ← createRule fmt id position action cidr note createdBy createdAt
  | .delete id => deleteRule fmt id
  | .reload => reloadRules fmt

end Calls

/-- The server's rules, and every call with how far it has come. -/
abbrev RuleServer : Type 1 := Tasks IpRuleManager Progress RuleStep IpRuleError

/-- A call waits for the lock while another holds it. -/
def RuleServer.Waits (c : RuleServer) : Turn RuleRequest → Prop
  | .start _ => True
  | .step i => c.next i = some .lock → c.shared.locked = false

/-- A call that has changed the table does not fail to list it. -/
def RuleServer.Lists (c : RuleServer) : Turn RuleRequest → Prop
  | .start _ => True
  | .step i => c.next i = some .list → c.tasks[i]?.map Prod.fst = some .written →
    c.shared.pool.faults.headD false = false

/-- Take a turn. -/
def RuleServer.Takes (fmt : CidrFormat) (c : RuleServer) (turn : Turn RuleRequest) (c' : RuleServer) :
    Prop := Tasks.take (serveRules fmt) .idle c turn = some c'

/-! ### What a verdict should be -/

/-- The row is a rule whose network covers the address. -/
def RuleMatches (fmt : CidrFormat) (row : IpRuleRow) (ip : IpAddr) : Prop :=
  ∃ net, fmt.parse row.cidr = some net ∧ net.Covers ip

/-- The verdict is that of the first rule that matches, or allows if none does. -/
def FirstMatch (fmt : CidrFormat) (rows : List IpRuleRow) (ip : IpAddr) (verdict : Verdict) : Prop :=
  (∃ row ∈ rows, RuleMatches fmt row ip ∧
    (∀ other ∈ rows, RuleMatches fmt other ip → row.Before other) ∧
    ∃ action, Action.parse row.action = .ok action ∧ verdict = action.verdict row.note) ∨
  (∀ row ∈ rows, ¬RuleMatches fmt row ip) ∧ verdict = .allow

/-- Every row of the table is a rule. -/
def Readable (fmt : CidrFormat) (db : IpRuleTable) : Prop :=
  ∀ row ∈ db.rows, ∃ rule, compileRow fmt row = .ok rule

/-- **The cache is the compiled table.** -/
def Tracks (fmt : CidrFormat) (m : IpRuleManager) : Prop :=
  compile fmt (IpRules.inOrder m.pool.db) = .ok m.cache

section Compiling

variable {fmt : CidrFormat} {row : IpRuleRow} {rows : List IpRuleRow} {rule : Compiled}
  {rules : List Compiled} {ip : IpAddr}

/-- A row compiles just when its network and its action read. -/
theorem compileRow_eq_ok : compileRow fmt row = .ok rule ↔ ∃ net, fmt.parse row.cidr = some net ∧
    rule.net = net.canonical ∧ Action.parse row.action = .ok rule.action ∧ rule.note = row.note := by
  simp only [compileRow, checks_pass, required_eq_ok]
  constructor
  · rintro ⟨net, hnet, action, haction, hrule⟩
    obtain rfl := Except.ok.inj hrule
    exact ⟨net, hnet, rfl, haction, rfl⟩
  · rintro ⟨net, hnet, hrule, haction, hnote⟩
    refine ⟨net, hnet, rule.action, haction, ?_⟩
    rw [← hrule, ← hnote]
    rfl

/-- A compiled rule contains what its row matches. -/
theorem contains_iff (h : compileRow fmt row = .ok rule) :
    rule.net.contains ip.toCanonical = true ↔ RuleMatches fmt row ip := by
  obtain ⟨net, hnet, hrule, -, -⟩ := compileRow_eq_ok.mp h
  rw [hrule, IpNet.contains_canonical]
  constructor
  · exact fun hcovers => ⟨net, hnet, hcovers⟩
  · rintro ⟨net', hnet', hcovers⟩
    obtain rfl := Option.some.inj (hnet.symm.trans hnet')
    exact hcovers

/-- Rows that are rules compile. -/
theorem exists_compile (h : ∀ row ∈ rows, ∃ rule, compileRow fmt row = .ok rule) :
    ∃ rules, compile fmt rows = .ok rules := by
  induction rows with
  | nil => exact ⟨[], rfl⟩
  | cons row rows ih =>
    obtain ⟨rule, hrule⟩ := h row List.mem_cons_self
    obtain ⟨rules, hrules⟩ := ih fun row hrow => h row (List.mem_cons_of_mem _ hrow)
    exact ⟨rule :: rules, checks_pass.mpr ⟨rule, hrule, checks_pass.mpr ⟨rules, hrules, rfl⟩⟩⟩

theorem compileRow_of_mem (h : compile fmt rows = .ok rules) : ∀ row ∈ rows,
    ∃ rule, compileRow fmt row = .ok rule := by
  induction rows generalizing rules with
  | nil => exact nofun
  | cons row rows ih =>
    obtain ⟨rule, hrule, h⟩ := checks_pass.mp h
    obtain ⟨rest, hrest, -⟩ := checks_pass.mp h
    exact List.forall_mem_cons.mpr ⟨⟨rule, hrule⟩, ih hrest⟩

/-- **The first rule of the cache that contains the address is the first row that
matches it.** -/
theorem firstMatch_compile (h : compile fmt rows = .ok rules) (hsorted : rows.Pairwise IpRuleRow.Before) :
    FirstMatch fmt rows ip (match rules.find? fun rule => rule.net.contains ip.toCanonical with
      | some rule => rule.action.verdict rule.note
      | none => .allow) := by
  induction rows generalizing rules with
  | nil =>
    obtain rfl := Except.ok.inj h
    exact .inr ⟨nofun, rfl⟩
  | cons row rows ih =>
    obtain ⟨rule, hrule, h⟩ := checks_pass.mp h
    obtain ⟨rest, hrest, h⟩ := checks_pass.mp h
    obtain rfl := Except.ok.inj h
    obtain ⟨hfirst, hsorted⟩ := List.pairwise_cons.mp hsorted
    have hcontains : rule.net.contains ip.toCanonical = true ↔ RuleMatches fmt row ip :=
      contains_iff hrule
    cases hmatch : rule.net.contains ip.toCanonical with
    | true =>
      rw [List.find?_cons_of_pos (by exact hmatch)]
      obtain ⟨-, -, -, haction, hnote⟩ := compileRow_eq_ok.mp hrule
      refine .inl ⟨row, List.mem_cons_self, hcontains.mp hmatch, fun other hother _ => ?_,
        rule.action, haction, hnote ▸ rfl⟩
      rcases List.mem_cons.mp hother with rfl | hother
      · exact .inr ⟨rfl, le_refl _⟩
      · exact hfirst other hother
    | false =>
      rw [List.find?_cons_of_neg (by simp [hmatch])]
      have hnot : ¬RuleMatches fmt row ip := fun hm => by
        rw [hcontains.mpr hm] at hmatch
        cases hmatch
      rcases ih hrest hsorted with ⟨first, hmem, hm, hall, hverdict⟩ | ⟨hnone, hverdict⟩
      · refine .inl ⟨first, List.mem_cons_of_mem _ hmem, hm, fun other hother hm' => ?_, hverdict⟩
        rcases List.mem_cons.mp hother with rfl | hother
        · exact absurd hm' hnot
        · exact hall other hother hm'
      · exact .inr ⟨List.forall_mem_cons.mpr ⟨hnot, hnone⟩, hverdict⟩

/-- **A cache that tracks the table gives the verdict of the first match.** -/
theorem firstMatch_of_tracks {m : IpRuleManager} (h : Tracks fmt m) :
    FirstMatch fmt m.pool.db.rows ip (m.matchIp ip) := by
  have hfirst : FirstMatch fmt (IpRules.inOrder m.pool.db) ip (m.matchIp ip) :=
    firstMatch_compile h (IpRules.inOrder_sorted _)
  unfold FirstMatch at hfirst ⊢
  simp only [IpRules.mem_inOrder] at hfirst
  exact hfirst

end Compiling

/-! ### What the steps of a call do -/

/-- What a step does to the manager and to the progress of its call. -/
def RuleMove (fmt : CidrFormat) : RuleStep → IpRuleManager × Progress → IpRuleManager × Progress → Prop
  | .lock, s, t => s.2 = .idle ∧ t = ({ s.1 with locked := true }, .holding)
  | .write, s, t => s.2 = .holding ∧ t.1 = { s.1 with pool := t.1.pool } ∧
      ((t.2 = .written ∧ (Readable fmt s.1.pool.db → Readable fmt t.1.pool.db)) ∨
        (t.2 = .holding ∧ t.1.pool.db = s.1.pool.db))
  | .list, s, t => (s.2 = .holding ∨ s.2 = .written) ∧ t.1 = { s.1 with pool := t.1.pool } ∧
      t.1.pool.db = s.1.pool.db ∧ (t.2 = .listed (IpRules.inOrder s.1.pool.db) ∨
        s.1.pool.faults.headD false = true ∧ t.2 = s.2.unlisted)
  | .publish, s, t => ∃ rows compiled, s.2 = .listed rows ∧ compile fmt rows = .ok compiled ∧
      t = ({ s.1 with cache := compiled }, .holding)
  | .unlock, s, t => (s.2 = .holding ∨ s.2 = .stale ∨
      ∃ rows e, s.2 = .listed rows ∧ compile fmt rows = .error e) ∧
        t = ({ s.1 with locked := false }, .idle)

section Moves

variable {fmt : CidrFormat} {α : Type} {Q : α → Progress → Prop} {own : Progress}

/-- A stored call that returns has changed the table as the statement did, and gone on as it
says. -/
theorem returns_storing {x : Fallible IpRulePool StorageError α} {ok : α → Progress}
    {err : Progress → Progress} {s t : IpRuleManager × Progress} {a : α}
    (h : Returns (storing x ok err) s a t) :
    Returns x s.1.pool a t.1.pool ∧ t.1 = { s.1 with pool := t.1.pool } ∧ t.2 = ok a := by
  simp only [Returns, storing, EStateM.run] at h ⊢
  cases hx : x s.1.pool with
  | ok b p =>
    rw [hx] at h
    cases h
    exact ⟨rfl, rfl, rfl⟩
  | error e p =>
    rw [hx] at h
    cases h

/-- A stored call that fails is one whose statement failed. -/
theorem fails_storing {x : Fallible IpRulePool StorageError α} {ok : α → Progress}
    {err : Progress → Progress} {s t : IpRuleManager × Progress} {e : IpRuleError}
    (h : Fails (storing x ok err) s e t) :
    (∃ e', Fails x s.1.pool e' t.1.pool) ∧ t.1 = { s.1 with pool := t.1.pool } ∧ t.2 = err s.2 := by
  simp only [Fails, storing, EStateM.run] at h ⊢
  cases hx : x s.1.pool with
  | ok b p =>
    rw [hx] at h
    cases h
  | error e' p =>
    rw [hx] at h
    cases h
    exact ⟨⟨e', rfl⟩, rfl, rfl⟩

/-- What a call is left with when it may give the lock up. -/
def Releasing (fmt : CidrFormat) (own : Progress) : Prop :=
  own = .holding ∨ own = .stale ∨ ∃ rows e, own = .listed rows ∧ compile fmt rows = .error e

/-- A listing fails for no reason but a fault. -/
theorem fault_of_fails {p q : IpRulePool} {e : StorageError} (h : Fails IpRules.list p e q) :
    p.faults.headD false = true := by
  simp only [Fails, IpRules.list, query, statement, EStateM.run] at h
  split at h
  · assumption
  · cases h

/-- Reloading only reads the table and sets the cache. -/
theorem moves_reloadLocked (h : own = .holding ∨ own = .written) :
    (reloadLocked fmt).Moves (RuleMove fmt) (fun _ own => own = .holding)
      (fun _ own => Releasing fmt own) own := by
  refine Prog.Moves.bind (Q := fun rows own => own = .listed rows) ?_ fun rows own hown => ?_
  · refine Prog.moves_call (fun s rows t hret => ?_) fun s e t hfail => ?_
    · obtain ⟨hret, hframe, ht⟩ := returns_storing hret
      obtain ⟨rfl, hdb⟩ := returns_query hret
      exact ⟨⟨h, hframe, hdb, .inl ht⟩, ht⟩
    · obtain ⟨⟨e', hfail⟩, hframe, ht⟩ := fails_storing hfail
      refine ⟨⟨h, hframe, (query_keeps _).fails hfail, .inr ⟨fault_of_fails hfail, ht⟩⟩, ?_⟩
      rw [ht]
      rcases h with rfl | rfl
      · exact .inl rfl
      · exact .inr (.inl rfl)
  · refine Prog.Moves.bind (Q := fun compiled own => own = .listed rows ∧ compile fmt rows = .ok compiled)
      (Prog.moves_ofExcept (fun compiled hok => ⟨hown, hok⟩)
        fun e he => .inr (.inr ⟨rows, e, hown, he⟩)) ?_
    rintro compiled own ⟨rfl, hok⟩
    exact Prog.moves_step fun s => ⟨⟨rows, compiled, rfl, hok, rfl⟩, rfl⟩

/-- **A call that holds the lock only where it may give it up gives it up.** -/
theorem moves_withLock {body : RuleCall α}
    (h : body.Moves (RuleMove fmt) (fun _ own => own = .holding) (fun _ own => Releasing fmt own)
      .holding) :
    (withLock body).Moves (RuleMove fmt) (fun _ own => own = .idle) (fun _ own => own = .idle)
      .idle := by
  refine Prog.Moves.bind (Q := fun _ own => own = .holding)
    (Prog.moves_step fun s => ⟨⟨rfl, rfl⟩, rfl⟩) ?_
  rintro - own rfl
  refine Prog.Moves.bind (Q := fun _ own => Releasing fmt own) (h.attempt.mono ?_ fun _ _ he => he) ?_
  · rintro (e | a) own hown
    · exact hown
    · exact .inl hown
  · rintro r own hown
    refine Prog.Moves.bind (Q := fun _ own => own = .idle)
      (Prog.moves_step fun s => ⟨⟨hown, rfl⟩, rfl⟩) ?_
    rintro - own rfl
    exact Prog.moves_ofExcept (fun _ _ => rfl) fun _ _ => rfl

/-- Changing the table and rebuilding the cache. -/
theorem moves_change {x : Fallible IpRulePool StorageError Unit} (a : α)
    (hatomic : Atomic Pool.db x)
    (hreadable : ∀ {p q}, Returns x p () q → Readable fmt p.db → Readable fmt q.db) :
    Prog.Moves (RuleMove fmt) (fun _ own => own = .holding) (fun _ own => Releasing fmt own) .holding
      (do
        .call .write (storing x (fun _ => .written) fun progress => progress)
        reloadLocked fmt
        return a : RuleCall α) := by
  refine Prog.Moves.bind (Q := fun _ own => own = .written) (Prog.moves_call ?_ ?_) ?_
  · rintro s ⟨⟩ t hret
    obtain ⟨hret, hframe, ht⟩ := returns_storing hret
    exact ⟨⟨rfl, hframe, .inl ⟨ht, hreadable hret⟩⟩, ht⟩
  · intro s e t hfail
    obtain ⟨⟨e', hfail⟩, hframe, ht⟩ := fails_storing hfail
    exact ⟨⟨rfl, hframe, .inr ⟨ht, hatomic.fails hfail⟩⟩, .inl ht⟩
  · rintro ⟨⟩ own rfl
    exact Prog.Moves.bind (moves_reloadLocked (.inr rfl)) fun _ _ hown => Prog.moves_pure hown

/-- A rule that is created can be read back. -/
theorem readable_create {row : IpRuleRow} {p q : IpRulePool} (h : Returns (IpRules.create row) p () q)
    (hrow : ∃ rule, compileRow fmt row = .ok rule) (hp : Readable fmt p.db) : Readable fmt q.db := by
  intro r hr
  rw [IpRules.create_returns h] at hr
  rcases List.mem_append.mp hr with hr | hr
  · exact hp r hr
  · rw [List.mem_singleton.mp hr]
    exact hrow

theorem readable_delete {id : String} {p q : IpRulePool} (h : Returns (IpRules.delete id) p () q)
    (hp : Readable fmt p.db) : Readable fmt q.db := by
  intro r hr
  rw [IpRules.delete_returns h] at hr
  exact hp r (List.mem_of_mem_filter hr)

@[simp] theorem parse_asStr (action : Action) : Action.parse action.asStr = .ok action := by
  cases action <;> rfl

/-- What `create` stores is a rule, whatever was asked for. -/
theorem exists_compileRow (id : String) (position : ℤ) (action : Action) (net : IpNet)
    (note createdBy : String) (createdAt : ℤ) : ∃ rule, compileRow fmt
      ⟨id, position, action.asStr, storedCidr fmt net, note, createdBy, createdAt⟩ = .ok rule :=
  ⟨⟨net.canonical.canonical, action, note⟩, compileRow_eq_ok.mpr
    ⟨net.canonical, fmt.parse_print _, rfl, parse_asStr action, rfl⟩⟩

/-- **Every call takes the steps that are allowed**, and ends without the lock. -/
theorem moves_serveRules (fmt : CidrFormat) (request : RuleRequest) :
    (serveRules fmt request).Moves (RuleMove fmt) (fun _ own => own = .idle)
      (fun _ own => own = .idle) .idle := by
  cases request with
  | create id position action cidr note createdBy createdAt =>
    refine Prog.Moves.bind (Q := fun _ own => own = .idle) ?_ fun _ _ hown => Prog.moves_pure hown
    refine Prog.Moves.bind (Q := fun _ own => own = .idle)
      (Prog.moves_ofExcept (fun _ _ => rfl) fun _ _ => rfl) ?_
    rintro net own rfl
    exact moves_withLock (moves_change id (statement_atomic _) fun hret =>
      readable_create hret (exists_compileRow ..))
  | delete id =>
    exact moves_withLock (moves_change () (statement_atomic _) readable_delete)
  | reload => exact moves_withLock (moves_reloadLocked (.inl rfl))

end Moves

/-! ### The cache tracks the table -/

/-- What the call that holds the lock may rely on, as far as it has come. -/
def Progress.Fits (fmt : CidrFormat) (m : IpRuleManager) : Progress → Prop
  | idle | stale => False
  | holding => Tracks fmt m
  | written => True
  | listed rows => rows = IpRules.inOrder m.pool.db

/-- Every row is a rule, one call at most holds the lock, and the cache tracks the table
whenever none does. -/
structure RulesKept (fmt : CidrFormat) (m : IpRuleManager) (owns : Multiset Progress) : Prop where
  readable : Readable fmt m.pool.db
  free : m.locked = false → Tracks fmt m ∧ ∀ own ∈ owns, own = .idle
  held : m.locked = true → ∃ own rest, owns = own ::ₘ rest ∧ (∀ other ∈ rest, other = .idle) ∧
    own.Fits fmt m

namespace RulesKept

variable {fmt : CidrFormat} {m m' : IpRuleManager} {own own' : Progress} {rest : Multiset Progress}

/-- A call that is not idle holds the lock, and no other does. -/
theorem holder (h : RulesKept fmt m (own ::ₘ rest)) (hown : own ≠ .idle) :
    m.locked = true ∧ (∀ other ∈ rest, other = .idle) ∧ own.Fits fmt m := by
  cases hlocked : m.locked with
  | false => exact absurd ((h.free hlocked).2 own (Multiset.mem_cons_self own rest)) hown
  | true =>
    obtain ⟨holder, idle, howns, hidle, hfits⟩ := h.held hlocked
    have hmem : own ∈ holder ::ₘ idle := howns ▸ Multiset.mem_cons_self own rest
    have hsame : own = holder := (Multiset.mem_cons.mp hmem).resolve_right fun hrest =>
      hown (hidle own hrest)
    subst hsame
    rw [(Multiset.cons_inj_right own).mp howns]
    exact ⟨rfl, hidle, hfits⟩

/-- The call that holds the lock goes on holding it. -/
theorem keep (hreadable : Readable fmt m'.pool.db) (hlocked : m'.locked = true)
    (hidle : ∀ other ∈ rest, other = .idle) (hfits : own'.Fits fmt m') :
    RulesKept fmt m' (own' ::ₘ rest) :=
  ⟨hreadable, fun hfree => absurd (hfree.symm.trans hlocked) (by decide),
    fun _ => ⟨own', rest, rfl, hidle, hfits⟩⟩

/-- **Every step keeps the cache on track**, if the lock is only taken when it is free and
the table is listed after it was changed. -/
theorem move (h : RulesKept fmt m (own ::ₘ rest)) {label : RuleStep}
    (hwaits : label = .lock → m.locked = false)
    (hlists : label = .list → own = .written → m.pool.faults.headD false = false)
    (hmove : RuleMove fmt label (m, own) (m', own')) : RulesKept fmt m' (own' ::ₘ rest) := by
  cases label with
  | lock =>
    obtain ⟨hown, ht⟩ := hmove
    obtain ⟨rfl, rfl⟩ := Prod.mk.inj ht
    obtain ⟨htracks, hidle⟩ := h.free (hwaits rfl)
    exact keep h.readable rfl (fun other hother => hidle other (Multiset.mem_cons_of_mem hother))
      htracks
  | write =>
    obtain ⟨rfl, hframe, hdone⟩ := hmove
    obtain ⟨hlocked, hidle, htracks⟩ := h.holder (by decide)
    dsimp only at hframe hdone
    rw [hframe]
    rcases hdone with ⟨rfl, hreadable⟩ | ⟨rfl, hdb⟩
    · exact keep (hreadable h.readable) hlocked hidle trivial
    · refine keep ?_ hlocked hidle ?_
      · exact hdb ▸ h.readable
      · change Tracks fmt _
        unfold Progress.Fits Tracks at htracks
        unfold Tracks
        rw [hdb]
        exact htracks
  | list =>
    obtain ⟨hown, hframe, hdb, hdone⟩ := hmove
    dsimp only at hown hframe hdb hdone
    have hne : own ≠ .idle := by rcases hown with rfl | rfl <;> decide
    obtain ⟨hlocked, hidle, hfits⟩ := h.holder hne
    rw [hframe]
    refine keep (hdb ▸ h.readable) hlocked hidle ?_
    -- a listing that fails after a write is ruled out; before one, the cache is still right
    rcases hdone with rfl | ⟨hfault, rfl⟩
    · exact congrArg IpRules.inOrder hdb.symm
    · rcases hown with rfl | rfl
      · change Tracks fmt _
        unfold Progress.Fits Tracks at hfits
        unfold Tracks
        rw [hdb]
        exact hfits
      · rw [hlists rfl rfl] at hfault
        cases hfault
  | publish =>
    obtain ⟨rows, compiled, rfl, hok, ht⟩ := hmove
    obtain ⟨rfl, rfl⟩ := Prod.mk.inj ht
    obtain ⟨hlocked, hidle, rfl⟩ := h.holder (by simp)
    exact keep h.readable hlocked hidle hok
  | unlock =>
    obtain ⟨hown, ht⟩ := hmove
    obtain ⟨rfl, rfl⟩ := Prod.mk.inj ht
    dsimp only at hown
    have hne : own ≠ .idle := by
      rcases hown with rfl | rfl | ⟨rows, e, rfl, -⟩
      · decide
      · decide
      · simp
    obtain ⟨-, hidle, hfits⟩ := h.holder hne
    refine ⟨h.readable, fun _ => ⟨?_, fun other hother => ?_⟩, nofun⟩
    · rcases hown with rfl | rfl | ⟨rows, e, rfl, he⟩
      · exact hfits
      · exact hfits.elim
      · -- every row is a rule, so the listed rows did compile
        obtain rfl : rows = IpRules.inOrder m.pool.db := hfits
        obtain ⟨rules, hrules⟩ : ∃ rules, compile fmt (IpRules.inOrder m.pool.db) = .ok rules :=
          exists_compile fun row hrow =>
          h.readable row (IpRules.mem_inOrder.mp hrow)
        rw [hrules] at he
        cases he
    · rcases Multiset.mem_cons.mp hother with rfl | hother
      · rfl
      · exact hidle other hother

/-- The rules as they were loaded. -/
theorem start {p q : IpRulePool} {cache : List Compiled} (hload : Returns (loadRules fmt) p cache q) :
    RulesKept fmt ⟨q, cache, false⟩ 0 := by
  obtain ⟨rows, r, hrows, hcompile⟩ := returns_bind.mp hload
  obtain ⟨hok, rfl⟩ := returns_check.mp hcompile
  obtain ⟨rfl, hdb⟩ := returns_query (returns_mapError.mp hrows)
  rw [← hdb] at hok
  refine ⟨fun row hrow => compileRow_of_mem hok row (IpRules.mem_inOrder.mpr hrow), fun _ => ⟨hok, ?_⟩,
    nofun⟩
  exact fun own hown => absurd hown (Multiset.notMem_zero own)

/-- A new call is idle. -/
theorem idle (h : RulesKept fmt m rest) : RulesKept fmt m (.idle ::ₘ rest) := by
  refine ⟨h.readable, fun hfree => ⟨(h.free hfree).1, fun own hown => ?_⟩, fun hheld => ?_⟩
  · rcases Multiset.mem_cons.mp hown with rfl | hown
    · rfl
    · exact (h.free hfree).2 own hown
  · obtain ⟨own, others, rfl, hidle, hfits⟩ := h.held hheld
    refine ⟨own, .idle ::ₘ others, Multiset.cons_swap .., fun other hother => ?_, hfits⟩
    rcases Multiset.mem_cons.mp hother with rfl | hother
    · rfl
    · exact hidle other hother

end RulesKept

/-- A call waits for the lock, and lists the table once it has changed it. -/
def RuleServer.Sound (c : RuleServer) (turn : Turn RuleRequest) : Prop := c.Waits turn ∧ c.Lists turn

/-- **A verdict is that of the first match in the table**, whatever the order in which the
calls take their steps and whichever of their statements fail, if no call that has changed
the table fails to list it. The text a network is stored as covers what the requested one
does. -/
theorem match_first (fmt : CidrFormat) {p q : IpRulePool} {cache : List Compiled}
    (hload : Returns (loadRules fmt) p cache q) {turns : List (Turn RuleRequest)} {c : RuleServer}
    (hrun : Run (Guarded (RuleServer.Takes fmt) RuleServer.Sound) ⟨⟨q, cache, false⟩, []⟩ turns c)
    (hover : ∀ t ∈ c.tasks, t.2.Over) :
    (∀ ip, FirstMatch fmt c.shared.pool.db.rows ip (c.shared.matchIp ip)) ∧
    ∀ cidr net, fmt.parse cidr = some net → ∃ stored, fmt.parse (storedCidr fmt net) = some stored ∧
      ∀ ip, stored.Covers ip ↔ net.Covers ip := by
  have hmove : ∀ {c : RuleServer} {i : ℕ} {label : RuleStep} {own : Progress} {t : IpRuleManager}
      {own' : Progress}, c.Sound (.step i) → c.next i = some label →
      c.tasks[i]?.map Prod.fst = some own → RulesKept fmt c.shared (own ::ₘ c.others i) →
      RuleMove fmt label (c.shared, own) (t, own') → RulesKept fmt t (own' ::ₘ c.others i) := by
    intro c i label own t own' hsound hnext hown h hmove
    refine h.move (fun hlock => hsound.1 (hlock ▸ hnext)) (fun hlist hwritten => ?_) hmove
    exact hsound.2 (hlist ▸ hnext) (hwritten ▸ hown)
  obtain ⟨hmoving, hkept⟩ := Tasks.invariant_of_moves (RulesKept fmt) (moves_serveRules fmt)
    RulesKept.idle hmove Tasks.moving_start hrun (RulesKept.start hload)
  refine ⟨fun ip => firstMatch_of_tracks ?_, fun cidr net _ =>
    ⟨net.canonical, fmt.parse_print _, fun ip => IpNet.covers_canonical⟩⟩
  have hidle := hmoving.over hover
  cases hlocked : c.shared.locked with
  | false => exact (hkept.free hlocked).1
  | true =>
    obtain ⟨own, rest, howns, -, hfits⟩ := hkept.held hlocked
    rw [hidle own (howns ▸ Multiset.mem_cons_self own rest)] at hfits
    exact hfits.elim

/-! ### A call that cannot list the table it has changed -/

section Decimal

/-- Read a number off the front. -/
def readNumber (cs : List Char) : Option (ℕ × List Char) :=
  let digits := cs.takeWhile Char.isDigit
  if digits = [] then none else some (Nat.ofDigitChars 10 digits 0, cs.dropWhile Char.isDigit)

/-- Read this character off the front. -/
def readChar (c : Char) : List Char → Option (List Char)
  | c' :: cs => if c' = c then some cs else none
  | [] => none

/-- Read a network: an IPv4 address in dotted decimals or an IPv6 address as one number, and
the length of the prefix. -/
def readNet (cs : List Char) : Option IpNet :=
  match readChar ':' cs with
  | some cs => do
    let (addr, cs) ← readNumber cs
    let (n, cs) ← readChar '/' cs >>= readNumber
    if h : n < 129 then
      if addr < 2 ^ 128 ∧ cs = [] then some (.v6 (BitVec.ofNat 128 addr) ⟨n, h⟩) else none
    else none
  | none => do
    let (a, cs) ← readNumber cs
    let (b, cs) ← readChar '.' cs >>= readNumber
    let (c, cs) ← readChar '.' cs >>= readNumber
    let (d, cs) ← readChar '.' cs >>= readNumber
    let (n, cs) ← readChar '/' cs >>= readNumber
    if h : n < 33 then
      if a < 256 ∧ b < 256 ∧ c < 256 ∧ d < 256 ∧ cs = [] then
        some (.v4 (BitVec.ofNat 32 (((a * 256 + b) * 256 + c) * 256 + d)) ⟨n, h⟩)
      else none
    else none

/-- Write a network so that it can be read. -/
def netChars : IpNet → List Char
  | .v4 addr n =>
    Nat.toDigits 10 (addr.toNat / 16777216) ++ '.' ::
      (Nat.toDigits 10 (addr.toNat / 65536 % 256) ++ '.' ::
        (Nat.toDigits 10 (addr.toNat / 256 % 256) ++ '.' ::
          (Nat.toDigits 10 (addr.toNat % 256) ++ '/' :: Nat.toDigits 10 n)))
  | .v6 addr n => ':' :: (Nat.toDigits 10 addr.toNat ++ '/' :: Nat.toDigits 10 n)

/-- A number reads back, up to the first character that is no digit. -/
theorem readNumber_digits {n : ℕ} {rest : List Char} (h : ∀ c ∈ rest.head?, c.isDigit = false) :
    readNumber (Nat.toDigits 10 n ++ rest) = some (n, rest) := by
  have hdigits : ∀ c ∈ Nat.toDigits 10 n, c.isDigit = true := fun c hc =>
    Nat.isDigit_of_mem_toDigits (by decide) (by decide) hc
  have hrest : rest.takeWhile Char.isDigit = [] ∧ rest.dropWhile Char.isDigit = rest := by
    cases rest with
    | nil => exact ⟨rfl, rfl⟩
    | cons c cs => simp [h c (by simp)]
  unfold readNumber
  rw [List.takeWhile_append_of_pos hdigits, List.dropWhile_append_of_pos hdigits, hrest.1, hrest.2,
    List.append_nil, if_neg Nat.toDigits_ne_nil, Nat.ofDigitChars_ten_toDigits]

theorem readNumber_last {n : ℕ} : readNumber (Nat.toDigits 10 n) = some (n, []) := by
  have h : readNumber (Nat.toDigits 10 n ++ []) = some (n, []) := readNumber_digits (by simp)
  rwa [List.append_nil] at h

theorem readNumber_before {n : ℕ} {c : Char} {cs : List Char} (h : c.isDigit = false) :
    readNumber (Nat.toDigits 10 n ++ c :: cs) = some (n, c :: cs) :=
  readNumber_digits (by simpa using h)

/-- A number does not start with anything but a digit. -/
theorem readChar_digits {n : ℕ} {c : Char} {cs : List Char} (h : c.isDigit = false) :
    readChar c (Nat.toDigits 10 n ++ cs) = none := by
  cases hd : Nat.toDigits 10 n with
  | nil => exact absurd hd Nat.toDigits_ne_nil
  | cons d ds =>
    have hdigit : d.isDigit = true :=
      Nat.isDigit_of_mem_toDigits (by decide) (by decide) (hd ▸ List.mem_cons_self)
    have hne : d ≠ c := by
      rintro rfl
      rw [h] at hdigit
      cases hdigit
    rw [List.cons_append, readChar, if_neg hne]

theorem readChar_self {c : Char} {cs : List Char} : readChar c (c :: cs) = some cs := if_pos rfl

/-- A network reads back from its text. -/
theorem readNet_netChars (net : IpNet) : readNet (netChars net) = some net := by
  have hdot : Char.isDigit '.' = false := by decide
  have hslash : Char.isDigit '/' = false := by decide
  have hcolon : Char.isDigit ':' = false := by decide
  cases net with
  | v4 addr n =>
    have haddr := addr.isLt
    have hoctets : ((addr.toNat / 16777216 * 256 + addr.toNat / 65536 % 256) * 256 +
        addr.toNat / 256 % 256) * 256 + addr.toNat % 256 = addr.toNat := by omega
    have hfirst : addr.toNat / 16777216 < 256 := by omega
    simp only [readNet, netChars, readChar_digits hcolon, readNumber_before hdot, readChar_self,
      readNumber_before hslash, readNumber_last, Option.bind_eq_bind, Option.bind_some, n.isLt,
      dif_pos, Nat.mod_lt _ (by decide : 256 > 0), hfirst, hoctets, and_self, if_true,
      BitVec.ofNat_toNat, BitVec.setWidth_eq]
  | v6 addr n =>
    simp only [readNet, netChars, readChar_self, readNumber_before hslash, readNumber_last,
      Option.bind_eq_bind, Option.bind_some, n.isLt, dif_pos, addr.isLt, and_self, if_true,
      BitVec.ofNat_toNat, BitVec.setWidth_eq]

/-- Networks in decimals. -/
def decimal : CidrFormat where
  parse cidr := readNet cidr.toList
  print net := String.ofList (netChars net)
  parse_print net := by rw [String.toList_ofList, readNet_netChars]

end Decimal

instance decidableWaits (c : RuleServer) : (turn : Turn RuleRequest) → Decidable (c.Waits turn)
  | .start _ => isTrue trivial
  | .step i => inferInstanceAs (Decidable (c.next i = some .lock → c.shared.locked = false))

instance decidableLists (c : RuleServer) : (turn : Turn RuleRequest) → Decidable (c.Lists turn)
  | .start _ => isTrue trivial
  | .step i => inferInstanceAs (Decidable (c.next i = some .list →
      c.tasks[i]?.map Prod.fst = some .written → c.shared.pool.faults.headD false = false))

instance decidableSound (c : RuleServer) (turn : Turn RuleRequest) : Decidable (c.Sound turn) :=
  inferInstanceAs (Decidable (_ ∧ _))

namespace Unlisted

/-- The network `10.0.0.0/8`. -/
def net : IpNet := .v4 0x0a000000#32 8

/-- The address 10.7.7.7. -/
def peer : IpAddr := .v4 0x0a070707#32

/-- Deny that network. -/
def create : RuleRequest := .create "r" 10 .deny "10.0.0.0/8" "internal" "sysop" 0

/-- The row that is stored for it. -/
def row : IpRuleRow := ⟨"r", 10, "deny", "10.0.0.0/8", "internal", "sysop", 0⟩

/-- A table without rules. -/
def noRules : IpRuleTable := ⟨[], uniqueKey_nil _, nofun⟩

/-- The server without rules; these statements fail for reasons of their own. -/
def start (faults : List Bool) : RuleServer := ⟨⟨⟨noRules, faults⟩, [], false⟩, []⟩

/-- The call takes all its steps. -/
def turns : List (Turn RuleRequest) := .start create :: List.replicate 5 (.step 0)

/-- The table and the cache after these turns, and whether every call is over. -/
def left (c : RuleServer) : List IpRuleRow × List Compiled × Bool :=
  (c.shared.pool.db.rows, c.shared.cache, decide (∀ t ∈ c.tasks, t.2.Over))

theorem load_returns (faults : List Bool) :
    Returns (loadRules decimal) ⟨noRules, false :: faults⟩ [] ⟨noRules, faults⟩ := rfl

/-- The rule is written, and the listing fails. -/
theorem unlisted : (perform (fun c turn => if c.Waits turn then
    Tasks.take (serveRules decimal) .idle c turn else none) (start [false, true])
    (turns.take 5)).map left = some ([row], [], true) := by decide +kernel

theorem listed : (perform (fun c turn => if c.Sound turn then
    Tasks.take (serveRules decimal) .idle c turn else none) (start [])
    turns).map left = some ([row], [⟨net, .deny, "internal"⟩], true) := by
  decide +kernel

end Unlisted

open Unlisted in
/-- **A rule whose creation is reported as an error may be stored and not enforced**: the
peer it denies is let in. -/
theorem not_match_first : ¬∀ (fmt : CidrFormat) (p q : IpRulePool) (cache : List Compiled)
    (turns : List (Turn RuleRequest)) (c : RuleServer), Returns (loadRules fmt) p cache q →
    Run (Guarded (RuleServer.Takes fmt) RuleServer.Waits) ⟨⟨q, cache, false⟩, []⟩ turns c →
    (∀ t ∈ c.tasks, t.2.Over) → ∀ ip, FirstMatch fmt c.shared.pool.db.rows ip (c.shared.matchIp ip) := by
  intro hall
  obtain ⟨c, hperform, hleft⟩ := Option.map_eq_some_iff.mp unlisted
  obtain ⟨hrows, hrest⟩ := Prod.mk.inj hleft
  obtain ⟨hcache, hover⟩ := Prod.mk.inj hrest
  have hfirst := hall decimal _ _ _ _ c (load_returns [false, true]) (guarded_of_perform hperform)
    (of_decide_eq_true hover) peer
  rw [hrows, IpRuleManager.matchIp, hcache] at hfirst
  have hmatches : RuleMatches decimal row peer :=
    ⟨net, by decide +kernel, IpNet.contains_canonical.mp (by decide)⟩
  rcases hfirst with ⟨first, hmem, -, -, action, haction, hverdict⟩ | ⟨hnone, -⟩
  · obtain rfl := List.mem_singleton.mp hmem
    obtain rfl : action = .deny := (Except.ok.inj haction).symm
    cases hverdict
  · exact hnone row List.mem_cons_self hmatches

open Unlisted in
theorem match_first_created : ∃ c : RuleServer, c.shared.pool.db.rows = [row] ∧
    FirstMatch decimal c.shared.pool.db.rows peer (c.shared.matchIp peer) := by
  obtain ⟨c, hperform, hleft⟩ := Option.map_eq_some_iff.mp listed
  obtain ⟨hrows, hrest⟩ := Prod.mk.inj hleft
  exact ⟨c, hrows, (match_first decimal (load_returns []) (guarded_of_perform hperform)
    (of_decide_eq_true (Prod.mk.inj hrest).2)).1 peer⟩

end Auth

end KdxHotline
