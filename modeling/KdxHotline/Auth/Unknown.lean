import KdxHotline.Auth.Login
import KdxHotline.Foundations.Solo

/-!
# Unknown users and wrong passwords

A login for a name that has no account is sent a decoy challenge, so that it cannot be told
from one for an account whose password is wrong. A decoy has the parameters and the salt
length of a credential that is derived today, but an account may be stored with any
credential that is fit to store. So the two cannot be told apart exactly when the account's
credential has that shape (`KdxHotline.Auth.untold_iff_plain`).

That they cannot is a statement about two servers that take the same turns. It is proved by
running them in lockstep: every function of the login prompt keeps them related
(`KdxHotline.Auth.lockstep_serveLogin`). That they can otherwise takes one request for a
challenge. The decoy key is loaded by then: the server does that before it listens.
-/

namespace KdxHotline

namespace Auth

open Foundations Storage Crypto Limits

/-! ### Credentials and challenges of one shape -/

/-- Every account was created under a name of an allowed length, and has a credential that was
fit to store when it was. -/
def Admissible (db : AccountTables) : Prop :=
  ∀ row ∈ db.accounts, row.username.utf8ByteSize ≤ maxUsernameLen ∧
    ∃ credential : StoredCredential, credential.checkAcceptable = .ok () ∧
      row.credential = some credential.encode

/-- A credential of the shape that decoys have. -/
def Plain (credential : StoredCredential) : Prop :=
  credential.params = defaultParams ∧ credential.salt.length = saltLen

/-- What a peer can tell of an answer apart from the bytes of a salt. -/
def Answer.shape : Answer → Answer
  | .challenge data => .challenge { data with salt := List.replicate data.salt.length 0 }
  | answer => answer

/-- The challenge that an answer is. -/
def Answer.issued : Answer → Option ChallengeData
  | .challenge data => some data
  | _ => none

/-- The salt of a challenge is that of the account's credential, or the decoy of its name. -/
def PendingAuth.saltFrom (P : Primitives) (key : Vector UInt8 32) (p : PendingAuth) : List UInt8 :=
  match p.account with
  | some (_, credential) => credential.salt
  | none => decoySalt P key p.username

/-- The costs of the challenge: those of the account, or else the default ones. -/
def PendingAuth.paramsFrom (p : PendingAuth) : KdfParams :=
  match p.account with
  | some (_, credential) => credential.params
  | none => defaultParams

/-- The challenge that a pending login was sent. -/
def PendingAuth.data (p : PendingAuth) : ChallengeData := ⟨p.challenge, p.salt, p.paramsFrom⟩

/-- No account that the login is for would take the proof. -/
def Wrong (P : Primitives) (pending : PendingAuth) (proof : Vector UInt8 32) : Prop :=
  ∀ row credential, pending.account = some (row, credential) →
    credential.verifyProof P pending.username pending.challenge pending.channelBinding proof = none

/-! ### A server and the same server without an account -/

/-- The account managers of a server and of the same server without one account. -/
structure Without (username id : String) (key : Vector UInt8 32) (s s' : AuthManager) : Prop where
  accounts : s'.pool.db.accounts = s.pool.db.accounts.filter fun r => r.username ≠ username
  faults : s'.pool.faults = s.pool.faults
  prepared : s.decoyKey = some key
  prepared' : s'.decoyKey = some key
  admissible : Admissible s.pool.db
  account : ∀ row ∈ s.pool.db.accounts, row.username = username → row.id = id
  plain : ∀ row ∈ s.pool.db.accounts, row.username = username →
    ∀ credential, row.credential.bind StoredCredential.decode = some credential → Plain credential

/-- Two pending logins that differ in no more than the account. -/
structure Undisclosed (P : Primitives) (username : String) (key : Vector UInt8 32)
    (p p' : PendingAuth) : Prop where
  username_eq : p'.username = p.username
  challenge_eq : p'.challenge = p.challenge
  binding_eq : p'.channelBinding = p.channelBinding
  salt : p.salt = p.saltFrom P key
  salt' : p'.salt = p'.saltFrom P key
  account : p.username ≠ username ∧ p'.account = p.account ∨
    p.username = username ∧ p'.account = none ∧
      ∀ row credential, p.account = some (row, credential) → Plain credential

section Shapes

variable {P : Primitives} {username id name : String} {key : Vector UInt8 32}
  {s s' : AuthManager} {p p' : PendingAuth}

theorem Without.account_eq (h : Without username id key s s') (hname : name ≠ username) :
    s'.pool.db.account name = s.pool.db.account name := by
  rw [AccountTables.account, h.accounts, List.find?_filter, AccountTables.account]
  congr 1
  funext row
  by_cases hrow : row.username = name
  · simp [hrow, hname]
  · simp [hrow]

theorem Without.account_none (h : Without username id key s s') :
    s'.pool.db.account username = none := by
  rw [AccountTables.account, h.accounts, List.find?_filter]
  exact List.find?_eq_none.mpr (by simp)

theorem length_decoySalt : (decoySalt P key name).length = saltLen := by
  simp [decoySalt, saltLen]

/-- **Challenges that differ in no more than a plain account have one shape.** -/
theorem Undisclosed.shape (h : Undisclosed P username key p p') :
    (Answer.challenge p'.data).shape = (Answer.challenge p.data).shape := by
  simp only [Answer.shape, PendingAuth.data, Answer.challenge.injEq, ChallengeData.mk.injEq, h.salt,
    h.salt', h.challenge_eq, true_and, PendingAuth.saltFrom, PendingAuth.paramsFrom]
  rcases h.account with ⟨-, heq⟩ | ⟨-, hnone, hplain⟩
  · rw [heq, h.username_eq]
    exact ⟨rfl, rfl⟩
  · rw [hnone, length_decoySalt]
    cases haccount : p.account with
    | none => exact ⟨by rw [length_decoySalt], rfl⟩
    | some account =>
      obtain ⟨hparams, hsalt⟩ := hplain account.1 account.2 haccount
      exact ⟨by rw [hsalt], hparams.symm⟩

theorem Undisclosed.wrong (h : Undisclosed P username key p p') {proof : Vector UInt8 32}
    (hwrong : Wrong P p proof) : Wrong P p' proof := by
  intro row credential haccount
  rcases h.account with ⟨-, heq⟩ | ⟨-, hnone, -⟩
  · rw [h.username_eq, h.challenge_eq, h.binding_eq]
    exact hwrong row credential (heq ▸ haccount)
  · rw [hnone] at haccount
    cases haccount

/-- A wrong proof is refused without a look at anything. -/
theorem complete_of_wrong {now : ℤ} {proof : Vector UInt8 32} (h : Wrong P p proof) :
    complete P now p proof = .fail .invalidCredentials := by
  unfold complete
  cases haccount : p.account with
  | none => rfl
  | some account =>
    have hwrong := h account.1 account.2 haccount
    simp only [hwrong]

end Shapes

/-! ### The manager's calls, in lockstep -/

section Manager

variable {P : Primitives} {username id : String} {key : Vector UInt8 32} {A : Prop} {α : Type}
  {s s' : AuthManager} {own own' : Dialogue}

/-- The two managers, where steps are asked to be taken only if `A`. -/
def withoutAccount (username id : String) (key : Vector UInt8 32) (A : Prop) :
    Prog.Twin AuthManager Dialogue AuthStep :=
  ⟨Without username id key, fun _ _ => True, fun _ => A⟩

theorem calling_returns {x : Fallible AccountPool StorageError α}
    {note : α → AuthManager × Dialogue → AuthManager × Dialogue} {a : α} {q : AccountPool}
    (h : Returns x s.pool a q) :
    Returns (calling x note) (s, own) a (note a ({ s with pool := q }, own)) := by
  unfold calling
  simp only [Returns, EStateM.run] at h ⊢
  rw [h]

theorem calling_fails {x : Fallible AccountPool StorageError α}
    {note : α → AuthManager × Dialogue → AuthManager × Dialogue} {e : StorageError} {q : AccountPool}
    (h : Fails x s.pool e q) :
    Fails (calling x note) (s, own) (.storage e) ({ s with pool := q }, own) := by
  unfold calling
  simp only [Fails, EStateM.run] at h ⊢
  rw [h]

/-- The tables after a statement, and the fault that was taken. -/
theorem Without.frame (h : Without username id key s s') {t t' : AuthManager}
    (hdb : t.pool.db = s.pool.db) (hdb' : t'.pool.db = s'.pool.db)
    (hfaults : t'.pool.faults = t.pool.faults) (hkey : t.decoyKey = s.decoyKey)
    (hkey' : t'.decoyKey = s'.decoyKey) : Without username id key t t' := by
  refine ⟨?_, hfaults, hkey ▸ h.prepared, hkey' ▸ h.prepared', ?_, ?_, ?_⟩
  · rw [hdb, hdb']
    exact h.accounts
  · rw [hdb]
    exact h.admissible
  · rw [hdb]
    exact h.account
  · rw [hdb]
    exact h.plain

theorem lockstep_loadDecoyKey {candidate : Vector UInt8 32} :
    (loadDecoyKey P candidate).Lockstep (withoutAccount username id key A)
      (fun k k' => k = key ∧ k' = key) Eq (loadDecoyKey P candidate) := by
  refine Prog.Lockstep.bind (Q := fun k k' => k = some key ∧ k' = some key)
    (Prog.lockstep_step fun _ s s' own own' hs _ => ⟨hs, trivial, hs.prepared, hs.prepared'⟩) ?_
  rintro _ _ ⟨rfl, rfl⟩
  exact Prog.lockstep_pure ⟨rfl, rfl⟩

/-- The rows of a name: one and the same, or one that the other server does not have. -/
theorem lockstep_byUsername {name : String} :
    (byUsername name).Lockstep (withoutAccount username id key A)
      (fun row row' => (∀ r ∈ row, ∃ credential : StoredCredential,
          credential.checkAcceptable = .ok () ∧ r.credential = some credential.encode) ∧
        (name ≠ username ∧ row' = row ∨ name = username ∧ row' = none ∧ ∀ r ∈ row, ∀ credential,
          r.credential.bind StoredCredential.decode = some credential → Plain credential))
      Eq (byUsername name) := by
  refine Prog.lockstep_call fun _ s s' own own' hs _ => ?_
  -- the same fault comes on both servers
  cases hfault : s.pool.faults.headD false with
  | true =>
    have hfault' : s'.pool.faults.headD false = true := hs.faults ▸ hfault
    have hfails : ∀ p : AccountPool, p.faults.headD false = true →
        Fails (Accounts.byUsername name) p .sqlx { p with faults := p.faults.tail } := by
      intro p hfault
      unfold Accounts.byUsername query
      exact statement_fails hfault
    refine .inr ⟨_, _, _, _, calling_fails (hfails _ hfault), calling_fails (hfails _ hfault'), ?_,
      trivial, rfl⟩
    exact hs.frame rfl rfl (congrArg List.tail hs.faults) rfl rfl
  | false =>
    have hfault' : s'.pool.faults.headD false = false := hs.faults ▸ hfault
    have hreturns : ∀ p : AccountPool, p.faults.headD false = false →
        Returns (Accounts.byUsername name) p (p.db.account name) ⟨p.db, p.faults.tail⟩ := by
      intro p hquiet
      unfold Accounts.byUsername query
      exact statement_returns hquiet rfl
    refine .inl ⟨_, _, _, _, calling_returns (hreturns _ hfault), calling_returns (hreturns _ hfault'),
      ?_, trivial, fun r hr => ?_, ?_⟩
    · exact hs.frame rfl rfl (congrArg List.tail hs.faults) rfl rfl
    · exact (hs.admissible r (AccountTables.mem_of_account hr).1).2
    · by_cases hname : name = username
      · subst hname
        refine .inr ⟨rfl, hs.account_none, fun r hr => ?_⟩
        obtain ⟨hmem, hrow⟩ := AccountTables.mem_of_account hr
        exact hs.plain r hmem hrow
      · exact .inl ⟨hname, hs.account_eq hname⟩

/-- A row whose credential was fit to store is read without another step. -/
theorem credentialFor_acceptable {row : AccountRow} {credential : StoredCredential}
    (h : credential.checkAcceptable = .ok ()) (hrow : row.credential = some credential.encode) :
    credentialFor P row = pure (some credential) := by
  unfold credentialFor
  simp only [hrow, StoredCredential.decode_acceptable h]

/-- **Challenges are issued in lockstep.** -/
theorem lockstep_begin {candidate challenge channelBinding : Vector UInt8 32} {name : String} :
    (begin P candidate challenge channelBinding name).Lockstep (withoutAccount username id key A)
      (fun r r' => r.1 = r.2.data ∧ r'.1 = r'.2.data ∧ Undisclosed P username key r.2 r'.2)
      Eq (begin P candidate challenge channelBinding name) := by
  refine Prog.Lockstep.bind lockstep_loadDecoyKey ?_
  rintro _ _ ⟨rfl, rfl⟩
  refine Prog.Lockstep.bind lockstep_byUsername ?_
  rintro row row' ⟨hfit, hrows⟩
  refine Prog.Lockstep.bind (Q := fun a a' : Option (AccountRow × StoredCredential) =>
    name ≠ username ∧ a' = a ∨
      name = username ∧ a' = none ∧ ∀ row credential, a = some (row, credential) → Plain credential)
    ?_ ?_
  -- every row holds a credential fit to store, so a lookup never converts one
  · have hone : ∀ r ∈ row, ∃ credential, accountFor P (some r) = pure (some (r, credential)) ∧
        r.credential.bind StoredCredential.decode = some credential := by
      intro r hr
      obtain ⟨credential, hok, hcredential⟩ := hfit r hr
      refine ⟨credential, ?_, ?_⟩
      · rw [accountFor, credentialFor_acceptable hok hcredential]
        rfl
      · rw [hcredential, Option.bind_some, StoredCredential.decode_acceptable hok]
    cases row with
    | none =>
      obtain rfl : row' = none := by
        rcases hrows with ⟨-, h⟩ | ⟨-, h, -⟩ <;> exact h
      refine Prog.lockstep_pure ?_
      rcases hrows with ⟨hname, -⟩ | ⟨hname, -, -⟩
      · exact .inl ⟨hname, rfl⟩
      · exact .inr ⟨hname, rfl, nofun⟩
    | some r =>
      obtain ⟨credential, haccount, hdecode⟩ := hone r rfl
      rcases hrows with ⟨hname, rfl⟩ | ⟨hname, rfl, hplain⟩
      · rw [haccount]
        exact Prog.lockstep_pure (.inl ⟨hname, rfl⟩)
      · rw [haccount]
        refine Prog.lockstep_pure (.inr ⟨hname, rfl, fun row c hc => ?_⟩)
        obtain ⟨-, rfl⟩ := Prod.mk.inj (Option.some.inj hc)
        exact hplain r rfl credential hdecode
  · intro a a' haccounts
    exact Prog.lockstep_pure ⟨rfl, rfl, rfl, rfl, rfl, rfl, rfl, haccounts⟩

/-- The statement that replaces a credential, as it is when no fault comes. -/
theorem setCredential_returns {p : AccountPool} (accountId text : String)
    (hquiet : p.faults.headD false = false) :
    ∃ done q, Returns (Accounts.setCredential accountId text none) p done q ∧
      q.faults = p.faults.tail ∧ q.db.accounts = setWhere (fun r => decide (r.id = accountId))
        (fun r => { r with credential := some text, passwordPhc := "" }) p.db.accounts := by
  unfold Accounts.setCredential
  refine ⟨_, _, statement_returns hquiet rfl, rfl, ?_⟩
  rw [Accounts.rewrite]
  simp only [Option.isNone_none, Bool.true_or, Bool.and_true]

theorem setWhere_filter {rows : List AccountRow} {p q : AccountRow → Bool} {f : AccountRow → AccountRow}
    (hf : ∀ r, q (f r) = q r) : setWhere p f (rows.filter q) = (setWhere p f rows).filter q := by
  rw [setWhere, setWhere, List.filter_map]
  congr 1
  refine congrArg (fun q => rows.filter q) (funext fun r => ?_)
  rw [Function.comp_apply]
  split
  case isTrue => exact (hf r).symm
  case isFalse => rfl

/-- **Credentials are replaced in lockstep**, by plain ones for the account that one of the
servers does not have. -/
theorem lockstep_setCredential {accountId : String} {credential : StoredCredential}
    (hA : A → accountId = id → Plain credential) :
    (setCredential accountId credential).Lockstep (withoutAccount username id key A)
      (fun _ _ => True) (fun _ _ => True) (setCredential accountId credential) := by
  cases hok : credential.checkAcceptable with
  | error e =>
    rw [setCredential, hok]
    exact Prog.lockstep_fail trivial
  | ok u =>
    rw [setCredential, hok]
    refine Prog.lockstep_call fun hallows s s' own own' hs _ => ?_
    cases hfault : s.pool.faults.headD false with
    | true =>
      have hfault' : s'.pool.faults.headD false = true := hs.faults ▸ hfault
      have hfails : ∀ p : AccountPool, p.faults.headD false = true → Fails
          (Accounts.setCredential accountId credential.encode none) p .sqlx
          { p with faults := p.faults.tail } := by
        intro p hfault
        unfold Accounts.setCredential
        exact statement_fails hfault
      refine .inr ⟨_, _, _, _, calling_fails (hfails _ hfault), calling_fails (hfails _ hfault'), ?_,
        trivial, trivial⟩
      exact hs.frame rfl rfl (congrArg List.tail hs.faults) rfl rfl
    | false =>
      have hfault' : s'.pool.faults.headD false = false := hs.faults ▸ hfault
      obtain ⟨done, q, hreturns, hfaults, haccounts⟩ :=
        setCredential_returns accountId credential.encode hfault
      obtain ⟨done', q', hreturns', hfaults', haccounts'⟩ :=
        setCredential_returns accountId credential.encode hfault'
      refine .inl ⟨done, done', _, _, calling_returns hreturns, calling_returns hreturns', ?_, trivial,
        trivial⟩
      -- the rows but those of the account are rewritten alike
      have hwithout : Without username id key { s with pool := q } { s' with pool := q' } := by
        refine ⟨?_, ?_, hs.prepared, hs.prepared', fun row hrow => ?_, fun row hrow hname => ?_,
          fun row hrow hname => ?_⟩
        · rw [haccounts, haccounts', hs.accounts]
          exact setWhere_filter fun _ => rfl
        · rw [hfaults, hfaults', hs.faults]
        all_goals
          rw [haccounts] at hrow
          obtain ⟨r, hr, rfl⟩ := mem_setWhere.mp hrow
          by_cases hid : r.id = accountId
        · rw [if_pos (decide_eq_true hid)]
          exact ⟨(hs.admissible r hr).1, credential, hok, rfl⟩
        · rw [if_neg (by simpa using hid)]
          exact hs.admissible r hr
        · rw [if_pos (decide_eq_true hid)] at hname ⊢
          exact hs.account r hr hname
        · rw [if_neg (by simpa using hid)] at hname ⊢
          exact hs.account r hr hname
        · rw [if_pos (decide_eq_true hid)] at hname ⊢
          intro c hc
          rw [Option.bind_some, StoredCredential.decode_acceptable hok] at hc
          obtain rfl := Option.some.inj hc
          -- it is the account's own row, so the credential written is plain
          exact hA hallows (hid.symm.trans (hs.account r hr hname))
        · rw [if_neg (by simpa using hid)] at hname ⊢
          exact hs.plain r hr hname
      cases done <;> cases done' <;>
        exact hwithout.frame rfl rfl hwithout.faults rfl rfl

end Manager

/-! ### The door, in lockstep -/

/-- The door, and the same door without one account. -/
structure Hidden (username id : String) (key : Vector UInt8 32) (s s' : Door) : Prop where
  auth : Without username id key s.auth s'.auth
  limiter : s'.limiter = s.limiter
  now : s'.now = s.now
  judged : s'.judged = s.judged

/-- Connections that were told the same, salts apart. -/
structure AlikeVisits (P : Primitives) (username : String) (key : Vector UInt8 32) (v v' : Visit) :
    Prop where
  sent : v'.sent.map Answer.shape = v.sent.map Answer.shape
  challenged : List.Forall₂ (Undisclosed P username key) v.challenged v'.challenged
  issued : v.sent.filterMap Answer.issued = v.challenged.map PendingAuth.data
  issued' : v'.sent.filterMap Answer.issued = v'.challenged.map PendingAuth.data

/-- The proofs are wrong, and the account that is hidden only ever gets plain credentials. -/
def Guesses (P : Primitives) (id : String) : LoginStep → Prop
  | .judge _ pending proof => Wrong P pending proof
  | .replace accountId credential => accountId = id → Plain credential
  | _ => True

/-- Two servers and their connections that an unknown name and a known one cannot be told apart
on. -/
def doors (P : Primitives) (username id : String) (key : Vector UInt8 32) :
    Prog.Twin Door Visit LoginStep :=
  ⟨Hidden username id key, AlikeVisits P username key, Guesses P id⟩

section Door

variable {P : Primitives} {username id : String} {key : Vector UInt8 32}
  {E : ConnectionError → ConnectionError → Prop} {α : Type} {Q : α → α → Prop}

theorem lockstep_send {answer : Answer} (hanswer : answer.issued = none) :
    (send answer).Lockstep (doors P username id key) Eq E (send answer) := by
  refine Prog.lockstep_step fun _ _ _ own own' hs hown => ⟨hs, ⟨?_, hown.challenged, ?_, ?_⟩, rfl⟩
  · simp only [List.map_append, hown.sent]
  · simp only [List.filterMap_append, List.filterMap_cons, hanswer, List.filterMap_nil,
      List.append_nil, hown.issued]
  · simp only [List.filterMap_append, List.filterMap_cons, hanswer, List.filterMap_nil,
      List.append_nil, hown.issued']

theorem lockstep_recordFailure (source : Source) :
    (recordFailure source).Lockstep (doors P username id key) Eq E (recordFailure source) := by
  refine Prog.lockstep_step fun _ s s' own own' hs hown => ⟨⟨hs.auth, ?_, hs.now, hs.judged⟩, hown, rfl⟩
  show s'.limiter.recordFailure s'.now source = s.limiter.recordFailure s.now source
  rw [hs.limiter, hs.now]

theorem lockstep_refuse (failures : ℕ) (message : String) :
    (refuse failures message).Lockstep (doors P username id key) Eq Eq (refuse failures message) := by
  refine Prog.Lockstep.bind (lockstep_send rfl) fun _ _ _ => ?_
  split
  case isTrue => exact Prog.lockstep_fail rfl
  case isFalse => exact Prog.lockstep_pure rfl

/-- A refusal is the same for both names. -/
theorem lockstep_refusal (ip : IpAddr) (name : String) :
    (refusal ip name).Lockstep (doors P username id key) Eq Eq (refusal ip name) := by
  refine Prog.Lockstep.bind (Q := Eq) (Prog.lockstep_step fun _ s s' own own' hs hown =>
    ⟨hs, hown, ?_⟩) ?_
  · show s.limiter.check s.now _ = s'.limiter.check s'.now _
    rw [hs.limiter, hs.now]
  · rintro (wait | ⟨⟩) _ rfl
    · exact Prog.lockstep_pure rfl
    · dsimp only
      split
      case isTrue =>
        exact Prog.Lockstep.bind (lockstep_recordFailure _) fun _ _ _ => Prog.lockstep_pure rfl
      case isFalse => exact Prog.lockstep_pure rfl

/-- Outcomes that are related, or errors that are the same. -/
def Outcomes (Q : α → α → Prop) : Except LoginError α → Except LoginError α → Prop
  | .ok a, .ok a' => Q a a'
  | .error e, .error e' => e = e'
  | _, _ => False

/-- Calls in step on the accounts are in step on the connection. -/
theorem lockstep_managing {x x' : AuthCall α}
    (h : x.Lockstep (withoutAccount username id key True) Q Eq x') :
    (managing x).Lockstep (doors P username id key) (Outcomes Q) E (managing x') := by
  have hlift : (x.lift authField dialogueField LoginStep.manager).Lockstep (doors P username id key)
      Q Eq (x'.lift authField dialogueField LoginStep.manager) :=
    h.lift (fun _ _ => trivial) (fun hs => hs.auth)
      (fun hs ht => ⟨ht, hs.limiter, hs.now, hs.judged⟩) (fun _ => trivial)
      fun hk _ => ⟨hk.sent, hk.challenged, hk.issued, hk.issued'⟩
  refine hlift.attempt.mono ?_ fun _ _ h => h
  rintro (e | a) (e' | a') h <;> exact h

/-- **Wrong responses are answered in lockstep.** -/
theorem lockstep_respond {ip : IpAddr} {p p' : PendingAuth} {proof : Vector UInt8 32} {failures : ℕ}
    {circumstances : Circumstances} (h : Undisclosed P username key p p') :
    (respond P ip p proof failures circumstances).Lockstep (doors P username id key) Eq Eq
      (respond P ip p' proof failures circumstances) := by
  have hsource : Source.of ip p'.username = Source.of ip p.username := by rw [h.username_eq]
  simp only [respond, hsource]
  refine Prog.Lockstep.bind (Q := fun _ _ => Wrong P p proof) (Prog.lockstep_step
    fun hwrong s s' own own' hs hown => ⟨⟨hs.auth, hs.limiter, hs.now, ?_⟩, hown, hwrong⟩) ?_
  · show s'.judged ++ [(_, s'.now)] = s.judged ++ [(_, s.now)]
    rw [hs.judged, hs.now]
  · rintro _ _ hwrong
    rw [complete_of_wrong hwrong, complete_of_wrong (h.wrong hwrong)]
    refine Prog.Lockstep.bind (lockstep_managing (Q := fun (_ _ : Verified) => False)
      (Prog.lockstep_fail rfl)) ?_
    rintro (e | verified) (e' | verified') hsame
    · obtain rfl : e = e' := hsame
      cases e
      case invalidCredentials =>
        exact Prog.Lockstep.bind (lockstep_recordFailure _) fun _ _ _ =>
          Prog.Lockstep.bind (lockstep_refuse _ _) fun _ _ hsame => Prog.lockstep_pure (congrArg some hsame)
      case banned until_ reason =>
        exact Prog.Lockstep.bind (lockstep_recordFailure _) fun _ _ _ =>
          Prog.Lockstep.bind (lockstep_refuse _ _) fun _ _ hsame => Prog.lockstep_pure (congrArg some hsame)
      all_goals exact Prog.lockstep_fail rfl
    · cases hsame
    · cases hsame
    · exact hsame.elim

/-- The two challenges look alike. -/
theorem lockstep_sendChallenge {data data' : ChallengeData} {p p' : PendingAuth}
    (hdata : data = p.data) (hdata' : data' = p'.data) (h : Undisclosed P username key p p') :
    (sendChallenge data p).Lockstep (doors P username id key) Eq E (sendChallenge data' p') := by
  subst hdata hdata'
  refine Prog.lockstep_step fun _ _ _ own own' hs hown => ⟨hs, ?_, rfl⟩
  refine ⟨?_, List.rel_append hown.challenged (.cons h .nil), ?_, ?_⟩
  · simp only [List.map_append, List.map_singleton, hown.sent, h.shape]
  · simp only [List.filterMap_append, List.map_append, hown.issued]
    rfl
  · simp only [List.filterMap_append, List.map_append, hown.issued']
    rfl

/-- **A connection is served in lockstep**, as long as its responses are wrong. -/
theorem lockstep_authenticate {ip : IpAddr} {channelBinding : Vector UInt8 32} :
    ∀ (failures : ℕ) (frames : List AuthFrame),
      (authenticate P ip channelBinding failures frames).Lockstep (doors P username id key) Eq Eq
        (authenticate P ip channelBinding failures frames)
  | _, [] => Prog.lockstep_fail rfl
  | failures, .ping payload :: frames => by
    rw [authenticate]
    exact Prog.Lockstep.bind (lockstep_send rfl) fun _ _ _ => lockstep_authenticate failures frames
  | _, .disconnect :: _ => Prog.lockstep_pure rfl
  | failures, .request name candidate challenge :: frames => by
    rw [authenticate]
    refine Prog.Lockstep.bind (lockstep_refusal ip name) ?_
    rintro (⟨⟩ | message) _ rfl
    · refine Prog.Lockstep.bind (lockstep_managing lockstep_begin) ?_
      rintro (e | begun) (e' | begun') hsame
      · obtain rfl : e = e' := hsame
        exact Prog.lockstep_fail rfl
      · cases hsame
      · cases hsame
      · obtain ⟨hdata, hdata', hp⟩ := hsame
        refine Prog.Lockstep.bind (Q := fun r r' => r = begun ∧ r' = begun')
          (Prog.lockstep_pure ⟨rfl, rfl⟩) ?_
        rintro _ _ ⟨rfl, rfl⟩
        refine Prog.Lockstep.bind (lockstep_sendChallenge hdata hdata' hp) fun _ _ _ => ?_
        match frames with
        | [] => exact Prog.lockstep_fail rfl
        | .response proof circumstances :: frames =>
          -- the response is refused on both, or the connection ends on both
          refine Prog.Lockstep.bind (lockstep_respond hp) ?_
          rintro (⟨⟩ | failures) _ rfl
          · exact Prog.lockstep_pure rfl
          · exact lockstep_authenticate failures frames
        | .ping _ :: _ | .disconnect :: _ | .request _ _ _ :: _ | .other :: _ =>
          exact Prog.lockstep_fail rfl
    · exact Prog.Lockstep.bind (lockstep_refuse failures message) fun failures _ hsame =>
        hsame ▸ lockstep_authenticate failures frames
  | _, .response _ _ :: _ => Prog.lockstep_fail rfl
  | _, .other :: _ => Prog.lockstep_fail rfl

/-- **Whatever goes on at the door goes on in lockstep.** -/
theorem lockstep_serveLogin (request : LoginRequest) :
    (serveLogin P request).Lockstep (doors P username id key) (fun _ _ => True) (fun _ _ => True)
      (serveLogin P request) := by
  cases request with
  | connection ip channelBinding frames =>
    exact Prog.Lockstep.bind ((lockstep_authenticate 0 frames).mono (fun _ _ h => h)
      fun _ _ _ => trivial) fun _ _ _ => Prog.lockstep_pure trivial
  | tick elapsed =>
    refine Prog.lockstep_step fun _ s s' own own' hs hown => ⟨⟨hs.auth, hs.limiter, ?_, hs.judged⟩, hown,
      trivial⟩
    show s'.now + elapsed = s.now + elapsed
    rw [hs.now]
  | replace accountId credential =>
    have hlift : ((setCredential accountId credential).lift authField dialogueField
        (fun _ => LoginStep.replace accountId credential)).Lockstep (doors P username id key)
        (fun _ _ => True) (fun _ _ => True) ((setCredential accountId credential).lift authField
          dialogueField fun _ => LoginStep.replace accountId credential) :=
      (lockstep_setCredential (A := accountId = id → Plain credential) fun h => h).lift
        (fun _ h => h) (fun hs => hs.auth) (fun hs ht => ⟨ht, hs.limiter, hs.now, hs.judged⟩)
        (fun _ => trivial) fun hk _ => ⟨hk.sent, hk.challenged, hk.issued, hk.issued'⟩
    exact Prog.Lockstep.bind hlift.attempt fun _ _ _ => Prog.lockstep_pure trivial

end Door

end Auth

/-! ### Telling the two apart -/

namespace Storage

open Foundations

/-- The tables without an account, and without what is stored for it. -/
def AccountTables.without (db : AccountTables) (username : String) : AccountTables where
  accounts := db.accounts.filter fun r => r.username ≠ username
  roles := db.roles
  accountRoles := db.accountRoles.filter fun p =>
    p.1 ∈ (db.accounts.filter fun r => r.username ≠ username).map AccountRow.id
  bans := db.bans.filter fun b =>
    b.accountId ∈ (db.accounts.filter fun r => r.username ≠ username).map AccountRow.id
  accounts_id := db.accounts_id.filter _
  accounts_username := db.accounts_username.filter _
  roles_id := db.roles_id
  roles_name := db.roles_name
  accountRoles_pk := db.accountRoles_pk.filter _
  accountRoles_account := fun _ hp => of_decide_eq_true (List.mem_filter.mp hp).2
  accountRoles_role := fun p hp => db.accountRoles_role p (List.mem_filter.mp hp).1
  bans_pk := db.bans_pk.filter _
  bans_account := fun _ hb => of_decide_eq_true (List.mem_filter.mp hb).2

end Storage

namespace Auth

open Foundations Storage Crypto Limits

/-- The same server without an account. -/
def Door.without (s : Door) (username : String) : Door :=
  { s with auth := { s.auth with pool := ⟨s.auth.pool.db.without username, s.auth.pool.faults⟩ } }

/-- The connections were told the same, salts apart, and the same ones are closed. -/
def Alike (c c' : LoginServer) : Prop :=
  List.Forall₂ (fun t t' => t'.1.sent.map Answer.shape = t.1.sent.map Answer.shape ∧
    (t'.2.Over ↔ t.2.Over)) c.tasks c'.tasks

/-- The challenges that were sent for one name have the same salt, as long as it has the same
credential. -/
structure Repeats (c : LoginServer) : Prop where
  issued : ∀ t ∈ c.tasks, t.1.sent.filterMap Answer.issued = t.1.challenged.map PendingAuth.data
  salt : ∀ t ∈ c.tasks, ∀ t' ∈ c.tasks, ∀ p ∈ t.1.challenged, ∀ p' ∈ t'.1.challenged,
    p.username = p'.username → p.account.map Prod.snd = p'.account.map Prod.snd → p.salt = p'.salt

/-- Whatever the connections ask for, and however wrongly they respond, the server that has
the account cannot be told from the one that does not. -/
def Untold (P : Primitives) (key : Vector UInt8 32) (db : AccountTables) (account : AccountRow) : Prop :=
  ∀ (s : Door) (turns : List (Turn LoginRequest)) (c : LoginServer), s.auth.pool.db = db →
    s.auth.decoyKey = some key →
    Run (Guarded (LoginServer.Takes P) (Tasks.Asked (Guesses P account.id))) ⟨s, []⟩ turns c →
    ∃ c', Run (LoginServer.Takes P) ⟨s.without account.username, []⟩ turns c' ∧ Alike c c' ∧
      Repeats c ∧ Repeats c'

section Apart

variable {P : Primitives} {username id : String} {key : Vector UInt8 32} {c c' : LoginServer}

/-- Of two in step, one is over when the other is. -/
theorem over_iff {p q : LoginCall Unit} {T : Prog.Twin Door Visit LoginStep}
    {Q : Unit → Unit → Prop} {E : ConnectionError → ConnectionError → Prop}
    (h : p.Lockstep T Q E q) : q.Over ↔ p.Over := by
  cases p with
  | done a =>
    obtain ⟨_, rfl, -⟩ := h
    exact Iff.rfl
  | fail e =>
    obtain ⟨_, rfl, -⟩ := h
    exact Iff.rfl
  | step label x next =>
    obtain ⟨_, _, _, _, rfl, -⟩ := h
    exact Iff.rfl

theorem alike_of_twins (h : Tasks.Twins (doors P username id key) c c') : Alike c c' :=
  h.tasks.imp fun _ _ ht => ⟨ht.1.sent, over_iff ht.2⟩

/-- The salt is that of the name and the credential. -/
theorem PendingAuth.saltFrom_eq {p p' : PendingAuth} (hname : p.username = p'.username)
    (haccount : p.account.map Prod.snd = p'.account.map Prod.snd) :
    p.saltFrom P key = p'.saltFrom P key := by
  unfold PendingAuth.saltFrom
  rw [hname]
  cases hp : p.account with
  | none =>
    cases hp' : p'.account with
    | none => rfl
    | some account' =>
      rw [hp, hp'] at haccount
      cases haccount
  | some account =>
    cases hp' : p'.account with
    | none =>
      rw [hp, hp'] at haccount
      cases haccount
    | some account' =>
      rw [hp, hp'] at haccount
      exact congrArg StoredCredential.salt (Option.some.inj haccount)

/-- Connections whose challenges all have the salt that is due repeat it. -/
theorem repeats_of_salts
    (hissued : ∀ t ∈ c.tasks, t.1.sent.filterMap Answer.issued = t.1.challenged.map PendingAuth.data)
    (hsalts : ∀ t ∈ c.tasks, ∀ p ∈ t.1.challenged, p.salt = p.saltFrom P key) : Repeats c := by
  refine ⟨hissued, fun t ht t' ht' p hp p' hp' hname haccount => ?_⟩
  rw [hsalts t ht p hp, hsalts t' ht' p' hp']
  exact PendingAuth.saltFrom_eq hname haccount

/-- What pairs of related elements say of the first and of the second of them. -/
theorem forall_mem_of_forall₂ {α β : Type*} {R : α → β → Prop} {p : α → Prop} {q : β → Prop} {as : List α}
    {bs : List β} (h : List.Forall₂ R as bs) (hp : ∀ a b, R a b → p a ∧ q b) :
    (∀ a ∈ as, p a) ∧ ∀ b ∈ bs, q b :=
  ⟨((List.forall₂_and_left as bs).mp (h.imp fun a b hab => ⟨(hp a b hab).1, hab⟩)).1,
    ((List.forall₂_and_left bs as).mp (h.flip.imp fun b a hab => ⟨(hp a b hab).2, hab⟩)).1⟩

theorem repeats_of_twins (h : Tasks.Twins (doors P username id key) c c') :
    Repeats c ∧ Repeats c' := by
  have hissued := forall_mem_of_forall₂ h.tasks fun _ _ ht => ⟨ht.1.issued, ht.1.issued'⟩
  have hsalts := forall_mem_of_forall₂ h.tasks fun _ _ ht =>
    forall_mem_of_forall₂ ht.1.challenged fun _ _ hp => ⟨hp.salt, hp.salt'⟩
  exact ⟨repeats_of_salts hissued.1 hsalts.1, repeats_of_salts hissued.2 hsalts.2⟩

/-- A server and the same server without an account whose credential is plain. -/
theorem hidden_without {s : Door} {account : AccountRow} {credential : StoredCredential}
    (hprepared : s.auth.decoyKey = some key) (hadmissible : Admissible s.auth.pool.db)
    (haccount : account ∈ s.auth.pool.db.accounts)
    (hcredential : account.credential.bind StoredCredential.decode = some credential)
    (hplain : Plain credential) :
    Hidden account.username account.id key s (s.without account.username) := by
  have hunique : ∀ row ∈ s.auth.pool.db.accounts, row.username = account.username → row = account :=
    fun row hrow hname => s.auth.pool.db.accounts_username.eq hrow haccount hname
  refine ⟨⟨rfl, rfl, hprepared, hprepared, hadmissible, fun row hrow hname => ?_,
    fun row hrow hname other hother => ?_⟩, rfl, rfl, rfl⟩
  · rw [hunique row hrow hname]
  · rw [hunique row hrow hname, hcredential] at hother
    exact Option.some.inj hother ▸ hplain

theorem alikeVisits_fresh : AlikeVisits P username key .fresh .fresh := ⟨rfl, .nil, rfl, rfl⟩

/-- **A plain account is not told.** -/
theorem untold_of_plain {db : AccountTables} {account : AccountRow} {credential : StoredCredential}
    (hadmissible : Admissible db) (haccount : account ∈ db.accounts)
    (hcredential : account.credential.bind StoredCredential.decode = some credential)
    (hplain : Plain credential) : Untold P key db account := by
  rintro s turns c rfl hprepared hrun
  have hstart : Tasks.Twins (doors P account.username account.id key) (⟨s, []⟩ : LoginServer)
      ⟨s.without account.username, []⟩ :=
    ⟨hidden_without hprepared hadmissible haccount hcredential hplain, .nil⟩
  obtain ⟨c', hrun', htwins⟩ :=
    Tasks.lockstep_run lockstep_serveLogin alikeVisits_fresh hstart hrun
  exact ⟨c', hrun', alike_of_twins htwins, repeats_of_twins htwins⟩

/-! One request for a challenge tells any other account. -/

/-- A server that was just started, with its decoy key loaded. -/
def opened (key : Vector UInt8 32) (db : AccountTables) : Door :=
  ⟨⟨⟨db, []⟩, some key.toList, some key, []⟩, ∅, 0, []⟩

/-- A connection that asks for a challenge and is gone. -/
def asking (name : String) : List (Turn LoginRequest) :=
  [.start (.connection (.v4 0) (Vector.replicate 32 0)
    [.request name (Vector.replicate 32 0) (Vector.replicate 32 0)]),
    .step 0, .step 0, .step 0, .step 0]

/-- The steps of a refusal, on a fresh limiter. -/
theorem solo_refusal {name : String} {s : Door × Visit} (hname : name.utf8ByteSize ≤ maxUsernameLen)
    (hlimiter : s.1.limiter = ∅) :
    (refusal (.v4 0) name).Solo (Guesses P id) s 1 (.ok none) s := by
  have hcheck : (checkLimiter (Source.of (.v4 0) (truncateUtf8 name maxUsernameLen))).Solo
      (Guesses P id) s 1 (.ok (.ok ())) s := by
    have hok : s.1.limiter.check s.1.now (Source.of (.v4 0) (truncateUtf8 name maxUsernameLen)) =
        .ok () := by
      rw [hlimiter]
      rfl
    exact hok ▸ Prog.Solo.single trivial
  refine Prog.Solo.bind (n := 1) (m := 0) hcheck ?_
  dsimp only
  rw [if_neg (not_lt.mpr hname)]
  exact .done _ _

/-- A row's credential is read without another step, and so is that there is no row. -/
theorem solo_begin (auth : AuthManager) (own : Dialogue) (challenge : Vector UInt8 32) {name : String}
    {account : Option (AccountRow × StoredCredential)} (hprepared : auth.decoyKey = some key) (hquiet : auth.pool.faults = [])
    (haccount : accountFor P (auth.pool.db.account name) = pure account) :
    ∃ (t : AuthManager × Dialogue) (pending : PendingAuth),
      (begin P challenge challenge challenge name).Solo (fun _ => True) (auth, own) 2
        (.ok (pending.data, pending)) t ∧ pending.salt = pending.saltFrom P key ∧
        pending.challenge = challenge ∧ pending.username = name ∧ pending.account = account := by
  have hloaded : (loadDecoyKey P challenge).Solo (fun _ => True) (auth, own) 1 (.ok key) (auth, own) := by
    refine Prog.Solo.bind (n := 1) (m := 0) (a := some key) ?_ (.done _ _)
    rw [← hprepared]
    exact .single trivial
  have hreturns : Returns (Accounts.byUsername name) auth.pool (auth.pool.db.account name)
      ⟨auth.pool.db, auth.pool.faults.tail⟩ := by
    unfold Accounts.byUsername query
    exact statement_returns (by rw [hquiet]; rfl) rfl
  have hread : (byUsername name).Solo (fun _ => True) (auth, own) 1
      (.ok (auth.pool.db.account name))
      ({ auth with pool := ⟨auth.pool.db, auth.pool.faults.tail⟩ }, { own with
        readings := own.readings ++
          ((auth.pool.db.account name).map (Reading.mk auth.history.length)).toList }) :=
    .call trivial (calling_returns hreturns)
  let pending : PendingAuth := ⟨challenge, name, challenge,
    PendingAuth.saltFrom P key ⟨challenge, name, challenge, [], account⟩, account⟩
  have husable : ∀ t, (accountFor P (auth.pool.db.account name)).Solo (fun _ => True) t 0 (.ok account) t :=
    fun t => haccount ▸ .done account t
  exact ⟨_, pending, Prog.Solo.bind (n := 1) (m := 1) hloaded (Prog.Solo.bind (n := 1) (m := 0) hread
    (Prog.Solo.bind (n := 0) (m := 0) (husable _) (.done _ _))), rfl, rfl, rfl, rfl⟩

/-- **A request for a challenge is answered with one.** -/
theorem run_asking (P : Primitives) (id : String) (key : Vector UInt8 32) {db : AccountTables}
    {name : String} {account : Option (AccountRow × StoredCredential)} (hname : name.utf8ByteSize ≤ maxUsernameLen)
    (haccount : accountFor P (db.account name) = pure account) :
    ∃ (c : LoginServer) (pending : PendingAuth),
      Run (Guarded (LoginServer.Takes P) (Tasks.Asked (Guesses P id))) ⟨opened key db, []⟩
        (asking name) c ∧ c.tasks.map (fun t => t.1.sent) = [[.challenge pending.data]] ∧
      pending.salt = pending.saltFrom P key ∧ pending.username = name ∧ pending.account = account := by
  obtain ⟨t, pending, hbegin, hsalt, -, hpending, haccount'⟩ :=
    solo_begin (opened key db).auth .fresh (Vector.replicate 32 0) rfl rfl haccount
  obtain ⟨t', hlifted, hsent⟩ : ∃ t', ((begin P (Vector.replicate 32 0) (Vector.replicate 32 0)
      (Vector.replicate 32 0) name).lift authField dialogueField LoginStep.manager).Solo (Guesses P id)
      (opened key db, Visit.fresh) 2 (.ok (pending.data, pending)) t' ∧ t'.2.sent = [] :=
    hbegin.lift (fun w : Door × Visit => w.2.sent = []) (fun _ _ _ h => h) (fun _ _ => trivial) rfl rfl
  have hsend : (sendChallenge pending.data pending).Solo (Guesses P id) t' 1 (.ok ())
      (t'.1, { t'.2 with
        sent := t'.2.sent ++ [.challenge pending.data], challenged := t'.2.challenged ++ [pending] }) :=
    .single trivial
  have hserve : (serveLogin P (.connection (.v4 0) (Vector.replicate 32 0)
      [.request name (Vector.replicate 32 0) (Vector.replicate 32 0)])).Solo (Guesses P id)
      (opened key db, Visit.fresh) 4 (.error .peerClosed) (t'.1, { t'.2 with
        sent := t'.2.sent ++ [.challenge pending.data], challenged := t'.2.challenged ++ [pending] }) := by
    refine Prog.Solo.bind_error ?_
    rw [authenticate]
    refine Prog.Solo.bind (n := 1) (m := 3)
      (solo_refusal (s := (opened key db, Visit.fresh)) hname rfl) ?_
    refine Prog.Solo.bind (n := 2) (m := 1) hlifted.attempt ?_
    refine Prog.Solo.bind (n := 0) (m := 1) (.done _ _) ?_
    exact Prog.Solo.bind (n := 1) (m := 0) hsend (.fail _ _)
  refine ⟨_, pending, .cons ⟨rfl, trivial⟩ hserve.run, ?_, hsalt, hpending, haccount'⟩
  simp only [List.map_singleton, hsent, List.nil_append]

/-- The account of a name, with its credential, as a login finds it. -/
theorem accountFor_account {db : AccountTables} (hadmissible : Admissible db) {account : AccountRow}
    (haccount : account ∈ db.accounts) {credential : StoredCredential}
    (hcredential : account.credential.bind StoredCredential.decode = some credential) :
    accountFor P (db.account account.username) = pure (some (account, credential)) := by
  obtain ⟨-, encoded, hok, hrow⟩ := hadmissible account haccount
  rw [hrow, Option.bind_some, StoredCredential.decode_acceptable hok] at hcredential
  obtain rfl := Option.some.inj hcredential
  rw [AccountTables.account_username haccount, accountFor, credentialFor_acceptable hok hrow]
  rfl

/-- **An account that is not plain is told by its challenge.** -/
theorem plain_of_untold {db : AccountTables} {account : AccountRow} {credential : StoredCredential}
    (hadmissible : Admissible db) (haccount : account ∈ db.accounts)
    (hcredential : account.credential.bind StoredCredential.decode = some credential)
    (h : Untold P key db account) : Plain credential := by
  have hname := (hadmissible account haccount).1
  obtain ⟨c, pending, hrun, hsent, hsalt, hpending, hfound⟩ := run_asking P account.id key hname
    (accountFor_account hadmissible haccount hcredential)
  obtain ⟨c', hrun', halike, -⟩ := h (opened key db) _ c rfl rfl hrun
  have hnone : accountFor P ((db.without account.username).account account.username) = pure none := by
    have hmissing : (db.without account.username).account account.username = none := by
      rw [AccountTables.account, AccountTables.without, List.find?_filter]
      exact List.find?_eq_none.mpr (by simp)
    rw [hmissing]
    rfl
  -- what the other server sends is known: it takes the same turns
  obtain ⟨d, pending', hrunD, hsent', hsalt', hpending', hfound'⟩ :=
    run_asking P account.id key hname hnone
  have hsame : d = c' := Option.some.inj ((perform_of_run (hrunD.mono And.left)).symm.trans
    (perform_of_run hrun'))
  subst hsame
  have hshapes : (d.tasks.map fun t => t.1.sent).map (List.map Answer.shape) =
      (c.tasks.map fun t => t.1.sent).map (List.map Answer.shape) := by
    rw [List.map_map, List.map_map]
    refine List.ext_getElem (by simp [halike.length_eq]) fun i hi hi' => ?_
    simp only [List.getElem_map, Function.comp_apply]
    rw [List.length_map] at hi hi'
    exact ((List.forall₂_iff_get.mp halike).2 i hi' hi).1
  rw [hsent, hsent'] at hshapes
  simp only [List.map_singleton, List.cons.injEq, and_true, Answer.shape, PendingAuth.data,
    Answer.challenge.injEq, ChallengeData.mk.injEq, hsalt, hsalt', PendingAuth.saltFrom,
    PendingAuth.paramsFrom, hfound, hfound', length_decoySalt] at hshapes
  obtain ⟨-, hlength, hparams⟩ := hshapes
  refine ⟨hparams.symm, ?_⟩
  have hlengths := congrArg List.length hlength
  rw [List.length_replicate, List.length_replicate] at hlengths
  exact hlengths.symm

end Apart

/-- **An unknown user can be told from a wrong password exactly when the account's credential
is not plain.** Challenges for an account with today's parameters and salt length are like
decoys for ever, as long as it is only given plain credentials; those for any other account
are not. -/
theorem untold_iff_plain (P : Primitives) (key : Vector UInt8 32) {db : AccountTables}
    {account : AccountRow} {credential : StoredCredential} (hadmissible : Admissible db)
    (haccount : account ∈ db.accounts)
    (hcredential : account.credential.bind StoredCredential.decode = some credential) :
    Untold P key db account ↔ Plain credential :=
  ⟨plain_of_untold hadmissible haccount hcredential,
    untold_of_plain hadmissible haccount hcredential⟩

/-! An account made over the wire by a client that derives more slowly, and one like most. -/

namespace Told

/-- Functions that give the same to everyone. -/
def primitives : Primitives where
  hmac _ _ := Vector.replicate 32 1
  sha256 _ := Vector.replicate 32 2
  parsePhc _ := none

/-- A credential with costs of its own. -/
def strong : StoredCredential :=
  ⟨List.replicate 16 3, ⟨65536, 3, 1⟩, Vector.replicate 32 4, Vector.replicate 32 5⟩

/-- A credential with the default costs. -/
def usual : StoredCredential :=
  ⟨List.replicate 16 6, defaultParams, Vector.replicate 32 7, Vector.replicate 32 8⟩

/-- An account with a credential. -/
def row (credential : StoredCredential) : AccountRow := ⟨"a1", "phraq", "", some credential.encode, 1, 0, 0⟩

/-- The tables with that account alone. -/
def tables (credential : StoredCredential) : AccountTables where
  accounts := [row credential]
  roles := []
  accountRoles := []
  bans := []
  accounts_id := List.nodup_singleton _
  accounts_username := List.nodup_singleton _
  roles_id := uniqueKey_nil _
  roles_name := uniqueKey_nil _
  accountRoles_pk := accountRoles_pk_nil
  accountRoles_account := by simp
  accountRoles_role := accountRoles_role_nil
  bans_pk := uniqueKey_nil _
  bans_account := by simp

theorem admissible {credential : StoredCredential} (h : credential.checkAcceptable = .ok ()) :
    Admissible (tables credential) := by
  intro r hr
  obtain rfl := List.mem_singleton.mp hr
  have hname : "phraq".utf8ByteSize ≤ maxUsernameLen := by decide
  exact ⟨hname, credential, h, rfl⟩

theorem mem_tables (credential : StoredCredential) : row credential ∈ (tables credential).accounts :=
  List.mem_singleton.mpr rfl

theorem credential_row {credential : StoredCredential} (h : credential.checkAcceptable = .ok ()) :
    (row credential).credential.bind StoredCredential.decode = some credential := by
  simp only [row, Option.bind_some, StoredCredential.decode_acceptable h]

theorem acceptable_strong : strong.checkAcceptable = .ok () := rfl

theorem acceptable_usual : usual.checkAcceptable = .ok () := rfl

end Told

open Told in
/-- **Not every account that may be made is like an unknown name.** -/
theorem not_untold : ¬∀ (P : Primitives) (key : Vector UInt8 32) (db : AccountTables), Admissible db →
    ∀ account ∈ db.accounts, Untold P key db account := by
  intro hall
  have hplain := plain_of_untold (admissible acceptable_strong) (mem_tables strong)
    (credential_row acceptable_strong)
    (hall primitives (Vector.replicate 32 0) _ (admissible acceptable_strong) _ (mem_tables strong))
  exact absurd hplain.1 (by decide)

open Told in
theorem untold_iff_plain_usual :
    Untold primitives (Vector.replicate 32 0) (tables usual) (row usual) ∧
      ¬Untold primitives (Vector.replicate 32 0) (tables strong) (row strong) :=
  ⟨(untold_iff_plain _ _ (admissible acceptable_usual) (mem_tables usual)
      (credential_row acceptable_usual)).mpr ⟨rfl, by decide⟩,
    fun h => absurd ((untold_iff_plain _ _ (admissible acceptable_strong) (mem_tables strong)
      (credential_row acceptable_strong)).mp h).1 (by decide)⟩

end Auth

end KdxHotline
