import Mathlib.Data.Multiset.Bind
import KdxHotline.Auth.Passwords

/-!
# A password change replaces what it was proven against

Every write of a credential is in a log, in order, with why it was made. What is stored is
what the log says (`KdxHotline.Auth.Recorded`), so a statement that compares before it
writes says what the last write was. Whoever was told that a change or a reset went well has
an entry of its own in it.

A change compares texts. If the text it began with is there, it is stored, even if another
one was there in between (`KdxHotline.Auth.not_untouched`); but then that one was put back,
by a reset or by another change (`KdxHotline.Auth.Replaces`).
-/

namespace KdxHotline

namespace Auth

open Foundations Storage Crypto

open Accounts (credentialText Rewrites)

/-! ### What a write is good for -/

section Steps

variable (P : Primitives)

/-- A password change that began with a row. -/
structure Pinned (row : AccountRow) (pending : PendingPasswordChange) : Prop where
  id : row.id = pending.accountId
  holds : holdsCredential P row pending.credential = true
  stored : pending.stored = row.credential.getD pending.credential.encode

/-- A write is the end of a change that began with one row, and whose proof verified against
what that row held. -/
structure ProvenBy (w : CredentialWrite) (pending : PendingPasswordChange) (new : StoredCredential)
    (proof : Vector UInt8 32) : Prop where
  accountId : w.accountId = pending.accountId
  text : w.text = new.encode
  verified : (pending.credential.verifyPasswordChangeProof P pending.username pending.challenge
    pending.channelBinding new proof).isSome
  began : ∃ n row, w.readings = [⟨n, row⟩] ∧ Pinned P row pending

/-- What a write may be, by the text that it replaces. -/
def CredentialWrite.Justified (before : Option String) (w : CredentialWrite) : Prop :=
  match w.cause with
  | .converted => before = none
  | .reset => True
  | .changed pending new proof => before = some pending.stored ∧ ProvenBy P w pending new proof

/-- A login that was let in had read the account twice, and both rows held the credential
that its proof verified against. -/
def Admits (readings : List Reading) (login : PendingAuth × Vector UInt8 32) : Prop :=
  ∃ n row credential m row', [⟨n, row⟩, ⟨m, row'⟩] <+: readings ∧
    login.1.account = some (row, credential) ∧
    (credential.verifyProof P login.1.username login.1.challenge login.1.channelBinding login.2).isSome ∧
    row'.id = row.id ∧ holdsCredential P row' credential = true

/-- The write that a client was told of. -/
def Success.Tells (w : CredentialWrite) : Success → Prop
  | changed pending new proof => w.cause = .changed pending new proof
  | reset accountId credential =>
    w.cause = .reset ∧ w.accountId = accountId ∧ w.text = credential.encode

/-- What a step does. -/
def AuthMove : AuthStep → AuthManager × Dialogue → AuthManager × Dialogue → Prop
  | .consult, s, t => t.1.pool.db = s.1.pool.db ∧ t.1.history = s.1.history ∧ t.2 = s.2
  | .read, s, t => t.1.pool.db = s.1.pool.db ∧ t.1.history = s.1.history ∧ (t.2 = s.2 ∨
      ∃ row ∈ s.1.pool.db.accounts,
        t.2 = { s.2 with readings := s.2.readings ++ [⟨s.1.history.length, row⟩] })
  | .write, s, t => (t.2 = s.2 ∧ t.1.pool.db = s.1.pool.db ∧ t.1.history = s.1.history) ∨
      ∃ w : CredentialWrite, w.Justified P (credentialText s.1.pool.db w.accountId) ∧
        w.readings = s.2.readings ∧ t.1.history = s.1.history ++ [w] ∧
        t.2 = s.2.noting s.1.history.length w ∧ ∀ k, credentialText t.1.pool.db k =
          if w.accountId = k then some w.text else credentialText s.1.pool.db k
  | .enter, s, t => t.1 = s.1 ∧
      ∃ login, t.2 = { s.2 with admitted := some login } ∧ Admits P s.2.readings login
  | .answer, s, t => t.1 = s.1 ∧ ∃ success, t.2 = { s.2 with answered := some success } ∧
      ∃ entry ∈ s.2.wrote, success.Tells entry.2

variable {P} {α : Type} {own : Dialogue}

/-- A change stores in place of a text that reads back as what its proof verified against. -/
theorem Pinned.decode {row : AccountRow} {pending : PendingPasswordChange} (h : Pinned P row pending) :
    StoredCredential.decode pending.stored = some pending.credential := by
  have hholds := h.holds
  rw [h.stored]
  unfold holdsCredential at hholds
  split at hholds
  case h_1 encoded hrow =>
    rw [hrow]
    exact of_decide_eq_true hholds
  case h_2 hrow =>
    rw [hrow]
    exact StoredCredential.decode_fromLegacyPhc (of_decide_eq_true hholds)

/-- A call that returns has changed the tables as the statement did, and noted it. -/
theorem returns_calling {x : Fallible AccountPool StorageError α}
    {note : α → AuthManager × Dialogue → AuthManager × Dialogue} {s t : AuthManager × Dialogue} {a : α}
    (h : Returns (calling x note) s a t) :
    ∃ q, Returns x s.1.pool a q ∧ t = note a ({ s.1 with pool := q }, s.2) := by
  simp only [Returns, calling, EStateM.run] at h ⊢
  cases hx : x s.1.pool with
  | ok b q =>
    rw [hx] at h
    cases h
    exact ⟨q, rfl, rfl⟩
  | error e q =>
    rw [hx] at h
    cases h

/-- A call that fails is one whose statement failed, and notes nothing. -/
theorem fails_calling {x : Fallible AccountPool StorageError α}
    {note : α → AuthManager × Dialogue → AuthManager × Dialogue} {s t : AuthManager × Dialogue}
    {e : LoginError} (h : Fails (calling x note) s e t) :
    ∃ q e', Fails x s.1.pool e' q ∧ t = ({ s.1 with pool := q }, s.2) := by
  simp only [Fails, calling, EStateM.run] at h ⊢
  cases hx : x s.1.pool with
  | ok b q =>
    rw [hx] at h
    cases h
  | error e' q =>
    rw [hx] at h
    cases h
    exact ⟨q, e', rfl, rfl⟩

theorem moves_consulting {x : Fallible AccountPool StorageError α} (hx : Keeps Pool.db x) :
    (consulting x).Moves (AuthMove P) (fun _ own' => own' = own) (fun _ own' => own' = own) own := by
  refine Prog.moves_call (fun s a t hret => ?_) fun s e t hfail => ?_
  · obtain ⟨q, hq, rfl⟩ := returns_calling hret
    exact ⟨⟨hx.returns hq, rfl, rfl⟩, rfl⟩
  · obtain ⟨q, e', hq, rfl⟩ := fails_calling hfail
    exact ⟨⟨hx.fails hq, rfl, rfl⟩, rfl⟩

/-- Reading an account notes what was read. -/
theorem moves_byUsername {username : String} :
    (byUsername username).Moves (AuthMove P)
      (fun row own' => ∃ n, own' = { own with readings := own.readings ++ (row.map (Reading.mk n)).toList })
      (fun _ _ => True) own := by
  refine Prog.moves_call (fun s a t hret => ?_) fun s e t hfail => ?_
  · obtain ⟨q, hq, rfl⟩ := returns_calling hret
    obtain ⟨rfl, hdb⟩ := returns_query hq
    refine ⟨⟨hdb, rfl, ?_⟩, ⟨_, rfl⟩⟩
    cases hrow : s.pool.db.account username with
    | none =>
      refine .inl ?_
      dsimp only [Option.map_none, Option.toList_none]
      rw [List.append_nil]
    | some row => exact .inr ⟨row, (AccountTables.mem_of_account hrow).1, rfl⟩
  · obtain ⟨q, e', hq, rfl⟩ := fails_calling hfail
    exact ⟨⟨(query_keeps _).fails hq, rfl, .inl rfl⟩, trivial⟩

/-- **A statement that writes a credential writes it as it may, or not at all.** -/
theorem moves_writing {x : Fallible AccountPool StorageError Bool} {id text : String} {cause : Cause}
    {B : Option String → Prop} (hatomic : Atomic Pool.db x)
    (hx : ∀ {p done q}, Returns x p done q → Rewrites B id text p.db done q.db)
    (hbefore : ∀ c, B c → CredentialWrite.Justified P c ⟨id, text, cause, own.readings⟩) :
    (writing id text cause x).Moves (AuthMove P)
      (fun done own' => if done then ∃ n, own' = own.noting n ⟨id, text, cause, own.readings⟩
        else own' = own)
      (fun _ own' => own' = own) own := by
  refine Prog.moves_call (fun s done t hret => ?_) fun s e t hfail => ?_
  · obtain ⟨q, hq, rfl⟩ := returns_calling hret
    have hrewrites := hx hq
    cases done with
    | false => exact ⟨.inl ⟨rfl, hrewrites.missed rfl, rfl⟩, rfl⟩
    | true =>
      exact ⟨.inr ⟨_, hbefore _ (hrewrites.found rfl), rfl, rfl, rfl, hrewrites.wrote rfl⟩, _, rfl⟩
  · obtain ⟨q, e', hq, rfl⟩ := fails_calling hfail
    exact ⟨.inl ⟨rfl, hatomic.fails hq, rfl⟩, rfl⟩

/-- An upgrade writes or leaves everything as it was. -/
theorem moves_upgradeCredential {id text : String} :
    (upgradeCredential id text).Moves (AuthMove P) (fun _ own' => own' = own)
      (fun _ own' => own' = own) own := by
  have hwrites : (upgradeCredential id text).Moves (AuthMove P)
      (fun done own' => if done then ∃ n, own' = own.noting n ⟨id, text, .converted, own.readings⟩
        else own' = own)
      (fun _ own' => own' = own) own :=
    moves_writing (statement_atomic _) Accounts.rewrites_upgradeCredential fun _ h => h
  refine hwrites.mono ?_ fun _ _ h => h
  rintro (_ | _) own' hown
  · exact hown
  · obtain ⟨n, rfl⟩ := hown
    rfl

/-- A credential is usable only if the row holds it. -/
theorem moves_credentialFor {row : AccountRow} :
    (credentialFor P row).Moves (AuthMove P)
      (fun usable own' => own' = own ∧ ∀ c ∈ usable, holdsCredential P row c = true)
      (fun _ own' => own' = own) own := by
  unfold credentialFor
  split
  case h_1 encoded hrow =>
    refine Prog.moves_pure ⟨rfl, fun c hc => ?_⟩
    rw [holdsCredential, hrow]
    exact decide_eq_true hc
  case h_2 hrow =>
    split
    case h_1 credential hlegacy =>
      refine Prog.Moves.bind (Q := fun _ own' => own' = own)
        ((moves_upgradeCredential.attempt).mono ?_ fun _ _ h => h) fun _ own' hown => ?_
      · rintro (e | a) own' hown
        · exact hown
        · exact hown
      · refine Prog.moves_pure ⟨hown, fun c hc => ?_⟩
        obtain rfl := Option.mem_some_iff.mp hc
        rw [holdsCredential, hrow]
        exact decide_eq_true hlegacy
    case h_2 => exact Prog.moves_pure ⟨rfl, nofun⟩

/-- The upgrades of some rows, one after another. -/
theorem moves_upgradeRows (rows : List AccountRow) :
    (upgradeRows P rows).Moves (AuthMove P) (fun _ own' => own' = own) (fun _ own' => own' = own)
      own := by
  induction rows with
  | nil => exact Prog.moves_pure rfl
  | cons row rows ih =>
    unfold upgradeRows
    split
    case h_1 credential hlegacy =>
      refine Prog.Moves.bind moves_upgradeCredential fun _ own' hown => ?_
      rw [hown]
      exact ih
    case h_2 => exact ih

/-- The decoy key is loaded without reading an account. -/
theorem moves_loadDecoyKey {candidate : Vector UInt8 32} :
    (loadDecoyKey P candidate).Moves (AuthMove P) (fun _ own' => own' = own) (fun _ own' => own' = own)
      own := by
  refine Prog.Moves.bind (Q := fun _ own' => own' = own)
    (Prog.moves_step fun s => ⟨⟨rfl, rfl, rfl⟩, rfl⟩) ?_
  rintro (_ | key) own' rfl
  case some => exact Prog.moves_pure rfl
  refine Prog.Moves.bind (Q := fun _ own => own = own')
    (Prog.Moves.bind (moves_consulting (query_keeps _)) ?_) ?_
  · rintro rows own rfl
    exact moves_upgradeRows rows
  rintro - own rfl
  refine Prog.Moves.bind (Q := fun _ own' => own' = own) (Prog.moves_call ?_ ?_) ?_
  · intro s a t hret
    obtain ⟨q, hq, rfl⟩ := returns_calling hret
    exact ⟨⟨(query_keeps (fun _ => ())).returns hq, rfl, rfl⟩, rfl⟩
  · intro s e t hfail
    obtain ⟨q, e', hq, rfl⟩ := fails_calling hfail
    exact ⟨⟨(query_keeps (fun _ => ())).fails hq, rfl, rfl⟩, rfl⟩
  rintro - own' rfl
  refine Prog.Moves.bind (Q := fun _ own => own = own') (Prog.moves_call ?_ ?_) ?_
  · intro s a t hret
    obtain ⟨⟨⟩, u, hu, hret⟩ := returns_bind.mp hret
    obtain ⟨q, hq, rfl⟩ := returns_calling hu
    obtain ⟨v, w, hget, hret⟩ := returns_bind.mp hret
    obtain ⟨rfl, rfl⟩ := returns_get.mp hget
    obtain ⟨rfl, rfl⟩ := returns_pure.mp hret
    exact ⟨⟨(query_keeps _).returns hq, rfl, rfl⟩, rfl⟩
  · intro s e t hfail
    rcases fails_bind.mp hfail with hfail | ⟨⟨⟩, u, -, hfail⟩
    · obtain ⟨q, e', hq, rfl⟩ := fails_calling hfail
      exact ⟨⟨(query_keeps _).fails hq, rfl, rfl⟩, rfl⟩
    · rcases fails_bind.mp hfail with hfail | ⟨v, w, -, hfail⟩
      · exact absurd hfail fails_get
      · exact absurd hfail fails_pure
  rintro secret own rfl
  refine Prog.Moves.bind (Q := fun _ own' => own' = own)
    (Prog.moves_ofExcept (fun _ _ => rfl) fun _ _ => rfl) ?_
  rintro key own' rfl
  refine Prog.Moves.bind (Q := fun _ own => own = own')
    (Prog.moves_step fun s => ⟨⟨rfl, rfl, rfl⟩, rfl⟩) ?_
  rintro - own rfl
  exact Prog.moves_pure rfl

/-- **A login that begins with a usable account has read it.** -/
theorem moves_begin {candidate challenge channelBinding : Vector UInt8 32} {username : String} :
    (begin P candidate challenge channelBinding username).Moves (AuthMove P)
      (fun r own' => ∀ row credential, r.2.account = some (row, credential) →
        ∃ n, own'.readings = [⟨n, row⟩])
      (fun _ _ => True) .fresh := by
  refine Prog.Moves.bind (Q := fun _ own' => own' = Dialogue.fresh)
    (moves_loadDecoyKey.mono (fun _ _ h => h) fun _ _ _ => trivial) ?_
  rintro key own rfl
  refine Prog.Moves.bind moves_byUsername ?_
  rintro row own ⟨n, rfl⟩
  refine Prog.Moves.bind (Q := fun (account : Option (AccountRow × StoredCredential)) own' =>
    ∀ row credential, account = some (row, credential) → ∃ n, own'.readings = [⟨n, row⟩]) ?_
    fun account own' hown => Prog.moves_pure hown
  cases row with
  | none => exact Prog.moves_pure nofun
  | some row =>
    refine Prog.Moves.bind (moves_credentialFor.mono (fun _ _ h => h) fun _ _ _ => trivial) ?_
    rintro usable own' ⟨rfl, -⟩
    refine Prog.moves_pure fun row' credential haccount => ⟨n, ?_⟩
    obtain ⟨c, -, hc⟩ := Option.map_eq_some_iff.mp haccount
    rw [← (Prod.mk.inj hc).1]
    rfl

/-- Opening a session notes nothing, and writes no credential. -/
theorem moves_openSession {now : ℤ} {account : AccountRow} {credential : StoredCredential}
    {serverSignature : Vector UInt8 32} :
    (openSession P now account credential serverSignature).Moves (AuthMove P)
      (fun _ own' => own' = own) (fun _ _ => True) own := by
  refine Prog.Moves.bind ((moves_consulting (query_keeps _)).mono (fun _ _ h => h)
    fun _ _ _ => trivial) ?_
  rintro (_ | ban) own' rfl
  case some => exact Prog.moves_fail trivial
  refine Prog.Moves.bind (Q := fun _ own => own = own')
    (Prog.moves_ofExcept (fun _ _ => rfl) fun _ _ => trivial) ?_
  rintro class_ own rfl
  refine Prog.Moves.bind ((moves_consulting (query_keeps _)).mono (fun _ _ h => h)
    fun _ _ _ => trivial) ?_
  rintro roles own' rfl
  exact Prog.moves_pure rfl

/-- **A login that completes has read the row again**, and found in it the credential that its
proof verified against. -/
theorem moves_complete {now : ℤ} {pending : PendingAuth} {proof : Vector UInt8 32}
    (hown : ∀ row credential, pending.account = some (row, credential) →
      ∃ n, own.readings = [⟨n, row⟩]) :
    (complete P now pending proof).Moves (AuthMove P)
      (fun _ own' => Admits P own'.readings (pending, proof)) (fun _ _ => True) own := by
  unfold complete
  split
  case h_1 => exact Prog.moves_fail trivial
  case h_2 account credential haccount =>
    obtain ⟨n, hread⟩ := hown account credential haccount
    split
    case h_1 => exact Prog.moves_fail trivial
    case h_2 serverSignature hverified =>
      refine Prog.Moves.bind moves_byUsername ?_
      rintro (_ | row) own' ⟨m, rfl⟩
      case none => exact Prog.moves_fail trivial
      dsimp only
      split
      case isFalse => exact Prog.moves_fail trivial
      case isTrue hsame =>
        refine moves_openSession.mono ?_ fun _ _ _ => trivial
        rintro verified own' rfl
        refine ⟨n, account, credential, m, row, ?_, haccount, ?_, hsame⟩
        · rw [hread]
          exact List.prefix_rfl
        · rw [hverified]
          rfl

/-- **A change begins with one row, and is pinned to what it holds.** -/
theorem moves_beginPasswordChange {challenge channelBinding : Vector UInt8 32}
    {username accountId : String} :
    (beginPasswordChange P challenge channelBinding username accountId).Moves (AuthMove P)
      (fun r own' => ∃ n row, own'.readings = [⟨n, row⟩] ∧ Pinned P row r.2)
      (fun _ _ => True) .fresh := by
  refine Prog.Moves.bind moves_byUsername ?_
  rintro found own ⟨n, rfl⟩
  refine Prog.Moves.bind (Q := fun row own' => ∃ n, own'.readings = [⟨n, row⟩])
    (Prog.moves_ofExcept (fun row hrow => ?_) fun _ _ => trivial) ?_
  · have hfound := (Option.filter_eq_some_iff.mp (required_eq_ok.mp hrow)).1
    rw [hfound]
    exact ⟨n, rfl⟩
  rintro row own ⟨n, hread⟩
  refine Prog.Moves.bind (moves_credentialFor.mono (fun _ _ h => h) fun _ _ _ => trivial) ?_
  rintro usable own' ⟨rfl, husable⟩
  refine Prog.Moves.bind (Q := fun credential own => own = own' ∧ usable = some credential)
    (Prog.moves_ofExcept (fun credential hc => ⟨rfl, required_eq_ok.mp hc⟩) fun _ _ => trivial) ?_
  rintro credential own ⟨rfl, hc⟩
  exact Prog.moves_pure ⟨n, row, hread, rfl, husable credential hc, rfl⟩

/-- **A change is stored in place of what it is pinned to**, and only then succeeds. -/
theorem moves_completePasswordChange {pending : PendingPasswordChange} {proof : Vector UInt8 32}
    {new : StoredCredential} (hown : ∃ n row, own.readings = [⟨n, row⟩] ∧ Pinned P row pending) :
    (completePasswordChange P pending proof new).Moves (AuthMove P)
      (fun _ own' => ∃ entry ∈ own'.wrote, (Success.changed pending new proof).Tells entry.2)
      (fun _ _ => True) own := by
  refine Prog.Moves.bind (Q := fun _ own' => own' = own)
    (Prog.moves_ofExcept (fun _ _ => rfl) fun _ _ => trivial) ?_
  rintro - own' rfl
  refine Prog.Moves.bind (Q := fun signature own => own = own' ∧
      pending.credential.verifyPasswordChangeProof P pending.username pending.challenge
        pending.channelBinding new proof = some signature)
    (Prog.moves_ofExcept (fun _ hs => ⟨rfl, required_eq_ok.mp hs⟩) fun _ _ => trivial) ?_
  rintro signature own ⟨rfl, hverified⟩
  refine Prog.Moves.bind ((moves_writing (B := fun c => c = some pending.stored)
    (statement_atomic _) (fun hret => ?_) ?_).mono (fun _ _ h => h) fun _ _ _ => trivial) ?_
  · have hrewrites := Accounts.rewrites_setCredential hret
    exact ⟨fun hdone => (hrewrites.found hdone).resolve_left (Option.some_ne_none _), hrewrites.wrote,
      hrewrites.missed⟩
  · rintro c rfl
    exact ⟨rfl, rfl, rfl, by rw [hverified]; rfl, hown⟩
  rintro (_ | _) own' hown'
  · exact Prog.moves_fail trivial
  · obtain ⟨n, rfl⟩ := hown'
    exact Prog.moves_pure ⟨_, List.mem_concat_self, rfl⟩

/-- **A reset succeeds only if it is stored.** -/
theorem moves_setCredential {accountId : String} {credential : StoredCredential} :
    (setCredential accountId credential).Moves (AuthMove P)
      (fun done own' => done = true →
        ∃ entry ∈ own'.wrote, (Success.reset accountId credential).Tells entry.2)
      (fun _ _ => True) own := by
  refine Prog.Moves.bind (Q := fun _ own' => own' = own)
    (Prog.moves_ofExcept (fun _ _ => rfl) fun _ _ => trivial) ?_
  rintro - own' rfl
  have hwrites : (writing accountId credential.encode .reset
      (Accounts.setCredential accountId credential.encode none)).Moves (AuthMove P)
      (fun done own => if done then
          ∃ n, own = own'.noting n ⟨accountId, credential.encode, .reset, own'.readings⟩
        else own = own')
      (fun _ own => own = own') own' := by
    refine moves_writing (B := fun _ => True) (statement_atomic _) (fun hret => ?_) fun c _ => trivial
    have hrewrites := Accounts.rewrites_setCredential hret
    exact ⟨fun _ => trivial, hrewrites.wrote, hrewrites.missed⟩
  refine hwrites.mono ?_ fun _ _ _ => trivial
  rintro done own hown rfl
  obtain ⟨n, rfl⟩ := hown
  exact ⟨_, List.mem_concat_self, rfl, rfl, rfl⟩

/-- Reading a stamp writes no credential. -/
theorem moves_credentialStampOf {username accountId : String} :
    (credentialStampOf P username accountId).Moves (AuthMove P) (fun _ _ => True) (fun _ _ => True)
      own := by
  refine Prog.Moves.bind moves_byUsername ?_
  rintro (_ | row) own' -
  · exact Prog.moves_pure trivial
  dsimp only
  split
  case isTrue => exact Prog.moves_pure trivial
  case isFalse =>
    exact Prog.Moves.bind (moves_credentialFor.mono (fun _ _ h => h) fun _ _ _ => trivial)
      fun _ _ _ => Prog.moves_pure trivial

/-- **Every dialogue takes the steps that are allowed.** -/
theorem moves_serveAuth : ∀ request : AuthRequest,
    (serveAuth P request).Moves (AuthMove P) (fun _ _ => True) (fun _ _ => True) .fresh
  | .login candidate challenge channelBinding username now proof => by
    refine Prog.Moves.bind moves_begin ?_
    rintro ⟨data, pending⟩ own hread
    refine Prog.Moves.bind (moves_complete hread) fun verified own hadmits => ?_
    exact Prog.moves_step fun s => ⟨⟨rfl, _, rfl, hadmits⟩, trivial⟩
  | .change challenge channelBinding username accountId proof new => by
    refine Prog.Moves.bind moves_beginPasswordChange ?_
    rintro ⟨data, pending⟩ own hown
    refine Prog.Moves.bind (moves_completePasswordChange hown) fun _ own' hwrote => ?_
    exact Prog.moves_step fun s => ⟨⟨rfl, _, rfl, hwrote⟩, trivial⟩
  | .reset accountId credential => by
    refine Prog.Moves.bind moves_setCredential ?_
    rintro (_ | _) own' hwrote
    · exact Prog.moves_pure trivial
    · exact Prog.moves_step fun s => ⟨⟨rfl, _, rfl, hwrote rfl⟩, trivial⟩
  | .stamp username accountId =>
    Prog.Moves.bind moves_credentialStampOf fun _ _ _ => Prog.moves_pure trivial
  | .prepare candidate =>
    Prog.Moves.bind (moves_loadDecoyKey.mono (fun _ _ h => h) fun _ _ _ => trivial)
      fun _ _ _ => Prog.moves_pure trivial

end Steps

/-! ### What the log says -/

section Log

variable {P : Primitives} {start : AuthManager} {history : List CredentialWrite} {id : String}

/-- The text of an account's credential after a log of writes. -/
def storedAfter (start : AuthManager) (history : List CredentialWrite) (id : String) : Option String :=
  written CredentialWrite.accountId (fun w => some w.text) (credentialText start.pool.db) history id

/-- A row was read as it was after the first writes of the log. -/
def Seen (start : AuthManager) (history : List CredentialWrite) (r : Reading) : Prop :=
  r.writes ≤ history.length ∧ storedAfter start (history.take r.writes) r.row.id = r.row.credential

theorem Seen.concat {r : Reading} (h : Seen start history r) (w : CredentialWrite) :
    Seen start (history ++ [w]) r := by
  refine ⟨h.1.trans (by simp), ?_⟩
  rw [List.take_append_of_le_length h.1]
  exact h.2

/-- An account that was written to has a credential from then on. -/
theorem storedAfter_ne_none {u : CredentialWrite} (hu : u ∈ history) (hid : u.accountId = id) :
    storedAfter start history id ≠ none := by
  obtain ⟨w, -, -, hw⟩ := written_of_mem hu hid
  rw [storedAfter, ← hw]
  exact Option.some_ne_none _

/-- What is known of a dialogue by what it has read and by the log. -/
structure Dialogue.Backed (P : Primitives) (start : AuthManager) (history : List CredentialWrite)
    (own : Dialogue) : Prop where
  seen : ∀ r ∈ own.readings, Seen start history r
  admitted : ∀ login ∈ own.admitted, Admits P own.readings login
  wrote : ∀ entry ∈ own.wrote, history[entry.1]? = some entry.2
  answered : ∀ success ∈ own.answered, ∃ entry ∈ own.wrote, success.Tells entry.2

theorem Dialogue.Backed.concat {own : Dialogue} (h : own.Backed P start history)
    (w : CredentialWrite) : own.Backed P start (history ++ [w]) where
  seen r hr := (h.seen r hr).concat w
  admitted := h.admitted
  wrote entry hentry := by
    have hold := h.wrote entry hentry
    rw [List.getElem?_append_left (List.getElem?_eq_some_iff.mp hold).1, hold]
  answered := h.answered

/-- A dialogue that writes has the newest entry. -/
theorem Dialogue.Backed.noting {own : Dialogue} (h : own.Backed P start history)
    (w : CredentialWrite) : (own.noting history.length w).Backed P start (history ++ [w]) := by
  have hkeep := h.concat w
  unfold Dialogue.noting
  split
  case h_1 => exact hkeep
  case h_2 =>
    refine ⟨hkeep.seen, hkeep.admitted, fun entry hentry => ?_, fun success hsuccess => ?_⟩
    · rcases List.mem_append.mp hentry with hold | hnew
      · exact hkeep.wrote entry hold
      · obtain rfl := List.mem_singleton.mp hnew
        simp
    · obtain ⟨entry, hentry, htells⟩ := h.answered success hsuccess
      exact ⟨entry, List.mem_append_left _ hentry, htells⟩

/-- The numbers of the writes that a dialogue was there for. -/
def Dialogue.entries (own : Dialogue) : Multiset ℕ := own.wrote.map Prod.fst

theorem Dialogue.Backed.entries_lt {own : Dialogue} (h : own.Backed P start history) :
    ∀ n ∈ own.entries, n < history.length := by
  intro n hn
  obtain ⟨entry, hentry, rfl⟩ := List.mem_map.mp (Multiset.mem_coe.mp hn)
  exact (List.getElem?_eq_some_iff.mp (h.wrote entry hentry)).1

theorem Dialogue.entries_noting (own : Dialogue) (n : ℕ) (w : CredentialWrite) :
    (own.noting n w).entries = own.entries ∨ (own.noting n w).entries = n ::ₘ own.entries := by
  unfold Dialogue.noting
  split
  case h_1 => exact .inl rfl
  case h_2 =>
    refine .inr ?_
    rw [Dialogue.entries, Dialogue.entries, List.map_append, ← Multiset.coe_add]
    exact add_comm _ _

/-- The log is what happened: it gives what is stored, each write was justified when it was
made, and what was read was there. No entry is two dialogues' own. -/
structure Recorded (P : Primitives) (start s : AuthManager) (owns : Multiset Dialogue) : Prop where
  stored : ∀ id, credentialText s.pool.db id = storedAfter start s.history id
  writes : ∀ {pre w post}, s.history = pre ++ w :: post →
    w.Justified P (storedAfter start pre w.accountId) ∧ ∀ r ∈ w.readings, Seen start pre r
  backed : ∀ own ∈ owns, own.Backed P start s.history
  entries : (owns.bind Dialogue.entries).Nodup

variable {s t : AuthManager} {own own' : Dialogue} {rest : Multiset Dialogue}

/-- A step that writes nothing. -/
theorem Recorded.frame (h : Recorded P start s (own ::ₘ rest)) (hdb : t.pool.db = s.pool.db)
    (hhistory : t.history = s.history) (hwrote : own'.wrote = own.wrote)
    (hbacked : own'.Backed P start s.history) : Recorded P start t (own' ::ₘ rest) := by
  refine ⟨fun id => ?_, fun heq => h.writes (hhistory ▸ heq), fun o ho => ?_, ?_⟩
  · rw [hdb, hhistory]
    exact h.stored id
  · rw [hhistory]
    rcases Multiset.mem_cons.mp ho with rfl | ho
    · exact hbacked
    · exact h.backed o (Multiset.mem_cons_of_mem ho)
  · have hentries : own'.entries = own.entries := by rw [Dialogue.entries, hwrote, Dialogue.entries]
    rw [Multiset.cons_bind, hentries, ← Multiset.cons_bind]
    exact h.entries

/-- **A justified write keeps the log right.** -/
theorem Recorded.write (h : Recorded P start s (own ::ₘ rest)) {w : CredentialWrite}
    (hw : w.Justified P (credentialText s.pool.db w.accountId)) (hread : w.readings = own.readings)
    (hhistory : t.history = s.history ++ [w])
    (hwrote : ∀ k, credentialText t.pool.db k =
      if w.accountId = k then some w.text else credentialText s.pool.db k) :
    Recorded P start t (own.noting s.history.length w ::ₘ rest) := by
  have hself := h.backed own (Multiset.mem_cons_self own rest)
  refine ⟨fun id => ?_, fun {pre v post} heq => ?_, fun o ho => ?_, ?_⟩
  · rw [hwrote, hhistory, storedAfter, written_concat, h.stored, storedAfter]
  · rw [hhistory] at heq
    rcases List.eq_nil_or_concat post with rfl | ⟨post, x, rfl⟩
    · -- it is the new write
      obtain ⟨rfl, hv⟩ := List.append_inj' heq rfl
      obtain rfl := List.singleton_inj.mp hv
      refine ⟨h.stored w.accountId ▸ hw, fun r hr => ?_⟩
      exact hself.seen r (hread ▸ hr)
    · rw [List.concat_eq_append, ← List.cons_append, ← List.append_assoc] at heq
      exact h.writes (List.append_inj' heq rfl).1
  · rw [hhistory]
    rcases Multiset.mem_cons.mp ho with rfl | ho
    · exact hself.noting w
    · exact (h.backed o (Multiset.mem_cons_of_mem ho)).concat w
  · -- the number of the new write is above all the others
    have hentries := h.entries
    rw [Multiset.cons_bind] at hentries ⊢
    rcases own.entries_noting s.history.length w with hsame | hmore
    · rw [hsame]
      exact hentries
    · rw [hmore, Multiset.cons_add]
      refine Multiset.nodup_cons.mpr ⟨fun hmem => ?_, hentries⟩
      rcases Multiset.mem_add.mp hmem with hmem | hmem
      · exact absurd (hself.entries_lt _ hmem) (Nat.lt_irrefl _)
      · obtain ⟨o, ho, hmem⟩ := Multiset.mem_bind.mp hmem
        exact absurd ((h.backed o (Multiset.mem_cons_of_mem ho)).entries_lt _ hmem)
          (Nat.lt_irrefl _)

/-- **What a step does keeps the log right.** -/
theorem Recorded.move {label : AuthStep} (h : Recorded P start s (own ::ₘ rest))
    (hmove : AuthMove P label (s, own) (t, own')) : Recorded P start t (own' ::ₘ rest) := by
  have hself := h.backed own (Multiset.mem_cons_self own rest)
  cases label with
  | consult =>
    obtain ⟨hdb, hhistory, rfl⟩ := hmove
    exact h.frame hdb hhistory rfl hself
  | read =>
    obtain ⟨hdb, hhistory, rfl | ⟨row, hrow, rfl⟩⟩ := hmove
    · exact h.frame hdb hhistory rfl hself
    · refine h.frame hdb hhistory rfl ⟨fun r hr => ?_, fun login hlogin => ?_, hself.wrote,
        hself.answered⟩
      · rcases List.mem_append.mp hr with hr | hr
        · exact hself.seen r hr
        · obtain rfl := List.mem_singleton.mp hr
          -- the row is read as the log says it is at this moment
          refine ⟨le_refl _, ?_⟩
          rw [List.take_length, ← h.stored]
          exact Accounts.credentialText_of_mem hrow
      · obtain ⟨n, row, credential, m, row', hpre₀, hlogin⟩ := hself.admitted login hlogin
        exact ⟨n, row, credential, m, row', hpre₀.trans (List.prefix_append _ _), hlogin⟩
  | write =>
    obtain ⟨rfl, hdb, hhistory⟩ | ⟨w, hw, hread, hhistory, rfl, hwrote⟩ := hmove
    · exact h.frame hdb hhistory rfl hself
    · exact h.write hw hread hhistory hwrote
  | enter =>
    obtain ⟨hsame, login, hown, hadmits⟩ := hmove
    dsimp only at hsame hown hadmits
    subst hsame hown
    refine h.frame rfl rfl rfl ⟨hself.seen, fun login' hlogin' => ?_, hself.wrote, hself.answered⟩
    exact Option.mem_some_iff.mp hlogin' ▸ hadmits
  | answer =>
    obtain ⟨hsame, success, hown, htells⟩ := hmove
    dsimp only at hsame hown htells
    subst hsame hown
    refine h.frame rfl rfl rfl ⟨hself.seen, hself.admitted, hself.wrote, fun success' hsuccess => ?_⟩
    exact Option.mem_some_iff.mp hsuccess ▸ htells

theorem backed_fresh : Dialogue.fresh.Backed P start history :=
  ⟨by simp [Dialogue.fresh], by simp [Dialogue.fresh], by simp [Dialogue.fresh],
    by simp [Dialogue.fresh]⟩

theorem recorded_start (h : start.history = []) : Recorded P start start 0 := by
  refine ⟨fun id => by rw [h]; rfl, fun heq => ?_, nofun, Multiset.nodup_zero⟩
  rw [h] at heq
  exact absurd heq (by simp)

/-- **In every run the log is what happened.** -/
theorem recorded_run {turns : List (Turn AuthRequest)} {c : AuthServer} (hstart : start.history = [])
    (h : Run (AuthServer.Takes P) ⟨start, []⟩ turns c) : Recorded P start c.shared c.owns := by
  have hrun : Run (Guarded (AuthServer.Takes P) fun _ _ => True) ⟨start, []⟩ turns c :=
    h.mono fun hstep => ⟨hstep, trivial⟩
  refine (Tasks.invariant_of_moves (Recorded P start) (fun request => moves_serveAuth request)
    (fun {s owns} hinv => ?_) (fun _ _ _ hinv hmove => hinv.move hmove) Tasks.moving_start hrun
    (recorded_start hstart)).2
  refine ⟨hinv.stored, hinv.writes, fun o ho => ?_, ?_⟩
  · rcases Multiset.mem_cons.mp ho with rfl | ho
    · exact backed_fresh
    · exact hinv.backed o ho
  · rw [Multiset.cons_bind]
    exact (zero_add (owns.bind Dialogue.entries)).symm ▸ hinv.entries

/-- **A change in the log replaced the very text it began with**, which read back as what its
proof verified against. Whatever else was written to the account in between was put back. -/
structure Replaces (P : Primitives) (start : AuthManager) (pre : List CredentialWrite)
    (w : CredentialWrite) (pending : PendingPasswordChange) (new : StoredCredential)
    (proof : Vector UInt8 32) : Prop where
  proven : ProvenBy P w pending new proof
  replaced : storedAfter start pre w.accountId = some pending.stored
  decode : StoredCredential.decode pending.stored = some pending.credential
  began : ∀ n row, w.readings = [⟨n, row⟩] → n ≤ pre.length ∧
    storedAfter start (pre.take n) w.accountId = row.credential ∧
    ∀ a u b, pre.drop n = a ++ u :: b → u.accountId = w.accountId → u.text ≠ pending.stored →
      ∃ v ∈ b, v.accountId = w.accountId ∧ v.text = pending.stored ∧ v.cause ≠ .converted

/-- A change of the log replaced what it was proven against. -/
theorem Recorded.replaces {s : AuthManager} {owns : Multiset Dialogue} (h : Recorded P start s owns)
    {pre post : List CredentialWrite} {w : CredentialWrite} {pending : PendingPasswordChange}
    {new : StoredCredential} {proof : Vector UInt8 32} (heq : s.history = pre ++ w :: post)
    (hcause : w.cause = .changed pending new proof) : Replaces P start pre w pending new proof := by
  obtain ⟨hjustified, hseen⟩ := h.writes heq
  rw [CredentialWrite.Justified, hcause] at hjustified
  obtain ⟨hreplaced, hproven⟩ := hjustified
  have hdecode : StoredCredential.decode pending.stored = some pending.credential := by
    obtain ⟨n, row, -, hpinned⟩ := hproven.began
    exact hpinned.decode
  refine ⟨hproven, hreplaced, hdecode, fun n row hread => ?_⟩
  obtain ⟨n', row', hread', hpinned⟩ := hproven.began
  obtain ⟨rfl, rfl⟩ : n' = n ∧ row' = row := by simpa using hread'.symm.trans hread
  have hid : row'.id = w.accountId := hpinned.id.trans hproven.accountId.symm
  obtain ⟨hle, hrow⟩ := hseen ⟨n', row'⟩ (by rw [hread]; exact List.mem_singleton.mpr rfl)
  refine ⟨hle, hid ▸ hrow, fun a u b hdrop hu hne => ?_⟩
  have hpre : pre = (pre.take n' ++ a) ++ u :: b := by
    rw [List.append_assoc, ← hdrop, List.take_append_drop]
  rw [hpre] at hreplaced
  obtain ⟨v, hv, hvid, htext⟩ := exists_later_write hreplaced hu
    fun he => hne (Option.some.inj he)
  refine ⟨v, hv, hvid, Option.some.inj htext, fun hconverted => ?_⟩
  -- a conversion would have found the account without a credential, after `u` was written
  obtain ⟨b₁, b₂, hb⟩ := List.append_of_mem hv
  have heq' : s.history = (pre.take n' ++ a ++ u :: b₁) ++ v :: (b₂ ++ w :: post) :=
    calc s.history = (pre.take n' ++ a ++ u :: b) ++ w :: post := by rw [← hpre, heq]
      _ = (pre.take n' ++ a ++ u :: b₁) ++ v :: (b₂ ++ w :: post) := by
        rw [hb]
        simp only [List.append_assoc, List.cons_append]
  have hnone := (h.writes heq').1
  rw [CredentialWrite.Justified, hconverted] at hnone
  exact storedAfter_ne_none (List.mem_append_right _ List.mem_cons_self) (hu.trans hvid.symm) hnone

/-- **A password change replaces exactly what it was proven against.** In every run the log
gives what is stored, and whoever was told that a change or a reset went well has an entry of
its own in it; a change in it replaced the very text it began with, whatever was
written in between having been put back; what was written is overwritten only by a reset,
or by a change proven against it; and a login was let in only on a row that still held the
credential its proof verified against when it was read again. -/
theorem replaced_as_proven (P : Primitives) {start : AuthManager} {turns : List (Turn AuthRequest)}
    {c : AuthServer} (hstart : start.history = []) (h : Run (AuthServer.Takes P) ⟨start, []⟩ turns c) :
    (∀ row ∈ c.shared.pool.db.accounts, row.credential = storedAfter start c.shared.history row.id) ∧
    (∀ own ∈ c.owns, ∀ success ∈ own.answered, ∃ entry ∈ own.wrote,
      c.shared.history[entry.1]? = some entry.2 ∧ success.Tells entry.2) ∧
    (c.owns.bind Dialogue.entries).Nodup ∧
    (∀ pre w post pending new proof, c.shared.history = pre ++ w :: post →
      w.cause = .changed pending new proof → Replaces P start pre w pending new proof) ∧
    (∀ pre v mid w post, c.shared.history = pre ++ v :: (mid ++ w :: post) →
      v.accountId = w.accountId → (∀ u ∈ mid, u.accountId ≠ w.accountId) →
      w.cause = .reset ∨ ∃ pending new proof, w.cause = .changed pending new proof ∧
        ProvenBy P w pending new proof ∧ pending.stored = v.text ∧
        StoredCredential.decode v.text = some pending.credential) ∧
    ∀ own ∈ c.owns, ∀ login ∈ own.admitted, ∃ n row credential m row',
      [⟨n, row⟩, ⟨m, row'⟩] <+: own.readings ∧ login.1.account = some (row, credential) ∧
      (credential.verifyProof P login.1.username login.1.challenge login.1.channelBinding
        login.2).isSome ∧ row'.id = row.id ∧ holdsCredential P row' credential = true ∧
      m ≤ c.shared.history.length ∧
      storedAfter start (c.shared.history.take m) row'.id = row'.credential := by
  have hrecorded := recorded_run hstart h
  refine ⟨fun row hrow => ?_, fun own hown success hsuccess => ?_, hrecorded.entries,
    fun pre w post pending new proof => hrecorded.replaces,
    fun pre v mid w post heq hid hmid => ?_, fun own hown login hlogin => ?_⟩
  · rw [← hrecorded.stored, Accounts.credentialText_of_mem hrow]
  · obtain ⟨entry, hentry, htells⟩ := (hrecorded.backed own hown).answered success hsuccess
    exact ⟨entry, hentry, (hrecorded.backed own hown).wrote entry hentry, htells⟩
  -- nothing was written for the account in between, so `v` is what `w` found
  · have hlast : storedAfter start (pre ++ v :: mid) w.accountId = some v.text :=
      written_of_last hid hmid
    have heq' : c.shared.history = (pre ++ v :: mid) ++ w :: post := by
      rw [heq, List.append_assoc, List.cons_append]
    have hjustified := (hrecorded.writes heq').1
    rw [hlast, CredentialWrite.Justified] at hjustified
    cases hcause : w.cause with
    | converted =>
      rw [hcause] at hjustified
      cases hjustified
    | reset => exact .inl rfl
    | changed pending new proof =>
      obtain ⟨hproven, hreplaced, hdecode, -⟩ := hrecorded.replaces heq' hcause
      have htext : pending.stored = v.text := Option.some.inj (hreplaced.symm.trans hlast)
      exact .inr ⟨pending, new, proof, rfl, hproven, htext, htext ▸ hdecode⟩
  · obtain ⟨n, row, credential, m, row', hpre₀, haccount, hverified, hid, hholds⟩ :=
      (hrecorded.backed own hown).admitted login hlogin
    have hseen := (hrecorded.backed own hown).seen ⟨m, row'⟩ (hpre₀.subset (by simp))
    exact ⟨n, row, credential, m, row', hpre₀, haccount, hverified, hid, hholds, hseen⟩

end Log

/-! An administrator resets a password while its owner changes it, and then resets it to what
it was. -/

namespace Reinstated

/-- The client's key, which the password gives. -/
def clientKey : Vector UInt8 32 := Vector.replicate 32 7

/-- The digest of the client's key. -/
def storedKey : Vector UInt8 32 :=
  ⟨#[75, 176, 111, 142, 78, 58, 119, 21, 210, 1, 213, 115, 208, 170, 66, 55, 98, 229, 93, 171, 214,
    26, 44, 2, 39, 143, 165, 108, 198, 210, 148, 224], rfl⟩

/-- The server's key. -/
def serverKey : Vector UInt8 32 := Vector.replicate 32 9

/-- The keyed hashes of the message of this change. -/
def clientSignature : Vector UInt8 32 :=
  ⟨#[230, 79, 190, 11, 180, 178, 125, 180, 107, 187, 46, 20, 171, 100, 124, 51, 106, 182, 28, 125,
    192, 14, 22, 135, 45, 101, 230, 114, 47, 164, 230, 158], rfl⟩

/-- The server's signature of the challenge. -/
def serverSignature : Vector UInt8 32 :=
  ⟨#[24, 222, 232, 192, 17, 29, 188, 229, 150, 129, 35, 70, 201, 60, 154, 80, 103, 164, 15, 28, 17,
    166, 88, 126, 154, 13, 204, 90, 155, 31, 204, 130], rfl⟩

/-- The hash functions, at what is hashed here. -/
def primitives : Primitives where
  hmac key _ := if key = storedKey.toList then clientSignature else serverSignature
  sha256 bytes := if bytes = clientKey.toList then storedKey else serverKey
  parsePhc _ := none

/-- The credential before. -/
def old : StoredCredential := ⟨List.replicate 16 1, defaultParams, storedKey, serverKey⟩

/-- The credential that a change sets. -/
def new : StoredCredential :=
  ⟨List.replicate 16 2, defaultParams, Vector.replicate 32 3, Vector.replicate 32 4⟩

/-- The credential that a reset sets. -/
def other : StoredCredential :=
  ⟨List.replicate 16 5, defaultParams, Vector.replicate 32 5, Vector.replicate 32 6⟩

/-- The account. -/
def row : AccountRow := ⟨"a1", "phraq", "", some old.encode, 1, 0, 0⟩

/-- The tables with that account alone. -/
def tables : AccountTables where
  accounts := [row]
  roles := []
  accountRoles := []
  bans := []
  accounts_id := List.nodup_singleton _
  accounts_username := List.nodup_singleton _
  roles_id := uniqueKey_nil _
  roles_name := uniqueKey_nil _
  accountRoles_pk := accountRoles_pk_nil
  accountRoles_account := by simp
  accountRoles_role := accountRoles_role_nil
  bans_pk := uniqueKey_nil _
  bans_account := by simp

/-- The accounts at the start, with nothing written. -/
def start : AuthManager := ⟨⟨tables, []⟩, none, none, []⟩

/-- The proof that the client's key gives. -/
def proof : Vector UInt8 32 := clientKey.zipWith (· ^^^ ·) clientSignature

/-- The owner's change, and a reset to some credential. -/
def change : AuthRequest :=
  .change (Vector.replicate 32 8) (Vector.replicate 32 0) "phraq" "a1" proof new

/-- A reset of the account. -/
def reset (credential : StoredCredential) : AuthRequest := .reset "a1" credential

/-- The change begins, the credential is reset twice, and the change is finished and answered. -/
def turns : List (Turn AuthRequest) :=
  [.start change, .step 0, .start (reset other), .step 1, .start (reset old), .step 2, .step 0,
    .step 0]

/-- The change, between its challenge and its proof. -/
def pending : PendingPasswordChange :=
  ⟨Vector.replicate 32 8, "a1", "phraq", Vector.replicate 32 0, old, old.encode⟩

/-- The write of the change. -/
def changed : CredentialWrite := ⟨"a1", new.encode, .changed pending new proof, [⟨0, row⟩]⟩

/-- The writes of two resets, to the other credential and back. -/
def resets : List CredentialWrite := [⟨"a1", other.encode, .reset, []⟩, ⟨"a1", old.encode, .reset, []⟩]

/-- The log after these turns, and what the clients were told. -/
def log (c : AuthServer) : List CredentialWrite × List (Option Success) :=
  (c.shared.history, c.tasks.map fun task => task.1.answered)

theorem reinstated : (perform (Tasks.take (serveAuth primitives) .fresh) ⟨start, []⟩ turns).map log =
    some (resets ++ [changed], [some (.changed pending new proof), none, none]) := by decide +kernel

end Reinstated

open Reinstated in
/-- **A change may be stored although another credential was written after it began**, if the
old one was put back. -/
theorem not_untouched : ¬∀ (P : Primitives) (start : AuthManager) (turns : List (Turn AuthRequest))
    (c : AuthServer), start.history = [] → Run (AuthServer.Takes P) ⟨start, []⟩ turns c →
    ∀ pre w post pending new proof n row, c.shared.history = pre ++ w :: post →
      w.cause = .changed pending new proof → w.readings = [⟨n, row⟩] →
      ∀ u ∈ pre.drop n, u.accountId = w.accountId → u.text = pending.stored := by
  intro hall
  obtain ⟨c, hperform, hlog⟩ := Option.map_eq_some_iff.mp reinstated
  have hsame := hall primitives start turns c rfl (run_of_perform hperform) resets changed []
    pending new proof 0 row (congrArg Prod.fst hlog) rfl rfl _ List.mem_cons_self rfl
  exact absurd hsame (by decide +kernel)

open Reinstated in
/-- The credential a change was proven against is set anew by a reset in between, and replaced. -/
theorem replaced_as_proven_reinstated : ∃ c : AuthServer, c.shared.history = resets ++ [changed] ∧
    Replaces primitives start resets changed pending new proof ∧
      ∃ own ∈ c.owns, own.answered = some (.changed pending new proof) ∧
        ∃ entry ∈ own.wrote, c.shared.history[entry.1]? = some entry.2 ∧
          entry.2.cause = .changed pending new proof := by
  obtain ⟨c, hperform, hlog⟩ := Option.map_eq_some_iff.mp reinstated
  obtain ⟨-, htold, -, hreplaces, -⟩ := replaced_as_proven primitives rfl (run_of_perform hperform)
  refine ⟨c, congrArg Prod.fst hlog,
    hreplaces resets changed [] pending new proof (congrArg Prod.fst hlog) rfl, ?_⟩
  have hanswers : (c.tasks.map fun task => task.1.answered) = [_, _, _] := congrArg Prod.snd hlog
  have hanswered : some (Success.changed pending new proof) ∈ c.tasks.map fun task =>
      task.1.answered := hanswers ▸ List.mem_cons_self
  obtain ⟨task, htask, hown⟩ := List.mem_map.mp hanswered
  have hmem : task.1 ∈ c.owns := Multiset.mem_coe.mpr (List.mem_map_of_mem htask)
  exact ⟨task.1, hmem, hown, htold task.1 hmem _ hown⟩

end Auth

end KdxHotline
