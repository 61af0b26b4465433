import KdxHotline.Foundations.Runs
import KdxHotline.Transfer.Startup

/-!
# Crashes and restarts

A startup that repairs what a crash has left may be cut off by the next one, and so may the one
after it. What is to become of the uploads stays the same all the time, so that the first startup
that is not cut off makes it true (`KdxHotline.Transfer.restarts_settle`).

An upload that was being finished when the server went down is filed with all its bytes then, or can
be resumed with all its bytes (`KdxHotline.Transfer.finish_recovers`). The database and the
directory need not have gone back to the same step: a rename can be lost that the database has
outlived, and the other way round.
-/

namespace KdxHotline

namespace Transfer

open Foundations Storage

/-! ### Starting again and again -/

section Restarts

variable {s t : UploadStore} {olderThan : ℕ}

/-- A start of the server. -/
structure Boot where
  /-- The clock of the database, and that of the system. -/
  clock : ℕ
  now : ℕ
  retention : Option ℕ
  directory : List Uuid

/-- What the server does as it starts. -/
def Boot.startup (olderThan : ℕ) (b : Boot) : UploadCall Unit :=
  Transfer.startup olderThan b.now b.retention b.directory

/-- Nothing is live when the server starts. -/
def UploadStore.restarted (s : UploadStore) (b : Boot) : UploadStore :=
  { s with live := .default, clock := b.clock }

/-- The clocks have gone on, and no file of the directory is missed. -/
structure UploadStore.Boots (s : UploadStore) (b : Boot) : Prop where
  clock : s.clock ≤ b.clock
  dated : ∀ e ∈ s.quarantine, e.1.2 < b.now
  listed : ∀ id, (s.parts id).isSome ∨ (s.blobs id).isSome → id ∈ b.directory

/-- Nothing fails, and no row is from the future. -/
structure UploadStore.Steady (s : UploadStore) : Prop extends s.Quiet where
  rows : ∀ r ∈ s.pool.db.rows, r.updatedAt ≤ s.clock

/-- The server starts, and is cut off after so many steps. -/
def CutShort (olderThan : ℕ) (s : UploadStore) (attempt : Boot × ℕ) (t : UploadStore) : Prop :=
  s.Boots attempt.1 ∧
    t = ((attempt.1.startup olderThan).cutOff attempt.2 (s.restarted attempt.1, .idle)).1

variable {b : Boot} {attempt : Boot × ℕ} {attempts : List (Boot × ℕ)} {stale : TransferRow → Bool}

theorem UploadStore.Steady.recovering (h : s.Steady) (hboots : s.Boots b)
    (stale : TransferRow → Bool) :
    Recovering ⟨stale, b.clock, b.directory,
      fun id => (s.remains id).settled stale⟩ (s.restarted b) :=
  ⟨⟨h.disk, h.faults⟩, rfl, fun r hr => (h.rows r hr).trans hboots.clock, hboots.listed,
    fun _ => rfl⟩

/-- **What is to become of an upload is the same after a startup that was cut off.** -/
theorem CutShort.recovering (h : CutShort olderThan s attempt t) (hs : s.Steady)
    (hstale : ∀ r, untouched olderThan attempt.1.clock r = true → stale r = true) :
    Recovering ⟨stale, attempt.1.clock, attempt.1.directory,
      fun id => (s.remains id).settled stale⟩ t := by
  obtain ⟨hboots, rfl⟩ := h
  have hrecovering := hs.recovering hboots stale
  exact (lasts_startup (E := fun _ _ => False) hrecovering rfl hstale hboots.dated).cutOff
    hrecovering
    attempt.2

theorem CutShort.steady (h : CutShort olderThan s attempt t) (hs : s.Steady) :
    s.clock ≤ t.clock ∧ t.clock = attempt.1.clock ∧ t.Steady := by
  have hrecovering : Recovering ⟨fun _ => true, _, _, _⟩ t := h.recovering hs fun _ _ => rfl
  refine ⟨h.1.clock.trans_eq hrecovering.clock.symm, hrecovering.clock, hrecovering.quiet,
    fun r hr => ?_⟩
  exact (hrecovering.rows r hr).trans_eq hrecovering.clock.symm

/-- No file appears that was not listed. -/
theorem CutShort.listed (h : CutShort olderThan s attempt t) (hs : s.Steady) (id : Uuid)
    (hfile : (t.parts id).isSome ∨ (t.blobs id).isSome) : id ∈ attempt.1.directory := by
  have hrecovering : Recovering ⟨fun _ => true, _, _, _⟩ t := h.recovering hs fun _ _ => rfl
  exact hrecovering.listed id hfile

/-- It is the same after any number of them. -/
theorem settled_of_restarts (hrun : Run (CutShort olderThan) s attempts t) (hs : s.Steady) :
    s.clock ≤ t.clock ∧ t.Steady ∧ ∀ stale : TransferRow → Bool,
      (∀ r, untouched olderThan t.clock r = true → stale r = true) →
        ∀ id, (t.remains id).settled stale = (s.remains id).settled stale := by
  induction hrun with
  | nil s => exact ⟨le_rfl, hs, fun _ _ _ => rfl⟩
  | cons hcut _ ih =>
    obtain ⟨hle, hclock, hsteady⟩ := hcut.steady hs
    obtain ⟨hle', hsteady', hrest⟩ := ih hsteady
    refine ⟨hle.trans hle', hsteady', fun stale hstale id => (hrest stale hstale id).trans ?_⟩
    refine (hcut.recovering hs fun r hold => hstale r ?_).slots id
    exact decide_eq_true ((of_decide_eq_true hold).trans (hclock ▸ hle'))

/-- A startup that is not cut off ends, and makes every upload what it is to become. -/
theorem startup_returns (hs : s.Steady) (hboots : s.Boots b) :
    ∃ u, Returns (b.startup olderThan).alone (s.restarted b, .idle) () u ∧
      ∀ id, u.1.remains id = (s.remains id).settled (untouched olderThan b.clock) := by
  have hrecovering := hs.recovering hboots (untouched olderThan b.clock)
  have hlasts : (b.startup olderThan).Lasts _ _ (fun _ _ => False) (s.restarted b, .idle) :=
    lasts_startup hrecovering rfl (fun _ h => h) hboots.dated
  rcases hlasts.ends with ⟨⟨⟩, u, hret, hu, hclean⟩ | ⟨_, _, _, hfalse⟩
  · exact ⟨u, hret, fun id => (hclean id).settled.symm.trans (hu.slots id)⟩
  · cases hfalse

/-- **Starting up after any number of startups that were cut off makes every upload what it was to
become.** -/
theorem restarts_settle (hs : s.Steady) (hrun : Run (CutShort olderThan) s attempts t)
    (hboots : t.Boots b) :
    ∃ u, Returns (b.startup olderThan).alone (t.restarted b, .idle) () u ∧
      ∀ id, u.1.remains id = (s.remains id).settled (untouched olderThan b.clock) := by
  obtain ⟨-, hsteady, hsame⟩ := settled_of_restarts hrun hs
  obtain ⟨u, hret, hslots⟩ := startup_returns hsteady hboots
  refine ⟨u, hret, fun id => (hslots id).trans (hsame _ (fun r hold => ?_) id)⟩
  exact decide_eq_true ((of_decide_eq_true hold).trans hboots.clock)

end Restarts

/-! An upload that is filed, the first startup cut off when its file has been moved into place. -/

namespace Interrupted

open Saturated (first)

/-- The row of a filed upload, which was not yet deleted. -/
def row : TransferRow := ⟨first, "a", "f", "x", 1, minChunk, [7], [1], .part first, 5, rfl⟩

/-- The table with that row. -/
def table : TransferTable := ⟨[row], List.nodup_singleton _⟩

/-- Its bytes are still the partial file. -/
def filed : UploadStore :=
  ⟨.default, ⟨table, []⟩, fun id => if id = first then some [7] else none, fun _ => none, {first},
    [], [], 5,
    [], []⟩

/-- A start at a time. -/
def boot (time : ℕ) : Boot := ⟨time, time, none, [first]⟩

/-- What a start leaves that is cut off after three steps. -/
def cut : UploadStore := (((boot 6).startup 10).cutOff 3 (filed.restarted (boot 6), .idle)).1

theorem cut_slot : cut.remains first = ⟨true, some row, none, some [7]⟩ ∧ cut.quarantine = [] := by
  decide +kernel

end Interrupted

open Interrupted in
open Saturated (first) in
/-- A start that was cut off, and the next one. -/
theorem restarts_settle_filed :
    ∃ u, Returns ((boot 7).startup 10).alone (cut.restarted (boot 7), .idle) () u ∧
    u.1.remains first = ⟨true, none, none, some [7]⟩ := by
  have hsteady : filed.Steady := ⟨⟨nofun, nofun⟩, by decide⟩
  have hboots : filed.Boots (boot 6) := by
    refine ⟨by decide, nofun, fun id hfile => ?_⟩
    by_contra hne
    have hnone : filed.parts id = none := if_neg fun heq => hne (List.mem_singleton.mpr heq)
    rcases hfile with hpart | hblob
    · rw [hnone] at hpart
      cases hpart
    · cases hblob
  have hcut : CutShort 10 filed (boot 6, 3) cut := ⟨hboots, rfl⟩
  have hboots' : cut.Boots (boot 7) := by
    refine ⟨?_, ?_, hcut.listed hsteady⟩
    · rw [(hcut.steady hsteady).2.1]
      decide
    · rw [cut_slot.2]
      exact nofun
  obtain ⟨u, hret, hslots⟩ := restarts_settle hsteady (.cons hcut (.nil cut)) hboots'
  exact ⟨u, hret, (hslots first).trans (by decide)⟩

/-! ### A crash in the middle of `finish` -/

section Finish

variable {s t : UploadStore} {own : UploadTask} {id : Uuid} {bytes : List UInt8}
  {E : TransferError → UploadStore × UploadTask → Prop}

/-- The bytes of an upload are in one place, and the database knows of it. -/
structure Kept (id : Uuid) (bytes : List UInt8) (s : UploadStore) : Prop where
  quiet : s.Quiet
  known : id ∈ s.filed ∨ (s.pool.db.row id).isSome
  there : s.parts id = some bytes ∧ s.blobs id = none ∨ s.parts id = none ∧ s.blobs id = some bytes

/-- Saving the progress of whatever upload leaves the files and the rows where they are. -/
theorem saveProgress_returns (own : UploadTask) (h : s.Quiet) :
    ∃ t own', Returns saveProgress (s, own) () (t, own') ∧ t.Quiet ∧ t.filed = s.filed ∧
      t.parts = s.parts ∧ t.blobs = s.blobs ∧
        ∀ id, (t.pool.db.row id).isSome = (s.pool.db.row id).isSome := by
  cases hupload : own.upload with
  | none =>
    refine ⟨s, own, ?_, h, rfl, rfl, rfl, fun _ => rfl⟩
    simp only [Returns, saveProgress, EStateM.run, hupload]
  | some u =>
    by_cases hsaved : u.unsaved = 0
    · refine ⟨s, own, ?_, h, rfl, rfl, rfl, fun _ => rfl⟩
      simp only [Returns, saveProgress, EStateM.run, hupload, if_pos hsaved]
    · have hupdate :
          ∃ pool, Returns (TransferState.updateBitmap u.id u.bitmap s.clock) s.pool () pool ∧
          pool.faults = s.pool.faults.tail := by
        rw [TransferState.updateBitmap, TransferState.rewrite]
        exact ⟨_, statement_returns h.faults_headD rfl, rfl⟩
      obtain ⟨pool, hreturns, hfaults⟩ := hupdate
      have hrun : TransferState.updateBitmap u.id u.bitmap s.clock s.pool = .ok () pool := hreturns
      refine ⟨{ s with pool }, { own with upload := some { u with unsaved := 0 } }, ?_,
        ⟨h.disk, ?_⟩, rfl,
        rfl, rfl, fun id => ?_⟩
      · simp only [Returns, saveProgress, saveBitmap, EStateM.run, hupload, if_neg hsaved, hrun]
      · rw [hfaults]
        exact tail_of_quiet h.faults
      · rw [TransferTable.row_rewritten (TransferState.rewrite_returns hreturns) fun _ => rfl]
        split <;> simp

/-- Saving the progress once more. -/
theorem lasts_saveProgress (h : Kept id bytes s) :
    (quietly (.call .save saveProgress)).Lasts (fun t => Kept id bytes t.1)
      (fun _ t => Kept id bytes t.1 ∧ t.1.filed = s.filed ∧ t.1.parts = s.parts) E (s, own) := by
  obtain ⟨t, own', hret, hquiet, hfiled, hparts, hblobs, hrows⟩ := saveProgress_returns own h.quiet
  have ht : Kept id bytes t := by
    refine ⟨hquiet, ?_, ?_⟩
    · rw [hfiled, hrows]
      exact h.known
    · rw [hparts, hblobs]
      exact h.there
  exact lasts_quietly (Prog.lasts_call hret ht ⟨ht, hfiled, hparts⟩)

/-- **Wherever `finish` is cut off**, the bytes of the upload are in one place, and the database
knows of it. -/
theorem lasts_finish {sha256 : List UInt8 → List UInt8} (h : Kept id bytes s)
    (hpart : s.parts id = some bytes) :
    (finish sha256 id (sha256 bytes) (.ok ())).Lasts (fun t => Kept id bytes t.1)
      (fun _ t => Kept id bytes t.1) (fun _ t => Kept id bytes t.1) (s, own) := by
  refine Prog.lasts_bind ((lasts_saveProgress h).mono ?_ fun _ _ he => he)
  rintro - ⟨t, own₁⟩ ⟨ht, -, hparts⟩
  have hpart' : t.parts id = some bytes := hparts ▸ hpart
  have hhash : Returns (hashFile sha256 id) (t, own₁) (sha256 bytes)
      ({ t with disk := t.disk.tail }, { own₁ with file := none }) := by
    have hquiet : t.disk.headD false = false := ht.quiet.disk_headD
    simp only [Returns, hashFile, EStateM.run, hquiet, hpart']
    rfl
  have hu : Kept id bytes { t with disk := t.disk.tail } :=
    ⟨⟨tail_of_quiet ht.quiet.disk, ht.quiet.faults⟩, ht.known, ht.there⟩
  refine Prog.lasts_bind (Prog.lasts_attempt (Prog.lasts_call hhash hu ?_))
  simp only [ne_eq, not_true_eq_false, if_false]
  -- from here on the entry is there
  have hfiled : id ∈ insert id t.filed := Finset.mem_insert_self id t.filed
  have hv : Kept id bytes { t with disk := t.disk.tail, filed := insert id t.filed } :=
    ⟨⟨hu.quiet.disk, hu.quiet.faults⟩, .inl hfiled, ht.there⟩
  refine Prog.lasts_bind (Prog.lasts_step hv ?_)
  have hpromote : Returns (promote id) ({ t with disk := t.disk.tail, filed := insert id t.filed },
      { own₁ with file := none }) () ({ t with
        disk := t.disk.tail.tail
        filed := insert id t.filed
        parts := Function.update t.parts id none
        blobs := Function.update t.blobs id (some bytes) }, { own₁ with file := none }) := by
    have hquiet : t.disk.tail.headD false = false := headD_of_quiet hu.quiet.disk
    simp only [Returns, promote, EStateM.run, hpart', hquiet]
    rfl
  have hw : Kept id bytes { t with
      disk := t.disk.tail.tail
      filed := insert id t.filed
      parts := Function.update t.parts id none
      blobs := Function.update t.blobs id (some bytes) } :=
    ⟨⟨tail_of_quiet hu.quiet.disk, hu.quiet.faults⟩, .inl hfiled,
      .inr ⟨Function.update_self .., Function.update_self ..⟩⟩
  refine Prog.lasts_bind (Prog.lasts_attempt (Prog.lasts_call hpromote hw ?_))
  obtain ⟨pool, hdelete, hfaults, -⟩ := deleteRow_quiet id { own₁ with file := none } hw.quiet
  have hx : Kept id bytes { t with
      disk := t.disk.tail.tail
      filed := insert id t.filed
      parts := Function.update t.parts id none
      blobs := Function.update t.blobs id (some bytes)
      pool
      partings := t.partings.filter fun p => p.1 ≠ id } :=
    ⟨⟨hw.quiet.disk, hfaults⟩, .inl hfiled, hw.there⟩
  refine Prog.lasts_bind (lasts_quietly (Prog.lasts_call hdelete hx ?_))
  refine Prog.lasts_bind ((lasts_saveProgress hx).mono ?_ fun _ _ he => he)
  rintro - ⟨y, own₂⟩ ⟨hy, -, -⟩
  have hz : Kept id bytes (y.dropClaim own₂) := by
    rw [UploadStore.dropClaim]
    cases own₂.claim with
    | none => exact hy
    | some claim => exact ⟨⟨hy.quiet.disk, hy.quiet.faults⟩, hy.known, hy.there⟩
  exact Prog.lasts_step hz hz

/-- What a crash in the middle of a function leaves of an upload: the database as it was after so
many steps, and the files as they were after so many. -/
def Crashed (x : UploadCall Unit) (start : UploadStore × UploadTask) (id : Uuid) (t : UploadStore) :
    Prop :=
  ∃ m n, (t.remains id).filed = ((x.cutOff m start).1.remains id).filed ∧
    (t.remains id).row = ((x.cutOff m start).1.remains id).row ∧
      (t.remains id).part = ((x.cutOff n start).1.remains id).part ∧
        (t.remains id).blob = ((x.cutOff n start).1.remains id).blob

/-- An upload that the database knows of and whose bytes are in one place. -/
theorem Remains.settled_of_there {x : Remains} {stale : TransferRow → Bool}
    (hknown : x.filed = true ∨ x.row.isSome)
    (hthere : x.part = some bytes ∧ x.blob = none ∨ x.part = none ∧ x.blob = some bytes)
    (hfresh : ∀ r ∈ x.row, stale r = false) :
    x.settled stale = ⟨true, none, none, some bytes⟩ ∨
      ∃ r, x.row = some r ∧ x.settled stale = ⟨false, some r, some bytes, none⟩ := by
  obtain ⟨filed, row, part, blob⟩ := x
  cases filed with
  | true =>
    left
    rcases hthere with ⟨rfl, rfl⟩ | ⟨rfl, rfl⟩ <;> rfl
  | false =>
    obtain ⟨r, rfl⟩ := Option.isSome_iff_exists.mp (hknown.resolve_left nofun)
    have hfilter : ((some r).filter fun r => !stale r) = some r := by
      rw [Option.filter_some, hfresh r rfl]
      rfl
    refine .inr ⟨r, rfl, ?_⟩
    simp only [Remains.settled, hfilter]
    rcases hthere with ⟨rfl, rfl⟩ | ⟨rfl, rfl⟩ <;> rfl

/-- **No upload is lost that was being finished when the server went down.** It is filed then and
its bytes are in place, or it has its row and its partial file. -/
theorem finish_recovers {sha256 : List UInt8 → List UInt8} {olderThan : ℕ}
    {attempts : List (Boot × ℕ)}
    {u : UploadStore} {b : Boot} (hquiet : s.Quiet) (hrow : (s.pool.db.row id).isSome)
    (hpart : s.parts id = some bytes) (hblob : s.blobs id = none)
    (hcrashed : Crashed (finish sha256 id (sha256 bytes) (.ok ())) (s, own) id t) (ht : t.Steady)
    (hrun : Run (CutShort olderThan) t attempts u) (hboots : u.Boots b)
    (hfresh : ∀ r ∈ t.pool.db.row id, b.clock < r.updatedAt + olderThan) :
    ∃ v, Returns (b.startup olderThan).alone (u.restarted b, .idle) () v ∧
      (v.1.remains id = ⟨true, none, none, some bytes⟩ ∨
        ∃ r, t.pool.db.row id = some r ∧ v.1.remains id = ⟨false, some r, some bytes, none⟩) := by
  have hkept : Kept id bytes s := ⟨hquiet, .inr hrow, .inl ⟨hpart, hblob⟩⟩
  have hlasts : (finish sha256 id (sha256 bytes) (.ok ())).Lasts _ _ _ (s, own) :=
    lasts_finish hkept hpart
  obtain ⟨m, n, hfiled, hrow', hpart', hblob'⟩ := hcrashed
  have hknown := (hlasts.cutOff hkept m).known
  have hthere := (hlasts.cutOff hkept n).there
  obtain ⟨-, hsteady, hsame⟩ := settled_of_restarts hrun ht
  obtain ⟨v, hret, hslots⟩ := startup_returns hsteady hboots
  have hfinal : v.1.remains id = (t.remains id).settled (untouched olderThan b.clock) := by
    refine (hslots id).trans (hsame _ (fun r hold => ?_) id)
    exact decide_eq_true ((of_decide_eq_true hold).trans hboots.clock)
  refine ⟨v, hret, ?_⟩
  rw [hfinal]
  refine Remains.settled_of_there ?_ ?_ fun r hr => decide_eq_false (Nat.not_le.mpr (hfresh r hr))
  · rw [hfiled, hrow']
    exact hknown.imp_left decide_eq_true
  · rw [hpart', hblob']
    exact hthere

end Finish

/-! The same upload, its entry lost, but not the new place of its file. -/

namespace Interrupted

open Saturated (first)

/-- The store before the upload is filed. -/
def received : UploadStore := { filed with filed := ∅ }

/-- The task that has received the upload. -/
def task : UploadTask := { UploadTask.idle with
  claim := some (.upload "a" first (some ("f", "x")) 1)
  file := some (first, 1)
  upload := some ⟨first, 1, minChunk, 1, [7], [1], 1, 0⟩ }

/-- The store with the file in place and no entry for it. -/
def unfiled : UploadStore := { received with
  parts := fun _ => none
  blobs := fun id => if id = first then some [7] else none }

theorem crashed : Crashed (finish id first (id [7]) (.ok ())) (received, task) first unfiled :=
  ⟨2, 4, by decide +kernel⟩

end Interrupted

open Interrupted in
open Saturated (first) in
/-- A crash while an upload is finished, and the next start. -/
theorem finish_recovers_unfiled :
    ∃ v, Returns ((boot 7).startup 10).alone (unfiled.restarted (boot 7), .idle) () v ∧
      (v.1.remains first = ⟨true, none, none, some [7]⟩ ∨
        ∃ r, unfiled.pool.db.row first = some r ∧
          v.1.remains first = ⟨false, some r, some [7], none⟩) := by
  have hsteady : unfiled.Steady := ⟨⟨nofun, nofun⟩, by decide⟩
  have hboots : unfiled.Boots (boot 7) := by
    refine ⟨by decide, nofun, fun id hfile => ?_⟩
    by_contra hne
    have hnone : unfiled.blobs id = none := if_neg fun heq => hne (List.mem_singleton.mpr heq)
    rcases hfile with hpart | hblob
    · cases hpart
    · rw [hnone] at hblob
      cases hblob
  have hquiet : received.Quiet := ⟨nofun, nofun⟩
  exact finish_recovers hquiet (by decide) rfl rfl crashed hsteady (.nil unfiled) hboots (by decide)

end Transfer

end KdxHotline
