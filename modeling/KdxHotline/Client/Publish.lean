import Mathlib.Logic.Function.Basic
import Mathlib.Order.Basic
import KdxHotline.Foundations.Fallible

/-!
# Publishing a download

A verified download is renamed to its destination. Where that is refused it is copied, hashed
once more on the way, into a temp file beside the destination that then replaces it, and where no
such file may be created, straight into the destination
(`KdxHotline.Client.publishDownload`).

Whichever operation fails, and whenever the copy is cancelled, the destination holds the whole
download or what it held before; only a copy straight into the destination that fails leaves it
without a file (`KdxHotline.Client.publish_all_or_nothing`). The theorem is about the files as a
whole: nothing else is created, changed or removed.
-/

namespace KdxHotline

namespace Client

open Foundations

/-! ### The files -/

/-- What a path leads to. -/
inductive Item
  | file (bytes : List UInt8)
  | directory
  deriving DecidableEq

/-- How the destination is written. -/
inductive Way
  | renamed
  | viaTemp
  | inPlace
  deriving DecidableEq

/-- The files, and the way that was taken last. -/
structure Disk (Path : Type) where
  files : Path → Option Item
  way : Option Way

/-- Why a download is not published. -/
inductive PublishError
  | io
  | transfer (message : String)

namespace Disk

variable {Path : Type} [DecidableEq Path]

/-- Put a node at a path, or nothing. -/
def put (path : Path) (node : Option Item) (disk : Disk Path) : Disk Path :=
  { disk with files := Function.update disk.files path node }

/-- Take a way of moving the file. -/
def goes (way : Way) (disk : Disk Path) : Disk Path := { disk with way := some way }

/-- The bytes of a file, if it may be opened. -/
def openFile (path : Path) (allowed : Bool) : Fallible (Disk Path) PublishError (List UInt8) := do
  let disk ← get
  match disk.files path with
  | some (.file bytes) => check (if allowed then .ok bytes else .error .io)
  | _ => check (.error .io)

/-- A new, empty file, where there is none. -/
def createNew (path : Path) (allowed : Bool) : Fallible (Disk Path) PublishError Unit := do
  let disk ← get
  check (if allowed ∧ disk.files path = none then .ok () else .error .io)
  modify (put path (some (.file [])))

/-- An empty file, whatever file there was. -/
def createTruncated (path : Path) (allowed : Bool) : Fallible (Disk Path) PublishError Unit := do
  let disk ← get
  check (if allowed ∧ disk.files path ≠ some .directory then .ok () else .error .io)
  modify (put path (some (.file [])))

/-- Let a file replace whatever file there was; a directory is never replaced. -/
def rename (source target : Path) (allowed : Bool) : Fallible (Disk Path) PublishError Unit := do
  let bytes ← openFile source allowed
  let disk ← get
  check (if disk.files target = some .directory then .error .io else .ok ())
  modify fun disk => (disk.put source none).put target (some (.file bytes))

/-- Write to an empty file, as far as that gets. -/
def writeTo (path : Path) (writes : Fallible (List UInt8) PublishError Unit) :
    Fallible (Disk Path) PublishError Unit := fun disk =>
  match writes.run [] with
  | .ok _ bytes => .ok () (disk.put path (some (.file bytes)))
  | .error e bytes => .error e (disk.put path (some (.file bytes)))

/-- Remove a file; that is never refused. -/
def removeFile (path : Path) : Fallible (Disk Path) PublishError Unit := modify (put path none)

end Disk

/-! ### Copying -/

/-- How many bytes are read at once. -/
def hashBuf : ℕ := 256 * 1024

/-- What the surroundings do in one turn of the copy. -/
structure Turn where
  cancelled : Bool
  /-- How many bytes a read may hand over; `none` if it fails. -/
  read : Option ℕ
  /-- How many bytes were written when the write failed, if it fails. -/
  torn : Option ℕ

/-- What the surroundings do while a file is copied. -/
structure Copying where
  turns : ℕ → Turn
  synced : Bool

/-- How many bytes a read hands over: some, unless the file is at its end. -/
def readLen (given want left : ℕ) : ℕ := min (max given 1) (min want left)

/-- Write some bytes, or only the first of them when the write is torn. -/
def writeAll (bytes : List UInt8) : Option ℕ → Fallible (List UInt8) PublishError Unit
  | none => modify (· ++ bytes)
  | some torn => do
    modify (· ++ bytes.take torn)
    check (.error .io)

/-- Copy the rest of a file, up to what remains to be copied, and return what was hashed. -/
def copyChunks (turns : ℕ → Turn) (turn : ℕ) (source : List UInt8) (remaining : ℕ)
    (hashed : List UInt8) : Fallible (List UInt8) PublishError (List UInt8) :=
  if remaining = 0 then return hashed
  else if (turns turn).cancelled then check (.error (.transfer "cancelled"))
  else match (turns turn).read with
    | none => check (.error .io)
    | some given =>
      let n := readLen given (min remaining hashBuf) source.length
      if n = 0 then check (.error (.transfer "downloaded file is incomplete"))
      else do
        writeAll (source.take n) (turns turn).torn
        copyChunks turns (turn + 1) (source.drop n) (remaining - n) (hashed ++ source.take n)
termination_by remaining
decreasing_by omega

section Publish

variable (sha256 : List UInt8 → Vector UInt8 32)

/-- Copy exactly `size` bytes and see that they hash to `digest`. -/
def copyVerified (source : List UInt8) (size : ℕ) (digest : Vector UInt8 32) (copying : Copying) :
    Fallible (List UInt8) PublishError Unit := do
  let hashed ← copyChunks copying.turns 0 source size []
  check (if sha256 hashed = digest then .ok ()
    else .error (.transfer "downloaded file changed before it could be saved"))
  check (if copying.synced then .ok () else .error .io)

/-- How a download reaches its destination. -/
inductive Publish
  | auto
  | forceCopy
  | forceInPlace
  deriving DecidableEq

/-- How the file operations of a publication turn out. -/
structure Outcomes where
  renamed : Bool
  opened : Bool
  /-- Names the temp file. -/
  uuid : Vector UInt8 16
  created : Bool
  copied : Copying
  replaced : Bool
  truncated : Bool
  copiedInPlace : Copying

variable {Path : Type} [DecidableEq Path] (beside : Path → Vector UInt8 16 → Path)

/-- A new file in the destination's directory. -/
def createTempBeside (destination : Path) (outcomes : Outcomes) :
    Fallible (Disk Path) PublishError Path := do
  let tmp := beside destination outcomes.uuid
  Disk.createNew tmp outcomes.created
  return tmp

/-- Copy into the temp file and let it replace the destination. -/
def copyViaTemp (tmp destination : Path) (source : List UInt8) (size : ℕ)
    (digest : Vector UInt8 32) (outcomes : Outcomes) : Fallible (Disk Path) PublishError Unit := do
  modify (Disk.goes .viaTemp)
  let result ← attempt do
    Disk.writeTo tmp (copyVerified sha256 source size digest outcomes.copied)
    Disk.rename tmp destination outcomes.replaced
  match result with
  | .ok () => return ()
  | .error e => do
    Disk.removeFile tmp
    check (.error e)

/-- Copy straight into the destination. -/
def copyInPlace (destination : Path) (source : List UInt8) (size : ℕ) (digest : Vector UInt8 32)
    (outcomes : Outcomes) : Fallible (Disk Path) PublishError Unit := do
  Disk.createTruncated destination outcomes.truncated
  modify (Disk.goes .inPlace)
  let result ← attempt
    (Disk.writeTo destination (copyVerified sha256 source size digest outcomes.copiedInPlace))
  match result with
  | .ok () => return ()
  | .error e => do
    -- a torn file must not look like the download
    Disk.removeFile destination
    check (.error e)

/-- The copying half of the publication. -/
def copyIntoPlace (data destination : Path) (size : ℕ) (digest : Vector UInt8 32) (viaTemp : Bool)
    (outcomes : Outcomes) : Fallible (Disk Path) PublishError Unit := do
  let source ← Disk.openFile data outcomes.opened
  if viaTemp then
    match ← attempt (createTempBeside beside destination outcomes) with
    | .ok tmp => copyViaTemp sha256 tmp destination source size digest outcomes
    | .error (_ : PublishError) => copyInPlace sha256 destination source size digest outcomes
  else copyInPlace sha256 destination source size digest outcomes

/-- Rename the download, if that is allowed and nothing speaks against it. -/
def moveIntoPlace (data destination : Path) (outcomes : Outcomes) :
    Fallible (Disk Path) PublishError Unit := do
  Disk.rename data destination outcomes.renamed
  modify (Disk.goes .renamed)

/-- Move a verified download to its destination. -/
def publishDownload (data destination : Path) (size : ℕ) (digest : Vector UInt8 32)
    (mode : Publish) (outcomes : Outcomes) : Fallible (Disk Path) PublishError Unit := do
  let moved ← if mode = .auto then attempt (moveIntoPlace data destination outcomes)
    else pure (.error .io)
  match moved with
  | .ok () => return ()
  | .error (_ : PublishError) => do
    copyIntoPlace sha256 beside data destination size digest (mode ≠ .forceInPlace) outcomes
    Disk.removeFile data

end Publish

/-! ### What the file operations do -/

namespace Disk

variable {Path : Type} {path source target : Path} {allowed : Bool} {disk t : Disk Path}
  {r : Except PublishError Unit} {node : Option Item} {way : Way}

@[simp] theorem goes_files : (disk.goes way).files = disk.files := rfl
@[simp] theorem goes_way : (disk.goes way).way = some way := rfl

/-- A file that was opened is there. -/
theorem returns_openFile {bytes : List UInt8} (h : Returns (openFile path allowed) disk bytes t) :
    disk.files path = some (.file bytes) ∧ t = disk := by
  obtain ⟨_, _, hget, h⟩ := returns_bind.mp h
  obtain ⟨rfl, rfl⟩ := returns_get.mp hget
  split at h
  next hfile =>
    obtain ⟨hbytes, rfl⟩ := returns_check.mp h
    cases allowed <;> cases hbytes
    exact ⟨hfile, rfl⟩
  next => cases (returns_check.mp h).1

theorem fails_openFile {e : PublishError} (h : Fails (openFile path allowed) disk e t) :
    t = disk := by
  rcases fails_bind.mp h with h | ⟨_, _, hget, h⟩
  · exact absurd h fails_get
  · obtain ⟨rfl, rfl⟩ := returns_get.mp hget
    split at h <;> exact (fails_check.mp h).2.symm

variable [DecidableEq Path]

@[simp] theorem put_files : (disk.put path node).files = Function.update disk.files path node := rfl
@[simp] theorem put_way : (disk.put path node).way = disk.way := rfl

/-- A new file is created where there was nothing. -/
theorem ends_createNew (h : Ends (createNew path allowed) disk r t) :
    (r = .ok () ∧ disk.files path = none ∧ t = disk.put path (some (.file []))) ∨
      (∃ e, r = .error e) ∧ t = disk := by
  rw [createNew, ends_get_bind, ends_bind] at h
  rcases h with ⟨e, rfl, h⟩ | ⟨_, _, hnew, h⟩
  · exact .inr ⟨⟨e, rfl⟩, (fails_check.mp h).2.symm⟩
  · obtain ⟨hnew, rfl⟩ := returns_check.mp hnew
    obtain ⟨rfl, rfl⟩ := ends_modify.mp h
    split at hnew
    next hnone => exact .inl ⟨rfl, hnone.2, rfl⟩
    next => cases hnew

theorem ends_createTruncated (h : Ends (createTruncated path allowed) disk r t) :
    (r = .ok () ∧ t = disk.put path (some (.file []))) ∨ (∃ e, r = .error e) ∧ t = disk := by
  rw [createTruncated, ends_get_bind, ends_bind] at h
  rcases h with ⟨e, rfl, h⟩ | ⟨_, _, hopened, h⟩
  · exact .inr ⟨⟨e, rfl⟩, (fails_check.mp h).2.symm⟩
  · obtain ⟨-, rfl⟩ := returns_check.mp hopened
    obtain ⟨rfl, rfl⟩ := ends_modify.mp h
    exact .inl ⟨rfl, rfl⟩

/-- A file is renamed, or nothing happens. -/
theorem ends_rename (h : Ends (rename source target allowed) disk r t) :
    (r = .ok () ∧ ∃ bytes, disk.files source = some (.file bytes) ∧
      t = (disk.put source none).put target (some (.file bytes))) ∨
        (∃ e, r = .error e) ∧ t = disk := by
  rw [rename, ends_bind] at h
  rcases h with ⟨e, rfl, h⟩ | ⟨bytes, _, hopened, h⟩
  · exact .inr ⟨⟨e, rfl⟩, fails_openFile h⟩
  · obtain ⟨hfile, rfl⟩ := returns_openFile hopened
    rw [ends_get_bind, ends_bind] at h
    rcases h with ⟨e, rfl, h⟩ | ⟨_, _, hfree, h⟩
    · exact .inr ⟨⟨e, rfl⟩, (fails_check.mp h).2.symm⟩
    · obtain ⟨-, rfl⟩ := returns_check.mp hfree
      obtain ⟨rfl, rfl⟩ := ends_modify.mp h
      exact .inl ⟨rfl, bytes, hfile, rfl⟩

theorem ends_writeTo {writes : Fallible (List UInt8) PublishError Unit} :
    Ends (writeTo path writes) disk r t ↔
      ∃ bytes, Ends writes [] r bytes ∧ t = disk.put path (some (.file bytes)) := by
  simp only [Ends, writeTo, EStateM.run]
  cases writes [] <;> cases r <;> simp [eq_comm]

end Disk

/-! ### What the copy holds -/

variable {sha256 : List UInt8 → Vector UInt8 32} {bytes source out saved hashed : List UInt8}
  {size turn remaining : ℕ} {digest : Vector UInt8 32} {turns : ℕ → Turn} {copying : Copying}
  {r : Except PublishError Unit}

theorem returns_writeAll {torn : Option ℕ} {t : List UInt8}
    (h : Returns (writeAll bytes torn) out () t) : t = out ++ bytes := by
  cases torn with
  | none => exact (returns_modify.mp h).symm
  | some torn =>
    obtain ⟨_, _, -, h⟩ := returns_bind.mp h
    cases (returns_check.mp h).1

/-- **A copy that gets to its end copied what there was to copy**, and hashed the same. -/
theorem returns_copyChunks {hashed' t : List UInt8}
    (h : Returns (copyChunks turns turn source remaining hashed) out hashed' t) :
    remaining ≤ source.length ∧ hashed' = hashed ++ source.take remaining ∧
      t = out ++ source.take remaining := by
  induction remaining using Nat.strongRecOn generalizing turn source hashed out with
  | ind remaining ih =>
    rw [copyChunks] at h
    split at h
    next hdone =>
      obtain ⟨rfl, rfl⟩ := returns_pure.mp h
      simp [hdone]
    next hmore =>
      split at h
      next => cases (returns_check.mp h).1
      next =>
        split at h
        next => cases (returns_check.mp h).1
        next given _ =>
          dsimp only at h
          split at h
          next => cases (returns_check.mp h).1
          next hn =>
            obtain ⟨_, mid, hwrite, h⟩ := returns_bind.mp h
            obtain rfl := returns_writeAll hwrite
            obtain ⟨hle, rfl, rfl⟩ := ih _ (by omega) h
            -- what this turn copied, and what the turns after it did
            set n := readLen given (min remaining hashBuf) source.length with hdef
            have hread : n ≤ remaining ∧ n ≤ source.length := by
              rw [hdef, readLen]
              omega
            have hsplit : source.take n ++ (source.drop n).take (remaining - n) =
                source.take remaining := by
              rw [← List.take_add, Nat.add_sub_cancel' hread.1]
            rw [List.length_drop] at hle
            refine ⟨by omega, ?_, ?_⟩
            · rw [List.append_assoc, hsplit]
            · rw [List.append_assoc, hsplit]

/-- What is published is the first `size` bytes of the download, and they hash to `digest`. -/
structure Verified (sha256 : List UInt8 → Vector UInt8 32) (bytes : List UInt8) (size : ℕ)
    (digest : Vector UInt8 32) (saved : List UInt8) : Prop where
  eq_take : saved = bytes.take size
  length : saved.length = size
  hash : sha256 saved = digest

/-- A copy that is not refused is as announced. -/
theorem returns_copyVerified
    (h : Returns (copyVerified sha256 source size digest copying) [] () saved) :
    Verified sha256 source size digest saved := by
  obtain ⟨hashed, _, hcopied, h⟩ := returns_bind.mp h
  obtain ⟨hle, rfl, rfl⟩ := returns_copyChunks hcopied
  obtain ⟨_, _, hchecked, h⟩ := returns_bind.mp h
  obtain ⟨hchecked, rfl⟩ := returns_check.mp hchecked
  obtain ⟨-, rfl⟩ := returns_check.mp h
  split at hchecked
  next hhash =>
    refine ⟨rfl, ?_, hhash⟩
    rw [List.nil_append, List.length_take, Nat.min_eq_left hle]
  next => cases hchecked

/-! ### What a publication leaves -/

variable {Path : Type} [DecidableEq Path] {beside : Path → Vector UInt8 16 → Path}
  {data destination tmp : Path} {outcomes : Outcomes} {disk t : Disk Path}
  {files : Path → Option Item}

/-- What copying a file to `destination` may leave of the files there were. -/
inductive Left (files : Path → Option Item) (destination : Path) (good : List UInt8 → Prop) :
    Except PublishError Unit → Disk Path → Prop
  | saved {saved : List UInt8} {t : Disk Path} (hgood : good saved) (hway : t.way ≠ some .renamed)
      (hfiles : t.files = Function.update files destination (some (.file saved))) :
      Left files destination good (.ok ()) t
  | untouched {e : PublishError} {t : Disk Path} (hway : t.way ≠ some .inPlace)
      (hfiles : t.files = files) : Left files destination good (.error e) t
  | removed {e : PublishError} {t : Disk Path} (hway : t.way = some .inPlace)
      (hfiles : t.files = Function.update files destination none) :
      Left files destination good (.error e) t

/-- What a copy over a temporary file leaves. -/
theorem copyViaTemp_left (hnew : files tmp = none)
    (hdisk : disk.files = Function.update files tmp (some (.file [])))
    (h : Ends (copyViaTemp sha256 tmp destination source size digest outcomes) disk r t) :
    Left files destination (Verified sha256 source size digest) r t := by
  have hremoved (node : Option Item) :
      Function.update (Function.update files tmp node) tmp none = files := by
    rw [Function.update_idem, ← hnew, Function.update_eq_self]
  rw [copyViaTemp, ends_modify_bind, ends_attempt_bind] at h
  rcases h with ⟨_, t', hcopied, h⟩ | ⟨e, t', hcopied, h⟩
  · obtain ⟨rfl, rfl⟩ := ends_pure.mp h
    obtain ⟨_, t'', hwritten, hrenamed⟩ := returns_bind.mp hcopied
    obtain ⟨saved, hcopy, rfl⟩ := Disk.ends_writeTo (r := .ok ()).mp hwritten
    rcases Disk.ends_rename (r := .ok ()) hrenamed with ⟨-, bytes, hfile, rfl⟩ | ⟨⟨e, he⟩, -⟩
    · obtain rfl : saved = bytes := by simpa using hfile
      refine .saved (returns_copyVerified hcopy) (by simp) ?_
      simp [hdisk, hremoved]
    · cases he
  · obtain ⟨rfl, rfl⟩ := ends_check.mp (ends_modify_bind.mp h)
    rcases fails_bind.mp hcopied with hfailed | ⟨_, t'', hwritten, hfailed⟩
    · obtain ⟨torn, -, rfl⟩ := Disk.ends_writeTo (r := .error e).mp hfailed
      exact .untouched (by simp) (by simp [hdisk, hremoved])
    · obtain ⟨saved, -, rfl⟩ := Disk.ends_writeTo (r := .ok ()).mp hwritten
      rcases Disk.ends_rename (r := .error e) hfailed with ⟨he, -⟩ | ⟨-, rfl⟩
      · cases he
      · exact .untouched (by simp) (by simp [hdisk, hremoved])

/-- What a copy in place leaves. -/
theorem copyInPlace_left (hway : disk.way = none)
    (h : Ends (copyInPlace sha256 destination source size digest outcomes) disk r t) :
    Left disk.files destination (Verified sha256 source size digest) r t := by
  rw [copyInPlace, ends_bind] at h
  rcases h with ⟨e, rfl, h⟩ | ⟨_, t', hopened, h⟩
  · rcases Disk.ends_createTruncated (r := .error e) h with ⟨he, -⟩ | ⟨-, rfl⟩
    · cases he
    · exact .untouched (by simp [hway]) rfl
  rcases Disk.ends_createTruncated (r := .ok ()) hopened with ⟨-, rfl⟩ | ⟨⟨e, he⟩, -⟩
  swap
  · cases he
  rw [ends_modify_bind, ends_attempt_bind] at h
  rcases h with ⟨_, t', hcopied, h⟩ | ⟨e, t', hcopied, h⟩
  · obtain ⟨rfl, rfl⟩ := ends_pure.mp h
    obtain ⟨saved, hcopy, rfl⟩ := Disk.ends_writeTo (r := .ok ()).mp hcopied
    exact .saved (returns_copyVerified hcopy) (by simp) (by simp)
  · obtain ⟨rfl, rfl⟩ := ends_check.mp (ends_modify_bind.mp h)
    obtain ⟨torn, -, rfl⟩ := Disk.ends_writeTo (r := .error e).mp hcopied
    exact .removed (by simp) (by simp)

/-- What a copy leaves, either way. -/
theorem copyIntoPlace_left {viaTemp : Bool} (hway : disk.way = none)
    (hdata : disk.files data = some (.file bytes))
    (h : Ends (copyIntoPlace sha256 beside data destination size digest viaTemp outcomes)
      disk r t) :
    Left disk.files destination (Verified sha256 bytes size digest) r t := by
  rw [copyIntoPlace, ends_bind] at h
  rcases h with ⟨e, rfl, h⟩ | ⟨source, _, hopened, h⟩
  · obtain rfl := Disk.fails_openFile h
    exact .untouched (by simp [hway]) rfl
  obtain ⟨hfile, rfl⟩ := Disk.returns_openFile hopened
  obtain rfl : source = bytes := by simpa using hfile.symm.trans hdata
  split at h
  next =>
    rw [ends_attempt_bind] at h
    rcases h with ⟨tmp, t', hcreated, h⟩ | ⟨e, t', hcreated, h⟩
    · obtain ⟨_, _, hnew, hname⟩ := returns_bind.mp hcreated
      obtain ⟨rfl, rfl⟩ := returns_pure.mp hname
      rcases Disk.ends_createNew (r := .ok ()) hnew with ⟨-, hnone, rfl⟩ | ⟨⟨e, he⟩, -⟩
      · exact copyViaTemp_left hnone rfl h
      · cases he
    · rcases fails_bind.mp hcreated with hnew | ⟨_, _, -, hname⟩
      · rcases Disk.ends_createNew (r := .error e) hnew with ⟨he, -⟩ | ⟨-, rfl⟩
        · cases he
        · exact copyInPlace_left hway h
      · exact absurd hname fails_pure
  next => exact copyInPlace_left hway h

/-- A rename does all or nothing. -/
theorem moveIntoPlace_ends (hdata : disk.files data = some (.file bytes))
    (h : Ends (moveIntoPlace data destination outcomes) disk r t) :
    (r = .ok () ∧ t = ((disk.put data none).put destination (some (.file bytes))).goes .renamed) ∨
      (∃ e, r = .error e) ∧ t = disk := by
  rw [moveIntoPlace, ends_bind] at h
  rcases h with ⟨e, rfl, h⟩ | ⟨_, t', hrenamed, h⟩
  · rcases Disk.ends_rename (r := .error e) h with ⟨he, -⟩ | ⟨he, rfl⟩
    · cases he
    · exact .inr ⟨he, rfl⟩
  · obtain ⟨rfl, rfl⟩ := ends_modify.mp h
    rcases Disk.ends_rename (r := .ok ()) hrenamed with ⟨-, bytes', hfile, rfl⟩ | ⟨⟨e, he⟩, -⟩
    · obtain rfl : bytes' = bytes := by simpa using hfile.symm.trans hdata
      exact .inl ⟨rfl, rfl⟩
    · cases he

/-- A publication renames the download, or copies it as far as that gets. -/
theorem publishDownload_ends {mode : Publish} (hway : disk.way = none)
    (hdata : disk.files data = some (.file bytes))
    (h : Ends (publishDownload sha256 beside data destination size digest mode outcomes) disk r t) :
    (r = .ok () ∧ t = ((disk.put data none).put destination (some (.file bytes))).goes .renamed) ∨
      (∃ t', Left disk.files destination (Verified sha256 bytes size digest) r t' ∧
        ((r = .ok () ∧ t = t'.put data none) ∨ (∃ e, r = .error e) ∧ t = t')) := by
  have hcopy (h : Ends (do
      copyIntoPlace sha256 beside data destination size digest (mode ≠ .forceInPlace) outcomes
      Disk.removeFile data) disk r t) :
      ∃ t', Left disk.files destination (Verified sha256 bytes size digest) r t' ∧
        ((r = .ok () ∧ t = t'.put data none) ∨ (∃ e, r = .error e) ∧ t = t') := by
    rcases ends_bind.mp h with ⟨e, rfl, hfails⟩ | ⟨_, t', hcopied, h⟩
    · exact ⟨t, copyIntoPlace_left (r := .error e) hway hdata hfails, .inr ⟨⟨e, rfl⟩, rfl⟩⟩
    · obtain ⟨rfl, rfl⟩ := ends_modify.mp h
      exact ⟨t', copyIntoPlace_left (r := .ok ()) hway hdata hcopied, .inl ⟨rfl, rfl⟩⟩
  by_cases hmode : mode = .auto
  · rw [publishDownload, if_pos hmode, ends_attempt_bind] at h
    rcases h with ⟨_, t', hmoved, h⟩ | ⟨e, t', hmoved, h⟩
    · obtain ⟨rfl, rfl⟩ := ends_pure.mp h
      rcases moveIntoPlace_ends (r := .ok ()) hdata hmoved with hmoved | ⟨⟨e, he⟩, -⟩
      · exact .inl hmoved
      · cases he
    · rcases moveIntoPlace_ends (r := .error e) hdata hmoved with ⟨he, -⟩ | ⟨-, rfl⟩
      · cases he
      · exact .inr (hcopy h)
  · rw [publishDownload, if_neg hmode] at h
    exact .inr (hcopy h)

/-- **Publishing a download is all or nothing.** However it is published, and however the file
operations turn out:

* when it succeeds, the destination holds the download and the download's own file is gone; what
  was copied is exactly `size` bytes that hash to `digest`;
* when it fails, the download's own file is there for another try, and no other file was created,
  changed or removed; only a failed copy straight into the destination removed what was there. -/
theorem publish_all_or_nothing (sha256 : List UInt8 → Vector UInt8 32)
    (beside : Path → Vector UInt8 16 → Path) (files : Path → Option Item) (outcomes : Outcomes)
    (mode : Publish) (size : ℕ) (digest : Vector UInt8 32) (hne : data ≠ destination)
    (hdata : files data = some (.file bytes)) :
    (∀ t, Returns (publishDownload sha256 beside data destination size digest mode outcomes)
        ⟨files, none⟩ () t →
      ∃ saved, t.files = Function.update (Function.update files data none) destination
          (some (.file saved)) ∧
        (bytes.length = size → saved = bytes) ∧
          if t.way = some .renamed then saved = bytes
          else saved = bytes.take size ∧ saved.length = size ∧ sha256 saved = digest) ∧
      ∀ e t, Fails (publishDownload sha256 beside data destination size digest mode outcomes)
        ⟨files, none⟩ e t →
      t.files data = some (.file bytes) ∧
        if t.way = some .inPlace then t.files = Function.update files destination none
        else t.files = files := by
  constructor
  · intro t h
    rcases publishDownload_ends (r := .ok ()) rfl hdata h with
      ⟨-, rfl⟩ | ⟨t', hleft, ⟨-, rfl⟩ | ⟨⟨e, he⟩, -⟩⟩
    · exact ⟨bytes, rfl, fun _ => rfl, rfl⟩
    -- how the destination was left says which of the cases it is
    · cases hleft with
      | @saved saved _ hgood hway hfiles =>
        refine ⟨saved, ?_, ?_, ?_⟩
        · rw [Disk.put_files, hfiles, Function.update_comm hne.symm]
        · intro hsize
          rw [hgood.eq_take, ← hsize, List.take_length]
        · rw [Disk.put_way, if_neg hway]
          exact ⟨hgood.eq_take, hgood.length, hgood.hash⟩
    · cases he
  · intro e t h
    rcases publishDownload_ends (r := .error e) rfl hdata h with
      ⟨he, -⟩ | ⟨t', hleft, ⟨he, -⟩ | ⟨-, rfl⟩⟩
    · cases he
    · cases he
    · cases hleft with
      | untouched hway hfiles =>
        rw [if_neg hway, hfiles]
        exact ⟨hdata, rfl⟩
      | removed hway hfiles =>
        rw [if_pos hway, hfiles, Function.update_of_ne hne]
        exact ⟨hdata, rfl⟩

/-- A copy into a temp file that fails while it is written. -/
theorem publish_all_or_nothing_torn :
    let files : String → Option Item := fun path =>
      if path = "part" then some (.file [1, 2]) else if path = "out" then some (.file [3]) else none
    let copying : Copying := ⟨fun _ => ⟨false, some 2, some 1⟩, true⟩
    let outcomes : Outcomes :=
      ⟨false, true, .replicate 16 0, true, copying, true, true, copying⟩
    "part" ≠ "out" ∧ files "part" = some (.file [1, 2]) ∧
      ∀ e t, Fails (publishDownload (fun _ => .replicate 32 0) (fun _ _ => "tmp") "part" "out" 2
        (.replicate 32 0) .auto outcomes) ⟨files, none⟩ e t →
      t.files "part" = some (.file [1, 2]) ∧
        if t.way = some .inPlace then t.files = Function.update files "out" none
        else t.files = files := by
  intro files copying outcomes
  have hne : "part" ≠ "out" := by decide
  exact ⟨hne, rfl, (publish_all_or_nothing (fun _ => .replicate 32 0) (fun _ _ => "tmp") files
    outcomes .auto 2 (.replicate 32 0) hne rfl).2⟩

end Client

end KdxHotline
