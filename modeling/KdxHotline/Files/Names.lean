import KdxHotline.Limits
import Mathlib.Algebra.Ring.Nat

/-!
# Names and paths

What a file or folder may be called, how a request path splits into names, and
how a name that is taken is varied: `stem (2).ext`, `stem (3).ext` and so on
(`KdxHotline.Files.freeName`). Variants longer than a budget lose the end of
their stem.
-/

namespace KdxHotline

namespace Files

open Foundations Limits

/-- Room for a name a blind upload needs in its folder. -/
def minVariantBudget : ℕ := 48

/-- Longest tail (`.` included) kept after the counter as an extension. -/
def maxExtensionLen : ℕ := 16

/-- The marks that make a name display as something else. -/
def isBidiControl (c : Char) : Bool :=
  let n := c.toNat
  n == 0x061c || n == 0x200e || n == 0x200f || decide (0x202a ≤ n ∧ n ≤ 0x202e) ||
    decide (0x2066 ≤ n ∧ n ≤ 0x2069)

/-- The first objection to one of the characters of a name. -/
def checkNameChars : List Char → Except String Unit
  | [] => .ok ()
  | c :: cs => do
    refuseIf (c == '/') "name contains '/'"
    refuseIf (isControl c) "name contains a control character"
    refuseIf (isBidiControl c) "name contains a bidi control character"
    checkNameChars cs

/-- Check a client-supplied file or folder name. -/
def validateName (name : String) : Except String Unit := do
  refuseIf name.isEmpty "name is empty"
  refuseIf (decide (maxFileNameLen < name.utf8ByteSize)) "name is too long"
  refuseIf (name == "." || name == "..") "reserved name"
  refuseIf (trim name.toList != name.toList) "leading or trailing whitespace"
  checkNameChars name.toList

/-- A request path is bounded and carries no control characters. -/
def checkPath (path : String) : Except String Unit := do
  refuseIf (decide (maxPathLen < path.utf8ByteSize)) "path is too long"
  refuseIf (path.toList.any isControl) "path contains a control character"

/-- The names a path is made of; empty ones are skipped. -/
def segments (path : String) : List String :=
  ((path.toList.splitOn '/').filter fun s => !s.isEmpty).map String.ofList

/-! ### Variants of a taken name -/

/-- The length in bytes of a run of characters. -/
def byteLen (cs : List Char) : ℕ := (cs.map Char.utf8Size).sum

/-- Split a name at its last `.`, the dot going to the extension, unless the dot
leads the name, ends it or starts too long a tail. -/
def splitExtension (name : List Char) : List Char × List Char :=
  let tail := name.reverse.takeWhile (· ≠ '.')
  let stem := (name.reverse.dropWhile (· ≠ '.')).tail.reverse
  if '.' ∈ name ∧ stem ≠ [] ∧ tail ≠ [] ∧ byteLen tail + 1 ≤ maxExtensionLen then
    (stem, '.' :: tail.reverse)
  else (name, [])

/-- A decimal number of at most nine digits without a leading zero. -/
def parseCounter (digits : List Char) : Option ℕ :=
  if 1 ≤ digits.length ∧ digits.length ≤ 9 ∧ digits.head? ≠ some '0' ∧
      digits.all (fun c => '0' ≤ c && c ≤ '9') then
    some (digits.foldl (fun n c => 10 * n + (c.toNat - '0'.toNat)) 0)
  else none

/-- Split a stem into its base and its counter `" (k)"`; the counter is 1 when
there is none. -/
def splitCounter (stem : List Char) : List Char × ℕ :=
  match stem.reverse with
  | ')' :: body =>
    let digits := (body.takeWhile (· ≠ '(')).reverse
    match body.dropWhile (· ≠ '(') with
    | '(' :: ' ' :: base =>
      match parseCounter digits with
      | some k => if base ≠ [] then (base.reverse, k) else (stem, 1)
      | none => (stem, 1)
    | _ => (stem, 1)
  | _ => (stem, 1)

/-- Split a name into stem, counter and extension. -/
def splitVariant (name : String) : List Char × ℕ × List Char :=
  let (stem, ext) := splitExtension name.toList
  let (base, k) := splitCounter stem
  (base, k, ext)

/-- The variant of a stem with a counter, cut to fit `budget`. -/
def variant (stem ext : List Char) (budget n : ℕ) : Option String :=
  let suffix := (" (" ++ n.repr ++ ")").toList
  if budget < byteLen suffix + byteLen ext then none
  else
    let kept := takeBytes (budget - (byteLen suffix + byteLen ext)) stem
    if kept.isEmpty then none else some (String.ofList (kept ++ suffix ++ ext))

/-- The first counter after `n` whose variant is free, as long as the counter can
still be raised `fuel` times. -/
def freeVariant (stem ext : List Char) (budget : ℕ) (taken : String → Bool) : ℕ → ℕ → Option String
  | 0, _ => none
  | fuel + 1, n => do
    let candidate ← variant stem ext budget (n + 1)
    if taken candidate then freeVariant stem ext budget taken fuel (n + 1) else some candidate

/-- The first name that `taken` reports free: `name` itself, then its variants. -/
def freeName (name : String) (budget : ℕ) (taken : String → Bool) : Option String :=
  if !taken name then some name
  else
    let (stem, k, ext) := splitVariant name
    freeVariant stem ext budget taken (2 ^ 64 - 1 - k) k

/-! ### Variants fit their budget -/

theorem utf8ByteSize_ofList (cs : List Char) : (String.ofList cs).utf8ByteSize = byteLen cs := by
  rw [← String.size_toByteArray, String.toByteArray_ofList, List.utf8Encode]
  simp [byteLen]

theorem byteLen_append (cs ds : List Char) : byteLen (cs ++ ds) = byteLen cs + byteLen ds := by
  simp [byteLen]

theorem byteLen_takeBytes_le : ∀ (max : ℕ) (cs : List Char), byteLen (takeBytes max cs) ≤ max
  | max, [] => by simp [takeBytes, byteLen]
  | max, c :: cs => by
    rw [takeBytes]
    split
    · have hrest := byteLen_takeBytes_le (max - c.utf8Size) cs
      simp only [byteLen, List.map_cons, List.sum_cons] at hrest ⊢
      omega
    · simp [byteLen]

variable {name v : String} {stem ext : List Char} {budget n fuel : ℕ} {taken : String → Bool}

/-- A variant fits its budget. -/
theorem variant_le (h : variant stem ext budget n = some v) : v.utf8ByteSize ≤ budget := by
  simp only [variant] at h
  split at h
  · cases h
  · split at h
    · cases h
    · cases h
      have hkept := byteLen_takeBytes_le
        (budget - (byteLen (" (" ++ n.repr ++ ")").toList + byteLen ext)) stem
      rw [utf8ByteSize_ofList, byteLen_append, byteLen_append]
      omega

/-- The search ends at a variant that is not taken. -/
theorem freeVariant_some (h : freeVariant stem ext budget taken fuel n = some v) :
    (∃ k, variant stem ext budget k = some v) ∧ taken v = false := by
  induction fuel generalizing n with
  | zero => cases h
  | succ fuel ih =>
    obtain ⟨candidate, hcandidate, h⟩ := Option.bind_eq_some_iff.mp h
    split at h
    · exact ih h
    · rename_i hfree
      cases h
      exact ⟨⟨n + 1, hcandidate⟩, Bool.not_eq_true _ ▸ hfree⟩

/-- **A free name is no longer than the name asked for or the budget.** -/
theorem freeName_le (h : freeName name budget taken = some v) :
    v.utf8ByteSize ≤ max name.utf8ByteSize budget := by
  unfold freeName at h
  split at h
  · cases h
    exact Nat.le_max_left _ _
  · obtain ⟨⟨k, hvariant⟩, -⟩ := freeVariant_some h
    exact Nat.le_trans (variant_le hvariant) (Nat.le_max_right _ _)

/-- **A free name is not taken.** -/
theorem freeName_free (h : freeName name budget taken = some v) : taken v = false := by
  unfold freeName at h
  split at h
  · rename_i hfree
    cases h
    exact Bool.not_eq_true' _ ▸ hfree
  · exact (freeVariant_some h).2

example : freeName "report.pdf" 255 (· == "report.pdf") = some "report (2).pdf" := by
  decide +kernel

end Files

end KdxHotline
