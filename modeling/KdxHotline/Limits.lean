import KdxHotline.Foundations.Fallible

/-!
# Input caps

The caps on what a client may send, and the two ways the server applies them: a
check that refuses an over-long field, and a truncation on a character boundary.
Lengths are in bytes of UTF-8.
-/

namespace KdxHotline

namespace Limits

open Foundations

/-- Account username. -/
def maxUsernameLen : ℕ := 64
/-- Newsgroup, role and room display names. -/
def maxNameLen : ℕ := 64
/-- Live chat rooms, the lobby included. -/
def maxRooms : ℕ := 1024
/-- Free-text admin-supplied reason. -/
def maxReasonLen : ℕ := 512
/-- One file or folder name in the virtual tree. -/
def maxFileNameLen : ℕ := 255
/-- A full virtual path in a request. -/
def maxPathLen : ℕ := 4096
/-- Maximum folder nesting depth in the virtual tree. -/
def maxTreeDepth : ℕ := 64
/-- Refuse a value longer than `max` bytes, naming the field. -/
def checkLen (field value : String) (max : ℕ) : Except String Unit :=
  refuseIf (decide (max < value.utf8ByteSize))
    (field ++ " too long (" ++ value.utf8ByteSize.repr ++ " bytes, max " ++ max.repr ++ ")")

/-- The characters of the longest prefix of at most `max` bytes. -/
def takeBytes : ℕ → List Char → List Char
  | _, [] => []
  | max, c :: cs => if c.utf8Size ≤ max then c :: takeBytes (max - c.utf8Size) cs else []

theorem takeBytes_isPrefix : ∀ (max : ℕ) (cs : List Char), takeBytes max cs <+: cs
  | _, [] => List.prefix_rfl
  | max, c :: cs => by
    rw [takeBytes]
    split
    · exact List.cons_prefix_cons.mpr ⟨rfl, takeBytes_isPrefix _ cs⟩
    · exact List.nil_prefix

/-- Truncate to at most `max` bytes on a character boundary. -/
def truncateUtf8 (s : String) (max : ℕ) : String := String.ofList (takeBytes max s.toList)

theorem truncateUtf8_isPrefix (s : String) (max : ℕ) :
    (truncateUtf8 s max).toList <+: s.toList := by
  rw [truncateUtf8, String.toList_ofList]
  exact takeBytes_isPrefix max s.toList

/-- The characters that `str::trim` removes. -/
def isWhitespace (c : Char) : Bool :=
  let n := c.toNat
  decide (9 ≤ n ∧ n ≤ 13) || n == 0x20 || n == 0x85 || n == 0xa0 || n == 0x1680 ||
    decide (0x2000 ≤ n ∧ n ≤ 0x200a) || n == 0x2028 || n == 0x2029 || n == 0x202f ||
    n == 0x205f || n == 0x3000

/-- The characters of a text without the whitespace at its ends. -/
def trim (cs : List Char) : List Char :=
  ((cs.dropWhile isWhitespace).reverse.dropWhile isWhitespace).reverse

/-- Whether nothing is left of a text once it is trimmed. -/
def isBlank (s : String) : Bool := s.toList.all isWhitespace

/-- The control characters: C0, DEL and C1. -/
def isControl (c : Char) : Bool :=
  decide (c.toNat < 0x20) || decide (0x7f ≤ c.toNat ∧ c.toNat ≤ 0x9f)

end Limits

end KdxHotline
