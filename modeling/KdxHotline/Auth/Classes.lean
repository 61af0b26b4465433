import KdxHotline.Foundations.Flags
import Mathlib.Order.Basic

/-!
# User classes and privileges

What an account may do is a set of privilege bits: those of its base class and
of every role it holds, plus the bits granted to it, minus the bits revoked from
it. Revokes win over everything else (`KdxHotline.Auth.effectivePrivileges`).

`KdxHotline.Auth.effectivePrivileges_bit` is the one fact the policy proofs use:
bit by bit, an effective privilege has a source among the three and is not
revoked.
-/

namespace KdxHotline

namespace Auth

open Foundations

/-! ### The privilege bits -/

/-- A set of privileges, as the server and the database hold it. -/
abbrev Privileges := BitVec 32

namespace Privileges

/-- Send messages to rooms. -/
def chatSend : Privileges := 1 <<< 0
/-- Send messages to one user. -/
def chatPrivate : Privileges := 1 <<< 1
/-- Open rooms that are not there. -/
def chatCreateRoom : Privileges := 1 <<< 2
/-- Set a room's topic. -/
def chatSetTopic : Privileges := 1 <<< 3
/-- List folders. -/
def fileList : Privileges := 1 <<< 4
/-- Fetch files. -/
def fileDownload : Privileges := 1 <<< 5
/-- Send files. -/
def fileUpload : Privileges := 1 <<< 6
/-- Delete files. -/
def fileDelete : Privileges := 1 <<< 7
/-- Create and remove folders, drop boxes included. -/
def fileManageTree : Privileges := 1 <<< 8
/-- Disconnect users. -/
def userKick : Privileges := 1 <<< 16
/-- Ban users. -/
def userBan : Privileges := 1 <<< 17
/-- Create and edit accounts. -/
def userAdmin : Privileges := 1 <<< 18
/-- Change the configuration, shut the server down. -/
def serverAdmin : Privileges := 1 <<< 19

/-- The defined bits with their names, lowest first. -/
def named : List (String × Privileges) :=
  [("CHAT_SEND", chatSend), ("CHAT_PRIVATE", chatPrivate), ("CHAT_CREATE_ROOM", chatCreateRoom),
    ("CHAT_SET_TOPIC", chatSetTopic), ("FILE_LIST", fileList), ("FILE_DOWNLOAD", fileDownload),
    ("FILE_UPLOAD", fileUpload), ("FILE_DELETE", fileDelete),
    ("FILE_MANAGE_TREE", fileManageTree), ("USER_KICK", userKick), ("USER_BAN", userBan),
    ("USER_ADMIN", userAdmin), ("SERVER_ADMIN", serverAdmin)]

/-- No privilege. -/
def empty : Privileges := 0

/-- Every privilege that is defined. -/
def all : Privileges := named.foldl (fun acc p => acc ||| p.2) empty

/-- A stored bit mask, without the bits no privilege is defined for. -/
def fromBitsTruncate (bits : BitVec 32) : Privileges := bits &&& all

/-- Whether every privilege of `b` is one of `a`'s. -/
def contains (a b : Privileges) : Bool := decide (Within b a)

@[simp] theorem contains_iff {a b : Privileges} : contains a b = true ↔ Within b a :=
  decide_eq_true_iff

end Privileges

open Privileges

/-! ### The four classes -/

/-- The four user classes, lowest first. -/
inductive BaseClass
  | guest
  | user
  | powerUser
  | admin
  deriving DecidableEq, Repr

namespace BaseClass

/-- The discriminant a class is stored and sent as. -/
def toNat : BaseClass → ℕ
  | guest => 0
  | user => 1
  | powerUser => 2
  | admin => 3

theorem toNat_injective : Function.Injective toNat := by
  intro a b h
  cases a <;> cases b <;> first | rfl | exact absurd h (by decide)

instance : LinearOrder BaseClass := LinearOrder.lift' toNat toNat_injective

theorem le_admin (c : BaseClass) : c ≤ admin := by cases c <;> decide

/-- The class a byte stands for. -/
def tryFrom : ℕ → Option BaseClass
  | 0 => some guest
  | 1 => some user
  | 2 => some powerUser
  | 3 => some admin
  | _ => none

/-- What a class may do on its own. -/
def privileges : BaseClass → Privileges
  | guest => chatSend ||| fileList
  | user => chatSend ||| fileList ||| chatPrivate ||| fileDownload ||| fileUpload
  | powerUser => chatSend ||| fileList ||| chatPrivate ||| fileDownload ||| fileUpload |||
      chatCreateRoom ||| chatSetTopic ||| fileDelete ||| fileManageTree
  | admin => all

end BaseClass

/-! ### Effective privileges -/

/-- A base class, the union of the assigned roles and the override bits combined.
Revokes win over the class and over any role. -/
def effectivePrivileges (base : BaseClass) (roles : Privileges) (granted revoked : BitVec 32) :
    Privileges :=
  without (base.privileges ||| roles ||| fromBitsTruncate granted) (fromBitsTruncate revoked)

/-- **An effective privilege has a source and is not revoked.** -/
theorem effectivePrivileges_bit (base : BaseClass) (roles : Privileges)
    (granted revoked : BitVec 32) (i : ℕ) :
    (effectivePrivileges base roles granted revoked).getLsbD i = true ↔
      (base.privileges.getLsbD i = true ∨ roles.getLsbD i = true ∨
        (fromBitsTruncate granted).getLsbD i = true) ∧
      (fromBitsTruncate revoked).getLsbD i = false := by
  rw [effectivePrivileges, getLsbD_without, BitVec.getLsbD_or, BitVec.getLsbD_or,
    Bool.or_eq_true, Bool.or_eq_true, or_assoc]

/-- The bits kept of an override are the ones a privilege is defined for, so
reading the kept bits back loses nothing more. -/
@[simp] theorem fromBitsTruncate_and_all (bits : BitVec 32) :
    fromBitsTruncate (bits &&& all) = fromBitsTruncate bits := by
  rw [fromBitsTruncate, fromBitsTruncate, BitVec.and_assoc, BitVec.and_self]

@[simp] theorem fromBitsTruncate_idem (bits : BitVec 32) :
    fromBitsTruncate (fromBitsTruncate bits) = fromBitsTruncate bits :=
  fromBitsTruncate_and_all bits

end Auth

end KdxHotline
