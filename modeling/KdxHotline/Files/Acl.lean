import KdxHotline.Auth.Authority

/-!
# Folder access rules

A folder may carry an access item, declared by a trailing `[db]`, `[ul]` or
`[default]` of its name. With its kind, its class gates and its owner that
decides who may list it, upload into it and take entries out of it.
-/

namespace KdxHotline

namespace Files

open Foundations Auth

open Privileges

/-- The kinds of node of the virtual tree. -/
inductive NodeKind
  | directory
  | file
  | dropBox
  | uploadFolder
  | alias_
  deriving DecidableEq, Repr

namespace NodeKind

/-- The kind a stored number stands for. -/
def fromI64 (kind : ℤ) : Option NodeKind :=
  if kind = 0 then some directory
  else if kind = 1 then some file
  else if kind = 2 then some dropBox
  else if kind = 3 then some uploadFolder
  else if kind = 4 then some alias_
  else none

/-- The number a kind is stored and sent as. -/
def asU8 : NodeKind → ℕ
  | directory => 0
  | file => 1
  | dropBox => 2
  | uploadFolder => 3
  | alias_ => 4

@[simp] theorem fromI64_asU8 (kind : NodeKind) : fromI64 (kind.asU8 : ℤ) = some kind := by
  cases kind <;> rfl

/-- The kinds that structurally contain other nodes. -/
def isFolder : NodeKind → Bool
  | directory | dropBox | uploadFolder => true
  | file | alias_ => false

end NodeKind

/-- The named access-item bundles a folder can opt into via its name suffix. -/
inductive AccessItem
  | default_
  | upload
  | dropBox
  deriving DecidableEq, Repr

/-- One ASCII letter in lower case. -/
def toAsciiLowercase (c : Char) : Char :=
  if 'A' ≤ c ∧ c ≤ 'Z' then Char.ofNat (c.toNat + 32) else c

/-- Parse the trailing `[tag]` suffix of a folder name. -/
def AccessItem.parse (name : String) : AccessItem :=
  match name.toList.reverse with
  | ']' :: rest =>
    if '[' ∈ rest then
      let tag := (Limits.trim (rest.takeWhile (· ≠ '[')).reverse).map toAsciiLowercase
      if tag = ['d', 'b'] then dropBox
      else if tag = ['u', 'l'] then upload
      else default_
    else default_
  | _ => default_

/-- Why the access rules refused a session. -/
inductive AclError
  | dropBoxIsWriteOnly
  | classTooLow
  | privilegeRequired (privilege : String)
  | ownerOnly
  | foreignOwner
  deriving DecidableEq, Repr

/-- Is a folder of `kind` with `item` a drop box? -/
def isDropBox (kind : NodeKind) (item : AccessItem) : Bool := kind == .dropBox || item == .dropBox

/-- May `user` list or read the contents of a folder of `kind` with `item`
semantics? -/
def checkRead (kind : NodeKind) (item : AccessItem) (minRead class_ : BaseClass)
    (owner : Option String) (user : String) : Except AclError Unit :=
  if isDropBox kind item then
    if class_ = .admin then .ok ()
    else if owner = some user then .ok ()
    else .error .dropBoxIsWriteOnly
  else refuseIf (decide (class_ < minRead)) .classTooLow

/-- May `user` upload into a folder? -/
def checkWrite (minWrite class_ : BaseClass) (privs : Privileges) : Except AclError Unit := do
  refuseIf (decide (class_ < minWrite)) .classTooLow
  refuseIf (!privs.contains fileUpload) (.privilegeRequired "upload")

/-- May `user` remove an entry from a folder of `kind` with `item` semantics? -/
def checkDelete (kind : NodeKind) (item : AccessItem) (minWrite class_ : BaseClass)
    (owner : Option String) (user : String) : Except AclError Unit :=
  if isDropBox kind item then
    if class_ = .admin then .ok ()
    else if owner = some user then .ok ()
    else .error .ownerOnly
  else do
    let uploadFolder := kind == .uploadFolder || item == .upload
    refuseIf (uploadFolder && decide (class_ < .admin)) .classTooLow
    refuseIf (decide (class_ < minWrite)) .classTooLow

end Files

end KdxHotline
