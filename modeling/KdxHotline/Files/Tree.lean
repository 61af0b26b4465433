import KdxHotline.Auth.Roles
import KdxHotline.Files.Acl
import KdxHotline.Files.Names
import KdxHotline.Foundations.Explore
import KdxHotline.Storage.FileNodes
import Mathlib.Data.Finmap

/-!
# The virtual file tree in memory

The tree is loaded from the table of file nodes at startup and kept in two maps:
the nodes by id, and the children of each node. Reading a folder's contents
requires the read rule of that folder and of every folder above it, and a walk
along a path applies the same rule as it descends
(`KdxHotline.Files.TreeState.walk`).

Every walk is bounded by the number of nodes, so links that loop are an error
rather than a hang: `KdxHotline.Files.TreeState.ancestry` going up and
`KdxHotline.Files.TreeState.subtreeExtent` and
`KdxHotline.Files.TreeState.collectSubtreeForDelete` going down.
-/

namespace KdxHotline

namespace Files

open Foundations Storage Auth Limits

/-! ### Nodes and errors -/

/-- A node of the tree. -/
structure Node where
  id : String
  parentId : Option String
  name : String
  kind : NodeKind
  size : ℕ
  sha256 : Option (List UInt8)
  minClassRead : BaseClass
  minClassWrite : BaseClass
  storagePath : Option String
  /-- For an alias, the id of the node it points at. -/
  targetId : Option String
  /-- The access item of the node's name; it counts on folders. -/
  accessItem : AccessItem
  owner : Option String
  deriving DecidableEq, Repr

/-- Why a tree operation was refused. -/
inductive TreeError
  | notFound
  | notAFolder
  | notAFile
  | exists_
  | acl (e : AclError)
  | storage (e : StorageError)
  | corruptKind (kind : ℤ)
  | wouldCreateCycle
  | aliasChainRefused
  | invalidName (what : String)
  | invalidPath (what : String)
  | tooDeep
  deriving DecidableEq, Repr

/-- The rules' refusal as one of the tree's. -/
def access {α : Type} (x : Except AclError α) : Except TreeError α := x.mapError .acl

@[simp] theorem access_eq_ok {α : Type} {x : Except AclError α} {a : α} :
    access x = .ok a ↔ x = .ok a := mapError_eq_ok

@[simp] theorem access_eq_error {α : Type} {x : Except AclError α} {e : TreeError} :
    access x = .error e ↔ ∃ e', x = .error e' ∧ .acl e' = e := by
  cases x <;> simp [access, Except.mapError]

/-- Map a failed insert or update. -/
def mapWriteErr : StorageError → TreeError
  | .alreadyExists => .exists_
  | .foreignKey => .notFound
  | e => .storage e

/-- The node a row stands for. -/
def nodeFromRow (row : FileNodeRow) : Except TreeError Node := do
  let kind ← required (.corruptKind row.kind) (NodeKind.fromI64 row.kind)
  return { id := row.id, parentId := row.parentId, name := row.name, kind := kind
           size := (BitVec.ofInt 64 row.size).toNat, sha256 := row.sha256
           minClassRead := classFromStored row.minClassRead
           minClassWrite := classFromStored row.minClassWrite
           storagePath := row.storagePath, targetId := row.targetId
           accessItem := .parse row.name, owner := row.owner }

/-- The read rule of one folder. -/
def checkReadNode (node : Node) (s : Session) : Except AclError Unit :=
  checkRead node.kind node.accessItem node.minClassRead s.class_ node.owner s.username

/-- The write rule of one folder. -/
def checkWriteNode (node : Node) (s : Session) : Except AclError Unit :=
  checkWrite node.minClassWrite s.class_ s.privileges

/-- May `s` take an entry out of `folder`? -/
def checkRemoveFrom (folder : Node) (s : Session) : Except AclError Unit :=
  checkDelete folder.kind folder.accessItem folder.minClassWrite s.class_ folder.owner s.username

/-! ### The two maps -/

/-- The nodes by id, and the ids of the children of each. -/
structure TreeState where
  nodes : Finmap fun _ : String => Node
  children : Finmap fun _ : String => List String

namespace TreeState

variable (st : TreeState)

/-- The number of nodes. -/
def size : ℕ := st.nodes.keys.card

/-- The ids listed as the children of a node. -/
def childIds (id : String) : List String := (st.children.lookup id).getD []

/-- The nodes in a folder. -/
def childNodes (id : String) : List Node := (st.childIds id).filterMap fun c => st.nodes.lookup c

/-- The folder a node is in. -/
def parentOf (node : Node) : Except TreeError Node :=
  required .notFound (node.parentId.bind fun p => st.nodes.lookup p)

/-- Whether a folder has a node of that name. -/
def nameTaken (parentId name : String) : Bool := (st.childNodes parentId).any fun n => n.name == name

/-- Enter a node among the children of its parent. -/
def insertInMemory (node : Node) : TreeState where
  nodes := st.nodes.insert node.id node
  children := match node.parentId with
    | some p => st.children.insert p (st.childIds p ++ [node.id])
    | none => st.children

/-! ### Going up -/

/-- The chain of parents from a node, as long as it ends at the root within
`fuel` steps. -/
def climb : ℕ → Node → Except TreeError (List Node)
  | fuel, node =>
    match node.parentId, fuel with
    | none, _ => if node.id = rootId then .ok [node] else .error .notFound
    | some _, 0 => .error .notFound
    | some p, fuel + 1 => do
      let parent ← required .notFound (st.nodes.lookup p)
      let chain ← climb fuel parent
      return node :: chain

/-- `start`, its parent, …, the root. -/
def ancestry (start : Node) : Except TreeError (List Node) := st.climb st.size start

/-- The length in bytes of the path of a chain; the root has none. -/
def pathLen (chain : List Node) : ℕ :=
  ((chain.filter fun n => n.parentId.isSome).map fun n => 1 + n.name.utf8ByteSize).sum

/-- Apply the read rule to each of the nodes. -/
def checkReadEach (s : Session) : List Node → Except TreeError Unit
  | [] => .ok ()
  | node :: rest => do
    access (checkReadNode node s)
    checkReadEach s rest

/-- The inherited read gate on `folder`'s contents, from the root down. -/
def checkReadChain (folder : Node) (s : Session) : Except TreeError Unit := do
  let chain ← st.ancestry folder
  checkReadEach s chain.reverse

/-- May `s` read `node`? -/
def checkNodeReadable (node : Node) (s : Session) : Except TreeError Unit :=
  if node.kind.isFolder then st.checkReadChain node s
  else do
    let parent ← st.parentOf node
    st.checkReadChain parent s

/-- The drop-box rule of a tree operation: owner or admin only. -/
def checkManage (dest : Node) (s : Session) : Except AclError Unit :=
  refuseIf (isDropBox dest.kind dest.accessItem && decide (s.class_ < .admin) &&
    dest.owner != some s.username) .ownerOnly

/-- Every folder above `dest` must be readable. -/
def checkAbove (dest : Node) (s : Session) : Except TreeError Unit :=
  if dest.parentId.isSome then do
    let parent ← st.parentOf dest
    st.checkReadChain parent s
  else .ok ()

/-- May `s` put a new entry into the folder `dest`? `manage` marks a tree
operation rather than an upload. -/
def checkPlaceInto (dest : Node) (s : Session) (manage : Bool) : Except TreeError Unit := do
  st.checkAbove dest s
  access (checkWriteNode dest s)
  if manage then access (checkManage dest s) else .ok ()

/-- Would placing a subtree `height` levels tall, whose longest path below
`parent` is `relLen` bytes, stay within the caps? -/
def checkRoom (parent : Node) (height relLen : ℕ) : Except TreeError Unit := do
  let chain ← st.ancestry parent
  let depth := chain.length - 1
  refuseIf (decide (maxTreeDepth < depth + 1 + height)) .tooDeep
  refuseIf (decide (maxPathLen < pathLen chain + relLen)) (.invalidPath "path is too long")

/-- The longest name an entry of `folder` may have. -/
def nameBudget (folder : Node) : Except TreeError ℕ := do
  let chain ← st.ancestry folder
  return min maxFileNameLen (maxPathLen - (pathLen chain + 1))

/-! ### Walking a path -/

/-- The node an alias points at; any other node itself. -/
def resolveThroughAlias (node : Node) : Except TreeError Node :=
  if node.kind ≠ .alias_ then .ok node
  else do
    let targetId ← required .notFound node.targetId
    let target ← required .notFound (st.nodes.lookup targetId)
    refuseIf (target.kind == .alias_) .aliasChainRefused
    return target

/-- The rule for looking inside the target of an alias, whose own ancestors gate
what is inside it too. -/
def checkHop (target : Node) : Option Session → Except TreeError Unit
  | some s => st.checkNodeReadable target s
  | none => .ok ()

/-- The rule for looking inside a node that a walk came down to. -/
def checkLook (current : Node) : Option Session → Except TreeError Unit
  | some s => if current.kind.isFolder then access (checkReadNode current s) else .ok ()
  | none => .ok ()

/-- The node a walk looks inside when it stands at `current`; a session must be
allowed to look. -/
def walkable (session : Option Session) (current : Node) : Except TreeError Node :=
  if current.kind = .alias_ then do
    let target ← st.resolveThroughAlias current
    st.checkHop target session
    return target
  else do
    checkLook current session
    return current

/-- Follow the names from `current`. -/
def follow (session : Option Session) : Node → List String → Except TreeError Node
  | current, [] => .ok current
  | current, name :: rest => do
    let folder ← st.walkable session current
    let next ← required .notFound ((st.childNodes folder.id).find? fun n => n.name = name)
    follow session next rest

/-- Walk a path from the root, for a session or for the server itself. -/
def walk (path : String) (session : Option Session) : Except TreeError Node := do
  (checkPath path).mapError .invalidPath
  let root ← required .notFound (st.nodes.lookup rootId)
  st.follow session root (segments path)

/-- Resolve a path for a session. -/
def resolveAs (path : String) (s : Session) : Except TreeError Node := st.walk path (some s)

/-! ### Requests that only read -/

/-- What a listing shows of a node. -/
structure Entry where
  name : String
  kind : NodeKind
  size : ℕ
  deriving DecidableEq, Repr

/-- How a node is listed: an alias shows the size of its target, if the session
may read it. -/
def entryOf (s : Session) (n : Node) : Entry :=
  let size := if n.kind = .alias_ then
      ((n.targetId.bind fun t => st.nodes.lookup t).filter fun t =>
        (st.checkNodeReadable t s).toBool).elim 0 Node.size
    else n.size
  ⟨n.name, n.kind, size⟩

/-- List a folder's entries by name. -/
def list (path : String) (s : Session) : Except TreeError (List Entry) := do
  let node ← st.resolveAs path s
  let node ← st.resolveThroughAlias node
  refuseIf (!node.kind.isFolder) .notAFolder
  st.checkNodeReadable node s
  return ((st.childNodes node.id).map (st.entryOf s)).insertionSort fun a b => a.name ≤ b.name

/-- Resolve a file for download. -/
def openForRead (path : String) (s : Session) : Except TreeError Node := do
  let node ← st.resolveAs path s
  let node ← st.resolveThroughAlias node
  st.checkNodeReadable node s
  refuseIf (decide (node.kind ≠ .file)) .notAFile
  return node

/-- Node metadata. -/
def info (path : String) (s : Session) : Except TreeError Node := do
  let node ← st.resolveAs path s
  let node ← st.resolveThroughAlias node
  st.checkNodeReadable node s
  return node

/-! ### Uploads -/

/-- Where an upload is headed. -/
structure UploadDest where
  /-- The folder the file goes into. -/
  parent : Node
  /-- The uploader may not list `parent`, so the upload must not tell them which
  names are taken there. -/
  blind : Bool
  /-- The longest name an entry of `parent` may have. -/
  nameBudget : ℕ
  deriving DecidableEq, Repr

/-- What an upload checks of its name: a blind one only that the folder's path
leaves room for a variant, whatever is in the folder. -/
def checkUploadName (node : Node) (name : String) (blind : Bool) (budget : ℕ) :
    Except TreeError Unit :=
  if blind then refuseIf (decide (budget < minVariantBudget)) (.invalidPath "path is too long")
  else refuseIf (st.nameTaken node.id name) .exists_

/-- The checks of an upload into `node`. -/
def uploadDest (node : Node) (name : String) (s : Session) : Except TreeError UploadDest := do
  refuseIf (!node.kind.isFolder) .notAFolder
  st.checkPlaceInto node s false
  st.checkRoom node 0 (1 + name.utf8ByteSize)
  let budget ← st.nameBudget node
  let blind := !(checkReadNode node s).toBool
  st.checkUploadName node name blind budget
  return ⟨node, blind, budget⟩

/-- Validate an upload destination given by path. -/
def prepareUpload (path name : String) (s : Session) : Except TreeError UploadDest := do
  (validateName name).mapError .invalidName
  let node ← st.resolveAs path s
  st.uploadDest node name s

/-- Validate an upload destination known by id. -/
def prepareUploadInto (parentId name : String) (s : Session) : Except TreeError UploadDest := do
  (validateName name).mapError .invalidName
  let node ← required .notFound (st.nodes.lookup parentId)
  st.uploadDest node name s

/-! ### Going down -/

/-- The children of a node on the way down, with their height and the byte length
of their path. -/
def visitForExtent : Node × ℕ × ℕ → Except TreeError (List (Node × ℕ × ℕ))
  | (node, h, len) => .ok ((st.childNodes node.id).map fun child =>
      (child, h + 1, len + 1 + child.name.utf8ByteSize))

/-- Height of `top`'s subtree and the byte length of its longest path measured
from `top`'s parent. -/
def subtreeExtent (top : Node) : Except TreeError (ℕ × ℕ) := do
  let visited ← explore .notFound st.visitForExtent st.size [(top, 0, 1 + top.name.utf8ByteSize)]
  return (visited.foldl (fun m v => max m v.2.1) 0, visited.foldl (fun m v => max m v.2.2) 0)

/-- A folder that has contents must be readable to be emptied. -/
def checkContents (s : Session) (node : Node) : Except TreeError Unit :=
  if (st.childNodes node.id).isEmpty then .ok () else access (checkReadNode node s)

/-- What visiting a node on the way to deleting it checks, and the nodes to
delete with it. -/
def visitForDelete (s : Session) (node : Node) : Except TreeError (List Node) :=
  if node.kind.isFolder then do
    access (checkRemoveFrom node s)
    st.checkContents s node
    return st.childNodes node.id
  else return []

/-- Every node in `top`'s subtree, children before parents, and the storage paths
of its files, after checking that `s` may remove each one. -/
def collectSubtreeForDelete (top : Node) (s : Session) : Except TreeError (List String × List String) := do
  let preorder ← explore .notFound (st.visitForDelete s) st.size [top]
  return ((preorder.map Node.id).reverse, preorder.filterMap Node.storagePath)

end TreeState

end Files

end KdxHotline
