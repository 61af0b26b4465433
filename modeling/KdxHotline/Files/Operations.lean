import KdxHotline.Files.Tree

/-!
# Changing the tree

The seven operations that change the virtual file tree, over the two maps in
memory and the table they are written through to (`KdxHotline.Files.FileTree`).
Each one checks, writes the table once and only then changes the maps, so an
error leaves both as they were (`KdxHotline.Files.Operation.run_atomic`).

The table may fail any write for reasons of its own; a node that is created gets
an id drawn for it, which is an argument of the operation.
-/

namespace KdxHotline

namespace Files

open Foundations Storage Auth Limits

/-- The tree: its maps, its table, and the storage paths of deleted files, whose
bytes are unlinked once the maps are updated. -/
structure FileTree where
  state : TreeState
  pool : FilePool
  unlinked : List String

namespace FileTree

/-- The table. -/
def db (t : FileTree) : FileTable := t.pool.db

/-- What an error must leave alone: the maps and the table. -/
def content (t : FileTree) : TreeState × FileTable := (t.state, t.pool.db)

/-- The table and the failures of its statements. -/
def poolField : Focus FileTree FilePool := ⟨FileTree.pool, fun p t => { t with pool := p }, fun _ _ => rfl⟩

/-! ### Loading -/

/-- Enter the rows one after another. -/
def loadRows (st : TreeState) : List FileNodeRow → Except TreeError TreeState
  | [] => .ok st
  | row :: rows => do
    let node ← nodeFromRow row
    loadRows (st.insertInMemory node) rows

/-- The maps the whole table loads to. -/
def load (db : FileTable) : Except TreeError TreeState := loadRows ⟨∅, ∅⟩ db.rows

/-! ### The parts operations share -/

section Steps

variable {α : Type} {t t' : FileTree}

/-- Call the storage layer, reporting its error as one of the tree's. -/
def stored (onError : StorageError → TreeError) (x : Fallible FilePool StorageError α) :
    Fallible FileTree TreeError α := mapError onError (zoom poolField x)

/-- Change the maps. -/
def setState (f : TreeState → TreeState) : Fallible FileTree TreeError PUnit :=
  modify fun t => { t with state := f t.state }

/-- Write a new row and enter its node in memory. -/
def addNode (x : Fallible FilePool StorageError FileNodeRow) : Fallible FileTree TreeError Node := do
  let row ← stored mapWriteErr x
  let node ← check (nodeFromRow row)
  setState fun st => st.insertInMemory node
  return node

end Steps

/-! ### Creating -/

/-- The owner a new folder may be given: nobody but the caller, unless they
administer accounts. -/
def checkOwner (owner : Option String) (s : Session) : Except TreeError Unit :=
  match owner with
  | none => .ok ()
  | some owner => do
    refuseIf (decide (maxUsernameLen < owner.utf8ByteSize)) (.invalidName "owner name is too long")
    refuseIf (owner != s.username && !s.privileges.contains Privileges.userAdmin)
      (.acl .foreignOwner)

/-- The folder at `path`, checked to take a new entry called `name`. -/
def placeInto (st : TreeState) (path name : String) (s : Session) : Except TreeError Node := do
  let parent ← st.resolveAs path s
  refuseIf (!parent.kind.isFolder) .notAFolder
  st.checkPlaceInto parent s true
  st.checkRoom parent 0 (1 + name.utf8ByteSize)
  refuseIf (st.nameTaken parent.id name) .exists_
  return parent

/-- Create a folder-like node. -/
def createFolder (id parentPath name : String) (kind : NodeKind) (minClassRead minClassWrite : BaseClass)
    (owner : Option String) (s : Session) : Fallible FileTree TreeError Node := do
  check (refuseIf (!kind.isFolder) .notAFolder)
  check ((validateName name).mapError .invalidName)
  let owner := owner.filter fun o => !o.isEmpty
  check (checkOwner owner s)
  let minClassRead := min minClassRead s.class_
  let minClassWrite := min minClassWrite s.class_
  let t ← get
  let parent ← check (placeInto t.state parentPath name s)
  addNode (FileNodes.createFolder id parent.id name kind.asU8 minClassRead.toNat minClassWrite.toNat
    owner)

/-- The node at `path`, checked to be one an alias may point at. -/
def aliasSource (st : TreeState) (path : String) (s : Session) : Except TreeError Node := do
  let source ← st.resolveAs path s
  refuseIf (source.kind == .alias_) .aliasChainRefused
  refuseIf (source.id == rootId) .notAFile
  st.checkNodeReadable source s
  (validateName source.name).mapError .invalidName
  return source

/-- Create an alias at `destPath` of the node at `sourcePath`, under its name. -/
def createAlias (id sourcePath destPath : String) (s : Session) :
    Fallible FileTree TreeError Node := do
  let t ← get
  let source ← check (aliasSource t.state sourcePath s)
  let dest ← check (placeInto t.state destPath source.name s)
  addNode (FileNodes.createAlias id dest.id source.name source.id)

/-- The folder of an upload that is to be filed. -/
def filingFolder (st : TreeState) (parentId : String) : Except TreeError Node := do
  let parent ← required .notFound (st.nodes.lookup parentId)
  refuseIf (!parent.kind.isFolder) .notAFolder
  return parent

/-- The name a file goes in under: its own, or, when that is taken and it may be
renamed, the first free variant that is not `reserved` either. -/
def filingName (st : TreeState) (parent : Node) (parentId name : String)
    (renameIfTaken : Option (String → Bool)) : Except TreeError String :=
  if !st.nameTaken parentId name then .ok name
  else match renameIfTaken with
    | none => .error .exists_
    | some reserved => do
      let room ← st.nameBudget parent
      -- never less room than the upload was accepted with
      let budget := max (max room name.utf8ByteSize) minVariantBudget
      required (.invalidPath "path is too long")
        (freeName name budget fun c => st.nameTaken parentId c || reserved c)

/-- Record a completed upload as a file node. -/
def fileEntry (id parentId name : String) (size : ℕ) (sha256 : List UInt8) (storagePath : String)
    (renameIfTaken : Option (String → Bool)) : Fallible FileTree TreeError Node := do
  check ((validateName name).mapError .invalidName)
  let t ← get
  let parent ← check (filingFolder t.state parentId)
  let name ← check (filingName t.state parent parentId name renameIfTaken)
  addNode (FileNodes.createFile id parentId name (BitVec.ofNat 64 size).toInt sha256 storagePath)

/-- File a completed upload under its own name. -/
def addFile (id parentId name : String) (size : ℕ) (sha256 : List UInt8) (storagePath : String) :
    Fallible FileTree TreeError Node := fileEntry id parentId name size sha256 storagePath none

/-- File a completed blind upload, under a free variant if its name is taken. -/
def addFileRenaming (id parentId name : String) (size : ℕ) (sha256 : List UInt8)
    (storagePath : String) (reserved : String → Bool) : Fallible FileTree TreeError Node :=
  fileEntry id parentId name size sha256 storagePath (some reserved)

/-! ### Removing -/

/-- The privileges a delete needs. -/
def checkDeletePrivileges (node : Node) (s : Session) : Except AclError Unit := do
  refuseIf (!s.privileges.contains Privileges.fileDelete) (.privilegeRequired "FILE_DELETE")
  refuseIf (node.kind.isFolder && !s.privileges.contains Privileges.fileManageTree)
    (.privilegeRequired "FILE_MANAGE_TREE")

/-- What a delete takes away. -/
structure Doomed where
  node : Node
  parent : Node
  /-- The ids of the subtree, children before parents. -/
  ordered : List String
  storagePaths : List String

/-- The subtree at `path`, checked to be one the session may delete. -/
def deleteTarget (st : TreeState) (path : String) (s : Session) : Except TreeError Doomed := do
  let node ← st.resolveAs path s
  refuseIf (node.id == rootId) .notAFolder
  let parent ← st.parentOf node
  st.checkReadChain parent s
  access (checkRemoveFrom parent s)
  access (checkDeletePrivileges node s)
  let (ordered, storagePaths) ← st.collectSubtreeForDelete node s
  return ⟨node, parent, ordered, storagePaths⟩

/-- Take an id out of the list of a node's children, if it has one. -/
def unlist (id parentId : String) (st : TreeState) : TreeState :=
  match st.children.lookup parentId with
  | some siblings => { st with children := st.children.insert parentId (siblings.filter (· ≠ id)) }
  | none => st

/-- Take nodes and their lists of children out of the maps. -/
def removeAll (st : TreeState) : List String → TreeState
  | [] => st
  | id :: ids => removeAll ⟨st.nodes.erase id, st.children.erase id⟩ ids

/-- Delete a node with everything below it. -/
def delete (path : String) (s : Session) : Fallible FileTree TreeError NodeKind := do
  let t ← get
  let doomed ← check (deleteTarget t.state path s)
  stored .storage (FileNodes.deleteMany doomed.ordered)
  setState fun st => unlist doomed.node.id doomed.parent.id (removeAll st doomed.ordered)
  modify fun t => { t with unlinked := t.unlinked ++ doomed.storagePaths }
  return doomed.node.kind

/-- A row that is already gone counts as deleted. -/
def ignoreGone (x : Fallible FilePool StorageError Unit) : Fallible FilePool StorageError Unit := do
  match ← attempt x with
  | .ok () | .error .notFound => return ()
  | .error e => check (.error e)

/-- Take file entry `id` out of the tree without any access check. -/
def removeFileNode (id : String) : Fallible FileTree TreeError Unit := do
  let t ← get
  match t.state.nodes.lookup id with
  | none => return ()
  | some node =>
    check (refuseIf (decide (node.kind ≠ .file)) .notAFile)
    stored .storage (ignoreGone (FileNodes.delete id))
    setState fun st =>
      let st : TreeState := { st with nodes := st.nodes.erase id }
      node.parentId.elim st fun p => unlist id p st

/-! ### Moving -/

/-- The node at `path` and the folder at `destPath`, checked to be a move the
session may make. -/
def moveTarget (st : TreeState) (path destPath : String) (s : Session) :
    Except TreeError (Node × Node) := do
  let node ← st.resolveAs path s
  refuseIf (node.id == rootId) .notAFolder
  let parent ← st.parentOf node
  st.checkReadChain parent s
  access (checkRemoveFrom parent s)
  access (if node.kind.isFolder then checkRemoveFrom node s else .ok ())
  let dest ← st.resolveAs destPath s
  refuseIf (!dest.kind.isFolder) .notAFolder
  st.checkPlaceInto dest s true
  let chain ← st.ancestry dest
  refuseIf (chain.any fun n => n.id == node.id) .wouldCreateCycle
  refuseIf (dest.id != parent.id && st.nameTaken dest.id node.name) .exists_
  let (height, relLen) ← st.subtreeExtent node
  st.checkRoom dest height relLen
  return (node, dest)

/-- Hang a node under another parent in the maps. -/
def moveInMemory (nodeId destId : String) (st : TreeState) : TreeState :=
  let oldParent := (st.nodes.lookup nodeId).bind Node.parentId
  let st := oldParent.elim st fun p => unlist nodeId p st
  { nodes := match st.nodes.lookup nodeId with
      | some node => st.nodes.insert nodeId { node with parentId := some destId }
      | none => st.nodes
    children := st.children.insert destId (st.childIds destId ++ [nodeId]) }

/-- Move a node to a new parent folder, keeping its name. -/
def moveNode (path destPath : String) (s : Session) : Fallible FileTree TreeError Unit := do
  let t ← get
  let (node, dest) ← check (moveTarget t.state path destPath s)
  stored mapWriteErr (FileNodes.reparent node.id dest.id)
  setState (moveInMemory node.id dest.id)

end FileTree

end Files

end KdxHotline
