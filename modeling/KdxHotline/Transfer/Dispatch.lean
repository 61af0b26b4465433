import KdxHotline.Auth.Authority
import KdxHotline.Foundations.Runs
import KdxHotline.Limits
import KdxHotline.Protocol.Messages.File
import KdxHotline.Transfer.Limits

/-!
# The transfers of one connection

The dispatch loop of a logged-in connection holds one upload at a time, in one of three
places: between chunks, while a chunk is settled, and while all of it is verified and
filed. It reads no message while a chunk is settled, so that the answers come in the order
of the messages (`KdxHotline.Transfer.DispatchLoop`).

The connection is the loop with the two channels to its client
(`KdxHotline.Transfer.Connection`): all that was said and sent is kept, with how much of it
the other side has read. What the managers return comes with each turn.
-/

namespace KdxHotline

namespace Transfer

open Foundations Protocol Auth Limits

/-- The id of a transfer. -/
abbrev TransferId : Type := Vector UInt8 16

/-! ### Messages -/

/-- Why a message is refused. -/
inductive Complaint
  /-- "missing .. privilege" -/
  | missingPrivilege (name : String)
  /-- "a transfer is already active" -/
  | transferActive
  /-- "a download is already active" -/
  | downloadActive
  /-- A field over its cap. -/
  | tooLong (message : String)
  /-- What the transfer manager says. -/
  | transfer (e : TransferError)
  | unknownTransferId
  /-- "no active transfer" -/
  | noActiveTransfer
  /-- "no matching active transfer" -/
  | noMatchingActiveTransfer
  /-- "message too large (the limit is .. bytes)" -/
  | tooLarge (limit : ℕ)
  /-- What any other request is refused with. -/
  | other (message : String)
  deriving DecidableEq

/-- How an upload ends that its client does not end. -/
inductive UploadOutcome
  | verified
  | hashMismatch
  | notFiled (e : TransferError)
  /-- A chunk could not be stored; the upload can be resumed. -/
  | interrupted
  deriving DecidableEq

/-- The file is as announced. -/
def transferVerified : UInt8 := 0
/-- The file differs from the announced one. -/
def transferHashMismatch : UInt8 := 1
/-- The transfer was given up. -/
def transferAborted : UInt8 := 2

/-- The status on the wire. -/
def UploadOutcome.status : UploadOutcome → UInt8
  | verified => transferVerified
  | hashMismatch => transferHashMismatch
  | notFiled _ | interrupted => transferAborted

/-- What the end of an upload says. -/
def uploadOutcome : Except TransferError Unit → UploadOutcome
  | .ok () => .verified
  | .error .fileHashMismatch => .hashMismatch
  | .error e => .notFiled e

/-- What the client says, reassembled and decoded. -/
inductive Inbound
  | ping (payload : List UInt8)
  | disconnect
  | transferStart (request : TransferRequest)
  | transferData (data : TransferData)
  | transferEnd (end_ : TransferEnd)
  /-- Any other request or command. -/
  | other
  /-- A message over the cap of its type. -/
  | oversized (limit : ℕ)
  /-- A message that breaks the protocol. -/
  | malformed
  deriving DecidableEq

/-- What the server sends. An upload's and a download's acceptance are packets of one type,
and so are their ends. -/
inductive Outbound
  | pong (payload : List UInt8)
  | error (complaint : Complaint)
  | uploadAccept (accept : TransferAccept)
  | downloadAccept (accept : TransferAccept)
  | uploadEnd (id : TransferId) (outcome : UploadOutcome)
  | downloadData (data : TransferData)
  /-- The end of a download, and what it failed with if it did. -/
  | downloadEnd (id : TransferId) (failure : Option TransferError)
  | reply (payload : List UInt8)
  | event (payload : List UInt8)
  deriving DecidableEq

/-- What the managers return for a message. -/
structure Work where
  /-- The acceptance, and whether every chunk is in already. -/
  beginUpload : Except TransferError (TransferAccept × Bool)
  beginDownload : Except TransferError TransferAccept
  /-- The answers to any other request. -/
  replies : List (Except String (List UInt8))

/-! ### The dispatch loop -/

/-- A chunk that is being settled, and the number of its message. -/
structure ChunkWrite where
  active : TransferId
  number : ℕ
  deriving DecidableEq

/-- What happened: a message was sent, as the answer to the message of a number or to none,
or the client's own end of its upload was taken. -/
inductive Happening
  | sent (about : Option ℕ) (message : Outbound)
  | released (id : TransferId)
  deriving DecidableEq

/-- What a connection keeps of its transfers. -/
structure DispatchLoop where
  privileges : Privileges
  /-- The upload, between chunks. -/
  upload : Option TransferId
  chunkWrite : Option ChunkWrite
  finishing : Option TransferId
  /-- The last upload the server ended. -/
  endedUpload : Option TransferId
  download : Option TransferId
  closed : Bool
  /-- What happened so far. -/
  log : List Happening
  deriving DecidableEq

namespace DispatchLoop

/-- A connection without transfers. -/
def new (privileges : Privileges) : DispatchLoop := ⟨privileges, none, none, none, none, none, false, []⟩

/-- Send a message. -/
def send (s : DispatchLoop) (message : Outbound) : DispatchLoop :=
  { s with log := s.log ++ [.sent none message] }

/-- Answer a request. -/
def answer (number : ℕ) (s : DispatchLoop) (message : Outbound) : DispatchLoop :=
  { s with log := s.log ++ [.sent (some number) message] }

/-- Answer a request with an error. -/
def sendError (number : ℕ) (s : DispatchLoop) (complaint : Complaint) : DispatchLoop :=
  s.answer number (.error complaint)

section Messages

variable (number : ℕ) (work : Work) (s : DispatchLoop)

/-- Begin a download, one at a time. -/
def startDownload : DispatchLoop :=
  if !s.privileges.contains Privileges.fileDownload then
    s.sendError number (.missingPrivilege "FILE_DOWNLOAD")
  else if s.download.isSome then s.sendError number .downloadActive
  else match work.beginDownload with
    | .ok accept =>
      { s.answer number (.downloadAccept accept) with download := some accept.transferId }
    | .error e => s.sendError number (.transfer e)

/-- Begin an upload, one at a time. -/
def startUpload (request : TransferRequest) : DispatchLoop :=
  if !s.privileges.contains Privileges.fileUpload then
    s.sendError number (.missingPrivilege "FILE_UPLOAD")
  else if s.upload.isSome || s.finishing.isSome then s.sendError number .transferActive
  else match (do
      checkLen "path" request.path maxPathLen
      checkLen "file name" request.name maxFileNameLen) with
    | .error message => s.sendError number (.tooLong message)
    | .ok () => match work.beginUpload with
      | .ok (accept, complete) =>
        -- with nothing left to send it is verified and filed at once
        if complete then
          { s.answer number (.uploadAccept accept) with finishing := some accept.transferId }
        else { s.answer number (.uploadAccept accept) with upload := some accept.transferId }
      | .error e => s.sendError number (.transfer e)

/-- Whether the server already ended an upload, or is about to. -/
def ended (id : TransferId) : Bool :=
  decide (s.endedUpload = some id) || decide (s.finishing = some id)

/-- Take in a chunk of the upload. -/
def takeChunk (data : TransferData) : DispatchLoop :=
  -- a resume can reuse the id of an attempt that was ended, so the live upload comes first
  match s.upload with
  | some active =>
    if data.transferId = active then { s with upload := none, chunkWrite := some ⟨active, number⟩ }
    else if s.ended data.transferId then s
    else s.sendError number .unknownTransferId
  | none =>
    if s.ended data.transferId then s else s.sendError number .noActiveTransfer

/-- Take in the end of a transfer. -/
def takeEnd (end_ : TransferEnd) : DispatchLoop :=
  if s.upload = some end_.transferId then
    { s with upload := none, log := s.log ++ [.released end_.transferId] }
  else if s.download = some end_.transferId then { s with download := none }
  else if s.ended end_.transferId then s
  else s.sendError number .noMatchingActiveTransfer

/-- Dispatch the message of a number. -/
def dispatch : Inbound → DispatchLoop
  | .ping payload => s.answer number (.pong payload)
  | .disconnect => { s with closed := true }
  | .transferStart request =>
    if request.direction = directionDownload then s.startDownload number work
    else s.startUpload number work request
  | .transferData data => s.takeChunk number data
  | .transferEnd end_ => s.takeEnd number end_
  | .other => work.replies.foldl (fun s reply => match reply with
    | .ok payload => s.answer number (.reply payload)
    | .error message => s.sendError number (.other message)) s
  | .oversized limit => s.sendError number (.tooLarge limit)
  | .malformed => { s with closed := true }

end Messages

/-- A chunk was settled: whether every chunk is now in, or why it was not stored. -/
def chunkWritten (s : DispatchLoop) (write : ChunkWrite) (result : Except TransferError Bool) :
    DispatchLoop :=
  let s := { s with chunkWrite := none }
  match result with
  | .ok false => { s with upload := some write.active }
  | .ok true => { s with finishing := some write.active }
  -- a chunk that is wrong may be sent again, any other error ends the upload
  | .error .chunkHashMismatch =>
    { s with upload := some write.active }.sendError write.number (.transfer .chunkHashMismatch)
  | .error .badChunkIndex =>
    { s with upload := some write.active }.sendError write.number (.transfer .badChunkIndex)
  | .error .badChunkLength =>
    { s with upload := some write.active }.sendError write.number (.transfer .badChunkLength)
  | .error _ =>
    { s with endedUpload := some write.active }.send (.uploadEnd write.active .interrupted)

/-- An upload was verified and filed, or was not. -/
def finished (s : DispatchLoop) (id : TransferId) (result : Except TransferError Unit) : DispatchLoop :=
  { s with finishing := none, endedUpload := some id }.send (.uploadEnd id (uploadOutcome result))

/-- The next chunk of a download was read, or there is none, or it could not be. -/
def pulled (s : DispatchLoop) (id : TransferId) :
    Except TransferError (Option TransferData) → DispatchLoop
  | .ok (some data) => s.send (.downloadData { data with transferId := id })
  | .ok none => { s with download := none }.send (.downloadEnd id none)
  | .error e => { s with download := none }.send (.downloadEnd id (some e))

/-- What was sent, in the order of sending. -/
def sent (s : DispatchLoop) : List (Option ℕ × Outbound) :=
  s.log.filterMap fun happening => match happening with
    | .sent about message => some (about, message)
    | .released _ => none

end DispatchLoop

/-! ### The connection -/

/-- The loop and its client, and the channels between them. -/
structure Connection where
  loop : DispatchLoop
  /-- What the client said so far. -/
  said : List Inbound
  /-- How much of it the loop has read. -/
  read : ℕ
  /-- How much of what was sent the client has heard. -/
  heard : ℕ
  deriving DecidableEq

/-- What may happen next. The branches of the loop become ready in any order. -/
inductive Turn
  | say (message : Inbound)
  | hear
  | read (work : Work)
  | chunkWritten (result : Except TransferError Bool)
  | finished (result : Except TransferError Unit)
  | pulled (result : Except TransferError (Option TransferData))
  /-- An event is pushed. It closes the connection if it is a `Disconnect`. -/
  | push (payload : List UInt8) (closing : Bool)
  /-- A kick, a timeout, the end of the stream or a failed write. -/
  | close

namespace Connection

/-- A connection on which nothing was said. -/
def new (privileges : Privileges) : Connection := ⟨.new privileges, [], 0, 0⟩

/-- Take a turn, if there is one to take. -/
def take (c : Connection) : Turn → Option Connection
  | .say message => some { c with said := c.said ++ [message] }
  | .hear => if c.heard < c.loop.sent.length then some { c with heard := c.heard + 1 } else none
  | .read work =>
    if c.loop.closed || c.loop.chunkWrite.isSome then none
    else c.said[c.read]?.map fun message =>
      { c with loop := c.loop.dispatch c.read work message, read := c.read + 1 }
  | .chunkWritten result =>
    if c.loop.closed then none
    else c.loop.chunkWrite.map fun write => { c with loop := c.loop.chunkWritten write result }
  | .finished result =>
    if c.loop.closed then none
    else c.loop.finishing.map fun id => { c with loop := c.loop.finished id result }
  | .pulled result =>
    if c.loop.closed then none
    else c.loop.download.map fun id => { c with loop := c.loop.pulled id result }
  | .push payload closing =>
    if c.loop.closed then none
    else some { c with loop := { c.loop.send (.event payload) with closed := closing } }
  | .close => some { c with loop := { c.loop with closed := true } }

/-- A turn is taken. -/
def Takes (c : Connection) (turn : Turn) (c' : Connection) : Prop := c.take turn = some c'

end Connection

end Transfer

end KdxHotline
