import Omi.Base.Batch
import Omi.Data.Cursor
import Omi.Protocol.Socket

/-!
# Transfer of a message over a stream

A message goes over the wire as a header and the pages of its batch. Both sides
keep a cursor: the sender into the header and the pages it writes, the receiver
first into its header buffer and then into the pages it has allocated. A socket
call transfers any part of what it is offered. One iteration of each loop of the
source is a function here, with the answer of the socket as an argument; the
callbacks repeat it until an iteration returns.
-/

namespace Omi.Protocol

open Base Bytes Cursor

/-- `PROTOCOL_MAGIC`. -/
def protocolMagic : Nat := 0xB1A87E2F

/-- `PROTOCOL_HEADER_MAX_PAGES`. -/
def headerMaxPages : Nat := 64

/-- `MAX_ENVELOPE_SIZE`. -/
def maxEnvelopeSize : Nat := 250 * 1024

/-- The number of buffers offered to one vectored call. -/
def ioVecCount : Nat := 32

/-- `sizeof(HeaderBase) + sizeof(Header_BatchInfoItem) * pageCount`. -/
def headerBytes (pageCount : Nat) : Nat := 32 + 16 * pageCount

/-- `sizeof(Header)`, the size of `recv_buffer`. -/
def headerSize : Nat := headerBytes headerMaxPages

/-! ## The sender -/

/-- A page of an outgoing batch: its address and the bytes that are sent. -/
structure WirePage where
  pagePointer : Nat
  content : List UInt8
deriving DecidableEq

/-- An outgoing message: its address and the pages of its batch. -/
structure WireMessage where
  originalMessagePointer : Nat
  pages : List WirePage
deriving DecidableEq

/-- An entry of the page information as bytes. -/
def WirePage.encodeItem (p : WirePage) : List UInt8 :=
  leBytes 8 p.pagePointer ++ leBytes 8 p.content.length

/-- The used part of `send_buffer` after `_PrepareMessageForSending`; `version` is
`PROTOCOL_VERSION`. -/
def WireMessage.header (version : Nat) (m : WireMessage) : List UInt8 :=
  leBytes 4 protocolMagic ++ (leBytes 4 version ++ (leBytes 4 0 ++ (leBytes 4 m.pages.length ++
    (leBytes 8 m.originalMessagePointer ++ (leBytes 8 0 ++ m.pages.flatMap WirePage.encodeItem)))))

/-- Header and pages in the order of `sendingPageIndex`. -/
def WireMessage.blocks (version : Nat) (m : WireMessage) : List (List UInt8) :=
  m.header version :: m.pages.map WirePage.content

/-- The sending half of a `ProtocolSocket`. -/
structure SendState where
  message : Option WireMessage
  sendingPageIndex : Nat
  sentCurrentBlockBytes : Nat
deriving DecidableEq

/-- A sender without a message. -/
def SendState.idle : SendState := ⟨none, 0, 0⟩

/-- `_PrepareMessageForSending`. -/
def prepareMessageForSending (m : WireMessage) : SendState := ⟨some m, 0, 0⟩

/-- What `Sock_WriteV` answers. -/
inductive WriteOutcome where
  | accepted (n : Nat)
  | wouldBlock
  | failed

/-- The buffers of one vectored call: at most `ioVecCount` blocks from an index on. -/
def window (blocks : List (List UInt8)) (index : Nat) : List (List UInt8) :=
  (blocks.drop index).take ioVecCount

/-- Outcome of an iteration of `_RequestCallbackWrite`: the state, the bytes that went out,
and the returned boolean unless the loop goes on. -/
structure WriteStep where
  state : SendState
  sent : List UInt8
  returned : Option Bool

/-- One iteration of `_RequestCallbackWrite`. The first buffer starts behind the bytes that
have been sent already. -/
def writeIteration (version : Nat) (s : SendState) (outcome : WriteOutcome) : WriteStep :=
  match s.message with
  | none => ⟨s, [], some true⟩
  | some m =>
    let buffers := window (m.blocks version) s.sendingPageIndex
    match outcome with
    | .failed => ⟨s, [], some false⟩
    | .wouldBlock => ⟨s, [], some true⟩
    | .accepted n =>
      let sent := (buffers.flatten.drop s.sentCurrentBlockBytes).take n
      if sent = [] then ⟨s, [], some false⟩
      else
        let moved := advance buffers s.sentCurrentBlockBytes sent.length
        let index := s.sendingPageIndex + moved.1
        if index = m.pages.length + 1 then ⟨⟨none, index, moved.2⟩, sent, none⟩
        else ⟨⟨some m, index, moved.2⟩, sent, none⟩

/-! ## The receiver -/

/-- The receiving half of a `ProtocolSocket`; `receivingBatch` holds the contents of the
allocated pages. -/
structure RecvState where
  recvBuffer : List UInt8
  receivedCurrentBlockBytes : Nat
  receivingPageIndex : Nat
  receivingBatch : Option (List (List UInt8))
deriving DecidableEq

namespace RecvState

/-- The state before the first byte of a header. -/
def reset : RecvState := ⟨List.replicate headerSize 0, 0, 0, none⟩

def magic (s : RecvState) : Nat := readLE s.recvBuffer 0 4

def pageCount (s : RecvState) : Nat := readLE s.recvBuffer 12 4

def originalMessagePointer (s : RecvState) : Nat := readLE s.recvBuffer 16 8

/-- `recv_buffer.batchInfo[index]`. -/
def batchInfoItem (s : RecvState) (index : Nat) : BatchInfoItem :=
  ⟨readLE s.recvBuffer (32 + 16 * index) 8, readLE s.recvBuffer (40 + 16 * index) 8⟩

/-- The first `pageCount` entries of `recv_buffer.batchInfo`. -/
def batchInfo (s : RecvState) : List BatchInfoItem :=
  (List.range s.pageCount).map s.batchInfoItem

/-- A chunk has been read into the header buffer. -/
def fillHeader (s : RecvState) (chunk : List UInt8) : RecvState :=
  { s with
    recvBuffer := overwrite s.recvBuffer s.receivedCurrentBlockBytes chunk
    receivedCurrentBlockBytes := s.receivedCurrentBlockBytes + chunk.length }

end RecvState

/-- A message handed to `_ProcessReceivedMessage`. -/
structure Received where
  originalMessagePointer : Nat
  batchInfo : List BatchInfoItem
  pages : List (List UInt8)
deriving DecidableEq

/-- What `Sock_Read` and `Sock_ReadV` answer; no bytes means that the peer has closed. -/
inductive ReadOutcome where
  | bytes (chunk : List UInt8)
  | wouldBlock
  | failed

/-- The answers to one iteration: the socket, the allocation of the pages, and the result of
`_ProcessReceivedMessage` if it is called. -/
structure ReadInput where
  outcome : ReadOutcome
  allocates : Bool
  verdict : CallbackResult

/-- Outcome of an iteration of the receive loops. A request that reaches behind
`recv_buffer` and the use of a NULL batch have no defined outcome. -/
inductive ReadStep where
  | ok (state : RecvState) (received : Option Received) (result : CallbackResult)
  | overflow
  | nullBatch

/-- The receive state around `_ProcessReceivedMessage`: the batch is taken over and the
state is reset, whatever becomes of the message. -/
def processReceived (s : RecvState) (verdict : CallbackResult) : ReadStep :=
  match s.receivingBatch with
  | none => .nullBatch
  | some pages =>
    .ok RecvState.reset (some ⟨s.originalMessagePointer, s.batchInfo, pages⟩) verdict

/-- `Batch_CreateBatchByPageInfo` as far as the contents are concerned: without entries it
succeeds and leaves the batch NULL. -/
def createPages (allocates : Bool) : List BatchInfoItem → Option (Option (List (List UInt8)))
  | [] => some none
  | infos =>
    if allocates then some (some (infos.map fun info => List.replicate info.pageSize 0))
    else none

/-- The end of `_ReadHeader`, once as many bytes have been read as were asked for. -/
def headerRead (s : RecvState) (bufSize : Nat) (allocates : Bool) (verdict : CallbackResult) :
    ReadStep :=
  if headerMaxPages < s.pageCount then .ok s none .prtReturnFalse
  else if s.magic ≠ protocolMagic then .ok s none .prtReturnFalse
  else if s.batchInfo.any (fun info => maxEnvelopeSize < info.pageSize) then
    .ok s none .prtReturnFalse
  -- only the base has been read: the page information is still to come
  else if bufSize ≠ headerBytes s.pageCount then .ok s none .prtContinue
  else
    match createPages allocates s.batchInfo with
    | none => .ok s none .prtReturnFalse
    | some batch =>
      let ready := { s with
        receivingBatch := batch
        receivingPageIndex := 1
        receivedCurrentBlockBytes := 0 }
      if s.pageCount = 0 then processReceived ready verdict
      else .ok ready none .prtContinue

/-- One iteration of the loop in `_ReadHeader`. The size to ask for is computed from the
page count as far as it has arrived; the difference is unsigned. -/
def readHeaderIteration (s : RecvState) (input : ReadInput) : ReadStep :=
  let bufSize := headerBytes s.pageCount
  if headerSize < bufSize ∨ bufSize < s.receivedCurrentBlockBytes then .overflow
  else
    match input.outcome with
    | .failed => .ok s none .prtReturnFalse
    | .wouldBlock => .ok s none .prtReturnTrue
    | .bytes chunk =>
      let chunk := chunk.take (bufSize - s.receivedCurrentBlockBytes)
      if chunk = [] then .ok s none .prtReturnFalse
      else
        let filled := s.fillHeader chunk
        if filled.receivedCurrentBlockBytes = bufSize then
          headerRead filled bufSize input.allocates input.verdict
        else .ok filled none .prtContinue

/-- The pages after a chunk has been scattered over them from a cursor on. -/
def filledPages (pages : List (List UInt8)) (index offset : Nat) (chunk : List UInt8) :
    List (List UInt8) :=
  pages.take index ++ fill (pages.drop index) offset chunk

/-- A chunk has been read into the pages. -/
def RecvState.fillPages (s : RecvState) (pages : List (List UInt8)) (chunk : List UInt8) :
    RecvState :=
  let index := s.receivingPageIndex - 1
  let moved := advance (window pages index) s.receivedCurrentBlockBytes chunk.length
  { s with
    receivingBatch := some (filledPages pages index s.receivedCurrentBlockBytes chunk)
    receivingPageIndex := s.receivingPageIndex + moved.1
    receivedCurrentBlockBytes := moved.2 }

/-- `_ReadAllPages`, when a header has been read. -/
def readPagesIteration (s : RecvState) (input : ReadInput) : ReadStep :=
  match s.receivingBatch with
  | none => .nullBatch
  | some pages =>
    let buffers := window pages (s.receivingPageIndex - 1)
    match input.outcome with
    | .failed => .ok s none .prtReturnFalse
    | .wouldBlock => .ok s none .prtReturnTrue
    | .bytes chunk =>
      let chunk := chunk.take (buffers.flatten.length - s.receivedCurrentBlockBytes)
      if chunk = [] then .ok s none .prtReturnFalse
      else
        let filled := s.fillPages pages chunk
        if filled.receivingPageIndex = filled.pageCount + 1 then
          processReceived filled input.verdict
        else .ok filled none .prtContinue

/-- One iteration of `_RequestCallbackRead`: `_ReadHeader` and `_ReadAllPages` pass over
each other's turn. -/
def readIteration (s : RecvState) (input : ReadInput) : ReadStep :=
  if s.receivingPageIndex = 0 then readHeaderIteration s input
  else readPagesIteration s input

end Omi.Protocol
