import Omi.Protocol.Socket

/-!
# Enumeration contexts

An enumeration context collects the instances that a provider posts and answers
the `Enumerate` and `Pull` requests of the client. At most 2048 instances of two
megabytes altogether are queued; the next instance is held back in
`pendingMessage`, and the provider gets no acknowledgement and posts nothing
until it has been queued. A request is attached to the context until it is
answered.

The packed text of an instance is only copied, so it is a parameter. Contexts
with a heartbeat, which only a subscription can ask for, and bookmarks are left
out. `thisClosedOther` of the two interactions appears as `leftClosed` and
`rightClosed`; a context that has closed its right side is no longer found by
requests.
-/

namespace Omi.Wsman

open Omi.Protocol (AuthInfo Result resultOk)

universe u

variable {α : Type u}

/-- `APPROX_ENUM_RESP_ENVELOPE_SIZE`: the size of the typical envelope, which is 1158, and
64 more. -/
def approxEnumRespEnvelopeSize : Nat := 1158 + 64

/-- `MAX_WSMAN_BUFFER_SIZE`. -/
def maxWsmanBufferSize : UInt32 := 2 * 1024 * 1024

/-- `MAX_WSMAN_COLLECTION_SIZE`. -/
def maxWsmanCollectionSize : UInt32 := 2 * 1024

/-- `WSMAN_MAX_ENVELOPE_SIZE`. -/
def wsmanMaxEnvelopeSize : UInt32 := 250 * 1024

/-- `PostInstanceMsg`: an instance in the form in which it is sent. -/
structure PostInstanceMsg (α : Type u) where
  packedInstance : α
  packedInstanceSize : UInt32
deriving DecidableEq

/-- `rqtAction` of the requests that a context answers. -/
inductive RqtAction where
  | enumerate
  | subscribe
  | pull
deriving DecidableEq, Repr

/-- `WSMAN_ConnectionData` while it carries a request: which request it is, who sent it and
the limits of the client, which validation has brought into their range. -/
structure ConnectionData where
  request : Nat
  authInfo : AuthInfo
  rqtAction : RqtAction
  maxEnvelopeSize : UInt32
  maxElements : UInt32
  maxEnvelopeSize_le : maxEnvelopeSize ≤ wsmanMaxEnvelopeSize
  maxElements_pos : 0 < maxElements
deriving DecidableEq

/-- The limits after `_ValidateHeader` and `_ValidatePullRequest`. An envelope below 8192
octets is rejected. -/
def ConnectionData.validate (request : Nat) (authInfo : AuthInfo) (rqtAction : RqtAction)
    (maxEnvelopeSize maxElements : UInt32) : Option ConnectionData :=
  if maxEnvelopeSize ≠ 0 ∧ maxEnvelopeSize < 8192 then none
  else
    some
      { request, authInfo, rqtAction
        maxEnvelopeSize :=
          if maxEnvelopeSize = 0 ∨ wsmanMaxEnvelopeSize < maxEnvelopeSize then
            wsmanMaxEnvelopeSize
          else maxEnvelopeSize
        maxElements := if maxElements = 0 then 1 else maxElements
        maxEnvelopeSize_le := by grind
        maxElements_pos := by grind }

/-- `WSBUF_FAULT_CODE`, as far as contexts use it. -/
inductive FaultCode where
  | destinationUnreachable
  | internalError
  | encodingLimit
deriving DecidableEq, Repr

/-- The body of a response. -/
inductive Response (α : Type u) where
  | items (items : List (PostInstanceMsg α)) (endOfSequence : Bool)
  | fault (code : FaultCode) (text : String)
  /-- `_SendErrorResponse` for the result of the provider. -/
  | cimFault (result : Result)
  /-- The response without content when a buffer could not be allocated. -/
  | failed
deriving DecidableEq

/-- A response and the request that it answers. -/
structure Sent (α : Type u) where
  connection : ConnectionData
  response : Response α
deriving DecidableEq

/-- The tag of the request that created a context. -/
inductive RequestTag where
  | enumerateInstances
  | subscribe
deriving DecidableEq, Repr

/-- `WSMAN_EnumerateContext`. -/
structure EnumerateContext (α : Type u) where
  /-- The list from `head` to `tail`. -/
  queue : List (PostInstanceMsg α)
  totalResponseSize : UInt32
  totalResponses : UInt32
  enumerationCompleted : Bool
  finalResult : Result
  activeConnection : Option ConnectionData
  attachingConnection : Option ConnectionData
  pendingMessage : Option (PostInstanceMsg α)
  requestTag : RequestTag
  /-- `data.responsed`: a subscription has been confirmed. -/
  responsed : Bool
  canceled : Bool
  leftClosed : Bool
  rightClosed : Bool
deriving DecidableEq

/-- What a context did: its new state and the responses, in order. -/
abbrev Outcome (α : Type u) := EnumerateContext α × List (Sent α)

namespace EnumerateContext

/-- The context that `_CD_CreateEnumContext` links to the request. -/
def create (requestTag : RequestTag) (c : ConnectionData) : EnumerateContext α where
  queue := []
  totalResponseSize := 0
  totalResponses := 0
  enumerationCompleted := false
  finalResult := resultOk
  activeConnection := some c
  attachingConnection := none
  pendingMessage := none
  requestTag := requestTag
  responsed := false
  canceled := false
  leftClosed := false
  rightClosed := false

/-! ## Closing -/

/-- `_EC_CloseLeft`. -/
def closeLeft (ec : EnumerateContext α) : EnumerateContext α :=
  { ec with activeConnection := none, leftClosed := true }

/-- `_EC_CheckCloseLeft`. -/
def checkCloseLeft (ec : EnumerateContext α) : EnumerateContext α :=
  if ec.leftClosed then ec else ec.closeLeft

/-- `_EC_ReleaseAllMessages`. -/
def releaseAllMessages (ec : EnumerateContext α) : EnumerateContext α :=
  { ec with queue := [], totalResponseSize := 0, totalResponses := 0, pendingMessage := none }

/-- `_EC_CheckCloseRight`. -/
def checkCloseRight (ec : EnumerateContext α) : EnumerateContext α :=
  if ec.rightClosed then ec else { ec.releaseAllMessages with rightClosed := true }

/-! ## Responses -/

/-- Append a message to the queue and count it. -/
def append (ec : EnumerateContext α) (m : PostInstanceMsg α) : EnumerateContext α :=
  { ec with
    queue := ec.queue ++ [m]
    totalResponseSize := ec.totalResponseSize + m.packedInstanceSize
    totalResponses := ec.totalResponses + 1 }

/-- `_EC_ProcessPendingMessage`. -/
def processPendingMessage (ec : EnumerateContext α) : EnumerateContext α :=
  match ec.pendingMessage with
  | none => ec
  | some m =>
    if ec.totalResponseSize + m.packedInstanceSize ≤ maxWsmanBufferSize
        ∧ ec.totalResponses < maxWsmanCollectionSize then
      { ec.append m with pendingMessage := none }
    else ec

/-- The loop of `_EC_GetMessageSubset`: what goes into the response and what stays. The sum
of the sizes is computed in 32 bits, the envelope is added in 64. -/
def getMessageSubset (c : ConnectionData) :
    UInt32 → UInt32 → List (PostInstanceMsg α) →
      List (PostInstanceMsg α) × List (PostInstanceMsg α)
  | _, _, [] => ([], [])
  | count, totalSize, m :: rest =>
    if c.maxElements < count + 1
        ∨ c.maxEnvelopeSize.toNat
            < (totalSize + m.packedInstanceSize).toNat + approxEnumRespEnvelopeSize then
      ([], m :: rest)
    else
      let (taken, left) := getMessageSubset c (count + 1) (totalSize + m.packedInstanceSize) rest
      (m :: taken, left)

/-- The queue after the messages of a response have been removed from its front. -/
def remove (ec : EnumerateContext α) (taken left : List (PostInstanceMsg α)) :
    EnumerateContext α :=
  { ec with
    queue := left
    totalResponseSize :=
      taken.foldl (fun total m => total - m.packedInstanceSize) ec.totalResponseSize
    totalResponses := taken.foldl (fun total _ => total - 1) ec.totalResponses }

/-- The end of `_SendEnumPullResponse`: the response is sent, the connection is detached and
the message that was held back may enter the queue. When the response cannot be built, the
queue is dropped. -/
def respond (allocated : Bool) (ec : EnumerateContext α) (c : ConnectionData)
    (taken left : List (PostInstanceMsg α)) (endOfSequence : Bool) : Outcome α :=
  if allocated then
    ((ec.remove taken left).closeLeft.processPendingMessage, [⟨c, .items taken endOfSequence⟩])
  else (ec.releaseAllMessages.closeLeft.processPendingMessage, [⟨c, .failed⟩])

/-- `_SendEnumPullResponse`. The response to a subscription carries no instances. -/
def sendEnumPullResponse (allocated : Bool) (ec : EnumerateContext α) (c : ConnectionData) :
    Outcome α :=
  if c.rqtAction = .subscribe then
    ec.respond allocated c [] ec.queue ec.enumerationCompleted
  else
    let (taken, left) := getMessageSubset c 0 0 ec.queue
    if ec.queue ≠ [] ∧ taken = [] then
      (ec.closeLeft.checkCloseRight,
        [⟨c, .fault .encodingLimit "insufficient envelope size for instance transferring"⟩])
    else ec.respond allocated c taken left (ec.enumerationCompleted && left.isEmpty)

/-- The condition of `_EC_ProcessEnumResponse` for sending a response now. -/
def mustRespond (ec : EnumerateContext α) (c : ConnectionData) (pullRequestAttached : Bool) :
    Bool :=
  ec.enumerationCompleted
    || decide (c.maxEnvelopeSize.toNat < approxEnumRespEnvelopeSize + ec.totalResponseSize.toNat)
    || decide (c.maxElements ≤ ec.totalResponses)
    || (pullRequestAttached && !ec.queue.isEmpty)
    || (decide (ec.requestTag = .subscribe) && decide (0 < ec.totalResponses))

/-- The end of `_EC_ProcessEnumResponse`: a context whose last message was sent is closed. -/
def closeIfFinished (ec : EnumerateContext α) : EnumerateContext α :=
  if ec.enumerationCompleted ∧ ec.queue = [] then ec.checkCloseLeft.checkCloseRight else ec

/-- `_EC_ProcessEnumResponse`. -/
def processEnumResponse (allocated : Bool) (ec : EnumerateContext α)
    (pullRequestAttached : Bool) : Outcome α :=
  if ec.canceled then (ec.checkCloseLeft.checkCloseRight, [])
  else if ec.leftClosed then (ec, [])
  else
    match ec.activeConnection with
    | none => (ec, [])
    | some c =>
      if ec.enumerationCompleted ∧ ec.finalResult ≠ resultOk then
        (ec.closeLeft.checkCloseRight, [⟨c, .cimFault ec.finalResult⟩])
      else if ec.mustRespond c pullRequestAttached then
        if ec.requestTag = .subscribe ∧ ¬ec.responsed then (ec, [])
        else
          let (next, sent) := ec.sendEnumPullResponse allocated c
          (next.closeIfFinished, sent)
      else (ec.closeIfFinished, [])

/-! ## Messages from the right -/

/-- `_ProcessInstanceEnumerationContext`, also for indications. -/
def processInstance (allocated : Bool) (ec : EnumerateContext α) (m : PostInstanceMsg α) :
    Outcome α :=
  if ec.enumerationCompleted ∨ ec.canceled then (ec, [])
  else if maxWsmanBufferSize < ec.totalResponseSize + m.packedInstanceSize
      ∨ ec.totalResponses = maxWsmanCollectionSize then
    { ec with pendingMessage := some m }.processEnumResponse allocated false
  else (ec.append m).processEnumResponse allocated false

/-- `_ProcessResultEnumerationContext`. -/
def processResult (allocated : Bool) (ec : EnumerateContext α) (result : Result) : Outcome α :=
  { ec with enumerationCompleted := true, finalResult := result }.processEnumResponse
    allocated false

/-- `_ProcessSubscribeResponseEnumerationContext`. -/
def processSubscribeResponse (allocated : Bool) (ec : EnumerateContext α) : Outcome α :=
  let ec := { ec with finalResult := resultOk }
  if ec.responsed then (ec, [])
  else
    let ec := { ec with responsed := true }
    match ec.activeConnection with
    | none => (if ec.leftClosed then ec else ec.checkCloseRight, [])
    | some c => ec.sendEnumPullResponse allocated c

/-! ## Requests from the left -/

/-- The end of `_ProcessPullRequest`: the swap of `attachingConnection` succeeds if no other
request is being attached, and only then the context is told. -/
def attach (ec : EnumerateContext α) (c : ConnectionData) : Outcome α :=
  match ec.attachingConnection with
  | none => ({ ec with attachingConnection := some c }, [])
  | some _ => (ec, [⟨c, .fault .internalError "Discarding illegitimate Pull request"⟩])

/-- `_EC_Left_Attached`. -/
def leftAttached (ec : EnumerateContext α) (c : ConnectionData) : EnumerateContext α :=
  { ec with activeConnection := some c, attachingConnection := none, leftClosed := false }

/-- `_InteractionWsmanEnum_Left_PullAttached`. It was scheduled with the swap. -/
def pullAttached (allocated : Bool) (ec : EnumerateContext α) : Option (Outcome α) :=
  ec.attachingConnection.map fun c =>
    let ec := ec.leftAttached c
    if ec.canceled then
      (ec.closeLeft.checkCloseRight,
        [⟨c, .fault .destinationUnreachable "Enumeration context not found"⟩])
    else ec.processEnumResponse allocated true

/-- `_InteractionWsmanEnum_Left_Cancel`, which the strand calls once. -/
def cancel (ec : EnumerateContext α) : EnumerateContext α :=
  if ec.canceled then ec else { ec with canceled := true }.checkCloseLeft.checkCloseRight

/-- `_InteractionWsmanEnum_Left_UnsubscribeAttached`. -/
def unsubscribeAttached (ec : EnumerateContext α) : EnumerateContext α :=
  { ec.cancel with pendingMessage := none }

end EnumerateContext

end Omi.Wsman
