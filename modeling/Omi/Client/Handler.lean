import Omi.Data.Run

/-!
# The client side of an operation

The protocol posts instances or class schemas to an operation of the client, then a final
result, and closes. `InteractionProtocolHandler_Operation_Strand_Post` holds each instance
back until the next message, so that the last one can go to the client together with the
final result. The client acknowledges what it was given whenever it likes, also from inside
the callback; that releases the messages and passes the acknowledgement on to the protocol.

The methods of the operation run on its strand one at a time. Two rules of the strand are
taken from there: the protocol does not post before its last message was acknowledged, and
an acknowledgement that is scheduled while a method runs is sent after the method. The last
five fields of `Operation` are for reference.
-/

namespace Omi.Client

variable {α ρ : Type}

/-- What the request of the operation asks for. -/
inductive OperationKind where
  | object
  | schema
  | indication
  | noOp
deriving DecidableEq, Repr

/-- The messages of the protocol, by their tags. An object may be missing. A result stands for
the result, the error message and the error instance. -/
inductive Body (α ρ : Type) where
  | postInstance (object : Option α)
  | postIndication (object : Option α)
  | postSchema (object : Option α)
  | postResult (r : ρ)
  | noOpRsp
  | other
deriving DecidableEq, Repr

/-- A message, by the place at which it was posted. -/
structure Message (α ρ : Type) where
  id : Nat
  body : Body α ρ
deriving DecidableEq, Repr

/-- The instance, schema or indication in a message. -/
def Message.object (msg : Message α ρ) : Option α :=
  match msg.body with
  | .postInstance object | .postIndication object | .postSchema object => object
  | _ => none

/-- A message that ends the results. -/
def Body.isFinal : Body α ρ → Bool
  | .postResult _ | .noOpRsp => true
  | _ => false

/-- The messages that come as answers to a request. -/
def OperationKind.suits : OperationKind → Body α ρ → Bool
  | .object, .postInstance _ | .schema, .postSchema _ | .indication, .postIndication _
  | .noOp, .noOpRsp | _, .postResult _ | _, .other => true
  | _, _ => false

/-- The `result` of a callback, with what comes along with it. -/
inductive Outcome (ρ : Type) where
  | ok
  | failed
  | posted (r : ρ)
deriving DecidableEq, Repr

/-- What a callback is called with. -/
structure Callback (α ρ : Type) where
  object : Option α
  moreResults : Bool
  outcome : Outcome ρ
deriving DecidableEq, Repr

/-- `InteractionProtocolHandler_Operation`. -/
structure Operation (α ρ : Type) where
  kind : OperationKind
  cachedResultRequest : Option (Message α ρ)
  currentObjectMessage : Option (Message α ρ)
  currentResultMessage : Option (Message α ρ)
  /-- `currentClassResult.ft` is set. -/
  currentClassResult : Bool
  callingFinalResult : Bool
  /-- The message whose method is in the callback for an earlier one. -/
  inPost : Option (Message α ρ)
  /-- An acknowledgement is scheduled on the strand. -/
  ackScheduled : Bool
  /-- The client has not acknowledged the last callback that asks for it. -/
  owesAck : Bool
  /-- The protocol has closed. -/
  closed : Bool
  /-- The message that the protocol waits for an acknowledgement of. -/
  awaiting : Option Nat
  posted : List (Message α ρ)
  callbacks : List (Callback α ρ)
  acknowledged : List (Option Nat)
  /-- The messages of which a reference was taken, and those of which one was released. -/
  taken : List Nat
  released : List Nat
deriving DecidableEq, Repr

namespace Operation

/-- An operation whose request was sent. -/
def new (kind : OperationKind) : Operation α ρ :=
  ⟨kind, none, none, none, false, false, none, false, false, false, none, [], [], [], [], []⟩

/-- A callback with `InteractionProtocolHandler_Client_Ack_PostToInteraction`. -/
def call (s : Operation α ρ) (callback : Callback α ρ) : Operation α ρ :=
  { s with callbacks := s.callbacks ++ [callback], owesAck := true }

/-- `Message_AddRef`. -/
def addRef (s : Operation α ρ) (msg : Message α ρ) : Operation α ρ :=
  { s with taken := s.taken ++ [msg.id] }

/-- The second half of the cases `PostInstanceMsgTag` and `PostSchemaMsgTag`: hold the message
back, if there is something in it. -/
def hold (s : Operation α ρ) (msg : Message α ρ) : Operation α ρ :=
  if msg.object.isSome then { s.addRef msg with cachedResultRequest := some msg } else s

/-- The cases `PostInstanceMsgTag` and `PostSchemaMsgTag`, up to the callback for the message
that was held back. -/
def postItem (s : Operation α ρ) (isSchema : Bool) (msg : Message α ρ) : Operation α ρ :=
  match s.cachedResultRequest with
  | some cached =>
    { s with
      currentObjectMessage := some cached
      cachedResultRequest := none
      currentClassResult := s.currentClassResult || isSchema
      inPost := some msg }.call ⟨cached.object, true, .ok⟩
  | none => { s.hold msg with ackScheduled := true }

/-- The case `PostIndicationMsgTag`. -/
def postIndication (s : Operation α ρ) (msg : Message α ρ) : Operation α ρ :=
  { s.addRef msg with currentObjectMessage := some msg }.call ⟨msg.object, true, .ok⟩

/-- The case `PostResultMsgTag`. -/
def postResult (s : Operation α ρ) (msg : Message α ρ) (r : ρ) : Operation α ρ :=
  let final : Operation α ρ :=
    { s.addRef msg with callingFinalResult := true, currentResultMessage := some msg }
  let callback : Callback α ρ := ⟨s.cachedResultRequest.bind Message.object, false, .posted r⟩
  match s.kind with
  | .indication => final.call callback
  | .schema =>
    { final with
      currentClassResult := s.currentClassResult || s.cachedResultRequest.isSome
      currentObjectMessage := s.cachedResultRequest }.call callback
  | _ => { final with currentObjectMessage := s.cachedResultRequest }.call callback

/-- The case `NoOpRspTag`. -/
def postNoOp (s : Operation α ρ) : Operation α ρ :=
  { s with callingFinalResult := true }.call ⟨none, false, .ok⟩

/-- `Strand_Ack`, and the scheduled acknowledgement when the strand comes to it. -/
def strandAck (s : Operation α ρ) : Operation α ρ :=
  { s with acknowledged := s.acknowledged ++ [s.awaiting], awaiting := none }

/-- `InteractionProtocolHandler_Operation_Strand_Post`, up to the callback of the client. -/
def post (s : Operation α ρ) (msg : Message α ρ) : Operation α ρ :=
  match msg.body with
  | .postInstance _ => s.postItem false msg
  | .postSchema _ => s.postItem true msg
  | .postIndication _ => s.postIndication msg
  | .postResult r => s.postResult msg r
  | .noOpRsp => s.postNoOp
  | .other => s.strandAck

/-- The protocol posts a message. -/
def receive (s : Operation α ρ) (body : Body α ρ) : Operation α ρ :=
  let msg : Message α ρ := ⟨s.posted.length, body⟩
  { s with posted := s.posted ++ [msg], awaiting := some msg.id }.post msg

/-- `InteractionProtocolHandler_Client_Ack_PostToInteraction`. -/
def clientAck (s : Operation α ρ) : Operation α ρ :=
  { s with
    released := s.released ++ (s.currentObjectMessage.toList ++ s.currentResultMessage.toList).map
      Message.id
    currentObjectMessage := none
    currentResultMessage := none
    currentClassResult := false
    ackScheduled := true
    owesAck := false }

/-- `_Operation_SendFinalResult_Internal`, whose callback needs no acknowledgement. -/
def sendFinalResult (s : Operation α ρ) : Operation α ρ :=
  { s with callingFinalResult := true, callbacks := s.callbacks ++ [⟨none, false, .failed⟩] }

/-- `InteractionProtocolHandler_Operation_Strand_Close`. -/
def close (s : Operation α ρ) : Operation α ρ :=
  if s.callingFinalResult then { s with closed := true }
  else { s.sendFinalResult with closed := true }

end Operation

/-- What happens to an operation. -/
inductive Event (α ρ : Type) where
  /-- The protocol posts. -/
  | post (body : Body α ρ)
  /-- The callback for the message that was held back returns. -/
  | callbackReturns
  /-- The client acknowledges a callback. -/
  | clientAck
  /-- The strand sends the scheduled acknowledgement. -/
  | sendAck
  /-- The protocol closes. -/
  | close
deriving DecidableEq, Repr

/-- A final result was posted. -/
def Operation.resultPosted (s : Operation α ρ) : Bool := s.posted.any fun msg => msg.body.isFinal

/-- One step of an operation. None is a step that the strand and the protocol do not take. -/
def Operation.step (s : Operation α ρ) : Event α ρ → Option (Operation α ρ)
  | .post body =>
    if s.closed = false ∧ s.awaiting = none ∧ s.inPost = none ∧ s.resultPosted = false ∧
        s.kind.suits body = true then
      some (s.receive body)
    else none
  | .callbackReturns => s.inPost.map fun msg => { s.hold msg with inPost := none }
  | .clientAck => if s.owesAck then some s.clientAck else none
  | .sendAck =>
    if s.ackScheduled = true ∧ s.inPost = none then
      some { s.strandAck with ackScheduled := false }
    else none
  | .close => if s.closed = false ∧ s.inPost = none then some s.close else none

end Omi.Client
