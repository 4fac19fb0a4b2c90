import Omi.Data.Run
import Omi.Http.Auth

/-!
# Which requests a connection hands on

One connection reads headers and contents, hears from the server about the
password checks that it asked for, and writes the responses of the layer above,
in any order in which the selector lets these events happen. Next to the socket
the model keeps a history that no decision depends on: the number of each
request, the request for which a check was asked, and how far the latest
request with an `Authorization` header has come, judged only by what the
external calls returned.

The end states what a connection should guarantee at each event, and the
condition on the events under which it does.
-/

namespace Omi.Http

open Omi.Protocol (AuthInfo)

/-! ## The history of a connection -/

/-- How far the authentication of a request has come. -/
inductive Stage where
  | started
  | authenticated
  | identified (user : ZString) (info : AuthInfo)
  | allowed (user : ZString) (info : AuthInfo)
deriving DecidableEq

/-- A completed authentication, the lookup of a user and the check that this user is
authorised have to follow one another. -/
def Stage.next : Stage → Call → Stage
  | _, .password accepted => if accepted then .authenticated else .started
  | _, .accept majStat => if majStat = gssComplete then .authenticated else .started
  | .authenticated, .lookup user (some info) => .identified user info
  | .identified user info, .authorised name true =>
    if name = user then .allowed user info else .started
  | _, _ => .started

def Stage.after (stage : Stage) (calls : List Call) : Stage := calls.foldl Stage.next stage

/-- The status of an exchange that still needs to continue. -/
def Call.continues : Call → Bool
  | .accept majStat => majStat &&& gssContinueNeeded ≠ 0
  | _ => false

/-- A connection with its history. `handed` and `calls` belong to the latest event. -/
structure Connection where
  socket : SocketData
  /-- The number of headers received, which is the number of the current request. -/
  requests : Nat
  /-- The password checks that the server has not answered, by request. -/
  asks : List Nat
  /-- The latest request with an `Authorization` header. -/
  latest : Option (Nat × Stage)
  handed : Option AuthInfo
  calls : List Call

def Connection.new : Connection := ⟨SocketData.new, 0, [], none, none, []⟩

/-- The identity under which the latest request with an `Authorization` header was allowed. -/
def Connection.granted (c : Connection) : Option AuthInfo :=
  match c.latest with
  | some (_, .allowed _ info) => some info
  | _ => none

/-- What can happen on a connection. -/
inductive Event where
  /-- `_ReadHeader` has parsed a complete header. -/
  | header (headers : HttpHeaders)
  /-- `_ReadData` runs and the content is complete. -/
  | content (calls : Calls)
  /-- The server answers one of the checks it was asked for. -/
  | answer (check : Nat) (result : Bool) (calls : Calls)
  /-- The layer above posts a response. -/
  | respond (httpErrorCode : Nat)
  /-- The response has been written. -/
  | written

/-- A new request, numbered. -/
def Connection.receive (c : Connection) (headers : HttpHeaders) : Connection where
  socket := { c.socket with recvHeaders := headers, recvingState := .content }
  requests := c.requests + 1
  asks := c.asks
  latest := if headers.authorization.isSome then some (c.requests + 1, .started) else c.latest
  handed := none
  calls := []

/-- The current request was examined; one without `Authorization` decides nothing. -/
def Connection.examine (c : Connection) (e : Effect) : Connection where
  socket := e.socket
  requests := c.requests
  asks := if e.asked then c.asks ++ [c.requests] else c.asks
  latest :=
    if c.socket.recvHeaders.authorization.isSome then
      some (c.requests, Stage.started.after e.calls)
    else c.latest
  handed := e.handed
  calls := e.calls

/-- An answer counts for the request for which the check was asked. When the callback fails
the link to the server is closed, and with it go the other checks. -/
def Connection.hear (c : Connection) (check request : Nat) (e : Effect) (ok : Bool) :
    Connection where
  socket := e.socket
  requests := c.requests
  asks := if ok then c.asks.eraseIdx check else []
  latest :=
    c.latest.map fun (number, stage) =>
      if number = request then (number, stage.after e.calls) else (number, stage)
  handed := e.handed
  calls := e.calls

/-- An event that does not concern any request. -/
def Connection.quiet (c : Connection) (socket : SocketData) : Connection :=
  { c with socket := socket, handed := none, calls := [] }

/-- One event. The connection ends when the source closes it, when the process crashes, and
at an event that cannot happen: the socket is read only while the selector watches it. -/
def step (isAuthCallsIgnored : Bool) (c : Connection) : Event → Option Connection
  | .header headers =>
    if c.socket.selectorRead ∧ c.socket.recvingState = .header then some (c.receive headers)
    else none
  | .content calls =>
    if c.socket.selectorRead ∧ c.socket.recvingState = .content then
      (readData isAuthCallsIgnored calls c.socket).map c.examine
    else none
  | .answer check result calls =>
    c.asks[check]?.bind fun request =>
      (serverAuthenticateCallback calls c.socket result).map fun (e, ok) =>
        c.hear check request e ok
  | .respond httpErrorCode => some (c.quiet (c.socket.sendResponse httpErrorCode))
  | .written => some (c.quiet c.socket.resetWriteState)

/-- A request is handed on only under the identity of the latest request that asked for
authentication, and an exchange that needs to continue authorises nothing. -/
def Connection.Rightful (c : Connection) : Prop :=
  (∀ info ∈ c.handed, c.granted = some info) ∧
    ∀ call ∈ c.calls, call.continues = true → c.socket.isAuthorised = false

instance (c : Connection) : Decidable c.Rightful := inferInstanceAs (Decidable (_ ∧ _))

/-- Whatever the event leads to is rightful. -/
def Legit (c : Connection) (e : Event) : Prop := ∀ next ∈ step false c e, next.Rightful

instance (c : Connection) (e : Event) : Decidable (Legit c e) :=
  inferInstanceAs (Decidable (∀ next ∈ step false c e, next.Rightful))

/-! ## The condition -/

/-- The GSS library wants another leg and has no token for the client. -/
def Calls.continuesSilently (calls : Calls) : Bool :=
  gssError calls.gssAcceptSecContext.majStat = 0 ∧
    calls.gssAcceptSecContext.majStat &&& gssContinueNeeded ≠ 0 ∧
    calls.gssAcceptSecContext.outputToken = []

/-- The lookup and the authorisation check accept a user. -/
def Calls.allows (calls : Calls) (user : ZString) : Bool :=
  match calls.lookupUser user with
  | none => false
  | some info => calls.isUserAuthorized user info.gid = 1

/-- They accept the principal of the GSS context. -/
def Calls.allowsPrincipal (calls : Calls) : Bool :=
  match calls.getPrincipalName with
  | none => false
  | some principal => calls.allows (localName calls.gethostname principal)

/-- The current request names a scheme other than `Basic`. -/
def SocketData.usesGss (h : SocketData) : Bool :=
  match h.recvHeaders.authorization with
  | none => false
  | some authorization => !strncasecmpEqual authorization (ZString.ofString "Basic") 5

/-- No accepted principal comes from an exchange that silently wants to continue, and every
answer of the server is about the request that the socket still holds. -/
def Orderly (c : Connection) : Event → Prop
  | .content calls =>
    c.socket.usesGss = true → calls.continuesSilently = true → calls.allowsPrincipal = false
  | .answer check _ _ =>
    c.socket.recvingState = .content ∧ c.asks[check]? = some c.requests
  | _ => True

instance (c : Connection) : (e : Event) → Decidable (Orderly c e)
  | .header _ => isTrue trivial
  | .content calls =>
    inferInstanceAs (Decidable (c.socket.usesGss = true →
      calls.continuesSilently = true → calls.allowsPrincipal = false))
  | .answer check _ _ =>
    inferInstanceAs (Decidable (c.socket.recvingState = .content ∧
      c.asks[check]? = some c.requests))
  | .respond _ => isTrue trivial
  | .written => isTrue trivial

end Omi.Http
