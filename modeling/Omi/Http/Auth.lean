import Omi.Protocol.Socket

/-!
# Authentication on a server connection

The functions of the HTTP server that decide whether a received request may be
handed to the layer above: `_ReadData` once the content is complete,
`IsClientAuthorized` with its Basic and GSS branches, the answer of the server
process to a password check, and the completion of a write. Everything outside
the HTTP layer answers through `Calls`, chosen anew for every event. The model
also lists what the calls that decide about a user returned, in the order in
which they were made.

The handles that the GSS library gives out are only passed back to it, so they
do not appear; neither do the encryption flags and the header text that a later
response carries.
-/

namespace Omi.Http

open Omi.Protocol (AuthInfo Id invalidId)

/-- `Strncasecmp(a, b, n) == 0` on two terminated strings. -/
def strncasecmpEqual (a b : ZString) (n : Nat) : Bool :=
  (a.chars.take n).map toLower = (b.chars.take n).map toLower

def httpErrorCodeOk : Nat := 200
def httpErrorCodeBadRequest : Nat := 400
def httpErrorCodeUnauthorized : Nat := 401
def httpErrorCodeInternalServerError : Nat := 500

/-- `AuthMethod`, as far as the server assigns it. -/
inductive AuthMethod where
  | unsupported
  | none
  | basic
  | negotiate
  | kerberos
deriving DecidableEq, Repr

/-- `Http_CallbackResult`. -/
inductive CallbackResult where
  | «continue»
  | returnTrue
  | returnFalse
deriving DecidableEq, Repr

/-- `Http_RecvState`. -/
inductive RecvState where
  | header
  | content
deriving DecidableEq, Repr

/-- The fields of `HttpHeaders` that authentication reads. `ParseAuthorization` sets a user
name only together with `authorization`. -/
structure HttpHeaders where
  authorization : Option ZString
  username : Option ZString
  password : Option ZString
  contentLength : Nat
  username_authorization : username.isSome → authorization.isSome

/-- The headers after `memset`. -/
def HttpHeaders.zero : HttpHeaders := ⟨none, none, none, 0, fun h => h⟩

/-- `Http_SR_SocketData`. -/
structure SocketData where
  isAuthorised : Bool
  authFailed : Bool
  authInfo : AuthInfo
  httpErrorCode : Nat
  httpAuthType : AuthMethod
  requestIsBeingProcessed : Bool
  /-- `SELECTOR_READ` in the mask of the handler. -/
  selectorRead : Bool
  recvingState : RecvState
  recvHeaders : HttpHeaders

/-- The socket of a new connection, as `_ListenerCallback` fills it in. -/
def SocketData.new : SocketData where
  isAuthorised := false
  authFailed := false
  authInfo := ⟨invalidId, invalidId⟩
  httpErrorCode := 0
  httpAuthType := .none
  requestIsBeingProcessed := false
  selectorRead := true
  recvingState := .header
  recvHeaders := HttpHeaders.zero

/-- The text that `_SendAuthResponse` writes. -/
inductive AuthResponse where
  /-- `RESPONSE_HEADER_UNAUTH_FMT`. -/
  | unauthorized
  /-- `RESPONSE_HEADER_BAD_REQUEST`. -/
  | badRequest
  /-- `RESPONSE_HEADER_AUTHORIZED`. -/
  | authorized
  /-- `_BuildAuthResponse` for the next token of an exchange. -/
  | token (protocol : AuthMethod) (httpErrorCode : Nat) (outputToken : List UInt8)
  /-- The null pointer of a failed `_BuildAuthResponse`. -/
  | missing
deriving DecidableEq, Repr

/-! ## External calls -/

/-- What `Gss_Accept_Sec_Context` returns. -/
structure GssAccept where
  majStat : UInt32
  outputToken : List UInt8
deriving DecidableEq

/-- `GSS_S_COMPLETE`. -/
def gssComplete : UInt32 := 0

/-- `GSS_S_CONTINUE_NEEDED`. -/
def gssContinueNeeded : UInt32 := 1

def gssNoCred : UInt32 := 0x00070000
def gssFailure : UInt32 := 0x000D0000
def gssUnauthorized : UInt32 := 0x000F0000

/-- `GSS_ERROR`. -/
def gssError (status : UInt32) : UInt32 := status &&& 0xFFFF0000

/-- The answers of everything outside the HTTP layer while one event is handled. -/
structure Calls where
  isRoot : Int
  authenticateUser : ZString → ZString → Int
  credCacheCheckUser : ZString → ZString → Int
  askServerToAuthenticate : ZString → ZString → Int
  /-- `LookupUser`: the identity it stores when it returns 0. -/
  lookupUser : ZString → Option AuthInfo
  isUserAuthorized : ZString → Id → Int
  gssInitLibrary : Bool
  /-- `_getInputToken` found a token in the header. -/
  getInputToken : AuthMethod → ZString → Bool
  gssAcquireCred : AuthMethod → Bool
  gssAcceptSecContext : GssAccept
  /-- `_getPrincipalName`, a null pointer when the library gives no name. -/
  getPrincipalName : Option ZString
  gethostname : Option ZString
  buildAuthResponse : Bool
  decryptData : Bool
  newRequestMsg : Bool

/-- What a call that decides about a user returned. -/
inductive Call where
  /-- A password check in this process, or the server's answer to one. -/
  | password (accepted : Bool)
  | accept (majStat : UInt32)
  | lookup (user : ZString) (found : Option AuthInfo)
  | authorised (user : ZString) (allowed : Bool)
deriving DecidableEq

/-! ## Deciding about a request -/

/-- Outcome of `IsClientAuthorized`: the socket afterwards, the response written on the way,
the calls made and the value returned. -/
structure Verdict where
  socket : SocketData
  response : Option AuthResponse
  calls : List Call
  result : CallbackResult

/-- Calls made before the ones of a verdict. -/
def Verdict.after (v : Verdict) (calls : List Call) : Verdict :=
  { v with calls := calls ++ v.calls }

/-- `_SendAuthResponse` leaves the socket ready for the next header. -/
def SocketData.sendAuthResponse (h : SocketData) : SocketData := { h with selectorRead := true }

/-- The exits that deny access. -/
def SocketData.refuse (h : SocketData) (httpErrorCode : Nat) : Verdict :=
  ⟨{ h with httpErrorCode := httpErrorCode, authFailed := true }.sendAuthResponse,
    some .unauthorized, [], .returnFalse⟩

/-- `Deauthorize`. -/
def SocketData.deauthorize (h : SocketData) : SocketData :=
  { h with
    authFailed := false
    isAuthorised := false
    httpAuthType := .unsupported
    authInfo := ⟨invalidId, invalidId⟩ }

/-- The two checks that every branch makes of an authenticated user: `LookupUser`, which
stores the identity, and `IsUserAuthorized`. A user who fails either is refused. -/
def checkUser (calls : Calls) (h : SocketData) (user : ZString)
    (allowed : SocketData → Verdict) : Verdict :=
  match calls.lookupUser user with
  | none => (h.refuse httpErrorCodeUnauthorized).after [.lookup user none]
  | some info =>
    if calls.isUserAuthorized user info.gid = 1 then
      (allowed { h with authInfo := info }).after
        [.lookup user (some info), .authorised user true]
    else
      ({ h with authInfo := info }.refuse httpErrorCodeUnauthorized).after
        [.lookup user (some info), .authorised user false]

/-- The successful exits that let the request itself determine the error code. -/
def SocketData.authorise (h : SocketData) : Verdict :=
  ⟨{ h with httpErrorCode := 0, isAuthorised := true }, none, [], .returnTrue⟩

/-- `IsClientAuthorized` for `Basic`. A process without root rights that does not know the
credentials yet asks the server and stops reading from the socket. -/
def basicAuthorized (calls : Calls) (h : SocketData) : Verdict :=
  let h := { h with httpAuthType := .basic }
  match h.recvHeaders.username, h.recvHeaders.password with
  | some user, some password =>
    if calls.isRoot = 0 then
      if calls.authenticateUser user password ≠ 0 then
        (h.refuse httpErrorCodeUnauthorized).after [.password false]
      else (checkUser calls h user SocketData.authorise).after [.password true]
    else if calls.credCacheCheckUser user password ≠ 0 then
      let h := { h with selectorRead := false }
      if calls.askServerToAuthenticate user password ≠ 0 then
        h.refuse httpErrorCodeUnauthorized
      else ⟨h, none, [], .continue⟩
    else (checkUser calls h user SocketData.authorise).after [.password true]
  | _, _ => h.refuse httpErrorCodeUnauthorized

/-- The part of a principal's name behind the first backslash. -/
def afterBackslash (name : ZString) : Option ZString :=
  if 92 ∈ name.chars then
    some
      { chars := (name.chars.dropWhile (· ≠ 92)).tail
        nul_free := fun zero =>
          name.nul_free ((List.dropWhile_sublist _).mem (List.mem_of_mem_tail zero)) }
  else none

/-- The name to look up: the domain is dropped when it is this machine. -/
def localName (hostname : Option ZString) (principal : ZString) : ZString :=
  match hostname with
  | none => principal
  | some host =>
    if strncasecmpEqual host principal host.length then
      (afterBackslash principal).getD principal
    else principal

/-- The principal of the context is looked up and checked. The name that the library does
not give is used without a check for null. -/
def checkPrincipal (calls : Calls) (h : SocketData) (allowed : SocketData → Verdict) :
    Option Verdict :=
  calls.getPrincipalName.map fun principal =>
    checkUser calls h (localName calls.gethostname principal) allowed

/-- Send the token that the library produced, with the given error code. -/
def sendToken (calls : Calls) (h : SocketData) (httpErrorCode : Nat) : Verdict :=
  if calls.buildAuthResponse then
    ⟨{ h with httpErrorCode := httpErrorCode }.sendAuthResponse,
      some (.token h.httpAuthType httpErrorCode calls.gssAcceptSecContext.outputToken), [],
      .returnFalse⟩
  else
    ⟨{ h with httpErrorCode := httpErrorCodeInternalServerError }.sendAuthResponse,
      some .missing, [], .returnFalse⟩

/-- `GSS_S_COMPLETE` for a principal that passed both checks. A request without content only
authorised the connection and is answered here. -/
def gssAuthorise (calls : Calls) (h : SocketData) : Verdict :=
  let h := { h with isAuthorised := true }
  if h.recvHeaders.contentLength = 0 then
    if calls.gssAcceptSecContext.outputToken ≠ [] then sendToken calls h httpErrorCodeOk
    else
      ⟨{ h with httpErrorCode := httpErrorCodeOk }.sendAuthResponse, some .authorized, [],
        .returnFalse⟩
  else if calls.gssAcceptSecContext.outputToken ≠ [] ∧ ¬calls.buildAuthResponse then
    ⟨{ h with httpErrorCode := httpErrorCodeInternalServerError }, none, [], .returnTrue⟩
  else ⟨{ h with httpErrorCode := 0 }, none, [], .returnTrue⟩

/-- `GSS_ERROR(maj_stat)`. -/
def gssRejected (h : SocketData) (majStat : UInt32) : Verdict :=
  if gssError majStat = gssNoCred ∨ gssError majStat = gssFailure
      ∨ gssError majStat = gssUnauthorized then
    h.refuse httpErrorCodeUnauthorized
  else
    ⟨{ h with httpErrorCode := httpErrorCodeBadRequest }.sendAuthResponse, some .badRequest, [],
      .returnFalse⟩

/-- What follows from the status of `Gss_Accept_Sec_Context`. An exchange that needs to
continue without a token to send is checked like a complete one. -/
def gssAccepted (calls : Calls) (h : SocketData) : Option Verdict :=
  let accepted := calls.gssAcceptSecContext
  if accepted.majStat = gssComplete then checkPrincipal calls h (gssAuthorise calls)
  else if gssError accepted.majStat ≠ 0 then some (gssRejected h accepted.majStat)
  else if accepted.majStat &&& gssContinueNeeded ≠ 0 then
    if accepted.outputToken ≠ [] then some (sendToken calls h httpErrorCodeUnauthorized)
    else
      checkPrincipal calls { h with httpErrorCode := httpErrorCodeUnauthorized }
        SocketData.authorise
  else some ⟨h, none, [], .returnFalse⟩

/-- The mechanism that an `Authorization` header other than `Basic` names. -/
def gssMethod (authorization : ZString) : Option AuthMethod :=
  if strncasecmpEqual authorization (ZString.ofString "Negotiate") 9 then some .negotiate
  else if strncasecmpEqual authorization (ZString.ofString "Kerberos") 8 then some .kerberos
  else none

/-- `IsClientAuthorized` for the other schemes. The acceptor's credential is acquired only
while no error code is left from an earlier leg. -/
def gssAuthorized (calls : Calls) (h : SocketData) (authorization : ZString) : Option Verdict :=
  if ¬calls.gssInitLibrary then some ⟨h, none, [], .returnFalse⟩
  else
    match gssMethod authorization with
    | none => some (h.refuse httpErrorCodeInternalServerError)
    | some method =>
      let h := { h with httpAuthType := method }
      if ¬calls.getInputToken method authorization then
        some (h.refuse httpErrorCodeInternalServerError)
      else if h.httpErrorCode = 0 ∧ ¬calls.gssAcquireCred method then
        some (h.refuse httpErrorCodeUnauthorized)
      else
        (gssAccepted calls h).map fun v => v.after [.accept calls.gssAcceptSecContext.majStat]

/-- `IsClientAuthorized`. No verdict means that a null name was dereferenced. -/
def isClientAuthorized (isAuthCallsIgnored : Bool) (calls : Calls) (h : SocketData)
    (authorization : ZString) : Option Verdict :=
  if isAuthCallsIgnored then some h.authorise
  else if strncasecmpEqual authorization (ZString.ofString "Basic") 5 then
    some (basicAuthorized calls h)
  else gssAuthorized calls h authorization

/-! ## Handing requests on -/

/-- What handling an event leaves behind: the socket, the response written, the calls made,
the identity attached to a request that was handed on, and whether the server was asked. -/
structure Effect where
  socket : SocketData
  response : Option AuthResponse
  calls : List Call
  handed : Option AuthInfo
  asked : Bool

/-- The socket waits for the next header. -/
def SocketData.nextRequest (h : SocketData) : SocketData :=
  { h with recvHeaders := HttpHeaders.zero, recvingState := .header }

/-- `Process_Authorized_Message`: the identity attached to the message, or nothing if the
content cannot be decrypted or the message cannot be allocated. -/
def processAuthorizedMessage (calls : Calls) (h : SocketData) : Option (SocketData × AuthInfo) :=
  if calls.decryptData ∧ calls.newRequestMsg then
    some ({ h with requestIsBeingProcessed := true }, h.authInfo)
  else none

/-- The end of `_ReadData`: only an authorised connection hands the request on. -/
def handOn (calls : Calls) (h : SocketData) (response : Option AuthResponse)
    (made : List Call) : Option Effect :=
  if h.isAuthorised then
    (processAuthorizedMessage calls h).map fun (h, info) =>
      ⟨h.nextRequest, response, made, some info, false⟩
  else some ⟨h.nextRequest, response, made, none, false⟩

/-- The socket that `_ReadData` passes to `IsClientAuthorized`: a client that sends an
`Authorization` header has to be authorised again. -/
def SocketData.reset (h : SocketData) : SocketData :=
  if h.isAuthorised then { h with requestIsBeingProcessed := true }.deauthorize
  else { h with requestIsBeingProcessed := true }

/-- `_ReadData` when the whole content is there. Nothing is left when the connection is
closed. A request that waits for the server stays in the socket. -/
def readData (isAuthCallsIgnored : Bool) (calls : Calls) (h : SocketData) : Option Effect :=
  match h.recvHeaders.authorization with
  | some authorization =>
    (isClientAuthorized isAuthCallsIgnored calls h.reset authorization).bind fun v =>
      match v.result with
      | .returnFalse => some ⟨v.socket.nextRequest, v.response, v.calls, none, false⟩
      | .continue => some ⟨v.socket, v.response, v.calls, none, true⟩
      | .returnTrue => handOn calls v.socket v.response v.calls
  | none => if h.authFailed then none else handOn calls h none []

/-- `_ServerAuthenticateCallback`, with whether it returns `MI_RESULT_OK`. The answer carries
no name: it is taken to be about the request that the socket holds now. Nothing is left when
that request has no user name. -/
def serverAuthenticateCallback (calls : Calls) (h : SocketData) (result : Bool) :
    Option (Effect × Bool) :=
  if ¬result then
    let v := h.refuse httpErrorCodeUnauthorized
    some (⟨v.socket.nextRequest, v.response, [.password false], none, false⟩, true)
  else
    h.recvHeaders.username.map fun user =>
      let v := (checkUser calls h user SocketData.authorise).after [.password true]
      if v.result = .returnTrue then
        let h := { v.socket with selectorRead := true }
        match processAuthorizedMessage calls h with
        | some (h, info) => (⟨h.nextRequest, none, v.calls, some info, false⟩, true)
        | none => (⟨h, none, v.calls, none, false⟩, false)
      else (⟨v.socket.nextRequest, v.response, v.calls, none, false⟩, true)

/-- `_SendIN_IO_thread_HttpSocket`: the layer above answers a request. -/
def SocketData.sendResponse (h : SocketData) (httpErrorCode : Nat) : SocketData :=
  { h with
    requestIsBeingProcessed := false
    selectorRead := false
    httpErrorCode := httpErrorCode }

/-- `_ResetWriteState`, when the response has been written. -/
def SocketData.resetWriteState (h : SocketData) : SocketData :=
  { h with httpErrorCode := 0, authFailed := false, selectorRead := true }

end Omi.Http
