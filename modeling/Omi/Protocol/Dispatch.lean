import Omi.Protocol.Auth

/-!
# Dispatch of a received message

A process owns a table of endpoints, the tracker that maps descriptors to
endpoints, and the secret it received from the server. `processReceivedMessage`
follows the dispatch of the source in its order: engine-control messages first,
then the engine gate, then client authentication or forwarding, and last the
delivery to the upper layer. `step` adds what the selector does with the result.
-/

namespace Omi.Protocol

/-- The process-wide state of the protocol layer, with a record of what happened.
Endpoints are never removed from the table, so a position names one connection. -/
structure Process where
  sockets : List ProtocolSocket
  tracker : Sock → Option HandlerId
  socketFile : ZString
  secretString : ZString
  permanentSocket : Option HandlerId
  ignoreAuthCalls : Bool
  log : List (HandlerId × Event)

namespace Process

/-- Append events of one endpoint to the record. -/
def record (p : Process) (h : HandlerId) (events : List Event) : Process :=
  { p with log := p.log ++ events.map (fun e => (h, e)) }

/-- Replace one endpoint. -/
def setSocket (p : Process) (h : HandlerId) (s : ProtocolSocket) : Process :=
  { p with sockets := p.sockets.set h s }

/-- Enter a new endpoint into the table. -/
def addSocket (p : Process) (s : ProtocolSocket) : Process :=
  { p with sockets := p.sockets ++ [s] }

/-- Carry out the reply of a handler that touches only its own endpoint. -/
def apply (p : Process) (h : HandlerId) (r : Reply) : Process :=
  (p.setSocket h r.socket).record h r.events

/-- `_ProtocolSocketTrackerAddElement` once the bucket is allocated: an entry under the
same key is replaced. -/
def trackerAdd (p : Process) (key : Sock) (value : HandlerId) : Process :=
  { p with tracker := Function.update p.tracker key (some value) }

/-- `_ProtocolSocketTrackerRemoveElement`, on a key that is present. -/
def trackerRemove (p : Process) (key : Sock) : Process :=
  { p with tracker := Function.update p.tracker key none }

end Process

/-- `Strlcpy` into a buffer of `size` bytes. -/
def strlcpy (text : ZString) (size : Nat) : ZString :=
  ⟨text.chars.take (size - 1), fun h => text.nul_free (List.mem_of_mem_take h)⟩

/-- The boolean of a handler as a callback result. -/
def ofAccepted (accepted : Bool) : CallbackResult :=
  if accepted then .prtContinue else .prtReturnFalse

/-- `_ProcessEngineAuthMessage` with `SendSocketFileResponse`. `none` is the copy of a
NULL path. -/
def processEngineAuthMessage (env : Env) (p : Process) (h : HandlerId) (s : ProtocolSocket)
    (m : PostSocketFile) : Option (Process × Bool) :=
  if m.type = postSocketFileRequest then
    let p := { p with permanentSocket := some h }
    match s.base.socketFile, s.base.expectedSecretString with
    | some path, some secret =>
      let sent := sendMessage env
        (.postSocketFile ⟨postSocketFileResponse, some path, some secret⟩)
      some (p.record h sent.1, sent.2)
    | _, _ => some (p, false)
  else if m.type = postSocketFileResponse then
    match m.secretString with
    | none => some (p, false)
    | some secret =>
      if p.secretString.chars ≠ [] ∧
          ¬strncmpEqual secret p.secretString secretStringLength then some (p, false)
      else
        match m.sockFilePath with
        | none => none
        | some path =>
          some ({ p with
            socketFile := strlcpy path maxPathSize
            secretString := strlcpy secret secretStringLength }, true)
  else some (p, false)

/-- The base of a connection that the engine opens to the server. -/
def internalProtocolBase : ProtocolBase where
  type := .fromSocket
  forwardRequests := true
  expectedSecretString := none
  socketFile := none
  secret_fits := by intro _ h; cases h

/-- The endpoint that `_ProtocolSocketAndBase_New_Server_Connection` fills in. -/
def serverConnection (sock : Sock) : ProtocolSocket where
  base := internalProtocolBase
  sock := sock
  registered := true
  selectorRead := true
  clientAuthState := .ok
  engineAuthState := .ok
  authInfo := ⟨invalidId, invalidId⟩
  authData := none
  engineBatch := false
  engineHandler := none
  connectEventSent := false
  isConnected := false
  closeOtherScheduled := false
  permanent := false

/-- `_RequestCallback` asks for removal, or `Selector_RemoveHandler` is called: the
handler leaves the selector's list and its removal callback cleans up. -/
def Process.closeConnection (p : Process) (h : HandlerId) : Process :=
  match p.sockets[h]? with
  | none => p
  | some s => (p.setSocket h { s.cleanup with registered := false }).record h s.cleanupEvents

/-- The second half of forwarding a connect request: the connection `new` to the server
is open and verified, and the client's request goes out on it. -/
def sendForwarded (env : Env) (p : Process) (h new : HandlerId) (s : ProtocolSocket)
    (m : BinProtocolNotification) (server : Sock) : Process × CallbackResult :=
  let p := (p.setSocket h { s with
    engineHandler := some new
    clientAuthState := .waitConnectionResponse }).setSocket new
      { serverConnection server with clientAuthState := .waitConnectionResponse }
  if ¬env.newTrackerBucket server then (p, .prtReturnFalse)
  else
    let p := p.trackerAdd server new
    let info := (env.getUIDByConnection s.sock).getD ⟨m.uid, m.gid⟩
    let sent := sendAuthRequest env m.user m.password none s.sock info.uid info.gid
    (p.record new sent.1, ofAccepted sent.2)

/-- A connect request on an endpoint that forwards: the engine opens a connection to the
server, proves itself with the secret, and sends the request on. -/
def forwardConnectRequest (env : Env) (p : Process) (h : HandlerId) (s : ProtocolSocket)
    (m : BinProtocolNotification) : Process × CallbackResult :=
  if ¬env.newTrackerBucket s.sock then (p, .prtReturnFalse)
  else
    let p := p.trackerAdd s.sock h
    if ¬s.engineBatch ∧ ¬env.newEngineBatch then (p, .prtReturnFalse)
    else
      let s := { s with engineBatch := true }
      let p := p.setSocket h s
      if ¬env.newSocketAndBase then (p, .prtReturnFalse)
      else
        match env.createConnector p.socketFile with
        | none => (p, .prtReturnFalse)
        | some server =>
          if ¬env.addHandler then (p, .prtReturnFalse)
          else
            let new := p.sockets.length
            let verify := sendVerifySocketConnMsg env verifySocketConnStartup
              p.secretString invalidSock
            let p := (p.addSocket (serverConnection server)).record new verify.1
            if verify.2 then sendForwarded env p h new s m server
            else (p.closeConnection new, .prtReturnFalse)

/-- The tracker updates after a final response, up to the first that fails. -/
def untrack (p : Process) (server client : Sock) : Process × Bool :=
  match p.tracker server with
  | none => (p, false)
  | some _ =>
    let p := p.trackerRemove server
    match p.tracker client with
    | none => (p, false)
    | some _ => (p.trackerRemove client, true)

/-- The client endpoint after the server's verdict. -/
def ProtocolSocket.verdict (client : ProtocolSocket) (m : BinProtocolNotification) :
    ProtocolSocket :=
  if m.result = resultOk then
    { client with clientAuthState := .ok, authInfo := ⟨m.uid, m.gid⟩ }
  else client

/-- A connect response on an endpoint that forwards: the server's verdict is taken over
for the client whose descriptor the response names. -/
def forwardConnectResponse (env : Env) (p : Process) (s : ProtocolSocket)
    (m : BinProtocolNotification) : Process × CallbackResult :=
  if ¬bearsSecret p.secretString m.message then (p, .prtReturnFalse)
  else
    match p.tracker m.forwardSock with
    | none => (p, .prtReturnFalse)
    | some client =>
      match p.sockets[client]? with
      | none => (p, .prtReturnFalse)
      | some newHandler =>
        let p := p.setSocket client (newHandler.verdict m)
        if m.result = resultOk ∨ m.result = resultAccessDenied then
          let removed := untrack p s.sock m.forwardSock
          if ¬removed.2 then (removed.1, .prtReturnFalse)
          else
            let sent := sendAuthResponse env newHandler m.result m.authFile invalidSock
              m.uid m.gid
            (removed.1.record client sent.1, .prtReturnFalse)
        else
          let sent := sendAuthResponse env newHandler m.result m.authFile s.sock m.uid m.gid
          (p.record client sent.1, .prtContinue)

/-- A notification on an endpoint whose client is not authenticated yet. -/
def processNotification (env : Env) (p : Process) (h : HandlerId) (s : ProtocolSocket)
    (m : BinProtocolNotification) : Process × CallbackResult :=
  if s.base.forwardRequests then
    if m.type = connectRequest then forwardConnectRequest env p h s m
    else if m.type = connectResponse then forwardConnectResponse env p s m
    else (p, .prtReturnFalse)
  else
    let r := processAuthMessage env p.ignoreAuthCalls s m
    (p.apply h r, ofAccepted r.accepted)

/-- Delivery to the upper layer: reading stops until the message is acknowledged. -/
def deliver (p : Process) (h : HandlerId) (s : ProtocolSocket) (msg : Message) :
    Process × CallbackResult :=
  ((p.setSocket h { s with selectorRead := false }).record h [.posted msg], .prtReturnTrue)

/-- A notification that arrives before the engine has shown the secret. -/
def refuseNotification (env : Env) (p : Process) (h : HandlerId) (s : ProtocolSocket)
    (m : BinProtocolNotification) : Process × CallbackResult :=
  let sent := sendVerifySocketConnMsg env verifySocketConnShutdown
    (ZString.ofString "Engine credentials not received") m.forwardSock
  ((p.setSocket h s.cleanup).record h (sent.1 ++ s.cleanupEvents), .prtReturnFalse)

/-- The part of the dispatch behind the handlers of engine-control messages. -/
def processClientMessage (env : Env) (p : Process) (h : HandlerId) (s : ProtocolSocket)
    (msg : Message) : Process × CallbackResult :=
  match msg with
  | .binProtocolNotification m =>
    if s.engineAuthState ≠ .ok then refuseNotification env p h s m
    else if s.clientAuthState ≠ .ok then processNotification env p h s m
    else deliver p h s msg
  | _ =>
    if s.engineAuthState ≠ .ok then (p, .prtReturnFalse)
    else deliver p h s msg

/-- `_ProcessReceivedMessage` from the point where the message is decoded. `preexec` is
the build option `CONFIG_ENABLE_PREEXEC`; `none` is a NULL dereference. -/
def processReceivedMessage (preexec : Bool) (env : Env) (p : Process) (h : HandlerId)
    (s : ProtocolSocket) (msg : Message) : Option (Process × CallbackResult) :=
  match msg with
  | .postSocketFile m =>
    (processEngineAuthMessage env p h s m).map fun r => (r.1, ofAccepted r.2)
  | .verifySocketConn m =>
    (processVerifySocketConnMessage env s m).map fun r => (p.apply h r, ofAccepted r.accepted)
  | .createAgentMsg m =>
    let r := processCreateAgentMsg env s m
    some (p.apply h r, ofAccepted r.accepted)
  | .pamCheckUserReq m =>
    let r := processPamCheckUserReq env s m
    some (p.apply h r, ofAccepted r.accepted)
  | .pamCheckUserResp m =>
    let r := processPamCheckUserResp env p.secretString s m
    some (p.apply h r, ofAccepted r.accepted)
  | .execPreexecResp context =>
    if preexec then some (p.record h [.preexecCompletion context], .prtContinue)
    else some (processClientMessage env p h s msg)
  | .binProtocolNotification _ => some (processClientMessage env p h s msg)
  | .other _ _ => some (processClientMessage env p h s msg)

/-! ## Steps of the process -/

/-- A listener accepts a connection, a complete message has been received on an
endpoint, or the upper layer acknowledges the message it was given. -/
inductive Action where
  | accept (base : ProtocolBase) (isListener : base.type = .listener) (sock : Sock)
  | receive (env : Env) (h : HandlerId) (msg : Message)
  | ack (h : HandlerId)

/-- The selector reads from a registered endpoint while its descriptor is open and
reading is enabled. -/
def ProtocolSocket.isReading (s : ProtocolSocket) : Bool :=
  s.registered && s.selectorRead && s.sock ≠ invalidSock

/-- What the selector does after the callback. -/
def Process.settle (p : Process) (h : HandlerId) : CallbackResult → Process
  | .prtReturnFalse => p.closeConnection h
  | .prtContinue => p
  | .prtReturnTrue => p

/-- One step of the process; `none` is a crash. Input for a closed endpoint is lost. -/
def step (preexec : Bool) (p : Process) : Action → Option Process
  | .accept base _ sock => some (p.addSocket (serverNew base sock))
  | .receive env h msg =>
    match p.sockets[h]? with
    | none => some p
    | some s =>
      if s.isReading then
        (processReceivedMessage preexec env p h s msg).map fun r => r.1.settle h r.2
      else some p
  | .ack h =>
    match p.sockets[h]? with
    | none => some p
    | some s => some (p.setSocket h { s with selectorRead := true })

/-- Reception on an endpoint that the selector reads from. -/
theorem step_receive {preexec : Bool} {p : Process} {env : Env} {h : HandlerId}
    {msg : Message} {s : ProtocolSocket} (found : p.sockets[h]? = some s)
    (reading : s.isReading) :
    step preexec p (.receive env h msg) =
      (processReceivedMessage preexec env p h s msg).map fun r => r.1.settle h r.2 := by
  change (match p.sockets[h]? with | none => _ | some s => _) = _
  rw [found]
  exact if_pos reading

end Omi.Protocol
