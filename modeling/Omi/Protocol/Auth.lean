import Omi.Protocol.Socket

/-!
# Message handlers of a single endpoint

Each handler of the protocol layer that touches only its own endpoint is a
function from the endpoint and the message to a `Reply`: the endpoint
afterwards, what the process did on the way, and the boolean that the source
function returns. The operating system, the account database and memory
allocation answer through an `Env`, which is chosen anew for every message.
-/

namespace Omi.Protocol

/-- `strncmp(a, b, n) == 0` on two terminated strings. -/
def strncmpEqual (a b : ZString) (n : Nat) : Bool :=
  a.chars.take n = b.chars.take n

/-- What handling a message does besides changing the endpoint. -/
inductive Event where
  | sent (m : Message)
  | posted (m : Message)
  | connectEvent
  | closeScheduled
  | preexecCompletion (context : UInt64)
  /-- The password check and the account lookup succeeded for a user with this uid. -/
  | passwordAccepted (user : ZString) (uid : Id)
  /-- The operating system named the owner of the peer process. -/
  | peerCredentials (info : AuthInfo)
  | challengeCreated (uid : Id) (authRandom : AuthRandom)
  /-- The peer sent these bytes and they were compared equal with the challenge. -/
  | challengeReturned (authRandom : AuthRandom)
  /-- A start-up message with this text passed the comparison with the secret. -/
  | engineVerified (message : ZString)
  | agentForked (uid gid : Id)
  | pamChecked (user passwd : Option ZString)
deriving DecidableEq

/-- The answers of everything outside the protocol layer while one message is handled. -/
structure Env where
  /-- Allocation of an outgoing message and of its strings. -/
  newMessage : Message → Bool
  /-- `_RequestCallbackWrite` on the prepared message. -/
  write : Message → Bool
  /-- `AuthenticateUser`, when authentication calls are not ignored. -/
  checkPassword : ZString → ZString → Bool
  getpwnam : ZString → Option AuthInfo
  getUIDByConnection : Sock → Option AuthInfo
  getUserGidByUid : Id → Option Id
  newAuthData : Bool
  /-- `CreateAuthFile`: what it leaves in its buffers, and whether it succeeded. -/
  createAuthFile : Id → AuthData × Bool
  readAuthFile : ZString → Option AuthRandom
  effectiveUser : AuthInfo
  openAgentLog : Id → Id → Option ZString → Bool
  /-- The three `realpath` calls before the fork. -/
  agentPaths : Bool
  /-- Whether `fork` returned a child. -/
  fork : Bool
  pamCheckUser : Option ZString → Option ZString → Bool
  authenticateCallback : PamCheckUserResp → Bool
  newTrackerBucket : Sock → Bool
  newEngineBatch : Bool
  newSocketAndBase : Bool
  createConnector : ZString → Option Sock
  addHandler : Bool

/-- Outcome of a handler: endpoint, events in order of occurrence, returned boolean. -/
structure Reply where
  socket : ProtocolSocket
  events : List Event
  accepted : Bool

/-- `return MI_FALSE` without any effect. -/
def ProtocolSocket.reject (s : ProtocolSocket) : Reply := ⟨s, [], false⟩

/-- The strings that the send functions copy: present and not empty. -/
def nonEmpty (text : Option ZString) : Option ZString :=
  text.filter (fun t => t.chars ≠ [])

/-! ## Outgoing messages -/

/-- Build, queue and start writing a message. -/
def sendMessage (env : Env) (m : Message) : List Event × Bool :=
  if env.newMessage m then ([.sent m], env.write m) else ([], false)

/-- `_SendAuthRequest`. -/
def sendAuthRequest (env : Env) (user password : Option ZString)
    (fileContent : Option AuthRandom) (returnSock : Sock) (uid gid : Id) : List Event × Bool :=
  let given := uid ≠ invalidId ∧ gid ≠ invalidId
  sendMessage env (.binProtocolNotification
    { type := connectRequest
      user := nonEmpty user
      password := nonEmpty password
      uid := if given then uid else env.effectiveUser.uid
      gid := if given then gid else env.effectiveUser.gid
      authData := fileContent.getD (Vector.replicate authRandomDataSize 0)
      result := 0
      authFile := none
      forwardSock := returnSock
      message := none })

/-- `_SendAuthResponse`. The listener's secret goes along with every response. -/
def sendAuthResponse (env : Env) (s : ProtocolSocket) (result : Result)
    (path : Option ZString) (returnSock : Sock) (uid gid : Id) : List Event × Bool :=
  sendMessage env (.binProtocolNotification
    { type := connectResponse
      user := none
      password := none
      uid := uid
      gid := gid
      authData := Vector.replicate authRandomDataSize 0
      result := result
      authFile := nonEmpty path
      forwardSock := returnSock
      message := nonEmpty s.base.expectedSecretString })

/-- `_SendVerifySocketConnMsg`. -/
def sendVerifySocketConnMsg (env : Env) (type : UInt32) (message : ZString) (sock : Sock) :
    List Event × Bool :=
  sendMessage env (.verifySocketConn ⟨type, sock, nonEmpty (some message)⟩)

/-- `_SendPamCheckUserResp`. -/
def sendPamCheckUserResp (env : Env) (s : ProtocolSocket) (handle : UInt64) (result : Bool) :
    List Event × Bool :=
  sendMessage env (.pamCheckUserResp ⟨handle, result, nonEmpty s.base.expectedSecretString⟩)

/-- `Strand_ScheduleClose` at the end of `_ProtocolSocket_Cleanup`. -/
def ProtocolSocket.cleanupEvents (s : ProtocolSocket) : List Event :=
  if s.closeOtherScheduled then []
  else if ¬s.base.forwardRequests ∨ s.base.type = .listener then [.closeScheduled] else []

/-! ## Client authentication -/

/-- The common ending of the failing branches: the response denies access. -/
def denyAccess (env : Env) (s : ProtocolSocket) (returnSock : Sock) : Reply :=
  let sent := sendAuthResponse env s resultAccessDenied none returnSock invalidId invalidId
  ⟨{ s with clientAuthState := .failed }, sent.1, false⟩

/-- The common ending of the successful branches: the state changes only after the
response has been queued. -/
def grantAccess (env : Env) (s : ProtocolSocket) (returnSock : Sock) : Reply :=
  let sent := sendAuthResponse env s resultOk none returnSock s.authInfo.uid s.authInfo.gid
  if sent.2 then ⟨{ s with clientAuthState := .ok }, sent.1, true⟩
  else ⟨s, sent.1, false⟩

/-- Events that precede a reply. -/
def Reply.after (r : Reply) (events : List Event) : Reply :=
  { r with events := events ++ r.events }

/-- `_ProcessAuthMessageWaitingConnectRequestFileData`. Here the state changes before
the group lookup and the response, which may still fail. -/
def processAuthMessageWaitingConnectRequestFileData (env : Env) (s : ProtocolSocket)
    (m : BinProtocolNotification) : Reply :=
  if m.type ≠ connectRequest then s.reject
  else
    match s.authData with
    | none => s.reject
    | some data =>
      if m.authData = data.authRandom then
        match env.getUserGidByUid s.authInfo.uid with
        | none =>
          ⟨{ s with clientAuthState := .ok, authData := none },
            [.challengeReturned m.authData], false⟩
        | some gid =>
          let sent := sendAuthResponse env s resultOk none m.forwardSock s.authInfo.uid gid
          ⟨{ s with
              clientAuthState := .ok
              authData := none
              authInfo := ⟨s.authInfo.uid, gid⟩ },
            .challengeReturned m.authData :: sent.1, sent.2⟩
      else denyAccess env s m.forwardSock

/-- `LookupUser`. When authentication calls are ignored it succeeds and leaves the
identity as it was. -/
def lookupUser (env : Env) (ignoreAuthCalls : Bool) (user : ZString) (info : AuthInfo) :
    Option AuthInfo :=
  if ignoreAuthCalls then some info else env.getpwnam user

/-- `AuthenticateUser`. -/
def authenticateUser (env : Env) (ignoreAuthCalls : Bool) (user password : ZString) : Bool :=
  ignoreAuthCalls || env.checkPassword user password

/-- Explicit credentials of `_ProcessAuthMessageWaitingConnectRequest`. -/
def explicitCredentials (env : Env) (ignoreAuthCalls : Bool) (s : ProtocolSocket)
    (user : ZString) (m : BinProtocolNotification) : Reply :=
  if authenticateUser env ignoreAuthCalls user (m.password.getD (ZString.ofString "")) then
    match lookupUser env ignoreAuthCalls user s.authInfo with
    | none => denyAccess env s m.forwardSock
    | some info =>
      let granted := grantAccess env { s with authInfo := info } m.forwardSock
      let freed :=
        if granted.accepted then { granted with socket := { granted.socket with authData := none } }
        else granted
      freed.after (if ignoreAuthCalls then [] else [.passwordAccepted user info.uid])
  else denyAccess env s m.forwardSock

/-- The file-based challenge of `_ProcessAuthMessageWaitingConnectRequest`. -/
def fileChallenge (env : Env) (s : ProtocolSocket) (m : BinProtocolNotification) : Reply :=
  if ¬env.newAuthData then denyAccess env { s with authData := none } m.forwardSock
  else
    let created := env.createAuthFile m.uid
    let held := { s with authData := some created.1 }
    if ¬created.2 then denyAccess env held m.forwardSock
    else
      let sent := sendAuthResponse env held resultInProgress (some created.1.path)
        m.forwardSock invalidId invalidId
      if sent.2 then
        ⟨{ held with
            clientAuthState := .waitConnectionRequestWithFileData
            authInfo := ⟨m.uid, invalidId⟩ },
          .challengeCreated m.uid created.1.authRandom :: sent.1, true⟩
      else ⟨held, .challengeCreated m.uid created.1.authRandom :: sent.1, false⟩

/-- `_ProcessAuthMessageWaitingConnectRequest`. -/
def processAuthMessageWaitingConnectRequest (env : Env) (ignoreAuthCalls : Bool)
    (s : ProtocolSocket) (m : BinProtocolNotification) : Reply :=
  if m.type ≠ connectRequest then s.reject
  else
    match m.user with
    | some user => explicitCredentials env ignoreAuthCalls s user m
    | none =>
      if m.forwardSock ≠ invalidSock then
        -- "request from engine": the identity is taken from the message
        if m.uid ≠ invalidId ∧ m.gid ≠ invalidId then
          grantAccess env { s with authInfo := ⟨m.uid, m.gid⟩ } m.forwardSock
        else fileChallenge env s m
      else
        match env.getUIDByConnection s.sock with
        | some info =>
          (grantAccess env { s with authInfo := info } m.forwardSock).after
            [.peerCredentials info]
        | none => fileChallenge env s m

/-- The client side of `_ProcessAuthMessage`: the response of the server. -/
def processAuthMessageWaitingConnectResponse (env : Env) (s : ProtocolSocket)
    (m : BinProtocolNotification) : Reply :=
  if m.type ≠ connectResponse then s.reject
  else if m.result = resultOk then
    if s.connectEventSent then ⟨{ s with clientAuthState := .ok }, [], true⟩
    else
      ⟨{ s with clientAuthState := .ok, connectEventSent := true, isConnected := true },
        [.connectEvent], true⟩
  else
    match decide (m.result = resultInProgress), m.authFile with
    | true, some path =>
      match env.readAuthFile path with
      | none => s.reject
      | some content =>
        let sent := sendAuthRequest env none none (some content) m.forwardSock
          invalidId invalidId
        ⟨s, sent.1, sent.2⟩
    | _, _ =>
      if s.base.type = .connector ∧ ¬s.connectEventSent then
        ⟨{ s with connectEventSent := true }, [.connectEvent], false⟩
      else s.reject

/-- `_ProcessAuthMessage`. -/
def processAuthMessage (env : Env) (ignoreAuthCalls : Bool) (s : ProtocolSocket)
    (m : BinProtocolNotification) : Reply :=
  match s.clientAuthState with
  | .waitConnectionRequest => processAuthMessageWaitingConnectRequest env ignoreAuthCalls s m
  | .waitConnectionRequestWithFileData =>
    processAuthMessageWaitingConnectRequestFileData env s m
  | .waitConnectionResponse => processAuthMessageWaitingConnectResponse env s m
  | .failed => s.reject
  | .ok => s.reject

/-! ## Engine-control messages -/

/-- `_ProcessVerifySocketConnMessage`. `none` is the comparison of a NULL string. -/
def processVerifySocketConnMessage (env : Env) (s : ProtocolSocket) (m : VerifySocketConn) :
    Option Reply :=
  if m.type = verifySocketConnStartup then
    match m.message, s.base.expectedSecretString with
    | some message, some secret =>
      if strncmpEqual message secret secretStringLength then
        some ⟨{ s with engineAuthState := .ok }, [.engineVerified message], true⟩
      else
        let sent := sendVerifySocketConnMsg env verifySocketConnShutdown
          (ZString.ofString "Invalid secret string received") m.sock
        some ⟨s.cleanup, sent.1 ++ s.cleanupEvents, true⟩
    | _, _ => none
  else if m.type = verifySocketConnShutdown then
    let moved := { s with sock := m.sock }
    some ⟨moved.cleanup, moved.cleanupEvents, true⟩
  else some s.reject

/-- `_ProcessCreateAgentMsg`, in the parent process. -/
def processCreateAgentMsg (env : Env) (s : ProtocolSocket) (m : CreateAgentMsg) : Reply :=
  if m.type = createAgentMsgRequest then
    if env.openAgentLog m.uid m.gid m.libraryName ∧ env.agentPaths ∧ env.fork then
      ⟨s, [.agentForked m.uid m.gid], false⟩
    else s.reject
  else if m.type = createAgentMsgResponse then ⟨s, [], true⟩
  else s.reject

/-- `_ProcessPamCheckUserReq`. -/
def processPamCheckUserReq (env : Env) (s : ProtocolSocket) (m : PamCheckUserReq) : Reply :=
  let valid := env.pamCheckUser m.user m.passwd
  let sent := sendPamCheckUserResp env s m.handle valid
  ⟨s, .pamChecked m.user m.passwd :: sent.1, sent.2⟩

/-- The test of a message that must carry the server's secret. -/
def bearsSecret (secretString : ZString) (message : Option ZString) : Bool :=
  match message with
  | none => false
  | some text => secretString.chars ≠ [] && strncmpEqual text secretString secretStringLength

/-- `_ProcessPamCheckUserResp`. -/
def processPamCheckUserResp (env : Env) (secretString : ZString) (s : ProtocolSocket)
    (m : PamCheckUserResp) : Reply :=
  if bearsSecret secretString m.message then
    ⟨s, [], env.authenticateCallback { m with message := none }⟩
  else s.reject

end Omi.Protocol
