import Omi.Data.ZString

/-!
# Endpoints of the binary protocol

The records of the protocol layer that its message handlers read and write:
the base shared by all connections of a listener, one endpoint per connection,
and the messages that the handlers inspect. Integer fields that a peer fills in
keep their width and may hold any value; the enumerations of the source are
constants of that width.
-/

namespace Omi.Protocol

/-- `uid_t` and `gid_t`. -/
abbrev Id := UInt32

/-- `Sock`, a file descriptor. -/
abbrev Sock := Int32

/-- `MI_Result`. -/
abbrev Result := UInt32

/-- `INVALID_ID`. -/
def invalidId : Id := 0xFFFFFFFF

/-- `INVALID_SOCK`. -/
def invalidSock : Sock := -1

/-- `AUTH_RANDOM_DATA_SIZE`. -/
def authRandomDataSize : Nat := 64

/-- `S_SECRET_STRING_LENGTH`, the size of the buffers that hold the secret. -/
def secretStringLength : Nat := 32

/-- `PAL_MAX_PATH_SIZE`. -/
def maxPathSize : Nat := 1024

def resultOk : Result := 0
def resultAccessDenied : Result := 2
def resultInProgress : Result := 1005

/-- `Protocol_AuthState`. -/
inductive AuthState where
  | failed
  | waitConnectionRequest
  | waitConnectionRequestWithFileData
  | waitConnectionResponse
  | ok
deriving DecidableEq, Repr

/-- `Protocol_Type`. -/
inductive ProtocolType where
  | listener
  | connector
  | fromSocket
deriving DecidableEq, Repr

/-- `Protocol_CallbackResult`. -/
inductive CallbackResult where
  | prtContinue
  | prtReturnTrue
  | prtReturnFalse
deriving DecidableEq, Repr

/-- `AuthInfo`. -/
structure AuthInfo where
  uid : Id
  gid : Id
deriving DecidableEq

/-- Random bytes of a file challenge. -/
abbrev AuthRandom := Vector UInt8 authRandomDataSize

/-- `Protocol_AuthData`: the file that was created for a client and its content. -/
structure AuthData where
  path : ZString
  authRandom : AuthRandom
deriving DecidableEq

/-! ## Messages -/

def connectRequest : UInt32 := 0
def connectResponse : UInt32 := 1

/-- `BinProtocolNotification`. -/
structure BinProtocolNotification where
  type : UInt32
  user : Option ZString
  password : Option ZString
  uid : Id
  gid : Id
  authData : AuthRandom
  result : Result
  authFile : Option ZString
  forwardSock : Sock
  message : Option ZString
deriving DecidableEq

def postSocketFileRequest : UInt32 := 0
def postSocketFileResponse : UInt32 := 1

/-- `PostSocketFile`. -/
structure PostSocketFile where
  type : UInt32
  sockFilePath : Option ZString
  secretString : Option ZString
deriving DecidableEq

def verifySocketConnStartup : UInt32 := 0
def verifySocketConnShutdown : UInt32 := 1

/-- `VerifySocketConn`. -/
structure VerifySocketConn where
  type : UInt32
  sock : Sock
  message : Option ZString
deriving DecidableEq

def createAgentMsgRequest : UInt32 := 0
def createAgentMsgResponse : UInt32 := 1

/-- `CreateAgentMsg`. -/
structure CreateAgentMsg where
  type : UInt32
  uid : Id
  gid : Id
  libraryName : Option ZString
deriving DecidableEq

/-- `PamCheckUserReq`. -/
structure PamCheckUserReq where
  user : Option ZString
  passwd : Option ZString
  handle : UInt64
deriving DecidableEq

/-- `PamCheckUserResp`. -/
structure PamCheckUserResp where
  handle : UInt64
  result : Bool
  message : Option ZString
deriving DecidableEq

/-- The tags whose messages the protocol layer treats itself. -/
def handledTags : List UInt32 := [15, 34, 35, 36, 37, 38, 40]

/-- A decoded message. The bodies that the protocol layer never looks into are
left out; `other` is a message of any tag without a handler of its own. -/
inductive Message where
  | binProtocolNotification (m : BinProtocolNotification)
  | createAgentMsg (m : CreateAgentMsg)
  | postSocketFile (m : PostSocketFile)
  | verifySocketConn (m : VerifySocketConn)
  | pamCheckUserReq (m : PamCheckUserReq)
  | pamCheckUserResp (m : PamCheckUserResp)
  | execPreexecResp (context : UInt64)
  | other (tag : UInt32) (unhandled : tag ∉ handledTags)
deriving DecidableEq

/-! ## Endpoints -/

/-- The fields of `ProtocolBase` that message handling reads. The secret comes from
a buffer of `S_SECRET_STRING_LENGTH` bytes that includes its terminator. -/
structure ProtocolBase where
  type : ProtocolType
  forwardRequests : Bool
  expectedSecretString : Option ZString
  socketFile : Option ZString
  secret_fits : ∀ s, expectedSecretString = some s → s.length < secretStringLength
deriving DecidableEq

/-- A handler is named by its position in the table of all endpoints ever created. -/
abbrev HandlerId := Nat

/-- The fields of `ProtocolSocket` that message handling reads or writes. -/
structure ProtocolSocket where
  base : ProtocolBase
  sock : Sock
  /-- Whether the selector has the handler in its list. -/
  registered : Bool
  /-- `SELECTOR_READ` in the handler's mask. -/
  selectorRead : Bool
  clientAuthState : AuthState
  engineAuthState : AuthState
  authInfo : AuthInfo
  authData : Option AuthData
  /-- Whether `engineBatch` is allocated. -/
  engineBatch : Bool
  engineHandler : Option HandlerId
  connectEventSent : Bool
  isConnected : Bool
  closeOtherScheduled : Bool
  permanent : Bool
deriving DecidableEq

/-- `_ProtocolSocket_Server_New` on a connection accepted by a listener. -/
def serverNew (base : ProtocolBase) (sock : Sock) : ProtocolSocket where
  base := base
  sock := sock
  registered := true
  selectorRead := true
  clientAuthState := .waitConnectionRequest
  engineAuthState := if base.expectedSecretString = none then .ok else .waitConnectionRequest
  authInfo := ⟨invalidId, invalidId⟩
  authData := none
  engineBatch := false
  engineHandler := none
  connectEventSent := false
  isConnected := false
  closeOtherScheduled := false
  permanent := false

/-- `_ProtocolSocket_Cleanup`. A second call does nothing. The descriptor of a
permanent socket stays open. The engine's connection on behalf of a client is not
removed here, so it may still receive; this only adds runs. -/
def ProtocolSocket.cleanup (s : ProtocolSocket) : ProtocolSocket :=
  if s.closeOtherScheduled then s
  else
    { s with
      closeOtherScheduled := true
      authData := none
      engineBatch := false
      sock := if s.permanent then s.sock else invalidSock }

end Omi.Protocol
