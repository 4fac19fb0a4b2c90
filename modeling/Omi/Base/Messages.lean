import Mathlib

/-!
# Message declarations

Messages travel as they lie in memory. For every tag a table names the fields that
hold addresses: strings, packed instances, and pointers that mean nothing to the
receiver. The offsets and sizes are those of the structures on a 64-bit target; two
of them depend on whether the pre-execution option is built in, which adds a field to
the registration entry of every request.
-/

namespace Omi.Base

/-- `MessageFieldType`. -/
inductive MessageFieldType where
  | mftEndOfList
  | mftPointer
  | mftPointerOpt
  | mftPointerSetNull
  | mftInstance
  | mftInstanceOpt
deriving DecidableEq, Repr

/-- `MessageField`. -/
structure MessageField where
  type : MessageFieldType
  off : Nat
  offPackedPtr : Nat
  offPackedSize : Nat
deriving DecidableEq, Repr

/-- What the build decides: the option `CONFIG_ENABLE_PREEXEC`, and the entries that the
linker happens to place behind `pullMessageFields`, which has no terminator. -/
structure Build where
  preexec : Bool
  behindPull : List MessageField

/-- `sizeof(Message)`. -/
def messageSize : Nat := 88

/-- `sizeof(RequestMsg)`. -/
def requestSize (build : Build) : Nat := if build.preexec then 224 else 216

namespace MessageField

def endOfList : MessageField := ⟨.mftEndOfList, 0, 0, 0⟩

def pointer (off : Nat) : MessageField := ⟨.mftPointer, off, 0, 0⟩

def pointerOpt (off : Nat) : MessageField := ⟨.mftPointerOpt, off, 0, 0⟩

def pointerSetNull (off : Nat) : MessageField := ⟨.mftPointerSetNull, off, 0, 0⟩

def packed (off offPackedPtr offPackedSize : Nat) : MessageField :=
  ⟨.mftInstance, off, offPackedPtr, offPackedSize⟩

def packedOpt (off offPackedPtr offPackedSize : Nat) : MessageField :=
  ⟨.mftInstanceOpt, off, offPackedPtr, offPackedSize⟩

end MessageField

open MessageField

/-! ## Field tables -/

def baseMessageFields : List MessageField :=
  [pointerSetNull 0,      -- next
    pointerSetNull 8,     -- prev
    pointerSetNull 72,    -- dtor
    pointerSetNull 80,    -- dtorData
    endOfList]

def emptyMessageFields : List MessageField := [endOfList]

def requestMessageFields (build : Build) : List MessageField :=
  [pointerOpt 120,        -- regEntry.user
    pointerOpt 128,       -- regEntry.nameSpace
    pointerOpt 144,       -- regEntry.className
    pointerOpt 160,       -- regEntry.libraryName
    pointerOpt 168,       -- regEntry.interpreter
    pointerOpt 176] ++    -- regEntry.startup
  (if build.preexec then [pointerOpt 184] else []) ++
  [packedOpt (requestSize build - 24) (requestSize build - 16) (requestSize build - 8),
    endOfList]

section Requests

variable (build : Build)

def getClassMessageFields : List MessageField :=
  [pointer (requestSize build),                -- nameSpace
    pointer (requestSize build + 8),           -- className
    endOfList]

def getInstanceMessageFields : List MessageField :=
  [pointer (requestSize build),                -- nameSpace
    packed (requestSize build + 8) (requestSize build + 16) (requestSize build + 24),
    endOfList]

def enumerateInstancesMessageFields : List MessageField :=
  [pointer (requestSize build),                -- nameSpace
    pointerOpt (requestSize build + 8),        -- className
    pointerOpt (requestSize build + 16),       -- requestClassName
    pointerOpt (requestSize build + 40),       -- queryLanguage
    pointerOpt (requestSize build + 48),       -- queryExpression
    pointerSetNull (requestSize build + 24),   -- propertySet
    packedOpt (requestSize build + 56) (requestSize build + 64) (requestSize build + 72),
    pointerSetNull (requestSize build + 80),   -- wql
    endOfList]

/-- The array ends with its third entry; a walk continues with what lies behind it. -/
def pullMessageFields : List MessageField :=
  [pointer (requestSize build),                -- nameSpace
    pointer (requestSize build + 8),           -- className
    pointer (requestSize build + 16)] ++       -- context
  build.behindPull

def invokeMessageFields : List MessageField :=
  [pointer (requestSize build),                -- nameSpace
    pointer (requestSize build + 8),           -- function
    pointerOpt (requestSize build + 16),       -- className
    packedOpt (requestSize build + 24) (requestSize build + 40) (requestSize build + 56),
    packedOpt (requestSize build + 32) (requestSize build + 48) (requestSize build + 60),
    endOfList]

def associatorsOfMessageFields : List MessageField :=
  [pointer (requestSize build),                -- nameSpace
    pointerOpt (requestSize build + 40),       -- className
    pointerOpt (requestSize build + 8),        -- assocClass
    pointerOpt (requestSize build + 16),       -- resultClass
    pointerOpt (requestSize build + 24),       -- role
    pointerOpt (requestSize build + 32),       -- resultRole
    packed (requestSize build + 48) (requestSize build + 56) (requestSize build + 64),
    endOfList]

def referencesOfMessageFields : List MessageField := associatorsOfMessageFields build

def subscribeRequestMessageFields : List MessageField :=
  [pointer (requestSize build),                -- nameSpace
    pointerOpt (requestSize build + 8),        -- className
    pointerOpt (requestSize build + 16),       -- bookmark
    pointer (requestSize build + 32),          -- filter
    pointer (requestSize build + 40),          -- language
    endOfList]

def deleteInstanceMessageFields : List MessageField := getInstanceMessageFields build

def createInstanceMessageFields : List MessageField := getInstanceMessageFields build

def modifyInstanceMessageFields : List MessageField := getInstanceMessageFields build

end Requests

def postInstanceMessageFields : List MessageField := [packed 88 96 104, endOfList]

/-- The WS-Management buffer of a schema is declared like a string. -/
def postSchemaMessageFields : List MessageField :=
  [packedOpt 88 96 104, pointerOpt 112, endOfList]

def binProtocolNotificationFields : List MessageField :=
  [pointerOpt 96,         -- user
    pointerOpt 104,       -- password
    pointerOpt 192,       -- authFile
    pointerOpt 208,       -- message
    endOfList]

def binPostResultMsgFields : List MessageField :=
  [pointerOpt 96,         -- errorMessage
    packedOpt 104 120 128,
    pointerOpt 112,       -- cimErrorClassName
    endOfList]

def postIndicationMessageFields : List MessageField :=
  [pointerOpt 112,        -- machineID
    pointerOpt 120,       -- bookmark
    packed 88 96 104,
    endOfList]

def postSocketFileFields : List MessageField :=
  [pointerOpt 96,         -- sockFilePath
    pointerOpt 104,       -- secretString
    endOfList]

def socketMaintenanceFields : List MessageField := [pointerOpt 96, endOfList]

def pamCheckUserFields : List MessageField :=
  [pointerOpt 88,         -- user
    pointerOpt 96,        -- passwd
    endOfList]

def pamCheckUserRspFields : List MessageField := [pointerOpt 104, endOfList]

def execPreexecReqFields : List MessageField :=
  [pointerOpt 104,        -- nameSpace
    pointerOpt 112,       -- className
    endOfList]

def createAgentMsgFields : List MessageField := [pointerOpt 104, endOfList]

/-! ## Declarations -/

/-- `MessageDeclaration`. -/
structure MessageDeclaration where
  fields : List MessageField
  size : Nat
  cloneRequired : Bool
deriving DecidableEq, Repr

/-- `allMessages`, indexed by the low bits of a tag. -/
def allMessages (build : Build) : List MessageDeclaration :=
  let request := requestSize build
  [⟨baseMessageFields, 0, false⟩,
    ⟨getInstanceMessageFields build, request + 40, true⟩,
    ⟨postInstanceMessageFields, 112, true⟩,
    ⟨enumerateInstancesMessageFields build, request + 96, true⟩,
    ⟨binPostResultMsgFields, 144, false⟩,
    ⟨emptyMessageFields, request, false⟩,                   -- NoOpReq
    ⟨emptyMessageFields, messageSize, false⟩,               -- NoOpRsp
    ⟨invokeMessageFields build, request + 64, true⟩,
    ⟨associatorsOfMessageFields build, request + 72, true⟩,
    ⟨referencesOfMessageFields build, request + 72, true⟩,
    ⟨subscribeRequestMessageFields build, request + 56, true⟩,
    ⟨emptyMessageFields, request, false⟩,                   -- UnsubscribeReq
    ⟨deleteInstanceMessageFields build, request + 32, true⟩,
    ⟨createInstanceMessageFields build, request + 40, true⟩,
    ⟨modifyInstanceMessageFields build, request + 40, true⟩,
    ⟨binProtocolNotificationFields, 216, false⟩,
    ⟨getClassMessageFields build, request + 16, true⟩,
    ⟨postSchemaMessageFields, 128, true⟩,
    ⟨emptyMessageFields, 104, false⟩,                       -- HttpRequestMsg
    ⟨emptyMessageFields, 104, false⟩,                       -- HttpResponseMsg
    ⟨postIndicationMessageFields, 128, true⟩,
    ⟨emptyMessageFields, messageSize, false⟩,               -- SubscribeRes
    ⟨emptyMessageFields, messageSize, false⟩,               -- CancelMsg
    ⟨emptyMessageFields, 96, false⟩,                        -- ProtocolEventConnect
    ⟨createInstanceMessageFields build, request + 40, true⟩, -- ShellCreateReq
    ⟨deleteInstanceMessageFields build, request + 32, true⟩, -- ShellDeleteReq
    ⟨invokeMessageFields build, request + 64, true⟩,        -- ShellReceiveReq
    ⟨invokeMessageFields build, request + 64, true⟩,        -- ShellSendReq
    ⟨invokeMessageFields build, request + 64, true⟩,        -- ShellSignalReq
    ⟨invokeMessageFields build, request + 64, true⟩,        -- ShellConnectReq
    ⟨invokeMessageFields build, request + 64, true⟩,        -- ShellReconnectReq
    ⟨invokeMessageFields build, request + 64, true⟩,        -- ShellDisconnectReq
    ⟨invokeMessageFields build, request + 64, true⟩,        -- ShellCommandReq
    ⟨pullMessageFields build, request + 32, true⟩,
    ⟨createAgentMsgFields, 112, true⟩,
    ⟨postSocketFileFields, 112, true⟩,
    ⟨socketMaintenanceFields, 104, true⟩,                   -- VerifySocketConn
    ⟨pamCheckUserFields, 112, true⟩,
    ⟨pamCheckUserRspFields, 112, false⟩] ++
  (if build.preexec then
    [⟨execPreexecReqFields, 120, true⟩, ⟨emptyMessageFields, 104, false⟩]
  else [])

/-- `MessageTagIndex`. -/
def messageTagIndex (tag : Nat) : Nat := tag &&& 0x0FFF

/-- `MessageTag_IsRequest`. -/
def messageTagIsRequest (tag : Nat) : Bool := tag &&& 0x1000 != 0

/-- The declaration that a tag selects. -/
def MessageDeclaration.ofTag (build : Build) (tag : Nat) : Option MessageDeclaration :=
  (allMessages build)[messageTagIndex tag]?

end Omi.Base
