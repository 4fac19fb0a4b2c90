import Omi.Base.Messages
import Omi.Base.Relocation
import Omi.Data.Memory

/-!
# Restoring a received message

The receiver has the pages of a message in memory of its own and the page addresses
of the sender. It relocates the message pointer, then walks the field tables of the
tag and relocates the pointers that it finds in the message, in place. Packed
instances are unpacked from the received bytes unless the caller does without. The
model keeps a record of what has been relocated: the new address, and whether a
string or a range of bytes is expected there.
-/

namespace Omi.Base

/-- What a relocated pointer is taken to point to. -/
inductive Extent where
  | string
  | packed (size : Nat)
deriving DecidableEq, Repr

structure Relocated where
  addr : Nat
  extent : Extent
deriving DecidableEq, Repr

/-- The state of a walk, with the record of the pointers relocated so far. -/
structure Restoring where
  memory : Memory
  batch : Batch
  relocated : List Relocated

/-- The arguments that stay the same. `unpack` is `Instance_Unpack` on bytes that are left
where they are: memory and batch afterwards and the address of the instance. -/
structure RestoreEnv where
  infos : List BatchInfoItem
  skipInstanceUnpack : Bool
  unpack : Memory → Batch → Nat → Nat → Option (Memory × Batch × Nat)

/-- Why no message is returned: `MI_RESULT_INVALID_PARAMETER`, or a walk that leaves its
table because it does not meet a terminator. -/
inductive RestoreError where
  | invalidParameter
  | offTable
deriving DecidableEq, Repr

section Walk

variable (env : RestoreEnv) (msg : Nat)

/-- `Batch_FixPointer` on the pointer stored at an address. -/
def fixStored (st : Restoring) (addr : Nat) (extent : Extent) : Option Restoring :=
  match st.batch.fixPointer env.infos (st.memory.load addr 8) with
  | (true, ptr) =>
    some { st with
      memory := st.memory.store addr 8 ptr
      relocated := st.relocated ++ [⟨ptr, extent⟩] }
  | (false, _) => none

/-- What a pointer field of the message stands for: a string, but for `packedSchemaWsmanPtr`
of a `PostSchemaMsg`, which has its size in the field behind it. -/
def pointerExtent (memory : Memory) (f : MessageField) : Extent :=
  if messageTagIndex (memory.load (msg + 24) 4) = 17 ∧ f.off = 112 then
    .packed (memory.load (msg + 120) 4)
  else .string

/-- A pointer of the message. -/
def restorePointer (st : Restoring) (f : MessageField) : Option Restoring :=
  if st.memory.load (msg + f.off) 8 ≠ 0 then
    fixStored env st (msg + f.off) (pointerExtent msg st.memory f)
  else if f.type = .mftPointer then none
  else some st

/-- `_UnpackInstance` on a packed instance that has been relocated. -/
def unpackInstance (st : Restoring) (f : MessageField) (packedSize : Nat) : Option Restoring :=
  (env.unpack st.memory st.batch (st.memory.load (msg + f.offPackedPtr) 8) packedSize).map
    fun (memory, batch, instanceOut) =>
      { st with memory := memory.store (msg + f.off) 8 instanceOut, batch := batch }

/-- An instance of the message: the pointer to it is dropped, the packed one counts. -/
def restoreInstance (st : Restoring) (f : MessageField) : Option Restoring :=
  let packedSize := st.memory.load (msg + f.offPackedSize) 4
  let st := { st with memory := st.memory.store (msg + f.off) 8 0 }
  if st.memory.load (msg + f.offPackedPtr) 8 ≠ 0 then
    (fixStored env st (msg + f.offPackedPtr) (.packed packedSize)).bind fun st =>
      if env.skipInstanceUnpack then some st else unpackInstance env msg st f packedSize
  else if f.type = .mftInstance then none
  else some st

/-- The body of the loop in `_RestoreMessage`; `none` is `MI_RESULT_INVALID_PARAMETER`. -/
def restoreField (st : Restoring) (f : MessageField) : Option Restoring :=
  match f.type with
  | .mftPointerSetNull => some { st with memory := st.memory.store (msg + f.off) 8 0 }
  | .mftPointer | .mftPointerOpt => restorePointer env msg st f
  | .mftInstance | .mftInstanceOpt => restoreInstance env msg st f
  | .mftEndOfList => some st

/-- `_RestoreMessage`. -/
def restoreMessage : Restoring → List MessageField → Except RestoreError Restoring
  | _, [] => .error .offTable
  | st, f :: fields =>
    if f.type = .mftEndOfList then .ok st
    else
      match restoreField env msg st f with
      | none => .error .invalidParameter
      | some st => restoreMessage st fields

end Walk

/-- The base part of a message is fixed: its batch, which lies at `batchAddr`, and its counter. -/
def fixBase (memory : Memory) (msg batchAddr : Nat) : Memory :=
  (memory.store (msg + 16) 8 batchAddr).store (msg + 32) 8 1

/-- The fields that all requests have. -/
def restoreRequest (build : Build) (env : RestoreEnv) (msg tag : Nat) (st : Restoring) :
    Except RestoreError Restoring :=
  if messageTagIsRequest tag then restoreMessage env msg st (requestMessageFields build)
  else .ok st

/-- `__MessageFromBatch`: the address of the message and the state at the end. -/
def messageFromBatch (build : Build) (env : RestoreEnv) (memory : Memory) (batch : Batch)
    (batchAddr originalMsgPtr : Nat) : Except RestoreError (Nat × Restoring) :=
  match batch.fixPointer env.infos originalMsgPtr with
  | (false, _) => .error .invalidParameter
  | (true, msg) => do
      let st ← restoreMessage env msg ⟨fixBase memory msg batchAddr, batch, []⟩ baseMessageFields
      let tag := st.memory.load (msg + 24) 4
      match MessageDeclaration.ofTag build tag with
      | none => .error .invalidParameter
      | some declaration =>
        let st ← restoreRequest build env msg tag st
        let st ← restoreMessage env msg st declaration.fields
        return (msg, st)

end Omi.Base
