import Omi.Wsman.Attachment

/-!
# The table of enumeration contexts

The server keeps its enumeration contexts in a table of 64 slots. A context is
known to clients by a 32-bit id, which holds the number of its slot and 16
random bits. `Pull`, `Release` and `Unsubscribe` requests carry such an id; the
lookup compares it with the id of the context in the slot and looks at nothing
else.

Contexts are objects that outlive their slot, since methods scheduled on them
may run after the slot was emptied. `owner` records who sent the request that
created a context; the source has no such field.
-/

namespace Omi.Wsman

open Omi.Protocol (AuthInfo Result)

universe u

variable {α : Type u}

/-- A context with its id, its creator and the methods scheduled on its strand. -/
structure Context (α : Type u) where
  enumerationContextID : UInt32
  owner : AuthInfo
  ec : EnumerateContext α
  cancelScheduled : Bool
  unsubscribeScheduled : Bool

/-- `WSMAN_MAX_ENUM_CONTEXTS`. -/
abbrev maxEnumContexts : Nat := 64

/-- The part of `WSMAN` that holds the contexts. A slot refers to an object. -/
structure Server (α : Type u) where
  enumerateContexts : Fin maxEnumContexts → Option Nat
  enumerateContextDeleted : Fin maxEnumContexts → Bool
  numEnumerateContexts : Nat
  objects : List (Context α)

/-- What a client receives. -/
inductive Reply (α : Type u) where
  | fromContext (sent : Sent α)
  | fault (c : ConnectionData) (code : FaultCode) (text : String)
  | released (c : ConnectionData)
  | unsubscribed (c : ConnectionData)
  | failed (c : ConnectionData)

namespace Server

def new : Server α := ⟨fun _ => none, fun _ => false, 0, []⟩

/-! ## Lookup -/

/-- `_WSMAN_GetEnumContextIndex`, with the object in the slot. -/
def getEnumContextIndex (self : Server α) (enumerationContextID : UInt32) (isRelease : Bool) :
    Option (Fin maxEnumContexts × Nat) :=
  let index := (enumerationContextID &&& 0xFFFF).toNat
  if bound : index < maxEnumContexts then
    match self.enumerateContexts ⟨index, bound⟩ with
    | none => none
    | some object =>
      if (isRelease ∨ ¬self.enumerateContextDeleted ⟨index, bound⟩)
          ∧ self.objects[object]?.map (·.enumerationContextID)
              = some enumerationContextID then
        some (⟨index, bound⟩, object)
      else none
  else none

/-- An object changes. -/
def update (self : Server α) (object : Nat) (f : Context α → Context α) : Server α :=
  { self with objects := self.objects.modify object f }

/-- `_WSMAN_ReleaseEnumerateContext`. -/
def releaseEnumerateContext (self : Server α) (enumerationContextID : UInt32) : Server α :=
  match self.getEnumContextIndex enumerationContextID true with
  | none => self
  | some (index, _) =>
    { self with
      enumerateContexts := Function.update self.enumerateContexts index none
      enumerateContextDeleted := Function.update self.enumerateContextDeleted index false
      numEnumerateContexts := self.numEnumerateContexts - 1 }

/-- `_WSMAN_AllocateEnumContext`: the first empty slot is taken. -/
def allocateEnumContext (self : Server α) (allocated : Bool) (random : UInt32)
    (requestTag : RequestTag) (c : ConnectionData) : Option (Server α × Nat) :=
  if maxEnumContexts ≤ self.numEnumerateContexts then none
  else
    match (List.finRange maxEnumContexts).find? fun i => (self.enumerateContexts i).isNone with
    | none => none
    | some slot =>
      if allocated then
        some
          ({ enumerateContexts :=
              Function.update self.enumerateContexts slot (some self.objects.length)
             enumerateContextDeleted := Function.update self.enumerateContextDeleted slot false
             numEnumerateContexts := self.numEnumerateContexts + 1
             objects :=
              self.objects ++
                [{ enumerationContextID :=
                    UInt32.ofNat slot ||| ((random &&& 0xFFFF) <<< 16)
                   owner := c.authInfo
                   ec := EnumerateContext.create requestTag c
                   cancelScheduled := false
                   unsubscribeScheduled := false }] },
            self.objects.length)
      else none

/-! ## Requests -/

/-- `_ProcessEnumerateRequest` and `_ProcessSubscribeRequest`. -/
def processCreate (self : Server α) (allocated optimized : Bool) (random : UInt32)
    (requestTag : RequestTag) (c : ConnectionData) : Server α × List (Reply α) :=
  match self.allocateEnumContext allocated random requestTag c with
  | none => (self, [.failed c])
  | some (next, object) =>
    if requestTag = .subscribe ∨ optimized then (next, [])
    else
      let out := (EnumerateContext.create requestTag c).sendEnumPullResponse true c
      (next.update object fun x => { x with ec := out.1 }, out.2.map .fromContext)

/-- `_ProcessPullRequest`. -/
def processPull (self : Server α) (c : ConnectionData) (enumerationContextID : UInt32) :
    Server α × List (Reply α) :=
  match self.getEnumContextIndex enumerationContextID false with
  | none => (self, [.fault c .destinationUnreachable "Enumeration context not found"])
  | some (_, object) =>
    match self.objects[object]? with
    | none => (self, [])
    | some x =>
      let out := x.ec.attach c
      (self.update object fun x => { x with ec := out.1 }, out.2.map .fromContext)

/-- `_WSMAN_FindAndDeleteEnumContext`. -/
def findAndDeleteEnumContext (self : Server α) (enumerationContextID : UInt32) :
    Option (Server α × Nat) :=
  (self.getEnumContextIndex enumerationContextID false).map fun (index, object) =>
    ({ self with
        enumerateContextDeleted := Function.update self.enumerateContextDeleted index true },
      object)

/-- `_ProcessReleaseRequest`. -/
def processRelease (self : Server α) (c : ConnectionData) (enumerationContextID : UInt32) :
    Server α × List (Reply α) :=
  match self.findAndDeleteEnumContext enumerationContextID with
  | none => (self, [.fault c .destinationUnreachable "Enumeration context not found"])
  | some (next, object) =>
    (next.update object fun x => { x with cancelScheduled := true }, [.released c])

/-- `_ProcessUnsubscribeRequest`. The response does not depend on the lookup. -/
def processUnsubscribe (self : Server α) (c : ConnectionData) (contextID : UInt32) :
    Server α × List (Reply α) :=
  match self.findAndDeleteEnumContext contextID with
  | none => (self, [.unsubscribed c])
  | some (next, object) =>
    (next.update object fun x => { x with unsubscribeScheduled := true }, [.unsubscribed c])

/-! ## Methods of the contexts -/

/-- An operation of a context. A context that closes its right side leaves the table. -/
def run (self : Server α) (object : Nat) (x : Context α) (out : Outcome α) :
    Server α × List (Reply α) :=
  let next := self.update object fun x => { x with ec := out.1 }
  (if out.1.rightClosed ∧ ¬x.ec.rightClosed then
      next.releaseEnumerateContext x.enumerationContextID
    else next, out.2.map .fromContext)

end Server

/-- A method that runs on the strand of a context. -/
inductive Method (α : Type u) where
  | post (allocated : Bool) (m : PostInstanceMsg α)
  | result (allocated : Bool) (result : Result)
  | subscribed (allocated : Bool)
  | attached (allocated : Bool)
  | cancel
  | unsubscribeAttached

/-- What a method does, if it is scheduled. -/
def Method.apply (x : Context α) : Method α → Option (Outcome α)
  | .post allocated m => some (x.ec.processInstance allocated m)
  | .result allocated code => some (x.ec.processResult allocated code)
  | .subscribed allocated => some (x.ec.processSubscribeResponse allocated)
  | .attached allocated => x.ec.pullAttached allocated
  | .cancel => if x.cancelScheduled then some (x.ec.cancel, []) else none
  | .unsubscribeAttached =>
    if x.unsubscribeScheduled then some (x.ec.unsubscribeAttached, []) else none

/-- Requests of any users and methods of any contexts. -/
inductive ServerEvent (α : Type u) where
  | create (allocated optimized : Bool) (random : UInt32) (requestTag : RequestTag)
      (c : ConnectionData)
  | pull (c : ConnectionData) (enumerationContextID : UInt32)
  | release (c : ConnectionData) (enumerationContextID : UInt32)
  | unsubscribe (c : ConnectionData) (contextID : UInt32)
  | method (object : Nat) (method : Method α)

/-- What an event does to the server and what clients receive. -/
def Server.handle (self : Server α) : ServerEvent α → Option (Server α × List (Reply α))
  | .create allocated optimized random requestTag c =>
    some (self.processCreate allocated optimized random requestTag c)
  | .pull c id => some (self.processPull c id)
  | .release c id => some (self.processRelease c id)
  | .unsubscribe c id => some (self.processUnsubscribe c id)
  | .method object method =>
    self.objects[object]?.bind fun x =>
      (method.apply x).map fun out => self.run object x out

/-- One event of the server. -/
def Server.step (self : Server α) (e : ServerEvent α) : Option (Server α) :=
  (self.handle e).map Prod.fst

end Omi.Wsman
