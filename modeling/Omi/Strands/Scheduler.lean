import Omi.Data.Run

/-!
# The strand scheduler

Methods of a strand are scheduled by setting bits of one word, `stateScheduled`.
The thread that finds the executing bit clear sets it and executes the methods
that are scheduled, lowest bit first, until it can swap the word from the
executing bit alone to zero. Everyone else only sets a bit and returns.

The strand of a `StrandMany` has a list of entries that wait for an operation.
An entry is pushed on the list before the method `EntryOperation` is scheduled;
the method pops entries until the list is empty and runs a second time after its
bit has been cleared, because a bit that is already set cannot be set again.

Each access to `stateScheduled` and to the list is one step, and the steps of
all calls interleave freely. A call that a method makes is a call of its own
here; that the method waits for it only removes interleavings. What methods do
besides scheduling is left out, and so are their results: an entry operation may
finish, delete the entry or ask for a retry. A method may leave the strand
(`Strand_Leave`), which no entry operation does.
-/

namespace Omi.Strands

universe u

/-- The word `stateScheduled`. -/
abbrev Word := BitVec 64

/-- A method of a strand by its number; its bit is one higher, after `BitExecuting`. -/
abbrev Method := Fin 63

/-- `BitExecuting`. -/
def bitExecuting : Word := BitVec.twoPow 64 0

/-- The bit of a method. -/
def methodBit (m : Method) : Word := BitVec.twoPow 64 (m.val + 1)

/-- `BitTimer`, which is 0x4. -/
def timer : Method := 1

/-- `BitEntryOperation`, which is 0x4000. -/
def entryOperation : Method := 13

/-- The executing bit of a word. -/
def Word.executing (w : Word) : Bool := w.getLsbD 0

/-- The bit of a method in a word. -/
def Word.scheduled (w : Word) (m : Method) : Bool := w.getLsbD (m.val + 1)

/-- The method that `GetFirstSetLSB` finds when the executing bit is masked. -/
def Word.first (w : Word) : Option Method := (List.finRange 63).find? w.scheduled

/-- An entry in the list `pending`. It is fresh until it has been popped once after its
push. -/
structure Pending (ε : Type u) where
  entry : ε
  fresh : Bool
deriving DecidableEq

/-- The result of an entry operation. -/
inductive OperationResult where
  | retry
  | deleted
  | continue
deriving DecidableEq, Repr

/-- Where a call of `_Strand_ScheduleImp` or `_StrandEntry_ScheduleParent` stands. -/
inductive Call (ε : Type u) where
  /-- Before `SList_PushAtomic` of `_StrandEntry_ScheduleParent`. -/
  | pushing (e : ε)
  /-- Before `ReadWithFence`. -/
  | reading (m : Method)
  /-- Before the swap that sets the bit. -/
  | swapping (m : Method) (initialState : Word)
  /-- At the head of `_Strand_ExecuteLoop`. -/
  | checking (state : Word)
  /-- In a method. -/
  | running (m : Method)
  /-- In `_StrandMethod_Parent_RunPendingOperations`, before a pop. In the second pass the
  loop keeps the word that it read when it cleared the bit. -/
  | operations (after : Option Word) (retryList : List ε)
  /-- The same, while the retry list is pushed back. -/
  | restoring (after : Option Word) (retryList : List ε)
  /-- Before the swap to zero. -/
  | stopping (state : Word)
  | returned
deriving DecidableEq

/-- A strand with the calls that schedule its methods. The counters are for reference: how
often a bit was set by a call, how often it was set already, and how often the method was
started. -/
structure Scheduler (ε : Type u) where
  stateScheduled : Word
  pending : List (Pending ε)
  calls : List (Call ε)
  requested : Method → Nat
  merged : Method → Nat
  executed : Method → Nat

/-- What can happen: a new call, a step of a call (with the result of the operation, if it
runs one), or a method that leaves the strand. -/
inductive Action (ε : Type u) where
  | schedule (m : Method)
  | scheduleParent (e : ε)
  | step (i : Nat) (result : OperationResult)
  | leave (i : Nat)

variable {ε : Type u}

namespace Scheduler

def init : Scheduler ε where
  stateScheduled := 0
  pending := []
  calls := []
  requested := fun _ => 0
  merged := fun _ => 0
  executed := fun _ => 0

/-- One more in a counter. -/
def count (counter : Method → Nat) (m : Method) : Method → Nat :=
  Function.update counter m (counter m + 1)

/-- The call goes on. -/
def proceed (s : Scheduler ε) (i : Nat) (call : Call ε) : Scheduler ε :=
  { s with calls := s.calls.set i call }

/-- The swap of `_Strand_ScheduleImp`. -/
def swap (s : Scheduler ε) (i : Nat) (m : Method) (initialState : Word) : Scheduler ε :=
  if s.stateScheduled = initialState then
    let state := initialState ||| methodBit m ||| bitExecuting
    { s with
      stateScheduled := state
      requested := count s.requested m
      merged := if initialState.scheduled m then count s.merged m else s.merged
      calls := s.calls.set i
        (if initialState.executing then .returned else .checking state) }
  else s.proceed i (.swapping m s.stateScheduled)

/-- The head of the loop. The method of a parent for entry operations runs the pending
operations. -/
def check (parent : Bool) (s : Scheduler ε) (i : Nat) (state : Word) : Scheduler ε :=
  match state.first with
  | none => s.proceed i (.stopping state)
  | some m =>
    { s with
      executed := count s.executed m
      calls := s.calls.set i
        (if parent ∧ m = entryOperation then .operations none [] else .running m) }

/-- `_DisableMethodBit`, and how the loop goes on with the word that is left. -/
def disable (s : Scheduler ε) (i : Nat) (m : Method) (next : Word → Call ε) : Scheduler ε :=
  let state := s.stateScheduled &&& ~~~methodBit m
  { s with stateScheduled := state, calls := s.calls.set i (next state) }

/-- One pop of `_StrandMethod_Parent_RunPendingOperations`. -/
def pop (s : Scheduler ε) (i : Nat) (after : Option Word) (retryList : List ε)
    (result : OperationResult) : Scheduler ε :=
  match s.pending with
  | [] => s.proceed i (.restoring after retryList)
  | p :: rest =>
    { s with
      pending := rest
      calls := s.calls.set i (.operations after
        (match result with
        | .retry => p.entry :: retryList
        | .deleted => retryList
        | .continue => retryList)) }

/-- The end of `_StrandMethod_Parent_RunPendingOperations`. After the first pass the bit is
cleared and the second pass begins, after the second pass the loop goes on. -/
def restore (s : Scheduler ε) (i : Nat) (after : Option Word) (retryList : List ε) :
    Scheduler ε :=
  match retryList with
  | e :: rest =>
    { s with
      pending := ⟨e, false⟩ :: s.pending
      calls := s.calls.set i (.restoring after rest) }
  | [] =>
    match after with
    | none => s.disable i entryOperation fun state => .operations (some state) []
    | some state => s.proceed i (.checking state)

/-- The swap to zero at the end of the loop. -/
def stop (s : Scheduler ε) (i : Nat) (state : Word) : Scheduler ε :=
  if s.stateScheduled = state then
    { s with stateScheduled := 0, calls := s.calls.set i .returned }
  else s.proceed i (.checking s.stateScheduled)

/-- The next step of a call. -/
def advance (parent : Bool) (s : Scheduler ε) (i : Nat) (result : OperationResult) :
    Call ε → Option (Scheduler ε)
  | .pushing e =>
    some { s with
      pending := ⟨e, true⟩ :: s.pending
      calls := s.calls.set i (.reading entryOperation) }
  | .reading m => some (s.proceed i (.swapping m s.stateScheduled))
  | .swapping m initialState => some (s.swap i m initialState)
  | .checking state => some (s.check parent i state)
  | .running m => some (s.disable i m .checking)
  | .operations after retryList => some (s.pop i after retryList result)
  | .restoring after retryList => some (s.restore i after retryList)
  | .stopping state => some (s.stop i state)
  | .returned => none

/-- Only a parent has entries that wait. `Strand_Leave` clears the bit and executes the loop
in the place of the one around the method, which returns without touching the strand. -/
def step (parent : Bool) (s : Scheduler ε) : Action ε → Option (Scheduler ε)
  | .schedule m => some { s with calls := s.calls ++ [.reading m] }
  | .scheduleParent e =>
    if parent then some { s with calls := s.calls ++ [.pushing e] } else none
  | .step i result => s.calls[i]? >>= s.advance parent i result
  | .leave i =>
    match s.calls[i]? with
    | some (.running m) => some (s.disable i m .checking)
    | _ => none

end Scheduler

end Omi.Strands
