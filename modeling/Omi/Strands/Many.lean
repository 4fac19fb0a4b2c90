import Omi.Strands.Scheduler

/-!
# Operations of the entries of a parent

An entry of a `StrandMany` asks its parent for operations. At most one operation
of an entry is scheduled on the parent, the others wait in `operationsPending`,
one of each kind. The parent performs the operations of the entries in its list
`pending`, and afterwards each entry is told and schedules its next one. An
operation that cannot be performed yet goes back to the list when the pass is
over, and is tried again when the parent is no longer blocked.

An entry is notified by a bit of its strand, which is cleared only after the
method of the bit has returned. The method schedules the next operation, so this
one can be performed before the method returns, and then the second notification
is cleared with the first.

What the operations and the other methods of the parent do is a parameter,
`ManyMethods`; this module is about who is performed when. The pop of an entry
and its operation are one step here, and so is the check of the state word; that
a scheduled method is not lost by them is shown for the scheduler itself.
-/

namespace Omi.Strands

open Option

/-- The methods of a parent. An operation of an entry changes the state of the parent. Another
method may also schedule the operations again; it is told whether some have to be retried. What
happens outside of the strand of the parent is the third function. A final operation is asked for
by an entry that has finished. -/
structure ManyMethods (ε ο σ α β : Type) where
  kind : ο → Nat
  final : ο → Bool
  perform : σ → ε → ο → OperationResult × σ
  parent : σ → Bool → α → Option (σ × Bool)
  outside : σ → β → Option σ

/-- A `StrandEntry`, as far as its operations go. -/
structure EntryState (ο : Type) where
  operationScheduled : Option ο
  operationsPending : List ο
  /-- In the list of the parent, but the method of the parent is not scheduled yet. -/
  announcing : Bool
  /-- The scheduled operation was performed, and what it was about is with the parent. -/
  completing : Bool
  /-- `BitEntryOperation` of the entry. -/
  notified : Bool
  /-- `_StrandMethod_Entry_EntryOperation` runs. -/
  executing : Bool
  deleted : Bool

/-- `_StrandMethod_Parent_RunPendingOperations`: not running, popping entries or pushing back
those to retry, in the first pass or in the second one after the bit was cleared. -/
inductive Pass (ε : Type) where
  | idle
  | popping (second : Bool) (retryList : List ε)
  | restoring (second : Bool) (retryList : List ε)
deriving DecidableEq

/-- A `StrandMany` with its entries. The last two fields are for reference: what each entry has
asked for, and what was performed. -/
structure Many (ε ο σ : Type) where
  parent : σ
  entries : ε → EntryState ο
  pending : List (Pending ε)
  /-- `BitEntryOperation` of the parent. -/
  scheduled : Bool
  pass : Pass ε
  pendingRetry : Bool
  requested : ε → List ο
  performed : List (ε × ο)

/-- What can happen. -/
inductive ManyEvent (ε ο α β : Type) where
  /-- An entry asks for an operation. -/
  | request (e : ε) (op : ο)
  /-- The end of `_StrandEntry_ScheduleParent`. -/
  | announce (e : ε)
  /-- `_StrandMethod_Entry_EntryOperation` does its work. -/
  | complete (e : ε)
  /-- It returns, and `_Strand_ExecuteLoop` clears its bit. -/
  | returns (e : ε)
  /-- The method of the parent starts. -/
  | start
  | pop
  | restore
  /-- Another method of the parent. -/
  | parent (a : α)
  | outside (b : β)

variable {ε ο σ α β : Type}

namespace EntryState

/-- The operations that are not performed yet. -/
def outstanding (s : EntryState ο) : List ο :=
  (if s.completing then [] else s.operationScheduled.toList) ++ s.operationsPending

/-- One more pending operation, in the order of the bits. -/
def insertPending (kind : ο → Nat) (op : ο) : List ο → List ο
  | [] => [op]
  | next :: rest => if kind op < kind next then op :: next :: rest
      else next :: insertPending kind op rest

end EntryState

namespace Many

variable [DecidableEq ε]

/-- A parent with entries that have not asked for anything. -/
def init (parent : σ) : Many ε ο σ where
  parent := parent
  entries := fun _ => ⟨none, [], false, false, false, false, false⟩
  pending := []
  scheduled := false
  pass := .idle
  pendingRetry := false
  requested := fun _ => []
  performed := []

/-- A change of one entry. -/
def setEntry (s : Many ε ο σ) (e : ε) (entry : EntryState ο) : Many ε ο σ :=
  { s with entries := Function.update s.entries e entry }

/-- The entry is pushed on the list of its parent, for the given operation. -/
def push (s : Many ε ο σ) (e : ε) (op : ο) : Many ε ο σ :=
  { s.setEntry e { s.entries e with operationScheduled := some op, announcing := true } with
    pending := ⟨e, true⟩ :: s.pending }

/-- `_StrandEntry_ScheduleParent`, up to the scheduling of the parent. An operation whose kind
is outstanding must not be asked for again, and an entry finishes when it has no operation
left (`_StrandMethod_Entry_CheckFinished`). -/
def request (m : ManyMethods ε ο σ α β) (s : Many ε ο σ) (e : ε) (op : ο) :
    Option (Many ε ο σ) :=
  let entry := s.entries e
  if entry.deleted = false ∧ entry.announcing = false
      ∧ (∀ other ∈ entry.outstanding, m.kind other ≠ m.kind op ∧ m.final other = false)
      ∧ (m.final op = true → entry.operationScheduled = none) then
    let asked := { s with requested := Function.update s.requested e (s.requested e ++ [op]) }
    if entry.operationScheduled.isNone then some (asked.push e op)
    else
      some (asked.setEntry e { entry with
        operationsPending := EntryState.insertPending m.kind op entry.operationsPending })
  else none

/-- `_StrandMethod_Entry_EntryOperation`, which the strand of the entry calls when the bit is
set and no other method runs. -/
def complete (s : Many ε ο σ) (e : ε) : Option (Many ε ο σ) :=
  let entry := s.entries e
  if entry.notified = true ∧ entry.announcing = false ∧ entry.executing = false then
    match entry.operationsPending with
    | [] =>
      some (s.setEntry e { entry with
        operationScheduled := none, completing := false, executing := true })
    | op :: rest =>
      some ((s.setEntry e { entry with
        completing := false, executing := true, operationsPending := rest }).push e op)
  else none

/-- `_DisableMethodBit` after the method has returned. If the entry was notified again in the
meantime, this is forgotten. -/
def returns (s : Many ε ο σ) (e : ε) : Option (Many ε ο σ) :=
  let entry := s.entries e
  if entry.executing = true ∧ entry.announcing = false then
    some (s.setEntry e { entry with notified := false, executing := false })
  else none

/-- An operation of an entry that was popped. -/
def operate (m : ManyMethods ε ο σ α β) (s : Many ε ο σ) (second : Bool) (retryList : List ε)
    (e : ε) (op : ο) : Many ε ο σ :=
  let out := m.perform s.parent e op
  let next := { s with parent := out.2 }
  match out.1 with
  | .retry => { next with pendingRetry := true, pass := .popping second (e :: retryList) }
  | .deleted =>
    { next.setEntry e { s.entries e with operationScheduled := none, deleted := true } with
      performed := s.performed ++ [(e, op)] }
  | .continue =>
    { next.setEntry e { s.entries e with completing := true, notified := true } with
      performed := s.performed ++ [(e, op)] }

/-- One turn of the first loop of a pass. -/
def pop (m : ManyMethods ε ο σ α β) (s : Many ε ο σ) : Option (Many ε ο σ) :=
  match s.pass with
  | .popping second retryList =>
    match s.pending with
    | [] => some { s with pass := .restoring second retryList }
    | p :: rest =>
      (s.entries p.entry).operationScheduled.map
        (operate m { s with pending := rest } second retryList p.entry)
  | .idle => none
  | .restoring _ _ => none

/-- One turn of the second loop. After the first pass the bit is cleared and the second pass
begins. -/
def restore (s : Many ε ο σ) : Option (Many ε ο σ) :=
  match s.pass with
  | .restoring second (e :: retryList) =>
    some { s with pending := ⟨e, false⟩ :: s.pending, pass := .restoring second retryList }
  | .restoring false [] =>
    some { s with scheduled := false, pendingRetry := false, pass := .popping true [] }
  | .restoring true [] => some { s with pass := .idle }
  | .idle => none
  | .popping _ _ => none

/-- The methods of the parent exclude each other. -/
def step (m : ManyMethods ε ο σ α β) (s : Many ε ο σ) : ManyEvent ε ο α β → Option (Many ε ο σ)
  | .request e op => s.request m e op
  | .announce e =>
    if (s.entries e).announcing then
      some { s.setEntry e { s.entries e with announcing := false } with scheduled := true }
    else none
  | .complete e => s.complete e
  | .returns e => s.returns e
  | .start =>
    if s.pass = .idle ∧ s.scheduled = true then
      some { s with pendingRetry := false, pass := .popping false [] }
    else none
  | .pop => s.pop m
  | .restore => s.restore
  | .parent a =>
    if s.pass = .idle then
      (m.parent s.parent s.pendingRetry a).map fun out =>
        { s with parent := out.1, scheduled := s.scheduled || out.2 }
    else none
  | .outside b => (m.outside s.parent b).map fun parent => { s with parent := parent }

/-- Nothing is forgotten: when the method of an entry returns, the operation that it has
scheduled was not performed yet. -/
def hears (s : Many ε ο σ) : ManyEvent ε ο α β → Bool
  | .returns e => !(s.entries e).completing
  | _ => true

/-! ## What a step can do -/

/-- The state in which it is recorded what an entry asks for. -/
def asked (s : Many ε ο σ) (e : ε) (op : ο) : Many ε ο σ :=
  { s with requested := Function.update s.requested e (s.requested e ++ [op]) }

/-- The state in which the first entry of the list was popped and its operation has run. -/
def popped (m : ManyMethods ε ο σ α β) (s : Many ε ο σ) (e : ε) (op : ο)
    (rest : List (Pending ε)) : Many ε ο σ :=
  { s with parent := (m.perform s.parent e op).2, pending := rest }

/-- What an event leads to, by what it finds, where no notification is forgotten. -/
inductive Taken (m : ManyMethods ε ο σ α β) (s : Many ε ο σ) :
    ManyEvent ε ο α β → Many ε ο σ → Prop where
  | asksFirst (e : ε) (op : ο) (alive : (s.entries e).deleted = false)
      (none : (s.entries e).operationScheduled = none) :
      Taken m s (.request e op) ((s.asked e op).push e op)
  | asksNext (e : ε) (op : ο) (alive : (s.entries e).deleted = false)
      (some : (s.entries e).operationScheduled ≠ none) (new : m.final op = false)
      (others : ∀ other ∈ (s.entries e).outstanding, m.final other = false) :
      Taken m s (.request e op) ((s.asked e op).setEntry e { s.entries e with
        operationsPending :=
          EntryState.insertPending m.kind op (s.entries e).operationsPending })
  | announces (e : ε) :
      Taken m s (.announce e)
        { s.setEntry e { s.entries e with announcing := false } with scheduled := true }
  | completesLast (e : ε) (notified : (s.entries e).notified = true)
      (returned : (s.entries e).executing = false)
      (empty : (s.entries e).operationsPending = []) :
      Taken m s (.complete e) (s.setEntry e
        { s.entries e with operationScheduled := none, completing := false, executing := true })
  | completesNext (e : ε) (op : ο) (rest : List ο) (notified : (s.entries e).notified = true)
      (returned : (s.entries e).executing = false)
      (pending : (s.entries e).operationsPending = op :: rest) :
      Taken m s (.complete e) ((s.setEntry e { s.entries e with
        completing := false, executing := true, operationsPending := rest }).push e op)
  | returns (e : ε) (heard : (s.entries e).completing = false) :
      Taken m s (.returns e)
        (s.setEntry e { s.entries e with notified := false, executing := false })
  | starts (idle : s.pass = .idle) (scheduled : s.scheduled = true) :
      Taken m s .start { s with pendingRetry := false, pass := .popping false [] }
  | empties (second : Bool) (retryList : List ε) (pass : s.pass = .popping second retryList)
      (empty : s.pending = []) : Taken m s .pop { s with pass := .restoring second retryList }
  | retries (second : Bool) (retryList : List ε) (pass : s.pass = .popping second retryList)
      (p : Pending ε) (rest : List (Pending ε)) (pending : s.pending = p :: rest) (op : ο)
      (scheduled : (s.entries p.entry).operationScheduled = some op)
      (retry : (m.perform s.parent p.entry op).1 = .retry) :
      Taken m s .pop { s.popped m p.entry op rest with
        pendingRetry := true, pass := .popping second (p.entry :: retryList) }
  | deletes (second : Bool) (retryList : List ε) (pass : s.pass = .popping second retryList)
      (p : Pending ε) (rest : List (Pending ε)) (pending : s.pending = p :: rest) (op : ο)
      (scheduled : (s.entries p.entry).operationScheduled = some op)
      (deleted : (m.perform s.parent p.entry op).1 = .deleted) :
      Taken m s .pop { (s.popped m p.entry op rest).setEntry p.entry
          { s.entries p.entry with operationScheduled := none, deleted := true } with
        performed := s.performed ++ [(p.entry, op)] }
  | continues (second : Bool) (retryList : List ε) (pass : s.pass = .popping second retryList)
      (p : Pending ε) (rest : List (Pending ε)) (pending : s.pending = p :: rest) (op : ο)
      (scheduled : (s.entries p.entry).operationScheduled = some op)
      (done : (m.perform s.parent p.entry op).1 = .continue) :
      Taken m s .pop { (s.popped m p.entry op rest).setEntry p.entry
          { s.entries p.entry with completing := true, notified := true } with
        performed := s.performed ++ [(p.entry, op)] }
  | restores (second : Bool) (e : ε) (retryList : List ε)
      (pass : s.pass = .restoring second (e :: retryList)) :
      Taken m s .restore
        { s with pending := ⟨e, false⟩ :: s.pending, pass := .restoring second retryList }
  | passes (pass : s.pass = .restoring false []) :
      Taken m s .restore
        { s with scheduled := false, pendingRetry := false, pass := .popping true [] }
  | ends (pass : s.pass = .restoring true []) : Taken m s .restore { s with pass := .idle }
  | parent (a : α) (idle : s.pass = .idle) (out : σ × Bool)
      (acted : m.parent s.parent s.pendingRetry a = some out) :
      Taken m s (.parent a) { s with parent := out.1, scheduled := s.scheduled || out.2 }
  | outside (b : β) (parent : σ) (acted : m.outside s.parent b = some parent) :
      Taken m s (.outside b) { s with parent := parent }

section

variable {m : ManyMethods ε ο σ α β} {s next : Many ε ο σ}

theorem taken_request {e : ε} {op : ο} (requested : s.request m e op = some next) :
    Taken m s (.request e op) next := by
  rw [request] at requested
  split at requested
  case isFalse => cases requested
  case isTrue guard =>
    obtain ⟨alive, -, others, last⟩ := guard
    split at requested
    case isTrue none =>
      rw [isNone_iff_eq_none] at none
      cases requested
      exact .asksFirst e op alive none
    case isFalse some =>
      rw [isNone_iff_eq_none] at some
      cases requested
      refine .asksNext e op alive some ?_ fun other mem => (others other mem).2
      rw [← Bool.not_eq_true]
      exact fun isFinal => some (last isFinal)

theorem taken_complete {e : ε} (completed : s.complete e = some next) :
    Taken m s (.complete e) next := by
  rw [complete] at completed
  split at completed
  case isFalse => cases completed
  case isTrue guard =>
    split at completed
    case h_1 empty =>
      cases completed
      exact .completesLast e guard.1 guard.2.2 empty
    case h_2 op rest pending =>
      cases completed
      exact .completesNext e op rest guard.1 guard.2.2 pending

theorem taken_pop (pops : s.pop m = some next) : Taken m s .pop next := by
  rw [pop] at pops
  split at pops
  case h_2 => cases pops
  case h_3 => cases pops
  case h_1 second retryList pass =>
    split at pops
    case h_1 empty =>
      cases pops
      exact .empties second retryList pass empty
    case h_2 p rest pending =>
      rw [map_eq_some_iff] at pops
      obtain ⟨op, scheduled, rfl⟩ := pops
      rw [operate]
      split
      case h_1 retry => exact .retries second retryList pass p rest pending op scheduled retry
      case h_2 deleted => exact .deletes second retryList pass p rest pending op scheduled deleted
      case h_3 done => exact .continues second retryList pass p rest pending op scheduled done

theorem taken_restore (restored : s.restore = some next) : Taken m s .restore next := by
  rw [restore] at restored
  split at restored
  case h_1 second e retryList pass =>
    cases restored
    exact .restores second e retryList pass
  case h_2 pass =>
    cases restored
    exact .passes pass
  case h_3 pass =>
    cases restored
    exact .ends pass
  case h_4 => cases restored
  case h_5 => cases restored

theorem taken_returns {e : ε} (heard : (s.entries e).completing = false)
    (returned : s.returns e = some next) : Taken m s (.returns e) next := by
  rw [Many.returns, ite_none_right_eq_some] at returned
  cases returned.2
  exact .returns e heard

/-- A step does one of these. -/
theorem taken_of_step {event : ManyEvent ε ο α β} (heard : s.hears event = true)
    (stepped : s.step m event = some next) : Taken m s event next := by
  cases event with
  | request e op => exact taken_request stepped
  | complete e => exact taken_complete stepped
  | returns e => exact taken_returns (Bool.not_eq_true' _ ▸ heard) stepped
  | pop => exact taken_pop stepped
  | restore => exact taken_restore stepped
  | announce e =>
    rw [step, ite_none_right_eq_some] at stepped
    cases stepped.2
    exact .announces e
  | start =>
    rw [step, ite_none_right_eq_some] at stepped
    cases stepped.2
    exact .starts stepped.1.1 stepped.1.2
  | parent a =>
    rw [step, ite_none_right_eq_some, map_eq_some_iff] at stepped
    obtain ⟨idle, out, acted, rfl⟩ := stepped
    exact .parent a idle out acted
  | outside b =>
    rw [step, map_eq_some_iff] at stepped
    obtain ⟨parent, acted, rfl⟩ := stepped
    exact .outside b parent acted

end

end Many

end Omi.Strands
