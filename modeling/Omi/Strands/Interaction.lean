import Omi.Data.Run

/-!
# Two strands and the interaction between them

Each side of an opened interaction posts messages to the other, acknowledges the
messages it gets, and closes once. All three only set a bit of the other strand;
a message also goes into its mailbox `stored.msg`. A strand runs the methods
whose bits are set one after the other, and the bit of a method is cleared when
the method has returned, not when it starts. When no bit is left the loop of the
strand ends, and the strand finishes if both sides have closed and no
acknowledgement is missing.

The methods of the two strands overlap freely, and what a side does in a method
is a step of its own. A strand has other methods, in which it may do the same;
they come at any time. Timers, `delayFinish` and control messages are left out.
-/

namespace Omi.Strands

universe u

/-- The methods that the other side schedules: `BitPost`, `BitAck` and `BitClose`. -/
inductive Bit where
  | post
  | ack
  | close
deriving DecidableEq, Repr

/-- The method that a strand is in. -/
inductive Running where
  | method (bit : Bit)
  | other
deriving DecidableEq, Repr

/-- One side. The last three fields are for reference: the messages that were posted, those
that were handed to the `Post` callback, and the calls of `Finish`. -/
structure Endpoint (μ : Type u) where
  thisAckPending : Bool
  otherAckPending : Bool
  thisClosedOther : Bool
  otherClosedThis : Bool
  stored : Option μ
  bits : Bit → Bool
  executing : Bool
  running : Option Running
  posted : List μ
  delivered : List μ
  finished : Nat

namespace Endpoint

variable {μ : Type u}

/-- A side of an interaction; the one that opened it may still wait for the acknowledgement. -/
def opened (thisAckPending otherAckPending : Bool) : Endpoint μ where
  thisAckPending := thisAckPending
  otherAckPending := otherAckPending
  thisClosedOther := false
  otherClosedThis := false
  stored := none
  bits := fun _ => false
  executing := false
  running := none
  posted := []
  delivered := []
  finished := 0

/-- `_Strand_Schedule`. A bit that is set stays set. -/
def schedule (s : Endpoint μ) (bit : Bit) : Endpoint μ :=
  { s with bits := Function.update s.bits bit true, executing := true }

/-- `_StrandInteraction_Post`. -/
def receivePost (s : Endpoint μ) (msg : μ) : Endpoint μ :=
  { s with stored := some msg }.schedule .post

/-- The lowest bit that is set. -/
def first (s : Endpoint μ) : Option Bit :=
  if s.bits .post then some .post
  else if s.bits .ack then some .ack
  else if s.bits .close then some .close
  else none

/-- The flags that a method sets when it starts, and the message it hands on. -/
def startMethod (s : Endpoint μ) : Bit → Endpoint μ
  | .post => { s with
      otherAckPending := true
      delivered := s.delivered ++ s.stored.toList
      running := some (.method .post) }
  | .ack => { s with thisAckPending := false, running := some (.method .ack) }
  | .close => { s with otherClosedThis := true, running := some (.method .close) }

/-- The end of a method. -/
def endMethod (s : Endpoint μ) : Running → Endpoint μ
  | .method bit => { s with bits := Function.update s.bits bit false, running := none }
  | .other => { s with running := none }

/-- `_StrandMethodImp_CheckFinished`. -/
def checkFinished (s : Endpoint μ) : Bool :=
  s.thisClosedOther && !s.thisAckPending && s.otherClosedThis && !s.otherAckPending

/-- The end of the loop. -/
def exit (s : Endpoint μ) : Endpoint μ :=
  { s with
    executing := false
    finished := if s.checkFinished then s.finished + 1 else s.finished }

end Endpoint

/-- What one side does. -/
inductive Deed (μ : Type u) where
  /-- Another method of the strand starts. -/
  | enter
  /-- The next method whose bit is set starts. -/
  | start
  | post (msg : μ)
  | ack
  | close
  /-- The method returns. -/
  | return_
  /-- The loop ends. -/
  | exit

/-- A side and the one it is connected to. -/
structure Pair (μ : Type u) where
  this : Endpoint μ
  other : Endpoint μ

namespace Pair

variable {μ : Type u}

def swap (p : Pair μ) : Pair μ := ⟨p.other, p.this⟩

/-- What a side does, by the rules of the interaction: it posts if no acknowledgement is
missing and it has not closed, it acknowledges what it got, and it closes once. It does so in
its methods, and a strand that has finished is gone. -/
def act (p : Pair μ) : Deed μ → Option (Pair μ)
  | .enter =>
    if p.this.running = none ∧ p.this.finished = 0 then
      some { p with this := { p.this with executing := true, running := some .other } }
    else none
  | .start =>
    if p.this.running = none then
      p.this.first.map fun bit => { p with this := p.this.startMethod bit }
    else none
  | .post msg =>
    if p.this.running ≠ none ∧ p.this.thisAckPending = false
        ∧ p.this.thisClosedOther = false then
      some
        { this := { p.this with
            thisAckPending := true
            posted := p.this.posted ++ [msg] }
          other := p.other.receivePost msg }
    else none
  | .ack =>
    if p.this.running ≠ none ∧ p.this.otherAckPending = true then
      some
        { this := { p.this with otherAckPending := false }
          other := p.other.schedule .ack }
    else none
  | .close =>
    if p.this.running ≠ none ∧ p.this.thisClosedOther = false then
      some
        { this := { p.this with thisClosedOther := true }
          other := p.other.schedule .close }
    else none
  | .return_ => p.this.running.map fun running => { p with this := p.this.endMethod running }
  | .exit =>
    if p.this.executing = true ∧ p.this.running = none ∧ p.this.first = none then
      some { p with this := p.this.exit }
    else none

/-- A deed of the left side (`false`) or of the right side. -/
def step (p : Pair μ) : Bool × Deed μ → Option (Pair μ)
  | (false, deed) => p.act deed
  | (true, deed) => (p.swap.act deed).map swap

end Pair

end Omi.Strands
