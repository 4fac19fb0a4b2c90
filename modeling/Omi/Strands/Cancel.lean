import Omi.Data.Run

/-!
# Cancelation

A strand that is canceled tells the strand on its right, the rightmost strand
returns the cancelation, and it travels back to the left. Each strand runs the
`Cancel` callback of its user once; a strand in the middle also remembers that
it has passed the returning cancelation on.

The strand that cancels only schedules a method of its neighbour, so a
cancelation under way is a bit of the neighbour. Methods of one strand do not
overlap, and no strand reads the flags of another, so each method is one step.
-/

namespace Omi.Strands

universe u

/-- `STRAND_TYPE_*`. -/
inductive StrandType where
  | noInteraction
  | leftmost
  | rightmost
  | middle
  | parentLeft
  | parentRight
  | parentNoInteraction
  | entry
deriving DecidableEq, Repr

/-- `InteractionInfo`, as far as canceling reads it. -/
structure InteractionInfo where
  opened : Bool
  thisClosedOther : Bool
  /-- `userFT->Cancel` is not `NULL`. -/
  hasCancel : Bool
deriving DecidableEq

/-- The interaction can carry a cancelation. -/
def InteractionInfo.live (info : InteractionInfo) : Bool := info.opened && !info.thisClosedOther

/-- A strand of any kind. A strand in the middle has two interactions, `info` is the left one;
a parent has entries. -/
structure Strand (ε : Type u) where
  strandType : StrandType
  canceled : Bool
  leftCanceled : Bool
  info : InteractionInfo
  infoRight : InteractionInfo
  entries : List ε

/-- The structures that contain a strand. -/
inductive Kind where
  | strand
  | strandBoth
  | strandMany
  | strandEntry
deriving DecidableEq, Repr

/-- The structure in which a strand of this type was allocated. -/
def StrandType.kind : StrandType → Kind
  | .middle => .strandBoth
  | .parentLeft => .strandMany
  | .parentRight => .strandMany
  | .parentNoInteraction => .strandMany
  | .entry => .strandEntry
  | .noInteraction => .strand
  | .leftmost => .strand
  | .rightmost => .strand

/-- What a method does outside of its own flags. -/
inductive Effect (ε : Type u) where
  /-- The strand is read as part of a structure of this kind. -/
  | view (kind : Kind)
  /-- `Cancel` of the other side of `info`. -/
  | cancelOther
  /-- `Cancel` of the other side of `infoRight`. -/
  | cancelRight
  /-- `StrandMany_CancelEntry`. -/
  | cancelEntry (e : ε)
  /-- `StrandEntry_CancelParent`. -/
  | cancelParent
  /-- The `Cancel` callback of the user. -/
  | callback
deriving DecidableEq

variable {ε : Type u}

namespace Strand

/-- `_Strand_CancelPropagate`. The case of a parent on the left has no `break` and goes on
with the case of an entry. There the pointer behind the strand is taken for the parent of the
entry, and `behind` is the strand type that is found at its end. -/
def cancelPropagate (behind : StrandType) (s : Strand ε) : List (Effect ε) :=
  let entry : List (Effect ε) := .view .strandEntry ::
    if behind = .parentRight then (if s.info.hasCancel then [] else [.cancelParent])
    else if s.info.live then [.cancelOther] else []
  match s.strandType with
  | .middle => .view .strandBoth :: if s.infoRight.live then [.cancelRight] else []
  | .leftmost => if s.info.live then [.cancelOther] else []
  | .rightmost => if s.info.live then [.cancelOther] else []
  | .parentRight => if s.info.live then [.cancelOther] else []
  | .parentLeft => .view .strandMany :: (s.entries.map .cancelEntry ++ entry)
  | .entry => entry
  | .parentNoInteraction => []
  | .noInteraction => []

/-- `_StrandMethodImp_Cancel` with the user methods of one side. -/
def impCancel (info : InteractionInfo) : List (Effect ε) :=
  if info.hasCancel then [.callback] else []

/-- `Strand_Cancel`. -/
def cancel (behind : StrandType) (s : Strand ε) : Strand ε × List (Effect ε) :=
  if s.canceled then (s, [])
  else ({ s with canceled := true }, s.cancelPropagate behind ++ impCancel s.info)

/-- `_StrandMethod_Cancel`, of a strand with one interaction. -/
def methodCancel (s : Strand ε) : Strand ε × List (Effect ε) :=
  if s.canceled then (s, [])
  else
    ({ s with canceled := true },
      (if s.strandType = .rightmost ∧ s.info.live then [.cancelOther] else [])
        ++ impCancel s.info)

/-- `_StrandMethod_Left_Cancel`. -/
def methodLeftCancel (s : Strand ε) : Strand ε × List (Effect ε) :=
  if s.canceled then (s, [])
  else
    ({ s with canceled := true },
      (if s.infoRight.live then [.cancelRight] else []) ++ impCancel s.info)

/-- `_StrandMethod_Right_Cancel`. -/
def methodRightCancel (s : Strand ε) : Strand ε × List (Effect ε) :=
  let passes := s.info.live && !s.leftCanceled
  ({ s with canceled := true, leftCanceled := s.leftCanceled || passes },
    (if passes then [.cancelOther] else [])
      ++ if s.canceled then [] else impCancel s.infoRight)

end Strand

/-! ## A chain of strands -/

/-- A leftmost strand at place 0, `n` strands in the middle and a rightmost strand at place
`n + 1`, with the cancelations under way and a count of what was sent. -/
structure Chain (ε : Type u) where
  strands : Nat → Strand ε
  /-- `BitCancel_Left` of a strand in the middle, `BitCancel` of the rightmost one. -/
  fromLeft : Nat → Bool
  /-- `BitCancel_Right` of a strand in the middle, `BitCancel` of the leftmost one. -/
  fromRight : Nat → Bool
  callbacks : Nat → Nat
  sentLeft : Nat → Nat
  sentRight : Nat → Nat

/-- What happens to a chain: `Strand_Cancel` on a strand, at once or as its scheduled method,
or the method for a cancelation that has arrived. -/
inductive ChainEvent where
  | cancel (i : Nat)
  | left (i : Nat)
  | right (i : Nat)
deriving DecidableEq, Repr

namespace Chain

/-- `Cancel` of the strand on the right. -/
def tellRight (c : Chain ε) (i : Nat) : Chain ε :=
  { c with
    fromLeft := Function.update c.fromLeft (i + 1) true
    sentRight := Function.update c.sentRight i (c.sentRight i + 1) }

/-- `Cancel` of the strand on the left. -/
def tellLeft (c : Chain ε) (i : Nat) : Chain ε :=
  { c with
    fromRight := Function.update c.fromRight (i - 1) true
    sentLeft := Function.update c.sentLeft i (c.sentLeft i + 1) }

/-- An effect of a method of the strand at place `i`. The one interaction of the leftmost
strand is on its right. -/
def perform (i : Nat) (c : Chain ε) : Effect ε → Chain ε
  | .cancelRight => c.tellRight i
  | .cancelOther => if (c.strands i).strandType = .leftmost then c.tellRight i else c.tellLeft i
  | .callback => { c with callbacks := Function.update c.callbacks i (c.callbacks i + 1) }
  | .view _ => c
  | .cancelEntry _ => c
  | .cancelParent => c

/-- A method of the strand at place `i`. -/
def act (c : Chain ε) (i : Nat) (out : Strand ε × List (Effect ε)) : Chain ε :=
  out.2.foldl (perform i) { c with strands := Function.update c.strands i out.1 }

/-- One step of a chain with `n` strands in the middle. -/
def step (n : Nat) (c : Chain ε) : ChainEvent → Option (Chain ε)
  | .cancel i =>
    if i ≤ n + 1 then some (c.act i ((c.strands i).cancel .noInteraction)) else none
  | .left i =>
    if i ≤ n + 1 ∧ c.fromLeft i = true then
      some (act { c with fromLeft := Function.update c.fromLeft i false } i
        (if i = n + 1 then (c.strands i).methodCancel else (c.strands i).methodLeftCancel))
    else none
  | .right i =>
    if i ≤ n + 1 ∧ c.fromRight i = true then
      some (act { c with fromRight := Function.update c.fromRight i false } i
        (if i = 0 then (c.strands i).methodCancel else (c.strands i).methodRightCancel))
    else none

/-- A chain in which every interaction is open and no strand was canceled. -/
structure Fresh (n : Nat) (c : Chain ε) : Prop where
  leftmost : (c.strands 0).strandType = .leftmost
  middle : ∀ i, 0 < i → i ≤ n → (c.strands i).strandType = .middle
  rightmost : (c.strands (n + 1)).strandType = .rightmost
  live : ∀ i ≤ n + 1, (c.strands i).info.live = true
  liveRight : ∀ i, 0 < i → i ≤ n → (c.strands i).infoRight.live = true
  running : ∀ i ≤ n + 1, (c.strands i).canceled = false ∧ (c.strands i).leftCanceled = false
  quiet : ∀ i ≤ n + 1, c.fromLeft i = false ∧ c.fromRight i = false
  counts : ∀ i ≤ n + 1, c.callbacks i = 0 ∧ c.sentLeft i = 0 ∧ c.sentRight i = 0

end Chain

end Omi.Strands
