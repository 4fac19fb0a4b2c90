import Omi.Data.Run

/-!
# The dispatch loop of the selector

`Selector_Run` goes through the list of handlers and calls those that have events. It saves the
successor of a handler before the call, and the callback may change the list at will. What a
callback does is a step below, and so is what the callbacks do that it causes: these are called last
by `Selector_AddHandler` and `Selector_RemoveHandler`. Where the loop is at a handler that is not in
the list, it reads memory that it does not own, and the run stops.
-/

namespace Omi.Sock

open List Function

variable {η : Type}

/-- Where `Selector_Run` is: before or in `_Select`, in `_ProcessCallbacks`, at a handler of the
loop, in its callback, or in the removal of a handler that wants no more events. -/
inductive Place (η : Type) where
  | selecting
  | processing
  | loop (p : Option η)
  | calling (p : η) (next : Option η)
  | removing (next : Option η)

/-- The handler that the loop comes to next. -/
def Place.next : Place η → Option η
  | .loop p => p
  | .calling _ next => next
  | .removing next => next
  | .selecting | .processing => none

/-- The handler whose callback runs. -/
def Place.called : Place η → Option η
  | .calling p _ => some p
  | _ => none

def Place.inLoop : Place η → Bool
  | .loop _ => true
  | _ => false

/-- A selector. The last three fields are for reference: the handlers whose last notice was
`SELECTOR_REMOVE`, and how often a handler has got `SELECTOR_ADD` and `SELECTOR_REMOVE`. -/
structure Selector (η : Type) where
  handlers : List η
  keepDispatching : Bool
  place : Place η
  removed : η → Bool
  adds : η → Nat
  removes : η → Nat

/-- A callback adds or removes a handler or wants another pass; `Selector_Run` goes on to the next
call, for which there are events or not; or a callback returns. -/
inductive SelectorEvent (η : Type) where
  | add (h : η)
  | remove (h : η)
  | wakeup
  | goesOn (events : Bool)
  | returns (more : Bool)
deriving DecidableEq

/-- `p->next`. -/
def following [DecidableEq η] (p : η) : List η → Option η
  | [] => none
  | h :: rest => if h = p then rest.head? else following p rest

namespace Selector

def empty : Selector η := ⟨[], false, .selecting, fun _ => false, fun _ => 0, fun _ => 0⟩

variable [DecidableEq η]

/-- `Selector_AddHandler`. -/
def addHandler (s : Selector η) (h : η) : Selector η :=
  if h ∈ s.handlers then s
  else
    { s with
      handlers := s.handlers ++ [h]
      removed := update s.removed h false
      adds := update s.adds h (s.adds h + 1) }

/-- `Selector_RemoveHandler`. -/
def removeHandler (s : Selector η) (h : η) : Selector η :=
  if h ∈ s.handlers then
    { s with
      handlers := s.handlers.erase h
      removed := update s.removed h true
      removes := update s.removes h (s.removes h + 1) }
  else s

def step (s : Selector η) : SelectorEvent η → Option (Selector η)
  | .add h => if s.place.inLoop then none else some (s.addHandler h)
  | .remove h => if s.place.inLoop then none else some (s.removeHandler h)
  | .wakeup => if s.place.inLoop then none else some { s with keepDispatching := true }
  | .goesOn events =>
    match s.place with
    | .selecting => some { s with keepDispatching := false, place := .processing }
    | .processing => some { s with place := .loop s.handlers.head? }
    | .loop none =>
      if s.keepDispatching then some { s with keepDispatching := false, place := .processing }
      else some { s with place := .selecting }
    | .loop (some p) =>
      if p ∈ s.handlers then
        let next := following p s.handlers
        some { s with place := if events then .calling p next else .loop next }
      else none
    | .calling _ _ => none
    | .removing _ => none
  | .returns more =>
    match s.place with
    | .calling p next =>
      if more ∨ p ∉ s.handlers then some { s with place := .loop next }
      else some { s.removeHandler p with place := .removing next }
    | .removing next => some { s with place := .loop next }
    | .selecting | .processing | .loop _ => none

/-- The handlers that `Selector_Run` reads or calls in a step. The removal after a callback that
wants no more events reads the name of the handler, whether it is still in the list or not. -/
def reads (s : Selector η) : SelectorEvent η → List η
  | .goesOn _ =>
    match s.place with
    | .selecting => s.handlers
    | .loop p => p.toList
    | _ => []
  | .returns false => s.place.called.toList
  | _ => []

/-- No handler is read or called between its removal and its next addition. -/
abbrev ReadsPresent (s : Selector η) (event : SelectorEvent η) : Prop :=
  ∀ h ∈ s.reads event, s.removed h = false

/-- A callback does not remove the handler that the loop comes to next, and one that has removed its
own handler does not return `FALSE`. -/
abbrev Considerate (s : Selector η) (event : SelectorEvent η) : Prop :=
  (∀ h ∈ s.place.next, event ≠ .remove h) ∧
    (event = .returns false → ∀ p ∈ s.place.called, p ∈ s.handlers)

/-- One `SELECTOR_REMOVE` for every `SELECTOR_ADD` of a handler that is not in the list. -/
def Paired (s : Selector η) : Prop :=
  ∀ h, s.adds h = s.removes h + if h ∈ s.handlers then 1 else 0

/-- What holds if every callback is considerate. -/
structure Sound (s : Selector η) : Prop where
  nodup : s.handlers.Nodup
  present : ∀ h ∈ s.handlers, s.removed h = false
  paired : s.Paired
  next : ∀ n ∈ s.place.next, n ∈ s.handlers
  other : ∀ p n, s.place = .calling p (some n) → n ≠ p

end Selector

theorem following_of_nodup [DecidableEq η] {p n : η} {handlers : List η} (nodup : handlers.Nodup)
    (found : following p handlers = some n) : n ∈ handlers ∧ n ≠ p := by
  induction handlers with
  | nil => cases found
  | cons h rest ih =>
    obtain ⟨fresh, nodup⟩ := nodup_cons.mp nodup
    rw [following] at found
    split at found
    case isTrue same =>
      have member := mem_of_mem_head? found
      refine ⟨mem_cons_of_mem h member, ?_⟩
      rintro rfl
      exact fresh (same ▸ member)
    case isFalse => exact ⟨mem_cons_of_mem h (ih nodup found).1, (ih nodup found).2⟩

namespace Selector

variable [DecidableEq η] {s next : Selector η} {event : SelectorEvent η}

theorem Sound.addHandler (sound : s.Sound) (h : η) : (s.addHandler h).Sound := by
  rw [Selector.addHandler]
  split
  case isTrue => exact sound
  case isFalse absent =>
    obtain ⟨nodup, present, paired, next, other⟩ := sound
    refine ⟨nodup_append.mpr ⟨nodup, nodup_singleton h, ?_⟩, ?_, ?_, ?_, other⟩
    all_goals grind [Paired]

theorem Sound.removeHandler (sound : s.Sound) {h : η} (spared : ∀ n ∈ s.place.next, n ≠ h) :
    (s.removeHandler h).Sound := by
  rw [Selector.removeHandler]
  split
  case isFalse => exact sound
  case isTrue =>
    obtain ⟨nodup, present, paired, next, other⟩ := sound
    refine ⟨nodup.erase h, ?_, ?_, ?_, other⟩
    · grind [Nodup.mem_erase_iff]
    · grind [Paired, Nodup.mem_erase_iff]
    · exact fun n saved => (mem_erase_of_ne (spared n saved)).mpr (next n saved)

theorem removeHandler_place (h : η) : (s.removeHandler h).place = s.place := by
  rw [removeHandler]
  split <;> rfl

/-- The loop comes to another place. -/
theorem Sound.goes (sound : s.Sound) {place : Place η} (keeps : Bool)
    (next : ∀ n ∈ place.next, n ∈ s.handlers)
    (other : ∀ p n, place = .calling p (some n) → n ≠ p) :
    Sound { s with place := place, keepDispatching := keeps } :=
  ⟨sound.nodup, sound.present, sound.paired, next, other⟩

theorem Sound.step (sound : s.Sound) (considerate : s.Considerate event)
    (stepped : s.step event = some next) : next.Sound := by
  have saved := sound.next
  cases event with
  | add h =>
    obtain ⟨-, ⟨⟩⟩ := Option.ite_none_left_eq_some.mp stepped
    exact sound.addHandler h
  | remove h =>
    obtain ⟨-, ⟨⟩⟩ := Option.ite_none_left_eq_some.mp stepped
    exact sound.removeHandler fun n saved same => considerate.1 n saved (same ▸ rfl)
  | wakeup =>
    obtain ⟨-, ⟨⟩⟩ := Option.ite_none_left_eq_some.mp stepped
    exact sound.goes true sound.next sound.other
  | goesOn events =>
    rw [step] at stepped
    split at stepped
    case h_1 =>
      cases stepped
      exact sound.goes _ nofun nofun
    case h_2 =>
      cases stepped
      exact sound.goes _ (fun n first => mem_of_mem_head? first) nofun
    case h_3 =>
      split at stepped
      all_goals
        cases stepped
        exact sound.goes _ nofun nofun
    case h_4 p place =>
      obtain ⟨-, ⟨⟩⟩ := Option.ite_none_right_eq_some.mp stepped
      have found : ∀ n ∈ following p s.handlers, n ∈ s.handlers ∧ n ≠ p :=
        fun n found => following_of_nodup sound.nodup found
      cases events with
      | false => exact sound.goes _ (fun n next => (found n next).1) nofun
      | true =>
        refine sound.goes _ (fun n next => (found n next).1) ?_
        intro q n place
        injection place with same next
        exact same ▸ (found n next).2
    case h_5 => cases stepped
    case h_6 => cases stepped
  | returns more =>
    rw [step] at stepped
    split at stepped
    case h_1 p next place =>
      rw [place] at saved
      split at stepped
      case isTrue =>
        cases stepped
        exact sound.goes _ saved nofun
      case isFalse =>
        cases stepped
        have removed : (s.removeHandler p).Sound := by
          refine sound.removeHandler fun n saved => ?_
          rw [place] at saved
          exact sound.other p n (saved ▸ place)
        have still := removed.next
        rw [removeHandler_place, place] at still
        exact removed.goes _ still nofun
    case h_2 next place =>
      cases stepped
      rw [place] at saved
      exact sound.goes _ saved nofun
    all_goals cases stepped

theorem Sound.readsPresent (sound : s.Sound) (considerate : s.Considerate event) :
    s.ReadsPresent event := by
  intro h read
  refine sound.present h ?_
  rw [reads.eq_def] at read
  split at read
  case h_1 =>
    split at read
    case h_1 => exact read
    case h_2 place => exact sound.next h (place ▸ Option.mem_toList.mp read)
    case h_3 => cases read
  case h_2 => exact considerate.2 rfl h (Option.mem_toList.mp read)
  case h_3 => cases read

/-- Whatever the callbacks do, if they are considerate. -/
theorem selector_run_dispatch (events : List (SelectorEvent η))
    (considerate : Run.Along step Considerate empty events) :
    Run.Along step ReadsPresent empty events ∧
      ∀ s, Run.run step empty events = some s → s.Paired := by
  have start : (empty : Selector η).Sound := ⟨nodup_nil, nofun, fun _ => rfl, nofun, nofun⟩
  refine ⟨Run.along_of_invariant (fun _ _ sound => sound.readsPresent)
    (fun _ _ _ sound => sound.step) start considerate, ?_⟩
  intro s ends
  exact (Run.invariant_run (fun _ _ _ sound => sound.step) start considerate ends).paired

/-- The first handler removes itself and stays silent about it, the second one wants no more
events. -/
theorem selector_run_dispatch_two :
    Run.Along step ReadsPresent empty
      [.add 1, .add 2, .goesOn true, .goesOn true, .goesOn true, .remove 1, .returns true,
        .goesOn true, .returns false, .returns true] :=
  (selector_run_dispatch _ (by decide)).1

/-- The first handler removes the second one, which is read next; and a handler that removes itself
and wants no more events is read once more. -/
theorem selector_run_stale :
    ¬Run.Along step ReadsPresent empty
      [.add 1, .add 2, .goesOn true, .goesOn true, .goesOn true, .remove 2, .returns true,
        .goesOn true] ∧
    ¬Run.Along step ReadsPresent empty
      [.add 1, .goesOn true, .goesOn true, .goesOn true, .remove 1, .returns false] := by
  decide

end Selector

end Omi.Sock
