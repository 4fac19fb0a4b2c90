import Omi.Data.Run

/-!
# The shared local session

`ProvMgr_GetLocalSesson` creates one application and session for all its callers, and
`ProvMgr_Destroy` closes them. An atomic variable says how far the session is. Each step below is
one access to it, or the stretch between two of them that one thread has for itself.
-/

namespace Omi.Provmgr

/-- `localSessionInitialized`: 0, 1, 2, and what `memset` leaves there. -/
inductive Initialized
  | no | inProgress | yes | wiped
  deriving DecidableEq

/-- `Atomic_CompareAndSwap`: the value before, and the one after. -/
def compareAndSwap (dest comparand newValue : Initialized) : Initialized × Initialized :=
  (dest, if dest = comparand then newValue else dest)

/-- Where a call of `ProvMgr_GetLocalSesson` is. A call that returned OK has a session, which is a
fully initialised one or not. -/
inductive Caller
  | head | swap | wait | initialising | copying | ok (full : Bool) | failed
  deriving DecidableEq

/-- Where `ProvMgr_Destroy` is. -/
inductive Destroyer
  | head | swap | wait | closing | wiping | done
  deriving DecidableEq

/-- The variable, whether application and session are open, how often they were initialised with
success and closed by `ProvMgr_Destroy`, and where every thread is. -/
structure LocalSession where
  initialized : Initialized
  live : Bool
  successes : Nat
  closes : Nat
  callers : Nat → Caller
  destroyer : Destroyer

/-- A step of a call, with the results of the two functions should it initialise, or of
`ProvMgr_Destroy`. -/
inductive SessionEvent
  | caller (t : Nat) (application session : Bool)
  | destroy

namespace LocalSession

/-- The call `t` goes on. -/
def goes (s : LocalSession) (t : Nat) (caller : Caller) : LocalSession :=
  { s with callers := fun u => if u = t then caller else s.callers u }

/-- `ProvMgr_GetLocalSesson`. A call whose wait ends goes round the loop. -/
def getLocalSession (s : LocalSession) (t : Nat) (application session : Bool) :
    Option LocalSession :=
  match s.callers t with
  | .head => some (s.goes t (if s.initialized ≠ .yes then .swap else .copying))
  | .swap =>
    let (old, new) := compareAndSwap s.initialized .no .inProgress
    some (goes { s with initialized := new } t (if old = .no then .initialising else .wait))
  | .wait => some (s.goes t (if s.initialized = .inProgress then .wait else .head))
  | .initialising =>
    if application && session then
      some (goes { s with initialized := .yes, live := true, successes := s.successes + 1 } t
        (.ok true))
    else some (goes { s with initialized := .no } t .failed)
  | .copying => some (s.goes t (.ok s.live))
  | .ok _ | .failed => none

/-- `ProvMgr_Destroy`. The swap counts as made when the value before is not 0. -/
def destroy (s : LocalSession) : Option LocalSession :=
  match s.destroyer with
  | .head => some { s with destroyer := if s.initialized ≠ .no then .swap else .wiping }
  | .swap =>
    let (old, new) := compareAndSwap s.initialized .yes .inProgress
    some { s with initialized := new, destroyer := if old ≠ .no then .closing else .wait }
  | .closing =>
    some { s with initialized := .no, live := false, closes := s.closes + 1, destroyer := .head }
  | .wait => some { s with destroyer := if s.initialized = .inProgress then .wait else .head }
  | .wiping => some { s with initialized := .wiped, destroyer := .done }
  | .done => none

def step (s : LocalSession) : SessionEvent → Option LocalSession
  | .caller t application session => s.getLocalSession t application session
  | .destroy => s.destroy

/-- One thread at a time initialises, once with success; who gets OK has a full session; what was
opened is closed once, and not during an initialisation. -/
structure Sound (s : LocalSession) : Prop where
  one : ∀ t u, s.callers t = .initialising → s.callers u = .initialising → t = u
  once : s.successes ≤ 1
  given : ∀ t full, s.callers t = .ok full → full = true
  closed : s.closes ≤ s.successes ∧ (s.destroyer = .done → s.closes = s.successes)
  apart : s.destroyer = .closing → ∀ t, s.callers t ≠ .initialising

/-- `ProvMgr_Destroy` tries the swap only while nobody initialises or copies the session, and a call
begins to initialise only before the session was closed and the structure is to be wiped. -/
def Undisturbed (s : LocalSession) : SessionEvent → Prop
  | .caller t _ _ => s.callers t = .swap → s.initialized = .no →
    s.closes = 0 ∧ s.destroyer ≠ .wiping
  | .destroy => s.destroyer = .swap →
    s.initialized ≠ .inProgress ∧ ∀ t, s.callers t ≠ .copying

/-- What the variable says about the session and the threads, as long as they are undisturbed. -/
structure Told (s : LocalSession) : Prop extends Sound s where
  initialising : ∀ t, s.callers t = .initialising → s.initialized = .inProgress ∧
    s.successes = 0 ∧ s.closes = 0 ∧ s.destroyer ≠ .wiping
  copying : ∀ t, s.callers t = .copying → s.initialized = .yes
  yes : s.initialized = .yes → s.live = true ∧ s.successes = 1 ∧ s.closes = 0
  no : s.initialized = .no → s.closes = s.successes
  wiped : s.initialized = .wiped ↔ s.destroyer = .done
  closing : s.destroyer = .closing →
    s.initialized = .inProgress ∧ s.successes = 1 ∧ s.closes = 0
  wiping : s.destroyer = .wiping → s.initialized = .no

theorem Told.step {s next : LocalSession} {event : SessionEvent} (told : s.Told)
    (undisturbed : s.Undisturbed event) (stepped : s.step event = some next) : next.Told := by
  obtain ⟨⟨one, once, given, closed, apart⟩, initialising, copying, yes, no, wiped, closing,
    wiping⟩ := told
  cases event with
  | caller t application session =>
    have first : s.callers t = .swap → s.initialized = .no →
      s.closes = 0 ∧ s.destroyer ≠ .wiping := undisturbed
    rw [LocalSession.step, getLocalSession] at stepped
    cases here : s.callers t with
    | head | swap | wait | copying =>
      rw [here] at stepped
      cases stepped
      constructor
      · constructor <;> grind [goes, compareAndSwap]
      all_goals grind [goes, compareAndSwap]
    | initialising =>
      rw [here] at stepped
      cases succeeds : application && session with
      | true | false =>
        simp only [succeeds, if_true, Bool.false_eq_true, if_false] at stepped
        cases stepped
        constructor
        · constructor <;> grind [goes]
        all_goals grind [goes]
    | ok | failed =>
      rw [here] at stepped
      cases stepped
  | destroy =>
    have quiet : s.destroyer = .swap →
      s.initialized ≠ .inProgress ∧ ∀ t, s.callers t ≠ .copying := undisturbed
    -- what the swap takes for 2 is 2
    have known : s.initialized ≠ .no → s.initialized ≠ .inProgress → s.initialized ≠ .wiped →
        s.initialized = .yes := by
      cases s.initialized <;> simp
    rw [LocalSession.step, LocalSession.destroy] at stepped
    cases here : s.destroyer with
    | head | swap | wait | closing | wiping =>
      rw [here] at stepped
      cases stepped
      constructor
      · constructor <;> grind [compareAndSwap]
      all_goals grind [compareAndSwap]
    | done =>
      rw [here] at stepped
      cases stepped

/-- Nobody has called anything yet. -/
def fresh : LocalSession := ⟨.no, false, 0, 0, fun _ => .head, .head⟩

/-- Whatever the threads do, and whichever initialisations fail. -/
theorem sound_of_undisturbed (events : List SessionEvent) (s : LocalSession)
    (undisturbed : Run.Along step Undisturbed fresh events)
    (ends : Run.run step fresh events = some s) : s.Sound := by
  have start : fresh.Told := by
    constructor
    · constructor <;> simp [fresh]
    all_goals simp [fresh]
  exact (Run.invariant_run (fun _ _ _ told here stepped => Told.step told here stepped) start
    undisturbed ends).toSound

/-- `ProvMgr_Destroy` starts while the first call initialises and the second one waits for it. The
first attempt fails, the second one succeeds, and a third call finds the session. -/
def twoAttempts : List SessionEvent :=
  [.caller 0 true false, .caller 0 true false, .caller 1 true true, .caller 1 true true, .destroy,
    .caller 0 true false, .caller 1 true true, .caller 1 true true, .caller 1 true true,
    .caller 1 true true, .caller 2 true true, .caller 2 true true, .destroy, .destroy, .destroy,
    .destroy]

theorem sound_of_undisturbed_twoAttempts :
    ∃ s, Run.run step fresh twoAttempts = some s ∧ s.Sound ∧ s.callers 0 = .failed ∧
      s.callers 1 = .ok true ∧ s.callers 2 = .ok true ∧ s.closes = 1 ∧ s.destroyer = .done := by
  refine ⟨_, rfl, sound_of_undisturbed twoAttempts _ ?_ rfl, rfl, rfl, rfl, rfl, rfl⟩
  -- the calls before `ProvMgr_Destroy`
  iterate 4
    refine ⟨fun _ _ => ⟨rfl, by decide⟩, ?_⟩
    rintro _ ⟨⟩
  refine ⟨by rintro ⟨⟩, ?_⟩
  rintro _ ⟨⟩
  -- the end of the first attempt, the second one, and the third call
  iterate 7
    refine ⟨fun _ _ => ⟨rfl, by decide⟩, ?_⟩
    rintro _ ⟨⟩
  refine ⟨fun _ => ⟨by decide, fun t => ?_⟩, ?_⟩
  · obtain _ | _ | _ | t := t
    all_goals rintro ⟨⟩
  rintro _ ⟨⟩
  iterate 3
    refine ⟨by rintro ⟨⟩, ?_⟩
    rintro _ ⟨⟩
  trivial

/-- The first call is about to initialise when `ProvMgr_Destroy` takes the value 1 for 2. -/
theorem closing_initialising :
    ∃ s, Run.run step fresh [.caller 0 true true, .caller 0 true true, .destroy, .destroy] =
      some s ∧ ¬ s.Sound :=
  ⟨_, rfl, fun sound => sound.apart rfl 0 rfl⟩

end LocalSession

end Omi.Provmgr
