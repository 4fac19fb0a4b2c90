import Omi.Data.Run

/-!
# Initialisation by the first caller

Of the threads that call `Once_Invoke` on one object, one runs the worker and the others wait for
it. If the worker fails, they race for the next attempt. A step below is one access to the object,
or the stretch of a call between two of them. `CondLock_Wait` blocks only while the object has the
value that is waited on, may return early, and is ended by `CondLock_Broadcast`.
-/

namespace Omi.Pal

/-- `value` of a `Once`: the two reserved values, or what a worker has produced. -/
inductive OnceState
  | notInvokedYet | invoking | value (v : Nat)
  deriving DecidableEq

/-- Where a call is: at the read of `Once_Invoke`, at the swap, in the worker and then behind it with
its outcome, at the broadcast, at the read of the loop, at the start of `CondLock_Wait` or in it. -/
inductive Invoker
  | head | start | working (outcome : Option (Int × Nat)) | broadcasting (result : Int)
  | loop | entering | waiting | returned (code : Int)
  deriving DecidableEq

/-- The object and where every call is. The other fields are for reference: the last call that won
the swap, the results of the workers that the calls have run, and the values of those that
succeeded. -/
structure Once where
  state : OnceState
  invokers : Nat → Invoker
  runner : Nat
  ran : Nat → Option Int
  produced : List Nat

/-- A step of a call, with the outcome of the worker should it run, or an early return of
`CondLock_Wait`. -/
inductive OnceEvent
  | call (t : Nat) (result : Int) (v : Nat)
  | wake (t : Nat)

namespace Once

/-- The call `t` goes on. -/
def goes (s : Once) (t : Nat) (invoker : Invoker) : Once :=
  { s with invokers := fun u => if u = t then invoker else s.invokers u }

/-- `CondLock_Broadcast`. -/
def broadcast (s : Once) : Once :=
  { s with invokers := fun u => if s.invokers u = .waiting then .loop else s.invokers u }

/-- `Once_Invoke` and `__Once_Invoke`. -/
def invoke (s : Once) (t : Nat) (result : Int) (v : Nat) : Option Once :=
  match s.invokers t, s.state with
  | .head, .value _ => some (s.goes t (.returned 0))
  | .head, _ => some (s.goes t .start)
  | .start, .notInvokedYet =>
    some (goes { s with state := .invoking, runner := t } t (.working none))
  | .start, _ => some (s.goes t .loop)
  | .working none, _ =>
    some (goes { s with
      ran := fun u => if u = t then some result else s.ran u
      produced := if result = 0 then s.produced ++ [v] else s.produced } t
        (.working (some (result, v))))
  | .working (some (result, v)), _ =>
    some (goes { s with state := if result = 0 then .value v else .notInvokedYet } t
      (.broadcasting result))
  | .broadcasting result, _ => some (s.broadcast.goes t (.returned result))
  | .loop, .invoking => some (s.goes t .entering)
  | .loop, .notInvokedYet => some (s.goes t .start)
  | .loop, .value _ => some (s.goes t (.returned 0))
  | .entering, .invoking => some (s.goes t .waiting)
  | .entering, _ => some (s.goes t .loop)
  | .waiting, _ | .returned _, _ => none

def step (s : Once) : OnceEvent → Option Once
  | .call t result v => s.invoke t result v
  | .wake t => if s.invokers t = .waiting then some (s.goes t .loop) else none

/-- One call at a time runs the worker, which succeeds at most once; who returns 0 finds the value of
that run stored; who has run the worker returns its result; and who is blocked waits for the last
call that won the swap, which did not return. -/
structure Sound (s : Once) : Prop where
  one : ∀ t u o p, s.invokers t = .working o → s.invokers u = .working p → t = u
  once : s.produced.length ≤ 1
  zero : ∀ t, s.invokers t = .returned 0 → ∃ v, s.state = .value v ∧ s.produced = [v]
  result : ∀ t code, s.invokers t = .returned code → s.ran t = none ∨ s.ran t = some code
  blocked : ∀ t, s.invokers t = .waiting → (∃ o, s.invokers s.runner = .working o) ∨
    ∃ result, s.invokers s.runner = .broadcasting result

/-- What the value of the object says about the calls. -/
structure Told (s : Once) : Prop extends Sound s where
  works : ∀ t o, s.invokers t = .working o → t = s.runner ∧ s.state = .invoking
  invoking : s.state = .invoking → ∃ o, s.invokers s.runner = .working o
  idle : s.state = .notInvokedYet → s.produced = []
  working : s.invokers s.runner = .working none → s.produced = []
  value : ∀ v, s.state = .value v → s.produced = [v]
  behind : ∀ t result v, s.invokers t = .working (some (result, v)) →
    s.ran t = some result ∧ s.produced = if result = 0 then [v] else []
  broadcasting : ∀ t result, s.invokers t = .broadcasting result →
    s.ran t = some result ∧ (result = 0 → ∃ v, s.state = .value v)
  early : ∀ t, s.invokers t = .head ∨ s.invokers t = .start ∨ s.invokers t = .working none ∨
    s.invokers t = .loop ∨ s.invokers t = .entering ∨ s.invokers t = .waiting → s.ran t = none

section

variable {s : Once} {t : Nat} (told : s.Told)
include told

/-- A call that has not run the worker goes on without touching the object. -/
theorem Told.goes {place : Invoker}
    (outside : s.invokers t = .head ∨ s.invokers t = .start ∨ s.invokers t = .loop ∨
      s.invokers t = .entering ∨ s.invokers t = .waiting)
    (after : place = .start ∨ place = .loop ∨ place = .entering ∨
      place = .waiting ∧ s.state = .invoking ∨ place = .returned 0 ∧ ∃ v, s.state = .value v) :
    (s.goes t place).Told := by
  obtain ⟨⟨one, once, zero, result, blocked⟩, works, invoking, idle, working, value, behind,
    broadcasting, early⟩ := told
  rw [Once.goes]
  constructor
  · constructor <;> grind
  all_goals grind

theorem Told.swap (here : s.invokers t = .start) (free : s.state = .notInvokedYet) :
    (Once.goes { s with state := .invoking, runner := t } t (.working none)).Told := by
  obtain ⟨⟨one, once, zero, result, blocked⟩, works, invoking, idle, working, value, behind,
    broadcasting, early⟩ := told
  rw [Once.goes]
  constructor
  · constructor <;> grind
  all_goals grind

/-- The worker has returned, or its outcome is stored. -/
theorem Told.work {outcome : Option (Int × Nat)} (here : s.invokers t = .working outcome)
    {result : Int} {v : Nat} {next : Once} (stepped : s.invoke t result v = some next) :
    next.Told := by
  obtain ⟨⟨one, once, zero, result, blocked⟩, works, invoking, idle, working, value, behind,
    broadcasting, early⟩ := told
  rw [invoke.eq_def, here] at stepped
  cases outcome with
  | none | some outcome =>
    cases stepped
    rw [Once.goes]
    constructor
    · constructor <;> grind
    all_goals grind

theorem Told.broadcast {result : Int} (here : s.invokers t = .broadcasting result) :
    (s.broadcast.goes t (.returned result)).Told := by
  obtain ⟨⟨one, once, zero, result, blocked⟩, works, invoking, idle, working, value, behind,
    broadcasting, early⟩ := told
  rw [Once.goes, Once.broadcast]
  constructor
  · constructor <;> grind
  all_goals grind

theorem Told.step {next : Once} {event : OnceEvent} (stepped : s.step event = some next) :
    next.Told := by
  cases event with
  | wake t =>
    rw [Once.step, Option.ite_none_right_eq_some] at stepped
    cases stepped.2
    exact told.goes (by simp [stepped.1]) (by simp)
  | call t result v =>
    rw [Once.step, invoke.eq_def] at stepped
    cases here : s.invokers t with
    | head | loop | entering =>
      cases state : s.state with
      | notInvokedYet | invoking | value =>
        rw [here, state] at stepped
        cases stepped
        exact told.goes (by simp [here]) (by simp [state])
    | start =>
      cases state : s.state with
      | notInvokedYet =>
        rw [here, state] at stepped
        cases stepped
        exact told.swap here state
      | invoking | value =>
        rw [here, state] at stepped
        cases stepped
        exact told.goes (by simp [here]) (by simp)
    | working outcome =>
      rw [← invoke.eq_def] at stepped
      exact told.work here stepped
    | broadcasting result =>
      rw [here] at stepped
      cases stepped
      exact told.broadcast here
    | waiting | returned =>
      rw [here] at stepped
      cases stepped

end

/-! ## Calls come to their end -/

/-- A call goes on by itself, and the worker has the given outcome if it runs it. -/
def ownSteps (t : Nat) (result : Int) (v : Nat) (k : Nat) : List OnceEvent :=
  List.replicate k (.call t result v)

/-- The call that runs the worker returns the result, with the value stored if it is one of a
success, and then nobody is blocked. -/
def Completes (s : Once) (t : Nat) : Prop :=
  ∀ result v, s.invokers t = .working none ∨ s.invokers t = .working (some (result, v)) →
    ∃ k ≤ 3, ∃ next, Run.run step s (ownSteps t result v k) = some next ∧
      next.invokers t = .returned result ∧
      next.state = (if result = 0 then .value v else .notInvokedYet) ∧
      ∀ u, next.invokers u ≠ .waiting

/-- So does the call that has stored the outcome and has to broadcast it. -/
def Releases (s : Once) (t : Nat) : Prop :=
  ∀ result, s.invokers t = .broadcasting result →
    ∀ r v, ∃ next, s.step (.call t r v) = some next ∧ next.invokers t = .returned result ∧
      next.state = s.state ∧ ∀ u, next.invokers u ≠ .waiting

/-- The call returns after at most `n` of its own steps. -/
def ReturnsWithin (s : Once) (t : Nat) (n : Nat) : Prop :=
  ∀ result v, ∃ k ≤ n, ∃ next code,
    Run.run step s (ownSteps t result v k) = some next ∧ next.invokers t = .returned code

theorem releases (s : Once) (t : Nat) : s.Releases t := by
  intro result here r v
  refine ⟨s.broadcast.goes t (.returned result), ?_, ?_, rfl, ?_⟩
  · rw [step, invoke.eq_def, here]
  · simp [goes]
  · intro u
    simp only [goes, broadcast]
    grind

/-- The two steps behind the worker. -/
theorem completes_of_outcome {s : Once} {t : Nat} {result : Int} {v : Nat}
    (here : s.invokers t = .working (some (result, v))) :
    ∃ next, Run.run step s (ownSteps t result v 2) = some next ∧
      next.invokers t = .returned result ∧
      next.state = (if result = 0 then .value v else .notInvokedYet) ∧
      ∀ u, next.invokers u ≠ .waiting := by
  let stored : Once := goes { s with state := if result = 0 then .value v else .notInvokedYet } t
    (.broadcasting result)
  have first : s.step (.call t result v) = some stored := by
    rw [step, invoke.eq_def, here]
  obtain ⟨next, second, returned, state, awake⟩ :=
    releases stored t result (by simp [stored, goes]) result v
  refine ⟨next, ?_, returned, state, awake⟩
  exact (Run.run_cons_of_step first _).trans (Run.run_cons_of_step second _)

theorem completes (s : Once) (t : Nat) : s.Completes t := by
  rintro result v (here | here)
  · have first : ∃ next, s.step (.call t result v) = some next ∧
        next.invokers t = .working (some (result, v)) := by
      refine ⟨_, by rw [step, invoke.eq_def, here], ?_⟩
      simp [goes]
    obtain ⟨behind, taken, place⟩ := first
    obtain ⟨next, rest, ends⟩ := completes_of_outcome place
    exact ⟨3, Nat.le_refl 3, next, (Run.run_cons_of_step taken _).trans rest, ends⟩
  · exact ⟨2, by decide, completes_of_outcome here⟩

section

variable {s : Once} {t n : Nat}

theorem returnsWithin_of_returned {code : Int} (here : s.invokers t = .returned code) :
    s.ReturnsWithin t n :=
  fun _ _ => ⟨0, Nat.zero_le n, s, code, rfl, here⟩

theorem ReturnsWithin.mono {m : Nat} (returns : s.ReturnsWithin t n) (le : n ≤ m) :
    s.ReturnsWithin t m := by
  intro result v
  obtain ⟨k, short, rest⟩ := returns result v
  exact ⟨k, Nat.le_trans short le, rest⟩

theorem ReturnsWithin.of_step
    (goes : ∀ result v, ∃ next, s.step (.call t result v) = some next ∧ next.ReturnsWithin t n) :
    s.ReturnsWithin t (n + 1) := by
  intro result v
  obtain ⟨next, taken, returns⟩ := goes result v
  obtain ⟨k, short, last, code, rest, returned⟩ := returns result v
  exact ⟨k + 1, Nat.succ_le_succ short, last, code, (Run.run_cons_of_step taken _).trans rest,
    returned⟩

/-- A call that wins the swap returns with its worker. -/
theorem returnsWithin_of_swap (here : s.invokers t = .start) (free : s.state = .notInvokedYet) :
    s.ReturnsWithin t 4 := by
  let won : Once := goes { s with state := .invoking, runner := t } t (.working none)
  have taken (result : Int) (v : Nat) : s.step (.call t result v) = some won := by
    rw [step, invoke.eq_def, here, free]
  refine .of_step fun result v => ⟨won, taken result v, fun result v => ?_⟩
  obtain ⟨k, short, next, rest, returned, -⟩ := completes won t result v (.inl (if_pos rfl))
  exact ⟨k, short, next, result, rest, returned⟩

/-- A call in the loop returns, or goes back to the swap. -/
theorem returnsWithin_of_loop (here : s.invokers t = .loop) (free : s.state ≠ .invoking) :
    s.ReturnsWithin t 5 := by
  refine .of_step fun result v => ?_
  cases state : s.state with
  | invoking => exact absurd state free
  | notInvokedYet =>
    refine ⟨s.goes t .start, by rw [step, invoke.eq_def, here, state], ?_⟩
    exact returnsWithin_of_swap (by simp [goes]) state
  | value w =>
    refine ⟨s.goes t (.returned 0), by rw [step, invoke.eq_def, here, state], ?_⟩
    exact returnsWithin_of_returned (if_pos rfl)

/-- While no worker runs, a call that is not blocked returns. -/
theorem Told.returnsWithin (told : s.Told) (free : s.state ≠ .invoking)
    (awake : s.invokers t ≠ .waiting) : s.ReturnsWithin t 6 := by
  have looping (taken : ∀ result v, s.step (.call t result v) = some (s.goes t .loop)) :
      s.ReturnsWithin t 6 :=
    .of_step fun result v =>
      ⟨_, taken result v, returnsWithin_of_loop (by simp [Once.goes]) free⟩
  cases here : s.invokers t with
  | working outcome => exact absurd (told.works t outcome here).2 free
  | waiting => exact absurd here awake
  | returned code => exact returnsWithin_of_returned here
  | broadcasting result =>
    refine .of_step fun r v => ?_
    obtain ⟨next, taken, returned, -⟩ := releases s t result here r v
    exact ⟨next, taken, returnsWithin_of_returned returned⟩
  | loop => exact (returnsWithin_of_loop here free).mono (by decide)
  | entering =>
    refine looping fun result v => ?_
    cases state : s.state with
    | invoking => exact absurd state free
    | notInvokedYet | value => rw [Once.step, invoke.eq_def, here, state]
  | start =>
    cases state : s.state with
    | invoking => exact absurd state free
    | notInvokedYet => exact (returnsWithin_of_swap here state).mono (by decide)
    | value w => exact looping fun result v => by rw [Once.step, invoke.eq_def, here, state]
  | head =>
    refine .of_step fun result v => ?_
    cases state : s.state with
    | invoking => exact absurd state free
    | notInvokedYet =>
      refine ⟨s.goes t .start, by rw [Once.step, invoke.eq_def, here, state], ?_⟩
      exact (returnsWithin_of_swap (s := s.goes t .start) (if_pos rfl) state).mono (by decide)
    | value w =>
      refine ⟨s.goes t (.returned 0), by rw [Once.step, invoke.eq_def, here, state], ?_⟩
      exact returnsWithin_of_returned (if_pos rfl)

end

/-- Nobody has called `Once_Invoke` yet. -/
def fresh : Once := ⟨.notInvokedYet, fun _ => .head, 0, fun _ => none, []⟩

/-- Whatever the threads do, and however often the worker fails: the call that runs the worker
returns its result with the state stored, whoever waited for it is released, and while no worker
runs, every call that is not blocked returns. -/
theorem once_invoke_sound (events : List OnceEvent) (s : Once)
    (ends : Run.run step fresh events = some s) :
    s.Sound ∧ ∀ t, s.Completes t ∧ s.Releases t ∧
      (s.state ≠ .invoking → s.invokers t ≠ .waiting → s.ReturnsWithin t 6) := by
  have start : fresh.Told := by
    constructor
    · constructor <;> simp [fresh]
    all_goals simp [fresh]
  have told := Run.invariant_of_steps (fun _ _ _ told stepped => Told.step told stepped) start ends
  exact ⟨told.toSound, fun t => ⟨completes s t, releases s t, told.returnsWithin⟩⟩

/-- A call runs the worker and another one waits for it. When the worker fails, the first one
returns the error, and the other one is released. -/
theorem once_invoke_sound_failure :
    ∃ s next, Run.run step fresh [.call 0 5 0, .call 0 5 0, .call 1 0 7, .call 1 0 7, .call 1 0 7,
        .call 1 0 7] = some s ∧ s.Sound ∧ s.invokers 1 = .waiting ∧
      (∃ k ≤ 3, Run.run step s (ownSteps 0 5 0 k) = some next) ∧
      next.invokers 0 = .returned 5 ∧ next.state = .notInvokedYet ∧ next.invokers 1 ≠ .waiting := by
  obtain ⟨sound, all⟩ := once_invoke_sound [.call 0 5 0, .call 0 5 0, .call 1 0 7, .call 1 0 7,
    .call 1 0 7, .call 1 0 7] _ rfl
  obtain ⟨k, short, next, rest, returned, state, awake⟩ := (all 0).1 5 0 (.inl rfl)
  exact ⟨_, next, rfl, sound, rfl, ⟨k, short, rest⟩, returned, state, awake 1⟩

end Once

end Omi.Pal
