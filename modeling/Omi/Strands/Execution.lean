import Omi.Strands.Scheduler

/-!
# Methods of a strand run one at a time and none is lost

The executing bit is set exactly while one call executes the loop. A call that
executes knows a part of the word: what it has read is still set, because only
the executing call clears bits. From this it follows that a loop returns only
when no bit is set, and that every bit that was set and is not yet started is
still there.
-/

namespace Omi.Strands

open List Option Function

universe u

variable {ε : Type u}

/-! ## Bits -/

namespace Word

theorem ext {v w : Word} (executing : v.executing = w.executing)
    (scheduled : ∀ m, v.scheduled m = w.scheduled m) : v = w := by
  refine BitVec.eq_of_getLsbD_eq ?_
  intro i bound
  cases i with
  | zero => exact executing
  | succ n => exact scheduled ⟨n, by omega⟩

theorem scheduled_methodBit (m k : Method) : (methodBit m).scheduled k = decide (k = m) := by
  have bound : m.val + 1 < 64 := by omega
  have same : m.val + 1 = k.val + 1 ↔ k = m :=
    ⟨fun equal => Fin.ext (Nat.succ.inj equal).symm, fun equal => by rw [equal]⟩
  simp only [scheduled, methodBit, BitVec.getLsbD_twoPow, bound, decide_true, Bool.true_and, same]

variable {w : Word}

@[simp] theorem executing_set (m : Method) :
    (w ||| methodBit m ||| bitExecuting).executing = true := by
  simp [executing, bitExecuting]

@[simp] theorem scheduled_set (w : Word) (m k : Method) :
    (w ||| methodBit m ||| bitExecuting).scheduled k = (w.scheduled k || decide (k = m)) := by
  have other : bitExecuting.getLsbD (k.val + 1) = false := by
    simp [bitExecuting, BitVec.getLsbD_twoPow]
  rw [← scheduled_methodBit]
  simp only [scheduled, BitVec.getLsbD_or, other, Bool.or_false]

@[simp] theorem executing_clear (m : Method) : (w &&& ~~~methodBit m).executing = w.executing := by
  simp [executing, methodBit]

@[simp] theorem scheduled_clear (w : Word) (m k : Method) :
    (w &&& ~~~methodBit m).scheduled k = (w.scheduled k && !decide (k = m)) := by
  have bound : k.val + 1 < 64 := by omega
  rw [← scheduled_methodBit]
  simp only [scheduled, BitVec.getLsbD_and, BitVec.getLsbD_not, bound, decide_true, Bool.true_and]

@[simp] theorem executing_zero : executing 0#64 = false := rfl

@[simp] theorem scheduled_zero (m : Method) : scheduled 0#64 m = false := by
  simp [scheduled]

theorem first_eq_none : w.first = none ↔ ∀ m, w.scheduled m = false := by
  simp [first]

theorem scheduled_of_first {m : Method} (found : w.first = some m) : w.scheduled m = true :=
  find?_some found

/-- A word in which nothing but the executing bit can be set. -/
theorem eq_of_idle {v w : Word} (executing : v.executing = w.executing)
    (idle : v.first = none) (other : w.first = none) : v = w := by
  refine ext executing ?_
  intro m
  rw [first_eq_none.mp idle m, first_eq_none.mp other m]

end Word

/-! ## What a call knows -/

namespace Call

/-- The call is in the loop. -/
def executing : Call ε → Bool
  | .checking _ => true
  | .running _ => true
  | .operations _ _ => true
  | .restoring _ _ => true
  | .stopping _ => true
  | _ => false

/-- The method that the call has started and whose bit it has not cleared. -/
def method : Call ε → Option Method
  | .running m => some m
  | .operations after _ => if after = none then some entryOperation else none
  | .restoring after _ => if after = none then some entryOperation else none
  | _ => none

/-- The word that the loop has read last. -/
def word : Call ε → Option Word
  | .checking state => some state
  | .operations after _ => after
  | .restoring after _ => after
  | .stopping state => some state
  | _ => none

/-- What the call has read is still true of the word. -/
structure Knows (call : Call ε) (shared : Word) : Prop where
  method : ∀ m, call.method = some m → shared.scheduled m = true
  word : ∀ state, call.word = some state →
    state.executing = true ∧ ∀ m, state.scheduled m = true → shared.scheduled m = true
  /-- The loop stops only after it has found no bit. -/
  idle : ∀ state, call = .stopping state → state.first = none

/-- A call outside the loop knows nothing. -/
theorem knows_of_not_executing {call : Call ε} (outside : call.executing = false)
    (shared : Word) : call.Knows shared := by
  cases call with
  | pushing | reading | swapping | returned => exact ⟨nofun, nofun, nofun⟩
  | checking | running | operations | restoring | stopping => cases outside

/-- More bits do not matter. -/
theorem Knows.mono {call : Call ε} {shared next : Word} (knows : call.Knows shared)
    (grows : ∀ m, shared.scheduled m = true → next.scheduled m = true) : call.Knows next where
  method m started := grows m (knows.method m started)
  word state read := by
    obtain ⟨executing, kept⟩ := knows.word state read
    exact ⟨executing, fun m set => grows m (kept m set)⟩
  idle := knows.idle

end Call

namespace Scheduler

/-- A call of the scheduler. -/
def At (s : Scheduler ε) (i : Nat) (call : Call ε) : Prop := s.calls[i]? = some call

/-- The invariant of the word. -/
structure Exclusive (s : Scheduler ε) : Prop where
  single : ∀ i j c d, s.At i c → s.At j d → c.executing = true → d.executing = true → i = j
  owner : s.stateScheduled.executing = true ↔ ∃ i c, s.At i c ∧ c.executing = true
  knows : ∀ i c, s.At i c → c.Knows s.stateScheduled
  /-- Without an executing call no method is scheduled. -/
  idle : s.stateScheduled.executing = false → s.stateScheduled.first = none

variable {s next : Scheduler ε} {i j : Nat} {call then_ : Call ε} {m : Method}

theorem At.set_ne (there : s.At j call) (calls : next.calls = s.calls.set i then_)
    (other : j ≠ i) : next.At j call := by
  rw [At, calls, getElem?_set_ne other.symm]
  exact there

section

variable (here : s.At i call) (calls : next.calls = s.calls.set i then_)
include here calls

theorem At.set : next.At i then_ := by
  rw [At, calls, getElem?_set_self]
  exact (List.getElem?_eq_some_iff.mp here).1

/-- The call at one place changes, and the others stay. -/
theorem at_set_cases {c : Call ε}
    (at' : next.At j c) : (j = i ∧ c = then_) ∨ (j ≠ i ∧ s.At j c) := by
  by_cases place : j = i
  · subst place
    exact .inl ⟨rfl, Option.some.inj (at'.symm.trans (here.set calls))⟩
  · rw [At, calls, getElem?_set_ne (Ne.symm place)] at at'
    exact .inr ⟨place, at'⟩

/-- A step that keeps a property of its call keeps whether a call has it. -/
theorem exists_at_congr {p : Call ε → Prop} (same : p then_ ↔ p call) :
    (∃ j c, next.At j c ∧ p c) ↔ ∃ j c, s.At j c ∧ p c := by
  constructor
  · rintro ⟨j, c, at', holds⟩
    rcases at_set_cases here calls at' with ⟨-, rfl⟩ | ⟨-, there⟩
    · exact ⟨i, call, here, same.mp holds⟩
    · exact ⟨j, c, there, holds⟩
  · rintro ⟨j, c, there, holds⟩
    by_cases place : j = i
    · subst place
      cases here.symm.trans there
      exact ⟨j, then_, here.set calls, same.mpr holds⟩
    · exact ⟨j, c, there.set_ne calls place, holds⟩

end

theorem At.append (there : s.At j call) (new : Call ε) :
    At { s with calls := s.calls ++ [new] } j call := by
  rw [At, getElem?_append_left (List.getElem?_eq_some_iff.mp there).1]
  exact there

/-- A new call does not change the others. -/
theorem at_append_cases {c : Call ε} (at' : At { s with calls := s.calls ++ [call] } j c) :
    s.At j c ∨ c = call := by
  rw [At, getElem?_append] at at'
  split at at'
  · exact .inl at'
  · exact .inr (mem_singleton.mp (mem_of_getElem? at'))

theorem exists_at_append {p : Call ε → Prop} (new : ¬p call) :
    (∃ j c, At { s with calls := s.calls ++ [call] } j c ∧ p c) ↔ ∃ j c, s.At j c ∧ p c := by
  constructor
  · rintro ⟨j, c, at', holds⟩
    rcases at_append_cases at' with there | rfl
    · exact ⟨j, c, there, holds⟩
    · exact absurd holds new
  · rintro ⟨j, c, there, holds⟩
    exact ⟨j, c, there.append call, holds⟩

section

variable (exclusive : s.Exclusive)
include exclusive

/-- While a call is in the loop, the others are not. -/
theorem Exclusive.outside {c : Call ε} (here : s.At i call)
    (runs : call.executing = true) (there : s.At j c) (other : j ≠ i) : c.executing = false := by
  refine Bool.eq_false_iff.mpr ?_
  intro runs'
  exact other (exclusive.single j i c call there here runs' runs)

section

variable (here : s.At i call) (calls : next.calls = s.calls.set i then_)
include here calls

/-- A call goes on inside or outside of the loop, and bits are only added unless the call is
in the loop. -/
theorem Exclusive.proceed (same : then_.executing = call.executing)
    (executing : next.stateScheduled.executing = s.stateScheduled.executing)
    (grows : call.executing = true ∨
      ∀ m, s.stateScheduled.scheduled m = true → next.stateScheduled.scheduled m = true)
    (knows : then_.Knows next.stateScheduled)
    (idle : next.stateScheduled.executing = false → next.stateScheduled.first = none) :
    next.Exclusive := by
  have back : ∀ j c, next.At j c → c.executing = true →
      ∃ d, s.At j d ∧ d.executing = true := by
    intro j c at' runs
    rcases at_set_cases here calls at' with ⟨rfl, rfl⟩ | ⟨-, there⟩
    · exact ⟨call, here, same ▸ runs⟩
    · exact ⟨c, there, runs⟩
  refine ⟨?_, ?_, ?_, idle⟩
  · intro j k c d atj atk runsj runsk
    obtain ⟨c', atj', runsj'⟩ := back j c atj runsj
    obtain ⟨d', atk', runsk'⟩ := back k d atk runsk
    exact exclusive.single j k c' d' atj' atk' runsj' runsk'
  · rw [executing, exclusive.owner]
    exact (exists_at_congr here calls (by rw [same])).symm
  · intro j c at'
    rcases at_set_cases here calls at' with ⟨-, rfl⟩ | ⟨other, there⟩
    · exact knows
    · rcases grows with mine | grows
      · exact Call.knows_of_not_executing (exclusive.outside here mine there other) _
      · exact (exclusive.knows j c there).mono grows

/-- The call that finds the executing bit clear enters the loop. -/
theorem Exclusive.enter (free : s.stateScheduled.executing = false)
    (enters : then_.executing = true) (executing : next.stateScheduled.executing = true)
    (knows : then_.Knows next.stateScheduled) : next.Exclusive := by
  have nobody : ∀ j c, s.At j c → c.executing = false := by
    intro j c there
    refine Bool.eq_false_iff.mpr ?_
    intro runs
    cases free.symm.trans (exclusive.owner.mpr ⟨j, c, there, runs⟩)
  have mine : ∀ j c, next.At j c → c.executing = true → j = i := by
    intro j c at' runs
    rcases at_set_cases here calls at' with ⟨place, -⟩ | ⟨-, there⟩
    · exact place
    · cases (nobody j c there).symm.trans runs
  refine ⟨?_, ⟨fun _ => ⟨i, then_, here.set calls, enters⟩, fun _ => executing⟩, ?_, ?_⟩
  · intro j k c d atj atk runsj runsk
    exact (mine j c atj runsj).trans (mine k d atk runsk).symm
  · intro j c at'
    rcases at_set_cases here calls at' with ⟨-, rfl⟩ | ⟨-, there⟩
    · exact knows
    · exact Call.knows_of_not_executing (nobody j c there) _
  · intro idle
    cases executing.symm.trans idle

/-- The call that swaps the word to zero leaves the loop. -/
theorem Exclusive.exit (runs : call.executing = true)
    (leaves : then_.executing = false) (zero : next.stateScheduled = 0) : next.Exclusive := by
  have nobody : ∀ j c, next.At j c → c.executing = false := by
    intro j c at'
    rcases at_set_cases here calls at' with ⟨-, rfl⟩ | ⟨other, there⟩
    · exact leaves
    · exact exclusive.outside here runs there other
  refine ⟨?_, ?_, ?_, ?_⟩
  · intro j k c d atj atk runsj runsk
    cases (nobody j c atj).symm.trans runsj
  · rw [zero]
    refine ⟨nofun, ?_⟩
    rintro ⟨j, c, at', runs'⟩
    cases (nobody j c at').symm.trans runs'
  · intro j c at'
    exact Call.knows_of_not_executing (nobody j c at') _
  · intro _
    rw [zero, Word.first_eq_none]
    exact Word.scheduled_zero

end

/-- A new call is outside of the loop. -/
theorem Exclusive.append (outside : call.executing = false) :
    Exclusive { s with calls := s.calls ++ [call] } := by
  have idle : ¬call.executing = true := Bool.eq_false_iff.mp outside
  have old : ∀ j c, At { s with calls := s.calls ++ [call] } j c → c.executing = true →
      s.At j c := by
    intro j c at' runs
    rcases at_append_cases at' with there | rfl
    · exact there
    · exact absurd runs idle
  refine ⟨?_, exclusive.owner.trans (exists_at_append idle).symm, ?_, exclusive.idle⟩
  · intro j k c d atj atk runsj runsk
    exact exclusive.single j k c d (old j c atj runsj) (old k d atk runsk) runsj runsk
  · intro j c at'
    rcases at_append_cases at' with there | rfl
    · exact exclusive.knows j c there
    · exact Call.knows_of_not_executing outside _

end

theorem exclusive_init : (init : Scheduler ε).Exclusive where
  single i j c d at' := by simp [At, init] at at'
  owner := by simp [init, At]
  knows i c at' := by simp [At, init] at at'
  idle _ := by simp [init, Word.first_eq_none]

/-- A word that the loop has just read. -/
theorem knows_of_word {shared : Word} (method : call.method = none)
    (word : call.word = some shared) (idle : ∀ state, call ≠ .stopping state)
    (executing : shared.executing = true) : call.Knows shared where
  method m started := nomatch method.symm.trans started
  word state read := by
    cases word.symm.trans read
    exact ⟨executing, fun _ set => set⟩
  idle state stops := absurd stops (idle state)

variable {parent : Bool}

section

variable (exclusive : s.Exclusive) (here : s.At i call)
include exclusive here

/-- A step that leaves the word alone. -/
theorem Exclusive.proceed_same
    (calls : next.calls = s.calls.set i then_) (same : then_.executing = call.executing)
    (word : next.stateScheduled = s.stateScheduled) (knows : then_.Knows s.stateScheduled) :
    next.Exclusive := by
  refine exclusive.proceed here calls same (congrArg _ word) (.inr ?_) (word ▸ knows) ?_
  · intro m set
    rw [word]
    exact set
  · rw [word]
    exact exclusive.idle

/-- The call in the loop clears the bit of a method and goes on with the word that is left. -/
theorem Exclusive.disable (runs : call.executing = true) (m : Method) {next : Word → Call ε}
    (goes : ∀ state, (next state).executing = true) (method : ∀ state, (next state).method = none)
    (word : ∀ state, (next state).word = some state)
    (idle : ∀ state other, next state ≠ .stopping other) : (s.disable i m next).Exclusive := by
  have set : s.stateScheduled.executing = true := exclusive.owner.mpr ⟨i, call, here, runs⟩
  have kept : (s.stateScheduled &&& ~~~methodBit m).executing = true :=
    (Word.executing_clear m).trans set
  refine exclusive.proceed here rfl ((goes _).trans runs.symm) (kept.trans set.symm) (.inl runs)
    (knows_of_word (method _) (word _) (idle _) kept) ?_
  intro idle
  cases kept.symm.trans idle

theorem advance_exclusive {result : OperationResult}
    (taken : s.advance parent i result call = some next) : next.Exclusive := by
  have knows := exclusive.knows i call here
  cases call with
  | pushing e | reading m =>
    cases taken
    exact exclusive.proceed_same here rfl rfl rfl (Call.knows_of_not_executing rfl _)
  | swapping m initialState =>
    cases taken
    simp only [swap]
    split
    · rename_i same
      subst same
      cases busy : s.stateScheduled.executing with
      | true =>
        simp only [if_true]
        refine exclusive.proceed here rfl rfl ?_ (.inr ?_)
          (Call.knows_of_not_executing rfl _) ?_
        · simp [busy]
        · intro k set
          simp [set]
        · simp
      | false =>
        simp only [Bool.false_eq_true, if_false]
        refine exclusive.enter here rfl busy rfl ?_ ?_
        · simp
        · exact knows_of_word rfl rfl nofun (by simp)
    · exact exclusive.proceed_same here rfl rfl rfl (Call.knows_of_not_executing rfl _)
  | checking state =>
    cases taken
    obtain ⟨executing, kept⟩ := knows.word state rfl
    simp only [check]
    split
    · rename_i idle
      refine exclusive.proceed_same here rfl rfl rfl ⟨nofun, ?_, ?_⟩
      · rintro _ ⟨⟩
        exact ⟨executing, kept⟩
      · rintro _ ⟨⟩
        exact idle
    · rename_i m found
      have set := kept m (Word.scheduled_of_first found)
      split
      · rename_i entry
        refine exclusive.proceed_same here rfl rfl rfl ⟨?_, nofun, nofun⟩
        rintro _ ⟨⟩
        exact entry.2 ▸ set
      · refine exclusive.proceed_same here rfl rfl rfl ⟨?_, nofun, nofun⟩
        rintro _ ⟨⟩
        exact set
  | running m =>
    cases taken
    exact exclusive.disable here rfl m (fun _ => rfl) (fun _ => rfl) (fun _ => rfl) nofun
  | operations after retryList =>
    cases taken
    simp only [pop]
    split
    · exact exclusive.proceed_same here rfl rfl rfl ⟨knows.method, knows.word, nofun⟩
    · exact exclusive.proceed_same here rfl rfl rfl ⟨knows.method, knows.word, nofun⟩
  | restoring after retryList =>
    cases taken
    cases retryList with
    | cons e rest =>
      exact exclusive.proceed_same here rfl rfl rfl ⟨knows.method, knows.word, nofun⟩
    | nil =>
      cases after with
      | none =>
        change Exclusive (s.disable i entryOperation fun state => .operations (some state) [])
        exact exclusive.disable here rfl entryOperation (fun _ => rfl) (fun _ => rfl)
          (fun _ => rfl) nofun
      | some state =>
        exact exclusive.proceed_same here rfl rfl rfl ⟨nofun, knows.word, nofun⟩
  | stopping state =>
    cases taken
    simp only [stop]
    split
    · exact exclusive.exit here rfl rfl rfl rfl
    · have set : s.stateScheduled.executing = true :=
        exclusive.owner.mpr ⟨i, _, here, rfl⟩
      exact exclusive.proceed_same here rfl rfl rfl (knows_of_word rfl rfl nofun set)
  | returned => cases taken

end

/-- A step is a new call or the next step of a call. A method that leaves the strand does what
the loop does after it. -/
theorem step_cases {a : Action ε} (taken : s.step parent a = some next) :
    (∃ call : Call ε, call.executing = false ∧ next = { s with calls := s.calls ++ [call] }) ∨
      ∃ i result call, s.At i call ∧ s.advance parent i result call = some next ∧
        (a = .step i result ∨ ∃ m, call = .running m) := by
  cases a with
  | schedule m =>
    cases taken
    exact .inl ⟨.reading m, rfl, rfl⟩
  | scheduleParent e =>
    rw [step, ite_none_right_eq_some] at taken
    cases taken.2
    exact .inl ⟨.pushing e, rfl, rfl⟩
  | step i result =>
    obtain ⟨call, here, taken⟩ := bind_eq_some_iff.mp taken
    exact .inr ⟨i, result, call, here, taken, .inl rfl⟩
  | leave i =>
    simp only [step] at taken
    split at taken
    · rename_i m here
      exact .inr ⟨i, .continue, .running m, here, taken, .inr ⟨m, rfl⟩⟩
    · cases taken

theorem step_exclusive {a : Action ε} (exclusive : s.Exclusive)
    (taken : s.step parent a = some next) : next.Exclusive := by
  rcases step_cases taken with ⟨call, outside, rfl⟩ | ⟨i, result, call, here, taken, -⟩
  · exact exclusive.append outside
  · exact advance_exclusive exclusive here taken

/-! ## Every scheduling leads to one run -/

/-- The method has been started and its bit has not been cleared. -/
def Started (s : Scheduler ε) (m : Method) : Prop := ∃ i c, s.At i c ∧ c.method = some m

/-- The method is scheduled and waits for its run. -/
def Waiting (s : Scheduler ε) (m : Method) : Prop :=
  s.stateScheduled.scheduled m = true ∧ ¬s.Started m

/-- A scheduling that did not find the bit set has led to a run or waits for it. -/
structure Counted (s : Scheduler ε) : Prop where
  waiting : ∀ m, s.Waiting m → s.requested m = s.merged m + s.executed m + 1
  settled : ∀ m, ¬s.Waiting m → s.requested m = s.merged m + s.executed m

theorem executing_of_method (started : call.method = some m) : call.executing = true := by
  cases call with
  | running | operations | restoring | checking | stopping => rfl
  | pushing | reading | swapping | returned => cases started

/-- Only the call in the loop can have started a method. -/
theorem Exclusive.started_iff (exclusive : s.Exclusive) (here : s.At i call)
    (runs : call.executing = true) (m : Method) : s.Started m ↔ call.method = some m := by
  constructor
  · rintro ⟨j, c, there, started⟩
    obtain rfl := exclusive.single j i c call there here (executing_of_method started) runs
    cases there.symm.trans here
    exact started
  · intro started
    exact ⟨i, call, here, started⟩

/-- A step outside of the loop starts and ends no method. -/
theorem started_congr (here : s.At i call) (calls : next.calls = s.calls.set i then_)
    (same : then_.method = call.method) : next.Started m ↔ s.Started m :=
  exists_at_congr here calls (by rw [same])

theorem waiting_congr (word : next.stateScheduled.scheduled m = s.stateScheduled.scheduled m)
    (started : next.Started m ↔ s.Started m) : next.Waiting m ↔ s.Waiting m := by
  simp only [Waiting, word, started]

/-- The same methods wait, and what is requested is merged or executed. -/
theorem Counted.of_waiting_iff (counted : s.Counted) (waits : ∀ m, next.Waiting m ↔ s.Waiting m)
    (balance : ∀ m, next.requested m + (s.merged m + s.executed m)
      = s.requested m + (next.merged m + next.executed m)) : next.Counted := by
  refine ⟨?_, ?_⟩
  · intro m waiting
    have before := counted.waiting m ((waits m).mp waiting)
    have moved := balance m
    omega
  · intro m settled
    have before := counted.settled m (fun waiting => settled ((waits m).mpr waiting))
    have moved := balance m
    omega

theorem Counted.proceed (counted : s.Counted) (here : s.At i call)
    (calls : next.calls = s.calls.set i then_) (same : then_.method = call.method)
    (word : next.stateScheduled = s.stateScheduled) (requested : next.requested = s.requested)
    (merged : next.merged = s.merged) (executed : next.executed = s.executed) : next.Counted := by
  refine counted.of_waiting_iff ?_ ?_
  · intro m
    exact waiting_congr (by rw [word]) (started_congr here calls same)
  · intro m
    rw [requested, merged, executed]

/-- The run of a method ends. -/
theorem Counted.disable (exclusive : s.Exclusive) (counted : s.Counted) (here : s.At i call)
    (started : call.method = some m) {next : Word → Call ε}
    (goes : ∀ state, (next state).executing = true) (method : ∀ state, (next state).method = none)
    (after : (s.disable i m next).Exclusive) : (s.disable i m next).Counted := by
  refine counted.of_waiting_iff ?_ (fun _ => rfl)
  intro k
  have before := exclusive.started_iff here (executing_of_method started) k
  have now := after.started_iff (here.set rfl) (goes _) k
  have kept : (s.disable i m next).stateScheduled.scheduled k
      = (s.stateScheduled.scheduled k && !decide (k = m)) := Word.scheduled_clear _ _ _
  by_cases same : k = m
  · subst same
    simp [Waiting, kept, before, started]
  · simp [Waiting, kept, now, before, method, started, same, Ne.symm same]

theorem count_self (counter : Method → Nat) : count counter m m = counter m + 1 :=
  update_self m _ counter

theorem count_of_ne {k : Method} (other : k ≠ m) (counter : Method → Nat) :
    count counter m k = counter k :=
  update_of_ne other _ counter

/-- A scheduling that finds the bit set. -/
theorem Counted.merge (counted : s.Counted) (waits : ∀ k, next.Waiting k ↔ s.Waiting k)
    (requested : next.requested = count s.requested m) (merged : next.merged = count s.merged m)
    (executed : next.executed = s.executed) : next.Counted := by
  refine counted.of_waiting_iff waits ?_
  intro k
  rw [requested, merged, executed]
  by_cases equal : k = m
  · subst equal
    rw [count_self, count_self]
    omega
  · rw [count_of_ne equal, count_of_ne equal]

/-- A scheduling that sets the bit. -/
theorem Counted.request (counted : s.Counted) (free : ¬s.Waiting m) (now : next.Waiting m)
    (waits : ∀ k, k ≠ m → (next.Waiting k ↔ s.Waiting k))
    (requested : next.requested = count s.requested m) (merged : next.merged = s.merged)
    (executed : next.executed = s.executed) : next.Counted := by
  refine ⟨?_, ?_⟩
  · intro k waiting
    rw [requested, merged, executed]
    by_cases equal : k = m
    · subst equal
      rw [count_self, counted.settled k free]
    · rw [count_of_ne equal]
      exact counted.waiting k ((waits k equal).mp waiting)
  · intro k settled
    have other : k ≠ m := by
      rintro rfl
      exact settled now
    rw [requested, merged, executed, count_of_ne other]
    exact counted.settled k (fun waiting => settled ((waits k other).mpr waiting))

section

variable (exclusive : s.Exclusive) (counted : s.Counted)
include exclusive counted

/-- The swap that sets a bit. -/
theorem Counted.swap {initialState : Word}
    (here : s.At i (.swapping m initialState)) : (s.swap i m initialState).Counted := by
  simp only [Scheduler.swap]
  split
  · rename_i same
    subst same
    have method : (if s.stateScheduled.executing = true then Call.returned
        else Call.checking (s.stateScheduled ||| methodBit m ||| bitExecuting) : Call ε).method
          = none := by
      split <;> rfl
    cases set : s.stateScheduled.scheduled m with
    | true =>
      simp only [if_true]
      refine counted.merge (m := m) ?_ rfl rfl rfl
      intro k
      have kept : (s.stateScheduled ||| methodBit m ||| bitExecuting).scheduled k
          = s.stateScheduled.scheduled k := by
        by_cases equal : k = m
        · simp [equal, set]
        · simp [equal]
      exact waiting_congr kept (started_congr here rfl method)
    | false =>
      simp only [Bool.false_eq_true, if_false]
      refine counted.request (m := m) ?_ ⟨?_, ?_⟩ ?_ rfl rfl rfl
      · rintro ⟨waits, -⟩
        cases set.symm.trans waits
      · simp
      · rw [started_congr here rfl method]
        rintro ⟨j, c, there, runs⟩
        cases set.symm.trans ((exclusive.knows j c there).method m runs)
      · intro k other
        have kept : (s.stateScheduled ||| methodBit m ||| bitExecuting).scheduled k
            = s.stateScheduled.scheduled k := by
          simp [other]
        exact waiting_congr kept (started_congr here rfl method)
  · exact counted.proceed here rfl rfl rfl rfl rfl rfl

/-- The loop starts the first method that it has found. -/
theorem Counted.start {state : Word}
    (here : s.At i (.checking state)) (set : s.stateScheduled.scheduled m = true)
    (after : next.Exclusive) (calls : next.calls = s.calls.set i then_)
    (starts : then_.method = some m) (word : next.stateScheduled = s.stateScheduled)
    (requested : next.requested = s.requested) (merged : next.merged = s.merged)
    (executed : next.executed = count s.executed m) : next.Counted := by
  have before : ∀ k, ¬s.Started k := by
    intro k started
    cases (exclusive.started_iff here rfl k).mp started
  have started := after.started_iff (here.set calls) (executing_of_method starts)
  rw [starts] at started
  have waits : ∀ k, k ≠ m → (next.Waiting k ↔ s.Waiting k) := by
    intro k other
    simp [Waiting, word, before, started, other.symm]
  refine ⟨?_, ?_⟩
  · intro k waiting
    have other : k ≠ m := by
      rintro rfl
      exact waiting.2 ((started k).mpr rfl)
    rw [requested, merged, executed, count_of_ne other]
    exact counted.waiting k ((waits k other).mp waiting)
  · intro k settled
    rw [requested, merged, executed]
    by_cases equal : k = m
    · subst equal
      rw [count_self, counted.waiting k ⟨set, before k⟩]
      omega
    · rw [count_of_ne equal]
      exact counted.settled k (fun waiting => settled ((waits k equal).mpr waiting))

theorem advance_counted {result : OperationResult} (here : s.At i call)
    (taken : s.advance parent i result call = some next) : next.Counted := by
  have after := advance_exclusive exclusive here taken
  cases call with
  | pushing e | reading m =>
    cases taken
    exact counted.proceed here rfl rfl rfl rfl rfl rfl
  | swapping m initialState =>
    cases taken
    exact counted.swap exclusive here
  | checking state =>
    cases taken
    revert after
    simp only [check]
    split
    · intro _
      exact counted.proceed here rfl rfl rfl rfl rfl rfl
    · rename_i m found
      have set := ((exclusive.knows i _ here).word state rfl).2 m (Word.scheduled_of_first found)
      intro after
      refine counted.start exclusive here set after rfl ?_ rfl rfl rfl rfl
      split
      · rename_i entry
        rw [entry.2]
        rfl
      · rfl
  | running m =>
    cases taken
    exact counted.disable exclusive here rfl (fun _ => rfl) (fun _ => rfl) after
  | operations after' retryList =>
    cases taken
    simp only [pop]
    split
    · exact counted.proceed here rfl rfl rfl rfl rfl rfl
    · exact counted.proceed here rfl rfl rfl rfl rfl rfl
  | restoring after' retryList =>
    cases taken
    cases retryList with
    | cons e rest => exact counted.proceed here rfl rfl rfl rfl rfl rfl
    | nil =>
      cases after' with
      | none =>
        change Counted (s.disable i entryOperation fun state => .operations (some state) [])
        exact counted.disable exclusive here rfl (fun _ => rfl) (fun _ => rfl) after
      | some state => exact counted.proceed here rfl rfl rfl rfl rfl rfl
  | stopping state =>
    cases taken
    simp only [stop]
    split
    · rename_i same
      have idle := Word.first_eq_none.mp ((exclusive.knows i _ here).idle state rfl)
      refine counted.of_waiting_iff ?_ (fun _ => rfl)
      intro k
      simp [Waiting, same, idle k]
    · exact counted.proceed here rfl rfl rfl rfl rfl rfl
  | returned => cases taken

end

theorem Counted.append (counted : s.Counted) (outside : call.executing = false) :
    Counted { s with calls := s.calls ++ [call] } := by
  refine counted.of_waiting_iff (fun m => waiting_congr rfl (exists_at_append ?_)) (fun _ => rfl)
  intro started
  cases outside.symm.trans (executing_of_method started)

theorem step_counted {a : Action ε} (exclusive : s.Exclusive) (counted : s.Counted)
    (taken : s.step parent a = some next) : next.Counted := by
  rcases step_cases taken with ⟨call, outside, rfl⟩ | ⟨i, result, call, here, taken, -⟩
  · exact counted.append outside
  · exact advance_counted exclusive counted here taken

theorem counted_init : (init : Scheduler ε).Counted :=
  ⟨fun m waiting => by simp [Waiting, init] at waiting, fun _ _ => rfl⟩

end Scheduler

end Omi.Strands
