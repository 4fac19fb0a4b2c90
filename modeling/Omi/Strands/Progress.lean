import Omi.Strands.Execution

/-!
# The scheduler comes to rest with nothing left to do

An entry that was pushed and not yet popped is looked after: the call that
pushed it has not set the bit yet, or the bit is set, or the loop is in the
second pass of the method, which pops until the list is empty. Without new calls
every interleaving is finite, and when all calls have returned, every scheduled
method has run and every entry has been popped.
-/

namespace Omi.Strands

open List Option Call Word

universe u

variable {ε : Type u}

/-! ## Entries -/

/-- The call will set the bit for entry operations, or it pops the list in the second pass. -/
def Call.watches : Call ε → Bool
  | .reading m => m = entryOperation
  | .swapping m _ => m = entryOperation
  | .operations after _ => after ≠ none
  | _ => false

variable {result : OperationResult}

namespace Scheduler

/-- An entry has been pushed and not been popped since. -/
def Fresh (s : Scheduler ε) : Prop := ∃ p ∈ s.pending, p.fresh = true

/-- The bit for entry operations is set. -/
def Announced (s : Scheduler ε) : Prop := s.stateScheduled.scheduled entryOperation = true

/-- The invariant of the list of a parent. -/
structure Attended (s : Scheduler ε) : Prop where
  fresh : s.Fresh → s.Announced ∨ ∃ i c, s.At i c ∧ c.watches = true
  /-- The method of a parent is never run as another method. -/
  method : ∀ i, ¬s.At i (.running entryOperation)

variable {s next : Scheduler ε} {i : Nat} {call then_ : Call ε}

section

variable (attended : s.Attended) (here : s.At i call) (calls : next.calls = s.calls.set i then_)
include attended here calls

/-- The call at one place changes, and the list gets no fresh entry. -/
theorem Attended.proceed (other : then_ ≠ .running entryOperation)
    (fresh : next.Fresh → s.Fresh) (word : s.Announced → next.Announced ∨ then_.watches = true)
    (watches : call.watches = true → next.Fresh → next.Announced ∨ then_.watches = true) :
    next.Attended := by
  have mine : then_.watches = true → ∃ j c, next.At j c ∧ c.watches = true :=
    fun now => ⟨i, then_, here.set calls, now⟩
  refine ⟨?_, ?_⟩
  · intro pushed
    rcases attended.fresh (fresh pushed) with set | ⟨j, c, there, watching⟩
    · exact (word set).imp_right mine
    · by_cases place : j = i
      · subst place
        cases here.symm.trans there
        exact (watches watching pushed).imp_right mine
      · exact .inr ⟨j, c, there.set_ne calls place, watching⟩
  · intro j at'
    rcases at_set_cases here calls at' with ⟨-, equal⟩ | ⟨-, there⟩
    · exact other equal.symm
    · exact attended.method j there

/-- The list is looked after by the call itself. -/
theorem Attended.watch (watches : then_.watches = true) : next.Attended := by
  refine ⟨fun _ => .inr ⟨i, then_, here.set calls, watches⟩, ?_⟩
  intro j at'
  rcases at_set_cases here calls at' with ⟨-, rfl⟩ | ⟨-, there⟩
  · cases watches
  · exact attended.method j there

end

theorem Attended.append (attended : s.Attended) (outside : call.executing = false) :
    Attended { s with calls := s.calls ++ [call] } := by
  refine ⟨?_, ?_⟩
  · intro pushed
    refine (attended.fresh pushed).imp_right ?_
    rintro ⟨j, c, there, watching⟩
    exact ⟨j, c, there.append call, watching⟩
  · intro j at'
    rcases at_append_cases at' with there | rfl
    · exact attended.method j there
    · cases outside

theorem advance_attended (exclusive : s.Exclusive) (attended : s.Attended)
    (here : s.At i call) (taken : s.advance true i result call = some next) : next.Attended := by
  cases call with
  | pushing e =>
    cases taken
    exact attended.watch here rfl rfl
  | reading m =>
    cases taken
    exact attended.proceed here rfl (by simp) id .inl fun watches _ => .inr watches
  | swapping m initialState =>
    cases taken
    simp only [swap]
    split
    · rename_i same
      subst same
      have announced : s.Announced ∨ m = entryOperation →
          (s.stateScheduled ||| methodBit m ||| bitExecuting).scheduled entryOperation = true := by
        rintro (set | rfl)
        · rw [scheduled_set, set, Bool.true_or]
        · simp
      refine attended.proceed here rfl ?_ id (fun set => .inl (announced (.inl set))) ?_
      · split <;> simp
      · intro watches _
        exact .inl (announced (.inr (of_decide_eq_true watches)))
    · exact attended.proceed here rfl (by simp) id .inl fun watches _ => .inr watches
  | checking state =>
    cases taken
    simp only [check]
    split
    · exact attended.proceed here rfl (by simp) id .inl (by simp [watches])
    · rename_i m found
      refine attended.proceed here rfl ?_ id .inl (by simp [watches])
      split
      · simp
      · rename_i other
        rintro ⟨⟩
        exact other ⟨trivial, rfl⟩
  | running m =>
    cases taken
    have other : entryOperation ≠ m := by
      rintro rfl
      exact attended.method i here
    refine attended.proceed here rfl (by simp) id ?_ (by simp [watches])
    intro set
    left
    change (s.stateScheduled &&& ~~~methodBit m).scheduled entryOperation = true
    rw [scheduled_clear, set]
    simp [other]
  | operations after retryList =>
    cases taken
    simp only [pop]
    split
    · rename_i empty
      refine attended.proceed here rfl (by simp) id .inl ?_
      rintro - ⟨q, member, -⟩
      change q ∈ s.pending at member
      rw [empty] at member
      cases member
    · rename_i p rest filled
      refine attended.proceed here rfl (by simp) ?_ .inl fun watches _ => .inr watches
      rintro ⟨q, member, fresh⟩
      exact ⟨q, filled ▸ mem_cons_of_mem p member, fresh⟩
  | restoring after retryList =>
    cases taken
    cases retryList with
    | cons e rest =>
      refine attended.proceed here rfl (by simp) ?_ .inl (by simp [watches])
      rintro ⟨q, member, fresh⟩
      rcases mem_cons.mp member with rfl | old
      · cases fresh
      · exact ⟨q, old, fresh⟩
    | nil =>
      cases after with
      | none => exact attended.watch here rfl rfl
      | some state => exact attended.proceed here rfl (by simp) id .inl (by simp [watches])
  | stopping state =>
    cases taken
    simp only [stop]
    split
    · rename_i same
      refine attended.proceed here rfl (by simp) id ?_ (by simp [watches])
      intro set
      have idle := first_eq_none.mp ((exclusive.knows i _ here).idle state rfl)
      rw [Announced, same, idle] at set
      cases set
    · exact attended.proceed here rfl (by simp) id .inl (by simp [watches])
  | returned => cases taken

theorem step_attended {a : Action ε} (exclusive : s.Exclusive) (attended : s.Attended)
    (taken : s.step true a = some next) : next.Attended := by
  rcases step_cases taken with ⟨call, outside, rfl⟩ | ⟨i, result, call, here, taken, -⟩
  · exact attended.append outside
  · exact advance_attended exclusive attended here taken

theorem attended_init : (init : Scheduler ε).Attended where
  fresh := fun ⟨_, member, _⟩ => nomatch member
  method _ at' := nomatch at'

/-! ## Rest -/

/-- All calls have returned. -/
def Quiescent (s : Scheduler ε) : Prop := ∀ i c, s.At i c → c = .returned

section

variable (exclusive : s.Exclusive)
include exclusive

/-- Without a call in the loop no bit is set. -/
theorem Exclusive.word_of_nobody
    (nobody : ∀ i c, s.At i c → c.executing = false) : s.stateScheduled = 0#64 := by
  have free : s.stateScheduled.executing = false := by
    refine Bool.eq_false_iff.mpr ?_
    intro busy
    obtain ⟨i, c, here, runs⟩ := exclusive.owner.mp busy
    cases (nobody i c here).symm.trans runs
  refine eq_of_idle free (exclusive.idle free) ?_
  rw [first_eq_none]
  exact scheduled_zero

theorem Exclusive.word_of_quiescent (quiescent : s.Quiescent) : s.stateScheduled = 0#64 :=
  exclusive.word_of_nobody fun i c here => quiescent i c here ▸ rfl

/-- At rest every scheduling has led to a run, unless it was merged with another one. -/
theorem Counted.all_run (counted : s.Counted) (quiescent : s.Quiescent)
    (m : Method) : s.requested m = s.merged m + s.executed m := by
  refine counted.settled m ?_
  rintro ⟨set, -⟩
  rw [exclusive.word_of_quiescent quiescent, scheduled_zero] at set
  cases set

theorem Attended.all_popped (attended : s.Attended) (quiescent : s.Quiescent) : ¬s.Fresh := by
  intro fresh
  rcases attended.fresh fresh with set | ⟨i, c, here, watches⟩
  · rw [Announced, exclusive.word_of_quiescent quiescent, scheduled_zero] at set
    cases set
  · rw [quiescent i c here] at watches
    cases watches

end

end Scheduler

/-! ## Termination -/

namespace Call

/-- The steps that a call has to make before it has set its bit, and the run for which it
asks. -/
def debt : Call ε → Nat
  | .pushing _ => 4
  | .reading _ => 3
  | .swapping _ _ => 2
  | _ => 0

/-- How far the loop is from the point where it clears a bit or returns. -/
def rank : Call ε → Nat
  | .operations after _ => if after = none then 2 else 7
  | .restoring after _ => if after = none then 1 else 6
  | .checking state => if state.first = none then 5 else 3
  | .stopping _ => 4
  | .running _ => 1
  | _ => 0

/-- The entries that are to be moved. -/
def work (pending : Nat) : Call ε → Nat
  | .operations _ retryList => 2 * pending + retryList.length
  | .restoring _ retryList => retryList.length
  | _ => 0

/-- The swap of the call will fail. -/
def stale (shared : Word) : Call ε → Nat
  | .swapping _ initialState => if initialState = shared then 0 else 1
  | _ => 0

theorem work_of_not_executing {call : Call ε} (outside : call.executing = false)
    (pending : Nat) : call.work pending = 0 := by
  cases call with
  | pushing | reading | swapping | returned => rfl
  | checking | running | operations | restoring | stopping => cases outside

end Call

/-- The methods that are scheduled. -/
def Word.methods (w : Word) : Finset Method := Finset.univ.filter fun m => w.scheduled m = true

theorem Word.mem_methods {w : Word} {m : Method} : m ∈ w.methods ↔ w.scheduled m = true := by
  simp [methods]

theorem Word.methods_set (w : Word) (m : Method) :
    (w ||| methodBit m ||| bitExecuting).methods = insert m w.methods := by
  ext k
  simp only [mem_methods, scheduled_set, Finset.mem_insert, Bool.or_eq_true, decide_eq_true_eq]
  exact or_comm

theorem Word.methods_clear (w : Word) (m : Method) :
    (w &&& ~~~methodBit m).methods = w.methods.erase m := by
  ext k
  simp only [mem_methods, scheduled_clear, Finset.mem_erase, Bool.and_eq_true,
    Bool.not_eq_true', decide_eq_false_iff_not]
  exact and_comm

theorem Word.methods_of_idle {w : Word} (idle : w.first = none) : w.methods = ∅ := by
  ext k
  simp [mem_methods, first_eq_none.mp idle k]

/-- One element of a sum is replaced. -/
theorem sum_map_set {β : Type u} {l : List β} {i : Nat} {x : β} (here : l[i]? = some x)
    (f : β → Nat) (y : β) : ((l.set i y).map f).sum + f x = (l.map f).sum + f y := by
  induction l generalizing i with
  | nil => cases here
  | cons z rest ih =>
    cases i with
    | zero =>
      cases here
      simp only [set_cons_zero, map_cons, sum_cons]
      omega
    | succ n =>
      have rest := ih here
      simp only [set_cons_succ, map_cons, sum_cons]
      omega

namespace Scheduler

/-- The runs that are still to be made. -/
def runs (s : Scheduler ε) : Nat :=
  (s.calls.map Call.debt).sum + s.stateScheduled.methods.card

def ranks (s : Scheduler ε) : Nat := (s.calls.map Call.rank).sum

def works (s : Scheduler ε) : Nat := (s.calls.map (Call.work s.pending.length)).sum

def stales (s : Scheduler ε) : Nat := (s.calls.map (Call.stale s.stateScheduled)).sum

/-- What gets smaller with every step. -/
def potential (s : Scheduler ε) : ℕ ×ₗ ℕ ×ₗ ℕ ×ₗ ℕ :=
  toLex (s.runs, toLex (s.ranks, toLex (s.works, s.stales)))

variable {s next : Scheduler ε} {i : Nat} {call then_ : Call ε} {parent : Bool}

theorem potential_lt_of_runs (runs : next.runs < s.runs) : next.potential < s.potential :=
  Prod.Lex.toLex_lt_toLex.mpr (.inl runs)

theorem potential_lt_of_ranks (runs : next.runs = s.runs) (ranks : next.ranks < s.ranks) :
    next.potential < s.potential :=
  Prod.Lex.toLex_lt_toLex.mpr (.inr ⟨runs, Prod.Lex.toLex_lt_toLex.mpr (.inl ranks)⟩)

theorem potential_lt_of_works (runs : next.runs = s.runs) (ranks : next.ranks = s.ranks)
    (works : next.works < s.works) : next.potential < s.potential :=
  Prod.Lex.toLex_lt_toLex.mpr (.inr ⟨runs, Prod.Lex.toLex_lt_toLex.mpr
    (.inr ⟨ranks, Prod.Lex.toLex_lt_toLex.mpr (.inl works)⟩)⟩)

theorem potential_lt_of_stales (runs : next.runs = s.runs) (ranks : next.ranks = s.ranks)
    (works : next.works = s.works) (stales : next.stales < s.stales) :
    next.potential < s.potential :=
  Prod.Lex.toLex_lt_toLex.mpr (.inr ⟨runs, Prod.Lex.toLex_lt_toLex.mpr
    (.inr ⟨ranks, Prod.Lex.toLex_lt_toLex.mpr (.inr ⟨works, stales⟩)⟩)⟩)

/-- Only the call in the loop has entries to move. -/
theorem works_eq (exclusive : s.Exclusive) (here : s.At i call)
    (inside : call.executing = true) : s.works = call.work s.pending.length := by
  have others : ((s.calls.set i .returned).map (work s.pending.length)).sum = 0 := by
    refine List.sum_eq_zero_iff_forall_eq_nat.mpr ?_
    intro n member
    obtain ⟨c, there, rfl⟩ := mem_map.mp member
    obtain ⟨j, at'⟩ := mem_iff_getElem?.mp there
    change (s.proceed i .returned).At j c at at'
    rcases at_set_cases here rfl at' with ⟨-, rfl⟩ | ⟨other, there⟩
    · rfl
    · exact work_of_not_executing (exclusive.outside here inside there other) _
  have sum := sum_map_set here (work s.pending.length) .returned
  rw [others] at sum
  simp only [works]
  change 0 + call.work s.pending.length = _ + 0 at sum
  omega

section

variable (here : s.At i call)
include here

section

variable (calls : next.calls = s.calls.set i then_)
include calls

/-- A step that only moves a call along. -/
theorem ranks_lt (lower : then_.rank < call.rank) : next.ranks < s.ranks := by
  have sum := sum_map_set here rank then_
  simp only [ranks, calls]
  omega

theorem ranks_eq (same : then_.rank = call.rank) : next.ranks = s.ranks := by
  have sum := sum_map_set here rank then_
  simp only [ranks, calls]
  omega

theorem runs_eq (same : then_.debt = call.debt)
    (methods : next.stateScheduled.methods = s.stateScheduled.methods) : next.runs = s.runs := by
  have sum := sum_map_set here debt then_
  simp only [runs, calls, methods]
  omega

theorem runs_lt (less : then_.debt + next.stateScheduled.methods.card
      < call.debt + s.stateScheduled.methods.card) : next.runs < s.runs := by
  have sum := sum_map_set here debt then_
  simp only [runs, calls]
  omega

end

/-- Clearing a bit that is set. -/
theorem disable_runs_lt {m : Method}
    (set : s.stateScheduled.scheduled m = true) {next : Word → Call ε}
    (free : ∀ state, (next state).debt = 0) : (s.disable i m next).runs < s.runs := by
  refine runs_lt here rfl ?_
  have less := Finset.card_erase_lt_of_mem (mem_methods.mpr set)
  rw [← methods_clear] at less
  rw [free, Nat.zero_add]
  exact Nat.lt_of_lt_of_le less (Nat.le_add_left _ _)

end

/-- Every step of a call makes the potential smaller. -/
theorem advance_potential_lt (exclusive : s.Exclusive)
    (here : s.At i call) (taken : s.advance parent i result call = some next) :
    next.potential < s.potential := by
  have after := advance_exclusive exclusive here taken
  have knows := exclusive.knows i call here
  cases call with
  | pushing e | reading m =>
    cases taken
    exact potential_lt_of_runs (runs_lt here rfl (Nat.add_lt_add_right (Nat.lt_succ_self _) _))
  | swapping m initialState =>
    cases taken
    simp only [swap]
    split
    · rename_i same
      subst same
      refine potential_lt_of_runs (runs_lt here rfl ?_)
      have card := Finset.card_insert_le m s.stateScheduled.methods
      rw [← methods_set] at card
      have free : (if s.stateScheduled.executing = true then returned
          else checking (s.stateScheduled ||| methodBit m ||| bitExecuting) : Call ε).debt
            = 0 := by
        split <;> rfl
      rw [free]
      simp only [debt]
      omega
    · rename_i changed
      have sum := sum_map_set here (stale s.stateScheduled) (.swapping m s.stateScheduled)
      simp only [stale, if_neg (Ne.symm changed), if_true] at sum
      refine potential_lt_of_stales (runs_eq here rfl rfl rfl) (ranks_eq here rfl rfl) ?_ ?_
      · have sum := sum_map_set here (work s.pending.length)
          (.swapping m s.stateScheduled)
        simp only [works, proceed]
        exact sum
      · simp only [stales, proceed]
        omega
  | checking state =>
    cases taken
    simp only [check]
    split
    · rename_i idle
      refine potential_lt_of_ranks (runs_eq here rfl rfl rfl) (ranks_lt here rfl ?_)
      simp [rank, idle]
    · rename_i m found
      refine potential_lt_of_ranks (runs_eq here rfl ?_ rfl) (ranks_lt here rfl ?_)
      · split <;> rfl
      · split <;> simp [rank, found]
  | running m =>
    cases taken
    exact potential_lt_of_runs (disable_runs_lt here (knows.method m rfl) fun _ => rfl)
  | operations after' retryList =>
    cases taken
    revert after
    simp only [pop]
    split
    · intro _
      refine potential_lt_of_ranks (runs_eq here rfl rfl rfl) (ranks_lt here rfl ?_)
      simp only [rank]
      split <;> omega
    · rename_i p rest filled
      intro after
      refine potential_lt_of_works (runs_eq here rfl rfl rfl) (ranks_eq here rfl rfl) ?_
      rw [works_eq exclusive here rfl, works_eq after (here.set rfl) rfl, filled]
      simp only [work, length_cons]
      cases result with
      | retry =>
        simp only [length_cons]
        omega
      | deleted | «continue» =>
        change 2 * rest.length + retryList.length < _
        omega
  | restoring after' retryList =>
    cases taken
    cases retryList with
    | cons e rest =>
      refine potential_lt_of_works (runs_eq here rfl rfl rfl) (ranks_eq here rfl rfl) ?_
      rw [works_eq exclusive here rfl, works_eq after (here.set rfl) rfl]
      exact Nat.lt_succ_self _
    | nil =>
      cases after' with
      | none =>
        refine potential_lt_of_runs ?_
        have free : ∀ state, (operations (some state) [] : Call ε).debt = 0 :=
          fun _ => rfl
        exact disable_runs_lt here (knows.method entryOperation rfl) free
      | some state =>
        refine potential_lt_of_ranks (runs_eq here rfl rfl rfl) (ranks_lt here rfl ?_)
        simp only [rank, reduceCtorEq, if_false]
        split <;> decide
  | stopping state =>
    cases taken
    simp only [stop]
    have idle := knows.idle state rfl
    split
    · rename_i same
      refine potential_lt_of_ranks (runs_eq here rfl rfl ?_) (ranks_lt here rfl (Nat.succ_pos 3))
      rw [same, methods_of_idle idle]
      exact methods_of_idle (first_eq_none.mpr scheduled_zero)
    · rename_i changed
      refine potential_lt_of_ranks (runs_eq here rfl rfl rfl) (ranks_lt here rfl ?_)
      have found : s.stateScheduled.first ≠ none := by
        intro other
        have busy := exclusive.owner.mpr ⟨i, _, here, rfl⟩
        exact changed (eq_of_idle (busy.trans (knows.word state rfl).1.symm) other idle)
      simp [rank, found]
  | returned => cases taken

/-- However the calls go on, they do so only finitely often. -/
theorem steps_finite {states : ℕ → Scheduler ε} (exclusive : (states 0).Exclusive) :
    ¬∀ n, ∃ i result, (states n).step parent (.step i result) = some (states (n + 1)) := by
  intro steps
  have kept : ∀ n, (states n).Exclusive := by
    intro n
    induction n with
    | zero => exact exclusive
    | succ n ih =>
      obtain ⟨i, result, taken⟩ := steps n
      exact step_exclusive ih taken
  obtain ⟨n, stuck⟩ := WellFounded.not_rel_apply_succ (r := (· < ·))
    fun n => (states n).potential
  obtain ⟨i, result, taken⟩ := steps n
  obtain ⟨call, here, taken⟩ := bind_eq_some_iff.mp taken
  exact stuck (advance_potential_lt (kept n) here taken)

/-- A call that has not returned can go on. -/
theorem exists_step (busy : ¬s.Quiescent) :
    ∃ i, ∀ result, ∃ next, s.step parent (.step i result) = some next := by
  simp only [Quiescent, not_forall] at busy
  obtain ⟨i, c, here, busy⟩ := busy
  refine ⟨i, fun result => ?_⟩
  have bind : s.step parent (.step i result) = s.advance parent i result c := by
    simp only [step]
    rw [show s.calls[i]? = some c from here]
    rfl
  rw [bind]
  cases c with
  | returned => exact absurd rfl busy
  | pushing | reading | swapping | checking | running | operations | restoring | stopping =>
    exact ⟨_, rfl⟩

/-! ## The scheduler as a whole -/

/-- The methods that may be scheduled while they are scheduled. -/
def Exempt (parent : Bool) (m : Method) : Prop :=
  m = timer ∨ parent = true ∧ m = entryOperation

/-- No other method is scheduled while its bit is set. -/
def Disciplined (parent : Bool) (s : Scheduler ε) : Action ε → Prop
  | .step i _ => ∀ m initialState, s.At i (.swapping m initialState) →
      s.stateScheduled = initialState → Exempt parent m ∨ initialState.scheduled m = false
  | _ => True

/-- A step changes no other call, and only the swap that sets a bit merges. -/
theorem advance_frame (taken : s.advance parent i result call = some next) :
    (∃ then_, next.calls = s.calls.set i then_) ∧
      ((∀ m initialState, call ≠ .swapping m initialState) → next.merged = s.merged) := by
  cases call with
  | pushing | reading | running =>
    cases taken
    exact ⟨⟨_, rfl⟩, fun _ => rfl⟩
  | swapping m initialState =>
    cases taken
    refine ⟨?_, fun other => absurd rfl (other m initialState)⟩
    simp only [swap]
    split <;> exact ⟨_, rfl⟩
  | checking state =>
    cases taken
    simp only [check]
    split <;> exact ⟨⟨_, rfl⟩, fun _ => rfl⟩
  | operations after retryList =>
    cases taken
    simp only [pop]
    split <;> exact ⟨⟨_, rfl⟩, fun _ => rfl⟩
  | restoring after retryList =>
    cases taken
    simp only [restore]
    split
    · exact ⟨⟨_, rfl⟩, fun _ => rfl⟩
    · split <;> exact ⟨⟨_, rfl⟩, fun _ => rfl⟩
  | stopping state =>
    cases taken
    simp only [stop]
    split <;> exact ⟨⟨_, rfl⟩, fun _ => rfl⟩
  | returned => cases taken

/-- The other methods are never merged. -/
theorem step_unmerged {a : Action ε} (unmerged : ∀ m, ¬Exempt parent m → s.merged m = 0)
    (disciplined : s.Disciplined parent a) (taken : s.step parent a = some next) :
    ∀ m, ¬Exempt parent m → next.merged m = 0 := by
  rcases step_cases taken with ⟨call, -, rfl⟩ | ⟨i, result, call, here, moved, rfl | running⟩
  · exact unmerged
  · by_cases swaps : ∃ m initialState, call = .swapping m initialState
    · obtain ⟨m, initialState, rfl⟩ := swaps
      cases moved
      intro k strict
      simp only [swap]
      split
      · rename_i word
        rcases disciplined m initialState here word with exempt | free
        · by_cases equal : k = m
          · exact absurd (equal ▸ exempt) strict
          · simp only
            split
            · rw [count_of_ne equal]
              exact unmerged k strict
            · exact unmerged k strict
        · simp only [free, Bool.false_eq_true, if_false]
          exact unmerged k strict
      · exact unmerged k strict
    · rw [(advance_frame moved).2 fun m initialState equal => swaps ⟨m, initialState, equal⟩]
      exact unmerged
  · obtain ⟨m, rfl⟩ := running
    rw [(advance_frame moved).2 (by simp)]
    exact unmerged

/-- What the scheduler guarantees in a state. -/
structure Sound (parent : Bool) (s : Scheduler ε) : Prop where
  /-- At most one call executes methods. -/
  single : ∀ i j c d, s.At i c → s.At j d → c.executing = true → d.executing = true → i = j
  /-- Every scheduling has led to one run, except the one that waits for it. -/
  once : ∀ m, ¬Exempt parent m → (s.Waiting m → s.requested m = s.executed m + 1)
    ∧ (¬s.Waiting m → s.requested m = s.executed m)
  /-- A scheduling of the other methods is merged with the run for which the bit is set. -/
  merges : ∀ m, (s.Waiting m → s.requested m = s.merged m + s.executed m + 1)
    ∧ (¬s.Waiting m → s.requested m = s.merged m + s.executed m)
  /-- A loop that returns leaves no bit set. -/
  returns : ∀ i c result next, s.At i c → c.executing = true →
    s.step parent (.step i result) = some next → next.At i .returned →
      next.stateScheduled = 0#64
  /-- When all calls have returned, every scheduling has led to one run, and every entry has
  been popped since it was pushed. -/
  rest : s.Quiescent → (∀ m, ¬Exempt parent m → s.requested m = s.executed m)
    ∧ (parent = true → ¬s.Fresh)
  /-- As long as a call has not returned, one can go on, and without new calls this ends. -/
  goesOn : ¬s.Quiescent → ∃ i, ∀ result, ∃ next, s.step parent (.step i result) = some next
  ends : ∀ states : ℕ → Scheduler ε, states 0 = s →
    ¬∀ n, ∃ i result, (states n).step parent (.step i result) = some (states (n + 1))

/-- Only the call that was in the loop can have left it with a bit set. -/
theorem word_of_returned (exclusive : s.Exclusive)
    (here : s.At i call) (inside : call.executing = true)
    (taken : s.advance parent i result call = some next) (returned : next.At i .returned) :
    next.stateScheduled = 0#64 := by
  obtain ⟨then_, calls⟩ := (advance_frame taken).1
  refine (advance_exclusive exclusive here taken).word_of_nobody ?_
  intro j c at'
  by_cases place : j = i
  · subst place
    cases at'.symm.trans returned
    rfl
  · rcases at_set_cases here calls at' with ⟨same, -⟩ | ⟨other, there⟩
    · exact absurd same place
    · exact exclusive.outside here inside there other

/-- What every run of the scheduler preserves. -/
structure Invariant (parent : Bool) (s : Scheduler ε) : Prop where
  exclusive : s.Exclusive
  counted : s.Counted
  attended : parent = true → s.Attended
  unmerged : ∀ m, ¬Exempt parent m → s.merged m = 0

theorem invariant_init : (init : Scheduler ε).Invariant parent :=
  ⟨exclusive_init, counted_init, fun _ => attended_init, fun _ _ => rfl⟩

theorem step_invariant {a : Action ε} (invariant : s.Invariant parent)
    (disciplined : s.Disciplined parent a) (taken : s.step parent a = some next) :
    next.Invariant parent := by
  refine ⟨step_exclusive invariant.exclusive taken,
    step_counted invariant.exclusive invariant.counted taken, ?_,
    step_unmerged invariant.unmerged disciplined taken⟩
  rintro rfl
  exact step_attended invariant.exclusive (invariant.attended rfl) taken

theorem Invariant.sound (invariant : s.Invariant parent) : s.Sound parent := by
  have counted := invariant.counted
  refine ⟨invariant.exclusive.single, ?_, fun m => ⟨counted.waiting m, counted.settled m⟩, ?_, ?_,
    exists_step, ?_⟩
  · intro m strict
    have waiting := counted.waiting m
    have settled := counted.settled m
    rw [invariant.unmerged m strict, Nat.zero_add] at waiting settled
    exact ⟨waiting, settled⟩
  · intro i c result next here inside taken returned
    obtain ⟨call, found, taken⟩ := bind_eq_some_iff.mp taken
    cases here.symm.trans found
    exact word_of_returned invariant.exclusive here inside taken returned
  · intro quiescent
    refine ⟨?_, fun isParent => (invariant.attended isParent).all_popped invariant.exclusive
      quiescent⟩
    intro m strict
    have all := counted.all_run invariant.exclusive quiescent m
    rwa [invariant.unmerged m strict, Nat.zero_add] at all
  · intro states start
    exact steps_finite (start ▸ invariant.exclusive)

/-- Over every interleaving of any number of calls in which no method but `Timer` and the
entry operations of a parent is scheduled while its bit is set, one call at a time executes
methods, every other scheduling leads to exactly one run, no entry is forgotten, and the
scheduler comes to rest with no bit set. -/
theorem scheduler_sound (parent : Bool) (actions : List (Action ε)) (s : Scheduler ε)
    (disciplined : Run.Along (step parent) (Disciplined parent) init actions)
    (reached : Run.run (step parent) init actions = some s) : s.Sound parent := by
  have invariant : s.Invariant parent :=
    Run.invariant_run (fun _ _ _ kept condition taken => step_invariant kept condition taken)
      (invariant_init) disciplined reached
  exact invariant.sound

/-- Two entries of a parent ask for an operation at the same time. The first call has to try
its swap twice, and then finds the bit set. -/
def twoRequests : List (Action Bool) :=
  [.scheduleParent false, .scheduleParent true]
    ++ [0, 1, 0, 1, 1, 0, 0, 1, 1, 1, 1, 1, 1, 1, 1, 1].map fun i => .step i .continue

/-- The method is scheduled twice and runs once. -/
theorem entryOperation_runs_once :
    (Run.run (step true) (init : Scheduler Bool) twoRequests).map
        (fun s => (s.calls, s.requested entryOperation, s.executed entryOperation)) =
      some ([.returned, .returned], 2, 1) := by
  decide

theorem scheduler_sound_twoRequests :
    ∃ s : Scheduler Bool, Run.run (step true) init twoRequests = some s
      ∧ s.Quiescent ∧ s.Sound true ∧ s.merged entryOperation = 1 ∧ s.pending = [] := by
  have disciplined : Run.Along (step true) (Disciplined true) (init : Scheduler Bool)
      twoRequests := by
    refine ⟨trivial, ?_⟩
    rintro _ ⟨⟩
    refine ⟨trivial, ?_⟩
    rintro _ ⟨⟩
    -- both calls push their entry and read the word
    iterate 4
      refine ⟨by rintro _ _ ⟨⟩, ?_⟩
      rintro _ ⟨⟩
    -- three swaps, of which the second fails
    iterate 3
      refine ⟨fun _ _ here _ => .inl (.inr ⟨rfl, by cases here; rfl⟩), ?_⟩
      rintro _ ⟨⟩
    -- the second call executes the method
    iterate 8
      refine ⟨by rintro _ _ ⟨⟩, ?_⟩
      rintro _ ⟨⟩
    exact ⟨by rintro _ _ ⟨⟩, fun _ _ => trivial⟩
  refine ⟨_, rfl, ?_, scheduler_sound true twoRequests _ disciplined rfl, rfl, rfl⟩
  intro i c here
  cases i with
  | zero => exact (Option.some.inj here).symm
  | succ i =>
    cases i with
    | zero => exact (Option.some.inj here).symm
    | succ i => cases here

end Scheduler

end Omi.Strands
