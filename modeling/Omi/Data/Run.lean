import Mathlib

/-!
# Runs of a partial step function

A system is given by `step : σ → ι → Option σ`; `none` means that the system
stops for good. `run` folds it over a list of inputs, and `Along P` says that
`P` holds of every state and input that a run passes through, up to the point
where it stops. The rules below reduce a statement about all runs to one about
a single step.
-/

namespace Omi.Run

open List Option

universe u v w

variable {σ : Type u} {ι : Type v} {step : σ → ι → Option σ}

/-- The state after a list of inputs, if the system is still alive. -/
def run (step : σ → ι → Option σ) : σ → List ι → Option σ
  | s, [] => some s
  | s, i :: is => step s i >>= fun next => run step next is

/-- `P` holds at every input of the run, in the state in which it arrives. -/
def Along (step : σ → ι → Option σ) (P : σ → ι → Prop) : σ → List ι → Prop
  | _, [] => True
  | s, i :: is => P s i ∧ ∀ next, step s i = some next → Along step P next is

@[simp] theorem run_nil (s : σ) : run step s [] = some s := rfl

theorem run_cons (s : σ) (i : ι) (is : List ι) :
    run step s (i :: is) = step s i >>= fun next => run step next is := rfl

theorem run_cons_of_step {s next : σ} {i : ι} (taken : step s i = some next) (is : List ι) :
    run step s (i :: is) = run step next is := by
  rw [run_cons, taken]
  rfl

theorem run_append (s : σ) (is js : List ι) :
    run step s (is ++ js) = run step s is >>= fun next => run step next js := by
  induction is generalizing s with
  | nil => rfl
  | cons i is ih =>
    rw [cons_append, run_cons, run_cons]
    cases step s i with
    | none => rfl
    | some next => exact ih next

/-- Where no step stops the system, every run gets to its end. -/
theorem exists_run (possible : ∀ s i, ∃ next, step s i = some next) (s : σ) (is : List ι) :
    ∃ finish, run step s is = some finish := by
  induction is generalizing s with
  | nil => exact ⟨s, rfl⟩
  | cons i is ih =>
    obtain ⟨next, taken⟩ := possible s i
    rw [run_cons_of_step taken]
    exact ih next

/-- Rounds of inputs that reach the goal or make a measure smaller: as many rounds as are more
than the measure reach the goal. -/
theorem exists_rounds {κ : Type w} {round : κ → List ι} {P : κ → Prop} {Goal : σ → Prop}
    (Inv : σ → Prop) (measure : σ → Nat)
    (turn : ∀ s c, Inv s → P c → ∃ next, run step s (round c) = some next ∧
      (Goal next ∨ Inv next ∧ measure next < measure s))
    {s : σ} (start : Inv s) {cs : List κ} (all : ∀ c ∈ cs, P c) (enough : measure s < cs.length) :
    ∃ k ≤ cs.length, ∃ finish,
      run step s ((cs.take k).flatMap round) = some finish ∧ Goal finish := by
  induction cs generalizing s with
  | nil => exact absurd enough (Nat.not_lt_zero _)
  | cons c cs ih =>
    obtain ⟨next, reached, done | ⟨kept, smaller⟩⟩ := turn s c start (all c mem_cons_self)
    · refine ⟨1, Nat.succ_pos _, next, ?_, done⟩
      simpa using reached
    · rw [length_cons] at enough
      obtain ⟨k, bound, finish, rest, done⟩ :=
        ih kept (fun d member => all d (mem_cons_of_mem c member)) (by omega)
      refine ⟨k + 1, Nat.succ_le_succ bound, finish, ?_, done⟩
      rw [take_succ_cons, flatMap_cons, run_append, reached]
      exact rest

/-- What holds along a run holds along its last part. -/
theorem Along.suffix {P : σ → ι → Prop} {s t : σ} {is js : List ι}
    (along : Along step P s (is ++ js)) (reached : run step s is = some t) :
    Along step P t js := by
  induction is generalizing s with
  | nil =>
    cases reached
    exact along
  | cons i is ih =>
    obtain ⟨next, taken, rest⟩ := bind_eq_some_iff.mp reached
    exact ih (along.2 next taken) rest

variable {Inv : σ → Prop} {is : List ι}

/-- What every step preserves, under a condition that the run meets, holds at its end. -/
theorem invariant_run {P : σ → ι → Prop}
    (preserved : ∀ s i next, Inv s → P s i → step s i = some next → Inv next) {s finish : σ}
    (start : Inv s) (along : Along step P s is) (ends : run step s is = some finish) :
    Inv finish := by
  induction is generalizing s with
  | nil =>
    cases ends
    exact start
  | cons i is ih =>
    obtain ⟨next, taken, rest⟩ := bind_eq_some_iff.mp ends
    exact ih (preserved s i next start along.1 taken) (along.2 next taken) rest

variable {P Q : σ → ι → Prop}

/-- A condition that, under an invariant, gives another one and keeps the invariant: where the
first holds along a run, so does the second. -/
theorem along_of_invariant (gives : ∀ s i, Inv s → Q s i → P s i)
    (preserved : ∀ s i next, Inv s → Q s i → step s i = some next → Inv next) {s : σ}
    (start : Inv s) (along : Along step Q s is) : Along step P s is := by
  induction is generalizing s with
  | nil => trivial
  | cons i is ih =>
    refine ⟨gives s i start along.1, ?_⟩
    intro next taken
    exact ih (preserved s i next start along.1 taken) (along.2 next taken)

/-- Conditions that agree under an invariant hold along the same runs. -/
theorem along_iff_of_invariant (agree : ∀ s i, Inv s → (P s i ↔ Q s i))
    (preserved : ∀ s i next, Inv s → Q s i → step s i = some next → Inv next) {s : σ}
    (start : Inv s) : Along step P s is ↔ Along step Q s is := by
  constructor
  · refine along_of_invariant (fun s i inv here => (agree s i inv).mp here) ?_ start
    intro s i next inv here taken
    exact preserved s i next inv ((agree s i inv).mp here) taken
  · exact along_of_invariant (fun s i inv here => (agree s i inv).mpr here) preserved start

/-- Pointwise equivalent conditions hold along the same runs. -/
theorem along_congr (h : ∀ s i, P s i ↔ Q s i) (s : σ) (is : List ι) :
    Along step P s is ↔ Along step Q s is :=
  along_iff_of_invariant (fun s i _ => h s i) (fun _ _ _ _ _ _ => trivial) trivial

/-- A condition on the inputs alone. -/
theorem along_of_forall {q : ι → Prop} (all : ∀ i ∈ is, q i) (s : σ) :
    Along step (fun _ i => q i) s is := by
  induction is generalizing s with
  | nil => trivial
  | cons i is ih =>
    refine ⟨all i mem_cons_self, ?_⟩
    intro next _
    exact ih (fun j mem => all j (mem_cons_of_mem i mem)) next

/-- A condition along a run, and one on the inputs alone. -/
theorem Along.and_forall {q : ι → Prop} {s : σ} (along : Along step P s is) (all : ∀ i ∈ is, q i) :
    Along step (fun s i => P s i ∧ q i) s is := by
  induction is generalizing s with
  | nil => trivial
  | cons i is ih =>
    refine ⟨⟨along.1, all i mem_cons_self⟩, ?_⟩
    intro next taken
    exact ih (along.2 next taken) fun j mem => all j (mem_cons_of_mem i mem)

/-- What every step preserves holds at the end of every run. -/
theorem invariant_of_steps (preserved : ∀ s i next, Inv s → step s i = some next → Inv next)
    {s finish : σ} (start : Inv s) (ends : run step s is = some finish) : Inv finish :=
  invariant_run (fun s i next inv _ taken => preserved s i next inv taken) start
    (along_of_forall (fun _ _ => trivial) s) ends

/-- A decidable condition can be checked along a given run. -/
instance decidableAlong {P : σ → ι → Prop} [∀ s i, Decidable (P s i)] :
    ∀ s is, Decidable (Along step P s is)
  | _, [] => isTrue trivial
  | s, i :: is =>
    have : DecidablePred fun next => Along step P next is := fun next => decidableAlong next is
    inferInstanceAs (Decidable (P s i ∧ ∀ next ∈ step s i, Along step P next is))

/-! ## Records -/

/-- Every element of the record that satisfies `P` comes after an occurrence of `key`. -/
def GuardedBy {α : Type u} (key : α) (P : α → Prop) (log : List α) : Prop :=
  ∀ before x after, log = before ++ x :: after → P x → key ∈ before

theorem guardedBy_of_forall_not {α : Type u} {key : α} {P : α → Prop} {log : List α}
    (none : ∀ x ∈ log, ¬P x) : GuardedBy key P log := by
  intro before x after split holds
  exact absurd holds (none x (split ▸ mem_append_right _ mem_cons_self))

/-- A guarded record may grow freely once the key has occurred, and by harmless elements
before. -/
theorem GuardedBy.append {α : Type u} {key : α} {P : α → Prop} {log more : List α}
    (guarded : GuardedBy key P log) (fits : key ∈ log ∨ ∀ x ∈ more, ¬P x) :
    GuardedBy key P (log ++ more) := by
  intro before x after split holds
  have later : ∀ gap, before = log ++ gap → more = gap ++ x :: after → key ∈ before := by
    rintro gap rfl same
    rcases fits with occurred | harmless
    · exact mem_append_left _ occurred
    · exact absurd holds (harmless x (same ▸ mem_append_right _ mem_cons_self))
  rcases append_eq_append_iff.mp split with ⟨gap, first, second⟩ | ⟨gap, first, second⟩
  · exact later gap first second
  · cases gap with
    | nil =>
      rw [append_nil] at first
      exact later [] (by rw [append_nil, first]) second.symm
    | cons y gap =>
      cases second
      exact guarded before x gap first holds

end Omi.Run
