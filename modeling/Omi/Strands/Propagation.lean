import Omi.Strands.Cancel

/-!
# A cancelation reaches every strand of a chain

A canceled strand has told its right neighbour, or the neighbour is canceled
already; the rightmost strand has returned the cancelation when it was canceled;
and a strand that has passed the returning cancelation on has been told by its
right neighbour. When nothing is under way, one canceled strand therefore makes
all strands to its right canceled, and then all strands. Each flag is set once,
so each strand sends at most one cancelation to each side.

A parent that is opened from the left does not keep to its own fields, because
its case falls through to that of an entry.
-/

namespace Omi.Strands

open List Option Function Strand

universe u

variable {ε : Type u} {events : List ChainEvent}

namespace Chain

/-- The strand has let the returning cancelation pass. -/
def reflected (n : Nat) (c : Chain ε) (i : Nat) : Bool :=
  if i = 0 ∨ i = n + 1 then (c.strands i).canceled else (c.strands i).leftCanceled

/-- The user methods of each interaction of a strand have a `Cancel` callback. -/
def Equipped (s : Strand ε) : Prop :=
  s.info.hasCancel = true ∧ (s.strandType = .middle → s.infoRight.hasCancel = true)

/-- What every step of a chain preserves. -/
structure Settling (n : Nat) (c : Chain ε) : Prop where
  leftmost : (c.strands 0).strandType = .leftmost
  middle : ∀ i, 0 < i → i ≤ n → (c.strands i).strandType = .middle
  rightmost : (c.strands (n + 1)).strandType = .rightmost
  live : ∀ i ≤ n + 1, (c.strands i).info.live = true
  liveRight : ∀ i, 0 < i → i ≤ n → (c.strands i).infoRight.live = true
  /-- Nothing comes from beyond the ends. -/
  ends : c.fromLeft 0 = false ∧ c.fromRight (n + 1) = false
  goesRight : ∀ i ≤ n, (c.strands i).canceled = true →
    (c.strands (i + 1)).canceled = true ∨ c.fromLeft (i + 1) = true
  comesBack : ∀ i ≤ n, c.reflected n (i + 1) = true →
    c.fromRight i = true ∨ c.reflected n i = true
  arrives : ∀ i ≤ n, c.fromRight i = true → c.reflected n (i + 1) = true
  reflects : ∀ i ≤ n + 1, c.reflected n i = true → (c.strands i).canceled = true
  sentRight : ∀ i ≤ n + 1, c.sentRight i ≤ (c.strands i).canceled.toNat
  sentLeft : ∀ i ≤ n + 1, c.sentLeft i ≤ (c.reflected n i).toNat
  callbacks : ∀ i ≤ n + 1, Equipped (c.strands i) →
    c.callbacks i = (c.strands i).canceled.toNat

/-- The strand at one place gets other flags. -/
structure Flags (c next : Chain ε) (i : Nat) (canceled leftCanceled : Bool) : Prop where
  strands : next.strands = Function.update c.strands i
    { c.strands i with canceled := canceled, leftCanceled := leftCanceled }
  equipped : Equipped (c.strands i) → next.callbacks
    = Function.update c.callbacks i (c.callbacks i + (canceled && !(c.strands i).canceled).toNat)
  others : ∀ j, j ≠ i → next.callbacks j = c.callbacks j

/-- What a step does. -/
inductive Moves (n : Nat) (c next : Chain ε) : Prop where
  /-- A canceled strand is told again, or asked to cancel. -/
  | idle (i : Nat) (canceled : (c.strands i).canceled = true) (place : i ≤ n + 1)
      (flags : c.Flags next i true (c.strands i).leftCanceled)
      (fromLeft : next.fromLeft = c.fromLeft ∨ next.fromLeft = Function.update c.fromLeft i false)
      (fromRight : next.fromRight = c.fromRight)
      (sentRight : next.sentRight = c.sentRight) (sentLeft : next.sentLeft = c.sentLeft)
  /-- A strand is canceled and tells its right neighbour. -/
  | forward (i : Nat) (running : (c.strands i).canceled = false) (place : i ≤ n)
      (flags : c.Flags next i true (c.strands i).leftCanceled)
      (fromLeft : ∃ before, (before = c.fromLeft ∨ before = Function.update c.fromLeft i false)
        ∧ next.fromLeft = Function.update before (i + 1) true)
      (fromRight : next.fromRight = c.fromRight)
      (sentRight : next.sentRight = Function.update c.sentRight i (c.sentRight i + 1))
      (sentLeft : next.sentLeft = c.sentLeft)
  /-- The rightmost strand is canceled and tells its left neighbour. -/
  | bounce (running : (c.strands (n + 1)).canceled = false)
      (flags : c.Flags next (n + 1) true (c.strands (n + 1)).leftCanceled)
      (fromLeft : next.fromLeft = c.fromLeft
        ∨ next.fromLeft = Function.update c.fromLeft (n + 1) false)
      (fromRight : next.fromRight = Function.update c.fromRight n true)
      (sentRight : next.sentRight = c.sentRight)
      (sentLeft : next.sentLeft = Function.update c.sentLeft (n + 1) (c.sentLeft (n + 1) + 1))
  /-- A strand in the middle passes the returning cancelation on. -/
  | back (i : Nat) (told : c.fromRight (i + 1) = true) (place : i + 1 ≤ n)
      (first : (c.strands (i + 1)).leftCanceled = false)
      (flags : c.Flags next (i + 1) true true) (fromLeft : next.fromLeft = c.fromLeft)
      (fromRight : next.fromRight
        = Function.update (Function.update c.fromRight (i + 1) false) i true)
      (sentRight : next.sentRight = c.sentRight)
      (sentLeft : next.sentLeft = Function.update c.sentLeft (i + 1) (c.sentLeft (i + 1) + 1))
  /-- The returning cancelation ends here. -/
  | arrive (i : Nat) (told : c.fromRight i = true) (place : i ≤ n)
      (last : i = 0 ∨ (c.strands i).leftCanceled = true)
      (flags : c.Flags next i true (c.strands i).leftCanceled)
      (fromLeft : next.fromLeft = c.fromLeft)
      (fromRight : next.fromRight = Function.update c.fromRight i false)
      (sentRight : next.sentRight = c.sentRight) (sentLeft : next.sentLeft = c.sentLeft)

/-! ## The steps -/

variable {c next final : Chain ε} {i n j : Nat}

theorem act_cancel_canceled (canceled : (c.strands i).canceled = true) (behind : StrandType) :
    c.act i ((c.strands i).cancel behind) = c := by
  simp [act, cancel, canceled]

/-- The callback of one side, after the other effects. -/
theorem foldl_impCancel (info : InteractionInfo) :
    (impCancel info).foldl (perform i) c = { c with
      callbacks := update c.callbacks i (c.callbacks i + info.hasCancel.toNat) } := by
  cases has : info.hasCancel with
  | true => simp [impCancel, has, perform]
  | false => simp [impCancel, has]

/-- A strand that was running is canceled, and its callback runs. -/
theorem flags_of_canceled (running : (c.strands i).canceled = false)
    (strands : next.strands = Function.update c.strands i { c.strands i with canceled := true })
    (callbacks : next.callbacks = update c.callbacks i
      (c.callbacks i + (c.strands i).info.hasCancel.toNat)) :
    c.Flags next i true (c.strands i).leftCanceled := by
  refine ⟨strands, ?_, ?_⟩
  · intro equipped
    rw [callbacks, equipped.1, running]
    rfl
  · intro j other
    rw [callbacks, update_of_ne other]

theorem flags_of_same (canceled : (c.strands i).canceled = true)
    (strands : next.strands = c.strands) (callbacks : next.callbacks = c.callbacks) :
    c.Flags next i true (c.strands i).leftCanceled := by
  refine ⟨?_, ?_, fun j _ => congrFun callbacks j⟩
  · rw [strands, ← canceled, update_eq_self]
  · intro _
    rw [callbacks, canceled]
    exact (update_eq_self i _).symm

/-- The callback of the right side runs unless the strand was canceled. -/
theorem flags_of_right {leftCanceled : Bool} (middle : (c.strands i).strandType = .middle)
    (strands : next.strands = Function.update c.strands i
      { c.strands i with canceled := true, leftCanceled := leftCanceled })
    (callbacks : next.callbacks = update c.callbacks i (c.callbacks i
      + (!(c.strands i).canceled && (c.strands i).infoRight.hasCancel).toNat)) :
    c.Flags next i true leftCanceled := by
  refine ⟨strands, ?_, ?_⟩
  · intro equipped
    rw [callbacks, equipped.2 middle, Bool.and_true, Bool.true_and]
  · intro j other
    rw [callbacks, update_of_ne other]

/-- The effects of `_StrandMethod_Right_Cancel` after the message to the left. -/
theorem foldl_rightCallback (canceled : Bool) (info : InteractionInfo) :
    (if canceled = true then [] else impCancel info).foldl (perform i) c = { c with
      callbacks := update c.callbacks i
        (c.callbacks i + (!canceled && info.hasCancel).toNat) } := by
  cases canceled with
  | true => simp
  | false => simpa using foldl_impCancel info

section

variable (settling : c.Settling n) (place : i ≤ n + 1)
include settling place

theorem Settling.cancel_moves : c.Moves n (c.act i ((c.strands i).cancel .noInteraction)) := by
  cases canceled : (c.strands i).canceled with
  | true =>
    rw [act_cancel_canceled canceled]
    exact .idle i canceled place (flags_of_same canceled rfl rfl) (.inl rfl) rfl rfl rfl
  | false =>
    have live := settling.live i place
    rcases Nat.eq_zero_or_pos i with rfl | positive
    · refine .forward 0 canceled (Nat.zero_le n) (flags_of_canceled canceled ?_ ?_)
        ⟨c.fromLeft, .inl rfl, ?_⟩ ?_ ?_ ?_
      all_goals simp [act, cancel, canceled, cancelPropagate, settling.leftmost,
        live, foldl_impCancel, perform, tellRight]
    · rcases Nat.lt_or_eq_of_le place with inside | rfl
      · have middle := settling.middle i positive (by omega)
        have liveRight := settling.liveRight i positive (by omega)
        refine .forward i canceled (by omega) (flags_of_canceled canceled ?_ ?_)
          ⟨c.fromLeft, .inl rfl, ?_⟩ ?_ ?_ ?_
        all_goals simp [act, cancel, canceled, cancelPropagate, middle,
          liveRight, foldl_impCancel, perform, tellRight]
      · refine .bounce canceled (flags_of_canceled canceled ?_ ?_) (.inl ?_) ?_ ?_ ?_
        all_goals simp [act, cancel, canceled, cancelPropagate,
          settling.rightmost, live, foldl_impCancel, perform, tellLeft]

theorem Settling.left_moves (told : c.fromLeft i = true) :
    c.Moves n (act { c with fromLeft := update c.fromLeft i false } i
      (if i = n + 1 then (c.strands i).methodCancel else (c.strands i).methodLeftCancel)) := by
  have positive : i ≠ 0 := by
    rintro rfl
    cases settling.ends.1.symm.trans told
  have live := settling.live i place
  cases canceled : (c.strands i).canceled with
  | true =>
    refine .idle i canceled place (flags_of_same canceled ?_ ?_) (.inr ?_) ?_ ?_ ?_
    all_goals split <;> simp [act, methodCancel, methodLeftCancel, canceled]
  | false =>
    rcases Nat.lt_or_eq_of_le place with inside | rfl
    · have liveRight := settling.liveRight i (by omega) (by omega)
      rw [if_neg (by omega)]
      refine .forward i canceled (by omega) (flags_of_canceled canceled ?_ ?_)
        ⟨update c.fromLeft i false, .inr rfl, ?_⟩ ?_ ?_ ?_
      all_goals simp [act, methodLeftCancel, canceled, liveRight,
        foldl_impCancel, perform, tellRight]
    · rw [if_pos rfl]
      refine .bounce canceled (flags_of_canceled canceled ?_ ?_) (.inr ?_) ?_ ?_ ?_
      all_goals simp [act, methodCancel, canceled, settling.rightmost, live,
        foldl_impCancel, perform, tellLeft]

theorem Settling.right_moves (told : c.fromRight i = true) :
    c.Moves n (act { c with fromRight := update c.fromRight i false } i
      (if i = 0 then (c.strands i).methodCancel else (c.strands i).methodRightCancel)) := by
  have inside : i ≠ n + 1 := by
    rintro rfl
    cases settling.ends.2.symm.trans told
  have live := settling.live i place
  cases i with
  | zero =>
    rw [if_pos rfl]
    have other : ¬(c.strands 0).strandType = .rightmost := by
      rw [settling.leftmost]
      nofun
    cases canceled : (c.strands 0).canceled with
    | true =>
      refine .arrive 0 told (Nat.zero_le n) (.inl rfl) (flags_of_same canceled ?_ ?_) ?_ ?_ ?_ ?_
      all_goals simp [act, methodCancel, canceled]
    | false =>
      refine .arrive 0 told (Nat.zero_le n) (.inl rfl) (flags_of_canceled canceled ?_ ?_)
        ?_ ?_ ?_ ?_
      all_goals simp [act, methodCancel, canceled, other, foldl_impCancel]
  | succ i =>
    rw [if_neg (Nat.succ_ne_zero i)]
    have middle := settling.middle (i + 1) (Nat.succ_pos i) (by omega)
    cases passed : (c.strands (i + 1)).leftCanceled with
    | true =>
      refine .arrive (i + 1) told (by omega) (.inr passed) (flags_of_right middle ?_ ?_) ?_ ?_ ?_ ?_
      all_goals simp [act, methodRightCancel, passed, foldl_rightCallback]
    | false =>
      refine .back i told (by omega) passed (flags_of_right middle ?_ ?_) ?_ ?_ ?_ ?_
      all_goals simp [act, methodRightCancel, passed, live, middle, perform, tellLeft,
        foldl_rightCallback]

end

theorem step_moves (settling : c.Settling n) {e : ChainEvent} (taken : c.step n e = some next) :
    c.Moves n next := by
  cases e with
  | cancel i =>
    rw [step, ite_none_right_eq_some] at taken
    cases taken.2
    exact settling.cancel_moves taken.1
  | left i =>
    rw [step, ite_none_right_eq_some] at taken
    cases taken.2
    exact settling.left_moves taken.1.1 taken.1.2
  | right i =>
    rw [step, ite_none_right_eq_some] at taken
    cases taken.2
    exact settling.right_moves taken.1.1 taken.1.2

/-! ## What the steps preserve -/

namespace Flags

variable {canceled leftCanceled : Bool}

section

variable (flags : c.Flags next i canceled leftCanceled)
include flags

theorem same (other : j ≠ i) : next.strands j = c.strands j := by
  rw [flags.strands, update_of_ne other]

theorem own :
    next.strands i = { c.strands i with canceled := canceled, leftCanceled := leftCanceled } := by
  rw [flags.strands, update_self]

theorem strandType (j : Nat) : (next.strands j).strandType = (c.strands j).strandType := by
  by_cases own : j = i
  · rw [own, flags.own]
  · rw [flags.same own]

theorem info (j : Nat) :
    (next.strands j).info = (c.strands j).info
      ∧ (next.strands j).infoRight = (c.strands j).infoRight := by
  by_cases own : j = i
  · rw [own, flags.own]
    exact ⟨rfl, rfl⟩
  · rw [flags.same own]
    exact ⟨rfl, rfl⟩

end

/-- Canceled strands stay canceled. -/
theorem canceled_mono (flags : c.Flags next i true leftCanceled)
    (before : (c.strands j).canceled = true) : (next.strands j).canceled = true := by
  by_cases own : j = i
  · rw [own, flags.own]
  · rwa [flags.same own]

theorem reflected_same (flags : c.Flags next i canceled leftCanceled) (n : Nat)
    (other : j ≠ i) : next.reflected n j = c.reflected n j := by
  rw [reflected, reflected, flags.same other]

section

variable (flags : c.Flags next i true leftCanceled)
include flags

/-- The callback of an equipped strand runs when the strand is canceled. -/
theorem callbacks (equipped : Equipped (next.strands j))
    (before : Equipped (c.strands j) → c.callbacks j = (c.strands j).canceled.toNat) :
    next.callbacks j = (next.strands j).canceled.toNat := by
  have had : Equipped (c.strands j) := by
    rw [Equipped, ← (flags.info j).1, ← (flags.info j).2, ← flags.strandType j]
    exact equipped
  by_cases own : j = i
  · subst own
    rw [flags.own, flags.equipped had, update_self, before had]
    cases (c.strands j).canceled <;> rfl
  · rw [flags.same own, flags.others j own, before had]

theorem reflected_own : next.reflected n i = if i = 0 ∨ i = n + 1 then true else leftCanceled := by
  rw [reflected, flags.own]

theorem reflected_mono (passed : (c.strands i).leftCanceled = true → leftCanceled = true)
    (before : c.reflected n j = true) : next.reflected n j = true := by
  by_cases own : j = i
  · subst own
    rw [flags.reflected_own]
    rw [reflected] at before
    split at before
    · exact if_pos ‹_›
    · rw [if_neg ‹_›]
      exact passed before
  · rwa [flags.reflected_same n own]

end

end Flags

/-- A step that cancels the strand at place `i` keeps the chain settling, if what it clears
was for this strand and what it sets is told to the neighbours. -/
theorem Settling.of_flags {leftCanceled : Bool} (settling : c.Settling n)
    (flags : c.Flags next i true leftCanceled)
    (passed : (c.strands i).leftCanceled = true → leftCanceled = true)
    (ends : next.fromLeft 0 = false ∧ next.fromRight (n + 1) = false)
    (keptLeft : ∀ j, j ≠ i → c.fromLeft j = true → next.fromLeft j = true)
    (told : i ≤ n → (c.strands i).canceled = false →
      (next.strands (i + 1)).canceled = true ∨ next.fromLeft (i + 1) = true)
    (keptRight : ∀ j, c.fromRight j = true →
      next.fromRight j = true ∨ next.reflected n j = true)
    (returned : ∀ j, j + 1 = i → c.reflected n i = false → next.reflected n i = true →
      next.fromRight j = true) (arrives : ∀ j ≤ n, next.fromRight j = true →
      c.fromRight j = true ∨ next.reflected n (j + 1) = true)
    (sentRight : ∀ j ≤ n + 1, next.sentRight j ≤ (next.strands j).canceled.toNat)
    (sentLeft : ∀ j ≤ n + 1, next.sentLeft j ≤ (next.reflected n j).toNat) : next.Settling n where
  leftmost := (flags.strandType 0).trans settling.leftmost
  middle j positive inside := (flags.strandType j).trans (settling.middle j positive inside)
  rightmost := (flags.strandType (n + 1)).trans settling.rightmost
  live j place := by
    rw [(flags.info j).1]
    exact settling.live j place
  liveRight j positive inside := by
    rw [(flags.info j).2]
    exact settling.liveRight j positive inside
  ends := ends
  goesRight j place canceled := by
    have kept : (c.strands j).canceled = true →
        (next.strands (j + 1)).canceled = true ∨ next.fromLeft (j + 1) = true := by
      intro before
      by_cases own : j + 1 = i
      · exact .inl (by rw [own, flags.own])
      · exact (settling.goesRight j place before).imp flags.canceled_mono (keptLeft _ own)
    by_cases own : j = i
    · subst own
      cases before : (c.strands j).canceled with
      | true => exact kept before
      | false => exact told place before
    · rw [flags.same own] at canceled
      exact kept canceled
  comesBack j place reflected := by
    have kept : c.reflected n (j + 1) = true →
        next.fromRight j = true ∨ next.reflected n j = true := by
      intro before
      rcases settling.comesBack j place before with waiting | passedOn
      · exact keptRight j waiting
      · exact .inr (flags.reflected_mono passed passedOn)
    by_cases own : j + 1 = i
    · cases before : c.reflected n (j + 1) with
      | true => exact kept before
      | false =>
        rw [own] at before reflected
        exact .inl (returned j own before reflected)
    · rw [flags.reflected_same n own] at reflected
      exact kept reflected
  arrives j place waiting := by
    rcases arrives j place waiting with before | now
    · exact flags.reflected_mono passed (settling.arrives j place before)
    · exact now
  reflects j place reflected := by
    by_cases own : j = i
    · rw [own, flags.own]
    · rw [flags.reflected_same n own] at reflected
      exact flags.canceled_mono (settling.reflects j place reflected)
  sentRight := sentRight
  sentLeft := sentLeft
  callbacks j place equipped := flags.callbacks equipped (settling.callbacks j place)

/-- A count that is not touched stays within the flag, because flags are only set. -/
theorem le_toNat_of_mono {count : Nat} {before after : Bool} (bound : count ≤ before.toNat)
    (mono : before = true → after = true) : count ≤ after.toNat := by
  cases before with
  | true => rwa [mono rfl]
  | false => exact Nat.le_trans bound (Nat.zero_le _)

section

variable {leftCanceled : Bool} (settling : c.Settling n) (flags : c.Flags next i true leftCanceled)
include settling flags

theorem Settling.sentRight_of_same (sentRight : next.sentRight = c.sentRight) :
    ∀ j ≤ n + 1, next.sentRight j ≤ (next.strands j).canceled.toNat := by
  intro j place
  rw [sentRight]
  exact le_toNat_of_mono (settling.sentRight j place) flags.canceled_mono

theorem Settling.sentLeft_of_same
    (passed : (c.strands i).leftCanceled = true → leftCanceled = true)
    (sentLeft : next.sentLeft = c.sentLeft) :
    ∀ j ≤ n + 1, next.sentLeft j ≤ (next.reflected n j).toNat := by
  intro j place
  rw [sentLeft]
  exact le_toNat_of_mono (settling.sentLeft j place) (flags.reflected_mono passed)

/-- The first message to the left is sent as the strand lets the cancelation pass. -/
theorem Settling.sentLeft_of_first (place : i ≤ n + 1)
    (first : c.reflected n i = false) (now : next.reflected n i = true)
    (sentLeft : next.sentLeft = Function.update c.sentLeft i (c.sentLeft i + 1)) :
    ∀ j ≤ n + 1, next.sentLeft j ≤ (next.reflected n j).toNat := by
  intro j inside
  by_cases own : j = i
  · have none := settling.sentLeft i place
    rw [first] at none
    rw [own, now, sentLeft, update_self]
    exact Nat.succ_le_succ none
  · rw [sentLeft, update_of_ne own, flags.reflected_same n own]
    exact settling.sentLeft j inside

end

/-- Clearing the bit of one strand keeps the others. -/
theorem update_false_of_ne {told : Nat → Bool} {next : Nat → Bool}
    (cleared : next = told ∨ next = Function.update told i false) (other : j ≠ i)
    (before : told j = true) : next j = true := by
  rcases cleared with rfl | rfl
  · exact before
  · rwa [update_of_ne other]

theorem update_false_of_false {told : Nat → Bool} {next : Nat → Bool}
    (cleared : next = told ∨ next = Function.update told i false)
    (before : told j = false) : next j = false := by
  rcases cleared with rfl | rfl
  · exact before
  · rw [update_apply, before, ite_self]

theorem Moves.settling (moves : c.Moves n next) (settling : c.Settling n) : next.Settling n := by
  cases moves with
  | idle i canceled place flags fromLeft fromRight sentRight sentLeft =>
    refine settling.of_flags flags id ⟨update_false_of_false fromLeft settling.ends.1, ?_⟩
      (fun j other before => update_false_of_ne fromLeft other before) ?_ ?_ ?_ ?_
      (settling.sentRight_of_same flags sentRight)
      (settling.sentLeft_of_same flags id sentLeft)
    · rw [fromRight]
      exact settling.ends.2
    · intro _ running
      cases canceled.symm.trans running
    · intro j before
      rw [fromRight]
      exact .inl before
    · intro j own before now
      -- Nothing is let pass, since the strand was canceled and keeps its other flag.
      rw [flags.reflected_own] at now
      rw [reflected, canceled] at before
      cases before.symm.trans now
    · intro j _ waiting
      rw [fromRight] at waiting
      exact .inl waiting
  | forward i running place flags fromLeft fromRight sentRight sentLeft =>
    obtain ⟨before, cleared, fromLeft⟩ := fromLeft
    have told : next.fromLeft (i + 1) = true := by rw [fromLeft, update_self]
    refine settling.of_flags flags id ⟨?_, ?_⟩ ?_ (fun _ _ => .inr told) ?_ ?_ ?_ ?_
      (settling.sentLeft_of_same flags id sentLeft)
    · rw [fromLeft, update_of_ne (Nat.succ_ne_zero i).symm]
      exact update_false_of_false cleared settling.ends.1
    · rw [fromRight]
      exact settling.ends.2
    · intro j other waiting
      rw [fromLeft, update_apply, update_false_of_ne cleared other waiting, ite_self]
    · intro j waiting
      rw [fromRight]
      exact .inl waiting
    · intro j own before now
      rw [flags.reflected_own, if_neg (by omega)] at now
      rw [reflected, if_neg (by omega), now] at before
      cases before
    · intro j _ waiting
      rw [fromRight] at waiting
      exact .inl waiting
    · intro j inside
      by_cases own : j = i
      · have none := settling.sentRight i (by omega)
        rw [running] at none
        rw [own, flags.own, sentRight, update_self]
        exact Nat.succ_le_succ none
      · rw [sentRight, update_of_ne own, flags.same own]
        exact settling.sentRight j inside
  | bounce running flags fromLeft fromRight sentRight sentLeft =>
    have now : next.reflected n (n + 1) = true := by
      rw [flags.reflected_own, if_pos (.inr rfl)]
    have first : c.reflected n (n + 1) = false := by rwa [reflected, if_pos (.inr rfl)]
    refine settling.of_flags flags id ⟨update_false_of_false fromLeft settling.ends.1, ?_⟩
      (fun j other before => update_false_of_ne fromLeft other before) ?_ ?_ ?_ ?_
      (settling.sentRight_of_same flags sentRight)
      (settling.sentLeft_of_first flags (Nat.le_refl _) first now sentLeft)
    · rw [fromRight, update_of_ne (Nat.succ_ne_self n)]
      exact settling.ends.2
    · intro place
      omega
    · intro j waiting
      rw [fromRight, update_apply, waiting, ite_self]
      exact .inl rfl
    · intro j own _ _
      rw [fromRight, Nat.succ.inj own, update_self]
    · intro j _ waiting
      by_cases last : j = n
      · rw [last]
        exact .inr now
      · rw [fromRight, update_of_ne last] at waiting
        exact .inl waiting
  | back i told place first flags fromLeft fromRight sentRight sentLeft =>
    have now : next.reflected n (i + 1) = true := by
      rw [flags.reflected_own, ite_self]
    have before : c.reflected n (i + 1) = false := by rwa [reflected, if_neg (by omega)]
    refine settling.of_flags flags (fun _ => rfl) ⟨?_, ?_⟩ ?_ ?_ ?_ ?_ ?_
      (settling.sentRight_of_same flags sentRight)
      (settling.sentLeft_of_first flags (by omega) before now sentLeft)
    · rw [fromLeft]
      exact settling.ends.1
    · rw [fromRight, update_of_ne (by omega), update_of_ne (by omega)]
      exact settling.ends.2
    · intro j _ waiting
      rwa [fromLeft]
    · intro _ _
      -- The message came from a right neighbour that is canceled.
      have neighbour := settling.arrives (i + 1) place told
      exact .inl (flags.canceled_mono (settling.reflects (i + 2) (by omega) neighbour))
    · intro j waiting
      by_cases own : j = i + 1
      · rw [own]
        exact .inr now
      · rw [fromRight, update_apply, update_of_ne own, waiting, ite_self]
        exact .inl rfl
    · intro j own _ _
      rw [fromRight, Nat.succ.inj own, update_self]
    · intro j _ waiting
      by_cases left : j = i
      · rw [left]
        exact .inr now
      · rw [fromRight, update_of_ne left, update_apply] at waiting
        split at waiting
        · cases waiting
        · exact .inl waiting
  | arrive i told place last flags fromLeft fromRight sentRight sentLeft =>
    have now : next.reflected n i = true := by
      rw [flags.reflected_own]
      rcases last with rfl | passed
      · exact if_pos (.inl rfl)
      · rw [passed, ite_self]
    refine settling.of_flags flags id ⟨?_, ?_⟩ ?_ ?_ ?_ ?_ ?_
      (settling.sentRight_of_same flags sentRight)
      (settling.sentLeft_of_same flags id sentLeft)
    · rw [fromLeft]
      exact settling.ends.1
    · rw [fromRight, update_of_ne (by omega)]
      exact settling.ends.2
    · intro j _ waiting
      rwa [fromLeft]
    · intro _ _
      have neighbour := settling.arrives i place told
      exact .inl (flags.canceled_mono (settling.reflects (i + 1) (by omega) neighbour))
    · intro j waiting
      by_cases own : j = i
      · rw [own]
        exact .inr now
      · rw [fromRight, update_of_ne own]
        exact .inl waiting
    · intro j own before _
      rcases last with rfl | passed
      · cases own
      · rw [reflected, if_neg (by omega), passed] at before
        cases before
    · intro j _ waiting
      rw [fromRight, update_apply] at waiting
      split at waiting
      · cases waiting
      · exact .inl waiting

theorem Fresh.settling (fresh : c.Fresh n) : c.Settling n where
  leftmost := fresh.leftmost
  middle := fresh.middle
  rightmost := fresh.rightmost
  live := fresh.live
  liveRight := fresh.liveRight
  ends := ⟨(fresh.quiet 0 (Nat.zero_le _)).1, (fresh.quiet (n + 1) (Nat.le_refl _)).2⟩
  goesRight i place canceled := by
    cases (fresh.running i (by omega)).1.symm.trans canceled
  comesBack i place passed := by
    rw [reflected, (fresh.running (i + 1) (by omega)).1, (fresh.running (i + 1) (by omega)).2,
      ite_self] at passed
    cases passed
  arrives i place waiting := by
    cases (fresh.quiet i (by omega)).2.symm.trans waiting
  reflects i place passed := by
    rw [reflected, (fresh.running i place).1, (fresh.running i place).2, ite_self] at passed
    cases passed
  sentRight i place := (fresh.counts i place).2.2.trans_le (Nat.zero_le _)
  sentLeft i place := (fresh.counts i place).2.1.trans_le (Nat.zero_le _)
  callbacks i place _ := by
    rw [(fresh.counts i place).1, (fresh.running i place).1]
    rfl

theorem Moves.canceled_mono (moves : c.Moves n next) (before : (c.strands j).canceled = true) :
    (next.strands j).canceled = true := by
  cases moves with
  | idle i canceled place flags fromLeft fromRight sentRight sentLeft
  | forward i running place flags fromLeft fromRight sentRight sentLeft
  | bounce running flags fromLeft fromRight sentRight sentLeft
  | back i told place first flags fromLeft fromRight sentRight sentLeft
  | arrive i told place last flags fromLeft fromRight sentRight sentLeft =>
    exact flags.canceled_mono before

@[simp] theorem perform_strands (e : Effect ε) : (perform i c e).strands = c.strands := by
  cases e with
  | cancelOther =>
    rw [perform]
    split
    · rfl
    · rfl
  | _ => rfl

theorem foldl_perform_strands (effects : List (Effect ε)) :
    (effects.foldl (perform i) c).strands = c.strands := by
  induction effects generalizing c with
  | nil => rfl
  | cons e effects ih => rw [foldl_cons, ih, perform_strands]

/-- `Strand_Cancel` cancels its strand at once. -/
theorem step_cancel_canceled (taken : c.step n (.cancel i) = some next) :
    i ≤ n + 1 ∧ (next.strands i).canceled = true := by
  rw [step, ite_none_right_eq_some] at taken
  cases taken.2
  refine ⟨taken.1, ?_⟩
  rw [act, foldl_perform_strands]
  change (update c.strands i _ i).canceled = true
  rw [update_self, cancel]
  split
  · assumption
  · rfl

/-- No cancelation is under way. -/
def Quiet (n : Nat) (c : Chain ε) : Prop :=
  ∀ i ≤ n + 1, c.fromLeft i = false ∧ c.fromRight i = false

section

variable (settling : c.Settling n)
include settling

section

variable (ends : Run.run (step n) c events = some final)
include ends

theorem Settling.run : final.Settling n := by
  refine Run.invariant_of_steps ?_ settling ends
  intro c e next settling taken
  exact (step_moves settling taken).settling settling

theorem Settling.run_canceled (before : (c.strands i).canceled = true) :
    (final.strands i).canceled = true := by
  let Inv (c : Chain ε) : Prop := c.Settling n ∧ (c.strands i).canceled = true
  have kept : Inv final := by
    refine Run.invariant_of_steps ?_ (⟨settling, before⟩ : Inv c) ends
    rintro c e next ⟨settling, before⟩ taken
    have moves := step_moves settling taken
    exact ⟨moves.settling settling, moves.canceled_mono before⟩
  exact kept.2

theorem Settling.run_cancel (asked : .cancel i ∈ events) :
    i ≤ n + 1 ∧ (final.strands i).canceled = true := by
  induction events generalizing c with
  | nil => cases asked
  | cons e events ih =>
    obtain ⟨next, taken, rest⟩ := bind_eq_some_iff.mp ends
    have later := (step_moves settling taken).settling settling
    rcases mem_cons.mp asked with rfl | asked
    · obtain ⟨place, canceled⟩ := step_cancel_canceled taken
      exact ⟨place, later.run_canceled rest canceled⟩
    · exact ih later rest asked

end

/-- Without anything under way a cancelation has reached the right end. -/
theorem Settling.canceled_right (quiet : c.Quiet n) (place : i ≤ n + 1)
    (canceled : (c.strands i).canceled = true) : (c.strands (n + 1)).canceled = true := by
  induction place using Nat.decreasingInduction with
  | self => exact canceled
  | of_succ i inside ih =>
    apply ih
    rcases settling.goesRight i (by omega) canceled with told | waiting
    · exact told
    · cases (quiet (i + 1) inside).1.symm.trans waiting

/-- From the right end it has come back to every strand. -/
theorem Settling.reflected_of_last (quiet : c.Quiet n)
    (last : (c.strands (n + 1)).canceled = true) (place : i ≤ n + 1) : c.reflected n i = true := by
  induction place using Nat.decreasingInduction with
  | self => rwa [reflected, if_pos (.inr rfl)]
  | of_succ i inside ih =>
    rcases settling.comesBack i (by omega) ih with waiting | passed
    · cases (quiet i (by omega)).2.symm.trans waiting
    · exact passed

theorem Settling.all_canceled (quiet : c.Quiet n) (place : i ≤ n + 1)
    (canceled : (c.strands i).canceled = true) (other : j ≤ n + 1) :
    (c.strands j).canceled = true :=
  settling.reflects j other
    (settling.reflected_of_last quiet (settling.canceled_right quiet place canceled) other)

end

/-! ## The number of messages -/

/-- The cancelations under way. -/
def waiting (n : Nat) (c : Chain ε) : Nat :=
  ∑ i ∈ Finset.range (n + 2), ((c.fromLeft i).toNat + (c.fromRight i).toNat)

/-- The cancelations sent so far. -/
def sent (n : Nat) (c : Chain ε) : Nat :=
  ∑ i ∈ Finset.range (n + 2), (c.sentLeft i + c.sentRight i)

/-- A sum over the chain. -/
def total (n : Nat) (f : Nat → Nat) : Nat := ∑ i ∈ Finset.range (n + 2), f i

theorem waiting_eq :
    c.waiting n = total n (Bool.toNat ∘ c.fromLeft) + total n (Bool.toNat ∘ c.fromRight) :=
  Finset.sum_add_distrib

theorem sent_eq : c.sent n = total n c.sentLeft + total n c.sentRight :=
  Finset.sum_add_distrib

theorem total_update (f : Nat → Nat) (v : Nat) (place : i ≤ n + 1) :
    total n (Function.update f i v) + f i = total n f + v := by
  have inside : i ∈ Finset.range (n + 2) := Finset.mem_range.mpr (Nat.lt_succ_of_le place)
  rw [total, total, Finset.sum_update_of_mem inside,
    Finset.sum_eq_add_sum_sdiff_singleton_of_mem inside]
  omega

/-- What waits on one side after a message was put at a place or taken from it. -/
theorem total_toNat_update (told : Nat → Bool) (b : Bool) (place : i ≤ n + 1 ∨ b = true) :
    total n (Bool.toNat ∘ Function.update told i b) + (told i).toNat
      ≤ total n (Bool.toNat ∘ told) + b.toNat := by
  rw [comp_update]
  by_cases inside : i ≤ n + 1
  · exact Nat.le_of_eq (total_update _ _ inside)
  · have outside : i ∉ Finset.range (n + 2) := by
      rw [Finset.mem_range]
      omega
    rw [total, Finset.sum_update_of_notMem outside, place.resolve_left inside]
    exact Nat.add_le_add_left (Bool.toNat_le _) _

/-- Every cancelation under way was sent. -/
def Pays (n : Nat) (c next : Chain ε) : Prop :=
  next.waiting n + c.sent n ≤ c.waiting n + next.sent n

theorem tellRight_pays (place : i ≤ n + 1) : c.Pays n (c.tellRight i) := by
  have more : _ + _ ≤ _ + 1 := total_toNat_update (n := n) (i := i + 1) c.fromLeft true (.inr rfl)
  have counted := total_update c.sentRight (c.sentRight i + 1) place
  simp only [Pays, waiting_eq, sent_eq, tellRight]
  omega

theorem tellLeft_pays (place : i ≤ n + 1) : c.Pays n (c.tellLeft i) := by
  have more : _ + _ ≤ _ + 1 := total_toNat_update (n := n) (i := i - 1) c.fromRight true (.inr rfl)
  have counted := total_update c.sentLeft (c.sentLeft i + 1) place
  simp only [Pays, waiting_eq, sent_eq, tellLeft]
  omega

theorem perform_pays (place : i ≤ n + 1) (e : Effect ε) : c.Pays n (perform i c e) := by
  cases e with
  | cancelRight => exact tellRight_pays place
  | cancelOther =>
    rw [perform]
    split
    · exact tellRight_pays place
    · exact tellLeft_pays place
  | view _ | cancelEntry _ | cancelParent | callback => exact Nat.le_refl _

theorem act_pays (place : i ≤ n + 1) (c : Chain ε) (out : Strand ε × List (Effect ε)) :
    c.Pays n (c.act i out) := by
  have effects (effects : List (Effect ε)) (c : Chain ε) :
      c.Pays n (effects.foldl (perform i) c) := by
    induction effects generalizing c with
    | nil => exact Nat.le_refl _
    | cons e effects ih =>
      have first : c.Pays n (perform i c e) := perform_pays place e
      have rest := ih (perform i c e)
      rw [foldl_cons]
      rw [Pays] at first rest ⊢
      omega
  exact effects out.2 { c with strands := update c.strands i out.1 }

end Chain

/-- A method for a cancelation that has arrived. -/
def ChainEvent.isMethod : ChainEvent → Bool
  | .cancel _ => false
  | .left _ => true
  | .right _ => true

namespace Chain

variable {c final : Chain ε}

/-- A method uses up the cancelation it was scheduled for. -/
theorem step_pays {n : Nat} {next : Chain ε} {e : ChainEvent} (taken : c.step n e = some next) :
    next.waiting n + c.sent n + e.isMethod.toNat ≤ c.waiting n + next.sent n := by
  cases e with
  | cancel i =>
    rw [step, ite_none_right_eq_some] at taken
    cases taken.2
    exact act_pays taken.1 c _
  | left i =>
    rw [step, ite_none_right_eq_some] at taken
    cases taken.2
    have used := total_toNat_update c.fromLeft false (.inl taken.1.1)
    have paid := act_pays taken.1.1 { c with fromLeft := update c.fromLeft i false }
      (if i = n + 1 then (c.strands i).methodCancel else (c.strands i).methodLeftCancel)
    rw [taken.1.2] at used
    simp only [Pays, waiting_eq, sent_eq, ChainEvent.isMethod, Bool.toNat_true,
      Bool.toNat_false] at paid used ⊢
    omega
  | right i =>
    rw [step, ite_none_right_eq_some] at taken
    cases taken.2
    have used := total_toNat_update c.fromRight false (.inl taken.1.1)
    have paid := act_pays taken.1.1 { c with fromRight := update c.fromRight i false }
      (if i = 0 then (c.strands i).methodCancel else (c.strands i).methodRightCancel)
    rw [taken.1.2] at used
    simp only [Pays, waiting_eq, sent_eq, ChainEvent.isMethod, Bool.toNat_true,
      Bool.toNat_false] at paid used ⊢
    omega

theorem run_pays {n : Nat} (ends : Run.run (step n) c events = some final) :
    final.waiting n + c.sent n + events.countP ChainEvent.isMethod
      ≤ c.waiting n + final.sent n := by
  induction events generalizing c with
  | nil =>
    cases ends
    exact Nat.le_refl _
  | cons e events ih =>
    obtain ⟨next, taken, rest⟩ := bind_eq_some_iff.mp ends
    have here := step_pays taken
    have later := ih rest
    have counted : (e :: events).countP ChainEvent.isMethod
        = events.countP ChainEvent.isMethod + e.isMethod.toNat := by
      rw [countP_cons]
      cases e.isMethod <;> rfl
    omega

theorem Settling.sent_le {n : Nat} (settling : c.Settling n) : c.sent n ≤ 2 * (n + 2) := by
  calc c.sent n ≤ ∑ _i ∈ Finset.range (n + 2), 2 := by
        apply Finset.sum_le_sum
        intro i inside
        have place : i ≤ n + 1 := Nat.le_of_lt_succ (Finset.mem_range.mp inside)
        have left := Nat.le_trans (settling.sentLeft i place) (Bool.toNat_le _)
        have right := Nat.le_trans (settling.sentRight i place) (Bool.toNat_le _)
        omega
    _ = 2 * (n + 2) := by
        rw [Finset.sum_const_nat fun _ _ => rfl, Finset.card_range, Nat.mul_comm]

/-- Nothing was sent before the first step. -/
theorem Fresh.run_methods {n : Nat} (fresh : c.Fresh n)
    (ends : Run.run (step n) c events = some final) :
    events.countP ChainEvent.isMethod ≤ 2 * (n + 2) := by
  have none : c.waiting n = 0 := by
    apply Finset.sum_eq_zero
    intro i inside
    have place : i ≤ n + 1 := Nat.le_of_lt_succ (Finset.mem_range.mp inside)
    rw [(fresh.quiet i place).1, (fresh.quiet i place).2]
    rfl
  have paid := run_pays ends
  have few := (fresh.settling.run ends).sent_le
  omega

end Chain

/-! ## A parent on the left -/

/-- The effect cancels another strand. -/
def Effect.cancels : Effect ε → Bool
  | .cancelOther => true
  | .cancelRight => true
  | .cancelEntry _ => true
  | .cancelParent => true
  | .view _ => false
  | .callback => false

namespace Strand

/-- What a parent should do when it is canceled: it cancels its entries, unless it was
canceled before, and is read as the structure it is part of. -/
structure CancelsEntries (s : Strand ε) (effects : List (Effect ε)) : Prop where
  entries : effects.filter Effect.cancels
    = if s.canceled then [] else s.entries.map .cancelEntry
  own : ∀ kind, .view kind ∈ effects → kind = s.strandType.kind

theorem cancelsEntries_iff {s : Strand ε} (parent : s.strandType = .parentLeft)
    (behind : StrandType) :
    s.CancelsEntries (s.cancel behind).2 ↔ s.canceled = true := by
  constructor
  · intro proper
    cases canceled : s.canceled with
    | true => rfl
    | false =>
      have seen : Effect.view .strandEntry ∈ (s.cancel behind).2 := by
        simp [cancel, canceled, cancelPropagate, parent]
      have wrong := proper.own .strandEntry seen
      rw [parent] at wrong
      cases wrong
  · intro canceled
    rw [cancel, if_pos canceled]
    refine ⟨?_, ?_⟩
    · rw [if_pos canceled]
      rfl
    · intro kind seen
      cases seen

end Strand

/-- In a chain with open interactions a cancelation reaches every strand once nothing is under
way, with one callback each, and at most two messages are sent by each strand and at most two
methods run for it, wherever and however often it was started. A parent on the left keeps to
its entries and its own fields exactly if it was canceled before. -/
theorem cancel_reaches_all :
    (∀ (n : Nat) (c final : Chain ε) (events : List ChainEvent), c.Fresh n →
      Run.run (Chain.step n) c events = some final →
      (∀ i ≤ n + 1, final.sentLeft i ≤ 1 ∧ final.sentRight i ≤ 1)
      ∧ events.countP ChainEvent.isMethod ≤ 2 * (n + 2)
      ∧ ((∃ i, .cancel i ∈ events) → final.Quiet n → ∀ i ≤ n + 1,
          (final.strands i).canceled = true
          ∧ (Chain.Equipped (final.strands i) → final.callbacks i = 1)))
    ∧ ∀ (s : Strand ε) (behind : StrandType), s.strandType = .parentLeft →
      (s.CancelsEntries (s.cancel behind).2 ↔ s.canceled = true) := by
  refine ⟨?_, fun s behind parent => cancelsEntries_iff parent behind⟩
  intro n c final events fresh ends
  have settling := fresh.settling.run ends
  refine ⟨?_, fresh.run_methods ends, ?_⟩
  · intro i place
    exact ⟨Nat.le_trans (settling.sentLeft i place) (Bool.toNat_le _),
      Nat.le_trans (settling.sentRight i place) (Bool.toNat_le _)⟩
  · rintro ⟨i, asked⟩ quiet j place
    obtain ⟨inside, started⟩ := fresh.settling.run_cancel ends asked
    have canceled := settling.all_canceled quiet inside started place
    refine ⟨canceled, ?_⟩
    intro equipped
    rw [settling.callbacks j place equipped, canceled]
    rfl

/-- A chain as its interactions have just been opened. -/
def Chain.opened (ε : Type u) (n : Nat) : Chain ε where
  strands i :=
    { strandType := if i = 0 then .leftmost else if i = n + 1 then .rightmost else .middle
      canceled := false
      leftCanceled := false
      info := ⟨true, false, true⟩
      infoRight := ⟨true, false, true⟩
      entries := [] }
  fromLeft _ := false
  fromRight _ := false
  callbacks _ := 0
  sentLeft _ := 0
  sentRight _ := 0

theorem Chain.opened_fresh (n : Nat) : (Chain.opened ε n).Fresh n where
  leftmost := rfl
  middle i positive inside := by
    have place : i ≠ 0 ∧ i ≠ n + 1 := by omega
    simp [opened, place]
  rightmost := by simp [opened]
  live _ _ := rfl
  liveRight _ _ _ := rfl
  running _ _ := ⟨rfl, rfl⟩
  quiet _ _ := ⟨rfl, rfl⟩
  counts _ _ := ⟨rfl, rfl, rfl⟩

/-- The strand in the middle of three is canceled. -/
theorem cancel_reaches_all_three :
    ∃ final, Run.run (Chain.step 1) (Chain.opened Unit 1)
        [.cancel 1, .left 2, .right 1, .right 0] = some final
      ∧ final.Quiet 1 ∧ ∀ i ≤ 2, (final.strands i).canceled = true := by
  refine ⟨_, rfl, ?quiet, ?canceled⟩
  case quiet =>
    rw [Chain.Quiet]
    decide
  case canceled =>
    intro i place
    refine ((cancel_reaches_all.1 1 _ _ [.cancel 1, .left 2, .right 1, .right 0]
      (Chain.opened_fresh 1) rfl).2.2 ⟨1, ?_⟩ ?_ i place).1
    · exact mem_cons_self
    · rw [Chain.Quiet]
      decide

/-- A parent with one entry that is open on its left also cancels that interaction, as an
entry would. -/
theorem cancel_parentLeft_falls_through :
    ∃ s : Strand Unit, s.strandType = .parentLeft ∧ s.canceled = false
      ∧ (s.cancel .noInteraction).2.filter Effect.cancels = [.cancelEntry (), .cancelOther]
      ∧ Effect.view .strandEntry ∈ (s.cancel .noInteraction).2
      ∧ ¬s.CancelsEntries (s.cancel .noInteraction).2 := by
  refine ⟨⟨.parentLeft, false, false, ⟨true, false, true⟩, ⟨false, false, false⟩, [()]⟩,
    rfl, rfl, rfl, by decide, ?_⟩
  rw [cancelsEntries_iff rfl]
  exact Bool.false_ne_true

end Omi.Strands
