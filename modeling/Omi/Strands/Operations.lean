import Omi.Strands.Many

/-!
# Every operation is performed once

An entry whose operation is scheduled and not performed is in exactly one place,
the list of the parent or the list of those to retry. So what an entry has asked
for is what was performed for it and what is outstanding, whatever the operations
do. Nothing is left lying: an entry that was just pushed still has to schedule the
parent, or the parent is scheduled, or it will pop the entry in the pass it is in;
and an entry to retry waits for a parent that is blocked.
-/

namespace Omi.Strands

open List Option Function EntryState

variable {ε ο σ α β : Type}

/-- The entries to retry of a pass. -/
def Pass.retryList : Pass ε → List ε
  | .idle => []
  | .popping _ retryList => retryList
  | .restoring _ retryList => retryList

/-- The pass goes through the list once more. -/
def Pass.popsLater : Pass ε → Bool
  | .idle => false
  | .popping _ _ => true
  | .restoring second _ => !second

/-- What the methods of a parent have to do about being blocked: only a blocked parent has an
operation retried, it stays blocked through operations, and a method that ends this schedules
the operations if some have to be retried. Only final operations delete the entry. -/
structure ManyMethods.Lawful (m : ManyMethods ε ο σ α β) (blocked : σ → Prop) : Prop where
  deletes : ∀ s e op, (m.perform s e op).1 = .deleted → m.final op = true
  retries : ∀ s e op, (m.perform s e op).1 = .retry → blocked s
  keeps : ∀ s e op, blocked s → blocked (m.perform s e op).2
  parent : ∀ s a out, m.parent s true a = some out → blocked s → blocked out.1 ∨ out.2 = true
  outside : ∀ s b next, m.outside s b = some next → blocked s → blocked next

variable {final : ο → Bool}

namespace EntryState

theorem perm_insertPending (kind : ο → Nat) (op : ο) (ops : List ο) :
    (insertPending kind op ops).Perm (ops ++ [op]) := by
  induction ops with
  | nil => exact .refl _
  | cons next rest ih =>
    rw [insertPending]
    split
    · exact (perm_append_singleton op (next :: rest)).symm
    · exact ih.cons next

/-- The operation is scheduled and not performed. -/
def waits (s : EntryState ο) : Bool := s.operationScheduled.isSome && !s.completing

theorem outstanding_of_completing {s : EntryState ο} (completing : s.completing = true) :
    s.outstanding = s.operationsPending := by
  rw [outstanding, completing]
  rfl

/-- A final operation is the last one. -/
structure Final (final : ο → Bool) (s : EntryState ο) : Prop where
  alone : ∀ op ∈ s.outstanding, final op = true → s.outstanding = [op]
  gone : s.deleted = true → s.outstanding = []

theorem Final.congr {s next : EntryState ο} (kept : s.Final final)
    (outstanding : next.outstanding = s.outstanding) (deleted : next.deleted = s.deleted) :
    next.Final final where
  alone := by
    rw [outstanding]
    exact kept.alone
  gone := by
    rw [outstanding, deleted]
    exact kept.gone

/-- An operation that is not final is added to others that are not. -/
theorem Final.of_forall {s : EntryState ο}
    (none : ∀ op ∈ s.outstanding, final op = false) (alive : s.deleted = false) :
    s.Final final where
  alone op mem isFinal := by cases (none op mem).symm.trans isFinal
  gone deleted := by cases alive.symm.trans deleted

end EntryState

namespace Many

variable [DecidableEq ε]

/-- The part of a record that is about one entry. -/
def forEntry (e : ε) (log : List (ε × ο)) : List ο :=
  (log.filter fun done => done.1 = e).map Prod.snd

/-- What was performed for an entry. -/
def performedFor (s : Many ε ο σ) (e : ε) : List ο := forEntry e s.performed

/-- The places in which an entry waits. -/
def places (s : Many ε ο σ) : List ε := s.pending.map Pending.entry ++ s.pass.retryList

/-- What every step preserves of an entry. -/
structure KeptAt (s : Many ε ο σ) (e : ε) : Prop where
  located : s.places.count e = (s.entries e).waits.toNat
  ledger : (s.requested e).Perm (s.performedFor e ++ (s.entries e).outstanding)
  last : (s.entries e).operationScheduled = none → (s.entries e).deleted = false →
    (s.entries e).operationsPending = []
  completes : (s.entries e).completing = true → (s.entries e).operationScheduled ≠ none
  notified : (s.entries e).notified = ((s.entries e).completing || (s.entries e).executing)
  gone : (s.entries e).deleted = true → (s.entries e).operationScheduled = none

/-- What every step preserves. -/
def Kept (s : Many ε ο σ) : Prop := ∀ e, s.KeptAt e

/-- The parent is scheduled, or pops in this pass what is in the list. -/
def Wakes (s : Many ε ο σ) : Prop := s.scheduled = true ∨ s.pass.popsLater = true

/-- Nobody waits for nothing. -/
structure Attended (blocked : σ → Prop) (s : Many ε ο σ) : Prop where
  fresh : ∀ p ∈ s.pending, p.fresh = true → (s.entries p.entry).announcing = true ∨ s.Wakes
  retried : ∀ p ∈ s.pending, p.fresh = false →
    s.Wakes ∨ s.pendingRetry = true ∧ blocked s.parent
  retrying : s.pass.retryList ≠ [] → s.pendingRetry = true ∧ blocked s.parent

/-- No method is scheduled or runs. -/
def Quiet (s : Many ε ο σ) : Prop :=
  s.pass = .idle ∧ s.scheduled = false ∧ ∀ e, (s.entries e).announcing = false
    ∧ (s.entries e).notified = false ∧ (s.entries e).executing = false

theorem kept_init (parent : σ) : (init parent : Many ε ο σ).Kept := fun _ =>
  { located := rfl
    ledger := .refl _
    last := fun _ _ => rfl
    completes := fun completing => by cases completing
    notified := rfl
    gone := fun deleted => by cases deleted }

omit [DecidableEq ε] in
theorem attended_init (blocked : σ → Prop) (parent : σ) :
    (init parent : Many ε ο σ).Attended blocked where
  fresh _ mem := by cases mem
  retried _ mem := by cases mem
  retrying nonempty := absurd rfl nonempty

variable {s next : Many ε ο σ} {blocked : σ → Prop} {e other : ε} {op : ο} {p : Pending ε}
  {rest : List (Pending ε)} {m : ManyMethods ε ο σ α β} {event : ManyEvent ε ο α β}

/-- In a quiet parent that is not blocked no entry waits. -/
theorem Kept.outstanding_eq_nil (kept : s.Kept) (attended : s.Attended blocked) (quiet : s.Quiet)
    (free : ¬blocked s.parent) (alive : (s.entries e).deleted = false) :
    (s.entries e).outstanding = [] := by
  obtain ⟨idle, unscheduled, calm⟩ := quiet
  have asleep : ¬s.Wakes := by
    rintro (scheduled | pops)
    · cases unscheduled.symm.trans scheduled
    · rw [idle] at pops
      cases pops
  have empty : s.pending = [] := by
    rw [eq_nil_iff_forall_not_mem]
    intro p mem
    cases fresh : p.fresh with
    | true =>
      rcases attended.fresh p mem fresh with announcing | wakes
      · cases (calm p.entry).1.symm.trans announcing
      · exact asleep wakes
    | false =>
      rcases attended.retried p mem fresh with wakes | waits
      · exact asleep wakes
      · exact free waits.2
  have calm : (s.entries e).completing = false := by
    have notified := (kept e).notified
    rw [(calm e).2.1, eq_comm, Bool.or_eq_false_iff] at notified
    exact notified.1
  have nowhere := (kept e).located
  have none : (s.entries e).operationScheduled = none := by
    rw [places, empty, idle, waits, calm] at nowhere
    cases scheduled : (s.entries e).operationScheduled with
    | none => rfl
    | some op =>
      rw [scheduled] at nowhere
      cases nowhere
  rw [outstanding, calm, none, (kept e).last none alive]
  rfl

/-! ## One entry changes -/

variable {entry : EntryState ο}

@[simp]
theorem setEntry_self : (s.setEntry e entry).entries e = entry := update_self ..

@[simp]
theorem setEntry_of_ne (ne : other ≠ e) :
    (s.setEntry e entry).entries other = s.entries other := update_of_ne ne ..

theorem asked_self : (s.asked e op).requested e = s.requested e ++ [op] := update_self ..

theorem asked_of_ne (s : Many ε ο σ) (op : ο) (ne : other ≠ e) :
    (s.asked e op).requested other = s.requested other := update_of_ne ne ..

/-- What is preserved of an entry depends on its own part of the state. -/
theorem KeptAt.congr (kept : s.KeptAt e) (places : next.places.count e = s.places.count e)
    (entries : next.entries e = s.entries e) (requested : next.requested e = s.requested e)
    (performed : next.performedFor e = s.performedFor e) : next.KeptAt e where
  located := by rw [places, entries, kept.located]
  ledger := by
    rw [requested, performed, entries]
    exact kept.ledger
  last := by
    rw [entries]
    exact kept.last
  completes := by
    rw [entries]
    exact kept.completes
  notified := by
    rw [entries]
    exact kept.notified
  gone := by
    rw [entries]
    exact kept.gone

theorem forEntry_append_self (log : List (ε × ο)) :
    forEntry e (log ++ [(e, op)]) = forEntry e log ++ [op] := by
  simp [forEntry]

theorem forEntry_append_of_ne (log : List (ε × ο)) (op : ο) (ne : other ≠ e) :
    forEntry other (log ++ [(e, op)]) = forEntry other log := by
  simp [forEntry, ne.symm]

theorem forEntry_filter (log : List (ε × ο)) (p : ο → Bool) :
    (forEntry e log).filter p = forEntry e (log.filter fun done => p done.2) := by
  rw [forEntry, forEntry, List.filter_map, List.filter_filter, List.filter_filter]
  congr 2
  funext done
  exact Bool.and_comm _ _

/-- Only one entry has changed. -/
theorem Kept.of_entry (kept : s.Kept) (e : ε)
    (places : ∀ other ≠ e, next.places.count other = s.places.count other)
    (entries : ∀ other ≠ e, next.entries other = s.entries other)
    (requested : ∀ other ≠ e, next.requested other = s.requested other)
    (performed : ∀ other ≠ e, next.performedFor other = s.performedFor other) (self : next.KeptAt e) :
    next.Kept := by
  intro other
  by_cases same : other = e
  · rw [same]
    exact self
  · exact (kept other).congr (places other same) (entries other same) (requested other same)
      (performed other same)

/-! ## What a step preserves -/

theorem KeptAt.completing_eq_false (kept : s.KeptAt e)
    (none : (s.entries e).operationScheduled = none) : (s.entries e).completing = false := by
  cases completing : (s.entries e).completing with
  | false => rfl
  | true => exact absurd none (kept.completes completing)

/-- An entry that is told so has an operation that was performed. -/
theorem KeptAt.completing_of_notified (kept : s.KeptAt e)
    (notified : (s.entries e).notified = true) (returned : (s.entries e).executing = false) :
    (s.entries e).completing = true := by
  rw [kept.notified, returned, Bool.or_false] at notified
  exact notified

/-- An entry whose operation was performed is nowhere in the lists. -/
theorem KeptAt.of_completing (kept : s.KeptAt e) (completing : (s.entries e).completing = true) :
    s.places.count e = 0 ∧ (s.entries e).deleted = false
      ∧ (s.requested e).Perm (s.performedFor e ++ (s.entries e).operationsPending) := by
  refine ⟨?_, ?_, ?_⟩
  · rw [kept.located, waits, completing, Bool.not_true, Bool.and_false]
    rfl
  · cases deleted : (s.entries e).deleted with
    | false => rfl
    | true => exact absurd (kept.gone deleted) (kept.completes completing)
  · rw [← outstanding_of_completing completing]
    exact kept.ledger

/-- An entry is pushed that is nowhere yet. -/
theorem Kept.push (others : ∀ other ≠ e, s.KeptAt other) (nowhere : s.places.count e = 0)
    (calm : (s.entries e).completing = false)
    (notified : (s.entries e).notified = ((s.entries e).completing || (s.entries e).executing))
    (alive : (s.entries e).deleted = false)
    (ledger : (s.requested e).Perm (s.performedFor e ++ op :: (s.entries e).operationsPending)) :
    (s.push e op).Kept := by
  intro other
  by_cases same : other = e
  · subst same
    constructor
    · change (other :: s.places).count other = _
      rw [count_cons_self, nowhere, push, setEntry_self, waits, calm]
      rfl
    · change (s.requested other).Perm (s.performedFor other ++ _)
      rw [push, setEntry_self, outstanding, calm]
      exact ledger
    · rw [push, setEntry_self]
      intro none
      cases none
    · rw [push, setEntry_self]
      intro _ none
      cases none
    · rw [push, setEntry_self]
      exact notified
    · rw [push, setEntry_self]
      intro deleted
      cases alive.symm.trans deleted
  · refine (others other same).congr ?_ (setEntry_of_ne same) rfl rfl
    change (e :: s.places).count other = s.places.count other
    rw [count_cons_of_ne (Ne.symm same)]

section

variable (kept : s.Kept)
include kept

section

variable (pending : s.pending = p :: rest)
include pending

/-- The first entry of the list waits, and it is in no other place. -/
theorem Kept.waits_first :
    (s.entries p.entry).waits = true
      ∧ (places { s with pending := rest }).count p.entry = 0 := by
  have located := (kept p.entry).located
  have split : s.places = p.entry :: places { s with pending := rest } := by
    rw [places, pending]
    rfl
  rw [split, count_cons_self] at located
  cases waits : (s.entries p.entry).waits with
  | false =>
    rw [waits] at located
    cases located
  | true =>
    rw [waits] at located
    exact ⟨rfl, Nat.succ.inj located⟩

/-- The operation of the first entry of the list is scheduled and was not performed. -/
theorem Kept.scheduled_first :
    (s.entries p.entry).operationScheduled.isSome = true ∧
      (s.entries p.entry).completing = false := by
  have waits := (kept.waits_first pending).1
  rwa [EntryState.waits, Bool.and_eq_true, Bool.not_eq_true'] at waits

theorem Kept.outstanding_first (scheduled : (s.entries p.entry).operationScheduled = some op) :
    (s.entries p.entry).outstanding = op :: (s.entries p.entry).operationsPending := by
  rw [outstanding, (kept.scheduled_first pending).2, scheduled]
  rfl

/-- The operation of the first entry of the list is performed and not retried. -/
theorem Kept.performed (scheduled : (s.entries p.entry).operationScheduled = some op)
    (others : ∀ other ≠ p.entry, next.entries other = s.entries other)
    (places : next.places = places { s with pending := rest })
    (requested : next.requested = s.requested)
    (performed : next.performed = s.performed ++ [(p.entry, op)])
    (idle : (next.entries p.entry).waits = false)
    (outstanding : (next.entries p.entry).outstanding = (s.entries p.entry).operationsPending)
    (last : (next.entries p.entry).operationScheduled = none →
      (next.entries p.entry).deleted = true) (completes : (next.entries p.entry).completing = true →
      (next.entries p.entry).operationScheduled ≠ none)
    (notified : (next.entries p.entry).notified
      = ((next.entries p.entry).completing || (next.entries p.entry).executing))
    (gone : (next.entries p.entry).deleted = true →
      (next.entries p.entry).operationScheduled = none) : next.Kept := by
  have calm := (kept.scheduled_first pending).2
  refine kept.of_entry p.entry ?_ others (fun _ _ => congrFun requested _) ?_ ?_
  · intro other ne
    rw [places, Many.places, Many.places, pending, map_cons, cons_append,
      count_cons_of_ne (Ne.symm ne)]
  · intro other ne
    rw [performedFor, performed]
    exact forEntry_append_of_ne s.performed op ne
  · constructor
    · rw [places, idle]
      exact (kept.waits_first pending).2
    · have ledger := (kept p.entry).ledger
      rw [requested, outstanding, performedFor, performed, forEntry_append_self, append_assoc]
      rw [EntryState.outstanding, calm, scheduled] at ledger
      exact ledger
    · intro none alive
      cases alive.symm.trans (last none)
    · exact completes
    · exact notified
    · exact gone

end

/-- Whatever happens, every operation is performed or outstanding. -/
theorem Kept.step (taken : Taken m s event next) : next.Kept := by
  cases taken with
  | asksFirst e op alive none =>
    have self := kept e
    have calm := self.completing_eq_false none
    refine Kept.push (fun other ne => (kept other).congr rfl rfl ?_ rfl) ?_ calm self.notified
      alive ?_
    · exact asked_of_ne s op ne
    · refine self.located.trans ?_
      rw [waits, none]
      rfl
    · change ((s.asked e op).requested e).Perm
        (s.performedFor e ++ op :: (s.entries e).operationsPending)
      have ledger := self.ledger
      rw [outstanding, calm, none, self.last none alive] at ledger
      rw [asked_self, self.last none alive]
      exact (ledger.trans (by simp)).append_right [op]
  | asksNext e op alive some =>
    have self := kept e
    refine kept.of_entry e (fun _ _ => rfl) (fun _ ne => setEntry_of_ne ne)
      (fun _ ne => asked_of_ne s op ne) (fun _ _ => rfl) ?_
    constructor
    all_goals rw [setEntry_self]
    · exact self.located
    · change ((s.asked e op).requested e).Perm (s.performedFor e
        ++ ((if (s.entries e).completing then [] else (s.entries e).operationScheduled.toList)
          ++ insertPending m.kind op (s.entries e).operationsPending))
      rw [asked_self]
      refine (self.ledger.append_right [op]).trans ?_
      rw [outstanding, append_assoc, append_assoc]
      exact ((perm_insertPending m.kind op _).symm.append_left _).append_left _
    · intro none
      exact absurd none some
    · exact self.completes
    · exact self.notified
    · exact self.gone
  | announces e =>
    refine kept.of_entry e (fun _ _ => rfl) (fun _ ne => setEntry_of_ne ne)
      (fun _ _ => rfl) (fun _ _ => rfl) ?_
    have self := kept e
    constructor
    all_goals rw [setEntry_self]
    · exact self.located
    · exact self.ledger
    · exact self.last
    · exact self.completes
    · exact self.notified
    · exact self.gone
  | returns e heard =>
    refine kept.of_entry e (fun _ _ => rfl) (fun _ ne => setEntry_of_ne ne)
      (fun _ _ => rfl) (fun _ _ => rfl) ?_
    have self := kept e
    constructor
    all_goals rw [setEntry_self]
    · exact self.located
    · exact self.ledger
    · exact self.last
    · exact self.completes
    · change false = ((s.entries e).completing || false)
      rw [heard]
      rfl
    · exact self.gone
  | completesLast e notified returned empty =>
    obtain ⟨nowhere, alive, ledger⟩ :=
      (kept e).of_completing ((kept e).completing_of_notified notified returned)
    refine kept.of_entry e (fun _ _ => rfl) (fun _ ne => setEntry_of_ne ne)
      (fun _ _ => rfl) (fun _ _ => rfl) ?_
    constructor
    all_goals rw [setEntry_self]
    · exact nowhere
    · exact ledger
    · intro _ _
      exact empty
    · intro completing
      cases completing
    · exact notified
    · intro deleted
      cases alive.symm.trans deleted
  | completesNext e op rest notified returned pending =>
    obtain ⟨nowhere, alive, ledger⟩ :=
      (kept e).of_completing ((kept e).completing_of_notified notified returned)
    rw [pending] at ledger
    refine Kept.push (fun other ne => (kept other).congr rfl (setEntry_of_ne ne) rfl rfl)
      nowhere ?_ ?_ ?_ ?_
    all_goals rw [setEntry_self]
    · exact notified
    · exact alive
    · exact ledger
  | starts idle =>
    intro e
    refine (kept e).congr ?_ rfl rfl rfl
    rw [places, places, idle]
    rfl
  | empties second retryList pass empty =>
    intro e
    refine (kept e).congr ?_ rfl rfl rfl
    rw [places, places, pass]
    rfl
  | retries second retryList pass p rest pending =>
    intro e
    refine (kept e).congr ?_ rfl rfl rfl
    rw [places, places, pass, pending]
    exact perm_middle.count_eq e
  | deletes second retryList pass p rest pending op scheduled =>
    refine kept.performed pending scheduled (fun _ ne => setEntry_of_ne ne) rfl rfl rfl
      ?_ ?_ ?_ ?_ ?_ ?_
    all_goals rw [setEntry_self]
    · rfl
    · rw [outstanding]
      exact ite_self _ ▸ rfl
    · intro _
      rfl
    · intro completing
      cases (kept.scheduled_first pending).2.symm.trans completing
    · exact (kept p.entry).notified
    · intro _
      rfl
  | continues second retryList pass p rest pending op scheduled =>
    have some : (s.entries p.entry).operationScheduled ≠ none := by
      rw [scheduled]
      exact some_ne_none op
    refine kept.performed pending scheduled (fun _ ne => setEntry_of_ne ne) rfl rfl rfl
      ?_ ?_ ?_ ?_ ?_ ?_
    all_goals rw [setEntry_self]
    · exact Bool.and_false _
    · rfl
    · intro none
      exact absurd none some
    · intro _
      exact some
    · rfl
    · exact (kept p.entry).gone
  | restores second e retryList pass =>
    intro other
    refine (kept other).congr ?_ rfl rfl rfl
    rw [places, places, pass]
    exact perm_middle.symm.count_eq other
  | passes pass | ends pass =>
    intro other
    refine (kept other).congr ?_ rfl rfl rfl
    rw [places, places, pass]
    rfl
  | parent a idle out | outside b parent => exact fun e => (kept e).congr rfl rfl rfl rfl

end

/-- What the strands do by themselves. -/
def Works (m : ManyMethods ε ο σ α β) (s : Many ε ο σ) : Prop :=
  (s.step m .start).isSome ∨ (s.step m .pop).isSome ∨ (s.step m .restore).isSome
    ∨ ∃ e, (s.step m (.announce e)).isSome ∨ (s.step m (.complete e)).isSome
      ∨ (s.step m (.returns e)).isSome

/-- Where the strands are not quiet, they go on. -/
theorem Kept.works (kept : s.Kept) (m : ManyMethods ε ο σ α β) (busy : ¬s.Quiet) : s.Works m := by
  cases pass : s.pass with
  | popping second retryList =>
    refine .inr (.inl ?_)
    rw [Many.step, Many.pop, pass]
    cases pending : s.pending with
    | nil => rfl
    | cons p rest =>
      rw [isSome_map]
      exact (kept.scheduled_first pending).1
  | restoring second retryList =>
    refine .inr (.inr (.inl ?_))
    rw [Many.step, Many.restore, pass]
    cases retryList with
    | cons e retryList => rfl
    | nil =>
      cases second with
      | false | true => rfl
  | idle =>
    cases scheduled : s.scheduled with
    | true =>
      refine .inl ?_
      rw [Many.step, if_pos ⟨pass, scheduled⟩]
      rfl
    | false =>
      refine .inr (.inr (.inr ?_))
      by_contra none
      refine busy ⟨pass, scheduled, fun e => ?_⟩
      have still : (s.entries e).announcing = false := by
        rw [← Bool.not_eq_true]
        intro announcing
        refine none ⟨e, .inl ?_⟩
        rw [Many.step, if_pos announcing]
        rfl
      have returned : (s.entries e).executing = false := by
        rw [← Bool.not_eq_true]
        intro executing
        refine none ⟨e, .inr (.inr ?_)⟩
        rw [Many.step, Many.returns, if_pos ⟨executing, still⟩]
        rfl
      refine ⟨still, ?_, returned⟩
      rw [← Bool.not_eq_true]
      intro notified
      refine none ⟨e, .inr (.inl ?_)⟩
      rw [Many.step, Many.complete, if_pos ⟨notified, still, returned⟩]
      cases (s.entries e).operationsPending with
      | nil | cons op rest => rfl

/-! ## Nothing is left lying -/

omit [DecidableEq ε] in
/-- Whoever is in the list is popped, if the parent wakes. -/
theorem Attended.of_wakes (wakes : s.Wakes)
    (retrying : s.pass.retryList ≠ [] → s.pendingRetry = true ∧ blocked s.parent) :
    s.Attended blocked where
  fresh _ _ _ := .inr wakes
  retried _ _ _ := .inl wakes
  retrying := retrying

omit [DecidableEq ε] in
/-- The list and the pass are as before, and nobody has announced himself. -/
theorem Attended.congr (attended : s.Attended blocked) (pending : next.pending = s.pending)
    (pass : next.pass = s.pass)
    (announcing : ∀ e, (s.entries e).announcing = true → (next.entries e).announcing = true)
    (scheduled : s.scheduled = true → next.scheduled = true)
    (blocks : s.pendingRetry = true ∧ blocked s.parent →
      next.pendingRetry = true ∧ blocked next.parent) : next.Attended blocked := by
  have wakes : s.Wakes → next.Wakes := by
    rw [Wakes, Wakes, pass]
    exact Or.imp_left scheduled
  constructor
  · rw [pending]
    intro p mem fresh
    exact (attended.fresh p mem fresh).imp (announcing p.entry) wakes
  · rw [pending]
    intro p mem old
    exact (attended.retried p mem old).imp wakes blocks
  · rw [pass]
    exact fun nonempty => blocks (attended.retrying nonempty)

/-- An entry that is pushed has to announce itself. -/
theorem Attended.push (attended : s.Attended blocked) (e : ε) (op : ο) :
    (s.push e op).Attended blocked := by
  have announcing : ∀ other, (s.entries other).announcing = true →
      ((s.push e op).entries other).announcing = true := by
    intro other announcing
    by_cases same : other = e
    · rw [same, Many.push, setEntry_self]
    · rw [Many.push, setEntry_of_ne same]
      exact announcing
  constructor
  · rintro p (_ | ⟨_, mem⟩) fresh
    · left
      rw [Many.push, setEntry_self]
    · exact (attended.fresh p mem fresh).imp_left (announcing p.entry)
  · rintro p (_ | ⟨_, mem⟩) old
    · cases old
    · exact attended.retried p mem old
  · exact attended.retrying

/-- A change of an entry that does not touch its announcement. -/
theorem Attended.setEntry (attended : s.Attended blocked) (e : ε)
    (announcing : entry.announcing = (s.entries e).announcing) :
    (s.setEntry e entry).Attended blocked := by
  refine attended.congr rfl rfl ?_ id id
  intro other before
  by_cases same : other = e
  · rw [same] at before ⊢
    rw [setEntry_self, announcing, before]
  · rw [setEntry_of_ne same, before]

/-- Whatever happens, nobody waits for nothing. -/
theorem Attended.step (lawful : m.Lawful blocked) (attended : s.Attended blocked)
    (taken : Taken m s event next) : next.Attended blocked := by
  have retrying := attended.retrying
  cases taken with
  | asksFirst e op =>
    have asked : (s.asked e op).Attended blocked := attended.congr rfl rfl (fun _ => id) id id
    exact asked.push e op
  | asksNext e op =>
    have asked : (s.asked e op).Attended blocked := attended.congr rfl rfl (fun _ => id) id id
    exact asked.setEntry e rfl
  | announces e => exact .of_wakes (.inl rfl) retrying
  | completesLast e | returns e => exact attended.setEntry e rfl
  | completesNext e op => exact (attended.setEntry e (by rfl)).push e op
  | starts => exact .of_wakes (.inr rfl) fun nonempty => absurd rfl nonempty
  | empties second retryList pass empty =>
    rw [pass] at retrying
    constructor
    · rw [empty]
      intro p mem
      cases mem
    · rw [empty]
      intro p mem
      cases mem
    · exact retrying
  | retries second retryList pass p rest pending op _ retry =>
    refine .of_wakes (.inr rfl) fun _ => ⟨rfl, ?_⟩
    exact lawful.keeps _ _ _ (lawful.retries _ _ _ retry)
  | deletes second retryList pass p rest pending op
  | continues second retryList pass p rest pending op =>
    refine .of_wakes (.inr (congrArg Pass.popsLater pass)) ?_
    exact fun nonempty => (retrying nonempty).imp_right (lawful.keeps _ _ _)
  | restores second e retryList pass =>
    rw [pass] at retrying
    have waits := retrying (cons_ne_nil e retryList)
    have wakes : s.Wakes → Wakes
        { s with pending := ⟨e, false⟩ :: s.pending, pass := .restoring second retryList } := by
      rw [Wakes, pass]
      exact id
    constructor
    · rintro p (_ | ⟨_, mem⟩) fresh
      · cases fresh
      · exact (attended.fresh p mem fresh).imp_right wakes
    · rintro p (_ | ⟨_, mem⟩) old
      · exact .inr waits
      · exact (attended.retried p mem old).imp_left wakes
    · exact fun _ => waits
  | passes => exact .of_wakes (.inr rfl) fun nonempty => absurd rfl nonempty
  | ends pass =>
    have wakes : s.Wakes → Wakes { s with pass := .idle } := by
      rw [Wakes, pass]
      exact id
    constructor
    · exact fun p mem fresh => (attended.fresh p mem fresh).imp_right wakes
    · exact fun p mem old => (attended.retried p mem old).imp_left wakes
    · exact fun nonempty => absurd rfl nonempty
  | parent a idle out acted =>
    have stays : s.pendingRetry = true ∧ blocked s.parent →
        blocked out.1 ∨ out.2 = true := by
      rintro ⟨retries, blocks⟩
      rw [retries] at acted
      exact lawful.parent _ _ _ acted blocks
    cases scheduled : out.2 with
    | true =>
      refine .of_wakes (.inl (Bool.or_true _)) ?_
      change s.pass.retryList ≠ [] → _
      rw [idle]
      exact fun nonempty => absurd rfl nonempty
    | false =>
      refine attended.congr rfl rfl (fun _ => id) ?_ ?_
      · intro before
        exact Bool.or_eq_true_iff.mpr (.inl before)
      · intro waits
        refine ⟨waits.1, (stays waits).resolve_right ?_⟩
        rw [scheduled]
        exact Bool.false_ne_true
  | outside b parent acted =>
    exact attended.congr rfl rfl (fun _ => id) id
      fun waits => waits.imp_right (lawful.outside _ _ _ acted)

/-! ## Final operations -/

/-- Every final operation is the last one of its entry. -/
def Final (final : ο → Bool) (s : Many ε ο σ) : Prop := ∀ e, (s.entries e).Final final

omit [DecidableEq ε] in
theorem final_init (final : ο → Bool) (parent : σ) : (init parent : Many ε ο σ).Final final :=
  fun _ => .of_forall (fun _ mem => by cases mem) rfl

/-- Only one entry has changed. -/
theorem Final.of_update {entry : EntryState ο}
    (others : ∀ other ≠ e, (s.entries other).Final final)
    (entries : next.entries = update s.entries e entry) (self : entry.Final final) :
    next.Final final := by
  intro other
  rw [entries]
  by_cases same : other = e
  · rw [same, update_self]
    exact self
  · rw [update_of_ne same]
    exact others other same

/-- An entry is pushed for its only operation, or for the first of those that are pending. -/
theorem Final.push (others : ∀ other ≠ e, (s.entries other).Final final)
    (calm : (s.entries e).completing = false) (alive : (s.entries e).deleted = false)
    (alone : ∀ next ∈ op :: (s.entries e).operationsPending, final next = true →
      op :: (s.entries e).operationsPending = [next]) : (s.push e op).Final final := by
  refine .of_update others rfl ?_
  constructor
  · rw [outstanding, calm]
    exact alone
  · intro deleted
    cases alive.symm.trans deleted

/-- Whatever happens, a final operation is the last one. -/
theorem Final.step (lawful : m.Lawful blocked) (kept : s.Kept) (before : s.Final m.final)
    (taken : Taken m s event next) : next.Final m.final := by
  cases taken with
  | asksFirst e op alive none =>
    refine Final.push (fun other _ => before other) ((kept e).completing_eq_false none) alive ?_
    change ∀ next ∈ op :: (s.entries e).operationsPending, _ →
      op :: (s.entries e).operationsPending = _
    rw [(kept e).last none alive]
    intro next mem _
    rw [mem_singleton.mp mem]
  | asksNext e op alive some new others =>
    refine .of_update (fun other _ => before other) rfl ?_
    obtain ⟨scheduled, waiting⟩ := forall_mem_append.mp others
    refine .of_forall (forall_mem_append.mpr ⟨scheduled, fun next pending => ?_⟩) alive
    have inserted := (EntryState.perm_insertPending m.kind op _).mem_iff.mp pending
    exact forall_mem_append.mpr ⟨waiting, forall_mem_singleton.mpr new⟩ next inserted
  | announces e | returns e =>
    refine .of_update (fun other _ => before other) rfl ?_
    exact (before e).congr rfl rfl
  | completesLast e notified returned =>
    have completing := (kept e).completing_of_notified notified returned
    refine .of_update (fun other _ => before other) rfl ?_
    exact (before e).congr (EntryState.outstanding_of_completing completing).symm rfl
  | completesNext e op rest notified returned pending =>
    have completing := (kept e).completing_of_notified notified returned
    have alone := (before e).alone
    rw [EntryState.outstanding_of_completing completing, pending] at alone
    refine Final.push (fun other ne => ?_) ?_ ?_ ?_
    · rw [setEntry_of_ne ne]
      exact before other
    all_goals rw [setEntry_self]
    · exact ((kept e).of_completing completing).2.1
    · exact alone
  | deletes second retryList pass p rest pending op scheduled deleted =>
    have outstanding := kept.outstanding_first pending scheduled
    have alone := (before p.entry).alone op (outstanding ▸ mem_cons_self)
      (lawful.deletes _ _ _ deleted)
    rw [outstanding] at alone
    have none : EntryState.outstanding
        { s.entries p.entry with operationScheduled := none, deleted := true } = [] := by
      rw [EntryState.outstanding]
      rw [(cons.inj alone).2]
      exact (append_nil _).trans (ite_self _)
    refine .of_update (fun other _ => before other) rfl ?_
    constructor
    · rw [none]
      intro _ mem
      cases mem
    · exact fun _ => none
  | continues second retryList pass p rest pending op scheduled =>
    have outstanding := kept.outstanding_first pending scheduled
    refine .of_update (fun other _ => before other) rfl ?_
    refine .of_forall ?_ ?_
    · intro next mem
      rw [← Bool.not_eq_true]
      intro isFinal
      have alone := (before p.entry).alone next (outstanding ▸ mem_cons_of_mem op mem) isFinal
      rw [outstanding] at alone
      change next ∈ (s.entries p.entry).operationsPending at mem
      rw [(cons.inj alone).2] at mem
      cases mem
    · cases deleted : (s.entries p.entry).deleted with
      | false => rfl
      | true => cases scheduled.symm.trans ((kept p.entry).gone deleted)
  | starts | empties | retries | restores | passes | ends | parent | outside => exact before

/-! ## What the parent goes through -/

/-- What a step does to the parent. An operation that is performed is outstanding. -/
inductive Moves (m : ManyMethods ε ο σ α β) (s : Many ε ο σ) (event : ManyEvent ε ο α β)
    (next : Many ε ο σ) : Prop where
  | stays (parent : next.parent = s.parent) (performed : next.performed = s.performed)
  | retries (e : ε) (op : ο) (outstanding : op ∈ (s.entries e).outstanding)
      (retry : (m.perform s.parent e op).1 = .retry)
      (parent : next.parent = (m.perform s.parent e op).2)
      (performed : next.performed = s.performed)
  | performs (e : ε) (op : ο) (outstanding : op ∈ (s.entries e).outstanding)
      (done : (m.perform s.parent e op).1 ≠ .retry)
      (parent : next.parent = (m.perform s.parent e op).2)
      (performed : next.performed = s.performed ++ [(e, op)])
  | parent (a : α) (cause : event = .parent a) (scheduled : Bool)
      (acted : m.parent s.parent s.pendingRetry a = some (next.parent, scheduled))
      (performed : next.performed = s.performed)
  | outside (b : β) (cause : event = .outside b)
      (acted : m.outside s.parent b = some next.parent) (performed : next.performed = s.performed)

theorem Kept.moves (kept : s.Kept) (taken : Taken m s event next) : s.Moves m event next := by
  have first : ∀ {p : Pending ε} {rest op}, s.pending = p :: rest →
      (s.entries p.entry).operationScheduled = some op →
        op ∈ (s.entries p.entry).outstanding := by
    intro p rest op pending scheduled
    rw [kept.outstanding_first pending scheduled]
    exact mem_cons_self
  cases taken with
  | retries second retryList pass p rest pending op scheduled retry =>
    exact .retries p.entry op (first pending scheduled) retry rfl rfl
  | deletes second retryList pass p rest pending op scheduled deleted =>
    refine .performs p.entry op (first pending scheduled) ?_ rfl rfl
    rw [deleted]
    exact OperationResult.noConfusion
  | continues second retryList pass p rest pending op scheduled done =>
    refine .performs p.entry op (first pending scheduled) ?_ rfl rfl
    rw [done]
    exact OperationResult.noConfusion
  | parent a idle out acted => exact .parent a rfl out.2 acted rfl
  | outside b parent acted => exact .outside b rfl acted rfl
  | asksFirst | asksNext | announces | completesLast | completesNext | returns | starts
  | empties | restores | passes | ends => exact .stays rfl rfl

/-- Nobody asks for anything in the other steps. -/
theorem Taken.requested_eq (taken : Taken m s event next) (other : ∀ e op, event ≠ .request e op) :
    next.requested = s.requested := by
  cases taken with
  | asksFirst e op | asksNext e op => exact absurd rfl (other e op)
  | announces | completesLast | completesNext | returns | starts | empties | retries | deletes
  | continues | restores | passes | ends | parent | outside => rfl

/-- Entries ask for what they are made to ask for. -/
theorem Taken.requested (taken : Taken m s event next) {Q : ε → ο → Prop}
    (asks : ∀ e op, event = .request e op → Q e op) (asked : ∀ e, ∀ op ∈ s.requested e, Q e op) :
    ∀ e, ∀ op ∈ next.requested e, Q e op := by
  have update : ∀ e op, Q e op → ∀ other, ∀ x ∈ (s.asked e op).requested other, Q other x := by
    intro e op new other x mem
    by_cases same : other = e
    · subst same
      rw [asked_self] at mem
      exact forall_mem_append.mpr ⟨asked other, forall_mem_singleton.mpr new⟩ x mem
    · rw [asked_of_ne s op same] at mem
      exact asked other x mem
  by_cases request : ∃ e op, event = .request e op
  · obtain ⟨e, op, rfl⟩ := request
    cases taken with
    | asksFirst | asksNext => exact update e op (asks e op rfl)
  · have same := taken.requested_eq fun e op isRequest => request ⟨e, op, isRequest⟩
    rw [same]
    exact asked

/-! ## Runs -/

/-- What holds of the entries in every reachable state. -/
structure Sound (m : ManyMethods ε ο σ α β) (blocked : σ → Prop) (s : Many ε ο σ) : Prop where
  kept : s.Kept
  attended : s.Attended blocked
  final : s.Final m.final

theorem sound_init (m : ManyMethods ε ο σ α β) (blocked : σ → Prop) (parent : σ) :
    (init parent : Many ε ο σ).Sound m blocked :=
  ⟨kept_init parent, attended_init blocked parent, final_init m.final parent⟩

theorem Sound.step (lawful : m.Lawful blocked) (sound : s.Sound m blocked)
    (taken : Taken m s event next) : next.Sound m blocked :=
  ⟨sound.kept.step taken, sound.attended.step lawful taken,
    sound.final.step lawful sound.kept taken⟩

/-- In a quiet parent that is not blocked no operation is outstanding. -/
theorem Sound.outstanding_eq_nil (sound : s.Sound m blocked) (quiet : s.Quiet)
    (free : ¬blocked s.parent) (e : ε) : (s.entries e).outstanding = [] := by
  cases deleted : (s.entries e).deleted with
  | false => exact sound.kept.outstanding_eq_nil sound.attended quiet free deleted
  | true => exact (sound.final e).gone deleted

end Many

end Omi.Strands
