import Omi.Wsman.Tally

/-!
# Instances are delivered exactly once and in order

A provider posts instances to an enumeration context and finally a result. The
client sends one `Enumerate` and then `Pull` requests, one after the other. At
every moment the instances that were sent, those in the queue and the one that
is held back are together exactly the instances that were posted. The end of the
sequence is announced once, when nothing is left, and after the result a client
that keeps pulling reaches it. That the result can always be posted is another
question, since an instance that is held back keeps the provider from posting.

The provider waits for the acknowledgement of each message, which it gets unless
the message is held back.
-/

namespace Omi.Wsman

open List hiding attach
open Option hiding attach
open Omi.Protocol (resultOk)

universe u

variable {α : Type u}

/-! ## What a response carries -/

namespace Sent

/-- The instances of a response. -/
def instances (s : Sent α) : List (PostInstanceMsg α) :=
  match s.response with
  | .items items _ => items
  | _ => []

/-- The response announces the end of the sequence. -/
def endOfSequence (s : Sent α) : Bool :=
  match s.response with
  | .items _ endOfSequence => endOfSequence
  | _ => false

/-- The response says that the context is gone. -/
def NotFound (s : Sent α) : Prop :=
  s.response = .fault .destinationUnreachable "Enumeration context not found"

end Sent

/-- The instances of successive responses. -/
def delivered (sent : List (Sent α)) : List (PostInstanceMsg α) := sent.flatMap Sent.instances

theorem delivered_append (first second : List (Sent α)) :
    delivered (first ++ second) = delivered first ++ delivered second :=
  flatMap_append

/-- The instances that the provider posts in a run. -/
def posted : List (ContextEvent α) → List (PostInstanceMsg α)
  | [] => []
  | .post _ m :: events => m :: posted events
  | .result _ _ :: events => posted events
  | .subscribed _ :: events => posted events
  | .pull _ :: events => posted events
  | .attached _ :: events => posted events

/-! ## The regular course of an enumeration -/

/-- The provider posts instances of at most `limit` bytes and at last a successful result,
each message after the acknowledgement of the one before; the client sends a `Pull` when it
has no request outstanding, for no more elements than the queue can hold and with an envelope in
which every instance fits; and buffers can be allocated. -/
def Observed.Regular (limit : Nat) (o : Observed α) : ContextEvent α → Prop
  | .post allocated m =>
    allocated = true ∧ o.ec.pendingMessage = none ∧ o.ec.enumerationCompleted = false
      ∧ m.packedInstanceSize.toNat ≤ limit
  | .result allocated result =>
    allocated = true ∧ o.ec.pendingMessage = none ∧ o.ec.enumerationCompleted = false
      ∧ result = resultOk
  | .subscribed _ => False
  | .pull c =>
    o.ec.waiting = [] ∧ c.rqtAction = .pull
      ∧ limit + approxEnumRespEnvelopeSize ≤ c.maxEnvelopeSize.toNat
      ∧ c.maxElements ≤ maxWsmanCollectionSize
  | .attached allocated => allocated = true

/-- What holds of an enumeration when the given instances have been posted. -/
structure Observed.Delivers (o : Observed α) (instances : List (PostInstanceMsg α)) : Prop where
  exact : delivered o.sent ++ (o.ec.queue ++ o.ec.pendingMessage.toList) = instances
  bounded : ∀ s ∈ o.sent, s.instances.length ≤ s.connection.maxElements.toNat
  /-- Until the end has been announced, every response carries instances. -/
  successful : (∀ s ∈ o.sent, s.endOfSequence = false) →
    ∀ s ∈ o.sent, ∃ items, s.response = .items items false
  /-- The end is announced once, when everything has been sent, and after it the context is
  gone. -/
  ended : ∀ before s after, o.sent = before ++ s :: after → s.endOfSequence = true →
    (∀ t ∈ before, t.endOfSequence = false) ∧ (∀ t ∈ after, t.NotFound)
      ∧ o.ec.enumerationCompleted = true ∧ o.ec.queue = [] ∧ o.ec.pendingMessage = none

/-- Where an element can be found in a list that has grown by one. -/
theorem concat_eq_append_cons {β : Type u} {log before after : List β} {x y : β}
    (split : log ++ [x] = before ++ y :: after) :
    (∃ rest, after = rest ++ [x] ∧ log = before ++ y :: rest)
      ∨ (before = log ∧ y = x ∧ after = []) := by
  rcases eq_nil_or_concat after with rfl | ⟨rest, last, rfl⟩
  · obtain ⟨same, last⟩ := append_inj' split rfl
    exact .inr ⟨same.symm, (List.cons.inj last).1.symm, rfl⟩
  · rw [concat_eq_append, ← cons_append, ← append_assoc] at split
    obtain ⟨same, final⟩ := append_inj' split rfl
    cases final
    exact .inl ⟨rest, concat_eq_append, same⟩

/-! ## Responses -/

variable {c : ConnectionData}

namespace EnumerateContext

/-- What a context must satisfy so that its responses succeed. -/
structure Answerable (limit : Nat) (ec : EnumerateContext α) : Prop where
  running : ec.canceled = false
  tag : ec.requestTag = .enumerateInstances
  tallied : ec.Tallied limit
  fits : ∀ c ∈ ec.waiting, c.rqtAction ≠ .subscribe
    ∧ limit + approxEnumRespEnvelopeSize ≤ c.maxEnvelopeSize.toNat
  final : ec.enumerationCompleted = true → ec.finalResult = resultOk ∧ ec.pendingMessage = none

/-- The context after a response that took instances from the front of its queue. -/
def responded (ec : EnumerateContext α) (taken left : List (PostInstanceMsg α)) :
    EnumerateContext α :=
  (ec.remove taken left).closeLeft.processPendingMessage

/-- What a response takes from the queue. -/
structure Takes (ec : EnumerateContext α) (c : ConnectionData)
    (taken left : List (PostInstanceMsg α)) : Prop where
  split : taken ++ left = ec.queue
  bounded : taken.length ≤ c.maxElements.toNat
  progress : ec.queue ≠ [] → taken ≠ []

variable {ec : EnumerateContext α}

theorem Tallied.takes {limit : Nat} (tallied : ec.Tallied limit)
    (fits : limit + approxEnumRespEnvelopeSize ≤ c.maxEnvelopeSize.toNat) :
    ec.Takes c (getMessageSubset c 0 0 ec.queue).1 (getMessageSubset c 0 0 ec.queue).2 := by
  refine ⟨getMessageSubset_append c 0 0 ec.queue, ?_, ?_⟩
  · have short : (0 : UInt32).toNat + ec.queue.length < 2 ^ 32 := by
      have bound := tallied.count_le
      have small : maxWsmanCollectionSize.toNat < 2 ^ 31 := by decide
      simp only [UInt32.toNat_zero]
      omega
    have positive : (0 : UInt32) ≤ c.maxElements := UInt32.le_of_lt c.maxElements_pos
    simpa using getMessageSubset_length c 0 0 ec.queue positive short
  · cases queue : ec.queue with
    | nil => exact fun filled => absurd rfl filled
    | cons m rest =>
      intro _
      refine getMessageSubset_ne_nil ?_ rest
      have small := tallied.small m (by simp [queue])
      omega

theorem Answerable.sendEnumPullResponse {limit : Nat} (answerable : ec.Answerable limit)
    (waits : c ∈ ec.waiting) :
    ∃ taken left, ec.Takes c taken left ∧ ec.sendEnumPullResponse true c
      = (ec.responded taken left, [⟨c, .items taken (ec.enumerationCompleted && left.isEmpty)⟩]) := by
  obtain ⟨action, fits⟩ := answerable.fits c waits
  have takes := answerable.tallied.takes fits
  refine ⟨_, _, takes, ?_⟩
  have sends : ¬(ec.queue ≠ [] ∧ (getMessageSubset c 0 0 ec.queue).1 = []) := by
    rintro ⟨filled, nothing⟩
    exact takes.progress filled nothing
  simp only [EnumerateContext.sendEnumPullResponse, if_neg action, if_neg sends, respond, responded,
    if_true]

theorem responded_attachment (ec : EnumerateContext α) (taken left : List (PostInstanceMsg α)) :
    (ec.responded taken left).closeIfFinished.SameAttachment ec.closeLeft := by
  have pending : (ec.responded taken left).SameAttachment ec.closeLeft :=
    (processPendingMessage_attachment _).trans ⟨rfl, rfl, rfl, rfl⟩
  exact (closeIfFinished_attachment pending.leftClosed_eq).trans pending

/-- Either nothing is sent, because no request waits or because its limits are not reached,
or the request is answered from the front of the queue. -/
theorem Answerable.processEnumResponse_cases {limit : Nat} (answerable : ec.Answerable limit)
    (pullRequestAttached : Bool) :
    (ec.processEnumResponse true pullRequestAttached = (ec, [])
      ∧ (ec.leftClosed = true ∨ ec.activeConnection = none
        ∨ ∃ c, ec.activeConnection = some c ∧ ec.mustRespond c pullRequestAttached = false)) ∨
    ∃ c taken left, ec.activeConnection = some c ∧ ec.Takes c taken left
      ∧ ec.processEnumResponse true pullRequestAttached
        = ((ec.responded taken left).closeIfFinished,
          [⟨c, .items taken (ec.enumerationCompleted && left.isEmpty)⟩]) := by
  cases closed : ec.leftClosed with
  | true =>
    refine .inl ⟨?_, .inl rfl⟩
    simp only [processEnumResponse, answerable.running, closed, Bool.false_eq_true, if_false,
      if_true]
  | false =>
    cases active : ec.activeConnection with
    | none =>
      refine .inl ⟨?_, .inr (.inl rfl)⟩
      simp only [processEnumResponse, answerable.running, closed, active, Bool.false_eq_true,
        if_false]
    | some c =>
      have successful : ¬(ec.enumerationCompleted = true ∧ ec.finalResult ≠ resultOk) := by
        rintro ⟨completed, failed⟩
        exact failed (answerable.final completed).1
      have enumeration : ¬(ec.requestTag = .subscribe ∧ ¬ec.responsed = true) := by
        simp [answerable.tag]
      simp only [processEnumResponse, answerable.running, closed, active, Bool.false_eq_true,
        if_false, if_neg successful, if_neg enumeration]
      cases quiet : ec.mustRespond c pullRequestAttached with
      | true =>
        have waits : c ∈ ec.waiting := by
          simp [waiting, active]
        obtain ⟨taken, left, takes, sent⟩ := answerable.sendEnumPullResponse waits
        rw [sent]
        exact .inr ⟨c, taken, left, rfl, takes, rfl⟩
      | false =>
        refine .inl ⟨?_, .inr (.inr ⟨c, rfl, quiet⟩)⟩
        simp only [closeIfFinished_of_quiet quiet, Bool.false_eq_true, if_false]

/-- What is left after a response: the rest of the queue and the message held back, which may
have moved into it. A context that has nothing more to send is released. -/
structure Leaves (ec next : EnumerateContext α) (left : List (PostInstanceMsg α)) : Prop where
  rest : next.queue ++ next.pendingMessage.toList = left ++ ec.pendingMessage.toList
  completed : next.enumerationCompleted = ec.enumerationCompleted
  finalResult : next.finalResult = ec.finalResult
  tag : next.requestTag = ec.requestTag
  held : ec.pendingMessage = none → next.pendingMessage = none
  released : next.rightClosed = (ec.enumerationCompleted && left.isEmpty)

theorem responded_leaves (live : ec.rightClosed = false)
    (unfinished : ec.enumerationCompleted = false) (taken left : List (PostInstanceMsg α)) :
    ec.Leaves (ec.responded taken left).closeIfFinished left := by
  have moved : ec.Leaves (ec.responded taken left) left := by
    simp only [responded, processPendingMessage]
    cases pending : ec.pendingMessage with
    | none =>
      simp only [remove, closeLeft, pending]
      refine ⟨?_, rfl, rfl, rfl, fun _ => rfl, ?_⟩
      · rw [pending]
      · simp [live, unfinished]
    | some m =>
      simp only [remove, closeLeft, pending]
      split
      · refine ⟨?_, rfl, rfl, rfl, fun _ => rfl, ?_⟩
        · simp [append, pending]
        · simp [append, live, unfinished]
      · refine ⟨?_, rfl, rfl, rfl, ?_, ?_⟩
        · rw [pending]
        · intro nothing
          cases pending.symm.trans nothing
        · simp [live, unfinished]
  rw [closeIfFinished_of_running (moved.completed.trans unfinished)]
  exact moved

/-- After the result nothing is held back, so the queue tells whether the context is
finished. -/
theorem responded_leaves_completed (live : ec.rightClosed = false)
    (completed : ec.enumerationCompleted = true) (nothing : ec.pendingMessage = none)
    (taken left : List (PostInstanceMsg α)) :
    ec.Leaves (ec.responded taken left).closeIfFinished left := by
  have moved : ec.responded taken left = (ec.remove taken left).closeLeft := by
    simp only [responded, processPendingMessage, closeLeft, remove, nothing]
  rw [moved]
  cases left with
  | nil =>
    simp only [closeIfFinished, checkCloseLeft, checkCloseRight, closeLeft, remove, completed,
      live, true_and, if_true, Bool.false_eq_true, if_false]
    refine ⟨?_, completed.symm, rfl, rfl, fun _ => rfl, ?_⟩
    · simp [releaseAllMessages, nothing]
    · simp [completed]
  | cons m rest =>
    simp only [closeIfFinished, closeLeft, remove, reduceCtorEq, and_false, if_false]
    refine ⟨?_, rfl, rfl, rfl, fun _ => nothing, ?_⟩
    · rw [nothing]
    · simp [live]

end EnumerateContext

/-! ## The invariant of an enumeration -/

/-- What every step of a regular run preserves. -/
structure Observed.Enumerating (limit : Nat) (o : Observed α)
    (instances : List (PostInstanceMsg α)) (finished : Bool) : Prop where
  fine : o.Fine
  completed : o.ec.enumerationCompleted = finished
  answerable : o.ec.Answerable limit
  delivers : o.Delivers instances
  gone : o.ec.rightClosed = true ↔ ∃ s ∈ o.sent, s.endOfSequence = true

open Observed EnumerateContext

namespace Observed.Enumerating

variable {limit : Nat} {o : Observed α} {instances : List (PostInstanceMsg α)} {finished : Bool}

section

variable (enumerating : o.Enumerating limit instances finished)
include enumerating

/-- While a request waits, the end has not been announced. -/
theorem unended (busy : o.ec.waiting ≠ []) :
    o.ec.rightClosed = false ∧ ∀ s ∈ o.sent, s.endOfSequence = false := by
  have live : ¬o.ec.rightClosed = true := fun gone => busy (enumerating.fine.released gone)
  refine ⟨Bool.eq_false_iff.mpr live, ?_⟩
  intro s member
  refine Bool.eq_false_iff.mpr ?_
  intro ends
  exact live (enumerating.gone.mpr ⟨s, member, ends⟩)

/-- The end is announced only after the result. -/
theorem finished_of_ended {s : Sent α} (member : s ∈ o.sent) (ends : s.endOfSequence = true) :
    finished = true := by
  obtain ⟨before, after, split⟩ := append_of_mem member
  have completed := (enumerating.delivers.ended before s after split ends).2.2.1
  exact enumerating.completed.symm.trans completed

/-- A response from the front of the queue. -/
theorem answered (wrapless : Wrapless limit)
    {taken left : List (PostInstanceMsg α)} (active : o.ec.activeConnection = some c)
    (takes : o.ec.Takes c taken left)
    (fine : (o.record ((o.ec.responded taken left).closeIfFinished,
      [⟨c, .items taken (o.ec.enumerationCompleted && left.isEmpty)⟩])).Fine) :
    (o.record ((o.ec.responded taken left).closeIfFinished,
      [⟨c, .items taken (o.ec.enumerationCompleted && left.isEmpty)⟩])).Enumerating limit
        instances finished := by
  have busy : o.ec.waiting ≠ [] := by
    simp [waiting, active]
  obtain ⟨live, before⟩ := enumerating.unended busy
  have leaves : o.ec.Leaves (o.ec.responded taken left).closeIfFinished left := by
    cases completed : o.ec.enumerationCompleted with
    | false => exact responded_leaves live completed taken left
    | true =>
      exact responded_leaves_completed live completed
        (enumerating.answerable.final completed).2 taken left
  have attachment := o.ec.responded_attachment taken left
  refine ⟨fine, leaves.completed.trans enumerating.completed,
    ⟨fine.running, leaves.tag.trans enumerating.answerable.tag, ?_, ?_, ?_⟩, ⟨?_, ?_, ?_, ?_⟩, ?_⟩
  · have removed := enumerating.answerable.tallied.remove takes.split
    have detached : (o.ec.remove taken left).closeLeft.Tallied limit :=
      removed.of_eq rfl rfl rfl rfl
    exact (detached.processPendingMessage wrapless).closeIfFinished
  · intro d waits
    refine enumerating.answerable.fits d ?_
    simp only [record, waiting, attachment.active_eq, attachment.attaching_eq,
      closeLeft, toList_none, nil_append] at waits
    exact mem_append_right _ waits
  · intro completed
    obtain ⟨result, nothing⟩ := enumerating.answerable.final (leaves.completed.symm.trans completed)
    exact ⟨leaves.finalResult.trans result, leaves.held nothing⟩
  · rw [← enumerating.delivers.exact, ← takes.split]
    simp only [record, delivered_append, leaves.rest]
    simp [delivered, Sent.instances]
  · refine forall_mem_append.mpr ⟨enumerating.delivers.bounded, ?_⟩
    exact forall_mem_singleton.mpr takes.bounded
  · intro none s member
    rcases mem_append.mp member with earlier | new
    · exact enumerating.delivers.successful before s earlier
    · have quiet := none s member
      rw [mem_singleton.mp new] at quiet ⊢
      simp only [Sent.endOfSequence] at quiet
      exact ⟨taken, by rw [quiet]⟩
  · intro first s after split ends
    rcases concat_eq_append_cons split with ⟨rest, -, earlier⟩ | ⟨rfl, rfl, rfl⟩
    · have member : s ∈ o.sent := earlier ▸ mem_append_right _ mem_cons_self
      cases (before s member).symm.trans ends
    · simp only [Sent.endOfSequence, Bool.and_eq_true, List.isEmpty_iff] at ends
      obtain ⟨completed, rfl⟩ := ends
      have rest := leaves.rest
      rw [(enumerating.answerable.final completed).2] at rest
      obtain ⟨queue, -⟩ := append_eq_nil_iff.mp rest
      refine ⟨before, by simp, leaves.completed.trans completed, queue, ?_⟩
      exact leaves.held (enumerating.answerable.final completed).2
  · simp only [record, leaves.released]
    constructor
    · intro ends
      exact ⟨_, mem_append_right _ mem_cons_self, ends⟩
    · rintro ⟨s, member, ends⟩
      rcases mem_append.mp member with earlier | new
      · cases (before s earlier).symm.trans ends
      · rw [mem_singleton.mp new] at ends
        exact ends

/-- `_EC_ProcessEnumResponse` keeps the invariant. -/
theorem processEnumResponse (wrapless : Wrapless limit) (pullRequestAttached : Bool) :
    (o.record (o.ec.processEnumResponse true pullRequestAttached)).Enumerating limit
      instances finished := by
  have fine : (o.record (o.ec.processEnumResponse true pullRequestAttached)).Fine :=
    enumerating.fine.record
      (processEnumResponse_settles true o.ec enumerating.fine.running pullRequestAttached)
  rcases enumerating.answerable.processEnumResponse_cases pullRequestAttached with
    ⟨quiet, -⟩ | ⟨c, taken, left, active, takes, sent⟩
  · rw [quiet]
    simpa only [record, append_nil] using enumerating
  · rw [sent] at fine ⊢
    exact enumerating.answered wrapless active takes fine

end

/-- A context just created for an `Enumerate`, answered at once unless optimized. -/
theorem start (wrapless : Wrapless limit) (action : c.rqtAction = .enumerate)
    (roomy : limit + approxEnumRespEnvelopeSize ≤ c.maxEnvelopeSize.toNat) (optimized : Bool) :
    (Observed.start .enumerateInstances true optimized c : Observed α).Enumerating limit []
      false := by
  have fine := Observed.start_fine (α := α) .enumerateInstances true optimized c
  have created : (⟨create .enumerateInstances c, [c], []⟩ : Observed α).Enumerating
      limit [] false := by
    refine ⟨Observed.start_fine .enumerateInstances true true c, rfl, ⟨rfl, rfl, ?_, ?_, nofun⟩,
      ⟨rfl, nofun, nofun, ?_⟩, ?_⟩
    · exact tallied_of_empty limit rfl rfl rfl rfl
    · intro d waits
      rw [mem_singleton.mp waits, action]
      exact ⟨nofun, roomy⟩
    · intro before s after split
      cases before <;> cases split
    · exact ⟨nofun, nofun⟩
  cases optimized with
  | true => exact created
  | false =>
    obtain ⟨taken, left, takes, sent⟩ :=
      created.answerable.sendEnumPullResponse mem_cons_self
    have unfinished : (responded (create .enumerateInstances c)
        taken left : EnumerateContext α).closeIfFinished = _ :=
      closeIfFinished_of_running (by simp [responded, processPendingMessage, remove, closeLeft, create])
    have started : (Observed.start .enumerateInstances true false c : Observed α)
        = Observed.record ⟨create .enumerateInstances c, [c], []⟩
          ((responded (create .enumerateInstances c)
            taken left).closeIfFinished, [⟨c, .items taken (false && left.isEmpty)⟩]) := by
      rw [unfinished]
      exact congrArg (Observed.record ⟨create .enumerateInstances c, [c], []⟩) sent
    rw [started] at fine ⊢
    exact created.answered wrapless rfl takes fine

section

variable (enumerating : o.Enumerating limit instances false)
include enumerating

/-- A message of the provider that has been put into the queue or held back. -/
theorem received {m : PostInstanceMsg α}
    {queue : List (PostInstanceMsg α)} {size count : UInt32} {pending : Option (PostInstanceMsg α)}
    (tallied : Tallied limit { o.ec with
      queue := queue, totalResponseSize := size, totalResponses := count,
      pendingMessage := pending })
    (rest : queue ++ pending.toList = o.ec.queue ++ o.ec.pendingMessage.toList ++ [m]) :
    Enumerating limit ⟨{ o.ec with
      queue := queue, totalResponseSize := size, totalResponses := count,
      pendingMessage := pending }, o.requests, o.sent⟩ (instances ++ [m]) false := by
  refine { enumerating with
    fine := { enumerating.fine with }
    answerable := { enumerating.answerable with tallied := tallied, final := ?_ }
    delivers := { enumerating.delivers with exact := ?_, ended := ?_ } }
  · intro completed
    cases enumerating.completed.symm.trans completed
  · change delivered o.sent ++ (queue ++ pending.toList) = instances ++ [m]
    rw [rest, ← enumerating.delivers.exact]
    simp only [append_assoc]
  · intro before s after split ends
    have member : s ∈ o.sent := split ▸ mem_append_right _ mem_cons_self
    cases enumerating.finished_of_ended member ends

theorem processInstance (wrapless : Wrapless limit) {m : PostInstanceMsg α}
    (small : m.packedInstanceSize.toNat ≤ limit) (free : o.ec.pendingMessage = none) :
    (o.record (o.ec.processInstance true m)).Enumerating limit (instances ++ [m]) false := by
  have accepts : ¬(o.ec.enumerationCompleted = true ∨ o.ec.canceled = true) := by
    simp [enumerating.completed, enumerating.fine.running]
  have tallied := enumerating.answerable.tallied
  simp only [EnumerateContext.processInstance, if_neg accepts]
  split
  · have received := enumerating.received (m := m) (tallied.park small) (by simp [free])
    exact received.processEnumResponse wrapless false
  · rename_i room
    have appended := tallied.append_of_room wrapless small room
    have received := enumerating.received (m := m) appended (by simp [free])
    exact received.processEnumResponse wrapless false

/-- The result has been received, and not yet acted on. -/
theorem receivedResult (free : o.ec.pendingMessage = none) :
    Enumerating limit ⟨{ o.ec with enumerationCompleted := true, finalResult := resultOk },
      o.requests, o.sent⟩ instances true := by
  refine { enumerating with
    fine := { enumerating.fine with }
    completed := rfl
    answerable := { enumerating.answerable with
      tallied := enumerating.answerable.tallied.of_eq rfl rfl rfl rfl
      final := fun _ => ⟨rfl, free⟩ }
    delivers := { enumerating.delivers with ended := ?_ } }
  intro before s after split ends
  obtain ⟨earlier, later, -, rest⟩ := enumerating.delivers.ended before s after split ends
  exact ⟨earlier, later, rfl, rest⟩

end

section

variable (enumerating : o.Enumerating limit instances finished)
include enumerating

/-- A `Pull` is attached, or refused when the context is gone. -/
theorem receivePull (idle : o.ec.waiting = []) (action : c.rqtAction = .pull)
    (roomy : limit + approxEnumRespEnvelopeSize ≤ c.maxEnvelopeSize.toNat) :
    ({ o with requests := o.requests ++ [c] }.record (o.ec.receivePull c)).Enumerating limit
      instances finished := by
  obtain ⟨inactive, unattached⟩ : o.ec.activeConnection = none ∧ o.ec.attachingConnection = none := by
    simpa [waiting] using idle
  have fine := enumerating.fine.receivePull (c := c) (.inl inactive)
  revert fine
  by_cases gone : o.ec.rightClosed = true
  · simp only [EnumerateContext.receivePull, if_pos gone]
    intro fine
    obtain ⟨last, member, ends⟩ := enumerating.gone.mp gone
    refine ⟨fine, enumerating.completed, enumerating.answerable,
      ⟨?_, ?_, ?_, ?_⟩, ⟨fun _ => ⟨last, mem_append_left _ member, ends⟩, fun _ => gone⟩⟩
    · simpa [record, delivered_append, delivered, Sent.instances] using
        enumerating.delivers.exact
    · refine forall_mem_append.mpr ⟨enumerating.delivers.bounded, ?_⟩
      exact forall_mem_singleton.mpr (Nat.zero_le _)
    · intro none
      cases (none last (mem_append_left _ member)).symm.trans ends
    · intro before s after split ends
      rcases concat_eq_append_cons split with ⟨rest, rfl, earlier⟩ | ⟨-, rfl, -⟩
      · obtain ⟨first, later, state⟩ := enumerating.delivers.ended before s rest earlier ends
        refine ⟨first, ?_, state⟩
        exact forall_mem_append.mpr ⟨later, forall_mem_singleton.mpr rfl⟩
      · cases ends
  · simp only [EnumerateContext.receivePull, if_neg gone, attach, unattached]
    intro fine
    refine ⟨fine, enumerating.completed, { enumerating.answerable with
      tallied := enumerating.answerable.tallied.of_eq rfl rfl rfl rfl, fits := ?_ }, ?_, ?_⟩
    · intro d waits
      simp only [record, waiting, inactive, toList_none, nil_append,
        toList_some, mem_singleton] at waits
      rw [waits, action]
      exact ⟨by simp, roomy⟩
    · simp only [record, append_nil]
      exact { enumerating.delivers with }
    · simpa only [record, append_nil] using enumerating.gone

/-- The promotion of a `Pull`. -/
theorem promoted (attaching : o.ec.attachingConnection = some c) :
    Enumerating limit ⟨o.ec.leftAttached c, o.requests, o.sent⟩ instances finished := by
  obtain ⟨same, fine⟩ := enumerating.fine.promoted attaching
  exact { enumerating with
    fine := fine
    answerable := { enumerating.answerable with
      tallied := enumerating.answerable.tallied.of_eq rfl rfl rfl rfl
      fits := fun d waits => enumerating.answerable.fits d (same ▸ waits) }
    delivers := { enumerating.delivers with } }

end

end Observed.Enumerating

/-- Whether the provider has posted its result in a run. -/
def resultPosted : List (ContextEvent α) → Bool
  | [] => false
  | .result _ _ :: _ => true
  | .post _ _ :: events => resultPosted events
  | .subscribed _ :: events => resultPosted events
  | .pull _ :: events => resultPosted events
  | .attached _ :: events => resultPosted events

namespace Observed

variable {limit : Nat} {o next : Observed α} {instances : List (PostInstanceMsg α)}

theorem posted_cons (e : ContextEvent α) (events : List (ContextEvent α)) :
    posted (e :: events) = posted [e] ++ posted events := by
  cases e <;> rfl

theorem resultPosted_cons (e : ContextEvent α) (events : List (ContextEvent α)) :
    resultPosted (e :: events) = (resultPosted [e] || resultPosted events) := by
  cases e <;> rfl

/-! ## Progress after the result -/

/-- The last response announces the end of the sequence. -/
def Ended (o : Observed α) : Prop := ∃ s ∈ o.sent.getLast?, s.endOfSequence = true

/-- The end has been announced, or the context is idle with a shorter queue. -/
def Advances (o next : Observed α) : Prop :=
  next.Ended ∨ next.ec.rightClosed = false ∧ next.ec.waiting = []
    ∧ next.ec.queue.length < o.ec.queue.length

/-- After the result the active request is answered at once. -/
theorem Enumerating.respond_advances (enumerating : o.Enumerating limit instances true)
    (active : o.ec.activeConnection = some c) (pullRequestAttached : Bool) :
    o.Advances (o.record (o.ec.processEnumResponse true pullRequestAttached)) := by
  have busy : o.ec.waiting ≠ [] := by
    simp [waiting, active]
  have live := (enumerating.unended busy).1
  have alone := waiting_of_active active enumerating.fine.served.2
  have completed := enumerating.completed
  have nothing := (enumerating.answerable.final completed).2
  rcases enumerating.answerable.processEnumResponse_cases pullRequestAttached with
    ⟨-, closed | inactive | ⟨d, -, quiet⟩⟩ | ⟨d, taken, left, -, takes, sent⟩
  · cases active.symm.trans (enumerating.fine.linked.mpr closed)
  · cases active.symm.trans inactive
  · simp [mustRespond, completed] at quiet
  · have leaves := responded_leaves_completed live completed nothing taken left
    have attachment := o.ec.responded_attachment taken left
    rw [sent]
    cases left with
    | nil =>
      refine .inl ⟨⟨d, .items taken true⟩, ?_, rfl⟩
      simp [record, completed]
    | cons m rest =>
      refine .inr ⟨?_, ?_, ?_⟩
      · exact leaves.released.trans (Bool.and_false _)
      · simp [record, waiting, attachment.active_eq, attachment.attaching_eq, closeLeft, alone]
      · have filled : o.ec.queue ≠ [] := by
          intro empty
          cases (append_eq_nil_iff.mp (takes.split.trans empty)).2
        have some := length_pos_of_ne_nil (takes.progress filled)
        have all := congrArg List.length takes.split
        have shorter := congrArg List.length leaves.rest
        simp only [length_append, nothing, toList_none, length_nil] at all shorter
        change (closeIfFinished _).queue.length < o.ec.queue.length
        omega

theorem Enumerating.attached_advances (wrapless : Wrapless limit)
    (enumerating : o.Enumerating limit instances true)
    (attaching : o.ec.attachingConnection = some c) :
    ∃ next, o.step (.attached true) = some next ∧ next.Enumerating limit instances true
      ∧ o.Advances next := by
  have promoted := enumerating.promoted attaching
  refine ⟨_, ?_, promoted.processEnumResponse wrapless true, promoted.respond_advances rfl true⟩
  simp only [step, pullAttached_eq enumerating.fine.running attaching, map_some, record]

/-- The client pulls again and again, each time after the response. -/
def pullAll (cs : List ConnectionData) : List (ContextEvent α) :=
  cs.flatMap fun c => [.pull c, .attached true]

/-- Requests of the client for which every instance fits. -/
def Roomy (limit : Nat) (c : ConnectionData) : Prop :=
  c.rqtAction = .pull ∧ limit + approxEnumRespEnvelopeSize ≤ c.maxEnvelopeSize.toNat
    ∧ c.maxElements ≤ maxWsmanCollectionSize

section

variable (wrapless : Wrapless limit)
include wrapless

section

variable (enumerating : o.Enumerating limit instances true)
include enumerating

theorem Enumerating.pull_advances
    (live : o.ec.rightClosed = false) (idle : o.ec.waiting = []) (roomy : Roomy limit c) :
    ∃ next, Run.run step o [.pull c, .attached true] = some next
      ∧ next.Enumerating limit instances true ∧ o.Advances next := by
  have unattached : o.ec.attachingConnection = none := by
    simp only [waiting, append_eq_nil_iff] at idle
    exact toList_eq_nil_iff.mp idle.2
  have pulled := enumerating.receivePull idle roomy.1 roomy.2.1
  rw [receivePull_of_idle live unattached] at pulled
  obtain ⟨next, promoted, rest⟩ := pulled.attached_advances wrapless rfl
  refine ⟨next, ?_, rest⟩
  rw [Run.run_cons_of_step (step_pull_of_idle live unattached c), Run.run_cons_of_step promoted,
    Run.run_nil]

/-- A client that pulls more often than the queue is long sees the end. -/
theorem Enumerating.pullAll_ends
    (live : o.ec.rightClosed = false)
    (idle : o.ec.waiting = []) {cs : List ConnectionData} (roomy : ∀ c ∈ cs, Roomy limit c)
    (enough : o.ec.queue.length < cs.length) :
    ∃ k ≤ cs.length, ∃ finish, Run.run step o (pullAll (cs.take k)) = some finish
      ∧ finish.Ended ∧ finish.Delivers instances := by
  refine Run.exists_rounds (fun o => o.Enumerating limit instances true ∧
    o.ec.rightClosed = false ∧ o.ec.waiting = []) (fun o => o.ec.queue.length) ?_
    ⟨enumerating, live, idle⟩ roomy enough
  rintro o c ⟨enumerating, live, idle⟩ roomy
  obtain ⟨next, reached, kept, ended | ⟨alive, free, shorter⟩⟩ :=
    enumerating.pull_advances wrapless live idle roomy
  · exact ⟨next, reached, .inl ⟨ended, kept.delivers⟩⟩
  · exact ⟨next, reached, .inr ⟨⟨kept, alive, free⟩, shorter⟩⟩

/-- After the result no request stays active. -/
theorem Enumerating.respond_inactive
    (pullRequestAttached : Bool) :
    (o.ec.processEnumResponse true pullRequestAttached).1.activeConnection = none := by
  cases active : o.ec.activeConnection with
  | none =>
    have settles :=
      processEnumResponse_settles true o.ec enumerating.fine.running pullRequestAttached
    rcases settles.cases with ⟨-, same, -⟩ | ⟨-, -, -, -, detached, -⟩
    · exact same.trans active
    · exact detached
  | some c =>
    have kept := enumerating.processEnumResponse wrapless pullRequestAttached
    have idle : (o.ec.processEnumResponse true pullRequestAttached).1.waiting = [] := by
      rcases enumerating.respond_advances active pullRequestAttached with
        ⟨s, last, ends⟩ | ⟨-, free, -⟩
      · exact kept.fine.released (kept.gone.mpr ⟨s, mem_of_getLast? last, ends⟩)
      · exact free
    simp only [waiting, append_eq_nil_iff] at idle
    exact toList_eq_nil_iff.mp idle.1

end

/-- One regular step. After the result no request stays active. -/
theorem step_enumerating {finished : Bool} {e : ContextEvent α}
    (enumerating : o.Enumerating limit instances finished) (regular : o.Regular limit e)
    (taken : o.step e = some next) (inactive : finished = true → o.ec.activeConnection = none) :
    next.Enumerating limit (instances ++ posted [e]) (finished || resultPosted [e])
      ∧ ((finished || resultPosted [e]) = true → next.ec.activeConnection = none) := by
  cases e with
  | post allocated m =>
    obtain ⟨rfl, free, unfinished, small⟩ := regular
    obtain rfl := enumerating.completed.symm.trans unfinished
    cases taken
    exact ⟨enumerating.processInstance wrapless small free, nofun⟩
  | result allocated result =>
    obtain ⟨rfl, free, unfinished, rfl⟩ := regular
    obtain rfl := enumerating.completed.symm.trans unfinished
    cases taken
    have received := enumerating.receivedResult free
    simp only [posted, resultPosted, append_nil, Bool.false_or]
    exact ⟨received.processEnumResponse wrapless false,
      fun _ => received.respond_inactive wrapless false⟩
  | subscribed allocated => exact regular.elim
  | pull c =>
    obtain ⟨idle, action, roomy, -⟩ := regular
    cases taken
    refine ⟨?_, fun completed => ?_⟩
    · simpa [posted, resultPosted] using enumerating.receivePull idle action roomy
    · have before := inactive ((Bool.or_false _).symm.trans completed)
      simp only [record, receivePull, attach]
      split
      · exact before
      · split
        · exact before
        · exact before
  | attached allocated =>
    cases regular
    obtain ⟨out, promoted, rfl⟩ := map_eq_some_iff.mp taken
    obtain ⟨c, attaching, -⟩ := map_eq_some_iff.mp promoted
    rw [pullAttached_eq enumerating.fine.running attaching] at promoted
    cases promoted
    have promoted := enumerating.promoted attaching
    simp only [posted, resultPosted, append_nil, Bool.or_false]
    refine ⟨promoted.processEnumResponse wrapless true, ?_⟩
    rintro rfl
    exact promoted.respond_inactive wrapless true

/-- A regular run. -/
theorem run_enumerating {finish : Observed α} {finished : Bool}
    {events : List (ContextEvent α)} (enumerating : o.Enumerating limit instances finished)
    (inactive : finished = true → o.ec.activeConnection = none)
    (regular : Run.Along step (Regular limit) o events)
    (reached : Run.run step o events = some finish) :
    finish.Enumerating limit (instances ++ posted events) (finished || resultPosted events)
      ∧ ((finished || resultPosted events) = true → finish.ec.activeConnection = none) := by
  induction events generalizing o instances finished with
  | nil =>
    cases reached
    simpa [posted, resultPosted] using And.intro enumerating inactive
  | cons e events ih =>
    obtain ⟨next, taken, rest⟩ := bind_eq_some_iff.mp reached
    obtain ⟨kept, detached⟩ := step_enumerating wrapless enumerating regular.1 taken inactive
    have finished := ih kept detached (regular.2 next taken) rest
    rwa [posted_cons, resultPosted_cons, ← append_assoc, ← Bool.or_assoc]

end

end Observed

end Omi.Wsman
