import Omi.Wsman.Delivery

/-!
# A blocked provider is released

When the queue is full the next instance is held back and the provider gets no
acknowledgement. Whether an instance is held back depends on the bounds of the
queue, and whether a waiting request is answered depends on the limits of the
client. For instances and requests of moderate size the second inequality
follows from the first: no request waits while an instance is held back, the
queue is then not empty, and every further `Pull` takes at least one instance
from it, so the one held back enters the queue at the latest when the queue has
been emptied.

The next `Pull` alone need not release the provider: it may take a small
instance, and the one held back still does not fit.
-/

namespace Omi.Wsman

open List hiding attach
open Option hiding attach
open Omi.Protocol (resultOk)

universe u

variable {α : Type u}

/-- A request that does not ask for more instances than the queue can hold, and whose envelope
is filled before the queue has no room for an instance of `limit` bytes. -/
structure ConnectionData.Modest (limit : Nat) (c : ConnectionData) : Prop where
  action : c.rqtAction ≠ .subscribe
  elements : c.maxElements ≤ maxWsmanCollectionSize
  envelope : c.maxEnvelopeSize.toNat + limit
    ≤ maxWsmanBufferSize.toNat + approxEnumRespEnvelopeSize

/-- The provider posts nothing while an instance is held back, and instances and requests are
of moderate size. Results and requests may come at any time, and buffers may run out. -/
def Observed.Moderate (limit : Nat) (o : Observed α) : ContextEvent α → Prop
  | .post _ m => o.ec.pendingMessage = none ∧ m.packedInstanceSize.toNat ≤ limit
  | .result _ _ => True
  | .subscribed _ => False
  | .pull c => c.Modest limit
  | .attached _ => True

namespace EnumerateContext

/-! ## The invariant -/

/-- What the operations keep. -/
structure Flows (limit : Nat) (ec : EnumerateContext α) : Prop where
  running : ec.canceled = false
  tag : ec.requestTag = .enumerateInstances
  tallied : ec.Tallied limit
  linked : ec.leftClosed = true → ec.activeConnection = none
  modest : ∀ c ∈ ec.waiting, c.Modest limit
  /-- An instance is held back only while the queue is not empty. -/
  held : ec.pendingMessage ≠ none → ec.queue ≠ []

/-- No request is active while an instance is held back. -/
def Unblocked (ec : EnumerateContext α) : Prop :=
  ec.pendingMessage ≠ none → ec.activeConnection = none

variable {limit : Nat} {ec : EnumerateContext α} {c : ConnectionData}

theorem wrapless_of_le (bounded : limit ≤ maxWsmanBufferSize.toNat) : Wrapless limit := by
  have small : maxWsmanBufferSize.toNat + maxWsmanBufferSize.toNat < 2 ^ 32 := by decide
  simp only [Wrapless]
  omega

section

variable {m : PostInstanceMsg α} (bounded : limit ≤ maxWsmanBufferSize.toNat)
  (tallied : ec.Tallied limit)
include bounded tallied

section

variable (small : m.packedInstanceSize.toNat ≤ limit)
  (full : maxWsmanBufferSize < ec.totalResponseSize + m.packedInstanceSize
    ∨ maxWsmanCollectionSize ≤ ec.totalResponses)
include small full

/-- When an instance is held back, the limits of a modest request are reached. -/
theorem mustRespond_of_full (modest : c.Modest limit) (pullRequestAttached : Bool) :
    ec.mustRespond c pullRequestAttached = true := by
  simp only [mustRespond, Bool.or_eq_true, decide_eq_true_eq]
  rcases full with large | many
  · have sum := tallied.add_size (wrapless_of_le bounded) small
    have large := UInt32.lt_iff_toNat_lt.mp large
    have envelope := modest.envelope
    have size := tallied.size
    exact .inl (.inl (.inl (.inr (by omega))))
  · exact .inl (.inl (.inr (UInt32.le_trans modest.elements many)))

/-- An instance of moderate size is not held back from an empty queue. -/
theorem queue_ne_nil_of_full : ec.queue ≠ [] := by
  intro empty
  rcases full with large | many
  · have sum := tallied.add_size (wrapless_of_le bounded) small
    have large := UInt32.lt_iff_toNat_lt.mp large
    rw [empty, packedSize_nil] at sum
    omega
  · have many := UInt32.le_iff_toNat_le.mp many
    rw [tallied.count, empty, length_nil] at many
    exact absurd many (by decide)

end

/-- An instance stays behind only if the queue is not empty. -/
theorem processPendingMessage_held (stays : ec.processPendingMessage.pendingMessage ≠ none) :
    ec.processPendingMessage.queue ≠ [] := by
  simp only [processPendingMessage] at stays ⊢
  cases pending : ec.pendingMessage with
  | none => simp [pending] at stays
  | some m =>
    simp only [pending] at stays ⊢
    split
    · simp [append]
    · rename_i full
      refine queue_ne_nil_of_full bounded tallied (tallied.small m (by simp [pending])) ?_
      exact (not_and_or.mp full).imp UInt32.not_le.mp UInt32.not_lt.mp

end

section

variable (flows : ec.Flows limit)
include flows

theorem Flows.closeLeft : ec.closeLeft.Flows limit := by
  refine { flows with
    tallied := flows.tallied.of_eq rfl rfl rfl rfl, linked := fun _ => rfl, modest := ?_ }
  intro c waits
  exact flows.modest c (mem_append_right _ waits)

theorem Flows.releaseAllMessages : ec.releaseAllMessages.Flows limit :=
  { flows with
    tallied := tallied_of_empty limit rfl rfl rfl rfl, held := fun holds => absurd rfl holds }

theorem Flows.checkCloseRight : ec.checkCloseRight.Flows limit := by
  simp only [EnumerateContext.checkCloseRight]
  split
  · exact flows
  · have released := flows.releaseAllMessages
    exact { released with tallied := released.tallied.of_eq rfl rfl rfl rfl }

theorem Flows.closeIfFinished : ec.closeIfFinished.Flows limit := by
  simp only [EnumerateContext.closeIfFinished, checkCloseLeft]
  split
  · split
    · exact flows.checkCloseRight
    · exact flows.closeLeft.checkCloseRight
  · exact flows

end

section

variable (bounded : limit ≤ maxWsmanBufferSize.toNat)
include bounded

/-- A detached context from whose queue the response was taken. -/
theorem Flows.processPendingMessage
    (flows : ec.closeLeft.Flows limit) {taken left : List (PostInstanceMsg α)}
    (split : taken ++ left = ec.queue) : (ec.responded taken left).Flows limit := by
  have detached : (ec.remove taken left).closeLeft.Tallied limit :=
    (flows.tallied.remove split).of_eq rfl rfl rfl rfl
  have same := processPendingMessage_attachment (ec.remove taken left).closeLeft
  have unchanged : (ec.responded taken left).requestTag = ec.requestTag := by
    simp only [responded, EnumerateContext.processPendingMessage]
    split
    · rfl
    · split <;> rfl
  refine ⟨same.canceled_eq.trans flows.running, unchanged.trans flows.tag,
    detached.processPendingMessage (wrapless_of_le bounded), fun _ => same.active_eq, ?_,
    processPendingMessage_held bounded detached⟩
  intro c waits
  simp only [responded, waiting, same.active_eq, same.attaching_eq] at waits
  exact flows.modest c waits

theorem Flows.sendEnumPullResponse
    (flows : ec.Flows limit) (allocated : Bool) (action : c.rqtAction ≠ .subscribe) :
    (ec.sendEnumPullResponse allocated c).1.Flows limit := by
  simp only [EnumerateContext.sendEnumPullResponse, if_neg action]
  split
  · exact flows.closeLeft.checkCloseRight
  · simp only [respond]
    cases allocated with
    | true =>
      simp only [if_true]
      exact flows.closeLeft.processPendingMessage bounded (getMessageSubset_append c 0 0 ec.queue)
    | false =>
      have dropped : ec.releaseAllMessages.closeLeft.processPendingMessage
          = ec.releaseAllMessages.closeLeft := rfl
      simp only [Bool.false_eq_true, if_false, dropped]
      exact flows.releaseAllMessages.closeLeft

/-- `_EC_ProcessEnumResponse` answers the active request whenever an instance is held back
and the limits of the client are reached. -/
theorem Flows.processEnumResponse (flows : ec.Flows limit) (allocated pullRequestAttached : Bool)
    (due : ∀ c, ec.activeConnection = some c → ec.pendingMessage ≠ none →
      ec.mustRespond c pullRequestAttached = true) :
    (ec.processEnumResponse allocated pullRequestAttached).1.Flows limit
      ∧ (ec.processEnumResponse allocated pullRequestAttached).1.Unblocked := by
  simp only [EnumerateContext.processEnumResponse, flows.running, Bool.false_eq_true, if_false]
  split
  · rename_i closed
    exact ⟨flows, fun _ => flows.linked closed⟩
  split
  · rename_i inactive
    exact ⟨flows, fun _ => inactive⟩
  rename_i c active
  have modest := flows.modest c (by simp [waiting, active])
  split
  · have same := checkCloseRight_attachment ec.closeLeft
    exact ⟨flows.closeLeft.checkCloseRight, fun _ => same.active_eq⟩
  split
  · have enumeration : ¬(ec.requestTag = .subscribe ∧ ¬ec.responsed = true) := by
      simp [flows.tag]
    rw [if_neg enumeration]
    have kept := flows.sendEnumPullResponse bounded allocated modest.action
    obtain ⟨next, response, sent, same⟩ := ec.sendEnumPullResponse_detaches allocated c
    rw [sent] at kept ⊢
    have detached := (closeIfFinished_attachment same.leftClosed_eq).trans same
    exact ⟨kept.closeIfFinished, fun _ => detached.active_eq⟩
  · rename_i quiet
    rw [closeIfFinished_of_quiet (Bool.eq_false_iff.mpr quiet)]
    exact ⟨flows, fun holds => absurd (due c active holds) quiet⟩

end

/-! ## The operations -/

theorem Flows.processInstance {m : PostInstanceMsg α}
    (bounded : limit ≤ maxWsmanBufferSize.toNat) (flows : ec.Flows limit)
    (unblocked : ec.Unblocked) (allocated : Bool) (free : ec.pendingMessage = none)
    (small : m.packedInstanceSize.toNat ≤ limit) :
    (ec.processInstance allocated m).1.Flows limit
      ∧ (ec.processInstance allocated m).1.Unblocked := by
  have tallied := flows.tallied
  simp only [EnumerateContext.processInstance]
  split
  · exact ⟨flows, unblocked⟩
  split
  · rename_i full
    have full := full.imp_right fun many => UInt32.le_of_eq many.symm
    have filled := queue_ne_nil_of_full bounded tallied small full
    have parked : Flows limit { ec with pendingMessage := some m } :=
      { flows with tallied := tallied.park small, held := fun _ => filled }
    refine parked.processEnumResponse bounded allocated false ?_
    intro c active _
    have waits : c ∈ ec.waiting := mem_append_left _ (mem_toList.mpr active)
    exact mustRespond_of_full bounded tallied small full (flows.modest c waits) false
  · rename_i room
    have appended := tallied.append_of_room (wrapless_of_le bounded) small room
    have queued : (ec.append m).Flows limit :=
      { flows with tallied := appended, held := fun holds => absurd free holds }
    exact queued.processEnumResponse bounded allocated false
      fun _ _ holds => absurd free holds

theorem Flows.leftAttached (flows : ec.Flows limit) (attaching : ec.attachingConnection = some c) :
    (ec.leftAttached c).Flows limit := by
  refine { flows with
    tallied := flows.tallied.of_eq rfl rfl rfl rfl, linked := nofun, modest := ?_ }
  exact forall_mem_singleton.mpr
    (flows.modest c (mem_append_right _ (mem_toList.mpr attaching)))

/-- The promotion answers the request at once when an instance is held back. -/
theorem Flows.pullAttached (bounded : limit ≤ maxWsmanBufferSize.toNat) (flows : ec.Flows limit)
    {allocated : Bool} {out : Outcome α} (taken : ec.pullAttached allocated = some out) :
    out.1.Flows limit ∧ out.1.Unblocked := by
  obtain ⟨c, attaching, -⟩ := map_eq_some_iff.mp taken
  rw [pullAttached_eq flows.running attaching] at taken
  cases taken
  refine (flows.leftAttached attaching).processEnumResponse bounded allocated true ?_
  intro d _ holds
  have filled : ec.queue ≠ [] := flows.held holds
  simp [mustRespond, EnumerateContext.leftAttached, filled]

/-! ## Release of a blocked provider -/

/-- The instance is no longer held back, or the queue got shorter. -/
def Relieves (ec next : EnumerateContext α) : Prop :=
  next.pendingMessage = none
    ∨ (next.queue.length < ec.queue.length ∧ next.rightClosed = false)

theorem checkCloseRight_releases (live : ec.rightClosed = false) :
    ec.checkCloseRight.pendingMessage = none := by
  simp only [checkCloseRight, live, Bool.false_eq_true, if_false]
  rfl

theorem processPendingMessage_cases :
    ec.processPendingMessage.pendingMessage = none ∨ ec.processPendingMessage = ec := by
  simp only [processPendingMessage]
  split
  · exact .inr rfl
  split
  · exact .inl rfl
  · exact .inr rfl

theorem sendEnumPullResponse_relieves (live : ec.rightClosed = false)
    (action : c.rqtAction ≠ .subscribe) (filled : ec.queue ≠ []) :
    ec.Relieves (ec.sendEnumPullResponse true c).1 := by
  simp only [sendEnumPullResponse, if_neg action]
  split
  · exact .inl (checkCloseRight_releases live)
  · rename_i sends
    have some : (getMessageSubset c 0 0 ec.queue).1 ≠ [] := fun nothing => sends ⟨filled, nothing⟩
    have split := congrArg List.length (getMessageSubset_append c 0 0 ec.queue)
    have positive := length_pos_of_ne_nil some
    rw [length_append] at split
    simp only [respond, if_true]
    rcases processPendingMessage_cases with moved | same
    · exact .inl moved
    · rw [same]
      refine .inr ⟨?_, live⟩
      change (getMessageSubset c 0 0 ec.queue).2.length < ec.queue.length
      omega

theorem Relieves.closeIfFinished {next : EnumerateContext α} (relieves : ec.Relieves next) :
    ec.Relieves next.closeIfFinished := by
  simp only [EnumerateContext.closeIfFinished, checkCloseLeft]
  split
  · have closed : ∀ x : EnumerateContext α, x.pendingMessage = next.pendingMessage →
        x.rightClosed = next.rightClosed → x.checkCloseRight.pendingMessage = none := by
      intro x pending right
      rcases relieves with freed | ⟨-, live⟩
      · simp only [checkCloseRight]
        split
        · exact pending.trans freed
        · rfl
      · exact checkCloseRight_releases (right.trans live)
    split
    · exact .inl (closed next rfl rfl)
    · exact .inl (closed next.closeLeft rfl rfl)
  · exact relieves

/-- A promoted request relieves a context whose queue is not empty. -/
theorem Flows.processEnumResponse_relieves (flows : ec.Flows limit) (live : ec.rightClosed = false)
    (attached : ec.leftClosed = false) (active : ec.activeConnection = some c)
    (filled : ec.queue ≠ []) : ec.Relieves (ec.processEnumResponse true true).1 := by
  have modest := flows.modest c (mem_append_left _ (mem_toList.mpr active))
  have due : ec.mustRespond c true = true := by
    simp [mustRespond, filled]
  have enumeration : ¬(ec.requestTag = .subscribe ∧ ¬ec.responsed = true) := by
    simp [flows.tag]
  simp only [EnumerateContext.processEnumResponse, flows.running, attached, active, due, if_true,
    Bool.false_eq_true, if_false, if_neg enumeration]
  split
  · exact .inl (checkCloseRight_releases live)
  · exact (sendEnumPullResponse_relieves live modest.action filled).closeIfFinished

end EnumerateContext

/-! ## Runs -/

open EnumerateContext

variable {limit : Nat}

open Observed

/-- A `Pull` that is promoted while an instance is held back. -/
theorem Observed.attached_relieves {o : Observed α} {c : ConnectionData} (flows : o.ec.Flows limit)
    (holds : o.ec.pendingMessage ≠ none) (attaching : o.ec.attachingConnection = some c)
    (live : o.ec.rightClosed = false) :
    ∃ next, o.step (.attached true) = some next ∧ next.ec.attachingConnection = none
      ∧ o.ec.Relieves next.ec := by
  have promoted := flows.leftAttached attaching
  have settles := processEnumResponse_settles true _ promoted.running true
  exact ⟨.record _ _, congrArg (Option.map _) (pullAttached_eq flows.running attaching),
    settles.attaching_eq, promoted.processEnumResponse_relieves live rfl rfl (flows.held holds)⟩

section

variable (bounded : limit ≤ maxWsmanBufferSize.toNat)
include bounded

theorem Observed.step_flows
    {o next : Observed α} {e : ContextEvent α} (flows : o.ec.Flows limit ∧ o.ec.Unblocked)
    (moderate : o.Moderate limit e) (taken : o.step e = some next) :
    next.ec.Flows limit ∧ next.ec.Unblocked := by
  obtain ⟨flows, unblocked⟩ := flows
  cases e with
  | post allocated m =>
    cases taken
    exact flows.processInstance bounded unblocked allocated moderate.1 moderate.2
  | result allocated result =>
    cases taken
    have completed : Flows limit
        { o.ec with enumerationCompleted := true, finalResult := result } :=
      { flows with tallied := flows.tallied.of_eq rfl rfl rfl rfl }
    exact completed.processEnumResponse bounded allocated false
      fun c _ _ => by simp [mustRespond]
  | subscribed allocated => exact moderate.elim
  | pull c =>
    cases taken
    simp only [record, receivePull, attach]
    split
    · exact ⟨flows, unblocked⟩
    split
    · refine ⟨{ flows with
        tallied := flows.tallied.of_eq rfl rfl rfl rfl, modest := ?_ }, unblocked⟩
      refine forall_mem_append.mpr ⟨fun d active => flows.modest d (mem_append_left _ active), ?_⟩
      exact forall_mem_singleton.mpr moderate
    · exact ⟨flows, unblocked⟩
  | attached allocated =>
    obtain ⟨out, promoted, rfl⟩ := map_eq_some_iff.mp taken
    exact flows.pullAttached bounded promoted

theorem Observed.start_flows
    {c : ConnectionData} (modest : c.Modest limit) (allocated optimized : Bool) :
    (start .enumerateInstances allocated optimized c : Observed α).ec.Flows limit
      ∧ (start .enumerateInstances allocated optimized c : Observed α).ec.Unblocked := by
  have created : (create .enumerateInstances c : EnumerateContext α).Flows limit := by
    refine ⟨rfl, rfl, tallied_of_empty limit rfl rfl rfl rfl, nofun, ?_, fun holds => absurd rfl holds⟩
    exact forall_mem_singleton.mpr modest
  cases optimized with
  | true => exact ⟨created, fun holds => absurd rfl holds⟩
  | false =>
    have kept := created.sendEnumPullResponse bounded allocated modest.action
    obtain ⟨next, response, sent, same⟩ :=
      (create .enumerateInstances c : EnumerateContext α).sendEnumPullResponse_detaches allocated c
    refine ⟨kept, fun _ => ?_⟩
    have eq : (start .enumerateInstances allocated false c : Observed α).ec
        = ((create .enumerateInstances c : EnumerateContext α).sendEnumPullResponse
          allocated c).1 := rfl
    rw [eq, sent]
    exact same.active_eq

/-- A `Pull` that arrives while an instance is held back. -/
theorem Observed.pull_relieves {o : Observed α} (flows : o.ec.Flows limit ∧ o.ec.Unblocked)
    (holds : o.ec.pendingMessage ≠ none) (idle : o.ec.attachingConnection = none)
    (live : o.ec.rightClosed = false) {c : ConnectionData} (modest : c.Modest limit) :
    ∃ next, Run.run step o [.pull c, .attached true] = some next
      ∧ (next.ec.Flows limit ∧ next.ec.Unblocked) ∧ next.ec.attachingConnection = none
      ∧ o.ec.Relieves next.ec := by
  have first := step_pull_of_idle live idle c
  have swapped := step_flows bounded flows (e := .pull c) modest first
  obtain ⟨next, second, free, relieves⟩ := attached_relieves swapped.1 holds rfl live
  have kept := step_flows bounded swapped (e := .attached true) trivial second
  exact ⟨next, (Run.run_cons_of_step first _).trans (Run.run_cons_of_step second []), kept, free,
    relieves⟩

/-- As many requests as there are instances in the queue release the provider. -/
theorem Observed.pullAll_relieves {o : Observed α} (flows : o.ec.Flows limit ∧ o.ec.Unblocked)
    (holds : o.ec.pendingMessage ≠ none) (idle : o.ec.attachingConnection = none)
    (live : o.ec.rightClosed = false) {cs : List ConnectionData}
    (modest : ∀ c ∈ cs, c.Modest limit) (enough : o.ec.queue.length ≤ cs.length) :
    ∃ k ≤ cs.length, ∃ finish, Run.run step o (pullAll (cs.take k)) = some finish
      ∧ finish.ec.pendingMessage = none := by
  have filled : ∀ {o : Observed α}, o.ec.Flows limit → o.ec.pendingMessage ≠ none →
      0 < o.ec.queue.length := fun flows holds => length_pos_of_ne_nil (flows.held holds)
  refine Run.exists_rounds (fun o => (o.ec.Flows limit ∧ o.ec.Unblocked) ∧
    o.ec.pendingMessage ≠ none ∧ o.ec.attachingConnection = none ∧ o.ec.rightClosed = false)
    (fun o => o.ec.queue.length - 1) ?_ ⟨flows, holds, idle, live⟩ modest ?_
  · rintro o c ⟨flows, holds, idle, live⟩ modest
    obtain ⟨next, reached, kept, free, relieves⟩ :=
      pull_relieves bounded flows holds idle live modest
    refine ⟨next, reached, ?_⟩
    by_cases freed : next.ec.pendingMessage = none
    · exact .inl freed
    · obtain ⟨shorter, alive⟩ := relieves.resolve_left freed
      have positive := filled kept.1 freed
      exact .inr ⟨⟨kept, freed, free, alive⟩, by omega⟩
  · have positive := filled flows.1 holds
    omega

end

/-- Over every run with instances and requests of moderate size: while an instance is held
back no request is active and the queue is not empty, and if no request is just being attached
and the context has not been released, then the client releases the provider by pulling, at
the latest when it has pulled as often as instances are queued. -/
theorem held_instance_enters_queue (limit : Nat) (c : ConnectionData)
    (allocated optimized : Bool) (events : List (ContextEvent α)) (o : Observed α)
    (bounded : limit ≤ maxWsmanBufferSize.toNat) (modest : c.Modest limit)
    (moderate : Run.Along Observed.step (Observed.Moderate limit)
      (Observed.start .enumerateInstances allocated optimized c) events)
    (reached : Run.run Observed.step
      (Observed.start .enumerateInstances allocated optimized c) events = some o)
    (holds : o.ec.pendingMessage ≠ none) :
    o.ec.activeConnection = none ∧ o.ec.queue ≠ []
      ∧ (o.ec.attachingConnection = none → o.ec.rightClosed = false →
        ∀ cs : List ConnectionData, (∀ d ∈ cs, d.Modest limit) →
          o.ec.queue.length ≤ cs.length → ∃ k ≤ cs.length, ∃ finish,
            Run.run Observed.step o (Observed.pullAll (cs.take k)) = some finish
              ∧ finish.ec.pendingMessage = none) := by
  obtain ⟨flows, unblocked⟩ := Run.invariant_run
    (fun o e next (flows : o.ec.Flows limit ∧ o.ec.Unblocked) moderate taken =>
      step_flows bounded flows moderate taken)
    (start_flows bounded modest allocated optimized) moderate reached
  refine ⟨unblocked holds, flows.held holds, ?_⟩
  intro idle live cs fit enough
  exact pullAll_relieves bounded ⟨flows, unblocked⟩ holds idle live fit enough

/-- A small instance, eight large ones, and one that does not fit into the queue with them. -/
def crowdedPosts : List (ContextEvent Unit) :=
  .post true ⟨(), 100⟩ :: replicate 8 (.post true ⟨(), 250000⟩) ++ [.post true ⟨(), 200000⟩]

/-- A `Pull` for one element. -/
def singleElementPull (request : Nat) : ConnectionData :=
  ⟨request, ⟨1000, 1000⟩, .pull, wsmanMaxEnvelopeSize, 1, UInt32.le_refl _, UInt32.zero_lt_one⟩

/-- After an `Enumerate` that was answered at once, the next `Pull` is answered with the small
instance, and the provider stays blocked. -/
theorem next_pull_keeps_blocked :
    (Run.run Observed.step
        (Observed.start .enumerateInstances true false (sampleRequest 1 .enumerate))
        (crowdedPosts ++ [.pull (singleElementPull 2), .attached true])).map
          (fun o => (o.sent.map fun s => (s.connection.request, s.instances),
            o.ec.pendingMessage)) =
      some ([(1, []), (2, [⟨(), 100⟩])], some ⟨(), 200000⟩) := by
  decide

/-- Two such requests release the provider: the instance is then the last one of the queue. -/
theorem held_instance_enters_queue_crowded :
    ∃ o finish : Observed Unit, Run.run Observed.step
        (Observed.start .enumerateInstances true false (sampleRequest 1 .enumerate))
        crowdedPosts = some o
      ∧ o.ec.pendingMessage = some ⟨(), 200000⟩
      ∧ (∃ k ≤ 9, Run.run Observed.step o
        (Observed.pullAll ((replicate 9 (singleElementPull 2)).take k)) = some finish)
      ∧ finish.ec.pendingMessage = none
      ∧ (Run.run Observed.step o
          (Observed.pullAll [singleElementPull 2, singleElementPull 3])).map (fun o => o.ec.queue)
        = some (replicate 7 ⟨(), 250000⟩ ++ [⟨(), 200000⟩]) := by
  have modest : (singleElementPull 2).Modest 250000 :=
    ⟨nofun, (by decide : 1 ≤ maxWsmanCollectionSize),
      (by decide : wsmanMaxEnvelopeSize.toNat + 250000
        ≤ maxWsmanBufferSize.toNat + approxEnumRespEnvelopeSize)⟩
  have moderate : Run.Along step (Observed.Moderate 250000)
      (start .enumerateInstances true false (sampleRequest 1 .enumerate))
      crowdedPosts := by
    iterate 10
      refine ⟨⟨rfl, by decide⟩, ?_⟩
      rintro _ ⟨⟩
    trivial
  obtain ⟨-, -, release⟩ := held_instance_enters_queue 250000 (sampleRequest 1 .enumerate) true
    false crowdedPosts _ (by decide) ⟨nofun, by decide, by decide⟩ moderate rfl (by decide)
  obtain ⟨k, short, finish, reached, freed⟩ := release rfl rfl (replicate 9 (singleElementPull 2))
    (fun d member => eq_of_mem_replicate member ▸ modest) (by decide)
  exact ⟨_, finish, rfl, rfl, ⟨k, short, reached⟩, freed, by decide⟩

end Omi.Wsman
