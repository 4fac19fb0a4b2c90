import Omi.Wsman.Backpressure

/-!
# An enumeration can be completed

An instance that is held back keeps the provider from posting the next one, and a
request that is not answered keeps the client from sending the next one. Where no
request asks for more elements than the queue can hold, the two do not come
together: whatever has happened so far, provider and client can go on until the
result has been posted, and then the client reaches the end of the sequence.

A request for more elements waits for instances that the provider may not post.
-/

namespace Omi.Wsman

open List hiding attach
open Option hiding attach
open EnumerateContext Observed
open Omi.Protocol (resultOk)

universe u

variable {α : Type u} {limit : Nat} {c d : ConnectionData}

/-- With an envelope in the range of the validation, the number of elements decides. -/
theorem ConnectionData.modest_of_roomy (action : c.rqtAction ≠ .subscribe)
    (roomy : limit + approxEnumRespEnvelopeSize ≤ c.maxEnvelopeSize.toNat)
    (few : c.maxElements ≤ maxWsmanCollectionSize) : c.Modest limit := by
  refine ⟨action, few, ?_⟩
  have bound := UInt32.le_iff_toNat_le.mp c.maxEnvelopeSize_le
  have large : 2 * wsmanMaxEnvelopeSize.toNat
      ≤ maxWsmanBufferSize.toNat + 2 * approxEnumRespEnvelopeSize := by decide
  omega

namespace Observed

variable {o next last : Observed α} {instances rest : List (PostInstanceMsg α)} {finished : Bool}

/-- Provider and client can go on to this state, while the given instances and, if so, the
result are posted. -/
def Reaches (limit : Nat) (o : Observed α) (rest : List (PostInstanceMsg α)) (finished : Bool)
    (last : Observed α) : Prop :=
  ∃ more, Run.Along step (Regular limit) o more ∧ posted more = rest ∧ resultPosted more = finished
    ∧ Run.run step o more = some last

theorem Reaches.cons {e : ContextEvent α} (regular : o.Regular limit e)
    (taken : o.step e = some next) (reaches : next.Reaches limit rest finished last) :
    o.Reaches limit (posted [e] ++ rest) (resultPosted [e] || finished) last := by
  obtain ⟨more, along, rfl, rfl, reached⟩ := reaches
  refine ⟨e :: more, ⟨regular, ?_⟩, posted_cons e more, resultPosted_cons e more, ?_⟩
  · intro other stepped
    cases taken.symm.trans stepped
    exact along
  · exact (Run.run_cons_of_step taken more).trans reached

/-- An enumeration before its result. -/
structure Unfinished (limit : Nat) (o : Observed α) (instances : List (PostInstanceMsg α)) :
    Prop where
  enumerating : o.Enumerating limit instances false
  flows : o.ec.Flows limit ∧ o.ec.Unblocked

theorem Unfinished.live (unfinished : o.Unfinished limit instances) :
    o.ec.rightClosed = false := by
  rw [← Bool.not_eq_true]
  intro gone
  obtain ⟨s, member, ends⟩ := unfinished.enumerating.gone.mp gone
  cases unfinished.enumerating.finished_of_ended member ends

theorem Regular.moderate {e : ContextEvent α} (regular : o.Regular limit e) :
    o.Moderate limit e := by
  cases e with
  | post allocated m => exact ⟨regular.2.1, regular.2.2.2⟩
  | result | attached => trivial
  | subscribed => exact regular
  | pull c =>
    obtain ⟨-, action, roomy, few⟩ := regular
    exact ConnectionData.modest_of_roomy (by rw [action]; exact RqtAction.noConfusion) roomy few

section

variable (wrapless : Wrapless limit) (bounded : limit ≤ maxWsmanBufferSize.toNat)
include wrapless bounded

theorem Unfinished.step {e : ContextEvent α} (unfinished : o.Unfinished limit instances)
    (regular : o.Regular limit e) (other : resultPosted [e] = false)
    (taken : o.step e = some next) : next.Unfinished limit (instances ++ posted [e]) := by
  obtain ⟨enumerating, -⟩ := step_enumerating wrapless unfinished.enumerating regular taken (by simp)
  rw [other] at enumerating
  exact ⟨enumerating, step_flows bounded unfinished.flows regular.moderate taken⟩

/-- A client that pulls frees a provider that is blocked: every answer makes the queue shorter
until the instance that is held back fits. -/
theorem Unfinished.frees (unfinished : o.Unfinished limit instances) (roomy : Roomy limit d)
    (goes : ∀ next : Observed α, next.Unfinished limit instances →
      next.ec.pendingMessage = none → ∃ last, next.Reaches limit rest finished last) :
    ∃ last, o.Reaches limit rest finished last := by
  induction size : o.ec.queue.length using Nat.strong_induction_on generalizing o with
  | h n ih =>
    by_cases holds : o.ec.pendingMessage = none
    · exact goes o unfinished holds
    have promotes : ∀ {o : Observed α} {c}, o.Unfinished limit instances →
        o.ec.pendingMessage ≠ none → o.ec.queue.length = n →
        o.ec.attachingConnection = some c → ∃ last, o.Reaches limit rest finished last := by
      intro o c unfinished holds size attaching
      obtain ⟨next, taken, -, relieves⟩ :=
        attached_relieves unfinished.flows.1 holds attaching unfinished.live
      have kept := unfinished.step wrapless bounded (e := .attached true) rfl rfl taken
      rw [posted, posted, append_nil] at kept
      have reaches : ∃ last, next.Reaches limit rest finished last := by
        rcases relieves with freed | ⟨shorter, -⟩
        · exact goes next kept freed
        · exact ih _ (size ▸ shorter) kept rfl
      obtain ⟨last, reaches⟩ := reaches
      exact ⟨last, .cons (e := .attached true) rfl taken reaches⟩
    cases attaching : o.ec.attachingConnection with
    | some c => exact promotes unfinished holds size attaching
    | none =>
      have idle : o.ec.waiting = [] := by
        simp [waiting, unfinished.flows.2 holds, attaching]
      have regular : o.Regular limit (.pull d) := ⟨idle, roomy⟩
      have taken := step_pull_of_idle unfinished.live attaching d
      have kept := unfinished.step wrapless bounded regular rfl taken
      rw [posted, posted, append_nil] at kept
      obtain ⟨last, reaches⟩ := promotes kept holds size rfl
      exact ⟨last, .cons regular taken reaches⟩

/-- The provider posts what it still has and then its result. -/
theorem Unfinished.completes (unfinished : o.Unfinished limit instances) (roomy : Roomy limit d)
    (small : ∀ m ∈ rest, m.packedInstanceSize.toNat ≤ limit) :
    ∃ last, o.Reaches limit rest true last := by
  induction rest generalizing o instances with
  | nil =>
    refine unfinished.frees wrapless bounded roomy fun next unfinished free => ?_
    refine ⟨_, .cons (e := .result true resultOk) ?_ rfl ⟨[], trivial, rfl, rfl, rfl⟩⟩
    exact ⟨rfl, free, unfinished.enumerating.completed, rfl⟩
  | cons m rest ih =>
    obtain ⟨here, later⟩ := forall_mem_cons.mp small
    refine unfinished.frees wrapless bounded roomy fun next unfinished free => ?_
    have regular : next.Regular limit (.post true m) :=
      ⟨rfl, free, unfinished.enumerating.completed, here⟩
    obtain ⟨last, reaches⟩ := ih (unfinished.step wrapless bounded regular rfl rfl) later
    exact ⟨last, .cons regular rfl reaches⟩

end

end Observed

/-- Over every regular run of an enumeration the responses carry the posted instances in
order, none lost and none twice, each response within the limit of its request, and the end of
the sequence is announced at most once, when nothing is left. Once the result has been posted
and until the end has been announced, a client that keeps pulling sees the end, at the latest
when it has pulled once more than instances were queued. And as long as the result has not been
posted, it can be, after whatever instances the provider still has. -/
theorem enumeration_delivers (limit : Nat) (c : ConnectionData) (optimized : Bool)
    (events : List (ContextEvent α)) (o : Observed α) (action : c.rqtAction = .enumerate)
    (roomy : limit + approxEnumRespEnvelopeSize ≤ c.maxEnvelopeSize.toNat)
    (few : c.maxElements ≤ maxWsmanCollectionSize)
    (regular : Run.Along Observed.step (Observed.Regular limit)
      (Observed.start .enumerateInstances true optimized c) events)
    (reached : Run.run Observed.step (Observed.start .enumerateInstances true optimized c) events
      = some o) :
    o.Delivers (posted events) ∧
      (resultPosted events = true → (∀ s ∈ o.sent, s.endOfSequence = false) →
        ∀ cs : List ConnectionData, (∀ d ∈ cs, Observed.Roomy limit d) →
          o.ec.queue.length < cs.length → ∃ k ≤ cs.length, ∃ finish,
            Run.run Observed.step o ((o.ec.attachingConnection.toList.map fun _ => .attached true)
              ++ Observed.pullAll (cs.take k)) = some finish
            ∧ finish.Ended ∧ finish.Delivers (posted events)) ∧
      (resultPosted events = false → ∀ d, Observed.Roomy limit d →
        ∀ rest : List (PostInstanceMsg α), (∀ m ∈ rest, m.packedInstanceSize.toNat ≤ limit) →
          ∃ last, o.Reaches limit rest true last) := by
  have small : limit + approxEnumRespEnvelopeSize ≤ wsmanMaxEnvelopeSize.toNat :=
    Nat.le_trans roomy (UInt32.le_iff_toNat_le.mp c.maxEnvelopeSize_le)
  have bounded : limit ≤ maxWsmanBufferSize.toNat := by
    have large : wsmanMaxEnvelopeSize.toNat ≤ maxWsmanBufferSize.toNat := by decide
    omega
  have wrapless := wrapless_of_le bounded
  obtain ⟨enumerating, inactive⟩ := run_enumerating wrapless
    (Observed.Enumerating.start wrapless action roomy optimized) (by simp) regular reached
  rw [nil_append, Bool.false_or] at enumerating
  refine ⟨enumerating.delivers, ?_, ?_⟩
  · intro finished unended cs fit enough
    rw [finished] at enumerating
    have live : o.ec.rightClosed = false := by
      refine Bool.eq_false_iff.mpr ?_
      intro gone
      obtain ⟨s, member, ends⟩ := enumerating.gone.mp gone
      cases (unended s member).symm.trans ends
    cases attaching : o.ec.attachingConnection with
    | none =>
      have idle : o.ec.waiting = [] := by
        simp [waiting, inactive finished, attaching]
      exact enumerating.pullAll_ends wrapless live idle fit enough
    | some d =>
      obtain ⟨next, taken, kept, ended | ⟨alive, free, shorter⟩⟩ :=
        enumerating.attached_advances wrapless attaching
      · refine ⟨0, Nat.zero_le _, next, ?_, ended, kept.delivers⟩
        exact congrArg (· >>= some) taken
      · obtain ⟨k, bound, finish, rest, ends⟩ :=
          kept.pullAll_ends wrapless alive free fit (by omega)
        refine ⟨k, bound, finish, ?_, ends⟩
        simpa [Run.run_cons, taken] using rest
  · intro unfinished d fit rest small
    rw [unfinished] at enumerating
    have modest := ConnectionData.modest_of_roomy (by rw [action]; exact RqtAction.noConfusion)
      roomy few
    have flows := Run.invariant_run
      (fun o e next (flows : o.ec.Flows limit ∧ o.ec.Unblocked) regular taken =>
        step_flows bounded flows (Regular.moderate regular) taken)
      (start_flows bounded modest true optimized) regular reached
    exact Unfinished.completes wrapless bounded ⟨enumerating, flows⟩ fit small

/-- A provider that posts three instances and its result, between two requests of the client. -/
def threePosts : List (ContextEvent Unit) :=
  [.post true ⟨(), 100⟩, .post true ⟨(), 200⟩, .pull (sampleRequest 2 .pull), .attached true,
    .post true ⟨(), 300⟩, .result true resultOk]

/-- The first `Pull` has brought two instances, and further requests bring the last one with the
end. -/
theorem enumeration_delivers_threePosts :
    ∃ o finish : Observed Unit,
      Run.run Observed.step
          (Observed.start .enumerateInstances true false (sampleRequest 1 .enumerate)) threePosts
        = some o
      ∧ o.Delivers [⟨(), 100⟩, ⟨(), 200⟩, ⟨(), 300⟩]
      ∧ delivered o.sent = [⟨(), 100⟩, ⟨(), 200⟩] ∧ o.ec.queue = [⟨(), 300⟩]
      ∧ finish.Ended ∧ finish.Delivers [⟨(), 100⟩, ⟨(), 200⟩, ⟨(), 300⟩] := by
  have roomy : ∀ request, Observed.Roomy 300 (sampleRequest request .pull) :=
    fun _ => ⟨rfl, (by decide : 300 + approxEnumRespEnvelopeSize ≤ wsmanMaxEnvelopeSize.toNat),
      (by decide : 10 ≤ maxWsmanCollectionSize)⟩
  have regular : Run.Along step (Observed.Regular 300)
      (start .enumerateInstances true false (sampleRequest 1 .enumerate)) threePosts := by
    refine ⟨⟨rfl, rfl, rfl, by decide⟩, ?_⟩
    rintro _ ⟨⟩
    refine ⟨⟨rfl, rfl, rfl, by decide⟩, ?_⟩
    rintro _ ⟨⟩
    refine ⟨⟨rfl, roomy 2⟩, ?_⟩
    rintro _ ⟨⟩
    refine ⟨rfl, ?_⟩
    rintro _ ⟨⟩
    refine ⟨⟨rfl, rfl, rfl, by decide⟩, ?_⟩
    rintro _ ⟨⟩
    exact ⟨⟨rfl, rfl, rfl, rfl⟩, fun _ _ => trivial⟩
  obtain ⟨delivers, progress, -⟩ := enumeration_delivers 300 (sampleRequest 1 .enumerate) false
    threePosts _ rfl (by decide) (by decide) regular rfl
  obtain ⟨-, -, finish, -, ended, all⟩ := progress rfl (by decide)
    [sampleRequest 3 .pull, sampleRequest 4 .pull] (by simp [roomy]) (by decide)
  exact ⟨_, finish, rfl, delivers, rfl, rfl, ended, all⟩

/-! ## A request for too many elements -/

/-- An `Enumerate` for 5000 elements. -/
def demandingRequest : ConnectionData :=
  ⟨1, ⟨1000, 1000⟩, .enumerate, wsmanMaxEnvelopeSize, 5000, UInt32.le_refl _, UInt32.lt_trans
    UInt32.zero_lt_one (by decide)⟩

/-- An instance of 100 bytes. -/
def smallPost : ContextEvent Unit := .post true ⟨(), 100⟩

/-- The optimized `Enumerate` waits while `k` instances are in the queue. -/
def waitingWith (k : Nat) (size count : UInt32) : Observed Unit :=
  ⟨{ create .enumerateInstances demandingRequest with
    queue := replicate k ⟨(), 100⟩, totalResponseSize := size, totalResponses := count },
    [demandingRequest], []⟩

section

variable {k : Nat} {size count : UInt32} (bytes : size.toNat = 100 * k) (many : count.toNat = k)
include bytes many

/-- The request is not answered, whether an instance is held back or not. -/
theorem processEnumResponse_waitingWith (room : k ≤ 2048)
    (pending : Option (PostInstanceMsg Unit)) :
    processEnumResponse true { (waitingWith k size count).ec with pendingMessage := pending } false
      = ({ (waitingWith k size count).ec with pendingMessage := pending }, []) := by
  have elements : ¬demandingRequest.maxElements ≤ count := by
    rw [UInt32.le_iff_toNat_le, many]
    exact Nat.not_le.mpr (Nat.lt_of_le_of_lt room (by decide))
  have envelope : ¬demandingRequest.maxEnvelopeSize.toNat
      < approxEnumRespEnvelopeSize + size.toNat := by
    have wide : approxEnumRespEnvelopeSize + 100 * 2048
        ≤ demandingRequest.maxEnvelopeSize.toNat := by decide
    omega
  simp [processEnumResponse, mustRespond, closeIfFinished, waitingWith, create, elements, envelope]

theorem step_waitingWith (room : k < 2048) :
    (size + 100).toNat = 100 * (k + 1) ∧ (count + 1).toNat = k + 1
      ∧ (waitingWith k size count).step smallPost
        = some (waitingWith (k + 1) (size + 100) (count + 1)) := by
  have added : (size + 100).toNat = 100 * (k + 1) := by
    rw [UInt32.toNat_add, bytes]
    exact Nat.mod_eq_of_lt (show 100 * k + 100 < 2 ^ 32 by omega)
  have counted : (count + 1).toNat = k + 1 := by
    rw [UInt32.toNat_add, many]
    exact Nat.mod_eq_of_lt (show k + 1 < 2 ^ 32 by omega)
  have fits : ¬(maxWsmanBufferSize < size + 100 ∨ count = maxWsmanCollectionSize) := by
    rw [UInt32.lt_iff_toNat_lt, added, ← UInt32.toNat_inj, many]
    have large : 100 * 2048 ≤ maxWsmanBufferSize.toNat ∧ maxWsmanCollectionSize.toNat = 2048 := by
      decide
    omega
  have appended : (waitingWith k size count).ec.append ⟨(), 100⟩
      = (waitingWith (k + 1) (size + 100) (count + 1)).ec := by
    simp [append, waitingWith, replicate_succ']
  have quiet := processEnumResponse_waitingWith added counted room none
  have accepts : ¬((waitingWith k size count).ec.enumerationCompleted = true
      ∨ (waitingWith k size count).ec.canceled = true) := by simp [waitingWith, create]
  have queued : (waitingWith k size count).ec.processInstance true ⟨(), 100⟩
      = ((waitingWith k size count).ec.append ⟨(), 100⟩).processEnumResponse true false :=
    (if_neg accepts).trans (if_neg fits)
  refine ⟨added, counted, ?_⟩
  rw [smallPost, step, queued, appended]
  exact congrArg (fun out => some (record _ out)) quiet

/-- The instance behind the last one that the queue can hold. -/
theorem step_full (full : k = 2048) :
    (waitingWith k size count).step smallPost
      = some ⟨{ (waitingWith k size count).ec with pendingMessage := some ⟨(), 100⟩ },
        [demandingRequest], []⟩ := by
  have accepts : ¬((waitingWith k size count).ec.enumerationCompleted = true
      ∨ (waitingWith k size count).ec.canceled = true) := by simp [waitingWith, create]
  have filled : count = maxWsmanCollectionSize := by
    rw [← UInt32.toNat_inj, many, full]
    rfl
  have quiet := processEnumResponse_waitingWith bytes many full.le (some ⟨(), 100⟩)
  rw [smallPost, step, processInstance, if_neg accepts, if_pos (.inr filled)]
  exact congrArg (fun out => some (record _ out)) quiet

end

theorem run_waitingWith {k n : Nat} {size count : UInt32} (bytes : size.toNat = 100 * k)
    (many : count.toNat = k) (rest : k + n = 2048) :
    Run.Along step (Regular 100) (waitingWith k size count) (replicate (n + 1) smallPost) ∧
      ∃ total number, Run.run step (waitingWith k size count) (replicate (n + 1) smallPost)
        = some ⟨{ (waitingWith 2048 total number).ec with pendingMessage := some ⟨(), 100⟩ },
          [demandingRequest], []⟩ := by
  have regular : (waitingWith k size count).Regular 100 smallPost := ⟨rfl, rfl, rfl, by decide⟩
  induction n generalizing k size count with
  | zero =>
    subst rest
    have taken := step_full bytes many rfl
    refine ⟨⟨regular, fun _ _ => trivial⟩, size, count, ?_⟩
    exact Run.run_cons_of_step taken []
  | succ n ih =>
    obtain ⟨bytes, many, taken⟩ := step_waitingWith bytes many (by omega)
    obtain ⟨along, total, number, reached⟩ :=
      ih bytes many (by omega) ⟨rfl, rfl, rfl, by decide⟩
    refine ⟨⟨regular, fun next stepped => ?_⟩, total, number, ?_⟩
    · cases taken.symm.trans stepped
      exact along
    · exact (Run.run_cons_of_step taken _).trans reached

/-- After 2049 small instances the provider waits for the client and the client for the
provider. -/
theorem demandingRequest_blocks :
    ∃ o : Observed Unit,
      Run.Along Observed.step (Observed.Regular 100)
        (Observed.start .enumerateInstances true true demandingRequest) (replicate 2049 smallPost)
      ∧ Run.run Observed.step (Observed.start .enumerateInstances true true demandingRequest)
        (replicate 2049 smallPost) = some o
      ∧ o.sent = [] ∧ ∀ e, o.Regular 100 e → o.step e = none := by
  obtain ⟨along, total, number, reached⟩ :=
    @run_waitingWith 0 2048 0 0 rfl rfl rfl
  refine ⟨_, along, reached, rfl, ?_⟩
  intro e regular
  cases e with
  | post | result => cases regular.2.1
  | subscribed => exact regular.elim
  | pull => cases regular.1
  | attached => rfl

end Omi.Wsman
