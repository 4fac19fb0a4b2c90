import Omi.Data.Run
import Omi.Wsman.EnumContext

/-!
# At most one request is attached to a context

A `Pull` is attached in two steps. The swap of `attachingConnection` runs on the
strand of the connection; the promotion to `activeConnection` runs later on the
strand of the context. Between the two, posts of the provider and further
requests can arrive. The swap only looks at `attachingConnection`, so it lets a
request in while an earlier one has been promoted and not yet answered; the
promotion of the second request then drops the first one without a response.

Where no request arrives in that state, each request is attached alone and gets
exactly one response, and the condition cannot be weakened.
-/

namespace Omi.Wsman

open List Option EnumerateContext
open Omi.Protocol (Result resultOk)

universe u

variable {α : Type u}

/-! ## What the operations do to the attached request -/

namespace EnumerateContext

/-- The requests that were accepted and not answered. -/
def waiting (ec : EnumerateContext α) : List ConnectionData :=
  ec.activeConnection.toList ++ ec.attachingConnection.toList

/-- An operation either leaves the attachment alone and answers nothing, or it answers the
active request and detaches it. -/
structure Settles (ec : EnumerateContext α) (o : Outcome α) : Prop where
  attaching_eq : o.1.attachingConnection = ec.attachingConnection
  canceled_eq : o.1.canceled = ec.canceled
  cases : (o.2 = [] ∧ o.1.activeConnection = ec.activeConnection
      ∧ o.1.leftClosed = ec.leftClosed ∧ o.1.rightClosed = ec.rightClosed)
    ∨ ∃ c r, ec.activeConnection = some c ∧ o.2 = [⟨c, r⟩]
      ∧ o.1.activeConnection = none ∧ o.1.leftClosed = true

/-- Nothing happens. -/
theorem settles_refl (ec : EnumerateContext α) : ec.Settles (ec, []) :=
  ⟨rfl, rfl, .inl ⟨rfl, rfl, rfl, rfl⟩⟩

/-- The fields in which two contexts may differ without a difference in their attachment. -/
structure SameAttachment (a b : EnumerateContext α) : Prop where
  active_eq : a.activeConnection = b.activeConnection
  attaching_eq : a.attachingConnection = b.attachingConnection
  canceled_eq : a.canceled = b.canceled
  leftClosed_eq : a.leftClosed = b.leftClosed

theorem SameAttachment.trans {a b c : EnumerateContext α} (first : a.SameAttachment b)
    (second : b.SameAttachment c) : a.SameAttachment c :=
  ⟨first.active_eq.trans second.active_eq, first.attaching_eq.trans second.attaching_eq,
    first.canceled_eq.trans second.canceled_eq, first.leftClosed_eq.trans second.leftClosed_eq⟩

theorem checkCloseRight_attachment (ec : EnumerateContext α) :
    ec.checkCloseRight.SameAttachment ec := by
  simp only [checkCloseRight]
  split
  · exact ⟨rfl, rfl, rfl, rfl⟩
  · exact ⟨rfl, rfl, rfl, rfl⟩

theorem processPendingMessage_attachment (ec : EnumerateContext α) :
    ec.processPendingMessage.SameAttachment ec := by
  simp only [processPendingMessage]
  split
  · exact ⟨rfl, rfl, rfl, rfl⟩
  split
  · exact ⟨rfl, rfl, rfl, rfl⟩
  · exact ⟨rfl, rfl, rfl, rfl⟩

variable {ec : EnumerateContext α} {c : ConnectionData}

/-- A context that is detached after a response to the active request. -/
theorem settles_of_detached {next : EnumerateContext α}
    (active : ec.activeConnection = some c) (response : Response α)
    (same : next.SameAttachment ec.closeLeft) : ec.Settles (next, [⟨c, response⟩]) where
  attaching_eq := same.attaching_eq
  canceled_eq := same.canceled_eq
  cases := .inr ⟨c, response, active, rfl, same.active_eq, same.leftClosed_eq⟩

theorem sendEnumPullResponse_detaches (allocated : Bool) (ec : EnumerateContext α)
    (c : ConnectionData) :
    ∃ next response, ec.sendEnumPullResponse allocated c = (next, [⟨c, response⟩])
      ∧ next.SameAttachment ec.closeLeft := by
  have responds : ∀ taken left endOfSequence, ∃ next response,
      ec.respond allocated c taken left endOfSequence = (next, [⟨c, response⟩])
        ∧ next.SameAttachment ec.closeLeft := by
    intro taken left endOfSequence
    cases allocated with
    | false | true =>
      refine ⟨_, _, rfl, (processPendingMessage_attachment _).trans ?_⟩
      exact ⟨rfl, rfl, rfl, rfl⟩
  simp only [sendEnumPullResponse]
  split
  · exact responds _ _ _
  split
  · exact ⟨_, _, rfl, checkCloseRight_attachment _⟩
  · exact responds _ _ _

/-- Closing a finished context does not matter once its request has been detached. -/
theorem closeIfFinished_attachment (closed : ec.leftClosed = true) :
    ec.closeIfFinished.SameAttachment ec := by
  simp only [closeIfFinished, checkCloseLeft, closed, if_true]
  split
  · exact checkCloseRight_attachment ec
  · exact ⟨rfl, rfl, rfl, rfl⟩

/-- A context is not closed before its result. -/
theorem closeIfFinished_of_running (unfinished : ec.enumerationCompleted = false) :
    ec.closeIfFinished = ec := by
  simp only [closeIfFinished, unfinished, Bool.false_eq_true, false_and, if_false]

/-- A completed context always responds, so there is nothing to close in another one. -/
theorem closeIfFinished_of_quiet {pullRequestAttached : Bool}
    (quiet : ec.mustRespond c pullRequestAttached = false) : ec.closeIfFinished = ec := by
  simp only [mustRespond, Bool.or_eq_false_iff] at quiet
  exact closeIfFinished_of_running quiet.1.1.1.1

theorem processEnumResponse_settles (allocated : Bool) (ec : EnumerateContext α)
    (running : ec.canceled = false) (pullRequestAttached : Bool) :
    ec.Settles (ec.processEnumResponse allocated pullRequestAttached) := by
  simp only [processEnumResponse, running, Bool.false_eq_true, if_false]
  split
  · exact ec.settles_refl
  split
  · exact ec.settles_refl
  rename_i c active
  split
  · exact settles_of_detached active _ (checkCloseRight_attachment _)
  split
  · split
    · exact ec.settles_refl
    · obtain ⟨next, response, sent, same⟩ := ec.sendEnumPullResponse_detaches allocated c
      rw [sent]
      refine settles_of_detached active response ?_
      exact (closeIfFinished_attachment same.leftClosed_eq).trans same
  · rename_i quiet
    rw [closeIfFinished_of_quiet (Bool.eq_false_iff.mpr quiet)]
    exact ec.settles_refl

theorem processInstance_settles (allocated : Bool) (running : ec.canceled = false)
    (m : PostInstanceMsg α) : ec.Settles (ec.processInstance allocated m) := by
  simp only [processInstance]
  split
  · exact ec.settles_refl
  split
  · have settles := processEnumResponse_settles allocated
      { ec with pendingMessage := some m } running false
    exact ⟨settles.attaching_eq, settles.canceled_eq, settles.cases⟩
  · have settles := processEnumResponse_settles allocated (ec.append m) running false
    exact ⟨settles.attaching_eq, settles.canceled_eq, settles.cases⟩

variable {allocated : Bool}

theorem processResult_settles (running : ec.canceled = false) (result : Result) :
    ec.Settles (ec.processResult allocated result) := by
  have settles := processEnumResponse_settles allocated
    { ec with enumerationCompleted := true, finalResult := result } running false
  exact ⟨settles.attaching_eq, settles.canceled_eq, settles.cases⟩

/-- A confirmed subscription answers the request that is attached. -/
theorem processSubscribeResponse_settles
    (linked : ec.activeConnection = none → ec.leftClosed = true) :
    ec.Settles (ec.processSubscribeResponse allocated) := by
  simp only [processSubscribeResponse]
  split
  · exact ⟨rfl, rfl, .inl ⟨rfl, rfl, rfl, rfl⟩⟩
  split
  · rename_i absent
    simp only [linked absent, if_true]
    exact ⟨rfl, rfl, .inl ⟨rfl, rfl, (linked absent).symm, rfl⟩⟩
  · rename_i c active
    obtain ⟨next, response, sent, same⟩ := sendEnumPullResponse_detaches allocated
      { ec with finalResult := resultOk, responsed := true } c
    rw [sent]
    exact settles_of_detached active response
      (same.trans ⟨rfl, rfl, rfl, rfl⟩)

/-- `_ProcessPullRequest` for a context that was created with this id: it is found until it
has been released. -/
def receivePull (ec : EnumerateContext α) (c : ConnectionData) : Outcome α :=
  if ec.rightClosed then
    (ec, [⟨c, .fault .destinationUnreachable "Enumeration context not found"⟩])
  else ec.attach c

theorem receivePull_of_idle (live : ec.rightClosed = false)
    (idle : ec.attachingConnection = none) (c : ConnectionData) :
    ec.receivePull c = ({ ec with attachingConnection := some c }, []) := by
  have found : ¬ec.rightClosed = true := Bool.eq_false_iff.mp live
  simp only [receivePull, if_neg found, attach, idle]

theorem pullAttached_eq (running : ec.canceled = false)
    (attaching : ec.attachingConnection = some c) :
    ec.pullAttached allocated = some ((ec.leftAttached c).processEnumResponse allocated true) := by
  have running : (ec.leftAttached c).canceled = false := running
  simp only [pullAttached, attaching, map_some, running, Bool.false_eq_true, if_false]

end EnumerateContext

/-! ## Runs of one context -/

/-- What happens to a context: messages from the provider side, requests, and the promotion
of a request that was swapped in. Each may find that buffers cannot be allocated. -/
inductive ContextEvent (α : Type u) where
  | post (allocated : Bool) (m : PostInstanceMsg α)
  | result (allocated : Bool) (result : Result)
  | subscribed (allocated : Bool)
  | pull (c : ConnectionData)
  | attached (allocated : Bool)

/-- A context with the requests that it received and the responses to them. -/
structure Observed (α : Type u) where
  ec : EnumerateContext α
  requests : List ConnectionData
  sent : List (Sent α)

/-- The outcome of an operation is recorded. -/
def Observed.record (o : Observed α) (out : Outcome α) : Observed α :=
  ⟨out.1, o.requests, o.sent ++ out.2⟩

/-- The promotion runs only after a swap; everything else can happen at any time. -/
def Observed.step (o : Observed α) : ContextEvent α → Option (Observed α)
  | .post allocated m => some (o.record (o.ec.processInstance allocated m))
  | .result allocated result => some (o.record (o.ec.processResult allocated result))
  | .subscribed allocated => some (o.record (o.ec.processSubscribeResponse allocated))
  | .pull c => some ({ o with requests := o.requests ++ [c] }.record (o.ec.receivePull c))
  | .attached allocated => (o.ec.pullAttached allocated).map o.record

/-- A context just created for a request. Without optimization an `Enumerate` request is
answered at once, a `Subscribe` request never is. -/
def Observed.start (requestTag : RequestTag) (allocated optimized : Bool) (c : ConnectionData) :
    Observed α :=
  let o : Observed α := ⟨EnumerateContext.create requestTag c, [c], []⟩
  if requestTag = .subscribe ∨ optimized then o
  else o.record (o.ec.sendEnumPullResponse allocated c)

/-- Every request was answered once, except one that may still be attached. -/
def Observed.Served (o : Observed α) : Prop :=
  (o.sent.map Sent.connection ++ o.ec.waiting).Perm o.requests ∧ o.ec.waiting.length ≤ 1

/-- A request that arrives while another one is unanswered gets a fault and changes
nothing. -/
def Observed.RefusesSecond (o : Observed α) : ContextEvent α → Prop
  | .pull c =>
    o.ec.waiting ≠ [] → ∃ code text, o.ec.receivePull c = (o.ec, [⟨c, .fault code text⟩])
  | _ => True

/-- The event keeps the attachment single and the requests served. -/
def Observed.Single (o : Observed α) (e : ContextEvent α) : Prop :=
  o.RefusesSecond e ∧ ∀ next, o.step e = some next → next.Served

/-- No request arrives while an earlier one is active and no other is being attached. -/
def Observed.Spaced (o : Observed α) : ContextEvent α → Prop
  | .pull _ => o.ec.activeConnection = none ∨ o.ec.attachingConnection ≠ none
  | _ => True

/-- The invariant behind the runs. -/
structure Observed.Fine (o : Observed α) : Prop where
  served : o.Served
  running : o.ec.canceled = false
  linked : o.ec.activeConnection = none ↔ o.ec.leftClosed = true
  released : o.ec.rightClosed = true → o.ec.waiting = []

variable {c : ConnectionData}

/-- The requests that wait, when there is at most one. -/
theorem EnumerateContext.waiting_of_active {ec : EnumerateContext α}
    (active : ec.activeConnection = some c) (single : ec.waiting.length ≤ 1) :
    ec.attachingConnection = none := by
  simp only [waiting, active, toList_some, length_append, length_cons, length_nil] at single
  cases attaching : ec.attachingConnection with
  | none => rfl
  | some other =>
    simp [attaching] at single

variable {o : Observed α}

theorem Observed.step_pull_of_idle (live : o.ec.rightClosed = false)
    (idle : o.ec.attachingConnection = none) (c : ConnectionData) :
    o.step (.pull c) = some ({ o with requests := o.requests ++ [c] }.record
      ({ o.ec with attachingConnection := some c }, [])) := by
  rw [← receivePull_of_idle live idle]
  rfl

section

variable (fine : o.Fine)
include fine

/-- An operation that settles the attached request keeps everything in order. -/
theorem Observed.Fine.record {out : Outcome α} (settles : o.ec.Settles out) :
    (o.record out).Fine := by
  obtain ⟨all, single⟩ := fine.served
  obtain ⟨quiet, active, left, right⟩ | ⟨c, response, active, sent, detached, left⟩ :=
    settles.cases
  · have waiting : out.1.waiting = o.ec.waiting := by
      simp only [waiting, active, settles.attaching_eq]
    refine ⟨⟨?_, ?_⟩, settles.canceled_eq.trans fine.running, ?_, ?_⟩
    · simpa only [Observed.record, quiet, append_nil, waiting] using all
    · simpa only [Observed.record, waiting] using single
    · simpa only [Observed.record, active, left] using fine.linked
    · simpa only [Observed.record, waiting, right] using fine.released
  · have alone := waiting_of_active active single
    have before : o.ec.waiting = [c] := by
      simp only [waiting, active, alone]
      rfl
    have after : out.1.waiting = [] := by
      simp only [waiting, detached, settles.attaching_eq, alone]
      rfl
    refine ⟨⟨?_, ?_⟩, settles.canceled_eq.trans fine.running, ?_, fun _ => after⟩
    · simpa only [Observed.record, sent, map_append, map_cons, map_nil, after,
        append_nil, before] using all
    · simp only [Observed.record, after, length_nil, Nat.zero_le]
    · simp only [Observed.record, detached, left]

/-- A request that arrives while nothing is attached, or while another one is being
attached. -/
theorem Observed.Fine.receivePull
    (spaced : o.ec.activeConnection = none ∨ o.ec.attachingConnection ≠ none) :
    ({ o with requests := o.requests ++ [c] }.record (o.ec.receivePull c)).Fine := by
  obtain ⟨all, single⟩ := fine.served
  have refused : ∀ response, (Observed.record { o with requests := o.requests ++ [c] }
      (o.ec, [⟨c, response⟩])).Fine := by
    intro response
    refine ⟨⟨?_, single⟩, fine.running, fine.linked, fine.released⟩
    simp only [Observed.record, map_append, map_cons, map_nil, append_assoc]
    refine (List.Perm.append_left _ perm_append_comm).trans ?_
    rw [← append_assoc]
    exact all.append_right [c]
  simp only [EnumerateContext.receivePull]
  split
  · exact refused _
  · rename_i found
    cases attaching : o.ec.attachingConnection with
    | some other =>
      simp only [EnumerateContext.attach, attaching]
      exact refused _
    | none =>
      have idle : o.ec.activeConnection = none :=
        spaced.resolve_right fun other => other attaching
      simp only [EnumerateContext.waiting, idle, attaching, toList_none, append_nil] at all
      simp only [EnumerateContext.attach, attaching]
      refine ⟨⟨?_, ?_⟩, fine.running, fine.linked, fun released => absurd released found⟩
      · simp only [Observed.record, EnumerateContext.waiting, idle, toList_none,
          toList_some, nil_append, append_nil]
        exact all.append_right [c]
      · simp only [Observed.record, EnumerateContext.waiting, idle, toList_none,
          toList_some, nil_append, length_cons, length_nil, Nat.le_refl]

/-- The promotion of a request that was swapped in. -/
theorem Observed.Fine.promoted (attaching : o.ec.attachingConnection = some c) :
    (o.ec.leftAttached c).waiting = o.ec.waiting ∧
      (Observed.mk (o.ec.leftAttached c) o.requests o.sent).Fine := by
  have idle : o.ec.activeConnection = none := by
    cases active : o.ec.activeConnection with
    | none => rfl
    | some other =>
      have alone := waiting_of_active active fine.served.2
      cases attaching.symm.trans alone
  have same : (o.ec.leftAttached c).waiting = o.ec.waiting := by
    simp [waiting, leftAttached, idle, attaching]
  refine ⟨same, ?_, fine.running, ⟨nofun, nofun⟩, fun released => same.trans (fine.released released)⟩
  simpa only [Observed.Served, same] using fine.served

theorem Observed.Fine.attached {allocated : Bool} {out : Outcome α}
    (taken : o.ec.pullAttached allocated = some out) : (o.record out).Fine := by
  obtain ⟨c, attaching, -⟩ := map_eq_some_iff.mp taken
  rw [pullAttached_eq fine.running attaching] at taken
  cases taken
  have promoted := (fine.promoted attaching).2
  exact promoted.record
    (processEnumResponse_settles allocated _ promoted.running true)

theorem Observed.step_fine {next : Observed α} {e : ContextEvent α}
    (spaced : o.Spaced e) (taken : o.step e = some next) : next.Fine := by
  cases e with
  | post allocated m =>
    cases taken
    exact fine.record (processInstance_settles allocated fine.running m)
  | result allocated result =>
    cases taken
    exact fine.record (processResult_settles fine.running result)
  | subscribed allocated =>
    cases taken
    exact fine.record
      (processSubscribeResponse_settles fine.linked.mp)
  | pull c =>
    cases taken
    exact fine.receivePull spaced
  | attached allocated =>
    obtain ⟨out, promoted, rfl⟩ := map_eq_some_iff.mp taken
    exact fine.attached promoted

/-- A second request is refused exactly when the swap fails or the context is gone. -/
theorem Observed.Fine.refusesSecond_iff (e : ContextEvent α) : o.RefusesSecond e ↔ o.Spaced e := by
  cases e with
  | pull c =>
    constructor
    · intro refuses
      cases active : o.ec.activeConnection with
      | none => exact .inl active
      | some other =>
        right
        intro attaching
        have busy : o.ec.waiting ≠ [] := by
          simp [EnumerateContext.waiting, active]
        have found : ¬o.ec.rightClosed = true := fun gone => busy (fine.released gone)
        obtain ⟨code, text, refused⟩ := refuses busy
        simp only [EnumerateContext.receivePull, if_neg found, EnumerateContext.attach,
          attaching] at refused
        cases (Prod.mk.inj refused).2
    · intro spaced busy
      by_cases gone : o.ec.rightClosed = true
      · exact absurd (fine.released gone) busy
      · cases attaching : o.ec.attachingConnection with
        | some other =>
          refine ⟨.internalError, "Discarding illegitimate Pull request", ?_⟩
          simp only [EnumerateContext.receivePull, if_neg gone, EnumerateContext.attach, attaching]
        | none =>
          have idle := spaced.resolve_right fun other => other attaching
          simp [EnumerateContext.waiting, idle, attaching] at busy
  | post | result | subscribed | attached => exact Iff.rfl

end

open Observed

theorem Observed.start_fine (requestTag : RequestTag) (allocated optimized : Bool)
    (c : ConnectionData) : (start requestTag allocated optimized c : Observed α).Fine := by
  have created : (⟨create requestTag c, [c], []⟩ : Observed α).Fine := by
    refine ⟨⟨?_, ?_⟩, rfl, ?_, nofun⟩
    · exact List.Perm.refl [c]
    · exact Nat.le_refl 1
    · exact ⟨nofun, nofun⟩
  simp only [start]
  split
  · exact created
  · obtain ⟨next, response, sent, same⟩ :=
      (create requestTag c : EnumerateContext α).sendEnumPullResponse_detaches
        allocated c
    rw [sent]
    exact created.record (settles_of_detached rfl response same)

/-- Over every run of a context, requests are refused while another one is unanswered and
every other request gets exactly one response, if and only if no request arrives while an
earlier one is active and none is being attached. -/
theorem single_attachment_iff (requestTag : RequestTag) (allocated optimized : Bool)
    (c : ConnectionData) (events : List (ContextEvent α)) :
    Run.Along Observed.step Observed.Single (Observed.start requestTag allocated optimized c)
        events ↔
      Run.Along Observed.step Observed.Spaced (Observed.start requestTag allocated optimized c)
        events := by
  refine Run.along_iff_of_invariant (fun o e (fine : o.Fine) => ?_) ?_
    (start_fine requestTag allocated optimized c)
  · constructor
    · intro single
      exact (fine.refusesSecond_iff e).mp single.1
    · intro spaced
      refine ⟨(fine.refusesSecond_iff e).mpr spaced, ?_⟩
      intro next taken
      exact (step_fine fine spaced taken).served
  · intro o e next fine spaced taken
    exact step_fine fine spaced taken

/-- The requests of the run below. -/
def sampleRequest (request : Nat) (rqtAction : RqtAction) : ConnectionData :=
  ⟨request, ⟨1000, 1000⟩, rqtAction, wsmanMaxEnvelopeSize, 10, by decide, by decide⟩

/-- An optimized `Enumerate` waits for the provider when a `Pull` arrives. -/
def overlappingRequests : List (ContextEvent Unit) :=
  [.pull (sampleRequest 2 .pull), .attached true, .result true resultOk]

/-- The `Pull` is accepted, and the `Enumerate` is never answered. -/
theorem overlapping_request_lost :
    let start : Observed Unit :=
      start .enumerateInstances true true (sampleRequest 1 .enumerate)
    ¬Run.Along step Observed.Single start overlappingRequests ∧
      (Run.run step start overlappingRequests).map
          (fun o => (o.requests.map (·.request), o.sent.map (·.connection.request),
            o.ec.waiting.map (·.request))) =
        some ([1, 2], [2], []) := by
  refine ⟨?_, by decide⟩
  intro along
  obtain ⟨code, text, refused⟩ := along.1.1 (by decide)
  cases (Prod.mk.inj refused).2

end Omi.Wsman
