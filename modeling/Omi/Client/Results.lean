import Omi.Client.Handler

/-!
# Results reach the client once and in order

What an operation has called back, which references it holds and which message it holds
back are functions of the messages that were posted: `calls`, `kept` and `heldBack`. The
invariant `Follows` says so for every state that a run comes through, with the method that
is inside a callback and the acknowledgement that is under way taken into account.

A close without a final result ends the results with a failure, but it forgets the message
that is held back: its object is never given to the client, and its reference is never
released. That is the only way in which a result gets lost.
-/

namespace Omi.Client

open List Option

variable {α ρ : Type}

/-! ## Functions of what was posted -/

/-- The objects in messages. -/
def objects (msgs : List (Message α ρ)) : List α := msgs.filterMap Message.object

/-- The messages' numbers. -/
def ids (msgs : List (Message α ρ)) : List Nat := msgs.map Message.id

/-- The message that is held back once `msg` has been taken in, after `before` was. -/
def Message.heldAfter (msg : Message α ρ) (before : Option (Message α ρ)) :
    Option (Message α ρ) :=
  match msg.body with
  | .postInstance _ | .postSchema _ => if msg.object.isSome then some msg else none
  | .postResult _ | .noOpRsp => none
  | .postIndication _ | .other => before

/-- The message that waits for the next one. -/
def heldBack (msgs : List (Message α ρ)) : Option (Message α ρ) :=
  msgs.foldl (fun before msg => msg.heldAfter before) none

/-- The callback that a message leads to, after `before` was held back. -/
def Message.callback (msg : Message α ρ) (before : Option (Message α ρ)) :
    List (Callback α ρ) :=
  match msg.body with
  | .postInstance _ | .postSchema _ => before.toList.map fun held => ⟨held.object, true, .ok⟩
  | .postIndication _ => [⟨msg.object, true, .ok⟩]
  | .postResult r => [⟨before.bind Message.object, false, .posted r⟩]
  | .noOpRsp => [⟨none, false, .ok⟩]
  | .other => []

/-- The callbacks for the messages, the last message first. -/
def callsBackwards : List (Message α ρ) → List (Callback α ρ)
  | [] => []
  | msg :: earlier => callsBackwards earlier ++ msg.callback (heldBack earlier.reverse)

/-- The callbacks for the messages. -/
def calls (msgs : List (Message α ρ)) : List (Callback α ρ) := callsBackwards msgs.reverse

/-- A message of which the handler takes a reference. -/
def Message.isKept (msg : Message α ρ) : Bool :=
  match msg.body with
  | .postInstance _ | .postSchema _ => msg.object.isSome
  | .postIndication _ | .postResult _ => true
  | .noOpRsp | .other => false

/-- The messages of which references are taken. -/
def kept (msgs : List (Message α ρ)) : List Nat := ids (msgs.filter Message.isKept)

section Concat

variable (msgs : List (Message α ρ)) (msg : Message α ρ)

theorem ids_concat : ids (msgs ++ [msg]) = ids msgs ++ [msg.id] := map_append

theorem objects_concat : objects (msgs ++ [msg]) = objects msgs ++ msg.object.toList := by
  rw [objects, filterMap_append]
  refine congrArg (filterMap Message.object msgs ++ ·) ?_
  cases object : msg.object with
  | none => exact filterMap_cons_none object
  | some x => exact filterMap_cons_some object

theorem heldBack_concat : heldBack (msgs ++ [msg]) = msg.heldAfter (heldBack msgs) := by
  rw [heldBack, foldl_append]
  rfl

theorem calls_concat : calls (msgs ++ [msg]) = calls msgs ++ msg.callback (heldBack msgs) := by
  rw [calls, reverse_concat, callsBackwards, reverse_reverse]
  rfl

theorem kept_concat : kept (msgs ++ [msg]) = kept msgs ++ if msg.isKept then [msg.id] else [] := by
  rw [kept, filter_append, ids, map_append]
  cases kept : msg.isKept with
  | true => rw [filter_cons_of_pos kept, if_pos rfl]; rfl
  | false => rw [filter_cons_of_neg (by rw [kept]; exact nofun), if_neg nofun]; rfl

end Concat

/-- A message of one of the kinds that are held back. -/
def Body.isItem : Body α ρ → Bool
  | .postInstance _ | .postSchema _ => true
  | _ => false

variable {msg : Message α ρ}

theorem heldAfter_item (item : msg.body.isItem = true) (before : Option (Message α ρ)) :
    msg.heldAfter before = if msg.object.isSome then some msg else none := by
  obtain ⟨id, body⟩ := msg
  cases body <;> first | rfl | cases item

theorem callback_item (item : msg.body.isItem = true) (before : Option (Message α ρ)) :
    msg.callback before = before.toList.map fun held => ⟨held.object, true, .ok⟩ := by
  obtain ⟨id, body⟩ := msg
  cases body <;> first | rfl | cases item

theorem isKept_item (item : msg.body.isItem = true) : msg.isKept = msg.object.isSome := by
  obtain ⟨id, body⟩ := msg
  cases body <;> first | rfl | cases item

theorem isFinal_item {body : Body α ρ} (item : body.isItem = true) : body.isFinal = false := by
  cases body <;> first | rfl | cases item

variable {kind : OperationKind}

theorem OperationKind.eq_indication {object : Option α}
    (suits : kind.suits (.postIndication object : Body α ρ) = true) : kind = .indication := by
  cases kind <;> first | rfl | cases suits

theorem OperationKind.eq_noOp (suits : kind.suits (.noOpRsp : Body α ρ) = true) : kind = .noOp := by
  cases kind <;> first | rfl | cases suits

/-- Indications and the answer to a no-op are never held back. -/
theorem heldBack_eq_none (unheld : kind = .indication ∨ kind = .noOp)
    (msgs : List (Message α ρ)) (suits : ∀ msg ∈ msgs, kind.suits msg.body = true) :
    heldBack msgs = none := by
  induction msgs using reverseRecOn with
  | nil => rfl
  | append_singleton msgs msg ih =>
    have before := ih fun earlier inside => suits earlier (mem_append_left _ inside)
    have suit := suits msg (mem_append_right _ mem_cons_self)
    rw [heldBack_concat, before]
    obtain ⟨id, body⟩ := msg
    cases body with
    | postInstance object | postSchema object =>
      obtain rfl | rfl := unheld
      · cases suit
      · cases suit
    | postIndication object | postResult r | noOpRsp | other => rfl

/-- The message that an event posts. -/
def Event.body? : Event α ρ → Option (Body α ρ)
  | .post body => some body
  | _ => none

/-! ## The invariant -/

namespace Operation

/-- The reference that is held for the next message, if the results go on. -/
def holding (cached : Option (Message α ρ)) (finished : Bool) : List (Message α ρ) :=
  if finished then [] else cached.toList

/-- The message whose object is still to be delivered. -/
def toDeliver (inPost cached : Option (Message α ρ)) (finished : Bool) : Option (Message α ρ) :=
  match inPost with
  | some msg => if msg.object.isSome then some msg else none
  | none => if finished then none else cached

/-- The callback for a close without a result. -/
def closing (s : Operation α ρ) : List (Callback α ρ) :=
  if s.closed = true ∧ s.resultPosted = false then [⟨none, false, .failed⟩] else []

/-- What is true of an operation at any time. -/
structure Follows (s : Operation α ρ) : Prop where
  numbered : ids s.posted = List.range s.posted.length
  suits : ∀ msg ∈ s.posted, s.kind.suits msg.body = true
  lastly : ∀ msg ∈ s.posted.dropLast, msg.body.isFinal = false
  acknowledgements : s.acknowledged ++ s.awaiting.toList.map some = (ids s.posted).map some
  underway : s.awaiting.isSome = (s.owesAck || s.ackScheduled)
  once : ¬(s.owesAck = true ∧ s.ackScheduled = true)
  called : s.callbacks = calls s.posted ++ s.closing
  final : s.callingFinalResult = (s.resultPosted || s.closed)
  held : heldBack s.posted = toDeliver s.inPost s.cachedResultRequest s.resultPosted
  references : s.taken ++ ids (s.inPost.toList.filter Message.isKept) = kept s.posted
  releases : s.taken = s.released ++ ids (s.currentObjectMessage.toList ++
    s.currentResultMessage.toList ++ holding s.cachedResultRequest s.resultPosted)
  idle : s.owesAck = false → s.currentObjectMessage = none ∧ s.currentResultMessage = none
  inside : ∀ msg, s.inPost = some msg →
    s.cachedResultRequest = none ∧ s.resultPosted = false ∧ s.awaiting.isSome = true ∧
      msg.isKept = msg.object.isSome

theorem follows_new (kind : OperationKind) : (new kind : Operation α ρ).Follows where
  numbered := rfl
  suits _ inside := absurd inside not_mem_nil
  lastly _ inside := absurd inside not_mem_nil
  acknowledgements := rfl
  underway := rfl
  once := nofun
  called := rfl
  final := rfl
  held := rfl
  references := rfl
  releases := rfl
  idle _ := ⟨rfl, rfl⟩
  inside _ := nofun

/-- The state in which a message is posted. -/
structure Ready (s : Operation α ρ) : Prop where
  closed : s.closed = false
  awaiting : s.awaiting = none
  inPost : s.inPost = none
  resultPosted : s.resultPosted = false
  owesAck : s.owesAck = false
  ackScheduled : s.ackScheduled = false
  currentObjectMessage : s.currentObjectMessage = none
  currentResultMessage : s.currentResultMessage = none

theorem Follows.ready {s : Operation α ρ} (follows : s.Follows) (closed : s.closed = false)
    (awaiting : s.awaiting = none) (inPost : s.inPost = none)
    (resultPosted : s.resultPosted = false) : s.Ready := by
  have quiet := follows.underway
  rw [awaiting, isSome_none, eq_comm, Bool.or_eq_false_iff] at quiet
  obtain ⟨object, result⟩ := follows.idle quiet.1
  exact ⟨closed, awaiting, inPost, resultPosted, quiet.1, quiet.2, object, result⟩

/-- The message that a post brings. -/
def incoming (s : Operation α ρ) (body : Body α ρ) : Message α ρ := ⟨s.posted.length, body⟩

/-- The operation when the post begins. -/
def begin (s : Operation α ρ) (body : Body α ρ) : Operation α ρ :=
  { s with posted := s.posted ++ [s.incoming body], awaiting := some s.posted.length }

theorem begin_resultPosted (s : Operation α ρ) (body : Body α ρ) :
    (s.begin body).resultPosted = (s.resultPosted || body.isFinal) := by
  rw [resultPosted, begin, any_append, any_cons, any_nil, Bool.or_false]
  rfl

section Begin

variable {s : Operation α ρ} {body : Body α ρ}

theorem Follows.begin_numbered (follows : s.Follows) :
    ids (s.begin body).posted = List.range (s.begin body).posted.length := by
  change ids (s.posted ++ [s.incoming body]) = range (s.posted ++ [s.incoming body]).length
  rw [ids_concat, follows.numbered, length_append, length_singleton, range_succ]
  rfl

theorem Follows.begin_suits (follows : s.Follows) (suits : s.kind.suits body = true) :
    ∀ msg ∈ (s.begin body).posted, s.kind.suits msg.body = true :=
  forall_mem_append.mpr ⟨follows.suits, forall_mem_singleton.mpr suits⟩

theorem Ready.begin_lastly (ready : s.Ready) :
    ∀ msg ∈ (s.begin body).posted.dropLast, msg.body.isFinal = false := by
  change ∀ msg ∈ (s.posted ++ [s.incoming body]).dropLast, msg.body.isFinal = false
  rw [dropLast_concat]
  exact fun msg inside => Bool.eq_false_iff.mpr (any_eq_false.mp ready.resultPosted msg inside)

section

variable (follows : s.Follows) (ready : s.Ready)
include follows ready

theorem Follows.begin_acknowledgements :
    s.acknowledged ++ [some s.posted.length] = (ids (s.begin body).posted).map some := by
  have before := follows.acknowledgements
  rw [ready.awaiting, toList_none, map_nil, append_nil] at before
  change _ = (ids (s.posted ++ [s.incoming body])).map some
  rw [ids_concat, map_append, ← before]
  rfl

theorem Follows.begin_held : heldBack s.posted = s.cachedResultRequest := by
  rw [follows.held, ready.inPost, ready.resultPosted]
  rfl

theorem Follows.begin_called :
    s.callbacks ++ (s.incoming body).callback s.cachedResultRequest =
      calls (s.begin body).posted := by
  change _ = calls (s.posted ++ [s.incoming body])
  rw [calls_concat, follows.begin_held ready, follows.called, closing,
    if_neg (fun h => by rw [ready.closed] at h; exact absurd h.1 Bool.false_ne_true),
    append_nil]

theorem Follows.begin_kept :
    kept (s.begin body).posted =
      s.taken ++ if (s.incoming body).isKept then [s.posted.length] else [] := by
  have before := follows.references
  rw [ready.inPost, toList_none, filter_nil] at before
  change kept (s.posted ++ [s.incoming body]) = _
  rw [kept_concat, ← before]
  exact congrArg (· ++ _) (append_nil _)

theorem Follows.begin_releases : s.taken = s.released ++ ids s.cachedResultRequest.toList := by
  have before := follows.releases
  rw [ready.currentObjectMessage, ready.currentResultMessage, ready.resultPosted] at before
  exact before

end

end Begin

/-! ## Posts keep the invariant -/

section Post

variable {s next : Operation α ρ} {body : Body α ρ}

/-- No message is in the callback. -/
theorem Ready.noPost (ready : s.Ready) {P : Message α ρ → Prop} :
    ∀ msg, s.inPost = some msg → P msg := by
  intro msg inside
  cases ready.inPost.symm.trans inside

theorem Ready.once (ready : s.Ready) {owes : Bool} : ¬(owes = true ∧ s.ackScheduled = true) := by
  rintro ⟨-, scheduled⟩
  cases ready.ackScheduled.symm.trans scheduled

/-- `hold` takes a reference and holds the message back if it has an object in it. -/
theorem hold_eq (msg : Message α ρ) (cached : s.cachedResultRequest = none) :
    s.hold msg = { s with
      taken := s.taken ++ if msg.object.isSome then [msg.id] else []
      cachedResultRequest := if msg.object.isSome then some msg else none } := by
  rw [hold]
  split
  · rfl
  · rw [append_nil, ← cached]

theorem ids_holding (msg : Message α ρ) :
    ids (holding (if msg.object.isSome then some msg else none) false) =
      if msg.object.isSome then [msg.id] else [] := by
  split <;> rfl

theorem Ready.unposted_held (ready : s.Ready) (cached : Option (Message α ρ)) (final : Bool) :
    toDeliver s.inPost cached final = toDeliver none cached final := by
  rw [ready.inPost]

theorem Ready.unposted_references (ready : s.Ready) (taken : List Nat) :
    taken ++ ids (s.inPost.toList.filter Message.isKept) = taken := by
  rw [ready.inPost]
  exact append_nil _

theorem Ready.unposted_releases (ready : s.Ready) (more : List (Message α ρ)) :
    ids (s.currentObjectMessage.toList ++ s.currentResultMessage.toList ++ more) = ids more := by
  rw [ready.currentObjectMessage, ready.currentResultMessage]
  rfl

/-- What a post has to do to keep the invariant, in terms of the state before it. -/
structure TakesIn (s : Operation α ρ) (body : Body α ρ) (next : Operation α ρ) : Prop where
  posted : next.posted = (s.begin body).posted
  kind : next.kind = s.kind
  closed : next.closed = false
  acknowledgements : next.acknowledged ++ next.awaiting.toList.map some =
    s.acknowledged ++ [some s.posted.length]
  underway : next.awaiting.isSome = (next.owesAck || next.ackScheduled)
  once : ¬(next.owesAck = true ∧ next.ackScheduled = true)
  called : next.callbacks = s.callbacks ++ (s.incoming body).callback s.cachedResultRequest
  final : next.callingFinalResult = (s.callingFinalResult || body.isFinal)
  held : toDeliver next.inPost next.cachedResultRequest body.isFinal =
    (s.incoming body).heldAfter s.cachedResultRequest
  references : next.taken ++ ids (next.inPost.toList.filter Message.isKept) =
    s.taken ++ if (s.incoming body).isKept then [s.posted.length] else []
  releases : next.taken = next.released ++ ids (next.currentObjectMessage.toList ++
    next.currentResultMessage.toList ++ holding next.cachedResultRequest body.isFinal)
  idle : next.owesAck = false →
    next.currentObjectMessage = none ∧ next.currentResultMessage = none
  inside : ∀ msg, next.inPost = some msg →
    next.cachedResultRequest = none ∧ body.isFinal = false ∧ next.awaiting.isSome = true ∧
      msg.isKept = msg.object.isSome

theorem TakesIn.resultPosted (takes : TakesIn s body next) (ready : s.Ready) :
    next.resultPosted = body.isFinal := by
  rw [Operation.resultPosted, takes.posted]
  refine (begin_resultPosted s body).trans ?_
  rw [ready.resultPosted]
  exact Bool.false_or _

section

variable (follows : s.Follows) (ready : s.Ready)
include follows ready

theorem Follows.takesIn
    (suits : s.kind.suits body = true) (takes : TakesIn s body next) : next.Follows where
  numbered := by
    rw [takes.posted]
    exact follows.begin_numbered
  suits := by
    rw [takes.posted, takes.kind]
    exact follows.begin_suits suits
  lastly := by
    rw [takes.posted]
    exact ready.begin_lastly
  acknowledgements := by
    rw [takes.acknowledgements, takes.posted]
    exact follows.begin_acknowledgements ready
  underway := takes.underway
  once := takes.once
  called := by
    rw [takes.called, follows.begin_called ready, closing, takes.closed, takes.posted,
      if_neg (fun h => Bool.false_ne_true h.1), append_nil]
  final := by
    have before := follows.final
    rw [ready.resultPosted, ready.closed] at before
    rw [takes.final, before, takes.resultPosted ready, takes.closed]
    exact Bool.or_comm _ _
  held := by
    rw [takes.resultPosted ready, takes.held, takes.posted, ← follows.begin_held ready]
    exact heldBack_concat _ _
  references := by
    rw [takes.references, takes.posted]
    exact (follows.begin_kept ready).symm
  releases := by
    rw [takes.resultPosted ready]
    exact takes.releases
  idle := takes.idle
  inside := by
    rw [takes.resultPosted ready]
    exact takes.inside

section

variable (isSchema : Bool) (item : body.isItem = true)
include isSchema item

/-- A post while a message is held back gives that one to the client. -/
theorem takesIn_cached {earlier : Message α ρ} (cached : s.cachedResultRequest = some earlier) :
    TakesIn s body ((s.begin body).postItem isSchema (s.incoming body)) := by
  have releases := follows.begin_releases ready
  have item' : (s.incoming body).body.isItem = true := item
  rw [postItem, show (s.begin body).cachedResultRequest = some earlier from cached]
  refine ⟨rfl, rfl, ready.closed, rfl, rfl, ready.once, ?_, ?_, ?_, ?_, ?_, nofun, ?_⟩
  · rw [callback_item item', cached]
    rfl
  · rw [isFinal_item item, Bool.or_false]
    rfl
  · rw [heldAfter_item item']
    rfl
  · change s.taken ++ ids ([s.incoming body].filter Message.isKept) = _
    rw [filter_singleton]
    cases (s.incoming body).isKept <;> rfl
  · change s.taken = s.released ++ ids ([earlier] ++ s.currentResultMessage.toList ++
      holding none body.isFinal)
    rw [ready.currentResultMessage, isFinal_item item, releases, cached]
    rfl
  · rintro _ ⟨⟩
    exact ⟨rfl, isFinal_item item, rfl, isKept_item item'⟩

/-- A post while nothing is held back is held back itself, if there is something in it. -/
theorem takesIn_uncached (cached : s.cachedResultRequest = none) :
    TakesIn s body ((s.begin body).postItem isSchema (s.incoming body)) := by
  have releases := follows.begin_releases ready
  have item' : (s.incoming body).body.isItem = true := item
  rw [cached] at releases
  have begun : (s.begin body).cachedResultRequest = none := cached
  rw [postItem, begun]
  dsimp only
  rw [hold_eq _ begun]
  refine ⟨rfl, rfl, ready.closed, rfl, (Bool.or_true _).symm,
    fun h => Bool.false_ne_true (ready.owesAck.symm.trans h.1), ?_, ?_, ?_, ?_, ?_,
    fun _ => ⟨ready.currentObjectMessage, ready.currentResultMessage⟩, ready.noPost⟩
  · rw [callback_item item', cached]
    exact (append_nil _).symm
  · rw [isFinal_item item, Bool.or_false]
    rfl
  · rw [heldAfter_item item', isFinal_item item]
    exact ready.unposted_held _ _
  · rw [isKept_item item']
    exact ready.unposted_references _
  · refine Eq.trans ?_ (congrArg (s.released ++ ·) (ready.unposted_releases _).symm)
    rw [isFinal_item item, ids_holding, ← append_nil s.released]
    exact congrArg (· ++ _) releases

theorem takesIn_item : TakesIn s body ((s.begin body).postItem isSchema (s.incoming body)) := by
  cases cached : s.cachedResultRequest with
  | none => exact takesIn_uncached follows ready isSchema item cached
  | some earlier => exact takesIn_cached follows ready isSchema item cached

end

/-- An indication goes to the client at once. -/
theorem takesIn_indication (object : Option α) (cached : s.cachedResultRequest = none) :
    TakesIn s (.postIndication object)
      ((s.begin (.postIndication object)).postIndication
        (s.incoming (.postIndication object))) := by
  have releases := follows.begin_releases ready
  rw [cached] at releases
  refine ⟨rfl, rfl, ready.closed, rfl, rfl, ready.once, rfl, (Bool.or_false _).symm,
    ready.unposted_held _ _, ready.unposted_references _, ?_, nofun, ready.noPost⟩
  change s.taken ++ [s.posted.length] = s.released ++ ids ([s.incoming _] ++
    s.currentResultMessage.toList ++ s.cachedResultRequest.toList)
  rw [ready.currentResultMessage, cached, releases]
  exact congrArg (· ++ _) (append_nil _)

end

/-- The handler of an indication leaves `currentObjectMessage` alone. -/
theorem postResult_eq (s : Operation α ρ) (msg : Message α ρ) (r : ρ)
    (indication : s.kind = .indication → s.currentObjectMessage = s.cachedResultRequest) :
    ∃ classResult, s.postResult msg r =
      { s with
        taken := s.taken ++ [msg.id]
        callingFinalResult := true
        currentObjectMessage := s.cachedResultRequest
        currentResultMessage := some msg
        currentClassResult := classResult
        callbacks := s.callbacks ++ [⟨s.cachedResultRequest.bind Message.object, false, .posted r⟩]
        owesAck := true } := by
  obtain ⟨kind, cached, object⟩ := s
  cases kind with
  | indication =>
    obtain rfl : object = cached := indication rfl
    exact ⟨_, rfl⟩
  | schema | object | noOp => exact ⟨_, rfl⟩

section

variable (follows : s.Follows) (ready : s.Ready)
include follows ready

/-- A result goes to the client with what was held back. -/
theorem takesIn_result (r : ρ) (cached : s.kind = .indication → s.cachedResultRequest = none) :
    TakesIn s (.postResult r)
      ((s.begin (.postResult r)).postResult (s.incoming (.postResult r)) r) := by
  have releases := follows.begin_releases ready
  obtain ⟨classResult, next⟩ := postResult_eq (s.begin (.postResult r))
    (s.incoming (.postResult r)) r fun kind =>
      ready.currentObjectMessage.trans (cached kind).symm
  rw [next]
  refine ⟨rfl, rfl, ready.closed, rfl, rfl, ready.once, rfl, (Bool.or_true _).symm,
    ready.unposted_held _ _, ready.unposted_references _, ?_, nofun, ready.noPost⟩
  change s.taken ++ [s.posted.length] =
    s.released ++ ids (s.cachedResultRequest.toList ++ [s.incoming _] ++ [])
  rw [append_nil, ids_concat, ← append_assoc, ← releases]
  rfl

theorem takesIn_noOp (cached : s.cachedResultRequest = none) :
    TakesIn s .noOpRsp (s.begin .noOpRsp).postNoOp := by
  have releases := follows.begin_releases ready
  rw [cached] at releases
  refine ⟨rfl, rfl, ready.closed, rfl, rfl, ready.once, rfl, (Bool.or_true _).symm,
    ready.unposted_held _ _, ?_, ?_, nofun, ready.noPost⟩
  · exact (ready.unposted_references _).trans (append_nil _).symm
  · exact releases.trans (congrArg (s.released ++ ·) (ready.unposted_releases []).symm)

/-- A message of another kind is acknowledged and dropped. -/
theorem takesIn_other : TakesIn s .other (s.begin .other).strandAck := by
  have releases := follows.begin_releases ready
  refine ⟨rfl, rfl, ready.closed, append_nil _, ?_, ?_, (append_nil _).symm,
    (Bool.or_false _).symm, ready.unposted_held _ _, ?_, ?_,
    fun _ => ⟨ready.currentObjectMessage, ready.currentResultMessage⟩, ready.noPost⟩
  · change false = (s.owesAck || s.ackScheduled)
    rw [ready.owesAck, ready.ackScheduled]
    rfl
  · exact fun h => Bool.false_ne_true (ready.ackScheduled.symm.trans h.2)
  · exact (ready.unposted_references _).trans (append_nil _).symm
  · exact releases.trans (congrArg (s.released ++ ·) (ready.unposted_releases _).symm)

theorem Follows.cached_eq_none
    (unheld : s.kind = .indication ∨ s.kind = .noOp) : s.cachedResultRequest = none :=
  (follows.begin_held ready).symm.trans (heldBack_eq_none unheld s.posted follows.suits)

theorem takesIn_receive (suits : s.kind.suits body = true) : TakesIn s body (s.receive body) := by
  cases body with
  | postInstance object => exact takesIn_item follows ready false rfl
  | postSchema object => exact takesIn_item follows ready true rfl
  | postIndication object =>
    have kind := OperationKind.eq_indication suits
    exact takesIn_indication follows ready object (follows.cached_eq_none ready (.inl kind))
  | postResult r =>
    exact takesIn_result follows ready r fun kind => follows.cached_eq_none ready (.inl kind)
  | noOpRsp =>
    have kind := OperationKind.eq_noOp suits
    exact takesIn_noOp follows ready (follows.cached_eq_none ready (.inr kind))
  | other => exact takesIn_other follows ready

end

end Post

/-! ## The other steps keep it -/

section Step

variable {s next : Operation α ρ}

theorem hold_posted (msg : Message α ρ) : (s.hold msg).posted = s.posted := by
  rw [hold]
  split <;> rfl

theorem close_posted : s.close.posted = s.posted := by
  rw [close]
  split <;> rfl

theorem unposted (same : next.posted = s.posted) :
    next.posted.map Message.body = s.posted.map Message.body ++ [] := by
  rw [same, append_nil]

section

variable (follows : s.Follows)
include follows

theorem Follows.callbackReturns
    (inPost : s.inPost = some msg) : { s.hold msg with inPost := none }.Follows := by
  obtain ⟨cached, unfinished, awaiting, isKept⟩ := follows.inside msg inPost
  have held := follows.held
  have references := follows.references
  have releases := follows.releases
  rw [inPost] at held references
  rw [toList_some, filter_singleton, isKept] at references
  rw [cached, unfinished] at releases
  rw [hold_eq msg cached]
  refine { follows with held := ?_, references := ?_, releases := ?_, inside := nofun }
  · change heldBack s.posted = toDeliver none _ s.resultPosted
    rw [held, unfinished]
    rfl
  · rw [← references]
    cases msg.object.isSome <;> exact append_nil _
  · change s.taken ++ _ = s.released ++ ids (_ ++ holding _ s.resultPosted)
    rw [unfinished, releases, ← ids_holding msg, append_assoc]
    refine congrArg (s.released ++ ·) (Eq.trans ?_ map_append.symm)
    exact congrArg (ids · ++ _) (append_nil _)

theorem Follows.clientAck (owesAck : s.owesAck = true) : s.clientAck.Follows := by
  have underway := follows.underway
  rw [owesAck, Bool.true_or] at underway
  refine { follows with
    underway := underway, once := fun h => Bool.false_ne_true h.1, releases := ?_,
    idle := fun _ => ⟨rfl, rfl⟩ }
  have releases := follows.releases
  rw [ids, map_append] at releases
  exact releases.trans (append_assoc _ _ _).symm

theorem Follows.sendAck (ackScheduled : s.ackScheduled = true)
    (inPost : s.inPost = none) : { s.strandAck with ackScheduled := false }.Follows := by
  have underway := follows.underway
  rw [ackScheduled, Bool.or_true] at underway
  obtain ⟨id, awaiting⟩ := isSome_iff_exists.mp underway
  have idle : s.owesAck = false :=
    Bool.eq_false_iff.mpr fun owes => follows.once ⟨owes, ackScheduled⟩
  refine { follows with
    acknowledgements := ?_, underway := ?_, once := fun h => Bool.false_ne_true h.2,
    inside := fun msg inside => absurd (inPost.symm.trans inside) nofun }
  · have before := follows.acknowledgements
    rw [awaiting] at before
    change s.acknowledged ++ [s.awaiting] ++ [] = _
    rw [awaiting, append_nil]
    exact before
  · change false = (s.owesAck || false)
    rw [idle]
    rfl

theorem Follows.close (closed : s.closed = false) : s.close.Follows := by
  have called := follows.called
  have final := follows.final
  rw [closing, closed, if_neg (fun h => Bool.false_ne_true h.1), append_nil] at called
  rw [closed, Bool.or_false] at final
  cases result : s.resultPosted with
  | true =>
    rw [Operation.close, if_pos (final.trans result)]
    refine { follows with called := ?_, final := ?_ }
    · change s.callbacks = _
      rw [called, closing]
      refine ((append_nil _).symm.trans ?_)
      refine congrArg (calls s.posted ++ ·) (if_neg fun h => ?_).symm
      exact Bool.false_ne_true (h.2.symm.trans result)
    · change s.callingFinalResult = (s.resultPosted || true)
      rw [final, result]
      rfl
  | false =>
    rw [Operation.close, if_neg (by rw [final, result]; exact nofun)]
    refine { follows with called := ?_, final := ?_ }
    · change s.callbacks ++ [⟨none, false, .failed⟩] = _
      rw [called]
      exact congrArg (calls s.posted ++ ·) (if_pos ⟨rfl, result⟩).symm
    · exact (Bool.or_true _).symm

/-- A step keeps the invariant, and nothing but a post changes what was posted. -/
theorem Follows.step {event : Event α ρ} (step : s.step event = some next) :
    next.Follows ∧ next.posted.map Message.body = s.posted.map Message.body ++
      event.body?.toList := by
  cases event with
  | post body =>
    obtain ⟨⟨closed, awaiting, inPost, unfinished, suits⟩, ⟨⟩⟩ :=
      ite_none_right_eq_some.mp step
    have ready := follows.ready closed awaiting inPost unfinished
    have takes := takesIn_receive follows ready suits
    exact ⟨follows.takesIn ready suits takes,
      (congrArg (map Message.body) takes.posted).trans map_append⟩
  | callbackReturns =>
    obtain ⟨msg, inPost, rfl⟩ := map_eq_some_iff.mp step
    exact ⟨follows.callbackReturns inPost, unposted (hold_posted msg)⟩
  | clientAck =>
    obtain ⟨owesAck, ⟨⟩⟩ := ite_none_right_eq_some.mp step
    exact ⟨follows.clientAck owesAck, unposted rfl⟩
  | sendAck =>
    obtain ⟨⟨ackScheduled, inPost⟩, ⟨⟩⟩ := ite_none_right_eq_some.mp step
    exact ⟨follows.sendAck ackScheduled inPost, unposted rfl⟩
  | close =>
    obtain ⟨⟨closed, inPost⟩, ⟨⟩⟩ := ite_none_right_eq_some.mp step
    exact ⟨follows.close closed, unposted close_posted⟩

end

end Step

end Operation

end Omi.Client
