import Omi.Client.Results

/-!
# What the client has received in the end

Once the protocol has closed and nothing is under way, every object was delivered, the last
callback ended the results, every message was acknowledged and every reference released,
unless an instance or a schema was held back when the protocol closed without a final result.
-/

namespace Omi.Client

open List Option

variable {α ρ : Type}

/-! ## Callbacks as a function of what was posted -/

variable {msgs : List (Message α ρ)}

/-- A message that is held back has an object in it. -/
theorem heldBack_object {msg : Message α ρ} (held : heldBack msgs = some msg) :
    msg.object.isSome = true := by
  induction msgs using reverseRecOn with
  | nil => cases held
  | append_singleton msgs last ih =>
    rw [heldBack_concat] at held
    obtain ⟨id, body⟩ := last
    cases body with
    | postInstance object | postSchema object =>
      obtain ⟨object, ⟨⟩⟩ := ite_none_right_eq_some.mp held
      exact object
    | postIndication object | other => exact ih held
    | postResult r | noOpRsp => cases held

/-- An item leads to a callback with what was held back, and is held back itself. -/
theorem objects_item {msg : Message α ρ} (item : msg.body.isItem = true)
    (before : Option (Message α ρ)) :
    (msg.callback before).filterMap Callback.object ++ objects (msg.heldAfter before).toList =
      objects before.toList ++ msg.object.toList := by
  have held : objects (msg.heldAfter before).toList = msg.object.toList := by
    rw [heldAfter_item item]
    cases object : msg.object with
    | none => rfl
    | some x => exact filterMap_cons_some object
  rw [held, callback_item item, filterMap_map]
  rfl

/-- The objects of the callbacks and the one that is held back are those that were posted. -/
theorem objects_calls {kind : OperationKind} (suits : ∀ msg ∈ msgs, kind.suits msg.body = true) :
    (calls msgs).filterMap Callback.object ++ objects (heldBack msgs).toList = objects msgs := by
  induction msgs using reverseRecOn with
  | nil => rfl
  | append_singleton msgs msg ih =>
    have earlier : ∀ msg ∈ msgs, kind.suits msg.body = true :=
      fun earlier inside => suits earlier (mem_append_left _ inside)
    have suit := suits msg (mem_append_right _ mem_cons_self)
    have step : (msg.callback (heldBack msgs)).filterMap Callback.object ++
        objects (msg.heldAfter (heldBack msgs)).toList =
          objects (heldBack msgs).toList ++ msg.object.toList := by
      obtain ⟨id, body⟩ := msg
      cases body with
      | postInstance object | postSchema object => exact objects_item rfl _
      | postIndication object =>
        rw [heldBack_eq_none (.inl (OperationKind.eq_indication suit)) msgs earlier]
        exact append_nil _
      | postResult r =>
        cases heldBack msgs with
        | none | some held => rfl
      | noOpRsp =>
        rw [heldBack_eq_none (.inr (OperationKind.eq_noOp suit)) msgs earlier]
        rfl
      | other => exact (append_nil _).symm
    rw [calls_concat, heldBack_concat, objects_concat, filterMap_append, append_assoc,
      step, ← append_assoc, ih earlier]

/-- The outcome that the last callback has to have. -/
def verdict (msgs : List (Message α ρ)) : Outcome ρ :=
  match (msgs.find? fun msg => msg.body.isFinal).map Message.body with
  | some (.postResult r) => .posted r
  | some _ => .ok
  | none => .failed

/-- Callbacks that end with the only one that says there is no more. -/
def Ends (callbacks : List (Callback α ρ)) (outcome : Outcome ρ) : Prop :=
  ∃ earlier last, callbacks = earlier ++ [last] ∧
    (∀ callback ∈ earlier, callback.moreResults = true) ∧
      last.moreResults = false ∧ last.outcome = outcome

/-- Before a final result there is always more. -/
theorem calls_moreResults (unfinished : ∀ msg ∈ msgs, msg.body.isFinal = false) :
    ∀ callback ∈ calls msgs, callback.moreResults = true := by
  induction msgs using reverseRecOn with
  | nil => exact nofun
  | append_singleton msgs msg ih =>
    have before := ih fun earlier inside => unfinished earlier (mem_append_left _ inside)
    have last := unfinished msg (mem_append_right _ mem_cons_self)
    rw [calls_concat]
    intro callback inside
    obtain old | new := mem_append.mp inside
    · exact before callback old
    obtain ⟨id, body⟩ := msg
    cases body with
    | postInstance object | postSchema object =>
      obtain ⟨held, -, rfl⟩ := mem_map.mp new
      rfl
    | postIndication object => rw [mem_singleton.mp new]
    | postResult r | noOpRsp => cases last
    | other => cases new

/-- Without a final result it is the close that ends the callbacks. -/
theorem ends_of_unfinished (unfinished : msgs.any (fun msg => msg.body.isFinal) = false) :
    Ends (calls msgs ++ [⟨none, false, .failed⟩]) (verdict msgs) := by
  have each : ∀ msg ∈ msgs, msg.body.isFinal = false :=
    fun msg inside => Bool.eq_false_iff.mpr (any_eq_false.mp unfinished msg inside)
  refine ⟨calls msgs, _, rfl, calls_moreResults each, rfl, ?_⟩
  rw [verdict, find?_eq_none.mpr (any_eq_false.mp unfinished)]
  rfl

section

variable (lastly : ∀ msg ∈ msgs.dropLast, msg.body.isFinal = false)
  (finished : msgs.any (fun msg => msg.body.isFinal) = true)
include lastly finished

/-- A final result is the last message. -/
theorem exists_final :
    ∃ earlier msg, msgs = earlier ++ [msg] ∧ msg.body.isFinal = true ∧
      ∀ msg ∈ earlier, msg.body.isFinal = false := by
  obtain rfl | ⟨earlier, msg, split⟩ := eq_nil_or_concat msgs
  · cases finished
  rw [concat_eq_append] at split
  rw [split, dropLast_concat] at lastly
  obtain ⟨last, inside, final⟩ := any_eq_true.mp finished
  rw [split] at inside
  refine ⟨earlier, msg, split, ?_, lastly⟩
  obtain old | new := mem_append.mp inside
  · cases final.symm.trans (lastly last old)
  · rwa [mem_singleton.mp new] at final

/-- The callback of a final result is the last one. -/
theorem ends_of_final : Ends (calls msgs) (verdict msgs) := by
  obtain ⟨earlier, msg, rfl, final, unfinished⟩ := exists_final lastly finished
  have before : earlier.find? (fun msg => msg.body.isFinal) = none :=
    find?_eq_none.mpr fun msg inside => Bool.eq_false_iff.mp (unfinished msg inside)
  rw [calls_concat, verdict, find?_append, before, none_or,
    find?_cons_of_pos (p := fun msg : Message α ρ => msg.body.isFinal) final]
  obtain ⟨id, body⟩ := msg
  cases body with
  | postInstance object | postSchema object | postIndication object => cases final
  | postResult r | noOpRsp => exact ⟨_, _, rfl, calls_moreResults unfinished, rfl, rfl⟩
  | other => cases final

end

/-! ## What was posted in a run -/

/-- The messages that the events post. -/
def bodies (events : List (Event α ρ)) : List (Body α ρ) := events.filterMap Event.body?

/-- A final result was posted, or the last instance or schema had nothing in it. -/
def EndsFree (bodies : List (Body α ρ)) : Prop :=
  bodies.any Body.isFinal = true ∨
    ∀ body ∈ (bodies.filter Body.isItem).getLast?, (Message.mk 0 body).object = none

instance (bodies : List (Body α ρ)) : Decidable (EndsFree bodies) :=
  inferInstanceAs (Decidable (_ ∨ _))

namespace Operation

variable {s next : Operation α ρ}

theorem Follows.run_posted (follows : s.Follows) {events : List (Event α ρ)}
    (ends : Run.run Operation.step s events = some next) :
    next.posted.map Message.body = s.posted.map Message.body ++ bodies events := by
  induction events generalizing s with
  | nil =>
    cases ends
    exact (append_nil _).symm
  | cons event events ih =>
    obtain ⟨middle, first, rest⟩ := bind_eq_some_iff.mp ends
    obtain ⟨follows, posted⟩ := follows.step first
    rw [ih follows rest, posted, append_assoc, bodies, bodies]
    cases posts : event.body? with
    | none => rw [filterMap_cons_none posts]; rfl
    | some body => rw [filterMap_cons_some posts]; rfl

theorem Follows.run (follows : s.Follows) {events : List (Event α ρ)}
    (ends : Run.run Operation.step s events = some next) : next.Follows :=
  Run.invariant_of_steps (fun _ _ _ follows taken => (follows.step taken).1) follows ends

end Operation

/-- Before a final result the message that is held back is the last instance or schema. -/
theorem heldBack_eq_last (unfinished : ∀ msg ∈ msgs, msg.body.isFinal = false) :
    heldBack msgs =
      ((msgs.filter fun msg => msg.body.isItem).getLast?).filter fun msg => msg.object.isSome := by
  induction msgs using reverseRecOn with
  | nil => rfl
  | append_singleton msgs msg ih =>
    have before := ih fun earlier inside => unfinished earlier (mem_append_left _ inside)
    have last := unfinished msg (mem_append_right _ mem_cons_self)
    rw [heldBack_concat, filter_append, before]
    obtain ⟨id, body⟩ := msg
    cases body with
    | postInstance object | postSchema object =>
      change _ = ((filter _ msgs ++ [_]).getLast?).filter _
      rw [getLast?_concat]
      rfl
    | postIndication object | other =>
      change _ = ((filter _ msgs ++ []).getLast?).filter _
      rw [append_nil]
      rfl
    | postResult r | noOpRsp => cases last

theorem heldBack_of_final (lastly : ∀ msg ∈ msgs.dropLast, msg.body.isFinal = false)
    (finished : msgs.any (fun msg => msg.body.isFinal) = true) : heldBack msgs = none := by
  obtain ⟨earlier, ⟨id, body⟩, rfl, final, -⟩ := exists_final lastly finished
  rw [heldBack_concat]
  cases body <;> first | rfl | cases final

theorem heldBack_eq_none_iff (lastly : ∀ msg ∈ msgs.dropLast, msg.body.isFinal = false) :
    heldBack msgs = none ↔ EndsFree (msgs.map Message.body) := by
  have any_map : (msgs.map Message.body).any Body.isFinal =
      msgs.any fun msg => msg.body.isFinal := List.any_map
  cases finished : msgs.any (fun msg => msg.body.isFinal) with
  | true =>
    exact iff_of_true (heldBack_of_final lastly finished) (.inl (any_map.trans finished))
  | false =>
    have each : ∀ msg ∈ msgs, msg.body.isFinal = false :=
      fun msg inside => Bool.eq_false_iff.mpr (List.any_eq_false.mp finished msg inside)
    rw [heldBack_eq_last each, Option.filter_eq_none_iff, EndsFree, any_map, finished,
      List.filter_map, List.getLast?_map]
    change _ ↔ false = true ∨ ∀ body ∈ Option.map Message.body
      (msgs.filter fun msg => msg.body.isItem).getLast?, _
    cases (msgs.filter fun msg => msg.body.isItem).getLast? with
    | none => exact iff_of_true nofun (.inr nofun)
    | some msg =>
      simp [Message.object]

/-! ## Delivery -/

namespace Operation

/-- The protocol has closed, and nothing is under way. -/
structure Settled (s : Operation α ρ) : Prop where
  closed : s.closed = true
  inPost : s.inPost = none
  owesAck : s.owesAck = false
  ackScheduled : s.ackScheduled = false

/-- The client has received every object once and in order, and then one final result; each
message was acknowledged once, and each reference that was taken was released once. -/
structure Delivered (s : Operation α ρ) : Prop where
  objects : s.callbacks.filterMap Callback.object = objects s.posted
  ends : Ends s.callbacks (verdict s.posted)
  acknowledged : s.acknowledged = (ids s.posted).map some
  distinct : (ids s.posted).Nodup
  taken : s.taken = kept s.posted
  released : s.released = s.taken

variable {s : Operation α ρ}

theorem closing_object : s.closing.filterMap Callback.object = [] := by
  rw [closing]
  split <;> rfl

section

variable (follows : s.Follows)
include follows

theorem Follows.objects :
    s.callbacks.filterMap Callback.object ++ Client.objects (heldBack s.posted).toList =
      Client.objects s.posted := by
  rw [follows.called, filterMap_append, closing_object, append_nil]
  exact objects_calls follows.suits

theorem Follows.ends (closed : s.closed = true) : Ends s.callbacks (verdict s.posted) := by
  rw [follows.called, closing, closed]
  cases result : s.resultPosted with
  | true =>
    rw [if_neg (fun h => Bool.false_ne_true h.2.symm), append_nil]
    exact ends_of_final follows.lastly result
  | false =>
    rw [if_pos ⟨rfl, rfl⟩]
    exact ends_of_unfinished result

theorem Follows.distinct : (ids s.posted).Nodup := by
  rw [follows.numbered]
  exact nodup_range

theorem Follows.acknowledged (settled : s.Settled) : s.acknowledged = (ids s.posted).map some := by
  have underway := follows.underway
  rw [settled.owesAck, settled.ackScheduled, Bool.or_false, isSome_eq_false_iff,
    isNone_iff_eq_none] at underway
  have acknowledgements := follows.acknowledgements
  rw [underway] at acknowledgements
  exact (append_nil _).symm.trans acknowledgements

theorem Follows.taken (inPost : s.inPost = none) : s.taken = kept s.posted := by
  have references := follows.references
  rw [inPost] at references
  exact (append_nil _).symm.trans references

theorem Follows.released (settled : s.Settled)
    (free : heldBack s.posted = none) : s.released = s.taken := by
  have held := follows.held
  have releases := follows.releases
  obtain ⟨object, result⟩ := follows.idle settled.owesAck
  rw [free, settled.inPost, toDeliver] at held
  rw [object, result, holding] at releases
  cases finished : s.resultPosted with
  | true =>
    rw [finished] at releases
    exact ((append_nil _).symm.trans releases.symm)
  | false =>
    rw [finished] at held releases
    rw [show s.cachedResultRequest = none from held.symm] at releases
    exact ((append_nil _).symm.trans releases.symm)

/-- What was held back when the protocol closed is what gets lost. -/
theorem Follows.delivered_iff (settled : s.Settled) : s.Delivered ↔ heldBack s.posted = none := by
  constructor
  · intro delivered
    have all := follows.objects
    rw [delivered.objects] at all
    have none_left := append_right_eq_self.mp all
    cases held : heldBack s.posted with
    | none => rfl
    | some msg =>
      obtain ⟨object, has⟩ := isSome_iff_exists.mp (heldBack_object held)
      rw [held] at none_left
      cases none_left.symm.trans (filterMap_cons_some has)
  · intro free
    have all := follows.objects
    rw [free] at all
    exact ⟨(append_nil _).symm.trans all, follows.ends settled.closed,
      follows.acknowledged settled, follows.distinct, follows.taken settled.inPost,
      follows.released settled free⟩

end

end Operation

/-- At the end of a run the results were delivered, unless the protocol closed without a final
result while an instance or a schema was held back. -/
theorem delivered_iff_endsFree {kind : OperationKind} {events : List (Event α ρ)}
    {s : Operation α ρ} (ends : Run.run Operation.step (.new kind) events = some s)
    (settled : s.Settled) : s.Delivered ↔ EndsFree (bodies events) := by
  have start : (Operation.new kind : Operation α ρ).Follows := Operation.follows_new kind
  have follows := start.run ends
  have posted := start.run_posted ends
  change _ = [] ++ bodies events at posted
  rw [follows.delivered_iff settled, heldBack_eq_none_iff follows.lastly, posted,
    nil_append]

/-- Two instances and a result, the first callback acknowledged before it returns. -/
def twoInstances : List (Event Nat Nat) :=
  [.post (.postInstance (some 7)), .sendAck, .post (.postInstance (some 8)), .clientAck,
    .callbackReturns, .sendAck, .post (.postResult 0), .close, .clientAck, .sendAck]

theorem twoInstances_delivered :
    ∃ s, Run.run Operation.step (.new .object) twoInstances = some s ∧ s.Settled ∧
      s.Delivered := by
  refine ⟨_, rfl, ⟨rfl, rfl, rfl, rfl⟩, ?_⟩
  exact (@delivered_iff_endsFree Nat Nat .object twoInstances _ rfl ⟨rfl, rfl, rfl, rfl⟩).mpr
    (by decide)

/-- The connection closes behind the only instance: the client is told of a failure and never
gets the instance, whose message is not released either. -/
theorem close_loses_instance : ∃ s : Operation Nat Nat,
    Run.run Operation.step (.new .object) [.post (.postInstance (some 7)), .sendAck, .close] =
      some s ∧ s.Settled ∧ s.callbacks = [⟨none, false, .failed⟩] ∧ s.taken = [0] ∧
        s.released = [] ∧ ¬s.Delivered :=
  ⟨_, rfl, ⟨rfl, rfl, rfl, rfl⟩, rfl, rfl, rfl, fun delivered =>
    absurd delivered.objects (cons_ne_nil _ _).symm⟩

/-! ## Runs come to an end -/

namespace Operation

/-- Without another message the operation can come to rest. -/
def CanSettle (s : Operation α ρ) : Prop :=
  ∃ events t, Run.run step s events = some t ∧ t.Settled ∧ bodies events = []

variable {s next : Operation α ρ}

theorem CanSettle.of_step (event : Event α ρ) (taken : s.step event = some next)
    (silent : event.body? = none) (rest : next.CanSettle) : s.CanSettle := by
  obtain ⟨events, t, ends, settled, posts⟩ := rest
  exact ⟨event :: events, t, (Run.run_cons_of_step taken events).trans ends, settled,
    (filterMap_cons_none silent).trans posts⟩

section

variable (closed : s.closed = true) (inPost : s.inPost = none)
include closed inPost

theorem canSettle_of_acked (owes : s.owesAck = false) : s.CanSettle := by
  cases scheduled : s.ackScheduled with
  | true =>
    exact .of_step .sendAck (if_pos ⟨scheduled, inPost⟩) rfl
      ⟨[], _, rfl, ⟨closed, inPost, owes, rfl⟩, rfl⟩
  | false => exact ⟨[], s, rfl, ⟨closed, inPost, owes, scheduled⟩, rfl⟩

theorem canSettle_of_closed : s.CanSettle := by
  cases owes : s.owesAck with
  | true =>
    exact .of_step .clientAck (if_pos owes) rfl
      (canSettle_of_acked closed inPost rfl)
  | false => exact canSettle_of_acked closed inPost owes

end

theorem canSettle_of_returned (inPost : s.inPost = none) : s.CanSettle := by
  cases closed : s.closed with
  | true => exact canSettle_of_closed closed inPost
  | false =>
    refine .of_step .close (if_pos ⟨closed, inPost⟩) rfl ?_
    rw [close]
    split <;> exact canSettle_of_closed rfl inPost

/-- The callback's return, the close and the acknowledgements are all that can be missing. -/
theorem canSettle (s : Operation α ρ) : s.CanSettle := by
  cases inPost : s.inPost with
  | none => exact canSettle_of_returned inPost
  | some msg =>
    have returned : s.step .callbackReturns = some { s.hold msg with inPost := none } := by
      rw [step, inPost]
      rfl
    exact .of_step _ returned rfl (canSettle_of_returned rfl)

/-- An operation at rest has ended its callbacks once and acknowledged each message once, and
from every state of a run it can come to rest. -/
theorem comes_to_rest {kind : OperationKind} {events : List (Event α ρ)}
    (reached : Run.run step (.new kind) events = some s) :
    (s.Settled → Ends s.callbacks (verdict s.posted) ∧
        s.acknowledged = (ids s.posted).map some) ∧ s.CanSettle := by
  have follows := (follows_new kind).run reached
  refine ⟨?_, s.canSettle⟩
  intro settled
  exact ⟨follows.ends settled.closed, follows.acknowledged settled⟩

theorem twoInstances_at_rest : ∃ s, Run.run step (.new .object) twoInstances = some s ∧
    Ends s.callbacks (verdict s.posted) :=
  ⟨_, rfl, ((@comes_to_rest _ _ _ .object twoInstances rfl).1 ⟨rfl, rfl, rfl, rfl⟩).1⟩

end Operation

end Omi.Client
