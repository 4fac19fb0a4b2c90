import Omi.Wsman.Contexts

/-!
# Contexts of other users

A user should not reach the contexts of another user through a guessed or
observed id. The lookup does not know who created a context, so this holds
exactly for the histories in which no request carries the id of a context that
another user created and that is still in the table.
-/

namespace Omi.Wsman

open List Option EnumerateContext
open Omi.Protocol (AuthInfo resultOk)

universe u

variable {α : Type u}

/-! ## The property and the condition -/

/-- The contexts that users other than `v` created are unchanged, and so are their slots. -/
def Server.Untouched (self next : Server α) (v : AuthInfo) : Prop :=
  ∀ (object : Nat) (x : Context α), self.objects[object]? = some x → x.owner ≠ v →
    next.objects[object]? = some x ∧
      ∀ i, self.enumerateContexts i = some object →
        next.enumerateContexts i = some object ∧
          next.enumerateContextDeleted i = self.enumerateContextDeleted i

/-- Every instance goes to a connection of the user who created the context. -/
def Server.KeepsItems (self : Server α) (object : Nat) (replies : List (Reply α)) : Prop :=
  ∀ x c items endOfSequence, self.objects[object]? = some x →
    Reply.fromContext ⟨c, .items items endOfSequence⟩ ∈ replies → c.authInfo = x.owner

/-- A request does not touch the contexts of other users, and a context sends its instances
only to its creator. -/
def Server.Isolated (self : Server α) (e : ServerEvent α) : Prop :=
  ∀ next replies, self.handle e = some (next, replies) →
    match e with
    | .create .. => True
    | .pull c _ => self.Untouched next c.authInfo
    | .release c _ => self.Untouched next c.authInfo
    | .unsubscribe c _ => self.Untouched next c.authInfo
    | .method object _ => self.KeepsItems object replies

/-- The id of the request leads to no context of another user, except that a `Pull` may name
one to which some other request is just being attached. -/
def Server.NamesOwn (self : Server α) : ServerEvent α → Prop
  | .pull c id =>
    ∀ i object x, self.getEnumContextIndex id false = some (i, object) →
      self.objects[object]? = some x →
        x.owner = c.authInfo ∨ x.ec.attachingConnection ≠ none
  | .release c id =>
    ∀ i object x, self.getEnumContextIndex id false = some (i, object) →
      self.objects[object]? = some x → x.owner = c.authInfo
  | .unsubscribe c id =>
    ∀ i object x, self.getEnumContextIndex id false = some (i, object) →
      self.objects[object]? = some x → x.owner = c.authInfo
  | _ => True

/-! ## Requests -/

variable {self next : Server α} {object : Nat} {x : Context α} {f : Context α → Context α}
  {i : Fin maxEnumContexts} {id : UInt32}

theorem Server.getEnumContextIndex_some {isRelease : Bool}
    (found : self.getEnumContextIndex id isRelease = some (i, object)) :
    self.enumerateContexts i = some object ∧
      (isRelease = true ∨ self.enumerateContextDeleted i = false) ∧
      ∃ x, self.objects[object]? = some x := by
  simp only [getEnumContextIndex] at found
  split at found
  · split at found
    · cases found
    rename_i object' slot
    split at found
    · rename_i fits
      cases found
      refine ⟨slot, ?_, ?_⟩
      · simpa using fits.1
      · obtain ⟨x, present, _⟩ := map_eq_some_iff.mp fits.2
        exact ⟨x, present⟩
    · cases found
  · cases found

theorem Server.update_objects (object k : Nat) :
    (self.update object f).objects[k]? =
      if object = k then self.objects[k]?.map f else self.objects[k]? := by
  simp only [update, getElem?_modify]
  cases self.objects[k]? <;> split <;> rfl

variable {v : AuthInfo}

/-- A change of one object is harmless for the users who did not create it. -/
theorem Server.untouched_update (present : self.objects[object]? = some x)
    (own : x.owner = v ∨ f x = x) : self.Untouched (self.update object f) v := by
  intro k y stored foreign
  refine ⟨?_, fun i slot => ⟨slot, rfl⟩⟩
  rw [update_objects]
  split
  · rename_i same
    subst same
    cases present.symm.trans stored
    have same : f x = x := own.resolve_left foreign
    rw [stored, map_some, same]
  · exact stored

/-- Marking a slot as deleted and changing its object is harmless for the users who did not
create it. -/
theorem Server.untouched_delete (slot : self.enumerateContexts i = some object)
    (present : self.objects[object]? = some x) (own : x.owner = v) :
    self.Untouched (Server.update { self with
      enumerateContextDeleted := Function.update self.enumerateContextDeleted i true } object f)
      v := by
  intro k y stored foreign
  have other : object ≠ k := by
    rintro rfl
    cases present.symm.trans stored
    exact foreign own
  refine ⟨?_, fun j held => ⟨held, ?_⟩⟩
  · rw [update_objects, if_neg other]
    exact stored
  · have apart : j ≠ i := by
      rintro rfl
      exact other (Option.some.inj (slot.symm.trans held))
    exact Function.update_of_ne apart _ _

/-- A slot of another user that was marked as deleted has been touched. -/
theorem Server.own_of_untouched_delete
    (slot : self.enumerateContexts i = some object) (live : self.enumerateContextDeleted i = false)
    (present : self.objects[object]? = some x)
    (untouched : self.Untouched (Server.update { self with
      enumerateContextDeleted := Function.update self.enumerateContextDeleted i true } object f)
      v) : x.owner = v := by
  by_contra foreign
  have flag := ((untouched object x present foreign).2 i slot).2
  have marked : Function.update self.enumerateContextDeleted i true i = true :=
    Function.update_self _ _ _
  cases live.symm.trans (flag.symm.trans marked)

variable {c : ConnectionData}

theorem Server.processPull_untouched_iff (self : Server α) :
    self.Untouched (self.processPull c id).1 c.authInfo ↔ self.NamesOwn (.pull c id) := by
  cases found : self.getEnumContextIndex id false with
  | none =>
    simp only [processPull, found, NamesOwn, reduceCtorEq, false_implies, implies_true, iff_true]
    intro k y stored _
    exact ⟨stored, fun i slot => ⟨slot, rfl⟩⟩
  | some place =>
    obtain ⟨i, object⟩ := place
    obtain ⟨slot, live, x, present⟩ := getEnumContextIndex_some found
    simp only [processPull, found, present]
    constructor
    · intro untouched i' object' x' found' present'
      cases found.symm.trans found'
      cases present.symm.trans present'
      by_contra own
      obtain ⟨foreign, idle⟩ := not_or.mp own
      have idle : x.ec.attachingConnection = none := not_not.mp idle
      have kept := (untouched object x present foreign).1
      rw [update_objects, if_pos rfl, present, map_some] at kept
      have same := congrArg (fun y => y.ec.attachingConnection) (Option.some.inj kept)
      simp [EnumerateContext.attach, idle] at same
    · intro own
      refine untouched_update present ?_
      refine (own i object x found present).imp_right fun busy => ?_
      obtain ⟨other, attaching⟩ := ne_none_iff_exists'.mp busy
      simp only [EnumerateContext.attach, attaching]

/-- A handler that only schedules something on the context it deletes from the table. -/
theorem Server.delete_untouched_iff (self : Server α) (f : Context α → Context α) :
    self.Untouched (match self.findAndDeleteEnumContext id with
      | none => self
      | some (next, object) => next.update object f) v ↔
      ∀ i object x, self.getEnumContextIndex id false = some (i, object) →
        self.objects[object]? = some x → x.owner = v := by
  cases found : self.getEnumContextIndex id false with
  | none =>
    simp only [findAndDeleteEnumContext, found, map_none, reduceCtorEq, false_implies,
      implies_true, iff_true]
    exact fun k y stored _ => ⟨stored, fun i slot => ⟨slot, rfl⟩⟩
  | some place =>
    obtain ⟨i, object⟩ := place
    obtain ⟨slot, live, x, present⟩ := getEnumContextIndex_some found
    have live := live.resolve_left Bool.false_ne_true
    simp only [findAndDeleteEnumContext, found, map_some]
    constructor
    · intro untouched i' object' x' found' present'
      cases found'
      cases present.symm.trans present'
      exact own_of_untouched_delete slot live present untouched
    · intro own
      exact untouched_delete slot present (own i object x rfl present)

theorem Server.processRelease_untouched_iff (self : Server α) :
    self.Untouched (self.processRelease c id).1 c.authInfo ↔ self.NamesOwn (.release c id) := by
  refine Iff.trans ?_ (self.delete_untouched_iff
    fun x => { x with cancelScheduled := true })
  rw [processRelease]
  cases self.findAndDeleteEnumContext id <;> rfl

theorem Server.processUnsubscribe_untouched_iff (self : Server α) :
    self.Untouched (self.processUnsubscribe c id).1 c.authInfo ↔
      self.NamesOwn (.unsubscribe c id) := by
  refine Iff.trans ?_ (self.delete_untouched_iff
    fun x => { x with unsubscribeScheduled := true })
  rw [processUnsubscribe]
  cases self.findAndDeleteEnumContext id <;> rfl

/-! ## Methods -/

variable {out : Outcome α}

namespace EnumerateContext

/-- A method answers only the attached request, and it attaches no other one. -/
structure Discreet (ec : EnumerateContext α) (out : Outcome α) : Prop where
  sent : ∀ sent ∈ out.2, ec.activeConnection = some sent.connection
  active : out.1.activeConnection = none ∨ out.1.activeConnection = ec.activeConnection
  attaching : out.1.attachingConnection = ec.attachingConnection

variable {ec : EnumerateContext α}

theorem Settles.discreet (settles : ec.Settles out) : ec.Discreet out := by
  obtain ⟨quiet, active, _⟩ | ⟨c, response, active, sent, detached, _⟩ := settles.cases
  · refine ⟨?_, .inr active, settles.attaching_eq⟩
    rw [quiet]
    exact nofun
  · refine ⟨?_, .inl detached, settles.attaching_eq⟩
    rw [sent]
    exact forall_mem_singleton.mpr active

/-- Closing both sides answers nothing. -/
theorem close_discreet (ec : EnumerateContext α) :
    ec.Discreet (ec.checkCloseLeft.checkCloseRight, []) := by
  have same := checkCloseRight_attachment ec.checkCloseLeft
  refine ⟨nofun, ?_, ?_⟩
  · rw [same.active_eq]
    simp only [checkCloseLeft]
    split
    · exact .inr rfl
    · exact .inl rfl
  · rw [same.attaching_eq]
    simp only [checkCloseLeft]
    split
    · rfl
    · rfl

theorem processEnumResponse_discreet (allocated : Bool) (ec : EnumerateContext α)
    (pullRequestAttached : Bool) :
    ec.Discreet (ec.processEnumResponse allocated pullRequestAttached) := by
  cases canceled : ec.canceled with
  | false => exact (processEnumResponse_settles allocated ec canceled _).discreet
  | true =>
    simp only [processEnumResponse, canceled, if_true]
    exact ec.close_discreet

theorem cancel_discreet : ec.Discreet (ec.cancel, []) := by
  simp only [cancel]
  split
  · exact ⟨nofun, .inr rfl, rfl⟩
  · have closed := close_discreet { ec with canceled := true }
    exact ⟨nofun, closed.active, closed.attaching⟩

theorem processSubscribeResponse_discreet (allocated : Bool) (ec : EnumerateContext α) :
    ec.Discreet (ec.processSubscribeResponse allocated) := by
  simp only [processSubscribeResponse]
  split
  · exact ⟨by simp, .inr rfl, rfl⟩
  split
  · rename_i absent
    refine ⟨by simp, .inr ?_, ?_⟩
    · split
      · rfl
      · exact (checkCloseRight_attachment _).active_eq
    · split
      · rfl
      · exact (checkCloseRight_attachment _).attaching_eq
  · rename_i c active
    obtain ⟨next, response, sent, same⟩ := sendEnumPullResponse_detaches allocated
      { ec with finalResult := resultOk, responsed := true } c
    have settles : ec.Settles (next, [⟨c, response⟩]) :=
      settles_of_detached active response (same.trans ⟨rfl, rfl, rfl, rfl⟩)
    rw [sent]
    exact settles.discreet

/-- Only requests that wait are answered, and no others begin to wait. -/
structure Within (ec : EnumerateContext α) (out : Outcome α) : Prop where
  sent : ∀ sent ∈ out.2, sent.connection ∈ ec.waiting
  waiting : ∀ c ∈ out.1.waiting, c ∈ ec.waiting

theorem mem_waiting :
    c ∈ ec.waiting ↔ ec.activeConnection = some c ∨ ec.attachingConnection = some c := by
  simp only [waiting, mem_append, mem_toList]

theorem Discreet.within (discreet : ec.Discreet out) : ec.Within out where
  sent := fun sent member => mem_waiting.mpr (.inl (discreet.sent sent member))
  waiting := by
    intro c member
    rcases mem_waiting.mp member with active | attaching
    · rcases discreet.active with detached | kept
      · cases detached.symm.trans active
      · exact mem_waiting.mpr (.inl (kept.symm.trans active))
    · exact mem_waiting.mpr (.inr (discreet.attaching.symm.trans attaching))

theorem pullAttached_within {allocated : Bool}
    (taken : ec.pullAttached allocated = some out) : ec.Within out := by
  obtain ⟨c, attaching, rfl⟩ := map_eq_some_iff.mp taken
  have joins : ∀ d ∈ (ec.leftAttached c).waiting, d ∈ ec.waiting := by
    intro d member
    rcases mem_waiting.mp member with active | none
    · cases active
      exact mem_waiting.mpr (.inr attaching)
    · cases none
  have discreet : (ec.leftAttached c).Discreet
      (if (ec.leftAttached c).canceled then
        ((ec.leftAttached c).closeLeft.checkCloseRight,
          [⟨c, .fault .destinationUnreachable "Enumeration context not found"⟩])
      else (ec.leftAttached c).processEnumResponse allocated true) := by
    split
    · exact (settles_of_detached rfl _ (checkCloseRight_attachment _)).discreet
    · exact processEnumResponse_discreet allocated _ true
  exact ⟨fun sent member => joins _ (discreet.within.sent sent member),
    fun d member => joins d (discreet.within.waiting d member)⟩

end EnumerateContext

theorem Method.apply_within {method : Method α}
    (taken : method.apply x = some out) : x.ec.Within out := by
  cases method with
  | post allocated m =>
    cases taken
    cases canceled : x.ec.canceled with
    | false => exact (processInstance_settles allocated canceled m).discreet.within
    | true =>
      simp only [processInstance, canceled, or_true, if_true]
      exact x.ec.settles_refl.discreet.within
  | result allocated code =>
    cases taken
    have discreet := processEnumResponse_discreet allocated
      { x.ec with enumerationCompleted := true, finalResult := code } false
    exact EnumerateContext.Discreet.within ⟨discreet.sent, discreet.active, discreet.attaching⟩
  | subscribed allocated =>
    cases taken
    exact (processSubscribeResponse_discreet allocated x.ec).within
  | attached allocated => exact pullAttached_within taken
  | cancel =>
    simp only [Method.apply] at taken
    split at taken
    · cases taken
      exact (x.ec.cancel_discreet).within
    · cases taken
  | unsubscribeAttached =>
    simp only [Method.apply] at taken
    split at taken
    · cases taken
      have discreet := x.ec.cancel_discreet
      exact EnumerateContext.Discreet.within ⟨by simp, discreet.active, discreet.attaching⟩
    · cases taken

/-! ## Whole histories -/

/-- Only requests of its creator wait for a context. -/
def Server.Proper (self : Server α) : Prop :=
  ∀ x ∈ self.objects, ∀ c ∈ x.ec.waiting, c.authInfo = x.owner

theorem Server.Proper.update (proper : self.Proper) (present : self.objects[object]? = some x)
    (owner : (f x).owner = x.owner)
    (joins : ∀ c ∈ (f x).ec.waiting, c ∈ x.ec.waiting ∨ c.authInfo = x.owner) :
    (self.update object f).Proper := by
  intro y member c waiting
  obtain ⟨k, stored⟩ := mem_iff_getElem?.mp member
  rw [update_objects] at stored
  split at stored
  · rename_i same
    subst same
    rw [present, map_some] at stored
    cases stored
    rw [owner]
    exact (joins c waiting).elim (proper x (mem_of_getElem? present) c) id
  · exact proper y (mem_of_getElem? stored) c waiting

/-- The table does not matter for the waiting requests. -/
theorem Server.releaseEnumerateContext_objects :
    (self.releaseEnumerateContext id).objects = self.objects := by
  simp only [releaseEnumerateContext]
  split
  · rfl
  · rfl

theorem Server.Proper.run (proper : self.Proper)
    (present : self.objects[object]? = some x) (within : x.ec.Within out) :
    (self.run object x out).1.Proper := by
  have updated : (self.update object fun x => { x with ec := out.1 }).Proper :=
    proper.update present rfl fun c waiting => .inl (within.waiting c waiting)
  simp only [Server.run]
  split
  · intro y member
    rw [releaseEnumerateContext_objects] at member
    exact updated y member
  · exact updated

theorem Server.allocateEnumContext_proper (proper : self.Proper) {allocated : Bool}
    {random : UInt32} {requestTag : RequestTag}
    (taken : self.allocateEnumContext allocated random requestTag c = some (next, object)) :
    next.Proper ∧ ∃ x, next.objects[object]? = some x ∧
      x.ec = create requestTag c := by
  simp only [allocateEnumContext] at taken
  split at taken
  · cases taken
  split at taken
  · cases taken
  split at taken
  · cases taken
    refine ⟨?_, _, getElem?_concat_length, rfl⟩
    intro y member d waiting
    rcases mem_append.mp member with earlier | now
    · exact proper y earlier d waiting
    · obtain rfl := mem_singleton.mp now
      rcases mem_waiting.mp waiting with active | attaching
      · cases active
        rfl
      · cases attaching
  · cases taken

theorem Server.new_proper : (Server.new : Server α).Proper := by
  intro x member
  cases member

section

variable (proper : self.Proper)
include proper

theorem Server.processCreate_proper (allocated optimized : Bool)
    (random : UInt32) (requestTag : RequestTag) (c : ConnectionData) :
    (self.processCreate allocated optimized random requestTag c).1.Proper := by
  simp only [processCreate]
  split
  · exact proper
  rename_i next object taken
  obtain ⟨proper, x, present, same⟩ := allocateEnumContext_proper proper taken
  split
  · exact proper
  · obtain ⟨answered, response, sent, detached⟩ :=
      (create requestTag c : EnumerateContext α).sendEnumPullResponse_detaches
        true c
    refine proper.update present rfl fun d waiting => ?_
    rw [sent] at waiting
    rcases mem_waiting.mp waiting with active | attaching
    · cases detached.active_eq.symm.trans active
    · cases detached.attaching_eq.symm.trans attaching

theorem Server.processPull_proper {id : UInt32}
    (own : self.NamesOwn (.pull c id)) : (self.processPull c id).1.Proper := by
  simp only [processPull]
  split
  · exact proper
  rename_i i object found
  split
  · exact proper
  · rename_i x present
    refine proper.update present rfl fun d waiting => ?_
    cases attaching : x.ec.attachingConnection with
    | some other =>
      simp only [EnumerateContext.attach, attaching] at waiting
      exact .inl waiting
    | none =>
      have owner := (own i object x found present).resolve_right fun busy => busy attaching
      simp only [EnumerateContext.attach, attaching] at waiting
      rcases EnumerateContext.mem_waiting.mp waiting with active | joined
      · exact .inl (EnumerateContext.mem_waiting.mpr (.inl active))
      · cases joined
        exact .inr owner.symm

theorem Server.delete_proper {id : UInt32}
    (taken : self.findAndDeleteEnumContext id = some (next, object))
    (owner : ∀ x, (f x).owner = x.owner) (same : ∀ x, (f x).ec = x.ec) :
    (next.update object f).Proper := by
  obtain ⟨⟨i, object'⟩, found, result⟩ := Option.map_eq_some_iff.mp taken
  cases result
  obtain ⟨_, _, x, present⟩ := getEnumContextIndex_some found
  have marked : Server.Proper { self with
      enumerateContextDeleted := Function.update self.enumerateContextDeleted i true } := proper
  refine marked.update present (owner x) fun d waiting => ?_
  rw [same] at waiting
  exact .inl waiting

theorem Server.step_proper {e : ServerEvent α} (own : self.NamesOwn e)
    (taken : self.step e = some next) : next.Proper := by
  cases e with
  | create allocated optimized random requestTag c =>
    cases taken
    exact processCreate_proper proper allocated optimized random requestTag c
  | pull c id =>
    cases taken
    exact processPull_proper proper own
  | release c id =>
    cases taken
    simp only [processRelease]
    split
    · exact proper
    · rename_i deleted
      exact delete_proper proper deleted (fun _ => rfl) (fun _ => rfl)
  | unsubscribe c id =>
    cases taken
    simp only [processUnsubscribe]
    split
    · exact proper
    · rename_i deleted
      exact delete_proper proper deleted (fun _ => rfl) (fun _ => rfl)
  | method object method =>
    obtain ⟨⟨reached, replies⟩, handled, rfl⟩ := map_eq_some_iff.mp taken
    obtain ⟨x, present, handled⟩ := bind_eq_some_iff.mp handled
    obtain ⟨out, applied, ran⟩ := map_eq_some_iff.mp handled
    have kept := proper.run present (Method.apply_within applied)
    rw [ran] at kept
    exact kept

/-- A context answers only the requests that wait for it. -/
theorem Server.method_keepsItems {method : Method α} {replies : List (Reply α)}
    (handled : self.handle (.method object method) = some (next, replies)) :
    self.KeepsItems object replies := by
  intro y c items endOfSequence stored received
  obtain ⟨x, present, handled⟩ := bind_eq_some_iff.mp handled
  obtain ⟨out, applied, ran⟩ := map_eq_some_iff.mp handled
  obtain rfl := Option.some.inj (present.symm.trans stored)
  cases ran
  obtain ⟨sent, member, same⟩ := mem_map.mp received
  cases same
  exact proper x (mem_of_getElem? present) c
    ((Method.apply_within applied).sent _ member)

end

/-- A request has one outcome. -/
theorem forall_handled_iff {out : Server α × List (Reply α)} {P : Server α → Prop} :
    (∀ next replies, some out = some (next, replies) → P next) ↔ P out.1 := by
  constructor
  · exact fun always => always _ _ rfl
  · intro holds next replies handled
    cases handled
    exact holds

theorem Server.Proper.isolated_iff (proper : self.Proper) (e : ServerEvent α) :
    self.Isolated e ↔ self.NamesOwn e := by
  cases e with
  | create => exact iff_of_true (fun _ _ _ => trivial) trivial
  | pull c id => exact forall_handled_iff.trans (self.processPull_untouched_iff)
  | release c id => exact forall_handled_iff.trans (self.processRelease_untouched_iff)
  | unsubscribe c id => exact forall_handled_iff.trans (self.processUnsubscribe_untouched_iff)
  | method object method =>
    exact iff_of_true (fun _ _ handled => method_keepsItems proper handled) trivial

/-- Over every history of the server, no request touches a context of another user and every
instance goes to the creator of its context, if and only if no request carries the id of a
context that another user created. -/
theorem users_isolated_iff (events : List (ServerEvent α)) :
    Run.Along Server.step Server.Isolated (Server.new : Server α) events ↔
      Run.Along Server.step Server.NamesOwn (Server.new : Server α) events :=
  Run.along_iff_of_invariant (fun self e (proper : self.Proper) => proper.isolated_iff e)
    (fun _ _ _ proper own taken => Server.step_proper proper own taken) Server.new_proper

/-- The request of a user with the given uid. -/
def requestOf (uid : UInt32) (request : Nat) (rqtAction : RqtAction) : ConnectionData :=
  ⟨request, ⟨uid, uid⟩, rqtAction, wsmanMaxEnvelopeSize, 10, UInt32.le_refl _,
    (sampleRequest 0 rqtAction).maxElements_pos⟩

/-- User 1000 enumerates without optimization, an instance is posted, and user 1001 pulls
with the id of the context. -/
def foreignPull : List (ServerEvent Unit) :=
  [.create true false 0 .enumerateInstances (requestOf 1000 1 .enumerate),
    .method 0 (.post true ⟨(), 100⟩), .pull (requestOf 1001 2 .pull) 0]

/-- The other user is attached and receives the instance. -/
theorem foreign_pull_reads :
    ¬Run.Along Server.step Server.Isolated (Server.new : Server Unit) foreignPull ∧
      ∃ self next c, Run.run Server.step (Server.new : Server Unit) foreignPull = some self ∧
        self.handle (.method 0 (.attached true)) =
          some (next, [.fromContext ⟨c, .items [⟨(), 100⟩] false⟩]) ∧
        self.objects[0]?.map (·.owner) = some ⟨1000, 1000⟩ ∧ c.authInfo = ⟨1001, 1001⟩ := by
  constructor
  · intro along
    have pulled := (along.2 _ rfl).2 _ rfl
    have untouched := pulled.1 _ _ rfl
    have kept := (untouched 0 _ rfl (by decide)).1
    cases kept
  · exact ⟨_, _, _, rfl, rfl, rfl, rfl⟩

end Omi.Wsman
