import Omi.Data.Run

/-!
# Snapshots of the subscription list

A provider's subscriptions are a linked list. Whoever posts an indication or cancels all
subscriptions copies the list into an array that the list keeps for this purpose, and goes
through the array. The array grows only when a copy is asked for, and then by one step: from
nothing to 32 places, or to twice its size. Where that is not enough the copy is refused, and
the indication reaches nobody.
-/

namespace Omi.Provmgr

open List Option Function

variable {σ : Type}

/-- The results of `SubscriptionList_GetList`. -/
inductive ListResult
  | ok
  | failed
  | serverLimitsExceeded
  deriving DecidableEq

/-- `SubscriptionList`: the linked subscriptions, of which `count` is the number, and the cells of
`subarray`, of which `capacity` is the number. A cell that was not written yet is `none`. -/
structure SubscriptionList (σ : Type) where
  members : List σ
  subarray : List (Option σ)
  deriving DecidableEq

namespace SubscriptionList

def count (list : SubscriptionList σ) : Nat := list.members.length

def capacity (list : SubscriptionList σ) : Nat := list.subarray.length

/-- `SubscriptionList_Init`. -/
def init : SubscriptionList σ := ⟨[], []⟩

/-- The capacity that a full array grows to. -/
def grown (capacity : Nat) : Nat := if capacity = 0 then 32 else capacity * 2 % 2 ^ 64

/-- `_SubscriptionList_EnsureArray`. The old array is freed before the new one is allocated;
`alloc` says whether so many bytes can be. -/
def ensureArray (alloc : Nat → Bool) (list : SubscriptionList σ) :
    ListResult × SubscriptionList σ :=
  if list.count ≤ list.capacity then (.ok, list)
  else if grown list.capacity < list.count then (.failed, list)
  else if 8 * grown list.capacity < 2 ^ 64 ∧ alloc (8 * grown list.capacity) then
    (.ok, { list with subarray := List.replicate (grown list.capacity) none })
  else (.serverLimitsExceeded, { list with subarray := [] })

/-- The loop that stores the subscriptions from place `i` on; `none` is a write past the array. -/
def store : List σ → Nat → List (Option σ) → Option (List (Option σ))
  | [], _, cells => some cells
  | subscription :: next, i, cells =>
    if i < cells.length then store next (i + 1) (cells.set i (some subscription)) else none

/-- `SubscriptionList_GetList`: its result, the list with the array behind it, and what the caller
finds in the first `*count` places of `*subs`. -/
def getList (alloc : Nat → Bool) (list : SubscriptionList σ) :
    Option (ListResult × SubscriptionList σ × List (Option σ)) :=
  match list.ensureArray alloc with
  | (.ok, list) => do
      let cells ← store list.members 0 list.subarray
      return (.ok, { list with subarray := cells }, cells.take list.count)
  | (result, list) => some (result, list, [])

/-- `SubscriptionList_CancelAllSubscription`: the subscriptions that it cancels. -/
def cancelAllSubscription (alloc : Nat → Bool) (list : SubscriptionList σ) :
    Option (List (Option σ)) :=
  (list.getList alloc).map fun (_, _, subs) => subs

/-- The subscriptions that `_AggrContext_PostIndication` gives an indication to. -/
def postIndication (alloc : Nat → Bool) (enabled : Bool) (list : SubscriptionList σ) :
    Option (List (Option σ)) :=
  if enabled = false ∨ list.count = 0 then some []
  else (list.getList alloc).map fun (_, _, subs) => subs

/-- The calls on a list. A subscription that is added is a new one. -/
inductive Call (σ : Type)
  | addSubscription (subscription : σ)
  | deleteSubscription (subscription : σ)
  | getList

/-- A call, where every allocation succeeds. -/
def step [DecidableEq σ] (list : SubscriptionList σ) : Call σ → Option (SubscriptionList σ)
  | .addSubscription subscription =>
    some { list with members := list.members ++ [subscription] }
  | .deleteSubscription subscription =>
    some { list with members := list.members.erase subscription }
  | .getList => (list.getList fun _ => true).map fun (_, list, _) => list

/-! ## What a snapshot holds -/

/-- The array has room for the list, or one step of growth gives it room. -/
def Room (list : SubscriptionList σ) : Prop :=
  list.count ≤ list.capacity ∨
    list.count ≤ grown list.capacity ∧ 8 * grown list.capacity < 2 ^ 64

/-- A copy succeeds with the subscriptions of the list in order, and so does whoever goes through
one. -/
structure Faithful (list : SubscriptionList σ) : Prop where
  snapshot : ∃ after, list.getList (fun _ => true) = some (.ok, after, list.members.map some)
  cancelled : list.cancelAllSubscription (fun _ => true) = some (list.members.map some)
  reached : list.postIndication (fun _ => true) true = some (list.members.map some)

theorem store_eq {subs : List σ} {i : Nat} {cells : List (Option σ)}
    (room : i + subs.length ≤ cells.length) :
    store subs i cells = some (cells.take i ++ subs.map some ++ cells.drop (i + subs.length)) := by
  induction subs generalizing i cells with
  | nil => simp [store]
  | cons subscription next ih =>
    rw [length_cons] at room
    have inside : i < cells.length := by omega
    rw [store, if_pos inside, ih (by rw [length_set]; omega),
      take_succ_eq_append_getElem (by rwa [length_set]), getElem_set_self,
      take_set_of_le (Nat.le_refl i), drop_set_of_lt (by omega)]
    simp [Nat.add_assoc, Nat.add_comm 1]

variable {list : SubscriptionList σ}

theorem ensureArray_ok_iff : (list.ensureArray fun _ => true).1 = .ok ↔ list.Room := by
  rw [ensureArray, Room]
  split_ifs with fits overflow allocated
  · exact iff_of_true rfl (.inl fits)
  · exact iff_of_false nofun (not_or.mpr ⟨fits, fun step => Nat.not_lt.mpr step.1 overflow⟩)
  · exact iff_of_true rfl (.inr ⟨Nat.not_lt.mp overflow, allocated.1⟩)
  · exact iff_of_false nofun (not_or.mpr ⟨fits, fun step => allocated ⟨step.2, rfl⟩⟩)

/-- An array that is there is large enough. -/
theorem ensureArray_fits {alloc : Nat → Bool} {list after : SubscriptionList σ}
    (ensured : list.ensureArray alloc = (.ok, after)) :
    after.members = list.members ∧ after.count ≤ after.capacity := by
  rw [ensureArray] at ensured
  split_ifs at ensured with fits overflow
  · cases ensured
    exact ⟨rfl, fits⟩
  · cases ensured
  · cases ensured
    refine ⟨rfl, Nat.le_trans (Nat.not_lt.mp overflow) (Nat.le_of_eq ?_)⟩
    exact length_replicate.symm
  · cases ensured

theorem getList_of_room (room : list.Room) :
    ∃ after, list.getList (fun _ => true) = some (.ok, after, list.members.map some) := by
  have ensured : list.ensureArray (fun _ => true) = (.ok, (list.ensureArray fun _ => true).2) :=
    Prod.ext ((ensureArray_ok_iff).mpr room) rfl
  generalize (list.ensureArray fun _ => true).2 = large at ensured
  obtain ⟨same, fits⟩ := ensureArray_fits ensured
  have fits : 0 + large.members.length ≤ large.subarray.length := by rwa [Nat.zero_add]
  have copied := store_eq fits
  rw [same] at copied
  refine ⟨⟨list.members, list.members.map some ++ large.subarray.drop list.members.length⟩, ?_⟩
  simp [getList, ensured, copied, same, count]

/-- A copy that does not succeed leaves its caller with nothing. -/
theorem getList_of_not_room (full : ¬ list.Room) :
    ∃ result after, result ≠ .ok ∧ list.getList (fun _ => true) = some (result, after, []) := by
  have refused := mt (ensureArray_ok_iff).mp full
  rw [getList]
  split
  case h_1 ensured => exact absurd (congrArg Prod.fst ensured) refused
  case h_2 result after _ ensured =>
    rw [ensured] at refused
    exact ⟨result, after, refused, rfl⟩

theorem faithful_iff_room : list.Faithful ↔ list.Room := by
  constructor
  · intro faithful
    by_contra full
    obtain ⟨after, ok⟩ := faithful.snapshot
    obtain ⟨result, _, refused, failed⟩ := getList_of_not_room full
    rw [failed, some_inj, Prod.mk.injEq] at ok
    exact refused ok.1
  · intro room
    obtain ⟨after, ok⟩ := getList_of_room room
    refine ⟨⟨after, ok⟩, ?_, ?_⟩
    · rw [cancelAllSubscription, ok]
      rfl
    · by_cases nobody : list.count = 0
      · rw [postIndication, if_pos (.inr nobody), length_eq_zero_iff.mp nobody]
        rfl
      · rw [postIndication, if_neg (not_or.mpr ⟨by simp, nobody⟩), ok]
        rfl

/-- No copy writes past the array. -/
theorem step_isSome [DecidableEq σ] (call : Call σ) : ∃ after, list.step call = some after := by
  cases call with
  | addSubscription subscription => exact ⟨_, rfl⟩
  | deleteSubscription subscription => exact ⟨_, rfl⟩
  | getList =>
    rw [step]
    by_cases room : list.Room
    · obtain ⟨after, ok⟩ := getList_of_room room
      exact ⟨after, by rw [ok]; rfl⟩
    · obtain ⟨_, after, _, failed⟩ := getList_of_not_room room
      exact ⟨after, by rw [failed]; rfl⟩

/-- After every history of calls, a snapshot is what the list holds where the array has room for
the list or grows to have it. -/
theorem faithful_after_iff [DecidableEq σ] (history : List (Call σ)) :
    ∃ list, Run.run step init history = some list ∧ (list.Faithful ↔ list.Room) := by
  obtain ⟨list, reached⟩ := Run.exists_run (fun list call => step_isSome call) init history
  exact ⟨list, reached, faithful_iff_room⟩

/-- A list to which 33 subscriptions are added before anyone takes a snapshot has no room: an
indication reaches none of them. -/
theorem unreached_of_thirtyThree :
    ∃ list : SubscriptionList Nat,
      Run.run step init ((List.range 33).map .addSubscription) = some list ∧
        list.members = List.range 33 ∧ list.postIndication (fun _ => true) true = some [] ∧
          ¬ list.Faithful := by
  refine ⟨⟨range 33, []⟩, by decide, rfl, by decide, ?_⟩
  rw [faithful_iff_room, Room]
  decide

end SubscriptionList

/-! ## Threads with snapshots -/

/-- A thread: outside of the list, inside `SubscriptionList_GetList` with the read lock and an array
of sufficient size, or in its loop over a snapshot. It has taken a reference to each subscription
of `taken`, and gives back that to the subscription that it finds at `index` of its array. -/
inductive Thread (σ : Type)
  | outside
  | copying
  | iterating (array : Nat) (taken : List σ) (index : Nat)

/-- A list that threads share, with the threads that hold the read lock. Arrays that were freed
differ from the list's own one in their number. -/
structure SharedList (σ : Type) where
  list : SubscriptionList σ
  array : Nat
  readers : Nat
  threads : Nat → Thread σ

namespace SharedList

open SubscriptionList

/-- What a thread does. -/
inductive Event (σ : Type)
  | addSubscription (subscription : σ)
  | deleteSubscription (subscription : σ)
  | ensureArray (t : Nat) (allocated : Bool)
  | copy (t : Nat)
  | next (t : Nat)

def setThread (s : SharedList σ) (t : Nat) (thread : Thread σ) : SharedList σ :=
  { s with threads := Function.update s.threads t thread }

/-- The array is a new one if its capacity is another one. -/
def setList (s : SharedList σ) (list : SubscriptionList σ) : SharedList σ :=
  { s with list, array := if list.capacity = s.list.capacity then s.array else s.array + 1 }

/-- One step of one thread. Nobody changes the list while there are readers. -/
def step [DecidableEq σ] (s : SharedList σ) : Event σ → Option (SharedList σ)
  | .addSubscription subscription =>
    if s.readers = 0 then some { s with list.members := s.list.members ++ [subscription] } else none
  | .deleteSubscription subscription =>
    if s.readers = 0 then some { s with list.members := s.list.members.erase subscription }
    else none
  | .ensureArray t allocated =>
    match s.threads t, s.list.ensureArray fun _ => allocated with
    | .outside, (.ok, list) =>
      some ({ s.setList list with readers := s.readers + 1 }.setThread t .copying)
    | .outside, (_, list) => some (s.setList list)
    | _, _ => none
  | .copy t =>
    match s.threads t, store s.list.members 0 s.list.subarray with
    | .copying, some cells =>
      some ({ s with list.subarray := cells, readers := s.readers - 1 }.setThread t
        (.iterating s.array s.list.members 0))
    | _, _ => none
  | .next t =>
    match s.threads t with
    | .iterating array taken index => some (s.setThread t
        (if index < taken.length then .iterating array taken (index + 1) else .outside))
    | _ => none

/-- A copy stays inside the array, and a thread finds in its array, which is not freed, what was in
the list when it took its snapshot. -/
def Exact (s : SharedList σ) : Event σ → Prop
  | .copy t => s.threads t = .copying → store s.list.members 0 s.list.subarray ≠ none
  | .next t => ∀ array taken index, s.threads t = .iterating array taken index →
      index < taken.length → array = s.array ∧ s.list.subarray[index]? = some taken[index]?
  | _ => True

/-- A snapshot is asked for while no other thread copies or goes through one. -/
def Alone (s : SharedList σ) : Event σ → Prop
  | .ensureArray t _ => ∀ u, u ≠ t → s.threads u = .outside
  | _ => True

/-- At most one thread has to do with the array, and it is that thread's. -/
structure Exclusive (s : SharedList σ) : Prop where
  one : ∀ t u, s.threads t ≠ .outside → s.threads u ≠ .outside → t = u
  copying : ∀ t, s.threads t = .copying → s.list.count ≤ s.list.capacity ∧ 0 < s.readers
  iterating : ∀ t array taken index, s.threads t = .iterating array taken index →
    array = s.array ∧ ∃ rest, s.list.subarray = taken.map some ++ rest

theorem Exclusive.exact {s : SharedList σ} (exclusive : s.Exclusive) (event : Event σ) :
    s.Exact event := by
  cases event with
  | copy t =>
    intro copying
    have room := (exclusive.copying t copying).1
    rw [store_eq (by rwa [Nat.zero_add])]
    exact some_ne_none _
  | next t =>
    intro array taken index iterating inside
    obtain ⟨same, rest, cells⟩ := exclusive.iterating t array taken index iterating
    refine ⟨same, ?_⟩
    rw [cells, getElem?_append_left (by rwa [length_map]), getElem?_map, getElem?_eq_getElem inside]
    rfl
  | _ => trivial

/-- Only the thread at `t` has to do with the array. -/
theorem exclusive_of_one {s : SharedList σ} {t : Nat} (others : ∀ u, u ≠ t → s.threads u = .outside)
    (copying : s.threads t = .copying → s.list.count ≤ s.list.capacity ∧ 0 < s.readers)
    (iterating : ∀ array taken index, s.threads t = .iterating array taken index →
      array = s.array ∧ ∃ rest, s.list.subarray = taken.map some ++ rest) : s.Exclusive := by
  have only : ∀ u, s.threads u ≠ .outside → u = t := fun u busy => by
    by_contra other
    exact busy (others u other)
  refine ⟨fun u v busy busy' => (only u busy).trans (only v busy').symm, ?_, ?_⟩
  · intro u here
    obtain rfl := only u (by rw [here]; nofun)
    exact copying here
  · intro u array taken index here
    obtain rfl := only u (by rw [here]; nofun)
    exact iterating array taken index here

theorem Exclusive.step [DecidableEq σ] {s next : SharedList σ} {event : Event σ}
    (exclusive : s.Exclusive) (alone : s.Alone event) (stepped : s.step event = some next) :
    next.Exclusive := by
  have unlocked (free : s.readers = 0) (t : Nat) : s.threads t ≠ .copying := fun copying =>
    Nat.ne_of_gt (exclusive.copying t copying).2 free
  have others {t : Nat} (here : s.threads t ≠ .outside) (u : Nat) (other : u ≠ t) :
      s.threads u = .outside := by
    by_contra busy
    exact other (exclusive.one u t busy here)
  cases event with
  | addSubscription | deleteSubscription =>
    rw [SharedList.step, ite_none_right_eq_some] at stepped
    cases stepped.2
    exact ⟨exclusive.one, fun t copying => absurd copying (unlocked stepped.1 t),
      exclusive.iterating⟩
  | ensureArray t allocated =>
    rw [SharedList.step] at stepped
    split at stepped
    case h_1 list _ ensured =>
      cases stepped
      refine exclusive_of_one (t := t) (fun u other => ?_) (fun _ => ⟨?_, Nat.succ_pos _⟩) ?_
      · exact (update_of_ne other _ _).trans (alone u other)
      · exact (ensureArray_fits ensured).2
      · intro array taken index here
        cases (update_self t _ _).symm.trans here
    case h_2 list outside _ =>
      cases stepped
      refine exclusive_of_one (t := t) alone (fun here => ?_) (fun _ _ _ here => ?_)
      · cases outside.symm.trans here
      · cases outside.symm.trans here
    case h_3 => cases stepped
  | copy t =>
    rw [SharedList.step] at stepped
    split at stepped
    case h_1 cells copying stored =>
      cases stepped
      refine exclusive_of_one (t := t) (fun u other => ?_) (fun here => ?_) ?_
      · exact (update_of_ne other _ _).trans (others (by rw [copying]; nofun) u other)
      · cases (update_self t _ _).symm.trans here
      · intro array taken index here
        cases (update_self t _ _).symm.trans here
        rw [store_eq (by rw [Nat.zero_add]; exact (exclusive.copying t copying).1)] at stored
        cases stored
        exact ⟨rfl, _, rfl⟩
    case h_2 => cases stepped
  | next t =>
    rw [SharedList.step] at stepped
    split at stepped
    case h_1 array taken index here =>
      cases stepped
      refine exclusive_of_one (t := t) (fun u other => ?_) (fun now => ?_) ?_
      · exact (update_of_ne other _ _).trans (others (by rw [here]; nofun) u other)
      · have own := (update_self t _ _).symm.trans now
        split at own <;> cases own
      · intro array' taken' index' now
        have own := (update_self t _ _).symm.trans now
        split at own <;> cases own
        exact exclusive.iterating t array taken index here
    case h_2 => cases stepped

/-- Where a snapshot is asked for only by one thread at a time, every thread goes through what was
in the list and gives back the references that it took. -/
theorem exact_of_alone [DecidableEq σ] (events : List (Event σ)) (s : SharedList σ)
    (idle : ∀ t, s.threads t = .outside) (alone : Run.Along step Alone s events) :
    Run.Along step Exact s events := by
  have kept : ∀ (s : SharedList σ) (event : Event σ) (next : SharedList σ), s.Exclusive →
      s.Alone event → s.step event = some next → next.Exclusive :=
    fun s event next exclusive here stepped => exclusive.step here stepped
  refine Run.along_of_invariant (fun s event exclusive _ => Exclusive.exact exclusive event) kept
    ?_ alone
  exact exclusive_of_one (t := 0) (fun u _ => idle u) (by simp [idle]) (by simp [idle])

/-- A list that nobody uses yet. -/
def idle : SharedList Nat := ⟨.init, 0, 0, fun _ => .outside⟩

/-- Thread 0 takes a snapshot and goes through it while subscription 1 is deleted and subscription
2 is added; then thread 1 does, while subscription 2 is deleted. -/
def successive : List (Event Nat) :=
  [.addSubscription 1, .ensureArray 0 true, .copy 0, .deleteSubscription 1, .addSubscription 2,
    .next 0, .next 0, .ensureArray 1 true, .copy 1, .deleteSubscription 2, .next 1, .next 1]

theorem exact_of_alone_successive :
    (Run.run step idle successive).isSome = true ∧ Run.Along step Exact idle successive := by
  refine ⟨rfl, exact_of_alone successive idle (fun _ => rfl) ?_⟩
  refine ⟨trivial, ?_⟩
  rintro _ ⟨⟩
  refine ⟨fun u _ => rfl, ?_⟩
  rintro _ ⟨⟩
  iterate 5
    refine ⟨trivial, ?_⟩
    rintro _ ⟨⟩
  -- thread 0 is through with its snapshot
  refine ⟨fun u _ => ?_, ?_⟩
  · cases u with
    | zero | succ u => rfl
  rintro _ ⟨⟩
  iterate 4
    refine ⟨trivial, ?_⟩
    rintro _ ⟨⟩
  trivial

/-- Thread 0 takes a snapshot of subscription 1, which is deleted, and thread 1 one of subscription
2: thread 0 then finds subscription 2, and releases a reference that it does not have. -/
theorem next_finds_another :
    ∃ s, Run.run step idle [.addSubscription 1, .ensureArray 0 true, .copy 0,
        .deleteSubscription 1, .addSubscription 2, .ensureArray 1 true, .copy 1] = some s ∧
      s.threads 0 = .iterating 1 [1] 0 ∧ s.list.subarray[0]? = some (some 2) ∧
        ¬ s.Exact (.next 0) := by
  refine ⟨_, rfl, rfl, rfl, fun exact => ?_⟩
  have found := (exact 1 [1] 0 rfl Nat.one_pos).2
  cases found

end SharedList

end Omi.Provmgr
