import Mathlib

/-!
# Closing a session or an application

A `ChildList` of the client API holds the handles of a session's operations or of an
application's sessions. A close shuts the list down, copies the handles and cancels them one
by one. They are copied into a buffer for 100 handles or, if there are more, into one that is
allocated for as many handles as there are.

A copy that fills its buffer counts as failed. A second copy always fills its buffer, and so
a close cancels everything if fewer than 100 handles are outstanding, and nothing otherwise.
-/

namespace Omi.Client

open List

variable {α ω : Type}

/-- `ChildList`, with the client handles from `headNode` on. -/
structure ChildList (α : Type) where
  nodes : List α
  childCount : Nat
  shutdown : Bool
  counted : childCount = nodes.length

namespace ChildList

/-- `ChildList_AddNode`; `false` stands for `MI_RESULT_SERVER_IS_SHUTTING_DOWN`. -/
def addNode (list : ChildList α) (newNode : α) : Bool × ChildList α :=
  if list.shutdown then (false, list)
  else
    (true, { list with
      nodes := newNode :: list.nodes
      childCount := list.childCount + 1
      counted := congrArg (· + 1) list.counted })

/-- `ChildList_GetCurrentList`: its result, the handles in the buffer and `outboundUsed`. -/
def getCurrentList (list : ChildList α) (inboundSize : Nat) : Bool × List α × Nat :=
  if list.childCount ≤ inboundSize then
    let copied := list.nodes.take inboundSize
    if copied.length < inboundSize then (true, copied, copied.length) else (false, copied, 0)
  else (false, [], list.childCount)

/-- The loop over the copied handles, from the last one to the first. -/
def cancelOrder : Bool × List α × Nat → List α
  | (true, copied, used) => (copied.take used).reverse
  | (false, _, _) => []

/-- The children that a close cancels, in this order. `ChildList_Shutdown` lets only the first
close through; `alloc` says whether a buffer for so many handles can be allocated. -/
def closing (alloc : Nat → Bool) (list : ChildList α) : List α :=
  if list.shutdown then []
  else
    let (copied, handles, used) := list.getCurrentList 100
    if copied = false ∧ 100 < used then
      if alloc used then cancelOrder (list.getCurrentList used) else []
    else cancelOrder (copied, handles, used)

/-- The children of a list that no close has shut down yet. -/
def outstanding (list : ChildList α) : List α := if list.shutdown then [] else list.nodes

variable {list : ChildList α}

theorem getCurrentList_of_le {size : Nat} (fits : list.nodes.length ≤ size) :
    list.getCurrentList size = if list.nodes.length < size
      then (true, list.nodes, list.nodes.length) else (false, list.nodes, 0) := by
  rw [getCurrentList, list.counted, if_pos fits, take_of_length_le fits]

theorem getCurrentList_of_gt {size : Nat} (more : size < list.nodes.length) :
    list.getCurrentList size = (false, [], list.nodes.length) := by
  rw [getCurrentList, list.counted, if_neg more.not_ge]

/-- What a close cancels when it can allocate. -/
theorem closing_eq :
    list.closing (fun _ => true) =
      if list.outstanding.length < 100 then list.outstanding.reverse else [] := by
  cases shut : list.shutdown with
  | true => simp [closing, outstanding, shut]
  | false =>
    simp only [closing, outstanding, shut, Bool.false_eq_true, if_false]
    rcases lt_trichotomy list.nodes.length 100 with room | full | more
    · rw [getCurrentList_of_le room.le]
      simp [cancelOrder, room]
    · rw [getCurrentList_of_le full.le]
      simp [cancelOrder, full]
    · rw [getCurrentList_of_gt more, getCurrentList_of_le le_rfl]
      simp [cancelOrder, more, more.le]

end ChildList

/-- What a close does to the operations: it cancels one, or it waits for their end. -/
inductive CloseEvent (ω : Type)
  | cancel (operation : ω)
  | await

/-- The results of `Session_Close`. -/
inductive CloseResult
  | ok
  | invalidParameter
  | accessDenied

/-- A session: whether its handle is active, the user and group that it belongs to and its
operations. Whoever shuts the handle down goes on to shut the operations down. -/
structure Session (ω : Type) where
  active : Bool
  owner : Nat × Nat
  operationList : ChildList ω
  closed : active = false → operationList.shutdown = true

namespace Session

/-- `Session_Close`, called by the user and group of `caller`. -/
def close (alloc : Nat → Bool) (caller : Nat × Nat) (session : Session ω) :
    CloseResult × List (CloseEvent ω) :=
  if session.active = false then (.invalidParameter, [])
  else if caller ≠ session.owner then (.accessDenied, [])
  else (.ok, (session.operationList.closing alloc).map .cancel ++ [.await])

/-- `Session_CancelAllOperations`: the operations that it cancels. -/
def cancelAllOperations (alloc : Nat → Bool) (session : Session ω) : List ω :=
  if session.active = false then [] else session.operationList.closing alloc

/-- The operations, as long as no close has shut their list down, whether it canceled them or
not. -/
def outstanding (session : Session ω) : List ω := session.operationList.outstanding

theorem cancelAllOperations_eq (session : Session ω) :
    session.cancelAllOperations (fun _ => true) =
      if session.outstanding.length < 100 then session.outstanding.reverse else [] := by
  rw [cancelAllOperations, outstanding, ← ChildList.closing_eq]
  split_ifs with inactive
  · simp [ChildList.closing, session.closed inactive]
  · rfl

end Session

/-- `Application_Close`, for the list of the application's sessions. The size of the buffer is cast
to 32 bits there, which changes nothing, as a second copy fails in any case. -/
def applicationClose (alloc : Nat → Bool) (sessionList : ChildList (Session ω)) :
    List (CloseEvent ω) :=
  ((sessionList.closing alloc).flatMap (Session.cancelAllOperations alloc)).map .cancel ++ [.await]

/-- Each of the operations is cancelled once, and all of it before the wait. -/
def CancelsAll (operations : List ω) (events : List (CloseEvent ω)) : Prop :=
  ∃ cancelled : List ω, events = cancelled.map .cancel ++ [.await] ∧ cancelled.Perm operations

theorem cancelsAll_iff {operations cancelled : List ω} :
    CancelsAll operations (cancelled.map .cancel ++ [.await]) ↔ cancelled.Perm operations := by
  constructor
  · rintro ⟨others, same, perm⟩
    have injective : Function.Injective (CloseEvent.cancel : ω → CloseEvent ω) :=
      fun _ _ => CloseEvent.cancel.inj
    rwa [injective.list_map (append_cancel_right same)]
  · exact fun perm => ⟨cancelled, rfl, perm⟩

/-- A close cancels all children or none, and in the second case there are 100 or more. -/
theorem perm_reverse_or_nil_iff {xs : List ω} :
    (if xs.length < 100 then xs.reverse else []).Perm xs ↔ xs.length < 100 := by
  split_ifs with few
  · exact iff_of_true (reverse_perm xs) few
  · refine iff_of_false (fun perm => few ?_) few
    rw [← perm.length_eq]
    exact Nat.succ_pos 99

theorem Session.cancelsAll_close_iff {session : Session ω} {caller : Nat × Nat}
    (active : session.active = true) :
    CancelsAll session.outstanding (session.close (fun _ => true) caller).2 ↔
      caller = session.owner ∧ session.outstanding.length < 100 := by
  rw [Session.close, if_neg (by rw [active]; decide)]
  by_cases own : caller = session.owner
  · rw [if_neg (not_not.mpr own), and_iff_right own, cancelsAll_iff, ChildList.closing_eq]
    exact perm_reverse_or_nil_iff
  · rw [if_pos own]
    refine iff_of_false ?_ fun both => own both.1
    rintro ⟨cancelled, refused, -⟩
    cases append_eq_nil_iff.mp refused.symm |>.2

/-- Where each session's operations are cancelled all or not at all, they are all cancelled if
every session has few of them. -/
theorem flatMap_cancelAllOperations_perm_iff {sessions : List (Session ω)} :
    (sessions.flatMap (Session.cancelAllOperations fun _ => true)).Perm
        (sessions.flatMap Session.outstanding) ↔
      ∀ session ∈ sessions, session.outstanding.length < 100 := by
  constructor
  · intro perm session member
    by_contra many
    have none_cancelled : session.cancelAllOperations (fun _ => true) = [] := by
      rw [Session.cancelAllOperations_eq, if_neg many]
    have fewer := sum_lt_sum (l := sessions)
      (fun s => (s.cancelAllOperations fun _ => true).length) (fun s => s.outstanding.length)
      (fun s _ => ?_) ⟨session, member, ?_⟩
    · rw [← length_flatMap, ← length_flatMap, perm.length_eq] at fewer
      exact lt_irrefl _ fewer
    · rw [Session.cancelAllOperations_eq]
      split_ifs
      · exact s.outstanding.length_reverse.le
      · exact Nat.zero_le _
    · rw [none_cancelled]
      exact lt_of_lt_of_le (Nat.succ_pos 99) (not_lt.mp many)
  · intro few
    refine List.Perm.flatMap_left sessions (fun session member => ?_)
    rw [Session.cancelAllOperations_eq, if_pos (few session member)]
    exact reverse_perm _

theorem applicationClose_cancelsAll_iff (sessionList : ChildList (Session ω)) :
    CancelsAll (sessionList.outstanding.flatMap Session.outstanding)
        (applicationClose (fun _ => true) sessionList) ↔
      (∀ session ∈ sessionList.outstanding, session.outstanding = []) ∨
        sessionList.outstanding.length < 100 ∧
          ∀ session ∈ sessionList.outstanding, session.outstanding.length < 100 := by
  rw [applicationClose, cancelsAll_iff, ChildList.closing_eq]
  split_ifs with few
  · rw [((reverse_perm _).flatMap_right _).congr_left,
      flatMap_cancelAllOperations_perm_iff, and_iff_right few]
    refine (or_iff_right_of_imp fun idle session member => ?_).symm
    rw [idle session member]
    exact Nat.succ_pos 99
  · rw [flatMap_nil, nil_perm, flatMap_eq_nil_iff]
    exact (or_iff_left fun both => few both.1).symm

/-- A close by the owner cancels every outstanding operation once before it waits, if fewer than
100 operations of a session are outstanding and, for an application with outstanding operations,
fewer than 100 sessions. -/
theorem close_cancelsAll_iff (session : Session ω) (active : session.active = true)
    (caller : Nat × Nat) (sessionList : ChildList (Session ω)) :
    (CancelsAll session.outstanding (session.close (fun _ => true) caller).2 ↔
      caller = session.owner ∧ session.outstanding.length < 100) ∧
    (CancelsAll (sessionList.outstanding.flatMap Session.outstanding)
        (applicationClose (fun _ => true) sessionList) ↔
      (∀ session ∈ sessionList.outstanding, session.outstanding = []) ∨
        sessionList.outstanding.length < 100 ∧
          ∀ session ∈ sessionList.outstanding, session.outstanding.length < 100) :=
  ⟨Session.cancelsAll_close_iff active, applicationClose_cancelsAll_iff sessionList⟩

/-- A session with so many operations. -/
def busySession (count : Nat) : Session Nat :=
  ⟨true, (0, 0), ⟨List.range count, count, false, List.length_range.symm⟩, nofun⟩

theorem close_cancelsAll_three :
    CancelsAll [0, 1, 2] ((busySession 3).close (fun _ => true) (0, 0)).2 :=
  (close_cancelsAll_iff (busySession 3) rfl (0, 0) ⟨[], 0, false, rfl⟩).1.mpr (by decide)

/-- A close of a session with 100 operations cancels none of them. -/
theorem close_hundred_cancels_none :
    ((busySession 100).close (fun _ => true) (0, 0)).2 = [.await] ∧
      ¬ CancelsAll (busySession 100).outstanding
        ((busySession 100).close (fun _ => true) (0, 0)).2 := by
  constructor
  · rfl
  · intro all
    have few := (Session.cancelsAll_close_iff rfl).mp all
    exact absurd few.2 (by decide)

end Omi.Client
