import Mathlib

/-!
# Subscribing to a provider

`Provider_InvokeSubscribe` holds the manager's enable lock and the subscription's post lock while
it calls into the provider, and has to leave the strand of the subscription's context on its
way. The provider may call back: it may post indications, end a subscription or give up on
indications altogether, and it may do so from within its own `DisableIndications`.

Every path gives both locks back. One of them forgets to leave the strand: a lifecycle
subscription where the provider has no lifecycle context.
-/

namespace Omi.Provmgr

/-- What is done to the locks and to the strand, and what the subscriber is told. -/
inductive LockOp
  | acquireEnable
  | releaseEnable
  | acquirePost
  | releasePost
  | leaveStrand
  | sendSubscribeResponse
  | subscribeFail
  deriving DecidableEq

/-- What `targetType` of a request stands for. -/
inductive Target
  | unsupported
  | alert
  | lifecycle (type : Nat)

/-- `SubscriptionManager`: the number of its subscriptions, whether there is an aggregation context,
the types that the lifecycle context supports if there is one, whether the class is an
indication class, and whether the new subscription's state is `SubscriptionState_Subscribed`. -/
structure Manager where
  enabled : Bool
  terminating : Bool
  subscriptions : Nat
  aggrCtx : Bool
  lifecycleCtx : Option (Nat → Bool)
  indicationClass : Bool
  subscribed : Bool

/-- Something done to the manager, with the operations on the locks. -/
abbrev Action := Manager → Manager × List LockOp

namespace Action

/-- A change without operations on the locks. -/
def update (change : Manager → Manager) : Action := fun mgr => (change mgr, [])

def nothing : Action := update id

def andThen (first second : Action) : Action := fun mgr =>
  ((second (first mgr).1).1, (first mgr).2 ++ (second (first mgr).1).2)

/-- An action that depends on the manager. -/
def choose (action : Manager → Action) : Action := fun mgr => action mgr mgr

/-- An action inside a lock. -/
def between (acquire release : LockOp) (action : Action) : Action := fun mgr =>
  ((action mgr).1, acquire :: (action mgr).2 ++ [release])

end Action

open Omi.Provmgr.Action

/-- `Provider_InvokeDisable`, with what the provider does in `DisableIndications`. -/
def invokeDisable (disableIndications : Action) : Action :=
  between .acquireEnable .releaseEnable <| choose fun mgr =>
    -- a subscription was added meanwhile
    if mgr.subscriptions ≠ 0 ∧ mgr.terminating = false then nothing
    else
      (update fun mgr =>
        { mgr with enabled := false, aggrCtx := mgr.aggrCtx && !mgr.indicationClass }).andThen <|
      (if mgr.indicationClass ∧ mgr.terminating = false ∧ mgr.aggrCtx ∧ mgr.enabled then
        disableIndications else nothing).andThen <|
      update fun mgr => { mgr with terminating := false }

/-- `Provider_TerminateIndication`. The subscriptions are canceled, which unsubscribes the new
one; without any the manager, which is terminating, does not call `DisableIndications`. -/
def terminateIndication : Action :=
  between .acquireEnable .releaseEnable <| (choose fun mgr =>
    if mgr.terminating then nothing
    else (update fun mgr => { mgr with terminating := true }).andThen <|
      if mgr.subscriptions ≠ 0 then update fun mgr => { mgr with subscribed := false }
      else invokeDisable nothing).andThen <|
    update fun mgr => { mgr with enabled := false }

/-- `Provider_RemoveSubscription`, for the new subscription or for another one. -/
def removeSubscription (disableIndications : Action) (new : Bool) : Action :=
  choose fun mgr =>
    if mgr.subscriptions = 0 then nothing
    else (update fun mgr => { mgr with
        subscriptions := mgr.subscriptions - 1
        subscribed := mgr.subscribed && !new }).andThen <|
      if mgr.subscriptions = 1 then invokeDisable disableIndications else nothing

/-- What a provider does when it is called: nothing more, or one call back and then the rest. -/
inductive Behaviour
  | done
  /-- a result posted to the aggregation context -/
  | postResult (next : Behaviour)
  /-- an indication, which may match the filter of a subscription -/
  | postIndication (isMatch : Bool) (next : Behaviour)
  /-- a final result posted to a subscription's context, on the IO thread or on another one -/
  | endSubscription (new ioThread : Bool) (disableIndications next : Behaviour)

/-- The action of a provider's behaviour. -/
def Behaviour.act : Behaviour → Action
  | done => nothing
  | postResult next => terminateIndication.andThen next.act
  | postIndication isMatch next =>
    (if isMatch then between .acquirePost .releasePost nothing else nothing).andThen next.act
  | endSubscription new ioThread disableIndications next =>
    (removeSubscription disableIndications.act new).andThen <|
    (if ioThread then nothing else between .acquirePost .releasePost nothing).andThen next.act

/-- `_Provider_InvokeEnable`, where the aggregation context may not be allocated. -/
def invokeEnable (allocated : Bool) (enableIndications : Behaviour) : Action :=
  if allocated then
    (update fun mgr => { mgr with aggrCtx := true, enabled := true }).andThen enableIndications.act
  else nothing

/-- What `Provider_InvokeSubscribe` is called with and what it meets. -/
structure SubscribeCall where
  canceled : Bool
  target : Target
  allocated : Bool
  enableIndications : Behaviour
  subscribe : Behaviour
  /-- what the lifecycle callback does, if there is one and the types have changed -/
  lifecycleCallback : Behaviour

/-- The way to the end of the block: whether the lock is held, whether the subscription was added,
and whether the result is a failure. -/
structure BlockEnd where
  ops : List LockOp
  locked : Bool
  added : Bool
  failed : Bool

/-- The provider is called to enable indications, if they are not enabled, and to subscribe, which
ends with the response if the provider has not ended the subscription. -/
def subscribeAlert (call : SubscribeCall) : Action :=
  (choose fun mgr =>
    if mgr.enabled then nothing else invokeEnable call.allocated call.enableIndications).andThen <|
  choose fun mgr =>
    if mgr.enabled then
      (update fun mgr => { mgr with subscribed := true }).andThen <| call.subscribe.act.andThen <|
        fun mgr => (mgr, if mgr.subscribed then [.sendSubscribeResponse] else [])
    else nothing

/-- The block of `Provider_InvokeSubscribe`. -/
def subscribeBlock (call : SubscribeCall) (mgr : Manager) : BlockEnd :=
  let added := { mgr with subscriptions := mgr.subscriptions + 1 }
  if mgr.terminating then ⟨[.acquireEnable, .releaseEnable, .leaveStrand], false, false, true⟩
  else
    match call.target with
    | .alert =>
      ⟨[.acquireEnable, .acquirePost, .leaveStrand] ++ (subscribeAlert call added).2,
        true, true, false⟩
    | .lifecycle type =>
      match mgr.lifecycleCtx with
      | none => ⟨[.acquireEnable], true, false, true⟩
      | some supported =>
        if supported type then
          ⟨[.acquireEnable, .acquirePost] ++
            (call.lifecycleCallback.act { added with enabled := true, subscribed := true }).2 ++
              [.leaveStrand, .sendSubscribeResponse], true, true, false⟩
        else ⟨[.acquireEnable, .leaveStrand], true, false, true⟩
    | .unsupported => ⟨[.acquireEnable, .leaveStrand], true, false, true⟩

/-- `Provider_InvokeSubscribe`. -/
def invokeSubscribe (call : SubscribeCall) (mgr : Manager) : List LockOp :=
  if call.canceled then [.leaveStrand]
  else
    let block := subscribeBlock call mgr
    block.ops ++ (if block.added then [.releasePost] else []) ++
      (if block.locked then [.releaseEnable] else []) ++
        if block.failed then [.subscribeFail] else []

/-! ## Balance -/

/-- The strand is left so often, and each lock is released as often as it is acquired. -/
structure Balanced (leaves : Nat) (ops : List LockOp) : Prop where
  left : ops.count .leaveStrand = leaves
  enable : ops.count .acquireEnable = ops.count .releaseEnable
  post : ops.count .acquirePost = ops.count .releasePost

namespace Balanced

variable {ops : List LockOp}

theorem append {m n : Nat} {first second : List LockOp} (before : Balanced m first)
    (after : Balanced n second) : Balanced (m + n) (first ++ second) := by
  constructor
  · rw [List.count_append, before.left, after.left]
  · rw [List.count_append, List.count_append, before.enable, after.enable]
  · rw [List.count_append, List.count_append, before.post, after.post]

theorem nil : Balanced 0 [] := ⟨rfl, rfl, rfl⟩

theorem inEnable (inside : Balanced 0 ops) :
    Balanced 0 (.acquireEnable :: ops ++ [.releaseEnable]) := by
  constructor <;> simp [inside.left, inside.enable, inside.post]

theorem inPost (inside : Balanced 0 ops) : Balanced 0 (.acquirePost :: ops ++ [.releasePost]) := by
  constructor <;> simp [inside.left, inside.enable, inside.post]

end Balanced

/-- An action that leaves the strand alone and gives back every lock that it takes. -/
def Action.Neutral (action : Action) : Prop := ∀ mgr, Balanced 0 (action mgr).2

namespace Action.Neutral

theorem update (change : Manager → Manager) : (Action.update change).Neutral := fun _ => .nil

theorem nothing : Action.nothing.Neutral := update id

variable {first second : Action}

theorem andThen (before : first.Neutral) (after : second.Neutral) :
    (first.andThen second).Neutral := fun mgr => (before mgr).append (after _)

theorem choose {action : Manager → Action} (each : ∀ mgr, (action mgr).Neutral) :
    (Action.choose action).Neutral := fun mgr => each mgr mgr

theorem ite {P : Prop} [Decidable P] (yes : first.Neutral)
    (no : second.Neutral) : (if P then first else second).Neutral := by
  split_ifs
  · exact yes
  · exact no

section

variable (inside : first.Neutral)
include inside

theorem inEnable : (between .acquireEnable .releaseEnable first).Neutral :=
  fun mgr => (inside mgr).inEnable

theorem inPost : (between .acquirePost .releasePost first).Neutral :=
  fun mgr => (inside mgr).inPost

theorem invokeDisable : (invokeDisable first).Neutral := by
  refine inEnable (choose fun mgr => ite nothing ?_)
  exact (update _).andThen ((ite inside nothing).andThen (update _))

theorem removeSubscription (new : Bool) : (removeSubscription first new).Neutral := by
  refine choose fun mgr => ite nothing ?_
  exact (update _).andThen (ite (invokeDisable inside) nothing)

end

theorem terminateIndication : terminateIndication.Neutral := by
  refine inEnable ((choose fun mgr => ite nothing ?_).andThen (update _))
  exact (update _).andThen (ite (update _) (invokeDisable nothing))

/-- Whatever a provider calls back, it gives back the locks. -/
theorem act (behaviour : Behaviour) : behaviour.act.Neutral := by
  induction behaviour with
  | done => exact nothing
  | postResult next ih => exact terminateIndication.andThen ih
  | postIndication isMatch next ih => exact (ite (inPost nothing) nothing).andThen ih
  | endSubscription new ioThread disableIndications next inside ih =>
    refine (removeSubscription inside new).andThen ?_
    exact (ite nothing (inPost nothing)).andThen ih

theorem subscribeAlert (call : SubscribeCall) : (subscribeAlert call).Neutral := by
  refine (choose fun mgr => ite nothing ?_).andThen (choose fun mgr => ite ?_ nothing)
  · exact ite ((update _).andThen (act call.enableIndications)) nothing
  · refine (update _).andThen ((act call.subscribe).andThen fun mgr => ?_)
    cases mgr.subscribed with
    | false => exact .nil
    | true => exact ⟨rfl, rfl, rfl⟩

end Action.Neutral

end Omi.Provmgr
