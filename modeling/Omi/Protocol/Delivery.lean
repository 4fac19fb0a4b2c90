import Omi.Data.Run
import Omi.Protocol.Dispatch

/-!
# Delivery to the upper layer

Requests of a client are meant for the dispatcher only once both halves of the
authentication are complete. The dispatch tests `engineAuthState` for every
message, but `clientAuthState` only for notifications. The theorem at the end
says for all runs what this amounts to: the guard holds exactly in the runs in
which no request arrives between the two.
-/

namespace Omi.Protocol

open Run

/-- Neither a notification nor a message with a handler of its own. -/
def Message.IsOrdinary (preexec : Bool) : Message → Prop
  | .other _ _ => True
  | .execPreexecResp _ => preexec = false
  | _ => False

/-- Both halves of the authentication are complete. -/
def ProtocolSocket.Authenticated (s : ProtocolSocket) : Prop :=
  s.clientAuthState = .ok ∧ s.engineAuthState = .ok

/-- What a step added to the record. -/
def newEvents (p next : Process) : List (HandlerId × Event) :=
  next.log.drop p.log.length

/-- The endpoint is closed and no longer known to the selector. -/
def Process.IsClosed (p : Process) (h : HandlerId) : Prop :=
  ∃ s, p.sockets[h]? = some s ∧ s.registered = false ∧ s.closeOtherScheduled = true

/-- The guard on one step: an ordinary message that arrives on a server endpoint reaches
the upper layer only if the endpoint is authenticated, and otherwise it is dropped and
the connection closed. -/
def GuardsDelivery (preexec : Bool) (p : Process) : Action → Prop
  | .receive env h msg =>
    ∀ s next, p.sockets[h]? = some s → s.base.type = .listener → s.isReading →
      msg.IsOrdinary preexec → step preexec p (.receive env h msg) = some next →
      ((h, .posted msg) ∈ newEvents p next → s.Authenticated) ∧
        (¬s.Authenticated → (h, .posted msg) ∉ newEvents p next ∧ next.IsClosed h)
  | .accept _ _ _ => True
  | .ack _ => True

/-- No ordinary message arrives on a server endpoint whose engine half is complete while
its client half is not. -/
def NoEarlyRequest (preexec : Bool) (p : Process) : Action → Prop
  | .receive _ h msg =>
    ∀ s, p.sockets[h]? = some s → s.base.type = .listener → s.isReading →
      msg.IsOrdinary preexec → ¬(s.engineAuthState = .ok ∧ s.clientAuthState ≠ .ok)
  | .accept _ _ _ => True
  | .ack _ => True

theorem newEvents_of_append {p next : Process} {more : List (HandlerId × Event)}
    (log : next.log = p.log ++ more) : newEvents p next = more := by
  rw [newEvents, log, List.drop_left]

section Ordinary

variable {preexec : Bool} {p : Process} {h : HandlerId} {s : ProtocolSocket}
  {msg : Message}

/-- An ordinary message passes the engine gate alone. -/
theorem step_ordinary (env : Env) (found : p.sockets[h]? = some s) (reading : s.isReading)
    (ordinary : msg.IsOrdinary preexec) :
    step preexec p (.receive env h msg) =
      some (if s.engineAuthState = .ok then (deliver p h s msg).1 else p.closeConnection h) := by
  have dispatched : processReceivedMessage preexec env p h s msg =
      some (if s.engineAuthState = .ok then deliver p h s msg else (p, .prtReturnFalse)) := by
    cases msg with
    | other tag unhandled =>
      change some (if s.engineAuthState ≠ .ok then _ else _) = _
      rw [ite_not]
    | execPreexecResp context =>
      cases (show preexec = false from ordinary)
      change some (if s.engineAuthState ≠ .ok then _ else _) = _
      rw [ite_not]
    | _ => exact ordinary.elim
  rw [step_receive found reading, dispatched]
  by_cases verified : s.engineAuthState = .ok
  · rw [if_pos verified, if_pos verified]
    rfl
  · rw [if_neg verified, if_neg verified]
    rfl

theorem newEvents_deliver : newEvents p (deliver p h s msg).1 = [(h, .posted msg)] :=
  newEvents_of_append rfl

theorem ProtocolSocket.closeOtherScheduled_cleanup : s.cleanup.closeOtherScheduled = true := by
  unfold ProtocolSocket.cleanup
  split
  · assumption
  · rfl

theorem isClosed_closeConnection (found : p.sockets[h]? = some s) :
    (p.closeConnection h).IsClosed h := by
  unfold Process.closeConnection
  rw [found]
  refine ⟨_, List.getElem?_set_self (List.getElem?_eq_some_iff.mp found).1, rfl, ?_⟩
  exact s.closeOtherScheduled_cleanup

theorem not_posted_closeConnection (found : p.sockets[h]? = some s) (msg : Message) :
    (h, .posted msg) ∉ newEvents p (p.closeConnection h) := by
  have added : newEvents p (p.closeConnection h) = s.cleanupEvents.map (fun e => (h, e)) := by
    apply newEvents_of_append
    unfold Process.closeConnection
    rw [found]
    rfl
  rw [added]
  intro member
  obtain ⟨e, closing, same⟩ := List.mem_map.mp member
  cases same
  unfold ProtocolSocket.cleanupEvents at closing
  split at closing
  · cases closing
  · split at closing
    · cases List.mem_singleton.mp closing
    · cases closing

/-- On one step the guard and the condition say the same. -/
theorem guardsDelivery_iff (preexec : Bool) (p : Process) (a : Action) :
    GuardsDelivery preexec p a ↔ NoEarlyRequest preexec p a := by
  cases a with
  | accept base isListener sock | ack h => exact Iff.rfl
  | receive env h msg =>
    constructor
    · intro guards s found listener reading ordinary
      rintro ⟨verified, waiting⟩
      -- the message is delivered, although the client half is missing
      have taken := step_ordinary env found reading ordinary
      rw [if_pos verified] at taken
      obtain ⟨authenticated, -⟩ := guards s _ found listener reading ordinary taken
      apply waiting
      refine (authenticated ?_).1
      rw [newEvents_deliver]
      exact List.mem_singleton_self _
    · intro early s next found listener reading ordinary taken
      rw [step_ordinary env found reading ordinary] at taken
      have alternatives := early s found listener reading ordinary
      by_cases verified : s.engineAuthState = .ok
      · have authenticated : s.Authenticated :=
          ⟨not_not.mp (fun waiting => alternatives ⟨verified, waiting⟩), verified⟩
        exact ⟨fun _ => authenticated, fun missing => absurd authenticated missing⟩
      · rw [if_neg verified] at taken
        cases taken
        have dropped := not_posted_closeConnection found msg
        exact ⟨fun posted => absurd posted dropped,
          fun _ => ⟨dropped, isClosed_closeConnection found⟩⟩

end Ordinary

/-- In a run from any state, every ordinary message is guarded if and only if none arrives
on a server endpoint between the engine half and the client half of the authentication. -/
theorem delivery_guarded_iff (preexec : Bool) (p : Process) (actions : List Action) :
    Along (step preexec) (GuardsDelivery preexec) p actions ↔
      Along (step preexec) (NoEarlyRequest preexec) p actions :=
  along_congr (guardsDelivery_iff preexec) p actions

/-! ## A request before authentication -/

/-- A process that has just started. -/
def Process.init : Process where
  sockets := []
  tracker := fun _ => none
  socketFile := ZString.ofString ""
  secretString := ZString.ofString ""
  permanentSocket := none
  ignoreAuthCalls := false
  log := []

/-- The listener of a server that runs its engine itself: no secret is expected. -/
def openListener : ProtocolBase where
  type := .listener
  forwardRequests := false
  expectedSecretString := none
  socketFile := none
  secret_fits := internalProtocolBase.secret_fits

/-- Surroundings in which messages are sent and every lookup fails. -/
def Env.plain : Env where
  newMessage := fun _ => true
  write := fun _ => true
  checkPassword := fun _ _ => false
  getpwnam := fun _ => none
  getUIDByConnection := fun _ => none
  getUserGidByUid := fun _ => none
  newAuthData := true
  createAuthFile := fun _ => (⟨ZString.ofString "", Vector.replicate authRandomDataSize 0⟩, false)
  readAuthFile := fun _ => none
  effectiveUser := ⟨0, 0⟩
  openAgentLog := fun _ _ _ => true
  agentPaths := true
  fork := true
  pamCheckUser := fun _ _ => false
  authenticateCallback := fun _ => false
  newTrackerBucket := fun _ => true
  newEngineBatch := true
  newSocketAndBase := true
  createConnector := fun _ => none
  addHandler := true

/-- `GetInstanceReqTag`. -/
def getInstanceReqTag : UInt32 := 0x1001

/-- A `GetInstanceReq` as the first message of a connection is delivered. -/
theorem first_request_delivered :
    ¬Along (step false) (GuardsDelivery false) Process.init
      [.accept openListener rfl 5, .receive Env.plain 0 (.other getInstanceReqTag (by decide))] := by
  intro along
  obtain ⟨guards, -⟩ := along.2 _ rfl
  have reading : (serverNew openListener 5).isReading = true := by decide
  obtain ⟨authenticated, -⟩ := guards (serverNew openListener 5) _ rfl rfl reading trivial rfl
  cases (authenticated (List.mem_singleton_self _)).1

end Omi.Protocol
