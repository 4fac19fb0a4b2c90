import Omi.Protocol.Delivery
import Omi.Protocol.Invariant

/-!
# Privileged effects and the engine's secret

A listener that expects a secret accepts connections from the engine only. Three
requests on such a connection have effects with the server's privileges: an agent
is forked for the uid in the message, PAM checks a password, and the socket file
name is given out together with the secret. Their handlers are dispatched before
the engine gate. The theorem states what is left: in a run that delivers no such
request to an unverified endpoint, every privileged effect comes after a start-up
message with exactly the expected secret on the same endpoint.
-/

namespace Omi.Protocol

open List Run

/-- A process before its listeners have accepted anything. -/
structure Process.IsInitial (p : Process) : Prop where
  internal : ∀ s ∈ p.sockets, s.base.type ≠ .listener
  empty : p.log = []

/-- A run starts with any endpoint invariant. -/
theorem Process.IsInitial.holds {I : HandlerId → ProtocolSocket → Log → Prop}
    (stable : Stable I) {p : Process} (start : p.IsInitial) : Holds I p where
  bounded := by
    intro x member
    rw [start.empty] at member
    cases member
  each := by
    intro h s found
    exact stable.internal (start.internal s (mem_of_getElem? found))

/-- A privileged effect on the endpoint `h`. -/
def IsPrivilegedOn (h : HandlerId) (x : HandlerId × Event) : Prop :=
  x.1 = h ∧ x.2.IsPrivileged

/-- The verification of an endpoint is on record once its engine state says so, and every
privileged effect comes after it. -/
def VerifiedFirst (h : HandlerId) (s : ProtocolSocket) (log : Log) : Prop :=
  s.base.type = .listener → ∀ secret, s.base.expectedSecretString = some secret →
    (s.engineAuthState = .ok → (h, .engineVerified secret) ∈ log) ∧
      GuardedBy (h, .engineVerified secret) (IsPrivilegedOn h) log

/-- The condition on a step: privileged requests come on verified endpoints only. -/
def EngineFirst (p : Process) : Action → Prop
  | .receive _ h msg =>
    ∀ s secret, p.sockets[h]? = some s → s.base.type = .listener →
      s.base.expectedSecretString = some secret → s.isReading → msg.IsPrivilegedRequest →
      s.engineAuthState = .ok
  | .accept _ _ _ => True
  | .ack _ => True

theorem stable_verifiedFirst : Stable VerifiedFirst where
  mono := by
    intro h s log more first harmless listener secret expects
    obtain ⟨recorded, guarded⟩ := first listener secret expects
    refine ⟨fun verified => mem_append_left _ (recorded verified), ?_⟩
    apply guarded.append
    right
    intro x member privileged
    exact harmless x member privileged.1 privileged.2
  keeps := by
    intro h s s' log first keeps listener secret expects
    rw [keeps.base] at listener expects
    obtain ⟨recorded, guarded⟩ := first listener secret expects
    refine ⟨?_, guarded⟩
    intro verified
    rw [keeps.engine] at verified
    exact recorded verified
  internal := by
    intro h s log internal listener
    exact absurd listener internal

/-- A bounded comparison with a secret that is shorter than the bound is equality. -/
theorem eq_of_strncmpEqual {a b : ZString} {n : Nat} (short : b.length < n)
    (equal : strncmpEqual a b n) : a = b := by
  have prefixes : a.chars.take n = b.chars.take n := of_decide_eq_true equal
  have whole : b.chars.take n = b.chars := take_of_length_le (Nat.le_of_lt short)
  rw [whole] at prefixes
  have short' : (a.chars.take n).length < n := by
    rw [prefixes]
    exact short
  rw [length_take] at short'
  have fits : a.chars.length ≤ n := by omega
  rw [take_of_length_le fits] at prefixes
  exact ZString.ext prefixes

/-- The reply leaves the base and the engine state alone and none of its events is
privileged. -/
structure Reply.IsUnprivileged (s : ProtocolSocket) (r : Reply) : Prop where
  base : r.socket.base = s.base
  engine : r.socket.engineAuthState = s.engineAuthState
  harmless : ∀ e ∈ r.events, ¬e.IsPrivileged

section Authentication

variable {env : Env} {ignoreAuthCalls : Bool} {s : ProtocolSocket} {returnSock : Sock}
  {m : BinProtocolNotification}

theorem isUnprivileged_reject : Reply.IsUnprivileged s s.reject :=
  ⟨rfl, rfl, nofun⟩

theorem isUnprivileged_denyAccess : Reply.IsUnprivileged s (denyAccess env s returnSock) :=
  ⟨rfl, rfl, sendMessage_harmless nofun⟩

theorem isUnprivileged_grantAccess {info : AuthInfo} :
    Reply.IsUnprivileged s (grantAccess env { s with authInfo := info } returnSock) := by
  unfold grantAccess
  dsimp only
  split
  · exact ⟨rfl, rfl, sendMessage_harmless nofun⟩
  · exact ⟨rfl, rfl, sendMessage_harmless nofun⟩

theorem Reply.IsUnprivileged.after {r : Reply} (r_ok : r.IsUnprivileged s) {events : List Event}
    (harmless : ∀ e ∈ events, ¬e.IsPrivileged) : (r.after events).IsUnprivileged s where
  base := r_ok.base
  engine := r_ok.engine
  harmless :=
    forall_mem_append.mpr ⟨harmless, r_ok.harmless⟩

theorem isUnprivileged_explicitCredentials (user : ZString) :
    Reply.IsUnprivileged s (explicitCredentials env ignoreAuthCalls s user m) := by
  unfold explicitCredentials
  split
  · split
    · exact isUnprivileged_denyAccess
    · apply Reply.IsUnprivileged.after
      · have granted := @isUnprivileged_grantAccess env s m.forwardSock
        split
        · exact ⟨granted.base, granted.engine, granted.harmless⟩
        · exact granted
      · cases ignoreAuthCalls with
        | true => exact nofun
        | false => exact forall_mem_singleton.mpr id
  · exact isUnprivileged_denyAccess

theorem isUnprivileged_fileChallenge : Reply.IsUnprivileged s (fileChallenge env s m) := by
  unfold fileChallenge
  dsimp only
  have created : ∀ e ∈ Event.challengeCreated m.uid (env.createAuthFile m.uid).1.authRandom ::
      (sendAuthResponse env { s with authData := some (env.createAuthFile m.uid).1 }
        resultInProgress (some (env.createAuthFile m.uid).1.path) m.forwardSock
        invalidId invalidId).1, ¬e.IsPrivileged :=
    forall_mem_cons.mpr ⟨id, sendMessage_harmless nofun⟩
  split
  · exact ⟨rfl, rfl, sendMessage_harmless nofun⟩
  split
  · exact ⟨rfl, rfl, sendMessage_harmless nofun⟩
  split
  · exact ⟨rfl, rfl, created⟩
  · exact ⟨rfl, rfl, created⟩

theorem isUnprivileged_waitingConnectRequest :
    Reply.IsUnprivileged s (processAuthMessageWaitingConnectRequest env ignoreAuthCalls s m) := by
  unfold processAuthMessageWaitingConnectRequest
  split
  · exact isUnprivileged_reject
  split
  · exact isUnprivileged_explicitCredentials _
  split
  · split
    · exact isUnprivileged_grantAccess
    · exact isUnprivileged_fileChallenge
  · split
    · exact isUnprivileged_grantAccess.after (forall_mem_singleton.mpr id)
    · exact isUnprivileged_fileChallenge

theorem isUnprivileged_waitingFileData :
    Reply.IsUnprivileged s (processAuthMessageWaitingConnectRequestFileData env s m) := by
  unfold processAuthMessageWaitingConnectRequestFileData
  split
  · exact isUnprivileged_reject
  split
  · exact isUnprivileged_reject
  split
  · split
    · exact ⟨rfl, rfl, forall_mem_singleton.mpr id⟩
    · exact ⟨rfl, rfl, forall_mem_cons.mpr ⟨id, sendMessage_harmless nofun⟩⟩
  · exact isUnprivileged_denyAccess

theorem isUnprivileged_waitingConnectResponse :
    Reply.IsUnprivileged s (processAuthMessageWaitingConnectResponse env s m) := by
  have connect : ∀ e ∈ [Event.connectEvent], ¬e.IsPrivileged := forall_mem_singleton.mpr id
  unfold processAuthMessageWaitingConnectResponse
  split
  · exact isUnprivileged_reject
  split
  · split
    · exact ⟨rfl, rfl, nofun⟩
    · exact ⟨rfl, rfl, connect⟩
  split
  · split
    · exact isUnprivileged_reject
    · exact ⟨rfl, rfl, sendMessage_harmless nofun⟩
  split
  · exact ⟨rfl, rfl, connect⟩
  · exact isUnprivileged_reject

theorem isUnprivileged_processAuthMessage :
    Reply.IsUnprivileged s (processAuthMessage env ignoreAuthCalls s m) := by
  unfold processAuthMessage
  split
  · exact isUnprivileged_waitingConnectRequest
  · exact isUnprivileged_waitingFileData
  · exact isUnprivileged_waitingConnectResponse
  · exact isUnprivileged_reject
  · exact isUnprivileged_reject

end Authentication

/-- Changes that leave the base and the engine state alone. -/
theorem VerifiedFirst.of_frame {h : HandlerId} {s s' : ProtocolSocket} {log : Log}
    (first : VerifiedFirst h s log) (base : s'.base = s.base)
    (engine : s'.engineAuthState = s.engineAuthState) : VerifiedFirst h s' log := by
  intro listener secret expects
  rw [base] at listener expects
  obtain ⟨recorded, guarded⟩ := first listener secret expects
  refine ⟨?_, guarded⟩
  intro verified
  exact recorded (engine ▸ verified)

/-- Under the condition every message is admitted. -/
theorem admits_verifiedFirst {p : Process} {env : Env} {h : HandlerId} {msg : Message}
    {s : ProtocolSocket} (holds : Holds VerifiedFirst p)
    (condition : EngineFirst p (.receive env h msg)) (found : p.sockets[h]? = some s)
    (reading : s.isReading) : Admits VerifiedFirst env p h s msg where
  verified := by
    intro message secret expects equal listener expected expects'
    cases (expects.symm.trans expects')
    obtain rfl := eq_of_strncmpEqual (s.base.secret_fits _ expects) equal
    refine ⟨fun _ => mem_append_right _ (mem_singleton_self _), ?_⟩
    apply (holds.each h s found listener _ expects).2.append
    right
    intro x member privileged
    obtain rfl := mem_singleton.mp member
    exact privileged.2
  privileged := by
    intro request events listener secret expects
    obtain ⟨recorded, guarded⟩ := holds.each h s found listener secret expects
    -- the request finds the endpoint verified, so the record may grow by anything
    have occurred := recorded (condition s secret found listener expects reading request)
    exact ⟨fun _ => mem_append_left _ occurred, guarded.append (.inl occurred)⟩
  authenticated := by
    intro m _ _
    have unprivileged := @isUnprivileged_processAuthMessage env p.ignoreAuthCalls s m
    refine VerifiedFirst.of_frame ?_ unprivileged.base unprivileged.engine
    refine stable_verifiedFirst.mono (holds.each h s found) ?_
    intro x member _
    obtain ⟨e, happened, rfl⟩ := mem_map.mp member
    exact unprivileged.harmless e happened
  forwarded := by
    intro m _ _ _ _ j c first
    unfold ProtocolSocket.verdict
    split
    · exact first.of_frame rfl rfl
    · exact first

/-- A new endpoint that expects a secret is unverified and has done nothing. -/
theorem verifiedFirst_serverNew {p : Process} (holds : Holds VerifiedFirst p)
    (base : ProtocolBase) (sock : Sock) :
    VerifiedFirst p.sockets.length (serverNew base sock) p.log := by
  intro _ secret expects
  constructor
  · intro verified
    change (if base.expectedSecretString = none then _ else _) = AuthState.ok at verified
    rw [if_neg (by rw [show base.expectedSecretString = some secret from expects]; nofun)]
      at verified
    cases verified
  · apply guardedBy_of_forall_not
    rintro x member ⟨own, -⟩
    exact absurd own (Nat.ne_of_lt (holds.bounded x member))

theorem holds_verifiedFirst_step {preexec : Bool} (p : Process) (a : Action) (next : Process)
    (holds : Holds VerifiedFirst p) (condition : EngineFirst p a)
    (taken : step preexec p a = some next) : Holds VerifiedFirst next := by
  refine holds.step stable_verifiedFirst (verifiedFirst_serverNew holds) ?_ taken
  rintro env h msg s rfl found reading
  exact admits_verifiedFirst holds condition found reading

/-- In every run whose privileged requests come on verified endpoints only, each privileged
effect on an endpoint with an expected secret comes after a start-up message with exactly
that secret on the same endpoint. -/
theorem privileged_effects_follow_verification (preexec : Bool) {start finish : Process}
    (actions : List Action) (initial : start.IsInitial)
    (condition : Along (step preexec) EngineFirst start actions)
    (ends : run (step preexec) start actions = some finish) {h : HandlerId}
    {s : ProtocolSocket} {secret : ZString} (found : finish.sockets[h]? = some s)
    (listener : s.base.type = .listener)
    (expects : s.base.expectedSecretString = some secret) :
    GuardedBy (h, .engineVerified secret) (IsPrivilegedOn h) finish.log := by
  have holds := invariant_run holds_verifiedFirst_step
    (initial.holds stable_verifiedFirst) condition ends
  exact (holds.each h s found listener secret expects).2

/-! ## Runs of a listener with a secret -/

/-- The listener of a server whose engine is a separate process. -/
def secretListener : ProtocolBase where
  type := .listener
  forwardRequests := false
  expectedSecretString := some (ZString.ofString "0123456789")
  socketFile := none
  secret_fits := by
    rintro _ ⟨⟩
    decide

theorem Process.isInitial_init : Process.init.IsInitial where
  internal := by
    intro s member
    cases member
  empty := rfl

/-- The engine shows the secret and then asks for an agent of user 1000. -/
def agentSession : List Action :=
  [.accept secretListener rfl 5,
    .receive Env.plain 0 (.verifySocketConn
      ⟨verifySocketConnStartup, invalidSock, some (ZString.ofString "0123456789")⟩),
    .receive Env.plain 0 (.createAgentMsg ⟨createAgentMsgRequest, 1000, 1000, none⟩)]

theorem privileged_effects_follow_verification_agent :
    ∃ finish, run (step false) Process.init agentSession = some finish ∧
      (0, .agentForked 1000 1000) ∈ finish.log ∧
      GuardedBy (0, .engineVerified (ZString.ofString "0123456789")) (IsPrivilegedOn 0)
        finish.log := by
  refine ⟨_, rfl, mem_of_getElem? (i := 1) rfl, ?_⟩
  refine privileged_effects_follow_verification false agentSession Process.isInitial_init ?_ rfl
    (s := { { serverNew secretListener 5 with engineAuthState := .ok }.cleanup with
      registered := false }) rfl rfl rfl
  refine ⟨trivial, ?_⟩
  rintro _ ⟨⟩
  refine ⟨fun _ _ _ _ _ _ request => request.elim, ?_⟩
  rintro _ ⟨⟩
  refine ⟨?_, fun _ _ => trivial⟩
  rintro s _ ⟨⟩ _ _ _ _
  rfl

/-- An agent is forked for the uid that a peer names in its first message. -/
theorem agent_forked_unverified :
    ∃ finish, run (step false) Process.init
        [.accept secretListener rfl 5,
          .receive Env.plain 0 (.createAgentMsg ⟨createAgentMsgRequest, 0, 0, none⟩)] =
        some finish ∧
      ¬GuardedBy (0, .engineVerified (ZString.ofString "0123456789")) (IsPrivilegedOn 0)
        finish.log := by
  refine ⟨_, rfl, ?_⟩
  intro guarded
  cases guarded [] (0, .agentForked 0 0) _ rfl ⟨rfl, trivial⟩

end Omi.Protocol
