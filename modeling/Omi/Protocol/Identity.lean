import Omi.Protocol.Privilege

/-!
# Binding of a client's identity

On a listener without a secret every local process may connect, so the identity
of an authenticated client must come from something the client cannot choose: a
password check, the operating system's view of the peer, or a file that only the
claimed user can read. The invariant relates the state of the client, the identity
and the pending challenge to what is on record. One branch takes the identity
from the message itself, because the message seems to come from the engine; the
condition of the theorem is that this branch is not taken.
-/

namespace Omi.Protocol

open List Run

/-- Grounds for the identity `uid` on the endpoint `h`. The bytes of a challenge were
created for that uid before they came back. -/
def Evidence (h : HandlerId) (uid : Id) (log : Log) : Prop :=
  (∃ user, (h, .passwordAccepted user uid) ∈ log) ∨
    (∃ gid, (h, .peerCredentials ⟨uid, gid⟩) ∈ log) ∨
      ∃ bytes before after, log = before ++ (h, .challengeReturned bytes) :: after ∧
        (h, .challengeCreated uid bytes) ∈ before

variable {h : HandlerId}

theorem Evidence.append {uid : Id} {log : Log} (evidence : Evidence h uid log)
    (more : Log) : Evidence h uid (log ++ more) := by
  rcases evidence with ⟨user, member⟩ | ⟨gid, member⟩ | ⟨bytes, before, after, rfl, created⟩
  · exact .inl ⟨user, mem_append_left _ member⟩
  · exact .inr (.inl ⟨gid, mem_append_left _ member⟩)
  · exact .inr (.inr ⟨bytes, before, after ++ more, by simp, created⟩)

/-- On a listener without a secret: an authenticated client has evidence for its uid, a
pending challenge was created for it, and only a forwarding endpoint awaits a response. -/
def IdentityBound (h : HandlerId) (s : ProtocolSocket) (log : Log) : Prop :=
  s.base.type = .listener → s.base.expectedSecretString = none →
    (s.clientAuthState = .ok → Evidence h s.authInfo.uid log) ∧
    (s.clientAuthState = .waitConnectionRequestWithFileData → ∀ data,
      s.authData = some data → (h, .challengeCreated s.authInfo.uid data.authRandom) ∈ log) ∧
    (s.clientAuthState = .waitConnectionResponse → s.base.forwardRequests = true)

/-- The identity would be taken from the message: a connect request without a user that
names a descriptor to answer and a complete identity. -/
def BinProtocolNotification.ClaimsIdentity (m : BinProtocolNotification) : Prop :=
  m.user = none ∧ m.forwardSock ≠ invalidSock ∧ m.uid ≠ invalidId ∧ m.gid ≠ invalidId

/-- The condition on a step. On an endpoint that authenticates its client itself, the
first request does not claim an identity, and passwords are really checked. An endpoint
that forwards is not given a positive verdict that bears the secret. -/
def NoClaimedIdentity (p : Process) : Action → Prop
  | .receive _ h msg =>
    ∀ s m, p.sockets[h]? = some s → s.isReading → msg = .binProtocolNotification m →
      (s.base.forwardRequests = true → m.type = connectResponse → m.result = resultOk →
        ¬bearsSecret p.secretString m.message) ∧
      (s.base.type = .listener → s.base.expectedSecretString = none →
        s.base.forwardRequests = false → s.clientAuthState = .waitConnectionRequest →
        m.type = connectRequest →
        ¬m.ClaimsIdentity ∧ (m.user ≠ none → p.ignoreAuthCalls = false))
  | .accept _ _ _ => True
  | .ack _ => True

variable {s : ProtocolSocket}

theorem IdentityBound.append {log : Log}
    (bound : IdentityBound h s log) (more : Log) : IdentityBound h s (log ++ more) := by
  intro listener open_
  obtain ⟨trusted, challenged, awaits⟩ := bound listener open_
  refine ⟨fun ok => (trusted ok).append more, ?_, awaits⟩
  intro waiting data held
  exact mem_append_left _ (challenged waiting data held)

theorem stable_identityBound : Stable IdentityBound where
  mono := fun bound _ => bound.append _
  keeps := by
    intro h s s' log bound keeps listener open_
    rw [keeps.base] at listener open_
    obtain ⟨trusted, challenged, awaits⟩ := bound listener open_
    refine ⟨?_, ?_, ?_⟩
    · intro ok
      obtain ⟨ok, same⟩ := keeps.trusted ok
      rw [same]
      exact trusted ok
    · intro waiting data held
      obtain ⟨waiting, same, before⟩ := keeps.challenged waiting
      rw [same]
      exact challenged waiting data (before data held)
    · intro waiting
      rw [keeps.base]
      rcases keeps.awaits waiting with waiting | forwards
      · exact awaits waiting
      · exact forwards
  internal := by
    intro h s log internal listener
    exact absurd listener internal

/-- An endpoint without an authenticated or pending client satisfies the invariant. -/
theorem identityBound_of_idle {log : Log}
    (idle : s.clientAuthState = .waitConnectionRequest ∨ s.clientAuthState = .failed) :
    IdentityBound h s log := by
  intro _ _
  rcases idle with state | state
  · rw [state]
    exact ⟨nofun, nofun, nofun⟩
  · rw [state]
    exact ⟨nofun, nofun, nofun⟩

section Authentication

variable {env : Env} {log : Log} {m : BinProtocolNotification}

/-- The record after a reply. -/
def logAfter (log : Log) (h : HandlerId) (r : Reply) : Log :=
  log ++ r.events.map (fun e => (h, e))

theorem identityBound_denyAccess {returnSock : Sock} :
    IdentityBound h (denyAccess env s returnSock).socket log :=
  identityBound_of_idle (.inr rfl)

/-- Access is granted on evidence. -/
theorem identityBound_grantAccess {returnSock : Sock}
    (waiting : s.clientAuthState = .waitConnectionRequest)
    (evidence : Evidence h s.authInfo.uid log) :
    IdentityBound h (grantAccess env s returnSock).socket log := by
  unfold grantAccess
  dsimp only
  split
  · intro _ _
    exact ⟨fun _ => evidence, nofun, nofun⟩
  · exact identityBound_of_idle (.inl waiting)

theorem mem_logAfter {r : Reply} {e : Event} (happened : e ∈ r.events) :
    (h, e) ∈ logAfter log h r :=
  mem_append_right _ (mem_map_of_mem happened)

section

variable (waiting : s.clientAuthState = .waitConnectionRequest)
include waiting

theorem identityBound_explicitCredentials (user : ZString) :
    IdentityBound h (explicitCredentials env false s user m).socket
      (logAfter log h (explicitCredentials env false s user m)) := by
  unfold explicitCredentials
  split
  · split
    · exact identityBound_denyAccess
    · rename_i info _
      dsimp only
      rw [if_neg Bool.false_ne_true]
      have evidence : ∀ r : Reply, Evidence h info.uid
          (logAfter log h (r.after [.passwordAccepted user info.uid])) :=
        fun r => .inl ⟨user, mem_logAfter mem_cons_self⟩
      split
      · refine stable_identityBound.keeps (@identityBound_grantAccess _ { s with authInfo := info }
          env _ m.forwardSock waiting (evidence _)) ?_
        exact .of_fields rfl rfl rfl rfl nofun
      · exact identityBound_grantAccess (s := { s with authInfo := info }) waiting (evidence _)
  · exact identityBound_denyAccess

theorem identityBound_fileChallenge :
    IdentityBound h (fileChallenge env s m).socket
      (logAfter log h (fileChallenge env s m)) := by
  unfold fileChallenge
  dsimp only
  split
  · exact identityBound_denyAccess
  split
  · exact identityBound_denyAccess
  split
  · intro _ _
    refine ⟨nofun, ?_, nofun⟩
    rintro _ data ⟨⟩
    exact mem_logAfter mem_cons_self
  · exact identityBound_of_idle (.inl waiting)

/-- The first request: without a claimed identity, access is granted on evidence only. -/
theorem identityBound_waitingConnectRequest {ignoreAuthCalls : Bool}
    (condition : m.type = connectRequest →
      ¬m.ClaimsIdentity ∧ (m.user ≠ none → ignoreAuthCalls = false)) :
    IdentityBound h (processAuthMessageWaitingConnectRequest env ignoreAuthCalls s m).socket
      (logAfter log h (processAuthMessageWaitingConnectRequest env ignoreAuthCalls s m)) := by
  unfold processAuthMessageWaitingConnectRequest
  split
  · exact identityBound_of_idle (.inl waiting)
  rename_i request
  obtain ⟨unclaimed, checked⟩ := condition (not_not.mp request)
  split
  · rename_i user named
    obtain rfl := checked (by rw [named]; nofun)
    exact identityBound_explicitCredentials waiting user
  rename_i anonymous
  split
  · rename_i named
    split
    · rename_i identity
      exact absurd ⟨anonymous, named, identity⟩ unclaimed
    · exact identityBound_fileChallenge waiting
  · split
    · rename_i info _
      refine identityBound_grantAccess (s := { s with authInfo := info }) waiting ?_
      exact .inr (.inl ⟨info.gid, mem_logAfter mem_cons_self⟩)
    · exact identityBound_fileChallenge waiting

end

/-- The second request: the returned bytes are those of the pending challenge. -/
theorem identityBound_waitingFileData (bound : IdentityBound h s log)
    (waiting : s.clientAuthState = .waitConnectionRequestWithFileData) :
    IdentityBound h (processAuthMessageWaitingConnectRequestFileData env s m).socket
      (logAfter log h (processAuthMessageWaitingConnectRequestFileData env s m)) := by
  unfold processAuthMessageWaitingConnectRequestFileData
  split
  · exact bound.append _
  split
  · exact bound.append _
  rename_i data held
  split
  · rename_i returned
    -- the record is the old one, then the returned bytes, then what was sent
    have evidence : s.base.type = .listener → s.base.expectedSecretString = none →
        ∀ more, Evidence h s.authInfo.uid
          (log ++ (h, .challengeReturned m.authData) :: more) := by
      intro listener open_ more
      refine .inr (.inr ⟨m.authData, log, more, rfl, ?_⟩)
      rw [returned]
      exact (bound listener open_).2.1 waiting data held
    split
    · intro listener open_
      exact ⟨fun _ => evidence listener open_ _, nofun, nofun⟩
    · intro listener open_
      exact ⟨fun _ => evidence listener open_ _, nofun, nofun⟩
  · exact identityBound_denyAccess

/-- Authentication on an endpoint that does not forward. -/
theorem identityBound_processAuthMessage {ignoreAuthCalls : Bool}
    (bound : IdentityBound h s log) (forwards : s.base.forwardRequests = false)
    (condition : s.base.type = .listener → s.base.expectedSecretString = none →
      s.clientAuthState = .waitConnectionRequest → m.type = connectRequest →
      ¬m.ClaimsIdentity ∧ (m.user ≠ none → ignoreAuthCalls = false)) :
    IdentityBound h (processAuthMessage env ignoreAuthCalls s m).socket
      (logAfter log h (processAuthMessage env ignoreAuthCalls s m)) := by
  intro listener open_
  rw [isUnprivileged_processAuthMessage.base] at listener open_
  suffices result : IdentityBound h (processAuthMessage env ignoreAuthCalls s m).socket
      (logAfter log h (processAuthMessage env ignoreAuthCalls s m)) by
    apply result
    · rw [isUnprivileged_processAuthMessage.base]
      exact listener
    · rw [isUnprivileged_processAuthMessage.base]
      exact open_
  unfold processAuthMessage
  split
  · rename_i waiting
    exact identityBound_waitingConnectRequest waiting (condition listener open_ waiting)
  · rename_i waiting
    exact identityBound_waitingFileData bound waiting
  · rename_i waiting
    cases ((bound listener open_).2.2 waiting).symm.trans forwards
  · exact bound.append _
  · exact bound.append _

end Authentication

/-- Under the condition every message is admitted. -/
theorem admits_identityBound {p : Process} {env : Env} {msg : Message}
    (holds : Holds IdentityBound p)
    (condition : NoClaimedIdentity p (.receive env h msg)) (found : p.sockets[h]? = some s)
    (reading : s.isReading) : Admits IdentityBound env p h s msg where
  verified := by
    intro message secret expects _ _ open_
    cases expects.symm.trans open_
  privileged := fun _ events => (holds.each h s found).append _
  authenticated := by
    rintro m rfl forwards
    refine identityBound_processAuthMessage (holds.each h s found) forwards ?_
    intro listener open_
    exact (condition s m found reading rfl).2 listener open_ forwards
  forwarded := by
    rintro m rfl forwards response bears j c bound
    unfold ProtocolSocket.verdict
    split
    · rename_i granted
      exact absurd bears ((condition s m found reading rfl).1 forwards response granted)
    · exact bound

theorem holds_identityBound_step {preexec : Bool} (p : Process) (a : Action) (next : Process)
    (holds : Holds IdentityBound p) (condition : NoClaimedIdentity p a)
    (taken : step preexec p a = some next) : Holds IdentityBound next := by
  refine holds.step stable_identityBound (fun _ _ => identityBound_of_idle (.inl rfl)) ?_ taken
  rintro env h msg s rfl found reading
  exact admits_identityBound holds condition found reading

/-- In every run in which no identity is taken from a message, the uid of an authenticated
client on a listener without a secret was established by a password check, by the peer
credentials of the connection, or by the return of a challenge created for it. -/
theorem identity_bound (preexec : Bool) {start finish : Process} (actions : List Action)
    (initial : start.IsInitial)
    (condition : Along (step preexec) NoClaimedIdentity start actions)
    (ends : run (step preexec) start actions = some finish) {h : HandlerId}
    {s : ProtocolSocket} (found : finish.sockets[h]? = some s)
    (listener : s.base.type = .listener) (open_ : s.base.expectedSecretString = none)
    (authenticated : s.clientAuthState = .ok) : Evidence h s.authInfo.uid finish.log := by
  have holds := invariant_run holds_identityBound_step
    (initial.holds stable_identityBound) condition ends
  exact (holds.each h s found listener open_).1 authenticated

/-! ## Two sessions of a listener without a secret -/

/-- A first request in the name of `uid` that asks for the answer on a descriptor. -/
def claimingRequest (uid : Id) (forwardSock : Sock) : BinProtocolNotification where
  type := connectRequest
  user := none
  password := none
  uid := uid
  gid := uid
  authData := Vector.replicate authRandomDataSize 0
  result := 0
  authFile := none
  forwardSock := forwardSock
  message := none

/-- Surroundings in which the peer of every connection is user 1000. -/
def Env.peer : Env := { Env.plain with getUIDByConnection := fun _ => some ⟨1000, 1000⟩ }

/-- A client that asks for implicit authentication. -/
def peerSession : List Action :=
  [.accept openListener rfl 5,
    .receive Env.peer 0 (.binProtocolNotification (claimingRequest 0 invalidSock))]

theorem identity_bound_peer :
    ∃ finish s, run (step false) Process.init peerSession = some finish ∧
      finish.sockets[0]? = some s ∧ s.clientAuthState = .ok ∧
      Evidence 0 s.authInfo.uid finish.log := by
  refine ⟨_, { serverNew openListener 5 with
    clientAuthState := .ok, authInfo := ⟨1000, 1000⟩ }, rfl, rfl, rfl, ?_⟩
  refine identity_bound false peerSession Process.isInitial_init ?_ rfl
    (s := { serverNew openListener 5 with
      clientAuthState := .ok, authInfo := ⟨1000, 1000⟩ }) rfl rfl rfl rfl
  refine ⟨trivial, ?_⟩
  rintro _ ⟨⟩
  refine ⟨?_, fun _ _ => trivial⟩
  rintro s m ⟨⟩ _ ⟨⟩
  refine ⟨nofun, ?_⟩
  intro _ _ _ _ _
  exact ⟨fun claims => claims.2.1 rfl, fun named => absurd rfl named⟩

/-- The same client names a descriptor and becomes user 0, with nothing on record but the
response that it was sent. -/
theorem claimed_identity_trusted :
    ∃ finish s, run (step false) Process.init
        [.accept openListener rfl 5,
          .receive Env.peer 0 (.binProtocolNotification (claimingRequest 0 7))] = some finish ∧
      finish.sockets[0]? = some s ∧ s.base.type = .listener ∧
      s.base.expectedSecretString = none ∧ s.clientAuthState = .ok ∧
      ¬Evidence 0 s.authInfo.uid finish.log := by
  refine ⟨_, { serverNew openListener 5 with
    clientAuthState := .ok, authInfo := ⟨0, 0⟩ }, rfl, rfl, rfl, rfl, rfl, ?_⟩
  rintro (⟨user, member⟩ | ⟨gid, member⟩ | ⟨bytes, before, after, split, created⟩)
  · cases mem_singleton.mp member
  · cases mem_singleton.mp member
  · cases before with
    | nil => cases created
    | cons x before =>
      have one : 1 = (x :: before ++ (0, .challengeReturned bytes) :: after).length :=
        congrArg length split
      rw [length_append, length_cons, length_cons] at one
      omega

end Omi.Protocol
