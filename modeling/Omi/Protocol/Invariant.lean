import Omi.Protocol.Dispatch

/-!
# Invariants of single endpoints

A security property of the protocol layer speaks about one endpoint and the
record of what happened on it. `Holds I` says that every endpoint of the process
satisfies `I`; `Stable I` collects what `I` must tolerate: growth of the record
by events that grant nothing, and changes of an endpoint that do not raise its
standing. The lemmas below carry such an invariant through every operation of the
dispatch, so that a property only has to treat the transitions it is about.
-/

namespace Omi.Protocol

open List Option

/-- The record of a process. -/
abbrev Log := List (HandlerId × Event)

/-- The effects reserved for the engine: forking an agent, checking a password with PAM,
and giving out the socket file name and the secret. -/
def Event.IsPrivileged : Event → Prop
  | .agentForked _ _ => True
  | .pamChecked _ _ => True
  | .sent (.postSocketFile _) => True
  | _ => False

/-- The endpoint changes without a rise in standing: the engine state is the same, and an
authenticated or challenged client was so before, under the same identity. Only an
endpoint that forwards starts to wait for a response. -/
structure Keeps (s s' : ProtocolSocket) : Prop where
  base : s'.base = s.base
  engine : s'.engineAuthState = s.engineAuthState
  trusted : s'.clientAuthState = .ok → s.clientAuthState = .ok ∧ s'.authInfo = s.authInfo
  challenged : s'.clientAuthState = .waitConnectionRequestWithFileData →
    s.clientAuthState = .waitConnectionRequestWithFileData ∧ s'.authInfo = s.authInfo ∧
      ∀ data, s'.authData = some data → s.authData = some data
  awaits : s'.clientAuthState = .waitConnectionResponse →
    s.clientAuthState = .waitConnectionResponse ∨ s.base.forwardRequests = true

/-- What an endpoint invariant has to tolerate. -/
structure Stable (I : HandlerId → ProtocolSocket → Log → Prop) : Prop where
  mono : ∀ {h s log more}, I h s log →
    (∀ x ∈ more, x.1 = h → ¬x.2.IsPrivileged) → I h s (log ++ more)
  keeps : ∀ {h s s' log}, I h s log → Keeps s s' → I h s' log
  internal : ∀ {h s log}, s.base.type ≠ .listener → I h s log

/-- Every endpoint satisfies the invariant, and only endpoints appear in the record. -/
structure Holds (I : HandlerId → ProtocolSocket → Log → Prop) (p : Process) : Prop where
  bounded : ∀ x ∈ p.log, x.1 < p.sockets.length
  each : ∀ h s, p.sockets[h]? = some s → I h s p.log

/-! ## Changes that keep the standing -/

variable {s s' : ProtocolSocket}

/-- Fields that carry no standing may change freely. -/
theorem Keeps.of_fields (base : s'.base = s.base) (engine : s'.engineAuthState = s.engineAuthState)
    (client : s'.clientAuthState = s.clientAuthState) (info : s'.authInfo = s.authInfo)
    (data : ∀ data, s'.authData = some data → s.authData = some data) : Keeps s s' where
  base := base
  engine := engine
  trusted := fun ok => ⟨client ▸ ok, info⟩
  challenged := fun waiting => ⟨client ▸ waiting, info, data⟩
  awaits := fun waiting => .inl (client ▸ waiting)

theorem Keeps.trans {s'' : ProtocolSocket} (first : Keeps s s') (second : Keeps s' s'') :
    Keeps s s'' where
  base := second.base.trans first.base
  engine := second.engine.trans first.engine
  trusted := by
    intro ok
    obtain ⟨ok', same'⟩ := second.trusted ok
    obtain ⟨ok, same⟩ := first.trusted ok'
    exact ⟨ok, same'.trans same⟩
  challenged := by
    intro waiting
    obtain ⟨waiting', same', held'⟩ := second.challenged waiting
    obtain ⟨waiting, same, held⟩ := first.challenged waiting'
    exact ⟨waiting, same'.trans same, fun data known => held data (held' data known)⟩
  awaits := by
    intro waiting
    rcases second.awaits waiting with waiting' | forwards
    · exact first.awaits waiting'
    · exact .inr (first.base ▸ forwards)

theorem ProtocolSocket.keeps_cleanup (s : ProtocolSocket) : Keeps s s.cleanup := by
  unfold ProtocolSocket.cleanup
  split
  · exact .of_fields rfl rfl rfl rfl (fun _ known => known)
  · exact .of_fields rfl rfl rfl rfl nofun

theorem ProtocolSocket.keeps_closed (s : ProtocolSocket) :
    Keeps s { s.cleanup with registered := false } :=
  s.keeps_cleanup.trans (.of_fields rfl rfl rfl rfl (fun _ known => known))

/-- A client that waits for a response has no standing. -/
theorem Keeps.waiting (forwards : s.base.forwardRequests = true) (base : s'.base = s.base)
    (engine : s'.engineAuthState = s.engineAuthState)
    (client : s'.clientAuthState = .waitConnectionResponse) : Keeps s s' where
  base := base
  engine := engine
  trusted := fun ok => nomatch client.symm.trans ok
  challenged := fun waiting => nomatch client.symm.trans waiting
  awaits := fun _ => .inr forwards

/-- The engine's own connections are not server endpoints. -/
theorem serverConnection_internal (sock : Sock) :
    (serverConnection sock).base.type ≠ .listener := by
  intro same
  cases same

/-! ## Events that grant nothing -/

theorem sendMessage_harmless {env : Env} {m : Message} (h : ∀ f, m ≠ .postSocketFile f) :
    ∀ e ∈ (sendMessage env m).1, ¬e.IsPrivileged := by
  intro e found
  unfold sendMessage at found
  split at found
  · obtain rfl := mem_singleton.mp found
    intro privileged
    cases m with
    | postSocketFile f => exact h f rfl
    | _ => exact privileged
  · cases found

theorem ProtocolSocket.cleanupEvents_harmless (s : ProtocolSocket) :
    ∀ e ∈ s.cleanupEvents, ¬e.IsPrivileged := by
  intro e found
  unfold ProtocolSocket.cleanupEvents at found
  split at found
  · cases found
  · split at found
    · obtain rfl := mem_singleton.mp found
      exact id
    · cases found

theorem ProtocolSocket.refusal_harmless (s : ProtocolSocket) {env : Env} {type : UInt32}
    {message : ZString} {sock : Sock} :
    ∀ e ∈ (sendVerifySocketConnMsg env type message sock).1 ++ s.cleanupEvents,
      ¬e.IsPrivileged :=
  forall_mem_append.mpr ⟨sendMessage_harmless nofun, s.cleanupEvents_harmless⟩

/-! ## Operations on the process -/

variable {q : Process}

namespace Holds

variable {I : HandlerId → ProtocolSocket → Log → Prop} {p : Process} {h : HandlerId}

/-- Only the table and the record matter. -/
theorem congr (holds : Holds I p) (sockets : q.sockets = p.sockets)
    (log : q.log = p.log) : Holds I q where
  bounded := by
    rw [sockets, log]
    exact holds.bounded
  each := by
    rw [sockets, log]
    exact holds.each

theorem trackerAdd (holds : Holds I p) (key : Sock) (value : HandlerId) :
    Holds I (p.trackerAdd key value) :=
  holds.congr rfl rfl

theorem setSocket (holds : Holds I p) (now : I h s p.log) : Holds I (p.setSocket h s) where
  bounded := by
    intro x found
    change x.1 < (p.sockets.set h s).length
    rw [length_set]
    exact holds.bounded x found
  each := by
    intro j t found
    change (p.sockets.set h s)[j]? = some t at found
    by_cases same : h = j
    · subst same
      have inside : h < p.sockets.length := by
        have := (List.getElem?_eq_some_iff.mp found).1
        rwa [length_set] at this
      rw [getElem?_set_self inside] at found
      cases found
      exact now
    · rw [getElem?_set_ne same] at found
      exact holds.each j t found

theorem addSocket (holds : Holds I p) (now : I p.sockets.length s p.log) :
    Holds I (p.addSocket s) where
  bounded := by
    intro x found
    change x.1 < (p.sockets ++ [s]).length
    rw [length_append]
    exact Nat.lt_add_right _ (holds.bounded x found)
  each := by
    intro j t found
    change (p.sockets ++ [s])[j]? = some t at found
    rcases Nat.lt_trichotomy j p.sockets.length with before | rfl | after
    · rw [getElem?_append_left before] at found
      exact holds.each j t found
    · rw [getElem?_concat_length] at found
      cases found
      exact now
    · rw [getElem?_eq_none (by rw [length_append]; exact after)] at found
      cases found

variable {events : List Event}

section

variable (stable : Stable I) (holds : Holds I p)
include stable holds

/-- Events recorded for `h` concern the other endpoints only through `mono`. -/
theorem recordWith (present : h < p.sockets.length)
    (own : ∀ s, p.sockets[h]? = some s → I h s (p.log ++ events.map (fun e => (h, e)))) :
    Holds I (p.record h events) where
  bounded := by
    intro x found
    rcases mem_append.mp found with old | new
    · exact holds.bounded x old
    · obtain ⟨e, -, rfl⟩ := mem_map.mp new
      exact present
  each := by
    intro j t found
    by_cases same : j = h
    · subst same
      exact own t found
    · refine stable.mono (holds.each j t found) ?_
      intro x new mine
      obtain ⟨e, -, rfl⟩ := mem_map.mp new
      exact absurd mine.symm same

theorem record (present : h < p.sockets.length) (harmless : ∀ e ∈ events, ¬e.IsPrivileged) :
    Holds I (p.record h events) := by
  refine holds.recordWith stable present ?_
  intro s found
  refine stable.mono (holds.each h s found) ?_
  intro x new _
  obtain ⟨e, member, rfl⟩ := mem_map.mp new
  exact harmless e member

theorem keep (found : p.sockets[h]? = some s)
    (s' : ProtocolSocket) (keeps : Keeps s s') : Holds I (p.setSocket h s') :=
  holds.setSocket (stable.keeps (holds.each h s found) keeps)

end

theorem present (found : p.sockets[h]? = some s) : h < p.sockets.length :=
  (List.getElem?_eq_some_iff.mp found).1

theorem setSocket_length : (p.setSocket h s).sockets.length = p.sockets.length :=
  length_set

section

variable (stable : Stable I) (holds : Holds I p)
include stable holds

/-- A reply keeps the invariant if its endpoint and its events do. -/
theorem apply (found : p.sockets[h]? = some s)
    {r : Reply} (now : I h r.socket (p.log ++ r.events.map (fun e => (h, e)))) :
    Holds I (p.apply h r) where
  bounded := by
    intro x member
    rcases mem_append.mp member with old | new
    · exact (setSocket_length).symm ▸ holds.bounded x old
    · obtain ⟨e, -, rfl⟩ := mem_map.mp new
      exact (setSocket_length).symm ▸ present found
  each := by
    intro j t member
    change (p.sockets.set h r.socket)[j]? = some t at member
    by_cases same : h = j
    · subst same
      rw [getElem?_set_self (present found)] at member
      cases member
      exact now
    · rw [getElem?_set_ne same] at member
      refine stable.mono (holds.each j t member) ?_
      intro x new mine
      obtain ⟨e, -, rfl⟩ := mem_map.mp new
      exact absurd mine same

/-- What keeps the standing and grants nothing. -/
theorem applyKeep (found : p.sockets[h]? = some s) (keeps : Keeps s s')
    (harmless : ∀ e ∈ events, ¬e.IsPrivileged) : Holds I ((p.setSocket h s').record h events) := by
  refine holds.apply stable found (r := ⟨s', events, true⟩) ?_
  refine stable.mono (stable.keeps (holds.each h s found) keeps) ?_
  intro x new _
  obtain ⟨e, member, rfl⟩ := mem_map.mp new
  exact harmless e member

theorem closeConnection (h : HandlerId) : Holds I (p.closeConnection h) := by
  unfold Process.closeConnection
  cases found : p.sockets[h]? with
  | none => exact holds
  | some s => exact holds.applyKeep stable found s.keeps_closed s.cleanupEvents_harmless

theorem settle (h : HandlerId) (r : CallbackResult) : Holds I (p.settle h r) := by
  cases r with
  | prtContinue | prtReturnTrue => exact holds
  | prtReturnFalse => exact holds.closeConnection stable h

/-! ## Forwarding -/

theorem sendForwarded (found : p.sockets[h]? = some s)
    (forwards : s.base.forwardRequests = true) {new : HandlerId} (opened : new < p.sockets.length)
    (env : Env) (m : BinProtocolNotification) (server : Sock) :
    Holds I (sendForwarded env p h new s m server).1 := by
  have waiting := holds.keep stable found
    { s with engineHandler := some new, clientAuthState := .waitConnectionResponse }
    (.waiting forwards rfl rfl rfl)
  have connected := waiting.setSocket (h := new)
    (s := { serverConnection server with clientAuthState := .waitConnectionResponse })
    (stable.internal (serverConnection_internal server))
  unfold Protocol.sendForwarded
  split
  · exact connected
  · refine (connected.trackerAdd server new).record stable ?_ (sendMessage_harmless nofun)
    change new < ((p.setSocket h _).setSocket new _).sockets.length
    rw [setSocket_length, setSocket_length]
    exact opened

theorem forwardConnectRequest
    (found : p.sockets[h]? = some s) (forwards : s.base.forwardRequests = true) (env : Env)
    (m : BinProtocolNotification) : Holds I (forwardConnectRequest env p h s m).1 := by
  unfold Protocol.forwardConnectRequest
  split
  · exact holds
  have tracked := holds.trackerAdd s.sock h
  split
  · exact tracked
  have batched := tracked.keep stable found { s with engineBatch := true }
    (.of_fields rfl rfl rfl rfl (fun _ known => known))
  dsimp only
  split
  · exact batched
  split
  · exact batched
  rename_i server _
  split
  · exact batched
  -- the new endpoint stands at the end of the table, and the old one keeps its position
  have added := batched.addSocket (s := serverConnection server)
    (stable.internal (serverConnection_internal server))
  have last : ∀ q : Process,
      q.sockets.length < (q.addSocket (serverConnection server)).sockets.length := by
    intro q
    change _ < (q.sockets ++ [_]).length
    rw [length_append]
    exact Nat.lt_succ_self _
  have greeting : ∀ e ∈ (sendVerifySocketConnMsg env verifySocketConnStartup p.secretString
      invalidSock).1, ¬e.IsPrivileged := sendMessage_harmless nofun
  have introduced := added.record stable (last _) greeting
  split
  · refine introduced.sendForwarded stable (s := { s with engineBatch := true }) ?_ forwards (last _)
      env m server
    change (p.sockets.set h _ ++ [_])[h]? = _
    rw [getElem?_append_left (by rw [length_set]; exact present found),
      getElem?_set_self (present found)]
  · exact introduced.closeConnection stable _

end

/-- Removing tracker entries leaves the table and the record alone. -/
theorem untrack_frame (p : Process) (server client : Sock) :
    (untrack p server client).1.sockets = p.sockets ∧ (untrack p server client).1.log = p.log := by
  unfold untrack
  dsimp only
  split
  · exact ⟨rfl, rfl⟩
  · split <;> exact ⟨rfl, rfl⟩

theorem forwardConnectResponse (stable : Stable I) (holds : Holds I p) (env : Env)
    (s : ProtocolSocket) {m : BinProtocolNotification}
    (takes : bearsSecret p.secretString m.message →
      ∀ j c, I j c p.log → I j (c.verdict m) p.log) :
    Holds I (forwardConnectResponse env p s m).1 := by
  unfold Protocol.forwardConnectResponse
  split
  · exact holds
  rename_i bears
  split
  · exact holds
  rename_i client _
  split
  · exact holds
  rename_i newHandler known
  have judged := holds.setSocket
    (takes (not_not.mp bears) client newHandler (holds.each client newHandler known))
  have inside : client < (p.setSocket client (newHandler.verdict m)).sockets.length := by
    rw [setSocket_length]
    exact present known
  dsimp only
  split
  · obtain ⟨sockets, log⟩ :=
      untrack_frame (p.setSocket client (newHandler.verdict m)) s.sock m.forwardSock
    have removed := judged.congr sockets log
    split
    · exact removed
    · refine removed.record stable ?_ (sendMessage_harmless nofun)
      rw [sockets]
      exact inside
  · exact judged.record stable inside (sendMessage_harmless nofun)

end Holds

/-! ## One step -/

/-- The messages that ask for a privileged effect. -/
def Message.IsPrivilegedRequest : Message → Prop
  | .createAgentMsg m => m.type = createAgentMsgRequest
  | .postSocketFile m => m.type = postSocketFileRequest
  | .pamCheckUserReq _ => True
  | _ => False

/-- The transitions that an endpoint invariant has to treat itself: the engine shows the
secret, a privileged request is served, the client authenticates, or the server's verdict
on a client is taken over. -/
structure Admits (I : HandlerId → ProtocolSocket → Log → Prop) (env : Env) (p : Process)
    (h : HandlerId) (s : ProtocolSocket) (msg : Message) : Prop where
  verified : ∀ message secret, s.base.expectedSecretString = some secret →
    strncmpEqual message secret secretStringLength →
    I h { s with engineAuthState := .ok } (p.log ++ [(h, .engineVerified message)])
  privileged : msg.IsPrivilegedRequest →
    ∀ events : List Event, I h s (p.log ++ events.map (fun e => (h, e)))
  authenticated : ∀ m, msg = .binProtocolNotification m → s.base.forwardRequests = false →
    let r := processAuthMessage env p.ignoreAuthCalls s m
    I h r.socket (p.log ++ r.events.map (fun e => (h, e)))
  forwarded : ∀ m, msg = .binProtocolNotification m → s.base.forwardRequests = true →
    m.type = connectResponse → bearsSecret p.secretString m.message →
    ∀ j c, I j c p.log → I j (c.verdict m) p.log

section Step

variable {I : HandlerId → ProtocolSocket → Log → Prop} {p : Process} {h : HandlerId} {env : Env}
  {msg : Message}

section

variable (stable : Stable I) (holds : Holds I p)
include stable holds

section

variable (found : p.sockets[h]? = some s)
include found

theorem Holds.deliver
    (msg : Message) : Holds I (deliver p h s msg).1 := by
  exact holds.applyKeep stable found (.of_fields rfl rfl rfl rfl (fun _ known => known))
    (forall_mem_singleton.mpr id)

theorem Holds.refuseNotification
    (env : Env) (m : BinProtocolNotification) :
    Holds I (refuseNotification env p h s m).1 :=
  holds.applyKeep stable found s.keeps_cleanup s.refusal_harmless

theorem Holds.processEngineAuthMessage {m : PostSocketFile}
    (admits : Admits I env p h s (.postSocketFile m)) {accepted : Bool}
    (processed : processEngineAuthMessage env p h s m = some (q, accepted)) : Holds I q := by
  unfold Protocol.processEngineAuthMessage at processed
  split at processed
  · rename_i request
    have marked : Holds I { p with permanentSocket := some h } := holds.congr rfl rfl
    split at processed
    · cases processed
      refine marked.recordWith stable (Holds.present found) ?_
      intro t same
      cases found.symm.trans same
      exact admits.privileged request _
    · cases processed
      exact marked
  split at processed
  · split at processed
    · cases processed
      exact holds
    split at processed
    · cases processed
      exact holds
    split at processed
    · cases processed
    · cases processed
      exact holds.congr rfl rfl
  · cases processed
    exact holds

section

variable (admits : Admits I env p h s msg)
include admits

theorem Holds.processClientMessage : Holds I (processClientMessage env p h s msg).1 := by
  unfold Protocol.processClientMessage
  split
  · rename_i m
    split
    · exact holds.refuseNotification stable found env m
    split
    · unfold processNotification
      split
      · rename_i forwards
        split
        · exact holds.forwardConnectRequest stable found forwards env m
        split
        · rename_i response
          exact holds.forwardConnectResponse stable env s
            (admits.forwarded m rfl forwards response)
        · exact holds
      · rename_i forwards
        exact holds.apply stable found (admits.authenticated m rfl (by simpa using forwards))
    · exact holds.deliver stable found _
  · split
    · exact holds
    · exact holds.deliver stable found _

theorem Holds.processVerifySocketConnMessage {m : VerifySocketConn}
    {r : Reply} (processed : processVerifySocketConnMessage env s m = some r) :
    Holds I (p.apply h r) := by
  unfold Protocol.processVerifySocketConnMessage at processed
  split at processed
  · split at processed
    · rename_i message secret _ known
      split at processed
      · rename_i equal
        cases processed
        exact holds.apply stable found (admits.verified message secret known equal)
      · cases processed
        exact holds.applyKeep stable found s.keeps_cleanup s.refusal_harmless
    · cases processed
  split at processed
  · cases processed
    have moved : Keeps s { s with sock := m.sock } :=
      .of_fields rfl rfl rfl rfl (fun _ known => known)
    exact holds.applyKeep stable found (moved.trans (ProtocolSocket.keeps_cleanup _))
      (ProtocolSocket.cleanupEvents_harmless _)
  · cases processed
    exact holds.applyKeep stable found (.of_fields rfl rfl rfl rfl (fun _ known => known))
      nofun

/-- A handler that leaves its endpoint alone and acts only on a privileged request. -/
theorem Holds.applySame {r : Reply}
    (same : r.socket = s) (quiet : ¬msg.IsPrivilegedRequest → r.events = []) :
    Holds I (p.apply h r) := by
  refine holds.apply stable found ?_
  rw [same]
  by_cases privileged : msg.IsPrivilegedRequest
  · exact admits.privileged privileged _
  · rw [quiet privileged, map_nil, append_nil]
    exact holds.each h s found

theorem Holds.processReceivedMessage {preexec : Bool} {result : CallbackResult}
    (processed : processReceivedMessage preexec env p h s msg = some (q, result)) :
    Holds I q := by
  have client (same : Protocol.processClientMessage env p h s msg = (q, result)) : Holds I q := by
    have inner := holds.processClientMessage stable found admits
    rwa [same] at inner
  cases msg with
  | postSocketFile m =>
    obtain ⟨⟨q', accepted⟩, inner, same⟩ := map_eq_some_iff.mp processed
    cases same
    exact holds.processEngineAuthMessage stable found admits inner
  | verifySocketConn m =>
    obtain ⟨r, inner, same⟩ := map_eq_some_iff.mp processed
    cases same
    exact holds.processVerifySocketConnMessage stable found admits inner
  | createAgentMsg m =>
    cases processed
    refine holds.applySame stable found admits ?_ ?_
    · unfold processCreateAgentMsg
      repeat' split
      all_goals rfl
    · intro ordinary
      change ¬m.type = createAgentMsgRequest at ordinary
      unfold processCreateAgentMsg
      rw [if_neg ordinary]
      split <;> rfl
  | pamCheckUserReq m =>
    cases processed
    exact holds.applySame stable found admits rfl (fun ordinary => absurd trivial ordinary)
  | pamCheckUserResp m =>
    cases processed
    refine holds.applySame stable found admits ?_ ?_
    · unfold processPamCheckUserResp
      split <;> rfl
    · intro _
      unfold processPamCheckUserResp
      split <;> rfl
  | execPreexecResp context =>
    cases preexec with
    | true =>
      cases processed
      exact holds.record stable (Holds.present found) (forall_mem_singleton.mpr id)
    | false => exact client (Option.some.inj processed)
  | binProtocolNotification m | other tag unhandled =>
    exact client (Option.some.inj processed)

end

end

/-- The step rule: an invariant that new endpoints satisfy and that admits every message
is kept. -/
theorem Holds.step {preexec : Bool} {a : Action} {next : Process}
    (fresh : ∀ base sock, I p.sockets.length (serverNew base sock) p.log)
    (admits : ∀ env h msg s, a = .receive env h msg → p.sockets[h]? = some s →
      s.isReading → Admits I env p h s msg)
    (taken : step preexec p a = some next) : Holds I next := by
  cases a with
  | accept base isListener sock =>
    cases taken
    exact holds.addSocket (fresh base sock)
  | ack h =>
    simp only [Protocol.step] at taken
    split at taken
    · cases taken
      exact holds
    · rename_i s found
      cases taken
      exact holds.keep stable found _ (.of_fields rfl rfl rfl rfl (fun _ known => known))
  | receive env h msg =>
    simp only [Protocol.step] at taken
    split at taken
    · cases taken
      exact holds
    rename_i s found
    split at taken
    · rename_i reading
      obtain ⟨⟨q, result⟩, inner, same⟩ := map_eq_some_iff.mp taken
      cases same
      exact (holds.processReceivedMessage stable found
        (admits env h msg s rfl found reading) inner).settle stable h result
    · cases taken
      exact holds

end

end Step

end Omi.Protocol
