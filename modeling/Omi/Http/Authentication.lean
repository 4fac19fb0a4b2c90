import Omi.Http.History

/-!
# Requests are handed on only after authentication

A request is handed on under an identity only when the latest request with an
`Authorization` header was authenticated, looked up and authorised with this
identity. The proof follows a request through the source: every exit of
`IsClientAuthorized` yields a sound verdict, every verdict is carried out by
`_ReadData` or by the callback, and an invariant connects one event with the
next.

Two gaps are excluded by a condition on the events. An exchange that the GSS
library wants to continue, but for which it has no token to send, is treated as
complete. And the server's answer is applied to whatever request the socket
holds, which is another one if reading resumed while the first request was
waiting.
-/

namespace Omi.Http

open List Option Connection SocketData Verdict
open Omi.Protocol (AuthInfo)

/-! ## Verdicts -/

theorem Stage.after_append (stage : Stage) (first second : List Call) :
    stage.after (first ++ second) = (stage.after first).after second :=
  foldl_append

/-- What a verdict about a request has to guarantee, when the socket is in the given state
and not authorised. -/
structure Verdict.Sound (state : RecvState) (v : Verdict) : Prop where
  allowed : v.socket.isAuthorised = true →
    ∃ user, Stage.started.after v.calls = .allowed user v.socket.authInfo
  continues : ∀ call ∈ v.calls, call.continues = true → v.socket.isAuthorised = false
  waits : v.result = .continue → v.calls = [] ∧ v.socket.isAuthorised = false
  recvingState_eq : v.socket.recvingState = state

variable {v : Verdict}

/-- A verdict that authorises nothing and does not wait. -/
theorem Verdict.sound_of_unauthorised {state : RecvState}
    (unauthorised : v.socket.isAuthorised = false) (ends : v.result ≠ .continue)
    (same : v.socket.recvingState = state) : v.Sound state where
  allowed := fun authorised => absurd authorised (by rw [unauthorised]; decide)
  continues := fun _ _ _ => unauthorised
  waits := fun waiting => absurd waiting ends
  recvingState_eq := same

variable {h : SocketData} {calls : Calls} {user authorization : ZString} {e : Effect}
  {c : Connection}

/-- An exit for a user who passed both checks: it makes no further call and keeps the
identity. -/
structure Grants (allowed : SocketData → Verdict) : Prop where
  calls_nil : ∀ h, (allowed h).calls = []
  ends : ∀ h, (allowed h).result ≠ .continue
  authInfo_eq : ∀ h, (allowed h).socket.authInfo = h.authInfo
  recvingState_eq : ∀ h, (allowed h).socket.recvingState = h.recvingState

theorem grants_authorise : Grants authorise where
  calls_nil := fun _ => rfl
  ends := fun _ => nofun
  authInfo_eq := fun _ => rfl
  recvingState_eq := fun _ => rfl

/-- A token is sent without any call, and it leaves the request where it was. -/
structure Sends (h : SocketData) (v : Verdict) : Prop where
  calls_nil : v.calls = []
  result_eq : v.result = .returnFalse
  isAuthorised_eq : v.socket.isAuthorised = h.isAuthorised
  authInfo_eq : v.socket.authInfo = h.authInfo
  recvingState_eq : v.socket.recvingState = h.recvingState

theorem sends_sendToken (calls : Calls) (h : SocketData) (code : Nat) :
    Sends h (sendToken calls h code) := by
  unfold sendToken
  split <;> exact ⟨rfl, rfl, rfl, rfl, rfl⟩

theorem gssAuthorise_spec (calls : Calls) (h : SocketData) :
    (gssAuthorise calls h).calls = [] ∧ (gssAuthorise calls h).result ≠ .continue ∧
      (gssAuthorise calls h).socket.authInfo = h.authInfo ∧
      (gssAuthorise calls h).socket.recvingState = h.recvingState := by
  unfold gssAuthorise
  simp only
  split_ifs
  · have sent := sends_sendToken calls { h with isAuthorised := true } httpErrorCodeOk
    exact ⟨sent.calls_nil, sent.result_eq ▸ nofun, sent.authInfo_eq, sent.recvingState_eq⟩
  all_goals exact ⟨rfl, nofun, rfl, rfl⟩

theorem grants_gssAuthorise (calls : Calls) : Grants (gssAuthorise calls) where
  calls_nil h := (gssAuthorise_spec calls h).1
  ends h := (gssAuthorise_spec calls h).2.1
  authInfo_eq h := (gssAuthorise_spec calls h).2.2.1
  recvingState_eq h := (gssAuthorise_spec calls h).2.2.2

variable {allowed : SocketData → Verdict}

/-- After a completed authentication the two checks of the user carry the request to
`allowed`, or access is denied. -/
theorem checkUser_sound (made : List Call) (unauthorised : h.isAuthorised = false)
    (grants : Grants allowed) (complete : Stage.started.after made = .authenticated)
    (ended : ∀ call ∈ made, call.continues = false) :
    ((checkUser calls h user allowed).after made).Sound h.recvingState := by
  unfold checkUser
  cases found : calls.lookupUser user with
  | none => exact Verdict.sound_of_unauthorised unauthorised nofun rfl
  | some info =>
    by_cases authorised : calls.isUserAuthorized user info.gid = 1
    · simp only [authorised, if_true]
      have trace : (((allowed { h with authInfo := info }).after
          [.lookup user (some info), .authorised user true]).after made).calls =
          made ++ [.lookup user (some info), .authorised user true] := by
        simp only [Verdict.after, grants.calls_nil, append_nil]
      refine ⟨?_, ?_, ?_, ?_⟩
      · intro _
        refine ⟨user, ?_⟩
        rw [trace, Stage.after_append, complete]
        simp only [Verdict.after, grants.authInfo_eq]
        simp [Stage.after, Stage.next]
      · intro call member continues
        rw [trace, mem_append] at member
        rcases member with earlier | checks
        · rw [ended call earlier] at continues
          cases continues
        · simp only [mem_cons, not_mem_nil, or_false] at checks
          rcases checks with rfl | rfl <;> cases continues
      · exact fun waiting => absurd waiting (grants.ends _)
      · exact grants.recvingState_eq _
    · simp only [authorised, if_false]
      exact Verdict.sound_of_unauthorised unauthorised nofun rfl

/-- With the plain exit, the returned value tells whether the connection is authorised. -/
theorem checkUser_authorise_returnTrue
    (returned : (checkUser calls h user authorise).result = .returnTrue) :
    (checkUser calls h user authorise).socket.isAuthorised = true := by
  unfold checkUser at returned ⊢
  split at returned
  · cases returned
  split at returned
  · rename_i authorised
    rw [if_pos authorised]
    rfl
  · cases returned

/-- A user who fails one of the checks is refused. -/
theorem checkUser_unauthorised (made : List Call) (unauthorised : h.isAuthorised = false)
    (denied : calls.allows user = false) :
    ((checkUser calls h user allowed).after made).Sound h.recvingState := by
  unfold checkUser
  unfold Calls.allows at denied
  cases found : calls.lookupUser user with
  | none => exact sound_of_unauthorised unauthorised nofun rfl
  | some info =>
    simp only [found, decide_eq_false_iff_not] at denied
    simp only [denied, if_false]
    exact sound_of_unauthorised unauthorised nofun rfl

section

variable (unauthorised : h.isAuthorised = false)
include unauthorised

theorem SocketData.refuse_after_sound (httpErrorCode : Nat)
    (made : List Call) : ((h.refuse httpErrorCode).after made).Sound h.recvingState :=
  sound_of_unauthorised unauthorised nofun rfl

theorem SocketData.refuse_sound (httpErrorCode : Nat) :
    (h.refuse httpErrorCode).Sound h.recvingState :=
  sound_of_unauthorised unauthorised nofun rfl

theorem basicAuthorized_sound : (basicAuthorized calls h).Sound h.recvingState := by
  have accepted : ∀ user, ((checkUser calls { h with httpAuthType := .basic } user
      authorise).after [.password true]).Sound h.recvingState := fun user =>
    checkUser_sound (h := { h with httpAuthType := .basic }) [.password true] unauthorised
      grants_authorise rfl (forall_mem_singleton.mpr rfl)
  unfold basicAuthorized
  simp only
  split
  · rename_i user password _ _
    split_ifs
    · exact refuse_after_sound (h := { h with httpAuthType := .basic })
        unauthorised _ _
    · exact accepted user
    · exact refuse_sound
        (h := { h with httpAuthType := .basic, selectorRead := false }) unauthorised _
    · exact ⟨fun authorised => absurd (unauthorised.symm.trans authorised) nofun, nofun,
        fun _ => ⟨rfl, unauthorised⟩, rfl⟩
    · exact accepted user
  · exact refuse_sound (h := { h with httpAuthType := .basic }) unauthorised _

theorem gssRejected_sound (majStat : UInt32)
    (made : List Call) : ((gssRejected h majStat).after made).Sound h.recvingState := by
  unfold gssRejected
  split_ifs
  · exact refuse_after_sound unauthorised _ _
  · exact sound_of_unauthorised unauthorised nofun rfl

end

section

variable (unauthorised : h.isAuthorised = false)
  (vocal : calls.continuesSilently = true → calls.allowsPrincipal = false)
include unauthorised vocal

theorem gssAccepted_sound (taken : gssAccepted calls h = some v) :
    (v.after [.accept calls.gssAcceptSecContext.majStat]).Sound h.recvingState := by
  unfold gssAccepted at taken
  simp only at taken
  split_ifs at taken with complete failed continues token
  · obtain ⟨principal, named, rfl⟩ := map_eq_some_iff.mp taken
    refine checkUser_sound _ unauthorised (grants_gssAuthorise calls) ?_ ?_
    · simp [Stage.after, Stage.next, complete]
    · simp [Call.continues, complete, gssComplete]
  · cases taken
    exact gssRejected_sound unauthorised _ _
  · cases taken
    refine sound_of_unauthorised ?_ ?_ ?_
    · exact (sends_sendToken _ _ _).isAuthorised_eq.trans unauthorised
    · change (sendToken _ _ _).result ≠ _
      rw [(sends_sendToken _ _ _).result_eq]
      nofun
    · exact (sends_sendToken _ _ _).recvingState_eq
  · obtain ⟨principal, named, rfl⟩ := map_eq_some_iff.mp taken
    have denied := vocal (by simp_all [Calls.continuesSilently])
    rw [Calls.allowsPrincipal, named] at denied
    exact checkUser_unauthorised (h := { h with httpErrorCode := httpErrorCodeUnauthorized })
      _ unauthorised denied
  · cases taken
    exact sound_of_unauthorised unauthorised nofun rfl

theorem gssAuthorized_sound
    (taken : gssAuthorized calls h authorization = some v) : v.Sound h.recvingState := by
  unfold gssAuthorized at taken
  split at taken
  · cases taken
    exact sound_of_unauthorised unauthorised nofun rfl
  split at taken
  · cases taken
    exact refuse_sound unauthorised _
  rename_i method _
  have refused := fun code =>
    refuse_sound (h := { h with httpAuthType := method }) unauthorised code
  simp only at taken
  split at taken
  · cases taken
    exact refused _
  split at taken
  · cases taken
    exact refused _
  · obtain ⟨inner, accepted, rfl⟩ := map_eq_some_iff.mp taken
    exact gssAccepted_sound (h := { h with httpAuthType := method }) unauthorised vocal
      accepted

end

/-- `IsClientAuthorized` authorises a connection only for a user who was authenticated,
looked up and authorised on the way. -/
theorem isClientAuthorized_sound (given : h.recvHeaders.authorization = some authorization)
    (unauthorised : h.isAuthorised = false)
    (vocal : h.usesGss = true → calls.continuesSilently = true → calls.allowsPrincipal = false)
    (taken : isClientAuthorized false calls h authorization = some v) : v.Sound h.recvingState := by
  rw [isClientAuthorized, if_neg Bool.false_ne_true] at taken
  split at taken
  · cases taken
    exact basicAuthorized_sound unauthorised
  · rename_i other
    refine gssAuthorized_sound unauthorised (vocal ?_) taken
    simp only [usesGss, given]
    simpa using other

/-! ## Effects -/

/-- What the handling of a request that asks for authentication has to guarantee. -/
structure Effect.Sound (e : Effect) : Prop where
  attached : ∀ info ∈ e.handed, e.socket.isAuthorised = true ∧ e.socket.authInfo = info
  allowed : e.socket.isAuthorised = true →
    ∃ user, Stage.started.after e.calls = .allowed user e.socket.authInfo
  continues : ∀ call ∈ e.calls, call.continues = true → e.socket.isAuthorised = false

/-- What `handOn` does to the socket, and under which identity it hands the request on. -/
structure Effect.Passes (e : Effect) (h : SocketData) (made : List Call) : Prop where
  isAuthorised_eq : e.socket.isAuthorised = h.isAuthorised
  authInfo_eq : e.socket.authInfo = h.authInfo
  recvingState_eq : e.socket.recvingState = .header
  calls_eq : e.calls = made
  asked_eq : e.asked = false
  attached : ∀ info ∈ e.handed, e.socket.isAuthorised = true ∧ e.socket.authInfo = info

theorem processAuthorizedMessage_eq {next : SocketData} {info : AuthInfo}
    (taken : processAuthorizedMessage calls h = some (next, info)) :
    next = { h with requestIsBeingProcessed := true } ∧ info = h.authInfo := by
  unfold processAuthorizedMessage at taken
  split at taken
  · cases taken
    exact ⟨rfl, rfl⟩
  · cases taken

theorem handOn_passes {response : Option AuthResponse} {made : List Call}
    (taken : handOn calls h response made = some e) : e.Passes h made := by
  unfold handOn at taken
  split at taken
  · rename_i authorised
    obtain ⟨⟨next, info⟩, processed, rfl⟩ := map_eq_some_iff.mp taken
    obtain ⟨rfl, rfl⟩ := processAuthorizedMessage_eq processed
    refine ⟨rfl, rfl, rfl, rfl, rfl, ?_⟩
    rintro _ ⟨⟩
    exact ⟨authorised, rfl⟩
  · cases taken
    exact ⟨rfl, rfl, rfl, rfl, rfl, nofun⟩

/-- A verdict that is carried out as it stands. -/
theorem Verdict.Sound.effect {state : RecvState} (sound : v.Sound state)
    (isAuthorised_eq : e.socket.isAuthorised = v.socket.isAuthorised)
    (authInfo_eq : e.socket.authInfo = v.socket.authInfo) (calls_eq : e.calls = v.calls)
    (attached : ∀ info ∈ e.handed, e.socket.isAuthorised = true ∧ e.socket.authInfo = info) :
    e.Sound where
  attached := attached
  allowed := fun authorised => by
    rw [calls_eq, authInfo_eq]
    exact sound.allowed (isAuthorised_eq.symm.trans authorised)
  continues := fun call member continues =>
    isAuthorised_eq.trans (sound.continues call (calls_eq ▸ member) continues)

theorem SocketData.reset_isAuthorised (h : SocketData) : h.reset.isAuthorised = false := by
  unfold reset
  split
  · rfl
  · rename_i unauthorised
    exact Bool.eq_false_iff.mpr unauthorised

theorem SocketData.reset_recvHeaders : h.reset.recvHeaders = h.recvHeaders := by
  unfold reset
  split <;> rfl

/-- A request with an `Authorization` header: it has ended afterwards, or it waits for the
server and the connection is not authorised. -/
theorem readData_authorization (given : h.recvHeaders.authorization = some authorization)
    (vocal : h.usesGss = true → calls.continuesSilently = true → calls.allowsPrincipal = false)
    (taken : readData false calls h = some e) :
    e.Sound ∧ (e.socket.recvingState = .header ∧ e.asked = false ∨
      e.calls = [] ∧ e.socket.isAuthorised = false) := by
  rw [readData, given] at taken
  obtain ⟨v, judged, taken⟩ := bind_eq_some_iff.mp taken
  have sound : v.Sound h.reset.recvingState := by
    refine isClientAuthorized_sound ?_ h.reset_isAuthorised ?_ judged
    · rw [reset_recvHeaders, given]
    · rw [usesGss, reset_recvHeaders]
      exact vocal
  cases result : v.result with
  | returnFalse =>
    rw [result] at taken
    cases taken
    exact ⟨sound.effect rfl rfl rfl nofun, .inl ⟨rfl, rfl⟩⟩
  | «continue» =>
    rw [result] at taken
    cases taken
    exact ⟨sound.effect rfl rfl rfl nofun, .inr (sound.waits result)⟩
  | returnTrue =>
    rw [result] at taken
    have passes := handOn_passes taken
    exact ⟨sound.effect passes.isAuthorised_eq passes.authInfo_eq passes.calls_eq
      passes.attached, .inl ⟨passes.recvingState_eq, passes.asked_eq⟩⟩

/-- An answer that reaches the request it belongs to: the request has ended afterwards, or the
link to the server is closed. -/
theorem serverAuthenticateCallback_sound {result ok : Bool} (unauthorised : h.isAuthorised = false)
    (taken : serverAuthenticateCallback calls h result = some (e, ok)) :
    e.Sound ∧ (e.socket.recvingState = .header ∨ ok = false) := by
  unfold serverAuthenticateCallback at taken
  split at taken
  · cases taken
    have sound := refuse_after_sound unauthorised httpErrorCodeUnauthorized
      [.password false]
    exact ⟨sound.effect rfl rfl rfl nofun, .inl rfl⟩
  obtain ⟨user, named, taken⟩ := map_eq_some_iff.mp taken
  have sound : ((checkUser calls h user authorise).after [.password true]).Sound
      h.recvingState :=
    checkUser_sound [.password true] unauthorised grants_authorise rfl
      (forall_mem_singleton.mpr rfl)
  simp only at taken
  split at taken
  · rename_i returned
    split at taken
    · rename_i next info processed
      obtain ⟨rfl, rfl⟩ := processAuthorizedMessage_eq processed
      cases taken
      refine ⟨sound.effect rfl rfl rfl ?_, .inl rfl⟩
      rintro _ ⟨⟩
      exact ⟨checkUser_authorise_returnTrue returned, rfl⟩
    · cases taken
      exact ⟨sound.effect rfl rfl rfl nofun, .inr rfl⟩
  · cases taken
    exact ⟨sound.effect rfl rfl rfl nofun, .inl rfl⟩

/-! ## Whole connections -/

/-- Between requests an authorised connection carries the identity of the latest request
that asked for authentication; while a request waits for the server, the connection is not
authorised. -/
structure Connection.Fine (c : Connection) : Prop where
  settled : c.socket.recvingState = .header ∨ c.socket.recvHeaders.authorization = none →
    c.socket.isAuthorised = true → c.granted = some c.socket.authInfo
  waiting : c.socket.recvingState = .content → c.requests ∈ c.asks →
    c.socket.isAuthorised = false ∧ c.latest = some (c.requests, .started)
  numbered : ∀ request ∈ c.asks, request ≤ c.requests

theorem Connection.new_fine : new.Fine where
  settled := nofun
  waiting := nofun
  numbered := nofun

/-- What handling a request leaves behind is rightful if the request is the latest one that
asked for authentication. -/
theorem Effect.Sound.rightful (sound : e.Sound) {number : Nat} (socket_eq : c.socket = e.socket)
    (handed_eq : c.handed = e.handed) (calls_eq : c.calls = e.calls)
    (latest_eq : c.latest = some (number, Stage.started.after e.calls)) :
    c.Rightful ∧ (c.socket.isAuthorised = true → c.granted = some c.socket.authInfo) := by
  have granted : c.socket.isAuthorised = true → c.granted = some c.socket.authInfo := by
    intro authorised
    rw [socket_eq] at authorised ⊢
    obtain ⟨user, allowed⟩ := sound.allowed authorised
    rw [granted, latest_eq, allowed]
  refine ⟨⟨?_, ?_⟩, granted⟩
  · intro info handed
    rw [handed_eq] at handed
    obtain ⟨authorised, attached⟩ := sound.attached info handed
    rw [granted (socket_eq ▸ authorised), socket_eq, attached]
  · rw [calls_eq, socket_eq]
    exact sound.continues

section

variable (fine : c.Fine)
include fine

theorem Connection.receive_fine (headers : HttpHeaders)
    (idle : c.socket.recvingState = .header) : (c.receive headers).Fine where
  settled := by
    rintro (reading | absent) authorised
    · cases reading
    · have same : (c.receive headers).granted = c.granted := by
        change headers.authorization = none at absent
        simp only [granted, receive, absent]
        rfl
      rw [same]
      exact fine.settled (.inl idle) authorised
  waiting := by
    intro _ asked
    have early : c.requests + 1 ≤ c.requests := fine.numbered _ asked
    exact absurd early (Nat.not_succ_le_self _)
  numbered := fun request asked => Nat.le_succ_of_le (fine.numbered request asked)

/-- A socket change that touches neither the request nor the authorisation. -/
theorem Connection.quiet_fine {socket : SocketData}
    (isAuthorised_eq : socket.isAuthorised = c.socket.isAuthorised)
    (authInfo_eq : socket.authInfo = c.socket.authInfo)
    (recvingState_eq : socket.recvingState = c.socket.recvingState)
    (recvHeaders_eq : socket.recvHeaders = c.socket.recvHeaders) : (c.quiet socket).Fine where
  settled := by
    intro free authorised
    change c.granted = some socket.authInfo
    change socket.recvingState = .header ∨ socket.recvHeaders.authorization = none at free
    rw [recvingState_eq, recvHeaders_eq] at free
    rw [authInfo_eq]
    exact fine.settled free (isAuthorised_eq.symm.trans authorised)
  waiting := by
    intro reading asked
    obtain ⟨unauthorised, started⟩ := fine.waiting (recvingState_eq.symm.trans reading) asked
    exact ⟨isAuthorised_eq.trans unauthorised, started⟩
  numbered := fine.numbered

/-- Reading the content of a request that asks for authentication. -/
theorem Connection.examine_authorization
    (asks : c.socket.recvHeaders.authorization.isSome) (vocal : Orderly c (.content calls))
    (taken : readData false calls c.socket = some e) :
    (c.examine e).Fine ∧ (c.examine e).Rightful := by
  obtain ⟨authorization, given⟩ := isSome_iff_exists.mp asks
  obtain ⟨sound, ended⟩ := readData_authorization given vocal taken
  have latest_eq : (c.examine e).latest = some (c.requests, Stage.started.after e.calls) :=
    if_pos asks
  obtain ⟨rightful, granted⟩ := sound.rightful (c := c.examine e) rfl rfl rfl latest_eq
  refine ⟨⟨fun _ => granted, ?_, ?_⟩, rightful⟩
  · intro reading asked
    rcases ended with ⟨idle, _⟩ | ⟨none, unauthorised⟩
    · cases idle.symm.trans reading
    · refine ⟨unauthorised, ?_⟩
      rw [latest_eq, none]
      rfl
  · intro request asked
    change request ∈ (if e.asked then c.asks ++ [c.requests] else c.asks) at asked
    change request ≤ c.requests
    split at asked
    · rcases mem_append.mp asked with earlier | now
      · exact fine.numbered request earlier
      · exact Nat.le_of_eq (mem_singleton.mp now)
    · exact fine.numbered request asked

/-- Reading the content of a request that relies on an earlier authentication. -/
theorem Connection.examine_plain (plain : c.socket.recvHeaders.authorization = none)
    (taken : readData false calls c.socket = some e) :
    (c.examine e).Fine ∧ (c.examine e).Rightful := by
  rw [readData, plain] at taken
  simp only at taken
  split at taken
  · cases taken
  · have passes := handOn_passes taken
    have granted : (c.examine e).socket.isAuthorised = true →
        (c.examine e).granted = some (c.examine e).socket.authInfo := by
      intro authorised
      have same : (c.examine e).granted = c.granted := by
        simp only [granted, examine, plain]
        rfl
      rw [same]
      change c.granted = some e.socket.authInfo
      rw [passes.authInfo_eq]
      exact fine.settled (.inr plain) (passes.isAuthorised_eq.symm.trans authorised)
    refine ⟨⟨fun _ => granted, ?_, ?_⟩, ?_, ?_⟩
    · intro reading
      cases passes.recvingState_eq.symm.trans reading
    · intro request asked
      simp only [examine, passes.asked_eq, Bool.false_eq_true, if_false] at asked
      exact fine.numbered request asked
    · intro info handed
      obtain ⟨authorised, attached⟩ := passes.attached info handed
      exact (granted authorised).trans (congrArg some attached)
    · intro call member
      rw [show (c.examine e).calls = [] from passes.calls_eq] at member
      cases member

/-- An answer of the server about the request that the socket holds. -/
theorem Connection.hear_fine {check : Nat} {result ok : Bool}
    (reading : c.socket.recvingState = .content) (asked : c.asks[check]? = some c.requests)
    (taken : serverAuthenticateCallback calls c.socket result = some (e, ok)) :
    (c.hear check c.requests e ok).Fine ∧ (c.hear check c.requests e ok).Rightful := by
  obtain ⟨unauthorised, started⟩ := fine.waiting reading (mem_of_getElem? asked)
  obtain ⟨sound, ended⟩ := serverAuthenticateCallback_sound unauthorised taken
  have latest_eq : (c.hear check c.requests e ok).latest =
      some (c.requests, Stage.started.after e.calls) := by
    simp only [hear, started, map_some, if_true]
  obtain ⟨rightful, granted⟩ :=
    sound.rightful (c := c.hear check c.requests e ok) rfl rfl rfl latest_eq
  refine ⟨⟨fun _ => granted, ?_, ?_⟩, rightful⟩
  · intro still left
    rcases ended with idle | rfl
    · cases idle.symm.trans still
    · cases left
  · intro request left
    cases ok with
    | false => cases left
    | true => exact fine.numbered request (mem_of_mem_eraseIdx left)

theorem step_fine {next : Connection} {e : Event} (orderly : Orderly c e)
    (taken : step false c e = some next) : next.Fine ∧ next.Rightful := by
  cases e with
  | header headers =>
    simp only [step] at taken
    split at taken
    · rename_i guard
      cases taken
      exact ⟨c.receive_fine fine headers guard.2, nofun, nofun⟩
    · cases taken
  | content calls =>
    simp only [step] at taken
    split at taken
    · obtain ⟨effect, read, rfl⟩ := map_eq_some_iff.mp taken
      cases given : c.socket.recvHeaders.authorization with
      | none => exact examine_plain fine given read
      | some authorization =>
        exact examine_authorization fine (isSome_of_eq_some given)
          orderly read
    · cases taken
  | answer check result calls =>
    obtain ⟨reading, asked⟩ := orderly
    obtain ⟨request, found, taken⟩ := bind_eq_some_iff.mp taken
    cases asked.symm.trans found
    obtain ⟨⟨effect, ok⟩, heard, rfl⟩ := map_eq_some_iff.mp taken
    exact hear_fine fine reading asked heard
  | respond code | written =>
    cases taken
    exact ⟨quiet_fine fine rfl rfl rfl rfl, nofun, nofun⟩

end

/-- Along every orderly run of a connection, a request is handed on only under the identity
of the latest request with an `Authorization` header, which was authenticated, looked up and
authorised; and an exchange that needs to continue never authorises the connection. -/
theorem handed_on_when_authorised (events : List Event)
    (orderly : Run.Along (step false) Orderly Connection.new events) :
    Run.Along (step false) Legit Connection.new events :=
  Run.along_of_invariant
    (fun _ _ (fine : Connection.Fine _) orderly _ taken => (step_fine fine orderly taken).2)
    (fun _ _ _ fine orderly taken => (step_fine fine orderly taken).1) new_fine
    orderly

/-! ## The two gaps -/

/-- Every user exists and is authorised, `root` as such; the server accepts checks, and the
GSS library says what it is told to say. -/
def sampleCalls (cached : Bool) (accept : GssAccept) : Calls where
  isRoot := -1
  authenticateUser := fun _ _ => 0
  credCacheCheckUser := fun _ _ => if cached then 0 else -1
  askServerToAuthenticate := fun _ _ => 0
  lookupUser := fun user =>
    some (if user = ZString.ofString "root" then ⟨0, 0⟩ else ⟨1000, 1000⟩)
  isUserAuthorized := fun _ _ => 1
  gssInitLibrary := true
  getInputToken := fun _ _ => true
  gssAcquireCred := fun _ => true
  gssAcceptSecContext := accept
  getPrincipalName := some (ZString.ofString "root")
  gethostname := none
  buildAuthResponse := true
  decryptData := true
  newRequestMsg := true

/-- A request with a user name and a password. -/
def basicRequest (user password : String) : HttpHeaders :=
  ⟨some (ZString.ofString "Basic"), some (ZString.ofString user),
    some (ZString.ofString password), 10, fun _ => rfl⟩

/-- A request with a token for the GSS library. -/
def negotiateRequest : HttpHeaders :=
  ⟨some (ZString.ofString "Negotiate YWJj"), none, none, 10, nofun⟩

/-- The library wants another leg but has nothing to send. -/
def silentExchange : List Event :=
  [.header negotiateRequest, .content (sampleCalls false ⟨gssContinueNeeded, []⟩)]

/-- The second request waits for the server when the response to the first one is written and
reading resumes: the check is asked for twice. The second answer arrives when the socket
holds a request in the name of `root`. -/
def crossedAnswers : List Event :=
  let known := sampleCalls true ⟨gssComplete, []⟩
  let unknown := sampleCalls false ⟨gssComplete, []⟩
  [.header (basicRequest "alice" "right"), .content known,
    .header (basicRequest "alice" "right"), .content unknown, .respond 200, .written,
    .content unknown, .answer 0 true unknown,
    .header (basicRequest "root" "wrong"), .content unknown, .answer 0 true unknown]

/-- Neither run is rightful: one hands a request on in the middle of an exchange, the other
under an identity whose password was never accepted. -/
theorem handed_on_unauthenticated :
    ¬Run.Along (step false) Legit Connection.new silentExchange ∧
      ¬Run.Along (step false) Legit Connection.new crossedAnswers := by
  decide

/-- An exchange of two legs, then a request without a header of its own, then a password that
the server accepts. -/
def orderlyEvents : List Event :=
  let known := sampleCalls true ⟨gssComplete, []⟩
  let unknown := sampleCalls false ⟨gssComplete, []⟩
  [.header negotiateRequest, .content (sampleCalls false ⟨gssContinueNeeded, [1]⟩),
    .header negotiateRequest, .content known, .respond 200, .written,
    .header HttpHeaders.zero, .content known, .respond 200, .written,
    .header (basicRequest "alice" "right"), .content unknown, .answer 0 true unknown]

theorem handed_on_when_authorised_orderly :
    Run.Along (step false) Orderly Connection.new orderlyEvents ∧
      Run.Along (step false) Legit Connection.new orderlyEvents ∧
      ((Run.run (step false) Connection.new orderlyEvents).map (·.handed)) =
        some (some ⟨1000, 1000⟩) :=
  have orderly : Run.Along (step false) Orderly new orderlyEvents := by
    decide
  ⟨orderly, handed_on_when_authorised orderlyEvents orderly, by decide⟩

end Omi.Http
