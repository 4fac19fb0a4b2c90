import Omi.Protocol.Transfer

/-!
# Delivery over a link

A list of messages goes out through one sender, a stream of bytes and one receiver.
Every event is one call of a socket function with the part that it transfers, or the
sender's turn to the next message. Whatever the order of the events and the sizes of
the parts, the link never fails, the receiver is handed the messages in order and
unchanged, each once, and every event that is not blocked brings the end nearer.
-/

namespace Omi.Protocol

open List Option Base Bytes Cursor Run

/-- The messages that have not been taken up, the two ends of the connection and the bytes
between them, and what `_ProcessReceivedMessage` has been called with. -/
structure Link where
  queue : List WireMessage
  sender : SendState
  stream : List UInt8
  receiver : RecvState
  delivered : List Received

def Link.initial (messages : List WireMessage) : Link := ⟨messages, .idle, [], .reset, []⟩

/-- What happens next. A socket call transfers at most `n + 1` bytes, or would block; `pause`
says whether the processing of a message asks for the loop to be left. -/
inductive LinkEvent where
  | post
  | write (part : Option Nat)
  | read (part : Option Nat) (pause : Bool)

namespace Link

/-- The sender takes up the next message when it has none. -/
def post (l : Link) : Link :=
  match l.sender.message, l.queue with
  | none, m :: queue => { l with queue := queue, sender := prepareMessageForSending m }
  | _, _ => l

/-- The answer of a write. -/
def accepting : Option Nat → WriteOutcome
  | none => .wouldBlock
  | some n => .accepted (n + 1)

/-- An iteration of `_RequestCallbackWrite`. -/
def write (version : Nat) (l : Link) (part : Option Nat) : Option Link :=
  let step := writeIteration version l.sender (accepting part)
  if step.returned = some false then none
  else some { l with sender := step.state, stream := l.stream ++ step.sent }

/-- The bytes that a read returns: some of those in the stream, and no more than asked for. -/
def arriving (l : Link) : Option Nat → List UInt8
  | none => []
  | some n => l.stream.take (min (n + 1) l.receiver.requested)

/-- An iteration of `_RequestCallbackRead`; without bytes the call would block. -/
def read (l : Link) (part : Option Nat) (pause : Bool) : Option Link :=
  let chunk := l.arriving part
  let outcome := if chunk = [] then ReadOutcome.wouldBlock else ReadOutcome.bytes chunk
  let verdict := if pause then CallbackResult.prtReturnTrue else CallbackResult.prtContinue
  match readIteration l.receiver ⟨outcome, true, verdict⟩ with
  | .ok _ _ .prtReturnFalse => none
  | .ok next received _ =>
    some { l with
      stream := l.stream.drop chunk.length
      receiver := next
      delivered := l.delivered ++ received.toList }
  | .overflow => none
  | .nullBatch => none

/-- One event; `none` when the connection fails. -/
def step (version : Nat) (l : Link) : LinkEvent → Option Link
  | .post => some l.post
  | .write part => l.write version part
  | .read part pause => l.read part pause

/-- The event cannot happen now: no message to take up or to write, no bytes to read, or a
socket that would block. -/
def Blocked (l : Link) : LinkEvent → Prop
  | .post => l.sender.message ≠ none ∨ l.queue = []
  | .write part => part = none ∨ l.sender.message = none
  | .read part _ => l.arriving part = []

/-- Nothing is left to be sent or read. -/
def Quiet (l : Link) : Prop := l.queue = [] ∧ l.sender.message = none ∧ l.stream = []

/-- All bytes that the receiver has still to read. -/
def upcoming (version : Nat) (l : Link) : List UInt8 :=
  l.stream ++ (l.sender.unsent version ++ l.queue.flatMap (WireMessage.stream version))

/-- The work that is left: every byte is written and read, every message taken up. -/
def remaining (version : Nat) (l : Link) : Nat :=
  l.stream.length + 2 * (l.sender.unsent version ++
    l.queue.flatMap (WireMessage.stream version)).length + l.queue.length

end Link

/-- The receiver is in the first of the pending messages, and what it will read are the rest
of this one and the others. -/
def RecvState.Expects (version : Nat) (s : RecvState) :
    List WireMessage → List UInt8 → Prop
  | [], bytes => s = .reset ∧ bytes = []
  | m :: later, bytes => ∃ rest, s.Awaits version m rest ∧
      bytes = rest ++ later.flatMap (WireMessage.stream version)

/-- The link invariant for a list of messages. -/
structure Link.Inv (version : Nat) (messages : List WireMessage) (l : Link) : Prop where
  busy : l.sender.Busy version
  queued : ∀ m ∈ l.queue, m.Valid
  pending : ∃ pending, messages.map WireMessage.received =
      l.delivered ++ pending.map WireMessage.received ∧ (∀ m ∈ pending, m.Valid) ∧
    l.receiver.Expects version pending (l.upcoming version)

/-- An event keeps the invariant; it changes nothing if it is blocked, and brings the end
nearer otherwise. -/
def Link.Kept (version : Nat) (messages : List WireMessage) (l : Link) (event : LinkEvent)
    (next : Link) : Prop :=
  next.Inv version messages ∧ (l.Blocked event → next = l) ∧
    (¬l.Blocked event → next.remaining version < l.remaining version)

variable {version : Nat} {messages : List WireMessage} {l next : Link}

theorem Link.Inv.kept_blocked (inv : l.Inv version messages) {event : LinkEvent}
    (blocked : l.Blocked event) : Link.Kept version messages l event l :=
  ⟨inv, fun _ => rfl, fun free => absurd blocked free⟩

theorem Link.Kept.nearer {event : LinkEvent} (free : ¬l.Blocked event)
    (inv : next.Inv version messages) (nearer : next.remaining version < l.remaining version) :
    Link.Kept version messages l event next :=
  ⟨inv, fun blocked => absurd blocked free, fun _ => nearer⟩

theorem RecvState.expects_reset (pending : List WireMessage) :
    RecvState.reset.Expects version pending (pending.flatMap (WireMessage.stream version)) := by
  cases pending with
  | nil => exact ⟨rfl, rfl⟩
  | cons m later => exact ⟨m.stream version, RecvState.awaits_reset version m, flatMap_cons⟩

theorem Link.inv_initial (valid : ∀ m ∈ messages, m.Valid) :
    (Link.initial messages).Inv version messages where
  busy := nofun
  queued := valid
  pending := ⟨messages, rfl, valid, RecvState.expects_reset messages⟩

/-! ## The sender's events -/

/-- The sender's events move bytes that are still to be read, and nothing else. -/
theorem Link.Inv.of_upcoming (inv : l.Inv version messages) (busy : next.sender.Busy version)
    (queued : ∀ m ∈ next.queue, m.Valid) (receiver : next.receiver = l.receiver)
    (delivered : next.delivered = l.delivered)
    (upcoming : next.upcoming version = l.upcoming version) : next.Inv version messages where
  busy := busy
  queued := queued
  pending := by
    obtain ⟨pending, all, valid, expects⟩ := inv.pending
    refine ⟨pending, by rw [delivered, all], valid, ?_⟩
    rw [receiver, upcoming]
    exact expects

theorem Link.Inv.post (inv : l.Inv version messages) :
    Link.Kept version messages l .post l.post := by
  unfold Link.post
  split
  · rename_i m queue idle waiting
    have valid := inv.queued
    rw [waiting] at valid
    have unsent : l.sender.unsent version = [] := by
      unfold SendState.unsent
      rw [idle]
    have moved : (prepareMessageForSending m).unsent version ++
        queue.flatMap (WireMessage.stream version) =
          l.sender.unsent version ++ l.queue.flatMap (WireMessage.stream version) := by
      rw [unsent, waiting, flatMap_cons, SendState.unsent_prepared, nil_append]
    refine .nearer (by simp [Link.Blocked, idle, waiting])
      (inv.of_upcoming ?_ ?_ rfl rfl ?_) ?_
    · exact SendState.busy_prepared version (valid m mem_cons_self)
    · exact fun m' mem => valid m' (mem_cons_of_mem _ mem)
    · exact congrArg (l.stream ++ ·) moved
    · unfold Link.remaining
      rw [moved, waiting, length_cons]
      exact Nat.lt_succ_self _
  · rename_i none_
    refine inv.kept_blocked ?_
    by_contra free
    obtain ⟨idle, some_⟩ := not_or.mp free
    obtain ⟨m, queue, waiting⟩ := exists_cons_of_ne_nil some_
    exact none_ m queue (not_not.mp idle) waiting

/-- A write that is blocked, or has nothing to send, leaves the link as it is. -/
theorem Link.write_idle {part : Option Nat} (idle : part = none ∨ l.sender.message = none) :
    l.write version part = some l := by
  have same : writeIteration version l.sender (Link.accepting part) =
      ⟨l.sender, [], some true⟩ := by
    unfold writeIteration
    cases sending : l.sender.message with
    | none => rfl
    | some m =>
      obtain rfl : part = none := idle.resolve_right (by rw [sending]; nofun)
      rfl
  unfold Link.write
  rw [same, if_neg (by nofun), append_nil]

theorem Link.Inv.write (inv : l.Inv version messages) (part : Option Nat) :
    ∃ next, l.write version part = some next ∧
      Link.Kept version messages l (.write part) next := by
  by_cases idle : part = none ∨ l.sender.message = none
  · exact ⟨l, Link.write_idle idle, inv.kept_blocked idle⟩
  · obtain ⟨offered, busy⟩ := not_or.mp idle
    obtain ⟨n, rfl⟩ := ne_none_iff_exists'.mp offered
    obtain ⟨m, sending⟩ := ne_none_iff_exists'.mp busy
    obtain ⟨goes_on, some_, still, moved⟩ := writeIteration_accepted inv.busy sending n
    have positive := length_pos_iff.mpr some_
    have accepts : Link.accepting (some n) = .accepted (n + 1) := rfl
    unfold Link.write
    rw [accepts]
    refine ⟨_, if_neg (by rw [goes_on]; nofun),
      .nearer idle (inv.of_upcoming still inv.queued rfl rfl ?_) ?_⟩
    · unfold Link.upcoming
      rw [moved]
      simp only [append_assoc]
    · unfold Link.remaining
      rw [moved]
      simp only [length_append]
      omega

/-! ## The receiver's events -/

theorem RecvState.readIteration_blocked {s : RecvState} {pending : List WireMessage}
    {bytes : List UInt8} (expects : s.Expects version pending bytes)
    (valid : ∀ m ∈ pending, m.Valid) (verdict : CallbackResult) :
    readIteration s ⟨.wouldBlock, true, verdict⟩ = .ok s none .prtReturnTrue := by
  have header : ∀ s : RecvState, s.ReadingHeader →
      readIteration s ⟨.wouldBlock, true, verdict⟩ = .ok s none .prtReturnTrue := by
    intro s reading
    unfold readIteration readHeaderIteration
    rw [if_pos reading.index]
    exact if_neg (readHeaderIteration_defined reading)
  cases pending with
  | nil =>
    rw [expects.1]
    exact header _ RecvState.readingHeader_reset
  | cons m later =>
    obtain ⟨rest, awaits, -⟩ := expects
    cases awaits with
    | header split more =>
      exact header _ (readingHeader_ofHeader (valid m mem_cons_self) split more)
    | body filling split more =>
      unfold readIteration readPagesIteration
      rw [if_neg (by rw [filling.next]; exact Nat.succ_ne_zero _), filling.batch]

/-- What arrives are the first bytes of the awaited rest. -/
theorem Link.arriving_prefix {m : WireMessage} {rest others : List UInt8} (part : Option Nat)
    (valid : m.Valid) (awaits : l.receiver.Awaits version m rest)
    (bytes : l.upcoming version = rest ++ others) :
    ∃ left, rest = l.arriving part ++ left ∧ (l.arriving part).length ≤ l.receiver.requested := by
  have clipped : (l.arriving part).length ≤ l.receiver.requested := by
    cases part with
    | none => exact Nat.zero_le _
    | some n =>
      change (l.stream.take _).length ≤ _
      rw [length_take]
      omega
  have front : l.arriving part <+: l.upcoming version := by
    apply List.IsPrefix.trans _ (prefix_append l.stream _)
    cases part with
    | none => exact nil_prefix
    | some n => exact take_prefix _ _
  have short := (awaits.requested_bounds valid).2
  obtain ⟨left, split⟩ : l.arriving part <+: rest :=
    prefix_of_prefix_length_le front ⟨others, bytes.symm⟩ (by omega)
  exact ⟨left, split.symm, clipped⟩

section

variable (inv : l.Inv version messages)
include inv

/-- A read that returns nothing leaves the link as it is. -/
theorem Link.Inv.read_blocked {part : Option Nat}
    (empty : l.arriving part = []) (pause : Bool) : l.read part pause = some l := by
  obtain ⟨pending, -, valid, expects⟩ := inv.pending
  unfold Link.read
  dsimp only
  rw [empty, if_pos rfl, RecvState.readIteration_blocked expects valid]
  dsimp only
  rw [toList_none, append_nil, length_nil, drop_zero]

theorem Link.Inv.read (part : Option Nat) (pause : Bool) :
    ∃ next, l.read part pause = some next ∧
      Link.Kept version messages l (.read part pause) next := by
  by_cases empty : l.arriving part = []
  · exact ⟨l, inv.read_blocked empty pause, inv.kept_blocked empty⟩
  obtain ⟨pending, all, valid, expects⟩ := inv.pending
  have taken : l.stream = l.arriving part ++ l.stream.drop (l.arriving part).length := by
    have front : l.arriving part <+: l.stream := by
      cases part with
      | none => exact absurd rfl empty
      | some n => exact take_prefix _ _
    obtain ⟨left, split⟩ := front
    rw [← split, drop_left]
  have shrinks : (l.stream.drop (l.arriving part).length).length < l.stream.length := by
    have positive := length_pos_iff.mpr empty
    have lengths := congrArg length taken
    rw [length_append] at lengths
    omega
  cases pending with
  | nil =>
    -- without a pending message the stream is empty
    have none_ : l.stream = [] := (append_eq_nil_iff.mp expects.2).1
    rw [none_] at shrinks
    cases shrinks
  | cons m later =>
    obtain ⟨rest, awaits, bytes⟩ := expects
    have first := valid m mem_cons_self
    obtain ⟨left, rfl, clipped⟩ := Link.arriving_prefix part first awaits bytes
    have upcoming : l.stream.drop (l.arriving part).length ++ (l.sender.unsent version ++
        l.queue.flatMap (WireMessage.stream version)) =
          left ++ later.flatMap (WireMessage.stream version) := by
      unfold Link.upcoming at bytes
      rw [taken, append_assoc, append_assoc, append_cancel_left_eq] at bytes
      exact bytes
    have nearer : ∀ (next : RecvState) (delivered : List Received), Link.remaining version
        { l with
          stream := l.stream.drop (l.arriving part).length
          receiver := next
          delivered := delivered } < l.remaining version := by
      intro next delivered
      unfold Link.remaining
      dsimp only
      omega
    unfold Link.read
    dsimp only
    rw [if_neg empty]
    rcases @RecvState.Awaits.read m version _
      ⟨.bytes (l.arriving part), true, if pause then .prtReturnTrue else .prtContinue⟩
      l.receiver left awaits first empty clipped rfl rfl with ⟨next, goes_on, awaits'⟩ | ⟨done, handed⟩
    · rw [goes_on]
      refine ⟨_, rfl, .nearer empty
        ⟨inv.busy, inv.queued, m :: later, ?_, valid, left, awaits', upcoming⟩ (nearer _ _)⟩
      rw [toList_none, append_nil, all]
    · rw [handed]
      rw [done, nil_append] at upcoming
      refine ⟨{ l with
        stream := l.stream.drop (l.arriving part).length
        receiver := .reset
        delivered := l.delivered ++ [m.received] }, by cases pause <;> rfl,
        .nearer empty ⟨inv.busy, inv.queued, later, ?_, ?_, ?_⟩ (nearer _ _)⟩
      · rw [all, map_cons, append_assoc, singleton_append]
      · exact fun m' mem => valid m' (mem_cons_of_mem _ mem)
      · unfold Link.upcoming
        rw [upcoming]
        exact RecvState.expects_reset later

/-! ## Runs -/

/-- No event breaks the link. -/
theorem Link.Inv.step (event : LinkEvent) :
    ∃ next, l.step version event = some next ∧
      Link.Kept version messages l event next := by
  cases event with
  | post => exact ⟨l.post, rfl, inv.post⟩
  | write part => exact inv.write part
  | read part pause => exact inv.read part pause

theorem Link.Inv.run (events : List LinkEvent) :
    ∃ last, Run.run (Link.step version) l events = some last ∧ last.Inv version messages := by
  induction events generalizing l with
  | nil => exact ⟨l, rfl, inv⟩
  | cons event events ih =>
    obtain ⟨next, taken, kept, -⟩ := inv.step event
    obtain ⟨last, ends, holds⟩ := ih kept
    refine ⟨last, ?_, holds⟩
    rw [run_cons, taken]
    exact ends

theorem Link.Inv.delivered_prefix : l.delivered <+: messages.map WireMessage.received := by
  obtain ⟨pending, all, -⟩ := inv.pending
  exact ⟨_, all.symm⟩

/-- A quiet link has delivered everything, and its receiver is ready for a header. -/
theorem Link.Inv.quiet (quiet : l.Quiet) :
    l.delivered = messages.map WireMessage.received ∧ l.receiver = .reset := by
  obtain ⟨pending, all, valid, expects⟩ := inv.pending
  have none_ : l.upcoming version = [] := by
    unfold Link.upcoming SendState.unsent
    rw [quiet.1, quiet.2.1, quiet.2.2]
    rfl
  rw [none_] at expects
  cases pending with
  | nil =>
    rw [map_nil, append_nil] at all
    exact ⟨all.symm, expects.1⟩
  | cons m later =>
    obtain ⟨rest, awaits, bytes⟩ := expects
    have some_ := awaits.requested_bounds (valid m mem_cons_self)
    rw [(append_eq_nil_iff.mp bytes.symm).1, length_nil] at some_
    omega

/-- A receiver with bytes before it can read one. -/
theorem Link.Inv.arriving_ne_nil (some_ : l.stream ≠ []) : l.arriving (some 0) ≠ [] := by
  obtain ⟨pending, -, valid, expects⟩ := inv.pending
  have positive : 0 < l.receiver.requested := by
    cases pending with
    | nil => exact absurd (append_eq_nil_iff.mp expects.2).1 some_
    | cons m later =>
      obtain ⟨rest, awaits, -⟩ := expects
      exact (awaits.requested_bounds (valid m mem_cons_self)).1
  have length := length_pos_iff.mpr some_
  apply length_pos_iff.mp
  change 0 < (l.stream.take _).length
  rw [length_take]
  omega

/-- A link that is not quiet can make progress. -/
theorem Link.Inv.progress (busy : ¬l.Quiet) : ∃ event, ¬l.Blocked event := by
  by_cases empty : l.stream = []
  · by_cases idle : l.sender.message = none
    · have waiting : l.queue ≠ [] := fun none_ => busy ⟨none_, idle, empty⟩
      exact ⟨.post, not_or.mpr ⟨not_not.mpr idle, waiting⟩⟩
    · exact ⟨.write (some 0), not_or.mpr ⟨nofun, idle⟩⟩
  · exact ⟨.read (some 0) false, inv.arriving_ne_nil empty⟩

end

/-- For every list of messages and every order and extent of the socket calls: the link does
not fail, the messages handed over are the first ones sent, unchanged and in order, and once
it is quiet they are all of them and the receiver awaits a header. A link that is not quiet
can go on, and every event that is not blocked brings it nearer to the end. -/
theorem link_delivers (version : Nat) (messages : List WireMessage)
    (valid : ∀ m ∈ messages, m.Valid) (events : List LinkEvent) :
    ∃ l, run (Link.step version) (.initial messages) events = some l ∧
      l.delivered <+: messages.map WireMessage.received ∧
      (l.Quiet → l.delivered = messages.map WireMessage.received ∧ l.receiver = .reset) ∧
      (¬l.Quiet → ∃ event, ¬l.Blocked event) ∧
      ∀ event, ∃ next, l.step version event = some next ∧ (l.Blocked event → next = l) ∧
        (¬l.Blocked event → next.remaining version < l.remaining version) := by
  obtain ⟨l, ends, inv⟩ := (Link.inv_initial valid).run events
  refine ⟨l, ends, inv.delivered_prefix, inv.quiet, inv.progress, ?_⟩
  intro event
  obtain ⟨next, taken, -, kept⟩ := inv.step event
  exact ⟨next, taken, kept⟩

/-- A message of two pages and one of three. -/
def twoMessages : List WireMessage :=
  [⟨0x1008, [⟨0x1000, [7, 8, 9]⟩, ⟨0x2000, [1, 2]⟩]⟩,
    ⟨0x3010, [⟨0x3000, [4]⟩, ⟨0x4000, [5, 6]⟩, ⟨0x5000, [1, 1, 1, 1]⟩]⟩]

/-- The second message is posted while the first is on its way, and the socket takes and gives
a part at a time. -/
def pieceByPiece : List LinkEvent :=
  [.post, .write (some 19), .read (some 9) false, .write (some 99), .post] ++
    (replicate 6 [.read (some 30) false, .write (some 20), .read (some 5) true]).flatten

theorem link_delivers_twoMessages :
    ∃ l, run (Link.step 2) (.initial twoMessages) pieceByPiece = some l ∧
      l.delivered = twoMessages.map WireMessage.received := by
  have valid : ∀ m ∈ twoMessages, m.Valid :=
    forall_mem_cons.mpr ⟨⟨by decide, by decide, by decide, by decide⟩,
      forall_mem_singleton.mpr ⟨by decide, by decide, by decide, by decide⟩⟩
  have quiet : ((run (Link.step 2) (.initial twoMessages) pieceByPiece).map
      fun l => (l.queue, l.sender.message, l.stream)) = some ([], none, []) := by
    decide +kernel
  obtain ⟨l, ends, -, complete, -⟩ := link_delivers 2 twoMessages valid pieceByPiece
  rw [ends, map_some, some_inj, Prod.mk.injEq, Prod.mk.injEq] at quiet
  exact ⟨l, ends, (complete quiet).1⟩

end Omi.Protocol
