import Omi.Strands.Operations

/-!
# Flow control from many to one

A parent with its default internal methods sends the messages of its entries over
its own interaction. A message that an entry posts is sent when the last post was
acknowledged, and is tried again until then; after the parent has closed it is
ignored. A control message is sent at once, by the same `Strand_Post`, so it does
not wait for an acknowledgement. An entry may also close the parent, and leaves it
when it has finished.
-/

namespace Omi.Strands.Flow

open List Option Many

variable {ε μ : Type}

/-- The operations of an entry; the bits order those that are pending. -/
inductive Operation (μ : Type) where
  | postControl (msg : μ)
  | post (msg : μ)
  | close
  | deleted
deriving DecidableEq

variable {op : Operation μ}

namespace Operation

/-- The bit of the operation, `BitEntryPostControl` to `BitEntryDeleted`. -/
def kind : Operation μ → Nat
  | .postControl _ => 0x4
  | .post _ => 0x8
  | .close => 0x10
  | .deleted => 0x400

/-- An entry that has finished is deleted. -/
def final : Operation μ → Bool
  | .deleted => true
  | _ => false

/-- A message is to be sent. -/
def isMessage : Operation μ → Bool
  | .postControl _ => true
  | .post _ => true
  | _ => false

/-- The message was posted with `StrandEntry_PostParent`. -/
def isPost : Operation μ → Bool
  | .post _ => true
  | _ => false

theorem isMessage_of_isPost (post : op.isPost = true) : op.isMessage = true := by
  cases op with
  | post msg => rfl
  | postControl msg | close | deleted => cases post

end Operation

/-- The strand of a parent and what its peer knows. The last three fields are for reference: the
posts on the interaction of the parent, the messages that were not sent, and the number of posts
that the peer has not acknowledged. -/
structure Parent (ε μ : Type) where
  thisAckPending : Bool
  thisClosedOther : Bool
  otherClosedThis : Bool
  /-- `BitAck`. -/
  ackScheduled : Bool
  posts : List (ε × Operation μ)
  ignored : List (ε × Operation μ)
  unacknowledged : Nat
deriving DecidableEq

/-- The other methods of the parent. Its `Close` callback may close the interaction. -/
inductive Act where
  | ack
  | close (back : Bool)

namespace Parent

/-- An open interaction, whose opening may not be acknowledged yet. -/
def opened (pending : Bool) : Parent ε μ :=
  ⟨pending, false, false, false, [], [], pending.toNat⟩

/-- `Strand_Post`. -/
def strandPost (s : Parent ε μ) (e : ε) (op : Operation μ) : Parent ε μ :=
  { s with
    thisAckPending := true
    posts := s.posts ++ [(e, op)]
    unacknowledged := s.unacknowledged + 1 }

def ignore (s : Parent ε μ) (e : ε) (op : Operation μ) : Parent ε μ :=
  { s with ignored := s.ignored ++ [(e, op)] }

/-- `_StrandEntryOperation_PostControl`, `_StrandEntryOperation_Post`,
`_StrandEntryOperation_Close` and `_StrandEntryOperation_Deleted`. -/
def perform (s : Parent ε μ) (e : ε) : Operation μ → OperationResult × Parent ε μ
  | .postControl msg =>
    if s.thisClosedOther then (.continue, s.ignore e (.postControl msg))
    else (.continue, s.strandPost e (.postControl msg))
  | .post msg =>
    if s.thisClosedOther then (.continue, s.ignore e (.post msg))
    else if !s.thisAckPending then (.continue, s.strandPost e (.post msg))
    else (.retry, s)
  | .close => (.continue, if !s.thisClosedOther then { s with thisClosedOther := true } else s)
  | .deleted => (.deleted, s)

/-- `_StrandMethod_Parent_Ack` and `_StrandMethod_Parent_Close`. -/
def act (s : Parent ε μ) (pendingRetry : Bool) : Act → Option (Parent ε μ × Bool)
  | .ack =>
    if s.ackScheduled then
      some ({ s with ackScheduled := false, thisAckPending := false }, pendingRetry)
    else none
  | .close back =>
    if s.otherClosedThis then none
    else some ({ s with
      otherClosedThis := true, thisClosedOther := s.thisClosedOther || back }, false)

/-- The peer acknowledges a post. -/
def peerAck (s : Parent ε μ) : Option (Parent ε μ) :=
  if 0 < s.unacknowledged then
    some { s with unacknowledged := s.unacknowledged - 1, ackScheduled := true }
  else none

end Parent

/-- A parent with its default internal methods. -/
def methods : ManyMethods ε (Operation μ) (Parent ε μ) Act Unit where
  kind := Operation.kind
  final := Operation.final
  perform := Parent.perform
  parent := Parent.act
  outside := fun s _ => s.peerAck

/-! ## The operations one by one -/

/-- What an operation does. Only a post waits for an acknowledgement. -/
inductive Performs (s : Parent ε μ) (e : ε) :
    Operation μ → OperationResult × Parent ε μ → Prop where
  | ignores (op : Operation μ) (message : op.isMessage = true)
      (closed : s.thisClosedOther = true) : Performs s e op (.continue, s.ignore e op)
  | sends (op : Operation μ) (message : op.isMessage = true)
      (unclosed : s.thisClosedOther = false)
      (ready : (∃ msg, op = .postControl msg) ∨ s.thisAckPending = false) :
      Performs s e op (.continue, s.strandPost e op)
  | waits (msg : μ) (pending : s.thisAckPending = true) : Performs s e (.post msg) (.retry, s)
  | closes : Performs s e .close (.continue, { s with thisClosedOther := true })
  | deletes : Performs s e .deleted (.deleted, s)

theorem performs (s : Parent ε μ) (e : ε) (op : Operation μ) :
    Performs s e op (s.perform e op) := by
  cases op with
  | postControl msg =>
    rw [Parent.perform]
    split_ifs with closed
    · exact .ignores _ rfl closed
    · exact .sends _ rfl (Bool.not_eq_true _ ▸ closed) (.inl ⟨msg, rfl⟩)
  | post msg =>
    rw [Parent.perform]
    split_ifs with closed ready
    · exact .ignores _ rfl closed
    · exact .sends _ rfl (Bool.not_eq_true _ ▸ closed) (.inr (Bool.not_eq_true' _ ▸ ready))
    · rw [Bool.not_eq_true', Bool.not_eq_false] at ready
      exact .waits msg ready
  | close =>
    rw [Parent.perform]
    split_ifs with closed
    · exact .closes
    · rw [Bool.not_eq_true', Bool.not_eq_false] at closed
      have same : { s with thisClosedOther := true } = s := by rw [← closed]
      rw [same.symm]
      exact .closes
  | deleted => exact .deletes

/-- A parent that waits for an acknowledgement is blocked. -/
def Blocked (s : Parent ε μ) : Prop := s.thisAckPending = true

theorem lawful : (methods : ManyMethods ε (Operation μ) _ _ _).Lawful Blocked where
  deletes s e op deleted := by
    change (s.perform e op).1 = _ at deleted
    generalize performed : s.perform e op = out at deleted
    cases performed ▸ performs s e op with
    | deletes => rfl
    | ignores | sends | waits | closes => cases deleted
  retries s e op retry := by
    change (s.perform e op).1 = _ at retry
    generalize performed : s.perform e op = out at retry
    cases performed ▸ performs s e op with
    | waits msg pending => exact pending
    | ignores | sends | closes | deletes => cases retry
  keeps s e op blocked := by
    change Blocked (s.perform e op).2
    generalize performed : s.perform e op = out
    cases performed ▸ performs s e op with
    | sends => exact rfl
    | ignores | waits | closes | deletes => exact blocked
  parent s a out acted blocked := by
    change s.act true a = some out at acted
    cases a with
    | ack =>
      rw [Parent.act, ite_none_right_eq_some] at acted
      cases acted.2
      exact .inr rfl
    | close back =>
      rw [Parent.act, ite_none_left_eq_some] at acted
      cases acted.2
      exact .inl blocked
  outside s _ next acked blocked := by
    change s.peerAck = some next at acked
    rw [Parent.peerAck, ite_none_right_eq_some] at acked
    cases acked.2
    exact blocked

/-- Every message that was handled was sent or ignored, and none is ignored by an open parent. -/
structure Tally (s : Parent ε μ) (log : List (ε × Operation μ)) : Prop where
  messages : (log.filter fun done => done.2.isMessage).Perm (s.posts ++ s.ignored)
  sent : s.thisClosedOther = false → s.ignored = []

/-- The peer acknowledges what the parent waits for. -/
def Balanced (s : Parent ε μ) : Prop :=
  s.unacknowledged + s.ackScheduled.toNat = s.thisAckPending.toNat

theorem tally_opened (pending : Bool) : Tally (.opened pending : Parent ε μ) [] :=
  ⟨.refl _, fun _ => rfl⟩

theorem balanced_opened (pending : Bool) : Balanced (.opened pending : Parent ε μ) := rfl

variable {s next : Parent ε μ} {out : Parent ε μ × Bool} {pendingRetry : Bool}

/-- Only the operations of the entries handle messages. -/
structure Keeps (s next : Parent ε μ) : Prop where
  posts : next.posts = s.posts
  ignored : next.ignored = s.ignored
  unclosed : next.thisClosedOther = false → s.thisClosedOther = false

theorem act_keeps {a : Act} (acted : s.act pendingRetry a = some out) : Keeps s out.1 := by
  cases a with
  | ack =>
    rw [Parent.act, ite_none_right_eq_some] at acted
    cases acted.2
    exact ⟨rfl, rfl, id⟩
  | close back =>
    rw [Parent.act, ite_none_left_eq_some] at acted
    cases acted.2
    exact ⟨rfl, rfl, fun unclosed => (Bool.or_eq_false_iff.mp unclosed).1⟩

theorem peerAck_keeps (acked : s.peerAck = some next) : Keeps s next := by
  rw [Parent.peerAck, ite_none_right_eq_some] at acked
  cases acked.2
  exact ⟨rfl, rfl, id⟩

variable {log : List (ε × Operation μ)}

theorem Tally.keeps (tally : Tally s log) (keeps : Keeps s next) : Tally next log where
  messages := by
    rw [keeps.posts, keeps.ignored]
    exact tally.messages
  sent unclosed := keeps.ignored.trans (tally.sent (keeps.unclosed unclosed))

theorem Balanced.act (balanced : Balanced s) {a : Act}
    (acted : s.act pendingRetry a = some out) : Balanced out.1 := by
  cases a with
  | ack =>
    rw [Parent.act, ite_none_right_eq_some] at acted
    cases acted.2
    have one : s.thisAckPending.toNat ≤ 1 := Bool.toNat_le _
    rw [Balanced, acted.1] at balanced
    change s.unacknowledged + 0 = 0
    change s.unacknowledged + 1 = _ at balanced
    omega
  | close back =>
    rw [Parent.act, ite_none_left_eq_some] at acted
    cases acted.2
    exact balanced

theorem Balanced.peerAck (balanced : Balanced s) (acked : s.peerAck = some next) :
    Balanced next := by
  rw [Parent.peerAck, ite_none_right_eq_some] at acked
  cases acked.2
  have one : s.thisAckPending.toNat ≤ 1 := Bool.toNat_le _
  rw [Balanced] at balanced
  change s.unacknowledged - 1 + 1 = s.thisAckPending.toNat
  omega

/-- An operation that was performed is accounted for. -/
theorem Tally.perform (tally : Tally s log) {e : ε} (done : (s.perform e op).1 ≠ .retry) :
    Tally (s.perform e op).2 (log ++ [(e, op)]) := by
  have append : ∀ list : List (ε × Operation μ),
      (log.filter fun done => done.2.isMessage).Perm list → op.isMessage = true →
        ((log ++ [(e, op)]).filter fun done => done.2.isMessage).Perm (list ++ [(e, op)]) := by
    intro list perm message
    have one : [(e, op)].filter (fun done => done.2.isMessage) = [(e, op)] := by simp [message]
    rw [filter_append, one]
    exact perm.append_right _
  have skip : op.isMessage = false →
      (log ++ [(e, op)]).filter (fun done => done.2.isMessage)
        = log.filter fun done => done.2.isMessage := by
    intro message
    have none : [(e, op)].filter (fun done => done.2.isMessage) = [] := by simp [message]
    rw [filter_append, none, append_nil]
  generalize performed : s.perform e op = out at done ⊢
  cases performed ▸ performs s e op with
  | ignores op message closed =>
    refine ⟨?_, fun unclosed => ?_⟩
    · change List.Perm _ (s.posts ++ (s.ignored ++ [(e, op)]))
      rw [← append_assoc]
      exact append _ tally.messages message
    · cases closed.symm.trans unclosed
  | sends op message unclosed =>
    refine ⟨?_, tally.sent⟩
    change List.Perm _ (s.posts ++ [(e, op)] ++ s.ignored)
    have messages := append _ tally.messages message
    rw [tally.sent unclosed, append_nil] at messages
    rw [tally.sent unclosed, append_nil]
    exact messages
  | waits => exact absurd rfl done
  | closes =>
    refine ⟨(skip rfl).symm ▸ tally.messages, fun unclosed => ?_⟩
    cases unclosed
  | deletes => exact ⟨(skip rfl).symm ▸ tally.messages, tally.sent⟩

theorem Balanced.perform (balanced : Balanced s) (e : ε)
    (primary : ∀ msg, op ≠ .postControl msg) : Balanced (s.perform e op).2 := by
  generalize performed : s.perform e op = out
  cases performed ▸ performs s e op with
  | sends op message unclosed ready =>
    rcases ready with ⟨msg, rfl⟩ | free
    · exact absurd rfl (primary msg)
    · rw [Balanced, free] at balanced
      change s.unacknowledged + 1 + s.ackScheduled.toNat = 1
      change _ = 0 at balanced
      omega
  | ignores | waits | closes | deletes => exact balanced

/-- A post is issued by a parent that has not closed and, but for a control message, waits for
nothing. -/
theorem posts_perform {e : ε} (posts : (s.perform e op).2.posts ≠ s.posts) :
    s.thisClosedOther = false ∧ ((∃ msg, op = .postControl msg) ∨ s.thisAckPending = false) := by
  generalize performed : s.perform e op = out at posts
  cases performed ▸ performs s e op with
  | sends op message unclosed ready => exact ⟨unclosed, ready⟩
  | ignores | waits | closes | deletes => exact absurd rfl posts

/-! ## Runs -/

/-- What holds of the parent and its entries in every reachable state. -/
structure Inv (s : Many ε (Operation μ) (Parent ε μ)) [DecidableEq ε] : Prop where
  sound : s.Sound methods Blocked
  tally : Tally s.parent s.performed

/-- No entry has posted a control message. -/
def Uncontrolled (s : Many ε (Operation μ) (Parent ε μ)) : Prop :=
  ∀ e, ∀ op ∈ s.requested e, ∀ msg, op ≠ .postControl msg

section

variable [DecidableEq ε] {s next : Many ε (Operation μ) (Parent ε μ)}
  {event : ManyEvent ε (Operation μ) Act Unit}

theorem inv_opened (pending : Bool) : Inv (init (.opened pending) : Many ε (Operation μ) _) :=
  ⟨sound_init _ _ _, tally_opened pending⟩

theorem Inv.step (inv : Inv s) (taken : Taken methods s event next) : Inv next := by
  refine ⟨inv.sound.step lawful taken, ?_⟩
  have tally := inv.tally
  cases inv.sound.kept.moves taken with
  | stays parent performed => rwa [parent, performed]
  | retries e op _ retry parent performed =>
    rw [parent, performed]
    change (s.parent.perform e op).1 = _ at retry
    change Tally (s.parent.perform e op).2 _
    generalize out : s.parent.perform e op = after at retry ⊢
    cases out ▸ performs s.parent e op with
    | waits => exact tally
    | ignores | sends | closes | deletes => cases retry
  | performs e op _ done parent performed =>
    rw [parent, performed]
    exact tally.perform done
  | parent a _ scheduled acted performed =>
    rw [performed]
    exact tally.keeps (act_keeps acted)
  | outside b _ acted performed =>
    rw [performed]
    exact tally.keeps (peerAck_keeps acted)

/-- An operation that is outstanding was asked for. -/
theorem Inv.primary (inv : Inv s) (uncontrolled : Uncontrolled s) {e : ε}
    (outstanding : op ∈ (s.entries e).outstanding) (msg : μ) : op ≠ .postControl msg := by
  refine uncontrolled e op ?_ msg
  rw [(inv.sound.kept e).ledger.mem_iff]
  exact mem_append_right _ outstanding

theorem Inv.balanced_step (inv : Inv s) (uncontrolled : Uncontrolled s)
    (balanced : Balanced s.parent) (taken : Taken methods s event next) :
    Balanced next.parent := by
  cases inv.sound.kept.moves taken with
  | stays parent => rwa [parent]
  | retries e op outstanding _ parent | performs e op outstanding _ parent =>
    rw [parent]
    exact balanced.perform e (inv.primary uncontrolled outstanding)
  | parent a _ scheduled acted => exact balanced.act acted
  | outside b _ acted => exact balanced.peerAck acted

/-- The messages that an entry has posted are those that were sent, those that were ignored
and those that are outstanding. -/
theorem Inv.once (inv : Inv s) (e : ε) :
    ((s.requested e).filter Operation.isPost).Perm
      ((forEntry e s.parent.posts ++ forEntry e s.parent.ignored
        ++ (s.entries e).outstanding).filter Operation.isPost) := by
  have handled : ((s.performedFor e).filter Operation.isPost).Perm
      ((forEntry e s.parent.posts ++ forEntry e s.parent.ignored).filter
        Operation.isPost) := by
    have messages := inv.tally.messages.filter fun done => done.2.isPost
    rw [List.filter_filter] at messages
    have same : (fun done : ε × Operation μ => done.2.isPost && done.2.isMessage)
        = fun done => done.2.isPost := by
      funext done
      cases post : done.2.isPost with
      | false => rfl
      | true => exact Operation.isMessage_of_isPost post
    rw [same, List.filter_append] at messages
    rw [performedFor, List.filter_append, forEntry_filter, forEntry_filter, forEntry_filter]
    have part := (messages.filter fun done => done.1 = e).map Prod.snd
    rw [List.filter_append, List.map_append] at part
    exact part
  have ledger := (inv.sound.kept e).ledger.filter Operation.isPost
  rw [List.filter_append] at ledger ⊢
  exact ledger.trans (handled.append_right _)

/-- Posts are issued by the operations of the entries. -/
theorem Inv.posts_step (inv : Inv s) (taken : Taken methods s event next)
    (posts : next.parent.posts ≠ s.parent.posts) :
    ∃ e, ∃ op ∈ (s.entries e).outstanding, (s.parent.perform e op).2.posts ≠ s.parent.posts := by
  cases inv.sound.kept.moves taken with
  | stays parent => exact absurd (congrArg Parent.posts parent) posts
  | retries e op outstanding _ parent | performs e op outstanding _ parent =>
    exact ⟨e, op, outstanding, parent ▸ posts⟩
  | parent a _ scheduled acted => exact absurd (act_keeps acted).posts posts
  | outside b _ acted => exact absurd (peerAck_keeps acted).posts posts

end

/-- A step does not post after the parent has closed. -/
def PostsUnclosed [DecidableEq ε] (s : Many ε (Operation μ) (Parent ε μ))
    (event : ManyEvent ε (Operation μ) Act Unit) : Prop :=
  ∀ next, s.step methods event = some next → next.parent.posts ≠ s.parent.posts →
    s.parent.thisClosedOther = false

/-- A step does not post while a post is unacknowledged. -/
def PostsInTurn [DecidableEq ε] (s : Many ε (Operation μ) (Parent ε μ))
    (event : ManyEvent ε (Operation μ) Act Unit) : Prop :=
  ∀ next, s.step methods event = some next → next.parent.posts ≠ s.parent.posts →
    s.parent.unacknowledged = 0

/-- Every message that an entry has posted is sent once, ignored by a parent that has closed, or
waits; and it does not wait when nothing happens any more and nothing is to be acknowledged. -/
structure Accounted [DecidableEq ε] (s : Many ε (Operation μ) (Parent ε μ)) (e : ε) : Prop where
  once : ((s.requested e).filter Operation.isPost).Perm
    ((Many.forEntry e s.parent.posts ++ Many.forEntry e s.parent.ignored
      ++ (s.entries e).outstanding).filter Operation.isPost)
  unclosed : s.parent.thisClosedOther = false → Many.forEntry e s.parent.ignored = []
  handled : s.Quiet → s.parent.thisAckPending = false → (s.entries e).outstanding = []

section

variable [DecidableEq ε] (pending : Bool) (events : List (ManyEvent ε (Operation μ) Act Unit))
  (heard : Run.Along (step methods) (fun s event => s.hears event) (init (.opened pending)) events)
include heard

theorem along_postsInTurn
    (uncontrolled : ∀ e msg, ManyEvent.request e (.postControl msg) ∉ events) :
    Run.Along (step methods) PostsInTurn (init (.opened pending)) events := by
  let Q : ManyEvent ε (Operation μ) Act Unit → Prop :=
    fun event => ∀ e op, event = .request e op → ∀ msg, op ≠ .postControl msg
  let I : Many ε (Operation μ) (Parent ε μ) → Prop :=
    fun s => Inv s ∧ Uncontrolled s ∧ Balanced s.parent
  have all : ∀ event ∈ events, Q event := by
    rintro event mem e op rfl msg rfl
    exact uncontrolled e msg mem
  have preserved : ∀ s event next, I s → s.hears event = true ∧ Q event →
      s.step methods event = some next → I next := by
    rintro s event next ⟨inv, free, balanced⟩ ⟨heard, primary⟩ stepped
    have taken := taken_of_step heard stepped
    exact ⟨inv.step taken, taken.requested primary free, inv.balanced_step free balanced taken⟩
  refine Run.along_of_invariant (P := PostsInTurn) ?_ preserved
    ⟨inv_opened pending, fun _ _ mem => (not_mem_nil mem).elim, balanced_opened pending⟩
    (heard.and_forall all)
  rintro s event ⟨inv, free, balanced⟩ ⟨heard, -⟩ next stepped posts
  obtain ⟨e, op, outstanding, posts⟩ := inv.posts_step (taken_of_step heard stepped) posts
  have ready := (posts_perform posts).2.resolve_left
    fun ⟨msg, control⟩ => inv.primary free outstanding msg control
  rw [Balanced, ready] at balanced
  exact (Nat.add_eq_zero_iff.mp balanced).1

end

section

local instance neZero_two : NeZero 2 := ⟨by decide⟩

/-- The post of the second entry waits for the acknowledgement of the first. In the meantime
the first entry has posted once more, which its completion method schedules, and which is sent
before the other. -/
def threePosts : List (ManyEvent (Fin 2) (Operation Nat) Act Unit) :=
  [.request 0 (.post 10), .announce 0, .start, .pop, .request 1 (.post 11), .pop, .pop, .restore,
    .restore, .announce 1, .request 0 (.post 12), .pop, .pop, .restore, .restore, .complete 0,
    .announce 0, .returns 0, .outside (), .parent .ack, .start, .pop, .pop, .pop, .restore,
    .restore, .pop, .pop, .restore, .restore, .complete 0, .returns 0, .outside (), .parent .ack,
    .start, .pop, .pop, .restore, .pop, .restore, .complete 1, .returns 1]

/-- The second post of an entry is sent before the completion method that has scheduled it
returns. -/
def forgotten : List (ManyEvent (Fin 2) (Operation Nat) Act Unit) :=
  [.request 0 (.post 10), .announce 0, .start, .pop, .pop, .restore, .pop, .restore, .outside (),
    .parent .ack, .request 0 (.post 11), .complete 0, .announce 0, .start, .pop, .pop, .restore,
    .pop, .restore, .returns 0, .outside (), .parent .ack, .request 0 (.post 12)]

end

end Omi.Strands.Flow
