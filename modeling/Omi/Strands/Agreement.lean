import Omi.Strands.Interaction

/-!
# The sides of an interaction agree

Seen from the side that posts, an acknowledgement is missing as long as the post
is in flight, is not acknowledged, or the acknowledgement is in flight. Each of
the three turns into the next, and this is where a post finds the mailbox of the
other side empty. A strand that has finished is not scheduled again, because the
other side has closed and owes nothing.

A bit that is scheduled while its method still runs is cleared with it. This can
happen to a post and to an acknowledgement, and then the sides disagree for good.
-/

namespace Omi.Strands

open Option Function Endpoint

universe u

/-! ## What holds between the sides -/

variable {s : Endpoint μ}

namespace Endpoint

variable {μ : Type u}

/-- The bit is set for a method that has not started. -/
def InFlight (s : Endpoint μ) (bit : Bit) : Prop :=
  s.bits bit = true ∧ s.running ≠ some (.method bit)

/-- The flags of the side that posts to the other. -/
structure Link (this other : Endpoint μ) : Prop where
  pending : this.thisAckPending = true
    ↔ other.InFlight .post ∨ other.otherAckPending = true ∨ this.InFlight .ack
  postAlone : other.InFlight .post → other.otherAckPending = false ∧ ¬this.InFlight .ack
  ackAlone : this.InFlight .ack → other.otherAckPending = false
  mail : other.InFlight .post → this.posted = other.delivered ++ other.stored.toList
  noMail : ¬other.InFlight .post → this.posted = other.delivered
  closed : this.thisClosedOther = true ↔ other.InFlight .close ∨ other.otherClosedThis = true
  closeAlone : other.InFlight .close → other.otherClosedThis = false
  closing : other.running = some (.method .close) → other.otherClosedThis = true

/-- What holds of a side by itself. -/
structure Own (s : Endpoint μ) : Prop where
  runs : s.running ≠ none → s.executing = true
  awake : ∀ bit, s.bits bit = true → s.executing = true
  finished : s.finished = if s.executing = false ∧ s.checkFinished = true then 1 else 0

theorem first_eq_none : s.first = none ↔ ∀ bit, s.bits bit = false := by
  constructor
  · intro none bit
    rw [first] at none
    split_ifs at none with post ack close
    cases bit
    · exact Bool.eq_false_iff.mpr post
    · exact Bool.eq_false_iff.mpr ack
    · exact Bool.eq_false_iff.mpr close
  · intro clear
    rw [first, clear, clear, clear]
    rfl

theorem bits_of_first {bit : Bit} (found : s.first = some bit) : s.bits bit = true := by
  rw [first] at found
  split_ifs at found with post ack close
  all_goals
    cases found
    assumption

/-! ### How the steps change what is in flight -/

variable {this other this' other' : Endpoint μ} {bit c : Bit}

theorem inFlight_startMethod (idle : s.running = none) :
    (s.startMethod bit).InFlight c ↔ s.InFlight c ∧ c ≠ bit := by
  have same : (s.startMethod bit).bits = s.bits := by cases bit <;> rfl
  have running : (s.startMethod bit).running = some (.method bit) := by cases bit <;> rfl
  rw [InFlight, InFlight, same, running, idle]
  constructor
  · rintro ⟨set, other⟩
    exact ⟨⟨set, nofun⟩, fun equal => other (by rw [equal])⟩
  · rintro ⟨⟨set, -⟩, other⟩
    exact ⟨set, fun equal => other (by cases equal; rfl)⟩

/-- What is in flight lands as its method starts. -/
theorem inFlight_until_startMethod (idle : s.running = none) (set : s.bits bit = true) :
    s.InFlight bit ∧ ¬(s.startMethod bit).InFlight bit := by
  refine ⟨⟨set, by rw [idle]; nofun⟩, ?_⟩
  rw [inFlight_startMethod idle]
  exact fun both => both.2 rfl

theorem inFlight_endMethod {running : Running} (here : s.running = some running) :
    (s.endMethod running).InFlight c ↔ s.InFlight c := by
  rw [InFlight, InFlight, here]
  cases running with
  | other => exact ⟨fun flight => ⟨flight.1, nofun⟩, fun flight => ⟨flight.1, nofun⟩⟩
  | method bit =>
    change update s.bits bit false c = true ∧ _ ↔ _
    rw [update_apply]
    by_cases equal : c = bit
    · subst equal
      rw [if_pos rfl]
      exact ⟨fun flight => absurd flight.1 Bool.false_ne_true, fun flight => absurd rfl flight.2⟩
    · rw [if_neg equal]
      refine ⟨fun flight => ⟨flight.1, ?_⟩, fun flight => ⟨flight.1, nofun⟩⟩
      rintro ⟨⟩
      exact equal rfl

theorem inFlight_schedule (clear : s.running ≠ some (.method bit)) :
    (s.schedule bit).InFlight c ↔ s.InFlight c ∨ c = bit := by
  change update s.bits bit true c = true ∧ s.running ≠ some (.method c) ↔ _
  rw [update_apply]
  by_cases equal : c = bit
  · subst equal
    rw [if_pos rfl]
    exact ⟨fun _ => .inr rfl, fun _ => ⟨rfl, clear⟩⟩
  · rw [if_neg equal]
    exact ⟨.inl, fun flight => flight.resolve_right equal⟩

/-- Another bit is in flight as before, whether or not this one is scheduled in time. -/
theorem inFlight_schedule_of_ne (different : c ≠ bit) :
    (s.schedule bit).InFlight c ↔ s.InFlight c := by
  change update s.bits bit true c = true ∧ s.running ≠ some (.method c) ↔ _
  rw [update_of_ne different]
  exact Iff.rfl

section

variable (link : this.Link other)
include link

/-- The sender changes in what does not matter. -/
theorem Link.sender (pending : this'.thisAckPending = this.thisAckPending)
    (ack : this'.InFlight .ack ↔ this.InFlight .ack) (posted : this'.posted = this.posted)
    (closed : this'.thisClosedOther = this.thisClosedOther) : this'.Link other where
  pending := by
    rw [pending, ack]
    exact link.pending
  postAlone flight := by
    rw [ack]
    exact link.postAlone flight
  ackAlone flight := link.ackAlone (ack.mp flight)
  mail flight := posted.trans (link.mail flight)
  noMail none := posted.trans (link.noMail none)
  closed := by
    rw [closed]
    exact link.closed
  closeAlone := link.closeAlone
  closing := link.closing

/-- The receiver changes in what does not matter. -/
theorem Link.receiver (post : other'.InFlight .post ↔ other.InFlight .post)
    (close : other'.InFlight .close ↔ other.InFlight .close)
    (pending : other'.otherAckPending = other.otherAckPending)
    (closed : other'.otherClosedThis = other.otherClosedThis)
    (stored : other'.stored = other.stored) (delivered : other'.delivered = other.delivered)
    (closing : other'.running = some (.method .close) → other.running = some (.method .close)) :
    this.Link other' where
  pending := by
    rw [post, pending]
    exact link.pending
  postAlone flight := by
    rw [pending]
    exact link.postAlone (post.mp flight)
  ackAlone flight := pending.trans (link.ackAlone flight)
  mail flight := by
    rw [delivered, stored]
    exact link.mail (post.mp flight)
  noMail none := by
    rw [delivered]
    exact link.noMail fun flight => none (post.mpr flight)
  closed := by
    rw [close, closed]
    exact link.closed
  closeAlone flight := closed.trans (link.closeAlone (close.mp flight))
  closing running := closed.trans (link.closing (closing running))

/-! ### What the steps do to the sides -/

/-- The message in flight is delivered and has to be acknowledged. -/
theorem Link.startPost (idle : other.running = none)
    (set : other.bits .post = true) : this.Link (other.startMethod .post) := by
  obtain ⟨flight, landed⟩ := inFlight_until_startMethod idle set
  have close : (other.startMethod .post).InFlight .close ↔ other.InFlight .close := by
    rw [inFlight_startMethod idle]
    exact and_iff_left nofun
  obtain ⟨-, noAck⟩ := link.postAlone flight
  refine ⟨?_, fun again => absurd again landed, fun ack => absurd ack noAck,
    fun again => absurd again landed, fun _ => link.mail flight, ?_, ?_, nofun⟩
  · exact ⟨fun _ => .inr (.inl rfl), fun _ => link.pending.mpr (.inl flight)⟩
  · rw [close]
    exact link.closed
  · intro closing
    exact link.closeAlone (close.mp closing)

/-- The acknowledgement in flight arrives. -/
theorem Link.startAck (idle : this.running = none)
    (set : this.bits .ack = true) : (this.startMethod .ack).Link other := by
  obtain ⟨flight, landed⟩ := inFlight_until_startMethod idle set
  have noPost : ¬other.InFlight .post := fun post => (link.postAlone post).2 flight
  refine ⟨?_, fun post => absurd post noPost, fun ack => absurd ack landed, link.mail, link.noMail,
    link.closed, link.closeAlone, link.closing⟩
  constructor
  · intro pending
    cases pending
  · rintro (post | unacknowledged | ack)
    · exact absurd post noPost
    · cases (link.ackAlone flight).symm.trans unacknowledged
    · exact absurd ack landed

theorem Link.startClose (idle : other.running = none)
    (set : other.bits .close = true) : this.Link (other.startMethod .close) := by
  obtain ⟨flight, landed⟩ := inFlight_until_startMethod idle set
  have post : (other.startMethod .close).InFlight .post ↔ other.InFlight .post := by
    rw [inFlight_startMethod idle]
    exact and_iff_left nofun
  refine ⟨?_, ?_, link.ackAlone, ?_, ?_, ?_, fun again => absurd again landed, fun _ => rfl⟩
  · rw [post]
    exact link.pending
  · intro flight
    exact link.postAlone (post.mp flight)
  · intro flight
    exact link.mail (post.mp flight)
  · intro none
    exact link.noMail fun flight => none (post.mpr flight)
  · exact ⟨fun _ => .inr rfl, fun _ => link.closed.mpr (.inl flight)⟩

/-- A post while no acknowledgement is missing, to a side that is not in its `Post` method. -/
theorem Link.post (msg : μ) (free : this.thisAckPending = false)
    (clear : other.running ≠ some (.method .post)) :
    Link { this with thisAckPending := true, posted := this.posted ++ [msg] }
      (other.receivePost msg) := by
  have nothing : ¬(other.InFlight .post ∨ other.otherAckPending = true ∨ this.InFlight .ack) := by
    intro some
    cases free.symm.trans (link.pending.mpr some)
  have noPost : ¬other.InFlight .post := fun post => nothing (.inl post)
  have acknowledged : other.otherAckPending = false :=
    Bool.eq_false_iff.mpr fun pending => nothing (.inr (.inl pending))
  have noAck : ¬this.InFlight .ack := fun ack => nothing (.inr (.inr ack))
  have flight : (other.receivePost msg).InFlight .post :=
    (inFlight_schedule (s := { other with stored := some msg }) clear).mpr (.inr rfl)
  have close : (other.receivePost msg).InFlight .close ↔ other.InFlight .close :=
    inFlight_schedule_of_ne (s := { other with stored := some msg }) nofun
  refine ⟨⟨fun _ => .inl flight, fun _ => rfl⟩, fun _ => ⟨acknowledged, noAck⟩,
    fun ack => absurd ack noAck, fun _ => ?_, fun none => absurd flight none, ?_, ?_, link.closing⟩
  · change this.posted ++ [msg] = other.delivered ++ [msg]
    rw [link.noMail noPost]
  · rw [close]
    exact link.closed
  · intro closing
    exact link.closeAlone (close.mp closing)

/-- An acknowledgement for a side that is not in its `Ack` method. -/
theorem Link.ack (owed : other.otherAckPending = true)
    (clear : this.running ≠ some (.method .ack)) :
    Link (this.schedule .ack) { other with otherAckPending := false } := by
  have pending : this.thisAckPending = true := link.pending.mpr (.inr (.inl owed))
  have noPost : ¬other.InFlight .post := by
    intro post
    cases (link.postAlone post).1.symm.trans owed
  have flight : (this.schedule .ack).InFlight .ack := (inFlight_schedule clear).mpr (.inr rfl)
  exact ⟨⟨fun _ => .inr (.inr flight), fun _ => pending⟩, fun post => absurd post noPost,
    fun _ => rfl, link.mail, link.noMail, link.closed, link.closeAlone, link.closing⟩

theorem Link.close (first : this.thisClosedOther = false) :
    Link { this with thisClosedOther := true } (other.schedule .close) := by
  have nothing : ¬(other.InFlight .close ∨ other.otherClosedThis = true) := by
    intro some
    cases first.symm.trans (link.closed.mpr some)
  have clear : other.running ≠ some (.method .close) :=
    fun running => nothing (.inr (link.closing running))
  have flight : (other.schedule .close).InFlight .close := (inFlight_schedule clear).mpr (.inr rfl)
  have post : (other.schedule .close).InFlight .post ↔ other.InFlight .post :=
    inFlight_schedule_of_ne nofun
  refine ⟨?_, ?_, link.ackAlone, ?_, ?_, ⟨fun _ => .inl flight, fun _ => rfl⟩, ?_, link.closing⟩
  · rw [post]
    exact link.pending
  · intro flight
    exact link.postAlone (post.mp flight)
  · intro flight
    exact link.mail (post.mp flight)
  · intro none
    exact link.noMail fun flight => none (post.mpr flight)
  · intro _
    exact Bool.eq_false_iff.mpr fun closed => nothing (.inr closed)

end

theorem own_of_executing (executing : s.executing = true) (zero : s.finished = 0) : s.Own where
  runs _ := executing
  awake _ _ := executing
  finished := by
    rw [zero, executing]
    rfl

theorem Own.finished_of_executing (own : s.Own) (executing : s.executing = true) :
    s.finished = 0 := by
  rw [own.finished, executing]
  rfl

/-- A side that has something to do has not finished. -/
theorem Own.finished_of_check (own : s.Own) (check : s.checkFinished = false) : s.finished = 0 := by
  rw [own.finished, check]
  exact if_neg fun both => Bool.false_ne_true both.2

theorem Own.exit (own : s.Own) (executing : s.executing = true) (idle : s.running = none)
    (last : s.first = none) : s.exit.Own where
  runs running := absurd idle running
  awake bit set := by cases (first_eq_none.mp last bit).symm.trans set
  finished := by
    change (if s.checkFinished = true then s.finished + 1 else s.finished)
      = if false = false ∧ s.checkFinished = true then 1 else 0
    rw [own.finished_of_executing executing]
    simp

theorem checkFinished_of_ackPending (pending : s.thisAckPending = true) :
    s.checkFinished = false := by
  simp [checkFinished, pending]

theorem checkFinished_of_open (pending : s.otherClosedThis = false) : s.checkFinished = false := by
  simp [checkFinished, pending]

/-- What a side gets before it closes finds the other side at work. -/
theorem Link.unfinished_of_open (link : this.Link other) (own : other.Own)
    (first : this.thisClosedOther = false) : other.finished = 0 := by
  apply own.finished_of_check
  apply checkFinished_of_open
  refine Bool.eq_false_iff.mpr fun closed => ?_
  cases first.symm.trans (link.closed.mpr (.inr closed))

theorem Link.unfinished_of_owed (link : this.Link other) (own : this.Own)
    (owed : other.otherAckPending = true) : this.finished = 0 :=
  own.finished_of_check (checkFinished_of_ackPending (link.pending.mpr (.inr (.inl owed))))

end Endpoint

/-- What every step preserves. -/
structure Pair.Joined {μ : Type u} (p : Pair μ) : Prop where
  forth : p.this.Link p.other
  back : p.other.Link p.this
  this : p.this.Own
  other : p.other.Own

/-- No bit is scheduled while its method is still running. -/
def Pair.Clear {μ : Type u} (p : Pair μ) : Deed μ → Prop
  | .post _ => p.other.running ≠ some (.method .post)
  | .ack => p.other.running ≠ some (.method .ack)
  | .enter => True
  | .start => True
  | .close => True
  | .return_ => True
  | .exit => True

namespace Pair

variable {μ : Type u} {p next : Pair μ}

section

variable (joined : p.Joined)
include joined

theorem Joined.swap : p.swap.Joined :=
  ⟨joined.back, joined.forth, joined.other, joined.this⟩

/-- A side that may act has started. -/
theorem Joined.executing (running : p.this.running ≠ none) :
    p.this.executing = true ∧ p.this.finished = 0 :=
  ⟨joined.this.runs running, joined.this.finished_of_executing (joined.this.runs running)⟩

theorem Joined.start (idle : p.this.running = none) {bit : Bit} (found : p.this.first = some bit) :
    Joined { p with this := p.this.startMethod bit } := by
  have set := bits_of_first found
  have executing := joined.this.awake bit set
  have zero := joined.this.finished_of_executing executing
  have stays (c : Bit) (different : c ≠ bit) :
      (p.this.startMethod bit).InFlight c ↔ p.this.InFlight c := by
    rw [inFlight_startMethod idle]
    exact and_iff_left different
  cases bit with
  | post =>
    exact ⟨joined.forth.sender rfl (stays .ack nofun) rfl rfl, joined.back.startPost idle set,
      own_of_executing executing zero, joined.other⟩
  | ack =>
    refine ⟨joined.forth.startAck idle set, ?_, own_of_executing executing zero, joined.other⟩
    exact joined.back.receiver (stays .post nofun) (stays .close nofun) rfl rfl rfl rfl nofun
  | close =>
    exact ⟨joined.forth.sender rfl (stays .ack nofun) rfl rfl, joined.back.startClose idle set,
      own_of_executing executing zero, joined.other⟩

theorem Joined.enter (idle : p.this.running = none) (zero : p.this.finished = 0) :
    Joined { p with this := { p.this with executing := true, running := some .other } } := by
  have stays (c : Bit) : Endpoint.InFlight
      { p.this with executing := true, running := some .other } c ↔ p.this.InFlight c := by
    rw [Endpoint.InFlight, Endpoint.InFlight, idle]
    exact ⟨fun flight => ⟨flight.1, nofun⟩, fun flight => ⟨flight.1, nofun⟩⟩
  refine ⟨joined.forth.sender rfl (stays .ack) rfl rfl, ?_, own_of_executing rfl zero, joined.other⟩
  exact joined.back.receiver (stays .post) (stays .close) rfl rfl rfl rfl nofun

theorem Joined.post (running : p.this.running ≠ none)
    (free : p.this.thisAckPending = false) (opened : p.this.thisClosedOther = false) {msg : μ}
    (clear : p.other.running ≠ some (.method .post)) :
    Joined
      { this := { p.this with thisAckPending := true, posted := p.this.posted ++ [msg] }
        other := p.other.receivePost msg } := by
  obtain ⟨executing, zero⟩ := joined.executing running
  refine ⟨joined.forth.post msg free clear, ?_, own_of_executing executing zero,
    own_of_executing rfl (joined.forth.unfinished_of_open joined.other opened)⟩
  have ack : (p.other.receivePost msg).InFlight .ack ↔ p.other.InFlight .ack :=
    inFlight_schedule_of_ne (s := { p.other with stored := some msg }) nofun
  have sender : (p.other.receivePost msg).Link p.this := joined.back.sender rfl ack rfl rfl
  exact sender.receiver Iff.rfl Iff.rfl rfl rfl rfl rfl id

theorem Joined.ack (running : p.this.running ≠ none)
    (owed : p.this.otherAckPending = true) (clear : p.other.running ≠ some (.method .ack)) :
    Joined
      { this := { p.this with otherAckPending := false }
        other := p.other.schedule .ack } := by
  obtain ⟨executing, zero⟩ := joined.executing running
  refine ⟨?_, joined.back.ack owed clear, own_of_executing executing zero,
    own_of_executing rfl (joined.back.unfinished_of_owed joined.other owed)⟩
  have stays (c : Bit) (different : c ≠ .ack) :
      (p.other.schedule .ack).InFlight c ↔ p.other.InFlight c :=
    inFlight_schedule_of_ne different
  exact (joined.forth.receiver (stays .post nofun) (stays .close nofun) rfl rfl rfl rfl id).sender
    rfl Iff.rfl rfl rfl

theorem Joined.close (running : p.this.running ≠ none) (opened : p.this.thisClosedOther = false) :
    Joined
      { this := { p.this with thisClosedOther := true }
        other := p.other.schedule .close } := by
  obtain ⟨executing, zero⟩ := joined.executing running
  refine ⟨joined.forth.close opened, ?_, own_of_executing executing zero,
    own_of_executing rfl (joined.forth.unfinished_of_open joined.other opened)⟩
  have ack : (p.other.schedule .close).InFlight .ack ↔ p.other.InFlight .ack :=
    inFlight_schedule_of_ne nofun
  have sender : (p.other.schedule .close).Link p.this := joined.back.sender rfl ack rfl rfl
  exact sender.receiver Iff.rfl Iff.rfl rfl rfl rfl rfl id

theorem Joined.endMethod {running : Running} (here : p.this.running = some running) :
    Joined { p with this := p.this.endMethod running } := by
  obtain ⟨executing, zero⟩ := joined.executing (by rw [here]; nofun)
  have stays (c : Bit) : (p.this.endMethod running).InFlight c ↔ p.this.InFlight c :=
    inFlight_endMethod here
  cases running with
  | method bit | other =>
    refine ⟨joined.forth.sender rfl (stays .ack) rfl rfl, ?_,
      own_of_executing executing zero, joined.other⟩
    exact joined.back.receiver (stays .post) (stays .close) rfl rfl rfl rfl nofun

theorem Joined.act {deed : Deed μ} (clear : p.Clear deed)
    (taken : p.act deed = some next) : next.Joined := by
  cases deed with
  | enter =>
    simp only [Pair.act] at taken
    split_ifs at taken with guard
    cases taken
    exact joined.enter guard.1 guard.2
  | start =>
    simp only [Pair.act] at taken
    split_ifs at taken with idle
    obtain ⟨bit, found, rfl⟩ := map_eq_some_iff.mp taken
    exact joined.start idle found
  | post msg =>
    simp only [Pair.act] at taken
    split_ifs at taken with guard
    cases taken
    exact joined.post guard.1 guard.2.1 guard.2.2 clear
  | ack =>
    simp only [Pair.act] at taken
    split_ifs at taken with guard
    cases taken
    exact joined.ack guard.1 guard.2 clear
  | close =>
    simp only [Pair.act] at taken
    split_ifs at taken with guard
    cases taken
    exact joined.close guard.1 guard.2
  | return_ =>
    obtain ⟨running, here, rfl⟩ := map_eq_some_iff.mp taken
    exact joined.endMethod here
  | exit =>
    simp only [Pair.act] at taken
    split_ifs at taken with guard
    cases taken
    obtain ⟨executing, idle, last⟩ := guard
    exact ⟨joined.forth.sender rfl Iff.rfl rfl rfl,
      joined.back.receiver Iff.rfl Iff.rfl rfl rfl rfl rfl id,
      joined.this.exit executing idle last, joined.other⟩

end

/-! ## Whole runs -/

/-- One direction of the interaction, as the flags of both sides show it: an acknowledgement
is missing exactly while a post is in flight to the other side, is not acknowledged by it, or
its acknowledgement is in flight; and what was posted is what was delivered, with the message
in the mailbox if it is still in flight. -/
structure Direction (this other : Endpoint μ) : Prop where
  pending : this.thisAckPending = true
    ↔ other.InFlight .post ∨ other.otherAckPending = true ∨ this.InFlight .ack
  mail : other.InFlight .post → this.posted = other.delivered ++ other.stored.toList
  noMail : ¬other.InFlight .post → this.posted = other.delivered

/-- A side finishes at most once, and then it has closed and been closed, has acknowledged
everything and has all its acknowledgements, and has nothing left to do. -/
structure FinishesOnce (s : Endpoint μ) : Prop where
  once : s.finished ≤ 1
  complete : s.finished = 1 → s.checkFinished = true ∧ s.running = none ∧ ∀ bit, s.bits bit = false

/-- No method is scheduled or runs on either side. -/
def Quiet (p : Pair μ) : Prop := p.this.executing = false ∧ p.other.executing = false

/-- Both sides have closed and acknowledged everything they got. -/
def Settled (p : Pair μ) : Prop :=
  (p.this.thisClosedOther = true ∧ p.this.otherAckPending = false)
    ∧ p.other.thisClosedOther = true ∧ p.other.otherAckPending = false

/-- The sides agree about the interaction. -/
structure Consistent (p : Pair μ) : Prop where
  forth : Direction p.this p.other
  back : Direction p.other p.this
  this : FinishesOnce p.this
  other : FinishesOnce p.other
  both : p.Quiet → p.Settled → p.this.finished = 1 ∧ p.other.finished = 1

theorem finishesOnce_of_own (own : s.Own) : FinishesOnce s := by
  constructor
  · rw [own.finished]
    split
    · exact Nat.le_refl 1
    · exact Nat.zero_le 1
  · intro one
    rw [own.finished] at one
    split_ifs at one with complete
    refine ⟨complete.2, ?_, ?_⟩
    · by_contra running
      cases complete.1.symm.trans (own.runs running)
    · intro bit
      refine Bool.eq_false_iff.mpr fun set => ?_
      cases complete.1.symm.trans (own.awake bit set)

/-- In a quiet interaction nothing is in flight. -/
theorem not_inFlight_of_quiet (own : s.Own) (quiet : s.executing = false)
    (bit : Bit) : ¬s.InFlight bit := by
  intro flight
  cases quiet.symm.trans (own.awake bit flight.1)

theorem finished_of_settled {this other : Endpoint μ} (forth : this.Link other)
    (back : other.Link this) (thisOwn : this.Own) (otherOwn : other.Own)
    (thisQuiet : this.executing = false) (otherQuiet : other.executing = false)
    (thisClosed : this.thisClosedOther = true) (otherClosed : other.thisClosedOther = true)
    (thisAcked : this.otherAckPending = false) (otherAcked : other.otherAckPending = false) :
    this.finished = 1 := by
  have closed : this.otherClosedThis = true := by
    refine (back.closed.mp otherClosed).resolve_left ?_
    exact not_inFlight_of_quiet thisOwn thisQuiet .close
  have pending : this.thisAckPending = false := by
    refine Bool.eq_false_iff.mpr fun pending => ?_
    rcases forth.pending.mp pending with post | owed | ack
    · exact not_inFlight_of_quiet otherOwn otherQuiet .post post
    · cases otherAcked.symm.trans owed
    · exact not_inFlight_of_quiet thisOwn thisQuiet .ack ack
  rw [thisOwn.finished, thisQuiet, checkFinished, thisClosed, pending, closed, thisAcked]
  rfl

theorem Joined.consistent (joined : p.Joined) : p.Consistent where
  forth := ⟨joined.forth.pending, joined.forth.mail, joined.forth.noMail⟩
  back := ⟨joined.back.pending, joined.back.mail, joined.back.noMail⟩
  this := finishesOnce_of_own joined.this
  other := finishesOnce_of_own joined.other
  both quiet settled :=
    ⟨finished_of_settled joined.forth joined.back joined.this joined.other quiet.1 quiet.2
        settled.1.1 settled.2.1 settled.1.2 settled.2.2,
      finished_of_settled joined.back joined.forth joined.other joined.this quiet.2 quiet.1
        settled.2.1 settled.1.1 settled.2.2 settled.1.2⟩

theorem Consistent.swap (consistent : p.Consistent) : p.swap.Consistent where
  forth := consistent.back
  back := consistent.forth
  this := consistent.other
  other := consistent.this
  both quiet settled := (consistent.both quiet.symm settled.symm).symm

/-- A post or acknowledgement that finds its method running is lost, and the sides disagree. -/
theorem Joined.clear_of_consistent (joined : p.Joined) {deed : Deed μ}
    (taken : p.act deed = some next) (consistent : next.Consistent) : p.Clear deed := by
  cases deed with
  | post msg =>
    intro running
    simp only [Pair.act] at taken
    split_ifs at taken with guard
    cases taken
    rcases consistent.forth.pending.mp rfl with post | owed | ack
    · exact post.2 running
    · cases guard.2.1.symm.trans (joined.forth.pending.mpr (.inr (.inl owed)))
    · cases guard.2.1.symm.trans (joined.forth.pending.mpr (.inr (.inr ack)))
  | ack =>
    intro running
    simp only [Pair.act] at taken
    split_ifs at taken with guard
    cases taken
    have pending := joined.back.pending.mpr (.inr (.inl guard.2))
    rcases consistent.back.pending.mp pending with post | owed | ack
    · cases (joined.back.postAlone post).1.symm.trans guard.2
    · cases owed
    · exact ack.2 running
  | enter | start | close | return_ | exit => trivial

/-- The step of a side finds the method that it schedules not running. -/
def ClearStep (p : Pair μ) : Bool × Deed μ → Prop
  | (false, deed) => p.Clear deed
  | (true, deed) => p.swap.Clear deed

theorem Joined.step (joined : p.Joined) {e : Bool × Deed μ} (clear : p.ClearStep e)
    (taken : p.step e = some next) : next.Joined := by
  obtain ⟨right, deed⟩ := e
  cases right with
  | false => exact joined.act clear taken
  | true =>
    obtain ⟨swapped, acted, rfl⟩ := map_eq_some_iff.mp taken
    exact (joined.swap.act clear acted).swap

theorem Joined.clearStep_of_consistent (joined : p.Joined) {e : Bool × Deed μ}
    (taken : p.step e = some next) (consistent : next.Consistent) : p.ClearStep e := by
  obtain ⟨right, deed⟩ := e
  cases right with
  | false => exact joined.clear_of_consistent taken consistent
  | true =>
    obtain ⟨swapped, acted, rfl⟩ := map_eq_some_iff.mp taken
    exact joined.swap.clear_of_consistent acted consistent.swap

/-- An opened interaction; `acked` says whether the side that opened it has got the first
acknowledgement. -/
def opened (acked : Bool) : Pair μ := ⟨.opened (!acked) false, .opened false (!acked)⟩

theorem joined_opened (acked : Bool) : (opened acked : Pair μ).Joined := by
  have none (a b : Bool) (bit : Bit) : ¬(Endpoint.opened a b : Endpoint μ).InFlight bit :=
    fun flight => Bool.false_ne_true flight.1
  have own (a b : Bool) : (Endpoint.opened a b : Endpoint μ).Own :=
    ⟨fun running => absurd rfl running, nofun, rfl⟩
  have link (a b c : Bool) : (Endpoint.opened a b : Endpoint μ).Link (.opened c a) := by
    refine ⟨⟨fun pending => .inr (.inl pending), ?_⟩, fun post => absurd post (none _ _ _),
      fun ack => absurd ack (none _ _ _), fun post => absurd post (none _ _ _), fun _ => rfl,
      ⟨nofun, ?_⟩, fun close => absurd close (none _ _ _), nofun⟩
    · rintro (post | owed | ack)
      · exact absurd post (none _ _ _)
      · exact owed
      · exact absurd ack (none _ _ _)
    · rintro (close | closed)
      · exact absurd close (none _ _ _)
      · exact closed
  exact ⟨link _ _ _, link _ _ _, own _ _, own _ _⟩

/-- The sides of an interaction agree after every step of a run exactly if no step posts to a
side that is still in its `Post` method, or acknowledges to one that is still in its `Ack`
method. -/
theorem interaction_consistent_iff (acked : Bool) (events : List (Bool × Deed μ)) :
    Consistent (opened acked : Pair μ)
      ∧ (Run.Along step (fun p e => ∀ next, p.step e = some next → next.Consistent)
          (opened acked) events
        ↔ Run.Along step (fun p e => p.step e ≠ none → p.ClearStep e) (opened acked) events) := by
  refine ⟨(joined_opened acked).consistent, ?_⟩
  have preserved : ∀ (p : Pair μ) e next, p.Joined → (p.step e ≠ none → p.ClearStep e) →
      p.step e = some next → next.Joined := by
    intro p e next joined clear taken
    exact joined.step (clear (by rw [taken]; nofun)) taken
  refine Run.along_iff_of_invariant ?_ preserved (joined_opened acked)
  intro p e joined
  constructor
  · intro consistent possible
    obtain ⟨next, taken⟩ := ne_none_iff_exists'.mp possible
    exact joined.clearStep_of_consistent taken (consistent next taken)
  · intro clear next taken
    exact (preserved p e next joined clear taken).consistent

/-- The left side posts again in its `Ack` method and is answered at once: the bit is still
set, so the second acknowledgement is lost with it when the method returns. -/
theorem ack_lost_in_ack_method :
    ∃ final, Run.run step (opened true : Pair Nat)
        [(false, .enter), (false, .post 1), (true, .start), (true, .ack), (true, .return_),
          (true, .exit), (false, .return_), (false, .start), (false, .post 2), (true, .start),
          (true, .ack), (true, .return_), (true, .exit), (false, .return_), (false, .exit)]
        = some final
      ∧ final.Quiet ∧ final.this.thisAckPending = true ∧ final.other.delivered = [1, 2]
      ∧ ¬final.Consistent := by
  refine ⟨_, rfl, ⟨rfl, rfl⟩, rfl, rfl, ?_⟩
  intro consistent
  rcases consistent.forth.pending.mp rfl with post | owed | ack
  · exact Bool.false_ne_true post.1
  · exact Bool.false_ne_true owed
  · exact Bool.false_ne_true ack.1

end Pair

end Omi.Strands
