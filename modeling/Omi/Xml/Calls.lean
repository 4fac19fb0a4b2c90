import Omi.Xml.Progress

/-!
# The calls of the parser

`XML_Next`, `XML_PutBack` and `XML_Skip`. The loop in `XML_Next` ends because
every round consumes text, and the one in `XML_Skip` because every call of
`XML_Next` consumes text or an element that was put on the stack.
-/

namespace Omi.Xml

/-- The loop in `XML_Next`. -/
def XML.loop (self : XML) : Except Fault (Option Event × XML) :=
  match _run : self.turn with
  | .error fault => .error fault
  | .ok (.again next) => next.loop
  | .ok (.event event next) => .ok (some event, next)
  | .ok (.done next) => .ok (none, next)
termination_by self.ptr.length
decreasing_by
  cases turn_fits _run with
  | again shorter => exact shorter

/-- `XML_Next`, with the origin of the element. `none` is the return value `1`. -/
def XML.nextFrom (self : XML) : Except Fault (Option Event × XML) :=
  match self.elemStack with
  | elem :: elemStack =>
    .ok (some ⟨elem, .stacked⟩,
      { self with elemStack := elemStack, nesting := self.nesting - 1 })
  | [] => self.loop

/-- `XML_Next`. -/
def XML.next (self : XML) : Except Fault (Option Elem × XML) :=
  self.nextFrom.map fun out => (out.1.map Event.elem, out.2)

/-- `XML_PutBack`. -/
def XML.putBack (self : XML) (elem : Elem) : Except Fault XML :=
  if self.elemStack.length = maxNested then .error .elementDepthOverflow
  else .ok { self with elemStack := elem :: self.elemStack }

variable {self next : XML}

/-- One round of the loop. -/
theorem loop_eq (self : XML) : self.loop =
    match self.turn with
    | .error fault => .error fault
    | .ok (.again next) => next.loop
    | .ok (.event event next) => .ok (some event, next)
    | .ok (.done next) => .ok (none, next) := by
  rw [XML.loop]
  split
  all_goals
    rename_i run
    rw [run]

theorem loop_again (here : self.turn = .ok (.again next)) : self.loop = next.loop := by
  rw [loop_eq, here]

variable {event : Event}

theorem loop_event (here : self.turn = .ok (.event event next)) :
    self.loop = .ok (some event, next) := by
  rw [loop_eq, here]

/-- Without a waiting element, `XML_Next` is its loop. -/
theorem next_of_loop (idle : self.elemStack = []) (run : self.loop = .ok (some event, next)) :
    self.next = .ok (some event.elem, next) := by
  unfold XML.next XML.nextFrom
  rw [idle]
  simp only
  rw [run]
  rfl

/-- What the loop in `XML_Next` ends with: the last round starts at a later place of the
document, in a parser that is otherwise unchanged. -/
inductive Ends (self : XML) : Option Event → XML → Prop where
  | event {p : List UInt8} {state : State} {event : Event} {next : XML} :
      Reads (self.moved p state) event next → next.ptr.length < self.ptr.length →
      Ends self (some event) next
  | done {p : List UInt8} {state : State} :
      self.stack = [] → Ends self none (self.moved p state)

theorem loop_ends {event : Option Event} (run : self.loop = .ok (event, next)) :
    Ends self event next := by
  fun_induction XML.loop self with
  | case1 => cases run
  | case2 self middle here ih =>
    cases turn_fits here with
    | again shorter =>
      cases ih run with
      | event reads less => exact .event reads (Nat.lt_trans less shorter)
      | done finished => exact .done finished
  | case3 self event middle here =>
    cases run
    cases turn_fits here with
    | event reads less => exact .event reads less
  | case4 self middle here =>
    cases run
    cases turn_fits here with
    | done finished => exact .done finished

/-- What `XML_Next` does: an element that was put on the stack is handed over, or the loop
runs. -/
theorem nextFrom_cases {event : Option Event} (run : self.nextFrom = .ok (event, next)) :
    (∃ elem rest, self.elemStack = elem :: rest ∧ event = some ⟨elem, .stacked⟩ ∧
        next = { self with elemStack := rest, nesting := self.nesting - 1 }) ∨
      (self.elemStack = [] ∧ Ends self event next) := by
  unfold XML.nextFrom at run
  split at run
  · rename_i elem rest stacked
    cases run
    exact .inl ⟨elem, rest, stacked, rfl, rfl⟩
  · rename_i empty
    exact .inr ⟨empty, loop_ends run⟩

theorem next_ok {elem : Option Elem} (run : self.next = .ok (elem, next)) :
    ∃ event, self.nextFrom = .ok (event, next) ∧ elem = event.map Event.elem := by
  obtain ⟨⟨event, after⟩, read, same⟩ := map_eq_ok run
  cases same
  exact ⟨event, read, rfl⟩

/-- The parser at the start of a document, with the namespaces that the client registered. -/
def reading (registered : List RegisteredNameSpace) (text : ZString) : XML :=
  { init with registeredNameSpaces := registered }.setText text

/-! ## Counting -/

/-- How an element changes the depth: a start tag goes one level down, an end tag up. -/
def Elem.weight (elem : Elem) : Int :=
  match elem.type with
  | .startTag => 1
  | .endTag => -1
  | _ => 0

/-- What a round does to the two stacks and to the counter. -/
inductive Counts (self : XML) (event : Event) (next : XML) : Prop where
  | opened : event.elem.weight = 1 → self.stack.length ≠ maxNested →
      next.stack.length = self.stack.length + 1 → next.elemStack = self.elemStack →
      next.nesting = self.nesting + 1 → Counts self event next
  | openedEmpty {elem : Elem} : event.elem.weight = 1 → elem.weight = -1 →
      next.stack = self.stack → next.elemStack = elem :: self.elemStack →
      next.nesting = self.nesting + 1 → Counts self event next
  | closed : event.elem.weight = -1 → self.stack.length = next.stack.length + 1 →
      next.elemStack = self.elemStack → next.nesting = self.nesting - 1 → Counts self event next
  | level : event.elem.weight = 0 → next.stack = self.stack → next.elemStack = self.elemStack →
      next.nesting = self.nesting → Counts self event next

theorem Reads.counts (reads : Reads self event next) : Counts self event next := by
  cases reads with
  | text kind =>
    refine .level ?_ rfl rfl rfl
    rcases kind with rfl | rfl
    · rfl
    · rfl
  | instruction kind =>
    refine .level ?_ rfl rfl rfl
    unfold Elem.weight
    rw [kind]
  | startTag lookup translation opened =>
    obtain ⟨i, rfl⟩ := findNamespace_ok lookup
    obtain ⟨j, rfl⟩ := translateAttrs_ok translation
    obtain ⟨p, -, ⟨-, -, rfl⟩ | ⟨-, room, rfl⟩⟩ := openElement_ok opened
    · exact .openedEmpty rfl rfl rfl rfl rfl
    · exact .opened rfl room rfl rfl rfl
  | endTag match' =>
    obtain ⟨ns, found, xn, stack, lookup, here, rfl, rfl⟩ := closeElement_ok match'
    obtain ⟨i, rfl⟩ := findNamespace_ok lookup
    obtain ⟨nameSpaces, j, left⟩ := leaveScope_eq
      { self with nameSpacesCacheIndex := i, stack := stack, nesting := self.nesting - 1 }
    refine .closed rfl ?_ ?_ ?_
    · change self.stack.length = (XML.leaveScope _).stack.length + 1
      rw [left, here]
      rfl
    · change (XML.leaveScope _).elemStack = self.elemStack
      rw [left]
    · change (XML.leaveScope _).nesting = self.nesting - 1
      rw [left]

/-- A bound on the number of calls that can still hand over an element. -/
def XML.remaining (self : XML) : Nat := 2 * self.ptr.length + self.elemStack.length

theorem Reads.length_elemStack_le (reads : Reads self event next) :
    next.elemStack.length ≤ self.elemStack.length + 1 := by
  cases reads.counts with
  | opened _ _ _ same _ => rw [same]; omega
  | openedEmpty _ _ _ pushed _ => rw [pushed, List.length_cons]
  | closed _ _ same _ | level _ _ same _ => rw [same]; omega

theorem remaining_lt {elem : Elem} (run : self.next = .ok (some elem, next)) :
    next.remaining < self.remaining := by
  obtain ⟨event, read, same⟩ := next_ok run
  obtain ⟨top, rest, stacked, -, rfl⟩ | ⟨empty, ends⟩ := nextFrom_cases read
  · unfold XML.remaining
    rw [stacked, List.length_cons]
    change 2 * self.ptr.length + rest.length < _
    omega
  · cases ends with
    | event reads shorter =>
      have pushed := reads.length_elemStack_le
      change next.elemStack.length ≤ self.elemStack.length + 1 at pushed
      unfold XML.remaining
      omega
    | done => cases same

/-- The loop of `XML_Skip`. The caller is not told what the elements are; they are collected
here for statements about them. A failure of `XML_Next` is passed on, and `none` is the other
way to fail: the document is finished before the loop is. -/
def XML.skipLoop (nesting : UInt64) (self : XML) : Except (Option Fault) (List Elem × XML) :=
  if nesting ≤ self.nesting then
    match _run : self.next with
    | .error fault => .error (some fault)
    | .ok (none, _) => .error none
    | .ok (some elem, next) =>
      (next.skipLoop nesting).map fun out => (elem :: out.1, out.2)
  else .ok ([], self)
termination_by self.remaining
decreasing_by exact remaining_lt _run

/-- `XML_Skip`. -/
def XML.skip (self : XML) : Except (Option Fault) (List Elem × XML) :=
  self.skipLoop self.nesting

end Omi.Xml
