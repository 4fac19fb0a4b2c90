import Omi.Wql.Grammar
import Omi.Wql.Parser

/-!
# The automaton of the parser

The stack of automaton states is determined by the place in the query that the
tokens so far have led to (`Spot`) and by the constructs that are open there
(`Frame`): parentheses, and connectives whose right side is being read. A `Track` is
a place with its frames and a count of what the actions have recorded.

`Track.feed` says how one token moves a track. The lemmas `feed_some` and
`feed_none` relate it to the tables: before the token is shifted, or refused, the
states of the track undergo a chain of reductions (`Settles`). Values, the text and
the limits of the parser play no part here.
-/

namespace Omi.Wql

/-! ## Actions of a state -/

/-- What a state does before a token. -/
inductive Action where
  | shift (state : Nat)
  | reduce (rule : Nat)
  | error
deriving DecidableEq, Repr

/-- The decision that `Parser.step` makes. -/
def actionOf (state code : Nat) : Action :=
  if yydefred.getD state 0 ≠ 0 then .reduce (yydefred.getD state 0)
  else
    match shiftOf state code with
    | some target => .shift target
    | none =>
      match reduceOf state code with
      | some rule => .reduce rule
      | none => .error

/-- What the actions have recorded: selected properties, symbols, uses of LIKE. -/
@[ext] structure Load where
  properties : Nat
  symbols : Nat
  likes : Nat
deriving DecidableEq, Repr

namespace Load

/-- Componentwise sum. -/
def add (a b : Load) : Load :=
  ⟨a.properties + b.properties, a.symbols + b.symbols, a.likes + b.likes⟩

instance : Add Load := ⟨add⟩

/-- Nothing. -/
def zero : Load := ⟨0, 0, 0⟩

/-- What the action of a production records. -/
def ofRule : Nat → Load
  | 5 | 6 => ⟨1, 0, 0⟩
  | 8 | 9 | 10 => ⟨0, 1, 0⟩
  | 12 | 13 | 14 | 15 | 16 | 17 | 19 => ⟨0, 3, 0⟩
  | 18 => ⟨0, 3, 1⟩
  | _ => zero

@[simp] theorem properties_add (a b : Load) :
    (a + b).properties = a.properties + b.properties := rfl

@[simp] theorem symbols_add (a b : Load) : (a + b).symbols = a.symbols + b.symbols := rfl

@[simp] theorem likes_add (a b : Load) : (a + b).likes = a.likes + b.likes := rfl

@[simp] theorem add_zero (a : Load) : a + zero = a := rfl

end Load

/-- The stack of states behind a reduction. -/
def reduceStates (states : List Nat) (rule : Nat) : List Nat :=
  let rest := states.drop (yylen.getD rule 0)
  gotoOf (rest.headD 0) (yylhs.getD rule (-1)).toNat :: rest

/-- A chain of reductions before a token, with what their actions record. Reductions to
`Start` are not part of it. -/
inductive Settles (code : Nat) : List Nat → Load → List Nat → Load → Prop
  | refl {states : List Nat} {load : Load} : Settles code states load states load
  | reduce {states final : List Nat} {load finalLoad : Load} (rule : Nat) :
      actionOf (states.headD 0) code = .reduce rule → 1 ≤ yylen.getD rule 0 →
      yylhs.getD rule (-1) ≠ 0 →
      Settles code (reduceStates states rule) (load + Load.ofRule rule) final finalLoad →
      Settles code states load final finalLoad

variable {code state word rule : Nat} {a b below : List Nat} {x y load : Load} {part : Part}
  {fs : List Frame} {op k : Kind}

theorem Settles.trans {c : List Nat} {z : Load} (first : Settles code a x b y)
    (second : Settles code b y c z) : Settles code a x c z := by
  induction first with
  | refl => exact second
  | reduce rule action positive inner _ ih => exact .reduce rule action positive inner (ih second)

/-! ## Frames and their states -/

/-- A construct that is open: its last part is being read. -/
inductive Frame where
  | paren
  | not
  | or
  | and
deriving DecidableEq, Repr

/-- The state behind a condition that completes the innermost frame. -/
def conditionState : List Frame → Nat
  | [] => 22
  | .paren :: _ => 27
  | .not :: _ => 24
  | .or :: _ => 48
  | .and :: _ => 49

/-- The states below a condition, from the innermost frame outwards. -/
def frameStates : List Frame → List Nat
  | [] => [11, 9, 7, 5, 1, 0]
  | .paren :: fs => 19 :: frameStates fs
  | .not :: fs => 12 :: frameStates fs
  | .or :: fs => 35 :: conditionState fs :: frameStates fs
  | .and :: fs => 36 :: conditionState fs :: frameStates fs

/-- The number of open parentheses. -/
def openParens (fs : List Frame) : Nat := fs.count .paren

/-- The state behind a literal. -/
def literalState : Kind → Nat
  | .boolean => 15
  | .integer => 16
  | .real => 17
  | .string => 18
  | _ => 13

/-- The state behind a comparison operator. -/
def compareState : Kind → Nat
  | .lt => 28
  | .le => 29
  | .ne => 30
  | .gt => 31
  | .eq => 32
  | .ge => 33
  | _ => 34

/-- The states of an operand, over the state of its first name. -/
def Part.states (word : Nat) : Part → List Nat
  | literal k => [literalState k]
  | .word => [word]
  | dot => [25, word]
  | member => [37, 25, word]
  | colon => [50, 37, 25, word]
  | colons => [51, 50, 37, 25, word]
  | embedded => [52, 51, 50, 37, 25, word]

/-- A place in a query with the frames open there and the record so far. -/
structure Track where
  spot : Spot
  frames : List Frame
  load : Load

namespace Track

/-- The stack of the parser, from the top. -/
def states (t : Track) : List Nat :=
  match t.spot with
  | .start => [0]
  | .select => [1, 0]
  | .star => [4, 1, 0]
  | .first => [3, 1, 0]
  | .comma => [8, 6, 1, 0]
  | .listed => [10, 8, 6, 1, 0]
  | .fromWord => [7, 5, 1, 0]
  | .className => [9, 7, 5, 1, 0]
  | .condition => frameStates t.frames
  | .left part => part.states 14 ++ frameStates t.frames
  | .compare op => compareState op :: 20 :: frameStates t.frames
  | .right op part => part.states 40 ++ compareState op :: 20 :: frameStates t.frames
  | .isa => 26 :: 14 :: frameStates t.frames
  | .isaName => 38 :: 26 :: 14 :: frameStates t.frames
  | .closed => 39 :: 27 :: 19 :: frameStates t.frames

/-- The record of a comparison. -/
def comparison (op : Kind) : Load := ⟨0, 3, if op = .like then 1 else 0⟩

/-- A token behind a complete condition: NOT and AND bind tighter than what follows,
OR binds tighter than everything but AND. -/
def settle : List Frame → Load → Kind → Option Track
  | [], load, k =>
    if k = .or then some ⟨.condition, [.or], load⟩
    else if k = .and then some ⟨.condition, [.and], load⟩ else none
  | .paren :: fs, load, k =>
    if k = .rightParen then some ⟨.closed, fs, load⟩
    else if k = .or then some ⟨.condition, .or :: .paren :: fs, load⟩
    else if k = .and then some ⟨.condition, .and :: .paren :: fs, load⟩ else none
  | .not :: fs, load, k | .and :: fs, load, k => settle fs (load + ⟨0, 1, 0⟩) k
  | .or :: fs, load, k =>
    if k = .and then some ⟨.condition, .and :: .or :: fs, load⟩
    else if k = .or ∨ k = .rightParen then settle fs (load + ⟨0, 1, 0⟩) k else none

/-- The end of the text behind a complete condition. -/
def settleEnd : List Frame → Load → Option Load
  | [], load => some load
  | .paren :: _, _ => none
  | .not :: fs, load | .and :: fs, load | .or :: fs, load => settleEnd fs (load + ⟨0, 1, 0⟩)

/-- The name that was read last is recorded when the list goes on or ends. -/
def leaving : Spot → Load
  | .first | .listed => ⟨1, 0, 0⟩
  | _ => .zero

/-- One token further. -/
def feed (t : Track) (k : Kind) : Option Track :=
  match t.spot with
  | .condition =>
    if k = .not then some { t with frames := .not :: t.frames }
    else if k = .leftParen then some { t with frames := .paren :: t.frames }
    else (Part.first k).map fun part => { t with spot := .left part }
  | .right op part =>
    match part.next k with
    | some more => some { t with spot := .right op more }
    | none => if part.complete then settle t.frames (t.load + comparison op) k else none
  | .isaName => settle t.frames (t.load + ⟨0, 3, 0⟩) k
  | .closed => settle t.frames t.load k
  | spot => (advance spot 0 k).map fun next =>
    { t with spot := next.1, load := t.load + leaving spot }

/-- The record when the text ends here, if it may. -/
def finish (t : Track) : Option Load :=
  match t.spot with
  | .className => some t.load
  | .right op part => if part.complete then settleEnd t.frames (t.load + comparison op) else none
  | .isaName => settleEnd t.frames (t.load + ⟨0, 3, 0⟩)
  | .closed => settleEnd t.frames t.load
  | _ => none

/-- The operands and operators of a place are what their names say, and no construct
is open before the condition begins. -/
def Valid (t : Track) : Prop :=
  match t.spot with
  | .left part => part.Valid
  | .compare op => op.isComparison = true
  | .right op part => op.isComparison = true ∧ part.Valid
  | .condition | .isa | .isaName | .closed => True
  | _ => t.frames = []

end Track

/-! ## The tables, read out -/

/-- Every token number. -/
def Kind.all : List Kind :=
  [star, leftParen, rightParen, comma, dot, colon, or, and, not, error, lt, fromWord, le,
   whereWord, ne, gt, eq, select, ge, null, like, isa, identifier, boolean, integer, real, string]

theorem Kind.mem_all : k ∈ Kind.all := by
  cases k <;> decide

/-- The states that look at the next token. -/
def lookingStates : List Nat :=
  [0, 1, 5, 6, 7, 8, 9, 11, 12, 14, 19, 20, 22, 25, 26, 27, 28, 29, 30, 31, 32, 33, 34, 35, 36,
   37, 40, 48, 50, 51]

/-- The actions of the states that look at the next token. -/
def row (state : Nat) (k : Kind) : Action :=
  match state with
  | 0 => if k = .select then .shift 1 else .error
  | 1 => if k = .star then .shift 4 else if k = .identifier then .shift 3 else .error
  | 5 => if k = .fromWord then .shift 7 else .error
  | 6 => if k = .comma then .shift 8 else if k = .fromWord then .reduce 4 else .error
  | 7 => if k = .identifier then .shift 9 else .error
  | 8 => if k = .identifier then .shift 10 else .error
  | 9 => if k = .whereWord then .shift 11 else .error
  | 14 =>
    if k = .dot then .shift 25 else if k = .isa then .shift 26
    else if k.isComparison then .reduce 26 else .error
  | 20 => if k.isComparison then .shift (compareState k) else .error
  | 22 => if k = .or then .shift 35 else if k = .and then .shift 36 else .error
  | 25 => if k = .identifier then .shift 37 else .error
  | 26 => if k = .identifier then .shift 38 else .error
  | 27 =>
    if k = .rightParen then .shift 39 else if k = .or then .shift 35
    else if k = .and then .shift 36 else .error
  | 28 | 29 | 30 | 31 | 32 | 33 | 34 =>
    if k = .identifier then .shift 40
    else if k.isLiteral then .shift (literalState k) else .error
  | 37 =>
    if k = .colon then .shift 50
    else if k.isComparison ∨ k = .or ∨ k = .and ∨ k = .rightParen then .reduce 27 else .error
  | 40 =>
    if k = .dot then .shift 25
    else if k = .or ∨ k = .and ∨ k = .rightParen then .reduce 26 else .error
  | 48 =>
    if k = .and then .shift 36
    else if k = .or ∨ k = .rightParen then .reduce 10 else .error
  | 50 => if k = .colon then .shift 51 else .error
  | 51 => if k = .identifier then .shift 52 else .error
  | _ =>
    if k = .not then .shift 12 else if k = .leftParen then .shift 19
    else if k = .identifier then .shift 14
    else if k.isLiteral then .shift (literalState k) else .error

/-- Their actions at the end of the text. -/
def rowEnd : Nat → Action
  | 9 => .reduce 1
  | 22 => .reduce 2
  | 37 => .reduce 27
  | 40 => .reduce 26
  | 48 => .reduce 10
  | _ => .error

theorem actionOf_eq_row (looking : state ∈ lookingStates) :
    actionOf state k.code = row state k := by
  have tables : ∀ state ∈ lookingStates, ∀ k ∈ Kind.all,
      actionOf state k.code = row state k := by decide +kernel
  exact tables state looking k k.mem_all

theorem actionOf_eq_rowEnd (looking : state ∈ lookingStates) : actionOf state 0 = rowEnd state := by
  have tables : ∀ state ∈ lookingStates, actionOf state 0 = rowEnd state := by decide
  exact tables state looking

/-- The states that a condition, an operand or a property may begin in. -/
theorem frameStates_cases (fs : List Frame) :
    ∃ top below, frameStates fs = top :: below ∧ top ∈ lookingStates ∧
      (∀ k, row top k = row 11 k) ∧ rowEnd top = .error ∧ top ≠ 0 ∧
      gotoOf top 1 = 20 ∧ gotoOf top 2 = 21 ∧ gotoOf top 6 = 23 ∧
      gotoOf top 4 = conditionState fs := by
  rcases fs with _ | ⟨_ | _ | _ | _, fs⟩
  all_goals
    refine ⟨_, _, rfl, ?_, fun _ => rfl, rfl, ?_, ?_, ?_, ?_, ?_⟩
    all_goals first | rfl | decide

/-! ## Chains of reductions -/

/-- A complete operand becomes an `Operand` on whatever it stands on. -/
theorem settles_operand {base : Nat} (valid : part.Valid) (complete : part.complete = true)
    (goto : gotoOf base 2 = 21) (onWord : part = .word → actionOf word code = .reduce 26)
    (onMember : part = .member → actionOf 37 code = .reduce 27) :
    Settles code (part.states word ++ base :: below) load
      (gotoOf base 1 :: base :: below) load := by
  -- The three forms of `Property` share the reduction from `Property` to `Operand`.
  have property : Settles code (gotoOf base 2 :: base :: below) load
      (gotoOf base 1 :: base :: below) load := by
    rw [goto]
    exact .reduce 25 rfl (by decide) (by decide) .refl
  cases part with
  | literal k =>
    cases k <;> first
      | exact absurd valid Bool.false_ne_true
      | exact .reduce 20 rfl (by decide) (by decide) .refl
      | exact .reduce 21 rfl (by decide) (by decide) .refl
      | exact .reduce 22 rfl (by decide) (by decide) .refl
      | exact .reduce 23 rfl (by decide) (by decide) .refl
      | exact .reduce 24 rfl (by decide) (by decide) .refl
  | word => exact .reduce 26 (onWord rfl) (by decide) (by decide) property
  | member => exact .reduce 27 (onMember rfl) (by decide) (by decide) property
  | embedded => exact .reduce 28 rfl (by decide) (by decide) property
  | dot | colon | colons => cases complete

/-- A predicate of three stack entries becomes a `Condition`. -/
theorem settles_predicate {a b c : Nat} (action : actionOf a code = .reduce rule)
    (three : yylen.getD rule 0 = 3) (predicate : yylhs.getD rule (-1) = 6) :
    Settles code (a :: b :: c :: frameStates fs) load (conditionState fs :: frameStates fs)
      (load + Load.ofRule rule) := by
  obtain ⟨top, below, shape, -, -, -, -, -, -, toPredicate, toCondition⟩ := frameStates_cases fs
  have last : Settles code (23 :: frameStates fs) (load + Load.ofRule rule)
      (conditionState fs :: frameStates fs) (load + Load.ofRule rule) := by
    rw [shape, ← toCondition]
    exact .reduce 11 rfl (by decide) (by decide) .refl
  have first : reduceStates (a :: b :: c :: frameStates fs) rule = 23 :: frameStates fs := by
    rw [reduceStates, three, predicate, shape, ← toPredicate]
    rfl
  refine .reduce rule action (by rw [three]; decide) (by rw [predicate]; decide) ?_
  rw [first]
  exact last

theorem settles_comparison (comparison : op.isComparison = true) :
    Settles code (gotoOf (compareState op) 1 :: compareState op :: 20 :: frameStates fs) load
      (conditionState fs :: frameStates fs) (load + Track.comparison op) := by
  cases op <;> first
    | exact absurd comparison Bool.false_ne_true
    | exact @settles_predicate code 14 load fs 41 _ _ rfl rfl rfl
    | exact @settles_predicate code 15 load fs 42 _ _ rfl rfl rfl
    | exact @settles_predicate code 13 load fs 43 _ _ rfl rfl rfl
    | exact @settles_predicate code 16 load fs 44 _ _ rfl rfl rfl
    | exact @settles_predicate code 12 load fs 45 _ _ rfl rfl rfl
    | exact @settles_predicate code 17 load fs 46 _ _ rfl rfl rfl
    | exact @settles_predicate code 18 load fs 47 _ _ rfl rfl rfl

theorem gotoOf_compareState (comparison : op.isComparison = true) :
    gotoOf (compareState op) 2 = 21 ∧ compareState op ∈ lookingStates ∧
      (∀ k, row (compareState op) k = row 28 k) ∧ rowEnd (compareState op) = .error := by
  cases op <;> first
    | exact absurd comparison Bool.false_ne_true
    | exact ⟨rfl, by decide, fun _ => rfl, rfl⟩

/-- A condition in parentheses is a condition. -/
theorem settles_closed :
    Settles code (39 :: 27 :: 19 :: frameStates fs) load (conditionState fs :: frameStates fs)
      load := by
  obtain ⟨top, below, shape, -, -, -, -, -, -, -, toCondition⟩ := frameStates_cases fs
  rw [shape, ← toCondition]
  exact .reduce 7 rfl (by decide) (by decide) .refl

/-- NOT, AND and OR are reduced with the condition on their right. -/
theorem settles_frame {f : Frame} (action : actionOf (conditionState (f :: fs)) code = .reduce rule)
    (which : f = .not ∧ rule = 8 ∨ f = .and ∧ rule = 9 ∨ f = .or ∧ rule = 10) :
    Settles code (conditionState (f :: fs) :: frameStates (f :: fs)) load
      (conditionState fs :: frameStates fs) (load + ⟨0, 1, 0⟩) := by
  obtain ⟨top, below, shape, -, -, -, -, -, -, -, toCondition⟩ := frameStates_cases fs
  have done : reduceStates (conditionState (f :: fs) :: frameStates (f :: fs)) rule =
      conditionState fs :: frameStates fs := by
    obtain ⟨rfl, rfl⟩ | ⟨rfl, rfl⟩ | ⟨rfl, rfl⟩ := which
    all_goals
      simp only [frameStates, shape]
      rw [← toCondition]
      rfl
  obtain ⟨rfl, rfl⟩ | ⟨rfl, rfl⟩ | ⟨rfl, rfl⟩ := which
  all_goals
    refine .reduce _ action (by decide) (by decide) ?_
    rw [done]
    exact .refl

/-! ## One token -/

/-- The states are reduced until the token is shifted, to the states of the new track,
or until it is refused. -/
def Moves (k : Kind) (states : List Nat) (load : Load) : Option Track → Prop
  | some t => ∃ settled target, Settles k.code states load settled t.load ∧
      actionOf (settled.headD 0) k.code = .shift target ∧ t.states = target :: settled
  | none => ∃ settled finalLoad, Settles k.code states load settled finalLoad ∧
      actionOf (settled.headD 0) k.code = .error

theorem Moves.after {t : Option Track} (chain : Settles k.code a x b y) (moves : Moves k b y t) :
    Moves k a x t := by
  cases t with
  | some t =>
    obtain ⟨settled, target, rest, action, shape⟩ := moves
    exact ⟨settled, target, chain.trans rest, action, shape⟩
  | none =>
    obtain ⟨settled, load, rest, action⟩ := moves
    exact ⟨settled, load, chain.trans rest, action⟩

/-- The token is shifted at once. -/
theorem Moves.shift {t : Track} {target : Nat} (top : Nat) (looking : top ∈ lookingStates)
    (action : row top k = .shift target) (same : t.load = load)
    (shape : t.states = target :: top :: below) : Moves k (top :: below) load (some t) :=
  ⟨top :: below, target, same ▸ .refl, (actionOf_eq_row looking).trans action, shape⟩

/-- The token is refused at once. -/
theorem Moves.refuse (top : Nat) (looking : top ∈ lookingStates) (action : row top k = .error) :
    Moves k (top :: below) load none :=
  ⟨top :: below, load, .refl, (actionOf_eq_row looking).trans action⟩

open Track

theorem settle_moves : ∀ load,
    Moves k (conditionState fs :: frameStates fs) load (settle fs load k) := by
  induction fs with
  | nil =>
    intro load
    rw [settle]
    split_ifs with isOr isAnd
    · exact .shift 22 (by decide) (by rw [isOr]; rfl) rfl rfl
    · exact .shift 22 (by decide) (by rw [isAnd]; rfl) rfl rfl
    · exact .refuse 22 (by decide) (by simp only [row, isOr, isAnd, if_false])
  | cons f fs ih =>
    intro load
    cases f with
    | paren =>
      rw [settle]
      split_ifs with isClose isOr isAnd
      · exact .shift 27 (by decide) (by rw [isClose]; rfl) rfl rfl
      · exact .shift 27 (by decide) (by rw [isOr]; rfl) rfl rfl
      · exact .shift 27 (by decide) (by rw [isAnd]; rfl) rfl rfl
      · exact .refuse 27 (by decide) (by simp only [row, isClose, isOr, isAnd, if_false])
    | not =>
      rw [settle]
      exact .after (settles_frame rfl (.inl ⟨rfl, rfl⟩)) (ih _)
    | and =>
      rw [settle]
      exact .after (settles_frame rfl (.inr (.inl ⟨rfl, rfl⟩))) (ih _)
    | or =>
      rw [settle]
      split_ifs with isAnd reduces
      · exact .shift 48 (by decide) (by rw [isAnd]; rfl) rfl rfl
      · have action : actionOf 48 k.code = .reduce 10 := by
          rw [actionOf_eq_row (by decide)]
          simp only [row, isAnd, reduces, if_false, if_true]
        exact .after (settles_frame action (.inr (.inr ⟨rfl, rfl⟩))) (ih _)
      · exact .refuse 48 (by decide) (by simp only [row, isAnd, reduces, if_false])

variable {base : List Nat}

/-- A part of an operand that goes on is shifted onto it. -/
theorem part_next {more : Part} (names : word = 14 ∨ word = 40) (next : part.next k = some more) :
    ∃ top below target, part.states word ++ base = top :: below ∧ top ∈ lookingStates ∧
      row top k = .shift target ∧ more.states word ++ base = target :: top :: below := by
  have looking : word ∈ lookingStates := by
    obtain rfl | rfl := names <;> decide
  have dotted : row word .dot = .shift 25 := by
    obtain rfl | rfl := names <;> rfl
  revert next
  fun_cases Part.next part k <;> intro next
  · cases next
    exact ⟨word, base, 25, rfl, looking, dotted, rfl⟩
  · cases next
    exact ⟨25, word :: base, 37, rfl, by decide, rfl, rfl⟩
  · cases next
    exact ⟨37, 25 :: word :: base, 50, rfl, by decide, rfl, rfl⟩
  · cases next
    exact ⟨50, 37 :: 25 :: word :: base, 51, rfl, by decide, rfl, rfl⟩
  · cases next
    exact ⟨51, 50 :: 37 :: 25 :: word :: base, 52, rfl, by decide, rfl, rfl⟩
  · exact absurd next (Option.some_ne_none more).symm

/-- A part that neither goes on nor is complete refuses the token. -/
theorem part_incomplete (next : part.next k = none) (incomplete : part.complete = false) :
    Moves k (part.states word ++ base) load none := by
  have refused : ∀ {expected : Kind} {action : Action}, part.next expected ≠ none →
      (if k = expected then action else .error) = .error := by
    intro expected action goesOn
    refine if_neg fun same => goesOn ?_
    rw [← same]
    exact next
  obtain rfl | rfl | rfl := part.eq_of_incomplete incomplete
  · exact .refuse 25 (by decide) (refused (Option.some_ne_none _))
  · exact .refuse 50 (by decide) (refused (Option.some_ne_none _))
  · exact .refuse 51 (by decide) (refused (Option.some_ne_none _))

theorem settle_eq_none (other : ¬(k = .or ∨ k = .and ∨ k = .rightParen)) (fs : List Frame) :
    ∀ load, settle fs load k = none := by
  have notOr : k ≠ .or := fun same => other (.inl same)
  have notAnd : k ≠ .and := fun same => other (.inr (.inl same))
  have notClose : k ≠ .rightParen := fun same => other (.inr (.inr same))
  induction fs with
  | nil =>
    intro load
    simp only [settle, notOr, notAnd, if_false]
  | cons f fs ih =>
    intro load
    cases f with
    | paren => simp only [settle, notOr, notAnd, notClose, if_false]
    | not | and => exact ih _
    | or => simp only [settle, notOr, notAnd, notClose, or_self, if_false]

/-- A complete operand on the left of an operator, and a token. -/
theorem left_moves (valid : part.Valid) (next : part.next k = none)
    (complete : part.complete = true) :
    Moves k (part.states 14 ++ frameStates fs) load
      (if k.isComparison then some ⟨.compare k, fs, load⟩
        else if part = .word ∧ k = .isa then some ⟨.isa, fs, load⟩ else none) := by
  obtain ⟨top, below, shape, -, -, -, -, toOperand, toProperty, -⟩ := frameStates_cases fs
  have chain : (part = .word → actionOf 14 k.code = .reduce 26) →
      (part = .member → actionOf 37 k.code = .reduce 27) →
      Settles k.code (part.states 14 ++ frameStates fs) load (20 :: frameStates fs) load := by
    intro onWord onMember
    rw [shape, ← toOperand]
    exact settles_operand valid complete toProperty onWord onMember
  have notDot : part = .word → k ≠ .dot := by
    rintro rfl rfl
    exact absurd next (Option.some_ne_none _)
  have notColon : part = .member → k ≠ .colon := by
    rintro rfl rfl
    exact absurd next (Option.some_ne_none _)
  by_cases comparison : k.isComparison = true
  · have notIsa : k ≠ .isa := by
      rintro rfl
      cases comparison
    rw [if_pos comparison]
    refine .after (chain (fun isWord => ?_) (fun isMember => ?_)) (.shift 20 (by decide) ?_ rfl rfl)
    · rw [actionOf_eq_row (by decide)]
      simp only [row, notDot isWord, notIsa, comparison, if_false, if_true]
    · rw [actionOf_eq_row (by decide)]
      simp only [row, notColon isMember, comparison, true_or, if_false, if_true]
    · exact if_pos comparison
  · rw [if_neg comparison]
    have refused : Moves k (20 :: frameStates fs) load none :=
      .refuse 20 (by decide) (if_neg comparison)
    split_ifs with isa
    · obtain ⟨rfl, rfl⟩ := isa
      exact .shift 14 (by decide) rfl rfl rfl
    · -- Which reductions come before the refusal depends on the form of the operand.
      cases part with
      | literal l | embedded => exact .after (chain nofun nofun) refused
      | word =>
        have notIsa : k ≠ .isa := fun same => isa ⟨rfl, same⟩
        refine .refuse 14 (by decide) ?_
        simp only [row, notDot rfl, notIsa, comparison, if_false, Bool.false_eq_true]
      | member =>
        by_cases follows : k = .or ∨ k = .and ∨ k = .rightParen
        · refine .after (chain nofun fun _ => ?_) refused
          rw [actionOf_eq_row (by decide)]
          simp only [row, notColon rfl, follows, or_true, if_false, if_true]
        · refine .refuse 37 (by decide) ?_
          simp only [row, notColon rfl, comparison, follows, or_self, if_false, Bool.false_eq_true]
      | dot | colon | colons => cases complete

/-- A complete operand on the right of an operator, and a token. -/
theorem right_moves (comparison : op.isComparison = true) (valid : part.Valid)
    (next : part.next k = none) (complete : part.complete = true) :
    Moves k (part.states 40 ++ compareState op :: 20 :: frameStates fs) load
      (Track.settle fs (load + Track.comparison op) k) := by
  have chain : (part = .word → actionOf 40 k.code = .reduce 26) →
      (part = .member → actionOf 37 k.code = .reduce 27) →
      Moves k (part.states 40 ++ compareState op :: 20 :: frameStates fs) load
        (Track.settle fs (load + Track.comparison op) k) := by
    intro onWord onMember
    refine .after ?_ (settle_moves _)
    exact (settles_operand valid complete (gotoOf_compareState comparison).1 onWord onMember).trans
      (settles_comparison comparison)
  cases part with
  | literal l | embedded => exact chain nofun nofun
  | word =>
    have notDot : k ≠ .dot := by
      rintro rfl
      exact absurd next (Option.some_ne_none _)
    by_cases follows : k = .or ∨ k = .and ∨ k = .rightParen
    · refine chain (fun _ => ?_) nofun
      rw [actionOf_eq_row (by decide)]
      simp only [row, notDot, follows, if_false, if_true]
    · rw [settle_eq_none follows]
      refine .refuse 40 (by decide) ?_
      simp only [row, notDot, follows, if_false]
  | member =>
    have notColon : k ≠ .colon := by
      rintro rfl
      exact absurd next (Option.some_ne_none _)
    by_cases reduces : k.isComparison = true ∨ k = .or ∨ k = .and ∨ k = .rightParen
    · refine chain nofun fun _ => ?_
      rw [actionOf_eq_row (by decide)]
      simp only [row, notColon, reduces, if_false, if_true]
    · rw [settle_eq_none fun follows => reduces (.inr follows)]
      refine .refuse 37 (by decide) ?_
      simp only [row, notColon, reduces, if_false]
  | dot | colon | colons => cases complete

/-- An operand begins behind `base`, or the token is refused. -/
theorem operand_moves {top : Nat} {place : Part → Track} (looking : top ∈ lookingStates)
    (load_eq : ∀ part, (place part).load = load)
    (states_eq : ∀ part, (place part).states = part.states word ++ top :: below)
    (onName : row top .identifier = .shift word)
    (onLiteral : k.isLiteral = true → row top k = .shift (literalState k))
    (onOther : k.isLiteral = false → k ≠ .identifier → row top k = .error) :
    Moves k (top :: below) load ((Part.first k).map place) := by
  rw [Part.first]
  split_ifs with literal identifier
  · exact .shift top looking (onLiteral literal) (load_eq _) (states_eq _)
  · subst identifier
    exact .shift top looking onName (load_eq _) (states_eq _)
  · exact .refuse top looking (onOther (Bool.eq_false_iff.mpr literal) identifier)

/-- A name of the select list has been recorded, and a token. -/
theorem listed_moves : Moves k [6, 1, 0] (load + ⟨1, 0, 0⟩) (Track.feed ⟨.listed, fs, load⟩ k) := by
  simp only [feed, advance]
  split_ifs with isFrom isComma
  · have chain : Settles k.code [6, 1, 0] (load + ⟨1, 0, 0⟩) [5, 1, 0] (load + ⟨1, 0, 0⟩) := by
      refine .reduce 4 ?_ (by decide) (by decide) .refl
      rw [List.headD_cons, actionOf_eq_row (by decide), isFrom]
      rfl
    exact .after chain (.shift 5 (by decide) (if_pos isFrom) rfl rfl)
  · exact .shift 6 (by decide) (if_pos isComma) rfl rfl
  · exact .refuse 6 (by decide) ((if_neg isComma).trans (if_neg isFrom))

theorem isLiteral_ne (literal : k.isLiteral = true) :
    k ≠ .not ∧ k ≠ .leftParen ∧ k ≠ .identifier := by
  refine ⟨?_, ?_, ?_⟩ <;> rintro rfl <;> cases literal

/-- The actions of the tables on the states of a track are those of `feed`. -/
theorem feed_moves {t : Track} (valid : t.Valid) (k : Kind) :
    Moves k t.states t.load (t.feed k) := by
  obtain ⟨spot, fs, load⟩ := t
  cases spot with
  | start =>
    simp only [feed, advance]
    split_ifs with h
    · exact .shift 0 (by decide) (if_pos h) rfl rfl
    · exact .refuse 0 (by decide) (if_neg h)
  | select =>
    simp only [feed, advance]
    split_ifs with isStar isName
    · exact .shift 1 (by decide) (if_pos isStar) rfl rfl
    · exact .shift 1 (by decide) ((if_neg isStar).trans (if_pos isName)) rfl rfl
    · exact .refuse 1 (by decide) ((if_neg isStar).trans (if_neg isName))
  | star =>
    have chain : Settles k.code [4, 1, 0] load [5, 1, 0] load :=
      .reduce 3 rfl (by decide) (by decide) .refl
    simp only [feed, advance]
    split_ifs with isFrom
    · exact .after chain (.shift 5 (by decide) (if_pos isFrom) rfl rfl)
    · exact .after chain (.refuse 5 (by decide) (if_neg isFrom))
  | first =>
    exact .after (.reduce 5 rfl (by decide) (by decide) .refl) (listed_moves)
  | comma =>
    simp only [feed, advance]
    split_ifs with h
    · exact .shift 8 (by decide) (if_pos h) rfl rfl
    · exact .refuse 8 (by decide) (if_neg h)
  | listed =>
    exact .after (.reduce 6 rfl (by decide) (by decide) .refl) (listed_moves)
  | fromWord =>
    simp only [feed, advance]
    split_ifs with h
    · exact .shift 7 (by decide) (if_pos h) rfl rfl
    · exact .refuse 7 (by decide) (if_neg h)
  | className =>
    obtain rfl : fs = [] := valid
    simp only [feed, advance]
    split_ifs with h
    · exact .shift 9 (by decide) (if_pos h) rfl rfl
    · exact .refuse 9 (by decide) (if_neg h)
  | condition =>
    obtain ⟨top, below, shape, looking, same, -⟩ := frameStates_cases fs
    change Moves k (frameStates fs) load _
    simp only [feed]
    rw [shape]
    split_ifs with isNot isOpen
    · refine .shift top looking ((same k).trans (if_pos isNot)) rfl ?_
      simp only [states, frameStates, shape]
    · refine .shift top looking ((same k).trans ((if_neg isNot).trans (if_pos isOpen))) rfl ?_
      simp only [states, frameStates, shape]
    · refine operand_moves looking (fun _ => rfl) (fun part => ?_) (same _) (fun literal => ?_)
        (fun other notName => ?_)
      · exact congrArg (part.states 14 ++ ·) shape
      · rw [same]
        simp only [row, isNot, isOpen, (isLiteral_ne literal).2.2, literal, if_false, if_true]
      · rw [same]
        simp only [row, isNot, isOpen, notName, other, if_false, Bool.false_eq_true]
  | left part =>
    change Moves k (part.states 14 ++ frameStates fs) load _
    simp only [feed, advance]
    cases next : part.next k with
    | some more =>
      obtain ⟨top, below, target, shape, looking, action, longer⟩ :=
        part_next (.inl rfl) next
      rw [shape]
      exact .shift top looking action rfl longer
    | none =>
      cases complete : part.complete with
      | true =>
        have moves := @left_moves load part fs k valid next complete
        simp only [Bool.true_and]
        split_ifs at moves ⊢ <;> exact moves
      | false =>
        have notWord : ¬(part = .word ∧ k = .isa) := by
          rintro ⟨rfl, -⟩
          exact absurd complete Bool.noConfusion
        simp only [Bool.false_and, Bool.false_eq_true, notWord, if_false, Option.map_none]
        exact part_incomplete next complete
  | compare op =>
    obtain ⟨-, looking, same, -⟩ := gotoOf_compareState valid
    have moves := @operand_moves 40 (20 :: frameStates fs) load k (compareState op)
      (fun part => ⟨.right op part, fs, load⟩) looking (fun _ => rfl) (fun _ => rfl) (same _)
    simp only [feed, advance, Option.map_map]
    refine moves (fun literal => ?_) (fun other notName => ?_)
    · rw [same]
      simp only [row, (isLiteral_ne literal).2.2, literal, if_false, if_true]
    · rw [same]
      simp only [row, notName, other, if_false, Bool.false_eq_true]
  | right op part =>
    obtain ⟨comparison, validPart⟩ := valid
    change Moves k (part.states 40 ++ compareState op :: 20 :: frameStates fs) load _
    simp only [feed]
    cases next : part.next k with
    | some more =>
      obtain ⟨top, below, target, shape, looking, action, longer⟩ :=
        part_next (.inr rfl) next
      rw [shape]
      exact .shift top looking action rfl longer
    | none =>
      cases complete : part.complete with
      | true => exact right_moves comparison validPart next complete
      | false => exact part_incomplete next complete
  | isa =>
    simp only [feed, advance]
    split_ifs with h
    · exact .shift 26 (by decide) (if_pos h) rfl rfl
    · exact .refuse 26 (by decide) (if_neg h)
  | isaName =>
    exact .after (@settles_predicate _ 19 load fs 38 26 14 rfl rfl rfl) (settle_moves _)
  | closed => exact .after (settles_closed) (settle_moves load)

/-! ## The end of the text -/

/-- At the end of the text the states are reduced to a complete query, or refused. -/
def Ends (states : List Nat) (load : Load) : Option Load → Prop
  | some final => ∃ settled rule, Settles 0 states load settled final ∧
      actionOf (settled.headD 0) 0 = .reduce rule ∧ yylhs.getD rule (-1) = 0 ∧
      settled.drop (yylen.getD rule 0) = [0] ∧ Load.ofRule rule = .zero
  | none => ∃ settled finalLoad, Settles 0 states load settled finalLoad ∧
      actionOf (settled.headD 0) 0 = .error

theorem Ends.after {final : Option Load} (chain : Settles 0 a x b y) (ends : Ends b y final) :
    Ends a x final := by
  cases final with
  | some final =>
    obtain ⟨settled, rule, rest, complete⟩ := ends
    exact ⟨settled, rule, chain.trans rest, complete⟩
  | none =>
    obtain ⟨settled, load, rest, action⟩ := ends
    exact ⟨settled, load, chain.trans rest, action⟩

theorem Ends.refuse (top : Nat) (looking : top ∈ lookingStates) (action : rowEnd top = .error) :
    Ends (top :: below) load none :=
  ⟨top :: below, load, .refl, (actionOf_eq_rowEnd looking).trans action⟩

theorem settleEnd_ends : ∀ load,
    Ends (conditionState fs :: frameStates fs) load (settleEnd fs load) := by
  induction fs with
  | nil =>
    intro load
    exact ⟨_, 2, .refl, actionOf_eq_rowEnd (by decide), rfl, rfl, rfl⟩
  | cons f fs ih =>
    intro load
    cases f with
    | paren => exact .refuse 27 (by decide) rfl
    | not => exact .after (settles_frame rfl (.inl ⟨rfl, rfl⟩)) (ih _)
    | and => exact .after (settles_frame rfl (.inr (.inl ⟨rfl, rfl⟩))) (ih _)
    | or =>
      have action : actionOf 48 0 = .reduce 10 := actionOf_eq_rowEnd (by decide)
      exact .after (settles_frame action (.inr (.inr ⟨rfl, rfl⟩))) (ih _)

theorem part_end (incomplete : part.complete = false) :
    Ends (part.states word ++ base) load none := by
  obtain rfl | rfl | rfl := part.eq_of_incomplete incomplete
  · exact .refuse 25 (by decide) rfl
  · exact .refuse 50 (by decide) rfl
  · exact .refuse 51 (by decide) rfl

/-- A query does not end behind an operand on the left of an operator. -/
theorem left_ends (valid : part.Valid) : Ends (part.states 14 ++ frameStates fs) load none := by
  cases complete : part.complete with
  | false => exact part_end complete
  | true =>
    obtain ⟨top, below, shape, -, -, -, -, toOperand, toProperty, -⟩ := frameStates_cases fs
    by_cases isWord : part = .word
    · subst isWord
      exact .refuse 14 (by decide) rfl
    · have chain : Settles 0 (part.states 14 ++ frameStates fs) load
          (20 :: frameStates fs) load := by
        rw [shape, ← toOperand]
        exact settles_operand valid complete toProperty (fun h => absurd h isWord)
          fun _ => actionOf_eq_rowEnd (by decide)
      exact .after chain (.refuse 20 (by decide) rfl)

/-- The actions of the tables at the end of the text are those of `finish`. -/
theorem finish_ends {t : Track} (valid : t.Valid) : Ends t.states t.load t.finish := by
  obtain ⟨spot, fs, load⟩ := t
  cases spot with
  | start => exact .refuse 0 (by decide) rfl
  | select => exact .refuse 1 (by decide) rfl
  | star =>
    exact .after (.reduce 3 rfl (by decide) (by decide) .refl) (.refuse 5 (by decide) rfl)
  | first =>
    exact .after (.reduce 5 rfl (by decide) (by decide) .refl) (.refuse 6 (by decide) rfl)
  | comma => exact .refuse 8 (by decide) rfl
  | listed =>
    exact .after (.reduce 6 rfl (by decide) (by decide) .refl) (.refuse 6 (by decide) rfl)
  | fromWord => exact .refuse 7 (by decide) rfl
  | className =>
    have action : actionOf 9 0 = .reduce 1 := actionOf_eq_rowEnd (by decide)
    exact ⟨[9, 7, 5, 1, 0], 1, .refl, action, rfl, rfl, rfl⟩
  | condition =>
    obtain ⟨top, below, shape, looking, -, action, -⟩ := frameStates_cases fs
    change Ends (frameStates fs) load none
    rw [shape]
    exact .refuse top looking action
  | left part => exact left_ends valid
  | compare op =>
    obtain ⟨-, looking, -, action⟩ := gotoOf_compareState valid
    exact .refuse (compareState op) looking action
  | right op part =>
    obtain ⟨comparison, validPart⟩ := valid
    change Ends (part.states 40 ++ compareState op :: 20 :: frameStates fs) load _
    simp only [Track.finish]
    split_ifs with complete
    · refine .after ?_ (settleEnd_ends _)
      exact (settles_operand validPart complete (gotoOf_compareState comparison).1
        (fun _ => actionOf_eq_rowEnd (by decide))
        fun _ => actionOf_eq_rowEnd (by decide)).trans (settles_comparison comparison)
    · exact part_end (Bool.eq_false_iff.mpr complete)
  | isa => exact .refuse 26 (by decide) rfl
  | isaName =>
    exact .after (@settles_predicate _ 19 load fs 38 26 14 rfl rfl rfl) (settleEnd_ends _)
  | closed => exact .after (settles_closed) (settleEnd_ends load)

end Omi.Wql
