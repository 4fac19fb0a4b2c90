import Omi.Wql.Lexer

/-!
# The grammar, and a recogniser for it

The inductive predicates are the productions of the grammar over token numbers.
The grammar is ambiguous: it leaves the nesting of AND, OR and NOT to precedences.
Which sequences it derives does not depend on the nesting, so membership can be
decided by reading the tokens once with a `Spot` in the query and the number of
open parentheses. `advance` is one step of that reading, and
`recognises_start` proves that it decides the grammar.

The shift-reduce parser is compared with this reading, not with the grammar.
-/

namespace Omi.Wql

open List Option

/-! ## Productions -/

/-- The operators of the comparison productions of `Predicate`. -/
def Kind.isComparison : Kind → Bool
  | eq | ne | lt | le | gt | ge | like => true
  | _ => false

/-- The tokens that are an `Operand` by themselves. -/
def Kind.isLiteral : Kind → Bool
  | boolean | integer | real | string | null => true
  | _ => false

/-- The productions of `Property` and `Operand`. -/
inductive DerivesOperand : List Kind → Prop
  | literal {k : Kind} : k.isLiteral = true → DerivesOperand [k]
  | plain : DerivesOperand [.identifier]
  | embedded : DerivesOperand [.identifier, .dot, .identifier]
  | embeddedOf :
      DerivesOperand [.identifier, .dot, .identifier, .colon, .colon, .identifier]

/-- The productions of `Predicate`. -/
inductive DerivesPredicate : List Kind → Prop
  | compare {lhs rhs : List Kind} {op : Kind} : DerivesOperand lhs → op.isComparison = true →
      DerivesOperand rhs → DerivesPredicate (lhs ++ op :: rhs)
  | isa : DerivesPredicate [.identifier, .isa, .identifier]

/-- The productions of `Condition`. -/
inductive DerivesCondition : List Kind → Prop
  | paren {c : List Kind} : DerivesCondition c →
      DerivesCondition (.leftParen :: c ++ [.rightParen])
  | not {c : List Kind} : DerivesCondition c → DerivesCondition (.not :: c)
  | and {a b : List Kind} : DerivesCondition a → DerivesCondition b →
      DerivesCondition (a ++ .and :: b)
  | or {a b : List Kind} : DerivesCondition a → DerivesCondition b →
      DerivesCondition (a ++ .or :: b)
  | predicate {p : List Kind} : DerivesPredicate p → DerivesCondition p

/-- The productions of `PropertyList`. -/
inductive DerivesPropertyList : List Kind → Prop
  | one : DerivesPropertyList [.identifier]
  | more {l : List Kind} : DerivesPropertyList l →
      DerivesPropertyList (l ++ [.comma, .identifier])

/-- The productions of `SelectList`. -/
inductive DerivesSelectList : List Kind → Prop
  | star : DerivesSelectList [.star]
  | properties {l : List Kind} : DerivesPropertyList l → DerivesSelectList l

/-- The productions of `Start`. -/
inductive DerivesStart : List Kind → Prop
  | all {l : List Kind} : DerivesSelectList l →
      DerivesStart (.select :: l ++ [.fromWord, .identifier])
  | restricted {l c : List Kind} : DerivesSelectList l → DerivesCondition c →
      DerivesStart (.select :: l ++ .fromWord :: .identifier :: .whereWord :: c)

/-! ## Reading a query token by token -/

/-- How much of an operand has been read: a literal, or a part of
`name.member::property` in which the last name belongs to the class `member`. -/
inductive Part where
  | literal (k : Kind)
  | word
  | dot
  | member
  | colon
  | colons
  | embedded
deriving DecidableEq, Repr

/-- The first token of an operand. -/
def Part.first (k : Kind) : Option Part :=
  if k.isLiteral then some (.literal k) else if k = .identifier then some .word else none

/-- A further token of the same operand. -/
def Part.next : Part → Kind → Option Part
  | word, .dot => some dot
  | dot, .identifier => some member
  | member, .colon => some colon
  | colon, .colon => some colons
  | colons, .identifier => some embedded
  | _, _ => none

/-- The operand may end here. -/
def Part.complete : Part → Bool
  | literal _ | word | member | embedded => true
  | _ => false

/-- An operand that is not complete has a dot or colons at its end. -/
theorem Part.eq_of_incomplete (part : Part) (incomplete : part.complete = false) :
    part = .dot ∨ part = .colon ∨ part = .colons := by
  cases part with
  | dot => exact .inl rfl
  | colon => exact .inr (.inl rfl)
  | colons => exact .inr (.inr rfl)
  | literal k | word | member | embedded => cases incomplete

/-- A place in a query. The operand to the right of a comparison remembers it. -/
inductive Spot where
  | start
  | select
  | star
  | first
  | comma
  | listed
  | fromWord
  | className
  | condition
  | left (part : Part)
  | compare (op : Kind)
  | right (op : Kind) (part : Part)
  | isa
  | isaName
  | closed
deriving DecidableEq, Repr

/-- A token behind a complete condition inside `opened` parentheses. -/
def resume (opened : Nat) : Kind → Option (Spot × Nat)
  | .and | .or => some (.condition, opened)
  | .rightParen => if opened = 0 then none else some (.closed, opened - 1)
  | _ => none

/-- The next place, and the number of parentheses open there. -/
def advance : Spot → Nat → Kind → Option (Spot × Nat)
  | .start, opened, k => if k = .select then some (.select, opened) else none
  | .select, opened, k =>
    if k = .star then some (.star, opened)
    else if k = .identifier then some (.first, opened) else none
  | .star, opened, k => if k = .fromWord then some (.fromWord, opened) else none
  | .first, opened, k | .listed, opened, k =>
    if k = .fromWord then some (.fromWord, opened)
    else if k = .comma then some (.comma, opened) else none
  | .comma, opened, k => if k = .identifier then some (.listed, opened) else none
  | .fromWord, opened, k => if k = .identifier then some (.className, opened) else none
  | .className, opened, k => if k = .whereWord then some (.condition, opened) else none
  | .condition, opened, k =>
    if k = .not then some (.condition, opened)
    else if k = .leftParen then some (.condition, opened + 1)
    else (Part.first k).map fun part => (.left part, opened)
  | .left part, opened, k =>
    match part.next k with
    | some more => some (.left more, opened)
    | none =>
      if part.complete && k.isComparison then some (.compare k, opened)
      else if part = .word ∧ k = .isa then some (.isa, opened) else none
  | .compare op, opened, k => (Part.first k).map fun part => (.right op part, opened)
  | .right op part, opened, k =>
    match part.next k with
    | some more => some (.right op more, opened)
    | none => if part.complete then resume opened k else none
  | .isa, opened, k => if k = .identifier then some (.isaName, opened) else none
  | .isaName, opened, k | .closed, opened, k => resume opened k

/-- The query may end here. -/
def Spot.final : Spot → Nat → Bool
  | .className, _ => true
  | .right _ part, opened => part.complete && opened == 0
  | .isaName, opened | .closed, opened => opened == 0
  | _, _ => false

/-- Read a whole sequence of tokens. -/
def recognises : Spot → Nat → List Kind → Bool
  | spot, opened, [] => spot.final opened
  | spot, opened, k :: ks =>
    match advance spot opened k with
    | some (spot, opened) => recognises spot opened ks
    | none => false

variable {opened : Nat} {k op : Kind} {ks rest w : List Kind} {part : Part}

theorem recognises_cons {spot : Spot} {next : Spot × Nat} (h : advance spot opened k = some next) :
    recognises spot opened (k :: ks) = recognises next.1 next.2 ks := by
  rw [recognises, h]

theorem exists_advance {spot : Spot} (h : recognises spot opened (k :: ks) = true) :
    ∃ next, advance spot opened k = some next ∧ recognises next.1 next.2 ks = true := by
  rw [recognises] at h
  cases hnext : advance spot opened k with
  | none =>
    rw [hnext] at h
    cases h
  | some next =>
    rw [hnext] at h
    exact ⟨next, rfl, h⟩

/-- Where only one token can follow, it does. -/
theorem exists_expected {spot target : Spot} {expected : Kind}
    (only : ∀ k, advance spot opened k = if k = expected then some (target, opened) else none)
    (unfinished : spot.final opened = false) (h : recognises spot opened ks = true) :
    ∃ rest, ks = expected :: rest ∧ recognises target opened rest = true := by
  cases ks with
  | nil => exact absurd (unfinished.symm.trans h) Bool.false_ne_true
  | cons k ks =>
    obtain ⟨next, step, h⟩ := exists_advance h
    rw [only, ite_none_right_eq_some] at step
    obtain ⟨rfl, same⟩ := step
    cases same
    exact ⟨ks, rfl, h⟩

/-! ## Every derivable query is recognised -/

/-- What may stand behind a condition: the end, a connective or a parenthesis. -/
def Follows : List Kind → Prop
  | [] => True
  | k :: _ => k = .and ∨ k = .or ∨ k = .rightParen

theorem Part.next_of_follows (h : k = .and ∨ k = .or ∨ k = .rightParen) : part.next k = none := by
  obtain rfl | rfl | rfl := h <;> cases part <;> rfl

theorem recognises_right (complete : part.complete = true) (follows : Follows rest) :
    recognises (.right op part) opened rest = recognises .closed opened rest := by
  cases rest with
  | nil =>
    change (part.complete && opened == 0) = (opened == 0)
    rw [complete, Bool.true_and]
  | cons k ks =>
    have same : advance (.right op part) opened k = advance .closed opened k := by
      simp only [advance, Part.next_of_follows follows, complete, if_true]
    rw [recognises, recognises, same]

theorem recognises_isaName : recognises .isaName opened rest = recognises .closed opened rest := by
  cases rest <;> rfl

theorem Part.first_literal (h : k.isLiteral = true) : Part.first k = some (.literal k) := by
  rw [Part.first, if_pos h]

theorem advance_condition_literal (h : k.isLiteral = true) :
    advance .condition opened k = some (.left (.literal k), opened) := by
  cases k <;> first | rfl | cases h

theorem DerivesOperand.read_left (h : DerivesOperand w) (comparison : op.isComparison = true) :
    recognises .condition opened (w ++ op :: rest) = recognises (.compare op) opened rest := by
  have behind : ∀ part : Part, part.complete = true →
      advance (.left part) opened op = some (.compare op, opened) := by
    intro part complete
    have stops : part.next op = none := by
      cases op <;> first | exact absurd comparison Bool.false_ne_true | (cases part <;> rfl)
    simp only [advance, stops, complete, comparison, Bool.and_self, if_true]
  cases h with
  | literal literal =>
    exact (recognises_cons (advance_condition_literal literal)).trans
      (recognises_cons (behind _ rfl))
  | plain => exact recognises_cons (behind .word rfl)
  | embedded => exact recognises_cons (behind .member rfl)
  | embeddedOf => exact recognises_cons (behind .embedded rfl)

theorem DerivesOperand.read_right (h : DerivesOperand w) (follows : Follows rest) :
    recognises (.compare op) opened (w ++ rest) = recognises .closed opened rest := by
  cases h with
  | @literal k literal =>
    have first : advance (.compare op) opened k = some (.right op (.literal k), opened) := by
      rw [advance, Part.first_literal literal]
      rfl
    exact (recognises_cons first).trans (recognises_right rfl follows)
  | plain | embedded | embeddedOf => exact recognises_right rfl follows

theorem DerivesPredicate.read (h : DerivesPredicate w) (follows : Follows rest) :
    recognises .condition opened (w ++ rest) = recognises .closed opened rest := by
  cases h with
  | @compare lhs rhs op left comparison right =>
    rw [append_assoc, cons_append, left.read_left comparison]
    exact right.read_right follows
  | isa => exact recognises_isaName

theorem DerivesCondition.read (h : DerivesCondition w) :
    ∀ {opened : Nat} {rest : List Kind}, Follows rest →
      recognises .condition opened (w ++ rest) = recognises .closed opened rest := by
  induction h with
  | @paren c _ ih =>
    intro opened rest _
    have inner := @ih (opened + 1) (.rightParen :: rest) (Or.inr (Or.inr rfl))
    rw [append_assoc]
    exact inner
  | not _ ih =>
    intro opened rest follows
    exact ih follows
  | @and a b _ _ iha ihb =>
    intro opened rest follows
    rw [append_assoc, cons_append, @iha opened (.and :: (b ++ rest)) (Or.inl rfl)]
    exact ihb follows
  | @or a b _ _ iha ihb =>
    intro opened rest follows
    rw [append_assoc, cons_append, @iha opened (.or :: (b ++ rest)) (Or.inr (Or.inl rfl))]
    exact ihb follows
  | predicate h =>
    intro opened rest follows
    exact h.read follows

/-! ## Every recognised query is derivable -/

theorem Part.first_eq_some (h : Part.first k = some part) :
    (k.isLiteral = true ∧ part = .literal k) ∨ (k = .identifier ∧ part = .word) := by
  unfold Part.first at h
  split_ifs at h with literal identifier
  · exact .inl ⟨literal, (Option.some.inj h).symm⟩
  · exact .inr ⟨identifier, (Option.some.inj h).symm⟩

/-- The tokens that lead to a part of an operand. -/
def Part.read : Part → List Kind
  | literal k => [k]
  | word => [.identifier]
  | dot => [.identifier, .dot]
  | member => [.identifier, .dot, .identifier]
  | colon => [.identifier, .dot, .identifier, .colon]
  | colons => [.identifier, .dot, .identifier, .colon, .colon]
  | embedded => [.identifier, .dot, .identifier, .colon, .colon, .identifier]

/-- A literal part is made of a literal token. -/
def Part.Valid : Part → Prop
  | literal k => k.isLiteral = true
  | _ => True

theorem Part.valid_first (h : Part.first k = some part) : part.Valid ∧ part.read = [k] := by
  obtain ⟨literal, rfl⟩ | ⟨rfl, rfl⟩ := Part.first_eq_some h
  · exact ⟨literal, rfl⟩
  · exact ⟨trivial, rfl⟩

theorem Part.valid_next {more : Part} (h : part.next k = some more) :
    more.Valid ∧ more.read = part.read ++ [k] := by
  revert h
  fun_cases Part.next part k <;> intro h
  all_goals first
    | (cases h; exact ⟨trivial, rfl⟩)
    | exact absurd h (some_ne_none more).symm

theorem Part.derives (valid : part.Valid) (complete : part.complete = true) :
    DerivesOperand part.read := by
  cases part with
  | literal k => exact .literal valid
  | word => exact .plain
  | member => exact .embedded
  | embedded => exact .embeddedOf
  | dot | colon | colons => cases complete

/-- A query that ends or goes on behind the operand is read on from its end. -/
theorem exists_right : ∀ {part : Part},
    part.Valid → recognises (.right op part) opened ks = true →
    ∃ w rest, part.read ++ ks = w ++ rest ∧ DerivesOperand w ∧
      recognises .closed opened rest = true ∧ rest.length ≤ ks.length := by
  induction ks with
  | nil =>
    intro part valid h
    change (part.complete && opened == 0) = true at h
    rw [Bool.and_eq_true] at h
    exact ⟨part.read, [], rfl, part.derives valid h.1, h.2, Nat.le_refl 0⟩
  | cons k ks ih =>
    intro part valid h
    cases hnext : part.next k with
    | some more =>
      have step : advance (.right op part) opened k = some (.right op more, opened) := by
        simp only [advance, hnext]
      rw [recognises_cons step] at h
      obtain ⟨moreValid, moreRead⟩ := Part.valid_next hnext
      obtain ⟨w, rest, split, derived, closed, shorter⟩ := ih moreValid h
      rw [moreRead, append_assoc] at split
      exact ⟨w, rest, split, derived, closed, Nat.le_succ_of_le shorter⟩
    | none =>
      obtain ⟨next, step, h⟩ := exists_advance h
      simp only [advance, hnext] at step
      split_ifs at step with complete
      exact ⟨part.read, k :: ks, rfl, part.derives valid complete,
        (@recognises_cons opened k ks .closed next step).trans h, Nat.le_refl _⟩

theorem exists_compare (h : recognises (.compare op) opened ks = true) :
    ∃ w rest, ks = w ++ rest ∧ DerivesOperand w ∧ recognises .closed opened rest = true ∧
      rest.length < ks.length := by
  cases ks with
  | nil => cases h
  | cons k ks =>
    obtain ⟨next, step, h⟩ := exists_advance h
    obtain ⟨part, first, rfl⟩ := map_eq_some_iff.mp step
    obtain ⟨valid, read⟩ := Part.valid_first first
    obtain ⟨w, rest, split, derived, closed, shorter⟩ := exists_right valid h
    rw [read] at split
    exact ⟨w, rest, split, derived, closed, Nat.lt_succ_of_le shorter⟩

theorem exists_isa (h : recognises .isa opened ks = true) :
    ∃ rest, ks = .identifier :: rest ∧ recognises .closed opened rest = true := by
  obtain ⟨rest, rfl, named⟩ := exists_expected (fun _ => rfl) rfl h
  exact ⟨rest, rfl, recognises_isaName ▸ named⟩

theorem exists_left : ∀ {part : Part}, part.Valid →
    recognises (.left part) opened ks = true →
    ∃ w rest, part.read ++ ks = w ++ rest ∧ DerivesPredicate w ∧
      recognises .closed opened rest = true ∧ rest.length ≤ ks.length := by
  induction ks with
  | nil =>
    intro part _ h
    cases h
  | cons k ks ih =>
    intro part valid h
    cases hnext : part.next k with
    | some more =>
      have step : advance (.left part) opened k = some (.left more, opened) := by
        simp only [advance, hnext]
      rw [recognises_cons step] at h
      obtain ⟨moreValid, moreRead⟩ := Part.valid_next hnext
      obtain ⟨w, rest, split, derived, closed, shorter⟩ := ih moreValid h
      rw [moreRead, append_assoc] at split
      exact ⟨w, rest, split, derived, closed, Nat.le_succ_of_le shorter⟩
    | none =>
      obtain ⟨next, step, h⟩ := exists_advance h
      simp only [advance, hnext] at step
      split_ifs at step with compared isa
      · cases step
        rw [Bool.and_eq_true] at compared
        obtain ⟨w, rest, split, derived, closed, shorter⟩ := exists_compare h
        refine ⟨part.read ++ k :: w, rest, ?_,
          .compare (part.derives valid compared.1) compared.2 derived, closed, ?_⟩
        · rw [split, append_assoc, cons_append]
        · exact Nat.le_succ_of_le (Nat.le_of_lt shorter)
      · cases step
        obtain ⟨rfl, rfl⟩ := isa
        obtain ⟨rest, rfl, closed⟩ := exists_isa h
        refine ⟨_, rest, rfl, .isa, closed, ?_⟩
        simp only [length_cons]
        omega

/-- The condition is complete: the query ends, or the innermost parenthesis closes. -/
def Closes (opened : Nat) (rest : List Kind) : Prop :=
  (opened = 0 ∧ rest = []) ∨
    ∃ outer behind, opened = outer + 1 ∧ rest = .rightParen :: behind ∧
      recognises .closed outer behind = true

/-- A condition is read off the front of the sequence. -/
def ReadsCondition (opened : Nat) (ks : List Kind) : Prop :=
  ∃ c rest, ks = c ++ rest ∧ DerivesCondition c ∧ Closes opened rest

/-- Behind a condition its parenthesis closes, or a connective and a condition come. -/
theorem closes_or_connected (h : recognises .closed opened ks = true) :
    Closes opened ks ∨ ∃ op rest, (op = .and ∨ op = .or) ∧ ks = op :: rest ∧
      recognises .condition opened rest = true := by
  cases ks with
  | nil => exact .inl (.inl ⟨eq_of_beq h, rfl⟩)
  | cons k ks =>
    obtain ⟨next, step, h⟩ := exists_advance h
    change resume opened k = some next at step
    revert step
    fun_cases resume opened k <;> intro step
    · cases step
      exact .inr ⟨_, ks, .inl rfl, rfl, h⟩
    · cases step
      exact .inr ⟨_, ks, .inr rfl, rfl, h⟩
    · exact absurd step (some_ne_none next).symm
    · rename_i positive
      cases step
      exact .inl (.inr ⟨opened - 1, ks, by omega, rfl, h⟩)
    · exact absurd step (some_ne_none next).symm

theorem DerivesCondition.connect {a b : List Kind} (connective : op = .and ∨ op = .or)
    (left : DerivesCondition a) (right : DerivesCondition b) : DerivesCondition (a ++ op :: b) := by
  obtain rfl | rfl := connective
  · exact .and left right
  · exact .or left right

/-- Extend a derived condition by what is read behind it. -/
theorem readsCondition_of_closed {c : List Kind} (derived : DerivesCondition c)
    (closed : recognises .closed opened rest = true)
    (later : ∀ ks, ks.length < rest.length → recognises .condition opened ks = true →
      ReadsCondition opened ks) : ReadsCondition opened (c ++ rest) := by
  obtain closes | ⟨op, behind, connective, rfl, h⟩ := closes_or_connected closed
  · exact ⟨c, rest, rfl, derived, closes⟩
  · obtain ⟨d, rest, rfl, other, closes⟩ := later behind (Nat.lt_succ_self _) h
    refine ⟨c ++ op :: d, rest, ?_, derived.connect connective other, closes⟩
    rw [append_assoc, cons_append]

theorem readsCondition (n : Nat) : ∀ {opened : Nat} {ks : List Kind}, ks.length ≤ n →
    recognises .condition opened ks = true → ReadsCondition opened ks := by
  -- The tokens behind a complete condition are fewer, which is what the induction needs.
  induction n with
  | zero =>
    intro opened ks bound h
    obtain rfl := length_eq_zero_iff.mp (Nat.le_zero.mp bound)
    cases h
  | succ n ih =>
    intro opened ks bound h
    cases ks with
    | nil => cases h
    | cons k ks =>
      have shorter : ks.length ≤ n := Nat.le_of_succ_le_succ bound
      obtain ⟨next, step, h⟩ := exists_advance h
      simp only [advance] at step
      split_ifs at step with negated opening
      · cases step
        obtain ⟨c, rest, rfl, derived, closes⟩ := ih shorter h
        exact ⟨k :: c, rest, rfl, negated ▸ .not derived, closes⟩
      · cases step
        obtain ⟨c, rest, rfl, derived, closes⟩ := ih shorter h
        obtain ⟨impossible, -⟩ | ⟨outer, behind, same, rfl, closed⟩ := closes
        · exact absurd impossible (Nat.succ_ne_zero opened)
        · cases same
          have whole : k :: (c ++ .rightParen :: behind) =
              (.leftParen :: c ++ [.rightParen]) ++ behind := by
            rw [opening]
            simp only [cons_append, append_assoc, nil_append]
          rw [whole]
          refine readsCondition_of_closed (.paren derived) closed fun rest fewer h => ?_
          rw [length_append, length_cons] at shorter
          exact ih (by omega) h
      · obtain ⟨part, first, rfl⟩ := map_eq_some_iff.mp step
        obtain ⟨valid, read⟩ := Part.valid_first first
        obtain ⟨w, rest, split, derived, closed, fewer⟩ := exists_left valid h
        rw [read, singleton_append] at split
        rw [split]
        refine readsCondition_of_closed (.predicate derived) closed fun rest less h => ?_
        exact ih (by omega) h

theorem recognises_condition : recognises .condition 0 ks = true ↔ DerivesCondition ks := by
  constructor
  · intro h
    obtain ⟨c, rest, rfl, derived, ⟨-, rfl⟩ | ⟨outer, _, impossible, _⟩⟩ :=
      readsCondition _ (Nat.le_refl _) h
    · exact (append_nil c).symm ▸ derived
    · exact absurd impossible (Nat.succ_ne_zero outer).symm
  · intro derived
    have read := @DerivesCondition.read ks derived 0 [] trivial
    rw [append_nil] at read
    exact read

/-! ## The select list -/

/-- What may follow the select list. -/
def DerivesSource (ks : List Kind) : Prop :=
  ks = [.fromWord, .identifier] ∨
    ∃ c, ks = .fromWord :: .identifier :: .whereWord :: c ∧ DerivesCondition c

theorem recognises_source : recognises .star 0 ks = true ↔ DerivesSource ks := by
  constructor
  · intro h
    obtain ⟨ks, rfl, fromWord⟩ := exists_expected (fun _ => rfl) rfl h
    obtain ⟨ks, rfl, className⟩ := exists_expected (fun _ => rfl) rfl fromWord
    cases ks with
    | nil => exact .inl rfl
    | cons w c =>
      obtain ⟨next, step, h⟩ := exists_advance className
      simp only [advance] at step
      split_ifs at step with isWhere
      cases step
      exact .inr ⟨c, by rw [isWhere], (recognises_condition).mp h⟩
  · rintro (rfl | ⟨c, rfl, derived⟩)
    · rfl
    · exact (recognises_condition).mpr derived

theorem recognises_first : recognises .first 0 ks = recognises .listed 0 ks := by
  cases ks <;> rfl

theorem DerivesPropertyList.read {l : List Kind} (h : DerivesPropertyList l) :
    ∀ ks, recognises .select 0 (l ++ ks) = recognises .listed 0 ks := by
  induction h with
  | one =>
    intro ks
    exact recognises_first
  | @more l _ ih =>
    intro ks
    rw [append_assoc, ih]
    rfl

theorem recognises_listed_source (h : DerivesSource ks) :
    recognises .listed 0 ks = recognises .star 0 ks := by
  obtain rfl | ⟨c, rfl, -⟩ := h <;> rfl

theorem exists_listed (n : Nat) : ∀ {l ks : List Kind}, ks.length ≤ n →
    DerivesPropertyList l → recognises .listed 0 ks = true →
    ∃ list source, l ++ ks = list ++ source ∧ DerivesPropertyList list ∧
      DerivesSource source := by
  -- Each round of the induction takes a comma and a name.
  induction n using Nat.strong_induction_on with
  | _ n ih =>
    intro l ks bound derived h
    cases ks with
    | nil => cases h
    | cons k ks =>
      obtain ⟨next, step, h⟩ := exists_advance h
      simp only [advance] at step
      split_ifs at step with isFrom isComma
      · refine ⟨l, k :: ks, rfl, derived, (recognises_source).mp ?_⟩
        cases step
        rw [isFrom]
        exact h
      · cases step
        obtain ⟨ks, rfl, listed⟩ := exists_expected (fun _ => rfl) rfl h
        simp only [length_cons] at bound
        obtain ⟨list, source, split, rest⟩ :=
          ih ks.length (by omega) (Nat.le_refl _) (.more derived) listed
        refine ⟨list, source, ?_, rest⟩
        rw [← split, isComma, append_assoc]
        rfl

/-- Reading a sequence token by token decides whether the grammar derives it. -/
theorem recognises_start (ks : List Kind) : recognises .start 0 ks = true ↔ DerivesStart ks := by
  constructor
  · intro h
    have complete : ∀ {list source : List Kind}, DerivesSelectList list →
        DerivesSource source → DerivesStart (.select :: (list ++ source)) := by
      rintro list source derived (rfl | ⟨c, rfl, condition⟩)
      · exact .all derived
      · exact .restricted derived condition
    obtain ⟨ks, rfl, select⟩ := exists_expected (fun _ => rfl) rfl h
    cases ks with
    | nil => cases select
    | cons l ks =>
      obtain ⟨next, step, h⟩ := exists_advance select
      simp only [advance] at step
      split_ifs at step with isStar isName
      · cases step
        rw [isStar]
        exact complete .star ((recognises_source).mp h)
      · cases step
        obtain ⟨list, source, split, derived, rest⟩ :=
          exists_listed _ (Nat.le_refl _) .one (recognises_first ▸ h)
        rw [isName]
        have split : .identifier :: ks = list ++ source := split
        rw [split]
        exact complete (.properties derived) rest
  · have read : ∀ {list source : List Kind}, DerivesSelectList list → DerivesSource source →
        recognises .start 0 (.select :: (list ++ source)) = true := by
      intro list source derived rest
      cases derived with
      | star => exact (recognises_source).mpr rest
      | properties derived =>
        change recognises .select 0 (list ++ source) = true
        rw [derived.read, recognises_listed_source rest]
        exact (recognises_source).mpr rest
    rintro (⟨derived⟩ | ⟨derived, condition⟩)
    · exact read derived (.inl rfl)
    · exact read derived (.inr ⟨_, rfl, condition⟩)

end Omi.Wql
