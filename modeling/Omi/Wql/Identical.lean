import Omi.Wql.Acceptance

/-!
# Comparing two queries

`WQL_Identical` compares two objects of the parser field by field. It does not look at
the embedded names of an identifier, and under a real constant it compares the member
`boolean` where the value is in the member `real`. So two queries that differ in nothing
but these are identical to it, and they may select different instances. Where the queries
agree on what it leaves out, they are the same, and evaluate alike.
-/

namespace Omi.Wql

open List

variable {R : Type}

/-! ## The comparison -/

/-- The member `boolean` of a value. The parser starts from zeroed unions, and reading a
number writes nothing to this member, so that it is `0` under every other tag. -/
def Symbol.booleanMember : Symbol R → UInt8
  | .boolean value => value
  | _ => 0

/-- The `switch` over the type of two symbols of one type. -/
def identicalValue : Symbol R → Symbol R → Bool
  | .identifier a _ _, .identifier b _ _ => decide (a = b)
  | .string a, .string b => decide (a = b)
  | .boolean a, .boolean b => a == b
  | .integer a, .integer b => a == b
  | .real a, .real b => (Symbol.real a).booleanMember == (Symbol.real b).booleanMember
  | _, _ => true

/-- The body of the loop over the symbols: whether it goes on. -/
def identicalSymbol (sx sy : Symbol R) : Bool := sx.sameType sy && identicalValue sx sy

/-- A loop over two arrays, after the test that they have the same length. -/
def identicalArrays {α : Type} (same : α → α → Bool) (xs ys : List α) : Bool :=
  xs.length == ys.length && (xs.zip ys).all fun pair => same pair.1 pair.2

/-- `WQL_Identical`. None is a null pointer. -/
def identical : Option (Parsed R) → Option (Parsed R) → Bool
  | some x, some y =>
    identicalArrays (fun a b => decide (a = b)) x.properties y.properties &&
      decide (x.className = y.className) &&
      identicalArrays identicalSymbol x.symbols y.symbols
  | _, _ => false

/-- What the comparison leaves out of two symbols is the same in both. -/
def SameDetail : Symbol R → Symbol R → Prop
  | .identifier _ className propertyName, .identifier _ className' propertyName' =>
    className = className' ∧ propertyName = propertyName'
  | .real a, .real b => a = b
  | _, _ => True

theorem SameDetail.refl (sym : Symbol R) : SameDetail sym sym := by
  cases sym <;> trivial

/-! ## What the comparison establishes -/

/-- A loop that goes through, with a test that means equality at each place. -/
theorem identicalArrays_eq {α : Type} {same : α → α → Bool} {xs : List α} :
    ∀ {ys : List α}, (∀ pair ∈ xs.zip ys, same pair.1 pair.2 = true → pair.1 = pair.2) →
      identicalArrays same xs ys = true → xs = ys := by
  induction xs with
  | nil =>
    intro ys _ h
    rw [identicalArrays, Bool.and_eq_true, beq_iff_eq] at h
    exact (length_eq_zero_iff.mp h.1.symm).symm
  | cons x xs ih =>
    intro ys means h
    rw [identicalArrays, Bool.and_eq_true, beq_iff_eq] at h
    cases ys with
    | nil => exact absurd h.1 (Nat.succ_ne_zero _)
    | cons y ys =>
      rw [zip_cons_cons, all_cons, Bool.and_eq_true] at h
      have head : x = y := means (x, y) mem_cons_self h.2.1
      have tail : xs = ys := by
        refine ih (fun pair inside => means pair (mem_cons_of_mem _ inside)) ?_
        rw [identicalArrays, Bool.and_eq_true, beq_iff_eq]
        exact ⟨Nat.succ.inj h.1, h.2.2⟩
      rw [head, tail]

/-- Two symbols that compare equal and agree on the rest are equal. -/
theorem eq_of_identicalSymbol {sx sy : Symbol R} (detail : SameDetail sx sy)
    (h : identicalSymbol sx sy = true) : sx = sy := by
  rw [identicalSymbol, Bool.and_eq_true] at h
  obtain ⟨type, value⟩ := h
  cases sx <;> cases sy <;>
    first
    | rfl
    | cases type
  case identifier.identifier =>
      obtain ⟨rfl, rfl⟩ := detail
      exact congrArg (Symbol.identifier · _ _) (of_decide_eq_true value)
  case boolean.boolean => exact congrArg Symbol.boolean (eq_of_beq value)
  case integer.integer => exact congrArg Symbol.integer (eq_of_beq value)
  case real.real => exact congrArg Symbol.real detail
  case string.string => exact congrArg Symbol.string (of_decide_eq_true value)

/-- Identical queries that agree on the embedded names and the real constants select the
same properties from the same class and evaluate alike. -/
theorem eval_eq_of_identical {x y : Parsed R}
    (details : ∀ pair ∈ x.symbols.zip y.symbols, SameDetail pair.1 pair.2)
    (h : identical (some x) (some y) = true) :
    x.properties = y.properties ∧ x.className = y.className ∧
      ∀ (prims : Prims R) (lookup : Lookup R),
        eval prims lookup x.toQuery = eval prims lookup y.toQuery := by
  simp only [identical, Bool.and_eq_true, decide_eq_true_eq] at h
  obtain ⟨⟨properties, className⟩, symbols⟩ := h
  have sameSymbols : x.symbols = y.symbols :=
    identicalArrays_eq (fun pair inside => eq_of_identicalSymbol (details pair inside)) symbols
  have sameQuery : x.toQuery = y.toQuery := by
    obtain ⟨⟨_, _⟩, _⟩ := x
    obtain ⟨⟨_, _⟩, _⟩ := y
    obtain rfl : _ = _ := className
    obtain rfl : _ = _ := sameSymbols
    rfl
  refine ⟨?_, className, fun prims lookup => by rw [sameQuery]⟩
  exact identicalArrays_eq (fun pair _ => of_decide_eq_true) properties

/-! ## Queries that are taken for each other -/

/-- Numbers with one digit on each side of the point, in tenths. -/
def tenths : Prims Nat where
  realLt a b := decide (a < b)
  strtod text :=
    match text with
    | whole :: _ :: fraction :: rest => (10 * (whole.toNat - 48) + (fraction.toNat - 48), rest)
    | text => (0, text)
  matchLike _ _ := false

/-- The object that the parser builds for `text`, if it returns within `n` turns. -/
def parsedWithin (n : Nat) (text : ZString) : Option (Parsed Nat) :=
  (Parser.runFor tenths .wql n (.start text.chars)).join

theorem parses_of_parsedWithin {n : Nat} {text : ZString} {query : Parsed Nat}
    (h : parsedWithin n text = some query) : Parses tenths .wql text (some query) :=
  Parser.runs_of_runFor n (Option.join_eq_some_iff.mp h)

/-- A query whose condition is one comparison. -/
def comparison (operand constant : Symbol Nat) : Parsed Nat where
  className := some (.ofString "A")
  symbols := [operand, constant, .eq]
  properties := []

/-- An identifier, as the parser builds it for a name without a point. -/
def plainName (name : String) : Symbol Nat := .identifier (.ofString name) none none

/-- An identifier for a property of an embedded instance. -/
def innerName (name inner : String) : Symbol Nat :=
  .identifier (.ofString name) none (some (.ofString inner))

/-- A condition on a property of an embedded instance and a real constant, in two spellings. -/
theorem eval_eq_of_identical_spellings :
    ∃ x y, Parses tenths .wql (.ofString "SELECT * FROM A WHERE p.a = 1.5") (some x) ∧
      Parses tenths .wql (.ofString "select*from A where p.a=1.5") (some y) ∧
      identical (some x) (some y) = true ∧
      ∀ (prims : Prims Nat) (lookup : Lookup Nat),
        eval prims lookup x.toQuery = eval prims lookup y.toQuery := by
  refine ⟨comparison (innerName "p" "a") (.real 15), comparison (innerName "p" "a") (.real 15),
    ?_, ?_, by decide, ?_⟩
  · exact parses_of_parsedWithin (n := 60) (by decide)
  · exact parses_of_parsedWithin (n := 60) (by decide)
  · refine (eval_eq_of_identical (fun pair inside => ?_) (by decide)).2.2
    simp only [comparison, zip_cons_cons, zip_nil_right, mem_cons,
      not_mem_nil, or_false] at inside
    obtain rfl | rfl | rfl := inside <;> exact .refl _

/-- Two queries on different properties of an embedded instance are identical, and so are
two queries with different real constants; an instance that one of them selects is not
selected by the other. -/
theorem identical_confuses :
    (∃ x y, Parses tenths .wql (.ofString "SELECT * FROM A WHERE p.a = 1") (some x) ∧
      Parses tenths .wql (.ofString "SELECT * FROM A WHERE p.b = 1") (some y) ∧
      identical (some x) (some y) = true ∧
      ∃ lookup, eval tenths lookup x.toQuery = 0 ∧ eval tenths lookup y.toQuery = 1) ∧
    ∃ x y, Parses tenths .wql (.ofString "SELECT * FROM A WHERE p = 1.5") (some x) ∧
      Parses tenths .wql (.ofString "SELECT * FROM A WHERE p = 2.5") (some y) ∧
      identical (some x) (some y) = true ∧
      ∃ lookup, eval tenths lookup x.toQuery = 0 ∧ eval tenths lookup y.toQuery = 1 := by
  refine ⟨⟨comparison (innerName "p" "a") (.integer 1), comparison (innerName "p" "b") (.integer 1),
      ?_, ?_, by decide, ?_⟩,
    comparison (plainName "p") (.real 15), comparison (plainName "p") (.real 25),
      ?_, ?_, by decide, ?_⟩
  · exact parses_of_parsedWithin (n := 60) (by decide)
  · exact parses_of_parsedWithin (n := 60) (by decide)
  · refine ⟨fun _ _ inner _ => some (.integer (if inner = some (.ofString "a") then 1 else 2)),
      ?_, ?_⟩
    · rfl
    · rfl
  · exact parses_of_parsedWithin (n := 60) (by decide)
  · exact parses_of_parsedWithin (n := 60) (by decide)
  · refine ⟨fun _ _ _ _ => some (.real 15), ?_, ?_⟩
    · rfl
    · rfl

end Omi.Wql
