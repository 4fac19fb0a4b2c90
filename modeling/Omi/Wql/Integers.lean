import Omi.Base.FromString
import Omi.Wql.Validate

/-!
# Comparing integers

The lookup makes a signed 64-bit integer of every integer property, and the scanner
makes one of every constant, which it saturates. A property of type `uint64` whose
value does not fit becomes negative. The six comparisons are those of the integers
unless one of the two changes the order.
-/

namespace Omi.Wql

open Omi.Base

variable {R : Type}

/-- The comparison of two integers under an operator. -/
def CompareOp.ofIntegers (op : CompareOp) (a b : Int) : Bool :=
  match op with
  | .eq | .like => a = b
  | .ne => a ≠ b
  | .lt => a < b
  | .le => a ≤ b
  | .gt => a > b
  | .ge => a ≥ b

/-- The constant is ordered to the value as the words that stand for them are: a value that
fits is not the last one on the side where the constant is cut off; one that does not fit
is below the constant, or the constant is below what the value becomes, which is not the
least word. -/
def Ordered (v k : Int) : Prop :=
  if v < 2 ^ 63 then ¬ (v = 2 ^ 63 - 1 ∧ v < k) ∧ ¬ (v = -2 ^ 63 ∧ k < v)
  else v < k ∨ (k < v - 2 ^ 64 ∧ v ≠ 2 ^ 63)

/-- Reading the result of `_Compare` under an operator compares the words. -/
theorem test_compare (prims : Prims R) (op : CompareOp) (a b : Int64) :
    op.test (compare prims (.integer a) (.integer b)) = op.ofIntegers a.toInt b.toInt := by
  simp only [compare, Int64.lt_iff_toInt_lt]
  cases op <;> simp only [CompareOp.test, CompareOp.ofIntegers] <;> split_ifs <;> simp <;> omega

theorem saturate_toInt (k : Int) : (saturate k).toInt = max (-2 ^ 63) (min (2 ^ 63 - 1) k) := by
  unfold saturate
  split_ifs
  · rw [Int64.toInt_minValue]
    omega
  · rw [Int64.toInt_maxValue]
    omega
  · rw [Int64.toInt_ofInt_of_le (by omega) (by omega)]
    omega

theorem digits_append {ds rest : List UInt8} (all : AllDigits ds)
    (ends : ∀ c ∈ rest.head?, isDigit c = false) (acc : Nat) :
    digits acc (ds ++ rest) = ((digits acc ds).1, rest) := by
  induction ds generalizing acc with
  | nil =>
    cases rest with
    | nil => rfl
    | cons c rest =>
      have other : ¬isDigit c = true := Bool.eq_false_iff.mp (ends c rfl)
      exact if_neg other
  | cons d ds ih =>
    have digit := all d List.mem_cons_self
    rw [List.cons_append, digits, digits, if_pos digit, if_pos digit]
    exact ih (fun x inside => all x (List.mem_cons_of_mem d inside)) _

/-- The constant of a text of digits, with or without a minus sign, is the integer that they
stand for, saturated. -/
theorem wqllex_constant (prims : Prims R) (negative : Bool) {d : UInt8} {ds rest : List UInt8}
    (all : AllDigits (d :: ds)) (ends : ∀ c ∈ rest.head?, isDigit c = false ∧ c ≠ 46) :
    wqllex prims ((if negative then [45] else []) ++ d :: (ds ++ rest)) =
      .token .integer (.integer (saturate (if negative then -((digits 0 (d :: ds)).1 : Int)
        else (digits 0 (d :: ds)).1))) rest := by
  have digit : isDigit d = true := all d List.mem_cons_self
  have read (w : List UInt8) (all : AllDigits w) :
      digits 0 (w ++ rest) = ((digits 0 w).1, rest) :=
    digits_append all (fun c first => (ends c first).1) 0
  have noPoint (w : List UInt8) (all : AllDigits w) :
      ¬((w ++ rest).dropWhile isDigit).head? = some 46 := by
    rw [← digits_rest 0, read w all]
    exact fun point => (ends 46 point).2 rfl
  have start : isNumberStart d = true := by
    rw [isNumberStart, digit, Bool.or_true]
  obtain ⟨noWord, -, noSpace⟩ := isNumberStart_other d start
  have plain := isDigit_other d digit
  cases negative with
  | true =>
    have value : tcstoll (45 :: d :: (ds ++ rest)) =
        (saturate (-((digits 0 (d :: ds)).1 : Int)), rest) := by
      have body := read (d :: ds) all
      rw [List.cons_append] at body
      simp [tcstoll, isSpace, digit, body]
    have point := noPoint (d :: ds) all
    rw [List.cons_append] at point
    simp [wqllex, isSpace, isWordStart, isAlpha, point, value]
  | false =>
    have value : tcstoll (d :: (ds ++ rest)) =
        (saturate (digits 0 (d :: ds)).1, rest) := by
      have body := read (d :: ds) all
      rw [List.cons_append] at body
      simp [tcstoll, noSpace, digit, body, plain]
    have point := noPoint ds fun x inside => all x (List.mem_cons_of_mem d inside)
    simp [wqllex, noSpace, noWord, digit, point, value]

/-- The word of a property is its value, or `2 ^ 64` less. -/
theorem toSint64_toInt {t : PlainType} {signed : Bool} (integer : t.signed = some signed)
    (x : Fin (256 ^ t.width)) :
    -2 ^ 63 ≤ t.integer signed x ∧ t.integer signed x < 2 ^ 64 ∧
      (toSint64 t x).toInt = if t.integer signed x < 2 ^ 63 then t.integer signed x
        else t.integer signed x - 2 ^ 64 := by
  have bound := x.isLt
  have word : ∀ n : Int, (Int64.ofInt n).toInt = n.bmod (2 ^ 64) := fun n => Int64.toInt_ofInt
  cases t <;> simp only [PlainType.signed, Option.some.injEq, reduceCtorEq] at integer <;>
    subst integer <;>
    simp only [PlainType.width, toSint64, PlainType.integer, word, Int.bmod_def] at bound ⊢ <;>
    norm_num at bound ⊢ <;> split_ifs <;> omega

/-- A comparison of two integers on a stack with room for them. -/
theorem evalLoop_integers {prims : Prims R} {lookup : Lookup R} {op : CompareOp}
    (ordering : op ≠ .like) {first second : Symbol R} {a b : Int64} {stack : List (Symbol R)}
    (room : stack.length + 2 < maxSymbols)
    (pushFirst : ∀ stack : List (Symbol R), stack.length < maxSymbols →
      evalSymbol prims lookup first stack = .ok (.integer a :: stack))
    (pushSecond : ∀ stack : List (Symbol R), stack.length < maxSymbols →
      evalSymbol prims lookup second stack = .ok (.integer b :: stack)) :
    evalLoop prims lookup [first, second, op.symbol] stack =
      .ok (ofFlag (op.ofIntegers a.toInt b.toInt) :: stack) := by
  have compared : evalSymbol prims lookup op.symbol (.integer b :: .integer a :: stack) =
      .ok (ofFlag (op.ofIntegers a.toInt b.toInt) :: stack) := by
    rw [← test_compare prims]
    unfold evalSymbol
    rw [if_neg (by simp only [List.length_cons]; omega)]
    cases op <;> first | exact absurd rfl ordering | rfl
  simp only [evalLoop, pushFirst stack (by omega),
    pushSecond (.integer a :: stack) (by simp only [List.length_cons]; omega), compared, bind,
    Except.bind]

theorem valueSymbol_integer (reading : Reading R) {t : PlainType} {signed : Bool}
    (integer : t.signed = some signed) (x : Fin (256 ^ t.width)) :
    valueSymbol reading (.plain t x) = .ok (.integer (toSint64 t x)) := by
  cases t <;> first | rfl | cases integer

/-- The comparisons of an identifier and a constant, in either order, come out as those of two
integers: on the stack of a longer condition, and as the result of a query. -/
def ComparesAs (prims : Prims R) (lookup : Lookup R) (identifier : Symbol R) (k v : Int) : Prop :=
  ∀ op : CompareOp, op ≠ .like →
    (∀ stack : List (Symbol R), stack.length + 2 < maxSymbols →
      evalLoop prims lookup [identifier, .integer (saturate k), op.symbol] stack =
          .ok (ofFlag (op.ofIntegers v k) :: stack) ∧
        evalLoop prims lookup [.integer (saturate k), identifier, op.symbol] stack =
          .ok (ofFlag (op.ofIntegers k v) :: stack)) ∧
    ∀ className, eval prims lookup ⟨some className, [identifier, .integer (saturate k), op.symbol]⟩ =
      if op.ofIntegers v k then 0 else 1

/-- The order of the words is that of the integers. -/
theorem ordered_iff {v k a b : Int} (bounds : -2 ^ 63 ≤ v ∧ v < 2 ^ 64)
    (word : a = if v < 2 ^ 63 then v else v - 2 ^ 64)
    (constant : b = max (-2 ^ 63) (min (2 ^ 63 - 1) k)) :
    Ordered v k ↔ ((a < b ↔ v < k) ∧ (a = b ↔ v = k)) := by
  have cases' : (b = -2 ^ 63 ∧ k < -2 ^ 63) ∨ (b = 2 ^ 63 - 1 ∧ 2 ^ 63 - 1 < k) ∨
      (b = k ∧ -2 ^ 63 ≤ k ∧ k ≤ 2 ^ 63 - 1) := by omega
  unfold Ordered
  by_cases fits : v < 2 ^ 63
  · rw [if_pos fits] at word ⊢
    omega
  · rw [if_neg fits] at word ⊢
    omega

/-- A property of an integer type that the lookup arrives at is compared with a constant as the
integers are, under each operator, exactly if they are ordered as their words. -/
theorem comparesAs_iff (prims : Prims R) (reading : Reading R) {instance_ : Instance}
    {t : PlainType} {signed : Bool} (integer : t.signed = some signed) {x : Fin (256 ^ t.width)}
    {name : ZString} {className propertyName : Option ZString}
    (found : lookupInstanceProperty reading instance_ name className propertyName =
      valueSymbol reading (.plain t x)) (k : Int) :
    ComparesAs prims (instanceLookup reading instance_)
        (.identifier name className propertyName) k (t.integer signed x) ↔
      Ordered (t.integer signed x) k := by
  obtain ⟨least, below, word⟩ := toSint64_toInt integer x
  have order := ordered_iff ⟨least, below⟩ word (saturate_toInt k)
  rw [valueSymbol_integer reading integer] at found
  have pushName : ∀ stack : List (Symbol R), stack.length < maxSymbols →
      evalSymbol prims (instanceLookup reading instance_) (.identifier name className propertyName)
        stack = .ok (.integer (toSint64 t x) :: stack) := by
    intro stack room
    unfold evalSymbol
    rw [if_neg (Nat.not_le.mpr room)]
    simp only [evalIdentifier, instanceLookup, found]
    rfl
  have pushConstant : ∀ stack : List (Symbol R), stack.length < maxSymbols →
      evalSymbol prims (instanceLookup reading instance_) (.integer (saturate k)) stack =
        .ok (.integer (saturate k) :: stack) := by
    intro stack room
    unfold evalSymbol
    rw [if_neg (Nat.not_le.mpr room)]
  have empty : ([] : List (Symbol R)).length + 2 < maxSymbols := Nat.le_of_ble_eq_true rfl
  rw [order]
  constructor
  · intro compares
    have flags : ∀ op : CompareOp, op ≠ .like →
        op.ofIntegers (toSint64 t x).toInt (saturate k).toInt =
          op.ofIntegers (t.integer signed x) k := by
      intro op ordering
      have both := ((compares op ordering).1 [] empty).1
      rw [evalLoop_integers ordering empty pushName pushConstant] at both
      have same := (List.cons.inj (Except.ok.inj both)).1
      revert same
      cases op.ofIntegers (toSint64 t x).toInt (saturate k).toInt <;>
        cases op.ofIntegers (t.integer signed x) k <;> simp [ofFlag]
    have less := flags .lt (by simp)
    have equal := flags .eq (by simp)
    simp only [CompareOp.ofIntegers, decide_eq_decide] at less equal
    exact ⟨less, equal⟩
  · rintro ⟨less, equal⟩ op ordering
    have flags : op.ofIntegers (toSint64 t x).toInt (saturate k).toInt =
          op.ofIntegers (t.integer signed x) k ∧
        op.ofIntegers (saturate k).toInt (toSint64 t x).toInt =
          op.ofIntegers k (t.integer signed x) := by
      cases op <;> simp only [CompareOp.ofIntegers, decide_eq_decide] <;> omega
    have run : ∀ stack : List (Symbol R), stack.length + 2 < maxSymbols → _ := fun stack room =>
      evalLoop_integers ordering room pushName pushConstant
    rw [flags.1] at run
    refine ⟨fun stack room => ⟨run stack room, ?_⟩, fun className => ?_⟩
    · rw [evalLoop_integers ordering room pushConstant pushName, flags.2]
    · simp only [eval, Wql.run, run [] empty, Option.isNone_some, List.isEmpty_cons,
        Bool.false_eq_true, if_false, bind, Except.bind]
      cases op.ofIntegers (t.integer signed x) k <;> rfl

/-- An instance with one property of type `uint64`. -/
def countingInstance (n : Nat) : Instance where
  className := .ofString "A"
  flags := 0
  nameSpace := none
  serverName := none
  elements := [⟨.ofString "n", 0, .plain .uint64 (narrow .uint64 n)⟩]

/-- Seven and a negative constant. -/
theorem comparesAs_small : ComparesAs noPrims (instanceLookup noReading (countingInstance 7))
    (named "n") (-1) (PlainType.integer .uint64 false (narrow .uint64 7)) := by
  have found : lookupInstanceProperty noReading (countingInstance 7) (.ofString "n") none none =
      valueSymbol noReading (.plain .uint64 (narrow .uint64 7)) := rfl
  have ordered : Ordered (PlainType.integer .uint64 false (narrow .uint64 7)) (-1) := by
    unfold Ordered
    decide
  exact (comparesAs_iff noPrims noReading rfl found (-1)).mpr ordered

/-- The largest value of the type is not above zero, and the largest word is equal to a
constant above it. -/
theorem comparesAs_faults :
    eval noPrims (instanceLookup noReading (countingInstance 0xFFFFFFFFFFFFFFFF))
        ⟨some (.ofString "A"), [named "n", .integer (saturate 0), .gt]⟩ = 1 ∧
      eval noPrims (instanceLookup noReading (countingInstance 0x7FFFFFFFFFFFFFFF))
        ⟨some (.ofString "A"), [named "n", .integer (saturate (2 ^ 63)), .eq]⟩ = 0 := by
  decide +kernel

end Omi.Wql
