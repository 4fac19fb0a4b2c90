import Omi.Wql.Like
import Omi.Wql.Words

/-!
# The LIKE matcher computes the meaning of a pattern

The invariant of the loop over the pattern is `Tracks`: a place of the row is marked
exactly if the parts that were read match the string up to it. One lemma for each branch
of the loop carries it over a part of the pattern.

The matcher differs from the meaning of the pattern in one part: a set that starts with
`^` and has no closing bracket takes every character, where no character matches it. It is
the last part of its pattern, so the results differ exactly if the parts before it match
the string without its last character.
-/

namespace Omi.Wql

open List

/-! ## Sets -/

theorem toUpper_ne_zero (c : UInt8) : c ≠ 0 → toUpper c ≠ 0 := by
  revert c
  exact forall_byte (by decide +kernel)

theorem charValue_injective {a b : UInt8} (h : charValue a = charValue b) : a = b := by
  have byte : ∀ c : UInt8, (c.toNat : Int) = charValue c % 256 := by
    apply forall_byte
    decide +kernel
  have same : (a.toNat : Int) = b.toNat := by
    rw [byte a, byte b, h]
  exact UInt8.toNat_inj.mp (Int.ofNat.inj same)

/-- The variable `lastchar` for the last character of a set. -/
def lastChar : Option UInt8 → UInt8
  | none => 0
  | some c => toUpper c

/-- The character is in a range. -/
def inRange (c : UInt8) (range : UInt8 × UInt8) : Bool :=
  charValue (toUpper range.1) ≤ charValue (toUpper c) &&
    charValue (toUpper c) ≤ charValue (toUpper range.2)

theorem inRange_iff (c low high : UInt8) : inRange c (low, high) = true ↔
    charValue (toUpper low) ≤ charValue (toUpper c) ∧
      charValue (toUpper c) ≤ charValue (toUpper high) := by
  rw [inRange, Bool.and_eq_true, decide_eq_true_eq, decide_eq_true_eq]

theorem inRange_single (c x : UInt8) : inRange c (x, x) = decide (toUpper x = toUpper c) := by
  rw [Bool.eq_iff_iff, inRange_iff, decide_eq_true_eq]
  constructor
  · exact fun h => charValue_injective (Int.le_antisymm h.1 h.2)
  · intro same
    rw [same]
    exact ⟨Int.le_refl _, Int.le_refl _⟩

variable {x c lastchar : UInt8} {rest text : List UInt8}

theorem ranges_single {last : Option UInt8} (h : last = none ∨ x ≠ 45) :
    ranges last (x :: text) = (x, x) :: ranges (some x) text := by
  cases last with
  | none => rfl
  | some low =>
    have other : x ≠ 45 := h.resolve_left nofun
    cases text <;> exact if_neg other

theorem ranges_pair (low high : UInt8) :
    ranges (some low) (45 :: high :: text) = (low, high) :: ranges (some high) text := rfl

theorem matchSetLoop_single (inside : x ≠ 93) (single : ¬(x = 45 ∧ lastchar ≠ 0))
    (pos : List UInt8) :
    matchSetLoop c lastchar (x :: pos) =
      if toUpper x = toUpper c then (true, x :: pos) else matchSetLoop c (toUpper x) pos := by
  cases pos <;> exact (if_neg inside).trans (if_neg single)

theorem matchSetLoop_pair {y : UInt8} (last : lastchar ≠ 0) (inside : y ≠ 93) (pos : List UInt8) :
    matchSetLoop c lastchar (45 :: y :: pos) =
      if charValue lastchar ≤ charValue (toUpper c) ∧
          charValue (toUpper c) ≤ charValue (toUpper y) then (true, pos)
      else matchSetLoop c (toUpper y) pos := by
  rw [matchSetLoop, if_neg (by decide), if_pos ⟨rfl, last⟩]
  simp only [inside, if_false]

/-- What follows the text of a set: nothing, or its closing bracket. -/
def SetEnd (rest : List UInt8) : Prop := rest = [] ∨ ∃ more, rest = 93 :: more

theorem SetEnd.dropWhile (h : SetEnd rest) : rest.dropWhile (· != 93) = rest := by
  obtain rfl | ⟨more, rfl⟩ := h
  · rfl
  · exact dropWhile_cons_of_neg (by decide)

theorem matchSetLoop_end (h : SetEnd rest) : matchSetLoop c lastchar rest = (false, rest) := by
  obtain rfl | ⟨more, rfl⟩ := h
  · rfl
  · cases more <;> rw [matchSetLoop, if_pos rfl]

theorem matchSetLoop_dash (last : lastchar ≠ 0) (h : SetEnd rest) :
    matchSetLoop c lastchar (45 :: rest) = (false, rest) := by
  obtain rfl | ⟨more, rfl⟩ := h
  · rw [matchSetLoop, if_neg (by decide), if_pos ⟨rfl, last⟩]
  · rw [matchSetLoop, if_neg (by decide), if_pos ⟨rfl, last⟩]
    simp only [if_true]

/-- The text of a set: no closing bracket and no terminator in it. -/
def SetText (text : List UInt8) : Prop := ∀ x ∈ text, x ≠ 93 ∧ x ≠ 0

theorem SetText.dropWhile (inside : SetText text) (h : SetEnd rest) :
    (text ++ rest).dropWhile (· != 93) = rest := by
  rw [dropWhile_append_of_pos fun x at_x => bne_iff_ne.mpr (inside x at_x).1]
  exact h.dropWhile

/-- The loop finds out whether the character is in the ranges of the text, and it does not
leave the text before it has read it or found the character. -/
theorem matchSetLoop_eq (isEnd : SetEnd rest) (n : Nat) :
    ∀ {text : List UInt8} (last : Option UInt8), text.length ≤ n → SetText text →
      (∀ l, last = some l → l ≠ 0) →
      (matchSetLoop c (lastChar last) (text ++ rest)).1 = (ranges last text).any (inRange c) ∧
      (matchSetLoop c (lastChar last) (text ++ rest)).2.dropWhile (· != 93) = rest := by
  induction n using Nat.strong_induction_on with
  | _ n ih =>
    intro text last bound inside lastNe
    cases text with
    | nil =>
      rw [nil_append, matchSetLoop_end isEnd]
      exact ⟨by cases last <;> rfl, isEnd.dropWhile⟩
    | cons x text =>
      rw [length_cons] at bound
      have insideTail : SetText text := fun y at_y => inside y (mem_cons_of_mem x at_y)
      have ne := inside x mem_cons_self
      by_cases dash : x = 45 ∧ lastChar last ≠ 0
      · -- A range, or a dash in front of the closing bracket.
        obtain ⟨rfl, present⟩ := dash
        cases last with
        | none => exact absurd rfl present
        | some low =>
          cases text with
          | nil =>
            rw [cons_append, nil_append, matchSetLoop_dash present isEnd]
            exact ⟨rfl, isEnd.dropWhile⟩
          | cons high text =>
            rw [length_cons] at bound
            have highNe := insideTail high mem_cons_self
            have insideRest : SetText text :=
              fun y at_y => insideTail y (mem_cons_of_mem high at_y)
            rw [cons_append, cons_append, matchSetLoop_pair present highNe.1, ranges_pair, any_cons]
            split_ifs with within
            · refine ⟨?_, insideRest.dropWhile isEnd⟩
              rw [(inRange_iff c low high).mpr within, Bool.true_or]
            · have outside : inRange c (low, high) = false :=
                Bool.eq_false_iff.mpr fun h => within ((inRange_iff c low high).mp h)
              rw [outside, Bool.false_or]
              refine ih text.length (by omega) (some high) (Nat.le_refl _) insideRest ?_
              rintro _ ⟨⟩
              exact highNe.2
      have single : last = none ∨ x ≠ 45 := by
        cases last with
        | none => exact .inl rfl
        | some low =>
          refine .inr fun isDash => dash ⟨isDash, toUpper_ne_zero low ?_⟩
          exact lastNe low rfl
      rw [cons_append, matchSetLoop_single ne.1 dash, ranges_single single,
        any_cons, inRange_single]
      split_ifs with same
      · refine ⟨by rw [decide_eq_true same]; rfl, ?_⟩
        rw [← cons_append]
        exact inside.dropWhile isEnd
      · rw [decide_eq_false same, Bool.false_or]
        refine ih text.length (by omega) (some x) (Nat.le_refl _) insideTail ?_
        rintro _ ⟨⟩
        exact ne.2

/-! ## Tests for one character -/

/-- The characters that the matcher lets a part take. -/
def Item.takes : Item → UInt8 → Bool
  | .openSet text, _ => text.head? = some 94
  | item, c => item.accepts c

/-- The bytes that a part spans in the pattern. -/
def Item.span : Item → Nat
  | .set text => text.length + 2
  | .openSet text => text.length + 1
  | _ => 1

/-- A test reports the characters that a part takes, with the bytes that it spans. -/
def Tests (item : Item) (test : UInt8 → Option Nat) : Prop :=
  ∀ c, test c = if item.takes c then some item.span else none

/-- The outcome of `_MatchSet` from that of its loop. -/
theorem matchSet_of_loop {start : List UInt8} (isEnd : SetEnd rest) (inside : SetText start)
    {negated : Bool} (isStart : (if negated = true then text.tail else text) = start ++ rest)
    (isNegated : decide (text.head? = some 94) = negated) :
    matchSet text c =
      (((if rest = [] then false else inRanges start c) == !negated),
        1 + text.length - rest.tail.length) := by
  obtain ⟨matched, tail⟩ := matchSetLoop_eq isEnd _ none (Nat.le_refl _) inside nofun
  change (matchSetLoop c 0 (start ++ rest)).1 = inRanges start c at matched
  change (matchSetLoop c 0 (start ++ rest)).2.dropWhile (· != 93) = rest at tail
  simp only [matchSet, isNegated, isStart, matched, tail]

theorem inSet_plain (plain : text.head? ≠ some 94) : inSet text c = inRanges text c := by
  unfold inSet
  split
  · exact absurd rfl plain
  · rfl

/-- `_MatchSet` reports what a set takes, and the bytes up to the place behind it. -/
theorem matchSet_eq (inside : SetText text) (isEnd : SetEnd rest) (c : UInt8) :
    matchSet (text ++ rest) c =
      ((if rest = [] then decide (text.head? = some 94) else inSet text c),
        1 + (text ++ rest).length - rest.tail.length) := by
  by_cases negated : text.head? = some 94
  · obtain ⟨inner, rfl⟩ := head?_eq_some_iff.mp negated
    have insideInner : SetText inner := fun x at_x => inside x (mem_cons_of_mem 94 at_x)
    rw [matchSet_of_loop isEnd insideInner rfl rfl]
    split_ifs
    · rfl
    · change ((inRanges inner c == false), _) = ((!inRanges inner c), _)
      rw [beq_false]
  have plain : decide ((text ++ rest).head? = some 94) = false := by
    refine decide_eq_false fun head => ?_
    cases text with
    | nil =>
      obtain rfl | ⟨more, rfl⟩ := isEnd
      · cases head
      · exact absurd (Option.some.inj head) (by decide)
    | cons x text => exact negated head
  rw [matchSet_of_loop isEnd inside rfl plain, inSet_plain negated, decide_eq_false negated]
  split_ifs
  · rfl
  · rw [Bool.not_false, beq_true]

/-- A set tests for the characters that it takes. -/
theorem tests_set (inside : SetText text) : Tests (.set text) (setTest (text ++ 93 :: rest)) := by
  intro c
  have outcome := matchSet_eq inside (.inr ⟨rest, rfl⟩) c
  have span : 1 + (text ++ 93 :: rest).length - rest.length = text.length + 2 := by
    rw [length_append, length_cons]
    omega
  rw [setTest, outcome, if_neg (cons_ne_nil 93 rest), tail_cons, span]
  rfl

theorem tests_openSet (inside : SetText text) : Tests (.openSet text) (setTest text) := by
  intro c
  have outcome := matchSet_eq inside (.inl rfl) c
  rw [append_nil] at outcome
  rw [setTest, outcome, if_pos rfl, tail_nil, length_nil, Nat.sub_zero, Nat.add_comm]
  rfl

/-- A character of the pattern that starts neither a set nor a wildcard. -/
def plainItem (x : UInt8) : Item := if x = 95 then .anyChar else .char x

theorem plainItem_takes : (plainItem x).takes c = decide (toUpper x = toUpper c ∨ x = 95) := by
  rw [plainItem]
  split_ifs with any
  · rw [decide_eq_true (.inr any)]
    rfl
  · change (toUpper x == toUpper c) = _
    rw [Bool.beq_eq_decide_eq, decide_eq_decide]
    exact ⟨.inl, fun h => h.resolve_right any⟩

theorem plainItem_span : (plainItem x).span = 1 := by
  rw [plainItem]
  split_ifs <;> rfl

variable {pattern : List UInt8}

theorem tests_plain : Tests (plainItem x) (charTest 0 (x :: pattern)) := by
  intro c
  rw [plainItem_takes, plainItem_span]
  simp only [charTest, ne_eq, not_true_eq_false, false_and, if_false, drop_zero,
    headD_cons, Nat.zero_add, decide_eq_true_eq]

/-! ## Rows -/

/-- The row records how the parts that were read match the string. -/
structure Tracks (string : List UInt8) (before : List (Glob UInt8)) (row : Row) : Prop where
  /-- The marked places are those up to which the parts match. -/
  marked : ∀ j ≤ string.length, row j ≠ .noMatch ↔ Glob.FitsTo before string j
  /-- The places from which the next part may take a character are the same. -/
  ready : ∀ j < string.length,
    (row j = .oneChar ∨ row (j + 1) = .wildcardChar) ↔ Glob.FitsTo before string j
  first : row 0 ≠ .wildcardChar

variable {string : List UInt8} {before : List (Glob UInt8)} {row : Row}

theorem Tracks.congr {other : List (Glob UInt8)} (tracks : Tracks string before row)
    (same : ∀ j ≤ string.length, Glob.FitsTo before string j ↔ Glob.FitsTo other string j) :
    Tracks string other row where
  marked j bound := (tracks.marked j bound).trans (same j bound)
  ready j bound := (tracks.ready j bound).trans (same j (Nat.le_of_lt bound))
  first := tracks.first

/-- A row without wildcard marks is all about its marks. -/
theorem Tracks.of_marked (plain : ∀ j, row j ≠ .wildcardChar)
    (marked : ∀ j ≤ string.length, row j ≠ .noMatch ↔ Glob.FitsTo before string j) :
    Tracks string before row where
  marked := marked
  ready j bound := by
    rw [← marked j (Nat.le_of_lt bound)]
    constructor
    · rintro (one | wildcard)
      · rw [one]
        exact nofun
      · exact absurd wildcard (plain (j + 1))
    · intro some_
      cases mark : row j with
      | noMatch => exact absurd mark some_
      | wildcardChar => exact absurd mark (plain j)
      | oneChar => exact .inl rfl
  first := plain 0

theorem tracks_first : Tracks string [] firstRow := by
  refine .of_marked (fun j => ?_) fun j bound => ?_
  · rw [firstRow]
    split_ifs <;> exact nofun
  · rw [Glob.fitsTo_nil bound, firstRow]
    split_ifs with zero
    · exact ⟨fun _ => zero, fun _ => nofun⟩
    · exact ⟨fun h => absurd rfl h, fun h => absurd h zero⟩

/-- The first marked place of a row has a mark of its own. -/
theorem Tracks.first_marked (tracks : Tracks string before row) {c : Nat}
    (bound : c ≤ string.length) (marked : row c ≠ .noMatch)
    (least : ∀ i < c, row i = .noMatch) : row c = .oneChar := by
  cases mark : row c with
  | noMatch => exact absurd mark marked
  | oneChar => rfl
  | wildcardChar =>
    cases c with
    | zero => exact absurd mark tracks.first
    | succ i =>
      have fits := (tracks.ready i bound).mp (.inr mark)
      have earlier := (tracks.marked i (by omega)).mpr fits
      exact absurd (least i (Nat.lt_succ_self i)) earlier

/-- A wildcard extends every match to all later places. -/
theorem Tracks.wildcard (tracks : Tracks string before row) :
    Tracks string (before ++ [.many]) (wildcardRow string.length row) := by
  rw [wildcardRow]
  cases found : (range (string.length + 1)).find? fun c => decide (row c ≠ .noMatch) with
  | none =>
    refine .of_marked (fun _ => nofun) fun j bound => ?_
    rw [Glob.fitsTo_concat_many bound]
    refine ⟨fun h => absurd rfl h, ?_⟩
    rintro ⟨i, le, fits⟩
    have marked := (tracks.marked i (by omega)).mpr fits
    have inside : i ∈ range (string.length + 1) := mem_range.mpr (by omega)
    exact absurd (decide_eq_true marked) (find?_eq_none.mp found i inside)
  | some c =>
    obtain ⟨marked, inside, least⟩ := find?_range_eq_some.mp found
    have bound : c ≤ string.length := Nat.lt_succ_iff.mp (mem_range.mp inside)
    have marked : row c ≠ .noMatch := of_decide_eq_true marked
    have least : ∀ i < c, row i = .noMatch := by
      intro i before_c
      simpa using least i before_c
    have reach : ∀ j ≤ string.length, Glob.FitsTo (before ++ [.many]) string j ↔ c ≤ j := by
      intro j bound_j
      rw [Glob.fitsTo_concat_many bound_j]
      constructor
      · rintro ⟨i, le, fits⟩
        by_contra later
        have none := least i (by omega)
        exact (tracks.marked i (by omega)).mpr fits none
      · exact fun le => ⟨c, le, (tracks.marked c bound).mp marked⟩
    simp only [tracks.first_marked bound marked least, if_true]
    refine ⟨fun j bound_j => ?_, fun j bound_j => ?_, ?_⟩
    · rw [reach j bound_j]
      split_ifs with here behind
      · exact ⟨fun _ => by omega, fun _ => nofun⟩
      · exact ⟨fun _ => by omega, fun _ => nofun⟩
      · exact ⟨fun h => absurd rfl h, fun h => absurd h (by omega)⟩
    · rw [reach j (Nat.le_of_lt bound_j)]
      constructor
      · rintro (one | wildcard)
        · split_ifs at one with here
          exact Nat.le_of_eq here.symm
        · split_ifs at wildcard with here behind
          omega
      · intro le
        by_cases here : j = c
        · exact .inl (if_pos here)
        · refine .inr ?_
          rw [if_neg (by omega), if_pos (by omega)]
    · split_ifs with here behind
      · exact nofun
      · exact absurd behind (by omega)
      · exact nofun

/-! ## One character -/

/-- What the loop over the places has found at the places with a property. -/
structure Marks (string : List UInt8) (item : Item) (P : Nat → Prop) (found : Row × Option Nat) :
    Prop where
  plain : ∀ j, found.1 j ≠ .wildcardChar
  marked : ∀ j, found.1 j ≠ .noMatch ↔
    ∃ i c, j = i + 1 ∧ string[i]? = some c ∧ item.takes c = true ∧ P i
  absent : found.2 = none ↔ ∀ j, found.1 j = .noMatch
  span : ∀ skip, found.2 = some skip → skip = item.span

variable {item : Item} {test : UInt8 → Option Nat} {P Q : Nat → Prop} {found : Row × Option Nat}

theorem Marks.congr (marks : Marks string item P found)
    (same : ∀ i < string.length, P i ↔ Q i) : Marks string item Q found where
  plain := marks.plain
  marked j := by
    rw [marks.marked]
    constructor
    · rintro ⟨i, c, rfl, here, takes, holds⟩
      exact ⟨i, c, rfl, here, takes, (same i (List.getElem?_eq_some_iff.mp here).1).mp holds⟩
    · rintro ⟨i, c, rfl, here, takes, holds⟩
      exact ⟨i, c, rfl, here, takes, (same i (List.getElem?_eq_some_iff.mp here).1).mpr holds⟩
  absent := marks.absent
  span := marks.span

theorem marks_nothing : Marks string item (fun _ => False) (fun _ => .noMatch, none) where
  plain _ := nofun
  marked _ := ⟨fun h => absurd rfl h, fun ⟨_, _, _, _, _, impossible⟩ => impossible.elim⟩
  absent := ⟨fun _ _ => rfl, fun _ => rfl⟩
  span _ := nofun

/-- One more place adds what the part takes there. -/
theorem taken_or_place {place j : Nat} {byte : UInt8} (here : string[place]? = some byte) :
    (∃ i c, j = i + 1 ∧ string[i]? = some c ∧ item.takes c = true ∧ (P i ∨ i = place)) ↔
      (∃ i c, j = i + 1 ∧ string[i]? = some c ∧ item.takes c = true ∧ P i) ∨
        (j = place + 1 ∧ item.takes byte = true) := by
  constructor
  · rintro ⟨i, c, same, at_i, taken, holds | rfl⟩
    · exact .inl ⟨i, c, same, at_i, taken, holds⟩
    · cases here.symm.trans at_i
      exact .inr ⟨same, taken⟩
  · rintro (⟨i, c, same, at_i, taken, holds⟩ | ⟨same, taken⟩)
    · exact ⟨i, c, same, at_i, taken, .inl holds⟩
    · exact ⟨place, byte, same, here, taken, .inr rfl⟩

/-- The places that the loop has passed by the time it comes to `c`. -/
def Passed (row : Row) (c i : Nat) : Prop :=
  (row i = .oneChar ∧ i < c) ∨ (row (i + 1) = .wildcardChar ∧ i + 1 < c)

theorem passed_zero (i : Nat) : ¬Passed row 0 i := by
  rintro (⟨-, lt⟩ | ⟨-, lt⟩)
  · exact Nat.not_lt_zero i lt
  · exact Nat.not_lt_zero (i + 1) lt

/-- What passing one more place adds. -/
theorem passed_succ (c i : Nat) : Passed row (c + 1) i ↔
    Passed row c i ∨ (row c = .oneChar ∧ i = c) ∨ (row c = .wildcardChar ∧ i + 1 = c) := by
  constructor
  · rintro (⟨one, lt⟩ | ⟨wildcard, lt⟩)
    · obtain lt | rfl := Nat.lt_succ_iff_lt_or_eq.mp lt
      · exact .inl (.inl ⟨one, lt⟩)
      · exact .inr (.inl ⟨one, rfl⟩)
    · obtain lt | rfl := Nat.lt_succ_iff_lt_or_eq.mp lt
      · exact .inl (.inr ⟨wildcard, lt⟩)
      · exact .inr (.inr ⟨wildcard, rfl⟩)
  · rintro ((⟨one, lt⟩ | ⟨wildcard, lt⟩) | ⟨one, rfl⟩ | ⟨wildcard, rfl⟩)
    · exact .inl ⟨one, Nat.lt_succ_of_lt lt⟩
    · exact .inr ⟨wildcard, Nat.lt_succ_of_lt lt⟩
    · exact .inl ⟨one, Nat.lt_succ_self i⟩
    · exact .inr ⟨wildcard, Nat.lt_succ_self (i + 1)⟩

section

variable (tests : Tests item test)
include tests

theorem markBehind_refused {place : Nat} (refused : item.takes (string.getD place 0) = false) :
    markBehind string test place found = found := by
  rw [markBehind, tests, refused]
  rfl

theorem markBehind_taken {place : Nat} (taken : item.takes (string.getD place 0) = true) :
    markBehind string test place found =
      (Function.update found.1 (place + 1) .oneChar, some (found.2.getD item.span)) := by
  rw [markBehind, tests, taken]
  rfl

/-- One round of the loop adds a place. -/
theorem Marks.behind (marks : Marks string item P found) {place : Nat}
    (bound : place < string.length) :
    Marks string item (fun i => P i ∨ i = place) (markBehind string test place found) := by
  have here : string[place]? = some (string.getD place 0) := by
    rw [getD_eq_getElem?_getD, getElem?_eq_getElem bound]
    rfl
  cases takes : item.takes (string.getD place 0) with
  | false =>
    rw [markBehind_refused tests takes]
    refine ⟨marks.plain, fun j => ?_, marks.absent, marks.span⟩
    have refused : ¬(j = place + 1 ∧ item.takes (string.getD place 0) = true) :=
      fun h => Bool.false_ne_true (takes.symm.trans h.2)
    rw [marks.marked, taken_or_place here, or_iff_left refused]
  | true =>
    rw [markBehind_taken tests takes]
    refine ⟨fun j => ?_, fun j => ?_, ⟨nofun, fun empty => ?_⟩, fun skip same => ?_⟩
    · change Function.update found.1 (place + 1) .oneChar j ≠ .wildcardChar
      rw [Function.update_apply]
      split_ifs
      · exact nofun
      · exact marks.plain j
    · change Function.update found.1 (place + 1) .oneChar j ≠ .noMatch ↔ _
      rw [Function.update_apply]
      split_ifs with atPlace
      · exact ⟨fun _ => ⟨place, _, atPlace, here, takes, .inr rfl⟩, fun _ => nofun⟩
      · rw [marks.marked, taken_or_place here, or_iff_left fun h => atPlace h.1]
    · have marked : Function.update found.1 (place + 1) .oneChar (place + 1) = .noMatch :=
        empty (place + 1)
      rw [Function.update_self] at marked
      cases marked
    · cases same
      cases first : found.2 with
      | none => rfl
      | some skip => exact marks.span skip first

theorem marks_markChars (tracks : Tracks string before row) (c : Nat) :
    c ≤ string.length + 1 → Marks string item (Passed row c) (markChars string test row c) := by
  induction c with
  | zero =>
    intro _
    exact marks_nothing.congr fun i _ => ⟨False.elim, passed_zero i⟩
  | succ c ih =>
    intro bound
    have marks := ih (by omega)
    rw [markChars]
    cases mark : row c with
    | noMatch =>
      refine marks.congr fun i _ => ?_
      simp only [passed_succ, mark, reduceCtorEq, false_and, or_self, or_false]
    | wildcardChar =>
      cases c with
      | zero => exact absurd mark tracks.first
      | succ c =>
        have place : c < string.length := by omega
        refine (marks.behind tests place).congr fun i _ => ?_
        simp only [passed_succ (c + 1), mark, reduceCtorEq, false_and, true_and,
          false_or, Nat.add_right_cancel_iff]
    | oneChar =>
      simp only
      split_ifs with last
      · refine marks.congr fun i before_end => ?_
        have other : i ≠ c := by omega
        simp only [passed_succ, mark, other, reduceCtorEq, and_false, false_and, or_self, or_false]
      · have place : c < string.length := by omega
        refine (marks.behind tests place).congr fun i _ => ?_
        simp only [passed_succ, mark, reduceCtorEq, false_and, true_and, or_false]

end

/-- The whole loop marks the places behind the characters that the part takes. -/
theorem Tracks.marks (tracks : Tracks string before row) (tests : Tests item test) :
    Marks string item (Glob.FitsTo before string)
      (markChars string test row (string.length + 1)) := by
  refine (marks_markChars tests tracks _ (Nat.le_refl _)).congr fun i bound => ?_
  rw [← tracks.ready i bound]
  constructor
  · rintro (⟨one, -⟩ | ⟨wildcard, -⟩)
    · exact .inl one
    · exact .inr wildcard
  · rintro (one | wildcard)
    · exact .inl ⟨one, Nat.lt_succ_of_lt bound⟩
    · exact .inr ⟨wildcard, Nat.succ_lt_succ bound⟩

/-- Where a part takes what matches it, the new row tracks one part more. -/
theorem Marks.tracks (marks : Marks string item (Glob.FitsTo before string) found)
    (exact_ : item.takes = item.accepts) :
    Tracks string (before ++ [.one item.accepts]) found.1 := by
  refine .of_marked marks.plain fun j bound => ?_
  rw [marks.marked, Glob.fitsTo_concat_one bound, exact_]

/-! ## Parts of a pattern -/

theorem items_wildcard : items (37 :: pattern) = .anySequence :: items pattern := rfl

theorem items_plain (noWildcard : x ≠ 37) (noSet : x ≠ 91) :
    items (x :: pattern) = plainItem x :: items pattern := by
  rw [items, itemsFrom, if_neg noWildcard, plainItem]
  split_ifs <;> rfl

theorem itemsFrom_text (inside : SetText text) :
    ∀ start, itemsFrom (some start) (text ++ rest) = itemsFrom (some (start ++ text)) rest := by
  induction text with
  | nil =>
    intro start
    rw [nil_append, append_nil]
  | cons x text ih =>
    intro start
    have ne := inside x mem_cons_self
    rw [cons_append, itemsFrom, if_neg ne.1,
      ih fun y at_y => inside y (mem_cons_of_mem x at_y), append_assoc]
    rfl

theorem itemsFrom_set (inside : SetText text) :
    itemsFrom (some []) (text ++ 93 :: rest) = .set text :: items rest := by
  rw [itemsFrom_text inside, itemsFrom, if_pos rfl]
  rfl

theorem itemsFrom_openSet (inside : SetText text) :
    itemsFrom (some []) (text ++ []) = [.openSet text] := by
  rw [itemsFrom_text inside]
  rfl

/-- A text ends at its first closing bracket or goes on to its end. -/
theorem exists_setText (clean : (0 : UInt8) ∉ pattern) :
    ∃ text rest, pattern = text ++ rest ∧ SetText text ∧ SetEnd rest := by
  refine ⟨pattern.takeWhile (· != 93), pattern.dropWhile (· != 93),
    takeWhile_append_dropWhile.symm, fun x inside => ?_, ?_⟩
  · have other := mem_takeWhile_imp inside
    refine ⟨bne_iff_ne.mp other, fun zero => clean ?_⟩
    exact zero ▸ (takeWhile_sublist _).subset inside
  · cases behind : pattern.dropWhile (· != 93) with
    | nil => exact .inl rfl
    | cons x more =>
      have stops := head_dropWhile behind
      rw [bne_eq_false_iff_eq] at stops
      exact .inr ⟨more, by rw [stops]⟩

/-! ## The loop over the pattern -/

/-- Parts as a general pattern. -/
def globs (parts : List Item) : List (Glob UInt8) := parts.map Item.glob

theorem globs_concat (parts : List Item) :
    globs (parts ++ [item]) = globs parts ++ [item.glob] := map_append

/-- A part that the matcher does not get past as the meaning of the pattern asks, behind
the parts `before`: a set whose span exceeds an `int`, if it takes a character behind what
the parts before it match; or a set that starts with `^` and has no end, if the parts
before it match the string without its last character. -/
def Fault (string : List UInt8) (before : List Item) (item : Item) : Prop :=
  (intLimit ≤ item.span ∧ ∃ i c, string[i]? = some c ∧ item.takes c = true ∧
    Glob.FitsTo (globs before) string i) ∨
  ∃ text i, item = .openSet (94 :: text) ∧ i + 1 = string.length ∧
    Glob.FitsTo (globs before) string i

/-- There is such a part in the rest of a pattern. -/
def FaultFrom (string : List UInt8) (before rest : List Item) : Prop :=
  ∃ inner item after, rest = inner ++ item :: after ∧ Fault string (before ++ inner) item

theorem faultFrom_cons {before rest : List Item} :
    FaultFrom string before (item :: rest) ↔
      Fault string before item ∨ FaultFrom string (before ++ [item]) rest := by
  constructor
  · rintro ⟨inner, other, after, split, fault⟩
    cases inner with
    | nil =>
      cases split
      rw [append_nil] at fault
      exact .inl fault
    | cons first inner =>
      obtain ⟨rfl, tail⟩ := cons.inj split
      refine .inr ⟨inner, other, after, tail, ?_⟩
      rw [append_assoc]
      exact fault
  · rintro (fault | ⟨inner, other, after, rfl, fault⟩)
    · exact ⟨[], item, rest, rfl, by rwa [append_nil]⟩
    · rw [append_assoc] at fault
      exact ⟨item :: inner, other, after, rfl, fault⟩

variable {before : List Item}

theorem not_faultFrom_nil : ¬FaultFrom string before [] := by
  rintro ⟨inner, item, after, split, -⟩
  exact absurd split (append_ne_nil_of_right_ne_nil inner (cons_ne_nil _ _)).symm

theorem Fault.reached (h : Fault string before item) :
    ∃ i ≤ string.length, Glob.FitsTo (globs before) string i := by
  obtain ⟨-, i, c, here, -, fits⟩ | ⟨text, i, -, length, fits⟩ := h
  · exact ⟨i, Nat.le_of_lt (List.getElem?_eq_some_iff.mp here).1, fits⟩
  · exact ⟨i, by omega, fits⟩

/-- Where the parts before match nothing, the rest of the pattern does not matter. -/
theorem stuck
    (none : ∀ j ≤ string.length, ¬Glob.FitsTo (globs before) string j) (rest : List Item) :
    ¬FaultFrom string before rest ∧ Glob.fits (globs (before ++ rest)) string = false := by
  constructor
  · rintro ⟨inner, item, after, -, fault⟩
    obtain ⟨i, bound, fits⟩ := fault.reached
    rw [globs, map_append] at fits
    obtain ⟨j, le, front⟩ := fits.front bound
    exact none j (by omega) front
  · refine Bool.eq_false_iff.mpr fun fits => ?_
    rw [← Glob.fitsTo_length, globs, map_append] at fits
    obtain ⟨j, le, front⟩ := fits.front (Nat.le_refl _)
    exact none j le front

/-- The outcome of the loop is the meaning of the parts. -/
def Agrees (string : List UInt8) (parts : List Item) (outcome : Option Row) : Prop :=
  ∃ row, outcome = some row ∧
    (row string.length ≠ .noMatch ↔ Glob.fits (globs parts) string = true)

theorem not_agrees_none {parts : List Item} : ¬Agrees string parts none := by
  rintro ⟨row, same, -⟩
  cases same

/-- What the loop does with the outcome of a test. -/
def proceed (found : Row × Option Nat) (next : Nat → Row → Option Row) : Option Row :=
  match found.2 with
  | none => some found.1
  | some skip => if intLimit ≤ skip then none else next skip found.1

theorem Marks.reached {skip : Nat}
    (marks : Marks string item (Glob.FitsTo (globs before) string) found)
    (h : found.2 = some skip) :
    ∃ i c, string[i]? = some c ∧ item.takes c = true ∧ Glob.FitsTo (globs before) string i := by
  by_contra unreached
  have empty : ∀ j, found.1 j = .noMatch := by
    intro j
    by_contra marked
    obtain ⟨i, c, -, here, takes, fits⟩ := (marks.marked j).mp marked
    exact unreached ⟨i, c, here, takes, fits⟩
  rw [marks.absent.mpr empty] at h
  cases h

theorem Marks.unreached
    (marks : Marks string item (Glob.FitsTo (globs before) string) found) (h : found.2 = none)
    {i : Nat} (here : string[i]? = some c) (takes : item.takes c = true) :
    ¬Glob.FitsTo (globs before) string i := by
  intro fits
  exact (marks.marked (i + 1)).mpr ⟨i, c, rfl, here, takes, fits⟩ (marks.absent.mp h (i + 1))

/-- A part that takes what matches it. -/
structure Exact (item : Item) : Prop where
  glob : item.glob = .one item.accepts
  takes : item.takes = item.accepts
  closed : ∀ text, item ≠ .openSet text

theorem exact_set : Exact (.set text) := ⟨rfl, rfl, nofun⟩

theorem exact_plain : Exact (plainItem x) := by
  rw [plainItem]
  split_ifs
  · exact ⟨rfl, rfl, nofun⟩
  · exact ⟨rfl, rfl, nofun⟩

/-- One round of the loop at a part that takes what matches it. -/
theorem agrees_exact {before rest : List Item} {next : Nat → Row → Option Row}
    (isExact : Exact item) (tests : Tests item test)
    (tracks : Tracks string (globs before) row)
    (later : ∀ row, Tracks string (globs (before ++ [item])) row →
      (Agrees string (before ++ [item] ++ rest) (next item.span row) ↔
        ¬FaultFrom string (before ++ [item]) rest)) :
    Agrees string (before ++ item :: rest)
        (proceed (markChars string test row (string.length + 1)) next) ↔
      ¬FaultFrom string before (item :: rest) := by
  have marks := tracks.marks tests
  have more := marks.tracks isExact.takes
  rw [← isExact.glob, ← globs_concat] at more
  rw [append_cons, faultFrom_cons, proceed]
  cases skipped : (markChars string test row (string.length + 1)).2 with
  | none =>
    have empty := marks.absent.mp skipped
    obtain ⟨noFault, noMatch⟩ := stuck (fun j bound fits =>
      (more.marked j bound).mpr fits (empty j)) rest
    refine ⟨fun _ => not_or.mpr ⟨?_, noFault⟩, fun _ => ⟨_, rfl, ?_⟩⟩
    · rintro (⟨-, i, c, here, takes, fits⟩ | ⟨text, -, isOpen, -⟩)
      · exact marks.unreached skipped here takes fits
      · exact isExact.closed _ isOpen
    · rw [noMatch]
      exact ⟨fun h => absurd (empty _) h, nofun⟩
  | some skip =>
    obtain rfl := marks.span skip skipped
    simp only
    split_ifs with long
    · refine ⟨fun h => absurd h not_agrees_none, fun h => absurd ?_ h⟩
      exact .inl (.inl ⟨long, marks.reached skipped⟩)
    · rw [later _ more, not_or]
      refine ⟨fun h => ⟨?_, h⟩, fun h => h.2⟩
      rintro (⟨tooLong, -⟩ | ⟨text, -, isOpen, -⟩)
      · exact long tooLong
      · exact isExact.closed _ isOpen

/-- The last round of the loop, at a set without an end. -/
theorem agrees_openSet {next : Nat → Row → Option Row}
    (tests : Tests (.openSet text) test) (tracks : Tracks string (globs before) row)
    (later : ∀ row, next (Item.openSet text).span row = some row) :
    Agrees string (before ++ [.openSet text])
        (proceed (markChars string test row (string.length + 1)) next) ↔
      ¬FaultFrom string before [.openSet text] := by
  have marks := tracks.marks tests
  have noMatch : Glob.fits (globs (before ++ [.openSet text])) string = false := by
    refine Bool.eq_false_iff.mpr fun fits => ?_
    rw [← Glob.fitsTo_length, globs_concat] at fits
    obtain ⟨i, c, -, -, accepted, -⟩ := (Glob.fitsTo_concat_one (Nat.le_refl _)).mp fits
    cases accepted
  rw [faultFrom_cons, proceed]
  cases skipped : (markChars string test row (string.length + 1)).2 with
  | none =>
    refine ⟨fun _ => not_or.mpr ⟨?_, not_faultFrom_nil⟩, fun _ => ⟨_, rfl, ?_⟩⟩
    · rintro (⟨-, i, c, here, takes, fits⟩ | ⟨inner, i, isOpen, length, fits⟩)
      · exact marks.unreached skipped here takes fits
      · have bound : i < string.length := by omega
        refine marks.unreached skipped (getElem?_eq_getElem bound) ?_ fits
        rw [Item.openSet.inj isOpen]
        rfl
    · rw [noMatch]
      exact ⟨fun h => absurd (marks.absent.mp skipped _) h, nofun⟩
  | some skip =>
    obtain rfl := marks.span skip skipped
    obtain ⟨place, byte, here, takes, fitsHere⟩ := marks.reached skipped
    obtain ⟨inner, rfl⟩ : ∃ inner, text = 94 :: inner :=
      head?_eq_some_iff.mp (of_decide_eq_true takes)
    simp only [later]
    split_ifs with long
    · refine ⟨fun h => absurd h not_agrees_none, fun h => absurd ?_ h⟩
      exact .inl (.inl ⟨long, place, byte, here, takes, fitsHere⟩)
    · constructor
      · rintro ⟨final, same, agrees⟩
        cases same
        rw [noMatch] at agrees
        refine not_or.mpr ⟨?_, not_faultFrom_nil⟩
        rintro (⟨tooLong, -⟩ | ⟨_, i, -, length, fits⟩)
        · exact long tooLong
        · have bound : i < string.length := by omega
          refine absurd (agrees.mp ((marks.marked _).mpr ?_)) Bool.false_ne_true
          exact ⟨i, _, length.symm, getElem?_eq_getElem bound, rfl, fits⟩
      · intro noFault
        refine ⟨_, rfl, ?_⟩
        rw [noMatch]
        refine ⟨fun marked => absurd ?_ noFault, nofun⟩
        obtain ⟨i, c, length, -, -, fits⟩ := (marks.marked _).mp marked
        exact .inl (.inr ⟨inner, i, rfl, length.symm, fits⟩)

theorem not_fault_anySequence : ¬Fault string before .anySequence := by
  rintro (⟨long, -⟩ | ⟨_, _, isOpen, -⟩)
  · exact absurd long (by decide)
  · cases isOpen

/-- Further wildcards change neither the row nor what can go wrong. -/
theorem Tracks.wildcards (pattern : List UInt8) : ∀ {before : List Item},
    Tracks string (globs (before ++ [.anySequence])) row →
    ∃ between, items pattern = between ++ items (pattern.dropWhile (· == 37)) ∧
      Tracks string (globs (before ++ [.anySequence] ++ between)) row ∧
      ∀ rest, FaultFrom string (before ++ [.anySequence]) (between ++ rest) ↔
        FaultFrom string (before ++ [.anySequence] ++ between) rest := by
  induction pattern with
  | nil =>
    intro before tracks
    exact ⟨[], rfl, by rwa [append_nil], fun rest => by rw [append_nil]; rfl⟩
  | cons x pattern ih =>
    intro before tracks
    by_cases wildcard : x = 37
    · rw [wildcard, items_wildcard, dropWhile_cons_of_pos rfl]
      have again : Tracks string (globs (before ++ [.anySequence] ++ [.anySequence])) row := by
        refine tracks.congr fun j bound => ?_
        rw [globs_concat (before ++ [Item.anySequence])]
        change _ ↔ Glob.FitsTo (_ ++ [.many]) string j
        rw [Glob.fitsTo_concat_many bound]
        constructor
        · exact fun fits => ⟨j, Nat.le_refl j, fits⟩
        · rintro ⟨i, le, fits⟩
          rw [globs_concat] at fits ⊢
          obtain ⟨k, le', inner⟩ := (Glob.fitsTo_concat_many (by omega)).mp fits
          exact (Glob.fitsTo_concat_many bound).mpr ⟨k, by omega, inner⟩
      obtain ⟨between, split, more, faults⟩ := ih again
      refine ⟨.anySequence :: between, by rw [split]; rfl, ?_, fun rest => ?_⟩
      · rwa [append_cons]
      · rw [cons_append, faultFrom_cons, faults rest, ← append_cons]
        exact ⟨fun h => h.resolve_left not_fault_anySequence, .inr⟩
    · rw [dropWhile_cons_of_neg (by rwa [beq_iff_eq])]
      exact ⟨[], rfl, by rwa [append_nil], fun rest => by rw [append_nil]; rfl⟩

/-- The loop agrees with the meaning of the pattern exactly if it has no part that is
misread. -/
theorem likeLoop_agrees (rounds : Nat) : ∀ {pattern : List UInt8} {before : List Item} {row : Row},
    pattern.length < rounds → (0 : UInt8) ∉ pattern → Tracks string (globs before) row →
    (Agrees string (before ++ items pattern) (likeLoop 0 string rounds pattern row) ↔
      ¬FaultFrom string before (items pattern)) := by
  induction rounds with
  | zero => exact fun bound => absurd bound (Nat.not_lt_zero _)
  | succ rounds ih =>
    intro pattern before row bound clean tracks
    cases pattern with
    | nil =>
      refine ⟨fun _ => not_faultFrom_nil, fun _ => ⟨row, rfl, ?_⟩⟩
      rw [tracks.marked _ (Nat.le_refl _), Glob.fitsTo_length, items, itemsFrom, append_nil]
    | cons x pattern =>
      rw [length_cons] at bound
      rw [mem_cons, not_or] at clean
      rw [likeLoop]
      split_ifs with wildcard set
      · -- A wildcard, with those that follow it.
        have once := tracks.wildcard
        change Tracks string (globs before ++ [Item.anySequence.glob]) _ at once
        rw [← globs_concat] at once
        obtain ⟨between, split, more, faults⟩ := once.wildcards pattern
        have shorter := (dropWhile_sublist (· == 37) (l := pattern)).length_le
        have cleaner : (0 : UInt8) ∉ pattern.dropWhile (· == 37) :=
          fun inside => clean.2 ((dropWhile_sublist _).subset inside)
        have rest := ih (by omega) cleaner more
        rw [wildcard, items_wildcard, faultFrom_cons, split, faults,
          or_iff_right not_fault_anySequence, ← rest, append_cons,
          append_assoc _ between]
      · -- A set, with or without an end.
        obtain ⟨text, rest, rfl, inside, rfl | ⟨more, rfl⟩⟩ := exists_setText clean.2
        · have parts : items (x :: (text ++ [])) = [.openSet text] := by
            rw [set]
            exact itemsFrom_openSet inside
          rw [parts]
          refine agrees_openSet (by rw [append_nil]; exact tests_openSet inside) tracks
            fun row => ?_
          change likeLoop 0 string rounds ((text ++ []).drop text.length) row = some row
          rw [drop_left]
          obtain ⟨rounds, rfl⟩ := Nat.exists_eq_succ_of_ne_zero (by omega : rounds ≠ 0)
          rw [likeLoop]
        · have parts : items (x :: (text ++ 93 :: more)) = .set text :: items more := by
            rw [set]
            exact itemsFrom_set inside
          rw [parts]
          refine agrees_exact (exact_set) (tests_set inside) tracks fun row tracks => ?_
          have behind : (x :: (text ++ 93 :: more)).drop (text.length + 2) = more := by
            rw [drop_succ_cons, ← drop_drop, drop_left]
            rfl
          rw [mem_append, not_or, mem_cons, not_or] at clean
          rw [length_append, length_cons] at bound
          change (Agrees _ _ (likeLoop 0 string rounds
            ((x :: (text ++ 93 :: more)).drop (text.length + 2)) row) ↔ _)
          rw [behind]
          exact ih (by omega) clean.2.2.2 tracks
      · rw [items_plain wildcard set]
        refine agrees_exact (exact_plain) (tests_plain) tracks fun row tracks => ?_
        rw [plainItem_span]
        exact ih (by omega) clean.2 tracks

/-! ## The matcher -/

/-- The pattern has a part that the matcher misreads for the string. -/
def Misread (pattern string : List UInt8) : Prop := FaultFrom string [] (items pattern)

theorem not_misread_nil : ¬Misread pattern [] := by
  rintro ⟨_, _, _, -, ⟨-, _, _, here, -⟩ | ⟨_, _, -, length, -⟩⟩
  · cases here
  · exact absurd length (Nat.succ_ne_zero _)

/-- The first part of a pattern that does not start with a wildcard takes a character. -/
theorem items_takes (noWildcard : x ≠ 37) :
    ∃ item rest, items (x :: pattern) = item :: rest ∧ item.glob = .one item.accepts := by
  have inSet : ∀ (pattern text : List UInt8), ∃ item rest,
      itemsFrom (some text) pattern = item :: rest ∧ item.glob = .one item.accepts := by
    intro pattern
    induction pattern with
    | nil => exact fun text => ⟨.openSet text, [], rfl, rfl⟩
    | cons x pattern ih =>
      intro text
      rw [itemsFrom]
      split_ifs
      · exact ⟨.set text, _, rfl, rfl⟩
      · exact ih _
  by_cases set : x = 91
  · rw [set]
    exact inSet pattern []
  · exact ⟨plainItem x, items pattern, items_plain noWildcard set, (exact_plain).glob⟩

/-- Against the empty string only wildcards match. -/
theorem like_nil : like pattern [] = decide (pattern.dropWhile (· == 37) = []) := by
  induction pattern with
  | nil => rfl
  | cons x pattern ih =>
    by_cases wildcard : x = 37
    · rw [wildcard, dropWhile_cons_of_pos rfl, ← ih]
      exact Bool.or_false _
    · rw [dropWhile_cons_of_neg (by rwa [beq_iff_eq]), decide_eq_false nofun]
      obtain ⟨item, rest, parts, glob⟩ := items_takes wildcard
      rw [like, parts, map_cons, glob]
      rfl

/-- The matcher returns the meaning of the pattern exactly if the pattern has no part that
it misreads for the string. -/
theorem matchLike_iff (pattern string : ZString) :
    matchLike pattern.chars string.chars 0 = some (like pattern.chars string.chars) ↔
      ¬Misread pattern.chars string.chars := by
  rw [matchLike]
  split_ifs with edge
  · obtain empty | empty := edge
    · rw [empty]
      refine ⟨fun _ => not_faultFrom_nil, fun _ => congrArg some ?_⟩
      rw [like, items, itemsFrom, map_nil, Bool.eq_iff_iff, decide_eq_true_eq,
        Glob.fits_nil_iff]
      exact and_iff_right rfl
    · rw [empty]
      refine ⟨fun _ => not_misread_nil, fun _ => congrArg some ?_⟩
      rw [like_nil, decide_eq_decide]
      exact and_iff_left rfl
  · have start : Tracks string.chars (globs []) firstRow := tracks_first
    have agrees := likeLoop_agrees (pattern.chars.length + 1) (Nat.lt_succ_self _)
      pattern.nul_free start
    refine Iff.trans ?_ agrees
    constructor
    · intro same
      obtain ⟨row, ended, result⟩ := Option.map_eq_some_iff.mp same
      refine ⟨row, ended, ?_⟩
      rw [nil_append]
      change _ ↔ like pattern.chars string.chars = true
      rw [← result, decide_eq_true_eq]
    · rintro ⟨row, ended, result⟩
      rw [ended]
      refine congrArg some ?_
      rw [Bool.eq_iff_iff, decide_eq_true_eq]
      exact result

/-- A set that is negated and not terminated takes every character: the matcher finds a
string to match where the pattern matches none. -/
theorem matchLike_takes_open_set :
    matchLike (ZString.ofString "[^a").chars (ZString.ofString "b").chars 0 = some true ∧
    like (ZString.ofString "[^a").chars (ZString.ofString "b").chars = false ∧
    ∀ string, like (ZString.ofString "[^a").chars string = false := by
  refine ⟨by decide, by decide, fun string => ?_⟩
  cases string <;> rfl

end Omi.Wql
