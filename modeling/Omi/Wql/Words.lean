import Omi.Wql.Lexer

/-!
# Tokens as words, and what the analyser makes of them

`IsToken` says which words are tokens, with no reference to how they are read. A text
splits into tokens by taking the longest token at each place (`Starts`), with white
space between them. The analyser agrees with this on every text whose literals are
terminated and that has no reserved word with a digit right behind it. The last two
are where it goes its own way: a literal that is not terminated is a failure and not a
token, and `or1` is read as `OR`.
-/

namespace Omi.Wql

open List

variable {R : Type}

/-! ## Words -/

/-- A letter or underscore, then letters, digits and underscores. -/
def IsIdentifier (w : List UInt8) : Prop :=
  ∃ c cs, w = c :: cs ∧ isWordStart c = true ∧ ∀ x ∈ cs, isWordByte x = true

/-- A run of decimal digits. -/
def AllDigits (w : List UInt8) : Prop := ∀ x ∈ w, isDigit x = true

/-- An optional sign. -/
def IsSign (w : List UInt8) : Prop := w = [] ∨ w = [43] ∨ w = [45]

/-- An optional exponent. -/
inductive IsExponent : List UInt8 → Prop
  | none : IsExponent []
  | some {e : UInt8} {sign digits : List UInt8} : e = 69 ∨ e = 101 → IsSign sign →
      AllDigits digits → digits ≠ [] → IsExponent (e :: (sign ++ digits))

/-- The inside of a string literal: a backslash takes the byte behind it along. -/
inductive IsLiteralBody (quote : UInt8) : List UInt8 → Prop
  | nil : IsLiteralBody quote []
  | plain {c : UInt8} {body : List UInt8} : c ≠ quote → c ≠ 92 → IsLiteralBody quote body →
      IsLiteralBody quote (c :: body)
  | escaped {c : UInt8} {body : List UInt8} : IsLiteralBody quote body →
      IsLiteralBody quote (92 :: c :: body)

/-- The words that are tokens. A number starts with a sign or a digit. -/
inductive IsToken : List UInt8 → Kind → Prop
  | keyword {w : List UInt8} {k : Kind} : (w.map toLower, k) ∈ keywords → IsToken w k
  | identifier {w : List UInt8} : IsIdentifier w → (∀ k, (w.map toLower, k) ∉ keywords) →
      IsToken w .identifier
  | integer {sign digits : List UInt8} : IsSign sign → AllDigits digits → digits ≠ [] →
      IsToken (sign ++ digits) .integer
  | real {sign whole fraction exponent : List UInt8} : IsSign sign → AllDigits whole →
      AllDigits fraction → sign ++ whole ≠ [] → whole ++ fraction ≠ [] →
      IsExponent exponent → IsToken (sign ++ (whole ++ 46 :: (fraction ++ exponent))) .real
  | string {quote : UInt8} {body : List UInt8} : quote = 34 ∨ quote = 39 →
      IsLiteralBody quote body → IsToken (quote :: (body ++ [quote])) .string
  | mark {w : List UInt8} {k : Kind} : (w, k) ∈ punctuation → IsToken w k

/-- The longest token at the start of a text. -/
def Starts (text w : List UInt8) (k : Kind) : Prop :=
  IsToken w k ∧ w <+: text ∧
    ∀ w' k', IsToken w' k' → w' <+: text → w'.length ≤ w.length

/-! ## Bytes -/

theorem isDigit_isWordStart (c : UInt8) : isDigit c = true → isWordStart c = false := by
  revert c
  exact forall_byte (by decide +kernel)

variable {c quote : UInt8} {w sign cs text start lcs : List UInt8} {k l : Kind}

theorem isWordStart_isWordByte (h : isWordStart c = true) : isWordByte c = true := by
  simp only [isWordStart, isWordByte, Bool.or_eq_true] at h ⊢
  exact h.imp_left .inl

theorem isAlpha_toLower (c : UInt8) : isAlpha (toLower c) = isAlpha c := by
  revert c
  exact forall_byte (by decide +kernel)

theorem isDigit_toLower (c : UInt8) : isDigit (toLower c) = isDigit c := by
  revert c
  exact forall_byte (by decide +kernel)

theorem isAlpha_isWordStart (h : isAlpha c = true) : isWordStart c = true := by
  simp only [isWordStart, h, Bool.true_or]

/-- A byte that is followed by the digits of a number. -/
def isNumberStart (c : UInt8) : Bool := c == 43 || c == 45 || isDigit c

theorem isNumberStart_other (c : UInt8) : isNumberStart c = true →
    isWordStart c = false ∧ ¬(c = 34 ∨ c = 39) ∧ isSpace c = false := by
  revert c
  exact forall_byte (by decide +kernel)

theorem isWordStart_other (c : UInt8) : isWordStart c = true →
    isNumberStart c = false ∧ ¬(c = 34 ∨ c = 39) := by
  revert c
  exact forall_byte (by decide +kernel)

theorem isDigit_other (c : UInt8) : isDigit c = true → c ≠ 43 ∧ c ≠ 45 ∧ c ≠ 46 := by
  revert c
  exact forall_byte (by decide +kernel)

/-! ## Tokens by their first byte -/

theorem keywords_alpha : ∀ entry ∈ keywords, entry.1 ≠ [] ∧ ∀ c ∈ entry.1, isAlpha c = true := by
  decide +kernel

theorem punctuation_heads : ∀ entry ∈ punctuation, ∃ c cs, entry.1 = c :: cs ∧
    isWordStart c = false ∧ isNumberStart c = false ∧ c ≠ 34 ∧ c ≠ 39 := by
  intro entry inside
  simp only [punctuation, mem_cons, not_mem_nil, or_false] at inside
  rcases inside with rfl | rfl | rfl | rfl | rfl | rfl | rfl | rfl | rfl | rfl | rfl | rfl | rfl
  all_goals exact ⟨_, _, rfl, by decide, by decide, by decide, by decide⟩

theorem isIdentifier_of_keyword (h : (w.map toLower, k) ∈ keywords) : IsIdentifier w := by
  obtain ⟨nonempty, alpha⟩ := keywords_alpha _ h
  cases w with
  | nil => exact absurd rfl nonempty
  | cons c cs =>
    have letters : ∀ x ∈ c :: cs, isAlpha x = true := by
      intro x inside
      rw [← isAlpha_toLower]
      exact alpha _ (mem_map_of_mem inside)
    refine ⟨c, cs, rfl, isAlpha_isWordStart (letters c mem_cons_self), fun x inside => ?_⟩
    exact isWordStart_isWordByte (isAlpha_isWordStart (letters x (mem_cons_of_mem c inside)))

/-- A number is an integer or a real. -/
inductive IsNumber : List UInt8 → Kind → Prop
  | integer {sign digits : List UInt8} : IsSign sign → AllDigits digits → digits ≠ [] →
      IsNumber (sign ++ digits) .integer
  | real {sign whole fraction exponent : List UInt8} : IsSign sign → AllDigits whole →
      AllDigits fraction → sign ++ whole ≠ [] → whole ++ fraction ≠ [] →
      IsExponent exponent → IsNumber (sign ++ (whole ++ 46 :: (fraction ++ exponent))) .real

theorem IsNumber.head (h : IsNumber w k) : ∃ c cs, w = c :: cs ∧ isNumberStart c = true := by
  have digit : ∀ {c : UInt8}, isDigit c = true → isNumberStart c = true := by
    intro c isDigit
    simp only [isNumberStart, isDigit, Bool.or_true]
  cases h with
  | @integer sign digits isSign allDigits nonempty =>
    obtain rfl | rfl | rfl := isSign
    · cases digits with
      | nil => exact absurd rfl nonempty
      | cons d ds => exact ⟨d, ds, rfl, digit (allDigits d mem_cons_self)⟩
    · exact ⟨_, _, rfl, rfl⟩
    · exact ⟨_, _, rfl, rfl⟩
  | @real sign whole fraction exponent isSign allWhole _ started _ _ =>
    obtain rfl | rfl | rfl := isSign
    · cases whole with
      | nil => exact absurd rfl started
      | cons d ds => exact ⟨d, _, rfl, digit (allWhole d mem_cons_self)⟩
    · exact ⟨_, _, rfl, rfl⟩
    · exact ⟨_, _, rfl, rfl⟩

/-- The four sorts of tokens, told apart by their first byte. -/
inductive Sorted (c : UInt8) (cs : List UInt8) (k : Kind) : Prop
  | word : isWordStart c = true → (∀ x ∈ cs, isWordByte x = true) →
      ((c :: cs).map toLower, k) ∈ keywords ∨
        (k = .identifier ∧ ∀ k, ((c :: cs).map toLower, k) ∉ keywords) → Sorted c cs k
  | number : isNumberStart c = true → IsNumber (c :: cs) k → Sorted c cs k
  | string {body : List UInt8} : c = 34 ∨ c = 39 → cs = body ++ [c] → IsLiteralBody c body →
      k = .string → Sorted c cs k
  | mark : isWordStart c = false → isNumberStart c = false → c ≠ 34 → c ≠ 39 →
      (c :: cs, k) ∈ punctuation → Sorted c cs k

theorem IsToken.sorted (h : IsToken w k) : ∃ c cs, w = c :: cs ∧ Sorted c cs k := by
  cases h with
  | keyword h =>
    obtain ⟨c, cs, rfl, start, rest⟩ := isIdentifier_of_keyword h
    exact ⟨c, cs, rfl, .word start rest (.inl h)⟩
  | identifier shape free =>
    obtain ⟨c, cs, rfl, start, rest⟩ := shape
    exact ⟨c, cs, rfl, .word start rest (.inr ⟨rfl, free⟩)⟩
  | integer isSign allDigits nonempty =>
    have number := IsNumber.integer isSign allDigits nonempty
    obtain ⟨c, cs, shape, start⟩ := number.head
    exact ⟨c, cs, shape, .number start (shape ▸ number)⟩
  | real isSign allWhole allFraction started nonempty isExponent =>
    have number := IsNumber.real isSign allWhole allFraction started nonempty isExponent
    obtain ⟨c, cs, shape, start⟩ := number.head
    exact ⟨c, cs, shape, .number start (shape ▸ number)⟩
  | string quote body => exact ⟨_, _, rfl, .string quote rfl body rfl⟩
  | mark h =>
    obtain ⟨c, cs, shape, noWord, noNumber, noDouble, noSingle⟩ := punctuation_heads _ h
    subst shape
    exact ⟨c, cs, rfl, .mark noWord noNumber noDouble noSingle h⟩

namespace Sorted

section

variable (sorted : Sorted c cs k)
include sorted

theorem of_word (start : isWordStart c = true) :
    (∀ x ∈ cs, isWordByte x = true) ∧ (((c :: cs).map toLower, k) ∈ keywords ∨
      (k = .identifier ∧ ∀ k, ((c :: cs).map toLower, k) ∉ keywords)) := by
  have other := isWordStart_other c start
  cases sorted with
  | word _ rest which => exact ⟨rest, which⟩
  | number isNumber _ => exact absurd isNumber (by rw [other.1]; decide)
  | string isQuote _ _ _ => exact absurd isQuote other.2
  | mark noWord _ _ _ _ => exact absurd start (by rw [noWord]; decide)

theorem of_number (start : isNumberStart c = true) : IsNumber (c :: cs) k := by
  have other := isNumberStart_other c start
  cases sorted with
  | word isWord _ _ => exact absurd isWord (by rw [other.1]; decide)
  | number _ number => exact number
  | string isQuote _ _ _ => exact absurd isQuote other.2.1
  | mark _ noNumber _ _ _ => exact absurd start (by rw [noNumber]; decide)

theorem of_quote (isQuote : c = 34 ∨ c = 39) :
    ∃ body, cs = body ++ [c] ∧ IsLiteralBody c body ∧ k = .string := by
  cases sorted with
  | word isWord _ _ => exact absurd isQuote (isWordStart_other c isWord).2
  | number isNumber _ => exact absurd isQuote (isNumberStart_other c isNumber).2.1
  | string _ shape isBody isString => exact ⟨_, shape, isBody, isString⟩
  | mark _ _ noDouble noSingle _ => exact absurd isQuote (not_or.mpr ⟨noDouble, noSingle⟩)

theorem of_other (noWord : isWordStart c = false)
    (noNumber : isNumberStart c = false) (noQuote : ¬(c = 34 ∨ c = 39)) :
    (c :: cs, k) ∈ punctuation := by
  cases sorted with
  | word isWord _ _ => exact absurd isWord (by rw [noWord]; decide)
  | number isNumber _ => exact absurd isNumber (by rw [noNumber]; decide)
  | string isQuote _ _ _ => exact absurd isQuote noQuote
  | mark _ _ _ _ inside => exact inside

end

end Sorted

/-- A token at the start of a text begins with its first byte. -/
theorem IsToken.sorted_head (token : IsToken w k) (inside : w <+: c :: cs) :
    ∃ ds, w = c :: ds ∧ ds <+: cs ∧ Sorted c ds k := by
  obtain ⟨d, ds, rfl, sorted⟩ := token.sorted
  obtain ⟨rfl, within⟩ := cons_prefix_cons.mp inside
  exact ⟨ds, rfl, within, sorted⟩

/-! ## Words of letters -/

variable {p : UInt8 → Bool}

theorem length_le_takeWhile (all : ∀ x ∈ w, p x = true) (inside : w <+: text) :
    w.length ≤ (text.takeWhile p).length := by
  obtain ⟨rest, rfl⟩ := inside
  rw [takeWhile_append_of_pos all, length_append]
  exact Nat.le_add_right _ _

theorem eq_nil_of_takeWhile (all : ∀ x ∈ w, p x = true) (inside : w <+: text)
    (none : text.takeWhile p = []) : w = [] := by
  have shorter := length_le_takeWhile all inside
  rw [none] at shorter
  exact length_eq_zero_iff.mp (Nat.le_zero.mp shorter)

theorem head_dropWhile (h : text.dropWhile p = c :: cs) : p c = false := by
  have nonempty : text.dropWhile p ≠ [] := by
    rw [h]
    exact cons_ne_nil c cs
  have stops := head_dropWhile_not p nonempty
  simpa only [h, head_cons] using stops

/-- The word of letters, digits and underscores at the start of a text. -/
def firstWord (text : List UInt8) : List UInt8 := text.takeWhile isWordByte

theorem firstWord_cons (start : isWordStart c = true) :
    firstWord (c :: cs) = c :: cs.takeWhile isWordByte :=
  takeWhile_cons_of_pos (isWordStart_isWordByte start)

/-- A reserved word with a digit right behind it. -/
def KeywordDigit (text : List UInt8) : Prop :=
  ∃ lcs k d ds, (lcs, k) ∈ keywords ∧ (firstWord text).map toLower = lcs ++ d :: ds ∧
    isDigit d = true

/-- What matches a reserved word is that word, or it with a digit behind it. -/
theorem firstWord_of_matchToken (alpha : ∀ x ∈ lcs, isAlpha x = true)
    (h : matchToken start lcs = true) :
    (firstWord start).map toLower = lcs ∨
      ∃ d ds, (firstWord start).map toLower = lcs ++ d :: ds ∧ isDigit d = true := by
  rw [matchToken, Bool.and_eq_true] at h
  have front : (start.take lcs.length).map toLower = lcs := eq_of_beq h.1
  have bytes : ∀ x ∈ start.take lcs.length, isWordByte x = true := by
    intro x inside
    refine isWordStart_isWordByte (isAlpha_isWordStart ?_)
    rw [← isAlpha_toLower]
    exact alpha _ (front ▸ mem_map_of_mem inside)
  have split : (firstWord start).map toLower =
      lcs ++ (firstWord (start.drop lcs.length)).map toLower := by
    conv_lhs => rw [← take_append_drop lcs.length start]
    rw [firstWord, takeWhile_append_of_pos bytes, map_append, front]
    rfl
  cases behind : start.drop lcs.length with
  | nil =>
    rw [split, behind]
    exact .inl (append_nil lcs)
  | cons c cs =>
    have next := h.2
    simp only [behind, Bool.and_eq_true, Bool.not_eq_true', bne_iff_ne, ne_eq] at next
    cases wordByte : isWordByte c with
    | false =>
      rw [split, behind, firstWord, takeWhile_cons_of_neg (by rw [wordByte]; decide)]
      exact .inl (append_nil lcs)
    | true =>
      have digit : isDigit c = true := by
        simpa only [isWordByte, next.1, Bool.false_or, Bool.or_eq_true, beq_iff_eq, next.2,
          or_false] using wordByte
      rw [split, behind, firstWord, takeWhile_cons_of_pos wordByte]
      exact .inr ⟨_, _, rfl, (isDigit_toLower c).trans digit⟩

theorem matchToken_of_firstWord (h : (firstWord start).map toLower = lcs) :
    matchToken start lcs = true := by
  have length : lcs.length = (firstWord start).length := by
    rw [← h, length_map]
  have split : firstWord start ++ start.dropWhile isWordByte = start :=
    takeWhile_append_dropWhile
  have front : start.take lcs.length = firstWord start := by
    conv_lhs => rw [← split]
    rw [length, take_left]
  have behind : start.drop lcs.length = start.dropWhile isWordByte := by
    conv_lhs => rw [← split]
    rw [length, drop_left]
  rw [matchToken, front, h, behind, beq_self_eq_true, Bool.true_and]
  cases rest : start.dropWhile isWordByte with
  | nil => rfl
  | cons c cs =>
    have stops := head_dropWhile rest
    simp only [isWordByte, Bool.or_eq_false_iff] at stops
    simp only [stops.1.1, Bool.not_false, Bool.true_and, bne, stops.2]

/-- The analyser takes the longest word and tells reserved words apart, unless a digit
follows one. -/
theorem starts_word (start : isWordStart c = true) (free : ¬KeywordDigit (c :: cs)) :
    Starts (c :: cs) (c :: cs.takeWhile isWordByte)
      (wordToken (c :: cs) (c :: cs.takeWhile isWordByte) : Kind × Yystype R).1 := by
  have whole : firstWord (c :: cs) = c :: cs.takeWhile isWordByte := firstWord_cons start
  refine ⟨?_, ?_, ?_⟩
  · rw [wordToken]
    cases found : keywords.find? fun entry => matchToken (c :: cs) entry.1 with
    | some entry =>
      have inside := mem_of_find?_eq_some found
      have matched := find?_some found
      obtain same | ⟨d, ds, longer, digit⟩ :=
        firstWord_of_matchToken (keywords_alpha entry inside).2 matched
      · refine .keyword ?_
        rw [← whole, same]
        exact inside
      · exact absurd ⟨entry.1, entry.2, d, ds, inside, longer, digit⟩ free
    | none =>
      refine .identifier ⟨c, _, rfl, start, fun x inside => mem_takeWhile_imp inside⟩ ?_
      intro k inside
      rw [← whole] at inside
      have misses := find?_eq_none.mp found _ inside
      exact misses (matchToken_of_firstWord rfl)
  · rw [← whole]
    exact takeWhile_prefix isWordByte
  · intro w k token inside
    obtain ⟨ds, rfl, -, sorted⟩ := token.sorted_head inside
    rw [← whole]
    refine length_le_takeWhile ?_ inside
    intro x within
    obtain rfl | within := mem_cons.mp within
    · exact isWordStart_isWordByte start
    · exact (sorted.of_word start).1 x within

/-! ## Numbers -/

/-- The sign that `afterSign` skips. -/
def signPart : List UInt8 → List UInt8
  | [] => []
  | c :: _ => if c == 43 || c == 45 then [c] else []

theorem signPart_append : signPart text ++ afterSign text = text := by
  cases text with
  | nil => rfl
  | cons c cs =>
    rw [signPart, afterSign]
    split_ifs <;> rfl

theorem isSign_signPart : IsSign (signPart text) := by
  cases text with
  | nil => exact .inl rfl
  | cons c cs =>
    rw [signPart]
    split_ifs with sign
    · rw [Bool.or_eq_true, beq_iff_eq, beq_iff_eq] at sign
      obtain rfl | rfl := sign
      · exact .inr (.inl rfl)
      · exact .inr (.inr rfl)
    · exact .inl rfl

/-- The sign of a prefix is the sign of the text if what follows it is not a sign. -/
theorem IsSign.of_prefix {rest : List UInt8} {x : UInt8} (h : IsSign sign) (plain : x ≠ 43 ∧ x ≠ 45)
    (inside : sign ++ x :: rest <+: text) :
    sign = signPart text ∧ x :: rest <+: afterSign text := by
  obtain ⟨more, rfl⟩ := inside
  obtain rfl | rfl | rfl := h
  · have unsigned : (x == 43 || x == 45) = false := by
      rw [Bool.or_eq_false_iff, beq_eq_false_iff_ne, beq_eq_false_iff_ne]
      exact plain
    simp only [nil_append, cons_append, signPart, afterSign, unsigned,
      Bool.false_eq_true, if_false, true_and]
    exact ⟨more, rfl⟩
  · exact ⟨rfl, more, rfl⟩
  · exact ⟨rfl, more, rfl⟩

theorem IsSign.of_digits {digits : List UInt8} (h : IsSign sign) (allDigits : AllDigits digits)
    (nonempty : digits ≠ []) (inside : sign ++ digits <+: text) :
    sign = signPart text ∧ digits <+: afterSign text := by
  cases digits with
  | nil => exact absurd rfl nonempty
  | cons x rest =>
    have plain := isDigit_other x (allDigits x mem_cons_self)
    exact h.of_prefix ⟨plain.1, plain.2.1⟩ inside

/-- Digits before a point are all the digits there are. -/
theorem AllDigits.before_point {digits rest : List UInt8} (h : AllDigits digits)
    (inside : digits ++ 46 :: rest <+: text) :
    text.takeWhile isDigit = digits ∧ 46 :: rest <+: text.dropWhile isDigit := by
  obtain ⟨more, rfl⟩ := inside
  rw [append_assoc, cons_append]
  obtain ⟨taken, left⟩ := takeWhile_stop h (by decide : isDigit 46 = false) (rest ++ more)
  exact ⟨taken, more, left.symm⟩

theorem allDigits_takeWhile : AllDigits (text.takeWhile isDigit) :=
  fun _ inside => mem_takeWhile_imp inside

/-- A text starts with no token at all. -/
def NoToken (text : List UInt8) : Prop := ∀ w k, IsToken w k → ¬w <+: text

/-- A token at the start of a number is a number, and its sign is that of the text. -/
theorem IsToken.number (start : isNumberStart c = true) (token : IsToken w k)
    (inside : w <+: c :: cs) :
    (∃ digits, w = signPart (c :: cs) ++ digits ∧ AllDigits digits ∧ digits ≠ [] ∧
      digits <+: afterSign (c :: cs)) ∨
    (∃ whole fraction exponent,
      w = signPart (c :: cs) ++ (whole ++ 46 :: (fraction ++ exponent)) ∧
      AllDigits fraction ∧ whole ++ fraction ≠ [] ∧ IsExponent exponent ∧
      (afterSign (c :: cs)).takeWhile isDigit = whole ∧
      46 :: (fraction ++ exponent) <+: (afterSign (c :: cs)).dropWhile isDigit) := by
  obtain ⟨ds, shape, -, sorted⟩ := token.sorted_head inside
  have number := sorted.of_number start
  rw [← shape] at number
  cases number with
  | @integer sign digits isSign allDigits nonempty =>
    obtain ⟨same, within⟩ := isSign.of_digits allDigits nonempty inside
    exact .inl ⟨digits, by rw [same], allDigits, nonempty, within⟩
  | @real sign whole fraction exponent isSign allWhole allFraction _ nonempty isExponent =>
    have within : sign = signPart (c :: cs) ∧
        whole ++ 46 :: (fraction ++ exponent) <+: afterSign (c :: cs) := by
      cases whole with
      | nil => exact isSign.of_prefix (by decide) inside
      | cons x rest =>
        have plain := isDigit_other x (allWhole x mem_cons_self)
        exact isSign.of_prefix ⟨plain.1, plain.2.1⟩ inside
    obtain ⟨all, rest⟩ := allWhole.before_point within.2
    exact .inr ⟨whole, fraction, exponent, by rw [within.1], allFraction, nonempty, isExponent,
      all, rest⟩

theorem digits_rest : ∀ acc, (digits acc text).2 = text.dropWhile isDigit := by
  induction text with
  | nil =>
    intro acc
    rfl
  | cons c cs ih =>
    intro acc
    rw [digits, dropWhile_cons]
    split_ifs
    · exact ih _
    · rfl

/-- `Tcstoll` skips the sign and the digits, or nothing. -/
theorem tcstoll_rest (start : isNumberStart c = true) :
    (tcstoll (c :: cs)).2 =
      if (afterSign (c :: cs)).takeWhile isDigit = [] then c :: cs
      else (afterSign (c :: cs)).dropWhile isDigit := by
  have body : (c :: cs).dropWhile isSpace = c :: cs :=
    List.dropWhile_cons_of_neg (by rw [(isNumberStart_other c start).2.2]; decide)
  rw [tcstoll, body]
  split
  rename_i negative unsigned sign
  have same : unsigned = afterSign (c :: cs) := by
    split at sign
    · rename_i shape
      rw [shape]
      exact (Prod.mk.inj sign).2.symm
    · rename_i shape
      rw [shape]
      exact (Prod.mk.inj sign).2.symm
    · rename_i noMinus noPlus
      have minus : c ≠ 45 := fun same => noMinus cs (by rw [same])
      have plus : c ≠ 43 := fun same => noPlus cs (by rw [same])
      simp only [afterSign, beq_iff_eq, minus, plus, Bool.or_eq_true, or_self, if_false]
      exact (Prod.mk.inj sign).2.symm
  rw [← same]
  -- What follows the sign is the same in all three cases.
  clear sign same
  cases unsigned with
  | nil => rfl
  | cons d ds =>
    cases digit : isDigit d with
    | true =>
      rw [List.takeWhile_cons_of_pos digit, if_neg (List.cons_ne_nil _ _)]
      simp only [digit, if_true]
      exact digits_rest 0
    | false =>
      rw [List.takeWhile_cons_of_neg (by rw [digit]; decide), if_pos rfl]
      simp only [digit, Bool.false_eq_true, if_false]

/-- What the analyser makes of a place: a longest token and the rest, or, where there is
no token, an error or a number without digits, at which it does not move. -/
def Reads (text rest : List UInt8) (k : Kind) : Prop :=
  (∃ w, w ++ rest = text ∧ Starts text w k) ∨
    (rest = text ∧ NoToken text ∧ (k = .error ∨ k = .integer ∨ k = .real))

theorem reads_integer (start : isNumberStart c = true)
    (noPoint : ((afterSign (c :: cs)).dropWhile isDigit).head? ≠ some 46) :
    Reads (c :: cs) (tcstoll (c :: cs)).2 .integer := by
  have integers : ∀ {w k}, IsToken w k → w <+: c :: cs →
      ∃ digits, w = signPart (c :: cs) ++ digits ∧ AllDigits digits ∧ digits ≠ [] ∧
        digits <+: afterSign (c :: cs) := by
    intro w k token inside
    obtain integer | ⟨_, _, _, _, _, _, _, _, ⟨more, point⟩⟩ := token.number start inside
    · exact integer
    · rw [← point] at noPoint
      exact absurd rfl noPoint
  rw [tcstoll_rest start]
  split_ifs with none
  · refine .inr ⟨rfl, fun w k token inside => ?_, .inr (.inl rfl)⟩
    obtain ⟨digits, -, allDigits, nonempty, within⟩ := integers token inside
    exact nonempty (eq_nil_of_takeWhile allDigits within none)
  · have split : signPart (c :: cs) ++ (afterSign (c :: cs)).takeWhile isDigit ++
        (afterSign (c :: cs)).dropWhile isDigit = c :: cs := by
      rw [append_assoc, takeWhile_append_dropWhile, signPart_append]
    refine .inl ⟨_, split, ?_, ⟨_, split⟩, fun w k token inside => ?_⟩
    · exact .integer (isSign_signPart) (allDigits_takeWhile) none
    · obtain ⟨digits, rfl, allDigits, -, within⟩ := integers token inside
      rw [length_append, length_append]
      exact Nat.add_le_add_left (length_le_takeWhile allDigits within) _

/-- `afterExponent` skips the longest exponent. -/
theorem exists_exponent :
    ∃ e, IsExponent e ∧ e ++ afterExponent text = text ∧
      ∀ e', IsExponent e' → e' <+: text → e'.length ≤ e.length := by
  cases text with
  | nil =>
    refine ⟨[], .none, rfl, fun e' _ inside => ?_⟩
    rw [prefix_nil.mp inside]
  | cons c cs =>
    rw [afterExponent]
    split_ifs with present
    · rw [Bool.and_eq_true, Bool.or_eq_true, beq_iff_eq, beq_iff_eq] at present
      have digit : (afterSign cs).takeWhile isDigit ≠ [] := by
        cases rest : afterSign cs with
        | nil =>
          rw [rest] at present
          cases present.2
        | cons d ds =>
          rw [rest] at present
          have digit : isDigit d = true := present.2
          rw [takeWhile_cons_of_pos digit]
          exact cons_ne_nil _ _
      refine ⟨c :: (signPart cs ++ (afterSign cs).takeWhile isDigit),
        .some present.1 (isSign_signPart) (allDigits_takeWhile) digit, ?_, ?_⟩
      · rw [cons_append, append_assoc, takeWhile_append_dropWhile, signPart_append]
      · intro e' isExponent inside
        cases isExponent with
        | none => exact Nat.zero_le _
        | @some e sign digits _ isSign allDigits nonempty =>
          obtain ⟨same, within⟩ := isSign.of_digits allDigits nonempty
            (cons_prefix_cons.mp inside).2
          have shorter := length_le_takeWhile allDigits within
          rw [same]
          simp only [length_cons, length_append] at shorter ⊢
          omega
    · refine ⟨[], .none, rfl, fun e' isExponent inside => ?_⟩
      cases isExponent with
      | none => exact Nat.le_refl 0
      | @some e sign digits mark isSign allDigits nonempty =>
        exfalso
        obtain ⟨rfl, within⟩ := cons_prefix_cons.mp inside
        obtain ⟨-, more, shape⟩ := isSign.of_digits allDigits nonempty within
        refine present ?_
        rw [← shape, Bool.and_eq_true, Bool.or_eq_true, beq_iff_eq, beq_iff_eq]
        cases digits with
        | nil => exact absurd rfl nonempty
        | cons x rest => exact ⟨mark, allDigits x mem_cons_self⟩

theorem reads_real (start : isNumberStart c = true)
    (point : ((afterSign (c :: cs)).dropWhile isDigit).head? = some 46) :
    Reads (c :: cs) (afterReal (c :: cs)) .real := by
  obtain ⟨behind, shape⟩ : ∃ behind, (afterSign (c :: cs)).dropWhile isDigit = 46 :: behind :=
    head?_eq_some_iff.mp point
  have started : signPart (c :: cs) ++ (afterSign (c :: cs)).takeWhile isDigit ≠ [] := by
    intro empty
    have whole : signPart (c :: cs) ++ (afterSign (c :: cs)).takeWhile isDigit ++
        46 :: behind = c :: cs := by
      rw [← shape, append_assoc, takeWhile_append_dropWhile, signPart_append]
    rw [empty] at whole
    cases whole
    exact absurd start (by decide)
  rw [afterReal]
  simp only [shape, tail_cons, Bool.and_eq_true, List.isEmpty_iff]
  split_ifs with none
  · -- Neither side of the point has a digit.
    refine .inr ⟨rfl, fun w k token inside => ?_, .inr (.inr rfl)⟩
    obtain ⟨digits, -, allDigits, nonempty, within⟩ |
      ⟨whole, fraction, e, -, allFraction, nonempty, -, all, within⟩ := token.number start inside
    · exact nonempty (eq_nil_of_takeWhile allDigits within none.1)
    · rw [shape] at within
      have fits : fraction <+: behind :=
        (prefix_append fraction e).trans (cons_prefix_cons.mp within).2
      refine nonempty ?_
      rw [← all, none.1, eq_nil_of_takeWhile allFraction fits none.2]
      rfl
  · obtain ⟨e, isExponent, split, longest⟩ := exists_exponent
    have whole : signPart (c :: cs) ++ ((afterSign (c :: cs)).takeWhile isDigit ++
        46 :: (behind.takeWhile isDigit ++ e)) ++ afterExponent (behind.dropWhile isDigit) =
        c :: cs := by
      rw [append_assoc, append_assoc, cons_append, append_assoc, split,
        takeWhile_append_dropWhile, ← shape, takeWhile_append_dropWhile,
        signPart_append]
    refine .inl ⟨_, whole, ?_, ⟨_, whole⟩, fun w k token inside => ?_⟩
    · refine .real (isSign_signPart) (allDigits_takeWhile) (allDigits_takeWhile) started ?_
        isExponent
      intro empty
      exact none (append_eq_nil_iff.mp empty)
    · obtain ⟨digits, rfl, allDigits, -, within⟩ |
        ⟨_, fraction, e', rfl, allFraction, -, isExponent', rfl, within⟩ :=
        token.number start inside
      · have shorter := length_le_takeWhile allDigits within
        simp only [length_append]
        omega
      · rw [shape] at within
        have within := (cons_prefix_cons.mp within).2
        have fits := length_le_takeWhile allFraction ((prefix_append _ _).trans within)
        have exponents : fraction.length + e'.length ≤
            (behind.takeWhile isDigit).length + e.length := by
          cases isExponent' with
          | none => exact Nat.le_trans fits (Nat.le_add_right _ _)
          | @some x sign digits mark isSign allDigits nonempty =>
            -- An exponent starts with a letter, so the fraction before it is complete.
            have letter : isDigit x = false := by
              obtain rfl | rfl := mark <;> decide
            obtain ⟨more, same⟩ := within
            obtain ⟨fraction_eq, rest_eq⟩ :=
              takeWhile_stop allFraction letter (sign ++ digits ++ more)
            rw [← cons_append, ← append_assoc, same] at fraction_eq rest_eq
            have shorter := longest _ (.some mark isSign allDigits nonempty)
              (rest_eq ▸ prefix_append _ _)
            rw [fraction_eq]
            exact Nat.add_le_add_left shorter _
        simp only [length_append, length_cons] at exponents ⊢
        omega

/-! ## String literals -/

theorem literal_cons :
    literal quote (c :: cs) =
      if c = quote then some ([], cs)
      else if c = 92 then
        match cs with
        | [] => none
        | d :: ds => (literal quote ds).map fun found => (unescape d :: found.1, found.2)
      else (literal quote cs).map fun found => (c :: found.1, found.2) := by
  cases cs <;> rfl

/-- Replace every escape sequence of a text by its value under a table. -/
def decode (table : UInt8 → UInt8) : List UInt8 → List UInt8
  | [] => []
  | [c] => [c]
  | c :: d :: rest =>
    if c = 92 then table d :: decode table rest else c :: decode table (d :: rest)

theorem decode_escaped (table : UInt8 → UInt8) (body : List UInt8) :
    decode table (92 :: c :: body) = table c :: decode table body := by
  rw [decode, if_pos rfl]

theorem decode_plain (table : UInt8 → UInt8) (plain : c ≠ 92) (body : List UInt8) :
    decode table (c :: body) = c :: decode table body := by
  cases body with
  | nil => rfl
  | cons d rest => rw [decode, if_neg plain]

/-- The loop of the source decodes with its own table. -/
theorem literal_eq_decode {body : List UInt8} (isQuote : quote = 34 ∨ quote = 39)
    (h : IsLiteralBody quote body) (rest : List UInt8) :
    literal quote (body ++ quote :: rest) = some (decode unescape body, rest) := by
  induction h with
  | nil => rw [nil_append, literal_cons, if_pos rfl, decode]
  | @plain c body other plain _ ih =>
    rw [cons_append, literal_cons, if_neg other, if_neg plain, ih, decode_plain _ plain]
    rfl
  | @escaped c body _ ih =>
    have other : (92 : UInt8) ≠ quote := by
      obtain rfl | rfl := isQuote <;> decide
    rw [cons_append, cons_append, literal_cons, if_neg other, if_pos rfl, decode_escaped]
    simp only [ih]
    rfl

theorem body_of_literal (n : Nat) : ∀ {text value rest : List UInt8},
    text.length ≤ n → literal quote text = some (value, rest) →
    ∃ body, text = body ++ quote :: rest ∧ IsLiteralBody quote body := by
  induction n using Nat.strong_induction_on with
  | _ n ih =>
    intro text value rest bound h
    cases text with
    | nil => exact absurd h (Option.some_ne_none _).symm
    | cons c cs =>
      rw [length_cons] at bound
      rw [literal_cons] at h
      split_ifs at h with closes escapes
      · cases h
        exact ⟨[], by rw [closes]; rfl, .nil⟩
      · cases cs with
        | nil => exact absurd h (Option.some_ne_none _).symm
        | cons d ds =>
          obtain ⟨⟨inner, behind⟩, found, same⟩ := Option.map_eq_some_iff.mp h
          cases same
          rw [length_cons] at bound
          obtain ⟨body, rfl, isBody⟩ := ih ds.length (by omega) (Nat.le_refl _) found
          exact ⟨92 :: d :: body, by rw [escapes]; rfl, .escaped isBody⟩
      · obtain ⟨⟨inner, behind⟩, found, same⟩ := Option.map_eq_some_iff.mp h
        cases same
        obtain ⟨body, rfl, isBody⟩ := ih cs.length (by omega) (Nat.le_refl _) found
        exact ⟨c :: body, rfl, .plain closes escapes isBody⟩

/-- A token at a quote is a literal. -/
theorem IsToken.literal (isQuote : c = 34 ∨ c = 39) (token : IsToken w k) (inside : w <+: c :: cs) :
    ∃ body rest, w = c :: (body ++ [c]) ∧ cs = body ++ c :: rest ∧ IsLiteralBody c body := by
  obtain ⟨_, rfl, ⟨rest, rfl⟩, sorted⟩ := token.sorted_head inside
  obtain ⟨body, rfl, isBody, -⟩ := sorted.of_quote isQuote
  exact ⟨body, rest, rfl, by rw [append_assoc, singleton_append], isBody⟩

theorem reads_literal {value rest : List UInt8} (isQuote : c = 34 ∨ c = 39)
    (found : literal c cs = some (value, rest)) : Reads (c :: cs) rest .string := by
  obtain ⟨body, rfl, isBody⟩ := body_of_literal _ (Nat.le_refl _) found
  have split : c :: (body ++ [c]) ++ rest = c :: (body ++ c :: rest) := by
    rw [cons_append, append_assoc, singleton_append]
  refine .inl ⟨_, split, .string isQuote isBody, ⟨rest, split⟩, fun w k token inside => ?_⟩
  obtain ⟨other, behind, rfl, shape, isOther⟩ := token.literal isQuote inside
  -- The literal ends at its first closing quote, so there is only one.
  have found' := literal_eq_decode isQuote isOther behind
  rw [← shape, found] at found'
  cases found'
  have lengths := congrArg length shape
  simp only [length_append, length_cons] at lengths ⊢
  omega

theorem noToken_of_unterminated (isQuote : c = 34 ∨ c = 39) (open_ : literal c cs = none) :
    NoToken (c :: cs) := by
  intro w k token inside
  obtain ⟨body, rest, -, rfl, isBody⟩ := token.literal isQuote inside
  rw [literal_eq_decode isQuote isBody rest] at open_
  exact absurd open_ (Option.some_ne_none _)

/-! ## Punctuation -/

/-- An entry that continues another one stands before it. -/
theorem punctuation_order : punctuation.Pairwise fun a b =>
    ¬(a.1.isPrefixOf b.1 = true ∧ a.1.length < b.1.length) := by
  decide

theorem length_le_of_first {entry : List UInt8 × Kind} :
    ∀ {table : List (List UInt8 × Kind)},
    (table.Pairwise fun a b => ¬(a.1.isPrefixOf b.1 = true ∧ a.1.length < b.1.length)) →
    table.find? (fun e => e.1.isPrefixOf text) = some entry →
    ∀ other ∈ table, other.1 <+: text → other.1.length ≤ entry.1.length := by
  intro table
  induction table with
  | nil =>
    intro _ _ other inside _
    cases inside
  | cons a table ih =>
    intro ordered found other inside fits
    rw [pairwise_cons] at ordered
    cases here : a.1.isPrefixOf text with
    | true =>
      rw [find?_cons, here] at found
      cases found
      obtain rfl | later := mem_cons.mp inside
      · exact Nat.le_refl _
      · by_contra longer
        have longer := Nat.lt_of_not_le longer
        refine ordered.1 other later ⟨?_, longer⟩
        rw [List.isPrefixOf_iff_prefix] at here ⊢
        exact prefix_of_prefix_length_le here fits (Nat.le_of_lt longer)
    | false =>
      rw [find?_cons, here] at found
      obtain rfl | later := mem_cons.mp inside
      · rw [← isPrefixOf_iff_prefix, here] at fits
        cases fits
      · exact ih ordered.2 found other later fits

theorem mark_reads (noWord : isWordStart c = false) (noNumber : isNumberStart c = false)
    (noQuote : ¬(c = 34 ∨ c = 39)) :
    ∃ k rest, (mark (c :: cs) : Lexed R) = .token k .unset rest ∧ Reads (c :: cs) rest k ∧
      ((∃ w, (w, k) ∈ punctuation) ∨ k = .error) := by
  have entry_of : ∀ {w l}, IsToken w l → w <+: c :: cs → (w, l) ∈ punctuation := by
    intro w l token within
    obtain ⟨ds, rfl, -, sorted⟩ := token.sorted_head within
    exact sorted.of_other noWord noNumber noQuote
  rw [mark]
  cases found : punctuation.find? fun entry => entry.1.isPrefixOf (c :: cs) with
  | some entry =>
    have inside := mem_of_find?_eq_some found
    have matched := find?_some found
    have fits : entry.1 <+: c :: cs := isPrefixOf_iff_prefix.mp matched
    refine ⟨_, _, rfl, .inl ⟨entry.1, ?_, .mark inside, fits, fun w k token within => ?_⟩,
      .inl ⟨entry.1, inside⟩⟩
    · exact prefix_iff_eq_append.mp fits
    · exact length_le_of_first punctuation_order found (w, k) (entry_of token within) within
  | none =>
    refine ⟨_, _, rfl, .inr ⟨rfl, fun w k token within => ?_, .inl rfl⟩, .inr rfl⟩
    exact find?_eq_none.mp found _ (entry_of token within)
      (List.isPrefixOf_iff_prefix.mpr within)

/-! ## The analyser -/

/-- The place where the next token is looked for. -/
def skipSpace (text : List UInt8) : List UInt8 := text.dropWhile isSpace

/-- A quote at which no token starts: the literal is not terminated. -/
def OpenLiteral (text : List UInt8) : Prop :=
  ∃ c cs, text = c :: cs ∧ (c = 34 ∨ c = 39) ∧ NoToken text

theorem wqllex_eof {prims : Prims R} (h : skipSpace text = []) : wqllex prims text = .eof := by
  rw [skipSpace] at h
  rw [wqllex, h]

theorem afterSign_dropWhile (start : isNumberStart c = true) :
    cs.dropWhile isDigit = (afterSign (c :: cs)).dropWhile isDigit := by
  rw [afterSign]
  split_ifs with sign
  · rfl
  · rw [Bool.or_eq_true, not_or] at sign
    have digit : isDigit c = true := by
      simpa only [isNumberStart, sign.1, sign.2, Bool.or_eq_true, Bool.false_eq_true, false_or,
        or_self] using start
    rw [List.dropWhile_cons_of_pos digit]

/-- The branches of a call that return a token. -/
inductive Lexes (prims : Prims R) (c : UInt8) (cs : List UInt8) :
    Kind → Yystype R → List UInt8 → Prop
  | word : isWordStart c = true → Lexes prims c cs
      (wordToken (c :: cs) (firstWord (c :: cs)) : Kind × Yystype R).1
      (wordToken (c :: cs) (firstWord (c :: cs))).2 (cs.dropWhile isWordByte)
  | number {k : Kind} {value : Yystype R} {rest : List UInt8} : isNumberStart c = true →
      k = .integer ∨ k = .real → Reads (c :: cs) rest k → Lexes prims c cs k value rest
  | literal {value rest : List UInt8} : c = 34 ∨ c = 39 → literal c cs = some (value, rest) →
      Lexes prims c cs .string (.string (.ofBuffer value)) rest
  | mark {k : Kind} {rest : List UInt8} : isWordStart c = false → isNumberStart c = false →
      Reads (c :: cs) rest k → (∃ w, (w, k) ∈ punctuation) ∨ k = .error →
      Lexes prims c cs k .unset rest

/-- A call comes back with a failure at an open literal or with a token. -/
theorem wqllex_lexes (prims : Prims R) (body : skipSpace text = c :: cs) :
    (wqllex prims text = .failed ∧ (c = 34 ∨ c = 39) ∧ literal c cs = none) ∨
      ∃ k value rest, wqllex prims text = .token k value rest ∧
        Lexes prims c cs k value rest := by
  rw [skipSpace] at body
  rw [wqllex, body]
  simp only
  split_ifs with word number point quote
  · refine .inr ⟨_, _, _, rfl, ?_⟩
    rw [← firstWord_cons word]
    exact .word word
  · rw [afterSign_dropWhile number] at point
    exact .inr ⟨_, _, _, rfl, .number number (.inr rfl) (reads_real number point)⟩
  · rw [afterSign_dropWhile number] at point
    exact .inr ⟨_, _, _, rfl, .number number (.inl rfl) (reads_integer number point)⟩
  · cases found : literal c cs with
    | none => exact .inl ⟨rfl, quote, rfl⟩
    | some result => exact .inr ⟨_, _, _, rfl, .literal quote found⟩
  · have noWord : isWordStart c = false := Bool.eq_false_iff.mpr word
    have noNumber : isNumberStart c = false := Bool.eq_false_iff.mpr number
    obtain ⟨k, rest, read, reads, known⟩ := mark_reads noWord noNumber quote
    exact .inr ⟨k, .unset, rest, read, .mark noWord noNumber reads known⟩

/-- One call of the analyser: it fails at a literal that is not terminated, and reads
elsewhere. -/
theorem wqllex_cases (prims : Prims R) (body : skipSpace text = c :: cs)
    (free : ¬KeywordDigit (c :: cs)) :
    (wqllex prims text = .failed ∧ OpenLiteral (c :: cs)) ∨
      ∃ k value rest, wqllex prims text = .token k value rest ∧ Reads (c :: cs) rest k := by
  obtain ⟨failed, quote, open_⟩ | ⟨k, value, rest, read, lexes⟩ := wqllex_lexes prims body
  · exact .inl ⟨failed, c, cs, rfl, quote, noToken_of_unterminated quote open_⟩
  · refine .inr ⟨k, value, rest, read, ?_⟩
    cases lexes with
    | word start =>
      rw [firstWord_cons start]
      refine .inl ⟨_, ?_, starts_word start free⟩
      rw [cons_append, takeWhile_append_dropWhile]
    | number _ _ reads => exact reads
    | literal quote found => exact reads_literal quote found
    | mark _ _ reads _ => exact reads

/-- White space in front of a place makes no difference. -/
theorem wqllex_skipSpace (prims : Prims R) : wqllex prims (skipSpace text) = wqllex prims text := by
  have same : (skipSpace text).dropWhile isSpace = text.dropWhile isSpace := by
    cases body : skipSpace text with
    | nil => exact body.symm
    | cons c cs =>
      rw [dropWhile_cons_of_neg (by rw [head_dropWhile body]; decide)]
      exact body.symm
  rw [wqllex, wqllex, same]

/-! ## Splitting a text -/

/-- Reading the tokens `ks` from the start of a text leads to `final`. -/
inductive Scans : List UInt8 → List Kind → List UInt8 → Prop
  | nil {text : List UInt8} : Scans text [] text
  | cons {text w rest final : List UInt8} {k : Kind} {ks : List Kind} :
      skipSpace text = w ++ rest → Starts (w ++ rest) w k → Scans rest ks final →
      Scans text (k :: ks) final

/-- The entire text is these tokens, with white space between them. -/
def Splits (text : List UInt8) (ks : List Kind) : Prop :=
  ∃ final, Scans text ks final ∧ skipSpace final = []

/-- Every literal of the text is terminated, and no reserved word has a digit behind it. -/
def Ordinary (text : List UInt8) : Prop :=
  ∀ ks final, Scans text ks final →
    ¬OpenLiteral (skipSpace final) ∧ ¬KeywordDigit (skipSpace final)

theorem Ordinary.rest {rest : List UInt8} (ordinary : Ordinary text)
    (body : skipSpace text = w ++ rest) (starts : Starts (w ++ rest) w k) : Ordinary rest :=
  fun _ final scans => ordinary _ final (.cons body starts scans)

theorem keywords_unique : ∀ a ∈ keywords, ∀ b ∈ keywords, a.1 = b.1 → a.2 = b.2 := by
  decide

theorem punctuation_unique : ∀ a ∈ punctuation, ∀ b ∈ punctuation, a.1 = b.1 → a.2 = b.2 := by
  decide

theorem IsNumber.point (h : IsNumber w k) : k = if 46 ∈ w then .real else .integer := by
  cases h with
  | @integer sign digits isSign allDigits _ =>
    refine (if_neg fun inside => ?_).symm
    obtain inSign | inDigits := mem_append.mp inside
    · obtain rfl | rfl | rfl := isSign
      · exact not_mem_nil inSign
      · exact absurd inSign (by decide)
      · exact absurd inSign (by decide)
    · exact absurd (allDigits 46 inDigits) (by decide)
  | real => exact (if_pos (by simp)).symm

theorem IsToken.unique (first : IsToken w k) (second : IsToken w l) : k = l := by
  obtain ⟨c, cs, rfl, sorted⟩ := first.sorted
  obtain ⟨d, ds, shape, other⟩ := second.sorted
  cases shape
  cases sorted with
  | word isWord _ which =>
    obtain inside | ⟨rfl, free⟩ := which
    · obtain inside' | ⟨rfl, free⟩ := (other.of_word isWord).2
      · exact keywords_unique _ inside _ inside' rfl
      · exact absurd inside (free k)
    · obtain inside' | ⟨rfl, -⟩ := (other.of_word isWord).2
      · exact absurd inside' (free l)
      · rfl
  | number isNumber number => rw [number.point, (other.of_number isNumber).point]
  | string isQuote _ _ isString =>
    obtain ⟨-, -, -, isString'⟩ := other.of_quote isQuote
    rw [isString, isString']
  | mark noWord noNumber noDouble noSingle inside =>
    have inside' := other.of_other noWord noNumber (not_or.mpr ⟨noDouble, noSingle⟩)
    exact punctuation_unique _ inside _ inside' rfl

/-- There is at most one longest token. -/
theorem Starts.unique {v : List UInt8} (first : Starts text v k) (second : Starts text w l) :
    v = w ∧ k = l := by
  have length : v.length = w.length :=
    Nat.le_antisymm (second.2.2 v k first.1 first.2.1) (first.2.2 w l second.1 second.2.1)
  have same : v = w :=
    (prefix_of_prefix_length_le first.2.1 second.2.1 (Nat.le_of_eq length)).eq_of_length length
  subst same
  exact ⟨rfl, first.1.unique second.1⟩

theorem Starts.nonempty (h : Starts text w k) : w ≠ [] := by
  obtain ⟨c, cs, rfl, -⟩ := h.1.sorted
  exact cons_ne_nil c cs

end Omi.Wql
