import Omi.Wql.Acceptance

/-!
# What one call of the analyser promises

`Scanned` is the contract of a single call of `wqllex`: it moves the pointer, it reports
a reserved word for exactly that word, and the value of a literal is what the text between
the quotes denotes in C. The call keeps it at every place but three kinds of them: a
reserved word with a digit behind it, a sign that starts no number, and a literal with
one of the escape sequences `\a`, `\b`, `\t`, `\v` and `\f`.
-/

namespace Omi.Wql

open List

variable {R : Type}

/-! ## Escape sequences -/

/-- The byte that a simple escape sequence of C denotes. -/
def escapeValue (c : UInt8) : UInt8 :=
  if c = 97 then 7 else if c = 98 then 8 else if c = 116 then 9 else if c = 110 then 10
  else if c = 118 then 11 else if c = 102 then 12 else if c = 114 then 13 else c

/-- The bytes of a text that stand behind a backslash. -/
def escapes : List UInt8 → List UInt8
  | [] => []
  | [_] => []
  | c :: d :: rest => if c = 92 then d :: escapes rest else escapes (d :: rest)

variable {c quote : UInt8} {body rest cs text start lcs : List UInt8} {prims : Prims R} {k : Kind}
  {value : Yystype R}

theorem escapes_escaped : escapes (92 :: c :: body) = c :: escapes body := by
  rw [escapes, if_pos rfl]

theorem escapes_plain (plain : c ≠ 92) : escapes (c :: body) = escapes body := by
  cases body with
  | nil => rfl
  | cons d rest => rw [escapes, if_neg plain]

/-- Two tables decode a text alike when they agree on what it escapes. -/
theorem decode_eq_decode_iff {f g : UInt8 → UInt8} (h : IsLiteralBody quote body) :
    decode f body = decode g body ↔ ∀ c ∈ escapes body, f c = g c := by
  induction h with
  | nil => exact ⟨nofun, fun _ => rfl⟩
  | plain _ plain _ ih =>
    rw [decode_plain f plain, decode_plain g plain, escapes_plain plain, cons_inj_right]
    exact ih
  | escaped _ ih =>
    rw [decode_escaped, decode_escaped, escapes_escaped, cons_eq_cons, ih, forall_mem_cons]

/-- A literal has one text between its quotes. -/
theorem body_unique {other behind : List UInt8} (isQuote : quote = 34 ∨ quote = 39)
    (first : IsLiteralBody quote body) (second : IsLiteralBody quote other)
    (same : body ++ quote :: rest = other ++ quote :: behind) : body = other ∧ rest = behind := by
  have read := literal_eq_decode isQuote first rest
  rw [same, literal_eq_decode isQuote second behind] at read
  obtain ⟨-, rfl⟩ := Prod.mk.inj (Option.some.inj read)
  exact ⟨append_cancel_right same, rfl⟩

/-- The escape sequences for which the source has another value than C, by the byte
behind the backslash. -/
def misread : List UInt8 := [97, 98, 116, 118, 102]

theorem unescape_eq_iff (c : UInt8) : unescape c = escapeValue c ↔ c ∉ misread := by
  revert c
  exact forall_byte (by decide +kernel)

theorem unescape_ne_zero (c : UInt8) : c ≠ 0 → unescape c ≠ 0 := by
  revert c
  exact forall_byte (by decide +kernel)

theorem decode_nul_free (h : IsLiteralBody quote body) (clean : (0 : UInt8) ∉ body) :
    (0 : UInt8) ∉ decode unescape body := by
  induction h with
  | nil => exact not_mem_nil
  | plain _ plain _ ih =>
    rw [mem_cons, not_or] at clean
    rw [decode_plain _ plain, mem_cons, not_or]
    exact ⟨clean.1, ih clean.2⟩
  | @escaped c _ _ ih =>
    rw [mem_cons, not_or, mem_cons, not_or] at clean
    rw [decode_escaped, mem_cons, not_or]
    exact ⟨(unescape_ne_zero c (Ne.symm clean.2.1)).symm, ih clean.2.2⟩

theorem ofBuffer_chars {bytes : List UInt8} (clean : (0 : UInt8) ∉ bytes) :
    (ZString.ofBuffer bytes).chars = bytes := by
  refine takeWhile_eq_self_iff.mpr fun c inside => ?_
  exact bne_iff_ne.mpr fun zero => clean (zero ▸ inside)

/-! ## The contract -/

/-- The value that comes with a reserved word. -/
def keywordValue (lcs : List UInt8) : Yystype R :=
  if lcs = ascii "true" then .boolean 1
  else if lcs = ascii "false" then .boolean 0 else .unset

/-- What a call of the analyser at the start of a text owes its caller. -/
structure Scanned (prims : Prims R) (text : List UInt8) : Prop where
  /-- A token takes something from the text. -/
  advances : ∀ k value rest, wqllex prims text = .token k value rest → k ≠ .error →
    ∃ read, read ≠ [] ∧ text = read ++ rest
  /-- A reserved word is reported when the whole word is that word, in either case. -/
  keyword : ∀ lcs k, (lcs, k) ∈ keywords →
    ((∃ rest, wqllex prims text = .token k (keywordValue lcs) rest) ↔
      (firstWord (skipSpace text)).map toLower = lcs)
  /-- The value of a literal is what the text between its quotes denotes. -/
  literal : ∀ value rest, wqllex prims text = .token .string value rest →
    ∃ quote body s, skipSpace text = quote :: (body ++ quote :: rest) ∧
      (quote = 34 ∨ quote = 39) ∧ IsLiteralBody quote body ∧
      value = .string s ∧ s.chars = decode escapeValue body

/-- A sign at which no number starts. -/
def LoneSign (text : List UInt8) : Prop :=
  ∃ c cs, text = c :: cs ∧ (c = 43 ∨ c = 45) ∧ NoToken text

/-- A literal with an escape sequence that the source gives another value. -/
def MisreadLiteral (text : List UInt8) : Prop :=
  ∃ quote body rest, text = quote :: (body ++ quote :: rest) ∧ (quote = 34 ∨ quote = 39) ∧
    IsLiteralBody quote body ∧ ∃ c ∈ escapes body, c ∈ misread

/-! ## One call -/

/-- A token is read at some byte, by the branch for that byte. -/
theorem lexes_of_token (h : wqllex prims text = .token k value rest) :
    ∃ c cs, skipSpace text = c :: cs ∧ Lexes prims c cs k value rest := by
  cases body : skipSpace text with
  | nil => cases (wqllex_eof body).symm.trans h
  | cons c cs =>
    obtain ⟨failed, -⟩ | ⟨_, _, _, read, lexes⟩ := wqllex_lexes prims body
    · cases h.symm.trans failed
    · cases h.symm.trans read
      exact ⟨c, cs, rfl, lexes⟩

/-! ## Progress -/

theorem space_append (text : List UInt8) : text.takeWhile isSpace ++ skipSpace text = text :=
  takeWhile_append_dropWhile

/-- What is read behind white space is read from the text. -/
theorem read_of_skipSpace {read : List UInt8} (nonempty : read ≠ [])
    (split : read ++ rest = skipSpace text) : ∃ read, read ≠ [] ∧ text = read ++ rest := by
  refine ⟨text.takeWhile isSpace ++ read, ?_, ?_⟩
  · exact fun empty => nonempty (append_eq_nil_iff.mp empty).2
  · rw [append_assoc, split, space_append]

/-- What is read moves the pointer, unless the text starts where no token does. -/
theorem Reads.advances (reads : Reads (skipSpace text) rest k) :
    (∃ read, read ≠ [] ∧ text = read ++ rest) ∨
      (skipSpace text = text ∧ NoToken text ∧ (k = .error ∨ k = .integer ∨ k = .real)) := by
  obtain ⟨w, split, starts⟩ | ⟨rfl, noToken, kind⟩ := reads
  · exact .inl (read_of_skipSpace starts.nonempty split)
  · cases space : text.takeWhile isSpace with
    | nil =>
      have same := space_append text
      rw [space, nil_append] at same
      exact .inr ⟨same, same ▸ noToken, kind⟩
    | cons c cs =>
      refine .inl ⟨text.takeWhile isSpace, ?_, (space_append text).symm⟩
      rw [space]
      exact cons_ne_nil c cs

theorem noToken_sign (start : isNumberStart c = true) (h : NoToken (c :: cs)) :
    c = 43 ∨ c = 45 := by
  rw [isNumberStart, Bool.or_eq_true, Bool.or_eq_true, beq_iff_eq, beq_iff_eq] at start
  obtain sign | digit := start
  · exact sign
  · have token : IsToken ([] ++ [c]) .integer :=
      .integer (.inl rfl) (by simpa [AllDigits] using digit) (cons_ne_nil c [])
    exact absurd ⟨cs, rfl⟩ (h _ _ token)

theorem punctuation_kinds : ∀ entry ∈ punctuation, entry.2 ≠ .error ∧ entry.2 ≠ .integer ∧
    entry.2 ≠ .real ∧ entry.2 ≠ .string := by
  decide

/-- A call that does not start at a lone sign moves the pointer. -/
theorem Lexes.advances (body : skipSpace text = c :: cs) (noSign : ¬LoneSign text)
    (lexes : Lexes prims c cs k value rest) (token : k ≠ .error) :
    ∃ read, read ≠ [] ∧ text = read ++ rest := by
  cases lexes with
  | word start =>
    refine read_of_skipSpace (cons_ne_nil c (cs.takeWhile isWordByte)) ?_
    rw [body, cons_append, takeWhile_append_dropWhile]
  | number start _ reads =>
    obtain advances | ⟨same, noToken, -⟩ := Reads.advances (body ▸ reads)
    · exact advances
    · have shape : text = c :: cs := same.symm.trans body
      exact absurd ⟨c, cs, shape, noToken_sign start (shape ▸ noToken), noToken⟩ noSign
  | literal quote found =>
    obtain advances | ⟨-, -, kind⟩ := Reads.advances (body ▸ reads_literal quote found)
    · exact advances
    · exact absurd kind (by decide)
  | mark _ _ reads known =>
    obtain advances | ⟨-, -, kind⟩ := Reads.advances (body ▸ reads)
    · exact advances
    · obtain ⟨w, inside⟩ := known.resolve_right token
      have other := punctuation_kinds _ inside
      exact absurd kind (not_or.mpr ⟨token, not_or.mpr ⟨other.2.1, other.2.2.1⟩⟩)

/-- At a lone sign the pointer stays. -/
theorem stays_of_loneSign (h : LoneSign text) :
    ∃ k value, wqllex prims text = .token k value text ∧ k ≠ .error := by
  obtain ⟨c, cs, rfl, sign, noToken⟩ := h
  have start : isNumberStart c = true ∧ skipSpace (c :: cs) = c :: cs := by
    obtain rfl | rfl := sign
    · exact ⟨rfl, rfl⟩
    · exact ⟨rfl, rfl⟩
  have other := isNumberStart_other c start.1
  obtain ⟨-, quote, -⟩ | ⟨k, value, rest, read, lexes⟩ := wqllex_lexes prims start.2
  · exact absurd quote other.2.1
  · refine ⟨k, value, ?_⟩
    cases lexes with
    | word word => exact absurd (word.symm.trans other.1) (by decide)
    | number _ kind reads =>
      obtain ⟨w, split, token, -⟩ | ⟨rfl, -, -⟩ := reads
      · exact absurd ⟨rest, split⟩ (noToken w _ token)
      · refine ⟨read, ?_⟩
        obtain rfl | rfl := kind <;> decide
    | literal quote _ => exact absurd quote other.2.1
    | mark _ noNumber _ _ => exact absurd (start.1.symm.trans noNumber) (by decide)

/-! ## Reserved words -/

theorem wqllex_word (body : skipSpace text = c :: cs) (start : isWordStart c = true) :
    ∃ rest, wqllex prims text =
      .token (wordToken (c :: cs) (firstWord (c :: cs)) : Kind × Yystype R).1
        (wordToken (c :: cs) (firstWord (c :: cs))).2 rest := by
  rw [skipSpace] at body
  refine ⟨cs.dropWhile isWordByte, ?_⟩
  rw [wqllex, body, firstWord_cons start]
  simp only [start, if_true]

theorem wordToken_of_find {word : List UInt8} {entry : List UInt8 × Kind}
    (found : (keywords.find? fun entry => matchToken start entry.1) = some entry) :
    (wordToken start word : Kind × Yystype R) = (entry.2, keywordValue entry.1) := by
  rw [wordToken, found]
  rfl

theorem wordToken_kind (start word : List UInt8) :
    (wordToken start word : Kind × Yystype R).1 = .identifier ∨
      ∃ entry ∈ keywords, (wordToken start word : Kind × Yystype R).1 = entry.2 := by
  cases found : keywords.find? fun entry => matchToken start entry.1 with
  | none => exact .inl (by rw [wordToken, found])
  | some entry =>
    rw [wordToken_of_find found]
    exact .inr ⟨entry, mem_of_find?_eq_some found, rfl⟩

/-- A reserved word with a digit behind it matches as well. -/
theorem matchToken_of_digit {ds : List UInt8} {d : UInt8}
    (h : (firstWord start).map toLower = lcs ++ d :: ds) (digit : isDigit d = true) :
    matchToken start lcs = true := by
  obtain ⟨u, v, split, lower, behind⟩ := map_eq_append_iff.mp h
  obtain ⟨x, xs, rfl, rfl, -⟩ := map_eq_cons_iff.mp behind
  have whole : start = u ++ x :: (xs ++ start.dropWhile isWordByte) := by
    conv_lhs => rw [← takeWhile_append_dropWhile (p := isWordByte) (l := start)]
    change firstWord start ++ _ = _
    rw [split, append_assoc, cons_append]
  have length : lcs.length = u.length := by
    rw [← lower, length_map]
  rw [isDigit_toLower] at digit
  have word := isDigit_isWordStart x digit
  rw [isWordStart, Bool.or_eq_false_iff] at word
  rw [matchToken, whole, length, take_left, drop_left, lower, beq_self_eq_true, Bool.true_and]
  simp only [word.1, Bool.not_false, Bool.true_and, bne, word.2]

/-- A reserved word at the start of a text is found, also with a digit behind it. -/
theorem find_of_matchToken (inside : (lcs, k) ∈ keywords) (h : matchToken start lcs = true) :
    ∃ entry ∈ keywords, (keywords.find? fun entry => matchToken start entry.1) = some entry ∧
      matchToken start entry.1 = true := by
  cases found : keywords.find? fun entry => matchToken start entry.1 with
  | none => exact absurd h (find?_eq_none.mp found _ inside)
  | some entry =>
    have matched := find?_some found
    exact ⟨entry, mem_of_find?_eq_some found, rfl, matched⟩

/-- A word that begins with a reserved one begins with a letter. -/
theorem isWordStart_of_keyword {more : List UInt8} (inside : (lcs, k) ∈ keywords)
    (h : (firstWord body).map toLower = lcs ++ more) :
    ∃ c cs, body = c :: cs ∧ isWordStart c = true := by
  obtain ⟨nonempty, alpha⟩ := keywords_alpha _ inside
  obtain ⟨l, ls, rfl⟩ := exists_cons_of_ne_nil nonempty
  obtain ⟨c, cs, word, lower, -⟩ := map_eq_cons_iff.mp h
  have letter : isAlpha c = true := by
    rw [← isAlpha_toLower, lower]
    exact alpha l mem_cons_self
  cases body with
  | nil => exact absurd word (cons_ne_nil c cs).symm
  | cons x xs =>
    obtain ⟨rest, same⟩ : firstWord (x :: xs) <+: x :: xs := takeWhile_prefix _
    rw [word, cons_append] at same
    obtain ⟨rfl, -⟩ := cons.inj same
    exact ⟨c, xs, rfl, isAlpha_isWordStart letter⟩

theorem keyword_kinds : ∀ entry ∈ keywords, entry.2 ≠ .identifier ∧ entry.2 ≠ .integer ∧
    entry.2 ≠ .real ∧ entry.2 ≠ .string ∧ entry.2 ≠ .error ∧
    ∀ other ∈ punctuation, entry.2 ≠ other.2 := by
  decide

/-- Kind and value tell the reserved words apart. -/
theorem keyword_eq {a b : List UInt8 × Kind} (first : a ∈ keywords) (second : b ∈ keywords)
    (kinds : a.2 = b.2) (values : (keywordValue a.1 : Yystype R) = keywordValue b.1) :
    a.1 = b.1 := by
  have apart : ∀ a ∈ keywords, ∀ b ∈ keywords, a.2 = b.2 → a.1 = b.1 ∨
      (a.1 = ascii "true" ∧ b.1 = ascii "false") ∨
      (a.1 = ascii "false" ∧ b.1 = ascii "true") := by decide
  have truth : (keywordValue (ascii "true") : Yystype R) ≠ keywordValue (ascii "false") := nofun
  obtain same | ⟨yes, no⟩ | ⟨no, yes⟩ := apart a first b second kinds
  · exact same
  · rw [yes, no] at values
    exact absurd values truth
  · rw [yes, no] at values
    exact absurd values.symm truth

/-- Where no digit follows a reserved word, what matches is the whole word. -/
theorem firstWord_of_free {entry : List UInt8 × Kind} (free : ¬KeywordDigit start)
    (inside : entry ∈ keywords) (h : matchToken start entry.1 = true) :
    (firstWord start).map toLower = entry.1 := by
  obtain same | ⟨d, ds, longer, digit⟩ :=
    firstWord_of_matchToken (keywords_alpha entry inside).2 h
  · exact same
  · exact absurd ⟨entry.1, entry.2, d, ds, inside, longer, digit⟩ free

theorem keyword_iff (free : ¬KeywordDigit (skipSpace text)) (inside : (lcs, k) ∈ keywords) :
    (∃ rest, wqllex prims text = .token k (keywordValue lcs) rest) ↔
      (firstWord (skipSpace text)).map toLower = lcs := by
  constructor
  · rintro ⟨rest, read⟩
    obtain ⟨c, cs, body, lexes⟩ := lexes_of_token read
    have kinds := keyword_kinds _ inside
    rw [body] at free ⊢
    generalize valueIs : (keywordValue lcs : Yystype R) = value at lexes
    cases lexes with
    | word start =>
      cases found : keywords.find? fun entry => matchToken (c :: cs) entry.1 with
      | none =>
        have identifier : (wordToken (c :: cs) (firstWord (c :: cs)) : Kind × Yystype R).1 =
            .identifier := by
          rw [wordToken, found]
        exact absurd identifier kinds.1
      | some entry =>
        have known := mem_of_find?_eq_some found
        have matched := find?_some found
        rw [wordToken_of_find found] at inside valueIs
        rw [firstWord_of_free free known matched]
        exact (keyword_eq inside known rfl valueIs).symm
    | number _ kind _ => exact absurd kind (not_or.mpr ⟨kinds.2.1, kinds.2.2.1⟩)
    | literal _ _ => exact absurd rfl kinds.2.2.2.1
    | mark _ _ _ known =>
      obtain ⟨w, mark⟩ | error := known
      · exact absurd rfl (kinds.2.2.2.2.2 (w, k) mark)
      · exact absurd error kinds.2.2.2.2.1
  · intro same
    obtain ⟨c, cs, body, start⟩ := isWordStart_of_keyword inside
      (same.trans (append_nil lcs).symm)
    rw [body] at free same
    obtain ⟨entry, known, found, matched⟩ :=
      find_of_matchToken inside (matchToken_of_firstWord same)
    have word : entry.1 = lcs := (firstWord_of_free free known matched).symm.trans same
    have kind : entry.2 = k := keywords_unique _ known _ inside word
    obtain ⟨rest, read⟩ := wqllex_word body start
    rw [wordToken_of_find found, kind, word] at read
    exact ⟨rest, read⟩

/-- A reserved word with a digit behind it is reported for another word. -/
theorem misreported_of_keywordDigit (h : KeywordDigit (skipSpace text)) :
    ∃ entry ∈ keywords, (∃ rest, wqllex prims text = .token entry.2 (keywordValue entry.1) rest) ∧
      (firstWord (skipSpace text)).map toLower ≠ entry.1 := by
  obtain ⟨lcs, k, d, ds, inside, longer, digit⟩ := h
  obtain ⟨c, cs, body, start⟩ := isWordStart_of_keyword inside longer
  rw [body] at longer
  obtain ⟨entry, known, found, -⟩ :=
    find_of_matchToken inside (matchToken_of_digit longer digit)
  obtain ⟨rest, read⟩ := wqllex_word body start
  rw [wordToken_of_find found] at read
  refine ⟨entry, known, ⟨rest, read⟩, fun same => ?_⟩
  rw [body, longer] at same
  have letter : isAlpha d = true :=
    (keywords_alpha entry known).2 d (same ▸ mem_append_right lcs mem_cons_self)
  have other := isDigit_isWordStart d digit
  rw [isAlpha_isWordStart letter] at other
  exact absurd other (by decide)

/-! ## Literals -/

theorem skipSpace_quote (shape : skipSpace text = quote :: (body ++ quote :: rest))
    (isQuote : quote = 34 ∨ quote = 39) (isBody : IsLiteralBody quote body) :
    wqllex prims text =
      .token .string (.string (.ofBuffer (decode unescape body))) rest := by
  have other : isWordStart quote = false ∧
      (quote == 43 || quote == 45 || isDigit quote) = false := by
    obtain rfl | rfl := isQuote <;> decide
  rw [skipSpace] at shape
  rw [wqllex, shape]
  simp only [other.1, other.2, Bool.false_eq_true, if_false, isQuote, if_true,
    literal_eq_decode isQuote isBody]

/-- The value of a string token, by the table of the source. -/
theorem literal_of_token (h : wqllex prims text = .token .string value rest) :
    ∃ quote body, skipSpace text = quote :: (body ++ quote :: rest) ∧
      (quote = 34 ∨ quote = 39) ∧ IsLiteralBody quote body ∧
      value = .string (.ofBuffer (decode unescape body)) := by
  obtain ⟨c, cs, body, lexes⟩ := lexes_of_token h
  generalize kindIs : Kind.string = k at lexes
  cases lexes with
  | word _ =>
    obtain identifier | ⟨entry, inside, kind⟩ :=
      wordToken_kind (R := R) (c :: cs) (firstWord (c :: cs))
    · exact absurd (kindIs.trans identifier) (by decide)
    · exact absurd (kindIs.trans kind).symm (keyword_kinds entry inside).2.2.2.1
  | number _ kind _ =>
    subst kindIs
    exact absurd kind (by decide)
  | literal quote found =>
    obtain ⟨inner, rfl, isBody⟩ := body_of_literal _ (Nat.le_refl _) found
    rw [literal_eq_decode quote isBody] at found
    cases found
    exact ⟨c, inner, body, quote, isBody, rfl⟩
  | mark _ _ _ known =>
    subst kindIs
    obtain ⟨w, mark⟩ | error := known
    · exact absurd rfl (punctuation_kinds _ mark).2.2.2
    · exact absurd error (by decide)

theorem nul_free_body (clean : (0 : UInt8) ∉ text)
    (shape : skipSpace text = quote :: (body ++ quote :: rest)) : (0 : UInt8) ∉ body := by
  intro inside
  refine clean ?_
  rw [← space_append text, shape]
  exact mem_append_right _ (mem_cons_of_mem _ (mem_append_left _ inside))

/-- The value of a literal is the one C gives it when none of its escape sequences is
misread, and only then. -/
theorem decode_unescape_iff (h : IsLiteralBody quote body) :
    decode unescape body = decode escapeValue body ↔ ∀ c ∈ escapes body, c ∉ misread := by
  rw [decode_eq_decode_iff h]
  exact forall₂_congr fun c _ => unescape_eq_iff c

theorem literal_field_iff (clean : (0 : UInt8) ∉ text) :
    (∀ value rest, wqllex prims text = .token .string value rest →
      ∃ quote body s, skipSpace text = quote :: (body ++ quote :: rest) ∧
        (quote = 34 ∨ quote = 39) ∧ IsLiteralBody quote body ∧
        value = .string s ∧ s.chars = decode escapeValue body) ↔
      ¬MisreadLiteral (skipSpace text) := by
  constructor
  · rintro right ⟨quote, body, rest, shape, isQuote, isBody, c, inside, wrong⟩
    obtain ⟨_, other, s, same, -, isOther, value, chars⟩ :=
      right _ _ (skipSpace_quote shape isQuote isBody)
    rw [shape] at same
    obtain ⟨rfl, texts⟩ := cons.inj same
    obtain ⟨rfl, -⟩ := body_unique isQuote isBody isOther texts
    have read : decode unescape body = decode escapeValue body := by
      rw [← chars, ← Yystype.string.inj value,
        ofBuffer_chars (decode_nul_free isBody (nul_free_body clean shape))]
    exact (decode_unescape_iff isBody).mp read c inside wrong
  · intro clear value rest read
    obtain ⟨quote, body, shape, isQuote, isBody, valueIs⟩ := literal_of_token read
    refine ⟨quote, body, _, shape, isQuote, isBody, valueIs, ?_⟩
    rw [ofBuffer_chars (decode_nul_free isBody (nul_free_body clean shape))]
    refine (decode_unescape_iff isBody).mpr fun c inside wrong => ?_
    exact clear ⟨quote, body, rest, shape, isQuote, isBody, c, inside, wrong⟩

/-! ## The whole call -/

/-- A call keeps its contract at every place of a text but the three kinds of places at
which the source goes its own way. -/
theorem scanned_iff (prims : Prims R) (text : ZString) (position : Nat) :
    Scanned prims (text.chars.drop position) ↔
      ¬KeywordDigit (skipSpace (text.chars.drop position)) ∧
      ¬LoneSign (text.chars.drop position) ∧
      ¬MisreadLiteral (skipSpace (text.chars.drop position)) := by
  have clean : (0 : UInt8) ∉ text.chars.drop position :=
    fun inside => text.nul_free (mem_of_mem_drop inside)
  constructor
  · intro scanned
    refine ⟨fun digit => ?_, fun sign => ?_, (literal_field_iff clean).mp scanned.literal⟩
    · obtain ⟨entry, inside, read, other⟩ := misreported_of_keywordDigit digit
      exact other ((scanned.keyword entry.1 entry.2 inside).mp read)
    · obtain ⟨k, value, read, token⟩ := stays_of_loneSign sign
      obtain ⟨front, nonempty, split⟩ := scanned.advances k value _ read token
      exact nonempty (self_eq_append_left.mp split)
  · rintro ⟨free, noSign, clear⟩
    refine ⟨fun k value rest read token => ?_, fun lcs k inside => keyword_iff free inside,
      (literal_field_iff clean).mpr clear⟩
    obtain ⟨c, cs, body, lexes⟩ := lexes_of_token read
    exact lexes.advances body noSign token

/-- `select1` is read as `SELECT`, a sign alone as the number zero without moving the
pointer, and the escape sequence for a tab as the letter. -/
theorem wqllex_breaks_contract :
    (wqllex noPrims (ascii "select1") = .token .select .unset [] ∧
      ¬Scanned noPrims (ascii "select1")) ∧
    (wqllex noPrims (ascii "+") = .token .integer (.integer 0) (ascii "+") ∧
      ¬Scanned noPrims (ascii "+")) ∧
    wqllex noPrims (ascii "'\\t'") = .token .string (.string (.ofString "t")) [] ∧
      ¬Scanned noPrims (ascii "'\\t'") := by
  have word : wqllex noPrims (ascii "select1") = .token .select .unset [] := rfl
  have sign : wqllex noPrims (ascii "+") = .token .integer (.integer 0) (ascii "+") := rfl
  have tab : wqllex noPrims (ascii "'\\t'") = .token .string (.string (.ofString "t")) [] := rfl
  refine ⟨⟨word, fun scanned => ?_⟩, ⟨sign, fun scanned => ?_⟩, tab, fun scanned => ?_⟩
  · have same := (scanned.keyword (ascii "select") .select (by decide)).mp ⟨[], word⟩
    exact absurd same (by decide)
  · obtain ⟨read, nonempty, split⟩ := scanned.advances _ _ _ sign (by decide)
    exact nonempty (self_eq_append_left.mp split)
  · have isBody : IsLiteralBody 39 (ascii "\\t") := .escaped .nil
    exact (literal_field_iff (by decide)).mp scanned.literal
      ⟨39, ascii "\\t", [], rfl, .inr rfl, isBody, 116, by decide, by decide⟩

end Omi.Wql
