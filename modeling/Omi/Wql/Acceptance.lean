import Omi.Wql.Limits
import Omi.Wql.Words

/-!
# Which texts are accepted

The driver reads a text token by token, so its run follows the track that the tokens
lead through. Together with the recogniser and the accounting of `Omi.Wql.Limits` this
says which texts yield an object. The analyser stands still at a place where no token
starts; the driver then refuses what it is given there, at once or the second time.
-/

namespace Omi.Wql

open List Option

variable {R : Type}

namespace Track

theorem feed_error (t : Track) : t.feed .error = none := by
  have step := feed_advance t .error
  have refused : advance t.spot (openParens t.frames) .error = none := by
    cases t.spot with
    | left part => cases part <;> rfl
    | right op part =>
      cases part with
      | literal k | word | dot | member | colon | colons | embedded => rfl
    | _ => rfl
  rw [refused] at step
  exact map_eq_none_iff.mp step

/-- A number is never followed by a number. -/
theorem feed_twice {t u : Track} {k : Kind} (h : t.feed k = some u)
    (number : k = .integer ∨ k = .real) : u.feed k = none := by
  have step := feed_advance t k
  rw [h] at step
  have next := feed_advance u k
  have spot : (u.spot = .left (.literal k)) ∨ ∃ op, u.spot = .right op (.literal k) := by
    generalize t.spot = spot at step
    generalize openParens t.frames = opened at step
    obtain rfl | rfl := number
    all_goals
      cases spot with
      | condition => exact .inl (Prod.mk.inj (Option.some.inj step)).1
      | compare op => exact .inr ⟨op, (Prod.mk.inj (Option.some.inj step)).1⟩
      | left part | right op part => cases part <;> exact absurd step (some_ne_none _)
      | _ => exact absurd step (some_ne_none _)
  have refused : advance u.spot (openParens u.frames) k = none := by
    obtain same | ⟨op, same⟩ := spot <;> rw [same] <;> obtain rfl | rfl := number <;> rfl
  rw [refused] at next
  exact map_eq_none_iff.mp next

end Track

variable {ks : List Kind}

namespace Parser

variable {prims : Prims R} {dialect : Dialect}

/-- A run has one result. -/
theorem Runs.unique {p : Parser R} {a b : Option (Parsed R)} (first : Runs prims dialect p a)
    (second : Runs prims dialect p b) : a = b := by
  induction first with
  | accept step =>
    cases second with
    | accept step' => rw [Turn.accept.inj (step.symm.trans step')]
    | abort step' | next step' _ => cases step.symm.trans step'
  | abort step =>
    cases second with
    | accept step' => cases step.symm.trans step'
    | abort _ => rfl
    | next step' _ => cases step.symm.trans step'
  | next step _ ih =>
    cases second with
    | accept step' | abort step' => cases step.symm.trans step'
    | next step' rest => exact ih (Turn.next.inj (step.symm.trans step') ▸ rest)

/-- The text splits into tokens that the track gets through, and is accepted, or it does
not, and is rejected. -/
def Decided (prims : Prims R) (dialect : Dialect) (p : Parser R) (text : List UInt8)
    (t : Track) : Prop :=
  (∃ ks, Splits text ks ∧ t.Passes dialect ks ∧
      ∃ query : Parsed R, Runs prims dialect p (some query)) ∨
    ((∀ ks, Splits text ks → ¬t.Passes dialect ks) ∧ Runs prims dialect p none)

variable {text : List UInt8}

theorem splits_nil (atEnd : skipSpace text = []) (splits : Splits text ks) : ks = [] := by
  obtain ⟨final, scans, -⟩ := splits
  cases scans with
  | nil => rfl
  | cons body starts _ =>
    rw [atEnd] at body
    exact absurd (append_eq_nil_iff.mp body.symm).1 starts.nonempty

theorem splits_cons {w rest : List UInt8} {k : Kind} (body : skipSpace text = w ++ rest)
    (starts : Starts (w ++ rest) w k) (splits : Splits text ks) :
    ∃ ls, ks = k :: ls ∧ Splits rest ls := by
  obtain ⟨final, scans, atEnd⟩ := splits
  cases scans with
  | nil =>
    rw [body] at atEnd
    exact absurd (append_eq_nil_iff.mp atEnd).1 starts.nonempty
  | @cons _ v behind _ l ls shape other scans =>
    rw [body] at shape
    obtain ⟨rfl, rfl⟩ := starts.unique (shape ▸ other)
    obtain rfl := append_cancel_left shape
    exact ⟨ls, rfl, final, scans, atEnd⟩

theorem not_splits (more : skipSpace text ≠ []) (none : NoToken (skipSpace text)) (ks : List Kind) :
    ¬Splits text ks := by
  rintro ⟨final, scans, atEnd⟩
  cases scans with
  | nil => exact more atEnd
  | cons body starts _ => exact none _ _ starts.1 (body ▸ starts.2.1)

theorem decided_at_end {p : Parser R} {t : Track} (valid : t.Valid)
    (stands : p.Stands prims dialect text t.states t.load) (atEnd : skipSpace text = []) :
    Decided prims dialect p text t := by
  have code : (lookahead prims text).1 = 0 := by rw [lookahead, wqllex_eof atEnd]
  obtain ⟨final, finished, allowed, accepted⟩ | ⟨refused, runs⟩ := finish_run valid code stands
  · exact .inl ⟨[], ⟨text, .nil, atEnd⟩, ⟨final, finished, allowed⟩, accepted⟩
  · refine .inr ⟨?_, runs⟩
    rintro ks splits passes
    obtain rfl := splits_nil atEnd splits
    obtain ⟨final, finished, allowed⟩ := passes
    exact refused final finished allowed

/-- The analyser stands still, and the driver rejects what it gets. -/
theorem rejects_without_token {p : Parser R} {t : Track} {k : Kind} {value : Yystype R}
    (valid : t.Valid) (stands : p.Stands prims dialect text t.states t.load)
    (lexed : wqllex prims text = .token k value (skipSpace text))
    (which : k = .error ∨ k = .integer ∨ k = .real) : Runs prims dialect p none := by
  obtain ⟨u, fed, -, -, q, reaches, again⟩ | ⟨-, runs⟩ := feed_run valid lexed stands
  · obtain rfl | number := which
    · rw [Track.feed_error] at fed
      exact absurd fed (some_ne_none u).symm
    · have lexed : wqllex prims (skipSpace text) = .token k value (skipSpace text) := by
        rw [wqllex_skipSpace, lexed]
      obtain ⟨v, refed, -⟩ | ⟨-, runs⟩ := feed_run ((Track.feed_grows fed).valid valid) lexed again
      · rw [Track.feed_twice fed number] at refed
        exact absurd refed (some_ne_none v).symm
      · exact reaches.runs runs
  · exact runs

/-- The driver decides every ordinary text. -/
theorem decided (n : Nat) : ∀ {p : Parser R} {text : List UInt8} {t : Track}, text.length ≤ n →
    Ordinary text → t.Valid → p.Stands prims dialect text t.states t.load →
    Decided prims dialect p text t := by
  -- The rest behind a token is shorter than the text before it.
  induction n with
  | zero =>
    intro p text t bound _ valid stands
    obtain rfl := length_eq_zero_iff.mp (Nat.le_zero.mp bound)
    exact decided_at_end valid stands rfl
  | succ n ih =>
    intro p text t bound ordinary valid stands
    cases body : skipSpace text with
    | nil => exact decided_at_end valid stands body
    | cons c cs =>
      obtain ⟨terminated, free⟩ := ordinary _ _ .nil
      rw [body] at terminated free
      obtain ⟨-, unterminated⟩ | ⟨k, value, rest, lexed, reads⟩ :=
        wqllex_cases prims body free
      · exact absurd unterminated terminated
      · obtain ⟨w, split, starts⟩ | ⟨rfl, none, which⟩ := reads
        · rw [← split] at body starts
          have shorter : rest.length ≤ n := by
            have suffix := (dropWhile_suffix isSpace (l := text)).length_le
            have nonempty := length_pos_of_ne_nil starts.nonempty
            change (skipSpace text).length ≤ text.length at suffix
            rw [body, length_append] at suffix
            omega
          obtain ⟨u, fed, allowed, fits, q, reaches, next⟩ | ⟨refused, runs⟩ :=
            feed_run valid lexed stands
          · obtain ⟨ls, splits, passes, query, runs⟩ | ⟨rejected, runs⟩ :=
              ih shorter (ordinary.rest body starts) ((Track.feed_grows fed).valid valid) next
            · obtain ⟨final, scans, atEnd⟩ := splits
              exact .inl ⟨k :: ls, ⟨final, .cons body starts scans, atEnd⟩,
                ⟨u, fed, allowed, fits, passes⟩, query, reaches.runs runs⟩
            · refine .inr ⟨?_, reaches.runs runs⟩
              intro ks splits passes
              obtain ⟨ls, rfl, behind⟩ := splits_cons body starts splits
              obtain ⟨v, same, -, -, passes⟩ := passes
              cases fed.symm.trans same
              exact rejected ls behind passes
          · refine .inr ⟨?_, runs⟩
            intro ks splits passes
            obtain ⟨ls, rfl, -⟩ := splits_cons body starts splits
            obtain ⟨v, fed, allowed, fits, -⟩ := passes
            exact absurd fits (Nat.not_le_of_lt (refused v fed allowed))
        · have nonempty : skipSpace text ≠ [] := by
            rw [body]
            exact cons_ne_nil c cs
          rw [← body] at lexed none
          exact .inr ⟨fun ks splits => absurd splits (not_splits nonempty none ks),
            rejects_without_token valid stands lexed which⟩

theorem stands_start :
    (start text : Parser R).Stands prims dialect text Track.origin.states .zero where
  states_eq := rfl
  nonempty := cons_ne_nil _ _
  fits := by decide
  sees := .inl ⟨rfl, rfl⟩
  holds := ⟨rfl, rfl⟩
  allowed := ⟨Nat.zero_le _, Nat.zero_le _, .inl rfl⟩

end Parser

/-- The entries that the stack of the parser needs for a query. -/
def stackNeed (ks : List Kind) : Nat := Track.origin.need ks

/-- The query keeps to the limits of the object and of the stack, and uses LIKE only in the
dialect that has it. -/
def Fits (dialect : Dialect) (ks : List Kind) : Prop :=
  (totals ks).properties ≤ maxProperties ∧ (totals ks).symbols ≤ maxSymbols ∧
    (.like ∈ ks → dialect = .wql) ∧ stackNeed ks ≤ yymaxdepth

variable {dialect : Dialect}

theorem allowed_totals :
    (totals ks).Allowed dialect ↔ (totals ks).properties ≤ maxProperties ∧
      (totals ks).symbols ≤ maxSymbols ∧ (.like ∈ ks → dialect = .wql) := by
  have likes : (totals ks).likes = 0 ↔ Kind.like ∉ ks := count_eq_zero
  rw [Load.Allowed, likes, ← imp_iff_not_or]

theorem passes_origin : Track.origin.Passes dialect ks ↔ DerivesStart ks ∧ Fits dialect ks := by
  have counts : Track.origin.Counts [] := by
    refine ⟨rfl, ?_⟩
    exact ⟨fun _ => not_mem_nil, fun _ => rfl⟩
  have passes := @Track.passes_iff dialect ks Track.origin [] rfl counts (by decide)
  rw [passes, ← recognises_start, nil_append, allowed_totals]
  simp only [Fits, and_assoc]
  rfl

/-- Every ordinary text is parsed to the end, and yields an object exactly if it splits into
tokens that the grammar derives, within the limits. -/
theorem parses_iff_derivable (prims : Prims R) (dialect : Dialect) (text : ZString)
    (ordinary : Ordinary text.chars) :
    (∃ result, Parses prims dialect text result) ∧
    ((∃ query, Parses prims dialect text (some query)) ↔
      ∃ ks, Splits text.chars ks ∧ DerivesStart ks ∧ Fits dialect ks) := by
  obtain ⟨ks, splits, passes, query, runs⟩ | ⟨rejected, runs⟩ :=
    @Parser.decided R prims dialect _ (.start text.chars) text.chars Track.origin (Nat.le_refl _)
      ordinary rfl (Parser.stands_start)
  · refine ⟨⟨some query, runs⟩, fun _ => ⟨ks, splits, passes_origin.mp passes⟩, fun _ => ?_⟩
    exact ⟨query, runs⟩
  · refine ⟨⟨none, runs⟩, ?_, ?_⟩
    · rintro ⟨query, accepted⟩
      exact absurd (Parser.Runs.unique runs accepted) (some_ne_none query).symm
    · rintro ⟨ks, splits, derived⟩
      exact absurd (passes_origin.mpr derived) (rejected ks splits)

/-! ## Executable forms -/

deriving instance DecidableEq for Query

deriving instance DecidableEq for Parsed

/-- The loop with a bound on the number of turns. -/
def Parser.runFor (prims : Prims R) (dialect : Dialect) : Nat → Parser R → Option (Option (Parsed R))
  | 0, _ => none
  | n + 1, p =>
    match p.step prims dialect with
    | .next q => q.runFor prims dialect n
    | .accept query => some (some query)
    | .abort => some none

theorem Parser.runs_of_runFor {prims : Prims R} {result : Option (Parsed R)}
    (n : Nat) : ∀ {p : Parser R}, p.runFor prims dialect n = some result →
      Runs prims dialect p result := by
  induction n with
  | zero =>
    intro p h
    exact absurd h (some_ne_none result).symm
  | succ n ih =>
    intro p h
    rw [Parser.runFor] at h
    cases turn : p.step prims dialect with
    | next q =>
      rw [turn] at h
      exact .next turn (ih h)
    | accept query =>
      rw [turn] at h
      cases h
      exact .accept turn
    | abort =>
      rw [turn] at h
      cases h
      exact .abort turn

/-- Decide `KeywordDigit`. -/
def keywordDigit (text : List UInt8) : Bool :=
  keywords.any fun entry =>
    entry.1.isPrefixOf ((firstWord text).map toLower) &&
      ((((firstWord text).map toLower).drop entry.1.length).head?.map isDigit).getD false

variable {text : List UInt8}

theorem keywordDigit_of_exists (h : KeywordDigit text) : keywordDigit text = true := by
  obtain ⟨lcs, k, d, ds, inside, shape, digit⟩ := h
  refine any_eq_true.mpr ⟨(lcs, k), inside, ?_⟩
  simp only [shape, drop_left, head?_cons, map_some, getD_some, digit,
    Bool.and_true, isPrefixOf_iff_prefix]
  exact prefix_append _ _

/-- Read tokens with the analyser for as long as it moves. -/
def scan (prims : Prims R) : Nat → List UInt8 → List Kind × List UInt8
  | 0, text => ([], text)
  | n + 1, text =>
    if keywordDigit (skipSpace text) then ([], text)
    else
      match wqllex prims text with
      | .token k _ rest =>
        if rest.length < (skipSpace text).length then
          (k :: (scan prims n rest).1, (scan prims n rest).2)
        else ([], text)
      | .eof | .failed => ([], text)

/-- One more token, or none. -/
theorem scan_succ (prims : Prims R) (n : Nat) :
    scan prims (n + 1) text = ([], text) ∨
      ∃ w k rest, skipSpace text = w ++ rest ∧ Starts (w ++ rest) w k ∧
        ¬KeywordDigit (skipSpace text) ∧
        scan prims (n + 1) text = (k :: (scan prims n rest).1, (scan prims n rest).2) := by
  rw [scan]
  split_ifs with digit
  · exact .inl rfl
  · have free : ¬KeywordDigit (skipSpace text) := fun found => digit (keywordDigit_of_exists found)
    cases lexed : wqllex prims text with
    | eof | failed => exact .inl rfl
    | token k value rest =>
      simp only
      split_ifs with moves
      · cases body : skipSpace text with
        | nil =>
          rw [body] at moves
          exact absurd moves (Nat.not_lt_zero _)
        | cons c cs =>
          rw [body] at moves free
          obtain ⟨failed, -⟩ | ⟨l, value', rest', lexed', reads⟩ := wqllex_cases prims body free
          · cases lexed.symm.trans failed
          · cases lexed.symm.trans lexed'
            obtain ⟨w, split, starts⟩ | ⟨rfl, -⟩ := reads
            · exact .inr ⟨w, k, rest, split.symm, split.symm ▸ starts, free, rfl⟩
            · exact absurd moves (Nat.lt_irrefl _)
      · exact .inl rfl

theorem scans_scan (prims : Prims R) (n : Nat) : ∀ text : List UInt8,
    Scans text (scan prims n text).1 (scan prims n text).2 := by
  induction n with
  | zero =>
    intro text
    exact .nil
  | succ n ih =>
    intro text
    obtain stops | ⟨w, k, rest, body, starts, -, goesOn⟩ := scan_succ prims n
    · rw [stops]
      exact .nil
    · rw [goesOn]
      exact .cons body starts (ih rest)

theorem ordinary_of_end (atEnd : skipSpace text = []) : Ordinary text := by
  intro ks final scans
  cases scans with
  | nil =>
    rw [atEnd]
    refine ⟨?_, fun found => absurd (keywordDigit_of_exists found) (by decide)⟩
    rintro ⟨c, cs, shape, -⟩
    exact absurd shape (cons_ne_nil c cs).symm
  | cons body starts _ =>
    rw [atEnd] at body
    exact absurd (append_eq_nil_iff.mp body.symm).1 starts.nonempty

/-- A text that is read to its end is ordinary. -/
theorem ordinary_of_scan (prims : Prims R) (n : Nat) : ∀ {text : List UInt8},
    skipSpace (scan prims n text).2 = [] → Ordinary text := by
  induction n with
  | zero =>
    intro text atEnd
    exact ordinary_of_end atEnd
  | succ n ih =>
    intro text atEnd
    obtain stops | ⟨w, k, rest, body, starts, free, goesOn⟩ := scan_succ prims n
    · rw [stops] at atEnd
      exact ordinary_of_end atEnd
    · rw [goesOn] at atEnd
      have later := ih atEnd
      intro ks final scans
      cases scans with
      | nil =>
        refine ⟨?_, free⟩
        rintro ⟨c, cs, -, -, none⟩
        exact none w k starts.1 (body ▸ starts.2.1)
      | @cons _ v behind _ l ls shape other scans =>
        rw [body] at shape
        obtain ⟨rfl, rfl⟩ := starts.unique (shape ▸ other)
        obtain rfl := append_cancel_left shape
        exact later _ _ scans

/-- A text whose tokens lead to a place where none starts does not split. -/
theorem Scans.not_splits {text final : List UInt8} (scans : Scans text ks final)
    (more : skipSpace final ≠ []) (none : NoToken (skipSpace final)) :
    ∀ ls, ¬Splits text ls := by
  induction scans with
  | nil =>
    intro ls
    exact Parser.not_splits more none ls
  | cons body starts _ ih =>
    intro ls splits
    obtain ⟨rest, -, splits⟩ := Parser.splits_cons body starts splits
    exact ih more none rest splits

/-! ## Texts at the edges -/

/-- Primitives for texts without real numbers. -/
def noPrims : Prims Unit where
  realLt _ _ := false
  strtod text := ((), text)
  matchLike _ _ := false

/-- A query with a condition that uses LIKE. -/
def likeQuery : ZString where
  chars := ascii "SELECT * FROM A WHERE a LIKE 'b'"
  nul_free := by decide

/-- A complete query with an unterminated literal behind it. -/
def openQuery : ZString where
  chars := ascii "SELECT * FROM A 'b"
  nul_free := by decide

theorem likeQuery_splits : Splits likeQuery.chars
    [.select, .star, .fromWord, .identifier, .whereWord, .identifier, .like, .string] := by
  have read : scan noPrims 9 likeQuery.chars = ([.select, .star, .fromWord, .identifier,
      .whereWord, .identifier, .like, .string], []) := by decide +kernel
  have scans := scans_scan noPrims 9 likeQuery.chars
  rw [read] at scans
  exact ⟨[], scans, rfl⟩

/-- The parser refuses a query that the grammar derives within the limits, because its
dialect has no LIKE; and it accepts a text that does not split into tokens, because the
failure of the analyser reads as the end of the text. -/
theorem parse_differs_from_grammar :
    (∃ ks, Splits likeQuery.chars ks ∧ DerivesStart ks ∧
      (totals ks).properties ≤ maxProperties ∧ (totals ks).symbols ≤ maxSymbols ∧
      Parses noPrims .cql likeQuery none) ∧
    (∃ query, Parses noPrims .wql openQuery (some query)) ∧
    ∀ ks, ¬Splits openQuery.chars ks := by
  refine ⟨⟨_, likeQuery_splits, (recognises_start _).mp (by decide), by decide, by decide, ?_⟩,
    ?_, ?_⟩
  · have rejected : (Parser.runFor noPrims .cql 40 (.start likeQuery.chars)).map
        isSome = some false := by decide +kernel
    obtain ⟨result, ran, isNone⟩ := map_eq_some_iff.mp rejected
    rw [not_isSome_iff_eq_none.mp (Bool.eq_false_iff.mp isNone)] at ran
    exact Parser.runs_of_runFor 40 ran
  · have accepted : (Parser.runFor noPrims .wql 40 (.start openQuery.chars)).join.isSome = true := by
      decide +kernel
    obtain ⟨query, found⟩ := isSome_iff_exists.mp accepted
    exact ⟨query, Parser.runs_of_runFor 40 (join_eq_some_iff.mp found)⟩
  · have read : scan noPrims 9 openQuery.chars =
        ([.select, .star, .fromWord, .identifier], ascii " 'b") := by decide +kernel
    have scans := scans_scan noPrims 9 openQuery.chars
    rw [read] at scans
    refine scans.not_splits (by decide) ?_
    exact noToken_of_unterminated (.inr rfl) (by decide)

/-- The parser agrees with the grammar on a query of the dialect that has LIKE. -/
theorem parses_iff_derivable_like :
    Ordinary likeQuery.chars ∧
    ((∃ query, Parses noPrims .wql likeQuery (some query)) ↔
      ∃ ks, Splits likeQuery.chars ks ∧ DerivesStart ks ∧ Fits .wql ks) := by
  have ordinary : Ordinary likeQuery.chars :=
    ordinary_of_scan noPrims 9 (by decide +kernel)
  exact ⟨ordinary, (parses_iff_derivable noPrims .wql likeQuery ordinary).2⟩

end Omi.Wql
