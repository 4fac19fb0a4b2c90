import Omi.Wql.Automaton

/-!
# The driver follows the automaton

A parser *stands* at a stack of states when these are its states, the text it has
still to look at is the given one and its object holds as much as the load says. One
turn of the driver is then determined by the tables, apart from the limits of the
object and of the stack. `Settles.run` lifts this to a chain of reductions. As every
count only grows, a chain that ends within the limits was within them throughout, and
one that does not is aborted on the way.
-/

namespace Omi.Wql

open List Option

variable {R : Type}

/-- The limits of the object, and LIKE only in the dialect that has it. -/
def Load.Allowed (dialect : Dialect) (load : Load) : Prop :=
  load.properties ≤ maxProperties ∧ load.symbols ≤ maxSymbols ∧
    (load.likes = 0 ∨ dialect = .wql)

theorem Load.Allowed.of_add {dialect : Dialect} {a b : Load} (h : (a + b).Allowed dialect) :
    a.Allowed dialect := by
  obtain ⟨properties, symbols, likes⟩ := h
  refine ⟨?_, ?_, ?_⟩
  · exact Nat.le_trans (Nat.le_add_right _ _) properties
  · exact Nat.le_trans (Nat.le_add_right _ _) symbols
  · obtain none | wql := likes
    · exact .inl (Nat.eq_zero_of_add_eq_zero_right none)
    · exact .inr wql

theorem Settles.allowed {dialect : Dialect} {code : Nat} {a b : List Nat} {x y : Load}
    (chain : Settles code a x b y) (h : y.Allowed dialect) : x.Allowed dialect := by
  induction chain with
  | refl => exact h
  | reduce rule _ _ _ _ ih => exact (ih h).of_add

/-! ## Actions -/

/-- The object holds as much as the load says. -/
def Parsed.Holds (query : Parsed R) (load : Load) : Prop :=
  query.properties.length = load.properties ∧ query.symbols.length = load.symbols

/-- An action adds to the object what `added` says, and aborts if that is too much. -/
def Records (dialect : Dialect) (load added : Load) (outcome : Option (Parsed R)) : Prop :=
  ((load + added).Allowed dialect →
    ∃ result, outcome = some result ∧ result.Holds (load + added)) ∧
  (load.Allowed dialect → ¬(load + added).Allowed dialect → outcome = none)

section Actions

variable {dialect : Dialect} {query : Parsed R} {load : Load}

theorem records_nothing {result : Parsed R} (holds : result.Holds load) :
    Records dialect load .zero (some result) :=
  ⟨fun _ => ⟨result, rfl, holds⟩, fun allowed refused => absurd allowed refused⟩

/-- LIKE is refused in the other dialect whatever the limits are. -/
theorem unsupported_records (unsupported : dialect ≠ .wql) :
    Records dialect load ⟨0, 3, 1⟩ (none : Option (Parsed R)) := by
  refine ⟨fun allowed => ?_, fun _ _ => rfl⟩
  obtain impossible | wql := allowed.2.2
  · exact absurd impossible (Nat.succ_ne_zero _)
  · exact absurd wql unsupported

section

variable (holds : query.Holds load)
include holds

theorem addProperty_records (name : ZString) :
    Records dialect load ⟨1, 0, 0⟩ (query.addProperty name) := by
  rw [Parsed.addProperty, holds.1]
  constructor
  · rintro ⟨properties, -⟩
    have room : load.properties ≠ maxProperties := Nat.ne_of_lt properties
    refine ⟨_, if_neg room, ?_, holds.2⟩
    simp only [length_append, length_singleton, holds.1, Load.properties_add]
  · intro allowed refused
    refine if_pos ?_
    by_contra room
    exact refused ⟨Nat.lt_of_le_of_ne allowed.1 room, allowed.2⟩

theorem pushOperator_records (operator : Symbol R) :
    Records dialect load ⟨0, 1, 0⟩ (query.setSymbols (pushOperator operator query.symbols)) := by
  rw [Parsed.setSymbols, pushOperator, holds.2]
  constructor
  · rintro ⟨-, symbols, -⟩
    have room : load.symbols ≠ maxSymbols := Nat.ne_of_lt symbols
    rw [if_neg room]
    refine ⟨_, rfl, holds.1, ?_⟩
    simp only [length_append, length_singleton, holds.2, Load.symbols_add]
  · intro allowed refused
    have full : load.symbols = maxSymbols := by
      by_contra room
      exact refused ⟨allowed.1, Nat.lt_of_le_of_ne allowed.2.1 room, allowed.2.2⟩
    rw [if_pos full]
    rfl

theorem pushPredicate_records (lhs rhs operator : Symbol R)
    {likes : Nat} (supported : likes = 0 ∨ dialect = .wql) :
    Records dialect load ⟨0, 3, likes⟩
      (query.setSymbols (pushPredicate lhs rhs operator query.symbols)) := by
  rw [Parsed.setSymbols, pushPredicate, holds.2]
  constructor
  · rintro ⟨-, symbols, -⟩
    have room : ¬maxSymbols < load.symbols + 3 := Nat.not_lt.mpr symbols
    rw [if_neg room]
    refine ⟨_, rfl, holds.1, ?_⟩
    simp only [length_append, length_cons, length_nil, holds.2, Load.symbols_add]
  · intro allowed refused
    have full : maxSymbols < load.symbols + 3 := by
      by_contra room
      refine refused ⟨allowed.1, Nat.not_lt.mp room, ?_⟩
      obtain rfl | wql := supported
      · exact allowed.2.2
      · exact .inr wql
    rw [if_pos full]
    rfl

/-- Every action records what `Load.ofRule` says. -/
theorem act_records (mark : Nat → Yystype R) (yyval : Yystype R) (rule : Nat) :
    Records dialect load (Load.ofRule rule) ((act dialect mark yyval query rule).map Prod.snd) := by
  have only : ∀ outcome : Option (Parsed R),
      (outcome.map fun query => (yyval, query)).map Prod.snd = outcome := by
    intro outcome
    cases outcome <;> rfl
  have comparison : ∀ operator : Symbol R,
      Records dialect load ⟨0, 3, 0⟩ (query.addComparison mark operator) :=
    fun operator => pushPredicate_records holds _ _ operator (.inl rfl)
  fun_cases act dialect mark yyval query rule
  case case1 | case2 => exact records_nothing holds
  case case3 | case4 => exact only _ ▸ addProperty_records holds _
  case case5 | case6 | case7 => exact only _ ▸ pushOperator_records holds _
  case case8 | case9 | case10 | case11 | case12 | case13 => exact only _ ▸ comparison _
  case case14 unsupported => exact unsupported_records unsupported
  case case15 supported =>
      exact only _ ▸ pushPredicate_records holds _ _ _ (.inr (not_not.mp supported))
  case case16 => exact only _ ▸ pushPredicate_records holds _ _ _ (.inl rfl)
  case case26 =>
      have nothing : Load.ofRule rule = .zero := by
        fun_cases Load.ofRule rule <;> first | rfl | contradiction
      rw [nothing]
      exact records_nothing holds
  all_goals exact records_nothing holds

end

end Actions

/-! ## Turns -/

/-- The number the driver reads from a text, and what is left of it. -/
def lookahead (prims : Prims R) (text : List UInt8) : Nat × List UInt8 :=
  match wqllex prims text with
  | .token kind _ rest => (kind.code, rest)
  | .eof | .failed => (0, text)

/-- The text that the parser has still to look at, whether or not it has read the next
token. -/
def Parser.Sees (prims : Prims R) (p : Parser R) (text : List UInt8) : Prop :=
  (p.yychar = none ∧ p.ptr = text) ∨
    (p.yychar = some (lookahead prims text).1 ∧ p.ptr = (lookahead prims text).2)

/-- The parser has these states and as much recorded, within the limits. -/
structure Parser.Stands (prims : Prims R) (dialect : Dialect) (p : Parser R)
    (text : List UInt8) (states : List Nat) (load : Load) : Prop where
  states_eq : p.states = states
  nonempty : states ≠ []
  fits : states.length ≤ yymaxdepth
  sees : p.Sees prims text
  holds : p.query.Holds load
  allowed : load.Allowed dialect

namespace Parser

variable {prims : Prims R} {dialect : Dialect} {p q : Parser R} {text : List UInt8}
  {states : List Nat} {load : Load}

theorem Sees.look (sees : p.Sees prims text) :
    (p.look prims).yychar = some (lookahead prims text).1 ∧
      (p.look prims).ptr = (lookahead prims text).2 := by
  obtain ⟨empty, rfl⟩ | ⟨full, rest⟩ := sees
  · unfold Parser.look lookahead
    rw [empty]
    cases wqllex prims p.ptr <;> exact ⟨rfl, rfl⟩
  · unfold Parser.look
    rw [full]
    exact ⟨full, rest⟩

theorem look_states : (p.look prims).states = p.states := by
  unfold look
  split
  · rfl
  · split <;> rfl

theorem look_query : (p.look prims).query = p.query := by
  unfold look
  split
  · rfl
  · split <;> rfl

theorem reduceStates_length {rule : Nat} (positive : 1 ≤ yylen.getD rule 0)
    (nonempty : states ≠ []) : (reduceStates states rule).length ≤ states.length := by
  have : 0 < states.length := length_pos_of_ne_nil nonempty
  rw [reduceStates, length_cons, length_drop]
  omega

section

variable (stands : p.Stands prims dialect text states load)
include stands

/-- Reading the next token changes nothing else. -/
theorem Stands.look : (p.look prims).Stands prims dialect text states load where
  states_eq := look_states.trans stands.states_eq
  nonempty := stands.nonempty
  fits := stands.fits
  sees := .inr stands.sees.look
  holds := by
    rw [look_query]
    exact stands.holds
  allowed := stands.allowed

/-- A turn does what the tables say, after reading a token if they ask for one. -/
theorem Stands.step_eq :
    match actionOf (states.headD 0) (lookahead prims text).1 with
    | .shift target => p.step prims dialect = (p.look prims).shift target
    | .reduce rule => ∃ q : Parser R, q.Stands prims dialect text states load ∧
        p.step prims dialect = q.reduce prims dialect rule
    | .error => p.step prims dialect = .abort := by
  unfold step actionOf
  rw [stands.states_eq]
  by_cases quiet : yydefred.getD (states.headD 0) 0 ≠ 0
  · rw [if_pos quiet, if_pos quiet]
    exact ⟨p, stands, rfl⟩
  · rw [if_neg quiet, if_neg quiet]
    simp only [stands.sees.look.1, getD_some]
    cases shiftOf (states.headD 0) (lookahead prims text).1 with
    | some target => rfl
    | none =>
      cases reduceOf (states.headD 0) (lookahead prims text).1 with
      | some rule => exact ⟨_, stands.look, rfl⟩
      | none => rfl

/-- A reduction, other than to `Start`, within or beyond the limits. -/
theorem Stands.reduce {rule : Nat}
    (positive : 1 ≤ yylen.getD rule 0) (inner : yylhs.getD rule (-1) ≠ 0) :
    ((load + Load.ofRule rule).Allowed dialect →
      ∃ q : Parser R, p.reduce prims dialect rule = .next q ∧
        q.Stands prims dialect text (reduceStates states rule) (load + Load.ofRule rule)) ∧
    (¬(load + Load.ofRule rule).Allowed dialect → p.reduce prims dialect rule = .abort) := by
  have records := @act_records R dialect p.query load stands.holds
    (fun i => p.values.getD i .unset) (p.values.getD (yylen.getD rule 0 - 1) .unset) rule
  constructor
  · intro allowed
    obtain ⟨result, mapped, holds⟩ := records.1 allowed
    obtain ⟨⟨value, query⟩, acted, rfl⟩ := map_eq_some_iff.mp mapped
    have shorter := reduceStates_length positive stands.nonempty
    have room : ¬yymaxdepth ≤ (states.drop (yylen.getD rule 0)).length := by
      have fits := stands.fits
      rw [reduceStates, length_cons] at shorter
      omega
    refine ⟨{ p with
      states := reduceStates states rule
      values := value :: p.values.drop (yylen.getD rule 0)
      query := query }, ?_, rfl, cons_ne_nil _ _, Nat.le_trans shorter stands.fits,
      stands.sees, holds, allowed⟩
    simp only [Parser.reduce, acted, stands.states_eq, inner, and_false, if_false, Parser.push,
      room]
    rfl
  · intro refused
    have acted := map_eq_none_iff.mp (records.2 stands.allowed refused)
    simp only [Parser.reduce, acted]

/-- A reduction to `Start` at the end of the text. -/
theorem Stands.accept {rule : Nat}
    (atEnd : (lookahead prims text).1 = 0) (isStart : yylhs.getD rule (-1) = 0)
    (bottom : states.drop (yylen.getD rule 0) = [0]) (quiet : Load.ofRule rule = .zero) :
    ∃ query : Parsed R, p.reduce prims dialect rule = .accept query := by
  have records := @act_records R dialect p.query load stands.holds
    (fun i => p.values.getD i .unset) (p.values.getD (yylen.getD rule 0 - 1) .unset) rule
  rw [quiet] at records
  obtain ⟨result, mapped, -⟩ := records.1 stands.allowed
  obtain ⟨⟨value, query⟩, acted, rfl⟩ := map_eq_some_iff.mp mapped
  refine ⟨query, ?_⟩
  have seen : ∀ (states : List Nat) (values : List (Yystype R)), (Parser.look prims
      { p with states := states, values := values, query := query }).yychar = some 0 := by
    intro states values
    have sees : Parser.Sees prims
        { p with states := states, values := values, query := query } text := stands.sees
    rw [sees.look.1, atEnd]
  simp only [Parser.reduce, acted, stands.states_eq, bottom, isStart, headD_cons, and_self,
    if_true, seen]

end

/-! ## Chains and tokens -/

/-- The driver gets from one state to another. -/
inductive Reaches (prims : Prims R) (dialect : Dialect) : Parser R → Parser R → Prop
  | refl {p : Parser R} : Reaches prims dialect p p
  | next {p q r : Parser R} : p.step prims dialect = .next q → Reaches prims dialect q r →
      Reaches prims dialect p r

theorem Reaches.runs {result : Option (Parsed R)} (reaches : Reaches prims dialect p q)
    (runs : Runs prims dialect q result) : Runs prims dialect p result := by
  induction reaches with
  | refl => exact runs
  | next step _ ih => exact .next step (ih runs)

theorem Reaches.trans {r : Parser R} (first : Reaches prims dialect p q)
    (second : Reaches prims dialect q r) : Reaches prims dialect p r := by
  induction first with
  | refl => exact second
  | next step _ ih => exact .next step (ih second)

/-- A chain of reductions is carried out, or aborted if it leaves the limits. -/
theorem settles_run {settled : List Nat} {finalLoad : Load}
    (chain : Settles (lookahead prims text).1 states load settled finalLoad) :
    ∀ {p : Parser R}, p.Stands prims dialect text states load →
    (finalLoad.Allowed dialect → ∃ q : Parser R, Reaches prims dialect p q ∧
      q.Stands prims dialect text settled finalLoad) ∧
    (¬finalLoad.Allowed dialect → Runs prims dialect p none) := by
  induction chain with
  | refl =>
    intro p stands
    exact ⟨fun _ => ⟨p, .refl, stands⟩, fun refused => absurd stands.allowed refused⟩
  | @reduce states settled load finalLoad rule action positive inner rest ih =>
    intro p stands
    have turn := stands.step_eq
    rw [action] at turn
    obtain ⟨q, stands, turn⟩ := turn
    obtain ⟨succeeds, fails⟩ := stands.reduce positive inner
    by_cases allowed : (load + Load.ofRule rule).Allowed dialect
    · obtain ⟨r, next, stands⟩ := succeeds allowed
      obtain ⟨reaches, aborts⟩ := ih stands
      refine ⟨fun final => ?_, fun refused => .next (turn.trans next) (aborts refused)⟩
      obtain ⟨s, steps, stands⟩ := reaches final
      exact ⟨s, .next (turn.trans next) steps, stands⟩
    · exact ⟨fun final => absurd (rest.allowed final) allowed,
        fun _ => .abort (turn.trans (fails allowed))⟩

/-- The tables refuse the next token, if the limits did not end the parse before. -/
theorem refused_run {settled : List Nat} {finalLoad : Load}
    (chain : Settles (lookahead prims text).1 states load settled finalLoad)
    (action : actionOf (settled.headD 0) (lookahead prims text).1 = .error)
    (stands : p.Stands prims dialect text states load) : Runs prims dialect p none := by
  obtain ⟨reaches, aborts⟩ := settles_run chain stands
  by_cases allowed : finalLoad.Allowed dialect
  · obtain ⟨q, steps, stands⟩ := reaches allowed
    have turn := stands.step_eq
    rw [action] at turn
    exact steps.runs (.abort turn)
  · exact aborts allowed

/-- One more token: the parser stands at the next track if that is within the limits,
and rejects the text otherwise. -/
theorem feed_run {t : Track} {k : Kind} {value : Yystype R} {rest : List UInt8}
    (valid : t.Valid) (lexed : wqllex prims text = .token k value rest)
    (stands : p.Stands prims dialect text t.states t.load) :
    (∃ u : Track, t.feed k = some u ∧ u.load.Allowed dialect ∧ u.states.length ≤ yymaxdepth ∧
      ∃ q : Parser R, Reaches prims dialect p q ∧ q.Stands prims dialect rest u.states u.load) ∨
    ((∀ u : Track, t.feed k = some u → u.load.Allowed dialect → yymaxdepth < u.states.length) ∧
      Runs prims dialect p none) := by
  have code : (lookahead prims text).1 = k.code := by rw [lookahead, lexed]
  have behind : (lookahead prims text).2 = rest := by rw [lookahead, lexed]
  have moves := feed_moves valid k
  cases fed : t.feed k with
  | none =>
    rw [fed] at moves
    obtain ⟨settled, finalLoad, chain, action⟩ := moves
    rw [← code] at chain action
    exact .inr ⟨fun u impossible => absurd impossible (some_ne_none u).symm,
      refused_run chain action stands⟩
  | some u =>
    rw [fed] at moves
    obtain ⟨settled, target, chain, action, shape⟩ := moves
    rw [← code] at chain action
    obtain ⟨reaches, aborts⟩ := settles_run chain stands
    by_cases allowed : u.load.Allowed dialect
    · obtain ⟨q, steps, stands⟩ := reaches allowed
      have turn := stands.step_eq
      rw [action] at turn
      by_cases room : yymaxdepth ≤ settled.length
      · refine .inr ⟨?_, steps.runs (.abort ?_)⟩
        · rintro v same -
          cases same
          rw [shape]
          exact Nat.lt_succ_of_le room
        · rw [turn, shift, push, stands.look.states_eq, if_pos room]
      · refine .inl ⟨u, rfl, allowed, ?_, ?_⟩
        · rw [shape]
          exact Nat.lt_of_not_le room
        · refine ⟨{ q.look prims with
            states := target :: settled
            values := (q.look prims).yylval :: (q.look prims).values
            yychar := none }, steps.trans (.next ?_ .refl), ?_⟩
          · rw [turn, shift, push, stands.look.states_eq, if_neg room]
          · refine ⟨shape.symm, ?_, ?_, .inl ⟨rfl, ?_⟩, stands.look.holds, allowed⟩
            · rw [shape]
              exact cons_ne_nil _ _
            · rw [shape]
              exact Nat.lt_of_not_le room
            · exact stands.sees.look.2.trans behind
    · refine .inr ⟨fun v same permitted => ?_, aborts allowed⟩
      cases same
      exact absurd permitted allowed

/-- The end of the text: the parser accepts if the query is complete and within the
limits. -/
theorem finish_run {t : Track} (valid : t.Valid) (code : (lookahead prims text).1 = 0)
    (stands : p.Stands prims dialect text t.states t.load) :
    (∃ final, t.finish = some final ∧ final.Allowed dialect ∧
      ∃ query : Parsed R, Runs prims dialect p (some query)) ∨
    ((∀ final, t.finish = some final → ¬final.Allowed dialect) ∧ Runs prims dialect p none) := by
  have ends := finish_ends valid
  cases finished : t.finish with
  | none =>
    rw [finished] at ends
    obtain ⟨settled, finalLoad, chain, action⟩ := ends
    rw [← code] at chain
    refine .inr ⟨fun final impossible => absurd impossible (some_ne_none final).symm, ?_⟩
    exact refused_run chain (code.symm ▸ action) stands
  | some final =>
    rw [finished] at ends
    obtain ⟨settled, rule, chain, action, isStart, bottom, quiet⟩ := ends
    rw [← code] at chain
    obtain ⟨reaches, aborts⟩ := settles_run chain stands
    by_cases allowed : final.Allowed dialect
    · obtain ⟨q, steps, stands⟩ := reaches allowed
      have turn := stands.step_eq
      rw [code, action] at turn
      obtain ⟨r, stands, turn⟩ := turn
      obtain ⟨query, accepted⟩ := stands.accept code isStart bottom quiet
      exact .inl ⟨final, rfl, allowed, query, steps.runs (.accept (turn.trans accepted))⟩
    · refine .inr ⟨fun other same => ?_, aborts allowed⟩
      cases same
      exact allowed

end Parser

end Omi.Wql
