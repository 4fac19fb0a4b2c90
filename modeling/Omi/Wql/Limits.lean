import Omi.Wql.Driver

/-!
# What a query costs

A track that reads a sequence of tokens to its end has recorded an amount that the
tokens determine (`totals`): the names of the select list, and the symbols of the
condition. Whether it gets to the end is decided by `recognises`. `passes_iff` puts the
two together with the depth of the stack.
-/

namespace Omi.Wql

open List Option Load

/-- The symbols that a token contributes to the program of the condition. -/
def Kind.symbols : Kind → Nat
  | eq | ne | lt | le | gt | ge | like | isa => 3
  | not | and | or => 1
  | _ => 0

/-- What the actions record for a whole query: the names before FROM, the symbols of the
condition, and how many of its comparisons are LIKE. -/
def totals (ks : List Kind) : Load where
  properties := (ks.takeWhile (· ≠ .fromWord)).count .identifier
  symbols := (ks.map Kind.symbols).sum
  likes := ks.count .like

namespace Track

/-- The most entries that the stack has while the tokens are read. -/
def need : Track → List Kind → Nat
  | t, [] => t.states.length
  | t, k :: ks =>
    max t.states.length (match t.feed k with | some u => u.need ks | none => 0)

/-- The track before the first token. -/
def origin : Track := ⟨.start, [], .zero⟩

/-- The whole sequence is read within the limits. -/
def Passes (dialect : Dialect) : Track → List Kind → Prop
  | t, [] => ∃ final, t.finish = some final ∧ final.Allowed dialect
  | t, k :: ks => ∃ u, t.feed k = some u ∧ u.load.Allowed dialect ∧
      u.states.length ≤ yymaxdepth ∧ u.Passes dialect ks

/-! ## Reading, without frames -/

variable {fs : List Frame}

theorem openParens_paren : openParens (.paren :: fs) = openParens fs + 1 := count_cons_self

theorem settle_resume (k : Kind) : ∀ load,
    (settle fs load k).map (fun u => (u.spot, openParens u.frames)) = resume (openParens fs) k := by
  induction fs with
  | nil =>
    intro load
    cases k <;> rfl
  | cons f fs ih =>
    intro load
    cases f with
    | paren =>
      rw [openParens_paren]
      cases k <;> first | rfl | exact congrArg (fun n => some (Spot.condition, n)) openParens_paren
    | not | and => exact ih _
    | or =>
      rw [settle]
      split_ifs with isAnd reduces
      · rw [isAnd]
        rfl
      · exact ih _
      · have other : ¬(k = .or ∨ k = .and ∨ k = .rightParen) := by
          rintro (isOr | rest | isClose)
          · exact reduces (.inl isOr)
          · exact isAnd rest
          · exact reduces (.inr isClose)
        have inner := ih load
        rw [settle_eq_none other] at inner
        exact inner

/-- Only the number of open parentheses matters for what may follow. -/
theorem feed_advance (t : Track) (k : Kind) :
    (t.feed k).map (fun u => (u.spot, openParens u.frames)) =
      advance t.spot (openParens t.frames) k := by
  obtain ⟨spot, fs, load⟩ := t
  have plain : ∀ spot : Spot, (∀ opened, advance spot opened k =
        (advance spot 0 k).map fun next => (next.1, opened)) →
      ((advance spot 0 k).map fun next : Spot × Nat =>
        (⟨next.1, fs, load + leaving spot⟩ : Track)).map
          (fun u => (u.spot, openParens u.frames)) = advance spot (openParens fs) k := by
    intro spot uniform
    rw [uniform (openParens fs), Option.map_map]
    rfl
  cases spot with
  | condition =>
    simp only [feed, advance]
    split_ifs with isNot isOpen
    · rfl
    · exact congrArg (fun n => some (Spot.condition, n)) openParens_paren
    · rw [Option.map_map]
      rfl
  | right op part =>
    simp only [feed, advance]
    cases part.next k with
    | some more => rfl
    | none =>
      cases part.complete with
      | true => exact settle_resume k _
      | false => rfl
  | isaName | closed => exact settle_resume k _
  | left part =>
    refine plain _ fun opened => ?_
    simp only [advance]
    cases part.next k with
    | some more => rfl
    | none => split_ifs <;> rfl
  | compare op =>
    refine plain _ fun opened => ?_
    simp only [advance, Option.map_map]
    rfl
  | _ =>
    refine plain _ fun opened => ?_
    simp only [advance]
    split_ifs <;> rfl

theorem settleEnd_isSome : ∀ load,
    (settleEnd fs load).isSome = (openParens fs == 0) := by
  induction fs with
  | nil =>
    intro load
    rfl
  | cons f fs ih =>
    intro load
    cases f with
    | paren =>
      rw [openParens_paren]
      rfl
    | not | and | or => exact ih _

theorem finish_isSome (t : Track) : t.finish.isSome = t.spot.final (openParens t.frames) := by
  obtain ⟨spot, fs, load⟩ := t
  cases spot with
  | right op part =>
    simp only [finish, Spot.final]
    cases part.complete with
    | true =>
      rw [Bool.true_and]
      exact settleEnd_isSome _
    | false => rfl
  | isaName | closed => exact settleEnd_isSome _
  | _ => rfl

/-! ## What has been recorded -/

/-- FROM has not been read yet. -/
def early : Spot → Bool
  | .start | .select | .star | .first | .comma | .listed => true
  | _ => false

/-- What a token contributes, before or after FROM. -/
def tokenLoad (beforeFrom : Bool) (k : Kind) : Load :=
  ⟨if beforeFrom ∧ k = .identifier then 1 else 0, k.symbols, if k = .like then 1 else 0⟩

/-- The operators of the open frames, whose actions are still to come. -/
def pendingFrames (fs : List Frame) : Nat := fs.countP (· ≠ .paren)

/-- What has been read but is not recorded yet. -/
def pending (t : Track) : Load :=
  match t.spot with
  | .first | .listed => ⟨1, pendingFrames t.frames, 0⟩
  | .compare op | .right op _ => ⟨0, pendingFrames t.frames, 0⟩ + comparison op
  | .isa | .isaName => ⟨0, pendingFrames t.frames + 3, 0⟩
  | _ => ⟨0, pendingFrames t.frames, 0⟩

theorem pendingFrames_paren (fs : List Frame) :
    pendingFrames (.paren :: fs) = pendingFrames fs := by
  simp [pendingFrames]

theorem pendingFrames_operator {f : Frame} (operator : f ≠ .paren) (fs : List Frame) :
    pendingFrames (f :: fs) = pendingFrames fs + 1 := by
  simp [pendingFrames, operator]

/-- The action of the innermost operator moves its symbol from pending to recorded. -/
theorem load_operator (load added : Load) {f : Frame} (operator : f ≠ .paren) (fs : List Frame) :
    load + ⟨0, 1, 0⟩ + ⟨0, pendingFrames fs, 0⟩ + added =
      load + ⟨0, pendingFrames (f :: fs), 0⟩ + added := by
  rw [pendingFrames_operator operator]
  ext
  · rfl
  · simp only [symbols_add]
    omega
  · rfl

/-- What one more token does to what has been recorded or is pending. -/
structure Grows (t : Track) (k : Kind) (u : Track) : Prop where
  load : u.load + u.pending = t.load + t.pending + tokenLoad (early t.spot) k
  phase : early u.spot = (early t.spot && k ≠ .fromWord)
  valid : t.Valid → u.Valid

variable {k : Kind} {u t : Track}

/-- A connective opens a frame, whose operator is pending. -/
theorem grows_connective {load : Load} {f : Frame}
    (which : k = .or ∧ f = .or ∨ k = .and ∧ f = .and) (fs : List Frame) :
    Grows ⟨.closed, fs, load⟩ k ⟨.condition, f :: fs, load⟩ := by
  have operator : f ≠ .paren := by
    obtain ⟨-, rfl⟩ | ⟨-, rfl⟩ := which <;> exact nofun
  have contributes : tokenLoad false k = ⟨0, 1, 0⟩ := by
    obtain ⟨rfl, -⟩ | ⟨rfl, -⟩ := which <;> rfl
  refine ⟨?_, rfl, fun _ => trivial⟩
  simp only [early, contributes, pending, pendingFrames_operator operator]
  ext
  · rfl
  · simp only [symbols_add]
    omega
  · rfl

/-- The action of the innermost operator moves its symbol from pending to recorded. -/
theorem Grows.operator {load : Load} {f : Frame} {fs : List Frame}
    (grows : Grows ⟨.closed, fs, load + ⟨0, 1, 0⟩⟩ k u) (operator : f ≠ .paren) :
    Grows ⟨.closed, f :: fs, load⟩ k u :=
  ⟨grows.load.trans (load_operator load _ operator fs), grows.phase, grows.valid⟩

theorem settle_grows (fs : List Frame) : ∀ {load : Load},
    settle fs load k = some u → Grows ⟨.closed, fs, load⟩ k u := by
  induction fs with
  | nil =>
    intro load h
    rw [settle] at h
    split_ifs at h with isOr isAnd
    · cases h
      exact grows_connective (.inl ⟨isOr, rfl⟩) []
    · cases h
      exact grows_connective (.inr ⟨isAnd, rfl⟩) []
  | cons f fs ih =>
    intro load h
    cases f with
    | paren =>
      rw [settle] at h
      split_ifs at h with isClose isOr isAnd
      · cases h
        refine ⟨?_, rfl, fun _ => trivial⟩
        rw [isClose]
        simp only [pending, pendingFrames_paren]
        rfl
      · cases h
        exact grows_connective (.inl ⟨isOr, rfl⟩) _
      · cases h
        exact grows_connective (.inr ⟨isAnd, rfl⟩) _
    | not | and => exact (ih h).operator (by simp)
    | or =>
      rw [settle] at h
      split_ifs at h with isAnd reduces
      · cases h
        exact grows_connective (.inr ⟨isAnd, rfl⟩) _
      · exact (ih h).operator (by simp)

/-- The action of a complete comparison moves its symbols from pending to recorded. -/
theorem Grows.compared {spot : Spot} {load added : Load} {fs : List Frame}
    (grows : Grows ⟨.closed, fs, load + added⟩ k u) (late : early spot = false)
    (waits : (⟨spot, fs, load⟩ : Track).pending = ⟨0, pendingFrames fs, 0⟩ + added) :
    Grows ⟨spot, fs, load⟩ k u := by
  refine ⟨grows.load.trans ?_, ?_, fun _ => grows.valid trivial⟩
  · rw [waits, late]
    ext <;> simp only [pending, early, properties_add, symbols_add, likes_add]
      <;> omega
  · rw [late]
    exact grows.phase

/-- Tokens inside an operand contribute nothing by themselves. -/
theorem tokenLoad_first {part : Part} (h : Part.first k = some part) :
    tokenLoad false k = .zero := by
  obtain ⟨literal, -⟩ | ⟨rfl, -⟩ := Part.first_eq_some h
  · cases k <;> first | rfl | cases literal
  · rfl

theorem tokenLoad_next {part more : Part} (h : part.next k = some more) :
    tokenLoad false k = .zero := by
  revert h
  fun_cases Part.next part k <;> intro h
  all_goals first | rfl | exact absurd h (some_ne_none more).symm

theorem tokenLoad_comparison (h : k.isComparison = true) : tokenLoad false k = comparison k := by
  cases k <;> first | rfl | cases h

/-- What is recorded or pending grows by what each token contributes. -/
theorem feed_grows (h : t.feed k = some u) : t.Grows k u := by
  obtain ⟨spot, fs, load⟩ := t
  cases spot with
  | condition =>
    simp only [feed] at h
    split_ifs at h with isNot isOpen
    · cases h
      refine ⟨?_, rfl, id⟩
      rw [isNot]
      simp only [pending, pendingFrames_operator (f := .not) (by simp)]
      rfl
    · cases h
      refine ⟨?_, rfl, id⟩
      rw [isOpen]
      simp only [pending, pendingFrames_paren]
      rfl
    · obtain ⟨part, first, rfl⟩ := Option.map_eq_some_iff.mp h
      refine ⟨?_, rfl, fun _ => (Part.valid_first first).1⟩
      change _ = _ + tokenLoad false k
      rw [tokenLoad_first first]
      rfl
  | left part =>
    simp only [feed, advance] at h
    cases next : part.next k with
    | some more =>
      rw [next] at h
      cases h
      refine ⟨?_, rfl, fun _ => (Part.valid_next next).1⟩
      change _ = _ + tokenLoad false k
      rw [tokenLoad_next next]
      rfl
    | none =>
      rw [next] at h
      split_ifs at h with compared isa
      · cases h
        rw [Bool.and_eq_true] at compared
        refine ⟨?_, rfl, fun _ => compared.2⟩
        change _ = _ + tokenLoad false k
        rw [tokenLoad_comparison compared.2]
        ext
        · rfl
        · simp only [pending, leaving, add_zero, symbols_add]
          omega
        · simp only [pending, leaving, add_zero, likes_add]
          omega
      · cases h
        refine ⟨?_, rfl, fun _ => trivial⟩
        rw [isa.2]
        rfl
      · exact absurd h (Option.some_ne_none u).symm
  | compare op =>
    simp only [feed, advance, Option.map_map] at h
    obtain ⟨part, first, rfl⟩ := Option.map_eq_some_iff.mp h
    refine ⟨?_, rfl, fun valid => ⟨valid, (Part.valid_first first).1⟩⟩
    change _ = _ + tokenLoad false k
    rw [tokenLoad_first first]
    rfl
  | right op part =>
    simp only [feed] at h
    cases next : part.next k with
    | some more =>
      rw [next] at h
      cases h
      refine ⟨?_, rfl, fun valid => ⟨valid.1, (Part.valid_next next).1⟩⟩
      change _ = _ + tokenLoad false k
      rw [tokenLoad_next next]
      rfl
    | none =>
      rw [next] at h
      split_ifs at h with complete
      exact (settle_grows fs h).compared rfl rfl
  | isaName => exact (settle_grows fs h).compared rfl rfl
  | closed => exact settle_grows fs h
  | _ =>
    simp only [feed, advance] at h
    split_ifs at h
    all_goals first
      | exact absurd h (Option.some_ne_none u).symm
      | (cases h
         simp_all only
         exact ⟨rfl, rfl, fun valid => by first | exact trivial | exact valid⟩)

theorem settleEnd_load {final : Load} : ∀ {load : Load},
    settleEnd fs load = some final → final = load + ⟨0, pendingFrames fs, 0⟩ := by
  induction fs with
  | nil =>
    intro load h
    exact (Option.some.inj h).symm
  | cons f fs ih =>
    intro load h
    cases f with
    | paren => exact absurd h (some_ne_none final).symm
    | not => exact (ih h).trans (@load_operator load .zero .not nofun fs)
    | and => exact (ih h).trans (@load_operator load .zero .and nofun fs)
    | or => exact (ih h).trans (@load_operator load .zero .or nofun fs)

theorem finish_load {final : Load} (h : t.finish = some final) (valid : t.Valid) :
    final = t.load + t.pending := by
  obtain ⟨spot, fs, load⟩ := t
  cases spot with
  | className =>
    obtain rfl : fs = [] := valid
    exact (Option.some.inj h).symm
  | right op part =>
    simp only [finish] at h
    split_ifs at h with complete
    rw [settleEnd_load h]
    ext
    · rfl
    · simp only [pending, symbols_add]
      omega
    · simp only [pending, likes_add]
      omega
  | isaName =>
    rw [settleEnd_load h]
    ext
    · rfl
    · simp only [pending, symbols_add]
      omega
    · rfl
  | closed => exact settleEnd_load h
  | _ => exact absurd h (some_ne_none final).symm

/-! ## Whole sequences -/

/-- What is recorded or pending is what the tokens read so far contribute. -/
def Counts (t : Track) (read : List Kind) : Prop :=
  t.load + t.pending = totals read ∧ (early t.spot = true ↔ .fromWord ∉ read)

theorem totals_concat (read : List Kind) :
    totals (read ++ [k]) = totals read + tokenLoad (decide (.fromWord ∉ read)) k := by
  have names : ((read ++ [k]).takeWhile (· ≠ .fromWord)).count .identifier =
      (read.takeWhile (· ≠ .fromWord)).count .identifier +
        (tokenLoad (decide (.fromWord ∉ read)) k).properties := by
    by_cases early : Kind.fromWord ∈ read
    · have stops : ((read ++ [k]).takeWhile (· ≠ .fromWord)) = read.takeWhile (· ≠ .fromWord) := by
        rw [takeWhile_append]
        refine if_neg fun whole => ?_
        have same := takeWhile_prefix (· ≠ Kind.fromWord) (l := read) |>.eq_of_length whole
        have bad := mem_takeWhile_imp (same.symm ▸ early : Kind.fromWord ∈ _)
        exact absurd bad (by decide)
      rw [stops]
      simp [tokenLoad, early]
    · have whole : read.takeWhile (· ≠ .fromWord) = read := by
        refine takeWhile_eq_self_iff.mpr fun x inside => ?_
        simpa using fun same : x = .fromWord => early (same ▸ inside)
      rw [takeWhile_append, whole, if_pos rfl, count_append]
      cases k <;> simp [tokenLoad, early]
  ext
  · exact names
  · simp only [totals, map_append, sum_append, symbols_add, tokenLoad,
      map_cons, map_nil, sum_cons, sum_nil, Nat.add_zero]
  · simp only [totals, count_append, likes_add, tokenLoad]
    cases k <;> rfl

theorem Counts.feed {read : List Kind} (counts : t.Counts read) (h : t.feed k = some u) :
    u.Counts (read ++ [k]) := by
  obtain ⟨load, phase⟩ := counts
  have same : early t.spot = decide (.fromWord ∉ read) := by
    by_cases absent : Kind.fromWord ∉ read
    · rw [phase.mpr absent, decide_eq_true absent]
    · rw [decide_eq_false absent]
      exact Bool.eq_false_iff.mpr fun isEarly => absent (phase.mp isEarly)
  constructor
  · rw [(feed_grows h).load, load, totals_concat, same]
  · rw [(feed_grows h).phase, Bool.and_eq_true, phase, decide_eq_true_iff, mem_append,
      mem_singleton, not_or]
    exact and_congr_right fun _ => ne_comm

theorem totals_append (read ks : List Kind) : ∃ more, totals (read ++ ks) = totals read + more := by
  induction ks generalizing read with
  | nil => exact ⟨.zero, by rw [append_nil]; rfl⟩
  | cons k ks ih =>
    obtain ⟨more, rest⟩ := ih (read ++ [k])
    refine ⟨tokenLoad (decide (.fromWord ∉ read)) k + more, ?_⟩
    rw [append_assoc, singleton_append, totals_concat] at rest
    rw [rest]
    ext <;> simp only [properties_add, symbols_add, likes_add] <;> omega

/-- A track gets through the tokens exactly if they are recognised, what they record is
within the limits and the stack is deep enough. -/
theorem passes_iff {dialect : Dialect} (ks : List Kind) : ∀ {t : Track} {read : List Kind},
    t.Valid → t.Counts read → t.states.length ≤ yymaxdepth →
    (t.Passes dialect ks ↔ recognises t.spot (openParens t.frames) ks = true ∧
      (totals (read ++ ks)).Allowed dialect ∧ t.need ks ≤ yymaxdepth) := by
  induction ks with
  | nil =>
    intro t read valid counts fits
    rw [Passes, recognises, ← finish_isSome, append_nil, ← counts.1]
    constructor
    · rintro ⟨final, finished, allowed⟩
      refine ⟨by rw [finished]; rfl, ?_, fits⟩
      exact finish_load finished valid ▸ allowed
    · rintro ⟨finished, allowed, -⟩
      obtain ⟨final, finished⟩ := isSome_iff_exists.mp finished
      exact ⟨final, finished, finish_load finished valid ▸ allowed⟩
  | cons k ks ih =>
    intro t read valid counts fits
    have step := feed_advance t k
    rw [Passes, recognises, ← step, need]
    cases fed : t.feed k with
    | none => simp
    | some u =>
      have uCounts := counts.feed fed
      have uValid := (feed_grows fed).valid valid
      have split : read ++ k :: ks = read ++ [k] ++ ks := by
        rw [append_assoc, singleton_append]
      have shallow : u.states.length ≤ u.need ks := by
        cases ks with
        | nil => exact Nat.le_refl _
        | cons l ls => exact Nat.le_max_left _ _
      simp only [map_some, Option.some.injEq, exists_eq_left']
      rw [split]
      constructor
      · rintro ⟨-, uFits, passes⟩
        obtain ⟨recognised, allowed, deep⟩ := (ih uValid uCounts uFits).mp passes
        exact ⟨recognised, allowed, Nat.max_le.mpr ⟨fits, deep⟩⟩
      · rintro ⟨recognised, allowed, deep⟩
        have deep := (Nat.max_le.mp deep).2
        have uFits := Nat.le_trans shallow deep
        obtain ⟨more, total⟩ := totals_append (read ++ [k]) ks
        have uAllowed : u.load.Allowed dialect := by
          refine Load.Allowed.of_add (b := u.pending) ?_
          rw [uCounts.1]
          exact Load.Allowed.of_add (total ▸ allowed)
        exact ⟨uAllowed, uFits, (ih uValid uCounts uFits).mpr ⟨recognised, allowed, deep⟩⟩

end Track

end Omi.Wql
