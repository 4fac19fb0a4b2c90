import Omi.Xml.Calls
import Omi.Data.Run

/-!
# The nesting counter

A client calls `XML_Next`, `XML_PutBack` for the element it was just given, and
`XML_Skip`. The counter should say how many start tags have been handed over
without their end tags, and `XML_Skip` relies on it.

The counter is raised when a start tag is parsed. It is lowered when an end tag
is parsed, and also whenever an element is taken from the stack of elements. That
is right for the end of an empty tag, whose start raised the counter. It is wrong
for an element that `XML_PutBack` put there, because `XML_PutBack` does not raise
the counter.
-/

namespace Omi.Xml

open List

/-- The calls of a client. -/
inductive Call where
  | next
  | putBack
  | skip
deriving DecidableEq, Repr

/-- The parser and what its client has seen: the number of start tags less the number of end
tags, and the element that the last call returned. -/
structure Client where
  xml : XML
  delivered : Int
  last : Option Elem

/-- The change of depth over a list of elements. -/
def balance (elems : List Elem) : Int := (elems.map Elem.weight).sum

@[simp] theorem balance_nil : balance [] = 0 := rfl

variable {elems : List Elem}

@[simp] theorem balance_cons (elem : Elem) :
    balance (elem :: elems) = elem.weight + balance elems := rfl

/-- A call that reports no error. `XML_PutBack` is for the element just returned, which then
no longer counts as delivered. -/
def step (s : Client) : Call → Option Client
  | .next =>
    match s.xml.next with
    | .error _ => none
    | .ok (none, xml) => some ⟨xml, s.delivered, none⟩
    | .ok (some elem, xml) => some ⟨xml, s.delivered + elem.weight, some elem⟩
  | .putBack =>
    match s.last with
    | none => none
    | some elem =>
      match s.xml.putBack elem with
      | .error _ => none
      | .ok xml => some ⟨xml, s.delivered - elem.weight, none⟩
  | .skip =>
    match s.xml.skip with
    | .error _ => none
    | .ok (elems, xml) => some ⟨xml, s.delivered + balance elems, none⟩

/-- The counter tells the depth at which the client is. -/
def Client.Counted (s : Client) : Prop := (s.xml.nesting.toNat : Int) = s.delivered

/-- Elements up to and including the end tag of the element that is open in front of them. -/
def Closes (elems : List Elem) : Prop :=
  ∃ body last, elems = body ++ [last] ∧ last.type = .endTag ∧ balance body = 0 ∧
    ∀ k, 0 ≤ balance (body.take k)

/-- What a call should do: keep the counter; in the case of `XML_PutBack`, make `XML_Next`
return the same element and restore the parser; in the case of `XML_Skip`, consume the rest
of the element that is open. -/
def Right (s : Client) (call : Call) : Prop :=
  ∀ after, step s call = some after →
    after.Counted ∧
      (call = .putBack → after.xml.next = .ok (s.last, s.xml)) ∧
      (call = .skip → ∀ elems xml, s.xml.skip = .ok (elems, xml) → Closes elems)

/-! ## The invariant -/

/-- Without elements that were put back, at most the end of an empty tag is waiting, and the
counter is the number of open tags and waiting ends. -/
structure Level (xml : XML) : Prop where
  bounded : xml.stack.length ≤ maxNested
  waiting : xml.elemStack = [] ∨ ∃ elem, xml.elemStack = [elem] ∧ elem.weight = -1
  counter : xml.nesting.toNat = xml.stack.length + xml.elemStack.length

theorem toNat_add_one {n : UInt64} (small : n.toNat ≤ maxNested + 1) :
    (n + 1).toNat = n.toNat + 1 := by
  have bound : maxNested = 64 := rfl
  rw [UInt64.toNat_add]
  change (n.toNat + 1) % 2 ^ 64 = n.toNat + 1
  omega

theorem toNat_sub_one {n : UInt64} (positive : 0 < n.toNat) : (n - 1).toNat = n.toNat - 1 := by
  have one : (1 : UInt64) ≤ n := UInt64.le_iff_toNat_le.mpr positive
  rw [UInt64.toNat_sub_of_le _ _ one]
  rfl

variable {xml after : XML}

theorem type_of_weight (elem : Elem) (up : elem.weight < 0) :
    elem.type = .endTag ∧ elem.weight = -1 := by
  unfold Elem.weight at up ⊢
  cases type : elem.type with
  | endTag => exact ⟨rfl, rfl⟩
  | startTag | instruction | chars | comment => simp [type] at up

section

variable (level : Level xml)
include level

theorem Level.small : xml.nesting.toNat ≤ maxNested + 1 := by
  have bounded := level.bounded
  have counter := level.counter
  rcases level.waiting with empty | ⟨elem, one, -⟩
  · rw [empty, length_nil] at counter
    omega
  · rw [one] at counter
    change _ = _ + 1 at counter
    omega

/-- A call of `XML_Next` changes the counter by the weight of the element. -/
theorem Level.next {elem : Elem} (run : xml.next = .ok (some elem, after)) :
    Level after ∧ (after.nesting.toNat : Int) = xml.nesting.toNat + elem.weight := by
  obtain ⟨event, read, same⟩ := next_ok run
  obtain ⟨top, rest, stacked, rfl, rfl⟩ | ⟨empty, ends⟩ := nextFrom_cases read
  · -- only the end of an empty tag can be waiting
    have counter := level.counter
    rcases level.waiting with empty | ⟨only, one, weight⟩
    · rw [empty] at stacked
      cases stacked
    · rw [one] at stacked
      cases stacked
      cases same
      rw [one] at counter
      change _ = _ + 1 at counter
      have lower := toNat_sub_one (n := xml.nesting) (by omega)
      refine ⟨⟨level.bounded, .inl rfl, ?_⟩, ?_⟩
      · change (xml.nesting - 1).toNat = xml.stack.length + 0
        omega
      · change ((xml.nesting - 1).toNat : Int) = xml.nesting.toNat + top.weight
        omega
  · cases ends with
    | done => cases same
    | event reads shorter =>
      cases same
      have counter := level.counter
      have bounded := level.bounded
      rw [empty, length_nil] at counter
      have raise := toNat_add_one level.small
      cases reads.counts with
      | opened weight room stack elems nesting =>
        change after.nesting = xml.nesting + 1 at nesting
        change after.elemStack = xml.elemStack at elems
        change after.stack.length = xml.stack.length + 1 at stack
        change xml.stack.length ≠ maxNested at room
        refine ⟨⟨by omega, .inl (elems.trans empty), ?_⟩, ?_⟩
        · rw [nesting, elems, empty, length_nil]
          omega
        · rw [nesting]
          omega
      | openedEmpty weight lower stack elems nesting =>
        change after.nesting = xml.nesting + 1 at nesting
        change after.elemStack = _ :: xml.elemStack at elems
        change after.stack = xml.stack at stack
        rw [empty] at elems
        refine ⟨⟨stack ▸ bounded, .inr ⟨_, elems, lower⟩, ?_⟩, ?_⟩
        · rw [nesting, elems, stack]
          change _ = _ + 1
          omega
        · rw [nesting]
          omega
      | closed weight stack elems nesting =>
        change after.nesting = xml.nesting - 1 at nesting
        change after.elemStack = xml.elemStack at elems
        change xml.stack.length = after.stack.length + 1 at stack
        have lower := toNat_sub_one (n := xml.nesting) (by omega)
        refine ⟨⟨by omega, .inl (elems.trans empty), ?_⟩, ?_⟩
        · rw [nesting, elems, empty, length_nil]
          omega
        · rw [nesting]
          omega
      | level weight stack elems nesting =>
        change after.nesting = xml.nesting at nesting
        change after.elemStack = xml.elemStack at elems
        change after.stack = xml.stack at stack
        refine ⟨⟨stack ▸ bounded, .inl (elems.trans empty), ?_⟩, ?_⟩
        · rw [nesting, elems, empty, stack, length_nil]
          omega
        · rw [nesting]
          omega

/-- A call that finds the document finished changes neither stack nor counter. -/
theorem Level.finished (run : xml.next = .ok (none, after)) :
    Level after ∧ after.nesting = xml.nesting := by
  obtain ⟨event, read, same⟩ := next_ok run
  obtain ⟨top, rest, -, rfl, -⟩ | ⟨-, ends⟩ := nextFrom_cases read
  · cases same
  · cases ends with
    | event => cases same
    | done => exact ⟨⟨level.bounded, level.waiting, level.counter⟩, rfl⟩

/-- The loop of `XML_Skip` stops at the first element that brings the counter below the level
at which it was called. -/
theorem Level.skipLoop {nesting : UInt64} (run : xml.skipLoop nesting = .ok (elems, after)) :
    Level after ∧ (after.nesting.toNat : Int) = xml.nesting.toNat + balance elems ∧
      (nesting ≤ xml.nesting → ∃ body last, elems = body ++ [last] ∧ last.type = .endTag ∧
        (xml.nesting.toNat : Int) + balance body = nesting.toNat ∧
        ∀ k, (nesting.toNat : Int) ≤ xml.nesting.toNat + balance (body.take k)) := by
  fun_induction XML.skipLoop nesting xml generalizing elems after with
  | case1 | case2 => cases run
  | case3 xml above elem next here ih =>
    obtain ⟨⟨later, last⟩, rest, same⟩ := map_eq_ok run
    cases same
    obtain ⟨level', counter⟩ := level.next here
    obtain ⟨final, total, shape⟩ := ih level' rest
    have from' := UInt64.le_iff_toNat_le.mp above
    refine ⟨final, ?_, fun _ => ?_⟩
    · change (last.nesting.toNat : Int) = _ + balance (elem :: later)
      rw [balance_cons]
      omega
    · by_cases more : nesting ≤ next.nesting
      · obtain ⟨body, end', rfl, closing, zero, positive⟩ := shape more
        refine ⟨elem :: body, end', rfl, closing, ?_, ?_⟩
        · rw [balance_cons]
          omega
        · intro k
          cases k with
          | zero =>
            rw [take_zero, balance_nil]
            omega
          | succ k =>
            have part := positive k
            rw [take_succ_cons, balance_cons]
            omega
      · -- the loop ends here, so that this element is the one that closes
        have below : next.nesting.toNat < nesting.toNat :=
          Nat.lt_of_not_le fun le => more (UInt64.le_iff_toNat_le.mpr le)
        unfold XML.skipLoop at rest
        rw [if_neg more] at rest
        cases rest
        obtain ⟨closing, weight⟩ := type_of_weight elem (by omega)
        refine ⟨[], elem, rfl, closing, ?_, ?_⟩
        · rw [balance_nil]
          omega
        · intro k
          rw [take_nil, balance_nil]
          omega
  | case4 xml below =>
    cases run
    refine ⟨level, ?_, fun above => absurd above below⟩
    rw [balance_nil]
    omega

theorem Level.skip (run : xml.skip = .ok (elems, after)) :
    Level after ∧ (after.nesting.toNat : Int) = xml.nesting.toNat + balance elems ∧
      Closes elems := by
  obtain ⟨final, total, shape⟩ := level.skipLoop run
  obtain ⟨body, last, rfl, closing, zero, positive⟩ := shape (UInt64.le_refl _)
  refine ⟨final, total, body, last, rfl, closing, by omega, ?_⟩
  intro k
  have part := positive k
  omega

end

/-- The invariant of a client that never puts an element back. -/
def Client.Fine (s : Client) : Prop := Level s.xml ∧ s.Counted

/-- The calls that the counter is kept by: all but `XML_PutBack` of an element. -/
def PutsNothingBack (s : Client) (call : Call) : Prop := call = .putBack → s.last = none

theorem step_fine {s after : Client} {call : Call} (fine : s.Fine)
    (allowed : PutsNothingBack s call) (run : step s call = some after) :
    after.Fine ∧ (call = .skip → ∀ elems xml, s.xml.skip = .ok (elems, xml) → Closes elems) := by
  obtain ⟨level, counted⟩ := fine
  unfold Client.Counted at counted
  cases call with
  | next =>
    refine ⟨?_, fun other => absurd other (by decide)⟩
    unfold step at run
    simp only at run
    split at run
    · cases run
    · rename_i xml here
      cases run
      obtain ⟨level', same⟩ := level.finished here
      refine ⟨level', ?_⟩
      change (xml.nesting.toNat : Int) = s.delivered
      rw [same, counted]
    · rename_i elem xml here
      cases run
      obtain ⟨level', counter⟩ := level.next here
      refine ⟨level', ?_⟩
      change (xml.nesting.toNat : Int) = s.delivered + elem.weight
      rw [counter, counted]
  | putBack =>
    unfold step at run
    simp only [allowed rfl] at run
    cases run
  | skip =>
    unfold step at run
    simp only at run
    split at run
    · cases run
    · rename_i elems xml here
      cases run
      obtain ⟨level', counter, closes⟩ := level.skip here
      refine ⟨⟨level', ?_⟩, ?_⟩
      · change (xml.nesting.toNat : Int) = s.delivered + balance elems
        rw [counter, counted]
      · intro _ elems' xml' same
        rw [here] at same
        cases same
        exact closes

theorem sub_one_ne (n : UInt64) : n - 1 ≠ n := by
  intro same
  by_cases positive : 0 < n.toNat
  · have lower := toNat_sub_one positive
    rw [same] at lower
    omega
  · have zero : n = 0 := UInt64.toNat.inj (Nat.eq_zero_of_not_pos positive)
    rw [zero] at same
    exact absurd same (by decide)

theorem not_right_putBack {s : Client} {elem : Elem} (fine : s.Fine) (just : s.last = some elem) :
    ¬Right s .putBack := by
  intro right
  have room : s.xml.elemStack.length ≠ maxNested := by
    have bound : maxNested = 64 := rfl
    rcases fine.1.waiting with empty | ⟨only, one, -⟩
    · rw [empty, length_nil]
      omega
    · rw [one]
      change 1 ≠ maxNested
      omega
  have put : s.xml.putBack elem = .ok { s.xml with elemStack := elem :: s.xml.elemStack } := by
    unfold XML.putBack
    rw [if_neg room]
  have taken : step s .putBack =
      some ⟨{ s.xml with elemStack := elem :: s.xml.elemStack }, s.delivered - elem.weight, none⟩ := by
    unfold step
    simp only [just, put]
  have restored := (right _ taken).2.1 rfl
  have counter : s.xml.nesting - 1 = s.xml.nesting :=
    congrArg XML.nesting (congrArg Prod.snd (Except.ok.inj restored))
  exact sub_one_ne _ counter

theorem right_iff {s : Client} (fine : s.Fine) (call : Call) :
    Right s call ↔ PutsNothingBack s call := by
  constructor
  · rintro right rfl
    cases just : s.last with
    | none => rfl
    | some elem => exact absurd right (not_right_putBack fine just)
  · intro allowed after run
    obtain ⟨fine', skips⟩ := step_fine fine allowed run
    refine ⟨fine'.2, ?_, skips⟩
    rintro rfl
    unfold step at run
    simp only [allowed rfl] at run
    cases run

/-! ## Whole sequences of calls -/

theorem reading_fine (registered : List RegisteredNameSpace) (text : ZString) :
    Client.Fine ⟨reading registered text, 0, none⟩ :=
  ⟨⟨Nat.zero_le _, .inl rfl, rfl⟩, rfl⟩

/-- Over every document, the calls of a sequence all do what they should exactly if none of
them puts an element back. -/
theorem nesting_kept_iff (registered : List RegisteredNameSpace) (text : ZString)
    (calls : List Call) :
    Run.Along step Right ⟨reading registered text, 0, none⟩ calls ↔
      Run.Along step PutsNothingBack ⟨reading registered text, 0, none⟩ calls := by
  refine Run.along_iff_of_invariant (fun s call (fine : s.Fine) => right_iff fine call) ?_
    (reading_fine registered text)
  intro s call after fine allowed run
  exact (step_fine fine allowed run).1

/-- In the document `<a></a>` the start tag is read, put back and read again. The counter is
then zero although one start tag is open, and `XML_Skip` fails instead of skipping the
element. -/
theorem putBack_loses_level :
    (Run.run step ⟨reading [] (ZString.ofString "<a></a>"), 0, none⟩
        [.next, .putBack, .next]).map (fun s => (s.delivered, s.xml.nesting)) = some (1, 0) ∧
      Run.run step ⟨reading [] (ZString.ofString "<a></a>"), 0, none⟩
        [.next, .putBack, .next, .skip] = none ∧
      (Run.run step ⟨reading [] (ZString.ofString "<a></a>"), 0, none⟩
        [.next, .skip]).map (fun s => (s.delivered, s.xml.nesting)) = some (0, 0) := by
  decide +kernel

end Omi.Xml
