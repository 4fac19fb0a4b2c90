import Omi.Wsman.EnumContext
import Omi.Xml.Text

/-!
# Bookmarks

A response to a subscription that has asked for bookmarks carries one, from which the
client can resume. The loop that selects the indications of a response remembers the
message it looks at before it tests the limits. Where a limit ends the loop, this is
the first indication that stays in the queue, and the response carries its bookmark.
-/

namespace Omi.Wsman

open List
open Omi.Xml (ascii)

universe u

variable {α : Type u}

/-- `_EC_GetMessageSubset` with `lastMsg`: what goes into the response, what stays, and the
message that the loop has looked at last. -/
def messageSubset (c : ConnectionData) : Option (PostInstanceMsg α) → UInt32 → UInt32 →
    List (PostInstanceMsg α) →
      (List (PostInstanceMsg α) × List (PostInstanceMsg α)) × Option (PostInstanceMsg α)
  | lastMsg, _, _, [] => (([], []), lastMsg)
  | _, count, totalSize, m :: rest =>
    if c.maxElements < count + 1
        ∨ c.maxEnvelopeSize.toNat
            < (totalSize + m.packedInstanceSize).toNat + approxEnumRespEnvelopeSize then
      (([], m :: rest), some m)
    else
      let out := messageSubset c (some m) (count + 1) (totalSize + m.packedInstanceSize) rest
      ((m :: out.1.1, out.1.2), out.2)

/-- The bookmark that is sent where nothing else is known. -/
def earliestBookmark : List UInt8 :=
  ascii "http://schemas.dmtf.org/wbem/wsman/1/wsman/bookmark/earliest"

/-- `bookmarkToSend`. The bookmark of an indication may be `NULL`. -/
def bookmarkToSend (bookmark : α → Option (List UInt8)) (lastMsg : Option (PostInstanceMsg α)) :
    List UInt8 :=
  (lastMsg.bind fun m => bookmark m.packedInstance).getD earliestBookmark

/-- The messages exceed a limit of the client. Both sums are computed in 32 bits. -/
def Exceeds (c : ConnectionData) (msgs : List (PostInstanceMsg α)) : Prop :=
  c.maxElements < .ofNat msgs.length
    ∨ c.maxEnvelopeSize.toNat
        < (msgs.map PostInstanceMsg.packedInstanceSize).sum.toNat + approxEnumRespEnvelopeSize

/-- The message at place `i` is the first one with which a limit is exceeded. -/
def CutAt (c : ConnectionData) (queue : List (PostInstanceMsg α)) (i : Nat) : Prop :=
  i < queue.length ∧ Exceeds c (queue.take (i + 1)) ∧ ∀ j < i, ¬Exceeds c (queue.take (j + 1))

variable {c : ConnectionData}

/-- The loop selects what `getMessageSubset` does. -/
theorem messageSubset_fst (queue : List (PostInstanceMsg α)) (last : Option (PostInstanceMsg α))
    (count totalSize : UInt32) :
    (messageSubset c last count totalSize queue).1 =
      EnumerateContext.getMessageSubset c count totalSize queue := by
  induction queue generalizing last count totalSize with
  | nil => rfl
  | cons m rest ih =>
    rw [messageSubset, EnumerateContext.getMessageSubset]
    split_ifs
    · rfl
    · dsimp only
      rw [ih]

theorem exceeds_concat (before : List (PostInstanceMsg α)) (m : PostInstanceMsg α) :
    Exceeds c (before ++ [m]) ↔
      c.maxElements < .ofNat before.length + 1
        ∨ c.maxEnvelopeSize.toNat
            < ((before.map PostInstanceMsg.packedInstanceSize).sum + m.packedInstanceSize).toNat
              + approxEnumRespEnvelopeSize := by
  simp [Exceeds, UInt32.ofNat_add]

/-- The loop stops at the first message with which a limit is exceeded, and has looked at it. -/
theorem messageSubset_spec (rest before : List (PostInstanceMsg α))
    (last : Option (PostInstanceMsg α)) :
    ∃ i ≤ rest.length,
      messageSubset c last (.ofNat before.length)
          (before.map PostInstanceMsg.packedInstanceSize).sum rest =
        ((rest.take i, rest.drop i), if i < rest.length then rest[i]? else rest.getLast?.or last) ∧
      (i < rest.length → Exceeds c (before ++ rest.take (i + 1))) ∧
      ∀ j < i, ¬Exceeds c (before ++ rest.take (j + 1)) := by
  induction rest generalizing before last with
  | nil => exact ⟨0, Nat.le_refl 0, rfl, nofun, nofun⟩
  | cons m rest ih =>
    by_cases beyond : Exceeds c (before ++ [m])
    · refine ⟨0, Nat.zero_le _, ?_, fun _ => beyond, nofun⟩
      rw [messageSubset, if_pos ((exceeds_concat before m).mp beyond)]
      rfl
    · obtain ⟨i, inside, out, stops, passes⟩ := ih (before ++ [m]) (some m)
      have next : messageSubset c last (.ofNat before.length)
          (before.map PostInstanceMsg.packedInstanceSize).sum (m :: rest) =
            ((m :: rest.take i, rest.drop i),
              if i < rest.length then rest[i]? else rest.getLast?.or (some m)) := by
        rw [length_append, length_singleton, UInt32.ofNat_add, map_append,
          sum_append, map_singleton, sum_singleton] at out
        rw [messageSubset, if_neg (mt (exceeds_concat before m).mpr beyond)]
        exact congrArg (fun o => ((m :: o.1.1, o.1.2), o.2)) out
      refine ⟨i + 1, Nat.succ_le_succ inside, ?_, fun more => ?_, fun j before_i => ?_⟩
      · rw [next, getElem?_cons_succ, getLast?_cons]
        simp only [length_cons, Nat.succ_lt_succ_iff, take_succ_cons, drop_succ_cons]
        cases rest.getLast? <;> rfl
      · have here := stops (Nat.lt_of_succ_lt_succ more)
        rwa [append_assoc] at here
      · cases j with
        | zero => exact beyond
        | succ j =>
          have here := passes j (Nat.lt_of_succ_lt_succ before_i)
          rwa [append_assoc] at here

theorem CutAt.unique {queue : List (PostInstanceMsg α)} {i j : Nat} (first : CutAt c queue i)
    (second : CutAt c queue j) : i = j := by
  obtain less | same | more := Nat.lt_trichotomy i j
  · exact absurd first.2.1 (second.2.2 i less)
  · exact same
  · exact absurd second.2.1 (first.2.2 j more)

/-- The response carries the bookmark of its last indication exactly if no limit ends the
selection, or the indication at which it ends has the same bookmark as the one in front of
it. -/
theorem bookmark_of_last_iff (bookmark : α → Option (List UInt8)) (c : ConnectionData)
    (queue : List (PostInstanceMsg α))
    (included : (EnumerateContext.getMessageSubset c 0 0 queue).1 ≠ []) :
    bookmarkToSend bookmark (messageSubset c none 0 0 queue).2 =
        bookmarkToSend bookmark (EnumerateContext.getMessageSubset c 0 0 queue).1.getLast? ↔
      ∀ i, CutAt c queue i →
        bookmarkToSend bookmark queue[i]? = bookmarkToSend bookmark queue[i - 1]? := by
  obtain ⟨i, inside, out, stops, passes⟩ := messageSubset_spec (c := c) queue [] none
  rw [← messageSubset_fst queue none] at included ⊢
  change messageSubset c none 0 0 queue = _ at out
  rw [out] at included ⊢
  have positive : 0 < i := by
    rw [Nat.pos_iff_ne_zero]
    rintro rfl
    exact included rfl
  have last : (queue.take i).getLast? = queue[i - 1]? := by
    rw [getLast?_eq_getElem?, length_take_of_le inside,
      getElem?_take_of_lt (by omega)]
  rw [last]
  by_cases more : i < queue.length
  · have cut : CutAt c queue i := ⟨more, stops more, passes⟩
    rw [if_pos more]
    refine ⟨fun same j other => ?_, fun same => same i cut⟩
    rwa [← cut.unique other]
  · have whole : i = queue.length := by omega
    rw [if_neg more, Option.or_none, getLast?_eq_getElem?, whole]
    refine ⟨fun _ j cut => ?_, fun _ => rfl⟩
    exact absurd cut.2.1 (passes j (whole ▸ cut.1))

/-- A pull request for two elements. -/
def pullTwo : ConnectionData where
  request := 1
  authInfo := ⟨0, 0⟩
  rqtAction := .pull
  maxEnvelopeSize := 8192
  maxElements := 2
  maxEnvelopeSize_le := by decide
  maxElements_pos := by decide

/-- Two indications are all there are. -/
theorem bookmark_of_last_two :
    (EnumerateContext.getMessageSubset pullTwo 0 0 [⟨1, 500⟩, ⟨2, 500⟩]).1 ≠ [] ∧
      bookmarkToSend (fun n => some [n]) (messageSubset pullTwo none 0 0 [⟨1, 500⟩, ⟨2, 500⟩]).2 =
        bookmarkToSend (fun n => some [n])
          (EnumerateContext.getMessageSubset pullTwo 0 0 [⟨1, 500⟩, ⟨2, 500⟩]).1.getLast? := by
  refine ⟨by decide, (bookmark_of_last_iff _ pullTwo _ (by decide)).mpr fun i cut => ?_⟩
  obtain ⟨inside, beyond, -⟩ := cut
  have place : i = 0 ∨ i = 1 := by
    rw [length_cons, length_singleton] at inside
    omega
  have fits : ¬Exceeds pullTwo (take (i + 1) [⟨(1 : UInt8), 500⟩, ⟨2, 500⟩]) := by
    obtain rfl | rfl := place
    all_goals unfold Exceeds; decide
  exact absurd beyond fits

/-- Of three indications two are sent, with the bookmark of the third. -/
theorem bookmark_skips_indication :
    (EnumerateContext.getMessageSubset pullTwo 0 0 [⟨1, 500⟩, ⟨2, 500⟩, ⟨3, 500⟩]).1 =
        [⟨1, 500⟩, ⟨2, 500⟩] ∧
      bookmarkToSend (fun n : UInt8 => some [n])
        (messageSubset pullTwo none 0 0 [⟨1, 500⟩, ⟨2, 500⟩, ⟨3, 500⟩]).2 = [3] := by
  decide

end Omi.Wsman
