import Omi.Base.BufWriter

/-!
# Failing appends while packing

Every append of `Instance_Pack` may fail for want of memory. The packing of an instance is
listed as the calls that it makes, and a schedule says which of their appends fail. A failure
stops the packing with an error at every call but one: `_PackField` ignores the result of
`Buf_PackDT`, so that a scalar datetime whose padding or whose bytes cannot be appended is
left out of an encoding that counts as complete.

The buffer is a list here, which stands for the one of the writer as long as the encoding
has at most `2^31` bytes and every byte count is represented.
-/

namespace Omi.Base.Failing

open List Option Bytes Codec Writer

/-- A call of `Buf` whose result is tested, or the unchecked `Buf_PackDT`. -/
inductive Step where
  | call (c : Call)
  | datetime (x : Fin (256 ^ 36))

/-- One append: what a request demands, or the two appends of `Buf_PackDT`. -/
inductive Append where
  | demand (d : Demand)
  | datetime (x : Fin (256 ^ 36))

/-- The appends of a call whose result is tested. -/
def checked (c : Call) : List Append := c.requests.map fun r => .demand r.demand

/-- The appends of a step. -/
def Step.appends : Step → List Append
  | .call c => checked c
  | .datetime x => [.datetime x]

/-- The appends that a step is asked for, with all the bytes of its string or array. -/
def Step.asked : Step → List Append
  | .call c => c.demands.map .demand
  | .datetime x => [.datetime x]

local instance neZero_four : NeZero 4 := ⟨by decide⟩

/-- `Buf_PackU8`. -/
def packU8 (x : Nat) : Step := .call (.primitive (.scalar 0 x))

/-- `Buf_PackU32`. -/
def packU32 (x : Nat) : Step := .call (.primitive (.scalar 2 x))

/-- The exponent of the boundary of a plain type. -/
def alignment : PlainType → Fin 4
  | .boolean | .uint8 | .sint8 => 0
  | .uint16 | .sint16 | .char16 => 1
  | .uint32 | .sint32 | .real32 | .datetime => 2
  | .uint64 | .sint64 | .real64 => 3

/-- A value of a plain type; the result of `Buf_PackDT` is ignored. -/
def plainStep : (t : PlainType) → Fin (256 ^ t.width) → Step
  | .datetime, x => .datetime x
  | t, x => .call (.primitive (.scalar (alignment t) x))

/-- An array of a plain type. -/
def plainsCall : (t : PlainType) → List (Fin (256 ^ t.width)) → Call
  | .datetime, xs => .dta xs
  | t, xs => .array t.width xs

mutual

/-- `_PackField`. -/
def fieldSteps : Value → List Step
  | .null _ => [packU8 0]
  | .plain t x => [packU8 1, plainStep t x]
  | .string s => [packU8 1, .call (.str (some s))]
  | .object isReference i => packU8 1 :: instanceSteps isReference none i
  | .plains t xs => [packU8 1, .call (plainsCall t xs)]
  | .strings xs => [packU8 1, .call (.strA xs)]
  | .objects isReference xs => packU8 1 :: packU32 xs.length :: itemSteps isReference xs

/-- The loop over an array of instances. -/
def itemSteps (keysOnly : Bool) : List (Option Instance) → List Step
  | [] => []
  | none :: _ => [.call (.primitive .refuse)]
  | some i :: rest => instanceSteps keysOnly none i ++ itemSteps keysOnly rest

/-- The loop over the elements. -/
def elementSteps (keysOnly : Bool) (filterProperty : Option (ZString → Bool)) :
    List Element → List Step
  | [] => []
  | ⟨name, flags, value⟩ :: rest =>
    if (Element.mk name flags value).skipped keysOnly filterProperty then
      elementSteps keysOnly filterProperty rest
    else
      let packed := (Element.mk name flags value).packedName
      packU32 flags.toNat :: .call (.strLen (some packed) (nameLen packed (hash name))) ::
        packU32 value.type.code :: (fieldSteps value ++ elementSteps keysOnly filterProperty rest)

/-- `Instance_Pack`. -/
def instanceSteps (keysOnly : Bool) (filterProperty : Option (ZString → Bool)) :
    Instance → List Step
  | ⟨className, flags, nameSpace, _, elements⟩ =>
    packU32 instanceMagic :: packU32 flags.toNat ::
      .call (.strLen (some className) (nameLen className (hash className))) ::
        .call (.str nameSpace) :: packU32 (packedCount keysOnly filterProperty elements) ::
          (elementSteps keysOnly filterProperty elements ++ [packU32 endMagic])

end

/-! ## Running the steps -/

section Run

variable (garbage : Nat → UInt8)

/-- Pad to a boundary and append. -/
def put (k : Fin 4) (bytes buf : List UInt8) : List UInt8 :=
  buf ++ ((List.range (alignUp (2 ^ k.val) buf.length - buf.length)).map
    fun i => garbage (buf.length + i)) ++ bytes

/-- What a demand appends when nothing fails. -/
def meet : Demand → List UInt8 → List UInt8
  | .bytes k bytes, buf => put garbage k bytes buf
  | .room _, buf | .refuse, buf => buf

/-- A NULL entry. -/
def refused : Demand → Bool
  | .refuse => true
  | .room _ | .bytes _ _ => false

/-- What an append leaves when nothing fails. -/
def Append.write : Append → List UInt8 → List UInt8
  | .demand d, buf => meet garbage d buf
  | .datetime x, buf => put garbage 0 (leBytes 36 x) (put garbage 2 [] buf)

/-- The whole encoding. -/
def whole (appends : List Append) (buf : List UInt8) : List UInt8 :=
  appends.foldl (fun buf a => a.write garbage buf) buf

variable (fails : Nat → Bool)

/-- `Buf_PackDT`, with the number of its first append. -/
def packDT (n : Nat) (x : Fin (256 ^ 36)) (buf : List UInt8) : List UInt8 :=
  if fails n then buf
  else if fails (n + 1) then put garbage 2 [] buf
  else put garbage 0 (leBytes 36 x) (put garbage 2 [] buf)

/-- The packing under a schedule of failures, which numbers the appends. -/
def runSteps : Nat → List Append → List UInt8 → Option (List UInt8)
  | _, [], buf => some buf
  | n, .demand d :: rest, buf =>
    if refused d || fails n then none else runSteps (n + 1) rest (meet garbage d buf)
  | n, .datetime x :: rest, buf => runSteps (n + 2) rest (packDT garbage fails n x buf)

/-- A tested append fails, or a NULL entry is refused. -/
def Stops : Nat → List Append → Prop
  | _, [] => False
  | n, .demand d :: rest => (refused d || fails n) = true ∨ Stops (n + 1) rest
  | n, .datetime _ :: rest => Stops (n + 2) rest

/-- The padding or the bytes of a scalar datetime fail. -/
def DatetimeFails : Nat → List Append → Prop
  | _, [] => False
  | n, .demand _ :: rest => DatetimeFails (n + 1) rest
  | n, .datetime _ :: rest => fails n = true ∨ fails (n + 1) = true ∨ DatetimeFails (n + 2) rest

instance decidableStops : (n : Nat) → (appends : List Append) → Decidable (Stops fails n appends)
  | _, [] => .isFalse id
  | n, .demand _ :: rest => @instDecidableOr _ _ inferInstance (decidableStops (n + 1) rest)
  | n, .datetime _ :: rest => decidableStops (n + 2) rest

instance decidableDatetimeFails :
    (n : Nat) → (appends : List Append) → Decidable (DatetimeFails fails n appends)
  | _, [] => .isFalse id
  | n, .demand _ :: rest => decidableDatetimeFails (n + 1) rest
  | n, .datetime _ :: rest => @instDecidableOr _ _ inferInstance
      (@instDecidableOr _ _ inferInstance (decidableDatetimeFails (n + 2) rest))

end Run

section Complete

variable {garbage : Nat → UInt8} {fails : Nat → Bool}

theorem length_put (k : Fin 4) (bytes buf : List UInt8) :
    (put garbage k bytes buf).length = alignUp (2 ^ k.val) buf.length + bytes.length := by
  have up := le_alignUp (Nat.two_pow_pos k.val) buf.length
  simp only [put, length_append, length_map, length_range]
  omega

theorem length_le_put (k : Fin 4) (bytes buf : List UInt8) :
    buf.length + bytes.length ≤ (put garbage k bytes buf).length := by
  rw [length_put]
  exact Nat.add_le_add_right (le_alignUp (Nat.two_pow_pos k.val) _) _

/-- What is missing before an append is missing behind it: all boundaries divide the distance. -/
theorem put_behind (garbage : Nat → UInt8) (k : Fin 4) (bytes : List UInt8)
    {short long : List UInt8} (behind : short.length + 32 ≤ long.length) :
    (put garbage k bytes short).length + 32 ≤ (put garbage k bytes long).length := by
  rw [length_put, length_put]
  have up : alignUp (2 ^ k.val) short.length + 32 ≤ alignUp (2 ^ k.val) long.length := by
    unfold alignUp
    obtain small | small | small | small : k.val = 0 ∨ k.val = 1 ∨ k.val = 2 ∨ k.val = 3 := by
      omega
    all_goals
      rw [small]
      omega
  omega

theorem meet_behind (garbage : Nat → UInt8) (d : Demand) {short long : List UInt8}
    (behind : short.length + 32 ≤ long.length) :
    (meet garbage d short).length + 32 ≤ (meet garbage d long).length := by
  cases d with
  | bytes k bytes => exact put_behind garbage k bytes behind
  | room capacity | refuse => exact behind

variable {buf : List UInt8} {n : Nat}

/-- A failure of `Buf_PackDT` leaves the datetime out. -/
theorem packDT_cases (garbage : Nat → UInt8) (fails : Nat → Bool) (x : Fin (256 ^ 36)) :
    (¬ (fails n = true ∨ fails (n + 1) = true) ∧
        packDT garbage fails n x buf = Append.write garbage (.datetime x) buf) ∨
      ((fails n = true ∨ fails (n + 1) = true) ∧
        (packDT garbage fails n x buf).length + 36 ≤
          (Append.write garbage (.datetime x) buf).length) := by
  have padded : buf.length ≤ (put garbage 2 [] buf).length := length_le_put 2 [] buf
  have full : (put garbage 2 [] buf).length + (leBytes 36 x).length ≤
    (Append.write garbage (.datetime x) buf).length := length_le_put 0 _ _
  rw [length_leBytes] at full
  unfold packDT
  split
  · next first => exact .inr ⟨.inl first, by omega⟩
  split
  · next second => exact .inr ⟨.inr second, full⟩
  · next first second => exact .inl ⟨fun either => either.elim first second, rfl⟩

variable {steps : List Append}

theorem runSteps_of_stops (stops : Stops fails n steps) :
    runSteps garbage fails n steps buf = none := by
  fun_induction runSteps garbage fails n steps buf with
  | case1 => exact stops.elim
  | case2 => rfl
  | case3 n d rest buf passes ih => exact ih (stops.resolve_left passes)
  | case4 n x rest buf ih => exact ih stops

/-- Bytes that are missing stay missing. -/
theorem runSteps_behind {short long : List UInt8} (goesOn : ¬ Stops fails n steps)
    (behind : short.length + 32 ≤ long.length) :
    ∃ out, runSteps garbage fails n steps short = some out ∧
      out.length + 32 ≤ (whole garbage steps long).length := by
  fun_induction runSteps garbage fails n steps short generalizing long with
  | case1 n buf => exact ⟨buf, rfl, behind⟩
  | case2 n d rest buf stops => exact absurd (.inl stops) goesOn
  | case3 n d rest buf passes ih =>
    exact ih (fun later => goesOn (.inr later)) (meet_behind garbage _ behind)
  | case4 n x rest buf ih =>
    refine ih goesOn ?_
    have padded := put_behind garbage 2 [] behind
    have full : _ ≤ (Append.write garbage (.datetime x) long).length :=
      put_behind garbage 0 (leBytes 36 x) padded
    change (Append.write garbage (.datetime x) buf).length + 32 ≤ _ at full
    change _ ≤ (Append.write garbage (.datetime x) long).length
    obtain ⟨-, same⟩ | ⟨-, missing⟩ := packDT_cases garbage fails x
    · rw [same]
      exact full
    · omega

/-- Without a failure the encoding is whole. -/
theorem runSteps_whole (goesOn : ¬ Stops fails n steps) (all : ¬ DatetimeFails fails n steps) :
    runSteps garbage fails n steps buf = some (whole garbage steps buf) := by
  fun_induction runSteps garbage fails n steps buf with
  | case1 => rfl
  | case2 n d rest buf stops => exact absurd (.inl stops) goesOn
  | case3 n d rest buf passes ih => exact ih (fun later => goesOn (.inr later)) all
  | case4 n x rest buf ih =>
    have same : packDT garbage fails n x buf = Append.write garbage (.datetime x) buf := by
      obtain ⟨-, same⟩ | ⟨first | second, -⟩ := packDT_cases garbage fails x
      · exact same
      · exact absurd (.inl first) all
      · exact absurd (.inr (.inl second)) all
    rw [ih goesOn fun later => all (.inr (.inr later)), same]
    rfl

/-- A datetime that fails is missing at the end. -/
theorem runSteps_short (goesOn : ¬ Stops fails n steps) (missing : DatetimeFails fails n steps)
    (buf : List UInt8) :
    ∃ out, runSteps garbage fails n steps buf = some out ∧ out ≠ whole garbage steps buf := by
  fun_induction runSteps garbage fails n steps buf with
  | case1 => exact missing.elim
  | case2 n d rest buf stops => exact absurd (.inl stops) goesOn
  | case3 n d rest buf passes ih => exact ih (fun later => goesOn (.inr later)) missing
  | case4 n x rest buf ih =>
    obtain ⟨neither, same⟩ | ⟨-, short⟩ := packDT_cases garbage fails x
    · rw [same] at ih ⊢
      refine ih goesOn ?_
      obtain first | second | later := missing
      · exact absurd (.inl first) neither
      · exact absurd (.inr second) neither
      · exact later
    · have later : ¬ Stops fails (n + 2) rest := goesOn
      obtain ⟨out, runs, less⟩ := runSteps_behind later
        (Nat.le_trans (Nat.add_le_add_left (by decide : 32 ≤ 36) _) short)
      refine ⟨out, runs, fun same => ?_⟩
      have equal := congrArg length same
      change _ = (whole garbage rest (Append.write garbage (.datetime x) buf)).length at equal
      omega

end Complete

/-! ## The steps are those of the packing -/

section Emits

variable {garbage : Nat → UInt8}

/-- What a packing that succeeds leaves is what the appends write. -/
def Emits (garbage : Nat → UInt8) (m : Pack Unit) (steps : List Append) : Prop :=
  ∀ buf out, m buf = some ((), out) → out = whole garbage steps buf

theorem Emits.nothing : Emits garbage (pure ()) [] := by
  rintro buf out written
  cases written
  rfl

theorem Emits.seq {m m' : Pack Unit} {steps steps' : List Append} (first : Emits garbage m steps)
    (next : Emits garbage m' steps') :
    Emits garbage (m >>= fun _ => m') (steps ++ steps') := by
  intro buf out written
  obtain ⟨⟨⟨⟩, mid⟩, begun, rest⟩ := bind_eq_some_iff.mp written
  rw [whole, foldl_append]
  change out = whole garbage steps' (whole garbage steps buf)
  rw [← first buf mid begun]
  exact next mid out rest

theorem emits_append (bytes : List UInt8) :
    Emits garbage (append bufLimit bytes) [.demand (.bytes 0 bytes)] := by
  intro buf out written
  obtain ⟨-, same⟩ := ite_none_right_eq_some.mp written
  cases same
  simp [whole, Append.write, meet, put, alignUp]

theorem emits_pad (k : Fin 4) :
    Emits garbage (Codec.pad bufLimit garbage (2 ^ k.val)) [.demand (.bytes k [])] := by
  intro buf out written
  obtain ⟨-, same⟩ := ite_none_right_eq_some.mp written
  cases same
  exact (append_nil _).symm

theorem emits_scalar (k : Fin 4) (value : Nat) :
    Emits garbage (Base.packScalar garbage (2 ^ k.val) (2 ^ k.val) value)
      [.demand (.bytes k (leBytes (2 ^ k.val) value))] := by
  intro buf out written
  obtain ⟨⟨⟨⟩, mid⟩, begun, rest⟩ := bind_eq_some_iff.mp written
  obtain ⟨-, same⟩ := ite_none_right_eq_some.mp begun
  cases same
  obtain ⟨-, same⟩ := ite_none_right_eq_some.mp rest
  cases same
  rfl

theorem emits_datetime (x : Fin (256 ^ 36)) :
    Emits garbage (Base.packScalar garbage 4 36 x) [.datetime x] := by
  intro buf out written
  obtain ⟨⟨⟨⟩, mid⟩, begun, rest⟩ := bind_eq_some_iff.mp written
  rw [emits_pad 2 buf mid begun] at rest
  exact emits_append (leBytes 36 x) _ out rest

theorem emits_cut (count : Nat) (bytes : List UInt8) :
    Emits garbage (append bufLimit (bytes.take (count % 2 ^ 32)))
      [.demand (cut count bytes).demand] :=
  emits_append _

theorem emits_sized (s : ZString) (size : Nat) :
    Emits garbage (packSized garbage s (size % 2 ^ 32)) ((sized size s).map fun r => .demand r.demand) :=
  (emits_scalar 2 _).seq (emits_cut size s.bytes)

theorem emits_str (s : Option ZString) : Emits garbage (packStr garbage s) (checked (.str s)) := by
  cases s with
  | none => exact emits_scalar 2 0
  | some s => exact emits_sized s _

theorem emits_array {width : Nat} (items : List (Fin (256 ^ width))) :
    Emits garbage (packArray garbage (if width = 8 then 8 else 1) width items)
      (checked (.array width items)) := by
  refine (emits_scalar 2 _).seq ?_
  split
  · exact .nothing
  rw [map_append]
  refine Emits.seq ?_ (emits_cut _ _)
  split
  · exact emits_pad 3
  · intro buf out written
    have same := emits_pad 0 buf out written
    simpa [whole, Append.write, meet, put, alignUp] using same

theorem emits_dta (items : List (Fin (256 ^ 36))) :
    Emits garbage (packArray garbage 1 36 items) (checked (.dta items)) := by
  intro buf out written
  have same := emits_array items buf out written
  by_cases none_ : items = []
  · subst none_
    simpa [checked, Call.requests, whole, Append.write, meet, put, cut, Request.demand,
      arrayBytes, alignUp] using same
  · simpa [checked, Call.requests, none_] using same

theorem emits_plain {t : PlainType} (x : Fin (256 ^ t.width)) :
    Emits garbage (Base.packScalar garbage t.boundary t.width x) (plainStep t x).appends := by
  by_cases other : t = .datetime
  · subst other
    exact emits_datetime x
  · have boundary : t.boundary = 2 ^ (alignment t).val := by cases t <;> rfl
    have width : t.width = 2 ^ (alignment t).val := by cases t <;> first | rfl | contradiction
    have step : plainStep t x = .call (.primitive (.scalar (alignment t) x)) := by
      cases t <;> first | rfl | contradiction
    rw [boundary, step]
    have scalar : Emits garbage _ _ := emits_scalar (alignment t) x.val
    rw [← width] at scalar ⊢
    change Emits garbage _ [.demand (.bytes (alignment t) (leBytes (2 ^ (alignment t).val) x))]
    rwa [← width]

theorem emits_plains {t : PlainType} (xs : List (Fin (256 ^ t.width))) :
    Emits garbage (packArray garbage t.arrayBoundary t.width xs) (checked (plainsCall t xs)) := by
  by_cases other : t = .datetime
  · subst other
    exact emits_dta xs
  · have call : plainsCall t xs = .array t.width xs := by cases t <;> first | rfl | contradiction
    rw [call]
    exact emits_array xs

theorem emits_offsets (offset : Nat) (strings : List ZString) :
    Emits garbage (packOffsets garbage offset strings)
      ((tableOf offset (strings.map some)).map fun r => .demand r.demand) := by
  induction strings generalizing offset with
  | nil => exact emits_scalar 3 offset
  | cons s rest ih => exact (emits_scalar 3 offset).seq (ih _)

theorem emits_strings (strings : List ZString) :
    Emits garbage (packStrings strings)
      (strings.map fun s => .demand (cut (s.length + 1) s.bytes).demand) := by
  induction strings with
  | nil => exact .nothing
  | cons s rest ih => exact (emits_cut _ _).seq ih

theorem emits_strA (items : List (Option ZString)) :
    Emits garbage (packStrA garbage items) (checked (.strA items)) := by
  refine (emits_scalar 2 _).seq ?_
  split
  · exact .nothing
  cases all : items.mapM id with
  | none =>
    intro buf out written
    cases written
  | some strings =>
    obtain rfl := mapM_id_eq_some all
    rw [cons_append, map_cons, map_append, filterMap_map]
    refine (emits_pad 3).seq ((emits_offsets 0 strings).seq ?_)
    simpa [Function.comp_def] using emits_strings strings

end Emits

section Instances

variable {garbage : Nat → UInt8}

/-- What a packing that succeeds leaves is what the steps write. -/
def Packs (garbage : Nat → UInt8) (m : Pack Unit) (steps : List Step) : Prop :=
  Emits garbage m (steps.flatMap Step.appends)

theorem Emits.packs {m : Pack Unit} {step : Step} (emits : Emits garbage m step.appends) :
    Packs garbage m [step] := by
  unfold Packs
  rwa [flatMap_singleton]

theorem Packs.seq {m m' : Pack Unit} {steps steps' : List Step} (first : Packs garbage m steps)
    (next : Packs garbage m' steps') :
    Packs garbage (m >>= fun _ => m') (steps ++ steps') := by
  unfold Packs
  rw [flatMap_append]
  exact Emits.seq first next

theorem packs_packU8 (x : Nat) : Packs garbage (Base.packU8 garbage x) [packU8 x] :=
  Emits.packs (emits_scalar 0 x)

theorem packs_packU32 (x : Nat) : Packs garbage (Base.packU32 garbage x) [packU32 x] :=
  Emits.packs (emits_scalar 2 x)

theorem packs_strLen (s : ZString) (size : Nat) :
    Packs garbage (packStrLen garbage s size) [.call (.strLen (some s) size)] :=
  Emits.packs (emits_sized s _)

theorem packs_str (s : Option ZString) : Packs garbage (packStr garbage s) [.call (.str s)] :=
  Emits.packs (emits_str s)

variable (garbage : Nat → UInt8)

mutual

theorem packs_field : (v : Value) → Packs garbage (v.packField garbage) (fieldSteps v)
  | .null _ => by
    rw [Value.packField, fieldSteps]
    exact packs_packU8 0
  | .plain t x => by
    rw [Value.packField, fieldSteps]
    exact (packs_packU8 1).seq (Emits.packs (emits_plain x))
  | .string s => by
    rw [Value.packField, fieldSteps]
    exact (packs_packU8 1).seq (packs_str _)
  | .object isReference i => by
    rw [Value.packField, fieldSteps]
    exact (packs_packU8 1).seq (packs_instance isReference none i)
  | .plains t xs => by
    rw [Value.packField, fieldSteps]
    exact (packs_packU8 1).seq (Emits.packs (emits_plains xs))
  | .strings xs => by
    rw [Value.packField, fieldSteps]
    exact (packs_packU8 1).seq (Emits.packs (emits_strA xs))
  | .objects isReference xs => by
    rw [Value.packField, fieldSteps]
    exact (packs_packU8 1).seq ((packs_packU32 _).seq (packs_items isReference xs))

theorem packs_items (keysOnly : Bool) : (xs : List (Option Instance)) →
    Packs garbage (packItems garbage keysOnly xs) (itemSteps keysOnly xs)
  | [] => by
    rw [packItems, itemSteps]
    exact Emits.nothing
  | none :: rest => by
    rw [packItems]
    rintro buf out ⟨⟩
  | some i :: rest => by
    rw [packItems, itemSteps]
    exact (packs_instance keysOnly none i).seq (packs_items keysOnly rest)

theorem packs_elements (keysOnly : Bool) (filterProperty : Option (ZString → Bool)) :
    (elements : List Element) → Packs garbage (packElements garbage keysOnly filterProperty elements)
      (elementSteps keysOnly filterProperty elements)
  | [] => by
    rw [packElements, elementSteps]
    exact Emits.nothing
  | ⟨name, flags, value⟩ :: rest => by
    rw [packElements, elementSteps]
    split
    · exact packs_elements keysOnly filterProperty rest
    · exact (packs_packU32 _).seq ((packs_strLen _ _).seq ((packs_packU32 _).seq
        ((packs_field value).seq (packs_elements keysOnly filterProperty rest))))

theorem packs_instance (keysOnly : Bool) (filterProperty : Option (ZString → Bool)) :
    (i : Instance) → Packs garbage (i.pack garbage keysOnly filterProperty)
      (instanceSteps keysOnly filterProperty i)
  | ⟨className, flags, nameSpace, _, elements⟩ => by
    rw [Instance.pack, instanceSteps]
    exact (packs_packU32 _).seq ((packs_packU32 _).seq ((packs_strLen _ _).seq
      ((packs_str nameSpace).seq ((packs_packU32 _).seq
        ((packs_elements keysOnly filterProperty elements).seq (packs_packU32 _))))))

end

end Instances

/-- The byte counts of a step fit 32 bits. -/
def Step.Represented : Step → Prop
  | .call c => c.Represented
  | .datetime _ => True

instance : DecidablePred Step.Represented
  | .call c => inferInstanceAs (Decidable c.Represented)
  | .datetime _ => .isTrue trivial

/-- The range of the model: every byte count is represented, and the encoding with all its bytes
fits the writer. -/
def Bounded (garbage : Nat → UInt8) (steps : List Step) (buf : List UInt8) : Prop :=
  (∀ step ∈ steps, step.Represented) ∧
    (whole garbage (steps.flatMap Step.asked) buf).length ≤ 2 ^ 31

/-- Whether a packing that reports success has appended the whole encoding. -/
def Complete (garbage : Nat → UInt8) (fails : Nat → Bool) (steps : List Step)
    (buf : List UInt8) : Prop :=
  ∀ out, runSteps garbage fails 0 (steps.flatMap Step.appends) buf = some out →
    out = whole garbage (steps.flatMap Step.asked) buf

/-- Nothing is cut in the range of the model. -/
theorem appends_eq_asked {garbage : Nat → UInt8} {steps : List Step} {buf : List UInt8}
    (bounded : Bounded garbage steps buf) :
    steps.flatMap Step.appends = steps.flatMap Step.asked := by
  refine flatMap_congr fun step inside => ?_
  cases step with
  | call c =>
    have all := Call.demands_of_represented (bounded.1 _ inside)
    simp only [Step.appends, Step.asked, checked, ← all, List.map_map, Function.comp_def]
  | datetime x => rfl

/-- A packing that reports success is complete exactly when no append of a scalar datetime fails,
or another failure is reported anyway. The encoding is that of `Instance_Pack`. -/
theorem instance_pack_complete_iff (garbage : Nat → UInt8) (fails : Nat → Bool) (keysOnly : Bool)
    (filterProperty : Option (ZString → Bool)) (i : Instance) (buf : List UInt8)
    (bounded : Bounded garbage (instanceSteps keysOnly filterProperty i) buf) :
    (Complete garbage fails (instanceSteps keysOnly filterProperty i) buf ↔
      Stops fails 0 ((instanceSteps keysOnly filterProperty i).flatMap Step.appends) ∨
        ¬ DatetimeFails fails 0
          ((instanceSteps keysOnly filterProperty i).flatMap Step.appends)) ∧
      ∀ out, i.pack garbage keysOnly filterProperty buf = some ((), out) →
        out = whole garbage ((instanceSteps keysOnly filterProperty i).flatMap Step.asked) buf := by
  unfold Complete
  rw [← appends_eq_asked bounded]
  refine ⟨⟨fun complete => ?_, fun condition out runs => ?_⟩,
    packs_instance garbage keysOnly filterProperty i buf⟩
  · by_contra neither
    obtain ⟨goesOn, missing⟩ := not_or.mp neither
    obtain ⟨out, runs, short⟩ := runSteps_short goesOn (not_not.mp missing) buf
    exact short (complete out runs)
  · by_cases stops : Stops fails 0
      ((instanceSteps keysOnly filterProperty i).flatMap Step.appends)
    · rw [runSteps_of_stops stops] at runs
      cases runs
    · rw [runSteps_whole stops (condition.resolve_left stops)] at runs
      exact (Option.some.inj runs).symm

/-- An instance of the class `A` with one datetime. -/
def dated : Instance :=
  ⟨ZString.ofString "A", 0, none, none, [⟨ZString.ofString "D", 0, .plain .datetime ⟨0, by decide⟩⟩]⟩

/-- A string, an array, a NULL and the instance above in a namespace. -/
def mixed : Instance :=
  ⟨ZString.ofString "M", 0, some (ZString.ofString "n"), none,
    [⟨ZString.ofString "S", 0, .string (ZString.ofString "ab")⟩,
      ⟨ZString.ofString "W", 0, .plains .uint16 [⟨7, by decide⟩, ⟨8, by decide⟩]⟩,
      ⟨ZString.ofString "N", 0, .null (.scalar .string)⟩,
      ⟨ZString.ofString "I", 0, .object false dated⟩]⟩

theorem instance_pack_complete_mixed :
    Complete (fun _ => 0) (fun _ => false) (instanceSteps false none mixed) [] ∧
      Complete (fun _ => 0) (fun n => n == 7) (instanceSteps false none mixed) [] := by
  have bounded : Bounded (fun _ => 0) (instanceSteps false none mixed) [] :=
    ⟨by decide, by decide +kernel⟩
  constructor
  · exact (instance_pack_complete_iff _ _ false none mixed [] bounded).1.mpr (.inr (by decide))
  · exact (instance_pack_complete_iff _ _ false none mixed [] bounded).1.mpr (.inl (by decide))

/-- The append of the datetime fails and the packing reports success without it. -/
theorem instance_pack_swallows :
    Bounded (fun _ => 0) (instanceSteps false none dated) [] ∧
      ¬ Complete (fun _ => 0) (fun n => n == 12) (instanceSteps false none dated) [] := by
  have bounded : Bounded (fun _ => 0) (instanceSteps false none dated) [] :=
    ⟨by decide, by decide +kernel⟩
  have goesOn : ¬ Stops (fun n => n == 12) 0
    ((instanceSteps false none dated).flatMap Step.appends) := by decide
  have missing : DatetimeFails (fun n => n == 12) 0
    ((instanceSteps false none dated).flatMap Step.appends) := by decide
  refine ⟨bounded, fun complete => ?_⟩
  obtain ⟨out, runs, short⟩ := runSteps_short goesOn missing []
  rw [appends_eq_asked bounded] at short
  exact short (complete out runs)

end Omi.Base.Failing
