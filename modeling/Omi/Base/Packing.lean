import Omi.Base.Buf
import Omi.Base.Instance

/-!
# Binary packing of instances

`Instance_Pack` writes an instance between two magic numbers: the class, the namespace
and the elements, each with its flags, name, type and value. The server name is not
part of the format. A reference is packed with its keys only, and an output parameter
`MIReturn` takes the name `ReturnValue`.

`Instance_Unpack` builds a new dynamic instance. It passes the packed flags to
`__MI_Instance_AddElement`, which reads `MI_FLAG_NULL` in them as a NULL value. The
nesting of the packed data bounds its recursion; the model takes the length of the
buffer as fuel, of which each level of a packed instance uses at least one byte.
-/

namespace Omi.Base

open Codec

/-! ## Types on the wire -/

/-- `MI_Type` of a plain type. -/
def PlainType.code : PlainType → Nat
  | .boolean => 0
  | .uint8 => 1
  | .sint8 => 2
  | .uint16 => 3
  | .sint16 => 4
  | .uint32 => 5
  | .sint32 => 6
  | .uint64 => 7
  | .sint64 => 8
  | .real32 => 9
  | .real64 => 10
  | .char16 => 11
  | .datetime => 12

/-- `MI_Type` of a scalar. -/
def ScalarType.code : ScalarType → Nat
  | .plain t => t.code
  | .string => 13
  | .reference => 14
  | .embedded => 15

/-- `MI_Type`; arrays have the bit `MI_ARRAY`. -/
def MiType.code : MiType → Nat
  | .scalar t => t.code
  | .array t => t.code + 16

/-- The plain types in the order of their codes. -/
def plainTypes : List PlainType :=
  [.boolean, .uint8, .sint8, .uint16, .sint16, .uint32, .sint32, .uint64, .sint64, .real32,
    .real64, .char16, .datetime]

/-- All types in the order of their codes. -/
def miTypes : List MiType :=
  let scalars := plainTypes.map .plain ++ [.string, .reference, .embedded]
  scalars.map .scalar ++ scalars.map .array

/-- The type with a code. Other codes index `_fieldSizes` out of bounds. -/
def MiType.ofCode (code : Nat) : Option MiType := miTypes[code]?

theorem MiType.ofCode_code (t : MiType) : MiType.ofCode t.code = some t := by
  rcases t with (_ | _ | _ | _) | (_ | _ | _ | _) <;> try rfl
  all_goals rename_i t; cases t <;> rfl

theorem MiType.code_lt (t : MiType) : t.code < 32 := by
  rcases t with (_ | _ | _ | _) | (_ | _ | _ | _) <;> try decide
  all_goals rename_i t; cases t <;> decide

/-- The boundary of a plain value; an `MI_Datetime` consists of 32-bit words. -/
def PlainType.boundary : PlainType → Nat
  | .datetime => 4
  | t => t.width

/-- The boundary behind the size of an array. Only `Buf_PackU64A` pads there. -/
def PlainType.arrayBoundary (t : PlainType) : Nat := if t.width = 8 then 8 else 1

/-- `INSTANCE_MAGIC`. -/
def instanceMagic : Nat := 0x462b9957

/-- `_END_MAGIC`. -/
def endMagic : Nat := 0x76f474e3

/-! ## Packing -/

/-- `NameLen`: the low byte of the code is a first guess at the length. -/
def nameLen (name : ZString) (code : Nat) : Nat :=
  let n := code % 256
  if n < name.length then (n + (name.length - n) % 2 ^ 32) % 2 ^ 32 else n

/-- The code of a name gives its length in 32 bits. -/
theorem nameLen_hash (name : ZString) : nameLen name (hash name) = name.length % 2 ^ 32 := by
  have low : hash name % 256 = name.length % 256 := by
    unfold hash
    dsimp only
    split
    · omega
    · rw [show (256 : Nat) = 2 ^ 8 from rfl, Nat.or_mod_two_pow, Nat.or_mod_two_pow,
        Nat.shiftLeft_eq, Nat.shiftLeft_eq]
      rw [show ∀ x : Nat, x * 2 ^ 16 % 2 ^ 8 = 0 by omega,
        show ∀ x : Nat, x * 2 ^ 8 % 2 ^ 8 = 0 by omega, Nat.or_zero, Nat.zero_or]
      omega
  unfold nameLen
  dsimp only
  rw [low]
  split <;> omega

/-- Names that compare equal have one code, so comparing the codes first hides no element, and the
code of a name gives its length up to 32 bits. -/
theorem code_of_name (a b : ZString) (elements : List Element) :
    (tcscasecmp a.chars b.chars = 0 → hash a = hash b) ∧
      findPropertyDecl elements b =
        elements.findIdx? (fun e => tcscasecmp e.name.chars b.chars == 0) ∧
      nameLen a (hash a) = a.length % 2 ^ 32 := by
  refine ⟨hash_eq_of_tcscasecmp, ?_, nameLen_hash a⟩
  unfold findPropertyDecl
  congr 1
  funext e
  exact sameName_eq e.name b

/-- The length of a name of `2 ^ 32` characters does not fit. -/
theorem code_of_long_name :
    let a : ZString :=
      ⟨List.replicate (2 ^ 32) 97, fun inside => nomatch List.eq_of_mem_replicate inside⟩
    a.length = 2 ^ 32 ∧ nameLen a (hash a) = 0 := by
  intro a
  have long : a.length = 2 ^ 32 := List.length_replicate
  rw [nameLen_hash, long]
  exact ⟨rfl, rfl⟩

/-- The name under which an element is packed. -/
def Element.packedName (e : Element) : ZString :=
  if hasFlag e.flags flagParameter && hasFlag e.flags flagOut
      && e.name == ZString.ofString "MIReturn" then
    ZString.ofString "ReturnValue"
  else e.name

/-- The element is left out. -/
def Element.skipped (keysOnly : Bool) (filterProperty : Option (ZString → Bool)) (e : Element) :
    Bool :=
  (keysOnly && !hasFlag e.flags flagKey) || (filterProperty.any fun filter => filter e.name)

/-- The number of elements that is announced. -/
def packedCount (keysOnly : Bool) (filterProperty : Option (ZString → Bool))
    (elements : List Element) : Nat :=
  if keysOnly then elements.countP fun e => hasFlag e.flags flagKey
  else
    match filterProperty with
    | some filter => elements.countP fun e => !filter e.name
    | none => elements.length

section Pack

variable (garbage : Nat → UInt8)

mutual

/-- `_PackField`. A NULL entry in an array of instances is refused by `Instance_Pack`. -/
def Value.packField : Value → Pack Unit
  | .null _ => packU8 garbage 0
  | .plain t x => do
      packU8 garbage 1
      packScalar garbage t.boundary t.width x
  | .string s => do
      packU8 garbage 1
      packStr garbage (some s)
  | .object isReference i => do
      packU8 garbage 1
      i.pack isReference none
  | .plains t xs => do
      packU8 garbage 1
      packArray garbage t.arrayBoundary t.width xs
  | .strings xs => do
      packU8 garbage 1
      packStrA garbage xs
  | .objects isReference xs => do
      packU8 garbage 1
      packU32 garbage xs.length
      packItems isReference xs

/-- The loop over an array of instances. -/
def packItems (keysOnly : Bool) : List (Option Instance) → Pack Unit
  | [] => pure ()
  | none :: _ => fun _ => none
  | some i :: rest => do
      i.pack keysOnly none
      packItems keysOnly rest

/-- The loop over the elements. -/
def packElements (keysOnly : Bool) (filterProperty : Option (ZString → Bool)) :
    List Element → Pack Unit
  | [] => pure ()
  | ⟨name, flags, value⟩ :: rest =>
    if (Element.mk name flags value).skipped keysOnly filterProperty then
      packElements keysOnly filterProperty rest
    else do
      let packed := (Element.mk name flags value).packedName
      packU32 garbage flags.toNat
      packStrLen garbage packed (nameLen packed (hash name))
      packU32 garbage value.type.code
      value.packField
      packElements keysOnly filterProperty rest

/-- `Instance_Pack`. -/
def Instance.pack (keysOnly : Bool) (filterProperty : Option (ZString → Bool)) :
    Instance → Pack Unit
  | ⟨className, flags, nameSpace, _, elements⟩ => do
      packU32 garbage instanceMagic
      packU32 garbage flags.toNat
      packStrLen garbage className (nameLen className (hash className))
      packStr garbage nameSpace
      packU32 garbage (packedCount keysOnly filterProperty elements)
      packElements keysOnly filterProperty elements
      packU32 garbage endMagic

end

end Pack

/-! ## Unpacking -/

section Unpack

variable (copy : Bool) (nested : Unpack Instance)

/-- The value of a field that exists, by its type. A NULL string makes a NULL element. -/
def unpackExisting : MiType → Unpack Value
  | .scalar (.plain t) => do
      let x ← unpackScalar t.boundary t.width
      pure (.plain t x)
  | .scalar .string => do
      let s ← unpackStr
      pure (s.elim (.null (.scalar .string)) .string)
  | .scalar .reference => do
      let i ← nested
      pure (.object true i)
  | .scalar .embedded => do
      let i ← nested
      pure (.object false i)
  | .array (.plain t) => do
      let xs ← unpackArray t.arrayBoundary t.width
      pure (.plains t xs)
  | .array .string => do
      let xs ← unpackStrA
      pure (.strings (xs.map some))
  | .array .reference => do
      let size ← unpackU32
      let items ← many nested size
      pure (.objects true (items.map some))
  | .array .embedded => do
      let size ← unpackU32
      let items ← many nested size
      pure (.objects false (items.map some))

/-- `_UnpackField`. -/
def unpackField (type : MiType) : Unpack Value := do
  let exists_ ← unpackU8
  if exists_.val = 0 then pure (.null type) else unpackExisting nested type

/-- The call of `MI_Instance_AddElement` for an unpacked element, which must succeed. -/
def addUnpacked (h : Handle) (name : Option ZString) (value : Value) (flags : UInt32) :
    Option Handle := do
  let name ← name
  let (result, after) ←
    h.addElement true name value (if copy then flags else flags ||| flagBorrow)
  if result then some after else none

/-- The loop over the packed elements. -/
def unpackElements : Nat → Handle → Unpack Handle
  | 0, h => pure h
  | n + 1, h => do
      let flags ← unpackU32
      let name ← unpackStr
      let code ← unpackU32
      let type ← check (MiType.ofCode code)
      let value ← unpackField nested type
      let after ← check (addUnpacked copy h name value (UInt32.ofNat flags))
      unpackElements n after

end Unpack

/-- `Instance_Unpack`, for data that are nested no deeper than the fuel. -/
def unpackWithin (copy : Bool) : Nat → Unpack Instance
  | 0 => fun _ _ => none
  | fuel + 1 => do
      let magic ← unpackU32
      check (if magic.val = instanceMagic then some () else none)
      let flags ← unpackU32
      let className ← unpackStr
      let nameSpace ← unpackStr
      let numProperties ← unpackU32
      let h ← check (className.bind fun name => newDynamic name (UInt32.ofNat flags))
      let after ← unpackElements copy (unpackWithin copy fuel) numProperties
        (h.setNameSpace nameSpace)
      let magic ← unpackU32
      check (if magic.val = endMagic then some () else none)
      pure after.inst

/-- `Instance_Unpack`. -/
def Instance.unpack (copy : Bool) : Unpack Instance := fun data offset =>
  unpackWithin copy data.length data offset

end Omi.Base
