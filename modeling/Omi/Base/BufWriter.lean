import Omi.Base.Packing
import Omi.Data.Run

/-!
# The growing buffer

The writer of `Buf` keeps its size and its capacity in 32 bits. Every append tests a sum
against the capacity and asks `Buf_Reserve` for more, which rounds up to a power of two.
All of this is arithmetic modulo `2^32`: a request above `2^31` rounds to zero, and a sum
beyond `2^32` passes the tests as a small number. An append is right as long as what it
needs is at most `2^31`, or is there already.

The calls for strings and arrays are sequences of four primitive requests, up to the
first that fails. Their byte counts are 32-bit arguments too, so that a longer string or
array is cut; what a call is asked for is stated with the bytes before the cut.
-/

namespace Omi.Base.Writer

open Bytes Codec

/-- A `Buf`: the bytes of its page, the size, the capacity, and whether a store has left the
page. -/
structure Buf where
  memory : Nat → UInt8
  size : Nat
  capacity : Nat
  overrun : Bool

/-- `Buf_Init`. -/
def Buf.init (memory : Nat → UInt8) (capacity : UInt32) : Buf :=
  ⟨memory, 0, max capacity.toNat 256, false⟩

/-- `_RoundPow2`. -/
def roundPow2 (x : Nat) : Nat := (PowerOfTwo.smear ((x + (2 ^ 32 - 1)) % 2 ^ 32) + 1) % 2 ^ 32

/-- `Buf_Reserve`; the allocation may be refused. -/
def reserve (allowed : Bool) (capacity : Nat) (b : Buf) : Bool × Buf :=
  if capacity > b.capacity then
    if allowed then (true, { b with capacity := roundPow2 capacity }) else (false, b)
  else (true, b)

/-- Copy bytes to an offset and end the contents behind them. -/
def Buf.store (b : Buf) (offset : Nat) (bytes : List UInt8) : Buf where
  memory i := if offset ≤ i then (bytes[i - offset]?).getD (b.memory i) else b.memory i
  size := (offset + bytes.length) % 2 ^ 32
  capacity := b.capacity
  overrun := b.overrun || decide (b.capacity < offset + bytes.length)

/-- The common body of the appends: reserve if the capacity is too small, then store. -/
def extend (allowed full : Bool) (request offset : Nat) (bytes : List UInt8) (b : Buf) :
    Bool × Buf :=
  match if full then reserve allowed request b else (true, b) with
  | (false, b) => (false, b)
  | (true, b) => (true, b.store offset bytes)

/-- `Buf_App`, which tests the 32-bit sum. -/
def app (allowed : Bool) (bytes : List UInt8) (b : Buf) : Bool × Buf :=
  let fin := (b.size + bytes.length) % 2 ^ 32
  extend allowed (b.capacity < fin) fin b.size bytes b

/-- `Buf_Pad16`, `Buf_Pad32` and `Buf_Pad64`. -/
def pad (allowed : Bool) (boundary : Nat) (b : Buf) : Bool × Buf :=
  let offset := aligned boundary b.size
  extend allowed (b.capacity < offset) offset offset [] b

/-- `Buf_PackU8` to `Buf_PackU64`, which test a sum of `size_t`. -/
def packScalar (allowed : Bool) (width value : Nat) (b : Buf) : Bool × Buf :=
  let offset := aligned width b.size
  extend allowed (b.capacity < offset + width) ((offset + width) % 2 ^ 32) offset
    (leBytes width value) b

/-- The primitive requests. Boundaries and widths are powers of two up to eight; the byte count
of `Buf_App` is a 32-bit argument. A NULL string is refused. -/
inductive Request where
  | reserve (capacity : UInt32)
  | app (bytes : List UInt8) (small : bytes.length < 2 ^ 32)
  | pad (boundary : Fin 4)
  | scalar (width : Fin 4) (value : Nat)
  | refuse

/-- One request. -/
def Request.perform (allowed : Bool) : Request → Buf → Bool × Buf
  | .reserve capacity, b => Writer.reserve allowed capacity.toNat b
  | .app bytes _, b => Writer.app allowed bytes b
  | .pad boundary, b => Writer.pad allowed (2 ^ boundary.val) b
  | .scalar width value, b => packScalar allowed (2 ^ width.val) value b
  | .refuse, b => (false, b)

/-! ## What a request is for -/

/-- The bytes that a request appends. -/
def Request.bytes : Request → List UInt8
  | .app bytes _ => bytes
  | .scalar width value => leBytes (2 ^ width.val) value
  | .reserve _ | .pad _ | .refuse => []

/-- Where they start. -/
def Request.start (b : Buf) : Request → Nat
  | .pad boundary | .scalar boundary _ => alignUp (2 ^ boundary.val) b.size
  | .reserve _ | .app _ _ | .refuse => b.size

/-- The capacity that a request needs, without a bound on the sums. -/
def Request.needed (r : Request) (b : Buf) : Nat :=
  match r with
  | .reserve capacity => capacity.toNat
  | .refuse => 0
  | r => r.start b + r.bytes.length

/-- The old contents, the padding and the new bytes. -/
def Appended (start : Nat) (bytes : List UInt8) (b after : Buf) : Prop :=
  after.size = start + bytes.length ∧ (∀ i < b.size, after.memory i = b.memory i) ∧
    ∀ i < bytes.length, after.memory (start + i) = bytes.getD i 0

/-- The invariant of the writer. -/
def Buf.Valid (b : Buf) : Prop :=
  b.size ≤ b.capacity ∧ b.capacity < 2 ^ 32 ∧ b.overrun = false

/-- A request that succeeds keeps the invariant, provides the capacity and appends its bytes; one
that needs more than 32 bits fails without a change. -/
def Outcome (needed start : Nat) (bytes : List UInt8) (b : Buf) (o : Bool × Buf) : Prop :=
  (o.1 = true → o.2.Valid ∧ needed ≤ o.2.capacity ∧ Appended start bytes b o.2) ∧
    (2 ^ 32 ≤ needed → o = (false, b))

/-- The outcome of one request. -/
def Request.Good (allowed : Bool) (r : Request) (b : Buf) : Prop :=
  Outcome (r.needed b) (r.start b) r.bytes b (r.perform allowed b)

/-- What is needed is there or at most `2^31`; or the request asks for memory and gets none. -/
def Request.Fits (allowed : Bool) (r : Request) (b : Buf) : Prop :=
  r.needed b ≤ max b.capacity (2 ^ 31) ∨
    (allowed = false ∧ b.capacity < r.needed b % 2 ^ 32)

/-! ## Arithmetic -/

theorem roundPow2_of_le {x : Nat} (positive : 0 < x) (small : x ≤ 2 ^ 31) :
    x ≤ roundPow2 x ∧ roundPow2 x < 2 ^ 32 := by
  have less : (x + (2 ^ 32 - 1)) % 2 ^ 32 = x - 1 := by omega
  unfold roundPow2
  rw [less]
  obtain rfl | more : x = 1 ∨ 1 < x := by omega
  · decide
  have nonzero : x - 1 ≠ 0 := by omega
  have lower := Nat.log2_self_le nonzero
  have upper := Nat.lt_log2_self (n := x - 1)
  have high : (x - 1).log2 < 31 := (Nat.log2_lt nonzero).mpr (by omega)
  rw [PowerOfTwo.smear_eq lower upper (by omega)]
  omega

theorem roundPow2_of_gt {x : Nat} (large : 2 ^ 31 < x) (small : x < 2 ^ 32) : roundPow2 x = 0 := by
  have less : (x + (2 ^ 32 - 1)) % 2 ^ 32 = x - 1 := by omega
  unfold roundPow2
  rw [less, PowerOfTwo.smear_eq (m := 31) (by omega) (by omega) (by decide)]
  rfl

theorem aligned_eq_mod (k : Fin 4) (n : Nat) :
    aligned (2 ^ k.val) n = alignUp (2 ^ k.val) n % 2 ^ 32 := by
  have split : 2 ^ 32 = 2 ^ k.val * 2 ^ (32 - k.val) := by
    rw [← Nat.pow_add, Nat.add_sub_cancel' (by omega)]
  unfold aligned alignUp
  rw [split, Nat.mod_mul_right_div_self, Nat.mul_comm (2 ^ k.val) (2 ^ (32 - k.val)),
    Nat.mul_mod_mul_right]

/-! ## One request -/

section Request

variable {allowed full : Bool} {b : Buf} {request offset : Nat} {bytes : List UInt8}

theorem store_kept {i : Nat} (below : i < offset) : (b.store offset bytes).memory i = b.memory i :=
  if_neg (Nat.not_le.mpr below)

theorem store_new {i : Nat} (inside : i < bytes.length) :
    (b.store offset bytes).memory (offset + i) = bytes.getD i 0 := by
  change (if offset ≤ offset + i then _ else _) = _
  rw [if_pos (Nat.le_add_right _ _), Nat.add_sub_cancel_left, List.getD_eq_getElem?_getD,
    List.getElem?_eq_getElem inside]
  rfl

/-- The common body stores unless memory is refused. -/
theorem extend_cases (asks : b.capacity < request → full = true) :
    (b.capacity < request ∧ allowed = false ∧
        extend allowed full request offset bytes b = (false, b)) ∨
      (b.capacity < request ∧ allowed = true ∧ extend allowed full request offset bytes b =
        (true, Buf.store { b with capacity := roundPow2 request } offset bytes)) ∨
      (request ≤ b.capacity ∧
        extend allowed full request offset bytes b = (true, b.store offset bytes)) := by
  unfold extend reserve
  by_cases more : b.capacity < request
  · rw [asks more, if_pos rfl, if_pos more]
    cases allowed
    · exact .inl ⟨more, rfl, rfl⟩
    · exact .inr (.inl ⟨more, rfl, rfl⟩)
  · rw [if_neg more, ite_self]
    exact .inr (.inr ⟨Nat.le_of_not_lt more, rfl⟩)

/-- A store inside a page that is large enough. -/
theorem outcome_store {page : Buf} {needed : Nat} (small : page.capacity < 2 ^ 32)
    (whole : page.overrun = false) (old : page.memory = b.memory) (behind : b.size ≤ offset)
    (fits : offset + bytes.length ≤ page.capacity) (ends : offset + bytes.length = needed) :
    Outcome needed offset bytes b (true, page.store offset bytes) := by
  have size : (page.store offset bytes).size = offset + bytes.length :=
    Nat.mod_eq_of_lt (by omega)
  refine ⟨fun _ => ⟨⟨?_, small, ?_⟩, ?_, size, fun i below => ?_, fun i inside => store_new inside⟩,
    fun large => absurd large (by omega)⟩
  · exact size.trans_le fits
  · simpa [Buf.store, whole] using fits
  · exact ends ▸ fits
  · rw [store_kept (by omega), old]

/-- What the common body does to a request that it can represent, and to another. -/
theorem extend_good_iff {start needed : Nat} (valid : b.Valid)
    (wrapped : request = needed % 2 ^ 32) (asks : b.capacity < request → full = true)
    (ends : start + bytes.length = needed) (behind : b.size ≤ start)
    (plain : needed < 2 ^ 32 → offset = start) :
    Outcome needed start bytes b (extend allowed full request offset bytes b) ↔
      needed ≤ max b.capacity (2 ^ 31) ∨ (allowed = false ∧ b.capacity < needed % 2 ^ 32) := by
  obtain ⟨sized, small, whole⟩ := valid
  rw [← wrapped]
  obtain ⟨more, refused, same⟩ | ⟨more, given_, same⟩ | ⟨there, same⟩ :=
    extend_cases asks
  · rw [same]
    exact ⟨fun _ => .inr ⟨refused, more⟩, fun _ => ⟨nofun, fun _ => rfl⟩⟩
  · rw [same, given_]
    constructor
    · rintro ⟨succeeds, large⟩
      refine .inl ?_
      by_contra above
      have represented : needed < 2 ^ 32 := by
        by_contra wraps
        cases large (by omega)
      have zero := roundPow2_of_gt (x := request) (by omega) (by omega)
      have enough := (succeeds rfl).2.1
      change needed ≤ roundPow2 request at enough
      omega
    · rintro (fits | ⟨no, -⟩)
      · obtain rfl := plain (by omega)
        obtain ⟨enough, below⟩ := roundPow2_of_le (x := request) (by omega) (by omega)
        exact outcome_store below whole rfl behind (by change _ ≤ roundPow2 _; omega) ends
      · cases no
  · rw [same]
    constructor
    · rintro ⟨-, large⟩
      refine .inl ?_
      by_contra above
      have represented : needed < 2 ^ 32 := by
        by_contra wraps
        cases large (by omega)
      omega
    · rintro (fits | ⟨-, more⟩)
      · obtain rfl := plain (by omega)
        exact outcome_store small whole rfl behind (by omega) ends
      · omega

theorem reserve_good_iff (capacity : UInt32) (valid : b.Valid) :
    (Request.reserve capacity).Good allowed b ↔ (Request.reserve capacity).Fits allowed b := by
  have small := capacity.toNat_lt
  obtain ⟨sized, bounded, whole⟩ := valid
  have kept (page : Nat) : Appended b.size [] b { b with capacity := page } :=
    ⟨rfl, fun _ _ => rfl, fun _ inside => absurd inside (Nat.not_lt_zero _)⟩
  have unwrapped (o : Bool × Buf) : Outcome capacity.toNat b.size [] b o ↔
      (o.1 = true → o.2.Valid ∧ capacity.toNat ≤ o.2.capacity ∧ Appended b.size [] b o.2) :=
    and_iff_left fun large => absurd large (Nat.not_le.mpr small)
  simp only [Request.Good, Request.Fits, Request.needed, Request.start, Request.bytes,
    Request.perform, Nat.mod_eq_of_lt small, reserve, unwrapped]
  by_cases more : capacity.toNat > b.capacity
  · simp only [if_pos more]
    cases allowed with
    | false => simp [more]
    | true =>
      simp only [if_true, forall_const, Bool.true_eq_false, false_and, or_false]
      constructor
      · rintro ⟨-, enough, -⟩
        by_contra above
        rw [roundPow2_of_gt (by omega) small] at enough
        omega
      · intro fits
        obtain ⟨enough, below⟩ := roundPow2_of_le (x := capacity.toNat) (by omega) (by omega)
        have still : b.size ≤ roundPow2 capacity.toNat := by omega
        exact ⟨⟨still, below, whole⟩, enough, kept _⟩
  · simp only [if_neg more, forall_const]
    exact ⟨fun _ => .inl (by omega), fun _ => ⟨⟨sized, bounded, whole⟩, by omega, kept _⟩⟩

/-- A request does what it is for exactly when what it needs fits. -/
theorem request_good_iff (r : Request) (valid : b.Valid) : r.Good allowed b ↔ r.Fits allowed b := by
  have up (k : Fin 4) : b.size ≤ alignUp (2 ^ k.val) b.size := le_alignUp (Nat.two_pow_pos _) _
  cases r with
  | reserve capacity => exact reserve_good_iff capacity valid
  | app bytes small =>
    exact extend_good_iff valid rfl (fun more => decide_eq_true more) rfl (Nat.le_refl _)
      fun _ => rfl
  | pad k =>
    exact extend_good_iff valid (aligned_eq_mod k _) (fun more => decide_eq_true more) rfl (up k)
      fun small => (aligned_eq_mod k _).trans (Nat.mod_eq_of_lt small)
  | scalar k value =>
    have width := length_leBytes (2 ^ k.val) value
    have offset := aligned_eq_mod k b.size
    have needed : (Request.scalar k value).needed b = alignUp (2 ^ k.val) b.size + 2 ^ k.val :=
      congrArg _ width
    refine extend_good_iff valid ?_ (fun more => decide_eq_true ?_) rfl (up k) fun small => ?_
    · rw [offset, Nat.mod_add_mod, needed]
    · exact more.trans_le (Nat.mod_le _ _)
    · exact offset.trans (Nat.mod_eq_of_lt (by omega))
  | refuse =>
    refine ⟨fun _ => .inl (Nat.zero_le _), fun _ => ⟨nofun, fun large => ?_⟩⟩
    change 2 ^ 32 ≤ 0 at large
    omega

theorem extend_failed (failed : (extend allowed full request offset bytes b).1 = false) :
    (extend allowed full request offset bytes b).2 = b := by
  unfold extend reserve at failed ⊢
  grind -ring -linarith

/-- A request that fails changes nothing. -/
theorem perform_failed {r : Request} (failed : (r.perform allowed b).1 = false) :
    (r.perform allowed b).2 = b := by
  cases r with
  | reserve capacity =>
    simp only [Request.perform, reserve] at failed ⊢
    grind -ring -linarith
  | app bytes small | pad k | scalar k value => exact extend_failed failed
  | refuse => rfl

end Request

/-! ## Calls and runs -/

/-- `Buf_App` of as many bytes as a 32-bit count says. -/
def cut (count : Nat) (bytes : List UInt8) : Request :=
  .app (bytes.take (count % 2 ^ 32))
    (Nat.lt_of_le_of_lt (List.length_take_le _ _) (Nat.mod_lt _ (by decide)))

/-- A size and that many bytes of a string. -/
def sized (size : Nat) (s : ZString) : List Request :=
  [.scalar 2 (size % 2 ^ 32), cut size s.bytes]

/-- The table of `Buf_PackStrA`, up to a NULL string. -/
def tableOf : Nat → List (Option ZString) → List Request
  | offset, [] => [.scalar 3 offset]
  | _, none :: _ => [.refuse]
  | offset, some s :: rest => .scalar 3 offset :: tableOf (offset + (s.length + 1)) rest

/-- The calls of the writer. -/
inductive Call where
  | primitive (r : Request)
  | str (s : Option ZString)
  | strLen (s : Option ZString) (size : Nat)
  | array (width : Nat) (items : List (Fin (256 ^ width)))
  | strA (items : List (Option ZString))
  | dt (x : Fin (256 ^ 36))
  | dta (items : List (Fin (256 ^ 36)))

/-- The requests of a call. -/
def Call.requests : Call → List Request
  | .primitive r => [r]
  | .str none | .strLen none _ => [.scalar 2 0]
  | .str (some s) => sized (s.length + 1) s
  | .strLen (some s) size => sized (size + 1) s
  | .array width items => .scalar 2 items.length ::
      if items = [] then []
      else (if width = 8 then [.pad 3] else []) ++
        [cut (items.length * width) (arrayBytes items)]
  | .strA items => .scalar 2 items.length ::
      if items = [] then []
      else .pad 3 :: tableOf 0 items ++
        items.filterMap fun s => s.map fun s => cut (s.length + 1) s.bytes
  | .dt x => [.pad 2, cut 36 (leBytes 36 x)]
  | .dta items => [.scalar 2 items.length, cut (items.length * 36) (arrayBytes items)]

/-- The requests of a call, up to the first that fails. -/
def performAll (allowed : Nat → Bool) : Nat → List Request → Buf → Bool × Buf
  | _, [], b => (true, b)
  | n, r :: rest, b =>
    if (r.perform (allowed n) b).1 then performAll allowed (n + 1) rest (r.perform (allowed n) b).2
    else (false, (r.perform (allowed n) b).2)

/-- Every request that is made fits. -/
def Met (allowed : Nat → Bool) : Nat → List Request → Buf → Prop
  | _, [], _ => True
  | n, r :: rest, b => r.Fits (allowed n) b ∧ ((r.perform (allowed n) b).1 = true →
      Met allowed (n + 1) rest (r.perform (allowed n) b).2)

/-! ## What a call is asked for -/

/-- Room, bytes at a boundary, or nothing because of a NULL string. -/
inductive Demand where
  | room (capacity : Nat)
  | bytes (boundary : Fin 4) (bytes : List UInt8)
  | refuse

/-- The demand that a request meets. -/
def Request.demand : Request → Demand
  | .reserve capacity => .room capacity.toNat
  | .app bytes _ => .bytes 0 bytes
  | .pad boundary => .bytes boundary []
  | .scalar width value => .bytes width (leBytes (2 ^ width.val) value)
  | .refuse => .refuse

/-- The demands of a call, with all the bytes of its string or array. -/
def Call.demands : Call → List Demand
  | .primitive r => [r.demand]
  | .str none | .strLen none _ => [.bytes 2 (leBytes 4 0)]
  | .str (some s) => [.bytes 2 (leBytes 4 (s.length + 1)), .bytes 0 s.bytes]
  | .strLen (some s) size =>
      [.bytes 2 (leBytes 4 (size + 1)), .bytes 0 (s.bytes.take (size + 1))]
  | .array width items => .bytes 2 (leBytes 4 items.length) ::
      if items = [] then []
      else (if width = 8 then [.bytes 3 []] else []) ++ [.bytes 0 (arrayBytes items)]
  | .strA items => .bytes 2 (leBytes 4 items.length) ::
      if items = [] then []
      else .bytes 3 [] :: (tableOf 0 items).map Request.demand ++
        items.filterMap fun s => s.map fun s => .bytes 0 s.bytes
  | .dt x => [.bytes 2 [], .bytes 0 (leBytes 36 x)]
  | .dta items => [.bytes 2 (leBytes 4 items.length), .bytes 0 (arrayBytes items)]

/-- The byte counts of a call. -/
def Call.counts : Call → List Nat
  | .primitive _ | .str none | .strLen none _ => []
  | .str (some s) => [s.length + 1]
  | .strLen (some _) size => [size + 1]
  | .array width items => [items.length * width]
  | .strA items => items.filterMap fun s => s.map fun s => s.length + 1
  | .dt _ => [36]
  | .dta items => [items.length * 36]

/-- The byte counts fit 32 bits. -/
def Call.Represented (c : Call) : Prop := ∀ count ∈ c.counts, count < 2 ^ 32

instance (c : Call) : Decidable c.Represented :=
  inferInstanceAs (Decidable (∀ count ∈ c.counts, count < 2 ^ 32))

theorem cut_demand {count : Nat} (small : count < 2 ^ 32) (bytes : List UInt8) :
    (cut count bytes).demand = .bytes 0 (bytes.take count) := by
  change Demand.bytes 0 (bytes.take (count % 2 ^ 32)) = _
  rw [Nat.mod_eq_of_lt small]

theorem cut_demand_all {count : Nat} {bytes : List UInt8} (small : count < 2 ^ 32)
    (all : bytes.length = count) : (cut count bytes).demand = .bytes 0 bytes := by
  rw [cut_demand small, List.take_of_length_le (Nat.le_of_eq all)]

theorem sized_demands {size : Nat} (small : size < 2 ^ 32) (s : ZString) :
    (sized size s).map Request.demand =
      [.bytes 2 (leBytes 4 size), .bytes 0 (s.bytes.take size)] := by
  unfold sized
  rw [List.map_cons, List.map_singleton, cut_demand small, Nat.mod_eq_of_lt small]
  rfl

theorem strings_demands {items : List (Option ZString)}
    (represented : (Call.strA items).Represented) :
    (items.filterMap fun s => s.map fun s => cut (s.length + 1) s.bytes).map Request.demand =
      items.filterMap fun s => s.map fun s => .bytes 0 s.bytes := by
  rw [List.map_filterMap]
  refine List.filterMap_congr fun item inside => ?_
  cases item with
  | none => rfl
  | some s =>
    have small := represented (s.length + 1) (List.mem_filterMap.mpr ⟨some s, inside, rfl⟩)
    exact congrArg some (cut_demand_all small (length_bytes s))

/-- A call whose counts are represented asks for all its bytes. -/
theorem Call.demands_of_represented {c : Call} (represented : c.Represented) :
    c.requests.map Request.demand = c.demands := by
  have only {count : Nat} (one : c.counts = [count]) : count < 2 ^ 32 :=
    represented count (one ▸ List.mem_singleton_self count)
  cases c with
  | primitive r => rfl
  | str s =>
    cases s with
    | none => rfl
    | some s =>
      refine (sized_demands (only rfl) s).trans ?_
      rw [List.take_of_length_le (Nat.le_of_eq (length_bytes s))]
      rfl
  | strLen s size =>
    cases s with
    | none => rfl
    | some s => exact sized_demands (only rfl) s
  | array width items =>
    have length : (arrayBytes items).length = items.length * width := length_arrayBytes
    have data := cut_demand_all (only rfl) length
    rw [Call.requests, Call.demands]
    split
    · rfl
    split <;> simp only [List.map_cons, List.map_append, List.map_nil, data] <;> rfl
  | strA items =>
    rw [Call.requests, Call.demands]
    split
    · rfl
    rw [List.map_cons, List.cons_append, List.map_cons, List.map_append,
      strings_demands represented]
    rfl
  | dt x =>
    exact congrArg (fun d => [_, d]) (cut_demand_all (only rfl) (length_leBytes 36 x))
  | dta items =>
    exact congrArg (fun d => [_, d]) (cut_demand_all (only rfl) length_arrayBytes)

/-- The demands are met one after the other. -/
def Written : List Demand → Buf → Buf → Prop
  | [], b, after => after = b
  | .room capacity :: rest, b, after =>
      ∃ mid, capacity ≤ mid.capacity ∧ Appended b.size [] b mid ∧ Written rest mid after
  | .bytes boundary bytes :: rest, b, after =>
      ∃ mid, Appended (alignUp (2 ^ boundary.val) b.size) bytes b mid ∧ Written rest mid after
  | .refuse :: _, _, _ => False

theorem written_cons {allowed : Bool} {r : Request} {rest : List Demand} {b mid after : Buf}
    (succeeds : (r.perform allowed b).1 = true) (enough : r.needed b ≤ mid.capacity)
    (appended : Appended (r.start b) r.bytes b mid) (written : Written rest mid after) :
    Written (r.demand :: rest) b after := by
  cases r with
  | reserve capacity => exact ⟨mid, enough, appended, written⟩
  | app bytes small =>
    have here : alignUp (2 ^ (0 : Fin 4).val) b.size = b.size :=
      (Nat.mul_one _).trans (Nat.div_one _)
    refine ⟨mid, ?_, written⟩
    rw [here]
    exact appended
  | pad k | scalar k value => exact ⟨mid, appended, written⟩
  | refuse => cases succeeds

theorem performAll_good {allowed : Nat → Bool} {n : Nat} {rs : List Request} {b : Buf}
    (valid : b.Valid) (met : Met allowed n rs b) :
    (performAll allowed n rs b).2.Valid ∧
      ((performAll allowed n rs b).1 = true →
        Written (rs.map Request.demand) b (performAll allowed n rs b).2) := by
  induction rs generalizing n b with
  | nil => exact ⟨valid, fun _ => rfl⟩
  | cons r rest ih =>
    have good := (request_good_iff r valid).mpr met.1
    rw [performAll]
    split
    · next succeeds =>
        obtain ⟨kept, enough, appended⟩ := good.1 succeeds
        obtain ⟨finally_, written⟩ := ih kept (met.2 succeeds)
        exact ⟨finally_, fun ok => written_cons succeeds enough appended (written ok)⟩
    · next fails =>
        refine ⟨?_, nofun⟩
        rw [perform_failed (Bool.eq_false_iff.mpr fails)]
        exact valid

/-- A call in a run, with what the allocator answers. -/
def step (b : Buf) (call : Call × (Nat → Bool)) : Option Buf :=
  some (performAll call.2 0 call.1.requests b).2

/-- The condition on a call: its counts are represented and its requests fit. -/
def CallMet (b : Buf) (call : Call × (Nat → Bool)) : Prop :=
  call.1.Represented ∧ Met call.2 0 call.1.requests b

/-- A call leaves a valid buffer, and appends all its bytes if it succeeds. -/
def CallGood (b : Buf) (call : Call × (Nat → Bool)) : Prop :=
  (performAll call.2 0 call.1.requests b).2.Valid ∧
    ((performAll call.2 0 call.1.requests b).1 = true →
      Written call.1.demands b (performAll call.2 0 call.1.requests b).2)

/-- In a valid buffer a request does what it is for exactly when what it needs is at most `2^31`
or there already, or memory is asked for and refused; and every run from `Buf_Init` whose
counts are represented and whose requests fit keeps the buffer valid and appends what its
calls are asked for. -/
theorem writer_good_iff {b : Buf} (valid : b.Valid) (r : Request) (allowed : Bool) :
    (r.Good allowed b ↔ r.Fits allowed b) ∧
      ∀ memory capacity calls, Run.Along step CallMet (Buf.init memory capacity) calls →
        Run.Along step CallGood (Buf.init memory capacity) calls := by
  refine ⟨request_good_iff r valid, fun memory capacity calls => ?_⟩
  have start : (Buf.init memory capacity).Valid :=
    ⟨Nat.zero_le _, max_lt capacity.toNat_lt (by decide), rfl⟩
  have gives (b : Buf) (call : Call × (Nat → Bool)) (valid : b.Valid) (met : CallMet b call) :
      CallGood b call := by
    unfold CallGood
    rw [← Call.demands_of_represented met.1]
    exact performAll_good valid met.2
  refine Run.along_of_invariant gives ?_ start
  intro b call next valid met taken
  cases taken
  exact (gives b call valid met).1

/-- A reservation that makes the page grow, a string, an array and an array of strings; then the
allocator refuses what does not fit the page. -/
def mixedCalls : List (Call × (Nat → Bool)) :=
  [(.primitive (.reserve 1000), fun _ => true), (.str (some (ZString.ofString "OMI")), fun _ => true),
    (.array 8 [Fin.ofNat _ 7, Fin.ofNat _ 8, Fin.ofNat _ 9], fun _ => true),
    (.strA [some (ZString.ofString "a"), some (ZString.ofString "bc")], fun _ => false),
    (.primitive (.reserve 1025), fun _ => false)]

theorem writer_good_mixedCalls :
    Run.Along step CallMet (Buf.init (fun _ => 0) 0) mixedCalls ∧
      Run.Along step CallGood (Buf.init (fun _ => 0) 0) mixedCalls ∧
      (Request.app [1, 2, 3] (by decide)).Good true ⟨fun _ => 0, 255, 256, false⟩ := by
  have met : Run.Along step CallMet (Buf.init (fun _ => 0) 0) mixedCalls := by
    refine ⟨⟨by decide, .inl (by decide), fun _ => trivial⟩, ?_⟩
    rintro _ ⟨⟩
    refine ⟨⟨by decide, ?_⟩, ?_⟩
    · iterate 2 refine ⟨.inl (by decide), fun _ => ?_⟩
      trivial
    rintro _ ⟨⟩
    refine ⟨⟨by decide, ?_⟩, ?_⟩
    · iterate 3 refine ⟨.inl (by decide), fun _ => ?_⟩
      trivial
    rintro _ ⟨⟩
    refine ⟨⟨by decide, ?_⟩, ?_⟩
    · iterate 7 refine ⟨.inl (by decide), fun _ => ?_⟩
      trivial
    rintro _ ⟨⟩
    refine ⟨⟨by decide, .inr ⟨rfl, by decide⟩, fun _ => trivial⟩, ?_⟩
    rintro _ ⟨⟩
    trivial
  obtain ⟨request, runs⟩ := writer_good_iff (b := ⟨fun _ => 0, 255, 256, false⟩)
    ⟨by decide, by decide, rfl⟩ (.app [1, 2, 3] (by decide)) true
  exact ⟨met, runs _ _ _ met, request.mpr (.inl (by decide))⟩

/-- A reservation of more than `2^31` bytes succeeds and leaves no capacity, an append whose sum
wraps succeeds, and so does an array whose byte count wraps, with none of its data. -/
theorem writer_faults :
    ((Request.reserve 2147483649).perform true (Buf.init (fun _ => 0) 256)).1 = true ∧
      ((Request.reserve 2147483649).perform true (Buf.init (fun _ => 0) 256)).2.capacity = 0 ∧
      ¬ (Request.reserve 2147483649).Good true (Buf.init (fun _ => 0) 256) ∧
      ¬ (Request.app [1, 2] (by decide)).Good true ⟨fun _ => 0, 4294967295, 4294967295, false⟩ ∧
      ∀ items : List (Fin (256 ^ 8)), items.length = 536870912 →
        (performAll (fun _ => true) 0 (Call.array 8 items).requests (Buf.init (fun _ => 0) 256)).1
            = true ∧
          (performAll (fun _ => true) 0 (Call.array 8 items).requests
            (Buf.init (fun _ => 0) 256)).2.size = 8 := by
  have capacity : ((Request.reserve 2147483649).perform true (Buf.init (fun _ => 0) 256)).2.capacity
      = 0 := by decide
  refine ⟨by decide, capacity, fun good => ?_, fun good => ?_, fun items many => ?_⟩
  · have enough := (good.1 (by decide)).2.1
    exact absurd enough (by decide)
  · have unchanged := congrArg Prod.fst (good.2 (by decide))
    exact absurd unchanged (by decide)
  · have some_ : items ≠ [] := by
      rintro rfl
      cases many
    have nothing : cut (items.length * 8) (arrayBytes items) = .app [] (by decide) := by
      rw [many]
      rfl
    rw [Call.requests, if_neg some_, if_pos rfl, nothing, many]
    decide

end Omi.Base.Writer
