import Omi.Wsman.Attachment

/-!
# The queue of a context and its counters

The queue is a list with two counters of 32 bits, its length and its size in
bytes. As long as the instances are small enough the sums never wrap, so the
counters are the true length and size of the queue. On the way the operations
that fill a response are described by what they take from the front of the
queue.
-/

namespace Omi.Wsman

open List

universe u

variable {α : Type u}

/-- The size of a list of instances. -/
def packedSize (queue : List (PostInstanceMsg α)) : Nat :=
  (queue.map fun m => m.packedInstanceSize.toNat).sum

@[simp] theorem packedSize_nil : packedSize ([] : List (PostInstanceMsg α)) = 0 := rfl

@[simp] theorem packedSize_cons (m : PostInstanceMsg α) (rest : List (PostInstanceMsg α)) :
    packedSize (m :: rest) = m.packedInstanceSize.toNat + packedSize rest := by
  simp [packedSize]

@[simp] theorem packedSize_append (first second : List (PostInstanceMsg α)) :
    packedSize (first ++ second) = packedSize first + packedSize second := by
  simp [packedSize]

namespace EnumerateContext

/-! ## The subset of a response -/

theorem getMessageSubset_append (c : ConnectionData) (count totalSize : UInt32)
    (queue : List (PostInstanceMsg α)) :
    (getMessageSubset c count totalSize queue).1 ++ (getMessageSubset c count totalSize queue).2
      = queue := by
  induction queue generalizing count totalSize with
  | nil => rfl
  | cons m rest ih =>
    simp only [getMessageSubset]
    split
    · rfl
    · exact congrArg (m :: ·) (ih (count + 1) (totalSize + m.packedInstanceSize))

/-- The response keeps to the limit of the client. The queue is too short for the count to
wrap. -/
theorem getMessageSubset_length (c : ConnectionData) (count totalSize : UInt32)
    (queue : List (PostInstanceMsg α)) (room : count ≤ c.maxElements)
    (short : count.toNat + queue.length < 2 ^ 32) :
    (getMessageSubset c count totalSize queue).1.length + count.toNat ≤ c.maxElements.toNat := by
  induction queue generalizing count totalSize with
  | nil => simpa [getMessageSubset] using UInt32.le_iff_toNat_le.mp room
  | cons m rest ih =>
    simp only [getMessageSubset]
    split
    · simpa using UInt32.le_iff_toNat_le.mp room
    · rename_i fits
      rw [length_cons] at short
      have next : (count + 1).toNat = count.toNat + 1 := by
        rw [UInt32.toNat_add]
        exact Nat.mod_eq_of_lt (by simp only [UInt32.toNat_one]; omega)
      have more := ih (count + 1) (totalSize + m.packedInstanceSize)
        (UInt32.not_lt.mp (not_or.mp fits).1) (by omega)
      simp only [length_cons]
      omega

variable {m : PostInstanceMsg α}

/-- When the first instance fits into the envelope, it is sent. -/
theorem getMessageSubset_ne_nil {c : ConnectionData}
    (fits : m.packedInstanceSize.toNat + approxEnumRespEnvelopeSize ≤ c.maxEnvelopeSize.toNat)
    (rest : List (PostInstanceMsg α)) : (getMessageSubset c 0 0 (m :: rest)).1 ≠ [] := by
  have allowed : ¬(c.maxElements < 0 + 1 ∨ c.maxEnvelopeSize.toNat
      < (0 + m.packedInstanceSize).toNat + approxEnumRespEnvelopeSize) := by
    have positive := c.maxElements_pos
    simp only [UInt32.zero_add, not_or, Nat.not_lt]
    refine ⟨?_, fits⟩
    grind
  simp only [getMessageSubset, if_neg allowed]
  exact cons_ne_nil _ _

/-! ## The counters -/

/-- The counters of the queue are right, the queue keeps to its bounds, and no instance in it
or held back is larger than `limit`. -/
structure Tallied (limit : Nat) (ec : EnumerateContext α) : Prop where
  count : ec.totalResponses.toNat = ec.queue.length
  count_le : ec.queue.length ≤ maxWsmanCollectionSize.toNat
  size : ec.totalResponseSize.toNat = packedSize ec.queue
  size_le : packedSize ec.queue ≤ maxWsmanBufferSize.toNat
  small : ∀ m ∈ ec.queue ++ ec.pendingMessage.toList, m.packedInstanceSize.toNat ≤ limit

/-- The limits below which no sum wraps. -/
def Wrapless (limit : Nat) : Prop := limit + maxWsmanBufferSize.toNat < 2 ^ 32

variable {limit : Nat} {ec : EnumerateContext α}

section

variable (tallied : ec.Tallied limit)
include tallied

section

variable (wrapless : Wrapless limit) (small : m.packedInstanceSize.toNat ≤ limit)
include wrapless small

theorem Tallied.add_size :
    (ec.totalResponseSize + m.packedInstanceSize).toNat
      = packedSize ec.queue + m.packedInstanceSize.toNat := by
  have bound := tallied.size_le
  rw [UInt32.toNat_add, tallied.size]
  exact Nat.mod_eq_of_lt (by simp only [Wrapless] at wrapless; omega)

/-- An instance that the queue has room for enters it. -/
theorem Tallied.append (fits : ec.totalResponseSize + m.packedInstanceSize ≤ maxWsmanBufferSize)
    (room : ec.queue.length < maxWsmanCollectionSize.toNat) : (ec.append m).Tallied limit := by
  have sum := tallied.add_size wrapless small
  refine ⟨?_, ?_, ?_, ?_, ?_⟩
  · have bound : maxWsmanCollectionSize.toNat < 2 ^ 31 := by decide
    change (ec.totalResponses + 1).toNat = (ec.queue ++ [m]).length
    rw [UInt32.toNat_add, tallied.count, length_append]
    exact Nat.mod_eq_of_lt (by simp only [UInt32.toNat_one]; omega)
  · change (ec.queue ++ [m]).length ≤ _
    simp only [length_append, length_cons, length_nil]
    omega
  · change (ec.totalResponseSize + m.packedInstanceSize).toNat = packedSize (ec.queue ++ [m])
    simpa using sum
  · change packedSize (ec.queue ++ [m]) ≤ _
    simpa [sum] using UInt32.le_iff_toNat_le.mp fits
  · intro x member
    have cases : x ∈ ec.queue ++ ec.pendingMessage.toList ∨ x = m := by
      simp only [EnumerateContext.append, mem_append, mem_singleton] at member ⊢
      tauto
    rcases cases with earlier | rfl
    · exact tallied.small x earlier
    · exact small

theorem Tallied.append_of_room
    (room : ¬(maxWsmanBufferSize < ec.totalResponseSize + m.packedInstanceSize
      ∨ ec.totalResponses = maxWsmanCollectionSize)) : (ec.append m).Tallied limit := by
  obtain ⟨fits, notFull⟩ := not_or.mp room
  refine tallied.append wrapless small (UInt32.not_lt.mp fits) ?_
  refine Nat.lt_of_le_of_ne tallied.count_le ?_
  rw [← tallied.count]
  exact fun full => notFull (UInt32.toNat_inj.mp full)

end

/-- An instance is held back. -/
theorem Tallied.park (small : m.packedInstanceSize.toNat ≤ limit) :
    Tallied limit { ec with pendingMessage := some m } := by
  refine { tallied with small := ?_ }
  refine forall_mem_append.mpr ⟨fun x queued => tallied.small x (mem_append_left _ queued), ?_⟩
  exact forall_mem_singleton.mpr small

end

/-- Counting a list down. -/
theorem foldl_sub_toNat {β : Type u} (f : β → UInt32) (taken : List β) (total : UInt32)
    (enough : (taken.map fun x => (f x).toNat).sum ≤ total.toNat) :
    (taken.foldl (fun total x => total - f x) total).toNat
      = total.toNat - (taken.map fun x => (f x).toNat).sum := by
  induction taken generalizing total with
  | nil => rfl
  | cons x rest ih =>
    simp only [map_cons, sum_cons] at enough ⊢
    have first : (total - f x).toNat = total.toNat - (f x).toNat :=
      UInt32.toNat_sub_of_le _ _ (UInt32.le_iff_toNat_le.mpr (by omega))
    rw [foldl_cons, ih (total - f x) (by omega), first]
    omega

theorem Tallied.remove (tallied : ec.Tallied limit) {taken left : List (PostInstanceMsg α)}
    (split : taken ++ left = ec.queue) : (ec.remove taken left).Tallied limit := by
  have lengths : taken.length + left.length = ec.queue.length := by
    rw [← split, length_append]
  have sizes : packedSize taken + packedSize left = packedSize ec.queue := by
    rw [← split, packedSize_append]
  have ones : (taken.map fun _ => (1 : UInt32).toNat).sum = taken.length := by
    simp
  have count := tallied.count
  have size := tallied.size
  refine ⟨?_, ?_, ?_, ?_, ?_⟩
  · change (taken.foldl (fun total _ => total - 1) ec.totalResponses).toNat = left.length
    rw [foldl_sub_toNat (fun _ => 1) taken _ (by omega)]
    omega
  · have bound := tallied.count_le
    change left.length ≤ _
    omega
  · change (taken.foldl (fun total (m : PostInstanceMsg α) => total - m.packedInstanceSize)
      ec.totalResponseSize).toNat = packedSize left
    rw [foldl_sub_toNat _ taken _ (by simp only [packedSize] at sizes size; omega)]
    simp only [packedSize] at sizes size ⊢
    omega
  · have bound := tallied.size_le
    change packedSize left ≤ _
    omega
  · intro m member
    refine tallied.small m ?_
    rw [← split]
    simp only [EnumerateContext.remove, mem_append] at member ⊢
    tauto

/-- Operations that leave the queue and the message held back alone. -/
theorem Tallied.of_eq {a b : EnumerateContext α} (tallied : a.Tallied limit)
    (queue : b.queue = a.queue) (size : b.totalResponseSize = a.totalResponseSize)
    (count : b.totalResponses = a.totalResponses) (pending : b.pendingMessage = a.pendingMessage) :
    b.Tallied limit := by
  refine ⟨?_, ?_, ?_, ?_, ?_⟩
  · rw [count, queue]
    exact tallied.count
  · rw [queue]
    exact tallied.count_le
  · rw [size, queue]
    exact tallied.size
  · rw [queue]
    exact tallied.size_le
  · rw [queue, pending]
    exact tallied.small

theorem Tallied.processPendingMessage (tallied : ec.Tallied limit) (wrapless : Wrapless limit) :
    ec.processPendingMessage.Tallied limit := by
  simp only [EnumerateContext.processPendingMessage]
  cases pending : ec.pendingMessage with
  | none => exact tallied
  | some m =>
    simp only
    split
    · rename_i fits
      have small : m.packedInstanceSize.toNat ≤ limit := tallied.small m (by simp [pending])
      have room : ec.queue.length < maxWsmanCollectionSize.toNat := by
        rw [← tallied.count]
        exact UInt32.lt_iff_toNat_lt.mp fits.2
      have appended := tallied.append wrapless small fits.1 room
      refine { appended with small := ?_ }
      intro x member
      exact appended.small x (mem_append_left _ (by simpa using member))
    · exact tallied

theorem tallied_of_empty (limit : Nat) (queue : ec.queue = []) (size : ec.totalResponseSize = 0)
    (count : ec.totalResponses = 0) (pending : ec.pendingMessage = none) : ec.Tallied limit := by
  refine ⟨?_, ?_, ?_, ?_, ?_⟩
  · simp [queue, count]
  · simp [queue]
  · simp [queue, size]
  · simp [queue]
  · simp [queue, pending]

theorem Tallied.closeIfFinished (tallied : ec.Tallied limit) :
    ec.closeIfFinished.Tallied limit := by
  simp only [EnumerateContext.closeIfFinished]
  split
  · have left : ec.checkCloseLeft.Tallied limit := by
      simp only [checkCloseLeft]
      split
      · exact tallied
      · exact tallied.of_eq rfl rfl rfl rfl
    simp only [checkCloseRight]
    split
    · exact left
    · exact tallied_of_empty limit rfl rfl rfl rfl
  · exact tallied

end EnumerateContext

end Omi.Wsman
