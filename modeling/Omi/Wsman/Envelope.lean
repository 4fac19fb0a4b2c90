import Omi.Base.Numbers
import Omi.Wsman.Bookmark
import Omi.Wsman.Buf

/-!
# The size of a response

The instances of a response are selected so that their sizes and a fixed estimate of
the envelope keep to `MaxEnvelopeSize`. The envelope itself repeats the message id of
the request and contains the bookmark of a provider, which may have any length. A response
keeps to the limit exactly if the envelope leaves room for what was selected, or none is
sent; it exceeds the limit by no more than the envelope exceeds the estimate.
-/

namespace Omi.Wsman

open List Option

variable {α : Type}

open Omi.Xml (ascii)

/-! ## Writing the envelope -/

/-- One call that adds to a buffer: `WSBuf_AddLit`, also as `WSBuf_AddStringNoEncoding` and
`WSBuf_AddUint32`, or `WSBuf_AddString`. -/
inductive Piece where
  | lit (str : List UInt8)
  | string (str : ZString)

/-- What the call writes. Lengths are passed as an `MI_Uint32`. -/
def Piece.bytes : Piece → List UInt8
  | .lit str => str.take (uint32 str.length)
  | .string str =>
    (str.chars.takeWhile fun c => !specialChar c).take
        (uint32 (str.chars.takeWhile fun c => !specialChar c).length) ++
      escape (str.chars.dropWhile fun c => !specialChar c)

/-- The call, while there is memory. -/
def Piece.add (buf : WSBuf) : Piece → Option WSBuf
  | .lit str => buf.addLit (fun _ => true) str (uint32 str.length)
  | .string str => buf.addString (fun _ => true) str

def pieceBytes (pieces : List Piece) : List UInt8 := pieces.flatMap Piece.bytes

theorem add_ok {buf after : WSBuf} {p : Piece} (run : p.add buf = some after) :
    buf.Wrote p.bytes after := by
  cases p with
  | lit str => exact addLit_ok run
  | string str => exact addString_text run

theorem foldlM_add_ok {pieces : List Piece} {buf after : WSBuf}
    (run : pieces.foldlM Piece.add buf = some after) : buf.Wrote (pieceBytes pieces) after := by
  induction pieces generalizing buf with
  | nil =>
    cases run
    exact .nothing _
  | cons p pieces ih =>
    obtain ⟨next, added, rest⟩ := bind_eq_some_iff.mp run
    exact (add_ok added).trans (ih rest)

/-- `WSBuf_CreateSoapResponseHeader`. -/
def createSoapResponseHeader (action msgID : List UInt8) (relatesTo : Option ZString) :
    List Piece :=
  [.lit <|
    ascii "<SOAP-ENV:Envelope " ++
      ascii "xmlns:SOAP-ENV=\"http://www.w3.org/2003/05/soap-envelope\" " ++
      ascii "xmlns:wsa=\"http://schemas.xmlsoap.org/ws/2004/08/addressing\" " ++
      ascii "xmlns:wsen=\"http://schemas.xmlsoap.org/ws/2004/09/enumeration\" " ++
      ascii "xmlns:e=\"http://schemas.xmlsoap.org/ws/2004/08/eventing\" " ++
      ascii "xmlns:xsi=\"http://www.w3.org/2001/XMLSchema-instance\" " ++
      ascii "xmlns:wsmb=\"http://schemas.dmtf.org/wbem/wsman/1/cimbinding.xsd\" " ++
      ascii "xmlns:wsman=\"http://schemas.dmtf.org/wbem/wsman/1/wsman.xsd\" " ++
      ascii "xmlns:wxf=\"http://schemas.xmlsoap.org/ws/2004/09/transfer\" " ++
      ascii "xmlns:cim=\"http://schemas.dmtf.org/wbem/wscim/1/common\" " ++
      ascii "xmlns:msftwinrm=\"http://schemas.microsoft.com/wbem/wsman/1/wsman.xsd\" " ++
      ascii "xmlns:wsmid=\"http://schemas.dmtf.org/wbem/wsman/identity/1/wsmanidentity.xsd\">" ++
      ascii "<SOAP-ENV:Header>" ++
      ascii "<wsa:To>http://schemas.xmlsoap.org/ws/2004/08/addressing/role/anonymous</wsa:To>" ++
      ascii "<wsa:Action>",
    .lit action, .lit (ascii "</wsa:Action><wsa:MessageID>"), .lit msgID,
    .lit (ascii "</wsa:MessageID>")] ++
  match relatesTo with
  | none => []
  | some id =>
    [.lit (ascii "<wsa:RelatesTo>"), .lit id.chars, .lit (ascii "</wsa:RelatesTo>")]

/-- What the envelope of a response depends on. -/
structure EnumReply where
  /-- The id that `WSBuf_GenerateMessageID` has made up. -/
  msgID : List UInt8
  msgID_length : msgID.length = 41
  /-- `rqtMessageID`. -/
  relatesTo : Option ZString
  /-- `bookmarkToSend`, where `sendBookmarks` is set. -/
  bookmark : Option ZString
  /-- The slot of the context and the random part of its id. -/
  slot : Fin 64
  random : UInt16
  /-- The request is `Enumerate`. Otherwise it is `Pull`. -/
  enumerates : Bool

namespace EnumReply

/-- The id that `_WSMAN_AllocateEnumContext` has given to the context. -/
def enumerationContextID (r : EnumReply) : UInt32 :=
  .ofNat r.slot.val ||| r.random.toUInt32 <<< 16

/-- `outBufHeader` of `_SendEnumPullResponse`. -/
def header (r : EnumReply) : List Piece :=
  (if r.enumerates then
    createSoapResponseHeader
      (ascii "http://schemas.xmlsoap.org/ws/2004/09/enumeration/EnumerateResponse")
      r.msgID r.relatesTo
  else
    createSoapResponseHeader
      (ascii "http://schemas.xmlsoap.org/ws/2004/09/enumeration/PullResponse")
      r.msgID r.relatesTo ++
    match r.bookmark with
    | none => []
    | some text =>
      [.lit (ascii "<wsman:Bookmark>"), .string text, .lit (ascii "</wsman:Bookmark>")]) ++
  [.lit (ascii "</SOAP-ENV:Header><SOAP-ENV:Body>"),
    .lit (ascii (if r.enumerates then "<wsen:EnumerateResponse>" else "<wsen:PullResponse>")),
    .lit (ascii "<wsen:EnumerationContext>"),
    .lit (Base.decimalText r.enumerationContextID.toNat),
    .lit (ascii "</wsen:EnumerationContext>"),
    .lit (ascii (if r.enumerates then "<wsman:Items>" else "<wsen:Items>"))]

/-- `outBufTrailer`, which never outgrows its first 256 bytes. -/
def trailer (r : EnumReply) (endOfSequence : Bool) : List UInt8 :=
  ascii (if r.enumerates then "</wsman:Items>" else "</wsen:Items>") ++
  (if endOfSequence then
    ascii (if r.enumerates then "<wsman:EndOfSequence/>" else "<wsen:EndOfSequence/>")
  else []) ++
  ascii (if r.enumerates then "</wsen:EnumerateResponse>" else "</wsen:PullResponse>") ++
  ascii "</SOAP-ENV:Body></SOAP-ENV:Envelope>"

/-- `rqtAction`. -/
def action (r : EnumReply) : RqtAction := if r.enumerates then .enumerate else .pull

/-- `WSBuf_Init` for the header and the calls after it. -/
def writeHeader (r : EnumReply) : Option WSBuf :=
  r.header.foldlM Piece.add ⟨[], approxEnumRespEnvelopeSize⟩

/-- `_SendEnumPullResponse`: the size of the page with the response, if one is sent. Nothing is
sent when memory is short, so that every allocation within the limit succeeds here. -/
def respond (r : EnumReply) (c : ConnectionData) (queue : List (PostInstanceMsg α))
    (enumerationCompleted : Bool) : Option Nat :=
  let subset := EnumerateContext.getMessageSubset c 0 0 queue
  let messagesSize := (subset.1.map PostInstanceMsg.packedInstanceSize).sum
  -- not even one message can be put in the response
  if queue ≠ [] ∧ subset.1 = [] then none
  else
    r.writeHeader >>= fun header =>
      let trailer := r.trailer (enumerationCompleted && subset.2.isEmpty)
      let totalSize := uint32 (uint32 (header.position + trailer.length) + messagesSize.toNat)
      if allocationLimit < Base.pageHeaderSize + totalSize + 1 then none else some totalSize

/-- The bytes of the envelope. -/
def envelope (r : EnumReply) (endOfSequence : Bool) : Nat :=
  (pieceBytes r.header).length + (r.trailer endOfSequence).length

/-- The length of the response: its envelope and the instances that are selected. -/
def length (r : EnumReply) (c : ConnectionData) (queue : List (PostInstanceMsg α))
    (enumerationCompleted : Bool) : Nat :=
  let subset := EnumerateContext.getMessageSubset c 0 0 queue
  r.envelope (enumerationCompleted && subset.2.isEmpty) +
    (subset.1.map PostInstanceMsg.packedInstanceSize).sum.toNat

/-- Not even one message can be put in the response, or the response is so long that the buffer
of its header or its page has no room for it. -/
def Refused (r : EnumReply) (c : ConnectionData) (queue : List (PostInstanceMsg α))
    (enumerationCompleted : Bool) : Prop :=
  (queue ≠ [] ∧ (EnumerateContext.getMessageSubset c 0 0 queue).1 = []) ∨ r.writeHeader = none ∨
    allocationLimit < Base.pageHeaderSize + r.length c queue enumerationCompleted + 1

theorem trailer_length (r : EnumReply) :
    (r.trailer false).length + 21 ≤ (r.trailer true).length ∧ (r.trailer true).length < 256 := by
  cases choice : r.enumerates <;> simp only [trailer, choice] <;> decide +kernel

theorem envelope_le (r : EnumReply) (endOfSequence : Bool) :
    r.envelope false ≤ r.envelope endOfSequence ∧
      r.envelope endOfSequence ≤ r.envelope true := by
  have longer := r.trailer_length
  cases endOfSequence <;> unfold envelope <;> omega

/-! ## The limit -/

variable {c : ConnectionData} {r : EnumReply} {queue : List (PostInstanceMsg α)}

theorem writeHeader_ok {buf : WSBuf} (run : r.writeHeader = some buf) :
    buf.position = (pieceBytes r.header).length ∧ buf.position ≤ allocationLimit := by
  have wrote := foldlM_add_ok run
  exact ⟨congrArg List.length wrote.text, (wrote.bounded ⟨by decide, Nat.zero_le _⟩).2⟩

/-- What is selected keeps to the limit together with the estimate. -/
theorem selected_le (c : ConnectionData) (queue : List (PostInstanceMsg α)) :
    let taken := (EnumerateContext.getMessageSubset c 0 0 queue).1
    (taken.map PostInstanceMsg.packedInstanceSize).sum.toNat = 0 ∨
      (taken.map PostInstanceMsg.packedInstanceSize).sum.toNat + approxEnumRespEnvelopeSize
        ≤ c.maxEnvelopeSize.toNat := by
  obtain ⟨i, -, out, -, passes⟩ := messageSubset_spec (c := c) queue [] none
  have selected : EnumerateContext.getMessageSubset c 0 0 queue =
      (queue.take i, queue.drop i) := by
    rw [← messageSubset_fst queue none]
    exact congrArg Prod.fst out
  rw [selected]
  cases i with
  | zero => exact .inl rfl
  | succ i =>
    have last := passes i (Nat.lt_succ_self i)
    rw [Exceeds, not_or, Nat.not_lt] at last
    exact .inr last.2

/-- A response is sent unless it is refused. Its size does not wrap. -/
theorem respond_eq_some_iff (c : ConnectionData) (queue : List (PostInstanceMsg α))
    (completed : Bool) (size : Nat) :
    r.respond c queue completed = some size ↔
      ¬ r.Refused c queue completed ∧ size = r.length c queue completed := by
  have small := selected_le c queue
  have limit := UInt32.le_iff_toNat_le.mp c.maxEnvelopeSize_le
  rw [respond, Refused, length]
  generalize EnumerateContext.getMessageSubset c 0 0 queue = subset at small ⊢
  dsimp only
  by_cases fault : queue ≠ [] ∧ subset.1 = []
  · rw [if_pos fault]
    exact iff_of_false nofun fun sent => sent.1 (.inl fault)
  · rw [if_neg fault]
    cases written : r.writeHeader with
    | none => exact iff_of_false nofun fun sent => sent.1 (.inr (.inl rfl))
    | some buf =>
      obtain ⟨length, bound⟩ := writeHeader_ok written
      have limits : allocationLimit + 256 + wsmanMaxEnvelopeSize.toNat < 2 ^ 32 := by decide
      have short : (r.trailer (completed && subset.2.isEmpty)).length < 256 := by
        have lengths := r.trailer_length
        cases completed && subset.2.isEmpty <;> omega
      rw [bind_eq_bind, bind_some, uint32, uint32,
        Nat.mod_eq_of_lt (by omega : _ + _ < 2 ^ 32), Nat.mod_eq_of_lt (by omega), length,
        ite_none_left_eq_some]
      constructor
      · rintro ⟨room, same⟩
        cases same
        exact ⟨fun refused => refused.elim fault fun later => later.elim nofun room, rfl⟩
      · rintro ⟨sent, rfl⟩
        exact ⟨fun full => sent (.inr (.inr full)), rfl⟩

end EnumReply

variable {action : RqtAction}

/-- `_ValidateHeader` rejects lower limits. -/
theorem validate_envelope {request : Nat} {authInfo : Protocol.AuthInfo}
    {maxEnvelopeSize maxElements : UInt32} {c : ConnectionData}
    (valid : ConnectionData.validate request authInfo action maxEnvelopeSize maxElements = some c) :
    8192 ≤ c.maxEnvelopeSize.toNat := by
  unfold ConnectionData.validate at valid
  split at valid
  · cases valid
  · rename_i kept
    cases valid
    dsimp only
    split
    · decide
    · rename_i set
      have set := fun zero => set (.inl zero)
      exact UInt32.le_iff_toNat_le.mp (UInt32.not_lt.mp fun less => kept ⟨set, less⟩)

/-- A request with the smallest limit. -/
def smallest (action : RqtAction) : ConnectionData :=
  ⟨0, ⟨0, 0⟩, action, 8192, 1, pullTwo.maxEnvelopeSize_le, by decide⟩

/-- A response to a `Pull` with a usual message id. -/
def usualReply : EnumReply where
  msgID := List.replicate 41 48
  msgID_length := rfl
  relatesTo := some ⟨List.replicate 41 48, by decide⟩
  bookmark := none
  slot := 63
  random := 0xFFFF
  enumerates := false

/-- An instance that fills what the estimate leaves of the smallest limit. -/
def filling : PostInstanceMsg (List UInt8) := ⟨[], 6970⟩

end Omi.Wsman
