import Omi.Data.Scan
import Omi.Data.Bytes
import Omi.Http.Auth
import Omi.Xml.Text

/-!
# Decrypting a response

`HttpClient_DecryptData`. The body of an encrypted response has parts that are
separated by boundary lines. One part describes the original content, in the
entries of its `OriginalContent:` line, and one carries the encrypted bytes
behind the size of their signature.

The function has three loops, over the page, over the lines of a part and over
the entries of a line. Each iteration is one step here, and a position is the
distance from the start of the data. A read, a copy or a write that leaves its
memory ends the model with a `Violation`; a call that has not returned when the
fuel is used up is `running`. `gss_unwrap` is a parameter.
-/

namespace Omi.Http

open Scan Xml

/-- How the function leaves the memory it may use. -/
inductive Violation where
  /-- A read outside of the page. -/
  | readOutside
  /-- A copy that does not fit `original_content_type_save`. -/
  | typeOverflow
  /-- A copy that does not fit `original_encoding_save`. -/
  | encodingOverflow
  /-- `gss_unwrap` is given bytes outside of the page. -/
  | unwrapOutside
  /-- `strlen` of `NULL`, or of a buffer without a terminator. -/
  | noString
  /-- A write outside of the page. -/
  | writeOutside
  /-- Not a violation: the call has not returned yet. -/
  | running
deriving DecidableEq, Repr

/-- Reading outside of the page is a violation. -/
def reads {α : Type} : Option α → Except Violation α
  | none => .error .readOutside
  | some value => .ok value

/-! ## Words -/

def encryptedSegment : List UInt8 := ascii "Encrypted Boundary"
def originalContent : List UInt8 := ascii "OriginalContent:"
def typeField : List UInt8 := ascii "type="
def charsetField : List UInt8 := ascii "charset="
def lengthField : List UInt8 := ascii "length="
def contentTypeName : ZString := .ofString "Content-Type"
def contentLengthName : ZString := .ofString "Content-Length"
def octetStream : List UInt8 := ascii "application/octet-stream"
def multipartEncrypted : ZString := .ofString "multipart/encrypted"

/-- The size of `original_content_type_save`. -/
def typeSaveSize : Nat := 1024

/-- The size of `original_encoding_save`. -/
def encodingSaveSize : Nat := 64

/-- Carriage return, line feed or tab. -/
def isBreak (c : UInt8) : Bool := c == 13 || c == 10 || c == 9

/-- The test that a word fits in front of a limit, and then `Strncasecmp(p, word, n) == 0`. -/
def startsWith (page word : List UInt8) (p : Nat) (fits : Bool) : Option Bool :=
  if fits then comparesTo (fun c d => toLower c == toLower d) page word p else some false

/-- `p[0] == '-' && p[1] == '-'`. -/
def dashesAt (page : List UInt8) (p : Nat) : Option Bool := comparesTo (· == ·) page [45, 45] p

/-- The `int` that `atoi` makes of a number, as `original_content_length + sig_len` uses it. -/
def intOf (negative : Bool) (value : Nat) : UInt32 :=
  if negative then 0 - UInt32.ofNat (min value (2 ^ 63))
  else UInt32.ofNat (min value (2 ^ 63 - 1))

/-- `atoi`. It knows of no limit and reads up to the first byte behind the digits. -/
def atoi (page : List UInt8) (p : Nat) : Option UInt32 :=
  let signed := skipSign ((page.drop p).dropWhile isBlank)
  let isDigit := fun c => (digitValue 10 c).isSome
  if signed.2.dropWhile isDigit = [] then none
  else some (intOf signed.1 (digitsValue 10 (signed.2.takeWhile isDigit)))

/-- The four bytes of the size of the signature. -/
def signatureAt (page : List UInt8) (p : Nat) : Option UInt32 :=
  if p + 4 ≤ page.length then some (.ofNat (Bytes.readLE page p 4)) else none

/-! ## The loops -/

/-- The loop whose next iteration is due. The entries of a line have their own position. -/
inductive Loop where
  | page
  | segment
  | entries (linep : Nat)
deriving DecidableEq, Repr

/-- The variables of the loops. A buffer is `none` until something is copied into it. While
the entries of a line are read `scanp` is the end of the line. -/
structure Scanner where
  loop : Loop
  scanp : Nat
  originalContentLength : UInt32
  originalContentType : Option (List UInt8)
  originalEncoding : Option (List UInt8)
deriving DecidableEq

def Scanner.start : Scanner := ⟨.page, 0, 0, none, none⟩

/-- The lines of a part that the function tells apart. -/
inductive LineKind where
  | octetStream
  | contentType
  | originalContent
  | boundary
  | other
deriving DecidableEq, Repr

/-- The line from `linep` to `linelimit`. -/
def lineKind (page : List UInt8) (linep linelimit : Nat) : Option LineKind := do
  let behind := linep + contentTypeName.length
  if ← startsWith page contentTypeName.chars linep (behind < linelimit) then
    let valuep ← scanWhile isBlank page (linelimit - (behind + 1)) (behind + 1)
    if ← startsWith page Http.octetStream valuep (valuep + Http.octetStream.length ≤ linelimit) then
      return .octetStream
    else return .contentType
  else if ← startsWith page Http.originalContent linep
      (linep + Http.originalContent.length ≤ linelimit) then
    return .originalContent
  else if linep + 1 < linelimit then
    if ← dashesAt page linep then return .boundary else return .other
  else return .other

/-- The entries that the function reads. -/
inductive Field where
  | length
  | type
  | charset
deriving DecidableEq, Repr

def Field.word : Field → List UInt8
  | .length => lengthField
  | .type => typeField
  | .charset => charsetField

/-- The entry from `entryp` to `entrylimit`. -/
def entryField (page : List UInt8) (entryp entrylimit : Nat) : Option (Option Field) := do
  let has := fun field : Field =>
    startsWith page field.word entryp (entryp + field.word.length ≤ entrylimit)
  if ← has .length then return some .length
  else if ← has .type then return some .type
  else if ← has .charset then return some .charset
  else return none

/-- Where the encrypted bytes are, with what is known of the original content. -/
structure Encrypted where
  start : Nat
  length : Nat
  originalContentType : Option (List UInt8)
  originalEncoding : Option (List UInt8)
deriving DecidableEq

/-- How an iteration ends. -/
inductive Outcome where
  | next (s : Scanner)
  | ended
  | found (data : Encrypted)
deriving DecidableEq

namespace Scanner

/-- An iteration of the loop over the page. -/
def pageStep (page : List UInt8) (s : Scanner) : Option Outcome := do
  if page.length ≤ s.scanp + 1 then return .ended
  else if ← dashesAt page s.scanp then
    let behind ← scanWhile isBlank page (page.length - (s.scanp + 2)) (s.scanp + 2)
    return .next { s with scanp := behind }
  else if ← startsWith page encryptedSegment s.scanp
      (s.scanp + encryptedSegment.length < page.length) then
    return .next { s with loop := .segment, scanp := s.scanp + encryptedSegment.length }
  else return .next { s with scanp := s.scanp + 1 }

/-- What a line is read for. -/
def readLine (page : List UInt8) (s : Scanner) (linep linelimit : Nat) :
    LineKind → Option Outcome
  | .octetStream => do
      let sigLen ← signatureAt page (linelimit + 2)
      return .found ⟨linelimit + 6, (s.originalContentLength + sigLen).toNat,
        s.originalContentType, s.originalEncoding⟩
  | .originalContent => some (.next { s with
      loop := .entries (linep + originalContent.length + 1), scanp := linelimit })
  | .boundary => some (.next { s with loop := .page, scanp := linep })
  | .contentType => some (.next { s with scanp := linelimit })
  | .other => some (.next { s with scanp := linelimit })

/-- An iteration of the loop over the lines of a part. -/
def segmentStep (page : List UInt8) (s : Scanner) : Option Outcome := do
  if s.scanp < page.length then
    let linep ← scanWhile isBreak page (page.length - s.scanp) s.scanp
    let linelimit ← scanUntil 13 10 page (page.length - 1 - linep) linep
    s.readLine page linep linelimit (← lineKind page linep linelimit)
  else return .next { s with loop := .page }

/-- `memcpy` into the start of a buffer of the given size, which was zeroed. -/
def copyTo (size : Nat) (buffer : Option (List UInt8)) (chunk : List UInt8) :
    Option (List UInt8) :=
  if chunk.length ≤ size then
    some (Bytes.overwrite (buffer.getD (List.replicate size 0)) 0 chunk)
  else none

/-- What an entry is read for. -/
def readEntry (page : List UInt8) (s : Scanner) (entryp entrylimit : Nat) :
    Option Field → Except Violation Scanner
  | none => .ok s
  | some field =>
    let valuep := entryp + field.word.length
    let value := (page.drop valuep).take (entrylimit - valuep)
    match field with
    | .length => do
        let length ← reads (atoi page valuep)
        return { s with originalContentLength := length }
    | .type =>
      match copyTo typeSaveSize s.originalContentType value with
      | some buffer => .ok { s with originalContentType := some buffer }
      | none => .error .typeOverflow
    | .charset =>
      match copyTo encodingSaveSize s.originalEncoding value with
      | some buffer => .ok { s with originalEncoding := some buffer }
      | none => .error .encodingOverflow

/-- An iteration of the loop over the entries of a line. -/
def entriesStep (page : List UInt8) (s : Scanner) (linep : Nat) : Except Violation Outcome := do
  let entryp ← reads (scanWhile (fun c => isBlank c || c == 59) page (s.scanp - linep) linep)
  let entrylimit ← reads (scanWhile (· != 59) page (s.scanp - entryp) entryp)
  let read ← s.readEntry page entryp entrylimit (← reads (entryField page entryp entrylimit))
  return .next
    { read with loop := if entrylimit < s.scanp then .entries entrylimit else .segment }

/-- One iteration. -/
def step (page : List UInt8) (s : Scanner) : Except Violation Outcome :=
  match s.loop with
  | .page => reads (s.pageStep page)
  | .segment => reads (s.segmentStep page)
  | .entries linep => s.entriesStep page linep

/-- The loops. -/
def scan (page : List UInt8) : Nat → Scanner → Except Violation (Option Encrypted)
  | 0, _ => .error .running
  | fuel + 1, s => do
      match ← s.step page with
      | .next s => scan page fuel s
      | .ended => return none
      | .found data => return some data

end Scanner

/-! ## The function -/

/-- A header of the response. -/
structure ResponseHeader where
  name : ZString
  value : ZString
deriving DecidableEq

namespace ResponseHeader

def isContentType (header : ResponseHeader) : Bool :=
  strncasecmpEqual header.name contentTypeName contentTypeName.length

def isContentLength (header : ResponseHeader) : Bool :=
  !header.isContentType && strncasecmpEqual header.name contentLengthName contentLengthName.length

/-- The last content type of a list. -/
def contentType (headers : List ResponseHeader) : Option ZString :=
  (headers.reverse.find? isContentType).map value

/-- The last content length of a list. -/
def contentLength (headers : List ResponseHeader) : Option ZString :=
  (headers.reverse.find? isContentLength).map value

/-- The headers after decryption. -/
def restore (type : ZString) (length : Option ZString) (header : ResponseHeader) :
    ResponseHeader :=
  if header.isContentType then { header with value := type }
  else if header.isContentLength then { header with value := length.getD header.value }
  else header

end ResponseHeader

theorem zero_notMem_takeWhile (bytes : List UInt8) : 0 ∉ bytes.takeWhile (· != 0) :=
  fun found => by simpa using List.mem_takeWhile_imp found

/-- The text in a buffer, if it has a terminator. -/
def stringIn (buffer : Option (List UInt8)) : Option ZString :=
  match buffer with
  | none => none
  | some bytes =>
    if 0 ∈ bytes then
      some ⟨bytes.takeWhile (· != 0), zero_notMem_takeWhile bytes⟩
    else none

/-- What the function leaves behind. `size` is the size field of the page, whose memory does
not change its length. -/
structure Decrypted where
  returned : Bool
  headers : Option (List ResponseHeader)
  page : Option (List UInt8)
  size : Nat
deriving DecidableEq

/-- The part of the function behind `gss_unwrap`. -/
def restorePage (page output : List UInt8) (data : Encrypted) :
    Except Violation (List UInt8 × ZString) :=
  if page.length < output.length then .error .writeOutside
  else
    match stringIn data.originalContentType with
    | none => .error .noString
    | some type =>
      if page.length < output.length + type.bytes.length then .error .writeOutside
      else
        match stringIn data.originalEncoding with
        | none => .error .noString
        | some encoding =>
          let written := output ++ type.bytes ++ encoding.bytes
          if page.length < written.length then .error .writeOutside
          else .ok (Bytes.overwrite page 0 written, type)

/-- The part of the function behind the loops. -/
def useData (unwrap : List UInt8 → Option (List UInt8)) (fields : List ResponseHeader)
    (page : List UInt8) (data : Encrypted) : Except Violation Decrypted :=
  if page.length < data.start + data.length then .error .unwrapOutside
  else
    match unwrap ((page.drop data.start).take data.length) with
    | none => .ok ⟨false, some fields, some page, page.length⟩
    | some output => do
        let (restored, type) ← restorePage page output data
        let length := ResponseHeader.contentLength fields
        return ⟨true, some (fields.map (ResponseHeader.restore type length)), some restored,
          output.length⟩

/-- The loops and what follows them. -/
def decryptFrom (unwrap : List UInt8 → Option (List UInt8)) (fields : List ResponseHeader)
    (page : List UInt8) (fuel : Nat) (s : Scanner) : Except Violation Decrypted := do
  match ← s.scan page fuel with
  | none => return ⟨false, some fields, some page, page.length⟩
  | some data => useData unwrap fields page data

/-- The content type of the response says that it is encrypted. -/
def isEncrypted (type : ZString) : Bool :=
  strncasecmpEqual type multipartEncrypted multipartEncrypted.length

/-- `HttpClient_DecryptData`. Without a page the argument `pData` is NULL; a `pData` that points
to NULL is not a case of its own. -/
def decryptData (unwrap : List UInt8 → Option (List UInt8)) (fuel : Nat)
    (headers : Option (List ResponseHeader)) (authContext : Bool) (page : Option (List UInt8)) :
    Except Violation Decrypted :=
  let unchanged := fun returned => Decrypted.mk returned headers page ((page.getD []).length)
  match headers with
  | none => .ok (unchanged false)
  | some fields =>
    match ResponseHeader.contentType fields with
    | none => .ok (unchanged false)
    | some type =>
      if !isEncrypted type then .ok (unchanged true)
      else if !authContext then .ok (unchanged false)
      else
        match page with
        | none => .ok (unchanged false)
        | some bytes => decryptFrom unwrap fields bytes fuel .start

end Omi.Http
