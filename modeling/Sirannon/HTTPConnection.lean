import Sirannon.Connection
import Sirannon.HTTPHeader
import Sirannon.StateError

/-!
# HTTP connections

A message is received into a buffer of fixed size: first up to the empty line
that ends its header, whatever more comes along, and then as much content as
the header asks for. What came too much is shifted to the front before the next
message.
-/

set_option autoImplicit false

namespace Sirannon.HTTP
open Bits MachineInt Connection StateError

def syntaxError (sError : String) : SirannonException := ⟨"SyntaxError: " ++ sError⟩

/-- The size of `pRcvBuffer`. -/
def iBuffer : ℕ := 64000

/-- The buffer is given by the bytes received, and pointers into it by their offsets. `written`
records the ranges of the buffer that are written to, or given to the socket to write to. -/
structure HTTPConnection where
  pConnection : ConnectionInterface
  sApplication : String
  pRcvBuffer : Bytes
  pLastMarker : ℤ
  iMessage : ℕ
  iHeader : ℕ
  iContent : ℕ
  sCommand : Bytes
  sUrl : Bytes
  sProtocol : Bytes
  iStatus : ℕ
  sStatus : Bytes
  mFields : Fields
  written : List (ℤ × ℕ)

abbrev Receiving := EStateM SirannonException HTTPConnection

namespace HTTPConnection

def new (pConnection : ConnectionInterface) (sApplication : String) : HTTPConnection where
  pConnection := pConnection
  sApplication := sApplication
  pRcvBuffer := []
  pLastMarker := -2
  iMessage := 0
  iHeader := 0
  iContent := 0
  sCommand := []
  sUrl := []
  sProtocol := []
  iStatus := 0
  sStatus := []
  mFields := []
  written := []

def iOffset (h : HTTPConnection) : ℕ := h.pRcvBuffer.length

/-- `getContent`, read for `getContentSize` bytes as far as they have been received. -/
def content (h : HTTPConnection) : Bytes := (h.pRcvBuffer.drop h.iHeader).take h.iContent

def writing (h : HTTPConnection) (off : ℤ) (len : ℕ) : HTTPConnection :=
  { h with written := h.written ++ [(off, len)] }

/-- What was received too much goes back to the start. -/
def shifted (h : HTTPConnection) : HTTPConnection :=
  if h.iMessage < h.iOffset then
    { h.writing 0 (h.iOffset-h.iMessage) with
      pRcvBuffer := h.pRcvBuffer.drop h.iMessage
      pLastMarker := -2 }
  else { h with pRcvBuffer := [], pLastMarker := -2 }

/-! ## The end of the header -/

/-- The search from `pCheck` on, where the bytes given are. -/
def scan : Bytes → ℤ → ℤ → Bool × ℤ
  | [], _, pLastMarker => (false, pLastMarker)
  | _::[], _, pLastMarker => (false, pLastMarker)
  | a::b::s, pCheck, pLastMarker =>
    if a = 13 ∧ b = 10 then
      if pCheck = pLastMarker+2 then (true, pCheck) else scan (b::s) (pCheck+1) pCheck
    else scan (b::s) (pCheck+1) pLastMarker

attribute [grind =] scan

/-- The search from the last known marker on. -/
def marker (pRcvBuffer : Bytes) (pLastMarker : ℤ) : Bool × ℤ :=
  scan (pRcvBuffer.drop (pLastMarker+2).toNat) (pLastMarker+2) pLastMarker

/-- The room given to the socket, one byte less than there is. -/
def room (h : HTTPConnection) : ℕ := uint32 ((iBuffer : ℤ)-h.iOffset-1)

def received (h : HTTPConnection) : HTTPConnection :=
  { h.writing h.iOffset h.room with
    pConnection := (receiveRaw h.pConnection h.room).2.2
    pRcvBuffer := h.pRcvBuffer ++ (receiveRaw h.pConnection h.room).2.1 }

/-- One turn reads the socket once; no more than `iBuffer` turns bring something. -/
def findMarker : ℕ → Receiving Bool
  | 0 => return false
  | fuel+1 => do
    let h ← get
    modify fun h => { h with pLastMarker := (marker h.pRcvBuffer h.pLastMarker).2 }
    if (marker h.pRcvBuffer h.pLastMarker).1 then return true
    else do
      modify received
      let iBytes ← ofExcept (receiveRaw h.pConnection h.room).1
      if iBytes ≤ 0 then return false else findMarker fuel

attribute [grind =] findMarker

/-! ## Messages -/

/-- The header with the marker at its end made a zero. -/
def text (h : HTTPConnection) : Bytes := h.pRcvBuffer.take h.pLastMarker.toNat

def terminated (h : HTTPConnection) : HTTPConnection :=
  { h.writing h.pLastMarker 1 with
    pRcvBuffer := h.pRcvBuffer.set h.pLastMarker.toNat 0
    mFields := [] }

def parseRequestHeader : Receiving ℤ := do
  let h ← get
  modify terminated
  match search headExpression (cstr h.text) with
  | none => return -1
  | some m => do
    let suffix := h.text.drop ((cstr h.text).length-m.suffix.length)
    let (bMatched, mFields) := parseFields (h.text.length+1) suffix []
    modify fun h => { h with
      sCommand := m.sCommand
      sUrl := m.sUrl
      sProtocol := m.sProtocol
      mFields := mFields }
    if bMatched then return int32 h.iHeader else return -1

def parseReplyHeader : Receiving ℤ := do
  let h ← get
  modify terminated
  match search replyExpression (cstr h.text) with
  | none => return -1
  | some m => do
    let suffix := h.text.drop ((cstr h.text).length-m.suffix.length)
    let (bMatched, mFields) := parseFields (h.text.length+1) suffix []
    modify fun h => { h with
      sProtocol := m.sProtocol
      iStatus := uint32 (atoi m.iStatus)
      sStatus := m.sStatus
      mFields := mFields }
    if bMatched then return int32 h.iHeader else return -1

def ascii (s : String) : Bytes := s.toUTF8.toList

def lengthKey : Bytes := ascii "Content-Length"

/-- What the header says of the content. -/
def measured (h : HTTPConnection) : HTTPConnection :=
  let iContent := uint32 (atoi (h.mFields.value lengthKey))
  { h with
    mFields := h.mFields.touch lengthKey
    iContent := iContent
    iMessage := uint32 (h.iHeader+iContent) }

def tooSmall (h : HTTPConnection) : SirannonException :=
  ioError s!"HTTP receive buffer too small: {iBuffer} < {int32 h.iMessage}"

def completed (h : HTTPConnection) : HTTPConnection :=
  let iSize := h.iMessage-h.iOffset
  let pData := (receiveSmartWhole h.pConnection iSize).2.1
  { h.writing h.iOffset iSize with
    pConnection := (receiveSmartWhole h.pConnection iSize).2.2
    pRcvBuffer := if pData.length = iSize then h.pRcvBuffer ++ pData else h.pRcvBuffer }

/-- The rest of the content. -/
def receiveContent : Receiving Bool := do
  let h ← get
  if iBuffer < h.iMessage then throw h.tooSmall
  else if h.iOffset < h.iMessage then do
    modify completed
    let iStatus ← ofExcept (receiveSmartWhole h.pConnection (h.iMessage-h.iOffset)).1
    return decide (0 < iStatus)
  else return true

def receive (oParseFunction : Receiving ℤ) (bContent : Bool) : Receiving ℤ := do
  modify shifted
  let bMessage ← findMarker (iBuffer+1)
  if bMessage then do
    modify fun h => { h with iHeader := (h.pLastMarker+2).toNat }
    let iStatus ← oParseFunction
    let h ← get
    if iStatus < 0 then throw (syntaxError ("Malformatted " ++ h.sApplication ++ " header"))
    else do
      modify measured
      let bComplete ← if bContent then receiveContent else pure true
      let h ← get
      if bComplete then return int32 h.iMessage else return -1
  else return -1

def receiveMessage (bContent : Bool) : Receiving ℤ := receive parseRequestHeader bContent

def receiveReply (bContent : Bool) : Receiving ℤ := receive parseReplyHeader bContent

/-! ## Replies -/

def field (f : Bytes × Bytes) : Bytes := f.1 ++ [58, 32] ++ f.2 ++ crlf

/-- The header of a reply, with the size of what follows it. -/
def replyHeader (h : HTTPConnection) (iStatus : ℕ) (sStatus : String) (iSize : ℕ)
    (mFields : Fields) : Bytes :=
  h.sProtocol ++ [32] ++ ascii (toString iStatus) ++ [32] ++ ascii sStatus ++ crlf ++
    (if iSize = 0 then mFields else mFields.assign lengthKey (ascii (toString iSize))).flatMap
      field ++ crlf

/-- What the sends of header and data return is not looked at. -/
def sendReply (h : HTTPConnection) (iStatus : ℕ) (sStatus : String) (pData : Bytes)
    (mFields : Fields) : Except SirannonException ℤ × HTTPConnection :=
  let header := h.replyHeader iStatus sStatus pData.length mFields
  match sendSmart h.pConnection header with
  | (.error e, c) => (.error e, { h with pConnection := c })
  | (.ok _, c) =>
    if pData = [] then (.ok header.length, { h with pConnection := c })
    else
      match sendSmart c pData with
      | (.error e, c) => (.error e, { h with pConnection := c })
      | (.ok _, c) => (.ok (pData.length+header.length), { h with pConnection := c })

end HTTPConnection

end Sirannon.HTTP
