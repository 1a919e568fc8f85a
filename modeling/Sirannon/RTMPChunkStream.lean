import Sirannon.Connection
import Sirannon.StateError
import Sirannon.MachineInt
import Mathlib.Logic.Function.Basic

/-!
# RTMP chunk stream

The receiving and sending halves of an RTMP connection. A message arrives cut
into chunks, and the chunks of different chunk streams interleave, so the
receiver keeps one partial message for each chunk stream; header fields a
chunk leaves out are those of the message before it on its chunk stream.
-/

set_option autoImplicit false

namespace Sirannon.RTMPChunkStream
open MachineInt Bits Connection ByteMemory

def maxChunkSize : ℕ := 65000

def maxMessageSize : ℕ := 32*65000

inductive ControlMsg
  | setChunkSize | abortMessage | ack | userControl | windowAckSize | setPeerBandwidth
  | audio | video | metadataAMF3 | sharedAMF3 | commandAMF3 | metadataAMF0 | sharedAMF0
  | commandAMF0 | aggregate
  deriving DecidableEq, Repr

def ControlMsg.code : ControlMsg → ℕ
  | setChunkSize => 1
  | abortMessage => 2
  | ack => 3
  | userControl => 4
  | windowAckSize => 5
  | setPeerBandwidth => 6
  | audio => 8
  | video => 9
  | metadataAMF3 => 15
  | sharedAMF3 => 16
  | commandAMF3 => 17
  | metadataAMF0 => 18
  | sharedAMF0 => 19
  | commandAMF0 => 20
  | aggregate => 22

/-- The message types that have an entry in `mHandler`. -/
def ControlMsg.ofCode : ℕ → Option ControlMsg
  | 1 => some setChunkSize
  | 2 => some abortMessage
  | 3 => some ack
  | 4 => some userControl
  | 5 => some windowAckSize
  | 6 => some setPeerBandwidth
  | 8 => some audio
  | 9 => some video
  | 15 => some metadataAMF3
  | 16 => some sharedAMF3
  | 17 => some commandAMF3
  | 18 => some metadataAMF0
  | 19 => some sharedAMF0
  | 20 => some commandAMF0
  | 22 => some aggregate
  | _ => none

inductive UserControl
  | streamBegin | streamEOF | streamDry | setBufferLength | streamIsRecorded
  | pingRequest | pingResponse
  deriving DecidableEq, Repr

def UserControl.code : UserControl → ℕ
  | streamBegin => 0
  | streamEOF => 1
  | streamDry => 2
  | setBufferLength => 3
  | streamIsRecorded => 4
  | pingRequest => 6
  | pingResponse => 7

/-- What the fields a new `message_t` does not initialise happen to hold. -/
structure Garbage where
  timestamp : ℤ
  timestampDelta : ℤ
  messageStreamId : ℕ

/-- `arrived` counts the payload bytes the socket delivered for the message. -/
structure Message where
  messageLength : ℕ
  currentLength : ℕ
  messageTypeId : ℕ
  messageStreamId : ℕ
  timestamp : ℤ
  csId : ℕ
  fmt : ℕ
  timestampDelta : ℤ
  oBuffer : IBits
  arrived : ℕ

def Message.new (g : Garbage) : Message where
  messageLength := 0
  currentLength := 0
  messageTypeId := 0
  messageStreamId := g.messageStreamId
  timestamp := g.timestamp
  csId := 0
  fmt := 0
  timestampDelta := g.timestampDelta
  oBuffer := IBits.new zeroed (maxMessageSize+32)
  arrived := 0

def Message.rebuffer (m : Message) (b : IBits) : Message := { m with oBuffer := b }

/-- `payloadWrites` records the range of every write into a message buffer. -/
structure ChunkStream where
  pConnection : ConnectionInterface
  iReceivedBytes : ℤ
  iDeltaReceivedBytes : ℤ
  iSelfACKWindow : ℤ
  iOtherACKWindow : ℤ
  iSentBytes : ℤ
  iOtherChunkSize : ℤ
  iSelfChunkSize : ℤ
  iOtherBuffer : ℤ
  iSetBufferCounter : ℤ
  iStreamID : ℤ
  bPing : Bool
  oReceiveChunk : IBits
  mReceiveChunk : ℕ → Option Message
  mSendChunk : ℕ → Option Message
  garbage : ℕ → Garbage
  payloadWrites : List (ℕ × ℕ)

def ChunkStream.new (pConnection : ConnectionInterface) (garbage : ℕ → Garbage) : ChunkStream where
  pConnection := pConnection
  iReceivedBytes := 0
  iDeltaReceivedBytes := 0
  iSelfACKWindow := 64000
  iOtherACKWindow := 64000
  iSentBytes := 0
  iOtherChunkSize := 128
  iSelfChunkSize := 128
  iOtherBuffer := 0
  iSetBufferCounter := 0
  iStreamID := 1
  bPing := false
  oReceiveChunk := IBits.new zeroed 64
  mReceiveChunk := fun _ => none
  mSendChunk := fun _ => none
  garbage := garbage
  payloadWrites := []

/-- Why a call does not return: it returned `NULL`, it threw, or it never ends. -/
inductive Stop
  | null
  | thrown (e : SirannonException)
  | diverges
  deriving DecidableEq, Repr

abbrev RTMP := EStateM Stop ChunkStream

def ofBits {α : Type} (r : Except SirannonException α) : Except Stop α := r.mapError Stop.thrown

def liftStop {α : Type} : Except Stop α → RTMP α
  | .ok a => pure a
  | .error e => throw e

/-- The message an entry of `mReceiveChunk` points to, new where there is none. -/
def ChunkStream.message (s : ChunkStream) (iChunkID : ℕ) : Message :=
  (s.mReceiveChunk iChunkID).getD (Message.new (s.garbage iChunkID))

def ChunkStream.setMessage (s : ChunkStream) (iChunkID : ℕ) (m : Message) : ChunkStream :=
  { s with mReceiveChunk := Function.update s.mReceiveChunk iChunkID (some m) }

@[simp] theorem message_setMessage (s : ChunkStream) (id : ℕ) (m : Message) :
    (s.setMessage id m).message id = m := by
  simp [ChunkStream.message, ChunkStream.setMessage]

theorem message_setMessage_of_ne (s : ChunkStream) {id id' : ℕ} (m : Message) (h : id' ≠ id) :
    (s.setMessage id m).message id' = s.message id' := by
  simp [ChunkStream.message, ChunkStream.setMessage, h]

/-- The part of the state that decides how further chunks are read. -/
def reader (s : ChunkStream) : ℤ × (ℕ → Option Message) × (ℕ → Garbage) :=
  (s.iOtherChunkSize, s.mReceiveChunk, s.garbage)

theorem message_of_reader {s t : ChunkStream} (h : reader s = reader t) (id : ℕ) :
    s.message id = t.message id := by
  simp only [reader, Prod.mk.injEq] at h
  rw [ChunkStream.message, ChunkStream.message, h.2.1, h.2.2]

def getMessage (iChunkID : ℕ) : RTMP Message := do return (← get).message iChunkID

def updateMessage (iChunkID : ℕ) (f : Message → Message) : RTMP Unit :=
  modify fun s => s.setMessage iChunkID (f (s.message iChunkID))

/-! ## Socket -/

/-- `put` writes the bytes received to where `pData` points. -/
def receiveFromSocket (put : List UInt8 → ChunkStream → ChunkStream) (iSize : ℕ) : RTMP ℤ :=
  fun s =>
    let (iStatus, bs, pConnection) := receiveSmart s.pConnection iSize
    let s := put bs { s with pConnection := pConnection }
    match iStatus with
    | .error e => .error (.thrown e) s
    | .ok iStatus =>
      if 0 < iStatus then
        .ok iStatus { s with
          iReceivedBytes := int32 (s.iReceivedBytes+iSize)
          iDeltaReceivedBytes := int32 (s.iDeltaReceivedBytes+iSize) }
      else .ok iStatus s

def receiveOrNull (put : List UInt8 → ChunkStream → ChunkStream) (iSize : ℕ) : RTMP Unit := do
  let iStatus ← receiveFromSocket put iSize
  if iStatus ≤ 0 then throw .null

def sendToSocket (pData : List UInt8) : RTMP ℤ := fun s =>
  let (iStatus, pConnection) := sendSmart s.pConnection pData
  let s := { s with pConnection := pConnection }
  match iStatus with
  | .error e => .error (.thrown e) s
  | .ok iStatus =>
    if 0 < iStatus then .ok iStatus { s with iSentBytes := int32 (s.iSentBytes+pData.length) }
    else .ok iStatus s

/-! ## Sending -/

def ChunkStream.sendEntry (s : ChunkStream) (iChunkID : ℕ) : Message :=
  (s.mSendChunk iChunkID).getD (Message.new (s.garbage iChunkID))

def sendFmt (m : Message) (iMessage iMessageType iTimeStamp : ℕ) : ℕ :=
  if m.messageLength = 0 ∨ 0 < iTimeStamp then 0
  else if m.messageTypeId = iMessageType ∧ m.messageLength = iMessage then 3
  else 1

/-- The fields of the first chunk header, in the order they are written. -/
def headerFields (fmt iChunkID iMessage iMessageType iStreamID iTimeStamp : ℕ) : List (ℕ × ℕ) :=
  [(2, fmt), (6, iChunkID)] ++
  (if fmt < 3 then [(24, iTimeStamp)] ++
    (if fmt < 2 then [(24, iMessage), (8, iMessageType)] ++
      (if fmt < 1 then [(8, iStreamID), (24, 0)] else []) else []) else [])

/-- The payload loop; a chunk size below one would keep it from ever ending. -/
def writePayloads (iChunkID : ℕ) (iSelfChunkSize : ℤ) :
    ℕ → Bool → List UInt8 → OBits → Except Stop OBits
  | 0, _, _, o => .ok o
  | fuel+1, first, pData, o =>
    if pData = [] then .ok o
    else if iSelfChunkSize ≤ 0 then .error .diverges
    else do
      let iPayload := min pData.length iSelfChunkSize.toNat
      let o ← if first then .ok o else ofBits (o.writes [(2, 3), (6, iChunkID)])
      writePayloads iChunkID iSelfChunkSize fuel false (pData.drop iPayload)
        (o.writeBuffer (pData.take iPayload))

def composeMessage (iSelfChunkSize : ℤ) (fmt : ℕ) (pData : List UInt8)
    (iMessageType iChunkID iStreamID iTimeStamp : ℕ) : Except Stop (List UInt8) := do
  let o ← ofBits ((OBits.new maxMessageSize).writes
    (headerFields fmt iChunkID pData.length iMessageType iStreamID iTimeStamp))
  let o ← writePayloads iChunkID iSelfChunkSize pData.length true pData o
  return o.data

def ChunkStream.remember (s : ChunkStream) (fmt iChunkID iMessageType iMessage : ℕ) :
    ChunkStream :=
  { s with mSendChunk := Function.update s.mSendChunk iChunkID (some { s.sendEntry iChunkID with
    fmt := fmt, csId := iChunkID, messageTypeId := iMessageType, messageLength := iMessage }) }

/-- The part of `sendMessage` before the socket: remember, then compose. -/
def prepareMessage (pData : List UInt8) (iMessageType iChunkID iStreamID iTimeStamp : ℕ) :
    RTMP (List UInt8) := do
  let s ← get
  let fmt := sendFmt (s.sendEntry iChunkID) pData.length iMessageType iTimeStamp
  modify fun s => s.remember fmt iChunkID iMessageType pData.length
  liftStop (composeMessage s.iSelfChunkSize fmt pData iMessageType iChunkID iStreamID iTimeStamp)

def sendMessage (pData : List UInt8) (iMessageType iChunkID iStreamID iTimeStamp : ℕ) :
    RTMP ℤ := do
  let oSendChunk ← prepareMessage pData iMessageType iChunkID iStreamID iTimeStamp
  let iStatus ← sendToSocket oSendChunk
  if iStatus ≤ 0 then return -1 else return 0

/-- Compose a control message in `oSendMessage`. -/
def controlPayload (fields : List (ℕ × ℕ)) : RTMP (List UInt8) := do
  let o ← liftStop (ofBits ((OBits.new maxChunkSize).writes fields))
  return o.data

def sendControl (fields : List (ℕ × ℕ)) (t : ControlMsg) : RTMP ℤ := do
  sendMessage (← controlPayload fields) t.code 2 0 0

def sendACK : RTMP ℤ := do
  let s ← get
  let pData ← controlPayload [(32, uint32 s.iReceivedBytes)]
  modify fun s => { s with iDeltaReceivedBytes := 0 }
  sendMessage pData ControlMsg.ack.code 2 0 0

def sendSetChunkSize (iNewChunkSize : ℕ) : RTMP ℤ := do
  modify fun s => { s with iSelfChunkSize := int32 iNewChunkSize }
  let s ← get
  sendControl [(32, uint32 s.iSelfChunkSize)] .setChunkSize

def sendWindowACKSize : RTMP ℤ := do
  let s ← get
  sendControl [(32, uint32 s.iOtherACKWindow)] .windowAckSize

def sendSetPeerBandwidth : RTMP ℤ := do
  let s ← get
  sendControl [(32, uint32 s.iSelfACKWindow), (8, 0)] .setPeerBandwidth

def sendUserControl (iType : UserControl) (iVal : ℤ) : RTMP ℤ := do
  let s ← get
  match iType with
  | .streamBegin | .streamIsRecorded | .pingRequest | .streamEOF | .pingResponse =>
    sendControl [(16, iType.code), (32, uint32 iVal)] .userControl
  | .setBufferLength =>
    sendControl [(16, iType.code), (32, uint32 s.iStreamID), (32, uint32 iVal)] .userControl
  | .streamDry => return -1

/-! ## Receiving a chunk -/

def putChunk (off : ℕ) (bs : List UInt8) (s : ChunkStream) : ChunkStream :=
  { s with oReceiveChunk := { s.oReceiveChunk with buf := store s.oReceiveChunk.buf off bs } }

def readChunk (iBits : ℕ) : RTMP ℕ :=
  modifyGet fun s => ((s.oReceiveChunk.read iBits).1,
    { s with oReceiveChunk := (s.oReceiveChunk.read iBits).2 })

/-- How many header bytes follow the first one. -/
def smartRcv (iFmt iCsID : ℕ) : ℕ :=
  (if iCsID = 0 then 1 else if iCsID = 1 then 2 else 0) +
  (if iFmt = 0 then 11 else if iFmt = 1 then 7 else if iFmt = 2 then 3 else 0)

def clearChunk (s : ChunkStream) : ChunkStream :=
  { s with oReceiveChunk := s.oReceiveChunk.clear }

def receiveRest (iSmartRcv : ℕ) : RTMP Unit :=
  if 0 < iSmartRcv then receiveOrNull (putChunk 1) iSmartRcv else pure ()

def receiveHeader : RTMP (ℕ × ℕ) := do
  modify clearChunk
  receiveOrNull (putChunk 0) 1
  let iFmt ← readChunk 2
  let iCsID ← readChunk 6
  receiveRest (smartRcv iFmt iCsID)
  return (iFmt, iCsID)

def readChunkID (iCsID : ℕ) : RTMP ℕ := do
  if iCsID = 0 then
    let lo ← readChunk 8
    return 64+lo
  else if iCsID = 1 then
    let lo ← readChunk 8
    let hi ← readChunk 8
    return 64+lo+hi*256
  else return iCsID

def corrupted (iChunkID : ℕ) (sReason : String) : Stop :=
  .thrown (runtimeError s!"Chunk stream ({iChunkID}) corrupted, {sReason}")

def raiseIf (c : Prop) [Decidable c] (e : Stop) : RTMP Unit := if c then throw e else pure ()

/-- Map the chunk to its message and check that its format may appear here. -/
def selectMessage (iFmt iChunkID : ℕ) : RTMP Unit := do
  let s ← get
  updateMessage iChunkID fun m => { m with csId := iChunkID }
  raiseIf (iFmt < 3 ∧ 0 < (s.message iChunkID).currentLength)
    (corrupted iChunkID "new message while previous message not completed")
  raiseIf ((s.mReceiveChunk iChunkID).isNone ∧ 0 < iFmt)
    (corrupted iChunkID "first message of chunk stream must have format 0")

def parseHeader (iFmt iChunkID : ℕ) : RTMP Unit := do
  if iFmt = 0 then
    let timestamp ← readChunk 24
    let length ← readChunk 24
    let type ← readChunk 8
    let streamId ← readChunk 32
    updateMessage iChunkID fun m => { m with
      timestamp := timestamp, timestampDelta := 0, messageLength := length
      messageTypeId := type, messageStreamId := streamId }
  else if iFmt = 1 then
    let delta ← readChunk 24
    let length ← readChunk 24
    let type ← readChunk 8
    updateMessage iChunkID fun m => { m with
      timestampDelta := delta, messageLength := length, messageTypeId := type }
  else if iFmt = 2 then
    let delta ← readChunk 24
    updateMessage iChunkID fun m => { m with timestampDelta := delta }

def extendedTimestamp (iChunkID : ℕ) : RTMP Unit := do
  let m ← getMessage iChunkID
  if 0x00FFFFFF ≤ m.timestamp then
    receiveOrNull (putChunk (← get).oReceiveChunk.v) 4
    let timestamp ← readChunk 32
    updateMessage iChunkID fun m => { m with timestamp := int32 timestamp }

def payloadSize (m : Message) (iOtherChunkSize : ℤ) : ℤ :=
  int32 (min (uint32 ((m.messageLength : ℤ) - m.currentLength)) (uint32 iOtherChunkSize) : ℕ)

def putPayload (iChunkID off : ℕ) (bs : List UInt8) (s : ChunkStream) : ChunkStream :=
  let m := s.message iChunkID
  s.setMessage iChunkID { m with
    oBuffer := { m.oBuffer with buf := store m.oBuffer.buf off bs }
    arrived := (if off = 0 then 0 else m.arrived) + bs.length }

def logWrite (off n : ℕ) (s : ChunkStream) : ChunkStream :=
  { s with payloadWrites := s.payloadWrites ++ [(off, n)] }

def fetchPayload (iChunkID off : ℕ) (iPayloadSize : ℤ) : RTMP Unit :=
  if 0 < iPayloadSize then do
    modify (logWrite off iPayloadSize.toNat)
    receiveOrNull (putPayload iChunkID off) iPayloadSize.toNat
  else pure ()

def receivePayload (iChunkID : ℕ) : RTMP Unit := do
  let s ← get
  let m := s.message iChunkID
  raiseIf (maxMessageSize < m.messageLength) (.thrown (outOfBoundsError
    s!"RTMP message too large: {m.messageLength} > {maxMessageSize}"))
  fetchPayload iChunkID m.currentLength (payloadSize m s.iOtherChunkSize)
  updateMessage iChunkID fun m' => { m' with
    currentLength := uint32 (m'.currentLength + payloadSize m s.iOtherChunkSize) }

def endOfMessage (iChunkID : ℕ) : RTMP Unit := do
  let m ← getMessage iChunkID
  if m.currentLength = m.messageLength then
    updateMessage iChunkID fun m => { m with
      currentLength := 0, timestamp := int32 (m.timestamp + m.timestampDelta)
      oBuffer := m.oBuffer.clear }

def checkACK : RTMP Unit := do
  let s ← get
  if 0 < s.iSelfACKWindow ∧ s.iSelfACKWindow ≤ s.iDeltaReceivedBytes then
    let iRet ← sendACK
    raiseIf (iRet ≠ 0) (.thrown (runtimeError "Receive chunk, failed to send ACK"))

/-- Returns the chunk stream whose message the chunk belongs to. -/
def receiveChunk : RTMP ℕ := do
  let (iFmt, iCsID) ← receiveHeader
  let iChunkID ← readChunkID iCsID
  selectMessage iFmt iChunkID
  parseHeader iFmt iChunkID
  extendedTimestamp iChunkID
  receivePayload iChunkID
  endOfMessage iChunkID
  checkACK
  return iChunkID

/-! ## Handling a message -/

def readMessage (iChunkID iBits : ℕ) : RTMP ℕ := do
  let m ← getMessage iChunkID
  updateMessage iChunkID fun m => m.rebuffer (m.oBuffer.read iBits).2
  return (m.oBuffer.read iBits).1

def ChunkStream.adopt (s : ChunkStream) (iSize : ℤ) : ChunkStream :=
  { s with iOtherChunkSize := iSize }

def handleSetChunkSize (iChunkID : ℕ) : RTMP ℤ := do
  let iRqClientChunkSize := int32 (← readMessage iChunkID 32)
  let s ← get
  if 128 ≤ s.iOtherChunkSize ∧ s.iOtherChunkSize ≤ 65536 then
    modify fun s => s.adopt iRqClientChunkSize
    return 0
  else return 1024

def handleAbort (iChunkID : ℕ) : RTMP ℤ := do
  let _ ← readMessage iChunkID 32
  return 0

def handleACK (iChunkID : ℕ) : RTMP ℤ := do
  let _ ← readMessage iChunkID 32
  return 0

def handleUserCtrl (iChunkID : ℕ) : RTMP ℤ := do
  let iType ← readMessage iChunkID 16
  if iType = UserControl.setBufferLength.code then
    updateMessage iChunkID fun m => m.rebuffer (m.oBuffer.seek 4)
    let iVal ← readMessage iChunkID 32
    modify fun s => { s with
      iOtherBuffer := int32 iVal, iSetBufferCounter := int32 (s.iSetBufferCounter+1) }
    return 0
  else if iType = UserControl.pingRequest.code then
    let iVal ← readMessage iChunkID 32
    sendUserControl .pingResponse (int32 iVal)
  else if iType = UserControl.pingResponse.code then
    let _ ← readMessage iChunkID 32
    return 0
  else return 0

def handleWindowACKSize (iChunkID : ℕ) : RTMP ℤ := do
  let iWindow ← readMessage iChunkID 32
  modify fun s => { s with iSelfACKWindow := int32 iWindow, bPing := true }
  return 0

def handleSetPeerBandwidth (iChunkID : ℕ) : RTMP ℤ := do
  let iWindow ← readMessage iChunkID 32
  let _ ← readMessage iChunkID 8
  modify fun s => { s with iOtherACKWindow := int32 iWindow }
  sendWindowACKSize

/-- The virtual handlers of media, command and metadata messages, as a class overrides them. -/
abbrev Overrides := ControlMsg → Message → ℤ

def unimplemented : Overrides := fun _ _ => -2

def handle (overrides : Overrides) (t : ControlMsg) (iChunkID : ℕ) : RTMP ℤ :=
  match t with
  | .setChunkSize => handleSetChunkSize iChunkID
  | .abortMessage => handleAbort iChunkID
  | .ack => handleACK iChunkID
  | .userControl => handleUserCtrl iChunkID
  | .windowAckSize => handleWindowACKSize iChunkID
  | .setPeerBandwidth => handleSetPeerBandwidth iChunkID
  | t => do return overrides t (← getMessage iChunkID)

def dispatch (overrides : Overrides) (iChunkID : ℕ) : RTMP ℕ := do
  let m ← getMessage iChunkID
  match ControlMsg.ofCode m.messageTypeId with
  | none => return iChunkID
  | some t =>
    let iRet ← handle overrides t iChunkID
    if iRet < 0 then
      if iRet = -2 then
        throw (.thrown (runtimeError s!"Message type({m.messageTypeId}) not supported"))
      throw .null
    return iChunkID

/-- The loop of `receiveMessage`, for at most `fuel` chunks. -/
def receiveChunks : ℕ → RTMP ℕ
  | 0 => throw .diverges
  | fuel+1 => do
    let iChunkID ← receiveChunk
    let m ← getMessage iChunkID
    if 0 < m.currentLength then receiveChunks fuel else return iChunkID

/-- A chunk takes at least one byte, so the loop ends within the bytes still to arrive. -/
def receiveMessage (overrides : Overrides) : RTMP ℕ := do
  let s ← get
  let iChunkID ← receiveChunks ((pending s.pConnection).length+1)
  dispatch overrides iChunkID

end Sirannon.RTMPChunkStream
