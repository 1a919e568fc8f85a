import Sirannon.TSMultiplexer

/-!
# Passes of the TS multiplexer

A pass starts when every queue is ready. It goes from one step to the next,
always on the queue with the lowest DTS, until the stream that was lowest at its
start is through `iShape`. What the steps have created is then sent.
-/

set_option autoImplicit false

namespace Sirannon.TSMultiplexing
open Bits Media MachineInt Multiplexing
open Std (TreeMap)

/-! ## The reference stream -/

/-- What the loop notes of one stream. -/
def TSMultiplexer.refer (s : TSMultiplexer) (i : ℤ) (pPckt : MediaPacket) : TSMultiplexer :=
  match pPckt.content with
  | .video =>
    { s.modified i fun pMux => { pMux with iPID := 0x100 } with
      iRefStream := i
      videoStream := i
      iPCR := pPckt.dts }
  | .audio =>
    { s.modified i fun pMux => { pMux with iPID := 0x101 } with
      iRefStream := if s.iRefStream < 0 then i else s.iRefStream
      iPCR := if s.iRefStream < 0 then pPckt.dts else s.iPCR
      audioStream := i }
  | .mixed => s

/-- The second component is the guess at the rate. -/
def TSMultiplexer.referAll : List (ℤ × Muxx) → TSMultiplexer × ℤ →
    Except SirannonException (TSMultiplexer × ℤ)
  | [], r => .ok r
  | e::es, r =>
    match e.2.vQueue with
    | [] => referAll es r
    | pPckt::_ =>
      match pPckt.desc with
      | none => .error (undefinedBehaviour "descriptor of a packet")
      | some desc => referAll es (r.1.refer e.1 pPckt, int32 (r.2+desc.bitrate))

def muxRate (oMuxRate iGuessedMuxRate : ℤ) : ℤ :=
  if oMuxRate < 0 then 1
  else if oMuxRate = 0 then if iGuessedMuxRate = 0 then 1 else iGuessedMuxRate
  else oMuxRate

def cycle (iMuxRate iFree interval : ℤ) : ℤ :=
  if iMuxRate = 1 then iFree else (int32 (iMuxRate*interval)).tdiv (8*188*1000)

def TSMultiplexer.clockPID (s : TSMultiplexer) : ℕ :=
  match s.mMux[s.iRefStream]? with
  | none => 0
  | some pMux => (pMux.iPID % 2^16).toNat

/-- The tables, once the rate is set. -/
def TSMultiplexer.prepared (s : TSMultiplexer) (iSize : ℕ) : TSMultiplexer :=
  let iPCRCycle := cycle s.iMuxRate 3 s.SI.PCR.interval
  { s with
    iSources := s.mMux.size
    SI :=
      { s.SI with
        SDT := { s.SI.SDT with cycle := cycle s.iMuxRate 500 s.SI.SDT.interval, size := sizeSDT%256 }
        PAT := { s.SI.PAT with cycle := cycle s.iMuxRate 100 s.SI.PAT.interval, size := 17 }
        PMT := { s.SI.PMT with size := iSize%256 }
        PCR := { s.SI.PCR with cycle := iPCRCycle, count := iPCRCycle, PID := s.clockPID, size := 0 }
        FILL := { s.SI.FILL with size := 184 } } }

def TSMultiplexer.findRefStream (s : TSMultiplexer) : Except SirannonException TSMultiplexer := do
  let r ← referAll s.mMux.toList (s, 0)
  if r.1.iRefStream < 0 then .error (runtimeError "Video nor audio content in buffers")
  else do
    let s := { r.1 with iMuxRate := muxRate r.1.oMuxRate r.2 }
    let iSize ← s.sizePMT
    return s.prepared iSize

/-! ## Steps -/

/-- A packet of which nothing was sent yet. -/
def isFresh (pMux : Muxx) : Bool := pMux.iOrigSize < 0

def started (pPckt : MediaPacket) (pMux : Muxx) : Muxx :=
  if isFresh pMux then { pMux with iOrigSize := pPckt.size, iOrigDTS := pPckt.dts } else pMux

def forced (si : SIInfo) : SIInfo := { si with count := 0 }

def ticked (si : SIInfo) : SIInfo :=
  if si.count+1 = si.cycle then { si with count := 0 } else { si with count := si.count+1 }

/-- The count of the clock after a tick. -/
def TSMultiplexer.pcrCount (s : TSMultiplexer) (bStart : Bool) : ℤ :=
  if 1 < s.iMuxRate ∨ bStart then s.SI.PCR.count+1 else s.SI.PCR.count

/-- Does the clock fall due on this step? -/
def TSMultiplexer.duePCR (s : TSMultiplexer) (iStream : ℤ) (bStart : Bool) : Bool :=
  iStream = s.iLocalRefStream ∧ s.SI.PCR.cycle ≤ s.pcrCount bStart

def TSMultiplexer.tickPCR (s : TSMultiplexer) (iStream : ℤ) (bStart : Bool) (si : SIInfo) : SIInfo :=
  if iStream = s.iLocalRefStream then
    { si with count := if s.duePCR iStream bStart then 0 else s.pcrCount bStart }
  else si

/-- The special effect for key frames, and a tick. -/
def TSMultiplexer.tick (s : TSMultiplexer) (iStream : ℤ) (pMux : Muxx) (pPckt : MediaPacket) : SITable :=
  let SI := if s.bPSIonKey ∧ isFresh pMux ∧ iStream = s.iRefStream ∧ pPckt.key then
    s.SI.tables forced else s.SI
  (SI.tables ticked).modify .PCR (s.tickPCR iStream (isFresh pMux))

/-- The part of `step` before the first packet is created. -/
def TSMultiplexer.begun (s : TSMultiplexer) (iStream : ℤ) (pMux : Muxx) (pPckt : MediaPacket) :
    TSMultiplexer :=
  { s.modified iStream (started pPckt) with SI := s.tick iStream pMux pPckt }

/-- The tables that are due. -/
def TSMultiplexer.createSDT (s : TSMultiplexer) (iStream : ℤ) :
    Except SirannonException TSMultiplexer :=
  if s.SI.SDT.count = 1 then (s.createTSPacket iStream .SDT true false).map Prod.snd else .ok s

def TSMultiplexer.createPAT (s : TSMultiplexer) (iStream : ℤ) :
    Except SirannonException TSMultiplexer :=
  if s.SI.PAT.count = 1 then do
    let r ← s.createTSPacket iStream .PAT true false
    (r.2.createTSPacket iStream .PMT true false).map Prod.snd
  else .ok s

/-- Is the stream ahead of the clock, so that a packet without data is due? -/
def TSMultiplexer.ahead (s : TSMultiplexer) (pPckt : MediaPacket) : Bool :=
  1 < s.iMuxRate ∧ s.iPCRDelay < int32 (pPckt.dts-s.iPCR)

/-- The DTS moves with the data sent. -/
def TSMultiplexer.advanced (s : TSMultiplexer) (iStream : ℤ) (iData : ℕ) :
    Except SirannonException TSMultiplexer := do
  let front ← s.front iStream
  if front.1.iOrigSize = 0 then .error (undefinedBehaviour "division by zero")
  else
    let iShift := (int32 (iData*front.2.inc)).tdiv front.1.iOrigSize
    .ok (s.modified iStream fun pMux =>
      setFront pMux { front.2 with dts := int32 (front.2.dts+iShift) })

/-- A packet with data, or when the stream is ahead of the clock one without. -/
def TSMultiplexer.createMedia (s : TSMultiplexer) (iStream : ℤ) (pPckt : MediaPacket)
    (bStart bPCR : Bool) : Except SirannonException TSMultiplexer :=
  if s.ahead pPckt then
    if bPCR then (s.createTSPacket iStream .PCR false true).map Prod.snd
    else (s.createTSPacket iStream .FILL false false).map Prod.snd
  else do
    let r ← s.createTSPacket iStream .PES bStart bPCR
    r.2.advanced iStream r.1

def popped (pMux : Muxx) : Muxx := { pMux with vQueue := pMux.vQueue.tail, iOrigSize := -1 }

/-- Takes the packet away when it is depleted. -/
def TSMultiplexer.depleted (s : TSMultiplexer) (iStream : ℤ) :
    Except SirannonException (Bool × TSMultiplexer) := do
  let front ← s.front iStream
  if front.2.size = 0 then .ok (false, s.modified iStream popped)
  else .ok (true, s)

def TSMultiplexer.step (s : TSMultiplexer) (iStream : ℤ) :
    Except SirannonException (Bool × TSMultiplexer) := do
  let front ← s.front iStream
  let bStart := isFresh front.1
  let bPCR := s.duePCR iStream bStart
  let s ← (s.begun iStream front.1 front.2).createSDT iStream
  let s ← s.createPAT iStream
  let s ← s.createMedia iStream front.2 bStart bPCR
  s.depleted iStream

/-! ## Passes -/

def outOfFuel : SirannonException := undefinedBehaviour "the loop goes on"

/-- Without interleaving a packet is sent as a whole. -/
def TSMultiplexer.steps (iStream : ℤ) : ℕ → TSMultiplexer → Except SirannonException TSMultiplexer
  | 0, _ => .error outOfFuel
  | fuel+1, s => do
    let r ← s.step iStream
    if r.1 ∧ ¬s.bInterleave then steps iStream fuel r.2 else .ok r.2

/-- Is the pass over? -/
def TSMultiplexer.reached (s : TSMultiplexer) (iStartDts iStream : ℤ) (pPckt : MediaPacket) :
    Except SirannonException Bool :=
  if iStream = s.iLocalRefStream ∧ int32 (iStartDts+s.iShape) ≤ pPckt.dts then .ok true
  else do
    let front ← s.front s.iLocalRefStream
    return decide (front.2.type ≠ .media)

/-- The end of a pass at control packets. -/
def TSMultiplexer.control (s : TSMultiplexer) (iStartDts : ℤ) :
    Except SirannonException (ℤ × TSMultiplexer) := do
  let r ← s.toMultiplexer.resetMux
  return (int32 (r.1.dts-iStartDts),
    { s with toMultiplexer := r.2, vOut := s.vOut ++ [r.1], SI := s.SI.tables forced })

/-- The loop of a pass, with the time that it took. -/
def TSMultiplexer.pass (iStartDts : ℤ) : ℕ → ℤ → TSMultiplexer →
    Except SirannonException (ℤ × TSMultiplexer)
  | 0, _, _ => .error outOfFuel
  | fuel+1, iStream, s =>
    if iStream < 0 then s.control iStartDts
    else do
      let front ← s.front iStream
      let bReached ← s.reached iStartDts iStream front.2
      if bReached then .ok (int32 (front.2.dts-iStartDts), s)
      else do
        let s ← s.steps iStream fuel
        let iStream ← s.toMultiplexer.selectMux
        pass iStartDts fuel iStream s

/-! ## Sending -/

def TSMultiplexer.mux (s : TSMultiplexer) (pckt : MediaPacket) : TSMultiplexer :=
  { s with toMultiplexer := s.toMultiplexer.mux pckt }

def TSMultiplexer.muxAggregate (s : TSMultiplexer) : TSMultiplexer :=
  match s.pTSPckt with
  | none => s
  | some pTSPckt => { s.mux pTSPckt with pTSPckt := none }

def TSMultiplexer.aggregated (s : TSMultiplexer) (pPckt : MediaPacket) :
    Except SirannonException TSMultiplexer := do
  let pTSPckt := s.pTSPckt.getD
    ((MediaPacket.new pPckt.type pPckt.content (uint32 s.iMTU)).set_metadata pPckt)
  let pTSPckt ← pTSPckt.push_back pPckt.bytes
  let s := { s with pTSPckt := some pTSPckt }
  return if uint32 s.iMTU < pTSPckt.size+188 then s.muxAggregate else s

/-- Aggregate or simple? -/
def TSMultiplexer.sent (s : TSMultiplexer) (pPckt : MediaPacket) : Except SirannonException TSMultiplexer :=
  if s.bAggr then s.aggregated pPckt else .ok (s.mux pPckt)

/-- `iPacket` counts the transport packets, `iRefDts` is the last DTS of the local reference. -/
def TSMultiplexer.release (iStartDts iDuration : ℤ) (iTotal : ℕ) : ℕ → ℤ → List MediaPacket →
    TSMultiplexer → Except SirannonException TSMultiplexer
  | _, _, [], s => .ok { s with vOut := [] }
  | iPacket, iRefDts, pPckt::vOut, s =>
    if pPckt.type ≠ .media then
      release iStartDts iDuration iTotal iPacket iRefDts vOut (s.muxAggregate.mux pPckt)
    else do
      let iRefDts := if pPckt.xstream = s.iLocalRefStream then pPckt.dts else iRefDts
      let iDts := if s.bCont then int32 (iStartDts+(int32 (iPacket*iDuration)).tdiv iTotal) else iRefDts
      let s ← s.sent { pPckt with dts := iDts }
      release iStartDts iDuration iTotal (iPacket+1) iRefDts vOut s

def TSMultiplexer.selected (s : TSMultiplexer) (iStream : ℤ) : TSMultiplexer :=
  { s with iLocalRefStream := iStream }

def TSMultiplexer.startDts (s : TSMultiplexer) (iStream : ℤ) : Except SirannonException ℤ :=
  if 0 ≤ iStream then (s.front iStream).map fun front => front.2.dts else .ok 0

def TSMultiplexer.referred (s : TSMultiplexer) : Except SirannonException TSMultiplexer :=
  if s.iRefStream < 0 then s.findRefStream else .ok s

/-- A pass from its reference stream to the packets sent. -/
def TSMultiplexer.processPass (fuel : ℕ) (s : TSMultiplexer) : Except SirannonException TSMultiplexer := do
  let iStream ← s.toMultiplexer.selectMux
  let iStartDts ← s.startDts iStream
  let r ← pass iStartDts fuel iStream (s.selected iStream)
  release iStartDts r.1 r.2.vOut.length 0 0 r.2.vOut r.2

def TSMultiplexer.process (fuel : ℕ) (s : TSMultiplexer) : Except SirannonException TSMultiplexer :=
  if s.toMultiplexer.checkMux = false then .ok s
  else if 0 < s.iSources ∧ (s.mMux.size : ℤ) ≠ s.iSources then
    .error (valueError
      "Multiple sources detected, please set the parameter 'streams' to an appropriate value.")
  else do
    let s ← s.referred
    s.processPass fuel

def TSMultiplexer.receive (s : TSMultiplexer) (pckt : MediaPacket) : TSMultiplexer :=
  { s with toMultiplexer := s.toMultiplexer.received pckt }

/-! ## Runs -/

/-- What happens to the component: a packet comes in, or it is scheduled. -/
inductive Event
  | receive (pckt : MediaPacket)
  | process (fuel : ℕ)

def TSMultiplexer.happened (s : TSMultiplexer) : Event → Except SirannonException TSMultiplexer
  | .receive pckt => .ok (s.receive pckt)
  | .process fuel => s.process fuel

/-- An exception ends a run. -/
def runFrom : List Event → TSMultiplexer → Except SirannonException TSMultiplexer
  | [], s => .ok s
  | a::events, s => do
    let s ← s.happened a
    runFrom events s

def run (streamID : ℤ) (o : Settings) (events : List Event) : Except SirannonException TSMultiplexer :=
  runFrom events (TSMultiplexer.init streamID o)

end Sirannon.TSMultiplexing
