import Sirannon.Multiplexer

/-!
# TS multiplexer

A pass cuts the waiting packets into transport packets of 188 bytes, always
from the queue with the lowest DTS, until the stream that was lowest at its
start is through `iShape`. The tables and the clock come at intervals.
-/

set_option autoImplicit false

namespace Sirannon.TSMultiplexing
open Bits Media MachineInt Multiplexing
open Std (TreeMap)

/-- The kinds of transport packets. -/
inductive TSType
  | SDT | PAT | PMT | PCR | FILL | PES
  deriving DecidableEq, Repr

structure SIInfo where
  version : ℤ
  cycle : ℤ
  count : ℤ
  interval : ℤ
  PID : ℕ
  cc : ℕ
  size : ℕ

structure SITable where
  SDT : SIInfo
  PAT : SIInfo
  PMT : SIInfo
  PCR : SIInfo
  FILL : SIInfo
  PES : SIInfo

def SITable.get (SI : SITable) : TSType → SIInfo
  | .SDT => SI.SDT
  | .PAT => SI.PAT
  | .PMT => SI.PMT
  | .PCR => SI.PCR
  | .FILL => SI.FILL
  | .PES => SI.PES

def SITable.modify (SI : SITable) (iType : TSType) (f : SIInfo → SIInfo) : SITable :=
  match iType with
  | .SDT => { SI with SDT := f SI.SDT }
  | .PAT => { SI with PAT := f SI.PAT }
  | .PMT => { SI with PMT := f SI.PMT }
  | .PCR => { SI with PCR := f SI.PCR }
  | .FILL => { SI with FILL := f SI.FILL }
  | .PES => { SI with PES := f SI.PES }

/-- `SDT`, `PAT` and `PMT`. -/
def SITable.tables (SI : SITable) (f : SIInfo → SIInfo) : SITable :=
  ((SI.modify .SDT f).modify .PAT f).modify .PMT f

def SIInfo.new (PID : ℕ) (interval : ℤ) : SIInfo := ⟨0, 0, 0, interval, PID, 0, 0⟩

def SITable.new : SITable where
  SDT := SIInfo.new 0x11 500
  PAT := SIInfo.new 0x00 100
  PMT := SIInfo.new 0xFFF 100
  PCR := SIInfo.new 0 20
  FILL := SIInfo.new 0x1FFF 0
  PES := SIInfo.new 0 0

/-- What is known of a transport packet that was put into `vOut`: its kind, its PID and whether it
has the clock, how much stands behind its header; and of the tables at that time the PID announced
for the clock, the size that the PMT was taken to have, and the codecs at the front of the queues. -/
structure Created where
  iType : TSType
  pTSPckt : MediaPacket
  iPID : ℤ
  bPCR : Bool
  iBody : ℕ
  iClockPID : ℕ
  iCounted : ℕ
  codecs : List CodecType

/-- `oMuxRate` is the setting `mux-rate`; `created` records the transport packets that were put
into `vOut`. -/
structure TSMultiplexer extends Multiplexer where
  iMTU : ℤ
  iRefStream : ℤ
  audioStream : ℤ
  videoStream : ℤ
  oMuxRate : ℤ
  iMuxRate : ℤ
  iSources : ℤ
  iLocalRefStream : ℤ
  iPCR : ℤ
  iPCRDelay : ℤ
  iShape : ℤ
  pTSPckt : Option MediaPacket
  bCont : Bool
  bAggr : Bool
  bInterleave : Bool
  bPSIonKey : Bool
  SI : SITable
  vOut : List MediaPacket
  created : List Created

/-- The settings of the component. -/
structure Settings where
  delay : ℤ
  streams : ℤ
  mtu : ℤ
  aggregate : Bool
  shape : ℤ
  pcr_delay : ℤ
  mux_rate : ℤ
  continuous_timestamps : Bool
  interleave : Bool
  psi_on_key : Bool

def Settings.default : Settings := ⟨1000, -1, 1500, true, 200, 400, -1, true, true, false⟩

def TSMultiplexer.init (streamID : ℤ) (o : Settings) : TSMultiplexer where
  toMultiplexer :=
    { Multiplexer.init streamID o.delay o.streams with
      iDelay := max (int32 (o.delay*90)) (int32 (int32 (o.shape*90) + 3600)) }
  iMTU := o.mtu
  iRefStream := -1
  audioStream := -1
  videoStream := -1
  oMuxRate := o.mux_rate
  iMuxRate := 0
  iSources := -1
  iLocalRefStream := -1
  iPCR := -1
  iPCRDelay := int32 (o.pcr_delay*90)
  iShape := int32 (o.shape*90)
  pTSPckt := none
  bCont := o.continuous_timestamps
  bAggr := o.aggregate
  bInterleave := o.interleave
  bPSIonKey := o.psi_on_key
  SI := SITable.new
  vOut := []
  created := []

/-! ## Queues -/

def TSMultiplexer.modified (s : TSMultiplexer) (i : ℤ) (f : Muxx → Muxx) : TSMultiplexer :=
  { s with toMultiplexer := s.toMultiplexer.modified i f }

/-- The entry of a stream and the packet at the front of its queue. -/
def TSMultiplexer.front (s : TSMultiplexer) (iStream : ℤ) :
    Except SirannonException (Muxx × MediaPacket) :=
  match s.mMux[iStream]? with
  | none => .error (undefinedBehaviour "front of an empty queue")
  | some pMux =>
    match pMux.vQueue with
    | [] => .error (undefinedBehaviour "front of an empty queue")
    | pPckt::_ => .ok (pMux, pPckt)

def setFront (pMux : Muxx) (pPckt : MediaPacket) : Muxx :=
  { pMux with vQueue := pPckt::pMux.vQueue.tail }

/-! ## Codecs -/

def GetPmtID : CodecType → ℕ
  | .mp1v => 0x01
  | .mp2v => 0x02
  | .mp4v => 0x10
  | .avc | .svc => 0x1B
  | .mp1a => 0x03
  | .mp2a => 0x04
  | .mp4a => 0x0F
  | .ac3 => 0x81
  | .wmv1 | .wmv2 | .wmv3 | .wmvc => 0xA0
  | _ => 0x00

def wmv : CodecType → Bool
  | .wmv1 | .wmv2 | .wmv3 | .wmvc => true
  | _ => false

/-- The first four characters of `CodecToString`, for the codecs of Windows Media. -/
def fourCC : CodecType → List ℕ
  | .wmv1 => [0x77, 0x6D, 0x76, 0x31]
  | .wmv2 => [0x77, 0x6D, 0x76, 0x32]
  | .wmv3 => [0x57, 0x4D, 0x56, 0x33]
  | _ => [0x77, 0x6D, 0x76, 0x63]

def findLoop (iPattern iBits : ℕ) : ℕ → IBits → IBits
  | 0, b => b
  | fuel+1, b =>
    if max iBits 8 ≤ b.rem then
      if b.peek iBits = iPattern then b else findLoop iPattern iBits fuel (b.seek 1)
    else b

/-- `find` of the reader. -/
def find (b : IBits) (iPattern iBits : ℕ) : IBits := findLoop iPattern iBits b.iBytes b

/-- MPEG audio is told apart by a bit behind its sync word; the codec found is kept. -/
def detect (pPckt : MediaPacket) (codec : CodecType) : CodecType :=
  if codec = .NO ∧ 14 < pPckt.size then
    let b := find ((reader pPckt).seek 14) 0xFFF 12
    if 13 < b.rem then
      if ((b.read 12).2.read 1).1 ≠ 0 then .mp1a else .mp2a
    else codec
  else codec

/-! ## Transport packets -/

def int16 (x : ℤ) : ℤ := x.bmod (2^16)

/-- An entry of the table in the source, as the loop computes it that it was generated with. -/
def crcEntry (i : UInt32) : UInt32 :=
  (List.range 8).foldl (fun k n =>
    (k <<< 1) ^^^ (if (k ^^^ (((i <<< 24) ||| 0x800000) <<< n.toUInt32)) &&& 0x80000000 ≠ 0
      then 0x04c11db7 else 0)) 0

def mpeg_crc32 (data_byte : UInt8) (i_crc : UInt32) : UInt32 :=
  (i_crc <<< 8) ^^^ crcEntry ((i_crc >>> 24) ^^^ data_byte.toUInt32)

def crc (pData : List UInt8) : UInt32 := pData.foldl (fun i_crc b => mpeg_crc32 b i_crc) 0xFFFFFFFF

def adaptationFields (iSize : ℕ) (bPCR bDoRandom : Bool) (iCurPCR : ℤ) : List (ℕ × ℕ) :=
  let iExtend := 184-1-iSize
  if iSize < 184 then
    (8, iExtend)::
      if 0 < iExtend then
        [(1, 0), (1, bDoRandom.toNat), (1, bDoRandom.toNat), (5, if bPCR then 0x10 else 0x00)] ++
          if bPCR then
            [(1, 0), (32, uint32 iCurPCR), (6, 0xFF), (9, 0)] ++
              List.replicate (iExtend-6-1) (8, 0xFF)
          else List.replicate (iExtend-1) (8, 0xFF)
      else []
  else []

def headerFields (iSize : ℕ) (iPID iCC : ℤ) (bStart bPCR bDoRandom : Bool) (iCurPCR : ℤ) :
    List (ℕ × ℕ) :=
  [(8, 0x47), (1, 0), (1, bStart.toNat), (1, 0), (13, uint32 iPID), (2, 0),
    (2, if 0 < iSize then (if iSize < 184 then 0x3 else 0x1) else 0x2), (4, uint32 iCC)] ++
    adaptationFields iSize bPCR bDoRandom iCurPCR

def TSMultiplexer.curPCR (s : TSMultiplexer) (pTSPckt : MediaPacket) : ℤ :=
  if 1 < s.iMuxRate then int32 (s.iPCR + ((4+7)*8*90000 : ℤ).tdiv s.iMuxRate)
  else int32 (pTSPckt.dts - s.iPCRDelay)

def TSMultiplexer.fillTSHeader (s : TSMultiplexer) (pTSPckt : MediaPacket) (iSize : ℕ)
    (iPID iCC : ℤ) (bStart bPCR bDoRandom : Bool) : Except SirannonException MediaPacket := do
  let oHeader ← (OBits.new 188).writes
    (headerFields iSize iPID iCC bStart bPCR bDoRandom (s.curPCR pTSPckt))
  pTSPckt.push_back oHeader.data

/-! ## Tables -/

/-- The byte for the version of a table. -/
def versionByte (version : ℤ) : ℕ := 0xC0 ||| ((version % 32).toNat <<< 1) ||| 0x01

def patFields (SI : SITable) : List (ℕ × ℕ) :=
  [(16, 0x0000), (8, 0xB0), (8, 0x0D), (8, 0x00), (8, 0x01), (8, versionByte SI.PAT.version),
    (24, 0x000000), (8, 0x01), (3, 0xFF), (13, SI.PMT.PID)]

def pushPAT (SI : SITable) : Except SirannonException (List UInt8) := do
  let oHeader ← (OBits.new 188).writes (patFields SI)
  let oHeader ← oHeader.write 32 (crc ((oHeader.data.drop 1).take 12)).toNat
  return oHeader.data

/-- `pData[3] = oHeader.size()`, with nothing pending in the writer. -/
def sized (oHeader : OBits) : OBits :=
  { oHeader with done := oHeader.done.set 3 (UInt8.ofNat oHeader.size) }

/-- The size and the checksum of a section. -/
def closeSection (oHeader : OBits) : Except SirannonException OBits :=
  (sized oHeader).write 32 (crc ((sized oHeader).data.drop 1)).toNat

def pmtFields (SI : SITable) : List (ℕ × ℕ) :=
  [(8, 0x00), (8, 0x02), (8, 0xB0), (8, 0x00), (8, 0x00), (8, 0x01),
    (8, versionByte SI.PMT.version), (8, 0x00), (8, 0x00), (3, 0xFF), (13, SI.PCR.PID),
    (8, 0xF0), (8, 0x00)]

/-- The description of a Windows Media stream. -/
def wmvFields (codec : CodecType) (desc : MediaDescriptor) : List (ℕ × ℕ) :=
  [(8, 0x10), (8, 0xA0), (8, 0x0E)] ++ (fourCC codec).map (fun c => (8, c)) ++
    [(16, uint32 desc.width), (16, uint32 desc.height), (16, 4), (8, 0x4E), (8, 0x39), (8, 0x1A),
      (8, 0x01)]

/-- `desc` is that of the transport packet. -/
def infoFields (desc : Option MediaDescriptor) (codec : CodecType) :
    Except SirannonException (List (ℕ × ℕ)) :=
  if wmv codec then
    match desc.filter fun d => 0 < d.width ∧ 0 < d.height with
    | none => .error (runtimeError "width or height not defined")
    | some desc => .ok (wmvFields codec desc)
  else .ok [(8, 0x00)]

/-- The entry of a stream with the codec that is found at its front. -/
def detected (pMux : Muxx) : Muxx :=
  match pMux.vQueue with
  | [] => pMux
  | pPckt::_ =>
    if pPckt.codec = .mp1a ∨ pPckt.codec = .mp2a then
      { pMux with codec := detect pPckt pMux.codec }
    else pMux

def pmtID (pMux : Muxx) (pPckt : MediaPacket) : ℕ :=
  if pPckt.codec = .mp1a ∨ pPckt.codec = .mp2a then GetPmtID (detected pMux).codec
  else GetPmtID pPckt.codec

/-- The entry of a stream. -/
def entryFields (desc : Option MediaDescriptor) (pMux : Muxx) :
    Except SirannonException (List (ℕ × ℕ)) :=
  match pMux.vQueue with
  | [] => .error (runtimeError "empty queue while constructing PMT")
  | pPckt::_ =>
    if GetPmtID pPckt.codec = 0 then .error (runtimeError "Unsupported codec")
    else do
      let info ← infoFields desc pPckt.codec
      .ok ([(8, pmtID pMux pPckt), (3, 0xFF), (13, uint32 pMux.iPID), (8, 0xF0)] ++ info)

/-- The loop over the streams. -/
def pmtEntries (desc : Option MediaDescriptor) :
    List (ℤ × Muxx) → OBits → Except SirannonException OBits
  | [], oHeader => .ok oHeader
  | e::rest, oHeader => do
    let fields ← entryFields desc e.2
    let oHeader ← oHeader.writes fields
    pmtEntries desc rest oHeader

def TSMultiplexer.pushPMT (s : TSMultiplexer) (desc : Option MediaDescriptor) :
    Except SirannonException (List UInt8) := do
  let oHeader ← (OBits.new 188).writes (pmtFields s.SI)
  let oHeader ← pmtEntries desc s.mMux.toList oHeader
  let oHeader ← closeSection oHeader
  return oHeader.data

def sProvider : List UInt8 := [0x53, 0x69, 0x72, 0x61, 0x6E, 0x6E, 0x6F, 0x6E]

def sService : List UInt8 := [0x53, 0x65, 0x72, 0x76, 0x69, 0x63, 0x65, 0x30, 0x31]

def sdtFields (SI : SITable) : List (ℕ × ℕ) :=
  [(8, 0x00), (8, 0x42), (8, 0xB0), (8, 0x00), (8, 0x00), (8, 0x01),
    (8, versionByte SI.SDT.version), (8, 0x00), (8, 0x00), (16, 0x01), (8, 0xFF), (16, 0x01),
    (8, 0xFC), (16, 0x80 ||| (sProvider.length + sService.length + 2 + 3)), (8, 0x48),
    (8, sProvider.length + sService.length + 2 + 1), (8, 0x01), (8, sProvider.length)]

def pushSDT (SI : SITable) : Except SirannonException (List UInt8) := do
  let oHeader ← (OBits.new 188).writes (sdtFields SI)
  let oHeader ← (oHeader.writeBuffer sProvider).write 8 sService.length
  let oHeader ← closeSection (oHeader.writeBuffer sService)
  return oHeader.data

def pushFILL (SI : SITable) : List UInt8 := List.replicate SI.FILL.size 0

def TSMultiplexer.sizePMT (s : TSMultiplexer) : Except SirannonException ℕ :=
  if s.mMux.toList.any fun e => e.2.vQueue.isEmpty then
    .error (undefinedBehaviour "front of an empty queue")
  else .ok (17 + 5*s.mMux.size +
    10*(s.mMux.toList.countP fun e => e.2.vQueue.head?.any fun pPckt => wmv pPckt.codec))

def sizeSDT : ℕ := 26 + sProvider.length + sService.length

/-! ## One packet -/

/-- Behind `bStart`, `bPCR` and `bRandom` there is less room for data. -/
def payloadSize (SI : SITable) (iType : TSType) (pPckt : MediaPacket) (bPCR bRandom : Bool) : ℕ :=
  if iType ≠ .PES then (SI.get iType).size
  else if bPCR then min pPckt.size (184-8)
  else if bRandom then min pPckt.size (184-2)
  else min pPckt.size 184

def TSMultiplexer.pid (s : TSMultiplexer) (iType : TSType) (pMux : Muxx) : ℤ :=
  match iType with
  | .PCR => int16 pMux.iPID
  | .PES => int16 pMux.iPID
  | _ => int16 (s.SI.get iType).PID

def TSMultiplexer.cc (s : TSMultiplexer) (iType : TSType) (pMux : Muxx) : ℤ :=
  match iType with
  | .PCR => int16 pMux.iCC
  | .FILL => 0
  | .PES => pMux.iCC.tmod 16
  | _ => (s.SI.get iType).cc % 16

/-- The body of the packet. -/
def TSMultiplexer.body (s : TSMultiplexer) (iType : TSType) (iSize : ℕ) (pPckt : MediaPacket) :
    Except SirannonException (List UInt8) :=
  match iType with
  | .PES => .ok (pPckt.bytes.take iSize)
  | .FILL => .ok (pushFILL s.SI)
  | .PAT => pushPAT s.SI
  | .PMT => s.pushPMT pPckt.desc
  | .SDT => pushSDT s.SI
  | .PCR => .ok []

/-- Data leave the front of the queue, counters move, and the PMT has looked at the audio. -/
def TSMultiplexer.taken (s : TSMultiplexer) (iType : TSType) (iStream : ℤ) (iSize : ℕ)
    (pPckt : MediaPacket) : TSMultiplexer :=
  match iType with
  | .PES => s.modified iStream fun pMux =>
      setFront { pMux with iCC := pMux.iCC+1 } (pPckt.popped iSize)
  | .FILL => s
  | .PCR => s
  | .PMT =>
    { s with
      mMux := s.mMux.map fun _ pMux => detected pMux
      SI := s.SI.modify .PMT fun si => { si with cc := (si.cc+1) % 256 } }
  | _ => { s with SI := s.SI.modify iType fun si => { si with cc := (si.cc+1) % 256 } }

def newPacket (pMux : Muxx) (pPckt : MediaPacket) : MediaPacket :=
  { (MediaPacket.new pPckt.type pPckt.content 188).set_metadata pPckt with
    dts := pMux.iOrigDTS
    framestart := true
    frameend := true
    mux := .TS }

def frontCodecs (s : TSMultiplexer) : List CodecType :=
  s.mMux.toList.filterMap fun e => e.2.vQueue.head?.map fun pPckt => pPckt.codec

def TSMultiplexer.appended (s : TSMultiplexer) (r : Created) : TSMultiplexer :=
  { s with
    vOut := s.vOut ++ [r.pTSPckt]
    created := s.created ++ [r]
    iPCR := int32 (s.iPCR + (188*8*90000 : ℤ).tdiv s.iMuxRate) }

/-- The source puts the packet into `vOut` before it fills it; an exception ends the run, so it is
put there when it is complete. -/
def TSMultiplexer.createTSPacket (s : TSMultiplexer) (iStream : ℤ) (iType : TSType)
    (bStart bPCR : Bool) : Except SirannonException (ℕ × TSMultiplexer) := do
  let front ← s.front iStream
  let bRandom := decide (iType = .PES ∧ bStart ∧ front.2.key ∧ front.2.content = .video)
  let iSize := payloadSize s.SI iType front.2 bPCR bRandom
  let pHeader ← s.fillTSHeader (newPacket front.1 front.2) iSize (s.pid iType front.1)
    (s.cc iType front.1) bStart bPCR bRandom
  let body ← s.body iType iSize front.2
  let pTSPckt ← pHeader.push_back body
  if iType = .PES ∧ pTSPckt.size ≠ 188 then
    .error (runtimeError s!"transport stream packet size({pTSPckt.size}) != 188")
  else
    .ok (iSize, (s.taken iType iStream iSize front.2).appended
      { iType := iType
        pTSPckt := pTSPckt
        iPID := s.pid iType front.1
        bPCR := bPCR
        iBody := body.length
        iClockPID := s.SI.PCR.PID
        iCounted := s.SI.PMT.size
        codecs := frontCodecs s })

end Sirannon.TSMultiplexing
