import Sirannon.MachineInt
import Sirannon.MediaPacket

/-!
# Schedulers

Packets wait in a buffer until their time has come. A group of them is taken
at a time, and each packet of the group is given a time to be sent at; which
packets make a group, and how they are spread over time, is what the schedulers
differ in. Pausing shifts the start, a speed scales the time that passes.
-/

set_option autoImplicit false

namespace Sirannon.Scheduling
open Bits Media MachineInt

/-! ## Time -/

/-- Nanoseconds; the seconds have 32 bits. -/
abbrev SirannonTime := ℕ

def iWrap : ℕ := 2^32*1000000000

def fromNSecs (iNano : ℕ) : SirannonTime := iNano % iWrap

def fromMSecs (iMilliSeconds : ℤ) : SirannonTime := uint32 iMilliSeconds*1000000

def since (t t' : SirannonTime) : SirannonTime := (t+(iWrap-t')) % iWrap

def later (t t' : SirannonTime) : SirannonTime := (t+t') % iWrap

def convertMsecs (t : SirannonTime) : ℕ := t/1000000

def uint64 (x : ℤ) : ℕ := (x % 2^64).toNat

def MEGA : ℕ := 1000000

/-! ## State -/

inductive Kind
  | basic | frame | gop | svc
  | window (iWindow : ℤ)
  deriving DecidableEq, Repr

/-- A packet on its way, with the time it left at and the start time then. -/
structure Released where
  oCurrent : SirannonTime
  oStarttime : SirannonTime
  pckt : MediaPacket
  deriving DecidableEq, Repr

/-- The numbers of the source's `double` are exact here. `routed` records the packets handed to the
next component. -/
structure Scheduler where
  kind : Kind
  vBuffer : List MediaPacket
  vSend : List MediaPacket
  bSchedule : Bool
  bSending : Bool
  bPause : Bool
  iBase : ℤ
  fCurrent : ℚ
  fSpeed : ℚ
  oPrev : SirannonTime
  oStarttime : SirannonTime
  oPause : SirannonTime
  oFixedStartTime : SirannonTime
  oStartDelay : SirannonTime
  routed : List Released

/-- With the setting `absolute-delay` at zero. -/
def Scheduler.init (kind : Kind) (delay : ℤ) (pause : Bool) (speed : ℚ) : Scheduler where
  kind := kind
  vBuffer := []
  vSend := []
  bSchedule := false
  bSending := false
  bPause := pause
  iBase := -1
  fCurrent := 0
  fSpeed := if speed = 1 then -1 else speed
  oPrev := 0
  oStarttime := 0
  oPause := 0
  oFixedStartTime := 0
  oStartDelay := fromMSecs delay
  routed := []

def Scheduler.startSchedule (s : Scheduler) (oCurrent : SirannonTime) : Scheduler :=
  if s.bSchedule then s
  else if s.oFixedStartTime = 0 then
    { s with
      bSchedule := true
      oStarttime := later oCurrent s.oStartDelay
      oPause := oCurrent }
  else { s with bSchedule := true }

attribute [grind =] Scheduler.startSchedule

def Scheduler.base (s : Scheduler) (pPckt : MediaPacket) : ℤ :=
  if s.iBase < 0 then pPckt.dts else if pPckt.dts < s.iBase then pPckt.dts else s.iBase

/-- `receive_reset` and `receive_end` are the same. -/
def Scheduler.receive (s : Scheduler) (oCurrent : SirannonTime) (pPckt : MediaPacket) :
    Scheduler :=
  { s.startSchedule oCurrent with
    iBase := s.base pPckt
    vBuffer := s.vBuffer ++ [pPckt] }

/-! ## Groups -/

/-- The loop that moves packets from the buffer; `enlist` says whether a packet still belongs to
the group, and what to remember of it. -/
def select {κ : Type} (enlist : κ → MediaPacket → Option κ) :
    κ → List MediaPacket → List MediaPacket × List MediaPacket
  | _, [] => ([], [])
  | k, pPckt::vBuffer =>
    match enlist k pPckt with
    | none => ([], pPckt::vBuffer)
    | some k => (pPckt::(select enlist k vBuffer).1, (select enlist k vBuffer).2)

def enlistBasic (dts : ℤ) (pPckt : MediaPacket) : Option ℤ :=
  let dts := if dts < 0 then pPckt.dts else dts
  if pPckt.dts = dts then some dts else none

def enlistFrame (frame : Option ℤ) (pPckt : MediaPacket) : Option (Option ℤ) :=
  match frame with
  | none => some (some pPckt.framenumber)
  | some frame => if pPckt.framenumber = frame then some (some frame) else none

def IsIFrame (pPckt : MediaPacket) : Bool :=
  match pPckt.frame with
  | .I | .IDR | .SI | .EI => true
  | _ => false

def enlistGOP (iFrame : ℤ) (pPckt : MediaPacket) : Option ℤ :=
  let iFrame := if iFrame < 0 then pPckt.framenumber else iFrame
  if IsIFrame pPckt ∧ pPckt.framenumber ≠ iFrame then none else some iFrame

def enlistSVC (iFrame : ℤ) (pPckt : MediaPacket) : Option ℤ :=
  if 0 ≤ iFrame ∧ iFrame < pPckt.framenumber ∧ pPckt.T = 0 then none else some pPckt.framenumber

def enlistWindow (iWindow iStart : ℤ) (pPckt : MediaPacket) : Option ℤ :=
  if int32 (iWindow*90) ≤ int32 (pPckt.dts-iStart) then none else some iStart

def Kind.group (kind : Kind) (vBuffer : List MediaPacket) :
    List MediaPacket × List MediaPacket :=
  match kind with
  | .basic => select enlistBasic (-1) vBuffer
  | .frame => select enlistFrame none vBuffer
  | .gop => select enlistGOP (-1) vBuffer
  | .svc => select enlistSVC (-1) vBuffer
  | .window iWindow =>
    match vBuffer with
    | [] => ([], [])
    | front::rest => select (enlistWindow iWindow) front.dts (front::rest)

/-! ## Times to send at -/

def MediaPacket.sendAt (pPckt : MediaPacket) (oSend : SirannonTime) : MediaPacket :=
  { pPckt with oSend := oSend }

/-- The loop over the group; `oSend` depends on the size of what is sent before. -/
def spread (oSend : ℕ → SirannonTime) : ℕ → List MediaPacket → List MediaPacket
  | _, [] => []
  | iSize, pPckt::vSend =>
    MediaPacket.sendAt pPckt (oSend iSize)::spread oSend (iSize+pPckt.size) vSend

def total (vSend : List MediaPacket) : ℕ := if sizes vSend = 0 then 1 else sizes vSend

def getOffset (iBase : ℤ) (first : MediaPacket) : SirannonTime :=
  fromNSecs (uint64 (uint64 (int32 (first.dts-iBase))*MEGA)/90)

/-- The time of a group that is spread, in milliseconds. -/
def duration (first last : MediaPacket) : ℤ := (int32 (last.dts+last.inc-first.dts)).tdiv 90

def offset (iBase : ℤ) (first : MediaPacket) : ℤ := (int32 (first.dts-iBase)).tdiv 90

/-- When the packets of a group that starts with `first` and ends with `last` are to be sent. -/
def Kind.oSend (kind : Kind) (iBase : ℤ) (first last : MediaPacket) (iTotal : ℕ) (iSize : ℕ) :
    SirannonTime :=
  match kind with
  | .basic => getOffset iBase first
  | .frame => later (getOffset iBase first)
      (fromNSecs (uint64 (uint64 (uint64 last.inc*MEGA)/90*iSize)/iTotal))
  | .gop | .svc =>
    fromMSecs (int32 (offset iBase first+(max 1 (duration first last)*iSize).tdiv iTotal))
  | .window _ => later (fromMSecs (offset iBase first))
      (fromNSecs (uint32 (int32 (duration first last*iSize)*MEGA)/iTotal))

def Kind.schedule (kind : Kind) (iBase : ℤ) (vSend : List MediaPacket) : List MediaPacket :=
  match vSend.head?, vSend.getLast? with
  | some first, some last => spread (kind.oSend iBase first last (total vSend)) 0 vSend
  | _, _ => vSend

def Scheduler.makeSchedule (s : Scheduler) : Scheduler :=
  { s with
    vSend := s.kind.schedule s.iBase (s.vSend ++ (s.kind.group s.vBuffer).1)
    vBuffer := (s.kind.group s.vBuffer).2 }

/-! ## Processing -/

/-- Time since the start, scaled by the speed. -/
def Scheduler.media (s : Scheduler) (oCurrent : SirannonTime) : ℚ :=
  if 0 < s.fSpeed then
    s.fCurrent+since (since oCurrent s.oStarttime) s.oPrev*s.fSpeed
  else since oCurrent s.oStarttime

/-- What `process` remembers of the time it compared with. -/
def Scheduler.advanced (s : Scheduler) (oCurrent : SirannonTime) : Scheduler :=
  if 0 < s.fSpeed then
    { s with fCurrent := s.media oCurrent, oPrev := since oCurrent s.oStarttime }
  else s

def Scheduler.send (s : Scheduler) (oNow : SirannonTime) (pPckt : MediaPacket)
    (rest : List MediaPacket) : Scheduler :=
  { s with
    vSend := rest
    routed := s.routed ++ [⟨oNow, s.oStarttime, pPckt⟩]
    bSending := ¬ rest = [] }

/-- The loop of `process`: `oNow` is the time of the call, `oCurrent` the media time. -/
def processLoop (oNow oCurrent : SirannonTime) : ℕ → Scheduler →
    Except SirannonException Scheduler
  | 0, s => .ok s
  | fuel+1, s =>
    if s.bSending then
      match s.vSend with
      | [] => processLoop oNow oCurrent fuel s
      | pPckt::rest =>
        if (oCurrent : ℤ) < pPckt.oSend then .ok s
        else processLoop oNow oCurrent fuel (s.send oNow pPckt rest)
    else if s.vBuffer = [] then .ok s
    else if s.makeSchedule.vSend = [] then .error (runtimeError "Sendbuffer underflow")
    else processLoop oNow oCurrent fuel { s.makeSchedule with bSending := true }

/-- Every turn sends a packet or takes some out of the buffer. -/
def Scheduler.process (s : Scheduler) (oNow : SirannonTime) : Except SirannonException Scheduler :=
  if s.bPause then .ok s
  else if oNow < s.oStarttime then .ok s
  else processLoop oNow (fromNSecs ⌊s.media oNow⌋₊) (2*s.vBuffer.length+s.vSend.length+1)
    (s.advanced oNow)

/-! ## Control -/

def Scheduler.pause (s : Scheduler) (oCurrent : SirannonTime) : Scheduler :=
  if s.bPause then s else { s with bPause := true, oPause := oCurrent }

/-- The part of `play` that sets the speed. -/
def Scheduler.setSpeed (s : Scheduler) (oCurrent : SirannonTime) (fFactor : ℚ) : Scheduler :=
  if fFactor ≠ -1 ∨ 0 < s.fSpeed then
    if s.oStarttime ≠ 0 ∧ s.fSpeed ≤ 0 ∧ s.oStarttime ≤ oCurrent then
      { s with
        oPrev := since oCurrent s.oStarttime
        fCurrent := since oCurrent s.oStarttime
        fSpeed := fFactor }
    else { s with fSpeed := fFactor }
  else s

def Scheduler.resume (s : Scheduler) (oCurrent : SirannonTime) : Scheduler :=
  if s.bPause then
    if convertMsecs s.oStarttime = 0 then { s with bPause := false }
    else if s.oStarttime < s.oPause then
      { s with bPause := false, oStarttime := later s.oStarttime (since oCurrent s.oPause) }
    else { s with bPause := false }
  else s

def Scheduler.play (s : Scheduler) (oCurrent : SirannonTime) (fFactor : ℚ) : Scheduler :=
  (s.setSpeed oCurrent fFactor).resume oCurrent

end Sirannon.Scheduling
