import Sirannon.Bits
import Sirannon.SeekableFile

/-!
# Multiplexing into chunks

A container writer works on a file that it can seek in. The multiplexer gives
it none: what is written goes out in chunks, one for each write, and the last
chunk is held back so that the writer can return into it. Where the writer
returns to is kept as the distance from the end that the last seek left.
-/

set_option autoImplicit false

namespace Sirannon.FFmpeg
open Bits SeekableFile

abbrev Bytes := List UInt8

/-- `routed` are the payloads of the packets that were sent away. Their numbers and timestamps are
left out. -/
structure FFmpegMultiplexer where
  iPos : ℤ
  iDelta : ℤ
  pCurrent : Option Bytes
  bIgnore : Bool
  bBackwards : Bool
  routed : List Bytes

def FFmpegMultiplexer.new : FFmpegMultiplexer where
  iPos := 0
  iDelta := 0
  pCurrent := none
  bIgnore := false
  bBackwards := false
  routed := []

/-- Only a write of some bytes touches memory. -/
def FFmpegMultiplexer.processBuffer (s : FFmpegMultiplexer) (pBuffer : Bytes) :
    Except SirannonException FFmpegMultiplexer :=
  if s.bIgnore then .ok s
  else if s.bBackwards then
    match s.pCurrent with
    | none => .error (runtimeError "Backward write before first write")
    | some chunk =>
      if s.iDelta < pBuffer.length then
        .error (runtimeError (s!"Writing beyond buffer limit: write({pBuffer.length}) > " ++
          s!"delta({s.iDelta}) limit({chunk.length})"))
      else if pBuffer = [] then .ok s
      else if (chunk.length : ℤ) < s.iDelta then
        .error (undefinedBehaviour "write in front of the chunk")
      else
        let pos := ((chunk.length : ℤ)-s.iDelta).toNat
        .ok { s with pCurrent := some (overwrite chunk pos pBuffer) }
  else
    .ok { s with
      routed := s.routed ++ s.pCurrent.toList
      iPos := s.iPos+pBuffer.length
      pCurrent := some pBuffer }

inductive Whence
  | SEEK_SET
  | SEEK_CUR
  | other
  deriving DecidableEq, Repr

/-- The distance is set whatever the seek is for. -/
def FFmpegMultiplexer.seekBuffer (s : FFmpegMultiplexer) (iOffset : ℤ) (whence : Whence) :
    Except SirannonException (ℤ × FFmpegMultiplexer) :=
  let s := { s with iDelta := s.iPos-iOffset }
  match whence with
  | .SEEK_SET =>
    if 0 < s.iDelta then
      match s.pCurrent with
      | none => .error (runtimeError "Seek before first write")
      | some chunk =>
        if (chunk.length : ℤ) < s.iDelta then
          .ok (iOffset, { s with bBackwards := true, bIgnore := true })
        else .ok (iOffset, { s with bBackwards := true })
    else if s.iDelta = 0 then .ok (iOffset, { s with bBackwards := false, bIgnore := false })
    else
      match s.pCurrent with
      | none => .error (undefinedBehaviour "size of no chunk")
      | some _ => .error (runtimeError (s!"Seeking forward beyond buffer limit: seek({iOffset}) > " ++
          s!"pos({s.iPos})"))
  | .SEEK_CUR => .ok (s.iPos, s)
  | .other => .ok (0, s)

/-- What the container writer calls back. -/
inductive Call
  | write (bs : Bytes)
  | seek (pos : ℕ)
  | tell
  deriving DecidableEq, Repr

def FFmpegMultiplexer.called (s : FFmpegMultiplexer) : Call → Except SirannonException FFmpegMultiplexer
  | .write bs => s.processBuffer bs
  | .seek pos => (s.seekBuffer pos .SEEK_SET).map Prod.snd
  | .tell => (s.seekBuffer 0 .SEEK_CUR).map Prod.snd

/-- All calls on one context, those of its header and trailer included. -/
def FFmpegMultiplexer.run : List Call → FFmpegMultiplexer → Except SirannonException FFmpegMultiplexer
  | [], s => .ok s
  | a::calls, s =>
    match s.called a with
    | .error e => .error e
    | .ok s => FFmpegMultiplexer.run calls s

/-- When the end packet comes the context is closed, and the end packet routed. -/
def muxed (calls : List Call) : Except SirannonException (List Bytes) :=
  (FFmpegMultiplexer.run calls FFmpegMultiplexer.new).map FFmpegMultiplexer.routed

/-! ## The file -/

def called (f : File UInt8) : Call → File UInt8
  | .write bs => f.write bs
  | .seek pos => f.seek pos
  | .tell => f

/-- The file a writer would have after its calls. -/
def file (calls : List Call) : File UInt8 := calls.foldl called File.new

/-- The multiplexer raises nothing, writes nowhere else, and sends away what the file would hold. -/
def Emulated (calls : List Call) : Prop :=
  ∃ routed, muxed calls = .ok routed ∧ routed.flatten = (file calls).bytes

/-! ## What a writer does -/

/-- Where a writer is: its position, where the last chunk starts and ends, whether it has gone back,
and how far from the end the last call of the seek function was. -/
structure Place where
  pos : ℕ
  start : ℕ
  stop : ℕ
  back : Bool
  delta : ℕ
  deriving DecidableEq, Repr

def Place.new : Place := ⟨0, 0, 0, false, 0⟩

def Place.called (p : Place) : Call → Place
  | .write bs =>
    if p.back then { p with pos := p.pos+bs.length }
    else { p with pos := p.stop+bs.length, start := p.stop, stop := p.stop+bs.length }
  | .seek pos => { p with pos := pos, back := decide (pos < p.stop), delta := p.stop-pos }
  | .tell => { p with delta := p.stop }

def place (calls : List Call) : Place := calls.foldl Place.called Place.new

/-- A writer goes back into the last chunk only, stays in it, and returns to the end before it goes
on. -/
def Issues (p : Place) : Call → Prop
  | .write bs => p.back = true → p.pos+bs.length ≤ p.stop
  | .seek pos => p.start ≤ pos ∧ pos ≤ p.stop
  | .tell => True

def IssuedFrom : Place → List Call → Prop
  | _, [] => True
  | p, a::calls => Issues p a ∧ IssuedFrom (p.called a) calls

/-- What is written back goes where the writer is: nothing was written and nothing told since the
writer went back, or no more than makes no difference. -/
def Places (p : Place) : Call → Prop
  | .write bs => p.back = true → bs ≠ [] → p.delta = p.stop-p.pos
  | _ => True

def PlacedFrom : Place → List Call → Prop
  | _, [] => True
  | p, a::calls => Places p a ∧ PlacedFrom (p.called a) calls

/-- What is written back is not in front of the chunk. -/
def Reaches (p : Place) : Call → Prop
  | .write bs => p.back = true → bs ≠ [] → p.delta ≤ p.stop-p.start
  | _ => True

def ReachedFrom : Place → List Call → Prop
  | _, [] => True
  | p, a::calls => Reaches p a ∧ ReachedFrom (p.called a) calls

def Issued (calls : List Call) : Prop := IssuedFrom Place.new calls

def Placed (calls : List Call) : Prop := PlacedFrom Place.new calls

def Reached (calls : List Call) : Prop := ReachedFrom Place.new calls

/-- The last chunk, which is never sent away, is empty. -/
def Flushed (calls : List Call) : Prop := (place calls).start = (place calls).stop

end Sirannon.FFmpeg
