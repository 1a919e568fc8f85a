import Sirannon.RTMPChunkStream

/-!
# RTMP chunk format

What a chunk is, how it is written, and what a sequence of chunks means,
independent of the code that reads it. A slot remembers the last header of a
chunk stream and the payload of its unfinished message; the time of a message
is the last absolute time of its chunk stream plus all deltas since.
-/

set_option autoImplicit false

namespace Sirannon.RTMPChunkFormat
open Bits BitString RTMPChunkStream

inductive BasicHeader
  | short (id : ℕ) (h : 2 ≤ id ∧ id < 64)
  | medium (lo : UInt8)
  | long (lo hi : UInt8)
  deriving DecidableEq

def BasicHeader.id : BasicHeader → ℕ
  | short id _ => id
  | medium lo => 64+lo.toNat
  | long lo hi => 64+lo.toNat+hi.toNat*256

def BasicHeader.csId : BasicHeader → ℕ
  | short id _ => id
  | medium _ => 0
  | long _ _ => 1

attribute [grind =] BasicHeader.csId

def BasicHeader.fields : BasicHeader → List (ℕ × ℕ)
  | short _ _ => []
  | medium lo => [(8, lo.toNat)]
  | long lo hi => [(8, lo.toNat), (8, hi.toNat)]

inductive ChunkHeader
  | full (timestamp length type streamId : ℕ)
  | lengthAndDelta (delta length type : ℕ)
  | deltaOnly (delta : ℕ)
  | inherit
  deriving DecidableEq

def ChunkHeader.fmt : ChunkHeader → ℕ
  | full .. => 0
  | lengthAndDelta .. => 1
  | deltaOnly _ => 2
  | inherit => 3

def ChunkHeader.fields : ChunkHeader → List (ℕ × ℕ)
  | full timestamp length type streamId =>
    [(24, timestamp), (24, length), (8, type), (32, streamId)]
  | lengthAndDelta delta length type => [(24, delta), (24, length), (8, type)]
  | deltaOnly delta => [(24, delta)]
  | inherit => []

def ChunkHeader.Fits (h : ChunkHeader) : Prop := ∀ f ∈ h.fields, f.2 < 2^f.1

instance (h : ChunkHeader) : Decidable h.Fits :=
  inferInstanceAs (Decidable (∀ f ∈ h.fields, f.2 < 2^f.1))

structure Chunk where
  basic : BasicHeader
  header : ChunkHeader
  extended : Option ℕ
  payload : List UInt8
  deriving DecidableEq

def Chunk.id (c : Chunk) : ℕ := c.basic.id

def Chunk.firstBits (c : Chunk) : List Bool := ofNat 2 c.header.fmt ++ ofNat 6 c.basic.csId

def Chunk.restBits (c : Chunk) : List Bool := fieldBits c.basic.fields ++ fieldBits c.header.fields

def extendedBits : Option ℕ → List Bool
  | none => []
  | some e => ofNat 32 e

/-- The bytes of a chunk: basic header, message header, extended timestamp, payload. -/
def Chunk.encode (c : Chunk) : List UInt8 :=
  pack c.firstBits ++ pack c.restBits ++ pack (extendedBits c.extended) ++ c.payload

def encodeAll (cs : List Chunk) : List UInt8 := cs.flatMap Chunk.encode

/-! ## Meaning -/

/-- A complete message. -/
structure Msg where
  id : ℕ
  type : ℕ
  streamId : ℕ
  timestamp : ℤ
  payload : List UInt8
  deriving DecidableEq

/-- `field` is the 24-bit time field in force, `extended` its value where it is all ones. -/
structure Slot where
  timestamp : ℤ
  delta : ℤ
  field : ℕ
  absolute : Bool
  extended : ℕ
  length : ℕ
  type : ℕ
  streamId : ℕ
  got : List UInt8
  deriving DecidableEq

def timeField (field extended : ℕ) : ℕ := if field = 0xFFFFFF then extended else field

/-- A chunk with a header starts a message; one without continues or repeats the last. -/
def openSlot (slot : Option Slot) (c : Chunk) : Option Slot :=
  let e := c.extended.getD 0
  match c.header, slot with
  | .full t l ty sid, none => some ⟨timeField t e, 0, t, true, e, l, ty, sid, []⟩
  | .full t l ty sid, some s =>
    if s.got = [] then some ⟨timeField t e, 0, t, true, e, l, ty, sid, []⟩ else none
  | .lengthAndDelta d l ty, some s =>
    if s.got = [] then some { s with
      delta := timeField d e, field := d, absolute := false, extended := e, length := l, type := ty }
    else none
  | .deltaOnly d, some s =>
    if s.got = [] then some { s with
      delta := timeField d e, field := d, absolute := false, extended := e }
    else none
  | .inherit, some s => some s
  | _, none => none

/-- The extended timestamp is written exactly where the field in force is all ones. -/
def Slot.extension (s : Slot) : Option ℕ := if s.field = 0xFFFFFF then some s.extended else none

def accept (size : ℕ) (slot : Option Slot) (c : Chunk) : Option Slot := do
  let s ← openSlot slot c
  if c.extended = s.extension ∧ s.length ≤ maxMessageSize ∧
      c.payload.length = min (s.length - s.got.length) size then
    some { s with got := s.got ++ c.payload }
  else none

def Slot.finished (s : Slot) : Bool := s.got.length = s.length

def Slot.msg (s : Slot) (id : ℕ) : Msg := ⟨id, s.type, s.streamId, s.timestamp + s.delta, s.got⟩

/-- The slot after its message has been taken. -/
def Slot.taken (s : Slot) : Slot := { s with timestamp := s.timestamp + s.delta, got := [] }

/-- The chunk size the receiver works with after a message. -/
def Msg.sizeAfter (m : Msg) (size : ℕ) : ℕ :=
  if m.type = ControlMsg.setChunkSize.code then value (ofBytes (m.payload.take 4)) else size

/-- A message that sets the chunk size carries four bytes with a legal size. -/
def Msg.Legal (m : Msg) : Prop :=
  m.type = ControlMsg.setChunkSize.code →
    m.payload.length = 4 ∧ 128 ≤ value (ofBytes m.payload) ∧ value (ofBytes m.payload) ≤ 65536

structure Receiver where
  size : ℕ
  slots : ℕ → Option Slot

def Receiver.step (R : Receiver) (c : Chunk) : Option (Receiver × Option Msg) := do
  let s ← accept R.size (R.slots c.id) c
  if s.finished then
    some (⟨(s.msg c.id).sizeAfter R.size, Function.update R.slots c.id (some s.taken)⟩,
      some (s.msg c.id))
  else some (⟨R.size, Function.update R.slots c.id (some s)⟩, none)

/-- The messages of a chunk sequence, in the order of their last chunks. -/
def Receiver.run (R : Receiver) : List Chunk → Option (Receiver × List Msg)
  | [] => some (R, [])
  | c::cs => do
    let (R, m) ← R.step c
    let (R, ms) ← R.run cs
    some (R, m.toList ++ ms)

theorem run_cons {R R₁ R₂ : Receiver} {c : Chunk} {cs : List Chunk} {m : Option Msg}
    {ms : List Msg} (h : R.step c = some (R₁, m)) (hr : R₁.run cs = some (R₂, ms)) :
    R.run (c::cs) = some (R₂, m.toList ++ ms) := by
  simp [Receiver.run, h, hr]

theorem run_append {R R₁ R₂ : Receiver} {xs ys : List Chunk} {ms ns : List Msg}
    (hx : R.run xs = some (R₁, ms)) (hy : R₁.run ys = some (R₂, ns)) :
    R.run (xs++ys) = some (R₂, ms++ns) := by
  induction xs generalizing R ms with
  | nil =>
    obtain ⟨rfl, rfl⟩ : R = R₁ ∧ [] = ms := by simpa [Receiver.run] using hx
    exact hy
  | cons c cs ih =>
    simp only [Receiver.run, Option.bind_eq_bind, Option.bind_eq_some_iff, Option.some.injEq,
      Prod.mk.injEq] at hx
    obtain ⟨⟨R', m⟩, hstep, ⟨R'', ms'⟩, hrun, rfl, rfl⟩ := hx
    rw [List.cons_append, List.append_assoc]
    exact run_cons hstep (ih hrun)

/-- The receiver reads the time fields of this slot as the sender means them. -/
def Slot.Plain (s : Slot) : Prop :=
  if s.field = 0xFFFFFF then
    s.absolute = true ∧ s.timestamp = s.extended ∧ 0xFFFFFF ≤ s.extended ∧ s.extended < 2^31 ∧
      s.delta = 0
  else 0 ≤ s.timestamp ∧ s.timestamp < 0xFFFFFF ∧ 0 ≤ s.delta ∧ s.delta < 2^24

instance (s : Slot) : Decidable s.Plain := inferInstanceAs (Decidable (ite _ _ _))

end Sirannon.RTMPChunkFormat
