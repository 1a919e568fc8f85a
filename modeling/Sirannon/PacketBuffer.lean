import Sirannon.MachineInt
import Sirannon.MediaPacket
import Sirannon.StateError

/-!
# The data of a packet

A packet owns a block of memory and two pointers into it, to the first byte of
its data and behind the last one. The operations compare addresses, which wrap
at the end of the address space. Where they do not, a call does to the packet
what the list of its bytes suggests.
-/

set_option autoImplicit false

namespace Sirannon.PacketBuffer
open ByteMemory Bits Media MachineInt StateError

structure Packet where
  header : Metadata
  _data : ℕ
  begin : ℕ
  «end» : ℕ
  max_size : ℤ

/-- The memory and the packet that a call is about. -/
structure Cell where
  memory : Memory
  pckt : Packet

inductive Stop
  | thrown (e : SirannonException)
  | bad_alloc
  | undefined (what : String)

abbrev Op := EStateM Stop Cell

/-- The address `k` bytes from `a`. -/
def offset (space a : ℕ) (k : ℤ) : ℕ := ((a+k) % space).toNat

def overflow : Stop := .thrown (outOfBoundsError "MediaPacket overflow")

def underflow : Stop := .thrown (outOfBoundsError "MediaPacket underflow")

def tooShort : Stop := .thrown (outOfBoundsError "Cannot pop an empty packet")

/-- The bytes a caller passes, as many as `len` says. -/
abbrev Chunk := { bytes : List UInt8 // bytes.length < 2^32 }

/-- The block from `_data` on takes the bytes in. -/
def Packet.Holds (p : Packet) (dest len : ℕ) : Prop :=
  p._data ≤ dest ∧ (dest:ℤ)+len ≤ p._data+p.max_size

instance (p : Packet) (dest len : ℕ) : Decidable (p.Holds dest len) :=
  inferInstanceAs (Decidable (_ ∧ _))

def memcpy (dest : ℕ) (bytes : List UInt8) : Op Unit := do
  let c ← get
  if c.pckt.Holds dest bytes.length then set { c with memory := store c.memory dest bytes }
  else throw (.undefined "copy outside of the buffer")

def Packet.setBegin (p : Packet) (a : ℕ) : Packet := { p with begin := a }

def Packet.setEnd (p : Packet) (a : ℕ) : Packet := { p with «end» := a }

def Cell.update (c : Cell) (f : Packet → Packet) : Cell := { c with pckt := f c.pckt }

def push_front (space : ℕ) (buffer : List UInt8) : Op Unit := do
  let c ← get
  let dest := offset space c.pckt.begin (-buffer.length)
  if dest < c.pckt._data then throw underflow
  else do
    set (c.update fun p => p.setBegin dest)
    memcpy dest buffer

/-- `push_front( len )`, the bytes are left to the caller. -/
def grow_front (space len : ℕ) : Op Unit := do
  let c ← get
  let dest := offset space c.pckt.begin (-len)
  if dest < c.pckt._data then throw underflow
  else set (c.update fun p => p.setBegin dest)

def push_back (space : ℕ) (buffer : List UInt8) : Op Unit := do
  let c ← get
  let behind := offset space c.pckt.end buffer.length
  if offset space c.pckt._data c.pckt.max_size ≤ behind then throw overflow
  else do
    memcpy c.pckt.end buffer
    modify fun c => c.update fun p => p.setEnd behind

/-- `push_back( len )`, the bytes are left to the caller. -/
def grow_back (space len : ℕ) : Op Unit := do
  let c ← get
  let behind := offset space c.pckt.end len
  if offset space c.pckt._data c.pckt.max_size ≤ behind then throw overflow
  else set (c.update fun p => p.setEnd behind)

def pop_front (space len : ℕ) : Op Unit := do
  let c ← get
  let start := offset space c.pckt.begin len
  if c.pckt.end < start then throw tooShort
  else set (c.update fun p => p.setBegin start)

def pop_back (space len : ℕ) : Op Unit := do
  let c ← get
  let behind := offset space c.pckt.end (-len)
  if behind < c.pckt.begin then throw tooShort
  else set (c.update fun p => p.setEnd behind)

def clear (space : ℕ) : Op Unit := do
  let c ← get
  let start := offset space c.pckt._data iBufferSpace
  set (c.update fun p => (p.setBegin start).setEnd start)

/-! ## Addresses -/

variable {space a : ℕ} {k : ℤ}

theorem offset_inside (h₀ : 0 ≤ a+k) (h₁ : a+k < space) : (offset space a k : ℤ) = a+k := by
  rw [offset, Int.emod_eq_of_lt h₀ h₁, Int.toNat_of_nonneg h₀]

theorem offset_before (h₀ : 0 ≤ a+k+space) (h₁ : a+k < 0) :
    (offset space a k : ℤ) = a+k+space := by
  rw [offset, ← Int.add_emod_right, Int.emod_eq_of_lt h₀ (by omega), Int.toNat_of_nonneg h₀]

theorem offset_behind (h₀ : space ≤ a+k) (h₁ : a+k < space+space) :
    (offset space a k : ℤ) = a+k-space := by
  have hmod : (a+k-space) % (space:ℤ) = (a+k) % space := Int.sub_emod_right _ _
  rw [offset, ← hmod, Int.emod_eq_of_lt (by omega) (by omega), Int.toNat_of_nonneg (by omega)]

/-! ## Packets in order -/

structure Packet.Bounded (p : Packet) : Prop where
  front : p._data ≤ p.begin
  order : p.begin ≤ p.end
  room : (p.end:ℤ) < p._data+p.max_size

/-- A packet that was created with a size: its block lies in the address space and is longer than
the room in front of new data. -/
structure Packet.Valid (space : ℕ) (p : Packet) : Prop extends p.Bounded where
  inside : p._data+p.max_size < space
  spare : iBufferSpace < p.max_size

/-- The visible bytes. -/
def view (m : Memory) (p : Packet) : List UInt8 := load m p.begin (p.end-p.begin)

theorem view_length (m : Memory) (p : Packet) : (view m p).length = p.end-p.begin :=
  load_length m p.begin (p.end-p.begin)

variable {p : Packet} {m : Memory}

theorem view_push_front (hv : p.Valid space) (bytes : List UInt8) (h : bytes.length ≤ p.begin) :
    view (store m (p.begin-bytes.length) bytes) (p.setBegin (p.begin-bytes.length)) =
      bytes ++ view m p := by
  have horder := hv.order
  have hsize : p.end-(p.begin-bytes.length) = bytes.length+(p.end-p.begin) := by omega
  show load _ (p.begin-bytes.length) (p.end-(p.begin-bytes.length)) = _
  rw [hsize, load_add, load_store, Nat.sub_add_cancel h, load_store_above _ _ _ _ _ (by omega)]
  rfl

theorem view_grow_front (hv : p.Valid space) {len : ℕ} (h : len ≤ p.begin) :
    view m (p.setBegin (p.begin-len)) = load m (p.begin-len) len ++ view m p := by
  have horder := hv.order
  have hsize : p.end-(p.begin-len) = len+(p.end-p.begin) := by omega
  show load m (p.begin-len) (p.end-(p.begin-len)) = _
  rw [hsize, load_add, Nat.sub_add_cancel h]
  rfl

theorem view_push_back (hv : p.Valid space) (bytes : List UInt8) :
    view (store m p.end bytes) (p.setEnd (p.end+bytes.length)) = view m p ++ bytes := by
  have horder := hv.order
  have hsize : p.end+bytes.length-p.begin = (p.end-p.begin)+bytes.length := by omega
  show load _ p.begin (p.end+bytes.length-p.begin) = _
  rw [hsize, load_add, load_store_below _ _ _ _ _ (by omega), Nat.add_sub_cancel' horder,
    load_store]
  rfl

theorem view_grow_back (hv : p.Valid space) (len : ℕ) :
    view m (p.setEnd (p.end+len)) = view m p ++ load m p.end len := by
  have horder := hv.order
  have hsize : p.end+len-p.begin = (p.end-p.begin)+len := by omega
  show load m p.begin (p.end+len-p.begin) = _
  rw [hsize, load_add, Nat.add_sub_cancel' horder]
  rfl

theorem view_pop_front {len : ℕ} (h : p.begin+len ≤ p.end) :
    view m (p.setBegin (p.begin+len)) = (view m p).drop len := by
  show load m (p.begin+len) (p.end-(p.begin+len)) = (load m p.begin (p.end-p.begin)).drop len
  rw [load_drop m p.begin (by omega), Nat.sub_sub]

theorem view_pop_back {len : ℕ} (h : p.begin+len ≤ p.end) :
    view m (p.setEnd (p.end-len)) = (view m p).take ((view m p).length-len) := by
  rw [view_length]
  show load m p.begin (p.end-len-p.begin) = (load m p.begin (p.end-p.begin)).take _
  rw [load_take _ _ _ _ (by omega)]
  congr 1
  omega

/-! ## Calls that stay in the address space -/

theorem memcpy_ok {c : Cell} {dest : ℕ} {bytes : List UInt8} (h : c.pckt.Holds dest bytes.length) :
    (memcpy dest bytes).run c = .ok () { c with memory := store c.memory dest bytes } := by
  rw [memcpy, run_get_bind, if_pos h]
  rfl

theorem memcpy_outside {c : Cell} {dest : ℕ} {bytes : List UInt8}
    (h : ¬ c.pckt.Holds dest bytes.length) :
    (memcpy dest bytes).run c = .error (.undefined "copy outside of the buffer") c := by
  rw [memcpy, run_get_bind, if_neg h]
  rfl

theorem limit_inside (hv : p.Valid space) :
    (offset space p._data p.max_size : ℤ) = p._data+p.max_size := by
  have hinside := hv.inside
  have hspare := hv.spare
  exact offset_inside (by omega) hinside

theorem push_front_run (hv : p.Valid space) (bytes : List UInt8) (h : bytes.length ≤ p.begin) :
    (push_front space bytes).run ⟨m, p⟩ =
      if p.begin < p._data+bytes.length then .error underflow ⟨m, p⟩
      else .ok () ⟨store m (p.begin-bytes.length) bytes, p.setBegin (p.begin-bytes.length)⟩ := by
  obtain ⟨⟨hfront, horder, hroom⟩, hinside, hspare⟩ := hv
  have hdest : offset space p.begin (-bytes.length) = p.begin-bytes.length := by
    have hoffset : (offset space p.begin (-bytes.length) : ℤ) = p.begin+(-bytes.length) :=
      offset_inside (by omega) (by omega)
    omega
  rw [push_front, run_get_bind]
  dsimp only
  rw [hdest]
  by_cases hlow : p.begin < p._data+bytes.length
  · rw [if_pos (by omega), if_pos hlow]
    rfl
  · rw [if_neg (by omega), if_neg hlow]
    show (memcpy _ bytes).run ⟨m, p.setBegin (p.begin-bytes.length)⟩ = _
    apply memcpy_ok
    constructor
    · show p._data ≤ p.begin-bytes.length
      omega
    · show ((p.begin-bytes.length : ℕ):ℤ)+bytes.length ≤ p._data+p.max_size
      omega

theorem grow_front_run (hv : p.Valid space) {len : ℕ} (h : len ≤ p.begin) :
    (grow_front space len).run ⟨m, p⟩ =
      if p.begin < p._data+len then .error underflow ⟨m, p⟩
      else .ok () ⟨m, p.setBegin (p.begin-len)⟩ := by
  obtain ⟨⟨hfront, horder, hroom⟩, hinside, hspare⟩ := hv
  have hdest : offset space p.begin (-len) = p.begin-len := by
    have hoffset : (offset space p.begin (-len) : ℤ) = p.begin+(-len) :=
      offset_inside (by omega) (by omega)
    omega
  rw [grow_front, run_get_bind]
  dsimp only
  rw [hdest]
  by_cases hlow : p.begin < p._data+len
  · rw [if_pos (by omega), if_pos hlow]
    rfl
  · rw [if_neg (by omega), if_neg hlow]
    rfl

theorem push_back_run (hv : p.Valid space) (bytes : List UInt8) (h : p.end+bytes.length < space) :
    (push_back space bytes).run ⟨m, p⟩ =
      if p._data+p.max_size ≤ p.end+bytes.length then .error overflow ⟨m, p⟩
      else .ok () ⟨store m p.end bytes, p.setEnd (p.end+bytes.length)⟩ := by
  have hlimit := limit_inside hv
  obtain ⟨⟨hfront, horder, hroom⟩, hinside, hspare⟩ := hv
  have hbehind : offset space p.end bytes.length = p.end+bytes.length := by
    have hoffset : (offset space p.end bytes.length : ℤ) = p.end+bytes.length :=
      offset_inside (by omega) (by omega)
    omega
  rw [push_back, run_get_bind]
  dsimp only
  rw [hbehind]
  by_cases hfull : (p._data:ℤ)+p.max_size ≤ p.end+bytes.length
  · rw [if_pos (by omega), if_pos hfull]
    rfl
  · rw [if_neg (by omega), if_neg hfull]
    have hcopy : (memcpy p.end bytes).run ⟨m, p⟩ = .ok () ⟨store m p.end bytes, p⟩ := by
      apply memcpy_ok
      constructor
      · show p._data ≤ p.end
        omega
      · show (p.end:ℤ)+bytes.length ≤ p._data+p.max_size
        omega
    rw [run_bind_of_ok hcopy]
    rfl

theorem grow_back_run (hv : p.Valid space) {len : ℕ} (h : p.end+len < space) :
    (grow_back space len).run ⟨m, p⟩ =
      if p._data+p.max_size ≤ p.end+len then .error overflow ⟨m, p⟩
      else .ok () ⟨m, p.setEnd (p.end+len)⟩ := by
  have hlimit := limit_inside hv
  have hbehind : offset space p.end len = p.end+len := by
    have hoffset : (offset space p.end len : ℤ) = p.end+len := offset_inside (by omega) (by omega)
    omega
  rw [grow_back, run_get_bind]
  dsimp only
  rw [hbehind]
  by_cases hfull : (p._data:ℤ)+p.max_size ≤ p.end+len
  · rw [if_pos (by omega), if_pos hfull]
    rfl
  · rw [if_neg (by omega), if_neg hfull]
    rfl

theorem pop_front_run {len : ℕ} (h : p.begin+len < space) :
    (pop_front space len).run ⟨m, p⟩ =
      if p.end < p.begin+len then .error tooShort ⟨m, p⟩
      else .ok () ⟨m, p.setBegin (p.begin+len)⟩ := by
  have hstart : offset space p.begin len = p.begin+len := by
    have hoffset : (offset space p.begin len : ℤ) = p.begin+len :=
      offset_inside (by omega) (by omega)
    omega
  rw [pop_front, run_get_bind]
  dsimp only
  rw [hstart]
  by_cases hshort : p.end < p.begin+len
  · rw [if_pos hshort, if_pos hshort]
    rfl
  · rw [if_neg hshort, if_neg hshort]
    rfl

theorem pop_back_run (hv : p.Valid space) {len : ℕ} (h : len ≤ p.end) :
    (pop_back space len).run ⟨m, p⟩ =
      if p.end < p.begin+len then .error tooShort ⟨m, p⟩
      else .ok () ⟨m, p.setEnd (p.end-len)⟩ := by
  obtain ⟨⟨hfront, horder, hroom⟩, hinside, hspare⟩ := hv
  have hbehind : offset space p.end (-len) = p.end-len := by
    have hoffset : (offset space p.end (-len) : ℤ) = p.end+(-len) :=
      offset_inside (by omega) (by omega)
    omega
  rw [pop_back, run_get_bind]
  dsimp only
  rw [hbehind]
  by_cases hshort : p.end < p.begin+len
  · rw [if_pos (by omega), if_pos hshort]
    rfl
  · rw [if_neg (by omega), if_neg hshort]
    rfl

theorem clear_run (hv : p.Valid space) :
    (clear space).run ⟨m, p⟩ =
      .ok () ⟨m, (p.setBegin (p._data+iBufferSpace)).setEnd (p._data+iBufferSpace)⟩ := by
  have hinside := hv.inside
  have hspare := hv.spare
  have hstart : offset space p._data iBufferSpace = p._data+iBufferSpace := by
    have hoffset : (offset space p._data iBufferSpace : ℤ) = p._data+iBufferSpace :=
      offset_inside (by omega) (by omega)
    omega
  rw [clear, run_get_bind]
  dsimp only
  rw [hstart]
  rfl

/-! ## The list of the bytes -/

/-- What other components know of a packet. -/
def mediaPacket (m : Memory) (p : Packet) : MediaPacket where
  toMetadata := p.header
  iFront := p.begin-p._data
  bytes := view m p
  max_size := p.max_size.toNat

/-- The addresses do what the list does, and an exception leaves them alone. -/
def Matches (c : Cell) :
    EStateM.Result Stop Cell Unit → Except SirannonException MediaPacket → Prop
  | .ok _ c', .ok q => mediaPacket c'.memory c'.pckt = q
  | .error (.thrown e) c', .error e' => e = e' ∧ c' = c
  | _, _ => False

theorem mediaPacket_room (hv : p.Valid space) (len : ℕ) :
    (mediaPacket m p).max_size ≤ (mediaPacket m p).iFront+(mediaPacket m p).size+len ↔
      p._data+p.max_size ≤ (p.end:ℤ)+len := by
  obtain ⟨⟨hfront, horder, hroom⟩, hinside, hspare⟩ := hv
  have hsize : (mediaPacket m p).size = p.end-p.begin := view_length m p
  rw [hsize]
  show p.max_size.toNat ≤ p.begin-p._data+(p.end-p.begin)+len ↔ _
  omega

theorem push_back_refines (hv : p.Valid space) (bytes : List UInt8)
    (h : p.end+bytes.length < space) : Matches ⟨m, p⟩ ((push_back space bytes).run ⟨m, p⟩)
      ((mediaPacket m p).push_back bytes) := by
  rw [push_back_run hv bytes h, MediaPacket.push_back]
  by_cases hfull : (p._data:ℤ)+p.max_size ≤ p.end+bytes.length
  · rw [if_pos hfull, if_pos ((mediaPacket_room hv bytes.length).2 hfull)]
    exact ⟨rfl, rfl⟩
  · rw [if_neg hfull, if_neg (mt (mediaPacket_room hv bytes.length).1 hfull)]
    show mediaPacket _ _ = (mediaPacket m p).pushed bytes
    rw [mediaPacket, view_push_back hv]
    rfl

theorem push_front_refines (hv : p.Valid space) (bytes : List UInt8)
    (h : bytes.length ≤ p.begin) : Matches ⟨m, p⟩ ((push_front space bytes).run ⟨m, p⟩)
      ((mediaPacket m p).push_front bytes) := by
  have hfront := hv.front
  have hiff : (mediaPacket m p).iFront < bytes.length ↔ p.begin < p._data+bytes.length := by
    show p.begin-p._data < bytes.length ↔ _
    omega
  rw [push_front_run hv bytes h, MediaPacket.push_front]
  by_cases hlow : p.begin < p._data+bytes.length
  · rw [if_pos hlow, if_pos (hiff.2 hlow)]
    exact ⟨rfl, rfl⟩
  · rw [if_neg hlow, if_neg (mt hiff.1 hlow)]
    show mediaPacket _ _ = (mediaPacket m p).fronted bytes
    have hiFront : p.begin-bytes.length-p._data = p.begin-p._data-bytes.length := by omega
    rw [mediaPacket, view_push_front hv bytes h]
    show MediaPacket.mk _ (p.begin-bytes.length-p._data) _ _ = _
    rw [hiFront]
    rfl

theorem pop_front_refines (hv : p.Valid space) {len : ℕ} (h : p.begin+len < space) :
    Matches ⟨m, p⟩ ((pop_front space len).run ⟨m, p⟩) ((mediaPacket m p).pop_front len) := by
  have hfront := hv.front
  have horder := hv.order
  have hiff : (mediaPacket m p).size < len ↔ p.end < p.begin+len := by
    show (view m p).length < len ↔ _
    rw [view_length]
    omega
  rw [pop_front_run h, MediaPacket.pop_front]
  by_cases hshort : p.end < p.begin+len
  · rw [if_pos hshort, if_pos (hiff.2 hshort)]
    exact ⟨rfl, rfl⟩
  · rw [if_neg hshort, if_neg (mt hiff.1 hshort)]
    show mediaPacket _ _ = (mediaPacket m p).popped len
    have hiFront : p.begin+len-p._data = p.begin-p._data+len := by omega
    rw [mediaPacket, view_pop_front (by omega)]
    show MediaPacket.mk _ (p.begin+len-p._data) _ _ = _
    rw [hiFront]
    rfl

end Sirannon.PacketBuffer
