import Sirannon.PacketBuffer

/-!
# Packets in memory

Packets are created with a size, or as copies of others, and then called in
any order. Each of them is a bounded queue of bytes with two ends, and no call
reaches another one, as long as no size makes the capacity overflow and no
address leaves the address space.
-/

set_option autoImplicit false

namespace Sirannon.PacketHeap
open ByteMemory Bits Media MachineInt StateError PacketBuffer

/-! ## Calls -/

inductive Call
  | push_front (buffer : Chunk)
  | grow_front (len : UInt32)
  | push_back (buffer : Chunk)
  | grow_back (len : UInt32)
  | pop_front (len : UInt32)
  | pop_back (len : UInt32)
  | clear

def Call.run (space : ℕ) : Call → Op Unit
  | .push_front buffer => PacketBuffer.push_front space buffer.1
  | .grow_front len => PacketBuffer.grow_front space len.toNat
  | .push_back buffer => PacketBuffer.push_back space buffer.1
  | .grow_back len => PacketBuffer.grow_back space len.toNat
  | .pop_front len => PacketBuffer.pop_front space len.toNat
  | .pop_back len => PacketBuffer.pop_back space len.toNat
  | .clear => PacketBuffer.clear space

/-- What a call makes of the bytes of a packet. -/
def Call.Follows : Call → List UInt8 → List UInt8 → Prop
  | .push_front buffer, v, w => w = buffer.1 ++ v
  | .grow_front len, v, w => ∃ bytes, bytes.length = len.toNat ∧ w = bytes ++ v
  | .push_back buffer, v, w => w = v ++ buffer.1
  | .grow_back len, v, w => ∃ bytes, bytes.length = len.toNat ∧ w = v ++ bytes
  | .pop_front len, v, w => len.toNat ≤ v.length ∧ w = v.drop len.toNat
  | .pop_back len, v, w => len.toNat ≤ v.length ∧ w = v.take (v.length-len.toNat)
  | .clear, _, w => w = []

/-- The address that the call computes lies in the address space. -/
def Call.Fits (space : ℕ) (p : Packet) : Call → Prop
  | .push_front buffer => buffer.1.length ≤ p.begin
  | .grow_front len => len.toNat ≤ p.begin
  | .push_back buffer => p.end+buffer.1.length < space
  | .grow_back len => p.end+len.toNat < space
  | .pop_front len => p.begin+len.toNat < space
  | .pop_back len => len.toNat ≤ p.end
  | .clear => True

/-! ## The heap -/

/-- All packets that were created, in the order in which they were. -/
structure Heap where
  memory : Memory
  packets : List Packet

/-- `alloc` is `new uint8_t [n]`: the address of a block that is not in use, if there is one. -/
structure Machine where
  space : ℕ
  wide : 2^32 ≤ space
  alloc : Heap → ℕ → Option ℕ
  fresh : ∀ (h : Heap) (n a : ℕ), alloc h n = some a → a+n < space ∧
    ∀ p ∈ h.packets, a+n ≤ p._data ∨ (p._data:ℤ)+p.max_size ≤ a

abbrev Prog := EStateM Stop Heap

def Machine.new (m : Machine) (h : Heap) (max_size : ℤ) : Option ℕ :=
  if max_size < 0 then none else m.alloc h max_size.toNat

def capacity (iMaxSize : UInt32) : ℤ := int32 (uint32 (iMaxSize.toNat+2*iBufferSpace))

def created (space : ℕ) (header : Metadata) (a : ℕ) (max_size : ℤ) : Packet where
  header := header
  _data := a
  begin := offset space a iBufferSpace
  «end» := offset space a iBufferSpace
  max_size := max_size

def Heap.add (h : Heap) (p : Packet) : Heap := { h with packets := h.packets ++ [p] }

/-- The constructor that is given no type makes a media packet with video in it. -/
def create (m : Machine) (type : PacketType) (content : ContentType) (iMaxSize : UInt32) :
    Prog Unit := do
  let h ← get
  match m.new h (capacity iMaxSize) with
  | none => throw .bad_alloc
  | some a => set (h.add (created m.space (Metadata.new type content) a (capacity iMaxSize)))

def copied (space : ℕ) (other : Packet) (a : ℕ) : Packet where
  header := other.header
  _data := a
  begin := offset space a ((other.begin:ℤ)-other._data)
  «end» := offset space a ((other.end:ℤ)-other._data)
  max_size := other.max_size

/-- The copy constructor. -/
def copy (m : Machine) (k : ℕ) : Prog Unit := do
  let h ← get
  match h.packets[k]? with
  | none => pure ()
  | some other =>
    match m.new h other.max_size with
    | none => throw .bad_alloc
    | some a =>
      let p := copied m.space other a
      if p.begin ≤ p.end ∧ p.Holds p.begin (p.end-p.begin) then
        set { h.add p with
          memory := store h.memory p.begin (load h.memory other.begin (p.end-p.begin)) }
      else throw (.undefined "copy outside of the buffer")

def Heap.put (h : Heap) (k : ℕ) (c : Cell) : Heap := ⟨c.memory, h.packets.set k c.pckt⟩

def call (m : Machine) (k : ℕ) (c : Call) : Prog Unit := fun h =>
  match h.packets[k]? with
  | none => .ok () h
  | some p =>
    match (c.run m.space).run ⟨h.memory, p⟩ with
    | .ok _ cell => .ok () (h.put k cell)
    | .error e cell => .error e (h.put k cell)

inductive Action
  | create (type : PacketType) (content : ContentType) (iMaxSize : UInt32)
  | copy (k : ℕ)
  | call (k : ℕ) (c : Call)

def act (m : Machine) : Action → Prog Unit
  | .create type content iMaxSize => PacketHeap.create m type content iMaxSize
  | .copy k => PacketHeap.copy m k
  | .call k c => PacketHeap.call m k c

/-! ## Queues of bytes -/

def Heap.views (h : Heap) : List (List UInt8) := h.packets.map (view h.memory)

/-- The same packet but for the place of its block. -/
structure Same (p q : Packet) : Prop where
  header : q.header = p.header
  max_size : q.max_size = p.max_size
  begin : (q.begin:ℤ)-q._data = (p.begin:ℤ)-p._data
  «end» : (q.end:ℤ)-q._data = (p.end:ℤ)-p._data

/-- What an action makes of the packets; the bytes of those it is not about are left alone. -/
def Action.Follows (h h' : Heap) : Action → Prop
  | .create .. => h'.views = h.views ++ [[]]
  | .copy k => ∀ p, h.packets[k]? = some p →
      h'.views = h.views ++ [view h.memory p] ∧ ∃ q, h'.packets = h.packets ++ [q] ∧ Same p q
  | .call k c => ∀ p, h.packets[k]? = some p →
      h'.packets.map Packet.header = h.packets.map Packet.header ∧
      ∃ w, c.Follows (view h.memory p) w ∧ h'.views = h.views.set k w

/-- An action that throws leaves everything as it was. -/
def Keeps (h : Heap) (a : Action) : EStateM.Result Stop Heap Unit → Prop
  | .ok _ h' => a.Follows h h'
  | .error (.thrown _) h' => h' = h
  | .error .bad_alloc h' => h' = h
  | .error (.undefined _) _ => False

def Heap.Bounded (h : Heap) : Prop := ∀ p ∈ h.packets, p.Bounded

def next (m : Machine) (h : Heap) (a : Action) : Heap := after ((act m a).run h)

/-- In every state of the run the packets are in order, and every step keeps to the queues. -/
def Behaves (m : Machine) (h : Heap) : List Action → Prop
  | [] => h.Bounded
  | a::acts => h.Bounded ∧ Keeps h a ((act m a).run h) ∧ Behaves m (next m h a) acts

/-- No capacity overflows to less than the room in front of the data, no address leaves the address
space. -/
def Action.Fits (m : Machine) (h : Heap) : Action → Prop
  | .create _ _ iMaxSize => m.new h (capacity iMaxSize) ≠ none →
      ¬ (2^32-64 ≤ iMaxSize.toNat ∧ iMaxSize.toNat ≤ 2^32-32)
  | .copy _ => True
  | .call k c => ∀ p, h.packets[k]? = some p → c.Fits m.space p

def RunFits (m : Machine) (h : Heap) : List Action → Prop
  | [] => True
  | a::acts => a.Fits m h ∧ RunFits m (next m h a) acts

/-! ## One call -/

variable {space : ℕ} {p : Packet} {memory : Memory} {c : Call}

/-- The packet is still in order, its block is the same, and the memory outside of the block is. -/
structure Advances (space : ℕ) (c : Call) (before behind : Cell) : Prop where
  valid : behind.pckt.Valid space
  block : behind.pckt._data = before.pckt._data
  max_size : behind.pckt.max_size = before.pckt.max_size
  header : behind.pckt.header = before.pckt.header
  frame : ∀ i, i < before.pckt._data ∨ before.pckt._data+before.pckt.max_size ≤ (i:ℤ) →
    behind.memory i = before.memory i
  follows : c.Follows (view before.memory before.pckt) (view behind.memory behind.pckt)

def Thrown (r : EStateM.Result Stop Cell Unit) (before : Cell) : Prop :=
  ∃ e, r = .error (.thrown e) before

theorem setBegin_valid (hv : p.Valid space) {b : ℕ} (hfront : p._data ≤ b) (horder : b ≤ p.end) :
    (p.setBegin b).Valid space := ⟨⟨hfront, horder, hv.room⟩, hv.inside, hv.spare⟩

theorem setEnd_valid (hv : p.Valid space) {b : ℕ} (horder : p.begin ≤ b)
    (hroom : (b:ℤ) < p._data+p.max_size) : (p.setEnd b).Valid space :=
  ⟨⟨hv.front, horder, hroom⟩, hv.inside, hv.spare⟩

theorem call_fits (hv : p.Valid space) (hc : c.Fits space p) :
    Thrown ((c.run space).run ⟨memory, p⟩) ⟨memory, p⟩ ∨
      ∃ c', (c.run space).run ⟨memory, p⟩ = .ok () c' ∧ Advances space c ⟨memory, p⟩ c' := by
  have hfront := hv.front
  have horder := hv.order
  have hroom := hv.room
  cases c with
  | push_front buffer =>
    rw [Call.run, push_front_run hv buffer.1 hc]
    by_cases hlow : p.begin < p._data+buffer.1.length
    · rw [if_pos hlow]
      exact Or.inl ⟨_, rfl⟩
    · rw [if_neg hlow]
      refine Or.inr ⟨_, rfl, setBegin_valid hv (by omega) (by omega), rfl, rfl, rfl, ?_,
        view_push_front hv buffer.1 hc⟩
      intro i hi
      rcases hi with hi | hi
      · exact store_below _ _ _ _ (by dsimp only at hi; omega)
      · exact store_above _ _ _ _ (by dsimp only at hi; omega)
  | grow_front len =>
    rw [Call.run, grow_front_run hv hc]
    by_cases hlow : p.begin < p._data+len.toNat
    · rw [if_pos hlow]
      exact Or.inl ⟨_, rfl⟩
    · rw [if_neg hlow]
      exact Or.inr ⟨_, rfl, setBegin_valid hv (by omega) (by omega), rfl, rfl, rfl, fun _ _ => rfl,
        _, load_length _ _ _, view_grow_front hv hc⟩
  | push_back buffer =>
    rw [Call.run, push_back_run hv buffer.1 hc]
    by_cases hfull : (p._data:ℤ)+p.max_size ≤ p.end+buffer.1.length
    · rw [if_pos hfull]
      exact Or.inl ⟨_, rfl⟩
    · rw [if_neg hfull]
      refine Or.inr ⟨_, rfl, setEnd_valid hv (by omega) (by push_cast; omega), rfl, rfl, rfl, ?_,
        view_push_back hv buffer.1⟩
      intro i hi
      rcases hi with hi | hi
      · exact store_below _ _ _ _ (by dsimp only at hi; omega)
      · exact store_above _ _ _ _ (by dsimp only at hi; omega)
  | grow_back len =>
    rw [Call.run, grow_back_run hv hc]
    by_cases hfull : (p._data:ℤ)+p.max_size ≤ p.end+len.toNat
    · rw [if_pos hfull]
      exact Or.inl ⟨_, rfl⟩
    · rw [if_neg hfull]
      exact Or.inr ⟨_, rfl, setEnd_valid hv (by omega) (by push_cast; omega), rfl, rfl, rfl,
        fun _ _ => rfl, _, load_length _ _ _, view_grow_back hv len.toNat⟩
  | pop_front len =>
    rw [Call.run, pop_front_run hc]
    by_cases hshort : p.end < p.begin+len.toNat
    · rw [if_pos hshort]
      exact Or.inl ⟨_, rfl⟩
    · rw [if_neg hshort]
      have hlen : len.toNat ≤ (view memory p).length := by
        rw [view_length]
        omega
      exact Or.inr ⟨_, rfl, setBegin_valid hv (by omega) (by omega), rfl, rfl, rfl, fun _ _ => rfl,
        hlen, view_pop_front (by omega)⟩
  | pop_back len =>
    rw [Call.run, pop_back_run hv hc]
    by_cases hshort : p.end < p.begin+len.toNat
    · rw [if_pos hshort]
      exact Or.inl ⟨_, rfl⟩
    · rw [if_neg hshort]
      have hlen : len.toNat ≤ (view memory p).length := by
        rw [view_length]
        omega
      exact Or.inr ⟨_, rfl, setEnd_valid hv (by omega) (by omega), rfl, rfl, rfl, fun _ _ => rfl,
        hlen, view_pop_back (by omega)⟩
  | clear =>
    have hspare := hv.spare
    rw [Call.run, clear_run hv]
    refine Or.inr ⟨_, rfl, ⟨⟨Nat.le_add_right _ _, le_rfl, ?_⟩, hv.inside, hspare⟩, rfl, rfl, rfl,
      fun _ _ => rfl, ?_⟩
    · show ((p._data+iBufferSpace : ℕ):ℤ) < p._data+p.max_size
      push_cast
      omega
    · show load memory (p._data+iBufferSpace) (p._data+iBufferSpace-(p._data+iBufferSpace)) = []
      rw [Nat.sub_self]
      rfl

/-- The list of the bytes cannot follow when an address wraps. -/
theorem call_escapes (hwide : 2^32 ≤ space) (hv : p.Valid space) (hc : ¬ c.Fits space p) :
    (∃ what c', (c.run space).run ⟨memory, p⟩ = .error (.undefined what) c') ∨
      ∃ c', (c.run space).run ⟨memory, p⟩ = .ok () c' ∧
        ¬ c.Follows (view memory p) (view c'.memory c'.pckt) := by
  have hlimit := limit_inside hv
  have hview := view_length memory p
  obtain ⟨⟨hfront, horder, hroom⟩, hinside, hspare⟩ := hv
  cases c with
  | push_front buffer =>
    have hlong := buffer.2
    have hlow : p.begin < buffer.1.length := Nat.lt_of_not_le hc
    have hdest : (offset space p.begin (-buffer.1.length) : ℤ) = p.begin+(-buffer.1.length)+space :=
      offset_before (by omega) (by omega)
    rw [Call.run, PacketBuffer.push_front, run_get_bind]
    dsimp only
    rw [if_neg (by omega)]
    left
    refine ⟨_, _, memcpy_outside (c := ⟨memory, p.setBegin _⟩) ?_⟩
    rintro ⟨-, hinside'⟩
    change (offset space p.begin (-buffer.1.length) : ℤ)+buffer.1.length ≤
      p._data+p.max_size at hinside'
    omega
  | grow_front len =>
    have hlong := len.toNat_lt
    have hlow : p.begin < len.toNat := Nat.lt_of_not_le hc
    have hdest : (offset space p.begin (-len.toNat) : ℤ) = p.begin+(-len.toNat)+space :=
      offset_before (by omega) (by omega)
    rw [Call.run, PacketBuffer.grow_front, run_get_bind]
    dsimp only
    rw [if_neg (by omega)]
    right
    refine ⟨_, rfl, ?_⟩
    rintro ⟨bytes, hlen, heq⟩
    have hlength := congrArg List.length heq
    rw [view_length, List.length_append, hlen, hview] at hlength
    change p.end-offset space p.begin (-len.toNat) = _ at hlength
    omega
  | push_back buffer =>
    have hlong := buffer.2
    have hhigh : space ≤ p.end+buffer.1.length := Nat.le_of_not_lt hc
    have hbehind : (offset space p.end buffer.1.length : ℤ) = p.end+buffer.1.length-space :=
      offset_behind (by omega) (by omega)
    rw [Call.run, PacketBuffer.push_back, run_get_bind]
    dsimp only
    rw [if_neg (by omega)]
    left
    refine ⟨_, _, run_bind_of_error (memcpy_outside ?_)⟩
    rintro ⟨-, hinside'⟩
    change (p.end:ℤ)+buffer.1.length ≤ p._data+p.max_size at hinside'
    omega
  | grow_back len =>
    have hlong := len.toNat_lt
    have hhigh : space ≤ p.end+len.toNat := Nat.le_of_not_lt hc
    have hbehind : (offset space p.end len.toNat : ℤ) = p.end+len.toNat-space :=
      offset_behind (by omega) (by omega)
    rw [Call.run, PacketBuffer.grow_back, run_get_bind]
    dsimp only
    rw [if_neg (by omega)]
    right
    refine ⟨_, rfl, ?_⟩
    rintro ⟨bytes, hlen, heq⟩
    have hlength := congrArg List.length heq
    rw [view_length, List.length_append, hlen, hview] at hlength
    change offset space p.end len.toNat-p.begin = _ at hlength
    omega
  | pop_front len =>
    have hlong := len.toNat_lt
    have hhigh : space ≤ p.begin+len.toNat := Nat.le_of_not_lt hc
    have hstart : (offset space p.begin len.toNat : ℤ) = p.begin+len.toNat-space :=
      offset_behind (by omega) (by omega)
    rw [Call.run, PacketBuffer.pop_front, run_get_bind]
    dsimp only
    rw [if_neg (by omega)]
    right
    refine ⟨_, rfl, ?_⟩
    rintro ⟨hle, -⟩
    omega
  | pop_back len =>
    have hlong := len.toNat_lt
    have hlow : p.end < len.toNat := Nat.lt_of_not_le hc
    have hbehind : (offset space p.end (-len.toNat) : ℤ) = p.end+(-len.toNat)+space :=
      offset_before (by omega) (by omega)
    rw [Call.run, PacketBuffer.pop_back, run_get_bind]
    dsimp only
    rw [if_neg (by omega)]
    right
    refine ⟨_, rfl, ?_⟩
    rintro ⟨hle, -⟩
    omega
  | clear => exact absurd trivial hc

/-! ## Blocks -/

def Packet.block (p : Packet) : ℤ × ℤ := (p._data, p._data+p.max_size)

def Apart (b b' : ℤ × ℤ) : Prop := b.2 ≤ b'.1 ∨ b'.2 ≤ b.1

def Heap.blocks (h : Heap) : List (ℤ × ℤ) := h.packets.map Packet.block

structure Heap.Valid (space : ℕ) (h : Heap) : Prop where
  packets : ∀ p ∈ h.packets, p.Valid space
  apart : h.blocks.Pairwise Apart

variable {h : Heap} {m : Machine} {k : ℕ} {cell : Cell} {a : Action} {r : Packet}

theorem valid_bounded (hv : h.Valid space) : h.Bounded := fun p hp => (hv.packets p hp).toBounded

theorem view_congr {memory' : Memory} (h : ∀ i, r.begin ≤ i → i < r.end → memory' i = memory i) :
    view memory' r = view memory r := by
  rw [view, view]
  apply load_congr
  intro i hi hlt
  exact h i hi (by omega)

theorem blocks_apart (hv : h.Valid space) {j : ℕ} (hj : h.packets[j]? = some r)
    (hk : h.packets[k]? = some p) (hjk : j ≠ k) : Apart (Packet.block r) (Packet.block p) := by
  have hr : h.blocks[j]? = some (Packet.block r) := by rw [Heap.blocks, List.getElem?_map, hj]; rfl
  have hp : h.blocks[k]? = some (Packet.block p) := by rw [Heap.blocks, List.getElem?_map, hk]; rfl
  obtain ⟨hjlt, hjeq⟩ := List.getElem?_eq_some_iff.1 hr
  obtain ⟨hklt, hkeq⟩ := List.getElem?_eq_some_iff.1 hp
  have hpairs := List.pairwise_iff_getElem.1 hv.apart
  rcases Nat.lt_or_gt_of_ne hjk with hlt | hgt
  · rw [← hjeq, ← hkeq]
    exact hpairs j k hjlt hklt hlt
  · rw [← hjeq, ← hkeq]
    exact (hpairs k j hklt hjlt hgt).symm

theorem map_set_same {α β : Type} {f : α → β} {l : List α} {x y : α} (hk : l[k]? = some x)
    (hf : f y = f x) : (l.set k y).map f = l.map f := by
  apply List.ext_getElem?
  intro i
  rw [List.getElem?_map, List.getElem?_map, List.getElem?_set]
  by_cases hi : k = i
  · subst hi
    obtain ⟨hlt, -⟩ := List.getElem?_eq_some_iff.1 hk
    rw [if_pos rfl, if_pos hlt, hk, Option.map_some, Option.map_some, hf]
  · rw [if_neg hi]

theorem put_blocks (hk : h.packets[k]? = some p)
    (hblock : Packet.block cell.pckt = Packet.block p) : (h.put k cell).blocks = h.blocks :=
  map_set_same hk hblock

/-- A call on one packet does not reach the others. -/
theorem put_views (hk : h.packets[k]? = some p) (hothers : ∀ j r, j ≠ k → h.packets[j]? = some r →
    view cell.memory r = view h.memory r) :
    (h.put k cell).views = h.views.set k (view cell.memory cell.pckt) := by
  apply List.ext_getElem?
  intro i
  obtain ⟨hlt, -⟩ := List.getElem?_eq_some_iff.1 hk
  rw [Heap.views, Heap.put, Heap.views, List.getElem?_map, List.getElem?_set, List.getElem?_set,
    List.length_map]
  by_cases hi : k = i
  · subst hi
    rw [if_pos rfl, if_pos rfl, if_pos hlt, if_pos hlt]
    rfl
  · rw [if_neg hi, if_neg hi, List.getElem?_map]
    cases hget : h.packets[i]? with
    | none => rfl
    | some r =>
      show some _ = some _
      rw [hothers i r (fun heq => hi heq.symm) hget]

theorem put_self (hk : h.packets[k]? = some p) : h.put k ⟨h.memory, p⟩ = h := by
  have hset : h.packets.set k p = h.packets := by
    simpa using map_set_same (f := id) hk rfl
  rw [Heap.put, hset]

/-! ## One step -/

theorem call_some (hk : h.packets[k]? = some p) : (call m k c).run h =
    match (c.run m.space).run ⟨h.memory, p⟩ with
    | .ok _ cell => .ok () (h.put k cell)
    | .error e cell => .error e (h.put k cell) := by
  show (match h.packets[k]? with
    | none => _
    | some p => _) = _
  rw [hk]

theorem call_none (hk : h.packets[k]? = none) : (call m k c).run h = .ok () h := by
  show (match h.packets[k]? with
    | none => _
    | some p => _) = _
  rw [hk]

theorem advances_block {before : Cell} (h : Advances space c before cell) :
    Packet.block cell.pckt = Packet.block before.pckt := by
  rw [Packet.block, h.block, h.max_size]
  rfl

theorem call_blocks (hv : h.Valid m.space) (ha : (Action.call k c).Fits m h) :
    (after ((call m k c).run h)).blocks = h.blocks := by
  cases hk : h.packets[k]? with
  | none =>
    rw [call_none hk]
    rfl
  | some p =>
    rw [call_some hk]
    rcases call_fits (hv.packets p (List.mem_of_getElem? hk)) (ha p hk) with
      ⟨e, hthrown⟩ | ⟨cell, hok, hadvances⟩
    · rw [hthrown]
      exact put_blocks hk rfl
    · rw [hok]
      exact put_blocks hk (advances_block hadvances)

/-- The blocks of the others lie outside of the one that a call may write to. -/
theorem others_kept (hv : h.Valid space) (hk : h.packets[k]? = some p)
    (hadvances : Advances space c ⟨h.memory, p⟩ cell) {j : ℕ} (hj : j ≠ k)
    (hr : h.packets[j]? = some r) : view cell.memory r = view h.memory r := by
  have hapart := blocks_apart hv hr hk hj
  obtain ⟨hfront, horder, hroom⟩ := (hv.packets r (List.mem_of_getElem? hr)).toBounded
  apply view_congr
  intro i hi hlt
  apply hadvances.frame
  rcases hapart with hbelow | habove
  · left
    change (r._data:ℤ)+r.max_size ≤ p._data at hbelow
    show i < p._data
    omega
  · right
    change (p._data:ℤ)+p.max_size ≤ r._data at habove
    show (p._data:ℤ)+p.max_size ≤ i
    omega

theorem step_call (hv : h.Valid m.space) (ha : (Action.call k c).Fits m h) :
    Keeps h (.call k c) ((call m k c).run h) ∧ (after ((call m k c).run h)).Valid m.space := by
  have hapart : (after ((call m k c).run h)).blocks.Pairwise Apart := by
    rw [call_blocks hv ha]
    exact hv.apart
  cases hk : h.packets[k]? with
  | none =>
    rw [call_none hk]
    refine ⟨?_, hv⟩
    intro p hp
    rw [hk] at hp
    cases hp
  | some p =>
    have hp := hv.packets p (List.mem_of_getElem? hk)
    rw [call_some hk] at hapart ⊢
    rcases call_fits hp (ha p hk) with ⟨e, hthrown⟩ | ⟨cell, hok, hadvances⟩
    · rw [hthrown]
      show h.put k ⟨h.memory, p⟩ = h ∧ (h.put k ⟨h.memory, p⟩).Valid m.space
      rw [put_self hk]
      exact ⟨rfl, hv⟩
    · rw [hok] at hapart ⊢
      constructor
      · intro q hq
        rw [hk] at hq
        cases hq
        exact ⟨map_set_same hk hadvances.header, _, hadvances.follows,
          put_views hk fun j r hj hr => others_kept hv hk hadvances hj hr⟩
      · refine ⟨?_, hapart⟩
        intro q hq
        rcases List.mem_or_eq_of_mem_set hq with hq | rfl
        · exact hv.packets q hq
        · exact hadvances.valid

theorem call_keeps_fits (hv : h.Valid m.space)
    (hkeeps : Keeps h (.call k c) ((call m k c).run h)) : (Action.call k c).Fits m h := by
  intro p hk
  by_contra hc
  rw [call_some hk] at hkeeps
  rcases call_escapes m.wide (hv.packets p (List.mem_of_getElem? hk)) hc with
    ⟨what, cell, hundefined⟩ | ⟨cell, hok, hnot⟩
  · rw [hundefined] at hkeeps
    exact hkeeps
  · rw [hok] at hkeeps
    obtain ⟨-, w, hfollows, hviews⟩ := hkeeps p hk
    obtain ⟨hlt, -⟩ := List.getElem?_eq_some_iff.1 hk
    have hview : some (view cell.memory cell.pckt) = some w := by
      have hget := congrArg (fun vs : List (List UInt8) => vs[k]?) hviews
      simpa [Heap.views, Heap.put, hlt] using hget
    rw [Option.some.inj hview] at hnot
    exact hnot hfollows

theorem capacity_cases (iMaxSize : UInt32) :
    (capacity iMaxSize < 0 ∧ 2^31 ≤ iMaxSize.toNat+64) ∨
      (capacity iMaxSize = iMaxSize.toNat+64 ∧ iMaxSize.toNat+64 < 2^31) ∨
      (capacity iMaxSize = iMaxSize.toNat+64-2^32 ∧ 2^32 ≤ iMaxSize.toNat+64) := by
  have hlong := iMaxSize.toNat_lt
  have hsum : uint32 (iMaxSize.toNat+2*iBufferSpace) = (iMaxSize.toNat+64)%2^32 :=
    uint32_add iMaxSize.toNat (2*iBufferSpace)
  rw [capacity, hsum]
  by_cases hsmall : iMaxSize.toNat+64 < 2^31
  · right
    left
    refine ⟨?_, hsmall⟩
    rw [int32_of_range _ (by omega) (by omega)]
    omega
  · by_cases hwraps : 2^32 ≤ iMaxSize.toNat+64
    · right
      right
      refine ⟨?_, hwraps⟩
      rw [int32_of_range _ (by omega) (by omega)]
      omega
    · left
      refine ⟨?_, by omega⟩
      have hcongr : int32 (((iMaxSize.toNat+64)%2^32 : ℕ):ℤ) = int32 (iMaxSize.toNat+64-2^32) := by
        apply int32_congr
        omega
      rw [hcongr, int32_of_range _ (by omega) (by omega)]
      omega

theorem new_some {max_size : ℤ} {a : ℕ} (hnew : m.new h max_size = some a) : 0 ≤ max_size ∧
    a+max_size < m.space ∧ ∀ p ∈ h.packets, a+max_size ≤ p._data ∨ (p._data:ℤ)+p.max_size ≤ a := by
  rw [Machine.new] at hnew
  split_ifs at hnew with hneg
  obtain ⟨hinside, hapart⟩ := m.fresh h max_size.toNat a hnew
  refine ⟨by omega, by omega, ?_⟩
  intro p hp
  rcases hapart p hp with hbelow | habove
  · left
    omega
  · right
    exact habove

theorem add_valid (hv : h.Valid space) (hp : p.Valid space)
    (hapart : ∀ q ∈ h.packets,
      (p._data:ℤ)+p.max_size ≤ q._data ∨ (q._data:ℤ)+q.max_size ≤ p._data) :
    (h.add p).Valid space := by
  constructor
  · intro q hq
    rcases List.mem_append.1 hq with hq | hq
    · exact hv.packets q hq
    · rw [List.mem_singleton.1 hq]
      exact hp
  · rw [Heap.blocks, Heap.add, List.map_append, List.pairwise_append]
    refine ⟨hv.apart, List.pairwise_singleton _ _, ?_⟩
    intro b hb b' hb'
    obtain ⟨q, hq, rfl⟩ := List.mem_map.1 hb
    obtain rfl : b' = Packet.block p := by simpa using hb'
    exact (hapart q hq).symm

theorem created_valid {header : Metadata} {a : ℕ} {max_size : ℤ}
    (hinside : a+max_size < space) (hspare : iBufferSpace < max_size) :
    (created space header a max_size).Valid space := by
  have hbegin : (offset space a iBufferSpace : ℤ) = a+iBufferSpace :=
    offset_inside (by omega) (by omega)
  constructor
  · constructor
    · show a ≤ offset space a iBufferSpace
      omega
    · exact le_rfl
    · show (offset space a iBufferSpace : ℤ) < a+max_size
      omega
  · exact hinside
  · exact hspare

/-- A new packet has no room when its capacity does not reach behind the room in front. -/
theorem created_unbounded {header : Metadata} {a : ℕ} {max_size : ℤ} (hwide : 2^32 ≤ space)
    (hlow : 0 ≤ max_size) (hinside : a+max_size < space) (hshort : max_size ≤ iBufferSpace) :
    ¬ (created space header a max_size).Bounded := by
  rintro ⟨hfront, -, hroom⟩
  change a ≤ offset space a iBufferSpace at hfront
  change (offset space a iBufferSpace : ℤ) < a+max_size at hroom
  have hspace : iBufferSpace = 32 := rfl
  by_cases hwraps : (space:ℤ) ≤ a+iBufferSpace
  · have hbegin := offset_behind hwraps (by omega)
    omega
  · have hbegin : (offset space a iBufferSpace : ℤ) = a+iBufferSpace :=
      offset_inside (by omega) (by omega)
    omega

theorem add_views (h : Heap) (p : Packet) : (h.add p).views = h.views ++ [view h.memory p] := by
  rw [Heap.views, Heap.add, List.map_append]
  rfl

theorem create_none {type : PacketType} {content : ContentType} {iMaxSize : UInt32}
    (hnew : m.new h (capacity iMaxSize) = none) :
    (create m type content iMaxSize).run h = .error .bad_alloc h := by
  rw [create, run_get_bind, hnew]
  rfl

theorem create_some {type : PacketType} {content : ContentType} {iMaxSize : UInt32} {a : ℕ}
    (hnew : m.new h (capacity iMaxSize) = some a) : (create m type content iMaxSize).run h =
      .ok () (h.add (created m.space (Metadata.new type content) a (capacity iMaxSize))) := by
  rw [create, run_get_bind, hnew]
  rfl

theorem step_create {type : PacketType} {content : ContentType} {iMaxSize : UInt32}
    (hv : h.Valid m.space) (ha : (Action.create type content iMaxSize).Fits m h) :
    Keeps h (.create type content iMaxSize) ((create m type content iMaxSize).run h) ∧
      (after ((create m type content iMaxSize).run h)).Valid m.space := by
  cases hnew : m.new h (capacity iMaxSize) with
  | none =>
    rw [create_none hnew]
    exact ⟨rfl, hv⟩
  | some a =>
    have hsize := ha (by simp [hnew])
    obtain ⟨hlow, hinside, hapart⟩ := new_some hnew
    have hlong := iMaxSize.toNat_lt
    have hspace : iBufferSpace = 32 := rfl
    have hspare : iBufferSpace < capacity iMaxSize := by
      rcases capacity_cases iMaxSize with ⟨hneg, -⟩ | ⟨hcap, -⟩ | ⟨hcap, hwraps⟩
      · omega
      · omega
      · omega
    rw [create_some hnew]
    refine ⟨?_, add_valid hv (created_valid hinside hspare) hapart⟩
    show (h.add _).views = _
    rw [add_views, view]
    show _ ++ [load h.memory _ (offset m.space a iBufferSpace-offset m.space a iBufferSpace)] = _
    rw [Nat.sub_self]
    rfl

theorem create_bounded_fits {type : PacketType} {content : ContentType} {iMaxSize : UInt32}
    (hbounded : (after ((create m type content iMaxSize).run h)).Bounded) :
    (Action.create type content iMaxSize).Fits m h := by
  rintro hsome ⟨hlow, hhigh⟩
  cases hnew : m.new h (capacity iMaxSize) with
  | none => exact hsome hnew
  | some a =>
    obtain ⟨hpos, hinside, -⟩ := new_some hnew
    have hspace : iBufferSpace = 32 := rfl
    have hshort : capacity iMaxSize ≤ iBufferSpace := by
      rcases capacity_cases iMaxSize with ⟨hneg, -⟩ | ⟨hcap, hsmall⟩ | ⟨hcap, -⟩
      · omega
      · omega
      · omega
    rw [create_some hnew] at hbounded
    have hmem : created m.space (Metadata.new type content) a (capacity iMaxSize) ∈
        (h.add (created m.space (Metadata.new type content) a (capacity iMaxSize))).packets :=
      List.mem_append_right _ (List.mem_singleton_self _)
    exact created_unbounded m.wide hpos hinside hshort (hbounded _ hmem)

/-! ## Copies -/

/-- The pointers of a copy lie in its block as those of the original lie in its own. -/
theorem copied_same {a : ℕ} (hp : p.Valid space) (hinside : a+p.max_size < space) :
    Same p (copied space p a) ∧ (copied space p a).Valid space := by
  obtain ⟨⟨hfront, horder, hroom⟩, -, hspare⟩ := hp
  have hbegin : (offset space a ((p.begin:ℤ)-p._data) : ℤ) = a+((p.begin:ℤ)-p._data) :=
    offset_inside (by omega) (by omega)
  have hend : (offset space a ((p.end:ℤ)-p._data) : ℤ) = a+((p.end:ℤ)-p._data) :=
    offset_inside (by omega) (by omega)
  constructor
  · refine ⟨rfl, rfl, ?_, ?_⟩
    · show (offset space a ((p.begin:ℤ)-p._data) : ℤ)-a = _
      omega
    · show (offset space a ((p.end:ℤ)-p._data) : ℤ)-a = _
      omega
  · refine ⟨⟨?_, ?_, ?_⟩, hinside, hspare⟩
    · show a ≤ offset space a ((p.begin:ℤ)-p._data)
      omega
    · show offset space a ((p.begin:ℤ)-p._data) ≤ offset space a ((p.end:ℤ)-p._data)
      omega
    · show (offset space a ((p.end:ℤ)-p._data) : ℤ) < a+p.max_size
      omega

theorem same_size {q : Packet} (h : Same p q) : q.end-q.begin = p.end-p.begin := by
  have hbegin := h.begin
  have hend := h.end
  omega

theorem valid_holds (hp : p.Valid space) : p.begin ≤ p.end ∧ p.Holds p.begin (p.end-p.begin) := by
  obtain ⟨⟨hfront, horder, hroom⟩, -, -⟩ := hp
  refine ⟨horder, hfront, ?_⟩
  omega

def Heap.storeView (h : Heap) (q : Packet) (bytes : List UInt8) : Heap :=
  { h.add q with memory := store h.memory q.begin bytes }

theorem copy_run {a : ℕ} (hk : h.packets[k]? = some p) (hp : p.Valid m.space)
    (hnew : m.new h p.max_size = some a) : (copy m k).run h =
      .ok () (h.storeView (copied m.space p a) (view h.memory p)) := by
  obtain ⟨-, hinside, -⟩ := new_some hnew
  obtain ⟨hsame, hvalid⟩ := copied_same hp hinside
  rw [copy, run_get_bind, hk]
  dsimp only
  rw [hnew]
  dsimp only
  rw [if_pos (valid_holds hvalid), same_size hsame]
  rfl

theorem copy_full (hk : h.packets[k]? = some p) (hnew : m.new h p.max_size = none) :
    (copy m k).run h = .error .bad_alloc h := by
  rw [copy, run_get_bind, hk]
  dsimp only
  rw [hnew]
  rfl

theorem copy_absent (hk : h.packets[k]? = none) : (copy m k).run h = .ok () h := by
  rw [copy, run_get_bind, hk]
  rfl

theorem storeView_views {q : Packet} {bytes : List UInt8} (hq : bytes.length = q.end-q.begin)
    (hothers : ∀ r ∈ h.packets, r.end ≤ q.begin ∨ q.begin+bytes.length ≤ r.begin) :
    (h.storeView q bytes).views = h.views ++ [bytes] := by
  rw [Heap.views, Heap.storeView, Heap.add, List.map_append, Heap.views]
  have hold : h.packets.map (view (store h.memory q.begin bytes)) =
      h.packets.map (view h.memory) := by
    apply List.map_congr_left
    intro r hr
    apply view_congr
    intro i hi hlt
    rcases hothers r hr with hbelow | habove
    · exact store_below _ _ _ _ (by omega)
    · exact store_above _ _ _ _ (by omega)
  have hnew : view (store h.memory q.begin bytes) q = bytes := by
    rw [view, ← hq]
    exact load_store h.memory q.begin bytes
  show h.packets.map _ ++ [view _ q] = _
  rw [hold, hnew]

theorem step_copy (hv : h.Valid m.space) : Keeps h (.copy k) ((copy m k).run h) ∧
    (after ((copy m k).run h)).Valid m.space := by
  cases hk : h.packets[k]? with
  | none =>
    rw [copy_absent hk]
    refine ⟨?_, hv⟩
    intro p hp
    rw [hk] at hp
    cases hp
  | some p =>
    have hp := hv.packets p (List.mem_of_getElem? hk)
    cases hnew : m.new h p.max_size with
    | none =>
      rw [copy_full hk hnew]
      exact ⟨rfl, hv⟩
    | some a =>
      obtain ⟨-, hinside, hapart⟩ := new_some hnew
      obtain ⟨hsame, hvalid⟩ := copied_same hp hinside
      have hsize : (view h.memory p).length =
          (copied m.space p a).end-(copied m.space p a).begin := by
        rw [view_length, same_size hsame]
      rw [copy_run hk hp hnew]
      constructor
      · intro q hq
        rw [hk] at hq
        cases hq
        refine ⟨storeView_views hsize ?_, _, rfl, hsame⟩
        intro r hr
        obtain ⟨hfront, horder, hroom⟩ := (hv.packets r hr).toBounded
        obtain ⟨hfront', horder', hroom'⟩ := hvalid.toBounded
        change a ≤ (copied m.space p a).begin at hfront'
        change ((copied m.space p a).end:ℤ) < a+p.max_size at hroom'
        rcases hapart r hr with hbelow | habove
        · right
          omega
        · left
          omega
      · have hadd := add_valid hv hvalid hapart
        exact ⟨hadd.packets, hadd.apart⟩

/-! ## Runs -/

theorem step_fits (hv : h.Valid m.space) (ha : a.Fits m h) :
    Keeps h a ((act m a).run h) ∧ (next m h a).Valid m.space := by
  cases a with
  | create type content iMaxSize => exact step_create hv ha
  | copy k => exact step_copy hv
  | call k c => exact step_call hv ha

theorem step_escapes (hv : h.Valid m.space) (hkeeps : Keeps h a ((act m a).run h))
    (hbounded : (next m h a).Bounded) : a.Fits m h := by
  cases a with
  | create type content iMaxSize => exact create_bounded_fits hbounded
  | copy k => trivial
  | call k c => exact call_keeps_fits hv hkeeps

theorem behaves_bounded {acts : List Action} (h' : Behaves m h acts) : h.Bounded := by
  cases acts with
  | nil => exact h'
  | cons a acts => exact h'.1

theorem run_behaves (acts : List Action) (hv : h.Valid m.space) :
    Behaves m h acts ↔ RunFits m h acts := by
  induction acts generalizing h with
  | nil => exact ⟨fun _ => trivial, fun _ => valid_bounded hv⟩
  | cons a acts ih =>
    constructor
    · rintro ⟨-, hkeeps, hrest⟩
      have ha := step_escapes hv hkeeps (behaves_bounded hrest)
      exact ⟨ha, (ih (step_fits hv ha).2).1 hrest⟩
    · rintro ⟨ha, hrest⟩
      obtain ⟨hkeeps, hnext⟩ := step_fits hv ha
      exact ⟨valid_bounded hv, hkeeps, (ih hnext).2 hrest⟩

theorem empty_valid (memory : Memory) : Heap.Valid space ⟨memory, []⟩ :=
  ⟨by simp, List.Pairwise.nil⟩

/-- In every run from no packets on, every packet is a bounded queue of bytes of its own exactly
when no capacity overflows and no address wraps. -/
theorem packets_behave (m : Machine) (memory : Memory) (acts : List Action) :
    Behaves m ⟨memory, []⟩ acts ↔ RunFits m ⟨memory, []⟩ acts :=
  run_behaves acts (empty_valid memory)

/-! ## Memory with room on both sides -/

/-- Blocks lie at least the length of a `uint32_t` away from both ends of the address space. -/
def Machine.Roomy (m : Machine) : Prop :=
  ∀ h n a, m.alloc h n = some a → 2^32 ≤ a ∧ a+n+2^32 ≤ m.space

def Placed (space : ℕ) (b : ℤ × ℤ) : Prop := 2^32 ≤ b.1 ∧ b.2+2^32 ≤ space

/-- The capacity of a packet that is created does not overflow. -/
def Action.Sized : Action → Prop
  | .create _ _ iMaxSize => ¬ (2^32-64 ≤ iMaxSize.toNat ∧ iMaxSize.toNat ≤ 2^32-32)
  | .copy _ => True
  | .call _ _ => True

theorem new_placed (hm : m.Roomy) {max_size : ℤ} {a : ℕ} (hnew : m.new h max_size = some a) :
    Placed m.space (a, a+max_size) := by
  rw [Machine.new] at hnew
  split_ifs at hnew with hneg
  obtain ⟨hlow, hhigh⟩ := hm h max_size.toNat a hnew
  constructor
  · show 2^32 ≤ (a:ℤ)
    omega
  · show (a:ℤ)+max_size+2^32 ≤ m.space
    omega

theorem placed_fits (hp : p.Valid space) (hplaced : Placed space (Packet.block p)) (c : Call) :
    c.Fits space p := by
  obtain ⟨hfront, horder, hroom⟩ := hp.toBounded
  obtain ⟨hlow, hhigh⟩ := hplaced
  change 2^32 ≤ (p._data:ℤ) at hlow
  change (p._data:ℤ)+p.max_size+2^32 ≤ space at hhigh
  cases c with
  | push_front buffer =>
    have hlong := buffer.2
    show buffer.1.length ≤ p.begin
    omega
  | grow_front len =>
    have hlong := len.toNat_lt
    show len.toNat ≤ p.begin
    omega
  | push_back buffer =>
    have hlong := buffer.2
    show p.end+buffer.1.length < space
    omega
  | grow_back len =>
    have hlong := len.toNat_lt
    show p.end+len.toNat < space
    omega
  | pop_front len =>
    have hlong := len.toNat_lt
    show p.begin+len.toNat < space
    omega
  | pop_back len =>
    have hlong := len.toNat_lt
    show len.toNat ≤ p.end
    omega
  | clear => trivial

theorem add_placed (hplaced : ∀ b ∈ h.blocks, Placed space b)
    (hp : Placed space (Packet.block p)) : ∀ b ∈ (h.add p).blocks, Placed space b := by
  intro b hb
  rw [Heap.blocks, Heap.add, List.map_append] at hb
  rcases List.mem_append.1 hb with hb | hb
  · exact hplaced b hb
  · rw [List.mem_singleton.1 hb]
    exact hp

theorem next_placed (hm : m.Roomy) (hv : h.Valid m.space) (ha : a.Fits m h)
    (hplaced : ∀ b ∈ h.blocks, Placed m.space b) :
    ∀ b ∈ (next m h a).blocks, Placed m.space b := by
  cases a with
  | call k c =>
    rw [next, act, call_blocks hv ha]
    exact hplaced
  | create type content iMaxSize =>
    cases hnew : m.new h (capacity iMaxSize) with
    | none =>
      rw [next, act, create_none hnew]
      exact hplaced
    | some a =>
      rw [next, act, create_some hnew]
      exact add_placed hplaced (new_placed hm hnew)
  | copy k =>
    cases hk : h.packets[k]? with
    | none =>
      rw [next, act, copy_absent hk]
      exact hplaced
    | some p =>
      cases hnew : m.new h p.max_size with
      | none =>
        rw [next, act, copy_full hk hnew]
        exact hplaced
      | some a =>
        rw [next, act, copy_run hk (hv.packets p (List.mem_of_getElem? hk)) hnew]
        exact add_placed (p := copied m.space p a) hplaced (new_placed hm hnew)

theorem roomy_run (hm : m.Roomy) (acts : List Action) (hacts : ∀ a ∈ acts, a.Sized)
    (hv : h.Valid m.space) (hplaced : ∀ b ∈ h.blocks, Placed m.space b) : RunFits m h acts := by
  induction acts generalizing h with
  | nil => trivial
  | cons a acts ih =>
    have ha : a.Fits m h := by
      cases a with
      | create type content iMaxSize => exact fun _ => hacts _ List.mem_cons_self
      | copy k => trivial
      | call k c =>
        intro p hk
        have hp := List.mem_of_getElem? hk
        exact placed_fits (hv.packets p hp) (hplaced _ (List.mem_map_of_mem hp)) c
    exact ⟨ha, ih (fun b hb => hacts b (List.mem_cons_of_mem a hb)) (step_fits hv ha).2
      (next_placed hm hv ha hplaced)⟩

/-- Where memory has room on both sides only the size of a packet matters. -/
theorem roomy_behaves (hm : m.Roomy) (memory : Memory) (acts : List Action)
    (hacts : ∀ a ∈ acts, a.Sized) : Behaves m ⟨memory, []⟩ acts :=
  (packets_behave m memory acts).2
    (roomy_run hm acts hacts (empty_valid memory) (by simp [Heap.blocks]))

/-- A new packet is the one that other components know. -/
theorem created_refines {type : PacketType} {content : ContentType} {iMaxSize : UInt32} {a : ℕ}
    (hsize : iMaxSize.toNat+64 < 2^31) (hinside : a+capacity iMaxSize < space) :
    mediaPacket memory (created space (Metadata.new type content) a (capacity iMaxSize)) =
      MediaPacket.new type content iMaxSize.toNat := by
  have hcap : capacity iMaxSize = iMaxSize.toNat+64 := by
    rcases capacity_cases iMaxSize with ⟨-, hlong⟩ | ⟨hcap, -⟩ | ⟨-, hwraps⟩
    · omega
    · exact hcap
    · omega
  have hspace : iBufferSpace = 32 := rfl
  have hbegin : (offset space a iBufferSpace : ℤ) = a+iBufferSpace :=
    offset_inside (by omega) (by omega)
  have hfront : offset space a iBufferSpace-a = iBufferSpace := by omega
  have hmax : (capacity iMaxSize).toNat = iMaxSize.toNat+2*iBufferSpace := by omega
  show MediaPacket.mk _ (offset space a iBufferSpace-a)
    (load memory (offset space a iBufferSpace)
      (offset space a iBufferSpace-offset space a iBufferSpace))
    (capacity iMaxSize).toNat = _
  rw [hfront, hmax, Nat.sub_self]
  rfl

/-! ## A size that overflows -/

/-- Memory with one block in it, the rest is in use. -/
def oneBlock : Machine where
  space := 2^64
  wide := by norm_num
  alloc h n := if h.packets.isEmpty ∧ n < 2^31 then some (2^32) else none
  fresh h n a hnew := by
    split_ifs at hnew with hfree
    cases hnew
    refine ⟨by omega, ?_⟩
    rw [List.isEmpty_iff.1 hfree.1]
    simp

/-- The capacity is taken to be zero, and the data of the packet begins behind its block. -/
theorem overflowing_size :
    ¬ Behaves oneBlock ⟨zeroed, []⟩ [.create .media .video 0xFFFFFFC0] := by
  have hcap : capacity 0xFFFFFFC0 = 0 := by decide +kernel
  rintro ⟨-, -, hbounded⟩
  have hnew : oneBlock.new ⟨zeroed, []⟩ (capacity 0xFFFFFFC0) = some (2^32) := by
    rw [hcap]
    rfl
  rw [next, act, create_some hnew] at hbounded
  have hroom := (hbounded _ (List.mem_append_right _ (List.mem_singleton_self _))).room
  rw [hcap] at hroom
  revert hroom
  decide

end Sirannon.PacketHeap
