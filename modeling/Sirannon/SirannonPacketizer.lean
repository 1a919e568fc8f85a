import Sirannon.Packetizer
import Sirannon.LossyDelivery

/-!
# Sirannon packetizer

The internal packetization: a frame larger than the MTU is cut into fragments
that all carry the metadata of the frame, and the unpacketizer joins fragments
with consecutive unit numbers. After a loss it waits for the start of a frame.
-/

set_option autoImplicit false

namespace Sirannon.SirannonPacketizer
open MachineInt Bits Media Packetization StateError LossyDelivery

/-! ## Packetizer -/

/-- The fragment the loop of `receive` makes; `pckt` is what the loop leaves of the frame. -/
def fragment (pNext pckt : MediaPacket) (iFirst : ℕ) : MediaPacket :=
  { pNext.set_metadata pckt with
    framestart := pckt.framestart && decide (iFirst = 0)
    frameend := pckt.frameend && decide (pckt.size = 0) }

def fragmentLoop : ℕ → MediaPacket → ℕ → EStateM SirannonException Packetizer Unit
  | 0, _, _ => pure ()
  | fuel+1, pckt, iFirst =>
    if pckt.size = 0 then pure () else do
      let s ← get
      let iPayload := min pckt.size (uint32 s.iMTU)
      let pNext ← ofExcept ((MediaPacket.new .media pckt.content (iPayload+4)).push_back
        (pckt.bytes.take iPayload))
      let pckt ← ofExcept (pckt.pop_front iPayload)
      modify fun s => s.number (fragment pNext pckt iFirst)
      fragmentLoop fuel pckt (if pckt.framestart then iFirst+1 else iFirst)

def receive (pckt : MediaPacket) : EStateM SirannonException Packetizer Unit := do
  let s ← get
  let pckt := { pckt with mux := .RTP }
  if uint32 s.iMTU < pckt.size then fragmentLoop pckt.size pckt 0
  else modify fun s => s.number pckt

/-! ## Unpacketizer -/

structure SirannonUnpacketizer where
  iUnit : ℤ
  iFrame : ℤ
  iSubFrame : ℤ
  iNewUnit : ℤ
  vQueue : List MediaPacket
  bFragment : Bool
  bSync : Bool
  bSeverity : Bool
  routed : List MediaPacket
  deriving DecidableEq, Repr

def SirannonUnpacketizer.init (bFragment bSeverity : Bool) : SirannonUnpacketizer where
  iUnit := -1
  iFrame := -1
  iSubFrame := -1
  iNewUnit := 0
  vQueue := []
  bFragment := bFragment
  bSync := false
  bSeverity := bSeverity
  routed := []

abbrev Unpacking := EStateM SirannonException SirannonUnpacketizer

/-- `pckt->unitnumber = iNewUnit++; route( pckt );`, with the queue used up. -/
def SirannonUnpacketizer.emit (s : SirannonUnpacketizer) (pckt : MediaPacket) :
    SirannonUnpacketizer :=
  { s with
    vQueue := []
    iNewUnit := s.iNewUnit+1
    routed := s.routed ++ [pckt.setUnit s.iNewUnit] }

def unpack : Unpacking Unit := do
  let s ← get
  match s.vQueue with
  | [] => pure ()
  | [pckt] => modify fun s => s.emit pckt
  | front::rest => do
    let pckt := (MediaPacket.new .media front.content (sizes (front::rest))).set_metadata front
    let pckt ← ofExcept (push_all pckt (front::rest))
    modify fun s => s.emit { pckt with
      framestart := front.framestart
      frameend := (rest.getLastD front).frameend }

/-- Remember the numbers of the packet and put it in the queue. -/
def SirannonUnpacketizer.saved (s : SirannonUnpacketizer) (pckt : MediaPacket) :
    SirannonUnpacketizer :=
  { s with
    iFrame := pckt.framenumber
    iSubFrame := pckt.subframenumber
    iUnit := pckt.unitnumber
    vQueue := s.vQueue ++ [pckt] }

/-- The quick handling of a frame end is part of it. -/
def save (pckt : MediaPacket) : Unpacking Unit := do
  modify fun s => s.saved pckt
  if pckt.frameend then unpack else pure ()

/-- The branch of `receive` for the unit that was expected. -/
def evolve (pckt : MediaPacket) : Unpacking Unit := do
  let s ← get
  if pckt.framenumber ≠ s.iFrame ∨ pckt.subframenumber ≠ s.iSubFrame then do
    unpack
    save pckt
  else save pckt

def purge : Unpacking Unit := modify fun s => { s with vQueue := [] }

def syncLost (pckt : MediaPacket) (iUnit : ℤ) : SirannonException :=
  runtimeError s!"synchronization lost: {pckt.unitnumber} != {iUnit} + 1"

/-- The branch of `receive` for any other unit, after the queue has been flushed. -/
def resync (pckt : MediaPacket) : Unpacking Unit := do
  let s ← get
  if s.bSync = false ∧ s.bSeverity then throw (syncLost pckt s.iUnit)
  else if pckt.framestart then do
    modify fun s => { s with bSync := false }
    save pckt
  else modify fun s => { s with bSync := true }

def realign (pckt : MediaPacket) : Unpacking Unit := do
  let s ← get
  if s.bFragment then do
    unpack
    resync pckt
  else do
    purge
    resync pckt

def noSync (pckt : MediaPacket) : SirannonException :=
  runtimeError s!"no synchronization: first packet ({pckt.unitnumber}) is not framestart"

def first (pckt : MediaPacket) (s : SirannonUnpacketizer) : SirannonUnpacketizer :=
  { s with
    iFrame := pckt.framenumber
    iSubFrame := pckt.subframenumber
    iUnit := pckt.unitnumber-1 }

def SirannonUnpacketizer.receive (pckt : MediaPacket) : Unpacking Unit := do
  let s ← get
  if s.iUnit < 0 then
    if pckt.framestart then do
      modify (first pckt)
      evolve pckt
    else if s.bSeverity then throw (noSync pckt)
    else pure ()
  else if pckt.unitnumber = s.iUnit+1 then evolve pckt
  else realign pckt

/-! ## What the packetizer makes of a frame -/

/-- The metadata of a fragment. -/
def stamped (frame : Metadata) (u : ℤ) (start stop : Bool) : Metadata :=
  { frame with mux := .RTP, unitnumber := u, framestart := start, frameend := stop }

/-- Packets numbered from `u` that cut up a frame, or what is left of it. -/
inductive Cut (frame : Metadata) : Bool → ℤ → List MediaPacket → Prop
  | last {start : Bool} {u : ℤ} {p : MediaPacket}
      (hp : p.toMetadata = stamped frame u start true) : Cut frame start u [p]
  | more {start : Bool} {u : ℤ} {p : MediaPacket} {ps : List MediaPacket}
      (hp : p.toMetadata = stamped frame u start false) (hne : p.bytes ≠ [])
      (hps : Cut frame false (u+1) ps) : Cut frame start u (p::ps)

/-- The packets of a whole frame. -/
structure Packed (m : ℕ) (frame : MediaPacket) (u : ℤ) (ps : List MediaPacket) : Prop where
  cut : Cut frame.toMetadata true u ps
  bytes : allBytes ps = frame.bytes
  small : ∀ p ∈ ps, p.size ≤ m

@[simp] theorem fragment_bytes (pNext pckt : MediaPacket) (iFirst : ℕ) :
    (fragment pNext pckt iFirst).bytes = pNext.bytes := rfl

theorem fragment_stamped (pNext pckt : MediaPacket) (len iFirst : ℕ) (u : ℤ)
    (hmux : pckt.mux = .RTP) (hstart : pckt.framestart = true) (hend : pckt.frameend = true) :
    ((fragment pNext (pckt.popped len) iFirst).setUnit u).toMetadata =
      stamped pckt.toMetadata u (decide (iFirst = 0)) (decide (pckt.size-len = 0)) := by
  simp [fragment, stamped, MediaPacket.set_metadata, MediaPacket.setUnit, hmux, hstart, hend]

theorem fragmentLoop_empty (fuel : ℕ) (pckt : MediaPacket) (iFirst : ℕ) (h : pckt.size = 0) :
    fragmentLoop fuel pckt iFirst = pure () := by
  cases fuel with
  | zero => rfl
  | succ fuel => rw [fragmentLoop, if_pos h]

theorem fragmentLoop_run (m fuel : ℕ) (hm : 1 ≤ m) (pckt : MediaPacket) (iFirst : ℕ)
    (s : Packetizer) (hs : uint32 s.iMTU = m) (hmux : pckt.mux = .RTP)
    (hstart : pckt.framestart = true) (hend : pckt.frameend = true) (hpos : 0 < pckt.size)
    (hfuel : pckt.size ≤ fuel) :
    ∃ ps, (fragmentLoop fuel pckt iFirst).run s = .ok () (s.sent ps) ∧
      Cut pckt.toMetadata (decide (iFirst = 0)) s.iUnit ps ∧ allBytes ps = pckt.bytes ∧
      ∀ p ∈ ps, p.size ≤ m := by
  induction fuel generalizing pckt iFirst s with
  | zero => omega
  | succ fuel ih =>
    have hsize : pckt.size = pckt.bytes.length := rfl
    have hpush := new_push_back .media pckt.content (min pckt.size m+4)
      (pckt.bytes.take (min pckt.size m)) (by rw [List.length_take]; omega)
    have hpop : pckt.pop_front (min pckt.size m) = _ := pop_front_ok (by omega)
    rw [fragmentLoop, if_neg (by omega), run_get_bind, hs, run_ofExcept_bind hpush,
      run_ofExcept_bind hpop, run_modify_bind, if_pos (by exact hstart)]
    by_cases hlast : pckt.size ≤ m
    · rw [Nat.min_eq_left hlast, fragmentLoop_empty _ _ _ (by simp), number_sent_nil]
      refine ⟨[_], rfl, ?_, ?_, ?_⟩
      · apply Cut.last
        rw [fragment_stamped _ _ _ _ _ hmux hstart hend]
        simp
      · simp [allBytes, hsize]
      · simp [MediaPacket.size]
        omega
    · rw [Nat.min_eq_right (by omega)]
      rcases ih (pckt.popped m) (iFirst+1) (s.number _) hs hmux hstart hend
        (by rw [popped_size]; omega) (by rw [popped_size]; omega) with
        ⟨ps, hrun, hcut, hbytes, hsmall⟩
      rw [hrun, number_sent]
      refine ⟨_, rfl, ?_, ?_, ?_⟩
      · apply Cut.more
        · have hmore : decide (pckt.size-m = 0) = false := decide_eq_false (by omega)
          rw [fragment_stamped _ _ _ _ _ hmux hstart hend, hmore]
        · simp only [setUnit_bytes, fragment_bytes, pushed_bytes, new_bytes, List.nil_append,
            ne_eq, List.take_eq_nil_iff]
          rintro (h | h)
          · omega
          · rw [h] at hsize
            simp only [List.length_nil] at hsize
            omega
        · simpa [Packetizer.number] using hcut
      · simp only [allBytes, List.flatMap_cons, setUnit_bytes, fragment_bytes, pushed_bytes,
          new_bytes, List.nil_append]
        rw [← allBytes, hbytes, popped_bytes, List.take_append_drop]
      · intro p hp
        rcases List.mem_cons.mp hp with rfl | hp
        · simp [MediaPacket.size]
        · exact hsmall p hp

theorem cut_mux {frame : Metadata} {start : Bool} {u : ℤ} {ps : List MediaPacket}
    (h : Cut { frame with mux := .RTP } start u ps) : Cut frame start u ps := by
  induction h with
  | last hp => exact Cut.last hp
  | more hp hne _ ih => exact Cut.more hp hne ih

theorem packetizer_receive_run (m : ℕ) (hm : 1 ≤ m) (frame : MediaPacket) (s : Packetizer)
    (hs : uint32 s.iMTU = m) (hstart : frame.framestart = true) (hend : frame.frameend = true) :
    ∃ ps, (receive frame).run s = .ok () (s.sent ps) ∧ Packed m frame s.iUnit ps := by
  rw [receive, run_get_bind, hs]
  by_cases hbig : m < frame.size
  · rcases fragmentLoop_run m frame.size hm { frame with mux := .RTP } 0 s hs rfl hstart hend
      (by simp only [MediaPacket.size] at hbig ⊢; omega) (by rfl) with
      ⟨ps, hrun, hcut, hbytes, hsmall⟩
    refine ⟨ps, ?_, cut_mux hcut, hbytes, hsmall⟩
    rw [if_pos (by exact hbig)]
    exact hrun
  · refine ⟨[({ frame with mux := .RTP } : MediaPacket).setUnit s.iUnit], ?_, ?_⟩
    · rw [if_neg (by exact hbig), ← number_sent_nil]
      rfl
    · constructor
      · apply Cut.last
        simp [stamped, MediaPacket.setUnit, hstart, hend]
      · simp [allBytes]
      · simp only [List.mem_singleton, forall_eq]
        exact Nat.le_of_not_lt hbig

/-- Frames with their packets, in the order sent; the packets are numbered through. -/
def Packs (m : ℕ) : ℤ → List (MediaPacket × List MediaPacket) → Prop
  | _, [] => True
  | u, g::gs => Packed m g.1 u g.2 ∧ Packs m (u+g.2.length) gs

def packets (gs : List (MediaPacket × List MediaPacket)) : List MediaPacket :=
  gs.flatMap Prod.snd

theorem packetizer_run (m : ℕ) (hm : 1 ≤ m) (frames : List MediaPacket) (s : Packetizer)
    (hs : uint32 s.iMTU = m)
    (hframes : ∀ f ∈ frames, f.framestart = true ∧ f.frameend = true) :
    ∃ gs, (forM frames receive).run s = .ok () (s.sent (packets gs)) ∧
      gs.map Prod.fst = frames ∧ Packs m s.iUnit gs := by
  induction frames generalizing s with
  | nil => exact ⟨[], by simp [Packetizer.sent, packets], rfl, trivial⟩
  | cons f frames ih =>
    have hf := hframes f List.mem_cons_self
    rcases packetizer_receive_run m hm f s hs hf.1 hf.2 with ⟨ps, hrun, hpacked⟩
    rcases ih (s.sent ps) hs fun f' hf' => hframes f' (List.mem_cons_of_mem f hf') with
      ⟨gs, hruns, hmap, hpacks⟩
    refine ⟨(f, ps)::gs, ?_, by rw [List.map_cons, hmap], hpacked, hpacks⟩
    rw [List.forM_cons, run_bind_of_ok hrun, hruns]
    simp [Packetizer.sent, packets]
    ring

/-! ## What the unpacketizer makes of packets -/

theorem unpack_nil {s : SirannonUnpacketizer} (h : s.vQueue = []) : unpack.run s = .ok () s := by
  rw [unpack, run_get_bind, h]
  rfl

theorem unpack_cons {s : SirannonUnpacketizer} {p : MediaPacket} {ps : List MediaPacket}
    (h : s.vQueue = p::ps) :
    ∃ j, unpack.run s = .ok () (s.emit j) ∧ j.bytes = allBytes (p::ps) ∧
      j.toMetadata = { p.toMetadata with frameend := (ps.getLastD p).frameend } := by
  rw [unpack, run_get_bind, h]
  cases ps with
  | nil => exact ⟨p, rfl, by simp [allBytes], rfl⟩
  | cons q qs =>
    have hjoin : push_all ((MediaPacket.new .media p.content (sizes (p::q::qs))).set_metadata p)
        (p::q::qs) = _ := push_all_ok (p::q::qs) _ (by
      simp only [MediaPacket.set_metadata, MediaPacket.new, MediaPacket.size, List.length_nil,
        iBufferSpace]
      omega)
    refine ⟨_, run_ofExcept_bind hjoin s, ?_, rfl⟩
    simp

theorem save_run {s : SirannonUnpacketizer} {p : MediaPacket} (h : p.frameend = false) :
    (save p).run s = .ok () (s.saved p) := by
  rw [save, run_modify_bind, h]
  rfl

theorem save_last_run {s : SirannonUnpacketizer} {p : MediaPacket} (h : p.frameend = true) :
    (save p).run s = unpack.run (s.saved p) := by
  rw [save, run_modify_bind, h]
  rfl

/-- The packet holds a whole frame. -/
structure Complete (frame p : MediaPacket) : Prop where
  bytes : p.bytes = frame.bytes
  metadata : p.toMetadata =
    { frame.toMetadata with mux := .RTP, unitnumber := p.unitnumber }

/-- The packet holds the start of a frame and is not marked as its end. -/
structure Partial (frame p : MediaPacket) : Prop where
  nonempty : p.bytes ≠ []
  bytes : p.bytes <+: frame.bytes
  metadata : p.toMetadata =
    { frame.toMetadata with mux := .RTP, unitnumber := p.unitnumber, frameend := false }

def Restores (recover : Bool) (frame p : MediaPacket) : Prop :=
  Complete frame p ∨ recover = true ∧ Partial frame p

/-- The queue holds the first packets of a frame, the last one missing. -/
structure Held (frame : MediaPacket) (u : ℤ) (q : List MediaPacket) : Prop where
  nonempty : allBytes q ≠ []
  bytes : allBytes q <+: frame.bytes
  head : ∃ p ps, q = p::ps ∧ p.toMetadata = stamped frame.toMetadata u true false
  unfinished : ∀ p ∈ q, p.frameend = false

theorem held_start {frame p : MediaPacket} {u : ℤ}
    (hp : p.toMetadata = stamped frame.toMetadata u true false) (hne : p.bytes ≠ [])
    (hbytes : p.bytes <+: frame.bytes) : Held frame u [p] where
  nonempty := by simpa [allBytes] using hne
  bytes := by simpa [allBytes] using hbytes
  head := ⟨p, [], rfl, hp⟩
  unfinished := by
    intro q hq
    rw [List.mem_singleton.mp hq, hp]
    rfl

theorem held_next {frame p : MediaPacket} {u v : ℤ} {q : List MediaPacket} (h : Held frame u q)
    (hp : p.toMetadata = stamped frame.toMetadata v false false)
    (hbytes : allBytes (q ++ [p]) <+: frame.bytes) : Held frame u (q ++ [p]) where
  nonempty := by
    rw [allBytes, List.flatMap_append, ← allBytes]
    exact List.append_ne_nil_of_left_ne_nil h.nonempty _
  bytes := hbytes
  head := by
    rcases h.head with ⟨p₀, ps, rfl, hp₀⟩
    exact ⟨p₀, ps ++ [p], rfl, hp₀⟩
  unfinished := by
    intro r hr
    rcases List.mem_append.mp hr with hr | hr
    · exact h.unfinished r hr
    · rw [List.mem_singleton.mp hr, hp]
      rfl

/-- Nothing is queued. -/
structure Ready (got : List MediaPacket → List MediaPacket → Prop) (recover : Bool)
    (sent : List MediaPacket) (s : SirannonUnpacketizer) : Prop where
  queue : s.vQueue = []
  fragment : s.bFragment = recover
  got : got sent s.routed

/-- In the middle of a frame whose packets have all arrived so far. -/
structure Tracks (got : List MediaPacket → List MediaPacket → Prop) (recover : Bool)
    (sent : List MediaPacket) (frame : MediaPacket) (u : ℤ) (q : List MediaPacket)
    (s : SirannonUnpacketizer) : Prop where
  queue : s.vQueue = q
  held : Held frame u q
  unit : s.iUnit = u+q.length-1
  start : 0 ≤ u
  number : s.iFrame = frame.framenumber
  subnumber : s.iSubFrame = frame.subframenumber
  fragment : s.bFragment = recover
  got : got sent s.routed

/-- Between two frames, the last packet before `v` having arrived. -/
structure Synced (got : List MediaPacket → List MediaPacket → Prop) (recover : Bool)
    (sent : List MediaPacket) (v : ℤ) (s : SirannonUnpacketizer) : Prop where
  ready : Ready got recover sent s
  unit : s.iUnit = v-1
  start : 0 ≤ v

/-- Complete frames can be added to the output. -/
def Grows (got : List MediaPacket → List MediaPacket → Prop) : Prop :=
  ∀ sent out f p, got sent out → Complete f p → got (sent ++ [f]) (out ++ [p])

section
variable {got : List MediaPacket → List MediaPacket → Prop} {recover : Bool}
  {sent : List MediaPacket} {frame p : MediaPacket} {u v : ℤ} {q : List MediaPacket}
  {E : SirannonException → SirannonUnpacketizer → Prop}

theorem save_start_more (hp : p.toMetadata = stamped frame.toMetadata u true false)
    (hne : p.bytes ≠ []) (hbytes : p.bytes <+: frame.bytes) (hu : 0 ≤ u) :
    Triple (Ready got recover sent) (save p)
      (fun _ => Tracks got recover sent frame u [p]) E := by
  constructor
  intro s hs
  rw [save_run (by rw [hp]; rfl)]
  constructor
  · simp [SirannonUnpacketizer.saved, hs.queue]
  · exact held_start hp hne hbytes
  · simp [SirannonUnpacketizer.saved, hp, stamped]
  · exact hu
  · simp [SirannonUnpacketizer.saved, hp, stamped]
  · simp [SirannonUnpacketizer.saved, hp, stamped]
  · exact hs.fragment
  · exact hs.got

theorem save_start_last (hgot : Grows got)
    (hp : p.toMetadata = stamped frame.toMetadata u true true) (hframe : frame.framestart = true)
    (hframe' : frame.frameend = true) (hbytes : p.bytes = frame.bytes) (hu : 0 ≤ u) :
    Triple (Ready got recover sent) (save p)
      (fun _ => Synced got recover (sent ++ [frame]) (u+1)) E := by
  constructor
  intro s hs
  rw [save_last_run (by rw [hp]; rfl)]
  have hq : (s.saved p).vQueue = [p] := by simp [SirannonUnpacketizer.saved, hs.queue]
  rcases unpack_cons hq with ⟨j, hrun, hj, hmeta⟩
  rw [hrun]
  constructor
  · constructor
    · rfl
    · exact hs.fragment
    · apply hgot _ _ _ _ hs.got
      constructor
      · rw [setUnit_bytes, hj, ← hbytes]
        simp [allBytes]
      · simp [MediaPacket.setUnit, hmeta, hp, stamped, hframe, hframe']
  · simp [SirannonUnpacketizer.emit, SirannonUnpacketizer.saved, hp, stamped]
  · omega

theorem save_next_more (hp : p.toMetadata = stamped frame.toMetadata (u+q.length) false false)
    (hbytes : allBytes (q ++ [p]) <+: frame.bytes) :
    Triple (Tracks got recover sent frame u q) (save p)
      (fun _ => Tracks got recover sent frame u (q ++ [p])) E := by
  constructor
  intro s hs
  rw [save_run (by rw [hp]; rfl)]
  constructor
  · simp [SirannonUnpacketizer.saved, hs.queue]
  · exact held_next hs.held hp hbytes
  · simp [SirannonUnpacketizer.saved, hp, stamped]
    ring
  · exact hs.start
  · simp [SirannonUnpacketizer.saved, hp, stamped]
  · simp [SirannonUnpacketizer.saved, hp, stamped]
  · exact hs.fragment
  · exact hs.got

theorem save_next_last (hgot : Grows got)
    (hp : p.toMetadata = stamped frame.toMetadata (u+q.length) false true)
    (hframe : frame.framestart = true) (hframe' : frame.frameend = true)
    (hbytes : allBytes (q ++ [p]) = frame.bytes) :
    Triple (Tracks got recover sent frame u q) (save p)
      (fun _ => Synced got recover (sent ++ [frame]) (u+q.length+1)) E := by
  constructor
  intro s hs
  rw [save_last_run (by rw [hp]; rfl)]
  rcases hs.held.head with ⟨p₀, ps, rfl, hp₀⟩
  have hq : (s.saved p).vQueue = p₀::(ps ++ [p]) := by
    simp [SirannonUnpacketizer.saved, hs.queue]
  rcases unpack_cons hq with ⟨j, hrun, hj, hmeta⟩
  rw [hrun]
  have hu := hs.start
  constructor
  · constructor
    · rfl
    · exact hs.fragment
    · apply hgot _ _ _ _ hs.got
      constructor
      · rw [setUnit_bytes, hj, ← hbytes]
        rfl
      · simp [MediaPacket.setUnit, hmeta, hp, hp₀, stamped, hframe, hframe']
  · simp [SirannonUnpacketizer.emit, SirannonUnpacketizer.saved, hp, stamped]
  · omega

/-- With nothing queued it does not matter whose packet came before. -/
theorem evolve_ready {Q : Unit → SirannonUnpacketizer → Prop}
    (h : Triple (Ready got recover sent) (save p) Q E) :
    Triple (Ready got recover sent) (evolve p) Q E := by
  constructor
  intro s hs
  rw [evolve, run_get_bind]
  by_cases hnew : p.framenumber ≠ s.iFrame ∨ p.subframenumber ≠ s.iSubFrame
  · rw [if_pos hnew, run_bind_of_ok (unpack_nil hs.queue)]
    exact h.exits s hs
  · rw [if_neg hnew]
    exact h.exits s hs

theorem evolve_tracks {Q : Unit → SirannonUnpacketizer → Prop} {start stop : Bool}
    (hp : p.toMetadata = stamped frame.toMetadata v start stop)
    (h : Triple (Tracks got recover sent frame u q) (save p) Q E) :
    Triple (Tracks got recover sent frame u q) (evolve p) Q E := by
  constructor
  intro s hs
  have hnew : ¬ (p.framenumber ≠ s.iFrame ∨ p.subframenumber ≠ s.iSubFrame) := by
    rw [hs.number, hs.subnumber, hp]
    simp [stamped]
  rw [evolve, run_get_bind, if_neg hnew]
  exact h.exits s hs

theorem receive_synced {Q : Unit → SirannonUnpacketizer → Prop}
    (hp : p.framestart = true) (hunit : p.unitnumber = v)
    (h : Triple (Ready got recover sent) (save p) Q E) :
    Triple (Synced got recover sent v) (SirannonUnpacketizer.receive p) Q E := by
  constructor
  intro s hs
  rw [SirannonUnpacketizer.receive, run_get_bind]
  by_cases hfirst : s.iUnit < 0
  · rw [if_pos hfirst, if_pos hp, run_modify_bind]
    exact (evolve_ready h).exits _ ⟨hs.ready.queue, hs.ready.fragment, hs.ready.got⟩
  · rw [if_neg hfirst, if_pos (by rw [hs.unit, hunit]; ring)]
    exact (evolve_ready h).exits s hs.ready

theorem receive_tracks {Q : Unit → SirannonUnpacketizer → Prop} {stop : Bool}
    (hp : p.toMetadata = stamped frame.toMetadata (u+q.length) false stop)
    (h : Triple (Tracks got recover sent frame u q) (save p) Q E) :
    Triple (Tracks got recover sent frame u q) (SirannonUnpacketizer.receive p) Q E := by
  constructor
  intro s hs
  have hlen : 1 ≤ q.length := by
    rcases hs.held.head with ⟨p₀, ps, rfl, -⟩
    simp
  have hstart := hs.start
  have hunit := hs.unit
  rw [SirannonUnpacketizer.receive, run_get_bind, if_neg (by omega), if_pos]
  · exact (evolve_tracks hp h).exits s hs
  · rw [hp, hunit, stamped]
    ring

/-- Every packet of a frame arrives: the frame is put out. -/
theorem rest_arrives (hgot : Grows got) {ps : List MediaPacket}
    (hcut : Cut frame.toMetadata false v ps) (hv : v = u+q.length)
    (hframe : frame.framestart = true) (hframe' : frame.frameend = true)
    (hbytes : allBytes (q ++ ps) = frame.bytes) :
    Triple (Tracks got recover sent frame u q) (forM ps SirannonUnpacketizer.receive)
      (fun _ => Synced got recover (sent ++ [frame]) (v+ps.length)) E := by
  generalize hstart : false = start at hcut
  induction hcut generalizing q with
  | last hp =>
    subst hstart hv
    rw [List.forM_cons, List.forM_nil]
    apply triple_bind (receive_tracks hp (save_next_last hgot hp hframe hframe' hbytes))
    intro _
    exact triple_pure _ fun _ h => h
  | @more start v p ps hp hne hcut ih =>
    subst hstart hv
    have hmore : allBytes (q ++ [p]) <+: frame.bytes := by
      rw [← hbytes, allBytes_split q p ps]
      exact List.prefix_append _ _
    have hlen : u+q.length+((p::ps).length : ℤ) = u+q.length+1+ps.length := by
      rw [List.length_cons]
      push_cast
      ring
    have hnext : u+q.length+1 = u+((q ++ [p]).length : ℤ) := by
      rw [List.length_append, List.length_singleton]
      push_cast
      ring
    rw [List.forM_cons, hlen]
    apply triple_bind (receive_tracks hp (save_next_more hp hmore))
    intro _
    exact ih hnext (by rwa [List.append_assoc]) rfl

theorem frame_arrives (hgot : Grows got) {m : ℕ} {ps : List MediaPacket}
    (hpacked : Packed m frame u ps) (hframe : frame.framestart = true)
    (hframe' : frame.frameend = true) :
    Triple (Synced got recover sent u) (forM ps SirannonUnpacketizer.receive)
      (fun _ => Synced got recover (sent ++ [frame]) (u+ps.length)) E := by
  apply triple_of_state
  intro s hs
  have hu := hs.start
  rcases hpacked with ⟨hcut, hbytes, -⟩
  cases hcut with
  | @last _ _ p hp =>
    rw [List.forM_cons, List.forM_nil]
    apply triple_bind (triple_conseq (receive_synced (by rw [hp]; rfl) (by rw [hp])
      (save_start_last hgot hp hframe hframe' (by simpa [allBytes] using hbytes) hu))
      (by rintro _ rfl; exact hs) (fun _ _ h => h) (fun _ _ h => h))
    intro _
    exact triple_pure _ fun _ h => h
  | @more _ _ p ps hp hne hcut =>
    have hmore : p.bytes <+: frame.bytes := by
      rw [← hbytes, allBytes, List.flatMap_cons]
      exact List.prefix_append _ _
    have hlen : u+((p::ps).length : ℤ) = u+1+ps.length := by
      rw [List.length_cons]
      push_cast
      ring
    rw [List.forM_cons, hlen]
    apply triple_bind (triple_conseq (receive_synced (by rw [hp]; rfl) (by rw [hp])
      (save_start_more hp hne hmore hu))
      (by rintro _ rfl; exact hs) (fun _ _ h => h) (fun _ _ h => h))
    intro _
    exact rest_arrives hgot hcut (by simp) hframe hframe' hbytes

end

/-! ## Losses -/

def Recovered (recover : Bool) : List MediaPacket → List MediaPacket → Prop :=
  Recovers (Restores recover)

theorem recovered_grows (recover : Bool) : Grows (Recovered recover) :=
  fun _ _ _ _ h hp => recovers_emit h (.inl hp)

/-- Whatever arrived of the packets below `v`: an unfinished frame in the queue is followed
by a gap. -/
structure Behind (recover : Bool) (sent : List MediaPacket) (v : ℤ) (s : SirannonUnpacketizer) :
    Prop where
  fragment : s.bFragment = recover
  start : 0 ≤ v
  below : s.iUnit < v
  queue : s.vQueue = [] ∧ Recovered recover sent s.routed ∨
    ∃ before frame after u, sent = before ++ frame::after ∧ Held frame u s.vQueue ∧
      Recovered recover before s.routed ∧ 0 ≤ s.iUnit ∧ s.iUnit+1 < v

/-- Moreover the packet before `v` did not arrive. -/
structure Lost (recover : Bool) (sent : List MediaPacket) (v : ℤ) (s : SirannonUnpacketizer) :
    Prop where
  behind : Behind recover sent v s
  gap : s.iUnit < 0 ∨ s.iUnit+1 < v

section
variable {recover : Bool} {sent all : List MediaPacket} {frame p : MediaPacket} {u v : ℤ}
  {q : List MediaPacket} {s : SirannonUnpacketizer}

theorem behind_of_synced (h : Synced (Recovered recover) recover sent v s) :
    Behind recover sent v s where
  fragment := h.ready.fragment
  start := h.start
  below := by
    have := h.unit
    omega
  queue := .inl ⟨h.ready.queue, h.ready.got⟩

theorem lost_of_tracks (h : Tracks (Recovered recover) recover sent frame u q s) :
    Lost recover (sent ++ [frame]) (u+q.length+1) s := by
  have hlen : 1 ≤ q.length := by
    rcases h.held.head with ⟨p₀, ps, rfl, -⟩
    simp
  have hstart := h.start
  have hunit := h.unit
  have hheld := h.held
  rw [← h.queue] at hheld
  constructor
  · constructor
    · exact h.fragment
    · omega
    · omega
    · exact .inr ⟨sent, frame, [], u, rfl, hheld, h.got, by omega, by omega⟩
  · omega

theorem lost_skip (h : Behind recover sent v s) : Lost recover sent (v+1) s := by
  have hbelow := h.below
  have hstart := h.start
  constructor
  · constructor
    · exact h.fragment
    · omega
    · omega
    · rcases h.queue with hq | ⟨before, f, after, u, hsent, hheld, hgot, h₀, h₁⟩
      · exact .inl hq
      · exact .inr ⟨before, f, after, u, hsent, hheld, hgot, h₀, by omega⟩
  · omega

theorem behind_more (h : Behind recover sent v s) : Behind recover (sent ++ [frame]) v s where
  fragment := h.fragment
  start := h.start
  below := h.below
  queue := by
    rcases h.queue with ⟨hq, hgot⟩ | ⟨before, f, after, u, rfl, hrest⟩
    · exact .inl ⟨hq, recovers_skip frame hgot⟩
    · exact .inr ⟨before, f, after ++ [frame], u, by simp, hrest⟩

/-- The part of a frame in the queue, as it is put out. -/
theorem partial_of_held {j : MediaPacket} {p₀ : MediaPacket} {ps : List MediaPacket} {n : ℤ}
    (h : Held frame u (p₀::ps)) (hj : j.bytes = allBytes (p₀::ps))
    (hmeta : j.toMetadata = { p₀.toMetadata with frameend := (ps.getLastD p₀).frameend })
    (hframe : frame.framestart = true) : Partial frame (j.setUnit n) := by
  rcases h.head with ⟨p₁, ps₁, heq, hp₁⟩
  rw [List.cons.injEq] at heq
  rcases heq with ⟨rfl, rfl⟩
  have hlast : (ps.getLastD p₀).frameend = false := by
    apply h.unfinished
    rw [List.getLastD_eq_getLast?]
    cases hps : ps.getLast? with
    | none => simp
    | some r => simpa using List.mem_cons_of_mem p₀ (List.mem_of_getLast? hps)
  constructor
  · rw [setUnit_bytes, hj]
    exact h.nonempty
  · rw [setUnit_bytes, hj]
    exact h.bytes
  · rw [hlast] at hmeta
    simp [MediaPacket.setUnit, hmeta, hp₁, stamped, hframe]

/-- Both ways to get rid of the queue leave a correct output. -/
theorem realign_behind {Q : Unit → SirannonUnpacketizer → Prop}
    {E : SirannonException → SirannonUnpacketizer → Prop} (n : ℤ)
    (hsent : ∀ f ∈ sent, f.framestart = true)
    (h : Triple (fun s => Ready (Recovered recover) recover sent s ∧ s.iUnit = n) (resync p) Q E) :
    Triple (fun s => Behind recover sent v s ∧ s.iUnit = n) (realign p) Q E := by
  constructor
  rintro s ⟨hs, hn⟩
  rw [realign, run_get_bind]
  rcases hs.queue with ⟨hq, hgot⟩ | ⟨before, f, after, u, rfl, hheld, hgot, -, -⟩
  · by_cases hfragment : s.bFragment = true
    · rw [if_pos hfragment, run_bind_of_ok (unpack_nil hq)]
      exact h.exits s ⟨⟨hq, hs.fragment, hgot⟩, hn⟩
    · rw [if_neg hfragment, purge, run_modify_bind]
      exact h.exits _ ⟨⟨rfl, hs.fragment, hgot⟩, hn⟩
  · by_cases hfragment : s.bFragment = true
    · rcases hheld.head with ⟨p₀, ps, hq, -⟩
      rcases unpack_cons hq with ⟨j, hrun, hj, hmeta⟩
      rw [if_pos hfragment, run_bind_of_ok hrun]
      rw [hq] at hheld
      have hpart := partial_of_held (n := s.iNewUnit) hheld hj hmeta (hsent f (by simp))
      have hrecover : recover = true := by rw [← hs.fragment, hfragment]
      have hmore := recovers_emit hgot (.inr ⟨hrecover, hpart⟩)
      have hsub : (before ++ [f]).Sublist (before ++ f::after) := by simp
      exact h.exits (s.emit j) ⟨⟨rfl, hs.fragment, recovers_of_sublist hmore hsub⟩, hn⟩
    · rw [if_neg hfragment, purge, run_modify_bind]
      exact h.exits _ ⟨⟨rfl, hs.fragment,
        recovers_of_sublist hgot (List.sublist_append_left before (f::after))⟩, hn⟩

/-- What an exception leaves behind. -/
def Stopped (recover : Bool) (all : List MediaPacket) (_ : SirannonException)
    (s : SirannonUnpacketizer) : Prop := Recovered recover all s.routed

theorem resync_start {Q : Unit → SirannonUnpacketizer → Prop} {n : ℤ}
    (hall : sent.Sublist all) (hp : p.framestart = true)
    (h : Triple (Ready (Recovered recover) recover sent) (save p) Q (Stopped recover all)) :
    Triple (fun s => Ready (Recovered recover) recover sent s ∧ s.iUnit = n) (resync p) Q
      (Stopped recover all) := by
  constructor
  rintro s ⟨hs, -⟩
  rw [resync, run_get_bind]
  by_cases hsevere : s.bSync = false ∧ s.bSeverity = true
  · rw [if_pos hsevere]
    exact recovers_of_sublist hs.got hall
  · rw [if_neg hsevere, if_pos hp, run_modify_bind]
    exact h.exits _ ⟨hs.queue, hs.fragment, hs.got⟩

theorem resync_junk {n : ℤ} (hall : sent.Sublist all) (hp : p.framestart = false)
    (hv : 0 ≤ v) (hn : n+1 < v) :
    Triple (fun s => Ready (Recovered recover) recover sent s ∧ s.iUnit = n) (resync p)
      (fun _ => Lost recover sent (v+1)) (Stopped recover all) := by
  constructor
  rintro s ⟨hs, rfl⟩
  rw [resync, run_get_bind]
  by_cases hsevere : s.bSync = false ∧ s.bSeverity = true
  · rw [if_pos hsevere]
    exact recovers_of_sublist hs.got hall
  · rw [if_neg hsevere, if_neg (by rw [hp]; simp)]
    constructor
    · constructor
      · exact hs.fragment
      · omega
      · show s.iUnit < v+1
        omega
      · exact .inl ⟨hs.queue, hs.got⟩
    · show s.iUnit < 0 ∨ s.iUnit+1 < v+1
      omega

/-- A packet inside a frame whose start is lost is dropped. -/
theorem receive_lost (hall : sent.Sublist all) (hsent : ∀ f ∈ sent, f.framestart = true)
    (hp : p.framestart = false) (hunit : p.unitnumber = v) :
    Triple (Lost recover sent v) (SirannonUnpacketizer.receive p)
      (fun _ => Lost recover sent (v+1)) (Stopped recover all) := by
  constructor
  intro s hs
  have hstart := hs.behind.start
  rw [SirannonUnpacketizer.receive, run_get_bind]
  by_cases hfirst : s.iUnit < 0
  · rw [if_pos hfirst, if_neg (by rw [hp]; simp)]
    by_cases hsevere : s.bSeverity = true
    · rw [if_pos hsevere]
      rcases hs.behind.queue with ⟨-, hgot⟩ | ⟨-, -, -, -, -, -, -, h₀, -⟩
      · exact recovers_of_sublist hgot hall
      · omega
    · rw [if_neg hsevere]
      exact lost_skip hs.behind
  · have hgap := hs.gap
    rw [if_neg hfirst, if_neg (by omega)]
    exact (realign_behind s.iUnit hsent (resync_junk hall hp hstart (by omega))).exits s
      ⟨hs.behind, rfl⟩

/-- A packet that starts a frame is taken, whatever has been lost before. -/
theorem receive_start {Q : Unit → SirannonUnpacketizer → Prop} (hall : sent.Sublist all)
    (hsent : ∀ f ∈ sent, f.framestart = true) (hp : p.framestart = true)
    (hunit : p.unitnumber = v)
    (h : Triple (Ready (Recovered recover) recover sent) (save p) Q (Stopped recover all)) :
    Triple (Behind recover sent v) (SirannonUnpacketizer.receive p) Q (Stopped recover all) := by
  constructor
  intro s hs
  by_cases hnext : s.iUnit < 0 ∨ s.iUnit = v-1
  · rcases hs.queue with ⟨hq, hgot⟩ | ⟨-, -, -, -, -, -, -, h₀, h₁⟩
    · have hready : Ready (Recovered recover) recover sent s := ⟨hq, hs.fragment, hgot⟩
      rw [SirannonUnpacketizer.receive, run_get_bind]
      by_cases hfirst : s.iUnit < 0
      · rw [if_pos hfirst, if_pos hp, run_modify_bind]
        exact (evolve_ready h).exits _ ⟨hq, hs.fragment, hgot⟩
      · rw [if_neg hfirst, if_pos (by omega)]
        exact (evolve_ready h).exits s hready
    · omega
  · rw [SirannonUnpacketizer.receive, run_get_bind, if_neg (by omega), if_neg (by omega)]
    exact (realign_behind s.iUnit hsent (resync_start hall hp h)).exits s ⟨hs, rfl⟩

theorem rest_lost (hall : sent.Sublist all) (hsent : ∀ f ∈ sent, f.framestart = true)
    {ps arrived : List MediaPacket} (hcut : Cut frame.toMetadata false v ps)
    (harrived : arrived.Sublist ps) :
    Triple (Lost recover sent v) (forM arrived SirannonUnpacketizer.receive)
      (fun _ => Lost recover sent (v+ps.length)) (Stopped recover all) := by
  generalize hstart : false = start at hcut
  induction hcut generalizing arrived with
  | @last start v p hp =>
    subst hstart
    rcases List.sublist_singleton.mp harrived with rfl | rfl
    · exact triple_pure _ fun _ h => lost_skip h.behind
    · rw [List.forM_cons, List.forM_nil]
      apply triple_bind (receive_lost hall hsent (by rw [hp]; rfl) (by rw [hp]; rfl))
      intro _
      exact triple_pure _ fun _ h => h
  | @more start v p ps hp hne hcut ih =>
    subst hstart
    have hlen : v+((p::ps).length : ℤ) = v+1+ps.length := by
      rw [List.length_cons]
      push_cast
      ring
    rw [hlen]
    rcases List.sublist_cons_iff.mp harrived with hskip | ⟨rest, rfl, hrest⟩
    · exact triple_conseq (ih hskip rfl) (fun _ h => lost_skip h.behind) (fun _ _ h => h)
        (fun _ _ h => h)
    · rw [List.forM_cons]
      apply triple_bind (receive_lost hall hsent (by rw [hp]; rfl) (by rw [hp]; rfl))
      intro _
      exact ih hrest rfl

theorem rest_tracked (hall : (sent ++ [frame]).Sublist all)
    (hsent : ∀ f ∈ sent ++ [frame], f.framestart = true) (hframe : frame.frameend = true)
    {ps arrived : List MediaPacket} (hcut : Cut frame.toMetadata false v ps)
    (hv : v = u+q.length) (hbytes : allBytes (q ++ ps) = frame.bytes)
    (harrived : arrived.Sublist ps) :
    Triple (Tracks (Recovered recover) recover sent frame u q)
      (forM arrived SirannonUnpacketizer.receive)
      (fun _ => Behind recover (sent ++ [frame]) (v+ps.length)) (Stopped recover all) := by
  have hstart' := hsent frame (by simp)
  generalize hstart : false = start at hcut
  induction hcut generalizing arrived q with
  | @last start v p hp =>
    subst hstart hv
    rcases List.sublist_singleton.mp harrived with rfl | rfl
    · exact triple_pure _ fun _ h => (lost_of_tracks h).behind
    · rw [List.forM_cons, List.forM_nil]
      apply triple_bind (receive_tracks hp
        (save_next_last (recovered_grows recover) hp hstart' hframe hbytes))
      intro _
      exact triple_pure _ fun _ h => behind_of_synced h
  | @more start v p ps hp hne hcut ih =>
    subst hstart hv
    have hlen : u+q.length+((p::ps).length : ℤ) = u+q.length+1+ps.length := by
      rw [List.length_cons]
      push_cast
      ring
    rw [hlen]
    rcases List.sublist_cons_iff.mp harrived with hskip | ⟨rest, rfl, hrest⟩
    · exact triple_conseq (rest_lost hall hsent hcut hskip) (fun _ h => lost_of_tracks h)
        (fun _ _ h => h.behind) (fun _ _ h => h)
    · have hmore : allBytes (q ++ [p]) <+: frame.bytes := by
        rw [← hbytes, allBytes_split q p ps]
        exact List.prefix_append _ _
      have hnext : u+q.length+1 = u+((q ++ [p]).length : ℤ) := by
        rw [List.length_append, List.length_singleton]
        push_cast
        ring
      rw [List.forM_cons]
      apply triple_bind (receive_tracks hp (save_next_more hp hmore))
      intro _
      exact ih hnext (by rwa [List.append_assoc]) hrest rfl

/-- Whatever arrives of the packets of the next frame, the output stays correct. -/
theorem frame_lossy (hall : (sent ++ [frame]).Sublist all)
    (hsent : ∀ f ∈ sent ++ [frame], f.framestart = true) (hframe : frame.frameend = true) {m : ℕ}
    {ps arrived : List MediaPacket} (hpacked : Packed m frame u ps)
    (harrived : arrived.Sublist ps) :
    Triple (Behind recover sent u) (forM arrived SirannonUnpacketizer.receive)
      (fun _ => Behind recover (sent ++ [frame]) (u+ps.length)) (Stopped recover all) := by
  have hsent' : ∀ f ∈ sent, f.framestart = true := fun f hf =>
    hsent f (List.mem_append_left _ hf)
  have hall' : sent.Sublist all := (List.sublist_append_left sent [frame]).trans hall
  have hstart := hsent frame (by simp)
  rcases hpacked with ⟨hcut, hbytes, -⟩
  apply triple_of_state
  intro s hs
  have hu := hs.start
  cases hcut with
  | @last _ _ p hp =>
    rcases List.sublist_singleton.mp harrived with rfl | rfl
    · apply triple_pure
      rintro _ rfl
      exact behind_more (lost_skip hs).behind
    · rw [List.forM_cons, List.forM_nil]
      apply triple_bind (triple_conseq (receive_start hall' hsent' (by rw [hp]; rfl)
        (by rw [hp]) (save_start_last (recovered_grows recover) hp hstart hframe
          (by simpa [allBytes] using hbytes) hu))
        (by rintro _ rfl; exact hs) (fun _ _ h => behind_of_synced h) (fun _ _ h => h))
      intro _
      exact triple_pure _ fun _ h => h
  | @more _ _ p ps hp hne hcut =>
    have hlen : u+((p::ps).length : ℤ) = u+1+ps.length := by
      rw [List.length_cons]
      push_cast
      ring
    rw [hlen]
    rcases List.sublist_cons_iff.mp harrived with hskip | ⟨rest, rfl, hrest⟩
    · apply triple_conseq (rest_lost hall hsent hcut hskip)
      · rintro _ rfl
        have hlost := lost_skip hs
        exact ⟨behind_more hlost.behind, hlost.gap⟩
      · exact fun _ _ h => h.behind
      · exact fun _ _ h => h
    · have hmore : p.bytes <+: frame.bytes := by
        rw [← hbytes, allBytes, List.flatMap_cons]
        exact List.prefix_append _ _
      rw [List.forM_cons]
      apply triple_bind (triple_conseq (receive_start hall' hsent' (by rw [hp]; rfl)
        (by rw [hp]) (save_start_more hp hne hmore hu))
        (by rintro _ rfl; exact hs) (fun _ _ h => h) (fun _ _ h => h))
      intro _
      exact rest_tracked hall hsent hframe hcut (by simp) hbytes hrest

end

/-! ## Round trip -/

theorem packs_split {m : ℕ} {u : ℤ} {done rest : List (MediaPacket × List MediaPacket)}
    {g : MediaPacket × List MediaPacket} (h : Packs m u (done ++ g::rest)) :
    Packed m g.1 (u+(packets done).length) g.2 := by
  induction done generalizing u with
  | nil => simpa [packets] using h.1
  | cons d done ih =>
    have hd := ih h.2
    rw [packets, List.flatMap_cons, List.length_append, ← packets]
    push_cast
    rwa [add_assoc] at hd

theorem packs_small {m : ℕ} {u : ℤ} {gs : List (MediaPacket × List MediaPacket)}
    (h : Packs m u gs) : ∀ p ∈ packets gs, p.size ≤ m := by
  intro p hp
  rcases List.mem_flatMap.mp hp with ⟨g, hg, hpg⟩
  rcases List.append_of_mem hg with ⟨done, rest, rfl⟩
  exact (packs_split h).small p hpg

theorem behind_init (recover bSeverity : Bool) :
    Behind recover [] 0 (SirannonUnpacketizer.init recover bSeverity) where
  fragment := rfl
  start := le_refl 0
  below := by
    show (-1 : ℤ) < 0
    decide
  queue := .inl ⟨rfl, recovers_nil _ _⟩

theorem recovered_of_behind {recover : Bool} {sent : List MediaPacket} {v : ℤ}
    {s : SirannonUnpacketizer} (h : Behind recover sent v s) : Recovered recover sent s.routed := by
  rcases h.queue with ⟨-, hgot⟩ | ⟨before, f, after, -, rfl, -, hgot, -⟩
  · exact hgot
  · exact recovers_of_sublist hgot (List.sublist_append_left before (f::after))

/-- Whatever arrives, the output holds frames sent or starts of frames sent, in order. -/
theorem unpacketizer_lossy (recover : Bool) {m : ℕ}
    {gs : List (MediaPacket × List MediaPacket)} (hgs : Packs m 0 gs)
    (hflags : ∀ g ∈ gs, g.1.framestart = true ∧ g.1.frameend = true) (arrived : List MediaPacket)
    (harrived : arrived.Sublist (packets gs)) :
    Triple (Behind recover [] 0) (forM arrived SirannonUnpacketizer.receive)
      (fun _ => Behind recover (gs.map Prod.fst) (packets gs).length)
      (Stopped recover (gs.map Prod.fst)) := by
  have hstep : ∀ done g rest, gs = done ++ g :: rest → ∀ sub : List MediaPacket,
      sub.Sublist g.2 →
      Triple (Behind recover (done.map Prod.fst) (packets done).length)
        (forM sub SirannonUnpacketizer.receive)
        (fun _ => Behind recover ((done ++ [g]).map Prod.fst) (packets (done ++ [g])).length)
        (Stopped recover (gs.map Prod.fst)) := by
    intro done g rest hgs' sub hsub
    have hpacked := packs_split (hgs' ▸ hgs)
    rw [zero_add] at hpacked
    have hframes : ∀ f ∈ done.map Prod.fst ++ [g.1], f.framestart = true := by
      intro f hf
      rcases List.mem_append.mp hf with hf | hf
      · rcases List.mem_map.mp hf with ⟨d, hd, rfl⟩
        exact (hflags d (by rw [hgs']; exact List.mem_append_left _ hd)).1
      · rw [List.mem_singleton.mp hf]
        exact (hflags g (by rw [hgs']; simp)).1
    have hall : (done.map Prod.fst ++ [g.1]).Sublist (gs.map Prod.fst) := by
      rw [hgs', List.map_append, List.map_cons]
      simp
    have hframe : Triple (Behind recover (done.map Prod.fst) (packets done).length)
        (forM sub SirannonUnpacketizer.receive)
        (fun _ => Behind recover (done.map Prod.fst ++ [g.1]) ((packets done).length+g.2.length))
        (Stopped recover (gs.map Prod.fst)) :=
      frame_lossy hall hframes (hflags g (by rw [hgs']; simp)).2 hpacked hsub
    simpa [packets] using hframe
  exact run_groups Prod.snd gs hstep arrived harrived

theorem unpacketizer_lossless {m : ℕ} {recover : Bool}
    {E : SirannonException → SirannonUnpacketizer → Prop}
    {got : List MediaPacket → List MediaPacket → Prop} (hgot : Grows got)
    {gs : List (MediaPacket × List MediaPacket)} {sent : List MediaPacket} {u : ℤ}
    (hgs : Packs m u gs) (hflags : ∀ g ∈ gs, g.1.framestart = true ∧ g.1.frameend = true) :
    Triple (Synced got recover sent u) (forM (packets gs) SirannonUnpacketizer.receive)
      (fun _ => Synced got recover (sent ++ gs.map Prod.fst) (u+(packets gs).length)) E := by
  induction gs generalizing sent u with
  | nil =>
    simp only [packets, List.flatMap_nil, List.forM_nil, List.map_nil, List.append_nil,
      List.length_nil, Nat.cast_zero, add_zero]
    exact triple_pure _ fun _ h => h
  | cons g gs ih =>
    have hg := hflags g List.mem_cons_self
    have hlen : u+((packets (g::gs)).length : ℤ) = u+g.2.length+(packets gs).length := by
      rw [packets, List.flatMap_cons, List.length_append, ← packets]
      push_cast
      ring
    rw [hlen, packets, List.flatMap_cons, List.forM_append, ← packets]
    apply triple_bind (frame_arrives hgot hgs.1 hg.1 hg.2)
    intro _
    have hrest : Triple (Synced got recover (sent ++ [g.1]) (u+g.2.length))
        (forM (packets gs) SirannonUnpacketizer.receive)
        (fun _ => Synced got recover (sent ++ [g.1] ++ gs.map Prod.fst)
          (u+g.2.length+(packets gs).length)) E :=
      ih hgs.2 fun d hd => hflags d (List.mem_cons_of_mem g hd)
    rwa [List.append_assoc] at hrest

theorem restores_numbers {recover : Bool} (frame p : MediaPacket) (h : Restores recover frame p) :
    numbers p = numbers frame := by
  rcases h with h | ⟨-, h⟩
  · rw [numbers, h.metadata]
    rfl
  · rw [numbers, h.metadata]
    rfl

/-- Every frame comes through whole when nothing is lost; under any loss the output holds whole
frames or, when asked to recover, non-empty starts of frames, in order and each at most once. -/
theorem packetization_round_trip (mtu : ℤ) (hMTU : 1 ≤ (Packetizer.init mtu).iMTU)
    (hint : mtu < 2^31) (frames : List MediaPacket)
    (hflags : ∀ f ∈ frames, f.framestart = true ∧ f.frameend = true)
    (hnumbers : (frames.map numbers).Nodup) :
    ∃ s, (forM frames receive).run (Packetizer.init mtu) = .ok () s ∧
      (∀ p ∈ s.routed, (p.size : ℤ) ≤ (Packetizer.init mtu).iMTU) ∧
      (∀ bFragment bSeverity, ∃ t, (forM s.routed SirannonUnpacketizer.receive).run
          (SirannonUnpacketizer.init bFragment bSeverity) = .ok () t ∧
        List.Forall₂ Complete frames t.routed) ∧
      ∀ bFragment bSeverity (arrived : List MediaPacket), arrived.Sublist s.routed →
        ∀ out, out = (after ((forM arrived SirannonUnpacketizer.receive).run
          (SirannonUnpacketizer.init bFragment bSeverity))).routed →
        Recovers (Restores bFragment) frames out ∧ (out.map numbers).Nodup := by
  have hm : ((uint32 (Packetizer.init mtu).iMTU : ℕ) : ℤ) = (Packetizer.init mtu).iMTU := by
    simp only [Packetizer.init, uint32] at hMTU ⊢
    omega
  rcases packetizer_run (uint32 (Packetizer.init mtu).iMTU) (by omega) frames
    (Packetizer.init mtu) rfl hflags with ⟨gs, hrun, hmap, hpacks⟩
  have hrouted : ((Packetizer.init mtu).sent (packets gs)).routed = packets gs := rfl
  have hflags' : ∀ g ∈ gs, g.1.framestart = true ∧ g.1.frameend = true := fun g hg =>
    hflags g.1 (by rw [← hmap]; exact List.mem_map_of_mem hg)
  refine ⟨_, hrun, ?_, ?_, ?_⟩
  · intro p hp
    have := packs_small hpacks p hp
    omega
  · intro bFragment bSeverity
    have hsynced : Synced (List.Forall₂ Complete) bFragment [] 0
        (SirannonUnpacketizer.init bFragment bSeverity) :=
      ⟨⟨rfl, rfl, List.Forall₂.nil⟩, rfl, le_refl 0⟩
    have hgrows : Grows (List.Forall₂ Complete) := fun _ _ _ _ h hp =>
      List.rel_append h (List.Forall₂.cons hp List.Forall₂.nil)
    have hall := (unpacketizer_lossless (E := fun _ _ => False) hgrows hpacks hflags').exits _
      hsynced
    rw [hrouted]
    cases hresult : (forM (packets gs) SirannonUnpacketizer.receive).run
      (SirannonUnpacketizer.init bFragment bSeverity) with
    | ok a t =>
      rw [hresult, List.nil_append, hmap] at hall
      exact ⟨t, rfl, hall.ready.got⟩
    | error e t =>
      rw [hresult] at hall
      exact hall.elim
  · intro bFragment bSeverity arrived harrived out hout
    have hall := (unpacketizer_lossy bFragment hpacks hflags' arrived harrived).exits _
      (behind_init bFragment bSeverity)
    have hrecovered : Recovered bFragment frames out := by
      rw [hout, ← hmap]
      cases hresult : (forM arrived SirannonUnpacketizer.receive).run
        (SirannonUnpacketizer.init bFragment bSeverity) with
      | ok a t =>
        rw [hresult] at hall
        exact recovered_of_behind hall
      | error e t =>
        rw [hresult] at hall
        exact hall
    exact ⟨hrecovered, recovers_nodup numbers numbers restores_numbers hrecovered hnumbers⟩

def exampleFrame (framenumber : ℤ) (bytes : List UInt8) : MediaPacket :=
  { (MediaPacket.new .media .video bytes.length).pushed bytes with framenumber := framenumber }

def exampleFrames : List MediaPacket := [exampleFrame 1 [1, 2, 3], exampleFrame 2 [4, 5]]

theorem packetization_round_trip_short :
    (1 ≤ (Packetizer.init 72).iMTU ∧ (72 : ℤ) < 2^31 ∧
      (∀ f ∈ exampleFrames, f.framestart = true ∧ f.frameend = true) ∧
      (exampleFrames.map numbers).Nodup) ∧
    ∃ s, (forM exampleFrames receive).run (Packetizer.init 72) = .ok () s ∧
      ∀ bFragment bSeverity, ∃ t, (forM s.routed SirannonUnpacketizer.receive).run
          (SirannonUnpacketizer.init bFragment bSeverity) = .ok () t ∧
        List.Forall₂ Complete exampleFrames t.routed := by
  have hflags : ∀ f ∈ exampleFrames, f.framestart = true ∧ f.frameend = true := by decide
  rcases packetization_round_trip 72 (by decide) (by decide) exampleFrames hflags (by decide) with
    ⟨s, hrun, -, hlossless, -⟩
  exact ⟨⟨by decide, by decide, hflags, by decide⟩, s, hrun, hlossless⟩

/-- The packets that come out when nothing is lost. -/
def throughPut (mtu : ℤ) (bFragment : Bool) (frames : List MediaPacket) : List MediaPacket :=
  (after ((forM (after ((forM frames receive).run (Packetizer.init mtu))).routed
    SirannonUnpacketizer.receive).run (SirannonUnpacketizer.init bFragment false))).routed

/-- A frame without data is put out as it is, so not every packet put out has data. -/
theorem packetization_empty_frame :
    ¬ ∀ frames : List MediaPacket,
      (∀ f ∈ frames, f.framestart = true ∧ f.frameend = true) → (frames.map numbers).Nodup →
      ∀ p ∈ throughPut 1500 true frames, ∃ f ∈ frames, p.bytes ≠ [] ∧ p.bytes <+: f.bytes := by
  intro h
  have hout : (throughPut 1500 true [exampleFrame 1 []]).map MediaPacket.bytes = [[]] := by
    decide +kernel
  rcases List.map_eq_cons_iff.mp hout with ⟨p, ps, hp, hbytes, -⟩
  rcases h [exampleFrame 1 []] (by decide) (by decide) p (by rw [hp]; simp) with ⟨-, -, hne, -⟩
  exact hne hbytes

end Sirannon.SirannonPacketizer
