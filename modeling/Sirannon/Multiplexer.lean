import Sirannon.MachineInt
import Sirannon.MediaPacket
import Sirannon.StateError

/-!
# Multiplexer

Packets wait in one queue for each xstream. When every queue is ready the
packet with the lowest DTS is taken; when a control packet waits at the front
of every queue they are replaced by one of their kind.
-/

set_option autoImplicit false

namespace Sirannon.Multiplexing
open Bits Media MachineInt StateError Std

structure Muxx where
  vQueue : List MediaPacket
  iMarker : ℤ
  iPID : ℤ
  iCC : ℤ
  iOrigSize : ℤ
  codec : CodecType
  iOrigDTS : ℤ
  deriving Repr

/-- `iOrigDTS` is not initialised by the source; it is written before it is read. -/
def Muxx.new (iPID : ℤ) : Muxx := ⟨[], 0, iPID, 0, -1, .NO, 0⟩

/-- `routed` records the packets handed to the next component. -/
structure Multiplexer where
  streamID : ℤ
  iUnit : ℤ
  iLast : ℤ
  iDelay : ℤ
  iMaxPID : ℤ
  iStreams : ℤ
  oStart : ℤ
  mMux : TreeMap ℤ Muxx
  routed : List MediaPacket

def Multiplexer.new (streamID : ℤ) : Multiplexer where
  streamID := streamID
  iUnit := 0
  iLast := -1
  iDelay := 1000
  iMaxPID := 0x100
  iStreams := -1
  oStart := 0
  mMux := {}
  routed := []

/-- `delay` and `streams` are the settings of the component. -/
def Multiplexer.init (streamID delay streams : ℤ) : Multiplexer :=
  { Multiplexer.new streamID with iDelay := int32 (delay*90), iStreams := streams }

abbrev Mux := EStateM SirannonException Multiplexer

def Multiplexer.queue (s : Multiplexer) (i : ℤ) : List MediaPacket :=
  match s.mMux[i]? with
  | some pMux => pMux.vQueue
  | none => []

def Multiplexer.opened (s : Multiplexer) (i : ℤ) : Multiplexer :=
  if i ∈ s.mMux then s
  else { s with mMux := s.mMux.insert i (Muxx.new s.iMaxPID), iMaxPID := s.iMaxPID+1 }

def Muxx.push (pMux : Muxx) (pckt : MediaPacket) : Muxx :=
  { pMux with
    vQueue := pMux.vQueue ++ [pckt]
    iMarker := if pckt.type = .media then pMux.iMarker else pMux.iMarker+1 }

def Multiplexer.modified (s : Multiplexer) (i : ℤ) (f : Muxx → Muxx) : Multiplexer :=
  { s with mMux := s.mMux.modify i f }

def Multiplexer.received (s : Multiplexer) (pckt : MediaPacket) : Multiplexer :=
  (s.opened pckt.xstream).modified pckt.xstream fun pMux => pMux.push pckt

/-- `receive_end` and `receive_reset` are the same. -/
def Multiplexer.receive (pckt : MediaPacket) : Mux Unit := modify fun s => s.received pckt

def Multiplexer.mux (s : Multiplexer) (pckt : MediaPacket) : Multiplexer :=
  { s with
    iUnit := s.iUnit+1
    routed := s.routed ++ [{ pckt with unitnumber := s.iUnit, xstream := s.streamID }] }

/-- Does the queue span the delay or hold a control packet? -/
def Muxx.ready (iDelay : ℤ) (pMux : Muxx) : Bool :=
  match pMux.vQueue.head?, pMux.vQueue.getLast? with
  | some front, some back =>
    ¬ (int32 (back.dts-front.dts) < iDelay ∧ pMux.iMarker = 0)
  | _, _ => false

def Multiplexer.checkMux (s : Multiplexer) : Bool :=
  if s.mMux.isEmpty then false
  else if 0 < s.iStreams ∧ (s.mMux.size : ℤ) < s.iStreams then false
  else s.mMux.toList.all fun e => e.2.ready s.iDelay

/-- The loop of `selectMux`: `iStream` and `iMin` are the lowest so far. -/
def selectLoop (iStream iMin : ℤ) : List (ℤ × Muxx) → Except SirannonException ℤ
  | [] => .ok iStream
  | (i, pMux)::rest =>
    match pMux.vQueue with
    | [] => .error (runtimeError "queue should not be empty at this point!")
    | front::_ =>
      if front.type ≠ .media then selectLoop iStream iMin rest
      else if front.dts < iMin then selectLoop i front.dts rest
      else selectLoop iStream iMin rest

def Multiplexer.selectMux (s : Multiplexer) : Except SirannonException ℤ :=
  selectLoop (-1) 0x7FFFFFFF s.mMux.toList

/-- The loop of `resetMux` that looks for the control packet with the highest DTS. -/
def resetLoop (pckt : Option MediaPacket) (iMax : ℤ) :
    List (ℤ × Muxx) → Except SirannonException (Option MediaPacket)
  | [] => .ok pckt
  | (_, pMux)::rest =>
    match pMux.vQueue with
    | [] => .error (runtimeError "Multiplexer corrupted 1")
    | front::_ =>
      if front.type = .media then .error (runtimeError "Multiplexer corrupted 2")
      else if iMax ≤ front.dts then resetLoop (some front) front.dts rest
      else resetLoop pckt iMax rest

/-- The unified control packet. -/
def control (pckt : MediaPacket) : MediaPacket :=
  { (MediaPacket.new .media .video 0).set_metadata pckt with content := .mixed }

/-- An end packet takes its queue and all that is in it along. -/
def Muxx.popControl (pMux : Muxx) : Option Muxx :=
  match pMux.vQueue with
  | [] => some pMux
  | front::rest =>
    if front.type = .end then none
    else some { pMux with vQueue := rest, iMarker := pMux.iMarker-1 }

def Multiplexer.popControls (s : Multiplexer) : Multiplexer :=
  { s with mMux := s.mMux.filterMap fun _ pMux => pMux.popControl }

def Multiplexer.resetMux (s : Multiplexer) : Except SirannonException (MediaPacket × Multiplexer) :=
  match resetLoop none 0 s.mMux.toList with
  | .error e => .error e
  | .ok none => .error (runtimeError "Multiplexer corrupted 3")
  | .ok (some pckt) => .ok (control pckt, s.popControls)

def Muxx.pop (pMux : Muxx) : Muxx := { pMux with vQueue := pMux.vQueue.tail }

def Multiplexer.popFront (s : Multiplexer) (iStream : ℤ) :
    Except SirannonException (MediaPacket × Multiplexer) :=
  match s.queue iStream with
  | [] => .error (undefinedBehaviour "front of an empty queue")
  | front::_ => .ok (front, s.modified iStream Muxx.pop)

def Multiplexer.noted (s : Multiplexer) (pckt : MediaPacket) : Multiplexer :=
  { s with iLast := if s.iLast < 0 then pckt.dts else s.iLast }

/-- One turn of the loop in `process`. -/
def Multiplexer.turn (s : Multiplexer) : Except SirannonException Multiplexer := do
  let iStream ← s.selectMux
  let (pckt, s) ← if iStream < 0 then s.resetMux else s.popFront iStream
  .ok ((s.noted pckt).mux pckt)

attribute [grind =] Multiplexer.turn

def Multiplexer.processLoop : ℕ → Mux Unit
  | 0 => pure ()
  | fuel+1 => do
    let s ← get
    if s.checkMux then do
      let t ← ofExcept s.turn
      set t
      processLoop fuel
    else pure ()

def Multiplexer.waiting (s : Multiplexer) : ℕ :=
  (s.mMux.keys.map fun i => (s.queue i).length).sum

/-- Every turn takes a packet out of a queue, so there are no more turns than packets. -/
def Multiplexer.process (oCurrent : ℤ) : Mux Unit := do
  let s ← get
  if oCurrent < s.oStart then pure ()
  else processLoop (s.waiting+1)

def Multiplexer.flushed (s : Multiplexer) : Multiplexer :=
  { s with mMux := {}, oStart := 0, iLast := -1 }

def Multiplexer.flush : Mux Unit := modify Multiplexer.flushed

/-! ## Queues -/

theorem queue_some {s : Multiplexer} {i : ℤ} {pMux : Muxx} (h : s.mMux[i]? = some pMux) :
    s.queue i = pMux.vQueue := by
  rw [Multiplexer.queue, h]

theorem queue_none {s : Multiplexer} {i : ℤ} (h : s.mMux[i]? = none) : s.queue i = [] := by
  rw [Multiplexer.queue, h]

theorem queue_entry {s : Multiplexer} {e : ℤ × Muxx} (h : e ∈ s.mMux.toList) :
    s.queue e.1 = e.2.vQueue :=
  queue_some (TreeMap.mem_toList_iff_getElem?_eq_some.mp h)

theorem entry_of_mem {s : Multiplexer} {i : ℤ} (h : i ∈ s.mMux) :
    ∃ pMux, (i, pMux) ∈ s.mMux.toList := by
  have hsome := TreeMap.getElem?_eq_some_getElem h
  exact ⟨s.mMux[i], TreeMap.mem_toList_iff_getElem?_eq_some.mpr hsome⟩

theorem mem_of_entry {s : Multiplexer} {e : ℤ × Muxx} (h : e ∈ s.mMux.toList) : e.1 ∈ s.mMux :=
  TreeMap.mem_iff_isSome_getElem?.mpr (by rw [TreeMap.mem_toList_iff_getElem?_eq_some.mp h]; rfl)

/-- What only the routing of packets changes. -/
structure Routing where
  streamID : ℤ
  iUnit : ℤ
  iStreams : ℤ
  routed : List MediaPacket

def Multiplexer.routing (s : Multiplexer) : Routing :=
  ⟨s.streamID, s.iUnit, s.iStreams, s.routed⟩

theorem opened_routing (s : Multiplexer) (i : ℤ) : (s.opened i).routing = s.routing := by
  rw [Multiplexer.opened]
  by_cases h : i ∈ s.mMux
  · rw [if_pos h]
  · rw [if_neg h]
    rfl

theorem received_routing (s : Multiplexer) (p : MediaPacket) :
    (s.received p).routing = s.routing := opened_routing s p.xstream

theorem opened_mem (s : Multiplexer) (i j : ℤ) : j ∈ (s.opened i).mMux ↔ i = j ∨ j ∈ s.mMux := by
  rw [Multiplexer.opened]
  by_cases h : i ∈ s.mMux
  · rw [if_pos h]
    constructor
    · exact .inr
    · rintro (rfl | hj)
      · exact h
      · exact hj
  · rw [if_neg h]
    simp [TreeMap.mem_insert]

theorem opened_queue (s : Multiplexer) (i j : ℤ) : (s.opened i).queue j = s.queue j := by
  rw [Multiplexer.opened]
  by_cases h : i ∈ s.mMux
  · rw [if_pos h]
  · rw [if_neg h]
    by_cases hij : i = j
    · subst hij
      rw [queue_none (TreeMap.getElem?_eq_none h)]
      have hnew : (s.mMux.insert i (Muxx.new s.iMaxPID))[i]? = some (Muxx.new s.iMaxPID) :=
        TreeMap.getElem?_insert_self
      rw [Multiplexer.queue, hnew]
      rfl
    · simp [Multiplexer.queue, TreeMap.getElem?_insert, hij]

theorem received_mem (s : Multiplexer) (p : MediaPacket) (j : ℤ) :
    j ∈ (s.received p).mMux ↔ p.xstream = j ∨ j ∈ s.mMux := by
  rw [← opened_mem, Multiplexer.received, Multiplexer.modified, TreeMap.mem_modify]

theorem modified_same {s : Multiplexer} {i : ℤ} {pMux : Muxx} (f : Muxx → Muxx)
    (h : s.mMux[i]? = some pMux) : (s.modified i f).queue i = (f pMux).vQueue := by
  apply queue_some
  rw [Multiplexer.modified, TreeMap.getElem?_modify_self, h]
  rfl

theorem modified_other (s : Multiplexer) {i j : ℤ} (f : Muxx → Muxx) (h : i ≠ j) :
    (s.modified i f).queue j = s.queue j := by
  have hne : compare i j ≠ .eq := by simpa using h
  rw [Multiplexer.queue, Multiplexer.modified, TreeMap.getElem?_modify, if_neg hne]
  rfl

theorem received_queue_same (s : Multiplexer) (p : MediaPacket) :
    (s.received p).queue p.xstream = s.queue p.xstream ++ [p] := by
  have hmem : p.xstream ∈ (s.opened p.xstream).mMux := (opened_mem s _ _).mpr (.inl rfl)
  have hsome := TreeMap.getElem?_eq_some_getElem hmem
  rw [← opened_queue s p.xstream, queue_some hsome]
  exact modified_same (fun pMux => pMux.push p) hsome

theorem received_queue_other (s : Multiplexer) (p : MediaPacket) {j : ℤ} (h : p.xstream ≠ j) :
    (s.received p).queue j = s.queue j := by
  rw [← opened_queue s p.xstream j]
  exact modified_other (s.opened p.xstream) (fun pMux => pMux.push p) h

theorem mem_of_queue {s : Multiplexer} {i : ℤ} {p : MediaPacket} {rest : List MediaPacket}
    (h : s.queue i = p::rest) : ∃ pMux, s.mMux[i]? = some pMux ∧ pMux.vQueue = p::rest := by
  cases hi : s.mMux[i]? with
  | none =>
    rw [queue_none hi] at h
    exact absurd h (List.cons_ne_nil p rest).symm
  | some pMux =>
    rw [queue_some hi] at h
    exact ⟨pMux, rfl, h⟩

/-! ## Readiness -/

theorem ready_queue {iDelay : ℤ} {pMux : Muxx} (h : pMux.ready iDelay = true) :
    ∃ front rest, pMux.vQueue = front::rest := by
  cases hq : pMux.vQueue with
  | nil => simp [Muxx.ready, hq] at h
  | cons front rest => exact ⟨front, rest, rfl⟩

theorem checkMux_queues {s : Multiplexer} (h : s.checkMux = true) {i : ℤ} (hi : i ∈ s.mMux) :
    ∃ front rest, s.queue i = front::rest := by
  rcases entry_of_mem hi with ⟨pMux, he⟩
  rw [Multiplexer.checkMux] at h
  split_ifs at h with h₁ h₂
  rw [queue_entry he]
  exact ready_queue (List.all_eq_true.mp h _ he)

theorem checkMux_streams {s : Multiplexer} (h : s.checkMux = true) (hpos : 0 < s.iStreams) :
    s.iStreams ≤ s.mMux.size := by
  rw [Multiplexer.checkMux] at h
  split_ifs at h with h₁ h₂
  omega

theorem checkMux_nonempty {s : Multiplexer} (h : s.checkMux = true) : s.mMux.isEmpty = false := by
  rw [Multiplexer.checkMux] at h
  split_ifs at h with h₁ h₂
  simpa using h₁

/-! ## The lowest packet -/

def Muxx.Front (pMux : Muxx) (front : MediaPacket) : Prop :=
  ∃ rest, pMux.vQueue = front::rest

/-- `iStream` and `iMin` after the entries `es`. -/
def Lowest (es : List (ℤ × Muxx)) (iStream iMin : ℤ) : Prop :=
  iStream = -1 ∧ iMin = 0x7FFFFFFF ∧
      (∀ e ∈ es, ∃ front, e.2.Front front ∧ front.type ≠ .media) ∨
    (∃ e ∈ es, ∃ front, e.2.Front front ∧ front.type = .media ∧ e.1 = iStream ∧
      front.dts = iMin) ∧ ∀ e ∈ es, ∃ front, e.2.Front front ∧
        (front.type ≠ .media ∨ iMin ≤ front.dts)

theorem lowest_nil : Lowest [] (-1) 0x7FFFFFFF := .inl ⟨rfl, rfl, by simp⟩

variable {es : List (ℤ × Muxx)} {e : ℤ × Muxx} {iStream iMin : ℤ} {front : MediaPacket}

theorem lowest_bound (h : Lowest es iStream iMin) :
    ∀ e ∈ es, ∃ front, e.2.Front front ∧ (front.type ≠ .media ∨ iMin ≤ front.dts) := by
  rcases h with ⟨-, -, hall⟩ | ⟨-, hall⟩
  · intro e he
    rcases hall e he with ⟨front, hf, htype⟩
    exact ⟨front, hf, .inl htype⟩
  · exact hall

theorem lowest_skip (h : Lowest es iStream iMin) (hfront : e.2.Front front)
    (hskip : front.type ≠ .media ∨ iMin ≤ front.dts) (hrange : front.type = .media →
      front.dts < 0x7FFFFFFF) : Lowest (es ++ [e]) iStream iMin := by
  rcases h with ⟨rfl, rfl, hall⟩ | ⟨⟨c, hc, hchosen⟩, hall⟩
  · left
    refine ⟨rfl, rfl, ?_⟩
    intro c hc
    rcases List.mem_append.mp hc with hc | hc
    · exact hall c hc
    · rw [List.mem_singleton.mp hc]
      refine ⟨front, hfront, ?_⟩
      intro hmedia
      have hlt := hrange hmedia
      rcases hskip with h | h
      · exact h hmedia
      · omega
  · right
    refine ⟨⟨c, List.mem_append_left _ hc, hchosen⟩, ?_⟩
    intro d hd
    rcases List.mem_append.mp hd with hd | hd
    · exact hall d hd
    · rw [List.mem_singleton.mp hd]
      exact ⟨front, hfront, hskip⟩

theorem lowest_take (h : Lowest es iStream iMin) (hfront : e.2.Front front)
    (hmedia : front.type = .media) (hlow : front.dts < iMin) :
    Lowest (es ++ [e]) e.1 front.dts := by
  right
  refine ⟨⟨e, by simp, front, hfront, hmedia, rfl, rfl⟩, ?_⟩
  intro c hc
  rcases List.mem_append.mp hc with hc | hc
  · rcases lowest_bound h c hc with ⟨f, hf, htype | hle⟩
    · exact ⟨f, hf, .inl htype⟩
    · exact ⟨f, hf, .inr (by omega)⟩
  · rw [List.mem_singleton.mp hc]
    exact ⟨front, hfront, .inr le_rfl⟩

theorem selectLoop_lowest (rest : List (ℤ × Muxx)) (h : Lowest es iStream iMin)
    (hall : ∀ e ∈ rest, ∃ front, e.2.Front front ∧ (front.type = .media →
      front.dts < 0x7FFFFFFF)) :
    ∃ i m, selectLoop iStream iMin rest = .ok i ∧ Lowest (es ++ rest) i m := by
  induction rest generalizing es iStream iMin with
  | nil => exact ⟨iStream, iMin, rfl, by rwa [List.append_nil]⟩
  | cons e rest ih =>
    rcases hall e List.mem_cons_self with ⟨front, ⟨tail, hq⟩, hrange⟩
    have hrest := fun c hc => hall c (List.mem_cons_of_mem e hc)
    have happend : es ++ e::rest = (es ++ [e]) ++ rest := by simp
    rw [selectLoop, hq, happend]
    dsimp only
    by_cases htype : front.type ≠ .media
    · rw [if_pos htype]
      exact ih (lowest_skip h ⟨tail, hq⟩ (.inl htype) hrange) hrest
    · rw [if_neg htype]
      have hmedia : front.type = .media := not_not.mp htype
      by_cases hlow : front.dts < iMin
      · rw [if_pos hlow]
        exact ih (lowest_take h ⟨tail, hq⟩ hmedia hlow) hrest
      · rw [if_neg hlow]
        exact ih (lowest_skip h ⟨tail, hq⟩ (.inr (by omega)) hrange) hrest

/-! ## The control packet with the highest DTS -/

def Highest (es : List (ℤ × Muxx)) (pckt : Option MediaPacket) (iMax : ℤ) : Prop :=
  match pckt with
  | none => iMax = 0 ∧ ∀ e ∈ es, ∃ front, e.2.Front front ∧ front.dts < 0
  | some p => iMax = p.dts ∧ 0 ≤ p.dts ∧ (∃ e ∈ es, e.2.Front p) ∧
      ∀ e ∈ es, ∃ front, e.2.Front front ∧ front.dts ≤ p.dts

theorem highest_nil : Highest [] none 0 := ⟨rfl, by simp⟩

theorem highest_skip {pckt : Option MediaPacket} {iMax : ℤ} (h : Highest es pckt iMax)
    (hfront : e.2.Front front) (hlow : front.dts < iMax) : Highest (es ++ [e]) pckt iMax := by
  cases pckt with
  | none =>
    rcases h with ⟨rfl, hall⟩
    refine ⟨rfl, ?_⟩
    intro c hc
    rcases List.mem_append.mp hc with hc | hc
    · exact hall c hc
    · rw [List.mem_singleton.mp hc]
      exact ⟨front, hfront, hlow⟩
  | some p =>
    rcases h with ⟨rfl, hpos, ⟨c, hc, hp⟩, hall⟩
    refine ⟨rfl, hpos, ⟨c, List.mem_append_left _ hc, hp⟩, ?_⟩
    intro d hd
    rcases List.mem_append.mp hd with hd | hd
    · exact hall d hd
    · rw [List.mem_singleton.mp hd]
      exact ⟨front, hfront, hlow.le⟩

theorem highest_take {pckt : Option MediaPacket} {iMax : ℤ} (h : Highest es pckt iMax)
    (hfront : e.2.Front front) (hhigh : iMax ≤ front.dts) :
    Highest (es ++ [e]) (some front) front.dts := by
  have hbefore : 0 ≤ front.dts ∧ ∀ c ∈ es, ∃ f, c.2.Front f ∧ f.dts ≤ front.dts := by
    cases pckt with
    | none =>
      rcases h with ⟨rfl, hall⟩
      refine ⟨hhigh, ?_⟩
      intro c hc
      rcases hall c hc with ⟨f, hf, hneg⟩
      exact ⟨f, hf, by omega⟩
    | some p =>
      rcases h with ⟨rfl, hpos, -, hall⟩
      refine ⟨hpos.trans hhigh, ?_⟩
      intro c hc
      rcases hall c hc with ⟨f, hf, hle⟩
      exact ⟨f, hf, hle.trans hhigh⟩
  refine ⟨rfl, hbefore.1, ⟨e, by simp, hfront⟩, ?_⟩
  intro c hc
  rcases List.mem_append.mp hc with hc | hc
  · exact hbefore.2 c hc
  · rw [List.mem_singleton.mp hc]
    exact ⟨front, hfront, le_rfl⟩

theorem resetLoop_highest {pckt : Option MediaPacket} {iMax : ℤ} (rest : List (ℤ × Muxx))
    (h : Highest es pckt iMax)
    (hall : ∀ e ∈ rest, ∃ front, e.2.Front front ∧ front.type ≠ .media) :
    ∃ p m, resetLoop pckt iMax rest = .ok p ∧ Highest (es ++ rest) p m := by
  induction rest generalizing es pckt iMax with
  | nil => exact ⟨pckt, iMax, rfl, by rwa [List.append_nil]⟩
  | cons e rest ih =>
    rcases hall e List.mem_cons_self with ⟨front, ⟨tail, hq⟩, htype⟩
    have hrest := fun c hc => hall c (List.mem_cons_of_mem e hc)
    have happend : es ++ e::rest = (es ++ [e]) ++ rest := by simp
    rw [resetLoop, hq, happend]
    dsimp only
    rw [if_neg htype]
    by_cases hhigh : iMax ≤ front.dts
    · rw [if_pos hhigh]
      exact ih (highest_take h ⟨tail, hq⟩ hhigh) hrest
    · rw [if_neg hhigh]
      exact ih (highest_skip h ⟨tail, hq⟩ (by omega)) hrest

/-! ## What was found -/

/-- The first of the lowest media packets is selected, whatever the range of the DTS. -/
theorem selectLoop_first {i : ℤ} (hsorted : es.Pairwise fun a b => a.1 < b.1)
    (h : selectLoop iStream iMin es = .ok i) :
    (i = iStream ∧ ∀ e ∈ es, ∃ front, e.2.Front front ∧ (front.type = .media → iMin ≤ front.dts)) ∨
      ∃ e ∈ es, ∃ front, e.2.Front front ∧ front.type = .media ∧ e.1 = i ∧ front.dts < iMin ∧
        ∀ c ∈ es, ∃ f, c.2.Front f ∧
          (f.type = .media → front.dts < f.dts ∨ front.dts = f.dts ∧ i ≤ c.1) := by
  induction es generalizing iStream iMin with
  | nil =>
    cases h
    exact Or.inl ⟨rfl, by simp⟩
  | cons e es ih =>
    obtain ⟨hfirst, hsorted⟩ := List.pairwise_cons.1 hsorted
    rw [selectLoop] at h
    cases hqueue : e.2.vQueue with
    | nil =>
      rw [hqueue] at h
      cases h
    | cons front rest =>
      rw [hqueue] at h
      dsimp only at h
      have hfront : e.2.Front front := ⟨rest, hqueue⟩
      by_cases hlow : front.type = .media ∧ front.dts < iMin
      · rw [if_neg (not_not.2 hlow.1), if_pos hlow.2] at h
        right
        rcases ih hsorted h with ⟨rfl, hall⟩ | ⟨c, hc, f, hf, hmedia, hi, hless, hall⟩
        · refine ⟨e, List.mem_cons_self, front, hfront, hlow.1, rfl, hlow.2, ?_⟩
          intro c hc
          rcases List.mem_cons.1 hc with rfl | hc
          · exact ⟨front, hfront, fun _ => Or.inr ⟨rfl, le_rfl⟩⟩
          · obtain ⟨f, hf, hle⟩ := hall c hc
            have hbehind := hfirst c hc
            refine ⟨f, hf, fun hmedia => ?_⟩
            have hle := hle hmedia
            omega
        · refine ⟨c, List.mem_cons_of_mem e hc, f, hf, hmedia, hi, by omega, ?_⟩
          intro d hd
          rcases List.mem_cons.1 hd with rfl | hd
          · exact ⟨front, hfront, fun _ => Or.inl hless⟩
          · exact hall d hd
      · have hskip : selectLoop iStream iMin es = .ok i := by
          split_ifs at h with h₁ h₂
          · exact h
          · exact absurd ⟨not_not.1 h₁, h₂⟩ hlow
          · exact h
        have hle : front.type = .media → iMin ≤ front.dts := by
          intro hmedia
          by_contra hlt
          exact hlow ⟨hmedia, by omega⟩
        rcases ih hsorted hskip with ⟨rfl, hall⟩ | ⟨c, hc, f, hf, hmedia, hi, hless, hall⟩
        · refine Or.inl ⟨rfl, ?_⟩
          intro c hc
          rcases List.mem_cons.1 hc with rfl | hc
          · exact ⟨front, hfront, hle⟩
          · exact hall c hc
        · right
          refine ⟨c, List.mem_cons_of_mem e hc, f, hf, hmedia, hi, hless, ?_⟩
          intro d hd
          rcases List.mem_cons.1 hd with rfl | hd
          · refine ⟨front, hfront, fun hkind => ?_⟩
            have hle := hle hkind
            omega
          · exact hall d hd

theorem selectLoop_ok (h : ∀ e ∈ es, e.2.vQueue ≠ []) : ∃ i, selectLoop iStream iMin es = .ok i := by
  induction es generalizing iStream iMin with
  | nil => exact ⟨iStream, rfl⟩
  | cons e es ih =>
    have hrest := fun c hc => h c (List.mem_cons_of_mem e hc)
    rw [selectLoop]
    cases hqueue : e.2.vQueue with
    | nil => exact absurd hqueue (h e List.mem_cons_self)
    | cons front rest =>
      dsimp only
      split_ifs
      · exact ih hrest
      · exact ih hrest
      · exact ih hrest

theorem entries_sorted (s : Multiplexer) : s.mMux.toList.Pairwise fun a b => a.1 < b.1 := by
  have hordered : s.mMux.toList.Pairwise fun a b => compare a.1 b.1 = .lt :=
    TreeMap.ordered_keys_toList
  exact hordered.imp fun h => compare_lt_iff_lt.1 h

/-- A control packet that is found stands at the front of a queue, and none has a higher DTS. -/
theorem resetLoop_selects {pckt : Option MediaPacket} {iMax : ℤ} {p : MediaPacket}
    (hmax : ∀ q, pckt = some q → q.dts = iMax) (h : resetLoop pckt iMax es = .ok (some p)) :
    (pckt = some p ∨ ∃ e ∈ es, e.2.Front p) ∧ iMax ≤ p.dts ∧
      ∀ e ∈ es, ∃ front, e.2.Front front ∧ front.type ≠ .media ∧ front.dts ≤ p.dts := by
  induction es generalizing pckt iMax with
  | nil =>
    have hp : pckt = some p := Except.ok.inj h
    exact ⟨Or.inl hp, (hmax p hp).ge, by simp⟩
  | cons e es ih =>
    rw [resetLoop] at h
    cases hqueue : e.2.vQueue with
    | nil =>
      rw [hqueue] at h
      cases h
    | cons front rest =>
      rw [hqueue] at h
      dsimp only at h
      have hfront : e.2.Front front := ⟨rest, hqueue⟩
      by_cases hmedia : front.type = .media
      · rw [if_pos hmedia] at h
        cases h
      · rw [if_neg hmedia] at h
        by_cases hhigh : iMax ≤ front.dts
        · rw [if_pos hhigh] at h
          obtain ⟨hfound, hle, hall⟩ := ih (by
            intro q hq
            rw [Option.some.inj hq]) h
          refine ⟨Or.inr ?_, hhigh.trans hle, ?_⟩
          · rcases hfound with hp | ⟨c, hc, hp⟩
            · rw [Option.some.inj hp] at hfront
              exact ⟨e, List.mem_cons_self, hfront⟩
            · exact ⟨c, List.mem_cons_of_mem e hc, hp⟩
          · intro c hc
            rcases List.mem_cons.1 hc with rfl | hc
            · exact ⟨front, hfront, hmedia, hle⟩
            · exact hall c hc
        · rw [if_neg hhigh] at h
          obtain ⟨hfound, hle, hall⟩ := ih hmax h
          refine ⟨?_, hle, ?_⟩
          · rcases hfound with hp | ⟨c, hc, hp⟩
            · exact Or.inl hp
            · exact Or.inr ⟨c, List.mem_cons_of_mem e hc, hp⟩
          · intro c hc
            rcases List.mem_cons.1 hc with rfl | hc
            · exact ⟨front, hfront, hmedia, by omega⟩
            · exact hall c hc

/-! ## The queues after a round -/

theorem popControls_get (s : Multiplexer) (i : ℤ) :
    s.popControls.mMux[i]? = s.mMux[i]?.bind Muxx.popControl := by
  rw [Multiplexer.popControls, TreeMap.getElem?_filterMap]
  cases s.mMux[i]? <;> rfl

theorem popControls_mem {s : Multiplexer} {i : ℤ} (h : i ∈ s.popControls.mMux) : i ∈ s.mMux := by
  rw [TreeMap.mem_iff_isSome_getElem?, popControls_get] at h
  rw [TreeMap.mem_iff_isSome_getElem?]
  cases hi : s.mMux[i]? with
  | none => simp [hi] at h
  | some pMux => rfl

/-- When an end packet has nothing behind it, every queue loses its front. -/
theorem popControls_queue {s : Multiplexer} {i : ℤ}
    (hend : ∀ front rest, s.queue i = front::rest → front.type = .end → rest = []) :
    s.popControls.queue i = (s.queue i).tail := by
  rw [Multiplexer.queue, popControls_get]
  cases hi : s.mMux[i]? with
  | none => rw [queue_none hi]; rfl
  | some pMux =>
    rw [queue_some hi] at hend ⊢
    cases hq : pMux.vQueue with
    | nil => simp [Muxx.popControl, hq]
    | cons front rest =>
      by_cases htype : front.type = .end
      · rw [hend front rest hq htype]
        simp [Muxx.popControl, hq, htype]
      · simp [Muxx.popControl, hq, htype]

theorem popFront_queue {s : Multiplexer} {i : ℤ} {front : MediaPacket} {rest : List MediaPacket}
    (h : s.queue i = front::rest) :
    s.popFront i = .ok (front, s.modified i Muxx.pop) ∧
      (s.modified i Muxx.pop).queue i = rest := by
  rcases mem_of_queue h with ⟨pMux, hi, hq⟩
  constructor
  · rw [Multiplexer.popFront, h]
  · rw [modified_same Muxx.pop hi, Muxx.pop, hq]
    rfl

/-! ## Turns -/

theorem turn_media {s : Multiplexer} {i : ℤ} {front : MediaPacket} {rest : List MediaPacket}
    (hselect : s.selectMux = .ok i) (hi : 0 ≤ i) (hqueue : s.queue i = front::rest) :
    s.turn = .ok (((s.modified i Muxx.pop).noted front).mux front) := by
  have hnot : ¬ i < 0 := by omega
  rw [Multiplexer.turn, hselect]
  simp only [bind, Except.bind, hnot, if_false, (popFront_queue hqueue).1]

theorem turn_control {s : Multiplexer} {i : ℤ} {pckt : MediaPacket}
    (hselect : s.selectMux = .ok i) (hi : i < 0)
    (hreset : resetLoop none 0 s.mMux.toList = .ok (some pckt)) :
    s.turn = .ok ((s.popControls.noted (control pckt)).mux (control pckt)) := by
  rw [Multiplexer.turn, hselect]
  simp only [bind, Except.bind, hi, if_true, Multiplexer.resetMux, hreset]

/-- When every control packet of a round has a negative DTS the multiplexer gives up. -/
theorem turn_corrupted {s : Multiplexer} {i : ℤ} (hselect : s.selectMux = .ok i) (hi : i < 0)
    (hall : ∀ e ∈ s.mMux.toList, ∃ front, e.2.Front front ∧ front.type ≠ .media ∧ front.dts < 0) :
    s.turn = .error (runtimeError "Multiplexer corrupted 3") := by
  have hnone : ∀ es : List (ℤ × Muxx), (∀ e ∈ es, e ∈ s.mMux.toList) →
      resetLoop none 0 es = .ok none := by
    intro es
    induction es with
    | nil => intro _; rfl
    | cons e es ih =>
      intro hes
      rcases hall e (hes e List.mem_cons_self) with ⟨front, ⟨rest, hq⟩, htype, hneg⟩
      rw [resetLoop, hq]
      dsimp only
      rw [if_neg htype, if_neg (by omega)]
      exact ih fun c hc => hes c (List.mem_cons_of_mem e hc)
  rw [Multiplexer.turn, hselect]
  simp only [bind, Except.bind, hi, if_true, Multiplexer.resetMux, hnone _ fun _ h => h]

/-! ## The loop ends -/

theorem turn_cases {s t : Multiplexer} (h : s.turn = .ok t) :
    (∃ i front rest, s.queue i = front::rest ∧ front.type = .media ∧
      t = ((s.modified i Muxx.pop).noted front).mux front) ∨
    ∃ pckt, resetLoop none 0 s.mMux.toList = .ok (some pckt) ∧
      t = (s.popControls.noted (control pckt)).mux (control pckt) := by
  rw [Multiplexer.turn] at h
  cases hselect : s.selectMux with
  | error e => simp [hselect, bind, Except.bind] at h
  | ok i =>
    simp only [hselect, bind, Except.bind] at h
    by_cases hi : i < 0
    · simp only [hi, if_true, Multiplexer.resetMux] at h
      cases hreset : resetLoop none 0 s.mMux.toList with
      | error e => simp [hreset] at h
      | ok p =>
        cases p with
        | none => simp [hreset] at h
        | some pckt =>
          simp only [hreset, Except.ok.injEq] at h
          exact .inr ⟨pckt, rfl, h.symm⟩
    · simp only [hi, if_false] at h
      rcases selectLoop_first (entries_sorted s) hselect with
        ⟨hnone, -⟩ | ⟨e, he, front, ⟨rest, hqueue⟩, hmedia, hstream, -, -⟩
      · omega
      · rw [← queue_entry he, hstream] at hqueue
        simp only [(popFront_queue hqueue).1, Except.ok.injEq] at h
        exact .inl ⟨i, front, rest, hqueue, hmedia, h.symm⟩

theorem waiting_sum (s : Multiplexer) :
    s.waiting = ∑ i ∈ s.mMux.keys.toFinset, (s.queue i).length := by
  rw [Multiplexer.waiting, List.sum_toFinset _ TreeMap.nodup_keys]

theorem waiting_lt {s t : Multiplexer} (hkeys : ∀ i ∈ t.mMux, i ∈ s.mMux)
    (hle : ∀ i, (t.queue i).length ≤ (s.queue i).length) {j : ℤ} (hj : j ∈ s.mMux)
    (hlt : (t.queue j).length < (s.queue j).length) : t.waiting < s.waiting := by
  have hsub : t.mMux.keys.toFinset ⊆ s.mMux.keys.toFinset := by
    intro i hi
    rw [List.mem_toFinset, TreeMap.mem_keys] at hi ⊢
    exact hkeys i hi
  have hj' : j ∈ s.mMux.keys.toFinset := by
    rw [List.mem_toFinset, TreeMap.mem_keys]
    exact hj
  rw [waiting_sum, waiting_sum]
  calc ∑ i ∈ t.mMux.keys.toFinset, (t.queue i).length
      ≤ ∑ i ∈ s.mMux.keys.toFinset, (t.queue i).length := Finset.sum_le_sum_of_subset hsub
    _ < ∑ i ∈ s.mMux.keys.toFinset, (s.queue i).length :=
        Finset.sum_lt_sum (fun i _ => hle i) ⟨j, hj', hlt⟩

theorem popControls_shorter (s : Multiplexer) (i : ℤ) :
    (s.popControls.queue i).length ≤ (s.queue i).length - 1 := by
  rw [Multiplexer.queue, popControls_get]
  cases hi : s.mMux[i]? with
  | none => simp
  | some pMux =>
    rw [queue_some hi]
    cases hq : pMux.vQueue with
    | nil => simp [Muxx.popControl, hq]
    | cons front rest => by_cases htype : front.type = .end <;> simp [Muxx.popControl, hq, htype]

theorem resetLoop_nonempty {pckt : Option MediaPacket} {iMax : ℤ} {es : List (ℤ × Muxx)}
    {p : Option MediaPacket} (h : resetLoop pckt iMax es = .ok p) :
    ∀ e ∈ es, e.2.vQueue ≠ [] := by
  induction es generalizing pckt iMax with
  | nil => simp
  | cons e es ih =>
    rw [resetLoop] at h
    cases hq : e.2.vQueue with
    | nil => simp [hq] at h
    | cons front rest =>
      simp only [hq] at h
      have hrest : ∀ c ∈ es, c.2.vQueue ≠ [] := by
        split_ifs at h with h₁ h₂
        · exact ih h
        · exact ih h
      intro c hc
      rcases List.mem_cons.mp hc with rfl | hc
      · rw [hq]
        exact List.cons_ne_nil front rest
      · exact hrest c hc

theorem turn_waiting {s t : Multiplexer} (h : s.turn = .ok t) : t.waiting < s.waiting := by
  rcases turn_cases h with ⟨i, front, rest, hq, -, rfl⟩ | ⟨pckt, hreset, rfl⟩
  · rcases mem_of_queue hq with ⟨pMux, hget, -⟩
    have hi : i ∈ s.mMux := TreeMap.mem_iff_isSome_getElem?.mpr (by rw [hget]; rfl)
    have hpop : (s.modified i Muxx.pop).queue i = rest := (popFront_queue hq).2
    show (s.modified i Muxx.pop).waiting < s.waiting
    apply waiting_lt (fun j hj => TreeMap.mem_modify.mp hj) _ hi
    · rw [hpop, hq]
      simp
    · intro j
      by_cases hij : i = j
      · subst hij
        rw [hpop, hq]
        simp
      · rw [modified_other s Muxx.pop hij]
  · show s.popControls.waiting < s.waiting
    cases hlist : s.mMux.toList with
    | nil => simp [hlist, resetLoop] at hreset
    | cons e es =>
      have he : e ∈ s.mMux.toList := by
        rw [hlist]
        exact List.mem_cons_self
      have hne := resetLoop_nonempty hreset e he
      rw [← queue_entry he] at hne
      have hpos := List.length_pos_iff.mpr hne
      have hshort := popControls_shorter s e.1
      apply waiting_lt (fun j hj => popControls_mem hj) _ (mem_of_entry he)
      · omega
      · intro j
        have := popControls_shorter s j
        omega

theorem processLoop_exhausts (fuel : ℕ) {s t : Multiplexer} (hfuel : s.waiting < fuel)
    (h : (Multiplexer.processLoop fuel).run s = .ok () t) : t.checkMux = false := by
  induction fuel generalizing s with
  | zero => omega
  | succ fuel ih =>
    rw [Multiplexer.processLoop, run_get_bind] at h
    by_cases hready : s.checkMux = true
    · rw [if_pos hready] at h
      cases hturn : s.turn with
      | error e =>
        rw [run_ofExcept_error hturn] at h
        cases h
      | ok u =>
        rw [run_ofExcept_bind hturn] at h
        have hless := turn_waiting hturn
        exact ih (by omega) h
    · rw [if_neg hready] at h
      cases h
      simpa using hready

/-- `process` returns only when the multiplexer is not ready any more. -/
theorem process_exhausts {oCurrent : ℤ} {s t : Multiplexer} (hstart : s.oStart ≤ oCurrent)
    (h : (Multiplexer.process oCurrent).run s = .ok () t) : t.checkMux = false := by
  rw [Multiplexer.process, run_get_bind, if_neg (by omega)] at h
  exact processLoop_exhausts (s.waiting+1) (by omega) h

end Sirannon.Multiplexing
