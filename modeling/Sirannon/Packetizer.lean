import Sirannon.MachineInt
import Sirannon.MediaPacket
import Sirannon.StateError

/-!
# Packetizers and unpacketizers

What all packetizers share: packets are numbered through and handed to the
next component. What most unpacketizers share: packets with the same frame and
subframe number are collected, and unpacked when the next frame starts.
-/

set_option autoImplicit false

namespace Sirannon.Packetization
open Bits Media StateError

/-- `routed` records the packets handed to the next component. -/
structure Packetizer where
  iUnit : ℤ
  iMTU : ℤ
  routed : List MediaPacket
  deriving DecidableEq, Repr

def Packetizer.init (mtu : ℤ) : Packetizer := ⟨0, mtu-20-20-18-12, []⟩

/-- `pckt->unitnumber = iUnit++; route( pckt );` -/
def Packetizer.number (s : Packetizer) (pckt : MediaPacket) : Packetizer :=
  { s with iUnit := s.iUnit+1, routed := s.routed ++ [pckt.setUnit s.iUnit] }

def Packetizer.sent (s : Packetizer) (ps : List MediaPacket) : Packetizer :=
  { s with iUnit := s.iUnit+ps.length, routed := s.routed ++ ps }

theorem sent_nil (s : Packetizer) : s.sent [] = s := by
  simp [Packetizer.sent]

theorem number_sent (s : Packetizer) (p : MediaPacket) (ps : List MediaPacket) :
    (s.number p).sent ps = s.sent (p.setUnit s.iUnit::ps) := by
  simp only [Packetizer.number, Packetizer.sent, List.length_cons, List.append_assoc,
    List.singleton_append]
  congr 1
  push_cast
  ring

theorem number_sent_nil (s : Packetizer) (p : MediaPacket) :
    s.number p = s.sent [p.setUnit s.iUnit] := by
  simp [Packetizer.number, Packetizer.sent]

theorem sent_sent (s : Packetizer) (ps qs : List MediaPacket) :
    (s.sent ps).sent qs = s.sent (ps ++ qs) := by
  simp only [Packetizer.sent, List.append_assoc, List.length_append]
  congr 1
  push_cast
  ring

/-- `own` is what a class that derives from `Unpacketizer` adds to its state. -/
structure Unpacketizer (δ : Type) where
  vBuffer : List MediaPacket
  iUnit : ℤ
  routed : List MediaPacket
  own : δ

def Unpacketizer.init {δ : Type} (own : δ) : Unpacketizer δ := ⟨[], 0, [], own⟩

abbrev Unpack (δ : Type) := EStateM SirannonException (Unpacketizer δ)

variable {δ : Type}

/-- `pckt->unitnumber = iUnit++; route( pckt );` -/
def Unpacketizer.emit (s : Unpacketizer δ) (pckt : MediaPacket) : Unpacketizer δ :=
  { s with iUnit := s.iUnit+1, routed := s.routed ++ [pckt.setUnit s.iUnit] }

def drop : Unpack δ Unit := modify fun s => { s with vBuffer := [] }

/-- Does the packet belong to another frame than the last one stored? -/
def Unpacketizer.isNew (s : Unpacketizer δ) (pPckt : MediaPacket) : Bool :=
  match s.vBuffer.getLast? with
  | none => false
  | some back => back.subframenumber ≠ pPckt.subframenumber ∨
      back.framenumber ≠ pPckt.framenumber

def Unpacketizer.receive (unpack : Unpack δ Unit) (pPckt : MediaPacket) : Unpack δ Unit := do
  let s ← get
  if s.isNew pPckt then do
    unpack
    modify fun s => { s with vBuffer := s.vBuffer ++ [pPckt] }
  else modify fun s => { s with vBuffer := s.vBuffer ++ [pPckt] }

def Unpacketizer.receive_end (unpack : Unpack δ Unit) (pckt : MediaPacket) : Unpack δ Unit := do
  unpack
  modify fun s => s.emit pckt

def Unpacketizer.stored (s : Unpacketizer δ) (pPckt : MediaPacket) : Unpacketizer δ :=
  { s with vBuffer := s.vBuffer ++ [pPckt] }

theorem isNew_empty {s : Unpacketizer δ} (p : MediaPacket) (h : s.vBuffer = []) :
    s.isNew p = false := by
  rw [Unpacketizer.isNew, h]
  rfl

theorem isNew_iff {s : Unpacketizer δ} {q : List MediaPacket} {back : MediaPacket}
    (p : MediaPacket) (h : s.vBuffer = q ++ [back]) :
    s.isNew p = true ↔ numbers back ≠ numbers p := by
  rw [Unpacketizer.isNew, h, List.getLast?_append_of_ne_nil _ (by simp), List.getLast?_singleton]
  simp only [decide_eq_true_eq, numbers, ne_eq, Prod.mk.injEq]
  tauto

theorem receive_stored {unpack : Unpack δ Unit} {s : Unpacketizer δ} {p : MediaPacket}
    (h : s.isNew p = false) : (Unpacketizer.receive unpack p).run s = .ok () (s.stored p) := by
  rw [Unpacketizer.receive, run_get_bind, h]
  rfl

theorem receive_unpacked {unpack : Unpack δ Unit} {s t : Unpacketizer δ} {p : MediaPacket}
    (h : s.isNew p = true) (hrun : unpack.run s = .ok () t) :
    (Unpacketizer.receive unpack p).run s = .ok () (t.stored p) := by
  rw [Unpacketizer.receive, run_get_bind, if_pos h, run_bind_of_ok hrun]
  rfl

end Sirannon.Packetization
