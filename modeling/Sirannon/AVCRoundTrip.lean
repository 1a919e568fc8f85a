import Sirannon.AVCReceiving

/-!
# H.264 round trip under loss

Whatever part of the packets arrives, the NAL units put out are some of those
sent, in order, and all of them when everything arrives. The end packet is
needed to send away what is still gathered.
-/

set_option autoImplicit false

namespace Sirannon.AVC
open MachineInt Bits Media Packetization StateError LossyDelivery

/-! ## Sizes -/

theorem tail_small {iMTU : ℤ} {f : MediaPacket} {u : ℤ} {ps : List MediaPacket}
    {data : List UInt8} (h : Tail iMTU f u ps data) : ∀ p ∈ ps, (p.size : ℤ) ≤ iMTU := by
  induction h with
  | last hp =>
    intro q hq
    rw [List.mem_singleton.mp hq]
    exact hp.small
  | more hp _ ih =>
    intro q hq
    rcases List.mem_cons.mp hq with rfl | hq
    · exact hp.small
    · exact ih q hq

theorem group_small {iMTU : ℤ} {members ps : List MediaPacket} (h : Group iMTU members ps) :
    ∀ p ∈ ps, (p.size : ℤ) ≤ iMTU := by
  intro q hq
  cases h with
  | single _ _ _ hsmall =>
    rw [List.mem_singleton.mp hq]
    exact hsmall
  | fragments hp hps _ =>
    rcases List.mem_cons.mp hq with rfl | hq
    · exact hp.small
    · exact tail_small hps q hq
  | aggregate hp =>
    rw [List.mem_singleton.mp hq]
    exact hp.small

/-! ## Runs of the unpacketizer -/

section
variable {ν : Type} (H : NALParser ν) {iMTU : ℤ}

/-- After the groups `done`: fragments of theirs may wait, and `R` relates what was put out. -/
structure After (R : List MediaPacket → List MediaPacket → Prop)
    (done : List (List MediaPacket × List MediaPacket)) (s : AVCUnpacketizer ν) : Prop where
  waiting : Waiting s
  marked : ∀ q ∈ s.vBuffer, ∃ f ∈ done.flatMap Prod.fst, numbers q = numbers f
  routed : R (done.flatMap Prod.fst) s.routed

theorem after_step {R : List MediaPacket → List MediaPacket → Prop} (hint : iMTU < 2^16)
    {done rest : List (List MediaPacket × List MediaPacket)}
    {g : List MediaPacket × List MediaPacket} (hg : Group iMTU g.1 g.2)
    (hunits : ∀ f ∈ g.1, NALUnit f)
    (hnumbers : (((done ++ g::rest).flatMap Prod.fst).map numbers).Nodup)
    {sub : List MediaPacket} (hsub : sub.Sublist g.2) {s : AVCUnpacketizer ν}
    (hs : After R done s)
    (hR : ∀ outs, (outs = [] ∨ List.Forall₂ Restores g.1 outs) →
      (sub = g.2 → List.Forall₂ Restores g.1 outs) →
      R (done.flatMap Prod.fst ++ g.1) (s.routed ++ outs)) :
    ∃ t, (forM sub (AVCUnpacketizer.receive H)).run s = .ok () t ∧ After R (done ++ [g]) t := by
  have hnew : ∀ f ∈ g.1, ∀ q ∈ s.vBuffer, numbers q ≠ numbers f := by
    intro f hf q hq heq
    rcases hs.marked q hq with ⟨f', hf', heq'⟩
    rw [List.flatMap_append, List.map_append, List.nodup_append] at hnumbers
    apply hnumbers.2.2 (numbers f') (List.mem_map_of_mem hf') (numbers f)
    · apply List.mem_map_of_mem
      rw [List.flatMap_cons]
      exact List.mem_append_left _ hf
    · rw [← heq', heq]
  rcases group_run H hint hg hunits hsub hs.waiting hnew with ⟨t, hrun, hout⟩
  rcases hout.routed with ⟨outs, hrouted, heither, hall⟩
  refine ⟨t, hrun, ?_⟩
  constructor
  · exact hout.waiting
  · intro q hq
    rw [List.flatMap_append, List.flatMap_singleton]
    rcases hout.marked q hq with hold | ⟨f, hf, heq⟩
    · rcases hs.marked q hold with ⟨f, hf, heq⟩
      exact ⟨f, List.mem_append_left _ hf, heq⟩
    · exact ⟨f, List.mem_append_right _ hf, heq⟩
  · rw [List.flatMap_append, List.flatMap_singleton, hrouted]
    exact hR outs heither hall

section
variable {gs : List (List MediaPacket × List MediaPacket)}

theorem lossy_run (hint : iMTU < 2^16) (hgroups : ∀ g ∈ gs, Group iMTU g.1 g.2)
    (hunits : ∀ g ∈ gs, ∀ f ∈ g.1, NALUnit f)
    (hnumbers : ((gs.flatMap Prod.fst).map numbers).Nodup) {arrived : List MediaPacket}
    (harrived : arrived.Sublist (gs.flatMap Prod.snd)) :
    Triple (After (Recovers Restores) []) (forM arrived (AVCUnpacketizer.receive H))
      (fun _ => After (Recovers Restores) gs) (fun _ _ => False) := by
  apply run_groups Prod.snd gs _ arrived harrived
  intro done g rest hall sub hsub
  have hmem : g ∈ gs := by
    rw [hall]
    simp
  rw [hall] at hnumbers
  constructor
  intro s hs
  rcases after_step H hint (hgroups g hmem) (hunits g hmem) hnumbers hsub hs (by
    intro outs heither _
    apply recovers_append hs.routed
    rcases heither with rfl | heither
    · exact recovers_nil Restores g.1
    · exact ⟨g.1, List.Sublist.refl g.1, heither⟩) with ⟨t, hrun, ht⟩
  rw [hrun]
  exact ht

theorem forM_groups {α β ε σ : Type} (recv : β → EStateM ε σ Unit) (pieces : α → List β)
    (items : List α) : forM (items.flatMap pieces) recv = forM items fun a => forM (pieces a) recv := by
  induction items with
  | nil => rfl
  | cons a items ih => rw [List.flatMap_cons, List.forM_append, ih, List.forM_cons]

theorem lossless_run (hint : iMTU < 2^16) (hgroups : ∀ g ∈ gs, Group iMTU g.1 g.2)
    (hunits : ∀ g ∈ gs, ∀ f ∈ g.1, NALUnit f)
    (hnumbers : ((gs.flatMap Prod.fst).map numbers).Nodup) :
    Triple (After (List.Forall₂ Restores) [])
      (forM (gs.flatMap Prod.snd) (AVCUnpacketizer.receive H))
      (fun _ => After (List.Forall₂ Restores) gs) (fun _ _ => False) := by
  rw [forM_groups]
  apply run_items
  intro done g rest hall
  have hmem : g ∈ gs := by
    rw [hall]
    simp
  rw [hall] at hnumbers
  constructor
  intro s hs
  rcases after_step H hint (hgroups g hmem) (hunits g hmem) hnumbers (List.Sublist.refl g.2) hs (by
    intro outs _ houts
    exact List.rel_append hs.routed (houts rfl)) with ⟨t, hrun, ht⟩
  rw [hrun]
  exact ht

end

def AVCUnpacketizer.init (bConformAnnexB : Bool) (oNAL : ν) : AVCUnpacketizer ν :=
  Unpacketizer.init ⟨bConformAnnexB, oNAL⟩

theorem after_init {R : List MediaPacket → List MediaPacket → Prop} (hR : R [] [])
    (bConformAnnexB : Bool) (oNAL : ν) : After R [] (AVCUnpacketizer.init bConformAnnexB oNAL) where
  waiting := by
    intro p hp
    simp [AVCUnpacketizer.init, Unpacketizer.init] at hp
  marked := by
    intro q hq
    simp [AVCUnpacketizer.init, Unpacketizer.init] at hq
  routed := hR

/-- The NAL unit put out is the one received, start codes apart. -/
def Original (f out : MediaPacket) : Prop := Restores (stripped f) out

theorem recovers_stripped {frames outs : List MediaPacket}
    (h : Recovers Restores (frames.map stripped) outs) : Recovers Original frames outs := by
  rcases h with ⟨kept, hsub, hall⟩
  rcases List.sublist_map_iff.mp hsub with ⟨kept', hsub', rfl⟩
  rw [List.forall₂_map_left_iff] at hall
  exact ⟨kept', hsub', hall⟩

end

def exampleNAL (framenumber subframenumber : ℤ) (frameend : Bool) (bytes : List UInt8) :
    MediaPacket :=
  { (MediaPacket.new .media .video bytes.length).pushed bytes with
    codec := .avc
    framenumber := framenumber
    subframenumber := subframenumber
    frameend := frameend }

def exampleNALs : List MediaPacket :=
  [exampleNAL 1 0 false [0, 0, 0, 1, 0x67, 1], exampleNAL 1 1 true [0x65, 1, 2, 3, 4, 5]]

def exampleEnd : MediaPacket := MediaPacket.new .end .video 0

/-- A parser that takes everything for a slice that is not the first one. -/
def exampleParser : NALParser Unit := ⟨fun _ _ => (), fun _ => 1, fun _ => 1⟩

theorem exampleNALs_input : ∀ f ∈ exampleNALs, Input f := by
  intro f hf
  simp only [exampleNALs, List.mem_cons, List.not_mem_nil, or_false] at hf
  rcases hf with rfl | rfl
  · exact ⟨by decide, by decide, by decide, by decide, by decide, by decide⟩
  · exact ⟨by decide, by decide, by decide, by decide, by decide, by decide⟩

/-- What comes out for NAL units without an end packet. -/
def throughPut (mtu : ℤ) (b bConformAnnexB : Bool) (frames : List MediaPacket) :
    List MediaPacket :=
  (after ((forM (after ((forM frames receive).run (AVCPacketizer.init mtu b))).routed
    (AVCUnpacketizer.receive exampleParser)).run
      (AVCUnpacketizer.init bConformAnnexB ()))).routed

end Sirannon.AVC
