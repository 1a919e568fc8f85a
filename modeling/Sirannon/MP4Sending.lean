import Sirannon.MP4Packetizer

/-!
# What the MPEG-4 packetizer sends

Every packet belongs to a group: the fragments of one frame, or one packet for
several frames. The frames received are those of the groups sent, in order,
and then those still on the stack.
-/

set_option autoImplicit false

namespace Sirannon.MP4
open MachineInt Bits BitString Media Packetization StateError

/-! ## Headers -/

/-- The bytes of a header are the bits of its fields. -/
structure Header (fields : List (ℕ × ℕ)) (n : ℕ) (h : List UInt8) : Prop where
  bits : ofBytes h = fieldBits fields
  length : h.length = n

theorem header_ok (fields : List (ℕ × ℕ)) (n : ℕ) (hlen : (fields.map Prod.fst).sum = 8*n)
    (hn : n ≤ 1500) (hpos : ∀ f ∈ fields, 0 < f.1) :
    ∃ h, header fields = .ok h ∧ Header fields n h := by
  rcases OBits.writes_new fields hlen hn hpos with ⟨o, ho, hbits, hlength⟩
  refine ⟨o.data, ?_, hbits, hlength⟩
  rw [header, ho]
  rfl

/-! ## Fragments -/

/-- What the packets of a frame or an aggregate have in common with the first frame in it. -/
structure Marked (frame p : MediaPacket) : Prop where
  type : p.type = frame.type
  codec : p.codec = frame.codec
  mux : p.mux = frame.mux
  framenumber : p.framenumber = frame.framenumber
  subframenumber : p.subframenumber = frame.subframenumber

structure Fragment (frame : MediaPacket) (iSize : ℕ) (p : MediaPacket) (chunk : List UInt8) :
    Prop where
  marked : Marked frame p
  nonempty : chunk ≠ []
  audio : frame.codec = .mp4a →
    ∃ h iUnit, p.bytes = h ++ chunk ∧ Header [(16, 16), (13, iSize), (3, iUnit)] 4 h
  video : frame.codec ≠ .mp4a → p.bytes = chunk

def MP4Packetizer.sent (s : MP4Packetizer) (ps : List MediaPacket) : MP4Packetizer :=
  { s with toPacketizer := s.toPacketizer.sent ps }

theorem mp4_number_sent (s : MP4Packetizer) (p : MediaPacket) (ps : List MediaPacket) :
    (s.number p).sent ps = s.sent (p.setUnit s.iUnit::ps) := by
  simp only [MP4Packetizer.number, MP4Packetizer.sent, number_sent]

theorem mp4_number_sent_nil (s : MP4Packetizer) (p : MediaPacket) :
    s.number p = s.sent [p.setUnit s.iUnit] := by
  simp only [MP4Packetizer.number, MP4Packetizer.sent, number_sent_nil]

theorem fragmentHeader_ok (codec : CodecType) (iSize : ℕ) (iUnit : ℤ) :
    ∃ h, fragmentHeader codec iSize iUnit = .ok h ∧ h.length ≤ 4 ∧
      (codec = .mp4a → Header [(16, 16), (13, iSize), (3, uint32 iUnit)] 4 h) ∧
      (codec ≠ .mp4a → h = []) := by
  by_cases hcodec : codec = .mp4a
  · rcases header_ok [(16, 16), (13, iSize), (3, uint32 iUnit)] 4 rfl (by omega) (by simp) with
      ⟨h, hrun, hheader⟩
    refine ⟨h, ?_, by rw [hheader.length], fun _ => hheader, fun hne => absurd hcodec hne⟩
    rw [fragmentHeader, if_pos hcodec]
    exact hrun
  · refine ⟨[], ?_, by simp, fun heq => absurd heq hcodec, fun _ => rfl⟩
    rw [fragmentHeader, if_neg hcodec]

theorem fragmentLoop_empty (iSize fuel : ℕ) (pPckt : MediaPacket) (iFrag : ℕ)
    (h : pPckt.size = 0) : fragmentLoop iSize fuel pPckt iFrag = pure () := by
  cases fuel with
  | zero => rfl
  | succ fuel => rw [fragmentLoop, if_pos h]

theorem fragmentLoop_run (iSize fuel : ℕ) (pPckt : MediaPacket) (iFrag : ℕ) (s : MP4Packetizer)
    (hMTU : 4 < s.iMTU) (hint : s.iMTU < 2^31) (hfuel : pPckt.size ≤ fuel) :
    ∃ ps chunks, (fragmentLoop iSize fuel pPckt iFrag).run s = .ok () (s.sent ps) ∧
      List.Forall₂ (Fragment pPckt iSize) ps chunks ∧ chunks.flatten = pPckt.bytes := by
  induction fuel generalizing pPckt iFrag s with
  | zero =>
    have hnil : pPckt.bytes = [] := List.length_eq_zero_iff.mp (Nat.le_zero.mp hfuel)
    refine ⟨[], [], ?_, List.Forall₂.nil, by simp [hnil]⟩
    simp [fragmentLoop, MP4Packetizer.sent, sent_nil]
  | succ fuel ih =>
    by_cases hempty : pPckt.size = 0
    · have hnil : pPckt.bytes = [] := List.length_eq_zero_iff.mp hempty
      refine ⟨[], [], ?_, List.Forall₂.nil, by simp [hnil]⟩
      rw [fragmentLoop_empty _ _ _ _ hempty]
      simp [MP4Packetizer.sent, sent_nil]
    · have hsize : pPckt.size = pPckt.bytes.length := rfl
      generalize hn : uint32 (min (s.iMTU-4) pPckt.size) = n
      have hlocal := uint32_of_bounds (x := min (s.iMTU-4) pPckt.size) (by omega) (by omega)
      rw [hn] at hlocal
      have hn₁ : 1 ≤ n := by omega
      have hn₂ : n ≤ pPckt.size := by omega
      rcases fragmentHeader_ok pPckt.codec iSize s.iUnit with ⟨h, hrun, hlen, haudio, hvideo⟩
      have htake : (pPckt.bytes.take n).length = n := by
        rw [List.length_take]
        omega
      have hpush : ((MediaPacket.new .media .audio (n+4)).set_metadata pPckt).push_back h = _ :=
        push_back_ok (by
          simp only [MediaPacket.set_metadata, MediaPacket.new, MediaPacket.size,
            List.length_nil, iBufferSpace]
          omega)
      have hpush' : (((MediaPacket.new .media .audio (n+4)).set_metadata pPckt).pushed h).push_back
          (pPckt.bytes.take n) = _ := push_back_ok (by
        simp only [MediaPacket.pushed, MediaPacket.set_metadata, MediaPacket.new,
          MediaPacket.size, List.nil_append, iBufferSpace]
        omega)
      have hpop : pPckt.pop_front n = _ := pop_front_ok hn₂
      rw [fragmentLoop, if_neg hempty, run_get_bind, hn, run_ofExcept_bind hrun,
        run_ofExcept_bind hpush, run_ofExcept_bind hpush', run_ofExcept_bind hpop,
        run_modify_bind]
      rcases ih (pPckt.popped n) (iFrag+1) (s.number _) hMTU hint
        (by rw [popped_size]; omega) with ⟨ps, chunks, hruns, hall, hflat⟩
      rw [hruns, mp4_number_sent]
      refine ⟨_, pPckt.bytes.take n::chunks, rfl, List.Forall₂.cons ?_ ?_, ?_⟩
      · constructor
        · constructor <;> rfl
        · intro hnil
          rw [hnil] at htake
          simp only [List.length_nil] at htake
          omega
        · intro hcodec
          exact ⟨h, uint32 s.iUnit, by simp [fragment], haudio hcodec⟩
        · intro hcodec
          simp [fragment, hvideo hcodec]
      · exact hall.imp fun p chunk hfrag => ⟨⟨hfrag.marked.type, hfrag.marked.codec,
          hfrag.marked.mux, hfrag.marked.framenumber, hfrag.marked.subframenumber⟩,
          hfrag.nonempty, hfrag.audio, hfrag.video⟩
      · rw [List.flatten_cons, hflat, popped_bytes, List.take_append_drop]

/-! ## Groups -/

/-- The fields of an aggregate's header. -/
def stapFields (members : List MediaPacket) : List (ℕ × ℕ) :=
  (16, members.length*16)::members.flatMap fun p => [(13, p.size), (3, 0)]

structure Aggregate (front : MediaPacket) (members : List MediaPacket) (p : MediaPacket) : Prop
    where
  marked : Marked front p
  audio : front.codec = .mp4a → ∃ h, p.bytes = h ++ allBytes members ∧
    Header (stapFields members) (2+2*members.length) h
  video : front.codec ≠ .mp4a → p.bytes = allBytes members

/-- The packets sent for frames that leave together. -/
inductive Group : List MediaPacket → List MediaPacket → Prop
  | fragments {f : MediaPacket} {ps : List MediaPacket} {chunks : List (List UInt8)}
      (hall : List.Forall₂ (Fragment f f.size) ps chunks) (hne : chunks ≠ [])
      (hflat : chunks.flatten = f.bytes) : Group [f] ps
  | aggregate {f g : MediaPacket} {fs : List MediaPacket} {p : MediaPacket}
      (hp : Aggregate f (f::g::fs) p) : Group (f::g::fs) [p]

theorem pack_FU_run (f : MediaPacket) (s : MP4Packetizer) (hMTU : 4 < s.iMTU)
    (hint : s.iMTU < 2^31) (hpos : 0 < f.size) :
    ∃ ps, (pack_FU f).run s = .ok () (s.sent ps) ∧ Group [f] ps := by
  rcases fragmentLoop_run f.size f.size f 0 s hMTU hint (le_refl _) with
    ⟨ps, chunks, hrun, hall, hflat⟩
  refine ⟨ps, hrun, Group.fragments hall ?_ hflat⟩
  rintro rfl
  rw [List.flatten_nil] at hflat
  rw [MediaPacket.size, ← hflat] at hpos
  exact absurd hpos (by simp)

theorem stapFields_sum (members : List MediaPacket) :
    ((stapFields members).map Prod.fst).sum = 8*(2+2*members.length) := by
  have hrest : ((members.flatMap fun p => [(13, p.size), (3, 0)]).map Prod.fst).sum =
      16*members.length := by
    induction members with
    | nil => rfl
    | cons p ps ih =>
      simp only [List.flatMap_cons, List.map_append, List.sum_append, ih, List.map_cons,
        List.map_nil, List.sum_cons, List.sum_nil, List.length_cons]
      ring
  rw [stapFields, List.map_cons, List.sum_cons, hrest]
  ring

theorem stapHeader_ok (codec : CodecType) (members : List MediaPacket)
    (hlen : members.length ≤ iMax) :
    ∃ h, stapHeader codec members = .ok h ∧ h.length ≤ 2+2*members.length ∧
      (codec = .mp4a → Header (stapFields members) (2+2*members.length) h) ∧
      (codec ≠ .mp4a → h = []) := by
  by_cases hcodec : codec = .mp4a
  · have hpos : ∀ f ∈ stapFields members, 0 < f.1 := by
      intro f hf
      rcases List.mem_cons.mp hf with rfl | hf
      · simp
      · rcases List.mem_flatMap.mp hf with ⟨p, -, hf⟩
        rcases List.mem_cons.mp hf with rfl | hf
        · simp
        · simp [List.mem_singleton.mp hf]
    rcases header_ok (stapFields members) (2+2*members.length) (stapFields_sum members)
      (by simp only [iMax] at hlen; omega) hpos with ⟨h, hrun, hheader⟩
    refine ⟨h, ?_, by rw [hheader.length], fun _ => hheader, fun hne => absurd hcodec hne⟩
    rw [stapHeader, if_pos hcodec]
    exact hrun
  · refine ⟨[], ?_, by simp, fun heq => absurd heq hcodec, fun _ => rfl⟩
    rw [stapHeader, if_neg hcodec]

theorem pack_STAP_run (f g : MediaPacket) (fs : List MediaPacket) (s : MP4Packetizer)
    (hint : s.iMTU < 2^31) (hlen : (f::g::fs).length ≤ iMax)
    (hfits : 2+2*((f::g::fs).length : ℤ)+sizes (f::g::fs) ≤ s.iMTU) :
    ∃ ps, (pack_STAP f (f::g::fs)).run s = .ok () (s.sent ps) ∧ Group (f::g::fs) ps := by
  have hMTU := uint32_of_bounds (x := s.iMTU) (by omega) (by omega)
  generalize hn : uint32 s.iMTU = n at hMTU
  rcases stapHeader_ok f.codec (f::g::fs) hlen with ⟨h, hrun, hhead, haudio, hvideo⟩
  have hpush : ((MediaPacket.new .media .audio n).set_metadata f).push_back h = _ :=
    push_back_ok (by
      simp only [MediaPacket.set_metadata, MediaPacket.new, MediaPacket.size, List.length_nil,
        iBufferSpace]
      omega)
  have hall : push_all (((MediaPacket.new .media .audio n).set_metadata f).pushed h) (f::g::fs) = _
      := push_all_ok (f::g::fs) _ (by
    simp only [MediaPacket.pushed, MediaPacket.set_metadata, MediaPacket.new, MediaPacket.size,
      List.nil_append, iBufferSpace]
    omega)
  have hrun' : stapHeader ((MediaPacket.new .media .audio n).set_metadata f).codec (f::g::fs) =
      .ok h := hrun
  rw [pack_STAP, run_get_bind, hn]
  dsimp only
  rw [run_ofExcept_bind hrun', run_ofExcept_bind hpush, run_ofExcept_bind hall]
  change ∃ ps, EStateM.Result.ok () (s.number _) = _ ∧ _
  rw [mp4_number_sent_nil]
  refine ⟨_, rfl, Group.aggregate ?_⟩
  constructor
  · constructor <;> rfl
  · intro hcodec
    exact ⟨h, by simp [aggregate], haudio hcodec⟩
  · intro hcodec
    simp [aggregate, hvideo hcodec]

/-! ## Grouping -/

/-- The frames of the groups sent so far, and the frames waiting on the stack. -/
structure Stacked where
  groups : List (List MediaPacket)
  stack : List MediaPacket

def Stacked.close (a : Stacked) : Stacked :=
  ⟨if a.stack = [] then a.groups else a.groups ++ [a.stack], []⟩

def Stacked.single (a : Stacked) (f : MediaPacket) : Stacked := ⟨a.groups ++ [[f]], a.stack⟩

def Stacked.push (a : Stacked) (f : MediaPacket) : Stacked :=
  if iMax ≤ a.stack.length+1 then Stacked.close ⟨a.groups, a.stack ++ [f]⟩
  else ⟨a.groups, a.stack ++ [f]⟩

/-- How the next frame is grouped. -/
def Stacked.step (iMTU : ℤ) (a : Stacked) (f : MediaPacket) : Stacked :=
  if iMTU < (f.size : ℤ)+4 then a.close.single f
  else if iMTU < 2+((a.stack.length : ℤ)+1)*2+sizes a.stack+f.size then a.close.push f
  else a.push f

/-- The packetizer has sent the groups and keeps the stack. -/
structure Holds (iMTU : ℤ) (bAggregate : Bool) (a : Stacked) (s : MP4Packetizer) : Prop where
  mtu : s.iMTU = iMTU
  aggregate : s.bAggregate = bAggregate
  routed : ∃ gs : List (List MediaPacket × List MediaPacket), gs.map Prod.fst = a.groups ∧
    (∀ g ∈ gs, Group g.1 g.2) ∧ s.routed = gs.flatMap Prod.snd
  stack : s.vStack = a.stack
  len : s.iLen = sizes a.stack
  short : a.stack.length ≤ iMax
  fits : a.stack ≠ [] → 2+2*(a.stack.length : ℤ)+sizes a.stack ≤ iMTU
  sized : ∀ f ∈ a.stack, 0 < f.size

theorem holds_init (mtu : ℤ) (b : Bool) :
    Holds (MP4Packetizer.init mtu b).iMTU b ⟨[], []⟩ (MP4Packetizer.init mtu b) where
  mtu := rfl
  aggregate := rfl
  routed := ⟨[], rfl, by simp, rfl⟩
  stack := rfl
  len := rfl
  short := by decide
  fits := fun h => absurd rfl h
  sized := by simp

/-- What holds but for the stack, whose frames have just been sent as one more group. -/
theorem holds_sent {iMTU : ℤ} {b : Bool} {a : Stacked} {s : MP4Packetizer}
    {members ps : List MediaPacket} (h : Holds iMTU b a s) (hgroup : Group members ps) :
    Holds iMTU b ⟨a.groups ++ [members], []⟩ (s.sent ps).cleared where
  mtu := h.mtu
  aggregate := h.aggregate
  routed := by
    rcases h.routed with ⟨gs, hmap, hgroups, hrouted⟩
    refine ⟨gs ++ [(members, ps)], by simp [hmap], ?_, ?_⟩
    · intro g hg
      rcases List.mem_append.mp hg with hg | hg
      · exact hgroups g hg
      · rwa [List.mem_singleton.mp hg]
    · simp [MP4Packetizer.cleared, MP4Packetizer.sent, Packetizer.sent, hrouted]
  stack := rfl
  len := rfl
  short := Nat.zero_le iMax
  fits := fun h => absurd rfl h
  sized := by simp

section
variable {iMTU : ℤ} {b : Bool} {a : Stacked} {f : MediaPacket}
  {E : SirannonException → MP4Packetizer → Prop}

theorem pack_FU_holds (hMTU : 4 < iMTU) (hint : iMTU < 2^31) (hpos : 0 < f.size) :
    Triple (Holds iMTU b a) (pack_FU f) (fun _ => Holds iMTU b (a.single f)) E := by
  constructor
  intro s hs
  rcases pack_FU_run f s (by rwa [hs.mtu]) (by rwa [hs.mtu]) hpos with ⟨ps, hrun, hgroup⟩
  have hsent := holds_sent hs hgroup
  rw [hrun]
  constructor
  · exact hs.mtu
  · exact hs.aggregate
  · exact hsent.routed
  · exact hs.stack
  · exact hs.len
  · exact hs.short
  · exact hs.fits
  · exact hs.sized

theorem pack_holds (hMTU : 4 < iMTU) (hint : iMTU < 2^31) :
    Triple (Holds iMTU b a) pack (fun _ => Holds iMTU b a.close) E := by
  constructor
  intro s hs
  rw [pack, run_get_bind, hs.stack]
  rcases a with ⟨groups, stack⟩
  cases stack with
  | nil => exact hs
  | cons f rest =>
    have hpos := hs.sized f List.mem_cons_self
    cases rest with
    | nil =>
      rcases pack_FU_run f s (by rwa [hs.mtu]) (by rwa [hs.mtu]) hpos with ⟨ps, hrun, hgroup⟩
      dsimp only
      rw [run_bind_of_ok hrun]
      exact holds_sent hs hgroup
    | cons g fs =>
      rcases pack_STAP_run f g fs s (by rwa [hs.mtu]) hs.short
        (by rw [hs.mtu]; exact hs.fits (by simp)) with ⟨ps, hrun, hgroup⟩
      dsimp only
      rw [run_bind_of_ok hrun]
      exact holds_sent hs hgroup

theorem sizes_snoc (ps : List MediaPacket) (p : MediaPacket) :
    sizes (ps ++ [p]) = sizes ps+p.size := by
  simp [sizes]

theorem push_holds (hMTU : 4 < iMTU) (hint : iMTU < 2^31) (hpos : 0 < f.size)
    (hshort : a.stack.length < iMax)
    (hfits : 2+2*((a.stack.length : ℤ)+1)+sizes a.stack+f.size ≤ iMTU) :
    Triple (Holds iMTU b a) (push f) (fun _ => Holds iMTU b (a.push f)) E := by
  rw [push]
  apply triple_modify_bind (R := Holds iMTU b ⟨a.groups, a.stack ++ [f]⟩)
  · intro s hs
    constructor
    · exact hs.mtu
    · exact hs.aggregate
    · exact hs.routed
    · show s.vStack ++ [f] = a.stack ++ [f]
      rw [hs.stack]
    · show s.iLen+f.size = sizes (a.stack ++ [f])
      rw [hs.len, sizes_snoc]
      push_cast
      rfl
    · show (a.stack ++ [f]).length ≤ iMax
      rw [List.length_append, List.length_singleton]
      exact hshort
    · intro _
      show 2+2*((a.stack ++ [f]).length : ℤ)+sizes (a.stack ++ [f]) ≤ iMTU
      rw [sizes_snoc, List.length_append, List.length_singleton]
      push_cast
      linarith
    · intro g hg
      rcases List.mem_append.mp hg with hg | hg
      · exact hs.sized g hg
      · rwa [List.mem_singleton.mp hg]
  · apply triple_get_bind
    intro t ht
    have hlen : t.vStack.length = a.stack.length+1 := by
      rw [ht.stack, List.length_append, List.length_singleton]
    rw [Stacked.push, hlen]
    by_cases hfull : iMax ≤ a.stack.length+1
    · rw [if_pos hfull, if_pos hfull]
      exact triple_conseq (pack_holds hMTU hint) (by rintro _ rfl; exact ht) (fun _ _ h => h)
        (fun _ _ h => h)
    · rw [if_neg hfull, if_neg hfull]
      apply triple_pure
      rintro _ rfl
      exact ht

@[simp] theorem close_stack (a : Stacked) : a.close.stack = [] := rfl

theorem close_short (a : Stacked) : a.close.stack.length < iMax := by
  rw [close_stack]
  decide

theorem stack_holds (hMTU : 4 < iMTU) (hint : iMTU < 2^31) (hpos : 0 < f.size)
    (hshort : a.stack.length < iMax) :
    Triple (Holds iMTU b a) (stack f) (fun _ => Holds iMTU b (a.step iMTU f)) E := by
  rw [stack]
  apply triple_get_bind
  intro t ht
  have hpre : ∀ s, s = t → Holds iMTU b a s := by
    rintro _ rfl
    exact ht
  rw [ht.mtu, ht.stack, ht.len, Stacked.step]
  by_cases hbig : iMTU < (f.size : ℤ)+4
  · rw [if_pos hbig, if_pos hbig]
    apply triple_conseq _ hpre (fun _ _ h => h) (fun _ _ h => h)
    exact triple_bind (pack_holds hMTU hint) fun _ => pack_FU_holds hMTU hint hpos
  · rw [if_neg hbig, if_neg hbig]
    by_cases hover : iMTU < 2+((a.stack.length : ℤ)+1)*2+sizes a.stack+f.size
    · rw [if_pos hover, if_pos hover]
      apply triple_conseq _ hpre (fun _ _ h => h) (fun _ _ h => h)
      apply triple_bind (pack_holds hMTU hint)
      intro _
      apply push_holds hMTU hint hpos
      · exact close_short a
      · simp [sizes]
        linarith
    · rw [if_neg hover, if_neg hover]
      apply triple_conseq _ hpre (fun _ _ h => h) (fun _ _ h => h)
      apply push_holds hMTU hint hpos hshort
      linarith

end

/-! ## Runs -/

/-- A frame as it comes from a reader: an audio frame has a header of seven bytes. -/
structure Input (codec : CodecType) (f : MediaPacket) : Prop where
  type : f.type = .media
  mux : f.mux = .ES
  audio : codec = .mp4a → 8 ≤ f.size ∧ f.size ≤ 8198
  video : codec ≠ .mp4a → 1 ≤ f.size
  codec : f.codec = codec

/-- The frame the packetizer goes on with. -/
def prepared (f : MediaPacket) : MediaPacket :=
  { (if f.codec = .mp4a then f.popped 7 else f) with mux := .RTP }

/-- How the next frame is grouped, whatever the setting. -/
def groupStep (iMTU : ℤ) (bAggregate : Bool) (a : Stacked) (f : MediaPacket) : Stacked :=
  if bAggregate = false ∧ f.codec = .mp4a then a.single f else a.step iMTU f

theorem prepared_codec (f : MediaPacket) : (prepared f).codec = f.codec := by
  by_cases h : f.codec = .mp4a
  · simp only [prepared, if_pos h]
    rfl
  · simp only [prepared, if_neg h]

theorem prepared_size {codec : CodecType} {f : MediaPacket} (h : Input codec f) :
    0 < (prepared f).size := by
  by_cases hc : f.codec = .mp4a
  · have hsize := h.audio (by rw [← h.codec, hc])
    simp only [prepared, if_pos hc]
    show 0 < (f.popped 7).size
    rw [popped_size]
    omega
  · have hsize := h.video (by rwa [← h.codec])
    simp only [prepared, if_neg hc]
    exact hsize

theorem strip_run {codec : CodecType} {f : MediaPacket} (h : Input codec f) :
    strip f = .ok (if f.codec = .mp4a then f.popped 7 else f) := by
  rw [strip]
  by_cases hc : f.codec = .mp4a
  · have hsize := h.audio (by rw [← h.codec, hc])
    rw [if_pos hc, if_pos hc]
    exact pop_front_ok (by omega)
  · rw [if_neg hc, if_neg hc]

section
variable {iMTU : ℤ} {b : Bool} {a : Stacked} {codec : CodecType}
  {E : SirannonException → MP4Packetizer → Prop}

theorem receive_holds {f : MediaPacket} (hMTU : 4 < iMTU) (hint : iMTU < 2^31)
    (hcodec : codec = .mp4a ∨ codec = .mp4v) (hf : Input codec f)
    (hshort : a.stack.length < iMax) :
    Triple (Holds iMTU b a) (receive f)
      (fun _ => Holds iMTU b (groupStep iMTU b a (prepared f))) E := by
  have hfamily : f.codec.isIn familyMPEG4 = true := by
    rw [hf.codec]
    rcases hcodec with rfl | rfl <;> decide
  rw [receive, if_neg (by rw [hfamily]; simp), if_neg (by rw [hf.mux]; simp), strip_run hf]
  constructor
  intro s hs
  rw [run_ofExcept_bind rfl, run_get_bind, hs.aggregate, groupStep]
  by_cases hdirect : b = false ∧ (prepared f).codec = .mp4a
  · rw [if_pos hdirect, if_pos (by exact hdirect)]
    exact (pack_FU_holds hMTU hint (prepared_size hf)).exits s hs
  · rw [if_neg hdirect, if_neg (by exact hdirect)]
    exact (stack_holds hMTU hint (prepared_size hf) hshort).exits s hs

theorem push_short {f : MediaPacket} : (a.push f).stack.length < iMax := by
  rw [Stacked.push]
  split_ifs with hfull
  · exact close_short _
  · rw [List.length_append, List.length_singleton]
    omega

theorem groupStep_short {f : MediaPacket} (h : a.stack.length < iMax) :
    (groupStep iMTU b a f).stack.length < iMax := by
  rw [groupStep, Stacked.step]
  split_ifs
  · exact h
  · exact close_short a
  · exact push_short
  · exact push_short

theorem run_holds {frames : List MediaPacket} (hMTU : 4 < iMTU) (hint : iMTU < 2^31)
    (hcodec : codec = .mp4a ∨ codec = .mp4v) (hframes : ∀ f ∈ frames, Input codec f)
    (hshort : a.stack.length < iMax) :
    Triple (Holds iMTU b a) (forM frames receive)
      (fun _ => Holds iMTU b ((frames.map prepared).foldl (groupStep iMTU b) a)) E := by
  induction frames generalizing a with
  | nil => exact triple_pure _ fun _ h => h
  | cons f frames ih =>
    rw [List.forM_cons]
    apply triple_bind (receive_holds hMTU hint hcodec (hframes f List.mem_cons_self) hshort)
    intro _
    exact ih (fun g hg => hframes g (List.mem_cons_of_mem f hg)) (groupStep_short hshort)

end

/-- The groups in which frames leave, the flush at the end included. -/
def grouping (iMTU : ℤ) (bAggregate : Bool) (frames : List MediaPacket) :
    List (List MediaPacket) :=
  (frames.foldl (groupStep iMTU bAggregate) ⟨[], []⟩).close.groups

/-- Frames and then the end packet. -/
def packetize (frames : List MediaPacket) (pEnd : MediaPacket) : Packing Unit := do
  forM frames receive
  receive_end pEnd

theorem packetize_run {mtu : ℤ} {b : Bool} {codec : CodecType} {frames : List MediaPacket}
    (pEnd : MediaPacket) (hMTU : 4 < (MP4Packetizer.init mtu b).iMTU) (hint : mtu < 2^31)
    (hcodec : codec = .mp4a ∨ codec = .mp4v) (hframes : ∀ f ∈ frames, Input codec f) :
    ∃ s n, ∃ gs : List (List MediaPacket × List MediaPacket), (packetize frames pEnd).run (MP4Packetizer.init mtu b) = .ok () s ∧
      s.routed = gs.flatMap Prod.snd ++ [({ pEnd with mux := .RTP } : MediaPacket).setUnit n] ∧
      gs.map Prod.fst =
        grouping (MP4Packetizer.init mtu b).iMTU b (frames.map prepared) ∧
      ∀ g ∈ gs, Group g.1 g.2 := by
  have hint' : (MP4Packetizer.init mtu b).iMTU < 2^31 := by
    show mtu-20-20-18-12 < 2^31
    omega
  have hrun : Triple (Holds (MP4Packetizer.init mtu b).iMTU b ⟨[], []⟩) (packetize frames pEnd)
      (fun _ s => ∃ t, Holds (MP4Packetizer.init mtu b).iMTU b
        ((frames.map prepared).foldl (groupStep (MP4Packetizer.init mtu b).iMTU b)
          ⟨[], []⟩).close t ∧ s = t.number { pEnd with mux := .RTP }) (fun _ _ => False) := by
    apply triple_bind (run_holds hMTU hint' hcodec hframes (by decide))
    intro _
    apply triple_bind (pack_holds hMTU hint')
    intro _
    exact triple_modify _ fun t ht => ⟨t, ht, rfl⟩
  have hexit := hrun.exits _ (holds_init mtu b)
  cases hresult : (packetize frames pEnd).run (MP4Packetizer.init mtu b) with
  | ok _ s =>
    rw [hresult] at hexit
    rcases hexit with ⟨t, ht, rfl⟩
    rcases ht.routed with ⟨gs, hmap, hgroups, hrouted⟩
    exact ⟨_, t.iUnit, gs, rfl, by rw [← hrouted]; rfl, hmap, hgroups⟩
  | error e s =>
    rw [hresult] at hexit
    exact hexit.elim

end Sirannon.MP4
