import Sirannon.PESHeader

/-!
# What the PES packetizer sends

A frame leaves as one PES packet, or as several when it is large and its length
has to be written. Every packet starts with the time stamps of its frame.
-/

set_option autoImplicit false

namespace Sirannon.PES
open MachineInt Bits BitString Media Packetization StateError

/-! ## Putting a frame together -/

/-- A frame in parts, of which only the last one has the flag for the end. Sizes have 32 bits. -/
structure FrameParts (parts : List MediaPacket) : Prop where
  last : ∃ ps p, parts = ps ++ [p] ∧ p.frameend = true ∧ ∀ q ∈ ps, q.frameend = false
  type : ∀ q ∈ parts, q.type = .media
  mux : ∀ q ∈ parts, q.mux = .ES
  size : 1 ≤ sizes parts ∧ sizes parts < 2^32
  stamps : ∀ q ∈ parts, Stamps q

/-- The frame made of the parts. -/
structure Merged (parts : List MediaPacket) (f : MediaPacket) : Prop where
  bytes : f.bytes = allBytes parts
  type : f.type = .media
  stamps : Stamps f
  first : ∃ p ps, parts = p::ps ∧ f.dts = p.dts ∧ f.pts = p.pts
  single : ∀ p, parts = [p] → f = p
  several : parts.length ≠ 1 → f.iFront = iBufferSpace

/-- What `receive` does with a whole frame. -/
def finish (f : MediaPacket) : Packing Unit := do
  let s ← get
  let oSend ← ofExcept (split s.bZero s.iMaxSize (delayed s.iDelta f))
  modify fun s => s.output oSend

theorem receive_part {p : MediaPacket} (hmux : p.mux = .ES) (hend : p.frameend = false)
    (s : PESPacketizer) :
    (receive p).run s = .ok () { s with oBuffer := s.oBuffer ++ [p] } := by
  have hmerge : mergeFrameParts s.oBuffer p = .ok (s.oBuffer ++ [p], none) := by
    simp [mergeFrameParts, hend]
  rw [receive, if_neg (by simp [hmux]), run_get_bind, run_ofExcept_bind hmerge]
  rfl

theorem receive_parts {ps : List MediaPacket} (hmux : ∀ p ∈ ps, p.mux = .ES)
    (hend : ∀ p ∈ ps, p.frameend = false) (s : PESPacketizer) :
    (forM ps receive).run s = .ok () { s with oBuffer := s.oBuffer ++ ps } := by
  induction ps generalizing s with
  | nil =>
    rw [List.append_nil]
    rfl
  | cons p ps ih =>
    rw [List.forM_cons, run_bind_of_ok
      (receive_part (hmux p List.mem_cons_self) (hend p List.mem_cons_self) s),
      ih (fun q hq => hmux q (List.mem_cons_of_mem p hq))
        (fun q hq => hend q (List.mem_cons_of_mem p hq))]
    simp

theorem receive_last {p f : MediaPacket} (hmux : p.mux = .ES) (s : PESPacketizer)
    (hmerge : mergeFrameParts s.oBuffer p = .ok ([], some f)) :
    (receive p).run s = (finish f).run { s with oBuffer := [] } := by
  rw [receive, if_neg (by simp [hmux]), run_get_bind, run_ofExcept_bind hmerge]
  rfl

theorem merge_several (front : MediaPacket) (rest : List MediaPacket) {p : MediaPacket}
    (hend : p.frameend = true) :
    mergeFrameParts (front::rest) p = .ok ([], some
      ((mergedPckt front (sizes (front::rest ++ [p]))).pushed (allBytes (front::rest ++ [p])))) := by
  have hpush : push_all (mergedPckt front (sizes (front::rest ++ [p]))) (front::rest ++ [p]) = _ :=
    push_all_ok _ _ (by
      simp only [mergedPckt, MediaPacket.set_metadata, MediaPacket.new, MediaPacket.size,
        List.length_nil, iBufferSpace]
      omega)
  rw [mergeFrameParts, if_pos hend]
  dsimp only
  rw [hpush]
  rfl

/-- The parts of a frame one after the other, and what comes of them. -/
theorem receive_frame {parts : List MediaPacket} (h : FrameParts parts) :
    ∃ f, Merged parts f ∧ ∀ s : PESPacketizer, s.oBuffer = [] →
      (forM parts receive).run s = (finish f).run s := by
  rcases h.last with ⟨ps, p, rfl, hlast, hrest⟩
  have hp : p ∈ ps ++ [p] := by simp
  have hrun : ∀ s : PESPacketizer, s.oBuffer = [] → ∀ f, mergeFrameParts ps p = .ok ([], some f) →
      (forM (ps ++ [p]) receive).run s = (finish f).run s := by
    intro s hs f hmerge
    rw [List.forM_append, run_bind_of_ok (receive_parts
      (fun q hq => h.mux q (List.mem_append_left _ hq)) hrest s), List.forM_cons, List.forM_nil]
    show (do receive p; pure PUnit.unit).run _ = _
    rw [bind_pure_unit, receive_last (h.mux p hp) _ (by rw [hs]; exact hmerge)]
    congr 1
    rcases s with ⟨_, _, _, _, _⟩
    subst hs
    rfl
  cases ps with
  | nil =>
    have hmerge : mergeFrameParts [] p = .ok ([], some p) := by
      rw [mergeFrameParts, if_pos hlast]
    refine ⟨p, ?_, fun s hs => hrun s hs p hmerge⟩
    constructor
    · simp [allBytes]
    · exact h.type p hp
    · exact h.stamps p hp
    · exact ⟨p, [], rfl, rfl, rfl⟩
    · intro q hq
      simpa using hq
    · intro hne
      exact absurd rfl hne
  | cons front rest =>
    have hfront : front ∈ front::rest ++ [p] := by simp
    refine ⟨_, ?_, fun s hs => hrun s hs _ (merge_several front rest hlast)⟩
    constructor
    · simp [mergedPckt]
    · exact h.type front hfront
    · exact ⟨(h.stamps front hfront).dts, (h.stamps front hfront).pts⟩
    · exact ⟨front, rest ++ [p], rfl, rfl, rfl⟩
    · intro q hq
      simp at hq
    · intro _
      rfl

/-! ## Cutting a frame -/

/-- A frame that leaves in one PES packet. -/
def Whole (bZero : Bool) (g : MediaPacket) : Prop := bZero = true ∨ g.size ≤ 65500

/-- What the packets of a frame hold of it. -/
structure Cut (bZero : Bool) (g : MediaPacket) (chunks : List (List UInt8)) : Prop where
  whole : Whole bZero g → chunks = [g.bytes]
  small : bZero = false → ∀ c ∈ chunks, c.length ≤ 65500

/-- There is room for the header in front of a frame that is not copied. -/
def Roomy (bZero : Bool) (g : MediaPacket) : Prop := Whole bZero g → headerSize g ≤ g.iFront

theorem headerFields_congr {p g : MediaPacket} (h : p.toMetadata = g.toMetadata) (bZero : Bool)
    (n : ℕ) : headerFields bZero p n = headerFields bZero g n ∧ headerSize p = headerSize g := by
  have hcodec : p.codec = g.codec := by rw [h]
  have hdts : p.dts = g.dts := by rw [h]
  have hpts : p.pts = g.pts := by rw [h]
  have hboth : both p = both g := by simp [both, hdts, hpts]
  constructor
  · simp only [headerFields, hboth, hcodec, hdts, hpts]
  · rw [headerSize, headerSize, hboth]

theorem headerSize_le (g : MediaPacket) : headerSize g ≤ 19 := by
  rw [headerSize]
  split_ifs
  · rfl
  · decide

theorem splitLoop_run (fuel : ℕ) (g : MediaPacket) (hfuel : g.size ≤ fuel) :
    ∃ qs chunks, splitLoop false 65500 fuel g = .ok qs ∧
      List.Forall₂ (fun q c => Piece false g c q) qs chunks ∧
      ∀ c ∈ chunks, c.length ≤ 65500 := by
  induction fuel generalizing g with
  | zero => exact ⟨[], [], rfl, List.Forall₂.nil, by simp⟩
  | succ fuel ih =>
    by_cases hempty : g.size = 0
    · refine ⟨[], [], ?_, List.Forall₂.nil, by simp⟩
      rw [splitLoop, if_pos hempty]
    · have hsize : g.size = g.bytes.length := rfl
      generalize hn : min g.size 65500 = n
      have hchunk : (g.bytes.take n).length = n := by
        rw [List.length_take]
        omega
      rcases createHeader_run false
        ((MediaPacket.new .media g.content 65500).set_metadata g) n with ⟨hd, hrun, hbits, hlen⟩
      rcases headerFields_congr
        (p := (MediaPacket.new .media g.content 65500).set_metadata g) (g := g) rfl false n with
        ⟨hfields, hheader⟩
      rw [hfields] at hbits
      rw [hheader] at hlen
      have hle := headerSize_le g
      have hfront : ((MediaPacket.new .media g.content 65500).set_metadata g).push_front hd = _ :=
        push_front_ok (by
          show hd.length ≤ iBufferSpace
          rw [iBufferSpace]
          omega)
      have hback : (((MediaPacket.new .media g.content 65500).set_metadata g).fronted
          hd).push_back (g.bytes.take n) = _ :=
        push_back_ok (by
          simp only [MediaPacket.fronted, MediaPacket.set_metadata, MediaPacket.new,
            MediaPacket.size, iBufferSpace, hchunk, List.append_nil]
          omega)
      have hpop : g.pop_front n = _ := pop_front_ok (by omega)
      rcases ih (g.popped n) (by rw [popped_size]; omega) with ⟨qs, chunks, hloop, hall, hsmall⟩
      rw [splitLoop, if_neg hempty]
      dsimp only
      rw [hn, hrun, hfront]
      simp only [bind, Except.bind, hback, hpop, hloop]
      refine ⟨_, g.bytes.take n::chunks, rfl, List.Forall₂.cons ?_ ?_, ?_⟩
      · constructor
        · rfl
        · refine ⟨hd, ?_, ?_, hlen⟩
          · simp
          · rw [hchunk]
            exact hbits
      · apply hall.imp
        intro q c hq
        rcases hq.data with ⟨hd', hbytes, hbits', hlen'⟩
        constructor
        · exact hq.type
        · rw [(headerFields_congr (popped_metadata g n) false c.length).1] at hbits'
          rw [(headerFields_congr (popped_metadata g n) false c.length).2] at hlen'
          exact ⟨hd', hbytes, hbits', hlen'⟩
      · intro c hc
        rcases List.mem_cons.mp hc with rfl | hc
        · omega
        · exact hsmall c hc

theorem split_single {bZero : Bool} {iMaxSize : ℤ} {g : MediaPacket}
    (hone : (bZero = true ∧ g.content = .video) ∨ g.size ≤ uint32 iMaxSize) :
    ∃ hd, split bZero iMaxSize g = (do let pPES ← g.push_front hd; return [pPES]) ∧
      ofBytes hd = fieldBits (headerFields bZero g g.size) ∧ hd.length = headerSize g := by
  rcases createHeader_run bZero g g.size with ⟨hd, hrun, hbits, hlen⟩
  refine ⟨hd, ?_, hbits, hlen⟩
  rw [split, if_pos hone, hrun]

/-- The largest packet is given by the setting for the length. -/
def maxSize (bZero : Bool) : ℤ := if bZero then -1 else 65500

theorem whole_iff {bZero : Bool} {g : MediaPacket} (hsize : g.size < 2^32) :
    (bZero = true ∧ g.content = .video) ∨ g.size ≤ uint32 (maxSize bZero) ↔ Whole bZero g := by
  cases bZero with
  | true =>
    have hmax : uint32 (maxSize true) = 2^32-1 := by
      rw [maxSize, uint32]
      rfl
    rw [hmax, Whole]
    constructor
    · exact fun _ => .inl rfl
    · exact fun _ => .inr (by omega)
  | false =>
    have hmax : uint32 (maxSize false) = 65500 := by
      rw [maxSize, uint32]
      rfl
    rw [hmax, Whole]
    simp

theorem split_run {bZero : Bool} {g : MediaPacket} (hsize : g.size < 2^32)
    (hroom : Roomy bZero g) :
    ∃ qs chunks, split bZero (maxSize bZero) g = .ok qs ∧
      List.Forall₂ (fun q c => Piece bZero g c q) qs chunks ∧ Cut bZero g chunks := by
  by_cases hwhole : Whole bZero g
  · rcases split_single ((whole_iff hsize).mpr hwhole) with ⟨hd, hrun, hbits, hlen⟩
    refine ⟨[g.fronted hd], [g.bytes], ?_, ?_, ?_⟩
    · rw [hrun, push_front_ok (by rw [hlen]; exact hroom hwhole)]
      rfl
    · exact List.Forall₂.cons ⟨rfl, hd, rfl, hbits, hlen⟩ List.Forall₂.nil
    · constructor
      · exact fun _ => rfl
      · intro hb c hc
        rw [List.mem_singleton.mp hc]
        rcases hwhole with htrue | hle
        · rw [htrue] at hb
          contradiction
        · exact hle
  · have hb : bZero = false := by
      by_contra hb
      exact hwhole (.inl (by simpa using hb))
    subst hb
    have hmax : uint32 (maxSize false) = 65500 := by
      rw [maxSize, uint32]
      rfl
    rcases splitLoop_run g.size g (le_refl _) with ⟨qs, chunks, hrun, hall, hsmall⟩
    refine ⟨qs, chunks, ?_, hall, ?_⟩
    · rw [split, if_neg (by rwa [whole_iff hsize]), hmax, hrun]
    · exact ⟨fun h => absurd h hwhole, fun _ => hsmall⟩

theorem split_error {bZero : Bool} {g : MediaPacket} (hsize : g.size < 2^32)
    (hroom : ¬ Roomy bZero g) : ∃ e, split bZero (maxSize bZero) g = .error e := by
  rw [Roomy, Classical.not_imp] at hroom
  rcases split_single ((whole_iff hsize).mpr hroom.1) with ⟨hd, hrun, -, hlen⟩
  refine ⟨outOfBoundsError "MediaPacket underflow", ?_⟩
  rw [hrun, MediaPacket.push_front, if_pos (by rw [hlen]; omega)]
  rfl

/-! ## Runs -/

theorem outputLoop_run {bZero : Bool} {g : MediaPacket} (iINC : ℤ) {qs : List MediaPacket}
    {chunks : List (List UInt8)} (h : List.Forall₂ (fun q c => Piece bZero g c q) qs chunks)
    (iDTS : ℤ) (s : PESPacketizer) :
    ∃ n ps, outputLoop iINC qs iDTS s = { s with iUnit := n, routed := s.routed ++ ps } ∧
      List.Forall₂ (fun q c => Piece bZero g c q) ps chunks := by
  induction h generalizing iDTS s with
  | nil =>
    refine ⟨s.iUnit, [], ?_, List.Forall₂.nil⟩
    rw [outputLoop, List.append_nil]
  | @cons q c qs chunks hq _ ih =>
    rcases ih (int32 (iDTS+iINC))
      { s with iUnit := s.iUnit+1, routed := s.routed ++ [stamped q iDTS s.iUnit] } with
      ⟨n, ps, hrun, hall⟩
    refine ⟨n, stamped q iDTS s.iUnit::ps, ?_, List.Forall₂.cons ⟨hq.type, hq.data⟩ hall⟩
    rw [outputLoop, hrun]
    simp

theorem output_run {bZero : Bool} {g : MediaPacket} {qs : List MediaPacket}
    {chunks : List (List UInt8)} (h : List.Forall₂ (fun q c => Piece bZero g c q) qs chunks)
    (s : PESPacketizer) :
    ∃ n ps, s.output qs = { s with iUnit := n, routed := s.routed ++ ps } ∧
      List.Forall₂ (fun q c => Piece bZero g c q) ps chunks := by
  cases h with
  | nil =>
    refine ⟨s.iUnit, [], ?_, List.Forall₂.nil⟩
    rw [PESPacketizer.output, List.append_nil]
  | cons hq hqs => exact outputLoop_run _ (List.Forall₂.cons hq hqs) _ s

/-- The settings, and no part of a frame waiting. -/
structure Set (iDelta : ℤ) (bZero : Bool) (s : PESPacketizer) : Prop where
  buffer : s.oBuffer = []
  max : s.iMaxSize = maxSize bZero
  delta : s.iDelta = iDelta
  zero : s.bZero = bZero

/-- What is in a PES packet: the frame, with the time stamps sent, and some of its bytes. -/
abbrev Content := MediaPacket × List UInt8

/-- Frames, and the contents of the packets sent for them. -/
def Contents (bZero : Bool) (gs : List MediaPacket) (zs : List Content) : Prop :=
  ∃ cuts, List.Forall₂ (Cut bZero) gs cuts ∧
    zs = (gs.zip cuts).flatMap fun z => z.2.map fun c => (z.1, c)

theorem contents_cons {bZero : Bool} {g : MediaPacket} {gs : List MediaPacket}
    {chunks : List (List UInt8)} {zs : List Content} (hcut : Cut bZero g chunks)
    (h : Contents bZero gs zs) :
    Contents bZero (g::gs) (chunks.map (fun c => (g, c)) ++ zs) := by
  rcases h with ⟨cuts, hcuts, hzs⟩
  exact ⟨chunks::cuts, List.Forall₂.cons hcut hcuts, by rw [hzs]; rfl⟩

section
variable {iDelta : ℤ} {bZero : Bool}

theorem finish_run {f : MediaPacket} {s : PESPacketizer} (hs : Set iDelta bZero s)
    (hsize : f.size < 2^32) (hroom : Roomy bZero (delayed iDelta f)) :
    ∃ t ps chunks, (finish f).run s = .ok () t ∧ Set iDelta bZero t ∧
      t.routed = s.routed ++ ps ∧ Cut bZero (delayed iDelta f) chunks ∧
      List.Forall₂ (fun q c => Piece bZero (delayed iDelta f) c q) ps chunks := by
  have hsize' : (delayed iDelta f).size < 2^32 := by
    rw [delayed]
    split_ifs
    · exact hsize
    · exact hsize
  rcases split_run hsize' hroom with ⟨qs, chunks, hrun, hall, hcut⟩
  rcases output_run hall s with ⟨n, ps, hout, hpieces⟩
  refine ⟨s.output qs, ps, chunks, ?_, ?_, by rw [hout], hcut, hpieces⟩
  · rw [finish, run_get_bind, hs.zero, hs.max, hs.delta, run_ofExcept_bind hrun]
    rfl
  · rw [hout]
    exact ⟨hs.buffer, hs.max, hs.delta, hs.zero⟩

theorem finish_error {f : MediaPacket} {s : PESPacketizer} (hs : Set iDelta bZero s)
    (hsize : f.size < 2^32) (hroom : ¬ Roomy bZero (delayed iDelta f)) :
    ∃ e, (finish f).run s = .error e s := by
  have hsize' : (delayed iDelta f).size < 2^32 := by
    rw [delayed]
    split_ifs
    · exact hsize
    · exact hsize
  rcases split_error hsize' hroom with ⟨e, he⟩
  refine ⟨e, ?_⟩
  rw [finish, run_get_bind, hs.zero, hs.max, hs.delta, run_ofExcept_error he]

/-- What the packetizer makes of the parts of a frame. -/
structure Received (parts : List MediaPacket) (f : MediaPacket) : Prop where
  merged : Merged parts f
  size : f.size < 2^32
  run : ∀ s : PESPacketizer, s.oBuffer = [] → (forM parts receive).run s = (finish f).run s

theorem received_frames {frames : List (List MediaPacket)}
    (h : ∀ parts ∈ frames, FrameParts parts) : ∃ fs, List.Forall₂ Received frames fs := by
  induction frames with
  | nil => exact ⟨[], List.Forall₂.nil⟩
  | cons parts frames ih =>
    have hparts := h parts List.mem_cons_self
    rcases ih fun ps hps => h ps (List.mem_cons_of_mem parts hps) with ⟨fs, hfs⟩
    rcases receive_frame hparts with ⟨f, hmerged, hrun⟩
    have hsize : f.size < 2^32 := by
      rw [MediaPacket.size, hmerged.bytes, allBytes_length]
      exact hparts.size.2
    exact ⟨f::fs, List.Forall₂.cons ⟨hmerged, hsize, hrun⟩ hfs⟩

theorem frames_run {frames : List (List MediaPacket)} {fs : List MediaPacket}
    (h : List.Forall₂ Received frames fs) (hroom : ∀ f ∈ fs, Roomy bZero (delayed iDelta f))
    {s : PESPacketizer} (hs : Set iDelta bZero s) :
    ∃ t ps zs, (forM frames.flatten receive).run s = .ok () t ∧ Set iDelta bZero t ∧
      t.routed = s.routed ++ ps ∧ Contents bZero (fs.map (delayed iDelta)) zs ∧
      List.Forall₂ (fun q z => Piece bZero z.1 z.2 q) ps zs := by
  induction h generalizing s with
  | nil => exact ⟨s, [], [], rfl, hs, by simp, ⟨[], List.Forall₂.nil, rfl⟩, List.Forall₂.nil⟩
  | @cons parts f frames fs hf _ ih =>
    rcases finish_run hs hf.size (hroom f List.mem_cons_self) with
      ⟨t, ps, chunks, hrun, ht, hrouted, hcut, hpieces⟩
    rcases ih (fun g hg => hroom g (List.mem_cons_of_mem f hg)) ht with
      ⟨u, ps', zs, hrun', hu, hrouted', hzs, hpieces'⟩
    refine ⟨u, ps ++ ps', chunks.map (fun c => (delayed iDelta f, c)) ++ zs, ?_, hu, ?_,
      contents_cons hcut hzs, ?_⟩
    · rw [List.flatten_cons, List.forM_append, run_bind_of_ok (by rw [hf.run s hs.buffer, hrun]),
        hrun']
    · rw [hrouted', hrouted, List.append_assoc]
    · apply List.rel_append
      · rw [List.forall₂_map_right_iff]
        exact hpieces
      · exact hpieces'

theorem frames_error {frames : List (List MediaPacket)} {fs : List MediaPacket}
    (h : List.Forall₂ Received frames fs) (hroom : ∃ f ∈ fs, ¬ Roomy bZero (delayed iDelta f))
    {s : PESPacketizer} (hs : Set iDelta bZero s) :
    ∃ e t, (forM frames.flatten receive).run s = .error e t := by
  induction h generalizing s with
  | nil => simp at hroom
  | @cons parts f frames fs hf _ ih =>
    rw [List.flatten_cons, List.forM_append]
    by_cases hfirst : Roomy bZero (delayed iDelta f)
    · rcases finish_run hs hf.size hfirst with ⟨t, ps, chunks, hrun, ht, -, -, -⟩
      have hrest : ∃ g ∈ fs, ¬ Roomy bZero (delayed iDelta g) := by
        rcases hroom with ⟨g, hg, hne⟩
        rcases List.mem_cons.mp hg with rfl | hg
        · exact absurd hfirst hne
        · exact ⟨g, hg, hne⟩
      rw [run_bind_of_ok (by rw [hf.run s hs.buffer, hrun])]
      exact ih hrest ht
    · rcases finish_error hs hf.size hfirst with ⟨e, he⟩
      exact ⟨e, s, run_bind_of_error (by rw [hf.run s hs.buffer, he])⟩

/-- The parts of all frames and then the end packet. -/
def packetize (frames : List (List MediaPacket)) (pEnd : MediaPacket) : Packing Unit := do
  forM frames.flatten receive
  receive_end pEnd

end

end Sirannon.PES
