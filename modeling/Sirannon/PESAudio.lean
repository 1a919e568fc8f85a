import Sirannon.PESRoundTrip

/-!
# Audio frames in one PES packet

Audio frames wait until there are as many as asked for. The frame that finds the
buffer full is put together with all that wait, so a packet holds one frame more
than asked for, and the time of one frame less than it holds. What waits at the
end leaves with the end packet.
-/

set_option autoImplicit false

namespace Sirannon.PES
open MachineInt Bits Media Packetization StateError

/-! ## Packetizer -/

/-- `groups` are the frames that were put together, packet by packet. -/
structure PESAudioPacketizer extends PESPacketizer where
  iAudio : ℤ
  groups : List (List MediaPacket)
  deriving DecidableEq, Repr

def PESAudioPacketizer.init (mtu delta : ℤ) (bZero : Bool) (iAudio : ℤ) : PESAudioPacketizer where
  toPESPacketizer := PESPacketizer.init mtu delta bZero
  iAudio := iAudio
  groups := []

def PESAudioPacketizer.packed (s : PESAudioPacketizer) (pMerged : MediaPacket) :
    Except SirannonException PESAudioPacketizer := do
  let oSend ← split s.bZero s.iMaxSize (delayed s.iDelta pMerged)
  return { s with toPESPacketizer := s.toPESPacketizer.output oSend }

/-- The duration is multiplied by the number of frames there should be. -/
def PESAudioPacketizer.mergeAudio (s : PESAudioPacketizer) (oBuffer : List MediaPacket)
    (pPckt : MediaPacket) (iCount : ℤ) : Except SirannonException PESAudioPacketizer := do
  let merged ← mergeFrameParts oBuffer pPckt
  match merged.2 with
  | none => .error (undefinedBehaviour "duration of no packet")
  | some pMerged =>
    PESAudioPacketizer.packed
      { s with oBuffer := merged.1, groups := s.groups ++ [oBuffer ++ [pPckt]] }
      { pMerged with inc := int32 (pMerged.inc*iCount) }

def PESAudioPacketizer.receive (s : PESAudioPacketizer) (pInputPckt : MediaPacket) :
    Except SirannonException PESAudioPacketizer :=
  if pInputPckt.mux ≠ .ES then .error (typeError "Invalid packetization mode, expected(ES)")
  else if 1 < s.iAudio ∧ pInputPckt.content = .audio then
    if pInputPckt.type ≠ .media then
      match s.oBuffer.getLast? with
      | none => .error (undefinedBehaviour "back of an empty queue")
      | some pDirty => s.mergeAudio s.oBuffer.dropLast pDirty s.oBuffer.length
    else if (s.oBuffer.length : ℤ) < s.iAudio then .ok { s with oBuffer := s.oBuffer ++ [pInputPckt] }
    else s.mergeAudio s.oBuffer pInputPckt s.iAudio
  else do
    let merged ← mergeFrameParts s.oBuffer pInputPckt
    match merged.2 with
    | none => .ok { s with oBuffer := merged.1 }
    | some pMerged =>
      PESAudioPacketizer.packed
        { s with oBuffer := merged.1, groups := s.groups ++ [s.oBuffer ++ [pInputPckt]] } pMerged

def PESAudioPacketizer.receive_end (s : PESAudioPacketizer) (pInputPckt : MediaPacket) :
    Except SirannonException PESAudioPacketizer := do
  let pInputPckt := delayed s.iDelta pInputPckt
  let s ← if 1 < s.iAudio ∧ s.oBuffer ≠ [] then s.receive pInputPckt else .ok s
  return { s with routed := s.routed ++ [pInputPckt] }

def packetizeAudio (s : PESAudioPacketizer) (frames : List MediaPacket) (pEnd : MediaPacket) :
    Except SirannonException PESAudioPacketizer := do
  let s ← frames.foldlM PESAudioPacketizer.receive s
  s.receive_end pEnd

/-! ## What is put together -/

/-- An audio frame in a single packet. -/
structure AudioFrame (p : MediaPacket) : Prop where
  type : p.type = .media
  content : p.content = .audio
  mux : p.mux = .ES
  frameend : p.frameend = true

variable {k mtu delta d : ℤ} {bZero : Bool} {s t : PESAudioPacketizer} {p q pEnd : MediaPacket}
  {ps fs : List MediaPacket}

theorem output_kept (s : PESPacketizer) (oSend : List MediaPacket) :
    (s.output oSend).oBuffer = s.oBuffer ∧ (s.output oSend).iMaxSize = s.iMaxSize ∧
      (s.output oSend).iDelta = s.iDelta ∧ (s.output oSend).bZero = s.bZero := by
  have hloop : ∀ (iINC : ℤ) (qs : List MediaPacket) (iDTS : ℤ) (s : PESPacketizer),
      (outputLoop iINC qs iDTS s).oBuffer = s.oBuffer ∧
        (outputLoop iINC qs iDTS s).iMaxSize = s.iMaxSize ∧
        (outputLoop iINC qs iDTS s).iDelta = s.iDelta ∧ (outputLoop iINC qs iDTS s).bZero = s.bZero := by
    intro iINC qs
    induction qs with
    | nil => exact fun _ _ => ⟨rfl, rfl, rfl, rfl⟩
    | cons q qs ih =>
      intro iDTS s
      exact ih (int32 (iDTS+iINC))
        { s with iUnit := s.iUnit+1, routed := s.routed ++ [stamped q iDTS s.iUnit] }
  cases oSend with
  | nil => exact ⟨rfl, rfl, rfl, rfl⟩
  | cons front rest => exact hloop _ _ _ s

/-- The settings stay as they are. -/
structure Kept (s t : PESAudioPacketizer) : Prop where
  iAudio : t.iAudio = s.iAudio
  iMaxSize : t.iMaxSize = s.iMaxSize
  iDelta : t.iDelta = s.iDelta
  bZero : t.bZero = s.bZero

theorem packed_kept (h : s.packed p = .ok t) : Kept s t ∧ t.oBuffer = s.oBuffer ∧ t.groups = s.groups := by
  rw [PESAudioPacketizer.packed] at h
  obtain ⟨oSend, -, h⟩ := bind_ok.1 h
  cases h
  obtain ⟨hbuffer, hmax, hdelta, hzero⟩ := output_kept s.toPESPacketizer oSend
  exact ⟨⟨rfl, hmax, hdelta, hzero⟩, hbuffer, rfl⟩

/-- A frame with its end closes a group with all that waits. -/
theorem merge_closes (hend : p.frameend = true) {r : List MediaPacket × Option MediaPacket}
    (h : mergeFrameParts ps p = .ok r) : r.1 = [] := by
  cases ps with
  | nil =>
    rw [mergeFrameParts, if_pos hend] at h
    cases h
    rfl
  | cons front rest =>
    rw [mergeFrameParts, if_pos hend] at h
    obtain ⟨f, -, h⟩ := bind_ok.1 h
    cases h
    rfl

theorem mergeAudio_groups {iCount : ℤ} (hend : p.frameend = true) (h : s.mergeAudio ps p iCount = .ok t) :
    Kept s t ∧ t.oBuffer = [] ∧ t.groups = s.groups ++ [ps ++ [p]] := by
  rw [PESAudioPacketizer.mergeAudio] at h
  obtain ⟨merged, hmerge, h⟩ := bind_ok.1 h
  have hempty := merge_closes hend hmerge
  split at h
  · cases h
  · obtain ⟨hkept, hbuffer, hgroups⟩ := packed_kept h
    exact ⟨⟨hkept.iAudio, hkept.iMaxSize, hkept.iDelta, hkept.bZero⟩, hbuffer.trans hempty, hgroups⟩

/-- After some frames, groups of one frame too many have left, and at most as many frames as asked for
wait. -/
structure Gathered (k : ℤ) (fs : List MediaPacket) (s : PESAudioPacketizer) : Prop where
  iAudio : s.iAudio = k
  all : s.groups.flatten ++ s.oBuffer = fs
  groups : ∀ g ∈ s.groups, (g.length : ℤ) = k+1
  waiting : (s.oBuffer.length : ℤ) ≤ k
  frames : ∀ p ∈ s.oBuffer, AudioFrame p

theorem receive_gathered (hk : 1 < k) (hp : AudioFrame p) (h : Gathered k fs s) (hrun : s.receive p = .ok t) :
    Gathered k (fs ++ [p]) t := by
  rw [PESAudioPacketizer.receive, if_neg (not_not.2 hp.mux), if_pos ⟨by rw [h.iAudio]; exact hk, hp.content⟩,
    if_neg (not_not.2 hp.type)] at hrun
  split_ifs at hrun with hroom
  · cases hrun
    refine ⟨h.iAudio, ?_, h.groups, ?_, ?_⟩
    · show s.groups.flatten ++ (s.oBuffer ++ [p]) = fs ++ [p]
      rw [← List.append_assoc, h.all]
    · show ((s.oBuffer ++ [p]).length : ℤ) ≤ k
      rw [List.length_append, List.length_singleton, ← h.iAudio]
      omega
    · intro q hq
      rcases List.mem_append.1 hq with hq | hq
      · exact h.frames q hq
      · rw [List.mem_singleton.1 hq]
        exact hp
  · obtain ⟨hkept, hempty, hgroups⟩ := mergeAudio_groups hp.frameend hrun
    have hfull : (s.oBuffer.length : ℤ) = k := by
      have hle := h.waiting
      have haudio := h.iAudio
      omega
    refine ⟨hkept.iAudio.trans h.iAudio, ?_, ?_, ?_, ?_⟩
    · rw [hgroups, hempty, List.flatten_append, List.flatten_singleton, List.append_nil, ← List.append_assoc,
        h.all]
    · intro g hg
      rw [hgroups] at hg
      rcases List.mem_append.1 hg with hg | hg
      · exact h.groups g hg
      · rw [List.mem_singleton.1 hg, List.length_append, List.length_singleton]
        omega
    · rw [hempty, List.length_nil]
      omega
    · rw [hempty]
      exact fun q hq => absurd hq List.not_mem_nil

theorem frames_gathered (hk : 1 < k) (hps : ∀ p ∈ ps, AudioFrame p) (h : Gathered k fs s)
    (hrun : ps.foldlM PESAudioPacketizer.receive s = .ok t) : Gathered k (fs ++ ps) t := by
  induction ps generalizing fs s with
  | nil =>
    cases hrun
    rw [List.append_nil]
    exact h
  | cons p ps ih =>
    rw [List.foldlM_cons] at hrun
    obtain ⟨s', hs', hrun⟩ := bind_ok.1 hrun
    have hnext := receive_gathered hk (hps p List.mem_cons_self) h hs'
    rw [← List.singleton_append, ← List.append_assoc]
    exact ih (fun q hq => hps q (List.mem_cons_of_mem p hq)) hnext hrun

theorem init_gathered (hk : 1 < k) : Gathered k [] (PESAudioPacketizer.init mtu delta bZero k) where
  iAudio := rfl
  all := rfl
  groups := fun _ hg => absurd hg List.not_mem_nil
  waiting := by
    show ((0 : ℕ) : ℤ) ≤ k
    omega
  frames := fun _ hp => absurd hp List.not_mem_nil

/-! ## One packet for what waits -/

theorem audio_merged (hps : ∀ q ∈ ps ++ [p], AudioFrame q) (hinc : ∀ q ∈ ps ++ [p], q.inc = d) :
    ∃ f, mergeFrameParts ps p = .ok ([], some f) ∧ f.bytes = allBytes (ps ++ [p]) ∧ f.inc = d ∧
      f.content = .audio ∧ (ps = [] → f = p) ∧ (ps ≠ [] → f.iFront = iBufferSpace) := by
  have hend := (hps p (by simp)).frameend
  cases ps with
  | nil =>
    refine ⟨p, ?_, ?_, hinc p (by simp), (hps p (by simp)).content, fun _ => rfl, fun hne => absurd rfl hne⟩
    · rw [mergeFrameParts, if_pos hend]
    · simp [allBytes]
  | cons front rest =>
    have hfront : front ∈ front::rest ++ [p] := by simp
    refine ⟨_, merge_several front rest hend, ?_, hinc front hfront, (hps front hfront).content,
      fun hnil => absurd hnil (List.cons_ne_nil front rest), fun _ => rfl⟩
    simp [mergedPckt]

theorem delayed_header (iDelta x : ℤ) (f : MediaPacket) :
    headerSize (delayed iDelta { f with inc := x }) = headerSize (delayed iDelta f) := by
  rw [delayed, delayed]
  split_ifs <;> rfl

theorem delayed_kept (iDelta : ℤ) (f : MediaPacket) : (delayed iDelta f).content = f.content ∧
    (delayed iDelta f).mux = f.mux ∧ (delayed iDelta f).inc = f.inc := by
  rw [delayed]
  split_ifs
  · exact ⟨rfl, rfl, rfl⟩
  · exact ⟨rfl, rfl, rfl⟩

theorem output_length (s : PESPacketizer) (oSend : List MediaPacket) :
    (s.output oSend).routed.length = s.routed.length+oSend.length := by
  have hloop : ∀ (iINC : ℤ) (qs : List MediaPacket) (iDTS : ℤ) (s : PESPacketizer),
      (outputLoop iINC qs iDTS s).routed.length = s.routed.length+qs.length := by
    intro iINC qs
    induction qs with
    | nil => exact fun _ _ => rfl
    | cons q qs ih =>
      intro iDTS s
      rw [outputLoop, ih, List.length_append, List.length_singleton, List.length_cons]
      omega
  cases oSend with
  | nil => rfl
  | cons front rest => exact hloop _ _ _ s

/-- What is too large leaves in two packets at least. -/
theorem splitLoop_several {iMaxSize fuel : ℕ} {g : MediaPacket} {qs : List MediaPacket}
    (h : splitLoop bZero iMaxSize fuel g = .ok qs) (hsize : iMaxSize < g.size) (hfuel : 2 ≤ fuel) :
    2 ≤ qs.length := by
  obtain ⟨fuel, rfl⟩ := Nat.exists_eq_add_of_le hfuel
  rw [show 2+fuel = fuel+1+1 by omega, splitLoop, if_neg (by omega)] at h
  obtain ⟨p₁, -, h⟩ := bind_ok.1 h
  obtain ⟨p₂, -, h⟩ := bind_ok.1 h
  obtain ⟨rest, hrest, h⟩ := bind_ok.1 h
  obtain ⟨qs₁, hqs₁, h⟩ := bind_ok.1 h
  cases h
  have hleft : rest.size ≠ 0 := by
    rw [MediaPacket.pop_front] at hrest
    split_ifs at hrest
    cases hrest
    rw [popped_size]
    omega
  rw [splitLoop, if_neg hleft] at hqs₁
  obtain ⟨p₃, -, h⟩ := bind_ok.1 hqs₁
  obtain ⟨p₄, -, h⟩ := bind_ok.1 h
  obtain ⟨rest₂, -, h⟩ := bind_ok.1 h
  obtain ⟨qs₂, -, h⟩ := bind_ok.1 h
  cases h
  rw [List.length_cons, List.length_cons]
  omega

theorem split_several {iMaxSize : ℤ} {g : MediaPacket} {qs : List MediaPacket}
    (h : split bZero iMaxSize g = .ok qs) (hcontent : g.content = .audio) (hmax : 1 ≤ uint32 iMaxSize)
    (hsize : uint32 iMaxSize < g.size) : 2 ≤ qs.length := by
  rw [split, if_neg (by
    rintro (⟨-, hvideo⟩ | hle)
    · rw [hcontent] at hvideo
      cases hvideo
    · omega)] at h
  exact splitLoop_several h hsize (by omega)

/-- A PES packet with the frames of a group, and their time. -/
structure Carries (bZero : Bool) (g : List MediaPacket) (out : MediaPacket) : Prop where
  mux : out.mux = .PES
  payload : ∃ f, Piece bZero f (allBytes g) out
  inc : out.inc = (g.map fun p => p.inc).sum

/-- One packet is enough for the frames, and there is room for its header. -/
structure Single (iMaxSize iDelta : ℤ) (fs : List MediaPacket) : Prop where
  size : sizes fs ≤ uint32 iMaxSize
  room : ∀ p, fs = [p] → headerSize (delayed iDelta p) ≤ p.iFront

/-- The frame that is sent for a group. -/
theorem audio_sent (hps : ∀ q ∈ ps ++ [p], AudioFrame q) (hinc : ∀ q ∈ ps ++ [p], q.inc = d) (iDelta iCount : ℤ) :
    ∃ f, mergeFrameParts ps p = .ok ([], some f) ∧
      (delayed iDelta { f with inc := int32 (f.inc*iCount) }).bytes = allBytes (ps ++ [p]) ∧
      (delayed iDelta { f with inc := int32 (f.inc*iCount) }).inc = int32 (d*iCount) ∧
      (delayed iDelta { f with inc := int32 (f.inc*iCount) }).content = .audio ∧
      (headerSize (delayed iDelta { f with inc := int32 (f.inc*iCount) }) ≤
          (delayed iDelta { f with inc := int32 (f.inc*iCount) }).iFront ↔
        ∀ q, ps ++ [p] = [q] → headerSize (delayed iDelta q) ≤ q.iFront) := by
  obtain ⟨f, hmerge, hbytes, hd, hcontent, hone, hseveral⟩ := audio_merged hps hinc
  obtain ⟨hkcontent, -, hkinc⟩ := delayed_kept iDelta { f with inc := int32 (f.inc*iCount) }
  refine ⟨f, hmerge, (delayed_bytes _).trans hbytes, ?_, hkcontent.trans hcontent, ?_⟩
  · rw [hkinc, hd]
  · rw [delayed_header, delayed_front]
    show headerSize (delayed iDelta f) ≤ f.iFront ↔ _
    by_cases hnil : ps = []
    · rw [hone hnil, hnil, List.nil_append]
      constructor
      · intro hroom q hq
        rw [← (List.cons.inj hq).1]
        exact hroom
      · intro hroom
        exact hroom p rfl
    · have hle := headerSize_le (delayed iDelta f)
      rw [hseveral hnil]
      constructor
      · intro _ q hq
        rw [List.append_eq_singleton_iff] at hq
        rcases hq with ⟨hq, -⟩ | ⟨-, hq⟩
        · exact absurd hq hnil
        · cases hq
      · intro _
        rw [iBufferSpace]
        omega

/-- What a frame of one packet is sent in. -/
theorem packed_single (s : PESPacketizer) {g : MediaPacket} (hsize : g.size ≤ uint32 s.iMaxSize)
    (hroom : headerSize g ≤ g.iFront) : ∃ oSend out, split s.bZero s.iMaxSize g = .ok oSend ∧
      (s.output oSend).routed = s.routed ++ [out] ∧ out.mux = .PES ∧
        Piece s.bZero g g.bytes out ∧ out.inc = g.inc := by
  have hone : (s.bZero = true ∧ g.content = .video) ∨ g.size ≤ uint32 s.iMaxSize := Or.inr hsize
  obtain ⟨hd, hsplit, hbits, hlength⟩ := split_single hone
  rw [push_front_ok (by omega)] at hsplit
  exact ⟨[g.fronted hd], _, hsplit, rfl, rfl, ⟨rfl, hd, rfl, hbits, hlength⟩, rfl⟩

theorem mergeAudio_sent (hps : ∀ q ∈ ps ++ [p], AudioFrame q) (hinc : ∀ q ∈ ps ++ [p], q.inc = d) (iCount : ℤ)
    (h : Single s.iMaxSize s.iDelta (ps ++ [p])) :
    ∃ t out, s.mergeAudio ps p iCount = .ok t ∧ t.routed = s.routed ++ [out] ∧ out.mux = .PES ∧
      (∃ f, Piece s.bZero f (allBytes (ps ++ [p])) out) ∧ out.inc = int32 (d*iCount) := by
  obtain ⟨f, hmerge, hbytes, hd, hcontent, hroom⟩ := audio_sent hps hinc s.iDelta iCount
  generalize hg : delayed s.iDelta { f with inc := int32 (f.inc*iCount) } = g at hbytes hd hcontent hroom
  have hsize : g.size ≤ uint32 s.iMaxSize := by
    rw [MediaPacket.size, hbytes, allBytes_length]
    exact h.size
  obtain ⟨oSend, out, hsplit, hrouted, hmux, hpiece, hincs⟩ :=
    packed_single { s.toPESPacketizer with oBuffer := [] } hsize (hroom.2 h.room)
  refine ⟨{ s with
    toPESPacketizer := PESPacketizer.output { s.toPESPacketizer with oBuffer := [] } oSend
    groups := s.groups ++ [ps ++ [p]] }, out, ?_, hrouted, hmux, ⟨g, ?_⟩, hincs.trans hd⟩
  · rw [PESAudioPacketizer.mergeAudio, hmerge]
    show PESAudioPacketizer.packed _ _ = _
    rw [PESAudioPacketizer.packed]
    show (split s.bZero s.iMaxSize (delayed s.iDelta _) >>= fun oSend => _) = _
    rw [hg]
    show (split s.bZero s.iMaxSize g >>= fun oSend => _) = _
    have hsplit' : split s.bZero s.iMaxSize g = .ok oSend := hsplit
    rw [hsplit']
    rfl
  · rw [← hbytes]
    exact hpiece

/-- Nothing but one packet for each group is a single packet. -/
theorem mergeAudio_single {iCount : ℤ} (hps : ∀ q ∈ ps ++ [p], AudioFrame q) (hinc : ∀ q ∈ ps ++ [p], q.inc = d)
    (hmax : 1 ≤ uint32 s.iMaxSize) (h : s.mergeAudio ps p iCount = .ok t)
    (hlen : t.routed.length = s.routed.length+1) : Single s.iMaxSize s.iDelta (ps ++ [p]) := by
  obtain ⟨f, hmerge, hbytes, hd, hcontent, hroom⟩ := audio_sent hps hinc s.iDelta iCount
  generalize hg : delayed s.iDelta { f with inc := int32 (f.inc*iCount) } = g at hbytes hd hcontent hroom
  rw [PESAudioPacketizer.mergeAudio, hmerge] at h
  change PESAudioPacketizer.packed _ _ = _ at h
  rw [PESAudioPacketizer.packed] at h
  change (split s.bZero s.iMaxSize (delayed s.iDelta _) >>= fun oSend => _) = _ at h
  rw [hg] at h
  obtain ⟨oSend, hsplit, h⟩ := bind_ok.1 h
  cases h
  have hone : oSend.length = 1 := by
    have hout := output_length { s.toPESPacketizer with oBuffer := [] } oSend
    change (PESPacketizer.output { s.toPESPacketizer with oBuffer := [] } oSend).routed.length = _ at hlen
    rw [hout] at hlen
    exact Nat.add_left_cancel hlen
  have hsum : g.size = sizes (ps ++ [p]) := by
    rw [MediaPacket.size, hbytes, allBytes_length]
  have hsize : g.size ≤ uint32 s.iMaxSize := by
    by_contra hlarge
    have htwo := split_several hsplit hcontent hmax (by omega)
    omega
  refine ⟨by omega, hroom.1 ?_⟩
  by_contra hfull
  have hwhole : (s.bZero = true ∧ g.content = .video) ∨ g.size ≤ uint32 s.iMaxSize := Or.inr hsize
  obtain ⟨hd', hsplit', -, hlength⟩ := split_single hwhole
  rw [hsplit', MediaPacket.push_front, if_pos (by omega)] at hsplit
  cases hsplit

/-! ## Whole streams -/

/-- As many frames as asked for in each packet, in the last one the rest. -/
structure Aggregated (k : ℤ) (bZero : Bool) (fs : List MediaPacket) (groups : List (List MediaPacket))
    (outs : List MediaPacket) : Prop where
  all : groups.flatten = fs
  full : ∀ g ∈ groups.dropLast, (g.length : ℤ) = k
  last : ∀ g ∈ groups.getLast?, 1 ≤ g.length ∧ (g.length : ℤ) ≤ k
  carried : List.Forall₂ (Carries bZero) groups outs

theorem frames_wait (hk : 1 < s.iAudio) (hps : ∀ p ∈ ps, AudioFrame p)
    (hlen : ((s.oBuffer ++ ps).length : ℤ) ≤ s.iAudio) :
    ps.foldlM PESAudioPacketizer.receive s = .ok { s with oBuffer := s.oBuffer ++ ps } := by
  induction ps generalizing s with
  | nil =>
    rw [List.append_nil]
    rfl
  | cons p ps ih =>
    have hp := hps p List.mem_cons_self
    have hroom : (s.oBuffer.length : ℤ) < s.iAudio := by
      rw [List.length_append, List.length_cons] at hlen
      omega
    have hstep : s.receive p = .ok { s with oBuffer := s.oBuffer ++ [p] } := by
      rw [PESAudioPacketizer.receive, if_neg (not_not.2 hp.mux), if_pos ⟨hk, hp.content⟩,
        if_neg (not_not.2 hp.type), if_pos hroom]
    rw [List.append_cons] at hlen
    rw [List.foldlM_cons, hstep]
    show List.foldlM PESAudioPacketizer.receive _ ps = _
    rw [ih (s := { s with oBuffer := s.oBuffer ++ [p] }) hk (fun q hq => hps q (List.mem_cons_of_mem p hq)) hlen,
      List.append_assoc, List.singleton_append]

/-- What waits leaves in one packet when the end packet comes. -/
theorem receive_tail (hk : 1 < s.iAudio) (hp : pEnd.type ≠ .media ∧ pEnd.content = .audio ∧ pEnd.mux = .ES)
    (hbuffer : s.oBuffer = ps ++ [p]) :
    s.receive_end pEnd = (s.mergeAudio ps p (ps ++ [p]).length).map fun t =>
      { t with routed := t.routed ++ [delayed s.iDelta pEnd] } := by
  obtain ⟨htype, hcontent, hmux⟩ := hp
  obtain ⟨hkcontent, hkmux, -⟩ := delayed_kept s.iDelta pEnd
  have hreceive : s.receive (delayed s.iDelta pEnd) = s.mergeAudio ps p (ps ++ [p]).length := by
    rw [PESAudioPacketizer.receive, if_neg (by rw [hkmux, hmux]; exact not_not.2 rfl),
      if_pos ⟨hk, hkcontent.trans hcontent⟩, if_pos (by rw [delayed_type]; exact htype), hbuffer, List.getLast?_concat, List.dropLast_concat]
  rw [PESAudioPacketizer.receive_end]
  dsimp only
  rw [if_pos ⟨hk, by rw [hbuffer]; exact List.append_ne_nil_of_right_ne_nil _ (List.cons_ne_nil _ _)⟩, hreceive]
  cases s.mergeAudio ps p (ps ++ [p]).length <;> rfl

theorem receive_nothing (hbuffer : s.oBuffer = []) :
    s.receive_end pEnd = .ok { s with routed := s.routed ++ [delayed s.iDelta pEnd] } := by
  rw [PESAudioPacketizer.receive_end]
  dsimp only
  rw [if_neg (by
    rintro ⟨-, hne⟩
    exact hne hbuffer)]
  rfl

theorem inc_sum (hinc : ∀ q ∈ fs, q.inc = d) : (fs.map fun q => q.inc).sum = d*fs.length := by
  induction fs with
  | nil => simp
  | cons f fs ih =>
    rw [List.map_cons, List.sum_cons, ih fun q hq => hinc q (List.mem_cons_of_mem f hq),
      hinc f List.mem_cons_self, List.length_cons]
    push_cast
    ring

/-- With more frames than asked for, the first packet holds one too many. -/
theorem too_many (hk : 1 < k) (hfs : ∀ p ∈ fs, AudioFrame p) (hlen : k < (fs.length : ℤ))
    (hEnd : pEnd.type ≠ .media ∧ pEnd.content = .audio ∧ pEnd.mux = .ES) {outs : List MediaPacket}
    (h : packetizeAudio (PESAudioPacketizer.init mtu delta bZero k) fs pEnd = .ok s) :
    ¬ Aggregated k bZero fs s.groups outs := by
  intro hagg
  rw [packetizeAudio] at h
  obtain ⟨t, ht, h⟩ := bind_ok.1 h
  have hgathered := frames_gathered hk hfs (init_gathered hk) ht
  rw [List.nil_append] at hgathered
  have hk' : 1 < t.iAudio := by
    rw [hgathered.iAudio]
    exact hk
  -- The groups so far stay in front.
  obtain ⟨more, hmore⟩ : ∃ more, s.groups = t.groups ++ more := by
    rcases List.eq_nil_or_concat t.oBuffer with hnil | ⟨ps, p, hwaits⟩
    · rw [receive_nothing hnil] at h
      cases h
      exact ⟨[], (List.append_nil _).symm⟩
    · rw [List.concat_eq_append] at hwaits
      rw [receive_tail hk' hEnd hwaits] at h
      obtain ⟨u, hu, rfl⟩ := map_ok.1 h
      have hp := hgathered.frames p (by rw [hwaits]; simp)
      exact ⟨_, (mergeAudio_groups hp.frameend hu).2.2⟩
  cases hgroups : t.groups with
  | nil =>
    have hall := hgathered.all
    have hwaiting := hgathered.waiting
    rw [hgroups, List.flatten_nil, List.nil_append] at hall
    rw [hall] at hwaiting
    omega
  | cons g gs =>
    have hg := hgathered.groups g (by rw [hgroups]; exact List.mem_cons_self)
    rw [hgroups, List.cons_append] at hmore
    cases hrest : gs ++ more with
    | nil =>
      rw [hrest] at hmore
      have hlast := (hagg.last g (by rw [hmore]; rfl)).2
      omega
    | cons g' gs' =>
      rw [hrest] at hmore
      have hfull := hagg.full g (by
        rw [hmore, List.dropLast_cons_of_ne_nil (List.cons_ne_nil _ _)]
        exact List.mem_cons_self)
      omega

theorem maxSize_pos (bZero : Bool) : 1 ≤ uint32 (maxSize bZero) := by
  cases bZero with
  | true =>
    rw [maxSize, uint32]
    decide
  | false =>
    rw [maxSize, uint32]
    decide

theorem tail_aggregated {iDelta : ℤ} (hk : 1 < k) (hfs : ∀ q ∈ ps ++ [p], AudioFrame q)
    (hinc : ∀ q ∈ ps ++ [p], q.inc = d)
    (hEnd : pEnd.type ≠ .media ∧ pEnd.content = .audio ∧ pEnd.mux = .ES) (hlen : ((ps ++ [p]).length : ℤ) ≤ k)
    (hs : s.iAudio = k ∧ s.oBuffer = ps ++ [p] ∧ s.iMaxSize = maxSize bZero ∧ s.iDelta = iDelta ∧
      s.bZero = bZero ∧ s.routed = [] ∧ s.groups = []) :
    (∃ t outs, s.receive_end pEnd = .ok t ∧ t.routed = outs ++ [delayed iDelta pEnd] ∧
      Aggregated k bZero (ps ++ [p]) t.groups outs) ↔
    Single (maxSize bZero) iDelta (ps ++ [p]) ∧ -2^31 ≤ d*(ps ++ [p]).length ∧
      d*(ps ++ [p]).length < 2^31 := by
  obtain ⟨haudio, hbuffer, hmax, hdelta, hzero, hrouted, hgroups⟩ := hs
  have hend := (hfs p (by simp)).frameend
  rw [receive_tail (by rw [haudio]; exact hk) hEnd hbuffer, hdelta, ← hmax, ← hdelta]
  constructor
  · rintro ⟨t, outs, hrun, hout, hagg⟩
    obtain ⟨u, hu, rfl⟩ := map_ok.1 hrun
    have hone : u.groups = [ps ++ [p]] := by
      rw [(mergeAudio_groups hend hu).2.2, hgroups, List.nil_append]
    have houts : u.routed = outs := List.append_cancel_right hout
    have hcarried := hagg.carried
    change List.Forall₂ _ u.groups _ at hcarried
    rw [hone] at hcarried
    obtain ⟨out, rest, hcarries, hnil, rfl⟩ := List.forall₂_cons_left_iff.1 hcarried
    cases hnil
    have hsingle := mergeAudio_single hfs hinc (by rw [hmax]; exact maxSize_pos bZero) hu (by
      rw [houts, hrouted]
      rfl)
    obtain ⟨u', out', hu', hrouted', -, -, hinc'⟩ := mergeAudio_sent hfs hinc (ps ++ [p]).length hsingle
    rw [hu] at hu'
    cases hu'
    rw [houts, hrouted, List.nil_append] at hrouted'
    cases hrouted'
    have hsum := hcarries.inc
    rw [hinc', inc_sum hinc] at hsum
    refine ⟨hsingle, ?_⟩
    rw [← hsum]
    exact ⟨int32_low _, int32_high _⟩
  · rintro ⟨hsingle, hlow, hhigh⟩
    obtain ⟨u, out, hu, hrouted', hmux, hpiece, hinc'⟩ := mergeAudio_sent hfs hinc (ps ++ [p]).length hsingle
    have hone : u.groups = [ps ++ [p]] := by
      rw [(mergeAudio_groups hend hu).2.2, hgroups, List.nil_append]
    refine ⟨_, [out], map_ok.2 ⟨u, hu, rfl⟩, ?_, ?_⟩
    · show u.routed ++ _ = _
      rw [hrouted', hrouted]
      rfl
    · change Aggregated k bZero (ps ++ [p]) u.groups [out]
      rw [hone]
      refine ⟨by simp, fun g hg => absurd hg List.not_mem_nil, ?_, List.Forall₂.cons ?_ List.Forall₂.nil⟩
      · intro g hg
        cases hg
        refine ⟨?_, hlen⟩
        show 1 ≤ (ps ++ [p]).length
        rw [List.length_append, List.length_singleton]
        omega
      · rw [hzero] at hpiece
        refine ⟨hmux, hpiece, ?_⟩
        rw [hinc', inc_sum hinc, int32_of_range _ hlow hhigh]

/-- Two bytes of sound, 1920 ticks long. -/
def oFrame : MediaPacket := { MediaPacket.new .media .audio 2 with codec := .mp4a, inc := 1920, bytes := [0x21, 0x10] }

def oEnd : MediaPacket := MediaPacket.new .end .audio 0

end Sirannon.PES
