import Sirannon.RTMPPacketizer

/-!
# RTMP tags

The chunks of a packed message put together are its tag header and the frame,
and the header is made of fields that depend on the codec only.
-/

set_option autoImplicit false

namespace Sirannon.RTMPTag
open MachineInt BitString Bits Media StateError

/-! ## Chunk headers -/

theorem headerSize_of_bits {b : UInt8} {fmt : ℕ} {bs : List Bool} (hfmt : fmt < 4)
    (h : ofNat 8 b.toNat = ofNat 2 fmt ++ bs) (xs : List UInt8) :
    headerSize (b::xs) = headerBytes fmt := by
  have hlength := congrArg List.length h
  rw [List.length_append, ofNat_length, ofNat_length] at hlength
  have hvalue := congrArg value h
  have hlow := value_lt bs
  rw [value_append, value_ofNat, value_ofNat, show bs.length = 6 by omega,
    Nat.mod_eq_of_lt b.toNat_lt, Nat.mod_eq_of_lt (by omega : fmt < 2^2)] at hvalue
  rw [show bs.length = 6 by omega] at hlow
  have hdiv : b.toNat/64 = fmt := by omega
  rw [headerSize, List.headD_cons, hdiv]

theorem chunkFields_size {fmt : ℕ} (hfmt : fmt < 4) (s : RTMPPacketizer) (t : Timing) (iSize : ℕ) :
    ((chunkFields fmt s t iSize).map Prod.fst).sum = 8*headerBytes fmt ∧
      ∀ f ∈ chunkFields fmt s t iSize, 0 < f.1 := by
  match fmt, hfmt with
  | 0, _ => simp [chunkFields, headerBytes]
  | 1, _ => simp [chunkFields, headerBytes]
  | 2, _ => simp [chunkFields, headerBytes]
  | 3, _ => simp [chunkFields, headerBytes]

theorem headerBytes_le (fmt : ℕ) : 1 ≤ headerBytes fmt ∧ headerBytes fmt ≤ 12 := by
  unfold headerBytes
  split <;> decide

theorem chunkHeader_run {fmt : ℕ} (hfmt : fmt < 4) (s : RTMPPacketizer) (t : Timing) (iSize : ℕ) :
    ∃ o, (OBits.new 2048).writes (chunkFields fmt s t iSize) = .ok o ∧ o.data.length ≤ 12 ∧
      ∀ xs, headerSize (o.data ++ xs) = o.data.length := by
  rcases chunkFields_size hfmt s t iSize with ⟨hsum, hpos⟩
  rcases headerBytes_le fmt with ⟨hlow, hhigh⟩
  have hroom : headerBytes fmt ≤ 2048 := by omega
  rcases OBits.writes_new (chunkFields fmt s t iSize) hsum hroom hpos with ⟨o, ho, hbits, hlength⟩
  refine ⟨o, ho, by omega, ?_⟩
  intro xs
  cases hdata : o.data with
  | nil =>
    rw [hdata, List.length_nil] at hlength
    omega
  | cons b rest =>
    unfold chunkFields at hbits
    rw [hdata, ofBytes_cons, fieldBits, List.flatMap_cons, List.flatMap_cons,
      ← List.append_assoc] at hbits
    have hfirst := (List.append_inj hbits (by simp)).1
    rw [List.cons_append, headerSize_of_bits hfmt hfirst, ← hlength, hdata]

theorem chunkFmt_lt (bFirstChunk bFull : Bool) (t : Timing) : chunkFmt bFirstChunk bFull t < 4 := by
  rw [chunkFmt]
  split_ifs <;> decide

/-! ## Chunks -/

theorem oneChunk_run (pPckt : MediaPacket) {oChunkHeader : List UInt8} {iPayload : ℕ}
    (hheader : oChunkHeader.length ≤ 12) (hsize : iPayload ≤ pPckt.size) :
    ∃ pChunk, oneChunk pPckt oChunkHeader iPayload = .ok (pChunk, pPckt.popped iPayload) ∧
      pChunk.bytes = oChunkHeader ++ pPckt.bytes.take iPayload := by
  have htake : (pPckt.bytes.take iPayload).length = iPayload := by
    rw [List.length_take]
    exact Nat.min_eq_left hsize
  have hfirst : (MediaPacket.new .media pPckt.content iPayload).push_back oChunkHeader =
      .ok ((MediaPacket.new .media pPckt.content iPayload).pushed oChunkHeader) := by
    apply push_back_ok
    simp only [MediaPacket.new, MediaPacket.size, List.length_nil, iBufferSpace]
    omega
  have hsecond : ((MediaPacket.new .media pPckt.content iPayload).pushed oChunkHeader).push_back
      (pPckt.bytes.take iPayload) = .ok (((MediaPacket.new .media pPckt.content iPayload).pushed
        oChunkHeader).pushed (pPckt.bytes.take iPayload)) := by
    apply push_back_ok
    rw [htake]
    simp only [MediaPacket.new, MediaPacket.size, MediaPacket.pushed, List.nil_append,
      iBufferSpace]
    omega
  refine ⟨((MediaPacket.new .media pPckt.content iPayload).pushed oChunkHeader).pushed
    (pPckt.bytes.take iPayload), ?_, ?_⟩
  · rw [oneChunk, hfirst]
    simp only [bind, Except.bind, hsecond, pop_front_ok hsize]
    rfl
  · simp

/-- What packing leaves alone. -/
structure SameSetup (s t : RTMPPacketizer) : Prop where
  flag : t.oFlag = s.oFlag
  chunkSize : t.iChunkSize = s.iChunkSize

theorem sameSetup_trans {s t u : RTMPPacketizer} (h : SameSetup s t) (h' : SameSetup t u) :
    SameSetup s u := ⟨h'.flag.trans h.flag, h'.chunkSize.trans h.chunkSize⟩

def joined (chunks : List MediaPacket) : List UInt8 :=
  chunks.flatMap fun c => c.bytes.drop (headerSize c.bytes)

def Message.extended (m : Message) (chunks : List MediaPacket) : Message :=
  { m with chunks := m.chunks ++ chunks }

theorem extended_nil (m : Message) : m.extended [] = m := by
  rw [Message.extended, List.append_nil]

theorem extended_extended (m : Message) (cs ds : List MediaPacket) :
    (m.extended cs).extended ds = m.extended (cs ++ ds) := by
  rw [Message.extended, Message.extended, Message.extended, List.append_assoc]

theorem addChunk_last (pChunk : MediaPacket) (ms : List Message) (m : Message) :
    addChunk pChunk (ms ++ [m]) = ms ++ [m.extended [pChunk]] := by
  induction ms with
  | nil => rfl
  | cons n ms ih =>
    rw [List.cons_append]
    cases hrest : ms ++ [m] with
    | nil => simp at hrest
    | cons n' rest =>
      rw [addChunk, ← hrest, ih, List.cons_append]
      simp

theorem labelled_bytes (pChunk pPckt : MediaPacket) (bFirstChunk : Bool) (iUnit iSub : ℤ) :
    (labelled pChunk pPckt bFirstChunk iUnit iSub).bytes = pChunk.bytes := rfl

/-- The loop cuts all of the packet into chunks of the last message. -/
theorem chunkLoop_run (t : Timing) {fuel : ℕ} {p : MediaPacket} (bFirstChunk : Bool) (iSub : ℤ)
    {s : RTMPPacketizer} {ms : List Message} {m : Message} (hfuel : p.size ≤ fuel)
    (hchunk : 1 ≤ s.iChunkSize) (hpacked : s.packed = ms ++ [m])
    (hreset : s.bReset = false ∨ p.size ≠ 0) :
    ∃ u cs, (chunkLoop t fuel p bFirstChunk iSub).run s = .ok () u ∧ SameSetup s u ∧
      u.bReset = false ∧ u.packed = ms ++ [m.extended cs] ∧ joined cs = p.bytes := by
  induction fuel generalizing p bFirstChunk iSub s m with
  | zero =>
    have hempty : p.size = 0 := by omega
    refine ⟨s, [], ?_, ⟨rfl, rfl⟩, hreset.resolve_right fun h => h hempty, ?_, ?_⟩
    · rw [chunkLoop, if_pos hempty]
      rfl
    · rw [extended_nil, hpacked]
    · exact (List.length_eq_zero_iff.mp hempty).symm
  | succ fuel ih =>
    by_cases hempty : p.size = 0
    · refine ⟨s, [], ?_, ⟨rfl, rfl⟩, hreset.resolve_right fun h => h hempty, ?_, ?_⟩
      · rw [chunkLoop, if_pos hempty]
        rfl
      · rw [extended_nil, hpacked]
      · exact (List.length_eq_zero_iff.mp hempty).symm
    have hfmt := chunkFmt_lt bFirstChunk (isFull p || s.bReset) t
    rcases chunkHeader_run hfmt s t p.size with ⟨o, ho, hlength, hsize⟩
    have hpayload : 0 ≤ min s.iChunkSize p.size := by omega
    have hcut : (min s.iChunkSize p.size).toNat ≤ p.size := by omega
    rcases oneChunk_run p hlength hcut with ⟨pChunk, hone, hbytes⟩
    have hless : (p.popped (min s.iChunkSize p.size).toNat).size ≤ fuel := by
      rw [popped_size]
      omega
    have hroute : ∀ q : MediaPacket, ((s.chosen (chunkFmt bFirstChunk (isFull p || s.bReset) t)).route
        q).packed = ms ++ [m.extended [q]] := by
      intro q
      rw [← addChunk_last, ← hpacked]
      rfl
    let q := labelled pChunk (p.popped (min s.iChunkSize p.size).toNat) bFirstChunk s.iUnit iSub
    let s' := (s.chosen (chunkFmt bFirstChunk (isFull p || s.bReset) t)).route q
    have hsame' : SameSetup s s' := ⟨rfl, rfl⟩
    rcases ih (s := s') false (iSub+1) hless hchunk (hroute q) (Or.inl rfl) with
      ⟨u, cs, hrun, hsame, hoff, hmore, hjoined⟩
    refine ⟨u, q::cs, ?_, sameSetup_trans hsame' hsame, hoff, ?_, ?_⟩
    · rw [chunkLoop, if_neg hempty, run_get_bind, run_modify_bind, run_ofExcept_bind ho,
        if_neg (by omega), run_ofExcept_bind hone, run_modify_bind]
      exact hrun
    · rw [hmore, extended_extended, List.singleton_append]
    · rw [joined, List.flatMap_cons, labelled_bytes, hbytes, hsize, List.drop_left, ← joined,
        hjoined, popped_bytes, List.take_append_drop]

/-! ## Flags -/

/-- The flag of a stream is not made yet or is as `P` says. -/
def Flagged (P : ℕ → Prop) (o : OBits) : Prop :=
  o = OBits.new 1 ∨ (o.size ≠ 0 ∧ P (o.data.headD 0).toNat)

/-- The flag that a packet asks for is as `P` says. -/
def Makes (P : ℕ → Prop) (p : MediaPacket) : Prop :=
  ∀ s : RTMPPacketizer, s.oFlag = OBits.new 1 →
    ∃ o, (makeFlag p).run s = .ok () (s.setFlag o) ∧ o.size ≠ 0 ∧ P (o.data.headD 0).toNat

section
variable {P : ℕ → Prop} {p : MediaPacket} {s : RTMPPacketizer}

theorem getFlag_run (hflag : Flagged P s.oFlag) (hmakes : Makes P p) :
    ∃ o, (getFlag p).run s = .ok (o.data.headD 0).toNat (s.setFlag o) ∧ o.size ≠ 0 ∧
      P (o.data.headD 0).toNat := by
  rcases hflag with hfresh | ⟨hsize, hP⟩
  · rcases hmakes s hfresh with ⟨o, hrun, hsize, hP⟩
    refine ⟨o, ?_, hsize, hP⟩
    rw [getFlag, run_get_bind, if_neg (by rw [hfresh]; decide), run_bind_of_ok hrun]
    rfl
  · refine ⟨s.oFlag, ?_, hsize, hP⟩
    rw [getFlag, run_get_bind, if_pos hsize]
    rfl

theorem run_writeFlag {α : Type} {iBits iVal : ℕ} {o : OBits} {f : Unit → Packing α}
    (h : s.oFlag.write iBits iVal = .ok o) :
    (writeFlag iBits iVal >>= f).run s = (f ()).run (s.setFlag o) := by
  apply run_bind_of_ok
  rw [writeFlag, run_get_bind, run_ofExcept_bind h]
  rfl

theorem writes_cons {o o' : OBits} {iBits iVal : ℕ} {fields : List (ℕ × ℕ)}
    (h : o.writes ((iBits, iVal)::fields) = .ok o') :
    ∃ o₁, o.write iBits iVal = .ok o₁ ∧ o₁.writes fields = .ok o' := by
  rw [OBits.writes] at h
  cases hwrite : o.write iBits iVal with
  | error e =>
    rw [hwrite] at h
    cases h
  | ok o₁ =>
    rw [hwrite] at h
    exact ⟨o₁, rfl, h⟩

theorem writes_nil {o o' : OBits} (h : o.writes [] = .ok o') : o' = o := (Except.ok.inj h).symm

/-- The flag of a video stream is the codec; the kind of frame is added later. -/
def VideoFlag (iFlag : ℕ) : Prop := iFlag = FLASH_VIDEO_H264

theorem makes_video (hcontent : p.content = .video) (hcodec : p.codec = .avc) :
    Makes VideoFlag p := by
  intro s hfresh
  have hfirst : (OBits.new 1).write 4 0 = .ok ⟨[], 0, 4, 1⟩ := by decide
  have hsecond : (⟨[], 0, 4, 1⟩ : OBits).write 4 7 = .ok ⟨[7], 0, 8, 1⟩ := by decide
  refine ⟨⟨[7], 0, 8, 1⟩, ?_, by decide, rfl⟩
  rw [makeFlag, hcontent, hcodec]
  show (writeFlag 4 0 >>= fun _ => writeFlag 4 7).run s = _
  rw [run_writeFlag (hfresh ▸ hfirst), ← bind_pure (writeFlag 4 7), run_writeFlag hsecond]
  rfl

def AudioFlag (codec : CodecType) (iFlag : ℕ) : Prop :=
  iFlag < 256 ∧ iFlag/16 = SirannonToFlash codec

theorem flag_of_bits {o : OBits} {c x y z : ℕ} (hc : c < 16)
    (h : ofBytes o.data = fieldBits [(4, c), (2, x), (1, y), (1, z)]) (hlength : o.data.length = 1) :
    (o.data.headD 0).toNat/16 = c := by
  cases hdata : o.data with
  | nil =>
    rw [hdata] at hlength
    cases hlength
  | cons b rest =>
    rw [hdata, List.length_cons] at hlength
    obtain rfl := List.length_eq_zero_iff.mp (by omega : rest.length = 0)
    rw [hdata, ofBytes_cons, ofBytes_nil, List.append_nil, fieldBits, List.flatMap_cons] at h
    have hvalue := congrArg value h
    have hlow := value_lt (List.flatMap (fun f => ofNat f.1 f.2) [(2, x), (1, y), (1, z)])
    have hfour : (List.flatMap (fun f => ofNat f.1 f.2) [(2, x), (1, y), (1, z)]).length = 4 := by
      simp
    rw [hfour] at hlow
    rw [value_append, hfour, value_ofNat, value_ofNat, Nat.mod_eq_of_lt b.toNat_lt,
      Nat.mod_eq_of_lt (by omega : c < 2^4)] at hvalue
    rw [List.headD_cons]
    omega

theorem makes_audio {desc : MediaDescriptor} {iRate : ℕ} (hcontent : p.content = .audio)
    (hcodec : p.codec = .mp4a ∨ p.codec = .mp1a) (hdesc : p.desc = some desc)
    (hrate : sampleRateField desc.samplerate = some iRate) : Makes (AudioFlag p.codec) p := by
  intro s hfresh
  have hflash : SirannonToFlash p.codec ≠ 0 ∧ SirannonToFlash p.codec < 16 := by
    rcases hcodec with h | h
    · rw [h]
      decide
    · rw [h]
      decide
  rcases OBits.writes_new [(4, SirannonToFlash p.codec), (2, iRate), (1, 1),
    (1, if 1 < desc.channels then 1 else 0)] (by simp : _ = 8*1) (le_refl 1) (by simp) with
    ⟨o, ho, hbits, hlength⟩
  refine ⟨o, ?_, by rw [← OBits.data_length, hlength]; decide, ?_, flag_of_bits hflash.2 hbits
    hlength⟩
  · rcases writes_cons ho with ⟨o₁, h₁, ho⟩
    rcases writes_cons ho with ⟨o₂, h₂, ho⟩
    rcases writes_cons ho with ⟨o₃, h₃, ho⟩
    rcases writes_cons ho with ⟨o₄, h₄, ho⟩
    obtain rfl := writes_nil ho
    rw [makeFlag, hcontent]
    simp only [if_neg hflash.1, hdesc, hrate]
    rw [run_writeFlag (hfresh ▸ h₁), run_writeFlag h₂, run_writeFlag h₃,
      ← bind_pure (writeFlag 1 _), run_writeFlag h₄]
    rfl
  · exact (o.data.headD 0).toNat_lt

end

/-! ## Messages -/

/-- A packetizer that is set up and whose flag, if made, is as `P` says. -/
structure Working (P : ℕ → Prop) (s : RTMPPacketizer) : Prop where
  chunkSize : 1 ≤ s.iChunkSize
  flag : Flagged P s.oFlag

/-- The header of a message is the flag with the key field and then the fields of the codec. -/
structure Tagged (P : ℕ → Prop) (p : MediaPacket) (fields : List (ℕ × ℕ)) (m : Message) :
    Prop where
  time : m.iTimestamp = p.dts.tdiv 90
  payload : ∃ iFlag, P iFlag ∧
    ofBytes m.payload = fieldBits ((8, iFlag ||| keyFlag p)::fields) ++ ofBytes p.bytes

theorem packTyped_run {P : ℕ → Prop} {p : MediaPacket} {s : RTMPPacketizer}
    {fields : List (ℕ × ℕ)} {n : ℕ} (iMessageType : ℕ) (iSub : ℤ) (hs : Working P s)
    (hmakes : Makes P p) (hfields : codecFields p = .ok fields)
    (hsum : (fields.map Prod.fst).sum = 8*n) (hpos : ∀ f ∈ fields, 0 < f.1) (hn : n+1 ≤ p.iFront)
    (hroom : n < 2048) :
    ∃ u m, (packTyped iMessageType p iSub).run s = .ok () u ∧ Working P u ∧ u.bReset = false ∧
      u.packed = s.packed ++ [m] ∧ m.iMessageType = iMessageType ∧ Tagged P p fields m := by
  have htimed : Flagged P (s.timed (s.timing iMessageType p) p).oFlag := hs.flag
  rcases getFlag_run htimed hmakes with ⟨oFlag, hflag, hsize, hP⟩
  rcases OBits.writes_new ((8, (oFlag.data.headD 0).toNat ||| keyFlag p)::fields)
    (by rw [List.map_cons, List.sum_cons, hsum]; ring : _ = 8*(n+1)) hroom
    (List.forall_mem_cons.mpr ⟨Nat.succ_pos 7, hpos⟩) with ⟨o, ho, hbits, hlength⟩
  have hfront : p.push_front o.data = .ok (p.fronted o.data) := push_front_ok (by omega)
  let t := s.timing iMessageType p
  let s' := ((s.timed t p).setFlag oFlag).opened t
  have hpacked : s'.packed = s.packed ++ [⟨iMessageType, p.dts.tdiv 90, []⟩] := rfl
  have hnonempty : (p.fronted o.data).size ≠ 0 := by
    rw [MediaPacket.size, fronted_bytes, List.length_append, hlength]
    omega
  rcases chunkLoop_run (s := s') t true iSub (le_refl (p.fronted o.data).size) hs.chunkSize hpacked
    (Or.inr hnonempty) with ⟨u, cs, hrun, hsame, hreset, hmore, hjoined⟩
  refine ⟨u, (⟨iMessageType, p.dts.tdiv 90, []⟩ : Message).extended cs, ?_, ⟨?_, ?_⟩, hreset, hmore,
    rfl, rfl, (oFlag.data.headD 0).toNat, hP, ?_⟩
  · rw [packTyped, run_get_bind, run_modify_bind, run_bind_of_ok hflag, run_ofExcept_bind hfields,
      run_ofExcept_bind ho, run_ofExcept_bind hfront, run_modify_bind]
    exact hrun
  · rw [hsame.chunkSize]
    exact hs.chunkSize
  · rw [hsame.flag]
    exact Or.inr ⟨hsize, hP⟩
  · show ofBytes (joined ([] ++ cs)) = _
    rw [List.nil_append, hjoined, fronted_bytes, ofBytes_append, hbits]

/-! ## Frames -/

/-- The frames of an AVC stream. -/
structure VideoFrame (p : MediaPacket) : Prop where
  content : p.content = .video
  mux : p.mux = .MOV
  frame : p.frame ≠ .SPS
  size : 2 ≤ p.size
  room : 5 ≤ p.iFront
  low : -2^31 ≤ p.dts
  order : p.dts ≤ p.pts
  close : p.pts-p.dts < 2^23*90
  high : p.pts < 2^31
  codec : p.codec = .avc

/-- The frames of an AAC or MP3 stream. -/
structure AudioFrame (codec : CodecType) (p : MediaPacket) : Prop where
  content : p.content = .audio
  mux : codec = .mp4a → p.mux = .MOV
  frame : p.frame ≠ .AUDH
  size : 1 ≤ p.size
  room : 2 ≤ p.iFront
  low : -2^31 ≤ p.dts
  high : p.dts < 2^31
  desc : ∃ desc iRate, p.desc = some desc ∧ sampleRateField desc.samplerate = some iRate
  codec : p.codec = codec

/-- The difference of the time stamps in milliseconds. -/
def composition (p : MediaPacket) : ℕ := ((p.pts-p.dts)/90).toNat

structure VideoTag (p : MediaPacket) (m : Message) : Prop where
  type : m.iMessageType = 9
  time : m.iTimestamp = p.dts.tdiv 90
  payload : ∃ iKey < 16, (iKey = FLASH_VIDEO_KEY_FRAME ↔ p.key = true) ∧
    ofBytes m.payload = ofNat 4 iKey ++ (ofNat 4 FLASH_VIDEO_H264 ++
      (ofNat 32 (2^24+composition p) ++ ofBytes p.bytes))

structure VideoConfig (extra : List UInt8) (m : Message) : Prop where
  type : m.iMessageType = 9
  payload : ∃ iKey < 16, ofBytes m.payload = ofNat 4 iKey ++ (ofNat 4 FLASH_VIDEO_H264 ++
    (ofNat 32 0 ++ ofBytes extra))

/-- The suffix that tells frames from extra data; MP3 has none. -/
def audioSuffix (codec : CodecType) (iSuffix : ℕ) : List Bool :=
  if codec = .mp4a then ofNat 8 iSuffix else []

structure AudioTag (codec : CodecType) (p : MediaPacket) (m : Message) : Prop where
  type : m.iMessageType = 8
  time : m.iTimestamp = p.dts.tdiv 90
  payload : ∃ iFlags, ofBytes m.payload = ofNat 4 (SirannonToFlash codec) ++ (ofNat 4 iFlags ++
    (audioSuffix codec 1 ++ ofBytes p.bytes))

structure AudioConfig (extra : List UInt8) (m : Message) : Prop where
  type : m.iMessageType = 8
  payload : ∃ iFlags, ofBytes m.payload = ofNat 4 FLASH_AUDIO_AAC ++ (ofNat 4 iFlags ++
    (ofNat 8 0 ++ ofBytes extra))

section
variable {p : MediaPacket} {s : RTMPPacketizer} {codec : CodecType}

theorem composition_lt (h : VideoFrame p) : composition p < 2^23 := by
  have hclose := h.close
  rw [composition]
  omega

theorem composition_field (h : VideoFrame p) :
    uint32 ((int32 (p.pts-p.dts)).tdiv 90) = composition p := by
  have hclose := h.close
  have horder := h.order
  rw [int32_of_range _ (by omega) (by omega), Int.tdiv_eq_ediv_of_nonneg (by omega), uint32,
    composition]
  omega

theorem videoFlag_bits {iFlag : ℕ} (hflag : VideoFlag iFlag) (hcontent : p.content = .video) :
    ∃ iKey < 16, (iKey = FLASH_VIDEO_KEY_FRAME ↔ p.key = true ∨ p.frame = .SPS) ∧
      ofNat 8 (iFlag ||| keyFlag p) = ofNat 4 iKey ++ ofNat 4 FLASH_VIDEO_H264 := by
  rw [keyFlag, if_pos hcontent, hflag]
  by_cases hkey : p.key = true ∨ p.frame = .SPS
  · refine ⟨1, by decide, iff_of_true rfl hkey, ?_⟩
    rw [if_pos hkey]
    decide
  · refine ⟨2, by decide, iff_of_false (by decide) hkey, ?_⟩
    rw [if_neg hkey]
    decide

theorem audioFlag_bits {iFlag : ℕ} (hflag : AudioFlag codec iFlag) (hcontent : p.content = .audio) :
    ofNat 8 (iFlag ||| keyFlag p) = ofNat 4 (SirannonToFlash codec) ++ ofNat 4 iFlag := by
  rw [keyFlag, hcontent, if_neg (by decide), Nat.or_zero, ← hflag.2]
  exact ofNat_add 4 4 iFlag

theorem pack_frame (iSub : ℤ) (h : VideoFrame p) (hs : Working VideoFlag s) :
    ∃ u m, (pack p iSub).run s = .ok () u ∧ Working VideoFlag u ∧ u.bReset = false ∧
      u.packed = s.packed ++ [m] ∧ VideoTag p m := by
  have hfields : codecFields p = .ok [(8, 0x01), (24, composition p)] := by
    rw [codecFields, if_pos h.codec, if_neg h.frame, composition_field h]
  rcases packTyped_run 9 iSub hs (makes_video h.content h.codec) hfields (by simp) (by simp)
    h.room (by decide) with ⟨u, m, hrun, hworking, hreset, hpacked, htype, htagged⟩
  rcases htagged.payload with ⟨iFlag, hflag, hpayload⟩
  rcases videoFlag_bits hflag h.content with ⟨iKey, hlt, hkey, hbits⟩
  refine ⟨u, m, ?_, hworking, hreset, hpacked, htype, htagged.time, iKey, hlt, ?_, ?_⟩
  · rw [pack, h.content]
    exact hrun
  · rw [hkey, or_iff_left h.frame]
  · have hcts : composition p < 2^24 := (composition_lt h).trans (by decide)
    have hsuffix : ofNat 32 (2^24+composition p) = ofNat 8 1 ++ ofNat 24 (composition p) := by
      rw [show 32 = 8+24 by rfl, ofNat_add]
      congr 1
      · congr 1
        omega
      · apply ofNat_congr
        omega
    rw [hpayload, fieldBits, List.flatMap_cons, hbits, hsuffix]
    simp only [List.flatMap_cons, List.flatMap_nil, List.append_nil, List.append_assoc]

theorem pack_audio (iSub : ℤ) (hcodec : codec = .mp4a ∨ codec = .mp1a) (h : AudioFrame codec p)
    (hs : Working (AudioFlag codec) s) :
    ∃ u m, (pack p iSub).run s = .ok () u ∧ Working (AudioFlag codec) u ∧ u.bReset = false ∧
      u.packed = s.packed ++ [m] ∧ AudioTag codec p m := by
  rcases h.desc with ⟨desc, iRate, hdesc, hrate⟩
  have hmakes : Makes (AudioFlag codec) p := by
    rw [← h.codec] at hcodec ⊢
    exact makes_audio h.content hcodec hdesc hrate
  have hall : ∀ fields, codecFields p = .ok fields → fieldBits fields = audioSuffix codec 1 →
      (∀ f ∈ fields, 0 < f.1) → ∀ n, (fields.map Prod.fst).sum = 8*n → n+1 ≤ p.iFront → n < 2048 →
      ∃ u m, (pack p iSub).run s = .ok () u ∧ Working (AudioFlag codec) u ∧ u.bReset = false ∧
        u.packed = s.packed ++ [m] ∧ AudioTag codec p m := by
    intro fields hfields hsuffix hpos n hsum hn hroom
    rcases packTyped_run 8 iSub hs hmakes hfields hsum hpos hn hroom with
      ⟨u, m, hrun, hworking, hreset, hpacked, htype, htagged⟩
    rcases htagged.payload with ⟨iFlag, hflag, hpayload⟩
    refine ⟨u, m, ?_, hworking, hreset, hpacked, htype, htagged.time, iFlag, ?_⟩
    · rw [pack, h.content]
      exact hrun
    · rw [hpayload, fieldBits, List.flatMap_cons, audioFlag_bits hflag h.content, ← fieldBits,
        hsuffix, List.append_assoc, List.append_assoc]
  have hroom := h.room
  rcases hcodec with rfl | rfl
  · apply hall [(8, 1)] _ _ (by simp) 1 (by simp) (by omega) (by decide)
    · rw [codecFields, h.codec, if_neg (by decide), if_pos rfl, if_pos h.frame]
    · rw [audioSuffix, if_pos rfl, fieldBits, List.flatMap_singleton]
  · apply hall [] _ _ (by simp) 0 (by simp) (by omega) (by decide)
    · rw [codecFields, h.codec]
      rfl
    · rw [audioSuffix, if_neg (by decide)]
      rfl

/-! ## Extra data -/

theorem extraPacket_run (p : MediaPacket) (desc : MediaDescriptor) (frame : FrameType) :
    ∃ q, extraPacket p desc frame = .ok q ∧ q.bytes = desc.extra_data ∧ q.iFront = 32 ∧
      q.content = p.content ∧ q.codec = p.codec ∧ q.desc = p.desc ∧ q.frame = frame := by
  let q := ((MediaPacket.new .media p.content desc.extra_data.length).pushed
    desc.extra_data).set_metadata p
  refine ⟨{ q with frame := frame, framestart := true, frameend := false }, ?_, rfl, rfl, rfl, rfl,
    rfl, rfl⟩
  rw [extraPacket, new_push_back _ _ _ _ (le_refl _)]
  rfl

theorem packExtra_desc {desc : MediaDescriptor} {frame : FrameType} (hdesc : p.desc = some desc) :
    packExtra p frame = ofExcept (extraPacket p desc frame) >>= fun q => pack q 0 >>= fun _ =>
      pack { p with framestart := false } 1 >>= fun _ =>
        modify fun s => { s with bGlobalHeader := false } := by
  unfold packExtra
  split
  · rename_i hnone
    rw [hdesc] at hnone
    cases hnone
  · rename_i d hd
    rw [hdesc] at hd
    obtain rfl := Option.some.inj hd
    rfl

theorem pack_video_extra (desc : MediaDescriptor) (hcontent : p.content = .video)
    (hcodec : p.codec = .avc) (hs : Working VideoFlag s) :
    ∃ q u m, extraPacket p desc .SPS = .ok q ∧ (pack q 0).run s = .ok () u ∧
      Working VideoFlag u ∧ u.bReset = false ∧ u.packed = s.packed ++ [m] ∧
      VideoConfig desc.extra_data m := by
  rcases extraPacket_run p desc .SPS with ⟨q, hextra, hbytes, hfront, hqcontent, hqcodec, -, hframe⟩
  rw [hcontent] at hqcontent
  rw [hcodec] at hqcodec
  have hfields : codecFields q = .ok [(32, 0)] := by
    rw [codecFields, if_pos hqcodec, if_pos hframe]
  rcases packTyped_run (n := 4) 9 0 hs (makes_video hqcontent hqcodec) hfields (by simp) (by simp)
    (by omega) (by decide) with ⟨u, m, hrun, hworking, hreset, hpacked, htype, htagged⟩
  rcases htagged.payload with ⟨iFlag, hflag, hpayload⟩
  rcases videoFlag_bits hflag hqcontent with ⟨iKey, hlt, -, hbits⟩
  refine ⟨q, u, m, hextra, ?_, hworking, hreset, hpacked, htype, iKey, hlt, ?_⟩
  · rw [pack, hqcontent]
    exact hrun
  · rw [hpayload, fieldBits, List.flatMap_cons, hbits, hbytes]
    simp only [List.flatMap_cons, List.flatMap_nil, List.append_nil, List.append_assoc]

theorem pack_audio_extra {desc : MediaDescriptor} {iRate : ℕ} (hcontent : p.content = .audio)
    (hcodec : p.codec = .mp4a) (hdesc : p.desc = some desc)
    (hrate : sampleRateField desc.samplerate = some iRate) (hs : Working (AudioFlag .mp4a) s) :
    ∃ q u m, extraPacket p desc .AUDH = .ok q ∧ (pack q 0).run s = .ok () u ∧
      Working (AudioFlag .mp4a) u ∧ u.bReset = false ∧ u.packed = s.packed ++ [m] ∧
      AudioConfig desc.extra_data m := by
  rcases extraPacket_run p desc .AUDH with
    ⟨q, hextra, hbytes, hfront, hqcontent, hqcodec, hqdesc, hframe⟩
  rw [hcontent] at hqcontent
  rw [hcodec] at hqcodec
  rw [hdesc] at hqdesc
  have hfields : codecFields q = .ok [(8, 0)] := by
    rw [codecFields, hqcodec, if_neg (by decide), if_pos rfl, hframe, if_neg (by simp)]
  have hmakes := makes_audio hqcontent (Or.inl hqcodec) hqdesc hrate
  rw [hqcodec] at hmakes
  rcases packTyped_run (n := 1) 8 0 hs hmakes hfields (by simp) (by simp) (by omega) (by decide) with
    ⟨u, m, hrun, hworking, hreset, hpacked, htype, htagged⟩
  rcases htagged.payload with ⟨iFlag, hflag, hpayload⟩
  refine ⟨q, u, m, hextra, ?_, hworking, hreset, hpacked, htype, iFlag, ?_⟩
  · rw [pack, hqcontent]
    exact hrun
  · rw [hpayload, fieldBits, List.flatMap_cons, audioFlag_bits hflag hqcontent, hbytes]
    simp only [List.flatMap_cons, List.flatMap_nil, List.append_nil, List.append_assoc]
    rfl

/-! ## Streams -/

def packetize (ps : List MediaPacket) : Packing Unit := forM ps receive

theorem packetize_cons (p : MediaPacket) (ps : List MediaPacket) :
    packetize (p::ps) = receive p >>= fun _ => packetize ps := by
  rw [packetize, List.forM_cons]
  rfl

theorem receive_video (h : VideoFrame p) : receive p = receiveMOV p := by
  rw [receive, h.codec]
  exact if_neg fun hmux => hmux h.mux

theorem packetize_frames {ps : List MediaPacket} (hps : ∀ p ∈ ps, VideoFrame p)
    (hs : Working VideoFlag s) (hreset : s.bReset = false) :
    ∃ u ms, (packetize ps).run s = .ok () u ∧ u.packed = s.packed ++ ms ∧
      List.Forall₂ VideoTag ps ms := by
  induction ps generalizing s with
  | nil => exact ⟨s, [], rfl, (List.append_nil _).symm, List.Forall₂.nil⟩
  | cons p ps ih =>
    have hp := hps p List.mem_cons_self
    rcases pack_frame 0 hp hs with ⟨u, m, hrun, hworking, hoff, hpacked, htag⟩
    rcases ih (fun q hq => hps q (List.mem_cons_of_mem p hq)) hworking hoff with
      ⟨t, ms, hmore, hall, htags⟩
    refine ⟨t, m::ms, ?_, ?_, List.Forall₂.cons htag htags⟩
    · have hreceive : (receive p).run s = .ok () u := by
        rw [receive_video hp, receiveMOV, run_get_bind, if_pos hreset]
        exact hrun
      rw [packetize_cons, run_bind_of_ok hreceive]
      exact hmore
    · rw [hall, hpacked, List.append_assoc, List.singleton_append]

/-- After a reset the extra data of the first frame goes out, then the frames. -/
theorem packetize_video {ps : List MediaPacket} {desc : MediaDescriptor}
    (hps : ∀ q ∈ p::ps, VideoFrame q) (hdesc : p.desc = some desc) (hs : Working VideoFlag s)
    (hreset : s.bReset = true) :
    ∃ u m ms, (packetize (p::ps)).run s = .ok () u ∧ u.packed = s.packed ++ m::ms ∧
      VideoConfig desc.extra_data m ∧ List.Forall₂ VideoTag (p::ps) ms := by
  have hp := hps p List.mem_cons_self
  rcases pack_video_extra desc hp.content hp.codec hs with
    ⟨q, u, m, hextra, hrun, hworking, hoff, hpacked, hconfig⟩
  have hstart : VideoFrame { p with framestart := false } :=
    ⟨hp.content, hp.mux, hp.frame, hp.size, hp.room, hp.low, hp.order, hp.close, hp.high, hp.codec⟩
  rcases pack_frame 1 hstart hworking with
    ⟨u', m', hrun', hworking', hoff', hpacked', htag⟩
  rcases packetize_frames (s := { u' with bGlobalHeader := false })
    (fun q hq => hps q (List.mem_cons_of_mem p hq)) ⟨hworking'.chunkSize, hworking'.flag⟩ hoff' with
    ⟨t, ms, hmore, hall, htags⟩
  refine ⟨t, m, m'::ms, ?_, ?_, hconfig, List.Forall₂.cons ⟨htag.type, htag.time, htag.payload⟩
    htags⟩
  · have hreceive : (receive p).run s = .ok () { u' with bGlobalHeader := false } := by
      rw [receive_video hp, receiveMOV, run_get_bind, if_neg (by rw [hreset]; decide), hp.content]
      show (packExtra p .SPS).run s = _
      rw [packExtra_desc hdesc, run_ofExcept_bind hextra, run_bind_of_ok hrun, run_bind_of_ok hrun']
      rfl
    rw [packetize_cons, run_bind_of_ok hreceive]
    exact hmore
  · rw [hall]
    show u'.packed ++ ms = _
    rw [hpacked', hpacked]
    simp

theorem receive_audio (hcodec : codec = .mp4a ∨ codec = .mp1a) (h : AudioFrame codec p) :
    receive p = if codec = .mp4a then receiveMOV p else pack p 0 := by
  rw [receive, h.codec]
  rcases hcodec with rfl | rfl
  · rw [if_pos rfl]
    exact if_neg fun hmux => hmux (h.mux rfl)
  · exact (if_neg (by decide)).symm

theorem packetize_sounds {ps : List MediaPacket} (hcodec : codec = .mp4a ∨ codec = .mp1a)
    (hps : ∀ p ∈ ps, AudioFrame codec p) (hs : Working (AudioFlag codec) s)
    (hreset : codec = .mp4a → s.bReset = false) :
    ∃ u ms, (packetize ps).run s = .ok () u ∧ u.packed = s.packed ++ ms ∧
      List.Forall₂ (AudioTag codec) ps ms := by
  induction ps generalizing s with
  | nil => exact ⟨s, [], rfl, (List.append_nil _).symm, List.Forall₂.nil⟩
  | cons p ps ih =>
    have hp := hps p List.mem_cons_self
    rcases pack_audio 0 hcodec hp hs with ⟨u, m, hrun, hworking, hoff, hpacked, htag⟩
    rcases ih (fun q hq => hps q (List.mem_cons_of_mem p hq)) hworking (fun _ => hoff) with
      ⟨t, ms, hmore, hall, htags⟩
    refine ⟨t, m::ms, ?_, ?_, List.Forall₂.cons htag htags⟩
    · have hreceive : (receive p).run s = .ok () u := by
        rw [receive_audio hcodec hp]
        split
        case isTrue hmp4a =>
          rw [receiveMOV, run_get_bind, if_pos (hreset hmp4a)]
          exact hrun
        case isFalse => exact hrun
      rw [packetize_cons, run_bind_of_ok hreceive]
      exact hmore
    · rw [hall, hpacked, List.append_assoc, List.singleton_append]

theorem packetize_aac {ps : List MediaPacket} {desc : MediaDescriptor}
    (hps : ∀ q ∈ p::ps, AudioFrame .mp4a q) (hdesc : p.desc = some desc)
    (hs : Working (AudioFlag .mp4a) s) (hreset : s.bReset = true) :
    ∃ u m ms, (packetize (p::ps)).run s = .ok () u ∧ u.packed = s.packed ++ m::ms ∧
      AudioConfig desc.extra_data m ∧ List.Forall₂ (AudioTag .mp4a) (p::ps) ms := by
  have hp := hps p List.mem_cons_self
  rcases hp.desc with ⟨desc', iRate, hdesc', hrate⟩
  obtain rfl : desc' = desc := Option.some.inj (hdesc'.symm.trans hdesc)
  rcases pack_audio_extra hp.content hp.codec hdesc hrate hs with
    ⟨q, u, m, hextra, hrun, hworking, hoff, hpacked, hconfig⟩
  have hstart : AudioFrame .mp4a { p with framestart := false } :=
    ⟨hp.content, hp.mux, hp.frame, hp.size, hp.room, hp.low, hp.high, hp.desc, hp.codec⟩
  rcases pack_audio 1 (Or.inl rfl) hstart hworking with
    ⟨u', m', hrun', hworking', hoff', hpacked', htag⟩
  rcases packetize_sounds (s := { u' with bGlobalHeader := false }) (Or.inl rfl)
    (fun q hq => hps q (List.mem_cons_of_mem p hq)) ⟨hworking'.chunkSize, hworking'.flag⟩
    (fun _ => hoff') with ⟨t, ms, hmore, hall, htags⟩
  refine ⟨t, m, m'::ms, ?_, ?_, hconfig, List.Forall₂.cons ⟨htag.type, htag.time, htag.payload⟩
    htags⟩
  · have hreceive : (receive p).run s = .ok () { u' with bGlobalHeader := false } := by
      rw [receive_audio (Or.inl rfl) hp, if_pos rfl, receiveMOV, run_get_bind,
        if_neg (by rw [hreset]; decide), hp.content]
      show (packExtra p .AUDH).run s = _
      rw [packExtra_desc hdesc, run_ofExcept_bind hextra, run_bind_of_ok hrun, run_bind_of_ok hrun']
      rfl
    rw [packetize_cons, run_bind_of_ok hreceive]
    exact hmore
  · rw [hall]
    show u'.packed ++ ms = _
    rw [hpacked', hpacked]
    simp

end

end Sirannon.RTMPTag
