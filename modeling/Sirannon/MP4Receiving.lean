import Sirannon.MP4Sending

/-!
# What the MPEG-4 unpacketizer makes of a group

One call of `unpack` turns the packets of a group into frames again. An audio
aggregate comes apart by the sizes in its header. A video aggregate has none,
so its frames come out as one.
-/

set_option autoImplicit false

namespace Sirannon.MP4
open MachineInt Bits BitString ByteMemory Media Packetization StateError

/-! ## Reading headers -/

/-- A size of 13 bits and an index of 3 bits, read as one number. -/
theorem size_field (iSize k : ℕ) (bs : List Bool) :
    ofNat 13 iSize ++ (ofNat 3 k ++ bs) = ofNat 16 (iSize*8+k % 8) ++ bs := by
  rw [show (16 : ℕ) = 13+3 from rfl, ofNat_add, List.append_assoc]
  congr 2
  · omega
  · apply ofNat_congr
    omega

theorem read_size {b : IBits} {p iSize k : ℕ} {bs : List Bool}
    (h : b.Ahead p (ofNat 13 iSize ++ (ofNat 3 k ++ bs))) (hsize : iSize < 8192) :
    (b.read 16).1/8 = iSize ∧ (b.read 16).2.Ahead (p+16) bs := by
  rw [size_field] at h
  rcases IBits.read_field h (by omega) (by omega) with ⟨hread, hahead⟩
  refine ⟨?_, hahead⟩
  rw [hread]
  omega

/-- The two fields of a fragment's header. -/
theorem read_fragment {f p : MediaPacket} {iSize : ℕ} {chunk : List UInt8}
    (h : Fragment f iSize p chunk) (hcodec : f.codec = .mp4a) (hsize : iSize < 8192) :
    ((reader p).read 16).1 = 16 ∧ (((reader p).read 16).2.read 16).1/8 = iSize := by
  rcases h.audio hcodec with ⟨hd, k, hp, hheader⟩
  have hahead := reader_ahead hp
  rw [hheader.bits] at hahead
  simp only [fieldBits, List.flatMap_cons, List.flatMap_nil, List.append_nil,
    List.append_assoc] at hahead
  rcases IBits.read_field hahead (by omega) (by decide) with ⟨hread, hnext⟩
  exact ⟨hread, (read_size hnext hsize).1⟩

/-! ## Fragments of an audio frame -/

theorem fragment_payload {f p : MediaPacket} {iSize : ℕ} {chunk : List UInt8}
    (h : Fragment f iSize p chunk) (hcodec : f.codec = .mp4a) :
    p.bytes.drop 4 = chunk ∧ p.size = 4+chunk.length := by
  rcases h.audio hcodec with ⟨hd, k, hp, hheader⟩
  constructor
  · rw [hp, ← hheader.length, List.drop_left]
  · rw [MediaPacket.size, hp, List.length_append, hheader.length]

theorem joinLoop_run {f : MediaPacket} {iSize : ℕ} (hcodec : f.codec = .mp4a)
    (hsize : iSize < 8192) {ps : List MediaPacket} {chunks : List (List UInt8)}
    (hall : List.Forall₂ (Fragment f iSize) ps chunks) (pFrag : MediaPacket) (iTestSize : ℕ)
    (hroom : pFrag.iFront+pFrag.size+chunks.flatten.length < pFrag.max_size)
    (htotal : iTestSize+chunks.flatten.length = iSize) :
    joinLoop iSize ps pFrag iTestSize = .ok (pFrag.pushed chunks.flatten, iSize, []) := by
  induction hall generalizing pFrag iTestSize with
  | nil =>
    simp only [List.flatten_nil, List.length_nil, add_zero] at htotal
    simp [joinLoop, htotal, MediaPacket.pushed]
  | @cons p chunk ps chunks hfrag _ ih =>
    rcases read_fragment hfrag hcodec hsize with ⟨hfirst, hsecond⟩
    rcases fragment_payload hfrag hcodec with ⟨hdrop, hlen⟩
    have hpos : 0 < chunk.length := List.length_pos_of_ne_nil hfrag.nonempty
    rw [List.flatten_cons, List.length_append] at hroom htotal
    have hpush : pushPayload pFrag p = .ok (pFrag.pushed chunk) := by
      rw [pushPayload, if_neg (by omega), hdrop]
      exact push_back_ok (by omega)
    have hnext := ih (pFrag.pushed chunk) (iTestSize+(p.size-4))
      (by simp only [MediaPacket.pushed, MediaPacket.size, List.length_append] at hroom ⊢; omega)
      (by omega)
    rw [joinLoop, if_neg (by omega)]
    simp only [hfirst, hsecond, ne_eq, not_true_eq_false, or_self, if_false, hpush, bind,
      Except.bind, hnext]
    simp [MediaPacket.pushed]

/-! ## Aggregates of audio frames -/

theorem load_split {m : Memory} {off : ℕ} {xs ys : List UInt8}
    (h : load m off (xs.length+ys.length) = xs ++ ys) :
    load m off xs.length = xs ∧ load m (off+xs.length) ys.length = ys := by
  rw [load_add] at h
  exact List.append_inj h (load_length m off xs.length)

/-- The frames come out one by one; state that is not touched stays as it is. -/
theorem stapLoop_run (pPckt : MediaPacket) (members : List MediaPacket)
    (hsizes : ∀ f ∈ members, f.size < 8192) (i : ℤ) (b : IBits) (p iPos : ℕ) (bs : List Bool)
    (s : MP4Unpacketizer)
    (hahead : b.Ahead p (fieldBits (members.flatMap fun f => [(13, f.size), (3, 0)]) ++ bs))
    (hload : load b.buf iPos (allBytes members).length = allBytes members) :
    ∃ t outs, (stapLoop pPckt members.length i b iPos).run s = .ok () t ∧
      t.vBuffer = s.vBuffer ∧ t.routed = s.routed ++ outs ∧
      outs.map MediaPacket.bytes = members.map MediaPacket.bytes := by
  induction members generalizing i b p iPos s with
  | nil => exact ⟨s, [], rfl, rfl, by simp, rfl⟩
  | cons f fs ih =>
    have hbits : fieldBits ((f::fs).flatMap fun f => [(13, f.size), (3, 0)]) ++ bs =
        ofNat 13 f.size ++ (ofNat 3 0 ++
          (fieldBits (fs.flatMap fun f => [(13, f.size), (3, 0)]) ++ bs)) := by
      simp [fieldBits]
    rw [hbits] at hahead
    rcases read_size hahead (hsizes f List.mem_cons_self) with ⟨hread, hnext⟩
    rw [show allBytes (f::fs) = f.bytes ++ allBytes fs from rfl, List.length_append] at hload
    rcases load_split hload with ⟨hfirst, hrest⟩
    have hpush : (stapFrame pPckt f.size i).push_back (load b.buf iPos f.size) = _ :=
      push_back_ok (by
        simp only [stapFrame, whole, MediaPacket.set_metadata, MediaPacket.new,
          MediaPacket.size, List.length_nil, iBufferSpace, load_length]
        omega)
    rw [List.length_cons, stapLoop, hread, run_ofExcept_bind hpush, run_modify_bind]
    rcases ih (fun g hg => hsizes g (List.mem_cons_of_mem f hg)) (i+1) (b.read 16).2 (p+16)
      (iPos+f.size) (s.emit _) hnext (by rw [IBits.read_buf]; exact hrest) with
      ⟨t, outs, hrun, hbuffer, hrouted, hmap⟩
    refine ⟨t, ((stapFrame pPckt f.size i).pushed (load b.buf iPos f.size)).setUnit s.iUnit::outs,
      hrun, hbuffer, ?_, ?_⟩
    · rw [hrouted, Unpacketizer.emit, List.append_assoc]
      rfl
    · rw [List.map_cons, List.map_cons, hmap, setUnit_bytes, pushed_bytes]
      congr 1

/-- What is left of the state once a group has been unpacked. -/
structure Unpacked (s : MP4Unpacketizer) (frames : List (List UInt8)) (t : MP4Unpacketizer) :
    Prop where
  buffer : t.vBuffer = []
  routed : ∃ outs, t.routed = s.routed ++ outs ∧ outs.map MediaPacket.bytes = frames

/-! ## One group -/

/-- A frame the packetizer works on. -/
structure Ready (codec : CodecType) (f : MediaPacket) : Prop where
  type : f.type = .media
  mux : f.mux = .RTP
  audio : codec = .mp4a → f.size < 8192
  codec : f.codec = codec

/-- The frames that come out of a group, as far as their bytes go. -/
def restored (codec : CodecType) (members : List MediaPacket) : List (List UInt8) :=
  if codec = .mp4a then members.map MediaPacket.bytes else [allBytes members]

theorem consumed_run (s : MP4Unpacketizer) :
    (consumed []).run s = .ok () { s with vBuffer := [] } := rfl

theorem group_video {members ps : List MediaPacket} (h : Group members ps)
    (hcodec : ∀ f ∈ members, f.codec ≠ .mp4a) : allBytes ps = allBytes members := by
  cases h with
  | @fragments f ps chunks hall hne hflat =>
    have hf := hcodec f List.mem_cons_self
    have hbytes : allBytes ps = chunks.flatten := by
      clear hne hflat
      induction hall with
      | nil => rfl
      | cons hfrag _ ih =>
        rw [allBytes, List.flatMap_cons, ← allBytes, ih, hfrag.video hf, List.flatten_cons]
    rw [hbytes, hflat]
    simp [allBytes]
  | @aggregate f g fs p hp =>
    rw [allBytes, List.flatMap_singleton, hp.video (hcodec f List.mem_cons_self)]

theorem fragments_marked {f : MediaPacket} {iSize : ℕ} {ps : List MediaPacket}
    {chunks : List (List UInt8)} (h : List.Forall₂ (Fragment f iSize) ps chunks) :
    ∀ q ∈ ps, Marked f q := by
  induction h with
  | nil => simp
  | cons hfrag _ ih =>
    intro q hq
    rcases List.mem_cons.mp hq with rfl | hq
    · exact hfrag.marked
    · exact ih q hq

/-- Some packet leads the group, and it is marked like the first frame. -/
theorem group_front {members ps : List MediaPacket} (h : Group members ps) :
    ∃ f fs p rest, members = f::fs ∧ ps = p::rest ∧ ∀ q ∈ ps, Marked f q := by
  cases h with
  | @fragments f ps chunks hall hne hflat =>
    have hmarked := fragments_marked hall
    cases hall with
    | nil => exact absurd rfl hne
    | @cons p chunk ps chunks hfrag hrest => exact ⟨f, [], p, ps, rfl, rfl, hmarked⟩
  | @aggregate f g fs p hp =>
    refine ⟨f, g::fs, p, [], rfl, rfl, ?_⟩
    intro q hq
    rw [List.mem_singleton.mp hq]
    exact hp.marked

theorem unpackVideo_run {members ps : List MediaPacket} (h : Group members ps)
    (hcodec : ∀ f ∈ members, f.codec ≠ .mp4a) (front : MediaPacket) (s : MP4Unpacketizer) :
    ∃ t, (unpackVideo front ps).run s = .ok () t ∧ Unpacked s [allBytes members] t := by
  have hpush : push_all (whole ((MediaPacket.new .media .video (sizes ps)).set_metadata front) .ES)
      ps = _ := push_all_ok ps _ (by
    simp only [whole, MediaPacket.set_metadata, MediaPacket.new, MediaPacket.size,
      List.length_nil, iBufferSpace]
    omega)
  rw [unpackVideo, run_ofExcept_bind hpush, run_modify_bind, consumed_run]
  refine ⟨_, rfl, rfl, [_], rfl, ?_⟩
  simp [whole, group_video h hcodec]

theorem unpackAudio_aggregate {f : MediaPacket} {fs : List MediaPacket} {p : MediaPacket}
    (h : Aggregate f (f::fs) p) (hcodec : f.codec = .mp4a) (hmany : fs ≠ [])
    (hcount : fs.length < 4095) (hsizes : ∀ g ∈ f::fs, g.size < 8192) (s : MP4Unpacketizer) :
    ∃ t, (unpackAudio p []).run s = .ok () t ∧
      Unpacked s ((f::fs).map MediaPacket.bytes) t := by
  have hpos : 0 < fs.length := List.length_pos_of_ne_nil hmany
  rcases h.audio hcodec with ⟨hd, hp, hheader⟩
  have hahead := reader_ahead hp
  rw [hheader.bits, stapFields, fieldBits, List.flatMap_cons, List.append_assoc] at hahead
  dsimp only at hahead
  rcases IBits.read_field hahead (by omega) (by rw [List.length_cons]; omega) with ⟨hread, hnext⟩
  have hload : load (reader p).buf (2+(f::fs).length*16/8) (allBytes (f::fs)).length =
      allBytes (f::fs) := by
    have hall : load (reader p).buf 0 (hd.length+(allBytes (f::fs)).length) =
        hd ++ allBytes (f::fs) := by
      rw [← List.length_append, ← hp]
      exact load_store zeroed 0 p.bytes
    have hrest := (load_split hall).2
    have hoff : 0+hd.length = 2+(f::fs).length*16/8 := by
      rw [hheader.length]
      omega
    rwa [hoff] at hrest
  rcases stapLoop_run p (f::fs) hsizes 0 _ _ (2+(f::fs).length*16/8) _ s hnext
    (by rw [IBits.read_buf]; exact hload) with ⟨t, outs, hrun, -, hrouted, hmap⟩
  have hparts : (f::fs).length*16/8/2 = (f::fs).length := by omega
  rw [unpackAudio]
  simp only [hread]
  rw [hparts, if_pos (by rw [List.length_cons]; omega), run_bind_of_ok hrun, consumed_run]
  exact ⟨_, rfl, rfl, outs, hrouted, hmap⟩

theorem unpackFragments_run {f p : MediaPacket} {ps : List MediaPacket}
    {chunks : List (List UInt8)} (hall : List.Forall₂ (Fragment f f.size) ps chunks)
    (hflat : chunks.flatten = f.bytes) (hcodec : f.codec = .mp4a) (hsize : f.size < 8192)
    (s : MP4Unpacketizer) :
    ∃ t, (unpackFragments p ps f.size).run s = .ok () t ∧ Unpacked s [f.bytes] t := by
  have hlen : chunks.flatten.length = f.size := by rw [hflat, MediaPacket.size]
  have hjoin := joinLoop_run hcodec hsize hall
    (whole ((MediaPacket.new .media .audio f.size).set_metadata p) .MOV) 0 (by
      simp only [whole, MediaPacket.set_metadata, MediaPacket.new, iBufferSpace, hlen]
      simp only [MediaPacket.size, List.length_nil]
      omega) (by omega)
  rw [unpackFragments, run_ofExcept_bind hjoin, if_neg (by simp), run_modify_bind, consumed_run]
  exact ⟨_, rfl, rfl, [_], rfl, by simp [whole, hflat]⟩

theorem unpackAudio_fragments {f p : MediaPacket} {rest : List MediaPacket}
    {chunks : List (List UInt8)} (hall : List.Forall₂ (Fragment f f.size) (p::rest) chunks)
    (hflat : chunks.flatten = f.bytes) (hcodec : f.codec = .mp4a) (hsize : f.size < 8192)
    (s : MP4Unpacketizer) :
    ∃ t, (unpackAudio p rest).run s = .ok () t ∧ Unpacked s [f.bytes] t := by
  cases hall with
  | @cons _ chunk _ chunks hfrag hrest =>
    rcases read_fragment hfrag hcodec hsize with ⟨hfirst, hsecond⟩
    rcases fragment_payload hfrag hcodec with ⟨hdrop, hlen⟩
    have htotal : chunk.length+chunks.flatten.length = f.size := by
      rw [MediaPacket.size, ← hflat, List.flatten_cons, List.length_append]
    have hpayload : uint32 ((p.size : ℤ)-4) = chunk.length := by
      rw [hlen]
      push_cast
      rw [add_sub_cancel_left]
      exact uint32_of_range _ (by omega)
    rw [unpackAudio]
    simp only [hfirst, hsecond, hpayload]
    rw [if_neg (by decide), if_pos (by decide)]
    cases hrest with
    | nil =>
      rw [List.flatten_nil, List.length_nil, add_zero] at htotal
      have hpop : p.pop_front 4 = _ := pop_front_ok (by omega)
      rw [if_neg (by omega), if_pos htotal.symm, run_ofExcept_bind hpop, run_modify_bind,
        consumed_run]
      refine ⟨_, rfl, rfl, [_], rfl, ?_⟩
      simpa [whole, hdrop] using hflat
    | @cons q chunk' rest chunks hfrag' hrest =>
      have hpos : 0 < chunk'.length := List.length_pos_of_ne_nil hfrag'.nonempty
      rw [List.flatten_cons, List.length_append] at htotal
      rw [if_pos (by omega)]
      exact unpackFragments_run (List.Forall₂.cons hfrag (List.Forall₂.cons hfrag' hrest)) hflat
        hcodec hsize s

/-- One call of `unpack` on the packets of a group. -/
theorem unpack_group {codec : CodecType} {members ps : List MediaPacket} (h : Group members ps)
    (hcodec : codec = .mp4a ∨ codec = .mp4v) (hready : ∀ f ∈ members, Ready codec f)
    (hcount : members.length ≤ iMax) {s : MP4Unpacketizer} (hs : s.vBuffer = ps) :
    ∃ t, unpack.run s = .ok () t ∧ Unpacked s (restored codec members) t := by
  rcases group_front h with ⟨f, fs, p, rest, rfl, rfl, hmarked⟩
  have hf := hready f List.mem_cons_self
  have hp := hmarked p List.mem_cons_self
  have hpcodec : p.codec = codec := by rw [hp.codec, hf.codec]
  have hpmux : p.mux = .RTP := by rw [hp.mux, hf.mux]
  rw [unpack, run_get_bind, hs]
  dsimp only
  rcases hcodec with rfl | rfl
  · rw [if_neg (by rw [hpcodec]; decide), if_neg (by rw [hpmux]; decide),
      if_neg (by rw [hpcodec]; decide), restored, if_pos rfl]
    cases h with
    | fragments hall hne hflat =>
      exact unpackAudio_fragments hall hflat hf.codec (hf.audio rfl) s
    | aggregate hp =>
      simp only [iMax, List.length_cons] at hcount
      exact unpackAudio_aggregate hp hf.codec (by simp) (by rw [List.length_cons]; omega)
        (fun g hg => (hready g hg).audio rfl) s
  · rw [if_neg (by rw [hpcodec]; decide), if_neg (by rw [hpmux]; decide), if_pos hpcodec,
      restored, if_neg (by decide)]
    exact unpackVideo_run h (fun g hg => by rw [(hready g hg).codec]; decide) p s

end Sirannon.MP4
