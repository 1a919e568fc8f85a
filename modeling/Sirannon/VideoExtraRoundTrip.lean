import Sirannon.VideoExtraRecord

/-!
# Parameter sets from a record

Five bits of the number of parameter sets are read, for the PPSs too, where the
record has eight.
-/

set_option autoImplicit false

namespace Sirannon.VideoExtra
open ByteMemory Bits BitString Media H264

/-- The reader stands at a byte from which `bs` comes next. -/
def Coming (b : IBits) (off : ℕ) (bs : Bytes) : Prop := b.Ahead (8*off) (ofBytes bs)

variable {b : IBits} {off : ℕ} {u bs rest : Bytes}

theorem coming_byte {x : UInt8} (h : Coming b off (x::bs)) :
    (b.read 8).1 = x.toNat ∧ Coming (b.read 8).2 (off+1) bs := by
  rw [Coming, ofBytes_cons] at h
  obtain ⟨hval, hnext⟩ := IBits.read_field h (by omega) x.toNat_lt
  exact ⟨hval, hnext⟩

theorem coming_skip {c : Bytes} (h : Coming b off (c ++ bs)) (hlen : c.length = 4) :
    Coming (b.read 32).2 (off+4) bs := by
  rw [Coming, ofBytes_append] at h
  have hread := IBits.read_spec b 32 h.1 (by omega)
  have hsplit := IBits.ahead_left h
  rw [ofBytes_length, hlen] at hsplit
  refine ⟨hread.2.1, ?_, ?_⟩
  · rw [hread.2.2.1, h.2.1]
    omega
  · rw [hread.2.2.2.1, show 8*(off+4) = 8*off+8*4 by omega]
    exact hsplit.2

theorem entry_bits (u : Bytes) : ofBytes (entry u) = ofNat 16 u.length ++ ofBytes u := by
  rw [entry, ofBytes_cons, ofBytes_cons, ← List.append_assoc]
  congr 1
  rw [show (16 : ℕ) = 8+8 from rfl, ofNat_add, UInt8.toNat_ofNat', UInt8.toNat_ofNat']
  rw [ofNat_mod, ofNat_mod]

/-- A length, and then the parameter set itself. -/
theorem coming_entry (h : Coming b off (entry u ++ bs)) (hlen : u.length < 2^16) :
    (b.read 16).1 = u.length ∧
      load (b.read 16).2.buf (b.read 16).2.v u.length = u ∧
      Coming ((b.read 16).2.seek u.length) (off+(u.length+2)) bs := by
  rw [Coming, ofBytes_append, entry_bits, List.append_assoc] at h
  obtain ⟨hval, hnext⟩ := IBits.read_field h (by omega) hlen
  rw [show 8*off+16 = 8*(off+2) by omega] at hnext
  have hsplit := IBits.ahead_left hnext
  have hv := (IBits.ahead_aligned hnext).2
  obtain ⟨hloaded, hpos, hbuf, -⟩ := IBits.seek_spec (b.read 16).2 u.length hnext.1
  refine ⟨hval, ?_, hloaded, ?_, ?_⟩
  · have hbytes := congrArg pack hsplit.1
    rw [ofBytes_length, bits_load, pack_ofBytes, pack_ofBytes] at hbytes
    rw [hv]
    exact hbytes
  · rw [hpos, hnext.2.1]
    omega
  · rw [hbuf, show 8*(off+(u.length+2)) = 8*(off+2)+(ofBytes u).length by
      rw [ofBytes_length]
      omega]
    exact hsplit.2

/-- A parameter set gets a start code. -/
theorem extract_packet (u : Bytes) : ∃ p q,
    (MediaPacket.new .media .video (u.length+4)).push_back H264_START_CODE = .ok p ∧
      p.push_back u = .ok q ∧ q.bytes = H264_START_CODE ++ u := by
  refine ⟨_, _, new_push_back .media .video (u.length+4) H264_START_CODE (by simp [H264_START_CODE]),
    push_back_ok ?_, ?_⟩
  · rw [MediaPacket.size, pushed_bytes, new_bytes]
    simp only [MediaPacket.pushed, MediaPacket.new, iBufferSpace, H264_START_CODE, List.nil_append,
      List.length_cons, List.length_nil]
    omega
  · rw [pushed_bytes, pushed_bytes, new_bytes, List.nil_append]

theorem extractLoop_run {us : List Bytes} (h : Coming b off (us.flatMap entry ++ rest))
    (hlen : ∀ u ∈ us, u.length < 2^16) : ∃ r, extractLoop us.length b = .ok r ∧
      r.1.map MediaPacket.bytes = us.map (H264_START_CODE ++ ·) ∧ Coming r.2 (off+entriesSize us) rest := by
  induction us generalizing b off with
  | nil => exact ⟨([], b), rfl, rfl, h⟩
  | cons u us ih =>
    rw [List.flatMap_cons, List.append_assoc] at h
    obtain ⟨hval, hload, hnext⟩ := coming_entry h (hlen u List.mem_cons_self)
    obtain ⟨r, hr, hbytes, hcoming⟩ := ih hnext fun v hv => hlen v (List.mem_cons_of_mem u hv)
    obtain ⟨p, q, hp, hq, hpacket⟩ := extract_packet u
    refine ⟨(q::r.1, r.2), ?_, ?_, ?_⟩
    · rw [List.length_cons, extractLoop, hval, hp, hload]
      show (p.push_back u >>= fun pPckt => _) = _
      rw [hq]
      show (extractLoop us.length _ >>= fun r => _) = _
      rw [hr]
      rfl
    · rw [List.map_cons, List.map_cons, hpacket, hbytes]
    · rw [entriesSize_cons, ← Nat.add_assoc]
      exact hcoming

theorem extractLoop_length {n : ℕ} {r : List MediaPacket × IBits} (h : extractLoop n b = .ok r) :
    r.1.length = n := by
  induction n generalizing b r with
  | zero =>
    cases h
    rfl
  | succ n ih =>
    rw [extractLoop] at h
    obtain ⟨p, -, h⟩ := bind_ok.1 h
    obtain ⟨q, -, h⟩ := bind_ok.1 h
    obtain ⟨r', hr', h⟩ := bind_ok.1 h
    cases h
    rw [List.length_cons, ih hr']

theorem masked_count {n : ℕ} (h : n ≤ 31) : (UInt8.ofNat (0xE0 ||| n)).toNat%2^5 = n := by
  interval_cases n <;> rfl

/-- The record is read up to the number of PPSs. -/
theorem extract_first (behind pBuffer : Memory) {spss : List Bytes} (rest : Bytes)
    (hcount : spss.length ≤ 31) (hlen : ∀ u ∈ spss, u.length < 2^16) :
    ∃ r : List MediaPacket × IBits, Coming r.2 (6+entriesSize spss) rest ∧
      r.1.map MediaPacket.bytes = spss.map (H264_START_CODE ++ ·) ∧
      extractParameterSets behind
        (opening (profile pBuffer) ++ [UInt8.ofNat (0xE0 ||| spss.length)] ++ spss.flatMap entry ++ rest) =
        (extractLoop ((r.2.read 8).1%2^5) (r.2.read 8).2).map fun q => (r.1, q.1, q.2) := by
  generalize hextra : opening (profile pBuffer) ++ [UInt8.ofNat (0xE0 ||| spss.length)] ++
    spss.flatMap entry ++ rest = extra
  have hstart : Coming (IBits.new (store behind 0 extra) extra.length) 0 extra :=
    IBits.ahead_stored (stored_store behind 0 extra) extra.length
  have hsplit : extra = (0x01::profile pBuffer) ++
      (0xFF::UInt8.ofNat (0xE0 ||| spss.length)::(spss.flatMap entry ++ rest)) := by
    rw [← hextra, opening]
    simp
  rw [hsplit] at hstart
  have hone := coming_skip hstart (by rw [List.length_cons, profile_length])
  rw [← hsplit] at hone
  have htwo := (coming_byte hone).2
  obtain ⟨hcounted, hthree⟩ := coming_byte htwo
  obtain ⟨r, hr, hbytes, hcoming⟩ := extractLoop_run hthree hlen
  refine ⟨r, ?_, hbytes, ?_⟩
  · rw [show 6+entriesSize spss = 0+4+1+1+entriesSize spss by omega]
    exact hcoming
  · rw [extractParameterSets]
    dsimp only
    rw [hcounted, masked_count hcount, hr]
    rfl

/-- A converter with parameter sets of two bytes, each behind a start code. -/
def converter (iSPS iPPS : ℕ) : MP4MediaConverter where
  vSPS := List.replicate iSPS { MediaPacket.new .media .video 6 with bytes := [0, 0, 0, 1, 0x67, 0x42] }
  vPPS := List.replicate iPPS { MediaPacket.new .media .video 6 with bytes := [0, 0, 0, 1, 0x68, 0xCE] }
  oVideoExtra := OBuffer.new 64000

theorem converter_parameters (n : ℕ) {u : Bytes} {pPckt : MediaPacket} (h : Parameter pPckt u) :
    List.Forall₂ Parameter (List.replicate n pPckt) (List.replicate n u) := by
  induction n with
  | zero => exact List.Forall₂.nil
  | succ n ih => exact List.Forall₂.cons h ih

end Sirannon.VideoExtra
