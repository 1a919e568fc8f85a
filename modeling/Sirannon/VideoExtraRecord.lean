import Sirannon.VideoExtraData

/-!
# Records of parameter sets

What is written strictly forward is the record of the parameter sets, as far as
the buffer has room for it.
-/

set_option autoImplicit false

namespace Sirannon.VideoExtra
open ByteMemory Bits BitString Media MachineInt H264

/-! ## Writing forward -/

/-- The writer holds `bs`, and the byte at its position is clear. -/
structure Fresh (room : ℕ) (o : OBuffer) (bs : Bytes) : Prop where
  bytes : o.iBytes = room
  data : o.data o.v = bs
  buff : o.iBuff = 8
  next : o.v < room → o.v0 o.v = 0

variable {room : ℕ} {o o' : OBuffer} {bs : Bytes}

theorem data_v (h : o.data o.v = bs) : o.v = bs.length := by
  rw [← h, OBuffer.data, load_length]

theorem fresh_size (h : Fresh room o bs) : o.size = bs.length := by
  rw [OBuffer.size, if_pos h.buff, data_v h.data]

theorem fresh_clear (h : o.iBytes = room) : Fresh room o.clear [] :=
  ⟨h, rfl, rfl, fun _ => store_inside o.v0 0 0 [0] (by simp)⟩

theorem fresh_put (hroom : o.iBytes = room) (h : o.data o.v = bs) (b : UInt8) :
    Fresh room (o.put b) (bs ++ [b]) where
  bytes := by rw [put_iBytes, hroom]
  data := by rw [put_v, put_data, h]
  buff := put_iBuff o b
  next := by
    intro hnext
    rw [put_v] at hnext ⊢
    exact put_next o b (by rw [hroom]; exact hnext)

theorem write_eight_fits (h : Fresh room o bs) (iVal : ℕ) :
    Fits (bs.length+1) room (o.write 8 iVal) fun o' => Fresh room o' (bs ++ [UInt8.ofNat iVal]) := by
  have hv := data_v h.data
  rw [Fits, write_eight h.buff, h.bytes]
  split_ifs with hroom hfull hfull
  · omega
  · rw [h.next (by omega), UInt8.zero_or]
    exact ⟨_, rfl, fresh_put h.bytes h.data _⟩
  · exact ⟨_, rfl⟩
  · omega

/-- At a position that was sought the first byte of a length is or-ed to what was there. -/
theorem write_sixteen_fits (hroom : o.iBytes = room) (h : o.data o.v = bs) (hbuff : o.iBuff = 8) (iVal : ℕ) :
    Fits (bs.length+2) room (o.write 16 iVal) fun o' =>
      Fresh room o' (bs ++ [o.v0 o.v ||| UInt8.ofNat (iVal/2^8), UInt8.ofNat iVal]) := by
  have hv := data_v h
  obtain ⟨hover, hwrite⟩ := write_sixteen hbuff iVal
  rw [Fits]
  split_ifs with hfit
  · rw [hwrite (by omega)]
    have hfirst := fresh_put hroom h (o.v0 o.v ||| UInt8.ofNat (iVal/2^8))
    have hsecond := fresh_put hfirst.bytes hfirst.data (UInt8.ofNat iVal)
    rw [List.append_assoc] at hsecond
    exact ⟨_, rfl, hsecond⟩
  · obtain ⟨n, hn⟩ := hover (by omega)
    exact ⟨_, hn⟩

theorem write_buffer_fits (h : Fresh room o bs) (pData : Bytes) :
    Fits (bs.length+pData.length) room (o.write_buffer pData) fun o' => Fresh room o' (bs ++ pData) := by
  have hv := data_v h.data
  rw [Fits, OBuffer.write_buffer, h.bytes]
  split_ifs with hroom hfull hfull
  · omega
  · refine ⟨_, rfl, ?_, ?_, ?_, ?_⟩
    · rw [cleared_iBytes]
    · rw [cleared_v, OBuffer.data, cleared_below _ (le_refl _)]
      have hdata := h.data
      rw [OBuffer.data] at hdata
      show load (store o.v0 o.v pData) 0 (o.v+pData.length) = bs ++ pData
      rw [load_store_extend, hdata]
    · rw [cleared_iBuff]
      exact h.buff
    · intro hnext
      rw [cleared_v] at hnext ⊢
      exact cleared_next _ hnext
  · exact ⟨_, rfl⟩
  · omega

theorem writeBytes_fits (more : Bytes) (h : Fresh room o bs) (hle : bs.length ≤ room) :
    Fits (bs.length+more.length) room (writeBytes more o) fun o' => Fresh room o' (bs ++ more) := by
  induction more generalizing o bs with
  | nil =>
    rw [List.append_nil]
    exact fits_ok hle h
  | cons b more ih =>
    rw [writeBytes, List.length_cons]
    apply fits_bind (write_eight_fits h b.toNat) (by omega)
    rintro o₁ hroom h₁
    rw [UInt8.ofNat_toNat] at h₁
    have hrest := ih h₁ (by rw [List.length_append, List.length_singleton]; omega)
    rw [List.length_append, List.length_singleton, List.append_assoc, List.singleton_append] at hrest
    rw [show bs.length+(more.length+1) = bs.length+1+more.length by omega]
    exact hrest

/-- The first five bytes. -/
def opening (pProfile : Bytes) : Bytes := 0x01::pProfile ++ [0xFF]

theorem profile_length (pBuffer : Memory) : (profile pBuffer).length = 3 := load_length _ _ _

theorem opening_length (pBuffer : Memory) : (opening (profile pBuffer)).length = 5 := by
  rw [opening, List.length_append, List.length_cons, profile_length]
  rfl

theorem writeHeader_fits (hroom : o.iBytes = room) (pBuffer : Memory) :
    Fits 5 room (writeHeader (profile pBuffer) o) fun o' => Fresh room o' (opening (profile pBuffer)) := by
  have h := writeBytes_fits (opening (profile pBuffer)) (fresh_clear hroom) (Nat.zero_le _)
  rw [List.length_nil, Nat.zero_add, List.nil_append, opening_length] at h
  exact h

/-! ## Parameter sets -/

/-- A parameter set behind its length. -/
def entry (u : Bytes) : Bytes := UInt8.ofNat (u.length/2^8)::UInt8.ofNat u.length::u

def record (pProfile : Bytes) (spss ppss : List Bytes) : Bytes :=
  opening pProfile ++ [UInt8.ofNat (0xE0 ||| spss.length)] ++ spss.flatMap entry ++
    [UInt8.ofNat ppss.length] ++ ppss.flatMap entry

/-- The sizes of parameter sets with their lengths. -/
def entriesSize (us : List Bytes) : ℕ := (us.map fun u => u.length+2).sum

theorem entry_length (u : Bytes) : (entry u).length = u.length+2 := rfl

theorem entriesSize_cons (u : Bytes) (us : List Bytes) :
    entriesSize (u::us) = u.length+2+entriesSize us := by
  rw [entriesSize, List.map_cons, List.sum_cons, entriesSize]

theorem entries_length (us : List Bytes) : (us.flatMap entry).length = entriesSize us := by
  induction us with
  | nil => rfl
  | cons u us ih =>
    rw [List.flatMap_cons, List.length_append, ih, entry_length, entriesSize_cons]

/-- A packet with a parameter set, with its start code or without. -/
structure Parameter (pPckt : MediaPacket) (u : Bytes) : Prop where
  bytes : ∃ c, pPckt.bytes = c ++ u ∧ (c = [] ∨ c = [0, 0, 1] ∨ c = [0, 0, 0, 1])
  first : ∃ b rest, u = b::rest ∧ b ≠ 0

theorem start_code {c u : Bytes} {m : Memory} (hm : Stored m 0 (c ++ u))
    (hc : c = [] ∨ c = [0, 0, 1] ∨ c = [0, 0, 0, 1]) (hu : ∃ b rest, u = b::rest ∧ b ≠ 0) :
    H264_is_start_code m = c.length := by
  obtain ⟨b, rest, rfl, hb⟩ := hu
  rcases hc with rfl | rfl | rfl
  · simp only [List.nil_append, stored_cons] at hm
    rw [H264_is_start_code, if_neg (by rw [hm.1]; exact fun h => hb h.1)]
    rfl
  · simp only [List.cons_append, List.nil_append, stored_cons] at hm
    rw [H264_is_start_code, if_pos ⟨hm.1, hm.2.1⟩, if_pos hm.2.2.1]
    rfl
  · simp only [List.cons_append, List.nil_append, stored_cons] at hm
    have hthird : m 2 ≠ 1 := by
      rw [show m 2 = 0 from hm.2.2.1]
      decide
    rw [H264_is_start_code, if_pos ⟨hm.1, hm.2.1⟩, if_neg hthird, if_pos ⟨hm.2.2.1, hm.2.2.2.1⟩]
    rfl

theorem stripped (behind : Memory) {pPckt : MediaPacket} {u : Bytes} (h : Parameter pPckt u) :
    ∃ p, pPckt.pop_front (H264_is_start_code (pData behind pPckt)) = .ok p ∧ p.bytes = u := by
  obtain ⟨c, hbytes, hc⟩ := h.bytes
  have hstart : H264_is_start_code (pData behind pPckt) = c.length := by
    apply start_code _ hc h.first
    rw [← hbytes]
    exact stored_store behind 0 pPckt.bytes
  rw [hstart, pop_front_ok]
  · refine ⟨_, rfl, ?_⟩
    rw [popped_bytes, hbytes, List.drop_left]
  · rw [MediaPacket.size, hbytes, List.length_append]
    omega

theorem writeParameter_fits (behind : Memory) {pPckt : MediaPacket} {u : Bytes} (hp : Parameter pPckt u)
    (h : Fresh room o bs) : Fits (bs.length+(u.length+2)) room (writeParameter behind pPckt o) fun r =>
      Fresh room r.2 (bs ++ entry u) := by
  obtain ⟨p, hpop, hbytes⟩ := stripped behind hp
  have hv := data_v h.data
  rw [writeParameter, hpop]
  show Fits _ _ (o.write 16 p.size >>= fun o => o.write_buffer p.bytes >>= fun o => pure (p, o)) _
  apply fits_bind (write_sixteen_fits h.bytes h.data h.buff p.size) (by omega)
  rintro o₁ hroom h₁
  have hbuffer := write_buffer_fits h₁ p.bytes
  rw [h.next (by omega), UInt8.zero_or, MediaPacket.size, hbytes, List.append_assoc] at hbuffer
  have hsum : (bs ++ [UInt8.ofNat (u.length/2^8), UInt8.ofNat u.length]).length+u.length =
      bs.length+(u.length+2) := by
    rw [List.length_append]
    simp
    omega
  rw [hsum] at hbuffer
  rw [hbytes]
  apply fits_bind hbuffer (le_refl _)
  rintro o₂ hroom₂ h₂
  exact fits_ok hroom₂ h₂

theorem writeParameters_fits (behind : Memory) {v : List MediaPacket} {us : List Bytes}
    (hv : List.Forall₂ Parameter v us) (h : Fresh room o bs) (hle : bs.length ≤ room) :
    Fits (bs.length+entriesSize us) room (writeParameters behind v o) fun r =>
      Fresh room r.2 (bs ++ us.flatMap entry) := by
  induction hv generalizing o bs with
  | nil =>
    rw [List.flatMap_nil, List.append_nil]
    exact fits_ok hle h
  | @cons p u v us hp hv ih =>
    rw [writeParameters, entriesSize_cons]
    apply fits_bind (writeParameter_fits behind hp h) (by omega)
    rintro ⟨q, o₁⟩ hroom h₁
    have hlen : (bs ++ entry u).length = bs.length+(u.length+2) := by
      rw [List.length_append, entry_length]
    have hrest := ih h₁ (by omega)
    rw [hlen, List.append_assoc, ← List.flatMap_cons] at hrest
    rw [show bs.length+(u.length+2+entriesSize us) = bs.length+(u.length+2)+entriesSize us by omega]
    apply fits_bind hrest (le_refl _)
    rintro ⟨qs, o₂⟩ hroom₂ h₂
    exact fits_ok hroom₂ h₂

/-- The size of a record. -/
def recordSize (spss ppss : List Bytes) : ℕ := 7+entriesSize spss+entriesSize ppss

theorem record_length (pBuffer : Memory) (spss ppss : List Bytes) :
    (record (profile pBuffer) spss ppss).length = recordSize spss ppss := by
  rw [record, recordSize]
  simp only [List.length_append, List.length_singleton, entries_length, opening_length]
  omega

/-- With parameter sets of both kinds their record is built, as far as there is room. -/
theorem annexb2avcc_fits (behind : Memory) {s : MP4MediaConverter} {pSPS pPPS : MediaPacket}
    {v w : List MediaPacket} {spss ppss : List Bytes} (hvSPS : s.vSPS = pSPS::v) (hvPPS : s.vPPS = pPPS::w)
    (hsps : List.Forall₂ Parameter s.vSPS spss) (hpps : List.Forall₂ Parameter s.vPPS ppss) :
    Fits (recordSize spss ppss) s.oVideoExtra.iBytes (s.ANNEXB2AVCC behind)
      fun r => r.1 = some (record (profile (pData behind pSPS)) spss ppss) ∧
        r.2.oVideoExtra.iBytes = s.oVideoExtra.iBytes := by
  have hbody : s.ANNEXB2AVCC behind = (do
      let oVideoExtra ← writeHeader (profile (pData behind pSPS)) s.oVideoExtra
      let oVideoExtra ← oVideoExtra.write 8 (0xE0 ||| s.vSPS.length)
      let r ← writeParameters behind s.vSPS oVideoExtra
      let oVideoExtra ← r.2.write 8 (0x00 ||| s.vPPS.length)
      let q ← writeParameters behind s.vPPS oVideoExtra
      pure (some (q.2.data q.2.size), ⟨r.1, q.1, q.2⟩)) := by
    rw [MP4MediaConverter.ANNEXB2AVCC]
    split
    · rename_i hS hP
      rw [hvSPS] at hS
      cases hS
      rfl
    · rename_i hnone
      exact (hnone _ _ _ _ hvSPS hvPPS).elim
  have hopen := opening_length (pData behind pSPS)
  rw [hbody, recordSize, hsps.length_eq, hpps.length_eq, Nat.zero_or]
  apply fits_bind (writeHeader_fits rfl _) (by omega)
  rintro o₁ hroom₁ h₁
  have hcount := write_eight_fits h₁ (0xE0 ||| spss.length)
  rw [hopen] at hcount
  apply fits_bind hcount (by omega)
  rintro o₂ hroom₂ h₂
  have hspss := writeParameters_fits behind hsps h₂ (by rw [List.length_append, hopen]; exact hroom₂)
  rw [List.length_append, hopen, List.length_singleton] at hspss
  apply fits_bind hspss (by omega)
  rintro ⟨qs, o₃⟩ hroom₃ h₃
  have hcount' := write_eight_fits h₃ ppss.length
  rw [List.length_append, List.length_append, hopen, List.length_singleton, entries_length] at hcount'
  apply fits_bind hcount' (by omega)
  rintro o₄ hroom₄ h₄
  have hlen : (opening (profile (pData behind pSPS)) ++ [UInt8.ofNat (0xE0 ||| spss.length)] ++
      spss.flatMap entry ++ [UInt8.ofNat ppss.length]).length = 5+1+entriesSize spss+1 := by
    simp only [List.length_append, List.length_singleton, entries_length, hopen]
  have hppss := writeParameters_fits behind hpps h₄ (by rw [hlen]; exact hroom₄)
  rw [hlen, show 5+1+entriesSize spss+1+entriesSize ppss = 7+entriesSize spss+entriesSize ppss by omega] at hppss
  apply fits_bind hppss (le_refl _)
  rintro ⟨rs, o₅⟩ hroom₅ h₅
  apply fits_ok hroom₅
  have hdata := h₅.data
  rw [data_v h₅.data, ← fresh_size h₅] at hdata
  exact ⟨congrArg some hdata, h₅.bytes⟩

end Sirannon.VideoExtra
