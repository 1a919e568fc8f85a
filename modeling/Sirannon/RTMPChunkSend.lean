import Sirannon.RTMPChunkFormat

/-!
# Sending a message as chunks

The bytes `sendMessage` composes are the encoding of the chunks of the
message: one with the header it picked, then one without a header for every
further piece of the payload.
-/

set_option autoImplicit false

namespace Sirannon.RTMPChunkSend
open Bits BitString RTMPChunkStream RTMPChunkFormat

def pieces (size : ℕ) : ℕ → List UInt8 → List (List UInt8)
  | 0, _ => []
  | fuel+1, bs => if bs = [] then [] else bs.take size :: pieces size fuel (bs.drop size)

def continuation (basic : BasicHeader) (extended : Option ℕ) (p : List UInt8) : Chunk :=
  ⟨basic, .inherit, extended, p⟩

def cut (basic : BasicHeader) (header : ChunkHeader) (extended : Option ℕ) :
    List (List UInt8) → List Chunk
  | [] => [⟨basic, header, extended, []⟩]
  | p::ps => ⟨basic, header, extended, p⟩ :: ps.map (continuation basic extended)

/-- The chunks of one message, cut at `size`. -/
def messageChunks (basic : BasicHeader) (header : ChunkHeader) (extended : Option ℕ)
    (size : ℕ) (payload : List UInt8) : List Chunk :=
  cut basic header extended (pieces size payload.length payload)

def sentHeader (fmt iMessage iMessageType iStreamID iTimeStamp : ℕ) : ChunkHeader :=
  if fmt = 0 then .full iTimeStamp iMessage iMessageType (iStreamID % 2^8 * 2^24)
  else if fmt = 1 then .lengthAndDelta iTimeStamp iMessage iMessageType
  else if fmt = 2 then .deltaOnly iTimeStamp
  else .inherit

theorem pieces_nil (size fuel : ℕ) : pieces size fuel [] = [] := by
  cases fuel <;> simp [pieces]

theorem basic_fields_sum (basic : BasicHeader) :
    ∃ n, (fieldBits basic.fields).length = 8*n ∧ n ≤ 2 := by
  cases basic with
  | short id h => exact ⟨0, rfl, by omega⟩
  | medium lo => exact ⟨1, by simp [BasicHeader.fields, fieldBits_length], by omega⟩
  | long lo hi => exact ⟨2, by simp [BasicHeader.fields, fieldBits_length], by omega⟩

theorem header_fields_sum (header : ChunkHeader) :
    ∃ n, (fieldBits header.fields).length = 8*n ∧ n ≤ 11 := by
  cases header with
  | full t l ty sid => exact ⟨11, by simp [ChunkHeader.fields, fieldBits_length], by omega⟩
  | lengthAndDelta d l ty => exact ⟨7, by simp [ChunkHeader.fields, fieldBits_length], by omega⟩
  | deltaOnly d => exact ⟨3, by simp [ChunkHeader.fields, fieldBits_length], by omega⟩
  | inherit => exact ⟨0, by simp [ChunkHeader.fields, fieldBits_length], by omega⟩

theorem firstBits_length (c : Chunk) : c.firstBits.length = 8 := by simp [Chunk.firstBits]

theorem restBits_length (c : Chunk) : ∃ n, c.restBits.length = 8*n ∧ n ≤ 13 := by
  obtain ⟨a, ha, ha'⟩ := basic_fields_sum c.basic
  obtain ⟨b, hb, hb'⟩ := header_fields_sum c.header
  exact ⟨a+b, by rw [Chunk.restBits, List.length_append, ha, hb]; ring, by omega⟩

theorem extendedBits_length (e : Option ℕ) : ∃ n, (extendedBits e).length = 8*n ∧ n ≤ 4 := by
  cases e with
  | none => exact ⟨0, rfl, by omega⟩
  | some e => exact ⟨4, by simp [extendedBits], le_refl _⟩

/-- The header bytes of a chunk, without its payload. -/
def Chunk.head (c : Chunk) : List UInt8 :=
  pack c.firstBits ++ pack c.restBits ++ pack (extendedBits c.extended)

theorem ofBytes_head (c : Chunk) :
    ofBytes (Chunk.head c) = c.firstBits ++ c.restBits ++ extendedBits c.extended := by
  obtain ⟨n, hn, -⟩ := restBits_length c
  obtain ⟨k, hk, -⟩ := extendedBits_length c.extended
  rw [Chunk.head, ofBytes_append, ofBytes_append, ofBytes_pack 1 _ (firstBits_length c),
    ofBytes_pack n _ hn, ofBytes_pack k _ hk]

/-! ## Composing -/

theorem sent_fmt (fmt len type sid ts : ℕ) (h : fmt = 0 ∨ fmt = 1 ∨ fmt = 3) :
    (sentHeader fmt len type sid ts).fmt = fmt := by
  rcases h with rfl | rfl | rfl <;> rfl

theorem streamId_bits (sid : ℕ) : ofNat 32 (sid % 2^8 * 2^24) = ofNat 8 sid ++ ofNat 24 0 := by
  rw [ofNat_add 8 24, Nat.mul_div_cancel _ (Nat.two_pow_pos _), ofNat_mod]
  congr 1
  exact ofNat_congr (by simp)

/-- The fields written for the first chunk are its first byte and its message header. -/
theorem headerFields_bits (fmt id len type sid ts : ℕ) (h : fmt = 0 ∨ fmt = 1 ∨ fmt = 3) :
    fieldBits (headerFields fmt id len type sid ts) =
      ofNat 2 fmt ++ ofNat 6 id ++ fieldBits (sentHeader fmt len type sid ts).fields := by
  rcases h with rfl | rfl | rfl
  · have hsid := streamId_bits sid
    simp only [Nat.reducePow] at hsid
    simp [headerFields, fieldBits, sentHeader, ChunkHeader.fields, hsid]
  · simp [headerFields, fieldBits, sentHeader, ChunkHeader.fields]
  · simp [headerFields, fieldBits, sentHeader, ChunkHeader.fields]

/-- Continuation chunks as `sendMessage` writes them. -/
def tailBytes (basic : BasicHeader) (ps : List (List UInt8)) : List UInt8 :=
  encodeAll (ps.map (continuation basic none))

theorem encode_continuation (id : ℕ) (h : 2 ≤ id ∧ id < 64) (p : List UInt8) :
    (continuation (.short id h) none p).encode = pack (ofNat 2 3 ++ ofNat 6 id) ++ p := by
  have hrest : pack (continuation (.short id h) none p).restBits = [] := rfl
  have hext : pack (extendedBits (continuation (.short id h) none p).extended) = [] := rfl
  rw [Chunk.encode, hrest, hext, List.append_nil, List.append_nil]
  rfl

theorem write_continuation (id : ℕ) (o : OBits) (bs : List UInt8) (ho : o.Holds (ofBytes bs))
    (hcap : bs.length+1 ≤ o.iBytes) :
    ∃ o', o.writes [(2, 3), (6, id)] = .ok o' ∧
      o'.Holds (ofBytes (bs ++ pack (ofNat 2 3 ++ ofNat 6 id))) ∧ o'.iBytes = o.iBytes := by
  have hpos : ∀ f ∈ [(2, 3), (6, id)], 0 < f.1 := by
    rintro f hf
    rcases List.mem_cons.mp hf with rfl | hf
    · simp
    · obtain rfl := List.mem_singleton.mp hf
      simp
  have hbits : fieldBits [(2, 3), (6, id)] = ofNat 2 3 ++ ofNat 6 id := by simp [fieldBits]
  obtain ⟨hok, hfit⟩ := OBits.writes_appends [(2, 3), (6, id)] o _ ho hpos
  obtain ⟨o', hw⟩ := hfit (by
    rw [ofBytes_length, fieldBits_length]
    simp
    omega)
  obtain ⟨hh, hb⟩ := hok o' hw
  refine ⟨o', hw, ?_, hb⟩
  rw [ofBytes_append, ofBytes_pack 1 _ (by simp), ← hbits]
  exact hh

theorem take_drop_min (data : List UInt8) (k : ℕ) :
    data.take (min data.length k) = data.take k ∧ data.drop (min data.length k) = data.drop k := by
  rcases Nat.le_total data.length k with h | h
  · rw [min_eq_left h, List.take_of_length_le h, List.drop_eq_nil_of_le h, List.take_length,
      List.drop_length]
    exact ⟨rfl, rfl⟩
  · rw [min_eq_right h]
    exact ⟨rfl, rfl⟩

theorem tailBytes_cons (id : ℕ) (h : 2 ≤ id ∧ id < 64) (p : List UInt8) (ps : List (List UInt8)) :
    tailBytes (.short id h) (p::ps) =
      pack (ofNat 2 3 ++ ofNat 6 id) ++ p ++ tailBytes (.short id h) ps := by
  rw [← encode_continuation id h p]
  rfl

theorem writePayloads_tail (id : ℕ) (h : 2 ≤ id ∧ id < 64) (size : ℤ) (hs : 0 < size)
    (fuel : ℕ) (data bs : List UInt8) (o : OBits) (hf : data.length ≤ fuel)
    (ho : o.Holds (ofBytes bs)) (hcap : bs.length + 2*data.length ≤ o.iBytes) :
    ∃ o', writePayloads id size fuel false data o = .ok o' ∧
      o'.Holds (ofBytes (bs ++ tailBytes (.short id h) (pieces size.toNat fuel data))) := by
  induction fuel generalizing data bs o with
  | zero =>
    refine ⟨o, rfl, ?_⟩
    simpa [pieces, tailBytes, encodeAll] using ho
  | succ fuel ih =>
    rw [writePayloads, pieces]
    by_cases hd : data = []
    · rw [if_pos hd, if_pos hd]
      exact ⟨o, rfl, by simpa [tailBytes, encodeAll] using ho⟩
    have hlen : 0 < data.length := List.length_pos_iff.mpr hd
    have hk : 0 < size.toNat := by omega
    obtain ⟨htake, hdrop⟩ := take_drop_min data size.toNat
    obtain ⟨o₁, hw, hh, hb⟩ := write_continuation id o bs ho (by omega)
    have hh' := OBits.writeBuffer_holds (data.take size.toNat) hh (aligned_ofBytes _)
    rw [← ofBytes_append] at hh'
    have hcap' : (bs ++ pack (ofNat 2 3 ++ ofNat 6 id) ++ data.take size.toNat).length +
        2*(data.drop size.toNat).length ≤ (o₁.writeBuffer (data.take size.toNat)).iBytes := by
      have hp : (pack (ofNat 2 3 ++ ofNat 6 id)).length = 1 := pack_length 1 _ (by simp)
      have hbytes : (o₁.writeBuffer (data.take size.toNat)).iBytes = o.iBytes := hb
      rw [hbytes, List.length_append, List.length_append, hp, List.length_take, List.length_drop]
      omega
    obtain ⟨o', ho', hh''⟩ := ih (data.drop size.toNat) _ _
      (by rw [List.length_drop]; omega) hh' hcap'
    rw [if_neg hd, if_neg hd, if_neg (by omega), tailBytes_cons]
    refine ⟨o', ?_, by simpa [List.append_assoc] using hh''⟩
    simp only [htake, hdrop, hw, ofBits]
    exact ho'

theorem headerFields_pos (fmt id len type sid ts : ℕ) :
    ∀ f ∈ headerFields fmt id len type sid ts, 0 < f.1 := by
  rw [headerFields]
  split_ifs <;> simp only [List.cons_append, List.nil_append, List.forall_mem_cons] <;> simp

/-- The first write of a message leaves the header of its first chunk in the buffer. -/
theorem write_first (c : Chunk) (fmt id len type sid ts : ℕ) (h : 2 ≤ id ∧ id < 64)
    (hfmt : fmt = 0 ∨ fmt = 1 ∨ fmt = 3) (hb : c.basic = .short id h)
    (hh : c.header = sentHeader fmt len type sid ts) (he : c.extended = none) :
    ∃ o, (OBits.new maxMessageSize).writes (headerFields fmt id len type sid ts) = .ok o ∧
      o.iBytes = maxMessageSize ∧ o.Holds (ofBytes (Chunk.head c)) ∧
      (Chunk.head c).length ≤ 12 := by
  obtain ⟨hok, hfit⟩ := OBits.writes_appends (headerFields fmt id len type sid ts)
    (OBits.new maxMessageSize) [] (OBits.holds_new _)
    (headerFields_pos fmt id len type sid ts)
  obtain ⟨n, hn, hn'⟩ := header_fields_sum c.header
  have hall : fieldBits (headerFields fmt id len type sid ts) = ofBytes (Chunk.head c) := by
    rw [headerFields_bits fmt id len type sid ts hfmt, ofBytes_head, Chunk.firstBits,
      Chunk.restBits, hb, hh, he, sent_fmt fmt len type sid ts hfmt]
    simp [BasicHeader.fields, BasicHeader.csId, fieldBits, extendedBits]
  have hlen : 8*(Chunk.head c).length = 8+8*n := by
    rw [← ofBytes_length, ← hall, headerFields_bits fmt id len type sid ts hfmt, ← hh,
      List.length_append, List.length_append, hn, ofNat_length, ofNat_length]
  rw [hall, List.nil_append] at hok
  rw [hall, List.length_nil, ofBytes_length] at hfit
  have hcap : 0 + 8*(Chunk.head c).length ≤ 8*(OBits.new maxMessageSize).iBytes := by
    rw [hlen, OBits.new]
    simp only [maxMessageSize]
    omega
  obtain ⟨o, ho⟩ := hfit hcap
  obtain ⟨hh', hb'⟩ := hok o ho
  exact ⟨o, ho, hb', hh', by omega⟩

/-- `sendMessage` composes the chunks of the message. -/
theorem composeMessage_ok (size : ℤ) (fmt : ℕ) (data : List UInt8) (type id sid ts : ℕ)
    (h : 2 ≤ id ∧ id < 64) (hs : 0 < size) (hfmt : fmt = 0 ∨ fmt = 1 ∨ fmt = 3)
    (hcap : 12 + 2*data.length ≤ maxMessageSize) :
    composeMessage size fmt data type id sid ts = .ok (encodeAll (messageChunks (.short id h)
      (sentHeader fmt data.length type sid ts) none size.toNat data)) := by
  obtain ⟨o, hw, hb, hh, hlen⟩ := write_first ⟨.short id h,
    sentHeader fmt data.length type sid ts, none, data.take size.toNat⟩ fmt id data.length type
    sid ts h hfmt rfl rfl rfl
  have henc : ∀ p, (⟨.short id h, sentHeader fmt data.length type sid ts, none, p⟩ :
      Chunk).encode = Chunk.head ⟨.short id h, sentHeader fmt data.length type sid ts, none,
        data.take size.toNat⟩ ++ p := fun p => rfl
  rw [composeMessage, hw]
  by_cases hd : data = []
  · have hnil : messageChunks (.short id h) (sentHeader fmt data.length type sid ts) none
        size.toNat data = [⟨.short id h, sentHeader fmt data.length type sid ts, none, []⟩] := by
      rw [messageChunks, hd, pieces_nil]
      rfl
    rw [hnil, encodeAll, List.flatMap_singleton, henc, List.append_nil,
      ← OBits.data_of_holds hh, hd]
    rfl
  obtain ⟨k, hk⟩ : ∃ k, data.length = k+1 :=
    Nat.exists_eq_succ_of_ne_zero (fun h0 => hd (List.length_eq_zero_iff.mp h0))
  obtain ⟨htake, hdrop⟩ := take_drop_min data size.toNat
  have hh' := OBits.writeBuffer_holds (data.take size.toNat) hh (aligned_ofBytes _)
  rw [← ofBytes_append, ← henc] at hh'
  have hbytes : (o.writeBuffer (data.take size.toNat)).iBytes = maxMessageSize := hb
  have hlen' := congrArg List.length (henc (data.take size.toNat))
  rw [List.length_append, List.length_take] at hlen'
  obtain ⟨o', ho', hh''⟩ := writePayloads_tail id h size hs k (data.drop size.toNat) _ _
    (by rw [List.length_drop]; omega) hh' (by rw [hbytes, List.length_drop]; omega)
  have hcons : messageChunks (.short id h) (sentHeader fmt data.length type sid ts) none
      size.toNat data =
      ⟨.short id h, sentHeader fmt data.length type sid ts, none, data.take size.toNat⟩ ::
        (pieces size.toNat k (data.drop size.toNat)).map (continuation (.short id h) none) := by
    rw [messageChunks, hk, pieces, if_neg hd]
    rfl
  have hloop : writePayloads id size data.length true data o = .ok o' := by
    rw [hk, writePayloads, if_neg hd, if_neg (by omega)]
    simp only [htake, hdrop]
    exact ho'
  have hall : o'.data = encodeAll (messageChunks (.short id h)
      (sentHeader fmt data.length type sid ts) none size.toNat data) := by
    rw [hcons, OBits.data_of_holds hh'']
    rfl
  rw [← hall]
  simp only [ofBits, Except.mapError, bind, Except.bind, hloop]
  rfl

end Sirannon.RTMPChunkSend
