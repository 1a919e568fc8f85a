import Sirannon.PESPacketizer

/-!
# Headers of PES packets

What `createHeader` writes, read back by `parseHeader`. A time stamp that is
not negative comes back as it is. The topmost bits of a negative one run into
the four bits in front of it, so its packet does not pass the syntax check.
-/

set_option autoImplicit false

namespace Sirannon.PES
open MachineInt Bits BitString Media

/-! ## Time stamps -/

theorem uint64_nonneg {t : ℤ} (h₀ : 0 ≤ t) (h₁ : t < 2^31) :
    ((uint64 t : ℕ) : ℤ) = t ∧ uint64 t < 2^31 := by
  rw [uint64]
  omega

theorem uint64_negative {t : ℤ} (h₀ : -2^31 ≤ t) (h₁ : t < 0) :
    uint64 t/2^30 = 2^34-1 ∨ uint64 t/2^30 = 2^34-2 := by
  rw [uint64]
  omega

theorem shiftField_small {x iShift iRight : ℕ} (hx : x < 2^31) (hs : iShift ≤ 33) :
    shiftField x iShift iRight = x/2^iRight := by
  have hpow : 2^iShift ≤ 2^33 := Nat.pow_le_pow_right (by decide) hs
  have hlt : x*2^iShift < 2^64 := by
    calc x*2^iShift ≤ x*2^33 := Nat.mul_le_mul_left x hpow
      _ < 2^31*2^33 := Nat.mul_lt_mul_of_pos_right hx (by decide)
  rw [shiftField, Nat.shiftLeft_eq, Nat.mod_eq_of_lt hlt, Nat.shiftRight_eq_div_pow,
    Nat.shiftRight_eq_div_pow, Nat.mul_div_cancel _ (Nat.two_pow_pos _)]

/-- The four bits in front of a time stamp. -/
def Tag (iTag : ℕ) : Prop := iTag = 1 ∨ iTag = 2 ∨ iTag = 3

/-- The bits of a time stamp between its markers. -/
def timeBits (iTag x : ℕ) : List Bool :=
  ofNat 4 iTag ++ (ofNat 3 (x/2^30) ++ (ofNat 1 1 ++ (ofNat 15 (x/2^15) ++ (ofNat 1 1 ++
    (ofNat 15 x ++ ofNat 1 1)))))

theorem first_byte {iTag k : ℕ} (htag : Tag iTag) (hk : k < 2) :
    ofNat 8 (k <<< 1 ||| iTag*16+1) = ofNat 4 iTag ++ (ofNat 3 k ++ ofNat 1 1) := by
  rcases htag with rfl | rfl | rfl
  · interval_cases k <;> rfl
  · interval_cases k <;> rfl
  · interval_cases k <;> rfl

theorem marked_byte (x : ℕ) : ofNat 8 (x <<< 1 ||| 0x1) = ofNat 7 x ++ ofNat 1 1 := by
  have hval : x <<< 1 ||| 0x1 = x*2^1+1 := by rw [Nat.shiftLeft_eq, or_eq_add x 1 1 (by decide)]
  rw [hval, show (8 : ℕ) = 7+1 from rfl, ofNat_add]
  congr 1
  · congr 1
    omega
  · apply ofNat_congr
    omega

theorem time_bits {iTag x : ℕ} (htag : Tag iTag) (hx : x < 2^31) :
    fieldBits (timeFields (iTag*16+1) x) = timeBits iTag x := by
  have hhigh : ofNat 15 (x/2^15) = ofNat 8 (x/2^22) ++ ofNat 7 (x/2^15) := by
    rw [show (15 : ℕ) = 8+7 from rfl, ofNat_add]
    congr 2
    omega
  have hlow : ofNat 15 x = ofNat 8 (x/2^7) ++ ofNat 7 x := by
    rw [show (15 : ℕ) = 8+7 from rfl, ofNat_add]
  simp only [timeFields, fieldBits, List.flatMap_cons, List.flatMap_nil, List.append_nil]
  rw [shiftField_small hx (by omega), shiftField_small hx (by omega),
    shiftField_small hx (by omega), shiftField_small hx (by omega),
    shiftField_small hx (by omega), first_byte htag (by omega), marked_byte, marked_byte,
    timeBits, hhigh, hlow, pow_zero, Nat.div_one]
  simp only [List.append_assoc]

/-- A negative time stamp shows up in the four bits in front of it. -/
theorem negative_bits {iTag : ℕ} {t : ℤ} (htag : Tag iTag) (h₀ : -2^31 ≤ t) (h₁ : t < 0) :
    ∃ bs, fieldBits (timeFields (iTag*16+1) (uint64 t)) = ofNat 4 15 ++ bs := by
  have hfirst : shiftField (uint64 t) 0 30 = uint64 t/2^30 := by
    have hlt : uint64 t < 2^64 := by
      rw [uint64]
      omega
    rw [shiftField, Nat.shiftLeft_zero, Nat.mod_eq_of_lt hlt, Nat.shiftRight_zero,
      Nat.shiftRight_eq_div_pow]
  have hbyte : ∃ bs, ofNat 8 ((uint64 t/2^30) <<< 1 ||| iTag*16+1) = ofNat 4 15 ++ bs := by
    rcases uint64_negative h₀ h₁ with h | h
    · rw [h]
      rcases htag with rfl | rfl | rfl
      · exact ⟨_, ofNat_add 4 4 _⟩
      · exact ⟨_, ofNat_add 4 4 _⟩
      · exact ⟨_, ofNat_add 4 4 _⟩
    · rw [h]
      rcases htag with rfl | rfl | rfl
      · exact ⟨_, ofNat_add 4 4 _⟩
      · exact ⟨_, ofNat_add 4 4 _⟩
      · exact ⟨_, ofNat_add 4 4 _⟩
  rcases hbyte with ⟨bs, hbs⟩
  simp only [timeFields, fieldBits, List.flatMap_cons]
  rw [hfirst, hbs, List.append_assoc]
  exact ⟨_, rfl⟩

theorem readTime_some {b : IBits} {p iTag x : ℕ} {bs : List Bool} (htag : Tag iTag)
    (hx : x < 2^31) (h : b.Ahead p (timeBits iTag x ++ bs)) :
    ∃ b', readTime b iTag = some ((x : ℤ), b') ∧ b'.Ahead (p+40) bs := by
  simp only [timeBits, List.append_assoc] at h
  rcases IBits.read_masked h (by omega) with ⟨hfour, h⟩
  rcases IBits.read_masked h (by omega) with ⟨hhigh, h⟩
  rcases IBits.read_masked h (by omega) with ⟨-, h⟩
  rcases IBits.read_masked h (by omega) with ⟨hmiddle, h⟩
  rcases IBits.read_masked h (by omega) with ⟨-, h⟩
  rcases IBits.read_masked h (by omega) with ⟨hlow, h⟩
  rcases IBits.read_masked h (by omega) with ⟨-, h⟩
  have htag' : iTag % 2^4 = iTag := by
    rcases htag with rfl | rfl | rfl <;> rfl
  have hsum : int32 (((x/2^30 % 2^3 : ℕ) : ℤ)*2^30+((x/2^15 % 2^15 : ℕ) : ℤ)*2^15+
      ((x % 2^15 : ℕ) : ℤ)) = x := by
    rw [int32_of_range _ (by omega) (by omega)]
    omega
  rw [readTime]
  simp only [hfour, hhigh, hmiddle, hlow, htag', hsum, ne_eq, not_true_eq_false, if_false]
  exact ⟨_, rfl, h⟩

theorem readTime_none {b : IBits} {p iTag : ℕ} {bs : List Bool} (htag : Tag iTag)
    (h : b.Ahead p (ofNat 4 15 ++ bs)) : readTime b iTag = none := by
  rcases IBits.read_masked h (by omega) with ⟨hfour, -⟩
  have hne : 15 % 2^4 ≠ iTag := by
    rcases htag with rfl | rfl | rfl <;> decide
  rw [readTime]
  simp only [hfour, if_pos hne]

/-! ## Whole headers -/

def headerSize (f : MediaPacket) : ℕ := if both f then 19 else 14

attribute [grind =] headerSize

/-- The value of the length field. -/
def headerLength (bZero : Bool) (f : MediaPacket) (iPES : ℕ) : ℕ :=
  if bZero then 0 else iPES+(headerSize f-6)

/-- The bits after the header's own length. -/
def stampBits (f : MediaPacket) : List Bool :=
  if both f then
    fieldBits (timeFields (3*16+1) (uint64 f.pts)) ++ fieldBits (timeFields (1*16+1) (uint64 f.dts))
  else fieldBits (timeFields (2*16+1) (uint64 f.pts))

def stampFlag (f : MediaPacket) : ℕ := if both f then 3 else 2

attribute [grind =] stampFlag

theorem header_bits (bZero : Bool) (f : MediaPacket) (iPES : ℕ) :
    fieldBits (headerFields bZero f iPES) = ofNat 24 1 ++ (ofNat 8 (GetPesID f.codec) ++
      (ofNat 16 (headerLength bZero f iPES) ++ (ofNat 2 2 ++ (ofNat 6 0 ++
        (ofNat 2 (stampFlag f) ++ (ofNat 6 0 ++
          (ofNat 8 (headerSize f-9) ++ stampBits f))))))) := by
  have hinfo : ofNat 8 0x80 = ofNat 2 2 ++ ofNat 6 0 := by rfl
  have hboth : ofNat 8 0xC0 = ofNat 2 3 ++ ofNat 6 0 := by rfl
  by_cases h : both f
  · simp only [headerFields, headerLength, headerSize, stampFlag, stampBits, h, if_true, fieldBits,
      List.flatMap_append, List.flatMap_cons, List.flatMap_nil, List.append_nil,
      List.append_assoc, hinfo, hboth]
  · simp only [headerFields, headerLength, headerSize, stampFlag, stampBits, h, if_false,
      Bool.false_eq_true, fieldBits, List.flatMap_append, List.flatMap_cons, List.flatMap_nil,
      List.append_nil, List.append_assoc, hinfo]

/-- The data of a PES packet made for the frame `f`, of which it holds `chunk`. -/
structure Piece (bZero : Bool) (f : MediaPacket) (chunk : List UInt8) (q : MediaPacket) :
    Prop where
  type : q.type = f.type
  data : ∃ h, q.bytes = h ++ chunk ∧
    ofBytes h = fieldBits (headerFields bZero f chunk.length) ∧ h.length = headerSize f

theorem createHeader_run (bZero : Bool) (f : MediaPacket) (iPES : ℕ) :
    ∃ h, createHeader bZero f iPES = f.push_front h ∧
      ofBytes h = fieldBits (headerFields bZero f iPES) ∧ h.length = headerSize f := by
  have hsize : ((headerFields bZero f iPES).map Prod.fst).sum = 8*headerSize f := by
    by_cases h : both f
    · simp [headerFields, headerSize, h, timeFields]
    · simp [headerFields, headerSize, h, timeFields]
  have hpos : ∀ w ∈ headerFields bZero f iPES, 0 < w.1 := by
    by_cases h : both f
    · simp [headerFields, h, timeFields]
    · simp [headerFields, h, timeFields]
  rcases OBits.writes_new (headerFields bZero f iPES) hsize
    (show headerSize f ≤ 50 by rw [headerSize]; split_ifs <;> omega) hpos with ⟨o, ho, hbits, hlength⟩
  refine ⟨o.data, ?_, hbits, hlength⟩
  rw [createHeader, ho]
  rfl

section
variable {bZero : Bool} {f q : MediaPacket} {chunk : List UInt8}

/-- The reader up to the time stamps. -/
theorem parseHeader_start (h : Piece bZero f chunk q) :
    ∃ b : IBits, b.Ahead 72 (stampBits f ++ ofBytes chunk) ∧
      parseHeader q =
        if stampFlag f = 0x2 then do
          let iPTS ← readTime b 0x2
          return ⟨headerLength bZero f chunk.length % 2^16, 0x2, headerSize f-9, iPTS.1, iPTS.1⟩
        else do
          let iPTS ← readTime b 0x3
          let iDTS ← readTime iPTS.2 0x1
          return ⟨headerLength bZero f chunk.length % 2^16, 0x3, headerSize f-9, iPTS.1,
            iDTS.1⟩ := by
  rcases h.data with ⟨hd, hbytes, hbits, -⟩
  have hahead := reader_ahead hbytes
  rw [hbits, header_bits] at hahead
  simp only [List.append_assoc] at hahead
  rcases IBits.read_masked hahead (by omega) with ⟨hstart, h₁⟩
  rcases IBits.read_masked h₁ (by omega) with ⟨-, h₂⟩
  rcases IBits.read_masked h₂ (by omega) with ⟨hlength, h₃⟩
  rcases IBits.read_masked h₃ (by omega) with ⟨hfour, h₄⟩
  rcases IBits.read_masked h₄ (by omega) with ⟨-, h₅⟩
  rcases IBits.read_masked h₅ (by omega) with ⟨htime, h₆⟩
  rcases IBits.read_masked h₆ (by omega) with ⟨-, h₇⟩
  rcases IBits.read_masked h₇ (by omega) with ⟨hheader, h₈⟩
  have hsize : (headerSize f-9) % 2^8 = headerSize f-9 := by
    rw [headerSize]
    split_ifs <;> rfl
  refine ⟨_, h₈, ?_⟩
  rw [parseHeader]
  simp only [hstart, hlength, hfour, htime, hheader, hsize]
  by_cases hb : both f
  · simp [stampFlag, hb]
  · simp [stampFlag, hb]

/-- Time stamps that come through. -/
structure Timed (f : MediaPacket) : Prop where
  dts : 0 ≤ f.dts
  pts : 0 ≤ f.pts

/-- Time stamps of 32 bits. -/
structure Stamps (f : MediaPacket) : Prop where
  dts : -2^31 ≤ f.dts ∧ f.dts < 2^31
  pts : -2^31 ≤ f.pts ∧ f.pts < 2^31

theorem parse_timed (h : Piece bZero f chunk q) (ht : Timed f) (hs : Stamps f) :
    parseHeader q = some ⟨headerLength bZero f chunk.length % 2^16, stampFlag f, headerSize f-9,
      f.pts, f.dts⟩ := by
  rcases parseHeader_start h with ⟨b, hahead, hparse⟩
  rcases uint64_nonneg ht.pts hs.pts.2 with ⟨hpts, hpts'⟩
  rcases uint64_nonneg ht.dts hs.dts.2 with ⟨hdts, hdts'⟩
  rw [hparse]
  by_cases hb : both f
  · rw [stampBits, if_pos hb, time_bits (by simp [Tag]) hpts', time_bits (by simp [Tag]) hdts',
      List.append_assoc] at hahead
    rcases readTime_some (by simp [Tag]) hpts' hahead with ⟨b', hread, hahead'⟩
    rcases readTime_some (by simp [Tag]) hdts' hahead' with ⟨b'', hread', -⟩
    simp [stampFlag, hb, hread, hread', hpts, hdts]
  · have heq : f.dts = f.pts := by
      by_contra hne
      exact hb (by simp [both, hne, ht.pts])
    rw [stampBits, if_neg hb, time_bits (by simp [Tag]) hpts'] at hahead
    rcases readTime_some (by simp [Tag]) hpts' hahead with ⟨b', hread, -⟩
    simp [stampFlag, hb, hread, hpts, heq]

theorem parse_untimed (h : Piece bZero f chunk q) (ht : ¬ Timed f) (hs : Stamps f) :
    parseHeader q = none := by
  rcases parseHeader_start h with ⟨b, hahead, hparse⟩
  rw [hparse]
  by_cases hb : both f
  · have hpts : 0 ≤ f.pts := by
      rw [both, decide_eq_true_eq] at hb
      exact hb.2
    have hdts : f.dts < 0 := by
      by_contra hdts
      exact ht ⟨by omega, hpts⟩
    rcases uint64_nonneg hpts hs.pts.2 with ⟨-, hpts'⟩
    rcases negative_bits (show Tag 1 by simp [Tag]) hs.dts.1 hdts with ⟨bs, hbs⟩
    rw [stampBits, if_pos hb, time_bits (by simp [Tag]) hpts', hbs, List.append_assoc,
      List.append_assoc] at hahead
    rcases readTime_some (by simp [Tag]) hpts' hahead with ⟨b', hread, hahead'⟩
    have hnone := readTime_none (show Tag 1 by simp [Tag]) hahead'
    simp [stampFlag, hb, hread, hnone]
  · have hpts : f.pts < 0 := by
      by_contra hpts
      have heq : f.dts = f.pts := by
        by_contra hne
        exact hb (by simp [both, hne]; omega)
      exact ht ⟨by omega, by omega⟩
    rcases negative_bits (show Tag 2 by simp [Tag]) hs.pts.1 hpts with ⟨bs, hbs⟩
    rw [stampBits, if_neg hb, hbs, List.append_assoc] at hahead
    have hnone := readTime_none (show Tag 2 by simp [Tag]) hahead
    simp [stampFlag, hb, hnone]

/-- The first eight bytes of a PES packet. -/
theorem piece_front (h : Piece bZero f chunk q) :
    ∃ tail, q.bytes = [0, 0, 1, UInt8.ofNat (GetPesID f.codec),
      UInt8.ofNat (headerLength bZero f chunk.length/2^8),
      UInt8.ofNat (headerLength bZero f chunk.length), 0x80, UInt8.ofNat (stampFlag f*64)] ++
        tail := by
  rcases h.data with ⟨hd, hbytes, hbits, -⟩
  have hflag : ofNat 2 (stampFlag f) ++ ofNat 6 0 = ofNat 8 (stampFlag f*64) := by
    rw [stampFlag]
    split_ifs <;> rfl
  have hlen : ofNat 16 (headerLength bZero f chunk.length) =
      ofNat 8 (headerLength bZero f chunk.length/2^8) ++
        ofNat 8 (headerLength bZero f chunk.length) := ofNat_add 8 8 _
  have hfront : ofBytes hd = ofBytes [0, 0, 1, UInt8.ofNat (GetPesID f.codec),
      UInt8.ofNat (headerLength bZero f chunk.length/2^8),
      UInt8.ofNat (headerLength bZero f chunk.length), 0x80, UInt8.ofNat (stampFlag f*64)] ++
        (ofNat 8 (headerSize f-9) ++ stampBits f) := by
    have hbyte : ∀ n, ofNat 8 (UInt8.ofNat n).toNat = ofNat 8 n := fun n => by
      rw [UInt8.toNat_ofNat', ofNat_mod]
    rw [hbits, header_bits, hlen]
    simp only [ofBytes_cons, ofBytes_nil, List.append_nil, hbyte, List.append_assoc, ← hflag]
    rfl
  refine ⟨pack (ofNat 8 (headerSize f-9) ++ stampBits f) ++ chunk, ?_⟩
  rw [hbytes, ← pack_ofBytes hd, hfront, pack_append 8 _ _ (by rw [ofBytes_length]; rfl),
    pack_ofBytes, List.append_assoc]

theorem piece_length (h : Piece bZero f chunk q) :
    lengthField q = headerLength bZero f chunk.length % 2^16 := by
  rcases piece_front h with ⟨tail, hfront⟩
  rw [lengthField, dataAt, dataAt, hfront]
  simp only [List.cons_append, List.getD_cons_succ, List.getD_cons_zero, UInt8.toNat_ofNat']
  omega

theorem piece_start (h : Piece bZero f chunk q) : bStart q = true := by
  rcases piece_front h with ⟨tail, hfront⟩
  rw [bStart, dataAt, dataAt, hfront, stampFlag]
  simp only [List.cons_append, List.getD_cons_succ, List.getD_cons_zero]
  split_ifs <;> rfl

theorem piece_size (h : Piece bZero f chunk q) : q.size = headerSize f+chunk.length := by
  rcases h.data with ⟨hd, hbytes, -, hlen⟩
  rw [MediaPacket.size, hbytes, List.length_append, hlen]

end

/-- With the length written, a header gives back its time stamps, and says where the payload is and how
long it is. -/
theorem header_parsed (f : MediaPacket) (pData : List UInt8) (hdts : 0 ≤ f.dts ∧ f.dts < 2^31)
    (hpts : 0 ≤ f.pts ∧ f.pts < 2^31) (hsize : pData.length ≤ 65500) :
    ∃ oHeader, createHeader false f pData.length = f.push_front oHeader ∧
      ∀ q : MediaPacket, q.bytes = oHeader ++ pData → ∃ h, parseHeader q = some h ∧
        h.iPTS = f.pts ∧ h.iDTS = f.dts ∧ (h.iLength : ℤ)-3-h.iHeader = pData.length ∧
        q.bytes.drop (9+h.iHeader) = pData := by
  rcases createHeader_run false f pData.length with ⟨oHeader, hcreate, hbits, hlength⟩
  refine ⟨oHeader, hcreate, ?_⟩
  intro q hq
  -- Nothing in a header depends on the type of the packet.
  have hpiece : Piece false { f with type := q.type } pData q := ⟨rfl, oHeader, hq, hbits, hlength⟩
  have hlow : -2^31 ≤ f.dts ∧ -2^31 ≤ f.pts := by omega
  have hparse := parse_timed hpiece ⟨hdts.1, hpts.1⟩ ⟨⟨hlow.1, hdts.2⟩, ⟨hlow.2, hpts.2⟩⟩
  have hcases : headerSize f = 19 ∨ headerSize f = 14 := by
    rw [headerSize]
    split_ifs
    · exact Or.inl rfl
    · exact Or.inr rfl
  have hfield : headerLength false f pData.length = pData.length+(headerSize f-6) := rfl
  refine ⟨_, hparse, rfl, rfl, ?_, ?_⟩
  · show ((headerLength false f pData.length % 2^16 : ℕ) : ℤ)-3-((headerSize f-9 : ℕ) : ℤ) = _
    rw [hfield]
    omega
  · show q.bytes.drop (9+(headerSize f-9)) = pData
    rw [show 9+(headerSize f-9) = oHeader.length by omega, hq, List.drop_left]

/-- A frame with B pictures in front of it. -/
theorem header_parsed_both :
    ∃ oHeader, createHeader false { MediaPacket.new .media .video 3 with dts := 3600, pts := 10800 } 3 =
        ({ MediaPacket.new .media .video 3 with dts := 3600, pts := 10800 } : MediaPacket).push_front oHeader ∧
      ∀ q : MediaPacket, q.bytes = oHeader ++ [1, 2, 3] → ∃ h, parseHeader q = some h ∧
        h.iPTS = 10800 ∧ h.iDTS = 3600 ∧ (h.iLength : ℤ)-3-h.iHeader = ([1, 2, 3] : List UInt8).length ∧
        q.bytes.drop (9+h.iHeader) = [1, 2, 3] :=
  header_parsed { MediaPacket.new .media .video 3 with dts := 3600, pts := 10800 } [1, 2, 3]
    (by decide) (by decide) (by decide)

end Sirannon.PES
