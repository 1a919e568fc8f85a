import Sirannon.VideoExtraRecord

/-!
# Two ways to build a record

Where the number of parameter sets is filled in, the byte behind it is cleared:
the first byte of the length of the first SPS, and of the first PPS. So the two
records are the same as long as these are zero. What the buffer held before does
not matter, since it was in just these bytes.
-/

set_option autoImplicit false

namespace Sirannon.VideoExtra
open ByteMemory Bits BitString Media MachineInt H264

/-! ## Units in memory -/

/-- A unit without its code. -/
def strip (u : Bytes) : Bytes := u.drop (AnnexB.code u)

def unitType (u : Bytes) : Option ℕ := (strip u).head?.map fun b => b.toNat%2^5

/-- What is left of the buffer is `s`. -/
structure At (m : Memory) (c : Cursor) (s : Bytes) : Prop where
  stored : Stored m c.pBuffer s
  iSize : c.iSize = s.length

variable {m : Memory} {c : Cursor} {s u : Bytes} {us vs : List Bytes} {room : ℕ} {o : OBuffer} {bs : Bytes}

theorem cut_cons (h : AnnexB.Cut s (u::us)) : 0 < AnnexB.code s ∧ u = s.take (AnnexB.unitLength s) ∧
    AnnexB.Cut (s.drop (AnnexB.unitLength s)) us := by
  cases h with
  | cons _ _ hcode hrest => exact ⟨hcode, rfl, hrest⟩

theorem cut_length (h : AnnexB.Cut s (u::us)) : u.length = AnnexB.unitLength s ∧
    AnnexB.unitLength s ≤ s.length ∧ AnnexB.code u = AnnexB.code s ∧ 3 ≤ u.length := by
  obtain ⟨hcode, rfl, -⟩ := cut_cons h
  obtain ⟨hlow, hle, -⟩ := AnnexB.unit_bounds hcode
  rw [List.length_take, Nat.min_eq_left hle]
  exact ⟨rfl, hle, AnnexB.code_unit hcode, hlow⟩

theorem units_count {s : Bytes} (h : AnnexB.Cut s us) : us.length ≤ s.length := by
  induction h with
  | nil => exact le_refl 0
  | cons s us hcode hrest ih =>
    obtain ⟨hlow, hle, -⟩ := AnnexB.unit_bounds hcode
    rw [List.length_drop] at ih
    rw [List.length_cons]
    omega

theorem at_unit (h : At m c s) (hcut : AnnexB.Cut s (u::us)) :
    c.iNAL m = u.length ∧ c.iHeader m = AnnexB.code u ∧
      load m (c.pBuffer+AnnexB.code u) (u.length-AnnexB.code u) = strip u ∧ 0 < c.iSize := by
  obtain ⟨hcode, hu, -⟩ := cut_cons hcut
  obtain ⟨hlen, hle, hsame, hlow⟩ := cut_length hcut
  have hstored : Stored (shift m c.pBuffer) 0 s := stored_shift.2 h.stored
  refine ⟨?_, ?_, ?_, ?_⟩
  · rw [Cursor.iNAL, h.iSize, AnnexB.find_whole hstored hcode, hlen]
  · rw [Cursor.iHeader, AnnexB.code_stored hstored hcode, hsame]
  · have hsplit := h.stored
    rw [← List.take_append_drop (AnnexB.unitLength s) s, ← hu, stored_append] at hsplit
    have hunit := hsplit.1
    rw [← List.take_append_drop (AnnexB.code u) u, stored_append, List.length_take,
      Nat.min_eq_left (AnnexB.code_length u)] at hunit
    have hrest := hunit.2
    rw [Stored, List.length_drop] at hrest
    exact hrest
  · rw [h.iSize]
    omega

theorem at_next (h : At m c s) (hcut : AnnexB.Cut s (u::us)) :
    ∃ s', At m (c.next m) s' ∧ AnnexB.Cut s' us := by
  obtain ⟨hcode, hu, hrest⟩ := cut_cons hcut
  obtain ⟨hlen, hle, -⟩ := cut_length hcut
  obtain ⟨hNAL, -⟩ := at_unit h hcut
  refine ⟨s.drop (AnnexB.unitLength s), ⟨?_, ?_⟩, hrest⟩
  · have hsplit := h.stored
    rw [← List.take_append_drop (AnnexB.unitLength s) s, ← hu, stored_append] at hsplit
    rw [Cursor.next, hNAL]
    exact hsplit.2
  · rw [Cursor.next, hNAL, List.length_drop, h.iSize, hlen]

theorem at_type {t : ℕ} (h : At m c s) (hcut : AnnexB.Cut s (u::us)) (ht : unitType u = some t) :
    c.type m = t := by
  obtain ⟨-, hHeader, hload, -⟩ := at_unit h hcut
  obtain ⟨b, hb, rfl⟩ := Option.map_eq_some_iff.1 ht
  obtain ⟨rest, hstrip⟩ := List.head?_eq_some_iff.1 hb
  have hlen : 0 < u.length-AnnexB.code u := by
    have hl := congrArg List.length hstrip
    rw [strip, List.length_drop, List.length_cons] at hl
    omega
  obtain ⟨n, hn⟩ := Nat.exists_eq_succ_of_ne_zero (Nat.pos_iff_ne_zero.1 hlen)
  rw [hn, load, hstrip] at hload
  have hbyte := (List.cons.inj hload).1
  rw [Cursor.type, H264_NAL_type]
  rw [Cursor.iHeader] at hHeader
  rw [hHeader, shift, hbyte]

/-! ## The loops -/

theorem writeUnit_run (h : At m c s) (hcut : AnnexB.Cut s (u::us)) (hroom : o.iBytes = room)
    (hdata : o.data o.v = bs) (hbuff : o.iBuff = 8) (hfit : bs.length+((strip u).length+2) ≤ room) :
    ∃ o', writeUnit m c o = .ok o' ∧ Fresh room o'
      (bs ++ (o.v0 o.v ||| UInt8.ofNat ((strip u).length/2^8))::UInt8.ofNat (strip u).length::strip u) := by
  obtain ⟨hNAL, hHeader, hload, -⟩ := at_unit h hcut
  have hcode := AnnexB.code_length u
  have hsize : uint32 ((u.length : ℤ)-AnnexB.code u) = (strip u).length%2^32 := by
    rw [strip, List.length_drop, uint32]
    omega
  have hlength := write_sixteen_fits hroom hdata hbuff ((strip u).length%2^32)
  rw [Fits, if_pos (by omega)] at hlength
  obtain ⟨o₁, ho₁, h₁⟩ := hlength
  have hhigh : UInt8.ofNat ((strip u).length%2^32/2^8) = UInt8.ofNat ((strip u).length/2^8) := by
    apply UInt8.toNat_inj.1
    rw [UInt8.toNat_ofNat', UInt8.toNat_ofNat']
    omega
  have hlow : UInt8.ofNat ((strip u).length%2^32) = UInt8.ofNat (strip u).length := by
    apply UInt8.toNat_inj.1
    rw [UInt8.toNat_ofNat', UInt8.toNat_ofNat']
    omega
  have hbuffer := write_buffer_fits h₁ (strip u)
  rw [Fits, if_pos (by
    rw [List.length_append, List.length_cons, List.length_cons, List.length_nil]
    omega)] at hbuffer
  obtain ⟨o₂, ho₂, h₂⟩ := hbuffer
  refine ⟨o₂, ?_, ?_⟩
  · rw [writeUnit, hNAL, hHeader, hsize, ho₁, hload]
    show (if u.length < AnnexB.code u then _ else o₁.write_buffer (strip u)) = _
    rw [if_neg (by omega), ho₂]
  · rw [hhigh, hlow, List.append_assoc] at h₂
    exact h₂

/-- The loop is over where the units of its kind end. -/
def Stops (bUnit : ℕ → Bool) : List Bytes → Prop
  | [] => True
  | u::_ => ∃ t, unitType u = some t ∧ bUnit t = false

theorem writeUnits_run {bUnit : ℕ → Bool} (fuel n : ℕ) (h : At m c s) (hcut : AnnexB.Cut s (us ++ vs))
    (hall : ∀ u ∈ us, ∃ t, unitType u = some t ∧ bUnit t = true) (hstop : Stops bUnit vs)
    (ho : Fresh room o bs) (hfit : bs.length+entriesSize (us.map strip) ≤ room) (hfuel : us.length < fuel) :
    ∃ c' s' o', writeUnits m bUnit fuel n c o = pure (n+us.length, c', o') ∧ At m c' s' ∧
      AnnexB.Cut s' vs ∧ Fresh room o' (bs ++ (us.map strip).flatMap entry) := by
  induction us generalizing fuel n c s o bs with
  | nil =>
    obtain ⟨fuel, rfl⟩ := Nat.exists_eq_add_of_lt hfuel
    refine ⟨c, s, o, ?_, h, hcut, ?_⟩
    · rw [writeUnits, if_neg]
      · rfl
      · rintro ⟨hsize, hunit⟩
        cases vs with
        | nil =>
          cases hcut
          rw [h.iSize] at hsize
          exact absurd hsize (lt_irrefl 0)
        | cons v vs =>
          obtain ⟨t, ht, hno⟩ := hstop
          rw [at_type h hcut ht, hno] at hunit
          cases hunit
    · rw [List.map_nil, List.flatMap_nil, List.append_nil]
      exact ho
  | cons u us ih =>
    obtain ⟨fuel, rfl⟩ := Nat.exists_eq_add_of_lt hfuel
    rw [List.map_cons, entriesSize_cons] at hfit
    obtain ⟨t, ht, hyes⟩ := hall u List.mem_cons_self
    obtain ⟨-, -, -, hpos⟩ := at_unit h hcut
    obtain ⟨s₁, h₁, hcut₁⟩ := at_next h hcut
    obtain ⟨o₁, ho₁, hfresh₁⟩ := writeUnit_run h hcut ho.bytes ho.data ho.buff (by omega)
    have hzero : o.v0 o.v = 0 := by
      apply ho.next
      rw [data_v ho.data]
      omega
    rw [hzero, UInt8.zero_or] at hfresh₁
    have hlen : (bs ++ entry (strip u)).length = bs.length+((strip u).length+2) := by
      rw [List.length_append, entry_length]
    obtain ⟨c', s', o', hrun, hat, hrest, hfresh⟩ := ih (us.length+1+fuel) (n+1) h₁ hcut₁
      (fun w hw => hall w (List.mem_cons_of_mem u hw)) hfresh₁ (by
        rw [← entry, hlen]
        omega) (by omega)
    refine ⟨c', s', o', ?_, hat, hrest, ?_⟩
    · rw [List.length_cons, writeUnits, if_pos ⟨hpos, by rw [at_type h hcut ht]; exact hyes⟩, ho₁]
      show writeUnits m bUnit (us.length+1+fuel) (n+1) (c.next m) o₁ = _
      rw [hrun, Nat.add_right_comm, Nat.add_assoc]
    · rw [List.map_cons, List.flatMap_cons, ← List.append_assoc]
      exact hfresh

/-- Behind a position that was sought, the first byte of the first length is any. -/
theorem writeUnits_sought (bUnit : ℕ → Bool) (fuel n : ℕ) (h : At m c s)
    (hcut : AnnexB.Cut s (u::us ++ vs)) (hall : ∀ w ∈ u::us, ∃ t, unitType w = some t ∧ bUnit t = true)
    (hstop : Stops bUnit vs) (hroom : o.iBytes = room) (hdata : o.data o.v = bs) (hbuff : o.iBuff = 8)
    (hfit : bs.length+entriesSize ((u::us).map strip) ≤ room) (hfuel : us.length+1 < fuel) :
    ∃ c' s' o' x, writeUnits m bUnit fuel n c o = pure (n+(us.length+1), c', o') ∧ At m c' s' ∧
      AnnexB.Cut s' vs ∧ Fresh room o'
        (bs ++ (x::UInt8.ofNat (strip u).length::strip u) ++ (us.map strip).flatMap entry) := by
  obtain ⟨fuel, rfl⟩ := Nat.exists_eq_add_of_lt hfuel
  rw [List.map_cons, entriesSize_cons] at hfit
  obtain ⟨t, ht, hyes⟩ := hall u List.mem_cons_self
  obtain ⟨-, -, -, hpos⟩ := at_unit h hcut
  obtain ⟨s₁, h₁, hcut₁⟩ := at_next h hcut
  obtain ⟨o₁, ho₁, hfresh₁⟩ := writeUnit_run h hcut hroom hdata hbuff (by omega)
  obtain ⟨c', s', o', hrun, hat, hrest, hfresh⟩ := writeUnits_run (us.length+1+fuel) (n+1) h₁ hcut₁
    (fun w hw => hall w (List.mem_cons_of_mem u hw)) hstop hfresh₁ (by
      rw [List.length_append, List.length_cons, List.length_cons]
      omega) (by omega)
  refine ⟨c', s', o', _, ?_, hat, hrest, hfresh⟩
  rw [writeUnits, if_pos ⟨hpos, by rw [at_type h hcut ht]; exact hyes⟩, ho₁]
  show writeUnits m bUnit (us.length+1+fuel) (n+1) (c.next m) o₁ = _
  rw [hrun, show n+1+us.length = n+(us.length+1) by omega]

/-! ## The numbers -/

/-- A byte is filled in where there was none, and the one behind it is cleared. -/
theorem fill_byte {n : ℕ} {xs ys : Bytes} {a : UInt8} (iVal : ℕ) (hdata : o.data n = xs ++ 0::a::ys)
    (hn : n ≤ o.iBytes) : ∃ o', (o.seekSet xs.length).write 8 iVal = .ok o' ∧
      o'.data n = xs ++ UInt8.ofNat iVal::0::ys ∧ o'.iBytes = o.iBytes := by
  have hlen : n = xs.length+(2+ys.length) := by
    have h := congrArg List.length hdata
    rw [OBuffer.data, load_length, List.length_append, List.length_cons, List.length_cons] at h
    omega
  have hsplit := hdata
  rw [OBuffer.data, hlen, load_add, load_add] at hsplit
  obtain ⟨hxs, hrest⟩ := List.append_inj hsplit (load_length _ _ _)
  have hzero : o.v0 xs.length = 0 := by
    rw [Nat.zero_add] at hrest
    exact (List.cons.inj hrest).1
  have hys : load o.v0 (xs.length+2) ys.length = ys := by
    rw [Nat.zero_add] at hrest
    exact (List.cons.inj (List.cons.inj hrest).2).2
  have hwrite := write_eight (o := o.seekSet xs.length) rfl iVal
  rw [if_neg (by
    show ¬ o.iBytes ≤ xs.length
    omega)] at hwrite
  have hput : (o.seekSet xs.length).v0 (o.seekSet xs.length).v = 0 := hzero
  rw [hput, UInt8.zero_or] at hwrite
  have hmem : ((o.seekSet xs.length).put (UInt8.ofNat iVal)).v0 =
      store o.v0 xs.length [UInt8.ofNat iVal, 0] := by
    rw [OBuffer.put, OBuffer.cleared, if_pos (by
      show xs.length+1 < o.iBytes
      omega)]
    exact (store_append o.v0 xs.length [UInt8.ofNat iVal] [0]).symm
  refine ⟨_, hwrite, ?_, put_iBytes _ _⟩
  have hstored := load_store o.v0 xs.length [UInt8.ofNat iVal, 0]
  have habove := load_store_above o.v0 xs.length ys.length (xs.length+2) [UInt8.ofNat iVal, 0] (le_refl _)
  have hbelow := load_store_below o.v0 xs.length xs.length 0 [UInt8.ofNat iVal, 0] (by omega)
  rw [show [UInt8.ofNat iVal, (0 : UInt8)].length = 2 from rfl] at hstored
  rw [OBuffer.data, hmem, hlen, load_add, load_add, hbelow, hxs, Nat.zero_add, hstored, habove, hys]
  rfl

theorem byte_count (x n : ℕ) : UInt8.ofNat (x ||| n%2^8) = UInt8.ofNat (x ||| n) := by
  apply UInt8.toNat_inj.1
  rw [UInt8.toNat_ofNat', UInt8.toNat_ofNat', Nat.or_mod_two_pow, Nat.or_mod_two_pow, Nat.mod_mod]

/-- The entry of a parameter set whose length has lost its first byte. -/
def lostEntry (u : Bytes) : Bytes := 0::UInt8.ofNat u.length::u

/-- The record that is built from the start of a stream. -/
def built (pProfile : Bytes) (sps : Bytes) (spss : List Bytes) (pps : Bytes) (ppss : List Bytes) : Bytes :=
  opening pProfile ++ [UInt8.ofNat (0xE0 ||| (spss.length+1))] ++ (lostEntry sps ++ spss.flatMap entry) ++
    [UInt8.ofNat (ppss.length+1)] ++ (lostEntry pps ++ ppss.flatMap entry)

theorem fillIn_run {n i k : ℕ} {p sps pps E F : Bytes} {x y : UInt8} (hroom : o.iBytes = room)
    (hdata : o.data n = opening p ++ [0] ++ (x::UInt8.ofNat sps.length::sps) ++ E ++ [0] ++
      (y::UInt8.ofNat pps.length::pps) ++ F) (hn : n ≤ room)
    (hi : i = (opening p).length)
    (hk : k = (opening p ++ [0] ++ (x::UInt8.ofNat sps.length::sps) ++ E).length) (iSPS iPPS : ℕ) :
    ∃ o', fillIn i k iSPS iPPS o = .ok o' ∧ o'.data n = opening p ++ [UInt8.ofNat (0xE0 ||| iSPS)] ++
      (lostEntry sps ++ E) ++ [UInt8.ofNat iPPS] ++ (lostEntry pps ++ F) := by
  have hone : o.data n = opening p ++ 0::x::(UInt8.ofNat sps.length::sps ++ E ++ [0] ++
      (y::UInt8.ofNat pps.length::pps) ++ F) := by
    rw [hdata]
    simp
  obtain ⟨o₁, ho₁, hdata₁, hbytes₁⟩ := fill_byte (0xE0 ||| iSPS%2^8) hone (by omega)
  have htwo : o₁.data n = (opening p ++ [UInt8.ofNat (0xE0 ||| iSPS)] ++ lostEntry sps ++ E) ++
      0::y::(UInt8.ofNat pps.length::pps ++ F) := by
    rw [hdata₁, byte_count, lostEntry]
    simp
  obtain ⟨o₂, ho₂, hdata₂, -⟩ := fill_byte (0x00 ||| iPPS%2^8) htwo (by omega)
  refine ⟨o₂, ?_, ?_⟩
  · have hlen : (opening p ++ [UInt8.ofNat (0xE0 ||| iSPS)] ++ lostEntry sps ++ E).length = k := by
      rw [hk, lostEntry]
      simp
    rw [hlen] at ho₂
    rw [fillIn, hi, ho₁]
    exact ho₂
  · rw [hdata₂, byte_count, Nat.zero_or, lostEntry, lostEntry]
    simp

/-! ## The whole record -/

/-- A byte that is skipped holds what was cleared in it. -/
theorem skipped (h : Fresh room o bs) (hnext : bs.length < room) :
    (o.seekCur 1).iBytes = room ∧ (o.seekCur 1).data (o.seekCur 1).v = bs ++ [0] ∧
      (o.seekCur 1).iBuff = 8 := by
  have hv := data_v h.data
  refine ⟨h.bytes, ?_, rfl⟩
  show load o.v0 0 (o.v+1) = bs ++ [0]
  have hdata := h.data
  rw [OBuffer.data] at hdata
  rw [load_add, hdata, Nat.zero_add, load, load, h.next (by omega)]

theorem noPPS_stops {pps : Bytes} {ppss : List Bytes} (hpps : unitType pps = some NAL_UNIT_TYPE_PPS) :
    Stops noPPS (pps::ppss) :=
  ⟨_, hpps, rfl⟩

theorem built_run {sps pps : Bytes} {spss ppss : List Bytes} (hm : Stored m 0 s)
    (hcut : AnnexB.Cut s (sps::spss ++ pps::ppss))
    (hsps : ∀ u ∈ sps::spss, unitType u = some NAL_UNIT_TYPE_SPS)
    (hpps : ∀ u ∈ pps::ppss, unitType u = some NAL_UNIT_TYPE_PPS)
    (hfit : recordSize ((sps::spss).map strip) ((pps::ppss).map strip) ≤ o.iBytes) :
    ∃ o', buildVideoExtraData m s.length (s.length+1) o =
      pure (built (profile m) (strip sps) (spss.map strip) (strip pps) (ppss.map strip), o') := by
  have hat : At m ⟨0, s.length⟩ s := ⟨hm, rfl⟩
  have hunits : spss.length+1+(ppss.length+1) ≤ s.length := by
    have hcount := units_count hcut
    rw [List.length_append, List.length_cons, List.length_cons] at hcount
    exact hcount
  have hfirst : (⟨0, s.length⟩ : Cursor).type m = NAL_UNIT_TYPE_SPS :=
    at_type hat hcut (hsps sps List.mem_cons_self)
  rw [recordSize] at hfit
  have hheader := writeHeader_fits (o := o) rfl m
  rw [Fits, if_pos (by omega)] at hheader
  obtain ⟨o₁, ho₁, h₁⟩ := hheader
  have hopen := opening_length m
  obtain ⟨hroom₁, hdata₁, hbuff₁⟩ := skipped h₁ (by omega)
  have hlen₁ : (opening (profile m) ++ [(0 : UInt8)]).length = 6 := by
    rw [List.length_append, hopen]
    rfl
  obtain ⟨c₂, s₂, o₂, x, hrun₂, hat₂, hcut₂, h₂⟩ := writeUnits_sought noPPS (s.length+1) 0 hat hcut
    (fun u hu => ⟨_, hsps u hu, rfl⟩) (noPPS_stops (hpps pps List.mem_cons_self)) hroom₁ hdata₁ hbuff₁
    (by omega) (by omega)
  have hlen₂ : (opening (profile m) ++ [0] ++ (x::UInt8.ofNat (strip sps).length::strip sps) ++
      (spss.map strip).flatMap entry).length = 6+entriesSize ((sps::spss).map strip) := by
    rw [List.map_cons, entriesSize_cons, List.length_append, List.length_append, hlen₁, entries_length,
      List.length_cons, List.length_cons]
    omega
  obtain ⟨hroom₃, hdata₃, hbuff₃⟩ := skipped h₂ (by omega)
  rw [← List.append_nil (pps::ppss)] at hcut₂
  obtain ⟨c₄, s₄, o₄, y, hrun₄, hat₄, hcut₄, h₄⟩ := writeUnits_sought isPPS (s.length+1) 0 hat₂ hcut₂
    (fun u hu => ⟨_, hpps u hu, rfl⟩) trivial hroom₃ hdata₃ hbuff₃
    (by
      rw [List.length_append, hlen₂, List.length_singleton]
      omega) (by omega)
  have hv₄ := data_v h₄.data
  have hfour := h₄.data
  rw [hv₄] at hfour
  obtain ⟨o₅, ho₅, hdata₅⟩ := fillIn_run h₄.bytes hfour (by
    rw [List.length_append, List.length_append, List.length_append, hlen₂, entries_length]
    simp only [List.map_cons, entriesSize_cons] at hfit
    simp only [List.map_cons, entriesSize_cons, List.length_cons, List.length_nil]
    show _ ≤ o.iBytes
    omega) rfl rfl (0+(spss.length+1)) (0+(ppss.length+1))
  refine ⟨o₅, ?_⟩
  have hfind : findSPS m (s.length+1) ⟨0, s.length⟩ = pure ⟨0, s.length⟩ := by
    rw [findSPS, if_neg (by rw [hfirst]; decide)]
  have hshift : shift m 0 = m := by
    funext i
    rw [shift, Nat.zero_add]
  rw [buildVideoExtraData, hfind, pure_bind, hshift]
  show (ofExcept (writeHeader (profile m) o) >>= fun oVideoExtra => _) = _
  rw [ho₁]
  show (writeUnits m noPPS (s.length+1) 0 ⟨0, s.length⟩ (o₁.seekCur 1) >>= fun r => _) = _
  rw [hrun₂, pure_bind]
  show (writeUnits m isPPS (s.length+1) 0 c₂ (o₂.seekCur 1) >>= fun r => _) = _
  rw [hrun₄, pure_bind]
  show (ofExcept (fillIn o₁.size o₂.size (0+(spss.length+1)) (0+(ppss.length+1)) o₄) >>= fun oVideoExtra => _) = _
  rw [fresh_size h₁, fresh_size h₂, ho₅]
  show (pure (o₅.data o₄.size, o₅) : Looped (Bytes × OBuffer)) = _
  rw [fresh_size h₄, hdata₅, built, Nat.zero_add, Nat.zero_add, List.length_map, List.length_map]

/-- The first bytes of the lengths are clear by themselves. -/
def Clear (u : Bytes) : Prop := u.length/2^8%2^8 = 0

theorem high_byte {u : Bytes} : (UInt8.ofNat (u.length/2^8) = 0) ↔ Clear u := by
  rw [← UInt8.toNat_inj, UInt8.toNat_ofNat']
  rfl

theorem lost_entry {u : Bytes} : lostEntry u = entry u ↔ Clear u := by
  rw [lostEntry, entry, List.cons.injEq, ← high_byte]
  constructor
  · rintro ⟨h, -⟩
    exact h.symm
  · intro h
    exact ⟨h.symm, rfl⟩

theorem lostEntry_length (u : Bytes) : (lostEntry u).length = (entry u).length := rfl

/-- Byte by byte the two records are the same in all other places. -/
theorem built_eq {p q : Bytes} (sps pps : Bytes) (spss ppss : List Bytes) (hp : p.length = q.length) :
    built p sps spss pps ppss = record q (sps::spss) (pps::ppss) ↔ p = q ∧ Clear sps ∧ Clear pps := by
  rw [built, record, List.flatMap_cons, List.flatMap_cons, List.length_cons, List.length_cons, opening,
    opening, ← lost_entry, ← lost_entry]
  constructor
  · intro h
    obtain ⟨h, hppss⟩ := List.append_inj h (by
      simp only [List.length_append, List.length_cons, List.length_nil, lostEntry_length, hp])
    obtain ⟨h, -⟩ := List.append_inj' h rfl
    obtain ⟨h, hspss⟩ := List.append_inj h (by
      simp only [List.length_append, List.length_cons, List.length_nil, hp])
    obtain ⟨h, -⟩ := List.append_inj' h rfl
    obtain ⟨h, -⟩ := List.append_inj' h rfl
    exact ⟨(List.cons.inj h).2, List.append_cancel_right hspss, List.append_cancel_right hppss⟩
  · rintro ⟨rfl, hsps, hpps⟩
    rw [hsps, hpps]

/-- Behind its header, a unit shows the profile. -/
theorem profile_unit {c u : Bytes} (hm : Stored m 0 (c ++ u)) (hc : c = [] ∨ c = [0, 0, 1] ∨ c = [0, 0, 0, 1])
    {b : UInt8} {rest : Bytes} (hu : u = b::rest) (hb : b.toNat%2^5 = NAL_UNIT_TYPE_SPS) (hlen : 4 ≤ u.length) :
    profile m = rest.take 3 := by
  have hstart := start_code hm hc ⟨b, rest, hu, by
    rintro rfl
    exact absurd hb (by decide)⟩
  have hunit := (stored_append.1 hm).2
  rw [Nat.zero_add, hu, stored_cons] at hunit
  have hheader : H264_header_size m = c.length+1 := by
    rw [H264_header_size, hstart, hunit.1, if_neg (by rw [hb]; decide)]
  have hrest := hunit.2
  rw [hu, List.length_cons] at hlen
  rw [← List.take_append_drop 3 rest, stored_append] at hrest
  have hload := hrest.1
  rw [Stored, List.length_take, Nat.min_eq_left (by omega)] at hload
  rw [profile, hheader]
  exact hload

/-- A first SPS of four bytes shows its profile whatever stands behind it. -/
theorem profile_same (behind : Memory) {pSPS : MediaPacket} {sps : Bytes} {us : List Bytes} (hm : Stored m 0 s)
    (hcut : AnnexB.Cut s (sps::us)) (hsps : unitType sps = some NAL_UNIT_TYPE_SPS)
    (hp : Parameter pSPS (strip sps)) (hlen : 4 ≤ (strip sps).length) :
    profile m = profile (pData behind pSPS) := by
  obtain ⟨hcode, hu, -⟩ := cut_cons hcut
  obtain ⟨b, hb, htype⟩ := Option.map_eq_some_iff.1 hsps
  obtain ⟨rest, hstrip⟩ := List.head?_eq_some_iff.1 hb
  obtain ⟨c, hbytes, hc⟩ := hp.bytes
  have hpacket : Stored (pData behind pSPS) 0 (c ++ strip sps) := by
    rw [← hbytes]
    exact stored_store behind 0 pSPS.bytes
  have hstored : Stored m 0 (sps.take (AnnexB.code sps) ++ strip sps) := by
    rw [← List.take_append_drop (AnnexB.unitLength s) s, ← hu, stored_append] at hm
    rw [strip, List.take_append_drop]
    exact hm.1
  have hstart : sps.take (AnnexB.code sps) = [] ∨ sps.take (AnnexB.code sps) = [0, 0, 1] ∨
      sps.take (AnnexB.code sps) = [0, 0, 0, 1] := by
    rcases AnnexB.code_cases sps with h | ⟨h, t, ht⟩ | ⟨h, t, ht⟩
    · rw [h]
      exact Or.inl (List.take_zero)
    · rw [h, ht]
      exact Or.inr (Or.inl rfl)
    · rw [h, ht]
      exact Or.inr (Or.inr rfl)
  rw [profile_unit hstored hstart hstrip htype hlen, profile_unit hpacket hc hstrip htype hlen]

/-- One SPS, `more` bytes longer than four, and one PPS. -/
def sStream (more : ℕ) : Bytes :=
  [0, 0, 0, 1, 0x67, 0x42, 0xC0, 0x1E] ++ List.replicate more 0xFF ++ [0, 0, 0, 1, 0x68, 0xCE]

/-- The same parameter sets, put aside. -/
def putAside (more : ℕ) : MP4MediaConverter where
  vSPS := [{ MediaPacket.new .media .video 8 with
    bytes := [0, 0, 0, 1, 0x67, 0x42, 0xC0, 0x1E] ++ List.replicate more 0xFF }]
  vPPS := [{ MediaPacket.new .media .video 6 with bytes := [0, 0, 0, 1, 0x68, 0xCE] }]
  oVideoExtra := OBuffer.new 64000

end Sirannon.VideoExtra
