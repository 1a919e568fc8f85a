import Sirannon.TSPassRules

/-!
# The shape of transport packets

A header makes room for a body of the size that it was given. For the PMT that
size is counted once, when the reference stream is looked for, and it counts ten
bytes for the description of a Windows Media stream, of which sixteen are
written.
-/

set_option autoImplicit false

namespace Sirannon.TSMultiplexing
open Bits BitString Media MachineInt Multiplexing

/-! ## Whole bytes in a writer -/

def Whole (o : OBits) (n : ℕ) : Prop := ∃ bs, o.Holds bs ∧ bs.length = 8*n

variable {o o' : OBits} {n m : ℕ}

theorem whole_new : Whole (OBits.new 188) 0 := ⟨[], OBits.holds_new 188, rfl⟩

theorem whole_parts (h : Whole o n) : o.iBuff = 8 ∧ o.cur = 0 ∧ o.done.length = n := by
  obtain ⟨bs, ⟨part, hpos, hlen, hcur, rfl⟩, hbs⟩ := h
  rw [List.length_append, ofBytes_length] at hbs
  have hpart : part = [] := List.length_eq_zero_iff.1 (by omega)
  subst hpart
  refine ⟨by simpa using hlen, ?_, by simpa using hbs⟩
  apply UInt8.toNat_inj.1
  rw [hcur]
  simp [value]

theorem whole_of_parts (h₁ : o.iBuff = 8) (h₂ : o.cur = 0) (h₃ : o.done.length = n) : Whole o n := by
  refine ⟨ofBytes o.done, ⟨[], by omega, by simp [h₁], ?_, by simp⟩, ?_⟩
  · rw [h₂]
    simp [value]
  · rw [ofBytes_length, h₃]

theorem whole_data (h : Whole o n) : o.data.length = n := by
  obtain ⟨hbuff, -, hdone⟩ := whole_parts h
  rw [OBits.data, if_pos hbuff, hdone]

theorem whole_writes {fields : List (ℕ × ℕ)} (h : Whole o n) (hpos : ∀ f ∈ fields, 0 < f.1)
    (hsum : (fields.map Prod.fst).sum = 8*m) (hrun : o.writes fields = .ok o') : Whole o' (n+m) := by
  obtain ⟨bs, hholds, hlen⟩ := h
  obtain ⟨hall, -⟩ := OBits.writes_appends fields o bs hholds hpos
  refine ⟨_, (hall o' hrun).1, ?_⟩
  rw [List.length_append, fieldBits_length, hsum, hlen]
  ring

theorem whole_write {iBits iVal : ℕ} (h : Whole o n) (hpos : 0 < iBits) (hbits : iBits = 8*m)
    (hrun : o.write iBits iVal = .ok o') : Whole o' (n+m) := by
  obtain ⟨bs, hholds, hlen⟩ := h
  obtain ⟨hall, -⟩ := OBits.write_appends iBits iVal o bs hholds hpos
  refine ⟨_, (hall o' hrun).1, ?_⟩
  rw [List.length_append, ofNat_length, hlen, hbits]
  ring

theorem whole_buffer (h : Whole o n) (bs : List UInt8) : Whole (o.writeBuffer bs) (n+bs.length) := by
  obtain ⟨hbuff, -, hdone⟩ := whole_parts h
  refine whole_of_parts hbuff rfl ?_
  show (o.done ++ bs).length = n+bs.length
  rw [List.length_append, hdone]

theorem whole_sized (h : Whole o n) : Whole (sized o) n := by
  obtain ⟨hbuff, hcur, hdone⟩ := whole_parts h
  refine whole_of_parts hbuff hcur ?_
  show (o.done.set 3 _).length = n
  rw [List.length_set, hdone]

theorem whole_close (h : Whole o n) (hrun : closeSection o = .ok o') : Whole o' (n+4) :=
  whole_write (whole_sized h) (by omega) (by omega) hrun

/-! ## The length of tables -/

theorem pushPAT_length {SI : SITable} {bs : List UInt8} (h : pushPAT SI = .ok bs) : bs.length = 17 := by
  rw [pushPAT] at h
  obtain ⟨o₁, hfields, h⟩ := bind_ok.1 h
  obtain ⟨o₂, hcrc, h⟩ := bind_ok.1 h
  cases h
  have h₁ : Whole o₁ (0+13) := whole_writes whole_new (by simp [patFields]) rfl hfields
  exact whole_data (whole_write (m := 4) h₁ (by omega) (by omega) hcrc)

theorem pushSDT_length {SI : SITable} {bs : List UInt8} (h : pushSDT SI = .ok bs) : bs.length = 43 := by
  rw [pushSDT] at h
  obtain ⟨o₁, hfields, h⟩ := bind_ok.1 h
  obtain ⟨o₂, hservice, h⟩ := bind_ok.1 h
  obtain ⟨o₃, hclose, h⟩ := bind_ok.1 h
  cases h
  have h₁ : Whole o₁ (0+21) := whole_writes whole_new (by simp [sdtFields]) rfl hfields
  have h₂ := whole_write (m := 1) (whole_buffer h₁ sProvider) (by omega) (by omega) hservice
  exact whole_data (whole_close (whole_buffer h₂ sService) hclose)

/-- The bytes of an entry of the PMT. -/
def entrySize (codec : CodecType) : ℕ := if wmv codec then 21 else 5

theorem fourCC_length (codec : CodecType) : (fourCC codec).length = 4 := by
  unfold fourCC
  split
  · rfl
  · rfl
  · rfl
  · rfl

theorem infoFields_size {desc : Option MediaDescriptor} {codec : CodecType} {fields : List (ℕ × ℕ)}
    (h : infoFields desc codec = .ok fields) :
    (∀ f ∈ fields, 0 < f.1) ∧ (fields.map Prod.fst).sum+32 = 8*entrySize codec := by
  rw [infoFields] at h
  rw [entrySize]
  by_cases hwmv : wmv codec = true
  · rw [if_pos hwmv] at h ⊢
    cases hdesc : desc.filter fun d => 0 < d.width ∧ 0 < d.height with
    | none =>
      rw [hdesc] at h
      cases h
    | some d =>
      rw [hdesc] at h
      cases h
      obtain ⟨a, b, c, e, hfour⟩ : ∃ a b c e, fourCC codec = [a, b, c, e] := by
        have hlen := fourCC_length codec
        match hcc : fourCC codec, hlen with
        | [a, b, c, e], _ => exact ⟨a, b, c, e, rfl⟩
      rw [wmvFields, hfour]
      constructor
      · simp
      · rfl
  · rw [if_neg hwmv] at h ⊢
    cases h
    constructor
    · simp
    · rfl

/-- The fields of an entry. -/
theorem entry_size {desc : Option MediaDescriptor} {pMux : Muxx} {fields : List (ℕ × ℕ)}
    (h : entryFields desc pMux = .ok fields) : ∃ pPckt, pMux.vQueue.head? = some pPckt ∧
      (fields.map Prod.fst).sum = 8*entrySize pPckt.codec ∧ ∀ f ∈ fields, 0 < f.1 := by
  rw [entryFields] at h
  cases hqueue : pMux.vQueue with
  | nil =>
    rw [hqueue] at h
    cases h
  | cons pPckt rest =>
    rw [hqueue] at h
    dsimp only at h
    by_cases hid : GetPmtID pPckt.codec = 0
    · rw [if_pos hid] at h
      cases h
    · rw [if_neg hid] at h
      obtain ⟨info, hinfo, h⟩ := bind_ok.1 h
      cases h
      obtain ⟨hpos, hsum⟩ := infoFields_size hinfo
      refine ⟨pPckt, rfl, ?_, ?_⟩
      · rw [List.map_append, List.sum_append, ← hsum]
        simp
        omega
      · rw [List.forall_mem_append]
        exact ⟨by simp, hpos⟩

theorem entry_writes {desc : Option MediaDescriptor} {pMux : Muxx} {fields : List (ℕ × ℕ)}
    (h : entryFields desc pMux = .ok fields) (hw : Whole o n) (hrun : o.writes fields = .ok o') :
    ∃ pPckt, pMux.vQueue.head? = some pPckt ∧ Whole o' (n+entrySize pPckt.codec) := by
  obtain ⟨pPckt, hfront, hsum, hpos⟩ := entry_size h
  exact ⟨pPckt, hfront, whole_writes hw hpos hsum hrun⟩

def fronts (es : List (ℤ × Muxx)) : List CodecType :=
  es.filterMap fun e => e.2.vQueue.head?.map fun pPckt => pPckt.codec

theorem entries_length {desc : Option MediaDescriptor} {es : List (ℤ × Muxx)} (hw : Whole o n)
    (h : pmtEntries desc es o = .ok o') : Whole o' (n+((fronts es).map entrySize).sum) := by
  induction es generalizing o n with
  | nil =>
    cases h
    exact hw
  | cons e es ih =>
    rw [pmtEntries] at h
    obtain ⟨fields, hfields, h⟩ := bind_ok.1 h
    obtain ⟨o₁, hwrite, h⟩ := bind_ok.1 h
    obtain ⟨pPckt, hfront, hw₁⟩ := entry_writes hfields hw hwrite
    have hrest := ih hw₁ h
    have hcons : fronts (e::es) = pPckt.codec::fronts es := by
      simp [fronts, hfront]
    rw [hcons, List.map_cons, List.sum_cons, ← add_assoc]
    exact hrest

theorem entrySize_sum (codecs : List CodecType) :
    (codecs.map entrySize).sum = 5*codecs.length+16*codecs.countP wmv := by
  induction codecs with
  | nil => rfl
  | cons c codecs ih =>
    rw [List.map_cons, List.sum_cons, ih, List.length_cons, List.countP_cons, entrySize]
    by_cases hwmv : wmv c = true
    · rw [if_pos hwmv, if_pos hwmv]
      ring
    · rw [if_neg hwmv, if_neg hwmv]
      ring

/-- The bytes that the PMT has. -/
def pmtSize (codecs : List CodecType) : ℕ := 17+5*codecs.length+16*codecs.countP wmv

theorem pushPMT_length {s : TSMultiplexer} {desc : Option MediaDescriptor} {bs : List UInt8}
    (h : s.pushPMT desc = .ok bs) : bs.length = pmtSize (frontCodecs s) := by
  rw [TSMultiplexer.pushPMT] at h
  obtain ⟨o₁, hfields, h⟩ := bind_ok.1 h
  obtain ⟨o₂, hentries, h⟩ := bind_ok.1 h
  obtain ⟨o₃, hclose, h⟩ := bind_ok.1 h
  cases h
  have h₁ : Whole o₁ (0+13) := whole_writes whole_new (by simp [pmtFields]) rfl hfields
  have h₂ := entries_length h₁ hentries
  rw [whole_data (whole_close h₂ hclose), entrySize_sum, pmtSize]
  show 0+13+(5*(frontCodecs s).length+16*(frontCodecs s).countP wmv)+4 = _
  ring

/-! ## Headers -/

/-- Room for the flags behind the length of the adaptation field. -/
def Roomy (iSize : ℕ) (bPCR : Bool) : Prop := bPCR = true → iSize ≤ 176

def headerSize (iSize : ℕ) : ℕ := if iSize < 184 then 188-iSize else 4

/-- The two bits that tell what follows the header. -/
def fieldControl (iSize : ℕ) : ℕ := if 0 < iSize then (if iSize < 184 then 3 else 1) else 2

variable {iSize : ℕ} {iPID iCC iCurPCR : ℤ} {bStart bPCR bDoRandom : Bool}

theorem replicate_sum (k : ℕ) : ((List.replicate k ((8, 0xFF) : ℕ × ℕ)).map Prod.fst).sum = 8*k := by
  rw [List.map_replicate, List.sum_replicate, smul_eq_mul]
  ring

theorem adaptation_sum (hroom : Roomy iSize bPCR) :
    ((adaptationFields iSize bPCR bDoRandom iCurPCR).map Prod.fst).sum+32 = 8*headerSize iSize := by
  rw [adaptationFields, headerSize]
  by_cases hsize : iSize < 184
  · rw [if_pos hsize, if_pos hsize]
    by_cases hextend : 0 < 184-1-iSize
    · rw [if_pos hextend]
      cases bPCR with
      | true =>
        have hle := hroom rfl
        simp only [List.map_cons, List.map_append, List.sum_cons, List.sum_append, replicate_sum,
          if_true, List.map_nil, List.sum_nil]
        omega
      | false =>
        simp only [List.map_cons, List.map_append, List.sum_cons, List.sum_append, replicate_sum,
          Bool.false_eq_true, if_false, List.map_nil, List.sum_nil]
        omega
    · rw [if_neg hextend]
      simp
      omega
  · rw [if_neg hsize, if_neg hsize]
    rfl

theorem adaptation_pos : ∀ f ∈ adaptationFields iSize bPCR bDoRandom iCurPCR, 0 < f.1 := by
  rw [adaptationFields]
  split_ifs
  · simp [List.mem_replicate]
  · simp [List.mem_replicate]
  · simp
  · simp

/-- The first four bytes of a header, and what follows. -/
theorem header_bytes {hd : List UInt8}
    (h : ofBytes hd = fieldBits (headerFields iSize iPID iCC bStart bPCR bDoRandom iCurPCR)) :
    ∃ b₁ b₂ tail, hd = 0x47::b₁::b₂::UInt8.ofNat (16*fieldControl iSize+uint32 iCC%16)::tail ∧
      b₁.toNat%32*256+b₂.toNat = uint32 iPID%2^13 ∧
      ofBytes tail = fieldBits (adaptationFields iSize bPCR bDoRandom iCurPCR) := by
  have hpid : ofNat 13 (uint32 iPID) = ofNat 5 (uint32 iPID/2^8) ++ ofNat 8 (uint32 iPID) :=
    ofNat_add 5 8 (uint32 iPID)
  have hstart : value (ofNat 1 0 ++ (ofNat 1 bStart.toNat ++ (ofNat 1 0 ++
      ofNat 5 (uint32 iPID/2^8)))) = 64*(bStart.toNat%2)+uint32 iPID/2^8%32 := by
    simp only [value_append, value_ofNat, ofNat_length, List.length_append]
    omega
  have hcontrol : value (ofNat 2 0 ++ (ofNat 2 (fieldControl iSize) ++ ofNat 4 (uint32 iCC))) =
      16*fieldControl iSize+uint32 iCC%16 := by
    have hlt : fieldControl iSize < 4 := by
      rw [fieldControl]
      split_ifs <;> omega
    simp only [value_append, value_ofNat, ofNat_length, List.length_append]
    omega
  have hbits : fieldBits (headerFields iSize iPID iCC bStart bPCR bDoRandom iCurPCR) =
      ofNat 8 0x47 ++ ((ofNat 1 0 ++ (ofNat 1 bStart.toNat ++ (ofNat 1 0 ++
        ofNat 5 (uint32 iPID/2^8)))) ++ (ofNat 8 (uint32 iPID) ++
        ((ofNat 2 0 ++ (ofNat 2 (fieldControl iSize) ++ ofNat 4 (uint32 iCC))) ++
        fieldBits (adaptationFields iSize bPCR bDoRandom iCurPCR)))) := by
    simp only [headerFields, fieldBits, List.flatMap_append, List.flatMap_cons, List.flatMap_nil,
      List.append_nil, hpid, List.append_assoc, fieldControl]
  have hpack := congrArg pack h
  rw [pack_ofBytes, hbits, pack_byte _ _ (ofNat_length 8 _), pack_byte _ _ (by simp),
    pack_byte _ _ (ofNat_length 8 _), pack_byte _ _ (by simp), hcontrol, hstart] at hpack
  refine ⟨_, _, _, hpack, ?_, ?_⟩
  · rw [value_ofNat, UInt8.toNat_ofNat', UInt8.toNat_ofNat']
    omega
  · have hlen := congrArg List.length h
    rw [hbits, ofBytes_length] at hlen
    simp only [List.length_append, ofNat_length] at hlen
    exact ofBytes_pack (hd.length-4) _ (by omega)

/-- The length that the adaptation field announces, and the flags behind it. -/
theorem extend_byte {tail : List UInt8}
    (h : ofBytes tail = fieldBits (adaptationFields iSize bPCR bDoRandom iCurPCR))
    (hsize : iSize < 184) : ∃ rest, tail = UInt8.ofNat (183-iSize)::rest ∧
      (iSize < 183 → ∃ flags, rest.head? = some flags ∧ flags.toNat/16%2 = bPCR.toNat) := by
  have hpack := congrArg pack h
  rw [pack_ofBytes, adaptationFields, if_pos hsize, fieldBits, List.flatMap_cons,
    pack_byte _ _ (ofNat_length 8 _), value_ofNat] at hpack
  have hmod : (184-1-iSize)%2^8 = 183-iSize := by omega
  dsimp only at hpack
  rw [hmod] at hpack
  refine ⟨_, hpack, ?_⟩
  intro hflags
  obtain ⟨fields, hfields⟩ : ∃ fields, (if 0 < 184-1-iSize then
      [(1, 0), (1, bDoRandom.toNat), (1, bDoRandom.toNat), (5, if bPCR then 0x10 else 0x00)] ++
        if bPCR then
          [(1, 0), (32, uint32 iCurPCR), (6, 0xFF), (9, 0)] ++
            List.replicate (184-1-iSize-6-1) (8, 0xFF)
        else List.replicate (184-1-iSize-1) (8, 0xFF)
      else []) = (1, 0)::(1, bDoRandom.toNat)::(1, bDoRandom.toNat)::(5, if bPCR then 0x10 else 0x00)::fields := by
    rw [if_pos (by omega)]
    exact ⟨_, rfl⟩
  have hvalue : value (ofNat 1 0 ++ (ofNat 1 bDoRandom.toNat ++ (ofNat 1 bDoRandom.toNat ++
      ofNat 5 (if bPCR then 0x10 else 0x00)))) = 96*bDoRandom.toNat+16*bPCR.toNat := by
    cases bDoRandom <;> cases bPCR <;> rfl
  have hbyte : List.flatMap (fun f : ℕ × ℕ => ofNat f.1 f.2)
      ((1, 0)::(1, bDoRandom.toNat)::(1, bDoRandom.toNat)::(5, if bPCR then 0x10 else 0x00)::fields) =
      (ofNat 1 0 ++ (ofNat 1 bDoRandom.toNat ++ (ofNat 1 bDoRandom.toNat ++
        ofNat 5 (if bPCR then 0x10 else 0x00)))) ++ fieldBits fields := by
    simp only [List.flatMap_cons, List.append_assoc, fieldBits]
  rw [hfields, hbyte, pack_byte _ _ (by simp), hvalue]
  refine ⟨_, rfl, ?_⟩
  rw [UInt8.toNat_ofNat']
  cases bDoRandom <;> cases bPCR <;> rfl

structure HeaderOf (iSize : ℕ) (iPID : ℤ) (bPCR : Bool) (hd : List UInt8) : Prop where
  length : hd.length = headerSize iSize
  sync : hd.head? = some 0x47
  pid : ∃ b₁ b₂, hd[1]? = some b₁ ∧ hd[2]? = some b₂ ∧ b₁.toNat%32*256+b₂.toNat = uint32 iPID%2^13
  control : ∃ b, hd[3]? = some b ∧ b.toNat/16%4 = fieldControl iSize
  extend : iSize < 184 → hd[4]? = some (UInt8.ofNat (183-iSize))
  flags : iSize < 183 → ∃ b, hd[5]? = some b ∧ b.toNat/16%2 = bPCR.toNat

theorem fillTSHeader_run {s : TSMultiplexer} {pTSPckt p : MediaPacket} (hroom : Roomy iSize bPCR)
    (h : s.fillTSHeader pTSPckt iSize iPID iCC bStart bPCR bDoRandom = .ok p) :
    ∃ hd, p.bytes = pTSPckt.bytes ++ hd ∧ HeaderOf iSize iPID bPCR hd := by
  have hle : headerSize iSize ≤ 188 := by
    rw [headerSize]
    split_ifs <;> omega
  have hpos : ∀ f ∈ headerFields iSize iPID iCC bStart bPCR bDoRandom (s.curPCR pTSPckt), 0 < f.1 := by
    rw [headerFields, List.forall_mem_append]
    exact ⟨by simp, adaptation_pos⟩
  obtain ⟨o, hrun, hbits, hlen⟩ := OBits.writes_new
    (headerFields iSize iPID iCC bStart bPCR bDoRandom (s.curPCR pTSPckt)) (n := headerSize iSize)
    (by
      rw [headerFields, List.map_append, List.sum_append, ← adaptation_sum hroom]
      simp
      ring) hle hpos
  rw [TSMultiplexer.fillTSHeader] at h
  obtain ⟨o₁, hwrite, h⟩ := bind_ok.1 h
  rw [hrun] at hwrite
  cases hwrite
  rw [MediaPacket.push_back] at h
  split_ifs at h with hroom'
  cases h
  refine ⟨o.data, rfl, ?_⟩
  obtain ⟨b₁, b₂, tail, hdata, hpid, htail⟩ := header_bytes hbits
  rw [hdata] at hlen ⊢
  constructor
  · exact hlen
  · rfl
  · exact ⟨b₁, b₂, rfl, rfl, hpid⟩
  · refine ⟨_, rfl, ?_⟩
    have hlt : fieldControl iSize < 4 := by
      rw [fieldControl]
      split_ifs <;> omega
    rw [UInt8.toNat_ofNat']
    omega
  · intro hsize
    obtain ⟨rest, rfl, -⟩ := extend_byte htail hsize
    rfl
  · intro hsize
    obtain ⟨rest, rfl, hflags⟩ := extend_byte htail (by omega)
    obtain ⟨flags, hhead, hvalue⟩ := hflags hsize
    obtain ⟨more, rfl⟩ := List.head?_eq_some_iff.1 hhead
    exact ⟨flags, rfl, hvalue⟩

/-! ## Packets -/

/-- A packet of 188 bytes from the sync byte on, in which the adaptation field, if there is one, and
the body fill what the header leaves. -/
structure Full (r : Created) : Prop where
  size : r.pTSPckt.size = 188
  sync : r.pTSPckt.bytes.head? = some 0x47
  filled : ∃ b, r.pTSPckt.bytes[3]? = some b ∧
    if b.toNat/16%4 = 1 then 4+r.iBody = 188
    else ∃ iAdaptation, r.pTSPckt.bytes[4]? = some iAdaptation ∧ 4+(1+iAdaptation.toNat)+r.iBody = 188

/-- The sizes of the tables that do not depend on the streams. -/
structure Sized (SI : SITable) : Prop where
  SDT : SI.SDT.size = 43
  PAT : SI.PAT.size = 17
  PCR : SI.PCR.size = 0
  FILL : SI.FILL.size = 184

/-- A packet is full, and a PMT is when it has as many bytes as were counted. -/
def Shaped (r : Created) : Prop :=
  Full r ↔ (r.iType = .PMT → min r.iCounted 184 = pmtSize r.codecs)

theorem full_iff {r : Created} {hd body : List UInt8} {iSize : ℕ} (h : HeaderOf iSize iPID bPCR hd)
    (hbytes : r.pTSPckt.bytes = hd ++ body) (hbody : r.iBody = body.length) :
    Full r ↔ body.length = min iSize 184 := by
  have hsize : r.pTSPckt.size = headerSize iSize+body.length := by
    rw [MediaPacket.size, hbytes, List.length_append, h.length]
  constructor
  · intro hfull
    have hfill := hfull.size
    rw [hsize, headerSize] at hfill
    split_ifs at hfill with hlt <;> omega
  · intro hlen
    have hle : 4 ≤ hd.length := by
      rw [h.length, headerSize]
      split_ifs <;> omega
    obtain ⟨b, hb, hcontrol⟩ := h.control
    constructor
    · rw [hsize, headerSize]
      split_ifs with hlt <;> omega
    · rw [hbytes, List.head?_append, h.sync]
      rfl
    · refine ⟨b, ?_, ?_⟩
      · rw [hbytes, List.getElem?_append_left (by omega), hb]
      · rw [hcontrol, hbody, hlen]
        by_cases hlt : iSize < 184
        · have hextend := h.extend hlt
          obtain ⟨hin, -⟩ := List.getElem?_eq_some_iff.1 hextend
          have hfield : fieldControl iSize ≠ 1 := by
            rw [fieldControl]
            split_ifs <;> omega
          rw [if_neg hfield, hbytes, List.getElem?_append_left hin, hextend]
          refine ⟨_, rfl, ?_⟩
          rw [UInt8.toNat_ofNat']
          omega
        · have hfield : fieldControl iSize = 1 := by
            rw [fieldControl, if_pos (by omega), if_neg hlt]
          rw [if_pos hfield]
          omega

variable {s s' : TSMultiplexer} {iStream : ℤ} {iType : TSType}

theorem payload_pes (SI : SITable) (pPckt : MediaPacket) (bPCR bRandom : Bool) :
    payloadSize SI .PES pPckt bPCR bRandom ≤ min pPckt.size 184 ∧
      Roomy (payloadSize SI .PES pPckt bPCR bRandom) bPCR := by
  rw [payloadSize, if_neg (by simp)]
  constructor
  · split_ifs <;> omega
  · intro hPCR
    rw [if_pos hPCR]
    omega

/-- How long the body is, and the size that its header was made for. -/
theorem body_length {n : ℕ} {pPckt : MediaPacket} {bRandom : Bool} {body : List UInt8}
    (hsized : Sized s.SI) (hn : n = payloadSize s.SI iType pPckt bPCR bRandom)
    (hbody : s.body iType n pPckt = .ok body) :
    body.length = min n 184 ↔
      (iType = .PMT → min s.SI.PMT.size 184 = pmtSize (frontCodecs s)) := by
  cases iType with
  | SDT =>
    have hsize : n = 43 := hn.trans hsized.SDT
    have hlen := pushSDT_length hbody
    simp [hsize, hlen]
  | PAT =>
    have hsize : n = 17 := hn.trans hsized.PAT
    have hlen := pushPAT_length hbody
    simp [hsize, hlen]
  | PMT =>
    have hsize : n = s.SI.PMT.size := hn
    have hlen := pushPMT_length hbody
    rw [hsize, hlen]
    constructor
    · intro h _
      exact h.symm
    · intro h
      exact (h rfl).symm
  | PCR =>
    have hsize : n = 0 := hn.trans hsized.PCR
    cases hbody
    simp [hsize]
  | FILL =>
    have hsize : n = 184 := hn.trans hsized.FILL
    cases hbody
    rw [hsize, pushFILL, List.length_replicate, hsized.FILL]
    simp
  | PES =>
    have hle := (payload_pes s.SI pPckt bPCR bRandom).1
    rw [← hn, MediaPacket.size] at hle
    cases hbody
    rw [List.length_take]
    constructor
    · intro _ h
      cases h
    · intro _
      omega

/-- What is recorded of a packet that is created, with its header and its body. -/
theorem created_header {n : ℕ} (hsized : Sized s.SI) (hclock : Clocked s iStream iType bPCR)
    (h : s.createTSPacket iStream iType bStart bPCR = .ok (n, s')) :
    ∃ pMux pPckt hd body r, s.front iStream = .ok (pMux, pPckt) ∧
      n = payloadSize s.SI iType pPckt bPCR
        (decide (iType = .PES ∧ bStart ∧ pPckt.key ∧ pPckt.content = .video)) ∧
      s.body iType n pPckt = .ok body ∧ r.pTSPckt.bytes = hd ++ body ∧
      HeaderOf n (s.pid iType pMux) bPCR hd ∧
      r = ⟨iType, r.pTSPckt, s.pid iType pMux, bPCR, body.length, s.SI.PCR.PID, s.SI.PMT.size, frontCodecs s⟩ ∧
      s'.created = s.created ++ [r] := by
  obtain ⟨pMux, pPckt, pHeader, pTSPckt, body, hfront, hn, hheader, hbody, hpush, -, rfl⟩ :=
    created_cases h
  have hroom : Roomy n bPCR := by
    intro hPCR
    rcases hclock.kind hPCR with rfl | rfl
    · rw [hn]
      exact (payload_pes _ _ _ _).2 hPCR
    · have hsize : n = 0 := hn.trans hsized.PCR
      omega
  obtain ⟨hd, hbytes, hhd⟩ := fillTSHeader_run hroom hheader
  rw [MediaPacket.push_back] at hpush
  split_ifs at hpush
  cases hpush
  have hsame : (s.taken iType iStream n pPckt).created = s.created := by
    cases iType <;> rfl
  refine ⟨pMux, pPckt, hd, body, _, hfront, hn, hbody, ?_, hhd, rfl, congrArg (· ++ [_]) hsame⟩
  rw [pushed_bytes, hbytes]
  rfl

theorem created_shaped {n : ℕ} (hsized : Sized s.SI) (hclock : Clocked s iStream iType bPCR)
    (h : s.createTSPacket iStream iType bStart bPCR = .ok (n, s')) :
    ∃ r, s'.created = s.created ++ [r] ∧ Shaped r := by
  obtain ⟨pMux, pPckt, hd, body, r, -, hn, hbody, hbytes, hhd, hr, hcreated⟩ :=
    created_header hsized hclock h
  refine ⟨r, hcreated, ?_⟩
  have hcounted : r.iType = iType ∧ r.iCounted = s.SI.PMT.size ∧ r.codecs = frontCodecs s := by
    rw [hr]
    exact ⟨rfl, rfl, rfl⟩
  rw [Shaped, full_iff hhd hbytes (by rw [hr]), hcounted.1, hcounted.2.1, hcounted.2.2]
  exact body_length hsized hn hbody

/-! ## Runs -/

structure ShapedSo (s : TSMultiplexer) : Prop where
  sized : Sized s.SI
  created : ∀ r ∈ s.created, Shaped r

theorem modify_sized {SI : SITable} {f : SIInfo → SIInfo} (h : Sized SI) (iType : TSType)
    (hf : ∀ si, (f si).size = si.size) : Sized (SI.modify iType f) := by
  cases iType with
  | SDT => exact ⟨(hf _).trans h.SDT, h.PAT, h.PCR, h.FILL⟩
  | PAT => exact ⟨h.SDT, (hf _).trans h.PAT, h.PCR, h.FILL⟩
  | PMT => exact ⟨h.SDT, h.PAT, h.PCR, h.FILL⟩
  | PCR => exact ⟨h.SDT, h.PAT, (hf _).trans h.PCR, h.FILL⟩
  | FILL => exact ⟨h.SDT, h.PAT, h.PCR, (hf _).trans h.FILL⟩
  | PES => exact ⟨h.SDT, h.PAT, h.PCR, h.FILL⟩

theorem tables_sized {SI : SITable} {f : SIInfo → SIInfo} (h : Sized SI)
    (hf : ∀ si, (f si).size = si.size) : Sized (SI.tables f) :=
  modify_sized (modify_sized (modify_sized h .SDT hf) .PAT hf) .PMT hf

theorem tick_sized {pMux : Muxx} {pPckt : MediaPacket} (h : Sized s.SI) :
    Sized (s.tick iStream pMux pPckt) := by
  have hticked : ∀ si, (ticked si).size = si.size := by
    intro si
    rw [ticked]
    split_ifs <;> rfl
  have hclock : ∀ si, (s.tickPCR iStream (isFresh pMux) si).size = si.size := by
    intro si
    rw [TSMultiplexer.tickPCR]
    split_ifs <;> rfl
  rw [TSMultiplexer.tick]
  apply modify_sized _ .PCR hclock
  apply tables_sized _ hticked
  split_ifs
  · exact tables_sized h fun _ => rfl
  · exact h

theorem taken_sized {n : ℕ} {pPckt : MediaPacket} (h : Sized s.SI) :
    Sized (s.taken iType iStream n pPckt).SI := by
  cases iType with
  | SDT =>
    exact modify_sized (f := fun si => { si with cc := (si.cc+1) % 256 }) h .SDT fun _ => rfl
  | PAT =>
    exact modify_sized (f := fun si => { si with cc := (si.cc+1) % 256 }) h .PAT fun _ => rfl
  | PMT =>
    exact modify_sized (f := fun si => { si with cc := (si.cc+1) % 256 }) h .PMT fun _ => rfl
  | PCR => exact h
  | FILL => exact h
  | PES => exact h

theorem shaped_preserved : Preserved ShapedSo where
  begun := fun s iStream pMux pPckt h => ⟨tick_sized h.sized, h.created⟩
  created := by
    intro s s' iStream iType bStart bPCR n hclock h hrun
    obtain ⟨r, hcreated, hr⟩ := created_shaped h.sized hclock hrun
    obtain ⟨_, pPckt, _, _, _, _, _, _, _, _, _, rfl⟩ := created_cases hrun
    constructor
    · exact taken_sized h.sized
    · rw [hcreated]
      intro r' hr'
      rcases List.mem_append.1 hr' with hr' | hr'
      · exact h.created r' hr'
      · rw [List.mem_singleton.1 hr']
        exact hr
  advanced := by
    intro s s' iStream n h hrun
    rw [TSMultiplexer.advanced] at hrun
    obtain ⟨front, -, hrun⟩ := bind_ok.1 hrun
    split_ifs at hrun
    cases hrun
    exact ⟨h.sized, h.created⟩
  popped := fun s iStream h => ⟨h.sized, h.created⟩

/-- Once there is a reference stream the tables have their sizes. -/
structure ShapedAlways (s : TSMultiplexer) : Prop where
  sized : 0 ≤ s.iRefStream → Sized s.SI
  created : ∀ r ∈ s.created, Shaped r

theorem refer_created (s : TSMultiplexer) (i : ℤ) (pPckt : MediaPacket) :
    (s.refer i pPckt).created = s.created := by
  rw [TSMultiplexer.refer]
  cases pPckt.content <;> rfl

theorem referred_shaped (h : ShapedAlways s) (hrun : s.referred = .ok s') : ShapedSo s' := by
  rw [TSMultiplexer.referred] at hrun
  by_cases hnone : s.iRefStream < 0
  · rw [if_pos hnone] at hrun
    obtain ⟨r, iSize, hall, -, rfl⟩ := findRefStream_cases hrun
    have hcreated : ∀ q ∈ r.1.created, Shaped q :=
      referAll_kept (P := fun t => ∀ q ∈ t.created, Shaped q)
        (fun t i pPckt ht => by rw [refer_created]; exact ht) h.created hall
    exact ⟨⟨rfl, rfl, rfl, rfl⟩, hcreated⟩
  · rw [if_neg hnone] at hrun
    cases hrun
    exact ⟨h.sized (by omega), h.created⟩

theorem control_shaped {r : ℤ × TSMultiplexer} {iStartDts : ℤ} (h : ShapedSo s)
    (hrun : s.control iStartDts = .ok r) : ShapedSo r.2 := by
  rw [TSMultiplexer.control] at hrun
  obtain ⟨q, -, hrun⟩ := bind_ok.1 hrun
  cases hrun
  exact ⟨tables_sized h.sized fun _ => rfl, h.created⟩

theorem event_shaped {a : Event} (h : ShapedAlways s) (hrun : s.happened a = .ok s') :
    ShapedAlways s' := by
  cases a with
  | receive pckt =>
    cases hrun
    exact ⟨h.sized, h.created⟩
  | process fuel =>
    rcases process_cases hrun with rfl | ⟨t, iStream, iStartDts, r, -, hreferred, -, -, hpass, hsend⟩
    · exact h
    · have ht := referred_shaped h hreferred
      have hsel : ShapedSo (t.selected iStream) := ⟨ht.sized, ht.created⟩
      have hr : ShapedSo r.2 := pass_preserved shaped_preserved
        (fun _ _ _ hs hrun => control_shaped hs hrun) hsel hpass
      refine ⟨fun _ => ?_, ?_⟩
      · rw [hsend.SI]
        exact hr.sized
      · rw [hsend.created]
        exact hr.created

/-- What a run has created. -/
def createdIn : Except SirannonException TSMultiplexer → List Created
  | .ok s => s.created
  | .error _ => []

/-- Each packet that is created in a run is full, except for a PMT of another size than was counted. -/
theorem packets_full (streamID : ℤ) (o : Settings) (events : List Event) :
    (createdIn (run streamID o events)).Forall Shaped := by
  rw [List.forall_iff_forall_mem]
  cases hrun : run streamID o events with
  | error e =>
    intro r hr
    cases hr
  | ok s =>
    have hinit : ShapedAlways (TSMultiplexer.init streamID o) :=
      ⟨fun h => absurd (show (0 : ℤ) ≤ -1 from h) (by decide),
        fun r hr => absurd hr List.not_mem_nil⟩
    exact (run_kept hinit (fun _ _ _ h hone => event_shaped h hone) hrun).created

/-- A Windows Media stream of one packet. -/
def wmvEvents : List Event :=
  let desc : MediaDescriptor := ⟨.video, .wmv3, 320, 240, 0, 0, 0, []⟩
  let pckt := { MediaPacket.new .media .video 100 with codec := .wmv3, desc := some desc, bytes := List.replicate 100 0 }
  [.receive pckt, .receive (MediaPacket.new .end .video 0), .process 5]

/-- Its PMT is six bytes too long, with no more than one stream. -/
theorem wmv_pmt_not_full : ¬ (createdIn (run 0 Settings.default wmvEvents)).Forall Full := by
  rw [List.forall_iff_forall_mem]
  intro h
  have hlong : (createdIn (run 0 Settings.default wmvEvents)).any fun r => r.pTSPckt.size = 194 := by
    decide +kernel
  obtain ⟨r, hr, hsize⟩ := List.any_eq_true.1 hlong
  have hfull := (h r hr).size
  rw [of_decide_eq_true hsize] at hfull
  omega

end Sirannon.TSMultiplexing
