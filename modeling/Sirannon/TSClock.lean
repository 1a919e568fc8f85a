import Sirannon.TSPacketShape

/-!
# The clock of a transport stream

The PMT tells on which PID the clock is. It is that of the reference stream,
which is looked for once, when the streams are first seen. The clock is written
into packets of the stream that was lowest at the start of the pass.
-/

set_option autoImplicit false

namespace Sirannon.TSMultiplexing
open Bits BitString Media MachineInt Multiplexing
open Std (TreeMap)

/-! ## Reading packets -/

def byteAt (pTSPckt : MediaPacket) (i : ℕ) : ℕ := (pTSPckt.bytes[i]?.map UInt8.toNat).getD 0

def packetPID (pTSPckt : MediaPacket) : ℕ := byteAt pTSPckt 1%32*256+byteAt pTSPckt 2

/-- Is the flag of the clock set in the adaptation field? -/
def hasClock (pTSPckt : MediaPacket) : Bool :=
  byteAt pTSPckt 3/32%2 = 1 ∧ 0 < byteAt pTSPckt 4 ∧ byteAt pTSPckt 5/16%2 = 1

/-- Where the body of a packet starts. -/
def bodyStart (pTSPckt : MediaPacket) : ℕ :=
  if byteAt pTSPckt 3/32%2 = 1 then 5+byteAt pTSPckt 4 else 4

/-- The PID of the clock, in a packet with the PMT. -/
def announcedPID (pTSPckt : MediaPacket) : ℕ :=
  byteAt pTSPckt (bodyStart pTSPckt+9)%32*256+byteAt pTSPckt (bodyStart pTSPckt+10)

/-! ## The bytes of the PMT -/

variable {o o' : OBits} {n m : ℕ}

theorem holds_done {bs : List Bool} (h : o.Holds bs) (hlen : bs.length = 8*n) : o.done = pack bs := by
  obtain ⟨part, hpos, hpart, -, rfl⟩ := h
  rw [List.length_append, ofBytes_length] at hlen
  have hnil : part = [] := List.length_eq_zero_iff.1 (by omega)
  rw [hnil, List.append_nil, pack_ofBytes]

theorem writes_done {fields : List (ℕ × ℕ)} (h : Whole o n) (hpos : ∀ f ∈ fields, 0 < f.1)
    (hsum : (fields.map Prod.fst).sum = 8*m) (hrun : o.writes fields = .ok o') :
    o'.done = o.done ++ pack (fieldBits fields) := by
  obtain ⟨bs, hholds, hlen⟩ := h
  obtain ⟨hall, -⟩ := OBits.writes_appends fields o bs hholds hpos
  have hlen' : (bs ++ fieldBits fields).length = 8*(n+m) := by
    rw [List.length_append, fieldBits_length, hsum, hlen]
    ring
  rw [holds_done (hall o' hrun).1 hlen', pack_append n bs _ hlen, ← holds_done hholds hlen]

theorem entry_grows {desc : Option MediaDescriptor} {pMux : Muxx} {fields : List (ℕ × ℕ)}
    (h : entryFields desc pMux = .ok fields) (hw : Whole o n) (hrun : o.writes fields = .ok o') :
    ∃ more, o'.done = o.done ++ more := by
  obtain ⟨pPckt, -, hsum, hpos⟩ := entry_size h
  exact ⟨_, writes_done hw hpos hsum hrun⟩

theorem entries_grow {desc : Option MediaDescriptor} {es : List (ℤ × Muxx)} (hw : Whole o n)
    (h : pmtEntries desc es o = .ok o') : ∃ more, o'.done = o.done ++ more := by
  induction es generalizing o n with
  | nil =>
    cases h
    exact ⟨[], (List.append_nil _).symm⟩
  | cons e es ih =>
    rw [pmtEntries] at h
    obtain ⟨fields, hfields, h⟩ := bind_ok.1 h
    obtain ⟨o₁, hwrite, h⟩ := bind_ok.1 h
    obtain ⟨pPckt, -, hw₁⟩ := entry_writes hfields hw hwrite
    obtain ⟨more, hone⟩ := entry_grows hfields hw hwrite
    obtain ⟨rest, hrest⟩ := ih hw₁ h
    exact ⟨more ++ rest, by rw [hrest, hone, List.append_assoc]⟩

/-- Closing a section sets its size and appends its checksum. -/
theorem close_grows (hw : Whole o n) (h : closeSection o = .ok o') :
    ∃ b more, o'.done = o.done.set 3 b ++ more := by
  obtain ⟨bs, hholds, hlen⟩ := whole_sized hw
  rw [closeSection] at h
  obtain ⟨hall, -⟩ := OBits.write_appends 32 _ _ bs hholds (by omega)
  have hholds' := (hall o' h).1
  have hlen' : (bs ++ ofNat 32 (crc (List.drop 1 (sized o).data)).toNat).length = 8*(n+4) := by
    rw [List.length_append, ofNat_length, hlen]
    ring
  have hdone := holds_done hholds' hlen'
  rw [pack_append n bs _ hlen, ← holds_done hholds hlen] at hdone
  exact ⟨_, _, hdone⟩

theorem pmtFields_bytes (SI : SITable) : ∃ b₀ b₁ b₂ b₃ b₄ b₅ b₆ b₇ b₈ b₉ b₁₀ more,
    pack (fieldBits (pmtFields SI)) = b₀::b₁::b₂::b₃::b₄::b₅::b₆::b₇::b₈::b₉::b₁₀::more ∧
      b₉.toNat%32*256+b₁₀.toNat = SI.PCR.PID%2^13 := by
  have hpid : ofNat 13 SI.PCR.PID = ofNat 5 (SI.PCR.PID/2^8) ++ ofNat 8 SI.PCR.PID :=
    ofNat_add 5 8 SI.PCR.PID
  have hhigh : value (ofNat 3 0xFF ++ ofNat 5 (SI.PCR.PID/2^8)) = 224+SI.PCR.PID/2^8%32 := by
    simp only [value_append, value_ofNat, ofNat_length]
    omega
  have hbits : fieldBits (pmtFields SI) = ofNat 8 0x00 ++ (ofNat 8 0x02 ++ (ofNat 8 0xB0 ++
      (ofNat 8 0x00 ++ (ofNat 8 0x00 ++ (ofNat 8 0x01 ++ (ofNat 8 (versionByte SI.PMT.version) ++
      (ofNat 8 0x00 ++ (ofNat 8 0x00 ++ ((ofNat 3 0xFF ++ ofNat 5 (SI.PCR.PID/2^8)) ++
      (ofNat 8 SI.PCR.PID ++ (ofNat 8 0xF0 ++ ofNat 8 0x00))))))))))) := by
    simp only [pmtFields, fieldBits, List.flatMap_cons, List.flatMap_nil, List.append_nil, hpid,
      List.append_assoc]
  rw [hbits]
  simp only [pack_byte _ _ (ofNat_length 8 _)]
  rw [pack_byte _ _ (by simp), pack_byte _ _ (ofNat_length 8 _), hhigh]
  refine ⟨_, _, _, _, _, _, _, _, _, _, _, _, rfl, ?_⟩
  rw [value_ofNat, UInt8.toNat_ofNat', UInt8.toNat_ofNat']
  omega

theorem pushPMT_clock {s : TSMultiplexer} {desc : Option MediaDescriptor} {bs : List UInt8}
    (h : s.pushPMT desc = .ok bs) : ∃ b₉ b₁₀, bs[9]? = some b₉ ∧ bs[10]? = some b₁₀ ∧
      b₉.toNat%32*256+b₁₀.toNat = s.SI.PCR.PID%2^13 := by
  rw [TSMultiplexer.pushPMT] at h
  obtain ⟨o₁, hfields, h⟩ := bind_ok.1 h
  obtain ⟨o₂, hentries, h⟩ := bind_ok.1 h
  obtain ⟨o₃, hclose, h⟩ := bind_ok.1 h
  cases h
  have h₁ : Whole o₁ (0+13) := whole_writes whole_new (by simp [pmtFields]) rfl hfields
  have h₂ := entries_length h₁ hentries
  have h₃ := whole_close h₂ hclose
  have hd₁ := writes_done (m := 13) whole_new (by simp [pmtFields]) rfl hfields
  obtain ⟨more, hd₂⟩ := entries_grow h₁ hentries
  obtain ⟨size, crc, hd₃⟩ := close_grows h₂ hclose
  obtain ⟨b₀, b₁, b₂, b₃, b₄, b₅, b₆, b₇, b₈, b₉, b₁₀, rest, hpack, hpid⟩ := pmtFields_bytes s.SI
  have hdata : o₃.data = o₃.done := by
    rw [OBits.data, if_pos (whole_parts h₃).1]
  rw [hdata, hd₃, hd₂, hd₁, hpack]
  exact ⟨b₉, b₁₀, rfl, rfl, hpid⟩

/-! ## The bytes of a packet -/

variable {s s' : TSMultiplexer} {iStream iPID : ℤ} {iSize : ℕ} {bPCR : Bool} {r : Created}
  {hd body : List UInt8}

theorem byteAt_header {p : MediaPacket} {i : ℕ} {b : UInt8} (hbytes : p.bytes = hd ++ body)
    (hb : hd[i]? = some b) : byteAt p i = b.toNat := by
  obtain ⟨hin, -⟩ := List.getElem?_eq_some_iff.1 hb
  rw [byteAt, hbytes, List.getElem?_append_left hin, hb]
  rfl

theorem header_pid {p : MediaPacket} (h : HeaderOf iSize iPID bPCR hd) (hbytes : p.bytes = hd ++ body) :
    packetPID p = uint32 iPID%2^13 := by
  obtain ⟨b₁, b₂, h₁, h₂, hpid⟩ := h.pid
  rw [packetPID, byteAt_header hbytes h₁, byteAt_header hbytes h₂, hpid]

theorem header_field {p : MediaPacket} (h : HeaderOf iSize iPID bPCR hd) (hbytes : p.bytes = hd ++ body) :
    byteAt p 3/16%4 = fieldControl iSize := by
  obtain ⟨b, hb, hcontrol⟩ := h.control
  rw [byteAt_header hbytes hb, hcontrol]

theorem header_extend {p : MediaPacket} (h : HeaderOf iSize iPID bPCR hd)
    (hbytes : p.bytes = hd ++ body) (hlt : iSize < 184) : byteAt p 4 = 183-iSize := by
  rw [byteAt_header hbytes (h.extend hlt), UInt8.toNat_ofNat']
  omega

/-- The flag of the clock is set only where it was asked for. -/
theorem header_clock {p : MediaPacket} (h : HeaderOf iSize iPID bPCR hd) (hbytes : p.bytes = hd ++ body)
    (hclock : hasClock p = true) : bPCR = true := by
  simp only [hasClock, decide_eq_true_eq] at hclock
  obtain ⟨hfield, hextend, hflag⟩ := hclock
  have hcontrol := header_field h hbytes
  have hlt : iSize < 184 := by
    by_contra hge
    rw [fieldControl, if_pos (by omega), if_neg hge] at hcontrol
    omega
  rw [header_extend h hbytes hlt] at hextend
  obtain ⟨b, hb, hflags⟩ := h.flags (by omega)
  rw [byteAt_header hbytes hb, hflags] at hflag
  cases bPCR with
  | true => rfl
  | false => cases hflag

theorem header_start {p : MediaPacket} (h : HeaderOf iSize iPID bPCR hd) (hbytes : p.bytes = hd ++ body) :
    bodyStart p = hd.length := by
  have hcontrol := header_field h hbytes
  rw [bodyStart, h.length, headerSize]
  by_cases hlt : iSize < 184
  · rw [if_pos hlt, header_extend h hbytes hlt, if_pos]
    · omega
    · rw [fieldControl, if_pos hlt] at hcontrol
      split_ifs at hcontrol <;> omega
  · rw [if_neg hlt, if_neg]
    rw [fieldControl, if_pos (by omega), if_neg hlt] at hcontrol
    omega

theorem byteAt_body {p : MediaPacket} {i : ℕ} {b : UInt8} (hbytes : p.bytes = hd ++ body)
    (hb : body[i]? = some b) : byteAt p (hd.length+i) = b.toNat := by
  rw [byteAt, hbytes, List.getElem?_append_right (by omega), Nat.add_sub_cancel_left, hb]
  rfl

theorem body_announces {p : MediaPacket} {desc : Option MediaDescriptor}
    (h : HeaderOf iSize iPID bPCR hd) (hbytes : p.bytes = hd ++ body)
    (hbody : s.pushPMT desc = .ok body) : announcedPID p = s.SI.PCR.PID%2^13 := by
  obtain ⟨b₉, b₁₀, h₉, h₁₀, hpid⟩ := pushPMT_clock hbody
  rw [announcedPID, header_start h hbytes, byteAt_body hbytes h₉, byteAt_body hbytes h₁₀, hpid]

/-! ## PIDs -/

/-- The entries that are still there have their PIDs. -/
def KeepsPIDs (s s' : TSMultiplexer) : Prop :=
  ∀ (i : ℤ) (pMux' : Muxx), s'.mMux[i]? = some pMux' →
    ∃ pMux : Muxx, s.mMux[i]? = some pMux ∧ pMux'.iPID = pMux.iPID

theorem keeps_refl (s : TSMultiplexer) : KeepsPIDs s s := fun _ pMux h => ⟨pMux, h, rfl⟩

theorem modified_keeps {i : ℤ} {f : Muxx → Muxx} (hf : ∀ pMux, (f pMux).iPID = pMux.iPID) :
    KeepsPIDs s (s.modified i f) := by
  intro j pMux' h
  change (s.mMux.modify i f)[j]? = some pMux' at h
  rw [TreeMap.getElem?_modify] at h
  split_ifs at h with hij
  · obtain ⟨pMux, hsome, rfl⟩ := Option.map_eq_some_iff.1 h
    rw [Std.LawfulEqCmp.eq_of_compare hij] at hsome
    exact ⟨pMux, hsome, hf pMux⟩
  · exact ⟨pMux', h, rfl⟩

theorem detected_pid (pMux : Muxx) : (detected pMux).iPID = pMux.iPID := by
  rw [detected]
  split
  · rfl
  · split_ifs <;> rfl

theorem taken_keeps {iType : TSType} {n : ℕ} {pPckt : MediaPacket} :
    KeepsPIDs s (s.taken iType iStream n pPckt) := by
  cases iType with
  | PES => exact modified_keeps fun _ => rfl
  | PMT =>
    intro j pMux' h
    change (s.mMux.map fun _ pMux => detected pMux)[j]? = some pMux' at h
    rw [TreeMap.getElem?_map] at h
    obtain ⟨pMux, hsome, rfl⟩ := Option.map_eq_some_iff.1 h
    exact ⟨pMux, hsome, detected_pid pMux⟩
  | SDT => exact keeps_refl s
  | PAT => exact keeps_refl s
  | PCR => exact keeps_refl s
  | FILL => exact keeps_refl s

theorem started_pid (pPckt : MediaPacket) (pMux : Muxx) : (started pPckt pMux).iPID = pMux.iPID := by
  rw [started]
  split_ifs <;> rfl

theorem popControl_pid {pMux pMux' : Muxx} (h : pMux.popControl = some pMux') :
    pMux'.iPID = pMux.iPID := by
  rw [Muxx.popControl] at h
  split at h
  · cases h
    rfl
  · split_ifs at h
    cases h
    rfl

theorem control_cases {iStartDts : ℤ} {r : ℤ × TSMultiplexer} (h : s.control iStartDts = .ok r) :
    r.2.mMux = s.mMux.filterMap (fun _ pMux => pMux.popControl) ∧ r.2.created = s.created ∧
      r.2.SI = s.SI.tables forced ∧ r.2.iRefStream = s.iRefStream ∧
      r.2.iLocalRefStream = s.iLocalRefStream := by
  rw [TSMultiplexer.control] at h
  obtain ⟨q, hreset, h⟩ := bind_ok.1 h
  rw [Multiplexer.resetMux] at hreset
  split at hreset
  · cases hreset
  · cases hreset
  · cases hreset
    cases h
    exact ⟨rfl, rfl, rfl, rfl, rfl⟩

theorem control_keeps {iStartDts : ℤ} {r : ℤ × TSMultiplexer} (h : s.control iStartDts = .ok r) :
    KeepsPIDs s r.2 := by
  intro j pMux' hj
  rw [(control_cases h).1, TreeMap.getElem?_filterMap'] at hj
  obtain ⟨pMux, hsome, hpop⟩ := Option.bind_eq_some_iff.1 hj
  exact ⟨pMux, hsome, popControl_pid hpop⟩

/-! ## The announced PID -/

theorem modify_pid {SI : SITable} {f : SIInfo → SIInfo} (iType : TSType)
    (hf : ∀ si, (f si).PID = si.PID) : (SI.modify iType f).PCR.PID = SI.PCR.PID := by
  cases iType with
  | PCR => exact hf _
  | SDT => rfl
  | PAT => rfl
  | PMT => rfl
  | FILL => rfl
  | PES => rfl

theorem tick_pid {pMux : Muxx} {pPckt : MediaPacket} :
    (s.tick iStream pMux pPckt).PCR.PID = s.SI.PCR.PID := by
  rw [TSMultiplexer.tick, modify_pid .PCR]
  · split_ifs <;> rfl
  · intro si
    rw [TSMultiplexer.tickPCR]
    split_ifs <;> rfl

theorem taken_pid {iType : TSType} {n : ℕ} {pPckt : MediaPacket} :
    (s.taken iType iStream n pPckt).SI.PCR.PID = s.SI.PCR.PID := by
  cases iType with
  | PES => rfl
  | FILL => rfl
  | PCR => rfl
  | PMT => rfl
  | SDT => rfl
  | PAT => rfl

theorem uint32_int16 (x : ℤ) : (uint32 (int16 x) : ℤ)%2^13 = x%2^13 := by
  rw [uint32, int16, Int.toNat_of_nonneg (by omega), Int.bmod_def]
  split_ifs <;> omega

/-- The clock that was created is where the PMT says, and each PMT says the same. -/
structure Announced (s : TSMultiplexer) : Prop where
  clock : ∀ r ∈ s.created, hasClock r.pTSPckt = true → packetPID r.pTSPckt = s.SI.PCR.PID%2^13
  table : ∀ r ∈ s.created, r.iType = .PMT → announcedPID r.pTSPckt = s.SI.PCR.PID%2^13

/-- In a pass on the stream that has the announced PID. -/
structure Leading (s : TSMultiplexer) : Prop where
  announced : Announced s
  sized : Sized s.SI
  seen : 0 ≤ s.iRefStream
  pid : ∀ pMux, s.mMux[s.iLocalRefStream]? = some pMux → pMux.iPID%2^13 = (s.SI.PCR.PID : ℤ)%2^13

/-- The steps that create nothing. -/
theorem leading_beside (h : Leading s) (hcreated : s'.created = s.created)
    (hpid : s'.SI.PCR.PID = s.SI.PCR.PID) (hsized : Sized s'.SI) (href : s'.iRefStream = s.iRefStream)
    (hlocal : s'.iLocalRefStream = s.iLocalRefStream) (hkeeps : KeepsPIDs s s') : Leading s' := by
  constructor
  · constructor
    · rw [hcreated, hpid]
      exact h.announced.clock
    · rw [hcreated, hpid]
      exact h.announced.table
  · exact hsized
  · rw [href]
    exact h.seen
  · intro pMux' hsome
    rw [hlocal] at hsome
    obtain ⟨pMux, hmem, heq⟩ := hkeeps _ _ hsome
    rw [heq, hpid]
    exact h.pid pMux hmem

theorem front_entry {pMux : Muxx} {pPckt : MediaPacket} (h : s.front iStream = .ok (pMux, pPckt)) :
    s.mMux[iStream]? = some pMux ∧ ∃ rest, pMux.vQueue = pPckt::rest := by
  rw [TSMultiplexer.front] at h
  cases hentry : s.mMux[iStream]? with
  | none =>
    rw [hentry] at h
    cases h
  | some pMux' =>
    rw [hentry] at h
    dsimp only at h
    split at h
    · cases h
    · rename_i front rest hqueue
      cases h
      exact ⟨rfl, rest, hqueue⟩

theorem created_announced {iType : TSType} {bStart : Bool} {n : ℕ} (h : Leading s)
    (hclock : Clocked s iStream iType bPCR)
    (hrun : s.createTSPacket iStream iType bStart bPCR = .ok (n, s')) :
    ∃ r, s'.created = s.created ++ [r] ∧
      (hasClock r.pTSPckt = true → packetPID r.pTSPckt = s.SI.PCR.PID%2^13) ∧
      (r.iType = .PMT → announcedPID r.pTSPckt = s.SI.PCR.PID%2^13) := by
  obtain ⟨pMux, pPckt, hd, body, r, hfront, -, hbody, hbytes, hhd, hr, hcreated⟩ :=
    created_header h.sized hclock hrun
  refine ⟨r, hcreated, ?_, ?_⟩
  · intro hflag
    have hPCR := header_clock hhd hbytes hflag
    have hpid : s.pid iType pMux = int16 pMux.iPID := by
      rcases hclock.kind hPCR with rfl | rfl
      · rfl
      · rfl
    obtain ⟨hentry, -⟩ := front_entry hfront
    rw [hclock.stream hPCR] at hentry
    have htold := h.pid pMux hentry
    have hcut := uint32_int16 pMux.iPID
    rw [header_pid hhd hbytes, hpid]
    omega
  · intro hPMT
    rw [hr] at hPMT
    change iType = .PMT at hPMT
    subst hPMT
    exact body_announces hhd hbytes hbody

theorem leading_preserved : Preserved Leading where
  begun := fun s iStream pMux pPckt h =>
    leading_beside h rfl tick_pid (tick_sized h.sized) rfl rfl (modified_keeps (started_pid pPckt))
  created := by
    intro s s' iStream iType bStart bPCR n hclock h hrun
    obtain ⟨r, hcreated, hr, hr'⟩ := created_announced h hclock hrun
    obtain ⟨_, pPckt, _, _, _, _, _, _, _, _, _, rfl⟩ := created_cases hrun
    have hbeside : Leading (s.taken iType iStream n pPckt) := by
      apply leading_beside h _ taken_pid (taken_sized h.sized) _ (taken_local s iType iStream n pPckt) taken_keeps
      · cases iType <;> rfl
      · cases iType <;> rfl
    constructor
    · constructor
      · rw [hcreated]
        intro q hq
        rcases List.mem_append.1 hq with hq | hq
        · exact fun hflag => (h.announced.clock q hq hflag).trans (by rw [← taken_pid]; rfl)
        · rw [List.mem_singleton.1 hq]
          exact fun hflag => (hr hflag).trans (by rw [← taken_pid]; rfl)
      · rw [hcreated]
        intro q hq
        rcases List.mem_append.1 hq with hq | hq
        · exact fun hflag => (h.announced.table q hq hflag).trans (by rw [← taken_pid]; rfl)
        · rw [List.mem_singleton.1 hq]
          exact fun hflag => (hr' hflag).trans (by rw [← taken_pid]; rfl)
    · exact hbeside.sized
    · exact hbeside.seen
    · exact hbeside.pid
  advanced := by
    intro s s' iStream n h hrun
    rw [TSMultiplexer.advanced] at hrun
    obtain ⟨front, -, hrun⟩ := bind_ok.1 hrun
    split_ifs at hrun
    cases hrun
    exact leading_beside h rfl rfl h.sized rfl rfl (modified_keeps fun _ => rfl)
  popped := fun s iStream h =>
    leading_beside h rfl rfl h.sized rfl rfl (modified_keeps fun _ => rfl)

theorem leading_control {iStartDts : ℤ} {r : ℤ × TSMultiplexer} (h : Leading s)
    (hrun : s.control iStartDts = .ok r) : Leading r.2 := by
  obtain ⟨-, hcreated, hSI, href, hlocal⟩ := control_cases hrun
  refine leading_beside h hcreated ?_ ?_ href hlocal (control_keeps hrun)
  · rw [hSI]
    rfl
  · rw [hSI]
    exact tables_sized h.sized fun _ => rfl

/-! ## Runs -/

/-- Before there is a reference stream nothing was created. -/
structure AnnouncedAlways (s : TSMultiplexer) : Prop where
  sized : 0 ≤ s.iRefStream → Sized s.SI
  unseen : s.iRefStream < 0 → s.created = []
  announced : Announced s

/-- Does a pass, if there is one now, start on a stream that has the announced PID? -/
def leads (s : TSMultiplexer) : Bool :=
  if s.toMultiplexer.checkMux then
    match s.referred with
    | .error _ => true
    | .ok t =>
      match t.toMultiplexer.selectMux with
      | .error _ => true
      | .ok iStream => t.mMux[iStream]?.all fun pMux => pMux.iPID%2^13 = (t.SI.PCR.PID : ℤ)%2^13
  else true

/-- Each pass of a run starts so. -/
def Led : List Event → TSMultiplexer → Bool
  | [], _ => true
  | .receive pckt::events, s => Led events (s.receive pckt)
  | .process fuel::events, s =>
    leads s && match s.process fuel with
      | .error _ => true
      | .ok s' => Led events s'

theorem referred_announced {t : TSMultiplexer} (h : AnnouncedAlways s) (hrun : s.referred = .ok t) :
    0 ≤ t.iRefStream ∧ Sized t.SI ∧ Announced t := by
  rw [TSMultiplexer.referred] at hrun
  by_cases hnone : s.iRefStream < 0
  · rw [if_pos hnone] at hrun
    obtain ⟨r, iSize, hall, href, rfl⟩ := findRefStream_cases hrun
    have hcreated : r.1.created = [] :=
      referAll_kept (P := fun t => t.created = [])
        (fun t i pPckt ht => (refer_created t i pPckt).trans ht) (h.unseen hnone) hall
    refine ⟨href, ⟨rfl, rfl, rfl, rfl⟩, ?_, ?_⟩
    · intro q hq
      change q ∈ r.1.created at hq
      rw [hcreated] at hq
      cases hq
    · intro q hq
      change q ∈ r.1.created at hq
      rw [hcreated] at hq
      cases hq
  · rw [if_neg hnone] at hrun
    cases hrun
    exact ⟨by omega, h.sized (by omega), h.announced⟩

theorem process_announced {fuel : ℕ} (h : AnnouncedAlways s) (hleads : leads s = true)
    (hrun : s.process fuel = .ok s') : AnnouncedAlways s' := by
  rcases process_cases hrun with rfl | ⟨t, i, iStartDts, r, hready, hreferred, hselect, -, hpass, hsend⟩
  · exact h
  · obtain ⟨href, hsized, hannounced⟩ := referred_announced h hreferred
    rw [leads, if_pos hready, hreferred] at hleads
    dsimp only at hleads
    rw [hselect] at hleads
    dsimp only at hleads
    have hstart : Leading (t.selected i) := by
      refine ⟨⟨hannounced.clock, hannounced.table⟩, hsized, href, ?_⟩
      intro pMux hsome
      change t.mMux[i]? = some pMux at hsome
      rw [hsome] at hleads
      exact of_decide_eq_true hleads
    have hend : Leading r.2 := pass_preserved leading_preserved
      (fun _ _ _ hs hone => leading_control hs hone) hstart hpass
    constructor
    · intro _
      rw [hsend.SI]
      exact hend.sized
    · intro hnone
      rw [hsend.iRefStream] at hnone
      have hseen := hend.seen
      omega
    · constructor
      · rw [hsend.created, hsend.SI]
        exact hend.announced.clock
      · rw [hsend.created, hsend.SI]
        exact hend.announced.table

theorem led_announced {events : List Event} (h : AnnouncedAlways s) (hled : Led events s = true)
    (hrun : runFrom events s = .ok s') : AnnouncedAlways s' := by
  induction events generalizing s with
  | nil =>
    cases hrun
    exact h
  | cons a events ih =>
    rw [runFrom] at hrun
    obtain ⟨t, hone, hmore⟩ := bind_ok.1 hrun
    cases a with
    | receive pckt =>
      cases hone
      rw [Led] at hled
      exact ih (s := s.receive pckt) ⟨h.sized, h.unseen, h.announced.clock, h.announced.table⟩ hled hmore
    | process fuel =>
      rw [Led, Bool.and_eq_true] at hled
      change s.process fuel = .ok t at hone
      have hrest := hled.2
      rw [hone] at hrest
      exact ih (process_announced h hled.1 hone) hrest hmore

/-- In a run whose passes all start on the stream with the announced PID, the clock is on the PID
that the PMTs of the run announce. -/
theorem clock_where_announced (streamID : ℤ) (o : Settings) (events : List Event)
    (hled : Led events (TSMultiplexer.init streamID o) = true) :
    (createdIn (run streamID o events)).Forall fun r => hasClock r.pTSPckt = true →
      (createdIn (run streamID o events)).Forall fun q => q.iType = .PMT →
        packetPID r.pTSPckt = announcedPID q.pTSPckt := by
  cases hrun : run streamID o events with
  | error e => trivial
  | ok s =>
    have hinit : AnnouncedAlways (TSMultiplexer.init streamID o) := by
      refine ⟨fun h => absurd (show (0 : ℤ) ≤ -1 from h) (by decide), fun _ => rfl, ?_, ?_⟩
      · intro r hr
        cases hr
      · intro r hr
        cases hr
    have hs := (led_announced hinit hled hrun).announced
    rw [List.forall_iff_forall_mem]
    intro r hr hflag
    rw [List.forall_iff_forall_mem]
    intro q hq hPMT
    rw [hs.clock r hr hflag, hs.table q hq hPMT]

/-- One packet of video and one of audio, and the end of both. -/
def twoStreams (iVideo iAudio : ℤ) : List Event :=
  let video := { MediaPacket.new .media .video 100 with
    codec := .avc, desc := some ⟨.video, .avc, 320, 240, 0, 0, 0, []⟩, bytes := List.replicate 100 0, dts := iVideo }
  let audio := { MediaPacket.new .media .audio 100 with
    codec := .mp4a, desc := some ⟨.audio, .mp4a, 0, 0, 0, 48000, 2, []⟩, bytes := List.replicate 100 0, dts := iAudio, xstream := 1 }
  [.receive video, .receive audio, .receive (MediaPacket.new .end .video 0),
    .receive { MediaPacket.new .end .audio 0 with xstream := 1 }, .process 9]

theorem clock_where_announced_video :
    (createdIn (run 0 Settings.default (twoStreams 0 900))).Forall fun r => hasClock r.pTSPckt = true →
      (createdIn (run 0 Settings.default (twoStreams 0 900))).Forall fun q => q.iType = .PMT →
        packetPID r.pTSPckt = announcedPID q.pTSPckt :=
  clock_where_announced 0 Settings.default (twoStreams 0 900) (by decide +kernel)

/-- When the audio is ahead the clock is on its PID, and the PMT has that of the video. -/
theorem clock_elsewhere :
    ((createdIn (run 0 Settings.default (twoStreams 900 0))).any fun r =>
      hasClock r.pTSPckt && packetPID r.pTSPckt == 0x101) = true ∧
    ((createdIn (run 0 Settings.default (twoStreams 900 0))).any fun q =>
      decide (q.iType = .PMT) && announcedPID q.pTSPckt == 0x100) = true := by
  decide +kernel

end Sirannon.TSMultiplexing
