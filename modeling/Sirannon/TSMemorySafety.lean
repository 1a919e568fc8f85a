import Sirannon.TSTables

/-!
# Memory of the TS demultiplexer

Whatever packets arrive, the memory outside a packet is left alone exactly as
long as every adaptation field fits its packet and every table its slice.
-/

set_option autoImplicit false

namespace Sirannon.Demultiplexing
open Bits BitString ByteMemory Media StateError Std

/-- A payload of 0 to 184 bytes; a table read inside its slice; a copy out of the packet and into
the buffer of the stream. -/
def Access.Safe : Access → Prop
  | .payload iPayload => 0 ≤ iPayload ∧ iPayload ≤ 184
  | .table iSize iRead => (iRead : ℤ) ≤ iSize
  | .copy iFrom iPos iSize =>
      4 ≤ iFrom ∧ 0 ≤ iSize ∧ iFrom+iSize ≤ 188 ∧ iPos+iSize ≤ iMaxFrame

def AllSafe (as : List Access) : Prop := ∀ a ∈ as, a.Safe

/-- The packet passes the check of its counter. -/
def Accepted (s : TSDemultiplexer) (h : TSHeader) : Prop :=
  h.iSyntax = 0x47 ∧ ∃ last bSkip, s.mCC[h.iPID]? = some last ∧
    (syncCC last h.bStart h.iCC).2 = some bSkip

/-- A payload that is parsed as a table holds all that is looked at. -/
def TableInside (s : TSDemultiplexer) (pData : Memory) (iPID iAdapation : ℕ) : Prop :=
  if iPID = 0 then PATInside s.iID (payload pData iAdapation) (payloadSize iAdapation)
  else ∀ pPMT ∈ s.mChannels[iPID]?,
    PMTInside pPMT.iChannel (payload pData iAdapation) (payloadSize iAdapation)

/-- An accepted packet has an adaptation field that fits and, if any, a table that lies inside its
payload. -/
def Tame (s : TSDemultiplexer) (pData : Memory) : Prop :=
  let h := (tsHeader pData).1
  let iAdapation := adapation h.iField (tsHeader pData).2
  Accepted s h → iAdapation ≤ 184 ∧ TableInside s pData h.iPID iAdapation

inductive Input
  | packet (pData : Memory)
  | ended (pckt : MediaPacket)

def input : Input → Demux Unit
  | .packet pData => TSDemultiplexer.parseTS pData
  | .ended pckt => TSDemultiplexer.receive_end pckt

/-- The state after all inputs, whatever they returned or threw. -/
def feed (s : TSDemultiplexer) : List Input → TSDemultiplexer
  | [] => s
  | i::is => feed (after ((input i).run s)) is

/-- Every packet is tame when it arrives. -/
def AllTame (s : TSDemultiplexer) : List Input → Prop
  | [] => True
  | i::is => (∀ pData, i = .packet pData → Tame s pData) ∧ AllTame (after ((input i).run s)) is

theorem allSafe_nil : AllSafe [] := by simp [AllSafe]

theorem allSafe_append (as bs : List Access) :
    AllSafe (as ++ bs) ↔ AllSafe as ∧ AllSafe bs := List.forall_mem_append

/-! ## Where accesses come from -/

theorem addChannel_accesses (s : TSDemultiplexer) (iChannel iPID : ℕ) :
    (s.addChannel iChannel iPID).accesses = s.accesses := by
  rw [TSDemultiplexer.addChannel]
  split_ifs <;> rfl

theorem parseChannels_accesses (fuel iLength : ℕ) (r : Reader) (s : TSDemultiplexer) :
    (parseChannels fuel iLength r s).2.accesses = s.accesses := by
  induction fuel generalizing iLength r s with
  | zero => rfl
  | succ fuel ih =>
    rw [parseChannels]
    by_cases hmore : 4 < iLength
    · rw [if_pos hmore]
      rcases r.read 16 with ⟨iChannel, r₁⟩
      rcases h₂ : r₁.read 3 with ⟨iSyntax, r₂⟩
      rcases h₃ : r₂.read 13 with ⟨iPID, r₃⟩
      simp only [h₂, h₃]
      by_cases hmark : iSyntax ≠ 0x07
      · rw [if_pos hmark]
      · rw [if_neg hmark, ih, addChannel_accesses]
    · rw [if_neg hmore]

theorem setID_accesses (s : TSDemultiplexer) (iID : ℕ) :
    (s.setID iID).accesses = s.accesses := by
  rw [TSDemultiplexer.setID]
  split_ifs <;> rfl

theorem parsePAT_accesses (s : TSDemultiplexer) (buf : Memory) (n : ℤ) :
    (s.parsePAT buf n).2.accesses = s.accesses := by
  unfold TSDemultiplexer.parsePAT
  repeat' split
  all_goals simp only [apply_ite Prod.snd, apply_ite TSDemultiplexer.accesses,
    parseChannels_accesses, setID_accesses, ite_self]

theorem addStream_accesses (s : TSDemultiplexer) (iPMT iStream iPID : ℕ) :
    (s.addStream iPMT iStream iPID).accesses = s.accesses := by
  rw [TSDemultiplexer.addStream]
  split_ifs
  · rfl
  · cases s.mChannels[iPMT]? with
    | none => rfl
    | some pPMT =>
      dsimp only
      split_ifs
      · rfl
      · rw [TSDemultiplexer.createStream]
        split_ifs <;> rfl

theorem parseStreams_accesses (iPMT fuel : ℕ) (iLength : ℤ) (r : Reader) (s : TSDemultiplexer) :
    (parseStreams iPMT fuel iLength r s).2.accesses = s.accesses := by
  induction fuel generalizing iLength r s with
  | zero => rfl
  | succ fuel ih =>
    rw [parseStreams]
    by_cases hmore : 4 < iLength
    · rw [if_pos hmore]
      rcases r.read 8 with ⟨iStream, r₁⟩
      rcases h₂ : r₁.read 3 with ⟨iSyntax, r₂⟩
      rcases h₃ : r₂.read 13 with ⟨iPID, r₃⟩
      rcases h₄ : r₃.read 6 with ⟨iSyntax', r₄⟩
      rcases h₅ : r₄.read 10 with ⟨iInfo, r₅⟩
      simp only [h₂, h₃, h₄, h₅]
      by_cases hmark : iSyntax ≠ 0x07
      · rw [if_pos hmark]
      · rw [if_neg hmark]
        by_cases hinfo : iSyntax' ≠ 0x3C
        · rw [if_pos hinfo]
        · rw [if_neg hinfo, ih, addStream_accesses]
    · rw [if_neg hmore]

theorem parsePMT_accesses (s : TSDemultiplexer) (buf : Memory) (n : ℤ) (iPMT : ℕ) (pPMT : PMT) :
    (s.parsePMT buf n iPMT pPMT).2.accesses = s.accesses := by
  unfold TSDemultiplexer.parsePMT
  repeat' split
  all_goals simp only [parseStreams_accesses, TSDemultiplexer.setPMT]

theorem releaseStream_accesses (s : TSDemultiplexer) (iPID : ℕ) (bNew bSkip : Bool) :
    (after ((TSDemultiplexer.releaseStream iPID bNew bSkip).run s)).accesses = s.accesses := by
  rw [TSDemultiplexer.releaseStream, run_get_bind]
  cases s.mStreams[iPID]? with
  | none => rfl
  | some pStream =>
    dsimp only
    by_cases h : bNew ∧ pStream.iPos ≠ 0
    · rw [if_pos h]
      cases pStream.release bSkip <;> rfl
    · rw [if_neg h]
      rfl

/-- At most one copy is made, of the payload handed over. -/
theorem append_accesses (s : TSDemultiplexer) (iPID : ℕ) (pData : Memory) (iFrom : ℕ)
    (iSize : ℤ) : ∃ as, (after ((TSDemultiplexer.append iPID pData iFrom iSize).run s)).accesses =
        s.accesses ++ as ∧
      ∀ a ∈ as, ∃ iPos : ℕ, a = .copy iFrom iPos iSize ∧ iPos+iSize ≤ iMaxFrame := by
  rw [TSDemultiplexer.append, run_get_bind]
  cases s.mStreams[iPID]? with
  | none => exact ⟨[], by simp [after], by simp⟩
  | some pStream =>
    dsimp only
    by_cases h : (iMaxFrame : ℤ) < pStream.iPos+iSize
    · rw [if_pos h]
      exact ⟨[], by simp [after], by simp⟩
    · rw [if_neg h]
      refine ⟨[.copy iFrom pStream.iPos iSize], ?_, ?_⟩
      · by_cases hneg : iSize < 0
        · rw [if_pos hneg]
          rfl
        · rw [if_neg hneg]
          rfl
      · intro a ha
        exact ⟨pStream.iPos, List.mem_singleton.mp ha, by omega⟩

theorem parsePKT_accesses (s : TSDemultiplexer) (iPID : ℕ) (pData : Memory) (iFrom : ℕ)
    (iSize : ℤ) (bNew bSkip : Bool) :
    ∃ as, (after ((TSDemultiplexer.parsePKT iPID pData iFrom iSize bNew bSkip).run s)).accesses =
        s.accesses ++ as ∧
      ∀ a ∈ as, ∃ iPos : ℕ, a = .copy iFrom iPos iSize ∧ iPos+iSize ≤ iMaxFrame := by
  have hrelease := releaseStream_accesses s iPID bNew bSkip
  rw [TSDemultiplexer.parsePKT]
  cases hrun : (TSDemultiplexer.releaseStream iPID bNew bSkip).run s with
  | error e t =>
    rw [hrun] at hrelease
    rw [run_bind_of_error hrun]
    exact ⟨[], by simpa [after] using hrelease, by simp⟩
  | ok a t =>
    rw [hrun] at hrelease
    rw [run_bind_of_ok hrun]
    have hsame : t.accesses = s.accesses := hrelease
    rw [← hsame]
    exact append_accesses t iPID pData iFrom iSize

/-! ## One packet -/

variable {s : TSDemultiplexer} {pData : Memory}

theorem payload_safe (iAdapation : ℕ) :
    (Access.payload (payloadSize iAdapation)).Safe ↔ iAdapation ≤ 184 := by
  rw [Access.Safe, payloadSize]
  omega

theorem copies_safe {as : List Access} {iAdapation : ℕ} (h : iAdapation ≤ 184)
    (has : ∀ a ∈ as, ∃ iPos : ℕ, a = .copy (4+iAdapation) iPos (payloadSize iAdapation) ∧
      iPos+payloadSize iAdapation ≤ iMaxFrame) : AllSafe as := by
  intro a ha
  rcases has a ha with ⟨iPos, rfl, hroom⟩
  rw [payloadSize] at hroom
  rw [Access.Safe, payloadSize]
  refine ⟨by omega, by omega, ?_, hroom⟩
  push_cast
  omega

theorem table_safe {iAdapation iRead : ℕ} :
    AllSafe [.table (payloadSize iAdapation) iRead] ↔ (iRead : ℤ) ≤ payloadSize iAdapation := by
  simp [AllSafe, Access.Safe]

/-- What is done with a payload that fits its packet is safe if a table lies inside it. -/
theorem dispatch_accesses (iPID iAdapation : ℕ) (bStart bSkip : Bool) :
    ∃ as, (after ((TSDemultiplexer.dispatch pData iPID iAdapation bStart bSkip).run s)).accesses =
        s.accesses ++ as ∧
      (iAdapation ≤ 184 → (AllSafe as ↔ TableInside s pData iPID iAdapation)) := by
  rw [TSDemultiplexer.dispatch, run_get_bind, TableInside]
  by_cases hPAT : iPID = 0
  · rw [if_pos hPAT, if_pos hPAT]
    have hsame := parsePAT_accesses s (payload pData iAdapation) (payloadSize iAdapation)
    have hextent := parsePAT_extent s (payload pData iAdapation) (payloadSize iAdapation)
    rcases hparse : s.parsePAT (payload pData iAdapation) (payloadSize iAdapation) with ⟨r, t⟩
    rw [hparse] at hsame hextent
    refine ⟨[.table (payloadSize iAdapation) r.extent], ?_, ?_⟩
    · exact congrArg (· ++ [Access.table (payloadSize iAdapation) r.extent]) hsame
    · intro _
      rw [table_safe, ← hextent]
  · rw [if_neg hPAT, if_neg hPAT]
    cases hchannel : s.mChannels[iPID]? with
    | some pPMT =>
      have hsame := parsePMT_accesses s (payload pData iAdapation) (payloadSize iAdapation) iPID
        pPMT
      have hextent := parsePMT_extent s (payload pData iAdapation) (payloadSize iAdapation) iPID
        pPMT
      simp only [Option.mem_def, Option.some.injEq, forall_eq']
      rcases hparse : s.parsePMT (payload pData iAdapation) (payloadSize iAdapation) iPID pPMT with
        ⟨r, t⟩
      rw [hparse] at hsame hextent
      refine ⟨[.table (payloadSize iAdapation) r.extent], ?_, ?_⟩
      · exact congrArg (· ++ [Access.table (payloadSize iAdapation) r.extent]) hsame
      · intro _
        rw [table_safe, ← hextent]
    | none =>
      dsimp only
      by_cases hstream : iPID ∈ s.mStreams
      · rw [if_pos hstream]
        rcases parsePKT_accesses s iPID pData (4+iAdapation) (payloadSize iAdapation) bStart bSkip
          with ⟨as, hrun, has⟩
        refine ⟨as, hrun, ?_⟩
        intro h
        simp [copies_safe h has]
      · rw [if_neg hstream]
        exact ⟨[], by simp [after], by simp [AllSafe]⟩

theorem table_logged (a : Access) (iPID iAdapation : ℕ) :
    TableInside (s.logged a) pData iPID iAdapation ↔ TableInside s pData iPID iAdapation := Iff.rfl

theorem parsePayload_accesses (iPID iAdapation : ℕ) (bStart bSkip : Bool) :
    ∃ as, (after ((TSDemultiplexer.parsePayload pData iPID iAdapation bStart bSkip).run
        s)).accesses = s.accesses ++ .payload (payloadSize iAdapation)::as ∧
      (iAdapation ≤ 184 → (AllSafe as ↔ TableInside s pData iPID iAdapation)) := by
  rcases @dispatch_accesses (s.logged (.payload (payloadSize iAdapation))) pData
    iPID iAdapation bStart bSkip with ⟨as, hrun, has⟩
  refine ⟨as, ?_, ?_⟩
  · rw [TSDemultiplexer.parsePayload, run_modify_bind, hrun, TSDemultiplexer.logged,
      List.append_assoc]
    rfl
  · intro h
    rw [has h, table_logged]

/-- A packet is handled safely exactly when it is tame. -/
theorem parseTS_accesses (s : TSDemultiplexer) (pData : Memory) :
    ∃ as, (after ((TSDemultiplexer.parseTS pData).run s)).accesses = s.accesses ++ as ∧
      (AllSafe as ↔ Tame s pData) := by
  have hnone : ∀ t : TSDemultiplexer, t.accesses = s.accesses →
      ¬ Accepted s (tsHeader pData).1 → ∃ as, t.accesses = s.accesses ++ as ∧
        (AllSafe as ↔ Tame s pData) := by
    intro t ht hnot
    refine ⟨[], by rw [ht, List.append_nil], ?_⟩
    simp [allSafe_nil, Tame, hnot]
  rw [TSDemultiplexer.parseTS]
  rcases hheader : tsHeader pData with ⟨h, b⟩
  rw [hheader] at hnone
  dsimp only
  by_cases hsync : h.iSyntax = 0x47
  swap
  · rw [if_pos hsync]
    exact hnone s rfl fun hacc => hsync hacc.1
  rw [if_neg (not_not.mpr hsync), run_get_bind]
  cases hlast : s.mCC[h.iPID]? with
  | none =>
    apply hnone s rfl
    rintro ⟨-, last, bSkip, hlast', -⟩
    rw [hlast] at hlast'
    cases hlast'
  | some last =>
    dsimp only
    rcases hcc : syncCC last h.bStart h.iCC with ⟨cc, bTake⟩
    cases bTake with
    | none =>
      apply hnone _ rfl
      rintro ⟨-, last', bSkip, hlast', htake⟩
      rw [hlast, Option.some.injEq] at hlast'
      rw [← hlast', hcc] at htake
      cases htake
    | some bSkip =>
      have hacc : Accepted s h := ⟨hsync, last, bSkip, hlast, by rw [hcc]⟩
      rcases @parsePayload_accesses { s with mCC := s.mCC.insert h.iPID cc } pData h.iPID
        (adapation h.iField b) h.bStart bSkip with ⟨as, hrun, has⟩
      refine ⟨_, hrun, ?_⟩
      rw [AllSafe, List.forall_mem_cons, payload_safe, ← AllSafe, Tame, hheader]
      constructor
      · rintro ⟨hfits, hall⟩ -
        exact ⟨hfits, (has hfits).mp hall⟩
      · intro htame
        rcases htame hacc with ⟨hfits, hinside⟩
        exact ⟨hfits, (has hfits).mpr hinside⟩

/-! ## Whole runs -/

/-- The record of accesses stays as it is. -/
def Unlogged (s t : TSDemultiplexer) : Prop := t.accesses = s.accesses

instance : IsPreorder TSDemultiplexer Unlogged where
  refl _ := rfl
  trans _ _ _ h h' := Eq.trans h' h

theorem endStream_accesses (oType : PacketType) (iPID : ℕ) :
    Along Unlogged (TSDemultiplexer.endStream oType iPID) := by
  apply along_bind
  · intro s
    exact releaseStream_accesses s iPID true true
  · intro _ s
    rw [run_get_bind]
    cases s.mStreams[iPID]? <;> rfl

theorem receive_end_accesses (pckt : MediaPacket) :
    Along Unlogged (TSDemultiplexer.receive_end pckt) := by
  intro s
  rw [TSDemultiplexer.receive_end, run_get_bind]
  by_cases h : s.mStreams.isEmpty
  · rw [if_pos h]
    rfl
  · rw [if_neg h]
    exact along_forM s.mStreams.keys (endStream_accesses pckt.type) s

theorem feed_accesses (s : TSDemultiplexer) (is : List Input) :
    ∃ as, (feed s is).accesses = s.accesses ++ as ∧ (AllSafe as ↔ AllTame s is) := by
  induction is generalizing s with
  | nil => exact ⟨[], by rw [feed, List.append_nil], by simp [allSafe_nil, AllTame]⟩
  | cons i is ih =>
    rcases ih (after ((input i).run s)) with ⟨bs, hrest, hbs⟩
    have hstep : ∃ as, (after ((input i).run s)).accesses = s.accesses ++ as ∧
        (AllSafe as ↔ ∀ pData, i = .packet pData → Tame s pData) := by
      cases i with
      | packet pData =>
        rcases parseTS_accesses s pData with ⟨as, has, hsafe⟩
        exact ⟨as, has, by simpa using hsafe⟩
      | ended pckt =>
        have hsame : (after ((TSDemultiplexer.receive_end pckt).run s)).accesses = s.accesses :=
          receive_end_accesses pckt s
        exact ⟨[], by rw [input, hsame, List.append_nil], by simp [allSafe_nil]⟩
    rcases hstep with ⟨as, has, hsafe⟩
    refine ⟨as ++ bs, ?_, ?_⟩
    · rw [feed, hrest, has, List.append_assoc]
    · rw [allSafe_append, hsafe, hbs, AllTame]

/-- A run keeps to the memory it may use exactly when every packet is tame when it arrives. -/
theorem memory_safe_iff (channel videoRoute audioRoute iStreamID : ℤ) (is : List Input) :
    AllSafe (feed (TSDemultiplexer.init channel videoRoute audioRoute iStreamID) is).accesses ↔
      AllTame (TSDemultiplexer.init channel videoRoute audioRoute iStreamID) is := by
  rcases feed_accesses (TSDemultiplexer.init channel videoRoute audioRoute iStreamID) is with
    ⟨as, has, hsafe⟩
  have hempty : (TSDemultiplexer.init channel videoRoute audioRoute iStreamID).accesses = [] := rfl
  rw [has, hempty, List.nil_append]
  exact hsafe

instance decidableSafe : ∀ a : Access, Decidable a.Safe
  | .payload iPayload => inferInstanceAs (Decidable (0 ≤ iPayload ∧ iPayload ≤ 184))
  | .table iSize iRead => inferInstanceAs (Decidable ((iRead : ℤ) ≤ iSize))
  | .copy iFrom iPos iSize => inferInstanceAs (Decidable (4 ≤ iFrom ∧ 0 ≤ iSize ∧
      iFrom+iSize ≤ 188 ∧ iPos+iSize ≤ iMaxFrame))

/-- A packet on PID 0 with an adaptation field of 256 bytes. -/
def longAdapation : Memory := memory [0x47, 0x40, 0x00, 0x30, 0xFF]

/-- A packet on PID 0 whose table is 192 bytes long. -/
def longSection : Memory := fun i =>
  if i < 17 then memory [0x47, 0x40, 0x00, 0x10, 0, 0, 0xB0, 0xC0, 0, 0, 0xC1, 0, 0, 0, 0, 0xE0, 0] i
  else memory [0, 0, 0xE0, 0] ((i-13)%4)

/-- A long adaptation field leaves a negative payload; a long table is read behind its packet. -/
theorem memory_exceeded :
    ¬ AllSafe (feed (TSDemultiplexer.init (-1) 100 200 3) [.packet longAdapation]).accesses ∧
    (feed (TSDemultiplexer.init (-1) 100 200 3) [.packet longAdapation]).accesses =
      [.payload (-72), .table (-72) 3] ∧
    ¬ AllSafe (feed (TSDemultiplexer.init (-1) 100 200 3) [.packet longSection]).accesses ∧
    (feed (TSDemultiplexer.init (-1) 100 200 3) [.packet longSection]).accesses =
      [.payload 184, .table 184 197] := by
  have hadapation : (feed (TSDemultiplexer.init (-1) 100 200 3) [.packet longAdapation]).accesses =
      [.payload (-72), .table (-72) 3] := by decide +kernel
  have hsection : (feed (TSDemultiplexer.init (-1) 100 200 3) [.packet longSection]).accesses =
      [.payload 184, .table 184 197] := by decide +kernel
  rw [hadapation, hsection]
  refine ⟨?_, rfl, ?_, rfl⟩
  · intro h
    have hpayload := h (.payload (-72)) (by simp)
    revert hpayload
    decide
  · intro h
    have htable := h (.table 184 197) (by simp)
    revert htable
    decide

end Sirannon.Demultiplexing
