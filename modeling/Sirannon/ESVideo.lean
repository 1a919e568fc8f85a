import Sirannon.AVCReader
import Sirannon.MP4Video

/-!
# NAL units behind start codes

A stream of NAL units is taken apart into packets with start codes, by the
lengths in front of the units or by the start codes that are there already. What
type a unit has is read as if a start code could stand at its begin, and slices
are looked into.
-/

set_option autoImplicit false

namespace Sirannon.ESVideo
open ByteMemory Bits BitString Media MachineInt H264 VideoExtra MP4Video
open Reader (Surroundings H264FrameToXFrame)

structure Descriptor where
  lengthSize : ℤ
  extra_data : Bytes

/-- The type of the last slice is kept as an unsigned number. -/
structure MP4MediaConverter where
  vSPS : List MediaPacket
  vPPS : List MediaPacket
  bFixPTS : Bool
  oNAL : NAL_t
  iParsed : ℕ
  iUnit : ℤ
  iSub : ℤ
  bExtract : Bool
  bAddParameterSets : Bool
  iSlice : ℕ
  oBuffer : List MediaPacket

variable (w : Surroundings) (behind : Memory) (o : Skips) (d : Descriptor)

/-! ## One unit -/

/-- Where a unit begins, how long it is, and whether its code is a short one. -/
structure Header where
  iSkip : ℕ
  iFrameSize : ℤ
  bShort : Bool

def Descriptor.header (m : Memory) (iSize : ℤ) : Header :=
  if d.lengthSize ≤ 0 then
    let iHeader := H264_is_start_code m
    ⟨iHeader, AnnexB.H264_find_NAL m iSize.toNat-iHeader, iHeader = 3⟩
  else
    let oHeader := IBits.new m d.lengthSize.toNat
    ⟨d.lengthSize.toNat, int32 (oHeader.read (d.lengthSize.toNat*8)).1, false⟩

def isSlice (iNAL : ℕ) : Bool :=
  iNAL ∈ [NAL_UNIT_TYPE_SLICE_DP_A, NAL_UNIT_TYPE_SLICE_NON_IDR, NAL_UNIT_TYPE_SLICE_SVC,
    NAL_UNIT_TYPE_SLICE_IDR]

/-- The first number of a slice is skipped, the second is its type. -/
def readSlice (m : Memory) (iFrameSize iNAL iSlice : ℕ) : Except SirannonException ℕ :=
  if isSlice iNAL then do
    let first ← ((IBits.new m iFrameSize).seek 1).read_uev
    let second ← first.2.read_uev
    pure second.1
  else pure iSlice

namespace MP4MediaConverter

def aside (s : MP4MediaConverter) (iNAL : ℕ) (pPckt : MediaPacket) : MP4MediaConverter :=
  let s := if s.bExtract then s else { s with vSPS := [], vPPS := [] }
  if iNAL = NAL_UNIT_TYPE_PPS then { s with bExtract := true, vPPS := s.vPPS ++ [pPckt] }
  else { s with bExtract := true, vSPS := s.vSPS ++ [pPckt] }

def parse (s : MP4MediaConverter) (bs : Bytes) : Except SirannonException MP4MediaConverter := do
  let r ← w.parse s.iParsed s.oNAL bs
  pure { s with oNAL := r.2, iParsed := s.iParsed+1 }

def copied (s : MP4MediaConverter) (pPckt : MediaPacket) (frame : FrameType) (pParam : MediaPacket) :
    MediaPacket :=
  { pParam.set_metadata pPckt with
    framestart := s.iSub = 0
    frameend := false
    frame := frame
    unitnumber := s.iUnit
    subframenumber := s.iSub
    mux := .ES }

def inserted (pPckt : MediaPacket) (frame : FrameType) (s : MP4MediaConverter) (pParam : MediaPacket) :
    MP4MediaConverter :=
  { s with
    iUnit := s.iUnit+1
    iSub := s.iSub+1
    oBuffer := s.oBuffer ++ [s.copied pPckt frame pParam] }

/-- The first packet is parsed. -/
def fixPTS (s : MP4MediaConverter) : List MediaPacket → Except SirannonException MP4MediaConverter
  | [] => pure s
  | pPckt::_ => if s.bFixPTS then s.parse w pPckt.bytes else pure s

def insertParameterSets (s : MP4MediaConverter) (pPckt : MediaPacket) :
    Except SirannonException MP4MediaConverter := do
  let s ← s.fixPTS w s.vSPS
  pure (s.vPPS.foldl (inserted pPckt .PPS) (s.vSPS.foldl (inserted pPckt .SPS) s))

def extracted (s : MP4MediaConverter) : Except SirannonException MP4MediaConverter :=
  if d.extra_data ≠ [] then do
    let r ← extractParameterSets behind d.extra_data
    pure { s with vSPS := r.1, vPPS := r.2.1 }
  else pure s

/-- Parameter sets are inserted once, in front of the first IDR. -/
def insert (s : MP4MediaConverter) (pPckt : MediaPacket) : Except SirannonException MP4MediaConverter :=
  if pPckt.frame = .IDR ∧ s.bAddParameterSets then do
    let s ← s.extracted behind d
    let s ← s.insertParameterSets w pPckt
    pure { s with bAddParameterSets := false }
  else pure s

def push (s : MP4MediaConverter) (pPckt : MediaPacket) : Except SirannonException MP4MediaConverter := do
  let s ← s.insert w behind d pPckt
  let s ← s.fixPTS w [pPckt]
  pure { s with oBuffer := s.oBuffer ++ [pPckt] }

def unit (m : Memory) (iFrameSize : ℕ) (bShort : Bool) (s : MP4MediaConverter) :
    Except SirannonException MP4MediaConverter := do
  let pPckt ← { MediaPacket.new .media .video (iFrameSize+4) with mux := .ES }.push_back (startCode bShort)
  let pPckt ← pPckt.push_back (load m 0 iFrameSize)
  let iNAL := H264_NAL_type m
  if isParameterSet iNAL then
    pure (s.aside iNAL { pPckt with frame := H264FrameToXFrame iNAL s.iSlice })
  else if o.drops iNAL then pure s
  else do
    let iSlice ← readSlice m iFrameSize iNAL s.iSlice
    push w behind d { s with iSlice := iSlice } { pPckt with frame := H264FrameToXFrame iNAL iSlice }

/-! ## A whole stream -/

/-- Every turn gets ahead. -/
def turns : ℕ → Memory → ℤ → MP4MediaConverter → Except SirannonException MP4MediaConverter
  | 0, _, _, s => .ok s
  | fuel+1, m, iSize, s =>
    if iSize ≤ 0 then .ok s
    else
      let h := d.header m iSize
      if h.iFrameSize < 0 then .error (undefinedBehaviour "packet of a negative size")
      else do
        let s ← unit w behind o d (shift m h.iSkip) h.iFrameSize.toNat h.bShort s
        turns fuel (shift m (h.iSkip+h.iFrameSize.toNat)) (iSize-h.iSkip-h.iFrameSize) s

def start (s : MP4MediaConverter) (bAddParameterSets : Bool) : MP4MediaConverter :=
  { s with iSub := 0, bExtract := false, bAddParameterSets := bAddParameterSets, iSlice := 2^32-1 }

def convertESVideo (pData : Memory) (iSize : ℤ) (bAddParameterSets : Bool) (s : MP4MediaConverter) :
    Except SirannonException MP4MediaConverter :=
  turns w behind o d iSize.toNat pData iSize (s.start bAddParameterSets)

end MP4MediaConverter

/-! ## What the parser goes through -/

/-- The parser, which counts its calls, on one unit after the other. -/
def parseAll : List Bytes → NAL_t × ℕ → Except SirannonException (NAL_t × ℕ)
  | [], p => .ok p
  | bs::rest, p => do
    let r ← w.parse p.2 p.1 bs
    parseAll rest (r.2, p.2+1)

namespace MP4MediaConverter

def parser (s : MP4MediaConverter) : NAL_t × ℕ := (s.oNAL, s.iParsed)

def parsed (s : MP4MediaConverter) (p : NAL_t × ℕ) : MP4MediaConverter :=
  { s with oNAL := p.1, iParsed := p.2 }

/-- The first of the sets that would be inserted. -/
def sets (s : MP4MediaConverter) : List MediaPacket :=
  if d.extra_data ≠ [] then
    match extractParameterSets behind d.extra_data with
    | .ok r => r.1
    | .error _ => []
  else s.vSPS

def awaited (s : MP4MediaConverter) : List Bytes :=
  if s.bAddParameterSets then ((s.sets behind d).take 1).map MediaPacket.bytes else []

/-- What is parsed on the occasion of a unit. -/
def texts (bFixPTS : Bool) (awaited : List Bytes) (iNAL : ℕ) (u : Bytes) : List Bytes :=
  if bFixPTS then (if iNAL = NAL_UNIT_TYPE_SLICE_IDR then awaited else []) ++ [startCode false ++ u] else []

end MP4MediaConverter

open MP4MediaConverter

/-- Units behind their lengths that are read as what they are: they are kept where they stand, the
start of each slice is in its unit, and the parser accepts them one after the other. -/
def Readable (bFixPTS : Bool) : Memory → List Bytes → List Bytes → NAL_t × ℕ → Prop
  | _, [], _, _ => True
  | m, u::us, awaited, p =>
    let iNAL := H264_NAL_type (shift m 4)
    o.keeps iNAL ∧ (∃ iSlice, readSlice (shift m 4) u.length iNAL 0 = .ok iSlice) ∧
      ∃ p', parseAll w (texts bFixPTS awaited iNAL u) p = .ok p' ∧
        Readable bFixPTS (shift m (4+u.length)) us
          (if iNAL = NAL_UNIT_TYPE_SLICE_IDR then [] else awaited) p'

/-- A packet with a unit that is no parameter set. -/
def isUnit (p : MediaPacket) : Bool := p.frame ∉ [FrameType.SPS, .ESPS, .PPS]

variable {w behind o d} {m : Memory} {s : MP4MediaConverter} {u : Bytes} {us : List Bytes}

theorem parseAll_append (xs ys : List Bytes) (p : NAL_t × ℕ) :
    parseAll w (xs ++ ys) p = parseAll w xs p >>= parseAll w ys := by
  induction xs generalizing p with
  | nil => rfl
  | cons x xs ih =>
    rw [List.cons_append, parseAll, parseAll]
    cases w.parse p.2 p.1 x with
    | error e => rfl
    | ok r => exact ih _

/-! ## Frames -/

theorem slice_idr (n : ℕ) : Reader.SliceToXFrame n ∉ [FrameType.IDR, .SPS, .ESPS, .PPS] := by
  rw [Reader.SliceToXFrame]
  split
  · decide
  · split
    · decide
    · split
      · decide
      · split
        · decide
        · split <;> decide

theorem svc_idr (n : ℕ) : Reader.SVCSliceToXFrame n ∉ [FrameType.IDR, .SPS, .ESPS, .PPS] := by
  rw [Reader.SVCSliceToXFrame]
  split
  · decide
  · split
    · decide
    · split <;> decide

/-- What a frame tells of the type of its unit. -/
structure FrameOf (iNAL : ℕ) (frame : FrameType) : Prop where
  idr : frame = .IDR → iNAL = NAL_UNIT_TYPE_SLICE_IDR
  set : frame ∈ [FrameType.SPS, .ESPS, .PPS] → isParameterSet iNAL = true

theorem FrameOf.of_ite {iNAL : ℕ} {c : Prop} [Decidable c] {f g : FrameType} (hf : c → FrameOf iNAL f)
    (hg : FrameOf iNAL g) : FrameOf iNAL (if c then f else g) := by
  split
  · exact hf ‹_›
  · exact hg

theorem frame_of_type (iNAL iSlice : ℕ) : FrameOf iNAL (H264FrameToXFrame iNAL iSlice) := by
  have hslice := slice_idr iSlice
  have hsvc := svc_idr iSlice
  rw [List.mem_cons, not_or] at hslice hsvc
  rw [H264FrameToXFrame]
  refine FrameOf.of_ite (fun _ => ⟨nofun, by simp⟩) ?_
  refine FrameOf.of_ite (fun hsps => ⟨nofun, fun _ => by rw [hsps]; rfl⟩) ?_
  apply FrameOf.of_ite
  · intro hsets
    refine ⟨nofun, fun _ => ?_⟩
    rcases List.mem_pair.mp hsets with rfl | rfl <;> rfl
  refine FrameOf.of_ite (fun hpps => ⟨nofun, fun _ => by rw [hpps]; rfl⟩) ?_
  refine FrameOf.of_ite (fun _ => ⟨nofun, by simp⟩) ?_
  refine FrameOf.of_ite (fun _ => ⟨nofun, by simp⟩) ?_
  refine FrameOf.of_ite (fun _ => ⟨nofun, by simp⟩) ?_
  refine FrameOf.of_ite (fun hidr => ⟨fun _ => hidr, by simp⟩) ?_
  refine FrameOf.of_ite (fun _ => ⟨nofun, by simp⟩) ?_
  refine FrameOf.of_ite (fun _ => ⟨fun h => absurd h hsvc.1, fun h => absurd h hsvc.2⟩) ?_
  refine FrameOf.of_ite (fun _ => ⟨fun h => absurd h hslice.1, fun h => absurd h hslice.2⟩) ?_
  exact ⟨nofun, by simp⟩

theorem frame_idr (iNAL iSlice : ℕ) :
    H264FrameToXFrame iNAL iSlice = .IDR ↔ iNAL = NAL_UNIT_TYPE_SLICE_IDR := by
  constructor
  · exact (frame_of_type iNAL iSlice).idr
  · rintro rfl
    rfl

/-! ## Parameter sets from a record -/

theorem extractLoop_ends (n : ℕ) (oHeader : IBits) : ∃ r, extractLoop n oHeader = .ok r := by
  induction n generalizing oHeader with
  | zero => exact ⟨_, rfl⟩
  | succ n ih =>
    obtain ⟨p, hp, hmade⟩ : ∃ p, (MediaPacket.new .media .video ((oHeader.read 16).1+4)).push_back
        H264_START_CODE = .ok p ∧ p = (MediaPacket.new .media .video ((oHeader.read 16).1+4)).pushed
        H264_START_CODE := ⟨_, new_push_back _ _ _ _ (Nat.le_add_left 4 _), rfl⟩
    have hq : ∀ buffer : Bytes, buffer.length = (oHeader.read 16).1 →
        p.push_back buffer = .ok (p.pushed buffer) := by
      intro buffer hlength
      apply push_back_ok
      rw [hmade, hlength, pushed_size]
      show iBufferSpace+(0+4)+_ < (oHeader.read 16).1+4+2*iBufferSpace
      rw [iBufferSpace]
      omega
    obtain ⟨r, hr⟩ := ih ((oHeader.read 16).2.seek (oHeader.read 16).1)
    rw [extractLoop]
    simp only [bind, Except.bind, hp, hq _ (load_length _ _ _), hr]
    exact ⟨_, rfl⟩

theorem extractParameterSets_ends (behind : Memory) (extra_data : Bytes) :
    ∃ r, extractParameterSets behind extra_data = .ok r := by
  let oHeader := (((IBits.new (store behind 0 extra_data) extra_data.length).read 32).2.read 8).2.read 8
  obtain ⟨r, hr⟩ := extractLoop_ends (oHeader.1%2^5) oHeader.2
  obtain ⟨q, hq⟩ := extractLoop_ends ((r.2.read 8).1%2^5) (r.2.read 8).2
  refine ⟨(r.1, q.1, q.2), ?_⟩
  show (extractLoop (oHeader.1%2^5) oHeader.2 >>= fun r => extractLoop ((r.2.read 8).1%2^5) (r.2.read 8).2 >>=
    fun q => pure (r.1, q.1, q.2)) = _
  rw [hr]
  show (extractLoop ((r.2.read 8).1%2^5) (r.2.read 8).2 >>= fun q => pure (r.1, q.1, q.2)) = _
  rw [hq]
  rfl

theorem extracted_eq (behind : Memory) (s : MP4MediaConverter) :
    ∃ vPPS, s.extracted behind d = .ok { s with vSPS := s.sets behind d, vPPS := vPPS } := by
  obtain ⟨r, hr⟩ := extractParameterSets_ends behind d.extra_data
  rw [extracted, sets]
  split_ifs
  · rw [hr]
    exact ⟨r.2.1, rfl⟩
  · exact ⟨s.vPPS, rfl⟩

/-! ## Storing a unit -/

theorem inserted_all (pPckt : MediaPacket) (frame : FrameType) (v : List MediaPacket) (s : MP4MediaConverter) :
    ∃ iUnit iSub ins, v.foldl (inserted pPckt frame) s =
      { s with iUnit := iUnit, iSub := iSub, oBuffer := s.oBuffer ++ ins } ∧ ∀ q ∈ ins, q.frame = frame := by
  induction v generalizing s with
  | nil => exact ⟨s.iUnit, s.iSub, [], by rw [List.append_nil]; rfl, by simp⟩
  | cons p v ih =>
    obtain ⟨iUnit, iSub, ins, hfold, hframes⟩ := ih (inserted pPckt frame s p)
    refine ⟨iUnit, iSub, s.copied pPckt frame p::ins, ?_, ?_⟩
    · rw [List.foldl_cons, hfold, ← List.singleton_append (l := ins), ← List.append_assoc]
      rfl
    · intro q hq
      rcases List.mem_cons.mp hq with rfl | hmem
      · rfl
      · exact hframes q hmem

/-- What is parsed of several packets: the first, if time stamps are to be fixed. -/
def first (bFixPTS : Bool) (v : List MediaPacket) : List Bytes :=
  if bFixPTS then (v.take 1).map MediaPacket.bytes else []

theorem fixPTS_eq (s : MP4MediaConverter) (v : List MediaPacket) :
    s.fixPTS w v = parseAll w (first s.bFixPTS v) s.parser >>= fun p => pure (s.parsed p) := by
  rw [first]
  cases v with
  | nil =>
    rw [List.take_nil, List.map_nil, ite_self]
    rfl
  | cons p v =>
    rw [fixPTS]
    split_ifs
    · rw [parse, List.take_succ_cons, List.take_zero, List.map_cons, List.map_nil, parseAll, parser]
      cases w.parse s.iParsed s.oNAL p.bytes with
      | error e => rfl
      | ok r => rfl
    · rfl

theorem inserted_parsed (pPckt : MediaPacket) (frame : FrameType) (v : List MediaPacket)
    (s : MP4MediaConverter) (p : NAL_t × ℕ) :
    v.foldl (inserted pPckt frame) (s.parsed p) = (v.foldl (inserted pPckt frame) s).parsed p := by
  induction v generalizing s with
  | nil => rfl
  | cons q v ih =>
    rw [List.foldl_cons, List.foldl_cons, ← ih]
    rfl

theorem insertParameterSets_eq (s : MP4MediaConverter) (pPckt : MediaPacket) :
    ∃ iUnit iSub ins, s.insertParameterSets w pPckt =
        (parseAll w (first s.bFixPTS s.vSPS) s.parser >>= fun p =>
          pure (MP4MediaConverter.parsed { s with
            iUnit := iUnit, iSub := iSub, oBuffer := s.oBuffer ++ ins } p)) ∧
      ∀ q ∈ ins, isUnit q = false := by
  obtain ⟨iUnit, iSub, ins, hsps, hins⟩ := inserted_all pPckt .SPS s.vSPS s
  obtain ⟨iUnit', iSub', ins', hpps, hins'⟩ := inserted_all pPckt .PPS s.vPPS
    { s with iUnit := iUnit, iSub := iSub, oBuffer := s.oBuffer ++ ins }
  refine ⟨iUnit', iSub', ins ++ ins', ?_, ?_⟩
  · rw [insertParameterSets, fixPTS_eq]
    cases parseAll w (first s.bFixPTS s.vSPS) s.parser with
    | error e => rfl
    | ok p =>
      show Except.ok ((s.parsed p).vPPS.foldl (inserted pPckt .PPS)
        ((s.parsed p).vSPS.foldl (inserted pPckt .SPS) (s.parsed p))) = Except.ok _
      rw [inserted_parsed, inserted_parsed]
      show Except.ok ((s.vPPS.foldl (inserted pPckt .PPS) (s.vSPS.foldl (inserted pPckt .SPS) s)).parsed p) = _
      rw [hsps, hpps, ← List.append_assoc]
  · intro q hq
    rcases List.mem_append.mp hq with hmem | hmem
    · rw [isUnit, hins q hmem]
      rfl
    · rw [isUnit, hins' q hmem]
      rfl

/-- Where a converter stands after a unit, its parser apart. -/
structure Stands (behind : Memory) (d : Descriptor) (s t : MP4MediaConverter) (awaited : List Bytes)
    (new : List MediaPacket) : Prop where
  bFixPTS : t.bFixPTS = s.bFixPTS
  awaited : t.awaited behind d = awaited
  oBuffer : t.oBuffer = s.oBuffer ++ new

theorem insert_eq (behind : Memory) (s : MP4MediaConverter) {pPckt : MediaPacket} {iNAL iSlice : ℕ}
    (hframe : pPckt.frame = H264FrameToXFrame iNAL iSlice) :
    ∃ t ins, MP4MediaConverter.insert w behind d s pPckt =
        (parseAll w (if s.bFixPTS then if iNAL = NAL_UNIT_TYPE_SLICE_IDR then s.awaited behind d else [] else [])
          s.parser >>= fun p => pure (t.parsed p)) ∧
      Stands behind d s t (if iNAL = NAL_UNIT_TYPE_SLICE_IDR then [] else s.awaited behind d) ins ∧
      ∀ q ∈ ins, isUnit q = false := by
  have hkind : pPckt.frame = .IDR ↔ iNAL = NAL_UNIT_TYPE_SLICE_IDR := by rw [hframe, frame_idr]
  rw [MP4MediaConverter.insert]
  by_cases hidr : iNAL = NAL_UNIT_TYPE_SLICE_IDR
  · rw [if_pos hidr, if_pos hidr]
    by_cases hadd : s.bAddParameterSets = true
    · obtain ⟨vPPS, hextracted⟩ := extracted_eq (d := d) behind s
      obtain ⟨iUnit, iSub, ins, hinserted, hins⟩ := insertParameterSets_eq (w := w)
        { s with vSPS := s.sets behind d, vPPS := vPPS } pPckt
      have hawaited : s.awaited behind d = ((s.sets behind d).take 1).map MediaPacket.bytes := if_pos hadd
      rw [if_pos ⟨hkind.mpr hidr, hadd⟩, hextracted, hawaited]
      refine ⟨{ s with
        vSPS := s.sets behind d
        vPPS := vPPS
        iUnit := iUnit
        iSub := iSub
        bAddParameterSets := false
        oBuffer := s.oBuffer ++ ins }, ins, ?_, ⟨rfl, rfl, rfl⟩, hins⟩
      show (insertParameterSets w { s with vSPS := s.sets behind d, vPPS := vPPS } pPckt >>= fun s =>
        pure { s with bAddParameterSets := false }) = _
      rw [hinserted]
      change (parseAll w (first s.bFixPTS (s.sets behind d)) s.parser >>= _) >>= _ =
        parseAll w (first s.bFixPTS (s.sets behind d)) s.parser >>= _
      cases parseAll w (first s.bFixPTS (s.sets behind d)) s.parser with
      | error e => rfl
      | ok p => rfl
    · have hnone : s.awaited behind d = [] := by rw [awaited, if_neg hadd]
      rw [if_neg fun h => hadd h.2, hnone, ite_self]
      exact ⟨s, [], rfl, ⟨rfl, hnone, (List.append_nil _).symm⟩, by simp⟩
  · rw [if_neg hidr, if_neg hidr, if_neg fun h => hidr (hkind.mp h.1), ite_self]
    exact ⟨s, [], rfl, ⟨rfl, rfl, (List.append_nil _).symm⟩, by simp⟩

theorem push_eq (behind : Memory) (s : MP4MediaConverter) {pPckt : MediaPacket} {iNAL iSlice : ℕ}
    (hframe : pPckt.frame = H264FrameToXFrame iNAL iSlice) (hbytes : pPckt.bytes = startCode false ++ u) :
    ∃ t ins, push w behind d s pPckt =
        (parseAll w (texts s.bFixPTS (s.awaited behind d) iNAL u) s.parser >>= fun p => pure (t.parsed p)) ∧
      Stands behind d s t (if iNAL = NAL_UNIT_TYPE_SLICE_IDR then [] else s.awaited behind d)
        (ins ++ [pPckt]) ∧ ∀ q ∈ ins, isUnit q = false := by
  obtain ⟨t, ins, hinsert, hstands, hins⟩ := insert_eq (w := w) (d := d) behind s hframe
  have htexts : texts s.bFixPTS (s.awaited behind d) iNAL u =
      (if s.bFixPTS then if iNAL = NAL_UNIT_TYPE_SLICE_IDR then s.awaited behind d else [] else []) ++
        first t.bFixPTS [pPckt] := by
    rw [texts, first, hstands.bFixPTS, ← hbytes]
    split_ifs <;> rfl
  refine ⟨{ t with oBuffer := t.oBuffer ++ [pPckt] }, ins, ?_, ⟨hstands.bFixPTS, hstands.awaited, ?_⟩, hins⟩
  · rw [push, hinsert, htexts, parseAll_append]
    cases parseAll w _ s.parser with
    | error e => rfl
    | ok p =>
      show (fixPTS w (t.parsed p) [pPckt] >>= _) = (parseAll w (first t.bFixPTS [pPckt]) p >>= _)
      rw [fixPTS_eq]
      change (parseAll w (first t.bFixPTS [pPckt]) p >>= _) >>= _ = _
      cases parseAll w (first t.bFixPTS [pPckt]) p with
      | error e => rfl
      | ok p => rfl
  · rw [← List.append_assoc, ← hstands.oBuffer]

/-! ## Units -/

/-- The packet a unit is put into. -/
theorem unit_packet (u : Bytes) : ∃ p q, (MediaPacket.push_back
      { MediaPacket.new .media .video (u.length+4) with mux := .ES } (startCode false)) = .ok p ∧
    p.push_back u = .ok q ∧ q.bytes = startCode false ++ u := by
  refine ⟨_, _, push_back_ok ?_, push_back_ok ?_, rfl⟩
  · show iBufferSpace+0+4 < u.length+4+2*iBufferSpace
    rw [iBufferSpace]
    omega
  · rw [pushed_size]
    show iBufferSpace+(0+4)+u.length < u.length+4+2*iBufferSpace
    rw [iBufferSpace]
    omega

theorem unit_dropped (behind : Memory) (hload : load m 0 u.length = u) (h : ¬o.keeps (H264_NAL_type m) = true) :
    ∃ t, unit w behind o d m u.length false s = .ok t ∧ t.oBuffer = s.oBuffer := by
  obtain ⟨p, q, hp, hq, -⟩ := unit_packet u
  rw [unit, hload, hp]
  show ∃ t, (p.push_back u >>= _) = _ ∧ _
  rw [hq]
  show ∃ t, (if isParameterSet (H264_NAL_type m) then _ else _) = _ ∧ _
  by_cases hset : isParameterSet (H264_NAL_type m) = true
  · rw [if_pos hset]
    refine ⟨_, rfl, ?_⟩
    rw [aside]
    split_ifs <;> rfl
  · have hdrop : o.drops (H264_NAL_type m) = true := by
      by_contra hno
      exact h ((keeps_iff o _).mpr ⟨hset, hno⟩)
    rw [if_neg hset, if_pos hdrop]
    exact ⟨s, rfl, rfl⟩

/-- A unit that is kept where it stands. -/
theorem unit_kept (behind : Memory) (hload : load m 0 u.length = u) (h : o.keeps (H264_NAL_type m) = true) :
    ∃ t : ℕ → MP4MediaConverter, unit w behind o d m u.length false s =
        (readSlice m u.length (H264_NAL_type m) s.iSlice >>= fun iSlice =>
          parseAll w (texts s.bFixPTS (s.awaited behind d) (H264_NAL_type m) u) s.parser >>= fun p =>
            pure ((t iSlice).parsed p)) ∧
      ∀ iSlice, ∃ ins pPckt, Stands behind d s (t iSlice)
          (if H264_NAL_type m = NAL_UNIT_TYPE_SLICE_IDR then [] else s.awaited behind d) (ins ++ [pPckt]) ∧
        (∀ q ∈ ins, isUnit q = false) ∧ isUnit pPckt = true ∧ pPckt.bytes = startCode false ++ u := by
  obtain ⟨p, q, hp, hq, hbytes⟩ := unit_packet u
  obtain ⟨hset, hdrop⟩ := (keeps_iff o _).mp h
  have hpush : ∀ iSlice : ℕ, ∃ t ins, push w behind d { s with iSlice := iSlice }
        { q with frame := H264FrameToXFrame (H264_NAL_type m) iSlice } =
        (parseAll w (texts s.bFixPTS (s.awaited behind d) (H264_NAL_type m) u) s.parser >>=
          fun p => pure (t.parsed p)) ∧
      Stands behind d s t (if H264_NAL_type m = NAL_UNIT_TYPE_SLICE_IDR then [] else s.awaited behind d)
        (ins ++ [{ q with frame := H264FrameToXFrame (H264_NAL_type m) iSlice }]) ∧
      ∀ q ∈ ins, isUnit q = false := by
    intro iSlice
    have hframe : ({ q with frame := H264FrameToXFrame (H264_NAL_type m) iSlice } : MediaPacket).frame =
        H264FrameToXFrame (H264_NAL_type m) iSlice := rfl
    obtain ⟨t, ins, hrun, hstands, hins⟩ := push_eq (w := w) (d := d) behind
      { s with iSlice := iSlice } hframe hbytes
    exact ⟨t, ins, hrun, ⟨hstands.bFixPTS, hstands.awaited, hstands.oBuffer⟩, hins⟩
  choose t ins hrun hstands hins using hpush
  refine ⟨t, ?_, fun iSlice => ⟨ins iSlice, _, hstands iSlice, hins iSlice, ?_, hbytes⟩⟩
  · rw [unit, hload, hp]
    show (p.push_back u >>= _) = _
    rw [hq]
    show (if isParameterSet (H264_NAL_type m) then _ else _) = _
    rw [if_neg hset, if_neg hdrop]
    simp only [hrun]
  · have hframe := (frame_of_type (H264_NAL_type m) iSlice).set
    rw [isUnit, decide_eq_true_eq]
    exact fun hmem => hset (hframe hmem)

/-! ## A whole result -/

theorem header_read (hm : Stored m 0 (withLengths (u::us))) (hlength : (withLengths (u::us)).length < 2^31)
    (hd : d.lengthSize = 4) (iSize : ℤ) : d.header m iSize = ⟨4, u.length, false⟩ := by
  rw [withLengths_cons, List.length_append, List.length_append] at hlength
  have hvalue : ((IBits.new m 4).read 32).1 = u.length := by
    have hahead := IBits.ahead_stored hm 4
    rw [withLengths_cons, ofBytes_append, lengthField_bits] at hahead
    exact (IBits.read_field hahead le_rfl (by omega)).1
  rw [Descriptor.header, hd, if_neg (by decide)]
  show Header.mk 4 (int32 ((IBits.new m 4).read 32).1) false = _
  rw [hvalue, int32_of_range _ (by omega) (by omega)]

theorem readSlice_any {n iNAL : ℕ} (a b : ℕ) (h : ∃ r, readSlice m n iNAL a = .ok r) :
    ∃ r, readSlice m n iNAL b = .ok r := by
  rw [readSlice] at h ⊢
  split_ifs at h ⊢
  · exact h
  · exact ⟨b, rfl⟩

/-- What the units are back in. -/
def units (new : List MediaPacket) : List Bytes := (new.filter isUnit).map MediaPacket.bytes

theorem units_append (new more : List MediaPacket) : units (new ++ more) = units new ++ units more := by
  rw [units, List.filter_append, List.map_append, units, units]

theorem units_kept {ins : List MediaPacket} {p : MediaPacket} (hins : ∀ q ∈ ins, isUnit q = false)
    (hp : isUnit p = true) : units (ins ++ [p]) = [p.bytes] := by
  have hnone : ins.filter isUnit = [] := by
    rw [List.filter_eq_nil_iff]
    intro q hq
    rw [hins q hq]
    decide
  rw [units, List.filter_append, hnone, List.nil_append, List.filter_singleton, hp]
  rfl

theorem turns_outcome {fuel : ℕ} (hd : d.lengthSize = 4) (hm : Stored m 0 (withLengths us))
    (hfuel : (withLengths us).length ≤ fuel) (hlength : (withLengths us).length < 2^31) :
    (Readable w o s.bFixPTS m us (s.awaited behind d) s.parser → ∃ t new,
      turns w behind o d fuel m (withLengths us).length s = .ok t ∧ t.oBuffer = s.oBuffer ++ new ∧
        units new = us.map fun u => startCode false ++ u) ∧
    ∀ t, turns w behind o d fuel m (withLengths us).length s = .ok t → ∃ new, t.oBuffer = s.oBuffer ++ new ∧
      (units new).length ≤ us.length ∧ ((units new).length = us.length →
        Readable w o s.bFixPTS m us (s.awaited behind d) s.parser) := by
  induction us generalizing m s fuel with
  | nil =>
    have hdone : turns w behind o d fuel m (withLengths []).length s = .ok s := by
      cases fuel with
      | zero => rfl
      | succ fuel => rfl
    refine ⟨fun _ => ⟨s, [], hdone, (List.append_nil _).symm, rfl⟩, ?_⟩
    intro t ht
    rw [hdone] at ht
    cases ht
    exact ⟨[], (List.append_nil _).symm, le_rfl, fun _ => trivial⟩
  | cons u us ih =>
    have hheader := header_read hm hlength hd
    have hfour : (withLengths (u::us)).length = 4+(u.length+(withLengths us).length) := by
      rw [withLengths_cons, List.length_append, List.length_append]
      rfl
    have hsplit := hm
    rw [withLengths_cons, stored_append, stored_append] at hsplit
    have hload : load (shift m 4) 0 u.length = u := by
      rw [load_shift]
      exact hsplit.2.1
    have hrest : Stored (shift m (4+u.length)) 0 (withLengths us) := stored_shift.mpr hsplit.2.2
    cases fuel with
    | zero => omega
    | succ fuel =>
      have hturn : turns w behind o d (fuel+1) m (withLengths (u::us)).length s =
          unit w behind o d (shift m 4) u.length false s >>=
            turns w behind o d fuel (shift m (4+u.length)) (withLengths us).length := by
        rw [turns, if_neg (by omega), hheader]
        dsimp only
        rw [if_neg (by omega), Int.toNat_natCast,
          show ((withLengths (u::us)).length : ℤ)-(4 : ℕ)-u.length = (withLengths us).length by omega]
      rw [hturn]
      by_cases hkeep : o.keeps (H264_NAL_type (shift m 4)) = true
      · obtain ⟨t, hunit, hstands⟩ := unit_kept (w := w) (d := d) (s := s) behind hload hkeep
        have hless : (withLengths us).length ≤ fuel := by omega
        have hshorter : (withLengths us).length < 2^31 := by omega
        rw [hunit]
        constructor
        · rintro ⟨-, hslice, p', hparse, hreadable⟩
          obtain ⟨iSlice, hslice⟩ := readSlice_any 0 s.iSlice hslice
          obtain ⟨ins, pPckt, hs, hins, hkind, hbytes⟩ := hstands iSlice
          rw [← hs.awaited, ← hs.bFixPTS] at hreadable
          obtain ⟨t', new, hrun, hnew, hunits⟩ := 
            (ih (s := (t iSlice).parsed p') hrest hless hshorter).1 hreadable
          refine ⟨t', ins ++ [pPckt] ++ new, ?_, ?_, ?_⟩
          · rw [hslice]
            show (parseAll w _ s.parser >>= _) >>= _ = _
            rw [hparse]
            exact hrun
          · rw [hnew, ← List.append_assoc]
            exact congrArg (· ++ new) hs.oBuffer
          · rw [units_append, units_kept hins hkind, hbytes, hunits]
            rfl
        · intro t' ht
          obtain ⟨s₁, hone, hrun⟩ := bind_ok.1 ht
          obtain ⟨iSlice, hslice, hone⟩ := bind_ok.1 hone
          obtain ⟨p', hparse, hone⟩ := bind_ok.1 hone
          cases hone
          obtain ⟨ins, pPckt, hs, hins, hkind, hbytes⟩ := hstands iSlice
          obtain ⟨new, hnew, hle, hall⟩ := (ih hrest hless hshorter).2 t' hrun
          have hunits : units (ins ++ [pPckt] ++ new) = (startCode false ++ u)::units new := by
            rw [units_append, units_kept hins hkind, hbytes]
            rfl
          refine ⟨ins ++ [pPckt] ++ new, ?_, ?_, ?_⟩
          · rw [hnew, ← List.append_assoc]
            exact congrArg (· ++ new) hs.oBuffer
          · rw [hunits, List.length_cons, List.length_cons]
            omega
          · intro heq
            rw [hunits, List.length_cons, List.length_cons] at heq
            refine ⟨hkeep, readSlice_any s.iSlice 0 ⟨iSlice, hslice⟩, p', hparse, ?_⟩
            rw [← hs.awaited, ← hs.bFixPTS]
            exact hall (by omega)
      · obtain ⟨s', hunit, hbuffer⟩ := unit_dropped (w := w) (d := d) (s := s) behind hload hkeep
        refine ⟨fun h => absurd h.1 hkeep, fun t ht => ?_⟩
        rw [hunit] at ht
        obtain ⟨new, hnew, hle, -⟩ := (ih hrest (by omega) (by omega)).2 t ht
        refine ⟨new, by rw [hnew, hbuffer], ?_, fun heq => ?_⟩
        · rw [List.length_cons]
          omega
        · rw [List.length_cons] at heq
          omega

/-! ## There and back -/

/-- What stands behind the stream and behind the result, what the converters keep out, and how they
and the descriptors of the stream stand. -/
structure Circumstances where
  w : Surroundings
  behind : Memory
  behindStream : Memory
  behindResult : Memory
  o : Skips
  forward : VideoExtra.MP4MediaConverter
  forward_extra : Bytes
  backward : MP4MediaConverter
  backward_extra : Bytes
  bAddParameterSets : Bool

namespace Circumstances

variable (a : Circumstances) (coded : List CodedUnit)

def kept : List Bytes := a.o.kept (coded.map CodedUnit.nal)

/-- Sizes are given as signed numbers. -/
def there : Except SirannonException Conversion :=
  convertMP4Video a.behind a.o a.forward (store a.behindStream 0 (annexB coded)) (annexB coded).length
    a.forward_extra

def back (pPckt : MediaPacket) : Except SirannonException MP4MediaConverter :=
  convertESVideo a.w a.behind a.o ⟨4, a.backward_extra⟩ (store a.behindResult 0 pPckt.bytes)
    (int32 pPckt.size) a.bAddParameterSets a.backward

/-- Exactly the units that are kept are written, and they come back. -/
def RoundTrips : Prop :=
  ∃ c, a.there coded = .ok c ∧ c.pPckt.bytes = withLengths (a.kept coded) ∧
    ∃ t new, a.back c.pPckt = .ok t ∧ t.oBuffer = a.backward.oBuffer ++ new ∧
      units new = (a.kept coded).map fun u => startCode false ++ u

/-- The scanner cuts no unit short, the packet has room for the lengths, the buffer for extra data has
room for the records, and the units are read as what they are. -/
structure Converts : Prop where
  separate : Separate a.o coded
  room : (withLengths (a.kept coded)).length < (annexB coded).length+iBufferSpace
  small : (withLengths (a.kept coded)).length < 2^31
  records : RecordsFit a.o a.forward.oVideoExtra.iBytes none (scanned coded)
  readable : Readable a.w a.o a.backward.bFixPTS (store a.behindResult 0 (withLengths (a.kept coded)))
    (a.kept coded) ((a.backward.start a.bAddParameterSets).awaited a.behind ⟨4, a.backward_extra⟩)
    a.backward.parser

variable {a coded}

theorem there_outcome (hlength : (annexB coded).length < 2^31) :
    Succeeds (Writable a.o a.forward.oVideoExtra.iBytes (annexB coded).length 0 none (scanned coded))
      (a.there coded) fun c => c.pPckt.bytes = withLengths (a.o.kept (scanned coded)) :=
  convertMP4Video_outcome a.behind a.o a.forward a.forward_extra (stored_store _ _ _) (by omega)

theorem back_small {pPckt : MediaPacket} {us : List Bytes} (hbytes : pPckt.bytes = withLengths us)
    (hsmall : (withLengths us).length < 2^31) :
    a.back pPckt = turns a.w a.behind a.o ⟨4, a.backward_extra⟩ (withLengths us).length
      (store a.behindResult 0 (withLengths us)) (withLengths us).length
      (a.backward.start a.bAddParameterSets) := by
  have hsize : int32 pPckt.size = (withLengths us).length := by
    rw [MediaPacket.size, hbytes]
    exact int32_of_range _ (by omega) (by omega)
  rw [back, convertESVideo, hsize, hbytes, Int.toNat_natCast]

/-- With a size that is no longer a positive number nothing is read. -/
theorem back_large {pPckt : MediaPacket} (hlow : 2^31 ≤ pPckt.size) (hhigh : pPckt.size < 2^32) :
    a.back pPckt = .ok (a.backward.start a.bAddParameterSets) := by
  have hsize : int32 pPckt.size ≤ 0 := by
    rw [int32, Int.bmod_def]
    split_ifs <;> omega
  rw [back, convertESVideo, Int.toNat_of_nonpos hsize, turns]

theorem converts_of_round_trip (hlength : (annexB coded).length < 2^31) (h : a.RoundTrips coded) :
    a.Converts coded := by
  obtain ⟨c, hthere, hbytes, t, new, hback, hnew, hunits⟩ := h
  have houtcome := there_outcome (a := a) hlength
  have hwritable : Writable a.o a.forward.oVideoExtra.iBytes (annexB coded).length 0 none
      (scanned coded) := by
    by_contra hnot
    obtain ⟨e, he⟩ := houtcome.2 hnot
    rw [he] at hthere
    cases hthere
  obtain ⟨c', hc', hscanned⟩ := houtcome.1 hwritable
  rw [hthere] at hc'
  cases hc'
  have hseparate : Separate a.o coded := (scanned_lengths a.o coded).mp (hscanned.symm.trans hbytes)
  have hroom := hwritable.1
  rw [(scanned_kept a.o coded).1 hseparate, Nat.zero_add] at hroom
  have hsmall : (withLengths (a.kept coded)).length < 2^31 := by
    by_contra hlarge
    have hsize : c.pPckt.size = (withLengths (a.kept coded)).length := congrArg List.length hbytes
    rw [back_large (by omega) (by rw [hsize, kept]; rw [iBufferSpace] at hroom; omega)] at hback
    cases hback
    have hnil : new = [] := List.self_eq_append_right.mp hnew
    rw [hnil] at hunits
    have hempty : a.kept coded = [] := List.map_eq_nil_iff.mp hunits.symm
    rw [hempty] at hlarge
    exact hlarge (by decide)
  rw [back_small hbytes hsmall] at hback
  obtain ⟨new', hnew', -, hall⟩ := (turns_outcome (d := ⟨4, a.backward_extra⟩) rfl
    (stored_store _ _ _) le_rfl hsmall).2 t hback
  have hsame : new = new' := List.append_cancel_left (hnew.symm.trans hnew')
  refine ⟨hseparate, hroom, hsmall, hwritable.2, hall ?_⟩
  rw [← hsame, hunits, List.length_map]

theorem round_trip_of_converts (hlength : (annexB coded).length < 2^31) (h : a.Converts coded) :
    a.RoundTrips coded := by
  have hkept := (scanned_kept a.o coded).1 h.separate
  have hwritable : Writable a.o a.forward.oVideoExtra.iBytes (annexB coded).length 0 none
      (scanned coded) := by
    refine ⟨?_, h.records⟩
    rw [hkept, Nat.zero_add]
    exact h.room
  obtain ⟨c, hthere, hbytes⟩ := (there_outcome hlength).1 hwritable
  rw [hkept] at hbytes
  obtain ⟨t, new, hback, hnew, hunits⟩ := (turns_outcome (d := ⟨4, a.backward_extra⟩) rfl
    (s := a.backward.start a.bAddParameterSets) (stored_store _ _ _) le_rfl h.small).1 h.readable
  refine ⟨c, hthere, hbytes, t, new, ?_, hnew, hunits⟩
  rw [back_small hbytes h.small]
  exact hback

end Circumstances

/-! ## Short start codes -/

/-- An IDR slice behind a short start code. -/
def shortSlice : CodedUnit where
  bShort := true
  nal := [0x65, 0x88]
  nonempty := by decide
  clean := by decide

def exampleCircumstances : Circumstances where
  w := ⟨fun _ => zeroed, fun _ => zeroed⟩
  behind := zeroed
  behindStream := zeroed
  behindResult := zeroed
  o := ⟨false, false⟩
  forward := ⟨[], [], OBuffer.new 64000⟩
  forward_extra := []
  backward := ⟨[], [], false, NAL_t.zero, 0, 0, 0, false, false, 0, []⟩
  backward_extra := []
  bAddParameterSets := false

end Sirannon.ESVideo
