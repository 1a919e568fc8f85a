import Sirannon.MediaPacket
import Sirannon.StateError

/-!
# The reader of AMR-WB+ files

Behind a magic number a file holds one superframe after the other. A header of
two bytes says how many frames a superframe has and how large they are. The end
of the file is seen by the read that asks for more than there is.
-/

set_option autoImplicit false

namespace Sirannon.AMRWBPReader
open Bits Media StateError

def dSize : List ℕ := [
  17, 23, 32, 36, 40, 46, 50, 58,
  60, 5, 34, 45, 60, 60, 0, 0,
  26, 30, 34, 38, 42, 48, 52, 60,
  31, 32, 35, 36, 38, 40, 41, 43,
  45, 46, 48, 50, 51, 53, 56, 58,
  60, 64, 65, 67, 72, 74, 75, 80]

def dChannels : List ℕ := [
  1, 1, 1, 1, 1, 1, 1, 1,
  1, 1, 1, 2, 1, 2, 0, 0,
  1, 1, 1, 1, 1, 1, 1, 1,
  2, 2, 2, 2, 2, 2, 2, 2,
  2, 2, 2, 2, 2, 2, 2, 2,
  2, 2, 2, 2, 2, 2, 2, 2]

def dFrames : List ℕ := [
  1, 1, 1, 1, 1, 1, 1, 1,
  1, 1, 4, 4, 4, 4, 1, 1,
  4, 4, 4, 4, 4, 4, 4, 4,
  4, 4, 4, 4, 4, 4, 4, 4,
  4, 4, 4, 4, 4, 4, 4, 4,
  4, 4, 4, 4, 4, 4, 4, 4]

def dFreq : List ℕ := [25600, 12800, 14400, 16000, 17067, 19200, 21333, 24000, 25600, 28800, 32000,
  34133, 36000, 38400]

/-! ## The file -/

/-- An open file: its bytes, the place in it and the flag that `feof` tests. -/
structure File where
  bytes : List UInt8
  iPos : ℕ
  bEof : Bool

namespace File

def fread (oFile : File) (iSize : ℕ) : List UInt8 × File :=
  let pData := (oFile.bytes.drop oFile.iPos).take iSize
  (pData, { oFile with
    iPos := oFile.iPos+pData.length, bEof := oFile.bEof || decide (pData.length < iSize) })

def fseek (oFile : File) (iPos : ℕ) : File := { oFile with iPos := iPos, bEof := false }

end File

/-! ## The reader -/

structure Description where
  codec : CodecType
  content : ContentType
  samplerate : ℤ
  framesize : ℤ
  inc : ℤ
  bitrate : ℤ
  channels : ℤ
  route : ℤ

/-- `oFile` is none when the file is closed. -/
structure AMR_WBP_Reader where
  iLooping : ℤ
  iLoop : ℤ
  oFile : Option File
  pDesc : Description
  iFrame : ℤ
  iRoute : ℤ
  iStream : ℤ
  iDTS : ℤ
  routed : List MediaPacket

def tooShort (iSize : ℕ) : SirannonException :=
  ioError s!"Could not read enough bytes ({iSize}) from file"

def invalidType (iFrameType : UInt8) : SirannonException :=
  valueError s!"Invalid FT (0x{String.ofList (Nat.toDigits 16 iFrameType.toNat)})"

def invalidRate (iIndex : UInt8) : SirannonException :=
  valueError s!"Invalid ISF (0x{String.ofList (Nat.toDigits 16 iIndex.toNat)})"

/-- The description of the stream that begins with the header. -/
def described (iRoute : ℤ) (pHeader : List UInt8) : Except SirannonException Description :=
  let iFrameType := pHeader.getD 0 0 &&& 0x7F
  let iInternalSampleRateIdx := pHeader.getD 1 0 &&& 0x1F
  if 47 < iFrameType then .error (invalidType iFrameType)
  else if 13 < iInternalSampleRateIdx then .error (invalidRate iInternalSampleRateIdx)
  else
    let iFrameSize := dSize.getD iFrameType.toNat 0
    let iInternalSampleRate := dFreq.getD iInternalSampleRateIdx.toNat 0
    let inc := 90*20*25600/iInternalSampleRate
    .ok {
      codec := .awbp
      content := .audio
      samplerate := 72000
      inc := inc
      framesize := (72000*inc/90000 : ℕ)
      bitrate := (iFrameSize*iInternalSampleRate/64 : ℕ)
      channels := dChannels.getD iFrameType.toNat 0
      route := iRoute }

namespace AMR_WBP_Reader

/-- `openBuffer` and `init` for a file with these bytes. -/
def init (bytes : List UInt8) (loop dtsStart audioRoute iStream : ℤ) :
    Except SirannonException AMR_WBP_Reader :=
  let oFile := (File.mk bytes 0 false).fseek 4
  let (pHeader, oFile) := oFile.fread 2
  if pHeader.length < 2 then .error (tooShort 2)
  else do
    let oFile := oFile.fseek (oFile.iPos-2)
    let pDesc ← described audioRoute pHeader
    return {
      iLooping := loop
      iLoop := 1
      oFile := some oFile
      pDesc := pDesc
      iFrame := 0
      iRoute := audioRoute
      iStream := iStream
      iDTS := dtsStart*90
      routed := [] }

def stamped (s : AMR_WBP_Reader) (pPckt : MediaPacket) : MediaPacket :=
  { pPckt with
    content := .audio, codec := .awbp, mux := .ES, frame := .AUD
    framenumber := s.iFrame, unitnumber := s.iFrame, inc := s.pDesc.inc, dts := s.iDTS
    pts := s.iDTS }

/-- `iFrame++` and `iDTS += pDesc->inc`. -/
def counted (s : AMR_WBP_Reader) : AMR_WBP_Reader :=
  { s with iFrame := s.iFrame+1, iDTS := s.iDTS+s.pDesc.inc }

/-- The file is played once more or closed. The packet for it is made and released again. -/
def doEnd : EStateM SirannonException AMR_WBP_Reader Bool := do
  let s ← get
  if s.iLooping < 0 then
    modify fun s => { s with oFile := s.oFile.map (·.fseek 4) }
  else if s.iLoop < s.iLooping then
    modify fun s => { s with iLoop := s.iLoop+1, oFile := s.oFile.map (·.fseek 4) }
  else modify fun s => { s with iLoop := s.iLoop+1, oFile := none }
  modify counted
  return false

/-- `fread` of exactly so many bytes. -/
def read (iSize : ℕ) : EStateM SirannonException AMR_WBP_Reader (List UInt8) := do
  let s ← get
  match s.oFile with
  | none => throw (undefinedBehaviour "read from a closed file")
  | some oFile =>
    let (pData, oFile) := oFile.fread iSize
    set { s with oFile := some oFile }
    if pData.length < iSize then throw (tooShort iSize)
    return pData

/-- A frame without bytes is not read. -/
def readData (iFrameSize : ℕ) : EStateM SirannonException AMR_WBP_Reader (List UInt8) :=
  if iFrameSize ≠ 0 then read iFrameSize else return []

def indexed (iSecond : UInt8) (i : ℕ) : UInt8 := 
  (iSecond &&& (0x3F : UInt8)) ||| (UInt8.ofNat i <<< (6 : UInt8))

/-- The packet for a frame, with the header in front. -/
def send (iFirst iSecond : UInt8) (pData : List UInt8) (s : AMR_WBP_Reader) : AMR_WBP_Reader :=
  let pPckt := (MediaPacket.new .media .audio pData.length).pushed pData
  let pPckt := { s.stamped (pPckt.fronted [iFirst, iSecond]) with xstream := s.iStream }
  { s.counted with routed := s.routed ++ [pPckt] }

/-- The loop over the frames, `i` of them being done. -/
def readFrames (iFirst : UInt8) (iFrameSize : ℕ) :
    ℕ → ℕ → UInt8 → EStateM SirannonException AMR_WBP_Reader Unit
  | 0, _, _ => return ()
  | n+1, i, iSecond => do
    let pData ← readData iFrameSize
    modify (send iFirst (indexed iSecond i) pData)
    readFrames iFirst iFrameSize n (i+1) (indexed iSecond i)

def readSuperframe : EStateM SirannonException AMR_WBP_Reader Bool := do
  let pHeader ← read 2
  let iFrameType := pHeader.getD 0 0 &&& 0x7F
  if 47 < iFrameType then throw (invalidType iFrameType)
  let iInternalSampleRateIdx := pHeader.getD 1 0 &&& 0x1F
  if 13 < iInternalSampleRateIdx then throw (invalidRate iInternalSampleRateIdx)
  readFrames (pHeader.getD 0 0) (dSize.getD iFrameType.toNat 0) (dFrames.getD iFrameType.toNat 0) 0
    (pHeader.getD 1 0)
  return true

def doStep : EStateM SirannonException AMR_WBP_Reader Bool := do
  let s ← get
  match s.oFile with
  | none => throw (undefinedBehaviour "end of a closed file")
  | some oFile => if oFile.bEof = true then doEnd else readSuperframe

end AMR_WBP_Reader

/-! ## Well-formed files -/

/-- A superframe with as many frames as its header says, each of the size that it says. -/
structure Superframe where
  iFirst : UInt8
  iSecond : UInt8
  frames : List (List UInt8)
  type : iFirst &&& 0x7F ≤ 47
  rate : iSecond &&& 0x1F ≤ 13
  count : frames.length = dFrames.getD (iFirst &&& 0x7F).toNat 0
  size : ∀ f ∈ frames, f.length = dSize.getD (iFirst &&& 0x7F).toNat 0

namespace Superframe

def bytes (f : Superframe) : List UInt8 := [f.iFirst, f.iSecond] ++ f.frames.flatten

/-- One packet for each frame, with its index in the top two bits of the header. -/
def packets (f : Superframe) : List (List UInt8) :=
  f.frames.mapIdx fun i pData =>
    f.iFirst::UInt8.ofNat (f.iSecond.toNat%2^6+2^6*i)::pData

end Superframe

def fileOf (sMagic : List UInt8) (fs : List Superframe) : List UInt8 :=
  sMagic ++ fs.flatMap Superframe.bytes

open AMR_WBP_Reader

/-- Calls of `doStep` until it returns false. -/
inductive Pass : AMR_WBP_Reader → AMR_WBP_Reader → Prop
  | last {s t : AMR_WBP_Reader} : doStep.run s = .ok false t → Pass s t
  | step {s t u : AMR_WBP_Reader} : doStep.run s = .ok true t → Pass t u → Pass s u

inductive Passes : ℕ → AMR_WBP_Reader → AMR_WBP_Reader → Prop
  | none (s : AMR_WBP_Reader) : Passes 0 s s
  | more {n : ℕ} {s t u : AMR_WBP_Reader} : Passes n s t → Pass t u → Passes (n+1) s u

def contents (s : AMR_WBP_Reader) : List (PacketType × List UInt8) :=
  s.routed.map fun p => (p.type, p.bytes)

/-- The packets of a pass, which is followed by another one or not. -/
def passPackets (fs : List Superframe) (bAgain : Bool) : List (PacketType × List UInt8) :=
  fs.flatMap (fun f => f.packets.map (.media, ·)) ++
    [(if bAgain = true then .reset else .end, [])]

/-- The file is read completely in each of its passes. -/
def ReadsCompletely (sMagic : List UInt8) (fs : List Superframe)
    (loop dtsStart audioRoute iStream : ℤ) : Prop :=
  ∃ s, AMR_WBP_Reader.init (fileOf sMagic fs) loop dtsStart audioRoute iStream = .ok s ∧
    ∀ n : ℕ, (0 ≤ loop → (n : ℤ) ≤ max 1 loop) → ∃ t, Passes n s t ∧
      contents t = (List.range n).flatMap fun i =>
        passPackets fs (decide (loop < 0 ∨ (i : ℤ)+1 < loop))

/-! ## A superframe -/

/-- The reader stands in front of these superframes. -/
structure Standing (s : AMR_WBP_Reader) (rest : List UInt8) : Prop where
  file : ∃ oFile, s.oFile = some oFile ∧ oFile.bEof = false ∧ oFile.bytes.drop oFile.iPos = rest

section
variable {s : AMR_WBP_Reader} {rest : List UInt8}

theorem read_run {pData : List UInt8} (h : Standing s (pData++rest)) :
    ∃ t, (AMR_WBP_Reader.read pData.length).run s = .ok pData t ∧ Standing t rest ∧
      contents t = contents s := by
  rcases h.file with ⟨oFile, hfile, heof, hrest⟩
  have hread : (oFile.fread pData.length).1 = pData := by
    rw [File.fread, hrest]
    exact List.take_left
  have hplace : (oFile.fread pData.length).2 =
      { oFile with iPos := oFile.iPos+pData.length, bEof := false } := by
    have hpart : (oFile.bytes.drop oFile.iPos).take pData.length = pData := hread
    rw [File.fread, hpart, heof, Bool.false_or, decide_eq_false (lt_irrefl _)]
  refine ⟨{ s with oFile := some (oFile.fread pData.length).2 }, ?_, ?_, rfl⟩
  · rw [AMR_WBP_Reader.read, run_get_bind, hfile]
    dsimp only
    rw [hread, if_neg (lt_irrefl _)]
    rfl
  · refine ⟨⟨_, rfl, ?_, ?_⟩⟩
    · rw [hplace]
    · rw [hplace, ← List.drop_drop, hrest]
      exact List.drop_left

theorem readData_run {pData : List UInt8} (h : Standing s (pData++rest)) :
    ∃ t, (readData pData.length).run s = .ok pData t ∧ Standing t rest ∧
      contents t = contents s := by
  rw [readData]
  by_cases hzero : pData.length ≠ 0
  · rw [if_pos hzero]
    exact read_run h
  · have hnil : pData = [] := List.length_eq_zero_iff.mp (not_not.mp hzero)
    rw [if_neg hzero, hnil]
    rw [hnil] at h
    exact ⟨s, rfl, h, rfl⟩

theorem read_short {n : ℕ} (h : Standing s rest) (hshort : rest.length < n) :
    ∃ t, (AMR_WBP_Reader.read n).run s = .error (tooShort n) t ∧ contents t = contents s := by
  rcases h.file with ⟨oFile, hfile, heof, hrest⟩
  have hread : (oFile.fread n).1 = rest := by
    rw [File.fread, hrest]
    exact List.take_of_length_le hshort.le
  refine ⟨{ s with oFile := some (oFile.fread n).2 }, ?_, rfl⟩
  rw [AMR_WBP_Reader.read, run_get_bind, hfile]
  dsimp only
  rw [hread, if_pos hshort]
  rfl

theorem indexed_value (b : UInt8) {i : ℕ} (hi : i < 4) :
    indexed b i = UInt8.ofNat (b.toNat%2^6+2^6*i) := by
  rcases b with ⟨b⟩
  interval_cases i <;> revert b <;> decide

theorem indexed_again (b : UInt8) {i j : ℕ} (hi : i < 4) (hj : j < 4) :
    indexed (indexed b i) j = indexed b j := by
  have hinner : (indexed b i).toNat%2^6 = b.toNat%2^6 := by
    rw [indexed_value b hi, UInt8.toNat_ofNat']
    omega
  rw [indexed_value _ hj, indexed_value b hj, hinner]

theorem send_standing (iFirst iSecond : UInt8) (pData : List UInt8) (h : Standing s rest) :
    Standing (send iFirst iSecond pData s) rest ∧
      contents (send iFirst iSecond pData s) =
        contents s ++ [(.media, iFirst::iSecond::pData)] := by
  refine ⟨⟨h.file⟩, ?_⟩
  rw [contents, contents]
  show (s.routed++[_]).map _ = _
  rw [List.map_append]
  rfl

/-- The frames from the `i`th on; a second byte that has been changed keeps its lower bits. -/
theorem readFrames_run (iFirst b : UInt8) {iFrameSize : ℕ} {frames : List (List UInt8)} {i : ℕ}
    {iSecond : UInt8} (hsize : ∀ f ∈ frames, f.length = iFrameSize) (hcount : i+frames.length ≤ 4)
    (hsecond : ∀ j < 4, indexed iSecond j = indexed b j) (h : Standing s (frames.flatten++rest)) :
    ∃ t, (readFrames iFirst iFrameSize frames.length i iSecond).run s = .ok () t ∧
      Standing t rest ∧ contents t = contents s ++
        frames.mapIdx fun j pData => (.media, iFirst::indexed b (i+j)::pData) := by
  induction frames generalizing s i iSecond with
  | nil => exact ⟨s, rfl, h, (List.append_nil _).symm⟩
  | cons f frames ih =>
    have hf := hsize f List.mem_cons_self
    rw [List.flatten_cons, List.append_assoc] at h
    rw [List.length_cons] at hcount ⊢
    rcases readData_run h with ⟨t, ht, hstanding, hcontents⟩
    rw [hf] at ht
    have hindex := hsecond i (by omega)
    have hnext : ∀ j < 4, indexed (indexed b i) j = indexed b j := fun j hj =>
      indexed_again b (by omega) hj
    rcases send_standing iFirst (indexed b i) f hstanding with ⟨hstanding, hsent⟩
    rcases ih (i := i+1) (fun g hg => hsize g (List.mem_cons_of_mem f hg)) (by omega) hnext
      hstanding with ⟨u, hu, hdone, hrest⟩
    refine ⟨u, ?_, hdone, ?_⟩
    · rw [readFrames, run_bind_of_ok ht, run_modify_bind, hindex]
      exact hu
    · have hshift : (fun j (pData : List UInt8) =>
          (PacketType.media, iFirst::indexed b (i+1+j)::pData)) =
          fun j pData => (.media, iFirst::indexed b (i+(j+1))::pData) := by
        funext j
        rw [Nat.add_right_comm, Nat.add_assoc]
      rw [hrest, hsent, hcontents, List.mapIdx_cons, List.append_assoc, hshift]
      rfl

end

/-! ## The whole file -/

section
variable {s : AMR_WBP_Reader} {rest : List UInt8} {fs : List Superframe}

theorem getD_mem_or {α : Type} {l : List α} {d : α} {P : α → Prop} (hl : ∀ a ∈ l, P a) (hd : P d)
    (i : ℕ) : P (l.getD i d) := by
  rw [List.getD_eq_getElem?_getD]
  cases hi : l[i]? with
  | none => exact hd
  | some a => exact hl a (List.mem_of_getElem? hi)

theorem dFrames_small (i : ℕ) : dFrames.getD i 0 ≤ 4 :=
  getD_mem_or (P := (· ≤ 4)) (by decide) (by decide) i

theorem doStep_standing (h : Standing s rest) : doStep.run s = readSuperframe.run s := by
  rcases h.file with ⟨oFile, hfile, heof, -⟩
  rw [doStep, run_get_bind, hfile]
  dsimp only
  rw [heof, if_neg Bool.false_ne_true]

/-- A superframe is read in one step. -/
theorem superframe_step (f : Superframe) (h : Standing s (f.bytes++rest)) :
    ∃ t, doStep.run s = .ok true t ∧ Standing t rest ∧
      contents t = contents s ++ f.packets.map (.media, ·) := by
  have hcount := dFrames_small (f.iFirst &&& 0x7F).toNat
  have htype : ¬47 < f.iFirst &&& 0x7F := UInt8.not_lt.mpr f.type
  have hrate : ¬13 < f.iSecond &&& 0x1F := UInt8.not_lt.mpr f.rate
  rw [doStep_standing h]
  rw [Superframe.bytes, List.append_assoc] at h
  rcases read_run h with ⟨t, hheader, ht, hsame⟩
  rcases readFrames_run f.iFirst f.iSecond (i := 0) f.size (by rw [f.count]; omega)
    (fun j _ => rfl) ht with ⟨u, hframes, hu, hsent⟩
  refine ⟨u, ?_, hu, ?_⟩
  · have hheader' : (AMR_WBP_Reader.read 2).run s = .ok [f.iFirst, f.iSecond] t := hheader
    rw [readSuperframe, run_bind_of_ok hheader']
    show (if 47 < f.iFirst &&& 0x7F then _ else _ : EStateM _ _ _).run t = _
    rw [if_neg htype]
    show (if 13 < f.iSecond &&& 0x1F then _ else _ : EStateM _ _ _).run t = _
    rw [if_neg hrate, f.count] at *
    exact run_bind_of_ok hframes
  · rw [hsent, hsame, Superframe.packets]
    congr 1
    apply List.ext_getElem
    · rw [List.length_mapIdx, List.length_map, List.length_mapIdx]
    · intro j hj _
      rw [List.length_mapIdx, f.count] at hj
      rw [List.getElem_mapIdx, List.getElem_map, List.getElem_mapIdx, Nat.zero_add,
        indexed_value _ (by omega)]

/-- At the end of the file its flag is not set. -/
theorem end_step (h : Standing s []) :
    ∃ t, doStep.run s = .error (tooShort 2) t ∧ contents t = contents s := by
  rw [doStep_standing h]
  rcases read_short h (show ([] : List UInt8).length < 2 by decide) with ⟨t, ht, hsame⟩
  exact ⟨t, run_bind_of_error ht, hsame⟩

/-- So many calls of `doStep`, all of which return true. -/
inductive Steps : ℕ → AMR_WBP_Reader → AMR_WBP_Reader → Prop
  | none (s : AMR_WBP_Reader) : Steps 0 s s
  | more {n : ℕ} {s t u : AMR_WBP_Reader} : doStep.run s = .ok true t → Steps n t u →
      Steps (n+1) s u

theorem steps_superframes (h : Standing s (fs.flatMap Superframe.bytes)) :
    ∃ t, Steps fs.length s t ∧ Standing t [] ∧
      contents t = contents s ++ fs.flatMap fun f => f.packets.map (.media, ·) := by
  induction fs generalizing s with
  | nil => exact ⟨s, .none s, h, (List.append_nil _).symm⟩
  | cons f fs ih =>
    rw [List.flatMap_cons] at h
    rcases superframe_step f h with ⟨t, ht, hstanding, hsent⟩
    rcases ih hstanding with ⟨u, hu, hdone, hrest⟩
    refine ⟨u, .more ht hu, hdone, ?_⟩
    rw [hrest, hsent, List.flatMap_cons, List.append_assoc]

theorem no_pass {n : ℕ} {t u : AMR_WBP_Reader} (hsteps : Steps n s t) (ht : Standing t []) :
    ¬Pass s u := by
  induction hsteps with
  | none s =>
    rcases end_step ht with ⟨v, hv, -⟩
    intro hpass
    cases hpass with
    | last hlast => exact absurd (hv.symm.trans hlast) (by simp)
    | step hstep _ => exact absurd (hv.symm.trans hstep) (by simp)
  | more hstep _ ih =>
    intro hpass
    cases hpass with
    | last hlast => exact absurd (hstep.symm.trans hlast) (by simp)
    | step hstep' hrest =>
      have heq := hstep.symm.trans hstep'
      rw [(EStateM.Result.ok.inj heq).2] at ih
      exact ih ht hrest

theorem described_ok (f : Superframe) (iRoute : ℤ) :
    ∃ pDesc, described iRoute [f.iFirst, f.iSecond] = .ok pDesc := by
  have htype : ¬47 < f.iFirst &&& 0x7F := UInt8.not_lt.mpr f.type
  have hrate : ¬13 < f.iSecond &&& 0x1F := UInt8.not_lt.mpr f.rate
  rw [described]
  show ∃ pDesc, (if 47 < f.iFirst &&& 0x7F then _ else if 13 < f.iSecond &&& 0x1F then _ else _) = _
  rw [if_neg htype, if_neg hrate]
  exact ⟨_, rfl⟩

theorem init_standing {sMagic : List UInt8} (hmagic : sMagic.length = 4) (f : Superframe)
    (fs : List Superframe) (loop dtsStart audioRoute iStream : ℤ) :
    ∃ s, AMR_WBP_Reader.init (fileOf sMagic (f::fs)) loop dtsStart audioRoute iStream = .ok s ∧
      Standing s ((f::fs).flatMap Superframe.bytes) ∧ contents s = [] := by
  rcases described_ok f audioRoute with ⟨pDesc, hdesc⟩
  have hbehind : (fileOf sMagic (f::fs)).drop 4 = (f::fs).flatMap Superframe.bytes := by
    rw [fileOf, ← hmagic]
    exact List.drop_left
  have hheader : ((fileOf sMagic (f::fs)).drop 4).take 2 = [f.iFirst, f.iSecond] := by
    rw [hbehind]
    rfl
  rw [AMR_WBP_Reader.init]
  simp only [File.fread, File.fseek, hheader, List.length_cons, List.length_nil,
    lt_irrefl, if_false, bind, Except.bind, hdesc]
  refine ⟨_, rfl, ⟨⟨_, rfl, rfl, ?_⟩⟩, rfl⟩
  exact hbehind

theorem init_empty {sMagic : List UInt8} (hmagic : sMagic.length = 4)
    (loop dtsStart audioRoute iStream : ℤ) :
    AMR_WBP_Reader.init (fileOf sMagic []) loop dtsStart audioRoute iStream =
      .error (tooShort 2) := by
  have hnone : ((fileOf sMagic []).drop 4).take 2 = [] := by
    rw [fileOf, ← hmagic, List.flatMap_nil, List.drop_left]
    rfl
  rw [AMR_WBP_Reader.init]
  simp only [File.fread, File.fseek, hnone]
  rfl

/-- All superframes are read, and then an error is raised instead of the end of the file seen. -/
theorem file_stops {sMagic : List UInt8} (hmagic : sMagic.length = 4) (f : Superframe)
    (fs : List Superframe) (loop dtsStart audioRoute iStream : ℤ) :
    ∃ s t u, AMR_WBP_Reader.init (fileOf sMagic (f::fs)) loop dtsStart audioRoute iStream = .ok s ∧
      Steps (f::fs).length s t ∧ Standing t [] ∧ doStep.run t = .error (tooShort 2) u ∧
      contents u = (f::fs).flatMap fun f => f.packets.map (.media, ·) := by
  rcases init_standing hmagic f fs loop dtsStart audioRoute iStream with
    ⟨s, hs, hstanding, hempty⟩
  rcases steps_superframes hstanding with ⟨t, ht, hdone, hsent⟩
  rcases end_step hdone with ⟨u, hu, hsame⟩
  refine ⟨s, t, u, hs, ht, hdone, hu, ?_⟩
  rw [hsame, hsent, hempty, List.nil_append]

theorem never_complete {sMagic : List UInt8} (hmagic : sMagic.length = 4) (fs : List Superframe)
    (loop dtsStart audioRoute iStream : ℤ) :
    ¬ReadsCompletely sMagic fs loop dtsStart audioRoute iStream := by
  rintro ⟨s, hs, hpasses⟩
  cases fs with
  | nil => exact absurd ((init_empty hmagic ..).symm.trans hs) (by simp)
  | cons f fs =>
    rcases file_stops hmagic f fs loop dtsStart audioRoute iStream with
      ⟨s', t, u, hs', ht, hdone, -⟩
    obtain rfl := Except.ok.inj (hs.symm.trans hs')
    rcases hpasses 1 (fun _ => le_max_left 1 loop) with ⟨v, hv, -⟩
    cases hv with
    | more hnone hpass =>
      cases hnone
      exact no_pass ht hdone hpass

theorem wbp_stops {sMagic : List UInt8} (hmagic : sMagic.length = 4) (fs : List Superframe)
    (loop dtsStart audioRoute iStream : ℤ) :
    (fs = [] → AMR_WBP_Reader.init (fileOf sMagic fs) loop dtsStart audioRoute iStream =
      .error (tooShort 2)) ∧
    (fs ≠ [] → ∃ s t u,
      AMR_WBP_Reader.init (fileOf sMagic fs) loop dtsStart audioRoute iStream = .ok s ∧
      Steps fs.length s t ∧ doStep.run t = .error (tooShort 2) u ∧
      contents u = fs.flatMap fun f => f.packets.map (.media, ·)) ∧
    ¬ReadsCompletely sMagic fs loop dtsStart audioRoute iStream := by
  refine ⟨?_, ?_, never_complete hmagic fs loop dtsStart audioRoute iStream⟩
  · rintro rfl
    exact init_empty hmagic ..
  · intro hne
    rcases List.exists_cons_of_ne_nil hne with ⟨f, fs, rfl⟩
    rcases file_stops hmagic f fs loop dtsStart audioRoute iStream with
      ⟨s, t, u, hs, ht, -, hu, hsent⟩
    exact ⟨s, t, u, hs, ht, hu, hsent⟩

def silence : Superframe where
  iFirst := 9
  iSecond := 1
  frames := [[1, 2, 3, 4, 5]]
  type := by decide
  rate := by decide
  count := rfl
  size := by decide

theorem wbp_stops_silence :
    (fileOf [35, 33, 65, 77] [silence]).length = 11 ∧
      ¬ReadsCompletely [35, 33, 65, 77] [silence] 1 1000 200 0 :=
  ⟨rfl, (wbp_stops rfl [silence] 1 1000 200 0).2.2⟩

/-- A file with one superframe of one frame, which is to be played once. -/
theorem silence_incomplete : ¬ReadsCompletely [35, 33, 65, 77] [silence] 1 1000 200 0 :=
  never_complete rfl [silence] 1 1000 200 0

end

end Sirannon.AMRWBPReader
