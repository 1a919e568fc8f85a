import Sirannon.MediaPacket

/-!
# Decoder

A decoder holds frames back, so the end of a stream asks it for what it still
holds, as often as it was given more frames than it has returned. A picture
takes the place of a frame that it rejects or, with `frame-copy`, of a missing
frame. What is in the pictures is left out.
-/

set_option autoImplicit false

namespace Sirannon.FFmpegDecoding
open Bits Media

/-- The codec library: whether a codec can be opened, how many bytes the decoder has taken and
whether a picture is there, by the number of the call since it was opened, and the size of a
picture. -/
structure Codec where
  opens : CodecType → Bool
  decode : ℕ → ℕ → ℤ × Bool
  size : ℤ

/-- What the descriptor takes over from the source. -/
structure Source where
  inc : ℤ
  route : ℤ
  iStreamID : ℤ
  pDesc : MediaDescriptor

/-- The converter to MP4 frames. -/
abbrev Converter (C : Type) := C → MediaPacket → Except SirannonException (C × Option MediaPacket)

/-- An open decoder counts its calls. -/
structure FFmpegDecoder (C : Type) where
  iFrames : ℤ
  iFrame : ℤ
  iDecoded : ℤ
  iUnit : ℤ
  iSize : ℤ
  iLast : ℤ
  bCopy : Bool
  pDecoderCtx : Option ℕ
  oMP4 : C
  routed : List MediaPacket

def FFmpegDecoder.new {C : Type} (bCopy : Bool) (oMP4 : C) : FFmpegDecoder C where
  iFrames := 0
  iFrame := 0
  iDecoded := 0
  iUnit := 0
  iSize := -1
  iLast := -1
  bCopy := bCopy
  pDecoderCtx := none
  oMP4 := oMP4
  routed := []

section
variable {C : Type} (c : Codec) (o : Source) (convertMP4 : Converter C)

def yuvPacket (iFrame iUnit iSize : ℤ) : MediaPacket :=
  { MediaPacket.new .media .video iSize.toNat with
    dts := iFrame*o.inc
    pts := iFrame*o.inc
    inc := o.inc
    framenumber := iFrame
    unitnumber := iUnit
    codec := .yuv
    xstream := o.iStreamID
    xroute := o.route
    desc := some o.pDesc }

def controlPacket (iType : PacketType) (iFrame iUnit : ℤ) : MediaPacket :=
  { MediaPacket.new iType .video 0 with
    dts := iFrame*o.inc
    pts := 0
    inc := o.inc
    framenumber := iFrame
    unitnumber := iUnit
    codec := .yuv
    xstream := o.iStreamID
    xroute := o.route
    desc := some o.pDesc }

namespace FFmpegDecoder

def sized (s : FFmpegDecoder C) : FFmpegDecoder C :=
  if s.iSize < 0 then { s with iSize := c.size } else s

/-- A picture of another size than the first one is left out. -/
def output (s : FFmpegDecoder C) : FFmpegDecoder C :=
  let s := s.sized c
  if c.size ≠ s.iSize then s
  else { s with
    iFrame := s.iFrame+1
    iUnit := s.iUnit+1
    routed := s.routed++[yuvPacket o s.iFrame s.iUnit s.iSize] }

def outputs : ℕ → FFmpegDecoder C → FFmpegDecoder C
  | 0, s => s
  | n+1, s => outputs n (s.output c o)

def outputControl (s : FFmpegDecoder C) (iType : PacketType) : FFmpegDecoder C :=
  { s with
    iUnit := s.iUnit+1
    routed := s.routed++[controlPacket o iType s.iFrame s.iUnit] }

def decoder_init (s : FFmpegDecoder C) (pPckt : MediaPacket) :
    Except SirannonException (FFmpegDecoder C) :=
  if c.opens pPckt.codec then
    .ok { s with pDecoderCtx := some 0, iFrame := pPckt.framenumber }
  else .error (runtimeError "Could not setup decoder")

/-- How many frames are missing in front of a frame. -/
def iLost (s : FFmpegDecoder C) (pPckt : MediaPacket) : ℕ :=
  if s.bCopy = true ∧ 0 ≤ s.iLast ∧ s.iLast+1 < pPckt.framenumber then
    (pPckt.framenumber-s.iLast-1).toNat
  else 0

def copyLost (s : FFmpegDecoder C) (pPckt : MediaPacket) : FFmpegDecoder C :=
  { s.outputs c o (s.iLost pPckt) with iLast := pPckt.framenumber }

def called (s : FFmpegDecoder C) : FFmpegDecoder C :=
  { s with pDecoderCtx := s.pDecoderCtx.map fun iCall => iCall+1 }

def decode (s : FFmpegDecoder C) (pPckt : MediaPacket) : FFmpegDecoder C :=
  let r := c.decode (s.pDecoderCtx.getD 0) pPckt.size
  let s := { s.called with iFrames := s.iFrames+1 }
  if r.1 = pPckt.size then
    if r.2 = true then { s with iDecoded := s.iDecoded+1 }.output c o else s
  else s.output c o

/-- A frame that the decoder can be given. -/
def receiveFrame (s : FFmpegDecoder C) (pPckt : MediaPacket) :
    Except SirannonException (FFmpegDecoder C) := do
  let s ← if s.pDecoderCtx = none then s.decoder_init c pPckt else .ok s
  return (s.copyLost c o pPckt).decode c o pPckt

def isConverted (pPckt : MediaPacket) : Bool :=
  pPckt.codec.isIn familyH264 = true ∧ pPckt.mux ≠ .MOV

def convert (oMP4 : C) (pPckt : MediaPacket) : Except SirannonException (C × Option MediaPacket) :=
  if isConverted pPckt then convertMP4 oMP4 pPckt else .ok (oMP4, some pPckt)

def receive (s : FFmpegDecoder C) (pPckt : MediaPacket) :
    Except SirannonException (FFmpegDecoder C) := do
  let r ← convert convertMP4 s.oMP4 pPckt
  match r.2 with
  | none => .ok { s with oMP4 := r.1 }
  | some pFrame => receiveFrame c o { s with oMP4 := r.1 } pFrame

/-- What the decoder returns here is not looked at. -/
def drain : ℕ → FFmpegDecoder C → FFmpegDecoder C
  | 0, s => s
  | n+1, s => drain n ({ s.called with iDecoded := s.iDecoded+1 }.output c o)

def decoder_reset (s : FFmpegDecoder C) : FFmpegDecoder C :=
  { s with iFrames := 0, iDecoded := 0, pDecoderCtx := none }

def receive_reset (s : FFmpegDecoder C) (pPckt : MediaPacket) : FFmpegDecoder C :=
  if s.pDecoderCtx = none then s.decoder_reset
  else ((s.drain c o (s.iFrames-s.iDecoded).toNat).outputControl o pPckt.type).decoder_reset

def run (packets : List MediaPacket) (pEnd : MediaPacket) (s : FFmpegDecoder C) :
    Except SirannonException (FFmpegDecoder C) := do
  let s ← packets.foldlM (fun s pPckt => s.receive c o convertMP4 pPckt) s
  return s.receive_reset c o pEnd

end FFmpegDecoder

/-! ## Frames -/

/-- The frames that the packets carry. -/
def framesOf : List MediaPacket → C → Except SirannonException (List MediaPacket)
  | [], _ => .ok []
  | pPckt::ps, oMP4 => do
    let r ← FFmpegDecoder.convert convertMP4 oMP4 pPckt
    let frames ← framesOf ps r.1
    return r.2.toList++frames

end

/-- The frames missing between frames with these numbers. -/
def missing : List ℤ → ℕ
  | a::b::ns => (b-a-1).toNat+missing (b::ns)
  | _ => 0

attribute [grind =] missing

/-- One picture for each frame, and with `frame-copy` one for each missing frame. -/
def wanted (bCopy : Bool) (iLast : ℤ) (frames : List MediaPacket) : ℕ :=
  frames.length+if bCopy = true then
    missing ((if 0 ≤ iLast then [iLast] else [])++frames.map fun p => p.framenumber) else 0

/-- The pictures that are wanted, in order, and one control packet. -/
def Decodes {C : Type} (o : Source) (s t : FFmpegDecoder C) (frames : List MediaPacket)
    (pEnd : MediaPacket) : Prop :=
  ∃ yuvs pControl, t.routed = s.routed++yuvs++[pControl] ∧
    yuvs.length = wanted s.bCopy s.iLast frames ∧
    (∀ p ∈ yuvs, p.type = .media ∧ p.codec = .yuv) ∧
    (yuvs.IsChain fun p q => q.framenumber = p.framenumber+1 ∧ q.dts = p.dts+o.inc) ∧
    pControl.type = pEnd.type

/-- The decoder takes every frame. -/
def TakesAll (c : Codec) (frames : List MediaPacket) : Prop :=
  ∀ i p, frames[i]? = some p → (c.decode i p.size).1 = p.size

/-! ## Output -/

section
variable {C : Type} {c : Codec} {o : Source} {s₀ s : FFmpegDecoder C} {f : ℤ} {n : ℕ}

def yuvs (c : Codec) (o : Source) (f u : ℤ) (n : ℕ) : List MediaPacket :=
  (List.range n).map fun i : ℕ => yuvPacket o (f+i) (u+i) c.size

theorem yuvs_succ (f u : ℤ) (n : ℕ) : yuvs c o f u (n+1) = yuvs c o f u n++
    [yuvPacket o (f+n) (u+n) c.size] := by
  rw [yuvs, List.range_succ, List.map_append]
  rfl

/-- Behind `s₀` there are `n` pictures, numbered from `f`. -/
structure Emitted (c : Codec) (o : Source) (s₀ : FFmpegDecoder C) (f : ℤ) (n : ℕ)
    (s : FFmpegDecoder C) : Prop where
  routed : s.routed = s₀.routed++yuvs c o f s₀.iUnit n
  frame : s.iFrame = f+n
  unit : s.iUnit = s₀.iUnit+n
  size : s.iSize < 0 ∨ s.iSize = c.size
  copy : s.bCopy = s₀.bCopy

theorem output_eq (h : s.iSize < 0 ∨ s.iSize = c.size) :
    s.output c o = { s with
      iSize := c.size
      iFrame := s.iFrame+1
      iUnit := s.iUnit+1
      routed := s.routed++[yuvPacket o s.iFrame s.iUnit c.size] } := by
  have hsized : s.sized c = { s with iSize := c.size } := by
    rw [FFmpegDecoder.sized]
    split_ifs with hneg
    · rfl
    · rw [← h.resolve_left hneg]
  rw [FFmpegDecoder.output]
  simp only [hsized]
  rw [if_neg (not_not.mpr rfl)]

theorem Emitted.output (h : Emitted c o s₀ f n s) : Emitted c o s₀ f (n+1) (s.output c o) := by
  rw [output_eq h.size]
  constructor
  · simp only
    rw [h.routed, h.frame, h.unit, yuvs_succ, List.append_assoc]
  · simp only
    rw [h.frame]
    push_cast
    ring
  · simp only
    rw [h.unit]
    push_cast
    ring
  · exact Or.inr rfl
  · exact h.copy

/-- What goes out leaves the counters of the decoder alone. -/
structure Beside (s t : FFmpegDecoder C) : Prop where
  frames : t.iFrames = s.iFrames
  decoded : t.iDecoded = s.iDecoded
  ctx : t.pDecoderCtx = s.pDecoderCtx
  last : t.iLast = s.iLast

theorem Emitted.outputs (h : Emitted c o s₀ f n s) (k : ℕ) :
    Emitted c o s₀ f (n+k) (s.outputs c o k) ∧ Beside s (s.outputs c o k) := by
  induction k generalizing n s with
  | zero => exact ⟨h, rfl, rfl, rfl, rfl⟩
  | succ k ih =>
    have houtput := h.output
    rw [output_eq h.size] at houtput
    rcases ih houtput with ⟨hemitted, hbeside⟩
    rw [show n+(k+1) = n+1+k by omega, FFmpegDecoder.outputs, output_eq h.size]
    exact ⟨hemitted, hbeside.frames, hbeside.decoded, hbeside.ctx, hbeside.last⟩

theorem Emitted.drain (h : Emitted c o s₀ f n s) (k : ℕ) :
    Emitted c o s₀ f (n+k) (s.drain c o k) := by
  induction k generalizing n s with
  | zero => exact h
  | succ k ih =>
    rw [show n+(k+1) = n+1+k by omega, FFmpegDecoder.drain]
    exact ih (Emitted.output ⟨h.routed, h.frame, h.unit, h.size, h.copy⟩)

end

/-! ## Frames -/

/-- How many of the frames the decoder rejects, from call `i` on. -/
def rejected (c : Codec) : ℕ → List MediaPacket → ℕ
  | _, [] => 0
  | i, p::ps => (if (c.decode i p.size).1 = p.size then 0 else 1)+rejected c (i+1) ps

theorem rejected_snoc (c : Codec) (i : ℕ) (ps : List MediaPacket) (p : MediaPacket) :
    rejected c i (ps++[p]) = rejected c i ps+
      if (c.decode (i+ps.length) p.size).1 = p.size then 0 else 1 := by
  induction ps generalizing i with
  | nil => simp [rejected]
  | cons q ps ih =>
    rw [List.cons_append, rejected, ih, rejected, List.length_cons,
      show i+1+ps.length = i+(ps.length+1) by omega, Nat.add_assoc]

theorem rejected_zero_iff (c : Codec) (i : ℕ) (ps : List MediaPacket) :
    rejected c i ps = 0 ↔ ∀ j p, ps[j]? = some p → (c.decode (i+j) p.size).1 = p.size := by
  induction ps generalizing i with
  | nil => simp [rejected]
  | cons q ps ih =>
    rw [rejected, Nat.add_eq_zero_iff, ih]
    constructor
    · rintro ⟨hfirst, hrest⟩ j p hj
      cases j with
      | zero =>
        obtain rfl := Option.some.inj hj
        by_contra hne
        rw [Nat.add_zero] at hne
        rw [if_neg hne] at hfirst
        cases hfirst
      | succ j =>
        rw [show i+(j+1) = i+1+j by omega]
        exact hrest j p hj
    · intro hall
      refine ⟨if_pos (hall 0 q rfl), ?_⟩
      intro j p hj
      rw [show i+1+j = i+(j+1) by omega]
      exact hall (j+1) p hj

/-- The number of the last frame, with those before it. -/
def lastNumber (iLast : ℤ) (past : List MediaPacket) : ℤ :=
  past.getLast?.elim iLast fun p => p.framenumber

theorem missing_snoc (ns : List ℤ) (a b : ℤ) :
    missing (ns++[a, b]) = missing (ns++[a])+(b-a-1).toNat := by
  induction ns with
  | nil => simp [missing]
  | cons n ns ih =>
    cases ns with
    | nil => simp [missing]
    | cons m ns =>
      rw [List.cons_append, List.cons_append, List.cons_append, List.cons_append, missing,
        missing, ← List.cons_append, ih, List.cons_append, Nat.add_assoc]

section
variable {C : Type} {c : Codec} {o : Source} {s₀ s : FFmpegDecoder C} {past : List MediaPacket}
  {p : MediaPacket}

theorem wanted_snoc (bCopy : Bool) (iLast : ℤ) (hpast : ∀ p ∈ past, 0 ≤ p.framenumber)
    (p : MediaPacket) : wanted bCopy iLast (past++[p]) = wanted bCopy iLast past+1+
      if bCopy = true ∧ 0 ≤ lastNumber iLast past then
        (p.framenumber-lastNumber iLast past-1).toNat else 0 := by
  rcases bCopy with - | -
  · simp [wanted]
  · rw [wanted, wanted, List.map_append, List.map_singleton, List.length_append,
      List.length_singleton, if_pos rfl, if_pos rfl]
    rcases List.eq_nil_or_concat' past with rfl | ⟨front, q, rfl⟩
    · by_cases hlast : 0 ≤ iLast
      · simp [hlast, lastNumber, missing]
      · simp [hlast, lastNumber, missing]
    · have hq := hpast q (by simp)
      have hnumber : lastNumber iLast (front++[q]) = q.framenumber := by
        rw [lastNumber, List.getLast?_append, List.getLast?_singleton]
        rfl
      have hmissing := missing_snoc ((if 0 ≤ iLast then [iLast] else [])++
        front.map fun p => p.framenumber) q.framenumber p.framenumber
      simp only [hnumber, hq, and_self, if_true, List.map_append, List.map_singleton,
        List.append_assoc, List.singleton_append] at hmissing ⊢
      omega

/-- The decoder behind the frames `past`. What it holds back counts as it will come out. -/
structure Behind (c : Codec) (o : Source) (s₀ : FFmpegDecoder C) (past : List MediaPacket)
    (s : FFmpegDecoder C) : Prop where
  emitted : ∃ f n, Emitted c o s₀ f n s ∧
    (n : ℤ)+(s.iFrames-s.iDecoded) = wanted s₀.bCopy s₀.iLast past+rejected c 0 past
  decoded : s.iDecoded ≤ s.iFrames
  ctx : s.pDecoderCtx = if past = [] then none else some past.length
  last : s.iLast = lastNumber s₀.iLast past
  none : past = [] → s.iFrames = 0 ∧ s.iDecoded = 0

/-- What a call of the decoder does, with the pictures before it and behind it. -/
structure Called (c : Codec) (s t : FFmpegDecoder C) (p : MediaPacket) (i n m : ℕ) : Prop where
  total : (m : ℤ)+(t.iFrames-t.iDecoded) = n+(s.iFrames-s.iDecoded)+1+
    if (c.decode i p.size).1 = p.size then 0 else 1
  decoded : t.iDecoded-s.iDecoded ≤ t.iFrames-s.iFrames
  ctx : t.pDecoderCtx = some (i+1)
  last : t.iLast = s.iLast

theorem decode_called {f : ℤ} {n i : ℕ} (h : Emitted c o s₀ f n s)
    (hctx : s.pDecoderCtx = some i) :
    ∃ m, Emitted c o s₀ f m (s.decode c o p) ∧ Called c s (s.decode c o p) p i n m := by
  have hcalled : s.called = { s with pDecoderCtx := some (i+1) } := by
    rw [FFmpegDecoder.called, hctx]
    rfl
  have hemitted : Emitted c o s₀ f n { s.called with iFrames := s.iFrames+1 } := by
    rw [hcalled]
    exact ⟨h.routed, h.frame, h.unit, h.size, h.copy⟩
  have hfinished : Emitted c o s₀ f n
      { s.called with iFrames := s.iFrames+1, iDecoded := s.called.iDecoded+1 } :=
    ⟨hemitted.routed, hemitted.frame, hemitted.unit, hemitted.size, hemitted.copy⟩
  rw [FFmpegDecoder.decode, hctx, Option.getD_some]
  simp only
  by_cases htaken : (c.decode i p.size).1 = p.size
  · rw [if_pos htaken]
    by_cases hpicture : (c.decode i p.size).2 = true
    · refine ⟨n+1, ?_, ?_⟩
      · rw [if_pos hpicture]
        exact hfinished.output
      · rw [if_pos hpicture, output_eq hfinished.size, hcalled]
        constructor
        · simp only
          rw [if_pos htaken]
          push_cast
          ring
        · simp
        · rfl
        · rfl
    · refine ⟨n, ?_, ?_⟩
      · rw [if_neg hpicture]
        exact hemitted
      · rw [if_neg hpicture, hcalled]
        constructor
        · simp only
          rw [if_pos htaken]
          ring
        · simp
        · rfl
        · rfl
  · rw [if_neg htaken]
    refine ⟨n+1, hemitted.output, ?_⟩
    rw [output_eq hemitted.size, hcalled]
    constructor
    · simp only
      rw [if_neg htaken]
      push_cast
      ring
    · simp
    · rfl
    · rfl

theorem iLost_eq (s : FFmpegDecoder C) (p : MediaPacket) :
    s.iLost p = if s.bCopy = true ∧ 0 ≤ s.iLast then (p.framenumber-s.iLast-1).toNat else 0 := by
  rw [FFmpegDecoder.iLost]
  by_cases hcopy : s.bCopy = true ∧ 0 ≤ s.iLast
  · rw [if_pos hcopy]
    by_cases hgap : s.iLast+1 < p.framenumber
    · rw [if_pos ⟨hcopy.1, hcopy.2, hgap⟩]
    · rw [if_neg fun h => hgap h.2.2]
      omega
  · rw [if_neg hcopy, if_neg fun h => hcopy ⟨h.1, h.2.1⟩]

/-- A frame for an open decoder. -/
theorem frame_behind {f : ℤ} {n i : ℕ} {t : FFmpegDecoder C} (h : Emitted c o s₀ f n s)
    (hctx : s.pDecoderCtx = some i) (ht : (s.copyLost c o p).decode c o p = t) :
    ∃ m, Emitted c o s₀ f m t ∧ (m : ℤ)+(t.iFrames-t.iDecoded) = n+(s.iFrames-s.iDecoded)+1+
        (if s.bCopy = true ∧ 0 ≤ s.iLast then (p.framenumber-s.iLast-1).toNat else 0 : ℕ)+
        (if (c.decode i p.size).1 = p.size then 0 else 1 : ℕ) ∧
      t.iDecoded-s.iDecoded ≤ t.iFrames-s.iFrames ∧ t.pDecoderCtx = some (i+1) ∧
      t.iLast = p.framenumber := by
  rcases h.outputs (s.iLost p) with ⟨hemitted, hbeside⟩
  have hcopied : Emitted c o s₀ f (n+s.iLost p) (s.copyLost c o p) :=
    ⟨hemitted.routed, hemitted.frame, hemitted.unit, hemitted.size, hemitted.copy⟩
  rcases decode_called (p := p) hcopied (hbeside.ctx.trans hctx) with ⟨m, hm, hcalled⟩
  rw [ht] at hm hcalled
  have hframes : (s.copyLost c o p).iFrames = s.iFrames := hbeside.frames
  have hdecoded : (s.copyLost c o p).iDecoded = s.iDecoded := hbeside.decoded
  have htotal := hcalled.total
  have hfewer := hcalled.decoded
  rw [hframes, hdecoded] at htotal hfewer
  refine ⟨m, hm, ?_, hfewer, hcalled.ctx, hcalled.last⟩
  rw [htotal, iLost_eq]
  push_cast
  ring

theorem receiveFrame_behind {t : FFmpegDecoder C} (h : Behind c o s₀ past s)
    (hpast : ∀ q ∈ past, 0 ≤ q.framenumber) (hrun : s.receiveFrame c o p = .ok t) :
    Behind c o s₀ (past++[p]) t := by
  rcases h.emitted with ⟨f, n, hemitted, htotal⟩
  have hopen : ∃ f', ∃ u : FFmpegDecoder C, Emitted c o s₀ f' n u ∧
      u.pDecoderCtx = some past.length ∧ u.iFrames = s.iFrames ∧ u.iDecoded = s.iDecoded ∧
      u.iLast = s.iLast ∧ (u.copyLost c o p).decode c o p = t := by
    rw [FFmpegDecoder.receiveFrame] at hrun
    simp only [bind, Except.bind, pure, Except.pure] at hrun
    by_cases hpast' : past = []
    · have hctx := h.ctx
      rw [if_pos hpast'] at hctx
      have hn : n = 0 := by
        have hnone := h.none hpast'
        rw [hnone.1, hnone.2, hpast'] at htotal
        by_cases hlast : 0 ≤ s₀.iLast
        · simpa [wanted, missing, rejected, hlast] using htotal
        · simpa [wanted, missing, rejected, hlast] using htotal
      rw [if_pos hctx, FFmpegDecoder.decoder_init] at hrun
      by_cases hopens : c.opens p.codec = true
      · rw [if_pos hopens] at hrun
        simp only at hrun
        refine ⟨p.framenumber, { s with pDecoderCtx := some 0, iFrame := p.framenumber }, ?_, ?_,
          rfl, rfl, rfl, Except.ok.inj hrun⟩
        · subst hn
          exact ⟨hemitted.routed, (add_zero _).symm, hemitted.unit, hemitted.size, hemitted.copy⟩
        · rw [hpast']
          rfl
      · rw [if_neg hopens] at hrun
        cases hrun
    · have hctx := h.ctx
      rw [if_neg hpast'] at hctx
      rw [if_neg (by rw [hctx]; exact Option.some_ne_none _)] at hrun
      exact ⟨f, s, hemitted, hctx, rfl, rfl, rfl, Except.ok.inj hrun⟩
  rcases hopen with ⟨f', u, hu, hctx, hframes, hdecoded, hlast, ht⟩
  rcases frame_behind hu hctx ht with ⟨m, hm, htotal', hfewer, hctx', hlast'⟩
  have hcopy := hu.copy
  have hold := h.decoded
  rw [hframes, hdecoded, hlast, hcopy, h.last] at htotal'
  rw [hframes, hdecoded] at hfewer
  refine ⟨⟨f', m, hm, ?_⟩, by omega, ?_, ?_, ?_⟩
  · rw [wanted_snoc _ _ hpast, rejected_snoc, Nat.zero_add]
    push_cast at htotal' ⊢
    omega
  · rw [hctx', if_neg (by simp), List.length_append, List.length_singleton]
  · rw [hlast', lastNumber, List.getLast?_append, List.getLast?_singleton]
    rfl
  · intro hempty
    simp at hempty

variable {convertMP4 : Converter C}

theorem output_mp4 (s : FFmpegDecoder C) : (s.output c o).oMP4 = s.oMP4 := by
  have hsized : (s.sized c).oMP4 = s.oMP4 := by
    rw [FFmpegDecoder.sized]
    split_ifs <;> rfl
  rw [FFmpegDecoder.output]
  split_ifs <;> exact hsized

theorem outputs_mp4 (n : ℕ) (s : FFmpegDecoder C) : (s.outputs c o n).oMP4 = s.oMP4 := by
  induction n generalizing s with
  | zero => rfl
  | succ n ih => rw [FFmpegDecoder.outputs, ih, output_mp4]

theorem decode_mp4 (s : FFmpegDecoder C) (p : MediaPacket) :
    (s.decode c o p).oMP4 = s.oMP4 := by
  rw [FFmpegDecoder.decode]
  simp only
  split_ifs
  · rw [output_mp4]
    rfl
  · rfl
  · rw [output_mp4]
    rfl

theorem receiveFrame_mp4 {t : FFmpegDecoder C} (hrun : s.receiveFrame c o p = .ok t) :
    t.oMP4 = s.oMP4 := by
  have hframe : ∀ u : FFmpegDecoder C, ((u.copyLost c o p).decode c o p).oMP4 = u.oMP4 :=
    fun u => (decode_mp4 _ p).trans (outputs_mp4 _ u)
  rw [FFmpegDecoder.receiveFrame] at hrun
  simp only [bind, Except.bind, pure, Except.pure] at hrun
  by_cases hctx : s.pDecoderCtx = none
  · rw [if_pos hctx, FFmpegDecoder.decoder_init] at hrun
    by_cases hopens : c.opens p.codec = true
    · rw [if_pos hopens] at hrun
      simp only at hrun
      rw [← Except.ok.inj hrun, hframe]
    · rw [if_neg hopens] at hrun
      cases hrun
  · rw [if_neg hctx] at hrun
    rw [← Except.ok.inj hrun, hframe]

theorem behind_mp4 (h : Behind c o s₀ past s) (m : C) :
    Behind c o s₀ past { s with oMP4 := m } := by
  rcases h.emitted with ⟨f, n, hemitted, htotal⟩
  exact ⟨⟨f, n, ⟨hemitted.routed, hemitted.frame, hemitted.unit, hemitted.size, hemitted.copy⟩,
    htotal⟩, h.decoded, h.ctx, h.last, h.none⟩

theorem receive_frames {packets : List MediaPacket} {t : FFmpegDecoder C}
    (h : (∀ q ∈ past, 0 ≤ q.framenumber) → Behind c o s₀ past s)
    (hrun : packets.foldlM (fun s pPckt => s.receive c o convertMP4 pPckt) s = .ok t) :
    ∃ frames, framesOf convertMP4 packets s.oMP4 = .ok frames ∧
      ((∀ q ∈ past++frames, 0 ≤ q.framenumber) → Behind c o s₀ (past++frames) t) := by
  induction packets generalizing past s with
  | nil =>
    obtain rfl := Except.ok.inj hrun
    exact ⟨[], rfl, by rwa [List.append_nil]⟩
  | cons p ps ih =>
    rw [List.foldlM_cons] at hrun
    rw [framesOf]
    rcases hreceive : s.receive c o convertMP4 p with e | u
    · rw [hreceive] at hrun
      cases hrun
    · rw [hreceive] at hrun
      rw [FFmpegDecoder.receive] at hreceive
      rcases hconvert : FFmpegDecoder.convert convertMP4 s.oMP4 p with e | ⟨m, pFrame⟩
      · rw [hconvert] at hreceive
        cases hreceive
      · rw [hconvert] at hreceive
        have hnext : (∀ q ∈ past, 0 ≤ q.framenumber) → Behind c o s₀ past { s with oMP4 := m } :=
          fun hpast => behind_mp4 (h hpast) m
        simp only [bind, Except.bind] at hreceive hrun ⊢
        cases pFrame with
        | none =>
          obtain rfl := Except.ok.inj hreceive
          rcases ih hnext hrun with ⟨frames, hframes, hbehind⟩
          refine ⟨frames, ?_, hbehind⟩
          simp only [hframes]
          rfl
        | some pFrame =>
          have hbehind : (∀ q ∈ past++[pFrame], 0 ≤ q.framenumber) →
              Behind c o s₀ (past++[pFrame]) u := by
            intro hall
            have hpast := fun q hq => hall q (List.mem_append_left _ hq)
            exact receiveFrame_behind (hnext hpast) hpast hreceive
          rcases ih hbehind hrun with ⟨frames, hframes, hmore⟩
          have hmp4 : u.oMP4 = m := receiveFrame_mp4 hreceive
          rw [hmp4] at hframes
          refine ⟨pFrame::frames, ?_, ?_⟩
          · simp only [hframes]
            rfl
          · rwa [List.append_assoc] at hmore

/-! ## Frame count -/

/-- The decoder before a stream. -/
structure Idle (c : Codec) (s : FFmpegDecoder C) : Prop where
  frames : s.iFrames = 0
  decoded : s.iDecoded = 0
  ctx : s.pDecoderCtx = none
  size : s.iSize < 0 ∨ s.iSize = c.size

theorem idle_behind (h : Idle c s) : Behind c o s [] s := by
  refine ⟨⟨s.iFrame, 0, ?_, ?_⟩, ?_, ?_, rfl, fun _ => ⟨h.frames, h.decoded⟩⟩
  · refine ⟨?_, (add_zero _).symm, (add_zero _).symm, h.size, rfl⟩
    rw [yuvs, List.range_zero, List.map_nil, List.append_nil]
  · rw [h.frames, h.decoded]
    by_cases hlast : 0 ≤ s.iLast
    · simp [wanted, missing, rejected, hlast]
    · simp [wanted, missing, rejected, hlast]
  · rw [h.frames, h.decoded]
  · rw [h.ctx, if_pos rfl]

theorem yuvs_length (f u : ℤ) (n : ℕ) : (yuvs c o f u n).length = n := by
  rw [yuvs, List.length_map, List.length_range]

theorem yuvs_media {f u : ℤ} {n : ℕ} (hp : p ∈ yuvs c o f u n) :
    p.type = .media ∧ p.codec = .yuv := by
  rcases List.mem_map.mp hp with ⟨i, -, rfl⟩
  exact ⟨rfl, rfl⟩

theorem yuvs_chain (f u : ℤ) (n : ℕ) : (yuvs c o f u n).IsChain fun p q =>
    q.framenumber = p.framenumber+1 ∧ q.dts = p.dts+o.inc := by
  rw [yuvs, List.isChain_map, List.isChain_range]
  intro i _
  simp only [yuvPacket]
  constructor
  · push_cast
    ring
  · push_cast
    ring

/-- The end brings out what the decoder holds. -/
theorem reset_routed {pEnd : MediaPacket} (h : Behind c o s₀ past s) (hpast : past ≠ []) :
    ∃ f iFrame iUnit, (s.receive_reset c o pEnd).routed = s₀.routed++
      yuvs c o f s₀.iUnit (wanted s₀.bCopy s₀.iLast past+rejected c 0 past)++
      [controlPacket o pEnd.type iFrame iUnit] := by
  rcases h.emitted with ⟨f, n, hemitted, htotal⟩
  have hctx := h.ctx
  have hfewer := h.decoded
  rw [if_neg hpast] at hctx
  have hdrain := hemitted.drain (s.iFrames-s.iDecoded).toNat
  have hcount : n+(s.iFrames-s.iDecoded).toNat =
      wanted s₀.bCopy s₀.iLast past+rejected c 0 past := by omega
  rw [FFmpegDecoder.receive_reset, if_neg (by rw [hctx]; exact Option.some_ne_none _)]
  refine ⟨f, (s.drain c o (s.iFrames-s.iDecoded).toNat).iFrame,
    (s.drain c o (s.iFrames-s.iDecoded).toNat).iUnit, ?_⟩
  rw [← hcount, ← hdrain.routed]
  rfl

end

theorem decoder_counts_iff {C : Type} (c : Codec) (o : Source) (convertMP4 : Converter C)
    (s t : FFmpegDecoder C) (packets frames : List MediaPacket) (pEnd : MediaPacket)
    (hidle : Idle c s) (hrun : s.run c o convertMP4 packets pEnd = .ok t)
    (hframes : framesOf convertMP4 packets s.oMP4 = .ok frames)
    (hnumbers : ∀ p ∈ frames, 0 ≤ p.framenumber) :
    Decodes o s t frames pEnd ↔ frames ≠ [] ∧ TakesAll c frames := by
  have hall : TakesAll c frames ↔ rejected c 0 frames = 0 := by
    rw [rejected_zero_iff]
    simp only [TakesAll, Nat.zero_add]
  rw [FFmpegDecoder.run] at hrun
  rcases hfold : packets.foldlM (fun s pPckt => s.receive c o convertMP4 pPckt) s with e | u
  · rw [hfold] at hrun
    cases hrun
  · rw [hfold] at hrun
    obtain rfl := Except.ok.inj hrun
    rcases receive_frames (fun _ => idle_behind hidle) hfold with
      ⟨frames', hframes', hbehind⟩
    rw [hframes] at hframes'
    obtain rfl := Except.ok.inj hframes'
    have hbehind := hbehind hnumbers
    rw [List.nil_append] at hbehind
    by_cases hempty : frames = []
    · have hctx := hbehind.ctx
      rw [if_pos hempty] at hctx
      rcases hbehind.emitted with ⟨f, n, hemitted, htotal⟩
      have hnone := hbehind.none hempty
      constructor
      · rintro ⟨ys, pControl, hrouted, hlength, -⟩
        rw [FFmpegDecoder.receive_reset, if_pos hctx] at hrouted
        have hsize := congrArg List.length (hemitted.routed.symm.trans hrouted)
        have hzero : rejected c 0 frames = 0 := by rw [hempty, rejected]
        rw [hnone.1, hnone.2, hzero] at htotal
        simp only [List.length_append, yuvs_length, List.length_singleton, hlength] at hsize
        omega
      · intro hboth
        exact absurd hempty hboth.1
    · rcases reset_routed hbehind hempty with ⟨f, iFrame, iUnit, hrouted⟩
      rw [hall]
      constructor
      · rintro ⟨ys, pControl, hother, hlength, -⟩
        have hsize := congrArg List.length (hrouted.symm.trans hother)
        simp only [List.length_append, yuvs_length, List.length_singleton, hlength] at hsize
        exact ⟨hempty, by omega⟩
      · rintro ⟨-, hzero⟩
        rw [hzero, Nat.add_zero] at hrouted
        exact ⟨_, _, hrouted, yuvs_length _ _ _, fun p hp => yuvs_media hp, yuvs_chain _ _ _, rfl⟩

/-- A decoder that holds back `d` frames and rejects some of them. -/
def delayLine (d : ℕ) (rejects : ℕ → Bool) : Codec where
  opens _ := true
  decode i iSize :=
    if rejects i = true then (-1, false)
    else (iSize, d ≤ ((List.range i).filter fun j => rejects j = false).length)
  size := 6

theorem delayLine_takes (d : ℕ) {rejects : ℕ → Bool} {i : ℕ} (h : rejects i = false) (n : ℕ) :
    ((delayLine d rejects).decode i n).1 = n := by
  simp [delayLine, h]

def exampleSource : Source := ⟨3600, 0, 1, ⟨.video, .yuv, 2, 2, 0, 0, 0, []⟩⟩

/-- Every packet is a frame. -/
def noConverter : Converter Unit := fun oMP4 pPckt => .ok (oMP4, some pPckt)

def frameWith (framenumber : ℤ) : MediaPacket :=
  { (MediaPacket.new .media .video 4).pushed [1, 2] with
    codec := .mp2v, framenumber := framenumber }

theorem new_idle (c : Codec) (bCopy : Bool) : Idle c (FFmpegDecoder.new bCopy ()) :=
  ⟨rfl, rfl, rfl, Or.inl (show (-1 : ℤ) < 0 by decide)⟩

theorem decoder_counts_witness :
    ∃ t, (FFmpegDecoder.new true ()).run (delayLine 2 fun _ => false) exampleSource noConverter
        [frameWith 0, frameWith 1, frameWith 4] (MediaPacket.new .reset .video 0) = .ok t ∧
      Decodes exampleSource (FFmpegDecoder.new true ()) t
        [frameWith 0, frameWith 1, frameWith 4] (MediaPacket.new .reset .video 0) := by
  refine ⟨_, rfl, ?_⟩
  refine (decoder_counts_iff (delayLine 2 fun _ => false) exampleSource noConverter _ _
    [frameWith 0, frameWith 1, frameWith 4] _ _ (new_idle _ _) rfl rfl (by decide)).mpr ?_
  refine ⟨List.cons_ne_nil _ _, ?_⟩
  intro i p _
  exact delayLine_takes 2 rfl p.size

/-- A rejected frame gets a picture when it is rejected and another one in the end. -/
theorem decoder_counts_rejected :
    ¬ ∀ (c : Codec) (o : Source) (convertMP4 : Converter Unit) (s t : FFmpegDecoder Unit)
      (packets frames : List MediaPacket) (pEnd : MediaPacket), Idle c s →
      s.run c o convertMP4 packets pEnd = .ok t →
      framesOf convertMP4 packets s.oMP4 = .ok frames → (∀ p ∈ frames, 0 ≤ p.framenumber) →
      Decodes o s t frames pEnd := by
  intro hall
  have hrun : ∃ t, (FFmpegDecoder.new false ()).run (delayLine 0 fun i => i = 1) exampleSource
      noConverter [frameWith 0, frameWith 1] (MediaPacket.new .end .video 0) = .ok t ∧
      t.routed.length = 4 := ⟨_, rfl, rfl⟩
  rcases hrun with ⟨t, hrun, hsize⟩
  rcases hall _ _ _ _ t _ [frameWith 0, frameWith 1] _ (new_idle _ _) hrun rfl (by decide) with
    ⟨ys, pControl, hrouted, hlength, -⟩
  rw [hrouted, List.length_append, List.length_append, hlength, List.length_singleton] at hsize
  exact absurd hsize (by decide)

end Sirannon.FFmpegDecoding
