import Sirannon.Packetizer

/-!
# AC-3 packetizer

Every packet begins with a header of two bytes. A fragment gets it while it is
empty, a frame that is sent in one packet has its data already; the room for
the header is added behind the data in both cases, and nobody has written to it.
-/

set_option autoImplicit false

namespace Sirannon.AC3
open MachineInt Bits Media Packetization

structure AC3Packetizer extends Packetizer where
  bDraft : Bool
  deriving DecidableEq, Repr

def AC3Packetizer.init (mtu : ℤ) (draft : Bool) : AC3Packetizer := ⟨Packetizer.init mtu, draft⟩

/-- `oHeader` of the draft version: one frame, its type, is it a fragment, redundant data. -/
def draftFields (iFrags : ℤ) (bFirst bFiveEights : Bool) : List (ℕ × ℕ) :=
  [(8, 1), (2, 0), (1, (decide (1 < iFrags)).toNat), (1, (bFirst && bFiveEights).toNat), (4, 0)]

def header (bDraft : Bool) (iFrags : ℤ) (bFirst bFiveEights : Bool) :
    Except SirannonException (List UInt8) :=
  if bDraft then do
    let oHeader ← (OBits.new 2).writes (draftFields iFrags bFirst bFiveEights)
    return oHeader.data
  else
    .ok [if 1 < iFrags then if bFirst then if bFiveEights then 1 else 2 else 3 else 0,
      UInt8.ofNat (uint32 iFrags)]

/-- What the memory holds where `push_back( 2 )` extends a packet. -/
abbrev Spare := List UInt8

def fillHeader (bDraft : Bool) (spare : Spare) (pPckt : MediaPacket) (iFrags : ℤ)
    (bFirst bFiveEights : Bool) : Except SirannonException MediaPacket := do
  let pPckt ← pPckt.push_back spare
  let oHeader ← header bDraft iFrags bFirst bFiveEights
  return { pPckt with bytes := oHeader ++ pPckt.bytes.drop 2 }

def AC3Packetizer.send (s : AC3Packetizer) (pPckt : MediaPacket) : AC3Packetizer :=
  { s with toPacketizer := s.toPacketizer.number { pPckt with mux := .RTP } }

def outOfFuel : SirannonException := undefinedBehaviour "the loop goes on"

/-- The flags of a fragment, with `pPckt` what is left of the frame. -/
def marked (pFragment pPckt : MediaPacket) (bFirst : Bool) : MediaPacket :=
  { pFragment with
    framestart := pFragment.framestart && bFirst
    frameend := pFragment.frameend && decide (pPckt.size = 0) }

/-- One fragment, and what is left of the frame. -/
def fragment (s : AC3Packetizer) (spare : Spare) (pPckt : MediaPacket) (iFragments : ℤ)
    (bFirst bFiveEights : Bool) : Except SirannonException (MediaPacket × MediaPacket) := do
  let pFragment := (MediaPacket.new .media .video (uint32 s.iMTU)).set_metadata pPckt
  let pFragment ← fillHeader s.bDraft spare pFragment iFragments bFirst bFiveEights
  let iWrite := min (uint32 (s.iMTU-2)) pPckt.size
  let pFragment ← pFragment.push_back (pPckt.bytes.take iWrite)
  let pPckt ← pPckt.pop_front iWrite
  return (marked pFragment pPckt bFirst, pPckt)

/-- The loop over the fragments; `spare` is what the memory holds for each of them. -/
def fragments (iFragments : ℤ) (bFiveEights : Bool) (spare : ℤ → Spare) :
    ℕ → AC3Packetizer → MediaPacket → Bool → Except SirannonException AC3Packetizer
  | 0, s, pPckt, _ => if pPckt.size = 0 then .ok s else .error outOfFuel
  | fuel+1, s, pPckt, bFirst =>
    if pPckt.size = 0 then .ok s
    else do
      let r ← fragment s (spare s.iUnit) pPckt iFragments bFirst bFiveEights
      fragments iFragments bFiveEights spare fuel (s.send r.1) r.2 false

def AC3Packetizer.receive (s : AC3Packetizer) (spare : ℤ → Spare) (pPckt : MediaPacket) :
    Except SirannonException AC3Packetizer :=
  if pPckt.codec ≠ .ac3 then .error (typeError "Invalid codec, expected(ac3)")
  else if pPckt.mux ≠ .ES then .error (typeError "Invalid packetization, expected(ES)")
  else
    let iFullSize := int32 pPckt.size
    if s.iMTU < int32 (iFullSize+2) then
      if s.iMTU = 2 then .error (undefinedBehaviour "division by zero")
      else
        let iFragments := (iFullSize-1).tdiv (s.iMTU-2)+1
        let bFiveEights := decide (int32 (iFullSize*2+iFullSize*8) ≤ s.iMTU-2)
        fragments iFragments bFiveEights spare pPckt.size s pPckt true
    else do
      let pPckt ← fillHeader s.bDraft (spare s.iUnit) pPckt 1 true true
      return s.send pPckt

/-! ## What the packets carry -/

/-- The first of several packets is marked, by `b`. -/
def firsts (b : Bool) : ℕ → List Bool
  | 0 => []
  | n+1 => b :: List.replicate n false

/-- The last of several packets is marked. -/
def lasts : ℕ → List Bool
  | 0 => []
  | 1 => [true]
  | n+2 => false :: lasts (n+1)

/-- The packets carry the frame: a header of two bytes and a part of the frame each. -/
structure Carries (bDraft : Bool) (iMTU : ℤ) (frame : List UInt8) (ps : List MediaPacket) : Prop where
  size : ∀ p ∈ ps, 3 ≤ p.size ∧ (p.size : ℤ) ≤ iMTU
  whole : ps.flatMap (fun p => p.bytes.drop 2) = frame
  starts : ps.map (fun p => p.framestart) = firsts true ps.length
  ends : ps.map (fun p => p.frameend) = lasts ps.length
  count : bDraft = false → ∀ p ∈ ps, (p.bytes.getD 1 0).toNat = ps.length

/-- A whole frame in a packet. -/
structure Frame (pPckt : MediaPacket) : Prop where
  codec : pPckt.codec = .ac3
  mux : pPckt.mux = .ES
  framestart : pPckt.framestart = true
  frameend : pPckt.frameend = true
  size : 1 ≤ pPckt.size ∧ pPckt.size < 2^32

/-- Whatever the memory holds, the packets sent for a frame carry it. -/
def Packetizes (s : AC3Packetizer) (frame : MediaPacket) : Prop :=
  ∀ spare : ℤ → Spare, (∀ i, (spare i).length = 2) →
    ∃ s' ps, s.receive spare frame = .ok s' ∧ s'.routed = s.routed ++ ps ∧
      Carries s.bDraft s.iMTU frame.bytes ps

theorem header_ok (bDraft : Bool) (iFrags : ℤ) (bFirst bFiveEights : Bool) :
    ∃ bs, header bDraft iFrags bFirst bFiveEights = .ok bs ∧ bs.length = 2 ∧
      (bDraft = false → bs.getD 1 0 = UInt8.ofNat (uint32 iFrags)) := by
  rw [header]
  cases bDraft with
  | false => exact ⟨_, rfl, rfl, fun _ => rfl⟩
  | true =>
    have hsum : ((draftFields iFrags bFirst bFiveEights).map Prod.fst).sum = 8*2 := rfl
    obtain ⟨o, ho, -, hlength⟩ := OBits.writes_new (draftFields iFrags bFirst bFiveEights) hsum
      (Nat.le_refl 2) (by simp [draftFields])
    refine ⟨o.data, ?_, hlength, by simp⟩
    rw [if_pos rfl, ho]
    rfl

variable {s : AC3Packetizer} {pPckt : MediaPacket} {n : ℕ}

theorem uint32_mtu (hmtu : s.iMTU = n+3) (hmax : s.iMTU < 2^31) :
    uint32 s.iMTU = n+3 ∧ uint32 (s.iMTU-2) = n+1 := by
  rw [uint32, uint32]
  omega

/-- What one turn of the loop sends; at most `n+1` bytes of the frame go into it. -/
structure Piece (s : AC3Packetizer) (n : ℕ) (pPckt : MediaPacket) (iFrags : ℤ) (bFirst : Bool)
    (q : MediaPacket) : Prop where
  size : q.size = min (n+1) pPckt.size+2
  part : q.bytes.drop 2 = pPckt.bytes.take (n+1)
  framestart : q.framestart = bFirst
  frameend : q.frameend = decide (pPckt.size ≤ n+1)
  count : s.bDraft = false → q.bytes.getD 1 0 = UInt8.ofNat (uint32 iFrags)

theorem fragment_piece (spare : Spare) (iFrags : ℤ) (bFirst bFiveEights : Bool)
    (hspare : spare.length = 2) (hmtu : s.iMTU = n+3) (hmax : s.iMTU < 2^31)
    (hstart : pPckt.framestart = true) (hend : pPckt.frameend = true) :
    ∃ q, fragment s spare pPckt iFrags bFirst bFiveEights =
      .ok (q, pPckt.popped (min (n+1) pPckt.size)) ∧ Piece s n pPckt iFrags bFirst q := by
  obtain ⟨hmtu₀, hmtu₂⟩ := uint32_mtu hmtu hmax
  obtain ⟨bs, hbs, hlength, hcount⟩ := header_ok s.bDraft iFrags bFirst bFiveEights
  have hsize : (pPckt.bytes.take (min (n+1) pPckt.size)).length = min (n+1) pPckt.size := by
    rw [List.length_take, MediaPacket.size]
    omega
  generalize hnew : (MediaPacket.new .media .video (n+3)).set_metadata pPckt = pNew
  have hfront : pNew.iFront = 32 := by rw [← hnew]; rfl
  have hbytes : pNew.bytes = [] := by rw [← hnew]; rfl
  have hroom : pNew.max_size = n+3+64 := by rw [← hnew]; rfl
  have hmeta : pNew.toMetadata = pPckt.toMetadata := by rw [← hnew]; rfl
  have hfill : fillHeader s.bDraft spare pNew iFrags bFirst bFiveEights =
      .ok { pNew with bytes := bs } := by
    rw [fillHeader, push_back_ok (by rw [MediaPacket.size, hbytes, hfront, hroom, hspare]; simp), hbs]
    show Except.ok { pNew with bytes := bs ++ (pNew.pushed spare).bytes.drop 2 } = _
    rw [pushed_bytes, hbytes, List.nil_append, List.drop_of_length_le hspare.le, List.append_nil]
  have hpush : MediaPacket.push_back { pNew with bytes := bs }
      (pPckt.bytes.take (min (n+1) pPckt.size)) =
      .ok { pNew with bytes := bs ++ pPckt.bytes.take (min (n+1) pPckt.size) } := by
    apply push_back_ok
    rw [hsize]
    simp only [MediaPacket.size, hlength, hfront, hroom]
    omega
  rw [fragment, hmtu₀, hmtu₂, hnew, hfill]
  refine ⟨marked { pNew with bytes := bs ++ pPckt.bytes.take (min (n+1) pPckt.size) }
    (pPckt.popped (min (n+1) pPckt.size)) bFirst, ?_, ?_, ?_, ?_, ?_, ?_⟩
  · show (MediaPacket.push_back { pNew with bytes := bs }
      (pPckt.bytes.take (min (n+1) pPckt.size)) >>= fun q =>
      pPckt.pop_front (min (n+1) pPckt.size) >>= fun r => Except.ok (marked q r bFirst, r)) = _
    rw [hpush, pop_front_ok (Nat.min_le_right ..)]
    rfl
  · show (bs ++ pPckt.bytes.take (min (n+1) pPckt.size)).length = _
    rw [List.length_append, hlength, hsize]
    omega
  · show (bs ++ pPckt.bytes.take (min (n+1) pPckt.size)).drop 2 = _
    rw [List.drop_left' hlength, MediaPacket.size, List.take_eq_take_iff]
    omega
  · show (pNew.framestart && bFirst) = bFirst
    rw [show pNew.framestart = true by rw [hmeta]; exact hstart, Bool.true_and]
  · show (pNew.frameend && decide ((pPckt.popped (min (n+1) pPckt.size)).size = 0)) = _
    rw [show pNew.frameend = true by rw [hmeta]; exact hend, Bool.true_and, popped_size]
    congr 1
    apply propext
    omega
  · intro hdraft
    show (bs ++ pPckt.bytes.take (min (n+1) pPckt.size)).getD 1 0 = _
    rw [List.getD_append _ _ _ _ (by omega), hcount hdraft]

/-- What the loop sends for `pPckt`, with `bFirst` the mark of the first packet. -/
structure Pieces (bDraft : Bool) (n : ℕ) (pPckt : MediaPacket) (iFrags : ℤ) (bFirst : Bool)
    (ps : List MediaPacket) : Prop where
  length : ps.length = (pPckt.size+n)/(n+1)
  size : ∀ p ∈ ps, 3 ≤ p.size ∧ p.size ≤ n+3
  whole : ps.flatMap (fun p => p.bytes.drop 2) = pPckt.bytes
  starts : ps.map (fun p => p.framestart) = firsts bFirst ps.length
  ends : ps.map (fun p => p.frameend) = lasts ps.length
  count : bDraft = false → ∀ p ∈ ps, p.bytes.getD 1 0 = UInt8.ofNat (uint32 iFrags)

theorem firsts_false (k : ℕ) : firsts false k = List.replicate k false := by
  cases k with
  | zero => rfl
  | succ k => rfl

theorem pieces_nil (bDraft : Bool) (n : ℕ) (iFrags : ℤ) (bFirst : Bool) (h : pPckt.size = 0) :
    Pieces bDraft n pPckt iFrags bFirst [] := by
  have hbytes : pPckt.bytes = [] := List.length_eq_zero_iff.mp h
  refine ⟨?_, by simp, hbytes.symm, rfl, rfl, by simp⟩
  rw [h, Nat.zero_add, Nat.div_eq_of_lt (Nat.lt_succ_self n)]
  rfl

theorem pieces_cons {iFrags : ℤ} {bFirst : Bool} {q p : MediaPacket} {ps : List MediaPacket}
    (hpos : pPckt.size ≠ 0) (h : Piece s n pPckt iFrags bFirst q)
    (hp : p.bytes = q.bytes ∧ p.framestart = q.framestart ∧ p.frameend = q.frameend)
    (hrest : Pieces s.bDraft n (pPckt.popped (min (n+1) pPckt.size)) iFrags false ps) :
    Pieces s.bDraft n pPckt iFrags bFirst (p::ps) := by
  have hlength : (p::ps).length = (pPckt.size+n)/(n+1) := by
    rw [List.length_cons, hrest.length, popped_size]
    rcases Nat.le_total pPckt.size (n+1) with hle | hle
    · rw [Nat.min_eq_right hle, Nat.sub_self, Nat.zero_add, Nat.div_eq_of_lt (Nat.lt_succ_self n),
        show pPckt.size+n = pPckt.size-1+(n+1) by omega, Nat.add_div_right _ (Nat.succ_pos n),
        Nat.div_eq_of_lt (by omega)]
    · rw [Nat.min_eq_left hle, show pPckt.size+n = pPckt.size-(n+1)+n+(n+1) by omega,
        Nat.add_div_right _ (Nat.succ_pos n)]
  refine ⟨hlength, ?_, ?_, ?_, ?_, ?_⟩
  · rw [List.forall_mem_cons]
    refine ⟨?_, hrest.size⟩
    rw [MediaPacket.size, hp.1, ← MediaPacket.size, h.size]
    omega
  · rw [List.flatMap_cons, hrest.whole, hp.1, h.part, popped_bytes]
    rcases Nat.le_total pPckt.size (n+1) with hle | hle
    · have hshort : pPckt.bytes.length ≤ n+1 := hle
      rw [Nat.min_eq_right hle, MediaPacket.size, List.drop_length, List.append_nil,
        List.take_of_length_le hshort]
    · rw [Nat.min_eq_left hle, List.take_append_drop]
  · rw [List.map_cons, hrest.starts, firsts_false, hp.2.1, h.framestart]
    rfl
  · rw [List.map_cons, hrest.ends, hp.2.2, h.frameend]
    cases ps with
    | nil =>
      have hzero := hrest.length
      rw [List.length_nil, popped_size] at hzero
      have hlt := (Nat.div_eq_zero_iff_lt (Nat.succ_pos n)).mp hzero.symm
      rw [decide_eq_true (by omega)]
      rfl
    | cons p' ps =>
      have hmore := hrest.length
      rw [List.length_cons, popped_size] at hmore
      have hle : ¬ pPckt.size ≤ n+1 := by
        intro hle
        rw [Nat.min_eq_right hle, Nat.sub_self, Nat.zero_add,
          Nat.div_eq_of_lt (Nat.lt_succ_self n)] at hmore
        omega
      rw [decide_eq_false hle]
      rfl
  · intro hdraft
    rw [List.forall_mem_cons]
    refine ⟨?_, hrest.count hdraft⟩
    rw [hp.1, h.count hdraft]

theorem fragments_pieces (iFrags : ℤ) (bFiveEights : Bool) (spare : ℤ → Spare)
    (hspare : ∀ i, (spare i).length = 2) (fuel : ℕ) (bFirst : Bool) (hsize : pPckt.size ≤ fuel)
    (hmtu : s.iMTU = n+3) (hmax : s.iMTU < 2^31) (hstart : pPckt.framestart = true)
    (hend : pPckt.frameend = true) :
    ∃ s' ps, fragments iFrags bFiveEights spare fuel s pPckt bFirst = .ok s' ∧
      s'.routed = s.routed ++ ps ∧ Pieces s.bDraft n pPckt iFrags bFirst ps := by
  induction fuel generalizing s pPckt bFirst with
  | zero =>
    have hzero : pPckt.size = 0 := by omega
    rw [fragments, if_pos hzero]
    exact ⟨s, [], rfl, (List.append_nil _).symm, pieces_nil _ _ _ _ hzero⟩
  | succ fuel ih =>
    rw [fragments]
    by_cases hzero : pPckt.size = 0
    · rw [if_pos hzero]
      exact ⟨s, [], rfl, (List.append_nil _).symm, pieces_nil _ _ _ _ hzero⟩
    · obtain ⟨q, hq, hpiece⟩ := fragment_piece (spare s.iUnit) iFrags bFirst bFiveEights
        (hspare _) hmtu hmax hstart hend
      have hless : (pPckt.popped (min (n+1) pPckt.size)).size ≤ fuel := by
        rw [popped_size]
        omega
      obtain ⟨s', ps, hrun, hrouted, hpieces⟩ := ih (s := s.send q) false hless hmtu hmax hstart hend
      rw [if_neg hzero, hq]
      refine ⟨s', MediaPacket.setUnit { q with mux := .RTP } s.iUnit::ps, hrun, ?_,
        pieces_cons hzero hpiece ⟨rfl, rfl, rfl⟩ hpieces⟩
      rw [hrouted]
      exact List.append_assoc _ [_] ps

/-- The room for the header is behind the data of the frame, its last byte is whatever the memory
held. -/
theorem single_fails (frame : MediaPacket) (hframe : Frame frame)
    (hsingle : ¬ s.iMTU < int32 (int32 frame.size+2)) : ¬ Packetizes s frame := by
  intro h
  obtain ⟨last, hlast⟩ : ∃ last, frame.bytes.getLast? = some last := by
    rw [← Option.isSome_iff_exists, List.getLast?_isSome]
    intro hnil
    have hpos := hframe.size.1
    rw [MediaPacket.size, hnil] at hpos
    cases hpos
  obtain ⟨s', ps, hrun, hrouted, hcarries⟩ := h (fun _ => [0, last+1]) (fun _ => rfl)
  rw [AC3Packetizer.receive, if_neg (not_not.mpr hframe.codec), if_neg (not_not.mpr hframe.mux)]
    at hrun
  simp only [if_neg hsingle] at hrun
  rw [bind_ok] at hrun
  obtain ⟨q, hfill, hsend⟩ := hrun
  obtain rfl := Except.ok.inj hsend
  rw [fillHeader, bind_ok] at hfill
  obtain ⟨pushed, hpush, hfill⟩ := hfill
  rw [bind_ok] at hfill
  obtain ⟨bs, hbs, hq⟩ := hfill
  obtain ⟨bs', hbs', hlength, -⟩ := header_ok s.bDraft 1 true true
  obtain rfl : bs = bs' := Except.ok.inj (hbs.symm.trans hbs')
  have hps : ps = [MediaPacket.setUnit { q with mux := .RTP } s.iUnit] :=
    (List.append_cancel_left hrouted).symm
  have hpushed : pushed.bytes = frame.bytes ++ [0, last+1] := by
    rw [MediaPacket.push_back] at hpush
    split_ifs at hpush
    rw [← Except.ok.inj hpush]
    rfl
  have hbytes : q.bytes = bs ++ (frame.bytes ++ [0, last+1]).drop 2 := by
    rw [← Except.ok.inj hq, hpushed]
  have hwhole := hcarries.whole
  rw [hps, List.flatMap_singleton, setUnit_bytes] at hwhole
  dsimp only at hwhole
  rw [hbytes, List.drop_left' hlength] at hwhole
  have hend : (frame.bytes ++ [0, last+1]).getLast? = some (last+1) := by
    rw [List.getLast?_append]
    rfl
  have hsize : 2 < (frame.bytes ++ [0, last+1]).length := by
    have hpos : 1 ≤ frame.bytes.length := hframe.size.1
    simp only [List.length_append, List.length_cons, List.length_nil]
    omega
  have hdrop : ((frame.bytes ++ [0, last+1]).drop 2).getLast? =
      (frame.bytes ++ [0, last+1]).getLast? := by
    rw [List.getLast?_drop, if_neg (by omega)]
  rw [hwhole, hend, hlast, Option.some.injEq] at hdrop
  have hone : last+1 ≠ last := by
    intro heq
    simp at heq
  exact hone hdrop.symm

theorem receive_fragments {frame : MediaPacket} (spare : ℤ → Spare) (hframe : Frame frame)
    (hspare : ∀ i, (spare i).length = 2) (hmtu : s.iMTU = n+3) (hcut : s.iMTU < frame.size+2)
    (hmax : (frame.size : ℤ)+2 < 2^31) : ∃ s' ps, s.receive spare frame = .ok s' ∧
      s'.routed = s.routed ++ ps ∧
      Pieces s.bDraft n frame (((frame.size : ℤ)-1)/(s.iMTU-2)+1) true ps := by
  have hpos := hframe.size.1
  rw [AC3Packetizer.receive, if_neg (not_not.mpr hframe.codec), if_neg (not_not.mpr hframe.mux)]
  rw [int32_of_range (frame.size : ℤ) (by omega) (by omega)]
  dsimp only
  rw [int32_of_range ((frame.size : ℤ)+2) (by omega) hmax, if_pos hcut]
  rw [if_neg (show ¬ s.iMTU = 2 by omega), Int.tdiv_eq_ediv_of_nonneg (by omega)]
  exact fragments_pieces _ _ spare hspare frame.size true le_rfl hmtu (by omega)
    hframe.framestart hframe.frameend

/-- The number of fragments the header tells is the number of packets sent. -/
theorem fragments_count (hmtu : s.iMTU = n+3) {size : ℕ} (hpos : 1 ≤ size) :
    ((size : ℤ)-1)/(s.iMTU-2)+1 = ((size+n)/(n+1) : ℕ) := by
  have hdiv : (size+n)/(n+1) = (size-1)/(n+1)+1 := by
    rw [show size+n = size-1+(n+1) by omega, Nat.add_div_right _ (Nat.succ_pos n)]
  have hone : ((size : ℤ)-1) = ((size-1 : ℕ) : ℤ) := by omega
  have htwo : s.iMTU-2 = ((n+1 : ℕ) : ℤ) := by omega
  rw [hdiv, hone, htwo]
  push_cast
  rfl

theorem byte_count (k : ℕ) : (UInt8.ofNat (uint32 (k : ℤ))).toNat = k ↔ k ≤ 255 := by
  rw [UInt8.toNat_ofNat', uint32]
  omega

theorem carries_of_pieces {frame : MediaPacket} {ps : List MediaPacket} (hmtu : s.iMTU = n+3)
    (hpos : 1 ≤ frame.size)
    (h : Pieces s.bDraft n frame (((frame.size : ℤ)-1)/(s.iMTU-2)+1) true ps) :
    Carries s.bDraft s.iMTU frame.bytes ps ↔
      s.bDraft = true ∨ ((frame.size : ℤ)-1)/(s.iMTU-2)+1 ≤ 255 := by
  have hcount := h.count
  rw [fragments_count hmtu hpos] at hcount ⊢
  have hlength := h.length
  rw [← hlength] at hcount ⊢
  have hone : 1 ≤ ps.length := by
    rw [hlength, Nat.one_le_div_iff (Nat.succ_pos n)]
    omega
  constructor
  · intro hcarries
    cases hdraft : s.bDraft with
    | true => exact Or.inl rfl
    | false =>
      right
      obtain ⟨p, ps', hps⟩ := List.exists_cons_of_length_pos hone
      have hmem : p ∈ ps := by rw [hps]; exact List.mem_cons_self ..
      have htold := hcarries.count hdraft p hmem
      rw [hcount hdraft p hmem, byte_count] at htold
      omega
  · intro hfew
    refine ⟨?_, h.whole, h.starts, h.ends, ?_⟩
    · intro p hp
      have hle := h.size p hp
      omega
    · intro hdraft p hp
      rw [hcount hdraft p hp, byte_count]
      rcases hfew with hdraft' | hfew
      · rw [hdraft] at hdraft'
        cases hdraft'
      · omega

/-- AC-3 frames are carried exactly when they are cut into fragments, and without the draft header
into no more of them than a byte counts. -/
theorem packetizes_iff (s : AC3Packetizer) (frame : MediaPacket) (hframe : Frame frame)
    (hmtu : 3 ≤ s.iMTU) : Packetizes s frame ↔
      s.iMTU < frame.size+2 ∧ (frame.size : ℤ)+2 < 2^31 ∧
        (s.bDraft = true ∨ ((frame.size : ℤ)-1)/(s.iMTU-2)+1 ≤ 255) := by
  obtain ⟨n, hn⟩ : ∃ n : ℕ, s.iMTU = n+3 := ⟨(s.iMTU-3).toNat, by omega⟩
  have hsize := hframe.size
  by_cases hcut : s.iMTU < int32 (int32 frame.size+2)
  · have hrange : s.iMTU < frame.size+2 ∧ (frame.size : ℤ)+2 < 2^31 := by
      rw [int32, int32, Int.bmod_def, Int.bmod_def] at hcut
      split_ifs at hcut <;> omega
    rw [and_iff_right hrange.1, and_iff_right hrange.2]
    constructor
    · intro h
      have hspare : ∀ i : ℤ, (([0, 0] : Spare)).length = 2 := fun _ => rfl
      obtain ⟨s', ps, hrun, hrouted, hcarries⟩ := h (fun _ => [0, 0]) hspare
      obtain ⟨s'', ps', hrun', hrouted', hpieces⟩ :=
        receive_fragments (fun _ => [0, 0]) hframe hspare hn hrange.1 hrange.2
      obtain rfl : s' = s'' := Except.ok.inj (hrun.symm.trans hrun')
      obtain rfl : ps = ps' := List.append_cancel_left (hrouted.symm.trans hrouted')
      exact (carries_of_pieces hn hsize.1 hpieces).mp hcarries
    · intro hfew spare hspare
      obtain ⟨s', ps, hrun, hrouted, hpieces⟩ :=
        receive_fragments spare hframe hspare hn hrange.1 hrange.2
      exact ⟨s', ps, hrun, hrouted, (carries_of_pieces hn hsize.1 hpieces).mpr hfew⟩
  · constructor
    · intro h
      exact absurd h (single_fails frame hframe hcut)
    · rintro ⟨hlong, hsmall, -⟩
      rw [int32_of_range (frame.size : ℤ) (by omega) (by omega),
        int32_of_range _ (by omega) hsmall] at hcut
      exact absurd hlong hcut

def frameOf (bytes : List UInt8) : MediaPacket :=
  { MediaPacket.new .media .audio bytes.length with codec := .ac3, bytes := bytes }

theorem packetizes_fragments : Packetizes (.init 75 false) (frameOf [1, 2, 3, 4]) :=
  (packetizes_iff (.init 75 false) (frameOf [1, 2, 3, 4]) ⟨rfl, rfl, rfl, rfl, by decide⟩
    (by decide)).mpr (by decide)

/-- A frame of four bytes in one packet: the header takes the place of its first two bytes. -/
theorem start_overwritten : ¬ Packetizes (.init 1500 true) (frameOf [11, 119, 3, 4]) := by
  intro h
  obtain ⟨s', ps, hrun, hrouted, hcarries⟩ := h (fun _ => [0, 0]) (fun _ => rfl)
  have hsent : (AC3Packetizer.receive (.init 1500 true) (fun _ => [0, 0])
      (frameOf [11, 119, 3, 4])).map (fun s => s.routed.map (fun p => p.bytes)) =
      .ok [[1, 16, 3, 4, 0, 0]] := by
    decide +kernel
  rw [hrun] at hsent
  have hbytes : s'.routed.map (fun p => p.bytes) = [[1, 16, 3, 4, 0, 0]] := Except.ok.inj hsent
  rw [hrouted] at hbytes
  have hps : ps.map (fun p => p.bytes) = [[1, 16, 3, 4, 0, 0]] := hbytes
  have hwhole := hcarries.whole
  have hflat : ps.flatMap (fun p => p.bytes.drop 2) = (ps.map (fun p => p.bytes)).flatMap (List.drop 2) := by
    rw [List.flatMap_map]
  rw [hflat, hps] at hwhole
  revert hwhole
  decide

end Sirannon.AC3
