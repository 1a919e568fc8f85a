import Sirannon.AVCPacketizer

/-!
# What the H.264 packetizer sends

NAL units leave in groups: one as it is, one in fragments, or several in an
aggregate. The units received are those of the groups sent, in order, and then
those still gathered. No packet is larger than the network allows.
-/

set_option autoImplicit false

namespace Sirannon.AVC
open MachineInt Bits Media Packetization StateError

/-! ## Groups -/

/-- A NAL unit, its start code removed. -/
structure NALUnit (f : MediaPacket) : Prop where
  nonempty : f.bytes ≠ []
  type : 1 ≤ (dataAt f 0 &&& type_mask).toNat ∧ (dataAt f 0 &&& type_mask).toNat ≤ 23
  size : f.size < 2^32
  room : 4 ≤ f.iFront

/-- A fragment of a NAL unit: two header bytes and some of the data. -/
structure Piece (iMTU : ℤ) (f : MediaPacket) (flags : UInt8) (u : ℤ) (p : MediaPacket)
    (chunk : List UInt8) : Prop where
  bytes : p.bytes = ((dataAt f 0 &&& nri_mask) ||| FLAG_FU)::
    (flags ||| (dataAt f 0 &&& type_mask))::chunk
  nonempty : chunk ≠ []
  unit : p.unitnumber = u
  numbers : numbers p = numbers f
  small : (p.size : ℤ) ≤ iMTU

/-- The fragments of a NAL unit after the first one, numbered from `u` on. -/
inductive Tail (iMTU : ℤ) (f : MediaPacket) : ℤ → List MediaPacket → List UInt8 → Prop
  | last {u : ℤ} {p : MediaPacket} {chunk : List UInt8} (hp : Piece iMTU f FLAG_END u p chunk) :
      Tail iMTU f u [p] chunk
  | more {u : ℤ} {p : MediaPacket} {chunk : List UInt8} {ps : List MediaPacket}
      {data : List UInt8} (hp : Piece iMTU f 0 u p chunk) (hps : Tail iMTU f (u+1) ps data) :
      Tail iMTU f u (p::ps) (chunk ++ data)

/-- An aggregate of NAL units. -/
structure Aggregate (iMTU : ℤ) (front : MediaPacket) (members : List MediaPacket)
    (p : MediaPacket) : Prop where
  bytes : ∃ h : UInt8, h &&& type_mask = FLAG_STAPA ∧
    p.bytes = h::members.flatMap fun f => sizeBytes f.size ++ f.bytes
  numbers : numbers p = numbers front
  small : (p.size : ℤ) ≤ iMTU

/-- The packets sent for NAL units that leave together. -/
inductive Group (iMTU : ℤ) : List MediaPacket → List MediaPacket → Prop
  | single {f p : MediaPacket} (hbytes : p.bytes = f.bytes) (hfront : p.iFront = f.iFront)
      (hnumbers : numbers p = numbers f) (hsmall : (p.size : ℤ) ≤ iMTU) : Group iMTU [f] [p]
  | fragments {f p : MediaPacket} {u : ℤ} {chunk data : List UInt8} {ps : List MediaPacket}
      (hp : Piece iMTU f FLAG_BEGIN u p chunk) (hps : Tail iMTU f (u+1) ps data)
      (hdata : f.bytes.drop 1 = chunk ++ data) : Group iMTU [f] (p::ps)
  | aggregate {f g : MediaPacket} {fs : List MediaPacket} {p : MediaPacket}
      (hp : Aggregate iMTU f (f::g::fs) p) : Group iMTU (f::g::fs) [p]

def AVCPacketizer.sent (s : AVCPacketizer) (ps : List MediaPacket) : AVCPacketizer :=
  { s with toPacketizer := s.toPacketizer.sent ps }

theorem avc_number_sent_nil (s : AVCPacketizer) (p : MediaPacket) :
    s.number p = s.sent [p.setUnit s.iUnit] := by
  simp only [AVCPacketizer.number, AVCPacketizer.sent, number_sent_nil]

/-! ## Fragments -/

theorem fragmentLoop_empty (f : MediaPacket) (fuel : ℕ) (h : UInt8) :
    fragmentLoop f fuel [] h = pure () := by
  cases fuel with
  | zero => rfl
  | succ fuel => rw [fragmentLoop, if_pos List.length_nil]

/-- One turn of the loop. -/
theorem fragmentLoop_step {f : MediaPacket} {data : List UInt8} {header1 flags : UInt8}
    {s : AVCPacketizer} (fuel : ℕ) (hMTU : 3 ≤ s.iMTU) (hint : s.iMTU < 2^31)
    (hdata : data ≠ [])
    (hflags : nextHeader f s.iMTU data.length header1 = flags ||| (dataAt f 0 &&& type_mask)) :
    ∃ p n, (fragmentLoop f (fuel+1) data header1).run s =
        (fragmentLoop f fuel (data.drop n) (dataAt f 0 &&& type_mask)).run (s.sent [p]) ∧
      (n : ℤ) = min (data.length : ℤ) (s.iMTU-2) ∧
      Piece s.iMTU f flags s.iUnit p (data.take n) ∧ p.frame = f.frame := by
  have hpos : 0 < data.length := List.length_pos_of_ne_nil hdata
  generalize hn : uint32 (min (data.length : ℤ) (s.iMTU-2)) = n
  have hlocal := uint32_of_bounds (x := min (data.length : ℤ) (s.iMTU-2)) (by omega) (by omega)
  rw [hn] at hlocal
  have htake : (data.take n).length = n := by
    rw [List.length_take]
    omega
  rw [fragmentLoop, if_neg (by omega), run_get_bind]
  dsimp only
  rw [hn, hflags]
  generalize hq : fragment f (flags ||| (dataAt f 0 &&& type_mask)) n = q
  have hempty : q.bytes = [] := by
    rw [← hq]
    rfl
  have hroom : q.iFront+(n+2) < q.max_size := by
    rw [← hq]
    simp only [fragment, MediaPacket.set_metadata, MediaPacket.new, iBufferSpace]
    omega
  have hnumbers : numbers q = numbers f := by
    rw [← hq]
    rfl
  have hframe : q.frame = f.frame := by
    rw [← hq]
    rfl
  have hpush₁ : q.push_back [(dataAt f 0 &&& nri_mask) ||| FLAG_FU] = _ := push_back_ok (by
    simp only [MediaPacket.size, hempty, List.length_nil, List.length_singleton]
    omega)
  have hpush₂ : (q.pushed [(dataAt f 0 &&& nri_mask) ||| FLAG_FU]).push_back
      [flags ||| (dataAt f 0 &&& type_mask)] = _ := push_back_ok (by
    simp only [MediaPacket.size, MediaPacket.pushed, hempty, List.nil_append,
      List.length_singleton]
    omega)
  have hpush₃ : ((q.pushed [(dataAt f 0 &&& nri_mask) ||| FLAG_FU]).pushed
      [flags ||| (dataAt f 0 &&& type_mask)]).push_back (data.take n) = _ := push_back_ok (by
    simp only [MediaPacket.size, MediaPacket.pushed, hempty, List.nil_append, List.length_append,
      List.length_singleton, htake]
    omega)
  rw [run_ofExcept_bind hpush₁, run_ofExcept_bind hpush₂, run_ofExcept_bind hpush₃,
    run_modify_bind, avc_number_sent_nil]
  refine ⟨_, n, rfl, hlocal, ?_, hframe⟩
  constructor
  · simp [hempty]
  · exact List.ne_nil_of_length_pos (by omega)
  · rfl
  · exact hnumbers
  · rw [setUnit_size, MediaPacket.size]
    simp only [pushed_bytes, hempty, List.nil_append, List.length_append, List.length_singleton,
      htake]
    push_cast
    omega

theorem avc_sent_sent (s : AVCPacketizer) (ps qs : List MediaPacket) :
    (s.sent ps).sent qs = s.sent (ps ++ qs) := by
  simp only [AVCPacketizer.sent, sent_sent]

/-- The fragments after the first one. -/
theorem fragmentLoop_tail {f : MediaPacket} (fuel : ℕ) (data : List UInt8) (s : AVCPacketizer)
    (hMTU : 3 ≤ s.iMTU) (hint : s.iMTU < 2^31) (hfuel : data.length ≤ fuel) (hdata : data ≠ [])
    (hrest : data.length < f.size-1) :
    ∃ ps, (fragmentLoop f fuel data (dataAt f 0 &&& type_mask)).run s = .ok () (s.sent ps) ∧
      Tail s.iMTU f s.iUnit ps data ∧ ∀ p ∈ ps, p.frame = f.frame := by
  have hpos : 0 < data.length := List.length_pos_of_ne_nil hdata
  induction fuel generalizing data s with
  | zero => omega
  | succ fuel ih =>
    by_cases hlast : (data.length : ℤ) ≤ s.iMTU-2
    · have hheader : nextHeader f s.iMTU data.length (dataAt f 0 &&& type_mask) =
          FLAG_END ||| (dataAt f 0 &&& type_mask) := by
        rw [nextHeader, if_pos hlast]
      rcases fragmentLoop_step fuel hMTU hint hdata hheader with ⟨p, n, hrun, hn, hp, hframe⟩
      have hall : data.length ≤ n := by omega
      rw [List.take_of_length_le hall] at hp
      refine ⟨[p], ?_, Tail.last hp, by simpa using hframe⟩
      rw [hrun, List.drop_eq_nil_of_le hall, fragmentLoop_empty]
      rfl
    · have hheader : nextHeader f s.iMTU data.length (dataAt f 0 &&& type_mask) =
          0 ||| (dataAt f 0 &&& type_mask) := by
        rw [nextHeader, if_neg hlast, if_neg (by omega), UInt8.zero_or]
      rcases fragmentLoop_step fuel hMTU hint hdata hheader with ⟨p, n, hrun, hn, hp, hframe⟩
      have hleft : (data.drop n).length = data.length-n := List.length_drop
      rcases ih (data.drop n) (s.sent [p]) hMTU hint (by omega)
        (List.ne_nil_of_length_pos (by omega)) (by omega) (by omega) with
        ⟨ps, hrun', hps, hframes⟩
      refine ⟨p::ps, ?_, ?_, List.forall_mem_cons.mpr ⟨hframe, hframes⟩⟩
      · rw [hrun, hrun', avc_sent_sent]
        rfl
      · rw [← List.take_append_drop n data]
        exact Tail.more hp hps

theorem pack_FU_run (f : MediaPacket) (s : AVCPacketizer) (hMTU : 3 ≤ s.iMTU)
    (hint : s.iMTU < 2^31) :
    ∃ ps, (pack_FU f).run s = .ok () (s.sent ps) ∧ Group s.iMTU [f] ps ∧
      ∀ p ∈ ps, p.frame = f.frame := by
  rw [pack_FU, run_get_bind]
  by_cases hbig : s.iMTU < f.size
  · have hlen : (f.bytes.drop 1).length = f.size-1 := List.length_drop
    have hheader : nextHeader f s.iMTU (f.bytes.drop 1).length
        (FLAG_BEGIN ||| (dataAt f 0 &&& type_mask)) =
        FLAG_BEGIN ||| (dataAt f 0 &&& type_mask) := by
      rw [nextHeader, if_neg (by omega), if_pos hlen]
    have hsize : f.size = f.size-1+1 := by omega
    rw [if_pos hbig, hsize]
    rcases fragmentLoop_step (f.size-1) hMTU hint (List.ne_nil_of_length_pos (by omega)) hheader with
      ⟨p, n, hrun, hn, hp, hframe⟩
    have hleft : ((f.bytes.drop 1).drop n).length = (f.bytes.drop 1).length-n := List.length_drop
    rcases fragmentLoop_tail (f := f) (f.size-1) ((f.bytes.drop 1).drop n) (s.sent [p]) hMTU hint
      (by omega) (List.ne_nil_of_length_pos (by omega)) (by omega) with
      ⟨ps, hrun', hps, hframes⟩
    refine ⟨p::ps, ?_, Group.fragments hp hps (List.take_append_drop n _).symm,
      List.forall_mem_cons.mpr ⟨hframe, hframes⟩⟩
    rw [hrun, hrun', avc_sent_sent]
    rfl
  · rw [if_neg hbig]
    refine ⟨[({ f with mux := .RTP } : MediaPacket).setUnit s.iUnit], ?_,
      Group.single rfl rfl rfl (by
        show (f.size : ℤ) ≤ s.iMTU
        omega), by simp [MediaPacket.setUnit]⟩
    rw [← avc_number_sent_nil]
    rfl

/-! ## Aggregates -/

/-- The data of an aggregate behind its header byte. -/
def stapData (members : List MediaPacket) : List UInt8 :=
  members.flatMap fun f => sizeBytes f.size ++ f.bytes

theorem stapData_length (members : List MediaPacket) :
    (stapData members).length = 2*members.length+sizes members := by
  induction members with
  | nil => rfl
  | cons f members ih =>
    rw [stapData] at ih
    rw [stapData, List.flatMap_cons, List.length_append, ih, List.length_append, sizes, sizes,
      List.map_cons, List.sum_cons, List.length_cons, MediaPacket.size]
    simp only [sizeBytes, List.length_cons, List.length_nil]
    omega

theorem stapPart_run (members : List MediaPacket) (p : MediaPacket)
    (hroom : p.iFront+p.size+(stapData members).length < p.max_size) :
    ∃ p', members.foldlM stapPart p = .ok p' ∧ p'.bytes = p.bytes ++ stapData members ∧
      numbers p' = numbers p := by
  induction members generalizing p with
  | nil => exact ⟨p, rfl, by simp [stapData], rfl⟩
  | cons f members ih =>
    have hsplit : stapData (f::members) = sizeBytes f.size ++ f.bytes ++ stapData members := rfl
    rw [hsplit, List.length_append, List.length_append] at hroom
    have hpush₁ : p.push_back (sizeBytes f.size) = _ := push_back_ok (by omega)
    have hpush₂ : (p.pushed (sizeBytes f.size)).push_back f.bytes = _ := push_back_ok (by
      simp only [MediaPacket.size, MediaPacket.pushed, List.length_append] at hroom ⊢
      omega)
    rw [List.foldlM_cons, stapPart, hpush₁]
    simp only [bind, Except.bind, pure, Except.pure, hpush₂]
    generalize hq : MediaPacket.mk _ _ _ _ = q
    have hbytes : q.bytes = p.bytes ++ sizeBytes f.size ++ f.bytes := by
      rw [← hq]
      rfl
    have hbuffer : q.iFront = p.iFront ∧ q.max_size = p.max_size := by
      rw [← hq]
      exact ⟨rfl, rfl⟩
    have hnumbers : numbers q = numbers p := by
      rw [← hq]
      rfl
    rcases ih q (by
      simp only [MediaPacket.size, hbytes, hbuffer, List.length_append] at hroom ⊢
      omega) with ⟨p', hrun, hbytes', hnumbers'⟩
    refine ⟨p', hrun, ?_, by rw [hnumbers', hnumbers]⟩
    rw [hbytes', hbytes, hsplit]
    simp only [List.append_assoc]

theorem stap_byte (h : UInt8) :
    (FLAG_STAPA ||| ((h &&& nri_mask) &&& 0x7F)) &&& type_mask = FLAG_STAPA := by
  rcases h with ⟨h⟩
  revert h
  decide

theorem pack_STAP_run (f g : MediaPacket) (fs : List MediaPacket) (s : AVCPacketizer)
    (hlen : s.len = sizes (f::g::fs)) (hpos : 0 < f.size)
    (hfits : 1+2*((f::g::fs).length : ℤ)+s.len ≤ s.iMTU) :
    ∃ ps, (pack_STAP f (f::g::fs)).run s = .ok () { s.sent ps with stack := [] } ∧
      Group s.iMTU (f::g::fs) ps := by
  have hsizes : sizes (f::g::fs) = f.size+sizes (g::fs) := by simp [sizes]
  rw [pack_STAP, run_get_bind, if_neg (by omega)]
  dsimp only
  generalize hq : MediaPacket.mk _ _ _ _ = q
  have hempty : q.bytes = [] := by
    rw [← hq]
    rfl
  have hroom : q.iFront+(1+(stapData (f::g::fs)).length) < q.max_size := by
    rw [← hq, stapData_length]
    simp only [MediaPacket.set_metadata, MediaPacket.new, iBufferSpace, hlen]
    omega
  have hnumbers : numbers q = numbers f := by
    rw [← hq]
    rfl
  have hpush : q.push_back [FLAG_STAPA ||| ((dataAt f 0 &&& nri_mask) &&& 0x7F)] = _ :=
    push_back_ok (by
      simp only [MediaPacket.size, hempty, List.length_nil, List.length_singleton]
      omega)
  rcases stapPart_run (f::g::fs)
    (q.pushed [FLAG_STAPA ||| ((dataAt f 0 &&& nri_mask) &&& 0x7F)]) (by
      simp only [MediaPacket.size, MediaPacket.pushed, hempty, List.nil_append,
        List.length_singleton]
      omega) with ⟨p, hrun, hbytes, hnumbers'⟩
  rw [run_ofExcept_bind hpush, run_ofExcept_bind hrun]
  refine ⟨[p.setUnit s.iUnit], ?_, ?_⟩
  · rw [← avc_number_sent_nil]
    rfl
  · have hp : p.bytes = (FLAG_STAPA ||| ((dataAt f 0 &&& nri_mask) &&& 0x7F))::
        stapData (f::g::fs) := by
      rw [hbytes, pushed_bytes, hempty]
      rfl
    apply Group.aggregate
    constructor
    · exact ⟨_, stap_byte _, hp⟩
    · rw [← hnumbers]
      exact hnumbers'
    · rw [setUnit_size, MediaPacket.size, hp, List.length_cons, stapData_length, ← hlen]
      push_cast at hfits ⊢
      omega

/-! ## Runs -/

/-- The NAL units received are those sent in groups and those still gathered. -/
structure Holds (iMTU : ℤ) (bAggregate : Bool) (received : List MediaPacket)
    (s : AVCPacketizer) : Prop where
  mtu : s.iMTU = iMTU
  aggregate : s.bAggregate = bAggregate
  routed : ∃ gs : List (List MediaPacket × List MediaPacket),
    gs.flatMap Prod.fst ++ s.stack = received ∧ (∀ g ∈ gs, Group iMTU g.1 g.2) ∧
      s.routed = gs.flatMap Prod.snd
  len : s.len = sizes s.stack
  fits : s.stack ≠ [] → 1+2*(s.stack.length : ℤ)+sizes s.stack ≤ iMTU
  sized : ∀ f ∈ s.stack, 0 < f.size
  single : bAggregate = false → s.stack = []

theorem holds_init (mtu : ℤ) (b : Bool) :
    Holds (AVCPacketizer.init mtu b).iMTU b [] (AVCPacketizer.init mtu b) where
  mtu := rfl
  aggregate := rfl
  routed := ⟨[], rfl, by simp, rfl⟩
  len := rfl
  fits := fun h => absurd rfl h
  sized := by simp [AVCPacketizer.init]
  single := fun _ => rfl

section
variable {iMTU : ℤ} {b : Bool} {received : List MediaPacket}
  {E : SirannonException → AVCPacketizer → Prop}

/-- One more group is sent and nothing is left on the stack. -/
theorem holds_sent {s t : AVCPacketizer} {members ps : List MediaPacket}
    (h : Holds iMTU b received s) (hgroup : Group iMTU members ps) (hmtu : t.iMTU = s.iMTU)
    (haggregate : t.bAggregate = s.bAggregate) (hrouted : t.routed = s.routed ++ ps)
    (hstack : t.stack = []) (hlen : t.len = 0) {received' : List MediaPacket}
    (hreceived : ∀ sent, sent ++ s.stack = received → sent ++ members = received') :
    Holds iMTU b received' t := by
  rcases h.routed with ⟨gs, hflat, hgroups, hsent⟩
  constructor
  · rw [hmtu, h.mtu]
  · rw [haggregate, h.aggregate]
  · refine ⟨gs ++ [(members, ps)], ?_, ?_, ?_⟩
    · rw [hstack, List.append_nil, List.flatMap_append, List.flatMap_singleton]
      exact hreceived _ hflat
    · intro g hg
      rcases List.mem_append.mp hg with hg | hg
      · exact hgroups g hg
      · rwa [List.mem_singleton.mp hg]
    · rw [hrouted, hsent, List.flatMap_append, List.flatMap_singleton]
  · rw [hlen, hstack]
    rfl
  · intro hne
    exact absurd hstack hne
  · rw [hstack]
    simp
  · exact fun _ => hstack

theorem pack_holds (hMTU : 3 ≤ iMTU) (hint : iMTU < 2^31) :
    Triple (Holds iMTU b received) pack
      (fun _ s => Holds iMTU b received s ∧ s.stack = []) E := by
  constructor
  intro s hs
  rw [pack, run_get_bind]
  cases hstack : s.stack with
  | nil => exact ⟨hs, hstack⟩
  | cons f rest =>
    cases rest with
    | nil =>
      rcases pack_FU_run f s (by rwa [hs.mtu]) (by rwa [hs.mtu]) with ⟨ps, hrun, hgroup, -⟩
      rw [hs.mtu] at hgroup
      dsimp only
      rw [run_bind_of_ok hrun]
      refine ⟨?_, rfl⟩
      apply holds_sent hs hgroup
      · rfl
      · rfl
      · rfl
      · rfl
      · rfl
      · intro sent hsent
        rwa [hstack] at hsent
    | cons g fs =>
      have hlen := hs.len
      have hfits := hs.fits (by rw [hstack]; simp)
      rw [← hlen] at hfits
      rw [hstack] at hlen hfits
      rcases pack_STAP_run f g fs s hlen (hs.sized f (by rw [hstack]; simp))
        (by rwa [hs.mtu]) with ⟨ps, hrun, hgroup⟩
      rw [hs.mtu] at hgroup
      dsimp only
      rw [run_bind_of_ok hrun]
      refine ⟨?_, rfl⟩
      apply holds_sent hs hgroup
      · rfl
      · rfl
      · rfl
      · rfl
      · rfl
      · intro sent hsent
        rwa [hstack] at hsent

/-- A NAL unit is sent by itself when nothing is gathered. -/
theorem pack_FU_holds {f : MediaPacket} (hMTU : 3 ≤ iMTU) (hint : iMTU < 2^31) :
    Triple (fun s => Holds iMTU b received s ∧ s.stack = []) (pack_FU f)
      (fun _ => Holds iMTU b (received ++ [f])) E := by
  constructor
  rintro s ⟨hs, hstack⟩
  rcases pack_FU_run f s (by rwa [hs.mtu]) (by rwa [hs.mtu]) with ⟨ps, hrun, hgroup, -⟩
  rw [hs.mtu] at hgroup
  have hlen : s.len = 0 := by
    rw [hs.len, hstack]
    rfl
  rw [hrun]
  apply holds_sent hs hgroup
  · rfl
  · rfl
  · rfl
  · exact hstack
  · exact hlen
  · intro sent hsent
    rw [← hsent, hstack, List.append_nil]

theorem sizes_snoc (ps : List MediaPacket) (p : MediaPacket) :
    sizes (ps ++ [p]) = sizes ps+p.size := by
  simp [sizes]

/-- A NAL unit that fits is gathered; the last one of a frame sends all away. -/
theorem push_holds {f : MediaPacket} (hMTU : 3 ≤ iMTU) (hint : iMTU < 2^31) (hpos : 0 < f.size)
    (hb : b = true) :
    Triple (fun s => Holds iMTU b received s ∧
        1+2*((s.stack.length : ℤ)+1)+(sizes s.stack+f.size) ≤ iMTU) (push f)
      (fun _ => Holds iMTU b (received ++ [f])) E := by
  rw [push]
  apply triple_modify_bind (R := Holds iMTU b (received ++ [f]))
  · rintro s ⟨hs, hfits⟩
    rcases hs.routed with ⟨gs, hflat, hgroups, hrouted⟩
    constructor
    · exact hs.mtu
    · exact hs.aggregate
    · refine ⟨gs, ?_, hgroups, hrouted⟩
      rw [← hflat, List.append_assoc]
    · show s.len+f.size = sizes (s.stack ++ [f])
      rw [hs.len, sizes_snoc]
    · intro _
      show 1+2*((s.stack ++ [f]).length : ℤ)+sizes (s.stack ++ [f]) ≤ iMTU
      rw [sizes_snoc, List.length_append, List.length_singleton]
      push_cast
      exact hfits
    · intro g hg
      rcases List.mem_append.mp hg with hg | hg
      · exact hs.sized g hg
      · rwa [List.mem_singleton.mp hg]
    · rw [hb]
      exact fun h => absurd h (by decide)
  · by_cases hend : f.frameend = true
    · rw [if_pos hend]
      exact triple_conseq (pack_holds hMTU hint) (fun _ h => h) (fun _ _ h => h.1) (fun _ _ h => h)
    · rw [if_neg hend]
      exact triple_pure _ fun _ hs => hs

theorem start_code_le (bytes : List UInt8) : H264_is_start_code bytes ≤ bytes.length := by
  rw [H264_is_start_code.eq_def]
  split
  · simp
  · simp
  · exact Nat.zero_le _

/-- A NAL unit without its start code. -/
def stripped (f : MediaPacket) : MediaPacket := f.popped (H264_is_start_code f.bytes)

/-- A NAL unit as it comes from a reader, with or without a start code. -/
structure Input (f : MediaPacket) : Prop where
  codec : f.codec.isIn familyH264 = true
  mux : f.mux = .ES
  unit : NALUnit (stripped f)

theorem input_size {f : MediaPacket} (h : Input f) : 0 < (stripped f).size :=
  List.length_pos_of_ne_nil h.unit.nonempty

theorem receive_holds {f : MediaPacket} (hMTU : 3 ≤ iMTU) (hint : iMTU < 2^31) (hf : Input f) :
    Triple (Holds iMTU b received) (receive f)
      (fun _ => Holds iMTU b (received ++ [stripped f])) E := by
  have hpop : f.pop_front (H264_is_start_code f.bytes) = .ok (stripped f) :=
    pop_front_ok (start_code_le f.bytes)
  have hpos := input_size hf
  rw [receive, if_neg (by rw [hf.codec]; simp), if_neg (by rw [hf.mux]; simp), hpop]
  constructor
  intro s hs
  rw [run_ofExcept_bind rfl, run_get_bind, hs.aggregate, hs.mtu]
  by_cases hb : b = false
  · rw [if_pos hb]
    exact (pack_FU_holds hMTU hint).exits s ⟨hs, hs.single hb⟩
  · have hb' : b = true := by simpa using hb
    rw [if_neg hb]
    by_cases hbig : iMTU < (stripped f).size
    · rw [if_pos hbig]
      exact (triple_bind (pack_holds hMTU hint) fun _ => pack_FU_holds hMTU hint).exits s hs
    · rw [if_neg hbig]
      have hint' : ((uint32 iMTU : ℕ) : ℤ) = iMTU := uint32_of_bounds (by omega) (by omega)
      by_cases hjoins : s.joins (stripped f) = true
      · have hfits : 1+2*((s.stack.length : ℤ)+1)+(sizes s.stack+(stripped f).size) ≤ iMTU := by
          rw [AVCPacketizer.joins, decide_eq_true_eq, hs.len, hs.mtu] at hjoins
          omega
        rw [if_pos hjoins]
        exact (push_holds hMTU hint hpos hb').exits s ⟨hs, hfits⟩
      · rw [if_neg hjoins]
        apply (triple_bind (pack_holds hMTU hint) fun _ => ?_).exits s hs
        apply triple_ite
        · intro hsmall
          apply triple_conseq (push_holds hMTU hint hpos hb') _ (fun _ _ h => h) (fun _ _ h => h)
          rintro t ⟨ht, hstack⟩
          refine ⟨ht, ?_⟩
          rw [hstack]
          simp [sizes]
          omega
        · intro _
          exact pack_FU_holds hMTU hint

theorem run_holds {frames : List MediaPacket} (hMTU : 3 ≤ iMTU) (hint : iMTU < 2^31)
    (hframes : ∀ f ∈ frames, Input f) :
    Triple (Holds iMTU b received) (forM frames receive)
      (fun _ => Holds iMTU b (received ++ frames.map stripped)) E := by
  induction frames generalizing received with
  | nil =>
    rw [List.map_nil, List.append_nil]
    exact triple_pure _ fun _ h => h
  | cons f frames ih =>
    rw [List.forM_cons]
    apply triple_bind (receive_holds hMTU hint (hframes f List.mem_cons_self))
    intro _
    have hrest : Triple (Holds iMTU b (received ++ [stripped f])) (forM frames receive)
        (fun _ => Holds iMTU b (received ++ [stripped f] ++ frames.map stripped)) E :=
      ih fun g hg => hframes g (List.mem_cons_of_mem f hg)
    rw [List.append_assoc] at hrest
    exact hrest

end

/-- NAL units and then the end packet. -/
def packetize (frames : List MediaPacket) (pEnd : MediaPacket) : Packing Unit := do
  forM frames receive
  receive_end pEnd

theorem packetize_run {mtu : ℤ} {b : Bool} {frames : List MediaPacket} (pEnd : MediaPacket)
    (hMTU : 3 ≤ (AVCPacketizer.init mtu b).iMTU) (hint : mtu ≤ 65535)
    (hframes : ∀ f ∈ frames, Input f) :
    ∃ s n, ∃ gs : List (List MediaPacket × List MediaPacket),
      (packetize frames pEnd).run (AVCPacketizer.init mtu b) = .ok () s ∧
      s.routed = gs.flatMap Prod.snd ++ [({ pEnd with mux := .RTP } : MediaPacket).setUnit n] ∧
      gs.flatMap Prod.fst = frames.map stripped ∧
      ∀ g ∈ gs, Group (AVCPacketizer.init mtu b).iMTU g.1 g.2 := by
  have hint' : (AVCPacketizer.init mtu b).iMTU < 2^31 := by
    show mtu-20-20-18-12 < 2^31
    omega
  have hrun : Triple (Holds (AVCPacketizer.init mtu b).iMTU b []) (packetize frames pEnd)
      (fun _ s => ∃ t, (Holds (AVCPacketizer.init mtu b).iMTU b (frames.map stripped) t ∧
        t.stack = []) ∧ s = t.number { pEnd with mux := .RTP }) (fun _ _ => False) := by
    apply triple_bind (run_holds hMTU hint' hframes)
    intro _
    apply triple_bind (pack_holds hMTU hint')
    intro _
    exact triple_modify _ fun t ht => ⟨t, ht, rfl⟩
  have hexit := hrun.exits _ (holds_init mtu b)
  cases hresult : (packetize frames pEnd).run (AVCPacketizer.init mtu b) with
  | ok _ s =>
    rw [hresult] at hexit
    rcases hexit with ⟨t, ⟨ht, hstack⟩, rfl⟩
    rcases ht.routed with ⟨gs, hflat, hgroups, hrouted⟩
    rw [hstack, List.append_nil] at hflat
    exact ⟨_, t.iUnit, gs, rfl, by rw [← hrouted]; rfl, hflat, hgroups⟩
  | error e s =>
    rw [hresult] at hexit
    exact hexit.elim

end Sirannon.AVC
