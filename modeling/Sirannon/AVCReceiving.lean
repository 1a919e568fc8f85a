import Sirannon.AVCSending
import Sirannon.LossyDelivery

/-!
# What the H.264 unpacketizer makes of a group

Of the packets of a group some arrive. Either all NAL units of the group are
put out or none of them is. Fragments whose last one is missing stay in the
buffer until a packet of another group comes.
-/

set_option autoImplicit false

namespace Sirannon.AVC
open MachineInt Bits Media Packetization StateError

/-- A NAL unit put out, with a start code in front. -/
def Restores (f out : MediaPacket) : Prop :=
  out.bytes.drop (H264_is_start_code out.bytes) = f.bytes

section
variable {ν : Type} (H : NALParser ν)

/-! ## Start codes -/

theorem start_code (own : AVCState ν) :
    (own.startCode H).length ≤ 4 ∧ ∀ bytes : List UInt8,
      (own.startCode H ++ bytes).drop (H264_is_start_code (own.startCode H ++ bytes)) = bytes := by
  rw [AVCState.startCode]
  split_ifs
  · exact ⟨by decide, fun bytes => rfl⟩
  · exact ⟨by decide, fun bytes => rfl⟩

/-- Only what the parser remembers changes. -/
theorem startcodes_run {p : MediaPacket} (hroom : 4 ≤ p.iFront) (s : AVCUnpacketizer ν) :
    ∃ own q, (startcodes H p).run s = .ok q { s with own := own } ∧ Restores p q := by
  rcases start_code H (s.own.parsed H p.bytes) with ⟨hlen, hstrip⟩
  have hpush : (typed p).push_front ((s.own.parsed H p.bytes).startCode H) = _ :=
    push_front_ok (by
      show _ ≤ p.iFront
      omega)
  refine ⟨s.own.parsed H p.bytes, (typed p).fronted ((s.own.parsed H p.bytes).startCode H), ?_,
    hstrip p.bytes⟩
  rw [startcodes, run_modify_bind, run_get_bind, hpush]
  rfl

/-! ## What is left waiting -/

theorem fu_byte (h : UInt8) : ((h &&& nri_mask) ||| FLAG_FU) &&& type_mask = FLAG_FU := by
  rcases h with ⟨h⟩
  revert h
  decide

theorem header_bytes (h : UInt8) :
    (((h &&& nri_mask) ||| FLAG_FU) &&& nri_mask) |||
      ((FLAG_BEGIN ||| (h &&& type_mask)) &&& type_mask) = h := by
  rcases h with ⟨h⟩
  revert h
  decide

theorem flag_bytes (h : UInt8) :
    (FLAG_BEGIN ||| (h &&& type_mask)) &&& FLAG_BEGIN ≠ 0 ∧
      (FLAG_BEGIN ||| (h &&& type_mask)) &&& FLAG_END = 0 ∧
      (0 ||| (h &&& type_mask)) &&& FLAG_BEGIN = 0 ∧ (0 ||| (h &&& type_mask)) &&& FLAG_END = 0 ∧
      (FLAG_END ||| (h &&& type_mask)) &&& FLAG_BEGIN = 0 ∧
      (FLAG_END ||| (h &&& type_mask)) &&& FLAG_END ≠ 0 := by
  rcases h with ⟨h⟩
  revert h
  decide

/-- All packets in the buffer are fragments, and none of them is a last one. -/
def Waiting (s : AVCUnpacketizer ν) : Prop := ∀ p ∈ s.vBuffer, waits p = true

/-- Fragments without the last one are dropped. -/
theorem unpack_waiting {s : AVCUnpacketizer ν} (hs : Waiting s) :
    ∃ n, (unpack H).run s = .ok () { s with iUnit := n, vBuffer := [] } := by
  rw [unpack, run_get_bind]
  cases hbuffer : s.vBuffer with
  | nil =>
    refine ⟨s.iUnit, ?_⟩
    rcases s with ⟨vBuffer, iUnit, routed, own⟩
    dsimp only at hbuffer
    rw [hbuffer]
    rfl
  | cons front rest =>
    have hfront := hs front (by rw [hbuffer]; exact List.mem_cons_self)
    have hback := hs ((front::rest).getLast (List.cons_ne_nil front rest))
      (by rw [hbuffer]; exact List.getLast_mem _)
    rw [waits, decide_eq_true_eq] at hfront hback
    have hincomplete : complete front ((front::rest).getLast (List.cons_ne_nil front rest))
        (front::rest).length = false := by
      rw [complete, decide_eq_false_iff_not]
      exact fun h => h.2.1 hback.2
    refine ⟨s.iUnit+1, ?_⟩
    dsimp only
    rw [if_pos hfront.1, unpackFU, if_neg (by rw [hincomplete]; decide)]
    rfl

/-- The first packet of a group takes the place of what was left waiting. -/
theorem receive_new {s : AVCUnpacketizer ν} (hs : Waiting s) {p : MediaPacket}
    (hnew : ∀ q ∈ s.vBuffer, numbers q ≠ numbers p) :
    ∃ n, (Unpacketizer.receive (unpack H) p).run s =
      .ok () { s with iUnit := n, vBuffer := [p] } := by
  rcases List.eq_nil_or_concat s.vBuffer with hnil | ⟨q, back, hback⟩
  · refine ⟨s.iUnit, ?_⟩
    rw [receive_stored (isNew_empty p hnil), Unpacketizer.stored, hnil]
    rfl
  · rw [List.concat_eq_append] at hback
    have hisNew : s.isNew p = true := by
      rw [isNew_iff p hback]
      apply hnew
      rw [hback]
      simp
    rcases unpack_waiting H hs with ⟨n, hrun⟩
    exact ⟨n, receive_unpacked hisNew hrun⟩

/-! ## Groups of one packet -/

/-- What arrives of a group is put out as a whole or not at all. -/
structure Delivered (members : List MediaPacket) (all : Prop) (s t : AVCUnpacketizer ν) :
    Prop where
  waiting : Waiting t
  marked : ∀ q ∈ t.vBuffer, q ∈ s.vBuffer ∨ ∃ f ∈ members, numbers q = numbers f
  routed : ∃ outs, t.routed = s.routed ++ outs ∧
    (outs = [] ∨ List.Forall₂ Restores members outs) ∧
    (all → List.Forall₂ Restores members outs)

theorem delivered_nothing {members : List MediaPacket} {all : Prop} {s : AVCUnpacketizer ν}
    (hs : Waiting s) (hall : ¬ all) : Delivered members all s s where
  waiting := hs
  marked := fun q hq => .inl hq
  routed := ⟨[], by simp, .inl rfl, fun h => absurd h hall⟩

theorem delivered_all {members outs : List MediaPacket} {all : Prop} {s t : AVCUnpacketizer ν}
    (hbuffer : t.vBuffer = []) (hrouted : t.routed = s.routed ++ outs)
    (hall : List.Forall₂ Restores members outs) : Delivered members all s t where
  waiting := by
    intro p hp
    rw [hbuffer] at hp
    simp at hp
  marked := by
    intro q hq
    rw [hbuffer] at hq
    simp at hq
  routed := ⟨outs, hrouted, .inr hall, fun _ => hall⟩

theorem unit_byte {h : UInt8} (hhigh : (h &&& type_mask).toNat ≤ 23) :
    h &&& type_mask ≠ FLAG_FU ∧ h &&& type_mask ≠ FLAG_STAPA := by
  constructor
  · intro heq
    rw [heq] at hhigh
    exact absurd hhigh (by decide)
  · intro heq
    rw [heq] at hhigh
    exact absurd hhigh (by decide)

theorem single_run {f p : MediaPacket} (hf : NALUnit f) (hbytes : p.bytes = f.bytes)
    (hfront : p.iFront = f.iFront) {s : AVCUnpacketizer ν} (hs : s.vBuffer = [p]) :
    ∃ t out, (unpack H).run s = .ok () t ∧ t.vBuffer = [] ∧ t.routed = s.routed ++ [out] ∧
      Restores f out := by
  have hindicator : dataAt p 0 = dataAt f 0 := by rw [dataAt, dataAt, hbytes]
  rcases unit_byte hf.type.2 with ⟨hfu, hstap⟩
  rw [unpack, run_get_bind, hs]
  dsimp only
  rw [hindicator, if_neg hfu, if_neg hstap, run_modify_bind]
  rcases startcodes_run H (p := p) (by rw [hfront]; exact hf.room) { s with vBuffer := [] } with
    ⟨own, q, hrun, hrestores⟩
  rw [run_bind_of_ok hrun, run_modify_bind]
  refine ⟨_, ({ q with mux := .ES } : MediaPacket).setUnit s.iUnit, rfl, rfl, rfl, ?_⟩
  rw [Restores, ← hbytes]
  exact hrestores

theorem sizeBytes_value {n : ℕ} (h : n < 2^16) :
    (UInt8.ofNat (n/2^8)).toNat*2^8+(UInt8.ofNat n).toNat = n := by
  rw [UInt8.toNat_ofNat', UInt8.toNat_ofNat']
  omega

theorem stapLoop_run (pStap : MediaPacket) (members : List MediaPacket)
    (hsizes : ∀ f ∈ members, f.size < 2^16) (hne : members ≠ []) (fuel : ℕ)
    (hfuel : members.length ≤ fuel) (iSubFrame : ℤ) (iCount : ℕ) (s : AVCUnpacketizer ν) :
    ∃ t outs, (stapLoop H pStap fuel (stapData members) iSubFrame iCount).run s = .ok () t ∧
      t.vBuffer = s.vBuffer ∧ t.routed = s.routed ++ outs ∧
      List.Forall₂ Restores members outs := by
  induction members generalizing fuel iSubFrame iCount s with
  | nil => exact absurd rfl hne
  | cons f members ih =>
    cases fuel with
    | zero => simp at hfuel
    | succ fuel =>
      have hsize : f.size = f.bytes.length := rfl
      have hdata : stapData (f::members) = UInt8.ofNat (f.size/2^8)::UInt8.ofNat f.size::
          (f.bytes ++ stapData members) := by
        simp [stapData, sizeBytes]
      have hvalue := sizeBytes_value (hsizes f List.mem_cons_self)
      have htake : ((stapData (f::members)).drop 2).take f.size = f.bytes := by
        rw [hdata, List.drop_succ_cons, List.drop_succ_cons, List.drop_zero, hsize,
          List.take_left]
      have hdrop : (stapData (f::members)).drop (2+f.size) = stapData members := by
        rw [hdata, Nat.add_comm, List.drop_succ_cons, List.drop_succ_cons, hsize, List.drop_left]
      have hnext : ((stapData (f::members)).getD 0 0).toNat*2^8+
          ((stapData (f::members)).getD 1 0).toNat = f.size := by
        rw [hdata, List.getD_cons_zero, List.getD_cons_succ, List.getD_cons_zero, hvalue]
      have hlen : ¬ (stapData (f::members)).length < 2+f.size := by
        rw [hdata]
        simp only [List.length_cons, List.length_append]
        omega
      have hpush : (MediaPacket.new .media .video (f.size+4)).push_back f.bytes = _ :=
        new_push_back .media .video (f.size+4) f.bytes (by omega)
      rw [stapLoop]
      dsimp only
      rw [hnext, if_neg hlen, htake, hdrop, run_ofExcept_bind hpush]
      rcases startcodes_run H (p := (MediaPacket.new .media .video (f.size+4)).pushed f.bytes)
        (by simp [MediaPacket.new, MediaPacket.pushed, iBufferSpace]) s with
        ⟨own, q, hrun, hrestores⟩
      have hout : Restores f ((stapUnit pStap q iSubFrame iCount (stapData members)).setUnit
          s.iUnit) := hrestores
      rw [run_bind_of_ok hrun, run_modify_bind]
      cases members with
      | nil =>
        rw [if_pos (by rfl)]
        exact ⟨_, _, rfl, rfl, rfl, List.Forall₂.cons hout List.Forall₂.nil⟩
      | cons g members =>
        rw [if_neg (by simp [stapData, sizeBytes])]
        rcases ih (fun g' hg' => hsizes g' (List.mem_cons_of_mem f hg')) (by simp) fuel
          (by simpa using hfuel) (iSubFrame+1) (iCount+1)
          (({ s with own := own } : AVCUnpacketizer ν).emit
            (stapUnit pStap q iSubFrame iCount (stapData (g::members)))) with
          ⟨t, outs, hrun', hbuffer, hrouted, hall⟩
        refine ⟨t, _::outs, hrun', hbuffer, ?_, List.Forall₂.cons hout hall⟩
        rw [hrouted, Unpacketizer.emit, List.append_assoc]
        rfl

theorem aggregate_run {iMTU : ℤ} (hint : iMTU < 2^16) {f p : MediaPacket}
    {members : List MediaPacket} (hp : Aggregate iMTU f members p) (hne : members ≠ [])
    {s : AVCUnpacketizer ν} (hs : s.vBuffer = [p]) :
    ∃ t outs, (unpack H).run s = .ok () t ∧ t.vBuffer = [] ∧ t.routed = s.routed ++ outs ∧
      List.Forall₂ Restores members outs := by
  rcases hp.bytes with ⟨h, hh, hbytes⟩
  have hindicator : dataAt p 0 &&& type_mask = FLAG_STAPA := by
    rw [dataAt, hbytes]
    exact hh
  have hdata : p.bytes.drop 1 = stapData members := by
    rw [hbytes]
    rfl
  have hlen := stapData_length members
  have hsize : p.size = 1+(stapData members).length := by
    rw [MediaPacket.size, hbytes, List.length_cons, Nat.add_comm]
    rfl
  have hsizes : ∀ g ∈ members, g.size < 2^16 := by
    intro g hg
    have hle : g.size ≤ sizes members := List.single_le_sum (fun _ _ => Nat.zero_le _) _
      (List.mem_map_of_mem hg)
    have := hp.small
    omega
  rw [unpack, run_get_bind, hs]
  dsimp only
  rw [hindicator, if_neg (by decide), if_pos rfl, hdata, run_modify_bind]
  rcases stapLoop_run H p members hsizes hne p.size (by omega) p.subframenumber 0
    { s with vBuffer := [] } with ⟨t, outs, hrun, -, hrouted, hall⟩
  rw [run_bind_of_ok hrun]
  exact ⟨_, outs, rfl, rfl, hrouted, hall⟩

/-! ## Groups of fragments -/

theorem piece_data {iMTU : ℤ} {f p : MediaPacket} {flags : UInt8} {u : ℤ} {chunk : List UInt8}
    (h : Piece iMTU f flags u p chunk) :
    dataAt p 0 = ((dataAt f 0 &&& nri_mask) ||| FLAG_FU) ∧
      dataAt p 1 = (flags ||| (dataAt f 0 &&& type_mask)) ∧ p.bytes.drop 2 = chunk := by
  constructor
  · show p.bytes.getD 0 0 = _
    rw [h.bytes]
    rfl
  · constructor
    · show p.bytes.getD 1 0 = _
      rw [h.bytes]
      rfl
    · rw [h.bytes]
      rfl

theorem piece_waits {iMTU : ℤ} {f p : MediaPacket} {flags : UInt8} {u : ℤ} {chunk : List UInt8}
    (h : Piece iMTU f flags u p chunk) :
    waits p = decide ((flags ||| (dataAt f 0 &&& type_mask)) &&& FLAG_END = 0) := by
  rcases piece_data h with ⟨hfirst, hsecond, -⟩
  rw [waits, hfirst, hsecond, fu_byte]
  simp

/-- The fragments of a NAL unit: the first one, those in the middle and the last one. -/
structure Fragments (f front : MediaPacket) (middle : List MediaPacket) (back : MediaPacket) :
    Prop where
  starts : waits front = true ∧ dataAt front 1 &&& FLAG_BEGIN ≠ 0
  inside : ∀ q ∈ middle, waits q = true ∧ dataAt q 1 &&& FLAG_BEGIN = 0
  stops : waits back = false ∧ dataAt back 1 &&& FLAG_BEGIN = 0 ∧ dataAt back 1 &&& FLAG_END ≠ 0
  indicator : ∀ q ∈ front::(middle ++ [back]), dataAt q 0 &&& type_mask = FLAG_FU
  numbers : ∀ q ∈ front::(middle ++ [back]), numbers q = numbers f
  units : back.unitnumber-front.unitnumber+1 = (middle.length : ℤ)+2
  header : newHeader front = dataAt f 0
  payload : (front::(middle ++ [back])).flatMap (fun q => q.bytes.drop 2) = f.bytes.drop 1
  sized : ∀ q ∈ front::(middle ++ [back]), 2 < q.size

/-- What holds of the fragments after the first one. -/
theorem tail_fragments {iMTU : ℤ} {f : MediaPacket} {u : ℤ} {ps : List MediaPacket}
    {data : List UInt8} (h : Tail iMTU f u ps data) :
    ∃ middle back, ps = middle ++ [back] ∧
      (∀ q ∈ middle, waits q = true ∧ dataAt q 1 &&& FLAG_BEGIN = 0) ∧
      (waits back = false ∧ dataAt back 1 &&& FLAG_BEGIN = 0 ∧
        dataAt back 1 &&& FLAG_END ≠ 0) ∧
      (∀ q ∈ ps, dataAt q 0 &&& type_mask = FLAG_FU ∧ numbers q = numbers f ∧ 2 < q.size) ∧
      back.unitnumber = u+middle.length ∧ ps.flatMap (fun q => q.bytes.drop 2) = data := by
  have hsize : ∀ {flags : UInt8} {u : ℤ} {p : MediaPacket} {chunk : List UInt8},
      Piece iMTU f flags u p chunk → 2 < p.size := by
    intro flags u p chunk hp
    have := List.length_pos_of_ne_nil hp.nonempty
    rw [MediaPacket.size, hp.bytes]
    simp only [List.length_cons]
    omega
  rcases flag_bytes (dataAt f 0) with ⟨-, -, hbegin₀, hend₀, hbegin₁, hend₁⟩
  induction h with
  | @last u p chunk hp =>
    rcases piece_data hp with ⟨hfirst, hsecond, hdrop⟩
    refine ⟨[], p, rfl, by simp, ⟨?_, ?_, ?_⟩, ?_, ?_, ?_⟩
    · rw [piece_waits hp]
      simpa using hend₁
    · rw [hsecond]
      exact hbegin₁
    · rw [hsecond]
      exact hend₁
    · intro q hq
      rw [List.mem_singleton.mp hq, hfirst, fu_byte]
      exact ⟨rfl, hp.numbers, hsize hp⟩
    · simpa using hp.unit
    · rw [List.flatMap_singleton, hdrop]
  | @more u p chunk ps data hp _ ih =>
    rcases ih with ⟨middle, back, rfl, hmiddle, hback, hall, hunit, hdata⟩
    rcases piece_data hp with ⟨hfirst, hsecond, hdrop⟩
    refine ⟨p::middle, back, rfl, ?_, hback, ?_, ?_, ?_⟩
    · intro q hq
      rcases List.mem_cons.mp hq with rfl | hq
      · rw [piece_waits hp, hsecond]
        exact ⟨by simpa using hend₀, hbegin₀⟩
      · exact hmiddle q hq
    · intro q hq
      rcases List.mem_cons.mp hq with rfl | hq
      · rw [hfirst, fu_byte]
        exact ⟨rfl, hp.numbers, hsize hp⟩
      · exact hall q hq
    · rw [hunit, List.length_cons]
      push_cast
      ring
    · rw [List.flatMap_cons, hdrop, hdata]

theorem group_fragments {iMTU : ℤ} {f p : MediaPacket} {u : ℤ} {chunk data : List UInt8}
    {ps : List MediaPacket} (hp : Piece iMTU f FLAG_BEGIN u p chunk)
    (hps : Tail iMTU f (u+1) ps data) (hdata : f.bytes.drop 1 = chunk ++ data) :
    ∃ middle back, ps = middle ++ [back] ∧ Fragments f p middle back := by
  rcases tail_fragments hps with ⟨middle, back, rfl, hmiddle, hback, hall, hunit, hpayload⟩
  rcases piece_data hp with ⟨hfirst, hsecond, hdrop⟩
  rcases flag_bytes (dataAt f 0) with ⟨hbegin, hend, -⟩
  refine ⟨middle, back, rfl, ?_⟩
  constructor
  · rw [piece_waits hp, hsecond]
    exact ⟨by simpa using hend, hbegin⟩
  · exact hmiddle
  · exact hback
  · intro q hq
    rcases List.mem_cons.mp hq with rfl | hq
    · rw [hfirst, fu_byte]
    · exact (hall q hq).1
  · intro q hq
    rcases List.mem_cons.mp hq with rfl | hq
    · exact hp.numbers
    · exact (hall q hq).2.1
  · rw [hunit, hp.unit]
    ring
  · rw [newHeader, hfirst, hsecond, header_bytes]
  · rw [List.flatMap_cons, hdrop, hpayload, hdata]
  · intro q hq
    rcases List.mem_cons.mp hq with rfl | hq
    · have := List.length_pos_of_ne_nil hp.nonempty
      rw [MediaPacket.size, hp.bytes]
      simp only [List.length_cons]
      omega
    · exact (hall q hq).2.2

/-- A fragment of the NAL unit whose fragments are in the buffer is stored. -/
theorem receive_more {s : AVCUnpacketizer ν} {q : List MediaPacket} {back p : MediaPacket}
    (hs : s.vBuffer = q ++ [back]) (hnumbers : numbers p = numbers back) :
    (Unpacketizer.receive (unpack H) p).run s = .ok () (s.stored p) := by
  apply receive_stored
  rw [Bool.eq_false_iff, Ne, isNew_iff p hs, not_not, hnumbers]

theorem receive_waits {s t : AVCUnpacketizer ν} {p : MediaPacket} (hp : waits p = true)
    (hrun : (Unpacketizer.receive (unpack H) p).run s = .ok () t) :
    (AVCUnpacketizer.receive H p).run s = .ok () t := by
  rw [AVCUnpacketizer.receive, run_bind_of_ok hrun, if_pos hp]
  rfl

theorem gather_more {n : ℤ × ℤ} {xs : List MediaPacket}
    (hxs : ∀ p ∈ xs, waits p = true ∧ numbers p = n) {s : AVCUnpacketizer ν}
    {q : List MediaPacket} {back : MediaPacket} (hs : s.vBuffer = q ++ [back])
    (hback : numbers back = n) :
    (forM xs (AVCUnpacketizer.receive H)).run s = .ok () { s with vBuffer := s.vBuffer ++ xs } := by
  induction xs generalizing q back s with
  | nil =>
    rw [List.append_nil]
    rfl
  | cons p xs ih =>
    rcases hxs p List.mem_cons_self with ⟨hp, hn⟩
    have hstep := receive_waits H hp (receive_more H hs (by rw [hn, hback]))
    rw [List.forM_cons, run_bind_of_ok hstep,
      ih (fun p' hp' => hxs p' (List.mem_cons_of_mem p hp')) (s := s.stored p)
        (show (s.stored p).vBuffer = s.vBuffer ++ [p] from rfl) hn]
    simp [Unpacketizer.stored]

/-- Fragments without the last one gather in the buffer. -/
theorem gather_run {n : ℤ × ℤ} {xs : List MediaPacket}
    (hxs : ∀ p ∈ xs, waits p = true ∧ numbers p = n) (hne : xs ≠ []) {s : AVCUnpacketizer ν}
    (hs : Waiting s) (hnew : ∀ q ∈ s.vBuffer, numbers q ≠ n) :
    ∃ m, (forM xs (AVCUnpacketizer.receive H)).run s =
      .ok () { s with iUnit := m, vBuffer := xs } := by
  rcases List.exists_cons_of_ne_nil hne with ⟨p, xs, rfl⟩
  rcases hxs p List.mem_cons_self with ⟨hp, hn⟩
  rcases receive_new H hs (p := p) (by rw [hn]; exact hnew) with ⟨m, hrun⟩
  refine ⟨m, ?_⟩
  rw [List.forM_cons, run_bind_of_ok (receive_waits H hp hrun),
    gather_more H (fun p' hp' => hxs p' (List.mem_cons_of_mem p hp'))
      (show [p] = [] ++ [p] from rfl) hn]
  rfl

theorem unpack_fragments {s : AVCUnpacketizer ν} {front : MediaPacket} {rest : List MediaPacket}
    {q : List MediaPacket} {back : MediaPacket} (hs : s.vBuffer = front::rest)
    (hback : front::rest = q ++ [back]) (hfu : dataAt front 0 &&& type_mask = FLAG_FU) :
    (unpack H).run s = (do unpackFU H front back (front::rest); drop).run s := by
  have hlast : (front::rest).getLast (List.cons_ne_nil front rest) = back := by
    simp only [hback, List.getLast_append, List.getLast_singleton]
    simp
  rw [unpack, run_get_bind, hs]
  dsimp only
  rw [if_pos hfu, hlast]

/-- Fragments of which one is missing are dropped. -/
theorem unpack_broken {s : AVCUnpacketizer ν} {front : MediaPacket} {rest : List MediaPacket}
    {q : List MediaPacket} {back : MediaPacket} (hs : s.vBuffer = front::rest)
    (hback : front::rest = q ++ [back]) (hfu : dataAt front 0 &&& type_mask = FLAG_FU)
    (hbroken : complete front back (front::rest).length = false) :
    (unpack H).run s = .ok () { s with iUnit := s.iUnit+1, vBuffer := [] } := by
  rw [unpack_fragments H hs hback hfu, unpackFU, if_neg (by rw [hbroken]; decide)]
  rfl

theorem pushFragments_run (qs : List MediaPacket) (p : MediaPacket)
    (hroom : p.iFront+p.size+(qs.flatMap fun q => q.bytes.drop 2).length < p.max_size) :
    pushFragments p qs = .ok (p.pushed (qs.flatMap fun q => q.bytes.drop 2)) := by
  induction qs generalizing p with
  | nil => simp [pushFragments, MediaPacket.pushed]
  | cons q qs ih =>
    rw [List.flatMap_cons, List.length_append] at hroom
    have hpush : p.push_back (q.bytes.drop 2) = _ := push_back_ok (by omega)
    simp only [pushFragments, hpush, bind, Except.bind]
    rw [ih]
    · simp [MediaPacket.pushed]
    · simp only [MediaPacket.size, MediaPacket.pushed, List.length_append] at hroom ⊢
      omega

theorem payload_length (qs : List MediaPacket) :
    (qs.map fun q => q.size-2).sum = (qs.flatMap fun q => q.bytes.drop 2).length := by
  induction qs with
  | nil => rfl
  | cons q qs ih =>
    rw [List.map_cons, List.sum_cons, ih, List.flatMap_cons, List.length_append, List.length_drop,
      MediaPacket.size]

theorem count_payload (qs : List MediaPacket) (h : ∀ q ∈ qs, 2 < q.size) :
    qs.length ≤ (qs.map fun q => q.size-2).sum := by
  induction qs with
  | nil => rfl
  | cons q qs ih =>
    have hq := h q List.mem_cons_self
    have := ih fun q' hq' => h q' (List.mem_cons_of_mem q hq')
    rw [List.map_cons, List.sum_cons, List.length_cons]
    omega

section
variable {f front back : MediaPacket} {middle : List MediaPacket}

theorem fragments_count (h : Fragments f front middle back) (hf : NALUnit f) :
    middle.length+2 < 2^32 := by
  have hcount := count_payload _ h.sized
  rw [payload_length, h.payload, List.length_drop, List.length_cons, List.length_append,
    List.length_singleton] at hcount
  have hsize := hf.size
  rw [MediaPacket.size] at hsize
  omega

/-- All fragments give back the NAL unit. -/
theorem unpack_joined (h : Fragments f front middle back) (hf : NALUnit f)
    {s : AVCUnpacketizer ν} (hs : s.vBuffer = front::(middle ++ [back])) :
    ∃ t out, (unpack H).run s = .ok () t ∧ t.vBuffer = [] ∧ t.routed = s.routed ++ [out] ∧
      Restores f out := by
  have hcomplete : complete front back (front::(middle ++ [back])).length = true := by
    have hcount := fragments_count h hf
    rw [complete, decide_eq_true_eq, h.units]
    refine ⟨h.starts.2, h.stops.2.2, ?_⟩
    rw [List.length_cons, List.length_append, List.length_singleton, uint32]
    omega
  have hsize := payload_length (front::(middle ++ [back]))
  rw [h.payload] at hsize
  generalize hn : ((front::(middle ++ [back])).map fun q => q.size-2).sum = n at hsize
  have hfirst : (MediaPacket.new .media .video n).push_back [newHeader front] = _ :=
    push_back_ok (by
      simp only [MediaPacket.new, MediaPacket.size, List.length_nil, List.length_singleton,
        iBufferSpace]
      omega)
  generalize hq : joined front back ((MediaPacket.new .media .video n).pushed
    [newHeader front]) = q
  have hbytes : q.bytes = [newHeader front] := by
    rw [← hq]
    rfl
  have hbuffer : q.iFront = iBufferSpace ∧ q.max_size = n+2*iBufferSpace := by
    rw [← hq]
    exact ⟨rfl, rfl⟩
  have hrest := pushFragments_run (front::(middle ++ [back])) q (by
    rw [h.payload, MediaPacket.size, hbytes, hbuffer.1, hbuffer.2, ← hsize, List.length_singleton,
      iBufferSpace]
    omega)
  rw [h.payload] at hrest
  have hwhole : q.bytes ++ f.bytes.drop 1 = f.bytes := by
    rw [hbytes, h.header, dataAt]
    rcases List.exists_cons_of_ne_nil hf.nonempty with ⟨b, bs, hb⟩
    rw [hb]
    rfl
  rcases startcodes_run H (p := q.pushed (f.bytes.drop 1)) (by
      show 4 ≤ q.iFront
      rw [hbuffer.1, iBufferSpace]
      omega) { s with vBuffer := [] } with ⟨own, out, hstart, hrestores⟩
  have hFU : (unpackFU H front back (front::(middle ++ [back]))).run s =
      .ok () (({ s with vBuffer := [], own := own } : AVCUnpacketizer ν).emit out) := by
    rw [unpackFU, if_pos hcomplete]
    dsimp only
    rw [hn, run_ofExcept_bind hfirst, hq, run_ofExcept_bind hrest, run_modify_bind,
      run_bind_of_ok hstart]
    rfl
  rw [unpack_fragments H hs (q := front::middle) rfl (h.indicator front List.mem_cons_self),
    run_bind_of_ok hFU]
  refine ⟨_, out.setUnit s.iUnit, rfl, rfl, rfl, ?_⟩
  rw [Restores, ← hwhole]
  exact hrestores

/-- The buffer with the last fragment and some of those before it. -/
theorem incomplete (h : Fragments f front middle back) (hf : NALUnit f) {first : MediaPacket}
    {rest q : List MediaPacket} (hq : q.Sublist (front::middle)) (hne : q ≠ front::middle)
    (hbuffer : first::rest = q ++ [back]) :
    complete first back (first::rest).length = false := by
  rw [complete, decide_eq_false_iff_not]
  rintro ⟨hbegin, -, hcount⟩
  have hfirst : first = front := by
    by_contra hother
    cases q with
    | nil =>
      injection hbuffer with hfirst _
      rw [hfirst] at hbegin
      exact hbegin h.stops.2.1
    | cons a q =>
      injection hbuffer with hfirst _
      subst hfirst
      rcases List.mem_cons.mp (hq.subset List.mem_cons_self) with hfront | hmiddle
      · exact hother hfront
      · exact hbegin (h.inside first hmiddle).2
  have hlt : q.length < (front::middle).length := by
    apply lt_of_le_of_ne hq.length_le
    intro heq
    exact hne (hq.eq_of_length heq)
  have hcount' := fragments_count h hf
  rw [hbuffer, List.length_append, List.length_singleton, hfirst, h.units, uint32] at hcount
  rw [List.length_cons] at hlt
  omega

/-- The last fragment, after some of those before it. -/
theorem last_run (h : Fragments f front middle back) (hf : NALUnit f) {q : List MediaPacket}
    (hq : q.Sublist (front::middle)) {s : AVCUnpacketizer ν} (hs : Waiting s)
    (hnew : ∀ p ∈ s.vBuffer, numbers p ≠ numbers f) :
    ∃ t, (forM (q ++ [back]) (AVCUnpacketizer.receive H)).run s = .ok () t ∧
      Delivered [f] (q = front::middle) s t := by
  have hxs : ∀ p ∈ q, waits p = true ∧ numbers p = numbers f := by
    intro p hp
    have hmem := hq.subset hp
    constructor
    · rcases List.mem_cons.mp hmem with rfl | hmem
      · exact h.starts.1
      · exact (h.inside p hmem).1
    · apply h.numbers
      rw [← List.cons_append]
      exact List.mem_append_left _ hmem
  have hback : numbers back = numbers f := h.numbers back (by simp)
  -- The last fragment is stored behind the others, whatever was there before.
  have hstored : ∃ n, (do forM q (AVCUnpacketizer.receive H)
                          Unpacketizer.receive (unpack H) back).run s =
      .ok () { s with iUnit := n, vBuffer := q ++ [back] } := by
    by_cases hnil : q = []
    · subst hnil
      exact receive_new H hs (p := back) (by rw [hback]; exact hnew)
    · rcases gather_run H hxs hnil hs hnew with ⟨n, hrun⟩
      refine ⟨n, ?_⟩
      rcases List.eq_nil_or_concat q with heq | ⟨q', last, hlast⟩
      · exact absurd heq hnil
      · rw [List.concat_eq_append] at hlast
        have hnumbers : numbers back = numbers last := by
          rw [hback, (hxs last (by rw [hlast]; simp)).2]
        rw [run_bind_of_ok hrun, receive_more H (show q = q' ++ [last] from hlast) hnumbers]
        rfl
  rcases hstored with ⟨n, hrun⟩
  have hreceive : (forM (q ++ [back]) (AVCUnpacketizer.receive H)).run s =
      (unpack H).run { s with iUnit := n, vBuffer := q ++ [back] } := by
    have hlast : forM [back] (AVCUnpacketizer.receive H) = AVCUnpacketizer.receive H back := by
      rw [List.forM_cons, List.forM_nil]
      exact bind_pure_unit
    rw [List.forM_append, hlast, AVCUnpacketizer.receive, if_neg (by rw [h.stops.1]; decide),
      ← bind_assoc, run_bind_of_ok hrun]
  by_cases hall : q = front::middle
  · rcases unpack_joined H h hf (s := { s with iUnit := n, vBuffer := q ++ [back] })
      (by rw [hall]; rfl) with ⟨t, out, hunpack, hbuffer, hrouted, hrestores⟩
    exact ⟨t, by rw [hreceive, hunpack],
      delivered_all hbuffer hrouted (List.Forall₂.cons hrestores List.Forall₂.nil)⟩
  · rcases List.exists_cons_of_ne_nil (List.append_ne_nil_of_right_ne_nil q
      (List.cons_ne_nil back [])) with ⟨first, rest, hbuffer⟩
    have hfu : dataAt first 0 &&& type_mask = FLAG_FU := by
      apply h.indicator
      have hmem : first ∈ q ++ [back] := by
        rw [hbuffer]
        exact List.mem_cons_self
      rw [← List.cons_append]
      rcases List.mem_append.mp hmem with hmem | hmem
      · exact List.mem_append_left _ (hq.subset hmem)
      · exact List.mem_append_right _ hmem
    have hunpack := unpack_broken H (s := { s with iUnit := n, vBuffer := q ++ [back] }) hbuffer
      hbuffer.symm hfu (incomplete h hf hq hall hbuffer.symm)
    refine ⟨_, by rw [hreceive, hunpack], ?_⟩
    constructor
    · intro p hp
      simp at hp
    · intro p hp
      simp at hp
    · exact ⟨[], by simp, .inl rfl, fun heq => absurd heq hall⟩

theorem fragments_run (h : Fragments f front middle back) (hf : NALUnit f)
    {sub : List MediaPacket} (hsub : sub.Sublist (front::(middle ++ [back])))
    {s : AVCUnpacketizer ν} (hs : Waiting s) (hnew : ∀ p ∈ s.vBuffer, numbers p ≠ numbers f) :
    ∃ t, (forM sub (AVCUnpacketizer.receive H)).run s = .ok () t ∧
      Delivered [f] (sub = front::(middle ++ [back])) s t := by
  rw [← List.cons_append] at hsub ⊢
  rcases List.sublist_append_iff.mp hsub with ⟨q, r, rfl, hq, hr⟩
  rcases List.sublist_singleton.mp hr with rfl | rfl
  · have hpart : ¬ q ++ [] = front::middle ++ [back] := by
      intro heq
      have hlen := congrArg List.length heq
      rw [List.append_nil, List.length_append, List.length_singleton] at hlen
      have := hq.length_le
      omega
    rw [List.append_nil] at hpart ⊢
    by_cases hnil : q = []
    · subst hnil
      exact ⟨s, rfl, delivered_nothing hs hpart⟩
    · have hxs : ∀ p ∈ q, waits p = true ∧ numbers p = numbers f := by
        intro p hp
        have hmem := hq.subset hp
        constructor
        · rcases List.mem_cons.mp hmem with rfl | hmem
          · exact h.starts.1
          · exact (h.inside p hmem).1
        · apply h.numbers
          rw [← List.cons_append]
          exact List.mem_append_left _ hmem
      rcases gather_run H hxs hnil hs hnew with ⟨n, hrun⟩
      refine ⟨_, hrun, ?_⟩
      constructor
      · exact fun p hp => (hxs p hp).1
      · exact fun p hp => .inr ⟨f, List.mem_singleton_self f, (hxs p hp).2⟩
      · exact ⟨[], by simp, .inl rfl, fun heq => absurd heq hpart⟩
  · rcases last_run H h hf hq hs hnew with ⟨t, hrun, hout⟩
    refine ⟨t, hrun, hout.waiting, hout.marked, ?_⟩
    rcases hout.routed with ⟨outs, hrouted, heither, hall⟩
    exact ⟨outs, hrouted, heither, fun heq => hall (List.append_cancel_right heq)⟩

end

/-! ## Any group -/

theorem receive_whole {p : MediaPacket} {members : List MediaPacket} {n : ℤ × ℤ}
    (hwaits : waits p = false) (hnumbers : numbers p = n)
    (hunpack : ∀ s : AVCUnpacketizer ν, s.vBuffer = [p] → ∃ t outs, (unpack H).run s = .ok () t ∧
      t.vBuffer = [] ∧ t.routed = s.routed ++ outs ∧ List.Forall₂ Restores members outs)
    {sub : List MediaPacket} (hsub : sub.Sublist [p]) {s : AVCUnpacketizer ν} (hs : Waiting s)
    (hnew : ∀ q ∈ s.vBuffer, numbers q ≠ n) :
    ∃ t, (forM sub (AVCUnpacketizer.receive H)).run s = .ok () t ∧
      Delivered members (sub = [p]) s t := by
  rcases List.sublist_singleton.mp hsub with rfl | rfl
  · exact ⟨s, rfl, delivered_nothing hs (by simp)⟩
  · rcases receive_new H hs (p := p) (by rw [hnumbers]; exact hnew) with ⟨m, hrun⟩
    rcases hunpack { s with iUnit := m, vBuffer := [p] } rfl with
      ⟨t, outs, hrun', hbuffer, hrouted, hall⟩
    refine ⟨t, ?_, delivered_all hbuffer hrouted hall⟩
    have hlast : forM [p] (AVCUnpacketizer.receive H) = AVCUnpacketizer.receive H p := by
      rw [List.forM_cons, List.forM_nil]
      exact bind_pure_unit
    rw [hlast, AVCUnpacketizer.receive, run_bind_of_ok hrun, if_neg (by rw [hwaits]; decide), hrun']

/-- Of a group all NAL units are put out or none, and all when all of its packets arrive. -/
theorem group_run {iMTU : ℤ} (hint : iMTU < 2^16) {members ps : List MediaPacket}
    (h : Group iMTU members ps) (hunits : ∀ f ∈ members, NALUnit f) {sub : List MediaPacket}
    (hsub : sub.Sublist ps) {s : AVCUnpacketizer ν} (hs : Waiting s)
    (hnew : ∀ f ∈ members, ∀ q ∈ s.vBuffer, numbers q ≠ numbers f) :
    ∃ t, (forM sub (AVCUnpacketizer.receive H)).run s = .ok () t ∧
      Delivered members (sub = ps) s t := by
  cases h with
  | @single f p hbytes hfront hnumbers _ =>
    have hf := hunits f List.mem_cons_self
    have hwaits : waits p = false := by
      rw [waits, decide_eq_false_iff_not, dataAt, hbytes]
      exact fun hfu => (unit_byte hf.type.2).1 hfu.1
    apply receive_whole H hwaits hnumbers _ hsub hs (hnew f List.mem_cons_self)
    intro s' hs'
    rcases single_run H hf hbytes hfront hs' with ⟨t, out, hrun, hbuffer, hrouted, hrestores⟩
    exact ⟨t, [out], hrun, hbuffer, hrouted, List.Forall₂.cons hrestores List.Forall₂.nil⟩
  | @fragments f p u chunk data ps hp hps hdata =>
    have hf := hunits f List.mem_cons_self
    rcases group_fragments hp hps hdata with ⟨middle, back, rfl, hfragments⟩
    exact fragments_run H hfragments hf hsub hs (hnew f List.mem_cons_self)
  | @aggregate f g fs p hp =>
    have hwaits : waits p = false := by
      rcases hp.bytes with ⟨h, hh, hbytes⟩
      rw [waits, decide_eq_false_iff_not]
      rintro ⟨hfu, -⟩
      rw [dataAt, hbytes] at hfu
      exact absurd (hh.symm.trans hfu) (by decide)
    apply receive_whole H hwaits hp.numbers _ hsub hs (hnew f List.mem_cons_self)
    intro s' hs'
    exact aggregate_run H hint hp (by simp) hs'

end

end Sirannon.AVC
