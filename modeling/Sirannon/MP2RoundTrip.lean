import Sirannon.AnnexB
import Sirannon.MP2Packetizer

/-!
# MPEG-2 round trip

Each fragment but the last one has the bit for the end of its slice clear, and
the unpacketizer stops at the one where it is set. So a frame comes back as it
was, however it was cut.
-/

set_option autoImplicit false

namespace Sirannon.MP2
open ByteMemory MachineInt Bits BitString Media Packetization StateError

/-! ## The picture start code -/

variable {m : Memory} {b₀ b₁ b₂ b₃ : UInt8} {bytes rest : List UInt8}

theorem lastFour_picture : AnnexB.lastFour b₀ b₁ b₂ b₃ = PICTURE_START ↔
    b₀ = 0 ∧ b₁ = 0 ∧ b₂ = 1 ∧ b₃ = 0 := by
  have h₀ := b₀.toNat_lt
  have h₁ := b₁.toNat_lt
  have h₂ := b₂.toNat_lt
  have h₃ := b₃.toNat_lt
  rw [AnnexB.lastFour, PICTURE_START, ← UInt8.toNat_inj, ← UInt8.toNat_inj, ← UInt8.toNat_inj,
    ← UInt8.toNat_inj]
  simp only [UInt8.toNat_zero, UInt8.toNat_one]
  omega

/-- A code that is there is found, or another one in front of it. -/
theorem findLoop_found (b₀ : UInt8) {iSize fuel iPos : ℕ} {pre : List UInt8} (hm : Stored m iPos bytes)
    (hsize : iPos+bytes.length = iSize) (hfuel : bytes.length ≤ fuel)
    (hcode : b₁::b₂::b₃::bytes = pre ++ [0, 0, 1, 0] ++ rest) :
    ∃ pre' rest', b₁::b₂::b₃::bytes = pre' ++ [0, 0, 1, 0] ++ rest' ∧
      findLoop m iSize PICTURE_START fuel iPos (AnnexB.lastFour b₀ b₁ b₂ b₃) = iPos+pre'.length-3 := by
  induction bytes generalizing fuel iPos pre b₀ b₁ b₂ b₃ with
  | nil =>
    have hlen := congrArg List.length hcode
    simp at hlen
    omega
  | cons b bytes ih =>
    rw [List.length_cons] at hsize hfuel
    rw [stored_cons] at hm
    obtain ⟨fuel, rfl⟩ := Nat.exists_eq_add_of_le' (show 1 ≤ fuel by omega)
    rw [findLoop, hm.1, AnnexB.lastFour_next]
    by_cases hfound : AnnexB.lastFour b₁ b₂ b₃ b = PICTURE_START
    · obtain ⟨rfl, rfl, rfl, rfl⟩ := lastFour_picture.1 hfound
      refine ⟨[], bytes, rfl, ?_⟩
      rw [if_pos hfound, List.length_nil]
      push_cast
      ring
    · rw [if_neg hfound, if_neg (by omega)]
      cases pre with
      | nil =>
        simp only [List.nil_append, List.cons_append, List.cons.injEq] at hcode
        exact absurd (lastFour_picture.2 ⟨hcode.1, hcode.2.1, hcode.2.2.1, hcode.2.2.2.1⟩) hfound
      | cons x pre =>
        have hnext : b₂::b₃::b::bytes = pre ++ [0, 0, 1, 0] ++ rest := (List.cons.inj hcode).2
        obtain ⟨pre', rest', hcode', hrun⟩ := ih b₁ hm.2 (by omega)
          (show bytes.length ≤ fuel by omega) hnext
        refine ⟨b₁::pre', rest', ?_, ?_⟩
        · rw [List.cons_append, List.cons_append, ← hcode']
        · rw [hrun, List.length_cons]
          push_cast
          ring

theorem picture_found {iSize : ℕ} {pre : List UInt8} (hm : Stored m 0 bytes) (hsize : bytes.length = iSize)
    (hcode : bytes = pre ++ [0, 0, 1, 0] ++ rest) : 0 ≤ find_next_start_code m iSize PICTURE_START := by
  have hones : (0xFFFFFFFF : ℕ) = AnnexB.lastFour 0xFF 0xFF 0xFF 0xFF := by decide
  have hones' : 0xFF::0xFF::0xFF::bytes = (0xFF::0xFF::0xFF::pre) ++ [0, 0, 1, 0] ++ rest := by
    rw [hcode]
    rfl
  obtain ⟨pre', rest', hcode', hrun⟩ := findLoop_found 0xFF hm (show 0+bytes.length = iSize by omega)
    (show bytes.length ≤ iSize+1 by omega) hones'
  rw [find_next_start_code, hones, hrun]
  -- Among the ones in front of the first byte there is no code.
  have hthree : 3 ≤ pre'.length := by
    rcases pre' with _ | ⟨x, _ | ⟨y, _ | ⟨z, pre'⟩⟩⟩
    · simp at hcode'
    · simp at hcode'
    · simp at hcode'
    · simp
  push_cast
  omega

/-! ## Headers -/

/-- The header of a fragment: for video, the bit at 20 is the end of the slice. -/
structure Header (video : Bool) (bEnd : Bool) (h : List UInt8) : Prop where
  length : h.length = 4
  bits : video = true → ∃ a b c, ofBytes h = ofNat 20 a ++ (ofNat 1 bEnd.toNat ++ (ofNat 3 b ++ ofNat 8 c))

variable {s : MP2Packetizer} {p q f : MediaPacket} {bSequence : Bool}

theorem addHeader_run (fields : List (ℕ × ℕ)) (hlen : (fields.map Prod.fst).sum = 32)
    (hpos : ∀ w ∈ fields, 0 < w.1) (p : MediaPacket) : ∃ h, addHeader fields p = p.push_front h ∧
      ofBytes h = fieldBits fields ∧ h.length = 4 := by
  obtain ⟨o, ho, hbits, hlength⟩ := OBits.writes_new fields hlen (le_refl 4) hpos
  refine ⟨o.data, ?_, hbits, hlength⟩
  rw [addHeader, ho]
  rfl

theorem video_bits (s : MP2Packetizer) (bSequence : Bool) (p : MediaPacket) :
    ∃ a, fieldBits (videoFields s bSequence p) =
      ofNat 20 a ++ (ofNat 1 p.frameend.toNat ++ (ofNat 3 s.iType ++ ofNat 8 0)) := by
  have hfront : fieldBits ((videoFields s bSequence p).take 7) =
      ofNat 20 (value (fieldBits ((videoFields s bSequence p).take 7))) := by
    have hlength : (fieldBits ((videoFields s bSequence p).take 7)).length = 20 := by
      rw [fieldBits_length]
      rfl
    rw [← hlength, ofNat_value]
  refine ⟨value (fieldBits ((videoFields s bSequence p).take 7)), ?_⟩
  rw [← hfront]
  simp [videoFields, fieldBits]

/-- Either content gets a header, once the picture of a video frame is known. -/
theorem header_run (iOffset : ℕ)
    (h : (p.content = .video ∧ ∃ r, s.picture p = some r) ∨ p.content = .audio) :
    ∃ hd s', s.header p iOffset = (p.push_front hd).map (fun q => some (s', q)) ∧
      Header (p.content = .video) p.frameend hd ∧ s'.toPacketizer = s.toPacketizer ∧
        (p.content = .video → 0 ≤ s'.iPos) ∧ (p.content = .audio → s'.iPos = s.iPos) := by
  rcases h with ⟨hcontent, r, hr⟩ | hcontent
  · obtain ⟨hd, hrun, hbits, hlength⟩ := addHeader_run (videoFields r.1 r.2 p) rfl
      (by simp [videoFields]) p
    obtain ⟨a, ha⟩ := video_bits r.1 r.2 p
    have hkept : r.1.toPacketizer = s.toPacketizer ∧ 0 ≤ r.1.iPos := by
      rw [MP2Packetizer.picture] at hr
      by_cases hneg : s.iPos < 0
      · rw [if_pos hneg] at hr
        dsimp only at hr
        by_cases hnone : find_next_start_code (data p) p.size PICTURE_START < 0
        · rw [if_pos hnone] at hr
          cases hr
        · rw [if_neg hnone] at hr
          cases hr
          exact ⟨rfl, not_lt.1 hnone⟩
      · rw [if_neg hneg] at hr
        cases hr
        exact ⟨rfl, not_lt.1 hneg⟩
    refine ⟨hd, r.1, ?_, ⟨hlength, fun _ => ⟨a, r.1.iType, 0, hbits.trans ha⟩⟩, hkept.1, fun _ => hkept.2, ?_⟩
    · rw [MP2Packetizer.header, hcontent, hr]
      dsimp only
      rw [hrun]
      cases p.push_front hd <;> rfl
    · intro haudio
      rw [hcontent] at haudio
      cases haudio
  · obtain ⟨hd, hrun, -, hlength⟩ := addHeader_run (audioFields iOffset) rfl
      (by simp [audioFields]) p
    refine ⟨hd, s, ?_, ⟨hlength, ?_⟩, rfl, ?_, fun _ => rfl⟩
    · rw [MP2Packetizer.header, hcontent]
      dsimp only
      rw [hrun]
      cases p.push_front hd <;> rfl
    · intro hvideo
      rw [decide_eq_true_eq, hcontent] at hvideo
      cases hvideo
    · intro hvideo
      rw [hcontent] at hvideo
      cases hvideo

theorem picture_some (h : 0 ≤ s.iPos ∨ ∃ pre rest, p.bytes = pre ++ [0, 0, 1, 0] ++ rest) :
    ∃ r, s.picture p = some r := by
  rw [MP2Packetizer.picture]
  by_cases hneg : s.iPos < 0
  · rw [if_pos hneg]
    rcases h with hpos | ⟨pre, rest, hcode⟩
    · omega
    · have hfound : 0 ≤ find_next_start_code (data p) p.size PICTURE_START :=
        picture_found (stored_store zeroed 0 p.bytes) rfl hcode
      dsimp only
      rw [if_neg (not_lt.2 hfound)]
      exact ⟨_, rfl⟩
  · rw [if_neg hneg]
    exact ⟨_, rfl⟩

/-! ## Fragments -/

/-- A packet with the bytes `c` of a frame behind its header. -/
structure Fragment (f : MediaPacket) (c : List UInt8) (bEnd : Bool) (q : MediaPacket) : Prop where
  data : ∃ h, q.bytes = h ++ c ∧ Header (f.content = .video) bEnd h
  content : q.content = f.content
  codec : q.codec = f.codec
  type : q.type = f.type
  numbers : numbers q = numbers f

/-- All fragments of a frame; only the last one is the end. -/
inductive Fragments (f : MediaPacket) : List (List UInt8) → List MediaPacket → Prop
  | one {c : List UInt8} {q : MediaPacket} (h : Fragment f c true q) : Fragments f [c] [q]
  | cons {c : List UInt8} {q : MediaPacket} {cs : List (List UInt8)} {qs : List MediaPacket}
      (h : Fragment f c false q) (hrest : Fragments f cs qs) : Fragments f (c::cs) (q::qs)

/-- MPEG audio, or video. -/
structure Kind (f : MediaPacket) : Prop where
  type : f.type = .media
  codec : f.codec = .mp1v ∨ f.codec = .mp2v ∨ f.codec = .mp1a ∨ f.codec = .mp2a
  content : f.content = .video ∨ f.content = .audio

/-- The picture is known, or stands in the first `n` bytes. -/
def Pictured (s : MP2Packetizer) (f : MediaPacket) (n : ℕ) : Prop :=
  f.content = .video → 0 ≤ s.iPos ∨ ∃ pre rest, f.bytes.take n = pre ++ [0, 0, 1, 0] ++ rest

theorem cut_run {n : ℕ} (iOffset : ℕ) (hf : Kind f) (hpic : Pictured s f n) (hn : n ≤ f.size) :
    ∃ s' q, cut s f n iOffset = .ok (f.popped n, some (s', q)) ∧
      Fragment f (f.bytes.take n) (f.size-n = 0) q ∧ s'.iMTU = s.iMTU ∧ s'.routed = s.routed ∧
        (f.content = .video → 0 ≤ s'.iPos) := by
  have hchunk : (f.bytes.take n).length = n := by
    rw [List.length_take]
    exact Nat.min_eq_left hn
  rw [cut, new_push_back .media f.content (n+4) (f.bytes.take n) (by omega), pop_front_ok hn]
  generalize hp : fragment (f.popped n) ((MediaPacket.new .media f.content (n+4)).pushed (f.bytes.take n))
    s.iUnit iOffset = p
  have hbytes : p.bytes = f.bytes.take n := by
    rw [← hp]
    rfl
  have hcontent : p.content = f.content := by
    rw [← hp]
    rfl
  have hfront : p.iFront = iBufferSpace := by
    rw [← hp]
    rfl
  have hend : p.frameend = decide (f.size-n = 0) := by
    rw [← hp]
    show decide ((f.popped n).size = 0) = _
    rw [popped_size]
  have hkinds : (p.content = .video ∧ ∃ r, MP2Packetizer.picture { s with iUnit := s.iUnit+1 } p = some r) ∨
      p.content = .audio := by
    rw [hcontent]
    rcases hf.content with hvideo | haudio
    · refine Or.inl ⟨hvideo, picture_some ?_⟩
      rw [hbytes]
      exact hpic hvideo
    · exact Or.inr haudio
  obtain ⟨hd, s', hrun, hheader, hkept, hpos, -⟩ := header_run iOffset hkinds
  rw [push_front_ok (by rw [hheader.length, hfront]; decide)] at hrun
  refine ⟨s', p.fronted hd, ?_, ?_, ?_, ?_, ?_⟩
  · show (MP2Packetizer.header _ (fragment (f.popped n) _ s.iUnit iOffset) iOffset >>= fun r => _) = _
    rw [hp, hrun]
    rfl
  · refine ⟨⟨hd, ?_, ?_⟩, hcontent, ?_, ?_, ?_⟩
    · rw [fronted_bytes, hbytes]
    · rw [hcontent, hend] at hheader
      exact hheader
    · show p.codec = f.codec
      rw [← hp]
      rfl
    · show p.type = f.type
      rw [← hp]
      rfl
    · show numbers p = numbers f
      rw [← hp]
      rfl
  · rw [hkept]
  · rw [hkept]
  · rw [← hcontent]
    exact hpos

theorem fragments_of {g : MediaPacket} {c : List UInt8} {bEnd : Bool} (h : Fragment g c bEnd q)
    (hg : g.toMetadata = f.toMetadata) : Fragment f c bEnd q := by
  have hcontent : g.content = f.content := by rw [hg]
  obtain ⟨hd, hbytes, hheader⟩ := h.data
  refine ⟨⟨hd, hbytes, ?_⟩, h.content.trans hcontent, ?_, ?_, ?_⟩
  · rw [← hcontent]
    exact hheader
  · rw [h.codec, hg]
  · rw [h.type, hg]
  · rw [h.numbers]
    show (g.framenumber, g.subframenumber) = (f.framenumber, f.subframenumber)
    rw [hg]

theorem fragments_metadata {g : MediaPacket} {cs : List (List UInt8)} {qs : List MediaPacket}
    (h : Fragments g cs qs) (hg : g.toMetadata = f.toMetadata) : Fragments f cs qs := by
  induction h with
  | one h => exact Fragments.one (fragments_of h hg)
  | cons h _ ih => exact Fragments.cons (fragments_of h hg) ih

theorem fragments_run {n : ℕ} (fuel iOffset : ℕ) (hf : Kind f) (hmax : s.iMax = n) (hn : 0 < n)
    (hpic : Pictured s f (min f.size n)) (hsize : 0 < f.size) (hfuel : f.size ≤ fuel) :
    ∃ s' cs qs, fragments fuel s f iOffset = .ok s' ∧ s'.iMTU = s.iMTU ∧ s'.routed = s.routed ++ qs ∧
      Fragments f cs qs ∧ cs.flatten = f.bytes := by
  induction fuel generalizing s f iOffset with
  | zero => omega
  | succ fuel ih =>
    obtain ⟨s₁, q, hcut, hfragment, hmtu, hrouted, hpos⟩ := cut_run iOffset hf hpic (Nat.min_le_left f.size n)
    rw [fragments, if_neg (by omega)]
    dsimp only
    rw [hmax, hcut]
    show ∃ s' cs qs, fragments fuel (s₁.route q) (f.popped (min f.size n)) (iOffset+min f.size n) = .ok s' ∧ _
    have hleft : (f.popped (min f.size n)).size = f.size-min f.size n := popped_size f _
    by_cases hend : f.size-min f.size n = 0
    · rw [decide_eq_true hend] at hfragment
      refine ⟨s₁.route q, [f.bytes.take (min f.size n)], [q], ?_, hmtu, ?_, Fragments.one hfragment, ?_⟩
      · cases fuel with
        | zero => rw [fragments, if_pos (by omega)]
        | succ fuel => rw [fragments, if_pos (by omega)]
      · rw [← hrouted]
        rfl
      · rw [List.flatten_singleton, List.take_of_length_le]
        have hlen : f.size = f.bytes.length := rfl
        omega
    · rw [decide_eq_false hend] at hfragment
      have hf' : Kind (f.popped (min f.size n)) := ⟨hf.type, hf.codec, hf.content⟩
      obtain ⟨s', cs, qs, hrun, hmtu', hrouted', hfragments, hflatten⟩ :=
        ih (s := s₁.route q) (iOffset+min f.size n) hf' (by
          show uint32 (s₁.iMTU-4) = n
          rw [hmtu]
          exact hmax) (fun hvideo => Or.inl (hpos hvideo)) (by omega) (by omega)
      refine ⟨s', f.bytes.take (min f.size n)::cs, q::qs, hrun, hmtu'.trans hmtu, ?_,
        Fragments.cons hfragment ?_, ?_⟩
      · rw [hrouted']
        show (s₁.routed ++ [q]) ++ qs = _
        rw [hrouted, List.append_assoc, List.singleton_append]
      · exact fragments_metadata hfragments (popped_metadata f _)
      · rw [List.flatten_cons, hflatten, popped_bytes, List.take_append_drop]

/-! ## Joining them again -/

theorem end_read {bEnd : Bool} {h c : List UInt8} (hdata : q.bytes = h ++ c) (hheader : Header true bEnd h) :
    (((reader q).read 20).2.read 1).1 = bEnd.toNat := by
  obtain ⟨a, b, d, hbits⟩ := hheader.bits rfl
  have hahead := reader_ahead hdata
  rw [hbits, List.append_assoc] at hahead
  obtain ⟨-, hfirst⟩ := IBits.read_masked hahead (by omega)
  rw [List.append_assoc] at hfirst
  obtain ⟨hend, -⟩ := IBits.read_masked hfirst (by omega)
  rw [hend]
  cases bEnd <;> rfl

/-- The end is seen in video only, which is all it is looked for in. -/
theorem deduce_run {bEnd : Bool} {c : List UInt8} (h : Fragment f c bEnd q) (hp : p.content = f.content) :
    ∃ p', deduce p q = (decide (f.content = .video) && bEnd, p') ∧ p'.content = p.content ∧
      p'.bytes = p.bytes ∧ p'.iFront = p.iFront ∧ p'.max_size = p.max_size := by
  obtain ⟨hd, hdata, hheader⟩ := h.data
  rw [deduce]
  by_cases hvideo : f.content = .video
  · rw [decide_eq_true hvideo] at hheader
    have hread := end_read hdata hheader
    rw [if_pos (hp.trans hvideo), decide_eq_true hvideo]
    dsimp only
    rw [hread]
    refine ⟨{ p with frame := MpegToSirannon ((((reader q).read 20).2.read 1).2.read 3).1 }, ?_, rfl, rfl,
      rfl, rfl⟩
    cases bEnd <;> rfl
  · rw [if_neg fun h => hvideo (hp.symm.trans h), decide_eq_false hvideo]
    exact ⟨p, rfl, rfl, rfl, rfl, rfl⟩

theorem header_popped {bEnd : Bool} {c : List UInt8} (h : Fragment f c bEnd q) :
    ∃ q', q.pop_front 4 = .ok q' ∧ q'.bytes = c ∧ q.size = 4+c.length := by
  obtain ⟨hd, hdata, hheader⟩ := h.data
  have hlen := hheader.length
  have hsize : q.size = 4+c.length := by
    rw [MediaPacket.size, hdata, List.length_append, hlen]
  refine ⟨_, pop_front_ok (by omega), ?_, hsize⟩
  rw [popped_bytes, hdata, ← hlen, List.drop_left]

theorem join_run {cs : List (List UInt8)} {qs : List MediaPacket} (h : Fragments f cs qs)
    (hp : p.content = f.content) (hroom : p.iFront+p.size+cs.flatten.length < p.max_size) :
    ∃ p', joinLoop qs p = .ok (p', []) ∧ p'.bytes = p.bytes ++ cs.flatten := by
  induction h generalizing p with
  | @one c q h =>
    obtain ⟨p', hdeduce, -, hbytes, hfront, hmax⟩ := deduce_run h hp
    obtain ⟨q', hpop, hq', -⟩ := header_popped h
    rw [List.flatten_singleton] at hroom ⊢
    have hpush : p'.push_back q'.bytes = .ok (p'.pushed c) := by
      rw [hq']
      apply push_back_ok
      rw [hfront, hmax, MediaPacket.size, hbytes]
      exact hroom
    rw [joinLoop, hdeduce, hpop]
    refine ⟨p'.pushed c, ?_, by rw [pushed_bytes, hbytes]⟩
    show (p'.push_back q'.bytes >>= fun pUnpack => _) = _
    rw [hpush]
    show (if _ then _ else joinLoop [] (p'.pushed c)) = _
    split_ifs <;> rfl
  | @cons c q cs qs h _ ih =>
    obtain ⟨p', hdeduce, hcontent, hbytes, hfront, hmax⟩ := deduce_run h hp
    obtain ⟨q', hpop, hq', -⟩ := header_popped h
    rw [List.flatten_cons, List.length_append] at hroom
    have hsize : p'.size = p.size := by
      rw [MediaPacket.size, hbytes]
      rfl
    have hpush : p'.push_back q'.bytes = .ok (p'.pushed c) := by
      rw [hq']
      exact push_back_ok (by omega)
    obtain ⟨p'', hrun, hall⟩ := ih (p := p'.pushed c) (hcontent.trans hp) (by
      have hpushed : (p'.pushed c).size = p'.size+c.length := by
        rw [MediaPacket.size, pushed_bytes, List.length_append]
        rfl
      show p'.iFront+(p'.pushed c).size+cs.flatten.length < p'.max_size
      omega)
    rw [joinLoop, hdeduce, hpop, Bool.and_false]
    refine ⟨p'', ?_, ?_⟩
    · show (p'.push_back q'.bytes >>= fun pUnpack => _) = _
      rw [hpush]
      exact hrun
    · rw [hall, pushed_bytes, hbytes, List.flatten_cons, List.append_assoc]

/-- The packets of a frame, from which the unpacketizer makes it again. -/
structure Packs (f : MediaPacket) (qs : List MediaPacket) : Prop where
  some : qs ≠ []
  packet : ∀ q ∈ qs, q.type = .media ∧ numbers q = numbers f ∧
    (q.codec = .mp1a ∨ q.codec = .mp2a ∨ q.codec = .mp1v ∨ q.codec = .mp2v)
  unpacks : ∀ s : MP2Unpacketizer, s.vBuffer = qs → ∃ t out, unpack.run s = .ok () t ∧
    t.vBuffer = [] ∧ t.routed = s.routed ++ [out] ∧ out.bytes = f.bytes

theorem fragments_sizes {cs : List (List UInt8)} {qs : List MediaPacket} (h : Fragments f cs qs) :
    cs.flatten.length ≤ sizes qs := by
  induction h with
  | one h =>
    obtain ⟨-, -, -, hsize⟩ := header_popped h
    simp only [List.flatten_singleton, sizes, List.map_singleton, List.sum_singleton]
    omega
  | cons h _ ih =>
    obtain ⟨-, -, -, hsize⟩ := header_popped h
    simp only [List.flatten_cons, List.length_append, sizes, List.map_cons, List.sum_cons]
    rw [sizes] at ih
    omega

theorem fragments_each {cs : List (List UInt8)} {qs : List MediaPacket} (h : Fragments f cs qs) :
    ∀ q ∈ qs, ∃ c bEnd, Fragment f c bEnd q := by
  induction h with
  | one h =>
    intro q hq
    rw [List.mem_singleton.1 hq]
    exact ⟨_, _, h⟩
  | cons h _ ih =>
    intro q hq
    rcases List.mem_cons.1 hq with rfl | hq
    · exact ⟨_, _, h⟩
    · exact ih q hq

theorem packs_one {bEnd : Bool} (h : Fragment f f.bytes bEnd q) (hf : Kind f) : Packs f [q] := by
  refine ⟨List.cons_ne_nil q [], ?_, ?_⟩
  · intro q' hq'
    rw [List.mem_singleton.1 hq', h.codec]
    have hcodec := hf.codec
    exact ⟨h.type.trans hf.type, h.numbers, by tauto⟩
  · intro s hs
    obtain ⟨q', hpop, hq', -⟩ := header_popped h
    rw [unpack, run_get_bind, hs]
    dsimp only
    rw [run_ofExcept_bind hpop]
    exact ⟨_, whole q' s.iUnit, rfl, rfl, rfl, hq'⟩

theorem packs_fragments {cs : List (List UInt8)} {qs : List MediaPacket} (h : Fragments f cs qs) (hf : Kind f)
    (hflatten : cs.flatten = f.bytes) : Packs f qs := by
  cases h with
  | @one c q h =>
    rw [List.flatten_singleton] at hflatten
    subst hflatten
    exact packs_one h hf
  | @cons c q cs qs h hrest =>
    have hall := Fragments.cons h hrest
    have hsizes := fragments_sizes hall
    refine ⟨List.cons_ne_nil q qs, ?_, ?_⟩
    · intro q' hq'
      obtain ⟨c', bEnd, hq'⟩ := fragments_each hall q' hq'
      have hcodec := hf.codec
      rw [hq'.codec]
      exact ⟨hq'.type.trans hf.type, hq'.numbers, by tauto⟩
    · intro s hs
      obtain ⟨q₂, rest, rfl⟩ : ∃ q₂ rest, qs = q₂::rest := by
        cases hrest <;> exact ⟨_, _, rfl⟩
      obtain ⟨p', hrun, hbytes⟩ := join_run
        (p := whole ((MediaPacket.new .media .video (sizes (q::q₂::rest))).set_metadata q) s.iUnit) hall
        h.content (by
          show iBufferSpace+0+(c::cs).flatten.length < sizes (q::q₂::rest)+2*iBufferSpace
          rw [iBufferSpace]
          omega)
      rw [unpack, run_get_bind, hs]
      dsimp only
      rw [run_ofExcept_bind hrun]
      refine ⟨_, p', rfl, rfl, rfl, ?_⟩
      rw [hbytes, ← hflatten]
      rfl

/-! ## Sending a frame -/

/-- A frame of MPEG audio, or one of video whose picture starts early enough. -/
structure Frame (iMTU : ℤ) (f : MediaPacket) : Prop extends Kind f where
  picture : f.content = .video → ∃ pre rest, f.bytes = pre ++ [0, 0, 1, 0] ++ rest ∧
    (pre.length : ℤ)+4 ≤ iMTU-4-6

/-- A large frame can be cut; a small one has room for the header in front of its data. -/
def Sendable (iMTU : ℤ) (f : MediaPacket) : Prop :=
  if uint32 (iMTU-4) < f.size then uint32 (iMTU-4) ≠ 0 else 4 ≤ f.iFront

/-- The picture stands in the first fragment. -/
theorem frame_pictured {iMTU : ℤ} (hmtu : iMTU < 2^31) (hf : Frame iMTU f) {n : ℕ}
    (hn : f.size ≤ n ∨ n = uint32 (iMTU-4)) : Pictured s f n := by
  intro hvideo
  obtain ⟨pre, rest, hbytes, hearly⟩ := hf.picture hvideo
  right
  have hlen := congrArg List.length hbytes
  simp only [List.length_append, List.length_cons, List.length_nil] at hlen
  have hfour : pre.length+4 ≤ n := by
    rcases hn with hn | rfl
    · rw [MediaPacket.size] at hn
      omega
    · rw [uint32]
      omega
  refine ⟨pre, rest.take (n-(pre.length+4)), ?_⟩
  have hcode : (pre ++ [(0 : UInt8), 0, 1, 0]).length = pre.length+4 := List.length_append
  rw [hbytes, List.take_append, hcode, List.take_of_length_le (by omega)]

theorem single_sent {iMTU : ℤ} (hmtu : iMTU < 2^31) (hf : Frame iMTU f) :
    (4 ≤ f.iFront → ∃ s' q bEnd, single s f = .ok s' ∧ s'.iMTU = s.iMTU ∧ s'.routed = s.routed ++ [q] ∧
      Fragment f f.bytes bEnd q) ∧
    (¬ 4 ≤ f.iFront → ∃ e, single s f = .error e) := by
  have hkinds : ((f.setUnit s.iUnit).content = .video ∧ ∃ r,
      MP2Packetizer.picture { s with iUnit := s.iUnit+1 } (f.setUnit s.iUnit) = some r) ∨
        (f.setUnit s.iUnit).content = .audio := by
    rcases hf.content with hvideo | haudio
    · refine Or.inl ⟨hvideo, picture_some ?_⟩
      rcases frame_pictured (s := s) hmtu hf (Or.inl (le_refl f.size)) hvideo with hpos | ⟨pre, rest, hcode⟩
      · exact Or.inl hpos
      · rw [MediaPacket.size, List.take_length] at hcode
        exact Or.inr ⟨pre, rest, hcode⟩
    · exact Or.inr haudio
  obtain ⟨hd, s', hrun, hheader, hkept, -, -⟩ := header_run 0 hkinds
  have hfront : (f.setUnit s.iUnit).iFront = f.iFront := rfl
  constructor
  · intro hroom
    rw [push_front_ok (by rw [hheader.length, hfront]; exact hroom)] at hrun
    refine ⟨s'.route ((f.setUnit s.iUnit).fronted hd), (f.setUnit s.iUnit).fronted hd, _, ?_, ?_, ?_,
      ⟨⟨hd, rfl, hheader⟩, rfl, rfl, rfl, rfl⟩⟩
    · rw [single, hrun]
      rfl
    · show s'.iMTU = s.iMTU
      rw [hkept]
    · show s'.routed ++ _ = _
      rw [hkept]
  · intro hroom
    rw [MediaPacket.push_front, if_pos (by rw [hheader.length, hfront]; omega)] at hrun
    rw [single, hrun]
    exact ⟨_, rfl⟩

/-- Nothing is cut off, again and again. -/
theorem fragments_stuck (fuel iOffset : ℕ) (hf : Kind f) (haudio : f.content = .audio) (hmax : s.iMax = 0)
    (hsize : 0 < f.size) : fragments fuel s f iOffset = .error outOfFuel := by
  induction fuel generalizing s f iOffset with
  | zero => rw [fragments, if_neg (by omega)]
  | succ fuel ih =>
    have hpic : Pictured s f 0 := by
      intro hvideo
      rw [haudio] at hvideo
      cases hvideo
    obtain ⟨s₁, q, hcut, -, hmtu, -⟩ := cut_run iOffset hf hpic (Nat.zero_le f.size)
    rw [fragments, if_neg (by omega)]
    dsimp only
    rw [hmax, Nat.min_zero, hcut]
    show fragments fuel (s₁.route q) (f.popped 0) (iOffset+0) = _
    apply ih (iOffset+0) ⟨hf.type, hf.codec, hf.content⟩ haudio
    · show uint32 (s₁.iMTU-4) = 0
      rw [hmtu]
      exact hmax
    · exact hsize

/-- Between frames, the picture is not known. -/
structure Ready (iMTU : ℤ) (s : MP2Packetizer) : Prop where
  iPos : s.iPos = -1
  iMTU : s.iMTU = iMTU

theorem receive_sent {iMTU : ℤ} (hmtu : iMTU < 2^31) (hs : Ready iMTU s) (hf : Frame iMTU f) :
    (Sendable iMTU f → ∃ s' qs, s.receive f = .ok s' ∧ Ready iMTU s' ∧ s'.routed = s.routed ++ qs ∧ Packs f qs) ∧
    (¬ Sendable iMTU f → ∃ e, s.receive f = .error e) := by
  -- The kind of packetization does not matter to what is sent.
  have hf' : Frame iMTU { f with mux := .RTP } := ⟨⟨hf.type, hf.codec, hf.content⟩, hf.picture⟩
  have hmax : s.iMax = uint32 (iMTU-4) := by rw [MP2Packetizer.iMax, hs.iMTU]
  have hrun : s.receive f = (send s { f with mux := .RTP }).map fun s => { s with iPos := -1 } := by
    rw [MP2Packetizer.receive, if_pos hf.codec]
  rw [hrun, send, Sendable, hmax]
  change (_ → ∃ s' qs, Except.map _ (if uint32 (iMTU-4) < f.size then _ else _) = _ ∧ _) ∧ (_ → ∃ e,
    Except.map _ (if uint32 (iMTU-4) < f.size then _ else _) = _)
  by_cases hlarge : uint32 (iMTU-4) < f.size
  · simp only [if_pos hlarge]
    constructor
    · intro hn
      obtain ⟨s', cs, qs, hsent, hkept, hrouted, hfragments, hflatten⟩ := fragments_run f.size 0
        hf'.toKind hmax (Nat.pos_of_ne_zero hn)
        (frame_pictured hmtu hf' (Or.inr (Nat.min_eq_right (le_of_lt hlarge)))) (by
          show 0 < f.size
          omega) (le_refl f.size)
      have hpacks := packs_fragments hfragments hf'.toKind hflatten
      refine ⟨{ s' with iPos := -1 }, qs, ?_, ⟨rfl, hkept.trans hs.iMTU⟩, hrouted,
        ⟨hpacks.some, hpacks.packet, hpacks.unpacks⟩⟩
      show Except.map _ (fragments f.size s { f with mux := .RTP } 0) = _
      rw [hsent]
      rfl
    · intro hn
      rw [ne_eq, not_not] at hn
      have haudio : f.content = .audio := by
        rcases hf.content with hvideo | haudio
        · obtain ⟨pre, rest, -, hearly⟩ := hf.picture hvideo
          rw [uint32] at hn
          omega
        · exact haudio
      have hstuck := fragments_stuck f.size 0 hf'.toKind haudio (hmax.trans hn) (by
        show 0 < f.size
        omega)
      refine ⟨outOfFuel, ?_⟩
      show Except.map _ (fragments f.size s { f with mux := .RTP } 0) = _
      rw [hstuck]
      rfl
  · simp only [if_neg hlarge]
    obtain ⟨hok, herror⟩ := single_sent (s := s) hmtu hf'
    constructor
    · intro hroom
      obtain ⟨s', q, bEnd, hsent, hkept, hrouted, hfragment⟩ := hok hroom
      have hpacks := packs_one hfragment hf'.toKind
      refine ⟨{ s' with iPos := -1 }, [q], ?_, ⟨rfl, hkept.trans hs.iMTU⟩, hrouted,
        ⟨hpacks.some, hpacks.packet, hpacks.unpacks⟩⟩
      rw [hsent]
      rfl
    · intro hroom
      obtain ⟨e, he⟩ := herror hroom
      rw [he]
      exact ⟨e, rfl⟩

/-! ## Runs -/

theorem packetize_sent {iMTU : ℤ} {fs : List MediaPacket} (hmtu : iMTU < 2^31) (hs : Ready iMTU s)
    (hfs : ∀ f ∈ fs, Frame iMTU f) :
    ((∀ f ∈ fs, Sendable iMTU f) → ∃ s' qss, packetize s fs = .ok s' ∧ s'.routed = s.routed ++ qss.flatten ∧
      List.Forall₂ Packs fs qss) ∧
    ((∃ f ∈ fs, ¬ Sendable iMTU f) → ∃ e, packetize s fs = .error e) := by
  induction fs generalizing s with
  | nil =>
    constructor
    · intro _
      exact ⟨s, [], rfl, (List.append_nil _).symm, List.Forall₂.nil⟩
    · rintro ⟨f, hf, -⟩
      exact absurd hf List.not_mem_nil
  | cons f fs ih =>
    obtain ⟨hok, herror⟩ := receive_sent hmtu hs (hfs f List.mem_cons_self)
    have hrest := fun g hg => hfs g (List.mem_cons_of_mem f hg)
    by_cases hsend : Sendable iMTU f
    · obtain ⟨s₁, qs, hrun, hready, hrouted, hpacks⟩ := hok hsend
      obtain ⟨hok', herror'⟩ := ih hready hrest
      rw [packetize, List.foldlM_cons, hrun]
      constructor
      · intro hall
        obtain ⟨s', qss, hrun', hrouted', hpacks'⟩ := hok' fun g hg => hall g (List.mem_cons_of_mem f hg)
        refine ⟨s', qs::qss, hrun', ?_, List.Forall₂.cons hpacks hpacks'⟩
        rw [hrouted', hrouted, List.flatten_cons, List.append_assoc]
      · rintro ⟨g, hg, hnot⟩
        rcases List.mem_cons.1 hg with rfl | hg
        · exact absurd hsend hnot
        · exact herror' ⟨g, hg, hnot⟩
    · obtain ⟨e, he⟩ := herror hsend
      constructor
      · intro hall
        exact absurd (hall f List.mem_cons_self) hsend
      · intro _
        rw [packetize, List.foldlM_cons, he]
        exact ⟨e, rfl⟩

variable {u : MP2Unpacketizer} {f₀ pEnd : MediaPacket} {qs qs₀ : List MediaPacket}

/-- A packet that is one of the frame's own. -/
def Own (f q : MediaPacket) : Prop :=
  q.type = .media ∧ numbers q = numbers f ∧
    (q.codec = .mp1a ∨ q.codec = .mp2a ∨ q.codec = .mp1v ∨ q.codec = .mp2v)

theorem deliver_own (h : Own f q) : deliver q = Unpacketizer.receive unpack q := by
  rw [deliver, h.1]
  dsimp only
  rw [receive, if_pos h.2.2]

/-- More packets of the same frame are stored behind it. -/
theorem deliver_more (pre : List MediaPacket) (h : ∀ q ∈ qs, Own f q) (hu : u.vBuffer = pre ++ [q])
    (hq : numbers q = numbers f) : (forM qs deliver).run u = .ok () { u with vBuffer := u.vBuffer ++ qs } := by
  induction qs generalizing u q pre with
  | nil =>
    rw [List.append_nil]
    rfl
  | cons p qs ih =>
    have hp := h p List.mem_cons_self
    have hold : u.isNew p = false := by
      rw [← Bool.not_eq_true, isNew_iff p hu, hq, hp.2.1]
      exact not_not.2 rfl
    have hstep : (deliver p).run u = .ok () (u.stored p) := by
      rw [deliver_own hp, receive_stored hold]
    rw [List.forM_cons, run_bind_of_ok hstep,
      ih (u := u.stored p) u.vBuffer (fun r hr => h r (List.mem_cons_of_mem p hr)) rfl hp.2.1]
    simp [Unpacketizer.stored]

/-- The packets of a frame, of which the first one was stored. -/
theorem deliver_rest (h : Packs f qs) {q : MediaPacket} {rest : List MediaPacket} (hqs : qs = q::rest)
    (hu : u.vBuffer = []) : (forM rest deliver).run (u.stored q) = .ok () { u with vBuffer := qs } := by
  have hq := h.packet q (by rw [hqs]; exact List.mem_cons_self)
  have hstored : (u.stored q).vBuffer = [] ++ [q] := by
    show u.vBuffer ++ [q] = _
    rw [hu]
  rw [deliver_more (f := f) [] (fun r hr => h.packet r (by rw [hqs]; exact List.mem_cons_of_mem q hr)) hstored hq.2.1]
  rw [hstored, hqs]
  rfl

theorem deliver_first (h : Packs f qs) (hu : u.vBuffer = []) :
    (forM qs deliver).run u = .ok () { u with vBuffer := qs } := by
  obtain ⟨q, rest, hqs⟩ := List.exists_cons_of_ne_nil h.some
  have hq := h.packet q (by rw [hqs]; exact List.mem_cons_self)
  have hstep : (deliver q).run u = .ok () (u.stored q) := by
    rw [deliver_own hq, receive_stored (isNew_empty q hu)]
  have hrest := deliver_rest h hqs hu
  rw [hqs, List.forM_cons, run_bind_of_ok hstep, hrest, hqs]

/-- With the next frame, the one before it leaves. -/
theorem deliver_next (h : Packs f qs) (h₀ : Packs f₀ qs₀) (hu : u.vBuffer = qs₀) (hne : numbers f₀ ≠ numbers f) :
    ∃ t out, (forM qs deliver).run u = .ok () t ∧ t.vBuffer = qs ∧ t.routed = u.routed ++ [out] ∧
      out.bytes = f₀.bytes := by
  obtain ⟨q, rest, hqs⟩ := List.exists_cons_of_ne_nil h.some
  have hq := h.packet q (by rw [hqs]; exact List.mem_cons_self)
  obtain ⟨t, out, hrun, hempty, hrouted, hbytes⟩ := h₀.unpacks u hu
  have hnew : u.isNew q = true := by
    obtain ⟨pre, back, hback⟩ := (List.eq_nil_or_concat qs₀).resolve_left h₀.some
    rw [List.concat_eq_append] at hback
    have hown := h₀.packet back (by rw [hback]; simp)
    rw [isNew_iff q (hu.trans hback), hown.2.1, hq.2.1]
    exact hne
  have hstep : (deliver q).run u = .ok () (t.stored q) := by
    rw [deliver_own hq, receive_unpacked hnew hrun]
  have hrest := deliver_rest h hqs hempty
  refine ⟨{ t with vBuffer := qs }, out, ?_, rfl, hrouted, hbytes⟩
  rw [hqs, List.forM_cons, run_bind_of_ok hstep, hrest, hqs]

theorem deliver_end (h₀ : Packs f₀ qs₀) (hu : u.vBuffer = qs₀) (hEnd : pEnd.type = .end) :
    ∃ t out e, (forM [pEnd] deliver).run u = .ok () t ∧ t.routed = u.routed ++ [out] ++ [e] ∧ e.type = .end ∧
      out.bytes = f₀.bytes := by
  obtain ⟨t, out, hrun, -, hrouted, hbytes⟩ := h₀.unpacks u hu
  refine ⟨t.emit pEnd, out, pEnd.setUnit t.iUnit, ?_, ?_, hEnd, hbytes⟩
  · rw [List.forM_cons, List.forM_nil, deliver, hEnd]
    dsimp only
    rw [bind_pure_unit, Unpacketizer.receive_end, run_bind_of_ok hrun]
    rfl
  · rw [Unpacketizer.emit, hrouted]

theorem deliver_frames {fs : List MediaPacket} {qss : List (List MediaPacket)}
    (h : List.Forall₂ Packs fs qss) (h₀ : Packs f₀ qs₀) (hu : u.vBuffer = qs₀)
    (hdistinct : (f₀::fs).Pairwise fun f g => f.framenumber ≠ g.framenumber) (hEnd : pEnd.type = .end) :
    ∃ t outs e, (forM (qss.flatten ++ [pEnd]) deliver).run u = .ok () t ∧ t.routed = u.routed ++ outs ++ [e] ∧
      e.type = .end ∧ outs.map (fun p => p.bytes) = (f₀::fs).map fun p => p.bytes := by
  induction h generalizing u f₀ qs₀ with
  | nil =>
    obtain ⟨t, out, e, hrun, hrouted, he, hbytes⟩ := deliver_end h₀ hu hEnd
    refine ⟨t, [out], e, hrun, hrouted, he, ?_⟩
    rw [List.map_singleton, hbytes, List.map_singleton]
  | @cons f qs fs qss hpacks _ ih =>
    have hne : numbers f₀ ≠ numbers f := by
      intro heq
      exact List.rel_of_pairwise_cons hdistinct List.mem_cons_self (Prod.mk.inj heq).1
    obtain ⟨t, out, hrun, hbuffer, hrouted, hbytes⟩ := deliver_next hpacks h₀ hu hne
    obtain ⟨t', outs, e, hrun', hrouted', he, houts⟩ := ih hpacks hbuffer (List.pairwise_cons.1 hdistinct).2
    refine ⟨t', out::outs, e, ?_, ?_, he, ?_⟩
    · rw [List.flatten_cons, List.append_assoc, List.forM_append, run_bind_of_ok hrun]
      exact hrun'
    · rw [hrouted', hrouted]
      simp
    · rw [List.map_cons, hbytes, houts]
      rfl

/-- Frames come back just when there are some, those that are cut leave in fragments of some size,
and the others have room for their header. -/
theorem mp2_round_trip_iff {mtu : ℤ} {fs : List MediaPacket} (hmtu : mtu < 2^31)
    (hfs : ∀ f ∈ fs, Frame (mtu-20-20-18-12) f)
    (hdistinct : fs.Pairwise fun f g => f.framenumber ≠ g.framenumber) (hEnd : pEnd.type = .end) :
    (∃ s t outs e, packetize (MP2Packetizer.init mtu) fs = .ok s ∧
      (forM (s.routed ++ [pEnd]) deliver).run (Unpacketizer.init ()) = .ok () t ∧ t.routed = outs ++ [e] ∧
      e.type = .end ∧ outs.map (fun p => p.bytes) = fs.map fun p => p.bytes) ↔
    fs ≠ [] ∧ ∀ f ∈ fs, Sendable (mtu-20-20-18-12) f := by
  have hready : Ready (mtu-20-20-18-12) (MP2Packetizer.init mtu) := ⟨rfl, rfl⟩
  obtain ⟨hok, herror⟩ := packetize_sent (by omega) hready hfs
  constructor
  · rintro ⟨s, t, outs, e, hpack, hrun, -⟩
    have hsend : ∀ f ∈ fs, Sendable (mtu-20-20-18-12) f := by
      by_contra hnot
      push Not at hnot
      obtain ⟨e', he'⟩ := herror hnot
      rw [hpack] at he'
      cases he'
    refine ⟨?_, hsend⟩
    rintro rfl
    cases hpack
    -- Nothing was collected, so there is no front to begin with.
    have hempty : unpack.run (Unpacketizer.init ()) =
        .error (undefinedBehaviour "front of an empty queue") (Unpacketizer.init ()) := rfl
    rw [show (MP2Packetizer.init mtu).routed ++ [pEnd] = [pEnd] from rfl, List.forM_cons, List.forM_nil,
      deliver, hEnd] at hrun
    dsimp only at hrun
    rw [bind_pure_unit, Unpacketizer.receive_end, run_bind_of_error hempty] at hrun
    cases hrun
  · rintro ⟨hne, hsend⟩
    obtain ⟨s, qss, hpack, hrouted, hpacks⟩ := hok hsend
    cases hpacks with
    | nil => exact absurd rfl hne
    | @cons f qs fs qss hfirst hrest =>
      have hrun := deliver_first (u := Unpacketizer.init ()) hfirst rfl
      obtain ⟨t, outs, e, hrun', hrouted', he, houts⟩ := deliver_frames hrest hfirst
        (u := { (Unpacketizer.init () : MP2Unpacketizer) with vBuffer := qs }) rfl hdistinct hEnd
      refine ⟨s, t, outs, e, hpack, ?_, hrouted', he, houts⟩
      rw [hrouted]
      show (forM ((qs::qss).flatten ++ [pEnd]) deliver).run _ = _
      rw [List.flatten_cons, List.append_assoc, List.forM_append, run_bind_of_ok hrun]
      exact hrun'

/-- A frame of 2000 bytes is cut, a frame of one byte is not. -/
theorem mp2_round_trip_two :
    let f := { MediaPacket.new .media .audio 0 with
      codec := .mp2a, framenumber := 1, bytes := List.replicate 2000 7 }
    let g := { MediaPacket.new .media .audio 0 with codec := .mp2a, framenumber := 2, bytes := [7] }
    let pEnd := MediaPacket.new .end .audio 0
    ∃ (s : MP2Packetizer) (t : MP2Unpacketizer) (outs : List MediaPacket) (e : MediaPacket),
      packetize (MP2Packetizer.init 1500) [f, g] = .ok s ∧
      (forM (s.routed ++ [pEnd]) deliver).run (Unpacketizer.init ()) = .ok () t ∧ t.routed = outs ++ [e] ∧
      e.type = .end ∧ outs.map (fun p => p.bytes) = [f, g].map fun p => p.bytes := by
  intro f g pEnd
  have hsizes : f.size = 2000 ∧ g.size = 1 := ⟨List.length_replicate, rfl⟩
  have hmax : uint32 (1500-20-20-18-12-4) = 1426 := by
    norm_num [uint32]
    rfl
  have hdistinct : [f, g].Pairwise fun f g => f.framenumber ≠ g.framenumber := by
    rw [List.pairwise_pair]
    show (1 : ℤ) ≠ 2
    decide
  refine (mp2_round_trip_iff (by norm_num) ?_ hdistinct rfl).2 ⟨List.cons_ne_nil f [g], ?_⟩
  · intro h hh
    simp only [List.mem_cons, List.not_mem_nil, or_false] at hh
    rcases hh with rfl | rfl
    · exact ⟨⟨rfl, by decide, Or.inr rfl⟩, fun hvideo => by cases hvideo⟩
    · exact ⟨⟨rfl, by decide, Or.inr rfl⟩, fun hvideo => by cases hvideo⟩
  · intro h hh
    simp only [List.mem_cons, List.not_mem_nil, or_false] at hh
    rcases hh with rfl | rfl
    · rw [Sendable, hsizes.1, hmax, if_pos (by decide)]
      decide
    · rw [Sendable, hsizes.2, hmax, if_neg (by decide)]
      decide

/-- The end without a frame. -/
theorem nothing_collected :
    let pEnd := MediaPacket.new .end .mixed 0
    packetize (MP2Packetizer.init 1500) [] = .ok (MP2Packetizer.init 1500) ∧
      ∃ t : MP2Unpacketizer, (forM ((MP2Packetizer.init 1500).routed ++ [pEnd]) deliver).run
        (Unpacketizer.init ()) = .error (undefinedBehaviour "front of an empty queue") t := by
  exact ⟨rfl, _, rfl⟩

end Sirannon.MP2
