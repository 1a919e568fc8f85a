import Sirannon.PESSending

/-!
# PES round trip

Every PES packet is unpacked on its own, because all of them have time stamps.
A frame therefore comes back as it was when it went into one packet, when its
time stamps are not negative, and when the receiver, who goes by the length
field, has room for it.
-/

set_option autoImplicit false

namespace Sirannon.PES
open MachineInt Bits Media Packetization StateError

/-! ## Unpacking one packet -/

/-- The receiver has room for the payload. -/
def Fits (bZero : Bool) (z : Content) : Prop :=
  z.2.length < headerLength bZero z.1 z.2.length % 2^16+iBufferSpace

/-- The packet put out for the contents of a PES packet. -/
structure Out (first : ℤ) (z : Content) (out : MediaPacket) : Prop where
  bytes : out.bytes = z.2
  dts : out.dts = int32 (z.1.dts-first+90000)
  pts : out.pts = int32 (z.1.pts-first+90000)

/-- The time all time stamps are relative to, once one has been read. -/
def firstDTS (s : PESUnpacketizer) (dts : ℤ) : ℤ := if s.iFirstDTS = -1 then dts else s.iFirstDTS

structure Unpacked (s : PESUnpacketizer) (first : ℤ) (outs : List MediaPacket)
    (t : PESUnpacketizer) : Prop where
  queue : t.vQueue = []
  base : t.iBaseDTS = s.iBaseDTS
  first : t.iFirstDTS = first
  routed : t.routed = s.routed ++ outs

section
variable {bZero : Bool} {z : Content} {q : MediaPacket} {s : PESUnpacketizer}

theorem based_first (s : PESUnpacketizer) (h : PESHeader) :
    s.based h = { s with iFirstDTS := firstDTS s h.iDTS } := by
  rw [PESUnpacketizer.based, firstDTS]
  split_ifs
  · rfl
  · rfl

theorem payload_data (hq : Piece bZero z.1 z.2 q) :
    q.bytes.drop (9+(headerSize z.1-9)) = z.2 ∧ ¬ q.size < 9+(headerSize z.1-9) := by
  rcases hq.data with ⟨hd, hbytes, -, hlen⟩
  have hsize := piece_size hq
  have hge : 9 ≤ headerSize z.1 := by
    rw [headerSize]
    split_ifs <;> omega
  constructor
  · rw [hbytes, show 9+(headerSize z.1-9) = hd.length by omega, List.drop_left]
  · omega

theorem unpack_timed (hq : Piece bZero z.1 z.2 q) (ht : Timed z.1) (hstamps : Stamps z.1)
    (hs : s.vQueue = [q]) (hbase : s.iBaseDTS = 90000) (hfits : Fits bZero z) :
    ∃ t out, unpack.run s = .ok () t ∧ Unpacked s (firstDTS s z.1.dts) [out] t ∧
      Out (firstDTS s z.1.dts) z out := by
  have hparse := parse_timed hq ht hstamps
  have hflag : ¬ (stampFlag z.1 ≠ 0x2 ∧ stampFlag z.1 ≠ 0x3) := by
    rw [stampFlag]
    split_ifs <;> omega
  rcases payload_data hq with ⟨hdrop, hsize⟩
  rw [unpack, run_get_bind, hs, List.map_singleton, List.sum_singleton, unpackLoop,
    run_modify_bind, hparse]
  dsimp only
  rw [if_neg hflag, run_modify_bind, run_get_bind, run_modify_bind, based_first]
  dsimp only
  generalize hp : PESUnpacketizer.created _ _ _ _ = p
  have hempty : p.bytes = [] := by
    rw [← hp]
    rfl
  have hpush : pushPayload p q (headerSize z.1-9) = .ok (p.pushed z.2) := by
    rw [pushPayload, if_neg hsize, hdrop]
    apply push_back_ok
    rw [← hp, piece_length hq]
    simp only [PESUnpacketizer.created, MediaPacket.set_metadata, MediaPacket.new,
      MediaPacket.size, List.length_nil]
    rw [Fits] at hfits
    omega
  rw [run_ofExcept_bind hpush]
  refine ⟨_, p.pushed z.2, rfl, ⟨rfl, rfl, rfl, rfl⟩, ?_⟩
  constructor
  · rw [pushed_bytes, hempty, List.nil_append]
  · rw [← hp, ← hbase]
    rfl
  · rw [← hp, ← hbase]
    rfl

theorem unpack_overflow (hq : Piece bZero z.1 z.2 q) (ht : Timed z.1) (hstamps : Stamps z.1)
    (hs : s.vQueue = [q]) (hfits : ¬ Fits bZero z) : ∃ e t, unpack.run s = .error e t := by
  have hparse := parse_timed hq ht hstamps
  have hflag : ¬ (stampFlag z.1 ≠ 0x2 ∧ stampFlag z.1 ≠ 0x3) := by
    rw [stampFlag]
    split_ifs <;> omega
  rcases payload_data hq with ⟨hdrop, hsize⟩
  rw [unpack, run_get_bind, hs, List.map_singleton, List.sum_singleton, unpackLoop,
    run_modify_bind, hparse]
  dsimp only
  rw [if_neg hflag, run_modify_bind, run_get_bind, run_modify_bind]
  generalize hp : PESUnpacketizer.created _ _ _ _ = p
  have hpush : pushPayload p q (headerSize z.1-9) =
      .error (outOfBoundsError "MediaPacket overflow") := by
    rw [pushPayload, if_neg hsize, hdrop, MediaPacket.push_back, if_pos]
    rw [← hp, piece_length hq]
    simp only [PESUnpacketizer.created, MediaPacket.set_metadata, MediaPacket.new,
      MediaPacket.size, List.length_nil]
    rw [Fits] at hfits
    omega
  rw [run_ofExcept_error hpush]
  exact ⟨_, _, rfl⟩

theorem unpack_untimed (hq : Piece bZero z.1 z.2 q) (ht : ¬ Timed z.1) (hstamps : Stamps z.1)
    (hs : s.vQueue = [q]) : unpack.run s = .ok () { s with vQueue := [] } := by
  rw [unpack, run_get_bind, hs, unpackLoop, run_modify_bind, parse_untimed hq ht hstamps]
  rfl

/-- A packet as it is stored. -/
def PESUnpacketizer.stored (s : PESUnpacketizer) (q : MediaPacket) : PESUnpacketizer :=
  { s with bSync := q.error, vQueue := s.vQueue ++ [{ q with mux := .RTP }] }

theorem piece_stored (hq : Piece bZero z.1 z.2 q) : Piece bZero z.1 z.2 { q with mux := .RTP } :=
  ⟨hq.type, hq.data⟩

/-- A packet is stored after the one before it has been unpacked. -/
theorem deliver_start (hq : Piece bZero z.1 z.2 q) (htype : z.1.type = .media) :
    (deliver q).run s =
      (do unpack; modify (PESUnpacketizer.stored · q)).run { s with bSync := false } := by
  have hstart := piece_start (piece_stored hq)
  have hsize := piece_size hq
  have hge : 9 ≤ headerSize z.1 := by
    rw [headerSize]
    split_ifs <;> omega
  rw [deliver, hq.type, htype]
  dsimp only
  rw [PESUnpacketizer.receive, if_neg (by omega)]
  dsimp only
  rw [run_get_bind, if_neg (by simp [hstart]), run_modify_bind, if_pos hstart]
  rfl

theorem deliver_after {t : PESUnpacketizer} (hq : Piece bZero z.1 z.2 q)
    (htype : z.1.type = .media) (hrun : unpack.run { s with bSync := false } = .ok () t) :
    (deliver q).run s = .ok () (t.stored q) := by
  rw [deliver_start hq htype, run_bind_of_ok hrun]
  rfl

end

/-! ## Unpacking a run -/

/-- Contents that leave the unpacketizer. -/
def timed (zs : List Content) : List Content :=
  zs.filter fun z => 0 ≤ z.1.dts ∧ 0 ≤ z.1.pts

theorem timed_cons_pos {z : Content} (zs : List Content) (h : Timed z.1) :
    timed (z::zs) = z::timed zs := by
  rw [timed, List.filter_cons_of_pos (by simp [h.dts, h.pts])]
  rfl

theorem timed_cons_neg {z : Content} (zs : List Content) (h : ¬ Timed z.1) :
    timed (z::zs) = timed zs := by
  rw [timed, List.filter_cons_of_neg]
  · rfl
  · rw [decide_eq_true_eq]
    exact fun hz => h ⟨hz.1, hz.2⟩

/-- Frames as the packetizer gets them: media packets with time stamps of 32 bits. -/
structure Usual (z : Content) : Prop where
  type : z.1.type = .media
  stamps : Stamps z.1

section
variable {bZero : Bool}

/-- Packets are unpacked one after the other, the last of them at the end. -/
theorem deliver_all {qs : List MediaPacket} {zs : List Content}
    (h : List.Forall₂ (fun q z => Piece bZero z.1 z.2 q) qs zs) (husual : ∀ z ∈ zs, Usual z)
    {q : MediaPacket} {z : Content} (hq : Piece bZero z.1 z.2 q) (hz : Usual z)
    (hfits : ∀ z' ∈ timed (z::zs), Fits bZero z') {s : PESUnpacketizer} (hs : s.vQueue = [q])
    (hbase : s.iBaseDTS = 90000) :
    ∃ t outs first, (do forM qs deliver; unpack).run s = .ok () t ∧
      t.routed = s.routed ++ outs ∧ (s.iFirstDTS ≠ -1 → first = s.iFirstDTS) ∧
      List.Forall₂ (fun out z => Out first z out) outs (timed (z::zs)) := by
  induction h generalizing q z s with
  | nil =>
    by_cases ht : Timed z.1
    · rw [timed_cons_pos [] ht] at hfits ⊢
      rcases unpack_timed hq ht hz.stamps hs hbase (hfits z List.mem_cons_self) with
        ⟨t, out, hrun, hout, hout'⟩
      refine ⟨t, [out], firstDTS s z.1.dts, hrun, hout.routed, ?_, ?_⟩
      · intro hne
        rw [firstDTS, if_neg hne]
      · exact List.Forall₂.cons hout' List.Forall₂.nil
    · rw [timed_cons_neg [] ht]
      refine ⟨_, [], s.iFirstDTS, unpack_untimed hq ht hz.stamps hs, ?_, fun _ => rfl,
        List.Forall₂.nil⟩
      rw [List.append_nil]
  | @cons q' z' qs zs hq' _ ih =>
    have hz' := husual z' List.mem_cons_self
    have hrest := fun w hw => husual w (List.mem_cons_of_mem z' hw)
    rw [List.forM_cons, bind_assoc]
    by_cases ht : Timed z.1
    · rw [timed_cons_pos _ ht] at hfits ⊢
      rcases unpack_timed (s := { s with bSync := false }) hq ht hz.stamps hs hbase
        (hfits z List.mem_cons_self) with ⟨t, out, hrun, hout, hout'⟩
      rw [run_bind_of_ok (deliver_after hq' hz'.type hrun)]
      have hqueue : (t.stored q').vQueue = [{ q' with mux := .RTP }] := by
        rw [PESUnpacketizer.stored, hout.queue]
        rfl
      rcases ih hrest (piece_stored hq') hz' (fun w hw => hfits w (List.mem_cons_of_mem z hw))
        hqueue (hout.base.trans hbase) with ⟨u, outs, first, hrun', hrouted, hfirst, hall⟩
      have hstart : (t.stored q').iFirstDTS = firstDTS s z.1.dts := hout.first
      have hanchored : first = firstDTS s z.1.dts := by
        rw [hfirst, hstart]
        rw [hstart, firstDTS]
        split_ifs with hnone
        · have := ht.dts
          omega
        · exact hnone
      refine ⟨u, out::outs, first, hrun', ?_, ?_, ?_⟩
      · rw [hrouted]
        show t.routed ++ outs = _
        rw [hout.routed, List.append_assoc]
        rfl
      · intro hne
        rw [hanchored, firstDTS, if_neg hne]
      · refine List.Forall₂.cons ?_ hall
        rw [hanchored]
        exact hout'
    · rw [timed_cons_neg _ ht] at hfits ⊢
      have hrun := unpack_untimed (s := { s with bSync := false }) hq ht hz.stamps hs
      rw [run_bind_of_ok (deliver_after hq' hz'.type hrun)]
      rcases ih hrest (piece_stored hq') hz' hfits
        (s := PESUnpacketizer.stored { s with bSync := false, vQueue := [] } q') rfl hbase with
        ⟨u, outs, first, hrun', hrouted, hfirst, hall⟩
      exact ⟨u, outs, first, hrun', hrouted, hfirst, hall⟩

theorem deliver_overflow {qs : List MediaPacket} {zs : List Content}
    (h : List.Forall₂ (fun q z => Piece bZero z.1 z.2 q) qs zs) (husual : ∀ z ∈ zs, Usual z)
    {q : MediaPacket} {z : Content} (hq : Piece bZero z.1 z.2 q) (hz : Usual z)
    (hfits : ∃ z' ∈ timed (z::zs), ¬ Fits bZero z') {s : PESUnpacketizer} (hs : s.vQueue = [q])
    (hbase : s.iBaseDTS = 90000) :
    ∃ e t, (do forM qs deliver; unpack).run s = .error e t := by
  induction h generalizing q z s with
  | nil =>
    by_cases ht : Timed z.1
    · rw [timed_cons_pos [] ht] at hfits
      rcases hfits with ⟨w, hw, hfits⟩
      rw [List.mem_singleton.mp hw] at hfits
      exact unpack_overflow hq ht hz.stamps hs hfits
    · rw [timed_cons_neg [] ht] at hfits
      simp [timed] at hfits
  | @cons q' z' qs zs hq' _ ih =>
    have hz' := husual z' List.mem_cons_self
    have hrest := fun w hw => husual w (List.mem_cons_of_mem z' hw)
    rw [List.forM_cons, bind_assoc]
    by_cases ht : Timed z.1
    · rw [timed_cons_pos _ ht] at hfits
      by_cases hfirst : Fits bZero z
      · have hlater : ∃ w ∈ timed (z'::zs), ¬ Fits bZero w := by
          rcases hfits with ⟨w, hw, hfits⟩
          rcases List.mem_cons.mp hw with rfl | hw
          · exact absurd hfirst hfits
          · exact ⟨w, hw, hfits⟩
        rcases unpack_timed (s := { s with bSync := false }) hq ht hz.stamps hs hbase hfirst with
          ⟨t, out, hrun, hout, -⟩
        rw [run_bind_of_ok (deliver_after hq' hz'.type hrun)]
        have hqueue : (t.stored q').vQueue = [{ q' with mux := .RTP }] := by
          rw [PESUnpacketizer.stored, hout.queue]
          rfl
        exact ih hrest (piece_stored hq') hz' hlater hqueue (hout.base.trans hbase)
      · rcases unpack_overflow (s := { s with bSync := false }) hq ht hz.stamps hs hfirst with
          ⟨e, t, hrun⟩
        refine ⟨e, t, run_bind_of_error ?_⟩
        rw [deliver_start hq' hz'.type, run_bind_of_error hrun]
    · rw [timed_cons_neg _ ht] at hfits
      have hrun := unpack_untimed (s := { s with bSync := false }) hq ht hz.stamps hs
      rw [run_bind_of_ok (deliver_after hq' hz'.type hrun)]
      exact ih hrest (piece_stored hq') hz' hfits
        (s := PESUnpacketizer.stored { s with bSync := false, vQueue := [] } q') rfl hbase

theorem unpack_nothing {s : PESUnpacketizer} (hs : s.vQueue = []) : unpack.run s = .ok () s := by
  rw [unpack, run_get_bind, hs]
  rfl

theorem deliver_end {pEnd : MediaPacket} (h : pEnd.type = .end) :
    forM [pEnd] deliver = PESUnpacketizer.receive_end pEnd := by
  rw [List.forM_cons, List.forM_nil, deliver, h]
  exact bind_pure_unit

theorem deliver_first {q : MediaPacket} {z : Content} (hq : Piece bZero z.1 z.2 q)
    (hz : Usual z) : (deliver q).run PESUnpacketizer.init =
      .ok () (({ PESUnpacketizer.init with bSync := false } : PESUnpacketizer).stored q) :=
  deliver_after hq hz.type (unpack_nothing rfl)

/-- All packets and then the end packet, given to a new unpacketizer. -/
theorem unpacketize_ok {qs : List MediaPacket} {zs : List Content} {pEnd : MediaPacket}
    (h : List.Forall₂ (fun q z => Piece bZero z.1 z.2 q) qs zs) (husual : ∀ z ∈ zs, Usual z)
    (hfits : ∀ z ∈ timed zs, Fits bZero z) (hend : pEnd.type = .end) :
    ∃ t outs first, (forM (qs ++ [pEnd]) deliver).run PESUnpacketizer.init = .ok () t ∧
      t.routed = outs ++ [pEnd] ∧ List.Forall₂ (fun out z => Out first z out) outs (timed zs) := by
  rw [List.forM_append, deliver_end hend]
  cases h with
  | nil => exact ⟨_, [], 0, rfl, rfl, List.Forall₂.nil⟩
  | @cons q z qs zs hq hqs =>
    have hz := husual z List.mem_cons_self
    rcases deliver_all hqs (fun w hw => husual w (List.mem_cons_of_mem z hw)) (piece_stored hq) hz
      hfits
      (s := ({ PESUnpacketizer.init with bSync := false } : PESUnpacketizer).stored q) rfl rfl with
      ⟨t, outs, first, hrun, hrouted, -, hall⟩
    refine ⟨{ t with routed := t.routed ++ [pEnd] }, outs, first, ?_, ?_, hall⟩
    · rw [List.forM_cons, bind_assoc, run_bind_of_ok (deliver_first hq hz),
        PESUnpacketizer.receive_end, ← bind_assoc, run_bind_of_ok hrun]
      rfl
    · rw [hrouted]
      rfl

theorem unpacketize_error {qs : List MediaPacket} {zs : List Content} {pEnd : MediaPacket}
    (h : List.Forall₂ (fun q z => Piece bZero z.1 z.2 q) qs zs) (husual : ∀ z ∈ zs, Usual z)
    (hfits : ∃ z ∈ timed zs, ¬ Fits bZero z) (hend : pEnd.type = .end) :
    ∃ e t, (forM (qs ++ [pEnd]) deliver).run PESUnpacketizer.init = .error e t := by
  rw [List.forM_append, deliver_end hend]
  cases h with
  | nil => simp [timed] at hfits
  | @cons q z qs zs hq hqs =>
    have hz := husual z List.mem_cons_self
    rcases deliver_overflow hqs (fun w hw => husual w (List.mem_cons_of_mem z hw))
      (piece_stored hq) hz hfits
      (s := ({ PESUnpacketizer.init with bSync := false } : PESUnpacketizer).stored q) rfl rfl with
      ⟨e, t, hrun⟩
    refine ⟨e, t, ?_⟩
    rw [List.forM_cons, bind_assoc, run_bind_of_ok (deliver_first hq hz),
      PESUnpacketizer.receive_end, ← bind_assoc, run_bind_of_error hrun]

end

/-! ## Round trip -/

/-- A frame put out: its bytes, and its time stamps shifted in the arithmetic of 32 bits. -/
structure Restored (shift : ℤ) (parts : List MediaPacket) (out : MediaPacket) : Prop where
  bytes : out.bytes = allBytes parts
  dts : ∀ p ∈ parts.head?, out.dts = int32 (p.dts+shift)
  pts : ∀ p ∈ parts.head?, out.pts = int32 (p.pts+shift)

/-- One packet for each frame comes out, with one shift for all, and then the end packet. -/
def RoundTrip (mtu delta : ℤ) (bZero : Bool) (frames : List (List MediaPacket))
    (pEnd : MediaPacket) : Prop :=
  ∃ s t outs e shift,
    (packetize frames pEnd).run (PESPacketizer.init mtu delta bZero) = .ok () s ∧
    (forM s.routed deliver).run PESUnpacketizer.init = .ok () t ∧
    t.routed = outs ++ [e] ∧ e.type = .end ∧ List.Forall₂ (Restored shift) frames outs

/-- Frames the receiver can restore. -/
structure Carried (iDelta : ℤ) (bZero : Bool) (parts : List MediaPacket) : Prop where
  timed : ∀ p ∈ parts.head?, Timed (delayed iDelta p)
  small : sizes parts ≤ if bZero then 31 else 65500
  room : ∀ p, parts = [p] → headerSize (delayed iDelta p) ≤ p.iFront

section
variable {mtu delta iDelta : ℤ} {bZero : Bool} {frames : List (List MediaPacket)}
  {fs : List MediaPacket} {pEnd : MediaPacket}

theorem delayed_bytes (f : MediaPacket) : (delayed iDelta f).bytes = f.bytes := by
  rw [delayed]
  split_ifs
  · rfl
  · rfl

theorem delayed_front (f : MediaPacket) : (delayed iDelta f).iFront = f.iFront := by
  rw [delayed]
  split_ifs
  · rfl
  · rfl

theorem delayed_type (f : MediaPacket) : (delayed iDelta f).type = f.type := by
  rw [delayed]
  split_ifs
  · rfl
  · rfl

theorem delayed_stamps {f : MediaPacket} (h : Stamps f) : Stamps (delayed iDelta f) := by
  rw [delayed]
  split_ifs
  · exact ⟨⟨int32_low _, int32_high _⟩, ⟨int32_low _, int32_high _⟩⟩
  · exact h

/-- What the delay adds. -/
def shiftOf (iDelta : ℤ) : ℤ := if 0 < iDelta then iDelta else 0

theorem delayed_shift (f : MediaPacket) (y : ℤ) :
    int32 ((delayed iDelta f).dts+y) = int32 (f.dts+(shiftOf iDelta+y)) ∧
      int32 ((delayed iDelta f).pts+y) = int32 (f.pts+(shiftOf iDelta+y)) := by
  rw [delayed, shiftOf]
  split_ifs
  · dsimp only
    rw [int32_int32_add, int32_int32_add, add_assoc, add_assoc]
    exact ⟨rfl, rfl⟩
  · rw [zero_add]
    exact ⟨rfl, rfl⟩

theorem mem_left {α β : Type} {R : α → β → Prop} {as : List α} {bs : List β}
    (h : List.Forall₂ R as bs) : ∀ a ∈ as, ∃ b ∈ bs, R a b := by
  induction h with
  | nil => simp
  | @cons a b as bs hab _ ih =>
    intro c hc
    rcases List.mem_cons.mp hc with rfl | hc
    · exact ⟨b, List.mem_cons_self, hab⟩
    · rcases ih c hc with ⟨d, hd, hcd⟩
      exact ⟨d, List.mem_cons_of_mem b hd, hcd⟩

theorem mem_right {α β : Type} {R : α → β → Prop} {as : List α} {bs : List β}
    (h : List.Forall₂ R as bs) : ∀ b ∈ bs, ∃ a ∈ as, R a b := mem_left h.flip

theorem contents_mem {gs : List MediaPacket} {zs : List Content} (h : Contents bZero gs zs) :
    ∀ z ∈ zs, z.1 ∈ gs ∧ (bZero = false → z.2.length ≤ 65500) := by
  rcases h with ⟨cuts, hcuts, rfl⟩
  intro z hz
  rcases List.mem_flatMap.mp hz with ⟨⟨g, chunks⟩, hzip, hz⟩
  rcases List.mem_map.mp hz with ⟨c, hc, rfl⟩
  have hcut := (List.forall₂_iff_zip.mp hcuts).2 hzip
  exact ⟨(List.of_mem_zip hzip).1, fun hb => hcut.small hb c hc⟩

/-- Frames that are not cut. -/
theorem contents_whole {gs : List MediaPacket} {zs : List Content} (h : Contents bZero gs zs)
    (hwhole : ∀ g ∈ gs, Whole bZero g) : zs = gs.map fun g => (g, g.bytes) := by
  rcases h with ⟨cuts, hcuts, rfl⟩
  induction hcuts with
  | nil => rfl
  | @cons g chunks gs cuts hcut _ ih =>
    rw [List.zip_cons_cons, List.flatMap_cons, hcut.whole (hwhole g List.mem_cons_self),
      ih fun g' hg' => hwhole g' (List.mem_cons_of_mem g hg')]
    rfl

theorem received_usual (iDelta : ℤ) {parts : List MediaPacket} {f : MediaPacket} (h : Received parts f) :
    (delayed iDelta f).type = .media ∧ Stamps (delayed iDelta f) := by
  rw [delayed_type]
  exact ⟨h.merged.type, delayed_stamps h.merged.stamps⟩

/-- The time stamps sent for a frame are those of its first part. -/
theorem received_first {parts : List MediaPacket} {f : MediaPacket} (h : Received parts f) :
    ∀ p ∈ parts.head?, f.dts = p.dts ∧ f.pts = p.pts := by
  rcases h.merged.first with ⟨p, ps, rfl, hdts, hpts⟩
  intro q hq
  rw [List.head?_cons, Option.mem_some_iff] at hq
  rw [← hq]
  exact ⟨hdts, hpts⟩

theorem delayed_timed {f p : MediaPacket} (hdts : f.dts = p.dts) (hpts : f.pts = p.pts) :
    Timed (delayed iDelta f) ↔ Timed (delayed iDelta p) := by
  rw [delayed, delayed]
  split_ifs
  · constructor
    · exact fun h => ⟨by simpa [hdts] using h.dts, by simpa [hpts] using h.pts⟩
    · exact fun h => ⟨by simpa [hdts] using h.dts, by simpa [hpts] using h.pts⟩
  · constructor
    · exact fun h => ⟨hdts ▸ h.dts, hpts ▸ h.pts⟩
    · exact fun h => ⟨hdts ▸ h.dts, hpts ▸ h.pts⟩

theorem received_timed {parts : List MediaPacket} {f : MediaPacket} (h : Received parts f) :
    Timed (delayed iDelta f) ↔ ∀ p ∈ parts.head?, Timed (delayed iDelta p) := by
  have hfirst := received_first h
  rcases h.merged.first with ⟨p, ps, rfl, -, -⟩
  rcases hfirst p rfl with ⟨hdts, hpts⟩
  rw [delayed_timed hdts hpts]
  simp

theorem received_size (iDelta : ℤ) {parts : List MediaPacket} {f : MediaPacket} (h : Received parts f) :
    (delayed iDelta f).size = sizes parts := by
  rw [MediaPacket.size, delayed_bytes, h.merged.bytes, allBytes_length]

theorem received_roomy {parts : List MediaPacket} {f : MediaPacket} (h : Received parts f)
    (hwhole : Whole bZero (delayed iDelta f)) :
    Roomy bZero (delayed iDelta f) ↔
      ∀ p, parts = [p] → headerSize (delayed iDelta p) ≤ p.iFront := by
  rw [Roomy, delayed_front]
  constructor
  · intro hroom p hp
    have hf := h.merged.single p hp
    rw [← hf]
    exact hroom hwhole
  · intro hroom _
    by_cases hone : parts.length = 1
    · rcases List.length_eq_one_iff.mp hone with ⟨p, rfl⟩
      rw [h.merged.single p rfl]
      exact hroom p rfl
    · rw [h.merged.several hone, iBufferSpace]
      have := headerSize_le (delayed iDelta f)
      omega

theorem fits_iff {g : MediaPacket} (hwhole : Whole bZero g) :
    Fits bZero (g, g.bytes) ↔ g.size ≤ if bZero then 31 else 65500 := by
  have hsize : g.size = g.bytes.length := rfl
  have hheader := headerSize_le g
  rw [Fits, headerLength, iBufferSpace]
  cases bZero with
  | true =>
    simp only [if_true]
    omega
  | false =>
    rcases hwhole with h | h
    · exact absurd h (by decide)
    · simp only [Bool.false_eq_true, if_false]
      omega

theorem contents_usual {zs : List Content} (hfs : List.Forall₂ Received frames fs)
    (hzs : Contents bZero (fs.map (delayed iDelta)) zs) : ∀ z ∈ zs, Usual z := by
  intro z hz
  rcases List.mem_map.mp (contents_mem hzs z hz).1 with ⟨f, hf, hfz⟩
  rcases mem_right hfs f hf with ⟨parts, -, hreceived⟩
  rcases received_usual iDelta hreceived with ⟨htype, hstamps⟩
  rw [hfz] at htype hstamps
  exact ⟨htype, hstamps⟩

/-- The packetizer comes through when there is room for all headers, and only then. -/
theorem packetize_iff (hfs : List.Forall₂ Received frames fs) (pEnd : MediaPacket) :
    (∃ s, (packetize frames pEnd).run (PESPacketizer.init mtu delta bZero) = .ok () s) ↔
      ∀ f ∈ fs, Roomy bZero (delayed (int32 (delta*90)) f) := by
  have hset : Set (int32 (delta*90)) bZero (PESPacketizer.init mtu delta bZero) :=
    ⟨rfl, rfl, rfl, rfl⟩
  constructor
  · rintro ⟨s, hs⟩
    by_contra hroom
    push Not at hroom
    rcases frames_error hfs hroom hset with ⟨e, t, ht⟩
    rw [packetize, run_bind_of_error ht] at hs
    contradiction
  · intro hroom
    rcases frames_run hfs hroom hset with ⟨t, ps, zs, hrun, -⟩
    exact ⟨_, by rw [packetize, run_bind_of_ok hrun]; rfl⟩

theorem packetize_run (mtu : ℤ) (hfs : List.Forall₂ Received frames fs) (pEnd : MediaPacket)
    (hroom : ∀ f ∈ fs, Roomy bZero (delayed (int32 (delta*90)) f)) :
    ∃ s qs zs, (packetize frames pEnd).run (PESPacketizer.init mtu delta bZero) = .ok () s ∧
      s.routed = qs ++ [delayed (int32 (delta*90)) pEnd] ∧
      Contents bZero (fs.map (delayed (int32 (delta*90)))) zs ∧
      List.Forall₂ (fun q z => Piece bZero z.1 z.2 q) qs zs := by
  have hset : Set (int32 (delta*90)) bZero (PESPacketizer.init mtu delta bZero) :=
    ⟨rfl, rfl, rfl, rfl⟩
  rcases frames_run hfs hroom hset with ⟨t, ps, zs, hrun, ht, hrouted, hzs, hall⟩
  refine ⟨{ t with routed := t.routed ++ [delayed t.iDelta pEnd] }, ps, zs, ?_, ?_, hzs, hall⟩
  · rw [packetize, run_bind_of_ok hrun]
    rfl
  · rw [ht.delta, hrouted]
    rfl

theorem restored_of_out {parts : List MediaPacket} {f out : MediaPacket} {first : ℤ}
    (h : Received parts f) (hout : Out first (delayed iDelta f, (delayed iDelta f).bytes) out) :
    Restored (shiftOf iDelta+(90000-first)) parts out := by
  have hfirst := received_first h
  constructor
  · rw [hout.bytes, delayed_bytes, h.merged.bytes]
  · intro p hp
    rw [hout.dts, ← (hfirst p hp).1, ← (delayed_shift f _).1]
    congr 1
    ring
  · intro p hp
    rw [hout.pts, ← (hfirst p hp).2, ← (delayed_shift f _).2]
    congr 1
    ring

theorem restored_all {outs : List MediaPacket} {first : ℤ} (hfs : List.Forall₂ Received frames fs)
    (hout : List.Forall₂ (fun out f => Out first (delayed iDelta f, (delayed iDelta f).bytes) out)
      outs fs) : List.Forall₂ (Restored (shiftOf iDelta+(90000-first))) frames outs := by
  induction hfs generalizing outs with
  | nil =>
    cases hout
    exact List.Forall₂.nil
  | cons hf _ ih =>
    cases hout with
    | cons ho houts => exact List.Forall₂.cons (restored_of_out hf ho) (ih houts)

theorem timed_all {zs : List Content} (h : ∀ z ∈ zs, Timed z.1) : timed zs = zs := by
  rw [timed, List.filter_eq_self]
  intro z hz
  simp [(h z hz).dts, (h z hz).pts]

theorem all_timed {zs : List Content} (h : (timed zs).length = zs.length) :
    ∀ z ∈ zs, Timed z.1 := by
  intro z hz
  rw [timed, List.length_filter_eq_length_iff] at h
  have := h z hz
  rw [decide_eq_true_eq] at this
  exact ⟨this.1, this.2⟩

theorem carried_of_round_trip (hfs : List.Forall₂ Received frames fs) (hend : pEnd.type = .end)
    (h : RoundTrip mtu delta bZero frames pEnd) :
    ∀ parts ∈ frames, Carried (int32 (delta*90)) bZero parts := by
  rcases h with ⟨s, t, outs, e, shift, hrun, hdeliver, hrouted, -, hrestored⟩
  have hroom := (packetize_iff hfs pEnd).mp ⟨s, hrun⟩
  rcases packetize_run mtu hfs pEnd hroom with ⟨s', qs, zs, hrun', hs', hzs, hall⟩
  rw [hrun] at hrun'
  injection hrun' with _ hss
  subst hss
  rw [hs'] at hdeliver
  have husual := contents_usual hfs hzs
  have hend' : (delayed (int32 (delta*90)) pEnd).type = .end := by rw [delayed_type, hend]
  have hfits : ∀ z ∈ timed zs, Fits bZero z := by
    by_contra hfits
    push Not at hfits
    rcases unpacketize_error hall husual hfits hend' with ⟨e', t', herror⟩
    rw [hdeliver] at herror
    contradiction
  rcases unpacketize_ok hall husual hfits hend' with ⟨t', outs', first, hok, hrouted', hout⟩
  rw [hdeliver] at hok
  injection hok with _ htt
  subst htt
  rw [hrouted] at hrouted'
  have houts : outs = outs' := (List.append_inj' hrouted' rfl).1
  subst houts
  have hwhole : ∀ parts ∈ frames, ∀ f, Received parts f →
      Whole bZero (delayed (int32 (delta*90)) f) := by
    intro parts hparts f hf
    cases bZero with
    | true => exact .inl rfl
    | false =>
      right
      rcases mem_left hrestored parts hparts with ⟨out, hmem, hbytes, -, -⟩
      rcases mem_left hout out hmem with ⟨z, hz, hzout⟩
      rw [received_size _ hf, ← allBytes_length, ← hbytes, hzout.bytes]
      exact (contents_mem hzs z (List.mem_filter.mp hz).1).2 rfl
  have hcontents := contents_whole hzs (by
    intro g hg
    rcases List.mem_map.mp hg with ⟨f, hf, rfl⟩
    rcases mem_right hfs f hf with ⟨parts, hparts, hreceived⟩
    exact hwhole parts hparts f hreceived)
  have htimed : ∀ z ∈ zs, Timed z.1 := by
    apply all_timed
    rw [← hout.length_eq, ← hrestored.length_eq, hfs.length_eq, hcontents, List.length_map,
      List.length_map]
  rw [timed_all htimed, hcontents] at hfits
  rw [hcontents] at htimed
  intro parts hparts
  rcases mem_left hfs parts hparts with ⟨f, hf, hreceived⟩
  have hmem : (delayed (int32 (delta*90)) f, (delayed (int32 (delta*90)) f).bytes) ∈
      (fs.map (delayed (int32 (delta*90)))).map fun g => (g, g.bytes) :=
    List.mem_map_of_mem (f := fun g : MediaPacket => (g, g.bytes)) (List.mem_map_of_mem hf)
  have hone := hwhole parts hparts f hreceived
  constructor
  · exact (received_timed hreceived).mp (htimed _ hmem)
  · rw [← received_size (int32 (delta*90)) hreceived]
    exact (fits_iff hone).mp (hfits _ hmem)
  · exact (received_roomy hreceived hone).mp (hroom f hf)

theorem round_trip_of_carried (hfs : List.Forall₂ Received frames fs) (hend : pEnd.type = .end)
    (h : ∀ parts ∈ frames, Carried (int32 (delta*90)) bZero parts) :
    RoundTrip mtu delta bZero frames pEnd := by
  have hwhole : ∀ f ∈ fs, ∃ parts ∈ frames, Received parts f ∧
      Whole bZero (delayed (int32 (delta*90)) f) := by
    intro f hf
    rcases mem_right hfs f hf with ⟨parts, hparts, hreceived⟩
    refine ⟨parts, hparts, hreceived, ?_⟩
    have hsmall := (h parts hparts).small
    rw [← received_size (int32 (delta*90)) hreceived] at hsmall
    cases bZero with
    | true => exact .inl rfl
    | false => exact .inr hsmall
  have hroom : ∀ f ∈ fs, Roomy bZero (delayed (int32 (delta*90)) f) := by
    intro f hf
    rcases hwhole f hf with ⟨parts, hparts, hreceived, hone⟩
    exact (received_roomy hreceived hone).mpr (h parts hparts).room
  rcases packetize_run mtu hfs pEnd hroom with ⟨s, qs, zs, hrun, hs, hzs, hall⟩
  have hcontents := contents_whole hzs (by
    intro g hg
    rcases List.mem_map.mp hg with ⟨f, hf, rfl⟩
    exact (hwhole f hf).choose_spec.2.2)
  have husual := contents_usual hfs hzs
  have htimed : ∀ z ∈ zs, Timed z.1 := by
    rw [hcontents]
    intro z hz
    rcases List.mem_map.mp hz with ⟨g, hg, rfl⟩
    rcases List.mem_map.mp hg with ⟨f, hf, rfl⟩
    rcases hwhole f hf with ⟨parts, hparts, hreceived, -⟩
    exact (received_timed hreceived).mpr (h parts hparts).timed
  have hfits : ∀ z ∈ timed zs, Fits bZero z := by
    rw [timed_all htimed, hcontents]
    intro z hz
    rcases List.mem_map.mp hz with ⟨g, hg, rfl⟩
    rcases List.mem_map.mp hg with ⟨f, hf, rfl⟩
    rcases hwhole f hf with ⟨parts, hparts, hreceived, hone⟩
    rw [fits_iff hone, received_size _ hreceived]
    exact (h parts hparts).small
  have hend' : (delayed (int32 (delta*90)) pEnd).type = .end := by rw [delayed_type, hend]
  rcases unpacketize_ok hall husual hfits hend' with ⟨t, outs, first, hok, hrouted, hout⟩
  rw [timed_all htimed, hcontents, List.forall₂_map_right_iff, List.forall₂_map_right_iff] at hout
  exact ⟨s, t, outs, _, shiftOf (int32 (delta*90))+(90000-first), hrun, by rw [hs, hok],
    hrouted, hend', restored_all hfs hout⟩

/-- When frames come through the PES packetizer and unpacketizer. -/
theorem pes_round_trip_iff (hframes : ∀ parts ∈ frames, FrameParts parts) (hend : pEnd.type = .end) :
    RoundTrip mtu delta bZero frames pEnd ↔
      ∀ parts ∈ frames, Carried (int32 (delta*90)) bZero parts := by
  rcases received_frames hframes with ⟨fs, hfs⟩
  constructor
  · exact carried_of_round_trip hfs hend
  · exact round_trip_of_carried hfs hend

end

def examplePart (bytes : List UInt8) (dts pts : ℤ) (frameend : Bool) : MediaPacket :=
  { (MediaPacket.new .media .video bytes.length).pushed bytes with
    codec := .avc, dts := dts, pts := pts, frameend := frameend }

def exampleEnd : MediaPacket := MediaPacket.new .end .video 0

def exampleFrames : List (List MediaPacket) :=
  [[examplePart [1, 2, 3] 0 3600 false, examplePart [4] 0 3600 true],
    [examplePart [5, 6] 3600 3600 true]]

theorem exampleFrames_parts : ∀ parts ∈ exampleFrames, FrameParts parts := by
  intro parts hparts
  simp only [exampleFrames, List.mem_cons, List.not_mem_nil, or_false] at hparts
  rcases hparts with rfl | rfl
  · constructor
    · exact ⟨[_], _, rfl, rfl, by decide⟩
    · decide
    · decide
    · decide
    · intro q hq
      simp only [List.mem_cons, List.not_mem_nil, or_false] at hq
      rcases hq with rfl | rfl
      · exact ⟨by decide, by decide⟩
      · exact ⟨by decide, by decide⟩
  · constructor
    · exact ⟨[], _, rfl, rfl, by decide⟩
    · decide
    · decide
    · decide
    · intro q hq
      simp only [List.mem_cons, List.not_mem_nil, or_false] at hq
      rcases hq with rfl
      exact ⟨by decide, by decide⟩

theorem pes_round_trip_small :
    ((∀ parts ∈ exampleFrames, FrameParts parts) ∧ exampleEnd.type = .end) ∧
    RoundTrip 1500 0 false exampleFrames exampleEnd := by
  refine ⟨⟨exampleFrames_parts, rfl⟩, (pes_round_trip_iff exampleFrames_parts rfl).mpr ?_⟩
  intro parts hparts
  simp only [exampleFrames, List.mem_cons, List.not_mem_nil, or_false] at hparts
  rcases hparts with rfl | rfl
  · constructor
    · rintro p ⟨⟩
      exact ⟨by decide +kernel, by decide +kernel⟩
    · decide
    · rintro p ⟨⟩
  · constructor
    · rintro p ⟨⟩
      exact ⟨by decide +kernel, by decide +kernel⟩
    · decide
    · rintro p ⟨⟩
      decide +kernel

/-- The packets that come out of the unpacketizer. -/
def throughPut (mtu delta : ℤ) (bZero : Bool) (frames : List (List MediaPacket))
    (pEnd : MediaPacket) : List MediaPacket :=
  (after ((forM (after ((packetize frames pEnd).run (PESPacketizer.init mtu delta bZero))).routed
    deliver).run PESUnpacketizer.init)).routed

def exampleZero : List MediaPacket := [examplePart (List.replicate 32 7) 0 0 true]

theorem exampleZero_parts : FrameParts exampleZero := by
  constructor
  · exact ⟨[], _, rfl, rfl, by decide⟩
  · decide
  · decide
  · decide
  · intro q hq
    simp only [exampleZero, List.mem_cons, List.not_mem_nil, or_false] at hq
    rcases hq with rfl
    exact ⟨by decide, by decide⟩

/-- With lengths of zero, 32 bytes are too much for the packet the receiver makes. -/
theorem pes_round_trip_overflow :
    ¬ ∀ (mtu delta : ℤ) (bZero : Bool) (frames : List (List MediaPacket)) (pEnd : MediaPacket),
      (∀ parts ∈ frames, FrameParts parts) → pEnd.type = .end →
      RoundTrip mtu delta bZero frames pEnd := by
  intro h
  have hparts : ∀ parts ∈ [exampleZero], FrameParts parts := by
    intro parts hp
    rw [List.mem_singleton.mp hp]
    exact exampleZero_parts
  have hout : throughPut 1500 0 true [exampleZero] exampleEnd = [] := by
    decide +kernel
  rcases h 1500 0 true [exampleZero] exampleEnd hparts rfl with
    ⟨s, t, outs, e, shift, hrun, hdeliver, hrouted, -, -⟩
  rw [throughPut, hrun] at hout
  dsimp only [after] at hout
  rw [hdeliver] at hout
  dsimp only [after] at hout
  rw [hrouted] at hout
  exact absurd hout (by simp)

end Sirannon.PES
