import Sirannon.AMRReceiving

/-!
# AMR round trip

The frames are split where a packet is full or has lasted too long. All of
them come back when each fits in a packet of its own and two payloads in a row
never begin with frames of the same number, which the unpacketizer would take
for parts of one frame.
-/

set_option autoImplicit false

namespace Sirannon.AMR
open MachineInt BitString Bits Media Packetization StateError

/-! ## Where the frames are split -/

def isCut (iMTU iMaxDuration : ℤ) (g : List MediaPacket) (f : MediaPacket) : Bool :=
  g ≠ [] ∧ (iMTU*8 < budget g+(6+speechBits f) ∨
    0 < iMaxDuration ∧ iMaxDuration < duration g)

/-- The groups that leave together, with `g` the frames gathered so far. -/
def groups (iMTU iMaxDuration : ℤ) (g : List MediaPacket) :
    List MediaPacket → List (List MediaPacket)
  | [] => if g = [] then [] else [g]
  | f::fs => if isCut iMTU iMaxDuration g f then g::groups iMTU iMaxDuration [f] fs
    else groups iMTU iMaxDuration (g ++ [f]) fs

section
variable {iMTU iMaxDuration : ℤ}

theorem groups_flatten (g fs : List MediaPacket) :
    (groups iMTU iMaxDuration g fs).flatten = g ++ fs := by
  induction fs generalizing g with
  | nil =>
    rw [groups]
    split
    case isTrue hnil => simp [hnil]
    case isFalse => simp
  | cons f fs ih =>
    rw [groups]
    split
    · rw [List.flatten_cons, ih]
      rfl
    · rw [ih, List.append_assoc]
      rfl

theorem groups_nonempty (g fs : List MediaPacket) :
    ∀ g' ∈ groups iMTU iMaxDuration g fs, g' ≠ [] := by
  induction fs generalizing g with
  | nil =>
    rw [groups]
    split
    · simp
    · simpa
  | cons f fs ih =>
    rw [groups]
    split
    case isTrue hcut =>
      rw [isCut, decide_eq_true_eq] at hcut
      intro g' hg'
      rcases List.mem_cons.mp hg' with rfl | hg'
      · exact hcut.1
      · exact ih [f] g' hg'
    case isFalse => exact ih (g ++ [f])

theorem budget_mem {g : List MediaPacket} {f : MediaPacket} (hf : f ∈ g) :
    10+speechBits f ≤ budget g := by
  have hle := List.le_sum_of_mem (List.mem_map_of_mem (f := fun p => 6+speechBits p) hf)
  rw [budget]
  omega

/-- A group of several frames was never allowed to grow too large. -/
theorem groups_fit {g fs : List MediaPacket} (hg : (budget g : ℤ) ≤ 8*iMTU)
    (hfs : ∀ f ∈ fs, (10+speechBits f : ℤ) ≤ 8*iMTU) :
    ∀ g' ∈ groups iMTU iMaxDuration g fs, (budget g' : ℤ) ≤ 8*iMTU := by
  induction fs generalizing g with
  | nil =>
    rw [groups]
    split
    · simp
    · simpa
  | cons f fs ih =>
    have hf := hfs f List.mem_cons_self
    have hrest := fun f' hf' => hfs f' (List.mem_cons_of_mem f hf')
    rw [groups]
    split
    case isTrue =>
      intro g' hg'
      rcases List.mem_cons.mp hg' with rfl | hg'
      · exact hg
      · have hsingle : (budget [f] : ℤ) ≤ 8*iMTU := by
          rw [budget_single]
          push_cast
          exact hf
        exact ih hsingle hrest g' hg'
    case isFalse hcut =>
      apply ih _ hrest
      rw [isCut, decide_eq_true_eq, not_and_or, not_or] at hcut
      rw [budget_snoc]
      push_cast
      rcases hcut with hempty | ⟨hroom, -⟩
      · rw [ne_eq, not_not] at hempty
        subst hempty
        show (4+(6+speechBits f) : ℤ) ≤ 8*iMTU
        omega
      · omega

theorem groups_fit_iff (fs : List MediaPacket) :
    (∀ g ∈ groups iMTU iMaxDuration [] fs, (budget g : ℤ) ≤ 8*iMTU) ↔
      ∀ f ∈ fs, (10+speechBits f : ℤ) ≤ 8*iMTU := by
  constructor
  · intro hgroups f hf
    have hmem : f ∈ (groups iMTU iMaxDuration [] fs).flatten := by
      rwa [groups_flatten]
    rcases List.mem_flatten.mp hmem with ⟨g, hg, hfg⟩
    have hle := budget_mem hfg
    have hfit := hgroups g hg
    omega
  · intro hfs
    cases fs with
    | nil => simp [groups]
    | cons f fs =>
      have hf := hfs f List.mem_cons_self
      apply groups_fit _ hfs
      show (4 : ℤ) ≤ 8*iMTU
      omega

end

/-! ## Packetizing -/

/-- The frames `g` wait in the buffer. -/
structure Gathered (iMTU iMaxDuration : ℤ) (s : AMRPacketizer) (g : List MediaPacket) : Prop where
  mtu : s.iMTU = iMTU
  maximum : s.iMaxDuration = iMaxDuration
  buffer : s.vBuffer = g
  pack : s.iPack = budget g

/-- A packet sent for a group. -/
def Sent (iMTU : ℤ) (codec : CodecType) (g : List MediaPacket) (p : MediaPacket) : Prop :=
  (p.size : ℤ) ≤ iMTU ∧ ∃ front rest, g = front::rest ∧ Carries codec front g p

section
variable {iMTU iMaxDuration : ℤ} {codec : CodecType} {s : AMRPacketizer} {g : List MediaPacket}
  {f : MediaPacket}

theorem gathered_init (mtu maxptime : ℤ) :
    Gathered (mtu-20-20-18-12) (maxptime*90) (AMRPacketizer.init mtu maxptime) [] :=
  ⟨rfl, rfl, rfl, rfl⟩

theorem gathered_store (h : Gathered iMTU iMaxDuration s g) (f : MediaPacket) :
    Gathered iMTU iMaxDuration (s.store (6+speechBits f) f) (g ++ [f]) := by
  constructor
  · exact h.mtu
  · exact h.maximum
  · rw [AMRPacketizer.store, h.buffer]
  · show s.iPack+((6+speechBits f : ℕ) : ℤ) = budget (g ++ [f])
    rw [h.pack, budget_snoc]
    push_cast
    rfl

theorem gathered_routePacked (h : Gathered iMTU iMaxDuration s g) (p : MediaPacket) :
    Gathered iMTU iMaxDuration (s.routePacked p) [] :=
  ⟨h.mtu, h.maximum, rfl, rfl⟩

theorem receive_eq (hcodec : codec = .anb ∨ codec = .awb) (hf : Frame codec f) :
    receive f = makeRoom (6+speechBits f) >>= fun _ =>
      modify fun s => s.store (6+speechBits f) f := by
  have hknown : ¬ (f.codec ≠ .anb ∧ f.codec ≠ .awb) := by
    rw [hf.codec]
    tauto
  rw [receive, if_neg hknown, if_neg (by rw [hf.mux]; simp), frame_encodedBits hf]
  rfl

theorem packetize_cons (hcodec : codec = .anb ∨ codec = .awb) (hf : Frame codec f)
    (fs : List MediaPacket) (pEnd : MediaPacket) :
    packetize (f::fs) pEnd = makeRoom (6+speechBits f) >>= fun _ =>
      modify (fun s => s.store (6+speechBits f) f) >>= fun _ => packetize fs pEnd := by
  rw [packetize, List.forM_cons, receive_eq hcodec hf, bind_assoc, bind_assoc]
  rfl

theorem makeRoom_cut (h : Gathered iMTU iMaxDuration s g) (hcut : isCut iMTU iMaxDuration g f) :
    (makeRoom (6+speechBits f)).run s = pack.run s := by
  rw [isCut, decide_eq_true_eq] at hcut
  have hfull : s.isFull (6+speechBits f) = true := by
    rw [AMRPacketizer.isFull, decide_eq_true_eq, h.buffer, h.mtu, h.maximum, h.pack]
    push_cast
    tauto
  rw [makeRoom, run_get_bind, if_pos hfull]

theorem makeRoom_keep (h : Gathered iMTU iMaxDuration s g)
    (hcut : ¬ isCut iMTU iMaxDuration g f) :
    (makeRoom (6+speechBits f)).run s = .ok () s := by
  rw [makeRoom, run_get_bind]
  split
  case isTrue hfull =>
    rw [isCut, decide_eq_true_eq] at hcut
    rw [AMRPacketizer.isFull, decide_eq_true_eq, h.buffer, h.mtu, h.maximum, h.pack] at hfull
    have hempty : g = [] := by
      by_contra hne
      push_cast at hfull
      tauto
    rw [pack, run_get_bind, h.buffer, hempty]
    rfl
  case isFalse => rfl

theorem pack_sent (hint : iMTU < 2^31) (h : Gathered iMTU iMaxDuration s g)
    (hg : ∀ f ∈ g, Frame codec f) (hne : g ≠ []) (hfit : (budget g : ℤ) ≤ 8*iMTU) :
    ∃ p, pack.run s = .ok () (s.routePacked p) ∧ Sent iMTU codec g p ∧
      g.head?.map (fun f => f.dts) = some p.dts := by
  rcases List.exists_cons_of_ne_nil hne with ⟨front, rest, rfl⟩
  have hs := h.mtu
  rcases pack_run (by omega) h.buffer hg (by omega) with ⟨p, hrun, hcarries, hsize, hdts⟩
  rw [hs] at hsize
  refine ⟨p, hrun, ⟨hsize, front, rest, rfl, hcarries⟩, ?_⟩
  rw [hdts]
  rfl

theorem pack_overflows (h : Gathered iMTU iMaxDuration s g)
    (hg : ∀ f ∈ g, Frame codec f) (hne : g ≠ []) (hfit : 8*iMTU < budget g) :
    ∃ e, pack.run s = .error e s := by
  rcases List.exists_cons_of_ne_nil hne with ⟨front, rest, rfl⟩
  have hs := h.mtu
  exact pack_error h.buffer hg (by omega)

theorem sent_setUnit {p : MediaPacket} (h : Sent iMTU codec g p) (u : ℤ) :
    Sent iMTU codec g (p.setUnit u) := by
  rcases h with ⟨hsize, front, rest, hg, hcarries⟩
  exact ⟨hsize, front, rest, hg, hcarries.type, hcarries.numbers, hcarries.bits, hcarries.codec⟩

/-- The packets of all groups and then the end packet, with `R` what ties a packet to its group. -/
theorem packetize_run_of {R : List MediaPacket → MediaPacket → Prop}
    (hR : ∀ s g, Gathered iMTU iMaxDuration s g → (∀ f ∈ g, Frame codec f) → g ≠ [] →
      (budget g : ℤ) ≤ 8*iMTU → ∃ p, pack.run s = .ok () (s.routePacked p) ∧ ∀ u, R g (p.setUnit u))
    (hcodec : codec = .anb ∨ codec = .awb) {fs : List MediaPacket}
    (h : Gathered iMTU iMaxDuration s g) (hg : ∀ f ∈ g, Frame codec f)
    (hfs : ∀ f ∈ fs, Frame codec f) (pEnd : MediaPacket)
    (hfit : ∀ g' ∈ groups iMTU iMaxDuration g fs, (budget g' : ℤ) ≤ 8*iMTU) :
    ∃ t ps e, (packetize fs pEnd).run s = .ok () t ∧
      t.routed = s.routed ++ ps ++ [e] ∧ e.type = pEnd.type ∧
      List.Forall₂ R (groups iMTU iMaxDuration g fs) ps := by
  induction fs generalizing s g with
  | nil =>
    rw [groups] at hfit ⊢
    by_cases hempty : g = []
    · have hrun : pack.run s = .ok () s := by
        rw [pack, run_get_bind, h.buffer, hempty]
        rfl
      refine ⟨s.send pEnd, [], ({ pEnd with mux := .RTP } : MediaPacket).setUnit s.iUnit,
        run_bind_of_ok hrun, ?_, rfl, ?_⟩
      · rw [List.append_nil]
        rfl
      · rw [if_pos hempty]
        exact List.Forall₂.nil
    · rw [if_neg hempty] at hfit ⊢
      rcases hR s g h hg hempty (hfit g (by simp)) with ⟨p, hrun, hsent⟩
      exact ⟨(s.routePacked p).send pEnd, [p.setUnit s.iUnit],
        ({ pEnd with mux := .RTP } : MediaPacket).setUnit (s.iUnit+1), run_bind_of_ok hrun, rfl, rfl,
        List.Forall₂.cons (hsent _) List.Forall₂.nil⟩
  | cons f fs ih =>
    have hf := hfs f List.mem_cons_self
    have hrest := fun f' hf' => hfs f' (List.mem_cons_of_mem f hf')
    rw [groups] at hfit ⊢
    rw [packetize_cons hcodec hf]
    by_cases hcut : isCut iMTU iMaxDuration g f
    · rw [if_pos hcut] at hfit ⊢
      have hne : g ≠ [] := by
        rw [isCut, decide_eq_true_eq] at hcut
        exact hcut.1
      rcases hR s g h hg hne (hfit g List.mem_cons_self) with ⟨p, hrun, hsent⟩
      have hstored := gathered_store (gathered_routePacked h p) f
      rw [List.nil_append] at hstored
      rcases ih hstored (by simpa using hf) hrest
        (fun g' hg' => hfit g' (List.mem_cons_of_mem g hg')) with
        ⟨t, ps, e, hmore, hrouted, hend, hall⟩
      refine ⟨t, p.setUnit s.iUnit::ps, e, ?_, ?_, hend, ?_⟩
      · rw [run_bind_of_ok ((makeRoom_cut h hcut).trans hrun), run_modify_bind]
        exact hmore
      · rw [hrouted]
        show s.routed ++ [p.setUnit s.iUnit] ++ ps ++ _ = _
        simp
      · exact List.Forall₂.cons (hsent _) hall
    · rw [if_neg hcut] at hfit ⊢
      rcases ih (gathered_store h f) (by
        intro f' hf'
        rcases List.mem_append.mp hf' with hf' | hf'
        · exact hg f' hf'
        · rwa [List.mem_singleton.mp hf']) hrest hfit with
        ⟨t, ps, e, hmore, hrouted, hend, hall⟩
      refine ⟨t, ps, e, ?_, hrouted, hend, hall⟩
      rw [run_bind_of_ok (makeRoom_keep h hcut), run_modify_bind]
      exact hmore

theorem packetize_run (hint : iMTU < 2^31)
    (hcodec : codec = .anb ∨ codec = .awb) {fs : List MediaPacket}
    (h : Gathered iMTU iMaxDuration s g) (hg : ∀ f ∈ g, Frame codec f)
    (hfs : ∀ f ∈ fs, Frame codec f) (pEnd : MediaPacket)
    (hfit : ∀ g' ∈ groups iMTU iMaxDuration g fs, (budget g' : ℤ) ≤ 8*iMTU) :
    ∃ t ps e, (packetize fs pEnd).run s = .ok () t ∧
      t.routed = s.routed ++ ps ++ [e] ∧ e.type = pEnd.type ∧
      List.Forall₂ (Sent iMTU codec) (groups iMTU iMaxDuration g fs) ps := by
  apply packetize_run_of _ hcodec h hg hfs pEnd hfit
  intro s' g' h' hg' hne hfit'
  rcases pack_sent hint h' hg' hne hfit' with ⟨p, hrun, hsent, -⟩
  exact ⟨p, hrun, sent_setUnit hsent⟩

/-- A group that is too large ends the run. -/
theorem packetize_error (hint : iMTU < 2^31)
    (hcodec : codec = .anb ∨ codec = .awb) {fs : List MediaPacket}
    (h : Gathered iMTU iMaxDuration s g) (hg : ∀ f ∈ g, Frame codec f)
    (hfs : ∀ f ∈ fs, Frame codec f) (pEnd : MediaPacket)
    (hover : ∃ g' ∈ groups iMTU iMaxDuration g fs, 8*iMTU < budget g') :
    ∃ e t, (packetize fs pEnd).run s = .error e t := by
  induction fs generalizing s g with
  | nil =>
    rw [groups] at hover
    by_cases hempty : g = []
    · rw [if_pos hempty] at hover
      rcases hover with ⟨g', hg', -⟩
      cases hg'
    · rw [if_neg hempty] at hover
      rcases hover with ⟨g', hg', hlarge⟩
      rw [List.mem_singleton.mp hg'] at hlarge
      rcases pack_overflows h hg hempty hlarge with ⟨e, he⟩
      have hrun : (receive_end pEnd).run s = .error e s := run_bind_of_error he
      exact ⟨e, s, hrun⟩
  | cons f fs ih =>
    have hf := hfs f List.mem_cons_self
    have hrest := fun f' hf' => hfs f' (List.mem_cons_of_mem f hf')
    rw [groups] at hover
    rw [packetize_cons hcodec hf]
    by_cases hcut : isCut iMTU iMaxDuration g f
    · rw [if_pos hcut] at hover
      have hne : g ≠ [] := by
        rw [isCut, decide_eq_true_eq] at hcut
        exact hcut.1
      by_cases hlarge : 8*iMTU < budget g
      · rcases pack_overflows h hg hne hlarge with ⟨e, he⟩
        exact ⟨e, s, run_bind_of_error ((makeRoom_cut h hcut).trans he)⟩
      · rcases pack_sent hint h hg hne (by omega) with ⟨p, hrun, -⟩
        rcases hover with ⟨g', hg', hlarge'⟩
        rcases List.mem_cons.mp hg' with rfl | hg'
        · exact absurd hlarge' hlarge
        have hstored := gathered_store (gathered_routePacked h p) f
        rw [List.nil_append] at hstored
        rcases ih hstored (by simpa using hf) hrest ⟨g', hg', hlarge'⟩ with ⟨e, t, he⟩
        refine ⟨e, t, ?_⟩
        rw [run_bind_of_ok ((makeRoom_cut h hcut).trans hrun), run_modify_bind]
        exact he
    · rw [if_neg hcut] at hover
      rcases ih (gathered_store h f) (by
        intro f' hf'
        rcases List.mem_append.mp hf' with hf' | hf'
        · exact hg f' hf'
        · rwa [List.mem_singleton.mp hf']) hrest hover with ⟨e, t, he⟩
      refine ⟨e, t, ?_⟩
      rw [run_bind_of_ok (makeRoom_keep h hcut), run_modify_bind]
      exact he

end

/-! ## Delivery -/

/-- The number an unpacketizer knows the packet of a group by. -/
def lead (g : List MediaPacket) : ℤ × ℤ := (g.head?.map numbers).getD (0, 0)

section
variable {iMTU : ℤ} {codec : CodecType} {s : AMRUnpacketizer} {pEnd : MediaPacket}

theorem sent_lead {g : List MediaPacket} {p : MediaPacket} (h : Sent iMTU codec g p) :
    numbers p = lead g := by
  rcases h with ⟨-, front, rest, rfl, hcarries⟩
  exact hcarries.numbers

theorem deliver_media {g : List MediaPacket} {p : MediaPacket} (h : Sent iMTU codec g p) :
    deliver p = Unpacketizer.receive unpack p := by
  rcases h with ⟨-, front, rest, -, hcarries⟩
  rw [deliver, hcarries.type]

/-- What is left of a delivery: more packets and then the end. -/
def delivery (ps : List MediaPacket) (pEnd : MediaPacket) : Unpacking Unit := do
  forM ps deliver
  Unpacketizer.receive_end unpack pEnd

theorem delivery_cons (p : MediaPacket) (ps : List MediaPacket) (pEnd : MediaPacket) :
    delivery (p::ps) pEnd = deliver p >>= fun _ => delivery ps pEnd := by
  rw [delivery, List.forM_cons, bind_assoc]
  rfl

/-- Once two payloads wait together nothing is unpacked any more. -/
theorem deliver_stuck {gs : List (List MediaPacket)} {ps : List MediaPacket}
    (hall : List.Forall₂ (Sent iMTU codec) gs ps) (hs : 2 ≤ s.vBuffer.length) :
    ∃ e t, (delivery ps pEnd).run s = .error e t := by
  induction hall generalizing s with
  | nil =>
    rcases unpack_fragmented hs with ⟨e, he⟩
    have hrun : (Unpacketizer.receive_end unpack pEnd).run s = .error e s := run_bind_of_error he
    exact ⟨e, s, hrun⟩
  | @cons g p gs ps hsent hall ih =>
    rw [delivery_cons, deliver_media hsent]
    by_cases hnew : s.isNew p = true
    · rcases unpack_fragmented hs with ⟨e, he⟩
      have hrun : (Unpacketizer.receive unpack p).run s = .error e s := by
        rw [Unpacketizer.receive, run_get_bind, if_pos hnew]
        exact run_bind_of_error he
      exact ⟨e, s, run_bind_of_error hrun⟩
    · rw [run_bind_of_ok (receive_stored (Bool.eq_false_iff.mpr hnew))]
      apply ih
      rw [Unpacketizer.stored, List.length_append, List.length_singleton]
      omega

/-- Payloads with different numbers are unpacked one by one, with `U` what ties the packets put out
to their group. -/
theorem deliver_run_of {R : List MediaPacket → MediaPacket → Prop}
    {U : List MediaPacket → List MediaPacket → Prop} (hR : ∀ g p, R g p → Sent iMTU codec g p)
    (hU : ∀ g p (s : AMRUnpacketizer), R g p → (∀ f ∈ g, Frame codec f) → s.vBuffer = [p] →
      ∃ t outs, unpack.run s = .ok () t ∧ t.vBuffer = [] ∧ t.routed = s.routed ++ outs ∧ U g outs)
    {gs : List (List MediaPacket)} {ps : List MediaPacket} (hall : List.Forall₂ R gs ps)
    {g : List MediaPacket} {p : MediaPacket} (hsent : R g p)
    (hframes : ∀ g' ∈ g::gs, ∀ f ∈ g', Frame codec f)
    (hchain : ((g::gs).map lead).IsChain (· ≠ ·)) (hs : s.vBuffer = [p]) :
    ∃ t outss n, (delivery ps pEnd).run s = .ok () t ∧
      t.routed = s.routed ++ outss.flatten ++ [pEnd.setUnit n] ∧ List.Forall₂ U (g::gs) outss := by
  induction hall generalizing s g p with
  | nil =>
    rcases hU g p s hsent (hframes _ List.mem_cons_self) hs with ⟨t, outs, hrun, -, hrouted, hout⟩
    refine ⟨t.emit pEnd, [outs], t.iUnit, ?_, ?_, .cons hout .nil⟩
    · have hend : (Unpacketizer.receive_end unpack pEnd).run s = .ok () (t.emit pEnd) := by
        rw [Unpacketizer.receive_end, run_bind_of_ok hrun]
        rfl
      exact hend
    · rw [Unpacketizer.emit, hrouted, List.flatten_singleton]
  | @cons g' p' gs ps hsent' hall ih =>
    have hnew : s.isNew p' = true := by
      rw [isNew_iff (q := []) p' hs, sent_lead (hR _ _ hsent), sent_lead (hR _ _ hsent')]
      rw [List.map_cons, List.map_cons, List.isChain_cons_cons] at hchain
      exact hchain.1
    rw [List.map_cons, List.map_cons, List.isChain_cons_cons] at hchain
    rcases hU g p s hsent (hframes _ List.mem_cons_self) hs with
      ⟨t, outs, hrun, hbuffer, hrouted, hout⟩
    have hstored : (t.stored p').vBuffer = [p'] := by
      rw [Unpacketizer.stored, hbuffer]
      rfl
    rcases ih hsent' (fun g'' hg'' => hframes g'' (List.mem_cons_of_mem _ hg'')) hchain.2
      hstored with ⟨u, outss, n, hmore, hrouted', houts⟩
    refine ⟨u, outs::outss, n, ?_, ?_, .cons hout houts⟩
    · rw [delivery_cons, deliver_media (hR _ _ hsent'),
        run_bind_of_ok (receive_unpacked hnew hrun)]
      exact hmore
    · rw [hrouted']
      show t.routed ++ outss.flatten ++ _ = _
      rw [hrouted, List.flatten_cons, List.append_assoc s.routed]

theorem unpack_sent (hcodec : codec = .anb ∨ codec = .awb) {g : List MediaPacket}
    {p : MediaPacket} (h : Sent iMTU codec g p) (hg : ∀ f ∈ g, Frame codec f)
    (hs : s.vBuffer = [p]) : ∃ t outs, unpack.run s = .ok () t ∧ t.vBuffer = [] ∧
      t.routed = s.routed ++ outs ∧ outs.map MediaPacket.bytes = g.map MediaPacket.bytes := by
  rcases h with ⟨-, front, rest, rfl, hcarries⟩
  rcases unpack_run hcodec hcarries hg (by simp) hs with ⟨t, hrun, hbuffer, outs, hrouted, hmap⟩
  exact ⟨t, outs, hrun, hbuffer, hrouted, hmap⟩

theorem map_flatten_of {α : Type} (f : MediaPacket → α) {gs outss : List (List MediaPacket)}
    (h : List.Forall₂ (fun g outs => outs.map f = g.map f) gs outss) :
    outss.flatten.map f = gs.flatten.map f := by
  induction h with
  | nil => rfl
  | cons hmap _ ih => rw [List.flatten_cons, List.flatten_cons, List.map_append, hmap, ih,
      List.map_append]

theorem deliver_run (hcodec : codec = .anb ∨ codec = .awb) {gs : List (List MediaPacket)}
    {ps : List MediaPacket} (hall : List.Forall₂ (Sent iMTU codec) gs ps)
    {g : List MediaPacket} {p : MediaPacket} (hsent : Sent iMTU codec g p)
    (hframes : ∀ g' ∈ g::gs, ∀ f ∈ g', Frame codec f)
    (hchain : ((g::gs).map lead).IsChain (· ≠ ·)) (hs : s.vBuffer = [p]) :
    ∃ t outs n, (delivery ps pEnd).run s = .ok () t ∧
      t.routed = s.routed ++ outs ++ [pEnd.setUnit n] ∧
      outs.map MediaPacket.bytes = (g::gs).flatten.map MediaPacket.bytes := by
  rcases deliver_run_of (fun _ _ h => h) (fun _ _ _ h hg hs => unpack_sent hcodec h hg hs) hall
    hsent hframes hchain hs with ⟨t, outss, n, hrun, hrouted, houts⟩
  exact ⟨t, outss.flatten, n, hrun, hrouted, map_flatten_of _ houts⟩

/-- Payloads that begin with the same number are taken for one frame. -/
theorem deliver_clash (hcodec : codec = .anb ∨ codec = .awb) {gs : List (List MediaPacket)}
    {ps : List MediaPacket} (hall : List.Forall₂ (Sent iMTU codec) gs ps)
    {g : List MediaPacket} {p : MediaPacket} (hsent : Sent iMTU codec g p)
    (hframes : ∀ g' ∈ g::gs, ∀ f ∈ g', Frame codec f)
    (hchain : ¬ ((g::gs).map lead).IsChain (· ≠ ·)) (hs : s.vBuffer = [p]) :
    ∃ e t, (delivery ps pEnd).run s = .error e t := by
  induction hall generalizing s g p with
  | nil => exact absurd (List.isChain_singleton _) hchain
  | @cons g' p' gs ps hsent' hall ih =>
    rw [List.map_cons, List.map_cons, List.isChain_cons_cons, not_and_or] at hchain
    rw [delivery_cons, deliver_media hsent']
    by_cases hsame : lead g = lead g'
    · have hold : s.isNew p' = false := by
        rw [Bool.eq_false_iff, ne_eq, isNew_iff (q := []) p' hs, sent_lead hsent,
          sent_lead hsent', hsame]
        simp
      rw [run_bind_of_ok (receive_stored hold)]
      apply deliver_stuck hall
      rw [Unpacketizer.stored, hs]
      simp
    · have hnew : s.isNew p' = true := by
        rw [isNew_iff (q := []) p' hs, sent_lead hsent, sent_lead hsent']
        exact hsame
      rcases hsent with ⟨-, front, rest, rfl, hcarries⟩
      rcases unpack_run hcodec hcarries (hframes _ List.mem_cons_self) (by simp) hs with
        ⟨t, hrun, hbuffer, -⟩
      rw [run_bind_of_ok (receive_unpacked hnew hrun)]
      apply ih hsent' (fun g'' hg'' => hframes g'' (List.mem_cons_of_mem _ hg''))
      · rcases hchain with hchain | hchain
        · exact absurd hsame hchain
        · exact hchain
      · rw [Unpacketizer.stored, hbuffer]
        rfl

end

section
variable {iMTU : ℤ} {codec : CodecType} {gs : List (List MediaPacket)} {ps : List MediaPacket}

theorem delivery_first {g : List MediaPacket} {p : MediaPacket} (hsent : Sent iMTU codec g p)
    (ps : List MediaPacket) (pEnd : MediaPacket) :
    (delivery (p::ps) pEnd).run (Unpacketizer.init ()) =
      (delivery ps pEnd).run ((Unpacketizer.init ()).stored p) := by
  rw [delivery_cons, deliver_media hsent, run_bind_of_ok (receive_stored (isNew_empty p rfl))]

theorem delivery_run (hcodec : codec = .anb ∨ codec = .awb)
    (hall : List.Forall₂ (Sent iMTU codec) gs ps) (hframes : ∀ g ∈ gs, ∀ f ∈ g, Frame codec f)
    (hchain : (gs.map lead).IsChain (· ≠ ·)) (pEnd : MediaPacket) :
    ∃ t outs n, (delivery ps pEnd).run (Unpacketizer.init ()) = .ok () t ∧
      t.routed = outs ++ [pEnd.setUnit n] ∧
      outs.map MediaPacket.bytes = gs.flatten.map MediaPacket.bytes := by
  cases hall with
  | nil => exact ⟨_, [], 0, rfl, rfl, rfl⟩
  | cons hsent hrest =>
    rw [delivery_first hsent]
    exact deliver_run hcodec hrest hsent hframes hchain rfl

theorem delivery_error (hcodec : codec = .anb ∨ codec = .awb)
    (hall : List.Forall₂ (Sent iMTU codec) gs ps) (hframes : ∀ g ∈ gs, ∀ f ∈ g, Frame codec f)
    (hchain : ¬ (gs.map lead).IsChain (· ≠ ·)) (pEnd : MediaPacket) :
    ∃ e t, (delivery ps pEnd).run (Unpacketizer.init ()) = .error e t := by
  cases hall with
  | nil => exact absurd List.isChain_nil hchain
  | cons hsent hrest =>
    rw [delivery_first hsent]
    exact deliver_clash hcodec hrest hsent hframes hchain rfl

end

/-! ## Round trip -/

/-- All payloads fit in a packet, and they give back the frames and then the end. -/
def RoundTrip (mtu maxptime : ℤ) (frames : List MediaPacket) (pEnd : MediaPacket) : Prop :=
  ∃ s t outs e, (packetize frames pEnd).run (AMRPacketizer.init mtu maxptime) = .ok () s ∧
    (∀ p ∈ s.routed, p.type = .media → (p.size : ℤ) ≤ (Packetizer.init mtu).iMTU) ∧
    (forM s.routed deliver).run (Unpacketizer.init ()) = .ok () t ∧
    t.routed = outs ++ [e] ∧ e.type = .end ∧
    outs.map MediaPacket.bytes = frames.map MediaPacket.bytes

/-- The frame fits in a packet of its own, with the header and its entry in the table. -/
def FitsAlone (mtu : ℤ) (f : MediaPacket) : Prop := (10+speechBits f : ℤ) ≤ 8*(mtu-70)

instance (mtu : ℤ) (f : MediaPacket) : Decidable (FitsAlone mtu f) :=
  inferInstanceAs (Decidable ((10+speechBits f : ℤ) ≤ 8*(mtu-70)))

section
variable {mtu maxptime : ℤ} {codec : CodecType} {frames : List MediaPacket} {pEnd : MediaPacket}

theorem deliver_delivery (ps : List MediaPacket) (hend : pEnd.type = .end) :
    forM (ps ++ [pEnd]) deliver = delivery ps pEnd := by
  rw [List.forM_append, List.forM_cons, List.forM_nil, deliver, hend]
  exact congrArg _ (funext fun _ => bind_pure_unit)

theorem sent_sizes {iMTU : ℤ} {gs : List (List MediaPacket)} {ps : List MediaPacket}
    (hall : List.Forall₂ (Sent iMTU codec) gs ps) : ∀ p ∈ ps, (p.size : ℤ) ≤ iMTU := by
  induction hall with
  | nil => simp
  | cons hsent _ ih =>
    intro p hp
    rcases List.mem_cons.mp hp with rfl | hp
    · exact hsent.1
    · exact ih p hp

/-- A frame too large for a packet ends the stream with an error. -/
theorem no_round_trip (hmtu : 100 ≤ mtu) (hint : mtu < 2^31) (hcodec : codec = .anb ∨ codec = .awb)
    (hframes : ∀ f ∈ frames, Frame codec f) (hover : ¬ ∀ f ∈ frames, FitsAlone mtu f) :
    ¬ RoundTrip mtu maxptime frames pEnd := by
  rintro ⟨s, t, outs, e, hrun, -⟩
  have hstart := gathered_init mtu maxptime
  rw [show mtu-20-20-18-12 = mtu-70 by ring] at hstart
  have hsplit : ∃ g ∈ groups (mtu-70) (maxptime*90) [] frames, 8*(mtu-70) < budget g := by
    by_contra hnone
    push Not at hnone
    exact hover ((groups_fit_iff frames).mp hnone)
  rcases packetize_error (by omega) hcodec hstart (by simp) hframes pEnd hsplit with
    ⟨e', t', he⟩
  rw [he] at hrun
  cases hrun

end

/-! ## Examples -/

/-- A narrow-band frame with speech bits that are all zero. -/
def silence (iType iFrame : ℕ) : MediaPacket :=
  let p := MediaPacket.new .media .audio 32
  let iBits := mFrameTypeToSizeBits_NB.getD iType 0
  { p with
    codec := .anb
    framenumber := iFrame
    bytes := UInt8.ofNat (8*iType+4)::List.replicate ((iBits+7)/8) 0 }

theorem silence_frame : ∀ iType < 8, ∀ iFrame, Frame .anb (silence iType iFrame) := by
  intro iType htype iFrame
  have hpadding : ∀ b ∈ (ofBytes (silence iType 0).bytes).drop (8+speechBits (silence iType 0)),
      b = false := by
    revert htype iType
    decide +kernel
  constructor
  · rfl
  · rfl
  · show frameType (silence iType 0) < 8
    revert htype iType
    decide
  · show (silence iType 0).bytes.head? = some (UInt8.ofNat (8*frameType (silence iType 0)+4))
    revert htype iType
    decide
  · show (silence iType 0).size = 1+(speechBits (silence iType 0)+7)/8
    revert htype iType
    decide
  · exact hpadding
  · rfl

def finish : MediaPacket := MediaPacket.new .end .audio 0

end Sirannon.AMR
