import Sirannon.AMRRoundTrip

/-!
# Times of AMR frames

Only the time of the first frame travels with a payload. The unpacketizer has
a position for the others but never counts it up, so they all get that time.
-/

set_option autoImplicit false

namespace Sirannon.AMR
open MachineInt BitString Bits Media Packetization StateError

/-- Frames of equal duration, one after the other. -/
structure Spaced (inc : ℤ) (frames : List MediaPacket) : Prop where
  duration : 0 ≤ inc
  each : ∀ f ∈ frames, f.inc = inc
  range : ∀ f ∈ frames, -2^31 ≤ f.dts ∧ f.dts < 2^31
  next : frames.IsChain (fun f f' => f'.dts = f.dts+inc)

/-- Number of entries in a table of contents. -/
def entries : List Bool → ℕ
  | bCont::_::_::_::_::_::rest => if bCont then entries rest+1 else 1
  | _ => 0

/-- Number of frames in a payload. -/
def frameCount (p : MediaPacket) : ℕ := entries ((ofBytes p.bytes).drop 4)

/-- If the frames can be packetized, no payload spans more than `maxptime` (unless it is negative,
which means no maximum) plus one frame; if they can be unpacketized again, all have their time. -/
def KeepsTimes (mtu maxptime inc : ℤ) (frames : List MediaPacket) (pEnd : MediaPacket) : Prop :=
  ∀ s, (packetize frames pEnd).run (AMRPacketizer.init mtu maxptime) = .ok () s →
    (0 ≤ maxptime → ∀ p ∈ s.routed, p.type = .media →
      ((frameCount p : ℤ)-1)*inc ≤ maxptime*90+inc) ∧
    ∀ t, (forM s.routed deliver).run (Unpacketizer.init ()) = .ok () t →
      ∃ outs e, t.routed = outs ++ [e] ∧
        outs.map (fun q => q.dts) = frames.map (fun f => f.dts)

/-- The two frames do not fit in one packet. -/
def Apart (mtu : ℤ) (f f' : MediaPacket) : Prop := 8*(mtu-70) < 16+speechBits f+speechBits f'

instance (mtu : ℤ) (f f' : MediaPacket) : Decidable (Apart mtu f f') :=
  inferInstanceAs (Decidable (_ < _))

section
variable {inc : ℤ} {codec : CodecType} {g frames : List MediaPacket} {f front p : MediaPacket}

/-! ## Frames of a payload -/

theorem entries_toc (hne : g ≠ []) (rest : List Bool) : entries (tocBits g ++ rest) = g.length := by
  induction g with
  | nil => exact absurd rfl hne
  | cons f g ih =>
    rw [tocBits]
    by_cases hlast : g = []
    · subst hlast
      rfl
    · rw [if_neg hlast, List.length_cons, ← ih hlast]
      rfl

theorem sent_count {iMTU : ℤ} (h : Sent iMTU codec g p) : frameCount p = g.length := by
  rcases h with ⟨-, front, rest, rfl, hcarries⟩
  rcases hcarries.bits with ⟨pad, hbits⟩
  rw [frameCount, hbits, payloadBits, List.append_assoc, List.drop_left' (ofNat_length 4 _),
    List.append_assoc, entries_toc (List.cons_ne_nil _ _)]

theorem duration_cons (hchain : (f::g).IsChain (fun f f' => f'.dts = f.dts+inc)) :
    duration (f::g) = g.length*inc := by
  induction g generalizing f with
  | nil => simp [duration]
  | cons f' g ih =>
    rw [List.isChain_cons_cons] at hchain
    have hrest := ih hchain.2
    have hlast : (f::f'::g).getLast? = (f'::g).getLast? := List.getLast?_cons_cons
    have hsplit : duration (f::f'::g) = duration (f'::g)+inc := by
      rw [duration, duration, hlast]
      cases hback : (f'::g).getLast? with
      | none => simp at hback
      | some back =>
        simp only [List.head?_cons]
        rw [hchain.1]
        ring
    rw [hsplit, hrest, List.length_cons]
    push_cast
    ring

theorem duration_of (hne : g ≠ []) (hchain : g.IsChain (fun f f' => f'.dts = f.dts+inc)) :
    duration g = ((g.length : ℤ)-1)*inc := by
  rcases List.exists_cons_of_ne_nil hne with ⟨f, rest, rfl⟩
  rw [duration_cons hchain, List.length_cons]
  push_cast
  ring

/-! ## Groups -/

/-- A group was not yet too long when its last frame came. -/
theorem groups_duration {iMTU iMax : ℤ} (hinc : 0 ≤ inc) (hmax : 0 < iMax) {fs : List MediaPacket}
    (hchain : (g ++ fs).IsChain (fun f f' => f'.dts = f.dts+inc))
    (hg : g ≠ [] → duration g ≤ iMax+inc) :
    ∀ g' ∈ groups iMTU iMax g fs, duration g' ≤ iMax+inc := by
  induction fs generalizing g with
  | nil =>
    rw [groups]
    split
    case isTrue => simp
    case isFalse hne => simpa using hg hne
  | cons f fs ih =>
    have hsingle : duration [f] ≤ iMax+inc := by
      simp only [duration, List.head?_cons, List.getLast?_singleton, sub_self]
      omega
    rw [groups]
    split
    case isTrue hcut =>
      rw [isCut, decide_eq_true_eq] at hcut
      rw [List.forall_mem_cons]
      exact ⟨hg hcut.1, ih (List.isChain_append.mp hchain).2.1 (fun _ => hsingle)⟩
    case isFalse hcut =>
      rw [isCut, decide_eq_true_eq, not_and_or, not_or, not_and] at hcut
      apply ih
      · rwa [List.append_assoc, List.singleton_append]
      · intro _
        by_cases hne : g = []
        · subst hne
          exact hsingle
        · rw [← List.singleton_append, ← List.append_assoc] at hchain
          have hnext := (List.isChain_append.mp hchain).1
          have hold := (List.isChain_append.mp hnext).1
          have hle : duration g ≤ iMax := by
            rcases hcut with hempty | ⟨-, hshort⟩
            · exact absurd hne hempty
            · exact not_lt.mp (hshort hmax)
          rw [duration_of hne hold] at hle
          rw [duration_of (by simp) hnext, List.length_append, List.length_singleton]
          push_cast
          linarith

/-- A group that has begun only grows. -/
theorem groups_grow {iMTU iMax : ℤ} {fs : List MediaPacket} (hne : g ≠ []) :
    ∃ g' ∈ groups iMTU iMax g fs, g.length ≤ g'.length := by
  induction fs generalizing g with
  | nil =>
    rw [groups, if_neg hne]
    exact ⟨g, List.mem_cons_self .., le_rfl⟩
  | cons f fs ih =>
    rw [groups]
    split
    · exact ⟨g, List.mem_cons_self .., le_rfl⟩
    · rcases ih (show g ++ [f] ≠ [] by simp) with ⟨g', hg', hlength⟩
      rw [List.length_append] at hlength
      exact ⟨g', hg', by omega⟩

/-- Each frame gets a packet of its own exactly when no two neighbours fit in one. -/
theorem groups_single_cons (mtu iMax : ℤ) (fs : List MediaPacket) :
    (∀ g' ∈ groups (mtu-70) iMax [f] fs, g'.length ≤ 1) ↔ (f::fs).IsChain (Apart mtu) := by
  induction fs generalizing f with
  | nil => simp [groups]
  | cons f' fs ih =>
    have hcut : isCut (mtu-70) iMax [f] f' = true ↔ Apart mtu f f' := by
      have hzero : duration [f] = 0 := by simp [duration]
      rw [isCut, decide_eq_true_eq, budget_single, hzero, Apart]
      push_cast
      constructor
      · rintro ⟨-, h | h⟩ <;> omega
      · intro h
        exact ⟨by simp, Or.inl (by omega)⟩
    rw [groups, List.isChain_cons_cons, ← ih, ← hcut]
    split
    case isTrue h =>
      rw [List.forall_mem_cons]
      simp [h]
    case isFalse h =>
      refine ⟨fun hall => ?_, fun hall => absurd hall.1 h⟩
      rcases groups_grow (show [f] ++ [f'] ≠ [] by simp) with ⟨g', hg', hlength⟩
      have hone := hall g' hg'
      simp only [List.length_append, List.length_singleton] at hlength
      omega

theorem groups_single (mtu iMax : ℤ) (frames : List MediaPacket) :
    (∀ g ∈ groups (mtu-70) iMax [] frames, g.length ≤ 1) ↔ frames.IsChain (Apart mtu) := by
  cases frames with
  | nil => simp [groups]
  | cons f fs =>
    rw [groups, if_neg (by simp [isCut]), List.nil_append]
    exact groups_single_cons mtu iMax fs

/-! ## Packets -/

/-- A packet sent for a group, with the time of its first frame. -/
def TimedSent (iMTU : ℤ) (codec : CodecType) (g : List MediaPacket) (p : MediaPacket) : Prop :=
  Sent iMTU codec g p ∧ g.head?.map (fun f => f.dts) = some p.dts

/-- The packets put out for a group: its frames, all with the time of the first. -/
def TimedOut (g outs : List MediaPacket) : Prop :=
  outs.map MediaPacket.bytes = g.map MediaPacket.bytes ∧
    ∀ q ∈ outs, g.head?.map (fun f => f.dts) = some q.dts

/-- All that was put out meanwhile has the time `dts`. -/
def Stamped (dts : ℤ) (s t : AMRUnpacketizer) : Prop :=
  ∃ outs, t.routed = s.routed ++ outs ∧ ∀ q ∈ outs, q.dts = dts

instance (dts : ℤ) : IsPreorder AMRUnpacketizer (Stamped dts) where
  refl s := ⟨[], (List.append_nil _).symm, by simp⟩
  trans := by
    rintro s t u ⟨outs, hrouted, hdts⟩ ⟨outs', hrouted', hdts'⟩
    refine ⟨outs ++ outs', by rw [hrouted', hrouted, List.append_assoc], ?_⟩
    intro q hq
    rcases List.mem_append.mp hq with hq | hq
    · exact hdts q hq
    · exact hdts' q hq

theorem push_back_dts {p q : MediaPacket} {bytes : List UInt8} (h : p.push_back bytes = .ok q) :
    q.dts = p.dts := by
  rw [MediaPacket.push_back] at h
  split at h
  · cases h
  · rw [← Except.ok.inj h]
    rfl

theorem frameLoop_stamped (pPckt : MediaPacket) (fuel : ℕ) (oHeader oPayload : IBits) :
    Along (Stamped (int32 pPckt.dts)) (frameLoop pPckt fuel oHeader oPayload) := by
  induction fuel generalizing oHeader oPayload with
  | zero => exact along_pure ()
  | succ fuel ih =>
    rw [frameLoop]
    apply along_ofExcept_bind
    intro bCont _
    apply along_ofExcept_bind
    intro entry _
    apply along_ofExcept_bind
    intro iFrameSize _
    apply along_ofExcept_bind
    intro oFrame _
    apply along_ofExcept_bind
    intro pUnpack hpush
    have hdts : pUnpack.dts = pPckt.dts := by
      rw [push_back_dts hpush]
      rfl
    apply along_modify_bind
    · intro s
      refine ⟨[_], rfl, ?_⟩
      intro q hq
      rw [List.mem_singleton.mp hq]
      show int32 (pUnpack.dts+pUnpack.inc*0) = int32 pPckt.dts
      rw [hdts, mul_zero, add_zero]
    · exact along_ite (along_pure ()) (ih _ _)

theorem unpack_stamped {s t : AMRUnpacketizer} (hs : s.vBuffer = [p])
    (hrun : unpack.run s = .ok () t) : Stamped (int32 p.dts) s t := by
  rw [unpack, run_get_bind, hs] at hrun
  simp only at hrun
  by_cases hcodec : p.codec ≠ .anb ∧ p.codec ≠ .awb
  · rw [if_pos hcodec] at hrun
    cases hrun
  · rw [if_neg hcodec] at hrun
    have halong : Along (Stamped (int32 p.dts)) (do
        let start ← ofExcept ((reader p).readWithin 4)
        let oPayload ← ofExcept (skipTOC (8*p.size) start.2)
        let oHeader ← ofExcept ((reader p).readWithin 4)
        frameLoop p (8*p.size) oHeader.2 oPayload
        drop) := by
      apply along_ofExcept_bind
      intro start _
      apply along_ofExcept_bind
      intro oPayload _
      apply along_ofExcept_bind
      intro oHeader _
      apply along_bind (frameLoop_stamped p _ _ _)
      intro _ s'
      exact ⟨[], (List.append_nil _).symm, by simp⟩
    have hs' := halong s
    rw [hrun] at hs'
    exact hs'

theorem unpack_timed {iMTU : ℤ} (hcodec : codec = .anb ∨ codec = .awb)
    (h : TimedSent iMTU codec g p) (hrange : -2^31 ≤ p.dts ∧ p.dts < 2^31)
    (hg : ∀ f ∈ g, Frame codec f) {s : AMRUnpacketizer} (hs : s.vBuffer = [p]) :
    ∃ t outs, unpack.run s = .ok () t ∧ t.vBuffer = [] ∧ t.routed = s.routed ++ outs ∧
      TimedOut g outs := by
  rcases unpack_sent hcodec h.1 hg hs with ⟨t, outs, hrun, hbuffer, hrouted, hmap⟩
  rcases unpack_stamped hs hrun with ⟨outs', hrouted', hdts⟩
  obtain rfl : outs = outs' := List.append_cancel_left (hrouted.symm.trans hrouted')
  refine ⟨t, outs, hrun, hbuffer, hrouted, hmap, ?_⟩
  intro q hq
  rw [hdts q hq, int32_of_range _ hrange.1 hrange.2, h.2]

/-- The packets of all groups and then the end packet, each with the time of its first frame. -/
theorem packetize_timed {mtu maxptime : ℤ} (hint : mtu < 2^31)
    (hcodec : codec = .anb ∨ codec = .awb) (hframes : ∀ f ∈ frames, Frame codec f)
    (pEnd : MediaPacket)
    (hfit : ∀ g ∈ groups (mtu-70) (maxptime*90) [] frames, (budget g : ℤ) ≤ 8*(mtu-70)) :
    ∃ s ps e, (packetize frames pEnd).run (AMRPacketizer.init mtu maxptime) = .ok () s ∧
      s.routed = ps ++ [e] ∧ e.type = pEnd.type ∧
      List.Forall₂ (TimedSent (mtu-70) codec) (groups (mtu-70) (maxptime*90) [] frames) ps := by
  have hstart := gathered_init mtu maxptime
  rw [show mtu-20-20-18-12 = mtu-70 by ring] at hstart
  have hR : ∀ s g, Gathered (mtu-70) (maxptime*90) s g → (∀ f ∈ g, Frame codec f) → g ≠ [] →
      (budget g : ℤ) ≤ 8*(mtu-70) →
      ∃ p, pack.run s = .ok () (s.routePacked p) ∧ ∀ u, TimedSent (mtu-70) codec g (p.setUnit u) := by
    intro s' g' h' hg' hne hfit'
    rcases pack_sent (by omega) h' hg' hne hfit' with ⟨p, hrun, hsent, hdts⟩
    exact ⟨p, hrun, fun u => ⟨sent_setUnit hsent u, hdts⟩⟩
  exact packetize_run_of hR hcodec hstart (by simp) hframes pEnd hfit

theorem forall₂_imp_mem {α β : Type} {R S : α → β → Prop} {as : List α} {bs : List β}
    (h : List.Forall₂ R as bs) (himp : ∀ a b, a ∈ as → R a b → S a b) : List.Forall₂ S as bs := by
  induction h with
  | nil => exact .nil
  | cons hab _ ih =>
    exact .cons (himp _ _ (List.mem_cons_self ..) hab)
      (ih (fun a b ha => himp a b (List.mem_cons_of_mem _ ha)))

/-- All packets are unpacked one by one. -/
theorem delivery_timed {iMTU : ℤ} (hcodec : codec = .anb ∨ codec = .awb)
    {gs : List (List MediaPacket)} {ps : List MediaPacket}
    (hall : List.Forall₂ (TimedSent iMTU codec) gs ps)
    (hrange : ∀ g ∈ gs, ∀ f ∈ g, -2^31 ≤ f.dts ∧ f.dts < 2^31)
    (hframes : ∀ g ∈ gs, ∀ f ∈ g, Frame codec f)
    (hchain : (gs.map lead).IsChain (· ≠ ·)) (pEnd : MediaPacket) :
    ∃ t outss n, (delivery ps pEnd).run (Unpacketizer.init ()) = .ok () t ∧
      t.routed = outss.flatten ++ [pEnd.setUnit n] ∧ List.Forall₂ TimedOut gs outss := by
  have hall' : List.Forall₂ (fun g p => TimedSent iMTU codec g p ∧ -2^31 ≤ p.dts ∧ p.dts < 2^31)
      gs ps := by
    apply forall₂_imp_mem hall
    intro g p hg h
    rcases h.1 with ⟨-, front, rest, rfl, -⟩
    have hdts : front.dts = p.dts := Option.some.inj h.2
    rw [← hdts]
    exact ⟨h, hrange _ hg front (List.mem_cons_self ..)⟩
  cases hall' with
  | nil => exact ⟨_, [], 0, rfl, rfl, .nil⟩
  | cons hsent hrest =>
    rw [delivery_first hsent.1.1]
    exact deliver_run_of (fun _ _ h => h.1.1)
      (fun _ _ _ h hg hs => unpack_timed hcodec h.1 h.2 hg hs) hrest hsent hframes hchain rfl

/-! ## Times -/

/-- All frames of a group have the time of the first. -/
def Uniform (g : List MediaPacket) : Prop := ∀ f ∈ g, g.head?.map (fun f => f.dts) = some f.dts

theorem timedOut_length {outs : List MediaPacket} (h : TimedOut g outs) :
    outs.length = g.length := by
  have hlength := congrArg List.length h.1
  rwa [List.length_map, List.length_map] at hlength

theorem timedOut_dts {outs : List MediaPacket} (h : TimedOut g outs) (hg : Uniform g) :
    outs.map (fun q => q.dts) = g.map (fun f => f.dts) := by
  have hlength := timedOut_length h
  cases hfront : g.head?.map (fun f => f.dts) with
  | none =>
    have hnil : g = [] := by simpa using hfront
    subst hnil
    rw [List.length_eq_zero_iff.mp hlength]
  | some d =>
    have houts : outs.map (fun q => q.dts) = List.replicate outs.length d := by
      rw [List.eq_replicate_iff]
      refine ⟨List.length_map _, ?_⟩
      intro x hx
      rcases List.mem_map.mp hx with ⟨q, hq, rfl⟩
      have heq := h.2 q hq
      rw [hfront] at heq
      exact (Option.some.inj heq).symm
    have hframes : g.map (fun f => f.dts) = List.replicate g.length d := by
      rw [List.eq_replicate_iff]
      refine ⟨List.length_map _, ?_⟩
      intro x hx
      rcases List.mem_map.mp hx with ⟨f, hf, rfl⟩
      have heq := hg f hf
      rw [hfront] at heq
      exact (Option.some.inj heq).symm
    rw [houts, hframes, hlength]

/-- Lists cut at the same places that are equal as a whole are equal piece by piece. -/
theorem forall₂_of_flatten {α : Type} (φ : MediaPacket → α) {gs outss : List (List MediaPacket)}
    (h : List.Forall₂ TimedOut gs outss) (heq : outss.flatten.map φ = gs.flatten.map φ) :
    List.Forall₂ (fun g outs => TimedOut g outs ∧ outs.map φ = g.map φ) gs outss := by
  induction h with
  | nil => exact .nil
  | cons hout _ ih =>
    rw [List.flatten_cons, List.flatten_cons, List.map_append, List.map_append] at heq
    obtain ⟨hhead, htail⟩ := List.append_inj heq (by
      rw [List.length_map, List.length_map, timedOut_length hout])
    exact .cons ⟨hout, hhead⟩ (ih htail)

/-- Two frames of a group that is put out at the right times are not apart in time. -/
theorem timedOut_inc {outs : List MediaPacket} (h : TimedOut g outs)
    (heq : outs.map (fun q => q.dts) = g.map (fun f => f.dts))
    (hchain : g.IsChain (fun f f' => f'.dts = f.dts+inc)) : inc = 0 ∨ g.length ≤ 1 := by
  match g, hchain with
  | [], _ => exact Or.inr (Nat.zero_le _)
  | [_], _ => exact Or.inr le_rfl
  | f::f'::rest, hchain =>
    left
    rw [List.isChain_cons_cons] at hchain
    have hlength := timedOut_length h
    cases outs with
    | nil => simp at hlength
    | cons q outs =>
      cases outs with
      | nil => simp at hlength
      | cons q' outs =>
        simp only [List.map_cons, List.cons.injEq] at heq
        have hq' := Option.some.inj (h.2 q' (by simp))
        have hnext := hchain.1
        have hdts := heq.2.1
        dsimp only at hq'
        omega

variable {mtu maxptime : ℤ} {pEnd : MediaPacket}

theorem groups_spaced {iMTU iMax : ℤ} (h : Spaced inc frames) :
    ∀ g ∈ groups iMTU iMax [] frames, g.IsChain (fun f f' => f'.dts = f.dts+inc) := by
  intro g hg
  have hinfix := List.infix_of_mem_flatten hg
  rw [groups_flatten, List.nil_append] at hinfix
  exact h.next.infix hinfix

theorem uniform_chain (h : (f::g).IsChain (fun f f' => f'.dts = f.dts+0)) : Uniform (f::g) := by
  have hall : ∀ f' ∈ f::g, f'.dts = f.dts := by
    induction g generalizing f with
    | nil => simp
    | cons f' g ih =>
      rw [List.isChain_cons_cons] at h
      intro f'' hf''
      rcases List.mem_cons.mp hf'' with rfl | hf''
      · rfl
      · rw [ih h.2 f'' hf'', h.1, add_zero]
  intro f' hf'
  rw [hall f' hf']
  rfl

theorem uniform_single (h : g.length ≤ 1) : Uniform g := by
  cases g with
  | nil => simp [Uniform]
  | cons f rest =>
    rw [List.length_cons] at h
    obtain rfl : rest = [] := List.length_eq_zero_iff.mp (by omega)
    simp [Uniform]

theorem forall₂_mem_right {α β : Type} {R : α → β → Prop} {as : List α} {bs : List β}
    (h : List.Forall₂ R as bs) {b : β} (hb : b ∈ bs) : ∃ a ∈ as, R a b := by
  induction h with
  | nil => cases hb
  | cons hab _ ih =>
    rcases List.mem_cons.mp hb with rfl | hb
    · exact ⟨_, List.mem_cons_self .., hab⟩
    · rcases ih hb with ⟨a, ha, hR⟩
      exact ⟨a, List.mem_cons_of_mem _ ha, hR⟩

theorem forall₂_mem_left {α β : Type} {R : α → β → Prop} {as : List α} {bs : List β}
    (h : List.Forall₂ R as bs) {a : α} (ha : a ∈ as) : ∃ b ∈ bs, R a b :=
  forall₂_mem_right h.flip ha

theorem sent_media {iMTU : ℤ} (h : Sent iMTU codec g p) : p.type = .media := by
  rcases h with ⟨-, front, rest, -, hcarries⟩
  exact hcarries.type

/-- Without a maximum a payload must not be long by itself. -/
theorem group_span (hspaced : Spaced inc frames) (hmax : 0 ≤ maxptime)
    (hspan : maxptime = 0 → inc = 0 ∨ ∀ g ∈ groups (mtu-70) 0 [] frames, g.length ≤ 2)
    (hg : g ∈ groups (mtu-70) (maxptime*90) [] frames) :
    ((g.length : ℤ)-1)*inc ≤ maxptime*90+inc := by
  have hpos := hspaced.duration
  by_cases hzero : maxptime = 0
  · subst hzero
    rw [zero_mul] at hg
    rcases hspan rfl with hinc | hshort
    · rw [hinc]
      simp
    · have hle := hshort g hg
      have hfew : ((g.length : ℤ)-1) ≤ 1 := by omega
      have hmul := mul_le_mul_of_nonneg_right hfew hpos
      linarith
  · have hduration := groups_duration (g := []) hpos
      (show 0 < maxptime*90 by omega) hspaced.next (by simp) g hg
    rwa [duration_of (groups_nonempty [] frames g hg) (groups_spaced hspaced g hg)] at hduration

theorem keeps_times_of (hint : mtu < 2^31) (hcodec : codec = .anb ∨ codec = .awb)
    (hframes : ∀ f ∈ frames, Frame codec f) (hspaced : Spaced inc frames)
    (hend : pEnd.type = .end)
    (hspan : maxptime = 0 → inc = 0 ∨ ∀ g ∈ groups (mtu-70) 0 [] frames, g.length ≤ 2)
    (htimes : ((groups (mtu-70) (maxptime*90) [] frames).map lead).IsChain (· ≠ ·) →
      inc = 0 ∨ frames.IsChain (Apart mtu))
    (hfit : ∀ g ∈ groups (mtu-70) (maxptime*90) [] frames, (budget g : ℤ) ≤ 8*(mtu-70)) :
    KeepsTimes mtu maxptime inc frames pEnd := by
  have hflat : (groups (mtu-70) (maxptime*90) [] frames).flatten = frames :=
    groups_flatten [] frames
  have hmem : ∀ g ∈ groups (mtu-70) (maxptime*90) [] frames, ∀ f ∈ g, f ∈ frames := by
    intro g hg f hf
    rw [← hflat]
    exact List.mem_flatten.mpr ⟨g, hg, hf⟩
  intro s hrun
  rcases packetize_timed hint hcodec hframes pEnd hfit with ⟨s', ps, e, hrun', hrouted, hkind, hall⟩
  rw [hrun] at hrun'
  cases hrun'
  rw [hend] at hkind
  constructor
  · intro hmax p hp hmedia
    rw [hrouted] at hp
    rcases List.mem_append.mp hp with hp | hp
    · rcases forall₂_mem_right hall hp with ⟨g, hg, hsent, -⟩
      rw [sent_count hsent]
      exact group_span hspaced hmax hspan hg
    · rw [List.mem_singleton.mp hp, hkind] at hmedia
      cases hmedia
  · intro t ht
    rw [hrouted, deliver_delivery ps hkind] at ht
    by_cases hchain : ((groups (mtu-70) (maxptime*90) [] frames).map lead).IsChain (· ≠ ·)
    · rcases delivery_timed hcodec hall (fun g hg f hf => hspaced.range f (hmem g hg f hf))
        (fun g hg f hf => hframes f (hmem g hg f hf)) hchain e with ⟨t', outss, n, hrun', hout, houts⟩
      rw [ht] at hrun'
      cases hrun'
      refine ⟨outss.flatten, e.setUnit n, hout, ?_⟩
      have huniform : ∀ g ∈ groups (mtu-70) (maxptime*90) [] frames, Uniform g := by
        intro g hg
        rcases htimes hchain with rfl | hapart
        · have hnext := groups_spaced hspaced g hg
          rcases List.exists_cons_of_ne_nil (groups_nonempty [] frames g hg) with ⟨f, rest, rfl⟩
          exact uniform_chain hnext
        · exact uniform_single ((groups_single mtu (maxptime*90) frames).mpr hapart g hg)
      rw [map_flatten_of _ (forall₂_imp_mem houts
        (fun g outs hg h => timedOut_dts h (huniform g hg))), hflat]
    · have hsent : List.Forall₂ (Sent (mtu-70) codec)
          (groups (mtu-70) (maxptime*90) [] frames) ps :=
        forall₂_imp_mem hall (fun _ _ _ h => h.1)
      rcases delivery_error hcodec hsent (fun g hg f hf => hframes f (hmem g hg f hf)) hchain e
        with ⟨e', t', he⟩
      rw [he] at ht
      cases ht

/-- What goes wrong in a run that packetizes. -/
theorem of_keeps_times (hint : mtu < 2^31) (hcodec : codec = .anb ∨ codec = .awb)
    (hframes : ∀ f ∈ frames, Frame codec f) (hspaced : Spaced inc frames)
    (hend : pEnd.type = .end)
    (hfit : ∀ g ∈ groups (mtu-70) (maxptime*90) [] frames, (budget g : ℤ) ≤ 8*(mtu-70))
    (h : KeepsTimes mtu maxptime inc frames pEnd) :
    (maxptime = 0 → inc = 0 ∨ ∀ g ∈ groups (mtu-70) 0 [] frames, g.length ≤ 2) ∧
      (((groups (mtu-70) (maxptime*90) [] frames).map lead).IsChain (· ≠ ·) →
        inc = 0 ∨ frames.IsChain (Apart mtu)) := by
  have hflat : (groups (mtu-70) (maxptime*90) [] frames).flatten = frames :=
    groups_flatten [] frames
  have hmem : ∀ g ∈ groups (mtu-70) (maxptime*90) [] frames, ∀ f ∈ g, f ∈ frames := by
    intro g hg f hf
    rw [← hflat]
    exact List.mem_flatten.mpr ⟨g, hg, hf⟩
  rcases packetize_timed hint hcodec hframes pEnd hfit with ⟨s, ps, e, hrun, hrouted, hkind, hall⟩
  rw [hend] at hkind
  obtain ⟨hspan, htimes⟩ := h s hrun
  constructor
  · rintro rfl
    by_cases hinc : inc = 0
    · exact Or.inl hinc
    · right
      intro g hg
      rcases forall₂_mem_left hall (by rwa [zero_mul]) with ⟨p, hp, hsent, -⟩
      have hle := hspan le_rfl p (by rw [hrouted]; exact List.mem_append_left _ hp)
        (sent_media hsent)
      rw [sent_count hsent, zero_mul, zero_add] at hle
      have hpos := hspaced.duration
      by_contra hlong
      have hmany : (2 : ℤ) ≤ (g.length : ℤ)-1 := by omega
      have hmul := mul_le_mul_of_nonneg_right hmany hpos
      omega
  · intro hchain
    rcases delivery_timed hcodec hall (fun g hg f hf => hspaced.range f (hmem g hg f hf))
      (fun g hg f hf => hframes f (hmem g hg f hf)) hchain e with ⟨t, outss, n, hrun', hout, houts⟩
    rcases htimes t (by rw [hrouted, deliver_delivery ps hkind]; exact hrun') with
      ⟨outs, e', hout', hdts⟩
    obtain rfl : outs = outss.flatten :=
      (List.append_inj' (hout'.symm.trans hout) rfl).1
    rw [← hflat] at hdts
    have hpieces := forall₂_of_flatten _ houts hdts
    by_cases hinc : inc = 0
    · exact Or.inl hinc
    · right
      rw [← groups_single mtu (maxptime*90)]
      intro g hg
      rcases forall₂_mem_left hpieces hg with ⟨outs, -, hout, heq⟩
      exact (timedOut_inc hout heq (groups_spaced hspaced g hg)).resolve_left hinc

end

/-- A frame of 20 ms, the `k`-th of its stream. -/
def spoken (iType k : ℕ) : MediaPacket :=
  { silence iType k with dts := 1800*k, inc := 1800 }

theorem spoken_frame {iType : ℕ} (h : iType < 8) (k : ℕ) : Frame .anb (spoken iType k) := by
  have hframe := silence_frame iType h k
  exact ⟨rfl, rfl, hframe.known, hframe.header, hframe.size, hframe.padding, rfl⟩

theorem spoken_spaced : Spaced 1800 [spoken 7 0, spoken 7 1] :=
  ⟨by decide, by decide, by decide, by decide⟩

end Sirannon.AMR
