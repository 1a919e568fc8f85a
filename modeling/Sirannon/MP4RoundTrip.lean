import Sirannon.MP4Receiving

/-!
# MPEG-4 round trip

Every audio frame comes through the packetizer and the unpacketizer. Video
frames do as long as no two of them share a packet, because nothing in a video
packet tells where one frame ends and the next begins.
-/

set_option autoImplicit false

namespace Sirannon.MP4
open MachineInt Bits Media Packetization StateError

/-! ## How frames are grouped -/

/-- The frames taken so far: those of the groups, then those on the stack. -/
def Stacked.taken (a : Stacked) : List MediaPacket := a.groups.flatten ++ a.stack

/-- Groups are neither empty nor larger than a packet may hold. -/
structure Stacked.Sound (a : Stacked) : Prop where
  groups : ∀ g ∈ a.groups, g ≠ [] ∧ g.length ≤ iMax
  stack : a.stack.length ≤ iMax

theorem sound_snoc {a : Stacked} {g : List MediaPacket} (h : a.Sound) (hne : g ≠ [])
    (hlen : g.length ≤ iMax) (stack : List MediaPacket) (hstack : stack.length ≤ iMax) :
    Stacked.Sound ⟨a.groups ++ [g], stack⟩ := by
  constructor
  · intro g' hg'
    rcases List.mem_append.mp hg' with hg' | hg'
    · exact h.groups g' hg'
    · rw [List.mem_singleton.mp hg']
      exact ⟨hne, hlen⟩
  · exact hstack

theorem close_sound {a : Stacked} (h : a.Sound) : a.close.Sound := by
  rw [Stacked.close]
  split_ifs with hstack
  · exact ⟨h.groups, Nat.zero_le iMax⟩
  · exact sound_snoc h hstack h.stack [] (Nat.zero_le iMax)

theorem single_sound {a : Stacked} (h : a.Sound) (f : MediaPacket) : (a.single f).Sound :=
  sound_snoc h (by simp) (by simp [iMax]) a.stack h.stack

theorem push_sound {a : Stacked} (h : a.Sound) (hshort : a.stack.length < iMax)
    (f : MediaPacket) : (a.push f).Sound := by
  have hmore : Stacked.Sound ⟨a.groups, a.stack ++ [f]⟩ :=
    ⟨h.groups, by rw [List.length_append, List.length_singleton]; exact hshort⟩
  rw [Stacked.push]
  split_ifs
  · exact close_sound hmore
  · exact hmore

theorem groupStep_sound {iMTU : ℤ} {b : Bool} {a : Stacked} (h : a.Sound)
    (hshort : a.stack.length < iMax) (f : MediaPacket) : (groupStep iMTU b a f).Sound := by
  rw [groupStep, Stacked.step]
  split_ifs
  · exact single_sound h f
  · exact single_sound (close_sound h) f
  · exact push_sound (close_sound h) (close_short a) f
  · exact push_sound h hshort f

theorem close_taken (a : Stacked) : a.close.taken = a.taken := by
  rw [Stacked.close]
  split_ifs with hstack
  · simp [Stacked.taken, hstack]
  · simp [Stacked.taken]

theorem push_taken (a : Stacked) (f : MediaPacket) : (a.push f).taken = a.taken ++ [f] := by
  rw [Stacked.push]
  split_ifs
  · rw [close_taken]
    simp [Stacked.taken]
  · simp [Stacked.taken]

theorem single_taken {a : Stacked} (f : MediaPacket) (h : a.stack = []) :
    (a.single f).taken = a.taken ++ [f] := by
  simp [Stacked.taken, Stacked.single, h]

theorem step_taken (iMTU : ℤ) (a : Stacked) (f : MediaPacket) :
    (a.step iMTU f).taken = a.taken ++ [f] := by
  rw [Stacked.step]
  split_ifs
  · rw [single_taken f (close_stack a), close_taken]
  · rw [push_taken, close_taken]
  · rw [push_taken]

/-- Frames that bypass the stack bypass it all along. -/
theorem fold_taken (iMTU : ℤ) (b : Bool) {codec : CodecType} {frames : List MediaPacket}
    (hframes : ∀ f ∈ frames, f.codec = codec) {a : Stacked} (hsound : a.Sound)
    (hshort : a.stack.length < iMax) (hdirect : b = false → codec = .mp4a → a.stack = []) :
    (frames.foldl (groupStep iMTU b) a).taken = a.taken ++ frames ∧
      (frames.foldl (groupStep iMTU b) a).Sound := by
  induction frames generalizing a with
  | nil => simpa using hsound
  | cons f frames ih =>
    have hf := hframes f List.mem_cons_self
    have hstep : (groupStep iMTU b a f).taken = a.taken ++ [f] ∧
        (b = false → codec = .mp4a → (groupStep iMTU b a f).stack = []) := by
      rw [groupStep, hf]
      by_cases hd : b = false ∧ codec = .mp4a
      · rw [if_pos hd]
        exact ⟨single_taken f (hdirect hd.1 hd.2), hdirect⟩
      · rw [if_neg hd]
        exact ⟨step_taken iMTU a f, fun hb hc => absurd ⟨hb, hc⟩ hd⟩
    rcases ih (fun g hg => hframes g (List.mem_cons_of_mem f hg))
      (groupStep_sound hsound hshort f) (groupStep_short hshort) hstep.2 with ⟨htaken, hsound'⟩
    refine ⟨?_, hsound'⟩
    rw [List.foldl_cons, htaken, hstep.1, List.append_assoc]
    rfl

theorem grouping_flatten (iMTU : ℤ) (b : Bool) {codec : CodecType} {frames : List MediaPacket}
    (hframes : ∀ f ∈ frames, f.codec = codec) :
    (grouping iMTU b frames).flatten = frames ∧
      ∀ g ∈ grouping iMTU b frames, g ≠ [] ∧ g.length ≤ iMax := by
  have hnew : Stacked.Sound ⟨[], []⟩ := ⟨by simp, by simp⟩
  rcases fold_taken iMTU b hframes hnew (by decide) (fun _ _ => rfl) with
    ⟨htaken, hsound⟩
  refine ⟨?_, (close_sound hsound).groups⟩
  have hclose := close_taken (frames.foldl (groupStep iMTU b) ⟨[], []⟩)
  rw [htaken, Stacked.taken, close_stack, List.append_nil] at hclose
  rw [grouping, hclose]
  rfl

/-! ## Frames that travel alone -/

/-- Two frames in a row do not fit in one packet. -/
def Apart (iMTU : ℤ) (f g : MediaPacket) : Prop := iMTU < 6+f.size+g.size

/-- Every frame taken leaves in a packet of its own so far. -/
structure Stacked.Alone (iMTU : ℤ) (a : Stacked) : Prop where
  groups : ∀ g ∈ a.groups, g.length = 1
  stack : a.stack.length ≤ 1
  chain : a.taken.IsChain (Apart iMTU)
  last : a.stack = [] → ∀ f ∈ a.taken.getLast?, iMTU < (f.size : ℤ)+4

/-- Some frames share a packet, or will. -/
structure Stacked.Shared (iMTU : ℤ) (a : Stacked) : Prop where
  group : (∃ g ∈ a.groups, 2 ≤ g.length) ∨ 2 ≤ a.stack.length
  chain : ¬ a.taken.IsChain (Apart iMTU)

theorem chain_snoc {iMTU : ℤ} {fs : List MediaPacket} {f : MediaPacket} :
    (fs ++ [f]).IsChain (Apart iMTU) ↔
      fs.IsChain (Apart iMTU) ∧ ∀ g ∈ fs.getLast?, Apart iMTU g f := by
  rw [List.isChain_append]
  simp

theorem close_alone {iMTU : ℤ} {a : Stacked} (h : a.Alone iMTU) :
    ∀ g ∈ a.close.groups, g.length = 1 := by
  intro g hg
  rw [Stacked.close] at hg
  split_ifs at hg with hstack
  · exact h.groups g hg
  · rcases List.mem_append.mp hg with hg | hg
    · exact h.groups g hg
    · rw [List.mem_singleton.mp hg]
      have := List.length_pos_of_ne_nil hstack
      have := h.stack
      omega

/-- A frame too large to share a packet leaves at once. -/
theorem alone_big {iMTU : ℤ} {a : Stacked} {f : MediaPacket} (h : a.Alone iMTU)
    (hbig : iMTU < (f.size : ℤ)+4) : (a.close.single f).Alone iMTU := by
  have htaken : (a.close.single f).taken = a.taken ++ [f] := by
    rw [single_taken f (close_stack a), close_taken]
  constructor
  · intro g hg
    rcases List.mem_append.mp hg with hg | hg
    · exact close_alone h g hg
    · rw [List.mem_singleton.mp hg]
      rfl
  · exact Nat.zero_le 1
  · rw [htaken, chain_snoc]
    refine ⟨h.chain, fun g _ => ?_⟩
    rw [Apart]
    omega
  · intro _ g hg
    rw [htaken, List.getLast?_append_of_ne_nil _ (by simp)] at hg
    simp only [List.getLast?_singleton, Option.mem_some_iff] at hg
    rwa [← hg]

/-- A frame waits alone when it fits with none of the frames before it. -/
theorem alone_wait {iMTU : ℤ} {a : Stacked} {f : MediaPacket}
    (hgroups : ∀ g ∈ a.groups, g.length = 1) (hstack : a.stack = [])
    (hchain : (a.taken ++ [f]).IsChain (Apart iMTU)) : (a.push f).Alone iMTU := by
  have hpush : a.push f = ⟨a.groups, [f]⟩ := by
    rw [Stacked.push, hstack]
    rfl
  constructor
  · rw [hpush]
    exact hgroups
  · rw [hpush]
    rfl
  · rw [push_taken]
    exact hchain
  · intro hnil
    rw [hpush] at hnil
    exact absurd hnil (by simp)

/-- Two frames that fit in one packet are going to share it. -/
theorem shared_pair {iMTU : ℤ} {a : Stacked} {f x : MediaPacket} (hstack : a.stack = [x])
    (hfits : 6+(x.size : ℤ)+f.size ≤ iMTU) : (a.push f).Shared iMTU := by
  have hpush : a.push f = ⟨a.groups, [x, f]⟩ := by
    rw [Stacked.push, hstack]
    rfl
  constructor
  · right
    rw [hpush]
    rfl
  · rw [push_taken, Stacked.taken, hstack, chain_snoc]
    rintro ⟨-, hlast⟩
    have := hlast x (by simp)
    rw [Apart] at this
    omega

theorem alone_step {iMTU : ℤ} {a : Stacked} (h : a.Alone iMTU) (f : MediaPacket) :
    (a.step iMTU f).Alone iMTU ∨ (a.step iMTU f).Shared iMTU := by
  rw [Stacked.step]
  by_cases hbig : iMTU < (f.size : ℤ)+4
  · rw [if_pos hbig]
    exact .inl (alone_big h hbig)
  · rw [if_neg hbig]
    cases hstack : a.stack with
    | nil =>
      have hnot : ¬ iMTU < 2+((([] : List MediaPacket).length : ℤ)+1)*2+sizes []+f.size := by
        simp only [List.length_nil, sizes, List.map_nil, List.sum_nil, Nat.cast_zero]
        omega
      rw [if_neg hnot]
      left
      apply alone_wait h.groups hstack
      rw [chain_snoc]
      refine ⟨h.chain, fun g hg => ?_⟩
      have := h.last hstack g hg
      rw [Apart]
      omega
    | cons x rest =>
      have hlen := h.stack
      rw [hstack, List.length_cons] at hlen
      have hrest : rest = [] := List.length_eq_zero_iff.mp (by omega)
      subst hrest
      have hsum : 2+((([x] : List MediaPacket).length : ℤ)+1)*2+sizes [x]+f.size =
          6+x.size+f.size := by
        simp [sizes]
      rw [hsum]
      by_cases hover : iMTU < 6+x.size+f.size
      · rw [if_pos hover]
        left
        apply alone_wait (close_alone h) (close_stack a)
        rw [close_taken, chain_snoc]
        refine ⟨h.chain, fun g hg => ?_⟩
        rw [Stacked.taken, hstack, List.getLast?_append_of_ne_nil _ (by simp)] at hg
        simp only [List.getLast?_singleton, Option.mem_some_iff] at hg
        rw [← hg]
        exact hover
      · rw [if_neg hover]
        exact .inr (shared_pair hstack (by omega))

theorem close_shared {a : Stacked} (h : (∃ g ∈ a.groups, 2 ≤ g.length) ∨ 2 ≤ a.stack.length) :
    ∃ g ∈ a.close.groups, 2 ≤ g.length := by
  rw [Stacked.close]
  rcases h with ⟨g, hg, hlen⟩ | hlen
  · split_ifs
    · exact ⟨g, hg, hlen⟩
    · exact ⟨g, List.mem_append_left _ hg, hlen⟩
  · rw [if_neg (List.ne_nil_of_length_pos (by omega))]
    exact ⟨a.stack, by simp, hlen⟩

theorem push_shared {a : Stacked} (f : MediaPacket)
    (h : (∃ g ∈ a.groups, 2 ≤ g.length) ∨ 2 ≤ a.stack.length) :
    (∃ g ∈ (a.push f).groups, 2 ≤ g.length) ∨ 2 ≤ (a.push f).stack.length := by
  have hmore : (∃ g ∈ a.groups, 2 ≤ g.length) ∨ 2 ≤ (a.stack ++ [f]).length := by
    rw [List.length_append, List.length_singleton]
    rcases h with h | h
    · exact .inl h
    · exact .inr (by omega)
  rw [Stacked.push]
  split_ifs
  · exact .inl (close_shared hmore)
  · exact hmore

theorem shared_step {iMTU : ℤ} {a : Stacked} (h : a.Shared iMTU) (f : MediaPacket) :
    (a.step iMTU f).Shared iMTU := by
  constructor
  · rw [Stacked.step]
    split_ifs
    · rcases close_shared h.group with ⟨g, hg, hlen⟩
      exact .inl ⟨g, List.mem_append_left _ hg, hlen⟩
    · exact push_shared f (.inl (close_shared h.group))
    · exact push_shared f h.group
  · rw [step_taken, chain_snoc]
    exact fun hchain => h.chain hchain.1

theorem fold_alone_or_shared {iMTU : ℤ} {b : Bool} {frames : List MediaPacket}
    (hframes : ∀ f ∈ frames, f.codec ≠ .mp4a) {a : Stacked}
    (h : a.Alone iMTU ∨ a.Shared iMTU) :
    (frames.foldl (groupStep iMTU b) a).Alone iMTU ∨
      (frames.foldl (groupStep iMTU b) a).Shared iMTU := by
  induction frames generalizing a with
  | nil => exact h
  | cons f frames ih =>
    have hf := hframes f List.mem_cons_self
    rw [List.foldl_cons, groupStep, if_neg fun hd => hf hd.2]
    apply ih fun g hg => hframes g (List.mem_cons_of_mem f hg)
    rcases h with h | h
    · exact alone_step h f
    · exact .inr (shared_step h f)

/-- Video frames travel alone exactly when no two in a row fit in one packet. -/
theorem grouping_video (iMTU : ℤ) (b : Bool) {frames : List MediaPacket}
    (hframes : ∀ f ∈ frames, f.codec = .mp4v) :
    (∀ g ∈ grouping iMTU b frames, g.length = 1) ∧ frames.IsChain (Apart iMTU) ∨
      (∃ g ∈ grouping iMTU b frames, 2 ≤ g.length) ∧ ¬ frames.IsChain (Apart iMTU) := by
  have hnew : Stacked.Alone iMTU ⟨[], []⟩ :=
    ⟨by simp, by simp, by simp [Stacked.taken], by simp [Stacked.taken]⟩
  have hsound : Stacked.Sound ⟨[], []⟩ := ⟨by simp, by simp⟩
  have htaken := (fold_taken iMTU b hframes hsound (by decide)
    (fun _ _ => rfl)).1
  have hnil : Stacked.taken ⟨[], []⟩ = [] := by simp [Stacked.taken]
  rw [hnil, List.nil_append] at htaken
  rcases fold_alone_or_shared (b := b) (fun f hf => by rw [hframes f hf]; decide) (.inl hnew) with
    h | h
  · left
    have hchain := h.chain
    rw [htaken] at hchain
    exact ⟨close_alone h, hchain⟩
  · right
    have hchain := h.chain
    rw [htaken] at hchain
    exact ⟨close_shared h.group, hchain⟩

/-! ## Delivery -/

/-- The packets of one group, a part of them already stored. -/
theorem deliver_rest {f : MediaPacket} (hf : f.type = .media) {ps : List MediaPacket}
    (hps : ∀ p ∈ ps, Marked f p) {q : List MediaPacket} {back : MediaPacket}
    (hback : Marked f back) {s : MP4Unpacketizer} (hs : s.vBuffer = q ++ [back]) :
    (forM ps deliver).run s = .ok () { s with vBuffer := s.vBuffer ++ ps } := by
  induction ps generalizing q back s with
  | nil =>
    rw [List.append_nil]
    rfl
  | cons p ps ih =>
    have hp := hps p List.mem_cons_self
    have hold : s.isNew p = false := by
      rw [Bool.eq_false_iff, Ne, isNew_iff p hs, not_not]
      simp only [numbers, hback.framenumber, hback.subframenumber, hp.framenumber,
        hp.subframenumber]
    have hstep : (deliver p).run s = .ok () (s.stored p) := by
      rw [deliver, hp.type, hf]
      exact receive_stored hold
    rw [List.forM_cons, run_bind_of_ok hstep,
      ih (fun p' hp' => hps p' (List.mem_cons_of_mem p hp')) hp (q := s.vBuffer) (s := s.stored p)
        rfl]
    simp [Unpacketizer.stored]

/-- A group is stored as a whole once its first packet is. -/
theorem deliver_group {f : MediaPacket} (hf : f.type = .media) {p : MediaPacket}
    {ps : List MediaPacket} (hps : ∀ p' ∈ p::ps, Marked f p') {s t : MP4Unpacketizer}
    (hstep : (deliver p).run s = .ok () t) (ht : t.vBuffer = [p]) :
    (forM (p::ps) deliver).run s = .ok () { t with vBuffer := p::ps } := by
  rw [List.forM_cons, run_bind_of_ok hstep,
    deliver_rest hf (fun p' hp' => hps p' (List.mem_cons_of_mem p hp')) (hps p List.mem_cons_self)
      (q := []) ht, ht]
  rfl

/-- What is sent for one frame or for several, and the frames it is sent for. -/
structure Sent (codec : CodecType) (g : List MediaPacket × List MediaPacket) : Prop where
  group : Group g.1 g.2
  count : g.1.length ≤ iMax
  ready : ∀ f ∈ g.1, Ready codec f

theorem unpacked_unpacked {s t u : MP4Unpacketizer} {fs gs : List (List UInt8)}
    (h : Unpacked s fs t) {q : List MediaPacket} (h' : Unpacked { t with vBuffer := q } gs u) :
    Unpacked s (fs ++ gs) u := by
  rcases h.routed with ⟨outs, hrouted, hmap⟩
  rcases h'.routed with ⟨outs', hrouted', hmap'⟩
  constructor
  · exact h'.buffer
  · refine ⟨outs ++ outs', ?_, by rw [List.map_append, hmap, hmap']⟩
    rw [hrouted']
    show t.routed ++ outs' = s.routed ++ (outs ++ outs')
    rw [hrouted, List.append_assoc]

/-- A group is unpacked when the next one arrives, and the last one by the end packet. -/
theorem deliver_groups {codec : CodecType} (hcodec : codec = .mp4a ∨ codec = .mp4v)
    {gs : List (List MediaPacket × List MediaPacket)} {g : List MediaPacket × List MediaPacket}
    (hall : ∀ g' ∈ g::gs, Sent codec g')
    (hnumbers : (((g::gs).flatMap Prod.fst).map fun f => f.framenumber).Nodup)
    {s : MP4Unpacketizer} (hs : s.vBuffer = g.2) :
    ∃ t, (do forM (gs.flatMap Prod.snd) deliver; unpack).run s = .ok () t ∧
      Unpacked s ((g::gs).flatMap fun g => restored codec g.1) t := by
  have hg := hall g List.mem_cons_self
  rcases unpack_group hg.group hcodec hg.ready hg.count hs with ⟨t, hrun, hout⟩
  induction gs generalizing g s t with
  | nil =>
    refine ⟨t, hrun, ?_⟩
    rwa [List.flatMap_singleton]
  | cons g' gs ih =>
    have hg' := hall g' (by simp)
    rcases group_front hg.group with ⟨f, fs, p, ps, hfs, hps, hmarked⟩
    rcases group_front hg'.group with ⟨f', fs', p', ps', hfs', hps', hmarked'⟩
    have hmedia : f'.type = .media := (hg'.ready f' (by rw [hfs']; simp)).type
    have hp' := hmarked' p' (by rw [hps']; simp)
    have hapart : f.framenumber ≠ f'.framenumber := by
      rw [List.flatMap_cons, List.map_append, List.nodup_append] at hnumbers
      apply hnumbers.2.2
      · rw [hfs]
        simp
      · rw [List.flatMap_cons, hfs']
        simp
    rcases List.eq_nil_or_concat g.2 with hnil | ⟨q, back, hback⟩
    · rw [hps] at hnil
      exact absurd hnil (by simp)
    rw [List.concat_eq_append] at hback
    have hnew : s.isNew p' = true := by
      rw [isNew_iff p' (hs.trans hback), numbers, numbers, Ne, Prod.mk.injEq, not_and_or,
        (hmarked back (by rw [hback]; simp)).framenumber, hp'.framenumber]
      exact .inl hapart
    have hstep : (deliver p').run s = .ok () (t.stored p') := by
      rw [deliver, hp'.type, hmedia]
      exact receive_unpacked hnew hrun
    have hstored := deliver_group hmedia (by rw [← hps']; exact hmarked') hstep
      (by rw [Unpacketizer.stored, hout.buffer]; rfl)
    rw [← hps'] at hstored
    rcases unpack_group hg'.group hcodec hg'.ready hg'.count
      (s := { t.stored p' with vBuffer := g'.2 }) rfl with ⟨u, hrun', hout'⟩
    rcases ih (fun g'' hg'' => hall g'' (List.mem_cons_of_mem g hg''))
      (by rw [List.flatMap_cons, List.map_append] at hnumbers; exact hnumbers.of_append_right)
      rfl hg' u hrun' hout' with ⟨v, hruns, houts⟩
    refine ⟨v, ?_, ?_⟩
    · rw [List.flatMap_cons, List.forM_append, bind_assoc, run_bind_of_ok hstored]
      exact hruns
    · rw [List.flatMap_cons]
      exact unpacked_unpacked hout houts

theorem deliver_end {pEnd : MediaPacket} (h : pEnd.type = .end) :
    forM [pEnd] deliver = Unpacketizer.receive_end unpack pEnd := by
  rw [List.forM_cons, List.forM_nil, deliver, h]
  exact bind_pure_unit

/-- The packets of all groups and then the end packet, given to a new unpacketizer. -/
theorem deliver_run {codec : CodecType} (hcodec : codec = .mp4a ∨ codec = .mp4v)
    {gs : List (List MediaPacket × List MediaPacket)} (hne : gs ≠ [])
    (hall : ∀ g ∈ gs, Sent codec g)
    (hnumbers : ((gs.flatMap Prod.fst).map fun f => f.framenumber).Nodup) (pEnd : MediaPacket)
    (hend : pEnd.type = .end) :
    ∃ t outs n, (forM (gs.flatMap Prod.snd ++ [pEnd]) deliver).run (Unpacketizer.init ()) =
        .ok () t ∧ t.routed = outs ++ [pEnd.setUnit n] ∧
      outs.map MediaPacket.bytes = gs.flatMap fun g => restored codec g.1 := by
  rcases List.exists_cons_of_ne_nil hne with ⟨g, gs, rfl⟩
  have hg := hall g List.mem_cons_self
  rcases group_front hg.group with ⟨f, fs, p, ps, hfs, hps, hmarked⟩
  have hmedia : f.type = .media := (hg.ready f (by rw [hfs]; simp)).type
  have hp := hmarked p (by rw [hps]; simp)
  have hstep : (deliver p).run (Unpacketizer.init ()) = .ok () ((Unpacketizer.init ()).stored p) := by
    rw [deliver, hp.type, hmedia]
    exact receive_stored (isNew_empty p rfl)
  have hstored := deliver_group hmedia (by rw [← hps]; exact hmarked) hstep rfl
  rw [← hps] at hstored
  rcases deliver_groups hcodec hall hnumbers
    (s := { (Unpacketizer.init ()).stored p with vBuffer := g.2 }) rfl with ⟨t, hrun, hout⟩
  rcases hout.routed with ⟨outs, hrouted, hmap⟩
  refine ⟨t.emit pEnd, outs, t.iUnit, ?_, ?_, hmap⟩
  · rw [List.flatMap_cons, List.append_assoc, List.forM_append, run_bind_of_ok hstored,
      List.forM_append]
    rw [deliver_end hend, Unpacketizer.receive_end, ← bind_assoc, run_bind_of_ok hrun]
    rfl
  · rw [Unpacketizer.emit, hrouted]
    rfl

/-! ## Round trip -/

/-- The bytes of a frame that are carried: the header of an audio frame is not. -/
def payload (f : MediaPacket) : List UInt8 := if f.codec = .mp4a then f.bytes.drop 7 else f.bytes

/-- Packetizing and unpacketizing raise no error and give back the frames and then the end. -/
def RoundTrip (mtu : ℤ) (bAggregate : Bool) (frames : List MediaPacket) (pEnd : MediaPacket) :
    Prop :=
  ∃ s t outs e, (packetize frames pEnd).run (MP4Packetizer.init mtu bAggregate) = .ok () s ∧
    (forM s.routed deliver).run (Unpacketizer.init ()) = .ok () t ∧
    t.routed = outs ++ [e] ∧ e.type = .end ∧ outs.map MediaPacket.bytes = frames.map payload

theorem prepared_bytes (f : MediaPacket) : (prepared f).bytes = payload f := by
  rw [prepared, payload]
  split_ifs
  · rfl
  · rfl

theorem prepared_ready {codec : CodecType} {f : MediaPacket} (h : Input codec f) :
    Ready codec (prepared f) := by
  constructor
  · rw [← h.type, prepared]
    split_ifs
    · rfl
    · rfl
  · rfl
  · intro hc
    have hsize := h.audio hc
    have hf : f.codec = .mp4a := by rw [h.codec, hc]
    rw [MediaPacket.size] at hsize
    rw [MediaPacket.size, prepared_bytes, payload, if_pos hf, List.length_drop]
    omega
  · rw [prepared_codec, h.codec]

theorem prepared_number (f : MediaPacket) : (prepared f).framenumber = f.framenumber := by
  rw [prepared]
  split_ifs
  · rfl
  · rfl

theorem restored_audio (groups : List (List MediaPacket)) :
    groups.flatMap (restored .mp4a) = groups.flatten.map MediaPacket.bytes := by
  induction groups with
  | nil => rfl
  | cons g groups ih =>
    rw [List.flatMap_cons, ih, List.flatten_cons, List.map_append, restored, if_pos rfl]

theorem restored_alone {groups : List (List MediaPacket)} (h : ∀ g ∈ groups, g.length = 1) :
    groups.flatMap (restored .mp4v) = groups.flatten.map MediaPacket.bytes := by
  induction groups with
  | nil => rfl
  | cons g groups ih =>
    rcases List.length_eq_one_iff.mp (h g List.mem_cons_self) with ⟨f, rfl⟩
    rw [List.flatMap_cons, ih fun g hg => h g (List.mem_cons_of_mem _ hg), List.flatten_cons,
      List.map_append, restored, if_neg (by decide)]
    simp [allBytes]

theorem restored_video_length (groups : List (List MediaPacket)) :
    (groups.flatMap (restored .mp4v)).length = groups.length := by
  induction groups with
  | nil => rfl
  | cons g groups ih =>
    rw [List.flatMap_cons, List.length_append, ih, restored, if_neg (by decide),
      List.length_singleton, List.length_cons, Nat.add_comm]

theorem length_lt_flatten {groups : List (List MediaPacket)} (hne : ∀ g ∈ groups, g ≠ [])
    (h : ∃ g ∈ groups, 2 ≤ g.length) : groups.length < groups.flatten.length := by
  rw [List.length_flatten]
  rcases h with ⟨g, hg, hlen⟩
  have hsum : (groups.map fun _ => 1).sum < (groups.map List.length).sum := by
    apply List.sum_lt_sum
    · intro g hg
      exact List.length_pos_of_ne_nil (hne g hg)
    · exact ⟨g, hg, hlen⟩
  simpa using hsum

section
variable {mtu : ℤ} {b : Bool} {codec : CodecType} {frames : List MediaPacket} {pEnd : MediaPacket}

/-- What arrives is what the groups restore. -/
theorem arrives (hMTU : 8 < (MP4Packetizer.init mtu b).iMTU) (hint : mtu < 2^31)
    (hcodec : codec = .mp4a ∨ codec = .mp4v) (hframes : ∀ f ∈ frames, Input codec f)
    (hnumbers : (frames.map fun f => f.framenumber).Nodup) (hend : pEnd.type = .end)
    (hne : frames ≠ []) :
    ∃ s t outs e, (packetize frames pEnd).run (MP4Packetizer.init mtu b) = .ok () s ∧
      (forM s.routed deliver).run (Unpacketizer.init ()) = .ok () t ∧
      t.routed = outs ++ [e] ∧ e.type = .end ∧ outs.map MediaPacket.bytes =
        (grouping (MP4Packetizer.init mtu b).iMTU b (frames.map prepared)).flatMap
          (restored codec) := by
  rcases packetize_run (b := b) pEnd (by omega) hint hcodec hframes with
    ⟨s, n, gs, hrun, hrouted, hgroups, hall⟩
  have hcodecs : ∀ f ∈ frames.map prepared, f.codec = codec := by
    intro f hf
    rcases List.mem_map.mp hf with ⟨f', hf', rfl⟩
    rw [prepared_codec, (hframes f' hf').codec]
  rcases grouping_flatten (MP4Packetizer.init mtu b).iMTU b hcodecs with
    ⟨hflat, hsound⟩
  rw [← hgroups, ← List.flatMap_def] at hflat
  have hready : ∀ g ∈ gs, Sent codec g := by
    intro g hg
    constructor
    · exact hall g hg
    · apply (hsound g.1 _).2
      rw [← hgroups]
      exact List.mem_map_of_mem hg
    · intro f hf
      have hmem : f ∈ frames.map prepared := by
        rw [← hflat]
        exact List.mem_flatMap.mpr ⟨g, hg, hf⟩
      rcases List.mem_map.mp hmem with ⟨f', hf', rfl⟩
      exact prepared_ready (hframes f' hf')
  have hsome : gs ≠ [] := by
    rintro rfl
    rw [List.flatMap_nil] at hflat
    exact hne (List.map_eq_nil_iff.mp hflat.symm)
  have hdistinct : ((gs.flatMap Prod.fst).map fun f => f.framenumber).Nodup := by
    rw [hflat, List.map_map]
    simpa [Function.comp_def, prepared_number] using hnumbers
  rcases deliver_run hcodec hsome hready hdistinct
    (({ pEnd with mux := .RTP } : MediaPacket).setUnit n) hend with
    ⟨t, outs, n', hdeliver, hout, hmap⟩
  refine ⟨s, t, outs, _, hrun, by rw [hrouted]; exact hdeliver, hout, hend, ?_⟩
  rw [hmap, ← hgroups, List.flatMap_map]

/-- Nothing is in the buffer when an end packet comes first. -/
theorem no_frames (hend : pEnd.type = .end) : ¬ RoundTrip mtu b [] pEnd := by
  rintro ⟨s, t, outs, e, hrun, hdeliver, -⟩
  have hpack : (packetize [] pEnd).run (MP4Packetizer.init mtu b) =
      .ok () ((MP4Packetizer.init mtu b).number { pEnd with mux := .RTP }) := rfl
  rw [hpack] at hrun
  injection hrun with _ hs
  have hrouted : s.routed = [({ pEnd with mux := .RTP } : MediaPacket).setUnit 0] := by
    rw [← hs]
    rfl
  have hunpack : unpack.run (Unpacketizer.init ()) =
      .error (undefinedBehaviour "front of an empty queue") (Unpacketizer.init ()) := rfl
  rw [hrouted, deliver_end (by exact hend), Unpacketizer.receive_end,
    run_bind_of_error hunpack] at hdeliver
  contradiction

theorem prepared_apart {iMTU : ℤ} (hframes : ∀ f ∈ frames, Input .mp4v f) :
    (frames.map prepared).IsChain (Apart iMTU) ↔ frames.IsChain (Apart iMTU) := by
  have hsize : ∀ f ∈ frames, (prepared f).size = f.size := by
    intro f hf
    rw [MediaPacket.size, prepared_bytes, payload, if_neg (by rw [(hframes f hf).codec]; decide)]
    rfl
  rw [List.isChain_map]
  constructor
  · apply List.IsChain.imp_of_mem_imp
    intro f g hf hg h
    rwa [Apart, hsize f hf, hsize g hg] at h
  · apply List.IsChain.imp_of_mem_imp
    intro f g hf hg h
    rwa [Apart, hsize f hf, hsize g hg]

/-- Whether the groups restore all frames is a matter of their sizes. -/
theorem restored_iff {iMTU : ℤ} (hcodec : codec = .mp4a ∨ codec = .mp4v)
    (hframes : ∀ f ∈ frames, Input codec f) :
    (grouping iMTU b (frames.map prepared)).flatMap (restored codec) = frames.map payload ↔
      (codec = .mp4v → frames.IsChain (Apart iMTU)) := by
  have hcodecs : ∀ f ∈ frames.map prepared, f.codec = codec := by
    intro f hf
    rcases List.mem_map.mp hf with ⟨f', hf', rfl⟩
    rw [prepared_codec, (hframes f' hf').codec]
  rcases grouping_flatten iMTU b hcodecs with ⟨hflat, hsound⟩
  have hpayloads : frames.map payload = (frames.map prepared).map MediaPacket.bytes := by
    rw [List.map_map]
    exact List.map_congr_left fun f _ => (prepared_bytes f).symm
  rw [hpayloads]
  rcases hcodec with rfl | rfl
  · rw [restored_audio, hflat]
    simp
  · rw [← prepared_apart hframes]
    rcases grouping_video iMTU b hcodecs with ⟨halone, hchain⟩ | ⟨hshared, hchain⟩
    · rw [restored_alone halone, hflat]
      simp [hchain]
    · constructor
      · intro heq
        have hlt := length_lt_flatten (fun g hg => (hsound g hg).1) hshared
        rw [← restored_video_length, heq, hflat, List.length_map] at hlt
        omega
      · intro h
        exact absurd (h rfl) hchain

/-- Audio frames always arrive; video frames do when no two of them share a packet. -/
theorem mp4_round_trip_iff (hMTU : 8 < (MP4Packetizer.init mtu b).iMTU) (hint : mtu < 2^31)
    (hcodec : codec = .mp4a ∨ codec = .mp4v) (hframes : ∀ f ∈ frames, Input codec f)
    (hnumbers : (frames.map fun f => f.framenumber).Nodup) (hend : pEnd.type = .end) :
    RoundTrip mtu b frames pEnd ↔ frames ≠ [] ∧
      (codec = .mp4v → frames.IsChain (Apart (MP4Packetizer.init mtu b).iMTU)) := by
  by_cases hne : frames = []
  · subst hne
    exact ⟨fun h => absurd h (no_frames hend), fun h => absurd rfl h.1⟩
  · rcases arrives hMTU hint hcodec hframes hnumbers hend hne with
      ⟨s, t, outs, e, hrun, hdeliver, hrouted, he, hmap⟩
    rw [← restored_iff (b := b) hcodec hframes]
    constructor
    · rintro ⟨s', t', outs', e', hrun', hdeliver', hrouted', -, hmap'⟩
      rw [hrun] at hrun'
      injection hrun' with _ hs
      subst hs
      rw [hdeliver] at hdeliver'
      injection hdeliver' with _ ht
      subst ht
      rw [hrouted] at hrouted'
      rw [← hmap, (List.append_inj' hrouted' rfl).1, hmap']
      exact ⟨hne, rfl⟩
    · intro h
      exact ⟨s, t, outs, e, hrun, hdeliver, hrouted, he, by rw [hmap, h.2]⟩

end

def exampleFrame (codec : CodecType) (framenumber : ℤ) (bytes : List UInt8) : MediaPacket :=
  { (MediaPacket.new .media .video bytes.length).pushed bytes with
    codec := codec, mux := .ES, framenumber := framenumber }

def exampleEnd : MediaPacket := MediaPacket.new .end .video 0

def exampleAudio : List MediaPacket :=
  [exampleFrame .mp4a 1 [0, 1, 2, 3, 4, 5, 6, 7, 8], exampleFrame .mp4a 2 [0, 1, 2, 3, 4, 5, 6, 9]]

theorem mp4_round_trip_audio :
    (8 < (MP4Packetizer.init 100 true).iMTU ∧ (100 : ℤ) < 2^31 ∧
      (∀ f ∈ exampleAudio, Input .mp4a f) ∧
      (exampleAudio.map fun f => f.framenumber).Nodup ∧ exampleEnd.type = .end) ∧
    RoundTrip 100 true exampleAudio exampleEnd := by
  have hinput : ∀ f ∈ exampleAudio, Input .mp4a f := by
    intro f hf
    simp only [exampleAudio, List.mem_cons, List.not_mem_nil, or_false] at hf
    rcases hf with rfl | rfl
    · exact ⟨rfl, rfl, fun _ => by decide, fun h => absurd rfl h, rfl⟩
    · exact ⟨rfl, rfl, fun _ => by decide, fun h => absurd rfl h, rfl⟩
  constructor
  · exact ⟨by decide, by decide, hinput, by decide, rfl⟩
  · apply (mp4_round_trip_iff (by decide) (by decide) (.inl rfl) hinput (by decide) rfl).mpr
    exact ⟨by simp [exampleAudio], fun h => absurd h (by decide)⟩

/-- The packets that come out of the unpacketizer. -/
def throughPut (mtu : ℤ) (bAggregate : Bool) (frames : List MediaPacket) (pEnd : MediaPacket) :
    List MediaPacket :=
  (after ((forM (after ((packetize frames pEnd).run (MP4Packetizer.init mtu bAggregate))).routed
    deliver).run (Unpacketizer.init ()))).routed

def exampleVideo : List MediaPacket :=
  [exampleFrame .mp4v 1 [1, 2, 3], exampleFrame .mp4v 2 [4, 5]]

/-- Two small video frames come out as one. -/
theorem mp4_round_trip_joined :
    ¬ ∀ (mtu : ℤ) (b : Bool) (frames : List MediaPacket) (pEnd : MediaPacket),
      8 < (MP4Packetizer.init mtu b).iMTU → mtu < 2^31 → (∀ f ∈ frames, Input .mp4v f) →
      (frames.map fun f => f.framenumber).Nodup → pEnd.type = .end →
      RoundTrip mtu b frames pEnd := by
  intro h
  have hinput : ∀ f ∈ exampleVideo, Input .mp4v f := by
    intro f hf
    simp only [exampleVideo, List.mem_cons, List.not_mem_nil, or_false] at hf
    rcases hf with rfl | rfl
    · exact ⟨rfl, rfl, fun hc => absurd hc (by decide), fun _ => by decide, rfl⟩
    · exact ⟨rfl, rfl, fun hc => absurd hc (by decide), fun _ => by decide, rfl⟩
  have hout : (throughPut 100 false exampleVideo exampleEnd).map MediaPacket.bytes =
      [[1, 2, 3, 4, 5], []] := by
    decide +kernel
  rcases h 100 false exampleVideo exampleEnd (by decide) (by decide) hinput (by decide) rfl with
    ⟨s, t, outs, e, hrun, hdeliver, hrouted, -, hmap⟩
  rw [throughPut, hrun] at hout
  dsimp only [after] at hout
  rw [hdeliver] at hout
  dsimp only [after] at hout
  rw [hrouted, List.map_append, hmap] at hout
  have hlen := congrArg List.length hout
  simp [exampleVideo] at hlen

end Sirannon.MP4
