import Sirannon.RTMPTagRoundTrip

/-!
# The times of the video packets

A client gives a packet the time of its message, one millisecond more if that
is the time of the packet before it. The time of the next packet is compared
with the time that was given, not with that of the message.
-/

set_option autoImplicit false

namespace Sirannon.RTMPTag
open MachineInt Bits ByteMemory Media

section
variable {C : Type}

/-- Packets go into the queue as they are. -/
def passOn : Converter C := fun c pPckt mBuffer _ => .ok (c, mBuffer++[pPckt])

/-- The packet that `handleVideo` makes of a message, in front of the converter. -/
def madePackets (pStack : Memory) (r : message_t) (s : RTMPClient C) : List MediaPacket :=
  match handleVideo passOn pStack r s with
  | .ok t => t.mBuffer.drop s.mBuffer.length
  | .error _ => []

/-- Each packet that is made of the messages, with its message. -/
def videoPackets (convertES : Converter C) (pStack : Memory) :
    List message_t → RTMPClient C → Except SirannonException (List (message_t × MediaPacket))
  | [], _ => .ok []
  | r::rs, s => do
    let t ← handleVideo convertES pStack r s
    let rest ← videoPackets convertES pStack rs t
    return (madePackets pStack r s).map (fun p => (r, p))++rest

/-! ## One message -/

/-- A packet is made of a message with a known codec that is long enough and does not hold the
extra data. -/
def carriesFrame (r : message_t) : Bool :=
  let iCodecID := (r.oBuffer.read 4).2.read 4
  match videoCodec iCodecID.1 with
  | none => false
  | some (codec, iBits) =>
    let iSuffix := iCodecID.2.read iBits
    ¬r.messageLength < iSuffix.2.v+2 ∧ ¬(codec = .avc ∧ iSuffix.1 = 0)

def givenTime (iLast iTime : ℤ) : ℤ := if iTime = iLast then int32 (iTime+90) else iTime

theorem queue_last {convertES : Converter C} {s t : RTMPClient C} {bMov bAdd : Bool}
    {p : MediaPacket} (h : s.queue convertES bMov p bAdd = .ok t) :
    t.iLastVideoDts = s.iLastVideoDts := by
  rw [RTMPClient.queue] at h
  split at h
  · rcases hrun : convertES s.oAnnexB p s.mBuffer bAdd with e | r
    · rw [hrun] at h
      cases h
    · rw [hrun] at h
      obtain rfl := Except.ok.inj h
      rfl
  · obtain rfl := Except.ok.inj h
    rfl

theorem queue_passOn (s : RTMPClient C) (bMov bAdd : Bool) (p : MediaPacket) :
    s.queue passOn bMov p bAdd = .ok (s.push p) := by
  rw [RTMPClient.queue]
  split <;> rfl

theorem setVideoExtra_last {pStack : Memory} {v w : VideoStream} {pData : List UInt8}
    (h : setVideoExtra pStack v pData = .ok w) : w.iLastVideoDts = v.iLastVideoDts := by
  rw [setVideoExtra] at h
  split at h
  · rcases hset : v.pVideoDesc.setExtraData pData with e | d
    · rw [hset] at h
      cases h
    · rw [hset] at h
      simp only [bind, Except.bind] at h
      rcases hmeta : AVCC2META pStack d with e | d'
      · rw [hmeta] at h
        cases h
      · rw [hmeta] at h
        obtain rfl := Except.ok.inj h
        rfl
  · obtain rfl := Except.ok.inj h
    rfl

theorem remaining_length (r : message_t) (b : IBits) :
    (remaining r b).length ≤ r.messageLength := by
  rw [remaining, load_length]
  omega

variable {convertES : Converter C} {pStack : Memory} {r : message_t} {s t : RTMPClient C}

/-- A message without a frame changes no time. -/
theorem handleVideo_skips (hr : carriesFrame r = false)
    (h : handleVideo convertES pStack r s = .ok t) :
    t.iLastVideoDts = s.iLastVideoDts ∧ madePackets pStack r s = [] := by
  rw [madePackets]
  rw [handleVideo] at h ⊢
  simp only [carriesFrame] at hr
  rcases hcodec : videoCodec ((r.oBuffer.read 4).2.read 4).1 with - | ⟨codec, iBits⟩
  · simp only [hcodec] at h ⊢
    obtain rfl := Except.ok.inj h
    exact ⟨rfl, List.drop_length⟩
  · simp only [hcodec] at h hr ⊢
    by_cases hshort : r.messageLength < (((r.oBuffer.read 4).2.read 4).2.read iBits).2.v+2
    · rw [if_pos hshort] at h ⊢
      obtain rfl := Except.ok.inj h
      exact ⟨rfl, List.drop_length⟩
    · have hextra : codec = .avc ∧ (((r.oBuffer.read 4).2.read 4).2.read iBits).1 = 0 := by
        simpa [hshort] using hr
      rw [if_neg hshort, if_pos hextra] at h ⊢
      rcases hset : setVideoExtra pStack s.toVideoStream
        (remaining r (((r.oBuffer.read 4).2.read 4).2.read iBits).2) with e | v
      · rw [hset] at h
        cases h
      · rw [hset] at h
        obtain rfl := Except.ok.inj h
        exact ⟨setVideoExtra_last hset, List.drop_length⟩

theorem handleVideo_makes (hr : carriesFrame r = true)
    (h : handleVideo convertES pStack r s = .ok t) :
    t.iLastVideoDts = givenTime s.iLastVideoDts (int32 (r.timestamp*90)) ∧
      ∃ p, madePackets pStack r s = [p] ∧
        p.dts = givenTime s.iLastVideoDts (int32 (r.timestamp*90)) := by
  rw [madePackets]
  rw [handleVideo] at h ⊢
  simp only [carriesFrame] at hr
  rcases hcodec : videoCodec ((r.oBuffer.read 4).2.read 4).1 with - | ⟨codec, iBits⟩
  · simp [hcodec] at hr
  · simp only [hcodec, decide_eq_true_eq] at h hr ⊢
    rw [if_neg hr.1, if_neg hr.2, new_push_back _ _ _ _ (remaining_length _ _)] at h ⊢
    simp only [bind, Except.bind, queue_passOn] at h ⊢
    exact ⟨queue_last h, _, List.drop_left, rfl⟩

theorem handleVideo_passOn (pStack : Memory) (s : RTMPClient C) (hr : carriesFrame r = true) :
    ∃ t, handleVideo passOn pStack r s = .ok t := by
  rw [handleVideo]
  simp only [carriesFrame] at hr
  rcases hcodec : videoCodec ((r.oBuffer.read 4).2.read 4).1 with - | ⟨codec, iBits⟩
  · simp [hcodec] at hr
  · simp only [hcodec, decide_eq_true_eq] at hr ⊢
    rw [if_neg hr.1, if_neg hr.2, new_push_back _ _ _ _ (remaining_length _ _)]
    simp only [bind, Except.bind, queue_passOn]
    exact ⟨_, rfl⟩

end

/-! ## Times -/

/-- The times that messages with these timestamps are given, behind the time `iLast`. -/
def givenTimes : ℤ → List ℤ → List ℤ
  | _, [] => []
  | iLast, t::ts => givenTime iLast (90*t)::givenTimes (givenTime iLast (90*t)) ts

/-- Timestamps are in milliseconds and fit when they are counted at 90 kHz. -/
def Fits (t : ℤ) : Prop := 0 ≤ t ∧ t*90 < 2^31

instance (t : ℤ) : Decidable (Fits t) := inferInstanceAs (Decidable (_ ∧ _))

def frameTimes (rs : List message_t) : List ℤ :=
  (rs.filter carriesFrame).map fun r => r.timestamp

section
variable {C : Type} {convertES : Converter C} {pStack : Memory}

theorem videoPackets_times {rs : List message_t} {s : RTMPClient C}
    {ps : List (message_t × MediaPacket)} (h : videoPackets convertES pStack rs s = .ok ps)
    (hfits : ∀ r ∈ rs, Fits r.timestamp) :
    ps.map (fun x => x.1.timestamp) = frameTimes rs ∧
      ps.map (fun x => x.2.dts) = givenTimes s.iLastVideoDts (frameTimes rs) := by
  induction rs generalizing s ps with
  | nil =>
    obtain rfl := Except.ok.inj h
    exact ⟨rfl, rfl⟩
  | cons r rs ih =>
    have hothers := fun r' hr' => hfits r' (List.mem_cons_of_mem r hr')
    rw [videoPackets] at h
    rcases hrun : handleVideo convertES pStack r s with e | t
    · rw [hrun] at h
      cases h
    · rw [hrun] at h
      simp only [bind, Except.bind] at h
      rcases hrest : videoPackets convertES pStack rs t with e | qs
      · rw [hrest] at h
        cases h
      · rw [hrest] at h
        obtain rfl := Except.ok.inj h
        rcases ih hrest hothers with ⟨htimes, hgiven⟩
        by_cases hr : carriesFrame r = true
        · rcases hfits r List.mem_cons_self with ⟨hlow, hhigh⟩
          rcases handleVideo_makes hr hrun with ⟨hlast, p, hmade, hdts⟩
          rw [int32_of_range _ (by omega) hhigh, mul_comm] at hlast hdts
          rw [frameTimes, List.filter_cons_of_pos hr, List.map_cons, ← frameTimes, hmade]
          simp only [List.map_cons, List.map_nil, List.singleton_append, givenTimes, htimes,
            hgiven, hdts, hlast, and_self]
        · rcases handleVideo_skips (Bool.not_eq_true _ ▸ hr) hrun with ⟨hlast, hmade⟩
          rw [frameTimes, List.filter_cons_of_neg hr, ← frameTimes, hmade, List.map_nil,
            List.nil_append, ← hlast]
          exact ⟨htimes, hgiven⟩

end

/-! ## Late messages -/

/-- The message with the first timestamp is late if it has the timestamp of the one before it, 0 if
there is none, or comes one millisecond behind a late one. The last message is in front. -/
def late : List ℤ → Bool
  | [] => false
  | [t] => t = 0
  | t::u::past => t = u ∨ t = u+1 ∧ late (u::past)

/-- A late message has the timestamp of another one and room for one more millisecond, and the next
message has another timestamp. -/
def Spaced (Shared : ℤ → Prop) (ts : List ℤ) : Prop :=
  ∀ past t rest, ts = past++t::rest → late (t::past.reverse) = true →
    Shared t ∧ Fits (t+1) ∧ rest.head? ≠ some t

/-- The time given to the last message. -/
def lastTime : List ℤ → ℤ
  | [] => 0
  | t::past => if late (t::past) then 90*t+90 else 90*t

attribute [grind =] lastTime

section
variable {Shared : ℤ → Prop}

/-- `Spaced` behind the messages `past`, the last one in front. -/
def SpacedFrom (Shared : ℤ → Prop) : List ℤ → List ℤ → Prop
  | _, [] => True
  | past, t::ts =>
    (late (t::past) = true → Shared t ∧ Fits (t+1)) ∧ (late past = true → past.head? ≠ some t) ∧
      SpacedFrom Shared (t::past) ts

theorem spacedFrom_iff (past ts : List ℤ) :
    SpacedFrom Shared past ts ↔ (late past = true → ∀ u, past.head? = some u → ts.head? ≠ some u) ∧
      ∀ front t rest, ts = front++t::rest → late (t::(front.reverse++past)) = true →
        Shared t ∧ Fits (t+1) ∧ rest.head? ≠ some t := by
  induction ts generalizing past with
  | nil => simp [SpacedFrom]
  | cons t ts ih =>
    rw [SpacedFrom, ih]
    constructor
    · rintro ⟨hlate, hdiffers, hnext, hrest⟩
      constructor
      · intro hpast u hu
        rw [List.head?_cons, ← hu]
        exact (hdiffers hpast).symm
      · intro front t' rest hsplit hlate'
        cases front with
        | nil =>
          obtain ⟨rfl, rfl⟩ := List.cons.inj hsplit
          exact ⟨(hlate hlate').1, (hlate hlate').2, hnext hlate' t rfl⟩
        | cons t'' front =>
          obtain ⟨rfl, rfl⟩ := List.cons.inj hsplit
          apply hrest front t' rest rfl
          simpa using hlate'
    · rintro ⟨hdiffers, hall⟩
      refine ⟨?_, ?_, ?_, ?_⟩
      · intro hlate
        have hfirst := hall [] t ts rfl hlate
        exact ⟨hfirst.1, hfirst.2.1⟩
      · intro hpast hhead
        exact hdiffers hpast t hhead rfl
      · intro hlate u hu
        obtain rfl := Option.some.inj hu
        exact (hall [] t ts rfl hlate).2.2
      · intro front t' rest hsplit hlate
        apply hall (t::front) t' rest (by rw [hsplit, List.cons_append])
        simpa using hlate

theorem spaced_iff (ts : List ℤ) : Spaced Shared ts ↔ SpacedFrom Shared [] ts := by
  rw [spacedFrom_iff]
  simp [Spaced, late]

/-- The times keep increasing behind `iLast`, and those that differ belong to shared timestamps. -/
def Increases (Shared : ℤ → Prop) : ℤ → List ℤ → Prop
  | _, [] => True
  | iLast, t::ts => (givenTime iLast (90*t) ≠ 90*t → Shared t) ∧ iLast < givenTime iLast (90*t) ∧
      Increases Shared (givenTime iLast (90*t)) ts

theorem late_iff {past : List ℤ} {t : ℤ} (hafter : ∀ u, past.head? = some u → u ≤ t)
    (hdiffers : late past = true → past.head? ≠ some t) :
    late (t::past) = true ↔ 90*t = lastTime past := by
  cases past with
  | nil =>
    rw [late, lastTime, decide_eq_true_eq]
    omega
  | cons u past =>
    have hle := hafter u rfl
    rw [late, lastTime, decide_eq_true_eq]
    by_cases hlate : late (u::past) = true
    · have hne : u ≠ t := fun heq => hdiffers hlate (by rw [heq]; rfl)
      rw [if_pos hlate]
      simp only [hlate, and_true]
      omega
    · rw [if_neg hlate, Bool.eq_false_of_not_eq_true hlate]
      simp

theorem given_late {past : List ℤ} {t : ℤ} (hafter : ∀ u, past.head? = some u → u ≤ t)
    (hdiffers : late past = true → past.head? ≠ some t) (hlate : late (t::past) = true) :
    givenTime (lastTime past) (90*t) = int32 (90*t+90) :=
  if_pos ((late_iff hafter hdiffers).mp hlate)

theorem given_prompt {past : List ℤ} {t : ℤ} (hafter : ∀ u, past.head? = some u → u ≤ t)
    (hdiffers : late past = true → past.head? ≠ some t) (hlate : ¬late (t::past) = true) :
    givenTime (lastTime past) (90*t) = 90*t :=
  if_neg fun heq => hlate ((late_iff hafter hdiffers).mpr heq)

theorem int32_room {t : ℤ} (ht : Fits t) (hroom : Fits (t+1)) : int32 (90*t+90) = 90*t+90 := by
  rcases ht with ⟨hlow, -⟩
  rcases hroom with ⟨-, hhigh⟩
  exact int32_of_range _ (by omega) (by omega)

/-- Behind the last timestamp that fits the time goes back. -/
theorem int32_wraps {t : ℤ} (ht : Fits t) (hroom : ¬Fits (t+1)) : int32 (90*t+90) < 0 := by
  rw [Fits] at ht hroom
  rw [int32, Int.bmod_def]
  split_ifs <;> omega

theorem lastTime_low {past : List ℤ} (hfits : ∀ u ∈ past, Fits u) : 0 ≤ lastTime past := by
  cases past with
  | nil => exact le_rfl
  | cons u past =>
    have hlow := (hfits u List.mem_cons_self).1
    rw [lastTime]
    split_ifs <;> omega

/-- What the next message needs behind an earlier one. -/
theorem next_iff {past : List ℤ} {t : ℤ} (hpast : past ≠ [])
    (hafter : ∀ u, past.head? = some u → u ≤ t) (hfits : ∀ u ∈ past, Fits u) (ht : Fits t) :
    ((givenTime (lastTime past) (90*t) ≠ 90*t → Shared t) ∧
      lastTime past < givenTime (lastTime past) (90*t)) ↔
    (late (t::past) = true → Shared t ∧ Fits (t+1)) ∧
      (late past = true → past.head? ≠ some t) := by
  by_cases hdiffers : late past = true → past.head? ≠ some t
  · by_cases hlate : late (t::past) = true
    · have hlast := (late_iff hafter hdiffers).mp hlate
      have hlow := lastTime_low hfits
      rw [given_late hafter hdiffers hlate]
      by_cases hroom : Fits (t+1)
      · rw [int32_room ht hroom]
        have hne : 90*t+90 ≠ 90*t := by omega
        have hlt : lastTime past < 90*t+90 := by omega
        simpa [hlate, hroom, hne, hlt] using fun _ => hdiffers
      · have hwraps := int32_wraps ht hroom
        constructor
        · intro hboth
          omega
        · intro hboth
          exact absurd (hboth.1 hlate).2 hroom
    · have hlast : lastTime past < 90*t := by
        have hne := mt (late_iff hafter hdiffers).mpr hlate
        cases past with
        | nil => exact absurd rfl hpast
        | cons u past =>
          have hle := hafter u rfl
          rw [lastTime] at hne ⊢
          by_cases hu : late (u::past) = true
          · have hdiff : u ≠ t := fun heq => hdiffers hu (by rw [heq]; rfl)
            rw [if_pos hu] at hne ⊢
            omega
          · rw [if_neg hu] at hne ⊢
            omega
      rw [given_prompt hafter hdiffers hlate]
      simpa [hlate, hlast] using hdiffers
  · push Not at hdiffers
    rcases hdiffers with ⟨hold, hhead⟩
    constructor
    · rintro ⟨-, hlt⟩
      cases past with
      | nil => cases hhead
      | cons u past =>
        obtain rfl := Option.some.inj hhead
        rw [lastTime, if_pos hold, givenTime, if_neg (by omega)] at hlt
        omega
    · intro hboth
      exact absurd hhead (hboth.2 hold)

/-- A message that comes as it should is given the time that `lastTime` tells. -/
theorem given_lastTime {past : List ℤ} {t : ℤ} (hafter : ∀ u, past.head? = some u → u ≤ t)
    (ht : Fits t) (hroom : late (t::past) = true → Fits (t+1))
    (hdiffers : late past = true → past.head? ≠ some t) :
    givenTime (lastTime past) (90*t) = lastTime (t::past) := by
  rw [lastTime]
  by_cases hlate : late (t::past) = true
  · rw [if_pos hlate, given_late hafter hdiffers hlate, int32_room ht (hroom hlate)]
  · rw [if_neg hlate, given_prompt hafter hdiffers hlate]

theorem increases_iff {past ts : List ℤ} (hpast : past ≠ []) (hfits : ∀ u ∈ past, Fits u)
    (hts : ∀ t ∈ ts, Fits t) (hafter : ∀ u, past.head? = some u → ∀ t ∈ ts, u ≤ t)
    (hsorted : ts.Pairwise (· ≤ ·)) :
    Increases Shared (lastTime past) ts ↔ SpacedFrom Shared past ts := by
  induction ts generalizing past with
  | nil => exact Iff.rfl
  | cons t ts ih =>
    rcases List.pairwise_cons.mp hsorted with ⟨hle, hsorted⟩
    have ht := hts t List.mem_cons_self
    have hfirst := fun u hu => hafter u hu t List.mem_cons_self
    have hnext : ((givenTime (lastTime past) (90*t) ≠ 90*t → Shared t) ∧
          lastTime past < givenTime (lastTime past) (90*t)) ↔
        (late (t::past) = true → Shared t ∧ Fits (t+1)) ∧
          (late past = true → past.head? ≠ some t) := next_iff hpast hfirst hfits ht
    have hmore : (late (t::past) = true → Shared t ∧ Fits (t+1)) →
        (late past = true → past.head? ≠ some t) →
        (Increases Shared (givenTime (lastTime past) (90*t)) ts ↔
          SpacedFrom Shared (t::past) ts) := by
      intro hroom hdiffers
      rw [given_lastTime hfirst ht (fun hlate => (hroom hlate).2) hdiffers]
      apply ih (List.cons_ne_nil _ _) (List.forall_mem_cons.mpr ⟨ht, hfits⟩)
        (fun t' ht' => hts t' (List.mem_cons_of_mem t ht')) _ hsorted
      intro u hu t' ht'
      obtain rfl := Option.some.inj hu
      exact hle t' ht'
    rw [Increases, SpacedFrom]
    constructor
    · rintro ⟨hshared, hlt, hrest⟩
      rcases hnext.mp ⟨hshared, hlt⟩ with ⟨hroom, hdiffers⟩
      exact ⟨hroom, hdiffers, (hmore hroom hdiffers).mp hrest⟩
    · rintro ⟨hroom, hdiffers, hrest⟩
      rcases hnext.mpr ⟨hroom, hdiffers⟩ with ⟨hshared, hlt⟩
      exact ⟨hshared, hlt, (hmore hroom hdiffers).mpr hrest⟩

/-- Nothing is in front of the first message, so its time need not be a greater one. -/
theorem first_iff {t : ℤ} {ts : List ℤ} (hts : ∀ t' ∈ t::ts, Fits t')
    (hsorted : (t::ts).Pairwise (· ≤ ·)) :
    ((givenTime 0 (90*t) ≠ 90*t → Shared t) ∧ Increases Shared (givenTime 0 (90*t)) ts) ↔
      SpacedFrom Shared [] (t::ts) := by
  rcases List.pairwise_cons.mp hsorted with ⟨hle, hsorted⟩
  have ht := hts t List.mem_cons_self
  have hroom : late [t] = true → Fits (t+1) := by
    intro hlate
    rw [late, decide_eq_true_eq] at hlate
    rw [hlate]
    decide
  have hgiven : givenTime 0 (90*t) = lastTime [t] :=
    given_lastTime (by simp) ht hroom (by simp [late])
  have hshared : (givenTime 0 (90*t) ≠ 90*t → Shared t) ↔
      (late [t] = true → Shared t ∧ Fits (t+1)) := by
    rw [hgiven, lastTime]
    by_cases hlate : late [t] = true
    · simp [hlate, hroom hlate]
    · simp [hlate]
  have hmore : Increases Shared (lastTime [t]) ts ↔ SpacedFrom Shared [t] ts := by
    apply increases_iff (List.cons_ne_nil _ _) (List.forall_mem_singleton.mpr ht)
      (fun t' ht' => hts t' (List.mem_cons_of_mem t ht')) _ hsorted
    intro u hu t' ht'
    obtain rfl := Option.some.inj hu
    exact hle t' ht'
  rw [SpacedFrom, ← hshared, ← hmore, ← hgiven]
  simp [late]

end

/-! ## Video never goes back -/

/-- The times increase, and one is not that of its message only if another message has the
timestamp of its message. -/
structure NeverBack (rs : List message_t) (ps : List (message_t × MediaPacket)) : Prop where
  increasing : (ps.map fun x => x.2.dts).Pairwise (· < ·)
  shared : ∀ x ∈ ps, x.2.dts ≠ 90*x.1.timestamp →
    2 ≤ (rs.map fun r => r.timestamp).count x.1.timestamp

section
variable {Shared : ℤ → Prop}

theorem increases_from {iLast : ℤ} {xs : List (message_t × MediaPacket)}
    (h : xs.map (fun x => x.2.dts) = givenTimes iLast (xs.map fun x => x.1.timestamp)) :
    Increases Shared iLast (xs.map fun x => x.1.timestamp) ↔
      (iLast::xs.map fun x => x.2.dts).Pairwise (· < ·) ∧
        ∀ x ∈ xs, x.2.dts ≠ 90*x.1.timestamp → Shared x.1.timestamp := by
  induction xs generalizing iLast with
  | nil => simp [Increases]
  | cons x xs ih =>
    simp only [List.map_cons, givenTimes, List.cons.injEq] at h
    rcases h with ⟨hdts, hrest⟩
    rw [← hdts] at hrest
    rw [List.map_cons, List.map_cons, Increases, ← hdts, ih hrest, List.forall_mem_cons]
    constructor
    · rintro ⟨hshared, hlt, hincreasing, hothers⟩
      refine ⟨?_, hshared, hothers⟩
      rw [List.pairwise_cons]
      refine ⟨?_, hincreasing⟩
      intro d hd
      rcases List.mem_cons.mp hd with rfl | hd
      · exact hlt
      · exact hlt.trans ((List.pairwise_cons.mp hincreasing).1 d hd)
    · rintro ⟨hincreasing, hshared, hothers⟩
      rcases List.pairwise_cons.mp hincreasing with ⟨hfirst, hincreasing⟩
      exact ⟨hshared, hfirst _ List.mem_cons_self, hincreasing, hothers⟩

end

theorem video_time_iff {C : Type} (convertES : Converter C) (pStack : Memory) (s : RTMPClient C)
    (rs : List message_t) (ps : List (message_t × MediaPacket)) (hstart : s.iLastVideoDts = 0)
    (hrun : videoPackets convertES pStack rs s = .ok ps) (hfits : ∀ r ∈ rs, Fits r.timestamp)
    (hsorted : (rs.map fun r => r.timestamp).Pairwise (· ≤ ·)) :
    NeverBack rs ps ↔
      Spaced (fun t => 2 ≤ (rs.map fun r => r.timestamp).count t) (frameTimes rs) := by
  rcases videoPackets_times hrun hfits with ⟨htimes, hgiven⟩
  rw [hstart, ← htimes] at hgiven
  have hframes : ∀ t ∈ frameTimes rs, Fits t := by
    intro t ht
    rcases List.mem_map.mp ht with ⟨r, hr, rfl⟩
    exact hfits r (List.mem_of_mem_filter hr)
  have hframesSorted : (frameTimes rs).Pairwise (· ≤ ·) :=
    hsorted.sublist ((List.filter_sublist).map _)
  rw [← htimes] at hframes hframesSorted
  rw [spaced_iff, ← htimes]
  generalize hshared : (fun t => 2 ≤ (rs.map fun r => r.timestamp).count t) = Shared
  have hcount : NeverBack rs ps ↔ (ps.map fun x => x.2.dts).Pairwise (· < ·) ∧
      ∀ x ∈ ps, x.2.dts ≠ 90*x.1.timestamp → Shared x.1.timestamp := by
    rw [← hshared]
    exact ⟨fun h => ⟨h.increasing, h.shared⟩, fun h => ⟨h.1, h.2⟩⟩
  rw [hcount]
  cases ps with
  | nil => simp [SpacedFrom]
  | cons x xs =>
    simp only [List.map_cons, givenTimes, List.cons.injEq] at hgiven hframes hframesSorted ⊢
    rcases hgiven with ⟨hdts, hrest⟩
    rw [← first_iff hframes hframesSorted, ← hdts]
    rw [← hdts] at hrest
    rw [increases_from hrest, List.forall_mem_cons]
    constructor
    · rintro ⟨hincreasing, hfirst, hothers⟩
      exact ⟨hfirst, hincreasing, hothers⟩
    · rintro ⟨hfirst, hincreasing, hothers⟩
      exact ⟨hincreasing, hfirst, hothers⟩

/-- Frames are taken whatever they hold. -/
theorem videoPackets_passOn {C : Type} (pStack : Memory) (rs : List message_t) (s : RTMPClient C)
    (hframes : ∀ r ∈ rs, carriesFrame r = true) :
    ∃ ps, videoPackets passOn pStack rs s = .ok ps := by
  induction rs generalizing s with
  | nil => exact ⟨[], rfl⟩
  | cons r rs ih =>
    rcases handleVideo_passOn pStack s (hframes r List.mem_cons_self) with ⟨t, hrun⟩
    rcases ih t (fun r' hr' => hframes r' (List.mem_cons_of_mem r hr')) with ⟨ps, hrest⟩
    refine ⟨(madePackets pStack r s).map (fun p => (r, p))++ps, ?_⟩
    rw [videoPackets, hrun]
    simp only [bind, Except.bind, hrest]
    rfl

/-- A message with a frame of H.263. -/
def frameAt (t : ℤ) : message_t :=
  { RTMPChunkStream.Message.new ⟨0, 0, 0⟩ with
    messageTypeId := 9
    timestamp := t
    messageLength := 4
    oBuffer := IBits.new (store zeroed 0 [0x12, 1, 2, 3]) 4 }

theorem frameAt_frame : carriesFrame (frameAt 40) = true ∧ carriesFrame (frameAt 80) = true := by
  decide

theorem video_time_witness :
    ∃ ps, videoPackets passOn zeroed [frameAt 40, frameAt 40, frameAt 80] exampleClient = .ok ps ∧
      NeverBack [frameAt 40, frameAt 40, frameAt 80] ps := by
  rcases videoPackets_passOn zeroed [frameAt 40, frameAt 40, frameAt 80] exampleClient
    (by simp [frameAt_frame]) with ⟨ps, hrun⟩
  refine ⟨ps, hrun, (video_time_iff passOn zeroed exampleClient _ ps rfl hrun ?_ ?_).mpr ?_⟩
  · decide
  · decide
  · have hframes : frameTimes [frameAt 40, frameAt 40, frameAt 80] = [40, 40, 80] := by
      rw [frameTimes, List.filter_eq_self.mpr (by simp [frameAt_frame])]
      rfl
    rw [spaced_iff, hframes]
    simp only [SpacedFrom]
    decide

/-- The third message with one timestamp is given a smaller time than the second. -/
theorem video_time_goes_back :
    ¬ ∀ (convertES : Converter Unit) (pStack : Memory) (s : RTMPClient Unit)
      (rs : List message_t) (ps : List (message_t × MediaPacket)), s.iLastVideoDts = 0 →
      videoPackets convertES pStack rs s = .ok ps → (∀ r ∈ rs, Fits r.timestamp) →
      (rs.map fun r => r.timestamp).Pairwise (· ≤ ·) → NeverBack rs ps := by
  intro hall
  rcases videoPackets_passOn zeroed [frameAt 40, frameAt 40, frameAt 40] exampleClient
    (by simp [frameAt_frame]) with ⟨ps, hrun⟩
  have hfits : ∀ r ∈ [frameAt 40, frameAt 40, frameAt 40], Fits r.timestamp := by decide
  have hback := (hall _ _ _ _ ps rfl hrun hfits (by decide)).increasing
  have hlate : int32 3690 = 3690 := int32_of_range _ (by decide) (by decide)
  have htimes : givenTimes 0 [40, 40, 40] = [3600, 3690, 3600] := by
    simp [givenTimes, givenTime, hlate]
  have hframes : frameTimes [frameAt 40, frameAt 40, frameAt 40] = [40, 40, 40] := by
    rw [frameTimes, List.filter_eq_self.mpr (by simp [frameAt_frame])]
    rfl
  rw [(videoPackets_times hrun hfits).2, hframes, show exampleClient.iLastVideoDts = 0 from rfl,
    htimes] at hback
  revert hback
  decide

end Sirannon.RTMPTag
