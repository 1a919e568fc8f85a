import Sirannon.SchedulerRelease

/-!
# Spreading packets over a window

The packets of a group are to be sent at the times at which the bytes in front
of them would be through, were the bytes spread evenly over the time of the
group. The window scheduler multiplies in 32 bits, the frame scheduler in 64.
-/

set_option autoImplicit false

namespace Sirannon.Scheduling
open Media MachineInt

variable {s : Scheduler} {vSend : List MediaPacket} {first last : MediaPacket}

/-- Number of bytes in front of the last packet. -/
def ahead : List MediaPacket → ℕ
  | [] => 0
  | [_] => 0
  | pPckt::next::vSend => pPckt.size+ahead (next::vSend)

/-- The times to send at do not go back, start at `oOffset`, and stay within `iTicks` of the clock
of 90 kHz. -/
structure Within (oOffset : SirannonTime) (iTicks : ℤ) (vSend : List MediaPacket) : Prop where
  order : vSend.Pairwise (fun p q => p.oSend ≤ q.oSend)
  front : ∀ p, vSend.head? = some p → p.oSend = oOffset
  bounds : ∀ p ∈ vSend, oOffset ≤ p.oSend ∧ 90*(p.oSend-oOffset) ≤ iTicks*MEGA

def span (first last : MediaPacket) : ℤ := last.dts+last.inc-first.dts

/-- What the group taken next starts and ends with. -/
def Scheduler.Next (s : Scheduler) (first last : MediaPacket) : Prop :=
  (s.kind.group s.vBuffer).1.head? = some first ∧
    (s.kind.group s.vBuffer).1.getLast? = some last

/-- The group taken next is sent in its order, spread over `iTicks`. -/
def Scheduler.Spreads (s : Scheduler) (oOffset : SirannonTime) (iTicks : ℤ) : Prop :=
  s.makeSchedule.vSend.map unsent = (s.kind.group s.vBuffer).1.map unsent ∧
    Within oOffset iTicks s.makeSchedule.vSend

theorem ahead_cons (pPckt : MediaPacket) (vSend : List MediaPacket) (h : vSend ≠ []) :
    ahead (pPckt::vSend) = pPckt.size+ahead vSend := by
  cases vSend with
  | nil => exact absurd rfl h
  | cons next vSend => rfl

theorem ahead_le (vSend : List MediaPacket) : ahead vSend ≤ sizes vSend := by
  induction vSend with
  | nil => exact le_rfl
  | cons pPckt vSend ih =>
    have hsizes : sizes (pPckt::vSend) = pPckt.size+sizes vSend := by
      rw [sizes, List.map_cons, List.sum_cons, sizes]
    cases vSend with
    | nil => exact Nat.zero_le _
    | cons next vSend =>
      rw [ahead_cons _ _ (List.cons_ne_nil _ _), hsizes]
      omega

/-- Each packet gets the time for some number of bytes, up to the one for the last packet. -/
theorem mem_spread {oSend : ℕ → SirannonTime} {iSize : ℕ} {p : MediaPacket}
    (h : p ∈ spread oSend iSize vSend) :
    ∃ k, iSize ≤ k ∧ k ≤ iSize+ahead vSend ∧ p.oSend = oSend k := by
  induction vSend generalizing iSize with
  | nil => cases h
  | cons pPckt vSend ih =>
    rw [spread, List.mem_cons] at h
    rcases h with rfl | h
    · exact ⟨iSize, le_rfl, Nat.le_add_right _ _, rfl⟩
    · obtain ⟨k, hlow, hhigh, hk⟩ := ih h
      have hne : vSend ≠ [] := by
        rintro rfl
        cases h
      refine ⟨k, by omega, ?_, hk⟩
      rw [ahead_cons _ _ hne]
      omega

theorem spread_ordered {oSend : ℕ → SirannonTime} {iSize : ℕ}
    (hmono : ∀ i k, i ≤ k → k ≤ iSize+ahead vSend → oSend i ≤ oSend k) :
    (spread oSend iSize vSend).Pairwise (fun p q => p.oSend ≤ q.oSend) := by
  induction vSend generalizing iSize with
  | nil => exact List.Pairwise.nil
  | cons pPckt vSend ih =>
    rw [spread, List.pairwise_cons]
    by_cases hne : vSend = []
    · subst hne
      simp [spread]
    · rw [ahead_cons _ _ hne] at hmono
      constructor
      · intro q hq
        obtain ⟨k, hlow, hhigh, hk⟩ := mem_spread hq
        rw [hk]
        exact Int.ofNat_le.mpr (hmono iSize k (by omega) (by omega))
      · apply ih
        intro i k hik hk
        exact hmono i k hik (by omega)

/-- A schedule whose times grow with the bytes and stay near the offset is within the window. -/
theorem schedule_within {oOffset : SirannonTime} {iTicks : ℤ} (hsend : s.vSend = [])
    (hnext : s.Next first last) (iOffset : ℕ → ℕ) (hzero : iOffset 0 = 0)
    (htimes : ∀ k ≤ ahead (s.kind.group s.vBuffer).1, s.kind.oSend s.iBase first last
      (total (s.kind.group s.vBuffer).1) k = oOffset+iOffset k)
    (hmono : ∀ i k, i ≤ k → k ≤ ahead (s.kind.group s.vBuffer).1 → iOffset i ≤ iOffset k)
    (hbound : ∀ k ≤ ahead (s.kind.group s.vBuffer).1, (90*iOffset k : ℤ) ≤ iTicks*MEGA) :
    s.Spreads oOffset iTicks := by
  have hvSend : s.makeSchedule.vSend = spread (s.kind.oSend s.iBase first last
      (total (s.kind.group s.vBuffer).1)) 0 (s.kind.group s.vBuffer).1 := by
    rw [Scheduler.makeSchedule, hsend, List.nil_append]
    show s.kind.schedule s.iBase (s.kind.group s.vBuffer).1 = _
    rw [Kind.schedule, hnext.1, hnext.2]
  refine ⟨?_, ?_, ?_, ?_⟩
  · rw [hvSend, spread_unsent]
  · rw [hvSend]
    apply spread_ordered
    intro i k hik hk
    rw [Nat.zero_add] at hk
    rw [htimes i (hik.trans hk), htimes k hk]
    exact Nat.add_le_add_left (hmono i k hik hk) _
  · intro p hp
    rw [hvSend] at hp
    cases hgroup : (s.kind.group s.vBuffer).1 with
    | nil =>
      rw [hgroup] at hp
      cases hp
    | cons pPckt rest =>
      have htime := htimes 0 (Nat.zero_le _)
      rw [hgroup] at hp htime
      obtain rfl := Option.some.inj hp
      show ((s.kind.oSend s.iBase first last (total (pPckt::rest)) 0 : ℕ) : ℤ) = oOffset
      rw [htime, hzero, Nat.add_zero]
  · intro p hp
    rw [hvSend] at hp
    obtain ⟨k, -, hk, hoSend⟩ := mem_spread hp
    rw [Nat.zero_add] at hk
    have hle := hbound k hk
    rw [hoSend, htimes k hk]
    push_cast
    omega

theorem total_pos (vSend : List MediaPacket) : 0 < total vSend ∧ sizes vSend ≤ total vSend := by
  rw [total]
  split_ifs <;> omega

theorem later_fromMSecs (x : ℤ) {v : ℕ} (h : v ≤ 2^31*1000000) :
    later (fromMSecs x) (fromNSecs v) = fromMSecs x+v := by
  have hlt : uint32 x < 2^32 := by
    rw [uint32]
    omega
  rw [later, fromNSecs, fromMSecs, iWrap,
    Nat.mod_eq_of_lt (show v < 2^32*1000000000 by omega)]
  exact Nat.mod_eq_of_lt (by omega)

theorem later_fromNSecs {t v : ℕ} (h : t+v < iWrap) :
    later (fromNSecs t) (fromNSecs v) = fromNSecs t+v := by
  rw [later, fromNSecs, fromNSecs, Nat.mod_eq_of_lt (show t < iWrap by omega),
    Nat.mod_eq_of_lt (show v < iWrap by omega)]
  exact Nat.mod_eq_of_lt h

/-- The product for the last packet has 32 bits. -/
structure Scheduler.WindowFits (s : Scheduler) (first last : MediaPacket) : Prop where
  span : 0 ≤ span first last ∧ span first last < 2^31
  product : Scheduling.span first last/90*ahead (s.kind.group s.vBuffer).1*MEGA < 2^32

/-- The product for the last packet has 64 bits. -/
structure Scheduler.FrameFits (s : Scheduler) (last : MediaPacket) : Prop where
  inc : 0 ≤ last.inc ∧ last.inc < 2^31
  product : last.inc*MEGA/90*ahead (s.kind.group s.vBuffer).1 < 2^64

theorem share_mono {iTotal : ℕ} (iRate i k : ℕ) (h : i ≤ k) :
    iRate*i/iTotal ≤ iRate*k/iTotal :=
  Nat.div_le_div_right (Nat.mul_le_mul_left iRate h)

theorem share_le {iTotal : ℕ} (iRate : ℕ) {k : ℕ} (h : k ≤ iTotal) : iRate*k/iTotal ≤ iRate := by
  rcases Nat.eq_zero_or_pos iTotal with rfl | hpos
  · rw [Nat.div_zero]
    exact Nat.zero_le _
  · rw [Nat.div_le_iff_le_mul_add_pred hpos]
    have hle := Nat.mul_le_mul_left iRate h
    rw [Nat.mul_comm iTotal]
    omega

/-- Time of the group in whole milliseconds, and the time of `k` of its bytes in nanoseconds. -/
theorem window_share (h : s.WindowFits first last) {k : ℕ}
    (hk : k ≤ ahead (s.kind.group s.vBuffer).1) :
    uint32 (int32 (duration first last*k)*MEGA) = (span first last/90).toNat*MEGA*k := by
  obtain ⟨⟨hpos, hsmall⟩, hproduct⟩ := h
  have hduration : duration first last = ((span first last/90).toNat : ℕ) := by
    have hint : int32 (last.dts+last.inc-first.dts) = span first last :=
      int32_of_range _ (by rw [← span]; omega) hsmall
    rw [duration, hint, Int.tdiv_eq_ediv_of_nonneg hpos]
    omega
  have hspan : (span first last/90 : ℤ) = ((span first last/90).toNat : ℕ) := by omega
  rw [hspan] at hproduct
  rw [hduration]
  generalize (span first last/90).toNat = d at hproduct ⊢
  have hmul : d*k ≤ d*ahead (s.kind.group s.vBuffer).1 := Nat.mul_le_mul_left d hk
  have hsmall' : d*ahead (s.kind.group s.vBuffer).1*MEGA < 2^32 := by exact_mod_cast hproduct
  have hwhole : d*k*MEGA < 2^32 := lt_of_le_of_lt (Nat.mul_le_mul_right MEGA hmul) hsmall'
  have hint : int32 ((d : ℤ)*k) = ((d*k : ℕ) : ℤ) := by
    have hrange : d*k < 2^31 := by
      rw [MEGA] at hwhole
      omega
    rw [← Nat.cast_mul]
    exact int32_of_range _ (by omega) (by omega)
  rw [hint, ← Nat.cast_mul, uint32_of_range _ hwhole]
  ring

theorem window_spreads {iWindow : ℤ} (hkind : s.kind = .window iWindow) (hsend : s.vSend = [])
    (hnext : s.Next first last) (hfits : s.WindowFits first last) :
    s.Spreads (fromMSecs (offset s.iBase first)) (span first last) := by
  have hspan := hfits.span
  obtain ⟨-, htotal⟩ := total_pos (s.kind.group s.vBuffer).1
  have hahead := (ahead_le (s.kind.group s.vBuffer).1).trans htotal
  have hle (k : ℕ) (hk : k ≤ ahead (s.kind.group s.vBuffer).1) :
      (span first last/90).toNat*MEGA*k/total (s.kind.group s.vBuffer).1 ≤
        (span first last/90).toNat*MEGA := share_le _ (hk.trans hahead)
  apply schedule_within hsend hnext (fun k => (span first last/90).toNat*MEGA*k/
    total (s.kind.group s.vBuffer).1)
  · simp
  · intro k hk
    have hshort : (span first last/90).toNat*MEGA ≤ 2^31*1000000 := by
      rw [MEGA]
      omega
    rw [hkind]
    show later _ (fromNSecs (uint32 (int32 (duration first last*k)*MEGA)/_)) = _
    rw [window_share hfits hk, ← hkind, later_fromMSecs _ ((hle k hk).trans hshort)]
  · intro i k hik _
    exact share_mono _ i k hik
  · intro k hk
    have hmore := hle k hk
    generalize (span first last/90).toNat*MEGA*k/total (s.kind.group s.vBuffer).1 = v at *
    rw [MEGA] at hmore ⊢
    omega

theorem uint64_lt (x : ℤ) : uint64 x < 2^64 := by
  rw [uint64]
  omega

theorem uint64_of_range {x : ℕ} (h : x < 2^64) : uint64 (x : ℤ) = x := by
  rw [uint64]
  omega

theorem frame_share (h : s.FrameFits last) {k : ℕ} (hk : k ≤ ahead (s.kind.group s.vBuffer).1) :
    uint64 (uint64 (uint64 last.inc*MEGA)/90*k) = last.inc.toNat*MEGA/90*k := by
  obtain ⟨⟨hpos, hsmall⟩, hproduct⟩ := h
  obtain ⟨i, hi⟩ := Int.eq_ofNat_of_zero_le hpos
  rw [hi] at hproduct hsmall ⊢
  have hmega : i*MEGA < 2^64 := by
    rw [MEGA]
    omega
  have hwhole : i*MEGA/90*ahead (s.kind.group s.vBuffer).1 < 2^64 := by exact_mod_cast hproduct
  have hmul := Nat.mul_le_mul_left (i*MEGA/90) hk
  have hcast : ((i*MEGA : ℕ) : ℤ)/90*k = ((i*MEGA/90*k : ℕ) : ℤ) := by
    push_cast
    rfl
  rw [uint64_of_range (show i < 2^64 by omega), ← Nat.cast_mul, uint64_of_range hmega,
    Int.toNat_natCast, hcast, uint64_of_range (lt_of_le_of_lt hmul hwhole)]

theorem frame_spreads (hkind : s.kind = .frame) (hsend : s.vSend = [])
    (hnext : s.Next first last) (hfits : s.FrameFits last) :
    s.Spreads (getOffset s.iBase first) last.inc := by
  obtain ⟨hpos, hsmall⟩ := hfits.inc
  obtain ⟨-, htotal⟩ := total_pos (s.kind.group s.vBuffer).1
  have hahead := (ahead_le (s.kind.group s.vBuffer).1).trans htotal
  have hle (k : ℕ) (hk : k ≤ ahead (s.kind.group s.vBuffer).1) :
      last.inc.toNat*MEGA/90*k/total (s.kind.group s.vBuffer).1 ≤ last.inc.toNat*MEGA/90 :=
    share_le _ (hk.trans hahead)
  apply schedule_within hsend hnext (fun k => last.inc.toNat*MEGA/90*k/
    total (s.kind.group s.vBuffer).1)
  · simp
  · intro k hk
    have hmore := hle k hk
    rw [hkind]
    show later (getOffset s.iBase first)
      (fromNSecs (uint64 (uint64 (uint64 last.inc*MEGA)/90*k)/_)) = _
    rw [frame_share hfits hk, ← hkind, getOffset]
    apply later_fromNSecs
    have hoffset : uint64 ((uint64 (int32 (first.dts-s.iBase)) : ℤ)*MEGA) < 2^64 :=
      uint64_lt _
    generalize last.inc.toNat*MEGA/90*k/total (s.kind.group s.vBuffer).1 = v at *
    rw [MEGA] at hmore
    rw [iWrap]
    omega
  · intro i k hik _
    exact share_mono _ i k hik
  · intro k hk
    have hmore := hle k hk
    generalize last.inc.toNat*MEGA/90*k/total (s.kind.group s.vBuffer).1 = v at *
    rw [MEGA] at hmore ⊢
    omega

/-- A packet of `iSize` bytes. -/
def packetAt (dts inc : ℤ) (iSize : ℕ) : MediaPacket :=
  { MediaPacket.new .media .video iSize with dts := dts, inc := inc, bytes := List.replicate iSize 0 }

def waiting (kind : Kind) (vBuffer : List MediaPacket) : Scheduler :=
  { Scheduler.init kind 0 false 1 with iBase := 0, vBuffer := vBuffer }

end Sirannon.Scheduling
