import Sirannon.RateClock
import Sirannon.SchedulerRelease

/-!
# The media time of the schedulers

The media time that packets are compared with is kept in three places: the
start shifts by every pause, and with a speed the time passed is added up since
the last moment it was. It is the reading of one clock as long as calls to play
meet the conditions given here; what else play does makes it jump.
-/

set_option autoImplicit false

namespace Sirannon.Scheduling
open Bits Media MachineInt Timing

/-! ## Calls -/

/-- `play` with the speed −1 asks for none. -/
inductive Call
  | receive (oCurrent : SirannonTime) (pPckt : MediaPacket)
  | process (oCurrent : SirannonTime)
  | pause (oCurrent : SirannonTime)
  | play (oCurrent : SirannonTime) (fFactor : ℚ)

def Call.time : Call → SirannonTime
  | .receive oCurrent _ => oCurrent
  | .process oCurrent => oCurrent
  | .pause oCurrent => oCurrent
  | .play oCurrent _ => oCurrent

def Scheduler.called (s : Scheduler) : Call → Except SirannonException Scheduler
  | .receive oCurrent pPckt => .ok (s.receive oCurrent pPckt)
  | .process oCurrent => s.process oCurrent
  | .pause oCurrent => .ok (s.pause oCurrent)
  | .play oCurrent fFactor => .ok (s.play oCurrent fFactor)

def Scheduler.calls (s : Scheduler) : List Call → Except SirannonException Scheduler
  | [] => .ok s
  | call::rest =>
    match s.called call with
    | .error e => .error e
    | .ok t => t.calls rest

/-- The times of the calls, from `now` on, as a clock of 32-bit seconds gives them. -/
def Timely (now : SirannonTime) : List Call → Prop
  | [] => True
  | call::rest => now ≤ call.time ∧ call.time < iWrap ∧ Timely call.time rest

def lastTime (now : SirannonTime) : List Call → SirannonTime
  | [] => now
  | call::rest => lastTime call.time rest

/-! ## The clock they ask for -/

def speedOf (x : ℚ) : ℚ := if 0 < x then x else 1

attribute [grind =] speedOf

/-- The clock when the first packet comes in. -/
def firstClock (oStarttime now : SirannonTime) (pause : Bool) (speed : ℚ) : RateClock ℚ where
  start := oStarttime
  last := now
  reading := speedOf speed*after (oStarttime : ℚ) oStarttime now
  speed := speedOf speed
  halted := pause

def clockCalled (c : RateClock ℚ) : Call → RateClock ℚ
  | .receive oCurrent _ => c.moved oCurrent
  | .process oCurrent => c.moved oCurrent
  | .pause oCurrent => (c.moved oCurrent).halt
  | .play oCurrent fFactor => ((c.moved oCurrent).setSpeed fFactor).go

/-! ## When play keeps to it -/

/-- The last moment the media time has come to. -/
def Scheduler.reached (s : Scheduler) (oCurrent : SirannonTime) : SirannonTime :=
  if s.bPause then s.oPause else oCurrent

/-- The pause fell after the start, and the start is not in the first millisecond of the clock;
or nothing has started yet. -/
def Scheduler.Resumes (s : Scheduler) (oCurrent : SirannonTime) : Prop :=
  s.bPause = true → oCurrent ≤ s.oStarttime ∨
    s.oStarttime < s.oPause ∧ (MEGA ≤ s.oStarttime ∨ oCurrent = s.oPause)

/-- No speed is asked for and none was in force; or it was the speed 1, and always has been. -/
def Scheduler.KeepsSpeed (s : Scheduler) : Prop :=
  s.fSpeed ≤ 0 ∨ s.fSpeed = 1 ∧ s.fCurrent = s.oPrev

/-- A speed changes before the start, at a time added up already, or to the same. -/
def Scheduler.ChangesSpeed (s : Scheduler) (oCurrent : SirannonTime) (x : ℚ) : Prop :=
  x = s.fSpeed ∨ oCurrent ≤ s.oStarttime ∨ s.reached oCurrent = s.oStarttime+s.oPrev

/-- The first speed is given before the start, or while playing. -/
def Scheduler.AddsSpeed (s : Scheduler) (oCurrent : SirannonTime) (x : ℚ) : Prop :=
  oCurrent ≤ s.oStarttime ∨ (s.oStarttime ≠ 0 ∧ s.reached oCurrent = oCurrent) ∨
    (s.oStarttime = 0 ∧ (x = 1 ∨ s.reached oCurrent = s.oStarttime+s.oPrev))

def Scheduler.Speeds (s : Scheduler) (oCurrent : SirannonTime) (x : ℚ) : Prop :=
  (x = -1 ∧ s.KeepsSpeed) ∨ (0 < x ∧ 0 < s.fSpeed ∧ s.ChangesSpeed oCurrent x) ∨
    (0 < x ∧ s.fSpeed ≤ 0 ∧ s.AddsSpeed oCurrent x)

def Scheduler.Sound (s : Scheduler) : Call → Prop
  | .play oCurrent fFactor => s.Speeds oCurrent fFactor ∧ s.Resumes oCurrent
  | _ => True

def SoundCalls : Scheduler → List Call → Prop
  | _, [] => True
  | s, call::rest => s.Sound call ∧ ∀ t, s.called call = .ok t → SoundCalls t rest

/-! ## The three representations -/

/-- The media time when `r` has passed since the start. -/
def Scheduler.mediaAt (s : Scheduler) (r : ℚ) : ℚ :=
  if 0 < s.fSpeed then s.fCurrent+(r-s.oPrev)*s.fSpeed else r

attribute [grind =] Scheduler.mediaAt

structure Tracks (s : Scheduler) (c : RateClock ℚ) (now : SirannonTime) : Prop where
  last : c.last = now
  halted : c.halted = s.bPause
  speed : c.speed = speedOf s.fSpeed
  unscaled : s.fSpeed ≤ 0 → s.fCurrent = s.oPrev
  scheduled : s.bSchedule = true
  reached : s.reached now ≤ now
  before : s.reached now ≤ s.oStarttime →
    c.start = s.oStarttime ∧ c.reading = 0 ∧ s.fCurrent = 0 ∧ s.oPrev = 0
  passed : s.oStarttime < s.reached now →
    c.start ≤ s.reached now ∧ s.oStarttime+s.oPrev ≤ s.reached now ∧
      c.reading = s.mediaAt ((s.reached now : ℚ)-s.oStarttime)

variable {s : Scheduler} {c : RateClock ℚ} {now : SirannonTime}

theorem speedOf_pos (x : ℚ) : 0 < speedOf x := by
  rw [speedOf]
  split_ifs with h
  · exact h
  · exact one_pos

theorem mediaAt_sub (s : Scheduler) (r r' : ℚ) :
    s.mediaAt r' = s.mediaAt r+speedOf s.fSpeed*(r'-r) := by
  rw [Scheduler.mediaAt, Scheduler.mediaAt, speedOf]
  split_ifs <;> ring

theorem mediaAt_first (hcurrent : s.fCurrent = 0) (hprev : s.oPrev = 0) (r : ℚ) :
    s.mediaAt r = speedOf s.fSpeed*r := by
  rw [Scheduler.mediaAt, speedOf, hcurrent, hprev, Nat.cast_zero]
  split_ifs <;> ring

theorem since_eq {t t' : SirannonTime} (h : t' ≤ t) (h' : t < iWrap) : since t t' = t-t' := by
  have hsum : t+(iWrap-t') = (t-t')+iWrap := by
    rw [← Nat.add_sub_assoc (h.trans h'.le), Nat.sub_add_comm h]
  rw [since, hsum, Nat.add_mod_right, Nat.mod_eq_of_lt ((Nat.sub_le _ _).trans_lt h')]

theorem media_eq {t : SirannonTime} (hstart : s.oStarttime ≤ t) (hprev : s.oStarttime+s.oPrev ≤ t)
    (ht : t < iWrap) : s.media t = s.mediaAt ((t : ℚ)-s.oStarttime) := by
  have hle : s.oPrev ≤ t-s.oStarttime := Nat.le_sub_of_add_le' hprev
  rw [Scheduler.media, Scheduler.mediaAt, since_eq hstart ht,
    since_eq hle ((Nat.sub_le _ _).trans_lt ht), Nat.cast_sub hle, Nat.cast_sub hstart]

theorem reached_playing (h : s.bPause = false) (t : SirannonTime) : s.reached t = t := by
  rw [Scheduler.reached, h]
  rfl

theorem reached_paused (h : s.bPause = true) (t : SirannonTime) : s.reached t = s.oPause := by
  rw [Scheduler.reached, if_pos h]

/-- Time passes for both. -/
theorem Tracks.moved (h : Tracks s c now) {t : SirannonTime} (ht : now ≤ t) :
    Tracks s (c.moved t) t := by
  cases hpause : s.bPause with
  | true =>
    have hreach : ∀ u, s.reached u = s.oPause := reached_paused hpause
    have hread : (c.moved t).reading = c.reading := read_halted (h.halted.trans hpause) _
    refine ⟨rfl, h.halted, h.speed, h.unscaled, h.scheduled, ?_, ?_, ?_⟩
    · exact (hreach t ▸ (hreach now ▸ h.reached)).trans ht
    · rw [hreach, hread, ← hreach now]
      exact h.before
    · rw [hreach, hread, ← hreach now]
      exact h.passed
  | false =>
    have hreach : ∀ u, s.reached u = u := reached_playing hpause
    have hread : (c.moved t).reading = c.reading+speedOf s.fSpeed*after c.start now t := by
      rw [← h.speed, ← h.last]
      exact read_going (h.halted.trans hpause) _
    have hcast : (now : ℚ) ≤ t := Nat.cast_le.mpr ht
    refine ⟨rfl, h.halted, h.speed, h.unscaled, h.scheduled, (hreach t).le, ?_, ?_⟩
    · intro hbefore
      rw [hreach] at hbefore
      rcases h.before ((hreach now).le.trans (ht.trans hbefore)) with ⟨hs, hr, hc, hp⟩
      refine ⟨hs, ?_, hc, hp⟩
      rw [hread, hr, hs, after_before (Nat.cast_le.mpr hbefore)
        (hcast.trans (Nat.cast_le.mpr hbefore)), mul_zero, add_zero]
    · intro hpassed
      rw [hreach] at hpassed ⊢
      have hpassed' : (s.oStarttime : ℚ) ≤ t := Nat.cast_le.mpr hpassed.le
      rcases Nat.lt_or_ge s.oStarttime now with hnow | hnow
      · rcases h.passed ((hreach now).symm ▸ hnow) with ⟨hs, hp, hr⟩
        rw [hreach] at hs hp hr
        refine ⟨hs.trans hcast, hp.trans ht, ?_⟩
        rw [hread, hr, after_running hs hcast,
          mediaAt_sub s ((now : ℚ)-s.oStarttime) ((t : ℚ)-s.oStarttime)]
        ring
      · rcases h.before ((hreach now).le.trans hnow) with ⟨hs, hr, hc, hp⟩
        refine ⟨hs.le.trans hpassed', by rw [hp]; exact hpassed.le, ?_⟩
        rw [hread, hr, hs, after_across hpassed' (Nat.cast_le.mpr hnow), mediaAt_first hc hp,
          zero_add]

/-- The media time is the reading. -/
theorem Tracks.media (h : Tracks s c now) (hplay : s.bPause = false) {t : SirannonTime}
    (ht : now ≤ t) (hwrap : t < iWrap) (hstart : s.oStarttime ≤ t) : s.media t = c.read t := by
  have hmoved := h.moved ht
  have hreach := reached_playing hplay t
  rcases hstart.lt_or_eq with hpassed | heq
  · rcases hmoved.passed (hreach.symm ▸ hpassed) with ⟨-, hp, hr⟩
    rw [hreach] at hp hr
    rw [media_eq hstart hp hwrap]
    exact hr.symm
  · rcases hmoved.before (hreach.le.trans heq.ge) with ⟨-, hr, hc, hp⟩
    rw [media_eq hstart (by rw [hp]; exact hstart) hwrap, mediaAt_first hc hp, heq, sub_self,
      mul_zero]
    exact hr.symm

/-! ## Steps -/

/-- What the media time is made from. -/
structure SameTimes (s t : Scheduler) : Prop where
  pause : t.bPause = s.bPause
  schedule : t.bSchedule = s.bSchedule
  current : t.fCurrent = s.fCurrent
  speed : t.fSpeed = s.fSpeed
  prev : t.oPrev = s.oPrev
  start : t.oStarttime = s.oStarttime
  paused : t.oPause = s.oPause

theorem SameTimes.tracks {t : Scheduler} (h : SameTimes s t) (htracks : Tracks s c now) :
    Tracks t c now := by
  have hreach : t.reached now = s.reached now := by
    rw [Scheduler.reached, Scheduler.reached, h.pause, h.paused]
  have hmedia : ∀ r, t.mediaAt r = s.mediaAt r := by
    intro r
    rw [Scheduler.mediaAt, Scheduler.mediaAt, h.speed, h.current, h.prev]
  constructor
  · exact htracks.last
  · rw [h.pause]
    exact htracks.halted
  · rw [h.speed]
    exact htracks.speed
  · rw [h.speed, h.current, h.prev]
    exact htracks.unscaled
  · rw [h.schedule]
    exact htracks.scheduled
  · rw [hreach]
    exact htracks.reached
  · rw [hreach, h.start, h.current, h.prev]
    exact htracks.before
  · rw [hreach, h.start, h.prev, hmedia]
    exact htracks.passed

theorem processLoop_same {oNow oCurrent : SirannonTime} (fuel : ℕ) {t : Scheduler}
    (h : processLoop oNow oCurrent fuel s = .ok t) : SameTimes s t := by
  induction fuel generalizing s with
  | zero =>
    rw [processLoop] at h
    rw [← Except.ok.inj h]
    constructor <;> rfl
  | succ fuel ih =>
    rw [processLoop] at h
    split_ifs at h with hsending hempty hnil
    · split at h
      · exact ih h
      · split_ifs at h
        · rw [← Except.ok.inj h]
          constructor <;> rfl
        · have hrest := ih h
          exact ⟨hrest.pause, hrest.schedule, hrest.current, hrest.speed, hrest.prev,
            hrest.start, hrest.paused⟩
    · rw [← Except.ok.inj h]
      constructor <;> rfl
    · have hrest := ih h
      exact ⟨hrest.pause, hrest.schedule, hrest.current, hrest.speed, hrest.prev,
        hrest.start, hrest.paused⟩

/-- Adding up what has passed changes nothing. -/
theorem Tracks.advanced (h : Tracks s c now) (hplay : s.bPause = false) (hwrap : now < iWrap)
    (hstart : s.oStarttime ≤ now) : Tracks (s.advanced now) c now := by
  rw [Scheduler.advanced]
  by_cases hspeed : 0 < s.fSpeed
  · rw [if_pos hspeed]
    have hreach := reached_playing hplay now
    have hsince : since now s.oStarttime = now-s.oStarttime := since_eq hstart hwrap
    have hmedia : s.media now = c.reading := by
      rw [h.media hplay le_rfl hwrap hstart, ← h.last, read_last]
    refine ⟨h.last, h.halted, h.speed, fun hle => absurd hspeed (not_lt.mpr hle), h.scheduled,
      h.reached, ?_, ?_⟩
    · intro hbefore
      rcases h.before hbefore with ⟨hs, hr, hc, hp⟩
      refine ⟨hs, hr, hmedia.trans hr, ?_⟩
      show since now s.oStarttime = 0
      rw [hsince]
      exact Nat.sub_eq_zero_of_le (hreach ▸ hbefore)
    · intro hpassed
      rcases h.passed hpassed with ⟨hs, -, -⟩
      refine ⟨hs, ?_, ?_⟩
      · show s.oStarttime+since now s.oStarttime ≤ s.reached now
        rw [hsince, hreach, Nat.add_sub_cancel' hstart]
      · show c.reading = Scheduler.mediaAt _ ((s.reached now : ℚ)-s.oStarttime)
        rw [Scheduler.mediaAt, if_pos hspeed, hsince, hreach, Nat.cast_sub hstart, sub_self,
          zero_mul, add_zero, hmedia]
  · rw [if_neg hspeed]
    exact h

theorem Tracks.process (h : Tracks s c now) (hwrap : now < iWrap) {t : Scheduler}
    (hrun : s.process now = .ok t) : Tracks t c now := by
  rw [Scheduler.process] at hrun
  split_ifs at hrun with hpause hstart
  · rwa [← Except.ok.inj hrun]
  · rwa [← Except.ok.inj hrun]
  · apply (processLoop_same _ hrun).tracks
    exact h.advanced (by simpa using hpause) hwrap (not_lt.mp hstart)

theorem Tracks.receive (h : Tracks s c now) (pPckt : MediaPacket) :
    Tracks (s.receive now pPckt) c now := by
  have hsame : SameTimes s (s.receive now pPckt) := by
    rw [Scheduler.receive, Scheduler.startSchedule, if_pos h.scheduled]
    constructor <;> rfl
  exact hsame.tracks h

theorem Tracks.pause (h : Tracks s c now) : Tracks (s.pause now) c.halt now := by
  rw [Scheduler.pause]
  by_cases hpause : s.bPause = true
  · rw [if_pos hpause]
    exact ⟨h.last, hpause.symm, h.speed, h.unscaled, h.scheduled, h.reached, h.before, h.passed⟩
  · rw [if_neg hpause]
    have hreach := reached_playing (by simpa using hpause) now
    refine ⟨h.last, rfl, h.speed, h.unscaled, h.scheduled, le_rfl, ?_, ?_⟩
    · intro hbefore
      have hnow : now ≤ s.oStarttime := hbefore
      exact h.before (hreach.le.trans hnow)
    · intro hpassed
      have hpassed' := h.passed (hreach.symm ▸ hpassed)
      rw [hreach] at hpassed'
      exact hpassed'

theorem setSpeed_same {x : ℚ} (h : x = -1 ∧ s.fSpeed ≤ 0) (oCurrent : SirannonTime) :
    s.setSpeed oCurrent x = s := by
  rw [Scheduler.setSpeed, if_neg]
  rintro (hne | hpos)
  · exact hne h.1
  · exact absurd hpos (not_lt.mpr h.2)

/-- A speed set while one is in force, or before the clock has started: nothing is added up. -/
theorem setSpeed_change {x : ℚ} {oCurrent : SirannonTime} (hx : 0 < x ∨ 0 < s.fSpeed)
    (h : s.oStarttime = 0 ∨ 0 < s.fSpeed ∨ oCurrent < s.oStarttime) :
    s.setSpeed oCurrent x = { s with fSpeed := x } := by
  have hgiven : x ≠ -1 ∨ 0 < s.fSpeed := by
    rcases hx with hx | hx
    · left
      intro heq
      rw [heq] at hx
      norm_num at hx
    · exact Or.inr hx
  rw [Scheduler.setSpeed, if_pos hgiven, if_neg]
  rintro ⟨hzero, hspeed, hstart⟩
  rcases h with h | h | h
  · exact hzero h
  · exact absurd h (not_lt.mpr hspeed)
  · exact absurd h (not_lt.mpr hstart)

theorem setSpeed_add {x : ℚ} {oCurrent : SirannonTime} (hx : 0 < x) (hzero : s.oStarttime ≠ 0)
    (hspeed : s.fSpeed ≤ 0) (hstart : s.oStarttime ≤ oCurrent) :
    s.setSpeed oCurrent x =
      { s with
        oPrev := since oCurrent s.oStarttime
        fCurrent := since oCurrent s.oStarttime
        fSpeed := x } := by
  have hgiven : x ≠ -1 ∨ 0 < s.fSpeed := by
    left
    intro heq
    rw [heq] at hx
    norm_num at hx
  rw [Scheduler.setSpeed, if_pos hgiven, if_pos ⟨hzero, hspeed, hstart⟩]

/-- The speed changes and the media time stays. -/
theorem Tracks.changed (h : Tracks s c now) {x : ℚ} (hsame : x ≤ 0 → s.fCurrent = s.oPrev)
    (hmedia : s.oStarttime < s.reached now →
      Scheduler.mediaAt { s with fSpeed := x } ((s.reached now : ℚ)-s.oStarttime) =
        s.mediaAt ((s.reached now : ℚ)-s.oStarttime)) :
    Tracks { s with fSpeed := x } { c with speed := speedOf x } now := by
  refine ⟨h.last, h.halted, rfl, hsame, h.scheduled, h.reached, h.before, ?_⟩
  intro hpassed
  rcases h.passed hpassed with ⟨hs, hp, hr⟩
  exact ⟨hs, hp, hr.trans (hmedia hpassed).symm⟩

theorem setSpeed_pos {x : ℚ} (h : 0 < x) : c.setSpeed x = { c with speed := speedOf x } := by
  rw [RateClock.setSpeed, if_pos h, speedOf, if_pos h]

/-- With no speed asked for, the clock keeps its own. -/
theorem Tracks.keepsSpeed (h : Tracks s c now) (hkeeps : s.KeepsSpeed) :
    Tracks (s.setSpeed now (-1)) (c.setSpeed (-1)) now := by
  have hclock : c.setSpeed (-1) = c := by
    rw [RateClock.setSpeed, if_neg (by norm_num)]
  rw [hclock]
  rcases hkeeps with hspeed | ⟨hspeed, hsame⟩
  · rwa [setSpeed_same ⟨rfl, hspeed⟩]
  · have hpos : 0 < s.fSpeed := by
      rw [hspeed]
      exact one_pos
    rw [setSpeed_change (Or.inr hpos) (Or.inr (Or.inl hpos))]
    have hone : c.speed = speedOf (-1) := by
      rw [h.speed, hspeed]
      norm_num [speedOf]
    have hchanged := h.changed (x := -1) (fun _ => hsame) (by
      intro _
      rw [Scheduler.mediaAt, Scheduler.mediaAt, if_neg (by norm_num), if_pos hpos, hspeed, hsame]
      ring)
    rwa [← hone] at hchanged

theorem Tracks.changesSpeed (h : Tracks s c now) {x : ℚ} (hx : 0 < x) (hspeed : 0 < s.fSpeed)
    (hchanges : s.ChangesSpeed now x) : Tracks (s.setSpeed now x) (c.setSpeed x) now := by
  rw [setSpeed_change (Or.inl hx) (Or.inr (Or.inl hspeed)), setSpeed_pos hx]
  apply h.changed (fun hle => absurd hx (not_lt.mpr hle))
  intro hpassed
  rw [Scheduler.mediaAt, Scheduler.mediaAt, if_pos hx, if_pos hspeed]
  rcases hchanges with heq | hbefore | heq
  · show s.fCurrent+_*x = _
    rw [heq]
  · exact absurd (hpassed.trans_le h.reached) (not_lt.mpr hbefore)
  · show s.fCurrent+((s.reached now : ℚ)-s.oStarttime-s.oPrev)*x = _
    rw [heq, Nat.cast_add, add_sub_cancel_left, sub_self, zero_mul, zero_mul]

theorem Tracks.addsSpeed (h : Tracks s c now) {x : ℚ} (hx : 0 < x) (hspeed : s.fSpeed ≤ 0)
    (hwrap : now < iWrap) (hadds : s.AddsSpeed now x) :
    Tracks (s.setSpeed now x) (c.setSpeed x) now := by
  rw [setSpeed_pos hx]
  have hunscaled : ∀ r, s.mediaAt r = r := fun r => by
    rw [Scheduler.mediaAt, if_neg (not_lt.mpr hspeed)]
  rcases Nat.lt_or_ge now s.oStarttime with hstart | hstart
  · rw [setSpeed_change (Or.inl hx) (Or.inr (Or.inr hstart))]
    apply h.changed (fun hle => absurd hx (not_lt.mpr hle))
    intro hpassed
    exact absurd (hpassed.trans_le h.reached) (not_lt.mpr hstart.le)
  by_cases hzero : s.oStarttime = 0
  · rw [setSpeed_change (Or.inl hx) (Or.inl hzero)]
    apply h.changed (fun hle => absurd hx (not_lt.mpr hle))
    intro hpassed
    rw [hunscaled, Scheduler.mediaAt, if_pos hx]
    show s.fCurrent+((s.reached now : ℚ)-s.oStarttime-s.oPrev)*x = _
    rcases hadds with hbefore | ⟨hne, -⟩ | ⟨-, hone | heq⟩
    · exact absurd (hpassed.trans_le h.reached) (not_lt.mpr hbefore)
    · exact absurd hzero hne
    · rw [h.unscaled hspeed, hone]
      ring
    · rw [h.unscaled hspeed, heq, Nat.cast_add, add_sub_cancel_left, sub_self, zero_mul, add_zero]
  · have hreach : s.oStarttime < s.reached now → s.reached now = now := by
      intro hpassed
      rcases hadds with hbefore | ⟨-, heq⟩ | ⟨hz, -⟩
      · exact absurd (hpassed.trans_le h.reached) (not_lt.mpr hbefore)
      · exact heq
      · exact absurd hz hzero
    have hbefore : s.reached now ≤ s.oStarttime → now-s.oStarttime = 0 := by
      intro hle
      rcases hadds with hbefore | ⟨-, heq⟩ | ⟨hz, -⟩
      · exact Nat.sub_eq_zero_of_le hbefore
      · exact Nat.sub_eq_zero_of_le (heq ▸ hle)
      · exact absurd hz hzero
    rw [setSpeed_add hx hzero hspeed hstart, since_eq hstart hwrap]
    refine ⟨h.last, h.halted, rfl, fun _ => rfl, h.scheduled, h.reached, ?_, ?_⟩
    · intro hle
      rcases h.before hle with ⟨hs, hr, -, -⟩
      refine ⟨hs, hr, ?_, hbefore hle⟩
      show ((now-s.oStarttime : ℕ) : ℚ) = 0
      rw [hbefore hle, Nat.cast_zero]
    · intro hpassed
      rcases h.passed hpassed with ⟨hs, -, hr⟩
      refine ⟨hs, ?_, ?_⟩
      · show s.oStarttime+(now-s.oStarttime) ≤ s.reached now
        rw [Nat.add_sub_cancel' hstart, hreach hpassed]
      · show c.reading = Scheduler.mediaAt _ ((s.reached now : ℚ)-s.oStarttime)
        rw [hr, hunscaled, Scheduler.mediaAt, if_pos hx, hreach hpassed, Nat.cast_sub hstart,
          sub_self, zero_mul, add_zero]

theorem Tracks.setSpeed (h : Tracks s c now) {x : ℚ} (hwrap : now < iWrap)
    (hspeeds : s.Speeds now x) : Tracks (s.setSpeed now x) (c.setSpeed x) now := by
  rcases hspeeds with ⟨rfl, hkeeps⟩ | ⟨hx, hspeed, hchanges⟩ | ⟨hx, hspeed, hadds⟩
  · exact h.keepsSpeed hkeeps
  · exact h.changesSpeed hx hspeed hchanges
  · exact h.addsSpeed hx hspeed hwrap hadds

theorem setSpeed_resumes {x : ℚ} {oCurrent : SirannonTime} (h : s.Resumes oCurrent) :
    (s.setSpeed oCurrent x).Resumes oCurrent := by
  rw [Scheduler.setSpeed]
  split_ifs
  · exact h
  · exact h
  · exact h

/-- A pause after the start ends: the start moves by what it took. -/
theorem Tracks.shifted (h : Tracks s c now) (hpause : s.bPause = true) (hwrap : now < iWrap)
    (hpassed : s.oStarttime < s.oPause) :
    Tracks { s with
      bPause := false
      oStarttime := later s.oStarttime (since now s.oPause) } c.go now := by
  have hreach := reached_paused hpause now
  have hle : s.oPause ≤ now := hreach ▸ h.reached
  have hlater : later s.oStarttime (since now s.oPause) = s.oStarttime+(now-s.oPause) := by
    rw [since_eq hle hwrap]
    apply Nat.mod_eq_of_lt
    refine lt_of_le_of_lt ?_ hwrap
    rw [← Nat.add_sub_assoc hle, Nat.sub_le_iff_le_add, Nat.add_comm now]
    exact Nat.add_le_add_right hpassed.le now
  have hlt : s.oStarttime+(now-s.oPause) < now := by
    calc s.oStarttime+(now-s.oPause) < s.oPause+(now-s.oPause) :=
          Nat.add_lt_add_right hpassed _
      _ = now := Nat.add_sub_cancel' hle
  rcases h.passed (hreach.symm ▸ hpassed) with ⟨hs, hp, hr⟩
  rw [hreach] at hs hp hr
  refine ⟨h.last, rfl, h.speed, h.unscaled, h.scheduled, le_rfl, ?_, ?_⟩
  · intro hbefore
    exfalso
    have hbefore' : now ≤ later s.oStarttime (since now s.oPause) := hbefore
    rw [hlater] at hbefore'
    exact absurd hlt (not_lt.mpr hbefore')
  · intro _
    refine ⟨hs.trans (Nat.cast_le.mpr hle), ?_, ?_⟩
    · show later s.oStarttime (since now s.oPause)+s.oPrev ≤ now
      rw [hlater, Nat.add_right_comm]
      calc s.oStarttime+s.oPrev+(now-s.oPause) ≤ s.oPause+(now-s.oPause) :=
            Nat.add_le_add_right hp _
        _ = now := Nat.add_sub_cancel' hle
    · show c.reading = s.mediaAt ((now : ℚ)-(later s.oStarttime (since now s.oPause) : ℕ))
      rw [hr, hlater, Nat.cast_add, Nat.cast_sub hle]
      congr 1
      ring

/-- A pause that ends before the start, or took no time. -/
theorem Tracks.unshifted (h : Tracks s c now) (hpause : s.bPause = true)
    (hnone : now ≤ s.oStarttime ∨ s.oStarttime < s.oPause ∧ now = s.oPause) :
    Tracks { s with bPause := false } c.go now := by
  have hreach := reached_paused hpause now
  refine ⟨h.last, rfl, h.speed, h.unscaled, h.scheduled, le_rfl, ?_, ?_⟩
  · intro hbefore
    have hnow : now ≤ s.oStarttime := hbefore
    exact h.before (h.reached.trans hnow)
  · intro hpassed
    have hnow : s.oStarttime < now := hpassed
    rcases hnone with hle | ⟨hlt, heq⟩
    · exact absurd hnow (not_lt.mpr hle)
    · have hpassed' := h.passed (hreach.symm ▸ hlt)
      rw [hreach, ← heq] at hpassed'
      exact hpassed'

theorem Tracks.resume (h : Tracks s c now) (hwrap : now < iWrap) (hresumes : s.Resumes now) :
    Tracks (s.resume now) c.go now := by
  rw [Scheduler.resume]
  by_cases hpause : s.bPause = true
  · rw [if_pos hpause]
    have hresumes' := hresumes hpause
    by_cases hfirst : convertMsecs s.oStarttime = 0
    · rw [if_pos hfirst]
      apply h.unshifted hpause
      have hsmall : s.oStarttime < MEGA := Nat.lt_of_div_eq_zero (by decide) hfirst
      rcases hresumes' with hle | ⟨hlt, hbig | heq⟩
      · exact Or.inl hle
      · exact absurd hsmall (not_lt.mpr hbig)
      · exact Or.inr ⟨hlt, heq⟩
    · rw [if_neg hfirst]
      by_cases hpassed : s.oStarttime < s.oPause
      · rw [if_pos hpassed]
        exact h.shifted hpause hwrap hpassed
      · rw [if_neg hpassed]
        apply h.unshifted hpause
        rcases hresumes' with hle | ⟨hlt, -⟩
        · exact Or.inl hle
        · exact absurd hlt hpassed
  · rw [if_neg hpause]
    have hplay : s.bPause = false := by simpa using hpause
    exact ⟨h.last, hplay.symm, h.speed, h.unscaled, h.scheduled, h.reached, h.before, h.passed⟩

theorem Tracks.called (h : Tracks s c now) {call : Call} (ht : now ≤ call.time)
    (hwrap : call.time < iWrap) (hsound : s.Sound call) {t : Scheduler}
    (hstep : s.called call = .ok t) : Tracks t (clockCalled c call) call.time := by
  have hmoved := h.moved ht
  cases call with
  | receive oCurrent pPckt =>
    rw [← Except.ok.inj hstep]
    exact hmoved.receive pPckt
  | process oCurrent => exact hmoved.process hwrap hstep
  | pause oCurrent =>
    rw [← Except.ok.inj hstep]
    exact hmoved.pause
  | play oCurrent x =>
    rw [← Except.ok.inj hstep]
    exact (hmoved.setSpeed hwrap hsound.1).resume hwrap (setSpeed_resumes hsound.2)

theorem Tracks.calls (h : Tracks s c now) {calls : List Call} (htimely : Timely now calls)
    (hsound : SoundCalls s calls) {t : Scheduler} (hrun : s.calls calls = .ok t) :
    Tracks t (calls.foldl clockCalled c) (lastTime now calls) := by
  induction calls generalizing s c now with
  | nil => rwa [← Except.ok.inj hrun]
  | cons call rest ih =>
    rw [Scheduler.calls] at hrun
    cases hstep : s.called call with
    | error e =>
      rw [hstep] at hrun
      cases hrun
    | ok u =>
      rw [hstep] at hrun
      exact ih (h.called htimely.1 htimely.2.1 hsound.1 hstep) htimely.2.2 (hsound.2 u hstep) hrun

/-! ## From the first packet on -/

def started (kind : Kind) (delay : ℤ) (pause : Bool) (speed : ℚ) (now : SirannonTime)
    (pPckt : MediaPacket) : Scheduler :=
  (Scheduler.init kind delay pause speed).receive now pPckt

def startedClock (delay : ℤ) (pause : Bool) (speed : ℚ) (now : SirannonTime) : RateClock ℚ :=
  firstClock (later now (fromMSecs delay)) now pause speed

theorem speedOf_one (x : ℚ) : speedOf (if x = 1 then -1 else x) = speedOf x := by
  split_ifs with h
  · rw [h]
    norm_num [speedOf]
  · rfl

theorem started_starttime (kind : Kind) (delay : ℤ) (pause : Bool) (speed : ℚ)
    (now : SirannonTime) (pPckt : MediaPacket) :
    (started kind delay pause speed now pPckt).oStarttime = later now (fromMSecs delay) := rfl

theorem startedClock_reading (delay : ℤ) (pause : Bool) (speed : ℚ) (now : SirannonTime) :
    (startedClock delay pause speed now).reading =
      speedOf speed*after ((later now (fromMSecs delay) : ℕ) : ℚ)
        (later now (fromMSecs delay) : ℕ) now := rfl

theorem started_tracks (kind : Kind) (delay : ℤ) (pause : Bool) (speed : ℚ) (now : SirannonTime)
    (pPckt : MediaPacket) :
    Tracks (started kind delay pause speed now pPckt) (startedClock delay pause speed now) now := by
  have hreach : (started kind delay pause speed now pPckt).reached now = now := by
    cases pause <;> rfl
  refine ⟨rfl, rfl, (speedOf_one speed).symm, fun _ => rfl, rfl, hreach.le, ?_, ?_⟩
  · intro hbefore
    rw [hreach, started_starttime] at hbefore
    refine ⟨rfl, ?_, rfl, rfl⟩
    rw [startedClock_reading, after_before (Nat.cast_le.mpr hbefore) le_rfl, mul_zero]
  · intro hpassed
    rw [hreach, started_starttime] at hpassed ⊢
    have hspeed : speedOf (started kind delay pause speed now pPckt).fSpeed = speedOf speed :=
      speedOf_one speed
    have hprev : (started kind delay pause speed now pPckt).oPrev = 0 := rfl
    refine ⟨Nat.cast_le.mpr hpassed.le, ?_, ?_⟩
    · rw [hprev, Nat.add_zero]
      exact hpassed.le
    · rw [mediaAt_first rfl rfl, hspeed, startedClock_reading,
        after_across (Nat.cast_le.mpr hpassed.le) le_rfl]

/-- The media time is the reading of the clock, which does not go back, jump or run in a pause. -/
structure OnClock (s : Scheduler) (c : RateClock ℚ) (now : SirannonTime) : Prop where
  media : s.bPause = false → ∀ t : SirannonTime, now ≤ t → t < iWrap → s.oStarttime ≤ t →
    s.media t = c.read t
  forward : ∀ t t' : ℚ, t ≤ t' → c.read t ≤ c.read t'
  steady : ∀ t t' : ℚ, t ≤ t' → c.read t' ≤ c.read t+c.speed*(t'-t)
  paused : s.bPause = true → ∀ t, c.read t = c.reading
  jump : ∀ call : Call, (clockCalled c call).read call.time = c.read call.time

theorem clockCalled_read (c : RateClock ℚ) (call : Call) :
    (clockCalled c call).read call.time = c.read call.time := by
  cases call with
  | receive oCurrent pPckt => exact moved_read c _ _
  | process oCurrent => exact moved_read c _ _
  | pause oCurrent => exact (halt_read (c.moved oCurrent)).trans (moved_read c _ _)
  | play oCurrent x =>
    have hgo := go_read ((c.moved oCurrent).setSpeed x)
    rw [setSpeed_last] at hgo
    exact hgo.trans ((setSpeed_read (c.moved oCurrent) x).trans (moved_read c _ _))

theorem Tracks.onClock (h : Tracks s c now) : OnClock s c now := by
  have hspeed : 0 ≤ c.speed := by
    rw [h.speed]
    exact (speedOf_pos _).le
  constructor
  · intro hplay t ht hwrap hstart
    exact h.media hplay ht hwrap hstart
  · intro t t' ht
    exact read_mono hspeed ht
  · intro t t' ht
    exact read_step hspeed ht
  · intro hpause
    exact read_halted (h.halted.trans hpause)
  · exact clockCalled_read c

theorem media_on_clock (kind : Kind) (delay : ℤ) (pause : Bool) (speed : ℚ) (now : SirannonTime)
    (pPckt : MediaPacket) (calls : List Call) (htimely : Timely now calls)
    (hsound : SoundCalls (started kind delay pause speed now pPckt) calls) {t : Scheduler}
    (hrun : (started kind delay pause speed now pPckt).calls calls = .ok t) :
    OnClock t (calls.foldl clockCalled (startedClock delay pause speed now))
      (lastTime now calls) :=
  ((started_tracks kind delay pause speed now pPckt).calls htimely hsound hrun).onClock

def firstSecond : Scheduler :=
  started .basic 0 false 1 1000000000 (MediaPacket.new .media .video 0)

theorem firstSecond_starttime : firstSecond.oStarttime = 1000000000 := by
  simp [firstSecond, started, Scheduler.receive, Scheduler.startSchedule, Scheduler.init, later,
    fromMSecs, uint32, iWrap]

/-- A second is played, the next is a pause. -/
def pausedCalls : List Call := [.pause 2000000000, .play 3000000000 (-1)]

theorem media_on_clock_paused :
    ∃ t, firstSecond.calls pausedCalls = .ok t ∧
      OnClock t (pausedCalls.foldl clockCalled (startedClock 0 false 1 1000000000)) 3000000000 := by
  refine ⟨_, rfl, media_on_clock .basic 0 false 1 1000000000 (MediaPacket.new .media .video 0)
    pausedCalls ?_ ?_ rfl⟩
  · simp [pausedCalls, Timely, Call.time, iWrap]
  · refine ⟨trivial, fun t ht => ⟨⟨?_, ?_⟩, fun _ _ => trivial⟩⟩
    · rw [← Except.ok.inj ht]
      exact Or.inl ⟨rfl, Or.inl (by norm_num [Scheduler.pause, started, Scheduler.receive,
        Scheduler.startSchedule, Scheduler.init])⟩
    · rw [← Except.ok.inj ht]
      intro _
      right
      have hstart := firstSecond_starttime
      show firstSecond.oStarttime < 2000000000 ∧ (MEGA ≤ firstSecond.oStarttime ∨ _)
      rw [hstart]
      exact ⟨by norm_num, Or.inl (by norm_num [MEGA])⟩

theorem resume_unpaused (h : s.bPause = false) (oCurrent : SirannonTime) :
    s.resume oCurrent = s := by
  rw [Scheduler.resume, if_neg (by simp [h])]

/-- Without a speed the time since the start counts, whatever was read before. -/
theorem media_withdrawn (hspeed : 0 < s.fSpeed) (hplay : s.bPause = false)
    (oCurrent t : SirannonTime) :
    (s.play oCurrent (-1)).media t = since t s.oStarttime := by
  rw [Scheduler.play, setSpeed_change (Or.inr hspeed) (Or.inr (Or.inl hspeed)),
    @resume_unpaused { s with fSpeed := -1 } hplay, Scheduler.media, if_neg (by norm_num)]

theorem resume_playing (s : Scheduler) (oCurrent : SirannonTime) :
    (s.resume oCurrent).bPause = false := by
  rw [Scheduler.resume]
  split_ifs with hpause
  · rfl
  · rfl
  · rfl
  · simpa using hpause

/-- The speed 2, taken back a second later. -/
def withdrawnCalls : List Call := [.play 1000000000 2, .play 2000000000 (-1)]

theorem withdrawn_speed_jumps :
    ∃ t, firstSecond.calls withdrawnCalls = .ok t ∧ Timely 1000000000 withdrawnCalls ∧
      ¬ OnClock t (withdrawnCalls.foldl clockCalled (startedClock 0 false 1 1000000000))
        (lastTime 1000000000 withdrawnCalls) := by
  have hfirst : firstSecond.play 1000000000 2 =
      { firstSecond with oPrev := 0, fCurrent := 0, fSpeed := 2 } := by
    have hsince : since 1000000000 firstSecond.oStarttime = 0 := by
      rw [firstSecond_starttime, since_eq le_rfl (by norm_num [iWrap]), Nat.sub_self]
    rw [Scheduler.play, setSpeed_add (by norm_num) (by rw [firstSecond_starttime]; norm_num)
      (by norm_num [firstSecond, started, Scheduler.receive, Scheduler.startSchedule,
        Scheduler.init]) firstSecond_starttime.le, hsince, Nat.cast_zero]
    exact resume_unpaused rfl _
  have hmedia : (((firstSecond.play 1000000000 2).play 2000000000 (-1)).media 2000000000) =
      1000000000 := by
    rw [hfirst, media_withdrawn (by norm_num) rfl]
    show ((since 2000000000 firstSecond.oStarttime : ℕ) : ℚ) = _
    rw [firstSecond_starttime]
    norm_num [since, iWrap]
  have hstart : ((firstSecond.play 1000000000 2).play 2000000000 (-1)).oStarttime ≤
      2000000000 := by
    rw [hfirst, Scheduler.play, setSpeed_change (Or.inr (by norm_num))
      (Or.inr (Or.inl (by norm_num)))]
    show firstSecond.oStarttime ≤ 2000000000
    rw [firstSecond_starttime]
    norm_num
  refine ⟨(firstSecond.play 1000000000 2).play 2000000000 (-1), rfl,
    by simp [withdrawnCalls, Timely, Call.time, iWrap], ?_⟩
  intro hclock
  have hread := hclock.media (resume_playing _ _) 2000000000 le_rfl (by norm_num [iWrap]) hstart
  rw [hmedia] at hread
  norm_num [withdrawnCalls, clockCalled, RateClock.go, RateClock.setSpeed, RateClock.moved,
    RateClock.read, RateClock.rate, after, startedClock, firstClock, speedOf, later, fromMSecs,
    uint32, iWrap] at hread

end Sirannon.Scheduling
