import Sirannon.Scheduler

/-!
# What the schedulers release

Whatever makes a group and however it is spread, packets leave in the order
they came in, none before its time and none while the scheduler is paused. Only
a window whose length in ticks is not positive makes a group without packets.
-/

set_option autoImplicit false

namespace Sirannon.Scheduling
open Bits Media MachineInt

/-- A packet apart from the time it is sent at. -/
def unsent (pPckt : MediaPacket) : MediaPacket := MediaPacket.sendAt pPckt 0

/-! ## Groups -/

theorem select_append {κ : Type} (enlist : κ → MediaPacket → Option κ) (k : κ)
    (vBuffer : List MediaPacket) :
    (select enlist k vBuffer).1 ++ (select enlist k vBuffer).2 = vBuffer := by
  induction vBuffer generalizing k with
  | nil => rfl
  | cons pPckt vBuffer ih =>
    rw [select]
    cases enlist k pPckt with
    | none => rfl
    | some k' =>
      show pPckt::((select enlist k' vBuffer).1 ++ (select enlist k' vBuffer).2) = _
      rw [ih]

theorem select_first {κ : Type} {enlist : κ → MediaPacket → Option κ} {k k' : κ}
    {pPckt : MediaPacket} (vBuffer : List MediaPacket) (h : enlist k pPckt = some k') :
    (select enlist k (pPckt::vBuffer)).1 ≠ [] := by
  rw [select, h]
  exact List.cons_ne_nil _ _

theorem group_append (kind : Kind) (vBuffer : List MediaPacket) :
    (kind.group vBuffer).1 ++ (kind.group vBuffer).2 = vBuffer := by
  cases kind with
  | basic => exact select_append _ _ _
  | frame => exact select_append _ _ _
  | gop => exact select_append _ _ _
  | svc => exact select_append _ _ _
  | window iWindow =>
    cases vBuffer with
    | nil => rfl
    | cons front rest => exact select_append _ _ _

/-- The length of a window, as the code computes it, is positive. -/
def Kind.Ready : Kind → Prop
  | .window iWindow => 0 < int32 (iWindow*90)
  | _ => True

theorem int32_zero : int32 0 = 0 := int32_of_range 0 (by norm_num) (by norm_num)

theorem group_nonempty {kind : Kind} (h : kind.Ready) {vBuffer : List MediaPacket}
    (hne : vBuffer ≠ []) : (kind.group vBuffer).1 ≠ [] := by
  cases vBuffer with
  | nil => exact absurd rfl hne
  | cons front rest =>
    cases kind with
    | basic =>
      have hfirst : enlistBasic (-1) front = some front.dts := by simp [enlistBasic]
      exact select_first rest hfirst
    | frame =>
      have hfirst : enlistFrame none front = some (some front.framenumber) := rfl
      exact select_first rest hfirst
    | gop =>
      have hfirst : enlistGOP (-1) front = some front.framenumber := by simp [enlistGOP]
      exact select_first rest hfirst
    | svc =>
      have hfirst : enlistSVC (-1) front = some front.framenumber := by simp [enlistSVC]
      exact select_first rest hfirst
    | window iWindow =>
      have hfirst : enlistWindow iWindow front.dts front = some front.dts := by
        rw [enlistWindow, sub_self, int32_zero, if_neg (not_le.mpr h)]
      exact select_first rest hfirst

theorem group_empty {iWindow : ℤ} (h : ¬ (Kind.window iWindow).Ready) (vBuffer : List MediaPacket) :
    ((Kind.window iWindow).group vBuffer).1 = [] := by
  cases vBuffer with
  | nil => rfl
  | cons front rest =>
    show (select (enlistWindow iWindow) front.dts (front::rest)).1 = []
    rw [select, enlistWindow, sub_self, int32_zero, if_pos (not_lt.mp h)]

theorem spread_unsent (oSend : ℕ → SirannonTime) (iSize : ℕ) (vSend : List MediaPacket) :
    (spread oSend iSize vSend).map unsent = vSend.map unsent := by
  induction vSend generalizing iSize with
  | nil => rfl
  | cons pPckt vSend ih =>
    rw [spread, List.map_cons, ih, List.map_cons]
    rfl

theorem schedule_unsent (kind : Kind) (iBase : ℤ) (vSend : List MediaPacket) :
    (kind.schedule iBase vSend).map unsent = vSend.map unsent := by
  rw [Kind.schedule]
  split
  · exact spread_unsent _ _ _
  · rfl

theorem schedule_nil {kind : Kind} {iBase : ℤ} {vSend : List MediaPacket} :
    kind.schedule iBase vSend = [] ↔ vSend = [] := by
  have h := congrArg List.length (schedule_unsent kind iBase vSend)
  rw [List.length_map, List.length_map] at h
  rw [← List.length_eq_zero_iff, h, List.length_eq_zero_iff]

/-! ## What holds at every moment -/

structure Released.Due (r : Released) : Prop where
  due : (r.oStarttime : ℤ)+r.pckt.oSend ≤ r.oCurrent

/-- The packets on their way and those that wait are the ones received, in their order. -/
structure Orderly (received : List MediaPacket) (s : Scheduler) : Prop where
  order : (s.routed.map Released.pckt ++ s.vSend ++ s.vBuffer).map unsent = received.map unsent
  sending : s.bSending = true ↔ s.vSend ≠ []
  due : ∀ r ∈ s.routed, r.Due
  speed : s.fSpeed ≤ 0
  start : s.oStarttime < iWrap

variable {received : List MediaPacket} {s : Scheduler}

theorem makeSchedule_orderly (h : Orderly received s) (hready : s.kind.Ready)
    (hidle : s.bSending = false) (hne : s.vBuffer ≠ []) :
    s.makeSchedule.vSend ≠ [] ∧ Orderly received { s.makeSchedule with bSending := true } := by
  have hempty : s.vSend = [] := by
    by_contra hsend
    rw [h.sending.mpr hsend] at hidle
    cases hidle
  have hsend : s.makeSchedule.vSend ≠ [] := by
    intro hnil
    rw [Scheduler.makeSchedule, schedule_nil, hempty, List.nil_append] at hnil
    exact group_nonempty hready hne hnil
  refine ⟨hsend, ⟨?_, by simp [hsend], h.due, h.speed, h.start⟩⟩
  have horder := h.order
  rw [← group_append s.kind s.vBuffer] at horder
  simp only [Scheduler.makeSchedule, List.map_append, schedule_unsent] at horder ⊢
  rw [← horder]
  simp only [List.append_assoc]

theorem send_orderly (h : Orderly received s) {oNow oCurrent : SirannonTime} {pPckt : MediaPacket}
    {rest : List MediaPacket} (hsend : s.vSend = pPckt::rest)
    (hnow : s.oStarttime+oCurrent ≤ oNow) (htime : ¬ (oCurrent : ℤ) < pPckt.oSend) :
    Orderly received (s.send oNow pPckt rest) := by
  refine ⟨?_, by simp [Scheduler.send], ?_, h.speed, h.start⟩
  · rw [← h.order, hsend]
    simp [Scheduler.send]
  · intro r hr
    rcases List.mem_append.mp hr with hr | hr
    · exact h.due r hr
    · rw [List.mem_singleton.mp hr]
      have hsum : (s.oStarttime : ℤ)+oCurrent ≤ oNow := by exact_mod_cast hnow
      constructor
      show (s.oStarttime : ℤ)+pPckt.oSend ≤ oNow
      exact (Int.add_le_add_left (not_lt.mp htime) _).trans hsum

/-- How many turns are left at most. -/
def Scheduler.turns (s : Scheduler) : ℕ := 2*s.vBuffer.length+s.vSend.length

theorem makeSchedule_turns (hready : s.kind.Ready) (hne : s.vBuffer ≠ []) :
    s.makeSchedule.turns < s.turns := by
  have hgroup := congrArg List.length (group_append s.kind s.vBuffer)
  have hpos := List.length_pos_of_ne_nil (group_nonempty hready hne)
  have hlength := congrArg List.length
    (schedule_unsent s.kind s.iBase (s.vSend ++ (s.kind.group s.vBuffer).1))
  rw [List.length_map, List.length_map, List.length_append] at hlength
  rw [List.length_append] at hgroup
  simp only [Scheduler.turns, Scheduler.makeSchedule, hlength]
  omega

/-- The loop ends when nothing is left, or the next packet has to wait. -/
def Finished (oCurrent : SirannonTime) (s : Scheduler) : Prop :=
  match s.vSend with
  | [] => s.vBuffer = []
  | pPckt::_ => (oCurrent : ℤ) < pPckt.oSend

theorem processLoop_orderly (fuel : ℕ) {oNow oCurrent : SirannonTime} (h : Orderly received s)
    (hready : s.kind.Ready) (hnow : s.oStarttime+oCurrent ≤ oNow) (hfuel : s.turns < fuel) :
    ∃ t, processLoop oNow oCurrent fuel s = .ok t ∧ Orderly received t ∧ t.kind = s.kind ∧
      Finished oCurrent t := by
  induction fuel generalizing s with
  | zero => omega
  | succ fuel ih =>
    rw [processLoop]
    by_cases hsending : s.bSending = true
    · rw [if_pos hsending]
      cases hsend : s.vSend with
      | nil => exact absurd hsend (h.sending.mp hsending)
      | cons pPckt rest =>
        dsimp only
        by_cases htime : (oCurrent : ℤ) < pPckt.oSend
        · rw [if_pos htime]
          refine ⟨s, rfl, h, rfl, ?_⟩
          rw [Finished, hsend]
          exact htime
        · rw [if_neg htime]
          apply ih (send_orderly h hsend hnow htime) hready hnow
          rw [Scheduler.turns, hsend, List.length_cons] at hfuel
          simp only [Scheduler.turns, Scheduler.send]
          omega
    · rw [if_neg hsending]
      by_cases hempty : s.vBuffer = []
      · rw [if_pos hempty]
        have hnil : s.vSend = [] := by
          by_contra hne
          exact hsending (h.sending.mpr hne)
        refine ⟨s, rfl, h, rfl, ?_⟩
        rw [Finished, hnil]
        exact hempty
      · rw [if_neg hempty]
        rcases makeSchedule_orderly h hready (by simpa using hsending) hempty with ⟨hne, horderly⟩
        have hturns := makeSchedule_turns hready hempty
        rw [if_neg hne]
        exact ih horderly hready hnow (by
          show s.makeSchedule.turns < fuel
          omega)

/-! ## Whole runs -/

inductive Op
  | receive (oCurrent : SirannonTime) (pPckt : MediaPacket)
  | process (oCurrent : SirannonTime)
  | pause (oCurrent : SirannonTime)
  | play (oCurrent : SirannonTime)

def Scheduler.applied (s : Scheduler) : Op → Except SirannonException Scheduler
  | .receive oCurrent pPckt => .ok (s.receive oCurrent pPckt)
  | .process oCurrent => s.process oCurrent
  | .pause oCurrent => .ok (s.pause oCurrent)
  | .play oCurrent => .ok (s.play oCurrent (-1))

def Scheduler.run (s : Scheduler) : List Op → Except SirannonException Scheduler
  | [] => .ok s
  | op::ops =>
    match s.applied op with
    | .error e => .error e
    | .ok t => t.run ops

def receivedBy : List Op → List MediaPacket
  | [] => []
  | .receive _ pPckt::ops => pPckt::receivedBy ops
  | _::ops => receivedBy ops

theorem since_le {t t' : SirannonTime} (h : t' ≤ t) (h' : t' < iWrap) : t'+since t t' ≤ t := by
  have hsum : t+(iWrap-t') = (t-t')+iWrap := by
    rw [← Nat.add_sub_assoc h'.le, Nat.sub_add_comm h]
  rw [since, hsum, Nat.add_mod_right]
  exact (Nat.add_le_add_left (Nat.mod_le _ _) _).trans_eq (Nat.add_sub_cancel' h)

theorem since_lt (t t' : SirannonTime) : since t t' < iWrap := Nat.mod_lt _ (by decide)

theorem media_unscaled (h : s.fSpeed ≤ 0) (oCurrent : SirannonTime) :
    fromNSecs ⌊s.media oCurrent⌋₊ = since oCurrent s.oStarttime := by
  rw [Scheduler.media, if_neg (not_lt.mpr h), Nat.floor_natCast, fromNSecs,
    Nat.mod_eq_of_lt (since_lt _ _)]

theorem process_paused (h : s.bPause = true) (oCurrent : SirannonTime) :
    s.process oCurrent = .ok s := by
  rw [Scheduler.process, if_pos h]

theorem process_orderly (h : Orderly received s) (hready : s.kind.Ready)
    (oCurrent : SirannonTime) :
    ∃ t, s.process oCurrent = .ok t ∧ Orderly received t ∧ t.kind = s.kind ∧
      (s.bPause = false → s.oStarttime ≤ oCurrent →
        Finished (since oCurrent s.oStarttime) t) := by
  rw [Scheduler.process]
  by_cases hpause : s.bPause = true
  · rw [if_pos hpause]
    exact ⟨s, rfl, h, rfl, fun hplay => by rw [hpause] at hplay; cases hplay⟩
  rw [if_neg hpause]
  by_cases hstart : oCurrent < s.oStarttime
  · rw [if_pos hstart]
    exact ⟨s, rfl, h, rfl, fun _ hle => absurd hstart (not_lt.mpr hle)⟩
  rw [if_neg hstart, media_unscaled h.speed, Scheduler.advanced, if_neg (not_lt.mpr h.speed)]
  have hnow := since_le (not_lt.mp hstart) h.start
  rcases processLoop_orderly (2*s.vBuffer.length+s.vSend.length+1) h hready hnow
    (Nat.lt_succ_self _) with ⟨t, hrun, ht, hkind, hfinished⟩
  exact ⟨t, hrun, ht, hkind, fun _ _ => hfinished⟩

theorem receive_orderly (h : Orderly received s) (oCurrent : SirannonTime)
    (pPckt : MediaPacket) : Orderly (received ++ [pPckt]) (s.receive oCurrent pPckt) := by
  have horder : (s.routed.map Released.pckt ++ s.vSend ++ (s.vBuffer ++ [pPckt])).map unsent =
      (received ++ [pPckt]).map unsent := by
    rw [← List.append_assoc, List.map_append, h.order, List.map_append]
  rw [Scheduler.receive, Scheduler.startSchedule]
  split_ifs
  · exact ⟨horder, h.sending, h.due, h.speed, h.start⟩
  · exact ⟨horder, h.sending, h.due, h.speed, Nat.mod_lt _ (by decide)⟩
  · exact ⟨horder, h.sending, h.due, h.speed, h.start⟩

theorem pause_orderly (h : Orderly received s) (oCurrent : SirannonTime) :
    Orderly received (s.pause oCurrent) := by
  rw [Scheduler.pause]
  split_ifs
  · exact h
  · exact ⟨h.order, h.sending, h.due, h.speed, h.start⟩

theorem play_orderly (h : Orderly received s) (oCurrent : SirannonTime) :
    Orderly received (s.play oCurrent (-1)) := by
  have hspeed : s.setSpeed oCurrent (-1) = s := by
    rw [Scheduler.setSpeed, if_neg]
    rintro (hne | hpos)
    · exact hne rfl
    · exact absurd hpos (not_lt.mpr h.speed)
  rw [Scheduler.play, hspeed, Scheduler.resume]
  split_ifs
  · exact ⟨h.order, h.sending, h.due, h.speed, h.start⟩
  · exact ⟨h.order, h.sending, h.due, h.speed, Nat.mod_lt _ (by decide)⟩
  · exact ⟨h.order, h.sending, h.due, h.speed, h.start⟩
  · exact h

theorem applied_orderly (h : Orderly received s) (hready : s.kind.Ready) (op : Op) :
    ∃ t, s.applied op = .ok t ∧ Orderly (received ++ receivedBy [op]) t ∧ t.kind = s.kind := by
  cases op with
  | receive oCurrent pPckt =>
    refine ⟨_, rfl, receive_orderly h oCurrent pPckt, ?_⟩
    rw [Scheduler.receive, Scheduler.startSchedule]
    split_ifs <;> rfl
  | process oCurrent =>
    rcases process_orderly h hready oCurrent with ⟨t, hrun, ht, hkind, -⟩
    refine ⟨t, hrun, ?_, hkind⟩
    show Orderly (received ++ []) t
    rw [List.append_nil]
    exact ht
  | pause oCurrent =>
    refine ⟨_, rfl, ?_, ?_⟩
    · show Orderly (received ++ []) _
      rw [List.append_nil]
      exact pause_orderly h oCurrent
    · rw [Scheduler.pause]
      split_ifs <;> rfl
  | play oCurrent =>
    refine ⟨_, rfl, ?_, ?_⟩
    · show Orderly (received ++ []) _
      rw [List.append_nil]
      exact play_orderly h oCurrent
    · rw [Scheduler.play, Scheduler.resume, Scheduler.setSpeed]
      split_ifs <;> rfl

theorem receivedBy_cons (op : Op) (ops : List Op) :
    receivedBy (op::ops) = receivedBy [op] ++ receivedBy ops := by
  cases op <;> rfl

theorem run_orderly (ops : List Op) (h : Orderly received s) (hready : s.kind.Ready) :
    ∃ t, s.run ops = .ok t ∧ Orderly (received ++ receivedBy ops) t ∧ t.kind = s.kind := by
  induction ops generalizing s received with
  | nil => exact ⟨s, rfl, by rwa [receivedBy, List.append_nil], rfl⟩
  | cons op ops ih =>
    rcases applied_orderly h hready op with ⟨t, hstep, ht, hkind⟩
    rcases ih ht (by rwa [hkind]) with ⟨u, hrun, hu, hkind'⟩
    refine ⟨u, ?_, ?_, hkind'.trans hkind⟩
    · rw [Scheduler.run, hstep]
      exact hrun
    · rw [receivedBy_cons, ← List.append_assoc]
      exact hu

theorem init_orderly (kind : Kind) (delay : ℤ) (pause : Bool) :
    Orderly [] (Scheduler.init kind delay pause 1) where
  order := rfl
  sending := by simp [Scheduler.init]
  due := by simp [Scheduler.init]
  speed := by simp [Scheduler.init]
  start := by simp [Scheduler.init, iWrap]

theorem applied_paused (h : s.bPause = true) {op : Op} {t : Scheduler}
    (hstep : s.applied op = .ok t) : t.routed = s.routed := by
  cases op with
  | receive oCurrent pPckt =>
    have ht : s.receive oCurrent pPckt = t := Except.ok.inj hstep
    rw [← ht, Scheduler.receive, Scheduler.startSchedule]
    split_ifs <;> rfl
  | process oCurrent =>
    have ht : s.process oCurrent = .ok t := hstep
    rw [process_paused h] at ht
    rw [Except.ok.inj ht]
  | pause oCurrent =>
    have ht : s.pause oCurrent = t := Except.ok.inj hstep
    rw [← ht, Scheduler.pause, if_pos h]
  | play oCurrent =>
    have ht : s.play oCurrent (-1) = t := Except.ok.inj hstep
    rw [← ht, Scheduler.play, Scheduler.resume, Scheduler.setSpeed]
    split_ifs <;> rfl

/-! ## The windows that fail -/

def Op.time : Op → SirannonTime
  | .receive oCurrent _ => oCurrent
  | .process oCurrent => oCurrent
  | .pause oCurrent => oCurrent
  | .play oCurrent => oCurrent

/-- Calls a client can make: the clock does not go back. -/
structure Calls (ops : List Op) : Prop where
  clock : (ops.map Op.time).IsChain (· ≤ ·)
  dts : ∀ pPckt ∈ receivedBy ops, 0 ≤ pPckt.dts
  inc : ∀ pPckt ∈ receivedBy ops, 0 ≤ pPckt.inc

structure Releases (received : List MediaPacket) (s : Scheduler) : Prop where
  order : (s.routed.map Released.pckt ++ s.vSend ++ s.vBuffer).map unsent = received.map unsent
  due : ∀ r ∈ s.routed, r.Due
  paused : s.bPause = true → ∀ op t, s.applied op = .ok t → t.routed = s.routed

/-- Every run goes without an error, and releases what it received. -/
def Kind.Correct (kind : Kind) : Prop :=
  ∀ (delay : ℤ) (pause : Bool) (ops : List Op), Calls ops →
    ∃ s, (Scheduler.init kind delay pause 1).run ops = .ok s ∧ Releases (receivedBy ops) s

theorem Orderly.releases (h : Orderly received s) : Releases received s :=
  ⟨h.order, h.due, fun hpause _ _ hstep => applied_paused hpause hstep⟩

def firstCalls : List Op := [.receive 0 (MediaPacket.new .media .video 0), .process 0]

theorem firstCalls_calls : Calls firstCalls where
  clock := by simp [firstCalls, Op.time]
  dts := by simp [firstCalls, receivedBy, MediaPacket.new, Metadata.new]
  inc := by simp [firstCalls, receivedBy, MediaPacket.new, Metadata.new]

theorem processLoop_underflow {iWindow : ℤ} (h : ¬ (Kind.window iWindow).Ready)
    (hkind : s.kind = .window iWindow) (hidle : s.bSending = false) (hsend : s.vSend = [])
    (hne : s.vBuffer ≠ []) (oNow oCurrent : SirannonTime) (fuel : ℕ) :
    processLoop oNow oCurrent (fuel+1) s = .error (runtimeError "Sendbuffer underflow") := by
  have hmake : s.makeSchedule.vSend = [] := by
    rw [Scheduler.makeSchedule, schedule_nil, hsend, hkind, group_empty h, List.append_nil]
  rw [processLoop, if_neg (by simp [hidle]), if_neg hne, if_pos hmake]

theorem process_underflow {iWindow : ℤ} (h : ¬ (Kind.window iWindow).Ready)
    (hkind : s.kind = .window iWindow) (hplay : s.bPause = false) (hidle : s.bSending = false)
    (hsend : s.vSend = []) (hne : s.vBuffer ≠ []) (hspeed : s.fSpeed ≤ 0) {oNow : SirannonTime}
    (hstart : s.oStarttime ≤ oNow) :
    s.process oNow = .error (runtimeError "Sendbuffer underflow") := by
  rw [Scheduler.process, if_neg (by simp [hplay]), if_neg (not_lt.mpr hstart),
    Scheduler.advanced, if_neg (not_lt.mpr hspeed)]
  exact processLoop_underflow h hkind hidle hsend hne _ _ _

theorem first_starttime (kind : Kind) (pPckt : MediaPacket) :
    ((Scheduler.init kind 0 false 1).receive 0 pPckt).oStarttime = 0 := by
  simp [Scheduler.receive, Scheduler.startSchedule, Scheduler.init, later, fromMSecs, uint32]

theorem underflow {iWindow : ℤ} (h : ¬ (Kind.window iWindow).Ready) :
    (Scheduler.init (.window iWindow) 0 false 1).run firstCalls =
      .error (runtimeError "Sendbuffer underflow") := by
  rw [firstCalls, Scheduler.run, Scheduler.applied]
  dsimp only
  rw [Scheduler.run, Scheduler.applied, process_underflow h]
  · simp [Scheduler.receive, Scheduler.startSchedule, Scheduler.init]
  · simp [Scheduler.receive, Scheduler.startSchedule, Scheduler.init]
  · simp [Scheduler.receive, Scheduler.startSchedule, Scheduler.init]
  · simp [Scheduler.receive, Scheduler.startSchedule, Scheduler.init]
  · simp [Scheduler.receive]
  · simp [Scheduler.receive, Scheduler.startSchedule, Scheduler.init]
  · rw [first_starttime]

theorem releases_iff_ready (kind : Kind) : kind.Correct ↔ kind.Ready := by
  constructor
  · intro hcorrect
    by_contra hready
    cases kind with
    | window iWindow =>
      rcases hcorrect 0 false firstCalls firstCalls_calls with ⟨s, hrun, -⟩
      rw [underflow hready] at hrun
      cases hrun
    | basic => exact hready trivial
    | frame => exact hready trivial
    | gop => exact hready trivial
    | svc => exact hready trivial
  · intro hready delay pause ops _
    rcases run_orderly ops (init_orderly kind delay pause) hready with ⟨s, hrun, hs, -⟩
    exact ⟨s, hrun, hs.releases⟩

theorem longWindow_not_ready : ¬ (Kind.window 24000000).Ready := by
  rw [Kind.Ready, int32]
  decide

/-- A window of 24000000 ms has more than 2^31 ticks. -/
theorem long_window_underflow : ¬ (Kind.window 24000000).Correct := by
  intro hcorrect
  rcases hcorrect 0 false firstCalls firstCalls_calls with ⟨s, hrun, -⟩
  rw [underflow longWindow_not_ready] at hrun
  cases hrun

end Sirannon.Scheduling
