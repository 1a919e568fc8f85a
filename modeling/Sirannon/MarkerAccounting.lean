import Sirannon.Multiplexer

/-!
# Marker accounting

Whatever a multiplexer is called with, the marker of a stream is the number of
control packets in its queue. Control packets are taken when no media packet
was selected. This means that every queue has one at its front, as long as the
search for the lowest media packet does not miss the one it is to find.
-/

set_option autoImplicit false

namespace Sirannon.MarkerAccounting
open Bits Media Multiplexing StateError Std

/-! ## Runs -/

/-- `receive_end` and `receive_reset` are `receive`. -/
inductive Action
  | receive (pckt : MediaPacket)
  | process (oCurrent : ℤ)
  | flush

def act : Action → Mux Unit
  | .receive pckt => Multiplexer.receive pckt
  | .process oCurrent => Multiplexer.process oCurrent
  | .flush => Multiplexer.flush

def Action.packet? : Action → Option MediaPacket
  | .receive pckt => some pckt
  | .process _ => none
  | .flush => none

def packets (acts : List Action) : List MediaPacket := acts.filterMap Action.packet?

/-- The states in which the loop of `process` begins a turn. -/
def loopTurns : ℕ → Multiplexer → List Multiplexer
  | 0, _ => []
  | fuel+1, s =>
    if s.checkMux then
      match s.turn with
      | .ok t => s :: loopTurns fuel t
      | .error _ => [s]
    else []

def turns (s : Multiplexer) : Action → List Multiplexer
  | .receive _ => []
  | .process oCurrent => if oCurrent < s.oStart then [] else loopTurns (s.waiting+1) s
  | .flush => []

/-- The component goes on from the state that a call leaves behind, also when it throws. -/
def next (s : Multiplexer) (a : Action) : Multiplexer := after ((act a).run s)

def states (s : Multiplexer) : List Action → List Multiplexer
  | [] => [s]
  | a::acts => s :: states (next s a) acts

def allTurns (s : Multiplexer) : List Action → List Multiplexer
  | [] => []
  | a::acts => turns s a ++ allTurns (next s a) acts

def thrown (s : Multiplexer) (a : Action) : Option SirannonException :=
  match (act a).run s with
  | .ok _ _ => none
  | .error e _ => some e

def errors (s : Multiplexer) : List Action → List SirannonException
  | [] => []
  | a::acts => (thrown s a).toList ++ errors (next s a) acts

/-! ## What is accounted for -/

def controls (ps : List MediaPacket) : ℕ := ps.countP fun p => p.type ≠ .media

def Marked (s : Multiplexer) : Prop :=
  ∀ (i : ℤ) (pMux : Muxx), s.mMux[i]? = some pMux → pMux.iMarker = controls pMux.vQueue

def EntersReset (s : Multiplexer) : Prop := ∃ i, s.selectMux = .ok i ∧ i < 0

/-- Every queue has a control packet at its front. -/
def ControlFronts (s : Multiplexer) : Prop :=
  ∀ e ∈ s.mMux.toList, ∃ front, e.2.Front front ∧ front.type ≠ .media

def Corrupted (e : SirannonException) : Prop :=
  e ∈ [runtimeError "Multiplexer corrupted 1", runtimeError "Multiplexer corrupted 2",
    runtimeError "Multiplexer corrupted 3"]

/-- Of the media packets at the fronts, the first of those with the lowest DTS is `front`. -/
def LowestMedia (s : Multiplexer) (e : ℤ × Muxx) (front : MediaPacket) : Prop :=
  e ∈ s.mMux.toList ∧ e.2.Front front ∧ front.type = .media ∧
    ∀ c ∈ s.mMux.toList, ∀ f, c.2.Front f → f.type = .media →
      front.dts < f.dts ∨ front.dts = f.dts ∧ e.1 ≤ c.1

/-- When a media packet is at a front, the one to be taken is below the starting value of the search
and on a stream whose number is not taken for the mark that none was found. -/
def Selectable (s : Multiplexer) : Prop :=
  (∃ e ∈ s.mMux.toList, ∃ front, e.2.Front front ∧ front.type = .media) →
    ∃ e front, LowestMedia s e front ∧ 0 ≤ e.1 ∧ front.dts < 0x7FFFFFFF

/-! ## Invariants of the queues -/

/-- What holds of every entry stays true when packets come that `fits` holds of. -/
structure Kept (fits : MediaPacket → Prop) (Q : ℤ → Muxx → Prop) : Prop where
  opened : ∀ p iPID, fits p → Q p.xstream ((Muxx.new iPID).push p)
  pushed : ∀ p pMux, fits p → Q p.xstream pMux → Q p.xstream (pMux.push p)
  popped : ∀ i pMux front rest, pMux.vQueue = front::rest → front.type = .media → Q i pMux →
    Q i pMux.pop
  released : ∀ i pMux front rest, pMux.vQueue = front::rest → front.type ≠ .media → Q i pMux →
    Q i { pMux with vQueue := rest, iMarker := pMux.iMarker-1 }

def Entries (Q : ℤ → Muxx → Prop) (s : Multiplexer) : Prop :=
  ∀ (i : ℤ) (pMux : Muxx), s.mMux[i]? = some pMux → Q i pMux

variable {fits : MediaPacket → Prop} {Q : ℤ → Muxx → Prop} {s t : Multiplexer} {a : Action}
  {e : SirannonException}

theorem entries_empty (h : s.mMux = {}) : Entries Q s := by
  intro i pMux hentry
  rw [h] at hentry
  cases hentry

theorem modified_get (s : Multiplexer) (i j : ℤ) (f : Muxx → Muxx) :
    (s.modified i f).mMux[j]? = if i = j then s.mMux[j]?.map f else s.mMux[j]? := by
  rw [Multiplexer.modified, TreeMap.getElem?_modify]
  by_cases hij : i = j
  · subst hij
    simp
  · simp [hij]

theorem entries_modified {i : ℤ} {f : Muxx → Muxx} (h : Entries Q s)
    (hf : ∀ pMux, s.mMux[i]? = some pMux → Q i (f pMux)) : Entries Q (s.modified i f) := by
  intro j pMux hentry
  rw [modified_get] at hentry
  by_cases hij : i = j
  · subst hij
    rw [if_pos rfl] at hentry
    obtain ⟨pOld, hold, rfl⟩ := Option.map_eq_some_iff.1 hentry
    exact hf pOld hold
  · rw [if_neg hij] at hentry
    exact h j pMux hentry

theorem entries_received (hk : Kept fits Q) {p : MediaPacket} (hp : fits p) (h : Entries Q s) :
    Entries Q (s.received p) := by
  rw [Multiplexer.received, Multiplexer.opened]
  by_cases hmem : p.xstream ∈ s.mMux
  · rw [if_pos hmem]
    exact entries_modified h fun pMux hold => hk.pushed p pMux hp (h p.xstream pMux hold)
  · rw [if_neg hmem]
    intro j pMux hentry
    rw [modified_get] at hentry
    by_cases hj : p.xstream = j
    · subst hj
      rw [if_pos rfl, TreeMap.getElem?_insert_self] at hentry
      cases hentry
      exact hk.opened p s.iMaxPID hp
    · rw [if_neg hj, TreeMap.getElem?_insert, if_neg (by simpa using hj)] at hentry
      exact h j pMux hentry

theorem entries_popControls (hk : Kept fits Q) (hfronts : ControlFronts s) (h : Entries Q s) :
    Entries Q s.popControls := by
  intro i pMux hentry
  rw [popControls_get] at hentry
  obtain ⟨pOld, hold, hpop⟩ := Option.bind_eq_some_iff.1 hentry
  obtain ⟨front, ⟨rest, hqueue⟩, htype⟩ :=
    hfronts (i, pOld) (TreeMap.mem_toList_iff_getElem?_eq_some.mpr hold)
  rw [Muxx.popControl, hqueue] at hpop
  dsimp only at hpop
  split_ifs at hpop with hend
  rw [← Option.some.inj hpop]
  exact hk.released i pOld front rest hqueue htype (h i pOld hold)

/-- A control packet is only found when all of them are at the front. -/
theorem reset_fronts {pckt : MediaPacket} (h : resetLoop none 0 s.mMux.toList = .ok (some pckt)) :
    ControlFronts s := by
  intro e he
  obtain ⟨front, hfront, htype, -⟩ := (resetLoop_selects (by simp) h).2.2 e he
  exact ⟨front, hfront, htype⟩

theorem entries_turn (hk : Kept fits Q) (h : Entries Q s) (hturn : s.turn = .ok t) :
    Entries Q t := by
  rcases turn_cases hturn with ⟨i, front, rest, hqueue, hmedia, rfl⟩ | ⟨pckt, hreset, rfl⟩
  · show Entries Q (s.modified i Muxx.pop)
    apply entries_modified h
    intro pMux hold
    rw [queue_some hold] at hqueue
    exact hk.popped i pMux front rest hqueue hmedia (h i pMux hold)
  · show Entries Q s.popControls
    exact entries_popControls hk (reset_fronts hreset) h

theorem entries_loop (hk : Kept fits Q) (fuel : ℕ) (h : Entries Q s) :
    Entries Q (after ((Multiplexer.processLoop fuel).run s)) ∧
      ∀ u ∈ loopTurns fuel s, Entries Q u := by
  induction fuel generalizing s with
  | zero => exact ⟨h, by simp [loopTurns]⟩
  | succ fuel ih =>
    rw [Multiplexer.processLoop, run_get_bind, loopTurns]
    by_cases hready : s.checkMux = true
    · rw [if_pos hready, if_pos hready]
      cases hturn : s.turn with
      | error e =>
        rw [run_ofExcept_error rfl]
        exact ⟨h, by simpa using h⟩
      | ok t =>
        rw [run_ofExcept_bind rfl]
        obtain ⟨hafter, hall⟩ := ih (entries_turn hk h hturn)
        refine ⟨hafter, ?_⟩
        intro u hu
        rcases List.mem_cons.1 hu with rfl | hu
        · exact h
        · exact hall u hu
    · rw [if_neg hready, if_neg hready]
      exact ⟨h, by simp⟩

theorem entries_act (hk : Kept fits Q) (ha : ∀ p, a.packet? = some p → fits p) (h : Entries Q s) :
    Entries Q (next s a) ∧ ∀ u ∈ turns s a, Entries Q u := by
  cases a with
  | receive pckt => exact ⟨entries_received hk (ha pckt rfl) h, by simp [turns]⟩
  | flush => exact ⟨entries_empty rfl, by simp [turns]⟩
  | process oCurrent =>
    rw [next, act, Multiplexer.process, run_get_bind, turns]
    by_cases hwait : oCurrent < s.oStart
    · rw [if_pos hwait, if_pos hwait]
      exact ⟨h, by simp⟩
    · rw [if_neg hwait, if_neg hwait]
      exact entries_loop hk (s.waiting+1) h

theorem entries_run (hk : Kept fits Q) (acts : List Action) (ha : ∀ p ∈ packets acts, fits p)
    (h : Entries Q s) :
    (∀ u ∈ states s acts, Entries Q u) ∧ ∀ u ∈ allTurns s acts, Entries Q u := by
  induction acts generalizing s with
  | nil => exact ⟨by simpa [states] using h, by simp [allTurns]⟩
  | cons a acts ih =>
    have hfirst : ∀ p, a.packet? = some p → fits p := by
      intro p hp
      apply ha
      rw [packets, List.filterMap_cons, hp]
      exact List.mem_cons_self
    have hrest : ∀ p ∈ packets acts, fits p := by
      intro p hp
      apply ha
      rw [packets, List.filterMap_cons]
      cases a.packet? with
      | none => exact hp
      | some q => exact List.mem_cons_of_mem q hp
    obtain ⟨hnext, hturns⟩ := entries_act hk hfirst h
    obtain ⟨hstates, hall⟩ := ih hrest hnext
    constructor
    · intro u hu
      rcases List.mem_cons.1 hu with rfl | hu
      · exact h
      · exact hstates u hu
    · intro u hu
      rcases List.mem_append.1 hu with hu | hu
      · exact hturns u hu
      · exact hall u hu

/-! ## Markers -/

theorem kept_marked : Kept (fun _ => True) fun _ pMux => pMux.iMarker = controls pMux.vQueue where
  opened p iPID _ := by
    by_cases htype : p.type = .media <;> simp [Muxx.push, Muxx.new, controls, htype]
  pushed p pMux _ h := by
    by_cases htype : p.type = .media <;>
      simp [Muxx.push, controls, List.countP_append, htype, h]
  popped i pMux front rest hqueue hmedia h := by
    rw [hqueue, controls, List.countP_cons_of_neg (by simpa using hmedia)] at h
    rw [Muxx.pop, hqueue]
    exact h
  released i pMux front rest hqueue htype h := by
    rw [hqueue, controls, List.countP_cons_of_pos (by simpa using htype)] at h
    simp [controls, h]

/-- The control packets in the queues are not before the time zero. -/
theorem kept_timed : Kept (fun p => p.type ≠ .media → 0 ≤ p.dts)
    fun _ pMux => ∀ p ∈ pMux.vQueue, p.type ≠ .media → 0 ≤ p.dts where
  opened p iPID hp := by simpa [Muxx.push, Muxx.new] using hp
  pushed p pMux hp h := by
    intro q hq
    rcases List.mem_append.1 hq with hq | hq
    · exact h q hq
    · rw [List.mem_singleton.1 hq]
      exact hp
  popped i pMux front rest hqueue hmedia h := fun q hq => h q (List.mem_of_mem_tail hq)
  released i pMux front rest hqueue htype h := by
    intro q hq
    apply h q
    rw [hqueue]
    exact List.mem_cons_of_mem front hq

/-- A packet that the search for the lowest cannot miss. -/
def Ordinary (p : MediaPacket) : Prop := 0 ≤ p.xstream ∧ (p.type = .media → p.dts < 0x7FFFFFFF)

/-! ## Entering the release of control packets -/

theorem ready_fronts (hready : s.checkMux = true) {e : ℤ × Muxx} (he : e ∈ s.mMux.toList) :
    ∃ front, e.2.Front front := by
  obtain ⟨front, rest, hqueue⟩ := checkMux_queues hready (mem_of_entry he)
  rw [queue_entry he] at hqueue
  exact ⟨front, rest, hqueue⟩

theorem front_unique {pMux : Muxx} {p q : MediaPacket} (hp : pMux.Front p) (hq : pMux.Front q) :
    p = q := by
  obtain ⟨rest, hp⟩ := hp
  obtain ⟨rest', hq⟩ := hq
  rw [hp] at hq
  exact (List.cons.inj hq).1

theorem select_ok (hready : s.checkMux = true) : ∃ i, s.selectMux = .ok i := by
  apply selectLoop_ok
  intro e he
  obtain ⟨front, rest, hqueue⟩ := ready_fronts hready he
  rw [hqueue]
  exact List.cons_ne_nil front rest

/-- What is selected: nothing, as no media packet is below the starting value, or the first of the
lowest. -/
theorem select_cases {i : ℤ} (h : s.selectMux = .ok i) :
    (i = -1 ∧ ∀ e ∈ s.mMux.toList, ∀ front, e.2.Front front → front.type = .media →
      0x7FFFFFFF ≤ front.dts) ∨
    ∃ e front, LowestMedia s e front ∧ e.1 = i ∧ front.dts < 0x7FFFFFFF := by
  rcases selectLoop_first (entries_sorted s) h with
    ⟨hi, hall⟩ | ⟨e, he, front, hfront, hmedia, hi, hlow, hall⟩
  · refine Or.inl ⟨hi, ?_⟩
    intro e he front hfront
    obtain ⟨f, hf, hle⟩ := hall e he
    rw [front_unique hfront hf]
    exact hle
  · refine Or.inr ⟨e, front, ⟨he, hfront, hmedia, ?_⟩, hi, hlow⟩
    intro c hc f hf
    obtain ⟨g, hg, hle⟩ := hall c hc
    rw [front_unique hf hg, hi]
    exact hle

theorem lowest_unique {e c : ℤ × Muxx} {front f : MediaPacket} (he : LowestMedia s e front)
    (hc : LowestMedia s c f) : e.1 = c.1 := by
  obtain ⟨hmem, hfront, hmedia, hle⟩ := he
  obtain ⟨hmem', hfront', hmedia', hle'⟩ := hc
  have hbelow := hle c hmem' f hfront' hmedia'
  have habove := hle' e hmem front hfront hmedia
  omega

/-- Control packets are only released from the fronts exactly when the search misses no media
packet. -/
theorem enters_iff (hready : s.checkMux = true) :
    (EntersReset s → ControlFronts s) ↔ Selectable s := by
  constructor
  · rintro hcontrol ⟨e, he, front, hfront, hmedia⟩
    have hnot : ¬ EntersReset s := by
      intro henters
      obtain ⟨f, hf, htype⟩ := hcontrol henters e he
      rw [front_unique hf hfront] at htype
      exact htype hmedia
    obtain ⟨i, hselect⟩ := select_ok hready
    have hi : 0 ≤ i := by
      by_contra hneg
      exact hnot ⟨i, hselect, by omega⟩
    rcases select_cases hselect with ⟨rfl, -⟩ | ⟨c, f, hlowest, rfl, hlow⟩
    · omega
    · exact ⟨c, f, hlowest, hi, hlow⟩
  · rintro hselectable ⟨i, hselect, hneg⟩ e he
    obtain ⟨front, hfront⟩ := ready_fronts hready he
    refine ⟨front, hfront, ?_⟩
    intro hmedia
    obtain ⟨c, f, hlowest, hpos, hlow⟩ := hselectable ⟨e, he, front, hfront, hmedia⟩
    rcases select_cases hselect with ⟨-, hall⟩ | ⟨d, g, hlowest', rfl, -⟩
    · have hhigh := hall c hlowest.1 f hlowest.2.1 hlowest.2.2.1
      omega
    · have hsame := lowest_unique hlowest hlowest'
      omega

/-! ## Errors -/

theorem turn_ok (hready : s.checkMux = true) (hselectable : Selectable s)
    (htimed : Entries (fun _ pMux => ∀ p ∈ pMux.vQueue, p.type ≠ .media → 0 ≤ p.dts) s) :
    ∃ t, s.turn = .ok t := by
  obtain ⟨i, hselect⟩ := select_ok hready
  by_cases hi : i < 0
  · have hfronts := (enters_iff hready).2 hselectable ⟨i, hselect, hi⟩
    obtain ⟨p, m, hreset, hhigh⟩ := resetLoop_highest s.mMux.toList highest_nil hfronts
    cases p with
    | some pckt => exact ⟨_, turn_control hselect hi hreset⟩
    | none =>
      -- no queue at all, or a control packet before the time zero
      exfalso
      cases hlist : s.mMux.toList with
      | nil =>
        have hempty := checkMux_nonempty hready
        rw [← TreeMap.isEmpty_toList, hlist] at hempty
        cases hempty
      | cons e es =>
        have he : e ∈ s.mMux.toList := by simp [hlist]
        obtain ⟨front, hfront, htype⟩ := hfronts e he
        obtain ⟨f, hf, hneg⟩ := hhigh.2 e (by simpa using he)
        rw [front_unique hf hfront] at hneg
        obtain ⟨rest, hqueue⟩ := hfront
        have hentry := TreeMap.mem_toList_iff_getElem?_eq_some.mp he
        have hpos := htimed e.1 e.2 hentry front (by simp [hqueue]) htype
        omega
  · rcases select_cases hselect with ⟨rfl, -⟩ | ⟨e, front, ⟨he, ⟨rest, hqueue⟩, -⟩, rfl, -⟩
    · omega
    · exact ⟨_, turn_media hselect (by omega) ((queue_entry he).trans hqueue)⟩

theorem loop_ready (fuel : ℕ) : ∀ u ∈ loopTurns fuel s, u.checkMux = true := by
  induction fuel generalizing s with
  | zero => simp [loopTurns]
  | succ fuel ih =>
    rw [loopTurns]
    by_cases hready : s.checkMux = true
    · rw [if_pos hready]
      cases s.turn with
      | error e => simpa using hready
      | ok t =>
        intro u hu
        rcases List.mem_cons.1 hu with rfl | hu
        · exact hready
        · exact ih u hu
    · rw [if_neg hready]
      simp

theorem turns_ready : ∀ u ∈ turns s a, u.checkMux = true := by
  cases a with
  | receive pckt => simp [turns]
  | flush => simp [turns]
  | process oCurrent =>
    rw [turns]
    by_cases hwait : oCurrent < s.oStart
    · simp [hwait]
    · rw [if_neg hwait]
      exact loop_ready (s.waiting+1)

theorem allTurns_ready (acts : List Action) : ∀ u ∈ allTurns s acts, u.checkMux = true := by
  induction acts generalizing s with
  | nil => simp [allTurns]
  | cons a acts ih =>
    intro u hu
    rcases List.mem_append.1 hu with hu | hu
    · exact turns_ready u hu
    · exact ih u hu

theorem loop_error (fuel : ℕ) (h : (Multiplexer.processLoop fuel).run s = .error e t) :
    ∃ u ∈ loopTurns fuel s, u.turn = .error e := by
  induction fuel generalizing s with
  | zero => cases h
  | succ fuel ih =>
    rw [Multiplexer.processLoop, run_get_bind] at h
    rw [loopTurns]
    by_cases hready : s.checkMux = true
    · rw [if_pos hready] at h ⊢
      cases hturn : s.turn with
      | error e' =>
        rw [run_ofExcept_error hturn] at h
        cases h
        exact ⟨_, List.mem_singleton_self _, hturn⟩
      | ok u =>
        rw [run_ofExcept_bind hturn] at h
        obtain ⟨v, hv, hfails⟩ := ih h
        exact ⟨v, List.mem_cons_of_mem s hv, hfails⟩
    · rw [if_neg hready] at h
      cases h

/-- What a call throws a turn of it throws. -/
theorem thrown_turn (h : thrown s a = some e) : ∃ u ∈ turns s a, u.turn = .error e := by
  cases a with
  | receive pckt => cases h
  | flush => cases h
  | process oCurrent =>
    rw [thrown, act, Multiplexer.process, run_get_bind] at h
    rw [turns]
    by_cases hwait : oCurrent < s.oStart
    · rw [if_pos hwait] at h
      cases h
    · rw [if_neg hwait] at h ⊢
      cases hrun : (Multiplexer.processLoop (s.waiting+1)).run s with
      | ok u t =>
        rw [hrun] at h
        cases h
      | error e' t =>
        rw [hrun] at h
        cases h
        exact loop_error (s.waiting+1) hrun

theorem errors_turn (acts : List Action) (h : e ∈ errors s acts) :
    ∃ u ∈ allTurns s acts, u.turn = .error e := by
  induction acts generalizing s with
  | nil => cases h
  | cons a acts ih =>
    rcases List.mem_append.1 h with h | h
    · obtain ⟨u, hu, hfails⟩ := thrown_turn (Option.mem_toList.1 h)
      exact ⟨u, List.mem_append_left _ hu, hfails⟩
    · obtain ⟨u, hu, hfails⟩ := ih h
      exact ⟨u, List.mem_append_right _ hu, hfails⟩

/-! ## The accounting -/

theorem init_entries (streamID delay streams : ℤ) :
    Entries Q (Multiplexer.init streamID delay streams) := entries_empty rfl

theorem markers_right (streamID delay streams : ℤ) (acts : List Action) :
    (∀ s ∈ states (Multiplexer.init streamID delay streams) acts, Marked s) ∧
      ∀ u ∈ allTurns (Multiplexer.init streamID delay streams) acts, Marked u :=
  entries_run kept_marked acts (fun _ _ => trivial) (init_entries streamID delay streams)

/-- In every run the markers are right; control packets are only released from the fronts of all
queues, and no corruption is reported, exactly when the search misses no media packet. -/
theorem marker_accounting (streamID delay streams : ℤ) (acts : List Action) :
    ((∀ s ∈ states (Multiplexer.init streamID delay streams) acts, Marked s) ∧
      (∀ u ∈ allTurns (Multiplexer.init streamID delay streams) acts,
        Marked u ∧ (EntersReset u → ControlFronts u)) ∧
      ((∀ p ∈ packets acts, p.type ≠ .media → 0 ≤ p.dts) →
        ∀ e ∈ errors (Multiplexer.init streamID delay streams) acts, ¬ Corrupted e)) ↔
    ∀ u ∈ allTurns (Multiplexer.init streamID delay streams) acts, Selectable u := by
  obtain ⟨hstates, hturns⟩ := markers_right streamID delay streams acts
  constructor
  · rintro ⟨-, hcontrol, -⟩ u hu
    exact (enters_iff (allTurns_ready acts u hu)).1 (hcontrol u hu).2
  · intro hselectable
    refine ⟨hstates, ?_, ?_⟩
    · intro u hu
      exact ⟨hturns u hu, (enters_iff (allTurns_ready acts u hu)).2 (hselectable u hu)⟩
    · intro htimed e he
      obtain ⟨u, hu, hfails⟩ := errors_turn acts he
      have hentries := (entries_run kept_timed acts htimed
        (init_entries streamID delay streams)).2 u hu
      obtain ⟨t, hok⟩ := turn_ok (allTurns_ready acts u hu) (hselectable u hu) hentries
      rw [hok] at hfails
      cases hfails

/-! ## A packet at the end of the range -/

def fullScale : List Action :=
  [.receive { MediaPacket.new .media .video 0 with dts := 0x7FFFFFFF },
    .receive (MediaPacket.new .reset .video 0), .process 0]

theorem full_scale_corrupts : (∀ p ∈ packets fullScale, p.type ≠ .media → 0 ≤ p.dts) ∧
    ∃ e ∈ errors (Multiplexer.init 7 1000 (-1)) fullScale, Corrupted e := by
  have herrors : errors (Multiplexer.init 7 1000 (-1)) fullScale =
      [runtimeError "Multiplexer corrupted 2"] := by decide +kernel
  refine ⟨by decide, runtimeError "Multiplexer corrupted 2", ?_, by simp [Corrupted]⟩
  rw [herrors]
  exact List.mem_singleton_self _

end Sirannon.MarkerAccounting
