import Sirannon.TSOutputOrder
import Sirannon.TSPassEnds

/-!
# Queues that run dry

When a pass starts, the delay vouches for what is in the queues up to its end.
It may only find one of them empty when the reference stream jumps over all
that is left there.
-/

set_option autoImplicit false

namespace Sirannon.TSMultiplexing
open Bits Media MachineInt Multiplexing
open Std (TreeMap)

variable {s t : TSMultiplexer} {c c' : Core} {p : MediaPacket} {rest : List MediaPacket} {i : ℤ} {fuel : ℕ}

/-! ## Queues that are ready -/

def isControl (p : MediaPacket) : Bool := p.type ≠ .media

def Counted (pMux : Muxx) : Prop := pMux.iMarker = pMux.vQueue.countP isControl

/-- The control packets of each queue are counted. -/
def Marked (s : TSMultiplexer) : Prop :=
  ∀ (i : ℤ) (pMux : Muxx), s.mMux[i]? = some pMux → Counted pMux

/-- The count, and the packets it is about. -/
def TSMultiplexer.markers (s : TSMultiplexer) (i : ℤ) : Option ℤ := s.mMux[i]?.map Muxx.iMarker

theorem modified_markers {f : Muxx → Muxx} (hf : ∀ pMux, (f pMux).iMarker = pMux.iMarker) (s : TSMultiplexer)
    (i : ℤ) : (s.modified i f).markers = s.markers := by
  ext1 j
  show (s.mMux.modify i f)[j]?.map Muxx.iMarker = s.mMux[j]?.map Muxx.iMarker
  rw [TreeMap.getElem?_modify]
  split_ifs with hij
  · have hij : i = j := by simpa using hij
    subst hij
    cases s.mMux[i]? with
    | none => rfl
    | some pMux => exact congrArg some (hf pMux)
  · rfl

theorem detected_marker (pMux : Muxx) : (detected pMux).iMarker = pMux.iMarker := by
  rw [detected]
  split
  · rfl
  · split_ifs <;> rfl

theorem taken_markers (s : TSMultiplexer) (iType : TSType) (iStream : ℤ) (n : ℕ) (pPckt : MediaPacket) :
    (s.taken iType iStream n pPckt).markers = s.markers := by
  cases iType with
  | SDT => rfl
  | PAT => rfl
  | PCR => rfl
  | FILL => rfl
  | PMT =>
    ext1 j
    show (s.mMux.map fun _ pMux => detected pMux)[j]?.map Muxx.iMarker = _
    rw [TreeMap.getElem?_map, Option.map_map, TSMultiplexer.markers]
    congr 1
    funext pMux
    exact detected_marker pMux
  | PES =>
    apply modified_markers
    exact fun _ => rfl

theorem markers_preserved (m : ℤ → Option ℤ) : Preserved (fun s => s.markers = m) where
  begun s iStream pMux pPckt hs := by
    rw [← hs]
    apply modified_markers
    intro pMux'
    rw [started]
    split_ifs <;> rfl
  created s s' iStream iType bStart bPCR n _ hs h := by
    obtain ⟨_, pPckt, _, _, _, _, _, _, _, _, _, rfl⟩ := created_cases h
    exact (taken_markers s iType iStream n pPckt).trans hs
  advanced s s' iStream n hs h := by
    rw [TSMultiplexer.advanced] at h
    obtain ⟨front, -, h⟩ := bind_ok.1 h
    split_ifs at h
    cases h
    rw [← hs]
    apply modified_markers
    exact fun _ => rfl
  popped s iStream hs := by
    rw [← hs]
    apply modified_markers
    exact fun _ => rfl

/-- A turn takes no control packet away. -/
theorem turned_controls (h : Turned s i c c') (hqueue : c.vQueue = p::rest) (hmedia : p.type = .media) :
    c'.vQueue.countP isControl = c.vQueue.countP isControl := by
  have hplain : isControl p = false := by rw [isControl, hmedia]; rfl
  rcases h with ⟨-, rfl⟩ | hturn
  · rw [started_queue]
  · cases hturn with
    | part q rest' m hinterleave hq hroom hless hbegun =>
      rw [hqueue] at hq
      cases hq
      obtain ⟨q', hq', -, htype⟩ := took_queue hqueue m
      have hplain' : isControl q' = false := by rw [isControl, htype, hmedia]; rfl
      rw [hq', hqueue, List.countP_cons_of_neg (by simp [hplain']), List.countP_cons_of_neg (by simp [hplain])]
    | last q c' hq hsmall hfresh =>
      rw [hqueue] at hq
      cases hq
      rw [hqueue, List.countP_cons_of_neg (by simp [hplain])]

theorem steps_marked (hs : Marked s) (hfirst : First s i c p rest)
    (h : TSMultiplexer.steps i fuel s = .ok t) : Marked t := by
  obtain ⟨c₁, c', hc₁, ht, -, hturned⟩ := steps_turned h
  rw [hfirst.entry] at hc₁
  obtain rfl := Option.some.inj hc₁
  have hmarkers : t.markers = s.markers := steps_preserved (markers_preserved s.markers) rfl h
  intro j pMux' hentry'
  have hm : t.markers j = some pMux'.iMarker := by rw [TSMultiplexer.markers, hentry']; rfl
  have hcore : t.cores j = some (core pMux') := by rw [TSMultiplexer.cores, hentry']; rfl
  rw [hmarkers] at hm
  obtain ⟨pMux, hentry, hsame⟩ := Option.map_eq_some_iff.1 hm
  have hcount : pMux.iMarker = (core pMux).vQueue.countP isControl := hs j pMux hentry
  have hold : s.cores j = some (core pMux) := by rw [TSMultiplexer.cores, hentry]; rfl
  show pMux'.iMarker = (core pMux').vQueue.countP isControl
  rw [ht, Function.update_apply] at hcore
  split_ifs at hcore with hji
  · subst hji
    rw [hfirst.entry] at hold
    rw [← hsame, hcount, ← Option.some.inj hold, ← Option.some.inj hcore,
      turned_controls hturned hfirst.queue hfirst.media]
  · rw [hold] at hcore
    rw [← hsame, hcount, Option.some.inj hcore]

theorem control_marked {iStartDts : ℤ} {r : ℤ × TSMultiplexer} (hs : Marked s)
    (h : s.control iStartDts = .ok r) : Marked r.2 := by
  obtain ⟨pckt, hctrl, -, -⟩ := control_controlled h
  rw [TSMultiplexer.control] at h
  obtain ⟨⟨q, m⟩, hreset, h⟩ := bind_ok.1 h
  cases h
  rw [Multiplexer.resetMux] at hreset
  split at hreset
  · cases hreset
  · cases hreset
  · cases hreset
    intro i pMux' hentry'
    change s.toMultiplexer.popControls.mMux[i]? = some pMux' at hentry'
    rw [popControls_get] at hentry'
    obtain ⟨pMux, hentry, hpop⟩ := Option.bind_eq_some_iff.1 hentry'
    obtain ⟨front, rest, hqueue, hkind, -⟩ := hctrl.fronts i (core pMux) (by
      rw [TSMultiplexer.cores, hentry]
      rfl)
    have hq : pMux.vQueue = front::rest := hqueue
    have hcount := hs i pMux hentry
    have hcontrol : isControl front = true := decide_eq_true hkind
    rw [Counted, hq, List.countP_cons_of_pos hcontrol] at hcount
    rw [Muxx.popControl, hq] at hpop
    dsimp only at hpop
    split_ifs at hpop
    cases hpop
    show pMux.iMarker-1 = rest.countP isControl
    push_cast at hcount
    omega

theorem pass_marked {B : ℤ} {r : ℤ × TSMultiplexer} (hs : Marked s) (hselect : s.toMultiplexer.selectMux = .ok i)
    (h : TSMultiplexer.pass B fuel i s = .ok r) : Marked r.2 := by
  induction fuel generalizing s i with
  | zero => cases h
  | succ fuel ih =>
    rw [TSMultiplexer.pass] at h
    by_cases hcontrol : i < 0
    · rw [if_pos hcontrol] at h
      exact control_marked hs h
    · rw [if_neg hcontrol] at h
      obtain ⟨front, -, h⟩ := bind_ok.1 h
      obtain ⟨bReached, -, h⟩ := bind_ok.1 h
      cases bReached with
      | true =>
        cases h
        exact hs
      | false =>
        obtain ⟨t, hsteps, h⟩ := bind_ok.1 h
        obtain ⟨j, hnext, h⟩ := bind_ok.1 h
        rcases selectMux_first hselect with ⟨hi, -⟩ | ⟨c, p, rest, hfirst⟩
        · omega
        · exact ih (steps_marked hs hfirst hsteps) hnext h

theorem modified_marked {f : Muxx → Muxx} (hf : ∀ pMux, Counted pMux → Counted (f pMux)) (hs : Marked s) (i : ℤ) :
    Marked (s.modified i f) := by
  intro j pMux hentry
  change (s.mMux.modify i f)[j]? = some pMux at hentry
  rw [TreeMap.getElem?_modify] at hentry
  split_ifs at hentry with hij
  · obtain ⟨pMux', hold, rfl⟩ := Option.map_eq_some_iff.1 hentry
    exact hf pMux' (hs i pMux' hold)
  · exact hs j pMux hentry

theorem refer_marked (i : ℤ) (pPckt : MediaPacket) (hs : Marked s) : Marked (s.refer i pPckt) := by
  rw [TSMultiplexer.refer]
  cases pPckt.content with
  | video =>
    have h : Marked (s.modified i fun pMux => { pMux with iPID := 0x100 }) := by
      apply modified_marked _ hs
      exact fun _ h => h
    exact h
  | audio =>
    have h : Marked (s.modified i fun pMux => { pMux with iPID := 0x101 }) := by
      apply modified_marked _ hs
      exact fun _ h => h
    exact h
  | mixed => exact hs

theorem referred_marked (hs : Marked s) (h : s.referred = .ok t) : Marked t := by
  rw [TSMultiplexer.referred] at h
  split_ifs at h
  · obtain ⟨r, iSize, hall, -, rfl⟩ := findRefStream_cases h
    have hr : Marked r.1 := referAll_kept (fun s i pPckt hs => refer_marked i pPckt hs) hs hall
    exact hr
  · cases h
    exact hs

theorem receive_marked (hs : Marked s) (p : MediaPacket) : Marked (s.receive p) := by
  have hopened : Marked { s with toMultiplexer := s.toMultiplexer.opened p.xstream } := by
    intro i pMux hentry
    change (s.toMultiplexer.opened p.xstream).mMux[i]? = some pMux at hentry
    rw [Multiplexer.opened] at hentry
    split_ifs at hentry
    · exact hs i pMux hentry
    · rw [TreeMap.getElem?_insert] at hentry
      split_ifs at hentry
      · cases hentry
        rfl
      · exact hs i pMux hentry
  apply modified_marked _ hopened
  intro pMux hcount
  rw [Counted, Muxx.push, List.countP_append]
  rw [Counted] at hcount
  by_cases hmedia : p.type = .media
  · have hplain : isControl p = false := by rw [isControl, hmedia]; rfl
    rw [if_pos hmedia, List.countP_cons_of_neg (by simp [hplain]), hcount]
    rfl
  · have hcontrol : isControl p = true := decide_eq_true hmedia
    rw [if_neg hmedia, List.countP_cons_of_pos hcontrol, hcount]
    rfl

theorem run_marked {streamID : ℤ} {o : Settings} {events : List Event} (h : run streamID o events = .ok s) :
    Marked s := by
  apply run_kept (P := Marked) _ _ h
  · intro i pMux hentry
    change (∅ : TreeMap ℤ Muxx)[i]? = some pMux at hentry
    simp at hentry
  · intro s s' a hs hevent
    cases a with
    | receive p =>
      cases hevent
      exact receive_marked hs p
    | process fuel =>
      rcases process_cases hevent with rfl | ⟨t, i, B, r, -, hreferred, hselect, -, hpass, hsends⟩
      · exact hs
      · have ht : Marked t := referred_marked hs hreferred
        have hr := pass_marked (s := t.selected i) ht hselect hpass
        intro j pMux hentry
        rw [hsends.mMux] at hentry
        exact hr j pMux hentry

/-- What comes first in each stream of a pass is behind what the delay vouches for. -/
theorem ready_late (hready : s.toMultiplexer.checkMux = true) (hs : Marked s) {L iShape : ℤ} (hfirst : First s L c p rest)
    (hshape : iShape ≤ s.iDelay)
    (hspans : ∀ i d q rest' back, s.cores i = some d → d.vQueue = q::rest' → d.vQueue.getLast? = some back →
      -2^31 ≤ back.dts-q.dts) {i : ℤ} {d : Core} (hd : s.cores i = some d) :
    ∃ q ∈ d.vQueue, q.type ≠ .media ∨ p.dts+iShape ≤ q.dts := by
  obtain ⟨pMux, hentry, rfl⟩ := core_entry hd
  have hall : pMux.ready s.iDelay = true := by
    rw [Multiplexer.checkMux] at hready
    split_ifs at hready
    exact List.all_eq_true.1 hready _ hentry
  obtain ⟨front, rest', hqueue, hlowest⟩ := hfirst.lowest i _ hd
  by_cases hmedia : front.type = .media
  · by_cases hmarked : pMux.iMarker = 0
    · have hq : pMux.vQueue = front::rest' := hqueue
      obtain ⟨back, hback⟩ : ∃ back, pMux.vQueue.getLast? = some back := by
        rw [hq]
        exact ⟨_, List.getLast?_cons⟩
      have hdelay : s.iDelay ≤ int32 (back.dts-front.dts) := by
        rw [Muxx.ready, hq, List.head?_cons, ← hq, hback] at hall
        dsimp only at hall
        rw [decide_eq_true_eq] at hall
        by_contra hlt
        exact hall ⟨not_le.1 hlt, hmarked⟩
      have hspan := hspans i _ front rest' back hd hqueue hback
      have hbefore : p.dts ≤ front.dts := by
        have hlow := hlowest hmedia
        omega
      refine ⟨back, List.mem_of_getLast? hback, Or.inr ?_⟩
      have hhigh := int32_high (back.dts-front.dts)
      have hle' : int32 (back.dts-front.dts) ≤ back.dts-front.dts := int32_le hspan
      omega
    · have hcount : pMux.iMarker = pMux.vQueue.countP isControl :=
        hs i pMux (TreeMap.mem_toList_iff_getElem?_eq_some.1 hentry)
      have hpos : 0 < pMux.vQueue.countP isControl := by omega
      obtain ⟨q, hq, hcontrol⟩ := List.countP_pos_iff.1 hpos
      exact ⟨q, hq, Or.inl (of_decide_eq_true hcontrol)⟩
  · rw [hqueue]
    exact ⟨front, List.mem_cons_self, Or.inl hmedia⟩

/-! ## Calls of process -/

/-- The state in which a pass may be started: the delay vouches for the shape, the clock moves, nothing
overflows, and when the reference stream stops the pass no other queue is empty. -/
structure Vouched (s : TSMultiplexer) : Prop where
  shape : s.iShape ≤ s.iDelay
  ticking : Ticking s
  spans : ∀ i c p rest q, s.cores i = some c → c.vQueue = p::rest → c.vQueue.getLast? = some q →
    -2^31 ≤ q.dts-p.dts
  start : ∀ L c p rest, s.toMultiplexer.selectMux = .ok L → 0 ≤ L → s.cores L = some c → c.vQueue = p::rest →
    -2^31 ≤ p.dts+s.iShape
  outlast : ∀ L c p rest x, s.toMultiplexer.selectMux = .ok L → 0 ≤ L → s.cores L = some c → c.vQueue = p::rest →
    Stops s.bInterleave (int32 (p.dts+s.iShape)) c x →
    ∀ i d, i ≠ L → s.cores i = some d → ¬Drains s.bInterleave (Due L x i) d

theorem refer_kept (s : TSMultiplexer) (i : ℤ) (pPckt : MediaPacket) :
    (s.refer i pPckt).iDelay = s.iDelay ∧ (s.refer i pPckt).cores = s.cores := by
  refine ⟨?_, (refer_alike s i pPckt).cores⟩
  rw [TSMultiplexer.refer]
  cases pPckt.content <;> rfl

theorem referred_kept (h : s.referred = .ok t) : t.iDelay = s.iDelay ∧ t.cores = s.cores := by
  rw [TSMultiplexer.referred] at h
  split_ifs at h
  · obtain ⟨r, iSize, hall, -, rfl⟩ := findRefStream_cases h
    apply referAll_kept (P := fun u => u.iDelay = s.iDelay ∧ u.cores = s.cores) _ ⟨rfl, rfl⟩ hall
    intro u i pPckt hu
    obtain ⟨hdelay, hcores⟩ := refer_kept u i pPckt
    exact ⟨hdelay.trans hu.1, hcores.trans hu.2⟩
  · cases h
    exact ⟨rfl, rfl⟩

theorem ready_filled (hready : s.toMultiplexer.checkMux = true) : Filled s := by
  intro i c hc hempty
  obtain ⟨pMux, hentry, rfl⟩ := core_entry hc
  rw [Multiplexer.checkMux] at hready
  split_ifs at hready
  have hall := List.all_eq_true.1 hready _ hentry
  have hq : pMux.vQueue = [] := hempty
  rw [Muxx.ready, hq] at hall
  cases hall

theorem referAll_ends (es : List (ℤ × Muxx)) (r : TSMultiplexer × ℤ) : Ends (TSMultiplexer.referAll es r) := by
  induction es generalizing r with
  | nil => exact ends_ok r
  | cons e es ih =>
    rw [TSMultiplexer.referAll]
    cases e.2.vQueue with
    | nil => exact ih r
    | cons p rest =>
      dsimp only
      cases p.desc with
      | none => exact ends_error (by decide)
      | some desc => exact ih _

theorem sizePMT_ends (hs : Filled s) : Ends s.sizePMT := by
  rw [TSMultiplexer.sizePMT]
  have hnone : (s.mMux.toList.any fun e => e.2.vQueue.isEmpty) = false := by
    rw [List.any_eq_false]
    intro e he hempty
    exact hs e.1 (core e.2) (entry_core he) (List.isEmpty_iff.1 hempty)
  rw [hnone]
  exact ends_ok _

theorem referred_ends (hs : Filled s) : Ends s.referred := by
  rw [TSMultiplexer.referred]
  split_ifs
  · rw [TSMultiplexer.findRefStream]
    apply ends_bind (referAll_ends _ _)
    intro r hall
    split_ifs
    · exact ends_error (by decide)
    · have hcores : r.1.cores = s.cores := by
        apply referAll_kept (P := fun u => u.cores = s.cores) _ rfl hall
        intro u i pPckt hu
        exact (refer_kept u i pPckt).2.trans hu
      apply ends_bind (sizePMT_ends (filled_same hs hcores))
      exact fun n _ => ends_ok _
  · exact ends_ok s

theorem first_same (hcores : t.cores = s.cores) (h : First t i c p rest) : First s i c p rest := by
  constructor
  · rw [← hcores]
    exact h.entry
  · exact h.queue
  · exact h.media
  · exact h.low
  · rw [← hcores]
    exact h.lowest

/-- The queues at the start of a pass. -/
theorem going_start (hready : s.toMultiplexer.checkMux = true) (hs : Marked s) (hcores : t.cores = s.cores)
    (hdelay : t.iDelay = s.iDelay) (hvouched : Vouched t) (hselect : t.toMultiplexer.selectMux = .ok i)
    (hi : 0 ≤ i) (hfirst : First t i c p rest) : Going t.mMux.keys (int32 (p.dts+t.iShape)) i (t.selected i) := by
  constructor
  · intro j d hd
    obtain ⟨pMux, hentry, -⟩ := Option.map_eq_some_iff.1 hd
    have hmem : (t.mMux[j]?).isSome = true := Option.isSome_iff_exists.2 ⟨pMux, hentry⟩
    exact TreeMap.mem_keys.2 (TreeMap.mem_iff_isSome_getElem?.2 hmem)
  · exact filled_same (ready_filled hready) hcores
  · exact ⟨c, hfirst.entry⟩
  · intro _ _ _ _ _ _ _ j d hd
    have hd' : s.cores j = some d := by
      rw [← hcores]
      exact hd
    have hshape : t.iShape ≤ s.iDelay := by
      rw [← hdelay]
      exact hvouched.shape
    have hspans := hvouched.spans
    rw [hcores] at hspans
    obtain ⟨q, hq, hlate⟩ := ready_late hready hs (first_same hcores hfirst) hshape hspans hd'
    have hle := int32_le (hvouched.start i c p rest hselect hi hfirst.entry hfirst.queue)
    exact ⟨q, hq, hlate.imp_right hle.trans⟩
  · intro d x hd hstops j e hj he
    have hentry : t.cores i = some d := hd
    rw [hfirst.entry] at hentry
    obtain rfl := Option.some.inj hentry
    exact hvouched.outlast i c p rest x hselect hi hfirst.entry hfirst.queue hstops j e hj he

theorem process_ends (hs : Marked s) (hvouched : ∀ t, s.referred = .ok t → Vouched t) : s.Completes := by
  by_cases hready : s.toMultiplexer.checkMux = false
  · refine ⟨0, ?_⟩
    rw [TSMultiplexer.process, if_pos hready]
    exact ends_ok s
  by_cases hsources : 0 < s.iSources ∧ (s.mMux.size : ℤ) ≠ s.iSources
  · refine ⟨0, ?_⟩
    rw [TSMultiplexer.process, if_neg hready, if_pos hsources]
    exact ends_error (by decide)
  have hfilled : Filled s := ready_filled (by simpa using hready)
  have hbegin : ∀ fuel, (∀ t i B, s.referred = .ok t → t.toMultiplexer.selectMux = .ok i →
      t.startDts i = .ok B → Ends (TSMultiplexer.pass B fuel i (t.selected i))) → Ends (s.process fuel) := by
    intro fuel hpass
    rw [TSMultiplexer.process, if_neg hready, if_neg hsources]
    apply ends_bind (referred_ends hfilled)
    intro t hreferred
    have ht : Filled t := filled_same hfilled (referred_kept hreferred).2
    rw [TSMultiplexer.processPass]
    apply ends_bind (selectMux_ends ht)
    intro i hselect
    have hstart : Ends (t.startDts i) := by
      rw [TSMultiplexer.startDts]
      split_ifs with hi
      · rcases selectMux_first hselect with ⟨hnone, -⟩ | ⟨c, p, rest, hfirst⟩
        · omega
        · exact ends_map (front_ends ht hfirst.entry)
      · exact ends_ok _
    apply ends_bind hstart
    intro B hB
    apply ends_bind (hpass t i B hreferred hselect hB)
    exact fun r _ => release_ends _
  cases hreferred : s.referred with
  | error e =>
    refine ⟨1, hbegin 1 ?_⟩
    intro t i B ht
    rw [hreferred] at ht
    cases ht
  | ok t =>
    obtain ⟨hdelay, hcores⟩ := referred_kept hreferred
    have hready' : s.toMultiplexer.checkMux = true := by simpa using hready
    cases hselect : t.toMultiplexer.selectMux with
    | error e =>
      refine ⟨1, hbegin 1 ?_⟩
      intro t' i B ht hi
      rw [hreferred] at ht
      cases ht
      rw [hselect] at hi
      cases hi
    | ok i =>
      refine ⟨(t.selected i).remaining t.mMux.keys i+1, hbegin _ ?_⟩
      intro t' j B ht hj hB
      rw [hreferred] at ht
      cases ht
      rw [hselect] at hj
      cases hj
      by_cases hi : i < 0
      · rw [TSMultiplexer.pass, if_pos hi, TSMultiplexer.control]
        apply ends_bind (resetMux_ends _)
        exact fun r _ => ends_ok _
      · rcases selectMux_first hselect with ⟨hnone, -⟩ | ⟨c, p, rest, hfirst⟩
        · omega
        · obtain rfl := startDts_front hfirst.entry hfirst.queue (not_lt.1 hi) hB
          have hgoing := going_start hready' hs hcores hdelay (hvouched t hreferred) hselect (not_lt.1 hi) hfirst
          exact pass_ends hgoing rfl rfl (hvouched t hreferred).ticking hselect (Or.inr (Nat.lt_succ_self _))
            (Nat.succ_pos _)

/-- The DTS of each stream do not fall. -/
def InOrder (events : List Event) : Prop :=
  ∀ i, ((upcoming i events).map Timing.dts).Pairwise (· ≤ ·)

def videoAt (iDts : ℤ) : MediaPacket :=
  { MediaPacket.new .media .video 200 with
    codec := .avc, desc := some ⟨.video, .avc, 320, 240, 0, 0, 0, []⟩, bytes := List.replicate 176 0, dts := iDts }

def audioAt (iDts : ℤ) : MediaPacket :=
  { MediaPacket.new .media .audio 200 with
    codec := .mp4a, desc := some ⟨.audio, .mp4a, 0, 0, 0, 48000, 2, []⟩, bytes := List.replicate 184 0,
    dts := iDts, xstream := 1 }

/-- Two packets of video and two of audio. -/
def fourPackets (iVideo iAudio : ℤ) : List Event :=
  [.receive (videoAt 0), .receive (videoAt iVideo), .receive (audioAt 10), .receive (audioAt iAudio)]

theorem fourPackets_ordered {iVideo iAudio : ℤ} (hvideo : 0 ≤ iVideo) (haudio : 10 ≤ iAudio) :
    InOrder (fourPackets iVideo iAudio) := by
  intro i
  by_cases h0 : (0 : ℤ) = i
  · subst h0
    show List.Pairwise (· ≤ ·) [0, iVideo]
    simpa using hvideo
  · by_cases h1 : (1 : ℤ) = i
    · subst h1
      show List.Pairwise (· ≤ ·) [10, iAudio]
      simpa using haudio
    · have hnone : upcoming i (fourPackets iVideo iAudio) = [] :=
        (if_neg h0).trans ((if_neg h0).trans ((if_neg h1).trans (if_neg h1)))
      rw [hnone]
      exact List.Pairwise.nil

def errorOf {α : Type} : Except SirannonException α → Option SirannonException
  | .ok _ => none
  | .error e => some e

/-- Is a pass due, and what error does it end with? -/
def calledIn (r : Except SirannonException TSMultiplexer) : Option (Bool × Option SirannonException) :=
  match r with
  | .ok s => some (s.toMultiplexer.checkMux, errorOf (s.process 9))
  | .error _ => none

theorem fourPackets_cores {iVideo iAudio : ℤ} (h : run 0 Settings.default (fourPackets iVideo iAudio) = .ok s)
    (i : ℤ) : s.cores i = if i = 0 then some ⟨[videoAt 0, videoAt iVideo], -1, 0⟩
      else if i = 1 then some ⟨[audioAt 10, audioAt iAudio], -1, 0⟩ else none := by
  cases h
  by_cases h0 : i = 0
  · subst h0
    rfl
  · rw [if_neg h0]
    by_cases h1 : i = 1
    · subst h1
      rfl
    · rw [if_neg h1]
      have hvideo : ∀ x, (videoAt x).xstream ≠ i := fun x => Ne.symm h0
      have haudio : ∀ x, (audioAt x).xstream ≠ i := fun x => Ne.symm h1
      rw [receive_core_other _ (haudio _), receive_core_other _ (haudio _), receive_core_other _ (hvideo _),
        receive_core_other _ (hvideo _)]
      rfl

def readyIn (r : Except SirannonException TSMultiplexer) : Bool :=
  match r with
  | .ok s => s.toMultiplexer.checkMux
  | .error _ => false

/-- What a pass starts from. -/
def startIn (r : Except SirannonException TSMultiplexer) : Option (ℤ × ℤ × ℤ × Option ℤ) :=
  match r with
  | .ok s => some (s.iShape, s.iDelay, s.iMuxRate, s.toMultiplexer.selectMux.toOption)
  | .error _ => none

end Sirannon.TSMultiplexing
