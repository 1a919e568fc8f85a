import Sirannon.Multiplexer
import Sirannon.OrderedMerge

/-!
# The multiplexer as an ordered merge

In any run of arrivals and calls of `process` the multiplexer merges its
streams in rounds. What it routed is numbered through, and in place of the
control packets that end a round stands one of them.
-/

set_option autoImplicit false

namespace Sirannon.StableMerge
open Bits Media Multiplexing OrderedMerge StateError Std

def reading : Reading ℤ MediaPacket ℤ where
  source p := p.xstream
  barrier p := p.type ≠ .media
  rank p := p.dts

theorem barrier_iff (p : MediaPacket) : reading.barrier p = true ↔ p.type ≠ .media := by
  simp [reading]

theorem item_iff (p : MediaPacket) : reading.barrier p = false ↔ p.type = .media := by
  simp [reading]

/-! ## Runs -/

inductive Action
  | receive (pckt : MediaPacket)
  | process (oCurrent : ℤ)

def act : Action → Mux Unit
  | .receive pckt => Multiplexer.receive pckt
  | .process oCurrent => Multiplexer.process oCurrent

def run (acts : List Action) : Mux Unit := forM acts act

def Action.packet? : Action → Option MediaPacket
  | .receive pckt => some pckt
  | .process _ => none

def packets (acts : List Action) : List MediaPacket := acts.filterMap Action.packet?

/-- What the run delivers on the xstream `x`. -/
def delivered (acts : List Action) (x : ℤ) : List MediaPacket :=
  (packets acts).filter fun p => p.xstream = x

def media (ps : List MediaPacket) : List MediaPacket := ps.filter fun p => p.type = .media

def controls (ps : List MediaPacket) : List MediaPacket := ps.filter fun p => p.type ≠ .media

/-- The streams `xs` deliver, each with rising DTS. -/
structure Inputs (xs : List ℤ) (acts : List Action) : Prop where
  ids : ∀ x ∈ xs, 0 ≤ x
  streams : ∀ p ∈ packets acts, p.xstream ∈ xs
  rising : ∀ x ∈ xs, (media (delivered acts x)).Pairwise fun p q => p.dts ≤ q.dts
  bounded : ∀ p ∈ packets acts, p.type = .media → p.dts < 0x7FFFFFFF

/-- Nothing arrives on a stream whose end packet still waits. -/
def EndsAwaited (s : Multiplexer) : List Action → Prop
  | [] => True
  | a::acts => (∀ p ∈ a.packet?, ∀ q ∈ s.queue p.xstream, q.type ≠ .end) ∧
      EndsAwaited (after ((act a).run s)) acts

instance decidableEndsAwaited : ∀ (s : Multiplexer) (acts : List Action),
    Decidable (EndsAwaited s acts)
  | _, [] => inferInstanceAs (Decidable True)
  | s, a::acts =>
    have := decidableEndsAwaited (after ((act a).run s)) acts
    inferInstanceAs (Decidable (_ ∧ _))

/-- One of the control packets that come `k`-th on their streams has a DTS that is not negative. -/
def RoundsTimed (xs : List ℤ) (delivered : ℤ → List MediaPacket) : Prop :=
  ∀ (k : ℕ) (c : ℤ → MediaPacket),
    (∀ x ∈ xs, (controls (delivered x))[k]? = some (c x)) → ∃ x ∈ xs, 0 ≤ (c x).dts

/-- The control packet routed for a round is made of its latest one. -/
def Unified (r : Round MediaPacket) (c : MediaPacket) : Prop :=
  ∃ p ∈ r.barriers, c = control p ∧ ∀ q ∈ r.barriers, q.dts ≤ p.dts

def outgoing (rounds : List (Round MediaPacket)) (cs pending : List MediaPacket) :
    List MediaPacket :=
  ((rounds.zip cs).flatMap fun r => r.1.items ++ [r.2]) ++ pending

def numbered (streamID : ℤ) (ps : List MediaPacket) : List MediaPacket :=
  ps.mapIdx fun i p => { p with unitnumber := i, xstream := streamID }

/-- What was routed is, but for its numbers, the rounds with a control packet behind each, and what
came since; every round is in order and took one control packet from each stream; and with what
still waits, a stream's part of them is all that was delivered on it. -/
def Merged (xs : List ℤ) (acts : List Action) (s : Multiplexer) : Prop :=
  ∃ rounds cs pending,
    s.routed = numbered s.streamID (outgoing rounds cs pending) ∧
    List.Forall₂ Unified rounds cs ∧
    (∀ r ∈ rounds, ClosedRound reading xs r) ∧
    (∀ p ∈ pending, p.type = .media) ∧ Ordered reading pending ∧
    ∀ x, (rounds.flatMap (fun r => r.items ++ r.barriers) ++ pending).filter
      (fun p => p.xstream = x) ++ s.queue x = delivered acts x

/-! ## Refinement -/

/-- An end packet is the last one in its queue. -/
def EndLast (ps : List MediaPacket) : Prop :=
  ∀ before p behind, ps = before ++ p::behind → p.type = .end → behind = []

/-- What is routed for the rounds of `m`. -/
structure Routes (xs : List ℤ) (r : Routing) (m : Merge ℤ MediaPacket) : Prop where
  streams : r.iStreams = xs.length
  unit : r.iUnit = r.routed.length
  routed : ∃ cs, List.Forall₂ Unified m.rounds cs ∧
    r.routed = numbered r.streamID (outgoing m.rounds cs m.pending)

structure Refines (xs : List ℤ) (s : Multiplexer) (m : Merge ℤ MediaPacket) : Prop where
  queues : ∀ x, m.queue x = s.queue x
  keys : ∀ x ∈ s.mMux, x ∈ xs
  ends : ∀ x, EndLast (s.queue x)
  routes : Routes xs s.routing m

variable {xs : List ℤ} {s t : Multiplexer} {m : Merge ℤ MediaPacket}

theorem numbered_snoc (streamID : ℤ) (ps : List MediaPacket) (p : MediaPacket) :
    numbered streamID (ps ++ [p]) =
      numbered streamID ps ++ [{ p with unitnumber := ps.length, xstream := streamID }] := by
  rw [numbered, List.mapIdx_concat]
  rfl

theorem numbered_length (streamID : ℤ) (ps : List MediaPacket) :
    (numbered streamID ps).length = ps.length := List.length_mapIdx

theorem outgoing_pending (rounds : List (Round MediaPacket)) (cs pending : List MediaPacket)
    (p : MediaPacket) : outgoing rounds cs (pending ++ [p]) = outgoing rounds cs pending ++ [p] := by
  simp [outgoing]

theorem outgoing_round {rounds : List (Round MediaPacket)} {cs : List MediaPacket}
    (h : rounds.length = cs.length) (r : Round MediaPacket) (c : MediaPacket) :
    outgoing (rounds ++ [r]) (cs ++ [c]) [] = outgoing rounds cs r.items ++ [c] := by
  simp [outgoing, List.zip_append h]

theorem mux_routed {s : Multiplexer} {ps : List MediaPacket} (p : MediaPacket)
    (hunit : s.iUnit = s.routed.length) (h : s.routed = numbered s.streamID ps) :
    (s.mux p).routed = numbered s.streamID (ps ++ [p]) := by
  rw [numbered_snoc, ← numbered_length s.streamID ps, ← h, ← hunit]
  rfl

theorem endLast_front {front : MediaPacket} {rest : List MediaPacket}
    (h : EndLast (front::rest)) (hend : front.type = .end) : rest = [] := h [] front rest rfl hend

theorem endLast_tail {front : MediaPacket} {rest : List MediaPacket} (h : EndLast (front::rest)) :
    EndLast rest := by
  intro before p behind hrest hend
  exact h (front::before) p behind (by rw [hrest, List.cons_append]) hend

theorem endLast_snoc {ps : List MediaPacket} (h : ∀ q ∈ ps, q.type ≠ .end) (p : MediaPacket) :
    EndLast (ps ++ [p]) := by
  intro before q behind hsplit hend
  rcases List.eq_nil_or_concat behind with hnil | ⟨rest, last, hconcat⟩
  · exact hnil
  · rw [List.concat_eq_append] at hconcat
    rw [hconcat, ← List.cons_append, ← List.append_assoc] at hsplit
    have hq : q ∈ ps := by
      rw [(List.append_inj' hsplit rfl).1]
      simp
    exact absurd hend (h q hq)

theorem init_refines (streamID delay : ℤ) (xs : List ℤ) :
    Refines xs (Multiplexer.init streamID delay xs.length) Merge.start := by
  have hempty : ∀ x, (Multiplexer.init streamID delay xs.length).queue x = [] := by
    intro x
    apply queue_none
    simp [Multiplexer.init, Multiplexer.new]
  constructor
  · intro x
    rw [hempty]
    rfl
  · simp [Multiplexer.init, Multiplexer.new]
  · intro x
    rw [hempty]
    intro before p behind h
    simp at h
  · exact ⟨rfl, rfl, [], List.Forall₂.nil, rfl⟩

theorem received_refines (h : Refines xs s m) {p : MediaPacket} (hp : p.xstream ∈ xs)
    (hend : ∀ q ∈ s.queue p.xstream, q.type ≠ .end) :
    Refines xs (s.received p) (m.arrive reading p) := by
  constructor
  · intro x
    by_cases hx : x = p.xstream
    · subst hx
      show append m.queue p.xstream p p.xstream = _
      rw [append_same, h.queues, received_queue_same]
    · show append m.queue p.xstream p x = _
      rw [append_other p hx, h.queues, received_queue_other s p fun h => hx h.symm]
  · intro x hx
    rcases (received_mem s p x).mp hx with rfl | hx
    · exact hp
    · exact h.keys x hx
  · intro x
    by_cases hx : x = p.xstream
    · subst hx
      rw [received_queue_same]
      exact endLast_snoc hend p
    · rw [received_queue_other s p fun h => hx h.symm]
      exact h.ends x
  · rw [received_routing]
    exact ⟨h.routes.streams, h.routes.unit, h.routes.routed⟩

/-! ## One turn -/

/-- When the multiplexer is ready every stream has something waiting. -/
theorem ready_fronts (h : Refines xs s m) (hready : s.checkMux = true) {x : ℤ}
    (hx : x ∈ xs) : ∃ front rest, s.queue x = front::rest := by
  apply checkMux_queues hready
  have hpos : 0 < xs.length := List.length_pos_of_mem hx
  have hstreams : s.iStreams = xs.length := h.routes.streams
  have hsize := checkMux_streams hready (by omega)
  have hsub : s.mMux.keys ⊆ xs := fun y hy => h.keys y (TreeMap.mem_keys.mp hy)
  have hkeys : s.mMux.keys.Nodup := TreeMap.nodup_keys
  have hperm : s.mMux.keys.Perm xs := by
    apply (List.subperm_of_subset hkeys hsub).perm_of_length_le
    rw [TreeMap.length_keys]
    omega
  exact TreeMap.mem_keys.mp (hperm.mem_iff.mpr hx)

/-- What the streams delivered is below the starting value of the search. -/
def Bounded (m : Merge ℤ MediaPacket) : Prop :=
  ∀ x, ∀ p ∈ m.arrived x, p.type = .media → p.dts < 0x7FFFFFFF

theorem front_arrived (h : Refines xs s m) (hs : Sound reading xs m) {x : ℤ} {p : MediaPacket}
    {rest : List MediaPacket} (hq : s.queue x = p::rest) : p ∈ m.arrived x := by
  rw [← hs.accounts x, h.queues, hq]
  simp

theorem entry_front (h : Refines xs s m) (hready : s.checkMux = true)
    {e : ℤ × Muxx} (he : e ∈ s.mMux.toList) : ∃ front, e.2.Front front := by
  rcases ready_fronts h hready (h.keys _ (mem_of_entry he)) with ⟨front, rest, hq⟩
  rw [queue_entry he] at hq
  exact ⟨front, rest, hq⟩

theorem select_ready (h : Refines xs s m) (hs : Sound reading xs m)
    (hready : s.checkMux = true) (hbound : Bounded m) :
    ∃ i iMin, s.selectMux = .ok i ∧ Lowest s.mMux.toList i iMin := by
  have hall : ∀ e ∈ s.mMux.toList, ∃ front, e.2.Front front ∧ (front.type = .media →
      front.dts < 0x7FFFFFFF) := by
    intro e he
    rcases entry_front h hready he with ⟨front, rest, hq⟩
    refine ⟨front, ⟨rest, hq⟩, ?_⟩
    intro hmedia
    exact hbound e.1 front (front_arrived h hs ((queue_entry he).trans hq)) hmedia
  have hloop := selectLoop_lowest s.mMux.toList lowest_nil hall
  rwa [List.nil_append] at hloop

theorem entry_of_front (h : Refines xs s m) (hready : s.checkMux = true)
    {x : ℤ} (hx : x ∈ xs) : ∃ e ∈ s.mMux.toList, e.1 = x ∧ ∃ front rest,
      e.2.vQueue = front::rest ∧ m.queue x = front::rest := by
  rcases ready_fronts h hready hx with ⟨front, rest, hq⟩
  rcases mem_of_queue hq with ⟨pMux, hget, hqueue⟩
  exact ⟨(x, pMux), TreeMap.mem_toList_iff_getElem?_eq_some.mpr hget, rfl, front, rest, hqueue,
    (h.queues x).trans hq⟩

theorem front_eq {pMux : Muxx} {p front : MediaPacket} {rest : List MediaPacket}
    (h : pMux.Front p) (hq : pMux.vQueue = front::rest) : front = p := by
  rcases h with ⟨rest', hq'⟩
  rw [hq] at hq'
  exact (List.cons.inj hq').1

theorem front_queue (h : Refines xs s m) {e : ℤ × Muxx} (he : e ∈ s.mMux.toList) {p : MediaPacket}
    (hfront : e.2.Front p) : e.1 ∈ xs ∧ ∃ rest, m.queue e.1 = p::rest := by
  rcases hfront with ⟨rest, hq⟩
  refine ⟨h.keys e.1 (mem_of_entry he), rest, ?_⟩
  rw [h.queues, queue_entry he, hq]

/-- The media packet taken is the lowest, and the merge releases it. -/
theorem media_turn (h : Refines xs s m) (hs : Sound reading xs m)
    (hready : s.checkMux = true) {e : ℤ × Muxx} {front : MediaPacket}
    (he : e ∈ s.mMux.toList) (hfront : e.2.Front front) (hmedia : front.type = .media)
    (hlow : ∀ c ∈ s.mMux.toList, ∃ f, c.2.Front f ∧ (f.type ≠ .media ∨ front.dts ≤ f.dts)) :
    Step reading xs m (m.release reading front) ∧
      Refines xs (((s.modified e.1 Muxx.pop).noted front).mux front)
        (m.release reading front) := by
  rcases front_queue h he hfront with ⟨hx, rest, hq⟩
  have hsource : reading.source front = e.1 := by
    apply hs.queued e.1 front
    rw [hq]
    exact List.mem_cons_self
  have hqueue : s.queue e.1 = front::rest := (h.queues e.1).symm.trans hq
  constructor
  · apply Step.release front rest
    · rwa [hsource]
    · rwa [hsource]
    · exact (item_iff front).mpr hmedia
    · intro x hx
      rcases entry_of_front h hready hx with ⟨c, hc, rfl, f, rest', hfq, hmq⟩
      refine ⟨f, rest', hmq, ?_⟩
      rcases hlow c hc with ⟨f', hf', hle⟩
      rw [front_eq hf' hfq, barrier_iff]
      exact hle
  · constructor
    · intro x
      by_cases hxe : x = e.1
      · subst hxe
        show _ = (s.modified e.1 Muxx.pop).queue e.1
        rw [(popFront_queue hqueue).2, ← hsource]
        exact released_front (by rw [hsource]; exact hq)
      · show _ = (s.modified e.1 Muxx.pop).queue x
        rw [modified_other s Muxx.pop fun h => hxe h.symm,
          released_queue m front (by rw [hsource]; exact hxe), h.queues]
    · intro x hx
      exact h.keys x (TreeMap.mem_modify.mp hx)
    · intro x
      show EndLast ((s.modified e.1 Muxx.pop).queue x)
      by_cases hxe : x = e.1
      · subst hxe
        rw [(popFront_queue hqueue).2]
        apply endLast_tail
        rw [← hqueue]
        exact h.ends e.1
      · rw [modified_other s Muxx.pop fun h => hxe h.symm]
        exact h.ends x
    · rcases h.routes with ⟨hstreams, hunit, cs, hcs, hrouted⟩
      refine ⟨hstreams, ?_, cs, hcs, ?_⟩
      · show s.iUnit+1 = ((s.routed ++ [_]).length : ℤ)
        rw [List.length_append, List.length_singleton]
        push_cast
        exact congrArg (·+1) hunit
      · have hmux := mux_routed (s := (s.modified e.1 Muxx.pop).noted front) front hunit hrouted
        exact hmux.trans (congrArg (numbered s.streamID) (outgoing_pending _ _ _ _).symm)

/-- The control packets at the fronts are taken together, and the merge closes the round. -/
theorem control_turn (h : Refines xs s m)
    (hready : s.checkMux = true) {pckt : MediaPacket}
    (hall : ∀ e ∈ s.mMux.toList, ∃ front, e.2.Front front ∧ front.type ≠ .media)
    (hhigh : Highest s.mMux.toList (some pckt) pckt.dts) :
    Step reading xs m (m.close xs) ∧
      Refines xs ((s.popControls.noted (control pckt)).mux (control pckt))
        (m.close xs) := by
  rcases hhigh with ⟨-, -, ⟨e, he, hpckt⟩, hmax⟩
  have hends : ∀ x front rest, s.queue x = front::rest → front.type = .end → rest = [] := by
    intro x front rest hq hend
    apply endLast_front _ hend
    rw [← hq]
    exact h.ends x
  constructor
  · apply Step.close
    intro x hx
    rcases entry_of_front h hready hx with ⟨c, hc, rfl, f, rest, hfq, hmq⟩
    refine ⟨f, rest, hmq, ?_⟩
    rcases hall c hc with ⟨f', hf', htype⟩
    rw [front_eq hf' hfq, barrier_iff]
    exact htype
  · constructor
    · intro x
      show _ = s.popControls.queue x
      rw [popControls_queue (hends x), ← h.queues x]
      by_cases hx : x ∈ xs
      · simp [Merge.close, hx]
      · have hempty : m.queue x = [] := by
          rw [h.queues]
          apply queue_none
          exact TreeMap.getElem?_eq_none fun hmem => hx (h.keys x hmem)
        simp [Merge.close, hx, hempty]
    · intro x hx
      exact h.keys x (popControls_mem hx)
    · intro x
      show EndLast (s.popControls.queue x)
      rw [popControls_queue (hends x)]
      cases hq : s.queue x with
      | nil => simpa [hq] using h.ends x
      | cons front rest =>
        have hlast := h.ends x
        rw [hq] at hlast
        exact endLast_tail hlast
    · rcases h.routes with ⟨hstreams, hunit, cs, hcs, hrouted⟩
      have hunified : Unified ⟨m.pending, m.fronts xs⟩ (control pckt) := by
        refine ⟨pckt, ?_, rfl, ?_⟩
        · rcases front_queue h he hpckt with ⟨hx, rest, hq⟩
          exact List.mem_filterMap.mpr ⟨e.1, hx, by rw [hq]; rfl⟩
        · intro q hq
          rcases mem_fronts hq with ⟨x, hx, rest, hqueue⟩
          rcases entry_of_front h hready hx with ⟨c, hc, rfl, f, rest', hfq, hmq⟩
          rcases hmax c hc with ⟨f', hf', hle⟩
          rw [hqueue] at hmq
          rw [(List.cons.inj hmq).1, front_eq hf' hfq]
          exact hle
      refine ⟨hstreams, ?_, cs ++ [control pckt], ?_, ?_⟩
      · show s.iUnit+1 = ((s.routed ++ [_]).length : ℤ)
        rw [List.length_append, List.length_singleton]
        push_cast
        exact congrArg (·+1) hunit
      · exact List.rel_append hcs (List.Forall₂.cons hunified List.Forall₂.nil)
      · have hmux := mux_routed (s := s.popControls.noted (control pckt)) (control pckt) hunit
          hrouted
        have hround := outgoing_round hcs.length_eq ⟨m.pending, m.fronts xs⟩ (control pckt)
        exact hmux.trans (congrArg (numbered s.streamID) hround.symm)

/-- The control packets at the fronts come at the same place on their streams, so one has a DTS
that is not negative. -/
theorem fronts_timed (h : Refines xs s m) (hs : Sound reading xs m) (hnodup : xs.Nodup)
    (hready : s.checkMux = true)
    (hall : ∀ e ∈ s.mMux.toList, ∃ front, e.2.Front front ∧ front.type ≠ .media)
    (htimed : RoundsTimed xs m.arrived) :
    ∃ e ∈ s.mMux.toList, ∃ front, e.2.Front front ∧ 0 ≤ front.dts := by
  have hfronts : ∀ x, ∃ b, x ∈ xs → ∃ e ∈ s.mMux.toList, e.2.Front b ∧
      (controls (m.arrived x))[m.rounds.length]? = some b := by
    intro x
    by_cases hx : x ∈ xs
    · rcases entry_of_front h hready hx with ⟨e, he, rfl, front, rest, hfq, hmq⟩
      rcases hall e he with ⟨f, hf, htype⟩
      rw [front_eq hf hfq] at hmq
      refine ⟨f, fun _ => ⟨e, he, hf, ?_⟩⟩
      exact front_barrier hnodup hs hx hmq ((barrier_iff f).mpr htype)
    · exact ⟨MediaPacket.new .media .video 0, fun h => absurd h hx⟩
  choose b hb using hfronts
  have hcontrols : ∀ x ∈ xs, (controls (m.arrived x))[m.rounds.length]? = some (b x) := by
    intro x hx
    rcases hb x hx with ⟨e, he, hfront, hget⟩
    exact hget
  rcases htimed m.rounds.length b hcontrols with ⟨x, hx, hpos⟩
  rcases hb x hx with ⟨e, he, hfront, -⟩
  exact ⟨e, he, b x, hfront, hpos⟩

theorem front_unique {pMux : Muxx} {p q : MediaPacket} (hp : pMux.Front p) (hq : pMux.Front q) :
    p = q := by
  rcases hp with ⟨rest, hp⟩
  exact front_eq hq hp

/-- Either a turn releases the lowest packet or it closes a round. -/
theorem turn_refines (h : Refines xs s m) (hs : Sound reading xs m) (hnodup : xs.Nodup)
    (hids : ∀ x ∈ xs, 0 ≤ x) (hready : s.checkMux = true) (hbound : Bounded m)
    (htimed : RoundsTimed xs m.arrived) :
    ∃ t n, s.turn = .ok t ∧ Step reading xs m n ∧ n.arrived = m.arrived ∧ Refines xs t n := by
  rcases select_ready h hs hready hbound with ⟨i, iMin, hselect, hcase⟩
  rcases hcase with ⟨hi, -, hall⟩ | ⟨⟨e, he, front, hfront, hmedia, hi, hmin⟩, hlow⟩
  · rcases resetLoop_highest s.mMux.toList highest_nil hall with ⟨p, iMax, hreset, hhigh⟩
    rw [List.nil_append] at hhigh
    cases p with
    | none =>
      rcases fronts_timed h hs hnodup hready hall htimed with ⟨e, he, front, hfront, hpos⟩
      rcases hhigh.2 e he with ⟨f, hf, hneg⟩
      rw [front_unique hf hfront] at hneg
      omega
    | some pckt =>
      have hmax : iMax = pckt.dts := hhigh.1
      subst hmax
      rcases control_turn h hready hall hhigh with ⟨hstep, href⟩
      exact ⟨_, _, turn_control hselect (by omega) hreset, hstep, rfl, href⟩
  · subst hi
    subst hmin
    rcases front_queue h he hfront with ⟨hx, rest, hq⟩
    rcases media_turn h hs hready he hfront hmedia hlow with ⟨hstep, href⟩
    have hturn := turn_media hselect (hids e.1 hx) ((h.queues e.1).symm.trans hq)
    exact ⟨_, _, hturn, hstep, rfl, href⟩

/-! ## Whole runs -/

theorem processLoop_refines (hnodup : xs.Nodup) (hids : ∀ x ∈ xs, 0 ≤ x) (fuel : ℕ)
    (h : Refines xs s m) (hs : Sound reading xs m) (hbound : Bounded m)
    (htimed : RoundsTimed xs m.arrived) :
    ∃ t n, (Multiplexer.processLoop fuel).run s = .ok () t ∧ Sound reading xs n ∧
      n.arrived = m.arrived ∧ Refines xs t n := by
  induction fuel generalizing s m with
  | zero => exact ⟨s, m, rfl, hs, rfl, h⟩
  | succ fuel ih =>
    rw [Multiplexer.processLoop, run_get_bind]
    by_cases hready : s.checkMux = true
    · rw [if_pos hready]
      rcases turn_refines h hs hnodup hids hready hbound htimed with ⟨t, n, hturn, hstep, harr, href⟩
      have hbound' : Bounded n := by
        rw [Bounded, harr]
        exact hbound
      rcases ih href (step_sound hnodup hs hstep) hbound' (by rw [harr]; exact htimed) with
        ⟨t', n', hrun, hs', harr', href'⟩
      refine ⟨t', n', ?_, hs', harr'.trans harr, href'⟩
      rw [run_ofExcept_bind hturn]
      exact hrun
    · rw [if_neg hready]
      exact ⟨s, m, rfl, hs, rfl, h⟩

theorem process_refines (hnodup : xs.Nodup) (hids : ∀ x ∈ xs, 0 ≤ x) (oCurrent : ℤ)
    (h : Refines xs s m) (hs : Sound reading xs m) (hbound : Bounded m)
    (htimed : RoundsTimed xs m.arrived) :
    ∃ t n, (Multiplexer.process oCurrent).run s = .ok () t ∧ Sound reading xs n ∧
      n.arrived = m.arrived ∧ Refines xs t n := by
  rw [Multiplexer.process, run_get_bind]
  by_cases hwait : oCurrent < s.oStart
  · rw [if_pos hwait]
    exact ⟨s, m, rfl, hs, rfl, h⟩
  · rw [if_neg hwait]
    exact processLoop_refines hnodup hids (s.waiting+1) h hs hbound htimed

/-- What the streams deliver in a whole run. -/
structure Feed (xs : List ℤ) (full : ℤ → List MediaPacket) : Prop where
  rising : ∀ x ∈ xs, (media (full x)).Pairwise fun p q => p.dts ≤ q.dts
  bounded : ∀ x, ∀ p ∈ full x, p.type = .media → p.dts < 0x7FFFFFFF
  timed : RoundsTimed xs full

theorem feed_bounded {full : ℤ → List MediaPacket} {rest : ℤ → List MediaPacket}
    (h : Feed xs full) (hfull : ∀ x, m.arrived x ++ rest x = full x) : Bounded m := by
  intro x p hp
  apply h.bounded x p
  rw [← hfull x]
  exact List.mem_append_left _ hp

theorem feed_timed {full : ℤ → List MediaPacket} {rest : ℤ → List MediaPacket}
    (h : Feed xs full) (hfull : ∀ x, m.arrived x ++ rest x = full x) :
    RoundsTimed xs m.arrived := by
  intro k c hc
  apply h.timed k c
  intro x hx
  have hget := hc x hx
  have hlt : k < (controls (m.arrived x)).length := (List.getElem?_eq_some_iff.mp hget).1
  rw [← hfull x, controls, List.filter_append, ← controls, List.getElem?_append_left hlt]
  exact hget

theorem feed_rises {full : ℤ → List MediaPacket} {rest : List MediaPacket} {p : MediaPacket}
    (h : Feed xs full) (hp : p.xstream ∈ xs) (hfull : m.arrived p.xstream ++ p::rest = full p.xstream) :
    Rises reading m p := by
  by_cases htype : p.type = .media
  · right
    intro c hc
    by_cases hctype : c.type = .media
    · right
      have hrising := h.rising p.xstream hp
      rw [← hfull, media, List.filter_append, List.pairwise_append] at hrising
      apply hrising.2.2 c (List.mem_filter.mpr ⟨hc, by simp [hctype]⟩) p
      simp [htype]
    · exact .inl ((barrier_iff c).mpr hctype)
  · exact .inl ((barrier_iff p).mpr htype)

theorem delivered_receive (p : MediaPacket) (acts : List Action) (x : ℤ) :
    delivered (.receive p::acts) x =
      if p.xstream = x then p::delivered acts x else delivered acts x := by
  by_cases h : p.xstream = x
  · simp [delivered, packets, Action.packet?, h]
  · simp [delivered, packets, Action.packet?, h]

theorem run_refines (hnodup : xs.Nodup) (hids : ∀ x ∈ xs, 0 ≤ x)
    {full : ℤ → List MediaPacket} (hfeed : Feed xs full) (acts : List Action)
    (h : Refines xs s m) (hs : Sound reading xs m)
    (hfull : ∀ x, m.arrived x ++ delivered acts x = full x)
    (hstreams : ∀ p ∈ packets acts, p.xstream ∈ xs) (hends : EndsAwaited s acts) :
    ∃ t n, (run acts).run s = .ok () t ∧ Sound reading xs n ∧ n.arrived = full ∧
      Refines xs t n := by
  induction acts generalizing s m with
  | nil =>
    refine ⟨s, m, rfl, hs, ?_, h⟩
    funext x
    have := hfull x
    rwa [delivered, packets, List.filterMap_nil, List.filter_nil, List.append_nil] at this
  | cons a acts ih =>
    rw [run, List.forM_cons, ← run]
    cases a with
    | receive p =>
      have hp := hstreams p List.mem_cons_self
      have hstreams' : ∀ q ∈ packets acts, q.xstream ∈ xs := fun q hq =>
        hstreams q (List.mem_cons_of_mem p hq)
      have hquiet := hends.1 p rfl
      have hrises : Rises reading m p := by
        apply feed_rises hfeed hp
        rw [← hfull, delivered_receive, if_pos rfl]
      apply ih (received_refines h hp hquiet) (arrive_sound hs hrises) _ hstreams' hends.2
      intro x
      rw [← hfull x, delivered_receive]
      show append m.arrived p.xstream p x ++ _ = _
      by_cases hx : p.xstream = x
      · subst hx
        rw [append_same, if_pos rfl, List.append_assoc]
        rfl
      · rw [append_other p fun h => hx h.symm, if_neg hx]
    | process oCurrent =>
      rcases process_refines hnodup hids oCurrent h hs (feed_bounded hfeed hfull)
        (feed_timed hfeed hfull) with ⟨t, n, hrun, hs', harr, href⟩
      have hafter : after ((act (.process oCurrent)).run s) = t := by
        rw [act, hrun]
        rfl
      have hends' := hends.2
      rw [hafter] at hends'
      rcases ih href hs' (by rw [harr]; exact hfull) hstreams hends' with ⟨t', n', hrest⟩
      refine ⟨t', n', ?_, hrest.2⟩
      rw [act, run_bind_of_ok hrun]
      exact hrest.1

theorem merged_of_refines {acts : List Action} (h : Refines xs s m) (hs : Sound reading xs m)
    (harrived : m.arrived = delivered acts) : Merged xs acts s := by
  rcases h.routes.routed with ⟨cs, hcs, hrouted⟩
  refine ⟨m.rounds, cs, m.pending, hrouted, hcs, hs.rounds, ?_, hs.ordered, ?_⟩
  · intro p hp
    exact (item_iff p).mp (hs.items p hp)
  · intro x
    rw [← harrived, ← hs.accounts x, h.queues x]
    rfl

theorem timed_of_stream {xs : List ℤ} {full : ℤ → List MediaPacket} {x : ℤ} (hx : x ∈ xs)
    (h : ∀ p ∈ controls (full x), 0 ≤ p.dts) : RoundsTimed xs full := by
  intro k c hc
  exact ⟨x, hx, h _ (List.mem_of_getElem? (hc x hx))⟩

def examplePacket (type : PacketType) (xstream dts : ℤ) : MediaPacket :=
  { MediaPacket.new type .video 0 with xstream := xstream, dts := dts }

/-- Two streams with a reset each, and the end of one of them. -/
def exampleActs : List Action :=
  [.receive (examplePacket .media 3 0), .process 0, .receive (examplePacket .media 4 50),
    .receive (examplePacket .media 3 80), .receive (examplePacket .reset 4 60), .process 0,
    .receive (examplePacket .reset 3 90), .receive (examplePacket .media 4 100), .process 0,
    .receive (examplePacket .end 3 95), .receive (examplePacket .end 4 120), .process 0]

/-- The error a run stops with. -/
def error? {ε σ α : Type} : EStateM.Result ε σ α → Option ε
  | .ok _ _ => none
  | .error e _ => some e

def earlyReset : List Action := [.receive (examplePacket .reset 3 (-1)), .process 0]

end Sirannon.StableMerge
