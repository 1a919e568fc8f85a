import Sirannon.TSPassTiming

/-!
# The order of the output

From one pass to the next the queues keep the DTS from which all packets of
media are due, and so the DTS sent do not fall from one control packet to the
next.
-/

set_option autoImplicit false

namespace Sirannon.TSMultiplexing
open Bits Media MachineInt Multiplexing
open Std (TreeMap)

variable {s t u : TSMultiplexer} {iStream lo hi B : ℤ} {r : ℤ × TSMultiplexer} {x : ℤ}

/-! ## The state between two passes -/

/-- The packets of a stream that are still to come. -/
def upcoming (i : ℤ) : List Event → List Timing
  | [] => []
  | .receive p::events => if p.xstream = i then timing p::upcoming i events else upcoming i events
  | .process _::events => upcoming i events

/-- The next pass starts where the last one ended, unless a control packet or a new stream came between. -/
structure Ready (lo hi : ℤ) (events : List Event) (s : TSMultiplexer) : Prop where
  spaced : ∀ i, Spaced lo hi (s.timings i ++ upcoming i events)
  steady : ∀ i c, s.cores i = some c → Steady lo hi c
  cont : s.bCont = true
  vOut : s.vOut = []
  found : 0 ≤ s.iRefStream → 0 < s.iSources
  sent : (∀ x, Sent x s.outgoing) ∨ ∃ B, Sent B s.outgoing ∧ 0 < s.iSources ∧
    (s.iSources < s.mMux.size ∨ (s.mMux.size : ℤ) = s.iSources ∧ DueFrom B s)

def Core.push (c : Core) (p : MediaPacket) : Core := { c with vQueue := c.vQueue ++ [p] }

theorem push_timings {c : Core} (h : Steady lo hi c) (p : MediaPacket) :
    (c.push p).timings = c.timings ++ [timing p] := by
  rw [Core.push, Core.timings, Core.timings]
  cases hqueue : c.vQueue with
  | nil =>
    have hfresh : c.iOrigSize < 0 := by
      by_contra hbegun
      obtain ⟨front, rest, hfront, -⟩ := h.moved (not_lt.1 hbegun)
      rw [hqueue] at hfront
      cases hfront
    show [_] = [_]
    rw [if_pos hfresh]
    rfl
  | cons front rest =>
    show _::(rest ++ [p]).map timing = _::rest.map timing ++ [timing p]
    rw [List.map_append]
    rfl

theorem opened_core (s : TSMultiplexer) (i : ℤ) :
    (s.opened i).mMux[i]?.map core = some ((s.cores i).getD ⟨[], -1, 0⟩) := by
  rw [Multiplexer.opened, TSMultiplexer.cores]
  by_cases hi : i ∈ s.mMux
  · rw [if_pos hi]
    have hentry := TreeMap.getElem?_eq_some_getElem hi
    rw [hentry]
    rfl
  · rw [if_neg hi]
    have hnew : (s.mMux.insert i (Muxx.new s.iMaxPID))[i]? = some (Muxx.new s.iMaxPID) :=
      TreeMap.getElem?_insert_self
    show (s.mMux.insert i (Muxx.new s.iMaxPID))[i]?.map core = _
    rw [hnew, TreeMap.getElem?_eq_none hi]
    rfl

theorem receive_core_same (s : TSMultiplexer) (p : MediaPacket) : (s.receive p).cores p.xstream =
    some (((s.cores p.xstream).getD ⟨[], -1, 0⟩).push p) := by
  show ((s.opened p.xstream).mMux.modify p.xstream fun pMux => pMux.push p)[p.xstream]?.map core = _
  have hopened := opened_core s p.xstream
  obtain ⟨pMux, hentry, hcore⟩ := Option.map_eq_some_iff.1 hopened
  rw [TreeMap.getElem?_modify_self, hentry, ← hcore]
  rfl

theorem receive_core_other (s : TSMultiplexer) {p : MediaPacket} {i : ℤ} (h : p.xstream ≠ i) :
    (s.receive p).cores i = s.cores i := by
  have hne : compare p.xstream i ≠ .eq := by simpa using h
  show ((s.opened p.xstream).mMux.modify p.xstream fun pMux => pMux.push p)[i]?.map core = _
  rw [TreeMap.getElem?_modify, if_neg hne, Multiplexer.opened, TSMultiplexer.cores]
  split_ifs
  · rfl
  · rw [TreeMap.getElem?_insert, if_neg hne]

theorem receive_size (s : TSMultiplexer) (p : MediaPacket) :
    (s.receive p).mMux.size = if p.xstream ∈ s.mMux then s.mMux.size else s.mMux.size+1 := by
  show ((s.opened p.xstream).mMux.modify p.xstream fun pMux => pMux.push p).size = _
  rw [TreeMap.size_modify, Multiplexer.opened]
  by_cases hi : p.xstream ∈ s.mMux
  · rw [if_pos hi, if_pos hi]
  · rw [if_neg hi, if_neg hi]
    show (s.mMux.insert p.xstream (Muxx.new s.iMaxPID)).size = _
    rw [TreeMap.size_insert, if_neg (by simpa using hi)]

theorem fresh_steady : Steady lo hi ⟨[], -1, 0⟩ := by
  constructor
  · exact ⟨by simp [Core.timings], List.Pairwise.nil⟩
  · intro hbegun
    exact absurd hbegun (by decide)

theorem core_steady (h : ∀ i c, s.cores i = some c → Steady lo hi c) (i : ℤ) :
    Steady lo hi ((s.cores i).getD ⟨[], -1, 0⟩) := by
  cases hc : s.cores i with
  | none => exact fresh_steady
  | some c => exact h i c hc

theorem core_timings (s : TSMultiplexer) (i : ℤ) :
    ((s.cores i).getD ⟨[], -1, 0⟩).timings = s.timings i := by
  rw [TSMultiplexer.timings]
  cases s.cores i <;> rfl

/-- A packet that comes in was expected. -/
theorem receive_timings (h : ∀ i c, s.cores i = some c → Steady lo hi c) (p : MediaPacket) (events : List Event)
    (i : ℤ) : (s.receive p).timings i ++ upcoming i events = s.timings i ++ upcoming i (.receive p::events) := by
  rw [upcoming]
  by_cases hi : p.xstream = i
  · subst hi
    rw [if_pos rfl, timings_some (receive_core_same s p), push_timings (core_steady h p.xstream), core_timings,
      List.append_assoc, List.singleton_append]
  · rw [if_neg hi, TSMultiplexer.timings, receive_core_other s hi]
    rfl

theorem push_steady {c : Core} {p : MediaPacket} (h : Steady lo hi c)
    (hspaced : Spaced lo hi (c.timings ++ [timing p])) : Steady lo hi (c.push p) := by
  constructor
  · rw [push_timings h]
    exact hspaced
  · intro hbegun
    obtain ⟨front, rest, hqueue, hmedia, hmoved⟩ := h.moved hbegun
    refine ⟨front, rest ++ [p], ?_, hmedia, hmoved.before, hmoved.after, hmoved.sent⟩
    rw [Core.push, hqueue]
    rfl

theorem push_front_queue {c : Core} {p front : MediaPacket} {rest : List MediaPacket} (h : c.vQueue = front::rest) :
    (c.push p).vQueue = front::(rest ++ [p]) := by
  rw [Core.push, h]
  rfl

theorem receive_outgoing (s : TSMultiplexer) (p : MediaPacket) : (s.receive p).outgoing = s.outgoing := by
  have hrouted : (s.toMultiplexer.received p).routed = s.routed :=
    congrArg Routing.routed (received_routing s.toMultiplexer p)
  show (⟨(s.toMultiplexer.received p).routed, s.pTSPckt, s.bCont, s.bAggr, s.iSources⟩ : Outgoing) = _
  rw [hrouted]
  rfl

theorem receive_ready {p : MediaPacket} {events : List Event} (h : Ready lo hi (.receive p::events) s) :
    Ready lo hi events (s.receive p) := by
  have hspaced : ∀ i, Spaced lo hi ((s.receive p).timings i ++ upcoming i events) := by
    intro i
    rw [receive_timings h.steady]
    exact h.spaced i
  constructor
  · exact hspaced
  · intro i c hc
    by_cases hi : p.xstream = i
    · subst hi
      rw [receive_core_same] at hc
      cases hc
      apply push_steady (core_steady h.steady p.xstream)
      have hhere := hspaced p.xstream
      rw [timings_some (receive_core_same s p), push_timings (core_steady h.steady p.xstream)] at hhere
      exact spaced_sublist hhere (List.sublist_append_left _ _)
    · rw [receive_core_other s hi] at hc
      exact h.steady i c hc
  · exact h.cont
  · exact h.vOut
  · exact h.found
  · rw [receive_outgoing]
    rcases h.sent with hany | ⟨B, hsent, hsources, hled⟩
    · exact Or.inl hany
    · right
      refine ⟨B, hsent, hsources, ?_⟩
      show s.iSources < ((s.receive p).mMux.size : ℤ) ∨ ((s.receive p).mMux.size : ℤ) = s.iSources ∧ _
      rw [receive_size]
      by_cases hknown : p.xstream ∈ s.mMux
      · rw [if_pos hknown]
        rcases hled with hmore | ⟨hsize, hled⟩
        · exact Or.inl hmore
        · refine Or.inr ⟨hsize, ?_⟩
          intro i c hc
          by_cases hi : p.xstream = i
          · subst hi
            rw [receive_core_same] at hc
            cases hc
            have hentry := TreeMap.getElem?_eq_some_getElem hknown
            have hcore : s.cores p.xstream = some (core s.mMux[p.xstream]) := by
              rw [TSMultiplexer.cores, hentry]
              rfl
            obtain ⟨front, rest, hqueue, hle⟩ := hled p.xstream _ hcore
            rw [hcore]
            exact ⟨front, rest ++ [p], push_front_queue hqueue, hle⟩
          · rw [receive_core_other s hi] at hc
            exact hled i c hc
      · rw [if_neg hknown]
        rcases hled with hmore | ⟨hsize, -⟩
        · exact Or.inl (by push_cast; omega)
        · exact Or.inl (by push_cast; omega)

/-! ## The search for the reference stream -/

/-- Nothing that counts here is touched. -/
structure Alike (s t : TSMultiplexer) : Prop where
  cores : t.cores = s.cores
  size : t.mMux.size = s.mMux.size
  outgoing : t.outgoing = s.outgoing
  vOut : t.vOut = s.vOut

theorem modified_alike {f : Muxx → Muxx} (hf : ∀ pMux, core (f pMux) = core pMux) (s : TSMultiplexer) (i : ℤ) :
    Alike s (s.modified i f) := by
  constructor
  · ext1 j
    show (s.mMux.modify i f)[j]?.map core = s.mMux[j]?.map core
    rw [TreeMap.getElem?_modify]
    split_ifs with hij
    · have hij : i = j := by simpa using hij
      subst hij
      cases s.mMux[i]? with
      | none => rfl
      | some pMux => exact congrArg some (hf pMux)
    · rfl
  · show (s.mMux.modify i f).size = s.mMux.size
    rw [TreeMap.size_modify]
  · rfl
  · rfl

theorem refer_alike (s : TSMultiplexer) (i : ℤ) (pPckt : MediaPacket) : Alike s (s.refer i pPckt) := by
  rw [TSMultiplexer.refer]
  cases pPckt.content with
  | video =>
    have h : Alike s (s.modified i fun pMux => { pMux with iPID := 0x100 }) := by
      apply modified_alike
      intro pMux
      rfl
    exact ⟨h.cores, h.size, rfl, rfl⟩
  | audio =>
    have h : Alike s (s.modified i fun pMux => { pMux with iPID := 0x101 }) := by
      apply modified_alike
      intro pMux
      rfl
    exact ⟨h.cores, h.size, rfl, rfl⟩
  | mixed => exact ⟨rfl, rfl, rfl, rfl⟩

theorem alike_trans (h : Alike s t) (h' : Alike t u) : Alike s u :=
  ⟨h'.cores.trans h.cores, h'.size.trans h.size, h'.outgoing.trans h.outgoing, h'.vOut.trans h.vOut⟩

/-- What is referred has its sources counted. -/
structure Referred (s t : TSMultiplexer) : Prop where
  cores : t.cores = s.cores
  size : t.mMux.size = s.mMux.size
  sources : 0 < t.iSources ∧ (t.mMux.size : ℤ) = t.iSources
  sent : ∀ x, Sent x s.outgoing → Sent x t.outgoing
  cont : t.bCont = s.bCont
  vOut : t.vOut = s.vOut

theorem findRefStream_referred (hmux : s.mMux.isEmpty = false) (h : s.findRefStream = .ok t) : Referred s t := by
  obtain ⟨r, iSize, hall, -, rfl⟩ := findRefStream_cases h
  have hr : Alike s r.1 := by
    apply referAll_kept (P := fun u => Alike s u) _ ⟨rfl, rfl, rfl, rfl⟩ hall
    intro u i pPckt hu
    exact alike_trans hu (refer_alike u i pPckt)
  constructor
  · exact hr.cores
  · exact hr.size
  · constructor
    · show (0 : ℤ) < (r.1.mMux.size : ℤ)
      rw [hr.size]
      have hsize : s.mMux.size ≠ 0 := by simpa [TreeMap.isEmpty_eq_size_eq_zero] using hmux
      omega
    · rfl
  · intro x hx
    rw [← hr.outgoing] at hx
    exact ⟨hx.rising, hx.last, hx.simple⟩
  · exact congrArg Outgoing.bCont hr.outgoing
  · exact hr.vOut

theorem referred_referred (hmux : s.mMux.isEmpty = false) (hfound : 0 ≤ s.iRefStream → 0 < s.iSources)
    (hsources : ¬(0 < s.iSources ∧ (s.mMux.size : ℤ) ≠ s.iSources)) (h : s.referred = .ok t) : Referred s t := by
  rw [TSMultiplexer.referred] at h
  by_cases hnew : s.iRefStream < 0
  · rw [if_pos hnew] at h
    exact findRefStream_referred hmux h
  · rw [if_neg hnew] at h
    cases h
    have hpos := hfound (not_lt.1 hnew)
    constructor
    · rfl
    · rfl
    · refine ⟨hpos, ?_⟩
      by_contra hne
      exact hsources ⟨hpos, hne⟩
    · exact fun x hx => hx
    · rfl
    · rfl

/-! ## Passes in a run -/

/-- The packets of the next pass before they are sent, and the time that they share. -/
def TSMultiplexer.packed (fuel : ℕ) (s : TSMultiplexer) : Except SirannonException (ℤ × TSMultiplexer) := do
  let s ← s.referred
  let iStream ← s.toMultiplexer.selectMux
  let iStartDts ← s.startDts iStream
  TSMultiplexer.pass iStartDts fuel iStream (s.selected iStream)

/-- The product of the number of packets and the time fits into 32 bits. -/
def Moderate (fuel : ℕ) (s : TSMultiplexer) : Prop :=
  s.toMultiplexer.checkMux = true → ∀ r, s.packed fuel = .ok r → (r.2.vOut.length : ℤ)*r.1 < 2^31

def ModerateRun : List Event → TSMultiplexer → Prop
  | [], _ => True
  | .receive p::events, s => ModerateRun events (s.receive p)
  | .process fuel::events, s => Moderate fuel s ∧ ∀ t, s.process fuel = .ok t → ModerateRun events t

instance decidableModerate (fuel : ℕ) (s : TSMultiplexer) : Decidable (Moderate fuel s) :=
  match h : s.packed fuel with
  | .error _ => .isTrue fun _ r hr => by
    rw [h] at hr
    cases hr
  | .ok q => decidable_of_iff (s.toMultiplexer.checkMux = true → (q.2.vOut.length : ℤ)*q.1 < 2^31) (by
    constructor
    · intro hq hcheck r hr
      rw [h] at hr
      cases hr
      exact hq hcheck
    · intro hall hcheck
      exact hall hcheck q h)

instance decidableModerateRun : (events : List Event) → (s : TSMultiplexer) → Decidable (ModerateRun events s)
  | [], _ => .isTrue trivial
  | .receive p::events, s => decidableModerateRun events (s.receive p)
  | .process fuel::events, s =>
    match h : s.process fuel with
    | .error _ => decidable_of_iff (Moderate fuel s) (by
      constructor
      · intro hs
        refine ⟨hs, ?_⟩
        intro t ht
        rw [h] at ht
        cases ht
      · exact fun hs => hs.1)
    | .ok u =>
      have := decidableModerateRun events u
      decidable_of_iff (Moderate fuel s ∧ ModerateRun events u) (by
        constructor
        · intro hs
          refine ⟨hs.1, ?_⟩
          intro t ht
          rw [h] at ht
          cases ht
          exact hs.2
        · intro hs
          exact ⟨hs.1, hs.2 u h⟩)

theorem shrinks_spaced {events : List Event} (h : ∀ i, Spaced lo hi (s.timings i ++ upcoming i events))
    (hshrinks : Shrinks s t) (i : ℤ) : Spaced lo hi (t.timings i ++ upcoming i events) :=
  spaced_sublist (h i) ((hshrinks i).sublist.append_right _)

theorem sends_cores (h : Sends s t) : t.cores = s.cores := by
  ext1 i
  rw [TSMultiplexer.cores, TSMultiplexer.cores, h.mMux]

variable {events : List Event} {fuel : ℕ}

/-- A pass that starts at control packets sends one and nothing else. -/
theorem controls_ready (hu : ∀ i, Spaced lo hi (u.timings i ++ upcoming i events))
    (hsteady : ∀ i c, u.cores i = some c → Steady lo hi c) (hcont : u.bCont = true) (hvOut : u.vOut = [])
    (hsources : 0 < u.iSources) (hsent : Sent x u.outgoing) (hlow : iStream < 0)
    (hpass : TSMultiplexer.pass B fuel iStream u = .ok r)
    (hrelease : TSMultiplexer.release B r.1 r.2.vOut.length 0 0 r.2.vOut r.2 = .ok t) :
    Ready lo hi events t := by
  cases fuel with
  | zero => cases hpass
  | succ fuel =>
    rw [TSMultiplexer.pass, if_pos hlow] at hpass
    obtain ⟨pckt, hctrl, -, hout⟩ := control_controlled hpass
    have houtgoing := control_outgoing hpass
    obtain ⟨hrsteady, hshrinks⟩ := controlled_steady hsteady hctrl
    have hsends := release_sends hrelease
    have hempty := release_empties hrelease
    rw [hvOut, List.nil_append] at hout
    rw [hout] at hrelease
    rw [← houtgoing] at hsent
    obtain ⟨hany, htcont⟩ := release_control (show (control pckt).type ≠ .media from hctrl.kind) hsent hrelease
    constructor
    · intro i
      rw [TSMultiplexer.timings, sends_cores hsends]
      exact shrinks_spaced hu hshrinks i
    · rw [sends_cores hsends]
      exact hrsteady
    · exact htcont.trans ((congrArg Outgoing.bCont houtgoing).trans hcont)
    · exact hempty
    · intro _
      have hkept : r.2.iSources = u.iSources := congrArg Outgoing.iSources houtgoing
      rw [hsends.iSources, hkept]
      exact hsources
    · exact Or.inl hany

/-- A pass that starts at media ends with a control packet or hands over to the next one. -/
theorem media_ready {front : MediaPacket} {rest : List MediaPacket} {c : Core} (hlo : -2^31 ≤ lo) (hhi : hi ≤ 2^31)
    (hspan : hi ≤ lo+2^31) (hu : ∀ i, Spaced lo hi (u.timings i ++ upcoming i events))
    (hsteady : ∀ i c, u.cores i = some c → Steady lo hi c) (hcont : u.bCont = true)
    (hsources : 0 < u.iSources ∧ (u.mMux.size : ℤ) = u.iSources)
    (hselect : u.toMultiplexer.selectMux = .ok iStream) (hc : u.cores iStream = some c)
    (hqueue : c.vQueue = front::rest) (hled : DueFrom front.dts u) (hsent : Sent front.dts u.outgoing)
    (hpass : TSMultiplexer.pass front.dts fuel iStream u = .ok r) (hsmall : (r.2.vOut.length : ℤ)*r.1 < 2^31)
    (hrelease : TSMultiplexer.release front.dts r.1 r.2.vOut.length 0 0 r.2.vOut r.2 = .ok t) :
    Ready lo hi events t := by
  have hholding : Holding lo hi front.dts iStream u := by
    constructor
    · exact ⟨c, hc⟩
    · exact hsteady
    · intro i d p rest' hd hp hkind
      obtain ⟨q, rest'', hq, hle⟩ := hled i d hd
      rw [hp] at hq
      cases hq
      rcases hkind with hmedia | rfl
      · exact hle hmedia
      · rw [hc] at hd
        cases hd
        rw [hqueue] at hp
        cases hp
        exact le_refl _
  have hrange := steady_range (hsteady iStream c hc) hqueue
  have hpassed := pass_passed hholding hlo hhi hspan hrange.1 hselect hpass
  have houtgoing := pass_outgoing hpass
  have hrcont : r.2.bCont = true := (congrArg Outgoing.bCont houtgoing).trans hcont
  have hkept : r.2.iSources = u.iSources := congrArg Outgoing.iSources houtgoing
  have hsends := release_sends hrelease
  have hempty := release_empties hrelease
  obtain ⟨hD, hend⟩ := hpassed.duration
  rw [← houtgoing] at hsent
  have hready : t.bCont = true → ((∀ x, Sent x t.outgoing) ∨ ∃ B, Sent B t.outgoing ∧ 0 < t.iSources ∧
      (t.iSources < t.mMux.size ∨ (t.mMux.size : ℤ) = t.iSources ∧ DueFrom B t)) → Ready lo hi events t := by
    intro htcont htsent
    constructor
    · intro i
      rw [TSMultiplexer.timings, sends_cores hsends]
      exact shrinks_spaced hu hpassed.shrinks i
    · rw [sends_cores hsends]
      exact hpassed.steady
    · exact htcont
    · exact hempty
    · intro _
      rw [hsends.iSources, hkept]
      exact hsources.1
    · exact htsent
  rcases hpassed.ended with ⟨vOut, q, hout, hkind⟩ | ⟨hnext, hsize⟩
  · have hlength : vOut.length+1 = r.2.vOut.length := by rw [hout, List.length_append, List.length_singleton]
    have hrun : TSMultiplexer.release front.dts r.1 r.2.vOut.length 0 0 (vOut ++ [q]) r.2 = .ok t := by
      rw [← hout]
      exact hrelease
    obtain ⟨hany, htcont⟩ := release_controlled hrcont hD hsmall (by omega) (by omega) hlength hkind hsent hrun
    exact hready htcont (Or.inl hany)
  · obtain ⟨ht, htcont⟩ := release_sent hrcont hD hsmall (by omega) (by omega) rfl hsent hrelease
    apply hready htcont
    right
    refine ⟨_, ht, ?_, ?_⟩
    · rw [hsends.iSources, hkept]
      exact hsources.1
    · right
      rw [hsends.mMux, hsends.iSources, hkept, hsize]
      refine ⟨hsources.2, ?_⟩
      intro i d hd
      rw [sends_cores hsends] at hd
      exact hnext i d hd

theorem startDts_front {c : Core} {front : MediaPacket} {rest : List MediaPacket} {iStartDts : ℤ}
    (hc : s.cores iStream = some c) (hqueue : c.vQueue = front::rest) (hlow : 0 ≤ iStream)
    (h : s.startDts iStream = .ok iStartDts) : iStartDts = front.dts := by
  rw [TSMultiplexer.startDts, if_pos hlow] at h
  obtain ⟨⟨pMux, pPckt⟩, hfront, rfl⟩ := map_ok.1 h
  obtain ⟨hcore, rest', hqueue'⟩ := front_core hfront
  rw [hc] at hcore
  cases hcore
  rw [hqueue] at hqueue'
  cases hqueue'
  rfl

theorem packed_ok {iStartDts : ℤ} (hreferred : s.referred = .ok u) (hselect : u.toMultiplexer.selectMux = .ok iStream)
    (hstart : u.startDts iStream = .ok iStartDts)
    (hpass : TSMultiplexer.pass iStartDts fuel iStream (u.selected iStream) = .ok r) : s.packed fuel = .ok r := by
  rw [TSMultiplexer.packed, hreferred]
  show (u.toMultiplexer.selectMux >>= fun iStream => _) = _
  rw [hselect]
  show (u.startDts iStream >>= fun iStartDts => _) = _
  rw [hstart]
  exact hpass

theorem process_ready (hlo : -2^31 ≤ lo) (hhi : hi ≤ 2^31) (hspan : hi ≤ lo+2^31) (hs : Ready lo hi events s)
    (hmoderate : Moderate fuel s) (h : s.process fuel = .ok t) : Ready lo hi events t := by
  rw [TSMultiplexer.process] at h
  by_cases hready : s.toMultiplexer.checkMux = false
  · rw [if_pos hready] at h
    cases h
    exact hs
  · rw [if_neg hready] at h
    by_cases hsources : 0 < s.iSources ∧ (s.mMux.size : ℤ) ≠ s.iSources
    · rw [if_pos hsources] at h
      cases h
    · rw [if_neg hsources] at h
      have hcheck : s.toMultiplexer.checkMux = true := by simpa using hready
      obtain ⟨u, hreferred, h⟩ := bind_ok.1 h
      rw [TSMultiplexer.processPass] at h
      obtain ⟨iStream, hselect, h⟩ := bind_ok.1 h
      obtain ⟨iStartDts, hstart, h⟩ := bind_ok.1 h
      obtain ⟨r, hpass, hrelease⟩ := bind_ok.1 h
      have hsmall := hmoderate hcheck r (packed_ok hreferred hselect hstart hpass)
      have hu := referred_referred (checkMux_nonempty hcheck) hs.found hsources hreferred
      have hspaced : ∀ i, Spaced lo hi (u.timings i ++ upcoming i events) := by
        intro i
        rw [TSMultiplexer.timings, hu.cores]
        exact hs.spaced i
      have hsteady : ∀ i c, u.cores i = some c → Steady lo hi c := by
        rw [hu.cores]
        exact hs.steady
      have hcont := hu.cont.trans hs.cont
      by_cases hlow : iStream < 0
      · have hsome : ∃ x, Sent x s.outgoing := by
          rcases hs.sent with hany | ⟨B, hB, -⟩
          · exact ⟨0, hany 0⟩
          · exact ⟨B, hB⟩
        obtain ⟨x, hx⟩ := hsome
        exact controls_ready (u := u.selected iStream) hspaced hsteady hcont (hu.vOut.trans hs.vOut) hu.sources.1 (hu.sent x hx) hlow hpass
          hrelease
      · rcases selectMux_due hselect with hnone | ⟨c, front, rest, hc, hqueue, hmedia, hled⟩
        · omega
        · rw [startDts_front hc hqueue (not_lt.1 hlow) hstart] at hpass hrelease
          have hsent : Sent front.dts s.outgoing := by
            rcases hs.sent with hany | ⟨B, hB, hpos, hmore | ⟨hsize, hsled⟩⟩
            · exact hany front.dts
            · exact absurd ⟨hpos, by omega⟩ hsources
            · rw [hu.cores] at hc
              obtain ⟨q, rest', hq, hle⟩ := hsled iStream c hc
              rw [hqueue] at hq
              cases hq
              exact sent_mono hB (hle hmedia)
          exact media_ready (u := u.selected iStream) hlo hhi hspan hspaced hsteady hcont hu.sources hselect hc hqueue hled
            (hu.sent front.dts hsent) hpass hsmall hrelease

theorem run_ready (hlo : -2^31 ≤ lo) (hhi : hi ≤ 2^31) (hspan : hi ≤ lo+2^31) (hs : Ready lo hi events s)
    (hmoderate : ModerateRun events s) (h : runFrom events s = .ok t) : Ready lo hi [] t := by
  induction events generalizing s with
  | nil =>
    cases h
    exact hs
  | cons a events ih =>
    rw [runFrom] at h
    obtain ⟨u, hone, hrest⟩ := bind_ok.1 h
    cases a with
    | receive p =>
      cases hone
      exact ih (receive_ready hs) hmoderate hrest
    | process fuel =>
      have hnext : Ready lo hi events s := ⟨hs.spaced, hs.steady, hs.cont, hs.vOut, hs.found, hs.sent⟩
      exact ih (process_ready hlo hhi hspan hnext hmoderate.1 hone) (hmoderate.2 u hone) hrest

theorem init_ready {streamID : ℤ} {o : Settings} (hcont : o.continuous_timestamps = true)
    (hspaced : ∀ i, Spaced lo hi (upcoming i events)) : Ready lo hi events (TSMultiplexer.init streamID o) := by
  constructor
  · exact hspaced
  · intro i c hc
    cases hc
  · exact hcont
  · rfl
  · intro hfound
    exact absurd (show (0 : ℤ) ≤ -1 from hfound) (by decide)
  · left
    intro x
    constructor
    · exact List.isChain_nil
    · intro a ha
      cases ha
    · exact fun _ => rfl

/-- The DTS sent do not fall up to the next control packet, in every run in which the frames of each stream
follow one another and no pass has too many packets for its time. -/
theorem output_rising {streamID : ℤ} {o : Settings} (hcont : o.continuous_timestamps = true) (hlo : -2^31 ≤ lo)
    (hhi : hi ≤ 2^31) (hspan : hi ≤ lo+2^31) (hspaced : ∀ i, Spaced lo hi (upcoming i events))
    (hmoderate : ModerateRun events (TSMultiplexer.init streamID o)) (h : run streamID o events = .ok s) :
    s.routed.IsChain fun p q => p.type = .media → q.type = .media → p.dts ≤ q.dts := by
  have hready := run_ready hlo hhi hspan (init_ready hcont hspaced) hmoderate h
  have hsome : ∃ x, Sent x s.outgoing := by
    rcases hready.sent with hany | ⟨B, hB, -⟩
    · exact ⟨0, hany 0⟩
    · exact ⟨B, hB⟩
  obtain ⟨x, hx⟩ := hsome
  have hrising := hx.rising
  rw [Outgoing.stamps, List.map_append] at hrising
  have hrouted := hrising.left_of_append
  rw [List.isChain_map] at hrouted
  exact hrouted

/-- A frame of video of 40 ms. -/
def frame (dts : ℤ) : MediaPacket :=
  { MediaPacket.new .media .video 100 with
    codec := .avc, desc := some ⟨.video, .avc, 320, 240, 0, 0, 0, []⟩, bytes := List.replicate 100 0, dts := dts,
    inc := 3600 }

/-- Two frames, and the pass that sends the first one. -/
def twoFrames (dts : ℤ) : List Event := [.receive (frame 0), .receive (frame dts), .process 9]

def unaggregated : Settings := { Settings.default with aggregate := false }

theorem twoFrames_upcoming (dts i : ℤ) : upcoming i (twoFrames dts) = [] ∨
    upcoming i (twoFrames dts) = [timing (frame 0), timing (frame dts)] := by
  rw [twoFrames, upcoming, upcoming, upcoming, upcoming]
  by_cases hi : (frame 0).xstream = i
  · rw [if_pos hi, if_pos (show (frame dts).xstream = i from hi)]
    exact Or.inr rfl
  · rw [if_neg hi, if_neg (show ¬(frame dts).xstream = i from hi)]
    exact Or.inl rfl

theorem twoFrames_spaced (i : ℤ) : Spaced 0 (2^20) (upcoming i (twoFrames 100000)) := by
  rcases twoFrames_upcoming 100000 i with h | h
  · rw [h]
    exact ⟨by simp, List.Pairwise.nil⟩
  · rw [h]
    constructor
    · intro a ha
      rcases List.mem_cons.1 ha with rfl | ha
      · exact ⟨by decide, fun _ => by decide⟩
      · rw [List.mem_singleton.1 ha]
        exact ⟨by decide, fun _ => by decide⟩
    · rw [List.pairwise_pair]
      intro _
      decide

/-- The kinds and the DTS of what was sent. -/
def stampsIn : Except SirannonException TSMultiplexer → Option (List (PacketType × ℤ))
  | .ok s => some (s.routed.map fun p => (p.type, p.dts))
  | .error _ => none

theorem stampsIn_ok {q : Except SirannonException TSMultiplexer} {stamps : List (PacketType × ℤ)}
    (h : stampsIn q = some stamps) : ∃ s, q = .ok s ∧ s.routed.map (fun p => (p.type, p.dts)) = stamps := by
  cases q with
  | error e => cases h
  | ok s => exact ⟨s, rfl, Option.some.inj h⟩

theorem twoFrames_run : stampsIn (run 0 unaggregated (twoFrames 100000)) =
      some [(.media, 0), (.media, 25000), (.media, 50000), (.media, 75000)] ∧
    ModerateRun (twoFrames 100000) (TSMultiplexer.init 0 unaggregated) := by decide +kernel

theorem output_rising_frames : ∃ s, run 0 unaggregated (twoFrames 100000) = .ok s ∧ s.routed.length = 4 ∧
    s.routed.IsChain fun p q => p.type = .media → q.type = .media → p.dts ≤ q.dts := by
  obtain ⟨s, hrun, hstamps⟩ := stampsIn_ok twoFrames_run.1
  refine ⟨s, hrun, ?_, ?_⟩
  · rw [← List.length_map, hstamps]
    rfl
  · exact output_rising rfl (by decide) (by decide) (by decide) twoFrames_spaced twoFrames_run.2 hrun

/-- Three hours between two frames: the product overflows, and the DTS sent fall from 268435456 to -536870912. -/
theorem output_falls : ¬ ∀ o events s, o.continuous_timestamps = true →
    (∀ i, (upcoming i events).Pairwise fun a b => a.dts ≤ b.dts) →
    (∀ i, ∀ a ∈ upcoming i events, 0 ≤ a.dts ∧ a.dts < 2^31) → run 0 o events = .ok s →
      s.routed.IsChain fun p q => p.type = .media → q.type = .media → p.dts ≤ q.dts := by
  intro h
  obtain ⟨s, hrun, hstamps⟩ := stampsIn_ok (show stampsIn (run 0 unaggregated (twoFrames (2^30))) =
    some [(.media, 0), (.media, 268435456), (.media, -536870912), (.media, -268435456)] by decide +kernel)
  have hchain := h unaggregated (twoFrames (2^30)) s rfl (by
    intro i
    rcases twoFrames_upcoming (2^30) i with hi | hi
    · rw [hi]
      exact List.Pairwise.nil
    · rw [hi, List.pairwise_pair]
      decide) (by
    intro i a ha
    rcases twoFrames_upcoming (2^30) i with hi | hi
    · rw [hi] at ha
      exact absurd ha List.not_mem_nil
    · rw [hi] at ha
      rcases List.mem_cons.1 ha with rfl | ha
      · decide
      · rw [List.mem_singleton.1 ha]
        decide) hrun
  have hstamped : (s.routed.map fun p => (p.type, p.dts)).IsChain fun a b : PacketType × ℤ =>
      a.1 = .media → b.1 = .media → a.2 ≤ b.2 := by
    rw [List.isChain_map]
    exact hchain
  rw [hstamps, List.isChain_cons_cons, List.isChain_cons_cons] at hstamped
  have hfall : (268435456 : ℤ) ≤ -536870912 := hstamped.2.1 rfl rfl
  exact absurd hfall (by decide)

end Sirannon.TSMultiplexing
