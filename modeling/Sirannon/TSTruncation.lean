import Sirannon.BoundedBuffer
import Sirannon.TSLossDetection

/-!
# PES packets that are too large

The buffer of a stream takes each slice that still fits. A slice that does not
fit is left out, and a smaller one behind it is taken again: what is handed on
is a prefix of the PES packet only if such slices repeat what stands there.
-/

set_option autoImplicit false

namespace Sirannon.Demultiplexing
open Bits BitString ByteMemory Media StateError LossyDelivery BoundedBuffer
open Std (TreeMap)

/-- A packet of the stream `iPID`; its payload may be empty. -/
structure OfStream (iPID : ℕ) (pData : Memory) : Prop where
  sync : (tsHeader pData).1.iSyntax = 0x47
  pid : (tsHeader pData).1.iPID = iPID
  payload : adapationSize pData ≤ 184

/-- Nothing is lost: the packets count up from `c`. -/
structure LossFree (iPID c : ℕ) (ps : List Memory) : Prop where
  packets : ∀ p ∈ ps, OfStream iPID p
  counters : ∀ (i : ℕ) (p : Memory), ps[i]? = some p → counter p = (c+i) % 16

def slices (g : List Memory) : List (List UInt8) := g.map payloadBytes

/-- Behind a slice that did not fit, each one that fits repeats what the PES packet has there. -/
def InPlace (g : List Memory) : Prop := Repeats iMaxFrame (slices g)

/-- There is nothing to hand on, or the PES header can be taken off. -/
def Headed (g : List Memory) : Prop :=
  groupBytes g = [] ∨ 9+((groupBytes g).getD 8 0).toNat ≤ (groupBytes g).length

/-- What is collected of a stream. -/
def collected (iPID : ℕ) (s : TSDemultiplexer) : List UInt8 :=
  match s.mStreams[iPID]? with
  | none => []
  | some pStream => pStream.pData

/-- A PES packet as it was collected in `s`, if one was handed on since. -/
def emitted (iPID : ℕ) (group : List Memory) (s t : TSDemultiplexer) :
    List (List UInt8 × List Memory) :=
  if t.routed.length = s.routed.length then [] else [(collected iPID s, group)]

/-- The PES packets that are handed on, before their headers are stripped, and the packets from the
one that started it to the one before the next start. In the end, what is left is handed on
(`parsePKT( NULL, 0, i->first, true, true )`). -/
def handedOn (iPID : ℕ) : List Memory → List Memory → TSDemultiplexer →
    List (List UInt8 × List Memory)
  | group, [], s =>
    match (TSDemultiplexer.releaseStream iPID true true).run s with
    | .ok _ t => emitted iPID group s t
    | .error _ _ => []
  | group, p::ps, s =>
    match (TSDemultiplexer.parseTS p).run s with
    | .ok _ t =>
      emitted iPID group s t ++ handedOn iPID (if isStart p then [p] else group ++ [p]) ps t
    | .error _ _ => []

/-! ## One packet -/

/-- The counter of a stream and what is collected of it. -/
structure Collects (iPID : ℕ) (cc : ℤ) (bytes : List UInt8) (s : TSDemultiplexer) : Prop where
  cc : s.mCC[iPID]? = some cc
  stream : ∃ pStream, s.mStreams[iPID]? = some pStream ∧ pStream.pData = bytes
  channel : s.mChannels[iPID]? = none

variable {iPID c : ℕ} {cc : ℤ} {bytes : List UInt8} {p : Memory} {s t : TSDemultiplexer}
  {g ps : List Memory} {gs : List (List Memory)}

theorem collects_collected (h : Collects iPID cc bytes s) : collected iPID s = bytes := by
  obtain ⟨pStream, hstream, hbytes⟩ := h.stream
  rw [collected, hstream]
  exact hbytes

theorem payload_length (h : adapationSize p ≤ 184) :
    ((payloadBytes p).length : ℤ) = payloadSize (adapationSize p) ∧ (payloadBytes p).length ≤ 184 := by
  rw [payloadBytes, load_length, payloadSize]
  omega

/-- The header of 9 bytes and more is taken off, when there is so much. -/
theorem release_run (pStream : Stream) (bSkip : Bool) :
    if 9+(pStream.pData.getD 8 0).toNat ≤ pStream.pData.length then
      ∃ q, pStream.release bSkip = .ok q
    else ∃ e, pStream.release bSkip = .error e := by
  have hpush := new_push_back .media .mixed pStream.iPos pStream.pData (Nat.le_refl _)
  rw [Stream.release, hpush]
  generalize hq : (MediaPacket.new .media .mixed pStream.iPos).pushed pStream.pData = q
  have hbytes : q.bytes = pStream.pData := by
    rw [← hq]
    rfl
  have hsize : headerSize q = 9+(pStream.pData.getD 8 0).toNat := by rw [headerSize_eq, hbytes]
  have hall : q.size = pStream.pData.length := by rw [MediaPacket.size, hbytes]
  by_cases h : 9+(pStream.pData.getD 8 0).toNat ≤ pStream.pData.length
  · rw [if_pos h]
    have hpop : q.pop_front (headerSize q) = .ok (q.popped (headerSize q)) := pop_front_ok (by omega)
    refine ⟨pStream.packet bSkip (q.popped (headerSize q)), ?_⟩
    show (q.pop_front (headerSize q) >>= fun pckt => _) = _
    rw [hpop]
    rfl
  · rw [if_neg h]
    show ∃ e, (q.pop_front (headerSize q) >>= fun pckt => _) = .error e
    rw [MediaPacket.pop_front, if_pos (by omega)]
    exact ⟨_, rfl⟩

theorem releaseStream_nothing (h : Collects iPID cc bytes s) (bNew bSkip : Bool)
    (hnew : bNew = false ∨ bytes = []) :
    (TSDemultiplexer.releaseStream iPID bNew bSkip).run s = .ok () s := by
  obtain ⟨pStream, hstream, hbytes⟩ := h.stream
  have hnot : ¬ (bNew = true ∧ pStream.iPos ≠ 0) := by
    rintro ⟨htrue, hpos⟩
    rcases hnew with hnew | hnew
    · rw [hnew] at htrue
      cases htrue
    · rw [Stream.iPos, hbytes, hnew] at hpos
      exact hpos rfl
  rw [TSDemultiplexer.releaseStream, run_get_bind, hstream]
  dsimp only
  rw [if_neg hnot]
  rfl

theorem releaseStream_error (h : Collects iPID cc bytes s) (bSkip : Bool) (hne : bytes ≠ [])
    (hshort : ¬ 9+(bytes.getD 8 0).toNat ≤ bytes.length) :
    ∃ e, (TSDemultiplexer.releaseStream iPID true bSkip).run s = .error e s := by
  obtain ⟨pStream, hstream, rfl⟩ := h.stream
  have hpos : pStream.iPos ≠ 0 := fun h0 => hne (List.length_eq_zero_iff.1 h0)
  have hrelease := release_run pStream bSkip
  rw [if_neg hshort] at hrelease
  obtain ⟨e, he⟩ := hrelease
  refine ⟨e, ?_⟩
  rw [TSDemultiplexer.releaseStream, run_get_bind, hstream]
  dsimp only
  rw [if_pos ⟨rfl, hpos⟩]
  exact run_ofExcept_error he s

/-- What was collected is handed on without its header, and the buffer is empty. -/
theorem releaseStream_ok (h : Collects iPID cc bytes s) (bSkip : Bool) (hne : bytes ≠ [])
    (hheader : 9+(bytes.getD 8 0).toNat ≤ bytes.length) :
    ∃ t q, (TSDemultiplexer.releaseStream iPID true bSkip).run s = .ok () t ∧
      Collects iPID cc [] t ∧ t.routed = s.routed ++ [q] ∧ q.bytes = stripped bytes := by
  obtain ⟨pStream, hstream, rfl⟩ := h.stream
  have hpos : pStream.iPos ≠ 0 := fun h0 => hne (List.length_eq_zero_iff.1 h0)
  have hrelease := release_run pStream bSkip
  rw [if_pos hheader] at hrelease
  obtain ⟨q, hq⟩ := hrelease
  refine ⟨s.emit iPID pStream q, q, ?_, ⟨h.cc, ⟨_, TreeMap.getElem?_insert_self, rfl⟩, h.channel⟩, rfl,
    (release_packet hq).2.2⟩
  rw [TSDemultiplexer.releaseStream, run_get_bind, hstream]
  dsimp only
  rw [if_pos ⟨rfl, hpos⟩, run_ofExcept_bind hq]
  rfl

/-- The payload is taken if it fits. -/
theorem append_run (h : Collects iPID cc bytes s) (hp : adapationSize p ≤ 184) :
    ∃ t, (TSDemultiplexer.append iPID p (4+adapationSize p) (payloadSize (adapationSize p))).run s =
      .ok () t ∧ Collects iPID cc (keep iMaxFrame bytes (payloadBytes p)) t ∧ t.routed = s.routed := by
  obtain ⟨pStream, hstream, rfl⟩ := h.stream
  have hlength := (payload_length hp).1
  rw [TSDemultiplexer.append, run_get_bind, hstream, keep]
  dsimp only
  by_cases hfits : pStream.pData.length+(payloadBytes p).length ≤ iMaxFrame
  · rw [if_pos hfits, if_neg (by rw [Stream.iPos]; omega), if_neg (by omega)]
    exact ⟨_, rfl, ⟨h.cc, ⟨_, TreeMap.getElem?_insert_self, rfl⟩, h.channel⟩, rfl⟩
  · rw [if_neg hfits, if_pos (by rw [Stream.iPos]; omega)]
    exact ⟨s, rfl, ⟨h.cc, ⟨pStream, hstream, rfl⟩, h.channel⟩, rfl⟩

theorem dispatch_stream (hPID : iPID ≠ 0) (h : Collects iPID cc bytes s) (pData : Memory)
    (iAdapation : ℕ) (bStart bSkip : Bool) :
    (TSDemultiplexer.dispatch pData iPID iAdapation bStart bSkip).run s =
      (TSDemultiplexer.parsePKT iPID pData (4+iAdapation) (payloadSize iAdapation) bStart bSkip).run s := by
  obtain ⟨pStream, hstream, -⟩ := h.stream
  have hmem : iPID ∈ s.mStreams := by
    rw [TreeMap.mem_iff_isSome_getElem?, hstream]
    rfl
  rw [TSDemultiplexer.dispatch, run_get_bind, if_neg hPID, h.channel]
  dsimp only
  rw [if_pos hmem]

/-- A packet that is taken is parsed as one of its stream. -/
theorem parseTS_run {cc' : ℤ} {bSkip : Bool} (hPID : iPID ≠ 0) (h : Collects iPID cc bytes s)
    (hp : OfStream iPID p) (hsync : syncCC cc (isStart p) (counter p) = (cc', some bSkip)) :
    ∃ u, (TSDemultiplexer.parseTS p).run s = (TSDemultiplexer.parsePKT iPID p (4+adapationSize p)
      (payloadSize (adapationSize p)) (isStart p) bSkip).run u ∧ Collects iPID cc' bytes u ∧
        u.routed = s.routed := by
  have hcc := h.cc
  rw [← hp.pid] at hcc
  rw [isStart, counter] at hsync
  have hcollects : Collects iPID cc' bytes (({ s with mCC := s.mCC.insert iPID cc' } : TSDemultiplexer).logged
      (.payload (payloadSize (adapationSize p)))) :=
    ⟨TreeMap.getElem?_insert_self, h.stream, h.channel⟩
  have hparse : (TSDemultiplexer.parseTS p).run s =
      (TSDemultiplexer.parsePayload p iPID (adapationSize p) (isStart p) bSkip).run
        { s with mCC := s.mCC.insert iPID cc' } := by
    rw [TSDemultiplexer.parseTS]
    dsimp only
    rw [if_neg (not_not.2 hp.sync), run_get_bind, hcc]
    dsimp only
    rw [hsync, hp.pid, adapationSize, isStart]
    rfl
  refine ⟨_, ?_, hcollects, rfl⟩
  rw [hparse, TSDemultiplexer.parsePayload, run_modify_bind]
  exact dispatch_stream hPID hcollects p (adapationSize p) (isStart p) bSkip

theorem parseTS_ignored (h : Collects iPID FIRST_SYNC bytes s) (hp : OfStream iPID p)
    (hstart : isStart p = false) : ∃ t, (TSDemultiplexer.parseTS p).run s = .ok () t ∧
      Collects iPID FIRST_SYNC bytes t ∧ t.routed = s.routed := by
  have hcc := h.cc
  rw [← hp.pid] at hcc
  have hsync := syncCC_first (isStart p) (counter p)
  rw [hstart, if_neg Bool.false_ne_true, ← hstart, isStart, counter] at hsync
  refine ⟨{ s with mCC := s.mCC.insert iPID FIRST_SYNC }, ?_,
    ⟨TreeMap.getElem?_insert_self, h.stream, h.channel⟩, rfl⟩
  rw [TSDemultiplexer.parseTS]
  dsimp only
  rw [if_neg (not_not.2 hp.sync), run_get_bind, hcc]
  dsimp only
  rw [hsync, hp.pid]
  rfl

/-! ## PES packets -/

/-- What the buffer holds of a PES packet. -/
def taken (g : List Memory) : List UInt8 := kept iMaxFrame (slices g)

/-- The header of what was taken can be taken off. -/
def Released (g : List Memory) : Prop := 9+((taken g).getD 8 0).toNat ≤ (taken g).length

instance decidableReleased (g : List Memory) : Decidable (Released g) :=
  inferInstanceAs (Decidable (_ ≤ _))

theorem taken_snoc (g : List Memory) (p : Memory) :
    taken (g ++ [p]) = keep iMaxFrame (taken g) (payloadBytes p) := by
  rw [taken, slices, List.map_append, List.map_singleton, kept_snoc]
  rfl

theorem parse_more {cc' : ℤ} {bSkip : Bool} (hPID : iPID ≠ 0) (h : Collects iPID cc (taken g) s)
    (hp : OfStream iPID p) (hsync : syncCC cc (isStart p) (counter p) = (cc', some bSkip))
    (hstart : isStart p = false) : ∃ t, (TSDemultiplexer.parseTS p).run s = .ok () t ∧
      Collects iPID cc' (taken (g ++ [p])) t ∧ t.routed = s.routed := by
  obtain ⟨u, hrun, hu, hrouted⟩ := parseTS_run hPID h hp hsync
  obtain ⟨t, happend, ht, hrouted'⟩ := append_run hu hp.payload
  rw [hrun, TSDemultiplexer.parsePKT, run_bind_of_ok (releaseStream_nothing hu _ bSkip (Or.inl hstart)),
    happend]
  rw [taken_snoc]
  exact ⟨t, rfl, ht, hrouted'.trans hrouted⟩

/-- Nothing was collected before. -/
theorem parse_first {cc' : ℤ} {bSkip : Bool} (hPID : iPID ≠ 0) (h : Collects iPID cc [] s)
    (hp : OfStream iPID p) (hsync : syncCC cc (isStart p) (counter p) = (cc', some bSkip)) :
    ∃ t, (TSDemultiplexer.parseTS p).run s = .ok () t ∧ Collects iPID cc' (taken [p]) t ∧
      t.routed = s.routed := by
  obtain ⟨u, hrun, hu, hrouted⟩ := parseTS_run hPID h hp hsync
  obtain ⟨t, happend, ht, hrouted'⟩ := append_run hu hp.payload
  rw [hrun, TSDemultiplexer.parsePKT, run_bind_of_ok (releaseStream_nothing hu _ bSkip (Or.inr rfl)),
    happend]
  exact ⟨t, rfl, ht, hrouted'.trans hrouted⟩

theorem parse_start {cc' : ℤ} {bSkip : Bool} (hPID : iPID ≠ 0) (h : Collects iPID cc (taken g) s)
    (hp : OfStream iPID p) (hsync : syncCC cc (isStart p) (counter p) = (cc', some bSkip))
    (hstart : isStart p = true) (hne : taken g ≠ []) :
    (Released g → ∃ t q, (TSDemultiplexer.parseTS p).run s = .ok () t ∧
      Collects iPID cc' (taken [p]) t ∧ t.routed = s.routed ++ [q] ∧ q.bytes = stripped (taken g)) ∧
    (¬ Released g → ∃ e t, (TSDemultiplexer.parseTS p).run s = .error e t) := by
  obtain ⟨u, hrun, hu, hrouted⟩ := parseTS_run hPID h hp hsync
  rw [hrun, TSDemultiplexer.parsePKT, hstart]
  constructor
  · intro hreleased
    obtain ⟨v, q, hrelease, hv, hout, hq⟩ := releaseStream_ok hu bSkip hne hreleased
    obtain ⟨t, happend, ht, hrouted'⟩ := append_run hv hp.payload
    rw [run_bind_of_ok hrelease, happend]
    refine ⟨t, q, rfl, ht, ?_, hq⟩
    rw [hrouted', hout, hrouted]
  · intro hshort
    obtain ⟨e, hrelease⟩ := releaseStream_error hu bSkip hne hshort
    rw [run_bind_of_error hrelease]
    exact ⟨e, u, rfl⟩

/-! ## Runs -/

/-- What the PES packets of a sequence are handed on as. -/
def released : List (List Memory) → List (List UInt8 × List Memory)
  | [] => []
  | g::gs =>
    if taken g = [] then released gs
    else if Released g then (taken g, g)::released gs else []

theorem emitted_none {group : List Memory} (h : t.routed = s.routed) : emitted iPID group s t = [] := by
  rw [emitted, h, if_pos rfl]

theorem emitted_one {q : MediaPacket} (hs : Collects iPID cc (taken g) s) (h : t.routed = s.routed ++ [q]) :
    emitted iPID g s t = [(taken g, g)] := by
  rw [emitted, h, List.length_append, if_neg (by simp), collects_collected hs]

/-- Behind the packets of `g`, of which the first one is a start. -/
theorem handedOn_collecting {before body : List Memory} (hPID : iPID ≠ 0) (hs : Collects iPID cc (taken (p::body)) s)
    (hstart : isStart p = true) (hbody : ∀ b ∈ body, isStart b = false)
    (hseq : LossFree iPID c (before ++ p::body ++ ps))
    (hcc : cc = ((c+((before ++ p::body).length-1)) % 16 : ℕ)) :
    handedOn iPID (p::body) ps s = released (groups isStart (p::body ++ ps)) := by
  induction ps generalizing cc s p before body with
  | nil =>
    rw [List.append_nil, groups_closed hstart hbody, handedOn, released]
    by_cases hne : taken (p::body) = []
    · rw [hne] at hs
      rw [if_pos hne, released, releaseStream_nothing hs true true (Or.inr rfl)]
      exact emitted_none rfl
    · rw [if_neg hne, released]
      by_cases hreleased : Released (p::body)
      · obtain ⟨t, q, hrun, -, hout, -⟩ := releaseStream_ok hs true hne hreleased
        rw [if_pos hreleased, hrun]
        exact emitted_one hs hout
      · obtain ⟨e, hrun⟩ := releaseStream_error hs true hne hreleased
        rw [if_neg hreleased, hrun]
  | cons q ps ih =>
    have hq : OfStream iPID q := hseq.packets q (by simp)
    have hcounter : counter q = (c+(before ++ p::body).length) % 16 :=
      hseq.counters _ q (by simp)
    have hlen : 0 < (before ++ p::body).length := by simp
    have hsync : syncCC cc (isStart q) (counter q) = ((counter q : ℤ), some false) := by
      rw [hcc]
      exact syncCC_next _ (by omega)
    by_cases hnew : isStart q = true
    · have hgroups : groups isStart (p::body ++ q::ps) = (p::body)::groups isStart (q::ps) := by
        rw [groups_append _ _ _ hnew, groups_closed hstart hbody, List.singleton_append]
      have hseq' : LossFree iPID c (before ++ p::body ++ q::[] ++ ps) := by
        rw [List.append_assoc _ [q], List.singleton_append]
        exact hseq
      have hnext : ∀ t, Collects iPID (counter q) (taken [q]) t →
          handedOn iPID [q] ps t = released (groups isStart (q::ps)) := by
        intro t ht
        apply ih ht hnew (by simp) hseq'
        have hsnoc (bs : List Memory) : (bs ++ [q]).length-1 = bs.length := by simp
        rw [hcounter, hsnoc]
      rw [hgroups, handedOn, released, if_pos hnew]
      by_cases hne : taken (p::body) = []
      · have hnothing := hs
        rw [hne] at hnothing
        obtain ⟨t, hrun, ht, hrouted⟩ := parse_first hPID hnothing hq hsync
        rw [if_pos hne, hrun]
        dsimp only
        rw [emitted_none hrouted, hnext t ht, List.nil_append]
      · obtain ⟨hok, herror⟩ := parse_start hPID hs hq hsync hnew hne
        rw [if_neg hne]
        by_cases hreleased : Released (p::body)
        · obtain ⟨t, out, hrun, ht, hout, -⟩ := hok hreleased
          rw [if_pos hreleased, hrun]
          dsimp only
          rw [emitted_one hs hout, hnext t ht, List.singleton_append]
        · obtain ⟨e, t, hrun⟩ := herror hreleased
          rw [if_neg hreleased, hrun]
    · have hold : isStart q = false := by simpa using hnew
      obtain ⟨t, hrun, ht, hrouted⟩ := parse_more hPID hs hq hsync hold
      rw [handedOn, hrun, if_neg hnew]
      dsimp only
      rw [emitted_none hrouted, List.nil_append]
      have hmore : p::body ++ q::ps = p::(body ++ [q]) ++ ps := by simp
      rw [hmore]
      apply ih ht hstart
      · intro b hb
        rcases List.mem_append.1 hb with hb | hb
        · exact hbody b hb
        · rw [List.mem_singleton.1 hb]
          exact hold
      · show LossFree iPID c (before ++ p::(body ++ [q]) ++ ps)
        rw [List.append_assoc, ← hmore, ← List.append_assoc]
        exact hseq
      · rw [hcounter]
        simp

/-- Before the first start, nothing is collected. -/
theorem handedOn_idle {before group : List Memory} (hPID : iPID ≠ 0) (hs : Collects iPID FIRST_SYNC [] s)
    (hseq : LossFree iPID c (before ++ ps)) : handedOn iPID group ps s = released (pesOf ps) := by
  induction ps generalizing s before group with
  | nil =>
    rw [handedOn, releaseStream_nothing hs true true (Or.inr rfl)]
    exact emitted_none rfl
  | cons p ps ih =>
    have hp : OfStream iPID p := hseq.packets p (by simp)
    have hseq' : LossFree iPID c (before ++ [p] ++ ps) := by
      rw [List.append_assoc, List.singleton_append]
      exact hseq
    by_cases hstart : isStart p = true
    · have hsync := (syncCC_first (isStart p) (counter p)).trans (if_pos hstart)
      obtain ⟨t, hrun, ht, hrouted⟩ := parse_first hPID hs hp hsync
      have hcounter : counter p = (c+before.length) % 16 := hseq.counters _ p (by simp)
      rw [handedOn, hrun, if_pos hstart]
      dsimp only
      rw [emitted_none hrouted, List.nil_append]
      apply handedOn_collecting hPID ht hstart (by simp) hseq'
      rw [hcounter]
      simp
    · have hnot : isStart p = false := by simpa using hstart
      obtain ⟨t, hrun, ht, hrouted⟩ := parseTS_ignored hs hp hnot
      rw [handedOn, hrun]
      dsimp only
      rw [emitted_none hrouted, List.nil_append, ih ht hseq', pesOf, pesOf, groups, if_neg hstart]

/-! ## Prefixes -/

theorem slices_flatten (g : List Memory) : (slices g).flatten = groupBytes g := by
  rw [groupBytes, List.flatMap]
  rfl

theorem slices_sum (g : List Memory) : ((slices g).map List.length).sum = (groupBytes g).length := by
  rw [← slices_flatten, List.length_flatten]

theorem taken_prefix_iff (g : List Memory) : taken g <+: groupBytes g ↔ InPlace g := by
  rw [InPlace, ← kept_prefix_iff, slices_flatten]
  rfl

theorem taken_small (h : (groupBytes g).length ≤ iMaxFrame) : taken g = groupBytes g := by
  rw [← slices_sum] at h
  rw [taken, kept_all (filled_all h), slices_flatten]

theorem taken_large (hg : ∀ p ∈ g, adapationSize p ≤ 184) (h : iMaxFrame < (groupBytes g).length) :
    264 ≤ (taken g).length := by
  rw [← slices_sum] at h
  have hfull := filled_full (k := 184) (by
    intro n hn
    obtain ⟨slice, hslice, rfl⟩ := List.mem_map.1 hn
    obtain ⟨p, hp, rfl⟩ := List.mem_map.1 hslice
    exact (payload_length (hg p hp)).2) h
  rw [iMaxFrame] at hfull
  rw [taken, kept_length, iMaxFrame]
  omega

theorem headed_iff (hg : ∀ p ∈ g, adapationSize p ≤ 184) : Headed g ↔ taken g = [] ∨ Released g := by
  by_cases hsmall : (groupBytes g).length ≤ iMaxFrame
  · rw [Headed, Released, taken_small hsmall]
  · -- A header has at most 9 and 255 bytes.
    have hlarge := taken_large hg (not_le.1 hsmall)
    have hbyte := ((taken g).getD 8 0).toNat_lt
    have hbyte' := ((groupBytes g).getD 8 0).toNat_lt
    rw [iMaxFrame] at hsmall
    constructor
    · intro _
      right
      rw [Released]
      omega
    · intro _
      right
      omega

theorem inPlace_small (h : (groupBytes g).length ≤ iMaxFrame) : InPlace g := by
  rw [← slices_sum] at h
  exact repeats_all h

/-- PES packets that are only cut off, up to the first one that is shorter than its header. -/
def Truncating : List (List Memory) → Prop
  | [] => True
  | g::gs => InPlace g ∧ (Headed g → Truncating gs)

theorem truncating_small (h : ∀ g ∈ gs, (groupBytes g).length ≤ iMaxFrame) : Truncating gs := by
  induction gs with
  | nil => trivial
  | cons g gs ih =>
    rw [List.forall_mem_cons] at h
    exact ⟨inPlace_small h.1, fun _ => ih h.2⟩

theorem released_prefix_iff (hgs : ∀ g ∈ gs, ∀ p ∈ g, adapationSize p ≤ 184) :
    (∀ e ∈ released gs, e.1 <+: groupBytes e.2) ↔ Truncating gs := by
  induction gs with
  | nil => simp [released, Truncating]
  | cons g gs ih =>
    rw [List.forall_mem_cons] at hgs
    rw [released, Truncating, headed_iff hgs.1, ← ih hgs.2, ← taken_prefix_iff]
    by_cases hnil : taken g = []
    · simp [hnil]
    · rw [if_neg hnil]
      by_cases hreleased : Released g
      · rw [if_pos hreleased, List.forall_mem_cons]
        simp [hreleased]
      · rw [if_neg hreleased, taken_prefix_iff]
        -- A PES packet that is shorter than its header is not too large.
        have hplace : InPlace g := by
          apply inPlace_small
          by_contra hlarge
          have hlong := taken_large hgs.1 (not_le.1 hlarge)
          have hbyte := ((taken g).getD 8 0).toNat_lt
          apply hreleased
          rw [Released]
          omega
        simp [hnil, hreleased, hplace]

theorem groups_mem {q : List Memory} (hq : q ∈ pesOf ps) (hp : p ∈ q) : p ∈ ps := by
  induction ps with
  | nil => exact absurd hq List.not_mem_nil
  | cons a ps ih =>
    rw [pesOf, groups] at hq
    split_ifs at hq
    · rcases List.mem_cons.1 hq with rfl | hq
      · rcases List.mem_cons.1 hp with rfl | hp
        · exact List.mem_cons_self
        · exact List.mem_cons_of_mem a ((List.takeWhile_sublist _).subset hp)
      · exact List.mem_cons_of_mem a (ih hq)
    · exact List.mem_cons_of_mem a (ih hq)

/-- All that is handed on is cut off just when no slice is put where it does not belong. -/
theorem truncated_iff (hPID : iPID ≠ 0) (hs : Announced iPID s) (hseq : LossFree iPID c ps) :
    (∀ e ∈ handedOn iPID [] ps s, e.1 <+: groupBytes e.2) ↔ Truncating (pesOf ps) := by
  have hcollects : Collects iPID FIRST_SYNC [] s := ⟨hs.cc, hs.stream, hs.channel⟩
  rw [handedOn_idle hPID hcollects (show LossFree iPID c ([] ++ ps) from hseq)]
  apply released_prefix_iff
  intro g hg p hp
  exact (hseq.packets p (groups_mem hg hp)).payload

/-- Two PES packets are handed on whole, and what there is of a third one. -/
theorem truncated_three : Truncating (pesOf threeStarts) ∧ ∀ e ∈ handedOn 0x100 [] threeStarts
    ((TSDemultiplexer.init (-1) 100 200 3).createStream 0x1B 0x100), e.1 <+: groupBytes e.2 := by
  have hs : Announced 0x100 ((TSDemultiplexer.init (-1) 100 200 3).createStream 0x1B 0x100) := by
    apply createStream_announced <;> simp [TSDemultiplexer.init]
  have hseq : LossFree 0x100 0 threeStarts := by
    constructor
    · intro p hp
      have hpckt := threeStarts_sequence.packets p hp
      exact ⟨hpckt.sync, hpckt.pid, le_of_lt hpckt.payload⟩
    · exact threeStarts_sequence.counters
  have htruncating : Truncating (pesOf threeStarts) := truncating_small threeStarts_sequence.sizes
  exact ⟨htruncating, (truncated_iff (by decide) hs hseq).2 htruncating⟩

/-! ## A slice behind a gap -/

/-- A packet full of zeros. -/
def full (bStart : Bool) (iCC : ℕ) : Memory :=
  memory [0x47, if bStart then 0x41 else 0x01, 0x00, UInt8.ofNat (0x10+iCC)]

/-- A packet with 100 bytes of payload, of which the first one is 7. -/
def last : Memory := memory ([0x47, 0x01, 0x00, 0x33, 83] ++ List.replicate 83 0 ++ [7])

/-- `n` full packets and the last one. -/
def oversized (n : ℕ) : List Memory :=
  full true 0::((List.range n).map (fun i => full false ((i+1)%16)) ++ [last])

def zeros : List UInt8 := List.replicate 184 0

theorem full_packet (bStart : Bool) {iCC : ℕ} (h : iCC < 16) : OfStream 0x100 (full bStart iCC) ∧
    counter (full bStart iCC) = iCC ∧ isStart (full bStart iCC) = bStart ∧
      payloadBytes (full bStart iCC) = zeros := by
  have hsync : ∀ b, ∀ i < 16, (tsHeader (full b i)).1 = ⟨0x47, b, 0x100, 1, i⟩ := by decide +kernel
  have hpayload : ∀ b, ∀ i < 16, adapationSize (full b i) = 0 ∧ payloadBytes (full b i) = zeros := by
    decide +kernel
  have hheader := hsync bStart iCC h
  obtain ⟨hadapation, hbytes⟩ := hpayload bStart iCC h
  refine ⟨⟨?_, ?_, ?_⟩, ?_, ?_, hbytes⟩
  · rw [hheader]
  · rw [hheader]
  · rw [hadapation]
    decide
  · rw [counter, hheader]
  · rw [isStart, hheader]

theorem last_packet : OfStream 0x100 last ∧ counter last = 3 ∧ isStart last = false ∧
    payloadBytes last = 7::List.replicate 99 0 := by
  have hheader : (tsHeader last).1 = ⟨0x47, false, 0x100, 3, 3⟩ := by decide +kernel
  refine ⟨⟨?_, ?_, ?_⟩, ?_, ?_, ?_⟩
  · rw [hheader]
  · rw [hheader]
  · decide +kernel
  · rw [counter, hheader]
  · rw [isStart, hheader]
  · decide +kernel

theorem oversized_lossFree {n : ℕ} (hn : (n+1)%16 = 3) : LossFree 0x100 0 (oversized n) := by
  constructor
  · intro p hp
    rw [oversized, List.mem_cons, List.mem_append, List.mem_map, List.mem_singleton] at hp
    rcases hp with rfl | ⟨i, -, rfl⟩ | rfl
    · exact (full_packet true (by decide)).1
    · exact (full_packet false (Nat.mod_lt _ (by decide))).1
    · exact last_packet.1
  · intro i p hp
    rw [oversized] at hp
    cases i with
    | zero =>
      cases hp
      exact (full_packet true (by decide)).2.1
    | succ i =>
      rw [List.getElem?_cons_succ, List.getElem?_append] at hp
      rw [List.length_map, List.length_range] at hp
      split_ifs at hp with hi
      · rw [List.getElem?_map, List.getElem?_range hi] at hp
        cases hp
        rw [(full_packet false (Nat.mod_lt _ (by decide))).2.1]
        omega
      · have hlast : i = n := by
          by_contra hne
          rw [List.getElem?_eq_none (by simp; omega)] at hp
          cases hp
        rw [hlast, Nat.sub_self] at hp
        cases hp
        rw [last_packet.2.1]
        omega

theorem oversized_slices (n : ℕ) :
    slices (oversized n) = List.replicate (n+1) zeros ++ [7::List.replicate 99 0] := by
  have hrest : ((List.range n).map fun i => full false ((i+1)%16)).map payloadBytes =
      List.replicate n zeros := by
    rw [List.map_map, List.eq_replicate_iff]
    constructor
    · rw [List.length_map, List.length_range]
    · intro b hb
      obtain ⟨i, -, rfl⟩ := List.mem_map.1 hb
      exact (full_packet false (Nat.mod_lt _ (by decide))).2.2.2
  rw [slices, oversized, List.map_cons, List.map_append, hrest, (full_packet true (by decide)).2.2.2,
    List.map_singleton, last_packet.2.2.2, List.replicate_succ (n := n), List.cons_append]

theorem oversized_pes (n : ℕ) : pesOf (oversized n) = [oversized n] := by
  apply groups_closed (full_packet true (by decide)).2.2.1
  intro b hb
  rw [List.mem_append, List.mem_map, List.mem_singleton] at hb
  rcases hb with ⟨i, -, rfl⟩ | rfl
  · exact (full_packet false (Nat.mod_lt _ (by decide))).2.2.1
  · exact last_packet.2.2.1

/-- 5698 packets fit, the next one does not, but the last one does. -/
theorem oversized_not_inPlace : ¬ InPlace (oversized 5698) := by
  intro h
  have hzeros : zeros.length = 184 := List.length_replicate
  have hsizes : (List.replicate (5698+1) zeros).map List.length = List.replicate 5698 184 ++ [184] := by
    rw [List.map_replicate, List.replicate_succ']
    rfl
  have hfit : filled iMaxFrame (List.replicate 5698 184) = 5698*184 := by
    rw [filled_all (by rw [List.sum_replicate, iMaxFrame]; decide), List.sum_replicate]
    rfl
  have hfilled : filled iMaxFrame ((List.replicate (5698+1) zeros).map List.length) = 5698*184 := by
    rw [hsizes, filled_snoc, hfit, if_neg (by rw [iMaxFrame]; decide)]
  have hrepeats := h (List.replicate (5698+1) zeros) (7::List.replicate 99 0) [] (oversized_slices 5698)
  have hsum : ((List.replicate (5698+1) zeros).map List.length).sum = 5699*184 := by
    rw [List.map_replicate, List.sum_replicate, hzeros, smul_eq_mul]
  rw [hfilled, hsum] at hrepeats
  have hprefix := hrepeats (by decide) (by
    rw [List.length_cons, List.length_replicate, iMaxFrame]
    decide)
  have hdrop : (slices (oversized 5698)).flatten.drop (5698*184) = zeros ++ (7::List.replicate 99 0) := by
    have hlength : (List.replicate 5698 zeros).flatten.length = 5698*184 := by
      rw [List.length_flatten, List.map_replicate, List.sum_replicate, hzeros, smul_eq_mul]
    rw [oversized_slices, List.replicate_succ', List.append_assoc, List.flatten_append, ← hlength,
      List.drop_left]
    rfl
  rw [hdrop] at hprefix
  have hfirst : (7 : UInt8) = 0 := (List.cons_prefix_cons.1 hprefix).1
  revert hfirst
  decide

/-- The PES packet handed on has 7 where it has 0. -/
theorem spliced : ¬ ∀ e ∈ handedOn 0x100 [] (oversized 5698)
    ((TSDemultiplexer.init (-1) 100 200 3).createStream 0x1B 0x100), e.1 <+: groupBytes e.2 := by
  have hs : Announced 0x100 ((TSDemultiplexer.init (-1) 100 200 3).createStream 0x1B 0x100) := by
    apply createStream_announced <;> simp [TSDemultiplexer.init]
  have hseq : LossFree 0x100 0 (oversized 5698) := oversized_lossFree (by decide)
  rw [handedOn_idle (by decide) ⟨hs.cc, hs.stream, hs.channel⟩ (show LossFree 0x100 0 ([] ++ oversized 5698) from hseq),
    oversized_pes, released_prefix_iff]
  · intro h
    exact oversized_not_inPlace h.1
  · intro g hg p hp
    rw [List.mem_singleton.1 hg] at hp
    exact (hseq.packets p hp).payload

end Sirannon.Demultiplexing
