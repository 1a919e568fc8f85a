import Sirannon.MediaPacket

/-!
# DTS from PTS

Frames come in decoding order with PTS only. Packets wait in a queue and the
PTS in a set; when the set holds `delay` times the lowest is taken out as the
DTS of the frame in front of the queue. The set loses one time per release, the
queue a whole frame.
-/

set_option autoImplicit false

namespace Sirannon.Restamping
open Media

inductive Error
  | undefinedBehaviour
  deriving DecidableEq, Repr

/-- `vTime` is a set, in its order; `routed` are the packets handed to `route`. -/
structure Restamp where
  iDelay : ℕ
  vTime : List ℤ
  vPackets : List MediaPacket
  routed : List MediaPacket
  deriving DecidableEq

/-- `insert` of a set. -/
def insertTime (iPTS : ℤ) (vTime : List ℤ) : List ℤ :=
  if iPTS ∈ vTime then vTime else vTime.orderedInsert (· ≤ ·) iPTS

attribute [grind =] insertTime

def restamped (iDts : ℤ) (pPckt : MediaPacket) : MediaPacket := { pPckt with dts := iDts }

def Restamp.extract_lowest (s : Restamp) : Except Error Restamp :=
  match s.vTime, s.vPackets with
  | iDts::vTime, front::rest =>
    let iFrame := front.framenumber
    .ok { s with
      vTime := vTime
      vPackets := (front::rest).dropWhile fun p => p.framenumber = iFrame
      routed := s.routed++
        ((front::rest).takeWhile fun p => p.framenumber = iFrame).map (restamped iDts) }
  | _, _ => .error .undefinedBehaviour

def Restamp.receive (s : Restamp) (pPckt : MediaPacket) : Except Error Restamp :=
  let s := { s with
    vPackets := s.vPackets++[pPckt]
    vTime := insertTime pPckt.pts s.vTime }
  if s.iDelay ≤ s.vTime.length then s.extract_lowest else .ok s

/-- The loop of `receive_reset`; each turn takes one time out. -/
def Restamp.drain : ℕ → Restamp → Except Error Restamp
  | 0, s => .ok s
  | n+1, s => if s.vTime = [] then .ok s else do (← s.extract_lowest).drain n

def Restamp.receive_reset (s : Restamp) (pPckt : MediaPacket) : Except Error Restamp := do
  let s ← s.drain s.vTime.length
  return { s with routed := s.routed++[pPckt] }

def Restamp.receive_end (s : Restamp) (pPckt : MediaPacket) : Except Error Restamp :=
  s.receive_reset pPckt

def run (iDelay : ℕ) (packets : List MediaPacket) (pEnd : MediaPacket) : Except Error Restamp := do
  let s ← packets.foldlM Restamp.receive ⟨iDelay, [], [], []⟩
  s.receive_end pEnd

/-! ## Frames -/

/-- The packets of a frame share its number and its PTS. -/
structure Frame where
  framenumber : ℤ
  pts : ℤ
  packets : List MediaPacket
  nonempty : packets ≠ []
  numbers : ∀ p ∈ packets, p.framenumber = framenumber
  times : ∀ p ∈ packets, p.pts = pts

def packetsOf (frames : List Frame) : List MediaPacket := frames.flatMap Frame.packets

/-- The number of frames decoded before `f` and presented after it. -/
def overtakes (past : List Frame) (f : Frame) : ℕ := past.countP fun g => decide (f.pts < g.pts)

/-- The number of frames decoded after `f` and presented before it. -/
def overtaken (f : Frame) (rest : List Frame) : ℕ := rest.countP fun g => decide (g.pts < f.pts)

/-- Frames in decoding order, none of which overtakes `d` frames. One of several packets does not
overtake so many that its own PTS is the lowest that waits. -/
structure Decoded (d : ℕ) (frames : List Frame) : Prop where
  numbers : frames.IsChain fun f g => f.framenumber ≠ g.framenumber
  times : (frames.map Frame.pts).Nodup
  delay : ∀ past f rest, frames = past++f::rest → overtakes past f < d
  single : ∀ past f rest, frames = past++f::rest →
    d = 1 ∨ f.packets.length = 1 ∨ overtakes past f+1 < d

def stamp (f : Frame) (iDts : ℤ) : List MediaPacket := f.packets.map (restamped iDts)

def stamped (frames : List Frame) (vDts : List ℤ) : List MediaPacket :=
  (List.zipWith stamp frames vDts).flatten

/-- Frame by frame the packets leave, and the DTS are the PTS in their order. A DTS does not
exceed the PTS of its frame when the frame overtakes no more frames than overtake it. -/
def Restamps (frames : List Frame) (pEnd : MediaPacket) (r : Except Error Restamp) : Prop :=
  ∃ s vDts, r = .ok s ∧ s.routed = stamped frames vDts++[pEnd] ∧
    vDts.Perm (frames.map Frame.pts) ∧ vDts.Pairwise (· < ·) ∧
    ∀ past f rest iDts, frames = past++f::rest → vDts[past.length]? = some iDts →
      (iDts ≤ f.pts ↔ overtakes past f ≤ overtaken f rest)

/-! ## Releasing a frame -/

variable {d : ℕ} {s : Restamp} {iDts iPTS : ℤ} {vTime R : List ℤ} {frames past rest : List Frame}
  {f : Frame}

theorem extract_front {N : ℤ} {front queue : List MediaPacket} (htime : s.vTime = iDts::vTime)
    (hpackets : s.vPackets = front++queue) (hne : front ≠ [])
    (hnumbers : ∀ p ∈ front, p.framenumber = N)
    (hnext : ∀ q, queue.head? = some q → q.framenumber ≠ N) :
    s.extract_lowest = .ok { s with
      vTime := vTime
      vPackets := queue
      routed := s.routed++front.map (restamped iDts) } := by
  obtain ⟨p, front, rfl⟩ := List.exists_cons_of_ne_nil hne
  have hp := hnumbers p List.mem_cons_self
  have hall : ∀ q ∈ p::front, decide (q.framenumber = p.framenumber) = true := by
    intro q hq
    rw [hp, hnumbers q hq]
    exact decide_eq_true rfl
  have htake : (queue.takeWhile fun q => decide (q.framenumber = p.framenumber)) = [] ∧
      (queue.dropWhile fun q => decide (q.framenumber = p.framenumber)) = queue := by
    cases queue with
    | nil => exact ⟨rfl, rfl⟩
    | cons q queue =>
      have hq : ¬ q.framenumber = p.framenumber := by
        rw [hp]
        exact hnext q rfl
      constructor
      · rw [List.takeWhile_cons_of_neg (by simpa using hq)]
      · rw [List.dropWhile_cons_of_neg (by simpa using hq)]
  unfold Restamp.extract_lowest
  rw [htime, hpackets, List.cons_append]
  dsimp only
  rw [← List.cons_append, List.takeWhile_append_of_pos hall, List.dropWhile_append_of_pos hall,
    htake.1, htake.2, List.append_nil]

/-- Further packets of a frame whose PTS waits are only queued. -/
theorem receive_more (ps : List MediaPacket) (hps : ∀ p ∈ ps, p.pts = iPTS)
    (hmem : iPTS ∈ s.vTime) (hlength : s.vTime.length < s.iDelay) :
    ps.foldlM Restamp.receive s = .ok { s with vPackets := s.vPackets++ps } := by
  induction ps generalizing s with
  | nil => simp [pure, Except.pure]
  | cons p ps ih =>
    have hreceive : s.receive p = .ok { s with vPackets := s.vPackets++[p] } := by
      unfold Restamp.receive
      rw [hps p List.mem_cons_self, insertTime, if_pos hmem]
      dsimp only
      rw [if_neg (by omega)]
    rw [List.foldlM_cons, hreceive]
    have hrest := ih (s := { s with vPackets := s.vPackets++[p] })
      (fun q hq => hps q (List.mem_cons_of_mem _ hq)) hmem hlength
    rw [List.append_assoc, List.singleton_append] at hrest
    exact hrest

/-- With no delay each packet leaves at once. -/
theorem receive_undelayed (ps : List MediaPacket) (hps : ∀ p ∈ ps, p.pts = iPTS)
    (hdelay : s.iDelay = 1) (htime : s.vTime = []) (hpackets : s.vPackets = []) :
    ps.foldlM Restamp.receive s =
      .ok { s with routed := s.routed++ps.map (restamped iPTS) } := by
  induction ps generalizing s with
  | nil => simp [pure, Except.pure]
  | cons p ps ih =>
    have hreceive : s.receive p = .ok { s with routed := s.routed++[restamped iPTS p] } := by
      unfold Restamp.receive
      rw [hps p List.mem_cons_self, htime, hpackets, insertTime, if_neg List.not_mem_nil]
      dsimp only
      rw [if_pos (by rw [hdelay]; exact le_rfl)]
      simp [Restamp.extract_lowest]
    rw [List.foldlM_cons, hreceive]
    have hrest := ih (s := { s with routed := s.routed++[restamped iPTS p] })
      (fun q hq => hps q (List.mem_cons_of_mem _ hq)) hdelay htime hpackets
    rw [List.append_assoc, List.singleton_append] at hrest
    exact hrest

/-! ## The times that wait -/

theorem insertTime_perm {t : ℤ} (h : t ∉ vTime) : (insertTime t vTime).Perm (t::vTime) := by
  rw [insertTime, if_neg h]
  exact List.perm_orderedInsert _ _ _

theorem insertTime_ordered {t : ℤ} (hordered : vTime.Pairwise (· < ·)) (h : t ∉ vTime) :
    (insertTime t vTime).Pairwise (· < ·) := by
  have hle : (insertTime t vTime).Pairwise (· ≤ ·) := by
    rw [insertTime, if_neg h]
    exact List.Pairwise.orderedInsert t _ (hordered.imp le_of_lt)
  have hnodup : (insertTime t vTime).Nodup := by
    rw [(insertTime_perm h).nodup_iff, List.nodup_cons]
    exact ⟨h, hordered.imp ne_of_lt⟩
  exact (hle.and hnodup).imp fun hab => lt_of_le_of_ne hab.1 hab.2

theorem overtakes_of_times {times : List ℤ} (hsub : times.Subperm (past.map Frame.pts))
    (hlow : ∀ t ∈ times, f.pts < t) : times.length ≤ overtakes past f := by
  have hcount : times.countP (fun t => decide (f.pts < t)) = times.length := by
    rw [List.countP_eq_length]
    intro t ht
    exact decide_eq_true (hlow t ht)
  rw [← hcount]
  have hle := hsub.countP_le (fun t => decide (f.pts < t))
  rwa [List.countP_map] at hle

/-- The state behind the frames of `past`; the DTS given so far are `R`. -/
structure At (d : ℕ) (frames past rest : List Frame) (R : List ℤ) (s : Restamp) : Prop where
  delay : s.iDelay = d
  perm : (R++s.vTime).Perm (past.map Frame.pts)
  ordered : (R++s.vTime).Pairwise (· < ·)
  early : ∀ t ∈ R, ∀ g ∈ rest, t < g.pts
  count : R.length = past.length+1-d
  queue : s.vPackets = packetsOf (past.drop R.length)
  sent : s.routed = stamped frames R

theorem At.length (h : At d frames past rest R s) : R.length+s.vTime.length = past.length := by
  have hlength := h.perm.length_eq
  rwa [List.length_append, List.length_map] at hlength

theorem At.fresh (h : At d frames past (f::rest) R s) (hframes : frames = past++f::rest)
    (hdecoded : Decoded d frames) : f.pts ∉ s.vTime := by
  intro hmem
  have hpast : f.pts ∈ past.map Frame.pts := h.perm.subset (List.mem_append_right _ hmem)
  have htimes := hdecoded.times
  rw [hframes, List.map_append, List.nodup_append] at htimes
  exact htimes.2.2 f.pts hpast f.pts (by simp) rfl

/-- The packets of `f` wait, and one time has been taken out if there were enough. -/
theorem at_queued (hdecoded : Decoded d frames) (hframes : frames = past++f::rest)
    (h : At d frames past (f::rest) R s) (hfew : past.length+1 < d) :
    At d frames (past++[f]) rest R { s with
      vTime := insertTime f.pts s.vTime
      vPackets := s.vPackets++f.packets } := by
  have hfresh := h.fresh hframes hdecoded
  have hR : R = [] := List.length_eq_zero_iff.mp (by rw [h.count]; omega)
  subst hR
  constructor
  · exact h.delay
  · rw [List.nil_append, List.map_append, List.map_singleton]
    have hperm := h.perm
    rw [List.nil_append] at hperm
    exact (insertTime_perm hfresh).trans
      ((hperm.cons _).trans (List.perm_append_singleton _ _).symm)
  · have hordered := h.ordered
    rw [List.nil_append] at hordered ⊢
    exact insertTime_ordered hordered hfresh
  · intro t ht
    cases ht
  · rw [List.length_append, List.length_singleton, List.length_nil]
    omega
  · rw [h.queue]
    simp [packetsOf]
  · exact h.sent

theorem stamped_snoc {t : ℤ} {g : Frame} {more : List Frame} (h : frames.drop R.length = g::more) :
    stamped frames (R++[t]) = stamped frames R++stamp g t := by
  induction R generalizing frames with
  | nil =>
    rw [List.length_nil, List.drop_zero] at h
    rw [h]
    simp [stamped]
  | cons r R ih =>
    cases frames with
    | nil =>
      rw [List.drop_nil] at h
      cases h
    | cons f frames =>
      rw [List.length_cons, List.drop_succ_cons] at h
      have hrest := ih h
      unfold stamped at hrest ⊢
      rw [List.cons_append, List.zipWith_cons_cons, List.zipWith_cons_cons, List.flatten_cons,
        List.flatten_cons, hrest, List.append_assoc]

theorem released_perm (hfresh : f.pts ∉ s.vTime) (h : At d frames past (f::rest) R s)
    (hlow : insertTime f.pts s.vTime = iDts::vTime) :
    (R++iDts::vTime).Perm ((past++[f]).map Frame.pts) := by
  have hinsert := insertTime_perm hfresh
  rw [hlow] at hinsert
  have hmiddle : (R++f.pts::s.vTime).Perm (f.pts::(R++s.vTime)) := List.perm_middle
  have hlast : (f.pts::past.map Frame.pts).Perm (past.map Frame.pts++[f.pts]) :=
    (List.perm_append_singleton _ _).symm
  rw [List.map_append, List.map_singleton]
  exact (hinsert.append_left R).trans (hmiddle.trans ((h.perm.cons _).trans hlast))

theorem released_ordered (hfresh : f.pts ∉ s.vTime) (h : At d frames past (f::rest) R s)
    (hlow : insertTime f.pts s.vTime = iDts::vTime) : (R++iDts::vTime).Pairwise (· < ·) := by
  have hinsert := insertTime_perm hfresh
  have hordered := List.pairwise_append.mp h.ordered
  have hinserted := insertTime_ordered hordered.2.1 hfresh
  rw [hlow] at hinsert hinserted
  rw [List.pairwise_append]
  refine ⟨hordered.1, hinserted, ?_⟩
  intro a ha b hb
  rcases List.mem_cons.mp (hinsert.subset hb) with rfl | hb
  · exact h.early a ha f List.mem_cons_self
  · exact hordered.2.2 a ha b hb

/-- A frame still to come with a lower PTS would overtake all frames whose times wait. -/
theorem released_early (hdecoded : Decoded d frames) (hframes : frames = past++f::rest)
    (hsub : (iDts::vTime).Subperm ((past++[f]).map Frame.pts))
    (hordered : (iDts::vTime).Pairwise (· < ·)) (hd : d ≤ vTime.length+1) {g : Frame}
    (hg : g ∈ rest) : iDts < g.pts := by
  obtain ⟨between, behind, rfl⟩ := List.append_of_mem hg
  have hover := hdecoded.delay (past++f::between) g behind (by rw [hframes]; simp)
  have htimes := hdecoded.times
  have hsub' : (iDts::vTime).Subperm ((past++f::between).map Frame.pts) := by
    have hsublist : (past++[f]).Sublist (past++f::between) := by
      rw [List.append_cons past f between]
      exact List.sublist_append_left _ _
    exact hsub.trans (hsublist.map _).subperm
  have hne : ∀ t ∈ iDts::vTime, t ≠ g.pts := by
    intro t ht heq
    rw [hframes, ← List.cons_append, ← List.append_assoc, List.map_append,
      List.nodup_append] at htimes
    exact htimes.2.2 t (hsub'.subset ht) g.pts (by simp) heq
  by_contra hle
  have hcount := overtakes_of_times (f := g) hsub' (by
    intro t ht
    have hnet := hne t ht
    rcases List.mem_cons.mp ht with rfl | ht
    · omega
    · have hlt := (List.pairwise_cons.mp hordered).1 t ht
      omega)
  rw [List.length_cons] at hcount
  omega

theorem vTime_length (hfresh : f.pts ∉ s.vTime)
    (hlow : insertTime f.pts s.vTime = iDts::vTime) : vTime.length = s.vTime.length := by
  have hinsert := (insertTime_perm hfresh).length_eq
  rw [hlow, List.length_cons, List.length_cons] at hinsert
  omega

/-- The lowest time goes out with the frame in front. -/
theorem at_released (hdecoded : Decoded d frames) (hframes : frames = past++f::rest)
    (h : At d frames past (f::rest) R s) (hmany : d ≤ past.length+1) {g : Frame}
    {more : List Frame} (hfront : (past++[f]).drop R.length = g::more)
    (hlow : insertTime f.pts s.vTime = iDts::vTime) :
    At d frames (past++[f]) rest (R++[iDts]) { s with
      vTime := vTime
      vPackets := packetsOf more
      routed := s.routed++stamp g iDts } := by
  have hfresh := h.fresh hframes hdecoded
  have hperm := released_perm hfresh h hlow
  have hordered := released_ordered hfresh h hlow
  have hlength := h.length
  have hcount := h.count
  constructor
  · exact h.delay
  · rwa [List.append_assoc, List.singleton_append]
  · rwa [List.append_assoc, List.singleton_append]
  · intro t ht k hk
    rcases List.mem_append.mp ht with ht | ht
    · exact h.early t ht k (List.mem_cons_of_mem _ hk)
    · rw [List.mem_singleton.mp ht]
      have hsub := (List.sublist_append_right R (iDts::vTime)).subperm.trans hperm.subperm
      apply released_early hdecoded hframes hsub (List.pairwise_append.mp hordered).2.1 _ hk
      rw [vTime_length hfresh hlow]
      omega
  · rw [List.length_append, List.length_append, List.length_singleton, List.length_singleton]
    omega
  · rw [List.length_append, List.length_singleton, ← List.drop_drop, hfront]
    rfl
  · have hdrop : frames.drop R.length = g::(more++rest) := by
      rw [hframes, List.append_cons, List.drop_append_of_le_length, hfront, List.cons_append]
      rw [List.length_append]
      omega
    rw [stamped_snoc hdrop, h.sent]

/-! ## Receiving a frame -/

theorem packetsOf_cons (f : Frame) (fs : List Frame) :
    packetsOf (f::fs) = f.packets++packetsOf fs := List.flatMap_cons

theorem packetsOf_append (fs gs : List Frame) :
    packetsOf (fs++gs) = packetsOf fs++packetsOf gs := List.flatMap_append

/-- The packet in front of some frames is of the first of them. -/
theorem head_number {fs : List Frame} {queue : List MediaPacket} {q : MediaPacket}
    (hqueue : queue ≠ []) (hbegins : queue <+: packetsOf fs) (hq : queue.head? = some q) :
    ∃ g more, fs = g::more ∧ q.framenumber = g.framenumber := by
  cases fs with
  | nil => exact absurd (List.prefix_nil.mp hbegins) hqueue
  | cons g more =>
    refine ⟨g, more, rfl, g.numbers q ?_⟩
    obtain ⟨p, ps, hp⟩ := List.exists_cons_of_ne_nil g.nonempty
    obtain ⟨behind, hbehind⟩ := hbegins
    obtain ⟨r, rs, rfl⟩ := List.exists_cons_of_ne_nil hqueue
    rw [packetsOf_cons, hp, List.cons_append, List.cons_append, List.cons.injEq] at hbehind
    rw [List.head?_cons, Option.some.injEq] at hq
    rw [hp, ← hq, hbehind.1]
    exact List.mem_cons_self

theorem receive_few (hdecoded : Decoded d frames) (hframes : frames = past++f::rest)
    (h : At d frames past (f::rest) R s) (hfew : past.length+1 < d) :
    f.packets.foldlM Restamp.receive s = .ok { s with
      vTime := insertTime f.pts s.vTime
      vPackets := s.vPackets++f.packets } := by
  have hinsert := insertTime_perm (h.fresh hframes hdecoded)
  have hlength := h.length
  have hinserted := hinsert.length_eq
  rw [List.length_cons] at hinserted
  obtain ⟨p, ps, hp⟩ := List.exists_cons_of_ne_nil f.nonempty
  have htimes : ∀ q ∈ p::ps, q.pts = f.pts := by
    rw [← hp]
    exact f.times
  have hreceive : s.receive p = .ok { s with
      vTime := insertTime f.pts s.vTime
      vPackets := s.vPackets++[p] } := by
    unfold Restamp.receive
    rw [htimes p List.mem_cons_self]
    dsimp only
    rw [if_neg]
    rw [h.delay]
    omega
  rw [hp, List.foldlM_cons, hreceive]
  have hmore := receive_more (s := { s with
      vTime := insertTime f.pts s.vTime
      vPackets := s.vPackets++[p] }) ps (fun q hq => htimes q (List.mem_cons_of_mem _ hq))
    (hinsert.symm.subset List.mem_cons_self) (by
      show (insertTime f.pts s.vTime).length < s.iDelay
      rw [h.delay]
      omega)
  rw [List.append_assoc, List.singleton_append] at hmore
  exact hmore

/-- The time of a frame of several packets is not the one that is taken out. -/
theorem own_waits (hdecoded : Decoded d frames) (hframes : frames = past++f::rest)
    (h : At d frames past (f::rest) R s) (hmany : d ≤ past.length+1) (hd : 2 ≤ d)
    (hlow : insertTime f.pts s.vTime = iDts::vTime) (hseveral : f.packets.length ≠ 1) :
    f.pts ∈ vTime := by
  have hfresh := h.fresh hframes hdecoded
  have hinsert := insertTime_perm hfresh
  have hinserted := insertTime_ordered (List.pairwise_append.mp h.ordered).2.1 hfresh
  rw [hlow] at hinsert hinserted
  rcases List.mem_cons.mp (hinsert.symm.subset List.mem_cons_self) with hown | hmem
  · exfalso
    rw [← hown] at hinsert hinserted
    have hsub : vTime.Subperm (past.map Frame.pts) :=
      hinsert.cons_inv.subperm.trans
        ((List.sublist_append_right R s.vTime).subperm.trans h.perm.subperm)
    have hover := overtakes_of_times hsub (List.pairwise_cons.mp hinserted).1
    have hvTime := vTime_length hfresh hlow
    have hlength := h.length
    have hcount := h.count
    rcases hdecoded.single past f rest hframes with h1 | h1 | h1
    · omega
    · exact hseveral h1
    · omega
  · exact hmem

theorem receive_released (hdecoded : Decoded d frames) (hframes : frames = past++f::rest)
    (h : At d frames past (f::rest) R s) (hmany : d ≤ past.length+1) (hd : 2 ≤ d) {g : Frame}
    {fs : List Frame} (hfront : past.drop R.length = g::fs)
    (hlow : insertTime f.pts s.vTime = iDts::vTime) :
    f.packets.foldlM Restamp.receive s = .ok { s with
      vTime := vTime
      vPackets := packetsOf (fs++[f])
      routed := s.routed++stamp g iDts } := by
  have hvTime := vTime_length (h.fresh hframes hdecoded) hlow
  have hlength := h.length
  have hcount := h.count
  obtain ⟨p, ps, hp⟩ := List.exists_cons_of_ne_nil f.nonempty
  have htimes : ∀ q ∈ p::ps, q.pts = f.pts := by
    rw [← hp]
    exact f.times
  have hnext : ∀ q, (packetsOf fs++[p]).head? = some q → q.framenumber ≠ g.framenumber := by
    intro q hq
    have hbegins : packetsOf fs++[p] <+: packetsOf (fs++[f]) := by
      rw [packetsOf_append, packetsOf_cons, hp]
      exact ⟨ps, by simp [packetsOf]⟩
    obtain ⟨k, more, hk, hnumber⟩ := head_number (by simp) hbegins hq
    have hchain := hdecoded.numbers
    have hsplit : frames = past.take R.length++(g::(k::more++rest)) := by
      have hpast : past = past.take R.length++g::fs := by rw [← hfront, List.take_append_drop]
      rw [hframes, ← hk]
      nth_rewrite 1 [hpast]
      simp
    rw [hsplit, List.isChain_append] at hchain
    have hpair := hchain.2.1
    rw [List.cons_append, List.isChain_cons_cons] at hpair
    rw [hnumber]
    exact Ne.symm hpair.1
  have hreceive : s.receive p = .ok { s with
      vTime := vTime
      vPackets := packetsOf fs++[p]
      routed := s.routed++stamp g iDts } := by
    have hqueue : s.vPackets++[p] = g.packets++(packetsOf fs++[p]) := by
      rw [h.queue, hfront, packetsOf_cons, List.append_assoc]
    unfold Restamp.receive
    rw [htimes p List.mem_cons_self, hlow]
    dsimp only
    rw [if_pos (by rw [h.delay, List.length_cons]; omega)]
    exact extract_front rfl hqueue g.nonempty g.numbers hnext
  rw [hp, List.foldlM_cons, hreceive]
  have hpackets : packetsOf fs++[p]++ps = packetsOf (fs++[f]) := by
    rw [packetsOf_append, packetsOf_cons, hp]
    simp [packetsOf]
  rw [← hpackets]
  by_cases hseveral : f.packets.length = 1
  · have hnil : ps = [] := by
      rw [hp, List.length_cons] at hseveral
      exact List.length_eq_zero_iff.mp (by omega)
    subst hnil
    rw [List.append_nil]
    rfl
  · exact receive_more ps (fun q hq => htimes q (List.mem_cons_of_mem _ hq))
      (own_waits hdecoded hframes h hmany hd hlow hseveral) (by
        show vTime.length < s.iDelay
        rw [h.delay]
        omega)

theorem receive_frame (hpos : 1 ≤ d) (hdecoded : Decoded d frames)
    (hframes : frames = past++f::rest) (h : At d frames past (f::rest) R s) :
    ∃ R' t, f.packets.foldlM Restamp.receive s = .ok t ∧ At d frames (past++[f]) rest R' t := by
  have hlength := h.length
  have hcount := h.count
  by_cases hfew : past.length+1 < d
  · exact ⟨R, _, receive_few hdecoded hframes h hfew, at_queued hdecoded hframes h hfew⟩
  have hmany : d ≤ past.length+1 := by omega
  obtain ⟨iDts, vTime, hlow⟩ : ∃ iDts vTime, insertTime f.pts s.vTime = iDts::vTime := by
    apply List.exists_cons_of_ne_nil
    intro hnil
    have hmem := (insertTime_perm (h.fresh hframes hdecoded)).symm.subset List.mem_cons_self
    rw [hnil] at hmem
    cases hmem
  by_cases hone : d = 1
  · have htime : s.vTime = [] := List.length_eq_zero_iff.mp (by omega)
    have hall : past.drop R.length = [] := List.drop_of_length_le (by omega)
    have hpackets : s.vPackets = [] := by
      rw [h.queue, hall]
      rfl
    have hfront : (past++[f]).drop R.length = f::[] := by
      rw [List.drop_append_of_le_length (by omega), hall, List.nil_append]
    have hown : iDts = f.pts ∧ vTime = [] := by
      rw [htime, insertTime, if_neg List.not_mem_nil, List.orderedInsert_nil,
        List.cons.injEq] at hlow
      exact ⟨hlow.1.symm, hlow.2.symm⟩
    refine ⟨R++[iDts], _, ?_, at_released hdecoded hframes h hmany hfront hlow⟩
    rw [receive_undelayed f.packets f.times (by rw [h.delay, hone]) htime hpackets, hown.1, hown.2]
    congr 1
    cases s
    simp only at htime hpackets
    rw [htime, hpackets]
    rfl
  · obtain ⟨g, fs, hfront⟩ : ∃ g fs, past.drop R.length = g::fs := by
      apply List.exists_cons_of_ne_nil
      intro hnil
      have hdrop := congrArg List.length hnil
      rw [List.length_drop, List.length_nil] at hdrop
      omega
    have hfront' : (past++[f]).drop R.length = g::(fs++[f]) := by
      rw [List.drop_append_of_le_length (by omega), hfront, List.cons_append]
    exact ⟨R++[iDts], _, receive_released hdecoded hframes h hmany (by omega) hfront hlow,
      at_released hdecoded hframes h hmany hfront' hlow⟩

theorem receive_frames (hpos : 1 ≤ d) (hdecoded : Decoded d frames)
    (hframes : frames = past++rest) (h : At d frames past rest R s) :
    ∃ R' t, (packetsOf rest).foldlM Restamp.receive s = .ok t ∧ At d frames frames [] R' t := by
  induction rest generalizing past R s with
  | nil =>
    rw [List.append_nil] at hframes
    subst hframes
    exact ⟨R, s, rfl, h⟩
  | cons f rest ih =>
    obtain ⟨R', t, hok, hat⟩ := receive_frame hpos hdecoded hframes h
    obtain ⟨R'', u, hok', hat'⟩ := ih (by rw [hframes, List.append_cons]) hat
    refine ⟨R'', u, ?_, hat'⟩
    rw [packetsOf_cons, List.foldlM_append, hok]
    exact hok'

/-! ## The end -/

theorem drain_frames {fs : List Frame} (htime : s.vTime = vTime)
    (hpackets : s.vPackets = packetsOf fs) (hlength : vTime.length = fs.length)
    (hchain : fs.IsChain fun f g => f.framenumber ≠ g.framenumber) :
    s.drain vTime.length = .ok { s with
      vTime := []
      vPackets := []
      routed := s.routed++stamped fs vTime } := by
  induction vTime generalizing fs s with
  | nil =>
    have hnil : fs = [] := List.length_eq_zero_iff.mp hlength.symm
    subst hnil
    cases s
    simp only at htime hpackets
    rw [htime, hpackets]
    simp [Restamp.drain, stamped, packetsOf]
  | cons t vTime ih =>
    cases fs with
    | nil => cases hlength
    | cons f fs =>
      have hextract := extract_front htime (by rw [hpackets, packetsOf_cons]) f.nonempty f.numbers
        (by
          intro q hq
          have hne : packetsOf fs ≠ [] := by
            intro hnil
            rw [hnil] at hq
            cases hq
          obtain ⟨g, more, rfl, hnumber⟩ := head_number hne (List.prefix_refl _) hq
          rw [List.isChain_cons_cons] at hchain
          rw [hnumber]
          exact Ne.symm hchain.1)
      rw [List.length_cons, Restamp.drain, if_neg (by rw [htime]; exact List.cons_ne_nil _ _),
        hextract]
      rw [List.length_cons, List.length_cons, Nat.add_right_cancel_iff] at hlength
      show Restamp.drain vTime.length _ = _
      rw [ih rfl rfl hlength hchain.tail]
      simp [stamped, stamp]

theorem stamped_append {vDts : List ℤ} (hR : R.length ≤ frames.length) :
    stamped frames (R++vDts) = stamped frames R++stamped (frames.drop R.length) vDts := by
  induction R generalizing frames with
  | nil => simp [stamped]
  | cons r R ih =>
    cases frames with
    | nil => cases hR
    | cons f frames =>
      have hrest := ih (Nat.le_of_succ_le_succ hR)
      unfold stamped at hrest ⊢
      rw [List.cons_append, List.zipWith_cons_cons, List.zipWith_cons_cons, List.flatten_cons,
        List.flatten_cons, hrest, List.length_cons, List.drop_succ_cons, List.append_assoc]

theorem receive_end_frames (hdecoded : Decoded d frames) (h : At d frames frames [] R s)
    (pEnd : MediaPacket) :
    ∃ t, s.receive_end pEnd = .ok t ∧ t.routed = stamped frames (R++s.vTime)++[pEnd] := by
  have hlength := h.length
  have hchain : (frames.drop R.length).IsChain fun f g => f.framenumber ≠ g.framenumber := by
    have hall := hdecoded.numbers
    rw [← List.take_append_drop R.length frames, List.isChain_append] at hall
    exact hall.2.1
  have hdrain := drain_frames rfl h.queue (by rw [List.length_drop]; omega) hchain
  refine ⟨{ s with
      vTime := []
      vPackets := []
      routed := s.routed++stamped (frames.drop R.length) s.vTime++[pEnd] }, ?_, ?_⟩
  · rw [Restamp.receive_end, Restamp.receive_reset, hdrain]
    rfl
  · show s.routed++stamped (frames.drop R.length) s.vTime++[pEnd] = _
    rw [h.sent, stamped_append (by omega)]

/-! ## Restamped frames -/

theorem at_start (frames : List Frame) (hpos : 1 ≤ d) :
    At d frames [] frames [] ⟨d, [], [], []⟩ where
  delay := rfl
  perm := List.Perm.refl _
  ordered := List.Pairwise.nil
  early := fun t ht => absurd ht List.not_mem_nil
  count := by
    simp only [List.length_nil]
    omega
  queue := rfl
  sent := by simp [stamped]

/-- The time at place `k` has `k` times below it. -/
theorem below_of_ordered {vDts : List ℤ} (hordered : vDts.Pairwise (· < ·)) {k : ℕ}
    (hk : vDts[k]? = some iDts) : vDts.countP (fun t => decide (t < iDts)) = k := by
  induction vDts generalizing k with
  | nil => cases hk
  | cons r vDts ih =>
    have hcons := List.pairwise_cons.mp hordered
    cases k with
    | zero =>
      rw [List.getElem?_cons_zero, Option.some.injEq] at hk
      subst hk
      rw [List.countP_eq_zero]
      intro t ht
      rw [decide_eq_true_eq, not_lt]
      rcases List.mem_cons.mp ht with rfl | ht
      · exact le_rfl
      · exact (hcons.1 t ht).le
    | succ k =>
      rw [List.getElem?_cons_succ] at hk
      have hlt := hcons.1 iDts (List.mem_of_getElem? hk)
      rw [List.countP_cons_of_pos (by simpa using hlt), ih hcons.2 hk]

/-- The frames presented before `f` are those it does not overtake and those that overtake it. -/
theorem below_frame (htimes : ((past++f::rest).map Frame.pts).Nodup) :
    ((past++f::rest).map Frame.pts).countP (fun t => decide (t < f.pts))+overtakes past f =
      past.length+overtaken f rest := by
  have hpast : past.countP (fun g => decide (g.pts < f.pts))+overtakes past f = past.length := by
    rw [overtakes, List.length_eq_countP_add_countP fun g => decide (g.pts < f.pts)]
    congr 1
    apply List.countP_congr
    intro g hg
    rw [List.map_append, List.nodup_append] at htimes
    have hne := htimes.2.2 g.pts (List.mem_map_of_mem hg) f.pts (by simp)
    simp only [decide_eq_true_eq]
    omega
  rw [List.countP_map, List.countP_append, List.countP_cons_of_neg (by simp)]
  show past.countP (fun g => decide (g.pts < f.pts))+
    rest.countP (fun g => decide (g.pts < f.pts))+overtakes past f = _
  rw [overtaken]
  omega

theorem dts_le_iff {vDts : List ℤ} (hperm : vDts.Perm (frames.map Frame.pts))
    (hordered : vDts.Pairwise (· < ·)) (hframes : frames = past++f::rest)
    (hdts : vDts[past.length]? = some iDts) :
    iDts ≤ f.pts ↔ overtakes past f ≤ overtaken f rest := by
  have htimes : (frames.map Frame.pts).Nodup := hperm.nodup (hordered.imp ne_of_lt)
  have hbelow := below_of_ordered hordered hdts
  rw [hframes] at htimes
  have hframe := below_frame htimes
  rw [← hframes, ← hperm.countP_eq] at hframe
  constructor
  · intro hle
    have hmono : vDts.countP (fun t => decide (t < iDts)) ≤
        vDts.countP (fun t => decide (t < f.pts)) := by
      apply List.countP_mono_left
      intro t _ ht
      rw [decide_eq_true_eq] at ht ⊢
      omega
    omega
  · intro hover
    by_contra hgt
    have hmem : f.pts ∈ vDts := by
      rw [hperm.mem_iff, hframes]
      simp
    obtain ⟨k, hk⟩ := List.getElem?_of_mem hmem
    have hown := below_of_ordered hordered hk
    have hlt : k < past.length := by
      by_contra hge
      obtain ⟨hk', rfl⟩ := List.getElem?_eq_some_iff.mp hdts
      obtain ⟨hk'', hkeq⟩ := List.getElem?_eq_some_iff.mp hk
      rcases Nat.lt_or_eq_of_le (not_lt.mp hge) with hlt | heq
      · have hpair := List.pairwise_iff_getElem.mp hordered _ _ hk' hk'' hlt
        omega
      · subst heq
        omega
    omega

/-- Frames that overtake few enough leave in their order, with the PTS as DTS in theirs. -/
theorem run_restamps (hpos : 1 ≤ d) (hdecoded : Decoded d frames) (pEnd : MediaPacket) :
    Restamps frames pEnd (run d (packetsOf frames) pEnd) := by
  obtain ⟨R, s, hok, hat⟩ := receive_frames hpos hdecoded rfl (at_start frames hpos)
  obtain ⟨t, hend, hrouted⟩ := receive_end_frames hdecoded hat pEnd
  refine ⟨t, R++s.vTime, ?_, hrouted, hat.perm, hat.ordered, ?_⟩
  · rw [run, hok]
    exact hend
  · intro past f rest iDts hframes hdts
    exact dts_le_iff hat.perm hat.ordered hframes hdts

/-! ## Frames that come too late -/

/-- No frame is overtaken by `d` frames. -/
structure Delayed (d : ℕ) (frames : List Frame) : Prop where
  numbers : frames.IsChain fun f g => f.framenumber ≠ g.framenumber
  times : (frames.map Frame.pts).Nodup
  delay : ∀ past f rest, frames = past++f::rest → overtaken f rest < d

theorem forall_split {P : List Frame → Frame → List Frame → Prop}
    (h : ∀ i (hi : i < frames.length), P (frames.take i) frames[i] (frames.drop (i+1)))
    (past : List Frame) (f : Frame) (rest : List Frame) (hframes : frames = past++f::rest) :
    P past f rest := by
  subst hframes
  have hi := h past.length (by simp)
  simpa using hi

def framePacket (framenumber pts : ℤ) : MediaPacket :=
  { MediaPacket.new .media .video 0 with framenumber := framenumber, pts := pts }

def endPacket : MediaPacket := MediaPacket.new .end .video 0

/-- A frame of `n+1` packets. -/
def frameOf (n : ℕ) (framenumber pts : ℤ) : Frame where
  framenumber := framenumber
  pts := pts
  packets := List.replicate (n+1) (framePacket framenumber pts)
  nonempty := by simp
  numbers := by
    intro p hp
    rw [List.eq_of_mem_replicate hp]
    rfl
  times := by
    intro p hp
    rw [List.eq_of_mem_replicate hp]
    rfl

/-- The PTS and DTS of the packets that leave. -/
def stamps (d : ℕ) (frames : List Frame) : Except Error (List (ℤ × ℤ)) :=
  (run d (packetsOf frames) endPacket).map fun s => s.routed.map fun p => (p.pts, p.dts)

def reordered : List Frame := [frameOf 1 0 0, frameOf 1 1 2, frameOf 0 2 1]

def late : List Frame := [frameOf 0 0 5, frameOf 0 1 6, frameOf 0 2 1]

def several : List Frame := [frameOf 0 0 1, frameOf 0 1 4, frameOf 1 2 2, frameOf 0 3 7]

theorem reordered_decoded : Decoded 2 reordered where
  numbers := by decide
  times := by decide
  delay := forall_split (P := fun past f _ => overtakes past f < 2) (by decide)
  single := forall_split
    (P := fun past f _ => 2 = 1 ∨ f.packets.length = 1 ∨ overtakes past f+1 < 2) (by decide)

theorem reordered_delayed : Delayed 2 reordered where
  numbers := by decide
  times := by decide
  delay := forall_split (P := fun _ f rest => overtaken f rest < 2) (by decide)

theorem late_delayed : Delayed 2 late where
  numbers := by decide
  times := by decide
  delay := forall_split (P := fun _ f rest => overtaken f rest < 2) (by decide)

theorem several_delayed : Delayed 2 several where
  numbers := by decide
  times := by decide
  delay := forall_split (P := fun _ f rest => overtaken f rest < 2) (by decide)

theorem reordered_restamps :
    Restamps reordered endPacket (run 2 (packetsOf reordered) endPacket) :=
  run_restamps (by decide) reordered_decoded endPacket

/-- A DTS exceeds its PTS; DTS go back; a PTS is put in the set again by the second packet of its
frame, and in the end the queue is empty before the set. -/
theorem delayed_fails :
    (Delayed 2 reordered ∧
      stamps 2 reordered = .ok [(0, 0), (0, 0), (2, 1), (2, 1), (1, 2), (0, 0)]) ∧
    (Delayed 2 late ∧ stamps 2 late = .ok [(5, 5), (6, 1), (1, 6), (0, 0)]) ∧
    (Delayed 2 several ∧ stamps 2 several = .error .undefinedBehaviour) :=
  ⟨⟨reordered_delayed, by decide⟩, ⟨late_delayed, by decide⟩, ⟨several_delayed, by decide⟩⟩

end Sirannon.Restamping
