import Sirannon.MediaPacket

/-!
# Splitting a stream by its GOPs

The GOPs of a video stream are sent to `split` routes in turn. A GOP starts
where a packet with a parameter set or an IDR picture has another frame number
than the packet before it; a reset then closes the route of the last GOP. Each
route has its own count of units.
-/

set_option autoImplicit false

namespace Sirannon.GOPSplitter
open Media

inductive Error
  | runtime (sText : String)
  | codecNotSupported (codec : CodecType)
  deriving DecidableEq, Repr

/-- `routed` are the packets handed to `route`. -/
structure GOP_Splitter where
  iCount : ℕ
  iSplit : ℕ
  iFrame : ℤ
  mUnit : ℕ → ℤ
  bSync : Bool
  routed : List MediaPacket

def GOP_Splitter.init (split : ℤ) (sync : Bool) : Except Error GOP_Splitter :=
  if split < 1 then .error (.runtime s!"Parameter split({split}) must be larger than 0")
  else .ok ⟨0, split.toNat, -1, fun _ => 0, sync, []⟩

def numbered (pPckt : MediaPacket) (xroute unitnumber : ℤ) : MediaPacket :=
  { pPckt with xroute := xroute, unitnumber := unitnumber }

/-- The packet goes to a route with the next number of unit `i`. -/
def GOP_Splitter.route (s : GOP_Splitter) (i : ℕ) (xroute : ℤ) (pPckt : MediaPacket) :
    GOP_Splitter :=
  { s with
    routed := s.routed++[numbered pPckt xroute (s.mUnit i)]
    mUnit := Function.update s.mUnit i (s.mUnit i+1) }

def resetPacket (pNewPckt : MediaPacket) : MediaPacket :=
  { (MediaPacket.new .media .video 0).set_metadata pNewPckt with
    type := .reset
    framestart := true
    frameend := true
    frame := .no_frame
    mux := .ES
    subframenumber := 0 }

def GOP_Splitter.split (s : GOP_Splitter) (pNewPckt : MediaPacket) : GOP_Splitter :=
  { s.route s.iCount (pNewPckt.xroute+s.iCount) (resetPacket pNewPckt) with
    iCount := (s.iCount+1)%s.iSplit }

/-- The end of `receive`, where the route is changed. -/
def GOP_Splitter.send (s : GOP_Splitter) (pPckt : MediaPacket) : GOP_Splitter :=
  { s with iFrame := pPckt.framenumber }.route s.iCount (pPckt.xroute+s.iCount) pPckt

def GOP_Splitter.splitNext (s : GOP_Splitter) (pPckt : MediaPacket) : GOP_Splitter :=
  if 0 < s.iFrame ∧ pPckt.framenumber ≠ s.iFrame then s.split pPckt else s

/-- What the default case of the frames does. -/
def GOP_Splitter.sendSynced (s : GOP_Splitter) (pPckt : MediaPacket) : GOP_Splitter :=
  if s.bSync = true ∧ pPckt.key = false then { s with iFrame := pPckt.framenumber }
  else s.send pPckt

def GOP_Splitter.receive (s : GOP_Splitter) (pPckt : MediaPacket) : Except Error GOP_Splitter :=
  match pPckt.codec with
  | .avc | .svc | .mvc =>
    match pPckt.frame with
    | .PPS | .SPS | .IDR => .ok (({ s with bSync := false }.splitNext pPckt).sendSynced pPckt)
    | _ => .ok (s.sendSynced pPckt)
  | .mp1v | .mp2v | .mp4v =>
    if pPckt.frame = .I then .ok ((s.splitNext pPckt).send pPckt) else .ok (s.send pPckt)
  | codec => .error (.codecNotSupported codec)

/-- The copies for all routes, from route `i` on. -/
def GOP_Splitter.routeCopies (s : GOP_Splitter) (iRoute : ℤ) (pPckt : MediaPacket) :
    List ℕ → GOP_Splitter
  | [] => s
  | i::is => (s.route i (iRoute+i) pPckt).routeCopies iRoute pPckt is

def GOP_Splitter.closed (s : GOP_Splitter) : GOP_Splitter :=
  { s with iFrame := -1, iCount := (s.iCount+1)%s.iSplit }

def GOP_Splitter.receive_reset (s : GOP_Splitter) (pPckt : MediaPacket) : GOP_Splitter :=
  ((s.route s.iCount (pPckt.xroute+s.iCount) pPckt).routeCopies pPckt.xroute pPckt
    (List.range s.iSplit)).closed

def GOP_Splitter.receive_end (s : GOP_Splitter) (pPckt : MediaPacket) : GOP_Splitter :=
  ((s.route s.iCount (pPckt.xroute+s.iCount) { pPckt with type := .reset }).routeCopies
    pPckt.xroute pPckt (List.range s.iSplit)).closed

/-- A stream of video packets and the packet at its end. -/
def run (split : ℤ) (packets : List MediaPacket) (pEnd : MediaPacket) :
    Except Error GOP_Splitter := do
  let s ← GOP_Splitter.init split false
  let s ← packets.foldlM GOP_Splitter.receive s
  return s.receive_end pEnd

/-! ## GOPs -/

/-- Packets as a receiver of the routes sees them. -/
inductive Event
  | reset (xroute : ℤ)
  | finish (xroute : ℤ)
  | packet (xroute : ℤ) (pPckt : MediaPacket)

/-- The packets of the input are on the route `iRoute`; their numbers are looked at apart. -/
def event (iRoute : ℤ) (p : MediaPacket) : Event :=
  match p.type with
  | .reset => .reset p.xroute
  | .end => .finish p.xroute
  | .media => .packet p.xroute { p with xroute := iRoute, unitnumber := 0 }

def opensGOP (p : MediaPacket) : Bool := p.frame = .SPS ∨ p.frame = .PPS ∨ p.frame = .IDR

/-- Behind `past` the packet is the first of its frame that opens a GOP, and the frame is not the
first one. What is in front of the first such packet counts as a GOP. -/
def Starts (past : List MediaPacket) (p : MediaPacket) : Prop :=
  opensGOP p = true ∧ (∃ q ∈ past, q.framenumber ≠ p.framenumber) ∧
    ∀ q ∈ past, q.framenumber = p.framenumber → opensGOP q = false

instance (past : List MediaPacket) (p : MediaPacket) : Decidable (Starts past p) :=
  inferInstanceAs (Decidable (_ ∧ _))

def lastFrame (past : List MediaPacket) : ℤ := past.getLast?.elim (-1) fun q => q.framenumber

/-- Where the splitter sees the start of a GOP. -/
def Detected (past : List MediaPacket) (p : MediaPacket) : Prop :=
  opensGOP p = true ∧ 0 < lastFrame past ∧ p.framenumber ≠ lastFrame past

instance (past : List MediaPacket) (p : MediaPacket) : Decidable (Detected past p) :=
  inferInstanceAs (Decidable (_ ∧ _))

variable (P : List MediaPacket → MediaPacket → Prop) [∀ past p, Decidable (P past p)]

/-- The GOPs, cut where `P` says, go to the routes in turn: those of GOP `k` to `iRoute+k%n`. A
reset closes the route of a GOP before the next one, and in the end all routes are ended. -/
def gops (n : ℕ) (iRoute : ℤ) : List MediaPacket → ℕ → List MediaPacket → List Event
  | _, k, [] => .reset (iRoute+(k%n : ℕ))::(List.range n).map fun i : ℕ => .finish (iRoute+i)
  | past, k, p::ps =>
    if P past p then
      .reset (iRoute+(k%n : ℕ))::.packet (iRoute+((k+1)%n : ℕ)) { p with unitnumber := 0 }::
        gops n iRoute (past++[p]) (k+1) ps
    else .packet (iRoute+(k%n : ℕ)) { p with unitnumber := 0 }::gops n iRoute (past++[p]) k ps

def onRoute (xroute : ℤ) (routed : List MediaPacket) : List MediaPacket :=
  routed.filter fun p => decide (p.xroute = xroute)

/-- The units are numbered from 0. -/
def Consecutive (routed : List MediaPacket) : Prop :=
  routed.map (fun p => p.unitnumber) = (List.range routed.length).map Int.ofNat

/-- The GOPs go to `n` routes in turn, and the units of each route are numbered from 0. -/
def Splits (n : ℕ) (iRoute : ℤ) (packets : List MediaPacket) (r : Except Error GOP_Splitter) :
    Prop :=
  ∃ s, r = .ok s ∧ s.routed.map (event iRoute) = gops Starts n iRoute [] 0 packets ∧
    ∀ xroute, Consecutive (onRoute xroute s.routed)

/-- Video packets of one route, with frames of rising numbers. -/
structure Video (iRoute : ℤ) (packets : List MediaPacket) : Prop where
  codec : ∀ p ∈ packets, p.codec = .avc ∨ p.codec = .svc ∨ p.codec = .mvc
  type : ∀ p ∈ packets, p.type = .media
  xroute : ∀ p ∈ packets, p.xroute = iRoute
  frames : packets.Pairwise fun p q => p.framenumber ≤ q.framenumber
  nonneg : ∀ p ∈ packets, 0 ≤ p.framenumber

/-- Every GOP but the first starts with the first packet of its frame, and the frame before has
another number than 0. -/
def Clear (packets : List MediaPacket) : Prop :=
  ∀ past p rest, packets = past++p::rest → Starts past p →
    ∀ q, past.getLast? = some q → q.framenumber ≠ p.framenumber ∧ q.framenumber ≠ 0

/-! ## Units -/

variable {n k : ℕ} {iRoute : ℤ} {past packets : List MediaPacket} {s : GOP_Splitter}
  {p pEnd : MediaPacket}

/-- Each of the `n` routes has its count of units. -/
structure Numbered (n : ℕ) (iRoute : ℤ) (s : GOP_Splitter) : Prop where
  count : ∀ i, i < n → s.mUnit i = (onRoute (iRoute+i) s.routed).length
  units : ∀ xroute, Consecutive (onRoute xroute s.routed)

theorem route_routed (s : GOP_Splitter) (i : ℕ) (xroute : ℤ) (pPckt : MediaPacket) :
    (s.route i xroute pPckt).routed =
      s.routed++[numbered pPckt xroute (s.mUnit i)] := rfl

@[simp] theorem numbered_xroute (pPckt : MediaPacket) (xroute unitnumber : ℤ) :
    (numbered pPckt xroute unitnumber).xroute = xroute := rfl

@[simp] theorem numbered_unitnumber (pPckt : MediaPacket) (xroute unitnumber : ℤ) :
    (numbered pPckt xroute unitnumber).unitnumber = unitnumber := rfl

theorem onRoute_same {xroute : ℤ} (h : p.xroute = xroute) (routed : List MediaPacket) :
    onRoute xroute (routed++[p]) = onRoute xroute routed++[p] := by
  simp [onRoute, h]

theorem onRoute_other {xroute : ℤ} (h : p.xroute ≠ xroute) (routed : List MediaPacket) :
    onRoute xroute (routed++[p]) = onRoute xroute routed := by
  simp [onRoute, h]

theorem consecutive_snoc {routed : List MediaPacket} (h : Consecutive routed)
    (hp : p.unitnumber = routed.length) : Consecutive (routed++[p]) := by
  unfold Consecutive at h ⊢
  rw [List.map_append, h, List.length_append, List.length_singleton, List.range_succ,
    List.map_append, List.map_singleton, List.map_singleton, hp]
  rfl

theorem Numbered.route (h : Numbered n iRoute s) {i : ℕ} (hi : i < n) (pPckt : MediaPacket) :
    Numbered n iRoute (s.route i (iRoute+i) pPckt) := by
  constructor
  · intro j hj
    show Function.update s.mUnit i (s.mUnit i+1) j = _
    by_cases hji : j = i
    · subst hji
      rw [Function.update_self, route_routed, onRoute_same (numbered_xroute _ _ _),
        List.length_append, List.length_singleton, h.count j hi]
      push_cast
      rfl
    · rw [Function.update_of_ne hji, route_routed, onRoute_other, h.count j hj]
      rw [numbered_xroute]
      omega
  · intro xroute
    by_cases hx : iRoute+(i : ℤ) = xroute
    · rw [route_routed, onRoute_same hx]
      apply consecutive_snoc (h.units xroute)
      rw [numbered_unitnumber, ← hx]
      exact h.count i hi
    · rw [route_routed, onRoute_other hx]
      exact h.units xroute

theorem Numbered.routeCopies (h : Numbered n iRoute s) (pPckt : MediaPacket) {is : List ℕ}
    (his : ∀ i ∈ is, i < n) : Numbered n iRoute (s.routeCopies iRoute pPckt is) := by
  induction is generalizing s with
  | nil => exact h
  | cons i is ih =>
    exact ih (h.route (his i List.mem_cons_self) pPckt) fun j hj => his j (List.mem_cons_of_mem _ hj)

/-! ## Receiving -/

theorem copies_routed (s : GOP_Splitter) (pPckt : MediaPacket) (is : List ℕ)
    (hend : pPckt.type = .end) :
    (s.routeCopies iRoute pPckt is).routed.map (event iRoute) =
      s.routed.map (event iRoute)++is.map fun i : ℕ => .finish (iRoute+i) := by
  induction is generalizing s with
  | nil => rw [GOP_Splitter.routeCopies, List.map_nil, List.append_nil]
  | cons i is ih =>
    rw [GOP_Splitter.routeCopies, ih, route_routed, List.map_append, List.map_singleton,
      List.append_assoc, List.singleton_append, List.map_cons]
    simp only [event, numbered, hend]

theorem receive_eq (hcodec : p.codec = .avc ∨ p.codec = .svc ∨ p.codec = .mvc)
    (hsync : s.bSync = false) :
    s.receive p = .ok (if opensGOP p = true ∧ 0 < s.iFrame ∧ p.framenumber ≠ s.iFrame then
      (s.split p).send p else s.send p) := by
  have hset : { s with bSync := false } = s := by
    cases s
    simp only at hsync
    rw [hsync]
  have hsplit : (s.splitNext p).bSync = false := by
    unfold GOP_Splitter.splitNext
    split_ifs
    · exact hsync
    · exact hsync
  have hreceive : s.receive p = .ok (if opensGOP p = true then (s.splitNext p).sendSynced p
      else s.sendSynced p) := by
    unfold GOP_Splitter.receive opensGOP
    rw [hset]
    rcases hcodec with h | h | h <;> rw [h] <;> cases p.frame <;> rfl
  rw [hreceive]
  by_cases hopens : opensGOP p = true
  · rw [if_pos hopens, GOP_Splitter.sendSynced, if_neg (by simp [hsplit]), GOP_Splitter.splitNext]
    by_cases h : 0 < s.iFrame ∧ p.framenumber ≠ s.iFrame
    · rw [if_pos h, if_pos ⟨hopens, h⟩]
    · rw [if_neg h, if_neg fun hc => h hc.2]
  · rw [if_neg hopens, GOP_Splitter.sendSynced, if_neg (by simp [hsync]),
      if_neg fun hc => hopens hc.1]

/-- The splitter behind `past`, in GOP `k`. -/
structure At (n : ℕ) (iRoute : ℤ) (past : List MediaPacket) (k : ℕ) (s : GOP_Splitter) :
    Prop where
  split : s.iSplit = n
  count : s.iCount = k%n
  frame : s.iFrame = lastFrame past
  sync : s.bSync = false
  numbered : Numbered n iRoute s

theorem receive_at (h : At n iRoute past k s)
    (hcodec : p.codec = .avc ∨ p.codec = .svc ∨ p.codec = .mvc) :
    s.receive p = .ok (if Detected past p then (s.split p).send p else s.send p) := by
  rw [receive_eq hcodec h.sync, h.frame]
  by_cases hdetected : Detected past p
  · rw [if_pos hdetected]
    exact congrArg Except.ok (if_pos hdetected)
  · rw [if_neg hdetected]
    exact congrArg Except.ok (if_neg hdetected)

theorem lastFrame_snoc (past : List MediaPacket) (p : MediaPacket) :
    lastFrame (past++[p]) = p.framenumber := by
  rw [lastFrame, List.getLast?_append, List.getLast?_singleton]
  rfl

theorem at_send (hn : 0 < n) (h : At n iRoute past k s) (hroute : p.xroute = iRoute) :
    At n iRoute (past++[p]) k (s.send p) where
  split := h.split
  count := h.count
  frame := (lastFrame_snoc past p).symm
  sync := h.sync
  numbered := by
    have hroute' : s.send p =
        { s with iFrame := p.framenumber }.route s.iCount (iRoute+s.iCount) p := by
      rw [← hroute]
      rfl
    rw [hroute']
    have hnumbered : Numbered n iRoute { s with iFrame := p.framenumber } :=
      ⟨h.numbered.count, h.numbered.units⟩
    apply hnumbered.route
    rw [h.count]
    exact Nat.mod_lt k hn

theorem at_split (hn : 0 < n) (h : At n iRoute past k s) (hroute : p.xroute = iRoute) :
    At n iRoute past (k+1) (s.split p) where
  split := h.split
  count := by
    show (s.iCount+1)%s.iSplit = _
    rw [h.split, h.count, Nat.mod_add_mod]
  frame := h.frame
  sync := h.sync
  numbered := by
    have hnumbered := h.numbered.route (i := s.iCount) (by rw [h.count]; exact Nat.mod_lt k hn)
      (resetPacket p)
    rw [← hroute] at hnumbered ⊢
    exact ⟨hnumbered.count, hnumbered.units⟩

theorem send_events (h : At n iRoute past k s) (hroute : p.xroute = iRoute)
    (htype : p.type = .media) :
    (s.send p).routed.map (event iRoute) = s.routed.map (event iRoute)++
      [.packet (iRoute+(k%n : ℕ)) { p with unitnumber := 0 }] := by
  rw [GOP_Splitter.send, route_routed, List.map_append, List.map_singleton]
  simp only [event, numbered, htype, h.count, hroute]

theorem split_events (h : At n iRoute past k s) (hroute : p.xroute = iRoute) :
    (s.split p).routed.map (event iRoute) =
      s.routed.map (event iRoute)++[.reset (iRoute+(k%n : ℕ))] := by
  show (s.route s.iCount (p.xroute+s.iCount) (resetPacket p)).routed.map (event iRoute) = _
  rw [route_routed, List.map_append, List.map_singleton, h.count, hroute]
  rfl

theorem end_events (hn : 0 < n) (h : At n iRoute past k s) (hroute : pEnd.xroute = iRoute)
    (htype : pEnd.type = .end) :
    (s.receive_end pEnd).routed.map (event iRoute) = s.routed.map (event iRoute)++
      gops Detected n iRoute past k [] ∧ Numbered n iRoute (s.receive_end pEnd) := by
  have hi : s.iCount < n := by
    rw [h.count]
    exact Nat.mod_lt k hn
  constructor
  · show ((s.route s.iCount (pEnd.xroute+s.iCount) { pEnd with type := .reset }).routeCopies
      pEnd.xroute pEnd (List.range s.iSplit)).routed.map (event iRoute) = _
    rw [hroute, copies_routed _ _ _ htype, route_routed, List.map_append, List.map_singleton,
      h.count, h.split, List.append_assoc, List.singleton_append, gops]
    rfl
  · have his : ∀ i ∈ List.range s.iSplit, i < n := by
      intro i hi
      rwa [List.mem_range, h.split] at hi
    have hnumbered := (h.numbered.route hi { pEnd with type := .reset }).routeCopies pEnd his
    rw [← hroute] at hnumbered ⊢
    exact ⟨hnumbered.count, hnumbered.units⟩

theorem foldlM_events (hn : 0 < n) (h : At n iRoute past k s) (hroute : pEnd.xroute = iRoute)
    (htype : pEnd.type = .end) (hvideo : Video iRoute packets) :
    ∃ t, packets.foldlM GOP_Splitter.receive s = .ok t ∧
      (t.receive_end pEnd).routed.map (event iRoute) =
        s.routed.map (event iRoute)++gops Detected n iRoute past k packets ∧
      Numbered n iRoute (t.receive_end pEnd) := by
  induction packets generalizing past k s with
  | nil => exact ⟨s, rfl, end_events hn h hroute htype⟩
  | cons p ps ih =>
    have hxroute := hvideo.xroute p List.mem_cons_self
    have hmedia := hvideo.type p List.mem_cons_self
    have hrest : Video iRoute ps :=
      ⟨fun q hq => hvideo.codec q (List.mem_cons_of_mem _ hq),
        fun q hq => hvideo.type q (List.mem_cons_of_mem _ hq),
        fun q hq => hvideo.xroute q (List.mem_cons_of_mem _ hq),
        (List.pairwise_cons.mp hvideo.frames).2,
        fun q hq => hvideo.nonneg q (List.mem_cons_of_mem _ hq)⟩
    rw [List.foldlM_cons, receive_at h (hvideo.codec p List.mem_cons_self)]
    by_cases hdetected : Detected past p
    · rw [if_pos hdetected]
      have hsplit := at_split hn h hxroute
      obtain ⟨t, hok, hevents, hnumbered⟩ := ih (at_send hn hsplit hxroute) hrest
      refine ⟨t, hok, ?_, hnumbered⟩
      rw [hevents, send_events hsplit hxroute hmedia, split_events h hxroute, gops,
        if_pos hdetected, List.append_assoc, List.append_assoc]
      rfl
    · rw [if_neg hdetected]
      obtain ⟨t, hok, hevents, hnumbered⟩ := ih (at_send hn h hxroute) hrest
      refine ⟨t, hok, ?_, hnumbered⟩
      rw [hevents, send_events h hxroute hmedia, gops, if_neg hdetected, List.append_assoc]
      rfl

/-! ## What is missed -/

theorem gops_eq_iff {P Q : List MediaPacket → MediaPacket → Prop} [∀ past p, Decidable (P past p)]
    [∀ past p, Decidable (Q past p)] (n k : ℕ) (iRoute : ℤ) (past packets : List MediaPacket) :
    gops P n iRoute past k packets = gops Q n iRoute past k packets ↔
      ∀ a p b, packets = a++p::b → (P (past++a) p ↔ Q (past++a) p) := by
  induction packets generalizing past k with
  | nil =>
    constructor
    · intro _ a p b h
      exact absurd h.symm (List.append_ne_nil_of_right_ne_nil _ (List.cons_ne_nil _ _))
    · intro _
      rfl
  | cons p ps ih =>
    have hall : (∀ a q b, p::ps = a++q::b → (P (past++a) q ↔ Q (past++a) q)) ↔
        (P past p ↔ Q past p) ∧ ∀ a q b, ps = a++q::b →
          (P ((past++[p])++a) q ↔ Q ((past++[p])++a) q) := by
      constructor
      · intro h
        refine ⟨?_, ?_⟩
        · simpa using h [] p ps rfl
        · intro a q b hab
          have hnext := h (p::a) q b (by rw [hab, List.cons_append])
          rwa [List.append_assoc, List.singleton_append]
      · rintro ⟨hfirst, hrest⟩ a q b hab
        cases a with
        | nil =>
          rw [List.nil_append, List.cons.injEq] at hab
          rw [List.append_nil, ← hab.1]
          exact hfirst
        | cons r a =>
          rw [List.cons_append, List.cons.injEq] at hab
          have hnext := hrest a q b hab.2
          rwa [List.append_assoc, List.singleton_append, hab.1] at hnext
    rw [hall]
    by_cases hP : P past p <;> by_cases hQ : Q past p
    · rw [gops, gops, if_pos hP, if_pos hQ, List.cons_inj_right, List.cons_inj_right, ih]
      simp [hP, hQ]
    · rw [gops, gops, if_pos hP, if_neg hQ]
      simp [hP, hQ]
    · rw [gops, gops, if_neg hP, if_pos hQ]
      simp [hP, hQ]
    · rw [gops, gops, if_neg hP, if_neg hQ, List.cons_inj_right, ih]
      simp [hP, hQ]

theorem lastFrame_of {q : MediaPacket} (h : past.getLast? = some q) :
    lastFrame past = q.framenumber := by
  rw [lastFrame, h]
  rfl

/-- Frames follow each other, so a packet with another number than the last starts a frame. -/
theorem starts_of_detected {rest : List MediaPacket} (hvideo : Video iRoute (past++p::rest))
    (h : Detected past p) : Starts past p := by
  obtain ⟨hopens, hpos, hnew⟩ := h
  cases hlast : past.getLast? with
  | none =>
    rw [lastFrame, hlast] at hpos
    exact absurd hpos (by decide)
  | some l =>
    rw [lastFrame_of hlast] at hpos hnew
    have hmem := List.mem_of_getLast? hlast
    have horder := List.pairwise_append.mp hvideo.frames
    refine ⟨hopens, ⟨l, hmem, Ne.symm hnew⟩, ?_⟩
    intro q hq hsame
    exfalso
    obtain ⟨front, rfl⟩ := List.getLast?_eq_some_iff.mp hlast
    have hlp := horder.2.2 l hmem p List.mem_cons_self
    have hql : q.framenumber ≤ l.framenumber := by
      rcases List.mem_append.mp hq with hq | hq
      · exact (List.pairwise_append.mp horder.1).2.2 q hq l List.mem_cons_self
      · rw [List.mem_singleton.mp hq]
    omega

theorem clear_iff (hvideo : Video iRoute packets) :
    Clear packets ↔
      ∀ a p b, packets = a++p::b → (Detected ([]++a) p ↔ Starts ([]++a) p) := by
  constructor
  · intro hclear a p b hab
    rw [List.nil_append]
    constructor
    · rw [hab] at hvideo
      exact starts_of_detected hvideo
    · intro hstarts
      obtain ⟨q, hq, -⟩ := hstarts.2.1
      obtain ⟨l, hlast⟩ := List.getLast?_isSome.mpr (List.ne_nil_of_mem hq) |>
        Option.isSome_iff_exists.mp
      obtain ⟨hnew, hzero⟩ := hclear a p b hab hstarts l hlast
      have hmem : l ∈ packets := by
        rw [hab]
        exact List.mem_append_left _ (List.mem_of_getLast? hlast)
      have hnonneg := hvideo.nonneg l hmem
      refine ⟨hstarts.1, ?_, ?_⟩
      · rw [lastFrame_of hlast]
        omega
      · rw [lastFrame_of hlast]
        exact Ne.symm hnew
  · intro h past p rest hab hstarts q hlast
    have hdetected := (h past p rest hab).mpr hstarts
    rw [List.nil_append, Detected, lastFrame_of hlast] at hdetected
    exact ⟨Ne.symm hdetected.2.2, by omega⟩

theorem at_init (n : ℕ) (iRoute : ℤ) :
    At n iRoute [] 0 ⟨0, n, -1, fun _ => 0, false, []⟩ where
  split := rfl
  count := (Nat.zero_mod n).symm
  frame := rfl
  sync := rfl
  numbered := ⟨fun _ _ => rfl, fun _ => rfl⟩

theorem run_events {split : ℤ} (hsplit : 1 ≤ split) (hvideo : Video iRoute packets)
    (hroute : pEnd.xroute = iRoute) (htype : pEnd.type = .end) :
    ∃ s, run split packets pEnd = .ok s ∧
      s.routed.map (event iRoute) = gops Detected split.toNat iRoute [] 0 packets ∧
      Numbered split.toNat iRoute s := by
  obtain ⟨t, hok, hevents, hnumbered⟩ := foldlM_events (by omega)
    (at_init split.toNat iRoute) hroute htype hvideo
  refine ⟨t.receive_end pEnd, ?_, hevents, hnumbered⟩
  rw [run, GOP_Splitter.init, if_neg (by omega)]
  show (packets.foldlM GOP_Splitter.receive _ >>= _) = _
  rw [hok]
  rfl

/-- A start is missed behind frame 0, and behind another packet of its own frame. -/
theorem run_splits_iff {split : ℤ} (hsplit : 1 ≤ split) (hvideo : Video iRoute packets)
    (hroute : pEnd.xroute = iRoute) (htype : pEnd.type = .end) :
    Splits split.toNat iRoute packets (run split packets pEnd) ↔ Clear packets := by
  obtain ⟨s, hok, hevents, hnumbered⟩ := run_events hsplit hvideo hroute htype
  rw [clear_iff hvideo, ← gops_eq_iff split.toNat 0 iRoute [] packets, ← hevents]
  constructor
  · rintro ⟨t, hok', hgops, -⟩
    rw [hok] at hok'
    cases hok'
    exact hgops
  · intro hgops
    exact ⟨s, hok, hgops, hnumbered.units⟩

def videoPacket (frame : FrameType) (framenumber : ℤ) : MediaPacket :=
  { MediaPacket.new .media .video 0 with
    codec := .avc, frame := frame, framenumber := framenumber }

def endPacket : MediaPacket := MediaPacket.new .end .video 0

def vPackets : List MediaPacket :=
  [videoPacket .SPS 5, videoPacket .IDR 5, videoPacket .P 6, videoPacket .IDR 7]

def vFromZero : List MediaPacket := [videoPacket .IDR 0, videoPacket .IDR 1]

theorem vPackets_video : Video 0 vPackets where
  codec := by decide
  type := by decide
  xroute := by decide
  frames := by decide
  nonneg := by decide

theorem vFromZero_video : Video 0 vFromZero where
  codec := by decide
  type := by decide
  xroute := by decide
  frames := by decide
  nonneg := by decide

theorem vPackets_splits :
    Splits (2 : ℤ).toNat 0 vPackets (run 2 vPackets endPacket) ↔ Clear vPackets :=
  run_splits_iff (by decide) vPackets_video rfl rfl

/-- The second frame starts a GOP, but the frame before it has the number 0. -/
theorem vFromZero_missed : ¬ ∀ packets, Video 0 packets →
    Splits (2 : ℤ).toNat 0 packets (run 2 packets endPacket) := by
  intro h
  obtain ⟨s, hok, hgops, -⟩ := h vFromZero vFromZero_video
  obtain ⟨t, hok', hevents, -⟩ := run_events (show (1 : ℤ) ≤ 2 by decide) vFromZero_video
    (show endPacket.xroute = 0 from rfl) rfl
  rw [hok] at hok'
  cases hok'
  rw [hevents, gops_eq_iff] at hgops
  have hdetected := (hgops [videoPacket .IDR 0] (videoPacket .IDR 1) [] rfl).mpr (by decide)
  exact absurd hdetected (by decide)

end Sirannon.GOPSplitter
