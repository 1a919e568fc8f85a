import Mathlib.Data.Finset.Card
import Sirannon.Bits
import Sirannon.MediaPacket

/-!
# Joining a live stream

Until each stream of the source has shown a key frame, the packets are deferred
stream by stream. Then what comes before the last key frame of a stream is
dropped, and from there on all packets are handed on, their times being counted
from the first one.
-/

set_option autoImplicit false

namespace Sirannon.LiveReading
open Bits Media

/-! ## The reader -/

/-- A packet's descriptor is one of those that the container of its source holds. -/
structure SourceInterface where
  iSource : ℕ
  iDescriptors : ℕ
  positive : 0 < iDescriptors

/-- The conversions between the formats of frames, with what they keep between packets. -/
structure Conversions (σ : Type) where
  convertMP4 : σ → MediaPacket → Option MediaPacket × σ
  convertES : σ → MediaPacket → List MediaPacket × σ

/-- `pSource` is none until the first packet comes. -/
structure LiveReader (σ : Type) where
  pSource : Option SourceInterface
  vQueue : List MediaPacket
  dStreams : List (ℤ × List MediaPacket)
  dSync : Finset ℤ
  iBaseDts : ℤ
  iStartDts : ℤ
  bSync : Bool
  bMp4 : Bool
  oMP4 : σ
  routed : List MediaPacket

/-- Does a key frame begin with the packet? -/
def opens (pPckt : MediaPacket) : Bool := pPckt.key && pPckt.framestart

/-- `dStreams[xstream].push_back(pPckt)` in a map that is ordered by its keys. -/
def deferred (xstream : ℤ) (pPckt : MediaPacket) :
    List (ℤ × List MediaPacket) → List (ℤ × List MediaPacket)
  | [] => [(xstream, [pPckt])]
  | (i, oVector)::dStreams =>
    if xstream < i then (xstream, [pPckt])::(i, oVector)::dStreams
    else if xstream = i then (i, oVector++[pPckt])::dStreams
    else (i, oVector)::deferred xstream pPckt dStreams

/-- The backward search for a key frame below `n`. It ends at -1 if there is none. -/
def findKey (oVector : List MediaPacket) : ℕ → Option ℕ
  | 0 => none
  | j+1 =>
    match oVector[j]? with
    | none => findKey oVector j
    | some pSample => if opens pSample = true then some j else findKey oVector j

namespace LiveReader
variable {σ : Type}

def init (movFrame : Bool) (startDts : ℤ) (oMP4 : σ) : LiveReader σ where
  pSource := none
  vQueue := []
  dStreams := []
  dSync := ∅
  iBaseDts := -1
  iStartDts := startDts
  bSync := false
  bMp4 := movFrame
  oMP4 := oMP4
  routed := []

def enqueue (conversions : Conversions σ) (s : LiveReader σ) (pPckt : MediaPacket) :
    LiveReader σ :=
  match pPckt.codec with
  | .avc | .svc | .mvc | .mp4a =>
    if s.bMp4 = true ∧ pPckt.mux = .ES then
      let (pMerged, oMP4) := conversions.convertMP4 s.oMP4 pPckt
      { s with vQueue := s.vQueue ++ pMerged.toList, oMP4 := oMP4 }
    else if s.bMp4 = false ∧ pPckt.mux = .MOV then
      let (pPackets, oMP4) := conversions.convertES s.oMP4 pPckt
      { s with vQueue := s.vQueue ++ pPackets, oMP4 := oMP4 }
    else { s with vQueue := s.vQueue ++ [pPckt] }
  | _ => { s with vQueue := s.vQueue ++ [pPckt] }

/-- The base of the times, taken from the packet at `j`. -/
def based (s : LiveReader σ) (oVector : List MediaPacket) (j : Option ℕ) :
    Except SirannonException (LiveReader σ) :=
  if s.iBaseDts < 0 then
    match j.bind (oVector[·]?) with
    | none => .error (undefinedBehaviour "packet in front of the vector")
    | some pSample => .ok { s with iBaseDts := pSample.dts }
  else .ok s

/-- The loop over the streams. The index -1 is larger than any size when they are compared. -/
def release (conversions : Conversions σ) (s : LiveReader σ) :
    List (ℤ × List MediaPacket) → Except SirannonException (LiveReader σ)
  | [] => .ok s
  | (_, oVector)::dStreams => do
    let j := findKey oVector oVector.length
    let s ← s.based oVector j
    let s := match j with
      | none => s
      | some j => (oVector.drop j).foldl (enqueue conversions) s
    release conversions s dStreams

def link (s : LiveReader σ) (source : SourceInterface) : LiveReader σ :=
  { s with pSource := some source }

/-- `receive` behind the check of the source, which has `iDescriptors` streams. -/
def store (conversions : Conversions σ) (iDescriptors : ℕ) (s : LiveReader σ)
    (pPckt : MediaPacket) : Except SirannonException (LiveReader σ) :=
  if s.bSync = false then
    let s := if opens pPckt = true then { s with dSync := insert pPckt.xstream s.dSync } else s
    let s := { s with dStreams := deferred pPckt.xstream pPckt s.dStreams }
    if s.dSync.card = iDescriptors then do
      let s ← release conversions { s with bSync := true } s.dStreams
      return { s with dStreams := [] }
    else .ok s
  else .ok (s.enqueue conversions pPckt)

def receive (conversions : Conversions σ) (s : LiveReader σ) (source : SourceInterface)
    (pPckt : MediaPacket) : Except SirannonException (LiveReader σ) :=
  match s.pSource with
  | none => (s.link source).store conversions source.iDescriptors pPckt
  | some pSource =>
    if pSource.iSource ≠ source.iSource then
      .error (valueError "Descriptor is not the same for each packet")
    else s.store conversions pSource.iDescriptors pPckt

end LiveReader

/-- What `send` makes of a packet. -/
def restamped (iBaseDts iStartDts : ℤ) (pPckt : MediaPacket) : MediaPacket :=
  { pPckt with
    dts := if iBaseDts < pPckt.dts then pPckt.dts-iBaseDts+iStartDts else iStartDts
    pts := if iBaseDts < pPckt.pts then pPckt.pts-iBaseDts+iStartDts else iStartDts }

def LiveReader.process {σ : Type} (s : LiveReader σ) : LiveReader σ :=
  if s.bSync = false then s
  else { s with
    routed := s.routed ++ s.vQueue.map (restamped s.iBaseDts s.iStartDts), vQueue := [] }

/-! ## Runs -/

inductive Event
  | receive (pPckt : MediaPacket)
  | process

def arrivals (es : List Event) : List MediaPacket :=
  es.filterMap fun e => match e with
    | .receive pPckt => some pPckt
    | .process => none

def perform {σ : Type} (conversions : Conversions σ) (source : SourceInterface)
    (s : LiveReader σ) : Event → Except SirannonException (LiveReader σ)
  | .receive pPckt => s.receive conversions source pPckt
  | .process => .ok s.process

/-- The events one after the other, and the packets that are left sent in the end. -/
def runAll {σ : Type} (conversions : Conversions σ) (source : SourceInterface)
    (s : LiveReader σ) (es : List Event) : Except SirannonException (LiveReader σ) := do
  let s ← es.foldlM (perform conversions source) s
  return s.process

/-! ## What is to be handed on -/

def ofStream (x : ℤ) (ps : List MediaPacket) : List MediaPacket :=
  ps.filter fun p => p.xstream = x

/-- The streams that have shown the start of a key frame. -/
def shown (ps : List MediaPacket) : Finset ℤ :=
  ((ps.filter fun p => opens p = true).map (·.xstream)).toFinset

/-- How many packets have come when `n` streams have shown a key frame for the first time. -/
def moment (n : ℕ) (ps : List MediaPacket) : Option ℕ :=
  (List.range (ps.length+1)).find? fun m => n ≤ (shown (ps.take m)).card

/-- From the last start of a key frame on. -/
def fromLastKey : List MediaPacket → List MediaPacket
  | [] => []
  | p::ps => if ps.any opens = true then fromLastKey ps else if opens p = true then p::ps else []

/-- What is to be handed on of the stream, `m` being the moment of the synchronisation. -/
def expected (x : ℤ) (m : ℕ) (ps : List MediaPacket) : List MediaPacket :=
  fromLastKey (ofStream x (ps.take m)) ++ ofStream x (ps.drop m)

/-- The arrivals are joined as they should be. -/
def Joins {σ : Type} (conversions : Conversions σ) (source : SourceInterface) (startDts : ℤ)
    (oMP4 : σ) (es : List Event) : Prop :=
  ∃ s, runAll conversions source (.init false startDts oMP4) es = .ok s ∧
    s.bSync = (moment source.iDescriptors (arrivals es)).isSome ∧
    (moment source.iDescriptors (arrivals es) = none → s.routed = []) ∧
    ∀ m, moment source.iDescriptors (arrivals es) = some m → ∃ iBaseDts, ∀ x,
      ofStream x s.routed =
        (expected x m (arrivals es)).map (restamped iBaseDts startDts) ∧
      (∀ p ∈ ofStream x s.routed, startDts ≤ p.dts) ∧
      ((ofStream x (arrivals es)).Pairwise (fun p q => p.dts ≤ q.dts) →
        (ofStream x s.routed).Pairwise fun p q => p.dts ≤ q.dts)

/-- A stream without a key frame comes behind one whose last key frame has a time that is not
negative. -/
def Covered (qs : List MediaPacket) : Prop :=
  ∀ p ∈ qs, p.xstream ∉ shown qs →
    ∃ y < p.xstream, ∃ q ∈ (fromLastKey (ofStream y qs)).head?, 0 ≤ q.dts

/-! ## The last key frame -/

theorem findKey_cons (p : MediaPacket) (v : List MediaPacket) (n : ℕ) :
    findKey (p::v) (n+1) = match findKey v n with
      | some j => some (j+1)
      | none => if opens p = true then some 0 else none := by
  induction n with
  | zero => rfl
  | succ n ih =>
    rw [findKey, ih, List.getElem?_cons_succ, findKey]
    cases hget : v[n]? with
    | none => rfl
    | some q =>
      dsimp only
      by_cases hq : opens q = true
      · rw [if_pos hq, if_pos hq]
      · rw [if_neg hq, if_neg hq]

/-- The search ends in front of what is to be kept. -/
theorem findKey_last (v : List MediaPacket) :
    (findKey v v.length = none ∧ fromLastKey v = [] ∧ v.any opens = false) ∨
      ∃ j q, findKey v v.length = some j ∧ v[j]? = some q ∧ fromLastKey v = v.drop j ∧
        v.any opens = true := by
  induction v with
  | nil => exact Or.inl ⟨rfl, rfl, rfl⟩
  | cons p v ih =>
    rw [List.length_cons, findKey_cons, fromLastKey, List.any_cons]
    rcases ih with ⟨hfind, hkept, hany⟩ | ⟨j, q, hfind, hget, hkept, hany⟩
    · rw [hfind, hany, if_neg Bool.false_ne_true, Bool.or_false]
      by_cases hp : opens p = true
      · exact Or.inr ⟨0, p, if_pos hp, rfl, if_pos hp, hp⟩
      · exact Or.inl ⟨if_neg hp, if_neg hp, Bool.not_eq_true _ ▸ hp⟩
    · rw [hfind, hany, if_pos rfl, Bool.or_true]
      exact Or.inr ⟨j+1, q, rfl, hget, hkept, rfl⟩

/-! ## The release of the streams -/

namespace LiveReader
variable {σ : Type}

def queued (s : LiveReader σ) (ps : List MediaPacket) : LiveReader σ :=
  { s with vQueue := s.vQueue ++ ps }

def rebased (s : LiveReader σ) (iBaseDts : ℤ) : LiveReader σ := { s with iBaseDts := iBaseDts }

end LiveReader

section
variable {σ : Type} {conversions : Conversions σ} {s : LiveReader σ} {p : MediaPacket}
  {vs : List MediaPacket}

theorem queued_nil : s.queued [] = s := by
  rw [LiveReader.queued, List.append_nil]

theorem queued_queued (ps qs : List MediaPacket) :
    (s.queued ps).queued qs = s.queued (ps++qs) := by
  rw [LiveReader.queued, LiveReader.queued, LiveReader.queued, List.append_assoc]

theorem enqueue_plain (hmp4 : s.bMp4 = false) (hp : p.mux ≠ .MOV) :
    s.enqueue conversions p = s.queued [p] := by
  have hmerged : ¬(s.bMp4 = true ∧ p.mux = .ES) := by
    rw [hmp4]
    exact fun h => absurd h.1 Bool.false_ne_true
  have hparted : ¬(s.bMp4 = false ∧ p.mux = .MOV) := fun h => hp h.2
  rw [LiveReader.enqueue]
  simp only [if_neg hmerged, if_neg hparted]
  split
  all_goals rfl

theorem enqueue_all (hmp4 : s.bMp4 = false) (hvs : ∀ p ∈ vs, p.mux ≠ .MOV) :
    vs.foldl (LiveReader.enqueue conversions) s = s.queued vs := by
  induction vs generalizing s with
  | nil => exact queued_nil.symm
  | cons p vs ih =>
    have hrest : (s.queued [p]).bMp4 = false := hmp4
    rw [List.foldl_cons, enqueue_plain hmp4 (hvs p List.mem_cons_self),
      ih hrest fun q hq => hvs q (List.mem_cons_of_mem p hq), queued_queued]
    rfl

/-- The base of the times behind a stream of which these packets are kept. -/
def baseAfter (iBaseDts : ℤ) (kept : List MediaPacket) : ℤ :=
  match kept with
  | [] => iBaseDts
  | p::_ => if iBaseDts < 0 then p.dts else iBaseDts

/-- No stream without a key frame is met while there is no base. -/
def Based : ℤ → List (ℤ × List MediaPacket) → Prop
  | _, [] => True
  | iBaseDts, (_, oVector)::dStreams =>
    (fromLastKey oVector = [] → 0 ≤ iBaseDts) ∧
      Based (baseAfter iBaseDts (fromLastKey oVector)) dStreams

theorem based_kept {v : List MediaPacket} (h : fromLastKey v = [] → 0 ≤ s.iBaseDts) :
    s.based v (findKey v v.length) = .ok (s.rebased (baseAfter s.iBaseDts (fromLastKey v))) := by
  rw [LiveReader.based]
  rcases findKey_last v with ⟨hfind, hkept, -⟩ | ⟨j, q, hfind, hget, hkept, -⟩
  · rw [if_neg (not_lt.mpr (h hkept)), hkept]
    rfl
  · have hhead : v.drop j = q::v.drop (j+1) := by
      rcases List.getElem?_eq_some_iff.mp hget with ⟨hj, hq⟩
      rw [List.drop_eq_getElem_cons hj, hq]
    rw [hfind, Option.bind_some, hget, hkept, hhead, baseAfter]
    by_cases hbase : s.iBaseDts < 0
    · rw [if_pos hbase, if_pos hbase]
      rfl
    · rw [if_neg hbase, if_neg hbase]
      rfl

theorem release_loop {v : List MediaPacket} (hmp4 : s.bMp4 = false)
    (hmux : ∀ p ∈ v, p.mux ≠ .MOV) :
    (match findKey v v.length with
      | none => s
      | some j => (v.drop j).foldl (LiveReader.enqueue conversions) s) =
      s.queued (fromLastKey v) := by
  rcases findKey_last v with ⟨hfind, hkept, -⟩ | ⟨j, q, hfind, -, hkept, -⟩
  · rw [hfind, hkept, queued_nil]
  · rw [hfind, hkept]
    exact enqueue_all hmp4 fun p hp => hmux p (List.mem_of_mem_drop hp)

theorem release_based (conversions : Conversions σ) {dStreams : List (ℤ × List MediaPacket)}
    (hmp4 : s.bMp4 = false)
    (hmux : ∀ e ∈ dStreams, ∀ p ∈ e.2, p.mux ≠ .MOV) (h : Based s.iBaseDts dStreams) :
    ∃ iBaseDts, s.release conversions dStreams =
      .ok ((s.rebased iBaseDts).queued (dStreams.flatMap fun e => fromLastKey e.2)) := by
  induction dStreams generalizing s with
  | nil =>
    refine ⟨s.iBaseDts, ?_⟩
    rw [List.flatMap_nil, queued_nil]
    rfl
  | cons e dStreams ih =>
    rcases e with ⟨x, v⟩
    have hmp4' : (s.rebased (baseAfter s.iBaseDts (fromLastKey v))).bMp4 = false := hmp4
    have hbehind : ((s.rebased (baseAfter s.iBaseDts (fromLastKey v))).queued
        (fromLastKey v)).bMp4 = false := hmp4
    rcases ih hbehind (fun f hf => hmux f (List.mem_cons_of_mem _ hf)) h.2 with ⟨b, hb⟩
    refine ⟨b, ?_⟩
    rw [LiveReader.release, based_kept h.1]
    simp only [bind, Except.bind]
    rw [release_loop hmp4' (hmux (x, v) List.mem_cons_self), hb, List.flatMap_cons,
      ← queued_queued]
    rfl

theorem release_unbased (conversions : Conversions σ) {dStreams : List (ℤ × List MediaPacket)}
    (hmp4 : s.bMp4 = false)
    (hmux : ∀ e ∈ dStreams, ∀ p ∈ e.2, p.mux ≠ .MOV) (h : ¬Based s.iBaseDts dStreams) :
    ∃ e, s.release conversions dStreams = .error e := by
  induction dStreams generalizing s with
  | nil => exact absurd trivial h
  | cons e dStreams ih =>
    rcases e with ⟨x, v⟩
    rw [LiveReader.release]
    by_cases hhere : fromLastKey v = [] → 0 ≤ s.iBaseDts
    · have hmp4' : (s.rebased (baseAfter s.iBaseDts (fromLastKey v))).bMp4 = false := hmp4
      have hbehind : ((s.rebased (baseAfter s.iBaseDts (fromLastKey v))).queued
          (fromLastKey v)).bMp4 = false := hmp4
      rw [based_kept hhere]
      simp only [bind, Except.bind]
      rw [release_loop hmp4' (hmux (x, v) List.mem_cons_self)]
      exact ih hbehind (fun f hf => hmux f (List.mem_cons_of_mem _ hf))
        fun hrest => h ⟨hhere, hrest⟩
    · rw [Classical.not_imp, not_le] at hhere
      rcases findKey_last v with ⟨hfind, -⟩ | ⟨j, q, -, hget, hkept, -⟩
      · rw [LiveReader.based, if_pos hhere.2, hfind]
        exact ⟨_, rfl⟩
      · have hempty : v.drop j = [] := hkept.symm.trans hhere.1
        rw [List.drop_eq_nil_iff] at hempty
        rw [List.getElem?_eq_none hempty] at hget
        exact absurd hget (by simp)

/-- The base is found as soon as a key frame has a time that is not negative. -/
theorem based_iff {dStreams : List (ℤ × List MediaPacket)}
    (hsorted : dStreams.Pairwise fun e f => e.1 < f.1) (iBaseDts : ℤ) :
    Based iBaseDts dStreams ↔ ∀ e ∈ dStreams, fromLastKey e.2 = [] →
      0 ≤ iBaseDts ∨ ∃ f ∈ dStreams, f.1 < e.1 ∧ ∃ q ∈ (fromLastKey f.2).head?, 0 ≤ q.dts := by
  induction dStreams generalizing iBaseDts with
  | nil => exact ⟨fun _ e he => absurd he List.not_mem_nil, fun _ => trivial⟩
  | cons g dStreams ih =>
    rcases List.pairwise_cons.mp hsorted with ⟨hfirst, hrest⟩
    have hbase : 0 ≤ baseAfter iBaseDts (fromLastKey g.2) ↔
        0 ≤ iBaseDts ∨ ∃ q ∈ (fromLastKey g.2).head?, 0 ≤ q.dts := by
      cases fromLastKey g.2 with
      | nil => simp [baseAfter]
      | cons q qs =>
        show 0 ≤ (if iBaseDts < 0 then q.dts else iBaseDts) ↔ _
        rw [List.head?_cons]
        simp only [Option.mem_def, Option.some.injEq, exists_eq_left']
        split_ifs with hneg
        · exact ⟨Or.inr, fun h => h.resolve_left (not_le.mpr hneg)⟩
        · exact ⟨Or.inl, fun _ => not_lt.mp hneg⟩
    rw [Based, ih hrest]
    constructor
    · rintro ⟨hhere, hlater⟩ e he hkeyless
      rcases List.mem_cons.mp he with rfl | he
      · exact Or.inl (hhere hkeyless)
      · rcases hlater e he hkeyless with hpos | ⟨f, hf, hlow, hq⟩
        · rcases hbase.mp hpos with hpos | hq
          · exact Or.inl hpos
          · exact Or.inr ⟨g, List.mem_cons_self, hfirst e he, hq⟩
        · exact Or.inr ⟨f, List.mem_cons_of_mem g hf, hlow, hq⟩
    · intro h
      constructor
      · intro hkeyless
        rcases h g List.mem_cons_self hkeyless with hpos | ⟨f, hf, hlow, -⟩
        · exact hpos
        · rcases List.mem_cons.mp hf with rfl | hf
          · exact absurd hlow (lt_irrefl _)
          · exact absurd hlow (not_lt.mpr (hfirst f hf).le)
      · intro e he hkeyless
        rcases h e (List.mem_cons_of_mem g he) hkeyless with hpos | ⟨f, hf, hlow, hq⟩
        · exact Or.inl (hbase.mpr (Or.inl hpos))
        · rcases List.mem_cons.mp hf with rfl | hf
          · exact Or.inl (hbase.mpr (Or.inr hq))
          · exact Or.inr ⟨f, hf, hlow, hq⟩

end

/-! ## The deferred packets -/

/-- The streams are in order, each with its packets. -/
structure Deferred (ps : List MediaPacket) (dStreams : List (ℤ × List MediaPacket)) : Prop where
  sorted : dStreams.Pairwise fun e f => e.1 < f.1
  packets : ∀ e ∈ dStreams, e.2 = ofStream e.1 ps
  present : ∀ p ∈ ps, ∃ e ∈ dStreams, e.1 = p.xstream
  shown : ∀ e ∈ dStreams, ∃ p ∈ ps, p.xstream = e.1

section
variable {ps qs : List MediaPacket} {p : MediaPacket} {x : ℤ}
  {dStreams : List (ℤ × List MediaPacket)}

theorem ofStream_append (x : ℤ) (ps qs : List MediaPacket) :
    ofStream x (ps++qs) = ofStream x ps ++ ofStream x qs := List.filter_append ..

theorem ofStream_same (p : MediaPacket) : ofStream p.xstream [p] = [p] := by
  rw [ofStream, List.filter_cons_of_pos (by simp), List.filter_nil]

theorem ofStream_other (h : p.xstream ≠ x) : ofStream x [p] = [] := by
  rw [ofStream, List.filter_cons_of_neg (by simpa using h), List.filter_nil]

theorem ofStream_none (h : ∀ p ∈ ps, p.xstream ≠ x) : ofStream x ps = [] := by
  rw [ofStream, List.filter_eq_nil_iff]
  intro p hp
  simpa using h p hp

/-- Only the entry of the stream changes. -/
theorem mem_deferred (hsorted : dStreams.Pairwise fun e f => e.1 < f.1)
    {e : ℤ × List MediaPacket} (he : e ∈ deferred x p dStreams) :
    (e ∈ dStreams ∧ e.1 ≠ x) ∨ (∃ v, (x, v) ∈ dStreams ∧ e = (x, v++[p])) ∨
      ((∀ f ∈ dStreams, f.1 ≠ x) ∧ e = (x, [p])) := by
  induction dStreams with
  | nil => exact Or.inr (Or.inr ⟨fun f hf => absurd hf List.not_mem_nil, List.mem_singleton.mp he⟩)
  | cons f dStreams ih =>
    rcases f with ⟨y, v⟩
    rcases List.pairwise_cons.mp hsorted with ⟨hfirst, hrest⟩
    rw [deferred] at he
    by_cases hlow : x < y
    · have hall : ∀ f ∈ (y, v)::dStreams, f.1 ≠ x := by
        intro f hf
        rcases List.mem_cons.mp hf with rfl | hf
        · exact hlow.ne'
        · exact (hlow.trans (hfirst f hf)).ne'
      rw [if_pos hlow] at he
      rcases List.mem_cons.mp he with rfl | he
      · exact Or.inr (Or.inr ⟨hall, rfl⟩)
      · exact Or.inl ⟨he, hall e he⟩
    · rw [if_neg hlow] at he
      by_cases heq : x = y
      · subst heq
        rw [if_pos rfl] at he
        rcases List.mem_cons.mp he with rfl | he
        · exact Or.inr (Or.inl ⟨v, List.mem_cons_self, rfl⟩)
        · exact Or.inl ⟨List.mem_cons_of_mem _ he, (hfirst e he).ne'⟩
      · rw [if_neg heq] at he
        rcases List.mem_cons.mp he with rfl | he
        · exact Or.inl ⟨List.mem_cons_self, Ne.symm heq⟩
        · rcases ih hrest he with ⟨hmem, hne⟩ | ⟨w, hmem, rfl⟩ | ⟨hnone, rfl⟩
          · exact Or.inl ⟨List.mem_cons_of_mem _ hmem, hne⟩
          · exact Or.inr (Or.inl ⟨w, List.mem_cons_of_mem _ hmem, rfl⟩)
          · refine Or.inr (Or.inr ⟨?_, rfl⟩)
            intro f hf
            rcases List.mem_cons.mp hf with rfl | hf
            · exact Ne.symm heq
            · exact hnone f hf

theorem deferred_sorted (hsorted : dStreams.Pairwise fun e f => e.1 < f.1) :
    (deferred x p dStreams).Pairwise fun e f => e.1 < f.1 := by
  induction dStreams with
  | nil => exact List.pairwise_singleton ..
  | cons f dStreams ih =>
    rcases f with ⟨y, v⟩
    rcases List.pairwise_cons.mp hsorted with ⟨hfirst, hrest⟩
    rw [deferred]
    by_cases hlow : x < y
    · rw [if_pos hlow]
      refine List.pairwise_cons.mpr ⟨?_, hsorted⟩
      intro f hf
      rcases List.mem_cons.mp hf with rfl | hf
      · exact hlow
      · exact hlow.trans (hfirst f hf)
    · rw [if_neg hlow]
      by_cases heq : x = y
      · rw [if_pos heq]
        exact List.pairwise_cons.mpr ⟨hfirst, hrest⟩
      · rw [if_neg heq]
        refine List.pairwise_cons.mpr ⟨?_, ih hrest⟩
        intro f hf
        rcases mem_deferred hrest hf with ⟨hmem, -⟩ | ⟨w, hmem, rfl⟩ | ⟨-, rfl⟩
        · exact hfirst f hmem
        · exact hfirst (x, w) hmem
        · show y < x
          omega

theorem deferred_present (x : ℤ) (p : MediaPacket) (dStreams : List (ℤ × List MediaPacket)) :
    (∃ e ∈ deferred x p dStreams, e.1 = x) ∧
      ∀ f ∈ dStreams, ∃ e ∈ deferred x p dStreams, e.1 = f.1 := by
  induction dStreams with
  | nil => exact ⟨⟨_, List.mem_cons_self, rfl⟩, fun f hf => absurd hf List.not_mem_nil⟩
  | cons f dStreams ih =>
    rcases f with ⟨y, v⟩
    rw [deferred]
    by_cases hlow : x < y
    · rw [if_pos hlow]
      exact ⟨⟨_, List.mem_cons_self, rfl⟩, fun f hf => ⟨f, List.mem_cons_of_mem _ hf, rfl⟩⟩
    · rw [if_neg hlow]
      by_cases heq : x = y
      · rw [if_pos heq]
        refine ⟨⟨_, List.mem_cons_self, heq.symm⟩, ?_⟩
        intro f hf
        rcases List.mem_cons.mp hf with rfl | hf
        · exact ⟨_, List.mem_cons_self, rfl⟩
        · exact ⟨f, List.mem_cons_of_mem _ hf, rfl⟩
      · rw [if_neg heq]
        rcases ih with ⟨⟨e, he, hx⟩, hall⟩
        refine ⟨⟨e, List.mem_cons_of_mem _ he, hx⟩, ?_⟩
        intro f hf
        rcases List.mem_cons.mp hf with rfl | hf
        · exact ⟨_, List.mem_cons_self, rfl⟩
        · rcases hall f hf with ⟨g, hg, hkey⟩
          exact ⟨g, List.mem_cons_of_mem _ hg, hkey⟩

theorem deferred_more (h : Deferred ps dStreams) (p : MediaPacket) :
    Deferred (ps++[p]) (deferred p.xstream p dStreams) where
  sorted := deferred_sorted h.sorted
  packets := by
    intro e he
    rw [ofStream_append]
    rcases mem_deferred h.sorted he with ⟨hmem, hne⟩ | ⟨v, hmem, rfl⟩ | ⟨hnone, rfl⟩
    · rw [ofStream_other hne.symm, List.append_nil, h.packets e hmem]
    · show v++[p] = _
      rw [ofStream_same, ← h.packets (p.xstream, v) hmem]
    · have hnew : ∀ q ∈ ps, q.xstream ≠ p.xstream := by
        intro q hq
        rcases h.present q hq with ⟨f, hf, hkey⟩
        rw [← hkey]
        exact hnone f hf
      rw [ofStream_same, ofStream_none hnew, List.nil_append]
  present := by
    intro q hq
    rcases deferred_present p.xstream p dStreams with ⟨hnew, hold⟩
    rcases List.mem_append.mp hq with hq | hq
    · rcases h.present q hq with ⟨f, hf, hkey⟩
      rw [← hkey]
      exact hold f hf
    · rwa [List.mem_singleton.mp hq]
  shown := by
    intro e he
    rcases mem_deferred h.sorted he with ⟨hmem, -⟩ | ⟨v, -, rfl⟩ | ⟨-, rfl⟩
    · rcases h.shown e hmem with ⟨q, hq, hkey⟩
      exact ⟨q, List.mem_append_left _ hq, hkey⟩
    · exact ⟨p, List.mem_append_right _ List.mem_cons_self, rfl⟩
    · exact ⟨p, List.mem_append_right _ List.mem_cons_self, rfl⟩

theorem fromLastKey_mem {v : List MediaPacket} (h : p ∈ fromLastKey v) : p ∈ v := by
  rcases findKey_last v with ⟨-, hkept, -⟩ | ⟨j, q, -, -, hkept, -⟩
  · rw [hkept] at h
    exact absurd h List.not_mem_nil
  · rw [hkept] at h
    exact List.mem_of_mem_drop h

theorem fromLastKey_nil {v : List MediaPacket} : fromLastKey v = [] ↔ v.any opens = false := by
  rcases findKey_last v with ⟨-, hkept, hany⟩ | ⟨j, q, -, hget, hkept, hany⟩
  · exact ⟨fun _ => hany, fun _ => hkept⟩
  · constructor
    · intro hnil
      have hempty := List.drop_eq_nil_iff.mp (hkept.symm.trans hnil)
      rw [List.getElem?_eq_none hempty] at hget
      exact absurd hget (by simp)
    · intro hnone
      exact absurd (hany.symm.trans hnone) (by simp)

section
variable {kept : ℤ × List MediaPacket → List MediaPacket}

theorem ofStream_entries_none (hkept : ∀ e ∈ dStreams, ∀ p ∈ kept e, p.xstream = e.1)
    (hnone : ∀ e ∈ dStreams, e.1 ≠ x) : ofStream x (dStreams.flatMap kept) = [] := by
  apply ofStream_none
  intro p hp
  rcases List.mem_flatMap.mp hp with ⟨e, he, hp⟩
  rw [hkept e he p hp]
  exact hnone e he

theorem ofStream_entries (hsorted : dStreams.Pairwise fun e f => e.1 < f.1)
    (hkept : ∀ e ∈ dStreams, ∀ p ∈ kept e, p.xstream = e.1) {e : ℤ × List MediaPacket}
    (he : e ∈ dStreams) : ofStream e.1 (dStreams.flatMap kept) = kept e := by
  induction hsorted with
  | nil => exact absurd he List.not_mem_nil
  | cons hfirst hrest ih =>
    rename_i f dStreams
    have hlater := fun g hg => hkept g (List.mem_cons_of_mem f hg)
    rw [List.flatMap_cons, ofStream_append]
    rcases List.mem_cons.mp he with rfl | he
    · have hown : ofStream e.1 (kept e) = kept e := by
        rw [ofStream, List.filter_eq_self]
        intro p hp
        simpa using hkept e List.mem_cons_self p hp
      rw [hown, ofStream_entries_none hlater fun g hg => (hfirst g hg).ne', List.append_nil]
    · have hother : ofStream e.1 (kept f) = [] := by
        apply ofStream_none
        intro p hp
        rw [hkept f List.mem_cons_self p hp]
        exact (hfirst e he).ne
      rw [hother, ih hlater he, List.nil_append]

end

/-- What is released of a stream. -/
theorem released_stream (h : Deferred ps dStreams) (x : ℤ) :
    ofStream x (dStreams.flatMap fun e => fromLastKey e.2) = fromLastKey (ofStream x ps) := by
  have hkept : ∀ e ∈ dStreams, ∀ p ∈ fromLastKey e.2, p.xstream = e.1 := by
    intro e he p hp
    have hmem := fromLastKey_mem hp
    rw [h.packets e he] at hmem
    simpa using (List.mem_filter.mp hmem).2
  by_cases hx : ∃ e ∈ dStreams, e.1 = x
  · rcases hx with ⟨e, he, rfl⟩
    rw [ofStream_entries h.sorted hkept he, h.packets e he]
  · have hnone : ∀ e ∈ dStreams, e.1 ≠ x := fun e he heq => hx ⟨e, he, heq⟩
    have hnew : ∀ p ∈ ps, p.xstream ≠ x := by
      intro p hp
      rcases h.present p hp with ⟨e, he, hkey⟩
      rw [← hkey]
      exact hnone e he
    rw [ofStream_entries_none hkept hnone, ofStream_none hnew]
    rfl

/-! ## The moment -/

theorem mem_shown : x ∈ shown ps ↔ (ofStream x ps).any opens = true := by
  rw [shown, List.mem_toFinset, List.mem_map, List.any_eq_true]
  constructor
  · rintro ⟨p, hp, rfl⟩
    rcases List.mem_filter.mp hp with ⟨hp, hopens⟩
    exact ⟨p, List.mem_filter.mpr ⟨hp, by simp⟩, by simpa using hopens⟩
  · rintro ⟨p, hp, hopens⟩
    rcases List.mem_filter.mp hp with ⟨hp, hx⟩
    exact ⟨p, List.mem_filter.mpr ⟨hp, by simpa using hopens⟩, by simpa using hx⟩

theorem shown_more (ps : List MediaPacket) (p : MediaPacket) :
    shown (ps++[p]) = if opens p = true then insert p.xstream (shown ps) else shown ps := by
  ext x
  rw [mem_shown, ofStream_append, List.any_append, Bool.or_eq_true, ← mem_shown]
  by_cases hx : p.xstream = x
  · subst hx
    rw [ofStream_same, List.any_cons, List.any_nil, Bool.or_false]
    by_cases hp : opens p = true
    · rw [if_pos hp, Finset.mem_insert]
      simp [hp]
    · rw [if_neg hp]
      simp [hp]
  · rw [ofStream_other hx, List.any_nil]
    by_cases hp : opens p = true
    · rw [if_pos hp, Finset.mem_insert]
      simp [Ne.symm hx]
    · rw [if_neg hp]
      simp

theorem shown_take (ps : List MediaPacket) (j : ℕ) : shown (ps.take j) ⊆ shown ps := by
  intro x hx
  rw [mem_shown, List.any_eq_true] at hx ⊢
  rcases hx with ⟨p, hp, hopens⟩
  rcases List.mem_filter.mp hp with ⟨hp, hx⟩
  exact ⟨p, List.mem_filter.mpr ⟨List.mem_of_mem_take hp, hx⟩, hopens⟩

theorem moment_none {n : ℕ} : moment n ps = none ↔ (shown ps).card < n := by
  rw [moment, List.find?_range_eq_none]
  constructor
  · intro h
    have hlast := h ps.length (Nat.lt_succ_self _)
    rw [List.take_length] at hlast
    simpa using hlast
  · intro h j hj
    have hle := (Finset.card_le_card (shown_take ps j)).trans_lt h
    simpa using hle

theorem moment_found {n : ℕ} (hbefore : (shown ps).card < n)
    (hhere : n ≤ (shown (ps++[p])).card) (rest : List MediaPacket) :
    moment n (ps++[p]++rest) = some (ps.length+1) := by
  rw [moment, List.find?_range_eq_some]
  have hlength : (ps++[p]).length = ps.length+1 := by rw [List.length_append]; rfl
  refine ⟨?_, ?_, ?_⟩
  · rw [← hlength, List.take_left]
    simpa using hhere
  · rw [List.mem_range, List.length_append, hlength]
    omega
  · intro j hj
    have hj : j ≤ ps.length := by omega
    have htake : (ps++[p]++rest).take j = ps.take j := by
      rw [List.append_assoc, List.take_append_of_le_length hj]
    have hle := (Finset.card_le_card (shown_take ps j)).trans_lt hbefore
    rw [htake]
    simpa using hle

end

/-! ## Before and behind the moment -/

structure Waiting {σ : Type} (source : SourceInterface) (startDts : ℤ) (ps : List MediaPacket)
    (s : LiveReader σ) : Prop where
  linked : s.pSource = none ∨ s.pSource = some source
  queue : s.vQueue = []
  routed : s.routed = []
  sync : s.bSync = false
  mp4 : s.bMp4 = false
  base : s.iBaseDts = -1
  start : s.iStartDts = startDts
  keys : s.dSync = shown ps
  streams : Deferred ps s.dStreams
  early : (shown ps).card < source.iDescriptors

structure Synced {σ : Type} (source : SourceInterface) (startDts iBaseDts : ℤ) (m : ℕ)
    (ps : List MediaPacket) (s : LiveReader σ) : Prop where
  linked : s.pSource = some source
  sync : s.bSync = true
  mp4 : s.bMp4 = false
  base : s.iBaseDts = iBaseDts
  start : s.iStartDts = startDts
  inside : m ≤ ps.length
  out : ∀ x, ofStream x (s.routed ++ s.vQueue.map (restamped iBaseDts startDts)) =
    (expected x m ps).map (restamped iBaseDts startDts)

section
variable {σ : Type} {conversions : Conversions σ} {source : SourceInterface}
  {startDts iBaseDts : ℤ} {m : ℕ} {ps : List MediaPacket} {p : MediaPacket} {s : LiveReader σ}

theorem ofStream_restamped (x : ℤ) (ps : List MediaPacket) :
    ofStream x (ps.map (restamped iBaseDts startDts)) =
      (ofStream x ps).map (restamped iBaseDts startDts) := by
  rw [ofStream, ofStream, List.filter_map]
  rfl

theorem based_covered {dStreams : List (ℤ × List MediaPacket)} (h : Deferred ps dStreams) :
    Based (-1) dStreams ↔ Covered ps := by
  rw [based_iff h.sorted]
  constructor
  · intro hbased p hp hkeyless
    rcases h.present p hp with ⟨e, he, hkey⟩
    have hnone : fromLastKey e.2 = [] := by
      rw [fromLastKey_nil, h.packets e he, hkey]
      exact Bool.not_eq_true _ ▸ mt mem_shown.mpr hkeyless
    rcases hbased e he hnone with hpos | ⟨f, hf, hlow, hq⟩
    · exact absurd hpos (by decide)
    · rw [h.packets f hf] at hq
      exact ⟨f.1, hkey ▸ hlow, hq⟩
  · intro hmet e he hnone
    rcases h.shown e he with ⟨p, hp, hkey⟩
    rw [fromLastKey_nil, h.packets e he, ← hkey] at hnone
    have hkeyless : p.xstream ∉ shown ps := by
      rw [mem_shown, hnone]
      exact Bool.false_ne_true
    rcases hmet p hp hkeyless with ⟨y, hlow, q, hq, hpos⟩
    have hq' : q ∈ ofStream y ps := fromLastKey_mem (List.mem_of_mem_head? hq)
    rcases List.mem_filter.mp hq' with ⟨hmem, hy⟩
    rcases h.present q hmem with ⟨f, hf, hfkey⟩
    have hfy : f.1 = y := hfkey.trans (by simpa using hy)
    refine Or.inr ⟨f, hf, ?_, q, ?_, hpos⟩
    · rw [hfy, ← hkey]
      exact hlow
    · rw [h.packets f hf, hfy]
      exact hq

theorem receive_store (h : s.pSource = none ∨ s.pSource = some source) :
    s.receive conversions source p =
      (s.link source).store conversions source.iDescriptors p := by
  rw [LiveReader.receive]
  rcases h with h | h
  · rw [h]
  · have hlink : s.link source = s := by rw [LiveReader.link, ← h]
    rw [h, hlink]
    exact if_neg (not_not.mpr rfl)

/-- The packet is deferred. -/
theorem store_deferred (h : Waiting source startDts ps s) (conversions : Conversions σ)
    (p : MediaPacket) : s.receive conversions source p =
      (let t := { s.link source with
        dSync := shown (ps++[p]), dStreams := deferred p.xstream p s.dStreams }
      if (shown (ps++[p])).card = source.iDescriptors then do
        let t ← LiveReader.release conversions { t with bSync := true } t.dStreams
        return { t with dStreams := [] }
      else .ok t) := by
  have hkeys : (if opens p = true then
      { s.link source with dSync := insert p.xstream (s.link source).dSync }
      else s.link source) = { s.link source with dSync := shown (ps++[p]) } := by
    rw [shown_more]
    split_ifs
    · rw [← h.keys]
      rfl
    · rw [← h.keys]
      rfl
  have hsync : (s.link source).bSync = false := h.sync
  rw [receive_store h.linked, LiveReader.store, if_pos hsync, hkeys]
  rfl

theorem waiting_more (h : Waiting source startDts ps s) (conversions : Conversions σ)
    (hcard : (shown (ps++[p])).card < source.iDescriptors) :
    ∃ t, s.receive conversions source p = .ok t ∧ Waiting source startDts (ps++[p]) t := by
  rw [store_deferred h]
  dsimp only
  rw [if_neg hcard.ne]
  exact ⟨_, rfl, Or.inr rfl, h.queue, h.routed, h.sync, h.mp4, h.base, h.start, rfl,
    deferred_more h.streams p, hcard⟩

theorem shown_card (ps : List MediaPacket) (p : MediaPacket) :
    (shown (ps++[p])).card ≤ (shown ps).card+1 := by
  rw [shown_more]
  split_ifs
  · exact Finset.card_insert_le _ _
  · exact Nat.le_succ _

/-- The packet with which the streams are released. -/
theorem waiting_last (h : Waiting source startDts ps s) (conversions : Conversions σ)
    (hmux : ∀ q ∈ ps++[p], q.mux ≠ .MOV)
    (hcard : source.iDescriptors ≤ (shown (ps++[p])).card) :
    (Covered (ps++[p]) → ∃ t iBaseDts, s.receive conversions source p = .ok t ∧
      Synced source startDts iBaseDts (ps.length+1) (ps++[p]) t) ∧
    (¬Covered (ps++[p]) → ∃ e, s.receive conversions source p = .error e) := by
  have hcard' : (shown (ps++[p])).card = source.iDescriptors := by
    have hstep := shown_card ps p
    have hearly := h.early
    omega
  have hstreams := deferred_more h.streams p
  have hparts : ∀ e ∈ deferred p.xstream p s.dStreams, ∀ q ∈ e.2, q.mux ≠ .MOV := by
    intro e he q hq
    rw [hstreams.packets e he] at hq
    exact hmux q (List.mem_filter.mp hq).1
  rw [store_deferred h]
  dsimp only
  rw [if_pos hcard', ← based_covered hstreams]
  generalize ht : ({ s.link source with
    dSync := shown (ps++[p]), dStreams := deferred p.xstream p s.dStreams,
    bSync := true } : LiveReader σ) = t
  have hmp4 : t.bMp4 = false := by
    rw [← ht]
    exact h.mp4
  have hbase : t.iBaseDts = -1 := by
    rw [← ht]
    exact h.base
  rw [← hbase]
  constructor
  · intro hbased
    rcases release_based conversions hmp4 hparts hbased with ⟨b, hb⟩
    rw [hb]
    refine ⟨{ (t.rebased b).queued _ with dStreams := [] }, b, rfl, ?_⟩
    subst ht
    refine ⟨rfl, rfl, h.mp4, rfl, h.start, by rw [List.length_append]; rfl, ?_⟩
    intro x
    have hrouted : (s.link source).routed = [] := h.routed
    have hqueue : (s.link source).vQueue = [] := h.queue
    have hlength : (ps++[p]).length = ps.length+1 := by rw [List.length_append]; rfl
    show ofStream x ((s.link source).routed ++ ((s.link source).vQueue ++ _).map _) = _
    rw [hrouted, hqueue, List.nil_append, List.nil_append, ofStream_restamped,
      released_stream hstreams, expected, ← hlength, List.take_length, List.drop_length]
    exact congrArg _ (List.append_nil _).symm
  · intro hbased
    rcases release_unbased conversions hmp4 hparts hbased with ⟨e, he⟩
    rw [he]
    exact ⟨e, rfl⟩

theorem expected_more (x : ℤ) (hm : m ≤ ps.length) (p : MediaPacket) :
    expected x m (ps++[p]) = expected x m ps ++ ofStream x [p] := by
  rw [expected, expected, List.take_append_of_le_length hm, List.drop_append_of_le_length hm,
    ofStream_append, List.append_assoc]

theorem synced_more (h : Synced source startDts iBaseDts m ps s) (conversions : Conversions σ)
    (hp : p.mux ≠ .MOV) :
    ∃ t, s.receive conversions source p = .ok t ∧
      Synced source startDts iBaseDts m (ps++[p]) t := by
  have hsync : ¬(s.link source).bSync = false := by
    show ¬s.bSync = false
    rw [h.sync]
    exact fun h => absurd h (by decide)
  rw [receive_store (Or.inr h.linked), LiveReader.store, if_neg hsync,
    enqueue_plain (s := s.link source) h.mp4 hp]
  refine ⟨_, rfl, rfl, h.sync, h.mp4, h.base, h.start, ?_, ?_⟩
  · rw [List.length_append]
    exact h.inside.trans (Nat.le_add_right _ _)
  · intro x
    show ofStream x (s.routed ++ (s.vQueue ++ [p]).map _) = _
    rw [List.map_append, ← List.append_assoc, ofStream_append, h.out x, ofStream_restamped,
      expected_more x h.inside, List.map_append]

/-- Once the streams are synchronised the queue is handed on. -/
theorem process_synced (h : s.bSync = true) : s.process = { s with
    routed := s.routed ++ s.vQueue.map (restamped s.iBaseDts s.iStartDts), vQueue := [] } := by
  rw [LiveReader.process, h, if_neg (by decide)]

theorem synced_process (h : Synced source startDts iBaseDts m ps s) :
    Synced source startDts iBaseDts m ps s.process ∧
      ∀ x, ofStream x s.process.routed =
        (expected x m ps).map (restamped iBaseDts startDts) := by
  rw [process_synced h.sync]
  have hout : ∀ x, ofStream x (s.routed ++ s.vQueue.map (restamped s.iBaseDts s.iStartDts)) =
      (expected x m ps).map (restamped iBaseDts startDts) := by
    intro x
    rw [← h.out x, h.base, h.start]
  refine ⟨⟨h.linked, h.sync, h.mp4, h.base, h.start, h.inside, ?_⟩, hout⟩
  intro x
  rw [List.map_nil, List.append_nil]
  exact hout x

theorem waiting_process (h : Waiting source startDts ps s) : s.process = s := by
  rw [LiveReader.process, if_pos h.sync]

/-! ## The whole run -/

theorem synced_run (h : Synced source startDts iBaseDts m ps s) (conversions : Conversions σ)
    {es : List Event} (hmux : ∀ q ∈ arrivals es, q.mux ≠ .MOV) :
    ∃ t, es.foldlM (perform conversions source) s = .ok t ∧
      Synced source startDts iBaseDts m (ps++arrivals es) t := by
  induction es generalizing s ps with
  | nil => exact ⟨s, rfl, by rw [arrivals, List.filterMap_nil, List.append_nil]; exact h⟩
  | cons e es ih =>
    cases e with
    | process =>
      rcases ih (synced_process h).1 hmux with ⟨t, ht, hdone⟩
      exact ⟨t, ht, hdone⟩
    | receive p =>
      rcases synced_more h conversions (hmux p List.mem_cons_self) with
        ⟨t, ht, hmore⟩
      rcases ih hmore fun q hq => hmux q (List.mem_cons_of_mem p hq) with ⟨u, hu, hdone⟩
      refine ⟨u, ?_, ?_⟩
      · rw [List.foldlM_cons, perform, ht]
        exact hu
      · rw [List.append_assoc] at hdone
        exact hdone

/-- The run goes on in order, or it stops at the moment of the synchronisation. -/
theorem waiting_run (h : Waiting source startDts ps s) (conversions : Conversions σ)
    (es : List Event) (hmux : ∀ q ∈ ps++arrivals es, q.mux ≠ .MOV) :
    (moment source.iDescriptors (ps++arrivals es) = none ∧
      ∃ t, es.foldlM (perform conversions source) s = .ok t ∧
        Waiting source startDts (ps++arrivals es) t) ∨
    ∃ m, moment source.iDescriptors (ps++arrivals es) = some m ∧
      (Covered ((ps++arrivals es).take m) → ∃ t iBaseDts,
        es.foldlM (perform conversions source) s = .ok t ∧
        Synced source startDts iBaseDts m (ps++arrivals es) t) ∧
      (¬Covered ((ps++arrivals es).take m) →
        ∃ e, es.foldlM (perform conversions source) s = .error e) := by
  induction es generalizing s ps with
  | nil =>
    rw [arrivals, List.filterMap_nil, List.append_nil]
    exact Or.inl ⟨moment_none.mpr h.early, s, rfl, h⟩
  | cons e es ih =>
    cases e with
    | process =>
      have hstay : ((Event.process::es).foldlM (perform conversions source) s) =
          es.foldlM (perform conversions source) s := by
        rw [List.foldlM_cons, perform, waiting_process h]
        rfl
      rw [hstay]
      exact ih h hmux
    | receive p =>
      have hparts : ps++arrivals (.receive p::es) = (ps++[p])++arrivals es :=
        List.append_cons ps p (arrivals es)
      rw [hparts] at hmux ⊢
      rw [List.foldlM_cons, perform]
      by_cases hcard : (shown (ps++[p])).card < source.iDescriptors
      · rcases waiting_more h conversions hcard with ⟨t, ht, hmore⟩
        rw [ht]
        exact ih hmore hmux
      · have hhere := not_lt.mp hcard
        have hlast := waiting_last h conversions
          (fun q hq => hmux q (List.mem_append_left _ hq)) hhere
        have hlength : (ps++[p]).length = ps.length+1 := by rw [List.length_append]; rfl
        refine Or.inr ⟨ps.length+1, moment_found h.early hhere _, ?_⟩
        rw [← hlength, List.take_left, hlength]
        constructor
        · intro hcovered
          rcases hlast.1 hcovered with ⟨t, b, ht, hsynced⟩
          rcases synced_run hsynced conversions
            fun q hq => hmux q (List.mem_append_right _ hq) with ⟨u, hu, hdone⟩
          rw [ht]
          exact ⟨u, b, hu, hdone⟩
        · intro hcovered
          rcases hlast.2 hcovered with ⟨e, he⟩
          rw [he]
          exact ⟨e, rfl⟩

theorem init_waiting (source : SourceInterface) (startDts : ℤ) (oMP4 : σ) :
    Waiting source startDts [] (LiveReader.init false startDts oMP4) where
  linked := Or.inl rfl
  queue := rfl
  routed := rfl
  sync := rfl
  mp4 := rfl
  base := rfl
  start := rfl
  keys := rfl
  streams := ⟨List.Pairwise.nil, by simp [LiveReader.init], by simp, by simp [LiveReader.init]⟩
  early := source.positive

theorem expected_sublist (x : ℤ) (m : ℕ) (ps : List MediaPacket) :
    (expected x m ps).Sublist (ofStream x ps) := by
  have hkept : (fromLastKey (ofStream x (ps.take m))).Sublist (ofStream x (ps.take m)) := by
    rcases findKey_last (ofStream x (ps.take m)) with ⟨-, hkept, -⟩ | ⟨j, q, -, -, hkept, -⟩
    · rw [hkept]
      exact List.nil_sublist _
    · rw [hkept]
      exact List.drop_sublist _ _
  have hall := hkept.append_right (ofStream x (ps.drop m))
  rwa [← ofStream_append, List.take_append_drop] at hall

theorem restamped_start (iBaseDts startDts : ℤ) (p : MediaPacket) :
    startDts ≤ (restamped iBaseDts startDts p).dts := by
  show startDts ≤ if iBaseDts < p.dts then _ else _
  split_ifs
  · omega
  · exact le_rfl

theorem restamped_mono {p q : MediaPacket} (h : p.dts ≤ q.dts) :
    (restamped iBaseDts startDts p).dts ≤ (restamped iBaseDts startDts q).dts := by
  show (if iBaseDts < p.dts then _ else _) ≤ if iBaseDts < q.dts then _ else _
  split_ifs
  all_goals omega

end

/-- Conversions that take nothing apart. -/
def plain : Conversions Unit where
  convertMP4 := fun _ p => (some p, ())
  convertES := fun _ p => ([p], ())

def picture (xstream dts : ℤ) (key : Bool) : MediaPacket :=
  { MediaPacket.new .media .video 0 with xstream := xstream, dts := dts, key := key }

def camera : SourceInterface := ⟨0, 1, by decide⟩

end Sirannon.LiveReading
