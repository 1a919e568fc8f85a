import Sirannon.HTTPRoundTrip
import Sirannon.MediaPacket

/-!
# Packets, frames or slices by their number

The classifier counts the units of a stream and picks out those whose number is
in its list. Where a unit begins is seen from the frame and subframe numbers,
and the list is consumed on the way.
-/

set_option autoImplicit false

namespace Sirannon.FixedClassification
open Bits HTTP HTTPConnection Media MachineInt

/-! ## The classifier -/

inductive Mode
  | FRAME | SLICE | PACKET
  deriving DecidableEq, Repr

def IsSlice (pPckt : MediaPacket) : Bool :=
  match pPckt.frame with
  | .IDR | .I | .SI | .EI | .P | .SP | .EP | .B | .EB | .BI | .BP | .BB | .CI | .CP | .CB => true
  | .SPS | .E | .ESPS | .PPS | .SEI | .AUD | .AUDH | .other | .no_frame => false

structure Counter where
  iCount : ℤ
  iLastFrame : ℤ
  iLastSubframe : ℤ
  deriving DecidableEq, Repr

/-- `classified` records for each packet whether it was picked out. -/
structure FixedClassifier extends Counter where
  bDiscard : Bool
  iRoute : ℤ
  iMode : Mode
  values : List ℤ
  routed : List MediaPacket
  classified : List Bool

def splitLoop (delimiter : UInt8) : ℕ → Bytes → List Bytes
  | 0, _ => []
  | fuel+1, str =>
    match str.dropWhile (· = delimiter) with
    | [] => []
    | b::str =>
      (b::str).takeWhile (· ≠ delimiter) ::
        splitLoop delimiter fuel ((b::str).dropWhile (· ≠ delimiter))

/-- The parts of a text between its delimiters. -/
def split (str : Bytes) (delimiter : UInt8) : List Bytes :=
  splitLoop delimiter (str.length+1) str

def comma : UInt8 := 44

def fresh : Counter := ⟨-1, -1, -1⟩

namespace FixedClassifier

def init (discard : Bool) (xroute : ℤ) (mode values : Bytes) : FixedClassifier where
  toCounter := fresh
  bDiscard := discard
  iRoute := xroute
  iMode :=
    if mode = ascii "packet" then .PACKET
    else if mode = ascii "slice" then .SLICE
    else .FRAME
  values := if values.length ≠ 0 then (split values comma).map atoi else []
  routed := []
  classified := []

end FixedClassifier

def handedOn (discard : Bool) (xroute : ℤ) (pPckt : MediaPacket) (bClassify : Bool) :
    List MediaPacket :=
  if bClassify = true then
    if discard = true then [] else [{ pPckt with xroute := pPckt.xroute+xroute }]
  else [pPckt]

/-- The part of `receive` that counts. -/
def count (iMode : Mode) (pPckt : MediaPacket) (k : Counter) : Counter :=
  match iMode with
  | .PACKET => { k with iCount := k.iCount+1 }
  | .FRAME =>
    let k := if pPckt.framenumber ≠ k.iLastFrame then { k with iCount := k.iCount+1 } else k
    { k with iLastFrame := pPckt.framenumber }
  | .SLICE =>
    let k :=
      if pPckt.framenumber ≠ k.iLastFrame ∨ pPckt.subframenumber ≠ k.iLastSubframe then
        if pPckt.codec.isIn familyH264 = false ∨ IsSlice pPckt = true then
          { k with iCount := k.iCount+1 }
        else k
      else k
    { k with iLastSubframe := pPckt.subframenumber, iLastFrame := pPckt.framenumber }

namespace FixedClassifier

def classify (s : FixedClassifier) (pPckt : MediaPacket) (bClassify : Bool) : FixedClassifier :=
  { s with
    routed := s.routed ++ handedOn s.bDiscard s.iRoute pPckt bClassify
    classified := s.classified ++ [bClassify] }

def receive (s : FixedClassifier) (pPckt : MediaPacket) : FixedClassifier :=
  if s.values = [] then s.classify pPckt false
  else
    let s := { s with toCounter := count s.iMode pPckt s.toCounter }
    let s := { s with values := s.values.dropWhile (· < s.iCount) }
    if s.values.head? = some s.iCount then s.classify pPckt true else s.classify pPckt false

end FixedClassifier

/-! ## Units -/

/-- Do the packets belong to the same unit, by their numbers? -/
def Together (iMode : Mode) (p q : MediaPacket) : Prop :=
  match iMode with
  | .PACKET => False
  | .FRAME => p.framenumber = q.framenumber
  | .SLICE => p.framenumber = q.framenumber ∧ p.subframenumber = q.subframenumber

/-- In an H.264 stream only NAL units with picture data are slices. -/
def isUnit (iMode : Mode) (p : MediaPacket) : Bool :=
  match iMode with
  | .PACKET | .FRAME => true
  | .SLICE => !p.codec.isIn familyH264 || IsSlice p

def counted (iMode : Mode) (u : List MediaPacket) : Bool := u.any (isUnit iMode)

/-- The packets of a unit come one after the other. -/
structure Divided (iMode : Mode) (us : List (List MediaPacket)) : Prop where
  nonempty : ∀ u ∈ us, u ≠ []
  together : ∀ u ∈ us, u.Pairwise fun p q => Together iMode p q ∧ isUnit iMode p = isUnit iMode q
  apart : us.IsChain fun u v => ∀ p ∈ u, ∀ q ∈ v, ¬Together iMode p q

/-- The packets of the listed units, `k` being the number of units before. -/
def expected (iMode : Mode) (listed : List ℕ) : ℕ → List (List MediaPacket) → List Bool
  | _, [] => []
  | k, u::us =>
    if counted iMode u = true then
      List.replicate u.length (decide (k ∈ listed)) ++ expected iMode listed (k+1) us
    else List.replicate u.length false ++ expected iMode listed k us

def modeText : Mode → Bytes
  | .FRAME => ascii "frame"
  | .SLICE => ascii "slice"
  | .PACKET => ascii "packet"

/-- The list as the user writes it. -/
def listText (listed : List ℕ) : Bytes :=
  [comma].intercalate (listed.map fun k => ascii (toString k))

/-- Exactly the packets of the listed units are picked out. -/
def PicksListed (discard : Bool) (xroute : ℤ) (iMode : Mode) (listed : List ℕ)
    (us : List (List MediaPacket)) : Prop :=
  let s := us.flatten.foldl FixedClassifier.receive
    (.init discard xroute (modeText iMode) (listText listed))
  s.classified = expected iMode listed 0 us ∧
    s.routed =
      (List.zipWith (handedOn discard xroute) us.flatten (expected iMode listed 0 us)).flatten

/-- The first packet counts, but has the numbers that stand for no packet. -/
def Missed (iMode : Mode) (ps : List MediaPacket) : Prop :=
  ∃ p ∈ ps.head?, isUnit iMode p = true ∧
    match iMode with
    | .PACKET => False
    | .FRAME => p.framenumber = -1
    | .SLICE => p.framenumber = -1 ∧ p.subframenumber = -1

/-- No unit that does not count follows where the last one that counts is listed. -/
def Unfollowed (iMode : Mode) (listed : List ℕ) (us : List (List MediaPacket)) : Prop :=
  ∀ past u rest, us = past++u::rest → counted iMode u = false →
    ∀ k ∈ listed, past.countP (counted iMode) ≠ k+1

/-! ## What the list says -/

theorem part_plain {d : UInt8} {t : Bytes} (ht : t ≠ []) (hplain : d ∉ t) (rest : Bytes) :
    (t++rest).dropWhile (· = d) = t++rest ∧ ∀ b ∈ t, decide (b ≠ d) = true := by
  have hother : ∀ b ∈ t, decide (b ≠ d) = true := by
    intro b hb
    rw [decide_eq_true_eq]
    rintro rfl
    exact hplain hb
  rcases List.exists_cons_of_ne_nil ht with ⟨b, t, rfl⟩
  have hfront := hother b List.mem_cons_self
  refine ⟨?_, hother⟩
  rw [List.cons_append]
  exact List.dropWhile_cons_of_neg (by simpa using hfront)

theorem splitLoop_step {d : UInt8} {t : Bytes} (ht : t ≠ []) (hplain : d ∉ t) (rest : Bytes)
    (fuel : ℕ) :
    splitLoop d (fuel+1) (t++rest) = (t++rest).takeWhile (· ≠ d) ::
      splitLoop d fuel ((t++rest).dropWhile (· ≠ d)) := by
  rw [splitLoop, (part_plain ht hplain rest).1]
  rcases List.exists_cons_of_ne_nil ht with ⟨b, t, rfl⟩
  rfl

theorem splitLoop_cons {d : UInt8} {t : Bytes} (ht : t ≠ []) (hplain : d ∉ t) (rest : Bytes)
    (fuel : ℕ) : splitLoop d (fuel+1) (t++d::rest) = t::splitLoop d fuel (d::rest) := by
  have hother := (part_plain ht hplain rest).2
  rw [splitLoop_step ht hplain, List.takeWhile_append_of_pos hother,
    List.dropWhile_append_of_pos hother, List.takeWhile_cons_of_neg (by simp),
    List.dropWhile_cons_of_neg (by simp), List.append_nil]

theorem splitLoop_last {d : UInt8} {t : Bytes} (ht : t ≠ []) (hplain : d ∉ t) (fuel : ℕ) :
    splitLoop d (fuel+1) t = [t] := by
  have hother := (part_plain ht hplain []).2
  have hstep := splitLoop_step ht hplain [] fuel
  rw [List.append_nil, List.takeWhile_eq_self_iff.mpr hother,
    List.dropWhile_eq_nil_iff.mpr hother] at hstep
  rw [hstep]
  cases fuel with
  | zero => rfl
  | succ fuel => rfl

theorem splitLoop_delimiter (d : UInt8) (s : Bytes) (fuel : ℕ) :
    splitLoop d fuel (d::s) = splitLoop d fuel s := by
  cases fuel with
  | zero => rfl
  | succ fuel => rw [splitLoop, splitLoop, List.dropWhile_cons_of_pos (by simp)]

theorem splitLoop_joined {d : UInt8} {ts : List Bytes} (hts : ∀ t ∈ ts, t ≠ [] ∧ d ∉ t)
    {fuel : ℕ} (hfuel : ([d].intercalate ts).length < fuel) :
    splitLoop d fuel ([d].intercalate ts) = ts := by
  induction ts generalizing fuel with
  | nil =>
    cases fuel with
    | zero => rfl
    | succ fuel => rfl
  | cons t ts ih =>
    have ht := hts t List.mem_cons_self
    have hrest := fun u hu => hts u (List.mem_cons_of_mem t hu)
    rcases fuel with - | fuel
    · exact absurd hfuel (Nat.not_lt_zero _)
    cases ts with
    | nil =>
      rw [List.intercalate_singleton]
      exact splitLoop_last ht.1 ht.2 fuel
    | cons u ts =>
      rw [List.intercalate_cons_cons, List.append_assoc, List.length_append] at hfuel
      rw [List.intercalate_cons_cons, List.append_assoc, List.singleton_append,
        splitLoop_cons ht.1 ht.2, splitLoop_delimiter]
      rw [ih hrest]
      rw [List.singleton_append, List.length_cons] at hfuel
      omega

theorem number_text {k : ℕ} (hk : k < 2^31) :
    ascii (toString k) ≠ [] ∧ comma ∉ ascii (toString k) ∧ atoi (ascii (toString k)) = k := by
  have hword := toString_digits k
  refine ⟨hword.nonempty, ?_, ?_⟩
  · intro h
    exact absurd (hword.chars comma h) (by decide)
  · rw [decimal_digits hword.chars (by rwa [decimal_toString]), decimal_toString]

theorem init_values (discard : Bool) (xroute : ℤ) (mode : Bytes) {listed : List ℕ}
    (hsmall : ∀ k ∈ listed, k < 2^31) :
    (FixedClassifier.init discard xroute mode (listText listed)).values = listed.map Nat.cast := by
  have hparts : split (listText listed) comma = listed.map fun k => ascii (toString k) := by
    rw [split, listText]
    apply splitLoop_joined
    · intro t ht
      rcases List.mem_map.mp ht with ⟨k, hk, rfl⟩
      exact ⟨(number_text (hsmall k hk)).1, (number_text (hsmall k hk)).2.1⟩
    · exact Nat.lt_succ_self _
  have hvalues : (split (listText listed) comma).map atoi = listed.map Nat.cast := by
    rw [hparts, List.map_map]
    apply List.map_congr_left
    intro k hk
    exact (number_text (hsmall k hk)).2.2
  show (if _ then _ else _) = _
  by_cases hlength : (listText listed).length ≠ 0
  · rw [if_pos hlength, hvalues]
  · rw [if_neg hlength, ← hvalues, List.length_eq_zero_iff.mp (not_not.mp hlength)]
    rfl

theorem init_mode (discard : Bool) (xroute : ℤ) (iMode : Mode) (values : Bytes) :
    (FixedClassifier.init discard xroute (modeText iMode) values).iMode = iMode := by
  show (if modeText iMode = ascii "packet" then Mode.PACKET
    else if modeText iMode = ascii "slice" then .SLICE else .FRAME) = iMode
  cases iMode with
  | FRAME => rw [if_neg (by decide +kernel), if_neg (by decide +kernel)]
  | SLICE =>
    rw [if_neg (by decide +kernel)]
    exact if_pos rfl
  | PACKET => exact if_pos rfl

/-! ## The list is consumed behind the counter -/

/-- What is picked out when the list is never used up. -/
def flags (iMode : Mode) (values : List ℤ) : Counter → List MediaPacket → List Bool
  | _, [] => []
  | k, p::ps =>
    decide ((count iMode p k).iCount ∈ values) :: flags iMode values (count iMode p k) ps

/-- The counter of an empty list stands still. -/
structure At (L : List ℤ) (k : Counter) (s : FixedClassifier) : Prop where
  values : s.values = L.filter (k.iCount ≤ ·)
  counter : s.values ≠ [] → s.toCounter = k

section
variable {L : List ℤ} {k : Counter} {s : FixedClassifier} {p : MediaPacket}

theorem count_mono (iMode : Mode) (p : MediaPacket) (k : Counter) :
    k.iCount ≤ (count iMode p k).iCount := by
  cases iMode with
  | PACKET =>
    show k.iCount ≤ k.iCount+1
    omega
  | FRAME =>
    rw [count]
    dsimp only
    split_ifs
    · show k.iCount ≤ k.iCount+1
      omega
    · exact le_rfl
  | SLICE =>
    rw [count]
    dsimp only
    split_ifs
    · show k.iCount ≤ k.iCount+1
      omega
    · exact le_rfl
    · exact le_rfl

theorem dropWhile_filter (hL : L.Pairwise (· < ·)) (c : ℤ) :
    L.dropWhile (· < c) = L.filter (c ≤ ·) := by
  induction hL with
  | nil => rfl
  | cons hv hL ih =>
    rename_i v L
    by_cases hlow : v < c
    · rw [List.dropWhile_cons_of_pos (by simpa using hlow), ih,
        List.filter_cons_of_neg (by simpa using hlow)]
    · have hall : (v::L).filter (c ≤ ·) = v::L := by
        rw [List.filter_eq_self]
        intro w hw
        rw [decide_eq_true_eq]
        rcases List.mem_cons.mp hw with rfl | hw
        · exact not_lt.mp hlow
        · exact (not_lt.mp hlow).trans (hv w hw).le
      rw [List.dropWhile_cons_of_neg (by simpa using hlow), hall]

theorem head_listed (hL : L.Pairwise (· < ·)) (c : ℤ) :
    (L.filter (c ≤ ·)).head? = some c ↔ c ∈ L := by
  constructor
  · intro hhead
    exact (List.mem_filter.mp (List.mem_of_mem_head? hhead)).1
  · intro hc
    cases hfilter : L.filter (c ≤ ·) with
    | nil =>
      have hmem : c ∈ L.filter (c ≤ ·) := List.mem_filter.mpr ⟨hc, by simp⟩
      rw [hfilter] at hmem
      exact absurd hmem List.not_mem_nil
    | cons v vs =>
      have hmem : c ∈ v::vs := by
        rw [← hfilter]
        exact List.mem_filter.mpr ⟨hc, by simp⟩
      have hv : c ≤ v := by
        have hv : v ∈ L.filter (c ≤ ·) := by
          rw [hfilter]
          exact List.mem_cons_self
        simpa using (List.mem_filter.mp hv).2
      have hsorted : (v::vs).Pairwise (· < ·) := by
        rw [← hfilter]
        exact hL.filter _
      rcases List.mem_cons.mp hmem with rfl | hmem
      · rfl
      · have hlow := (List.pairwise_cons.mp hsorted).1 c hmem
        omega

/-- A list that is used up holds no number from the counter on. -/
theorem receive_at (hL : L.Pairwise (· < ·)) (h : At L k s) :
    ∃ t, s.receive p = t.classify p (decide ((count s.iMode p k).iCount ∈ L)) ∧
      t.routed = s.routed ∧ t.classified = s.classified ∧ t.bDiscard = s.bDiscard ∧
      t.iRoute = s.iRoute ∧ t.iMode = s.iMode ∧ At L (count s.iMode p k) t := by
  have hmono := count_mono s.iMode p k
  have hthin : (L.filter (k.iCount ≤ ·)).dropWhile (· < (count s.iMode p k).iCount) =
      L.filter ((count s.iMode p k).iCount ≤ ·) := by
    rw [dropWhile_filter (hL.filter _), List.filter_filter]
    apply List.filter_congr
    intro v hv
    rw [← Bool.decide_and, decide_eq_decide]
    omega
  rw [FixedClassifier.receive]
  by_cases hempty : s.values = []
  · have hnone : L.filter ((count s.iMode p k).iCount ≤ ·) = [] := by
      rw [← hthin, ← h.values, hempty]
      rfl
    have hout : ¬(count s.iMode p k).iCount ∈ L := by
      rw [← head_listed hL, hnone]
      simp
    rw [if_pos hempty]
    refine ⟨s, by rw [decide_eq_false hout], rfl, rfl, rfl, rfl, rfl, ?_⟩
    exact ⟨hempty.trans hnone.symm, fun hvalues => absurd hempty hvalues⟩
  · rw [if_neg hempty]
    dsimp only
    rw [h.counter hempty, h.values, hthin]
    by_cases hlisted : (count s.iMode p k).iCount ∈ L
    · rw [if_pos ((head_listed hL _).mpr hlisted), decide_eq_true hlisted]
      exact ⟨_, rfl, rfl, rfl, rfl, rfl, rfl, ⟨rfl, fun _ => rfl⟩⟩
    · rw [if_neg fun hhead => hlisted ((head_listed hL _).mp hhead), decide_eq_false hlisted]
      exact ⟨_, rfl, rfl, rfl, rfl, rfl, rfl, ⟨rfl, fun _ => rfl⟩⟩

theorem classify_at {t : FixedClassifier} (h : At L k t) (b : Bool) : At L k (t.classify p b) :=
  ⟨h.values, h.counter⟩

theorem receive_run (hL : L.Pairwise (· < ·)) (ps : List MediaPacket) (h : At L k s) :
    (ps.foldl FixedClassifier.receive s).classified =
      s.classified ++ flags s.iMode L k ps ∧
    (ps.foldl FixedClassifier.receive s).routed = s.routed ++
      (List.zipWith (handedOn s.bDiscard s.iRoute) ps (flags s.iMode L k ps)).flatten := by
  induction ps generalizing s k with
  | nil => exact ⟨(List.append_nil _).symm, (List.append_nil _).symm⟩
  | cons p ps ih =>
    rcases receive_at (p := p) hL h with ⟨t, ht, hrouted, hclassified, hdiscard, hroute, hmode, hat⟩
    have hrest := ih (classify_at (p := p) hat (decide ((count s.iMode p k).iCount ∈ L)))
    rw [← ht, show (s.receive p).iMode = s.iMode by rw [ht]; exact hmode,
      show (s.receive p).classified = s.classified ++ [_] by rw [ht, ← hclassified]; rfl,
      show (s.receive p).bDiscard = s.bDiscard by rw [ht]; exact hdiscard,
      show (s.receive p).iRoute = s.iRoute by rw [ht]; exact hroute,
      show (s.receive p).routed = s.routed ++ handedOn s.bDiscard s.iRoute p _ by
        rw [ht, ← hrouted, ← hdiscard, ← hroute]; rfl] at hrest
    rw [List.foldl_cons, flags, List.zipWith_cons_cons, List.flatten_cons]
    exact ⟨hrest.1.trans (List.append_assoc ..), hrest.2.trans (List.append_assoc ..)⟩

end

/-! ## The counter over the units -/

/-- The last packet that was counted had the numbers of this one. -/
def Carries (iMode : Mode) (k : Counter) (p : MediaPacket) : Prop :=
  match iMode with
  | .PACKET => False
  | .FRAME => p.framenumber = k.iLastFrame
  | .SLICE => p.framenumber = k.iLastFrame ∧ p.subframenumber = k.iLastSubframe

/-- What is picked out of the units behind the number `c`. -/
def unitFlags (iMode : Mode) (values : List ℤ) : ℤ → List (List MediaPacket) → List Bool
  | _, [] => []
  | c, u::us =>
    let c := if counted iMode u = true then c+1 else c
    List.replicate u.length (decide (c ∈ values)) ++ unitFlags iMode values c us

attribute [grind =] unitFlags

section
variable {iMode : Mode} {k : Counter} {p q : MediaPacket} {u : List MediaPacket}
  {us : List (List MediaPacket)}

theorem count_carried (h : Carries iMode k p) : (count iMode p k).iCount = k.iCount := by
  cases iMode with
  | PACKET => exact h.elim
  | FRAME =>
    have hsame : ¬p.framenumber ≠ k.iLastFrame := not_not.mpr h
    rw [count]
    dsimp only
    rw [if_neg hsame]
  | SLICE =>
    rw [count]
    dsimp only
    rw [if_neg (by rw [not_or, not_not, not_not]; exact h)]

theorem count_moved (h : ¬Carries iMode k p) :
    (count iMode p k).iCount = if isUnit iMode p = true then k.iCount+1 else k.iCount := by
  cases iMode with
  | PACKET => exact (if_pos rfl).symm
  | FRAME =>
    have hmoved : p.framenumber ≠ k.iLastFrame := h
    rw [count]
    dsimp only
    rw [if_pos hmoved]
    exact (if_pos rfl).symm
  | SLICE =>
    have hmoved : p.framenumber ≠ k.iLastFrame ∨ p.subframenumber ≠ k.iLastSubframe := by
      rw [← not_and_or]
      exact h
    have hunit : isUnit .SLICE p = true ↔
        p.codec.isIn familyH264 = false ∨ IsSlice p = true := by
      rw [isUnit, Bool.or_eq_true, Bool.not_eq_true']
    rw [count]
    dsimp only
    rw [if_pos hmoved]
    by_cases hslice : isUnit .SLICE p = true
    · rw [if_pos (hunit.mp hslice), if_pos hslice]
    · rw [if_neg fun h => hslice (hunit.mpr h), if_neg hslice]

theorem carries_count : Carries iMode (count iMode p k) q ↔ Together iMode q p := by
  cases iMode with
  | PACKET => exact Iff.rfl
  | FRAME => exact Iff.rfl
  | SLICE => exact Iff.rfl

theorem together_symm (h : Together iMode p q) : Together iMode q p := by
  cases iMode with
  | PACKET => exact h
  | FRAME => exact Eq.symm h
  | SLICE => exact ⟨h.1.symm, h.2.symm⟩

/-- The packets that carry the numbers of the counter leave it alone. -/
theorem flags_carried (values : List ℤ) (rest : List MediaPacket)
    (hcarries : ∀ p ∈ u.head?, Carries iMode k p)
    (hu : u.Pairwise fun p q => Together iMode p q ∧ isUnit iMode p = isUnit iMode q) :
    ∃ k', flags iMode values k (u++rest) =
        List.replicate u.length (decide (k.iCount ∈ values)) ++ flags iMode values k' rest ∧
      k'.iCount = k.iCount ∧
      ∀ q, Carries iMode k' q → Carries iMode k q ∨ ∃ p ∈ u, Together iMode p q := by
  induction u generalizing k with
  | nil => exact ⟨k, rfl, rfl, fun q h => Or.inl h⟩
  | cons p u ih =>
    rcases List.pairwise_cons.mp hu with ⟨hfirst, hrest⟩
    have hcount := count_carried (hcarries p rfl)
    have hnext : ∀ q ∈ u.head?, Carries iMode (count iMode p k) q := fun q hq =>
      carries_count.mpr (together_symm (hfirst q (List.mem_of_mem_head? hq)).1)
    rcases ih hnext hrest with ⟨k', hflags, hsame, hlast⟩
    refine ⟨k', ?_, hsame.trans hcount, ?_⟩
    · rw [List.cons_append, flags, hflags, hcount, List.length_cons, List.replicate_succ,
        List.cons_append]
    · intro q hq
      rcases hlast q hq with hq | ⟨r, hr, hq⟩
      · exact Or.inr ⟨p, List.mem_cons_self, together_symm (carries_count.mp hq)⟩
      · exact Or.inr ⟨r, List.mem_cons_of_mem p hr, hq⟩

theorem counted_head (hu : (p::u).Pairwise fun p q =>
    Together iMode p q ∧ isUnit iMode p = isUnit iMode q) :
    counted iMode (p::u) = isUnit iMode p := by
  rw [counted, List.any_cons]
  cases hp : isUnit iMode p with
  | true => rfl
  | false =>
    rw [Bool.false_or, List.any_eq_false]
    intro q hq
    rw [← ((List.pairwise_cons.mp hu).1 q hq).2, hp]
    exact Bool.false_ne_true

/-- A unit moves the counter once, if it counts at all. -/
theorem flags_unit (values : List ℤ) (rest : List MediaPacket) (hne : u ≠ [])
    (hmoved : ∀ p ∈ u, ¬Carries iMode k p)
    (hu : u.Pairwise fun p q => Together iMode p q ∧ isUnit iMode p = isUnit iMode q) :
    ∃ k', flags iMode values k (u++rest) =
        List.replicate u.length (decide (k'.iCount ∈ values)) ++ flags iMode values k' rest ∧
      k'.iCount = (if counted iMode u = true then k.iCount+1 else k.iCount) ∧
      ∀ q, Carries iMode k' q → ∃ p ∈ u, Together iMode p q := by
  rcases List.exists_cons_of_ne_nil hne with ⟨p, u, rfl⟩
  rcases List.pairwise_cons.mp hu with ⟨hfirst, hrest⟩
  have hnext : ∀ q ∈ u.head?, Carries iMode (count iMode p k) q := fun q hq =>
    carries_count.mpr (together_symm (hfirst q (List.mem_of_mem_head? hq)).1)
  rcases flags_carried values rest hnext hrest with ⟨k', hflags, hsame, hlast⟩
  refine ⟨k', ?_, ?_, ?_⟩
  · rw [List.cons_append, flags, hflags, hsame, List.length_cons, List.replicate_succ,
      List.cons_append]
  · rw [hsame, count_moved (hmoved p List.mem_cons_self), counted_head hu]
  · intro q hq
    rcases hlast q hq with hq | ⟨r, hr, hq⟩
    · exact ⟨p, List.mem_cons_self, together_symm (carries_count.mp hq)⟩
    · exact ⟨r, List.mem_cons_of_mem p hr, hq⟩

theorem divided_tail (h : Divided iMode (u::us)) : Divided iMode us where
  nonempty := fun v hv => h.nonempty v (List.mem_cons_of_mem u hv)
  together := fun v hv => h.together v (List.mem_cons_of_mem u hv)
  apart := h.apart.tail

/-- Behind a unit the counter carries the numbers of no packet of the next. -/
theorem next_moved (h : Divided iMode (u::us))
    (hlast : ∀ q, Carries iMode k q → ∃ p ∈ u, Together iMode p q) :
    ∀ v ∈ us.head?, ∀ p ∈ v, ¬Carries iMode k p := by
  intro v hv q hq hcarries
  cases us with
  | nil => exact absurd hv (by simp)
  | cons w us =>
    obtain rfl : w = v := by simpa using hv
    rcases hlast q hcarries with ⟨p, hp, htogether⟩
    exact (List.isChain_cons_cons.mp h.apart).1 p hp q hq htogether

theorem flags_units (values : List ℤ) (h : Divided iMode us)
    (hmoved : ∀ v ∈ us.head?, ∀ p ∈ v, ¬Carries iMode k p) :
    flags iMode values k us.flatten = unitFlags iMode values k.iCount us := by
  induction us generalizing k with
  | nil => rfl
  | cons u us ih =>
    rcases flags_unit values us.flatten (h.nonempty u List.mem_cons_self) (hmoved u rfl)
      (h.together u List.mem_cons_self) with ⟨k', hflags, hcount, hlast⟩
    rw [List.flatten_cons, hflags, ih (divided_tail h) (next_moved h hlast), unitFlags, ← hcount]

end

/-! ## Where the numbers agree -/

section
variable {iMode : Mode} {listed : List ℕ} {us : List (List MediaPacket)}

theorem cast_listed (c : ℤ) {k : ℕ} (h : c = k) :
    c ∈ listed.map (Nat.cast : ℕ → ℤ) ↔ k ∈ listed := by
  rw [h, List.mem_map]
  constructor
  · rintro ⟨v, hv, hk⟩
    rwa [Nat.cast_inj.mp hk] at hv
  · intro hk
    exact ⟨k, hk, rfl⟩

theorem below_listed {c : ℤ} (h : ∀ k ∈ listed, c ≠ k) :
    c ∉ listed.map (Nat.cast : ℕ → ℤ) := by
  rw [List.mem_map]
  rintro ⟨k, hk, hc⟩
  exact h k hk hc.symm

theorem replicate_append {α : Type} {n : ℕ} (hn : n ≠ 0) {a b : α} {as bs : List α} :
    List.replicate n a ++ as = List.replicate n b ++ bs ↔ a = b ∧ as = bs := by
  constructor
  · intro h
    rcases List.append_inj h (by rw [List.length_replicate, List.length_replicate]) with ⟨hr, hs⟩
    exact ⟨(List.replicate_right_inj hn).mp hr, hs⟩
  · rintro ⟨rfl, rfl⟩
    rfl

/-- The condition on the rest of the units, `n` units having been counted before. -/
theorem units_listed (iMode : Mode) (listed : List ℕ) (hne : ∀ u ∈ us, u ≠ []) (n : ℕ) :
    unitFlags iMode (listed.map Nat.cast) (n-1) us = expected iMode listed n us ↔
      ∀ past u rest, us = past++u::rest → counted iMode u = false →
        ∀ k ∈ listed, n+past.countP (counted iMode) ≠ k+1 := by
  induction us generalizing n with
  | nil =>
    refine ⟨fun _ past u rest h => ?_, fun _ => rfl⟩
    exact absurd h (by simp)
  | cons u us ih =>
    have hlength : u.length ≠ 0 := by
      rw [ne_eq, List.length_eq_zero_iff]
      exact hne u List.mem_cons_self
    have hrest := fun v hv => hne v (List.mem_cons_of_mem u hv)
    rw [unitFlags, expected]
    by_cases hcounted : counted iMode u = true
    · have hnumber : (n : ℤ)-1+1 = n := by omega
      have hnext : ((n+1 : ℕ) : ℤ)-1 = n := by omega
      have hih := ih hrest (n+1)
      rw [hnext] at hih
      rw [if_pos hcounted, if_pos hcounted, hnumber, replicate_append hlength, hih,
        decide_eq_decide, and_iff_right (cast_listed _ rfl)]
      constructor
      · intro h past v rest heq hv k hk
        cases past with
        | nil =>
          rw [(List.cons.inj heq).1, hv] at hcounted
          exact absurd hcounted Bool.false_ne_true
        | cons w past =>
          have hlater := h past v rest (List.cons.inj heq).2 hv k hk
          rw [← (List.cons.inj heq).1, List.countP_cons_of_pos hcounted]
          omega
      · intro h past v rest heq hv k hk
        have hlater := h (u::past) v rest (by rw [heq]; rfl) hv k hk
        rw [List.countP_cons_of_pos hcounted] at hlater
        omega
    · rw [if_neg hcounted, if_neg hcounted, replicate_append hlength, ih hrest n,
        decide_eq_false_iff_not]
      constructor
      · rintro ⟨hout, h⟩ past v rest heq hv k hk
        cases past with
        | nil =>
          intro heq
          rw [List.countP_nil] at heq
          exact hout (List.mem_map.mpr ⟨k, hk, by omega⟩)
        | cons w past =>
          have hlater := h past v rest (List.cons.inj heq).2 hv k hk
          rwa [← (List.cons.inj heq).1, List.countP_cons_of_neg hcounted]
      · intro h
        constructor
        · apply below_listed
          intro k hk heq
          have hhere := h [] u us rfl (Bool.not_eq_true _ ▸ hcounted) k hk
          rw [List.countP_nil] at hhere
          omega
        · intro past v rest heq hv k hk
          have hlater := h (u::past) v rest (by rw [heq]; rfl) hv k hk
          rwa [List.countP_cons_of_neg hcounted] at hlater

/-- A counter that is one behind agrees only where nothing is listed. -/
theorem units_behind (iMode : Mode) (hne : ∀ u ∈ us, u ≠ []) (n : ℕ) (hlow : ∀ k ∈ listed, n ≤ k) :
    unitFlags iMode (listed.map Nat.cast) (n-2) us = expected iMode listed n us ↔
      ∀ k ∈ listed, n+us.countP (counted iMode) ≤ k := by
  induction us generalizing n with
  | nil => exact ⟨fun _ => hlow, fun _ => rfl⟩
  | cons u us ih =>
    have hlength : u.length ≠ 0 := by
      rw [ne_eq, List.length_eq_zero_iff]
      exact hne u List.mem_cons_self
    have hrest := fun v hv => hne v (List.mem_cons_of_mem u hv)
    have hout : ∀ c : ℤ, c < n → decide (c ∈ listed.map (Nat.cast : ℕ → ℤ)) = false := by
      intro c hc
      apply decide_eq_false
      apply below_listed
      intro k hk
      have hk := hlow k hk
      omega
    rw [unitFlags, expected]
    by_cases hcounted : counted iMode u = true
    · have hnext : (n : ℤ)-2+1 = ((n+1 : ℕ) : ℤ)-2 := by omega
      rw [if_pos hcounted, if_pos hcounted, hout _ (by omega), replicate_append hlength,
        List.countP_cons_of_pos hcounted, hnext, eq_comm, decide_eq_false_iff_not]
      constructor
      · rintro ⟨hn, h⟩
        have hhigh : ∀ k ∈ listed, n+1 ≤ k := by
          intro k hk
          have hle := hlow k hk
          have hne : n ≠ k := by
            rintro rfl
            exact hn hk
          omega
        intro k hk
        have hlater := (ih hrest (n+1) hhigh).mp h k hk
        omega
      · intro h
        have hhigh : ∀ k ∈ listed, n+1 ≤ k := by
          intro k hk
          have hk := h k hk
          omega
        refine ⟨fun hn => ?_, (ih hrest (n+1) hhigh).mpr ?_⟩
        · have hn := hhigh n hn
          omega
        · intro k hk
          have hk := h k hk
          omega
    · rw [if_neg hcounted, if_neg hcounted, hout _ (by omega), replicate_append hlength,
        List.countP_cons_of_neg hcounted, and_iff_right rfl]
      exact ih hrest n hlow

end

section
variable {iMode : Mode} {listed : List ℕ} {us : List (List MediaPacket)}

theorem missed_first {p : MediaPacket} {ps : List MediaPacket} :
    Missed iMode (p::ps) ↔ isUnit iMode p = true ∧ Carries iMode fresh p := by
  rw [Missed, List.head?_cons]
  cases iMode with
  | PACKET => simp [Carries]
  | FRAME => simp [Carries, fresh]
  | SLICE => simp [Carries, fresh]

/-- The counter is one behind from the start if the first packet is missed. -/
theorem fresh_flags (values : List ℤ) (h : Divided iMode us) :
    (Missed iMode us.flatten →
        flags iMode values fresh us.flatten = unitFlags iMode values (-2) us) ∧
      (¬Missed iMode us.flatten →
        flags iMode values fresh us.flatten = unitFlags iMode values (-1) us) := by
  cases us with
  | nil => exact ⟨fun _ => rfl, fun _ => rfl⟩
  | cons u us =>
    have hu := h.together u List.mem_cons_self
    rcases List.exists_cons_of_ne_nil (h.nonempty u List.mem_cons_self) with ⟨p, t, rfl⟩
    have hmissed : Missed iMode ((p::t)::us).flatten ↔
        isUnit iMode p = true ∧ Carries iMode fresh p := by
      rw [List.flatten_cons, List.cons_append]
      exact missed_first
    by_cases hcarries : Carries iMode fresh p
    · have hhead : ∀ q ∈ (p::t).head?, Carries iMode fresh q := by
        intro q hq
        obtain rfl : p = q := by simpa using hq
        exact hcarries
      rcases flags_carried values us.flatten hhead hu with ⟨k', hflags, hcount, hlast⟩
      have hnext : ∀ q, Carries iMode k' q → ∃ r ∈ p::t, Together iMode r q := by
        intro q hq
        rcases hlast q hq with hq | hq
        · refine ⟨p, List.mem_cons_self, ?_⟩
          cases iMode with
          | PACKET => exact hq
          | FRAME => exact Eq.trans hcarries (Eq.symm hq)
          | SLICE => exact ⟨hcarries.1.trans hq.1.symm, hcarries.2.trans hq.2.symm⟩
        · exact hq
      rw [hmissed, List.flatten_cons, hflags, unitFlags, unitFlags, counted_head hu,
        flags_units values (divided_tail h) (next_moved h hnext), hcount]
      constructor
      · intro hunit
        rw [if_pos hunit.1]
        rfl
      · intro hunit
        rw [if_neg fun hp => hunit ⟨hp, hcarries⟩]
        rfl
    · have hmoved : ∀ v ∈ ((p::t)::us).head?, ∀ q ∈ v, ¬Carries iMode fresh q := by
        intro v hv q hq hfresh
        obtain rfl : p::t = v := by simpa using hv
        rcases List.mem_cons.mp hq with rfl | hq
        · exact hcarries hfresh
        · have htogether := ((List.pairwise_cons.mp hu).1 q hq).1
          apply hcarries
          cases iMode with
          | PACKET => exact htogether
          | FRAME => exact Eq.trans htogether hfresh
          | SLICE => exact ⟨htogether.1.trans hfresh.1, htogether.2.trans hfresh.2⟩
      refine ⟨fun hunit => absurd (hmissed.mp hunit).2 hcarries, fun _ => ?_⟩
      exact flags_units values h hmoved

theorem handedOn_flags {discard : Bool} {xroute : ℤ} {iMode : Mode}
    (hsorted : listed.Pairwise (· < ·)) (hsmall : ∀ k ∈ listed, k < 2^31) :
    PicksListed discard xroute iMode listed us ↔
      flags iMode (listed.map Nat.cast) fresh us.flatten = expected iMode listed 0 us := by
  have hL : (listed.map (Nat.cast : ℕ → ℤ)).Pairwise (· < ·) :=
    hsorted.map _ fun a b hab => Nat.cast_lt.mpr hab
  have hmode := init_mode discard xroute iMode (listText listed)
  have hat : At (listed.map Nat.cast) fresh
      (.init discard xroute (modeText iMode) (listText listed)) := by
    refine ⟨?_, fun _ => rfl⟩
    rw [init_values discard xroute _ hsmall, eq_comm, List.filter_eq_self]
    intro v hv
    rcases List.mem_map.mp hv with ⟨k, -, rfl⟩
    rw [decide_eq_true_eq]
    show -1 ≤ (k : ℤ)
    omega
  have hrun := receive_run hL us.flatten hat
  rw [hmode] at hrun
  have hclassified : (us.flatten.foldl FixedClassifier.receive
      (.init discard xroute (modeText iMode) (listText listed))).classified =
      flags iMode (listed.map Nat.cast) fresh us.flatten := hrun.1
  have hrouted : (us.flatten.foldl FixedClassifier.receive
      (.init discard xroute (modeText iMode) (listText listed))).routed =
      (List.zipWith (handedOn discard xroute) us.flatten
        (flags iMode (listed.map Nat.cast) fresh us.flatten)).flatten := hrun.2
  rw [PicksListed, hclassified, hrouted]
  constructor
  · intro h
    exact h.1
  · intro h
    rw [h]
    exact ⟨rfl, rfl⟩

theorem fixed_iff (discard : Bool) (xroute : ℤ) (iMode : Mode) (listed : List ℕ)
    (us : List (List MediaPacket)) (hsorted : listed.Pairwise (· < ·))
    (hsmall : ∀ k ∈ listed, k < 2^31) (hus : Divided iMode us) :
    PicksListed discard xroute iMode listed us ↔
      (Missed iMode us.flatten → ∀ k ∈ listed, us.countP (counted iMode) ≤ k) ∧
      (¬Missed iMode us.flatten → Unfollowed iMode listed us) := by
  have hflags := fresh_flags (listed.map Nat.cast) hus
  have hbehind := units_behind iMode hus.nonempty 0 fun k (_ : k ∈ listed) => Nat.zero_le k
  have hunits := units_listed iMode listed hus.nonempty 0
  rw [handedOn_flags hsorted hsmall]
  by_cases hmissed : Missed iMode us.flatten
  · rw [hflags.1 hmissed]
    refine Iff.trans hbehind ?_
    rw [Nat.zero_add]
    exact ⟨fun h => ⟨fun _ => h, fun hnot => absurd hmissed hnot⟩, fun h => h.1 hmissed⟩
  · rw [hflags.2 hmissed]
    refine Iff.trans hunits ?_
    simp only [Nat.zero_add]
    exact ⟨fun h => ⟨fun hnot => absurd hnot hmissed, fun _ => h⟩, fun h => h.2 hmissed⟩

end

def picture (frame : FrameType) (framenumber subframenumber : ℤ) : MediaPacket :=
  { MediaPacket.new .media .video 0 with
    codec := .avc, frame := frame, framenumber := framenumber, subframenumber := subframenumber }

/-- Two slices with a packet in between that is none: the second one is listed. -/
theorem fixed_iff_slices : PicksListed false 1 .SLICE [1]
      [[picture .P 0 0], [picture .SEI 1 0], [picture .P 1 1, picture .P 1 1]] ↔
    (Missed .SLICE [picture .P 0 0, picture .SEI 1 0, picture .P 1 1, picture .P 1 1] →
      ∀ k ∈ [1], 2 ≤ k) ∧
    (¬Missed .SLICE [picture .P 0 0, picture .SEI 1 0, picture .P 1 1, picture .P 1 1] →
      Unfollowed .SLICE [1]
        [[picture .P 0 0], [picture .SEI 1 0], [picture .P 1 1, picture .P 1 1]]) :=
  fixed_iff false 1 .SLICE [1] _ (by decide) (by decide)
    ⟨by decide, by simp [Together, isUnit, IsSlice, picture], by simp [Together, picture]⟩

/-- A supplemental unit behind the listed slice is picked out with it. -/
theorem supplement_picked : Divided .SLICE [[picture .P 0 0], [picture .SEI 0 1]] ∧
    ¬PicksListed false 1 .SLICE [0] [[picture .P 0 0], [picture .SEI 0 1]] := by
  have hdivided : Divided .SLICE [[picture .P 0 0], [picture .SEI 0 1]] :=
    ⟨by decide, by simp, by simp [Together, picture]⟩
  refine ⟨hdivided, ?_⟩
  rw [handedOn_flags (by decide) (by decide)]
  decide +kernel

end Sirannon.FixedClassification
