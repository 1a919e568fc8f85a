import Sirannon.UnpackControl
import Sirannon.VideoExtraRecord

/-!
# Whether the loops end

Every search moves on as long as something is left of the buffer. The first loop
does not look whether something is left: without an SPS it goes on at the end of
the buffer for ever. The other two end, though the memory of the writer does too.
-/

set_option autoImplicit false

namespace Sirannon.VideoExtra
open ByteMemory Bits Media MachineInt H264 Packetization

variable {m : Memory} {c : Cursor} {o : OBuffer} {room v iSize : ℕ}

/-! ## How far a search goes -/

theorem find_bounds (m : Memory) (iSize : ℕ) :
    AnnexB.H264_find_NAL m iSize ≤ iSize ∧ (0 < iSize → 0 < AnnexB.H264_find_NAL m iSize) := by
  have hones : (0xFFFFFFFF : ℕ) = AnnexB.lastFour 0xFF 0xFF 0xFF 0xFF := by decide
  rw [AnnexB.H264_find_NAL, hones]
  by_cases hsize : H264_is_start_code m ≤ iSize
  · have hlen := load_length m (H264_is_start_code m) (iSize-H264_is_start_code m)
    rw [AnnexB.findLoop_first (stored_load m (H264_is_start_code m) (iSize-H264_is_start_code m)) (by
        rw [hlen]
        omega) (by omega)]
    cases h : AnnexB.firstCode 0xFF 0xFF 0xFF
        (load m (H264_is_start_code m) (iSize-H264_is_start_code m)) with
    | none => exact ⟨le_refl _, id⟩
    | some r =>
      obtain ⟨e, k⟩ := r
      obtain ⟨hpos, he, hlow, hhigh, hcode⟩ := AnnexB.firstCode_code h
      rw [hlen] at he
      have hinside := AnnexB.firstCode_inside h
      refine ⟨?_, ?_⟩
      · show H264_is_start_code m+e-k ≤ iSize
        omega
      · intro _
        show 0 < H264_is_start_code m+e-k
        by_contra hzero
        have hstart : H264_is_start_code m = 0 := by omega
        rw [show e+3-k = 3 by omega, hstart] at hcode
        have hm := AnnexB.code_stored (stored_load m 0 (iSize-0)) (by
          show 0 < AnnexB.code (load m 0 (iSize-0))
          have hcode' : AnnexB.code (load m 0 (iSize-0)) = k := hcode
          omega)
        have hcode' : AnnexB.code (load m 0 (iSize-0)) = k := hcode
        omega
  · cases iSize with
    | zero => exact ⟨le_refl _, id⟩
    | succ n =>
      rw [AnnexB.findLoop, if_neg (by omega)]
      exact ⟨le_refl _, id⟩

theorem iNAL_bounds (m : Memory) (c : Cursor) : c.iNAL m ≤ c.iSize ∧ (0 < c.iSize → 0 < c.iNAL m) :=
  find_bounds (shift m c.pBuffer) c.iSize

/-- Where the buffer has been read to after `k` searches. -/
def unitAt (m : Memory) (c : Cursor) (k : ℕ) : Cursor := (Cursor.next m)^[k] c

theorem unitAt_next (k : ℕ) : unitAt m c (k+1) = unitAt m (c.next m) k := rfl

theorem unitAt_add (j k : ℕ) : unitAt m c (j+k) = unitAt m (unitAt m c j) k := by
  rw [unitAt, Nat.add_comm, Function.iterate_add_apply]
  rfl

theorem unitAt_end (m : Memory) (c : Cursor) (k : ℕ) :
    (unitAt m c k).pBuffer+(unitAt m c k).iSize = c.pBuffer+c.iSize := by
  induction k generalizing c with
  | zero => rfl
  | succ k ih =>
    rw [unitAt_next, ih, Cursor.next]
    have hle := (iNAL_bounds m c).1
    dsimp only
    omega

theorem unitAt_size (m : Memory) (c : Cursor) {j k : ℕ} (h : j ≤ k) :
    (unitAt m c k).iSize ≤ (unitAt m c j).iSize := by
  induction k, h using Nat.le_induction with
  | base => exact le_refl _
  | succ k _ ih =>
    rw [unitAt_add]
    exact (Nat.sub_le _ _).trans ih

/-! ## The first loop -/

/-- The `n`-th unit is the first one that has the type of an SPS. -/
def FirstSPS (m : Memory) (c : Cursor) (n : ℕ) : Prop :=
  (unitAt m c n).type m = NAL_UNIT_TYPE_SPS ∧ ∀ i < n, (unitAt m c i).type m ≠ NAL_UNIT_TYPE_SPS

theorem findSPS_found {n fuel : ℕ} (h : FirstSPS m c n) (hfuel : n < fuel) :
    findSPS m fuel c = pure (unitAt m c n) := by
  obtain ⟨fuel, rfl⟩ := Nat.exists_eq_add_of_lt hfuel
  induction n generalizing c with
  | zero =>
    have htype : c.type m = NAL_UNIT_TYPE_SPS := h.1
    rw [findSPS, if_neg (not_not.2 htype)]
    rfl
  | succ n ih =>
    have htype : c.type m ≠ NAL_UNIT_TYPE_SPS := h.2 0 (Nat.succ_pos n)
    rw [findSPS, if_pos htype, Nat.add_right_comm]
    exact ih ⟨h.1, fun i hi => h.2 (i+1) (Nat.succ_lt_succ hi)⟩ (by omega)

/-- There is nothing else that ends it. -/
theorem findSPS_ends (m : Memory) (fuel : ℕ) (c : Cursor) :
    findSPS m fuel c = goesOn ∨ ∃ n, FirstSPS m c n ∧ findSPS m fuel c = pure (unitAt m c n) := by
  induction fuel generalizing c with
  | zero => exact Or.inl rfl
  | succ fuel ih =>
    rw [findSPS]
    by_cases htype : c.type m = NAL_UNIT_TYPE_SPS
    · rw [if_neg (not_not.2 htype)]
      exact Or.inr ⟨0, ⟨htype, fun i hi => absurd hi (Nat.not_lt_zero i)⟩, rfl⟩
    · rw [if_pos htype]
      rcases ih (c.next m) with hgoes | ⟨n, ⟨hn, hbefore⟩, hrun⟩
      · exact Or.inl hgoes
      · refine Or.inr ⟨n+1, ⟨hn, ?_⟩, hrun⟩
        intro i hi
        cases i with
        | zero => exact htype
        | succ i => exact hbefore i (Nat.lt_of_succ_lt_succ hi)

/-! ## The other loops -/

def Cursor.length (m : Memory) (c : Cursor) : ℕ := c.iNAL m-c.iHeader m

/-- How much is written for the first `k` units. -/
def written (m : Memory) : ℕ → Cursor → ℕ
  | 0, _ => 0
  | k+1, c => c.length m+2+written m k (c.next m)

theorem written_add (j k : ℕ) : written m (j+k) c = written m j c+written m k (unitAt m c j) := by
  induction j generalizing c with
  | zero =>
    rw [Nat.zero_add, written, Nat.zero_add]
    rfl
  | succ j ih =>
    rw [Nat.add_right_comm, written, written, ih, unitAt_next]
    omega

/-- Behind `v` bytes there is room for the unit, and its code does not end behind the buffer. -/
def Fitting (m : Memory) (room v : ℕ) (c : Cursor) : Prop :=
  c.iHeader m ≤ c.iNAL m ∧ v+2+c.length m ≤ room

/-- The writer stands at `v`. -/
structure Writer (room v : ℕ) (o : OBuffer) : Prop where
  iBytes : o.iBytes = room
  iBuff : o.iBuff = 8
  position : o.v = v

theorem writeUnit_raises (h : Writer room v o) (hfull : room < v+2) :
    ∃ e, writeUnit m c o = .error e ∧ Thrown e := by
  obtain ⟨n, hn⟩ := (write_sixteen h.iBuff (uint32 ((c.iNAL m : ℤ)-c.iHeader m))).1 (by
    rw [h.iBytes, h.position]
    omega)
  rw [writeUnit, hn]
  exact ⟨_, rfl, outOfBoundsError_thrown _⟩

theorem writeUnit_fitting (h : Writer room v o) (hfit : Fitting m room v c) :
    ∃ o', writeUnit m c o = .ok o' ∧ Writer room (v+(c.length m+2)) o' := by
  obtain ⟨hheader, hroom⟩ := hfit
  have hwrite := (write_sixteen h.iBuff (uint32 ((c.iNAL m : ℤ)-c.iHeader m))).2 (by
    rw [h.iBytes, h.position]
    omega)
  rw [writeUnit, hwrite]
  show ∃ o', (if c.iNAL m < c.iHeader m then _ else OBuffer.write_buffer _ _) = _ ∧ _
  rw [if_neg (by omega), OBuffer.write_buffer, if_neg (by
    rw [load_length]
    simp only [put_iBytes, put_v, h.iBytes, h.position]
    rw [Cursor.length] at hroom
    omega)]
  refine ⟨_, rfl, ?_, ?_, ?_⟩
  · rw [cleared_iBytes]
    simp only [put_iBytes, h.iBytes]
  · rw [cleared_iBuff]
    exact put_iBuff _ _
  · rw [cleared_v]
    simp only [put_v, load_length, h.position, Cursor.length]
    omega

/-- Otherwise memory behind the buffer, or in front of the unit, is copied. -/
theorem writeUnit_undefined (h : Writer room v o) (hlength : v+2 ≤ room) (hfit : ¬ Fitting m room v c) :
    ∃ sWhat, writeUnit m c o = .error (undefinedBehaviour sWhat) := by
  have hwrite := (write_sixteen h.iBuff (uint32 ((c.iNAL m : ℤ)-c.iHeader m))).2 (by
    rw [h.iBytes, h.position]
    omega)
  rw [writeUnit, hwrite]
  show ∃ sWhat, (if c.iNAL m < c.iHeader m then _ else OBuffer.write_buffer _ _) = _
  by_cases hheader : c.iNAL m < c.iHeader m
  · rw [if_pos hheader]
    exact ⟨_, rfl⟩
  · rw [if_neg hheader, OBuffer.write_buffer, if_pos (by
      rw [load_length]
      simp only [put_iBytes, put_v, h.iBytes, h.position]
      rw [Fitting, Cursor.length, not_and] at hfit
      have hover := hfit (by omega)
      omega)]
    exact ⟨_, rfl⟩

/-- The loop goes on with the `k`-th unit. -/
def Going (m : Memory) (bUnit : ℕ → Bool) (c : Cursor) (k : ℕ) : Prop :=
  0 < (unitAt m c k).iSize ∧ bUnit ((unitAt m c k).type m) = true

/-- What becomes of the loop at its `j`-th unit. -/
inductive Outcome (m : Memory) (bUnit : ℕ → Bool) (room v n : ℕ) (c : Cursor) (j : ℕ) :
    Looped (ℕ × Cursor × OBuffer) → Prop
  | ended (o' : OBuffer) (hend : ¬ Going m bUnit c j) (hwriter : Writer room (v+written m j c) o') :
      Outcome m bUnit room v n c j (pure (n+j, unitAt m c j, o'))
  | raised (e : SirannonException) (hgoing : Going m bUnit c j) (hfull : room < v+written m j c+2)
      (hthrown : Thrown e) : Outcome m bUnit room v n c j (ofExcept (.error e))
  | broken (sWhat : String) (hgoing : Going m bUnit c j) (hlength : v+written m j c+2 ≤ room)
      (hfit : ¬ Fitting m room (v+written m j c) (unitAt m c j)) :
      Outcome m bUnit room v n c j (ofExcept (.error (undefinedBehaviour sWhat)))

theorem outcome_next {bUnit : ℕ → Bool} {n j : ℕ} {r : Looped (ℕ × Cursor × OBuffer)}
    (h : Outcome m bUnit room (v+(c.length m+2)) (n+1) (c.next m) j r) :
    Outcome m bUnit room v n c (j+1) r := by
  have hsum : v+(c.length m+2)+written m j (c.next m) = v+written m (j+1) c := by
    rw [written]
    omega
  cases h with
  | ended o' hend hwriter =>
    rw [hsum] at hwriter
    rw [Nat.add_right_comm, Nat.add_assoc]
    exact Outcome.ended o' hend hwriter
  | raised e hgoing hfull hthrown =>
    rw [hsum] at hfull
    exact Outcome.raised e hgoing hfull hthrown
  | broken sWhat hgoing hlength hfit =>
    rw [hsum] at hlength hfit
    exact Outcome.broken sWhat hgoing hlength hfit

theorem writeUnits_ends (bUnit : ℕ → Bool) (fuel n : ℕ) (h : Writer room v o)
    (hfuel : writeUnits m bUnit fuel n c o = goesOn → c.iSize < fuel) :
    ∃ j, (∀ i < j, Going m bUnit c i ∧ Fitting m room (v+written m i c) (unitAt m c i)) ∧
      Outcome m bUnit room v n c j (writeUnits m bUnit fuel n c o) := by
  induction fuel generalizing n v c o with
  | zero => exact absurd (hfuel rfl) (Nat.not_lt_zero _)
  | succ fuel ih =>
    by_cases hgoing : 0 < c.iSize ∧ bUnit (c.type m) = true
    · rw [writeUnits, if_pos hgoing]
      by_cases hfull : room < v+2
      · obtain ⟨e, he, hthrown⟩ := writeUnit_raises (m := m) (c := c) h hfull
        refine ⟨0, fun i hi => absurd hi (Nat.not_lt_zero i), ?_⟩
        rw [he]
        exact Outcome.raised e hgoing hfull hthrown
      · by_cases hfit : Fitting m room v c
        · obtain ⟨o', ho', hwriter⟩ := writeUnit_fitting h hfit
          rw [writeUnits, if_pos hgoing, ho'] at hfuel
          obtain ⟨j, hbefore, hout⟩ := ih (n+1) hwriter (by
            intro hgoes
            have hpos := (iNAL_bounds m c).2 hgoing.1
            have hmore := hfuel hgoes
            show c.iSize-c.iNAL m < fuel
            omega)
          refine ⟨j+1, ?_, ?_⟩
          · intro i hi
            cases i with
            | zero => exact ⟨hgoing, hfit⟩
            | succ i =>
              obtain ⟨hnext, hfits⟩ := hbefore i (Nat.lt_of_succ_lt_succ hi)
              rw [Nat.add_assoc] at hfits
              exact ⟨hnext, hfits⟩
          · rw [ho']
            exact outcome_next hout
        · obtain ⟨sWhat, he⟩ := writeUnit_undefined h (by omega) hfit
          refine ⟨0, fun i hi => absurd hi (Nat.not_lt_zero i), ?_⟩
          rw [he]
          exact Outcome.broken sWhat hgoing (by
            show v+0+2 ≤ room
            omega) hfit
    · refine ⟨0, fun i hi => absurd hi (Nat.not_lt_zero i), ?_⟩
      rw [writeUnits, if_neg hgoing]
      exact Outcome.ended o hgoing h

/-! ## All loops together -/

/-- The loops come to the `k`-th unit from the first SPS on: behind a PPS there are only PPSs. -/
def Visited (m : Memory) (c : Cursor) (k : ℕ) : Prop :=
  0 < (unitAt m c k).iSize ∧
    ∀ i j, i < j → j ≤ k → isPPS ((unitAt m c i).type m) = true → isPPS ((unitAt m c j).type m) = true

/-- Where the writer stands at the `k`-th unit. -/
def place (m : Memory) (c : Cursor) (k : ℕ) : ℕ :=
  if isPPS ((unitAt m c k).type m) then 7+written m k c else 6+written m k c

/-- Each unit fits, or there is not even room for its length. -/
def Safe (m : Memory) (room : ℕ) (c : Cursor) : Prop :=
  ∀ k, Visited m c k → room < place m c k+2 ∨ Fitting m room (place m c k) (unitAt m c k)

theorem noPPS_eq (iType : ℕ) : noPPS iType = !isPPS iType := by
  rw [noPPS, isPPS, decide_not]

theorem written_mono {j k : ℕ} (h : j ≤ k) : written m j c ≤ written m k c := by
  obtain ⟨d, rfl⟩ := Nat.exists_eq_add_of_le h
  rw [written_add]
  exact Nat.le_add_right _ _

theorem place_ge (m : Memory) (c : Cursor) (k : ℕ) : 6+written m k c ≤ place m c k := by
  rw [place]
  split_ifs <;> omega

theorem fillIn_thrown {i k iSPS iPPS : ℕ} {e : SirannonException} (h : fillIn i k iSPS iPPS o = .error e) :
    Thrown e := by
  rw [fillIn, write_eight rfl] at h
  by_cases hfirst : (o.seekSet i).iBytes ≤ (o.seekSet i).v
  · rw [if_pos hfirst] at h
    cases h
    exact outOfBoundsError_thrown _
  · rw [if_neg hfirst] at h
    change OBuffer.write _ _ _ = _ at h
    rw [write_eight rfl] at h
    split_ifs at h
    cases h
    exact outOfBoundsError_thrown _

/-- The units before the `j`-th one are no PPSs, and fit. -/
def Forward (m : Memory) (room : ℕ) (c : Cursor) (j : ℕ) : Prop :=
  ∀ i < j, Going m noPPS c i ∧ Fitting m room (6+written m i c) (unitAt m c i)

variable {j k l : ℕ}

theorem forward_type (h : Forward m room c j) (hk : k < j) : isPPS ((unitAt m c k).type m) = false := by
  have hno := (h k hk).1.2
  rw [noPPS_eq, Bool.not_eq_true'] at hno
  exact hno

theorem forward_fitting (h : Forward m room c j) (hk : k < j) :
    Fitting m room (place m c k) (unitAt m c k) := by
  rw [place, forward_type h hk]
  exact (h k hk).2

theorem visited_first (h : Forward m room c j) (hgoing : Going m noPPS c j) :
    Visited m c j ∧ place m c j = 6+written m j c := by
  have hno := hgoing.2
  rw [noPPS_eq, Bool.not_eq_true'] at hno
  refine ⟨⟨hgoing.1, ?_⟩, ?_⟩
  · intro i i' hi hi' htype
    rw [forward_type h (by omega)] at htype
    cases htype
  · rw [place, hno]
    rfl

/-- Behind these, `l` PPSs fit. -/
def Behind (m : Memory) (room : ℕ) (c : Cursor) (j l : ℕ) : Prop :=
  ∀ i < l, Going m isPPS (unitAt m c j) i ∧
    Fitting m room (7+written m j c+written m i (unitAt m c j)) (unitAt m (unitAt m c j) i)

theorem behind_type (h : Behind m room c j l) (hk : j ≤ k) (hl : k < j+l) :
    isPPS ((unitAt m c k).type m) = true := by
  have hgoing := (h (k-j) (by omega)).1.2
  rw [← unitAt_add, show j+(k-j) = k by omega] at hgoing
  exact hgoing

theorem behind_fitting (h : Behind m room c j l) (hk : j ≤ k) (hl : k < j+l) :
    Fitting m room (place m c k) (unitAt m c k) := by
  have hfit := (h (k-j) (by omega)).2
  rw [← unitAt_add, Nat.add_assoc, ← written_add, show j+(k-j) = k by omega] at hfit
  rw [place, behind_type h hk hl]
  exact hfit

theorem visited_behind (h : Forward m room c j) (hb : Behind m room c j l)
    (hgoing : Going m isPPS (unitAt m c j) l) :
    Visited m c (j+l) ∧ place m c (j+l) = 7+written m (j+l) c := by
  have htype : isPPS ((unitAt m c (j+l)).type m) = true := by
    rw [unitAt_add]
    exact hgoing.2
  refine ⟨⟨?_, ?_⟩, ?_⟩
  · rw [unitAt_add]
    exact hgoing.1
  · intro i i' hi hi' hpps
    by_cases hlow : i < j
    · rw [forward_type h hlow] at hpps
      cases hpps
    · by_cases hlast : i' = j+l
      · rw [hlast]
        exact htype
      · exact behind_type hb (by omega) (by omega)
  · rw [place, htype]
    rfl

/-- Nothing is visited behind the end of both loops. -/
theorem visited_end (hend : ¬ Going m noPPS c j) (hb : Behind m room c j l)
    (hend' : ¬ Going m isPPS (unitAt m c j) l) (hv : Visited m c k) : k < j+l := by
  by_contra hk
  have hsize : ∀ i ≤ k, 0 < (unitAt m c i).iSize := fun i hi => lt_of_lt_of_le hv.1 (unitAt_size m c hi)
  rw [Going, ← unitAt_add] at hend'
  apply hend'
  refine ⟨hsize (j+l) (by omega), ?_⟩
  cases l with
  | zero =>
    by_contra htype
    rw [Bool.not_eq_true] at htype
    apply hend
    rw [Going, noPPS_eq]
    rw [Nat.add_zero] at htype
    rw [htype]
    exact ⟨hsize j (by omega), rfl⟩
  | succ l =>
    exact hv.2 (j+l) (j+(l+1)) (by omega) (by omega) (behind_type hb (by omega) (by omega))

/-- A unit that is visited behind a full writer does not even get its length. -/
theorem full_behind (hjk : j ≤ k) (hfull : room < 6+written m j c+2) : room < place m c k+2 := by
  have hmono := written_mono (m := m) (c := c) hjk
  have hplace := place_ge m c k
  omega

theorem full_second {n : ℕ} (hplace : place m c n = 7+written m n c) (hv : Visited m c k) (hnk : n ≤ k)
    (hfull : room < 7+written m n c+2) : room < place m c k+2 := by
  have hmono := written_mono (m := m) (c := c) hnk
  have htype : isPPS ((unitAt m c n).type m) = true := by
    rw [place] at hplace
    split_ifs at hplace with htype
    · exact htype
    · omega
  have hpps : isPPS ((unitAt m c k).type m) = true := by
    rcases Nat.eq_or_lt_of_le hnk with rfl | hlt
    · exact htype
    · exact hv.2 n k hlt (le_refl k) htype
  rw [place, hpps, if_pos rfl]
  omega

theorem undefined_not_thrown (sWhat : String) : ¬ Thrown (undefinedBehaviour sWhat) := fun h => h sWhat rfl

/-- What follows the start of the record. -/
def loops (m : Memory) (fuel iSPSIdx : ℕ) (c : Cursor) (oVideoExtra : OBuffer) : Looped (Bytes × OBuffer) := do
  let r ← writeUnits m noPPS fuel 0 c oVideoExtra
  let iPPSIdx := r.2.2.size
  let q ← writeUnits m isPPS fuel 0 r.2.1 (r.2.2.seekCur 1)
  let iTotal := q.2.2.size
  let oVideoExtra ← ofExcept (fillIn iSPSIdx iPPSIdx r.1 q.1 q.2.2)
  pure (oVideoExtra.data iTotal, oVideoExtra)

/-- The loops end in what the source itself returns or throws just when every unit is safe. -/
theorem loops_end (fuel iSPSIdx : ℕ) (h : Writer room 6 o)
    (hfuel : loops m fuel iSPSIdx c o = goesOn → c.iSize < fuel) :
    ∃ r, loops m fuel iSPSIdx c o = ofExcept r ∧ ((∀ e, r = .error e → Thrown e) ↔ Safe m room c) := by
  obtain ⟨j, hforward, hfirst⟩ := writeUnits_ends noPPS fuel 0 h (by
    intro hgoes
    apply hfuel
    rw [loops, hgoes]
    rfl)
  generalize hrun : writeUnits m noPPS fuel 0 c o = first at hfirst
  rw [loops, hrun] at hfuel ⊢
  cases hfirst with
  | raised e hgoing hfull hthrown =>
    refine ⟨.error e, rfl, ⟨fun _ k hk => ?_, fun _ e' he => ?_⟩⟩
    · by_cases hkj : k < j
      · exact Or.inr (forward_fitting hforward hkj)
      · exact Or.inl (full_behind (by omega) hfull)
    · cases he
      exact hthrown
  | broken sWhat hgoing hlength hfit =>
    refine ⟨.error (undefinedBehaviour sWhat), rfl, ⟨fun hall => ?_, fun hsafe => ?_⟩⟩
    · exact absurd (hall _ rfl) (undefined_not_thrown sWhat)
    · obtain ⟨hvisited, hplace⟩ := visited_first hforward hgoing
      have hunit := hsafe j hvisited
      rw [hplace] at hunit
      rcases hunit with hfull | hfits
      · omega
      · exact absurd hfits hfit
  | ended o₁ hend hwriter =>
    rw [pure_bind] at hfuel ⊢
    have hhole : Writer room (7+written m j c) (o₁.seekCur 1) := by
      refine ⟨hwriter.iBytes, rfl, ?_⟩
      show o₁.v+1 = _
      rw [hwriter.position]
      omega
    obtain ⟨l, hbehind, hsecond⟩ := writeUnits_ends isPPS fuel 0 hhole (c := unitAt m c j) (m := m) (by
      intro hgoes
      dsimp only at hfuel
      rw [hgoes] at hfuel
      exact lt_of_le_of_lt (unitAt_size m c (Nat.zero_le j)) (hfuel rfl))
    generalize hrun₂ : writeUnits m isPPS fuel 0 (unitAt m c j) (o₁.seekCur 1) = second at hsecond
    have hsum : 7+written m j c+written m l (unitAt m c j) = 7+written m (j+l) c := by
      rw [written_add, Nat.add_assoc]
    have hinside : ∀ k, k < j+l → Fitting m room (place m c k) (unitAt m c k) := by
      intro k hk
      by_cases hkj : k < j
      · exact forward_fitting hforward hkj
      · exact behind_fitting hbehind (by omega) hk
    cases hsecond with
    | raised e hgoing hfull hthrown =>
      refine ⟨.error e, rfl, ⟨fun _ k hk => ?_, fun _ e' he => ?_⟩⟩
      · by_cases hkl : k < j+l
        · exact Or.inr (hinside k hkl)
        · left
          rw [hsum] at hfull
          exact full_second (visited_behind hforward hbehind hgoing).2 hk (by omega) hfull
      · cases he
        exact hthrown
    | broken sWhat hgoing hlength hfit =>
      refine ⟨.error (undefinedBehaviour sWhat), rfl, ⟨fun hall => ?_, fun hsafe => ?_⟩⟩
      · exact absurd (hall _ rfl) (undefined_not_thrown sWhat)
      · obtain ⟨hvisited, hplace⟩ := visited_behind hforward hbehind hgoing
        have hunit := hsafe (j+l) hvisited
        rw [hsum] at hlength hfit
        rw [← unitAt_add] at hfit
        rw [hplace] at hunit
        rcases hunit with hfull | hfits
        · omega
        · exact absurd hfits hfit
    | ended o₂ hend₂ hwriter₂ =>
      rw [pure_bind]
      refine ⟨(fillIn iSPSIdx o₁.size (0+j) (0+l) o₂).map fun o' => (o'.data o₂.size, o'), ?_,
        ⟨fun _ k hk => Or.inr (hinside k (visited_end hend hbehind hend₂ hk)), fun _ e he => ?_⟩⟩
      · dsimp only
        cases fillIn iSPSIdx o₁.size (0+j) (0+l) o₂ <;> rfl
      · cases hfill : fillIn iSPSIdx o₁.size (0+j) (0+l) o₂ with
        | error e' =>
          rw [hfill] at he
          cases he
          exact fillIn_thrown hfill
        | ok o' =>
          rw [hfill] at he
          cases he

/-- An end of its own comes after finitely many steps, and nothing behind the buffer is read from. -/
structure Terminates (m : Memory) (iSize : ℕ) (o : OBuffer) : Prop where
  ends : ∃ fuel r, buildVideoExtraData m iSize fuel o = ofExcept r ∧ ∀ e, r = .error e → Thrown e
  inside : ∀ n, (unitAt m ⟨0, iSize⟩ n).pBuffer ≤ iSize

theorem unitAt_inside (m : Memory) (iSize n : ℕ) : (unitAt m ⟨0, iSize⟩ n).pBuffer ≤ iSize := by
  have h := unitAt_end m ⟨0, iSize⟩ n
  dsimp only at h
  omega

/-- From the first SPS on, the start of the record is written, and then come the loops. -/
theorem built_loops {n fuel : ℕ} (ho : o.iBytes = room) (hroom : 6 ≤ room)
    (hfind : findSPS m fuel c = pure (unitAt m c n)) (hc : c.pBuffer = 0) :
    ∃ o', Writer room 6 o' ∧ buildVideoExtraData m c.iSize fuel o = loops m fuel 5 (unitAt m c n) o' := by
  have hheader := writeHeader_fits ho (shift m (unitAt m c n).pBuffer)
  rw [Fits, if_pos (by omega)] at hheader
  obtain ⟨o₁, ho₁, h₁⟩ := hheader
  have hlen := opening_length (shift m (unitAt m c n).pBuffer)
  refine ⟨o₁.seekCur 1, ⟨h₁.bytes, rfl, ?_⟩, ?_⟩
  · show o₁.v+1 = 6
    rw [data_v h₁.data, hlen]
  · have hcursor : (⟨0, c.iSize⟩ : Cursor) = c := by
      rw [← hc]
    rw [buildVideoExtraData, hcursor, hfind, pure_bind, ho₁]
    show loops m fuel o₁.size (unitAt m c n) (o₁.seekCur 1) = _
    rw [fresh_size h₁, hlen]

/-- The loops end, with a result of their own, just when an SPS is found and everything from it on
fits. -/
theorem terminates_iff (ho : o.iBytes = 64000) :
    Terminates m iSize o ↔
      ∃ n, FirstSPS m ⟨0, iSize⟩ n ∧ Safe m 64000 (unitAt m ⟨0, iSize⟩ n) := by
  constructor
  · rintro ⟨⟨fuel, r, hbuild, hthrown⟩, -⟩
    rcases findSPS_ends m fuel ⟨0, iSize⟩ with hgoes | ⟨n, hfirst, hfind⟩
    · rw [buildVideoExtraData, hgoes] at hbuild
      cases hbuild
    · obtain ⟨o', hwriter, hloops⟩ := built_loops ho (by omega) hfind rfl
      dsimp only at hloops
      rw [hloops] at hbuild
      obtain ⟨r', hr', hsafe⟩ := loops_end fuel 5 hwriter (by
        intro hgoes
        rw [hbuild] at hgoes
        cases hgoes)
      rw [hr'] at hbuild
      cases hbuild
      exact ⟨n, hfirst, hsafe.1 hthrown⟩
  · rintro ⟨n, hfirst, hsafe⟩
    refine ⟨?_, unitAt_inside m iSize⟩
    have hfind := findSPS_found hfirst (show n < n+iSize+1 by omega)
    obtain ⟨o', hwriter, hloops⟩ := built_loops ho (by omega) hfind rfl
    obtain ⟨r, hr, hiff⟩ := loops_end (m := m) (c := unitAt m ⟨0, iSize⟩ n) (n+iSize+1) 5 hwriter (by
      intro _
      have hle : (unitAt m ⟨0, iSize⟩ n).iSize ≤ iSize := unitAt_size m ⟨0, iSize⟩ (Nat.zero_le n)
      omega)
    dsimp only at hloops
    rw [hr] at hloops
    exact ⟨_, r, hloops, hiff.2 hsafe⟩

/-- A buffer with one SPS and one PPS. -/
def pHeaders : Memory := store zeroed 0 [0, 0, 0, 1, 0x67, 0x42, 0xC0, 0x1E, 0, 0, 0, 1, 0x68, 0xCE]

theorem terminates_headers : Terminates pHeaders 14 (OBuffer.new 64000) := by
  have hsafe : Safe pHeaders 64000 ⟨0, 14⟩ := by
    intro k hk
    by_cases hlow : k < 2
    · right
      interval_cases k
      · exact ⟨by decide +kernel, by decide +kernel⟩
      · exact ⟨by decide +kernel, by decide +kernel⟩
    · have hsize := unitAt_size pHeaders ⟨0, 14⟩ (show 2 ≤ k by omega)
      have hend : (unitAt pHeaders ⟨0, 14⟩ 2).iSize = 0 := by decide +kernel
      have hpos := hk.1
      omega
  exact (terminates_iff rfl).2 ⟨0, ⟨by decide +kernel, fun i hi => absurd hi (Nat.not_lt_zero i)⟩, hsafe⟩

/-- A buffer with a PPS and nothing else. -/
def pAlone : Memory := store zeroed 0 [0, 0, 0, 1, 0x68, 0xCE]

theorem goes_on : ¬ Terminates pAlone 6 (OBuffer.new 64000) := by
  have hstays : ∀ n, unitAt pAlone ⟨6, 0⟩ n = ⟨6, 0⟩ := by
    intro n
    have hnext : Cursor.next pAlone ⟨6, 0⟩ = ⟨6, 0⟩ := by
      have hsize := (iNAL_bounds pAlone ⟨6, 0⟩).1
      rw [Cursor.next, Nat.le_zero.1 hsize, Nat.add_zero, Nat.sub_zero]
    exact Function.iterate_fixed hnext n
  have hother : ∀ n, (unitAt pAlone ⟨0, 6⟩ n).type pAlone ≠ NAL_UNIT_TYPE_SPS := by
    intro n
    cases n with
    | zero => decide +kernel
    | succ n =>
      have hsix : Cursor.next pAlone ⟨0, 6⟩ = ⟨6, 0⟩ := by
        have hnal : Cursor.iNAL pAlone ⟨0, 6⟩ = 6 := by decide +kernel
        rw [Cursor.next, hnal, Nat.zero_add, Nat.sub_self]
      rw [unitAt_next, hsix, hstays n]
      decide +kernel
  rintro ⟨⟨fuel, r, hbuild, -⟩, -⟩
  rcases findSPS_ends pAlone fuel ⟨0, 6⟩ with hgoes | ⟨n, hfirst, -⟩
  · rw [buildVideoExtraData, hgoes] at hbuild
    cases hbuild
  · exact hother n hfirst.1

end Sirannon.VideoExtra
