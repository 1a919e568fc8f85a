import Sirannon.HTTPConnection

/-!
# Receiving a header in pieces

The search for the end of a header goes on from its last marker after every
piece. It finds what a search of the whole stream finds, wherever the stream
is cut.
-/

set_option autoImplicit false

namespace Sirannon.HTTP.HTTPConnection
open Bits MachineInt Connection StateError

/-! ## The search -/

theorem scan_append {s t : Bytes} {p last q : ℤ} (h : scan s p last = (true, q)) :
    scan (s ++ t) p last = (true, q) := by
  induction s generalizing p last with
  | nil => cases h
  | cons a s ih =>
    cases s with
    | nil => cases h
    | cons b s =>
      rw [List.cons_append, List.cons_append, scan]
      rw [scan] at h
      split_ifs at h ⊢ with hmark hend
      · exact h
      · exact ih h
      · exact ih h

theorem scan_bounds {s : Bytes} {p last q : ℤ} (h : scan s p last = (true, q)) :
    p ≤ q ∧ q+2 ≤ p+s.length := by
  induction s generalizing p last with
  | nil => cases h
  | cons a s ih =>
    cases s with
    | nil => cases h
    | cons b s =>
      rw [scan] at h
      simp only [List.length_cons] at ih ⊢
      split_ifs at h with hmark hend
      · have hq := congrArg Prod.snd h
        dsimp only at hq
        omega
      · have hle := ih h
        omega
      · have hle := ih h
        omega

/-- Nothing behind the end of the header matters. -/
theorem scan_take {s : Bytes} {p last q : ℤ} (h : scan s p last = (true, q)) :
    scan (s.take (q+2-p).toNat) p last = (true, q) := by
  induction s generalizing p last with
  | nil => cases h
  | cons a s ih =>
    cases s with
    | nil => cases h
    | cons b s =>
      have hbounds := scan_bounds h
      obtain ⟨n, hn⟩ : ∃ n, (q+2-p).toNat = n+2 := ⟨(q-p).toNat, by omega⟩
      have hn' : (q+2-(p+1)).toNat = n+1 := by omega
      rw [hn, List.take_succ_cons, List.take_succ_cons, scan]
      rw [scan] at h
      split_ifs at h ⊢ with hmark hend
      · exact h
      · have hrest := ih h
        rwa [hn', List.take_succ_cons] at hrest
      · have hrest := ih h
        rwa [hn', List.take_succ_cons] at hrest

theorem scan_skip {s : Bytes} {p last : ℤ} {b : UInt8} (hb : b ≠ 13) :
    scan (b::s) p last = scan s (p+1) last := by
  cases s with
  | nil => rfl
  | cons c s => rw [scan, if_neg fun hmark => hb hmark.1]

/-- A search that ends without success is resumed at the last marker it saw. -/
theorem scan_resume {s : Bytes} (t : Bytes) {p last l : ℤ} (h : scan s p last = (false, l)) :
    l = last ∨ (p ≤ l ∧ l+2 ≤ p+s.length ∧
      scan (s ++ t) p last = scan ((s ++ t).drop (l+2-p).toNat) (l+2) l) := by
  induction s generalizing p last with
  | nil => exact Or.inl (congrArg Prod.snd h).symm
  | cons a s ih =>
    cases s with
    | nil => exact Or.inl (congrArg Prod.snd h).symm
    | cons b s =>
      rw [scan] at h
      simp only [List.cons_append, List.length_cons] at ih ⊢
      rw [scan]
      split_ifs at h ⊢ with hmark hend
      · cases h
      · right
        rcases ih h with rfl | ⟨hle, hlen, hscan⟩
        · refine ⟨le_rfl, by omega, ?_⟩
          have htwo : (l+2-l).toNat = 2 := by omega
          rw [htwo, scan_skip (by rw [hmark.2]; decide), add_assoc]
          rfl
        · refine ⟨by omega, by omega, ?_⟩
          have hdrop : (l+2-p).toNat = (l+2-(p+1)).toNat+1 := by omega
          rw [hscan, hdrop, List.drop_succ_cons]
      · rcases ih h with rfl | ⟨hle, hlen, hscan⟩
        · exact Or.inl rfl
        · right
          refine ⟨by omega, by omega, ?_⟩
          have hdrop : (l+2-p).toNat = (l+2-(p+1)).toNat+1 := by omega
          rw [hscan, hdrop, List.drop_succ_cons]

/-! ## The stream -/

/-- What was received and is still to come. -/
def stream (h : HTTPConnection) : Bytes := h.pRcvBuffer ++ pending h.pConnection

/-- The search has come as far as the last marker. -/
structure Resumed (S : Bytes) (h : HTTPConnection) : Prop where
  whole : h.stream = S
  first : -2 ≤ h.pLastMarker
  last : h.pLastMarker+2 ≤ h.iOffset
  search : scan S 0 (-2) = scan (S.drop (h.pLastMarker+2).toNat) (h.pLastMarker+2) h.pLastMarker

variable {S : Bytes} {h : HTTPConnection}

theorem resumed_drop (hr : Resumed S h) : S.drop (h.pLastMarker+2).toNat =
    h.pRcvBuffer.drop (h.pLastMarker+2).toNat ++ pending h.pConnection := by
  have hlast := hr.last
  rw [← hr.whole, stream, List.drop_append_of_le_length]
  rw [iOffset] at hlast
  omega

theorem resumed_found (hr : Resumed S h) {q : ℤ}
    (hmarker : marker h.pRcvBuffer h.pLastMarker = (true, q)) :
    scan S 0 (-2) = (true, q) ∧ 0 ≤ q ∧ q+2 ≤ h.iOffset := by
  rw [marker] at hmarker
  have hbounds := scan_bounds hmarker
  have hfirst := hr.first
  have hlast := hr.last
  rw [List.length_drop] at hbounds
  rw [hr.search, resumed_drop hr, scan_append hmarker]
  rw [iOffset] at hlast ⊢
  exact ⟨rfl, by omega, by omega⟩

theorem resumed_searched (hr : Resumed S h) {l : ℤ}
    (hmarker : marker h.pRcvBuffer h.pLastMarker = (false, l)) :
    Resumed S { h with pLastMarker := l } := by
  rw [marker] at hmarker
  rcases scan_resume (pending h.pConnection) hmarker with rfl | ⟨hle, hlen, hscan⟩
  · exact hr
  · have hfirst := hr.first
    have hlast := hr.last
    rw [List.length_drop] at hlen
    refine ⟨hr.whole, by dsimp only; omega, ?_, ?_⟩
    · rw [iOffset] at hlast
      show l+2 ≤ (h.pRcvBuffer.length : ℤ)
      omega
    · rw [hr.search, resumed_drop hr, hscan, ← resumed_drop hr, List.drop_drop]
      have hdrop : (h.pLastMarker+2).toNat+(l+2-(h.pLastMarker+2)).toNat = (l+2).toNat := by omega
      rw [hdrop]

theorem receiveOnce_stream (bBlocking : Bool) (arrivals : List Arrival) (n : ℕ) :
    (receiveOnce bBlocking arrivals n).data ++
      (receiveOnce bBlocking arrivals n).rest.flatMap Arrival.data =
        arrivals.flatMap Arrival.data := by
  induction arrivals with
  | nil => rfl
  | cons a rest ih =>
    cases a with
    | timeOut => exact ih
    | again =>
      rw [receiveOnce]
      split_ifs
      · exact ih
      · rfl
    | closed => rfl
    | error => rfl
    | bytes bs =>
      rw [receiveOnce]
      split_ifs with hempty hfull
      · rw [hempty]
        exact ih
      · rw [List.flatMap_cons, ← List.append_assoc]
        exact congrArg (· ++ _) (List.take_append_drop n bs)
      · rfl

theorem received_stream (h : HTTPConnection) : h.received.stream = h.stream := by
  rw [stream, stream, received]
  show h.pRcvBuffer ++ (receiveOnce _ _ _).data ++ (receiveOnce _ _ _).rest.flatMap _ = _
  rw [List.append_assoc, receiveOnce_stream]
  rfl

theorem received_offset (h : HTTPConnection) : h.iOffset ≤ h.received.iOffset := by
  rw [iOffset, iOffset, received]
  show _ ≤ (h.pRcvBuffer ++ _).length
  rw [List.length_append]
  exact Nat.le_add_right _ _

theorem resumed_received (hr : Resumed S h) : Resumed S h.received := by
  refine ⟨(received_stream h).trans hr.whole, hr.first, ?_, hr.search⟩
  exact hr.last.trans (Nat.cast_le.mpr (received_offset h))

/-! ## Inside the buffer -/

/-- There is room for another byte, and nothing was written outside. -/
structure Within (h : HTTPConnection) : Prop where
  offset : h.iOffset < iBuffer
  written : ∀ w ∈ h.written, 0 ≤ w.1 ∧ w.1+w.2 ≤ iBuffer

theorem written_within {off : ℤ} {len : ℕ}
    (hold : ∀ w ∈ h.written, 0 ≤ w.1 ∧ w.1+w.2 ≤ iBuffer) (hoff : 0 ≤ off)
    (hlen : off+len ≤ iBuffer) : ∀ w ∈ (h.writing off len).written, 0 ≤ w.1 ∧ w.1+w.2 ≤ iBuffer := by
  intro w hw
  rcases List.mem_append.mp hw with hw | hw
  · exact hold w hw
  · rw [List.mem_singleton.mp hw]
    exact ⟨hoff, hlen⟩

theorem room_eq (hoffset : h.iOffset < iBuffer) : h.room = iBuffer-h.iOffset-1 := by
  have hcast : (iBuffer : ℤ)-h.iOffset-1 = ((iBuffer-h.iOffset-1 : ℕ) : ℤ) := by omega
  rw [room, hcast, uint32_of_range]
  have hbuffer : iBuffer = 64000 := rfl
  omega

theorem received_within (hw : Within h) : Within h.received := by
  have hroom := room_eq hw.offset
  have hlength := (receiveOnce_data h.pConnection.bBlocking h.pConnection.arrivals h.room).1
  have hoffset := hw.offset
  constructor
  · show (h.pRcvBuffer ++ (receiveOnce _ _ _).data).length < iBuffer
    rw [List.length_append]
    rw [iOffset] at hroom hoffset
    omega
  · exact written_within hw.written (Int.natCast_nonneg _) (by omega)

theorem shifted_within (hoffset : h.iOffset < iBuffer ∨ h.iOffset ≤ h.iMessage)
    (hle : h.iOffset ≤ iBuffer) (hw : ∀ w ∈ h.written, 0 ≤ w.1 ∧ w.1+w.2 ≤ iBuffer) :
    Within h.shifted := by
  rw [shifted]
  by_cases hshift : h.iMessage < h.iOffset
  · rw [if_pos hshift]
    constructor
    · show (h.pRcvBuffer.drop h.iMessage).length < iBuffer
      rw [List.length_drop]
      rw [iOffset] at hoffset hshift
      omega
    · exact written_within hw le_rfl (by omega)
  · rw [if_neg hshift]
    exact ⟨by simp [iOffset, iBuffer], hw⟩

theorem shifted_resumed (h : HTTPConnection) : Resumed h.shifted.stream h.shifted := by
  have hlast : h.shifted.pLastMarker = -2 := by
    rw [shifted]
    split_ifs <;> rfl
  refine ⟨rfl, hlast.ge, ?_, ?_⟩
  · rw [hlast]
    exact Int.natCast_nonneg _
  · rw [hlast]
    rfl

/-- Where the search was successful. -/
structure Found (S : Bytes) (h : HTTPConnection) : Prop where
  whole : h.stream = S
  marker : scan S 0 (-2) = (true, h.pLastMarker)
  first : 0 ≤ h.pLastMarker
  last : h.pLastMarker+2 ≤ h.iOffset

theorem findMarker_within (S : Bytes) (fuel : ℕ) :
    Triple (fun h => Resumed S h ∧ Within h) (findMarker fuel)
      (fun bMessage h => Within h ∧ (bMessage = true → Found S h)) (fun _ h => Within h) := by
  induction fuel with
  | zero => exact triple_pure _ fun h hh => ⟨hh.2, fun hfalse => by cases hfalse⟩
  | succ fuel ih =>
    rw [findMarker]
    apply triple_get_bind
    intro h hh
    rcases hmarker : marker h.pRcvBuffer h.pLastMarker with ⟨bMessage, l⟩
    cases bMessage with
    | true =>
      rcases resumed_found hh.1 hmarker with ⟨hscan, hfirst, hlast⟩
      apply triple_modify_bind (R := fun h' => h' = { h with pLastMarker := l })
      · intro h' heq
        rw [heq, hmarker]
      · rw [if_pos rfl]
        apply triple_pure
        intro h' heq
        rw [heq]
        exact ⟨⟨hh.2.offset, hh.2.written⟩, fun _ => ⟨hh.1.whole, hscan, hfirst, hlast⟩⟩
    | false =>
      have hsearched := resumed_searched hh.1 hmarker
      have hwithin : Within { h with pLastMarker := l } := ⟨hh.2.offset, hh.2.written⟩
      apply triple_modify_bind (R := fun h' => h' = { h with pLastMarker := l })
      · intro h' heq
        rw [heq, hmarker]
      · rw [if_neg Bool.false_ne_true]
        apply triple_modify_bind (R := fun h' => Resumed S h' ∧ Within h')
        · intro h' heq
          rw [heq]
          exact ⟨resumed_received hsearched, received_within hwithin⟩
        · apply triple_ofExcept_bind
          · intro _ _ h' hh'
            exact hh'.2
          · intro iBytes _
            apply triple_ite
            · intro _
              exact triple_pure _ fun h' hh' => ⟨hh'.2, fun hfalse => by cases hfalse⟩
            · intro _
              exact ih

/-- There are turns enough. -/
theorem findMarker_turns (fuel : ℕ) (hw : Within h) (hfuel : iBuffer ≤ fuel+h.iOffset) :
    (findMarker (fuel+1)).run h = (findMarker fuel).run h := by
  induction fuel generalizing h with
  | zero => exact absurd hw.offset (by omega)
  | succ fuel ih =>
    rw [findMarker, findMarker, run_get_bind, run_get_bind, run_modify_bind, run_modify_bind]
    by_cases hmarker : (marker h.pRcvBuffer h.pLastMarker).1 = true
    · rw [if_pos hmarker, if_pos hmarker]
    · rw [if_neg hmarker, if_neg hmarker, run_modify_bind, run_modify_bind]
      cases hstatus : (receiveRaw h.pConnection h.room).1 with
      | error e => rfl
      | ok iBytes =>
        rw [run_ofExcept_bind rfl, run_ofExcept_bind rfl]
        by_cases hpos : iBytes ≤ 0
        · rw [if_pos hpos, if_pos hpos]
        · rw [if_neg hpos, if_neg hpos]
          have hdata := (receiveOnce_data h.pConnection.bBlocking h.pConnection.arrivals h.room).2.2
            (evaluateStatus_ok hstatus (not_le.mp hpos))
          have hgrow := List.length_pos_of_ne_nil hdata
          have hwithin : Within { h with pLastMarker := (marker h.pRcvBuffer h.pLastMarker).2 } :=
            ⟨hw.offset, hw.written⟩
          apply ih (received_within hwithin)
          show iBuffer ≤ fuel+(h.pRcvBuffer ++
            (receiveOnce h.pConnection.bBlocking h.pConnection.arrivals h.room).data).length
          rw [List.length_append]
          rw [iOffset] at hfuel
          omega

/-! ## An undisturbed stream -/

/-- A header that has come in whole is found. -/
theorem resumed_complete (hr : Resumed S h) {q : ℤ} (hscan : scan S 0 (-2) = (true, q))
    (hcome : q+2 ≤ h.iOffset) : marker h.pRcvBuffer h.pLastMarker = (true, q) := by
  have hfirst := hr.first
  have hsearch := hr.search
  rw [hscan] at hsearch
  have htake := scan_take hsearch.symm
  have hbounds := scan_bounds hsearch.symm
  rw [iOffset] at hcome
  have hslice : (S.drop (h.pLastMarker+2).toNat).take (q+2-(h.pLastMarker+2)).toNat =
      (h.pRcvBuffer.drop (h.pLastMarker+2).toNat).take (q+2-(h.pLastMarker+2)).toNat := by
    rw [resumed_drop hr, List.take_append_of_le_length]
    rw [List.length_drop]
    omega
  rw [hslice] at htake
  have happend := scan_append (t := (h.pRcvBuffer.drop (h.pLastMarker+2).toNat).drop
    (q+2-(h.pLastMarker+2)).toNat) htake
  rwa [List.take_append_drop] at happend

/-- As long as the header has not come in whole, the socket brings more of it. -/
theorem received_more (hr : Resumed S h) (hclean : Clean h.pConnection)
    (hoffset : h.iOffset+1 < iBuffer) (hmore : h.iOffset < S.length) :
    (∃ iBytes, (receiveRaw h.pConnection h.room).1 = .ok iBytes ∧ 0 < iBytes) ∧
      h.iOffset < h.received.iOffset ∧ h.received.iOffset < iBuffer ∧
      Clean h.received.pConnection := by
  have hroom := room_eq (Nat.lt_of_succ_lt hoffset)
  have hpending : pending h.pConnection ≠ [] := by
    intro hnil
    rw [← hr.whole, stream, hnil, List.append_nil] at hmore
    exact lt_irrefl _ hmore
  have hdata := receiveOnce_data h.pConnection.bBlocking h.pConnection.arrivals h.room
  rcases receiveOnce_clean h.pConnection.bBlocking h.pConnection.arrivals (n := h.room)
    (by omega) hclean hpending with ⟨hpos, -, hrest⟩
  have hlength := List.length_pos_of_ne_nil (hdata.2.2 hpos)
  have hreceived : h.received.iOffset =
      h.iOffset+(receiveOnce h.pConnection.bBlocking h.pConnection.arrivals h.room).data.length :=
    List.length_append
  refine ⟨⟨_, evaluateStatus_pos _ _ hpos, hpos⟩, by omega, ?_, hrest⟩
  have hle := hdata.1
  omega

theorem findMarker_finds {q : ℤ} (fuel : ℕ) (hr : Resumed S h) (hclean : Clean h.pConnection)
    (hscan : scan S 0 (-2) = (true, q)) (hq : q+2 < iBuffer) (hoffset : h.iOffset < iBuffer)
    (hfuel : iBuffer ≤ fuel+h.iOffset) :
    ∃ h', (findMarker fuel).run h = .ok true h' ∧ h'.pLastMarker = q ∧ h'.stream = S ∧
      h'.iOffset < iBuffer ∧ q+2 ≤ h'.iOffset ∧ Clean h'.pConnection ∧
      h'.sApplication = h.sApplication := by
  induction fuel generalizing h with
  | zero => omega
  | succ fuel ih =>
    rw [findMarker, run_get_bind, run_modify_bind]
    rcases hmarker : marker h.pRcvBuffer h.pLastMarker with ⟨bMessage, l⟩
    cases bMessage with
    | true =>
      rcases resumed_found hr hmarker with ⟨hfound, -, hlast⟩
      rw [hscan] at hfound
      have hl : q = l := congrArg Prod.snd hfound
      rw [if_pos rfl]
      refine ⟨_, rfl, hl.symm, hr.whole, hoffset, ?_, hclean, rfl⟩
      rw [hl]
      exact hlast
    | false =>
      have hcome : ¬ q+2 ≤ h.iOffset := by
        intro hcome
        rw [resumed_complete hr hscan hcome] at hmarker
        cases hmarker
      have hlength := (scan_bounds hscan).2
      have hsearched := resumed_searched hr hmarker
      rcases received_more hsearched hclean (by
          show h.iOffset+1 < iBuffer
          omega) (by
          show h.iOffset < S.length
          omega) with ⟨⟨iBytes, hstatus, hpos⟩, hgrow, hless, hclean'⟩
      have hstatus' : (receiveRaw h.pConnection h.room).1 = .ok iBytes := hstatus
      rw [if_neg Bool.false_ne_true, run_modify_bind, run_ofExcept_bind hstatus',
        if_neg (not_le.mpr hpos)]
      have hgrow' : h.iOffset < _ := hgrow
      rcases ih (resumed_received hsearched) hclean' hless (by omega) with
        ⟨h', hrun, hl, hwhole, hoff, hcome', hcl, happ⟩
      exact ⟨h', hrun, hl, hwhole, hoff, hcome', hcl, happ⟩

end Sirannon.HTTP.HTTPConnection
