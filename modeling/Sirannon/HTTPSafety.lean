import Sirannon.HTTPReceiving

/-!
# What a hostile header can do

Whatever a client sends, nothing is written outside the buffer. The bounds a
caller relies on hold as well, unless the header declares a negative length:
the sum with the length of the header wraps, and what it says is not checked.
-/

set_option autoImplicit false

namespace Sirannon.HTTP.HTTPConnection
open Bits MachineInt Connection StateError

/-! ## What a header declares -/

/-- The header at the start of a stream, without the empty line at its end. -/
def headerOf (S : Bytes) : Bytes := S.take (scan S 0 (-2)).2.toNat

def fieldsOf (text : Bytes) : Fields :=
  match search headExpression (cstr text) with
  | none => []
  | some m =>
    (parseFields (text.length+1) (text.drop ((cstr text).length-m.suffix.length)) []).2

/-- The length of the content, as the first header of a stream has it. -/
def declaredLength (S : Bytes) : ℤ := atoi ((fieldsOf (headerOf S)).value lengthKey)

variable {S : Bytes} {h : HTTPConnection}

theorem found_text (hf : Found S h) : h.text = headerOf S := by
  have hlast := hf.last
  rw [iOffset] at hlast
  rw [text, headerOf, hf.marker, ← hf.whole, stream, List.take_append_of_le_length]
  omega

/-! ## One call -/

/-- What holds between calls. -/
structure Bounded (h : HTTPConnection) : Prop where
  offset : h.iOffset ≤ iBuffer
  last : h.iOffset < iBuffer ∨ h.iOffset ≤ h.iMessage
  written : ∀ w ∈ h.written, 0 ≤ w.1 ∧ w.1+w.2 ≤ iBuffer

/-- With the header found and its length known. -/
structure Headed (S : Bytes) (h : HTTPConnection) : Prop where
  within : Within h
  found : Found S h
  header : h.iHeader ≤ h.iOffset

structure Parsed (S : Bytes) (iStatus : ℤ) (h : HTTPConnection) : Prop where
  within : Within h
  header : h.iHeader ≤ h.iOffset
  fields : 0 ≤ iStatus → h.mFields = fieldsOf (headerOf S)

structure Measured (S : Bytes) (h : HTTPConnection) : Prop where
  within : Within h
  header : h.iHeader ≤ h.iOffset
  content : h.iContent = uint32 (declaredLength S)
  message : h.iMessage = uint32 (h.iHeader+h.iContent)

structure Complete (S : Bytes) (h : HTTPConnection) : Prop where
  header : h.iHeader ≤ h.iOffset
  content : h.iContent = uint32 (declaredLength S)
  message : h.iMessage = uint32 (h.iHeader+h.iContent)
  offset : h.iMessage ≤ h.iOffset

theorem within_bounded (hw : Within h) : Bounded h :=
  ⟨hw.offset.le, Or.inl hw.offset, hw.written⟩

theorem terminated_within (hh : Headed S h) : Within h.terminated := by
  have hlast := hh.found.last
  have hoffset := hh.within.offset
  constructor
  · show (h.pRcvBuffer.set _ _).length < iBuffer
    rw [List.length_set]
    exact hoffset
  · exact written_within hh.within.written hh.found.first (by omega)

theorem terminated_header (hh : Headed S h) : h.terminated.iHeader ≤ h.terminated.iOffset := by
  show h.iHeader ≤ (h.pRcvBuffer.set _ _).length
  rw [List.length_set]
  exact hh.header

theorem parse_within (S : Bytes) :
    Triple (Headed S) parseRequestHeader (Parsed S) (fun _ h => Within h) := by
  rw [parseRequestHeader]
  apply triple_get_bind
  intro h hh
  apply triple_modify_bind (R := fun h' => h' = h.terminated)
  · intro h' heq
    rw [heq]
  · have hwithin := terminated_within hh
    have hheader := terminated_header hh
    have hfields : fieldsOf h.text = fieldsOf (headerOf S) := by rw [found_text hh.found]
    rw [fieldsOf] at hfields
    cases hsearch : search headExpression (cstr h.text) with
    | none =>
      apply triple_pure
      intro h' heq
      rw [heq]
      exact ⟨hwithin, hheader, fun hle => absurd hle (by decide)⟩
    | some m =>
      rw [hsearch] at hfields
      dsimp only at hfields ⊢
      apply triple_modify_bind (R := fun h' => Parsed S 0 h')
      · intro h' heq
        rw [heq]
        exact ⟨⟨hwithin.offset, hwithin.written⟩, hheader, fun _ => hfields⟩
      · apply triple_ite
        · intro _
          exact triple_pure _ fun h' hh' => ⟨hh'.within, hh'.header, fun _ => hh'.fields le_rfl⟩
        · intro _
          exact triple_pure _ fun h' hh' => ⟨hh'.within, hh'.header, fun _ => hh'.fields le_rfl⟩

theorem measured_spec {iStatus : ℤ} (hp : Parsed S iStatus h) (hstatus : 0 ≤ iStatus) :
    Measured S h.measured := by
  refine ⟨⟨hp.within.offset, hp.within.written⟩, hp.header, ?_, rfl⟩
  show uint32 (atoi (h.mFields.value lengthKey)) = _
  rw [hp.fields hstatus, declaredLength]

theorem receiveWhole_status (bBlocking : Bool) (arrivals : List Arrival) (n : ℕ)
    (got : List UInt8) :
    (receiveWhole bBlocking arrivals n got).data.length = got.length+n ∨
      (receiveWhole bBlocking arrivals n got).iVal ≤ 0 := by
  induction arrivals generalizing n got with
  | nil => cases n <;> simp [receiveWhole]
  | cons a rest ih =>
    cases n with
    | zero => simp [receiveWhole]
    | succ n =>
      cases a with
      | timeOut => exact ih _ _
      | again =>
        rw [receiveWhole]
        split_ifs
        · exact ih _ _
        · exact Or.inr (by simp [comAgain])
      | closed => exact Or.inr le_rfl
      | error => exact Or.inr (by simp [receiveWhole])
      | bytes bs =>
        rw [receiveWhole]
        split_ifs with hempty hfull
        · exact ih _ _
        · left
          rw [List.length_append, List.length_take, Nat.min_eq_left hfull.le]
        · have hrest := ih (n+1-bs.length) (got ++ bs)
          rw [List.length_append] at hrest
          rcases hrest with hrest | hrest
          · left
            rw [hrest]
            omega
          · exact Or.inr hrest

/-- A receive of all that is asked for succeeds only with all of it. -/
theorem receiveSmartWhole_ok {c : ConnectionInterface} {n : ℕ} {iStatus : ℤ}
    (hok : (receiveSmartWhole c n).1 = .ok iStatus) (hpos : 0 < iStatus) :
    (receiveSmartWhole c n).2.1.length = n := by
  rw [receiveSmartWhole] at hok ⊢
  dsimp only at hok ⊢
  by_contra hne
  rw [if_neg hne] at hok
  have hval := evaluateStatus_ok hok hpos
  rcases receiveWhole_status c.bBlocking c.arrivals n [] with hlen | hle
  · rw [List.length_nil, Nat.zero_add] at hlen
    exact hne hlen
  · exact absurd hval (not_lt.mpr hle)

theorem completed_bounded (hm : Measured S h) (hmessage : h.iMessage ≤ iBuffer)
    (hmore : h.iOffset < h.iMessage) : Bounded h.completed ∧
      ((receiveSmartWhole h.pConnection (h.iMessage-h.iOffset)).2.1.length = h.iMessage-h.iOffset →
        Complete S h.completed) := by
  have hroom : (h.iOffset : ℤ)+(h.iMessage-h.iOffset : ℕ) ≤ iBuffer := by omega
  have hwritten := written_within hm.within.written (Int.natCast_nonneg h.iOffset) hroom
  by_cases hlen : (receiveSmartWhole h.pConnection (h.iMessage-h.iOffset)).2.1.length =
      h.iMessage-h.iOffset
  · have hoffset : h.completed.iOffset = h.iMessage := by
      show (if _ then h.pRcvBuffer ++ _ else h.pRcvBuffer).length = _
      rw [if_pos hlen, List.length_append, hlen]
      exact Nat.add_sub_cancel' hmore.le
    refine ⟨⟨hoffset.le.trans hmessage, Or.inr hoffset.le, hwritten⟩, fun _ => ?_⟩
    refine ⟨?_, hm.content, hm.message, hoffset.ge⟩
    rw [hoffset]
    exact hm.header.trans hmore.le
  · have hoffset : h.completed.iOffset = h.iOffset := by
      show (if _ then h.pRcvBuffer ++ _ else h.pRcvBuffer).length = _
      rw [if_neg hlen]
      rfl
    refine ⟨⟨?_, Or.inl ?_, hwritten⟩, fun hlen' => absurd hlen' hlen⟩
    · rw [hoffset]
      exact hm.within.offset.le
    · rw [hoffset]
      exact hm.within.offset

theorem receiveContent_bounded (S : Bytes) :
    Triple (Measured S) receiveContent
      (fun bComplete h => Bounded h ∧ (bComplete = true → Complete S h)) (fun _ h => Bounded h) := by
  rw [receiveContent]
  apply triple_get_bind
  intro h hm
  apply triple_ite
  · intro _
    apply triple_throw
    intro h' heq
    rw [heq]
    exact within_bounded hm.within
  · intro hmessage
    have hmessage' : h.iMessage ≤ iBuffer := Nat.le_of_not_lt hmessage
    apply triple_ite
    · intro hmore
      have hcompleted := completed_bounded hm hmessage' hmore
      apply triple_modify_bind (R := fun h' => h' = h.completed)
      · intro h' heq
        rw [heq]
      · apply triple_ofExcept_bind
        · intro _ _ h' heq
          rw [heq]
          exact hcompleted.1
        · intro iStatus hstatus
          apply triple_pure
          intro h' heq
          rw [heq]
          refine ⟨hcompleted.1, fun hpos => hcompleted.2 ?_⟩
          exact receiveSmartWhole_ok hstatus (of_decide_eq_true hpos)
    · intro hmore
      apply triple_pure
      intro h' heq
      rw [heq]
      exact ⟨within_bounded hm.within, fun _ =>
        ⟨hm.header, hm.content, hm.message, Nat.le_of_not_lt hmore⟩⟩

/-- One call, on the stream it finds. -/
theorem receiveMessage_bounded (S : Bytes) :
    Triple (fun h => Bounded h ∧ h.shifted.stream = S) (receiveMessage true)
      (fun iStatus h => Bounded h ∧ (0 ≤ iStatus → Complete S h)) (fun _ h => Bounded h) := by
  rw [receiveMessage, receive]
  apply triple_modify_bind (R := fun h => Resumed S h ∧ Within h)
  · intro h hh
    refine ⟨?_, shifted_within hh.1.last hh.1.offset hh.1.written⟩
    rw [← hh.2]
    exact shifted_resumed h
  apply triple_bind (triple_conseq (findMarker_within S _) (fun _ hh => hh) (fun _ _ hq => hq)
    fun _ _ hw => within_bounded hw)
  intro bMessage
  cases bMessage with
  | false =>
    rw [if_neg Bool.false_ne_true]
    exact triple_pure _ fun h hh =>
      ⟨within_bounded hh.1, fun hle => absurd hle (by decide)⟩
  | true =>
    rw [if_pos rfl]
    apply triple_modify_bind (R := Headed S)
    · intro h hh
      have hfound := hh.2 rfl
      have hlast := hfound.last
      refine ⟨⟨hh.1.offset, hh.1.written⟩, ⟨hfound.whole, hfound.marker, hfound.first, hlast⟩, ?_⟩
      show (h.pLastMarker+2).toNat ≤ h.iOffset
      omega
    apply triple_bind (triple_conseq (parse_within S) (fun _ hh => hh) (fun _ _ hq => hq)
      fun _ _ hw => within_bounded hw)
    intro iStatus
    apply triple_get_bind
    intro h hp
    apply triple_ite
    · intro _
      apply triple_throw
      intro h' heq
      rw [heq]
      exact within_bounded hp.within
    · intro hstatus
      apply triple_modify_bind (R := Measured S)
      · intro h' heq
        rw [heq]
        exact measured_spec hp (not_lt.mp hstatus)
      rw [if_pos rfl]
      apply triple_bind (receiveContent_bounded S)
      intro bComplete
      apply triple_get_bind
      intro h' hh'
      cases bComplete with
      | true =>
        rw [if_pos rfl]
        apply triple_pure
        intro h'' heq
        rw [heq]
        exact ⟨hh'.1, fun _ => hh'.2 rfl⟩
      | false =>
        rw [if_neg Bool.false_ne_true]
        apply triple_pure
        intro h'' heq
        rw [heq]
        exact ⟨hh'.1, fun hle => absurd hle (by decide)⟩

/-! ## Any number of calls -/

/-- The connection after a call, however it ends. -/
def called (h : HTTPConnection) : HTTPConnection := after ((receiveMessage true).run h)

def calls : ℕ → HTTPConnection → HTTPConnection
  | 0, h => h
  | n+1, h => calls n h.called

theorem new_bounded (c : ConnectionInterface) (sApplication : String) :
    Bounded (new c sApplication) where
  offset := Nat.zero_le _
  last := Or.inr le_rfl
  written := by simp [new]

theorem called_bounded (hb : Bounded h) : Bounded h.called :=
  triple_after (triple_conseq (receiveMessage_bounded h.shifted.stream) (fun _ hh => hh)
    (fun _ _ hq => hq.1) fun _ _ he => he) ⟨hb, rfl⟩

theorem calls_bounded (n : ℕ) (hb : Bounded h) : Bounded (calls n h) := by
  induction n generalizing h with
  | zero => exact hb
  | succ n ih => exact ih (called_bounded hb)

/-- The order of the offsets, and that the content lies in what was received. -/
structure Safe (h : HTTPConnection) : Prop where
  header : h.iHeader ≤ h.iMessage
  message : h.iMessage ≤ h.iOffset
  offset : h.iOffset ≤ iBuffer
  content : h.iHeader+h.iContent ≤ h.iOffset

theorem safe_iff_declared (hc : Complete S h) (hoffset : h.iOffset ≤ iBuffer) :
    Safe h ↔ 0 ≤ declaredLength S := by
  have hbuffer : iBuffer = 64000 := rfl
  have hlow : -2^31 ≤ declaredLength S := int32_low _
  have hhigh : declaredLength S < 2^31 := int32_high _
  have hcontent := hc.content
  have hmessage := hc.message
  have hheader := hc.header
  rw [uint32_add] at hmessage
  constructor
  · intro hsafe
    have hrange := hsafe.content
    rw [hcontent, uint32] at hrange
    omega
  · intro hdeclared
    have hsmall : uint32 (declaredLength S) = (declaredLength S).toNat := by
      rw [uint32]
      omega
    rw [hsmall] at hcontent
    have hsum : h.iMessage = h.iHeader+h.iContent := by omega
    have hoff := hc.offset
    exact ⟨by omega, hoff, hoffset, by omega⟩

/-- After any calls, on any connection: all writes are inside the buffer, and a call that succeeds
leaves the bounds right if and only if the length its header declares is not negative. -/
theorem calls_safe_iff (c : ConnectionInterface) (sApplication : String) (n : ℕ) :
    (∀ w ∈ (calls n (new c sApplication)).written, 0 ≤ w.1 ∧ w.1+w.2 ≤ iBuffer) ∧
      ∀ iStatus h, (receiveMessage true).run (calls n (new c sApplication)) = .ok iStatus h →
        0 ≤ iStatus →
          (Safe h ↔ 0 ≤ declaredLength (calls n (new c sApplication)).shifted.stream) := by
  have hbounded := calls_bounded n (new_bounded c sApplication)
  refine ⟨hbounded.written, ?_⟩
  intro iStatus h hrun hstatus
  rcases triple_ok (receiveMessage_bounded _) ⟨hbounded, rfl⟩ hrun with ⟨hb, hcomplete⟩
  exact safe_iff_declared (hcomplete hstatus) hb.offset

/-- A request with a Content-Length of −5. -/
def negativeLength : ConnectionInterface where
  bBlocking := true
  bThrow := false
  arrivals := [.bytes (ascii "POST /send/1 HTTP/1.1\r\nContent-Length: -5\r\n\r\n")]
  sends := []
  out := []
  strError := ""

/-- Whether what came back is a message that ends within its header. -/
def endsInHeader : EStateM.Result SirannonException HTTPConnection ℤ → Bool
  | .ok iStatus h => decide (0 < iStatus ∧ h.iMessage < h.iHeader)
  | .error _ _ => false

theorem negative_length_unsafe :
    ∃ iStatus h, (receiveMessage true).run (new negativeLength "HTTP/1.1") = .ok iStatus h ∧
      0 < iStatus ∧ ¬ Safe h := by
  have hrun : endsInHeader ((receiveMessage true).run (new negativeLength "HTTP/1.1")) = true := by
    decide +kernel
  cases hresult : (receiveMessage true).run (new negativeLength "HTTP/1.1") with
  | ok iStatus h =>
    rw [hresult] at hrun
    rcases of_decide_eq_true hrun with ⟨hpos, hlt⟩
    exact ⟨iStatus, h, rfl, hpos, fun hsafe => absurd hsafe.header (not_le.mpr hlt)⟩
  | error e h =>
    rw [hresult] at hrun
    cases hrun

end Sirannon.HTTP.HTTPConnection
