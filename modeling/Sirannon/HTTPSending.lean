import Sirannon.HTTPFraming

/-!
# Sending headers

A header is put together in a buffer of fixed size, each field by way of a
smaller buffer that cuts off what does not fit.
-/

set_option autoImplicit false

namespace Sirannon.HTTP.HTTPConnection
open Bits MachineInt Connection

/-! ## Composing -/

/-- The size of `sSndBuffer`. -/
def iSndBuffer : ℕ := 64000

/-- The size of `sTemp`. -/
def iTemp : ℕ := 1024

def snprintf (iSize : ℕ) (sText : Bytes) : Bytes := sText.take (iSize-1)

/-- There is no check; what does not fit is written behind the buffer. -/
def strcat (sSndBuffer sText : Bytes) : Except SirannonException Bytes :=
  if iSndBuffer ≤ sSndBuffer.length+sText.length then
    .error (undefinedBehaviour "write behind the send buffer")
  else .ok (sSndBuffer ++ sText)

attribute [grind =] strcat

def tempField (f : Bytes × Bytes) : Bytes := snprintf iTemp (field (cstr f.1, cstr f.2))

def appendFields : Fields → Bytes → Except SirannonException Bytes
  | [], sSndBuffer => .ok sSndBuffer
  | f::mFields, sSndBuffer => do
    let sSndBuffer ← strcat sSndBuffer (tempField f)
    appendFields mFields sSndBuffer

def withLength (mFields : Fields) (iSize : ℕ) : Fields :=
  if iSize = 0 then mFields else mFields.assign lengthKey (ascii (toString iSize))

/-- `sLine` is what the send buffer starts with. -/
def compose (sLine : Bytes) (iSize : ℕ) (mFields : Fields) : Except SirannonException Bytes := do
  let sSndBuffer ← appendFields (withLength mFields iSize) sLine
  strcat sSndBuffer crlf

/-- The bytes of header and data go to the socket one after the other. -/
def send (c : ConnectionInterface) (sLine pData : Bytes) (mFields : Fields) :
    Except SirannonException ℤ × ConnectionInterface :=
  match compose sLine pData.length mFields with
  | .error e => (.error e, c)
  | .ok sSndBuffer =>
    match sendSmart c sSndBuffer with
    | (.error e, c) => (.error e, c)
    | (.ok _, c) =>
      if pData = [] then (.ok sSndBuffer.length, c)
      else
        match sendSmart c pData with
        | (.error e, c) => (.error e, c)
        | (.ok _, c) => (.ok (int32 (pData.length+sSndBuffer.length)), c)

/-! ## Replies and requests -/

/-- The arguments of `sendReply` and `sendMessage` that go into the first line. -/
inductive Outgoing
  | reply (iStatus : ℕ) (sStatus : Bytes)
  | message (sCommand sUrl : Bytes)

/-- The protocol is `sProtocol` in a reply and `sApplication` in a request. -/
def Outgoing.words (sProtocol : Bytes) : Outgoing → Bytes
  | .reply iStatus sStatus =>
    cstr sProtocol ++ 32::(ascii (toString iStatus) ++ 32::cstr sStatus)
  | .message sCommand sUrl => cstr sCommand ++ 32::(cstr sUrl ++ 32::cstr sProtocol)

def Outgoing.send (o : Outgoing) (sProtocol : Bytes) (c : ConnectionInterface) (pData : Bytes)
    (mFields : Fields) : Except SirannonException ℤ × ConnectionInterface :=
  HTTPConnection.send c (snprintf iSndBuffer (o.words sProtocol ++ crlf)) pData mFields

/-- What the peer calls to receive it. -/
def Outgoing.receive (bContent : Bool) : Outgoing → Receiving ℤ
  | .reply _ _ => receiveReply bContent
  | .message _ _ => receiveMessage bContent

/-! ## What is composed -/

/-- The bytes a field takes in a header. -/
def weight (f : Bytes × Bytes) : ℕ := f.1.length+f.2.length+4

def weights (mFields : Fields) : ℕ := (mFields.map weight).sum

theorem field_length (f : Bytes × Bytes) : (field f).length = weight f := by
  simp only [field, crlf, List.length_append, List.length_cons, List.length_nil, weight]
  omega

theorem fields_weight (mFields : Fields) : (mFields.flatMap field).length = weights mFields := by
  induction mFields with
  | nil => rfl
  | cons f mFields ih =>
    rw [List.flatMap_cons, List.length_append, field_length, ih, weights, weights, List.map_cons,
      List.sum_cons]

theorem appendFields_ok {mFields : Fields} {sSndBuffer sResult : Bytes}
    (h : appendFields mFields sSndBuffer = .ok sResult) :
    sResult = sSndBuffer ++ mFields.flatMap tempField := by
  induction mFields generalizing sSndBuffer with
  | nil =>
    obtain rfl := Except.ok.inj h
    rw [List.flatMap_nil, List.append_nil]
  | cons f mFields ih =>
    rw [appendFields, strcat] at h
    split at h
    · cases h
    · rw [ih h, List.flatMap_cons, List.append_assoc]

theorem appendFields_fits {mFields : Fields} {sSndBuffer : Bytes}
    (h : sSndBuffer.length+(mFields.flatMap tempField).length < iSndBuffer) :
    appendFields mFields sSndBuffer = .ok (sSndBuffer ++ mFields.flatMap tempField) := by
  induction mFields generalizing sSndBuffer with
  | nil => rw [appendFields, List.flatMap_nil, List.append_nil]
  | cons f mFields ih =>
    rw [List.flatMap_cons, List.length_append] at h
    rw [appendFields, strcat, if_neg (by omega)]
    show appendFields mFields (sSndBuffer ++ tempField f) = _
    rw [ih (by rw [List.length_append]; omega), List.flatMap_cons, List.append_assoc]

theorem compose_ok {sLine : Bytes} {iSize : ℕ} {mFields : Fields} {sResult : Bytes}
    (h : compose sLine iSize mFields = .ok sResult) :
    sResult = sLine ++ (withLength mFields iSize).flatMap tempField ++ crlf ∧
      sResult.length < iSndBuffer := by
  rw [compose] at h
  cases hfields : appendFields (withLength mFields iSize) sLine with
  | error e =>
    rw [hfields] at h
    cases h
  | ok sSndBuffer =>
    rw [hfields] at h
    simp only [bind, Except.bind, strcat] at h
    split at h
    · cases h
    case isFalse hroom =>
      obtain rfl := Except.ok.inj h
      rw [List.length_append]
      rw [appendFields_ok hfields] at hroom ⊢
      exact ⟨rfl, by omega⟩

theorem compose_fits {sLine : Bytes} {iSize : ℕ} {mFields : Fields}
    (h : sLine.length+((withLength mFields iSize).flatMap tempField).length+2 < iSndBuffer) :
    compose sLine iSize mFields =
      .ok (sLine ++ (withLength mFields iSize).flatMap tempField ++ crlf) := by
  rw [compose, appendFields_fits (by omega)]
  simp only [bind, Except.bind, strcat]
  rw [if_neg]
  rw [List.length_append]
  show ¬ _ ≤ _ + 2
  omega

theorem tempField_length (f : Bytes × Bytes) :
    (tempField f).length = min (weight (cstr f.1, cstr f.2)) 1023 := by
  rw [tempField, snprintf, List.length_take, field_length]
  exact Nat.min_comm _ _

/-- A field that is short enough and holds no zero goes through the small buffer unchanged. -/
theorem tempField_short {f : Bytes × Bytes} (hkey : 0 ∉ f.1) (hvalue : 0 ∉ f.2)
    (hshort : weight f ≤ 1023) : tempField f = field f := by
  rw [tempField, cstr_self hkey, cstr_self hvalue, snprintf, List.take_of_length_le]
  rw [field_length]
  exact hshort

theorem tempFields_short {mFields : Fields} (h : ∀ f ∈ mFields, 0 ∉ f.1 ∧ 0 ∉ f.2 ∧ weight f ≤ 1023) :
    mFields.flatMap tempField = mFields.flatMap field := by
  induction mFields with
  | nil => rfl
  | cons f mFields ih =>
    rcases h f List.mem_cons_self with ⟨hkey, hvalue, hshort⟩
    rw [List.flatMap_cons, List.flatMap_cons, tempField_short hkey hvalue hshort,
      ih fun g hg => h g (List.mem_cons_of_mem f hg)]

theorem sendSmart_all {c : ConnectionInterface} (hsends : c.sends = []) {pBuffer : Bytes}
    (hne : pBuffer ≠ []) :
    sendSmart c pBuffer = (.ok pBuffer.length, { c with out := c.out ++ pBuffer }) := by
  cases pBuffer with
  | nil => exact absurd rfl hne
  | cons b bs =>
    have hpos : (0 : ℤ) < ((b::bs).length : ℕ) := by simp
    rw [sendSmart, hsends, sendLoop]
    simp only [evaluateStatus, if_pos (Or.inl hpos)]

/-- A socket that takes everything is given the header and then the data. -/
theorem send_all {c : ConnectionInterface} (hsends : c.sends = []) {sLine pData header : Bytes}
    {mFields : Fields} (h : compose sLine pData.length mFields = .ok header) :
    (∃ iRet, (send c sLine pData mFields).1 = .ok iRet) ∧
      (send c sLine pData mFields).2.out = c.out ++ header ++ pData := by
  have hne : header ≠ [] := by
    rw [(compose_ok h).1]
    simp [crlf]
  rw [send, h]
  simp only [sendSmart_all hsends hne]
  by_cases hempty : pData = []
  · rw [if_pos hempty, hempty]
    exact ⟨⟨_, rfl⟩, (List.append_nil _).symm⟩
  · have hsends' : ({ c with out := c.out ++ header } : ConnectionInterface).sends = [] := hsends
    rw [if_neg hempty, sendSmart_all hsends' hempty]
    exact ⟨⟨_, rfl⟩, rfl⟩

/-- Where nothing is cut off, this is the header that `sendReply` puts together. -/
theorem compose_replyHeader {h : HTTPConnection} {iStatus iSize : ℕ} {sStatus : String}
    {mFields : Fields} (hprotocol : 0 ∉ h.sProtocol) (hstatus : 0 ∉ ascii sStatus)
    (hshort : ∀ f ∈ withLength mFields iSize, 0 ∉ f.1 ∧ 0 ∉ f.2 ∧ weight f ≤ 1023)
    (hfits : ((Outgoing.reply iStatus (ascii sStatus)).words h.sProtocol).length+
      weights (withLength mFields iSize)+4 < iSndBuffer) :
    compose (snprintf iSndBuffer ((Outgoing.reply iStatus (ascii sStatus)).words h.sProtocol ++ crlf))
      iSize mFields = .ok (h.replyHeader iStatus sStatus iSize mFields) := by
  have hcrlf : crlf.length = 2 := rfl
  have htemps := tempFields_short hshort
  have hwords : (Outgoing.reply iStatus (ascii sStatus)).words h.sProtocol =
      h.sProtocol ++ 32::(ascii (toString iStatus) ++ 32::ascii sStatus) := by
    rw [Outgoing.words, cstr_self hprotocol, cstr_self hstatus]
  have hline : snprintf iSndBuffer ((Outgoing.reply iStatus (ascii sStatus)).words h.sProtocol ++
      crlf) = (Outgoing.reply iStatus (ascii sStatus)).words h.sProtocol ++ crlf := by
    rw [snprintf, List.take_of_length_le]
    rw [List.length_append, hcrlf]
    omega
  rw [hline, compose_fits (by
    rw [htemps, fields_weight, List.length_append, hcrlf]
    omega), htemps, hwords, replyHeader, withLength]
  simp

/-! ## Maps -/

theorem bytes_lt_trans {s t u : Bytes} (h : s < t) (h' : t < u) : s < u := List.lt_trans h h'

theorem bytes_lt_irrefl (s : Bytes) : ¬ s < s := List.lt_irrefl s

theorem bytes_lt_of_not {s t : Bytes} (h : ¬ s < t) (hne : s ≠ t) : t < s :=
  (List.le_iff_lt_or_eq.mp (List.not_lt.mp h)).resolve_right (Ne.symm hne)

/-- The order of `std::map`. -/
def Ordered (mFields : Fields) : Prop := mFields.Pairwise fun f g => f.1 < g.1

theorem assign_mem {sKey sValue : Bytes} {mFields : Fields} {f : Bytes × Bytes}
    (h : f ∈ Fields.assign sKey sValue mFields) : f = (sKey, sValue) ∨ f ∈ mFields := by
  induction mFields with
  | nil => exact Or.inl (List.mem_singleton.mp h)
  | cons g mFields ih =>
    rw [Fields.assign] at h
    split_ifs at h with heq hlt
    · rcases List.mem_cons.mp h with h | h
      · exact Or.inl h
      · exact Or.inr (List.mem_cons_of_mem g h)
    · exact List.mem_cons.mp h
    · rcases List.mem_cons.mp h with h | h
      · exact Or.inr (h ▸ List.mem_cons_self)
      · exact (ih h).imp id (List.mem_cons_of_mem g)

theorem assign_ordered {sKey sValue : Bytes} {mFields : Fields} (h : Ordered mFields) :
    Ordered (Fields.assign sKey sValue mFields) := by
  induction mFields with
  | nil => exact List.pairwise_singleton _ _
  | cons g mFields ih =>
    rcases List.pairwise_cons.mp h with ⟨hfirst, hrest⟩
    rw [Fields.assign]
    split_ifs with heq hlt
    · exact List.pairwise_cons.mpr ⟨fun f hf => heq ▸ hfirst f hf, hrest⟩
    · refine List.pairwise_cons.mpr ⟨?_, h⟩
      intro f hf
      rcases List.mem_cons.mp hf with rfl | hf
      · exact hlt
      · exact bytes_lt_trans hlt (hfirst f hf)
    · refine List.pairwise_cons.mpr ⟨?_, ih hrest⟩
      intro f hf
      rcases assign_mem hf with rfl | hf
      · exact bytes_lt_of_not hlt heq
      · exact hfirst f hf

theorem withLength_ordered {mFields : Fields} (h : Ordered mFields) (iSize : ℕ) :
    Ordered (withLength mFields iSize) := by
  rw [withLength]
  split_ifs
  · exact h
  · exact assign_ordered h

/-- A field that comes after all others is put at the end. -/
theorem assign_last {sKey sValue : Bytes} {mFields : Fields} (h : ∀ f ∈ mFields, f.1 < sKey) :
    Fields.assign sKey sValue mFields = mFields ++ [(sKey, sValue)] := by
  induction mFields with
  | nil => rfl
  | cons g mFields ih =>
    have hlt := h g List.mem_cons_self
    have hne : sKey ≠ g.1 := fun heq => bytes_lt_irrefl _ (heq ▸ hlt)
    rw [Fields.assign, if_neg hne, if_neg fun h' => bytes_lt_irrefl _ (bytes_lt_trans h' hlt),
      ih fun f hf => h f (List.mem_cons_of_mem g hf), List.cons_append]

/-- Entering the fields of a map in their order gives the map. -/
theorem foldl_assign {mFields mBefore : Fields} (h : Ordered (mBefore ++ mFields)) :
    mFields.foldl (fun m f => Fields.assign f.1 f.2 m) mBefore = mBefore ++ mFields := by
  induction mFields generalizing mBefore with
  | nil => rw [List.foldl_nil, List.append_nil]
  | cons f mFields ih =>
    rcases List.pairwise_append.mp h with ⟨-, -, hacross⟩
    rw [List.foldl_cons, assign_last fun g hg => hacross g hg f List.mem_cons_self]
    have hsplit : mBefore ++ f::mFields = (mBefore ++ [f]) ++ mFields := by simp
    rw [hsplit] at h ⊢
    exact ih h

theorem find_assign (sKey sValue : Bytes) (mFields : Fields) :
    (Fields.assign sKey sValue mFields).find sKey = some sValue := by
  induction mFields with
  | nil => simp [Fields.assign, Fields.find]
  | cons g mFields ih =>
    rw [Fields.assign]
    split_ifs with heq hlt
    · simp [Fields.find]
    · simp [Fields.find]
    · rw [Fields.find] at ih ⊢
      rw [List.find?_cons_of_neg (by simpa using Ne.symm heq)]
      exact ih

theorem weights_assign (sKey sValue : Bytes) (mFields : Fields) :
    weights (Fields.assign sKey sValue mFields) ≤ weights mFields+weight (sKey, sValue) := by
  induction mFields with
  | nil => simp [Fields.assign, weights]
  | cons g mFields ih =>
    rw [Fields.assign]
    simp only [weights] at ih ⊢
    split_ifs
    · simp only [List.map_cons, List.sum_cons]
      omega
    · simp only [List.map_cons, List.sum_cons]
      omega
    · simp only [List.map_cons, List.sum_cons]
      omega

/-- A new key adds its field to the weight. -/
theorem weights_assign_new {sKey : Bytes} (sValue : Bytes) {mFields : Fields}
    (h : mFields.find sKey = none) :
    weights (Fields.assign sKey sValue mFields) = weights mFields+weight (sKey, sValue) := by
  induction mFields with
  | nil => simp [Fields.assign, weights]
  | cons g mFields ih =>
    rw [Fields.find, Option.map_eq_none_iff, List.find?_cons] at h
    split at h
    · cases h
    case h_2 hne =>
      have hkey : sKey ≠ g.1 := fun heq => by simp [heq] at hne
      have hrest := ih (by rw [Fields.find, h, Option.map_none])
      rw [Fields.assign, if_neg hkey]
      simp only [weights] at hrest ⊢
      split_ifs
      · simp only [List.map_cons, List.sum_cons]
        omega
      · simp only [List.map_cons, List.sum_cons]
        omega

end Sirannon.HTTP.HTTPConnection
