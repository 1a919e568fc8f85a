import Sirannon.HTTPRoundTrip
import Sirannon.RTMPTTunnel

/-!
# The client of a tunnel

What the server sends comes in the contents of its replies, behind one byte that
is not part of it. Some of a content comes along with the header, and the rest is
received straight into the buffer that the session reads from.
-/

set_option autoImplicit false

namespace Sirannon.RTMPT
open ByteMemory Bits MachineInt HTTP Connection

/-- `MIN(iOffset - iHeader, iMessage)` unless a message without content is asked for. -/
def getResidualSize (pHTTP : HTTPConnection) (bDynamic : Bool) : ℕ :=
  let iResidual := uint32 ((pHTTP.iOffset : ℤ)-pHTTP.iHeader)
  if bDynamic = true ∧ pHTTP.iHeader = pHTTP.iMessage then iResidual
  else min iResidual pHTTP.iMessage

/-- Bytes behind those that are there; behind the end of the buffer that is undefined. -/
def appended (c : RTMPTConnection) (pData : Bytes) : Except SirannonException RTMPTConnection :=
  if c.offset_in+pData.length ≤ MAX_HTTP_SIZE then
    .ok { c with
      priv_buffer_in := store c.priv_buffer_in c.offset_in pData
      offset_in := c.offset_in+pData.length }
  else .error (undefinedBehaviour "write behind buffer_in_end")

/-- `taken` is what the session has read. -/
structure RTMPTClient where
  pHTTP : HTTPConnection
  pConnection : RTMPTConnection
  sHash : Bytes
  taken : Bytes

namespace RTMPTClient

def read (s : RTMPTClient) (iSize : ℕ) : RTMPTClient :=
  let (_, pData, pConnection) := s.pConnection.receive iSize
  { s with pConnection := pConnection, taken := s.taken ++ pData }

/-- Back to the start of the buffer, if there is more to come than the first byte. -/
def prepared (s : RTMPTClient) (iRemaining : ℤ) : RTMPTClient :=
  if 1 < iRemaining then { s with pConnection := s.pConnection.compacted } else s

def copyResidual (s : RTMPTClient) (bOpen : Bool) (iReceive : ℕ) :
    Except SirannonException RTMPTClient :=
  let getContent := s.pHTTP.pRcvBuffer.drop s.pHTTP.iHeader
  if bOpen = true then do
    let pConnection ← appended s.pConnection (getContent.take iReceive)
    return { s with pConnection := pConnection }
  else if 1 < iReceive then do
    let pConnection ← appended s.pConnection ((getContent.drop 1).take (iReceive-1))
    return { s with pConnection := pConnection }
  else .ok s

/-- What came along with the header, or else the first byte. -/
def receiveResidual (s : RTMPTClient) (bOpen : Bool) (iRemaining : ℤ) :
    Except SirannonException (ℤ × RTMPTClient) :=
  let iResidual := getResidualSize s.pHTTP false
  if 0 < iResidual then do
    let iReceive := min iResidual (uint32 iRemaining)
    let s ← s.copyResidual bOpen iReceive
    return (iRemaining-iReceive, s)
  else if bOpen = true then .ok (iRemaining, s)
  else do
    let (iStatus, _, pSocket) := receiveSmartWhole s.pHTTP.pConnection 1
    let _ ← iStatus
    return (iRemaining-1, { s with pHTTP := { s.pHTTP with pConnection := pSocket } })

def receiveRest (s : RTMPTClient) (iRemaining : ℤ) : Except SirannonException RTMPTClient :=
  if 0 < iRemaining then do
    let (iStatus, pData, pSocket) := receiveSmartWhole s.pHTTP.pConnection iRemaining.toNat
    let pConnection ← appended s.pConnection pData
    let _ ← iStatus
    return { s with
      pHTTP := { s.pHTTP with pConnection := pSocket }
      pConnection := { pConnection with
        offset_in := s.pConnection.offset_in+iRemaining.toNat } }
  else .ok s

/-- The reply to the opening holds the name of the session, which is taken out again. -/
def obtainHash (s : RTMPTClient) : RTMPTClient :=
  let offset_in := s.pConnection.offset_in-s.pHTTP.iContent
  { s with
    sHash := load s.pConnection.priv_buffer_in offset_in (uint32 ((s.pHTTP.iContent : ℤ)-1))
    pConnection := { s.pConnection with offset_in := offset_in } }

/-- Between the parts that hold the lock the session may read: `first` and `second` are the sizes
it asks for. What `receiveReply` returns is not looked at. -/
def parseHTTPResponse (s : RTMPTClient) (bOpen : Bool) (first second : List ℕ) :
    Except SirannonException RTMPTClient :=
  match (HTTPConnection.receiveReply false).run s.pHTTP with
  | .error e _ => .error e
  | .ok _ pHTTP => do
    let iRemaining := int32 pHTTP.iContent
    let s := first.foldl read ({ s with pHTTP := pHTTP }.prepared iRemaining)
    let (iRemaining, s) ← s.receiveResidual bOpen iRemaining
    let s ← (second.foldl read s).receiveRest iRemaining
    return if bOpen = true then s.obtainHash else s

end RTMPTClient

/-! ## Replies -/

/-- A reply to a message that sends something or nothing. -/
structure Reply where
  sProtocol : Bytes
  iStatus : ℕ
  sStatus : Bytes
  fields : List (Bytes × Bytes)
  data : Bytes

namespace Reply

def header (r : Reply) : Bytes :=
  (HTTPConnection.Outgoing.reply r.iStatus r.sStatus).words r.sProtocol ++ crlf ++
    r.fields.flatMap HTTPConnection.field ++ crlf

def bytes (r : Reply) : Bytes := r.header ++ 1::r.data

/-- The fields as a map. -/
def sent (r : Reply) : Fields := r.fields.foldl (fun m f => Fields.assign f.1 f.2 m) []

structure Formed (r : Reply) : Prop where
  protocol : Request.Word isGraph r.sProtocol
  status : Request.Word isGraph r.sStatus
  fields : ∀ f ∈ r.fields, Request.FieldFormed f
  length : ∃ v, r.sent.find HTTPConnection.lengthKey = some v ∧ v ≠ [] ∧
    (∀ b ∈ v, isDigit b = true) ∧ decimal v = r.data.length+1
  small : r.data.length+1 < 2^31
  fits : r.header.length < iBuffer

end Reply

/-- The session reads, or a reply is parsed. -/
inductive Event
  | read (iSize : ℕ)
  | reply (r : Reply) (first second : List ℕ)

namespace Event

def bytes : Event → Bytes
  | read _ => []
  | reply r _ _ => r.bytes

def data : Event → Bytes
  | read _ => []
  | reply r _ _ => r.data

def Formed : Event → Prop
  | read _ => True
  | reply r _ _ => r.Formed

end Event

namespace RTMPTClient
open HTTPConnection RTMPTConnection

def step (s : RTMPTClient) : Event → Except SirannonException RTMPTClient
  | .read iSize => .ok (s.read iSize)
  | .reply _ first second => s.parseHTTPResponse false first second

def run (s : RTMPTClient) : List Event → Except SirannonException RTMPTClient
  | [] => .ok s
  | e::es => do
    let s ← s.step e
    s.run es

/-- `S` is what has been received behind the last message and what is still to come. -/
structure Between (S : Bytes) (h : HTTPConnection) : Prop where
  offset : h.iOffset < iBuffer
  rest : h.pRcvBuffer.drop h.iMessage ++ pending h.pConnection = S
  clean : Clean h.pConnection

/-- All that the session has read or can read. -/
def given (s : RTMPTClient) : Bytes := s.taken ++ waitingIn s.pConnection

/-- The data of all replies reaches the session, and nothing behind them is consumed. -/
def Delivers (s : RTMPTClient) (es : List Event) (more : Bytes) : Prop :=
  ∃ t, s.run es = .ok t ∧ t.given = s.given ++ es.flatMap Event.data ∧ Between more t.pHTTP

/-- The buffer has room for what has not been read and the data of the reply. -/
def Roomy (s : RTMPTClient) : Event → Prop
  | .read _ => True
  | .reply r _ _ =>
    (waitingIn s.pConnection).length+r.data.length ≤ MAX_HTTP_SIZE-HTTP_REPLY_SIZE

/-- Every reply finds room in the state in which it is parsed. -/
def RoomyRun (s : RTMPTClient) : List Event → Prop
  | [] => True
  | e::es => s.Roomy e ∧ ∀ t, s.step e = .ok t → t.RoomyRun es

/-! ## The buffer of the session -/

variable {c : RTMPTConnection} {s t : RTMPTClient} {r : Reply} {more : Bytes}

theorem appended_waiting (h : Pointers c) {pData : Bytes}
    (hroom : c.offset_in+pData.length ≤ MAX_HTTP_SIZE) :
    ∃ c', appended c pData = .ok c' ∧ Pointers c' ∧
      c'.waitingIn = c.waitingIn ++ pData ∧ c'.offset_in = c.offset_in+pData.length := by
  have hoffset := h.offset_in
  refine ⟨_, if_pos hroom, ⟨h.current_in, ?_, hroom, h.offset_out, h.end_out⟩, ?_, rfl⟩
  · exact hoffset.trans (Nat.le_add_right _ _)
  · rw [waitingIn]
    dsimp only
    have hsplit : c.offset_in+pData.length-c.current_in =
        c.offset_in-c.current_in+pData.length := by omega
    have hextend := load_store_append c.priv_buffer_in c.current_in
      (c.offset_in-c.current_in) pData
    rw [Nat.add_sub_cancel' hoffset] at hextend
    rw [hsplit, hextend, waitingIn]

theorem read_given (h : Pointers s.pConnection) (iSize : ℕ) :
    Pointers (s.read iSize).pConnection ∧ (s.read iSize).given = s.given ∧
      (s.read iSize).pHTTP = s.pHTTP ∧
      (s.read iSize).pConnection.offset_in = s.pConnection.offset_in := by
  have haccounted : Accounted ⟨s.pConnection, s.given, s.taken, waitingOut s.pConnection, []⟩ :=
    { pointers := h, input := by rw [given], output := by rw [List.nil_append] }
  have hread := receive_accounted haccounted iSize
  refine ⟨hread.pointers, hread.input.symm, rfl, ?_⟩
  rw [read, RTMPTConnection.receive]
  dsimp only
  split_ifs <;> rfl

theorem reads_given (h : Pointers s.pConnection) (sizes : List ℕ) :
    Pointers (sizes.foldl read s).pConnection ∧ (sizes.foldl read s).given = s.given ∧
      (sizes.foldl read s).pHTTP = s.pHTTP ∧
      (sizes.foldl read s).pConnection.offset_in = s.pConnection.offset_in := by
  induction sizes generalizing s with
  | nil => exact ⟨h, rfl, rfl, rfl⟩
  | cons iSize sizes ih =>
    rcases read_given h iSize with ⟨hp, hgiven, hhttp, hoffset⟩
    rcases ih hp with ⟨hp', hgiven', hhttp', hoffset'⟩
    exact ⟨hp', hgiven'.trans hgiven, hhttp'.trans hhttp, hoffset'.trans hoffset⟩

/-- After the shift the data fits behind what is there exactly when there is room for both. -/
theorem prepared_given (h : Pointers s.pConnection) (n : ℕ) :
    Pointers (s.prepared ((n+1 : ℕ) : ℤ)).pConnection ∧
      (s.prepared ((n+1 : ℕ) : ℤ)).given = s.given ∧
      (s.prepared ((n+1 : ℕ) : ℤ)).pHTTP = s.pHTTP ∧
      ((s.prepared ((n+1 : ℕ) : ℤ)).pConnection.offset_in+n ≤ MAX_HTTP_SIZE ↔
        (waitingIn s.pConnection).length+n ≤ MAX_HTTP_SIZE-HTTP_REPLY_SIZE) := by
  have hcurrent := h.current_in
  have hoffset := h.offset_in
  have hend := h.end_in
  have hlength : (waitingIn s.pConnection).length =
      s.pConnection.offset_in-s.pConnection.current_in := load_length _ _ _
  have hsize : HTTP_REPLY_SIZE ≤ MAX_HTTP_SIZE := by decide
  rw [prepared]
  by_cases hmore : (1 : ℤ) < ((n+1 : ℕ) : ℤ)
  · rw [if_pos hmore]
    refine ⟨compacted_pointers h, ?_, rfl, ?_⟩
    · rw [given, given, compacted_waiting h]
    · have hstart : s.pConnection.compacted.offset_in =
          s.pConnection.offset_in-(s.pConnection.current_in-HTTP_REPLY_SIZE) := by
        rw [compacted, if_pos hoffset]
      rw [hstart, hlength]
      omega
  · have hnone : n = 0 := by omega
    rw [if_neg hmore]
    refine ⟨h, rfl, rfl, ?_⟩
    rw [hlength, hnone]
    omega

/-! ## One reply -/

theorem declared_reply (hr : r.Formed) :
    uint32 (atoi (r.sent.value lengthKey)) = r.data.length+1 := by
  rcases hr.length with ⟨v, hfind, -, hdigits, hvalue⟩
  have hsmall := hr.small
  rw [Fields.value, hfind, Option.getD_some, decimal_digits hdigits (by omega), hvalue,
    uint32_of_range]
  omega

theorem between_shifted {S : Bytes} {h : HTTPConnection} (hb : Between S h) :
    h.shifted.stream = S ∧ Clean h.shifted.pConnection ∧ h.shifted.iOffset < iBuffer := by
  have hoffset := hb.offset
  have hrest := hb.rest
  rw [iOffset] at hoffset
  rw [shifted]
  by_cases hshift : h.iMessage < h.iOffset
  · rw [if_pos hshift]
    refine ⟨hrest, hb.clean, ?_⟩
    show (h.pRcvBuffer.drop h.iMessage).length < iBuffer
    rw [List.length_drop]
    omega
  · rw [if_neg hshift]
    rw [List.drop_eq_nil_of_le (not_lt.mp hshift)] at hrest
    exact ⟨hrest, hb.clean, by simp [iOffset, iBuffer]⟩

/-- The header has been read: the content is what comes next. -/
structure Opened (r : Reply) (more : Bytes) (h : HTTPConnection) : Prop where
  content : h.iContent = r.data.length+1
  message : h.iMessage = h.iHeader+(r.data.length+1)
  inside : h.iHeader ≤ h.iOffset
  offset : h.iOffset < iBuffer
  rest : h.pRcvBuffer.drop h.iHeader ++ pending h.pConnection = 1::r.data ++ more
  clean : Clean h.pConnection

theorem receiveReply_opened (hr : r.Formed) {h : HTTPConnection}
    (hb : Between (r.bytes ++ more) h) :
    ∃ iRet h', (receiveReply false).run h = .ok iRet h' ∧ Opened r more h' := by
  rcases between_shifted hb with ⟨hstream, hclean, hoffset⟩
  have hlength := declared_reply hr
  have hweights := fields_weight r.fields
  have hfits := hr.fits
  have hsmall := hr.small
  have hcrlf : crlf.length = 2 := rfl
  have hheader : r.header.length =
      ((Outgoing.reply r.iStatus r.sStatus).words r.sProtocol).length+2+weights r.fields+2 := by
    rw [Reply.header]
    simp only [List.length_append, hcrlf, hweights]
  have hbuffer : iBuffer = iSndBuffer := rfl
  have hrest : r.data.length+1 ≤ ((1::r.data) ++ more).length := by simp
  have hreceivable := receivable_header
    (spoken_reply hr.protocol hr.status r.iStatus) hr.fields rfl hlength hrest (by omega)
    (fun hfalse => absurd hfalse Bool.false_ne_true)
  rw [Reply.bytes, List.append_assoc] at hstream
  rcases receive_header hreceivable hstream hclean hoffset with ⟨h', w, hread, -, hrun⟩
  refine ⟨int32 h'.iMessage, h', ?_, ?_⟩
  · rw [receiveReply, parseReplyHeader_with, hrun]
    rfl
  · have hstart : h'.iHeader = r.header.length := by
      rw [hread.header, hheader]
    have hcontent : h'.iContent = r.data.length+1 := hread.content.trans hlength
    refine ⟨hcontent, ?_, hread.inside, hread.offset, ?_, hread.clean⟩
    · have hin := hread.inside
      have hout := hread.offset
      have hsize : iBuffer = 64000 := rfl
      rw [hread.message, hcontent]
      have hcast : (h'.iHeader : ℤ)+((r.data.length+1 : ℕ) : ℤ) =
          ((h'.iHeader+(r.data.length+1) : ℕ) : ℤ) := by push_cast; ring
      rw [hcast, uint32_of_range]
      omega
    · have hrest := hread.rest
      rw [hstart] at hrest ⊢
      rw [hrest]
      exact List.drop_left' rfl

theorem receiveSmartWhole_clean {c : ConnectionInterface} {n : ℕ} (hclean : Clean c)
    (hn : n ≤ (pending c).length) :
    ∃ c', receiveSmartWhole c n = (.ok n, (pending c).take n, c') ∧
      pending c' = (pending c).drop n ∧ Clean c' := by
  rcases receiveWhole_clean c.bBlocking c.arrivals [] hclean hn with ⟨hdata, hrest, hclean'⟩
  rw [List.nil_append] at hdata
  have hlength : (receiveWhole c.bBlocking c.arrivals n []).data.length = n := by
    rw [hdata, List.length_take]
    exact Nat.min_eq_left hn
  refine ⟨{ c with arrivals := (receiveWhole c.bBlocking c.arrivals n []).rest }, ?_, hrest,
    hclean'⟩
  rw [receiveSmartWhole, if_pos hlength, hdata]
  rfl

/-- Part of the data has come along with the header, and the rest is still to come. -/
structure Halfway (s t : RTMPTClient) (part rest more : Bytes) : Prop where
  pointers : Pointers t.pConnection
  given : t.given = s.given ++ part
  offset : t.pConnection.offset_in = s.pConnection.offset_in+part.length
  between : Between (rest ++ more) t.pHTTP
  socket : rest ≠ [] → t.pHTTP.iOffset ≤ t.pHTTP.iMessage

/-- A computation that succeeds when the bytes fit and otherwise fails. -/
def Stores {α : Type} (iEnd : ℕ) (x : Except SirannonException α) (Q : α → Prop) : Prop :=
  (iEnd ≤ MAX_HTTP_SIZE → ∃ a, x = .ok a ∧ Q a) ∧ (MAX_HTTP_SIZE < iEnd → ∃ e, x = .error e)

theorem appended_stores (h : Pointers c) (pData : Bytes) :
    Stores (c.offset_in+pData.length) (appended c pData) fun c' => Pointers c' ∧
      c'.waitingIn = c.waitingIn ++ pData ∧ c'.offset_in = c.offset_in+pData.length :=
  ⟨fun hroom => appended_waiting h hroom, fun hroom => ⟨_, if_neg (not_le.mpr hroom)⟩⟩

theorem residual_opened {h : HTTPConnection} (ho : Opened r more h) :
    getResidualSize h false = min (h.iOffset-h.iHeader) h.iMessage := by
  have hin := ho.inside
  have hout := ho.offset
  have hsize : iBuffer = 64000 := rfl
  have hlocal : uint32 ((h.iOffset : ℤ)-h.iHeader) = h.iOffset-h.iHeader := by
    rw [← Nat.cast_sub hin]
    exact uint32_of_range _ (by omega)
  rw [getResidualSize]
  simp only [Bool.false_eq_true, false_and, if_false, hlocal]

/-- Nothing came along with the header: the first byte is taken from the socket. -/
theorem residual_none (h : Pointers s.pConnection) (ho : Opened r more s.pHTTP)
    (hnone : s.pHTTP.iOffset = s.pHTTP.iHeader) :
    ∃ t, s.receiveResidual false ((r.data.length+1 : ℕ) : ℤ) = .ok (r.data.length, t) ∧
      Halfway s t [] r.data more := by
  have hresidual := residual_opened ho
  rw [hnone, Nat.sub_self, Nat.zero_min] at hresidual
  have hrest := ho.rest
  rw [List.drop_eq_nil_of_le hnone.le, List.nil_append] at hrest
  rcases receiveSmartWhole_clean ho.clean (n := 1) (by rw [hrest]; simp) with
    ⟨pSocket, hreceive, hpending, hclean⟩
  have hle : s.pHTTP.iOffset ≤ s.pHTTP.iMessage := by
    rw [hnone, ho.message]
    omega
  refine ⟨{ s with pHTTP := { s.pHTTP with pConnection := pSocket } }, ?_,
    ⟨h, (List.append_nil _).symm, rfl, ⟨ho.offset, ?_, hclean⟩, fun _ => hle⟩⟩
  · rw [receiveResidual]
    simp only [hresidual, lt_irrefl, if_false, Bool.false_eq_true, hreceive]
    simp only [bind, Except.bind, pure, Except.pure]
    push_cast
    rw [Int.add_sub_cancel]
  · show s.pHTTP.pRcvBuffer.drop s.pHTTP.iMessage ++ pending pSocket = _
    rw [List.drop_eq_nil_of_le hle, hpending, hrest]
    rfl

/-- Some of the content came along with the header. -/
theorem residual_some (h : Pointers s.pConnection) (ho : Opened r more s.pHTTP) {k : ℕ}
    (hsmall : r.data.length+1 < 2^31)
    (hk : k+1 = min (s.pHTTP.iOffset-s.pHTTP.iHeader) (r.data.length+1)) :
    Stores (s.pConnection.offset_in+(r.data.take k).length)
      (s.receiveResidual false ((r.data.length+1 : ℕ) : ℤ)) fun u =>
        u.1 = (r.data.drop k).length ∧ Halfway s u.2 (r.data.take k) (r.data.drop k) more := by
  have hmessage := ho.message
  have hrest := ho.rest
  generalize hB : s.pHTTP.pRcvBuffer.drop s.pHTTP.iHeader = B at hrest
  have hlength : B.length = s.pHTTP.iOffset-s.pHTTP.iHeader := by
    rw [← hB, List.length_drop]
    rfl
  cases B with
  | nil =>
    rw [List.length_nil] at hlength
    omega
  | cons b B =>
    rw [List.length_cons] at hlength
    have hdata : B ++ pending s.pHTTP.pConnection = r.data ++ more := (List.cons.inj hrest).2
    have hbuffered : B.take k = r.data.take k := by
      rw [← List.take_append_of_le_length (by omega), hdata,
        List.take_append_of_le_length (by omega)]
    have hreceive : min (getResidualSize s.pHTTP false) (uint32 ((r.data.length+1 : ℕ) : ℤ)) =
        k+1 := by
      rw [residual_opened ho, uint32_of_range _ (by omega)]
      omega
    have hpositive : 0 < getResidualSize s.pHTTP false := by omega
    have hbetween : Between (r.data.drop k ++ more) s.pHTTP ∧
        (r.data.drop k ≠ [] → s.pHTTP.iOffset ≤ s.pHTTP.iMessage) := by
      have hbehind : s.pHTTP.pRcvBuffer.drop s.pHTTP.iMessage = B.drop r.data.length := by
        rw [hmessage, ← List.drop_drop, hB]
        rfl
      constructor
      · refine ⟨ho.offset, ?_, ho.clean⟩
        rw [hbehind]
        by_cases hall : r.data.length ≤ B.length
        · have hend : k = r.data.length := by omega
          rw [← List.drop_append_of_le_length hall, hdata, hend, List.drop_left, List.drop_length]
          rfl
        · have hpart : k = B.length := by omega
          rw [List.drop_eq_nil_of_le (by omega), List.nil_append, hpart,
            ← List.drop_append_of_le_length (by omega), ← hdata, List.drop_left]
      · intro hne
        have hmore := List.length_pos_of_ne_nil hne
        rw [List.length_drop] at hmore
        omega
    have hcount : ((r.data.length+1 : ℕ) : ℤ)-((k+1 : ℕ) : ℤ) = (r.data.drop k).length := by
      rw [List.length_drop]
      omega
    have hrun : s.receiveResidual false ((r.data.length+1 : ℕ) : ℤ) =
        (s.copyResidual false (k+1) >>= fun s =>
          .ok (((r.data.drop k).length : ℤ), s)) := by
      rw [receiveResidual]
      simp only [if_pos hpositive, hreceive, hcount]
      rfl
    rw [hrun, copyResidual]
    simp only [Bool.false_eq_true, if_false, hB, List.drop_succ_cons, List.drop_zero,
      Nat.add_sub_cancel, hbuffered]
    by_cases hzero : k = 0
    · rw [if_neg (by omega)]
      rw [hzero] at hbetween ⊢
      refine ⟨fun _ => ⟨_, rfl, rfl, ⟨h, (List.append_nil _).symm, rfl, hbetween.1, hbetween.2⟩⟩,
        fun hfull => ?_⟩
      have hend := h.end_in
      rw [List.take_zero, List.length_nil] at hfull
      omega
    · rw [if_pos (by omega)]
      rcases appended_stores h (r.data.take k) with ⟨hfits, hfull⟩
      constructor
      · intro hroom
        rcases hfits hroom with ⟨c', hc, hpointers, hwaiting, hoffset⟩
        rw [hc]
        refine ⟨_, rfl, rfl, ⟨hpointers, ?_, hoffset, hbetween.1, hbetween.2⟩⟩
        show s.taken ++ c'.waitingIn = s.given ++ r.data.take k
        rw [hwaiting, given, List.append_assoc]
      · intro hover
        rcases hfull hover with ⟨e, he⟩
        rw [he]
        exact ⟨e, rfl⟩

/-- The rest of the data is received behind the first part. -/
theorem rest_stores {part rest : Bytes} (h : Halfway s t part rest more) :
    Stores (t.pConnection.offset_in+rest.length) (t.receiveRest (rest.length : ℤ)) fun u =>
      Pointers u.pConnection ∧ u.given = t.given ++ rest ∧ Between more u.pHTTP := by
  have hpointers := h.pointers
  have hbetween := h.between
  by_cases hempty : rest = []
  · subst hempty
    rw [receiveRest, if_neg (by simp)]
    refine ⟨fun _ => ⟨t, rfl, hpointers, (List.append_nil _).symm, hbetween⟩, fun hfull => ?_⟩
    have hend := hpointers.end_in
    rw [List.length_nil] at hfull
    omega
  · have hlength := List.length_pos_of_ne_nil hempty
    have hsocket := hbetween.rest
    rw [List.drop_eq_nil_of_le (h.socket hempty), List.nil_append] at hsocket
    rcases receiveSmartWhole_clean hbetween.clean (n := rest.length) (by
      rw [hsocket, List.length_append]
      omega) with ⟨pSocket, hreceive, hpending, hclean⟩
    rw [hsocket, List.take_left] at hreceive
    rw [hsocket, List.drop_left] at hpending
    rw [receiveRest, if_pos (by omega), Int.toNat_natCast, hreceive]
    rcases appended_stores hpointers rest with ⟨hfits, hfull⟩
    constructor
    · intro hroom
      rcases hfits hroom with ⟨c', hc, hpointers', hwaiting, hoffset⟩
      simp only [hc, ← hoffset]
      refine ⟨_, rfl, hpointers', ?_, ⟨hbetween.offset, ?_, hclean⟩⟩
      · show t.taken ++ c'.waitingIn = t.given ++ rest
        rw [hwaiting, given, List.append_assoc]
      · show t.pHTTP.pRcvBuffer.drop t.pHTTP.iMessage ++ pending pSocket = more
        rw [List.drop_eq_nil_of_le (h.socket hempty), hpending]
        rfl
    · intro hover
      rcases hfull hover with ⟨e, he⟩
      simp only [he]
      exact ⟨e, rfl⟩

/-- Whatever came along with the header, the data is cut in two. -/
theorem residual_stores (h : Pointers s.pConnection) (ho : Opened r more s.pHTTP)
    (hsmall : r.data.length+1 < 2^31) :
    ∃ part rest, r.data = part ++ rest ∧ Stores (s.pConnection.offset_in+part.length)
      (s.receiveResidual false ((r.data.length+1 : ℕ) : ℤ)) fun u =>
        u.1 = rest.length ∧ Halfway s u.2 part rest more := by
  by_cases hnone : s.pHTTP.iOffset = s.pHTTP.iHeader
  · rcases residual_none h ho hnone with ⟨t, ht, hhalfway⟩
    refine ⟨[], r.data, rfl, fun _ => ⟨_, ht, rfl, hhalfway⟩, fun hfull => ?_⟩
    have hend := h.end_in
    rw [List.length_nil] at hfull
    omega
  · have hin := ho.inside
    exact ⟨r.data.take _, r.data.drop _, (List.take_append_drop _ _).symm,
      residual_some h ho (k := min (s.pHTTP.iOffset-s.pHTTP.iHeader) (r.data.length+1)-1) hsmall
        (by omega)⟩

theorem halfway_reads {part rest : Bytes} (h : Halfway s t part rest more) (sizes : List ℕ) :
    Halfway s (sizes.foldl read t) part rest more := by
  rcases reads_given h.pointers sizes with ⟨hpointers, hgiven, hhttp, hoffset⟩
  exact ⟨hpointers, hgiven.trans h.given, hoffset.trans h.offset, by rw [hhttp]; exact h.between,
    by rw [hhttp]; exact h.socket⟩

/-- What a reply that is parsed leaves behind. -/
structure Parsed (s t : RTMPTClient) (data more : Bytes) : Prop where
  pointers : Pointers t.pConnection
  given : t.given = s.given ++ data
  between : Between more t.pHTTP

/-- Behind the header and the shift, the rest of `parseHTTPResponse`. -/
theorem content_stores (h : Pointers s.pConnection) (ho : Opened r more s.pHTTP)
    (hsmall : r.data.length+1 < 2^31) (second : List ℕ) :
    Stores (s.pConnection.offset_in+r.data.length)
      (s.receiveResidual false ((r.data.length+1 : ℕ) : ℤ) >>= fun u =>
        (second.foldl read u.2).receiveRest u.1) fun t => Parsed s t r.data more := by
  rcases residual_stores h ho hsmall with ⟨part, rest, hdata, hfits, hfull⟩
  have hlength : r.data.length = part.length+rest.length := by
    rw [hdata, List.length_append]
  by_cases hpart : s.pConnection.offset_in+part.length ≤ MAX_HTTP_SIZE
  · rcases hfits hpart with ⟨⟨iRemaining, u⟩, hu, hcount, hhalfway⟩
    dsimp only at hcount hhalfway
    have hreads := halfway_reads hhalfway second
    have hrest := rest_stores hreads
    have hend : (second.foldl read u).pConnection.offset_in+rest.length =
        s.pConnection.offset_in+r.data.length := by
      rw [hreads.offset, hlength, Nat.add_assoc]
    rw [hend] at hrest
    rw [hu, hcount]
    constructor
    · intro hroom
      rcases hrest.1 hroom with ⟨t, ht, hpointers, hgiven, hbetween⟩
      refine ⟨t, ht, hpointers, ?_, hbetween⟩
      rw [hgiven, hreads.given, List.append_assoc, ← hdata]
    · exact hrest.2
  · constructor
    · intro hroom
      omega
    · intro _
      rcases hfull (not_le.mp hpart) with ⟨e, he⟩
      rw [he]
      exact ⟨e, rfl⟩

/-- A reply that finds room is parsed, and one that does not is written behind the buffer. -/
theorem parse_reply (hr : r.Formed) (hp : Pointers s.pConnection)
    (hb : Between (r.bytes ++ more) s.pHTTP) (first second : List ℕ) :
    (s.Roomy (.reply r first second) → ∃ t, s.parseHTTPResponse false first second = .ok t ∧
        Parsed s t r.data more) ∧
      (¬ s.Roomy (.reply r first second) →
        ∃ e, s.parseHTTPResponse false first second = .error e) := by
  rcases receiveReply_opened hr hb with ⟨iRet, h', hrun, ho⟩
  have hsmall := hr.small
  have hcount : int32 h'.iContent = ((r.data.length+1 : ℕ) : ℤ) := by
    rw [ho.content, int32_of_range] <;> omega
  have hp' : Pointers ({ s with pHTTP := h' } : RTMPTClient).pConnection := hp
  rcases prepared_given hp' r.data.length with ⟨hpointers, hgiven, hhttp, hroomy⟩
  have hreads := reads_given hpointers first
  obtain ⟨s₁, hs₁⟩ : ∃ s₁, first.foldl read
    ({ s with pHTTP := h' }.prepared ((r.data.length+1 : ℕ) : ℤ)) = s₁ := ⟨_, rfl⟩
  rw [hs₁] at hreads
  rcases hreads with ⟨hpointers₁, hgiven₁, hhttp₁, hoffset₁⟩
  have ho₁ : Opened r more s₁.pHTTP := by
    rw [hhttp₁, hhttp]
    exact ho
  have hstores := content_stores hpointers₁ ho₁ hsmall second
  rw [← hoffset₁] at hroomy
  have hparse : s.parseHTTPResponse false first second =
      (s₁.receiveResidual false ((r.data.length+1 : ℕ) : ℤ) >>= fun u =>
        (second.foldl read u.2).receiveRest u.1) := by
    rw [parseHTTPResponse, hrun]
    simp only [hcount, hs₁, Bool.false_eq_true, if_false]
    simp only [bind, Except.bind, pure, Except.pure]
    cases s₁.receiveResidual false ((r.data.length+1 : ℕ) : ℤ) with
    | error e => rfl
    | ok u =>
      dsimp only
      cases (second.foldl read u.2).receiveRest u.1 <;> rfl
  rw [hparse]
  constructor
  · intro hroom
    rcases hstores.1 (hroomy.mpr hroom) with ⟨t, ht, hparsed⟩
    refine ⟨t, ht, hparsed.pointers, ?_, hparsed.between⟩
    rw [hparsed.given, hgiven₁, hgiven]
    rfl
  · intro hroom
    exact hstores.2 (not_le.mp fun hle => hroom (hroomy.mp hle))

/-! ## Runs -/

/-- Replies reach the session whole exactly when each finds room in the buffer. -/
theorem rtmpt_replies_iff {s : RTMPTClient} {es : List Event} {more : Bytes}
    (hpointers : Pointers s.pConnection) (hes : ∀ e ∈ es, e.Formed)
    (hbetween : Between (es.flatMap Event.bytes ++ more) s.pHTTP) :
    s.Delivers es more ↔ s.RoomyRun es := by
  induction es generalizing s with
  | nil =>
    refine ⟨fun _ => trivial, fun _ => ⟨s, rfl, (List.append_nil _).symm, hbetween⟩⟩
  | cons e es ih =>
    rw [List.flatMap_cons, List.append_assoc] at hbetween
    have hes' : ∀ e' ∈ es, e'.Formed := fun e' he' => hes e' (List.mem_cons_of_mem e he')
    have hnext (t : RTMPTClient) (ht : s.step e = .ok t) (hp : Pointers t.pConnection)
        (hgiven : t.given = s.given ++ e.data)
        (hb : Between (es.flatMap Event.bytes ++ more) t.pHTTP) :
        s.Delivers (e::es) more ↔ t.RoomyRun es := by
      rw [← ih hp hes' hb, Delivers, Delivers, run, ht, List.flatMap_cons, hgiven]
      simp only [List.append_assoc]
      rfl
    cases e with
    | read iSize =>
      rcases read_given hpointers iSize with ⟨hp, hgiven, hhttp, -⟩
      have hb : Between (es.flatMap Event.bytes ++ more) (s.read iSize).pHTTP := by
        rw [hhttp]
        exact hbetween
      rw [hnext _ rfl hp (by rw [hgiven]; exact (List.append_nil _).symm) hb, RoomyRun]
      constructor
      · intro h
        refine ⟨trivial, fun t ht => ?_⟩
        obtain rfl := Except.ok.inj ht
        exact h
      · intro h
        exact h.2 _ rfl
    | reply r first second =>
      have hr : r.Formed := hes _ List.mem_cons_self
      rcases parse_reply hr hpointers hbetween first second with ⟨hroom, hfull⟩
      by_cases hroomy : s.Roomy (.reply r first second)
      · rcases hroom hroomy with ⟨t, ht, hparsed⟩
        rw [hnext t ht hparsed.pointers hparsed.given hparsed.between, RoomyRun]
        constructor
        · intro h
          refine ⟨hroomy, fun t' ht' => ?_⟩
          have hsame : s.parseHTTPResponse false first second = .ok t' := ht'
          rw [ht] at hsame
          obtain rfl := Except.ok.inj hsame
          exact h
        · intro h
          exact h.2 t ht
      · rcases hfull hroomy with ⟨e, he⟩
        constructor
        · rintro ⟨t, ht, -⟩
          rw [run, step, he] at ht
          cases ht
        · intro h
          exact absurd h.1 hroomy

/-- A reply with no more fields than it needs. -/
def plainReply (data : Bytes) : Reply where
  sProtocol := ascii "HTTP/1.1"
  iStatus := 200
  sStatus := ascii "OK"
  fields := [(lengthKey, ascii (toString (data.length+1)))]
  data := data

/-- A new client, to which all of the reply comes at once. -/
def waitingFor (r : Reply) : RTMPTClient where
  pHTTP := HTTPConnection.new (atOnce r.bytes) "HTTP/1.1"
  pConnection := RTMPTConnection.new
  sHash := []
  taken := []

theorem plainReply_formed (data : Bytes) (hsmall : data.length+1 < 2^31) :
    (plainReply data).Formed := by
  have hdigits := toString_digits (data.length+1)
  have hname : ∀ b ∈ lengthKey, isName b = true := by
    rw [lengthKey, ascii_data]
    exact List.all_eq_true.mp (by decide)
  have hkey : lengthKey.length = 14 := by
    rw [lengthKey, ascii_data]
    rfl
  have hnumber : (ascii (toString (data.length+1))).length ≤ 10 := by
    rw [ascii_toString, List.length_map]
    exact Nat.toDigits_length 10 _ 10 (by norm_num) (by omega)
  have hprotocol : Request.Word isGraph (ascii "HTTP/1.1") := by
    rw [ascii_data]
    exact ⟨by decide, List.all_eq_true.mp (by decide), by decide⟩
  have hstatus : Request.Word isGraph (ascii "OK") := by
    rw [ascii_data]
    exact ⟨by decide, List.all_eq_true.mp (by decide), by decide⟩
  have hline : ((Outgoing.reply 200 (ascii "OK")).words (ascii "HTTP/1.1")).length = 15 := by
    rw [Outgoing.words, ascii_toString, ascii_data, ascii_data]
    decide
  refine ⟨hprotocol, hstatus, ?_, ⟨_, ?_, hdigits.nonempty, hdigits.chars,
    decimal_toString (data.length+1)⟩, hsmall, ?_⟩
  · intro f hf
    rw [List.mem_singleton.mp hf]
    have hnonempty : lengthKey ≠ [] := List.ne_nil_of_length_pos (by omega)
    exact ⟨⟨hnonempty, hname, key_zero hname⟩,
      noLineEnd_plain (word_plain hdigits (by decide)), hdigits.zero⟩
  · exact find_assign lengthKey _ []
  · rw [Reply.header, List.length_append, List.length_append, List.length_append, fields_weight]
    have hcrlf : crlf.length = 2 := rfl
    have hbuffer : iBuffer = 64000 := rfl
    show ((Outgoing.reply 200 (ascii "OK")).words (ascii "HTTP/1.1")).length+_+
      (weight (lengthKey, ascii (toString (data.length+1)))+0)+_ < _
    rw [weight, hline]
    dsimp only
    omega

theorem new_pointers : Pointers RTMPTConnection.new := by
  constructor <;> simp [RTMPTConnection.new, MAX_HTTP_SIZE, HTTP_REPLY_SIZE]

theorem waitingFor_between (r : Reply) : Between (r.bytes ++ []) (waitingFor r).pHTTP where
  offset := by
    show 0 < 64000
    norm_num
  rest := by simp [waitingFor, HTTPConnection.new, atOnce, pending, Arrival.data]
  clean := by
    intro a ha
    rw [List.mem_singleton.mp ha]
    exact Or.inl ⟨_, rfl⟩

theorem rtmpt_replies_witness :
    (waitingFor (plainReply [7, 8])).Delivers
        [.reply (plainReply [7, 8]) [3] [1], .read 10] [] ↔
      (waitingFor (plainReply [7, 8])).RoomyRun
        [.reply (plainReply [7, 8]) [3] [1], .read 10] := by
  apply rtmpt_replies_iff (s := waitingFor (plainReply [7, 8])) new_pointers
  · intro e he
    simp only [List.mem_cons, List.not_mem_nil, or_false] at he
    rcases he with rfl | rfl
    · exact plainReply_formed [7, 8] (by decide)
    · trivial
  · have hbytes : [Event.reply (plainReply [7, 8]) [3] [1], .read 10].flatMap Event.bytes =
        (plainReply [7, 8]).bytes := List.append_nil _
    rw [hbytes]
    exact waitingFor_between _

/-- More data than the buffer holds. -/
theorem overflow_not_delivered {r : Reply} (hr : r.Formed)
    (hlength : MAX_HTTP_SIZE-HTTP_REPLY_SIZE < r.data.length) :
    ¬ (waitingFor r).Delivers [.reply r [] []] [] := by
  rintro ⟨t, ht, -⟩
  have hroom : ¬ (waitingFor r).Roomy (.reply r [] []) := by
    intro hroom
    rw [Roomy] at hroom
    omega
  rcases (parse_reply (s := waitingFor r) hr new_pointers (waitingFor_between r) [] []).2 hroom with
    ⟨e, he⟩
  rw [run, step, he] at ht
  cases ht

theorem rtmpt_replies_overflow : ∃ r : Reply, r.Formed ∧
    ¬ (waitingFor r).Delivers [.reply r [] []] [] := by
  have hlength : (List.replicate 16776193 (0 : UInt8)).length = 16776193 := List.length_replicate
  refine ⟨plainReply (List.replicate 16776193 0), plainReply_formed _ ?_,
    overflow_not_delivered (plainReply_formed _ ?_) ?_⟩
  · rw [hlength]
    norm_num
  · rw [hlength]
    norm_num
  · show MAX_HTTP_SIZE-HTTP_REPLY_SIZE < (List.replicate 16776193 (0 : UInt8)).length
    rw [hlength, MAX_HTTP_SIZE, HTTP_REPLY_SIZE]
    norm_num

end RTMPTClient

end Sirannon.RTMPT
