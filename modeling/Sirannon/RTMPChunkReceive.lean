import Sirannon.RTMPChunkSend

/-!
# Receiving follows the format

On an undisturbed connection `receiveChunk` takes exactly the bytes of the
next chunk and does to the message of its chunk stream what the format says.
Each stage has one lemma that gives the state it leaves: how many bytes are
still to come, what header bits are unread, and the message map.
-/

set_option autoImplicit false

namespace Sirannon.RTMPChunkReceive
open MachineInt Bits BitString Connection ByteMemory StateError
open RTMPChunkStream RTMPChunkFormat RTMPChunkSend

/-- `bs` is still to come, the socket takes what is sent, and sending ends. -/
structure Ready (s : ChunkStream) (bs : List UInt8) : Prop where
  clean : Clean s.pConnection
  coming : pending s.pConnection = bs
  accepting : Accepting s.pConnection.bBlocking s.pConnection.sends
  chunk : 0 < s.iSelfChunkSize

theorem setMessage_of_reader {s t : ChunkStream} (h : reader s = reader t) (id : ℕ) (m : Message) :
    reader (s.setMessage id m) = reader (t.setMessage id m) := by
  simp only [reader, Prod.mk.injEq] at h
  simp only [reader, ChunkStream.setMessage, h.1, h.2.1, h.2.2]

theorem setMessage_setMessage (s : ChunkStream) (id : ℕ) (m m' : Message) :
    (s.setMessage id m).setMessage id m' = s.setMessage id m' := by
  simp [ChunkStream.setMessage]

theorem ready_setMessage {s : ChunkStream} {bs : List UInt8} (h : Ready s bs) (id : ℕ)
    (m : Message) : Ready (s.setMessage id m) bs := ⟨h.1, h.2, h.3, h.4⟩

def counted (s : ChunkStream) (n : ℕ) : ChunkStream :=
  { s with
    iReceivedBytes := int32 (s.iReceivedBytes+n)
    iDeltaReceivedBytes := int32 (s.iDeltaReceivedBytes+n) }

/-- A receive takes the bytes asked for and hands them to `put`. -/
theorem receiveOrNull_ready (put : List UInt8 → ChunkStream → ChunkStream) (s : ChunkStream)
    (xs ys : List UInt8) (h : Ready s (xs++ys)) (hx : xs ≠ []) :
    ∃ c, (receiveOrNull put xs.length).run s =
        .ok () (counted (put xs { s with pConnection := c }) xs.length) ∧
      Clean c ∧ pending c = ys ∧ Accepting c.bBlocking c.sends := by
  have hpos : 0 < xs.length := List.length_pos_iff.mpr hx
  obtain ⟨iVal, c, hr, hv, hc, hp, hs, -, -, hb⟩ := receiveSmart_clean s.pConnection xs.length hpos
    h.clean (by rw [h.coming, List.length_append]; omega)
  rw [h.coming, List.take_left] at hr
  rw [h.coming, List.drop_left] at hp
  refine ⟨c, ?_, hc, hp, by rw [hs, hb]; exact h.accepting⟩
  have hrun : (receiveFromSocket put xs.length).run s =
      .ok iVal (counted (put xs { s with pConnection := c }) xs.length) := by
    simp only [receiveFromSocket, EStateM.run, hr, if_pos hv]
    rfl
  rw [receiveOrNull, run_bind_of_ok hrun, if_neg (by omega)]
  rfl

/-- Receive header bytes: they become the bits to be read next. -/
theorem receiveChunkBytes (s : ChunkStream) (off : ℕ) (xs ys : List UInt8)
    (h : Ready s (xs++ys)) (hx : xs ≠ []) (ha : s.oReceiveChunk.Ahead (8*off) []) :
    ∃ s', (receiveOrNull (putChunk off) xs.length).run s = .ok () s' ∧ Ready s' ys ∧
      reader s' = reader s ∧ s'.oReceiveChunk.Ahead (8*off) (ofBytes xs) := by
  obtain ⟨c, hrun, hc, hp, hs⟩ := receiveOrNull_ready (putChunk off) s xs ys h hx
  exact ⟨_, hrun, ⟨hc, hp, hs, h.chunk⟩, rfl, IBits.ahead_store ha xs⟩

theorem readChunk_field (s : ChunkStream) (p n v : ℕ) (bs : List Bool) (rest : List UInt8)
    (h : Ready s rest) (ha : s.oReceiveChunk.Ahead p (ofNat n v ++ bs)) (hn : n ≤ 32)
    (hv : v < 2^n) :
    ∃ s', (readChunk n).run s = .ok v s' ∧ Ready s' rest ∧ reader s' = reader s ∧
      s'.oReceiveChunk.Ahead (p+n) bs := by
  obtain ⟨hval, ha'⟩ := IBits.read_field ha hn hv
  refine ⟨{ s with oReceiveChunk := (s.oReceiveChunk.read n).2 }, ?_, ⟨h.1, h.2, h.3, h.4⟩, rfl,
    ha'⟩
  rw [← hval]
  rfl

/-! ## Header -/

theorem smartRcv_rest (c : Chunk) :
    smartRcv c.header.fmt c.basic.csId = (pack c.restBits).length := by
  have hlen : c.restBits.length = 8*smartRcv c.header.fmt c.basic.csId := by
    rw [Chunk.restBits, List.length_append, fieldBits_length, fieldBits_length]
    cases c.basic with
    | short id h =>
      have h0 : id ≠ 0 ∧ id ≠ 1 := by omega
      cases c.header <;> simp [smartRcv, BasicHeader.fields, BasicHeader.csId,
        ChunkHeader.fields, ChunkHeader.fmt, h0.1, h0.2]
    | medium lo => cases c.header <;> simp [smartRcv, BasicHeader.fields, BasicHeader.csId,
        ChunkHeader.fields, ChunkHeader.fmt]
    | long lo hi => cases c.header <;> simp [smartRcv, BasicHeader.fields, BasicHeader.csId,
        ChunkHeader.fields, ChunkHeader.fmt]
  exact (pack_length _ _ hlen).symm

theorem fmt_lt (h : ChunkHeader) : h.fmt < 2^2 := by cases h <;> simp [ChunkHeader.fmt]

theorem csId_lt (b : BasicHeader) : b.csId < 2^6 := by
  cases b with
  | short id h => exact h.2
  | medium lo => simp [BasicHeader.csId]
  | long lo hi => simp [BasicHeader.csId]

theorem receiveHeader_ready (s : ChunkStream) (c : Chunk) (rest : List UInt8)
    (h : Ready s (pack c.firstBits ++ pack c.restBits ++ rest)) :
    ∃ s', receiveHeader.run s = .ok (c.header.fmt, c.basic.csId) s' ∧ Ready s' rest ∧
      reader s' = reader s ∧ s'.oReceiveChunk.Ahead 8 c.restBits := by
  obtain ⟨k, hk, -⟩ := restBits_length c
  have hfirst : (pack c.firstBits).length = 1 := pack_length 1 _ (firstBits_length c)
  have hne : pack c.firstBits ≠ [] := List.ne_nil_of_length_pos (by omega)
  rw [List.append_assoc] at h
  obtain ⟨s₁, h₁, hr₁, hm₁, ha₁⟩ := receiveChunkBytes (clearChunk s) 0 _ _
    ⟨h.1, h.2, h.3, h.4⟩ hne (IBits.ahead_clear _)
  rw [ofBytes_pack 1 _ (firstBits_length c), Chunk.firstBits, ← List.append_nil (ofNat 6 _)] at ha₁
  obtain ⟨s₂, h₂, hr₂, hm₂, ha₂⟩ := readChunk_field s₁ 0 2 _ _ _ hr₁ ha₁ (by omega) (fmt_lt _)
  obtain ⟨s₃, h₃, hr₃, hm₃, ha₃⟩ := readChunk_field s₂ 2 6 _ _ _ hr₂ ha₂ (by omega) (csId_lt _)
  obtain ⟨s₄, h₄, hr₄, hm₄, ha₄⟩ : ∃ s₄, (receiveRest (pack c.restBits).length).run s₃ = .ok () s₄ ∧
      Ready s₄ rest ∧ reader s₄ = reader s₃ ∧ s₄.oReceiveChunk.Ahead (8*1) c.restBits := by
    by_cases h0 : pack c.restBits = []
    · have hbits : c.restBits = [] := by
        rw [← ofBytes_pack k _ hk, h0]
        rfl
      rw [h0, List.nil_append] at hr₃
      refine ⟨s₃, ?_, hr₃, rfl, by rw [hbits]; exact ha₃⟩
      rw [h0]
      rfl
    · obtain ⟨s₄, h₄, hr₄, hm₄, ha₄⟩ := receiveChunkBytes s₃ 1 _ _ hr₃ h0 ha₃
      rw [ofBytes_pack k _ hk] at ha₄
      refine ⟨s₄, ?_, hr₄, hm₄, ha₄⟩
      rw [receiveRest, if_pos (List.length_pos_iff.mpr h0), h₄]
  rw [hfirst] at h₁
  refine ⟨s₄, ?_, hr₄, hm₄.trans (hm₃.trans (hm₂.trans hm₁)), ha₄⟩
  rw [receiveHeader, run_modify_bind, run_bind_of_ok h₁, run_bind_of_ok h₂, run_bind_of_ok h₃,
    smartRcv_rest, run_bind_of_ok h₄]
  rfl

theorem readChunkID_ready (s : ChunkStream) (b : BasicHeader) (k : ℕ) (bs : List Bool)
    (rest : List UInt8) (h : Ready s rest)
    (ha : s.oReceiveChunk.Ahead (8*k) (fieldBits b.fields ++ bs)) :
    ∃ s' n, (readChunkID b.csId).run s = .ok b.id s' ∧ Ready s' rest ∧ reader s' = reader s ∧
      s'.oReceiveChunk.Ahead (8*n) bs := by
  cases b with
  | short id hid =>
    refine ⟨s, k, ?_, h, rfl, ha⟩
    have h0 : id ≠ 0 ∧ id ≠ 1 := by omega
    rw [BasicHeader.csId, readChunkID, if_neg h0.1, if_neg h0.2]
    rfl
  | medium lo =>
    simp only [BasicHeader.fields, fieldBits, List.flatMap_cons, List.flatMap_nil,
      List.append_nil] at ha
    obtain ⟨s₁, h₁, hr₁, hm₁, ha₁⟩ := readChunk_field s _ 8 _ _ _ h ha (by omega) lo.toNat_lt
    refine ⟨s₁, k+1, ?_, hr₁, hm₁, ha₁⟩
    rw [BasicHeader.csId, readChunkID, if_pos rfl, run_bind_of_ok h₁]
    rfl
  | long lo hi =>
    simp only [BasicHeader.fields, fieldBits, List.flatMap_cons, List.flatMap_nil,
      List.append_nil, List.append_assoc] at ha
    obtain ⟨s₁, h₁, hr₁, hm₁, ha₁⟩ := readChunk_field s _ 8 _ _ _ h ha (by omega) lo.toNat_lt
    obtain ⟨s₂, h₂, hr₂, hm₂, ha₂⟩ := readChunk_field s₁ _ 8 _ _ _ hr₁ ha₁ (by omega) hi.toNat_lt
    refine ⟨s₂, k+2, ?_, hr₂, hm₂.trans hm₁, ha₂⟩
    rw [BasicHeader.csId, readChunkID, if_neg (by omega), if_pos rfl, run_bind_of_ok h₁,
      run_bind_of_ok h₂]
    rfl

/-! ## One message of the map -/

/-- The state is `t` with message `M` on chunk stream `id`, and `rest` is still to come. -/
structure Stage (t : ChunkStream) (id : ℕ) (M : Message) (rest : List UInt8)
    (s : ChunkStream) : Prop where
  ready : Ready s rest
  held : reader s = reader (t.setMessage id M)

theorem Stage.message {t s : ChunkStream} {id : ℕ} {M : Message} {rest : List UInt8}
    (h : Stage t id M rest s) : s.message id = M := by
  rw [message_of_reader h.held, message_setMessage]

theorem Stage.of_reader {t s s' : ChunkStream} {id : ℕ} {M : Message} {rest rest' : List UInt8}
    (h : Stage t id M rest s) (hr : Ready s' rest') (hm : reader s' = reader s) :
    Stage t id M rest' s' := ⟨hr, hm.trans h.held⟩

/-- Updating the message keeps the stage and touches nothing else. -/
theorem Stage.update {t s : ChunkStream} {id : ℕ} {M : Message} {rest : List UInt8}
    (h : Stage t id M rest s) (f : Message → Message) :
    (updateMessage id f).run s = .ok () (s.setMessage id (f M)) ∧
      Stage t id (f M) rest (s.setMessage id (f M)) := by
  constructor
  · rw [← h.message]
    rfl
  · exact ⟨ready_setMessage h.ready id _, by
      rw [setMessage_of_reader h.held, setMessage_setMessage]⟩

theorem run_raiseIf_neg {c : Prop} [Decidable c] (e : Stop) (s : ChunkStream) (h : ¬ c) :
    (raiseIf c e).run s = .ok () s := by
  rw [raiseIf, if_neg h]
  rfl

theorem selectMessage_stage (s : ChunkStream) (fmt id : ℕ) (rest : List UInt8) (h : Ready s rest)
    (hdone : fmt < 3 → (s.message id).currentLength = 0)
    (hnew : s.mReceiveChunk id = none → fmt = 0) :
    ∃ s', (selectMessage fmt id).run s = .ok () s' ∧
      Stage s id { s.message id with csId := id } rest s' ∧
      s'.oReceiveChunk = s.oReceiveChunk := by
  refine ⟨s.setMessage id { s.message id with csId := id }, ?_, ⟨ready_setMessage h id _, rfl⟩, rfl⟩
  have hup : (updateMessage id fun m => { m with csId := id }).run s =
      .ok () (s.setMessage id { s.message id with csId := id }) := rfl
  have h₁ : ¬ (fmt < 3 ∧ 0 < (s.message id).currentLength) := by
    intro hc
    have := hdone hc.1
    omega
  have h₂ : ¬ ((s.mReceiveChunk id).isNone ∧ 0 < fmt) := by
    intro hc
    have := hnew (Option.isNone_iff_eq_none.mp hc.1)
    omega
  rw [selectMessage, run_get_bind, run_bind_of_ok hup,
    run_bind_of_ok (run_raiseIf_neg _ _ h₁)]
  exact run_raiseIf_neg _ _ h₂

/-- What a message header does to the message of its chunk stream. -/
def parsed (m : Message) : ChunkHeader → Message
  | .full timestamp length type streamId => { m with
      timestamp := timestamp, timestampDelta := 0, messageLength := length
      messageTypeId := type, messageStreamId := streamId }
  | .lengthAndDelta delta length type => { m with
      timestampDelta := delta, messageLength := length, messageTypeId := type }
  | .deltaOnly delta => { m with timestampDelta := delta }
  | .inherit => m

theorem parseHeader_stage (t s : ChunkStream) (id k : ℕ) (M : Message) (rest : List UInt8)
    (header : ChunkHeader) (h : Stage t id M rest s) (hfit : header.Fits)
    (ha : s.oReceiveChunk.Ahead (8*k) (fieldBits header.fields)) :
    ∃ s' n, (parseHeader header.fmt id).run s = .ok () s' ∧ Stage t id (parsed M header) rest s' ∧
      s'.oReceiveChunk.Ahead (8*n) [] := by
  cases header with
  | full ts len ty sid =>
    simp only [ChunkHeader.Fits, ChunkHeader.fields, List.forall_mem_cons] at hfit
    obtain ⟨hts, hlen, hty, hsid, -⟩ := hfit
    simp only [ChunkHeader.fields, fieldBits, List.flatMap_cons, List.flatMap_nil] at ha
    obtain ⟨s₁, h₁, hr₁, hm₁, ha₁⟩ := readChunk_field s _ 24 _ _ _ h.ready ha (by omega) hts
    obtain ⟨s₂, h₂, hr₂, hm₂, ha₂⟩ := readChunk_field s₁ _ 24 _ _ _ hr₁ ha₁ (by omega) hlen
    obtain ⟨s₃, h₃, hr₃, hm₃, ha₃⟩ := readChunk_field s₂ _ 8 _ _ _ hr₂ ha₂ (by omega) hty
    obtain ⟨s₄, h₄, hr₄, hm₄, ha₄⟩ := readChunk_field s₃ _ 32 _ _ _ hr₃ ha₃ (by omega) hsid
    obtain ⟨hup, hst⟩ := (h.of_reader hr₄ (hm₄.trans (hm₃.trans (hm₂.trans hm₁)))).update
      (fun m => parsed m (.full ts len ty sid))
    refine ⟨_, k+11, ?_, hst, ha₄⟩
    rw [ChunkHeader.fmt, parseHeader, if_pos rfl, run_bind_of_ok h₁, run_bind_of_ok h₂,
      run_bind_of_ok h₃, run_bind_of_ok h₄]
    exact hup
  | lengthAndDelta d len ty =>
    simp only [ChunkHeader.Fits, ChunkHeader.fields, List.forall_mem_cons] at hfit
    obtain ⟨hd, hlen, hty, -⟩ := hfit
    simp only [ChunkHeader.fields, fieldBits, List.flatMap_cons, List.flatMap_nil] at ha
    obtain ⟨s₁, h₁, hr₁, hm₁, ha₁⟩ := readChunk_field s _ 24 _ _ _ h.ready ha (by omega) hd
    obtain ⟨s₂, h₂, hr₂, hm₂, ha₂⟩ := readChunk_field s₁ _ 24 _ _ _ hr₁ ha₁ (by omega) hlen
    obtain ⟨s₃, h₃, hr₃, hm₃, ha₃⟩ := readChunk_field s₂ _ 8 _ _ _ hr₂ ha₂ (by omega) hty
    obtain ⟨hup, hst⟩ := (h.of_reader hr₃ (hm₃.trans (hm₂.trans hm₁))).update
      (fun m => parsed m (.lengthAndDelta d len ty))
    refine ⟨_, k+7, ?_, hst, ha₃⟩
    rw [ChunkHeader.fmt, parseHeader, if_neg (by omega), if_pos rfl, run_bind_of_ok h₁,
      run_bind_of_ok h₂, run_bind_of_ok h₃]
    exact hup
  | deltaOnly d =>
    simp only [ChunkHeader.Fits, ChunkHeader.fields, List.forall_mem_cons] at hfit
    obtain ⟨hd, -⟩ := hfit
    simp only [ChunkHeader.fields, fieldBits, List.flatMap_cons, List.flatMap_nil] at ha
    obtain ⟨s₁, h₁, hr₁, hm₁, ha₁⟩ := readChunk_field s _ 24 _ _ _ h.ready ha (by omega) hd
    obtain ⟨hup, hst⟩ := (h.of_reader hr₁ hm₁).update (fun m => parsed m (.deltaOnly d))
    refine ⟨_, k+3, ?_, hst, ha₁⟩
    rw [ChunkHeader.fmt, parseHeader, if_neg (by omega), if_neg (by omega), if_pos rfl,
      run_bind_of_ok h₁]
    exact hup
  | inherit =>
    refine ⟨s, k, ?_, h, ha⟩
    rw [ChunkHeader.fmt, parseHeader, if_neg (by omega), if_neg (by omega), if_neg (by omega)]
    rfl

/-! ## Extended timestamp and payload -/

/-- What an extended timestamp does to a message. -/
def extendedBy (m : Message) : Option ℕ → Message
  | none => m
  | some e => { m with timestamp := e }

/-- The code looks for an extended timestamp exactly where one was written. -/
def Expected (m : Message) : Option ℕ → Prop
  | none => m.timestamp < 0xFFFFFF
  | some e => 0xFFFFFF ≤ m.timestamp ∧ e < 2^31

theorem extendedTimestamp_stage (t s : ChunkStream) (id k : ℕ) (M : Message)
    (rest : List UInt8) (e : Option ℕ) (h : Stage t id M (pack (extendedBits e) ++ rest) s)
    (he : Expected M e) (ha : s.oReceiveChunk.Ahead (8*k) []) :
    ∃ s', (extendedTimestamp id).run s = .ok () s' ∧ Stage t id (extendedBy M e) rest s' := by
  have hget : (getMessage id).run s = .ok M s := by
    rw [← h.message]
    rfl
  cases e with
  | none =>
    simp only [Expected] at he
    refine ⟨s, ?_, h⟩
    rw [extendedTimestamp, run_bind_of_ok hget, if_neg (by omega)]
    rfl
  | some e =>
    obtain ⟨hM, he31⟩ := he
    have hlen : (pack (extendedBits (some e))).length = 4 :=
      pack_length 4 _ (by simp [extendedBits])
    obtain ⟨s₁, h₁, hr₁, hm₁, ha₁⟩ := receiveChunkBytes s k _ _ h.ready
      (List.ne_nil_of_length_pos (by omega)) ha
    rw [ofBytes_pack 4 _ (by simp [extendedBits]), extendedBits,
      ← List.append_nil (ofNat 32 e)] at ha₁
    obtain ⟨s₂, h₂, hr₂, hm₂, -⟩ := readChunk_field s₁ _ 32 e _ _ hr₁ ha₁ (by omega)
      (lt_of_lt_of_le he31 (by norm_num))
    obtain ⟨hup, hst⟩ := (h.of_reader hr₂ (hm₂.trans hm₁)).update
      (fun m => { m with timestamp := int32 e })
    have hint : int32 (e : ℤ) = e := int32_of_range _ (by omega) (by exact_mod_cast he31)
    rw [hlen] at h₁
    refine ⟨_, ?_, by rw [extendedBy, ← hint]; exact hst⟩
    rw [extendedTimestamp, run_bind_of_ok hget, if_pos hM, run_get_bind,
      (IBits.ahead_aligned ha).2, run_bind_of_ok h₁, run_bind_of_ok h₂]
    exact hup

/-- What the payload bytes of a chunk do to a message. -/
def fetched (m : Message) (payload : List UInt8) : Message :=
  { m with
    oBuffer := { m.oBuffer with buf := store m.oBuffer.buf m.currentLength payload }
    arrived := if payload = [] then m.arrived
      else (if m.currentLength = 0 then 0 else m.arrived) + payload.length }

def received (m : Message) (payload : List UInt8) : Message :=
  { fetched m payload with currentLength := m.currentLength + payload.length }

theorem fetchPayload_stage (t s : ChunkStream) (id : ℕ) (M : Message) (payload rest : List UInt8)
    (h : Stage t id M (payload ++ rest) s) :
    ∃ s', (fetchPayload id M.currentLength payload.length).run s = .ok () s' ∧
      Stage t id (fetched M payload) rest s' := by
  by_cases hp : payload = []
  · subst hp
    have hsame : fetched M [] = M := by simp [fetched]
    refine ⟨s, ?_, by rw [hsame]; exact h⟩
    rw [fetchPayload, if_neg (by simp)]
    rfl
  · obtain ⟨c, hrun, hc, hcoming, hsends⟩ := receiveOrNull_ready (putPayload id M.currentLength)
      (logWrite M.currentLength payload.length s) payload rest
      ⟨h.ready.1, h.ready.2, h.ready.3, h.ready.4⟩ hp
    have hlen : 0 < payload.length := List.length_pos_iff.mpr hp
    have hfetch : (fetchPayload id M.currentLength payload.length).run s = .ok () (counted
        (putPayload id M.currentLength payload { logWrite M.currentLength payload.length s with
          pConnection := c }) payload.length) := by
      rw [fetchPayload, if_pos (by omega), run_modify_bind]
      exact hrun
    refine ⟨_, hfetch, ⟨hc, hcoming, hsends, h.ready.chunk⟩, ?_⟩
    · have hm : ({ logWrite M.currentLength payload.length s with pConnection := c } :
          ChunkStream).message id = M := h.message
      have hput : putPayload id M.currentLength payload
          { logWrite M.currentLength payload.length s with pConnection := c } =
          ({ logWrite M.currentLength payload.length s with pConnection := c } :
            ChunkStream).setMessage id (fetched M payload) := by
        rw [putPayload, hm, fetched, if_neg hp]
      rw [hput, ← setMessage_setMessage t id M, ← setMessage_of_reader h.held]
      rfl

theorem payloadSize_of_range (m : Message) (size : ℤ) (hle : m.currentLength ≤ m.messageLength)
    (hmax : m.messageLength ≤ maxMessageSize) (hs : 0 ≤ size) (hs' : size < 2^31) :
    payloadSize m size = min (m.messageLength - m.currentLength) size.toNat := by
  have hsub : (m.messageLength : ℤ) - m.currentLength =
      ((m.messageLength - m.currentLength : ℕ) : ℤ) := by omega
  have hsize : size = (size.toNat : ℤ) := by omega
  rw [maxMessageSize] at hmax
  rw [payloadSize, hsub, uint32_of_range _ (by omega)]
  conv_lhs => rw [hsize]
  rw [uint32_of_range _ (by omega), int32_of_range _ (by omega) (by omega)]

theorem receivePayload_stage (t s : ChunkStream) (id : ℕ) (M : Message)
    (payload rest : List UInt8) (h : Stage t id M (payload ++ rest) s)
    (hmax : M.messageLength ≤ maxMessageSize) (hle : M.currentLength ≤ M.messageLength)
    (hs : 0 ≤ s.iOtherChunkSize) (hs' : s.iOtherChunkSize < 2^31)
    (hlen : payload.length = min (M.messageLength - M.currentLength) s.iOtherChunkSize.toNat) :
    ∃ s', (receivePayload id).run s = .ok () s' ∧ Stage t id (received M payload) rest s' := by
  have hsize : payloadSize M s.iOtherChunkSize = payload.length := by
    rw [payloadSize_of_range M _ hle hmax hs hs', hlen]
  have hcur : uint32 ((M.currentLength : ℤ) + payload.length) =
      M.currentLength + payload.length := by
    have hb : M.currentLength + payload.length < 2^32 := by
      rw [maxMessageSize] at hmax
      omega
    rw [← Nat.cast_add, uint32_of_range _ hb]
  obtain ⟨s₁, h₁, hst₁⟩ := fetchPayload_stage t s id M payload rest h
  obtain ⟨hup, hst⟩ := hst₁.update (fun m => { m with
    currentLength := uint32 ((m.currentLength : ℤ) + payload.length) })
  refine ⟨_, ?_, by rw [received, ← hcur]; exact hst⟩
  have hfits : ¬ maxMessageSize < (s.message id).messageLength := by
    rw [h.message]
    omega
  rw [receivePayload, run_get_bind, run_bind_of_ok (run_raiseIf_neg _ s hfits)]
  simp only [h.message, hsize]
  rw [run_bind_of_ok h₁]
  exact hup

/-- What the end of a message does to it. -/
def ended (m : Message) : Message :=
  if m.currentLength = m.messageLength then { m with
    currentLength := 0, timestamp := int32 (m.timestamp + m.timestampDelta)
    oBuffer := m.oBuffer.clear }
  else m

theorem endOfMessage_stage (t s : ChunkStream) (id : ℕ) (M : Message) (rest : List UInt8)
    (h : Stage t id M rest s) :
    ∃ s', (endOfMessage id).run s = .ok () s' ∧ Stage t id (ended M) rest s' := by
  have hget : (getMessage id).run s = .ok M s := by
    rw [← h.message]
    rfl
  rw [endOfMessage, run_bind_of_ok hget, ended]
  by_cases hend : M.currentLength = M.messageLength
  · obtain ⟨hup, hst⟩ := h.update (fun m => { m with
      currentLength := 0, timestamp := int32 (m.timestamp + m.timestampDelta)
      oBuffer := m.oBuffer.clear })
    rw [if_pos hend, if_pos hend]
    exact ⟨_, hup, hst⟩
  · rw [if_neg hend, if_neg hend]
    exact ⟨s, rfl, h⟩

/-! ## Sending from the receiving side -/

theorem messageChunks_ne_nil (b : BasicHeader) (header : ChunkHeader) (e : Option ℕ) (size : ℕ)
    (payload : List UInt8) : encodeAll (messageChunks b header e size payload) ≠ [] := by
  have hfirst : ∀ c : Chunk, c.encode ≠ [] := by
    intro c h0
    have hlen := congrArg List.length h0
    simp only [Chunk.encode, List.length_append, List.length_nil,
      pack_length 1 _ (firstBits_length c)] at hlen
    omega
  rw [messageChunks]
  cases pieces size payload.length payload with
  | nil => simp [cut, encodeAll, hfirst]
  | cons p ps => simp [cut, encodeAll, hfirst]

theorem sendFmt_cases (m : Message) (len type ts : ℕ) :
    sendFmt m len type ts = 0 ∨ sendFmt m len type ts = 1 ∨ sendFmt m len type ts = 3 := by
  rw [sendFmt]
  split_ifs <;> simp

/-- The chunks `sendMessage` puts on the wire. -/
def sentChunks (s : ChunkStream) (data : List UInt8) (type id sid ts : ℕ)
    (h : 2 ≤ id ∧ id < 64) : List Chunk :=
  messageChunks (.short id h)
    (sentHeader (sendFmt (s.sendEntry id) data.length type ts) data.length type sid ts) none
    s.iSelfChunkSize.toNat data

def wrote (s : ChunkStream) (bs : List UInt8) (sends : List ℤ) : ChunkStream :=
  { s with
    pConnection := { s.pConnection with out := s.pConnection.out ++ bs, sends := sends }
    iSentBytes := int32 (s.iSentBytes+bs.length) }

theorem sendToSocket_open (s : ChunkStream) (bs : List UInt8)
    (h : Accepting s.pConnection.bBlocking s.pConnection.sends) (hb : bs ≠ []) :
    ∃ iVal sends, (sendToSocket bs).run s = .ok iVal (wrote s bs sends) ∧ 0 < iVal ∧
      Accepting s.pConnection.bBlocking sends := by
  obtain ⟨iVal, sends, hsend, hpos, hacc⟩ := sendSmart_open s.pConnection bs h hb
  refine ⟨iVal, sends, ?_, hpos, hacc⟩
  simp only [sendToSocket, EStateM.run, hsend, if_pos hpos]
  rfl

def fmtFor (s : ChunkStream) (data : List UInt8) (type id ts : ℕ) : ℕ :=
  sendFmt (s.sendEntry id) data.length type ts

/-- The socket takes what is sent, and the payload loop ends. -/
structure CanSend (s : ChunkStream) : Prop where
  accepting : Accepting s.pConnection.bBlocking s.pConnection.sends
  chunk : 0 < s.iSelfChunkSize

theorem Ready.canSend {s : ChunkStream} {bs : List UInt8} (h : Ready s bs) : CanSend s :=
  ⟨h.accepting, h.chunk⟩

/-- `sendMessage` writes the chunks of the message, and remembers it. -/
theorem sendMessage_sends (s : ChunkStream) (data : List UInt8) (type id sid ts : ℕ)
    (hid : 2 ≤ id ∧ id < 64) (hcap : 12 + 2*data.length ≤ maxMessageSize) (h : CanSend s) :
    ∃ s', (sendMessage data type id sid ts).run s = .ok 0 s' ∧ CanSend s' ∧
      reader s' = reader s ∧ s'.iSelfChunkSize = s.iSelfChunkSize ∧
      s'.mSendChunk = (s.remember (fmtFor s data type id ts) id type data.length).mSendChunk ∧
      s'.pConnection.out = s.pConnection.out ++ encodeAll (sentChunks s data type id sid ts hid) ∧
      s'.pConnection.arrivals = s.pConnection.arrivals ∧
      s'.pConnection.bBlocking = s.pConnection.bBlocking := by
  obtain ⟨hopen, hchunk⟩ := h
  have hcompose := composeMessage_ok s.iSelfChunkSize _ data type id sid ts hid hchunk
    (sendFmt_cases (s.sendEntry id) data.length type ts) hcap
  have hprep : (prepareMessage data type id sid ts).run s =
      .ok (encodeAll (sentChunks s data type id sid ts hid))
        (s.remember (fmtFor s data type id ts) id type data.length) := by
    rw [prepareMessage, run_get_bind, run_modify_bind, hcompose]
    rfl
  have hne : encodeAll (sentChunks s data type id sid ts hid) ≠ [] :=
    messageChunks_ne_nil _ _ _ _ _
  obtain ⟨iVal, sends, hsend, hpos, hacc⟩ := sendToSocket_open
    (s.remember (fmtFor s data type id ts) id type data.length) _ hopen hne
  have hrun : (sendMessage data type id sid ts).run s = .ok 0
      (wrote (s.remember (fmtFor s data type id ts) id type data.length)
        (encodeAll (sentChunks s data type id sid ts hid)) sends) := by
    rw [sendMessage, run_bind_of_ok hprep, run_bind_of_ok hsend, if_neg (by omega)]
    rfl
  exact ⟨_, hrun, ⟨hacc, hchunk⟩, rfl, rfl, rfl, rfl, rfl, rfl⟩

theorem sendMessage_ready (s : ChunkStream) (data rest : List UInt8) (type id sid ts : ℕ)
    (hid : 2 ≤ id ∧ id < 64) (hcap : 12 + 2*data.length ≤ maxMessageSize) (h : Ready s rest) :
    ∃ s', (sendMessage data type id sid ts).run s = .ok 0 s' ∧ Ready s' rest ∧
      reader s' = reader s := by
  obtain ⟨s', hrun, hsend, hm, -, -, -, harr, hblock⟩ :=
    sendMessage_sends s data type id sid ts hid hcap h.canSend
  refine ⟨s', hrun, ⟨?_, ?_, hsend.accepting, hsend.chunk⟩, hm⟩
  · rw [Clean, harr, hblock]
    exact h.clean
  · rw [pending, harr]
    exact h.coming

theorem controlPayload_ok (s : ChunkStream) (fields : List (ℕ × ℕ)) (n : ℕ)
    (hpos : ∀ f ∈ fields, 0 < f.1) (hn : (fields.map Prod.fst).sum = 8*n) (hcap : n ≤ maxChunkSize) :
    ∃ data, (controlPayload fields).run s = .ok data s ∧ ofBytes data = fieldBits fields ∧
      data.length = n := by
  obtain ⟨hok, hfit⟩ := OBits.writes_appends fields (OBits.new maxChunkSize) []
    (OBits.holds_new _) hpos
  have hlen : (fieldBits fields).length = 8*n := by rw [fieldBits_length, hn]
  have hroom : ([] : List Bool).length + (fieldBits fields).length ≤
      8*(OBits.new maxChunkSize).iBytes := by
    rw [hlen, List.length_nil, OBits.new]
    simp only
    omega
  obtain ⟨o, ho⟩ := hfit hroom
  obtain ⟨hh, -⟩ := hok o ho
  rw [List.nil_append, ← ofBytes_pack n _ hlen] at hh
  refine ⟨pack (fieldBits fields), ?_, ofBytes_pack n _ hlen, pack_length n _ hlen⟩
  rw [controlPayload, ho]
  simp only [ofBits, Except.mapError, liftStop]
  rw [run_pure_bind, OBits.data_of_holds hh]
  rfl

/-- A control message goes out whole and leaves the receiving side as it was. -/
theorem sendControl_ready (s : ChunkStream) (fields : List (ℕ × ℕ)) (t : ControlMsg) (n : ℕ)
    (rest : List UInt8) (hpos : ∀ f ∈ fields, 0 < f.1) (hn : (fields.map Prod.fst).sum = 8*n)
    (hcap : n ≤ 64) (h : Ready s rest) :
    ∃ s', (sendControl fields t).run s = .ok 0 s' ∧ Ready s' rest ∧ reader s' = reader s := by
  obtain ⟨data, hdata, -, hlen⟩ := controlPayload_ok s fields n hpos hn
    (by rw [maxChunkSize]; omega)
  obtain ⟨s', hs', hr, hm⟩ := sendMessage_ready s data rest t.code 2 0 0 (by omega)
    (by rw [maxMessageSize]; omega) h
  exact ⟨s', by rw [sendControl, run_bind_of_ok hdata, hs'], hr, hm⟩

theorem sendACK_ready (s : ChunkStream) (rest : List UInt8) (h : Ready s rest) :
    ∃ s', sendACK.run s = .ok 0 s' ∧ Ready s' rest ∧ reader s' = reader s := by
  obtain ⟨data, hdata, -, hlen⟩ := controlPayload_ok s [(32, uint32 s.iReceivedBytes)] 4
    (by simp) (by simp) (by simp [maxChunkSize])
  obtain ⟨s', hs', hr, hm⟩ := sendMessage_ready { s with iDeltaReceivedBytes := 0 } data rest
    ControlMsg.ack.code 2 0 0 (by omega) (by rw [maxMessageSize]; omega) ⟨h.1, h.2, h.3, h.4⟩
  refine ⟨s', ?_, hr, hm⟩
  rw [sendACK, run_get_bind, run_bind_of_ok hdata, run_modify_bind]
  exact hs'

theorem checkACK_stage (t s : ChunkStream) (id : ℕ) (M : Message) (rest : List UInt8)
    (h : Stage t id M rest s) :
    ∃ s', checkACK.run s = .ok () s' ∧ Stage t id M rest s' := by
  rw [checkACK, run_get_bind]
  split_ifs
  · obtain ⟨s', hs', hr, hm⟩ := sendACK_ready s rest h.ready
    refine ⟨s', ?_, h.of_reader hr hm⟩
    rw [run_bind_of_ok hs']
    exact run_raiseIf_neg _ s' (by simp)
  · exact ⟨s, rfl, h⟩

/-! ## One chunk -/

/-- What a chunk does to the message of its chunk stream. -/
def afterChunk (m : Message) (c : Chunk) : Message :=
  ended (received (extendedBy (parsed { m with csId := c.id } c.header) c.extended) c.payload)

/-- The message of chunk stream `c.id` is one the chunk can start or continue. -/
structure Takes (s : ChunkStream) (c : Chunk) : Prop where
  fits : c.header.Fits
  done : c.header.fmt < 3 → (s.message c.id).currentLength = 0
  fresh : s.mReceiveChunk c.id = none → c.header.fmt = 0
  expected : Expected (parsed (s.message c.id) c.header) c.extended
  small : (parsed (s.message c.id) c.header).messageLength ≤ maxMessageSize
  inside : (s.message c.id).currentLength ≤ (parsed (s.message c.id) c.header).messageLength
  size : 0 ≤ s.iOtherChunkSize ∧ s.iOtherChunkSize < 2^31
  cut : c.payload.length = min ((parsed (s.message c.id) c.header).messageLength -
    (s.message c.id).currentLength) s.iOtherChunkSize.toNat

@[simp] theorem parsed_currentLength (m : Message) (h : ChunkHeader) :
    (parsed m h).currentLength = m.currentLength := by cases h <;> rfl

theorem parsed_csId (m : Message) (h : ChunkHeader) (id : ℕ) :
    parsed { m with csId := id } h = { parsed m h with csId := id } := by cases h <;> rfl

@[simp] theorem extendedBy_messageLength (m : Message) (e : Option ℕ) :
    (extendedBy m e).messageLength = m.messageLength := by cases e <;> rfl

@[simp] theorem extendedBy_currentLength (m : Message) (e : Option ℕ) :
    (extendedBy m e).currentLength = m.currentLength := by cases e <;> rfl

/-- `receiveChunk` takes the bytes of the chunk, and nothing else. -/
theorem receiveChunk_ready (s : ChunkStream) (c : Chunk) (rest : List UInt8)
    (h : Ready s (c.encode ++ rest)) (ht : Takes s c) :
    ∃ s', receiveChunk.run s = .ok c.id s' ∧ Ready s' rest ∧
      reader s' = reader (s.setMessage c.id (afterChunk (s.message c.id) c)) := by
  rw [Chunk.encode, List.append_assoc, List.append_assoc] at h
  obtain ⟨s₁, h₁, hr₁, hm₁, ha₁⟩ := receiveHeader_ready s c _ h
  obtain ⟨s₂, n₂, h₂, hr₂, hm₂, ha₂⟩ := readChunkID_ready s₁ c.basic 1 _ _ hr₁ ha₁
  have h₂' : (readChunkID c.basic.csId).run s₁ = .ok c.id s₂ := h₂
  have hm₂' : reader s₂ = reader s := hm₂.trans hm₁
  have hmsg := message_of_reader hm₂' c.id
  obtain ⟨s₃, h₃, hst₃, ho₃⟩ := selectMessage_stage s₂ c.header.fmt c.id _ hr₂
    (by rw [hmsg]; exact ht.done)
    (by simp only [reader, Prod.mk.injEq] at hm₂'; rw [hm₂'.2.1]; exact ht.fresh)
  rw [hmsg] at hst₃
  rw [← ho₃] at ha₂
  have hst₃' : Stage s c.id { s.message c.id with csId := c.id }
      (pack (extendedBits c.extended) ++ (c.payload ++ rest)) s₃ :=
    ⟨hst₃.ready, hst₃.held.trans (setMessage_of_reader hm₂' _ _)⟩
  obtain ⟨s₄, n₄, h₄, hst₄, ha₄⟩ := parseHeader_stage s s₃ c.id n₂ _ _ c.header hst₃' ht.fits ha₂
  rw [parsed_csId] at hst₄
  obtain ⟨s₅, h₅, hst₅⟩ := extendedTimestamp_stage s s₄ c.id n₄ _ _ c.extended hst₄
    (by cases he : c.extended <;> simpa [Expected, he] using ht.expected) ha₄
  have hsize : s₅.iOtherChunkSize = s.iOtherChunkSize := by
    have := hst₅.held
    simp only [reader, Prod.mk.injEq] at this
    exact this.1
  obtain ⟨s₆, h₆, hst₆⟩ := receivePayload_stage s s₅ c.id _ c.payload rest hst₅
    (by simpa using ht.small) (by simpa using ht.inside) (by rw [hsize]; exact ht.size.1)
    (by rw [hsize]; exact ht.size.2) (by simpa [hsize] using ht.cut)
  obtain ⟨s₇, h₇, hst₇⟩ := endOfMessage_stage s s₆ c.id _ rest hst₆
  obtain ⟨s₈, h₈, hst₈⟩ := checkACK_stage s s₇ c.id _ rest hst₇
  refine ⟨s₈, ?_, hst₈.ready, by rw [afterChunk, parsed_csId]; exact hst₈.held⟩
  rw [receiveChunk, run_bind_of_ok h₁, run_bind_of_ok h₂', run_bind_of_ok h₃, run_bind_of_ok h₄,
    run_bind_of_ok h₅, run_bind_of_ok h₆, run_bind_of_ok h₇, run_bind_of_ok h₈]
  rfl

end Sirannon.RTMPChunkReceive
