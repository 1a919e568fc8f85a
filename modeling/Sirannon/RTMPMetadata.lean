import Sirannon.RTMPFraming

/-!
# Timestamps and stream IDs of messages

A message whose timestamp is 0 goes out without one as soon as the chunk stream
has carried a payload, and without a stream ID. The receiver then keeps what it
has of the message before.
-/

set_option autoImplicit false

namespace Sirannon.RTMPMetadata
open MachineInt Bits BitString Connection ByteMemory StateError
open RTMPChunkStream RTMPChunkFormat RTMPChunkSend RTMPChunkReceive RTMPRefinement RTMPFraming

/-! ## Chunks of a composed message -/

theorem writes_holds {fields : List (ℕ × ℕ)} {o o' : OBits} {bs : List Bool} (ho : o.Holds bs)
    (hpos : ∀ f ∈ fields, 0 < f.1) (hw : ofBits (o.writes fields) = .ok o') :
    o'.Holds (bs ++ fieldBits fields) := by
  rcases h : o.writes fields with e | o₁
  · simp [h, ofBits, Except.mapError] at hw
  · rw [h] at hw
    obtain rfl : o₁ = o' := by simpa [ofBits, Except.mapError] using hw
    exact ((OBits.writes_appends fields o bs ho hpos).1 o₁ h).1

theorem tail_composed (id : ℕ) (h : 2 ≤ id ∧ id < 64) (size : ℤ) (hs : 0 < size) (fuel : ℕ)
    (data bs : List UInt8) {o o' : OBits} (hf : data.length ≤ fuel) (ho : o.Holds (ofBytes bs))
    (hw : writePayloads id size fuel false data o = .ok o') :
    o'.Holds (ofBytes (bs ++ tailBytes (.short id h) (pieces size.toNat fuel data))) := by
  induction fuel generalizing data bs o with
  | zero =>
    obtain rfl : o = o' := by simpa [writePayloads] using hw
    simpa [pieces, tailBytes, encodeAll] using ho
  | succ fuel ih =>
    rw [writePayloads] at hw
    rw [pieces]
    by_cases hd : data = []
    · rw [if_pos hd] at hw ⊢
      obtain rfl : o = o' := by simpa using hw
      simpa [tailBytes, encodeAll] using ho
    have htake := take_drop_min data size.toNat
    have hlen : 0 < data.length := List.length_pos_iff.mpr hd
    rw [if_neg hd, if_neg (by omega)] at hw
    rw [if_neg hd, tailBytes_cons]
    rcases hhead : ofBits (o.writes [(2, 3), (6, id)]) with e | o₁
    · simp [hhead, Bind.bind, Except.bind] at hw
    · have hh := writes_holds ho (by simp) hhead
      rw [show fieldBits [(2, 3), (6, id)] = ofNat 2 3 ++ ofNat 6 id by simp [fieldBits],
        ← ofBytes_pack 1 (ofNat 2 3 ++ ofNat 6 id) (by simp), ← ofBytes_append] at hh
      have hh' := OBits.writeBuffer_holds (data.take size.toNat) hh (aligned_ofBytes _)
      rw [← ofBytes_append] at hh'
      simp only [hhead, htake.1, htake.2, Bool.false_eq_true, if_false, Bind.bind,
        Except.bind] at hw
      have hrest := ih (data.drop size.toNat) _ (by rw [List.length_drop]; omega) hh' hw
      simpa [List.append_assoc] using hrest

theorem header_composed (id : ℕ) (h : 2 ≤ id ∧ id < 64) (header : ChunkHeader)
    (fmt len type sid ts : ℕ) (hfmt : fmt = 0 ∨ fmt = 1 ∨ fmt = 3)
    (hh : header = sentHeader fmt len type sid ts) (p : List UInt8) :
    fieldBits (headerFields fmt id len type sid ts) =
      ofBytes (Chunk.head ⟨.short id h, header, none, p⟩) := by
  rw [headerFields_bits fmt id len type sid ts hfmt, ofBytes_head, Chunk.firstBits,
    Chunk.restBits, hh, sent_fmt fmt len type sid ts hfmt]
  simp [BasicHeader.fields, BasicHeader.csId, fieldBits, extendedBits]

/-- What `sendMessage` composes, whenever it does. -/
theorem message_composed {size : ℤ} {fmt : ℕ} {data bytes : List UInt8} {type id sid ts : ℕ}
    (h : 2 ≤ id ∧ id < 64) (hs : 0 < size) (hfmt : fmt = 0 ∨ fmt = 1 ∨ fmt = 3)
    (hw : composeMessage size fmt data type id sid ts = .ok bytes) :
    bytes = encodeAll (messageChunks (.short id h) (sentHeader fmt data.length type sid ts) none
      size.toNat data) := by
  have hencode (p : List UInt8) : (⟨.short id h, sentHeader fmt data.length type sid ts, none, p⟩ :
      Chunk).encode = Chunk.head ⟨.short id h, sentHeader fmt data.length type sid ts, none, []⟩ ++
        p := rfl
  rw [composeMessage] at hw
  rcases hhead : ofBits ((OBits.new maxMessageSize).writes
      (headerFields fmt id data.length type sid ts)) with e | o
  · simp [hhead, Bind.bind, Except.bind] at hw
  have hfirst := writes_holds (OBits.holds_new _) (headerFields_pos fmt id data.length type sid ts)
    hhead
  rw [header_composed id h _ fmt data.length type sid ts hfmt rfl [], List.nil_append] at hfirst
  rcases hloop : writePayloads id size data.length true data o with e | o'
  · simp [hhead, hloop, Bind.bind, Except.bind] at hw
  obtain rfl : o'.data = bytes := by
    simpa [hhead, hloop, Bind.bind, Except.bind, pure, Except.pure] using hw
  rw [messageChunks_eq, encodeAll, List.flatMap_cons, hencode]
  cases data with
  | nil =>
    obtain rfl : o = o' := by simpa [writePayloads] using hloop
    rw [OBits.data_of_holds hfirst]
    simp [pieces]
  | cons b rest =>
    have hbuffer := OBits.writeBuffer_holds ((b::rest).take size.toNat) hfirst (aligned_ofBytes _)
    have htake := take_drop_min (b::rest) size.toNat
    rw [← ofBytes_append] at hbuffer
    rw [List.length_cons, writePayloads, if_neg (List.cons_ne_nil b rest), if_neg (by omega)]
      at hloop
    simp only [htake.1, htake.2, if_true, Bind.bind, Except.bind] at hloop
    have hall := tail_composed id h size hs rest.length ((b::rest).drop size.toNat) _
      (by rw [List.length_drop, List.length_cons]; omega) hbuffer hloop
    rw [OBits.data_of_holds hall]
    rfl

theorem sendMessage_wrote {s s' : ChunkStream} {data : List UInt8} {type id sid ts : ℕ}
    (hid : 2 ≤ id ∧ id < 64) (h : CanSend s)
    (hrun : (sendMessage data type id sid ts).run s = .ok 0 s') :
    CanSend s' ∧ s'.iSelfChunkSize = s.iSelfChunkSize ∧
      s'.mSendChunk = (s.remember (fmtFor s data type id ts) id type data.length).mSendChunk ∧
      s'.pConnection.out =
        s.pConnection.out ++ encodeAll (sentChunks s data type id sid ts hid) := by
  have hprep : (prepareMessage data type id sid ts).run s = (liftStop (composeMessage
      s.iSelfChunkSize (fmtFor s data type id ts) data type id sid ts)).run
        (s.remember (fmtFor s data type id ts) id type data.length) := by
    rw [prepareMessage, run_get_bind, run_modify_bind]
    rfl
  rcases hcompose : composeMessage s.iSelfChunkSize (fmtFor s data type id ts) data type id sid ts
    with e | bytes
  · rw [hcompose] at hprep
    have herror : (sendMessage data type id sid ts).run s = .error e
        (s.remember (fmtFor s data type id ts) id type data.length) := by
      rw [sendMessage, run_bind_of_error hprep]
    rw [hrun] at herror
    cases herror
  · have hbytes : bytes = encodeAll (sentChunks s data type id sid ts hid) :=
      message_composed hid h.chunk (sendFmt_cases (s.sendEntry id) data.length type ts) hcompose
    have hne : bytes ≠ [] := by
      rw [hbytes]
      exact messageChunks_ne_nil _ _ _ _ _
    rw [hcompose] at hprep
    rcases sendToSocket_open (s.remember (fmtFor s data type id ts) id type data.length) bytes
      h.accepting hne with ⟨iVal, sends, hsend, hpos, hacc⟩
    have hsent : (sendMessage data type id sid ts).run s = .ok 0
        (wrote (s.remember (fmtFor s data type id ts) id type data.length) bytes sends) := by
      rw [sendMessage, run_bind_of_ok hprep, run_bind_of_ok hsend, if_neg (by omega)]
      rfl
    rw [hrun] at hsent
    cases hsent
    rw [← hbytes]
    exact ⟨⟨hacc, h.chunk⟩, rfl, rfl, rfl⟩

/-! ## What the receiver keeps -/

structure Post where
  data : List UInt8
  type : ℕ
  streamId : ℕ
  timestamp : ℕ
  deriving DecidableEq

/-- What fits the fields of a header, and a payload the receiver takes. -/
structure Post.InRange (a : Post) : Prop where
  length : a.data.length ≤ maxMessageSize
  type : a.type < 2^8
  streamId : a.streamId < 2^8
  timestamp : a.timestamp < 0xFFFFFF

/-- Timestamp and stream ID of a message. -/
abbrev Metadata := ℤ × ℕ

def Post.metadata (a : Post) : Metadata := (a.timestamp, a.streamId*2^24)

/-- The metadata in force with `a`, behind a message of `n` bytes that left `μ`. -/
def inForce (n : ℕ) (μ : Metadata) (a : Post) : Metadata :=
  if n = 0 ∨ 0 < a.timestamp then a.metadata else μ

def carried (n : ℕ) (μ : Metadata) : List Post → List Metadata
  | [] => []
  | a::posts => inForce n μ a :: carried a.data.length (inForce n μ a) posts

/-- The slot of a chunk stream whose last message had `n` bytes and left `μ`. -/
def Keeps (n : ℕ) (μ : Metadata) (entry : Option Message) : Option Slot → Prop
  | none => entry = none ∧ n = 0
  | some sl => Idle sl ∧ sl.length = n ∧ (sl.timestamp, sl.streamId) = μ ∧
      ∃ m, entry = some m ∧ m.messageLength = n ∧ m.messageTypeId = sl.type

theorem full_idle {ts len type sid : ℕ} (hts : ts < 0xFFFFFF) :
    Idle ⟨timeField ts 0, 0, ts, true, 0, len, type, sid, []⟩ := by
  have hne : ts ≠ 0xFFFFFF := by omega
  exact ⟨rfl, hts, by simp only [timeField, if_neg hne]; omega, rfl⟩

/-- The header picked for `a` opens the slot `sl`, which has the metadata `μ`. -/
structure Opened (s : ChunkStream) (slot : Option Slot) {id : ℕ} (hid : 2 ≤ id ∧ id < 64)
    (a : Post) (μ : Metadata) (sl : Slot) : Prop where
  opens : ∀ p, openSlot slot ⟨.short id hid, sentHeader (fmtFor s a.data a.type id a.timestamp)
    a.data.length a.type a.streamId a.timestamp, none, p⟩ = some sl
  idle : Idle sl
  length : sl.length = a.data.length
  type : sl.type = a.type
  metadata : (sl.timestamp, sl.streamId) = μ

theorem full_opened {s : ChunkStream} {slot : Option Slot} {id : ℕ} {a : Post}
    (hid : 2 ≤ id ∧ id < 64) (ha : a.InRange) (hfmt : fmtFor s a.data a.type id a.timestamp = 0)
    (hgot : ∀ sl, slot = some sl → sl.got = []) : ∃ sl, Opened s slot hid a a.metadata sl := by
  have hts := ha.timestamp
  have hsid : a.streamId % 2^8 = a.streamId := Nat.mod_eq_of_lt ha.streamId
  have hne : a.timestamp ≠ 0xFFFFFF := by omega
  have hfield : timeField a.timestamp 0 = a.timestamp := by rw [timeField, if_neg hne]
  refine ⟨⟨timeField a.timestamp 0, 0, a.timestamp, true, 0, a.data.length, a.type,
    a.streamId % 2^8 * 2^24, []⟩, ?_, full_idle hts, rfl, rfl, ?_⟩
  · intro p
    rw [hfmt]
    cases slot with
    | none => rfl
    | some sl =>
      simp only [openSlot, sentHeader, if_true, hgot sl rfl]
      rfl
  · simp only [Post.metadata, hsid, hfield]

/-- A header of format 1 or 3 leaves the metadata of the slot as they are. -/
theorem short_opened {s : ChunkStream} {sl : Slot} {m : Message} {id : ℕ} {a : Post}
    (hid : 2 ≤ id ∧ id < 64) (hidle : Idle sl) (hm : s.mSendChunk id = some m)
    (hlen : m.messageLength = sl.length) (htype : m.messageTypeId = sl.type)
    (hpos : m.messageLength ≠ 0) (hzero : a.timestamp = 0) :
    ∃ sl', Opened s (some sl) hid a (sl.timestamp, sl.streamId) sl' := by
  have hent : s.sendEntry id = m := by
    rw [ChunkStream.sendEntry, hm]
    rfl
  have hshort : ¬ (m.messageLength = 0 ∨ 0 < a.timestamp) := by omega
  by_cases hsame : m.messageTypeId = a.type ∧ m.messageLength = a.data.length
  · have hfmt : fmtFor s a.data a.type id a.timestamp = 3 := by
      rw [fmtFor, sendFmt, hent, if_neg hshort, if_pos hsame]
    refine ⟨sl, ?_, hidle, hlen.symm.trans hsame.2, htype.symm.trans hsame.1, rfl⟩
    intro p
    rw [hfmt]
    rfl
  · have hfmt : fmtFor s a.data a.type id a.timestamp = 1 := by
      rw [fmtFor, sendFmt, hent, if_neg hshort, if_neg hsame]
    refine ⟨{ sl with
      delta := 0, field := 0, absolute := false, extended := 0, length := a.data.length
      type := a.type }, ?_, ⟨hidle.got, by norm_num, hidle.timestamp, rfl⟩, rfl, rfl, rfl⟩
    intro p
    have hone : sentHeader 1 a.data.length a.type a.streamId 0 =
        .lengthAndDelta 0 a.data.length a.type := rfl
    rw [hfmt, hzero, hone]
    simp only [openSlot, hidle.got, if_true]
    rfl

theorem post_opened {s : ChunkStream} {slot : Option Slot} {n id : ℕ} {μ : Metadata} {a : Post}
    (hid : 2 ≤ id ∧ id < 64) (hkeeps : Keeps n μ (s.mSendChunk id) slot) (ha : a.InRange) :
    ∃ sl, Opened s slot hid a (inForce n μ a) sl := by
  cases slot with
  | none =>
    rcases hkeeps with ⟨hentry, hn⟩
    rw [inForce, if_pos (.inl hn)]
    apply full_opened hid ha
    · simp [fmtFor, sendFmt, ChunkStream.sendEntry, hentry, Message.new]
    · intro sl hsl
      cases hsl
  | some sl =>
    rcases hkeeps with ⟨hidle, hlen, rfl, m, hm, hml, hmt⟩
    by_cases hforce : n = 0 ∨ 0 < a.timestamp
    · rw [inForce, if_pos hforce]
      apply full_opened hid ha
      · rw [fmtFor, sendFmt, ChunkStream.sendEntry, hm, Option.getD_some, hml, if_pos hforce]
      · intro sl' hsl
        cases hsl
        exact hidle.got
    · rw [inForce, if_neg hforce]
      exact short_opened hid hidle hm (hml.trans hlen.symm) hmt (by omega) (by omega)

/-! ## Messages of one chunk stream -/

def Post.send (id : ℕ) (a : Post) : RTMP ℤ :=
  sendMessage a.data a.type id a.streamId a.timestamp

def sendEach (id : ℕ) : List Post → RTMP (List ℤ)
  | [] => return []
  | a::posts => do
    let iRet ← a.send id
    let iRets ← sendEach id posts
    return iRet::iRets

/-- Chunks up to the end of a message, and the message there. -/
def receiveComplete : RTMP Message := do
  let s ← get
  let iChunkID ← receiveChunks ((pending s.pConnection).length+1)
  getMessage iChunkID

def receiveEach : ℕ → RTMP (List Message)
  | 0 => return []
  | n+1 => do
    let m ← receiveComplete
    let ms ← receiveEach n
    return m::ms

def reported (m : Message) : Metadata := (m.timestamp, m.messageStreamId)

/-- A sender and a receiver with the same chunk size and nothing on the way between them. -/
structure Paired (id : ℕ) (s : ChunkStream) (R : Receiver) (n : ℕ) (μ : Metadata) : Prop where
  sends : CanSend s
  size : s.iSelfChunkSize = R.size
  keeps : Keeps n μ (s.mSendChunk id) (R.slots id)

theorem post_completes {s s' : ChunkStream} {R : Receiver} {id n : ℕ} {μ : Metadata} {a : Post}
    (hid : 2 ≤ id ∧ id < 64) (hp : Paired id s R n μ) (ha : a.InRange)
    (hrun : (a.send id).run s = .ok 0 s') :
    ∃ R' msg, s'.pConnection.out = s.pConnection.out ++
        encodeAll (sentChunks s a.data a.type id a.streamId a.timestamp hid) ∧
      Completes R (sentChunks s a.data a.type id a.streamId a.timestamp hid) R' msg ∧
      AllReadable R (sentChunks s a.data a.type id a.streamId a.timestamp hid) ∧
      (msg.timestamp, msg.streamId) = inForce n μ a ∧
      Paired id s' ⟨R.size, R'.slots⟩ a.data.length (inForce n μ a) := by
  rcases sendMessage_wrote hid hp.sends hrun with ⟨hsends, hsize, hmem, hout⟩
  rcases post_opened hid hp.keeps ha with ⟨sl, hopened⟩
  have hlen := ha.length
  have htype := ha.type
  have hts := ha.timestamp
  have hpos := hp.sends.chunk
  have hself := hp.size
  have hR : s.iSelfChunkSize.toNat = R.size := by omega
  have hchunks : sentChunks s a.data a.type id a.streamId a.timestamp hid =
      messageChunks (.short id hid) (sentHeader (fmtFor s a.data a.type id a.timestamp)
        a.data.length a.type a.streamId a.timestamp) none R.size a.data := by
    rw [sentChunks, hR]
    rfl
  rw [maxMessageSize] at hlen
  have hcomplete := messageChunks_complete (.short id hid) none _ R sl a.data hopened.opens
    (sentHeader_fits _ _ _ _ _ (by omega) htype (by omega)) hopened.idle.extension.symm
    hopened.idle.plain hopened.idle.got hopened.length
    (by rw [hopened.length, maxMessageSize]; omega) (by omega)
  rw [← hchunks] at hcomplete
  have hdelta := hopened.idle.delta
  have hmeta : (((filled sl a.data).msg id).timestamp, ((filled sl a.data).msg id).streamId) =
      inForce n μ a := by
    rw [← hopened.metadata]
    show (sl.timestamp+sl.delta, sl.streamId) = (sl.timestamp, sl.streamId)
    rw [hdelta, add_zero]
  have hslot : (afterMessage R id (filled sl a.data)).slots id =
      some (filled sl a.data).taken := Function.update_self ..
  have hentry : s'.mSendChunk id = some { s.sendEntry id with
      fmt := fmtFor s a.data a.type id a.timestamp, csId := id, messageTypeId := a.type
      messageLength := a.data.length } := by
    rw [hmem]
    exact Function.update_self ..
  refine ⟨_, _, hout, hcomplete.1, hcomplete.2, hmeta, hsends, hsize.trans hp.size, ?_⟩
  show Keeps _ _ _ ((afterMessage R id (filled sl a.data)).slots id)
  rw [hslot, hentry]
  exact ⟨hopened.idle.taken a.data, hopened.length, hmeta, _, rfl, rfl, hopened.type.symm⟩

theorem sendEach_first {id : ℕ} {a : Post} {posts : List Post} {s s' : ChunkStream} {iRet : ℤ}
    {iRets : List ℤ} (hrun : (sendEach id (a::posts)).run s = .ok (iRet::iRets) s') :
    ∃ s₁, (a.send id).run s = .ok iRet s₁ ∧ (sendEach id posts).run s₁ = .ok iRets s' := by
  rw [sendEach] at hrun
  rcases hfirst : (a.send id).run s with ⟨i, s₁⟩ | ⟨e, s₁⟩
  · rw [run_bind_of_ok hfirst] at hrun
    rcases hrest : (sendEach id posts).run s₁ with ⟨is, s₂⟩ | ⟨e, s₂⟩
    · rw [run_bind_of_ok hrest] at hrun
      cases hrun
      exact ⟨s₁, rfl, hrest⟩
    · rw [run_bind_of_error hrest] at hrun
      cases hrun
  · rw [run_bind_of_error hfirst] at hrun
    cases hrun

theorem receiveComplete_ready {R R' : Receiver} {cs : List Chunk} {msg : Msg}
    (hc : Completes R cs R' msg) {p : ChunkStream} {rest : List UInt8} (ht : Tracks p R)
    (hr : Ready p (encodeAll cs ++ rest)) (hread : AllReadable R cs) :
    ∃ m p', receiveComplete.run p = .ok m p' ∧ reported m = (msg.timestamp, msg.streamId) ∧
      Ready p' rest ∧ Tracks p' ⟨R.size, R'.slots⟩ := by
  have hfuel : cs.length ≤ (pending p.pConnection).length+1 := by
    have := encodeAll_length cs
    rw [hr.coming, List.length_append]
    omega
  rcases receiveChunks_ready hc p rest _ ht hr hread hfuel with
    ⟨p', id, hrun, hr', ht', hdelivered, -, -⟩
  refine ⟨p'.message id, p', ?_, ?_, hr', ht'⟩
  · rw [receiveComplete, run_get_bind, run_bind_of_ok hrun]
    rfl
  · rw [← hdelivered.content]
    rfl

/-- What the receiver has after each message is what `carried` says. -/
theorem posts_received {id : ℕ} (hid : 2 ≤ id ∧ id < 64) (posts : List Post)
    {s s' : ChunkStream} {R : Receiver} {n : ℕ} {μ : Metadata} (hp : Paired id s R n μ)
    (hposts : ∀ a ∈ posts, a.InRange)
    (hrun : (sendEach id posts).run s = .ok (posts.map fun _ => 0) s') :
    ∃ wire, s'.pConnection.out = s.pConnection.out ++ wire ∧
      ∀ p rest, Tracks p R → Ready p (wire++rest) →
        ∃ ms p', (receiveEach posts.length).run p = .ok ms p' ∧
          ms.map reported = carried n μ posts ∧ Ready p' rest := by
  induction posts generalizing s R n μ with
  | nil =>
    cases hrun
    exact ⟨[], by simp, fun p rest _ hr => ⟨[], p, rfl, rfl, hr⟩⟩
  | cons a posts ih =>
    rcases sendEach_first hrun with ⟨s₁, hfirst, hrest⟩
    rcases post_completes hid hp (hposts a (by simp)) hfirst with
      ⟨R', msg, hout, hcomplete, hread, hmeta, hpaired⟩
    rcases ih hpaired (fun b hb => hposts b (by simp [hb])) hrest with ⟨wire, hout', hback⟩
    refine ⟨encodeAll (sentChunks s a.data a.type id a.streamId a.timestamp hid) ++ wire, ?_, ?_⟩
    · rw [hout', hout, List.append_assoc]
    · intro p rest ht hr
      rw [List.append_assoc] at hr
      rcases receiveComplete_ready hcomplete ht hr hread with ⟨m, p₁, hone, hm, hr₁, ht₁⟩
      rcases hback p₁ rest ht₁ hr₁ with ⟨ms, p', hall, hms, hr'⟩
      refine ⟨m::ms, p', ?_, ?_, hr'⟩
      · rw [List.length_cons, receiveEach, run_bind_of_ok hone, run_bind_of_ok hall]
        rfl
      · rw [List.map_cons, carried, hm, hms, hmeta]

/-! ## When the metadata come back -/

/-- `b` behind `a`: a header with everything, or nothing in it that differs. -/
def Follows (a b : Post) : Prop :=
  a.data = [] ∨ 0 < b.timestamp ∨ a.timestamp = 0 ∧ a.streamId = b.streamId

theorem inForce_follows (a b : Post) :
    inForce a.data.length a.metadata b = b.metadata ↔ Follows a b := by
  unfold inForce Follows
  simp only [List.length_eq_zero_iff]
  by_cases hfull : a.data = [] ∨ 0 < b.timestamp
  · rw [if_pos hfull]
    simp only [true_iff]
    tauto
  · rw [if_neg hfull]
    simp only [Post.metadata, Prod.mk.injEq]
    push Not at hfull
    constructor
    · intro h
      exact .inr (.inr ⟨by omega, by omega⟩)
    · rintro (h | h | h)
      · exact absurd h hfull.1
      · omega
      · omega

theorem carried_follows (a : Post) (posts : List Post) :
    carried a.data.length a.metadata posts = posts.map Post.metadata ↔
      (a::posts).IsChain Follows := by
  induction posts generalizing a with
  | nil => simp [carried]
  | cons b posts ih =>
    rw [carried, List.map_cons, List.cons.injEq, List.isChain_cons_cons, ← inForce_follows]
    constructor
    · rintro ⟨hb, hrest⟩
      rw [hb, ih] at hrest
      exact ⟨hb, hrest⟩
    · rintro ⟨hb, hrest⟩
      rw [hb, ih]
      exact ⟨rfl, hrest⟩

theorem carried_first (posts : List Post) (μ : Metadata) :
    carried 0 μ posts = posts.map Post.metadata ↔ posts.IsChain Follows := by
  cases posts with
  | nil => simp [carried]
  | cons a posts =>
    rw [carried, inForce, if_pos (.inl rfl), ← carried_follows]
    simp

/-- A chunk stream that has sent nothing yet. -/
structure Starts (s : ChunkStream) (id : ℕ) : Prop where
  accepting : Accepting s.pConnection.bBlocking s.pConnection.sends
  chunk : 0 < s.iSelfChunkSize ∧ s.iSelfChunkSize < 2^31
  fresh : s.mSendChunk id = none

/-- After each complete message the receiver has its timestamp and its stream ID exactly when each
message follows the one before in a way that leaves nothing stale. -/
theorem metadata_round_trip {s s' p : ChunkStream} {id : ℕ} {posts : List Post}
    {wire rest : List UInt8} (hid : 2 ≤ id ∧ id < 64) (hs : Starts s id)
    (hposts : ∀ a ∈ posts, a.InRange)
    (hrun : (sendEach id posts).run s = .ok (posts.map fun _ => 0) s')
    (hout : s'.pConnection.out = s.pConnection.out ++ wire) (hp : Peer s p (wire++rest)) :
    ∃ ms p', (receiveEach posts.length).run p = .ok ms p' ∧ pending p'.pConnection = rest ∧
      (ms.map reported = posts.map Post.metadata ↔ posts.IsChain Follows) := by
  have hchunk := hs.chunk
  obtain ⟨size, hsize⟩ : ∃ size : ℕ, s.iSelfChunkSize = size :=
    ⟨s.iSelfChunkSize.toNat, by omega⟩
  have hpaired : Paired id s ⟨size, fun _ => none⟩ 0 (0, 0) :=
    ⟨⟨hs.accepting, hchunk.1⟩, hsize, hs.fresh, rfl⟩
  rcases posts_received hid posts hpaired hposts hrun with ⟨bytes, hbytes, hback⟩
  obtain rfl : wire = bytes := List.append_cancel_left (hout.symm.trans hbytes)
  have htracks : Tracks p ⟨size, fun _ => none⟩ :=
    ⟨hp.size.trans hsize, by show 0 < size; omega, by show size < 2^31; omega, hp.fresh⟩
  rcases hback p rest htracks hp.ready with ⟨ms, p', hall, hms, hr'⟩
  refine ⟨ms, p', hall, hr'.coming, ?_⟩
  rw [hms]
  exact carried_first posts (0, 0)

/-- Short messages are sent, whatever else they are. -/
theorem sendEach_sends {id : ℕ} (hid : 2 ≤ id ∧ id < 64) (posts : List Post) {s : ChunkStream}
    (hs : CanSend s) (hshort : ∀ a ∈ posts, 12+2*a.data.length ≤ maxMessageSize) :
    ∃ s' wire, (sendEach id posts).run s = .ok (posts.map fun _ => 0) s' ∧
      s'.pConnection.out = s.pConnection.out ++ wire := by
  induction posts generalizing s with
  | nil => exact ⟨s, [], rfl, by simp⟩
  | cons a posts ih =>
    rcases sendMessage_sends s a.data a.type id a.streamId a.timestamp hid (hshort a (by simp)) hs
      with ⟨s₁, hfirst, hs₁, -, -, -, hout, -⟩
    rcases ih hs₁ (fun b hb => hshort b (by simp [hb])) with ⟨s', wire, hrest, hout'⟩
    refine ⟨s', encodeAll (sentChunks s a.data a.type id a.streamId a.timestamp hid) ++ wire,
      ?_, ?_⟩
    · rw [sendEach, Post.send, run_bind_of_ok hfirst, run_bind_of_ok hrest]
      rfl
    · rw [hout', hout, List.append_assoc]

theorem four : 2 ≤ 4 ∧ 4 < 64 := by norm_num

theorem idle_starts (id : ℕ) : Starts idle id := by
  refine ⟨idle_sender.accepting, ?_, rfl⟩
  norm_num [idle, ChunkStream.new]

def twice (first second : ℕ × ℕ) : List Post :=
  [⟨[7], 8, first.1, first.2⟩, ⟨[9], 8, second.1, second.2⟩]

theorem twice_short (first second : ℕ × ℕ) :
    ∀ a ∈ twice first second, 12+2*a.data.length ≤ maxMessageSize := by
  simp [twice, maxMessageSize]

theorem twice_inRange {first second : ℕ × ℕ} (hsid : first.1 < 2^8 ∧ second.1 < 2^8)
    (hts : first.2 < 0xFFFFFF ∧ second.2 < 0xFFFFFF) : ∀ a ∈ twice first second, a.InRange := by
  intro a ha
  simp only [twice, List.mem_cons, List.not_mem_nil, or_false] at ha
  rcases ha with rfl | rfl
  · exact ⟨by simp [maxMessageSize], by norm_num, hsid.1, hts.1⟩
  · exact ⟨by simp [maxMessageSize], by norm_num, hsid.2, hts.2⟩

theorem metadata_round_trip_twice : ∃ s' wire ms p',
    (sendEach 4 (twice (1, 40) (1, 80))).run idle = .ok [0, 0] s' ∧
      s'.pConnection.out = idle.pConnection.out ++ wire ∧
      (receiveEach 2).run (expecting (wire ++ [])) = .ok ms p' ∧ pending p'.pConnection = [] ∧
      (ms.map reported = (twice (1, 40) (1, 80)).map Post.metadata ↔
        (twice (1, 40) (1, 80)).IsChain Follows) := by
  rcases sendEach_sends four (twice (1, 40) (1, 80))
    ⟨idle_sender.accepting, (idle_starts 4).chunk.1⟩ (twice_short _ _) with ⟨s', wire, hrun, hout⟩
  rcases metadata_round_trip four (idle_starts 4)
    (twice_inRange (by norm_num) (by norm_num)) hrun hout (expecting_peer (wire ++ [])) with
    ⟨ms, p', hall, hrest, hiff⟩
  exact ⟨s', wire, ms, p', hrun, hout, hall, hrest, hiff⟩

/-- What two short messages leave at the receiver. -/
theorem twice_carried {a b : ℕ × ℕ} (hsid : a.1 < 2^8 ∧ b.1 < 2^8)
    (hts : a.2 < 0xFFFFFF ∧ b.2 < 0xFFFFFF) : ∃ s' wire ms p',
    (sendEach 4 (twice a b)).run idle = .ok [0, 0] s' ∧
      s'.pConnection.out = idle.pConnection.out ++ wire ∧
      (receiveEach 2).run (expecting wire) = .ok ms p' ∧
      ms.map reported = carried 0 (0, 0) (twice a b) := by
  rcases sendEach_sends four (twice a b)
    ⟨idle_sender.accepting, (idle_starts 4).chunk.1⟩ (twice_short _ _) with ⟨s', wire, hrun, hout⟩
  have hpaired : Paired 4 idle ⟨128, fun _ => none⟩ 0 (0, 0) :=
    ⟨⟨idle_sender.accepting, (idle_starts 4).chunk.1⟩, rfl, rfl, rfl⟩
  rcases posts_received four _ hpaired (twice_inRange hsid hts) hrun with
    ⟨bytes, hbytes, hback⟩
  obtain rfl : wire = bytes := List.append_cancel_left (hout.symm.trans hbytes)
  have hpeer := expecting_peer wire
  rcases hback (expecting wire) [] ⟨rfl, by norm_num, by norm_num, hpeer.fresh⟩
    (by simpa using hpeer.ready) with ⟨ms, p', hall, hms, -⟩
  exact ⟨s', wire, ms, p', hrun, hout, hall, hms⟩

/-- A timestamp of 0 behind one of 40 is read as 40, and a second stream ID as the first. -/
theorem zero_timestamp_stale :
    (∃ s' wire ms p', (sendEach 4 (twice (1, 40) (1, 0))).run idle = .ok [0, 0] s' ∧
      s'.pConnection.out = idle.pConnection.out ++ wire ∧
      (receiveEach 2).run (expecting wire) = .ok ms p' ∧
      ms.map reported ≠ (twice (1, 40) (1, 0)).map Post.metadata) ∧
    ∃ s' wire ms p', (sendEach 4 (twice (1, 0) (2, 0))).run idle = .ok [0, 0] s' ∧
      s'.pConnection.out = idle.pConnection.out ++ wire ∧
      (receiveEach 2).run (expecting wire) = .ok ms p' ∧
      ms.map reported ≠ (twice (1, 0) (2, 0)).map Post.metadata := by
  constructor
  · rcases twice_carried (a := (1, 40)) (b := (1, 0)) (by norm_num) (by norm_num) with
      ⟨s', wire, ms, p', hrun, hout, hall, hms⟩
    refine ⟨s', wire, ms, p', hrun, hout, hall, ?_⟩
    rw [hms]
    decide
  · rcases twice_carried (a := (1, 0)) (b := (2, 0)) (by norm_num) (by norm_num) with
      ⟨s', wire, ms, p', hrun, hout, hall, hms⟩
    refine ⟨s', wire, ms, p', hrun, hout, hall, ?_⟩
    rw [hms]
    decide

end Sirannon.RTMPMetadata
