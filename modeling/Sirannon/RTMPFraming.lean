import Sirannon.RTMPRefinement

/-!
# Framing round trip

The sender picks the header of a message from what it remembers of the last
message on the chunk stream; the receiver fills in what the header leaves out
from its slot. The two memories agree after every message, so a peer reads
back the messages that were sent, across changes of the chunk size.
-/

set_option autoImplicit false

namespace Sirannon.RTMPFraming
open MachineInt Bits BitString Connection ByteMemory StateError
open RTMPChunkStream RTMPChunkFormat RTMPChunkSend RTMPChunkReceive RTMPRefinement

/-! ## The chunks of a message complete it -/

/-- The slot after `data` has been added to the message it opened. -/
def filled (sl : Slot) (data : List UInt8) : Slot := { sl with got := sl.got ++ data }

def afterMessage (R : Receiver) (id : ℕ) (sl : Slot) : Receiver :=
  ⟨(sl.msg id).sizeAfter R.size, Function.update R.slots id (some sl.taken)⟩

theorem filled_filled (sl : Slot) (xs ys : List UInt8) :
    filled (filled sl xs) ys = filled sl (xs++ys) := by
  simp [filled]

theorem messageChunks_eq (basic : BasicHeader) (header : ChunkHeader) (e : Option ℕ) (size : ℕ)
    (data : List UInt8) :
    messageChunks basic header e size data = ⟨basic, header, e, data.take size⟩ ::
      (pieces size (data.length-1) (data.drop size)).map (continuation basic e) := by
  cases data with
  | nil => simp [messageChunks, pieces, cut]
  | cons b bs => simp [messageChunks, pieces, cut]

/-- A piece of the payload completes its message exactly when it is the last. -/
theorem step_piece {R : Receiver} {c : Chunk} {sl : Slot} {data : List UInt8}
    (ho : openSlot (R.slots c.id) c = some sl) (he : c.extended = sl.extension)
    (hlen : sl.length = sl.got.length + data.length) (hmax : sl.length ≤ maxMessageSize)
    (hp : c.payload = data.take R.size) :
    R.step c = if data.drop R.size = [] then
        some (afterMessage R c.id (filled sl data), some ((filled sl data).msg c.id))
      else some (⟨R.size, Function.update R.slots c.id (some (filled sl (data.take R.size)))⟩,
        none) := by
  have hacc : accept R.size (R.slots c.id) c = some (filled sl (data.take R.size)) := by
    have hcond : c.extended = sl.extension ∧ sl.length ≤ maxMessageSize ∧
        c.payload.length = min (sl.length - sl.got.length) R.size := by
      refine ⟨he, hmax, ?_⟩
      rw [hp, List.length_take]
      omega
    simp only [accept, ho, Option.bind_eq_bind, Option.bind_some]
    rw [if_pos hcond, hp]
    rfl
  simp only [Receiver.step, hacc, Option.bind_eq_bind, Option.bind_some]
  by_cases hd : data.drop R.size = []
  · have htake : data.take R.size = data :=
      List.take_of_length_le (List.drop_eq_nil_iff.mp hd)
    have hfin : (filled sl data).finished = true := by
      simp [Slot.finished, filled, hlen]
    rw [htake, if_pos hfin, if_pos hd]
    rfl
  · have hfin : ¬ (filled sl (data.take R.size)).finished = true := by
      rw [List.drop_eq_nil_iff] at hd
      simp only [Slot.finished, filled, decide_eq_true_eq, List.length_append, List.length_take]
      omega
    rw [if_neg hfin, if_neg hd]

theorem readable_of_open {R : Receiver} {basic : BasicHeader} {header : ChunkHeader}
    {e : Option ℕ} {sl : Slot} {p : List UInt8}
    (ho : ∀ p, openSlot (R.slots basic.id) ⟨basic, header, e, p⟩ = some sl) (hf : header.Fits)
    (hplain : sl.Plain) : Readable R ⟨basic, header, e, p⟩ := by
  refine ⟨hf, fun sl' h => ?_⟩
  obtain rfl : sl = sl' := Option.some.inj ((ho _).symm.trans h)
  exact hplain

/-- The chunks of a message complete it, whatever header starts it. -/
theorem completes_pieces (basic : BasicHeader) (e : Option ℕ) (fuel : ℕ) (header : ChunkHeader)
    (R : Receiver) (sl : Slot) (data : List UInt8)
    (ho : ∀ p, openSlot (R.slots basic.id) ⟨basic, header, e, p⟩ = some sl)
    (hf : header.Fits) (he : e = sl.extension) (hplain : sl.Plain)
    (hlen : sl.length = sl.got.length + data.length) (hmax : sl.length ≤ maxMessageSize)
    (hs : 0 < R.size) (hfuel : data.length ≤ fuel+1) :
    Completes R (⟨basic, header, e, data.take R.size⟩ ::
        (pieces R.size fuel (data.drop R.size)).map (continuation basic e))
      (afterMessage R basic.id (filled sl data)) ((filled sl data).msg basic.id) ∧
    AllReadable R (⟨basic, header, e, data.take R.size⟩ ::
        (pieces R.size fuel (data.drop R.size)).map (continuation basic e)) := by
  induction fuel generalizing header R sl data with
  | zero =>
    have hd : data.drop R.size = [] := List.drop_eq_nil_iff.mpr (by omega)
    have hstep := step_piece (c := ⟨basic, header, e, data.take R.size⟩) (ho _) he hlen hmax rfl
    rw [if_pos hd] at hstep
    exact ⟨.last hstep, readable_of_open ho hf hplain, fun _ _ _ => trivial⟩
  | succ fuel ih =>
    have hstep := step_piece (c := ⟨basic, header, e, data.take R.size⟩) (ho _) he hlen hmax rfl
    by_cases hd : data.drop R.size = []
    · rw [if_pos hd] at hstep
      rw [hd, pieces_nil]
      exact ⟨.last hstep, readable_of_open ho hf hplain, fun _ _ _ => trivial⟩
    rw [if_neg hd] at hstep
    have hslot : ∀ p, openSlot (Function.update R.slots basic.id
        (some (filled sl (data.take R.size))) basic.id) (continuation basic e p) =
        some (filled sl (data.take R.size)) := by
      intro p
      rw [Function.update_self]
      rfl
    have hfill : filled (filled sl (data.take R.size)) (data.drop R.size) = filled sl data := by
      rw [filled_filled, List.take_append_drop]
    obtain ⟨hc, hr⟩ := ih .inherit ⟨R.size, Function.update R.slots basic.id
      (some (filled sl (data.take R.size)))⟩ (filled sl (data.take R.size)) (data.drop R.size)
      hslot (by simp [ChunkHeader.Fits, ChunkHeader.fields]) he hplain
      (by simp only [filled, List.length_append, List.length_take, List.length_drop]; omega)
      hmax hs (by rw [List.length_drop]; omega)
    have hafter : afterMessage ⟨R.size, Function.update R.slots basic.id
        (some (filled sl (data.take R.size)))⟩ basic.id (filled sl data) =
        afterMessage R basic.id (filled sl data) := by
      simp [afterMessage]
    rw [hfill, hafter] at hc
    rw [pieces, if_neg hd, List.map_cons]
    refine ⟨.more hstep hc, readable_of_open ho hf hplain, fun R' out h => ?_⟩
    obtain ⟨rfl, -⟩ : _ ∧ _ := by simpa using hstep.symm.trans h
    exact hr

theorem messageChunks_complete (basic : BasicHeader) (e : Option ℕ) (header : ChunkHeader)
    (R : Receiver) (sl : Slot) (data : List UInt8)
    (ho : ∀ p, openSlot (R.slots basic.id) ⟨basic, header, e, p⟩ = some sl)
    (hf : header.Fits) (he : e = sl.extension) (hplain : sl.Plain) (hgot : sl.got = [])
    (hlen : sl.length = data.length) (hmax : sl.length ≤ maxMessageSize) (hs : 0 < R.size) :
    Completes R (messageChunks basic header e R.size data)
      (afterMessage R basic.id (filled sl data)) ((filled sl data).msg basic.id) ∧
    AllReadable R (messageChunks basic header e R.size data) := by
  rw [messageChunks_eq]
  exact completes_pieces basic e _ header R sl data ho hf he hplain (by simp [hgot, hlen]) hmax hs
    (by omega)

theorem messageChunks_small (basic : BasicHeader) (header : ChunkHeader) (e : Option ℕ)
    (size size' : ℕ) (data : List UInt8) (h : data.length ≤ size) (h' : data.length ≤ size') :
    messageChunks basic header e size data = messageChunks basic header e size' data := by
  rw [messageChunks_eq, messageChunks_eq, List.take_of_length_le h, List.take_of_length_le h',
    List.drop_eq_nil_of_le h, List.drop_eq_nil_of_le h', pieces_nil, pieces_nil]

/-! ## The memory of the sender -/

/-- A slot between messages, with nothing to add to its time. -/
structure Idle (sl : Slot) : Prop where
  got : sl.got = []
  field : sl.field < 0xFFFFFF
  timestamp : 0 ≤ sl.timestamp ∧ sl.timestamp < 0xFFFFFF
  delta : sl.delta = 0

theorem Idle.plain {sl : Slot} (h : Idle sl) : sl.Plain := by
  have hf := h.field
  have hne : sl.field ≠ 0xFFFFFF := by omega
  rw [Slot.Plain, if_neg hne, h.delta]
  exact ⟨h.timestamp.1, h.timestamp.2, le_refl _, by norm_num⟩

theorem Idle.extension {sl : Slot} (h : Idle sl) : sl.extension = none := by
  have hf := h.field
  have hne : sl.field ≠ 0xFFFFFF := by omega
  rw [Slot.extension, if_neg hne]

theorem Idle.taken {sl : Slot} (h : Idle sl) (data : List UInt8) :
    Idle (filled sl data).taken := by
  refine ⟨rfl, h.field, ?_, h.delta⟩
  have ht : (filled sl data).taken.timestamp = sl.timestamp + sl.delta := rfl
  rw [ht, h.delta, add_zero]
  exact h.timestamp

def EntryAgrees (entry : Option Message) : Option Slot → Prop
  | none => entry = none
  | some sl => Idle sl ∧ 0 < sl.length ∧
      ∃ m, entry = some m ∧ m.messageLength = sl.length ∧ m.messageTypeId = sl.type

/-- What the sender remembers of each chunk stream is what the receiver does. -/
structure Agrees (s : ChunkStream) (R : Receiver) : Prop where
  legal : LegalSize R
  entries : ∀ id, EntryAgrees (s.mSendChunk id) (R.slots id)

/-- The header `sendMessage` picks opens the slot for the message. -/
theorem sentHeader_opens {s : ChunkStream} {R : Receiver} (h : Agrees s R) (data : List UInt8)
    (type id sid ts : ℕ) (hid : 2 ≤ id ∧ id < 64) (hts : ts < 0xFFFFFF) :
    ∃ sl, (∀ p, openSlot (R.slots id) ⟨.short id hid,
        sentHeader (fmtFor s data type id ts) data.length type sid ts, none, p⟩ = some sl) ∧
      Idle sl ∧ sl.length = data.length ∧ sl.type = type := by
  have hentry := h.entries id
  cases hsl : R.slots id with
  | none =>
    rw [hsl] at hentry
    have hfmt : fmtFor s data type id ts = 0 := by
      simp [fmtFor, sendFmt, ChunkStream.sendEntry, show s.mSendChunk id = none from hentry,
        Message.new]
    refine ⟨⟨timeField ts 0, 0, ts, true, 0, data.length, type, sid % 2^8 * 2^24, []⟩, ?_, ?_, rfl,
      rfl⟩
    · intro p
      rw [hfmt]
      rfl
    · have hne : ts ≠ 0xFFFFFF := by omega
      exact ⟨rfl, hts, by simp only [timeField, if_neg hne]; omega, rfl⟩
  | some sl =>
    rw [hsl] at hentry
    obtain ⟨hidle, hpos, m, hm, hml, hmt⟩ := hentry
    have hent : s.sendEntry id = m := by rw [ChunkStream.sendEntry, hm]; rfl
    by_cases h0 : 0 < ts
    · have hfmt : fmtFor s data type id ts = 0 := by simp [fmtFor, sendFmt, h0]
      refine ⟨⟨timeField ts 0, 0, ts, true, 0, data.length, type, sid % 2^8 * 2^24, []⟩, ?_, ?_,
        rfl, rfl⟩
      · intro p
        rw [hfmt]
        simp only [openSlot, sentHeader, if_true, hidle.got]
        rfl
      · have hne : ts ≠ 0xFFFFFF := by omega
        exact ⟨rfl, hts, by simp only [timeField, if_neg hne]; omega, rfl⟩
    obtain rfl : ts = 0 := by omega
    by_cases hsame : m.messageTypeId = type ∧ m.messageLength = data.length
    · have hfmt : fmtFor s data type id 0 = 3 := by
        rw [fmtFor, sendFmt, hent, if_neg (by omega), if_pos hsame]
      refine ⟨sl, ?_, hidle, hml.symm.trans hsame.2, hmt.symm.trans hsame.1⟩
      intro p
      rw [hfmt]
      rfl
    · have hfmt : fmtFor s data type id 0 = 1 := by
        rw [fmtFor, sendFmt, hent, if_neg (by omega), if_neg hsame]
      refine ⟨{ sl with
        delta := 0, field := 0, absolute := false, extended := 0, length := data.length
        type := type }, ?_, ⟨hidle.got, by norm_num, hidle.timestamp, rfl⟩, rfl, rfl⟩
      intro p
      have hone : sentHeader 1 data.length type sid 0 = .lengthAndDelta 0 data.length type := rfl
      simp only [hfmt, hone, openSlot, hidle.got, if_true]
      rfl

theorem sentHeader_fits (fmt len type sid ts : ℕ) (hlen : len < 2^24) (htype : type < 2^8)
    (hts : ts < 2^24) : (sentHeader fmt len type sid ts).Fits := by
  have hsid : sid % 2^8 * 2^24 < 2^32 := by
    have := Nat.mod_lt sid (Nat.two_pow_pos 8)
    omega
  rw [sentHeader]
  split_ifs <;> simp only [ChunkHeader.Fits, ChunkHeader.fields, List.forall_mem_cons]
  · exact ⟨hts, hlen, htype, hsid, by simp⟩
  · exact ⟨hts, hlen, htype, by simp⟩
  · exact ⟨hts, by simp⟩
  · simp

/-- One message: the sender writes its chunks, they complete it, and the memories agree again. -/
theorem sendMessage_feeds {s : ChunkStream} {R : Receiver} (h : Agrees s R) (data : List UInt8)
    (type id sid ts : ℕ) (hid : 2 ≤ id ∧ id < 64) (hts : ts < 0xFFFFFF) (htype : type < 2^8)
    (hdata : 0 < data.length ∧ data.length ≤ maxChunkSize) (hr : CanSend s)
    (hcut : s.iSelfChunkSize = R.size ∨ data.length ≤ 128 ∧ 128 ≤ s.iSelfChunkSize) :
    ∃ s' sl, (sendMessage data type id sid ts).run s = .ok 0 s' ∧ CanSend s' ∧
      s'.iSelfChunkSize = s.iSelfChunkSize ∧
      s'.pConnection.out = s.pConnection.out ++
        encodeAll (sentChunks s data type id sid ts hid) ∧
      Idle sl ∧ sl.length = data.length ∧ sl.type = type ∧
      Completes R (sentChunks s data type id sid ts hid) (afterMessage R id (filled sl data))
        ((filled sl data).msg id) ∧
      AllReadable R (sentChunks s data type id sid ts hid) ∧
      ∀ id', EntryAgrees (s'.mSendChunk id') ((afterMessage R id (filled sl data)).slots id') := by
  rw [maxChunkSize] at hdata
  obtain ⟨s', hrun, hr', -, hsize, hmem, hout, -⟩ := sendMessage_sends s data type id sid ts
    hid (by rw [maxMessageSize]; omega) hr
  obtain ⟨sl, hopen, hidle, hlen, hty⟩ := sentHeader_opens h data type id sid ts hid hts
  have hlegal := h.legal
  rw [LegalSize] at hlegal
  have hchunks : sentChunks s data type id sid ts hid = messageChunks (.short id hid)
      (sentHeader (fmtFor s data type id ts) data.length type sid ts) none R.size data := by
    rcases hcut with hsame | ⟨hshort, hsize⟩
    · have hR : s.iSelfChunkSize.toNat = R.size := by omega
      rw [sentChunks, hR]
      rfl
    · exact messageChunks_small _ _ _ _ _ _ (by omega) (by omega)
  obtain ⟨hc, hread⟩ := messageChunks_complete (.short id hid) none _ R sl data hopen
    (sentHeader_fits _ _ _ _ _ (by omega) htype (by omega)) hidle.extension.symm hidle.plain
    hidle.got hlen (by rw [hlen, maxMessageSize]; omega) (by omega)
  rw [← hchunks] at hc hread
  refine ⟨s', sl, hrun, hr', hsize, hout, hidle, hlen, hty, hc, hread, fun id' => ?_⟩
  rw [hmem, afterMessage]
  by_cases hi : id' = id
  · subst hi
    simp only [ChunkStream.remember, Function.update_self]
    refine ⟨hidle.taken data, ?_, _, rfl, hlen.symm, hty.symm⟩
    have : (filled sl data).taken.length = sl.length := rfl
    omega
  · simp only [ChunkStream.remember, Function.update_of_ne hi]
    exact h.entries id'

/-- The number a `SET_CHUNK_SIZE` message carries. -/
def sizeBytes (n : ℕ) : List UInt8 := pack (ofNat 32 n)

theorem sizeBytes_length (n : ℕ) : (sizeBytes n).length = 4 := pack_length 4 _ (by simp)

theorem sizeBytes_value (n : ℕ) (h : n < 2^32) : value (ofBytes (sizeBytes n)) = n := by
  rw [sizeBytes, ofBytes_pack 4 _ (by simp), value_ofNat, Nat.mod_eq_of_lt h]

/-- A new chunk size: announced under the old one, in force from the next message. -/
theorem sendSetChunkSize_feeds {s : ChunkStream} {R : Receiver} (h : Agrees s R)
    (n : ℕ) (hn : 128 ≤ n ∧ n ≤ 65536) (hr : CanSend s) :
    ∃ s' sl cs, (sendSetChunkSize n).run s = .ok 0 s' ∧ CanSend s' ∧ s'.iSelfChunkSize = n ∧
      s'.pConnection.out = s.pConnection.out ++ encodeAll cs ∧
      Idle sl ∧ sl.type = ControlMsg.setChunkSize.code ∧
      Completes R cs (afterMessage R 2 (filled sl (sizeBytes n)))
        ((filled sl (sizeBytes n)).msg 2) ∧
      AllReadable R cs ∧
      ∀ id', EntryAgrees (s'.mSendChunk id')
        ((afterMessage R 2 (filled sl (sizeBytes n))).slots id') := by
  have hint : int32 (n : ℤ) = n := int32_of_range _ (by omega) (by omega)
  obtain ⟨data, hdata, hbits, hlen⟩ := controlPayload_ok { s with iSelfChunkSize := int32 n }
    [(32, uint32 (int32 n))] 4 (by simp) (by simp) (by simp [maxChunkSize])
  rw [hint] at hdata hbits
  rw [uint32_of_range n (by omega)] at hdata hbits
  have hbytes : data = sizeBytes n := by
    rw [sizeBytes, ← pack_ofBytes data, hbits]
    simp [fieldBits]
  subst hbytes
  obtain ⟨s', sl, hrun, hr', hsize, hout, hidle, -, hty, hc, hread, hent⟩ := sendMessage_feeds
    (s := { s with iSelfChunkSize := n }) (R := R) ⟨h.legal, h.entries⟩ (sizeBytes n)
    ControlMsg.setChunkSize.code 2 0 0 (by omega) (by omega) (by simp [ControlMsg.code])
    (by rw [hlen]; simp [maxChunkSize]) ⟨hr.accepting, by simp only; omega⟩
    (.inr (by simp only; omega))
  refine ⟨s', sl, _, ?_, hr', hsize, hout, hidle, hty, hc, hread, hent⟩
  rw [sendSetChunkSize, run_modify_bind, run_get_bind, sendControl]
  simp only [hint]
  rw [uint32_of_range n (by omega), run_bind_of_ok hdata, hrun]

/-! ## Whole conversations -/

inductive Send
  | message (data : List UInt8) (type id sid ts : ℕ)
  | chunkSize (size : ℕ)

def Send.call : Send → RTMP ℤ
  | message data type id sid ts => sendMessage data type id sid ts
  | chunkSize size => sendSetChunkSize size

/-- Chunk stream, payload, timestamp and chunk size as callers use them, and any type. -/
def Send.InRange : Send → Prop
  | message data type id _ ts => (0 < data.length ∧ data.length ≤ maxChunkSize) ∧
      (2 ≤ id ∧ id < 64) ∧ type < 2^8 ∧ ts < 0xFFFFFF
  | chunkSize size => 128 ≤ size ∧ size ≤ 65536

/-- A `SET_CHUNK_SIZE` message only as part of `sendSetChunkSize`. -/
def Send.Allowed (a : Send) : Prop := a.InRange ∧ ∀ data id sid ts,
  a ≠ .message data ControlMsg.setChunkSize.code id sid ts

/-- Type, length and payload of the message a call sends. -/
def Send.content : Send → ℕ × ℕ × List UInt8
  | message data type _ _ _ => (type, data.length, data)
  | chunkSize size => (ControlMsg.setChunkSize.code, 4, sizeBytes size)

def sendAll : List Send → RTMP (List ℤ)
  | [] => return []
  | a::acts => do
    let r ← a.call
    let rs ← sendAll acts
    return r::rs

/-- A connection that has sent nothing yet. -/
structure Sender (s : ChunkStream) : Prop where
  accepting : Accepting s.pConnection.bBlocking s.pConnection.sends
  legal : 128 ≤ s.iSelfChunkSize ∧ s.iSelfChunkSize ≤ 65536
  fresh : ∀ id, s.mSendChunk id = none

/-- A peer that has received nothing yet, to which `bs` is on its way. -/
structure Peer (s p : ChunkStream) (bs : List UInt8) : Prop where
  ready : Ready p bs
  size : p.iOtherChunkSize = s.iSelfChunkSize
  fresh : ∀ id, p.mReceiveChunk id = none

/-- The answer to a call of `receiveMessage` that obtained the message `a` sent. -/
def Returned (overrides : Overrides) (a : Send) (r : Except Stop Msg) : Prop :=
  ∃ m : Message, (m.messageTypeId, m.messageLength, load m.oBuffer.buf 0 m.messageLength) =
    a.content ∧ r = outcome overrides m

/-- Every call sends, and a peer reads back what was sent and no byte more. -/
def RoundTrip (s : ChunkStream) (acts : List Send) : Prop :=
  ∃ s' wire, (sendAll acts).run s = .ok (acts.map fun _ => 0) s' ∧
    s'.pConnection.out = s.pConnection.out ++ wire ∧
    ∀ (overrides : Overrides) (p : ChunkStream) (rest : List UInt8), Peer s p (wire ++ rest) →
      ∃ rs p', receiveAll overrides acts.length p = (rs, p') ∧
        List.Forall₂ (Returned overrides) acts rs ∧ pending p'.pConnection = rest

theorem allReadable_append {R R' : Receiver} {xs ys : List Chunk} {msgs : List Msg}
    (hx : AllReadable R xs) (hrun : R.run xs = some (R', msgs)) (hy : AllReadable R' ys) :
    AllReadable R (xs++ys) := by
  induction xs generalizing R msgs with
  | nil =>
    obtain ⟨rfl, -⟩ : R = R' ∧ [] = msgs := by simpa [Receiver.run] using hrun
    exact hy
  | cons c cs ih =>
    simp only [Receiver.run, Option.bind_eq_bind, Option.bind_eq_some_iff, Option.some.injEq,
      Prod.mk.injEq] at hrun
    obtain ⟨⟨R₁, m⟩, hstep, ⟨R₂, ms⟩, hcs, rfl, -⟩ := hrun
    refine ⟨hx.1, fun R'' out ho => ?_⟩
    obtain ⟨rfl, -⟩ : R₁ = R'' ∧ m = out := by simpa using hstep.symm.trans ho
    exact ih (hx.2 R₁ m hstep) hcs

/-- What the receiver makes of one call of the sender. -/
def Carries (a : Send) (msg : Msg) : Prop :=
  (msg.type, msg.payload.length, msg.payload) = a.content ∧ msg.Legal

theorem call_feeds {s : ChunkStream} {R : Receiver} (h : Agrees s R) (hs : CanSend s)
    (hsize : s.iSelfChunkSize = R.size) (a : Send) (ha : a.Allowed) :
    ∃ s' R' cs msg, a.call.run s = .ok 0 s' ∧ CanSend s' ∧ s'.iSelfChunkSize = R'.size ∧
      s'.pConnection.out = s.pConnection.out ++ encodeAll cs ∧ Completes R cs R' msg ∧
      AllReadable R cs ∧ Agrees s' R' ∧ Carries a msg := by
  obtain ⟨hrange, htype⟩ := ha
  cases a with
  | message data type id sid ts =>
    obtain ⟨hdata, hid, hty, hts⟩ := hrange
    obtain ⟨s', sl, hrun, hs', hself, hout, hidle, hlen, hslt, hc, hread, hent⟩ :=
      sendMessage_feeds h data type id sid ts hid hts hty hdata hs (.inl hsize)
    have hne : type ≠ ControlMsg.setChunkSize.code := by
      rintro rfl
      exact htype data id sid ts rfl
    have hmt : ((filled sl data).msg id).type = type := hslt
    have hsame : (afterMessage R id (filled sl data)).size = R.size := by
      simp only [afterMessage, Msg.sizeAfter, hmt, if_neg hne]
    have hlegal : LegalSize (afterMessage R id (filled sl data)) := by
      rw [LegalSize, hsame]
      exact h.legal
    refine ⟨s', _, _, _, hrun, hs', by rw [hself, hsize, hsame], hout, hc, hread,
      ⟨hlegal, hent⟩, ?_, fun h0 => absurd (hmt.symm.trans h0) hne⟩
    simp [Send.content, Slot.msg, filled, hidle.got, hslt]
  | chunkSize n =>
    obtain ⟨s', sl, cs, hrun, hs', hself, hout, hidle, hslt, hc, hread, hent⟩ :=
      sendSetChunkSize_feeds h n hrange hs
    have hpay : ((filled sl (sizeBytes n)).msg 2).payload = sizeBytes n := by
      simp [Slot.msg, filled, hidle.got]
    have hval := sizeBytes_value n (by have := hrange.2; omega)
    have hmt : ((filled sl (sizeBytes n)).msg 2).type = ControlMsg.setChunkSize.code := hslt
    have hnew : (afterMessage R 2 (filled sl (sizeBytes n))).size = n := by
      simp only [afterMessage, Msg.sizeAfter, hmt, if_true, hpay]
      rw [List.take_of_length_le (by rw [sizeBytes_length]), hval]
    have hlegal : LegalSize (afterMessage R 2 (filled sl (sizeBytes n))) := by
      rw [LegalSize, hnew]
      exact hrange
    refine ⟨s', _, cs, _, hrun, hs', by rw [hself, hnew], hout, hc, hread, ⟨hlegal, hent⟩, ?_, ?_⟩
    · rw [hmt, hpay, sizeBytes_length]
      rfl
    · intro _
      rw [hpay, hval]
      exact ⟨sizeBytes_length n, hrange⟩

theorem sendAll_feeds (acts : List Send) {s : ChunkStream} {R : Receiver} (h : Agrees s R)
    (hs : CanSend s) (hsize : s.iSelfChunkSize = R.size) (hall : ∀ a ∈ acts, a.Allowed) :
    ∃ s' R' cs msgs, (sendAll acts).run s = .ok (acts.map fun _ => 0) s' ∧
      s'.pConnection.out = s.pConnection.out ++ encodeAll cs ∧ Feeds R cs msgs R' ∧
      AllReadable R cs ∧ List.Forall₂ Carries acts msgs := by
  induction acts generalizing s R with
  | nil => exact ⟨s, R, [], [], rfl, by simp [encodeAll], .nil R, trivial, .nil⟩
  | cons a acts ih =>
    obtain ⟨s₁, R₁, cs, msg, hrun, hs₁, hsize₁, hout, hc, hread, hag, hcar⟩ :=
      call_feeds h hs hsize a (hall a (List.mem_cons_self ..))
    obtain ⟨s', R', cs', msgs, hrun', hout', hf, hread', hcars⟩ :=
      ih hag hs₁ hsize₁ (fun b hb => hall b (List.mem_cons_of_mem _ hb))
    refine ⟨s', R', cs++cs', msg::msgs, ?_, ?_, .cons hc hf,
      allReadable_append hread (completes_run hc) hread', .cons hcar hcars⟩
    · rw [sendAll, run_bind_of_ok hrun, run_bind_of_ok hrun']
      rfl
    · rw [hout', hout, List.append_assoc, encodeAll, encodeAll, encodeAll, List.flatMap_append]

theorem answers_carried {overrides : Overrides} {acts : List Send} {rs : List (Except Stop Msg)}
    {msgs : List Msg} (hc : List.Forall₂ Carries acts msgs) (ha : Answers overrides rs msgs) :
    List.Forall₂ (Returned overrides) acts rs := by
  induction hc generalizing rs with
  | nil =>
    cases ha
    exact .nil
  | @cons a msg acts msgs hcar _ ih =>
    cases ha with
    | cons h hrest =>
      obtain ⟨m, hm, hr⟩ := h
      refine .cons ⟨m, ?_, hr⟩ (ih hrest)
      rw [← hcar.1, ← hm]
      simp [msgOf]

/-- Messages handed to `sendMessage` in any order, with `sendSetChunkSize` anywhere between
them, are read back by the peer: type, length and payload, and no byte more. -/
theorem framing_round_trip (s : ChunkStream) (acts : List Send) (hs : Sender s)
    (hacts : ∀ a ∈ acts, a.Allowed) : RoundTrip s acts := by
  obtain ⟨n, hn⟩ : ∃ n : ℕ, s.iSelfChunkSize = n := ⟨s.iSelfChunkSize.toNat, by
    have := hs.legal
    omega⟩
  have hlegal : LegalSize ⟨n, fun _ => none⟩ := by
    have := hs.legal
    rw [LegalSize]
    simp only
    omega
  obtain ⟨s', R', cs, msgs, hrun, hout, hf, hread, hcar⟩ := sendAll_feeds acts
    (R := ⟨n, fun _ => none⟩) ⟨hlegal, fun id => hs.fresh id⟩
    ⟨hs.accepting, by have := hs.legal; omega⟩ hn hacts
  refine ⟨s', encodeAll cs, hrun, hout, fun overrides p rest hp => ?_⟩
  have htracks : Tracks p ⟨n, fun _ => none⟩ :=
    ⟨hp.size.trans hn, by have := hlegal.1; omega, by have := hlegal.2; omega,
      fun id => hp.fresh id⟩
  have hann : Announces ⟨n, fun _ => none⟩ msgs := by
    refine ⟨hlegal, fun msg hm => ?_⟩
    obtain ⟨i, hi, rfl⟩ := List.getElem_of_mem hm
    exact (List.forall₂_iff_get.mp hcar).2 i (by rw [hcar.length_eq]; exact hi) hi |>.2
  obtain ⟨rs, p', hall, hans, hready, -⟩ :=
    receiveAll_feeds overrides hf p rest htracks hp.ready hread hann
  refine ⟨rs, p', ?_, answers_carried hcar hans, hready.coming⟩
  rw [hcar.length_eq, hall]

/-! ## A type that the receiver acts on -/

def quiet : ConnectionInterface := ⟨true, true, [], [], [], ""⟩

def idle : ChunkStream := ChunkStream.new quiet fun _ => ⟨0, 0, 0⟩

def expecting (bs : List UInt8) : ChunkStream :=
  ChunkStream.new { quiet with arrivals := [.bytes bs] } fun _ => ⟨0, 0, 0⟩

theorem idle_sender : Sender idle := by
  refine ⟨?_, by simp [idle, ChunkStream.new], fun _ => rfl⟩
  intro k hk
  cases hk

theorem expecting_peer (bs : List UInt8) : Peer idle (expecting bs) bs := by
  refine ⟨⟨?_, ?_, ?_, by simp [expecting, ChunkStream.new]⟩, rfl, fun _ => rfl⟩
  · intro a ha
    exact .inl ⟨bs, List.mem_singleton.mp ha⟩
  · simp [pending, expecting, ChunkStream.new, Arrival.data]
  · intro k hk
    cases hk

/-- The round trip of a message and a new chunk size, and the peer that reads them. -/
theorem framing_round_trip_short :
    RoundTrip idle [.message [7] 8 3 0 0, .chunkSize 4096] ∧
      ∀ bs, Peer idle (expecting bs) bs := by
  refine ⟨framing_round_trip idle _ idle_sender ?_, expecting_peer⟩
  intro a ha
  simp only [List.mem_cons, List.not_mem_nil, or_false] at ha
  obtain rfl | rfl := ha
  · refine ⟨by simp [Send.InRange, maxChunkSize], ?_⟩
    intro data id sid ts h
    injection h with _ h
    exact absurd h (by simp [ControlMsg.code])
  · refine ⟨by simp [Send.InRange], ?_⟩
    intro data id sid ts h
    cases h

def outOf {α : Type} : EStateM.Result Stop ChunkStream α → List UInt8
  | .ok _ s => s.pConnection.out
  | .error _ s => s.pConnection.out

def setSizeDirectly : List Send := [.message [0, 0, 0, 1] 1 3 0 0, .message [7, 9] 8 3 0 0]

/-- Messages of type 1 change the chunk size the peer expects, whoever sends them. -/
theorem framing_set_size_directly :
    Sender idle ∧ (∀ a ∈ setSizeDirectly, a.InRange) ∧ ¬ RoundTrip idle setSizeDirectly := by
  refine ⟨idle_sender, ?_, ?_⟩
  · intro a ha
    simp only [setSizeDirectly, List.mem_cons, List.not_mem_nil, or_false] at ha
    obtain rfl | rfl := ha <;> simp [Send.InRange, maxChunkSize]
  · rintro ⟨s', wire, hrun, hout, hpeer⟩
    have hwire : wire = outOf ((sendAll setSizeDirectly).run idle) := by
      rw [hrun]
      exact hout.symm
    obtain ⟨rs, p', hall, hret, -⟩ :=
      hpeer (fun _ _ => 0) (expecting wire) [] (by simpa using expecting_peer wire)
    have hsecond : ((receiveAll (fun _ _ => 0) 2 (expecting wire)).1.map
        fun r => decide (r.toOption.isSome)) = [true, false] := by
      rw [hwire]
      decide +kernel
    have htrue : ∀ {a r}, Returned (fun _ _ => 0) a r → r.toOption.isSome := by
      rintro a r ⟨m, -, rfl⟩
      rw [outcome]
      split
      · rfl
      · split <;> rfl
    rw [show setSizeDirectly.length = 2 from rfl] at hall
    rw [hall, setSizeDirectly] at *
    cases hret with
    | cons _ hrest =>
      cases hrest with
      | cons h _ => simp [htrue h] at hsecond

end Sirannon.RTMPFraming
