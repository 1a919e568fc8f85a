import Sirannon.RTMPChunkStream
import Mathlib.Order.Defs.Unbundled

/-!
# Steps of the receiver

What one chunk and one handled message can do to a receiver, however they
end: which writes a chunk makes, which lengths it leaves, and which parts of
the state stay as they were. Nothing is assumed about what arrives.
-/

set_option autoImplicit false

namespace Sirannon.RTMPReceiveSteps
open MachineInt ByteMemory Bits Connection RTMPChunkStream StateError

/-- The lengths fit each other, and nothing was stored past the largest message. -/
structure Within (m : Message) : Prop where
  current : m.currentLength ≤ m.messageLength
  partly : 0 < m.currentLength → m.messageLength ≤ maxMessageSize
  untouched : ∀ a, maxMessageSize ≤ a → m.oBuffer.buf a = 0

def Bounded (s : ChunkStream) : Prop := ∀ id, Within (s.message id)

/-- No message holds more than has arrived for it. -/
def Counted (s : ChunkStream) : Prop := ∀ id, (s.message id).currentLength ≤ (s.message id).arrived

def Legal (s : ChunkStream) : Prop := 128 ≤ s.iOtherChunkSize ∧ s.iOtherChunkSize ≤ 65536

theorem new_within (g : Garbage) : Within (Message.new g) := by
  constructor
  · exact le_refl 0
  · intro h
    exact absurd h (lt_irrefl 0)
  · intro a _
    rfl

/-! ## Steps that only read -/

/-- From `s` to `t` messages were at most read, and no time-out was added to what arrives. -/
structure Handles (s t : ChunkStream) : Prop where
  messages : ∀ id, ∃ b, t.message id = (s.message id).rebuffer b ∧ b.buf = (s.message id).oBuffer.buf
  writes : t.payloadWrites = s.payloadWrites
  polled : Polled false s.pConnection.arrivals → Polled false t.pConnection.arrivals

/-- The chunk size of the peer stayed as it was, too. -/
structure Reads (s t : ChunkStream) : Prop extends Handles s t where
  size : t.iOtherChunkSize = s.iOtherChunkSize

theorem reads_of_reader {s t : ChunkStream} (hr : reader t = reader s)
    (hw : t.payloadWrites = s.payloadWrites)
    (hp : Polled false s.pConnection.arrivals → Polled false t.pConnection.arrivals) : Reads s t := by
  refine ⟨⟨?_, hw, hp⟩, (Prod.mk.inj hr).1⟩
  intro id
  rw [message_of_reader hr]
  exact ⟨_, rfl, rfl⟩

theorem handles_trans {s t u : ChunkStream} (hst : Handles s t) (htu : Handles t u) :
    Handles s u := by
  constructor
  · intro id
    obtain ⟨b, hb, hbuf⟩ := hst.messages id
    obtain ⟨b', hb', hbuf'⟩ := htu.messages id
    refine ⟨b', ?_, ?_⟩
    · rw [hb', hb]
      rfl
    · rw [hbuf', hb]
      exact hbuf
  · exact htu.writes.trans hst.writes
  · exact fun h => htu.polled (hst.polled h)

instance : IsPreorder ChunkStream Handles where
  refl _ := (reads_of_reader rfl rfl id).toHandles
  trans _ _ _ := handles_trans

instance : IsPreorder ChunkStream Reads where
  refl _ := reads_of_reader rfl rfl id
  trans _ _ _ hst htu :=
    ⟨handles_trans hst.toHandles htu.toHandles, htu.size.trans hst.size⟩

/-- What a receive hands on, and the connection it leaves. -/
structure Delivery (c : ConnectionInterface) (iSize : ℕ) (bs : List UInt8)
    (c' : ConnectionInterface) : Prop where
  length : bs.length ≤ iSize
  polled : Polled false c.arrivals → Polled false c'.arrivals

theorem receiveSmart_delivery (c : ConnectionInterface) (iSize : ℕ) :
    let r := receiveSmart c iSize
    Delivery c iSize r.2.1 r.2.2 ∧
      ∀ v, r.1 = .ok v → 0 < v → Polled false c.arrivals → r.2.1.length = iSize := by
  have hlen := receiveLoop_length c.bBlocking c.arrivals iSize [] (-1)
  have hloop := receiveLoop_polled c.bBlocking c.arrivals iSize [] (-1)
  rw [List.length_nil, Nat.zero_add] at hlen
  constructor
  · exact ⟨hlen, fun h => (hloop (by simpa using h)).1⟩
  · intro v hv hpos h
    have hfull := (hloop (by simpa using h)).2 (evaluateStatus_ok hv hpos)
    rw [List.length_nil, Nat.zero_add] at hfull
    exact hfull

/-- The state after a receive, with the byte counts at `r` and `d`. -/
def stored (put : List UInt8 → ChunkStream → ChunkStream) (bs : List UInt8)
    (c : ConnectionInterface) (r d : ℤ) (s : ChunkStream) : ChunkStream :=
  { put bs { s with pConnection := c } with iReceivedBytes := r, iDeltaReceivedBytes := d }

theorem receiveFromSocket_triple {P E : ChunkStream → Prop} {Q : ℤ → ChunkStream → Prop}
    (put : List UInt8 → ChunkStream → ChunkStream) (iSize : ℕ)
    (h : ∀ s bs c r d, P s → Delivery s.pConnection iSize bs c → E (stored put bs c r d s) ∧
      ∀ v, (0 < v → Polled false s.pConnection.arrivals → bs.length = iSize) →
        Q v (stored put bs c r d s)) :
    Triple P (receiveFromSocket put iSize) Q (fun _ => E) := by
  constructor
  intro s hs
  obtain ⟨hdel, hfull⟩ := receiveSmart_delivery s.pConnection iSize
  rcases hr : receiveSmart s.pConnection iSize with ⟨iStatus, bs, c⟩
  rw [hr] at hdel hfull
  simp only [EStateM.run, receiveFromSocket, hr]
  cases iStatus with
  | error e => exact (h s bs c _ _ hs hdel).1
  | ok v =>
    by_cases hv : 0 < v
    · simp only [if_pos hv]
      exact (h s bs c _ _ hs hdel).2 v (fun _ hp => hfull v rfl hv hp)
    · simp only [if_neg hv]
      exact (h s bs c _ _ hs hdel).2 v (fun hpos => absurd hpos hv)

theorem receiveOrNull_reads (off iSize : ℕ) : Along Reads (receiveOrNull (putChunk off) iSize) := by
  apply along_bind
  · intro s
    refine triple_after (P := (· = s)) (receiveFromSocket_triple (putChunk off) iSize ?_) rfl
    intro t bs c r d ht hdel
    subst ht
    have hreads : Reads t (stored (putChunk off) bs c r d t) := reads_of_reader rfl rfl hdel.polled
    exact ⟨hreads, fun _ _ => hreads⟩
  intro iStatus
  apply along_ite
  · exact along_throw _
  · exact along_pure ()

theorem readChunk_reads (iBits : ℕ) : Along Reads (readChunk iBits) :=
  fun _ => reads_of_reader rfl rfl id

theorem receiveRest_reads (iSmartRcv : ℕ) : Along Reads (receiveRest iSmartRcv) := by
  apply along_ite
  · exact receiveOrNull_reads 1 iSmartRcv
  · exact along_pure ()

theorem receiveHeader_reads : Along Reads receiveHeader := by
  apply along_modify_bind
  · intro s
    exact reads_of_reader rfl rfl id
  apply along_bind (receiveOrNull_reads 0 1)
  intro _
  apply along_bind (readChunk_reads 2)
  intro iFmt
  apply along_bind (readChunk_reads 6)
  intro iCsID
  apply along_bind (receiveRest_reads _)
  intro _
  exact along_pure (iFmt, iCsID)

theorem readChunkID_reads (iCsID : ℕ) : Along Reads (readChunkID iCsID) := by
  apply along_ite
  · apply along_bind (readChunk_reads 8)
    intro lo
    exact along_pure (64+lo)
  apply along_ite
  · apply along_bind (readChunk_reads 8)
    intro lo
    apply along_bind (readChunk_reads 8)
    intro hi
    exact along_pure (64+lo+hi*256)
  · exact along_pure iCsID

theorem raiseIf_reads (c : Prop) [Decidable c] (e : Stop) : Along Reads (raiseIf c e) := by
  apply along_ite
  · exact along_throw e
  · exact along_pure ()

theorem getMessage_reads (iChunkID : ℕ) : Along Reads (getMessage iChunkID) :=
  fun s => refl_of Reads s

theorem liftStop_reads {α : Type} (r : Except Stop α) : Along Reads (liftStop r) := by
  cases r with
  | ok a => exact along_pure a
  | error e => exact along_throw e

theorem sendToSocket_reads (pData : List UInt8) : Along Reads (sendToSocket pData) := by
  intro s
  unfold sendToSocket EStateM.run
  simp only
  split
  · exact reads_of_reader rfl rfl id
  · split
    · exact reads_of_reader rfl rfl id
    · exact reads_of_reader rfl rfl id

theorem sendMessage_reads (pData : List UInt8) (iMessageType iChunkID iStreamID iTimeStamp : ℕ) :
    Along Reads (sendMessage pData iMessageType iChunkID iStreamID iTimeStamp) := by
  apply along_bind
  · apply along_get_bind
    intro s
    apply along_modify_bind
    · intro t
      exact reads_of_reader rfl rfl id
    · exact liftStop_reads _
  intro oSendChunk
  apply along_bind (sendToSocket_reads oSendChunk)
  intro iStatus
  apply along_ite
  · exact along_pure _
  · exact along_pure _

theorem controlPayload_reads (fields : List (ℕ × ℕ)) : Along Reads (controlPayload fields) := by
  apply along_bind (liftStop_reads _)
  intro o
  exact along_pure o.data

theorem sendControl_reads (fields : List (ℕ × ℕ)) (t : ControlMsg) :
    Along Reads (sendControl fields t) := by
  apply along_bind (controlPayload_reads fields)
  intro pData
  exact sendMessage_reads pData t.code 2 0 0

theorem sendACK_reads : Along Reads sendACK := by
  apply along_get_bind
  intro s
  apply along_bind (controlPayload_reads _)
  intro pData
  apply along_modify_bind
  · intro t
    exact reads_of_reader rfl rfl id
  · exact sendMessage_reads pData _ 2 0 0

theorem sendSetChunkSize_reads (iNewChunkSize : ℕ) : Along Reads (sendSetChunkSize iNewChunkSize) := by
  apply along_modify_bind
  · intro s
    exact reads_of_reader (by simp only [reader]) (by simp only) id
  apply along_get_bind
  intro s
  exact sendControl_reads _ _

theorem sendWindowACKSize_reads : Along Reads sendWindowACKSize := by
  apply along_get_bind
  intro s
  exact sendControl_reads _ _

theorem sendSetPeerBandwidth_reads : Along Reads sendSetPeerBandwidth := by
  apply along_get_bind
  intro s
  exact sendControl_reads _ _

theorem sendUserControl_reads (iType : UserControl) (iVal : ℤ) :
    Along Reads (sendUserControl iType iVal) := by
  apply along_get_bind
  intro s
  cases iType with
  | streamDry => exact along_pure _
  | _ => exact sendControl_reads _ _

theorem checkACK_reads : Along Reads checkACK := by
  apply along_get_bind
  intro s
  apply along_ite
  · apply along_bind sendACK_reads
    intro iRet
    exact raiseIf_reads _ _
  · exact along_pure ()

/-! ## One chunk -/

/-- Since `s₀` nothing was stored, and every message is as long as it was. -/
structure Since (s₀ s : ChunkStream) : Prop where
  bounded : Bounded s
  writes : s.payloadWrites = s₀.payloadWrites
  current : ∀ id, (s.message id).currentLength = (s₀.message id).currentLength
  arrived : ∀ id, (s.message id).arrived = (s₀.message id).arrived
  size : s.iOtherChunkSize = s₀.iOtherChunkSize
  polled : Polled false s₀.pConnection.arrivals → Polled false s.pConnection.arrivals

theorem since_refl {s : ChunkStream} (h : Bounded s) : Since s s :=
  ⟨h, rfl, fun _ => rfl, fun _ => rfl, rfl, id⟩

theorem bounded_handles {s t : ChunkStream} (h : Handles s t) (hs : Bounded s) : Bounded t := by
  intro id
  obtain ⟨b, hb, hbuf⟩ := h.messages id
  rw [hb]
  constructor
  · exact (hs id).current
  · exact (hs id).partly
  · intro a ha
    rw [Message.rebuffer, hbuf]
    exact (hs id).untouched a ha

theorem since_reads {s₀ s t : ChunkStream} (h : Reads s t) (hs : Since s₀ s) : Since s₀ t := by
  have hsame : ∀ id, (t.message id).currentLength = (s.message id).currentLength ∧
      (t.message id).arrived = (s.message id).arrived := by
    intro id
    obtain ⟨b, hb, -⟩ := h.messages id
    rw [hb]
    exact ⟨rfl, rfl⟩
  constructor
  · exact bounded_handles h.toHandles hs.bounded
  · exact h.writes.trans hs.writes
  · exact fun id => (hsame id).1.trans (hs.current id)
  · exact fun id => (hsame id).2.trans (hs.arrived id)
  · exact h.size.trans hs.size
  · exact fun hp => h.polled (hs.polled hp)

theorem reads_since {α : Type} {x : RTMP α} (hx : Along Reads x) (s₀ : ChunkStream) :
    Triple (Since s₀) x (fun _ => Since s₀) (fun _ => Since s₀) :=
  along_keeps hx fun _ _ => since_reads

theorem setMessage_bounded {s : ChunkStream} (h : Bounded s) (id : ℕ) {m : Message}
    (hm : Within m) : Bounded (s.setMessage id m) := by
  intro id'
  by_cases heq : id' = id
  · subst heq
    rw [message_setMessage]
    exact hm
  · rw [message_setMessage_of_ne s m heq]
    exact h id'

theorem since_setMessage {s₀ s : ChunkStream} (h : Since s₀ s) (id : ℕ) {m : Message}
    (hm : Within m) (hc : m.currentLength = (s.message id).currentLength)
    (ha : m.arrived = (s.message id).arrived) : Since s₀ (s.setMessage id m) := by
  constructor
  · exact setMessage_bounded h.bounded id hm
  · exact h.writes
  · intro id'
    by_cases heq : id' = id
    · subst heq
      rw [message_setMessage, hc, h.current]
    · rw [message_setMessage_of_ne s m heq, h.current]
  · intro id'
    by_cases heq : id' = id
    · subst heq
      rw [message_setMessage, ha, h.arrived]
    · rw [message_setMessage_of_ne s m heq, h.arrived]
  · exact h.size
  · exact h.polled

theorem raiseIf_triple {P : ChunkStream → Prop} (c : Prop) [Decidable c] (e : Stop) :
    Triple P (raiseIf c e) (fun _ s => P s ∧ ¬ c) (fun _ => P) := by
  apply triple_ite
  · intro _
    exact triple_throw e fun _ h => h
  · intro hc
    exact triple_pure () fun _ h => ⟨h, hc⟩

/-- A header opens a new message only where the one before is complete. -/
theorem selectMessage_since (s₀ : ChunkStream) (iFmt iChunkID : ℕ) :
    Triple (Since s₀) (selectMessage iFmt iChunkID)
      (fun _ s => Since s₀ s ∧ (iFmt < 3 → (s.message iChunkID).currentLength = 0))
      (fun _ => Since s₀) := by
  apply triple_get_bind
  intro t ht
  apply triple_modify_bind (R := fun s => Since s₀ s ∧
    (s.message iChunkID).currentLength = (t.message iChunkID).currentLength)
  · rintro _ rfl
    have hw := ht.bounded iChunkID
    refine ⟨since_setMessage ht _ ⟨hw.current, hw.partly, hw.untouched⟩ rfl rfl, ?_⟩
    rw [message_setMessage]
  apply triple_bind
  · exact triple_conseq (raiseIf_triple _ _) (fun _ h => h) (fun _ _ h => h) (fun _ _ h => h.1)
  intro _
  refine triple_conseq (raiseIf_triple _ _) (fun _ h => h) ?_ (fun _ _ h => h.1.1)
  rintro _ s ⟨⟨⟨hs, hc⟩, hopen⟩, -⟩
  refine ⟨hs, fun hfmt => ?_⟩
  rw [hc]
  by_contra hne
  exact hopen ⟨hfmt, Nat.pos_of_ne_zero hne⟩

/-- Nothing of the message has arrived yet. -/
def Opened (s₀ : ChunkStream) (iChunkID : ℕ) (s : ChunkStream) : Prop :=
  Since s₀ s ∧ (s.message iChunkID).currentLength = 0

theorem readChunk_opened (s₀ : ChunkStream) (iChunkID iBits : ℕ) :
    Triple (Opened s₀ iChunkID) (readChunk iBits) (fun _ => Opened s₀ iChunkID)
      (fun _ => Since s₀) := by
  refine triple_conseq (along_keeps (readChunk_reads iBits) (P := Opened s₀ iChunkID) ?_)
    (fun _ h => h) (fun _ _ h => h) (fun _ _ h => h.1)
  rintro s t h ⟨hs, hc⟩
  obtain ⟨b, hb, -⟩ := h.messages iChunkID
  refine ⟨since_reads h hs, ?_⟩
  rw [hb]
  exact hc

/-- A new length may be put in where nothing has arrived yet. -/
theorem updateMessage_opened (s₀ : ChunkStream) (iChunkID : ℕ) (f : Message → Message)
    (hc : ∀ m, (f m).currentLength = m.currentLength) (ha : ∀ m, (f m).arrived = m.arrived)
    (hb : ∀ m, (f m).oBuffer = m.oBuffer) :
    Triple (Opened s₀ iChunkID) (updateMessage iChunkID f) (fun _ => Since s₀)
      (fun _ => Since s₀) := by
  apply triple_modify
  rintro s ⟨hs, h0⟩
  apply since_setMessage hs
  · constructor
    · rw [hc, h0]
      exact Nat.zero_le _
    · intro h
      rw [hc, h0] at h
      exact absurd h (lt_irrefl 0)
    · rw [hb]
      exact (hs.bounded iChunkID).untouched
  · exact hc _
  · exact ha _

theorem parseHeader_since (s₀ : ChunkStream) (iFmt iChunkID : ℕ) :
    Triple (fun s => Since s₀ s ∧ (iFmt < 3 → (s.message iChunkID).currentLength = 0))
      (parseHeader iFmt iChunkID) (fun _ => Since s₀) (fun _ => Since s₀) := by
  have hopened : iFmt < 3 → ∀ s, (Since s₀ s ∧ (iFmt < 3 →
      (s.message iChunkID).currentLength = 0)) → Opened s₀ iChunkID s :=
    fun hfmt s h => ⟨h.1, h.2 hfmt⟩
  apply triple_ite
  · intro hfmt
    refine triple_conseq ?_ (hopened (by omega)) (fun _ _ h => h) (fun _ _ h => h)
    apply triple_bind (readChunk_opened s₀ iChunkID 24)
    intro timestamp
    apply triple_bind (readChunk_opened s₀ iChunkID 24)
    intro length
    apply triple_bind (readChunk_opened s₀ iChunkID 8)
    intro type
    apply triple_bind (readChunk_opened s₀ iChunkID 32)
    intro streamId
    exact updateMessage_opened s₀ iChunkID _ (fun _ => rfl) (fun _ => rfl) fun _ => rfl
  intro _
  apply triple_ite
  · intro hfmt
    refine triple_conseq ?_ (hopened (by omega)) (fun _ _ h => h) (fun _ _ h => h)
    apply triple_bind (readChunk_opened s₀ iChunkID 24)
    intro delta
    apply triple_bind (readChunk_opened s₀ iChunkID 24)
    intro length
    apply triple_bind (readChunk_opened s₀ iChunkID 8)
    intro type
    exact updateMessage_opened s₀ iChunkID _ (fun _ => rfl) (fun _ => rfl) fun _ => rfl
  intro _
  apply triple_ite
  · intro hfmt
    refine triple_conseq ?_ (hopened (by omega)) (fun _ _ h => h) (fun _ _ h => h)
    apply triple_bind (readChunk_opened s₀ iChunkID 24)
    intro delta
    exact updateMessage_opened s₀ iChunkID _ (fun _ => rfl) (fun _ => rfl) fun _ => rfl
  · intro _
    exact triple_pure () fun _ h => h.1

theorem extendedTimestamp_since (s₀ : ChunkStream) (iChunkID : ℕ) :
    Triple (Since s₀) (extendedTimestamp iChunkID) (fun _ => Since s₀) (fun _ => Since s₀) := by
  apply triple_bind (reads_since (getMessage_reads iChunkID) s₀)
  intro m
  apply triple_ite
  · intro _
    apply triple_get_bind
    intro t ht
    refine triple_conseq (P := Since s₀) ?_ (by rintro _ rfl; exact ht) (fun _ _ h => h)
      (fun _ _ h => h)
    apply triple_bind (reads_since (receiveOrNull_reads _ 4) s₀)
    intro _
    apply triple_bind (reads_since (readChunk_reads 32) s₀)
    intro timestamp
    apply triple_modify
    intro s hs
    have hw := hs.bounded iChunkID
    exact since_setMessage hs _ ⟨hw.current, hw.partly, hw.untouched⟩ rfl rfl
  · intro _
    exact triple_pure () fun _ h => h

/-- The unsigned comparison keeps a payload inside its message, for any chunk size. -/
theorem payloadSize_bounds (m : Message) (iOtherChunkSize : ℤ)
    (hc : m.currentLength ≤ m.messageLength) (hm : m.messageLength ≤ maxMessageSize) :
    payloadSize m iOtherChunkSize =
      (min (m.messageLength-m.currentLength) (uint32 iOtherChunkSize) : ℕ) := by
  have hmax : maxMessageSize = 2080000 := rfl
  have hleft : uint32 ((m.messageLength : ℤ)-m.currentLength) =
      m.messageLength-m.currentLength := by
    rw [uint32]
    omega
  rw [payloadSize, hleft, int32, Int.bmod_eq_of_le]
  · omega
  · omega

/-- Receives succeed with all they were asked for, and every chunk has room for a byte. -/
structure Healthy (s : ChunkStream) : Prop where
  legal : Legal s
  polled : Polled false s.pConnection.arrivals
  counted : Counted s

/-- Since `s₀` at most one write, behind what a message held, and inside its buffer. -/
structure Wrote (s₀ s : ChunkStream) : Prop where
  bounded : Bounded s
  writes : ∃ ws, s.payloadWrites = s₀.payloadWrites ++ ws ∧ ws.length ≤ 1 ∧ ∀ w ∈ ws,
    (∃ id, w.1 = (s₀.message id).currentLength) ∧ w.1+w.2 ≤ maxMessageSize
  size : s.iOtherChunkSize = s₀.iOtherChunkSize
  polled : Polled false s₀.pConnection.arrivals → Polled false s.pConnection.arrivals
  counted : Healthy s₀ → Counted s

theorem Since.wrote {s₀ s : ChunkStream} (h : Since s₀ s) : Wrote s₀ s := by
  refine ⟨h.bounded, ⟨[], by simp [h.writes], by simp, by simp⟩, h.size, h.polled, ?_⟩
  intro hh id
  rw [h.current, h.arrived]
  exact hh.counted id

theorem counted_handles {s t : ChunkStream} (h : Handles s t) (hs : Counted s) : Counted t := by
  intro id
  obtain ⟨b, hb, -⟩ := h.messages id
  rw [hb]
  exact hs id

theorem wrote_reads {s₀ s t : ChunkStream} (h : Reads s t) (hs : Wrote s₀ s) : Wrote s₀ t := by
  obtain ⟨ws, hws, hone, hin⟩ := hs.writes
  refine ⟨bounded_handles h.toHandles hs.bounded, ⟨ws, h.writes.trans hws, hone, hin⟩, h.size.trans hs.size,
    fun hp => h.polled (hs.polled hp), fun hh => counted_handles h.toHandles (hs.counted hh)⟩

theorem wrote_setMessage {s₀ s : ChunkStream} (h : Wrote s₀ s) (id : ℕ) {m : Message}
    (hm : Within m) (hc : Healthy s₀ → m.currentLength ≤ m.arrived) :
    Wrote s₀ (s.setMessage id m) := by
  refine ⟨setMessage_bounded h.bounded id hm, h.writes, h.size, h.polled, ?_⟩
  intro hh id'
  by_cases heq : id' = id
  · subst heq
    rw [message_setMessage]
    exact hc hh
  · rw [message_setMessage_of_ne s m heq]
    exact h.counted hh id'

/-- A write was recorded or made, and the message is as long as it was in `t`. -/
structure Fetching (s₀ t : ChunkStream) (iChunkID : ℕ) (s : ChunkStream) : Prop where
  wrote : Wrote s₀ s
  message : (s.message iChunkID).messageLength = (t.message iChunkID).messageLength
  current : (s.message iChunkID).currentLength = (t.message iChunkID).currentLength

/-- The message when `bs` has been put at `off` in its buffer. -/
def landed (m : Message) (off : ℕ) (bs : List UInt8) : Message :=
  { m with
    oBuffer := { m.oBuffer with buf := store m.oBuffer.buf off bs }
    arrived := (if off = 0 then 0 else m.arrived) + bs.length }

theorem landed_within {m : Message} (h : Within m) (off : ℕ) (bs : List UInt8)
    (hoff : off+bs.length ≤ maxMessageSize) : Within (landed m off bs) := by
  constructor
  · exact h.current
  · exact h.partly
  · intro a ha
    show store m.oBuffer.buf off bs a = 0
    rw [store_above _ _ _ _ (by omega)]
    exact h.untouched a ha

theorem landed_arrived (m : Message) (bs : List UInt8) (h : m.currentLength ≤ m.arrived) :
    m.currentLength+bs.length ≤ (landed m m.currentLength bs).arrived := by
  simp only [landed]
  split <;> omega

theorem stored_fetching {s₀ t s : ChunkStream} {iChunkID n : ℕ} {bs : List UInt8}
    {c : ConnectionInterface} (h : Fetching s₀ t iChunkID s)
    (hn : (t.message iChunkID).currentLength+n ≤ maxMessageSize)
    (hdel : Delivery s.pConnection n bs c) (r d : ℤ) :
    let u := stored (putPayload iChunkID (t.message iChunkID).currentLength) bs c r d s
    Fetching s₀ t iChunkID u ∧ (Healthy s₀ → bs.length = n →
      (t.message iChunkID).currentLength+n ≤ (u.message iChunkID).arrived) := by
  intro u
  rw [← h.current] at hn
  have hlen := hdel.length
  have hlast : Reads (s.setMessage iChunkID
      (landed (s.message iChunkID) (s.message iChunkID).currentLength bs)) u := by
    refine reads_of_reader ?_ rfl hdel.polled
    rw [h.current]
    rfl
  have hwrote : Wrote s₀ (s.setMessage iChunkID
      (landed (s.message iChunkID) (s.message iChunkID).currentLength bs)) := by
    apply wrote_setMessage h.wrote
    · exact landed_within (h.wrote.bounded iChunkID) _ bs (by omega)
    · intro hh
      have := landed_arrived _ bs (h.wrote.counted hh iChunkID)
      exact le_trans (Nat.le_add_right _ _) this
  obtain ⟨b, hb, -⟩ := hlast.messages iChunkID
  rw [message_setMessage] at hb
  refine ⟨⟨wrote_reads hlast hwrote, ?_, ?_⟩, ?_⟩
  · rw [hb, ← h.message]
    rfl
  · rw [hb, ← h.current]
    rfl
  · intro hh hfull
    rw [hb, ← h.current, ← hfull]
    exact landed_arrived _ bs (h.wrote.counted hh iChunkID)

theorem receiveOrNull_fetching {s₀ t : ChunkStream} {iChunkID n : ℕ}
    (hn : (t.message iChunkID).currentLength+n ≤ maxMessageSize)  :
    Triple (fun s => Fetching s₀ t iChunkID s)
      (receiveOrNull (putPayload iChunkID (t.message iChunkID).currentLength) n)
      (fun _ s => Fetching s₀ t iChunkID s ∧ (Healthy s₀ →
        (t.message iChunkID).currentLength+n ≤ (s.message iChunkID).arrived))
      (fun _ => Fetching s₀ t iChunkID) := by
  apply triple_bind (R := fun v s => Fetching s₀ t iChunkID s ∧ (0 < v → Healthy s₀ →
    (t.message iChunkID).currentLength+n ≤ (s.message iChunkID).arrived))
  · apply receiveFromSocket_triple
    intro s bs c r d hs hdel
    obtain ⟨hf, hfull⟩ := stored_fetching hs hn hdel r d
    refine ⟨hf, fun v hv => ⟨hf, fun hpos hh => hfull hh ?_⟩⟩
    exact hv hpos (hs.wrote.polled hh.polled)
  intro iStatus
  apply triple_ite
  · intro _
    exact triple_throw _ fun _ h => h.1
  · intro hpos
    exact triple_pure () fun _ h => ⟨h.1, h.2 (lt_of_not_ge hpos)⟩

theorem fetchPayload_fetching {s₀ t : ChunkStream} (ht : Since s₀ t) (iChunkID n : ℕ)
    (hn : (t.message iChunkID).currentLength+n ≤ maxMessageSize) :
    Triple (· = t) (fetchPayload iChunkID (t.message iChunkID).currentLength n)
      (fun _ s => Fetching s₀ t iChunkID s ∧ (Healthy s₀ →
        (t.message iChunkID).currentLength+n ≤ (s.message iChunkID).arrived))
      (fun _ => Fetching s₀ t iChunkID) := by
  apply triple_ite
  · intro _
    apply triple_modify_bind (R := Fetching s₀ t iChunkID)
    · rintro s rfl
      refine ⟨⟨ht.bounded, ⟨[((s.message iChunkID).currentLength, n)], ?_, by simp, ?_⟩, ht.size,
        ht.polled, ht.wrote.counted⟩, rfl, rfl⟩
      · rw [logWrite, ht.writes, Int.toNat_natCast]
      · intro w hmem
        rw [List.mem_singleton.mp hmem]
        exact ⟨⟨iChunkID, ht.current iChunkID⟩, hn⟩
    · exact receiveOrNull_fetching hn
  · intro h0
    apply triple_pure
    rintro s rfl
    refine ⟨⟨ht.wrote, rfl, rfl⟩, fun hh => ?_⟩
    have := ht.wrote.counted hh iChunkID
    omega

/-- Stored, and either there is more to come or the message is complete. -/
structure Progressed (s₀ : ChunkStream) (iChunkID : ℕ) (s : ChunkStream) : Prop where
  wrote : Wrote s₀ s
  small : (s.message iChunkID).messageLength ≤ maxMessageSize
  progress : Healthy s₀ → 0 < (s.message iChunkID).currentLength ∨
    (s.message iChunkID).messageLength = 0

theorem receivePayload_progressed (s₀ : ChunkStream) (iChunkID : ℕ) :
    Triple (Since s₀) (receivePayload iChunkID) (fun _ => Progressed s₀ iChunkID)
      (fun _ => Wrote s₀) := by
  apply triple_get_bind
  intro t ht
  apply triple_bind (triple_conseq (raiseIf_triple (P := (· = t)) _ _) (fun _ h => h)
    (fun _ _ h => h) (by rintro _ _ rfl; exact ht.wrote))
  intro _
  apply triple_of_state
  rintro u ⟨hu, hsmall⟩
  subst hu
  have hm := Nat.le_of_not_lt hsmall
  have hw := ht.bounded iChunkID
  have hcur := hw.current
  have hmax : maxMessageSize = 2080000 := rfl
  obtain ⟨n, hn⟩ : ∃ n, n = min ((u.message iChunkID).messageLength-(u.message iChunkID).currentLength)
    (uint32 u.iOtherChunkSize) := ⟨_, rfl⟩
  have hsize := payloadSize_bounds _ u.iOtherChunkSize hcur hm
  rw [← hn] at hsize
  rw [hsize]
  apply triple_bind (triple_conseq (fetchPayload_fetching ht iChunkID n (by omega))
    (fun _ h => h) (fun _ _ h => h) (fun _ _ h => h.wrote))
  intro _
  apply triple_modify
  rintro s ⟨hs, harr⟩
  have hws := hs.wrote.bounded iChunkID
  have hlen : uint32 ((s.message iChunkID).currentLength+(n : ℤ)) =
      (u.message iChunkID).currentLength+n := by
    rw [hs.current, uint32]
    omega
  simp only [hlen]
  constructor
  · apply wrote_setMessage hs.wrote
    · constructor
      · show (u.message iChunkID).currentLength+n ≤ (s.message iChunkID).messageLength
        rw [hs.message]
        omega
      · intro _
        show (s.message iChunkID).messageLength ≤ maxMessageSize
        rw [hs.message]
        exact hm
      · exact hws.untouched
    · exact harr
  · rw [message_setMessage]
    show (s.message iChunkID).messageLength ≤ maxMessageSize
    rw [hs.message]
    exact hm
  · intro hh
    rw [message_setMessage]
    show 0 < (u.message iChunkID).currentLength+n ∨ (s.message iChunkID).messageLength = 0
    have hroom : 128 ≤ uint32 u.iOtherChunkSize := by
      have := hh.legal
      rw [ht.size, uint32]
      simp only [Legal] at this
      omega
    rw [hs.message]
    omega

/-- A message that `receiveMessage` takes for complete has arrived whole. -/
def Finished (m : Message) : Prop := m.messageLength ≤ m.arrived

/-- What a chunk that was received leaves behind. -/
structure Ended (s₀ : ChunkStream) (iChunkID : ℕ) (s : ChunkStream) : Prop where
  wrote : Wrote s₀ s
  small : (s.message iChunkID).messageLength ≤ maxMessageSize
  finished : Healthy s₀ → (s.message iChunkID).currentLength = 0 → Finished (s.message iChunkID)

theorem endOfMessage_ended (s₀ : ChunkStream) (iChunkID : ℕ) :
    Triple (Progressed s₀ iChunkID) (endOfMessage iChunkID) (fun _ => Ended s₀ iChunkID)
      (fun _ => Wrote s₀) := by
  apply triple_bind (R := fun m s => m = s.message iChunkID ∧ Progressed s₀ iChunkID s)
  · exact ⟨fun s hs => ⟨rfl, hs⟩⟩
  intro m
  apply triple_ite
  · intro hend
    apply triple_modify
    rintro s ⟨rfl, hs, hsmall, -⟩
    have hw := hs.bounded iChunkID
    constructor
    · apply wrote_setMessage hs
      · constructor
        · exact Nat.zero_le _
        · intro h
          exact absurd h (lt_irrefl 0)
        · exact hw.untouched
      · intro _
        exact Nat.zero_le _
    · rw [message_setMessage]
      exact hsmall
    · intro hh _
      rw [message_setMessage]
      show (s.message iChunkID).messageLength ≤ (s.message iChunkID).arrived
      rw [← hend]
      exact hs.counted hh iChunkID
  · intro hmore
    apply triple_pure
    rintro s ⟨rfl, hs, hsmall, hp⟩
    refine ⟨hs, hsmall, fun hh h0 => ?_⟩
    have := hp hh
    omega

/-- However a chunk ends, it wrote at most once, and where it may; and a message it leaves
without a rest to come is complete, where receives are. -/
theorem receiveChunk_ended (s₀ : ChunkStream) :
    Triple (Since s₀) receiveChunk (fun id => Ended s₀ id) (fun _ => Wrote s₀) := by
  have hwrote : ∀ (_ : Stop) s, Since s₀ s → Wrote s₀ s := fun _ _ h => h.wrote
  apply triple_bind
  · exact triple_conseq (reads_since receiveHeader_reads s₀) (fun _ h => h) (fun _ _ h => h) hwrote
  rintro ⟨iFmt, iCsID⟩
  apply triple_bind
  · exact triple_conseq (reads_since (readChunkID_reads iCsID) s₀) (fun _ h => h)
      (fun _ _ h => h) hwrote
  intro iChunkID
  apply triple_bind
  · exact triple_conseq (selectMessage_since s₀ iFmt iChunkID) (fun _ h => h) (fun _ _ h => h) hwrote
  intro _
  apply triple_bind
  · exact triple_conseq (parseHeader_since s₀ iFmt iChunkID) (fun _ h => h) (fun _ _ h => h) hwrote
  intro _
  apply triple_bind
  · exact triple_conseq (extendedTimestamp_since s₀ iChunkID) (fun _ h => h) (fun _ _ h => h) hwrote
  intro _
  apply triple_bind (receivePayload_progressed s₀ iChunkID)
  intro _
  apply triple_bind (endOfMessage_ended s₀ iChunkID)
  intro _
  apply triple_bind (R := fun _ => Ended s₀ iChunkID)
  · refine triple_conseq (along_keeps checkACK_reads ?_) (fun _ h => h) (fun _ _ h => h)
      (fun _ _ h => h.wrote)
    intro s t h hs
    obtain ⟨b, hb, -⟩ := h.messages iChunkID
    constructor
    · exact wrote_reads h hs.wrote
    · rw [hb]
      exact hs.small
    · rw [hb]
      exact hs.finished
  intro _
  exact triple_pure iChunkID fun _ h => h

/-! ## Handling a message -/

theorem reads_handles {α : Type} {x : RTMP α} (h : Along Reads x) : Along Handles x :=
  fun s => (h s).toHandles

theorem rebuffer_reads (s : ChunkStream) (iChunkID : ℕ) {b : IBits}
    (hb : b.buf = (s.message iChunkID).oBuffer.buf) :
    Reads s (s.setMessage iChunkID ((s.message iChunkID).rebuffer b)) := by
  refine ⟨⟨?_, rfl, id⟩, rfl⟩
  intro id
  by_cases heq : id = iChunkID
  · subst heq
    rw [message_setMessage]
    exact ⟨b, rfl, hb⟩
  · rw [message_setMessage_of_ne s _ heq]
    exact ⟨_, rfl, rfl⟩

theorem readMessage_reads (iChunkID iBits : ℕ) : Along Reads (readMessage iChunkID iBits) := by
  apply along_bind (getMessage_reads iChunkID)
  intro m
  apply along_modify_bind
  · intro s
    exact rebuffer_reads s iChunkID (IBits.read_buf _ _)
  · exact along_pure _

theorem adopt_handles (s : ChunkStream) (iSize : ℤ) : Handles s (s.adopt iSize) :=
  ⟨fun _ => ⟨_, rfl, rfl⟩, rfl, id⟩

theorem handleSetChunkSize_handles (iChunkID : ℕ) : Along Handles (handleSetChunkSize iChunkID) := by
  apply along_bind (reads_handles (readMessage_reads iChunkID 32))
  intro iSize
  apply along_get_bind
  intro s
  apply along_ite
  · apply along_modify_bind
    · intro t
      exact adopt_handles t _
    · exact along_pure _
  · exact along_pure _

theorem handleAbort_reads (iChunkID : ℕ) : Along Reads (handleAbort iChunkID) := by
  apply along_bind (readMessage_reads iChunkID 32)
  intro _
  exact along_pure _

theorem handleUserCtrl_reads (iChunkID : ℕ) : Along Reads (handleUserCtrl iChunkID) := by
  apply along_bind (readMessage_reads iChunkID 16)
  intro iType
  apply along_ite
  · apply along_modify_bind
    · intro s
      exact rebuffer_reads s iChunkID (IBits.seek_buf _ _)
    apply along_bind (readMessage_reads iChunkID 32)
    intro iVal
    apply along_modify_bind
    · intro s
      exact reads_of_reader (by simp only [reader]) (by simp only) id
    · exact along_pure _
  apply along_ite
  · apply along_bind (readMessage_reads iChunkID 32)
    intro iVal
    exact sendUserControl_reads _ _
  apply along_ite
  · apply along_bind (readMessage_reads iChunkID 32)
    intro _
    exact along_pure _
  · exact along_pure _

theorem handleWindowACKSize_reads (iChunkID : ℕ) : Along Reads (handleWindowACKSize iChunkID) := by
  apply along_bind (readMessage_reads iChunkID 32)
  intro iWindow
  apply along_modify_bind
  · intro s
    exact reads_of_reader (by simp only [reader]) (by simp only) id
  · exact along_pure _

theorem handleSetPeerBandwidth_reads (iChunkID : ℕ) :
    Along Reads (handleSetPeerBandwidth iChunkID) := by
  apply along_bind (readMessage_reads iChunkID 32)
  intro iWindow
  apply along_bind (readMessage_reads iChunkID 8)
  intro _
  apply along_modify_bind
  · intro s
    exact reads_of_reader (by simp only [reader]) (by simp only) id
  · exact sendWindowACKSize_reads

/-- Only a `SET_CHUNK_SIZE` message touches the chunk size of the peer. -/
theorem handle_reads (overrides : Overrides) (t : ControlMsg) (iChunkID : ℕ)
    (ht : t ≠ .setChunkSize) : Along Reads (handle overrides t iChunkID) := by
  have hvirtual : Along Reads (do return overrides t (← getMessage iChunkID)) := by
    apply along_bind (getMessage_reads iChunkID)
    intro m
    exact along_pure _
  cases t with
  | setChunkSize => exact absurd rfl ht
  | abortMessage => exact handleAbort_reads iChunkID
  | ack => exact handleAbort_reads iChunkID
  | userControl => exact handleUserCtrl_reads iChunkID
  | windowAckSize => exact handleWindowACKSize_reads iChunkID
  | setPeerBandwidth => exact handleSetPeerBandwidth_reads iChunkID
  | _ => exact hvirtual

theorem handle_handles (overrides : Overrides) (t : ControlMsg) (iChunkID : ℕ) :
    Along Handles (handle overrides t iChunkID) := by
  by_cases ht : t = .setChunkSize
  · subst ht
    exact handleSetChunkSize_handles iChunkID
  · exact reads_handles (handle_reads overrides t iChunkID ht)

theorem dispatch_handles (overrides : Overrides) (iChunkID : ℕ) :
    Along Handles (dispatch overrides iChunkID) := by
  apply along_bind (reads_handles (getMessage_reads iChunkID))
  intro m
  cases ControlMsg.ofCode m.messageTypeId with
  | none => exact along_pure _
  | some t =>
    apply along_bind (handle_handles overrides t iChunkID)
    intro iRet
    apply along_ite
    · apply along_ite
      · exact along_throw _
      · exact along_throw _
    · exact along_pure _

end Sirannon.RTMPReceiveSteps
