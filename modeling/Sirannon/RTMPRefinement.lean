import Sirannon.RTMPChunkReceive

/-!
# The receiver refines the format

The message map of a `ChunkStream` mirrors the slots of a `Receiver`. A chunk
the receiver accepts is taken by `receiveChunk` and leaves the map mirroring
the slots after it, and a call of `receiveMessage` delivers the next message.
-/

set_option autoImplicit false

namespace Sirannon.RTMPRefinement
open MachineInt Bits BitString Connection ByteMemory StateError
open RTMPChunkStream RTMPChunkFormat RTMPChunkSend RTMPChunkReceive

/-- A partial message holds what its slot says. -/
structure Mirrors (m : Message) (sl : Slot) : Prop where
  timestamp : m.timestamp = sl.timestamp
  delta : m.timestampDelta = sl.delta
  length : m.messageLength = sl.length
  type : m.messageTypeId = sl.type
  streamId : m.messageStreamId = sl.streamId
  current : m.currentLength = sl.got.length
  bytes : load m.oBuffer.buf 0 sl.got.length = sl.got
  whole : sl.got.length ≤ sl.length

def Matches (m : Message) : Option Slot → Prop
  | none => m.currentLength = 0
  | some sl => Mirrors m sl

/-- What reading a header is to achieve for the slot it opens. -/
structure Opens (m : Message) (slot : Option Slot) (c : Chunk) (sl : Slot) : Prop where
  expected : Expected (parsed m c.header) c.extended
  mirrors : Mirrors (extendedBy (parsed m c.header) c.extended) sl
  done : c.header.fmt < 3 → m.currentLength = 0
  fresh : slot = none → c.header.fmt = 0

theorem mirrors_idle {m : Message} {s : Slot} (h : Mirrors m s) (hg : s.got = []) :
    m.currentLength = 0 := by
  rw [h.current, hg]
  rfl

theorem opens_full {m : Message} {slot : Option Slot} {c : Chunk} {t l ty sid e : ℕ}
    (hh : c.header = .full t l ty sid) (hcur : m.currentLength = 0)
    (he : c.extended = if t = 0xFFFFFF then some e else none)
    (hp : (⟨timeField t e, 0, t, true, e, l, ty, sid, []⟩ : Slot).Plain) :
    Opens m slot c ⟨timeField t e, 0, t, true, e, l, ty, sid, []⟩ := by
  refine ⟨?_, ?_, fun _ => hcur, fun _ => by rw [hh]; rfl⟩
  · rw [hh, he]
    simp only [Slot.Plain] at hp
    split_ifs at hp ⊢ with ht
    · exact ⟨by simp [parsed, ht], hp.2.2.2.1⟩
    · simp only [timeField, if_neg ht] at hp
      exact hp.2.1
  · rw [hh, he]
    by_cases ht : t = 0xFFFFFF
    · rw [if_pos ht]
      exact ⟨by simp [timeField, ht, extendedBy], rfl, rfl, rfl, rfl, hcur, rfl, by simp⟩
    · rw [if_neg ht]
      exact ⟨by simp [timeField, ht, extendedBy, parsed], rfl, rfl, rfl, rfl, hcur, rfl, by simp⟩

theorem not_plain_delta {s : Slot} (hf : s.absolute = false) (hp : s.Plain) :
    s.field ≠ 0xFFFFFF ∧ s.timestamp < 0xFFFFFF := by
  simp only [Slot.Plain, hf] at hp
  split_ifs at hp with h
  · simp at hp
  · exact ⟨h, hp.2.1⟩

theorem open_mirrors {m : Message} {slot : Option Slot} {c : Chunk} {sl : Slot}
    (hm : Matches m slot) (ho : openSlot slot c = some sl) (he : c.extended = sl.extension)
    (hp : sl.Plain) : Opens m slot c sl := by
  cases hh : c.header with
  | full t l ty sid =>
    cases slot with
    | none =>
      simp only [openSlot, hh, Option.some.injEq] at ho
      subst ho
      exact opens_full hh hm he hp
    | some s =>
      simp only [openSlot, hh] at ho
      split_ifs at ho with hg
      obtain rfl := Option.some.inj ho
      exact opens_full hh (mirrors_idle hm hg) he hp
  | lengthAndDelta d l ty =>
    cases slot with
    | none => simp [openSlot, hh] at ho
    | some s =>
      simp only [openSlot, hh] at ho
      split_ifs at ho with hg
      obtain rfl := Option.some.inj ho
      obtain ⟨hne, hts⟩ := not_plain_delta rfl hp
      have hnone : c.extended = none := by
        rw [he, Slot.extension, if_neg hne]
      refine ⟨?_, ?_, fun _ => mirrors_idle hm hg, by simp⟩
      · rw [hh, hnone]
        exact lt_of_eq_of_lt hm.timestamp hts
      · rw [hh, hnone]
        exact ⟨hm.timestamp, by simp only [timeField, if_neg hne]; rfl, rfl, rfl, hm.streamId,
          hm.current, hm.bytes, by simp [hg]⟩
  | deltaOnly d =>
    cases slot with
    | none => simp [openSlot, hh] at ho
    | some s =>
      simp only [openSlot, hh] at ho
      split_ifs at ho with hg
      obtain rfl := Option.some.inj ho
      obtain ⟨hne, hts⟩ := not_plain_delta rfl hp
      have hnone : c.extended = none := by
        rw [he, Slot.extension, if_neg hne]
      refine ⟨?_, ?_, fun _ => mirrors_idle hm hg, by simp⟩
      · rw [hh, hnone]
        exact lt_of_eq_of_lt hm.timestamp hts
      · rw [hh, hnone]
        exact ⟨hm.timestamp, by simp only [timeField, if_neg hne]; rfl, hm.length, hm.type,
          hm.streamId, hm.current, hm.bytes, hm.whole⟩
  | inherit =>
    cases slot with
    | none => simp [openSlot, hh] at ho
    | some s =>
      simp only [openSlot, hh, Option.some.injEq] at ho
      subst ho
      simp only [Slot.Plain] at hp
      simp only [Slot.extension] at he
      refine ⟨?_, ?_, fun hlt => by rw [hh] at hlt; simp [ChunkHeader.fmt] at hlt, by simp⟩
      · rw [hh, he]
        split_ifs at hp ⊢ with hf
        · exact ⟨by rw [parsed, hm.timestamp, hp.2.1]; exact_mod_cast hp.2.2.1, hp.2.2.2.1⟩
        · exact lt_of_eq_of_lt hm.timestamp hp.2.1
      · rw [hh, he]
        split_ifs at hp ⊢ with hf
        · exact ⟨hp.2.1.symm, hm.delta, hm.length, hm.type, hm.streamId, hm.current, hm.bytes,
            hm.whole⟩
        · exact hm

/-! ## One chunk -/

def MatchesEntry (entry : Option Message) : Option Slot → Prop
  | none => entry = none
  | some sl => ∃ m, entry = some m ∧ Mirrors m sl

/-- The message map mirrors the slots, and both sides work with one chunk size. -/
structure Tracks (s : ChunkStream) (R : Receiver) : Prop where
  size : s.iOtherChunkSize = R.size
  positive : 0 < R.size
  bounded : R.size < 2^31
  slots : ∀ id, MatchesEntry (s.mReceiveChunk id) (R.slots id)

theorem Tracks.matches {s : ChunkStream} {R : Receiver} (h : Tracks s R) (id : ℕ) :
    Matches (s.message id) (R.slots id) := by
  have he := h.slots id
  cases hs : R.slots id with
  | none =>
    rw [hs] at he
    rw [MatchesEntry] at he
    rw [ChunkStream.message, he]
    rfl
  | some sl =>
    rw [hs] at he
    obtain ⟨m, hm, hmir⟩ := he
    rw [ChunkStream.message, hm]
    exact hmir

/-- Replacing one message and its slot keeps the map mirroring the slots. -/
theorem Tracks.replace {s s' : ChunkStream} {R : Receiver} (h : Tracks s R) {id : ℕ} {m : Message}
    {sl : Slot} (hm : Mirrors m sl) (hr : reader s' = reader (s.setMessage id m)) :
    Tracks s' ⟨R.size, Function.update R.slots id (some sl)⟩ := by
  simp only [reader, Prod.mk.injEq] at hr
  refine ⟨hr.1.trans h.size, h.positive, h.bounded, fun id' => ?_⟩
  rw [hr.2.1]
  by_cases hid : id' = id
  · subst hid
    simp only [ChunkStream.setMessage, Function.update_self]
    exact ⟨m, rfl, hm⟩
  · simp only [ChunkStream.setMessage, Function.update_of_ne hid]
    exact h.slots id'

theorem accept_open {size : ℕ} {slot : Option Slot} {c : Chunk} {sl : Slot}
    (h : accept size slot c = some sl) : ∃ s₁, openSlot slot c = some s₁ ∧
      c.extended = s₁.extension ∧ s₁.length ≤ maxMessageSize ∧
      c.payload.length = min (s₁.length - s₁.got.length) size ∧
      sl = { s₁ with got := s₁.got ++ c.payload } := by
  simp only [accept, Option.bind_eq_bind, Option.bind_eq_some_iff] at h
  obtain ⟨s₁, ho, hif⟩ := h
  split_ifs at hif with hc
  exact ⟨s₁, ho, hc.1, hc.2.1, hc.2.2, (Option.some.inj hif).symm⟩

/-- The time fields of the chunk are ones the code reads as the sender means them. -/
def Readable (R : Receiver) (c : Chunk) : Prop :=
  c.header.Fits ∧ ∀ sl, openSlot (R.slots c.id) c = some sl → sl.Plain

theorem mirrors_received {m : Message} {s₁ : Slot} (h : Mirrors m s₁) (payload : List UInt8)
    (size : ℕ) (hlen : payload.length = min (s₁.length - s₁.got.length) size) :
    Mirrors (received m payload) { s₁ with got := s₁.got ++ payload } := by
  refine ⟨h.timestamp, h.delta, h.length, h.type, h.streamId, ?_, ?_, ?_⟩
  · simp only [received, h.current, List.length_append]
  · simp only [received, fetched, h.current, List.length_append]
    rw [load_store_extend, h.bytes]
  · have := h.whole
    simp only [List.length_append]
    omega

theorem accept_takes {s : ChunkStream} {R : Receiver} {c : Chunk} {sl : Slot} (ht : Tracks s R)
    (ha : accept R.size (R.slots c.id) c = some sl) (hr : Readable R c) :
    Takes s c ∧ sl.Plain ∧ Mirrors (received (extendedBy (parsed { s.message c.id with csId := c.id }
      c.header) c.extended) c.payload) sl := by
  obtain ⟨s₁, ho, he, hmax, hlen, rfl⟩ := accept_open ha
  obtain ⟨hexp, hmir, hdone, hfresh⟩ := open_mirrors (ht.matches c.id) ho he (hr.2 s₁ ho)
  have hl : (parsed (s.message c.id) c.header).messageLength = s₁.length := by
    rw [← extendedBy_messageLength _ c.extended]
    exact hmir.length
  have hc : (s.message c.id).currentLength = s₁.got.length := by
    rw [← parsed_currentLength _ c.header, ← extendedBy_currentLength _ c.extended]
    exact hmir.current
  have hmir' : Mirrors (extendedBy (parsed { s.message c.id with csId := c.id } c.header)
      c.extended) s₁ := by
    rw [parsed_csId]
    cases he' : c.extended with
    | none =>
      rw [he'] at hmir
      exact ⟨hmir.1, hmir.2, hmir.3, hmir.4, hmir.5, hmir.6, hmir.7, hmir.8⟩
    | some e =>
      rw [he'] at hmir
      exact ⟨hmir.1, hmir.2, hmir.3, hmir.4, hmir.5, hmir.6, hmir.7, hmir.8⟩
  have hplain := hr.2 s₁ ho
  refine ⟨⟨hr.1, hdone, fun hn => hfresh ?_, hexp, by omega, ?_, ?_, ?_⟩, ?_,
    mirrors_received hmir' c.payload R.size hlen⟩
  · have hentry := ht.slots c.id
    cases hs : R.slots c.id with
    | none => rfl
    | some sl =>
      rw [hs, hn] at hentry
      obtain ⟨m, hm, -⟩ := hentry
      cases hm
  · rw [hl, hc]
    exact hmir.whole
  · rw [ht.size]
    have := ht.bounded
    omega
  · rw [hl, hc, ht.size]
    exact hlen
  · exact hplain

/-- What a message in the map says, once it is complete. -/
def msgOf (m : Message) : Msg :=
  ⟨m.csId, m.messageTypeId, m.messageStreamId, m.timestamp, load m.oBuffer.buf 0 m.messageLength⟩

theorem plain_time {sl : Slot} (h : sl.Plain) : int32 (sl.timestamp + sl.delta) =
    sl.timestamp + sl.delta := by
  simp only [Slot.Plain] at h
  split_ifs at h
  · apply int32_of_range <;> omega
  · apply int32_of_range <;> omega

/-- A complete message: at rest in its slot, with its payload in the buffer. -/
theorem mirrors_ended {m : Message} {sl : Slot} (h : Mirrors m sl) (hp : sl.Plain)
    (hf : sl.finished) :
    Mirrors (ended m) sl.taken ∧ msgOf (ended m) = sl.msg m.csId ∧
      (ended m).currentLength = 0 ∧ (ended m).oBuffer.Ahead 0 [] := by
  have hlen : sl.got.length = sl.length := by simpa [Slot.finished] using hf
  have hend : m.currentLength = m.messageLength := by rw [h.current, h.length, hlen]
  have htime : int32 (m.timestamp + m.timestampDelta) = sl.timestamp + sl.delta := by
    rw [h.timestamp, h.delta, plain_time hp]
  rw [ended, if_pos hend, htime]
  refine ⟨⟨rfl, h.delta, h.length, h.type, h.streamId, rfl, rfl, by simp [Slot.taken]⟩, ?_, rfl,
    IBits.ahead_clear _⟩
  simp only [msgOf, Slot.msg, h.type, h.streamId, h.length, ← hlen]
  rw [show m.oBuffer.clear.buf = m.oBuffer.buf from rfl, h.bytes]

theorem mirrors_unended {m : Message} {sl : Slot} (h : Mirrors m sl) (hf : ¬ sl.finished) :
    ended m = m := by
  rw [ended, if_neg]
  rw [h.current, h.length]
  simpa [Slot.finished] using hf

/-- The chunk completed `msg`, which now waits to be handled. -/
structure Delivered (s : ChunkStream) (id : ℕ) (msg : Msg) : Prop where
  complete : (s.message id).currentLength = 0
  content : msgOf (s.message id) = msg
  start : (s.message id).oBuffer.Ahead 0 []

theorem accept_progress {size : ℕ} {slot : Option Slot} {c : Chunk} {sl : Slot}
    (h : accept size slot c = some sl) (hs : 0 < size) (hf : ¬ sl.finished) :
    0 < sl.got.length := by
  obtain ⟨s₁, -, -, -, hlen, rfl⟩ := accept_open h
  simp only [Slot.finished, decide_eq_true_eq, List.length_append] at hf ⊢
  omega

/-- `receiveChunk` does to the message map what `step` does to the slots. -/
theorem receiveChunk_step {s : ChunkStream} {R R' : Receiver} {c : Chunk} {out : Option Msg}
    {rest : List UInt8} (ht : Tracks s R) (hr : Ready s (c.encode ++ rest))
    (hread : Readable R c) (hstep : R.step c = some (R', out)) :
    ∃ s', receiveChunk.run s = .ok c.id s' ∧ Ready s' rest ∧ Tracks s' ⟨R.size, R'.slots⟩ ∧
      match out with
      | none => 0 < (s'.message c.id).currentLength ∧ R'.size = R.size
      | some msg => Delivered s' c.id msg ∧ R'.size = msg.sizeAfter R.size := by
  simp only [Receiver.step, Option.bind_eq_bind, Option.bind_eq_some_iff] at hstep
  obtain ⟨sl, ha, hout⟩ := hstep
  obtain ⟨htakes, hplain, hmir⟩ := accept_takes ht ha hread
  obtain ⟨s', hrun, hready, hm⟩ := receiveChunk_ready s c rest hr htakes
  have hcs : (received (extendedBy (parsed { s.message c.id with csId := c.id } c.header)
      c.extended) c.payload).csId = c.id := by
    rw [parsed_csId]
    cases c.extended <;> rfl
  have hmsg : s'.message c.id = afterChunk (s.message c.id) c := by
    rw [message_of_reader hm, message_setMessage]
  refine ⟨s', hrun, hready, ?_⟩
  split_ifs at hout with hf
  · obtain ⟨rfl, rfl⟩ : _ ∧ _ := by simpa using hout
    obtain ⟨hmir', hcontent, hcomplete, hstart⟩ := mirrors_ended hmir hplain hf
    rw [hcs] at hcontent
    exact ⟨ht.replace hmir' hm, ⟨by rw [hmsg]; exact hcomplete, by rw [hmsg]; exact hcontent,
      by rw [hmsg]; exact hstart⟩, rfl⟩
  · obtain ⟨rfl, rfl⟩ : _ ∧ _ := by simpa using hout
    have hsame : afterChunk (s.message c.id) c = _ := mirrors_unended hmir hf
    refine ⟨ht.replace (by rw [hsame]; exact hmir) hm, ?_, rfl⟩
    rw [hmsg, hsame, hmir.current]
    exact accept_progress ha ht.positive hf

/-! ## Handling a message -/

/-- Only the read position in the message of `id` has moved. -/
structure Handled (s : ChunkStream) (id : ℕ) (rest : List UInt8) (s' : ChunkStream) : Prop where
  ready : Ready s' rest
  moved : ∃ b : IBits, b.buf = (s.message id).oBuffer.buf ∧
    reader s' = reader (s.setMessage id ((s.message id).rebuffer b))

theorem Handled.of_reader {s t t' : ChunkStream} {id : ℕ} {rest : List UInt8}
    (h : Handled s id rest t) (hr : Ready t' rest) (hm : reader t' = reader t) :
    Handled s id rest t' := by
  obtain ⟨b, hb, hmoved⟩ := h.moved
  exact ⟨hr, b, hb, hm.trans hmoved⟩

/-- Any move of the read position that keeps the buffer. -/
theorem Handled.move {s t : ChunkStream} {id : ℕ} {rest : List UInt8} (h : Handled s id rest t)
    (f : IBits → IBits) (hf : ∀ b, (f b).buf = b.buf) :
    ∃ t', (updateMessage id fun m => m.rebuffer (f m.oBuffer)).run t = .ok () t' ∧
      Handled s id rest t' := by
  obtain ⟨b, hb, hm⟩ := h.moved
  have hmsg : t.message id = (s.message id).rebuffer b := by
    rw [message_of_reader hm, message_setMessage]
  refine ⟨t.setMessage id ((t.message id).rebuffer (f (t.message id).oBuffer)), rfl,
    ready_setMessage h.ready id _, f b, (hf b).trans hb, ?_⟩
  rw [hmsg, setMessage_of_reader hm, setMessage_setMessage]
  rfl

theorem readMessage_run (s : ChunkStream) (id n : ℕ) :
    (readMessage id n).run s = .ok ((s.message id).oBuffer.read n).1
      (s.setMessage id ((s.message id).rebuffer ((s.message id).oBuffer.read n).2)) := by
  have hget : (getMessage id).run s = .ok (s.message id) s := rfl
  rw [readMessage, run_bind_of_ok hget]
  rfl

theorem Handled.read {s t : ChunkStream} {id : ℕ} {rest : List UInt8} (h : Handled s id rest t)
    (n : ℕ) : ∃ v t', (readMessage id n).run t = .ok v t' ∧ Handled s id rest t' := by
  obtain ⟨t', hrun, ht'⟩ := h.move (fun b => (b.read n).2) (fun b => b.read_buf n)
  obtain rfl : t.setMessage id ((t.message id).rebuffer ((t.message id).oBuffer.read n).2) = t' := by
    simpa [updateMessage] using hrun
  exact ⟨_, _, readMessage_run t id n, ht'⟩

theorem Handled.seek {s t : ChunkStream} {id : ℕ} {rest : List UInt8} (h : Handled s id rest t)
    (n : ℕ) : ∃ t', (updateMessage id fun m => m.rebuffer (m.oBuffer.seek n)).run t =
      .ok () t' ∧ Handled s id rest t' :=
  h.move (fun b => b.seek n) (fun b => b.seek_buf n)

/-- The types whose handlers are the base class's own, and do not set the chunk size. -/
def passive : ControlMsg → Bool
  | .abortMessage | .ack | .userControl | .windowAckSize | .setPeerBandwidth => true
  | _ => false

theorem sendUserControl_ready (s : ChunkStream) (v : ℤ) (rest : List UInt8) (h : Ready s rest) :
    ∃ s', (sendUserControl .pingResponse v).run s = .ok 0 s' ∧ Ready s' rest ∧
      reader s' = reader s := by
  obtain ⟨s', hs', hr, hm⟩ := sendControl_ready s
    [(16, UserControl.pingResponse.code), (32, uint32 v)] .userControl 6 rest (by simp) (by simp)
    (by omega) h
  exact ⟨s', by rw [sendUserControl, run_get_bind]; exact hs', hr, hm⟩

theorem handleUserCtrl_handled (s : ChunkStream) (id : ℕ) (rest : List UInt8)
    (h : Handled s id rest s) :
    ∃ s', (handleUserCtrl id).run s = .ok 0 s' ∧ Handled s id rest s' := by
  obtain ⟨v, s₁, h₁, hh₁⟩ := h.read 16
  rw [handleUserCtrl, run_bind_of_ok h₁]
  split_ifs
  · obtain ⟨s₂, h₂, hh₂⟩ := hh₁.seek 4
    obtain ⟨w, s₃, h₃, hh₃⟩ := hh₂.read 32
    refine ⟨{ s₃ with
      iOtherBuffer := int32 w, iSetBufferCounter := int32 (s₃.iSetBufferCounter+1) }, ?_,
      hh₃.of_reader ⟨hh₃.ready.1, hh₃.ready.2, hh₃.ready.3, hh₃.ready.4⟩
        (by simp only [reader])⟩
    rw [run_bind_of_ok h₂, run_bind_of_ok h₃, run_modify_bind]
    rfl
  · obtain ⟨w, s₂, h₂, hh₂⟩ := hh₁.read 32
    obtain ⟨s₃, h₃, hr₃, hm₃⟩ := sendUserControl_ready s₂ (int32 w) rest hh₂.ready
    exact ⟨s₃, by rw [run_bind_of_ok h₂, h₃], hh₂.of_reader hr₃ hm₃⟩
  · obtain ⟨w, s₂, h₂, hh₂⟩ := hh₁.read 32
    exact ⟨s₂, by rw [run_bind_of_ok h₂]; rfl, hh₂⟩
  · exact ⟨s₁, rfl, hh₁⟩

theorem handle_passive (overrides : Overrides) (s : ChunkStream) (t : ControlMsg) (id : ℕ)
    (rest : List UInt8) (hp : passive t = true) (h : Handled s id rest s) :
    ∃ s', (handle overrides t id).run s = .ok 0 s' ∧ Handled s id rest s' := by
  cases t with
  | abortMessage =>
    obtain ⟨v, s₁, h₁, hh₁⟩ := h.read 32
    exact ⟨s₁, by rw [handle, handleAbort, run_bind_of_ok h₁]; rfl, hh₁⟩
  | ack =>
    obtain ⟨v, s₁, h₁, hh₁⟩ := h.read 32
    exact ⟨s₁, by rw [handle, handleACK, run_bind_of_ok h₁]; rfl, hh₁⟩
  | userControl => exact handleUserCtrl_handled s id rest h
  | windowAckSize =>
    obtain ⟨v, s₁, h₁, hh₁⟩ := h.read 32
    refine ⟨{ s₁ with iSelfACKWindow := int32 v, bPing := true }, ?_,
      hh₁.of_reader ⟨hh₁.ready.1, hh₁.ready.2, hh₁.ready.3, hh₁.ready.4⟩ (by simp only [reader])⟩
    rw [handle, handleWindowACKSize, run_bind_of_ok h₁, run_modify_bind]
    rfl
  | setPeerBandwidth =>
    obtain ⟨v, s₁, h₁, hh₁⟩ := h.read 32
    obtain ⟨w, s₂, h₂, hh₂⟩ := hh₁.read 8
    obtain ⟨s₃, h₃, hr₃, hm₃⟩ := sendControl_ready { s₂ with iOtherACKWindow := int32 v }
      [(32, uint32 (int32 v))] .windowAckSize 4 rest (by simp) (by simp) (by omega)
      ⟨hh₂.ready.1, hh₂.ready.2, hh₂.ready.3, hh₂.ready.4⟩
    have hw : reader { s₂ with iOtherACKWindow := int32 v } = reader s₂ := by simp only [reader]
    refine ⟨s₃, ?_, hh₂.of_reader hr₃ (hm₃.trans hw)⟩
    rw [handle, handleSetPeerBandwidth, run_bind_of_ok h₁, run_bind_of_ok h₂, run_modify_bind,
      sendWindowACKSize, run_get_bind]
    exact h₃
  | _ => cases hp

theorem Handled.tracks {s s' : ChunkStream} {R : Receiver} {id : ℕ} {rest : List UInt8}
    {sl : Slot} (h : Handled s id rest s') (ht : Tracks s R) (hsl : R.slots id = some sl) :
    Tracks s' R ∧ msgOf (s'.message id) = msgOf (s.message id) := by
  obtain ⟨b, hb, hm⟩ := h.moved
  have hmatch := ht.matches id
  rw [hsl] at hmatch
  have hmir : Mirrors ((s.message id).rebuffer b) sl :=
    ⟨hmatch.1, hmatch.2, hmatch.3, hmatch.4, hmatch.5, hmatch.6,
      (congrArg (fun m => load m 0 sl.got.length) hb).trans hmatch.bytes, hmatch.8⟩
  have hsame : (⟨R.size, Function.update R.slots id (some sl)⟩ : Receiver) = R := by
    rw [← hsl, Function.update_eq_self]
  refine ⟨hsame ▸ ht.replace hmir hm, ?_⟩
  rw [message_of_reader hm, message_setMessage]
  simp only [msgOf, Message.rebuffer, hb]

theorem handled_refl {s : ChunkStream} {id : ℕ} {rest : List UInt8} {m : Message}
    (hr : Ready s rest) (hm : s.mReceiveChunk id = some m) : Handled s id rest s := by
  refine ⟨hr, (s.message id).oBuffer, rfl, ?_⟩
  have hmsg : s.message id = m := by rw [ChunkStream.message, hm]; rfl
  have hset : s.setMessage id m = s := by
    rw [ChunkStream.setMessage, ← hm, Function.update_eq_self]
  rw [hmsg]
  exact congrArg reader hset.symm

/-- The message after `handleSetChunkSize` has read the request. -/
def requestRead (s : ChunkStream) (id : ℕ) : ChunkStream :=
  s.setMessage id ((s.message id).rebuffer ((s.message id).oBuffer.read 32).2)

def request (s : ChunkStream) (id : ℕ) : ℤ := int32 ((s.message id).oBuffer.read 32).1

theorem handleSetChunkSize_run (s : ChunkStream) (id : ℕ) :
    (handleSetChunkSize id).run s =
      if 128 ≤ s.iOtherChunkSize ∧ s.iOtherChunkSize ≤ 65536 then
        .ok 0 ((requestRead s id).adopt (request s id))
      else .ok 1024 (requestRead s id) := by
  rw [handleSetChunkSize, run_bind_of_ok (readMessage_run s id 32), run_get_bind]
  by_cases hold : 128 ≤ s.iOtherChunkSize ∧ s.iOtherChunkSize ≤ 65536
  · have hold' : 128 ≤ (requestRead s id).iOtherChunkSize ∧
      (requestRead s id).iOtherChunkSize ≤ 65536 := hold
    rw [if_pos hold]
    exact (congrArg (fun x => EStateM.run x _) (if_pos hold'))
  · have hold' : ¬ (128 ≤ (requestRead s id).iOtherChunkSize ∧
      (requestRead s id).iOtherChunkSize ≤ 65536) := hold
    rw [if_neg hold]
    exact (congrArg (fun x => EStateM.run x _) (if_neg hold'))

/-- The request is the number the payload spells. -/
theorem request_of_delivered {s : ChunkStream} {id : ℕ} {msg : Msg} (hd : Delivered s id msg)
    (hlen : msg.payload.length = 4) (hsmall : value (ofBytes msg.payload) ≤ 65536) :
    request s id = value (ofBytes msg.payload) := by
  have hpay : load (s.message id).oBuffer.buf 0 (s.message id).messageLength = msg.payload := by
    rw [← hd.content]
    rfl
  have hml : (s.message id).messageLength = 4 := by
    rw [← hlen, ← hpay, load_length]
  rw [hml] at hpay
  have hval : ((s.message id).oBuffer.read 32).1 = value (ofBytes msg.payload) := by
    rw [(IBits.read_spec _ 32 hd.start.1 (by omega)).1, hd.start.2.1,
      show (0 : ℕ) = 8*0 by rfl, show 32 = 8*4 by rfl, bits_load, hpay]
  rw [request, hval, int32_of_range _ (by omega) (by omega)]

theorem ofCode_code {n : ℕ} {t : ControlMsg} (h : ControlMsg.ofCode n = some t) : n = t.code := by
  unfold ControlMsg.ofCode at h
  split at h <;> cases h <;> rfl

/-- What `receiveMessage` answers for a complete message. -/
def outcome (overrides : Overrides) (m : Message) : Except Stop Msg :=
  match ControlMsg.ofCode m.messageTypeId with
  | none => .ok (msgOf m)
  | some t =>
    if t = .setChunkSize ∨ passive t = true then .ok (msgOf m)
    else if overrides t m < 0 then
      if overrides t m = -2 then
        .error (.thrown (runtimeError s!"Message type({m.messageTypeId}) not supported"))
      else .error .null
    else .ok (msgOf m)

/-- The answer of a call and the state it leaves. -/
def answer : EStateM.Result Stop ChunkStream ℕ → Except Stop Msg × ChunkStream
  | .ok id s => (.ok (msgOf (s.message id)), s)
  | .error e s => (.error e, s)

theorem handled_requestRead (s : ChunkStream) (id : ℕ) (rest : List UInt8) (hr : Ready s rest) :
    Handled s id rest (requestRead s id) :=
  ⟨ready_setMessage hr id _, _, IBits.read_buf _ _, rfl⟩

theorem dispatch_none (overrides : Overrides) (s : ChunkStream) (id : ℕ)
    (h : ControlMsg.ofCode (s.message id).messageTypeId = none) :
    (dispatch overrides id).run s = .ok id s := by
  have hget : (getMessage id).run s = .ok (s.message id) s := rfl
  rw [dispatch, run_bind_of_ok hget, h]
  rfl

theorem dispatch_some (overrides : Overrides) (s s' : ChunkStream) (id : ℕ) (t : ControlMsg)
    (iRet : ℤ) (h : ControlMsg.ofCode (s.message id).messageTypeId = some t)
    (hrun : (handle overrides t id).run s = .ok iRet s') :
    (dispatch overrides id).run s =
      if iRet < 0 then
        if iRet = -2 then .error (.thrown (runtimeError
          s!"Message type({(s.message id).messageTypeId}) not supported")) s'
        else .error .null s'
      else .ok id s' := by
  have hget : (getMessage id).run s = .ok (s.message id) s := rfl
  rw [dispatch, run_bind_of_ok hget, h]
  simp only
  rw [run_bind_of_ok hrun]
  split_ifs <;> rfl

theorem handle_override (overrides : Overrides) (s : ChunkStream) (id : ℕ) (t : ControlMsg)
    (h₁ : t ≠ .setChunkSize) (h₂ : passive t = false) :
    (handle overrides t id).run s = .ok (overrides t (s.message id)) s := by
  cases t <;> first | rfl | exact absurd rfl h₁ | cases h₂

/-- Handling a complete message answers its outcome and keeps the receiver in step. -/
theorem dispatch_ready (overrides : Overrides) {s : ChunkStream} {R : Receiver} {id : ℕ}
    {rest : List UInt8} {msg : Msg} {sl : Slot} (ht : Tracks s R) (hr : Ready s rest)
    (hd : Delivered s id msg) (hsl : R.slots id = some sl) (hlegal : msg.Legal)
    (hold : msg.type = ControlMsg.setChunkSize.code → 128 ≤ R.size ∧ R.size ≤ 65536) :
    ∃ s', answer ((dispatch overrides id).run s) = (outcome overrides (s.message id), s') ∧
      Ready s' rest ∧ Tracks s' ⟨msg.sizeAfter R.size, R.slots⟩ := by
  have htype : (s.message id).messageTypeId = msg.type := by rw [← hd.content]; rfl
  obtain ⟨m, hm, hmir⟩ : ∃ m, s.mReceiveChunk id = some m ∧ Mirrors m sl := by
    have := ht.slots id
    rwa [hsl] at this
  have hself := handled_refl hr hm
  cases hcode : ControlMsg.ofCode (s.message id).messageTypeId with
  | none =>
    have hne : msg.type ≠ ControlMsg.setChunkSize.code := by
      intro h0
      rw [htype, h0] at hcode
      cases hcode
    refine ⟨s, ?_, hr, by rw [Msg.sizeAfter, if_neg hne]; exact ht⟩
    rw [dispatch_none overrides s id hcode, outcome, hcode]
    rfl
  | some t =>
    have hmt : msg.type = t.code := by rw [← htype, ofCode_code hcode]
    by_cases hset : t = .setChunkSize
    · subst hset
      obtain ⟨hlen, hlo, hhi⟩ := hlegal hmt
      have hold' : 128 ≤ s.iOtherChunkSize ∧ s.iOtherChunkSize ≤ 65536 := by
        have := hold hmt
        rw [ht.size]
        omega
      have hrun := handleSetChunkSize_run s id
      rw [if_pos hold', request_of_delivered hd hlen hhi] at hrun
      obtain ⟨htr, hmsg⟩ := (handled_requestRead s id rest hr).tracks ht hsl
      have hsize : msg.sizeAfter R.size = value (ofBytes msg.payload) := by
        rw [Msg.sizeAfter, if_pos hmt, List.take_of_length_le (by omega)]
      refine ⟨(requestRead s id).adopt (value (ofBytes msg.payload)), ?_,
        ⟨hr.1, hr.2, hr.3, hr.4⟩, ?_⟩
      · rw [dispatch_some overrides s _ id _ 0 hcode hrun, if_neg (by omega), outcome, hcode]
        simp only [true_or, if_true]
        exact Prod.ext (congrArg Except.ok hmsg) rfl
      · rw [hsize]
        exact ⟨rfl, by simp only; omega, by simp only; omega, htr.slots⟩
    have hne : msg.type ≠ ControlMsg.setChunkSize.code := by
      rw [hmt]
      cases t <;> simp_all [ControlMsg.code]
    have hsame : (⟨msg.sizeAfter R.size, R.slots⟩ : Receiver) = R := by
      rw [Msg.sizeAfter, if_neg hne]
    rw [hsame]
    by_cases hpas : passive t = true
    · obtain ⟨s', hrun, hh⟩ := handle_passive overrides s t id rest hpas hself
      obtain ⟨htr, hmsg⟩ := hh.tracks ht hsl
      refine ⟨s', ?_, hh.ready, htr⟩
      rw [dispatch_some overrides s s' id t 0 hcode hrun, if_neg (by omega), outcome, hcode]
      simp only [hpas, or_true, if_true]
      exact Prod.ext (congrArg Except.ok hmsg) rfl
    · refine ⟨s, ?_, hr, ht⟩
      rw [dispatch_some overrides s s id t _ hcode
        (handle_override overrides s id t hset (by simpa using hpas)), outcome, hcode]
      simp only [if_neg (not_or.mpr ⟨hset, hpas⟩)]
      split_ifs <;> rfl

/-! ## Calls of `receiveMessage` -/

/-- Chunks that complete one message, with the last of them. -/
inductive Completes : Receiver → List Chunk → Receiver → Msg → Prop
  | last {R R' : Receiver} {c : Chunk} {msg : Msg} (h : R.step c = some (R', some msg)) :
      Completes R [c] R' msg
  | more {R R₁ R' : Receiver} {c : Chunk} {cs : List Chunk} {msg : Msg}
      (h : R.step c = some (R₁, none)) (hr : Completes R₁ cs R' msg) :
      Completes R (c::cs) R' msg

/-- Every chunk of the sequence is readable where it arrives. -/
def AllReadable : Receiver → List Chunk → Prop
  | _, [] => True
  | R, c::cs => Readable R c ∧ ∀ R' out, R.step c = some (R', out) → AllReadable R' cs

theorem step_slot {R R' : Receiver} {c : Chunk} {out : Option Msg}
    (h : R.step c = some (R', out)) : ∃ sl, R'.slots c.id = some sl := by
  simp only [Receiver.step, Option.bind_eq_bind, Option.bind_eq_some_iff] at h
  obtain ⟨sl, -, hout⟩ := h
  split_ifs at hout
  · obtain ⟨rfl, -⟩ : _ ∧ _ := by simpa using hout
    exact ⟨_, Function.update_self ..⟩
  · obtain ⟨rfl, -⟩ : _ ∧ _ := by simpa using hout
    exact ⟨_, Function.update_self ..⟩

/-- The chunk loop of `receiveMessage` stops behind the chunk that completes a message. -/
theorem receiveChunks_ready {R R' : Receiver} {cs : List Chunk} {msg : Msg}
    (hc : Completes R cs R' msg) (s : ChunkStream) (rest : List UInt8) (fuel : ℕ)
    (ht : Tracks s R) (hr : Ready s (encodeAll cs ++ rest)) (hread : AllReadable R cs)
    (hf : cs.length ≤ fuel) :
    ∃ s' id, (receiveChunks fuel).run s = .ok id s' ∧ Ready s' rest ∧
      Tracks s' ⟨R.size, R'.slots⟩ ∧ Delivered s' id msg ∧ R'.size = msg.sizeAfter R.size ∧
      ∃ sl, R'.slots id = some sl := by
  induction hc generalizing s fuel with
  | @last R R' c msg h =>
    obtain ⟨fuel, rfl⟩ : ∃ k, fuel = k+1 := Nat.exists_eq_succ_of_ne_zero (by simp at hf; omega)
    rw [encodeAll, List.flatMap_singleton] at hr
    obtain ⟨s', hrun, hr', ht', hd, hsize⟩ := receiveChunk_step ht hr hread.1 h
    have hget : (getMessage c.id).run s' = .ok (s'.message c.id) s' := rfl
    refine ⟨s', c.id, ?_, hr', ht', hd, hsize, step_slot h⟩
    rw [receiveChunks, run_bind_of_ok hrun, run_bind_of_ok hget, hd.complete]
    rfl
  | @more R R₁ R' c cs msg h hrest ih =>
    obtain ⟨fuel, rfl⟩ : ∃ k, fuel = k+1 := Nat.exists_eq_succ_of_ne_zero (by simp at hf; omega)
    rw [encodeAll, List.flatMap_cons, List.append_assoc] at hr
    obtain ⟨s₁, hrun₁, hr₁, ht₁, hcur, hsize₁⟩ := receiveChunk_step ht hr hread.1 h
    have hR₁ : (⟨R.size, R₁.slots⟩ : Receiver) = R₁ := by rw [← hsize₁]
    rw [hR₁] at ht₁
    obtain ⟨s', id, hrun, hr', ht', hd, hsize, hsl⟩ := ih s₁ fuel ht₁ hr₁ (hread.2 R₁ none h)
      (by simpa using hf)
    have hget : (getMessage c.id).run s₁ = .ok (s₁.message c.id) s₁ := rfl
    rw [hsize₁] at ht' hsize
    refine ⟨s', id, ?_, hr', ht', hd, hsize, hsl⟩
    rw [receiveChunks, run_bind_of_ok hrun₁, run_bind_of_ok hget, if_pos hcur, hrun]

theorem encode_length (c : Chunk) : 0 < c.encode.length := by
  simp only [Chunk.encode, List.length_append, pack_length 1 _ (firstBits_length c)]
  omega

theorem encodeAll_length (cs : List Chunk) : cs.length ≤ (encodeAll cs).length := by
  induction cs with
  | nil => rfl
  | cons c cs ih =>
    have := encode_length c
    simp only [encodeAll, List.flatMap_cons, List.length_append, List.length_cons] at ih ⊢
    omega

/-- A receiver whose chunk size a `SET_CHUNK_SIZE` message can still change. -/
def LegalSize (R : Receiver) : Prop := 128 ≤ R.size ∧ R.size ≤ 65536

theorem legal_after {R R' : Receiver} {msg : Msg} (h : LegalSize R) (hm : msg.Legal)
    (hsize : R'.size = msg.sizeAfter R.size) : LegalSize R' := by
  rw [LegalSize, hsize, Msg.sizeAfter]
  split_ifs with ht
  · obtain ⟨hlen, hlo, hhi⟩ := hm ht
    rw [List.take_of_length_le (by omega)]
    exact ⟨hlo, hhi⟩
  · exact h

/-- One call of `receiveMessage` takes the chunks up to the next complete message, and answers
the outcome of that message. -/
theorem receiveMessage_ready (overrides : Overrides) {R R' : Receiver} {cs : List Chunk}
    {msg : Msg} (hc : Completes R cs R' msg) (s : ChunkStream) (rest : List UInt8)
    (ht : Tracks s R) (hr : Ready s (encodeAll cs ++ rest)) (hread : AllReadable R cs)
    (hlegal : msg.Legal) (hold : msg.type = ControlMsg.setChunkSize.code → LegalSize R) :
    ∃ s' m, msgOf m = msg ∧
      answer ((receiveMessage overrides).run s) = (outcome overrides m, s') ∧
      Ready s' rest ∧ Tracks s' R' := by
  have hfuel : cs.length ≤ (pending s.pConnection).length+1 := by
    have := encodeAll_length cs
    rw [hr.coming, List.length_append]
    omega
  obtain ⟨s₁, id, hrun, hr₁, ht₁, hd, hsize, sl, hsl⟩ :=
    receiveChunks_ready hc s rest _ ht hr hread hfuel
  obtain ⟨s', hans, hr', ht'⟩ := dispatch_ready overrides ht₁ hr₁ hd hsl hlegal hold
  refine ⟨s', s₁.message id, hd.content, ?_, hr', ?_⟩
  · rw [receiveMessage, run_get_bind, run_bind_of_ok hrun, hans]
  · rwa [← hsize] at ht'

/-- Repeated calls, each from the state the one before left. -/
def receiveAll (overrides : Overrides) : ℕ → ChunkStream → List (Except Stop Msg) × ChunkStream
  | 0, s => ([], s)
  | n+1, s =>
    let (r, s) := answer ((receiveMessage overrides).run s)
    let (rs, s) := receiveAll overrides n s
    (r::rs, s)

/-- Each answer is the outcome of a message with the given content. -/
def Answers (overrides : Overrides) : List (Except Stop Msg) → List Msg → Prop :=
  List.Forall₂ fun r msg => ∃ m, msgOf m = msg ∧ r = outcome overrides m

/-- Chunks that complete the messages `msgs` one after the other, and end with the last. -/
inductive Feeds : Receiver → List Chunk → List Msg → Receiver → Prop
  | nil (R : Receiver) : Feeds R [] [] R
  | cons {R R₁ R' : Receiver} {cs cs' : List Chunk} {msg : Msg} {msgs : List Msg}
      (h : Completes R cs R₁ msg) (hr : Feeds R₁ cs' msgs R') :
      Feeds R (cs++cs') (msg::msgs) R'

theorem completes_run {R R' : Receiver} {cs : List Chunk} {msg : Msg}
    (h : Completes R cs R' msg) : R.run cs = some (R', [msg]) := by
  induction h with
  | last h => simp [Receiver.run, h]
  | more h _ ih => exact run_cons h ih

theorem readable_append {R R' : Receiver} {xs ys : List Chunk} {msgs : List Msg}
    (hrun : R.run xs = some (R', msgs)) (h : AllReadable R (xs++ys)) :
    AllReadable R xs ∧ AllReadable R' ys := by
  induction xs generalizing R msgs with
  | nil =>
    obtain ⟨rfl, -⟩ : R = R' ∧ [] = msgs := by simpa [Receiver.run] using hrun
    exact ⟨trivial, h⟩
  | cons c cs ih =>
    simp only [Receiver.run, Option.bind_eq_bind, Option.bind_eq_some_iff, Option.some.injEq,
      Prod.mk.injEq] at hrun
    obtain ⟨⟨R₁, m⟩, hstep, ⟨R₂, ms⟩, hcs, rfl, -⟩ := hrun
    obtain ⟨hread, hnext⟩ := h
    obtain ⟨hx, hy⟩ := ih hcs (hnext R₁ m hstep)
    refine ⟨⟨hread, fun R'' out ho => ?_⟩, hy⟩
    rw [hstep] at ho
    obtain ⟨rfl, -⟩ : R₁ = R'' ∧ m = out := by simpa using ho
    exact hx

/-- The chunk size may change as long as every size announced is legal. -/
def Announces (R : Receiver) (msgs : List Msg) : Prop := LegalSize R ∧ ∀ msg ∈ msgs, msg.Legal

/-- Repeated calls answer the outcomes of the messages, in order, and take their chunks. -/
theorem receiveAll_feeds (overrides : Overrides) {R R' : Receiver} {cs : List Chunk}
    {msgs : List Msg} (hf : Feeds R cs msgs R') (s : ChunkStream) (rest : List UInt8)
    (ht : Tracks s R) (hr : Ready s (encodeAll cs ++ rest)) (hread : AllReadable R cs)
    (ha : Announces R msgs) :
    ∃ rs s', receiveAll overrides msgs.length s = (rs, s') ∧ Answers overrides rs msgs ∧
      Ready s' rest ∧ Tracks s' R' := by
  induction hf generalizing s with
  | nil R => exact ⟨[], s, rfl, .nil, hr, ht⟩
  | @cons R R₁ R' cs cs' msg msgs h hrest ih =>
    obtain ⟨hsize, hlegal⟩ := ha
    obtain ⟨hr₁, hr₂⟩ := readable_append (completes_run h) hread
    rw [encodeAll, List.flatMap_append, List.append_assoc] at hr
    have hmsg := hlegal msg (List.mem_cons_self ..)
    obtain ⟨s₁, m, hm, hans, hready, htr⟩ :=
      receiveMessage_ready overrides h s _ ht hr hr₁ hmsg (fun _ => hsize)
    have hsize₁ : LegalSize R₁ := by
      obtain ⟨-, -, -, -, -, -, hR₁, -⟩ := receiveChunks_ready h s _ _ ht hr hr₁ (le_refl _)
      exact legal_after hsize hmsg hR₁
    obtain ⟨rs, s', hall, hrs, hready', htr'⟩ := ih s₁ htr hready hr₂
      ⟨hsize₁, fun m' hm' => hlegal m' (List.mem_cons_of_mem _ hm')⟩
    refine ⟨outcome overrides m::rs, s', ?_, .cons ⟨m, hm, rfl⟩ hrs, hready', htr'⟩
    simp only [List.length_cons, receiveAll, hans, hall]

end Sirannon.RTMPRefinement
