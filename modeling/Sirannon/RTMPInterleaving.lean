import Sirannon.RTMPReassembly
import Sirannon.RTMPRefinement

/-!
# Interleaved chunk streams

What senders put on their chunk streams, and what a receiver makes of any
interleaving of it. Each chunk carries the message it completes, if it does,
so that the messages of an interleaving are read off it in order.
-/

set_option autoImplicit false

namespace Sirannon.RTMPInterleaving
open Connection RTMPChunkStream RTMPChunkFormat RTMPChunkReceive RTMPRefinement

/-! ## Senders -/

/-- A message as it is sent: header, time where it does not fit the header, payload in pieces. -/
structure Sent where
  basic : BasicHeader
  header : ChunkHeader
  extended : ℕ
  pieces : List (List UInt8)

def Sent.payload (m : Sent) : List UInt8 := m.pieces.flatten

/-- The 24-bit time field of a header. -/
def timeBits : ChunkHeader → Option ℕ
  | .full t _ _ _ => some t
  | .lengthAndDelta d _ _ => some d
  | .deltaOnly d => some d
  | .inherit => none

/-- The delta in force at the first of the messages, which come last to first. -/
def delta : List Sent → ℤ
  | [] => 0
  | m::earlier => match m.header with
    | .full _ _ _ _ => 0
    | .lengthAndDelta d _ _ => timeField d m.extended
    | .deltaOnly d => timeField d m.extended
    | .inherit => delta earlier

/-- The last absolute time, and all deltas since, inherited ones included. -/
def time : List Sent → ℤ
  | [] => 0
  | m::earlier => match m.header with
    | .full t _ _ _ => timeField t m.extended
    | _ => time earlier + delta (m::earlier)

/-- The extended time is written just where the field in force is all ones. -/
def Sent.extension (m : Sent) (slot : Option Slot) : Option ℕ :=
  match timeBits m.header with
  | some f => if f = 0xFFFFFF then some m.extended else none
  | none => slot.bind Slot.extension

/-- The header in force for the message, inherited fields filled in. -/
def Sent.heading (m : Sent) (slot : Option Slot) : Option Slot :=
  openSlot slot ⟨m.basic, m.header, m.extension slot, []⟩

def Sent.chunks (m : Sent) (slot : Option Slot) : List Chunk :=
  match m.pieces with
  | [] => []
  | p::ps => ⟨m.basic, m.header, m.extension slot, p⟩ ::
      ps.map fun p => ⟨m.basic, .inherit, m.extension slot, p⟩

abbrev Tagged := Chunk × Option Msg

/-- The last chunk completes the message. -/
def tagLast (msg : Msg) : List Chunk → List Tagged
  | [] => []
  | [c] => [(c, some msg)]
  | c::c'::cs => (c, none) :: tagLast msg (c'::cs)

/-- The header tells the length of the payload, and `ok` holds of the header in force. -/
structure Sent.Proper (ok : Slot → Prop) (id : ℕ) (m : Sent) (s : Slot) : Prop where
  id : m.basic.id = id
  fits : m.header.Fits
  pieces : m.pieces ≠ []
  filled : [] ∈ m.pieces → m.pieces = [[]]
  length : m.payload.length = s.length
  ok : ok s

def Sent.msg (id : ℕ) (m : Sent) (s : Slot) (earlier : List Sent) : Msg :=
  ⟨id, s.type, s.streamId, time (m::earlier), m.payload⟩

/-- What sending the messages puts on chunk stream `id`, behind the messages `earlier`. -/
def Sends (ok : Slot → Prop) (id : ℕ) : Option Slot → List Sent → List Sent → List Tagged → Prop
  | _, _, [], ts => ts = []
  | slot, earlier, m::ms, ts => ∃ s rest, m.heading slot = some s ∧ m.Proper ok id s ∧
      ts = tagLast (m.msg id s earlier) (m.chunks slot) ++ rest ∧
      Sends ok id (some s.taken) (m::earlier) ms rest

/-- Every chunk is cut at the size in force; a `SET_CHUNK_SIZE` message changes it. -/
def Cut : ℕ → List Tagged → Prop
  | _, [] => True
  | size, (c, none)::ts => c.payload.length = size ∧ Cut size ts
  | size, (c, some msg)::ts => c.payload.length ≤ size ∧ Cut (msg.sizeAfter size) ts

/-- An interleaving of what is sent on all chunk streams, the messages `sent id` on each. -/
structure Interleaving (ok : Slot → Prop) (size : ℕ) (sent : ℕ → List Sent) (ts : List Tagged) :
    Prop where
  streams : ∀ id, Sends ok id none [] (sent id) (ts.filter fun t => t.1.id = id)
  cut : Cut size ts
  legal : ∀ msg ∈ ts.filterMap Prod.snd, msg.Legal

/-! ## One chunk stream -/

/-- The chunks of one chunk stream, judged one by one against its slot. -/
def Stream (id : ℕ) : Option Slot → List Tagged → Prop
  | slot, [] => ∀ s, slot = some s → s.got = []
  | slot, (c, tag)::ts => c.id = id ∧ c.header.Fits ∧ ∃ s, openSlot slot c = some s ∧
      c.extended = s.extension ∧ s.Plain ∧ s.length ≤ maxMessageSize ∧
      match tag with
      | none => s.got.length+c.payload.length < s.length ∧
          Stream id (some { s with got := s.got ++ c.payload }) ts
      | some msg => s.got.length+c.payload.length = s.length ∧
          msg = Slot.msg { s with got := s.got ++ c.payload } id ∧
          Stream id (some (Slot.taken { s with got := s.got ++ c.payload })) ts

/-- The pieces behind the first one. -/
theorem continued_stream {id : ℕ} {s : Slot} {msg : Msg} {rest : List Tagged} (basic : BasicHeader)
    (hid : basic.id = id) (hplain : s.Plain) (hmax : s.length ≤ maxMessageSize)
    (ps : List (List UInt8)) (got : List UInt8) (hps : ps ≠ []) (hfull : [] ∉ ps)
    (hlen : (got ++ ps.flatten).length = s.length)
    (hmsg : msg = Slot.msg { s with got := got ++ ps.flatten } id)
    (hrest : Stream id (some (Slot.taken { s with got := got ++ ps.flatten })) rest) :
    Stream id (some { s with got := got })
      (tagLast msg (ps.map fun p => ⟨basic, .inherit, s.extension, p⟩) ++ rest) := by
  have hfits : ChunkHeader.inherit.Fits := by simp [ChunkHeader.Fits, ChunkHeader.fields]
  induction ps generalizing got with
  | nil => exact absurd rfl hps
  | cons p ps ih =>
    cases ps with
    | nil =>
      simp only [List.flatten_cons, List.flatten_nil, List.append_nil] at hlen hmsg hrest
      refine ⟨hid, hfits, _, rfl, rfl, hplain, hmax, ?_, hmsg, hrest⟩
      rw [← hlen, List.length_append]
    | cons q qs =>
      rw [List.flatten_cons, ← List.append_assoc] at hlen hmsg hrest
      refine ⟨hid, hfits, _, rfl, rfl, hplain, hmax, ?_, ?_⟩
      · have hq : q ≠ [] := fun h => hfull (by simp [h])
        have hpos : 0 < q.length := List.length_pos_iff.mpr hq
        rw [← hlen]
        simp only [List.length_append, List.flatten_cons]
        omega
      · exact ih (got++p) (by simp) (fun h => hfull (List.mem_cons_of_mem _ h)) hlen hmsg hrest

/-- The slot between messages keeps the time of the last one, and the delta it left. -/
def Clock (slot : Option Slot) (earlier : List Sent) : Prop :=
  ∀ s, slot = some s → s.got = [] ∧ s.timestamp = time earlier ∧ s.delta = delta earlier

/-- The header in force opens an idle slot and carries the time of the message. -/
structure Opened (m : Sent) (earlier : List Sent) (slot : Option Slot) (s : Slot) : Prop where
  idle : s.got = []
  extension : m.extension slot = s.extension
  delta : s.delta = delta (m::earlier)
  time : s.timestamp+s.delta = time (m::earlier)

theorem timeField_extension (f e : ℕ) :
    timeField f ((if f = 0xFFFFFF then some e else none).getD 0) = timeField f e := by
  by_cases hf : f = 0xFFFFFF
  · rw [if_pos hf]
    rfl
  · rw [timeField, timeField, if_neg hf, if_neg hf]

theorem extension_of_field {s : Slot} {f e : ℕ} (hf : s.field = f)
    (he : s.extended = (if f = 0xFFFFFF then some e else none).getD 0) :
    (if f = 0xFFFFFF then some e else none) = s.extension := by
  rw [Slot.extension, hf, he]
  split_ifs <;> rfl

theorem heading_opened {m : Sent} {earlier : List Sent} {slot : Option Slot} {s : Slot}
    (hc : Clock slot earlier) (h : m.heading slot = some s) : Opened m earlier slot s := by
  cases hh : m.header with
  | full t l ty sid =>
    have hs : s = ⟨timeField t ((if t = 0xFFFFFF then some m.extended else none).getD 0), 0, t, true,
        (if t = 0xFFFFFF then some m.extended else none).getD 0, l, ty, sid, []⟩ := by
      cases slot with
      | none => simpa [Sent.heading, Sent.extension, openSlot, hh, timeBits] using h.symm
      | some s₀ =>
        have hg := (hc s₀ rfl).1
        simpa [Sent.heading, Sent.extension, openSlot, hh, timeBits, hg] using h.symm
    subst hs
    constructor
    · rfl
    · simp only [Sent.extension, hh, timeBits]
      exact extension_of_field rfl rfl
    · simp only [delta, hh]
    · simp only [time, hh, timeField_extension, add_zero]
  | lengthAndDelta d l ty =>
    cases slot with
    | none => simp [Sent.heading, openSlot, hh] at h
    | some s₀ =>
      obtain ⟨hg, ht, -⟩ := hc s₀ rfl
      simp only [Sent.heading, Sent.extension, openSlot, hh, timeBits, hg, if_true,
        Option.some.injEq] at h
      subst h
      constructor
      · rfl
      · simp only [Sent.extension, hh, timeBits]
        exact extension_of_field rfl rfl
      · simp only [delta, hh, timeField_extension]
      · simp only [time, delta, hh, timeField_extension, ht]
  | deltaOnly d =>
    cases slot with
    | none => simp [Sent.heading, openSlot, hh] at h
    | some s₀ =>
      obtain ⟨hg, ht, -⟩ := hc s₀ rfl
      simp only [Sent.heading, Sent.extension, openSlot, hh, timeBits, hg, if_true,
        Option.some.injEq] at h
      subst h
      constructor
      · rfl
      · simp only [Sent.extension, hh, timeBits]
        exact extension_of_field rfl rfl
      · simp only [delta, hh, timeField_extension]
      · simp only [time, delta, hh, timeField_extension, ht]
  | inherit =>
    cases slot with
    | none => simp [Sent.heading, openSlot, hh] at h
    | some s₀ =>
      obtain ⟨hg, ht, hd⟩ := hc s₀ rfl
      simp only [Sent.heading, openSlot, hh, Option.some.injEq] at h
      subst h
      constructor
      · exact hg
      · simp only [Sent.extension, hh, timeBits, Option.bind_some]
      · simp only [delta, hh, hd]
      · simp only [time, delta, hh, ht, hd]

/-- What the receiver needs of the header in force. -/
def Plainly (s : Slot) : Prop := s.Plain ∧ s.length ≤ maxMessageSize

theorem sent_stream {id : ℕ} {m : Sent} {earlier : List Sent} {slot : Option Slot} {s : Slot}
    {rest : List Tagged} (hc : Clock slot earlier) (h : m.heading slot = some s)
    (hm : m.Proper Plainly id s) (hrest : Stream id (some s.taken) rest) :
    Stream id slot (tagLast (m.msg id s earlier) (m.chunks slot) ++ rest) := by
  obtain ⟨hidle, hext, hdelta, htime⟩ := heading_opened hc h
  obtain ⟨hplain, hmax⟩ := hm.ok
  have hmsg : m.msg id s earlier = Slot.msg { s with got := m.payload } id := by
    simp only [Sent.msg, Slot.msg, htime]
  cases hp : m.pieces with
  | nil => exact absurd hp hm.pieces
  | cons p ps =>
    have hopen : openSlot slot ⟨m.basic, m.header, m.extension slot, p⟩ = some s := h
    have hpay : m.payload = p ++ ps.flatten := by rw [Sent.payload, hp, List.flatten_cons]
    have hlen := hm.length
    rw [hpay] at hlen hmsg
    rw [Sent.chunks, hp]
    simp only
    cases ps with
    | nil =>
      rw [List.flatten_nil, List.append_nil] at hlen hmsg
      refine ⟨hm.id, hm.fits, s, hopen, hext, hplain, hmax, ?_, ?_, hrest⟩
      · simpa [hidle] using hlen
      · rw [hmsg, hidle, List.nil_append]
    | cons q qs =>
      have hfull : [] ∉ q::qs := by
        intro hmem
        have := hm.filled (by rw [hp]; exact List.mem_cons_of_mem _ hmem)
        rw [hp] at this
        simp at this
      have hq : 0 < (q::qs).flatten.length := by
        have : q ≠ [] := fun h => hfull (by simp [h])
        have := List.length_pos_iff.mpr this
        simp only [List.flatten_cons, List.length_append]
        omega
      refine ⟨hm.id, hm.fits, s, hopen, hext, hplain, hmax, ?_, ?_⟩
      · rw [hidle, ← hlen, List.length_append]
        simp only [List.length_nil]
        omega
      · rw [hidle, List.nil_append, hext]
        exact continued_stream m.basic hm.id hplain hmax (q::qs) p (by simp) hfull hlen hmsg hrest

theorem sends_stream (id : ℕ) (sent : List Sent) {slot : Option Slot} {earlier : List Sent}
    {ts : List Tagged} (hc : Clock slot earlier) (h : Sends Plainly id slot earlier sent ts) :
    Stream id slot ts := by
  induction sent generalizing slot earlier ts with
  | nil =>
    have hts : ts = [] := h
    subst hts
    exact fun s hs => (hc s hs).1
  | cons m ms ih =>
    obtain ⟨s, rest, hs, hm, rfl, hrest⟩ := h
    have hopened := heading_opened hc hs
    apply sent_stream hc hs hm
    apply ih _ hrest
    intro s' hs'
    obtain rfl := Option.some.inj hs'
    exact ⟨rfl, hopened.time, hopened.delta⟩

/-! ## All chunk streams -/

theorem accept_of_open (size : ℕ) {slot : Option Slot} {c : Chunk} {s : Slot}
    (hopen : openSlot slot c = some s) (hext : c.extended = s.extension)
    (hmax : s.length ≤ maxMessageSize)
    (hlen : c.payload.length = min (s.length-s.got.length) size) :
    accept size slot c = some { s with got := s.got ++ c.payload } := by
  simp only [accept, hopen, Option.bind_eq_bind, Option.bind_some]
  rw [if_pos ⟨hext, hmax, hlen⟩]

/-- The receiver takes the chunk and completes the message it is tagged with. -/
structure Steps (R : Receiver) (c : Chunk) (tag : Option Msg) (R' : Receiver) : Prop where
  step : R.step c = some (R', tag)
  readable : Readable R c
  size : R'.size = (tag.map fun msg => msg.sizeAfter R.size).getD R.size
  others : ∀ id, id ≠ c.id → R'.slots id = R.slots id

theorem step_of_stream {R : Receiver} {c : Chunk} {tag : Option Msg} {ts us : List Tagged}
    (h : Stream c.id (R.slots c.id) ((c, tag)::ts)) (hcut : Cut R.size ((c, tag)::us)) :
    ∃ R', Steps R c tag R' ∧ Stream c.id (R'.slots c.id) ts ∧ Cut R'.size us ∧
      (tag = none → 0 < R.size → ts ≠ []) := by
  obtain ⟨-, hfits, s, hopen, hext, hplain, hmax, htag⟩ := h
  have hread : Readable R c := by
    refine ⟨hfits, fun sl hsl => ?_⟩
    rw [hopen] at hsl
    exact Option.some.inj hsl ▸ hplain
  cases tag with
  | none =>
    obtain ⟨hlt, hrest⟩ := htag
    obtain ⟨hlen, hcut⟩ := hcut
    have hacc := accept_of_open R.size hopen hext hmax (by omega)
    have hfin : Slot.finished { s with got := s.got ++ c.payload } = false := by
      simp only [Slot.finished, List.length_append, decide_eq_false_iff_not]
      omega
    refine ⟨⟨R.size, Function.update R.slots c.id (some { s with got := s.got ++ c.payload })⟩,
      ⟨?_, hread, rfl, fun id hid => Function.update_of_ne hid ..⟩, ?_, hcut, ?_⟩
    · simp only [Receiver.step, hacc, Option.bind_eq_bind, Option.bind_some, hfin,
        Bool.false_eq_true, if_false]
    · simp only [Function.update_self]
      exact hrest
    · rintro - hpos rfl
      have hgot : s.got ++ c.payload = [] := hrest _ rfl
      have := congrArg List.length hgot
      simp only [List.length_append, List.length_nil] at this
      omega
  | some msg =>
    obtain ⟨hlast, hmsg, hrest⟩ := htag
    obtain ⟨hlen, hcut⟩ := hcut
    have hacc := accept_of_open R.size hopen hext hmax (by omega)
    have hfin : Slot.finished { s with got := s.got ++ c.payload } = true := by
      simp only [Slot.finished, List.length_append, decide_eq_true_eq]
      omega
    refine ⟨⟨msg.sizeAfter R.size, Function.update R.slots c.id
      (some (Slot.taken { s with got := s.got ++ c.payload }))⟩,
      ⟨?_, hread, rfl, fun id hid => Function.update_of_ne hid ..⟩, ?_, hcut,
      fun h => absurd h (by simp)⟩
    · simp only [Receiver.step, hacc, Option.bind_eq_bind, Option.bind_some, hfin, if_true, ← hmsg]
    · simp only [Function.update_self]
      exact hrest

/-- An interleaving whose chunk streams are in order feeds the receiver its messages. -/
theorem feeds_of_streams (ts : List Tagged) {R : Receiver}
    (hs : ∀ id, Stream id (R.slots id) (ts.filter fun t => t.1.id = id)) (hcut : Cut R.size ts)
    (hsize : LegalSize R) (hlegal : ∀ msg ∈ ts.filterMap Prod.snd, msg.Legal) :
    ∃ R', Feeds R (ts.map Prod.fst) (ts.filterMap Prod.snd) R' ∧
      AllReadable R (ts.map Prod.fst) := by
  induction ts generalizing R with
  | nil => exact ⟨R, .nil R, trivial⟩
  | cons t ts ih =>
    obtain ⟨c, tag⟩ := t
    have hown := hs c.id
    rw [List.filter_cons_of_pos (by simp)] at hown
    obtain ⟨R₁, ⟨hstep, hread, hR₁, hother⟩, hown₁, hcut₁, hmore⟩ := step_of_stream hown hcut
    have hs₁ : ∀ id, Stream id (R₁.slots id) (ts.filter fun t => t.1.id = id) := by
      intro id
      by_cases hid : id = c.id
      · subst hid
        exact hown₁
      · have := hs id
        rw [List.filter_cons_of_neg (by simpa using Ne.symm hid)] at this
        rw [hother id hid]
        exact this
    have hall : ∀ {cs}, AllReadable R₁ cs → AllReadable R (c::cs) := by
      refine fun h => ⟨hread, fun R'' out ho => ?_⟩
      obtain ⟨rfl, -⟩ : R₁ = R'' ∧ tag = out := by simpa using hstep.symm.trans ho
      exact h
    cases tag with
    | none =>
      have hsize₁ : LegalSize R₁ := by
        rw [LegalSize, hR₁]
        exact hsize
      obtain ⟨R', hf, hreads⟩ := ih hs₁ hcut₁ hsize₁ hlegal
      refine ⟨R', ?_, hall hreads⟩
      have hne : ts ≠ [] := by
        rintro rfl
        exact hmore rfl (by have := hsize.1; omega) rfl
      rw [List.map_cons, List.filterMap_cons_none rfl]
      generalize hms : ts.filterMap Prod.snd = ms at hf
      generalize hcs : ts.map Prod.fst = cs at hf
      cases hf with
      | nil => exact absurd (List.map_eq_nil_iff.mp hcs) hne
      | cons h hr => exact .cons (.more hstep h) hr
    | some msg =>
      have hmsg := hlegal msg (by simp)
      have hsize₁ := legal_after hsize hmsg hR₁
      obtain ⟨R', hf, hreads⟩ := ih hs₁ hcut₁ hsize₁ fun m hm => hlegal m (by simp [hm])
      exact ⟨R', .cons (.last hstep) hf, hall hreads⟩

/-! ## The receiver -/

/-- A receiver that has received nothing yet, to which `bs` is on its way. -/
structure Fresh (p : ChunkStream) (size : ℕ) (bs : List UInt8) : Prop where
  ready : Ready p bs
  legal : 128 ≤ size ∧ size ≤ 65536
  chunk : p.iOtherChunkSize = size
  messages : ∀ id, p.mReceiveChunk id = none

/-- Repeated calls answer the messages in the order of their last chunks, and take their chunks. -/
def Receives (overrides : Overrides) (p : ChunkStream) (rest : List UInt8) (ts : List Tagged) :
    Prop :=
  ∃ rs p', receiveAll overrides (ts.filterMap Prod.snd).length p = (rs, p') ∧
    Answers overrides rs (ts.filterMap Prod.snd) ∧ pending p'.pConnection = rest

def expecting (bs : List UInt8) : ChunkStream :=
  ChunkStream.new ⟨true, true, [.bytes bs], [], [], ""⟩ fun _ => ⟨0, 0, 0⟩

theorem expecting_fresh (bs : List UInt8) : Fresh (expecting bs) 128 bs := by
  refine ⟨⟨?_, ?_, ?_, by simp [expecting, ChunkStream.new]⟩, by simp, rfl, fun _ => rfl⟩
  · intro a ha
    exact .inl ⟨bs, List.mem_singleton.mp ha⟩
  · simp [pending, expecting, ChunkStream.new, Arrival.data]
  · intro k hk
    cases hk

def audio : Sent := ⟨.short 3 (by decide), .full 5 1 8 0, 0, [[10]]⟩

def audioNext : Sent := ⟨.short 3 (by decide), .deltaOnly 2, 0, [[11]]⟩

def video : Sent :=
  ⟨.short 4 (by decide), .full 0xFFFFFF 130 9 0, 0x1000000, [List.replicate 128 1, [2, 3]]⟩

def sentShort : ℕ → List Sent
  | 3 => [audio, audioNext]
  | 4 => [video]
  | _ => []

/-- A video message that begins before and ends between two audio messages. -/
def interleavedShort : List Tagged :=
  [(⟨.short 4 (by decide), .full 0xFFFFFF 130 9 0, some 0x1000000, List.replicate 128 1⟩, none),
    (⟨.short 3 (by decide), .full 5 1 8 0, none, [10]⟩, some ⟨3, 8, 0, 5, [10]⟩),
    (⟨.short 4 (by decide), .inherit, some 0x1000000, [2, 3]⟩,
      some ⟨4, 9, 0, 0x1000000, List.replicate 128 1 ++ [2, 3]⟩),
    (⟨.short 3 (by decide), .deltaOnly 2, none, [11]⟩, some ⟨3, 8, 0, 7, [11]⟩)]

theorem interleavedShort_ok : Interleaving Plainly 128 sentShort interleavedShort := by
  constructor
  · intro id
    by_cases h3 : id = 3
    · subst h3
      refine ⟨⟨5, 0, 5, true, 0, 1, 8, 0, []⟩, [interleavedShort[3]], rfl, ?_, rfl,
        ⟨5, 2, 2, false, 0, 1, 8, 0, []⟩, [], rfl, ?_, rfl, rfl⟩
      · exact ⟨rfl, by decide, by decide, by decide, rfl, by decide, by decide⟩
      · exact ⟨rfl, by decide, by decide, by decide, rfl, by decide, by decide⟩
    by_cases h4 : id = 4
    · subst h4
      refine ⟨⟨0x1000000, 0, 0xFFFFFF, true, 0x1000000, 130, 9, 0, []⟩, [], rfl, ?_, rfl, rfl⟩
      exact ⟨rfl, by decide, by decide, by decide, rfl, by decide, by decide⟩
    · have hsent : sentShort id = [] := by
        unfold sentShort
        split
        · exact absurd rfl h3
        · exact absurd rfl h4
        · rfl
      have hnone : (interleavedShort.filter fun t => t.1.id = id) = [] := by
        have h3' : ¬ 3 = id := fun h => h3 h.symm
        have h4' : ¬ 4 = id := fun h => h4 h.symm
        simp [interleavedShort, Chunk.id, BasicHeader.id, h3', h4']
      rw [hsent, hnone]
      rfl
  · simp [interleavedShort, Cut, Msg.sizeAfter, ControlMsg.code]
  · simp [interleavedShort, Msg.Legal, ControlMsg.code]

/-- A message of full pieces and a last one. -/
def even (size k last : ℕ) : Sent := ⟨.short 3 (by decide), .full 0 (size*(k+1)+last) 7 0, 0,
  List.replicate (k+1) (List.replicate size 0) ++ [List.replicate last 0]⟩

def evenMsg (size k last : ℕ) : Msg := ⟨3, 7, 0, 0, (even size k last).payload⟩

def evenTagged (size k last : ℕ) : List Tagged :=
  tagLast (evenMsg size k last) ((even size k last).chunks none)

def evenSent (size k last : ℕ) (id : ℕ) : List Sent := if id = 3 then [even size k last] else []

theorem even_length (size k last : ℕ) : (even size k last).payload.length = size*(k+1)+last := by
  rw [Sent.payload, even, List.flatten_append, List.length_append, List.length_flatten,
    List.map_replicate, List.sum_replicate, List.length_replicate, List.flatten_singleton,
    List.length_replicate, smul_eq_mul, Nat.mul_comm]

theorem tagLast_concat (msg : Msg) (cs : List Chunk) (c : Chunk) :
    tagLast msg (cs ++ [c]) = cs.map (fun c => (c, none)) ++ [(c, some msg)] := by
  induction cs with
  | nil => rfl
  | cons c' cs ih =>
    cases cs with
    | nil => rfl
    | cons c'' cs =>
      rw [List.cons_append, List.cons_append, tagLast, ← List.cons_append, ih]
      rfl

theorem even_tagged (size k last : ℕ) : ∃ (cs : List Chunk) (c : Chunk),
    evenTagged size k last = cs.map (fun c => (c, none)) ++ [(c, some (evenMsg size k last))] ∧
      (∀ c ∈ cs, c.id = 3 ∧ c.payload.length = size) ∧ c.id = 3 ∧ c.payload.length = last := by
  have hchunks : (even size k last).chunks none =
      (⟨.short 3 (by decide), .full 0 (size*(k+1)+last) 7 0, none, List.replicate size 0⟩ ::
        List.replicate k ⟨.short 3 (by decide), .inherit, none, List.replicate size 0⟩) ++
      [⟨.short 3 (by decide), .inherit, none, List.replicate last 0⟩] := by
    rw [Sent.chunks, even, List.replicate_succ]
    simp only [List.cons_append, List.map_append, List.map_replicate]
    rfl
  refine ⟨_, _, (congrArg _ hchunks).trans (tagLast_concat _ _ _), ?_, rfl, List.length_replicate⟩
  intro c hc
  rcases List.mem_cons.mp hc with rfl | hc
  · exact ⟨rfl, List.length_replicate⟩
  · rw [List.eq_of_mem_replicate hc]
    exact ⟨rfl, List.length_replicate⟩

theorem cut_concat (size : ℕ) (cs : List Chunk) (c : Chunk) (msg : Msg)
    (h : ∀ c ∈ cs, c.payload.length = size) (hc : c.payload.length ≤ size) :
    Cut size (cs.map (fun c => (c, none)) ++ [(c, some msg)]) := by
  induction cs with
  | nil => exact ⟨hc, trivial⟩
  | cons c' cs ih =>
    exact ⟨h c' (List.mem_cons_self ..), ih fun c hc => h c (List.mem_cons_of_mem _ hc)⟩

theorem even_messages (size k last : ℕ) :
    (evenTagged size k last).filterMap Prod.snd = [evenMsg size k last] := by
  obtain ⟨cs, c, htags, -⟩ := even_tagged size k last
  have hnone : (cs.map fun c => ((c, none) : Tagged)).filterMap Prod.snd = [] := by
    rw [List.filterMap_map, List.filterMap_eq_nil_iff]
    exact fun _ _ => rfl
  rw [htags, List.filterMap_append, hnone]
  rfl

theorem even_interleaving (size k last : ℕ) (hsize : 0 < size) (hlast : 0 < last ∧ last ≤ size)
    (hlen : size*(k+1)+last < 2^24) :
    Interleaving (fun _ => True) size (evenSent size k last) (evenTagged size k last) := by
  obtain ⟨cs, c, htags, hcs, hc, hclen⟩ := even_tagged size k last
  have hall : ∀ t ∈ evenTagged size k last, t.1.id = 3 := by
    intro t ht
    rw [htags, List.mem_append, List.mem_map, List.mem_singleton] at ht
    obtain ⟨c', hc', rfl⟩ | rfl := ht
    · exact (hcs c' hc').1
    · exact hc
  constructor
  · intro id
    by_cases hid : id = 3
    · subst hid
      have hfilter : (evenTagged size k last).filter (fun t => t.1.id = 3) =
          evenTagged size k last :=
        List.filter_eq_self.mpr fun t ht => decide_eq_true (hall t ht)
      rw [hfilter, evenSent, if_pos rfl]
      refine ⟨⟨0, 0, 0, true, 0, size*(k+1)+last, 7, 0, []⟩, [], rfl, ?_, ?_, rfl⟩
      · refine ⟨rfl, ?_, ?_, ?_, even_length size k last, trivial⟩
        · intro f hf
          simp only [even, ChunkHeader.fields, List.mem_cons, List.not_mem_nil, or_false] at hf
          rcases hf with rfl | rfl | rfl | rfl
          · simp
          · exact hlen
          · simp
          · simp
        · simp [even]
        · intro hmem
          rw [even, List.mem_append, List.mem_singleton] at hmem
          rcases hmem with hmem | hmem
          · have := congrArg List.length (List.eq_of_mem_replicate hmem)
            rw [List.length_nil, List.length_replicate] at this
            omega
          · have := congrArg List.length hmem
            rw [List.length_nil, List.length_replicate] at this
            omega
      · rw [List.append_nil]
        rfl
    · have hnone : (evenTagged size k last).filter (fun t => t.1.id = id) = [] := by
        rw [List.filter_eq_nil_iff]
        intro t ht
        rw [hall t ht, decide_eq_true_iff]
        exact fun h => hid h.symm
      rw [hnone, evenSent, if_neg hid]
      rfl
  · rw [htags]
    exact cut_concat size cs c _ (fun c hc => (hcs c hc).2) (by omega)
  · intro msg hmsg
    rw [even_messages, List.mem_singleton] at hmsg
    subst hmsg
    intro h
    exact absurd h (by simp [evenMsg, ControlMsg.code])

/-- A message longer than the largest is never returned. -/
theorem even_lost (size k last : ℕ) (h : maxMessageSize < size*(k+1)+last) (p : ChunkStream)
    (hp : RTMPReassembly.Sound p) (rest : List UInt8) :
    ¬ Receives unimplemented p rest (evenTagged size k last) := by
  rintro ⟨rs, p', hall, hans, -⟩
  rw [even_messages] at hall hans
  obtain ⟨r, hr, rfl⟩ : ∃ r, (∃ m, msgOf m = evenMsg size k last ∧ r = outcome unimplemented m) ∧
      rs = [r] := by
    cases hans with
    | cons hr hnil =>
      cases hnil
      exact ⟨_, hr, rfl⟩
  obtain ⟨m, hm, hr⟩ := hr
  have hout : outcome unimplemented m = .ok (evenMsg size k last) := by
    have htype : m.messageTypeId = 7 := congrArg Msg.type hm
    rw [outcome, htype, ← hm]
    rfl
  rw [hout] at hr
  simp only [List.length_singleton, receiveAll, Prod.mk.injEq, List.cons.injEq, and_true] at hall
  obtain ⟨hfirst, -⟩ := hall
  rw [hr] at hfirst
  cases hrun : (receiveMessage unimplemented).run p with
  | error e s => simp [hrun, answer] at hfirst
  | ok id s =>
    have hsmall := StateError.triple_ok (RTMPReassembly.receiveMessage_small unimplemented) hp hrun
    simp only [hrun, answer, Except.ok.injEq] at hfirst
    have hlen := congrArg (fun m : Msg => m.payload.length) hfirst
    simp only [msgOf, ByteMemory.load_length, evenMsg, even_length] at hlen
    omega

/-- Three messages of one chunk stream whose time grows past what 24 bits hold. -/
def crossing : ℕ → List Sent
  | 3 => [⟨.short 3 (by decide), .full 0xFFFFFE 1 7 0, 0, [[1]]⟩,
      ⟨.short 3 (by decide), .deltaOnly 10, 0, [[2]]⟩, ⟨.short 3 (by decide), .inherit, 0, [[3]]⟩]
  | _ => []

def crossingTagged : List Tagged :=
  [(⟨.short 3 (by decide), .full 0xFFFFFE 1 7 0, none, [1]⟩, some ⟨3, 7, 0, 0xFFFFFE, [1]⟩),
    (⟨.short 3 (by decide), .deltaOnly 10, none, [2]⟩, some ⟨3, 7, 0, 0x1000008, [2]⟩),
    (⟨.short 3 (by decide), .inherit, none, [3]⟩, some ⟨3, 7, 0, 0x1000012, [3]⟩)]

theorem crossing_interleaving : Interleaving (fun _ => True) 128 crossing crossingTagged := by
  constructor
  · intro id
    by_cases h3 : id = 3
    · subst h3
      refine ⟨⟨0xFFFFFE, 0, 0xFFFFFE, true, 0, 1, 7, 0, []⟩, crossingTagged.tail, rfl, ?_, rfl,
        ⟨0xFFFFFE, 10, 10, false, 0, 1, 7, 0, []⟩, crossingTagged.tail.tail, rfl, ?_, rfl,
        ⟨0x1000008, 10, 10, false, 0, 1, 7, 0, []⟩, [], rfl, ?_, rfl, rfl⟩
      · exact ⟨rfl, by decide, by decide, by decide, rfl, trivial⟩
      · exact ⟨rfl, by decide, by decide, by decide, rfl, trivial⟩
      · exact ⟨rfl, by decide, by decide, by decide, rfl, trivial⟩
    · have hsent : crossing id = [] := by
        unfold crossing
        split
        · exact absurd rfl h3
        · rfl
      have hnone : (crossingTagged.filter fun t => t.1.id = id) = [] := by
        have h3' : ¬ 3 = id := fun h => h3 h.symm
        simp [crossingTagged, Chunk.id, BasicHeader.id, h3']
      rw [hsent, hnone]
      rfl
  · simp [crossingTagged, Cut, Msg.sizeAfter, ControlMsg.code]
  · simp [crossingTagged, Msg.Legal, ControlMsg.code]

/-- The third message is taken to have an extended time, and its chunk is never complete. -/
theorem crossing_lost (rest : List UInt8) : ¬ Receives unimplemented
    (expecting (encodeAll (crossingTagged.map Prod.fst))) rest crossingTagged := by
  rintro ⟨rs, p', hall, hans, -⟩
  have hthird : ((receiveAll unimplemented 3
      (expecting (encodeAll (crossingTagged.map Prod.fst)))).1.map
        fun r => decide (r.toOption.isSome)) = [true, true, false] := by
    decide +kernel
  have hok : ∀ {r msg}, (∃ m, msgOf m = msg ∧ r = outcome unimplemented m) → msg.type = 7 →
      r.toOption.isSome := by
    rintro r msg ⟨m, rfl, rfl⟩ (htype : m.messageTypeId = 7)
    rw [outcome, htype]
    rfl
  have hlen : (crossingTagged.filterMap Prod.snd).length = 3 := rfl
  rw [hlen] at hall
  rw [hall] at hthird
  cases hans with
  | cons _ hans =>
    cases hans with
    | cons _ hans =>
      cases hans with
      | cons h _ => simp [hok h rfl] at hthird

end Sirannon.RTMPInterleaving
