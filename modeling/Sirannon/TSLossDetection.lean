import Sirannon.LossyDelivery
import Sirannon.TSDemultiplexer

/-!
# Loss detection of the TS demultiplexer

The packets of one stream count up. When some are lost, but never a multiple of
sixteen in a row, what the demultiplexer hands on without an error mark are
whole PES packets, in their order.
-/

set_option autoImplicit false

namespace Sirannon.Demultiplexing
open Bits BitString ByteMemory Media StateError LossyDelivery Std

/-! ## Packets of one stream -/

def isStart (pData : Memory) : Bool := (tsHeader pData).1.bStart

def counter (pData : Memory) : ℕ := (tsHeader pData).1.iCC

def adapationSize (pData : Memory) : ℕ := adapation (tsHeader pData).1.iField (tsHeader pData).2

def payloadBytes (pData : Memory) : List UInt8 :=
  load pData (4+adapationSize pData) (payloadSize (adapationSize pData)).toNat

def groupBytes (ps : List Memory) : List UInt8 := ps.flatMap payloadBytes

/-- The PES packets of a sequence: each packet that starts one, with those that go on with it. -/
def pesOf (ps : List Memory) : List (List Memory) := groups isStart ps

/-- Without the nine bytes of the PES header and what its last one announces. -/
def stripped (bytes : List UInt8) : List UInt8 := bytes.drop (9+(bytes.getD 8 0).toNat)

structure OnStream (iPID : ℕ) (pData : Memory) : Prop where
  sync : (tsHeader pData).1.iSyntax = 0x47
  pid : (tsHeader pData).1.iPID = iPID
  payload : adapationSize pData < 184

/-- Packets of the stream `iPID`, counting up from `c`. -/
structure Sequence (iPID c : ℕ) (ps : List Memory) : Prop where
  packets : ∀ p ∈ ps, OnStream iPID p
  counters : ∀ (i : ℕ) (p : Memory), ps[i]? = some p → counter p = (c+i) % 16
  sizes : ∀ g ∈ pesOf ps, (groupBytes g).length ≤ iMaxFrame

/-- From one packet that arrives to the next, the number of those lost between them is zero or no
multiple of sixteen. -/
def Gap (i j : ℕ) : Prop := i < j ∧ (j = i+1 ∨ (j-i-1) % 16 ≠ 0)

/-- The PES packets handed on without an error mark. -/
def clean (routed : List MediaPacket) : List MediaPacket :=
  routed.filter fun p => p.type = .media ∧ p.error = false

def Whole (g : List Memory) (p : MediaPacket) : Prop := p.bytes = stripped (groupBytes g)

/-! ## What is collected -/

/-- The counter and the bytes of a stream, and what was handed on behind `base`. -/
structure Holds (base : List MediaPacket) (iPID : ℕ) (cc : ℤ) (bytes : List UInt8)
    (out : List MediaPacket) (s : TSDemultiplexer) : Prop where
  cc : s.mCC[iPID]? = some cc
  stream : ∃ pStream, s.mStreams[iPID]? = some pStream ∧ pStream.pData = bytes
  channel : s.mChannels[iPID]? = none
  out : clean s.routed = base ++ out

def Gave (base out : List MediaPacket) (s : TSDemultiplexer) : Prop :=
  clean s.routed = base ++ out

variable {base out : List MediaPacket} {iPID : ℕ} {cc : ℤ} {bytes : List UInt8} {p : Memory}

theorem seek_aligned {b : IBits} {off : ℕ} (h : b.Ahead (8*off) []) (n : ℕ) :
    (b.seek n).Ahead (8*(off+n)) [] ∧ (b.seek n).v = off+n := by
  rcases IBits.ahead_aligned h with ⟨hbuf, hv⟩
  have hseek : b.seek n = { b with v := b.v+n } := by rw [IBits.seek, if_pos hbuf]
  rw [hseek]
  refine ⟨⟨⟨by simp [hbuf], fun h0 => ?_⟩, ?_, rfl⟩, by rw [hv]⟩
  · simp only [hbuf] at h0
    omega
  · simp only [IBits.pos, hbuf, hv]
    omega

theorem read_byte {b : IBits} {off : ℕ} (h : b.Ahead (8*off) []) :
    (b.read 8).1 = (b.buf off).toNat ∧ (b.read 8).2.Ahead (8*(off+1)) [] := by
  have hahead : b.Ahead (8*off) (ofNat 8 (b.buf off).toNat ++ []) := by
    refine ⟨h.1, h.2.1, ?_⟩
    rw [List.append_nil, ofNat_length, bits_byte]
  exact IBits.read_field hahead (by omega) (b.buf off).toNat_lt

theorem headerSize_eq (pckt : MediaPacket) :
    headerSize pckt = 9+(pckt.bytes.getD 8 0).toNat := by
  have hnew : (reader pckt).Ahead (8*0) [] := IBits.ahead_new _ _
  have hseek := (seek_aligned hnew (4+2+2)).1
  rcases read_byte hseek with ⟨hval, hread⟩
  have hbyte : ((reader pckt).seek (4+2+2)).buf (0+(4+2+2)) = pckt.bytes.getD 8 0 := by
    rw [IBits.seek_buf]
    rfl
  rw [hbyte] at hval
  show ((((reader pckt).seek (4+2+2)).read 8).2.seek
    (((reader pckt).seek (4+2+2)).read 8).1).v = _
  rw [(seek_aligned hread _).2, hval]

theorem release_packet {pStream : Stream} {bSkip : Bool} {pckt : MediaPacket}
    (h : pStream.release bSkip = .ok pckt) :
    pckt.type = .media ∧ pckt.error = bSkip ∧ pckt.bytes = stripped pStream.pData := by
  have hpush := new_push_back .media .mixed pStream.iPos pStream.pData (Nat.le_refl _)
  rw [Stream.release, hpush] at h
  simp only [bind, Except.bind] at h
  generalize hq : (MediaPacket.new .media .mixed pStream.iPos).pushed pStream.pData = q at h
  have hbytes : q.bytes = pStream.pData := by
    rw [← hq]
    rfl
  cases hpop : q.pop_front (headerSize q) with
  | error e =>
    rw [hpop] at h
    cases h
  | ok r =>
    rw [hpop] at h
    simp only [Except.ok.injEq] at h
    have hr : r = q.popped (headerSize q) := by
      rw [MediaPacket.pop_front] at hpop
      split_ifs at hpop with hsize
      exact (Except.ok.inj hpop).symm
    rw [← h, hr]
    refine ⟨?_, rfl, ?_⟩
    · rw [← hq]
      rfl
    · show q.bytes.drop (headerSize q) = _
      rw [headerSize_eq, hbytes, stripped]

/-- When a PES packet starts, the one collected before is handed on. -/
theorem releaseStream_start (h : bytes ≠ []) (bSkip : Bool) :
    Triple (Holds base iPID cc bytes out) (TSDemultiplexer.releaseStream iPID true bSkip)
      (fun _ s => ∃ q : MediaPacket, q.bytes = stripped bytes ∧
        Holds base iPID cc [] (if bSkip then out else out ++ [q]) s)
      (fun _ => Gave base out) := by
  constructor
  intro s hs
  rcases hs.stream with ⟨pStream, hstream, hbytes⟩
  have hpos : pStream.iPos ≠ 0 := by
    rw [Stream.iPos, hbytes]
    exact fun h0 => h (List.length_eq_zero_iff.mp h0)
  rw [TSDemultiplexer.releaseStream, run_get_bind, hstream]
  dsimp only
  rw [if_pos ⟨rfl, hpos⟩]
  cases hrelease : pStream.release bSkip with
  | error e => exact hs.out
  | ok q =>
    rcases release_packet hrelease with ⟨htype, herror, hq⟩
    refine ⟨q, by rw [hq, hbytes], ⟨hs.cc, ⟨_, TreeMap.getElem?_insert_self, rfl⟩, hs.channel, ?_⟩⟩
    show clean (s.routed ++ [q]) = _
    rw [clean, List.filter_append, ← clean, hs.out]
    cases bSkip with
    | true => simp [herror]
    | false => simp [htype, herror, List.append_assoc]

theorem releaseStream_idle (bNew bSkip : Bool) (h : bNew = false ∨ bytes = []) :
    Triple (Holds base iPID cc bytes out) (TSDemultiplexer.releaseStream iPID bNew bSkip)
      (fun _ => Holds base iPID cc bytes out) (fun _ => Gave base out) := by
  constructor
  intro s hs
  rcases hs.stream with ⟨pStream, hstream, hbytes⟩
  have hnot : ¬ (bNew = true ∧ pStream.iPos ≠ 0) := by
    rintro ⟨hnew, hpos⟩
    rcases h with h | h
    · rw [h] at hnew
      cases hnew
    · rw [Stream.iPos, hbytes, h] at hpos
      exact hpos rfl
  rw [TSDemultiplexer.releaseStream, run_get_bind, hstream]
  dsimp only
  rw [if_neg hnot]
  exact hs

theorem append_fits {pData : Memory} {iFrom : ℕ} {iSize : ℤ} (hsize : 0 ≤ iSize)
    (hroom : bytes.length+iSize ≤ iMaxFrame) :
    Triple (Holds base iPID cc bytes out) (TSDemultiplexer.append iPID pData iFrom iSize)
      (fun _ => Holds base iPID cc (bytes ++ load pData iFrom iSize.toNat) out)
      (fun _ _ => False) := by
  constructor
  intro s hs
  rcases hs.stream with ⟨pStream, hstream, hbytes⟩
  have hfits : ¬ (iMaxFrame : ℤ) < pStream.iPos+iSize := by
    rw [Stream.iPos, hbytes]
    omega
  rw [TSDemultiplexer.append, run_get_bind, hstream]
  dsimp only
  rw [if_neg hfits, if_neg (by omega)]
  exact ⟨hs.cc, ⟨_, TreeMap.getElem?_insert_self, by rw [hbytes]⟩, hs.channel, hs.out⟩

/-! ## One packet -/

theorem payload_append (hpckt : adapationSize p < 184)
    (hroom : bytes.length+(payloadBytes p).length ≤ iMaxFrame) :
    Triple (Holds base iPID cc bytes out)
      (TSDemultiplexer.append iPID p (4+adapationSize p) (payloadSize (adapationSize p)))
      (fun _ => Holds base iPID cc (bytes ++ payloadBytes p) out) (fun _ _ => False) := by
  have hsize : 0 ≤ payloadSize (adapationSize p) := by
    rw [payloadSize]
    omega
  have hlength : (payloadBytes p).length = (payloadSize (adapationSize p)).toNat := by
    rw [payloadBytes, load_length]
  exact append_fits hsize (by omega)

/-- A packet that goes on with a PES packet, or starts the first one. -/
theorem parsePKT_append {bNew : Bool} (bSkip : Bool) (hpckt : adapationSize p < 184)
    (hnew : bNew = false ∨ bytes = [])
    (hroom : bytes.length+(payloadBytes p).length ≤ iMaxFrame) :
    Triple (Holds base iPID cc bytes out)
      (TSDemultiplexer.parsePKT iPID p (4+adapationSize p) (payloadSize (adapationSize p)) bNew
        bSkip)
      (fun _ => Holds base iPID cc (bytes ++ payloadBytes p) out) (fun _ => Gave base out) := by
  rw [TSDemultiplexer.parsePKT]
  apply triple_bind (releaseStream_idle bNew bSkip hnew)
  intro _
  exact triple_conseq (payload_append hpckt hroom) (fun _ h => h) (fun _ _ h => h)
    fun _ _ h => h.elim

/-- A packet that starts the next PES packet. -/
theorem parsePKT_start (bSkip : Bool) (hpckt : adapationSize p < 184) (hbytes : bytes ≠ [])
    (hroom : (payloadBytes p).length ≤ iMaxFrame) :
    Triple (Holds base iPID cc bytes out)
      (TSDemultiplexer.parsePKT iPID p (4+adapationSize p) (payloadSize (adapationSize p)) true
        bSkip)
      (fun _ s => ∃ q : MediaPacket, q.bytes = stripped bytes ∧
        Holds base iPID cc (payloadBytes p) (if bSkip then out else out ++ [q]) s)
      (fun _ => Gave base out) := by
  rw [TSDemultiplexer.parsePKT]
  apply triple_bind (releaseStream_start hbytes bSkip)
  intro _
  apply triple_of_state
  intro s hs
  rcases hs with ⟨q, hq, hs⟩
  have happend : Triple (Holds base iPID cc [] (if bSkip then out else out ++ [q])) _
      (fun _ => Holds base iPID cc ([] ++ payloadBytes p) (if bSkip then out else out ++ [q]))
      (fun _ _ => False) := payload_append hpckt (by simpa using hroom)
  apply triple_conseq happend
  · intro t ht
    rw [ht]
    exact hs
  · intro _ t ht
    exact ⟨q, hq, ht⟩
  · intro _ _ h
    exact h.elim

theorem parseTS_dropped {cc' : ℤ} (hpckt : OnStream iPID p)
    (hsync : syncCC cc (isStart p) (counter p) = (cc', none)) :
    Triple (Holds base iPID cc bytes out) (TSDemultiplexer.parseTS p)
      (fun _ => Holds base iPID cc' bytes out) (fun _ => Gave base out) := by
  constructor
  intro s hs
  have hcc := hs.cc
  rw [← hpckt.pid] at hcc
  rw [isStart, counter] at hsync
  rw [TSDemultiplexer.parseTS]
  dsimp only
  rw [if_neg (not_not.mpr hpckt.sync), run_get_bind, hcc]
  dsimp only
  rw [hsync, hpckt.pid]
  exact ⟨TreeMap.getElem?_insert_self, hs.stream, hs.channel, hs.out⟩

theorem parsePayload_stream {pData : Memory} {iAdapation : ℕ} {bStart bSkip : Bool}
    {Q : Unit → TSDemultiplexer → Prop} {E : SirannonException → TSDemultiplexer → Prop}
    (hPID : iPID ≠ 0)
    (h : Triple (Holds base iPID cc bytes out)
      (TSDemultiplexer.parsePKT iPID pData (4+iAdapation) (payloadSize iAdapation) bStart bSkip)
      Q E) :
    Triple (Holds base iPID cc bytes out)
      (TSDemultiplexer.parsePayload pData iPID iAdapation bStart bSkip) Q E := by
  rw [TSDemultiplexer.parsePayload]
  apply triple_modify_bind (R := Holds base iPID cc bytes out)
  · intro s hs
    exact ⟨hs.cc, hs.stream, hs.channel, hs.out⟩
  · constructor
    intro s hs
    rcases hs.stream with ⟨pStream, hstream, -⟩
    have hmem : iPID ∈ s.mStreams := by
      rw [TreeMap.mem_iff_isSome_getElem?, hstream]
      rfl
    rw [TSDemultiplexer.dispatch, run_get_bind, if_neg hPID, hs.channel]
    dsimp only
    rw [if_pos hmem]
    exact h.exits s hs

theorem parseTS_taken {cc' : ℤ} {bSkip : Bool} {Q : Unit → TSDemultiplexer → Prop}
    {E : SirannonException → TSDemultiplexer → Prop} (hPID : iPID ≠ 0) (hpckt : OnStream iPID p)
    (hsync : syncCC cc (isStart p) (counter p) = (cc', some bSkip))
    (h : Triple (Holds base iPID cc' bytes out)
      (TSDemultiplexer.parsePKT iPID p (4+adapationSize p) (payloadSize (adapationSize p))
        (isStart p) bSkip) Q E) :
    Triple (Holds base iPID cc bytes out) (TSDemultiplexer.parseTS p) Q E := by
  constructor
  intro s hs
  have hcc := hs.cc
  rw [← hpckt.pid] at hcc
  rw [isStart, counter] at hsync
  rw [TSDemultiplexer.parseTS]
  dsimp only
  rw [if_neg (not_not.mpr hpckt.sync), run_get_bind, hcc]
  dsimp only
  rw [hsync, hpckt.pid]
  have hparse := (parsePayload_stream hPID h).exits { s with mCC := s.mCC.insert iPID cc' }
    ⟨TreeMap.getElem?_insert_self, hs.stream, hs.channel, hs.out⟩
  rw [adapationSize, isStart] at hparse
  exact hparse

/-! ## The packets that arrive -/

/-- After the first `n` packets, of which some arrived. -/
inductive Track (base : List MediaPacket) (iPID c : ℕ) (ps : List Memory) (n : ℕ)
    (s : TSDemultiplexer) : Prop
  | idle (h : Holds base iPID FIRST_SYNC [] [] s)
  | synced (before body : List Memory) (p : Memory) (out : List MediaPacket)
      (hsplit : ps.take n = before ++ p::body) (hstart : isStart p = true)
      (hbody : ∀ b ∈ body, isStart b = false)
      (hout : Recovers Whole (groups isStart before) out)
      (h : Holds base iPID ((c+(n-1)) % 16 : ℕ) (groupBytes (p::body)) out s)
  | lost (before body : List Memory) (p : Memory) (out : List MediaPacket) (bytes : List UInt8)
      (hsplit : ps.take n = before ++ p::body) (hstart : isStart p = true)
      (hbytes : bytes ≠ [])
      (hout : Recovers Whole (groups isStart before) out)
      (h : Holds base iPID LOST_SYNC bytes out s)

/-- What an exception leaves behind. -/
def Ended (base : List MediaPacket) (ps : List Memory) (s : TSDemultiplexer) : Prop :=
  ∃ out, Gave base out s ∧ Recovers Whole (pesOf ps) out

variable {c : ℕ} {ps : List Memory} {n j : ℕ}

/-- The packet at `j` can arrive next. -/
def Next (n j : ℕ) : Prop := n ≤ j ∧ (j = n ∨ n = 0 ∨ (j-n) % 16 ≠ 0)

theorem groupBytes_cons (p : Memory) (body : List Memory) :
    groupBytes (p::body) = payloadBytes p ++ groupBytes body := List.flatMap_cons

theorem groupBytes_append (as bs : List Memory) :
    groupBytes (as ++ bs) = groupBytes as ++ groupBytes bs := List.flatMap_append

theorem groupBytes_singleton (p : Memory) : groupBytes [p] = payloadBytes p := by
  rw [groupBytes_cons]
  exact List.append_nil _

theorem payloadBytes_ne (h : adapationSize p < 184) : payloadBytes p ≠ [] := by
  have hlength : (payloadBytes p).length = (payloadSize (adapationSize p)).toNat := by
    rw [payloadBytes, load_length]
  rw [payloadSize] at hlength
  intro hnil
  rw [hnil, List.length_nil] at hlength
  omega

theorem split_whole {before body : List Memory} (hsplit : ps.take n = before ++ p::body) :
    ps = before ++ p::(body ++ ps.drop n) := by
  calc ps = ps.take n ++ ps.drop n := (List.take_append_drop n ps).symm
    _ = before ++ p::(body ++ ps.drop n) := by rw [hsplit, List.append_assoc, List.cons_append]

/-- The beginning of a PES packet is no longer than a PES packet may be. -/
theorem group_fits {before body : List Memory} (hseq : Sequence iPID c ps)
    (hsplit : ps.take n = before ++ p::body) (hstart : isStart p = true)
    (hbody : ∀ b ∈ body, isStart b = false) : (groupBytes (p::body)).length ≤ iMaxFrame := by
  have hpes : pesOf ps = groups isStart before ++ groups isStart (p::(body ++ ps.drop n)) := by
    rw [← groups_append _ _ _ hstart, ← split_whole hsplit, pesOf]
  have hmem : p::(body ++ (ps.drop n).takeWhile fun b => ¬ isStart b) ∈ pesOf ps := by
    rw [hpes, groups_cons _ hstart hbody]
    exact List.mem_append_right _ List.mem_cons_self
  have hsize := hseq.sizes _ hmem
  rw [← List.cons_append, groupBytes_append, List.length_append] at hsize
  omega

theorem split_later {before body : List Memory} (hsplit : ps.take n = before ++ p::body)
    (hnj : n ≤ j) : ∃ body', ps.take j = before ++ p::body' := by
  refine ⟨body ++ (ps.take j).drop n, ?_⟩
  calc ps.take j = (ps.take j).take n ++ (ps.take j).drop n := (List.take_append_drop _ _).symm
    _ = before ++ p::(body ++ (ps.take j).drop n) := by
      rw [List.take_take, Nat.min_eq_left hnj, hsplit, List.append_assoc, List.cons_append]

theorem take_next (hp : ps[j]? = some p) : ps.take (j+1) = ps.take j ++ [p] := by
  rw [List.take_add_one, hp]
  rfl

/-- The PES packets in front of a start are still there when more packets have gone by. -/
theorem recovers_later {before body : List Memory} {q : Memory}
    (hout : Recovers Whole (groups isStart before) out)
    (hsplit : ps.take j = before ++ q::body) (hstart : isStart q = true) :
    Recovers Whole (groups isStart (ps.take j)) out := by
  rw [hsplit]
  exact recovers_of_sublist hout (groups_sublist before body q hstart)

theorem recovers_whole {before body : List Memory}
    (hout : Recovers Whole (groups isStart before) out)
    (hsplit : ps.take n = before ++ p::body) (hstart : isStart p = true) :
    Recovers Whole (pesOf ps) out := by
  rw [pesOf, split_whole hsplit]
  exact recovers_of_sublist hout (groups_sublist before _ p hstart)

theorem track_ended {s : TSDemultiplexer} (h : Track base iPID c ps n s) : Ended base ps s := by
  cases h with
  | idle h => exact ⟨[], h.out, recovers_nil _ _⟩
  | synced before body p out hsplit hstart _ hout h =>
    exact ⟨out, h.out, recovers_whole hout hsplit hstart⟩
  | lost before body p out bytes hsplit hstart _ hout h =>
    exact ⟨out, h.out, recovers_whole hout hsplit hstart⟩

/-! ## One step -/

theorem syncCC_first (bStart : Bool) (iCC : ℕ) :
    syncCC FIRST_SYNC bStart iCC = if bStart then ((iCC : ℤ), some false) else (FIRST_SYNC, none) := by
  rw [syncCC, if_pos rfl]

theorem syncCC_lost (bStart : Bool) (iCC : ℕ) :
    syncCC LOST_SYNC bStart iCC = if bStart then ((iCC : ℤ), some true) else (LOST_SYNC, none) := by
  rw [syncCC, if_neg (by decide), if_pos rfl]

theorem syncCC_gap {last iCC : ℕ} (bStart : Bool) (h : iCC ≠ (last+1) % 16) :
    syncCC (last : ℤ) bStart iCC = if bStart then ((iCC : ℤ), some true) else (LOST_SYNC, none) := by
  rw [syncCC, if_neg (by rw [FIRST_SYNC]; omega), if_neg (by rw [LOST_SYNC]; omega),
    if_pos (by omega)]

theorem syncCC_next {last iCC : ℕ} (bStart : Bool) (h : iCC = (last+1) % 16) :
    syncCC (last : ℤ) bStart iCC = ((iCC : ℤ), some false) := by
  rw [syncCC, if_neg (by rw [FIRST_SYNC]; omega), if_neg (by rw [LOST_SYNC]; omega),
    if_neg (by omega)]

/-- A packet that starts a PES packet is collected afresh. -/
theorem track_start {out : List MediaPacket} {s : TSDemultiplexer} (hseq : Sequence iPID c ps)
    (hp : ps[j]? = some p) (hstart : isStart p = true)
    (hout : Recovers Whole (groups isStart (ps.take j)) out)
    (h : Holds base iPID (counter p) (payloadBytes p) out s) : Track base iPID c ps (j+1) s := by
  have hcc : counter p = (c+(j+1-1)) % 16 := by
    rw [Nat.add_sub_cancel]
    exact hseq.counters j p hp
  apply Track.synced (ps.take j) [] p out (take_next hp) hstart (by simp) hout
  rw [← hcc, groupBytes_singleton]
  exact h

theorem start_fits (hseq : Sequence iPID c ps) (hp : ps[j]? = some p) (hstart : isStart p = true) :
    (payloadBytes p).length ≤ iMaxFrame := by
  have hfits := group_fits hseq (take_next hp) hstart (by simp)
  rwa [groupBytes_singleton] at hfits

theorem on_stream (hseq : Sequence iPID c ps) (hp : ps[j]? = some p) : OnStream iPID p :=
  hseq.packets p (List.mem_of_getElem? hp)

/-- The first packet that starts a PES packet. -/
theorem step_first (hPID : iPID ≠ 0) (hseq : Sequence iPID c ps) (hp : ps[j]? = some p) :
    Triple (Holds base iPID FIRST_SYNC [] []) (TSDemultiplexer.parseTS p)
      (fun _ => Track base iPID c ps (j+1)) (fun _ => Ended base ps) := by
  have hpckt := on_stream hseq hp
  have hended : ∀ s, Gave base [] s → Ended base ps s := by
    intro s hs
    exact ⟨[], hs, recovers_nil _ _⟩
  by_cases hstart : isStart p = true
  · apply parseTS_taken hPID hpckt ((syncCC_first _ _).trans (if_pos hstart))
    apply triple_conseq (parsePKT_append false hpckt.payload (Or.inr rfl)
      (by simpa using start_fits hseq hp hstart)) (fun _ h => h)
    · intro _ s hs
      exact track_start hseq hp hstart (recovers_nil _ _) hs
    · exact fun _ => hended
  · apply triple_conseq (parseTS_dropped hpckt (by rw [syncCC_first, if_neg hstart]))
      (fun _ h => h)
    · intro _ s hs
      exact Track.idle hs
    · exact fun _ => hended

/-- What is collected after a loss is handed on with an error mark. -/
theorem step_resync (hPID : iPID ≠ 0) (hseq : Sequence iPID c ps) (hp : ps[j]? = some p)
    (hstart : isStart p = true) (hbytes : bytes ≠ [])
    (hsync : syncCC cc (isStart p) (counter p) = ((counter p : ℤ), some true))
    (hout : Recovers Whole (groups isStart (ps.take j)) out)
    (hwhole : Recovers Whole (pesOf ps) out) :
    Triple (Holds base iPID cc bytes out) (TSDemultiplexer.parseTS p)
      (fun _ => Track base iPID c ps (j+1)) (fun _ => Ended base ps) := by
  have hpckt := on_stream hseq hp
  apply parseTS_taken hPID hpckt hsync
  rw [hstart]
  apply triple_conseq (parsePKT_start true hpckt.payload hbytes (start_fits hseq hp hstart))
    (fun _ h => h)
  · intro _ s hs
    rcases hs with ⟨q, -, hs⟩
    exact track_start hseq hp hstart hout hs
  · intro _ s hs
    exact ⟨out, hs, hwhole⟩

theorem groupBytes_ne {body : List Memory} (h : adapationSize p < 184) :
    groupBytes (p::body) ≠ [] := by
  rw [groupBytes_cons]
  exact List.append_ne_nil_of_left_ne_nil (payloadBytes_ne h) _

/-- The packet right behind the last one that arrived. -/
theorem step_consecutive {before body : List Memory} {q : Memory} (hPID : iPID ≠ 0)
    (hseq : Sequence iPID c ps) (hp : ps[n]? = some p) (hsplit : ps.take n = before ++ q::body)
    (hstart : isStart q = true) (hbody : ∀ b ∈ body, isStart b = false)
    (hout : Recovers Whole (groups isStart before) out) (hn : 0 < n) :
    Triple (Holds base iPID ((c+(n-1)) % 16 : ℕ) (groupBytes (q::body)) out)
      (TSDemultiplexer.parseTS p) (fun _ => Track base iPID c ps (n+1)) (fun _ => Ended base ps) := by
  have hpckt := on_stream hseq hp
  have hwhole := recovers_whole hout hsplit hstart
  have hcc : counter p = (c+n) % 16 := hseq.counters n p hp
  have hq : OnStream iPID q := by
    apply hseq.packets q
    apply List.mem_of_mem_take
    rw [hsplit]
    simp
  apply parseTS_taken hPID hpckt (syncCC_next _ (by omega))
  by_cases hnew : isStart p = true
  · rw [hnew]
    apply triple_conseq (parsePKT_start false hpckt.payload (groupBytes_ne hq.payload)
      (start_fits hseq hp hnew)) (fun _ h => h)
    · intro _ s hs
      rcases hs with ⟨pckt, hbytes, hs⟩
      apply track_start hseq hp hnew _ hs
      rw [hsplit, groups_append _ _ _ hstart, groups_closed hstart hbody]
      exact recovers_emit hout hbytes
    · intro _ s hs
      exact ⟨out, hs, hwhole⟩
  · have hnot : isStart p = false := by simpa using hnew
    have hbody' : ∀ b ∈ body ++ [p], isStart b = false := by
      intro b hb
      rcases List.mem_append.mp hb with hb | hb
      · exact hbody b hb
      · rw [List.mem_singleton.mp hb]
        exact hnot
    have hsplit' : ps.take (n+1) = before ++ q::(body ++ [p]) := by
      rw [take_next hp, hsplit, List.append_assoc, List.cons_append]
    have hbytes : groupBytes (q::(body ++ [p])) = groupBytes (q::body) ++ payloadBytes p := by
      rw [← List.cons_append, groupBytes_append, groupBytes_singleton]
    have hfits := group_fits hseq hsplit' hstart hbody'
    rw [hbytes, List.length_append] at hfits
    apply triple_conseq (parsePKT_append false hpckt.payload (Or.inl hnot) hfits) (fun _ h => h)
    · intro _ s hs
      rw [← hbytes, hcc] at hs
      exact Track.synced before (body ++ [p]) q out hsplit' hstart hbody' hout hs
    · intro _ s hs
      exact ⟨out, hs, hwhole⟩

/-- A packet that is not the next one, when a PES packet is being collected. -/
theorem step_behind_loss {before body : List Memory} {q : Memory} (hPID : iPID ≠ 0)
    (hseq : Sequence iPID c ps) (hp : ps[j]? = some p) (hnj : n ≤ j)
    (hsplit : ps.take n = before ++ q::body) (hstart : isStart q = true)
    (hbytes : bytes ≠ []) (hout : Recovers Whole (groups isStart before) out)
    (hsync : syncCC cc (isStart p) (counter p) =
      if isStart p then ((counter p : ℤ), some true) else (LOST_SYNC, none)) :
    Triple (Holds base iPID cc bytes out) (TSDemultiplexer.parseTS p)
      (fun _ => Track base iPID c ps (j+1)) (fun _ => Ended base ps) := by
  have hwhole := recovers_whole hout hsplit hstart
  rcases split_later hsplit hnj with ⟨body', hlater⟩
  by_cases hnew : isStart p = true
  · rw [if_pos hnew] at hsync
    exact step_resync hPID hseq hp hnew hbytes hsync (recovers_later hout hlater hstart) hwhole
  · rw [if_neg hnew] at hsync
    apply triple_conseq (parseTS_dropped (on_stream hseq hp) hsync) (fun _ h => h)
    · intro _ s hs
      have hsplit' : ps.take (j+1) = before ++ q::(body' ++ [p]) := by
        rw [take_next hp, hlater, List.append_assoc, List.cons_append]
      exact Track.lost before _ q out bytes hsplit' hstart hbytes hout hs
    · intro _ s hs
      exact ⟨out, hs, hwhole⟩

theorem track_step (hPID : iPID ≠ 0) (hseq : Sequence iPID c ps) (hnext : Next n j)
    (hp : ps[j]? = some p) :
    Triple (Track base iPID c ps n) (TSDemultiplexer.parseTS p)
      (fun _ => Track base iPID c ps (j+1)) (fun _ => Ended base ps) := by
  apply triple_of_state
  intro s hs
  cases hs with
  | idle h => exact triple_at (step_first hPID hseq hp) h
  | synced before body q out hsplit hstart hbody hout h =>
    have hn : 0 < n := by
      apply Nat.pos_of_ne_zero
      intro h0
      rw [h0, List.take_zero] at hsplit
      simp at hsplit
    have hq : OnStream iPID q := by
      apply hseq.packets q
      apply List.mem_of_mem_take
      rw [hsplit]
      simp
    by_cases hjn : j = n
    · subst hjn
      exact triple_at (step_consecutive hPID hseq hp hsplit hstart hbody hout hn) h
    · have hcc : counter p = (c+j) % 16 := hseq.counters j p hp
      rcases hnext with ⟨hle, hgap⟩
      have hmiss : counter p ≠ ((c+(n-1)) % 16+1) % 16 := by omega
      exact triple_at (step_behind_loss hPID hseq hp hle hsplit hstart (groupBytes_ne hq.payload)
        hout (syncCC_gap _ hmiss)) h
  | lost before body q out bytes hsplit hstart hbytes hout h =>
    exact triple_at (step_behind_loss hPID hseq hp hnext.1 hsplit hstart hbytes hout
      (syncCC_lost _ _)) h

/-! ## A run -/

/-- The packets at the indices that arrive. -/
def packetsAt (ps : List Memory) (arrived : List ℕ) : List Memory :=
  arrived.filterMap fun i => ps[i]?

theorem track_run (hPID : iPID ≠ 0) (hseq : Sequence iPID c ps) (arrived : List ℕ)
    (hlength : ∀ i ∈ arrived, i < ps.length) (hgaps : arrived.IsChain Gap)
    (hnext : ∀ j ∈ arrived.head?, Next n j) :
    Triple (Track base iPID c ps n) (forM (packetsAt ps arrived) TSDemultiplexer.parseTS)
      (fun _ => Ended base ps) (fun _ => Ended base ps) := by
  induction arrived generalizing n with
  | nil => exact triple_pure () fun _ h => track_ended h
  | cons j arrived ih =>
    rw [List.isChain_cons] at hgaps
    have hj : j < ps.length := hlength j List.mem_cons_self
    have hp : ps[j]? = some ps[j] := List.getElem?_eq_getElem hj
    have hat : packetsAt ps (j::arrived) = ps[j]::packetsAt ps arrived := by
      rw [packetsAt, List.filterMap_cons, hp]
      rfl
    rw [hat, List.forM_cons]
    apply triple_bind (track_step hPID hseq (hnext j rfl) hp)
    intro _
    apply ih (fun i hi => hlength i (List.mem_cons_of_mem j hi)) hgaps.2
    intro k hk
    rcases hgaps.1 k hk with ⟨hlt, hgap⟩
    refine ⟨hlt, ?_⟩
    rcases hgap with hgap | hgap
    · exact Or.inl hgap
    · rw [Nat.sub_sub] at hgap
      exact Or.inr (Or.inr hgap)

/-- Nothing is handed on without an error mark. -/
def NothingClean (s t : TSDemultiplexer) : Prop := clean t.routed = clean s.routed

instance : IsPreorder TSDemultiplexer NothingClean where
  refl _ := rfl
  trans _ _ _ h h' := h'.trans h

theorem clean_marked {routed : List MediaPacket} {q : MediaPacket} (h : q.error = true) :
    clean (routed ++ [q]) = clean routed := by
  simp [clean, List.filter_append, h]

theorem clean_control {routed : List MediaPacket} {q : MediaPacket} (h : q.type ≠ .media) :
    clean (routed ++ [q]) = clean routed := by
  simp [clean, List.filter_append, h]

theorem releaseStream_marked (iPID : ℕ) (bNew : Bool) :
    Along NothingClean (TSDemultiplexer.releaseStream iPID bNew true) := by
  intro s
  rw [TSDemultiplexer.releaseStream, run_get_bind]
  cases s.mStreams[iPID]? with
  | none => rfl
  | some pStream =>
    dsimp only
    by_cases hnew : bNew = true ∧ pStream.iPos ≠ 0
    · rw [if_pos hnew]
      cases hrelease : pStream.release true with
      | error e => rfl
      | ok q => exact clean_marked (release_packet hrelease).2.1
    · rw [if_neg hnew]
      rfl

theorem endStream_marked {oType : PacketType} (htype : oType ≠ .media) (iPID : ℕ) :
    Along NothingClean (TSDemultiplexer.endStream oType iPID) := by
  rw [TSDemultiplexer.endStream]
  apply along_bind (releaseStream_marked iPID true)
  intro _ s
  rw [run_get_bind]
  cases s.mStreams[iPID]? with
  | none => rfl
  | some pStream => exact clean_control htype

theorem receive_end_marked {pckt : MediaPacket} (htype : pckt.type ≠ .media) :
    Along NothingClean (TSDemultiplexer.receive_end pckt) := by
  rw [TSDemultiplexer.receive_end]
  apply along_get_bind
  intro s
  apply along_ite
  · intro t
    exact clean_control htype
  · exact along_forM _ (endStream_marked htype)

/-- A stream as the tables announce it, before its first packet. -/
structure Announced (iPID : ℕ) (s : TSDemultiplexer) : Prop where
  cc : s.mCC[iPID]? = some FIRST_SYNC
  stream : ∃ pStream, s.mStreams[iPID]? = some pStream ∧ pStream.pData = []
  channel : s.mChannels[iPID]? = none

theorem createStream_announced {s : TSDemultiplexer} {iStream : ℕ} (hstream : iPID ∉ s.mStreams)
    (hchannel : iPID ∉ s.mChannels) : Announced iPID (s.createStream iStream iPID) := by
  have hnone : s.mChannels[iPID]? = none := TreeMap.getElem?_eq_none hchannel
  rw [TSDemultiplexer.createStream, if_neg hstream]
  split_ifs
  · exact ⟨TreeMap.getElem?_insert_self, ⟨_, TreeMap.getElem?_insert_self, rfl⟩, hnone⟩
  · exact ⟨TreeMap.getElem?_insert_self, ⟨_, TreeMap.getElem?_insert_self, rfl⟩, hnone⟩

/-- Whatever is lost, as long as it is no multiple of sixteen packets in a row, a PES packet handed
on without an error mark carries the payload of one of the sequence, and they are in order. -/
theorem loss_detection {s : TSDemultiplexer} (hPID : iPID ≠ 0) (hs : Announced iPID s)
    (hseq : Sequence iPID c ps) {arrived : List ℕ} (hlength : ∀ i ∈ arrived, i < ps.length)
    (hgaps : arrived.IsChain Gap) {pckt : MediaPacket} (htype : pckt.type ≠ .media) :
    ∃ out, clean (after ((do
        forM (packetsAt ps arrived) TSDemultiplexer.parseTS
        TSDemultiplexer.receive_end pckt : Demux Unit).run s)).routed = clean s.routed ++ out ∧
      Recovers Whole (pesOf ps) out := by
  have hholds : Holds (clean s.routed) iPID FIRST_SYNC [] [] s :=
    ⟨hs.cc, hs.stream, hs.channel, (List.append_nil _).symm⟩
  have hfirst : ∀ j ∈ arrived.head?, Next 0 j := fun j _ => ⟨Nat.zero_le j, Or.inr (Or.inl rfl)⟩
  have hend : Triple (Ended (clean s.routed) ps) (TSDemultiplexer.receive_end pckt)
      (fun _ => Ended (clean s.routed) ps) (fun _ => Ended (clean s.routed) ps) := by
    apply along_keeps (receive_end_marked htype)
    rintro t u hsame ⟨out, hout, hrecovers⟩
    exact ⟨out, hsame.trans hout, hrecovers⟩
  have hrun := triple_bind (track_run hPID hseq arrived hlength hgaps hfirst) fun _ => hend
  exact triple_after hrun (Track.idle hholds)

/-- Two PES packets, of two packets and of one, and the start of a third. -/
def threeStarts : List Memory :=
  [memory [0x47, 0x41, 0x00, 0x10, 0, 0, 1, 0xE0, 0, 0, 0x80, 0, 0],
    memory [0x47, 0x01, 0x00, 0x11, 7],
    memory [0x47, 0x41, 0x00, 0x12, 0, 0, 1, 0xE0, 0, 0, 0x80, 0, 0, 9],
    memory [0x47, 0x41, 0x00, 0x13, 0, 0, 1, 0xE0, 0, 0, 0x80, 0, 0]]

theorem threeStarts_sequence : Sequence 0x100 0 threeStarts := by
  constructor
  · simp only [threeStarts, List.forall_mem_cons]
    refine ⟨⟨?_, ?_, ?_⟩, ⟨?_, ?_, ?_⟩, ⟨?_, ?_, ?_⟩, ⟨?_, ?_, ?_⟩, by simp⟩ <;> decide +kernel
  · intro i p hp
    have hi : i < 4 := (List.getElem?_eq_some_iff.mp hp).1
    interval_cases i <;> cases hp <;> decide +kernel
  · have hsizes : (pesOf threeStarts).map (fun g => (groupBytes g).length) = [368, 184, 184] := by
      decide +kernel
    intro g hg
    have hmem := List.mem_map_of_mem (f := fun g => (groupBytes g).length) hg
    rw [hsizes] at hmem
    rw [iMaxFrame]
    simp only [List.mem_cons, List.not_mem_nil, or_false] at hmem
    omega

/-- The second packet is lost: only the PES packet behind the gap is handed on without a mark. -/
theorem loss_detection_one_lost :
    (∃ out, clean (after ((do
        forM (packetsAt threeStarts [0, 2, 3]) TSDemultiplexer.parseTS
        TSDemultiplexer.receive_end (MediaPacket.new .end .mixed 0) : Demux Unit).run
          ((TSDemultiplexer.init (-1) 100 200 3).createStream 0x1B 0x100))).routed = [] ++ out ∧
      Recovers Whole (pesOf threeStarts) out) ∧
    (clean (after ((do
        forM (packetsAt threeStarts [0, 2, 3]) TSDemultiplexer.parseTS
        TSDemultiplexer.receive_end (MediaPacket.new .end .mixed 0) : Demux Unit).run
          ((TSDemultiplexer.init (-1) 100 200 3).createStream 0x1B 0x100))).routed).map
      (fun p => p.bytes.head?) = [some 9] := by
  have hs : Announced 0x100 ((TSDemultiplexer.init (-1) 100 200 3).createStream 0x1B 0x100) := by
    apply createStream_announced <;> simp [TSDemultiplexer.init]
  constructor
  · apply loss_detection (by decide) hs threeStarts_sequence
    · decide
    · simp [Gap]
    · decide
  · decide +kernel

end Sirannon.Demultiplexing
