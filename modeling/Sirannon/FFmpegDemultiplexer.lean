import Sirannon.MediaPacket

/-!
# Reading a container from a queue of packets

The demultiplexer hands the data of its packets to the reader of the container.
A read copies from the front of the queue until it is full, and waits while the
queue is empty. Packets that are no media packets are thrown away; the end
packet makes the read return 0.
-/

set_option autoImplicit false

namespace Sirannon.FFmpegDemultiplexer
open Media

/-- `buffer` is what was copied. A call that found the queue empty waits. -/
inductive Read
  | returned (buffer : List UInt8) (iReturn : ℕ) (vBuffer : List MediaPacket)
  | waits (buffer : List UInt8)

/-- The loop of `readPacket`. No more is popped than the packet holds. -/
def readLoop (iSize : ℕ) (vBuffer : List MediaPacket) (buffer : List UInt8) : Read :=
  if buffer.length < iSize then
    match vBuffer with
    | [] => .waits buffer
    | pPckt::vRest =>
      if pPckt.type ≠ .media then
        if pPckt.type = .end then .returned buffer 0 vRest
        else readLoop iSize vRest buffer
      else
        let iPayload := min pPckt.size (iSize-buffer.length)
        if (pPckt.popped iPayload).size = 0 then
          readLoop iSize vRest (buffer++pPckt.bytes.take iPayload)
        else readLoop iSize (pPckt.popped iPayload::vRest) (buffer++pPckt.bytes.take iPayload)
  else .returned buffer buffer.length vBuffer
termination_by (vBuffer.length, iSize-buffer.length)
decreasing_by
  · exact Prod.Lex.left _ _ (Nat.lt_succ_self _)
  · exact Prod.Lex.left _ _ (Nat.lt_succ_self _)
  · rename_i hroom _ hleft
    simp only [iPayload, MediaPacket.size, MediaPacket.popped, List.length_drop] at hleft ⊢
    apply Prod.Lex.right
    rw [List.length_append, List.length_take]
    omega

def readPacket (iSize : ℕ) (vBuffer : List MediaPacket) : Read := readLoop iSize vBuffer []

/-- What successive calls deliver; a call that waits forever is the last one. -/
def reads : List ℕ → List MediaPacket → List (List UInt8)
  | [], _ => []
  | iSize::sizes, vBuffer =>
    match readPacket iSize vBuffer with
    | .returned buffer iReturn vRest => buffer.take iReturn::reads sizes vRest
    | .waits _ => []

def payload (packets : List MediaPacket) : List UInt8 :=
  (packets.filter fun p => p.type = .media).flatMap fun p => p.bytes

def Unended (packets : List MediaPacket) : Prop := ∀ p ∈ packets, p.type ≠ .end

instance (packets : List MediaPacket) : Decidable (Unended packets) :=
  inferInstanceAs (Decidable (∀ _ ∈ packets, _))

/-! ## One iteration -/

section
variable {iSize : ℕ} {buffer : List UInt8} {p : MediaPacket} {q : List MediaPacket}

theorem loop_full (h : iSize ≤ buffer.length) :
    readLoop iSize q buffer = .returned buffer buffer.length q := by
  rw [readLoop.eq_def, if_neg (by omega)]

theorem loop_empty (h : buffer.length < iSize) : readLoop iSize [] buffer = .waits buffer := by
  rw [readLoop, if_pos h]

theorem loop_end (h : buffer.length < iSize) (hp : p.type = .end) :
    readLoop iSize (p::q) buffer = .returned buffer 0 q := by
  rw [readLoop, if_pos h]
  simp only
  rw [if_pos (by rw [hp]; decide), if_pos hp]

theorem loop_reset (h : buffer.length < iSize) (hmedia : p.type ≠ .media) (hend : p.type ≠ .end) :
    readLoop iSize (p::q) buffer = readLoop iSize q buffer := by
  rw [readLoop, if_pos h]
  simp only
  rw [if_pos hmedia, if_neg hend]

theorem loop_depleted (h : buffer.length < iSize) (hp : p.type = .media)
    (hfits : buffer.length+p.size ≤ iSize) :
    readLoop iSize (p::q) buffer = readLoop iSize q (buffer++p.bytes) := by
  have hpayload : min p.size (iSize-buffer.length) = p.size := by omega
  rw [readLoop, if_pos h]
  simp only
  rw [if_neg (by rw [hp]; decide), hpayload, if_pos (by simp [MediaPacket.size,
    MediaPacket.popped]), MediaPacket.size, List.take_length]

/-- The packet stays at the front with what the read did not take. -/
theorem loop_part (h : buffer.length < iSize) (hp : p.type = .media)
    (hmore : iSize < buffer.length+p.size) :
    readLoop iSize (p::q) buffer =
      .returned (buffer++p.bytes.take (iSize-buffer.length)) iSize
        (p.popped (iSize-buffer.length)::q) := by
  have hpayload : min p.size (iSize-buffer.length) = iSize-buffer.length := by omega
  have hlength : (buffer++p.bytes.take (iSize-buffer.length)).length = iSize := by
    rw [MediaPacket.size] at hmore
    rw [List.length_append, List.length_take]
    omega
  rw [readLoop, if_pos h]
  simp only
  rw [if_neg (by rw [hp]; decide), hpayload, if_neg, loop_full (by omega), hlength]
  rw [MediaPacket.size] at hmore
  rw [MediaPacket.size, MediaPacket.popped, List.length_drop]
  omega

end

/-! ## The queue grows while a read goes on -/

/-- A read that waits goes on with the packets that come. -/
def Read.resume (iSize : ℕ) (more : List MediaPacket) : Read → Read
  | .returned buffer iReturn vBuffer => .returned buffer iReturn (vBuffer++more)
  | .waits buffer => readLoop iSize more buffer

/-- When the packets arrive makes no difference. -/
theorem loop_append (iSize : ℕ) (q more : List MediaPacket) (buffer : List UInt8) :
    readLoop iSize (q++more) buffer = (readLoop iSize q buffer).resume iSize more := by
  induction q generalizing buffer with
  | nil =>
    by_cases hroom : buffer.length < iSize
    · rw [loop_empty hroom, List.nil_append, Read.resume]
    · rw [loop_full (by omega), loop_full (by omega), Read.resume]
  | cons p q ih =>
    by_cases hroom : buffer.length < iSize
    · rw [List.cons_append]
      by_cases hmedia : p.type = .media
      · by_cases hfits : buffer.length+p.size ≤ iSize
        · rw [loop_depleted hroom hmedia hfits, loop_depleted hroom hmedia hfits, ih]
        · rw [loop_part hroom hmedia (by omega), loop_part hroom hmedia (by omega),
            Read.resume, List.cons_append]
      · by_cases hend : p.type = .end
        · rw [loop_end hroom hend, loop_end hroom hend, Read.resume]
        · rw [loop_reset hroom hmedia hend, loop_reset hroom hmedia hend, ih]
    · rw [loop_full (by omega), loop_full (by omega), Read.resume]

/-! ## One read -/

theorem payload_cons_media {p : MediaPacket} {q : List MediaPacket} (hp : p.type = .media) :
    payload (p::q) = p.bytes++payload q := by
  rw [payload, List.filter_cons_of_pos (by simp [hp]), List.flatMap_cons, payload]

theorem payload_cons_other {p : MediaPacket} {q : List MediaPacket} (hp : p.type ≠ .media) :
    payload (p::q) = payload q := by
  rw [payload, List.filter_cons_of_neg (by simp [hp]), payload]

/-- Without an end packet a read takes what it asks for, or all there is, and waits. -/
theorem loop_unended {iSize : ℕ} {q : List MediaPacket} (hq : Unended q) (buffer : List UInt8)
    (hbuffer : buffer.length ≤ iSize) :
    (buffer.length+(payload q).length < iSize ∧
      readLoop iSize q buffer = .waits (buffer++payload q)) ∨
    (iSize ≤ buffer.length+(payload q).length ∧ ∃ rest, Unended rest ∧
      readLoop iSize q buffer =
        .returned (buffer++(payload q).take (iSize-buffer.length)) iSize rest ∧
      payload rest = (payload q).drop (iSize-buffer.length)) := by
  induction q generalizing buffer with
  | nil =>
    by_cases hroom : buffer.length < iSize
    · left
      rw [loop_empty hroom]
      simpa [payload] using hroom
    · right
      have heq : buffer.length = iSize := by omega
      refine ⟨by omega, [], hq, ?_, ?_⟩
      · rw [loop_full (by omega), heq]
        simp [payload]
      · simp [payload]
  | cons p q ih =>
    have hrest : Unended q := fun r hr => hq r (List.mem_cons_of_mem p hr)
    by_cases hroom : buffer.length < iSize
    · by_cases hmedia : p.type = .media
      · rw [payload_cons_media hmedia, List.length_append]
        by_cases hfits : buffer.length+p.size ≤ iSize
        · rw [loop_depleted hroom hmedia hfits]
          rw [MediaPacket.size] at hfits
          have hsub : iSize-buffer.length-p.bytes.length = iSize-(buffer++p.bytes).length := by
            rw [List.length_append]
            omega
          rcases ih hrest (buffer++p.bytes) (by rw [List.length_append]; omega) with
            ⟨hshort, hloop⟩ | ⟨henough, rest, hunended, hloop, hpayload⟩
          · left
            rw [List.length_append] at hshort
            rw [hloop, List.append_assoc]
            exact ⟨by omega, rfl⟩
          · right
            rw [List.length_append] at henough
            refine ⟨by omega, rest, hunended, ?_, ?_⟩
            · rw [hloop, List.take_append, hsub, List.append_assoc,
                List.take_of_length_le (by omega : p.bytes.length ≤ iSize-buffer.length)]
            · rw [hpayload, List.drop_append, hsub,
                List.drop_of_length_le (by omega : p.bytes.length ≤ iSize-buffer.length),
                List.nil_append]
        · right
          have hsize := hfits
          rw [MediaPacket.size] at hsize
          refine ⟨by omega, p.popped (iSize-buffer.length)::q, ?_, ?_, ?_⟩
          · intro r hr
            rcases List.mem_cons.mp hr with rfl | hr
            · exact hq p List.mem_cons_self
            · exact hrest r hr
          · rw [loop_part hroom hmedia (by omega), List.take_append_of_le_length (by omega)]
          · rw [payload_cons_media (p := p.popped (iSize-buffer.length)) hmedia,
              List.drop_append_of_le_length (by omega), MediaPacket.popped]
      · rw [loop_reset hroom hmedia (hq p List.mem_cons_self), payload_cons_other hmedia]
        exact ih hrest buffer hbuffer
    · right
      have heq : buffer.length = iSize := by omega
      refine ⟨by omega, p::q, hq, ?_, ?_⟩
      · rw [loop_full (by omega), heq, Nat.sub_self, List.take_zero, List.append_nil]
      · rw [heq, Nat.sub_self, List.drop_zero]

section
variable {iSize : ℕ} {q : List MediaPacket} {pEnd : MediaPacket}

theorem read_enough (hq : Unended q) (h : iSize ≤ (payload q).length) :
    ∃ rest, Unended rest ∧ payload rest = (payload q).drop iSize ∧
      readPacket iSize (q++[pEnd]) = .returned ((payload q).take iSize) iSize (rest++[pEnd]) := by
  rcases loop_unended hq [] (Nat.zero_le iSize) with
    ⟨hshort, -⟩ | ⟨-, rest, hunended, hloop, hpayload⟩
  · rw [List.length_nil] at hshort
    omega
  · refine ⟨rest, hunended, hpayload, ?_⟩
    rw [readPacket, loop_append, hloop, Read.resume]
    rfl

/-- The bytes in front of the end packet are copied, but the call returns 0. -/
theorem read_short (hq : Unended q) (hend : pEnd.type = .end) (h : (payload q).length < iSize) :
    readPacket iSize (q++[pEnd]) = .returned (payload q) 0 [] := by
  rcases loop_unended hq [] (Nat.zero_le iSize) with ⟨-, hloop⟩ | ⟨henough, -⟩
  · rw [readPacket, loop_append, hloop, Read.resume, List.nil_append, loop_end h hend]
  · rw [List.length_nil] at henough
    omega

end

/-! ## Successive reads -/

/-- The calls deliver the payload in order, as many bytes as they ask for, and one that returns 0
comes behind all of them. -/
structure Lossless (past : List MediaPacket) (pEnd : MediaPacket) (sizes : List ℕ) : Prop where
  delivered : (reads sizes (past++[pEnd])).flatten = (payload past).take sizes.sum
  last : ∀ k : ℕ, (reads sizes (past++[pEnd]))[k]? = some [] →
    ((reads sizes (past++[pEnd])).take k).flatten = payload past

/-- No read starts in front of the last byte and asks for more than is left. -/
def Aligned (iTotal : ℕ) (sizes : List ℕ) : Prop :=
  ∀ k < sizes.length, (sizes.take k).sum < iTotal → (sizes.take (k+1)).sum ≤ iTotal

instance (iTotal : ℕ) (sizes : List ℕ) : Decidable (Aligned iTotal sizes) :=
  inferInstanceAs (Decidable (∀ _ < _, _))

theorem aligned_enough {iTotal iSize : ℕ} {sizes : List ℕ} (h : iSize ≤ iTotal) :
    Aligned iTotal (iSize::sizes) ↔ Aligned (iTotal-iSize) sizes := by
  constructor
  · intro haligned k hk hbefore
    have hnext := haligned (k+1) (by rw [List.length_cons]; omega)
    rw [List.take_succ_cons, List.take_succ_cons, List.sum_cons, List.sum_cons] at hnext
    omega
  · intro haligned k hk hbefore
    cases k with
    | zero => simpa using h
    | succ k =>
      have hnext := haligned k (by rw [List.length_cons] at hk; omega)
      rw [List.take_succ_cons, List.sum_cons] at hbefore ⊢
      omega

theorem aligned_short {iTotal iSize : ℕ} {sizes : List ℕ} (h : iTotal < iSize) :
    Aligned iTotal (iSize::sizes) ↔ iTotal = 0 := by
  constructor
  · intro haligned
    have hfirst := haligned 0 (by simp)
    simp only [List.take_zero, List.sum_nil, List.take_succ_cons, List.sum_cons] at hfirst
    omega
  · intro hzero k _ hbefore
    omega

theorem reads_empty {sizes : List ℕ} (hsizes : ∀ iSize ∈ sizes, 0 < iSize) :
    reads sizes [] = [] := by
  cases sizes with
  | nil => rfl
  | cons iSize sizes => rw [reads, readPacket, loop_empty (hsizes iSize List.mem_cons_self)]

section
variable {iSize : ℕ} {sizes : List ℕ} {past : List MediaPacket} {pEnd : MediaPacket}

theorem reads_short (hpast : Unended past) (hend : pEnd.type = .end)
    (hsizes : ∀ i ∈ sizes, 0 < i) (h : (payload past).length < iSize) :
    reads (iSize::sizes) (past++[pEnd]) = [[]] := by
  rw [reads, read_short hpast hend h]
  simp only
  rw [List.take_zero, reads_empty hsizes]

theorem lossless_short (hpast : Unended past) (hend : pEnd.type = .end)
    (hsizes : ∀ i ∈ sizes, 0 < i) (h : (payload past).length < iSize) :
    Lossless past pEnd (iSize::sizes) ↔ (payload past).length = 0 := by
  have hreads := reads_short hpast hend hsizes h
  constructor
  · intro hall
    have hlast := hall.last 0 (by rw [hreads]; rfl)
    rw [List.take_zero, List.flatten_nil] at hlast
    rw [← hlast, List.length_nil]
  · intro hzero
    have hnil := List.length_eq_zero_iff.mp hzero
    constructor
    · rw [hreads, hnil, List.take_nil]
      rfl
    · intro k hk
      rw [hreads] at hk ⊢
      rw [hnil]
      cases k with
      | zero => rfl
      | succ k => simp at hk

theorem lossless_enough {rest : List MediaPacket} (hpos : 0 < iSize)
    (h : iSize ≤ (payload past).length) (hrest : payload rest = (payload past).drop iSize)
    (hread : readPacket iSize (past++[pEnd]) =
      .returned ((payload past).take iSize) iSize (rest++[pEnd])) :
    Lossless past pEnd (iSize::sizes) ↔ Lossless rest pEnd sizes := by
  have hreads : reads (iSize::sizes) (past++[pEnd]) =
      (payload past).take iSize::reads sizes (rest++[pEnd]) := by
    rw [reads, hread]
    simp only
    rw [List.take_take, Nat.min_self]
  have hsplit := List.take_append_drop iSize (payload past)
  constructor
  · intro hall
    constructor
    · have hdelivered := hall.delivered
      rw [hreads, List.flatten_cons, List.sum_cons, List.take_add, ← hrest] at hdelivered
      exact List.append_cancel_left hdelivered
    · intro k hk
      have hlast := hall.last (k+1) (by rw [hreads, List.getElem?_cons_succ]; exact hk)
      rw [hreads, List.take_succ_cons, List.flatten_cons] at hlast
      rw [hrest]
      exact List.append_cancel_left (hlast.trans hsplit.symm)
  · intro hall
    constructor
    · rw [hreads, List.flatten_cons, List.sum_cons, List.take_add, hall.delivered, hrest]
    · intro k hk
      rw [hreads] at hk ⊢
      cases k with
      | zero =>
        have hlength := congrArg List.length (Option.some.inj hk)
        rw [List.length_take, List.length_nil] at hlength
        omega
      | succ k =>
        rw [List.getElem?_cons_succ] at hk
        rw [List.take_succ_cons, List.flatten_cons, hall.last k hk, hrest, hsplit]

end

theorem demultiplexer_lossless_iff (past : List MediaPacket) (pEnd : MediaPacket)
    (sizes : List ℕ) (hpast : Unended past) (hend : pEnd.type = .end)
    (hsizes : ∀ iSize ∈ sizes, 0 < iSize) :
    Lossless past pEnd sizes ↔ Aligned (payload past).length sizes := by
  induction sizes generalizing past with
  | nil =>
    constructor
    · intro _ k hk
      cases hk
    · intro _
      constructor
      · rfl
      · intro k hk
        cases hk
  | cons iSize sizes ih =>
    have hpos := hsizes iSize List.mem_cons_self
    have hothers := fun i hi => hsizes i (List.mem_cons_of_mem iSize hi)
    by_cases henough : iSize ≤ (payload past).length
    · rcases read_enough hpast henough with ⟨rest, hunended, hpayload, hread⟩
      rw [lossless_enough hpos henough hpayload hread, ih rest hunended hothers,
        aligned_enough henough, hpayload, List.length_drop]
    · rw [lossless_short hpast hend hothers (by omega), aligned_short (by omega)]

def examplePacket (type : PacketType) (bytes : List UInt8) : MediaPacket :=
  { (MediaPacket.new .media .mixed 16).pushed bytes with type := type }

theorem demultiplexer_lossless_witness :
    Lossless [examplePacket .media [1, 2, 3], examplePacket .reset [], examplePacket .media [4]]
      (examplePacket .end []) [2, 2, 7] :=
  (demultiplexer_lossless_iff _ _ _ (by decide) rfl (by decide)).mpr (by decide)

/-- The only byte is lost when more than one byte is asked for. -/
theorem demultiplexer_loses_tail :
    ¬ ∀ (past : List MediaPacket) (pEnd : MediaPacket) (sizes : List ℕ), Unended past →
      pEnd.type = .end → (∀ iSize ∈ sizes, 0 < iSize) → Lossless past pEnd sizes := by
  intro hall
  have hlossless := hall [examplePacket .media [1]] (examplePacket .end []) [2] (by decide) rfl
    (by decide)
  have hzero := (lossless_short (by decide) rfl (by decide) (by decide)).mp hlossless
  exact absurd hzero (by decide)

end Sirannon.FFmpegDemultiplexer
