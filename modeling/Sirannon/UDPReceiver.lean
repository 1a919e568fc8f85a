import Sirannon.TCPTransport

/-!
# Messages in a datagram

With the extension on, a datagram holds messages like those over TCP, one
behind the other. The encoded length of each is held against the size of the
whole datagram, not against what is left of it, and the header is read before
anything tells that it is there.
-/

set_option autoImplicit false

namespace Sirannon.UDP
open Bits BitString ByteMemory MachineInt TCP

def buffer_size : ℕ := 1500

structure UDPReceiver extends TCPReceiver where
  bExtension : Bool
  iLastDts : ℤ

/-- The header of a new packet: media, mixed, an elementary stream of no codec, no frame. -/
def newHeader : Header where
  dts := 0
  inc := 0
  unitnumber := 0
  framenumber := 0
  subframenumber := 0
  codec := 0
  type := 0
  content := 2
  mux := 0
  frame := 23
  framestart := true
  frameend := true
  key := false

def newPacket (bytes : Bytes) : Routed where
  toHeader := newHeader
  bytes := bytes
  pts := 0
  xstream := 0
  xroute := 0

/-- Does `push_back` refuse `len` bytes in a new packet for `iMaxSize` bytes? -/
def Overflows (iMaxSize len : ℕ) : Prop := iMaxSize+64 ≤ 32+len

instance (iMaxSize len : ℕ) : Decidable (Overflows iMaxSize len) :=
  inferInstanceAs (Decidable (_ ≤ _))

/-- What the descriptor and the last time stamp become with a header. -/
def UDPReceiver.acquire (r : UDPReceiver) (h : Header) : UDPReceiver :=
  let iLastDts := if r.iLastDts = -1 then h.dts else r.iLastDts
  if h.dts ≠ iLastDts then
    { r with codec := h.codec, inc := int32 (h.dts-iLastDts), iLastDts := h.dts }
  else { r with codec := h.codec, inc := h.inc, iLastDts := iLastDts }

/-- How a turn of the loop ends: the packet, where its data lies in the buffer and how long
it is, and where the next turn starts. -/
structure Turn where
  pPckt : Routed
  iData : ℕ
  iLength : ℤ
  iOffset : ℕ
  receiver : UDPReceiver

/-- A turn of the loop with the extension, with the parts of the buffer it reads. -/
def message (r : UDPReceiver) (iBuffer iOffset : ℕ) :
    List (ℕ × ℕ) × Except SirannonException Turn :=
  let iMessage := decode_length (shift r.pBuffer iOffset)
  if (iBuffer : ℤ)-2 < iMessage then
    ([(iOffset, 2)],
      .error (valueError s!"Illegal encoded length({iMessage}) buffer({iBuffer})"))
  else
    let h := decode_header (shift r.pBuffer (iOffset+2))
    let len := uint32 (iMessage-21)
    if Overflows (iBuffer-iOffset) len then
      ([(iOffset, 2), (iOffset+2, 21)], .error (outOfBoundsError "MediaPacket overflow"))
    else
      ([(iOffset, 2), (iOffset+2, 21), (iOffset+23, len)],
        .ok { pPckt := decode_additional r.toTCPReceiver h (load r.pBuffer (iOffset+23) len)
              iData := iOffset+23
              iLength := iMessage-21
              iOffset := iOffset+2+iMessage
              receiver := r.acquire h })

/-- Without the extension the datagram is the packet. -/
def plain (r : UDPReceiver) (iBuffer : ℕ) : List (ℕ × ℕ) × Except SirannonException Turn :=
  ([(0, iBuffer)],
    .ok { pPckt := newPacket (load r.pBuffer 0 iBuffer)
          iData := 0
          iLength := iBuffer
          iOffset := iBuffer
          receiver := r })

def turn (r : UDPReceiver) (iBuffer iOffset : ℕ) :
    List (ℕ × ℕ) × Except SirannonException Turn :=
  if r.bExtension then message r iBuffer iOffset else plain r iBuffer

/-- The packets routed out of a datagram with the place of their data, the error that ends the
thread, the parts of the buffer read, and the offset at each turn and at the end. -/
structure Parsing where
  vRouted : List (Routed × ℕ × ℤ)
  error : Option SirannonException
  vRead : List (ℕ × ℕ)
  vOffset : List ℕ
  iEnd : ℕ

def Parsing.after (vRead : List (ℕ × ℕ)) (iOffset : ℕ) (t : Turn) (p : Parsing) : Parsing where
  vRouted := (t.pPckt, t.iData, t.iLength) :: p.vRouted
  error := p.error
  vRead := vRead ++ p.vRead
  vOffset := iOffset :: p.vOffset
  iEnd := p.iEnd

/-- `while( iOffset < iBuffer )` -/
def parseLoop : ℕ → UDPReceiver → ℕ → ℕ → Parsing × UDPReceiver
  | 0, r, _, iOffset => (⟨[], none, [], [], iOffset⟩, r)
  | fuel+1, r, iBuffer, iOffset =>
    if iOffset < iBuffer then
      match turn r iBuffer iOffset with
      | (vRead, .error e) => (⟨[], some e, vRead, [iOffset], iOffset⟩, r)
      | (vRead, .ok t) =>
        let rest := parseLoop fuel t.receiver iBuffer t.iOffset
        (rest.1.after vRead iOffset t, rest.2)
    else (⟨[], none, [], [], iOffset⟩, r)

/-- The packet that tells that the sender has closed the connection. -/
def closing (r : UDPReceiver) : Parsing where
  vRouted := if r.bExtension then [] else [(newPacket [], 0, 0)]
  error := none
  vRead := []
  vOffset := []
  iEnd := 0

/-- The thread, over what the socket delivers: a datagram, cut off behind the buffer, or a failure.
Every datagram comes with what it led to. -/
def handleReceive : UDPReceiver → List (Option Bytes) → List (Bytes × Parsing)
  | _, [] => []
  | r, none::_ =>
    [([], { closing r with
        vRouted := [], error := some (runtimeError "Couldn't receive data from host") })]
  | r, some sent::stream =>
    let datagram := sent.take buffer_size
    if datagram = [] then [([], closing r)]
    else
      let r := { r with pBuffer := store r.pBuffer 0 datagram }
      let p := parseLoop datagram.length r datagram.length 0
      (datagram, p.1) :: if p.1.error = none then handleReceive p.2 stream else []

/-! ## Bounds -/

/-- Everything read lies in the datagram, so does the payload of every packet, and the offset moves
on until the end of the datagram or an error. -/
structure InBounds (datagram : Bytes) (p : Parsing) : Prop where
  reads : ∀ x ∈ p.vRead, x.1+x.2 ≤ datagram.length
  payload : ∀ q ∈ p.vRouted, 0 ≤ q.2.2 ∧ q.2.1+q.2.2 ≤ datagram.length ∧
    q.1.bytes = (datagram.drop q.2.1).take q.2.2.toNat
  advances : p.vOffset.Pairwise (· < ·)
  ends : p.error = none → p.iEnd = datagram.length

def encodedLength (hi lo : UInt8) : ℕ := hi.toNat*256+lo.toNat

/-- What is left of a datagram of `n` bytes, up to the first message whose length is refused, is
cut into messages that are there completely. -/
inductive WellFramed (n : ℕ) : Bytes → Prop
  | done : WellFramed n []
  | refused {hi lo : UInt8} {rest : Bytes} (hlength : n < encodedLength hi lo+2) :
      WellFramed n (hi::lo::rest)
  | tooShort {hi lo : UInt8} {rest : Bytes} (hheader : 21 ≤ rest.length)
      (hlength : encodedLength hi lo < 21) : WellFramed n (hi::lo::rest)
  | overflows {hi lo : UInt8} {rest : Bytes} (hheader : 21 ≤ rest.length)
      (hlength : rest.length+55 ≤ encodedLength hi lo) : WellFramed n (hi::lo::rest)
  | message {hi lo : UInt8} {rest : Bytes} (hheader : 21 ≤ encodedLength hi lo)
      (hlength : encodedLength hi lo ≤ rest.length)
      (hrest : WellFramed n (rest.drop (encodedLength hi lo))) : WellFramed n (hi::lo::rest)

theorem decode_length_eq (m : Memory) : decode_length m = encodedLength (m 0) (m 1) := by
  obtain ⟨hvalue, -⟩ := IBits.read_spec (IBits.new m 2) 16 (by simp [IBits.Loaded, IBits.new])
    (by omega)
  have hbits := bits_load m 0 2
  rw [decode_length, hvalue]
  show value (bits m 0 16) = _
  rw [show (16 : ℕ) = 8*2 by rfl, show (0 : ℕ) = 8*0 by rfl, hbits, load, load, load, ofBytes_cons,
    ofBytes_cons, ofBytes_nil, value_append, value_append, value_ofNat, value_ofNat]
  simp only [List.append_nil, ofNat_length, List.length_nil, value]
  have h₀ := (m 0).toNat_lt
  have h₁ := (m (0+1)).toNat_lt
  rw [encodedLength, Nat.mod_eq_of_lt h₀, Nat.mod_eq_of_lt h₁, Nat.pow_zero, Nat.mul_one]
  rfl

theorem acquire_pBuffer (r : UDPReceiver) (h : Header) : (r.acquire h).pBuffer = r.pBuffer := by
  dsimp only [UDPReceiver.acquire]
  split_ifs <;> rfl

theorem acquire_bExtension (r : UDPReceiver) (h : Header) :
    (r.acquire h).bExtension = r.bExtension := by
  dsimp only [UDPReceiver.acquire]
  split_ifs <;> rfl

/-- The turn that takes a message of `iMessage` bytes. -/
def taken (r : UDPReceiver) (iOffset iMessage : ℕ) : Turn where
  pPckt := decode_additional r.toTCPReceiver (decode_header (shift r.pBuffer (iOffset+2)))
    (load r.pBuffer (iOffset+23) (uint32 (iMessage-21)))
  iData := iOffset+23
  iLength := iMessage-21
  iOffset := iOffset+2+iMessage
  receiver := r.acquire (decode_header (shift r.pBuffer (iOffset+2)))

theorem message_cases (r : UDPReceiver) (iBuffer iOffset iMessage : ℕ)
    (hlength : iMessage = decode_length (shift r.pBuffer iOffset)) :
    (iBuffer < iMessage+2 ∧ ∃ e, message r iBuffer iOffset = ([(iOffset, 2)], .error e)) ∨
    (iMessage+2 ≤ iBuffer ∧ Overflows (iBuffer-iOffset) (uint32 (iMessage-21)) ∧
      ∃ e, message r iBuffer iOffset = ([(iOffset, 2), (iOffset+2, 21)], .error e)) ∨
    (iMessage+2 ≤ iBuffer ∧ ¬ Overflows (iBuffer-iOffset) (uint32 (iMessage-21)) ∧
      message r iBuffer iOffset =
        ([(iOffset, 2), (iOffset+2, 21), (iOffset+23, uint32 (iMessage-21))],
          .ok (taken r iOffset iMessage))) := by
  subst hlength
  by_cases hrefused : (iBuffer : ℤ)-2 < decode_length (shift r.pBuffer iOffset)
  · left
    refine ⟨by omega, ?_⟩
    rw [message]
    exact ⟨_, if_pos hrefused⟩
  · right
    by_cases hover : Overflows (iBuffer-iOffset)
        (uint32 (decode_length (shift r.pBuffer iOffset)-21))
    · left
      refine ⟨by omega, hover, outOfBoundsError "MediaPacket overflow", ?_⟩
      rw [message]
      exact (if_neg hrefused).trans (if_pos hover)
    · right
      refine ⟨by omega, hover, ?_⟩
      rw [message]
      exact (if_neg hrefused).trans (if_neg hover)

/-- The loop has moved on from `iOffset`, and at least two bytes each time. -/
theorem parseLoop_advances (fuel : ℕ) (r : UDPReceiver) (iBuffer iOffset : ℕ)
    (hext : r.bExtension = true) :
    (parseLoop fuel r iBuffer iOffset).1.vOffset.Pairwise (· < ·) ∧
      ∀ x ∈ (parseLoop fuel r iBuffer iOffset).1.vOffset, iOffset ≤ x := by
  induction fuel generalizing r iOffset with
  | zero => simp [parseLoop]
  | succ fuel ih =>
    rw [parseLoop]
    split_ifs
    · rw [turn, if_pos hext]
      rcases message_cases r iBuffer iOffset _ rfl with ⟨-, e, he⟩ | ⟨-, -, e, he⟩ | ⟨-, -, hok⟩
      · simp [he]
      · simp [he]
      · generalize decode_length (shift r.pBuffer iOffset) = iMessage at hok
        obtain ⟨hchain, hlow⟩ := ih (taken r iOffset iMessage).receiver
          (taken r iOffset iMessage).iOffset (by rw [taken, acquire_bExtension, hext])
        rw [hok]
        refine ⟨List.pairwise_cons.mpr ⟨?_, hchain⟩, ?_⟩
        · intro x hx
          have hle : iOffset+2+iMessage ≤ x := hlow x hx
          omega
        · intro x hx
          rcases List.mem_cons.mp hx with rfl | hx
          · exact le_rfl
          · have hle : iOffset+2+iMessage ≤ x := hlow x hx
            omega
    · simp

theorem load_part {m : Memory} {n off len : ℕ} (h : off+len ≤ n) :
    load m off len = ((load m 0 n).drop off).take len := by
  rw [load_drop m 0 (by omega), Nat.zero_add, load_take m off (n-off) len (by omega)]

/-- All of `InBounds` but the order of the offsets. -/
def Bounded (datagram : Bytes) (p : Parsing) : Prop :=
  (∀ x ∈ p.vRead, x.1+x.2 ≤ datagram.length) ∧
    (∀ q ∈ p.vRouted, 0 ≤ q.2.2 ∧ q.2.1+q.2.2 ≤ datagram.length ∧
      q.1.bytes = (datagram.drop q.2.1).take q.2.2.toNat) ∧
    (p.error = none → p.iEnd = datagram.length)

theorem bounded_after (datagram : Bytes) (vRead : List (ℕ × ℕ)) (iOffset : ℕ) (t : Turn)
    (p : Parsing) : Bounded datagram (p.after vRead iOffset t) ↔
      (∀ x ∈ vRead, x.1+x.2 ≤ datagram.length) ∧
        (0 ≤ t.iLength ∧ t.iData+t.iLength ≤ datagram.length ∧
          t.pPckt.bytes = (datagram.drop t.iData).take t.iLength.toNat) ∧
        Bounded datagram p := by
  rw [Bounded, Parsing.after]
  dsimp only
  rw [List.forall_mem_append, List.forall_mem_cons]
  constructor
  · rintro ⟨⟨h₁, h₂⟩, ⟨h₃, h₄⟩, h₅⟩
    exact ⟨h₁, h₃, h₂, h₄, h₅⟩
  · rintro ⟨h₁, h₃, h₂, h₄, h₅⟩
    exact ⟨⟨h₁, h₂⟩, ⟨h₃, h₄⟩, h₅⟩

theorem drop_load {m : Memory} {datagram : Bytes} (hm : load m 0 datagram.length = datagram)
    {iOffset : ℕ} (h : iOffset ≤ datagram.length) :
    datagram.drop iOffset = load m iOffset (datagram.length-iOffset) := by
  conv_lhs => rw [← hm]
  rw [load_drop m 0 h, Nat.zero_add]

theorem wellFramed_one (n : ℕ) (b : UInt8) : ¬ WellFramed n [b] := by
  intro h
  cases h

/-- The message at hand decides, and then what is behind it. -/
theorem wellFramed_iff (n : ℕ) (hi lo : UInt8) (rest : Bytes) :
    WellFramed n (hi::lo::rest) ↔ n < encodedLength hi lo+2 ∨
      21 ≤ rest.length ∧ (encodedLength hi lo < 21 ∨ rest.length+55 ≤ encodedLength hi lo ∨
        encodedLength hi lo ≤ rest.length ∧ WellFramed n (rest.drop (encodedLength hi lo))) := by
  constructor
  · intro h
    cases h with
    | refused hlength => exact Or.inl hlength
    | tooShort hheader hlength => exact Or.inr ⟨hheader, Or.inl hlength⟩
    | overflows hheader hlength => exact Or.inr ⟨hheader, Or.inr (Or.inl hlength)⟩
    | message hheader hlength hrest =>
      exact Or.inr ⟨by omega, Or.inr (Or.inr ⟨hlength, hrest⟩)⟩
  · rintro (hlength | ⟨hheader, hlength⟩)
    · exact .refused hlength
    · rcases hlength with hshort | hlength
      · exact .tooShort hheader hshort
      · rcases hlength with hover | ⟨hlength, hrest⟩
        · exact .overflows hheader hover
        · by_cases hshort : encodedLength hi lo < 21
          · exact .tooShort hheader hshort
          · exact .message (by omega) hlength hrest

/-- In a datagram of the size the socket delivers a length wraps around exactly when it does not
count the header, and then it is refused. -/
theorem overflows_iff {n iOffset iMessage : ℕ} (hn : n ≤ buffer_size) (ho : iOffset ≤ n)
    (hmessage : iMessage+2 ≤ n) : Overflows (n-iOffset) (uint32 (iMessage-21)) ↔
      iMessage < 21 ∨ n-iOffset+53 ≤ iMessage := by
  rw [buffer_size] at hn
  rw [Overflows, uint32]
  omega

theorem taken_payload {r : UDPReceiver} {datagram : Bytes}
    (hm : load r.pBuffer 0 datagram.length = datagram) {iOffset iMessage : ℕ}
    (hlen : uint32 ((iMessage : ℤ)-21) = iMessage-21)
    (hfit : 21 ≤ iMessage ∧ iOffset+2+iMessage ≤ datagram.length) :
    0 ≤ (taken r iOffset iMessage).iLength ∧
      (taken r iOffset iMessage).iData+(taken r iOffset iMessage).iLength ≤ datagram.length ∧
      (taken r iOffset iMessage).pPckt.bytes =
        (datagram.drop (taken r iOffset iMessage).iData).take
          (taken r iOffset iMessage).iLength.toNat := by
  dsimp only [taken, decode_additional]
  refine ⟨by omega, by omega, ?_⟩
  rw [hlen, show ((iMessage : ℤ)-21).toNat = iMessage-21 by omega,
    load_part (show iOffset+23+(iMessage-21) ≤ datagram.length by omega), hm]

theorem parseLoop_bounded (fuel : ℕ) (r : UDPReceiver) (datagram : Bytes) (iOffset : ℕ)
    (hext : r.bExtension = true) (hm : load r.pBuffer 0 datagram.length = datagram)
    (hn : datagram.length ≤ buffer_size) (ho : iOffset ≤ datagram.length)
    (hfuel : datagram.length-iOffset ≤ fuel) :
    Bounded datagram (parseLoop fuel r datagram.length iOffset).1 ↔
      WellFramed datagram.length (datagram.drop iOffset) := by
  induction fuel generalizing r iOffset with
  | zero =>
    have hend : iOffset = datagram.length := by omega
    subst hend
    rw [List.drop_length]
    refine ⟨fun _ => .done, fun _ => ?_⟩
    simp [parseLoop, Bounded]
  | succ fuel ih =>
    rw [parseLoop]
    split_ifs with hmore
    · rw [drop_load hm ho, turn, if_pos hext]
      have hlength := decode_length_eq (shift r.pBuffer iOffset)
      have hcases := message_cases r datagram.length iOffset _ rfl
      rw [hlength] at hcases
      have h₀ : shift r.pBuffer iOffset 0 = r.pBuffer iOffset := rfl
      have h₁ : shift r.pBuffer iOffset 1 = r.pBuffer (iOffset+1) := rfl
      rw [h₀, h₁] at hcases
      by_cases hone : datagram.length-iOffset = 1
      · -- the length is read past the end
        rw [hone, load, load]
        refine ⟨fun h => ?_, fun h => absurd h (wellFramed_one _ _)⟩
        exfalso
        rcases hcases with ⟨-, e, he⟩ | ⟨-, -, e, he⟩ | ⟨-, -, hok⟩
        · rw [he] at h
          have hread := h.1 (iOffset, 2) (List.mem_cons_self ..)
          simp only at hread
          omega
        · rw [he] at h
          have hread := h.1 (iOffset, 2) (List.mem_cons_self ..)
          simp only at hread
          omega
        · rw [hok] at h
          have hread := h.1 (iOffset, 2) (List.mem_cons_self ..)
          simp only at hread
          omega
      · obtain ⟨k, hk⟩ : ∃ k, datagram.length-iOffset = k+2 := ⟨datagram.length-iOffset-2, by omega⟩
        rw [hk, load, load, wellFramed_iff, load_length]
        generalize encodedLength (r.pBuffer iOffset) (r.pBuffer (iOffset+1)) = iMessage at hcases ⊢
        rcases hcases with ⟨hrefused, e, he⟩ | ⟨hle, hover, e, he⟩ | ⟨hle, hover, hok⟩
        · rw [he]
          refine ⟨fun _ => Or.inl (by omega), fun _ => ?_⟩
          refine ⟨?_, by simp, by simp⟩
          simp only [List.mem_singleton, forall_eq]
          omega
        · rw [he]
          rw [overflows_iff hn ho hle] at hover
          simp only [Bounded, List.forall_mem_cons, List.not_mem_nil, false_imp_iff,
            implies_true, and_true, reduceCtorEq]
          omega
        · rw [hok]
          rw [overflows_iff hn ho hle] at hover
          show Bounded datagram ((parseLoop fuel (taken r iOffset iMessage).receiver
            datagram.length (taken r iOffset iMessage).iOffset).1.after _ iOffset _) ↔ _
          have hlen : uint32 ((iMessage : ℤ)-21) = iMessage-21 := by
            rw [uint32]
            rw [buffer_size] at hn
            omega
          have hbehind : load r.pBuffer (iOffset+1+1) k = datagram.drop (iOffset+2) := by
            rw [drop_load hm (by omega), show datagram.length-(iOffset+2) = k by omega]
          rw [bounded_after, hlen, hbehind, List.drop_drop]
          simp only [List.forall_mem_cons, List.not_mem_nil, false_imp_iff, implies_true, and_true]
          by_cases hfit : iMessage ≤ k
          · have hrest := ih (taken r iOffset iMessage).receiver (iOffset+2+iMessage)
              (by rw [taken, acquire_bExtension, hext]) (by rw [taken, acquire_pBuffer, hm])
              (by omega) (by omega)
            constructor
            · rintro ⟨-, -, hbounded⟩
              exact Or.inr ⟨by omega, Or.inr (Or.inr ⟨hfit, hrest.mp hbounded⟩)⟩
            · rintro (hrefused | ⟨-, hshort | hlong | ⟨-, hframed⟩⟩)
              · omega
              · omega
              · omega
              · exact ⟨by omega, taken_payload hm hlen (by omega), hrest.mpr hframed⟩
          · constructor
            · rintro ⟨⟨-, -, hread⟩, -⟩
              omega
            · rintro (hrefused | ⟨-, hshort | hlong | ⟨hle', -⟩⟩)
              all_goals omega
    · have hend : iOffset = datagram.length := by omega
      subst hend
      rw [List.drop_length]
      refine ⟨fun _ => .done, fun _ => ?_⟩
      simp [Bounded]

theorem inBounds_iff (datagram : Bytes) (p : Parsing) :
    InBounds datagram p ↔ Bounded datagram p ∧ p.vOffset.Pairwise (· < ·) :=
  ⟨fun h => ⟨⟨h.reads, h.payload, h.ends⟩, h.advances⟩,
    fun h => ⟨h.1.1, h.1.2.1, h.2, h.1.2.2⟩⟩

theorem parseLoop_bExtension (fuel : ℕ) (r : UDPReceiver) (iBuffer iOffset : ℕ)
    (hext : r.bExtension = true) : (parseLoop fuel r iBuffer iOffset).2.bExtension = true := by
  induction fuel generalizing r iOffset with
  | zero => exact hext
  | succ fuel ih =>
    rw [parseLoop]
    split_ifs
    · rw [turn, if_pos hext]
      rcases message_cases r iBuffer iOffset _ rfl with ⟨-, e, he⟩ | ⟨-, -, e, he⟩ | ⟨-, -, hok⟩
      · rw [he]
        exact hext
      · rw [he]
        exact hext
      · rw [hok]
        exact ih _ _ (by rw [taken, acquire_bExtension, hext])
    · exact hext

/-- Of every datagram received, whatever lies in the buffer behind it: the receiver stays inside
it exactly when it is well framed. -/
theorem in_bounds_iff (r : UDPReceiver) (stream : List (Option Bytes))
    (hext : r.bExtension = true) : ∀ x ∈ handleReceive r stream, x.1 ≠ [] →
      (InBounds x.1 x.2 ↔ WellFramed x.1.length x.1) := by
  induction stream generalizing r with
  | nil => simp [handleReceive]
  | cons d stream ih =>
    cases d with
    | none => simp [handleReceive]
    | some sent =>
      rw [handleReceive]
      by_cases hempty : sent.take buffer_size = []
      · simp [hempty]
      · simp only [if_neg hempty]
        generalize hd : sent.take buffer_size = datagram
        have hn : datagram.length ≤ buffer_size := by
          rw [← hd, List.length_take]
          exact Nat.min_le_left ..
        rw [List.forall_mem_cons]
        constructor
        · intro _
          have hload := load_store r.pBuffer 0 datagram
          rw [inBounds_iff, and_iff_left (parseLoop_advances _ _ _ _ (by exact hext)).1,
            parseLoop_bounded datagram.length _ datagram 0 (by exact hext) (by exact hload) hn
              (Nat.zero_le _) (by omega), List.drop_zero]
        · split_ifs
          · apply ih
            exact parseLoop_bExtension _ _ _ _ (by exact hext)
          · simp

def newReceiver : UDPReceiver where
  toTCPReceiver := emptyReceiver
  bExtension := true
  iLastDts := -1

/-- A message with the header only, and the length of the next with `rest` behind it. -/
def twoMessages (hi lo : UInt8) (rest : Bytes) : Bytes :=
  [0, 21] ++ List.replicate 21 0 ++ [hi, lo] ++ rest

theorem in_bounds_two : ∃ x ∈ handleReceive newReceiver
    [some (twoMessages 0 22 (List.replicate 22 7))], x.1.length = 47 ∧ InBounds x.1 x.2 := by
  refine ⟨_, List.mem_cons_self .., by decide, ?_⟩
  apply (in_bounds_iff newReceiver [some (twoMessages 0 22 (List.replicate 22 7))] rfl _
    (List.mem_cons_self ..) (by decide)).mpr
  apply WellFramed.message (by decide) (by decide)
  apply WellFramed.message (by decide) (by decide)
  exact .done

/-- The length of the second message is held against the 46 bytes of the datagram, 23 bytes behind
its end become part of the packet. -/
theorem second_message_beyond : ∃ x ∈ handleReceive newReceiver
    [some (twoMessages 0 44 (List.replicate 21 0))],
    x.1.length = 46 ∧ x.2.error = none ∧ ¬ InBounds x.1 x.2 := by
  refine ⟨_, List.mem_cons_self .., by decide, by decide +kernel, ?_⟩
  intro h
  have hread := h.reads (46, 23) (by decide +kernel)
  revert hread
  decide

end Sirannon.UDP
