import Sirannon.AMFNumber

/-!
# Reading of AMF0

A string is read a character at a time, its length counts bytes. A value goes
into one of three maps under its key; an associative array hands on the keys of
its members, so the maps are flat.
-/

set_option autoImplicit false

namespace Sirannon.Bits
open ByteMemory BitString

/-- The branches for longer sequences need a bit that the masked byte has not. -/
def IBits.read_UTF8 (b : IBits) : UInt8 × IBits :=
  let r := b.read 8
  let f := r.1 &&& 0xF0
  if r.1 &&& 0x80 = 0 then (UInt8.ofNat r.1, r.2)
  else if f = 0xC0 then (UInt8.ofNat (r.2.read 8).1, (r.2.read 8).2)
  else if f = 0xD0 then (0x3F, r.2.seek 1)
  else if f = 0xE0 then (0x3F, r.2.seek 2)
  else if f = 0xF0 then (0x3F, r.2.seek 3)
  else (0x3F, r.2)

/-! ## Bytes ahead -/

/-- The reader stands at byte `off` and `bs` comes next. -/
def IBits.At (b : IBits) (off : ℕ) (bs : List UInt8) : Prop := b.Ahead (8*off) (ofBytes bs)

/-- A number in `n` bytes, the first the highest. -/
def bigEndian (n v : ℕ) : List UInt8 := pack (ofNat (8*n) v)

theorem ofBytes_bigEndian (n v : ℕ) : ofBytes (bigEndian n v) = ofNat (8*n) v :=
  ofBytes_pack n _ (ofNat_length _ _)

theorem bigEndian_length (n v : ℕ) : (bigEndian n v).length = n := pack_length n _ (ofNat_length _ _)

variable {b : IBits} {off : ℕ} {x : UInt8} {xs rest : List UInt8}

theorem IBits.At.bare (h : b.At off xs) : b.At off [] := ⟨h.1, h.2.1, rfl⟩

theorem IBits.At.pos (h : b.At off xs) : b.pos = 8*off := h.2.1

theorem IBits.At.number {n v : ℕ} (h : b.At off (bigEndian n v ++ rest)) (hn : 8*n ≤ 32)
    (hv : v < 2^(8*n)) : (b.read (8*n)).1 = v ∧ (b.read (8*n)).2.At (off+n) rest := by
  rw [At, ofBytes_append, ofBytes_bigEndian] at h
  have hread := IBits.read_field h hn hv
  rw [← Nat.mul_add] at hread
  exact hread

theorem IBits.At.byte (h : b.At off (x::xs)) :
    (b.read 8).1 = x.toNat ∧ (b.read 8).2.At (off+1) xs := by
  rw [At, ofBytes_cons] at h
  have hread := IBits.read_field h (by omega) x.toNat_lt
  rw [show 8*off+8 = 8*(off+1) by omega] at hread
  exact hread

theorem IBits.At.any (h : b.At off []) : b.At off [b.buf off] := by
  have hbits := bits_byte b.buf off
  refine ⟨h.1, h.2.1, ?_⟩
  rw [ofBytes_cons, ofBytes_nil, List.append_nil, ofNat_length]
  exact hbits

theorem IBits.At.seek (h : b.At off (xs++rest)) : (b.seek xs.length).At (off+xs.length) rest := by
  rw [At, ofBytes_append] at h
  have hseek := IBits.ahead_seek (n := xs.length) h (ofBytes_length xs)
  rw [← Nat.mul_add] at hseek
  exact hseek

theorem IBits.At.skip (h : b.At off []) (n : ℕ) : (b.seek n).At (off+n) [] := by
  rcases IBits.seek_spec b n h.1 with ⟨hloaded, hpos, -, -⟩
  refine ⟨hloaded, ?_, rfl⟩
  rw [hpos, h.2.1, Nat.mul_add]

/-! ## One character -/

theorem byte_classes : ∀ x : Fin 256, (x.val &&& 0x80 = 0 ↔ x.val < 0x80) ∧
    x.val &&& 0xF0 = x.val/16*16 := by
  decide +kernel

theorem high_bit (x : UInt8) : x.toNat &&& 0x80 = 0 ↔ x.toNat < 0x80 :=
  (byte_classes ⟨x.toNat, x.toNat_lt⟩).1

theorem high_bits (x : UInt8) : x.toNat &&& 0xF0 = x.toNat/16*16 :=
  (byte_classes ⟨x.toNat, x.toNat_lt⟩).2

/-- What a byte below `0xC0` is read as. -/
def shown (x : UInt8) : UInt8 := if x.toNat < 0x80 then x else 0x3F

theorem IBits.At.narrow (h : b.At off (x::xs)) (hx : x.toNat < 0xC0) :
    b.read_UTF8.1 = shown x ∧ b.read_UTF8.2.At (off+1) xs := by
  have hbyte := h.byte
  rw [IBits.read_UTF8, hbyte.1, high_bits, shown]
  by_cases hlow : x.toNat < 0x80
  · rw [if_pos ((high_bit x).2 hlow), if_pos hlow]
    exact ⟨UInt8.ofNat_toNat, hbyte.2⟩
  · have hbit : ¬x.toNat &&& 0x80 = 0 := mt (high_bit x).1 hlow
    rw [if_neg hbit, if_neg (by omega), if_neg (by omega), if_neg (by omega), if_neg (by omega), if_neg hlow]
    exact ⟨rfl, hbyte.2⟩

theorem IBits.At.wide (h : b.At off (x::xs)) (hx : 0xC0 ≤ x.toNat) :
    ∃ k, 2 ≤ k ∧ b.read_UTF8.2.At (off+k) [] := by
  have hbyte := h.byte
  have hbare := hbyte.2.bare
  have hbit : ¬x.toNat &&& 0x80 = 0 := mt (high_bit x).1 (by omega)
  have hlt := x.toNat_lt
  rw [IBits.read_UTF8, hbyte.1, high_bits, if_neg hbit]
  by_cases hC : x.toNat/16*16 = 0xC0
  · rw [if_pos hC]
    exact ⟨2, le_refl 2, hbare.any.byte.2⟩
  rw [if_neg hC]
  by_cases hD : x.toNat/16*16 = 0xD0
  · rw [if_pos hD]
    exact ⟨2, le_refl 2, hbare.skip 1⟩
  rw [if_neg hD]
  by_cases hE : x.toNat/16*16 = 0xE0
  · rw [if_pos hE]
    exact ⟨3, by omega, hbare.skip 2⟩
  · rw [if_neg hE, if_pos (by omega)]
    exact ⟨4, by omega, hbare.skip 3⟩

end Sirannon.Bits

namespace Sirannon.AMF
open ByteMemory BitString Bits

/-! ## Markers -/

def BOOLEAN : ℕ := 1

def STRING : ℕ := 2

def OBJECT_START : ℕ := 3

def AMF_NULL : ℕ := 5

def UNDEFINED : ℕ := 6

def REFERENCE : ℕ := 7

def ARRAY : ℕ := 8

def OBJECT_END : ℕ := 9

def STRICT_ARRAY : ℕ := 0xA

def DATE : ℕ := 0xB

def LONG_STRING : ℕ := 0xC

def UNSUPPORTED : ℕ := 0xD

def XML : ℕ := 0x0F

def TYPED_OBJECT : ℕ := 0x10

/-- `AMF_3::AMF_FALSE`. -/
def AMF_FALSE : ℕ := 2

/-- `AMF_3::AMF_TRUE`. -/
def AMF_TRUE : ℕ := 3

/-- And the number of 32 bits made of a thousandth of a double. -/
structure Dates extends Doubles where
  thousandth : ℕ → ℕ

/-! ## Readers -/

def readChars : ℕ → IBits → Bytes × IBits
  | 0, b => ([], b)
  | n+1, b => (b.read_UTF8.1::(readChars n b.read_UTF8.2).1, (readChars n b.read_UTF8.2).2)

attribute [grind =] readChars

def readAMF_Boolean (iAMF : ℕ) (b : IBits) : Bool × IBits :=
  if iAMF = AMF0 then
    let r := (b.seek 1).read 8
    (r.1 ≠ 0, r.2)
  else if iAMF = AMF3 then ((b.read 8).1 = AMF_TRUE, (b.read 8).2)
  else (false, b)

/-- The date as its number of milliseconds. -/
def readAMF_Date (d : Dates) (iAMF : ℕ) (b : IBits) : ℕ × IBits :=
  if iAMF = AMF0 then (d.thousandth (value (ofBytes (load b.buf (b.v+1) 8))), b.seek 11)
  else (2^32-1, b)

def readAMF_String (iAMF : ℕ) (bMarker : Bool) (b : IBits) : Bytes × IBits :=
  if iAMF = AMF0 then
    if bMarker ∧ (b.read 8).1 = UNDEFINED then ([], (b.read 8).2)
    else
      let b := if bMarker then (b.read 8).2 else b
      readChars (b.read 16).1 (b.read 16).2
  else ([], b)

/-- How often a loop up to a signed number runs. -/
def signedCount (n : ℕ) : ℕ := if n < 2^31 then n else 0

def readAMF_StringLong (iAMF : ℕ) (b : IBits) : Bytes × IBits :=
  if iAMF = AMF0 then
    let r := (b.seek 1).read 32
    readChars (signedCount r.1) r.2
  else ([], b)

def readAMF_Key (iAMF : ℕ) (b : IBits) : Bytes × IBits := readAMF_String iAMF false b

def readAMF_Null (iAMF : ℕ) (b : IBits) : IBits := if iAMF = AMF0 then (b.read 8).2 else b

def readAMF_ObjectStart (iAMF : ℕ) (b : IBits) : IBits := if iAMF = AMF0 then (b.read 8).2 else b

def readAMF_ObjectEnd (iAMF : ℕ) (b : IBits) : Bool × IBits :=
  if iAMF = AMF0 then
    if b.peek 24 = OBJECT_END then (true, (b.read 24).2) else (false, b)
  else (false, b)

/-! ## Strings -/

section
variable {b : IBits} {off : ℕ} {s rest : Bytes}

/-- A length and a string. -/
def keyBytes (s : Bytes) : Bytes := bigEndian 2 s.length ++ s

theorem readChars_position (n : ℕ) (h : b.At off []) : ∃ k, n ≤ k ∧ (readChars n b).2.At (off+k) [] := by
  induction n generalizing b off with
  | zero => exact ⟨0, le_refl 0, h⟩
  | succ n ih =>
    have hone : ∃ k, 1 ≤ k ∧ b.read_UTF8.2.At (off+k) [] := by
      by_cases hx : (b.buf off).toNat < 0xC0
      · exact ⟨1, le_refl 1, (h.any.narrow hx).2⟩
      · have hwide := h.any.wide (Nat.not_lt.mp hx)
        rcases hwide with ⟨k, hk, hat⟩
        exact ⟨k, by omega, hat⟩
    rcases hone with ⟨k, hk, hat⟩
    rcases ih hat with ⟨j, hj, hend⟩
    refine ⟨k+j, by omega, ?_⟩
    rw [← Nat.add_assoc]
    exact hend

theorem readChars_narrow (h : b.At off (s++rest)) (hs : ∀ x ∈ s, x.toNat < 0xC0) :
    (readChars s.length b).1 = s.map shown ∧ (readChars s.length b).2.At (off+s.length) rest := by
  induction s generalizing b off with
  | nil => exact ⟨rfl, h⟩
  | cons x s ih =>
    have hchar := IBits.At.narrow h (hs x List.mem_cons_self)
    have hrest := ih hchar.2 fun y hy => hs y (List.mem_cons_of_mem x hy)
    constructor
    · rw [List.length_cons, readChars, hchar.1, hrest.1, List.map_cons]
    · rw [List.length_cons, readChars, ← Nat.add_assoc, Nat.add_right_comm]
      exact hrest.2

theorem readChars_wide (h : b.At off (s++rest)) (hs : ∃ x ∈ s, 0xC0 ≤ x.toNat) :
    ∃ k, s.length < k ∧ (readChars s.length b).2.At (off+k) [] := by
  induction s generalizing b off with
  | nil =>
    rcases hs with ⟨x, hx, -⟩
    cases hx
  | cons x s ih =>
    rw [List.length_cons, readChars]
    by_cases hx : x.toNat < 0xC0
    · have hchar := IBits.At.narrow h hx
      have hlater : ∃ y ∈ s, 0xC0 ≤ y.toNat := by
        rcases hs with ⟨y, hy, hwide⟩
        rcases List.mem_cons.mp hy with rfl | hy
        · omega
        · exact ⟨y, hy, hwide⟩
      rcases ih hchar.2 hlater with ⟨k, hk, hat⟩
      refine ⟨1+k, by omega, ?_⟩
      rw [← Nat.add_assoc]
      exact hat
    · rcases IBits.At.wide h (Nat.not_lt.mp hx) with ⟨k, hk, hat⟩
      rcases readChars_position s.length hat with ⟨j, hj, hend⟩
      refine ⟨k+j, by omega, ?_⟩
      rw [← Nat.add_assoc]
      exact hend

theorem shown_iff (s : Bytes) : s.map shown = s ↔ ∀ x ∈ s, x.toNat < 0x80 := by
  have hpointwise : s.map shown = s ↔ ∀ x ∈ s, shown x = x := by
    simpa using List.map_eq_map_iff (f := shown) (g := id) (l := s)
  rw [hpointwise]
  constructor
  · intro h x hx
    have hsame := h x hx
    by_contra hhigh
    rw [shown, if_neg hhigh] at hsame
    rw [← hsame] at hhigh
    exact hhigh (by decide)
  · intro h x hx
    rw [shown, if_pos (h x hx)]

theorem readAMF_Key_length (h : b.At off (keyBytes s ++ rest)) (hs : s.length < 2^16) :
    ∃ b', readAMF_Key AMF0 b = readChars s.length b' ∧ b'.At (off+2) (s++rest) := by
  rw [keyBytes, List.append_assoc] at h
  have hlength := IBits.At.number h (by omega) hs
  refine ⟨(b.read 16).2, ?_, hlength.2⟩
  rw [readAMF_Key, readAMF_String, if_pos rfl, if_neg (by simp), if_neg (by simp)]
  show readChars (b.read 16).1 (b.read 16).2 = _
  rw [show (b.read 16).1 = s.length from hlength.1]

/-- A string is left behind in full exactly when it has no byte that starts a sequence, and it comes
back exactly when it has no byte of a sequence at all. -/
theorem string_read_iff (h : b.At off (keyBytes s ++ rest)) (hs : s.length < 2^16) :
    ((readAMF_Key AMF0 b).2.pos = 8*(off+2+s.length) ↔ ∀ x ∈ s, x.toNat < 0xC0) ∧
    ((readAMF_Key AMF0 b).1 = s ∧ (readAMF_Key AMF0 b).2.pos = 8*(off+2+s.length) ↔
      ∀ x ∈ s, x.toNat < 0x80) := by
  rcases readAMF_Key_length h hs with ⟨b', hread, hat⟩
  rw [hread]
  have hposition : (readChars s.length b').2.pos = 8*(off+2+s.length) ↔ ∀ x ∈ s, x.toNat < 0xC0 := by
    constructor
    · intro hpos
      by_contra hall
      push Not at hall
      rcases readChars_wide hat hall with ⟨k, hk, hfar⟩
      rw [hfar.pos] at hpos
      omega
    · intro hall
      exact (readChars_narrow hat hall).2.pos
  refine ⟨hposition, ?_⟩
  constructor
  · intro hboth
    have hchars := (readChars_narrow hat (hposition.1 hboth.2)).1
    rw [← shown_iff, ← hchars]
    exact hboth.1
  · intro hascii
    have hnarrow : ∀ x ∈ s, x.toNat < 0xC0 := fun x hx => (hascii x hx).trans (by decide)
    refine ⟨?_, hposition.2 hnarrow⟩
    rw [(readChars_narrow hat hnarrow).1, shown_iff]
    exact hascii

/-- A letter with an accent. -/
theorem string_read_accent :
    ((readAMF_Key AMF0 (IBits.new (store zeroed 0 (keyBytes [0xC3, 0xA9] ++ [])) 4)).2.pos = 8*(0+2+2) ↔
      ∀ x ∈ ([0xC3, 0xA9] : Bytes), x.toNat < 0xC0) ∧
    ((readAMF_Key AMF0 (IBits.new (store zeroed 0 (keyBytes [0xC3, 0xA9] ++ [])) 4)).1 = [0xC3, 0xA9] ∧
      (readAMF_Key AMF0 (IBits.new (store zeroed 0 (keyBytes [0xC3, 0xA9] ++ [])) 4)).2.pos = 8*(0+2+2) ↔
      ∀ x ∈ ([0xC3, 0xA9] : Bytes), x.toNat < 0x80) :=
  string_read_iff (show (IBits.new (store zeroed 0 (keyBytes [0xC3, 0xA9] ++ [])) 4).At 0
    (keyBytes [0xC3, 0xA9] ++ []) from
      IBits.ahead_stored (stored_store zeroed 0 (keyBytes [0xC3, 0xA9] ++ [])) 4) (by decide)

end

end Sirannon.AMF
