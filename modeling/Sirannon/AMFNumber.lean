import Sirannon.Bits

/-!
# Numbers of AMF

AMF0 has doubles, AMF3 whole numbers of one to four bytes, seven bits in each
byte but the fourth. The reader of AMF3 takes such a number apart and goes on
into the branch for versions that are not known.
-/

set_option autoImplicit false

namespace Sirannon.AMF
open ByteMemory BitString Bits

abbrev Bytes := List UInt8

def AMF0 : ℕ := 0

def AMF3 : ℕ := 3

def NUMBER : ℕ := 0

/-- `AMF_3::INTEGER`. -/
def INTEGER : ℕ := 4

def amfError (sError : String) : SirannonException := ⟨"AMFError: " ++ sError⟩

/-- The bits of a double made of a number, and the number made of a double. -/
structure Doubles where
  ofInt : ℤ → ℕ
  toUInt64 : ℕ → ℕ

def writeInteger (iVal : ℕ) (o : OBits) : Except SirannonException OBits :=
  if iVal < 0x00000080 then o.writes [(8, iVal)]
  else if iVal < 0x00004000 then o.writes [(8, iVal >>> 7 ||| 0x80), (8, iVal &&& 0x7F)]
  else if iVal < 0x00200000 then
    o.writes [(8, iVal >>> 14 ||| 0x80), (8, iVal >>> 7 ||| 0x80), (8, iVal &&& 0x7F)]
  else if iVal < 0x40000000 then
    o.writes [(8, iVal >>> 22 ||| 0x80), (8, iVal >>> 15 ||| 0x80), (8, iVal >>> 8 ||| 0x80),
      (8, iVal)]
  else .error (amfError "Integer out of bounds")

/-- `iVal` is a number of 64 bits. -/
def writeAMF_Number (d : Doubles) (iAMF iVal : ℕ) (bMarker : Bool) (o : OBits) :
    Except SirannonException OBits :=
  if iAMF = AMF0 then do
    let o ← if bMarker then o.write 8 NUMBER else pure o
    pure (o.writeBuffer (pack (ofNat 64 (d.ofInt (Int.bmod iVal (2^64))))))
  else if iAMF = AMF3 then do
    let o ← if bMarker then o.write 8 INTEGER else pure o
    writeInteger iVal o
  else pure o

/-- What `iTmp` has become. -/
def readInteger (b : IBits) : ℕ × IBits :=
  let r := b.read 8
  let iTmp := r.1 &&& 0x7F
  if r.1 &&& 0x80 ≠ 0 then
    let r := r.2.read 8
    let iTmp := iTmp <<< 7 ||| (r.1 &&& 0x7F)
    if r.1 &&& 0x80 ≠ 0 then
      let r := r.2.read 8
      let iTmp := iTmp <<< 7 ||| (r.1 &&& 0x7F)
      if r.1 &&& 0x80 ≠ 0 then
        let r := r.2.read 8
        (iTmp <<< 8 ||| r.1, r.2)
      else (iTmp, r.2)
    else (iTmp, r.2)
  else (iTmp, r.2)

/-- The branch of AMF3 has no return; the one after it returns -1. -/
def readAMF_Number (d : Doubles) (iAMF : ℕ) (b : IBits) : ℕ × IBits :=
  if iAMF = AMF0 then (d.toUInt64 (value (ofBytes (load b.buf (b.v+1) 8))), b.seek 9)
  else if iAMF = AMF3 then (2^64-1, (readInteger (b.seek 1)).2)
  else (2^64-1, b)

/-! ## Bytes of a number -/

theorem continued (n : ℕ) : (n ||| 0x80)%2^8 = 2^7+n%2^7 := by
  have hsplit : n%2^8 = n/2^7%2*2^7+n%2^7 := by omega
  have hlow : n%2^7 < 2^7 := Nat.mod_lt _ (by norm_num)
  rw [Nat.or_mod_two_pow, hsplit, ← or_eq_add _ _ _ hlow, Nat.or_right_comm, show (0x80 : ℕ)%2^8 = 1*2^7
    by norm_num]
  rcases Nat.mod_two_eq_zero_or_one (n/2^7) with h | h
  · rw [h, Nat.zero_mul, Nat.zero_or, or_eq_add _ _ _ hlow, Nat.one_mul]
  · rw [h, Nat.or_self, or_eq_add _ _ _ hlow, Nat.one_mul]

theorem low_bits (m : ℕ) {n : ℕ} (h : n < 2^7) : (2^7*m+n) &&& 0x7F = n := by
  rw [show (0x7F : ℕ) = 2^7-1 by norm_num, Nat.and_two_pow_sub_one_eq_mod, Nat.mul_add_mod,
    Nat.mod_eq_of_lt h]

theorem continues {n : ℕ} (h : n < 2^7) : (2^7+n) &&& 0x80 ≠ 0 ∧ (2^7+n) &&& 0x7F = n := by
  constructor
  · intro hzero
    have hbit : ((2^7+n) &&& 2^7).testBit 7 = true := by
      rw [Nat.testBit_and, Nat.testBit_two_pow_self, Bool.and_true, Nat.testBit_two_pow_add_eq,
        Nat.testBit_lt_two_pow h]
      rfl
    rw [show (2^7 : ℕ) = 0x80 by norm_num] at hbit
    rw [show (2^7 : ℕ) = 0x80 by norm_num] at hzero
    rw [hzero, Nat.zero_testBit] at hbit
    cases hbit
  · simpa using low_bits 1 h

theorem ends {n : ℕ} (h : n < 2^7) : n &&& 0x80 = 0 ∧ n &&& 0x7F = n := by
  constructor
  · rw [show (0x80 : ℕ) = 2^7 by norm_num, Nat.and_two_pow, Nat.testBit_lt_two_pow h]
    rfl
  · simpa using low_bits 0 h

theorem joined (a : ℕ) {n i : ℕ} (h : n < 2^i) : a <<< i ||| n = a*2^i+n := by
  rw [Nat.shiftLeft_eq, or_eq_add _ _ _ h]

/-! ## Written and read -/

def integerFields (iVal : ℕ) : List (ℕ × ℕ) :=
  if iVal < 0x00000080 then [(8, iVal)]
  else if iVal < 0x00004000 then [(8, iVal >>> 7 ||| 0x80), (8, iVal &&& 0x7F)]
  else if iVal < 0x00200000 then
    [(8, iVal >>> 14 ||| 0x80), (8, iVal >>> 7 ||| 0x80), (8, iVal &&& 0x7F)]
  else [(8, iVal >>> 22 ||| 0x80), (8, iVal >>> 15 ||| 0x80), (8, iVal >>> 8 ||| 0x80), (8, iVal)]

attribute [grind =] integerFields

theorem writeInteger_fields {n : ℕ} (h : n < 0x40000000) (o : OBits) :
    writeInteger n o = o.writes (integerFields n) := by
  unfold writeInteger integerFields
  rw [if_pos h]
  split_ifs <;> rfl

theorem writeInteger_bounds {n : ℕ} (h : 0x40000000 ≤ n) (o : OBits) :
    writeInteger n o = .error (amfError "Integer out of bounds") := by
  unfold writeInteger
  rw [if_neg (by omega), if_neg (by omega), if_neg (by omega), if_neg (by omega)]

theorem integerFields_width (n : ℕ) : ∀ f ∈ integerFields n, f.1 = 8 := by
  unfold integerFields
  split_ifs <;> simp

theorem integerFields_length (n : ℕ) : (integerFields n).length ≤ 4 := by
  unfold integerFields
  split_ifs <;> simp

theorem read_continued {b : IBits} {p v : ℕ} {bs : List Bool}
    (h : b.Ahead p (ofNat 8 (v ||| 0x80) ++ bs)) :
    (b.read 8).1 &&& 0x80 ≠ 0 ∧ (b.read 8).1 &&& 0x7F = v%2^7 ∧ (b.read 8).2.Ahead (p+8) bs := by
  have hread := IBits.read_masked h (by norm_num)
  have hbyte := continues (Nat.mod_lt v (show 0 < 2^7 by norm_num))
  rw [hread.1, continued]
  exact ⟨hbyte.1, hbyte.2, hread.2⟩

theorem read_end {b : IBits} {p v : ℕ} {bs : List Bool} (hv : v < 2^7)
    (h : b.Ahead p (ofNat 8 v ++ bs)) :
    (b.read 8).1 &&& 0x80 = 0 ∧ (b.read 8).1 &&& 0x7F = v ∧ (b.read 8).2.Ahead (p+8) bs := by
  have hread := IBits.read_field h (by norm_num) (by omega)
  have hbyte := ends hv
  rw [hread.1]
  exact ⟨hbyte.1, hbyte.2, hread.2⟩

theorem readInteger_written {n : ℕ} (h : n < 0x40000000) {b : IBits} {p : ℕ} {rest : List Bool}
    (hb : b.Ahead p (fieldBits (integerFields n) ++ rest)) :
    (readInteger b).1 = n%2^29 ∧
      (readInteger b).2.Ahead (p+8*(integerFields n).length) rest := by
  have hlow (v : ℕ) : v%2^7 < 2^7 := Nat.mod_lt v (by norm_num)
  have hmask : n &&& 0x7F = n%2^7 := by
    rw [show (0x7F : ℕ) = 2^7-1 by norm_num, Nat.and_two_pow_sub_one_eq_mod]
  unfold integerFields at hb ⊢
  by_cases h1 : n < 0x00000080
  · rw [if_pos h1] at hb ⊢
    have hfirst := read_end (by omega) hb
    simp only [readInteger, hfirst.1, ne_eq, not_true_eq_false, if_false]
    exact ⟨by rw [hfirst.2.1]; omega, hfirst.2.2⟩
  rw [if_neg h1] at hb ⊢
  by_cases h2 : n < 0x00004000
  · rw [if_pos h2] at hb ⊢
    simp only [fieldBits, List.flatMap_cons, List.flatMap_nil, List.append_assoc, hmask] at hb
    have hfirst := read_continued hb
    have hsecond := read_end (hlow n) hfirst.2.2
    simp only [readInteger, hfirst.1, hsecond.1, ne_eq, not_true_eq_false, not_false_eq_true,
      if_true, if_false, hfirst.2.1, hsecond.2.1]
    refine ⟨?_, hsecond.2.2⟩
    rw [joined _ (hlow n), Nat.shiftRight_eq_div_pow]
    omega
  rw [if_neg h2] at hb ⊢
  by_cases h3 : n < 0x00200000
  · rw [if_pos h3] at hb ⊢
    simp only [fieldBits, List.flatMap_cons, List.flatMap_nil, List.append_assoc, hmask] at hb
    have hfirst := read_continued hb
    have hsecond := read_continued hfirst.2.2
    have hthird := read_end (hlow n) hsecond.2.2
    simp only [readInteger, hfirst.1, hsecond.1, hthird.1, ne_eq, not_true_eq_false,
      not_false_eq_true, if_true, if_false, hfirst.2.1, hsecond.2.1, hthird.2.1]
    refine ⟨?_, hthird.2.2⟩
    rw [joined _ (hlow n), joined _ (hlow _), Nat.shiftRight_eq_div_pow, Nat.shiftRight_eq_div_pow]
    omega
  · rw [if_neg h3] at hb ⊢
    simp only [fieldBits, List.flatMap_cons, List.flatMap_nil, List.append_assoc] at hb
    have hfirst := read_continued hb
    have hsecond := read_continued hfirst.2.2
    have hthird := read_continued hsecond.2.2
    have hlast := IBits.read_masked hthird.2.2 (by norm_num)
    simp only [readInteger, hfirst.1, hsecond.1, hthird.1, ne_eq, not_false_eq_true, if_true,
      hfirst.2.1, hsecond.2.1, hthird.2.1, hlast.1]
    refine ⟨?_, hlast.2⟩
    rw [joined _ (hlow _), joined _ (hlow _), joined _ (Nat.mod_lt _ (by norm_num)),
      Nat.shiftRight_eq_div_pow, Nat.shiftRight_eq_div_pow, Nat.shiftRight_eq_div_pow]
    omega

theorem writeAMF_Number_accepted {d : Doubles} {n : ℕ} {bMarker : Bool} {o o' : OBits}
    (hw : writeAMF_Number d AMF3 n bMarker o = .ok o') : n < 0x40000000 := by
  by_contra hn
  have hbounds := writeInteger_bounds (show 0x40000000 ≤ n by omega)
  rw [writeAMF_Number, if_neg (by decide), if_pos rfl] at hw
  cases bMarker
  · simp [hbounds] at hw
  · cases hstart : o.write 8 INTEGER <;> simp [hstart, hbounds, Bind.bind, Except.bind] at hw

/-- A number and the marker in front of it. -/
def numberBits (n : ℕ) : List Bool := fieldBits ((8, INTEGER)::integerFields n)

theorem numberBits_length (n : ℕ) : (numberBits n).length = 8+8*(integerFields n).length := by
  have hwidths (fields : List (ℕ × ℕ)) (h : ∀ f ∈ fields, f.1 = 8) :
      (fieldBits fields).length = 8*fields.length := by
    induction fields with
    | nil => rfl
    | cons f fields ih =>
      have hf := h f (by simp)
      have hrest := ih (fun g hg => h g (by simp [hg]))
      rw [fieldBits, List.flatMap_cons, List.length_append, ofNat_length, ← fieldBits, hrest, hf,
        List.length_cons]
      ring
  have hmarked : ∀ f ∈ (8, INTEGER)::integerFields n, f.1 = 8 := by
    intro f hf
    rcases List.mem_cons.mp hf with rfl | hf
    · rfl
    · exact integerFields_width n f hf
  rw [numberBits, hwidths _ hmarked, List.length_cons]
  ring

theorem writeAMF_Number_appends (d : Doubles) {n : ℕ} (hn : n < 0x40000000) {o : OBits}
    {bs : List Bool} (ho : o.Holds bs) :
    o.Appends bs (numberBits n) (writeAMF_Number d AMF3 n true o) := by
  rw [writeAMF_Number, if_neg (by decide), if_pos rfl]
  simp only [if_true, writeInteger_fields hn]
  apply OBits.writes_appends ((8, INTEGER)::integerFields n) o bs ho
  intro f hf
  rcases List.mem_cons.mp hf with rfl | hf
  · norm_num
  · rw [integerFields_width n f hf]
    norm_num

/-- What `writeAMF_Number` accepts for AMF3 is written in full and left behind in full, and what
comes back is never the number. -/
theorem number_never_returned (d : Doubles) (n : ℕ) :
    (∀ o o' : OBits, writeAMF_Number d AMF3 n true o = .ok o' → n < 0x40000000) ∧
    (n < 0x40000000 → ∀ o bs, o.Holds bs → bs.length+40 ≤ 8*o.iBytes →
      ∃ o', writeAMF_Number d AMF3 n true o = .ok o' ∧ o'.Holds (bs ++ numberBits n) ∧
        ∀ (b : IBits) p rest, b.Ahead p (numberBits n ++ rest) →
          (readAMF_Number d AMF3 b).1 = 2^64-1 ∧ (readAMF_Number d AMF3 b).1 ≠ n ∧
          (readAMF_Number d AMF3 b).2.Ahead (p+(numberBits n).length) rest) := by
  constructor
  · intro o o' hw
    exact writeAMF_Number_accepted hw
  · intro hn o bs ho hroom
    have happends := writeAMF_Number_appends d hn ho
    have hlength := numberBits_length n
    have hfields := integerFields_length n
    obtain ⟨o', ho'⟩ := happends.2 (by omega)
    refine ⟨o', ho', (happends.1 o' ho').1, ?_⟩
    intro b p rest hb
    have hread : readAMF_Number d AMF3 b = (2^64-1, (readInteger (b.seek 1)).2) := rfl
    have hmarker : b.Ahead p (ofNat 8 INTEGER ++ (fieldBits (integerFields n) ++ rest)) := by
      rw [numberBits, fieldBits, List.flatMap_cons, List.append_assoc] at hb
      exact hb
    have hnumber := IBits.ahead_seek (n := 1) hmarker (ofNat_length 8 INTEGER)
    have hbehind := (readInteger_written hn hnumber).2
    rw [hread]
    refine ⟨rfl, by show 2^64-1 ≠ n; omega, ?_⟩
    rw [hlength]
    rwa [Nat.mul_one, Nat.add_assoc] at hbehind

theorem number_never_returned_five (d : Doubles) :
    ∃ o', writeAMF_Number d AMF3 5 true (OBits.new 5) = .ok o' ∧ o'.Holds (numberBits 5) ∧
      ∀ (b : IBits) p rest, b.Ahead p (numberBits 5 ++ rest) →
        (readAMF_Number d AMF3 b).1 = 2^64-1 ∧ (readAMF_Number d AMF3 b).1 ≠ 5 ∧
        (readAMF_Number d AMF3 b).2.Ahead (p+(numberBits 5).length) rest :=
  (number_never_returned d 5).2 (by norm_num) (OBits.new 5) [] (OBits.holds_new 5) (by decide)

theorem five_not_read : ¬ ∀ (d : Doubles) (n : ℕ) (o : OBits),
    writeAMF_Number d AMF3 n true (OBits.new 5) = .ok o →
      (readAMF_Number d AMF3 (IBits.new (store (fun _ => 0) 0 o.data) o.data.length)).1 = n := by
  intro hall
  have hwrite : writeAMF_Number ⟨fun _ => 0, fun _ => 0⟩ AMF3 5 true (OBits.new 5) =
      .ok ⟨[4, 5], 0, 8, 5⟩ := by decide +kernel
  have hread := hall _ 5 _ hwrite
  revert hread
  decide +kernel

end Sirannon.AMF
