import Sirannon.Bits

/-!
# Exp-Golomb codes

The successor of a number, in binary, behind as many zeros as it has digits
after the first. The reader counts the zeros eight bits at a time with a
table, and never looks behind the end of the buffer for them.
-/

set_option autoImplicit false

namespace Sirannon.Bits
open ByteMemory BitString

def ue (v : ℕ) : List Bool :=
  List.replicate (v+1).log2 false ++ ofNat ((v+1).log2+1) (v+1)

def leadingZeroes : List ℕ :=
  [8, 7] ++ List.replicate 2 6 ++ List.replicate 4 5 ++ List.replicate 8 4 ++
    List.replicate 16 3 ++ List.replicate 32 2 ++ List.replicate 64 1 ++ List.replicate 128 0

/-- The buffer is behind the reader once it has been through more zeros than there are bits. -/
def IBits.zeroesLoop : ℕ → IBits → ℕ → Except SirannonException (ℕ × IBits)
  | 0, _, _ => .error (undefinedBehaviour "read_uev behind the buffer")
  | fuel+1, b, iLeadingZeroBits =>
    let iPeek := min b.rem 8
    let iZeroBits := leadingZeroes.getD (b.peek iPeek <<< (8-iPeek)) 0
    if iZeroBits = 8 then zeroesLoop fuel (b.read iZeroBits).2 (iLeadingZeroBits+iZeroBits)
    else .ok (iLeadingZeroBits+iZeroBits, (b.read iZeroBits).2)

def IBits.read_uev (b : IBits) : Except SirannonException (ℕ × IBits) :=
  match b.zeroesLoop (b.iBytes+1) 0 with
  | .error e => .error e
  | .ok (iLeadingZeroBits, b) =>
    let r := b.read ((iLeadingZeroBits+1)%2^8)
    .ok ((r.1+2^32-1)%2^32, r.2)

/-- Half of an even code is taken of an unsigned number. -/
def IBits.read_sev (b : IBits) : Except SirannonException (ℤ × IBits) :=
  match b.read_uev with
  | .error e => .error e
  | .ok (iCodeNum, b) =>
    if iCodeNum%2 = 1 then .ok (((iCodeNum+1)%2^32/2 : ℕ), b)
    else .ok (((2^32-iCodeNum)%2^32/2 : ℕ), b)

/-! ## Codes -/

theorem ofNat_succ_log (n : ℕ) (hn : n ≠ 0) : ofNat (n.log2+1) n = true :: ofNat n.log2 n := by
  rw [ofNat, Nat.testBit_log2 hn]

theorem ue_eq (v : ℕ) :
    ue v = List.replicate (v+1).log2 false ++ true :: ofNat (v+1).log2 (v+1) := by
  rw [ue, ofNat_succ_log _ (Nat.succ_ne_zero v)]

theorem ue_length (v : ℕ) : (ue v).length = 2*(v+1).log2+1 := by
  rw [ue, List.length_append, List.length_replicate, ofNat_length]
  omega

theorem ue_short {v : ℕ} (hv : v+1 < 2^32) : (v+1).log2 < 32 :=
  (Nat.log2_lt (Nat.succ_ne_zero v)).mpr hv

/-! ## The table -/

theorem leadingZeroes_table :
    leadingZeroes = (List.range 256).map fun n => if n = 0 then 8 else 7-n.log2 := by
  decide +kernel

theorem leadingZeroes_spec {k n : ℕ} (hk : k < 8) (hlow : 2^(7-k) ≤ n) (hhigh : n < 2^(8-k)) :
    leadingZeroes.getD n 0 = k := by
  have hbyte : n < 256 := hhigh.trans_le (Nat.pow_le_pow_right (by omega) (Nat.sub_le 8 k))
  have hn : n ≠ 0 := by
    have hpos := Nat.two_pow_pos (7-k)
    omega
  have hlog : n.log2 = 7-k := by
    rw [Nat.log2_eq_iff hn]
    exact ⟨hlow, by rwa [show 7-k+1 = 8-k by omega]⟩
  rw [leadingZeroes_table, List.getD_eq_getElem _ _ (by simpa using hbyte), List.getElem_map,
    List.getElem_range, if_neg hn, hlog]
  omega

theorem value_replicate (k : ℕ) : value (List.replicate k false) = 0 := by
  induction k with
  | zero => rfl
  | succ k ih => simp [List.replicate_succ, value, ih]

/-- The zeros in front of the first one, in a byte filled up with zeros from the right. -/
theorem leadingZeroes_bits {w rest : List Bool} {k : ℕ}
    (hw : w = List.replicate k false ++ true::rest) (hlength : w.length ≤ 8) :
    leadingZeroes.getD (value w <<< (8-w.length)) 0 = k := by
  have hlen : w.length = k+(rest.length+1) := by
    rw [hw, List.length_append, List.length_replicate, List.length_cons]
  have hvalue : value w = 2^rest.length+value rest := by
    rw [hw, value_append, value_replicate, value]
    simp
  have hrest := value_lt rest
  have hshift : value w <<< (8-w.length) = value w*2^(7-k-rest.length) := by
    rw [Nat.shiftLeft_eq, hlen]
    congr 2
    omega
  have hsplit : 2^(7-k) = 2^rest.length*2^(7-k-rest.length) := by
    rw [← pow_add]
    congr 1
    omega
  have hdouble : 2^(8-k) = 2*2^(7-k) := by
    rw [← pow_succ']
    congr 1
    omega
  have hpos := Nat.two_pow_pos (7-k-rest.length)
  apply leadingZeroes_spec (by omega)
  · rw [hshift, hvalue, hsplit]
    exact Nat.mul_le_mul_right _ (Nat.le_add_right _ _)
  · rw [hshift, hvalue, hdouble, hsplit, ← Nat.mul_assoc]
    exact Nat.mul_lt_mul_of_pos_right (by omega) hpos

/-! ## Reading -/

/-- The next bits, none of them behind the end of the buffer. -/
structure IBits.Next (b : IBits) (p : ℕ) (bs : List Bool) : Prop where
  ahead : b.Ahead p bs
  inside : p+bs.length ≤ 8*b.iBytes
  size : 8*b.iBytes < 2^64

variable {b : IBits} {p : ℕ} {bs : List Bool}

theorem IBits.Next.left {xs ys : List Bool} (h : b.Next p (xs++ys)) : b.Next p xs where
  ahead := ⟨h.ahead.1, h.ahead.2.1, (ahead_left h.ahead).1⟩
  inside := by
    have hinside := h.inside
    rw [List.length_append] at hinside
    omega
  size := h.size

theorem IBits.Next.rem_eq (h : b.Next p bs) : b.rem = 8*b.iBytes-p := by
  have hpos := h.ahead.2.1
  have hlt := h.ahead.1.1
  have hv := h.ahead.1.2
  have hinside := h.inside
  have hsize := h.size
  rw [pos] at hpos
  rw [rem]
  omega

/-- Reading moves past the bits read. -/
theorem IBits.Next.read {xs ys : List Bool} (h : b.Next p (xs++ys)) (hn : xs.length ≤ 32) :
    (b.read xs.length).1 = value xs ∧ (b.read xs.length).2.Next (p+xs.length) ys := by
  rcases ahead_left h.ahead with ⟨hx, hy⟩
  rcases read_spec b xs.length h.ahead.1 hn with ⟨hvalue, hloaded, hpos, hbuf, hbytes⟩
  have hinside := h.inside
  rw [List.length_append] at hinside
  rw [h.ahead.2.1] at hvalue hpos
  rw [hx] at hvalue
  refine ⟨hvalue, ⟨⟨hloaded, hpos, ?_⟩, ?_, ?_⟩⟩
  · rw [hbuf, hy]
  · rw [hbytes]
    omega
  · rw [hbytes]
    exact h.size

theorem IBits.Next.read_field {n v : ℕ} (h : b.Next p (ofNat n v ++ bs)) (hn : n ≤ 32)
    (hv : v < 2^n) : (b.read n).1 = v ∧ (b.read n).2.Next (p+n) bs := by
  have hread := h.read ((ofNat_length n v).trans_le hn)
  rwa [ofNat_length, value_ofNat, Nat.mod_eq_of_lt hv] at hread

theorem IBits.Next.one_ahead {k n : ℕ} (h : b.Next p (List.replicate k false ++ true::bs))
    (hn : k+1 ≤ n) :
    bits b.buf p n = List.replicate k false ++ true::bits b.buf (p+(k+1)) (n-(k+1)) := by
  rw [← List.singleton_append, ← List.append_assoc] at h
  have hfront := (ahead_left h.ahead).1
  rw [List.length_append, List.length_replicate, List.length_singleton] at hfront
  conv_lhs => rw [← Nat.add_sub_cancel' hn]
  rw [bits_add, hfront, List.append_assoc, List.singleton_append]

/-- The table counts the zeros up to the next one, eight at most. -/
theorem IBits.Next.zeroes_counted {k : ℕ}
    (h : b.Next p (List.replicate k false ++ true::bs)) :
    leadingZeroes.getD (b.peek (min b.rem 8) <<< (8-min b.rem 8)) 0 = min k 8 := by
  have hrem := h.rem_eq
  have hinside := h.inside
  rw [List.length_append, List.length_replicate, List.length_cons] at hinside
  have hpeek : b.peek (min b.rem 8) = value (bits b.buf p (min b.rem 8)) := by
    rw [IBits.peek, (read_spec b _ h.ahead.1 (by omega)).1, h.ahead.2.1]
  by_cases hmany : 8 ≤ k
  · have hsplit : List.replicate k false ++ true::bs =
        List.replicate 8 false ++ (List.replicate (k-8) false ++ true::bs) := by
      rw [← List.append_assoc, ← List.replicate_add, Nat.add_sub_cancel' hmany]
    have height : min b.rem 8 = 8 := by omega
    rw [hsplit] at h
    have hread := h.read (show 8 ≤ 32 by decide)
    rw [List.length_replicate] at hread
    rw [height, IBits.peek, hread.1, value_replicate, Nat.min_eq_right hmany]
    rfl
  · have hbits := h.one_ahead (show k+1 ≤ min b.rem 8 by omega)
    have hzeroes := leadingZeroes_bits hbits ((bits_length ..).trans_le (Nat.min_le_right _ _))
    rw [bits_length] at hzeroes
    rw [hpeek, hzeroes]
    omega

/-- Reading some of the zeros. -/
theorem IBits.Next.skip_zeroes {k n : ℕ} (h : b.Next p (List.replicate k false ++ true::bs))
    (hn : n ≤ k) (hn' : n ≤ 32) :
    (b.read n).2.Next (p+n) (List.replicate (k-n) false ++ true::bs) := by
  have hsplit : List.replicate k false ++ true::bs =
      List.replicate n false ++ (List.replicate (k-n) false ++ true::bs) := by
    rw [← List.append_assoc, ← List.replicate_add, Nat.add_sub_cancel' hn]
  rw [hsplit] at h
  have hread := h.read (show (List.replicate n false).length ≤ 32 by
    rw [List.length_replicate]; exact hn')
  rw [List.length_replicate] at hread
  exact hread.2

theorem IBits.zeroesLoop_spec {fuel k i : ℕ} (h : b.Next p (List.replicate k false ++ true::bs))
    (hfuel : k < 8*fuel) : ∃ b', b.zeroesLoop fuel i = .ok (i+k, b') ∧ b'.Next (p+k) (true::bs) := by
  induction fuel generalizing b p k i with
  | zero => omega
  | succ fuel ih =>
    rw [zeroesLoop, h.zeroes_counted]
    by_cases hmany : 8 ≤ k
    · rw [Nat.min_eq_right hmany, if_pos rfl]
      rcases ih (i := i+8) (h.skip_zeroes hmany (by decide)) (by omega) with ⟨b', hloop, hb'⟩
      refine ⟨b', ?_, ?_⟩
      · rw [hloop]
        congr 2
        omega
      · rw [show p+k = p+8+(k-8) by omega]
        exact hb'
    · have hnext := h.skip_zeroes (le_refl k) (by omega)
      rw [Nat.sub_self, List.replicate_zero, List.nil_append] at hnext
      rw [Nat.min_eq_left (by omega), if_neg (by omega)]
      exact ⟨_, rfl, hnext⟩

/-- A code is read back. -/
theorem IBits.Next.read_uev {v : ℕ} (h : b.Next p (ue v ++ bs)) (hv : v+1 < 2^32) :
    ∃ b', b.read_uev = .ok (v, b') ∧ b'.Next (p+(ue v).length) bs := by
  have hshort := ue_short hv
  have hinside := h.inside
  have hlength := ue_length v
  rw [List.length_append] at hinside
  have hcode : ue v ++ bs = List.replicate (v+1).log2 false ++
      true::(ofNat (v+1).log2 (v+1) ++ bs) := by
    rw [ue_eq, List.append_assoc, List.cons_append]
  have hnumber : true::(ofNat (v+1).log2 (v+1) ++ bs) = ofNat ((v+1).log2+1) (v+1) ++ bs := by
    rw [ofNat_succ_log _ (Nat.succ_ne_zero v), List.cons_append]
  rw [hcode] at h
  rcases zeroesLoop_spec (i := 0) h (show (v+1).log2 < 8*(b.iBytes+1) by omega) with
    ⟨b', hloop, hb'⟩
  rw [hnumber] at hb'
  have hread := hb'.read (show (ofNat ((v+1).log2+1) (v+1)).length ≤ 32 by
    rw [ofNat_length]; omega)
  rw [ofNat_length, value_ofNat, Nat.mod_eq_of_lt Nat.lt_log2_self] at hread
  have hsmall : (0+(v+1).log2+1)%2^8 = (v+1).log2+1 := by omega
  rw [IBits.read_uev, hloop]
  dsimp only
  rw [hsmall, hread.1]
  refine ⟨(b'.read ((v+1).log2+1)).2, ?_, ?_⟩
  · rw [show (v+1+2^32-1)%2^32 = v by omega]
  · rw [hlength, show p+(2*(v+1).log2+1) = p+(v+1).log2+((v+1).log2+1) by omega]
    exact hread.2

end Sirannon.Bits
