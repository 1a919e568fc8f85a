import Sirannon.ExpGolomb
import Sirannon.MachineInt

/-!
# Reading inside the buffer

The reader once more, with a check of the address at each byte it fetches. As
long as the bits that are read lie in the buffer every fetch does, and an
Exp-Golomb code needs no more than its own bits, also at the end of the buffer.
-/

set_option autoImplicit false

namespace Sirannon.Bits
open ByteMemory BitString MachineInt

def IBits.fetch (b : IBits) (v : ℕ) : Except SirannonException UInt8 :=
  if v < b.iBytes then .ok (b.buf v) else .error (undefinedBehaviour "read outside the buffer")

def IBits.fetchLoop (b : IBits) : ℕ → ℕ → ℕ → ℕ → Except SirannonException (ℕ × ℕ × ℕ)
  | 0, v, iBits, iRet => .ok (v, iBits, iRet)
  | fuel+1, v, iBits, iRet =>
    if 8 < iBits then do
      let c ← b.fetch v
      fetchLoop b fuel (v+1) (iBits-8) (iRet ||| c.toNat <<< (iBits-8))
    else .ok (v, iBits, iRet)

def IBits.readChecked (b : IBits) (iBits : ℕ) : Except SirannonException (ℕ × IBits) :=
  if iBits = 0 then .ok (0, b)
  else if iBits ≤ b.iBuf then
    .ok ((b.v1.toNat >>> (b.iBuf-iBits)) &&& mask iBits 0, { b with iBuf := b.iBuf-iBits })
  else do
    let rest := iBits-b.iBuf
    let iRet := if rest < 32 then b.v1.toNat <<< rest else 0
    let (v, rest, iRet) ← b.fetchLoop rest b.v rest iRet
    let v1 ← b.fetch v
    .ok ((iRet ||| v1.toNat >>> (8-rest)) &&& mask iBits 0,
      { b with v := v+1, v1 := v1, iBuf := 8-rest })

/-- The state is saved before the read and put back after it. -/
def IBits.peekChecked (b : IBits) (iBits : ℕ) : Except SirannonException (ℤ × IBits) := do
  let (ret, b') ← b.readChecked iBits
  .ok (int32 ret, { b' with v1 := b.v1, v := b.v, iBuf := b.iBuf })

def IBits.zeroesChecked : ℕ → IBits → ℕ → Except SirannonException (ℕ × IBits)
  | 0, _, _ => .error (undefinedBehaviour "read_uev behind the buffer")
  | fuel+1, b, iLeadingZeroBits => do
    let iPeek := min b.rem 8
    let (iVal, b) ← b.peekChecked iPeek
    let iZeroBits := leadingZeroes.getD (iVal.toNat <<< (8-iPeek)) 0
    let (_, b) ← b.readChecked iZeroBits
    if iZeroBits = 8 then zeroesChecked fuel b (iLeadingZeroBits+iZeroBits)
    else .ok (iLeadingZeroBits+iZeroBits, b)

def IBits.read_uevChecked (b : IBits) : Except SirannonException (ℕ × IBits) := do
  let (iLeadingZeroBits, b) ← b.zeroesChecked (b.iBytes+1) 0
  let (iRet, b) ← b.readChecked ((iLeadingZeroBits+1)%2^8)
  .ok ((iRet+2^32-1)%2^32, b)

variable {b : IBits} {p k n : ℕ} {bs : List Bool}

/-! ## Every fetch is inside -/

theorem IBits.fetch_inside {v : ℕ} (h : v < b.iBytes) : b.fetch v = .ok (b.buf v) := if_pos h

theorem IBits.fetchLoop_inside (fuel : ℕ) {v iBits : ℕ} (iRet : ℕ) (hpos : 0 < iBits)
    (h : 8*v+iBits ≤ 8*b.iBytes) :
    b.fetchLoop fuel v iBits iRet = .ok (readLoop b.buf fuel v iBits iRet) ∧
      (readLoop b.buf fuel v iBits iRet).1 < b.iBytes := by
  induction fuel generalizing v iBits iRet with
  | zero =>
    rw [readLoop]
    exact ⟨rfl, by dsimp only; omega⟩
  | succ fuel ih =>
    rw [fetchLoop, readLoop]
    by_cases hmany : 8 < iBits
    · rw [if_pos hmany, if_pos hmany, fetch_inside (by omega)]
      exact ih _ (by omega) (by omega)
    · rw [if_neg hmany, if_neg hmany]
      exact ⟨rfl, by dsimp only; omega⟩

theorem IBits.readChecked_inside (hb : b.Loaded) (h : b.pos+n ≤ 8*b.iBytes) :
    b.readChecked n = .ok (b.read n) := by
  rw [readChecked, read]
  by_cases h0 : n = 0
  · rw [if_pos h0, if_pos h0]
  rw [if_neg h0, if_neg h0]
  by_cases hin : n ≤ b.iBuf
  · rw [if_pos hin, if_pos hin]
  · have hv := hb.2
    rw [pos] at h
    rw [if_neg hin, if_neg hin]
    dsimp only
    generalize (if n-b.iBuf < 32 then b.v1.toNat <<< (n-b.iBuf) else 0) = iRet
    have hbits : 8*b.v+(n-b.iBuf) ≤ 8*b.iBytes := by omega
    rcases fetchLoop_inside (n-b.iBuf) iRet (by omega) hbits with ⟨hloop, hlast⟩
    simp only [hloop, bind, Except.bind, fetch_inside hlast]

/-- A peek gives the next bits and leaves the reader as it is. -/
theorem IBits.peekChecked_inside (hb : b.Loaded) (hn : n < 32) (h : b.pos+n ≤ 8*b.iBytes) :
    b.peekChecked n = .ok ((b.peek n : ℤ), b) := by
  rcases read_spec b n hb hn.le with ⟨hvalue, _, _, hbuf, hbytes⟩
  have hlt := value_lt (bits b.buf b.pos n)
  rw [bits_length, ← hvalue] at hlt
  have hsmall : (b.read n).1 < 2^31 := hlt.trans_le (Nat.pow_le_pow_right (by decide) (by omega))
  rw [peekChecked, readChecked_inside hb h]
  simp only [bind, Except.bind, hbuf, hbytes]
  rw [peek, int32_of_range _ (by omega) (by omega)]

/-! ## Exp-Golomb codes -/

theorem IBits.zeroesChecked_inside {fuel i : ℕ}
    (h : b.Next p (List.replicate k false ++ true::bs)) (hfuel : k < 8*fuel) :
    b.zeroesChecked fuel i = b.zeroesLoop fuel i := by
  induction fuel generalizing b p k i with
  | zero => omega
  | succ fuel ih =>
    have hrem := h.rem_eq
    have hinside := h.inside
    have hpos := h.ahead.2.1
    rw [List.length_append, List.length_replicate, List.length_cons] at hinside
    rw [zeroesChecked, zeroesLoop, peekChecked_inside h.ahead.1 (by omega) (by omega)]
    simp only [bind, Except.bind, Int.toNat_natCast, h.zeroes_counted]
    rw [readChecked_inside h.ahead.1 (by omega)]
    dsimp only
    by_cases hmany : 8 ≤ k
    · rw [Nat.min_eq_right hmany, if_pos rfl, if_pos rfl]
      exact ih (h.skip_zeroes hmany (by decide)) (by omega)
    · rw [if_neg (by omega), if_neg (by omega)]

theorem IBits.read_uevChecked_inside (h : b.Next p (ue k ++ bs)) (hk : k+1 < 2^32) :
    b.read_uevChecked = b.read_uev := by
  have hshort := ue_short hk
  have hinside := h.inside
  rw [List.length_append, ue_length] at hinside
  have hcode : ue k ++ bs = List.replicate (k+1).log2 false ++
      true::(ofNat (k+1).log2 (k+1) ++ bs) := by
    rw [ue_eq, List.append_assoc, List.cons_append]
  rw [hcode] at h
  have hfuel : (k+1).log2 < 8*(b.iBytes+1) := by omega
  rcases zeroesLoop_spec (i := 0) h hfuel with ⟨b', hloop, hb'⟩
  have hafter := hb'.inside
  rw [List.length_cons, List.length_append, ofNat_length] at hafter
  have hsmall : (0+(k+1).log2+1)%2^8 = (k+1).log2+1 := by omega
  have hread : b'.readChecked ((k+1).log2+1) = .ok (b'.read ((k+1).log2+1)) :=
    readChecked_inside hb'.ahead.1 (by rw [hb'.ahead.2.1]; omega)
  rw [read_uevChecked, read_uev, zeroesChecked_inside h hfuel, hloop]
  simp only [bind, Except.bind, hsmall, hread]

theorem IBits.loaded_new (buf : Memory) (iBytes : ℕ) : (IBits.new buf iBytes).Loaded :=
  loaded_clear (IBits.new buf iBytes)

/-- The code number of a signed number. -/
def codeNum (n : ℤ) : ℕ := if 0 < n then (2*n-1).toNat else (-(2*n)).toNat

def se (n : ℤ) : List Bool := ue (codeNum n)

theorem codeNum_short {n : ℤ} (hlow : -2^31 < n) (hhigh : n < 2^31) : codeNum n+1 < 2^32 := by
  rw [codeNum]
  split_ifs <;> omega

/-- What is read at the code of `n`: the number itself, or for a negative one the half of an
unsigned number. -/
theorem IBits.Next.read_sev {n : ℤ} (hlow : -2^31 < n) (hhigh : n < 2^31)
    (h : b.Next p (se n ++ bs)) :
    ∃ b', b.read_sev = .ok (if 0 ≤ n then n else 2^31+n, b') ∧
      b'.Next (p+(se n).length) bs := by
  rcases h.read_uev (codeNum_short hlow hhigh) with ⟨b', hread, hnext⟩
  refine ⟨b', ?_, hnext⟩
  rw [IBits.read_sev, hread]
  dsimp only
  rw [codeNum]
  by_cases hpos : 0 < n
  · rw [if_pos hpos, if_pos (by omega), if_pos hpos.le]
    congr 2
    omega
  · rw [if_neg hpos, if_neg (by omega)]
    by_cases hzero : 0 ≤ n
    · rw [if_pos hzero]
      congr 2
      omega
    · rw [if_neg hzero]
      congr 2
      omega

theorem IBits.read_sev_iff (b : IBits) (n : ℤ) (hn : |n| < 2^31) (h : b.Next b.pos (se n)) :
    (∃ b', b.read_sev = .ok (n, b')) ↔ 0 ≤ n := by
  rw [abs_lt] at hn
  rw [← List.append_nil (se n)] at h
  rcases h.read_sev hn.1 hn.2 with ⟨b', hread, _⟩
  rw [hread]
  constructor
  · rintro ⟨_, hsame⟩
    have hvalue := congrArg Prod.fst (Except.ok.inj hsame)
    dsimp only at hvalue
    by_contra hneg
    rw [if_neg hneg] at hvalue
    omega
  · intro hpos
    rw [if_pos hpos]
    exact ⟨b', rfl⟩

/-- The code `00100` of 2. -/
theorem IBits.read_sev_two :
    ∃ b', (IBits.new (store zeroed 0 [0x20]) 1).read_sev = .ok (2, b') :=
  (read_sev_iff _ 2 (by decide) ⟨⟨loaded_new _ _, rfl, by decide⟩, by decide, by decide⟩).mpr
    (by decide)

/-- The code `011` of -1. -/
theorem IBits.read_sev_minus :
    (IBits.new (store zeroed 0 [0x60]) 1).Next 0 (se (-1)) ∧
      ¬∃ b', (IBits.new (store zeroed 0 [0x60]) 1).read_sev = .ok (-1, b') := by
  have h : (IBits.new (store zeroed 0 [0x60]) 1).Next 0 (se (-1) ++ []) :=
    ⟨⟨loaded_new _ _, rfl, by decide⟩, by decide, by decide⟩
  refine ⟨h.left, ?_⟩
  rcases h.read_sev (by decide) (by decide) with ⟨b', hread, _⟩
  rw [hread]
  rintro ⟨_, hsame⟩
  have hvalue := congrArg Prod.fst (Except.ok.inj hsame)
  exact absurd hvalue (show (if (0 : ℤ) ≤ -1 then (-1 : ℤ) else 2^31+-1) ≠ -1 by decide)

end Sirannon.Bits
