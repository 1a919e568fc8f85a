import Sirannon.ByteMemory
import Mathlib.Data.Nat.Bitwise

/-!
# Bit strings

Fixed-width fields as bit lists, most significant bit first, and the bit list
of a byte sequence or of a buffer. The value of a field is its width modulus,
so concatenation of fields is multiplication by a power of two and addition.
-/

set_option autoImplicit false

namespace BitString
open ByteMemory

def ofNat : ℕ → ℕ → List Bool
  | 0, _ => []
  | w+1, n => n.testBit w :: ofNat w n

attribute [grind =] ofNat

def value : List Bool → ℕ
  | [] => 0
  | b::bs => b.toNat*2^bs.length + value bs

attribute [grind =] value

@[simp] theorem ofNat_length (w n : ℕ) : (ofNat w n).length = w := by
  induction w with
  | zero => rfl
  | succ w ih => simp [ofNat, ih]

theorem value_append (xs ys : List Bool) :
    value (xs++ys) = value xs*2^ys.length + value ys := by
  induction xs with
  | nil => simp [value]
  | cons x xs ih =>
    simp only [List.cons_append, value, ih, List.length_append, pow_add]
    ring

theorem value_lt (bs : List Bool) : value bs < 2^bs.length := by
  induction bs with
  | nil => simp [value]
  | cons b bs ih =>
    have hb : b.toNat ≤ 1 := Bool.toNat_le b
    simp only [value, List.length_cons, pow_succ]
    nlinarith

@[simp] theorem value_ofNat (w n : ℕ) : value (ofNat w n) = n % 2^w := by
  induction w with
  | zero => simp [ofNat, value, Nat.mod_one]
  | succ w ih =>
    have hsplit : n % 2^(w+1) = n % 2^w + 2^w*(n / 2^w % 2) := by
      rw [pow_succ, Nat.mod_mul]
    have hbit : (n.testBit w).toNat = n / 2^w % 2 := by
      rw [Nat.testBit_eq_decide_div_mod_eq]
      rcases Nat.mod_two_eq_zero_or_one (n / 2^w) with h | h <;> simp [h]
    rw [ofNat, value, ofNat_length, ih, hsplit, hbit]
    ring

theorem ofNat_add (a b n : ℕ) : ofNat (a+b) n = ofNat a (n/2^b) ++ ofNat b n := by
  induction a with
  | zero => simp [ofNat]
  | succ a ih =>
    rw [Nat.succ_add, ofNat, ih, ofNat, List.cons_append, Nat.testBit_div_two_pow]

theorem ofNat_value (bs : List Bool) : ofNat bs.length (value bs) = bs := by
  induction bs with
  | nil => rfl
  | cons b bs ih =>
    have hlt := value_lt bs
    have hbit : (value (b::bs)).testBit bs.length = b := by
      rw [value, Nat.mul_comm, Nat.testBit_eq_decide_div_mod_eq,
        Nat.mul_add_div (Nat.two_pow_pos _), Nat.div_eq_of_lt hlt]
      cases b <;> simp
    rw [List.length_cons, ofNat, hbit, value]
    congr 1
    have hmod : ofNat bs.length (b.toNat*2^bs.length + value bs) =
        ofNat bs.length (value bs) := by
      have hw : ∀ w, w ≤ bs.length →
          ofNat w (b.toNat*2^bs.length + value bs) = ofNat w (value bs) := by
        intro w
        induction w with
        | zero => intro _; rfl
        | succ w ihw =>
          intro hle
          rw [ofNat, ofNat, ihw (by omega), Nat.mul_comm, Nat.testBit_two_pow_mul_add _ hlt]
          simp [show w < bs.length by omega]
      exact hw _ (le_refl _)
    rw [hmod, ih]

theorem ofNat_mod (w n : ℕ) : ofNat w (n % 2^w) = ofNat w n := by
  have h := ofNat_value (ofNat w n)
  rwa [ofNat_length, value_ofNat] at h

theorem ofNat_zero (w : ℕ) : ofNat w 0 = List.replicate w false := by
  induction w with
  | zero => rfl
  | succ w ih => rw [ofNat, ih, Nat.zero_testBit, List.replicate_succ]

theorem ofNat_congr {w a b : ℕ} (h : a % 2^w = b % 2^w) : ofNat w a = ofNat w b := by
  rw [← ofNat_mod w a, h, ofNat_mod]

theorem or_eq_add (a b i : ℕ) (h : b < 2^i) : a*2^i ||| b = a*2^i + b := by
  rw [Nat.mul_comm, Nat.two_pow_add_eq_or_of_lt h]

def ofBytes (bs : List UInt8) : List Bool := bs.flatMap (fun b => ofNat 8 b.toNat)

@[simp] theorem ofBytes_nil : ofBytes [] = [] := rfl

@[simp] theorem ofBytes_cons (b : UInt8) (bs : List UInt8) :
    ofBytes (b::bs) = ofNat 8 b.toNat ++ ofBytes bs := rfl

@[simp] theorem ofBytes_append (xs ys : List UInt8) :
    ofBytes (xs++ys) = ofBytes xs ++ ofBytes ys := by
  simp [ofBytes]

@[simp] theorem ofBytes_length (bs : List UInt8) : (ofBytes bs).length = 8*bs.length := by
  induction bs with
  | nil => rfl
  | cons b bs ih => simp [ih]; omega

theorem aligned_ofBytes (bs : List UInt8) : (ofBytes bs).length % 8 = 0 := by
  rw [ofBytes_length]
  omega

/-- The bytes of a bit list; a last group of fewer than eight bits is dropped. -/
def pack : List Bool → List UInt8
  | a::b::c::d::e::f::g::h::rest => UInt8.ofNat (value [a,b,c,d,e,f,g,h]) :: pack rest
  | _ => []

theorem pack_byte (xs rest : List Bool) (h : xs.length = 8) :
    pack (xs++rest) = UInt8.ofNat (value xs) :: pack rest := by
  obtain ⟨a, b, c, d, e, f, g, i, rfl⟩ : ∃ a b c d e f g i, xs = [a,b,c,d,e,f,g,i] := by
    match xs, h with
    | [a,b,c,d,e,f,g,i], _ => exact ⟨a, b, c, d, e, f, g, i, rfl⟩
  rfl

theorem ofBytes_pack (n : ℕ) (bs : List Bool) (h : bs.length = 8*n) :
    ofBytes (pack bs) = bs := by
  induction n generalizing bs with
  | zero =>
    obtain rfl := List.length_eq_zero_iff.mp h
    rfl
  | succ n ih =>
    have hl : (bs.take 8).length = 8 := by rw [List.length_take]; omega
    have hlt : value (bs.take 8) < 256 := by simpa [hl] using value_lt (bs.take 8)
    rw [← List.take_append_drop 8 bs, pack_byte _ _ hl, ofBytes_cons,
      ih (bs.drop 8) (by rw [List.length_drop]; omega)]
    congr 1
    rw [UInt8.toNat_ofNat', Nat.mod_eq_of_lt hlt]
    have := ofNat_value (bs.take 8)
    rwa [hl] at this

theorem pack_length (n : ℕ) (bs : List Bool) (h : bs.length = 8*n) : (pack bs).length = n := by
  have := congrArg List.length (ofBytes_pack n bs h)
  rw [ofBytes_length] at this
  omega

theorem pack_append (n : ℕ) (xs ys : List Bool) (h : xs.length = 8*n) :
    pack (xs++ys) = pack xs ++ pack ys := by
  induction n generalizing xs with
  | zero =>
    obtain rfl := List.length_eq_zero_iff.mp h
    rfl
  | succ n ih =>
    have hl : (xs.take 8).length = 8 := by rw [List.length_take]; omega
    rw [← List.take_append_drop 8 xs, List.append_assoc, pack_byte _ _ hl, pack_byte _ _ hl,
      ih (xs.drop 8) (by rw [List.length_drop]; omega), List.cons_append]

theorem pack_ofBytes (bs : List UInt8) : pack (ofBytes bs) = bs := by
  induction bs with
  | nil => rfl
  | cons b bs ih =>
    rw [ofBytes_cons, pack_byte _ _ (ofNat_length 8 _), ih, value_ofNat,
      Nat.mod_eq_of_lt (by simpa using b.toNat_lt)]
    simp

/-- Bit `i` of a buffer, bit zero being the most significant bit of byte zero. -/
def bitAt (m : Memory) (i : ℕ) : Bool := (m (i/8)).toNat.testBit (7-i%8)

def bits (m : Memory) (pos : ℕ) : ℕ → List Bool
  | 0 => []
  | n+1 => bitAt m pos :: bits m (pos+1) n

attribute [grind =] bits

@[simp] theorem bits_length (m : Memory) (pos n : ℕ) : (bits m pos n).length = n := by
  induction n generalizing pos with
  | zero => rfl
  | succ n ih => simp [bits, ih]

theorem bits_add (m : Memory) (pos n k : ℕ) :
    bits m pos (n+k) = bits m pos n ++ bits m (pos+n) k := by
  induction n generalizing pos with
  | zero => simp [bits]
  | succ n ih =>
    rw [Nat.succ_add, bits, ih, bits, List.cons_append]
    congr 3
    omega

/-- Bits that lie inside one byte are a shift of that byte. -/
theorem bits_inside (m : Memory) (v s k : ℕ) (h : s+k ≤ 8) :
    bits m (8*v+s) k = ofNat k ((m v).toNat / 2^(8-s-k)) := by
  induction k generalizing s with
  | zero => rfl
  | succ k ih =>
    have hd : (8*v+s)/8 = v := by omega
    have hm : (8*v+s)%8 = s := by omega
    rw [bits, Nat.add_assoc, ih (s+1) (by omega), ofNat, bitAt, hd, hm,
      Nat.testBit_div_two_pow]
    congr 2
    · omega
    · congr 2
      omega

theorem bits_byte (m : Memory) (v : ℕ) : bits m (8*v) 8 = ofNat 8 (m v).toNat := by
  simpa using bits_inside m v 0 8 (by omega)

theorem bits_load (m : Memory) (v n : ℕ) : bits m (8*v) (8*n) = ofBytes (load m v n) := by
  induction n generalizing v with
  | zero => rfl
  | succ n ih =>
    rw [Nat.mul_succ, Nat.add_comm, bits_add, bits_byte, load, ofBytes_cons,
      show 8*v+8 = 8*(v+1) by omega, ih]

end BitString
