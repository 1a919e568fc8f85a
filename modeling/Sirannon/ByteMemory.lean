import Mathlib.Data.List.GetD
import Mathlib.Tactic

/-!
# Byte memory

A buffer is a total function from offsets to bytes. Bounds are not part of
the buffer: a development that needs them states them about the offsets it
uses. Loads and stores of disjoint ranges commute, and a store followed by a
load of the same range returns the bytes stored.
-/

set_option autoImplicit false

namespace ByteMemory

abbrev Memory := ℕ → UInt8

def zeroed : Memory := fun _ => 0

def load (m : Memory) (off : ℕ) : ℕ → List UInt8
  | 0 => []
  | n+1 => m off :: load m (off+1) n

attribute [grind =] load

def store (m : Memory) (off : ℕ) (bs : List UInt8) : Memory :=
  fun i => if i < off then m i else bs.getD (i-off) (m i)

@[simp] theorem load_length (m : Memory) (off n : ℕ) : (load m off n).length = n := by
  induction n generalizing off with
  | zero => rfl
  | succ n ih => simp [load, ih]

theorem load_add (m : Memory) (off n k : ℕ) :
    load m off (n+k) = load m off n ++ load m (off+n) k := by
  induction n generalizing off with
  | zero => simp [load]
  | succ n ih =>
    rw [Nat.succ_add, load, load, ih (off+1), List.cons_append]
    congr 3
    omega

theorem load_getElem (m : Memory) (off n i : ℕ) (h : i < (load m off n).length) :
    (load m off n)[i] = m (off+i) := by
  induction n generalizing off i with
  | zero => simp [load] at h
  | succ n ih =>
    cases i with
    | zero => rfl
    | succ i =>
      simp only [load, List.getElem_cons_succ]
      rw [ih (off+1) i (by simpa [load] using h)]
      congr 1
      omega

theorem load_congr (m m' : Memory) (off n : ℕ)
    (h : ∀ i, off ≤ i → i < off+n → m i = m' i) : load m off n = load m' off n := by
  induction n generalizing off with
  | zero => rfl
  | succ n ih =>
    rw [load, load, h off (le_refl _) (by omega), ih (off+1)]
    intro i hi hj
    exact h i (by omega) (by omega)

theorem load_take (m : Memory) (off n k : ℕ) (h : k ≤ n) :
    (load m off n).take k = load m off k := by
  obtain ⟨d, rfl⟩ := Nat.exists_eq_add_of_le h
  rw [load_add, List.take_left' (load_length m off k)]

theorem load_drop (m : Memory) (off : ℕ) {n k : ℕ} (h : k ≤ n) :
    (load m off n).drop k = load m (off+k) (n-k) := by
  have hsplit := load_add m off k (n-k)
  rw [Nat.add_sub_cancel' h] at hsplit
  rw [hsplit, List.drop_left' (load_length m off k)]

@[simp] theorem store_nil (m : Memory) (off : ℕ) : store m off [] = m := by
  funext i
  simp [store]

theorem store_below (m : Memory) (off i : ℕ) (bs : List UInt8) (h : i < off) :
    store m off bs i = m i := by
  simp [store, h]

theorem store_above (m : Memory) (off i : ℕ) (bs : List UInt8) (h : off+bs.length ≤ i) :
    store m off bs i = m i := by
  have hi : ¬ i < off := by omega
  rw [store, if_neg hi, List.getD_eq_default]
  omega

theorem store_inside (m : Memory) (off i : ℕ) (bs : List UInt8) (h : i < bs.length) :
    store m off bs (off+i) = bs[i] := by
  have hi : ¬ off+i < off := by omega
  rw [store, if_neg hi, Nat.add_sub_cancel_left, List.getD_eq_getElem _ _ h]

theorem load_store (m : Memory) (off : ℕ) (bs : List UInt8) :
    load (store m off bs) off bs.length = bs := by
  apply List.ext_getElem (load_length _ _ _)
  intro i h₁ h₂
  rw [load_getElem, store_inside m off i bs h₂]

theorem load_store_below (m : Memory) (off n p : ℕ) (bs : List UInt8) (h : p+n ≤ off) :
    load (store m off bs) p n = load m p n := by
  apply load_congr
  intro i _ hi
  exact store_below m off i bs (by omega)

theorem load_store_above (m : Memory) (off n p : ℕ) (bs : List UInt8) (h : off+bs.length ≤ p) :
    load (store m off bs) p n = load m p n := by
  apply load_congr
  intro i hi _
  exact store_above m off i bs (by omega)

/-- Storing just behind a loaded range extends the range by the bytes stored. -/
theorem load_store_extend (m : Memory) (n : ℕ) (bs : List UInt8) :
    load (store m n bs) 0 (n+bs.length) = load m 0 n ++ bs := by
  rw [load_add, load_store_below m n n 0 bs (by omega), Nat.zero_add, load_store]

theorem store_append (m : Memory) (off : ℕ) (xs ys : List UInt8) :
    store m off (xs++ys) = store (store m off xs) (off+xs.length) ys := by
  funext i
  by_cases h₁ : i < off
  · rw [store_below _ _ _ _ h₁, store_below _ _ _ _ (by omega), store_below _ _ _ _ h₁]
  by_cases h₂ : i < off+xs.length
  · obtain ⟨d, rfl⟩ := Nat.exists_eq_add_of_le (Nat.le_of_not_lt h₁)
    have hd : d < xs.length := by omega
    rw [store_below _ _ _ ys h₂, store_inside m off d xs hd,
      store_inside m off d (xs++ys) (by simp; omega), List.getElem_append_left hd]
  by_cases h₃ : i < off+(xs++ys).length
  · obtain ⟨d, rfl⟩ := Nat.exists_eq_add_of_le (Nat.le_of_not_lt h₂)
    have hd : d < ys.length := by simp only [List.length_append] at h₃; omega
    rw [store_inside (store m off xs) (off+xs.length) d ys hd, Nat.add_assoc,
      store_inside m off (xs.length+d) (xs++ys) (by simp; omega),
      List.getElem_append_right (by omega)]
    congr 1
    omega
  · simp only [List.length_append] at h₃
    rw [store_above _ _ _ _ (by simp; omega), store_above _ _ _ ys (by omega),
      store_above _ _ _ xs (by omega)]

/-! ## Ranges -/

def shift (m : Memory) (off : ℕ) : Memory := fun i => m (off+i)

/-- The bytes stand in the memory from `off` on. -/
def Stored (m : Memory) (off : ℕ) (bs : List UInt8) : Prop := load m off bs.length = bs

variable {m : Memory} {off : ℕ} {xs ys : List UInt8}

theorem load_shift (m : Memory) (off i n : ℕ) : load (shift m off) i n = load m (off+i) n := by
  induction n generalizing i with
  | zero => rfl
  | succ n ih => rw [load, load, ih, shift, Nat.add_assoc]

theorem stored_append :
    Stored m off (xs++ys) ↔ Stored m off xs ∧ Stored m (off+xs.length) ys := by
  rw [Stored, List.length_append, load_add, Stored, Stored]
  constructor
  · intro h
    exact List.append_inj h (load_length m off xs.length)
  · rintro ⟨hx, hy⟩
    rw [hx, hy]

theorem stored_cons {b : UInt8} : Stored m off (b::xs) ↔ m off = b ∧ Stored m (off+1) xs := by
  rw [Stored, List.length_cons, load, List.cons.injEq]
  rfl

theorem stored_store (m : Memory) (off : ℕ) (bs : List UInt8) : Stored (store m off bs) off bs :=
  load_store m off bs

theorem stored_load (m : Memory) (off n : ℕ) : Stored m off (load m off n) := by
  rw [Stored, load_length]

theorem stored_shift {i : ℕ} : Stored (shift m off) i xs ↔ Stored m (off+i) xs := by
  rw [Stored, Stored, load_shift]

end ByteMemory
