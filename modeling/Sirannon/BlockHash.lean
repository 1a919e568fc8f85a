import Mathlib.Tactic

/-!
# Hashing block by block

A message is hashed in blocks of a fixed size. It may come in pieces of any
size: what does not fill a block is kept until more comes. How a message is
cut into pieces does not matter.
-/

set_option autoImplicit false

namespace BlockHash

section
variable {α σ : Type} (n : ℕ) (f : σ → List α → σ)

/-- The first `k` blocks of a message. -/
def absorb : ℕ → σ → List α → σ
  | 0, h, _ => h
  | k+1, h, m => absorb k (f h (m.take n)) (m.drop n)

/-- A hash in work and the part of a block that is kept. -/
structure Buffer (α σ : Type) where
  hash : σ
  kept : List α

def start (h : σ) : Buffer α σ := ⟨h, []⟩

def Buffer.update (b : Buffer α σ) (m : List α) : Buffer α σ :=
  if b.kept.length+m.length < n then ⟨b.hash, b.kept++m⟩
  else
    let rest := m.drop (n-b.kept.length)
    let k := rest.length/n
    ⟨absorb n f k (f b.hash (b.kept ++ m.take (n-b.kept.length))) rest, rest.drop (k*n)⟩

/-- What a buffer is behind a message. -/
def behind (h : σ) (m : List α) : Buffer α σ :=
  ⟨absorb n f (m.length/n) h m, m.drop (m.length/n*n)⟩

variable {n f}

theorem absorb_add (k l : ℕ) (h : σ) (m : List α) :
    absorb n f (k+l) h m = absorb n f l (absorb n f k h m) (m.drop (k*n)) := by
  induction k generalizing h m with
  | zero => simp [absorb]
  | succ k ih =>
    rw [Nat.succ_add, absorb, absorb, ih, List.drop_drop, Nat.succ_mul, Nat.add_comm]

/-- What stands behind the blocks has no part in them. -/
theorem absorb_append (k : ℕ) (h : σ) (m x : List α) (hk : k*n ≤ m.length) :
    absorb n f k h (m++x) = absorb n f k h m := by
  induction k generalizing h m with
  | zero => rfl
  | succ k ih =>
    rw [Nat.succ_mul] at hk
    rw [absorb, absorb, List.take_append_of_le_length (by omega),
      List.drop_append_of_le_length (by omega)]
    exact ih _ _ (by rw [List.length_drop]; omega)

theorem behind_nil (h : σ) : behind n f h ([] : List α) = start h := by
  simp [behind, start, absorb]

theorem kept_length (h : σ) (m : List α) : (behind n f h m).kept.length = m.length%n := by
  have hsplit := Nat.div_add_mod' m.length n
  show (m.drop _).length = _
  rw [List.length_drop]
  omega

/-- A message that is short of its next block is kept. -/
theorem behind_short (h : σ) (m x : List α) (hshort : m.length%n+x.length < n) :
    behind n f h (m++x) = ⟨(behind n f h m).hash, (behind n f h m).kept++x⟩ := by
  have hn : 0 < n := by omega
  have hdiv : (m++x).length/n = m.length/n := by
    rw [List.length_append, ← Nat.div_add_mod' m.length n, Nat.add_assoc,
      Nat.mul_comm, Nat.mul_add_div hn, Nat.div_eq_of_lt hshort, Nat.mul_add_div hn,
      Nat.div_eq_of_lt (Nat.mod_lt _ hn)]
  have hle : m.length/n*n ≤ m.length := Nat.div_mul_le_self _ _
  rw [behind, hdiv, absorb_append _ _ _ _ hle, List.drop_append_of_le_length hle]
  rfl

/-- A message that fills the next block goes on with the blocks behind it. -/
theorem behind_full (hn : 0 < n) (h : σ) (m x : List α) (hfull : n ≤ m.length%n+x.length) :
    behind n f h (m++x) = ((behind n f h m).update n f x) := by
  have hkept := kept_length (n := n) (f := f) h m
  have hmod := Nat.mod_lt m.length hn
  have hsplit := Nat.div_add_mod' m.length n
  have hroom : n-m.length%n ≤ x.length := by omega
  have hdiv : (m++x).length/n = m.length/n+1+(x.length-(n-m.length%n))/n := by
    have hlen : (m++x).length = n*(m.length/n+1)+(x.length-(n-m.length%n)) := by
      rw [List.length_append, Nat.mul_succ, Nat.mul_comm]
      omega
    rw [hlen, Nat.mul_add_div hn]
  have hle : m.length/n*n ≤ m.length := Nat.div_mul_le_self _ _
  have hdrop : (m++x).drop (m.length/n*n) = m.drop (m.length/n*n) ++ x :=
    List.drop_append_of_le_length hle
  have hblock : (m.drop (m.length/n*n) ++ x).take n =
      m.drop (m.length/n*n) ++ x.take (n-m.length%n) := by
    have hlength : (m.drop (m.length/n*n)).length = m.length%n := hkept
    rw [List.take_append, hlength, List.take_of_length_le (by omega)]
  have hrest : (m.drop (m.length/n*n) ++ x).drop n = x.drop (n-m.length%n) := by
    have hlength : (m.drop (m.length/n*n)).length = m.length%n := hkept
    rw [List.drop_append, hlength, List.drop_of_length_le (by omega), List.nil_append]
  have hnext : (m++x).drop ((m.length/n+1)*n) = x.drop (n-m.length%n) := by
    rw [Nat.succ_mul, ← List.drop_drop, hdrop, hrest]
  rw [Buffer.update, if_neg (by omega), hkept, behind, hdiv, absorb_add, absorb_add,
    absorb_append _ _ _ _ hle, hdrop, absorb, hblock, absorb, hnext, Nat.add_mul _ _ n,
    ← List.drop_drop, hnext, ← List.length_drop]
  rfl

/-- The last blocks go on from what is behind the message. -/
theorem absorb_behind (h : σ) (m x : List α) {k : ℕ} (hk : (m++x).length = k*n) :
    absorb n f k h (m++x) = absorb n f (k-m.length/n) (behind n f h m).hash
      ((behind n f h m).kept++x) := by
  have hle : m.length/n*n ≤ m.length := Nat.div_mul_le_self _ _
  have hcount : m.length/n ≤ k := by
    have hlength : m.length ≤ k*n := by
      rw [← hk, List.length_append]
      omega
    exact Nat.div_le_of_le_mul (by rwa [Nat.mul_comm])
  conv_lhs => rw [← Nat.add_sub_cancel' hcount]
  rw [absorb_add, absorb_append _ _ _ _ hle, List.drop_append_of_le_length hle]
  rfl

end

end BlockHash
