import Sirannon.BoundedReading

/-!
# The bit writer in memory

The writer works in place: bits are added to the byte at the write position,
and each byte it moves on to is cleared first, as long as it is one of the
buffer. It shows the writer on lists, and changes no byte behind its own.
-/

set_option autoImplicit false

namespace Sirannon.BitMemory
open ByteMemory BitString Bits MachineInt

structure OBits where
  mem : Memory
  v0 : ℕ
  v : ℕ
  iBuff : ℕ
  iBytes : ℕ

namespace OBits

def put (m : Memory) (a : ℕ) (b : UInt8) : Memory := store m a [b]

/-- On a buffer of the caller. -/
def wrap (m : Memory) (pBytes iBytes : ℕ) : OBits where
  mem := if iBytes = 0 then m else put m pBytes 0
  v0 := pBytes
  v := pBytes
  iBuff := 8
  iBytes := iBytes

/-- On a new buffer of its own, at `p`. -/
def new (m : Memory) (p iBytes : ℕ) : OBits where
  mem := store m p (List.replicate iBytes 0)
  v0 := p
  v := p
  iBuff := 8
  iBytes := iBytes

def clear (o : OBits) : OBits := { o with mem := put o.mem o.v0 0, v := o.v0, iBuff := 8 }

def size (o : OBits) : ℕ := if o.iBuff = 8 then o.v-o.v0 else o.v-o.v0+1

def size_bits (o : OBits) : ℕ := (o.v-o.v0+1)*8-o.iBuff

def exceeds (o : OBits) (iBits : ℕ) : SirannonException :=
  outOfBoundsError s!"OBits: write of ({iBits}) bits would exceed buffer ({o.iBytes} bytes)"

/-- The bits go into the byte at the write position. -/
def fill (o : OBits) (iWrite iRest iVal : ℕ) : OBits :=
  let iBuff := o.iBuff-iWrite
  let x := UInt8.ofNat (((iVal &&& mask iWrite iRest) >>> iRest) <<< iBuff)
  { o with mem := put o.mem o.v (o.mem o.v ||| x), iBuff := iBuff }

/-- Jump to the next position. -/
def jump (o : OBits) (iRest : ℕ) : Except SirannonException OBits :=
  let o := { o with v := o.v+1 }
  if o.v-o.v0 < o.iBytes then .ok { o with mem := put o.mem o.v 0, iBuff := 8 }
  else if iRest ≠ 0 then .error (o.exceeds iRest)
  else .ok { o with iBuff := 8 }

/-- One round of the loop. -/
def round (o : OBits) (iWrite iRest iVal : ℕ) : Except SirannonException OBits :=
  if (o.fill iWrite iRest iVal).iBuff = 0 then (o.fill iWrite iRest iVal).jump iRest
  else .ok (o.fill iWrite iRest iVal)

def writeLoop : ℕ → ℕ → ℕ → OBits → Except SirannonException OBits
  | 0, _, _, o => .ok o
  | fuel+1, iBits, iVal, o =>
    if iBits = 0 then .ok o
    else do
      let iWrite := min o.iBuff iBits
      let o ← o.round iWrite (iBits-iWrite) iVal
      writeLoop fuel (iBits-iWrite) iVal o

def write (o : OBits) (iBits iVal : ℕ) : Except SirannonException OBits :=
  if o.iBytes ≤ o.v-o.v0 then .error (o.exceeds iBits) else writeLoop iBits iBits iVal o

def writes (o : OBits) : List (ℕ × ℕ) → Except SirannonException OBits
  | [] => .ok o
  | (iBits, iVal)::fields => do
    let o ← o.write iBits iVal
    o.writes fields

/-! ## The writer on lists -/

/-- The bytes behind the writer and the one in work; behind the end of the buffer there is none. -/
structure Shows (o : OBits) (l : Bits.OBits) : Prop where
  start : o.v0 ≤ o.v
  done : l.done = load o.mem o.v0 (o.v-o.v0)
  cur : o.v-o.v0 < o.iBytes → l.cur = o.mem o.v
  buff : 1 ≤ o.iBuff ∧ o.iBuff ≤ 8
  iBuff : l.iBuff = o.iBuff
  iBytes : l.iBytes = o.iBytes

/-- What a writer leaves of the memory `m`: outside the buffer everything, and behind the bytes
written what was there or a zero. -/
structure Kept (m : Memory) (o : OBits) : Prop where
  before : ∀ a < o.v0, o.mem a = m a
  behind : ∀ a, o.v < a → o.mem a = m a ∨ o.mem a = 0
  fresh : o.iBuff = 8 → o.mem o.v = m o.v ∨ o.mem o.v = 0
  outside : 0 < o.iBytes → ∀ a, o.v0+o.iBytes ≤ a → o.mem a = m a

variable {m : Memory} {o o' : OBits} {l l' : Bits.OBits} {a iBits iVal w r : ℕ} {b : UInt8}

theorem put_same (m : Memory) (a : ℕ) (b : UInt8) : put m a b a = b :=
  store_inside m a 0 [b] (by simp)

theorem put_other {i : ℕ} (h : i ≠ a) : put m a b i = m i := by
  rcases Nat.lt_or_gt_of_ne h with hlt | hgt
  · exact store_below m a i [b] hlt
  · exact store_above m a i [b] hgt

theorem load_put {p n : ℕ} (h : p+n ≤ a) : load (put m a b) p n = load m p n :=
  load_store_below m a n p [b] h

/-! ## A step -/

theorem fill_kept (r iVal : ℕ) (hk : Kept m o) (hroom : o.v-o.v0 < o.iBytes) (hstart : o.v0 ≤ o.v)
    (hw : o.iBuff-w ≠ 8) : Kept m (o.fill w r iVal) := by
  constructor
  · intro a ha
    have ha : a < o.v0 := ha
    exact (put_other (by omega)).trans (hk.before a ha)
  · intro a ha
    have ha : o.v < a := ha
    have hsame : (o.fill w r iVal).mem a = o.mem a := put_other (by omega)
    rw [hsame]
    exact hk.behind a ha
  · intro hbuff
    exact absurd hbuff hw
  · intro hpos a ha
    have ha : o.v0+o.iBytes ≤ a := ha
    exact (put_other (by omega)).trans (hk.outside hpos a ha)

/-- The byte the writer moves to is cleared, if there is one. -/
theorem jump_shows (hk : Kept m o) (hstart : o.v0 ≤ o.v)
    (hmore : r = 0 ∨ o.v+1-o.v0 < o.iBytes) :
    ∃ o', o.jump r = .ok o' ∧ Kept m o' ∧
      o'.Shows ⟨load o.mem o.v0 (o.v-o.v0) ++ [o.mem o.v], 0, 8, o.iBytes⟩ ∧
      o'.v = o.v+1 ∧ o'.v0 = o.v0 ∧ o'.iBytes = o.iBytes := by
  have hload : load o.mem o.v0 (o.v-o.v0) ++ [o.mem o.v] = load o.mem o.v0 (o.v+1-o.v0) := by
    rw [show o.v+1-o.v0 = (o.v-o.v0)+1 by omega, load_add, show o.v0+(o.v-o.v0) = o.v by omega]
    rfl
  rw [jump, hload]
  dsimp only
  by_cases hin : o.v+1-o.v0 < o.iBytes
  · rw [if_pos hin]
    refine ⟨_, rfl, ⟨?_, ?_, ?_, ?_⟩, ⟨?_, ?_, ?_, ?_, rfl, rfl⟩, rfl, rfl, rfl⟩
    · intro a ha
      have ha : a < o.v0 := ha
      exact (put_other (by omega)).trans (hk.before a ha)
    · intro a ha
      have ha : o.v+1 < a := ha
      dsimp only
      rw [put_other (by omega)]
      exact hk.behind a (by omega)
    · intro _
      exact Or.inr (put_same ..)
    · intro hpos a ha
      have ha : o.v0+o.iBytes ≤ a := ha
      exact (put_other (by omega)).trans (hk.outside hpos a ha)
    · dsimp only
      omega
    · exact (load_put (by omega)).symm
    · intro _
      exact (put_same ..).symm
    · exact ⟨show 1 ≤ 8 by decide, le_refl 8⟩
  · have hzero : ¬r ≠ 0 := by
      rw [not_not]
      omega
    rw [if_neg hin, if_neg hzero]
    refine ⟨_, rfl, ⟨hk.before, ?_, ?_, hk.outside⟩, ⟨?_, rfl, ?_, ?_, rfl, rfl⟩, rfl, rfl, rfl⟩
    · intro a ha
      have ha : o.v+1 < a := ha
      exact hk.behind a (by omega)
    · intro _
      exact hk.behind _ (Nat.lt_succ_self o.v)
    · dsimp only
      omega
    · intro hless
      exact absurd hless hin
    · exact ⟨show 1 ≤ 8 by decide, le_refl 8⟩

theorem round_shows (h : o.Shows l) (hk : Kept m o) (hroom : o.v-o.v0 < o.iBytes) (hw : 0 < w)
    (hmore : (l.putBits w r iVal).iBuff = 8 → l.iBytes ≤ (l.putBits w r iVal).done.length → r = 0) :
    ∃ o', o.round w r iVal = .ok o' ∧ o'.Shows (l.putBits w r iVal) ∧ Kept m o' ∧
      (r = 0 ∨ o'.v-o'.v0 < o'.iBytes) ∧ o'.v0 = o.v0 ∧ o'.iBytes = o.iBytes := by
  have hbuff := h.buff
  have hstart := h.start
  have hfilled := fill_kept r iVal hk hroom hstart (show o.iBuff-w ≠ 8 by omega)
  have hmem : (o.fill w r iVal).mem o.v = l.cur |||
      UInt8.ofNat (((iVal &&& mask w r) >>> r) <<< (l.iBuff-w)) := by
    rw [h.cur hroom, h.iBuff]
    exact put_same ..
  have hdone : load (o.fill w r iVal).mem o.v0 (o.v-o.v0) = l.done := by
    rw [h.done]
    exact load_put (by omega)
  have hcount : l.done.length = o.v-o.v0 := by rw [h.done, load_length]
  have hiBytes := h.iBytes
  rw [round, Bits.OBits.putBits]
  rw [Bits.OBits.putBits] at hmore
  rw [h.iBuff] at hmem hmore ⊢
  by_cases hfull : o.iBuff-w = 0
  · have hfree : (o.fill w r iVal).iBuff = 0 := hfull
    rw [if_pos hfull] at hmore ⊢
    rw [if_pos hfree]
    have hnext : r = 0 ∨ o.v+1-o.v0 < o.iBytes := by
      have hlast := hmore rfl
      rw [List.length_append, List.length_singleton] at hlast
      omega
    rcases jump_shows hfilled hstart hnext with ⟨o', hjump, hkept, hshows, hv, hv0, hbytes⟩
    have hmem' : (o.fill w r iVal).mem (o.fill w r iVal).v = l.cur |||
      UInt8.ofNat (((iVal &&& mask w r) >>> r) <<< (o.iBuff-w)) := hmem
    have hdone' : load (o.fill w r iVal).mem (o.fill w r iVal).v0
        ((o.fill w r iVal).v-(o.fill w r iVal).v0) = l.done := hdone
    rw [hdone', hmem'] at hshows
    refine ⟨o', hjump, ?_, hkept, ?_, hv0, hbytes⟩
    · rw [hiBytes]
      exact hshows
    · rw [hv, hv0, hbytes]
      exact hnext
  · have hfree : ¬(o.fill w r iVal).iBuff = 0 := hfull
    rw [if_neg hfull, if_neg hfree]
    refine ⟨_, rfl, ⟨hstart, hdone.symm, fun _ => hmem.symm, ?_, rfl, hiBytes⟩, hfilled,
      Or.inr hroom, rfl, rfl⟩
    show 1 ≤ o.iBuff-w ∧ o.iBuff-w ≤ 8
    omega

/-! ## Writes -/

theorem writeLoop_shows (fuel : ℕ) (h : o.Shows l) (hk : Kept m o)
    (hroom : iBits = 0 ∨ o.v-o.v0 < o.iBytes)
    (hwrite : Bits.OBits.writeLoop fuel iBits iVal l = .ok l') :
    ∃ o', writeLoop fuel iBits iVal o = .ok o' ∧ o'.Shows l' ∧ Kept m o' ∧ o'.v0 = o.v0 ∧
      o'.iBytes = o.iBytes := by
  induction fuel generalizing o l iBits with
  | zero =>
    obtain rfl := Except.ok.inj hwrite
    exact ⟨o, rfl, h, hk, rfl, rfl⟩
  | succ fuel ih =>
    rw [Bits.OBits.writeLoop] at hwrite
    rw [writeLoop]
    by_cases hzero : iBits = 0
    · rw [if_pos hzero] at hwrite ⊢
      obtain rfl := Except.ok.inj hwrite
      exact ⟨o, rfl, h, hk, rfl, rfl⟩
    · have hbuff := h.buff
      rw [if_neg hzero] at hwrite ⊢
      dsimp only at hwrite ⊢
      rw [h.iBuff] at hwrite
      split at hwrite
      · cases hwrite
      case isFalse hmore =>
        have hmore' : (l.putBits (min o.iBuff iBits) (iBits-min o.iBuff iBits) iVal).iBuff = 8 →
            l.iBytes ≤ (l.putBits (min o.iBuff iBits) (iBits-min o.iBuff iBits) iVal).done.length →
            iBits-min o.iBuff iBits = 0 := by
          intro hfull hlast
          by_contra hrest
          exact hmore ⟨hfull, hlast, hrest⟩
        rcases round_shows h hk (hroom.resolve_left hzero) (show 0 < min o.iBuff iBits by omega)
          hmore' with ⟨o₁, hround, hshows, hkept, hroom₁, hv0, hbytes⟩
        rcases ih hshows hkept hroom₁ hwrite with ⟨o', hrest, hshows', hkept', hv0', hbytes'⟩
        refine ⟨o', ?_, hshows', hkept', hv0'.trans hv0, hbytes'.trans hbytes⟩
        rw [hround]
        exact hrest

theorem write_shows (h : o.Shows l) (hk : Kept m o) (hwrite : l.write iBits iVal = .ok l') :
    ∃ o', o.write iBits iVal = .ok o' ∧ o'.Shows l' ∧ Kept m o' ∧ o'.v0 = o.v0 ∧
      o'.iBytes = o.iBytes := by
  have hcount : l.done.length = o.v-o.v0 := by rw [h.done, load_length]
  rw [Bits.OBits.write, hcount, h.iBytes] at hwrite
  rw [write]
  by_cases hfull : o.iBytes ≤ o.v-o.v0
  · rw [if_pos hfull] at hwrite
    cases hwrite
  · rw [if_neg hfull] at hwrite ⊢
    exact writeLoop_shows iBits h hk (Or.inr (by omega)) hwrite

theorem writes_shows (fields : List (ℕ × ℕ)) (h : o.Shows l) (hk : Kept m o)
    (hwrite : l.writes fields = .ok l') :
    ∃ o', o.writes fields = .ok o' ∧ o'.Shows l' ∧ Kept m o' ∧ o'.v0 = o.v0 ∧
      o'.iBytes = o.iBytes := by
  induction fields generalizing o l with
  | nil =>
    obtain rfl := Except.ok.inj hwrite
    exact ⟨o, rfl, h, hk, rfl, rfl⟩
  | cons f fields ih =>
    rcases Bits.bind_ok.mp hwrite with ⟨l₁, hfirst, hrest⟩
    rcases write_shows h hk hfirst with ⟨o₁, hwrite₁, hshows, hkept, hv0, hbytes⟩
    rcases ih hshows hkept hrest with ⟨o', hwrites, hshows', hkept', hv0', hbytes'⟩
    refine ⟨o', ?_, hshows', hkept', hv0'.trans hv0, hbytes'.trans hbytes⟩
    rw [writes, hwrite₁]
    exact hwrites

/-! ## Start -/

/-- A writer that has just been made or cleared, when the memory was `m`. -/
inductive Begun : Memory → OBits → Prop
  | wrap (mOld : Memory) (pBytes iBytes : ℕ) : Begun mOld (OBits.wrap mOld pBytes iBytes)
  | new (mOld : Memory) (pNew iBytes : ℕ) : Begun mOld (OBits.new mOld pNew iBytes)
  | clear (oOld : OBits) : Begun oOld.mem oOld.clear

theorem clean_shows (hv : o.v = o.v0) (hbuff : o.iBuff = 8)
    (hfirst : 0 < o.iBytes → o.mem o.v0 = 0) : o.Shows (Bits.OBits.new o.iBytes) := by
  constructor
  · exact hv.ge
  · rw [hv, Nat.sub_self]
    rfl
  · intro hless
    rw [hv, hfirst (by omega)]
    rfl
  · omega
  · exact hbuff.symm
  · rfl

theorem clean_kept (hbefore : ∀ a < o.v0, o.mem a = m a)
    (hzeroed : ∀ a, o.mem a = m a ∨ o.mem a = 0)
    (houtside : 0 < o.iBytes → ∀ a, o.v0+o.iBytes ≤ a → o.mem a = m a) : Kept m o :=
  ⟨hbefore, fun a _ => hzeroed a, fun _ => hzeroed o.v, houtside⟩

theorem put_zeroed (m : Memory) (p a : ℕ) : put m p 0 a = m a ∨ put m p 0 a = 0 := by
  by_cases h : a = p
  · rw [h]
    exact Or.inr (put_same ..)
  · exact Or.inl (put_other h)

theorem zeros_inside {m : Memory} {p n a : ℕ} (hlow : p ≤ a) (hhigh : a < p+n) :
    store m p (List.replicate n 0) a = 0 := by
  have h := store_inside m p (a-p) (List.replicate n 0) (by rw [List.length_replicate]; omega)
  rw [Nat.add_sub_cancel' hlow, List.getElem_replicate] at h
  exact h

theorem zeros_outside {m : Memory} {p n a : ℕ} (h : a < p ∨ p+n ≤ a) :
    store m p (List.replicate n 0) a = m a := by
  rcases h with h | h
  · exact store_below m p a _ h
  · exact store_above m p a _ (by rw [List.length_replicate]; exact h)

theorem begun_shows (h : Begun m o) : o.Shows (Bits.OBits.new o.iBytes) ∧ Kept m o := by
  cases h with
  | wrap _ pBytes iBytes =>
    by_cases hzero : iBytes = 0
    · have hmem : (OBits.wrap m pBytes iBytes).mem = m := if_pos hzero
      constructor
      · exact clean_shows rfl rfl fun hpos => absurd hzero (Nat.pos_iff_ne_zero.mp hpos)
      · apply clean_kept
        · exact fun a _ => congrFun hmem a
        · exact fun a => Or.inl (congrFun hmem a)
        · exact fun _ a _ => congrFun hmem a
    · have hmem : (OBits.wrap m pBytes iBytes).mem = put m pBytes 0 := if_neg hzero
      constructor
      · apply clean_shows rfl rfl
        intro _
        rw [hmem]
        exact put_same ..
      · apply clean_kept
        · intro a ha
          have ha : a < pBytes := ha
          rw [hmem, put_other (by omega)]
        · intro a
          rw [hmem]
          exact put_zeroed m pBytes a
        · intro hpos a ha
          have ha : pBytes+iBytes ≤ a := ha
          rw [hmem, put_other (by omega)]
  | new _ pNew iBytes =>
    constructor
    · apply clean_shows rfl rfl
      intro hpos
      exact zeros_inside (le_refl pNew) (Nat.lt_add_of_pos_right hpos)
    · apply clean_kept
      · exact fun a ha => zeros_outside (Or.inl ha)
      · intro a
        by_cases hin : pNew ≤ a ∧ a < pNew+iBytes
        · exact Or.inr (zeros_inside hin.1 hin.2)
        · exact Or.inl (zeros_outside (by omega))
      · exact fun _ a ha => zeros_outside (Or.inr ha)
  | clear oOld =>
    constructor
    · exact clean_shows rfl rfl fun _ => put_same ..
    · apply clean_kept
      · intro a ha
        have ha : a < oOld.v0 := ha
        exact put_other (by omega)
      · exact fun a => put_zeroed oOld.mem oOld.v0 a
      · intro hpos a ha
        have hpos : 0 < oOld.iBytes := hpos
        have ha : oOld.v0+oOld.iBytes ≤ a := ha
        exact put_other (by omega)

/-! ## Reading back -/

/-- The bits of a writer stand in its buffer, most significant first. -/
theorem shows_bits {bs : List Bool} (h : o.Shows l) (hl : l.Holds bs)
    (hfit : bs.length ≤ 8*o.iBytes) : bits (shift o.mem o.v0) 0 bs.length = bs := by
  rcases hl with ⟨part, hpos, hlen, hcur, rfl⟩
  have hcount : l.done.length = o.v-o.v0 := by rw [h.done, load_length]
  rw [List.length_append, ofBytes_length, hcount] at hfit ⊢
  have hdone := bits_load (shift o.mem o.v0) 0 (o.v-o.v0)
  rw [load_shift, Nat.add_zero, ← h.done] at hdone
  rw [bits_add, Nat.zero_add, show 0 = 8*0 from rfl, hdone]
  congr 1
  have hpart := bits_inside (shift o.mem o.v0) (o.v-o.v0) 0 part.length (by omega)
  rw [Nat.add_zero] at hpart
  by_cases hnone : part = []
  · rw [hnone]
    rfl
  · have hsome : 0 < part.length := List.length_pos_iff.mpr hnone
    have hbyte : shift o.mem o.v0 (o.v-o.v0) = l.cur := by
      rw [h.cur (by omega), shift, Nat.add_sub_cancel' h.start]
    rw [hpart, hbyte, hcur, Nat.sub_zero, show 8-part.length = l.iBuff by omega,
      Nat.mul_div_cancel _ (Nat.two_pow_pos _), ofNat_value]

theorem shows_size {bs : List Bool} (h : o.Shows l) (hl : l.Holds bs) :
    o.size_bits = bs.length ∧ bs.length ≤ 8*o.size := by
  have hcount : l.done.length = o.v-o.v0 := by rw [h.done, load_length]
  have hbuff := h.buff
  have hlength := (Bits.OBits.holds_length hl).1
  rw [h.iBuff, hcount] at hlength
  rw [size_bits, size]
  split_ifs <;> omega

/-- Behind the bytes written there is what was there before, or a zero. -/
theorem kept_behind (hk : Kept m o) {a : ℕ} (ha : o.v0+o.size ≤ a) (hstart : o.v0 ≤ o.v) :
    o.mem a = m a ∨ o.mem a = 0 := by
  rw [size] at ha
  split_ifs at ha with hbuff
  · by_cases hat : a = o.v
    · rw [hat]
      exact hk.fresh hbuff
    · exact hk.behind a (by omega)
  · exact hk.behind a (by omega)

end OBits

/-- Fields of the given widths, one after the other. -/
def readFields : List ℕ → IBits → Except SirannonException (List ℕ × IBits)
  | [], b => .ok ([], b)
  | n::ns, b => do
    let (iVal, b) ← b.readChecked n
    let (vals, b) ← readFields ns b
    .ok (iVal::vals, b)

theorem readFields_masked (fields : List (ℕ × ℕ)) {b : IBits} {p : ℕ}
    (h : b.Ahead p (fieldBits fields)) (hwidths : ∀ f ∈ fields, f.1 ≤ 32)
    (hinside : p+(fieldBits fields).length ≤ 8*b.iBytes) :
    ∃ b', readFields (fields.map Prod.fst) b = .ok (fields.map fun f => f.2%2^f.1, b') := by
  induction fields generalizing b p with
  | nil => exact ⟨b, rfl⟩
  | cons f fields ih =>
    have hfirst := hwidths f List.mem_cons_self
    have hsplit : fieldBits (f::fields) = ofNat f.1 f.2 ++ fieldBits fields := List.flatMap_cons
    rw [hsplit, List.length_append, ofNat_length] at hinside
    rw [hsplit] at h
    rcases IBits.read_masked h hfirst with ⟨hvalue, hahead⟩
    have hbytes : (b.read f.1).2.iBytes = b.iBytes := (IBits.read_spec b f.1 h.1 hfirst).2.2.2.2
    rcases ih hahead (fun g hg => hwidths g (List.mem_cons_of_mem f hg)) (by rw [hbytes]; omega)
      with ⟨b', hrest⟩
    refine ⟨b', ?_⟩
    rw [List.map_cons, List.map_cons, readFields,
      IBits.readChecked_inside h.1 (by rw [h.2.1]; omega)]
    simp only [bind, Except.bind, hrest, hvalue]

theorem readChecked_keeps {b b' : IBits} {n iVal : ℕ} (h : b.readChecked n = .ok (iVal, b')) :
    b'.buf = b.buf ∧ b'.iBytes = b.iBytes := by
  rw [IBits.readChecked] at h
  split_ifs at h
  · rw [← (Prod.mk.inj (Except.ok.inj h)).2]
    exact ⟨rfl, rfl⟩
  · rw [← (Prod.mk.inj (Except.ok.inj h)).2]
    exact ⟨rfl, rfl⟩
  · rcases bind_ok.mp h with ⟨loop, _, hlast⟩
    rcases bind_ok.mp hlast with ⟨v1, _, hend⟩
    rw [← (Prod.mk.inj (Except.ok.inj hend)).2]
    exact ⟨rfl, rfl⟩

/-- Whatever is read, a peek puts the reader back. -/
theorem peek_same {b b' : IBits} {n : ℕ} {iVal : ℤ} (h : b.peekChecked n = .ok (iVal, b')) :
    b' = b := by
  rcases bind_ok.mp h with ⟨⟨ret, after⟩, hread, hend⟩
  rcases readChecked_keeps hread with ⟨hbuf, hbytes⟩
  rw [← (Prod.mk.inj (Except.ok.inj hend)).2, hbuf, hbytes]

end Sirannon.BitMemory
