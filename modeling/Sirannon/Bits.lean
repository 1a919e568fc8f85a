import Sirannon.BitString

/-!
# Bit readers and writers

`OBits` packs fields of up to 32 bits into a buffer of fixed size, most
significant bit first, and `IBits` takes them out again. The writer keeps the
byte at the write position and the number of bits free in it; the reader keeps
the last byte loaded and the number of its bits not yet handed out.
-/

set_option autoImplicit false

namespace Sirannon.Bits
open ByteMemory BitString

structure SirannonException where
  what : String
  deriving DecidableEq, Repr

def runtimeError (sError : String) : SirannonException := ⟨"RuntimeError: " ++ sError⟩

def outOfBoundsError (sError : String) : SirannonException := ⟨"OutOfBoundsError: " ++ sError⟩

def valueError (sError : String) : SirannonException := ⟨"ValueError: " ++ sError⟩

def ioError (sError : String) : SirannonException := ⟨"IOError: " ++ sError⟩

def typeError (sError : String) : SirannonException := ⟨"TypeError: " ++ sError⟩

/-- What the source does here is undefined; no statement relies on what happens next. -/
def undefinedBehaviour (sWhat : String) : SirannonException := ⟨"undefined: " ++ sWhat⟩

def mask (iBits iShift : ℕ) : ℕ :=
  if 32 ≤ iBits then 0xFFFFFFFF else ((1 <<< iBits) - 1) <<< iShift

/-! ## Writer -/

structure OBits where
  done : List UInt8
  cur : UInt8
  iBuff : ℕ
  iBytes : ℕ
  deriving DecidableEq, Repr

def OBits.new (iBytes : ℕ) : OBits := ⟨[], 0, 8, iBytes⟩

def OBits.clear (o : OBits) : OBits := ⟨[], 0, 8, o.iBytes⟩

def OBits.data (o : OBits) : List UInt8 := if o.iBuff = 8 then o.done else o.done ++ [o.cur]

def OBits.size (o : OBits) : ℕ := if o.iBuff = 8 then o.done.length else o.done.length+1

def OBits.exceeds (o : OBits) (iBits : ℕ) : SirannonException :=
  outOfBoundsError s!"OBits: write of ({iBits}) bits would exceed buffer ({o.iBytes} bytes)"

def OBits.putBits (o : OBits) (iWrite iRest iVal : ℕ) : OBits :=
  let iFree := o.iBuff - iWrite
  let cur := o.cur ||| UInt8.ofNat (((iVal &&& mask iWrite iRest) >>> iRest) <<< iFree)
  if iFree = 0 then ⟨o.done ++ [cur], 0, 8, o.iBytes⟩ else ⟨o.done, cur, iFree, o.iBytes⟩

def OBits.writeLoop : ℕ → ℕ → ℕ → OBits → Except SirannonException OBits
  | 0, _, _, o => .ok o
  | fuel+1, iBits, iVal, o =>
    if iBits = 0 then .ok o else
    let iRest := iBits - min o.iBuff iBits
    let next := o.putBits (min o.iBuff iBits) iRest iVal
    if next.iBuff = 8 ∧ o.iBytes ≤ next.done.length ∧ iRest ≠ 0 then .error (o.exceeds iRest)
    else writeLoop fuel iRest iVal next

def OBits.write (o : OBits) (iBits iVal : ℕ) : Except SirannonException OBits :=
  if o.iBytes ≤ o.done.length then .error (o.exceeds iBits)
  else OBits.writeLoop iBits iBits iVal o

/-- Several `write` calls in a row. -/
def OBits.writes (o : OBits) : List (ℕ × ℕ) → Except SirannonException OBits
  | [] => .ok o
  | (iBits, iVal)::fields => do
    let o ← o.write iBits iVal
    o.writes fields

def OBits.writeBuffer (o : OBits) (pData : List UInt8) : OBits :=
  ⟨o.done ++ pData, 0, o.iBuff, o.iBytes⟩

/-- The bits a writer holds: whole bytes, then the bits of the byte in work. -/
def OBits.Holds (o : OBits) (bs : List Bool) : Prop :=
  ∃ part : List Bool, 1 ≤ o.iBuff ∧ part.length + o.iBuff = 8 ∧
    o.cur.toNat = value part * 2^o.iBuff ∧ bs = ofBytes o.done ++ part

def fieldBits (fields : List (ℕ × ℕ)) : List Bool := fields.flatMap (fun f => ofNat f.1 f.2)

theorem OBits.holds_new (iBytes : ℕ) : (OBits.new iBytes).Holds [] := ⟨[], by simp [new, value]⟩

theorem masked_field (iVal w r : ℕ) (hw : w ≤ 8) :
    (iVal &&& mask w r) >>> r = (iVal / 2^r) % 2^w := by
  have h32 : ¬ 32 ≤ w := by omega
  rw [mask, if_neg h32, Nat.shiftRight_and_distrib, Nat.shiftLeft_shiftRight,
    Nat.one_shiftLeft, Nat.and_two_pow_sub_one_eq_mod, Nat.shiftRight_eq_div_pow]

theorem ofNat_split (iBits w iVal : ℕ) (h : w ≤ iBits) :
    ofNat iBits iVal = ofNat w (iVal / 2^(iBits-w)) ++ ofNat (iBits-w) iVal := by
  rw [← ofNat_add]
  congr 1
  omega

/-- The byte at the write position after taking `w` more bits. -/
theorem cur_after (o : OBits) (part : List Bool) (x w : ℕ) (hw : w ≤ o.iBuff)
    (hlen : part.length + o.iBuff = 8) (hcur : o.cur.toNat = value part * 2^o.iBuff) :
    (o.cur ||| UInt8.ofNat ((x % 2^w) <<< (o.iBuff-w))).toNat =
      value (part ++ ofNat w x) * 2^(o.iBuff-w) := by
  have hpow : 2^o.iBuff = 2^w * 2^(o.iBuff-w) := by
    rw [← pow_add]
    congr 1
    omega
  have hx : (x % 2^w) <<< (o.iBuff-w) < 2^o.iBuff := by
    rw [Nat.shiftLeft_eq, hpow]
    exact (Nat.mul_lt_mul_right (Nat.two_pow_pos _)).mpr (Nat.mod_lt _ (Nat.two_pow_pos _))
  have hx8 : (x % 2^w) <<< (o.iBuff-w) < 2^8 :=
    lt_of_lt_of_le hx (Nat.pow_le_pow_right (by omega) (by omega))
  rw [UInt8.toNat_or, UInt8.toNat_ofNat', Nat.mod_eq_of_lt hx8, hcur, or_eq_add _ _ _ hx,
    value_append, ofNat_length, value_ofNat, Nat.shiftLeft_eq, hpow]
  ring

theorem OBits.putBits_holds (o : OBits) (w r iVal : ℕ) (bs : List Bool) (h : o.Holds bs)
    (hw : w ≤ o.iBuff) : (o.putBits w r iVal).Holds (bs ++ ofNat w (iVal / 2^r)) ∧
      (o.putBits w r iVal).iBytes = o.iBytes := by
  obtain ⟨part, hpos, hlen, hcur, rfl⟩ := h
  have hbyte := cur_after o part (iVal / 2^r) w hw hlen hcur
  simp only [putBits, masked_field iVal w r (by omega)]
  by_cases hfree : o.iBuff - w = 0
  · have hfull : (part ++ ofNat w (iVal / 2^r)).length = 8 := by
      rw [List.length_append, ofNat_length]
      omega
    rw [if_pos hfree]
    refine ⟨⟨[], by simp, by simp, by simp [value], ?_⟩, rfl⟩
    rw [hfree, pow_zero, Nat.mul_one] at hbyte
    rw [ofBytes_append, ofBytes_cons, hfree, hbyte]
    conv_rhs => rw [← hfull]
    rw [ofNat_value]
    simp
  · rw [if_neg hfree]
    refine ⟨⟨part ++ ofNat w (iVal / 2^r), by simp; omega, ?_, hbyte, by simp⟩, rfl⟩
    rw [List.length_append, ofNat_length]
    simp only
    omega

theorem OBits.holds_length {o : OBits} {bs : List Bool} (h : o.Holds bs) :
    bs.length + o.iBuff = 8*o.done.length + 8 ∧ 1 ≤ o.iBuff ∧ o.iBuff ≤ 8 := by
  obtain ⟨part, hpos, hlen, hcur, rfl⟩ := h
  rw [List.length_append, ofBytes_length]
  omega

/-- What a write of `iBits` bits does: it appends them, and it fits when there is room. -/
def OBits.Appends (o : OBits) (bs field : List Bool) (r : Except SirannonException OBits) : Prop :=
  (∀ o', r = .ok o' → o'.Holds (bs ++ field) ∧ o'.iBytes = o.iBytes) ∧
    (bs.length + field.length ≤ 8*o.iBytes → ∃ o', r = .ok o')

theorem OBits.appends_nil {o : OBits} {bs : List Bool} (h : o.Holds bs) :
    o.Appends bs [] (.ok o) := by
  refine ⟨?_, fun _ => ⟨o, rfl⟩⟩
  rintro o' ho
  obtain rfl := Except.ok.inj ho
  simpa using h

theorem OBits.appends_error {o : OBits} {bs field : List Bool} (e : SirannonException)
    (h : 8*o.iBytes < bs.length + field.length) : o.Appends bs field (.error e) := by
  constructor
  · intro o' ho
    cases ho
  · intro hroom
    omega

theorem OBits.appends_bind {o : OBits} {bs f g : List Bool} {r : Except SirannonException OBits}
    {k : OBits → Except SirannonException OBits} (h : o.Appends bs f r)
    (hk : ∀ o' : OBits, o'.Holds (bs++f) → o'.Appends (bs++f) g (k o')) :
    o.Appends bs (f++g) (r >>= k) := by
  constructor
  · intro o' ho
    cases r with
    | error e => cases ho
    | ok o₁ =>
      obtain ⟨hh, hb⟩ := h.1 o₁ rfl
      obtain ⟨hh', hb'⟩ := (hk o₁ hh).1 o' ho
      rw [List.append_assoc] at hh'
      exact ⟨hh', hb'.trans hb⟩
  · intro hroom
    rw [List.length_append] at hroom
    obtain ⟨o₁, rfl⟩ := h.2 (by omega)
    obtain ⟨hh, hb⟩ := h.1 o₁ rfl
    exact (hk o₁ hh).2 (by rw [List.length_append, hb]; omega)

theorem OBits.writeLoop_appends (fuel iBits iVal : ℕ) (o : OBits) (bs : List Bool)
    (hf : iBits ≤ fuel) (h : o.Holds bs) :
    o.Appends bs (ofNat iBits iVal) (writeLoop fuel iBits iVal o) := by
  induction fuel generalizing iBits o bs with
  | zero =>
    obtain rfl : iBits = 0 := by omega
    exact appends_nil h
  | succ fuel ih =>
    rw [writeLoop]
    by_cases hz : iBits = 0
    · subst hz
      exact appends_nil h
    obtain ⟨hlen, hpos, hle⟩ := holds_length h
    obtain ⟨hnext, hbytes⟩ := o.putBits_holds (min o.iBuff iBits) (iBits - min o.iBuff iBits)
      iVal bs h (min_le_left _ _)
    obtain ⟨hlen', -, -⟩ := holds_length hnext
    obtain ⟨ih₁, ih₂⟩ := ih (iBits - min o.iBuff iBits) _ _ (by omega) hnext
    rw [List.append_assoc, ← ofNat_split iBits _ iVal (min_le_right o.iBuff iBits), hbytes] at ih₁
    simp only [List.length_append, ofNat_length] at hlen' ih₂
    simp only [if_neg hz]
    split
    case isTrue hfull =>
      apply appends_error
      rw [ofNat_length]
      omega
    case isFalse hroom =>
      refine ⟨ih₁, fun hfit => ih₂ ?_⟩
      rw [ofNat_length] at hfit
      omega

theorem OBits.write_appends (iBits iVal : ℕ) (o : OBits) (bs : List Bool) (h : o.Holds bs)
    (hpos : 0 < iBits) : o.Appends bs (ofNat iBits iVal) (o.write iBits iVal) := by
  obtain ⟨hlen, -, hle⟩ := holds_length h
  rw [write]
  split
  case isTrue hfull =>
    apply appends_error
    rw [ofNat_length]
    omega
  case isFalse => exact writeLoop_appends iBits iBits iVal o bs (le_refl _) h

theorem OBits.writes_appends (fields : List (ℕ × ℕ)) (o : OBits) (bs : List Bool)
    (h : o.Holds bs) (hpos : ∀ f ∈ fields, 0 < f.1) :
    o.Appends bs (fieldBits fields) (o.writes fields) := by
  induction fields generalizing o bs with
  | nil => exact appends_nil h
  | cons f fields ih =>
    obtain ⟨iBits, iVal⟩ := f
    exact appends_bind (write_appends iBits iVal o bs h (hpos _ (List.mem_cons_self ..)))
      (fun o' ho' => ih o' _ ho' (fun g hg => hpos g (List.mem_cons_of_mem _ hg)))

theorem OBits.writeBuffer_holds {o : OBits} {bs : List Bool} (pData : List UInt8) (h : o.Holds bs)
    (ha : bs.length % 8 = 0) : (o.writeBuffer pData).Holds (bs ++ ofBytes pData) := by
  obtain ⟨part, hpos, hlen, hcur, rfl⟩ := h
  rw [List.length_append, ofBytes_length] at ha
  obtain rfl : part = [] := List.length_eq_zero_iff.mp (by omega)
  exact ⟨[], hpos, hlen, by simp [writeBuffer, value], by simp [writeBuffer]⟩

theorem OBits.data_of_holds {o : OBits} {bs : List UInt8} (h : o.Holds (ofBytes bs)) :
    o.data = bs := by
  obtain ⟨part, hpos, hlen, hcur, hbs⟩ := h
  have hl := congrArg List.length hbs
  rw [List.length_append, ofBytes_length, ofBytes_length] at hl
  obtain rfl : part = [] := List.length_eq_zero_iff.mp (by omega)
  have hbuff : o.iBuff = 8 := by simpa using hlen
  rw [data, if_pos hbuff, ← pack_ofBytes bs, hbs, List.append_nil, pack_ofBytes]

theorem fieldBits_length (fields : List (ℕ × ℕ)) :
    (fieldBits fields).length = (fields.map Prod.fst).sum := by
  induction fields with
  | nil => rfl
  | cons f fields ih =>
    rw [fieldBits, List.flatMap_cons, List.length_append, ofNat_length, ← fieldBits, ih,
      List.map_cons, List.sum_cons]

/-- Whole bytes of fields fit in a buffer that is large enough. -/
theorem OBits.writes_new (fields : List (ℕ × ℕ)) {n iBytes : ℕ}
    (hlen : (fields.map Prod.fst).sum = 8*n) (hn : n ≤ iBytes) (hpos : ∀ f ∈ fields, 0 < f.1) :
    ∃ o, (OBits.new iBytes).writes fields = .ok o ∧ ofBytes o.data = fieldBits fields ∧
      o.data.length = n := by
  have hbits : (fieldBits fields).length = 8*n := by rw [fieldBits_length, hlen]
  rcases OBits.writes_appends fields (OBits.new iBytes) [] (OBits.holds_new iBytes) hpos with
    ⟨hholds, hroom⟩
  rcases hroom (by
    show 0 + (fieldBits fields).length ≤ 8*iBytes
    omega) with ⟨o, ho⟩
  have hdata := (hholds o ho).1
  rw [List.nil_append, ← ofBytes_pack n _ hbits] at hdata
  refine ⟨o, ho, ?_, ?_⟩
  · rw [OBits.data_of_holds hdata, ofBytes_pack n _ hbits]
  · rw [OBits.data_of_holds hdata, pack_length n _ hbits]

theorem OBits.data_length (o : OBits) : o.data.length = o.size := by
  unfold data size
  split <;> simp

/-- `pad` with an alignment of one byte. -/
def OBits.pad (o : OBits) (iPattern : ℕ) : Except SirannonException OBits :=
  if o.iBuff < 8 then o.write o.iBuff iPattern else .ok o

theorem bind_ok {α β : Type} {x : Except SirannonException α} {f : α → Except SirannonException β}
    {b : β} : x >>= f = .ok b ↔ ∃ a, x = .ok a ∧ f a = .ok b := by
  cases x with
  | error e =>
    constructor
    · intro h
      cases h
    · rintro ⟨a, ha, -⟩
      cases ha
  | ok a =>
    constructor
    · intro h
      exact ⟨a, rfl, h⟩
    · rintro ⟨a', ha, h⟩
      cases ha
      exact h

theorem map_ok {α β : Type} {x : Except SirannonException α} {f : α → β} {b : β} :
    x.map f = .ok b ↔ ∃ a, x = .ok a ∧ f a = b := by
  cases x with
  | error e =>
    constructor
    · intro h
      cases h
    · rintro ⟨a, ha, -⟩
      cases ha
  | ok a =>
    constructor
    · intro h
      cases h
      exact ⟨a, rfl, rfl⟩
    · rintro ⟨a', ha, h⟩
      cases ha
      rw [← h]
      rfl

/-- The computation ends in `Q` as long as `n` is within the room, and in an error beyond. -/
def Fits {α : Type} (n room : ℕ) (r : Except SirannonException α) (Q : α → Prop) : Prop :=
  if n ≤ room then ∃ a, r = .ok a ∧ Q a else ∃ e, r = .error e

section
variable {α β : Type} {n m room : ℕ} {r : Except SirannonException α} {Q : α → Prop}

theorem fits_ok {a : α} (hn : n ≤ room) (ha : Q a) : Fits n room (.ok a) Q := by
  rw [Fits, if_pos hn]
  exact ⟨a, rfl, ha⟩

theorem fits_bind {k : α → Except SirannonException β} {R : β → Prop} (h : Fits n room r Q)
    (hle : n ≤ m) (hk : ∀ a, n ≤ room → Q a → Fits m room (k a) R) :
    Fits m room (r >>= k) R := by
  rw [Fits] at h
  split at h
  case isTrue hroom =>
    rcases h with ⟨a, rfl, ha⟩
    exact hk a hroom ha
  case isFalse =>
    rcases h with ⟨e, rfl⟩
    rw [Fits, if_neg (by omega)]
    exact ⟨e, rfl⟩

theorem fits_imp {R : α → Prop} (h : Fits n room r Q) (himp : ∀ a, Q a → R a) :
    Fits n room r R := by
  rw [Fits] at h ⊢
  split_ifs at h ⊢
  · rcases h with ⟨a, ha, hQ⟩
    exact ⟨a, ha, himp a hQ⟩
  · exact h

end

theorem OBits.writeLoop_within (fuel iBits iVal : ℕ) (o : OBits) {o' : OBits}
    (hfree : o.done.length < o.iBytes) (hbuff : o.iBuff ≤ 8)
    (hwrite : writeLoop fuel iBits iVal o = .ok o') :
    8*o'.done.length+8 ≤ 8*o.iBytes+o'.iBuff := by
  induction fuel generalizing iBits o with
  | zero =>
    obtain rfl := Except.ok.inj hwrite
    omega
  | succ fuel ih =>
    rw [writeLoop] at hwrite
    by_cases hz : iBits = 0
    · rw [if_pos hz] at hwrite
      obtain rfl := Except.ok.inj hwrite
      omega
    simp only [if_neg hz] at hwrite
    split at hwrite
    · cases hwrite
    case isFalse hroom =>
      have hbytes : (o.putBits (min o.iBuff iBits) (iBits - min o.iBuff iBits) iVal).iBytes =
          o.iBytes := by
        rw [putBits]
        split <;> rfl
      by_cases hfull : o.iBuff - min o.iBuff iBits = 0
      · have hdone : (o.putBits (min o.iBuff iBits) (iBits - min o.iBuff iBits) iVal).done.length =
            o.done.length+1 ∧
            (o.putBits (min o.iBuff iBits) (iBits - min o.iBuff iBits) iVal).iBuff = 8 := by
          simp only [putBits, hfull, if_true, List.length_append, List.length_singleton, and_self]
        by_cases hrest : iBits - min o.iBuff iBits = 0
        · rw [hrest] at hwrite hdone
          have hend : writeLoop fuel 0 iVal (o.putBits (min o.iBuff iBits) 0 iVal) =
              .ok (o.putBits (min o.iBuff iBits) 0 iVal) := by
            cases fuel with
            | zero => rfl
            | succ fuel => rw [writeLoop, if_pos rfl]
          rw [hend] at hwrite
          obtain rfl := Except.ok.inj hwrite
          omega
        · have hmore := ih _ _ (by
            rw [hbytes, hdone.1]
            by_contra hover
            exact hroom ⟨hdone.2, by omega, hrest⟩) (by omega) hwrite
          rwa [hbytes] at hmore
      · have hdone : (o.putBits (min o.iBuff iBits) (iBits - min o.iBuff iBits) iVal).done.length =
            o.done.length ∧
            (o.putBits (min o.iBuff iBits) (iBits - min o.iBuff iBits) iVal).iBuff ≤ 8 := by
          simp only [putBits, if_neg hfull, true_and]
          omega
        have hmore := ih _ _ (by rw [hbytes, hdone.1]; exact hfree) hdone.2 hwrite
        rwa [hbytes] at hmore

/-- A write succeeds exactly when there is room for its bits. -/
theorem OBits.write_fits {o : OBits} {bs : List Bool} (h : o.Holds bs) {iBits : ℕ} (iVal : ℕ)
    (hpos : 0 < iBits) : Fits (bs.length+iBits) (8*o.iBytes) (o.write iBits iVal)
      fun o' => o'.Holds (bs ++ ofNat iBits iVal) ∧ o'.iBytes = o.iBytes := by
  rcases write_appends iBits iVal o bs h hpos with ⟨hholds, hroom⟩
  rw [ofNat_length] at hroom
  rw [Fits]
  split_ifs with hfit
  · rcases hroom hfit with ⟨o', ho⟩
    exact ⟨o', ho, hholds o' ho⟩
  · cases hwrite : o.write iBits iVal with
    | error e => exact ⟨e, rfl⟩
    | ok o' =>
      have hlength := holds_length (hholds o' hwrite).1
      rw [List.length_append, ofNat_length] at hlength
      rw [write] at hwrite
      split at hwrite
      · cases hwrite
      · have hle := writeLoop_within iBits iBits iVal o (by omega) (holds_length h).2.2 hwrite
        omega

/-- Padding fills the last byte. -/
theorem OBits.pad_holds {o : OBits} {bs : List Bool} (h : o.Holds bs) (iPattern : ℕ)
    (hfit : bs.length ≤ 8*o.iBytes) : ∃ o', o.pad iPattern = .ok o' ∧
      o'.Holds (bs ++ ofNat ((8-bs.length%8)%8) iPattern) ∧ o'.iBytes = o.iBytes := by
  have hlength := holds_length h
  rw [pad]
  split
  · have hpad : (8-bs.length%8)%8 = o.iBuff := by omega
    have hwrite := write_fits h iPattern hlength.2.1
    rw [Fits, if_pos (by omega)] at hwrite
    rw [hpad]
    exact hwrite
  · have hpad : (8-bs.length%8)%8 = 0 := by omega
    refine ⟨o, rfl, ?_, rfl⟩
    rw [hpad]
    simpa [ofNat] using h

/-- The bytes of a writer that holds whole bytes. -/
theorem OBits.data_bits {o : OBits} {bs : List Bool} (h : o.Holds bs) {n : ℕ}
    (hlength : bs.length = 8*n) : ofBytes o.data = bs ∧ o.data.length = n := by
  rw [← ofBytes_pack n _ hlength] at h
  rw [data_of_holds h]
  exact ⟨ofBytes_pack n _ hlength, pack_length n _ hlength⟩

/-! ## Reader -/

structure IBits where
  buf : Memory
  iBytes : ℕ
  v : ℕ
  v1 : UInt8
  iBuf : ℕ

def IBits.new (buf : Memory) (iBytes : ℕ) : IBits := ⟨buf, iBytes, 0, 0, 0⟩

def IBits.clear (b : IBits) : IBits := { b with v := 0, v1 := 0, iBuf := 0 }

def IBits.readLoop (buf : Memory) : ℕ → ℕ → ℕ → ℕ → ℕ × ℕ × ℕ
  | 0, v, iBits, iRet => (v, iBits, iRet)
  | fuel+1, v, iBits, iRet =>
    if 8 < iBits then
      readLoop buf fuel (v+1) (iBits-8) (iRet ||| (buf v).toNat <<< (iBits-8))
    else (v, iBits, iRet)

def IBits.read (b : IBits) (iBits : ℕ) : ℕ × IBits :=
  if iBits = 0 then (0, b)
  else if iBits ≤ b.iBuf then
    ((b.v1.toNat >>> (b.iBuf-iBits)) &&& mask iBits 0, { b with iBuf := b.iBuf-iBits })
  else
    let rest := iBits - b.iBuf
    let iRet := if rest < 32 then b.v1.toNat <<< rest else 0
    let (v, rest, iRet) := IBits.readLoop b.buf rest b.v rest iRet
    let v1 := b.buf v
    ((iRet ||| v1.toNat >>> (8-rest)) &&& mask iBits 0,
      { b with v := v+1, v1 := v1, iBuf := 8-rest })

def IBits.peek (b : IBits) (iBits : ℕ) : ℕ := (b.read iBits).1

def IBits.seekLoop : ℕ → IBits → IBits
  | 0, b => b
  | n+1, b => seekLoop n (b.read 8).2

def IBits.seek (b : IBits) (iBytes : ℕ) : IBits :=
  if b.iBuf = 0 then { b with v := b.v+iBytes } else IBits.seekLoop iBytes b

/-- Bits left, as the unsigned difference the source computes. -/
def IBits.rem (b : IBits) : ℕ := ((((b.iBytes : ℤ) - b.v)*8 + b.iBuf) % 2^64).toNat

def IBits.pos (b : IBits) : ℕ := 8*b.v - b.iBuf

/-- The loaded byte is the one before the read position, and not all of it is taken. -/
def IBits.Loaded (b : IBits) : Prop :=
  b.iBuf < 8 ∧ (0 < b.iBuf → 0 < b.v ∧ b.v1 = b.buf (b.v-1))

theorem IBits.loaded_clear (b : IBits) : b.clear.Loaded := by
  simp [Loaded, clear]

theorem IBits.pos_clear (b : IBits) : b.clear.pos = 0 := by
  simp [pos, clear]

theorem mask_zero (iBits : ℕ) (h : iBits ≤ 32) : mask iBits 0 = 2^iBits - 1 := by
  by_cases h32 : 32 ≤ iBits
  · obtain rfl : iBits = 32 := by omega
    rfl
  · rw [mask, if_neg h32, Nat.one_shiftLeft, Nat.shiftLeft_zero]

theorem IBits.readLoop_spec (buf : Memory) (k r fuel v a : ℕ) (hr : r ≤ 8) (hf : k ≤ fuel)
    (hr0 : 0 < r) :
    readLoop buf fuel v (8*k+r) (a*2^(8*k+r)) =
      (v+k, r, (a*2^(8*k) + value (bits buf (8*v) (8*k)))*2^r) := by
  induction k generalizing fuel v a with
  | zero =>
    have hlt : ¬ 8 < 8*0+r := by omega
    cases fuel with
    | zero => simp [readLoop, bits, value]
    | succ fuel =>
      rw [readLoop, if_neg hlt]
      simp [bits, value]
  | succ k ih =>
    obtain ⟨fuel, rfl⟩ : ∃ f, fuel = f+1 := ⟨fuel-1, by omega⟩
    have hlt : 8 < 8*(k+1)+r := by omega
    have hsub : 8*(k+1)+r-8 = 8*k+r := by omega
    have hb : (buf v).toNat < 256 := (buf v).toNat_lt
    have hor : a*2^(8*(k+1)+r) ||| (buf v).toNat <<< (8*k+r) =
        (a*256 + (buf v).toNat)*2^(8*k+r) := by
      have hpow : 2^(8*(k+1)+r) = 2^(8*k+r)*256 := by
        rw [show 8*(k+1)+r = (8*k+r)+8 by omega, pow_add]
        norm_num
      have hsmall : (buf v).toNat <<< (8*k+r) < 2^(8*(k+1)+r) := by
        rw [Nat.shiftLeft_eq, hpow, Nat.mul_comm]
        exact (Nat.mul_lt_mul_left (Nat.two_pow_pos _)).mpr hb
      rw [or_eq_add _ _ _ hsmall, Nat.shiftLeft_eq, hpow]
      ring
    have hbits : value (bits buf (8*v) (8*(k+1))) =
        (buf v).toNat*2^(8*k) + value (bits buf (8*(v+1)) (8*k)) := by
      rw [Nat.mul_succ, Nat.add_comm, bits_add, value_append, bits_byte, value_ofNat,
        bits_length, Nat.mod_eq_of_lt (by simpa using hb)]
      rfl
    rw [readLoop, if_pos hlt, hsub, hor, ih fuel (v+1) _ (by omega), hbits]
    have hpow : 2^(8*(k+1)) = 2^(8*k)*256 := by
      rw [Nat.mul_add, pow_add, Nat.mul_one]
      norm_num
    refine Prod.ext (by simp only; omega) (Prod.ext rfl ?_)
    simp only [hpow]
    ring

theorem IBits.head_bits (b : IBits) (k : ℕ) (hb : b.Loaded) (hk : k ≤ b.iBuf) :
    bits b.buf b.pos k = ofNat k (b.v1.toNat / 2^(b.iBuf-k)) := by
  by_cases h0 : k = 0
  · subst h0
    rfl
  obtain ⟨hlt, hv1⟩ := hb
  obtain ⟨hv, hbyte⟩ := hv1 (by omega)
  have hpos : b.pos = 8*(b.v-1) + (8-b.iBuf) := by
    rw [pos]
    omega
  rw [hpos, bits_inside _ _ _ _ (by omega), hbyte]
  congr 3
  omega

/-- `r` is the next `n` bits as a number, with the reader moved past them. -/
def IBits.Reads (b : IBits) (n : ℕ) (r : ℕ × IBits) : Prop :=
  r.1 = value (bits b.buf b.pos n) ∧ r.2.Loaded ∧ r.2.pos = b.pos+n ∧ r.2.buf = b.buf ∧
    r.2.iBytes = b.iBytes

theorem IBits.read_within (b : IBits) (n : ℕ) (hb : b.Loaded) (hn : n ≤ 32) (h0 : n ≠ 0)
    (hin : n ≤ b.iBuf) : b.Reads n (b.read n) := by
  have hhead := head_bits b n hb hin
  obtain ⟨hlt, hv1⟩ := hb
  rw [read, mask_zero n hn, if_neg h0, if_pos hin]
  refine ⟨?_, ⟨by simp only; omega, fun _ => hv1 (by omega)⟩, ?_, rfl, rfl⟩
  · rw [hhead, value_ofNat, Nat.and_two_pow_sub_one_eq_mod, Nat.shiftRight_eq_div_pow]
  · obtain ⟨hv, -⟩ := hv1 (by omega)
    simp only [pos]
    omega

/-- The bits behind the loaded byte, as the loop and the last byte deliver them. -/
theorem IBits.tail_bits (buf : Memory) (v k r : ℕ) (hr : r ≤ 8) :
    value (bits buf (8*v) (8*k+r)) =
      value (bits buf (8*v) (8*k))*2^r + (buf (v+k)).toNat / 2^(8-r) ∧
    (buf (v+k)).toNat / 2^(8-r) < 2^r := by
  have hlast : (buf (v+k)).toNat / 2^(8-r) < 2^r := by
    rw [Nat.div_lt_iff_lt_mul (Nat.two_pow_pos _), ← pow_add, show r+(8-r) = 8 by omega]
    exact (buf (v+k)).toNat_lt
  have hbyte := bits_inside buf (v+k) 0 r (by omega)
  rw [Nat.add_zero, Nat.sub_zero, Nat.mul_add] at hbyte
  refine ⟨?_, hlast⟩
  rw [bits_add, value_append, bits_length, hbyte, value_ofNat, Nat.mod_eq_of_lt hlast]

theorem IBits.read_across (b : IBits) (n : ℕ) (hb : b.Loaded) (hn : n ≤ 32)
    (hout : b.iBuf < n) : b.Reads n (b.read n) := by
  obtain ⟨k, r, hkr, hr0, hr8⟩ : ∃ k r, n - b.iBuf = 8*k+r ∧ 0 < r ∧ r ≤ 8 :=
    ⟨(n-b.iBuf-1)/8, n-b.iBuf-8*((n-b.iBuf-1)/8), by omega, by omega, by omega⟩
  obtain ⟨htail, hlast⟩ := tail_bits b.buf b.v k r hr8
  have hpos : b.pos + b.iBuf = 8*b.v := by
    have hlt := hb.1
    have hv := hb.2
    rw [pos]
    omega
  have hhead : value (bits b.buf b.pos n) =
      b.v1.toNat % 2^b.iBuf * 2^(8*k+r) + value (bits b.buf (8*b.v) (8*k+r)) := by
    rw [show n = b.iBuf + (8*k+r) by omega, bits_add, value_append, bits_length, hpos,
      head_bits b _ hb (le_refl _), value_ofNat, Nat.sub_self, pow_zero, Nat.div_one]
  obtain ⟨a, ha, hmod⟩ : ∃ a, (if n - b.iBuf < 32 then b.v1.toNat <<< (n-b.iBuf) else 0) =
      a*2^(8*k+r) ∧ a % 2^b.iBuf = b.v1.toNat % 2^b.iBuf := by
    by_cases h32 : n - b.iBuf < 32
    · exact ⟨b.v1.toNat, by rw [if_pos h32, Nat.shiftLeft_eq, hkr], rfl⟩
    · have h0 : b.iBuf = 0 := by omega
      exact ⟨0, by rw [if_neg h32, Nat.zero_mul], by simp [h0, Nat.mod_one]⟩
  have hval : ((a*2^(8*k) + value (bits b.buf (8*b.v) (8*k)))*2^r |||
      (b.buf (b.v+k)).toNat >>> (8-r)) &&& (2^n-1) = value (bits b.buf b.pos n) := by
    have hn' : 2^n = 2^b.iBuf * 2^(8*k+r) := by
      rw [← pow_add, show b.iBuf + (8*k+r) = n by omega]
    have hlt := value_lt (bits b.buf b.pos n)
    have hsum : (a*2^(8*k) + value (bits b.buf (8*b.v) (8*k)))*2^r +
        (b.buf (b.v+k)).toNat / 2^(8-r) = value (bits b.buf b.pos n) + 2^n*(a / 2^b.iBuf) := by
      rw [hhead, htail, hn', ← hmod]
      conv_lhs => rw [← Nat.mod_add_div a (2^b.iBuf)]
      ring
    rw [bits_length] at hlt
    rw [Nat.shiftRight_eq_div_pow, or_eq_add _ _ _ hlast, hsum, Nat.and_two_pow_sub_one_eq_mod,
      Nat.add_mul_mod_self_left, Nat.mod_eq_of_lt hlt]
  rw [read, mask_zero n hn, if_neg (by omega), if_neg (by omega)]
  rw [hkr] at ha
  simp only [hkr, ha]
  rw [readLoop_spec b.buf k r _ b.v a hr8 (by omega) hr0]
  refine ⟨hval, ⟨by simp only; omega, fun _ => ⟨by simp, by simp⟩⟩, ?_, rfl, rfl⟩
  simp only [pos] at hpos ⊢
  omega

/-- A read takes the next `n` bits as a number and moves past them. -/
theorem IBits.read_spec (b : IBits) (n : ℕ) (hb : b.Loaded) (hn : n ≤ 32) :
    b.Reads n (b.read n) := by
  by_cases h0 : n = 0
  · subst h0
    exact ⟨rfl, hb, rfl, rfl, rfl⟩
  by_cases hin : n ≤ b.iBuf
  · exact read_within b n hb hn h0 hin
  · exact read_across b n hb hn (by omega)

/-- `r` is `b` moved `n` bytes on. -/
def IBits.Skips (b : IBits) (n : ℕ) (r : IBits) : Prop :=
  r.Loaded ∧ r.pos = b.pos+8*n ∧ r.buf = b.buf ∧ r.iBytes = b.iBytes

theorem IBits.seekLoop_spec (b : IBits) (n : ℕ) (hb : b.Loaded) : b.Skips n (seekLoop n b) := by
  induction n generalizing b with
  | zero => exact ⟨hb, rfl, rfl, rfl⟩
  | succ n ih =>
    obtain ⟨-, hl, hp, hbuf, hbytes⟩ := read_spec b 8 hb (by omega)
    obtain ⟨hl', hp', hbuf', hbytes'⟩ := ih (b.read 8).2 hl
    rw [seekLoop]
    exact ⟨hl', by rw [hp', hp]; ring, hbuf'.trans hbuf, hbytes'.trans hbytes⟩

theorem IBits.seek_spec (b : IBits) (n : ℕ) (hb : b.Loaded) : b.Skips n (b.seek n) := by
  rw [seek]
  split
  case isTrue h0 =>
    refine ⟨⟨by simp [h0], fun h => ?_⟩, ?_, rfl, rfl⟩
    · simp only [h0] at h
      omega
    · simp only [pos]
      omega
  case isFalse => exact seekLoop_spec b n hb

/-- The reader stands at bit `p` with `bs` the next bits. -/
def IBits.Ahead (b : IBits) (p : ℕ) (bs : List Bool) : Prop :=
  b.Loaded ∧ b.pos = p ∧ bits b.buf p bs.length = bs

theorem IBits.ahead_left {b : IBits} {p : ℕ} {xs ys : List Bool} (h : b.Ahead p (xs++ys)) :
    bits b.buf p xs.length = xs ∧ bits b.buf (p+xs.length) ys.length = ys := by
  have hb := h.2.2
  rw [List.length_append, bits_add] at hb
  exact List.append_inj hb (by simp)

theorem IBits.ahead_read {b : IBits} {p : ℕ} {xs ys : List Bool} (h : b.Ahead p (xs ++ ys))
    (hlength : xs.length ≤ 32) :
    (b.read xs.length).1 = value xs ∧ (b.read xs.length).2.Ahead (p+xs.length) ys := by
  obtain ⟨hx, hy⟩ := ahead_left h
  obtain ⟨hl, hp, -⟩ := h
  obtain ⟨hr, hl', hp', hbuf, -⟩ := read_spec b xs.length hl hlength
  rw [hp] at hr hp'
  exact ⟨by rw [hr, hx], hl', hp', by rw [hbuf, hy]⟩

/-- Reading a field whose bits come next returns its value. -/
theorem IBits.read_field {b : IBits} {p n v : ℕ} {bs : List Bool}
    (h : b.Ahead p (ofNat n v ++ bs)) (hn : n ≤ 32) (hv : v < 2^n) :
    (b.read n).1 = v ∧ (b.read n).2.Ahead (p+n) bs := by
  have hread := ahead_read h (by rwa [ofNat_length])
  rwa [ofNat_length, value_ofNat, Nat.mod_eq_of_lt hv] at hread

/-- A field of any value is read as far as its width goes. -/
theorem IBits.read_masked {b : IBits} {p n v : ℕ} {bs : List Bool}
    (h : b.Ahead p (ofNat n v ++ bs)) (hn : n ≤ 32) :
    (b.read n).1 = v % 2^n ∧ (b.read n).2.Ahead (p+n) bs := by
  rw [← ofNat_mod] at h
  exact IBits.read_field h hn (Nat.mod_lt v (Nat.two_pow_pos n))

theorem IBits.ahead_seek {b : IBits} {p n : ℕ} {xs ys : List Bool} (h : b.Ahead p (xs ++ ys))
    (hlength : xs.length = 8*n) : (b.seek n).Ahead (p+8*n) ys := by
  rcases seek_spec b n h.1 with ⟨hloaded, hpos, hbuf, -⟩
  have hsplit := ahead_left h
  rw [hlength] at hsplit
  exact ⟨hloaded, by rw [hpos, h.2.1], by rw [hbuf, hsplit.2]⟩

theorem IBits.ahead_aligned {b : IBits} {off : ℕ} {bs : List Bool} (h : b.Ahead (8*off) bs) :
    b.iBuf = 0 ∧ b.v = off := by
  obtain ⟨⟨hlt, hv⟩, hp, -⟩ := h
  rw [pos] at hp
  omega

/-- Bytes stored at the read position are the next to be read. -/
theorem IBits.ahead_store {b : IBits} {off : ℕ} (h : b.Ahead (8*off) []) (bs : List UInt8) :
    ({ b with buf := store b.buf off bs } : IBits).Ahead (8*off) (ofBytes bs) := by
  obtain ⟨hbuf, hv⟩ := ahead_aligned h
  refine ⟨⟨by simp [hbuf], fun h0 => ?_⟩, h.2.1, ?_⟩
  · simp only [hbuf] at h0
    omega
  · rw [ofBytes_length, bits_load, load_store]

@[simp] theorem IBits.read_buf (b : IBits) (n : ℕ) : (b.read n).2.buf = b.buf := by
  unfold read
  split_ifs <;> rfl

@[simp] theorem IBits.seek_buf (b : IBits) (n : ℕ) : (b.seek n).buf = b.buf := by
  have hloop : ∀ b : IBits, (seekLoop n b).buf = b.buf := by
    induction n with
    | zero => intro b; rfl
    | succ n ih => intro b; rw [seekLoop, ih, read_buf]
  rw [seek]
  split_ifs
  · rfl
  · exact hloop b

theorem IBits.ahead_new (buf : Memory) (iBytes : ℕ) : (IBits.new buf iBytes).Ahead 0 [] :=
  ⟨loaded_clear (IBits.new buf iBytes), pos_clear (IBits.new buf iBytes), rfl⟩

/-- A new reader has the bytes that stand at the start of its buffer before it. -/
theorem IBits.ahead_stored {m : Memory} {bytes : List UInt8} (h : Stored m 0 bytes) (iBytes : ℕ) :
    (IBits.new m iBytes).Ahead 0 (ofBytes bytes) := by
  have hnew := IBits.ahead_new m iBytes
  refine ⟨hnew.1, hnew.2.1, ?_⟩
  have hbits := bits_load m 0 bytes.length
  rw [h, Nat.mul_zero] at hbits
  rw [ofBytes_length]
  exact hbits

theorem IBits.ahead_clear (b : IBits) : b.clear.Ahead 0 [] :=
  ⟨loaded_clear b, pos_clear b, rfl⟩

/-! ## Reading within the data -/

/-- A read that is undefined when it passes the end of the data. -/
def IBits.readWithin (b : IBits) (iBits : ℕ) : Except SirannonException (ℕ × IBits) :=
  if b.pos+iBits ≤ 8*b.iBytes then .ok (b.read iBits)
  else .error (undefinedBehaviour "read behind the data")

/-- The bits `bs` come next, and they lie within the data. -/
def IBits.Upcoming (b : IBits) (bs : List Bool) : Prop :=
  b.Ahead b.pos bs ∧ b.pos+bs.length ≤ 8*b.iBytes

theorem IBits.upcoming_reads {b : IBits} {xs ys : List Bool} (h : b.Upcoming (xs ++ ys))
    (hlength : xs.length ≤ 32) :
    ∃ b', b.readWithin xs.length = .ok (value xs, b') ∧ b'.Upcoming ys := by
  rcases h with ⟨hahead, hwithin⟩
  have hsplit := ahead_left hahead
  rcases read_spec b xs.length hahead.1 hlength with ⟨hval, hloaded, hpos, hbuf, hbytes⟩
  rw [List.length_append] at hwithin
  rw [hsplit.1] at hval
  refine ⟨(b.read xs.length).2, ?_, ⟨hloaded, rfl, ?_⟩, ?_⟩
  · rw [readWithin, if_pos (by omega), ← hval]
  · rw [hbuf, hpos, hsplit.2]
  · rw [hpos, hbytes]
    omega

theorem IBits.upcoming_field {b : IBits} {n v : ℕ} {bs : List Bool}
    (h : b.Upcoming (ofNat n v ++ bs)) (hn : n ≤ 32) (hv : v < 2^n) :
    ∃ b', b.readWithin n = .ok (v, b') ∧ b'.Upcoming bs := by
  have hread := upcoming_reads h (by rwa [ofNat_length])
  rwa [ofNat_length, value_ofNat, Nat.mod_eq_of_lt hv] at hread

theorem IBits.upcoming_seek {b : IBits} {n : ℕ} {xs ys : List Bool} (h : b.Upcoming (xs ++ ys))
    (hlength : xs.length = 8*n) : (b.seek n).Upcoming ys := by
  rcases h with ⟨hahead, hwithin⟩
  have hsplit := ahead_left hahead
  rcases seek_spec b n hahead.1 with ⟨hloaded, hpos, hbuf, hbytes⟩
  rw [List.length_append, hlength] at hwithin
  rw [hlength] at hsplit
  refine ⟨⟨hloaded, rfl, ?_⟩, ?_⟩
  · rw [hbuf, hpos, hsplit.2]
  · rw [hpos, hbytes]
    omega

end Sirannon.Bits
