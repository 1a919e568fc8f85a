import Sirannon.Bits

/-!
# Writing bits into a buffer

The writer or-s bits into the byte at its position, and clears the next byte
when it moves on. So a position that is sought holds what was there before, and
the byte behind a position written later is lost.
-/

set_option autoImplicit false

namespace Sirannon.Bits
open ByteMemory BitString

/-- `OBits`, with all that its buffer holds. -/
structure OBuffer where
  v0 : Memory
  v : ℕ
  iBuff : ℕ
  iBytes : ℕ

/-- `new` with a size clears the whole buffer. -/
def OBuffer.new (iBytes : ℕ) : OBuffer := ⟨zeroed, 0, 8, iBytes⟩

def OBuffer.clear (o : OBuffer) : OBuffer := { o with v0 := store o.v0 0 [0], v := 0, iBuff := 8 }

def OBuffer.size (o : OBuffer) : ℕ := if o.iBuff = 8 then o.v else o.v+1

/-- What the first `iSize` bytes are. -/
def OBuffer.data (o : OBuffer) (iSize : ℕ) : List UInt8 := load o.v0 0 iSize

def OBuffer.exceeds (o : OBuffer) (iBits : ℕ) : SirannonException :=
  outOfBoundsError s!"OBits: write of ({iBits}) bits would exceed buffer ({o.iBytes} bytes)"

/-- The byte at the next position is cleared as long as it is in the buffer. -/
def OBuffer.cleared (o : OBuffer) : OBuffer :=
  if o.v < o.iBytes then { o with v0 := store o.v0 o.v [0] } else o

def OBuffer.putBits (o : OBuffer) (iWrite iRest iVal : ℕ) : OBuffer :=
  let iFree := o.iBuff - iWrite
  let cur := o.v0 o.v ||| UInt8.ofNat (((iVal &&& mask iWrite iRest) >>> iRest) <<< iFree)
  let v0 := store o.v0 o.v [cur]
  if iFree = 0 then OBuffer.cleared ⟨v0, o.v+1, 8, o.iBytes⟩ else ⟨v0, o.v, iFree, o.iBytes⟩

def OBuffer.writeLoop : ℕ → ℕ → ℕ → OBuffer → Except SirannonException OBuffer
  | 0, _, _, o => .ok o
  | fuel+1, iBits, iVal, o =>
    if iBits = 0 then .ok o else
    let iRest := iBits - min o.iBuff iBits
    let next := o.putBits (min o.iBuff iBits) iRest iVal
    if next.iBuff = 8 ∧ o.iBytes ≤ next.v ∧ iRest ≠ 0 then .error (o.exceeds iRest)
    else writeLoop fuel iRest iVal next

def OBuffer.write (o : OBuffer) (iBits iVal : ℕ) : Except SirannonException OBuffer :=
  if o.iBytes ≤ o.v then .error (o.exceeds iBits)
  else OBuffer.writeLoop iBits iBits iVal o

/-- What is behind the buffer is not for it to write. -/
def OBuffer.write_buffer (o : OBuffer) (pData : List UInt8) : Except SirannonException OBuffer :=
  if o.iBytes < o.v+pData.length then .error (undefinedBehaviour "memcpy behind the buffer")
  else .ok (OBuffer.cleared { o with v0 := store o.v0 o.v pData, v := o.v+pData.length })

/-- `seek` with `SEEK_SET`. -/
def OBuffer.seekSet (o : OBuffer) (iDelta : ℕ) : OBuffer := { o with v := iDelta, iBuff := 8 }

/-- `seek` with `SEEK_CUR`. -/
def OBuffer.seekCur (o : OBuffer) (iDelta : ℕ) : OBuffer := { o with v := o.v+iDelta, iBuff := 8 }

/-! ## Whole bytes -/

/-- A byte is stored, and the next one cleared. -/
def OBuffer.put (o : OBuffer) (b : UInt8) : OBuffer :=
  OBuffer.cleared ⟨store o.v0 o.v [b], o.v+1, 8, o.iBytes⟩

variable {o o' : OBuffer} {bs : List UInt8} {x : ℕ}

@[simp] theorem cleared_v (o : OBuffer) : o.cleared.v = o.v := by
  rw [OBuffer.cleared]
  split_ifs <;> rfl

@[simp] theorem cleared_iBytes (o : OBuffer) : o.cleared.iBytes = o.iBytes := by
  rw [OBuffer.cleared]
  split_ifs <;> rfl

@[simp] theorem cleared_iBuff (o : OBuffer) : o.cleared.iBuff = o.iBuff := by
  rw [OBuffer.cleared]
  split_ifs <;> rfl

theorem cleared_below (o : OBuffer) {n : ℕ} (h : n ≤ o.v) : load o.cleared.v0 0 n = load o.v0 0 n := by
  rw [OBuffer.cleared]
  split_ifs
  · exact load_store_below _ _ _ _ _ (by omega)
  · rfl

theorem cleared_next (o : OBuffer) (h : o.v < o.iBytes) : o.cleared.v0 o.v = 0 := by
  rw [OBuffer.cleared, if_pos h]
  exact store_inside o.v0 o.v 0 [0] (by simp)

theorem putBits_byte (hbuff : o.iBuff = 8) (iRest iVal : ℕ) :
    o.putBits 8 iRest iVal = o.put (o.v0 o.v ||| UInt8.ofNat (iVal/2^iRest)) := by
  have hfield : UInt8.ofNat (((iVal &&& mask 8 iRest) >>> iRest) <<< 0) = UInt8.ofNat (iVal/2^iRest) := by
    rw [masked_field iVal 8 iRest (le_refl _), Nat.shiftLeft_zero]
    apply UInt8.toNat_inj.1
    rw [UInt8.toNat_ofNat', UInt8.toNat_ofNat']
    omega
  simp only [OBuffer.putBits, hbuff, Nat.sub_self, if_true, hfield]
  rfl

@[simp] theorem put_v (o : OBuffer) (b : UInt8) : (o.put b).v = o.v+1 := cleared_v _

@[simp] theorem put_iBuff (o : OBuffer) (b : UInt8) : (o.put b).iBuff = 8 := cleared_iBuff _

@[simp] theorem put_iBytes (o : OBuffer) (b : UInt8) : (o.put b).iBytes = o.iBytes := cleared_iBytes _

theorem put_next (o : OBuffer) (b : UInt8) (h : o.v+1 < o.iBytes) : (o.put b).v0 (o.v+1) = 0 :=
  cleared_next ⟨store o.v0 o.v [b], o.v+1, 8, o.iBytes⟩ h

theorem put_data (o : OBuffer) (b : UInt8) : (o.put b).data (o.v+1) = o.data o.v ++ [b] := by
  rw [OBuffer.data, OBuffer.put, cleared_below _ (le_refl _)]
  exact load_store_extend o.v0 o.v [b]

theorem writeLoop_byte (hbuff : o.iBuff = 8) (fuel iRest iVal : ℕ) :
    OBuffer.writeLoop (fuel+1) (iRest+8) iVal o =
      if o.iBytes ≤ o.v+1 ∧ iRest ≠ 0 then .error (o.exceeds iRest)
      else OBuffer.writeLoop fuel iRest iVal (o.put (o.v0 o.v ||| UInt8.ofNat (iVal/2^iRest))) := by
  have hmin : min o.iBuff (iRest+8) = 8 := by omega
  have hrest : iRest+8-min o.iBuff (iRest+8) = iRest := by omega
  have hnext : o.putBits (min o.iBuff (iRest+8)) (iRest+8-min o.iBuff (iRest+8)) iVal =
      o.put (o.v0 o.v ||| UInt8.ofNat (iVal/2^iRest)) := by
    rw [hrest, hmin]
    exact putBits_byte hbuff iRest iVal
  rw [OBuffer.writeLoop, if_neg (by omega)]
  dsimp only
  rw [hnext, hrest, put_v, put_iBuff]
  simp only [true_and]

theorem writeLoop_end (fuel iVal : ℕ) : OBuffer.writeLoop fuel 0 iVal o = .ok o := by
  cases fuel with
  | zero => rfl
  | succ fuel => rw [OBuffer.writeLoop, if_pos rfl]

/-- A byte written is or-ed in. -/
theorem write_eight (hbuff : o.iBuff = 8) (iVal : ℕ) :
    o.write 8 iVal = if o.iBytes ≤ o.v then .error (o.exceeds 8)
      else .ok (o.put (o.v0 o.v ||| UInt8.ofNat iVal)) := by
  rw [OBuffer.write]
  have hbyte := writeLoop_byte hbuff 7 0 iVal
  rw [if_neg (by omega), writeLoop_end, pow_zero, Nat.div_one] at hbyte
  exact congrArg _ hbyte

/-- So are the two bytes of a length; the second one has been cleared before. -/
theorem write_sixteen (hbuff : o.iBuff = 8) (iVal : ℕ) :
    (o.iBytes ≤ o.v+1 → ∃ n, o.write 16 iVal = .error (o.exceeds n)) ∧
    (o.v+1 < o.iBytes → o.write 16 iVal =
      .ok ((o.put (o.v0 o.v ||| UInt8.ofNat (iVal/2^8))).put (UInt8.ofNat iVal))) := by
  rw [OBuffer.write, writeLoop_byte hbuff 15 8 iVal]
  constructor
  · intro hroom
    by_cases hfull : o.iBytes ≤ o.v
    · exact ⟨16, by rw [if_pos hfull]⟩
    · exact ⟨8, by rw [if_neg hfull, if_pos ⟨hroom, by omega⟩]⟩
  · intro hroom
    have hlow := writeLoop_byte (put_iBuff o (o.v0 o.v ||| UInt8.ofNat (iVal/2^8))) 14 0 iVal
    rw [if_neg (by omega), put_v, put_next _ _ hroom, UInt8.zero_or, pow_zero, Nat.div_one] at hlow
    rw [if_neg (by omega), if_neg (by omega), hlow, writeLoop_end]

end Sirannon.Bits
