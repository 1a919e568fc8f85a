import Sirannon.AMFValue

/-!
# Writing of AMF0

The functions of the writer put together values that have a function. A string
ends at its first zero byte.
-/

set_option autoImplicit false

namespace Sirannon.AMF
open ByteMemory BitString Bits

/-! ## Writers -/

/-- `AMF_3::UNDEFINED`. -/
def UNDEFINED3 : ℕ := 0

/-- `AMF_3::AMF_NULL`. -/
def NULL3 : ℕ := 1

/-- `AMF_3::NUMBER`. -/
def NUMBER3 : ℕ := 5

/-- `AMF_3::STRING`. -/
def STRING3 : ℕ := 6

/-- `AMF_3::OBJECT`. -/
def OBJECT3 : ℕ := 0xA

def SWITCH_AMF3 : ℕ := 0x11

def writeAMF_Boolean (iAMF : ℕ) (bVal : Bool) (o : OBits) : Except SirannonException OBits :=
  if iAMF = AMF0 then do
    let o ← o.write 8 BOOLEAN
    o.write 8 (if bVal then 1 else 0)
  else if iAMF = AMF3 then o.write 8 (if bVal then AMF_TRUE else AMF_FALSE)
  else .ok o

/-- `fVal` is the bits of a double. -/
def writeAMF_Double (iAMF fVal : ℕ) (bMarker : Bool) (o : OBits) : Except SirannonException OBits :=
  if iAMF = AMF0 then do
    let o ← if bMarker then o.write 8 NUMBER else pure o
    pure (o.writeBuffer (bigEndian 8 fVal))
  else if iAMF = AMF3 then do
    let o ← if bMarker then o.write 8 NUMBER3 else pure o
    pure (o.writeBuffer (bigEndian 8 fVal))
  else pure o

/-- The characters in front of the first zero byte. -/
def cString (sVal : Bytes) : Bytes := sVal.takeWhile (· ≠ 0)

def writeAMF_String (d : Doubles) (iAMF : ℕ) (sVal : Bytes) (bMarker : Bool) (o : OBits) :
    Except SirannonException OBits :=
  if iAMF = AMF0 then do
    let o ← if bMarker then o.write 8 STRING else pure o
    let o ← o.write 16 (cString sVal).length
    pure (o.writeBuffer (cString sVal))
  else if iAMF = AMF3 then do
    let o ← if bMarker then o.write 8 STRING3 else pure o
    let o ← writeAMF_Number d AMF3 ((cString sVal).length <<< 1 ||| 1) false o
    pure (o.writeBuffer (cString sVal))
  else pure o

def writeAMF_Key (d : Doubles) (iAMF : ℕ) (sVal : Bytes) (o : OBits) : Except SirannonException OBits :=
  writeAMF_String d iAMF sVal false o

def writeAMF_Null (iAMF : ℕ) (o : OBits) : Except SirannonException OBits :=
  if iAMF = AMF0 then o.write 8 AMF_NULL
  else if iAMF = AMF3 then o.write 8 NULL3
  else .ok o

def writeAMF_Undefined (iAMF : ℕ) (o : OBits) : Except SirannonException OBits :=
  if iAMF = AMF0 then o.write 8 UNDEFINED
  else if iAMF = AMF3 then o.write 8 UNDEFINED3
  else .ok o

def writeAMF_ArrayStart (iAMF iLen : ℕ) (o : OBits) : Except SirannonException OBits :=
  if iAMF = AMF0 then do
    let o ← o.write 8 ARRAY
    o.write 32 iLen
  else .ok o

def writeAMF_StrictArrayStart (iAMF iLen : ℕ) (o : OBits) : Except SirannonException OBits :=
  if iAMF = AMF0 then do
    let o ← o.write 8 STRICT_ARRAY
    o.write 32 iLen
  else .ok o

def writeAMF_ObjectStart (iAMF : ℕ) (o : OBits) : Except SirannonException OBits :=
  if iAMF = AMF0 then o.write 8 OBJECT_START
  else if iAMF = AMF3 then do
    let o ← o.write 8 OBJECT3
    let o ← o.write 8 0xB
    o.write 8 1
  else .ok o

def writeAMF_ObjectEnd (iAMF : ℕ) (o : OBits) : Except SirannonException OBits :=
  if iAMF = AMF0 then o.write 24 OBJECT_END
  else if iAMF = AMF3 then o.write 8 1
  else .ok o

def writeAMF_SwitchToAMF3 (o : OBits) : Except SirannonException OBits := o.write 8 SWITCH_AMF3

/-! ## Values with a function -/

mutual

def Value.Written : Value → Prop
  | .number _ => True
  | .boolean _ => True
  | .string sVal => 0 ∉ sVal.bytes
  | .object members => members.Written
  | .null => True
  | .undefined => True
  | .array _ members => members.Written
  | .strictArray items => items.Written
  | _ => False

def Members.Written : Members → Prop
  | .nil => True
  | .cons sKey value rest => 0 ∉ sKey.bytes ∧ value.Written ∧ rest.Written

def Items.Written : Items → Prop
  | .nil => True
  | .cons value rest => value.Written ∧ rest.Written

end

section
variable (d : Doubles)

mutual

/-- The calls that put a value together; the others have no function. -/
def writeValue : Value → OBits → Except SirannonException OBits
  | .number f, o => writeAMF_Double AMF0 f.toNat true o
  | .boolean bVal, o => writeAMF_Boolean AMF0 bVal o
  | .string sVal, o => writeAMF_String d AMF0 sVal.bytes true o
  | .object members, o => do
    let o ← writeAMF_ObjectStart AMF0 o
    let o ← writeMembers members o
    writeAMF_ObjectEnd AMF0 o
  | .null, o => writeAMF_Null AMF0 o
  | .undefined, o => writeAMF_Undefined AMF0 o
  | .array iLen members, o => do
    let o ← writeAMF_ArrayStart AMF0 iLen.toNat o
    let o ← writeMembers members o
    writeAMF_ObjectEnd AMF0 o
  | .strictArray items, o => do
    let o ← writeAMF_StrictArrayStart AMF0 items.count o
    writeItems items o
  | _, o => .ok o

def writeMembers : Members → OBits → Except SirannonException OBits
  | .nil, o => .ok o
  | .cons sKey value rest, o => do
    let o ← writeAMF_Key d AMF0 sKey.bytes o
    let o ← writeValue value o
    writeMembers rest o

def writeItems : Items → OBits → Except SirannonException OBits
  | .nil, o => .ok o
  | .cons value rest, o => do
    let o ← writeValue value o
    writeItems rest o

end

end

attribute [grind =] Value.Written Members.Written Items.Written writeValue writeMembers writeItems

/-- A whole number is written as the double made of it. -/
theorem writeAMF_Number_double (d : Doubles) (iVal : ℕ) (bMarker : Bool) (o : OBits) :
    writeAMF_Number d AMF0 iVal bMarker o =
      writeAMF_Double AMF0 (d.ofInt (Int.bmod iVal (2^64))) bMarker o := rfl

/-! ## What a call adds -/

/-- A call puts the bytes `x` behind those that are there. -/
def Adds (o : OBits) (bs x : Bytes) (r : Except SirannonException OBits) : Prop :=
  o.Appends (ofBytes bs) (ofBytes x) r

section
variable {o : OBits} {bs x y : Bytes} {r : Except SirannonException OBits}

theorem adds_bind {k : OBits → Except SirannonException OBits} (h : Adds o bs x r)
    (hk : ∀ o' : OBits, o'.Holds (ofBytes (bs++x)) → Adds o' (bs++x) y (k o')) :
    Adds o bs (x++y) (r >>= k) := by
  rw [Adds, ofBytes_append]
  apply OBits.appends_bind h
  intro o' ho'
  rw [← ofBytes_append] at ho' ⊢
  exact hk o' ho'

theorem adds_nothing (h : o.Holds (ofBytes bs)) : Adds o bs [] (.ok o) := OBits.appends_nil h

theorem adds_number {n : ℕ} (hn : 0 < n) (v : ℕ) (h : o.Holds (ofBytes bs)) :
    Adds o bs (bigEndian n v) (o.write (8*n) v) := by
  rw [Adds, ofBytes_bigEndian]
  exact OBits.write_appends (8*n) v o _ h (by omega)

theorem bigEndian_one (v : ℕ) : bigEndian 1 v = [UInt8.ofNat v] := by
  have hpack := pack_byte (ofNat 8 v) [] (ofNat_length 8 v)
  rw [List.append_nil, value_ofNat] at hpack
  have hempty : pack [] = [] := rfl
  rw [bigEndian, hpack, hempty]
  congr 1
  apply UInt8.toNat_inj.mp
  rw [UInt8.toNat_ofNat', UInt8.toNat_ofNat', Nat.mod_mod]

theorem adds_byte (v : ℕ) (h : o.Holds (ofBytes bs)) : Adds o bs [UInt8.ofNat v] (o.write 8 v) := by
  rw [← bigEndian_one]
  exact adds_number (by omega) v h

theorem adds_buffer (h : o.Holds (ofBytes bs)) : Adds o bs x (.ok (o.writeBuffer x)) := by
  have hwrite := OBits.writeBuffer_holds x h (aligned_ofBytes bs)
  constructor
  · intro o' ho'
    cases ho'
    exact ⟨hwrite, rfl⟩
  · intro _
    exact ⟨_, rfl⟩

theorem cString_text {s : Bytes} (hs : 0 ∉ s) : cString s = s := by
  have hall : ∀ x ∈ s, decide (x ≠ 0) = true := by
    intro x hx
    exact decide_eq_true fun hzero => hs (hzero ▸ hx)
  have hkept : (s ++ []).takeWhile (· ≠ 0) = s ++ [].takeWhile (· ≠ 0) :=
    List.takeWhile_append_of_pos hall
  rw [List.takeWhile_nil, List.append_nil] at hkept
  exact hkept

theorem adds_double (f : ℕ) (h : o.Holds (ofBytes bs)) :
    Adds o bs (UInt8.ofNat NUMBER::bigEndian 8 f) (writeAMF_Double AMF0 f true o) :=
  adds_bind (adds_byte NUMBER h) fun _ ho' => adds_buffer ho'

theorem adds_boolean (bVal : Bool) (h : o.Holds (ofBytes bs)) :
    Adds o bs [UInt8.ofNat BOOLEAN, if bVal then 1 else 0] (writeAMF_Boolean AMF0 bVal o) := by
  have hflag : UInt8.ofNat (if bVal then 1 else 0) = if bVal then 1 else 0 := by
    cases bVal <;> rfl
  rw [← hflag]
  exact adds_bind (adds_byte BOOLEAN h) fun _ ho' => adds_byte _ ho'

theorem adds_key (d : Doubles) {s : Bytes} (hs : 0 ∉ s) (h : o.Holds (ofBytes bs)) :
    Adds o bs (keyBytes s) (writeAMF_Key d AMF0 s o) := by
  have hcalls : writeAMF_Key d AMF0 s o =
      o.write (8*2) (cString s).length >>= fun o => .ok (o.writeBuffer (cString s)) := rfl
  rw [hcalls, cString_text hs]
  exact adds_bind (adds_number (by omega) s.length h) fun _ ho' => adds_buffer ho'

theorem adds_string (d : Doubles) {s : Bytes} (hs : 0 ∉ s) (h : o.Holds (ofBytes bs)) :
    Adds o bs (UInt8.ofNat STRING::keyBytes s) (writeAMF_String d AMF0 s true o) := by
  have hcalls : writeAMF_String d AMF0 s true o = o.write 8 STRING >>= writeAMF_Key d AMF0 s := rfl
  rw [hcalls]
  exact adds_bind (adds_byte STRING h) fun _ ho' => adds_key d hs ho'

theorem adds_objectEnd (h : o.Holds (ofBytes bs)) : Adds o bs objectEnd (writeAMF_ObjectEnd AMF0 o) := by
  have hbytes : objectEnd = bigEndian 3 OBJECT_END := by decide
  rw [hbytes]
  exact adds_number (by omega) OBJECT_END h

theorem adds_arrayStart (iLen : ℕ) (h : o.Holds (ofBytes bs)) :
    Adds o bs (UInt8.ofNat ARRAY::bigEndian 4 iLen) (writeAMF_ArrayStart AMF0 iLen o) :=
  adds_bind (adds_byte ARRAY h) fun _ ho' => adds_number (by omega) iLen ho'

theorem adds_strictArrayStart (iLen : ℕ) (h : o.Holds (ofBytes bs)) :
    Adds o bs (UInt8.ofNat STRICT_ARRAY::bigEndian 4 iLen) (writeAMF_StrictArrayStart AMF0 iLen o) :=
  adds_bind (adds_byte STRICT_ARRAY h) fun _ ho' => adds_number (by omega) iLen ho'

end

/-! ## What a value adds -/

section
variable {d : Doubles} {bound : ℕ} {o : OBits} {bs : Bytes}

/-- The calls for a value put its bytes behind those that are there. -/
def Writes (d : Doubles) (v : Value) : Prop :=
  v.Written → ∀ (o : OBits) (bs : Bytes), o.Holds (ofBytes bs) → Adds o bs v.bytes (writeValue d v o)

theorem writeMembers_adds {ms : Members} (hvalue : ∀ v : Value, v.bytes.length ≤ bound → Writes d v)
    (hbound : ms.bytes.length ≤ bound) (hw : ms.Written) (h : o.Holds (ofBytes bs)) :
    Adds o bs ms.bytes (writeMembers d ms o) := by
  induction ms generalizing o bs with
  | nil => exact adds_nothing h
  | cons sKey v ms ih =>
    have hlength := members_length sKey v ms
    rw [Members.Written] at hw
    rw [writeMembers, Members.bytes]
    apply adds_bind (adds_key d hw.1 h)
    intro o₁ ho₁
    apply adds_bind (hvalue v (by omega) hw.2.1 o₁ _ ho₁)
    intro o₂ ho₂
    exact ih (by omega) hw.2.2 ho₂

theorem writeItems_adds {is : Items} (hvalue : ∀ v : Value, v.bytes.length ≤ bound → Writes d v)
    (hbound : is.bytes.length ≤ bound) (hw : is.Written) (h : o.Holds (ofBytes bs)) :
    Adds o bs is.bytes (writeItems d is o) := by
  induction is generalizing o bs with
  | nil => exact adds_nothing h
  | cons v is ih =>
    have hlength := items_length v is
    rw [Items.Written] at hw
    rw [writeItems, Items.bytes]
    apply adds_bind (hvalue v (by omega) hw.1 o _ h)
    intro o₁ ho₁
    exact ih (by omega) hw.2 ho₁

theorem writeMembers_ended {ms : Members} (hvalue : ∀ v : Value, v.bytes.length ≤ bound → Writes d v)
    (hbound : ms.bytes.length ≤ bound) (hw : ms.Written) (h : o.Holds (ofBytes bs)) :
    Adds o bs (ms.bytes ++ objectEnd) (writeMembers d ms o >>= writeAMF_ObjectEnd AMF0) :=
  adds_bind (writeMembers_adds hvalue hbound hw h) fun _ ho' => adds_objectEnd ho'

theorem writeValue_adds (n : ℕ) (v : Value) (hn : v.bytes.length ≤ n) : Writes d v := by
  induction n generalizing v with
  | zero =>
    have hpos := value_bytes_pos v
    omega
  | succ n ih =>
    intro hw o bs h
    have hsize : v.bytes.length = v.body.length+1 := rfl
    have hbelow : ∀ w : Value, w.bytes.length ≤ v.body.length → Writes d w :=
      fun w hw => ih w (by omega)
    cases v with
    | number f => exact adds_double f.toNat h
    | boolean bVal => exact adds_boolean bVal h
    | string sVal => exact adds_string d hw h
    | object members =>
      have hshort : (Value.object members).body.length = members.bytes.length+3 :=
        ended_length members
      exact adds_bind (adds_byte OBJECT_START h) fun _ ho' =>
        writeMembers_ended hbelow (by omega) hw ho'
    | null => exact adds_byte AMF_NULL h
    | undefined => exact adds_byte UNDEFINED h
    | array iLen members =>
      have hshort : (Value.array iLen members).body.length = 4+(members.bytes.length+3) := by
        rw [Value.body, List.length_append, bigEndian_length, ended_length]
      exact adds_bind (adds_arrayStart iLen.toNat h) fun _ ho' =>
        writeMembers_ended hbelow (by omega) hw ho'
    | strictArray items =>
      have hshort : (Value.strictArray items).body.length = 4+items.bytes.length := by
        rw [Value.body, List.length_append, bigEndian_length]
      exact adds_bind (adds_strictArrayStart items.count h) fun _ ho' =>
        writeItems_adds hbelow (by omega) hw ho'
    | reference iIndex => cases hw
    | date f iZone => cases hw
    | longString sVal => cases hw
    | unsupported => cases hw
    | xml sVal => cases hw
    | typedObject sName members => cases hw

/-! ## A row of values -/

def writeRow (d : Doubles) : List Value → OBits → Except SirannonException OBits
  | [], o => .ok o
  | v::vs, o => writeValue d v o >>= writeRow d vs

theorem writeRow_adds {vs : List Value} (hw : ∀ v ∈ vs, v.Written) (h : o.Holds (ofBytes bs)) :
    Adds o bs (vs.flatMap Value.bytes) (writeRow d vs o) := by
  induction vs generalizing o bs with
  | nil => exact adds_nothing h
  | cons v vs ih =>
    rw [List.flatMap_cons, writeRow]
    have hvalue := writeValue_adds (d := d) v.bytes.length v (le_refl _)
    apply adds_bind (hvalue (hw v List.mem_cons_self) o bs h)
    intro o' ho'
    exact ih (fun w hmem => hw w (List.mem_cons_of_mem v hmem)) ho'

theorem writeRow_new {vs : List Value} (hw : ∀ v ∈ vs, v.Written) {iBytes : ℕ}
    (hroom : (vs.flatMap Value.bytes).length ≤ iBytes) :
    ∃ o, writeRow d vs (OBits.new iBytes) = .ok o ∧ o.data = vs.flatMap Value.bytes := by
  have hadds : Adds (OBits.new iBytes) [] (vs.flatMap Value.bytes) (writeRow d vs (OBits.new iBytes)) :=
    writeRow_adds hw (OBits.holds_new iBytes)
  have hfits : (ofBytes []).length+(ofBytes (vs.flatMap Value.bytes)).length ≤
      8*(OBits.new iBytes).iBytes := by
    rw [ofBytes_nil, List.length_nil, Nat.zero_add, ofBytes_length]
    exact Nat.mul_le_mul_left 8 hroom
  rcases hadds.2 hfits with ⟨o, ho⟩
  have hholds := (hadds.1 o ho).1
  rw [ofBytes_nil, List.nil_append] at hholds
  exact ⟨o, ho, OBits.data_of_holds hholds⟩

end

end Sirannon.AMF
