import Sirannon.AMFReading

/-!
# Values of AMF0

`readAMF` takes a value apart into maps. Whatever a peer has put together in the
format is read to its last byte, and the maps hold what it says.
-/

set_option autoImplicit false

namespace Sirannon.AMF
open ByteMemory BitString Bits

/-! ## The reader of values -/

/-- The three maps of `readAMF`. -/
structure Response where
  mInt : Bytes → Option ℕ
  mString : Bytes → Option Bytes
  mBool : Bytes → Option Bool

namespace Response

def empty : Response := ⟨fun _ => none, fun _ => none, fun _ => none⟩

def setInt (m : Response) (sKey : Bytes) (iVal : ℕ) : Response :=
  { m with mInt := Function.update m.mInt sKey (some iVal) }

def setString (m : Response) (sKey sVal : Bytes) : Response :=
  { m with mString := Function.update m.mString sKey (some sVal) }

def setBool (m : Response) (sKey : Bytes) (bVal : Bool) : Response :=
  { m with mBool := Function.update m.mBool sKey (some bVal) }

end Response

structure Parsed where
  iRet : ℤ
  m : Response
  b : IBits

/-- `%06d`. -/
def indexKey (i : ℕ) : Bytes := ((Nat.toDigits 10 i).leftpad 6 '0').map fun c => UInt8.ofNat c.toNat

section
variable (read : Bytes → Response → IBits → Option Parsed) (iType : ℕ)

/-- The loop over key and value, as long as there is no end of an object. -/
def readMembers : ℕ → Response → IBits → Option Parsed
  | 0, _, _ => none
  | n+1, m, b =>
    if (readAMF_ObjectEnd AMF0 b).1 then some ⟨iType, m, (readAMF_ObjectEnd AMF0 b).2⟩
    else
      let sKey := readAMF_Key AMF0 b
      (read sKey.1 m sKey.2).bind fun r =>
        if r.iRet < 0 then some ⟨-1, r.m, r.b⟩ else readMembers n r.m r.b

def readItems : ℕ → ℕ → Response → IBits → Option Parsed
  | 0, _, m, b => some ⟨iType, m, b⟩
  | n+1, i, m, b =>
    (read (indexKey i) m b).bind fun r =>
      if r.iRet < 0 then some ⟨-1, r.m, r.b⟩ else readItems n (i+1) r.m r.b

attribute [grind =] readMembers readItems

end

def readValue (d : Dates) (read : Bytes → Response → IBits → Option Parsed) (fuel : ℕ) (sBaseKey : Bytes)
    (m : Response) (b : IBits) : Option Parsed :=
  let iType := b.peek 8
  if iType = OBJECT_START then readMembers read iType fuel m (b.seek 1)
  else if iType = ARRAY then readMembers read iType fuel m (b.seek 5)
  else if iType = TYPED_OBJECT then readMembers read iType fuel m (readAMF_Key AMF0 (b.seek 1)).2
  else if iType = STRICT_ARRAY then
    let iFields := (b.seek 1).read 32
    readItems read iType (signedCount iFields.1) 0 m iFields.2
  else if iType = BOOLEAN then
    let r := readAMF_Boolean AMF0 b
    some ⟨iType, m.setBool sBaseKey r.1, r.2⟩
  else if iType = NUMBER then
    let r := readAMF_Number d.toDoubles AMF0 b
    some ⟨iType, m.setInt sBaseKey r.1, r.2⟩
  else if iType = STRING then
    let r := readAMF_String AMF0 true b
    some ⟨iType, m.setString sBaseKey r.1, r.2⟩
  else if iType = DATE then
    let r := readAMF_Date d AMF0 b
    some ⟨iType, m.setInt sBaseKey r.1, r.2⟩
  else if iType = LONG_STRING ∨ iType = XML then
    let r := readAMF_StringLong AMF0 b
    some ⟨iType, m.setString sBaseKey r.1, r.2⟩
  else if iType = UNDEFINED ∨ iType = AMF_NULL ∨ iType = UNSUPPORTED then some ⟨iType, m, b.seek 1⟩
  else if iType = REFERENCE then some ⟨iType, m, b.seek 3⟩
  else some ⟨-1, m, b⟩

def readAMF (d : Dates) (iAMF : ℕ) : ℕ → Bytes → Response → IBits → Option Parsed
  | 0, _, _, _ => none
  | fuel+1, sBaseKey, m, b =>
    if iAMF = AMF0 then readValue d (readAMF d iAMF fuel) fuel sBaseKey m b
    else some ⟨-1, m, b⟩

attribute [grind =] readAMF

/-- The type of what is left behind. -/
def readAMF_Skip (d : Dates) (iAMF fuel : ℕ) (b : IBits) : Option (ℤ × IBits) :=
  (readAMF d iAMF fuel ("value".toUTF8.toList) Response.empty b).map fun r => (r.iRet, r.b)

/-! ## The format -/

/-- Characters of one byte, less than `n` of them. -/
structure Text (n : ℕ) where
  bytes : Bytes
  short : bytes.length < n
  ascii : ∀ x ∈ bytes, x.toNat < 0x80

mutual

/-- All a peer may send but the movie clip and the switch to AMF3. -/
inductive Value where
  | number (f : UInt64)
  | boolean (bVal : Bool)
  | string (sVal : Text (2^16))
  | object (members : Members)
  | null
  | undefined
  | reference (iIndex : UInt16)
  | array (iLen : UInt32) (members : Members)
  | strictArray (items : Items)
  | date (f : UInt64) (iZone : UInt16)
  | longString (sVal : Text (2^32))
  | unsupported
  | xml (sVal : Text (2^32))
  | typedObject (sName : Text (2^16)) (members : Members)

inductive Members where
  | nil
  | cons (sKey : Text (2^16)) (value : Value) (rest : Members)

inductive Items where
  | nil
  | cons (value : Value) (rest : Items)

end

@[induction_eliminator]
theorem Members.induction {P : Members → Prop} (nil : P .nil)
    (cons : ∀ sKey value rest, P rest → P (.cons sKey value rest)) : ∀ ms, P ms
  | .nil => nil
  | .cons sKey value rest => cons sKey value rest (Members.induction nil cons rest)

@[induction_eliminator]
theorem Items.induction {P : Items → Prop} (nil : P .nil)
    (cons : ∀ value rest, P rest → P (.cons value rest)) : ∀ is, P is
  | .nil => nil
  | .cons value rest => cons value rest (Items.induction nil cons rest)

def Value.marker : Value → ℕ
  | .number _ => NUMBER
  | .boolean _ => BOOLEAN
  | .string _ => STRING
  | .object _ => OBJECT_START
  | .null => AMF_NULL
  | .undefined => UNDEFINED
  | .reference _ => REFERENCE
  | .array _ _ => ARRAY
  | .strictArray _ => STRICT_ARRAY
  | .date _ _ => DATE
  | .longString _ => LONG_STRING
  | .unsupported => UNSUPPORTED
  | .xml _ => XML
  | .typedObject _ _ => TYPED_OBJECT

def Items.count : Items → ℕ
  | .nil => 0
  | .cons _ rest => rest.count+1

/-- An empty key and the marker of the end. -/
def objectEnd : Bytes := [0, 0, 9]

mutual

/-- What follows the marker. -/
def Value.body : Value → Bytes
  | .number f => bigEndian 8 f.toNat
  | .boolean bVal => [if bVal then 1 else 0]
  | .string sVal => keyBytes sVal.bytes
  | .object members => members.bytes ++ objectEnd
  | .null => []
  | .undefined => []
  | .reference iIndex => bigEndian 2 iIndex.toNat
  | .array iLen members => bigEndian 4 iLen.toNat ++ (members.bytes ++ objectEnd)
  | .strictArray items => bigEndian 4 items.count ++ items.bytes
  | .date f iZone => bigEndian 8 f.toNat ++ bigEndian 2 iZone.toNat
  | .longString sVal => bigEndian 4 sVal.bytes.length ++ sVal.bytes
  | .unsupported => []
  | .xml sVal => bigEndian 4 sVal.bytes.length ++ sVal.bytes
  | .typedObject sName members => keyBytes sName.bytes ++ (members.bytes ++ objectEnd)

def Members.bytes : Members → Bytes
  | .nil => []
  | .cons sKey value rest => keyBytes sKey.bytes ++ (UInt8.ofNat value.marker::value.body ++ rest.bytes)

def Items.bytes : Items → Bytes
  | .nil => []
  | .cons value rest => UInt8.ofNat value.marker::value.body ++ rest.bytes

end

def Value.bytes (v : Value) : Bytes := UInt8.ofNat v.marker::v.body

section
variable (d : Dates)

mutual

/-- What a value says under a key. -/
def Value.into : Value → Bytes → Response → Response
  | .number f, sKey, m => m.setInt sKey (d.toUInt64 f.toNat)
  | .boolean bVal, sKey, m => m.setBool sKey bVal
  | .string sVal, sKey, m => m.setString sKey sVal.bytes
  | .object members, _, m => members.into m
  | .null, _, m => m
  | .undefined, _, m => m
  | .reference _, _, m => m
  | .array _ members, _, m => members.into m
  | .strictArray items, _, m => items.into 0 m
  | .date f _, sKey, m => m.setInt sKey (d.thousandth f.toNat)
  | .longString sVal, sKey, m => m.setString sKey sVal.bytes
  | .unsupported, _, m => m
  | .xml sVal, sKey, m => m.setString sKey sVal.bytes
  | .typedObject _ members, _, m => members.into m

/-- The members go in under their own keys. -/
def Members.into : Members → Response → Response
  | .nil, m => m
  | .cons sKey value rest, m => rest.into (value.into sKey.bytes m)

def Items.into : Items → ℕ → Response → Response
  | .nil, _, m => m
  | .cons value rest, i, m => rest.into (i+1) (value.into (indexKey i) m)

end

end

attribute [grind =] Value.body Members.bytes Items.bytes Value.into Members.into Items.into

theorem value_bytes_pos (v : Value) : 0 < v.bytes.length := Nat.succ_pos _

theorem members_length (sKey : Text (2^16)) (v : Value) (ms : Members) :
    (Members.cons sKey v ms).bytes.length =
      (keyBytes sKey.bytes).length+(v.bytes.length+ms.bytes.length) := by
  rw [Members.bytes, List.length_append, List.length_append, Value.bytes]

theorem items_length (v : Value) (is : Items) :
    (Items.cons v is).bytes.length = v.bytes.length+is.bytes.length := by
  rw [Items.bytes, List.length_append, Value.bytes]

theorem ended_length (ms : Members) : (ms.bytes ++ objectEnd).length = ms.bytes.length+3 :=
  List.length_append

end Sirannon.AMF
