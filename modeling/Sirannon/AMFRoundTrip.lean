import Sirannon.AMFWriting

/-!
# What is put together is taken apart

A loop over members hands each value on with one fuel less, so the number of bytes
is fuel enough.
-/

set_option autoImplicit false

namespace Sirannon.AMF
open ByteMemory BitString Bits

variable {b : IBits} {off n : ℕ} {rest : Bytes}

/-! ## Parts of a value -/

theorem at_marker {x : UInt8} (h : b.At off (x::rest)) : b.peek 8 = x.toNat := h.byte.1

theorem at_after {x : UInt8} (h : b.At off (x::rest)) : (b.seek 1).At (off+1) rest := by
  have hone : b.At off ([x] ++ rest) := h
  exact hone.seek

theorem at_double {x : UInt8} (h : b.At off (x::(bigEndian 8 n ++ rest))) (hn : n < 2^64) :
    value (ofBytes (load b.buf (b.v+1) 8)) = n := by
  rw [IBits.At, ofBytes_cons, ofBytes_append, ofBytes_bigEndian] at h
  have hv := (IBits.ahead_aligned h).2
  have hbehind := (IBits.ahead_left h).2
  rw [ofNat_length, List.length_append, bits_add] at hbehind
  have hbits := (List.append_inj hbehind (by rw [bits_length])).1
  rw [ofNat_length, show 8*off+8 = 8*(off+1) by omega, bits_load] at hbits
  rw [hv, hbits, value_ofNat, Nat.mod_eq_of_lt hn]

theorem marker_lt (v : Value) : v.marker < 256 := by
  cases v <;> simp only [Value.marker] <;> decide

theorem marker_toNat (v : Value) : (UInt8.ofNat v.marker).toNat = v.marker := by
  rw [UInt8.toNat_ofNat', Nat.mod_eq_of_lt (marker_lt v)]

theorem marker_not_end (v : Value) : v.marker ≠ OBJECT_END := by
  cases v <;> simp only [Value.marker] <;> decide

theorem readChars_text {k : ℕ} (t : Text k) (h : b.At off (t.bytes ++ rest)) :
    (readChars t.bytes.length b).1 = t.bytes ∧
      (readChars t.bytes.length b).2.At (off+t.bytes.length) rest := by
  have hnarrow := readChars_narrow h fun x hx => (t.ascii x hx).trans (by decide)
  rwa [(shown_iff t.bytes).2 t.ascii] at hnarrow

theorem keyBytes_length (s : Bytes) : (keyBytes s).length = 2+s.length := by
  rw [keyBytes, List.length_append, bigEndian_length]

theorem readAMF_Key_text (t : Text (2^16)) (h : b.At off (keyBytes t.bytes ++ rest)) :
    (readAMF_Key AMF0 b).1 = t.bytes ∧
      (readAMF_Key AMF0 b).2.At (off+(keyBytes t.bytes).length) rest := by
  rcases readAMF_Key_length h t.short with ⟨b', hread, hat⟩
  rw [hread, keyBytes_length, ← Nat.add_assoc]
  exact readChars_text t hat

theorem readAMF_String_text (t : Text (2^16)) {x : UInt8} (hx : x.toNat ≠ UNDEFINED)
    (h : b.At off (x::(keyBytes t.bytes ++ rest))) :
    (readAMF_String AMF0 true b).1 = t.bytes ∧
      (readAMF_String AMF0 true b).2.At (off+1+(keyBytes t.bytes).length) rest := by
  have hmarker := h.byte
  have hread : readAMF_String AMF0 true b = readAMF_Key AMF0 (b.read 8).2 := by
    simp [readAMF_Key, readAMF_String, hmarker.1, hx]
  rw [hread]
  exact readAMF_Key_text t hmarker.2

theorem signedCount_small {n : ℕ} (h : n < 2^31) : signedCount n = n := if_pos h

/-- A length of four bytes and a string. -/
theorem readAMF_StringLong_text (t : Text (2^32)) {x : UInt8}
    (hsmall : (bigEndian 4 t.bytes.length ++ t.bytes).length < 2^31)
    (h : b.At off (x::(bigEndian 4 t.bytes.length ++ t.bytes ++ rest))) :
    (readAMF_StringLong AMF0 b).1 = t.bytes ∧ (readAMF_StringLong AMF0 b).2.At
      (off+((bigEndian 4 t.bytes.length ++ t.bytes).length+1)) rest := by
  have hsize : (bigEndian 4 t.bytes.length ++ t.bytes).length = 4+t.bytes.length := by
    rw [List.length_append, bigEndian_length]
  rw [List.append_assoc] at h
  have hlength := (at_after h).number (by omega) t.short
  have hread : readAMF_StringLong AMF0 b = readChars t.bytes.length ((b.seek 1).read 32).2 := by
    rw [readAMF_StringLong, if_pos rfl]
    show readChars (signedCount ((b.seek 1).read 32).1) _ = _
    rw [show ((b.seek 1).read 32).1 = t.bytes.length from hlength.1, signedCount_small (by omega)]
  have hsum : off+1+4+t.bytes.length = off+(4+t.bytes.length+1) := by omega
  rw [hread, hsize, ← hsum]
  exact readChars_text t hlength.2

/-! ## The end of an object -/

theorem peek_three {l : ℕ} {z : UInt8} (h : b.At off (bigEndian 2 l ++ z::rest)) (hl : l < 2^16) :
    b.peek 24 = l*256+z.toNat := by
  rw [IBits.At, ofBytes_append, ofBytes_bigEndian, ofBytes_cons, ← List.append_assoc] at h
  have hlength : (ofNat (8*2) l ++ ofNat 8 z.toNat).length = 24 := by
    rw [List.length_append, ofNat_length, ofNat_length]
  have hread := (IBits.ahead_read h (by rw [hlength]; omega)).1
  rw [hlength, value_append, value_ofNat, value_ofNat, ofNat_length, Nat.mod_eq_of_lt hl,
    Nat.mod_eq_of_lt z.toNat_lt] at hread
  exact hread

theorem objectEnd_read (h : b.At off (objectEnd ++ rest)) :
    (readAMF_ObjectEnd AMF0 b).1 = true ∧ (readAMF_ObjectEnd AMF0 b).2.At (off+3) rest := by
  have hbytes : objectEnd = bigEndian 3 9 := by decide
  rw [hbytes] at h
  have hread := h.number (by omega) (by norm_num)
  have hpeek : b.peek 24 = OBJECT_END := hread.1
  rw [readAMF_ObjectEnd, if_pos rfl, if_pos hpeek]
  exact ⟨rfl, hread.2⟩

theorem objectEnd_not (t : Text (2^16)) (v : Value)
    (h : b.At off (keyBytes t.bytes ++ (UInt8.ofNat v.marker::rest))) :
    readAMF_ObjectEnd AMF0 b = (false, b) := by
  have hpeek : b.peek 24 ≠ OBJECT_END := by
    have hshort := t.short
    rw [keyBytes, List.append_assoc] at h
    cases hchars : t.bytes with
    | nil =>
      rw [hchars] at h
      have hend := marker_not_end v
      rw [peek_three h (by norm_num), marker_toNat, List.length_nil]
      omega
    | cons z zs =>
      rw [hchars] at h hshort
      rw [peek_three h hshort, List.length_cons, OBJECT_END]
      omega
  rw [readAMF_ObjectEnd, if_pos rfl, if_neg hpeek]

/-! ## Every value -/

section
variable (d : Dates) (read : Bytes → Response → IBits → Option Parsed)

/-- A reader does what a value says and stops right behind it. -/
def Reads (v : Value) : Prop :=
  ∀ (b : IBits) (off : ℕ) (rest sKey : Bytes) (m : Response), b.At off (v.bytes ++ rest) →
    ∃ b', read sKey m b = some ⟨v.marker, v.into d sKey m, b'⟩ ∧ b'.At (off+v.bytes.length) rest

variable {d read}

theorem Reads.next {v : Value} (hv : Reads d read v) (sKey : Bytes) (m : Response)
    (k : Parsed → Option Parsed) (h : b.At off (v.bytes ++ rest)) :
    ∃ b', ((read sKey m b).bind fun r => if r.iRet < 0 then some ⟨-1, r.m, r.b⟩ else k r) =
      k ⟨v.marker, v.into d sKey m, b'⟩ ∧ b'.At (off+v.bytes.length) rest := by
  rcases hv b off rest sKey m h with ⟨b', hread, hat⟩
  refine ⟨b', ?_, hat⟩
  have hmarker : ¬((v.marker : ℤ) < 0) := by omega
  rw [hread, Option.bind_some]
  exact if_neg hmarker

theorem readMembers_all {iType fuel bound : ℕ} {ms : Members} {m : Response}
    (hread : ∀ v : Value, v.bytes.length ≤ bound → Reads d read v) (hbound : ms.bytes.length ≤ bound)
    (hfuel : ms.bytes.length < fuel) (h : b.At off (ms.bytes ++ (objectEnd ++ rest))) :
    ∃ b', readMembers read iType fuel m b = some ⟨iType, ms.into d m, b'⟩ ∧
      b'.At (off+(ms.bytes.length+3)) rest := by
  induction ms generalizing b off fuel m with
  | nil =>
    obtain ⟨n, rfl⟩ : ∃ n, fuel = n+1 := ⟨fuel-1, by omega⟩
    have hempty : b.At off (objectEnd ++ rest) := h
    have hend := objectEnd_read hempty
    refine ⟨(readAMF_ObjectEnd AMF0 b).2, ?_, ?_⟩
    · rw [readMembers, if_pos hend.1, Members.into]
    · rw [Members.bytes, List.length_nil, Nat.zero_add]
      exact hend.2
  | cons sKey v ms ih =>
    obtain ⟨n, rfl⟩ : ∃ n, fuel = n+1 := ⟨fuel-1, by omega⟩
    have hlength := members_length sKey v ms
    have hsplit : b.At off (keyBytes sKey.bytes ++ (v.bytes ++ (ms.bytes ++ (objectEnd ++ rest)))) := by
      rw [Members.bytes, List.append_assoc, List.append_assoc] at h
      exact h
    have hpos := value_bytes_pos v
    have hnot := objectEnd_not sKey v hsplit
    have hkey := readAMF_Key_text sKey hsplit
    have hvalue := hread v (by omega)
    rcases hvalue.next (readAMF_Key AMF0 b).1 m (fun r => readMembers read iType n r.m r.b) hkey.2 with
      ⟨b₁, hfirst, hat⟩
    rcases ih (m := v.into d sKey.bytes m) (by omega) (show ms.bytes.length < n by omega) hat with
      ⟨b₂, hrest, hend⟩
    refine ⟨b₂, ?_, ?_⟩
    · rw [readMembers, hnot, if_neg Bool.false_ne_true, Members.into, ← hrest, ← hkey.1]
      exact hfirst
    · rw [hlength]
      have hsum : off+(keyBytes sKey.bytes).length+v.bytes.length+(ms.bytes.length+3) =
        off+((keyBytes sKey.bytes).length+(v.bytes.length+ms.bytes.length)+3) := by omega
      rw [← hsum]
      exact hend

theorem readItems_all {bound : ℕ} {is : Items} (iType i : ℕ) (m : Response)
    (hread : ∀ v : Value, v.bytes.length ≤ bound → Reads d read v) (hbound : is.bytes.length ≤ bound)
    (h : b.At off (is.bytes ++ rest)) :
    ∃ b', readItems read iType is.count i m b = some ⟨iType, is.into d i m, b'⟩ ∧
      b'.At (off+is.bytes.length) rest := by
  induction is generalizing b off i m with
  | nil => exact ⟨b, rfl, h⟩
  | cons v is ih =>
    have hlength := items_length v is
    have hsplit : b.At off (v.bytes ++ (is.bytes ++ rest)) := by
      rw [Items.bytes, List.append_assoc] at h
      exact h
    have hvalue := hread v (by omega)
    rcases hvalue.next (indexKey i) m (fun r => readItems read iType is.count (i+1) r.m r.b) hsplit with
      ⟨b₁, hfirst, hat⟩
    rcases ih (i+1) (v.into d (indexKey i) m) (by omega) hat with ⟨b₂, hrest, hend⟩
    refine ⟨b₂, ?_, ?_⟩
    · rw [Items.count, readItems, Items.into, ← hrest]
      exact hfirst
    · rw [hlength, ← Nat.add_assoc]
      exact hend

theorem readMembers_after {iType fuel bound : ℕ} {ms : Members} {m : Response}
    (hread : ∀ v : Value, v.bytes.length ≤ bound → Reads d read v) (hbound : ms.bytes.length ≤ bound)
    (hfuel : ms.bytes.length < fuel) (h : b.At off (ms.bytes ++ objectEnd ++ rest)) :
    ∃ b', readMembers read iType fuel m b = some ⟨iType, ms.into d m, b'⟩ ∧
      b'.At (off+(ms.bytes ++ objectEnd).length) rest := by
  rw [List.append_assoc] at h
  rw [List.length_append]
  exact readMembers_all hread hbound hfuel h

theorem count_le (is : Items) : is.count ≤ is.bytes.length := by
  induction is with
  | nil => exact le_refl 0
  | cons v is ih =>
    rw [Items.count, Items.bytes, List.length_append, List.length_cons]
    omega

/-- The reader of one level, when the level below does its work on all that is shorter. -/
theorem readValue_reads {fuel : ℕ} (v : Value)
    (hread : ∀ w : Value, w.bytes.length < v.bytes.length → Reads d read w)
    (hlength : v.bytes.length ≤ fuel+1) (hsmall : v.bytes.length < 2^31) :
    Reads d (readValue d read fuel) v := by
  intro b off rest sKey m h
  have hpeek : b.peek 8 = v.marker := by
    rw [at_marker h, marker_toNat]
  have hbytes : b.At off (UInt8.ofNat v.marker::(v.body ++ rest)) := h
  have hbody := at_after hbytes
  have hall := h.seek
  have hsize : v.bytes.length = v.body.length+1 := rfl
  have hbelow : ∀ w : Value, w.bytes.length ≤ v.body.length → Reads d read w :=
    fun w hw => hread w (by omega)
  cases v with
  | number f =>
    refine ⟨b.seek 9, ?_, hall⟩
    have hnumber : readAMF_Number d.toDoubles AMF0 b = (d.toUInt64 f.toNat, b.seek 9) := by
      rw [readAMF_Number, if_pos rfl, at_double hbytes f.toNat_lt]
    simp only [readValue, hpeek]
    show some (Parsed.mk _ (m.setInt sKey (readAMF_Number d.toDoubles AMF0 b).1) _) = _
    rw [hnumber]
    rfl
  | boolean bVal =>
    have hflag : (b.seek 1).At (off+1) ((if bVal then 1 else 0)::rest) := hbody
    refine ⟨((b.seek 1).read 8).2, ?_, hflag.byte.2⟩
    have hboolean : (readAMF_Boolean AMF0 b).1 = bVal := by
      show decide (((b.seek 1).read 8).1 ≠ 0) = bVal
      rw [hflag.byte.1]
      cases bVal <;> rfl
    simp only [readValue, hpeek]
    show some (Parsed.mk _ (m.setBool sKey (readAMF_Boolean AMF0 b).1) _) = _
    rw [hboolean]
    rfl
  | string sVal =>
    have hstring := readAMF_String_text sVal (show (UInt8.ofNat STRING).toNat ≠ UNDEFINED by decide) hbytes
    refine ⟨(readAMF_String AMF0 true b).2, ?_, ?_⟩
    · simp only [readValue, hpeek]
      show some (Parsed.mk _ (m.setString sKey (readAMF_String AMF0 true b).1) _) = _
      rw [hstring.1]
      rfl
    · rw [hsize, Nat.add_comm _ 1, ← Nat.add_assoc]
      exact hstring.2
  | object members =>
    have hshort : (Value.object members).body.length = members.bytes.length+3 := ended_length members
    have hfuel : members.bytes.length < fuel := by omega
    rcases readMembers_after hbelow (by omega) hfuel hbody with ⟨b', hmembers, hat⟩
    refine ⟨b', ?_, ?_⟩
    · simp only [readValue, hpeek]
      exact hmembers
    · rw [hsize, Nat.add_comm _ 1, ← Nat.add_assoc]
      exact hat
  | null =>
    refine ⟨b.seek 1, ?_, hall⟩
    simp only [readValue, hpeek]
    rfl
  | undefined =>
    refine ⟨b.seek 1, ?_, hall⟩
    simp only [readValue, hpeek]
    rfl
  | reference iIndex =>
    refine ⟨b.seek 3, ?_, hall⟩
    simp only [readValue, hpeek]
    rfl
  | array iLen members =>
    have hshort : (Value.array iLen members).body.length = 4+(members.bytes ++ objectEnd).length := by
      rw [Value.body, List.length_append, bigEndian_length]
    have hend := ended_length members
    have hfive : b.At off ((UInt8.ofNat ARRAY::bigEndian 4 iLen.toNat) ++
        (members.bytes ++ objectEnd ++ rest)) := by
      rw [List.cons_append, ← List.append_assoc]
      exact hbytes
    have hfuel : members.bytes.length < fuel := by omega
    rcases readMembers_after hbelow (by omega) hfuel hfive.seek with
      ⟨b', hmembers, hat⟩
    refine ⟨b', ?_, ?_⟩
    · simp only [readValue, hpeek]
      exact hmembers
    · rw [hsize, hshort, Nat.add_right_comm, ← Nat.add_assoc]
      exact hat
  | strictArray items =>
    have hshort : (Value.strictArray items).body.length = 4+items.bytes.length := by
      rw [Value.body, List.length_append, bigEndian_length]
    have hcount := count_le items
    have hparts : (b.seek 1).At (off+1) (bigEndian 4 items.count ++ (items.bytes ++ rest)) := by
      rw [← List.append_assoc]
      exact hbody
    have hnumber := hparts.number (by omega) (by omega)
    rcases readItems_all STRICT_ARRAY 0 m hbelow (by omega) hnumber.2 with
      ⟨b', hitems, hat⟩
    refine ⟨b', ?_, ?_⟩
    · simp only [readValue, hpeek]
      show readItems read _ (signedCount ((b.seek 1).read (8*4)).1) 0 m ((b.seek 1).read (8*4)).2 = _
      rw [hnumber.1, signedCount_small (by omega)]
      exact hitems
    · rw [hsize, hshort]
      have hsum : off+1+4+items.bytes.length = off+(4+items.bytes.length+1) := by omega
      rw [← hsum]
      exact hat
  | date f iZone =>
    have hdouble : b.At off
        (UInt8.ofNat DATE::(bigEndian 8 f.toNat ++ (bigEndian 2 iZone.toNat ++ rest))) := by
      rw [← List.append_assoc]
      exact hbytes
    refine ⟨b.seek 11, ?_, hall⟩
    have hdate : readAMF_Date d AMF0 b = (d.thousandth f.toNat, b.seek 11) := by
      rw [readAMF_Date, if_pos rfl, at_double hdouble f.toNat_lt]
    simp only [readValue, hpeek]
    show some (Parsed.mk _ (m.setInt sKey (readAMF_Date d AMF0 b).1) _) = _
    rw [hdate]
    rfl
  | longString sVal =>
    have hlong := readAMF_StringLong_text sVal (by rw [hsize, Value.body] at hsmall; omega) hbytes
    refine ⟨(readAMF_StringLong AMF0 b).2, ?_, hlong.2⟩
    simp only [readValue, hpeek]
    show some (Parsed.mk _ (m.setString sKey (readAMF_StringLong AMF0 b).1) _) = _
    rw [hlong.1]
    rfl
  | unsupported =>
    refine ⟨b.seek 1, ?_, hall⟩
    simp only [readValue, hpeek]
    rfl
  | xml sVal =>
    have hlong := readAMF_StringLong_text sVal (by rw [hsize, Value.body] at hsmall; omega) hbytes
    refine ⟨(readAMF_StringLong AMF0 b).2, ?_, hlong.2⟩
    simp only [readValue, hpeek]
    show some (Parsed.mk _ (m.setString sKey (readAMF_StringLong AMF0 b).1) _) = _
    rw [hlong.1]
    rfl
  | typedObject sName members =>
    have hshort : (Value.typedObject sName members).body.length =
        (keyBytes sName.bytes).length+(members.bytes ++ objectEnd).length := List.length_append
    have hend := ended_length members
    have hname : (b.seek 1).At (off+1) (keyBytes sName.bytes ++ (members.bytes ++ objectEnd ++ rest)) := by
      rw [← List.append_assoc]
      exact hbody
    have hfuel : members.bytes.length < fuel := by omega
    rcases readMembers_after hbelow (by omega) hfuel (readAMF_Key_text sName hname).2 with
      ⟨b', hmembers, hat⟩
    refine ⟨b', ?_, ?_⟩
    · simp only [readValue, hpeek]
      exact hmembers
    · have hsum : off+1+(keyBytes sName.bytes).length+(members.bytes ++ objectEnd).length =
        off+((keyBytes sName.bytes).length+(members.bytes ++ objectEnd).length+1) := by omega
      rw [hsize, hshort, ← hsum]
      exact hat

/-- Whatever is put together in the format is taken apart to its last byte. -/
theorem readAMF_reads (fuel : ℕ) (v : Value) (hfuel : v.bytes.length ≤ fuel)
    (hsmall : v.bytes.length < 2^31) : Reads d (readAMF d AMF0 fuel) v := by
  induction fuel generalizing v with
  | zero =>
    have hpos := value_bytes_pos v
    omega
  | succ fuel ih =>
    have hvalue := readValue_reads v (fun w hw => ih w (by omega) (by omega)) hfuel hsmall
    intro b off rest sKey m h
    rw [readAMF, if_pos rfl]
    exact hvalue b off rest sKey m h

theorem one_ascii {x : UInt8} (hx : x.toNat < 0x80) : ∀ y ∈ [x], y.toNat < 0x80 := by
  intro y hy
  rw [List.mem_singleton.mp hy]
  exact hx

/-- A member of an object that says `a` is true. -/
theorem readAMF_reads_member : Reads ⟨⟨fun _ => 0, fun _ => 0⟩, fun _ => 0⟩
    (readAMF ⟨⟨fun _ => 0, fun _ => 0⟩, fun _ => 0⟩ AMF0 9)
    (.object (.cons ⟨[0x61], by decide, one_ascii (by decide)⟩ (.boolean true) .nil)) :=
  readAMF_reads 9 (.object (.cons ⟨[0x61], by decide, one_ascii (by decide)⟩ (.boolean true) .nil))
    (by decide) (by decide)

/-! ## A row of values -/

/-- One `readAMF` after the other into the same maps, until one fails. -/
def readRow (d : Dates) (fuel : ℕ) (sKey : Bytes) : ℕ → Response → IBits → Option (Response × IBits)
  | 0, m, b => some (m, b)
  | n+1, m, b =>
    (readAMF d AMF0 fuel sKey m b).bind fun r => if r.iRet < 0 then none else readRow d fuel sKey n r.m r.b

attribute [grind =] readRow

theorem readRow_all {fuel : ℕ} {vs : List Value} (sKey : Bytes) (m : Response)
    (hfuel : (vs.flatMap Value.bytes).length ≤ fuel) (hsmall : (vs.flatMap Value.bytes).length < 2^31)
    (h : b.At off (vs.flatMap Value.bytes ++ rest)) :
    ∃ b', readRow d fuel sKey vs.length m b = some (vs.foldl (fun m v => v.into d sKey m) m, b') ∧
      b'.At (off+(vs.flatMap Value.bytes).length) rest := by
  induction vs generalizing b off m with
  | nil => exact ⟨b, rfl, h⟩
  | cons v vs ih =>
    rw [List.flatMap_cons, List.length_append] at hfuel hsmall
    rw [List.flatMap_cons, List.append_assoc] at h
    rcases readAMF_reads fuel v (by omega) (by omega) b off _ sKey m h with ⟨b₁, hread, hat⟩
    rcases ih (v.into d sKey m) (by omega) (by omega) hat with ⟨b₂, hrest, hend⟩
    refine ⟨b₂, ?_, ?_⟩
    · have hmarker : ¬((v.marker : ℤ) < 0) := by omega
      rw [List.length_cons, readRow, hread, Option.bind_some, if_neg hmarker, List.foldl_cons]
      exact hrest
    · rw [List.flatMap_cons, List.length_append, ← Nat.add_assoc]
      exact hend

end

end Sirannon.AMF
