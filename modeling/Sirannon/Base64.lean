import Sirannon.Bits
import Sirannon.MachineInt

/-!
# Base64

Three bytes become four letters, six bits each; what is left over at the end
is filled up with zero bits and the letter `=`. The decoder takes every `=`
for six zero bits and removes the zero bytes at the end of what it decoded.
-/

set_option autoImplicit false

namespace Sirannon.Base64
open MachineInt ByteMemory BitString Bits

def fDecoder : List ℤ :=
  [-1, -1, -1, -1, -1, -1, -1, -1, -1, -1, -1, -1, -1, -1, -1, -1,
   -1, -1, -1, -1, -1, -1, -1, -1, -1, -1, -1, -1, -1, -1, -1, -1,
   -1, -1, -1, -1, -1, -1, -1, -1, -1, -1, -1, 62, -1, -1, -1, 63,
   52, 53, 54, 55, 56, 57, 58, 59, 60, 61, -1, -1, -1, 0, -1, -1,
   -1, 0, 1, 2, 3, 4, 5, 6, 7, 8, 9, 10, 11, 12, 13, 14,
   15, 16, 17, 18, 19, 20, 21, 22, 23, 24, 25, -1, -1, -1, -1, -1,
   -1, 26, 27, 28, 29, 30, 31, 32, 33, 34, 35, 36, 37, 38, 39, 40,
   41, 42, 43, 44, 45, 46, 47, 48, 49, 50, 51, -1, -1, -1, -1, -1,
   -1, -1, -1, -1, -1, -1, -1, -1, -1, -1, -1, -1, -1, -1, -1, -1,
   -1, -1, -1, -1, -1, -1, -1, -1, -1, -1, -1, -1, -1, -1, -1, -1,
   -1, -1, -1, -1, -1, -1, -1, -1, -1, -1, -1, -1, -1, -1, -1, -1,
   -1, -1, -1, -1, -1, -1, -1, -1, -1, -1, -1, -1, -1, -1, -1, -1,
   -1, -1, -1, -1, -1, -1, -1, -1, -1, -1, -1, -1, -1, -1, -1, -1,
   -1, -1, -1, -1, -1, -1, -1, -1, -1, -1, -1, -1, -1, -1, -1, -1,
   -1, -1, -1, -1, -1, -1, -1, -1, -1, -1, -1, -1, -1, -1, -1, -1,
   -1, -1, -1, -1, -1, -1, -1, -1, -1, -1, -1, -1, -1, -1, -1, -1]

def fEncoder : List UInt8 :=
  "ABCDEFGHIJKLMNOPQRSTUVWXYZabcdefghijklmnopqrstuvwxyz0123456789+/".toList.map
    (fun c => UInt8.ofNat c.toNat)

/-! ## Encoder -/

/-- Size of the memory for the text of `iSize` bytes and the byte that ends it. -/
def encodedSize (iSize : ℕ) : ℕ :=
  uint32 (4*(iSize/3 : ℕ) + (if iSize%3 ≠ 0 then 4 else 0) + 1)

/-- `oEncoded.write( 8, fEncoder[ oSource.read( iBits ) << iShift ] )` -/
def put (iBits iShift : ℕ) (st : IBits × OBits) : Except SirannonException (IBits × OBits) := do
  let oEncoded ← st.2.write 8 (fEncoder.getD ((st.1.read iBits).1 <<< iShift) 0).toNat
  return ((st.1.read iBits).2, oEncoded)

def putEqual (st : IBits × OBits) : Except SirannonException (IBits × OBits) := do
  let oEncoded ← st.2.write 8 '='.toNat
  return (st.1, oEncoded)

def encodeSteps : ℕ → IBits × OBits → Except SirannonException (IBits × OBits)
  | 0, st => .ok st
  | iSteps+1, st => do
    let st ← put 6 0 st
    let st ← put 6 0 st
    let st ← put 6 0 st
    let st ← put 6 0 st
    encodeSteps iSteps st

/-- The letters between the first one behind the full steps and the last `=`. -/
def encodeLast (iPad : ℕ) (st : IBits × OBits) : Except SirannonException (IBits × OBits) :=
  if iPad = 1 then do
    let st ← put 2 4 st
    putEqual st
  else do
    let st ← put 6 0 st
    put 4 2 st

def encodePad (iPad : ℕ) (st : IBits × OBits) : Except SirannonException (IBits × OBits) :=
  if 0 < iPad then do
    let st ← put 6 0 st
    let st ← encodeLast iPad st
    putEqual st
  else .ok st

def Base64Encode (pSource : Memory) (iSize : ℕ) : Except SirannonException OBits := do
  let st ← encodeSteps (iSize/3) (IBits.new pSource iSize, OBits.new (encodedSize iSize))
  let st ← encodePad (iSize - iSize/3*3) st
  st.2.write 8 0

/-- What the memory holds as a C string. -/
def text (pEncoded : OBits) : List UInt8 := pEncoded.data.takeWhile (· ≠ 0)

/-! ## Decoder -/

/-- Size of the memory for what `iSize` letters decode to. -/
def decodedSize (iSize : ℕ) : ℕ := uint32 (iSize*3) / 4 + 3 + 2

def illegal (iKey : ℕ) : SirannonException :=
  valueError ("Illegal base64 character(0x" ++ String.ofList (Nat.toDigits 16 iKey) ++ ")")

def decodeLoop (iSize : ℕ) : ℕ → IBits → OBits → Except SirannonException OBits
  | 0, _, oDecoded => .ok oDecoded
  | fuel+1, oSource, oDecoded =>
    if oSource.v < iSize then
      let iKey := (oSource.read 8).1
      let iVal := fDecoder.getD iKey (-1)
      if iVal < 0 then .error (illegal iKey)
      else do
        let oDecoded ← oDecoded.write 6 iVal.toNat
        decodeLoop iSize fuel (oSource.read 8).2 oDecoded
    else .ok oDecoded

/-- The loop that takes zero bytes off the end. -/
def trimmed (pDecoded : List UInt8) : ℕ → ℕ
  | 0 => 0
  | iSize+1 => if pDecoded.getD iSize 0 = 0 then trimmed pDecoded iSize else iSize+1

def Base64Decode (pData : Memory) (iSize : ℕ) : Except SirannonException (OBits × ℕ) := do
  let oDecoded ← decodeLoop iSize iSize (IBits.new pData iSize) (OBits.new (decodedSize iSize))
  return (oDecoded, trimmed oDecoded.data oDecoded.size)

/-! ## What the encoder writes -/

/-- The encoder has read `p` bits of `pSource` and written the letters `bs`. -/
structure Coding (pSource : Memory) (iBytes p : ℕ) (bs : List UInt8) (st : IBits × OBits) :
    Prop where
  loaded : st.1.Loaded
  pos : st.1.pos = p
  buf : st.1.buf = pSource
  holds : st.2.Holds (ofBytes bs)
  room : st.2.iBytes = iBytes
  fit : bs.length ≤ iBytes

def letter (pSource : Memory) (p iBits iShift : ℕ) : UInt8 :=
  fEncoder.getD (value (bits pSource p iBits) <<< iShift) 0

/-- The letters of `k` full groups of six bits. -/
def letters (pSource : Memory) (p : ℕ) : ℕ → List UInt8
  | 0 => []
  | k+1 => letter pSource p 6 0 :: letters pSource (p+6) k

attribute [grind =] letters

def lastLetters (pSource : Memory) (p iPad : ℕ) : List UInt8 :=
  if iPad = 1 then [letter pSource p 2 4, 61] else [letter pSource p 6 0, letter pSource (p+6) 4 2]

def padLetters (pSource : Memory) (p iPad : ℕ) : List UInt8 :=
  if 0 < iPad then letter pSource p 6 0 :: lastLetters pSource (p+6) iPad ++ [61] else []

/-- The text of `iSize` bytes. -/
def encoded (pSource : Memory) (iSize : ℕ) : List UInt8 :=
  letters pSource 0 (4*(iSize/3)) ++ padLetters pSource (24*(iSize/3)) (iSize - iSize/3*3)

variable {pSource : Memory} {iBytes p : ℕ} {bs : List UInt8} {st : IBits × OBits}

theorem ofNat_byte (b : UInt8) : ofNat 8 b.toNat = ofBytes [b] := by
  rw [ofBytes_cons, ofBytes_nil, List.append_nil]

theorem write_byte (h : Coding pSource iBytes p bs st) (b : UInt8) :
    Fits (8*(bs.length+1)) (8*iBytes) (st.2.write 8 b.toNat)
      fun o => o.Holds (ofBytes (bs++[b])) ∧ o.iBytes = iBytes := by
  have hwrite := OBits.write_fits h.holds b.toNat (show 0 < 8 by omega)
  rw [h.room, ofBytes_length, ofNat_byte, ← ofBytes_append] at hwrite
  exact hwrite

theorem put_coding (h : Coding pSource iBytes p bs st) (iBits iShift : ℕ) (hbits : iBits ≤ 32) :
    Fits (8*(bs.length+1)) (8*iBytes) (put iBits iShift st)
      (Coding pSource iBytes (p+iBits) (bs ++ [letter pSource p iBits iShift])) := by
  obtain ⟨hvalue, hloaded, hpos, hbuf, -⟩ := IBits.read_spec st.1 iBits h.loaded hbits
  rw [h.pos, h.buf] at hvalue
  rw [h.pos] at hpos
  rw [put, hvalue]
  apply fits_bind (write_byte h _) le_rfl
  intro o hroom ho
  apply fits_ok hroom
  refine ⟨hloaded, hpos, hbuf.trans h.buf, ho.1, ho.2, ?_⟩
  rw [List.length_append, List.length_singleton]
  omega

theorem putEqual_coding (h : Coding pSource iBytes p bs st) :
    Fits (8*(bs.length+1)) (8*iBytes) (putEqual st) (Coding pSource iBytes p (bs ++ [61])) := by
  rw [putEqual]
  apply fits_bind (write_byte h 61) le_rfl
  intro o hroom ho
  apply fits_ok hroom
  refine ⟨h.loaded, h.pos, h.buf, ho.1, ho.2, ?_⟩
  rw [List.length_append, List.length_singleton]
  omega

theorem letters_length (pSource : Memory) (p k : ℕ) : (letters pSource p k).length = k := by
  induction k generalizing p with
  | zero => rfl
  | succ k ih => rw [letters, List.length_cons, ih]

theorem encodeSteps_coding (iSteps : ℕ) (h : Coding pSource iBytes p bs st) :
    Fits (8*(bs.length+4*iSteps)) (8*iBytes) (encodeSteps iSteps st)
      (Coding pSource iBytes (p+24*iSteps) (bs ++ letters pSource p (4*iSteps))) := by
  induction iSteps generalizing p bs st with
  | zero =>
    have hfit := h.fit
    rw [encodeSteps]
    apply fits_ok (by omega)
    simpa [letters] using h
  | succ iSteps ih =>
    rw [encodeSteps]
    apply fits_bind (put_coding h 6 0 (by omega)) (by omega)
    intro st₁ _ h₁
    apply fits_bind (put_coding h₁ 6 0 (by omega)) (by simp; omega)
    intro st₂ _ h₂
    apply fits_bind (put_coding h₂ 6 0 (by omega)) (by simp; omega)
    intro st₃ _ h₃
    apply fits_bind (put_coding h₃ 6 0 (by omega)) (by simp; omega)
    intro st₄ _ h₄
    have hmore := ih h₄
    have hletters : letters pSource p (4*(iSteps+1)) = [letter pSource p 6 0] ++
        [letter pSource (p+6) 6 0] ++ [letter pSource (p+6+6) 6 0] ++
        [letter pSource (p+6+6+6) 6 0] ++ letters pSource (p+6+6+6+6) (4*iSteps) := rfl
    have hsize : bs.length+4*(iSteps+1) = (bs ++ [letter pSource p 6 0] ++
        [letter pSource (p+6) 6 0] ++ [letter pSource (p+6+6) 6 0] ++
        [letter pSource (p+6+6+6) 6 0]).length+4*iSteps := by
      simp only [List.length_append, List.length_singleton]
      omega
    rw [hletters, hsize, show p+24*(iSteps+1) = p+6+6+6+6+24*iSteps by omega]
    simp only [List.append_assoc] at hmore ⊢
    exact hmore

theorem encodeLast_coding (iPad : ℕ) (h : Coding pSource iBytes p bs st) :
    Fits (8*(bs.length+2)) (8*iBytes) (encodeLast iPad st)
      fun st' => ∃ q, Coding pSource iBytes q (bs ++ lastLetters pSource p iPad) st' := by
  rw [encodeLast, lastLetters]
  split_ifs with hpad
  · apply fits_bind (put_coding h 2 4 (by omega)) (by omega)
    intro st₁ _ h₁
    have hequal := putEqual_coding h₁
    rw [List.length_append, List.append_assoc] at hequal
    exact fits_imp hequal (fun st' h' => ⟨_, h'⟩)
  · apply fits_bind (put_coding h 6 0 (by omega)) (by omega)
    intro st₁ _ h₁
    have hput := put_coding h₁ 4 2 (by omega)
    rw [List.length_append, List.append_assoc] at hput
    exact fits_imp hput (fun st' h' => ⟨_, h'⟩)

theorem lastLetters_length (pSource : Memory) (p iPad : ℕ) :
    (lastLetters pSource p iPad).length = 2 := by
  rw [lastLetters]
  split_ifs <;> rfl

theorem encodePad_coding (iPad : ℕ) (h : Coding pSource iBytes p bs st) :
    Fits (8*(bs.length+(padLetters pSource p iPad).length)) (8*iBytes) (encodePad iPad st)
      fun st' => ∃ q, Coding pSource iBytes q (bs ++ padLetters pSource p iPad) st' := by
  rw [encodePad, padLetters]
  split_ifs with hpad
  · have hsize : (letter pSource p 6 0 :: lastLetters pSource (p+6) iPad ++ [61]).length = 4 := by
      simp [lastLetters_length]
    rw [hsize]
    apply fits_bind (put_coding h 6 0 (by omega)) (by omega)
    intro st₁ _ h₁
    apply fits_bind (encodeLast_coding iPad h₁) (by simp)
    rintro st₂ _ ⟨q, h₂⟩
    have hequal := putEqual_coding h₂
    have hlength : (bs ++ [letter pSource p 6 0] ++ lastLetters pSource (p+6) iPad).length =
        bs.length+3 := by
      simp [lastLetters_length]
    rw [hlength] at hequal
    apply fits_imp hequal
    intro st' h'
    refine ⟨q, ?_⟩
    simpa using h'
  · have hfit := h.fit
    apply fits_ok (by simpa using hfit)
    exact ⟨p, by simpa using h⟩

theorem encoded_length (pSource : Memory) (iSize : ℕ) :
    (encoded pSource iSize).length = 4*((iSize+2)/3) := by
  rw [encoded, List.length_append, letters_length, padLetters]
  split_ifs with hpad
  · simp only [List.length_append, List.length_cons, lastLetters_length, List.length_nil]
    omega
  · rw [List.length_nil]
    omega

theorem coding_new (pSource : Memory) (iSize iBytes : ℕ) :
    Coding pSource iBytes 0 [] (IBits.new pSource iSize, OBits.new iBytes) :=
  ⟨by simp [IBits.Loaded, IBits.new], rfl, rfl, OBits.holds_new iBytes, rfl, Nat.zero_le _⟩

/-- The encoder writes the text and a zero byte, if its memory is large enough. -/
theorem encode_fits (pSource : Memory) (iSize : ℕ) :
    Fits (8*((encoded pSource iSize).length+1)) (8*encodedSize iSize)
      (Base64Encode pSource iSize)
      fun o => o.Holds (ofBytes (encoded pSource iSize ++ [0])) ∧ o.iBytes = encodedSize iSize := by
  have hlength : (encoded pSource iSize).length = 4*(iSize/3) +
      (padLetters pSource (24*(iSize/3)) (iSize - iSize/3*3)).length := by
    rw [encoded, List.length_append, letters_length]
  rw [Base64Encode]
  have hsteps := encodeSteps_coding (iSize/3) (coding_new pSource iSize (encodedSize iSize))
  rw [List.nil_append, List.length_nil, Nat.zero_add, Nat.zero_add] at hsteps
  apply fits_bind hsteps (by omega)
  intro st₁ _ h₁
  have hpad := encodePad_coding (iSize - iSize/3*3) h₁
  rw [letters_length, ← hlength] at hpad
  apply fits_bind hpad (by omega)
  rintro st₂ _ ⟨q, h₂⟩
  exact write_byte h₂ 0

/-! ## What the letters decode to -/

def sextet (c : UInt8) : List Bool := ofNat 6 (fDecoder.getD c.toNat (-1)).toNat

theorem decodes_letters :
    fEncoder.map (fun c => fDecoder.getD c.toNat (-1)) = (List.range 64).map Nat.cast := by
  decide +kernel

theorem decodes_table (v : ℕ) (hv : v < 64) : fDecoder.getD (fEncoder.getD v 0).toNat (-1) = v := by
  have hlength := congrArg List.length decodes_letters
  simp only [List.length_map, List.length_range] at hlength
  have h := congrArg (fun l : List ℤ => l[v]?) decodes_letters
  simp only [List.getElem?_map, List.getElem?_range hv, Option.map_some] at h
  rw [List.getElem?_eq_getElem (by omega), Option.map_some] at h
  rw [List.getD_eq_getElem fEncoder 0 (by omega)]
  exact Option.some.inj h

theorem letter_decodes (pSource : Memory) (p iBits iShift : ℕ) (h : iBits+iShift = 6) :
    fDecoder.getD (letter pSource p iBits iShift).toNat (-1) =
      (value (bits pSource p iBits) <<< iShift : ℕ) := by
  apply decodes_table
  have hlt := value_lt (bits pSource p iBits)
  rw [bits_length] at hlt
  rw [Nat.shiftLeft_eq, show 64 = 2^iBits*2^iShift by rw [← pow_add, h]; rfl]
  exact (Nat.mul_lt_mul_right (Nat.two_pow_pos _)).mpr hlt

/-- A letter stands for the bits it was made of and the zero bits behind them. -/
theorem letter_sextet (pSource : Memory) (p iBits iShift : ℕ) (h : iBits+iShift = 6) :
    sextet (letter pSource p iBits iShift) =
      bits pSource p iBits ++ List.replicate iShift false := by
  have hvalue := ofNat_value (bits pSource p iBits)
  rw [bits_length] at hvalue
  rw [sextet, letter_decodes pSource p iBits iShift h, Int.toNat_natCast, ← h, ofNat_add,
    Nat.shiftLeft_eq, Nat.mul_div_cancel _ (Nat.two_pow_pos _), hvalue]
  congr 1
  rw [← ofNat_mod, Nat.mul_mod_left, ofNat_zero]

theorem letters_sextets (pSource : Memory) (p k : ℕ) :
    (letters pSource p k).flatMap sextet = bits pSource p (6*k) := by
  induction k generalizing p with
  | zero => rfl
  | succ k ih =>
    rw [letters, List.flatMap_cons, ih, letter_sextet pSource p 6 0 rfl, List.replicate_zero,
      List.append_nil, show 6*(k+1) = 6+6*k by omega, bits_add]

theorem padLetters_sextets (pSource : Memory) (p iPad : ℕ) (h : iPad < 3) :
    (padLetters pSource p iPad).flatMap sextet =
      bits pSource p (8*iPad) ++ List.replicate (8*((3-iPad)%3)) false := by
  have hequal : sextet 61 = List.replicate 6 false := by decide
  rw [padLetters, lastLetters]
  obtain rfl | rfl | rfl : iPad = 0 ∨ iPad = 1 ∨ iPad = 2 := by omega
  · simp [bits]
  · rw [if_pos (by omega), if_pos rfl]
    simp only [List.flatMap_append, List.flatMap_cons, List.flatMap_nil, hequal,
      letter_sextet pSource p 6 0 rfl, letter_sextet pSource (p+6) 2 4 rfl, List.append_nil]
    rw [show 8*1 = 6+2 by rfl, bits_add]
    simp [List.replicate]
  · rw [if_pos (by omega), if_neg (by omega)]
    simp only [List.flatMap_append, List.flatMap_cons, List.flatMap_nil, hequal,
      letter_sextet pSource p 6 0 rfl, letter_sextet pSource (p+6) 6 0 rfl,
      letter_sextet pSource (p+6+6) 4 2 rfl, List.append_nil]
    rw [show 8*2 = 6+6+4 by rfl, bits_add, bits_add]
    simp [List.replicate]

/-- Number of zero bytes the text says behind `iSize` bytes. -/
def filling (iSize : ℕ) : ℕ := (3-iSize%3)%3

theorem encoded_sextets (pSource : Memory) (iSize : ℕ) :
    (encoded pSource iSize).flatMap sextet =
      ofBytes (load pSource 0 iSize ++ List.replicate (filling iSize) 0) := by
  have hzero (n : ℕ) : ofBytes (List.replicate n 0) = List.replicate (8*n) false := by
    induction n with
    | zero => rfl
    | succ n ih =>
      rw [List.replicate_succ, ofBytes_cons, ih, Nat.mul_succ, Nat.add_comm, List.replicate_add]
      rfl
  have hmod : iSize - iSize/3*3 = iSize%3 := by omega
  rw [encoded, List.flatMap_append, letters_sextets, hmod,
    padLetters_sextets _ _ _ (Nat.mod_lt _ (by omega)), ← List.append_assoc,
    show 6*(4*(iSize/3)) = 24*(iSize/3) by omega]
  have hbits := bits_add pSource 0 (24*(iSize/3)) (8*(iSize%3))
  rw [Nat.zero_add] at hbits
  rw [← hbits, ofBytes_append, hzero, filling]
  have hload := bits_load pSource 0 iSize
  rw [Nat.mul_zero] at hload
  rw [← hload]
  congr 2
  omega

/-! ## Round trip -/

def Legal (c : UInt8) : Prop := 0 ≤ fDecoder.getD c.toNat (-1)

theorem letter_legal (pSource : Memory) (p iBits iShift : ℕ) (h : iBits+iShift = 6) :
    Legal (letter pSource p iBits iShift) := by
  rw [Legal, letter_decodes pSource p iBits iShift h]
  exact Int.natCast_nonneg _

theorem letters_legal (pSource : Memory) (p k : ℕ) : ∀ c ∈ letters pSource p k, Legal c := by
  induction k generalizing p with
  | zero => simp [letters]
  | succ k ih =>
    rw [letters]
    exact List.forall_mem_cons.mpr ⟨letter_legal pSource p 6 0 rfl, ih (p+6)⟩

theorem encoded_legal (pSource : Memory) (iSize : ℕ) :
    ∀ c ∈ encoded pSource iSize, Legal c := by
  have hequal : Legal 61 := by
    rw [Legal]
    decide
  have hsix (p : ℕ) := letter_legal pSource p 6 0 rfl
  have hfour (p : ℕ) := letter_legal pSource p 4 2 rfl
  have htwo (p : ℕ) := letter_legal pSource p 2 4 rfl
  intro c hc
  rw [encoded, List.mem_append] at hc
  rcases hc with hc | hc
  · exact letters_legal pSource _ _ c hc
  · rw [padLetters, lastLetters] at hc
    split_ifs at hc <;> simp only [List.mem_append, List.mem_cons, List.not_mem_nil, or_false] at hc
    · rcases hc with (rfl | rfl | rfl) | rfl
      exacts [hsix _, htwo _, hequal, hequal]
    · rcases hc with (rfl | rfl | rfl) | rfl
      exacts [hsix _, hsix _, hfour _, hequal]

theorem legal_ne_zero {c : UInt8} (h : Legal c) : c ≠ 0 := by
  rintro rfl
  rw [Legal] at h
  revert h
  decide

theorem text_encoded {o : OBits} (h : o.Holds (ofBytes (encoded pSource p ++ [0]))) :
    text o = encoded pSource p := by
  have hall : ∀ c ∈ encoded pSource p, decide (c ≠ 0) = true := by
    intro c hc
    exact decide_eq_true (legal_ne_zero (encoded_legal pSource p c hc))
  rw [text, OBits.data_of_holds h, List.takeWhile_append_of_pos hall]
  simp

/-- Legal letters are decoded one after the other, if the memory is large enough. -/
theorem decodeLoop_fits (cs : List UInt8) (fuel i iSize : ℕ) (oSource : IBits) (o : OBits)
    (held : List Bool) (hfuel : cs.length ≤ fuel) (hloaded : oSource.Loaded)
    (hpos : oSource.pos = 8*i) (hsize : iSize = i+cs.length)
    (hcs : load oSource.buf i cs.length = cs) (hlegal : ∀ c ∈ cs, Legal c) (ho : o.Holds held)
    (hfit : held.length ≤ 8*o.iBytes) :
    Fits (held.length+6*cs.length) (8*o.iBytes) (decodeLoop iSize fuel oSource o)
      fun o' => o'.Holds (held ++ cs.flatMap sextet) ∧ o'.iBytes = o.iBytes := by
  have hv : oSource.v = i := by
    have hlt := hloaded.1
    have hmore := hloaded.2
    rw [IBits.pos] at hpos
    omega
  induction cs generalizing fuel i oSource o held with
  | nil =>
    have hend : decodeLoop iSize fuel oSource o = .ok o := by
      cases fuel with
      | zero => rfl
      | succ fuel =>
        rw [List.length_nil] at hsize
        rw [decodeLoop, if_neg (by omega)]
    rw [hend]
    apply fits_ok (by simpa using hfit)
    exact ⟨by simpa using ho, rfl⟩
  | cons c cs ih =>
    rw [List.length_cons] at hfuel hsize hcs
    obtain ⟨fuel, rfl⟩ : ∃ f, fuel = f+1 := ⟨fuel-1, by omega⟩
    rw [load] at hcs
    obtain ⟨hc, hrest⟩ := List.cons_eq_cons.mp hcs
    obtain ⟨hvalue, hloaded', hpos', hbuf, -⟩ := IBits.read_spec oSource 8 hloaded (by omega)
    rw [hpos, bits_byte, hc, value_ofNat, Nat.mod_eq_of_lt c.toNat_lt] at hvalue
    have hlegal_c : 0 ≤ fDecoder.getD c.toNat (-1) := hlegal c (List.mem_cons_self ..)
    rw [decodeLoop, if_pos (by omega)]
    simp only [hvalue]
    rw [if_neg (by omega)]
    apply fits_bind (OBits.write_fits ho _ (show 0 < 6 by omega)) (by simp)
    rintro o₁ hroom ⟨ho₁, hbytes⟩
    have hlength : (held ++ ofNat 6 (fDecoder.getD c.toNat (-1)).toNat).length =
        held.length+6 := by
      rw [List.length_append, ofNat_length]
    have hmore := ih fuel (i+1) (oSource.read 8).2 o₁ _ (by omega) hloaded'
      (by rw [hpos', hpos]; omega) (by omega) (by rw [hbuf]; exact hrest)
      (fun d hd => hlegal d (List.mem_cons_of_mem _ hd)) ho₁ (by rw [hlength, hbytes]; exact hroom)
      (by
        have hlt := hloaded'.1
        have hv' := hloaded'.2
        rw [hpos, IBits.pos] at hpos'
        omega)
    rw [hlength, hbytes] at hmore
    rw [List.length_cons, show held.length+6*(cs.length+1) = held.length+6+6*cs.length by omega]
    apply fits_imp hmore
    rintro o' ⟨ho', hbytes'⟩
    rw [List.append_assoc] at ho'
    exact ⟨ho', hbytes'⟩

theorem trimmed_le (pDecoded : List UInt8) (iSize : ℕ) : trimmed pDecoded iSize ≤ iSize := by
  induction iSize with
  | zero => exact le_rfl
  | succ iSize ih =>
    rw [trimmed]
    split_ifs <;> omega

theorem trimmed_full (pDecoded : List UInt8) (iSize : ℕ) :
    trimmed pDecoded iSize = iSize ↔ iSize = 0 ∨ pDecoded.getD (iSize-1) 0 ≠ 0 := by
  cases iSize with
  | zero => simp [trimmed]
  | succ iSize =>
    have hle := trimmed_le pDecoded iSize
    rw [trimmed, Nat.add_sub_cancel]
    split_ifs with hzero
    · constructor
      · intro heq
        omega
      · intro h
        exact absurd hzero (h.resolve_left id)
    · simp only [true_iff]
      exact Or.inr hzero

/-- The zero bytes at the end do not count. -/
theorem trimmed_zeros (bs : List UInt8) (n : ℕ) :
    trimmed (bs ++ List.replicate n 0) (bs.length+n) =
      trimmed (bs ++ List.replicate n 0) bs.length := by
  have hzero (i : ℕ) (hi : bs.length ≤ i) : (bs ++ List.replicate n (0 : UInt8)).getD i 0 = 0 := by
    rw [List.getD_append_right _ _ _ _ hi]
    simp
  have hall (k : ℕ) : trimmed (bs ++ List.replicate n 0) (bs.length+k) =
      trimmed (bs ++ List.replicate n 0) bs.length := by
    induction k with
    | zero => rfl
    | succ k ih => rw [← Nat.add_assoc, trimmed, if_pos (hzero _ (Nat.le_add_right _ _)), ih]
  exact hall n

/-- The decoder gives the bytes and the zero bytes the text says, without all zero bytes at the
end, if its memory is large enough. -/
theorem decode_fits (pSource pData : Memory) (bs : List UInt8)
    (hsource : load pSource 0 bs.length = bs)
    (hdata : load pData 0 (encoded pSource bs.length).length = encoded pSource bs.length) :
    Fits (8*(bs.length+filling bs.length)) (8*decodedSize (encoded pSource bs.length).length)
      (Base64Decode pData (encoded pSource bs.length).length)
      fun r => r.1.data = bs ++ List.replicate (filling bs.length) 0 ∧
        r.2 = trimmed (bs ++ List.replicate (filling bs.length) 0) bs.length := by
  have hloop := decodeLoop_fits (encoded pSource bs.length) _ 0 _
    (IBits.new pData (encoded pSource bs.length).length)
    (OBits.new (decodedSize (encoded pSource bs.length).length)) [] le_rfl
    (by simp [IBits.Loaded, IBits.new]) rfl (Nat.zero_add _).symm hdata
    (encoded_legal pSource bs.length) (OBits.holds_new _) (Nat.zero_le _)
  have hbits : ([] : List Bool).length+6*(encoded pSource bs.length).length =
      8*(bs.length+filling bs.length) := by
    rw [encoded_length, filling, List.length_nil]
    omega
  rw [hbits, encoded_sextets, hsource, List.nil_append] at hloop
  rw [Base64Decode]
  apply fits_bind hloop le_rfl
  rintro o hroom ⟨ho, hbytes⟩
  apply fits_ok hroom
  have hdata' := OBits.data_of_holds ho
  refine ⟨hdata', ?_⟩
  show trimmed o.data o.size = _
  rw [← OBits.data_length, hdata', List.length_append, List.length_replicate, trimmed_zeros]

/-- Encoding `bs` and decoding the text gives `bs` again, within the memory of both. -/
def RoundTrips (pSource : Memory) (bs : List UInt8) : Prop :=
  ∃ pEncoded, Base64Encode pSource bs.length = .ok pEncoded ∧
    pEncoded.size ≤ encodedSize bs.length ∧
    ∀ pData, load pData 0 (text pEncoded).length = text pEncoded →
      ∃ pDecoded iSize, Base64Decode pData (text pEncoded).length = .ok (pDecoded, iSize) ∧
        pDecoded.size ≤ decodedSize (text pEncoded).length ∧
        iSize = bs.length ∧ pDecoded.data.take iSize = bs

theorem encodedSize_eq (n : ℕ) : encodedSize n = (4*((n+2)/3)+1) % 2^32 := by
  rw [encodedSize, uint32]
  split_ifs <;> omega

theorem decodedSize_eq (n : ℕ) : decodedSize n = n*3 % 2^32 / 4 + 5 := by
  have hmod : (n : ℤ)*3 % 2^32 = ((n*3 % 2^32 : ℕ) : ℤ) := by
    push_cast
    rfl
  rw [decodedSize, uint32, hmod, Int.toNat_natCast]

theorem last_ne_zero_iff (bs : List UInt8) (zs : List UInt8) :
    (bs.length = 0 ∨ (bs++zs).getD (bs.length-1) 0 ≠ 0) ↔ bs.getLast? ≠ some 0 := by
  cases hbs : bs.length with
  | zero =>
    obtain rfl := List.length_eq_zero_iff.mp hbs
    simp
  | succ k =>
    have hk : k < bs.length := by omega
    have hget : (bs++zs).getD k 0 = bs[k] := by
      rw [List.getD_append _ _ _ _ hk, List.getD_eq_getElem _ _ hk]
    rw [List.getLast?_eq_getElem?, hbs, Nat.add_sub_cancel, hget, List.getElem?_eq_getElem hk]
    simp

/-- Base64 loses exactly the zero bytes at the end; the sizes of the two memories are right as long
as three times the length of the text has 32 bits. -/
theorem round_trips_iff (pSource : Memory) (bs : List UInt8)
    (hsource : load pSource 0 bs.length = bs) (hsize : bs.length < 2^32) :
    RoundTrips pSource bs ↔ bs.getLast? ≠ some 0 ∧ 12*((bs.length+2)/3) < 2^32 := by
  have hencode := encode_fits pSource bs.length
  have hlength := encoded_length pSource bs.length
  have htotal : 3*((bs.length+2)/3) = bs.length+filling bs.length := by
    rw [filling]
    omega
  rw [← last_ne_zero_iff bs (List.replicate (filling bs.length) 0), ← trimmed_full]
  constructor
  · rintro ⟨pEncoded, hok, hwithin, hdecode⟩
    have hroom : (encoded pSource bs.length).length+1 ≤ encodedSize bs.length := by
      by_contra hover
      rw [Fits, if_neg (by omega), hok] at hencode
      obtain ⟨e, he⟩ := hencode
      cases he
    rw [Fits, if_pos (by omega)] at hencode
    obtain ⟨o, ho, hholds, -⟩ := hencode
    obtain rfl : pEncoded = o := Except.ok.inj (hok.symm.trans ho)
    rw [text_encoded hholds] at hdecode
    have hdata := load_store zeroed 0 (encoded pSource bs.length)
    obtain ⟨pDecoded, iSize, hdec, -, hiSize, -⟩ := hdecode _ hdata
    have hfits := decode_fits pSource _ bs hsource hdata
    rw [hdec] at hfits
    rw [Fits] at hfits
    split_ifs at hfits with hmem
    · obtain ⟨r, hr, -, htrim⟩ := hfits
      obtain rfl := Except.ok.inj hr
      rw [decodedSize_eq, hlength] at hmem
      refine ⟨?_, by omega⟩
      rw [← htrim, ← hiSize]
    · obtain ⟨e, he⟩ := hfits
      cases he
  · rintro ⟨htrim, hsmall⟩
    rw [Fits, if_pos (by rw [hlength, encodedSize_eq]; omega)] at hencode
    obtain ⟨o, ho, hholds, -⟩ := hencode
    have htext := text_encoded hholds
    refine ⟨o, ho, ?_, ?_⟩
    · rw [← OBits.data_length, OBits.data_of_holds hholds, List.length_append, hlength,
        List.length_singleton, encodedSize_eq]
      omega
    · intro pData hdata
      rw [htext] at hdata ⊢
      have hfits := decode_fits pSource pData bs hsource hdata
      rw [Fits, if_pos (by rw [decodedSize_eq, hlength]; omega)] at hfits
      obtain ⟨⟨pDecoded, iSize⟩, hok, hdec, hiSize⟩ := hfits
      refine ⟨pDecoded, iSize, hok, ?_, hiSize.trans htrim, ?_⟩
      · rw [← OBits.data_length, hdec, List.length_append, List.length_replicate, decodedSize_eq,
          hlength]
        omega
      · show List.take iSize pDecoded.data = bs
        rw [hdec, show iSize = bs.length from hiSize.trans htrim, List.take_left]

/-- The bytes `bs` at the start of a memory. -/
def memoryOf (bs : List UInt8) : Memory := fun i => bs.getD i 0

theorem round_trips_four : RoundTrips (memoryOf [0, 1, 0, 255]) [0, 1, 0, 255] := by
  apply (round_trips_iff (memoryOf [0, 1, 0, 255]) [0, 1, 0, 255] (by decide) (by decide)).mpr
  decide

/-- The two bytes 1, 0 become the text "AQA=", and that is decoded to the one byte 1. -/
theorem zero_byte_lost : ¬ RoundTrips (memoryOf [1, 0]) [1, 0] := by
  rintro ⟨pEncoded, hok, -, hdecode⟩
  have henc : (Base64Encode (memoryOf [1, 0]) 2).map text = .ok [65, 81, 65, 61] := by
    decide +kernel
  rw [show Base64Encode (memoryOf [1, 0]) 2 = .ok pEncoded from hok] at henc
  have htext : text pEncoded = [65, 81, 65, 61] := Except.ok.inj henc
  rw [htext] at hdecode
  obtain ⟨pDecoded, iSize, hdec, -, hsize, -⟩ := hdecode (memoryOf [65, 81, 65, 61]) (by decide)
  have hone : (Base64Decode (memoryOf [65, 81, 65, 61]) 4).map Prod.snd = .ok 1 := by
    decide +kernel
  rw [show Base64Decode (memoryOf [65, 81, 65, 61]) 4 = .ok (pDecoded, iSize) from hdec] at hone
  have hsnd : iSize = 1 := Except.ok.inj hone
  rw [hsnd] at hsize
  cases hsize

end Sirannon.Base64
