import Sirannon.Bits

/-!
# RTMP handshake

Each side sends a block of 1536 bytes and answers the block of the other one.
In the cryptographic handshake four of the random bytes choose where in the
block its digest stands, and the digest is the key to the answer. Here two
endpoints of this program talk to each other; the hash function is arbitrary.
-/

set_option autoImplicit false

namespace Sirannon.RTMP.Handshake
open BitString ByteMemory Bits

abbrev Bytes := List UInt8

abbrev HANDSHAKE_SIZE : ℕ := 1536

/-- A hash has 32 bytes. -/
structure Digest where
  bytes : Bytes
  size : bytes.length = 32

def GENUINE_FMS_KEY : Bytes := [
  0x47, 0x65, 0x6e, 0x75, 0x69, 0x6e, 0x65, 0x20,
  0x41, 0x64, 0x6f, 0x62, 0x65, 0x20, 0x46, 0x6c,
  0x61, 0x73, 0x68, 0x20, 0x4d, 0x65, 0x64, 0x69,
  0x61, 0x20, 0x53, 0x65, 0x72, 0x76, 0x65, 0x72,
  0x20, 0x30, 0x30, 0x31,
  0xf0, 0xee, 0xc2, 0x4a, 0x80, 0x68, 0xbe, 0xe8,
  0x2e, 0x00, 0xd0, 0xd1, 0x02, 0x9e, 0x7e, 0x57,
  0x6e, 0xec, 0x5d, 0x2d, 0x29, 0x80, 0x6f, 0xab,
  0x93, 0xb8, 0xe6, 0x36, 0xcf, 0xeb, 0x31, 0xae]

def GENUINE_FP_KEY : Bytes := [
  0x47, 0x65, 0x6e, 0x75, 0x69, 0x6e, 0x65, 0x20, 0x41, 0x64, 0x6f, 0x62, 0x65, 0x20,
  0x46, 0x6c, 0x61, 0x73, 0x68, 0x20, 0x50, 0x6c, 0x61, 0x79, 0x65, 0x72, 0x20, 0x30, 0x30, 0x31,
  0xF0, 0xEE, 0xC2, 0x4A, 0x80, 0x68, 0xBE, 0xE8, 0x2E, 0x00, 0xD0, 0xD1, 0x02,
  0x9E, 0x7E, 0x57, 0x6E, 0xEC, 0x5D, 0x2D, 0x29, 0x80, 0x6F, 0xAB, 0x93, 0xB8,
  0xE6, 0x36, 0xCF, 0xEB, 0x31, 0xAE]

/-! ## Digests -/

def getDigestOffset1 (pBuffer : Memory) : ℕ :=
  ((pBuffer 8).toNat+(pBuffer 9).toNat+(pBuffer 10).toNat+(pBuffer 11).toNat)%728+12

def getDigestOffset2 (pBuffer : Memory) : ℕ :=
  ((pBuffer 772).toNat+(pBuffer 773).toNat+(pBuffer 774).toNat+(pBuffer 775).toNat)%728+776

def getDigestOffset (pBuffer : Memory) (iScheme : ℤ) : ℕ :=
  if iScheme = 1 then getDigestOffset1 pBuffer
  else if iScheme = 2 then getDigestOffset2 pBuffer
  else 0

/-- `pLocal`: the block without the 32 bytes of the digest. -/
def spliced (pBuffer : Memory) (iOffset : ℕ) : Bytes :=
  load pBuffer 0 iOffset ++ load pBuffer (iOffset+32) (HANDSHAKE_SIZE-32-iOffset)

/-- The bytes `oRandom` delivers. -/
def random (next : ℕ → UInt8) (n : ℕ) : Bytes := (List.range n).map next

section
variable (hmac_sha256 : Bytes → Bytes → Digest)

def insertDigest (pKey : Bytes) (pBuffer : Memory) (iScheme : ℤ) : Memory :=
  if 0 < iScheme then
    let iOffset := getDigestOffset pBuffer iScheme
    store pBuffer iOffset (hmac_sha256 pKey (spliced pBuffer iOffset)).bytes
  else pBuffer

def validateScheme (pKey : Bytes) (pBuffer : Memory) (iTestScheme : ℤ) : Bool :=
  let iOffset := if iTestScheme = 1 then getDigestOffset1 pBuffer else getDigestOffset2 pBuffer
  load pBuffer iOffset 32 = (hmac_sha256 pKey (spliced pBuffer iOffset)).bytes

/-- The digest of the challenge is hashed to a key, and the response with that key. -/
def responseHash (pKey : Bytes) (pChallenge : Memory) (iScheme : ℤ) (pResponse : Memory) :
    Digest :=
  let iOffset := getDigestOffset pChallenge iScheme
  let oCryptoKey := hmac_sha256 pKey (load pChallenge iOffset 32)
  hmac_sha256 oCryptoKey.bytes (load pResponse 0 (HANDSHAKE_SIZE-32))

def cryptoResponse (pKey : Bytes) (next : ℕ → UInt8) (pChallenge : Memory) (iScheme : ℤ)
    (pBuffer : Memory) : Memory :=
  let pResponse := store pBuffer 0 (random next (HANDSHAKE_SIZE-32))
  store pResponse (HANDSHAKE_SIZE-32)
    (responseHash hmac_sha256 pKey pChallenge iScheme pResponse).bytes

def validateResponse (pKey : Bytes) (pChallenge : Memory) (iScheme : ℤ) (pResponse : Memory) :
    Bool :=
  if 0 < iScheme then
    (responseHash hmac_sha256 pKey pChallenge iScheme pResponse).bytes =
      load pResponse (HANDSHAKE_SIZE-32) 32
  else load pResponse 8 (HANDSHAKE_SIZE-8) = load pChallenge 8 (HANDSHAKE_SIZE-8)

end

/-! ## Handshake -/

structure RTMPHandshake where
  C1 : Memory
  S1 : Memory
  C2 : Memory
  S2 : Memory
  iClientScheme : ℤ
  iServerScheme : ℤ

namespace RTMPHandshake
variable (hmac_sha256 : Bytes → Bytes → Digest)

def generateC1 (bCrypto : Bool) (iTime : ℕ) (next : ℕ → UInt8) (h : RTMPHandshake) :
    Except SirannonException RTMPHandshake := do
  let iClientScheme : ℤ := if bCrypto then 2 else 0
  let oBuffer ← (OBits.new HANDSHAKE_SIZE).writes ((32, iTime)::
    if 0 < iClientScheme then [(8, 0x80), (8, 0x00), (8, 0x03), (8, 0x02)] else [(32, 0)])
  let C1 := store (store h.C1 0 oBuffer.data) 8 (random next (HANDSHAKE_SIZE-8))
  return { h with
    iClientScheme := iClientScheme
    C1 := insertDigest hmac_sha256 (GENUINE_FP_KEY.take 30) C1 iClientScheme }

def validateC1Scheme : Memory → ℤ → Bool := validateScheme hmac_sha256 (GENUINE_FP_KEY.take 30)

def validateC1 (pC1 : Memory) (h : RTMPHandshake) : ℤ × RTMPHandshake :=
  let h := { h with C1 := store h.C1 0 (load pC1 0 HANDSHAKE_SIZE) }
  if pC1 4 = 0 then (0, { h with iClientScheme := 0 })
  else if validateC1Scheme hmac_sha256 pC1 2 then (2, { h with iClientScheme := 2 })
  else if validateC1Scheme hmac_sha256 pC1 1 then (1, { h with iClientScheme := 1 })
  else (-1, h)

def generateS1 (pC1 : Memory) (iTime : ℕ) (next : ℕ → UInt8) (h : RTMPHandshake) :
    Except SirannonException RTMPHandshake :=
  let validated := h.validateC1 hmac_sha256 pC1
  if validated.1 < 0 then .error (valueError "Illegal C1 Handshake bytes")
  else do
    let h := validated.2
    let iServerScheme := h.iClientScheme
    let oBuffer ← (OBits.new HANDSHAKE_SIZE).writes [(32, iTime)]
    let version : Bytes := if 0 < iServerScheme then [0x03, 0x05, 0x02, 0x01] else [0, 0, 0, 0]
    let S1 := store (store (store h.S1 0 oBuffer.data) 4 version) 8
      (random next (HANDSHAKE_SIZE-8))
    return { h with
      iServerScheme := iServerScheme
      S1 := insertDigest hmac_sha256 (GENUINE_FMS_KEY.take 36) S1 iServerScheme }

def validateS1Scheme : Memory → ℤ → Bool := validateScheme hmac_sha256 (GENUINE_FMS_KEY.take 36)

/-- The second test is for servers that send the version 1.2.3.4 without a digest. -/
def validateS1 (pS1 : Memory) (h : RTMPHandshake) : ℤ × RTMPHandshake :=
  let h := { h with S1 := store h.S1 0 (load pS1 0 HANDSHAKE_SIZE) }
  let iServerScheme : ℤ :=
    if h.S1 4 = 0 then 0
    else if h.S1 4 = 1 ∧ h.S1 5 = 2 ∧ h.S1 6 = 3 ∧ h.S1 7 = 4 then 0
    else if validateS1Scheme hmac_sha256 pS1 2 then 2
    else if validateS1Scheme hmac_sha256 pS1 1 then 1
    else -1
  (iServerScheme, { h with iServerScheme := iServerScheme })

def generateS2 (next : ℕ → UInt8) (h : RTMPHandshake) : Memory × RTMPHandshake :=
  if 0 < h.iClientScheme then
    let S2 := cryptoResponse hmac_sha256 (GENUINE_FMS_KEY.take 68) next h.C1 h.iClientScheme h.S2
    (S2, { h with S2 := S2 })
  else (h.C1, h)

/-- An illegal block only causes a warning. -/
def generateC2 (pS1 : Memory) (next : ℕ → UInt8) (h : RTMPHandshake) : Memory × RTMPHandshake :=
  let h := (h.validateS1 hmac_sha256 pS1).2
  if 0 < h.iServerScheme then
    let C2 := cryptoResponse hmac_sha256 (GENUINE_FP_KEY.take 62) next h.S1 h.iServerScheme h.C2
    (C2, { h with C2 := C2 })
  else (h.S1, h)

def validateC2 (C2 : Memory) (h : RTMPHandshake) : Bool :=
  validateResponse hmac_sha256 (GENUINE_FP_KEY.take 62) h.S1 h.iServerScheme C2

def validateS2 (S2 : Memory) (h : RTMPHandshake) : Bool :=
  validateResponse hmac_sha256 (GENUINE_FMS_KEY.take 68) h.C1 h.iClientScheme S2

end RTMPHandshake

/-! ## The exchange -/

/-- A block is received in front of whatever the buffer held. -/
def receiveFromSocket (pBuffer pBlock : Memory) : Memory :=
  store pBuffer 0 (load pBlock 0 HANDSHAKE_SIZE)

structure Outcome where
  client : RTMPHandshake
  server : RTMPHandshake
  bC2 : Bool
  bS2 : Bool

/-- The random bytes and clocks of both sides, and what their receive buffers hold. -/
structure Surroundings where
  iTimeC1 : ℕ
  iTimeS1 : ℕ
  nextC1 : ℕ → UInt8
  nextS1 : ℕ → UInt8
  nextS2 : ℕ → UInt8
  nextC2 : ℕ → UInt8
  atClient : Memory
  atServer : Memory

/-- The answers to the blocks, and what the other side makes of them. -/
def answers (hmac_sha256 : Bytes → Bytes → Digest) (e : Surroundings) (atServer : Memory)
    (client server : RTMPHandshake) : Outcome :=
  let generatedS2 := server.generateS2 hmac_sha256 e.nextS2
  let atClient := receiveFromSocket e.atClient server.S1
  let generatedC2 := client.generateC2 hmac_sha256 atClient e.nextC2
  { client := generatedC2.2
    server := generatedS2.2
    bC2 := generatedS2.2.validateC2 hmac_sha256 (receiveFromSocket atServer generatedC2.1)
    bS2 := generatedC2.2.validateS2 hmac_sha256 (receiveFromSocket atClient generatedS2.1) }

def handshake (hmac_sha256 : Bytes → Bytes → Digest) (bCrypto : Bool) (e : Surroundings)
    (client server : RTMPHandshake) : Except SirannonException Outcome := do
  let client ← client.generateC1 hmac_sha256 bCrypto e.iTimeC1 e.nextC1
  let atServer := receiveFromSocket e.atServer client.C1
  let server ← server.generateS1 hmac_sha256 atServer e.iTimeS1 e.nextS1
  return answers hmac_sha256 e atServer client server

/-! ## Where a digest stands -/

/-- The first of the four bytes that choose the place of the digest. -/
def choosing (iScheme : ℤ) : ℕ := if iScheme = 1 then 8 else 772

/-- The digest lies behind the version and does not touch the bytes that choose its place. -/
structure Placed (pBuffer : Memory) (iScheme : ℤ) : Prop where
  first : 8 ≤ getDigestOffset pBuffer iScheme
  last : getDigestOffset pBuffer iScheme+32 ≤ HANDSHAKE_SIZE
  apart : choosing iScheme+4 ≤ getDigestOffset pBuffer iScheme

theorem offset1_bounds (p : Memory) :
    12 ≤ getDigestOffset1 p ∧ getDigestOffset1 p+32 ≤ HANDSHAKE_SIZE := by
  rw [getDigestOffset1, HANDSHAKE_SIZE]
  omega

theorem offset2_bounds (p : Memory) :
    776 ≤ getDigestOffset2 p ∧ getDigestOffset2 p+32 ≤ HANDSHAKE_SIZE := by
  rw [getDigestOffset2, HANDSHAKE_SIZE]
  omega

theorem offset_one (p : Memory) : getDigestOffset p 1 = getDigestOffset1 p := rfl

theorem offset_two (p : Memory) : getDigestOffset p 2 = getDigestOffset2 p := rfl

theorem placed (p : Memory) {iScheme : ℤ} (h : iScheme = 1 ∨ iScheme = 2) : Placed p iScheme := by
  rcases h with rfl | rfl
  · have hbounds := offset1_bounds p
    rw [← offset_one] at hbounds
    exact ⟨by omega, hbounds.2, hbounds.1⟩
  · have hbounds := offset2_bounds p
    rw [← offset_two] at hbounds
    exact ⟨by omega, hbounds.2, hbounds.1⟩

/-! ## Equal blocks -/

/-- The two buffers hold the same block. -/
def Same (p q : Memory) : Prop := ∀ i < HANDSHAKE_SIZE, p i = q i

section
variable {p q : Memory}

theorem same_symm (h : Same p q) : Same q p := fun i hi => (h i hi).symm

theorem same_trans {r : Memory} (h : Same p q) (h' : Same q r) : Same p r :=
  fun i hi => (h i hi).trans (h' i hi)

theorem same_load (h : Same p q) {off n : ℕ} (hle : off+n ≤ HANDSHAKE_SIZE) :
    load p off n = load q off n :=
  load_congr p q off n fun i _ hi => h i (by omega)

theorem same_store (p q : Memory) : Same (store p 0 (load q 0 HANDSHAKE_SIZE)) q := by
  intro i hi
  have hinside := store_inside p 0 i (load q 0 HANDSHAKE_SIZE) (by rw [load_length]; exact hi)
  rw [Nat.zero_add, load_getElem, Nat.zero_add] at hinside
  exact hinside

theorem same_received (p q : Memory) : Same (receiveFromSocket p q) q := same_store p q

theorem same_offset (h : Same p q) (iScheme : ℤ) :
    getDigestOffset p iScheme = getDigestOffset q iScheme := by
  have h1 : getDigestOffset1 p = getDigestOffset1 q := by
    rw [getDigestOffset1, getDigestOffset1, h 8 (by decide), h 9 (by decide), h 10 (by decide),
      h 11 (by decide)]
  have h2 : getDigestOffset2 p = getDigestOffset2 q := by
    rw [getDigestOffset2, getDigestOffset2, h 772 (by decide), h 773 (by decide),
      h 774 (by decide), h 775 (by decide)]
  rw [getDigestOffset, getDigestOffset, h1, h2]

end

/-! ## Digests are found again -/

section
variable {hmac_sha256 : Bytes → Bytes → Digest} {pKey : Bytes} {p q : Memory}

theorem inserted_below {iScheme : ℤ} {i : ℕ}
    (hi : 0 < iScheme → i < getDigestOffset p iScheme) :
    insertDigest hmac_sha256 pKey p iScheme i = p i := by
  rw [insertDigest]
  split
  case isTrue hpos => exact store_below p _ i _ (hi hpos)
  case isFalse => rfl

variable (hmac_sha256) (pKey) in
/-- Inserting the digest does not change its place. -/
theorem inserted_offset (p : Memory) : getDigestOffset2 (insertDigest hmac_sha256 pKey p 2) =
    getDigestOffset2 p := by
  have hkept : ∀ i < 776, insertDigest hmac_sha256 pKey p 2 i = p i := by
    intro i hi
    have hbounds := offset2_bounds p
    exact inserted_below fun _ => by
      rw [offset_two]
      omega
  rw [getDigestOffset2, hkept 772 (by decide), hkept 773 (by decide), hkept 774 (by decide),
    hkept 775 (by decide), ← getDigestOffset2]

theorem spliced_store {off : ℕ} (p : Memory) (d : Digest) :
    spliced (store p off d.bytes) off = spliced p off := by
  rw [spliced, load_store_below p off off 0 d.bytes (by omega),
    load_store_above p off _ (off+32) d.bytes (by rw [d.size]), ← spliced]

theorem inserted_valid (p : Memory) :
    validateScheme hmac_sha256 pKey (insertDigest hmac_sha256 pKey p 2) 2 = true := by
  have hoffset := inserted_offset hmac_sha256 pKey p
  have htwo : ¬ (2 : ℤ) = 1 := by decide
  rw [validateScheme, decide_eq_true_eq]
  simp only [if_neg htwo, hoffset]
  rw [insertDigest, if_pos (by decide), offset_two, spliced_store]
  have hload := load_store p (getDigestOffset2 p)
    (hmac_sha256 pKey (spliced p (getDigestOffset2 p))).bytes
  rwa [(hmac_sha256 pKey (spliced p (getDigestOffset2 p))).size] at hload

theorem same_valid (h : Same p q) (hvalid : validateScheme hmac_sha256 pKey p 2 = true) :
    validateScheme hmac_sha256 pKey q 2 = true := by
  have hbounds := offset2_bounds q
  have hoffset : getDigestOffset2 p = getDigestOffset2 q := same_offset h 2
  have htwo : ¬ (2 : ℤ) = 1 := by decide
  rw [validateScheme, decide_eq_true_eq] at hvalid ⊢
  simp only [if_neg htwo, hoffset] at hvalid ⊢
  rw [spliced, same_load h (by omega), same_load h (by omega), same_load h (by omega),
    ← spliced] at hvalid
  exact hvalid

end

/-! ## Answers -/

section
variable {hmac_sha256 : Bytes → Bytes → Digest} {pKey : Bytes} {p q : Memory} {iScheme : ℤ}

theorem random_length (next : ℕ → UInt8) (n : ℕ) : (random next n).length = n := by
  rw [random, List.length_map, List.length_range]

theorem same_responseHash (h : Same p q) (hscheme : getDigestOffset p iScheme+32 ≤ HANDSHAKE_SIZE)
    {r t : Memory} (hr : load r 0 (HANDSHAKE_SIZE-32) = load t 0 (HANDSHAKE_SIZE-32)) :
    responseHash hmac_sha256 pKey p iScheme r = responseHash hmac_sha256 pKey q iScheme t := by
  simp only [responseHash]
  rw [same_load h hscheme, same_offset h iScheme, hr]

/-- The other side computes the hash that was sent. -/
theorem response_valid (h : Same p q) (hscheme : getDigestOffset p iScheme+32 ≤ HANDSHAKE_SIZE)
    (hpos : 0 < iScheme) {next : ℕ → UInt8} {own r : Memory}
    (hr : Same r (cryptoResponse hmac_sha256 pKey next p iScheme own)) :
    validateResponse hmac_sha256 pKey q iScheme r = true := by
  have hrandom := load_store own 0 (random next (HANDSHAKE_SIZE-32))
  rw [random_length] at hrandom
  have hfront : load r 0 (HANDSHAKE_SIZE-32) =
      load (store own 0 (random next (HANDSHAKE_SIZE-32))) 0 (HANDSHAKE_SIZE-32) := by
    rw [same_load hr (by omega), cryptoResponse]
    exact load_store_below _ _ _ 0 _ (by omega)
  rw [validateResponse, if_pos hpos, decide_eq_true_eq, same_load hr (by omega), cryptoResponse,
    ← same_responseHash h hscheme hfront.symm]
  have hback := load_store (store own 0 (random next (HANDSHAKE_SIZE-32))) (HANDSHAKE_SIZE-32)
    (responseHash hmac_sha256 pKey p iScheme
      (store own 0 (random next (HANDSHAKE_SIZE-32)))).bytes
  rw [Digest.size] at hback
  exact hback.symm

/-- In the plain handshake the answer is the block itself. -/
theorem echo_valid {r : Memory} (hzero : ¬ 0 < iScheme) (hr : Same r q) :
    validateResponse hmac_sha256 pKey q iScheme r = true := by
  rw [validateResponse, if_neg hzero, decide_eq_true_eq]
  exact same_load hr (by decide)

end

/-! ## Blocks -/

section
variable {hmac_sha256 : Bytes → Bytes → Digest} {h : RTMPHandshake}

/-- The scheme both sides use. -/
def scheme (bCrypto : Bool) : ℤ := if bCrypto then 2 else 0

/-- A block of a scheme: the fifth byte tells whether there is a digest, and it is valid. -/
structure IsBlock (hmac_sha256 : Bytes → Bytes → Digest) (pKey : Bytes) (bCrypto : Bool)
    (p : Memory) : Prop where
  plain : bCrypto = false → p 4 = 0
  crypto : bCrypto = true → p 4 ≠ 0 ∧ p 4 ≠ 1 ∧ validateScheme hmac_sha256 pKey p 2 = true

theorem isBlock_same {pKey : Bytes} {bCrypto : Bool} {p q : Memory} (h : Same p q)
    (hp : IsBlock hmac_sha256 pKey bCrypto p) : IsBlock hmac_sha256 pKey bCrypto q := by
  have h4 := h 4 (by decide)
  constructor
  · rw [← h4]
    exact hp.plain
  · intro hcrypto
    rw [← h4]
    exact ⟨(hp.crypto hcrypto).1, (hp.crypto hcrypto).2.1, same_valid h (hp.crypto hcrypto).2.2⟩

/-- A block is ready once its version is, because the digest stands behind it. -/
theorem isBlock_inserted {pKey : Bytes} {bCrypto : Bool} {p : Memory}
    (hplain : bCrypto = false → p 4 = 0) (hcrypto : bCrypto = true → p 4 ≠ 0 ∧ p 4 ≠ 1) :
    IsBlock hmac_sha256 pKey bCrypto (insertDigest hmac_sha256 pKey p (scheme bCrypto)) := by
  have h4 : insertDigest hmac_sha256 pKey p (scheme bCrypto) 4 = p 4 := by
    apply inserted_below
    intro hpos
    have hscheme : scheme bCrypto = 2 := by
      cases bCrypto
      · cases hpos
      · rfl
    have hbounds := offset2_bounds p
    rw [hscheme, offset_two]
    omega
  constructor
  · rw [h4]
    exact hplain
  · intro hc
    rw [h4]
    refine ⟨(hcrypto hc).1, (hcrypto hc).2, ?_⟩
    rw [hc]
    exact inserted_valid p

/-- The fifth byte of a block is the first one of its version. -/
theorem fifth_byte (m : Memory) (b : UInt8) (version filling : Bytes) :
    store (store m 4 (b::version)) 8 filling 4 = b := by
  rw [store_below _ _ _ _ (by decide)]
  exact store_inside m 4 0 (b::version) (Nat.succ_pos _)

/-- The time takes the first four bytes. -/
theorem time_written (iTime : ℕ) {rest : List (ℕ × ℕ)} {n : ℕ}
    (hlen : (rest.map Prod.fst).sum = 8*n) (hn : n ≤ 4) (hpos : ∀ f ∈ rest, 0 < f.1) :
    ∃ o front, (OBits.new HANDSHAKE_SIZE).writes ((32, iTime)::rest) = .ok o ∧
      o.data = front ++ pack (fieldBits rest) ∧ front.length = 4 := by
  have hall : ∀ f ∈ (32, iTime)::rest, 0 < f.1 := by
    intro f hf
    rcases List.mem_cons.mp hf with rfl | hf
    · exact Nat.succ_pos 31
    · exact hpos f hf
  have hsum : (((32, iTime)::rest).map Prod.fst).sum = 8*(n+4) := by
    rw [List.map_cons, List.sum_cons, hlen]
    omega
  rcases OBits.writes_new ((32, iTime)::rest) hsum (show n+4 ≤ HANDSHAKE_SIZE by
    rw [HANDSHAKE_SIZE]
    omega) hall with ⟨o, ho, hbits, -⟩
  have htime : (ofNat 32 iTime).length = 8*4 := ofNat_length 32 iTime
  refine ⟨o, pack (ofNat 32 iTime), ho, ?_, pack_length 4 _ htime⟩
  rw [← pack_append 4 _ _ htime, ← pack_ofBytes o.data, hbits]
  rfl

variable (hmac_sha256) in
theorem generateC1_run (bCrypto : Bool) (iTime : ℕ) (next : ℕ → UInt8) (h : RTMPHandshake) :
    ∃ h', h.generateC1 hmac_sha256 bCrypto iTime next = .ok h' ∧
      h'.iClientScheme = scheme bCrypto ∧
      IsBlock hmac_sha256 (GENUINE_FP_KEY.take 30) bCrypto h'.C1 := by
  rcases time_written iTime (show (((if 0 < scheme bCrypto then
      [(8, 0x80), (8, 0x00), (8, 0x03), (8, 0x02)] else [(32, 0)]) : List (ℕ × ℕ)).map
        Prod.fst).sum = 8*4 by cases bCrypto <;> rfl) le_rfl (by cases bCrypto <;> decide) with
    ⟨o, front, ho, hdata, hfront⟩
  have hversion : ∃ b version, pack (fieldBits (if 0 < scheme bCrypto then
      [(8, 0x80), (8, 0x00), (8, 0x03), (8, 0x02)] else [(32, 0)])) = b::version ∧
      (bCrypto = false → b = 0) ∧ (bCrypto = true → b ≠ 0 ∧ b ≠ 1) := by
    cases bCrypto
    · exact ⟨0, [0, 0, 0], by decide, by simp, by simp⟩
    · exact ⟨0x80, [0, 3, 2], by decide, by simp, by decide⟩
  rcases hversion with ⟨b, version, hbytes, hplain, hcrypto⟩
  have hfifth : store (store h.C1 0 (front ++ b::version)) 8
      (random next (HANDSHAKE_SIZE-8)) 4 = b := by
    rw [store_append, hfront]
    exact fifth_byte _ b version _
  refine ⟨{ h with
    iClientScheme := scheme bCrypto
    C1 := insertDigest hmac_sha256 (GENUINE_FP_KEY.take 30)
      (store (store h.C1 0 (front ++ b::version)) 8 (random next (HANDSHAKE_SIZE-8)))
      (scheme bCrypto) }, ?_, rfl, isBlock_inserted ?_ ?_⟩
  · rw [RTMPHandshake.generateC1, ← scheme]
    simp only [ho, bind, Except.bind, pure, Except.pure, hdata, hbytes]
  · rw [hfifth]
    exact hplain
  · rw [hfifth]
    exact hcrypto

theorem validateC1_run {bCrypto : Bool} {pC1 : Memory}
    (hblock : IsBlock hmac_sha256 (GENUINE_FP_KEY.take 30) bCrypto pC1) (h : RTMPHandshake) :
    h.validateC1 hmac_sha256 pC1 = (scheme bCrypto, { h with
      C1 := store h.C1 0 (load pC1 0 HANDSHAKE_SIZE)
      iClientScheme := scheme bCrypto }) := by
  rw [RTMPHandshake.validateC1]
  cases bCrypto with
  | false => simp only [if_pos (hblock.plain rfl), scheme, Bool.false_eq_true, if_false]
  | true =>
    rcases hblock.crypto rfl with ⟨hzero, -, hvalid⟩
    have hscheme : RTMPHandshake.validateC1Scheme hmac_sha256 pC1 2 = true := hvalid
    simp only [if_neg hzero, hscheme, if_true, scheme]

theorem generateS1_run {bCrypto : Bool} {pC1 : Memory}
    (hblock : IsBlock hmac_sha256 (GENUINE_FP_KEY.take 30) bCrypto pC1) (iTime : ℕ)
    (next : ℕ → UInt8) (h : RTMPHandshake) :
    ∃ h', h.generateS1 hmac_sha256 pC1 iTime next = .ok h' ∧
      h'.iClientScheme = scheme bCrypto ∧ h'.iServerScheme = scheme bCrypto ∧
      Same h'.C1 pC1 ∧ IsBlock hmac_sha256 (GENUINE_FMS_KEY.take 36) bCrypto h'.S1 := by
  rcases time_written iTime (n := 0) (show (([] : List (ℕ × ℕ)).map Prod.fst).sum = 8*0 by rfl)
    (by decide) (by simp) with ⟨o, front, ho, hdata, hfront⟩
  have hversion : ∃ b version, (if 0 < scheme bCrypto then [0x03, 0x05, 0x02, 0x01]
      else [0, 0, 0, 0] : Bytes) = b::version ∧
      (bCrypto = false → b = 0) ∧ (bCrypto = true → b ≠ 0 ∧ b ≠ 1) := by
    cases bCrypto
    · exact ⟨0, [0, 0, 0], rfl, by simp, by simp⟩
    · exact ⟨0x03, [0x05, 0x02, 0x01], rfl, by simp, by decide⟩
  rcases hversion with ⟨b, version, hbytes, hplain, hcrypto⟩
  have hfifth : store (store (store h.S1 0 o.data) 4 (b::version)) 8
      (random next (HANDSHAKE_SIZE-8)) 4 = b := fifth_byte _ b version _
  refine ⟨{ h with
    C1 := store h.C1 0 (load pC1 0 HANDSHAKE_SIZE)
    iClientScheme := scheme bCrypto
    iServerScheme := scheme bCrypto
    S1 := insertDigest hmac_sha256 (GENUINE_FMS_KEY.take 36)
      (store (store (store h.S1 0 o.data) 4 (b::version)) 8 (random next (HANDSHAKE_SIZE-8)))
      (scheme bCrypto) }, ?_, rfl, rfl, same_store _ _, isBlock_inserted ?_ ?_⟩
  · have hlegal : ¬ scheme bCrypto < 0 := by
      cases bCrypto <;> decide
    rw [RTMPHandshake.generateS1, validateC1_run hblock]
    simp only [if_neg hlegal, ho, bind, Except.bind, pure, Except.pure, hbytes]
  · rw [hfifth]
    exact hplain
  · rw [hfifth]
    exact hcrypto

theorem validateS1_run {bCrypto : Bool} {pS1 : Memory}
    (hblock : IsBlock hmac_sha256 (GENUINE_FMS_KEY.take 36) bCrypto pS1) (h : RTMPHandshake) :
    (h.validateS1 hmac_sha256 pS1).2 = { h with
      S1 := store h.S1 0 (load pS1 0 HANDSHAKE_SIZE)
      iServerScheme := scheme bCrypto } := by
  have h4 := same_store h.S1 pS1 4 (by decide)
  rw [RTMPHandshake.validateS1]
  cases bCrypto with
  | false =>
    rw [hblock.plain rfl] at h4
    simp only [if_pos h4, scheme, Bool.false_eq_true, if_false]
  | true =>
    rcases hblock.crypto rfl with ⟨hzero, hone, hvalid⟩
    rw [← h4] at hzero hone
    have hscheme : RTMPHandshake.validateS1Scheme hmac_sha256 pS1 2 = true := hvalid
    simp only [if_neg hzero, hone, false_and, if_false, hscheme, if_true, scheme]

theorem scheme_placed {bCrypto : Bool} (hcrypto : 0 < scheme bCrypto) (p : Memory) :
    getDigestOffset p (scheme bCrypto)+32 ≤ HANDSHAKE_SIZE := by
  apply (placed p _).last
  cases bCrypto
  · cases hcrypto
  · exact Or.inr rfl

/-- The client accepts the answer of the server to its block `q`. -/
theorem generateS2_valid {bCrypto : Bool} (hscheme : h.iClientScheme = scheme bCrypto)
    {next : ℕ → UInt8} {q m : Memory} (hq : Same h.C1 q)
    (hm : Same m (h.generateS2 hmac_sha256 next).1) :
    validateResponse hmac_sha256 (GENUINE_FMS_KEY.take 68) q (scheme bCrypto) m = true := by
  rw [RTMPHandshake.generateS2, hscheme] at hm
  by_cases hcrypto : 0 < scheme bCrypto
  · rw [if_pos hcrypto] at hm
    exact response_valid hq (scheme_placed hcrypto h.C1) hcrypto hm
  · rw [if_neg hcrypto] at hm
    exact echo_valid hcrypto (same_trans hm hq)

variable (hmac_sha256) in
/-- The answer leaves alone what the second validation needs. -/
theorem generateS2_kept (next : ℕ → UInt8) (h : RTMPHandshake) :
    (h.generateS2 hmac_sha256 next).2.S1 = h.S1 ∧
      (h.generateS2 hmac_sha256 next).2.iClientScheme = h.iClientScheme ∧
      (h.generateS2 hmac_sha256 next).2.iServerScheme = h.iServerScheme := by
  rw [RTMPHandshake.generateS2]
  split
  · exact ⟨rfl, rfl, rfl⟩
  · exact ⟨rfl, rfl, rfl⟩

/-- The server accepts the answer of the client to its block `q`. -/
theorem generateC2_valid {bCrypto : Bool} {pS1 : Memory}
    (hblock : IsBlock hmac_sha256 (GENUINE_FMS_KEY.take 36) bCrypto pS1)
    {next : ℕ → UInt8} {q m : Memory} (hq : Same pS1 q)
    (hm : Same m (h.generateC2 hmac_sha256 pS1 next).1) :
    validateResponse hmac_sha256 (GENUINE_FP_KEY.take 62) q (scheme bCrypto) m = true := by
  have hcopy := same_trans (same_store h.S1 pS1) hq
  rw [RTMPHandshake.generateC2, validateS1_run hblock] at hm
  by_cases hcrypto : 0 < scheme bCrypto
  · simp only [if_pos hcrypto] at hm
    exact response_valid hcopy (scheme_placed hcrypto _) hcrypto hm
  · simp only [if_neg hcrypto] at hm
    exact echo_valid hcrypto (same_trans hm hcopy)

theorem generateC2_kept {bCrypto : Bool} {pS1 : Memory}
    (hblock : IsBlock hmac_sha256 (GENUINE_FMS_KEY.take 36) bCrypto pS1) (next : ℕ → UInt8)
    (h : RTMPHandshake) :
    (h.generateC2 hmac_sha256 pS1 next).2.C1 = h.C1 ∧
      (h.generateC2 hmac_sha256 pS1 next).2.iClientScheme = h.iClientScheme ∧
      (h.generateC2 hmac_sha256 pS1 next).2.iServerScheme = scheme bCrypto := by
  rw [RTMPHandshake.generateC2, validateS1_run hblock]
  by_cases hcrypto : 0 < scheme bCrypto
  · simp only [if_pos hcrypto, and_self]
  · simp only [if_neg hcrypto, and_self]

end

/-! ## Success -/

/-- Between two endpoints of this program the handshake raises no error and both answers are
found valid; both sides use the scheme of the client. -/
theorem handshake_succeeds (hmac_sha256 : Bytes → Bytes → Digest) (bCrypto : Bool)
    (e : Surroundings) (client server : RTMPHandshake) :
    ∃ o, handshake hmac_sha256 bCrypto e client server = .ok o ∧ o.bC2 = true ∧ o.bS2 = true ∧
      o.client.iClientScheme = scheme bCrypto ∧ o.client.iServerScheme = scheme bCrypto ∧
      o.server.iClientScheme = scheme bCrypto ∧ o.server.iServerScheme = scheme bCrypto ∧
      ∀ p iScheme, iScheme = 1 ∨ iScheme = 2 → Placed p iScheme := by
  rcases generateC1_run hmac_sha256 bCrypto e.iTimeC1 e.nextC1 client with
    ⟨client₁, hC1, hclient, hblockC1⟩
  rcases generateS1_run (isBlock_same (same_symm (same_received e.atServer client₁.C1)) hblockC1)
    e.iTimeS1 e.nextS1 server with ⟨server₁, hS1, hserver, hserver', hsame, hblockS1⟩
  have hblockS1' := isBlock_same (same_symm (same_received e.atClient server₁.S1)) hblockS1
  rcases generateS2_kept hmac_sha256 e.nextS2 server₁ with ⟨hkept₁, hkept₂, hkept₃⟩
  rcases generateC2_kept hblockS1' e.nextC2 client₁ with ⟨hkept₄, hkept₅, hkept₆⟩
  refine ⟨answers hmac_sha256 e (receiveFromSocket e.atServer client₁.C1) client₁ server₁, ?_, ?_,
    ?_, hkept₅.trans hclient, hkept₆, hkept₂.trans hserver, hkept₃.trans hserver',
    fun p iScheme => placed p⟩
  · simp only [handshake, hC1, hS1, bind, Except.bind, pure, Except.pure]
  · simp only [answers, RTMPHandshake.validateC2]
    rw [hkept₁, hkept₃, hserver']
    exact generateC2_valid hblockS1' (same_received e.atClient server₁.S1) (same_received _ _)
  · simp only [answers, RTMPHandshake.validateS2]
    rw [hkept₄, hkept₅, hclient]
    exact generateS2_valid hserver (same_trans hsame (same_received e.atServer client₁.C1))
      (same_received _ _)

end Sirannon.RTMP.Handshake
