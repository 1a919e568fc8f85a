import Sirannon.BlockHash
import Sirannon.BitString

/-!
# SHA-256

The digest of a message that comes in pieces. The context keeps the bytes that
do not fill a block, and counts the bytes it has hashed in 32 bits; the length
behind the message has 64, of which the upper ones are always zero.
-/

set_option autoImplicit false

namespace Sirannon.Sha2
open ByteMemory BitString BlockHash

abbrev Bytes := List UInt8

def SHA256_BLOCK_SIZE : ℕ := 64

def SHA256_DIGEST_SIZE : ℕ := 32

/-! ## One block -/

def SHFR (x n : UInt32) : UInt32 := x >>> n

def ROTR (x n : UInt32) : UInt32 := (x >>> n) ||| (x <<< (32-n))

def CH (x y z : UInt32) : UInt32 := (x &&& y) ^^^ (~~~x &&& z)

def MAJ (x y z : UInt32) : UInt32 := (x &&& y) ^^^ (x &&& z) ^^^ (y &&& z)

def SHA256_F1 (x : UInt32) : UInt32 := ROTR x 2 ^^^ ROTR x 13 ^^^ ROTR x 22

def SHA256_F2 (x : UInt32) : UInt32 := ROTR x 6 ^^^ ROTR x 11 ^^^ ROTR x 25

def SHA256_F3 (x : UInt32) : UInt32 := ROTR x 7 ^^^ ROTR x 18 ^^^ SHFR x 3

def SHA256_F4 (x : UInt32) : UInt32 := ROTR x 17 ^^^ ROTR x 19 ^^^ SHFR x 10

def sha256_k : List UInt32 :=
  [0x428a2f98, 0x71374491, 0xb5c0fbcf, 0xe9b5dba5, 0x3956c25b, 0x59f111f1, 0x923f82a4, 0xab1c5ed5,
   0xd807aa98, 0x12835b01, 0x243185be, 0x550c7dc3, 0x72be5d74, 0x80deb1fe, 0x9bdc06a7, 0xc19bf174,
   0xe49b69c1, 0xefbe4786, 0x0fc19dc6, 0x240ca1cc, 0x2de92c6f, 0x4a7484aa, 0x5cb0a9dc, 0x76f988da,
   0x983e5152, 0xa831c66d, 0xb00327c8, 0xbf597fc7, 0xc6e00bf3, 0xd5a79147, 0x06ca6351, 0x14292967,
   0x27b70a85, 0x2e1b2138, 0x4d2c6dfc, 0x53380d13, 0x650a7354, 0x766a0abb, 0x81c2c92e, 0x92722c85,
   0xa2bfe8a1, 0xa81a664b, 0xc24b8b70, 0xc76c51a3, 0xd192e819, 0xd6990624, 0xf40e3585, 0x106aa070,
   0x19a4c116, 0x1e376c08, 0x2748774c, 0x34b0bcb5, 0x391c0cb3, 0x4ed8aa4a, 0x5b9cca4f, 0x682e6ff3,
   0x748f82ee, 0x78a5636f, 0x84c87814, 0x8cc70208, 0x90befffa, 0xa4506ceb, 0xbef9a3f7, 0xc67178f2]

/-- The eight words of `h` and of `wv`. -/
structure Words where
  a : UInt32
  b : UInt32
  c : UInt32
  d : UInt32
  e : UInt32
  f : UInt32
  g : UInt32
  h : UInt32
deriving DecidableEq

def sha256_h0 : Words :=
  ⟨0x6a09e667, 0xbb67ae85, 0x3c6ef372, 0xa54ff53a, 0x510e527f, 0x9b05688c, 0x1f83d9ab, 0x5be0cd19⟩

def PACK32 (str : Bytes) : UInt32 :=
  (str.getD 3 0).toUInt32 ||| (str.getD 2 0).toUInt32 <<< 8 ||| (str.getD 1 0).toUInt32 <<< 16 |||
    (str.getD 0 0).toUInt32 <<< 24

def UNPACK32 (x : UInt32) : Bytes := [(x >>> 24).toUInt8, (x >>> 16).toUInt8, (x >>> 8).toUInt8, x.toUInt8]

def SHA256_SCR (w : List UInt32) (i : ℕ) : List UInt32 :=
  w ++ [SHA256_F4 (w.getD (i-2) 0) + w.getD (i-7) 0 + SHA256_F3 (w.getD (i-15) 0) + w.getD (i-16) 0]

/-- The words of a block, and those made of them. -/
def schedule (sub_block : Bytes) : List UInt32 :=
  (List.range' 16 48).foldl SHA256_SCR ((List.range 16).map fun j => PACK32 (sub_block.drop (4*j)))

def round (wv : Words) (kw : UInt32 × UInt32) : Words :=
  let t1 := wv.h + SHA256_F2 wv.e + CH wv.e wv.f wv.g + kw.1 + kw.2
  let t2 := SHA256_F1 wv.a + MAJ wv.a wv.b wv.c
  ⟨t1+t2, wv.a, wv.b, wv.c, wv.d+t1, wv.e, wv.f, wv.g⟩

def Words.add (x y : Words) : Words :=
  ⟨x.a+y.a, x.b+y.b, x.c+y.c, x.d+y.d, x.e+y.e, x.f+y.f, x.g+y.g, x.h+y.h⟩

@[irreducible] def transfBlock (h : Words) (sub_block : Bytes) : Words :=
  h.add ((sha256_k.zip (schedule sub_block)).foldl round h)

def sha256_transf (h : Words) (message : Bytes) : ℕ → Words
  | 0 => h
  | block_nb+1 =>
    sha256_transf (transfBlock h (message.take SHA256_BLOCK_SIZE)) (message.drop SHA256_BLOCK_SIZE) block_nb

/-! ## The context -/

structure sha256_ctx where
  tot_len : ℕ
  len : ℕ
  block : Memory
  h : Words

/-- The block is not set. -/
def sha256_init (block : Memory) : sha256_ctx := ⟨0, 0, block, sha256_h0⟩

/-- So much of a message goes to the block that is kept. -/
def sha256_ctx.rem_len (ctx : sha256_ctx) (message : Bytes) : ℕ :=
  let tmp_len := SHA256_BLOCK_SIZE-ctx.len
  if message.length < tmp_len then message.length else tmp_len

def sha256_update (ctx : sha256_ctx) (message : Bytes) : sha256_ctx :=
  let rem_len := ctx.rem_len message
  let block := store ctx.block ctx.len (message.take rem_len)
  if (ctx.len+message.length)%2^32 < SHA256_BLOCK_SIZE then
    { ctx with block := block, len := (ctx.len+message.length)%2^32 }
  else
    let new_len := message.length-rem_len
    let block_nb := new_len/SHA256_BLOCK_SIZE
    let shifted_message := message.drop rem_len
    let h := sha256_transf ctx.h (load block 0 SHA256_BLOCK_SIZE) 1
    { tot_len := (ctx.tot_len+(block_nb+1)*2^6)%2^32
      len := new_len%SHA256_BLOCK_SIZE
      block := store block 0 ((shifted_message.drop (block_nb*2^6)).take (new_len%SHA256_BLOCK_SIZE))
      h := sha256_transf h shifted_message block_nb }

def Words.unpack (h : Words) : Bytes :=
  [h.a, h.b, h.c, h.d, h.e, h.f, h.g, h.h].flatMap UNPACK32

def sha256_ctx.block_nb (ctx : sha256_ctx) : ℕ :=
  if SHA256_BLOCK_SIZE-9 < ctx.len%SHA256_BLOCK_SIZE then 2 else 1

/-- The block with the end of the message, a one, zeros and the length. -/
def sha256_ctx.last (ctx : sha256_ctx) (pm_len len_b : ℕ) : Memory :=
  store (store (store ctx.block ctx.len (List.replicate (pm_len-ctx.len) 0)) ctx.len [0x80]) (pm_len-4)
    (UNPACK32 (UInt32.ofNat len_b))

def sha256_final (ctx : sha256_ctx) : Bytes × sha256_ctx :=
  let pm_len := ctx.block_nb*2^6
  let block := ctx.last pm_len ((ctx.tot_len+ctx.len)*2^3%2^32)
  let h := sha256_transf ctx.h (load block 0 pm_len) ctx.block_nb
  (h.unpack, { ctx with block := block, h := h })

def sha256 (block : Memory) (message : Bytes) : Bytes :=
  (sha256_final (sha256_update (sha256_init block) message)).1

/-! ## The digest of a message -/

/-- The least number of zeros with which the message ends with a block. -/
def zeros (len : ℕ) : ℕ := (119-len%64)%64

def padding (len : ℕ) : Bytes := 0x80 :: List.replicate (zeros len) 0 ++ pack (ofNat 64 (8*len))

/-- The digest of a message, padded and hashed block by block. -/
def digest (m : Bytes) : Bytes :=
  (absorb 64 transfBlock ((m++padding m.length).length/64) sha256_h0 (m++padding m.length)).unpack

theorem transf_absorb (block_nb : ℕ) (h : Words) (m : Bytes) :
    sha256_transf h m block_nb = absorb 64 transfBlock block_nb h m := by
  induction block_nb generalizing h m with
  | zero => rfl
  | succ block_nb ih => rw [sha256_transf, ih, absorb, SHA256_BLOCK_SIZE]

theorem padding_length (len : ℕ) : (padding len).length = zeros len+9 := by
  have hpack := pack_length 8 (ofNat 64 (8*len)) (by rw [ofNat_length])
  rw [padding, List.length_append, List.length_cons, List.length_replicate, hpack]

/-- A message is padded to the end of a block: the one it ends in, or the next one. -/
theorem padded_length (m : Bytes) : (m++padding m.length).length =
    (m.length/64+(if 55 < m.length%64 then 2 else 1))*64 := by
  have hsplit := Nat.div_add_mod' m.length 64
  have hmod := Nat.mod_lt m.length (show 0 < 64 by decide)
  rw [List.length_append, padding_length, zeros]
  split_ifs <;> omega

/-! ## Pieces -/

/-- The context behind a message. -/
structure Behind (ctx : sha256_ctx) (m : Bytes) : Prop where
  hash : ctx.h = (behind 64 transfBlock sha256_h0 m).hash
  kept : Stored ctx.block 0 (behind 64 transfBlock sha256_h0 m).kept
  len : ctx.len = m.length%64
  total : ctx.tot_len = m.length/64*64

theorem init_behind (block : Memory) : Behind (sha256_init block) [] := by
  have hnil := behind_nil (n := 64) (f := transfBlock) sha256_h0
  constructor
  · rw [hnil]
    rfl
  · rw [hnil]
    rfl
  · rfl
  · rfl

variable {ctx : sha256_ctx} {m x : Bytes}

theorem short_next (h : Behind ctx m) (hshort : m.length%64+x.length < 64) :
    Behind (sha256_update ctx x) (m++x) := by
  have hsplit := Nat.div_add_mod' m.length 64
  have hbehind := behind_short (f := transfBlock) sha256_h0 m x hshort
  have hkept := kept_length (n := 64) (f := transfBlock) sha256_h0 m
  have hlen : (ctx.len+x.length)%2^32 = m.length%64+x.length := by
    rw [h.len]
    exact Nat.mod_eq_of_lt (by omega)
  have hrem : ctx.rem_len x = x.length := by
    rw [sha256_ctx.rem_len, h.len]
    exact if_pos (by rw [SHA256_BLOCK_SIZE]; omega)
  have hnext : sha256_update ctx x =
      { ctx with block := store ctx.block ctx.len x, len := m.length%64+x.length } := by
    simp only [sha256_update, SHA256_BLOCK_SIZE, hlen, hrem, if_pos hshort, List.take_length]
  rw [hnext]
  constructor
  · rw [hbehind]
    exact h.hash
  · rw [hbehind, h.len]
    apply stored_append.mpr
    rw [hkept, Nat.zero_add]
    refine ⟨?_, stored_store _ _ _⟩
    rw [Stored, load_store_below _ _ _ _ _ (by omega)]
    exact h.kept
  · show m.length%64+x.length = (m++x).length%64
    rw [List.length_append]
    omega
  · show ctx.tot_len = (m++x).length/64*64
    rw [h.total, List.length_append]
    omega

/-- The bytes that are kept and the first ones of the message make a block. -/
theorem block_filled (h : Behind ctx m) (hfull : 64 ≤ m.length%64+x.length) :
    load (store ctx.block ctx.len (x.take (64-m.length%64))) 0 64 =
      (behind 64 transfBlock sha256_h0 m).kept ++ x.take (64-m.length%64) := by
  have hmod := Nat.mod_lt m.length (show 0 < 64 by decide)
  have hkept := kept_length (n := 64) (f := transfBlock) sha256_h0 m
  have htake : (x.take (64-m.length%64)).length = 64-m.length%64 := by
    rw [List.length_take]
    omega
  have hstored := h.kept
  rw [Stored, hkept] at hstored
  have hextend := load_store_extend ctx.block (m.length%64) (x.take (64-m.length%64))
  rw [htake, hstored, show m.length%64+(64-m.length%64) = 64 by omega] at hextend
  rw [h.len]
  exact hextend

theorem full_next (h : Behind ctx m) (hroom : m.length+x.length < 2^32)
    (hfull : 64 ≤ m.length%64+x.length) : Behind (sha256_update ctx x) (m++x) := by
  have hmod := Nat.mod_lt m.length (show 0 < 64 by decide)
  have hsplit := Nat.div_add_mod' m.length 64
  have hbehind := behind_full (show 0 < 64 by decide) (f := transfBlock) sha256_h0 m x hfull
  have hkept := kept_length (n := 64) (f := transfBlock) sha256_h0 m
  have hblock := block_filled h hfull
  have hlen : (ctx.len+x.length)%2^32 = m.length%64+x.length := by
    rw [h.len]
    exact Nat.mod_eq_of_lt (by omega)
  have hrem : ctx.rem_len x = 64-m.length%64 := by
    rw [sha256_ctx.rem_len, h.len]
    exact if_neg (by rw [SHA256_BLOCK_SIZE]; omega)
  have hdrop : (x.drop (64-m.length%64)).length = x.length-(64-m.length%64) := List.length_drop
  rw [Buffer.update, hkept, if_neg (by omega)] at hbehind
  simp only [hdrop] at hbehind
  have hrest : ((x.drop (64-m.length%64)).drop ((x.length-(64-m.length%64))/64*64)).take
      ((x.length-(64-m.length%64))%64) =
        (x.drop (64-m.length%64)).drop ((x.length-(64-m.length%64))/64*64) := by
    apply List.take_of_length_le
    rw [List.length_drop, hdrop]
    omega
  have hwhole : ((behind 64 transfBlock sha256_h0 m).kept ++ x.take (64-m.length%64)).take 64 =
      (behind 64 transfBlock sha256_h0 m).kept ++ x.take (64-m.length%64) := by
    apply List.take_of_length_le
    rw [List.length_append, hkept, List.length_take]
    omega
  have hnext : sha256_update ctx x =
      { tot_len := (ctx.tot_len+((x.length-(64-m.length%64))/64+1)*64)%2^32
        len := (x.length-(64-m.length%64))%64
        block := store (store ctx.block ctx.len (x.take (64-m.length%64))) 0
          ((x.drop (64-m.length%64)).drop ((x.length-(64-m.length%64))/64*64))
        h := absorb 64 transfBlock ((x.length-(64-m.length%64))/64)
          (transfBlock ctx.h ((behind 64 transfBlock sha256_h0 m).kept ++ x.take (64-m.length%64)))
          (x.drop (64-m.length%64)) } := by
    simp only [sha256_update, SHA256_BLOCK_SIZE, hlen, hrem, if_neg (Nat.not_lt.mpr hfull), hblock,
      transf_absorb, absorb, show 2^6 = 64 from rfl, hrest, hwhole]
  rw [hnext]
  constructor
  · rw [hbehind, h.hash]
  · rw [hbehind]
    show Stored (store (store ctx.block ctx.len _) 0 _) 0 _
    exact stored_store _ _ _
  · show (x.length-(64-m.length%64))%64 = (m++x).length%64
    rw [List.length_append]
    omega
  · show (ctx.tot_len+((x.length-(64-m.length%64))/64+1)*64)%2^32 = (m++x).length/64*64
    rw [h.total, List.length_append]
    omega

theorem next_behind (h : Behind ctx m) (hroom : m.length+x.length < 2^32) :
    Behind (sha256_update ctx x) (m++x) := by
  by_cases hshort : m.length%64+x.length < 64
  · exact short_next h hshort
  · exact full_next h hroom (Nat.le_of_not_lt hshort)

theorem pieces_behind {pieces : List Bytes} (h : Behind ctx m)
    (hroom : m.length+pieces.flatten.length < 2^32) :
    Behind (pieces.foldl sha256_update ctx) (m++pieces.flatten) := by
  induction pieces generalizing ctx m with
  | nil => simpa using h
  | cons x pieces ih =>
    rw [List.flatten_cons, List.length_append] at hroom
    rw [List.foldl_cons, List.flatten_cons, ← List.append_assoc]
    apply ih (next_behind h (by omega))
    rw [List.length_append]
    omega

/-! ## The last blocks -/

theorem pack_field (w n : ℕ) : pack (ofNat (8*(w+1)) n) = UInt8.ofNat (n/2^(8*w)) :: pack (ofNat (8*w) n) := by
  rw [show 8*(w+1) = 8+8*w by omega, ofNat_add, pack_byte _ _ (ofNat_length _ _), value_ofNat]
  congr 1
  apply UInt8.toNat_inj.mp
  simp

theorem shifted_byte (x s : UInt32) (hs : s.toNat < 32) :
    (x >>> s).toUInt8 = UInt8.ofNat (x.toNat/2^s.toNat) := by
  apply UInt8.toNat_inj.mp
  rw [UInt32.toNat_toUInt8, UInt32.toNat_shiftRight, Nat.mod_eq_of_lt hs, Nat.shiftRight_eq_div_pow,
    UInt8.toNat_ofNat']

theorem unpack_eq (x : UInt32) : UNPACK32 x = pack (ofNat 32 x.toNat) := by
  have hlast : x.toUInt8 = UInt8.ofNat (x.toNat/2^(8*0)) := by
    apply UInt8.toNat_inj.mp
    simp
  rw [show 32 = 8*(3+1) from rfl, pack_field, pack_field 2, pack_field 1, pack_field 0, ← hlast]
  rw [UNPACK32, shifted_byte x 24 (by decide), shifted_byte x 16 (by decide), shifted_byte x 8 (by decide)]
  rfl

/-- The low half of the length, as the code writes it. -/
theorem length_field {n : ℕ} (hn : n < 2^32) : pack (ofNat 64 n) =
    List.replicate 4 0 ++ UNPACK32 (UInt32.ofNat n) := by
  have hhigh : n/2^32 = 0 := Nat.div_eq_of_lt hn
  have hzero : pack (ofNat 32 0) = List.replicate 4 0 := by
    decide
  rw [show 64 = 32+32 from rfl, ofNat_add, hhigh, pack_append 4 _ _ (ofNat_length 32 0), hzero, unpack_eq,
    UInt32.toNat_ofNat_of_lt' hn]

theorem stored_below {M : Memory} {off p : ℕ} {xs : Bytes} (bs : Bytes) (h : Stored M p xs)
    (hle : p+xs.length ≤ off) : Stored (store M off bs) p xs := by
  rw [Stored, load_store_below _ _ _ _ _ hle]
  exact h

theorem stored_above {M : Memory} {off p : ℕ} {xs : Bytes} (bs : Bytes) (h : Stored M p xs)
    (hle : off+bs.length ≤ p) : Stored (store M off bs) p xs := by
  rw [Stored, load_store_above _ _ _ _ _ hle]
  exact h

/-- So many blocks are hashed last. -/
def lastBlocks (len : ℕ) : ℕ := if 55 < len%64 then 2 else 1

theorem last_stored (h : Behind ctx m) (hroom : 8*m.length < 2^32) :
    Stored (ctx.last (lastBlocks m.length*64) (8*m.length)) 0
      ((behind 64 transfBlock sha256_h0 m).kept ++ padding m.length) := by
  have hmod := Nat.mod_lt m.length (show 0 < 64 by decide)
  have hkept := kept_length (n := 64) (f := transfBlock) sha256_h0 m
  have hend : m.length%64+1+(zeros m.length+4) = lastBlocks m.length*64-4 := by
    rw [zeros, lastBlocks]
    split_ifs <;> omega
  have hpadding : padding m.length = [0x80] ++ (List.replicate (zeros m.length+4) 0 ++
      UNPACK32 (UInt32.ofNat (8*m.length))) := by
    rw [padding, length_field hroom, List.replicate_add, List.append_assoc]
    rfl
  have hzeros : Stored (store ctx.block ctx.len (List.replicate (lastBlocks m.length*64-ctx.len) 0))
      (m.length%64+1) (List.replicate (zeros m.length+4) 0) := by
    have hall := stored_store ctx.block ctx.len (List.replicate (lastBlocks m.length*64-ctx.len) 0)
    have hsplit : lastBlocks m.length*64-ctx.len = 1+((zeros m.length+4)+4) := by
      rw [h.len]
      omega
    rw [hsplit] at hall ⊢
    rw [List.replicate_add 1, List.replicate_add _ 4] at hall
    rw [List.replicate_add 1, List.replicate_add _ 4]
    have hbehind := (stored_append.mp (stored_append.mp hall).2).1
    rw [List.length_replicate, h.len] at hbehind
    rwa [h.len]
  have hstart : Stored ctx.block 0 (behind 64 transfBlock sha256_h0 m).kept := h.kept
  rw [hpadding]
  apply stored_append.mpr
  rw [hkept, Nat.zero_add]
  constructor
  · apply stored_below _ _ (by rw [hkept]; omega)
    apply stored_below _ _ (by rw [hkept, h.len]; omega)
    exact stored_below _ hstart (by rw [hkept, h.len]; omega)
  apply stored_append.mpr
  constructor
  · apply stored_below _ _ (by rw [List.length_singleton]; omega)
    rw [← h.len]
    exact stored_store _ _ _
  apply stored_append.mpr
  constructor
  · apply stored_below _ _ (by rw [List.length_replicate, List.length_singleton]; omega)
    exact stored_above _ hzeros (by rw [h.len, List.length_singleton])
  · rw [List.length_singleton, List.length_replicate, hend]
    exact stored_store _ _ _

/-- The digest is that of the padded message. -/
theorem final_digest (h : Behind ctx m) (hroom : 8*m.length < 2^32) :
    (sha256_final ctx).1 = digest m := by
  have hmod := Nat.mod_lt m.length (show 0 < 64 by decide)
  have hsplit := Nat.div_add_mod' m.length 64
  have hpadded := padded_length m
  have hblocks : ctx.block_nb = lastBlocks m.length := by
    rw [sha256_ctx.block_nb, SHA256_BLOCK_SIZE, h.len, lastBlocks, Nat.mod_mod]
  have hlen : (ctx.tot_len+ctx.len)*2^3%2^32 = 8*m.length := by
    rw [h.total, h.len]
    omega
  have hlength : ((behind 64 transfBlock sha256_h0 m).kept ++ padding m.length).length =
      lastBlocks m.length*64 := by
    rw [List.length_append, kept_length]
    rw [List.length_append] at hpadded
    rw [lastBlocks]
    omega
  have hload := last_stored h hroom
  rw [Stored, hlength] at hload
  have hbehind := absorb_behind (n := 64) (f := transfBlock) sha256_h0 m (padding m.length) hpadded
  rw [Nat.add_sub_cancel_left] at hbehind
  have hfinal : (sha256_final ctx).1 = (absorb 64 transfBlock (lastBlocks m.length) ctx.h
      (load (ctx.last (lastBlocks m.length*64) (8*m.length)) 0 (lastBlocks m.length*64))).unpack := by
    simp only [sha256_final, hblocks, hlen, transf_absorb, show 2^6 = 64 from rfl]
  rw [hfinal, hload, h.hash, digest, hpadded, Nat.mul_div_cancel _ (show 0 < 64 by decide), hbehind]
  rfl

theorem sha256_digest (block : Memory) {m : Bytes} (h : m.length < 2^29) : sha256 block m = digest m := by
  have hbehind := next_behind (init_behind block) (x := m) (by rw [List.length_nil]; omega)
  rw [List.nil_append] at hbehind
  exact final_digest hbehind (by omega)

/-- Into whatever pieces a message of less than half a gigabyte is cut, its digest is the same. -/
theorem sha256_pieces (block : Memory) (pieces : List Bytes) (h : pieces.flatten.length < 2^29) :
    (sha256_final (pieces.foldl sha256_update (sha256_init block))).1 = digest pieces.flatten := by
  have hroom : ([] : Bytes).length+pieces.flatten.length < 2^32 := by
    rw [List.length_nil]
    omega
  have hbehind := pieces_behind (init_behind block) hroom
  rw [List.nil_append] at hbehind
  exact final_digest hbehind (by omega)

/-- Three bytes in two pieces. -/
theorem sha256_pieces_two :
    (sha256_final ([[0x61], [0x62, 0x63]].foldl sha256_update (sha256_init zeroed))).1 =
      digest [0x61, 0x62, 0x63] :=
  sha256_pieces zeroed [[0x61], [0x62, 0x63]] (by decide)

example : sha256 zeroed [0x61, 0x62, 0x63] =
    [0xba, 0x78, 0x16, 0xbf, 0x8f, 0x01, 0xcf, 0xea, 0x41, 0x41, 0x40, 0xde, 0x5d, 0xae, 0x22, 0x23,
     0xb0, 0x03, 0x61, 0xa3, 0x96, 0x17, 0x7a, 0x9c, 0xb4, 0x10, 0xff, 0x61, 0xf2, 0x00, 0x15, 0xad] := by
  decide +kernel

end Sirannon.Sha2
