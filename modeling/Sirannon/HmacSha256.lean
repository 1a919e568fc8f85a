import Sirannon.Sha256

/-!
# HMAC with SHA-256

The key goes in front of the message, masked, and in front of the digest of
both. What the contexts are behind the key is put aside, so that the next
message under the same key starts from there.
-/

set_option autoImplicit false

namespace Sirannon.Sha2
open ByteMemory BitString BlockHash

structure hmac_sha256_ctx where
  ctx_inside : sha256_ctx
  ctx_outside : sha256_ctx
  ctx_inside_reinit : sha256_ctx
  ctx_outside_reinit : sha256_ctx
  block_ipad : Memory
  block_opad : Memory

/-- The key that is used: a long one is hashed. -/
def keyUsed (block : Memory) (key : Bytes) : Bytes :=
  if SHA256_BLOCK_SIZE < key.length then sha256 block key else key

/-- A block of the key, masked; what the key does not fill has the mask alone. -/
def masked (pad : Memory) (iMask : UInt8) (key : Bytes) : Memory :=
  let fill := SHA256_BLOCK_SIZE-key.length
  let pad := if key.length = SHA256_BLOCK_SIZE then pad else store pad key.length (List.replicate fill iMask)
  store pad 0 (key.map fun b => b ^^^ iMask)

/-- `block` is what the stack holds when a long key is hashed. -/
def hmac_sha256_init (block : Memory) (ctx : hmac_sha256_ctx) (key : Bytes) : hmac_sha256_ctx :=
  let block_ipad := masked ctx.block_ipad 0x36 (keyUsed block key)
  let block_opad := masked ctx.block_opad 0x5c (keyUsed block key)
  let ctx_inside := sha256_update (sha256_init ctx.ctx_inside.block) (load block_ipad 0 SHA256_BLOCK_SIZE)
  let ctx_outside := sha256_update (sha256_init ctx.ctx_outside.block) (load block_opad 0 SHA256_BLOCK_SIZE)
  ⟨ctx_inside, ctx_outside, ctx_inside, ctx_outside, block_ipad, block_opad⟩

def hmac_sha256_reinit (ctx : hmac_sha256_ctx) : hmac_sha256_ctx :=
  { ctx with ctx_inside := ctx.ctx_inside_reinit, ctx_outside := ctx.ctx_outside_reinit }

def hmac_sha256_update (ctx : hmac_sha256_ctx) (message : Bytes) : hmac_sha256_ctx :=
  { ctx with ctx_inside := sha256_update ctx.ctx_inside message }

/-- At most the 32 bytes of a digest are copied out. -/
def hmac_sha256_final (ctx : hmac_sha256_ctx) (mac_size : Fin (SHA256_DIGEST_SIZE+1)) :
    Bytes × hmac_sha256_ctx :=
  let inside := sha256_final ctx.ctx_inside
  let outside := sha256_final (sha256_update ctx.ctx_outside inside.1)
  (outside.1.take mac_size, { ctx with ctx_inside := inside.2, ctx_outside := outside.2 })

/-- Messages under one key, each in pieces, one after the other. -/
def sessions (mac_size : Fin (SHA256_DIGEST_SIZE+1)) : hmac_sha256_ctx → List (List Bytes) → List Bytes
  | _, [] => []
  | ctx, pieces::messages =>
    let mac := hmac_sha256_final (pieces.foldl hmac_sha256_update ctx) mac_size
    mac.1 :: sessions mac_size (hmac_sha256_reinit mac.2) messages

/-! ## The code of a message -/

def blockKey (key : Bytes) : Bytes := if 64 < key.length then digest key else key

def mask (iMask : UInt8) (key : Bytes) : Bytes :=
  (key ++ List.replicate (64-key.length) 0).map fun b => b ^^^ iMask

def hmac (key m : Bytes) : Bytes :=
  digest (mask 0x5c (blockKey key) ++ digest (mask 0x36 (blockKey key) ++ m))

theorem digest_length (m : Bytes) : (digest m).length = 32 := rfl

theorem blockKey_length (key : Bytes) : (blockKey key).length ≤ 64 := by
  rw [blockKey]
  split_ifs with hlong
  · rw [digest_length]
    decide
  · omega

theorem mask_length {key : Bytes} (iMask : UInt8) (h : key.length ≤ 64) : (mask iMask key).length = 64 := by
  rw [mask, List.length_map, List.length_append, List.length_replicate]
  omega

theorem keyUsed_eq (block : Memory) {key : Bytes} (h : key.length < 2^29) : keyUsed block key = blockKey key := by
  rw [keyUsed, blockKey, SHA256_BLOCK_SIZE, sha256_digest block h]

theorem masked_load (pad : Memory) (iMask : UInt8) {key : Bytes} (h : key.length ≤ 64) :
    load (masked pad iMask key) 0 SHA256_BLOCK_SIZE = mask iMask key := by
  have hstored : Stored (masked pad iMask key) 0 (mask iMask key) := by
    rw [mask, List.map_append, List.map_replicate, UInt8.zero_xor]
    apply stored_append.mpr
    rw [Nat.zero_add]
    refine ⟨stored_store _ _ _, ?_⟩
    rw [masked, SHA256_BLOCK_SIZE]
    apply stored_above _ _ (by simp)
    rw [List.length_map]
    by_cases hfull : key.length = 64
    · rw [hfull]
      rfl
    · rw [if_neg hfull]
      exact stored_store _ _ _
  rw [Stored, mask_length iMask h] at hstored
  exact hstored

/-! ## Messages under one key -/

/-- What is put aside for the next message. -/
structure Keyed (ctx : hmac_sha256_ctx) (key : Bytes) : Prop where
  inside : Behind ctx.ctx_inside_reinit (mask 0x36 (blockKey key))
  outside : Behind ctx.ctx_outside_reinit (mask 0x5c (blockKey key))

/-- The contexts stand behind the key. -/
structure Ready (ctx : hmac_sha256_ctx) (key : Bytes) : Prop extends Keyed ctx key where
  ctx_inside : ctx.ctx_inside = ctx.ctx_inside_reinit
  ctx_outside : ctx.ctx_outside = ctx.ctx_outside_reinit

theorem mask_behind (block pad : Memory) (iMask : UInt8) {key : Bytes} (h : key.length ≤ 64) :
    Behind (sha256_update (sha256_init block) (load (masked pad iMask key) 0 SHA256_BLOCK_SIZE))
      (mask iMask key) := by
  have hlength := mask_length iMask h
  have hbehind := next_behind (init_behind block) (x := mask iMask key)
    (by rw [List.length_nil, hlength]; decide)
  rw [masked_load pad iMask h]
  exact hbehind

theorem init_ready (block : Memory) (ctx : hmac_sha256_ctx) {key : Bytes} (h : key.length < 2^29) :
    Ready (hmac_sha256_init block ctx key) key := by
  have hkey := blockKey_length key
  have hused := keyUsed_eq block h
  constructor
  · constructor
    · rw [← hused] at hkey ⊢
      exact mask_behind _ _ _ hkey
    · rw [← hused] at hkey ⊢
      exact mask_behind _ _ _ hkey
  · rfl
  · rfl

theorem reinit_ready {ctx : hmac_sha256_ctx} {key : Bytes} (h : Keyed ctx key) :
    Ready (hmac_sha256_reinit ctx) key :=
  ⟨⟨h.inside, h.outside⟩, rfl, rfl⟩

theorem updates_inside (ctx : hmac_sha256_ctx) (pieces : List Bytes) :
    pieces.foldl hmac_sha256_update ctx =
      { ctx with ctx_inside := pieces.foldl sha256_update ctx.ctx_inside } := by
  induction pieces generalizing ctx with
  | nil => rfl
  | cons x pieces ih => exact ih _

/-- One message: its code comes out, and what is put aside stays. -/
theorem session_code {ctx : hmac_sha256_ctx} {key : Bytes} (h : Ready ctx key) {pieces : List Bytes}
    (hroom : 64+pieces.flatten.length < 2^29) (mac_size : Fin (SHA256_DIGEST_SIZE+1)) :
    (hmac_sha256_final (pieces.foldl hmac_sha256_update ctx) mac_size).1 =
        (hmac key pieces.flatten).take mac_size ∧
      Keyed (hmac_sha256_final (pieces.foldl hmac_sha256_update ctx) mac_size).2 key := by
  have hkey := blockKey_length key
  have hinner := mask_length 0x36 hkey
  have houter := mask_length 0x5c hkey
  rw [updates_inside]
  refine ⟨?_, ⟨h.inside, h.outside⟩⟩
  have hinside : Behind (pieces.foldl sha256_update ctx.ctx_inside)
      (mask 0x36 (blockKey key) ++ pieces.flatten) := by
    rw [h.ctx_inside]
    exact pieces_behind h.inside (by omega)
  have hdigest := final_digest hinside (by rw [List.length_append]; omega)
  have hlength := digest_length (mask 0x36 (blockKey key) ++ pieces.flatten)
  have houtside : Behind (sha256_update ctx.ctx_outside
      (digest (mask 0x36 (blockKey key) ++ pieces.flatten)))
      (mask 0x5c (blockKey key) ++ digest (mask 0x36 (blockKey key) ++ pieces.flatten)) := by
    rw [h.ctx_outside]
    exact next_behind h.outside (by omega)
  have hcode := final_digest houtside (by rw [List.length_append]; omega)
  show ((sha256_final (sha256_update ctx.ctx_outside
    (sha256_final (pieces.foldl sha256_update ctx.ctx_inside)).1)).1).take _ = _
  rw [hdigest, hcode, hmac]

theorem sessions_codes {ctx : hmac_sha256_ctx} {key : Bytes} (h : Ready ctx key)
    (mac_size : Fin (SHA256_DIGEST_SIZE+1)) (messages : List (List Bytes))
    (hroom : ∀ pieces ∈ messages, 64+pieces.flatten.length < 2^29) :
    sessions mac_size ctx messages = messages.map fun pieces => (hmac key pieces.flatten).take mac_size := by
  induction messages generalizing ctx with
  | nil => rfl
  | cons pieces messages ih =>
    have hcode := session_code h (hroom pieces List.mem_cons_self) mac_size
    have hrest := ih (reinit_ready hcode.2) fun p hp => hroom p (List.mem_cons_of_mem _ hp)
    rw [sessions, List.map_cons, hcode.1, hrest]

/-- However the messages are cut, each has its own code, whatever went before it. -/
theorem hmac_sessions (block : Memory) (ctx : hmac_sha256_ctx) (key : Bytes) (hkey : key.length < 2^29)
    (mac_size : Fin (SHA256_DIGEST_SIZE+1)) (messages : List (List Bytes))
    (hroom : ∀ pieces ∈ messages, 64+pieces.flatten.length < 2^29) :
    sessions mac_size (hmac_sha256_init block ctx key) messages =
      messages.map fun pieces => (hmac key pieces.flatten).take mac_size :=
  sessions_codes (init_ready block ctx hkey) mac_size messages hroom

/-- Two messages, the first in two pieces. -/
theorem hmac_sessions_two : sessions 32 (hmac_sha256_init zeroed
      ⟨sha256_init zeroed, sha256_init zeroed, sha256_init zeroed, sha256_init zeroed, zeroed, zeroed⟩
      (List.replicate 65 0xaa)) [[[0x48], [0x69]], [[0x48]]] =
    [(hmac (List.replicate 65 0xaa) [0x48, 0x69]).take 32, (hmac (List.replicate 65 0xaa) [0x48]).take 32] :=
  hmac_sessions zeroed _ _ (by rw [List.length_replicate]; decide) 32 _ (by decide)

end Sirannon.Sha2
