import Sirannon.RTMPReceiveSteps

/-!
# Reassembly of hostile input

No byte a peer sends makes the receiver write outside a message buffer: what
bounds a write is kept by every call, however the call ends, and does not
depend on the chunk size the peer has asked for.
-/

set_option autoImplicit false

namespace Sirannon.RTMPReassembly
open Connection RTMPChunkStream RTMPReceiveSteps StateError

/-- Every message is within bounds, and so was every write. -/
structure Sound (s : ChunkStream) : Prop where
  messages : ∀ id m, s.mReceiveChunk id = some m → Within m
  writes : ∀ w ∈ s.payloadWrites, w.1+w.2 ≤ maxMessageSize

theorem Sound.bounded {s : ChunkStream} (h : Sound s) : Bounded s := by
  intro id
  rw [ChunkStream.message]
  cases hm : s.mReceiveChunk id with
  | none => exact new_within _
  | some m => exact h.messages id m hm

theorem sound_of_bounded {s : ChunkStream} (hb : Bounded s)
    (hw : ∀ w ∈ s.payloadWrites, w.1+w.2 ≤ maxMessageSize) : Sound s := by
  refine ⟨fun id m hm => ?_, hw⟩
  have := hb id
  rwa [ChunkStream.message, hm] at this

theorem wrote_sound {s₀ s : ChunkStream} (h : Wrote s₀ s) (h₀ : Sound s₀) : Sound s := by
  obtain ⟨ws, hws, -, hin⟩ := h.writes
  apply sound_of_bounded h.bounded
  intro w hw
  rw [hws, List.mem_append] at hw
  rcases hw with hw | hw
  · exact h₀.writes w hw
  · exact (hin w hw).2

theorem sound_handles {s t : ChunkStream} (h : Handles s t) (hs : Sound s) : Sound t := by
  apply sound_of_bounded (bounded_handles h hs.bounded)
  rw [h.writes]
  exact hs.writes

theorem receiveChunk_sound : Triple Sound receiveChunk (fun _ => Sound) (fun _ => Sound) := by
  apply triple_of_state
  intro s hs
  refine triple_conseq (receiveChunk_ended s) ?_ (fun _ _ h => wrote_sound h.wrote hs) (fun _ _ h => wrote_sound h hs)
  rintro _ rfl
  exact since_refl hs.bounded

theorem receiveChunks_sound (fuel : ℕ) :
    Triple Sound (receiveChunks fuel) (fun _ => Sound) (fun _ => Sound) := by
  induction fuel with
  | zero => exact triple_throw _ fun _ h => h
  | succ fuel ih =>
    apply triple_bind receiveChunk_sound
    intro iChunkID
    apply triple_bind (along_keeps (getMessage_reads iChunkID) fun _ _ h => sound_handles h.toHandles)
    intro m
    apply triple_ite
    · exact fun _ => ih
    · exact fun _ => triple_pure _ fun _ h => h

/-- The loop ends with a message no longer than the largest. -/
theorem receiveChunks_small (fuel : ℕ) :
    Triple Sound (receiveChunks fuel)
      (fun id s => (s.message id).messageLength ≤ maxMessageSize) (fun _ => Sound) := by
  induction fuel with
  | zero => exact triple_throw _ fun _ h => h
  | succ fuel ih =>
    apply triple_bind (R := fun id s => Sound s ∧ (s.message id).messageLength ≤ maxMessageSize)
    · apply triple_of_state
      intro s hs
      refine triple_conseq (receiveChunk_ended s) ?_ (fun _ _ h => ⟨wrote_sound h.wrote hs, h.small⟩)
        (fun _ _ h => wrote_sound h hs)
      rintro _ rfl
      exact since_refl hs.bounded
    intro iChunkID
    apply triple_bind (R := fun _ s => Sound s ∧
      (s.message iChunkID).messageLength ≤ maxMessageSize)
    · exact ⟨fun _ hs => hs⟩
    intro m
    apply triple_ite
    · exact fun _ => triple_conseq ih (fun _ h => h.1) (fun _ _ h => h) (fun _ _ h => h)
    · exact fun _ => triple_pure _ fun _ h => h.2

theorem receiveMessage_sound (overrides : Overrides) :
    Triple Sound (receiveMessage overrides) (fun _ => Sound) (fun _ => Sound) := by
  apply triple_get_bind
  intro s hs
  refine triple_conseq (P := Sound) ?_ (by rintro _ rfl; exact hs) (fun _ _ h => h) (fun _ _ h => h)
  apply triple_bind (receiveChunks_sound _)
  intro iChunkID
  exact along_keeps (dispatch_handles overrides iChunkID) fun _ _ => sound_handles

theorem dispatch_small (overrides : Overrides) (iChunkID : ℕ) :
    Triple (fun s => (s.message iChunkID).messageLength ≤ maxMessageSize)
      (dispatch overrides iChunkID) (fun id s => (s.message id).messageLength ≤ maxMessageSize)
      (fun _ s => (s.message iChunkID).messageLength ≤ maxMessageSize) := by
  have hkeeps : ∀ s t, Handles s t → (s.message iChunkID).messageLength ≤ maxMessageSize →
      (t.message iChunkID).messageLength ≤ maxMessageSize := by
    intro s t h hs
    obtain ⟨b, hb, -⟩ := h.messages iChunkID
    rw [hb]
    exact hs
  apply triple_bind (along_keeps (reads_handles (getMessage_reads iChunkID)) hkeeps)
  intro m
  cases ControlMsg.ofCode m.messageTypeId with
  | none => exact triple_pure _ fun _ h => h
  | some t =>
    apply triple_bind (along_keeps (handle_handles overrides t iChunkID) hkeeps)
    intro iRet
    apply triple_ite
    · intro _
      apply triple_ite
      · exact fun _ => triple_throw _ fun _ h => h
      · exact fun _ => triple_throw _ fun _ h => h
    · exact fun _ => triple_pure _ fun _ h => h

/-- No message longer than the largest is ever returned. -/
theorem receiveMessage_small (overrides : Overrides) :
    Triple Sound (receiveMessage overrides)
      (fun id s => (s.message id).messageLength ≤ maxMessageSize) (fun _ _ => True) := by
  apply triple_get_bind
  intro s hs
  refine triple_conseq (P := Sound) ?_ (by rintro _ rfl; exact hs) (fun _ _ h => h) (fun _ _ h => h)
  apply triple_bind (triple_conseq (receiveChunks_small _) (fun _ h => h) (fun _ _ h => h)
    fun _ _ _ => trivial)
  intro iChunkID
  exact triple_conseq (dispatch_small overrides iChunkID) (fun _ h => h) (fun _ _ h => h)
    fun _ _ _ => trivial

/-- The sends of a session. -/
inductive Outgoing
  | message (pData : List UInt8) (iMessageType iChunkID iStreamID iTimeStamp : ℕ)
  | ack
  | setChunkSize (iNewChunkSize : ℕ)
  | windowACKSize
  | setPeerBandwidth
  | userControl (iType : UserControl) (iVal : ℤ)

def Outgoing.call : Outgoing → RTMP ℤ
  | message pData type id sid ts => sendMessage pData type id sid ts
  | ack => sendACK
  | setChunkSize iNewChunkSize => sendSetChunkSize iNewChunkSize
  | windowACKSize => sendWindowACKSize
  | setPeerBandwidth => sendSetPeerBandwidth
  | userControl iType iVal => sendUserControl iType iVal

theorem Outgoing.reads (o : Outgoing) : Along Reads o.call := by
  cases o with
  | message pData type id sid ts => exact sendMessage_reads pData type id sid ts
  | ack => exact sendACK_reads
  | setChunkSize iNewChunkSize => exact sendSetChunkSize_reads iNewChunkSize
  | windowACKSize => exact sendWindowACKSize_reads
  | setPeerBandwidth => exact sendSetPeerBandwidth_reads
  | userControl iType iVal => exact sendUserControl_reads iType iVal

/-- What may happen on a connection: calls, whatever they return, and any change of the socket. -/
inductive Event
  | receiveMessage (overrides : Overrides)
  | send (o : Outgoing)
  | socket (pConnection : ConnectionInterface)

def Event.apply (s : ChunkStream) : Event → ChunkStream
  | receiveMessage overrides => after ((RTMPChunkStream.receiveMessage overrides).run s)
  | send o => after (o.call.run s)
  | socket pConnection => { s with pConnection := pConnection }

attribute [grind =] Event.apply

/-- A chunk received on its own, and a peer that has put any value into the chunk size. -/
inductive Hostile
  | event (e : Event)
  | receiveChunk
  | chunkSize (iOtherChunkSize : ℤ)

def Hostile.apply (s : ChunkStream) : Hostile → ChunkStream
  | event e => e.apply s
  | receiveChunk => after (RTMPChunkStream.receiveChunk.run s)
  | chunkSize iOtherChunkSize => s.adopt iOtherChunkSize

attribute [grind =] Hostile.apply

theorem apply_sound {s : ChunkStream} (h : Sound s) (e : Hostile) : Sound (e.apply s) := by
  cases e with
  | event e =>
    cases e with
    | receiveMessage overrides => exact triple_after (receiveMessage_sound overrides) h
    | send o => exact sound_handles (o.reads s).toHandles h
    | socket pConnection => exact ⟨h.messages, h.writes⟩
  | receiveChunk => exact triple_after receiveChunk_sound h
  | chunkSize iOtherChunkSize => exact ⟨h.messages, h.writes⟩

theorem run_sound (events : List Hostile) {s : ChunkStream} (h : Sound s) :
    Sound (events.foldl Hostile.apply s) := by
  induction events generalizing s with
  | nil => exact h
  | cons e events ih => exact ih (apply_sound h e)

theorem new_sound (pConnection : ConnectionInterface) (garbage : ℕ → Garbage) :
    Sound (ChunkStream.new pConnection garbage) := by
  constructor
  · intro id m hm
    cases hm
  · intro w hw
    cases hw

/-- Whatever a peer sends and whatever became of the calls before, all messages and all writes
are within bounds, and the next chunk writes at most once, behind what its message holds. -/
theorem reassembly_in_bounds (pConnection : ConnectionInterface) (garbage : ℕ → Garbage)
    (events : List Hostile) :
    let s := events.foldl Hostile.apply (ChunkStream.new pConnection garbage)
    Sound s ∧ Wrote s (after (receiveChunk.run s)) := by
  have hs := run_sound events (new_sound pConnection garbage)
  refine ⟨hs, triple_after (P := (· = _)) (triple_conseq (receiveChunk_ended _) ?_ (fun _ _ h => h.wrote)
    (fun _ _ h => h)) rfl⟩
  rintro _ rfl
  exact since_refl hs.bounded

end Sirannon.RTMPReassembly
