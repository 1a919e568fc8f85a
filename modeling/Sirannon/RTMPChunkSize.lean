import Sirannon.RTMPReassembly
import Sirannon.RTMPRefinement

/-!
# The chunk size of the peer

A `SET_CHUNK_SIZE` message is handled by looking at the chunk size in force
where the one asked for was meant. As long as a peer asks for legal sizes
only, the difference does not show; the first other request is adopted.
-/

set_option autoImplicit false

namespace Sirannon.RTMPChunkSize
open Connection RTMPChunkStream RTMPReceiveSteps RTMPReassembly RTMPRefinement StateError

/-- The receive loop of `receiveMessage` ends with the message of chunk stream `id`. -/
def Arrives (s : ChunkStream) (id : ℕ) (t : ChunkStream) : Prop :=
  (receiveChunks ((pending s.pConnection).length+1)).run s = .ok id t

def Requests (t : ChunkStream) (id : ℕ) : Prop :=
  (t.message id).messageTypeId = ControlMsg.setChunkSize.code

def InRange (iSize : ℤ) : Prop := 128 ≤ iSize ∧ iSize ≤ 65536

instance (iSize : ℤ) : Decidable (InRange iSize) := inferInstanceAs (Decidable (_ ∧ _))

instance (s : ChunkStream) : Decidable (Legal s) := inferInstanceAs (Decidable (_ ∧ _))

theorem receiveMessage_after (overrides : Overrides) (s : ChunkStream) :
    after ((receiveMessage overrides).run s) =
      match (receiveChunks ((pending s.pConnection).length+1)).run s with
      | .ok id t => after ((dispatch overrides id).run t)
      | .error _ t => t := by
  rw [receiveMessage, run_get_bind]
  cases hloop : (receiveChunks ((pending s.pConnection).length+1)).run s with
  | ok id t => rw [run_bind_of_ok hloop]
  | error e t => rw [run_bind_of_error hloop, after]

/-! ## The receive loop -/

def Sized (n : ℤ) (s : ChunkStream) : Prop := Sound s ∧ s.iOtherChunkSize = n

/-- Chunks leave the chunk size alone. -/
theorem receiveChunks_sized (n : ℤ) (fuel : ℕ) :
    Triple (Sized n) (receiveChunks fuel) (fun _ => Sized n) (fun _ => Sized n) := by
  induction fuel with
  | zero => exact triple_throw _ fun _ h => h
  | succ fuel ih =>
    apply triple_bind (R := fun _ => Sized n)
    · apply triple_of_state
      rintro s ⟨hs, hn⟩
      have hwrote : ∀ t, Wrote s t → Sized n t := fun t h => ⟨wrote_sound h hs, h.size.trans hn⟩
      refine triple_conseq (receiveChunk_ended s) ?_ (fun _ _ h => hwrote _ h.wrote)
        (fun _ _ h => hwrote _ h)
      rintro _ rfl
      exact since_refl hs.bounded
    intro iChunkID
    apply triple_bind (R := fun _ => Sized n)
    · exact ⟨fun s hs => hs⟩
    intro m
    apply triple_ite
    · exact fun _ => ih
    · exact fun _ => triple_pure _ fun _ h => h

def Well (s : ChunkStream) : Prop := Sound s ∧ Healthy s

theorem wrote_well {s t : ChunkStream} (h : Wrote s t) (hs : Well s) : Well t := by
  refine ⟨wrote_sound h hs.1, ?_, h.polled hs.2.polled, h.counted hs.2⟩
  rw [Legal, h.size]
  exact hs.2.legal

/-- What the loop takes for a complete message has arrived whole. -/
theorem receiveChunks_finished (fuel : ℕ) :
    Triple Well (receiveChunks fuel) (fun id t => Well t ∧ Finished (t.message id))
      (fun _ => Well) := by
  induction fuel with
  | zero => exact triple_throw _ fun _ h => h
  | succ fuel ih =>
    apply triple_bind (R := fun id t => Well t ∧
      ((t.message id).currentLength = 0 → Finished (t.message id)))
    · apply triple_of_state
      intro s hs
      refine triple_conseq (receiveChunk_ended s) ?_
        (fun _ _ h => ⟨wrote_well h.wrote hs, h.finished hs.2⟩) (fun _ _ h => wrote_well h hs)
      rintro _ rfl
      exact since_refl hs.1.bounded
    intro iChunkID
    apply triple_bind (R := fun m t => m = t.message iChunkID ∧ Well t ∧
      ((t.message iChunkID).currentLength = 0 → Finished (t.message iChunkID)))
    · exact ⟨fun s hs => ⟨rfl, hs⟩⟩
    intro m
    apply triple_ite
    · intro _
      exact triple_conseq ih (fun _ h => h.2.1) (fun _ _ h => h) (fun _ _ h => h)
    · intro hdone
      apply triple_pure
      rintro t ⟨rfl, ht, hfin⟩
      exact ⟨ht, hfin (by omega)⟩

/-! ## The handler -/

theorem ofCode_setChunkSize {n : ℕ} (h : ControlMsg.ofCode n = some .setChunkSize) :
    n = ControlMsg.setChunkSize.code := by
  unfold ControlMsg.ofCode at h
  split at h <;> first | rfl | cases h

theorem dispatch_after (overrides : Overrides) (t : ChunkStream) (id : ℕ) :
    after ((dispatch overrides id).run t) =
      match ControlMsg.ofCode (t.message id).messageTypeId with
      | none => t
      | some k => after ((handle overrides k id).run t) := by
  have hget : (getMessage id).run t = .ok (t.message id) t := rfl
  rw [dispatch, run_bind_of_ok hget]
  cases ControlMsg.ofCode (t.message id).messageTypeId with
  | none => rfl
  | some k =>
    simp only
    cases hrun : (handle overrides k id).run t with
    | error e u => rw [run_bind_of_error hrun, after, after]
    | ok iRet u =>
      rw [run_bind_of_ok hrun]
      split_ifs
      · rfl
      · rfl
      · rfl

/-- A request is adopted whenever the size in force is legal, and only then. -/
theorem dispatch_request (overrides : Overrides) (t : ChunkStream) (id : ℕ) (h : Requests t id) :
    (after ((dispatch overrides id).run t)).iOtherChunkSize =
      if Legal t then request t id else t.iOtherChunkSize := by
  have htype : (t.message id).messageTypeId = 1 := h
  rw [dispatch_after, htype]
  show (after ((handleSetChunkSize id).run t)).iOtherChunkSize = _
  rw [handleSetChunkSize_run]
  by_cases hl : 128 ≤ t.iOtherChunkSize ∧ t.iOtherChunkSize ≤ 65536
  · have hlegal : Legal t := hl
    rw [if_pos hl, if_pos hlegal]
    rfl
  · have hlegal : ¬ Legal t := hl
    rw [if_neg hl, if_neg hlegal]
    rfl

theorem dispatch_other (overrides : Overrides) (t : ChunkStream) (id : ℕ) (h : ¬ Requests t id) :
    (after ((dispatch overrides id).run t)).iOtherChunkSize = t.iOtherChunkSize := by
  rw [dispatch_after]
  cases hcode : ControlMsg.ofCode (t.message id).messageTypeId with
  | none => rfl
  | some k =>
    have hk : k ≠ .setChunkSize := by
      rintro rfl
      exact h (ofCode_setChunkSize hcode)
    exact (handle_reads overrides k id hk t).size

/-! ## One event -/

/-- Requests that arrive ask for a legal size. -/
def RequestLegal (s : ChunkStream) : Event → Prop
  | .receiveMessage _ => ∀ id t, Arrives s id t → Requests t id → InRange (request t id)
  | _ => True

/-- Legal requests are adopted, and no others. -/
def Obeyed (s : ChunkStream) : Event → Prop
  | .receiveMessage overrides => ∀ id t, Arrives s id t → Requests t id →
      ((Event.receiveMessage overrides).apply s).iOtherChunkSize =
        if InRange (request t id) then request t id else t.iOtherChunkSize
  | _ => True

def EventFinished (s : ChunkStream) : Event → Prop
  | .receiveMessage _ => ∀ id t, Arrives s id t → Finished (t.message id)
  | _ => True

theorem arrives_sized {s t : ChunkStream} {id : ℕ} (hs : Sound s) (h : Arrives s id t) :
    t.iOtherChunkSize = s.iOtherChunkSize :=
  (triple_ok (receiveChunks_sized s.iOtherChunkSize _) ⟨hs, rfl⟩ h).2

/-- The chunk size after an event, from a legal state. -/
theorem apply_size {s : ChunkStream} (hs : Sound s) (hl : Legal s) (e : Event) :
    (e.apply s).iOtherChunkSize = s.iOtherChunkSize ∨
      ∃ overrides id t, e = .receiveMessage overrides ∧ Arrives s id t ∧ Requests t id ∧
        (e.apply s).iOtherChunkSize = request t id := by
  cases e with
  | send o => exact .inl (o.reads s).size
  | socket pConnection => exact .inl rfl
  | receiveMessage overrides =>
    rw [Event.apply, receiveMessage_after]
    cases hloop : (receiveChunks ((pending s.pConnection).length+1)).run s with
    | error e t =>
      exact .inl (triple_error (receiveChunks_sized s.iOtherChunkSize _) ⟨hs, rfl⟩ hloop).2
    | ok id t =>
      have hsize := arrives_sized hs hloop
      by_cases hreq : Requests t id
      · refine .inr ⟨overrides, id, t, rfl, hloop, hreq, ?_⟩
        simp only
        rw [dispatch_request overrides t id hreq, if_pos]
        rw [Legal, hsize]
        exact hl
      · exact .inl ((dispatch_other overrides t id hreq).trans hsize)

theorem event_obeyed {s : ChunkStream} (hs : Sound s) (hl : Legal s) (e : Event)
    (h : RequestLegal s e) : Obeyed s e ∧ Legal (e.apply s) := by
  constructor
  · cases e with
    | receiveMessage overrides =>
      intro id t harr hreq
      rw [if_pos (h id t harr hreq), Event.apply, receiveMessage_after, harr]
      simp only
      rw [dispatch_request overrides t id hreq, if_pos]
      rw [Legal, arrives_sized hs harr]
      exact hl
    | _ => trivial
  · obtain hsame | ⟨overrides, id, t, rfl, harr, hreq, hsize⟩ := apply_size hs hl e
    · rw [Legal, hsame]
      exact hl
    · rw [Legal, hsize]
      exact h id t harr hreq

/-- An illegal request is adopted as well, so what follows it is not legal. -/
theorem event_asked {s : ChunkStream} (hs : Sound s) (hl : Legal s) (e : Event)
    (h : Legal (e.apply s)) : RequestLegal s e := by
  cases e with
  | receiveMessage overrides =>
    intro id t harr hreq
    rw [Legal, Event.apply, receiveMessage_after, harr] at h
    simp only at h
    rw [dispatch_request overrides t id hreq, if_pos] at h
    · exact h
    · rw [Legal, arrives_sized hs harr]
      exact hl
  | _ => trivial

theorem event_finished {s : ChunkStream} (hs : Well s) (e : Event) : EventFinished s e := by
  cases e with
  | receiveMessage overrides =>
    intro id t harr
    exact (triple_ok (receiveChunks_finished _) hs harr).2
  | _ => trivial

/-- A socket on which no timer runs out right after data. -/
def Waits : Event → Prop
  | .socket c => Polled false c.arrivals
  | _ => True

theorem apply_waits {s : ChunkStream} (hs : Well s) (e : Event) (hw : Waits e) :
    Polled false (e.apply s).pConnection.arrivals ∧ Counted (e.apply s) := by
  have hhandles : ∀ {t u}, Handles t u → Well t → Polled false u.pConnection.arrivals ∧ Counted u :=
    fun h ht => ⟨h.polled ht.2.polled, counted_handles h ht.2.counted⟩
  cases e with
  | send o => exact hhandles (o.reads s).toHandles hs
  | socket c => exact ⟨hw, hs.2.counted⟩
  | receiveMessage overrides =>
    rw [Event.apply, receiveMessage_after]
    cases hloop : (receiveChunks ((pending s.pConnection).length+1)).run s with
    | error e t =>
      have ht : Well t := triple_error (receiveChunks_finished _) hs hloop
      exact ⟨ht.2.polled, ht.2.counted⟩
    | ok id t =>
      have ht : Well t := (triple_ok (receiveChunks_finished _) hs hloop).1
      exact hhandles (dispatch_handles overrides id t) ht

theorem event_well {s : ChunkStream} (hs : Well s) (e : Event) (h : RequestLegal s e)
    (hw : Waits e) : Well (e.apply s) := by
  obtain ⟨hp, hc⟩ := apply_waits hs e hw
  exact ⟨apply_sound hs.1 (.event e), (event_obeyed hs.1 hs.2.legal e h).2, hp, hc⟩

/-! ## Runs -/

/-- What holds of every event of a run, each in the state the ones before it left. -/
def Throughout (P : ChunkStream → Event → Prop) : ChunkStream → List Event → Prop
  | _, [] => True
  | s, e::es => P s e ∧ Throughout P (e.apply s) es

/-- The chunk size is legal in every state of the run, and every request is obeyed. -/
def SizesLegal (s : ChunkStream) (events : List Event) : Prop :=
  Legal s ∧ Throughout (fun t e => Obeyed t e ∧ Legal (e.apply t)) s events

theorem sizesLegal_iff (events : List Event) {s : ChunkStream} (hs : Sound s) (hl : Legal s) :
    Throughout (fun t e => Obeyed t e ∧ Legal (e.apply t)) s events ↔
      Throughout RequestLegal s events := by
  induction events generalizing s with
  | nil => exact Iff.rfl
  | cons e events ih =>
    constructor
    · rintro ⟨⟨-, hle⟩, hrest⟩
      exact ⟨event_asked hs hl e hle, (ih (apply_sound hs (.event e)) hle).mp hrest⟩
    · rintro ⟨hask, hrest⟩
      obtain ⟨hobey, hle⟩ := event_obeyed hs hl e hask
      exact ⟨⟨hobey, hle⟩, (ih (apply_sound hs (.event e)) hle).mpr hrest⟩

theorem run_finished (events : List Event) {s : ChunkStream} (hs : Well s)
    (h : Throughout RequestLegal s events) (hw : ∀ e ∈ events, Waits e) :
    Throughout EventFinished s events := by
  induction events generalizing s with
  | nil => trivial
  | cons e events ih =>
    obtain ⟨hask, hrest⟩ := h
    refine ⟨event_finished hs e, ih (event_well hs e hask (hw e (List.mem_cons_self ..))) hrest ?_⟩
    exact fun e' he' => hw e' (List.mem_cons_of_mem _ he')

theorem new_legal (pConnection : ConnectionInterface) (garbage : ℕ → Garbage) :
    Legal (ChunkStream.new pConnection garbage) := by
  simp [Legal, ChunkStream.new]

/-- The chunk size stays legal and requests are obeyed just in the runs whose requests are all
legal; there, on sockets that are polled to the end, no unfinished message passes for complete. -/
theorem chunk_size_stays_legal (pConnection : ConnectionInterface) (garbage : ℕ → Garbage)
    (events : List Event) :
    let s := ChunkStream.new pConnection garbage
    (SizesLegal s events ↔ Throughout RequestLegal s events) ∧
      (Throughout RequestLegal s events → Polled false pConnection.arrivals →
        (∀ e ∈ events, Waits e) → Throughout EventFinished s events) := by
  have hs := new_sound pConnection garbage
  have hl := new_legal pConnection garbage
  constructor
  · rw [SizesLegal, sizesLegal_iff events hs hl]
    exact and_iff_right hl
  · intro h hp hw
    exact run_finished events ⟨hs, hl, hp, fun _ => le_refl 0⟩ h hw

/-! ## A request for nothing at all -/

/-- A request for chunks of size 0, and a message of five bytes. -/
def zeroRequest : ConnectionInterface :=
  ⟨true, true, [.bytes [2, 0, 0, 0, 0, 0, 4, 1, 0, 0, 0, 0, 0, 0, 0, 0,
    3, 0, 0, 0, 0, 0, 5, 7, 0, 0, 0, 0, 1, 2, 3, 4, 5], .again], [], [], ""⟩

def zeroRequested : ChunkStream := ChunkStream.new zeroRequest fun _ => ⟨0, 0, 0⟩

/-- Length and arrived bytes of the message the receive loop ends with. -/
def loopEnd (s : ChunkStream) : Option (ℕ × ℕ) :=
  match (receiveChunks ((pending s.pConnection).length+1)).run s with
  | .ok id t => some ((t.message id).messageLength, (t.message id).arrived)
  | .error _ _ => none

theorem loopEnd_finished {s : ChunkStream} {n k : ℕ} (h : loopEnd s = some (n, k)) (hk : k < n)
    (overrides : Overrides) : ¬ EventFinished s (.receiveMessage overrides) := by
  intro hfin
  rw [loopEnd] at h
  cases hloop : (receiveChunks ((pending s.pConnection).length+1)).run s with
  | error e t => simp [hloop] at h
  | ok id t =>
    simp only [hloop, Option.some.injEq, Prod.mk.injEq] at h
    have := hfin id t hloop
    rw [Finished, h.1, h.2] at this
    omega

/-- After the request the chunk size is 0, and the next message is returned with no byte read. -/
theorem chunk_size_zero :
    Polled false zeroRequest.arrivals ∧
      ¬ SizesLegal zeroRequested [.receiveMessage unimplemented, .receiveMessage unimplemented] ∧
      ¬ Throughout EventFinished zeroRequested
        [.receiveMessage unimplemented, .receiveMessage unimplemented] := by
  refine ⟨rfl, ?_, ?_⟩
  · rintro ⟨-, ⟨-, hl⟩, -⟩
    have hsize : ((Event.receiveMessage unimplemented).apply zeroRequested).iOtherChunkSize = 0 := by
      decide +kernel
    rw [Legal, hsize] at hl
    omega
  · rintro ⟨-, hfin, -⟩
    have hend : loopEnd ((Event.receiveMessage unimplemented).apply zeroRequested) = some (5, 0) := by
      decide +kernel
    exact loopEnd_finished hend (by omega) unimplemented hfin

end Sirannon.RTMPChunkSize
