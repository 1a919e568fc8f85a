import Sirannon.MP2Unpacketizer
import Sirannon.MP4Packetizer

/-!
# Control packets at the unpacketizers

What was collected is unpacked when a control packet comes, so that the
control packet stays behind the media in front of it. The MPEG unpacketizers
do not look whether anything was collected.
-/

set_option autoImplicit false

namespace Sirannon.Packetization
open Bits Media StateError

/-- What the source throws itself. -/
def Thrown (e : SirannonException) : Prop := ∀ sWhat, e ≠ undefinedBehaviour sWhat

theorem thrown_of_head {kind : String} {c : Char} (sError : String)
    (h : kind.toList.head? = some c) (hc : c ≠ 'u') : Thrown ⟨kind ++ sError⟩ := by
  intro sWhat he
  have hlist := congrArg (fun e => e.what.toList.head?) he
  have hu : "undefined: ".toList.head? = some 'u' := rfl
  simp only [undefinedBehaviour, String.toList_append, List.head?_append, h, hu,
    Option.some_or, Option.some.injEq] at hlist
  exact hc hlist

theorem runtimeError_thrown (sError : String) : Thrown (runtimeError sError) :=
  thrown_of_head sError (c := 'R') rfl (by decide)

theorem valueError_thrown (sError : String) : Thrown (valueError sError) :=
  thrown_of_head sError (c := 'V') rfl (by decide)

theorem typeError_thrown (sError : String) : Thrown (typeError sError) :=
  thrown_of_head sError (c := 'T') rfl (by decide)

theorem outOfBoundsError_thrown (sError : String) : Thrown (outOfBoundsError sError) :=
  thrown_of_head sError (c := 'O') rfl (by decide)

theorem push_back_thrown {p : MediaPacket} {buffer : List UInt8} {e : SirannonException}
    (h : p.push_back buffer = .error e) : Thrown e := by
  rw [MediaPacket.push_back] at h
  split_ifs at h
  cases h
  exact outOfBoundsError_thrown _

theorem pop_front_thrown {p : MediaPacket} {len : ℕ} {e : SirannonException}
    (h : p.pop_front len = .error e) : Thrown e := by
  rw [MediaPacket.pop_front] at h
  split_ifs at h
  cases h
  exact outOfBoundsError_thrown _

variable {δ : Type}

/-- `t` is `s` with an empty buffer and some more media routed. -/
structure Emptied (s t : Unpacketizer δ) : Prop where
  buffer : t.vBuffer = []
  routed : ∃ outs, t.routed = s.routed ++ outs ∧ ∀ p ∈ outs, p.type = .media

def MediaOnly (s : Unpacketizer δ) : Prop := ∀ p ∈ s.vBuffer, p.type = .media

/-- On an empty buffer `unpack` looks at a packet that is not there; otherwise it empties the
buffer or throws. -/
structure Unpacks (unpack : Unpack δ Unit) : Prop where
  empty : ∀ s : Unpacketizer δ, s.vBuffer = [] →
    unpack.run s = .error (undefinedBehaviour "front of an empty queue") s
  full : ∀ s : Unpacketizer δ, s.vBuffer ≠ [] → MediaOnly s →
    Triple (· = s) unpack (fun _ => Emptied s) (fun e _ => Thrown e)

theorem push_back_type {p q : MediaPacket} {buffer : List UInt8}
    (h : p.push_back buffer = .ok q) : q.type = p.type := by
  rw [MediaPacket.push_back] at h
  split_ifs at h
  cases h
  rfl

theorem pop_front_type {p q : MediaPacket} {len : ℕ} (h : p.pop_front len = .ok q) :
    q.type = p.type := by
  rw [MediaPacket.pop_front] at h
  split_ifs at h
  cases h
  rfl

/-! ## MPEG-2 -/

theorem mp2_joinLoop (vBuffer : List MediaPacket) (pUnpack : MediaPacket) :
    match MP2.joinLoop vBuffer pUnpack with
    | .ok (p, _) => p.type = pUnpack.type
    | .error e => Thrown e := by
  induction vBuffer generalizing pUnpack with
  | nil => rfl
  | cons pPckt vBuffer ih =>
    have hdeduce : (MP2.deduce pUnpack pPckt).2.type = pUnpack.type := by
      rw [MP2.deduce]
      split_ifs <;> rfl
    rw [MP2.joinLoop]
    cases hd : MP2.deduce pUnpack pPckt with
    | mk bEnd q =>
      rw [hd] at hdeduce
      cases hpop : pPckt.pop_front 4 with
      | error e => exact pop_front_thrown hpop
      | ok r =>
        cases hpush : q.push_back r.bytes with
        | error e =>
          simp only [hpush, bind, Except.bind]
          exact push_back_thrown hpush
        | ok u =>
          have hu := push_back_type hpush
          simp only [hpush, bind, Except.bind]
          cases bEnd with
          | true => exact hu.trans hdeduce
          | false =>
            have hrest := ih u
            rw [hu, hdeduce] at hrest
            exact hrest

theorem mp2_put {s : MP2.MP2Unpacketizer} {p : MediaPacket} (left : List MediaPacket)
    (hp : p.type = .media) :
    Triple (· = s) (MP2.put p left) (fun _ => Emptied s) (fun e _ => Thrown e) := by
  rw [MP2.put]
  apply triple_modify_bind (R := fun t => t.vBuffer = left ∧ t.routed = s.routed ++ [p])
  · rintro t rfl
    exact ⟨rfl, rfl⟩
  · apply triple_ite
    · intro hleft
      apply triple_pure
      rintro t ⟨hbuffer, hrouted⟩
      exact ⟨hbuffer.trans hleft, [p], hrouted, by simpa using hp⟩
    · intro _
      exact triple_throw _ fun _ _ => runtimeError_thrown _

theorem mp2_unpacks : Unpacks MP2.unpack := by
  constructor
  · intro s hs
    rw [MP2.unpack, run_get_bind, hs]
    rfl
  · intro s hne hmedia
    apply triple_get_bind
    rintro t rfl
    cases hbuffer : t.vBuffer with
    | nil => exact absurd hbuffer hne
    | cons pPckt rest =>
      have hp : pPckt.type = .media := hmedia pPckt (by simp [hbuffer])
      cases rest with
      | nil =>
        apply triple_ofExcept_bind
        · intro e he _ _
          exact pop_front_thrown he
        · intro q hq
          apply mp2_put
          exact (pop_front_type hq).trans hp
      | cons q qs =>
        have hjoin := mp2_joinLoop (pPckt::q::qs) (MP2.whole
          ((MediaPacket.new .media .video (sizes (pPckt::q::qs))).set_metadata pPckt) t.iUnit)
        apply triple_ofExcept_bind
        · intro e he _ _
          rw [he] at hjoin
          exact hjoin
        · intro joined hjoined
          rw [hjoined] at hjoin
          apply mp2_put
          exact hjoin.trans hp

/-! ## MPEG-4 -/

/-- `t` is `s` with some more media routed. -/
def More (s t : Unpacketizer δ) : Prop :=
  ∃ outs, t.routed = s.routed ++ outs ∧ ∀ p ∈ outs, p.type = .media

theorem more_refl (s : Unpacketizer δ) : More s s := ⟨[], by simp, by simp⟩

theorem emit_more {s t : Unpacketizer δ} {p : MediaPacket} (h : More s t) (hp : p.type = .media) :
    More s (t.emit p) := by
  rcases h with ⟨outs, hrouted, houts⟩
  refine ⟨outs ++ [p.setUnit t.iUnit], ?_, ?_⟩
  · rw [Unpacketizer.emit, hrouted, List.append_assoc]
  · intro q hq
    rcases List.mem_append.mp hq with hq | hq
    · exact houts q hq
    · rw [List.mem_singleton.mp hq]
      exact hp

theorem push_all_type (ps : List MediaPacket) (p : MediaPacket) :
    match push_all p ps with
    | .ok q => q.type = p.type
    | .error e => Thrown e := by
  induction ps generalizing p with
  | nil => rfl
  | cons q ps ih =>
    rw [push_all]
    cases hpush : p.push_back q.bytes with
    | error e => exact push_back_thrown hpush
    | ok r =>
      have hr := ih r
      rw [push_back_type hpush] at hr
      exact hr

variable {s : MP4.MP4Unpacketizer}

theorem mp4_consumed (left : List MediaPacket) :
    Triple (More s) (MP4.consumed left) (fun _ => Emptied s) (fun e _ => Thrown e) := by
  rw [MP4.consumed]
  apply triple_modify_bind (R := fun t => t.vBuffer = left ∧ More s t)
  · intro t ht
    exact ⟨rfl, ht⟩
  · apply triple_ite
    · intro hleft
      apply triple_pure
      rintro t ⟨hbuffer, hmore⟩
      exact ⟨hbuffer.trans hleft, hmore⟩
    · intro _
      exact triple_throw _ fun _ _ => runtimeError_thrown _

theorem mp4_emit {p : MediaPacket} (left : List MediaPacket) (hp : p.type = .media) :
    Triple (More s) (do modify fun t => t.emit p; MP4.consumed left) (fun _ => Emptied s)
      (fun e _ => Thrown e) :=
  triple_modify_bind (fun _ ht => emit_more ht hp) (mp4_consumed left)

theorem mp4_stapLoop {pPckt : MediaPacket} (hp : pPckt.type = .media) (iParts : ℕ) (i : ℤ)
    (oHeader : IBits) (iPos : ℕ) :
    Triple (More s) (MP4.stapLoop pPckt iParts i oHeader iPos) (fun _ => More s)
      (fun e _ => Thrown e) := by
  induction iParts generalizing i oHeader iPos with
  | zero => exact triple_pure () fun _ h => h
  | succ iParts ih =>
    rw [MP4.stapLoop]
    apply triple_ofExcept_bind
    · intro e he _ _
      exact push_back_thrown he
    · intro pFrag hpush
      have htype : pFrag.type = .media := (push_back_type hpush).trans hp
      exact triple_modify_bind (fun t ht => emit_more ht htype) (ih _ _ _)

theorem mp4_joinLoop (iSize : ℕ) (vBuffer : List MediaPacket) (pFrag : MediaPacket)
    (iTestSize : ℕ) :
    match MP4.joinLoop iSize vBuffer pFrag iTestSize with
    | .ok joined => joined.1.type = pFrag.type
    | .error e => Thrown e := by
  induction vBuffer generalizing pFrag iTestSize with
  | nil => rfl
  | cons pPckt vBuffer ih =>
    rw [MP4.joinLoop]
    by_cases hfull : iSize ≤ iTestSize
    · rw [if_pos hfull]
    rw [if_neg hfull]
    dsimp only
    split_ifs
    · exact runtimeError_thrown _
    · cases hpush : MP4.pushPayload pFrag pPckt with
      | error e =>
        rw [MP4.pushPayload] at hpush
        split_ifs at hpush
        · cases hpush
          exact outOfBoundsError_thrown _
        · exact push_back_thrown hpush
      | ok q =>
        rw [MP4.pushPayload] at hpush
        split_ifs at hpush
        have hq := ih q (iTestSize+(pPckt.size-4))
        rw [push_back_type hpush] at hq
        exact hq

theorem mp4_unpackFragments {pPckt : MediaPacket} (hp : pPckt.type = .media)
    (vBuffer : List MediaPacket) (iSize : ℕ) :
    Triple (More s) (MP4.unpackFragments pPckt vBuffer iSize) (fun _ => Emptied s)
      (fun e _ => Thrown e) := by
  have hjoin := mp4_joinLoop iSize vBuffer
    (MP4.whole ((MediaPacket.new .media .audio iSize).set_metadata pPckt) .MOV) 0
  rw [MP4.unpackFragments]
  apply triple_ofExcept_bind
  · intro e he _ _
    rw [he] at hjoin
    exact hjoin
  · intro joined hjoined
    rw [hjoined] at hjoin
    apply triple_ite
    · intro _
      exact triple_modify _ fun t ht => ⟨rfl, ht⟩
    · intro _
      exact mp4_emit joined.2.2 (hjoin.trans hp)

theorem mp4_unpackAudio {pPckt : MediaPacket} (hp : pPckt.type = .media)
    (rest : List MediaPacket) :
    Triple (More s) (MP4.unpackAudio pPckt rest) (fun _ => Emptied s) (fun e _ => Thrown e) := by
  rw [MP4.unpackAudio]
  dsimp only
  apply triple_ite
  · intro _
    exact triple_bind (mp4_stapLoop hp _ _ _ _) fun _ => mp4_consumed rest
  · intro _
    apply triple_ite
    · intro _
      apply triple_ite
      · intro _
        exact mp4_unpackFragments hp _ _
      · intro _
        apply triple_ite
        · intro _
          apply triple_ofExcept_bind
          · intro e he _ _
            exact pop_front_thrown he
          · intro pFrag hpop
            exact mp4_emit rest ((pop_front_type hpop).trans hp)
        · intro _
          exact triple_throw _ fun _ _ => valueError_thrown _
    · intro _
      exact triple_throw _ fun _ _ => valueError_thrown _

theorem mp4_unpackVideo {pPckt : MediaPacket} (hp : pPckt.type = .media)
    (vBuffer : List MediaPacket) :
    Triple (More s) (MP4.unpackVideo pPckt vBuffer) (fun _ => Emptied s)
      (fun e _ => Thrown e) := by
  have hall := push_all_type vBuffer
    (MP4.whole ((MediaPacket.new .media .video (sizes vBuffer)).set_metadata pPckt) .ES)
  rw [MP4.unpackVideo]
  apply triple_ofExcept_bind
  · intro e he _ _
    rw [he] at hall
    exact hall
  · intro pFrag hpush
    rw [hpush] at hall
    exact mp4_emit [] (hall.trans hp)

theorem mp4_unpacks : Unpacks MP4.unpack := by
  constructor
  · intro s hs
    rw [MP4.unpack, run_get_bind, hs]
    rfl
  · intro s hne hmedia
    apply triple_get_bind
    rintro t rfl
    cases hbuffer : t.vBuffer with
    | nil => exact absurd hbuffer hne
    | cons pPckt rest =>
      have hp : pPckt.type = .media := hmedia pPckt (by simp [hbuffer])
      have hstart : ∀ u, u = t → More t u := by
        rintro u rfl
        exact more_refl u
      apply triple_ite
      · intro _
        exact triple_throw _ fun _ _ => typeError_thrown _
      · intro _
        apply triple_ite
        · intro _
          exact triple_throw _ fun _ _ => typeError_thrown _
        · intro _
          apply triple_ite
          · intro _
            exact triple_conseq (mp4_unpackVideo hp _) hstart (fun _ _ h => h) fun _ _ h => h
          · intro _
            exact triple_conseq (mp4_unpackAudio hp _) hstart (fun _ _ h => h) fun _ _ h => h

/-! ## Runs -/

/-- How packets get to `unpack`: a media packet may be refused, a control packet is not. -/
structure Delivers (unpack : Unpack δ Unit) (deliver : MediaPacket → Unpack δ Unit) : Prop where
  media : ∀ p : MediaPacket, p.type = .media →
    deliver p = Unpacketizer.receive unpack p ∨ ∃ e, Thrown e ∧ deliver p = throw e
  control : ∀ p : MediaPacket, p.type ≠ .media →
    deliver p = Unpacketizer.receive_end unpack p

theorem mp2_delivers : Delivers MP2.unpack MP2.deliver := by
  constructor
  · intro p hp
    rw [MP2.deliver, hp]
    dsimp only
    rw [MP2.receive]
    split_ifs
    · exact .inl rfl
    · exact .inr ⟨_, valueError_thrown _, rfl⟩
  · intro p hp
    rw [MP2.deliver]
    cases htype : p.type with
    | media => exact absurd htype hp
    | reset => rfl
    | «end» => rfl

theorem mp4_delivers : Delivers MP4.unpack MP4.deliver := by
  constructor
  · intro p hp
    rw [MP4.deliver, hp]
    exact .inl rfl
  · intro p hp
    rw [MP4.deliver]
    cases htype : p.type with
    | media => exact absurd htype hp
    | reset => rfl
    | «end» => rfl

/-- `unpack` is not run on an empty buffer. A control packet is routed once, when nothing is
waiting any more; a media packet waits. -/
def Handled (deliver : MediaPacket → Unpack δ Unit) (s : Unpacketizer δ) (p : MediaPacket) :
    Prop :=
  match (deliver p).run s with
  | .error e _ => e ≠ undefinedBehaviour "front of an empty queue"
  | .ok _ t => ∃ outs, (∀ q ∈ outs, q.type = .media) ∧
      if p.type = .media then t.routed = s.routed ++ outs ∧ t.vBuffer.getLast? = some p
      else t.vBuffer = [] ∧ ∃ iUnit, t.routed = s.routed ++ outs ++ [p.setUnit iUnit]

/-- The packets `ps` were all taken, and leave the state `s` behind. -/
def Reaches (deliver : MediaPacket → Unpack Unit Unit) (ps : List MediaPacket)
    (s : Unpacketizer Unit) : Prop :=
  (forM ps deliver : Unpack Unit Unit).run (Unpacketizer.init ()) = .ok () s

def EndsWithMedia (ps : List MediaPacket) : Prop :=
  ∃ q last, ps = q ++ [last] ∧ last.type = .media

/-- What is waiting after the packets `ps`. -/
structure Waiting (ps : List MediaPacket) (s : Unpacketizer δ) : Prop where
  media : MediaOnly s
  waits : s.vBuffer ≠ [] ↔ EndsWithMedia ps

variable {unpack : Unpack δ Unit} {deliver : MediaPacket → Unpack δ Unit}

theorem ends_snoc (ps : List MediaPacket) (p : MediaPacket) :
    EndsWithMedia (ps ++ [p]) ↔ p.type = .media := by
  constructor
  · rintro ⟨q, last, heq, hlast⟩
    have hsame : p = last := by simpa using (List.append_inj' heq rfl).2
    rw [hsame]
    exact hlast
  · intro hp
    exact ⟨ps, p, rfl, hp⟩

theorem stored_waiting {ps : List MediaPacket} {s : Unpacketizer δ} {p : MediaPacket}
    (h : MediaOnly s) (hp : p.type = .media) : Waiting (ps ++ [p]) (s.stored p) := by
  constructor
  · intro q hq
    rcases List.mem_append.mp hq with hq | hq
    · exact h q hq
    · rw [List.mem_singleton.mp hq]
      exact hp
  · rw [ends_snoc]
    simp [Unpacketizer.stored, hp]

/-- One packet, from a state in which something is waiting or the packet is a media packet. -/
theorem deliver_waiting (hunpack : Unpacks unpack) (hdeliver : Delivers unpack deliver)
    {ps : List MediaPacket} {s : Unpacketizer δ} (h : Waiting ps s) {p : MediaPacket}
    (hp : p.type = .media ∨ s.vBuffer ≠ []) :
    Triple (· = s) (deliver p)
      (fun _ t => Waiting (ps ++ [p]) t ∧ ∃ outs, (∀ q ∈ outs, q.type = .media) ∧
        if p.type = .media then t.routed = s.routed ++ outs ∧ t.vBuffer.getLast? = some p
        else t.vBuffer = [] ∧ ∃ iUnit, t.routed = s.routed ++ outs ++ [p.setUnit iUnit])
      (fun e _ => Thrown e) := by
  by_cases htype : p.type = .media
  · have hlast : ∀ t : Unpacketizer δ, (t.stored p).vBuffer.getLast? = some p := by
      intro t
      simp [Unpacketizer.stored]
    rcases hdeliver.media p htype with hd | ⟨e, he, hd⟩
    · rw [hd, Unpacketizer.receive]
      apply triple_get_bind
      rintro t rfl
      apply triple_ite
      · intro hnew
        have hne : t.vBuffer ≠ [] := by
          intro hnil
          rw [isNew_empty p hnil] at hnew
          cases hnew
        apply triple_bind (hunpack.full t hne h.media)
        intro _
        apply triple_modify
        intro u hu
        rcases hu.routed with ⟨outs, hrouted, houts⟩
        refine ⟨stored_waiting ?_ htype, outs, houts, ?_⟩
        · intro q hq
          rw [hu.buffer] at hq
          cases hq
        · rw [if_pos htype]
          exact ⟨hrouted, hlast u⟩
      · intro _
        apply triple_modify
        rintro u rfl
        refine ⟨stored_waiting h.media htype, [], by simp, ?_⟩
        rw [if_pos htype]
        exact ⟨(List.append_nil _).symm, hlast u⟩
    · rw [hd]
      exact triple_throw e fun _ _ => he
  · have hne : s.vBuffer ≠ [] := by
      rcases hp with hp | hp
      · exact absurd hp htype
      · exact hp
    rw [hdeliver.control p htype, Unpacketizer.receive_end]
    apply triple_bind (hunpack.full s hne h.media)
    intro _
    apply triple_modify
    intro u hu
    rcases hu.routed with ⟨outs, hrouted, houts⟩
    refine ⟨⟨?_, ?_⟩, outs, houts, ?_⟩
    · intro q hq
      rw [show (u.emit p).vBuffer = [] from hu.buffer] at hq
      cases hq
    · rw [ends_snoc]
      constructor
      · intro hbuffer
        exact absurd hu.buffer hbuffer
      · intro hmedia
        exact absurd hmedia htype
    · rw [if_neg htype]
      refine ⟨hu.buffer, u.iUnit, ?_⟩
      rw [Unpacketizer.emit, hrouted]

/-- A control packet when nothing is waiting. -/
theorem deliver_empty (hunpack : Unpacks unpack) (hdeliver : Delivers unpack deliver)
    {s : Unpacketizer δ} (h : s.vBuffer = []) {p : MediaPacket} (hp : p.type ≠ .media) :
    (deliver p).run s = .error (undefinedBehaviour "front of an empty queue") s := by
  rw [hdeliver.control p hp, Unpacketizer.receive_end]
  exact run_bind_of_error (hunpack.empty s h)

theorem handled_iff (hunpack : Unpacks unpack) (hdeliver : Delivers unpack deliver)
    {ps : List MediaPacket} {s : Unpacketizer δ} (h : Waiting ps s) (p : MediaPacket) :
    Handled deliver s p ↔ (p.type ≠ .media → EndsWithMedia ps) := by
  rw [← h.waits]
  by_cases hp : p.type = .media ∨ s.vBuffer ≠ []
  · have hstep := (deliver_waiting hunpack hdeliver h hp).exits s rfl
    have hhandled : Handled deliver s p := by
      rw [Handled]
      cases hrun : (deliver p).run s with
      | ok a t =>
        rw [hrun] at hstep
        exact hstep.2
      | error e t =>
        rw [hrun] at hstep
        exact hstep _
    refine ⟨fun _ hcontrol => ?_, fun _ => hhandled⟩
    rcases hp with hp | hp
    · exact absurd hp hcontrol
    · exact hp
  · push Not at hp
    rw [Handled, deliver_empty hunpack hdeliver hp.2 hp.1]
    constructor
    · intro hne
      exact absurd rfl hne
    · intro hall
      exact absurd hp.2 (hall hp.1)

theorem reaches_waiting {unpack : Unpack Unit Unit} {deliver : MediaPacket → Unpack Unit Unit}
    (hunpack : Unpacks unpack) (hdeliver : Delivers unpack deliver) (ps : List MediaPacket)
    {s : Unpacketizer Unit} (h : Reaches deliver ps s) : Waiting ps s := by
  induction ps using List.reverseRecOn generalizing s with
  | nil =>
    cases h
    refine ⟨by simp [MediaOnly, Unpacketizer.init], ?_⟩
    simp [Unpacketizer.init, EndsWithMedia]
  | append_singleton ps p ih =>
    rw [Reaches, List.forM_append, run_bind_ok] at h
    rcases h with ⟨_, t, hps, hp⟩
    have ht := ih hps
    rw [List.forM_cons, List.forM_nil, run_bind_ok] at hp
    rcases hp with ⟨_, u, hrun, hlast⟩
    cases hlast
    by_cases hready : p.type = .media ∨ t.vBuffer ≠ []
    · exact (triple_ok (deliver_waiting hunpack hdeliver ht hready) rfl hrun).1
    · push Not at hready
      rw [deliver_empty hunpack hdeliver hready.2 hready.1] at hrun
      cases hrun

/-- Every packet that arrives is handled. -/
def AllHandled (deliver : MediaPacket → Unpack Unit Unit) (ps : List MediaPacket) : Prop :=
  ∀ before p rest s, ps = before ++ p::rest → Reaches deliver before s → Handled deliver s p

/-- Every control packet that arrives comes right behind a media packet. -/
def AllBehindMedia (deliver : MediaPacket → Unpack Unit Unit) (ps : List MediaPacket) : Prop :=
  ∀ before p rest s, ps = before ++ p::rest → Reaches deliver before s → p.type ≠ .media →
    EndsWithMedia before

theorem all_handled_iff {unpack : Unpack Unit Unit} {deliver : MediaPacket → Unpack Unit Unit}
    (hunpack : Unpacks unpack) (hdeliver : Delivers unpack deliver) (ps : List MediaPacket) :
    AllHandled deliver ps ↔ AllBehindMedia deliver ps := by
  constructor
  · intro h before p rest s hps hreach
    have hwaiting := reaches_waiting hunpack hdeliver before hreach
    exact (handled_iff hunpack hdeliver hwaiting p).mp (h before p rest s hps hreach)
  · intro h before p rest s hps hreach
    have hwaiting := reaches_waiting hunpack hdeliver before hreach
    exact (handled_iff hunpack hdeliver hwaiting p).mpr (h before p rest s hps hreach)

end Sirannon.Packetization
