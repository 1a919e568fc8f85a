import Sirannon.ProcessorManager
import Std.Data.String.ToNat

/-!
# Play requests of an RTMP session

Each play request makes a streamer in the session's own processor manager,
after it has the manager stop the streamer of the request before it. The
thread that reads the requests and the one that schedules the streamers take
turns in any order.
-/

set_option autoImplicit false

namespace Sirannon.RTMPPlay
open Bits Manager

/-- `reading` is whether the thread that reads the client's messages still runs. `streamer` says
which of the components that were created are streamers. -/
structure RTMPSession where
  oProcessorManager : ProcessorManager
  pStreamer : Option ℕ
  pStreamerInterface : Option ℕ
  iStreamer : ℕ
  bStop : Bool
  reading : Bool
  streamer : ℕ → Bool

def RTMPSession.new (sName : String) : RTMPSession where
  oProcessorManager := ProcessorManager.new sName
  pStreamer := none
  pStreamerInterface := none
  iStreamer := 0
  bStop := false
  reading := true
  streamer := fun _ => false

/-- A play request. The client chose the application `sApp`, which is the type of the component to
make; `known` and `streamer` are the registered types and those that are streamers, `factory`,
`init` and `components` what making it, initialising it and making its own components raise. -/
structure Request where
  sApp : String
  known : String → Bool
  streamer : String → Bool
  factory : Factory
  init : Option SirannonException
  components : Option SirannonException

def streamerName (iStreamer : ℕ) : String := "streamer-" ++ toString iStreamer

/-- The name of a component that was deleted cannot be asked for. -/
def RTMPSession.stopStreamer (s : RTMPSession) : Option RTMPSession :=
  match s.pStreamer with
  | none => some s
  | some i =>
    if s.oProcessorManager.deleted i ≠ 0 then none
    else some { s with oProcessorManager :=
      (s.oProcessorManager.stopProcessor (s.oProcessorManager.sName i)).2 }

def createProcessorDynamic (m : ProcessorManager) (p : Request) (sName : String) :
    Except SirannonException ℕ × ProcessorManager :=
  match m.createProcessor p.known p.factory p.sApp sName with
  | (.error e, m) => (.error e, m)
  | (.ok i, m) =>
    match p.init with
    | some e => (.error e, m)
    | none => (.ok i, m)

def RTMPSession.createStreamer (s : RTMPSession) (p : Request) :
    Except SirannonException ℤ × RTMPSession :=
  let made := createProcessorDynamic s.oProcessorManager p (streamerName s.iStreamer)
  let s := { s with
    iStreamer := s.iStreamer+1
    oProcessorManager := made.2
    streamer := Function.update s.streamer s.oProcessorManager.created (p.streamer p.sApp) }
  match made.1 with
  | .error e => (.error e, s)
  | .ok i =>
    if p.streamer p.sApp = false then
      (.ok (-1), { s with pStreamer := some i, pStreamerInterface := none })
    else
      match p.components with
      | some e => (.error e, { s with pStreamer := some i, pStreamerInterface := some i })
      | none => (.ok 0, { s with pStreamer := some i, pStreamerInterface := some i })

/-- `none` is undefined behaviour. -/
def RTMPSession.createStream (s : RTMPSession) (p : Request) :
    Option (Except SirannonException ℤ × RTMPSession) :=
  match s.stopStreamer with
  | none => none
  | some s => some (s.createStreamer p)

/-- An error or a failure ends the reading thread. -/
def RTMPSession.handlePlay (s : RTMPSession) (p : Request) : RTMPSession :=
  match s.createStream p with
  | none => s
  | some (.ok 0, s) => s
  | some (_, s) => { s with reading := false }

/-- A component that raises an error in a pass ends the session. -/
def RTMPSession.process (s : RTMPSession) (behave : ℕ → Scheduled) : RTMPSession :=
  match ProcessorManager.pass behave s.oProcessorManager.mProcessors.toList s.oProcessorManager with
  | (none, _) =>
    { s with oProcessorManager := (s.oProcessorManager.scheduleProcessors behave).2 }
  | (some _, _) =>
    { s with
      oProcessorManager := (s.oProcessorManager.scheduleProcessors behave).2
      bStop := true }

/-- What may come next: a play request, a scheduling pass, a component that ends by itself, the end
of the reading thread, or the end of the session. -/
inductive Step
  | play (p : Request)
  | process (behave : ℕ → Scheduled)
  | ended (i : ℕ)
  | closed
  | stop

def RTMPSession.stepped (s : RTMPSession) : Step → RTMPSession
  | .play p => if s.reading = true then s.handlePlay p else s
  | .process behave => if s.bStop = true then s else s.process behave
  | .ended i => { s with oProcessorManager := s.oProcessorManager.ended i }
  | .closed => { s with reading := false }
  | .stop => { s with bStop := true }

/-! ## One streamer -/

/-- No streamer was made after `i`. -/
def RTMPSession.Newest (s : RTMPSession) (i : ℕ) : Prop :=
  ∀ j < s.oProcessorManager.created, s.streamer j = true → j ≤ i

/-- The newest streamer is the only one in the manager that has not ended. -/
def RTMPSession.Alone (s : RTMPSession) : Prop :=
  ∀ (n : String) i, s.oProcessorManager.mProcessors[n]? = some i → s.streamer i = true →
    s.oProcessorManager.stopped i = false → s.Newest i

/-- The newest streamer is the only one in the manager. -/
def RTMPSession.Left (s : RTMPSession) : Prop :=
  ∀ (n : String) i, s.oProcessorManager.mProcessors[n]? = some i → s.streamer i = true → s.Newest i

/-- The session's streamer is the newest, and runs. -/
def RTMPSession.Plays (s : RTMPSession) : Prop :=
  ∃ i, s.pStreamer = some i ∧ s.streamer i = true ∧ s.Newest i ∧
    s.oProcessorManager.stopped i = false ∧
    ∃ n : String, s.oProcessorManager.mProcessors[n]? = some i

def Sound (s : RTMPSession) : Step → Prop
  | .play p => s.reading = true → ∃ result s', s.createStream p = some (result, s') ∧ s'.Alone ∧
      (result.toOption = some 0 → s'.Plays)
  | .process behave => s.bStop = false → (s.process behave).bStop = false → (s.process behave).Left
  | _ => True

def SoundAll (s : RTMPSession) : List Step → Prop
  | [] => True
  | a::steps => Sound s a ∧ SoundAll (s.stepped a) steps

/-- A play request finds its session's streamer not deleted, and makes a streamer only where every
earlier one has ended by itself. -/
def Ready (s : RTMPSession) : Step → Prop
  | .play p => s.reading = true →
      (∀ i, s.pStreamer = some i → s.oProcessorManager.deleted i = 0) ∧
      (p.known p.sApp = true → p.factory = none → p.streamer p.sApp = true →
        ∀ i < s.oProcessorManager.created, s.streamer i = true →
          s.oProcessorManager.stopped i = true)
  | _ => True

def ReadyAll (s : RTMPSession) : List Step → Prop
  | [] => True
  | a::steps => Ready s a ∧ ReadyAll (s.stepped a) steps

variable {s : RTMPSession}

/-! ## Names -/

theorem toString_digits (k : ℕ) : (toString k).toList = Nat.toDigits 10 k := by
  rw [Nat.toString_eq_ofList_toDigits, String.toList_ofList]

theorem streamerName_dotless (k : ℕ) : '.' ∉ (streamerName k).toList := by
  rw [streamerName, String.toList_append, toString_digits, List.mem_append]
  rintro (hdot | hdot)
  · revert hdot
    decide
  · have hdigit := Nat.isDigit_of_mem_toDigits (by omega) (by omega) hdot
    revert hdigit
    decide

theorem streamerName_injective {j k : ℕ} (h : streamerName j = streamerName k) : j = k := by
  have hlist := congrArg String.toList h
  simp only [streamerName, String.toList_append] at hlist
  exact Nat.repr_injective (String.toList_injective (List.append_cancel_left hlist))

/-- The names in the manager are those of the streamers so far. -/
structure Kept (s : RTMPSession) : Prop where
  integrity : Integrity s.oProcessorManager
  dotless : Dotless s.oProcessorManager
  numbered : ∀ n ∈ s.oProcessorManager.mProcessors, ∃ k < s.iStreamer, n = streamerName k
  known : ∀ i, s.pStreamer = some i → i < s.oProcessorManager.created

theorem kept_new (sName : String) : Kept (RTMPSession.new sName) := by
  constructor
  · exact integrity_new sName
  · exact dotless_new sName
  · intro n hn
    simp [RTMPSession.new, ProcessorManager.new] at hn
  · intro i hi
    cases hi

theorem name_unused (h : Kept s) : streamerName s.iStreamer ∉ s.oProcessorManager.mProcessors := by
  intro hused
  rcases h.numbered _ hused with ⟨k, hk, hname⟩
  have heq := streamerName_injective hname
  omega

/-- The full name of the session's streamer is not one the manager knows: nothing is stopped. -/
theorem stop_nothing (h : Kept s) (hlive : ∀ i, s.pStreamer = some i →
    s.oProcessorManager.deleted i = 0) : s.stopStreamer = some s := by
  unfold RTMPSession.stopStreamer
  cases hstreamer : s.pStreamer with
  | none => rfl
  | some i =>
    have hzero := hlive i hstreamer
    rcases h.integrity.held i (h.known i hstreamer) hzero with ⟨n, hname, -⟩
    have hunused := fullName_unused h.dotless n
    have hnone : s.oProcessorManager.mProcessors[s.oProcessorManager.sName i]? = none := by
      rw [hname]
      apply Std.TreeMap.getElem?_eq_none
      intro hmem
      have hcontains : s.oProcessorManager.mProcessors.contains (s.oProcessorManager.fullName n) =
          true := by simpa using hmem
      rw [hunused] at hcontains
      cases hcontains
    show (if s.oProcessorManager.deleted i ≠ 0 then none else _) = _
    rw [if_neg (by simpa using hzero), ProcessorManager.stopProcessor, hnone, ← hstreamer]

theorem stop_deleted {i : ℕ} (hstreamer : s.pStreamer = some i)
    (hdeleted : s.oProcessorManager.deleted i ≠ 0) : s.stopStreamer = none := by
  unfold RTMPSession.stopStreamer
  rw [hstreamer]
  exact if_pos hdeleted

/-! ## A play request -/

/-- A component that is made is entered, also where initialising it raises an error. -/
theorem made_entered (h : Kept s) {p : Request} (hknown : p.known p.sApp = true)
    (hfactory : p.factory = none) :
    (createProcessorDynamic s.oProcessorManager p (streamerName s.iStreamer)).2 =
      s.oProcessorManager.enter (streamerName s.iStreamer) ∧
    ∀ i, (createProcessorDynamic s.oProcessorManager p (streamerName s.iStreamer)).1 = .ok i →
      i = s.oProcessorManager.created := by
  have hcreate : s.oProcessorManager.createProcessor p.known p.factory p.sApp
      (streamerName s.iStreamer) = (.ok s.oProcessorManager.created,
        s.oProcessorManager.enter (streamerName s.iStreamer)) := by
    rw [hfactory]
    exact create_unused (streamerName_dotless _) hknown (name_unused h)
  unfold createProcessorDynamic
  rw [hcreate]
  cases p.init with
  | some e => exact ⟨rfl, fun i hi => nomatch hi⟩
  | none => exact ⟨rfl, fun i hi => by cases hi; rfl⟩

theorem made_refused {p : Request} (m : ProcessorManager) (sName : String)
    (hmade : ¬ (p.known p.sApp = true ∧ p.factory = none)) :
    ∃ e, createProcessorDynamic m p sName = (.error e, m) := by
  have hcreate : ∃ e, m.createProcessor p.known p.factory p.sApp sName = (.error e, m) := by
    unfold ProcessorManager.createProcessor
    by_cases hdot : '.' ∈ sName.toList
    · rw [if_pos hdot]
      exact ⟨_, rfl⟩
    rw [if_neg hdot]
    by_cases hknown : p.known p.sApp = false
    · rw [if_pos hknown]
      exact ⟨_, rfl⟩
    rw [if_neg hknown]
    by_cases hused : m.mProcessors.contains sName = true
    · rw [if_pos hused]
      exact ⟨_, rfl⟩
    rw [if_neg hused]
    cases hfactory : p.factory with
    | some e => exact ⟨e, rfl⟩
    | none => exact absurd ⟨by simpa using hknown, hfactory⟩ hmade
  rcases hcreate with ⟨e, he⟩
  unfold createProcessorDynamic
  rw [he]
  exact ⟨e, rfl⟩

/-- What `createStreamer` does to the session besides the manager. -/
theorem createStreamer_shape (s : RTMPSession) (p : Request) :
    (s.createStreamer p).2.oProcessorManager =
      (createProcessorDynamic s.oProcessorManager p (streamerName s.iStreamer)).2 ∧
    (s.createStreamer p).2.streamer =
      Function.update s.streamer s.oProcessorManager.created (p.streamer p.sApp) ∧
    (s.createStreamer p).2.iStreamer = s.iStreamer+1 ∧
    ((s.createStreamer p).2.pStreamer = s.pStreamer ∨ ∃ i,
      (createProcessorDynamic s.oProcessorManager p (streamerName s.iStreamer)).1 = .ok i ∧
      (s.createStreamer p).2.pStreamer = some i) := by
  unfold RTMPSession.createStreamer
  simp only
  cases hmade : (createProcessorDynamic s.oProcessorManager p (streamerName s.iStreamer)).1 with
  | error e => exact ⟨rfl, rfl, rfl, .inl rfl⟩
  | ok i =>
    simp only
    by_cases hstreamer : p.streamer p.sApp = false
    · rw [if_pos hstreamer]
      exact ⟨rfl, rfl, rfl, .inr ⟨i, rfl, rfl⟩⟩
    · rw [if_neg hstreamer]
      cases p.components with
      | some e => exact ⟨rfl, rfl, rfl, .inr ⟨i, rfl, rfl⟩⟩
      | none => exact ⟨rfl, rfl, rfl, .inr ⟨i, rfl, rfl⟩⟩

/-- A request that succeeds leaves the streamer it made as the session's. -/
theorem createStreamer_ok {p : Request} (hok : (s.createStreamer p).1.toOption = some 0) :
    p.streamer p.sApp = true ∧ ∃ i,
      (createProcessorDynamic s.oProcessorManager p (streamerName s.iStreamer)).1 = .ok i ∧
      (s.createStreamer p).2.pStreamer = some i := by
  unfold RTMPSession.createStreamer at hok ⊢
  simp only at hok ⊢
  cases hmade : (createProcessorDynamic s.oProcessorManager p (streamerName s.iStreamer)).1 with
  | error e =>
    rw [hmade] at hok
    cases hok
  | ok i =>
    rw [hmade] at hok
    simp only at hok ⊢
    by_cases hstreamer : p.streamer p.sApp = false
    · rw [if_pos hstreamer] at hok
      cases hok
    · rw [if_neg hstreamer] at hok ⊢
      refine ⟨by simpa using hstreamer, i, rfl, ?_⟩
      cases p.components with
      | some e => rfl
      | none => rfl

/-! ## What a step leaves -/

/-- What only takes components out or ends them leaves at most the newest streamer running. -/
theorem alone_carried {s s' : RTMPSession} (h : Kept s) (halone : s.Alone)
    (hmap : ∀ (n : String) i, s'.oProcessorManager.mProcessors[n]? = some i →
      s.oProcessorManager.mProcessors[n]? = some i)
    (hstopped : ∀ i, s.oProcessorManager.stopped i = true → s'.oProcessorManager.stopped i = true)
    (hcreated : s'.oProcessorManager.created = s.oProcessorManager.created)
    (hstreamer : ∀ i < s.oProcessorManager.created, s'.streamer i = s.streamer i) : s'.Alone := by
  intro n i hi his hrunning j hj hjs
  have hlisted := hmap n i hi
  have hlt := h.integrity.known n i hlisted
  rw [hcreated] at hj
  rw [hstreamer i hlt] at his
  rw [hstreamer j hj] at hjs
  have hran : s.oProcessorManager.stopped i = false := by
    by_contra hended
    rw [hstopped i (by simpa using hended)] at hrunning
    cases hrunning
  exact halone n i hlisted his hran j hj hjs

section
variable {p : Request}

theorem streamer_old (s : RTMPSession) (p : Request) {i : ℕ}
    (hi : i < s.oProcessorManager.created) :
    (s.createStreamer p).2.streamer i = s.streamer i := by
  rw [(createStreamer_shape s p).2.1]
  exact Function.update_of_ne (by omega) ..

theorem streamer_new (s : RTMPSession) (p : Request) :
    (s.createStreamer p).2.streamer s.oProcessorManager.created = p.streamer p.sApp := by
  rw [(createStreamer_shape s p).2.1]
  exact Function.update_self ..

theorem alone_refused (h : Kept s) (halone : s.Alone)
    (hmade : ¬ (p.known p.sApp = true ∧ p.factory = none)) : (s.createStreamer p).2.Alone := by
  rcases made_refused s.oProcessorManager (streamerName s.iStreamer) hmade with ⟨e, he⟩
  have hsame : (s.createStreamer p).2.oProcessorManager = s.oProcessorManager := by
    rw [(createStreamer_shape s p).1, he]
  apply alone_carried h halone
  · intro n i hi
    rwa [hsame] at hi
  · intro i hi
    rwa [hsame]
  · rw [hsame]
  · intro i hi
    exact streamer_old s p hi

theorem alone_other (h : Kept s) (halone : s.Alone) (hknown : p.known p.sApp = true)
    (hfactory : p.factory = none) (hother : p.streamer p.sApp = false) :
    (s.createStreamer p).2.Alone := by
  have hentered : (s.createStreamer p).2.oProcessorManager =
      s.oProcessorManager.enter (streamerName s.iStreamer) := by
    rw [(createStreamer_shape s p).1, (made_entered h hknown hfactory).1]
  have hnew := streamer_new s p
  rw [hother] at hnew
  intro n i hi his hrunning j hj hjs
  rw [hentered] at hi hrunning hj
  rw [enter_map] at hi
  split_ifs at hi
  · cases hi
    rw [hnew] at his
    cases his
  · have hlt := h.integrity.known n i hi
    have hjlt : j < s.oProcessorManager.created := by
      have hj' : j < s.oProcessorManager.created+1 := hj
      by_contra hge
      have heq : j = s.oProcessorManager.created := by omega
      rw [heq, hnew] at hjs
      cases hjs
    rw [streamer_old s p hlt] at his
    rw [streamer_old s p hjlt] at hjs
    rw [(enter_old s.oProcessorManager _ hlt).2.1] at hrunning
    exact halone n i hi his hrunning j hjlt hjs

/-- A new streamer runs alone exactly when every earlier one has ended by itself. -/
theorem alone_streamer (h : Kept s) (hknown : p.known p.sApp = true) (hfactory : p.factory = none)
    (hstreamer : p.streamer p.sApp = true) : (s.createStreamer p).2.Alone ↔
      ∀ i < s.oProcessorManager.created, s.streamer i = true →
        s.oProcessorManager.stopped i = true := by
  have hentered : (s.createStreamer p).2.oProcessorManager =
      s.oProcessorManager.enter (streamerName s.iStreamer) := by
    rw [(createStreamer_shape s p).1, (made_entered h hknown hfactory).1]
  have hnew := streamer_new s p
  rw [hstreamer] at hnew
  constructor
  · intro halone i hi his
    by_contra hrunning
    have hlive : s.oProcessorManager.deleted i = 0 := by
      by_contra hdeleted
      exact hrunning (h.integrity.gone i hi hdeleted).2.1
    rcases h.integrity.held i hi hlive with ⟨n, -, hmap⟩
    have hlisted := (hmap n).mpr rfl
    have hnewest := halone n i (by
      rw [hentered, enter_map]
      split_ifs with hn
      · exact absurd (hn ▸ name_unused h) (by simp [Std.TreeMap.mem_iff_isSome_getElem?, hlisted])
      · exact hlisted) (by rwa [streamer_old s p hi]) (by
      rw [hentered, (enter_old s.oProcessorManager _ hi).2.1]
      simpa using hrunning)
    have hle := hnewest s.oProcessorManager.created (by
      rw [hentered]
      exact Nat.lt_succ_self _) hnew
    omega
  · intro hended n i hi his hrunning j hj hjs
    rw [hentered] at hi hrunning hj
    have hj' : j < s.oProcessorManager.created+1 := hj
    rw [enter_map] at hi
    split_ifs at hi
    · cases hi
      omega
    · have hlt := h.integrity.known n i hi
      rw [streamer_old s p hlt] at his
      rw [(enter_old s.oProcessorManager _ hlt).2.1, hended i hlt his] at hrunning
      cases hrunning

theorem plays_ok (h : Kept s) (hok : (s.createStreamer p).1.toOption = some 0) :
    (s.createStreamer p).2.Plays := by
  rcases createStreamer_ok hok with ⟨hstreamer, i, hmade, hsession⟩
  by_cases hable : p.known p.sApp = true ∧ p.factory = none
  · have hentered := made_entered h hable.1 hable.2
    have hmanager := (createStreamer_shape s p).1.trans hentered.1
    have hi := hentered.2 i hmade
    subst hi
    refine ⟨s.oProcessorManager.created, hsession, ?_, ?_, ?_, streamerName s.iStreamer, ?_⟩
    · rw [streamer_new, hstreamer]
    · intro j hj hjs
      rw [hmanager] at hj
      exact Nat.le_of_lt_succ hj
    · rw [hmanager]
      exact Function.update_self ..
    · rw [hmanager, enter_map, if_pos rfl]
  · rcases made_refused s.oProcessorManager (streamerName s.iStreamer) hable with ⟨e, he⟩
    rw [he] at hmade
    cases hmade

theorem kept_streamer (h : Kept s) : Kept (s.createStreamer p).2 := by
  rcases createStreamer_shape s p with ⟨hmanager, -, hcount, hsession⟩
  by_cases hable : p.known p.sApp = true ∧ p.factory = none
  · have hentered := made_entered h hable.1 hable.2
    rw [hentered.1] at hmanager
    constructor
    · rw [hmanager]
      exact integrity_enter h.integrity (name_unused h)
    · rw [hmanager]
      exact dotless_enter h.dotless (streamerName_dotless _)
    · intro n hn
      rw [hmanager, ProcessorManager.enter, Std.TreeMap.mem_insert] at hn
      rw [hcount]
      rcases hn with hn | hn
      · exact ⟨s.iStreamer, Nat.lt_succ_self _, by simpa using Eq.symm (by simpa using hn)⟩
      · rcases h.numbered n hn with ⟨k, hk, hname⟩
        exact ⟨k, by omega, hname⟩
    · intro i hi
      rw [hmanager]
      rcases hsession with hsame | ⟨j, hj, hsession⟩
      · rw [hsame] at hi
        exact Nat.lt_succ_of_lt (h.known i hi)
      · rw [hsession] at hi
        cases hi
        rw [hentered.2 i hj]
        exact Nat.lt_succ_self _
  · rcases made_refused s.oProcessorManager (streamerName s.iStreamer) hable with ⟨e, he⟩
    rw [he] at hmanager hsession
    constructor
    · rw [hmanager]
      exact h.integrity
    · rw [hmanager]
      exact h.dotless
    · intro n hn
      rw [hmanager] at hn
      rw [hcount]
      rcases h.numbered n hn with ⟨k, hk, hname⟩
      exact ⟨k, by omega, hname⟩
    · intro i hi
      rw [hmanager]
      rcases hsession with hsame | ⟨j, hj, -⟩
      · rw [hsame] at hi
        exact h.known i hi
      · cases hj

theorem createStream_live (h : Kept s) (hlive : ∀ i, s.pStreamer = some i →
    s.oProcessorManager.deleted i = 0) : s.createStream p = some (s.createStreamer p) := by
  rw [RTMPSession.createStream, stop_nothing h hlive]

theorem createStream_deleted {i : ℕ} (hstreamer : s.pStreamer = some i)
    (hdeleted : s.oProcessorManager.deleted i ≠ 0) : s.createStream p = none := by
  rw [RTMPSession.createStream, stop_deleted hstreamer hdeleted]

theorem sound_play (h : Kept s) (halone : s.Alone) : Sound s (.play p) ↔ Ready s (.play p) := by
  constructor
  · intro hsound hreading
    rcases hsound hreading with ⟨result, s', hcreate, hafter, -⟩
    have hlive : ∀ i, s.pStreamer = some i → s.oProcessorManager.deleted i = 0 := by
      intro i hi
      by_contra hdeleted
      rw [createStream_deleted hi hdeleted] at hcreate
      cases hcreate
    refine ⟨hlive, ?_⟩
    intro hknown hfactory hstreamer
    rw [createStream_live h hlive] at hcreate
    have hs' := congrArg Prod.snd (Option.some.inj hcreate)
    simp only at hs'
    rw [← hs'] at hafter
    exact (alone_streamer h hknown hfactory hstreamer).mp hafter
  · rintro hready hreading
    rcases hready hreading with ⟨hlive, hended⟩
    refine ⟨(s.createStreamer p).1, (s.createStreamer p).2, createStream_live h hlive, ?_,
      plays_ok h⟩
    by_cases hable : p.known p.sApp = true ∧ p.factory = none
    · cases hstreamer : p.streamer p.sApp with
      | true =>
        exact (alone_streamer h hable.1 hable.2 hstreamer).mpr (hended hable.1 hable.2 hstreamer)
      | false => exact alone_other h halone hable.1 hable.2 hstreamer
    · exact alone_refused h halone hable

end

/-- The manager after a pass. -/
theorem process_manager (s : RTMPSession) (behave : ℕ → Scheduled) :
    (s.process behave).oProcessorManager = (s.oProcessorManager.scheduleProcessors behave).2 ∧
    (s.process behave).streamer = s.streamer ∧ (s.process behave).pStreamer = s.pStreamer ∧
    (s.process behave).iStreamer = s.iStreamer := by
  unfold RTMPSession.process
  rcases ProcessorManager.pass behave s.oProcessorManager.mProcessors.toList
    s.oProcessorManager with ⟨_ | e, m⟩
  · exact ⟨rfl, rfl, rfl, rfl⟩
  · exact ⟨rfl, rfl, rfl, rfl⟩

theorem process_done {behave : ℕ → Scheduled} (h : (s.process behave).bStop = false) :
    (ProcessorManager.pass behave s.oProcessorManager.mProcessors.toList
      s.oProcessorManager).1 = none := by
  unfold RTMPSession.process at h
  revert h
  rcases ProcessorManager.pass behave s.oProcessorManager.mProcessors.toList
    s.oProcessorManager with ⟨_ | e, m⟩
  · intro
    rfl
  · intro h
    cases h

/-- A pass takes components out and ends them, no more. -/
theorem scheduled_same (m : ProcessorManager) (behave : ℕ → Scheduled) :
    (∀ (n : String) i, (m.scheduleProcessors behave).2.mProcessors[n]? = some i →
      m.mProcessors[n]? = some i) ∧
    (∀ i, m.stopped i = true → (m.scheduleProcessors behave).2.stopped i = true) ∧
    (m.scheduleProcessors behave).2.created = m.created := by
  have hlisted (n : String) (i : ℕ) := pass_listed behave m.mProcessors.toList m (n := n) (i := i)
  have hstopped (i : ℕ) := pass_stopped behave m.mProcessors.toList m (i := i)
  have hcreated := pass_created behave m.mProcessors.toList m
  rcases scheduled_pass m behave with hsame | hsame
  · rw [hsame]
    exact ⟨hlisted, hstopped, hcreated⟩
  · rw [hsame]
    exact ⟨hlisted, hstopped, hcreated⟩

theorem kept_process (h : Kept s) (behave : ℕ → Scheduled) : Kept (s.process behave) := by
  rcases process_manager s behave with ⟨hmanager, -, hsession, hcount⟩
  have hsame := scheduled_same s.oProcessorManager behave
  constructor
  · rw [hmanager]
    exact integrity_scheduled h.integrity behave
  · rw [hmanager]
    exact dotless_stepped h.dotless (.scheduleProcessors behave)
  · intro n hn
    rw [hmanager] at hn
    rw [hcount]
    apply h.numbered
    have hlisted := hsame.1 n _ (Std.TreeMap.getElem?_eq_some_getElem hn)
    by_contra hout
    rw [Std.TreeMap.getElem?_eq_none hout] at hlisted
    cases hlisted
  · intro i hi
    rw [hsession] at hi
    rw [hmanager, hsame.2.2]
    exact h.known i hi

theorem alone_process (h : Kept s) (halone : s.Alone) (behave : ℕ → Scheduled) :
    (s.process behave).Alone := by
  rcases process_manager s behave with ⟨hmanager, hstreamer, -, -⟩
  have hsame := scheduled_same s.oProcessorManager behave
  apply alone_carried h halone
  · intro n i hi
    rw [hmanager] at hi
    exact hsame.1 n i hi
  · intro i hi
    rw [hmanager]
    exact hsame.2.1 i hi
  · rw [hmanager]
    exact hsame.2.2
  · intro i _
    rw [hstreamer]

/-- After a pass only the newest streamer is left: those that had ended were deleted. -/
theorem left_process (h : Kept s) (halone : s.Alone) {behave : ℕ → Scheduled}
    (hdone : (s.process behave).bStop = false) : (s.process behave).Left := by
  rcases process_manager s behave with ⟨hmanager, hstreamer, -, -⟩
  rcases scheduled_same s.oProcessorManager behave with ⟨hlisted, -, hcreated⟩
  intro n i hi his j hj hjs
  rw [hmanager] at hi hj
  rw [hstreamer] at his hjs
  rw [hcreated] at hj
  have hbefore := hlisted n i hi
  have hran : s.oProcessorManager.stopped i = false := by
    by_contra hended
    have hswept := sweeps_scheduled h.integrity behave (process_done hdone) n i hbefore
      (by simpa using hended)
    have hlive := listed_live (integrity_scheduled h.integrity behave) hi
    omega
  exact halone n i hbefore his hran j hj hjs

theorem kept_ended (h : Kept s) (i : ℕ) :
    Kept { s with oProcessorManager := s.oProcessorManager.ended i } := by
  have hsame := ended_same s.oProcessorManager i
  constructor
  · exact integrity_ended h.integrity i
  · exact dotless_stepped h.dotless (.ended i)
  · intro n hn
    have hn' : n ∈ (s.oProcessorManager.ended i).mProcessors := hn
    rw [hsame.1] at hn'
    exact h.numbered n hn'
  · intro j hj
    show j < (s.oProcessorManager.ended i).created
    rw [ended_created]
    exact h.known j hj

theorem alone_ended (h : Kept s) (halone : s.Alone) (i : ℕ) :
    RTMPSession.Alone { s with oProcessorManager := s.oProcessorManager.ended i } := by
  have hsame := ended_same s.oProcessorManager i
  apply alone_carried h halone
  · intro n j hj
    have hj' : (s.oProcessorManager.ended i).mProcessors[n]? = some j := hj
    rwa [hsame.1] at hj'
  · exact hsame.2.2
  · exact ended_created s.oProcessorManager i
  · intro j _
    rfl

/-! ## Whole runs -/

/-- Where the reading thread goes on after a request, and where it ends, the session is the same. -/
theorem handlePlay_cases (h : Kept s) (p : Request) : s.handlePlay p = s ∨
    s.createStream p = some (s.createStreamer p) ∧
      (s.handlePlay p = (s.createStreamer p).2 ∨
        s.handlePlay p = { (s.createStreamer p).2 with reading := false }) := by
  unfold RTMPSession.handlePlay
  by_cases hlive : ∀ i, s.pStreamer = some i → s.oProcessorManager.deleted i = 0
  · right
    rw [createStream_live h hlive]
    refine ⟨rfl, ?_⟩
    rcases s.createStreamer p with ⟨e | k, s'⟩
    · exact .inr rfl
    · by_cases hk : k = 0
      · subst hk
        exact .inl rfl
      · right
        split
        · next heq => cases heq
        · next heq => cases heq; exact absurd rfl hk
        · next heq => cases heq; rfl
  · left
    push Not at hlive
    rcases hlive with ⟨i, hi, hdeleted⟩
    rw [createStream_deleted hi hdeleted]

theorem kept_reading (h : Kept s) (b : Bool) : Kept { s with reading := b } :=
  ⟨h.integrity, h.dotless, h.numbered, h.known⟩

theorem alone_reading (h : s.Alone) (b : Bool) : RTMPSession.Alone { s with reading := b } := h

theorem kept_stepped (h : Kept s) (a : Step) : Kept (s.stepped a) := by
  cases a with
  | play p =>
    rw [RTMPSession.stepped]
    split_ifs
    · rcases handlePlay_cases h p with hsame | ⟨-, hsame | hsame⟩
      · rwa [hsame]
      · rw [hsame]
        exact kept_streamer h
      · rw [hsame]
        exact kept_reading (kept_streamer h) false
    · exact h
  | process behave =>
    rw [RTMPSession.stepped]
    split_ifs
    · exact h
    · exact kept_process h behave
  | ended i => exact kept_ended h i
  | closed => exact ⟨h.integrity, h.dotless, h.numbered, h.known⟩
  | stop => exact ⟨h.integrity, h.dotless, h.numbered, h.known⟩

theorem alone_stepped (h : Kept s) (halone : s.Alone) {a : Step} (hsound : Sound s a) :
    (s.stepped a).Alone := by
  cases a with
  | play p =>
    rw [RTMPSession.stepped]
    split_ifs with hreading
    · rcases hsound hreading with ⟨result, s', hcreate, hafter, -⟩
      rcases handlePlay_cases h p with hsame | ⟨hlive, hsame⟩
      · rwa [hsame]
      · rw [hlive] at hcreate
        have hs' : (s.createStreamer p).2 = s' := congrArg Prod.snd (Option.some.inj hcreate)
        rw [← hs'] at hafter
        rcases hsame with hsame | hsame
        · rwa [hsame]
        · rw [hsame]
          exact alone_reading hafter false
    · exact halone
  | process behave =>
    rw [RTMPSession.stepped]
    split_ifs
    · exact halone
    · exact alone_process h halone behave
  | ended i => exact alone_ended h halone i
  | closed => exact halone
  | stop => exact halone

theorem sound_step (h : Kept s) (halone : s.Alone) (a : Step) : Sound s a ↔ Ready s a := by
  cases a with
  | play p => exact sound_play h halone
  | process behave => exact iff_of_true (fun _ hdone => left_process h halone hdone) trivial
  | ended i => exact Iff.rfl
  | closed => exact Iff.rfl
  | stop => exact Iff.rfl

theorem soundAll_ready (steps : List Step) (h : Kept s) (halone : s.Alone) :
    SoundAll s steps ↔ ReadyAll s steps := by
  induction steps generalizing s with
  | nil => exact Iff.rfl
  | cons a steps ih =>
    have hstep := sound_step h halone a
    constructor
    · rintro ⟨hsound, hrest⟩
      exact ⟨hstep.mp hsound, (ih (kept_stepped h a) (alone_stepped h halone hsound)).mp hrest⟩
    · rintro ⟨hready, hrest⟩
      have hsound := hstep.mpr hready
      exact ⟨hsound, (ih (kept_stepped h a) (alone_stepped h halone hsound)).mpr hrest⟩

/-- At most one streamer of a session runs exactly in the runs in which every earlier streamer has
ended by itself, and is not deleted as the session's, whenever a new one is made. -/
theorem one_streamer_runs (sName : String) (steps : List Step) :
    SoundAll (RTMPSession.new sName) steps ↔ ReadyAll (RTMPSession.new sName) steps := by
  apply soundAll_ready steps (kept_new sName)
  intro n i hi
  simp [RTMPSession.new, ProcessorManager.new] at hi

/-- A file played twice is streamed twice. -/
def replay : Request where
  sApp := "streamer"
  known := fun sType => sType = "streamer"
  streamer := fun sType => sType = "streamer"
  factory := none
  init := none
  components := none

theorem replay_streams_twice :
    ¬ SoundAll (RTMPSession.new "RTMP-session-0") [.play replay, .play replay] := by
  rintro ⟨-, hsecond, -⟩
  rcases hsecond (by decide +kernel) with ⟨result, s', hcreate, halone, -⟩
  have hkept := kept_stepped (kept_new "RTMP-session-0") (.play replay)
  have hsession : ((RTMPSession.new "RTMP-session-0").stepped (.play replay)).pStreamer = some 0 :=
    by decide +kernel
  have hlive : ∀ i, ((RTMPSession.new "RTMP-session-0").stepped (.play replay)).pStreamer = some i →
      ((RTMPSession.new "RTMP-session-0").stepped (.play replay)).oProcessorManager.deleted i =
        0 := by
    intro i hi
    rw [hsession] at hi
    cases hi
    decide +kernel
  rw [createStream_live hkept hlive] at hcreate
  have hs' : s' = (((RTMPSession.new "RTMP-session-0").stepped (.play replay)).createStreamer
      replay).2 := (congrArg Prod.snd (Option.some.inj hcreate)).symm
  rw [hs'] at halone
  have hle := halone "streamer-0" 0 (by decide +kernel) (by decide +kernel) (by decide +kernel) 1
    (by decide +kernel) (by decide +kernel)
  omega

end Sirannon.RTMPPlay
