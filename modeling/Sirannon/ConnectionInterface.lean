import Sirannon.Scheduler

/-!
# Smart transfers

A connection hands over as much as it can at a time. The smart transfers call it
until all is through, it fails or the time is up, and report the last status.
-/

set_option autoImplicit false

namespace Sirannon.SmartTransfer
open Bits MachineInt Scheduling

def COM_AGAIN : ℤ := -2

structure ConnectionInterface where
  bBlocking : Bool
  bThrow : Bool

/-- Without the text that the system has for the last error. -/
def ConnectionInterface.evaluateStatus (c : ConnectionInterface) (iRet : ℤ) : Except SirannonException ℤ :=
  if 0 < iRet ∨ ¬c.bThrow then .ok iRet
  else if iRet = COM_AGAIN then
    if c.bBlocking then .error (ioError "Connection time-out") else .ok COM_AGAIN
  else if iRet = 0 then .error (ioError "Socket closed")
  else .error (ioError "Socket error")

/-- The call that a transfer rests on. -/
inductive Underlying
  | send | receive | sendfile
  deriving DecidableEq, Repr

/-- What a turn of the loop meets: the time at its check, and the reply of the underlying call. -/
structure Round where
  oCurrent : SirannonTime
  iVal : ℤ

/-- The bytes that the underlying call was asked for, and its reply. -/
structure Request where
  offset : ℕ
  len : ℕ
  iVal : ℤ

/-- `iDone` is the counter of the source; `iTotal` counts what was really transferred, which is where
`sendfile` goes on. -/
structure Progress where
  iDone : ℕ
  iTotal : ℕ
  iVal : ℤ
  requests : List Request

/-- How the loop was left, if it was. -/
inductive Ending
  | done | broken | elapsed | running
  deriving DecidableEq, Repr

/-- `SirannonTime::checkInterval` for an interval that starts at `oStart`. -/
def checkInterval (oStart oTimeOut oCurrent : SirannonTime) : Bool := later oStart oTimeOut < oCurrent

/-- How much the next call is asked for; with nothing left the loop ends. -/
def Underlying.left (u : Underlying) (iSize iDone : ℕ) : ℕ :=
  match u with
  | .send | .sendfile => iSize-iDone
  | .receive => uint32 ((iSize : ℤ)-iDone)

def Underlying.offset (u : Underlying) (p : Progress) : ℕ :=
  match u with
  | .send | .receive => p.iDone
  | .sendfile => p.iTotal

def Underlying.called (u : Underlying) (iSize : ℕ) (iVal : ℤ) (p : Progress) : Progress :=
  { iDone := if 0 < iVal then uint32 (p.iDone+iVal) else p.iDone
    iTotal := p.iTotal+iVal.toNat
    iVal := iVal
    requests := p.requests ++ [⟨u.offset p, u.left iSize p.iDone, iVal⟩] }

/-- Does the loop go on after this reply? -/
def ConnectionInterface.continues (c : ConnectionInterface) (iVal : ℤ) : Bool :=
  0 < iVal ∨ iVal = COM_AGAIN ∧ c.bBlocking

/-- The loop; `bElapsed` is the check of the time-out. -/
def transfer (c : ConnectionInterface) (u : Underlying) (bElapsed : SirannonTime → Bool) (iSize : ℕ) :
    List Round → Progress → Progress × Ending
  | rounds, p =>
    if u.left iSize p.iDone = 0 then (p, .done)
    else
      match rounds with
      | [] => (p, .running)
      | r::rounds =>
        if bElapsed r.oCurrent then (p, .elapsed)
        else if c.continues r.iVal then transfer c u bElapsed iSize rounds (u.called iSize r.iVal p)
        else (u.called iSize r.iVal p, .broken)

/-- What a call has done; without a status it is still at work. -/
structure Result where
  status : Option (Except SirannonException ℤ)
  requests : List Request

def start (iVal : ℤ) : Progress := ⟨0, 0, iVal, []⟩

/-- The last status is reported. -/
def ConnectionInterface.reported (c : ConnectionInterface) (r : Progress × Ending) : Result where
  status := if r.2 = .running then none else some (c.evaluateStatus r.1.iVal)
  requests := r.1.requests

def never (_ : SirannonTime) : Bool := false

def sendSmart (c : ConnectionInterface) (iSize : ℕ) (rounds : List Round) : Result :=
  c.reported (transfer c .send never iSize rounds (start 0))

/-- The overload with a time-out; the call starts at `oStart`. -/
def sendSmartTimed (c : ConnectionInterface) (iSize : ℕ) (oStart oTimeOut : SirannonTime) (rounds : List Round) :
    Result :=
  c.reported (transfer c .send (checkInterval oStart oTimeOut) iSize rounds (start 0))

def sendfileSmart (c : ConnectionInterface) (iSize : ℕ) (rounds : List Round) : Result :=
  c.reported (transfer c .sendfile never iSize rounds (start 0))

def sendfileSmartTimed (c : ConnectionInterface) (iSize : ℕ) (oStart oTimeOut : SirannonTime)
    (rounds : List Round) : Result :=
  c.reported (transfer c .sendfile (checkInterval oStart oTimeOut) iSize rounds (start 0))

/-- When all has come in, the size is returned and not the last status. -/
def receiveSmart (c : ConnectionInterface) (iSize : ℕ) (rounds : List Round) : Result :=
  let r := transfer c .receive never iSize rounds (start 0)
  if r.2 = .done then ⟨some (.ok (int32 iSize)), r.1.requests⟩ else c.reported r

def receiveSmartTimed (c : ConnectionInterface) (iSize : ℕ) (oStart oTimeOut : SirannonTime)
    (rounds : List Round) : Result :=
  c.reported (transfer c .receive (checkInterval oStart oTimeOut) iSize rounds (start (-1)))

/-! ## All or an error -/

def Request.amount (q : Request) : ℕ := q.iVal.toNat

def Round.amount (r : Round) : ℕ := r.iVal.toNat

/-- The underlying call never transfers more than it was asked for. -/
def Honest (r : Result) : Prop := ∀ q ∈ r.requests, q.amount ≤ q.len

/-- A positive status says that all `n` bytes went through, and no others were asked for. -/
structure AllOrError (n : ℕ) (r : Result) : Prop where
  all : ∀ iVal, r.status = some (.ok iVal) → 0 < iVal → (r.requests.map Request.amount).sum = n
  inside : ∀ q ∈ r.requests, q.offset+q.len ≤ n

/-- Rounds that the loop goes on after. -/
def Passes (c : ConnectionInterface) (bElapsed : SirannonTime → Bool) (front : List Round) : Prop :=
  ∀ q ∈ front, bElapsed q.oCurrent = false ∧ c.continues q.iVal = true

def lastVal (iVal : ℤ) (front : List Round) : ℤ := (front.map Round.iVal).getLastD iVal

def amounts (front : List Round) : ℕ := (front.map Round.amount).sum

/-- The time is up when something has just been transferred, but not all. -/
def CutOff (c : ConnectionInterface) (bElapsed : SirannonTime → Bool) (n iTotal : ℕ) (iVal : ℤ)
    (rounds : List Round) : Prop :=
  ∃ front r back, rounds = front ++ r::back ∧ Passes c bElapsed front ∧ bElapsed r.oCurrent = true ∧
    iTotal+amounts front < n ∧ 0 < lastVal iVal front

/-- The loop goes on behind 2^32 bytes, which the counter has lost then. -/
def Wrapped (c : ConnectionInterface) (bElapsed : SirannonTime → Bool) (n iTotal : ℕ) (rounds : List Round) : Prop :=
  2^32 ≤ n ∧ ∃ front r back, rounds = front ++ r::back ∧ Passes c bElapsed front ∧
    bElapsed r.oCurrent = false ∧ 2^32 ≤ iTotal+amounts front

variable {c : ConnectionInterface} {u : Underlying} {bElapsed : SirannonTime → Bool} {n iTotal : ℕ} {iVal : ℤ}
  {r : Round} {rounds front : List Round} {p : Progress}

theorem lastVal_cons (iVal : ℤ) (r : Round) (front : List Round) : lastVal iVal (r::front) = lastVal r.iVal front := by
  rw [lastVal, lastVal, List.map_cons, List.getLastD_cons]

theorem amounts_cons (r : Round) (front : List Round) : amounts (r::front) = r.amount+amounts front := by
  rw [amounts, amounts, List.map_cons, List.sum_cons]

theorem passes_cons : Passes c bElapsed (r::front) ↔
    (bElapsed r.oCurrent = false ∧ c.continues r.iVal = true) ∧ Passes c bElapsed front := by
  rw [Passes, List.forall_mem_cons]
  rfl

theorem cutOff_nil : ¬CutOff c bElapsed n iTotal iVal [] := by
  intro ⟨front, r, back, h, _⟩
  simp at h

theorem wrapped_nil : ¬Wrapped c bElapsed n iTotal [] := by
  intro ⟨_, front, r, back, h, _⟩
  simp at h

/-- At the next check or later. -/
theorem cutOff_cons : CutOff c bElapsed n iTotal iVal (r::rounds) ↔
    (bElapsed r.oCurrent = true ∧ iTotal < n ∧ 0 < iVal) ∨
      (bElapsed r.oCurrent = false ∧ c.continues r.iVal = true) ∧
        CutOff c bElapsed n (iTotal+r.amount) r.iVal rounds := by
  constructor
  · rintro ⟨front, q, back, h, hpasses, helapsed, hless, hpos⟩
    cases front with
    | nil =>
      cases h
      exact Or.inl ⟨helapsed, hless, hpos⟩
    | cons a front =>
      cases h
      rw [passes_cons] at hpasses
      rw [amounts_cons] at hless
      rw [lastVal_cons] at hpos
      exact Or.inr ⟨hpasses.1, front, q, back, rfl, hpasses.2, helapsed, by omega, hpos⟩
  · rintro (⟨helapsed, hless, hpos⟩ | ⟨hpass, front, q, back, h, hpasses, helapsed, hless, hpos⟩)
    · exact ⟨[], r, rounds, rfl, by simp [Passes], helapsed, hless, hpos⟩
    · refine ⟨r::front, q, back, by rw [h, List.cons_append], passes_cons.2 ⟨hpass, hpasses⟩, helapsed, ?_, ?_⟩
      · rw [amounts_cons]
        omega
      · rw [lastVal_cons]
        exact hpos

theorem wrapped_cons : Wrapped c bElapsed n iTotal (r::rounds) ↔
    (2^32 ≤ n ∧ bElapsed r.oCurrent = false ∧ 2^32 ≤ iTotal) ∨
      (bElapsed r.oCurrent = false ∧ c.continues r.iVal = true) ∧
        Wrapped c bElapsed n (iTotal+r.amount) rounds := by
  constructor
  · rintro ⟨hn, front, q, back, h, hpasses, helapsed, hmore⟩
    cases front with
    | nil =>
      cases h
      exact Or.inl ⟨hn, helapsed, hmore⟩
    | cons a front =>
      cases h
      rw [passes_cons] at hpasses
      rw [amounts_cons] at hmore
      exact Or.inr ⟨hpasses.1, hn, front, q, back, rfl, hpasses.2, helapsed, by omega⟩
  · rintro (⟨hn, helapsed, hmore⟩ | ⟨hpass, hn, front, q, back, h, hpasses, helapsed, hmore⟩)
    · exact ⟨hn, [], r, rounds, rfl, by simp [Passes], helapsed, hmore⟩
    · refine ⟨hn, r::front, q, back, by rw [h, List.cons_append], passes_cons.2 ⟨hpass, hpasses⟩, helapsed, ?_⟩
      rw [amounts_cons]
      omega

/-! ## The loop -/

/-- The counter is right up to 2^32, and what was asked for so far was inside. -/
structure Counting (n : ℕ) (p : Progress) : Prop where
  iDone : p.iDone = p.iTotal % 2^32
  total : p.iTotal = (p.requests.map Request.amount).sum
  atMost : p.iTotal ≤ n
  inside : ∀ q ∈ p.requests, q.offset+q.len ≤ n

theorem start_counting (n : ℕ) (iVal : ℤ) : Counting n (start iVal) := by
  constructor
  · rfl
  · rfl
  · exact Nat.zero_le n
  · simp [start]

theorem transfer_grows (rounds : List Round) (p : Progress) :
    p.requests <+: (transfer c u bElapsed n rounds p).1.requests := by
  induction rounds generalizing p with
  | nil =>
    rw [transfer]
    split_ifs <;> exact List.prefix_rfl
  | cons r rounds ih =>
    rw [transfer]
    have hcalled : p.requests <+: (u.called n r.iVal p).requests := List.prefix_append _ _
    split_ifs
    · exact List.prefix_rfl
    · exact List.prefix_rfl
    · exact hcalled.trans (ih _)
    · exact hcalled

theorem left_eq (hu : u ≠ .sendfile → n < 2^32) (hp : Counting n p) :
    u.left n p.iDone = n-p.iTotal % 2^32 ∧ u.offset p = p.iTotal := by
  have hdone := hp.iDone
  have hle := hp.atMost
  cases u with
  | send =>
    have hn := hu (by decide)
    rw [Underlying.left, Underlying.offset, hdone]
    omega
  | receive =>
    have hn := hu (by decide)
    have hleft : uint32 ((n : ℤ)-p.iDone) = n-p.iTotal % 2^32 := by
      rw [uint32]
      omega
    rw [Underlying.left, Underlying.offset]
    exact ⟨hleft, by omega⟩
  | sendfile =>
    rw [Underlying.left, Underlying.offset, hdone]
    exact ⟨rfl, rfl⟩

/-- A call below 2^32 keeps the count. -/
theorem called_counting (hu : u ≠ .sendfile → n < 2^32) (hp : Counting n p) (hless : p.iTotal < 2^32)
    (hhonest : iVal.toNat ≤ u.left n p.iDone) : Counting n (u.called n iVal p) := by
  have hdone := hp.iDone
  have hle := hp.atMost
  obtain ⟨hleft, hoffset⟩ := left_eq hu hp
  rw [hleft] at hhonest
  constructor
  · show (if 0 < iVal then uint32 (p.iDone+iVal) else p.iDone) = (p.iTotal+iVal.toNat) % 2^32
    split_ifs
    · rw [uint32]
      omega
    · omega
  · show p.iTotal+iVal.toNat = ((p.requests ++ [_]).map Request.amount).sum
    rw [List.map_append, List.sum_append, ← hp.total]
    rfl
  · show p.iTotal+iVal.toNat ≤ n
    omega
  · intro q hq
    rcases List.mem_append.1 hq with hq | hq
    · exact hp.inside q hq
    · rw [List.mem_singleton.1 hq]
      dsimp only
      omega

/-- All went through when the last status is positive, and nothing else was asked for. -/
structure Exact (n : ℕ) (r : Progress × Ending) : Prop where
  all : r.2 ≠ .running → 0 < r.1.iVal → (r.1.requests.map Request.amount).sum = n
  inside : ∀ q ∈ r.1.requests, q.offset+q.len ≤ n

theorem counting_exact (hp : Counting n p) (e : Ending) (h : 0 < p.iVal → p.iTotal = n) : Exact n (p, e) := by
  constructor
  · intro _ hpos
    rw [← hp.total]
    exact h hpos
  · exact hp.inside

theorem continues_pos (h : c.continues iVal = false) : iVal ≤ 0 := by
  rw [ConnectionInterface.continues, decide_eq_false_iff_not] at h
  omega

theorem cutOff_all (h : n ≤ iTotal) : ¬CutOff c bElapsed n iTotal iVal rounds := by
  intro ⟨front, r, back, _, _, _, hless, _⟩
  omega

theorem wrapped_small (h : n < 2^32) : ¬Wrapped c bElapsed n iTotal rounds := by
  intro ⟨hn, _⟩
  omega

/-- With the counter right, the loop is left in time or goes on to the end. -/
theorem transfer_iff (hu : u ≠ .sendfile → n < 2^32) (hp : Counting n p)
    (hhonest : ∀ q ∈ (transfer c u bElapsed n rounds p).1.requests, q.amount ≤ q.len) :
    Exact n (transfer c u bElapsed n rounds p) ↔
      ¬CutOff c bElapsed n p.iTotal p.iVal rounds ∧ ¬Wrapped c bElapsed n p.iTotal rounds := by
  induction rounds generalizing p with
  | nil =>
    have hle := hp.atMost
    have hexact : Exact n (transfer c u bElapsed n [] p) := by
      rw [transfer]
      obtain ⟨hleft, -⟩ := left_eq hu hp
      split_ifs with hnone
      · apply counting_exact hp
        intro _
        omega
      · exact ⟨fun hrunning => absurd rfl hrunning, hp.inside⟩
    exact ⟨fun _ => ⟨cutOff_nil, wrapped_nil⟩, fun _ => hexact⟩
  | cons r rounds ih =>
    have hle := hp.atMost
    obtain ⟨hleft, hoffset⟩ := left_eq hu hp
    rw [transfer] at hhonest ⊢
    by_cases hnone : u.left n p.iDone = 0
    · rw [if_pos hnone]
      have hall : p.iTotal = n ∧ n < 2^32 := by omega
      exact ⟨fun _ => ⟨cutOff_all (by omega), wrapped_small hall.2⟩, fun _ => counting_exact hp _ fun _ => hall.1⟩
    · rw [if_neg hnone] at hhonest ⊢
      rw [cutOff_cons, wrapped_cons]
      cases helapsed : bElapsed r.oCurrent with
      | true =>
        rw [if_pos rfl]
        constructor
        · intro hexact
          constructor
          · rintro (⟨-, hless, hpos⟩ | ⟨⟨hfalse, -⟩, -⟩)
            · have hall := hexact.all (fun h => by cases h) hpos
              rw [← hp.total] at hall
              omega
            · cases hfalse
          · rintro (⟨-, hfalse, -⟩ | ⟨⟨hfalse, -⟩, -⟩)
            · cases hfalse
            · cases hfalse
        · intro ⟨hcut, _⟩
          apply counting_exact hp
          intro hpos
          by_contra hne
          exact hcut (Or.inl ⟨rfl, by omega, hpos⟩)
      | false =>
        rw [helapsed] at hhonest
        rw [if_neg (Bool.false_ne_true)] at hhonest ⊢
        -- The request is in the log, whatever comes next.
        have hlast : (⟨u.offset p, u.left n p.iDone, r.iVal⟩ : Request) ∈ (u.called n r.iVal p).requests :=
          List.mem_append_right _ (List.mem_singleton.2 rfl)
        have hmade : (⟨u.offset p, u.left n p.iDone, r.iVal⟩ : Request) ∈
            (if c.continues r.iVal = true then transfer c u bElapsed n rounds (u.called n r.iVal p)
              else (u.called n r.iVal p, Ending.broken)).1.requests := by
          split_ifs
          · exact (transfer_grows rounds _).subset hlast
          · exact hlast
        by_cases hwrap : 2^32 ≤ p.iTotal
        · constructor
          · intro hexact
            have hinside := hexact.inside _ hmade
            dsimp only at hinside
            omega
          · intro ⟨_, hwrapped⟩
            exact absurd (Or.inl ⟨by omega, rfl, hwrap⟩) hwrapped
        · have hcounting := called_counting hu hp (not_le.1 hwrap) (hhonest _ hmade)
          cases hcontinues : c.continues r.iVal with
          | true =>
            rw [hcontinues, if_pos rfl] at hhonest
            rw [if_pos rfl, ih hcounting hhonest]
            constructor
            · intro ⟨hcut, hwrapped⟩
              constructor
              · rintro (⟨hfalse, -⟩ | ⟨-, hcut'⟩)
                · cases hfalse
                · exact hcut hcut'
              · rintro (⟨-, -, hmore⟩ | ⟨-, hwrapped'⟩)
                · exact hwrap hmore
                · exact hwrapped hwrapped'
            · intro ⟨hcut, hwrapped⟩
              exact ⟨fun h => hcut (Or.inr ⟨⟨rfl, rfl⟩, h⟩), fun h => hwrapped (Or.inr ⟨⟨rfl, rfl⟩, h⟩)⟩
          | false =>
            rw [if_neg Bool.false_ne_true]
            constructor
            · intro _
              constructor
              · rintro (⟨hfalse, -⟩ | ⟨⟨-, hfalse⟩, -⟩)
                · cases hfalse
                · cases hfalse
              · rintro (⟨-, -, hmore⟩ | ⟨⟨-, hfalse⟩, -⟩)
                · exact hwrap hmore
                · cases hfalse
            · intro _
              apply counting_exact hcounting
              intro hpos
              exact absurd hpos (not_lt.2 (continues_pos hcontinues))

/-! ## The transfers -/

theorem evaluateStatus_pos {v : ℤ} (hv : 0 < v) : c.evaluateStatus iVal = .ok v ↔ iVal = v := by
  rw [ConnectionInterface.evaluateStatus]
  constructor
  · intro h
    split_ifs at h
    · exact Except.ok.inj h
    · have hagain : COM_AGAIN = v := Except.ok.inj h
      rw [COM_AGAIN] at hagain
      omega
  · rintro rfl
    rw [if_pos (Or.inl hv)]

theorem reported_iff {q : Progress × Ending} : AllOrError n (c.reported q) ↔ Exact n q := by
  constructor
  · intro h
    constructor
    · intro hended hpos
      apply h.all q.1.iVal _ hpos
      rw [ConnectionInterface.reported, if_neg hended, (evaluateStatus_pos hpos).2 rfl]
    · exact h.inside
  · intro h
    constructor
    · intro v hv hpos
      rw [ConnectionInterface.reported] at hv
      by_cases hrunning : q.2 = .running
      · rw [if_pos hrunning] at hv
        cases hv
      · rw [if_neg hrunning] at hv
        have hval := (evaluateStatus_pos hpos).1 (Option.some.inj hv)
        exact h.all hrunning (by omega)
    · exact h.inside

theorem never_cut : ¬CutOff c never n iTotal iVal rounds := by
  intro ⟨front, r, back, _, _, helapsed, _⟩
  cases helapsed

/-- A loop without a time-out that is done has transferred everything. -/
theorem done_all (hn : n < 2^32) (hp : Counting n p)
    (hhonest : ∀ q ∈ (transfer c u bElapsed n rounds p).1.requests, q.amount ≤ q.len)
    (hdone : (transfer c u bElapsed n rounds p).2 = .done) :
    ((transfer c u bElapsed n rounds p).1.requests.map Request.amount).sum = n := by
  induction rounds generalizing p with
  | nil =>
    obtain ⟨hleft, -⟩ := left_eq (fun _ => hn) hp
    have hle := hp.atMost
    rw [transfer] at hdone ⊢
    by_cases hnone : u.left n p.iDone = 0
    · rw [if_pos hnone, ← hp.total]
      rw [hleft] at hnone
      omega
    · rw [if_neg hnone] at hdone
      cases hdone
  | cons r rounds ih =>
    obtain ⟨hleft, hoffset⟩ := left_eq (fun _ => hn) hp
    have hle := hp.atMost
    rw [transfer] at hdone hhonest ⊢
    by_cases hnone : u.left n p.iDone = 0
    · rw [if_pos hnone, ← hp.total]
      rw [hleft] at hnone
      omega
    · rw [if_neg hnone] at hdone hhonest ⊢
      by_cases helapsed : bElapsed r.oCurrent = true
      · rw [if_pos helapsed] at hdone
        cases hdone
      · rw [if_neg helapsed] at hdone hhonest ⊢
        by_cases hcontinues : c.continues r.iVal = true
        · rw [if_pos hcontinues] at hdone hhonest ⊢
          have hmade : (⟨u.offset p, u.left n p.iDone, r.iVal⟩ : Request) ∈ (u.called n r.iVal p).requests :=
            List.mem_append_right _ (List.mem_singleton.2 rfl)
          have hasked := hhonest _ ((transfer_grows rounds _).subset hmade)
          exact ih (called_counting (fun _ => hn) hp (by omega) hasked) hhonest hdone
        · rw [if_neg hcontinues] at hdone
          cases hdone

theorem receiveSmart_all (hn : n < 2^32) (hhonest : Honest (receiveSmart c n rounds)) :
    AllOrError n (receiveSmart c n rounds) := by
  rw [receiveSmart] at hhonest ⊢
  by_cases hdone : (transfer c .receive never n rounds (start 0)).2 = .done
  · rw [if_pos hdone] at hhonest ⊢
    have hexact := (transfer_iff (fun _ => hn) (start_counting n 0) hhonest).2 ⟨never_cut, wrapped_small hn⟩
    constructor
    · intro _ _ _
      exact done_all hn (start_counting n 0) hhonest hdone
    · exact hexact.inside
  · rw [if_neg hdone] at hhonest ⊢
    rw [reported_iff, transfer_iff (fun _ => hn) (start_counting n 0) hhonest]
    exact ⟨never_cut, wrapped_small hn⟩

/-- Without a time-out the transfers of memory are all or an error. With one they are when the time is not up
behind a part, and those of files when the loop does not go on behind 2^32 bytes. -/
theorem smart_iff (c : ConnectionInterface) {n : ℕ} (oStart oTimeOut : SirannonTime) (rounds : List Round) :
    (n < 2^32 → Honest (sendSmart c n rounds) → AllOrError n (sendSmart c n rounds)) ∧
    (n < 2^32 → Honest (receiveSmart c n rounds) → AllOrError n (receiveSmart c n rounds)) ∧
    (n < 2^32 → Honest (sendSmartTimed c n oStart oTimeOut rounds) →
      (AllOrError n (sendSmartTimed c n oStart oTimeOut rounds) ↔
        ¬CutOff c (checkInterval oStart oTimeOut) n 0 0 rounds)) ∧
    (n < 2^32 → Honest (receiveSmartTimed c n oStart oTimeOut rounds) →
      (AllOrError n (receiveSmartTimed c n oStart oTimeOut rounds) ↔
        ¬CutOff c (checkInterval oStart oTimeOut) n 0 (-1) rounds)) ∧
    (Honest (sendfileSmart c n rounds) →
      (AllOrError n (sendfileSmart c n rounds) ↔ ¬Wrapped c never n 0 rounds)) ∧
    (Honest (sendfileSmartTimed c n oStart oTimeOut rounds) →
      (AllOrError n (sendfileSmartTimed c n oStart oTimeOut rounds) ↔
        ¬CutOff c (checkInterval oStart oTimeOut) n 0 0 rounds ∧
          ¬Wrapped c (checkInterval oStart oTimeOut) n 0 rounds)) := by
  refine ⟨?_, ?_, ?_, ?_, ?_, ?_⟩
  · intro hn hhonest
    rw [sendSmart] at hhonest ⊢
    rw [reported_iff, transfer_iff (fun _ => hn) (start_counting n 0) hhonest]
    exact ⟨never_cut, wrapped_small hn⟩
  · exact receiveSmart_all
  · intro hn hhonest
    rw [sendSmartTimed] at hhonest ⊢
    rw [reported_iff, transfer_iff (fun _ => hn) (start_counting n 0) hhonest]
    exact ⟨fun h => h.1, fun h => ⟨h, wrapped_small hn⟩⟩
  · intro hn hhonest
    rw [receiveSmartTimed] at hhonest ⊢
    rw [reported_iff, transfer_iff (fun _ => hn) (start_counting n (-1)) hhonest]
    exact ⟨fun h => h.1, fun h => ⟨h, wrapped_small hn⟩⟩
  · intro hhonest
    rw [sendfileSmart] at hhonest ⊢
    rw [reported_iff, transfer_iff (fun h => absurd rfl h) (start_counting n 0) hhonest]
    exact ⟨fun h => h.2, fun h => ⟨never_cut, h⟩⟩
  · intro hhonest
    rw [sendfileSmartTimed] at hhonest ⊢
    rw [reported_iff, transfer_iff (fun h => absurd rfl h) (start_counting n 0) hhonest]
    exact Iff.rfl

/-- A connection that blocks and throws. -/
def blocking : ConnectionInterface := ⟨true, true⟩

/-- Six bytes in two parts, with a wait between them. -/
theorem sendSmart_parts : (sendSmart blocking 6 [⟨0, 4⟩, ⟨0, COM_AGAIN⟩, ⟨0, 2⟩]).requests.length = 3 ∧
    AllOrError 6 (sendSmart blocking 6 [⟨0, 4⟩, ⟨0, COM_AGAIN⟩, ⟨0, 2⟩]) := by
  refine ⟨by decide +kernel, ?_⟩
  exact (smart_iff blocking 0 0 [⟨0, 4⟩, ⟨0, COM_AGAIN⟩, ⟨0, 2⟩]).1 (by decide) (by
    unfold Honest
    decide +kernel)

/-- Four of six bytes are sent when the time is up, and the status is 4. -/
theorem timed_part : (sendSmartTimed blocking 6 0 10 [⟨5, 4⟩, ⟨11, 2⟩]).status = some (.ok 4) ∧
    ¬AllOrError 6 (sendSmartTimed blocking 6 0 10 [⟨5, 4⟩, ⟨11, 2⟩]) := by
  have hstatus : (sendSmartTimed blocking 6 0 10 [⟨5, 4⟩, ⟨11, 2⟩]).status = some (.ok 4) := by decide +kernel
  refine ⟨hstatus, ?_⟩
  intro h
  have hall := h.all 4 hstatus (by decide)
  revert hall
  decide +kernel

end Sirannon.SmartTransfer
