import Sirannon.Bits

/-!
# Connection interface

The retry loops around a socket. A connection carries what the environment
will do: what successive receives find, up to the moment the timer runs out,
and what successive sends return. The bytes handed to the socket are recorded
in the order in which it accepted them.
-/

set_option autoImplicit false

namespace Sirannon.Connection
open Bits

/-- What one poll of the receiving socket finds. -/
inductive Arrival
  | bytes (bs : List UInt8)
  | again
  | closed
  | error
  | timeOut
  deriving DecidableEq, Repr

structure ConnectionInterface where
  bBlocking : Bool
  bThrow : Bool
  arrivals : List Arrival
  sends : List ℤ
  out : List UInt8
  strError : String
  deriving DecidableEq, Repr

def comAgain : ℤ := -2

def evaluateStatus (c : ConnectionInterface) (iRet : ℤ) : Except SirannonException ℤ :=
  if 0 < iRet ∨ c.bThrow = false then .ok iRet
  else if iRet = comAgain then
    if c.bBlocking then .error (ioError "Connection time-out") else .ok comAgain
  else if iRet = 0 then .error (ioError "Socket closed")
  else .error (ioError ("Socket error: " ++ c.strError))

/-- Outcome of the receive loop: last status, bytes stored, what is still to arrive. -/
structure Received where
  iVal : ℤ
  data : List UInt8
  rest : List Arrival

/-- The loop of `receiveSmart` with a time-out; no more arrivals means the timer runs out. -/
def receiveLoop (bBlocking : Bool) : List Arrival → ℕ → List UInt8 → ℤ → Received
  | arrivals, 0, got, iVal => ⟨iVal, got, arrivals⟩
  | [], _+1, got, iVal => ⟨iVal, got, []⟩
  | .timeOut::rest, _+1, got, iVal => ⟨iVal, got, rest⟩
  | .again::rest, n+1, got, _ =>
    if bBlocking then receiveLoop bBlocking rest (n+1) got comAgain else ⟨comAgain, got, rest⟩
  | .closed::rest, _+1, got, _ => ⟨0, got, rest⟩
  | .error::rest, _+1, got, _ => ⟨-1, got, rest⟩
  | .bytes bs::rest, n+1, got, iVal =>
    if bs = [] then receiveLoop bBlocking rest (n+1) got iVal
    else if n+1 < bs.length then ⟨n+1, got ++ bs.take (n+1), .bytes (bs.drop (n+1))::rest⟩
    else receiveLoop bBlocking rest (n+1-bs.length) (got++bs) bs.length

attribute [grind =] receiveLoop

def receiveSmart (c : ConnectionInterface) (iSize : ℕ) :
    Except SirannonException ℤ × List UInt8 × ConnectionInterface :=
  let r := receiveLoop c.bBlocking c.arrivals iSize [] (-1)
  (evaluateStatus c r.iVal, r.data, { c with arrivals := r.rest })

/-- The loop of `sendSmart`; a socket with no more results to give accepts everything. -/
def sendLoop (bBlocking : Bool) : List ℤ → List UInt8 → List UInt8 → ℤ →
    ℤ × List UInt8 × List ℤ
  | sends, [], out, iVal => (iVal, out, sends)
  | [], b::bs, out, _ => ((b::bs).length, out ++ b::bs, [])
  | k::sends, b::bs, out, _ =>
    if 0 < k then
      sendLoop bBlocking sends ((b::bs).drop k.toNat) (out ++ (b::bs).take k.toNat)
        (min k (b::bs).length)
    else if k = comAgain ∧ bBlocking then sendLoop bBlocking sends (b::bs) out k
    else (k, out, sends)

def sendSmart (c : ConnectionInterface) (pBuffer : List UInt8) :
    Except SirannonException ℤ × ConnectionInterface :=
  let (iVal, out, sends) := sendLoop c.bBlocking c.sends pBuffer c.out 0
  (evaluateStatus c iVal, { c with out := out, sends := sends })

/-! ## Undisturbed connections -/

/-- Nothing but data and, on a blocking connection, empty polls. -/
def Undisturbed (bBlocking : Bool) (arrivals : List Arrival) : Prop :=
  ∀ a ∈ arrivals, (∃ bs, a = .bytes bs) ∨ (a = .again ∧ bBlocking = true)

def Clean (c : ConnectionInterface) : Prop := Undisturbed c.bBlocking c.arrivals

def Arrival.data : Arrival → List UInt8
  | .bytes bs => bs
  | _ => []

def pending (c : ConnectionInterface) : List UInt8 := c.arrivals.flatMap Arrival.data

theorem receiveLoop_length (bBlocking : Bool) (arrivals : List Arrival) (n : ℕ)
    (got : List UInt8) (iVal : ℤ) :
    (receiveLoop bBlocking arrivals n got iVal).data.length ≤ got.length+n := by
  induction arrivals generalizing n got iVal with
  | nil => cases n <;> simp [receiveLoop]
  | cons a rest ih =>
    cases n with
    | zero => simp [receiveLoop]
    | succ n =>
      cases a with
      | bytes bs =>
        simp only [receiveLoop]
        split_ifs with h₁ h₂
        · exact ih _ _ _
        · simp only [List.length_append, List.length_take]
          omega
        · have := ih (n+1-bs.length) (got++bs) bs.length
          simp only [List.length_append] at this
          omega
      | again =>
        simp only [receiveLoop]
        split_ifs
        · exact ih _ _ _
        · simp
      | closed => simp [receiveLoop]
      | error => simp [receiveLoop]
      | timeOut => simp [receiveLoop]

/-- When the timer runs out, the poll before it found nothing. The flag is that of the last poll. -/
def Polled : Bool → List Arrival → Prop
  | found, [] => found = false
  | found, .timeOut::rest => found = false ∧ Polled false rest
  | found, .bytes bs::rest => Polled (found || !bs.isEmpty) rest
  | _, _::rest => Polled false rest

theorem polled_later {found : Bool} {arrivals : List Arrival} (h : Polled found arrivals) :
    Polled false arrivals := by
  induction arrivals generalizing found with
  | nil => rfl
  | cons a rest ih =>
    cases a with
    | bytes bs =>
      cases bs with
      | nil => exact ih h
      | cons b bs => simpa [Polled] using h
    | timeOut => exact ⟨rfl, h.2⟩
    | again => exact h
    | closed => exact h
    | error => exact h

/-- A receive that succeeds, and whose timer does not run out right after data, is complete. -/
theorem receiveLoop_polled (bBlocking : Bool) (arrivals : List Arrival) (n : ℕ)
    (got : List UInt8) (iVal : ℤ) (h : Polled (decide (0 < iVal)) arrivals) :
    let r := receiveLoop bBlocking arrivals n got iVal
    Polled false r.rest ∧ (0 < r.iVal → r.data.length = got.length+n) := by
  induction arrivals generalizing n got iVal with
  | nil =>
    have hval : ¬ 0 < iVal := by simpa [Polled] using h
    cases n with
    | zero => exact ⟨rfl, fun _ => rfl⟩
    | succ n => exact ⟨rfl, fun hpos => absurd hpos hval⟩
  | cons a rest ih =>
    cases n with
    | zero => exact ⟨polled_later h, fun _ => rfl⟩
    | succ n =>
      cases a with
      | bytes bs =>
        simp only [receiveLoop]
        split_ifs with h₁ h₂
        · subst h₁
          exact ih (n+1) got iVal (by simpa [Polled] using h)
        · have hrest : Polled true rest := by
            simpa [Polled, List.isEmpty_eq_false_iff.mpr h₁] using h
          have hdrop : bs.drop (n+1) ≠ [] := by
            rw [Ne, List.drop_eq_nil_iff]
            omega
          constructor
          · simpa [Polled, List.isEmpty_eq_false_iff.mpr hdrop] using hrest
          · intro _
            simp only [List.length_append, List.length_take]
            omega
        · have hlen : 0 < bs.length := List.length_pos_iff.mpr h₁
          have hrest : Polled true rest := by
            simpa [Polled, List.isEmpty_eq_false_iff.mpr h₁] using h
          obtain ⟨hp, hd⟩ := ih (n+1-bs.length) (got++bs) bs.length (by simpa [hlen] using hrest)
          refine ⟨hp, fun hpos => ?_⟩
          rw [hd hpos, List.length_append]
          omega
      | again =>
        simp only [receiveLoop]
        split_ifs
        · exact ih (n+1) got comAgain h
        · exact ⟨h, fun hpos => absurd hpos (by simp [comAgain])⟩
      | closed => exact ⟨h, fun hpos => absurd hpos (lt_irrefl 0)⟩
      | error => exact ⟨h, fun hpos => absurd hpos (by simp [receiveLoop])⟩
      | timeOut =>
        have hval : ¬ 0 < iVal := by simpa using h.1
        exact ⟨h.2, fun hpos => absurd hpos hval⟩

/-- With enough data on its way the loop delivers exactly what it was asked for. -/
theorem receiveLoop_clean (bBlocking : Bool) (arrivals : List Arrival) (n : ℕ)
    (got : List UInt8) (iVal : ℤ)
    (hclean : Undisturbed bBlocking arrivals)
    (hn : n ≤ (arrivals.flatMap Arrival.data).length) :
    let r := receiveLoop bBlocking arrivals n got iVal
    (n = 0 ∧ r.iVal = iVal ∨ 0 < r.iVal) ∧
      r.data = got ++ (arrivals.flatMap Arrival.data).take n ∧
      r.rest.flatMap Arrival.data = (arrivals.flatMap Arrival.data).drop n ∧
      Undisturbed bBlocking r.rest := by
  induction arrivals generalizing n got iVal with
  | nil =>
    obtain rfl : n = 0 := by simpa using hn
    exact ⟨.inl ⟨rfl, rfl⟩, by simp [receiveLoop], by simp [receiveLoop], hclean⟩
  | cons a rest ih =>
    have hrest : Undisturbed bBlocking rest :=
      fun a ha => hclean a (List.mem_cons_of_mem _ ha)
    cases n with
    | zero => exact ⟨.inl ⟨rfl, rfl⟩, by simp [receiveLoop], by simp [receiveLoop], hclean⟩
    | succ n =>
      obtain ⟨bs, rfl⟩ | ⟨rfl, hb⟩ := hclean a (List.mem_cons_self ..)
      · simp only [List.flatMap_cons, Arrival.data, List.length_append] at hn
        simp only [receiveLoop, List.flatMap_cons, Arrival.data]
        split_ifs with h₁ h₂
        · subst h₁
          obtain ⟨hv, hrest'⟩ := ih (n+1) got iVal hrest (by simpa using hn)
          exact ⟨.inr (by omega), by simpa using hrest'⟩
        · refine ⟨.inr (by simp only; omega), ?_, ?_, ?_⟩
          · rw [List.take_append_of_le_length (by omega)]
          · rw [List.flatMap_cons, List.drop_append_of_le_length (by omega)]
            rfl
          · intro a ha
            rcases List.mem_cons.mp ha with rfl | ha
            · exact .inl ⟨_, rfl⟩
            · exact hrest a ha
        · obtain ⟨hv, hd, hr, hc⟩ := ih (n+1-bs.length) (got++bs) bs.length hrest (by omega)
          have hlen : 0 < bs.length := List.length_pos_iff.mpr h₁
          refine ⟨.inr (by omega), ?_, ?_, hc⟩
          · rw [hd, List.take_append, List.take_of_length_le (by omega : bs.length ≤ n+1),
              List.append_assoc]
          · rw [hr, List.drop_append, List.drop_eq_nil_of_le (by omega : bs.length ≤ n+1),
              List.nil_append]
      · simp only [List.flatMap_cons, Arrival.data, List.nil_append] at hn
        simp only [receiveLoop, List.flatMap_cons, Arrival.data, List.nil_append]
        rw [if_pos hb]
        obtain ⟨hv, hrest'⟩ := ih (n+1) got comAgain hrest hn
        exact ⟨.inr (by omega), hrest'⟩

theorem evaluateStatus_ok {c : ConnectionInterface} {iRet v : ℤ}
    (h : evaluateStatus c iRet = .ok v) (hv : 0 < v) : 0 < iRet := by
  unfold evaluateStatus at h
  split_ifs at h with h₁ h₂ h₃ h₄
  · rw [Except.ok.inj h]
    exact hv
  · rw [← Except.ok.inj h] at hv
    exact absurd hv (by simp [comAgain])

theorem evaluateStatus_pos (c : ConnectionInterface) (iRet : ℤ) (h : 0 < iRet) :
    evaluateStatus c iRet = .ok iRet := by
  simp [evaluateStatus, h]

/-- A receive on an undisturbed connection takes exactly the next `n` bytes. -/
theorem receiveSmart_clean (c : ConnectionInterface) (n : ℕ) (hn0 : 0 < n) (hc : Clean c)
    (hn : n ≤ (pending c).length) :
    ∃ iVal c', receiveSmart c n = (.ok iVal, (pending c).take n, c') ∧ 0 < iVal ∧ Clean c' ∧
      pending c' = (pending c).drop n ∧ c'.sends = c.sends ∧ c'.out = c.out ∧
      c'.bThrow = c.bThrow ∧ c'.bBlocking = c.bBlocking := by
  obtain ⟨hv, hd, hr, hcl⟩ := receiveLoop_clean c.bBlocking c.arrivals n [] (-1) hc hn
  have hpos : 0 < (receiveLoop c.bBlocking c.arrivals n [] (-1)).iVal := by omega
  refine ⟨_, _, Prod.ext (evaluateStatus_pos c _ hpos) (Prod.ext hd rfl), hpos, hcl, hr,
    rfl, rfl, rfl, rfl⟩

/-- Every send takes a part of what it is given or, on a blocking connection, asks to wait. -/
def Accepting (bBlocking : Bool) (sends : List ℤ) : Prop :=
  ∀ k ∈ sends, 0 < k ∨ (k = comAgain ∧ bBlocking = true)

theorem sendLoop_accepting (bBlocking : Bool) (sends : List ℤ) (bs out : List UInt8) (iVal : ℤ)
    (h : Accepting bBlocking sends) :
    ∃ iVal' sends', sendLoop bBlocking sends bs out iVal = (iVal', out ++ bs, sends') ∧
      (bs ≠ [] → 0 < iVal') ∧ (bs = [] → iVal' = iVal) ∧ Accepting bBlocking sends' := by
  induction sends generalizing bs out iVal with
  | nil =>
    cases bs with
    | nil => exact ⟨iVal, [], by simp [sendLoop], by simp, by simp, h⟩
    | cons b bs =>
      refine ⟨((b::bs).length : ℕ), [], by simp [sendLoop], fun _ => by simp, by simp, h⟩
  | cons k sends ih =>
    have hrest : Accepting bBlocking sends := fun j hj => h j (List.mem_cons_of_mem _ hj)
    cases bs with
    | nil => exact ⟨iVal, k::sends, by simp [sendLoop], by simp, by simp, h⟩
    | cons b bs =>
      rw [sendLoop]
      by_cases hk : 0 < k
      · rw [if_pos hk]
        obtain ⟨v, sends', hloop, hpos, hsame, hacc⟩ := ih ((b::bs).drop k.toNat)
          (out ++ (b::bs).take k.toNat) (min k (b::bs).length) hrest
        refine ⟨v, sends', ?_, fun _ => ?_, by simp, hacc⟩
        · rw [hloop, List.append_assoc, List.take_append_drop]
        · by_cases hd : (b::bs).drop k.toNat = []
          · rw [hsame hd]
            simp only [List.length_cons]
            omega
          · exact hpos hd
      · obtain ⟨hagain, hb⟩ := (h k (List.mem_cons_self ..)).resolve_left hk
        rw [if_neg hk, if_pos ⟨hagain, hb⟩]
        obtain ⟨v, sends', hloop, hpos, hsame, hacc⟩ := ih (b::bs) out k hrest
        exact ⟨v, sends', hloop, hpos, by simp, hacc⟩

/-- An accepting socket takes the whole buffer. -/
theorem sendSmart_open (c : ConnectionInterface) (pBuffer : List UInt8)
    (hs : Accepting c.bBlocking c.sends) (hb : pBuffer ≠ []) :
    ∃ iVal sends, sendSmart c pBuffer =
        (.ok iVal, { c with out := c.out ++ pBuffer, sends := sends }) ∧
      0 < iVal ∧ Accepting c.bBlocking sends := by
  obtain ⟨iVal, sends, hloop, hpos, -, hacc⟩ := sendLoop_accepting c.bBlocking c.sends pBuffer
    c.out 0 hs
  refine ⟨iVal, sends, ?_, hpos hb, hacc⟩
  rw [sendSmart, hloop]
  simp only
  rw [evaluateStatus_pos c _ (hpos hb)]

/-! ## Receiving without a time-out -/

/-- The loop of `receiveRaw`; once nothing more comes the connection counts as closed. -/
def receiveOnce (bBlocking : Bool) : List Arrival → ℕ → Received
  | [], _ => ⟨0, [], []⟩
  | .timeOut::rest, n => receiveOnce bBlocking rest n
  | .again::rest, n => if bBlocking then receiveOnce bBlocking rest n else ⟨comAgain, [], rest⟩
  | .closed::rest, _ => ⟨0, [], rest⟩
  | .error::rest, _ => ⟨-1, [], rest⟩
  | .bytes bs::rest, n =>
    if bs = [] then receiveOnce bBlocking rest n
    else if n < bs.length then ⟨n, bs.take n, .bytes (bs.drop n)::rest⟩
    else ⟨bs.length, bs, rest⟩

def receiveRaw (c : ConnectionInterface) (iSize : ℕ) :
    Except SirannonException ℤ × List UInt8 × ConnectionInterface :=
  let r := receiveOnce c.bBlocking c.arrivals iSize
  (evaluateStatus c r.iVal, r.data, { c with arrivals := r.rest })

/-- The loop of `receiveSmart`; the status is that of the receive that fails. -/
def receiveWhole (bBlocking : Bool) : List Arrival → ℕ → List UInt8 → Received
  | arrivals, 0, got => ⟨got.length, got, arrivals⟩
  | [], _+1, got => ⟨0, got, []⟩
  | .timeOut::rest, n+1, got => receiveWhole bBlocking rest (n+1) got
  | .again::rest, n+1, got =>
    if bBlocking then receiveWhole bBlocking rest (n+1) got else ⟨comAgain, got, rest⟩
  | .closed::rest, _+1, got => ⟨0, got, rest⟩
  | .error::rest, _+1, got => ⟨-1, got, rest⟩
  | .bytes bs::rest, n+1, got =>
    if bs = [] then receiveWhole bBlocking rest (n+1) got
    else if n+1 < bs.length then
      ⟨got.length+(n+1), got ++ bs.take (n+1), .bytes (bs.drop (n+1))::rest⟩
    else receiveWhole bBlocking rest (n+1-bs.length) (got ++ bs)

def receiveSmartWhole (c : ConnectionInterface) (iSize : ℕ) :
    Except SirannonException ℤ × List UInt8 × ConnectionInterface :=
  let r := receiveWhole c.bBlocking c.arrivals iSize []
  (if r.data.length = iSize then .ok iSize else evaluateStatus c r.iVal, r.data,
    { c with arrivals := r.rest })

/-- What is received fits, and its length is the status where that is positive. -/
theorem receiveOnce_data (bBlocking : Bool) (arrivals : List Arrival) (n : ℕ) :
    (receiveOnce bBlocking arrivals n).data.length ≤ n ∧
      ((receiveOnce bBlocking arrivals n).iVal ≤ 0 → (receiveOnce bBlocking arrivals n).data = []) ∧
      (0 < (receiveOnce bBlocking arrivals n).iVal →
        (receiveOnce bBlocking arrivals n).data ≠ []) := by
  induction arrivals with
  | nil => simp [receiveOnce]
  | cons a rest ih =>
    cases a with
    | timeOut => exact ih
    | again =>
      rw [receiveOnce]
      split_ifs
      · exact ih
      · simp [comAgain]
    | closed => simp [receiveOnce]
    | error => simp [receiveOnce]
    | bytes bs =>
      rw [receiveOnce]
      split_ifs with hempty hfull
      · exact ih
      · refine ⟨by simp, ?_, ?_⟩
        · intro hle
          have hn : n = 0 := by simpa using hle
          rw [hn, List.take_zero]
        · intro hpos hnil
          have hlen := congrArg List.length hnil
          simp only [List.length_take, List.length_nil] at hlen
          simp only [Nat.cast_pos] at hpos
          omega
      · refine ⟨by simpa using hfull, ?_, fun _ => hempty⟩
        intro hle
        exact List.length_eq_zero_iff.mp (by simpa using hle)

/-- On an undisturbed connection some of what is pending comes in. -/
theorem receiveOnce_clean (bBlocking : Bool) (arrivals : List Arrival) {n : ℕ} (hn : 0 < n)
    (hclean : Undisturbed bBlocking arrivals) (hpending : arrivals.flatMap Arrival.data ≠ []) :
    0 < (receiveOnce bBlocking arrivals n).iVal ∧
      (receiveOnce bBlocking arrivals n).data ++
          (receiveOnce bBlocking arrivals n).rest.flatMap Arrival.data =
        arrivals.flatMap Arrival.data ∧
      Undisturbed bBlocking (receiveOnce bBlocking arrivals n).rest := by
  induction arrivals with
  | nil => exact absurd rfl hpending
  | cons a rest ih =>
    have hrest : Undisturbed bBlocking rest := fun a ha => hclean a (List.mem_cons_of_mem _ ha)
    rw [List.flatMap_cons] at hpending ⊢
    rcases hclean a (List.mem_cons_self ..) with ⟨bs, rfl⟩ | ⟨rfl, hb⟩
    · rw [receiveOnce]
      split_ifs with hempty hfull
      · rw [hempty] at hpending ⊢
        exact ih hrest hpending
      · refine ⟨by simpa using hn, ?_, ?_⟩
        · rw [List.flatMap_cons, ← List.append_assoc]
          exact congrArg (· ++ _) (List.take_append_drop n bs)
        · intro a ha
          rcases List.mem_cons.mp ha with rfl | ha
          · exact Or.inl ⟨_, rfl⟩
          · exact hrest a ha
      · refine ⟨?_, rfl, hrest⟩
        exact Nat.cast_pos.mpr (List.length_pos_iff.mpr hempty)
    · rw [receiveOnce, if_pos hb]
      exact ih hrest hpending

theorem receiveWhole_clean (bBlocking : Bool) (arrivals : List Arrival) {n : ℕ} (got : List UInt8)
    (hclean : Undisturbed bBlocking arrivals)
    (hn : n ≤ (arrivals.flatMap Arrival.data).length) :
    (receiveWhole bBlocking arrivals n got).data =
        got ++ (arrivals.flatMap Arrival.data).take n ∧
      (receiveWhole bBlocking arrivals n got).rest.flatMap Arrival.data =
        (arrivals.flatMap Arrival.data).drop n ∧
      Undisturbed bBlocking (receiveWhole bBlocking arrivals n got).rest := by
  induction arrivals generalizing n got with
  | nil =>
    have hzero : n = 0 := by simpa using hn
    rw [hzero]
    exact ⟨by simp [receiveWhole], rfl, hclean⟩
  | cons a rest ih =>
    have hrest : Undisturbed bBlocking rest := fun a ha => hclean a (List.mem_cons_of_mem _ ha)
    cases n with
    | zero => exact ⟨by simp [receiveWhole], rfl, hclean⟩
    | succ n =>
      rw [List.flatMap_cons] at hn ⊢
      rcases hclean a (List.mem_cons_self ..) with ⟨bs, rfl⟩ | ⟨rfl, hb⟩
      · rw [Arrival.data] at hn ⊢
        rw [receiveWhole]
        split_ifs with hempty hfull
        · rw [hempty] at hn ⊢
          exact ih got hrest hn
        · refine ⟨?_, ?_, ?_⟩
          · rw [List.take_append_of_le_length hfull.le]
          · rw [List.flatMap_cons, List.drop_append_of_le_length hfull.le]
            rfl
          · intro a ha
            rcases List.mem_cons.mp ha with rfl | ha
            · exact Or.inl ⟨_, rfl⟩
            · exact hrest a ha
        · have hle : bs.length ≤ n+1 := Nat.le_of_not_lt hfull
          rw [List.length_append] at hn
          rcases ih (n := n+1-bs.length) (got ++ bs) hrest (by omega) with ⟨hd, hr, hc⟩
          refine ⟨?_, ?_, hc⟩
          · rw [hd, List.take_append, List.take_of_length_le hle, List.append_assoc]
          · rw [hr, List.drop_append, List.drop_eq_nil_of_le hle, List.nil_append]
      · rw [receiveWhole, if_pos hb]
        exact ih got hrest hn

end Sirannon.Connection
