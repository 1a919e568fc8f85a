import Mathlib.Tactic

/-!
# Pairs of free ports

The ports are tried in turn, two by two, until both of a pair can be bound. The
cursor goes on behind the pair that was found, and behind one that was not it
comes round to the start.
-/

set_option autoImplicit false

namespace Sirannon.Ports

def uint16 (x : ℕ) : ℕ := x % 2^16

structure PortManager where
  iBase : ℕ
  iMax : ℕ
  iPort : ℕ
  deriving DecidableEq, Repr

def PortManager.new (iBase iMax : ℕ) : PortManager := ⟨iBase, iMax, iBase⟩

/-- The ports that are taken when a pair is tried. -/
abbrev Occupied := ℕ → Bool

/-- Both sockets of the pair can be bound. -/
def isFree (oOccupied : Occupied) (iPort : ℕ) : Bool :=
  ¬oOccupied iPort ∧ ¬oOccupied (uint16 (iPort+1))

/-- The cursor behind a pair that was found. -/
def PortManager.found (m : PortManager) : PortManager := { m with iPort := uint16 (m.iPort+2) }

/-- The cursor behind a pair that was taken. -/
def PortManager.skipped (m : PortManager) : PortManager :=
  if m.iMax ≤ uint16 (m.iPort+2) then { m with iPort := m.iBase } else m.found

attribute [grind =] PortManager.skipped

/-- A call: where the cursor was, what was taken at each attempt, and the port that was returned. -/
structure Call where
  iPort : ℕ
  attempts : List Occupied
  port : ℕ

/-- One call. The list has what is taken at each attempt, of this call and of all later ones; the
call goes on as long as there is nothing free. -/
def PortManager.next : PortManager → List Occupied → Option (Call × PortManager × List Occupied)
  | _, [] => none
  | m, oOccupied::later =>
    if isFree oOccupied m.iPort then
      some (⟨m.iPort, [oOccupied], uint16 (m.found.iPort+(2^16-2))⟩, m.found, later)
    else
      (m.skipped.next later).map fun r => (⟨m.iPort, oOccupied::r.1.attempts, r.1.port⟩, r.2)

attribute [grind =] PortManager.next

/-- Several calls, one after another. -/
def calls : ℕ → PortManager → List Occupied → List Call
  | 0, _, _ => []
  | n+1, m, oOccupied =>
    match m.next oOccupied with
    | none => []
    | some r => r.1::calls n r.2.1 r.2.2

/-! ## The cursor -/

/-- A pair below the end of the range. -/
structure InRange (m : PortManager) (iPort : ℕ) : Prop where
  low : m.iBase ≤ iPort
  high : iPort < m.iMax
  parity : iPort % 2 = m.iBase % 2

structure Proper (m : PortManager) : Prop where
  even : m.iBase % 2 = 0
  range : m.iBase < m.iMax
  max : m.iMax ≤ 65534

variable {m m' : PortManager} {oOccupied : Occupied} {occs rest : List Occupied} {c d : Call} {p q n : ℕ}

theorem uint16_small {x : ℕ} (h : x < 2^16) : uint16 x = x := Nat.mod_eq_of_lt h

theorem found_port (hm : Proper m) (h : m.iPort < m.iMax) : uint16 (m.found.iPort+(2^16-2)) = m.iPort := by
  have hmax := hm.max
  rw [PortManager.found, uint16, uint16]
  dsimp only
  omega

/-- The cursor stays in the range behind a pair that was taken. -/
theorem skipped_range (hm : Proper m) (h : InRange m m.iPort) : InRange m m.skipped.iPort := by
  have hlow := h.low
  have hhigh := h.high
  have hparity := h.parity
  have hmax := hm.max
  have heven := hm.even
  rw [PortManager.skipped, uint16_small (by omega)]
  split_ifs with hwrap
  · exact ⟨le_refl _, hm.range, rfl⟩
  · rw [PortManager.found, uint16_small (by omega)]
    constructor
    · show m.iBase ≤ m.iPort+2
      omega
    · show m.iPort+2 < m.iMax
      omega
    · show (m.iPort+2) % 2 = m.iBase % 2
      omega

/-- The settings of the range do not change. -/
def PortManager.bounds (m : PortManager) : ℕ × ℕ := (m.iBase, m.iMax)

theorem skipped_bounds (m : PortManager) : m.skipped.bounds = m.bounds := by
  rw [PortManager.skipped]
  split_ifs <;> rfl

theorem bounds_proper (hm : Proper m) (h : m'.bounds = m.bounds) : Proper m' := by
  obtain ⟨hbase, hmax⟩ := Prod.mk.inj h
  constructor
  · rw [hbase]
    exact hm.even
  · rw [hbase, hmax]
    exact hm.range
  · rw [hmax]
    exact hm.max

theorem bounds_range (h : m'.bounds = m.bounds) : InRange m' p ↔ InRange m p := by
  obtain ⟨hbase, hmax⟩ := Prod.mk.inj h
  constructor
  · intro hp
    exact ⟨hbase ▸ hp.low, hmax ▸ hp.high, hbase ▸ hp.parity⟩
  · intro hp
    exact ⟨hbase ▸ hp.low, hmax ▸ hp.high, hbase ▸ hp.parity⟩

/-! ## One call -/

/-- What a call that starts in the range does. -/
structure Served (m m' : PortManager) (c : Call) : Prop where
  cursor : c.iPort = m.iPort
  bounds : m'.bounds = m.bounds
  port : InRange m c.port
  behind : m'.iPort = c.port+2

theorem next_served (hm : Proper m) (hport : InRange m m.iPort) (h : m.next occs = some (c, m', rest)) :
    Served m m' c := by
  induction occs generalizing m c with
  | nil => cases h
  | cons oOccupied occs ih =>
    rw [PortManager.next] at h
    by_cases hfree : isFree oOccupied m.iPort = true
    · rw [if_pos hfree, found_port hm hport.high] at h
      cases h
      have hmax := hm.max
      have hhigh := hport.high
      constructor
      · rfl
      · rfl
      · exact hport
      · exact uint16_small (by omega)
    · rw [if_neg hfree] at h
      obtain ⟨⟨c', m'', rest'⟩, hnext, hc⟩ := Option.map_eq_some_iff.1 h
      cases hc
      have hbounds := skipped_bounds m
      have hserved := ih (bounds_proper hm hbounds) ((bounds_range hbounds).2 (skipped_range hm hport)) hnext
      constructor
      · rfl
      · exact hserved.bounds.trans hbounds
      · exact (bounds_range hbounds).1 hserved.port
      · exact hserved.behind

theorem next_cursor (h : m.next occs = some (c, m', rest)) : c.iPort = m.iPort := by
  cases occs with
  | nil => cases h
  | cons oOccupied occs =>
    rw [PortManager.next] at h
    by_cases hfree : isFree oOccupied m.iPort = true
    · rw [if_pos hfree] at h
      cases h
      rfl
    · rw [if_neg hfree] at h
      obtain ⟨⟨c', m'', rest'⟩, -, hc⟩ := Option.map_eq_some_iff.1 h
      cases hc
      rfl

theorem next_bounds (h : m.next occs = some (c, m', rest)) : m'.bounds = m.bounds := by
  induction occs generalizing m c with
  | nil => cases h
  | cons oOccupied occs ih =>
    rw [PortManager.next] at h
    by_cases hfree : isFree oOccupied m.iPort = true
    · rw [if_pos hfree] at h
      cases h
      rfl
    · rw [if_neg hfree] at h
      obtain ⟨⟨c', m'', rest'⟩, hnext, hc⟩ := Option.map_eq_some_iff.1 h
      cases hc
      exact (ih hnext).trans (skipped_bounds m)

/-- In the turn from `iPort` on, `q` comes before `p`. -/
def Ahead (iPort q p : ℕ) : Prop := p < iPort ∧ (iPort ≤ q ∨ q < p) ∨ iPort ≤ q ∧ q < p

theorem skipped_ahead (hm : Proper m) (hport : InRange m m.iPort) (hq : InRange m q) (hne : m.iPort ≠ q)
    (h : Ahead m.iPort q p) : Ahead m.skipped.iPort q p := by
  have hmax := hm.max
  have heven := hm.even
  have hparity := hport.parity
  have hparity' := hq.parity
  have hhigh := hport.high
  have hlow' := hq.low
  have hhigh' := hq.high
  rw [Ahead] at h ⊢
  rw [PortManager.skipped, uint16_small (by omega)]
  split_ifs with hwrap
  · dsimp only
    omega
  · rw [PortManager.found, uint16_small (by omega)]
    dsimp only
    omega

/-- A pair that stays free is not passed by. -/
theorem next_avoids (hm : Proper m) (hport : InRange m m.iPort) (hq : InRange m q) (hahead : Ahead m.iPort q p)
    (h : m.next occs = some (c, m', rest)) (hfree : ∀ o ∈ c.attempts, isFree o q = true) : c.port ≠ p := by
  induction occs generalizing m c with
  | nil => cases h
  | cons oOccupied occs ih =>
    rw [PortManager.next] at h
    by_cases hhere : isFree oOccupied m.iPort = true
    · rw [if_pos hhere, found_port hm hport.high] at h
      cases h
      rw [Ahead] at hahead
      show m.iPort ≠ p
      omega
    · rw [if_neg hhere] at h
      obtain ⟨⟨c', m'', rest'⟩, hnext, hc⟩ := Option.map_eq_some_iff.1 h
      cases hc
      have hne : m.iPort ≠ q := by
        intro heq
        rw [heq] at hhere
        exact hhere (hfree oOccupied List.mem_cons_self)
      have hbounds := skipped_bounds m
      apply ih (bounds_proper hm hbounds) ((bounds_range hbounds).2 (skipped_range hm hport))
        ((bounds_range hbounds).2 hq) (skipped_ahead hm hport hq hne hahead) hnext
      exact fun o ho => hfree o (List.mem_cons_of_mem _ ho)

/-! ## Runs -/

variable {front back : List Call}

/-- The state that a call of the run starts from. -/
theorem calls_split (h : calls n m occs = front ++ c::back) : ∃ (k : ℕ) (m₁ m₂ : PortManager) (occs₁ rest : List Occupied),
    m₁.bounds = m.bounds ∧ m₁.next occs₁ = some (c, m₂, rest) ∧ back = calls k m₂ rest := by
  induction n generalizing m occs front with
  | zero =>
    rw [calls] at h
    simp at h
  | succ n ih =>
    rw [calls] at h
    cases hnext : m.next occs with
    | none =>
      rw [hnext] at h
      simp at h
    | some r =>
      obtain ⟨c', m', rest⟩ := r
      rw [hnext] at h
      cases front with
      | nil =>
        cases h
        exact ⟨n, m, m', occs, rest, rfl, hnext, rfl⟩
      | cons d front =>
        obtain ⟨hd, hrest⟩ := List.cons.inj h
        obtain ⟨k, m₁, m₂, occs₁, rest₁, hbounds, hcall, hback⟩ := ih hrest
        exact ⟨k, m₁, m₂, occs₁, rest₁, hbounds.trans (next_bounds hnext), hcall, hback⟩

theorem calls_first (h : calls n m occs = c::back) : ∃ m' rest, m.next occs = some (c, m', rest) := by
  cases n with
  | zero => cases h
  | succ n =>
    rw [calls] at h
    cases hnext : m.next occs with
    | none =>
      rw [hnext] at h
      cases h
    | some r =>
      obtain ⟨c', m', rest⟩ := r
      rw [hnext] at h
      cases h
      exact ⟨m', rest, rfl⟩

/-- Up to a port at the end of the range every call starts in it. -/
theorem calls_start (hm : Proper m) (hport : InRange m m.iPort) (h : calls n m occs = front ++ c::back)
    (hbelow : ∀ d ∈ front, d.port+2 < m.iMax) : InRange m c.iPort := by
  induction n generalizing m occs front with
  | zero =>
    rw [calls] at h
    simp at h
  | succ n ih =>
    rw [calls] at h
    cases hnext : m.next occs with
    | none =>
      rw [hnext] at h
      simp at h
    | some r =>
      obtain ⟨c', m', rest⟩ := r
      rw [hnext] at h
      have hserved := next_served hm hport hnext
      cases front with
      | nil =>
        cases h
        rw [hserved.cursor]
        exact hport
      | cons d front =>
        obtain ⟨hd, hrest⟩ := List.cons.inj h
        cases hd
        have hc' : c'.port+2 < m.iMax := hbelow c' List.mem_cons_self
        have hbounds := hserved.bounds
        obtain ⟨hbase, hmax⟩ := Prod.mk.inj hbounds
        have hport' : InRange m' m'.iPort := by
          rw [bounds_range hbounds, hserved.behind]
          have hlow := hserved.port.low
          have hparity := hserved.port.parity
          exact ⟨by omega, hc', by omega⟩
        rw [← bounds_range hbounds]
        apply ih (bounds_proper hm hbounds) hport' hrest
        intro e he
        rw [hmax]
        exact hbelow e (List.mem_cons_of_mem _ he)

variable {iBase iMax : ℕ}

/-- Calls start in the range until one returns a port at its end. A call that starts there returns a
port of the range, and not the port of the call before when another pair stays free. -/
theorem ports_in_range (heven : iBase % 2 = 0) (hrange : iBase < iMax) (hmax : iMax ≤ 65534)
    (h : calls n (PortManager.new iBase iMax) occs = front ++ c::back) :
    ((∀ d ∈ front, d.port+2 < iMax) → InRange (PortManager.new iBase iMax) c.iPort) ∧
      (InRange (PortManager.new iBase iMax) c.iPort → InRange (PortManager.new iBase iMax) c.port) ∧
      ∀ d later q, back = d::later → InRange (PortManager.new iBase iMax) c.iPort →
        InRange (PortManager.new iBase iMax) d.iPort → InRange (PortManager.new iBase iMax) q → q ≠ c.port →
          (∀ o ∈ d.attempts, isFree o q = true) → d.port ≠ c.port := by
  have hm : Proper (PortManager.new iBase iMax) := ⟨heven, hrange, hmax⟩
  have hstart : InRange (PortManager.new iBase iMax) iBase := ⟨le_refl _, hrange, rfl⟩
  obtain ⟨k, m₁, m₂, occs₁, rest, hbounds, hcall, hback⟩ := calls_split h
  have hserves : InRange (PortManager.new iBase iMax) c.iPort → Served m₁ m₂ c := by
    intro hc
    rw [next_cursor hcall, ← bounds_range hbounds] at hc
    exact next_served (bounds_proper hm hbounds) hc hcall
  refine ⟨?_, ?_, ?_⟩
  · exact calls_start hm hstart h
  · intro hc
    exact (bounds_range hbounds).1 (hserves hc).port
  · intro d later q hd hc hcursor hq hne hfree
    have hserved := hserves hc
    have hbounds' := hserved.bounds.trans hbounds
    obtain ⟨m₃, rest', hnext⟩ := calls_first (hback.symm.trans hd)
    rw [next_cursor hnext] at hcursor
    rw [← bounds_range hbounds'] at hcursor hq
    have hbehind := hserved.behind
    have hparity := hserved.port.parity
    have hparity' := hq.parity
    have hbase : m₂.iBase = m₁.iBase := (Prod.mk.inj hserved.bounds).1
    apply next_avoids (bounds_proper hm hbounds') hcursor hq _ hnext hfree
    rw [Ahead]
    omega

/-- One pair free at both attempts of the second call, and the call before returned the other one. -/
theorem ports_in_range_three : ((calls 2 (PortManager.new 10 14) [fun _ => false, fun _ => false]).map Call.port =
    [10, 12]) ∧ InRange (PortManager.new 10 14) 12 := by
  have hcalls : calls 2 (PortManager.new 10 14) [fun _ => false, fun _ => false] =
      [⟨10, [fun _ => false], 10⟩] ++ ⟨12, [fun _ => false], 12⟩::[] := rfl
  have hport := ports_in_range (by decide) (by decide) (by decide) hcalls
  exact ⟨rfl, hport.2.1 ⟨by decide, by decide, by decide⟩⟩

/-- With all but the first pair taken the search comes round to it. -/
theorem same_pair_twice : ¬ ((calls 2 (PortManager.new 10 14)
    [fun _ => false, fun p => p ≠ 10 ∧ p ≠ 11, fun p => p ≠ 10 ∧ p ≠ 11]).map Call.port).Pairwise (· ≠ ·) := by
  decide

end Sirannon.Ports
