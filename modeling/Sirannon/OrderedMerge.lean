import Mathlib.Tactic

/-!
# Ordered merge in rounds

Every source delivers items of rising rank, cut by barriers. An item is
released when every source has something waiting and nothing that waits at the
front has a lower rank. When a barrier waits at every front they are taken
together, and the round is closed.
-/

set_option autoImplicit false
set_option linter.unusedSectionVars false

namespace OrderedMerge

variable {κ α ρ : Type} [DecidableEq κ] [LinearOrder ρ]

structure Reading (κ α ρ : Type) where
  source : α → κ
  barrier : α → Bool
  rank : α → ρ

structure Round (α : Type) where
  items : List α
  barriers : List α

/-- `arrived` records all that a source delivered, `pending` what was released since the last
round. -/
structure Merge (κ α : Type) where
  arrived : κ → List α
  queue : κ → List α
  rounds : List (Round α)
  pending : List α

def Merge.start : Merge κ α := ⟨fun _ => [], fun _ => [], [], []⟩

def append (q : κ → List α) (k : κ) (a : α) : κ → List α :=
  fun j => if j = k then q j ++ [a] else q j

theorem append_same (q : κ → List α) (k : κ) (a : α) : append q k a k = q k ++ [a] := by
  simp [append]

theorem append_other {q : κ → List α} {j k : κ} (a : α) (h : j ≠ k) : append q k a j = q j := by
  simp [append, h]

variable (I : Reading κ α ρ) (ks : List κ)

def Merge.arrive (m : Merge κ α) (a : α) : Merge κ α :=
  { m with arrived := append m.arrived (I.source a) a, queue := append m.queue (I.source a) a }

def Merge.release (m : Merge κ α) (a : α) : Merge κ α :=
  { m with
    queue := fun k => if k = I.source a then (m.queue k).tail else m.queue k
    pending := m.pending ++ [a] }

def Merge.fronts (m : Merge κ α) : List α := ks.filterMap fun k => (m.queue k).head?

def Merge.close (m : Merge κ α) : Merge κ α :=
  { m with
    queue := fun k => if k ∈ ks then (m.queue k).tail else m.queue k
    rounds := m.rounds ++ [⟨m.pending, m.fronts ks⟩]
    pending := [] }

def Lowest (m : Merge κ α) (a : α) : Prop :=
  ∀ k ∈ ks, ∃ b rest, m.queue k = b::rest ∧ (I.barrier b = true ∨ I.rank a ≤ I.rank b)

def Closable (m : Merge κ α) : Prop :=
  ∀ k ∈ ks, ∃ b rest, m.queue k = b::rest ∧ I.barrier b = true

/-- An arriving item ranks no lower than those its source delivered before. -/
def Rises (m : Merge κ α) (a : α) : Prop :=
  I.barrier a = true ∨
    ∀ c ∈ m.arrived (I.source a), I.barrier c = true ∨ I.rank c ≤ I.rank a

inductive Step : Merge κ α → Merge κ α → Prop
  | arrive {m : Merge κ α} (a : α) (hk : I.source a ∈ ks) (h : Rises I m a) :
      Step m (m.arrive I a)
  | release {m : Merge κ α} (a : α) (rest : List α) (hk : I.source a ∈ ks)
      (hfront : m.queue (I.source a) = a::rest) (hitem : I.barrier a = false)
      (h : Lowest I ks m a) : Step m (m.release I a)
  | close {m : Merge κ α} (h : Closable I ks m) : Step m (m.close ks)

abbrev Steps : Merge κ α → Merge κ α → Prop := Relation.ReflTransGen (Step I ks)

/-! ## What every run keeps -/

def history (m : Merge κ α) : List α :=
  m.rounds.flatMap (fun r => r.items ++ r.barriers) ++ m.pending

def taken (m : Merge κ α) (k : κ) : List α := (history m).filter fun a => I.source a = k

/-- What comes next from the source `k` in this round ranks no lower than `x`. -/
def Due (m : Merge κ α) (k : κ) (x : ρ) : Prop :=
  match m.queue k with
  | [] => ∃ c ∈ m.arrived k, I.barrier c = false ∧ x ≤ I.rank c
  | b::_ => I.barrier b = true ∨ x ≤ I.rank b

def Ordered (as : List α) : Prop := as.Pairwise fun a b => I.rank a ≤ I.rank b

structure ClosedRound (r : Round α) : Prop where
  items : ∀ a ∈ r.items, I.barrier a = false
  ordered : Ordered I r.items
  barriers : ∀ b ∈ r.barriers, I.barrier b = true
  sources : r.barriers.map I.source = ks

/-- Nothing is lost, nothing is doubled, every round is in order and took one barrier from every
source. -/
structure Sound (m : Merge κ α) : Prop where
  accounts : ∀ k, taken I m k ++ m.queue k = m.arrived k
  sources : ∀ a ∈ history m, I.source a ∈ ks
  queued : ∀ k, ∀ a ∈ m.queue k, I.source a = k
  rounds : ∀ r ∈ m.rounds, ClosedRound I ks r
  items : ∀ a ∈ m.pending, I.barrier a = false
  ordered : Ordered I m.pending
  rising : ∀ k, (m.arrived k).Pairwise fun a b =>
    I.barrier a = true ∨ I.barrier b = true ∨ I.rank a ≤ I.rank b
  due : ∀ a ∈ m.pending, ∀ k ∈ ks, Due I m k (I.rank a)

variable {I ks} {m n : Merge κ α} {a : α}

theorem start_sound : Sound I ks (Merge.start : Merge κ α) := by
  constructor
  · intro k
    simp [Merge.start, taken, history]
  · simp [Merge.start, history]
  · simp [Merge.start]
  · simp [Merge.start]
  · simp [Merge.start]
  · simp [Merge.start, Ordered]
  · simp [Merge.start]
  · simp [Merge.start]

theorem due_barrier {k : κ} {b : α} {rest : List α} {x : ρ} (hq : m.queue k = b::rest) :
    Due I m k x ↔ I.barrier b = true ∨ x ≤ I.rank b := by
  rw [Due, hq]

theorem due_empty {k : κ} {x : ρ} (hq : m.queue k = []) :
    Due I m k x ↔ ∃ c ∈ m.arrived k, I.barrier c = false ∧ x ≤ I.rank c := by
  rw [Due, hq]

theorem due_congr {k : κ} {x : ρ} (hq : n.queue k = m.queue k) (ha : n.arrived k = m.arrived k) :
    Due I n k x ↔ Due I m k x := by
  rw [Due, Due, hq, ha]

theorem arrive_due {k : κ} {x : ρ} (h : Rises I m a) (hdue : Due I m k x) :
    Due I (m.arrive I a) k x := by
  by_cases hk : k = I.source a
  · subst hk
    have hqueue : (m.arrive I a).queue (I.source a) = m.queue (I.source a) ++ [a] :=
      append_same _ _ _
    cases hq : m.queue (I.source a) with
    | nil =>
      rw [hq, List.nil_append] at hqueue
      rw [due_barrier hqueue]
      rcases (due_empty hq).mp hdue with ⟨c, hc, hitem, hle⟩
      rcases h with hb | hall
      · exact .inl hb
      · right
        rcases hall c hc with hb | hca
        · rw [hitem] at hb
          exact absurd hb (by decide)
        · exact hle.trans hca
    | cons b rest =>
      rw [hq, List.cons_append] at hqueue
      rw [due_barrier hqueue]
      exact (due_barrier hq).mp hdue
  · exact (due_congr (append_other a hk) (append_other a hk)).mpr hdue

theorem arrive_sound (hs : Sound I ks m) (h : Rises I m a) :
    Sound I ks (m.arrive I a) := by
  constructor
  · intro k
    have hacc := hs.accounts k
    by_cases hk : k = I.source a
    · subst hk
      show taken I m (I.source a) ++ append m.queue (I.source a) a (I.source a) =
        append m.arrived (I.source a) a (I.source a)
      rw [append_same, append_same, ← List.append_assoc, hacc]
    · show taken I m k ++ append m.queue (I.source a) a k = append m.arrived (I.source a) a k
      rw [append_other a hk, append_other a hk, hacc]
  · exact hs.sources
  · intro k b hb
    by_cases hk : k = I.source a
    · subst hk
      change b ∈ append m.queue (I.source a) a (I.source a) at hb
      rw [append_same, List.mem_append, List.mem_singleton] at hb
      rcases hb with hb | rfl
      · exact hs.queued _ b hb
      · rfl
    · change b ∈ append m.queue (I.source a) a k at hb
      rw [append_other a hk] at hb
      exact hs.queued k b hb
  · exact hs.rounds
  · exact hs.items
  · exact hs.ordered
  · intro k
    by_cases hk : k = I.source a
    · subst hk
      show (append m.arrived (I.source a) a (I.source a)).Pairwise _
      rw [append_same, List.pairwise_append]
      refine ⟨hs.rising _, List.pairwise_singleton _ _, ?_⟩
      intro c hc d hd
      rw [List.mem_singleton.mp hd]
      rcases h with hb | hall
      · exact .inr (.inl hb)
      · rcases hall c hc with hb | hle
        · exact .inl hb
        · exact .inr (.inr hle)
    · show (append m.arrived (I.source a) a k).Pairwise _
      rw [append_other a hk]
      exact hs.rising k
  · intro b hb k hk
    exact arrive_due h (hs.due b hb k hk)

theorem released_queue (m : Merge κ α) (a : α) {k : κ} (h : k ≠ I.source a) :
    (m.release I a).queue k = m.queue k := by
  simp [Merge.release, h]

theorem released_front {rest : List α} (hfront : m.queue (I.source a) = a::rest) :
    (m.release I a).queue (I.source a) = rest := by
  simp [Merge.release, hfront]

/-- What stands behind the item released ranks no lower. -/
theorem released_due {rest : List α} (hs : Sound I ks m)
    (hfront : m.queue (I.source a) = a::rest) (hitem : I.barrier a = false) {x : ρ}
    (hx : x ≤ I.rank a) : Due I (m.release I a) (I.source a) x := by
  have hqueue := released_front (I := I) hfront
  have hacc := hs.accounts (I.source a)
  rw [hfront] at hacc
  cases rest with
  | nil =>
    rw [due_empty hqueue]
    refine ⟨a, ?_, hitem, hx⟩
    show a ∈ m.arrived (I.source a)
    rw [← hacc]
    simp
  | cons b rest =>
    rw [due_barrier hqueue]
    have hrising := hs.rising (I.source a)
    rw [← hacc, List.pairwise_append] at hrising
    have hab := (List.pairwise_cons.mp hrising.2.1).1 b List.mem_cons_self
    rcases hab with h | h | h
    · rw [hitem] at h
      exact absurd h (by decide)
    · exact .inl h
    · exact .inr (hx.trans h)

theorem release_sound {rest : List α} (hs : Sound I ks m) (hk : I.source a ∈ ks)
    (hfront : m.queue (I.source a) = a::rest) (hitem : I.barrier a = false)
    (h : Lowest I ks m a) : Sound I ks (m.release I a) := by
  have hhistory : history (m.release I a) = history m ++ [a] := by
    simp [history, Merge.release]
  have hbefore : ∀ b ∈ m.pending, I.rank b ≤ I.rank a := by
    intro b hb
    rcases (due_barrier hfront).mp (hs.due b hb _ hk) with h | h
    · rw [hitem] at h
      exact absurd h (by decide)
    · exact h
  constructor
  · intro k
    have hacc := hs.accounts k
    rw [taken, hhistory, List.filter_append]
    by_cases hka : k = I.source a
    · subst hka
      rw [released_front hfront, List.append_assoc]
      rw [hfront] at hacc
      rw [taken] at hacc
      simpa [Merge.release] using hacc
    · have hne : I.source a ≠ k := fun h => hka h.symm
      rw [released_queue m a hka]
      rw [taken] at hacc
      simpa [Merge.release, hne] using hacc
  · intro b hb
    rw [hhistory, List.mem_append, List.mem_singleton] at hb
    rcases hb with hb | rfl
    · exact hs.sources b hb
    · exact hk
  · intro k b hb
    by_cases hka : k = I.source a
    · subst hka
      rw [released_front hfront] at hb
      exact hs.queued _ b (by rw [hfront]; exact List.mem_cons_of_mem a hb)
    · rw [released_queue m a hka] at hb
      exact hs.queued k b hb
  · exact hs.rounds
  · intro b hb
    rcases List.mem_append.mp hb with hb | hb
    · exact hs.items b hb
    · rw [List.mem_singleton.mp hb]
      exact hitem
  · show Ordered I (m.pending ++ [a])
    rw [Ordered, List.pairwise_append]
    refine ⟨hs.ordered, List.pairwise_singleton _ _, ?_⟩
    intro b hb c hc
    rw [List.mem_singleton.mp hc]
    exact hbefore b hb
  · exact hs.rising
  · intro b hb k hk'
    have hle : I.rank b ≤ I.rank a := by
      rcases List.mem_append.mp hb with hb | hb
      · exact hbefore b hb
      · rw [List.mem_singleton.mp hb]
    by_cases hka : k = I.source a
    · subst hka
      exact released_due hs hfront hitem hle
    · rcases h k hk' with ⟨c, rest', hc, hlow⟩
      rw [due_barrier ((released_queue m a hka).trans hc)]
      exact hlow.imp_right hle.trans

theorem mem_fronts {b : α} (h : b ∈ m.fronts ks) : ∃ k ∈ ks, ∃ rest, m.queue k = b::rest := by
  rcases List.mem_filterMap.mp h with ⟨k, hk, hb⟩
  exact ⟨k, hk, List.head?_eq_some_iff.mp hb⟩

theorem fronts_cons {k : κ} {js : List κ} {b : α} {rest : List α} (hq : m.queue k = b::rest) :
    m.fronts (k::js) = b::m.fronts js := by
  have hhead : (m.queue k).head? = some b := by rw [hq]; rfl
  rw [Merge.fronts, List.filterMap_cons, hhead]
  rfl

theorem fronts_cons_empty {k : κ} {js : List κ} (hq : m.queue k = []) :
    m.fronts (k::js) = m.fronts js := by
  have hhead : (m.queue k).head? = none := by rw [hq]; rfl
  rw [Merge.fronts, List.filterMap_cons, hhead]
  rfl

theorem fronts_sources (hs : Sound I ks m) (h : Closable I ks m) :
    (m.fronts ks).map I.source = ks := by
  have hall : ∀ js : List κ, (∀ k ∈ js, k ∈ ks) → (m.fronts js).map I.source = js := by
    intro js
    induction js with
    | nil => intro _; rfl
    | cons k js ih =>
      intro hjs
      rcases h k (hjs k List.mem_cons_self) with ⟨b, rest, hq, -⟩
      have hb : I.source b = k := hs.queued k b (by rw [hq]; exact List.mem_cons_self)
      rw [fronts_cons hq, List.map_cons, hb]
      exact congrArg _ (ih fun j hj => hjs j (List.mem_cons_of_mem k hj))
  exact hall ks fun _ hk => hk

theorem fronts_absent (hqueued : ∀ k, ∀ a ∈ m.queue k, I.source a = k) {js : List κ} {k : κ}
    (hk : k ∉ js) : (m.fronts js).filter (fun a => I.source a = k) = [] := by
  rw [List.filter_eq_nil_iff]
  intro b hb
  rcases mem_fronts hb with ⟨j, hj, rest, hq⟩
  have hsource := hqueued j b (by rw [hq]; exact List.mem_cons_self)
  simp only [decide_eq_true_eq]
  intro h
  exact hk (h ▸ hsource ▸ hj)

/-- Of the barriers taken together, one belongs to each source. -/
theorem fronts_present (hqueued : ∀ k, ∀ a ∈ m.queue k, I.source a = k) {js : List κ}
    (hnodup : js.Nodup) {k : κ} (hk : k ∈ js) :
    (m.fronts js).filter (fun a => I.source a = k) = (m.queue k).take 1 := by
  induction js with
  | nil => exact absurd hk List.not_mem_nil
  | cons j js ih =>
    rcases List.nodup_cons.mp hnodup with ⟨hj, hnodup⟩
    by_cases hjk : j = k
    · subst hjk
      cases hq : m.queue j with
      | nil =>
        rw [fronts_cons_empty hq, fronts_absent hqueued hj]
        rfl
      | cons b rest =>
        have hb := hqueued j b (by rw [hq]; exact List.mem_cons_self)
        rw [fronts_cons hq, List.filter_cons_of_pos (by simpa using hb),
          fronts_absent hqueued hj]
        simp
    · have hrest := ih hnodup ((List.mem_cons.mp hk).resolve_left fun h => hjk h.symm)
      cases hq : m.queue j with
      | nil => rw [fronts_cons_empty hq, hrest]
      | cons b rest =>
        have hb := hqueued j b (by rw [hq]; exact List.mem_cons_self)
        rw [fronts_cons hq, List.filter_cons_of_neg (by simpa [hb] using hjk), hrest]

theorem close_sound (hs : Sound I ks m) (hnodup : ks.Nodup) (h : Closable I ks m) :
    Sound I ks (m.close ks) := by
  have hhistory : history (m.close ks) = history m ++ m.fronts ks := by
    simp [history, Merge.close]
  have hsources := fronts_sources hs h
  constructor
  · intro k
    have hacc := hs.accounts k
    rw [taken, hhistory, List.filter_append, List.append_assoc]
    rw [taken] at hacc
    by_cases hk : k ∈ ks
    · rw [fronts_present hs.queued hnodup hk]
      have hqueue : (m.close ks).queue k = (m.queue k).tail := by simp [Merge.close, hk]
      rw [hqueue, ← List.drop_one, List.take_append_drop]
      exact hacc
    · rw [fronts_absent hs.queued hk]
      have hqueue : (m.close ks).queue k = m.queue k := by simp [Merge.close, hk]
      rw [hqueue]
      exact hacc
  · intro b hb
    rw [hhistory, List.mem_append] at hb
    rcases hb with hb | hb
    · exact hs.sources b hb
    · rw [← hsources]
      exact List.mem_map_of_mem hb
  · intro k b hb
    by_cases hk : k ∈ ks
    · have hqueue : (m.close ks).queue k = (m.queue k).tail := by simp [Merge.close, hk]
      rw [hqueue] at hb
      exact hs.queued k b (List.mem_of_mem_tail hb)
    · have hqueue : (m.close ks).queue k = m.queue k := by simp [Merge.close, hk]
      rw [hqueue] at hb
      exact hs.queued k b hb
  · intro r hr
    rcases List.mem_append.mp hr with hr | hr
    · exact hs.rounds r hr
    · rw [List.mem_singleton.mp hr]
      constructor
      · exact hs.items
      · exact hs.ordered
      · intro b hb
        rcases mem_fronts hb with ⟨k, hk, rest, hq⟩
        rcases h k hk with ⟨b', rest', hq', hbarrier⟩
        rw [hq] at hq'
        rw [(List.cons.inj hq').1]
        exact hbarrier
      · exact hsources
  · simp [Merge.close]
  · simp [Merge.close, Ordered]
  · exact hs.rising
  · simp [Merge.close]

theorem step_sound (hnodup : ks.Nodup) (hs : Sound I ks m) (h : Step I ks m n) :
    Sound I ks n := by
  cases h with
  | arrive a hk h => exact arrive_sound hs h
  | release a rest hk hfront hitem h => exact release_sound hs hk hfront hitem h
  | close h => exact close_sound hs hnodup h

/-! ## Rounds and barriers -/

def barriersOf (I : Reading κ α ρ) (as : List α) : List α := as.filter I.barrier

theorem round_barriers (hnodup : ks.Nodup) {r : Round α} (hr : ClosedRound I ks r) {k : κ}
    (hk : k ∈ ks) :
    (barriersOf I ((r.items ++ r.barriers).filter fun a => I.source a = k)).length = 1 := by
  have hitems : barriersOf I (r.items.filter fun a => I.source a = k) = [] := by
    rw [barriersOf, List.filter_eq_nil_iff]
    intro a ha
    rw [hr.items a (List.mem_of_mem_filter ha)]
    decide
  have hall : barriersOf I (r.barriers.filter fun a => I.source a = k) =
      r.barriers.filter fun a => I.source a = k := by
    rw [barriersOf, List.filter_eq_self]
    intro b hb
    exact hr.barriers b (List.mem_of_mem_filter hb)
  have hcount : (r.barriers.filter fun a => I.source a = k).length = ks.count k := by
    rw [← hr.sources, List.count, List.countP_map, List.countP_eq_length_filter]
    rfl
  rw [List.filter_append, barriersOf, List.filter_append, ← barriersOf, ← barriersOf, hitems,
    List.nil_append, hall, hcount]
  exact List.count_eq_one_of_mem hnodup hk

/-- Each round took one barrier of each source. -/
theorem taken_barriers (hnodup : ks.Nodup) (hs : Sound I ks m) {k : κ} (hk : k ∈ ks) :
    (barriersOf I (taken I m k)).length = m.rounds.length := by
  have hpending : barriersOf I (m.pending.filter fun a => I.source a = k) = [] := by
    rw [barriersOf, List.filter_eq_nil_iff]
    intro a ha
    rw [hs.items a (List.mem_of_mem_filter ha)]
    decide
  have hrounds : ∀ rs : List (Round α), (∀ r ∈ rs, ClosedRound I ks r) →
      (barriersOf I ((rs.flatMap fun r => r.items ++ r.barriers).filter
        fun a => I.source a = k)).length = rs.length := by
    intro rs
    induction rs with
    | nil => intro _; rfl
    | cons r rs ih =>
      intro hall
      have hr := round_barriers hnodup (hall r List.mem_cons_self) hk
      have hrest := ih fun r hr => hall r (List.mem_cons_of_mem _ hr)
      rw [List.flatMap_cons, List.filter_append, barriersOf, List.filter_append,
        List.length_append, ← barriersOf, ← barriersOf, hr, hrest, List.length_cons]
      omega
  rw [taken, history, List.filter_append, barriersOf, List.filter_append, ← barriersOf,
    ← barriersOf, hpending, List.append_nil]
  exact hrounds m.rounds hs.rounds

/-- The barrier at the front of a source is its first one that no round took. -/
theorem front_barrier (hnodup : ks.Nodup) (hs : Sound I ks m) {k : κ} (hk : k ∈ ks) {b : α}
    {rest : List α} (hq : m.queue k = b::rest) (hb : I.barrier b = true) :
    (barriersOf I (m.arrived k))[m.rounds.length]? = some b := by
  have hlen := taken_barriers hnodup hs hk
  rw [← hs.accounts k, hq, barriersOf, List.filter_append, List.filter_cons_of_pos hb,
    ← barriersOf, List.getElem?_append_right (by omega), hlen, Nat.sub_self]
  rfl

end OrderedMerge
