import Sirannon.MachineInt
import Sirannon.MediaPacket
import Sirannon.SortedPrefixes

/-!
# Zipping the classes of a buffer

The packets of a buffer are put in queues, one for each class, and taken out
again as a multimap of the queues by their times says. A queue that goes back
in has its time read from the entry that was just erased.
-/

set_option autoImplicit false

namespace Sirannon.Zip
open Media MachineInt

variable {α : Type}

inductive Error
  | undefinedBehaviour
  | outOfFuel
  deriving DecidableEq, Repr

structure muxx_t (α : Type) where
  vBuffer : List α
  fStep : ℚ

/-- A multimap of times and indices into `lMux`. -/
abbrev map_t := List (ℚ × ℕ)

/-- A new entry goes behind those with the same key. -/
def map_t.insert (fKey : ℚ) (i : ℕ) : map_t → map_t
  | [] => [(fKey, i)]
  | e::mMux => if e.1 ≤ fKey then e::map_t.insert fKey i mMux else (fKey, i)::e::mMux

def setBuffer (lMux : ℕ → muxx_t α) (i : ℕ) (vBuffer : List α) : ℕ → muxx_t α :=
  Function.update lMux i { lMux i with vBuffer := vBuffer }

def classify (iNum : ℕ) (oClass : α → ℕ) :
    List α → (ℕ → muxx_t α) → Except Error (ℕ → muxx_t α)
  | [], lMux => .ok lMux
  | p::vBuffer, lMux =>
    if oClass p < iNum then
      classify iNum oClass vBuffer (setBuffer lMux (oClass p) ((lMux (oClass p)).vBuffer++[p]))
    else .error .undefinedBehaviour

/-- `RandomGenerator::next` -/
def next (iState : ℕ) : ℕ := (iState*69069+5)%2^32

/-- The loop over `j` that moves packets of a queue to its end. -/
def shuffle (iState : ℕ) : ℕ → List α → Except Error (ℕ × List α)
  | 0, vBuffer => .ok (iState, vBuffer)
  | j+1, vBuffer =>
    match vBuffer[next iState%(j+1)]? with
    | none => .error .undefinedBehaviour
    | some p => shuffle (next iState) j ((vBuffer++[p]).eraseIdx (next iState%(j+1)))

def randomize (iState : ℕ) : List ℕ → (ℕ → muxx_t α) → Except Error (ℕ → muxx_t α)
  | [], lMux => .ok lMux
  | i::is, lMux => do
    let r ← shuffle iState (lMux i).vBuffer.length (lMux i).vBuffer
    randomize r.1 is (setBuffer lMux i r.2)

def prepare (iNum : ℕ) (lMux : ℕ → muxx_t α) : ℕ → muxx_t α := fun i =>
  if i < iNum ∧ (lMux i).vBuffer ≠ [] then
    { lMux i with fStep := 1/(lMux i).vBuffer.length }
  else lMux i

/-- `erased` gives what is read as the key of an entry that was erased. -/
def mux (erased : ℚ → Except Error ℚ) :
    ℕ → map_t → (ℕ → muxx_t α) → List α → Except Error (List α)
  | _, [], _, vBuffer => .ok vBuffer
  | 0, _::_, _, _ => .error .outOfFuel
  | iFuel+1, (fKey, i)::mMux, lMux, vBuffer =>
    match (lMux i).vBuffer with
    | [] => mux erased iFuel mMux lMux vBuffer
    | [p] => mux erased iFuel mMux (setBuffer lMux i []) (vBuffer++[p])
    | p::q::rest => do
      let fKey ← erased fKey
      mux erased iFuel (map_t.insert (fKey+(lMux i).fStep) i mMux) (setBuffer lMux i (q::rest))
        (vBuffer++[p])

/-- `iState` is the seed of the random generator, where there is one. -/
def zip (erased : ℚ → Except Error ℚ) (vBuffer : List α) (iNum : ℕ) (oClass : α → ℕ)
    (bRandomize : Option ℕ) : Except Error (List α) := do
  let mMux := (List.range iNum).map fun i => ((0 : ℚ), i)
  let lMux ← classify iNum oClass vBuffer fun _ => ⟨[], 0⟩
  let lMux ← match bRandomize with
    | some iState => randomize iState (List.range iNum) lMux
    | none => .ok lMux
  mux erased (iNum+vBuffer.length) mMux (prepare iNum lMux) []

/-- The memory of an erased entry is not to be read. -/
def freed (_ : ℚ) : Except Error ℚ := .error .undefinedBehaviour

/-- The memory of an erased entry still holds its key. -/
def kept (fKey : ℚ) : Except Error ℚ := .ok fKey

def classify_route (pPckt : MediaPacket) : ℕ := uint32 (pPckt.xroute.tmod 100)

/-- `qmatch_Scheduler::interleave2` -/
def interleave2 (vSend : List MediaPacket) : Except Error (List MediaPacket) :=
  zip freed vSend 5 classify_route none

/-- `qmatch_Scheduler::interleave3` -/
def interleave3 (iState : ℕ) (vSend : List MediaPacket) : Except Error (List MediaPacket) :=
  zip freed vSend 5 classify_route (some iState)

/-! ## Schedules -/

variable {oClass : α → ℕ}

def size (oClass : α → ℕ) (i : ℕ) (vBuffer : List α) : ℕ :=
  vBuffer.countP fun p => decide (oClass p = i)

def queue (oClass : α → ℕ) (i : ℕ) (vBuffer : List α) : List α :=
  vBuffer.filter fun p => decide (oClass p = i)

/-- The time of the packet `(i, k)`, the `k`-th of class `i`. -/
def time (n : ℕ → ℕ) (x : ℕ × ℕ) : ℚ := x.2/n x.1

/-- All packets of classes with `n i` packets, in the order of their times. -/
structure Schedule (n : ℕ → ℕ) (vTimes : List (ℕ × ℕ)) : Prop where
  nodup : vTimes.Nodup
  mem : ∀ x, x ∈ vTimes ↔ x.2 < n x.1
  rising : vTimes.Pairwise fun x y => time n x ≤ time n y

/-- Each packet with its place in its class, when those of `past` went in front. -/
def stampsAfter (oClass : α → ℕ) (past : List α) : List α → List (ℕ × ℕ)
  | [] => []
  | p::rest => (oClass p, size oClass (oClass p) past)::stampsAfter oClass (past++[p]) rest

attribute [grind =] stampsAfter

def stamps (oClass : α → ℕ) (vBuffer : List α) : List (ℕ × ℕ) := stampsAfter oClass [] vBuffer

/-- Every prefix holds of each class as many packets as the schedules say, up to one. -/
def Proportional (oClass : α → ℕ) (vBuffer : List α) : Prop :=
  (∃ vTimes, Schedule (fun i => size oClass i vBuffer) vTimes) ∧
    ∀ vTimes, Schedule (fun i => size oClass i vBuffer) vTimes → ∀ m i,
      size oClass i (vBuffer.take m) ≤ (vTimes.take m).countP (fun x => decide (x.1 = i))+1 ∧
        (vTimes.take m).countP (fun x => decide (x.1 = i)) ≤ size oClass i (vBuffer.take m)+1

/-- The result holds the packets of the buffer, spread in proportion, those of a class in order. -/
def Zipped (oClass : α → ℕ) (bRandomize : Option ℕ) (vBuffer : List α)
    (r : Except Error (List α)) : Prop :=
  ∃ vOut, r = .ok vOut ∧ vOut.Perm vBuffer ∧
    (bRandomize = none → ∀ i, queue oClass i vOut = queue oClass i vBuffer) ∧
    Proportional oClass vOut

example : zip kept [0, 1, 2, 10, 20, 21, 22] 3 (·/10) none = .ok [0, 10, 20, 1, 21, 2, 22] := by
  decide +kernel

/-! ## Queues -/

theorem setBuffer_same (lMux : ℕ → muxx_t α) (i : ℕ) (vBuffer : List α) :
    (setBuffer lMux i vBuffer i).vBuffer = vBuffer := by
  rw [setBuffer, Function.update_self]

theorem setBuffer_other (lMux : ℕ → muxx_t α) {i j : ℕ} (vBuffer : List α) (h : j ≠ i) :
    (setBuffer lMux i vBuffer j).vBuffer = (lMux j).vBuffer := by
  rw [setBuffer, Function.update_of_ne h]

theorem setBuffer_step (lMux : ℕ → muxx_t α) (i j : ℕ) (vBuffer : List α) :
    (setBuffer lMux i vBuffer j).fStep = (lMux j).fStep := by
  by_cases h : j = i
  · subst h
    rw [setBuffer, Function.update_self]
  · rw [setBuffer, Function.update_of_ne h]

theorem size_eq (oClass : α → ℕ) (i : ℕ) (vBuffer : List α) :
    size oClass i vBuffer = (queue oClass i vBuffer).length := List.countP_eq_length_filter

theorem size_snoc_same {p : α} {i : ℕ} (h : oClass p = i) (vBuffer : List α) :
    size oClass i (vBuffer++[p]) = size oClass i vBuffer+1 := by
  simp [size, List.countP_append, h]

theorem size_snoc_other {p : α} {i : ℕ} (h : oClass p ≠ i) (vBuffer : List α) :
    size oClass i (vBuffer++[p]) = size oClass i vBuffer := by
  simp [size, List.countP_append, h]

theorem queue_snoc_same {p : α} {i : ℕ} (h : oClass p = i) (vBuffer : List α) :
    queue oClass i (vBuffer++[p]) = queue oClass i vBuffer++[p] := by
  simp [queue, h]

theorem queue_snoc_other {p : α} {i : ℕ} (h : oClass p ≠ i) (vBuffer : List α) :
    queue oClass i (vBuffer++[p]) = queue oClass i vBuffer := by
  simp [queue, h]

theorem class_of_queue {p : α} {i : ℕ} {vBuffer : List α} (h : p ∈ queue oClass i vBuffer) :
    oClass p = i := by
  simpa using (List.mem_filter.mp h).2

/-- A buffer is a permutation of another when its queues are. -/
theorem perm_of_queues {vOut vBuffer : List α}
    (h : ∀ i, (queue oClass i vOut).Perm (queue oClass i vBuffer)) : vOut.Perm vBuffer := by
  classical
  rw [List.perm_iff_count]
  intro p
  have hcount : ∀ v : List α, v.count p = (queue oClass (oClass p) v).count p := by
    intro v
    rw [queue, List.count_filter (by simp)]
  rw [hcount vOut, hcount vBuffer, (h (oClass p)).count_eq]

/-- The packets are those of all classes. -/
theorem length_eq_sizes {iNum : ℕ} {vBuffer : List α} (h : ∀ p ∈ vBuffer, oClass p < iNum) :
    vBuffer.length = ∑ i ∈ Finset.range iNum, size oClass i vBuffer := by
  induction vBuffer with
  | nil => simp [size]
  | cons p vBuffer ih =>
    have hp : oClass p < iNum := h p List.mem_cons_self
    rw [List.length_cons, ih fun q hq => h q (List.mem_cons_of_mem _ hq)]
    simp [size, List.countP_cons, Finset.sum_add_distrib, hp]

/-! ## What is put in the queues -/

theorem classify_queues {iNum : ℕ} (vBuffer : List α) (lMux : ℕ → muxx_t α)
    (h : ∀ p ∈ vBuffer, oClass p < iNum) :
    ∃ lMux', classify iNum oClass vBuffer lMux = .ok lMux' ∧
      ∀ i, (lMux' i).vBuffer = (lMux i).vBuffer++queue oClass i vBuffer := by
  induction vBuffer generalizing lMux with
  | nil => exact ⟨lMux, rfl, fun i => (List.append_nil _).symm⟩
  | cons p vBuffer ih =>
    obtain ⟨lMux', hok, hqueues⟩ := ih
      (setBuffer lMux (oClass p) ((lMux (oClass p)).vBuffer++[p]))
      fun q hq => h q (List.mem_cons_of_mem _ hq)
    refine ⟨lMux', ?_, ?_⟩
    · rw [classify, if_pos (h p List.mem_cons_self), hok]
    · intro i
      rw [hqueues i]
      by_cases hi : i = oClass p
      · subst hi
        simp [setBuffer_same, queue]
      · rw [setBuffer_other _ _ hi]
        simp [queue, Ne.symm hi]

theorem shuffle_perm (iState j : ℕ) (vBuffer : List α) (h : j ≤ vBuffer.length) :
    ∃ r, shuffle iState j vBuffer = .ok r ∧ r.2.Perm vBuffer := by
  induction j generalizing iState vBuffer with
  | zero => exact ⟨(iState, vBuffer), rfl, List.Perm.refl _⟩
  | succ j ih =>
    have hn : next iState%(j+1) < vBuffer.length :=
      (Nat.mod_lt _ (Nat.succ_pos j)).trans_le h
    have hperm : ((vBuffer++[vBuffer[next iState%(j+1)]]).eraseIdx (next iState%(j+1))).Perm
        vBuffer := by
      rw [List.eraseIdx_append_of_lt_length hn]
      exact (List.perm_append_singleton _ _).trans (List.getElem_cons_eraseIdx_perm hn)
    obtain ⟨r, hr, hrperm⟩ := ih (next iState) _ (by rw [hperm.length_eq]; omega)
    refine ⟨r, ?_, hrperm.trans hperm⟩
    rw [shuffle, List.getElem?_eq_getElem hn]
    exact hr

theorem randomize_perm (iState : ℕ) (is : List ℕ) (lMux : ℕ → muxx_t α) :
    ∃ lMux', randomize iState is lMux = .ok lMux' ∧
      ∀ i, (lMux' i).vBuffer.Perm (lMux i).vBuffer := by
  induction is generalizing iState lMux with
  | nil => exact ⟨lMux, rfl, fun i => List.Perm.refl _⟩
  | cons i is ih =>
    obtain ⟨r, hr, hperm⟩ := shuffle_perm iState _ (lMux i).vBuffer le_rfl
    obtain ⟨lMux', hok, hqueues⟩ := ih r.1 (setBuffer lMux i r.2)
    refine ⟨lMux', ?_, ?_⟩
    · rw [randomize, hr]
      exact hok
    · intro j
      apply (hqueues j).trans
      by_cases hj : j = i
      · subst hj
        rwa [setBuffer_same]
      · rw [setBuffer_other _ _ hj]

theorem prepare_vBuffer (iNum : ℕ) (lMux : ℕ → muxx_t α) (i : ℕ) :
    (prepare iNum lMux i).vBuffer = (lMux i).vBuffer := by
  unfold prepare
  split_ifs <;> rfl

theorem prepare_step {iNum i : ℕ} {lMux : ℕ → muxx_t α} (hi : i < iNum)
    (h : (lMux i).vBuffer ≠ []) : (prepare iNum lMux i).fStep = 1/(lMux i).vBuffer.length := by
  unfold prepare
  rw [if_pos ⟨hi, h⟩]

/-! ## Stamps -/

theorem stampsAfter_snoc (past vBuffer : List α) (p : α) :
    stampsAfter oClass past (vBuffer++[p]) =
      stampsAfter oClass past vBuffer++[(oClass p, size oClass (oClass p) (past++vBuffer))] := by
  induction vBuffer generalizing past with
  | nil => simp [stampsAfter]
  | cons q vBuffer ih =>
    rw [List.cons_append, stampsAfter, ih, stampsAfter, List.append_assoc, List.singleton_append,
      List.cons_append]

theorem stamps_snoc (vBuffer : List α) (p : α) :
    stamps oClass (vBuffer++[p]) =
      stamps oClass vBuffer++[(oClass p, size oClass (oClass p) vBuffer)] := by
  rw [stamps, stampsAfter_snoc, List.nil_append, stamps]

theorem stampsAfter_classes (past vBuffer : List α) :
    (stampsAfter oClass past vBuffer).map Prod.fst = vBuffer.map oClass := by
  induction vBuffer generalizing past with
  | nil => rfl
  | cons p vBuffer ih => rw [stampsAfter, List.map_cons, ih, List.map_cons]

/-- The first `m` stamps hold each class as often as the first `m` packets. -/
theorem take_stamps (vBuffer : List α) (m i : ℕ) :
    ((stamps oClass vBuffer).take m).countP (fun x => decide (x.1 = i)) =
      size oClass i (vBuffer.take m) := by
  have hmap : ((stamps oClass vBuffer).take m).map Prod.fst = (vBuffer.take m).map oClass := by
    rw [List.map_take, stamps, stampsAfter_classes, List.map_take]
  have hcount := congrArg (List.countP fun j => decide (j = i)) hmap
  rw [List.countP_map, List.countP_map] at hcount
  exact hcount

theorem mem_stamps (vBuffer : List α) (x : ℕ × ℕ) :
    x ∈ stamps oClass vBuffer ↔ x.2 < size oClass x.1 vBuffer := by
  induction vBuffer using List.reverseRecOn with
  | nil => simp [stamps, stampsAfter, size]
  | append_singleton vBuffer p ih =>
    rw [stamps_snoc, List.mem_append, ih, List.mem_singleton]
    by_cases hp : oClass p = x.1
    · rw [size_snoc_same hp, Prod.ext_iff]
      simp only [hp, true_and]
      omega
    · rw [size_snoc_other hp, Prod.ext_iff]
      simp only [Ne.symm hp, false_and, or_false]

theorem stamps_nodup (vBuffer : List α) : (stamps oClass vBuffer).Nodup := by
  induction vBuffer using List.reverseRecOn with
  | nil => exact List.nodup_nil
  | append_singleton vBuffer p ih =>
    rw [stamps_snoc, List.nodup_append]
    refine ⟨ih, List.nodup_singleton _, ?_⟩
    rintro x hx y hy rfl
    rw [mem_stamps, List.mem_singleton.mp hy] at hx
    exact lt_irrefl _ hx

/-- Two schedules of the same packets have up to one the same number of each class in front. -/
theorem schedules_agree {n : ℕ → ℕ} {A B : List (ℕ × ℕ)} (hA : Schedule n A)
    (hB : Schedule n B) (m i : ℕ) :
    (A.take m).countP (fun x => decide (x.1 = i)) ≤
      (B.take m).countP (fun x => decide (x.1 = i))+1 := by
  have hperm : A.Perm B := by
    rw [List.perm_ext_iff_of_nodup hA.nodup hB.nodup]
    intro x
    rw [hA.mem, hB.mem]
  apply SortedPrefixes.countP_take_le hperm hA.nodup hA.rising hB.rising
  intro x hx y hy hxi hyi htime
  rw [decide_eq_true_eq] at hxi hyi
  have hn : (n i : ℚ) ≠ 0 := by
    have hlt := (hA.mem x).mp hx
    rw [hxi] at hlt
    exact_mod_cast Nat.ne_of_gt (Nat.zero_lt_of_lt hlt)
  rw [time, time, hxi, hyi, div_left_inj' hn] at htime
  exact Prod.ext (hxi.trans hyi.symm) (by exact_mod_cast htime)

theorem proportional_of_rising {vBuffer : List α}
    (h : (stamps oClass vBuffer).Pairwise fun x y =>
      time (fun i => size oClass i vBuffer) x ≤ time (fun i => size oClass i vBuffer) y) :
    Proportional oClass vBuffer := by
  have hstamps : Schedule (fun i => size oClass i vBuffer) (stamps oClass vBuffer) :=
    ⟨stamps_nodup vBuffer, mem_stamps vBuffer, h⟩
  refine ⟨⟨_, hstamps⟩, ?_⟩
  intro vTimes hvTimes m i
  rw [← take_stamps]
  exact ⟨schedules_agree hstamps hvTimes m i, schedules_agree hvTimes hstamps m i⟩

/-! ## The multimap -/

theorem insert_perm (fKey : ℚ) (i : ℕ) (mMux : map_t) :
    (map_t.insert fKey i mMux).Perm ((fKey, i)::mMux) := by
  induction mMux with
  | nil => exact List.Perm.refl _
  | cons e mMux ih =>
    rw [map_t.insert]
    split_ifs with h
    · exact (ih.cons e).trans (List.Perm.swap _ _ _)
    · exact List.Perm.refl _

theorem insert_ordered {fKey : ℚ} {i : ℕ} {mMux : map_t}
    (h : mMux.Pairwise fun e f => e.1 ≤ f.1) :
    (map_t.insert fKey i mMux).Pairwise fun e f => e.1 ≤ f.1 := by
  induction mMux with
  | nil => exact List.pairwise_singleton _ _
  | cons e mMux ih =>
    have hcons := List.pairwise_cons.mp h
    rw [map_t.insert]
    split_ifs with hle
    · rw [List.pairwise_cons]
      refine ⟨?_, ih hcons.2⟩
      intro f hf
      rcases List.mem_cons.mp ((insert_perm fKey i mMux).subset hf) with rfl | hf
      · exact hle
      · exact hcons.1 f hf
    · rw [List.pairwise_cons]
      refine ⟨?_, h⟩
      intro f hf
      rcases List.mem_cons.mp hf with rfl | hf
      · exact (not_le.mp hle).le
      · exact (not_le.mp hle).le.trans (hcons.1 f hf)

/-- The queues that hold packets are in the multimap. -/
def Listed (mMux : map_t) (lMux : ℕ → muxx_t α) : Prop :=
  ∀ i, (lMux i).vBuffer ≠ [] → i ∈ mMux.map Prod.snd

variable {mMux : map_t} {lMux : ℕ → muxx_t α} {vOut rest : List α} {fKey : ℚ} {i : ℕ} {p : α}

theorem listed_nil (h : Listed [] lMux) (i : ℕ) : (lMux i).vBuffer = [] := by
  by_contra hne
  exact absurd (h i hne) List.not_mem_nil

theorem listed_drop (h : Listed ((fKey, i)::mMux) lMux) (hempty : (lMux i).vBuffer = []) :
    Listed mMux lMux := by
  intro j hj
  rcases List.mem_cons.mp (h j hj) with rfl | hmem
  · exact absurd hempty hj
  · exact hmem

theorem listed_last (h : Listed ((fKey, i)::mMux) lMux) : Listed mMux (setBuffer lMux i []) := by
  intro j hj
  by_cases hji : j = i
  · subst hji
    exact absurd (setBuffer_same lMux j []) hj
  · rw [setBuffer_other _ _ hji] at hj
    exact (List.mem_cons.mp (h j hj)).resolve_left hji

theorem listed_again (fKey' : ℚ) (rest : List α) (h : Listed ((fKey, i)::mMux) lMux) :
    Listed (map_t.insert fKey' i mMux) (setBuffer lMux i rest) := by
  intro j hj
  rw [((insert_perm fKey' i mMux).map Prod.snd).mem_iff]
  by_cases hji : j = i
  · rw [hji]
    exact List.mem_cons_self
  · rw [setBuffer_other _ _ hji] at hj
    exact h j hj

/-! ## The loop -/

/-- `L` are the queues the loop starts with. -/
structure Zipping (oClass : α → ℕ) (L : ℕ → List α) (mMux : map_t) (lMux : ℕ → muxx_t α)
    (vOut : List α) : Prop where
  queues : ∀ i, queue oClass i vOut++(lMux i).vBuffer = L i
  steps : ∀ i, (lMux i).vBuffer ≠ [] → (lMux i).fStep = 1/(L i).length
  keys : ∀ e ∈ mMux, e.1 = time (fun i => (L i).length) (e.2, size oClass e.2 vOut)
  ordered : mMux.Pairwise fun e f => e.1 ≤ f.1
  indices : (mMux.map Prod.snd).Nodup
  bounded : ∀ x ∈ stamps oClass vOut, ∀ e ∈ mMux, time (fun i => (L i).length) x ≤ e.1
  rising : (stamps oClass vOut).Pairwise fun x y =>
    time (fun i => (L i).length) x ≤ time (fun i => (L i).length) y

variable {L : ℕ → List α}

theorem zipping_drop (h : Zipping oClass L ((fKey, i)::mMux) lMux vOut) :
    Zipping oClass L mMux lMux vOut where
  queues := h.queues
  steps := h.steps
  keys := fun e he => h.keys e (List.mem_cons_of_mem _ he)
  ordered := (List.pairwise_cons.mp h.ordered).2
  indices := (List.nodup_cons.mp h.indices).2
  bounded := fun x hx e he => h.bounded x hx e (List.mem_cons_of_mem _ he)
  rising := h.rising

theorem Zipping.front_key (h : Zipping oClass L ((fKey, i)::mMux) lMux vOut) :
    fKey = time (fun i => (L i).length) (i, size oClass i vOut) :=
  h.keys (fKey, i) List.mem_cons_self

theorem Zipping.class_eq (h : Zipping oClass L ((fKey, i)::mMux) lMux vOut)
    (hL : ∀ i, ∀ p ∈ L i, oClass p = i) (hfront : (lMux i).vBuffer = p::rest) : oClass p = i := by
  apply hL
  rw [← h.queues i, hfront]
  exact List.mem_append_right _ List.mem_cons_self

/-- No packet has gone out whose time is behind that of the queue in front. -/
theorem Zipping.stamps_le (h : Zipping oClass L ((fKey, i)::mMux) lMux vOut) (hp : oClass p = i)
    (x : ℕ × ℕ) (hx : x ∈ stamps oClass (vOut++[p])) :
    time (fun i => (L i).length) x ≤ fKey := by
  rw [stamps_snoc, List.mem_append, List.mem_singleton, hp] at hx
  rcases hx with hx | rfl
  · exact h.bounded x hx (fKey, i) List.mem_cons_self
  · exact h.front_key.symm.le

theorem zipping_taken (hL : ∀ i, ∀ p ∈ L i, oClass p = i)
    (h : Zipping oClass L ((fKey, i)::mMux) lMux vOut) (hfront : (lMux i).vBuffer = p::rest) :
    Zipping oClass L mMux (setBuffer lMux i rest) (vOut++[p]) := by
  have hp := h.class_eq hL hfront
  have hindices := List.nodup_cons.mp h.indices
  have hordered := List.pairwise_cons.mp h.ordered
  constructor
  · intro j
    by_cases hj : j = i
    · subst hj
      rw [queue_snoc_same hp, setBuffer_same, ← h.queues j, hfront, List.append_assoc,
        List.singleton_append]
    · rw [queue_snoc_other (by rw [hp]; exact Ne.symm hj), setBuffer_other _ _ hj, h.queues j]
  · intro j hj
    rw [setBuffer_step]
    apply h.steps
    by_cases hji : j = i
    · subst hji
      rw [hfront]
      exact List.cons_ne_nil _ _
    · rwa [setBuffer_other _ _ hji] at hj
  · intro e he
    have hne : oClass p ≠ e.2 := by
      rintro heq
      apply hindices.1
      rw [← hp, heq]
      exact List.mem_map.mpr ⟨e, he, rfl⟩
    rw [size_snoc_other hne]
    exact h.keys e (List.mem_cons_of_mem _ he)
  · exact hordered.2
  · exact hindices.2
  · intro x hx e he
    exact (h.stamps_le hp x hx).trans (hordered.1 e he)
  · rw [stamps_snoc, List.pairwise_append]
    refine ⟨h.rising, List.pairwise_singleton _ _, ?_⟩
    intro x hx y hy
    rw [List.mem_singleton.mp hy, hp]
    exact (h.bounded x hx (fKey, i) List.mem_cons_self).trans h.front_key.le

theorem zipping_insert (h : Zipping oClass L mMux lMux vOut) (hi : i ∉ mMux.map Prod.snd)
    (hkey : fKey = time (fun i => (L i).length) (i, size oClass i vOut))
    (hbound : ∀ x ∈ stamps oClass vOut, time (fun i => (L i).length) x ≤ fKey) :
    Zipping oClass L (map_t.insert fKey i mMux) lMux vOut where
  queues := h.queues
  steps := h.steps
  keys := by
    intro e he
    rcases List.mem_cons.mp ((insert_perm fKey i mMux).subset he) with rfl | he
    · exact hkey
    · exact h.keys e he
  ordered := insert_ordered h.ordered
  indices := by
    rw [((insert_perm fKey i mMux).map Prod.snd).nodup_iff]
    exact List.nodup_cons.mpr ⟨hi, h.indices⟩
  bounded := by
    intro x hx e he
    rcases List.mem_cons.mp ((insert_perm fKey i mMux).subset he) with rfl | he
    · exact hbound x hx
    · exact h.bounded x hx e he
  rising := h.rising

theorem zipping_again (hL : ∀ i, ∀ p ∈ L i, oClass p = i)
    (h : Zipping oClass L ((fKey, i)::mMux) lMux vOut) (hfront : (lMux i).vBuffer = p::rest) :
    Zipping oClass L (map_t.insert (fKey+(lMux i).fStep) i mMux) (setBuffer lMux i rest)
      (vOut++[p]) := by
  have hp := h.class_eq hL hfront
  have hstep : (lMux i).fStep = 1/(L i).length := by
    apply h.steps
    rw [hfront]
    exact List.cons_ne_nil _ _
  apply zipping_insert (zipping_taken hL h hfront) (List.nodup_cons.mp h.indices).1
  · rw [h.front_key, hstep, size_snoc_same hp, time, time, ← add_div]
    push_cast
    rfl
  · intro x hx
    have hpos : (0 : ℚ) ≤ 1/(L i).length := by positivity
    rw [hstep]
    linarith [h.stamps_le hp x hx]

theorem Zipping.size_le (h : Zipping oClass L mMux lMux vOut) (i : ℕ) :
    size oClass i vOut ≤ (L i).length := by
  rw [size_eq, ← h.queues i, List.length_append]
  exact Nat.le_add_right _ _

theorem Zipping.length_le {iNum : ℕ} (hnone : ∀ i, iNum ≤ i → L i = []) (h : Zipping oClass L mMux lMux vOut) :
    vOut.length ≤ ∑ i ∈ Finset.range iNum, (L i).length := by
  have hclass : ∀ p ∈ vOut, oClass p < iNum := by
    intro p hp
    by_contra hge
    have hmem : p ∈ L (oClass p) := by
      rw [← h.queues (oClass p)]
      exact List.mem_append_left _ (List.mem_filter.mpr ⟨hp, by simp⟩)
    rw [hnone _ (not_lt.mp hge)] at hmem
    cases hmem
  rw [length_eq_sizes hclass]
  exact Finset.sum_le_sum fun i _ => h.size_le i

/-- With the erased keys still there, the loop comes to an end with all queues empty. -/
theorem mux_zips {iNum : ℕ} (hL : ∀ i, ∀ p ∈ L i, oClass p = i)
    (hnone : ∀ i, iNum ≤ i → L i = []) (iFuel : ℕ)
    (h : Zipping oClass L mMux lMux vOut) (hlisted : Listed mMux lMux)
    (hfuel : mMux.length+(∑ i ∈ Finset.range iNum, (L i).length-vOut.length) ≤ iFuel) :
    ∃ vOut' lMux', mux kept iFuel mMux lMux vOut = .ok vOut' ∧
      Zipping oClass L [] lMux' vOut' ∧ Listed [] lMux' := by
  induction iFuel generalizing mMux lMux vOut with
  | zero =>
    have hnil : mMux = [] := List.length_eq_zero_iff.mp (by omega)
    subst hnil
    exact ⟨vOut, lMux, by rw [mux], h, hlisted⟩
  | succ iFuel ih =>
    cases mMux with
    | nil => exact ⟨vOut, lMux, by rw [mux], h, hlisted⟩
    | cons e mMux =>
      obtain ⟨fKey, i⟩ := e
      rw [List.length_cons] at hfuel
      cases hfront : (lMux i).vBuffer with
      | nil =>
        rw [mux, hfront]
        exact ih (zipping_drop h) (listed_drop hlisted hfront) (by omega)
      | cons p rest =>
        cases rest with
        | nil =>
          have hnext := zipping_taken hL h hfront
          have hlength := hnext.length_le hnone
          rw [mux, hfront]
          rw [List.length_append, List.length_singleton] at hlength
          apply ih hnext (listed_last hlisted)
          rw [List.length_append, List.length_singleton]
          omega
        | cons q rest =>
          have hnext := zipping_again hL h hfront
          have hlength := hnext.length_le hnone
          rw [mux, hfront]
          rw [List.length_append, List.length_singleton] at hlength
          apply ih hnext (listed_again _ _ hlisted)
          rw [(insert_perm _ _ _).length_eq, List.length_append, List.length_singleton,
            List.length_cons]
          omega

/-- Nothing is left in the queues. -/
theorem Zipping.queues_eq (h : Zipping oClass L [] lMux vOut) (hlisted : Listed [] lMux) (i : ℕ) :
    queue oClass i vOut = L i := by
  rw [← h.queues i, listed_nil hlisted i, List.append_nil]

/-! ## The erased entry -/

/-- A run that reads no erased entry has met no queue of two packets. -/
theorem mux_freed_ok (iFuel : ℕ) (hlisted : Listed mMux lMux) {vOut' : List α}
    (hok : mux freed iFuel mMux lMux vOut = .ok vOut') (i : ℕ) : (lMux i).vBuffer.length ≤ 1 := by
  induction iFuel generalizing mMux lMux vOut with
  | zero =>
    cases mMux with
    | nil =>
      rw [listed_nil hlisted i]
      exact Nat.zero_le 1
    | cons e mMux =>
      rw [mux] at hok
      cases hok
  | succ iFuel ih =>
    cases mMux with
    | nil =>
      rw [listed_nil hlisted i]
      exact Nat.zero_le 1
    | cons e mMux =>
      obtain ⟨fKey, j⟩ := e
      cases hfront : (lMux j).vBuffer with
      | nil =>
        rw [mux, hfront] at hok
        exact ih (listed_drop hlisted hfront) hok
      | cons p rest =>
        cases rest with
        | nil =>
          rw [mux, hfront] at hok
          by_cases hij : i = j
          · rw [hij, hfront]
            exact le_rfl
          · rw [← setBuffer_other lMux [] hij]
            exact ih (listed_last hlisted) hok
        | cons q rest =>
          rw [mux, hfront] at hok
          cases hok

theorem mux_freed_eq (iFuel : ℕ) (h : ∀ i, (lMux i).vBuffer.length ≤ 1) :
    mux freed iFuel mMux lMux vOut = mux kept iFuel mMux lMux vOut := by
  induction iFuel generalizing mMux lMux vOut with
  | zero => cases mMux <;> rw [mux, mux]
  | succ iFuel ih =>
    cases mMux with
    | nil => rw [mux, mux]
    | cons e mMux =>
      obtain ⟨fKey, j⟩ := e
      cases hfront : (lMux j).vBuffer with
      | nil =>
        rw [mux, mux, hfront]
        exact ih h
      | cons p rest =>
        cases rest with
        | nil =>
          rw [mux, mux, hfront]
          apply ih
          intro i
          by_cases hij : i = j
          · rw [hij, setBuffer_same]
            exact Nat.zero_le 1
          · rw [setBuffer_other _ _ hij]
            exact h i
        | cons q rest =>
          have hlong := h j
          rw [hfront, List.length_cons, List.length_cons] at hlong
          omega

/-! ## zip -/

/-- The queues the loop starts with hold the classes of the buffer. -/
structure Filled (oClass : α → ℕ) (iNum : ℕ) (bRandomize : Option ℕ) (vBuffer : List α)
    (lMux : ℕ → muxx_t α) : Prop where
  perm : ∀ i, (lMux i).vBuffer.Perm (queue oClass i vBuffer)
  ordered : bRandomize = none → ∀ i, (lMux i).vBuffer = queue oClass i vBuffer
  steps : ∀ i, (lMux i).vBuffer ≠ [] → (lMux i).fStep = 1/(lMux i).vBuffer.length

theorem queue_nil {iNum : ℕ} {vBuffer : List α} (h : ∀ p ∈ vBuffer, oClass p < iNum) {i : ℕ}
    (hi : iNum ≤ i) : queue oClass i vBuffer = [] := by
  rw [queue, List.filter_eq_nil_iff]
  intro p hp hclass
  have hlt := h p hp
  rw [of_decide_eq_true hclass] at hlt
  omega

theorem filled_of_perm {iNum : ℕ} {bRandomize : Option ℕ} {vBuffer : List α}
    (h : ∀ p ∈ vBuffer, oClass p < iNum)
    (hperm : ∀ i, (lMux i).vBuffer.Perm (queue oClass i vBuffer))
    (hordered : bRandomize = none → ∀ i, (lMux i).vBuffer = queue oClass i vBuffer) :
    Filled oClass iNum bRandomize vBuffer (prepare iNum lMux) := by
  constructor
  · intro i
    rw [prepare_vBuffer]
    exact hperm i
  · intro hnone i
    rw [prepare_vBuffer]
    exact hordered hnone i
  · intro i hne
    rw [prepare_vBuffer] at hne ⊢
    apply prepare_step _ hne
    by_contra hge
    have hnil := hperm i
    rw [queue_nil h (not_lt.mp hge)] at hnil
    exact hne hnil.eq_nil

/-- What is done before the loop fills the queues. -/
theorem zip_eq {iNum : ℕ} {vBuffer : List α} (h : ∀ p ∈ vBuffer, oClass p < iNum)
    (bRandomize : Option ℕ) : ∃ lMux, Filled oClass iNum bRandomize vBuffer lMux ∧
      ∀ erased, zip erased vBuffer iNum oClass bRandomize =
        mux erased (iNum+vBuffer.length) ((List.range iNum).map fun i => ((0 : ℚ), i)) lMux [] := by
  obtain ⟨lMux, hok, hqueues⟩ := classify_queues vBuffer (fun _ => (⟨[], 0⟩ : muxx_t α)) h
  simp only [List.nil_append] at hqueues
  cases bRandomize with
  | none =>
    refine ⟨prepare iNum lMux, ?_, ?_⟩
    · apply filled_of_perm h
      · intro i
        rw [hqueues i]
      · intro _ i
        exact hqueues i
    · intro erased
      rw [zip, hok]
      rfl
  | some iState =>
    obtain ⟨lMux', hok', hperm⟩ := randomize_perm iState (List.range iNum) lMux
    refine ⟨prepare iNum lMux', ?_, ?_⟩
    · apply filled_of_perm h
      · intro i
        rw [← hqueues i]
        exact hperm i
      · intro hnone
        cases hnone
    · intro erased
      rw [zip, hok]
      show (randomize iState (List.range iNum) lMux >>= _) = _
      rw [hok']
      rfl

section filled
variable {iNum : ℕ} {bRandomize : Option ℕ} {vBuffer : List α}

theorem Filled.listed (hfilled : Filled oClass iNum bRandomize vBuffer lMux)
    (h : ∀ p ∈ vBuffer, oClass p < iNum) :
    Listed ((List.range iNum).map fun i => ((0 : ℚ), i)) lMux := by
  intro i hne
  rw [List.map_map, List.mem_map]
  refine ⟨i, ?_, rfl⟩
  rw [List.mem_range]
  by_contra hge
  have hperm := hfilled.perm i
  rw [queue_nil h (not_lt.mp hge)] at hperm
  exact hne hperm.eq_nil

theorem Filled.zipping (hfilled : Filled oClass iNum bRandomize vBuffer lMux) :
    Zipping oClass (fun i => (lMux i).vBuffer) ((List.range iNum).map fun i => ((0 : ℚ), i))
      lMux [] where
  queues := fun i => rfl
  steps := hfilled.steps
  keys := by
    intro e he
    obtain ⟨i, -, rfl⟩ := List.mem_map.mp he
    simp [time, size]
  ordered := by
    rw [List.pairwise_map]
    exact List.pairwise_of_forall fun _ _ => le_rfl
  indices := by
    rw [List.map_map]
    exact List.nodup_range.map fun _ _ h => h
  bounded := fun x hx => absurd hx List.not_mem_nil
  rising := List.Pairwise.nil

theorem Filled.length (hfilled : Filled oClass iNum bRandomize vBuffer lMux) (i : ℕ) :
    (lMux i).vBuffer.length = size oClass i vBuffer := by
  rw [(hfilled.perm i).length_eq, size_eq]

theorem zip_kept (h : ∀ p ∈ vBuffer, oClass p < iNum) (bRandomize : Option ℕ) :
    Zipped oClass bRandomize vBuffer (zip kept vBuffer iNum oClass bRandomize) := by
  obtain ⟨lMux, hfilled, hzip⟩ := zip_eq h bRandomize
  have hclass : ∀ i, ∀ p ∈ (lMux i).vBuffer, oClass p = i := by
    intro i p hp
    exact class_of_queue ((hfilled.perm i).subset hp)
  have hnone : ∀ i, iNum ≤ i → (lMux i).vBuffer = [] := by
    intro i hi
    have hperm := hfilled.perm i
    rw [queue_nil h hi] at hperm
    exact hperm.eq_nil
  have hsum : ∑ i ∈ Finset.range iNum, (lMux i).vBuffer.length = vBuffer.length := by
    rw [length_eq_sizes h]
    exact Finset.sum_congr rfl fun i _ => hfilled.length i
  obtain ⟨vOut, lMux', hok, hzipping, hlisted⟩ := mux_zips hclass hnone (iNum+vBuffer.length)
    hfilled.zipping (hfilled.listed h) (by simp [hsum])
  have hqueues := hzipping.queues_eq hlisted
  refine ⟨vOut, by rw [hzip, hok], ?_, ?_, ?_⟩
  · have hperm : ∀ i, (queue oClass i vOut).Perm (queue oClass i vBuffer) := by
      intro i
      rw [hqueues i]
      exact hfilled.perm i
    exact perm_of_queues hperm
  · intro hnorandom i
    rw [hqueues i]
    exact hfilled.ordered hnorandom i
  · apply proportional_of_rising
    have hsizes : (fun i => size oClass i vOut) = fun i => (lMux i).vBuffer.length := by
      funext i
      rw [size_eq, hqueues i]
    rw [hsizes]
    exact hzipping.rising

/-- No class has two packets. -/
def Single (oClass : α → ℕ) (vBuffer : List α) : Prop := ∀ i, size oClass i vBuffer ≤ 1

theorem zip_freed_ok (h : ∀ p ∈ vBuffer, oClass p < iNum) {vOut : List α}
    (hok : zip freed vBuffer iNum oClass bRandomize = .ok vOut) : Single oClass vBuffer := by
  obtain ⟨lMux, hfilled, hzip⟩ := zip_eq h bRandomize
  rw [hzip] at hok
  intro i
  rw [← hfilled.length i]
  exact mux_freed_ok _ (hfilled.listed h) hok i

theorem zip_freed_eq (h : ∀ p ∈ vBuffer, oClass p < iNum) (hsingle : Single oClass vBuffer)
    (bRandomize : Option ℕ) :
    zip freed vBuffer iNum oClass bRandomize = zip kept vBuffer iNum oClass bRandomize := by
  obtain ⟨lMux, hfilled, hzip⟩ := zip_eq h bRandomize
  rw [hzip, hzip]
  apply mux_freed_eq
  intro i
  rw [hfilled.length i]
  exact hsingle i

/-- The queue of a class that has more packets goes back in with a time read from the erased
entry. With the key still there, every buffer is zipped. -/
theorem zip_iff (h : ∀ p ∈ vBuffer, oClass p < iNum) (bRandomize : Option ℕ) :
    (Zipped oClass bRandomize vBuffer (zip freed vBuffer iNum oClass bRandomize) ↔
      Single oClass vBuffer) ∧
    Zipped oClass bRandomize vBuffer (zip kept vBuffer iNum oClass bRandomize) := by
  refine ⟨?_, zip_kept h bRandomize⟩
  constructor
  · rintro ⟨vOut, hok, -⟩
    exact zip_freed_ok h hok
  · intro hsingle
    rw [zip_freed_eq h hsingle]
    exact zip_kept h bRandomize

end filled

def vThree : List ℕ := [10, 20, 11]

theorem three_class (p : ℕ) (h : p ∈ vThree) : p/10 < 3 := by
  revert h p
  decide

theorem three_zip : (Zipped (·/10) (some 7) vThree (zip freed vThree 3 (·/10) (some 7)) ↔
      Single (·/10) vThree) ∧
    Zipped (·/10) (some 7) vThree (zip kept vThree 3 (·/10) (some 7)) :=
  zip_iff three_class (some 7)

theorem three_freed : ¬ ∀ vBuffer : List ℕ, (∀ p ∈ vBuffer, p/10 < 3) →
    Zipped (·/10) none vBuffer (zip freed vBuffer 3 (·/10) none) := by
  intro h
  obtain ⟨vOut, hok, -⟩ := h vThree three_class
  have herror : zip freed vThree 3 (·/10) none = .error .undefinedBehaviour := by decide +kernel
  rw [herror] at hok
  cases hok

end Sirannon.Zip
