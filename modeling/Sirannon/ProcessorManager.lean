import Sirannon.Bits
import Mathlib.Logic.Function.Basic
import Std.Data.TreeMap

/-!
# Processor manager

The components of a scope by name. They are created under a name, ended by
name, and taken out and deleted by the scheduling pass that finds them ended;
a component that raises an error while it is scheduled ends the pass.
-/

set_option autoImplicit false

namespace Sirannon.Manager
open Bits
open Std (TreeMap)

def syntaxError (sError : String) : SirannonException := ⟨"SyntaxError: " ++ sError⟩

/-- Components are numbered as they are created; `sName`, `bStop` and `deleted` say of each what it
is called, whether it has ended, and how often it was deleted. -/
structure ProcessorManager where
  sParent : String
  mProcessors : TreeMap String ℕ
  bStop : Bool
  bError : Bool
  created : ℕ
  sName : ℕ → String
  stopped : ℕ → Bool
  deleted : ℕ → ℕ

def ProcessorManager.new (sParent : String) : ProcessorManager where
  sParent := sParent
  mProcessors := {}
  bStop := false
  bError := false
  created := 0
  sName := fun _ => ""
  stopped := fun _ => false
  deleted := fun _ => 0

def ProcessorManager.fullName (s : ProcessorManager) (sName : String) : String :=
  s.sParent ++ "." ++ sName

/-- A new component, entered under `sName`. -/
def ProcessorManager.enter (s : ProcessorManager) (sName : String) : ProcessorManager :=
  { s with
    mProcessors := s.mProcessors.insert sName s.created
    created := s.created+1
    sName := Function.update s.sName s.created (s.fullName sName)
    stopped := Function.update s.stopped s.created false
    deleted := Function.update s.deleted s.created 0 }

/-- What the factory raises, where it does not make a component. -/
abbrev Factory := Option SirannonException

def ProcessorManager.make (s : ProcessorManager) (factory : Factory) (sName : String) :
    Except SirannonException ℕ × ProcessorManager :=
  match factory with
  | some e => (.error e, s)
  | none => (.ok s.created, s.enter sName)

def ProcessorManager.createProcessorGeneric (s : ProcessorManager) (factory : Factory)
    (sName : String) : Except SirannonException ℕ × ProcessorManager :=
  if '.' ∈ sName.toList then
    (.error (syntaxError s!"name({sName}) contains the illegal character '.'"), s)
  else if s.mProcessors.contains (s.fullName sName) then
    (.error (valueError s!"component name({sName}) not unique"), s)
  else s.make factory sName

/-- `known` are the registered types. -/
def ProcessorManager.createProcessor (s : ProcessorManager) (known : String → Bool)
    (factory : Factory) (sType sName : String) : Except SirannonException ℕ × ProcessorManager :=
  if '.' ∈ sName.toList then
    (.error (syntaxError s!"Name({sName}) contains the illegal character '.'"), s)
  else if known sType = false then
    (.error (typeError s!"Type({sType}) unkown for component({sName})"), s)
  else if s.mProcessors.contains sName then
    (.error (valueError s!"Component name({sName}) not unique"), s)
  else s.make factory sName

/-- `MediaProcessor::end`. -/
def ProcessorManager.ended (s : ProcessorManager) (i : ℕ) : ProcessorManager :=
  if i < s.created then { s with stopped := Function.update s.stopped i true } else s

def ProcessorManager.stopProcessor (s : ProcessorManager) (sIn : String) :
    ℤ × ProcessorManager :=
  match s.mProcessors[sIn]? with
  | some pProc => (0, s.ended pProc)
  | none => (-1, s)

/-- What a component does when it is scheduled: it may have components end, and raise an error. -/
structure Scheduled where
  ends : List ℕ
  raises : Option SirannonException

def ProcessorManager.delete (s : ProcessorManager) (sName : String) (i : ℕ) : ProcessorManager :=
  { s with
    mProcessors := s.mProcessors.erase sName
    deleted := Function.update s.deleted i (s.deleted i+1) }

def ProcessorManager.pass (behave : ℕ → Scheduled) : List (String × ℕ) → ProcessorManager →
    Option SirannonException × ProcessorManager
  | [], s => (none, s)
  | (sName, pProc)::rest, s =>
    if s.stopped pProc then pass behave rest (s.delete sName pProc)
    else
      let s := (behave pProc).ends.foldl ProcessorManager.ended s
      match (behave pProc).raises with
      | some e => (some e, s)
      | none => pass behave rest s

def ProcessorManager.scheduleProcessors (s : ProcessorManager) (behave : ℕ → Scheduled) :
    Bool × ProcessorManager :=
  match ProcessorManager.pass behave s.mProcessors.toList s with
  | (none, s) => (!s.bStop, s)
  | (some _, s) => (!s.bStop, { s with bError := true })

/-! ## Integrity -/

inductive Call
  | createProcessorGeneric (factory : Factory) (sName : String)
  | createProcessor (known : String → Bool) (factory : Factory) (sType sName : String)
  | stopProcessor (sIn : String)
  | scheduleProcessors (behave : ℕ → Scheduled)
  | ended (i : ℕ)

def ProcessorManager.stepped (s : ProcessorManager) : Call → ProcessorManager
  | .createProcessorGeneric factory sName => (s.createProcessorGeneric factory sName).2
  | .createProcessor known factory sType sName => (s.createProcessor known factory sType sName).2
  | .stopProcessor sIn => (s.stopProcessor sIn).2
  | .scheduleProcessors behave => (s.scheduleProcessors behave).2
  | .ended i => s.ended i

/-- A component that was created is in the map under its own name and no other, or it was found
ended, deleted once and taken out. -/
structure Integrity (s : ProcessorManager) : Prop where
  held : ∀ i < s.created, s.deleted i = 0 → ∃ n, s.sName i = s.fullName n ∧
    ∀ m : String, s.mProcessors[m]? = some i ↔ m = n
  gone : ∀ i < s.created, s.deleted i ≠ 0 →
    s.deleted i = 1 ∧ s.stopped i = true ∧ ∀ n : String, s.mProcessors[n]? ≠ some i
  known : ∀ (n : String) i, s.mProcessors[n]? = some i → i < s.created

/-- A call that would create a component under a name in use raises an error and leaves the map. -/
def Refuses (s : ProcessorManager) : Call → Prop
  | .createProcessorGeneric factory sName => sName ∈ s.mProcessors →
    (∃ e, (s.createProcessorGeneric factory sName).1 = .error e) ∧
      (s.createProcessorGeneric factory sName).2.mProcessors = s.mProcessors
  | .createProcessor known factory sType sName => sName ∈ s.mProcessors →
    (∃ e, (s.createProcessor known factory sType sName).1 = .error e) ∧
      (s.createProcessor known factory sType sName).2.mProcessors = s.mProcessors
  | _ => True

/-- A pass that goes to its end has deleted what had ended before it. -/
def Sweeps (s : ProcessorManager) : Call → Prop
  | .scheduleProcessors behave => (ProcessorManager.pass behave s.mProcessors.toList s).1 = none →
    ∀ (n : String) i, s.mProcessors[n]? = some i → s.stopped i = true →
      (s.scheduleProcessors behave).2.deleted i = 1
  | _ => True

def SoundAll (s : ProcessorManager) : List Call → Prop
  | [] => Integrity s
  | a::calls => Integrity s ∧ Refuses s a ∧ Sweeps s a ∧ SoundAll (s.stepped a) calls

/-- A component that `createProcessorGeneric` goes on to make has a name that is not in use. -/
def Unused (s : ProcessorManager) : Call → Prop
  | .createProcessorGeneric factory sName =>
    '.' ∉ sName.toList → factory = none → sName ∉ s.mProcessors
  | _ => True

def UnusedAll (s : ProcessorManager) : List Call → Prop
  | [] => True
  | a::calls => Unused s a ∧ UnusedAll (s.stepped a) calls

variable {s : ProcessorManager}

/-- Names in the map have no dot, so the full name of a component is never one of them. -/
def Dotless (s : ProcessorManager) : Prop := ∀ n ∈ s.mProcessors, '.' ∉ n.toList

theorem fullName_unused (h : Dotless s) (sName : String) :
    s.mProcessors.contains (s.fullName sName) = false := by
  by_contra hcontains
  have hmem : s.fullName sName ∈ s.mProcessors := by simpa using hcontains
  apply h _ hmem
  simp [ProcessorManager.fullName]

theorem fullName_injective {s : ProcessorManager} {m n : String}
    (h : s.fullName m = s.fullName n) : m = n := by
  have hlist := congrArg String.toList h
  simp only [ProcessorManager.fullName, String.toList_append] at hlist
  exact String.toList_injective (List.append_cancel_left hlist)

/-! ## Steps -/

theorem integrity_new (sParent : String) : Integrity (ProcessorManager.new sParent) := by
  refine ⟨?_, ?_, ?_⟩
  · intro i hi
    exact absurd hi (Nat.not_lt_zero i)
  · intro i hi
    exact absurd hi (Nat.not_lt_zero i)
  · intro n i hn
    simp [ProcessorManager.new] at hn

theorem dotless_new (sParent : String) : Dotless (ProcessorManager.new sParent) := by
  intro n hn
  simp [ProcessorManager.new] at hn

/-- Two live components have different names. -/
theorem live_names (h : Integrity s) {i j : ℕ} (hi : i < s.created) (hj : j < s.created)
    (hli : s.deleted i = 0) (hlj : s.deleted j = 0) (hname : s.sName i = s.sName j) : i = j := by
  rcases h.held i hi hli with ⟨m, hm, hmap⟩
  rcases h.held j hj hlj with ⟨n, hn, hmap'⟩
  have hmn : m = n := fullName_injective (hm.symm.trans (hname.trans hn))
  have hmi := (hmap m).mpr rfl
  rw [(hmap' m).mpr hmn] at hmi
  exact (Option.some.inj hmi).symm

theorem listed_live (h : Integrity s) {n : String} {i : ℕ} (hn : s.mProcessors[n]? = some i) :
    s.deleted i = 0 := by
  by_contra hdeleted
  exact (h.gone i (h.known n i hn) hdeleted).2.2 n hn

theorem enter_map (s : ProcessorManager) (sName m : String) :
    (s.enter sName).mProcessors[m]? = if sName = m then some s.created else s.mProcessors[m]? := by
  rw [ProcessorManager.enter, TreeMap.getElem?_insert]
  simp

theorem enter_old (s : ProcessorManager) (sName : String) {i : ℕ} (hi : i < s.created) :
    (s.enter sName).sName i = s.sName i ∧ (s.enter sName).stopped i = s.stopped i ∧
      (s.enter sName).deleted i = s.deleted i := by
  have hne : i ≠ s.created := by omega
  exact ⟨Function.update_of_ne hne .., Function.update_of_ne hne .., Function.update_of_ne hne ..⟩

theorem integrity_enter (h : Integrity s) {sName : String} (hunused : sName ∉ s.mProcessors) :
    Integrity (s.enter sName) := by
  have hnone : s.mProcessors[sName]? = none := TreeMap.getElem?_eq_none hunused
  constructor
  · intro i hi hlive
    by_cases hnew : i = s.created
    · subst hnew
      refine ⟨sName, Function.update_self .., ?_⟩
      intro m
      rw [enter_map]
      by_cases hm : sName = m
      · rw [if_pos hm]
        simp [hm]
      · rw [if_neg hm]
        constructor
        · intro hold
          exact absurd (h.known m _ hold) (Nat.lt_irrefl _)
        · intro heq
          exact absurd heq.symm hm
    · have hlt : i < s.created := by
        have hi' : i < s.created+1 := hi
        omega
      rcases enter_old s sName hlt with ⟨hname, -, hdeleted⟩
      rw [hdeleted] at hlive
      rcases h.held i hlt hlive with ⟨n, hn, hmap⟩
      refine ⟨n, hname.trans hn, ?_⟩
      intro m
      rw [enter_map, ← hmap m]
      by_cases hm : sName = m
      · rw [if_pos hm, ← hm, hnone]
        simp [Ne.symm hnew]
      · rw [if_neg hm]
  · intro i hi hdeleted
    by_cases hnew : i = s.created
    · subst hnew
      exact absurd (Function.update_self ..) hdeleted
    · have hlt : i < s.created := by
        have hi' : i < s.created+1 := hi
        omega
      rcases enter_old s sName hlt with ⟨-, hstopped, hsame⟩
      rw [hsame] at hdeleted ⊢
      rw [hstopped]
      rcases h.gone i hlt hdeleted with ⟨hone, hended, hout⟩
      refine ⟨hone, hended, ?_⟩
      intro n
      rw [enter_map]
      split_ifs
      · simp [Ne.symm hnew]
      · exact hout n
  · intro n i hn
    rw [enter_map] at hn
    split_ifs at hn with hm
    · cases hn
      exact Nat.lt_succ_self _
    · exact Nat.lt_succ_of_lt (h.known n i hn)

theorem dotless_enter (h : Dotless s) {sName : String} (hdot : '.' ∉ sName.toList) :
    Dotless (s.enter sName) := by
  intro n hn
  rw [ProcessorManager.enter, TreeMap.mem_insert] at hn
  rcases hn with hn | hn
  · simp at hn
    rwa [← hn]
  · exact h n hn

theorem integrity_ended (h : Integrity s) (i : ℕ) : Integrity (s.ended i) := by
  unfold ProcessorManager.ended
  by_cases hi : i < s.created
  · rw [if_pos hi]
    refine ⟨h.held, ?_, h.known⟩
    intro j hj hdeleted
    rcases h.gone j hj hdeleted with ⟨hone, hended, hout⟩
    refine ⟨hone, ?_, hout⟩
    show Function.update s.stopped i true j = true
    by_cases hji : j = i
    · rw [hji, Function.update_self]
    · rw [Function.update_of_ne hji]
      exact hended
  · rw [if_neg hi]
    exact h

theorem ended_same (s : ProcessorManager) (i : ℕ) : (s.ended i).mProcessors = s.mProcessors ∧
    (s.ended i).deleted = s.deleted ∧ ∀ j, s.stopped j = true → (s.ended i).stopped j = true := by
  unfold ProcessorManager.ended
  by_cases hi : i < s.created
  · rw [if_pos hi]
    refine ⟨rfl, rfl, ?_⟩
    intro j hj
    show Function.update s.stopped i true j = true
    by_cases hji : j = i
    · rw [hji, Function.update_self]
    · rw [Function.update_of_ne hji]
      exact hj
  · rw [if_neg hi]
    exact ⟨rfl, rfl, fun j hj => hj⟩

theorem integrity_endAll (ends : List ℕ) (h : Integrity s) :
    Integrity (ends.foldl ProcessorManager.ended s) := by
  induction ends generalizing s with
  | nil => exact h
  | cons i ends ih => exact ih (integrity_ended h i)

theorem endAll_same (ends : List ℕ) (s : ProcessorManager) :
    (ends.foldl ProcessorManager.ended s).mProcessors = s.mProcessors ∧
    (ends.foldl ProcessorManager.ended s).deleted = s.deleted ∧
    ∀ j, s.stopped j = true → (ends.foldl ProcessorManager.ended s).stopped j = true := by
  induction ends generalizing s with
  | nil => exact ⟨rfl, rfl, fun j hj => hj⟩
  | cons i ends ih =>
    have hone := ended_same s i
    have hrest := ih (s.ended i)
    exact ⟨hrest.1.trans hone.1, hrest.2.1.trans hone.2.1,
      fun j hj => hrest.2.2 j (hone.2.2 j hj)⟩

theorem delete_map (s : ProcessorManager) (n m : String) (i : ℕ) :
    (s.delete n i).mProcessors[m]? = if n = m then none else s.mProcessors[m]? := by
  rw [ProcessorManager.delete, TreeMap.getElem?_erase]
  simp

theorem integrity_delete (h : Integrity s) {n : String} {i : ℕ} (hn : s.mProcessors[n]? = some i)
    (hended : s.stopped i = true) : Integrity (s.delete n i) := by
  have hlive := listed_live h hn
  have hlt := h.known n i hn
  have hdeleted (j : ℕ) : (s.delete n i).deleted j = if j = i then s.deleted i+1 else s.deleted j :=
    Function.update_apply ..
  constructor
  · intro j hj hzero
    rw [hdeleted] at hzero
    split_ifs at hzero with hji
    rcases h.held j hj hzero with ⟨n', hname, hmap⟩
    refine ⟨n', hname, ?_⟩
    intro m
    rw [delete_map, ← hmap m]
    by_cases hm : n = m
    · rw [if_pos hm, ← hm, hn]
      simp [Ne.symm hji]
    · rw [if_neg hm]
  · intro j hj hnonzero
    rw [hdeleted] at hnonzero ⊢
    by_cases hji : j = i
    · subst hji
      rw [if_pos rfl, hlive]
      refine ⟨rfl, hended, ?_⟩
      intro m
      rw [delete_map]
      rcases h.held j hj hlive with ⟨n', -, hmap⟩
      have hn' := (hmap n).mp hn
      split_ifs with hm
      · simp
      · intro hm'
        exact hm (hn'.trans ((hmap m).mp hm').symm)
    · rw [if_neg hji] at hnonzero ⊢
      rcases h.gone j hj hnonzero with ⟨hone, hended', hout⟩
      refine ⟨hone, hended', ?_⟩
      intro m
      rw [delete_map]
      split_ifs
      · simp
      · exact hout m
  · intro m j hm
    rw [delete_map] at hm
    split_ifs at hm
    exact h.known m j hm

/-! ## A scheduling pass -/

/-- The entries still to be visited: they are in the map, each under a name of its own. -/
structure Pending (s : ProcessorManager) (entries : List (String × ℕ)) : Prop where
  listed : ∀ e ∈ entries, s.mProcessors[e.1]? = some e.2
  distinct : entries.Pairwise fun a b => a.1 ≠ b.1

theorem pending_all (s : ProcessorManager) : Pending s s.mProcessors.toList := by
  constructor
  · intro e he
    exact TreeMap.mem_toList_iff_getElem?_eq_some.mp he
  · exact TreeMap.distinct_keys_toList.imp fun h heq => h (by simp [heq])

theorem pending_deleted {n : String} {i : ℕ} {rest : List (String × ℕ)}
    (h : Pending s ((n, i)::rest)) : Pending (s.delete n i) rest := by
  rcases List.pairwise_cons.mp h.distinct with ⟨hn, hrest⟩
  refine ⟨?_, hrest⟩
  intro e he
  rw [delete_map, if_neg (hn e he)]
  exact h.listed e (List.mem_cons_of_mem _ he)

theorem pending_ends {n : String} {i : ℕ} {rest : List (String × ℕ)}
    (h : Pending s ((n, i)::rest)) (ends : List ℕ) :
    Pending (ends.foldl ProcessorManager.ended s) rest := by
  refine ⟨?_, (List.pairwise_cons.mp h.distinct).2⟩
  intro e he
  rw [(endAll_same ends s).1]
  exact h.listed e (List.mem_cons_of_mem _ he)

theorem pass_entry (behave : ℕ → Scheduled) (n : String) (i : ℕ) (rest : List (String × ℕ))
    (s : ProcessorManager) : ProcessorManager.pass behave ((n, i)::rest) s =
      if s.stopped i then ProcessorManager.pass behave rest (s.delete n i)
      else match (behave i).raises with
        | some e => (some e, (behave i).ends.foldl ProcessorManager.ended s)
        | none => ProcessorManager.pass behave rest
          ((behave i).ends.foldl ProcessorManager.ended s) := rfl

theorem delete_deleted (s : ProcessorManager) (n : String) (i j : ℕ) :
    (s.delete n i).deleted j = if j = i then s.deleted i+1 else s.deleted j :=
  Function.update_apply ..

/-- Deleted components stay deleted. -/
theorem pass_deleted (behave : ℕ → Scheduled) (entries : List (String × ℕ))
    (s : ProcessorManager) (j : ℕ) :
    s.deleted j ≤ (ProcessorManager.pass behave entries s).2.deleted j := by
  induction entries generalizing s with
  | nil => exact le_refl _
  | cons e rest ih =>
    obtain ⟨n, i⟩ := e
    rw [pass_entry]
    by_cases hended : s.stopped i = true
    · rw [if_pos hended]
      apply le_trans _ (ih (s.delete n i))
      rw [delete_deleted]
      split_ifs with hj
      · rw [hj]
        exact Nat.le_succ _
      · exact le_refl _
    · rw [if_neg hended]
      have hsame := (endAll_same (behave i).ends s).2.1
      cases (behave i).raises with
      | some e =>
        show s.deleted j ≤ ((behave i).ends.foldl ProcessorManager.ended s).deleted j
        rw [hsame]
      | none =>
        have hrest := ih ((behave i).ends.foldl ProcessorManager.ended s)
        rw [hsame] at hrest
        exact hrest

theorem pass_integrity (behave : ℕ → Scheduled) (entries : List (String × ℕ))
    {s : ProcessorManager} (h : Integrity s) (hp : Pending s entries) :
    Integrity (ProcessorManager.pass behave entries s).2 := by
  induction entries generalizing s with
  | nil => exact h
  | cons e rest ih =>
    obtain ⟨n, i⟩ := e
    rw [pass_entry]
    by_cases hended : s.stopped i = true
    · rw [if_pos hended]
      exact ih (integrity_delete h (hp.listed (n, i) (List.mem_cons_self ..)) hended)
        (pending_deleted hp)
    · rw [if_neg hended]
      have hends := integrity_endAll (behave i).ends h
      cases (behave i).raises with
      | some e => exact hends
      | none => exact ih hends (pending_ends hp (behave i).ends)

/-- A pass that goes to its end deletes every entry that had ended. -/
theorem pass_sweeps (behave : ℕ → Scheduled) (entries : List (String × ℕ))
    {s : ProcessorManager} (hdone : (ProcessorManager.pass behave entries s).1 = none) :
    ∀ e ∈ entries, s.stopped e.2 = true →
      0 < (ProcessorManager.pass behave entries s).2.deleted e.2 := by
  induction entries generalizing s with
  | nil =>
    intro e he
    cases he
  | cons e rest ih =>
    obtain ⟨n, i⟩ := e
    intro e he hended
    rw [pass_entry] at hdone ⊢
    by_cases hi : s.stopped i = true
    · rw [if_pos hi] at hdone ⊢
      rcases List.mem_cons.mp he with rfl | he
      · have hdeleted : 0 < (s.delete n i).deleted i := by
          rw [delete_deleted, if_pos rfl]
          exact Nat.succ_pos _
        exact lt_of_lt_of_le hdeleted (pass_deleted behave rest (s.delete n i) i)
      · exact ih hdone e he hended
    · rw [if_neg hi] at hdone ⊢
      rcases List.mem_cons.mp he with rfl | he
      · exact absurd hended hi
      · cases hraises : (behave i).raises with
        | some e =>
          rw [hraises] at hdone
          cases hdone
        | none =>
          rw [hraises] at hdone
          exact ih hdone e he ((endAll_same (behave i).ends s).2.2 e.2 hended)

theorem ended_created (s : ProcessorManager) (i : ℕ) : (s.ended i).created = s.created := by
  unfold ProcessorManager.ended
  split_ifs <;> rfl

theorem endAll_created (ends : List ℕ) (s : ProcessorManager) :
    (ends.foldl ProcessorManager.ended s).created = s.created := by
  induction ends generalizing s with
  | nil => rfl
  | cons i ends ih => exact (ih (s.ended i)).trans (ended_created s i)

theorem pass_created (behave : ℕ → Scheduled) (entries : List (String × ℕ))
    (s : ProcessorManager) :
    (ProcessorManager.pass behave entries s).2.created = s.created := by
  induction entries generalizing s with
  | nil => rfl
  | cons e rest ih =>
    obtain ⟨n, i⟩ := e
    rw [pass_entry]
    by_cases hended : s.stopped i = true
    · rw [if_pos hended]
      exact ih (s.delete n i)
    · rw [if_neg hended]
      have hends := endAll_created (behave i).ends s
      cases (behave i).raises with
      | some e => exact hends
      | none => exact (ih _).trans hends

/-- Nothing is entered in a pass. -/
theorem pass_listed (behave : ℕ → Scheduled) (entries : List (String × ℕ)) (s : ProcessorManager)
    {n : String} {i : ℕ}
    (h : (ProcessorManager.pass behave entries s).2.mProcessors[n]? = some i) :
    s.mProcessors[n]? = some i := by
  induction entries generalizing s with
  | nil => exact h
  | cons e rest ih =>
    obtain ⟨m, j⟩ := e
    rw [pass_entry] at h
    by_cases hended : s.stopped j = true
    · rw [if_pos hended] at h
      have hdelete := ih (s.delete m j) h
      rw [delete_map] at hdelete
      split_ifs at hdelete
      exact hdelete
    · rw [if_neg hended] at h
      rw [← (endAll_same (behave j).ends s).1]
      cases hraises : (behave j).raises with
      | some e =>
        rw [hraises] at h
        exact h
      | none =>
        rw [hraises] at h
        exact ih _ h

/-- What has ended stays ended. -/
theorem pass_stopped (behave : ℕ → Scheduled) (entries : List (String × ℕ)) (s : ProcessorManager)
    {i : ℕ} (h : s.stopped i = true) :
    (ProcessorManager.pass behave entries s).2.stopped i = true := by
  induction entries generalizing s with
  | nil => exact h
  | cons e rest ih =>
    obtain ⟨m, j⟩ := e
    rw [pass_entry]
    by_cases hended : s.stopped j = true
    · rw [if_pos hended]
      exact ih (s.delete m j) h
    · rw [if_neg hended]
      have hends := (endAll_same (behave j).ends s).2.2 i h
      cases (behave j).raises with
      | some e => exact hends
      | none => exact ih _ hends

theorem pass_names (behave : ℕ → Scheduled) (entries : List (String × ℕ)) (s : ProcessorManager)
    {n : String} (h : n ∈ (ProcessorManager.pass behave entries s).2.mProcessors) :
    n ∈ s.mProcessors := by
  have hlisted := pass_listed behave entries s (TreeMap.getElem?_eq_some_getElem h)
  by_contra hout
  rw [TreeMap.getElem?_eq_none hout] at hlisted
  cases hlisted

theorem scheduled_pass (s : ProcessorManager) (behave : ℕ → Scheduled) :
    (s.scheduleProcessors behave).2 = (ProcessorManager.pass behave s.mProcessors.toList s).2 ∨
    (s.scheduleProcessors behave).2 =
      { (ProcessorManager.pass behave s.mProcessors.toList s).2 with bError := true } := by
  unfold ProcessorManager.scheduleProcessors
  rcases ProcessorManager.pass behave s.mProcessors.toList s with ⟨_ | e, t⟩
  · exact .inl rfl
  · exact .inr rfl

theorem integrity_scheduled (h : Integrity s) (behave : ℕ → Scheduled) :
    Integrity (s.scheduleProcessors behave).2 := by
  have hpass := pass_integrity behave s.mProcessors.toList h (pending_all s)
  rcases scheduled_pass s behave with hsame | hsame
  · rw [hsame]
    exact hpass
  · rw [hsame]
    exact ⟨hpass.held, hpass.gone, hpass.known⟩

theorem sweeps_scheduled (h : Integrity s) (behave : ℕ → Scheduled) :
    Sweeps s (.scheduleProcessors behave) := by
  intro hdone n i hn hended
  have hmem : (n, i) ∈ s.mProcessors.toList := TreeMap.mem_toList_iff_getElem?_eq_some.mpr hn
  have hpass := pass_integrity behave s.mProcessors.toList h (pending_all s)
  have hswept : 0 < (ProcessorManager.pass behave s.mProcessors.toList s).2.deleted i :=
    pass_sweeps behave _ hdone (n, i) hmem hended
  have hcreated : i < (ProcessorManager.pass behave s.mProcessors.toList s).2.created := by
    rw [pass_created]
    exact h.known n i hn
  have hone := (hpass.gone i hcreated (by omega)).1
  rcases scheduled_pass s behave with hsame | hsame
  · rw [hsame]
    exact hone
  · rw [hsame]
    exact hone

/-! ## Whole runs -/

theorem generic_entered (h : Dotless s) {factory : Factory} {sName : String}
    (hdot : '.' ∉ sName.toList) :
    s.createProcessorGeneric factory sName = s.make factory sName := by
  unfold ProcessorManager.createProcessorGeneric
  rw [if_neg hdot, fullName_unused h]
  rfl

theorem generic_illegal {factory : Factory} {sName : String} (hdot : '.' ∈ sName.toList) :
    s.createProcessorGeneric factory sName =
      (.error (syntaxError s!"name({sName}) contains the illegal character '.'"), s) := by
  unfold ProcessorManager.createProcessorGeneric
  rw [if_pos hdot]

/-- What `createProcessor` comes to: an error that leaves everything, or a new name. -/
theorem create_cases (s : ProcessorManager) (known : String → Bool) (factory : Factory)
    (sType sName : String) :
    (∃ e, s.createProcessor known factory sType sName = (.error e, s)) ∨
      '.' ∉ sName.toList ∧ sName ∉ s.mProcessors ∧
        s.createProcessor known factory sType sName = (.ok s.created, s.enter sName) := by
  unfold ProcessorManager.createProcessor
  by_cases hdot : '.' ∈ sName.toList
  · rw [if_pos hdot]
    exact .inl ⟨_, rfl⟩
  rw [if_neg hdot]
  by_cases hknown : known sType = false
  · rw [if_pos hknown]
    exact .inl ⟨_, rfl⟩
  rw [if_neg hknown]
  by_cases hused : s.mProcessors.contains sName = true
  · rw [if_pos hused]
    exact .inl ⟨_, rfl⟩
  rw [if_neg hused]
  cases factory with
  | some e => exact .inl ⟨e, rfl⟩
  | none => exact .inr ⟨hdot, by simpa using hused, rfl⟩

theorem create_unused {known : String → Bool} {sType sName : String}
    (hdot : '.' ∉ sName.toList) (hknown : known sType = true) (hunused : sName ∉ s.mProcessors) :
    s.createProcessor known none sType sName = (.ok s.created, s.enter sName) := by
  unfold ProcessorManager.createProcessor
  rw [if_neg hdot, if_neg (by simp [hknown]), if_neg (by simpa using hunused)]
  rfl

theorem stop_cases (s : ProcessorManager) (sIn : String) :
    (s.stopProcessor sIn).2 = s ∨ ∃ i, (s.stopProcessor sIn).2 = s.ended i := by
  unfold ProcessorManager.stopProcessor
  cases s.mProcessors[sIn]? with
  | none => exact .inl rfl
  | some pProc => exact .inr ⟨pProc, rfl⟩

theorem dotless_stepped (h : Dotless s) (a : Call) : Dotless (s.stepped a) := by
  cases a with
  | createProcessorGeneric factory sName =>
    show Dotless (s.createProcessorGeneric factory sName).2
    by_cases hdot : '.' ∈ sName.toList
    · rw [generic_illegal hdot]
      exact h
    · rw [generic_entered h hdot]
      cases factory with
      | some e => exact h
      | none => exact dotless_enter h hdot
  | createProcessor known factory sType sName =>
    show Dotless (s.createProcessor known factory sType sName).2
    rcases create_cases s known factory sType sName with ⟨e, herror⟩ | ⟨hdot, -, hentered⟩
    · rw [herror]
      exact h
    · rw [hentered]
      exact dotless_enter h hdot
  | stopProcessor sIn =>
    show Dotless (s.stopProcessor sIn).2
    rcases stop_cases s sIn with hsame | ⟨i, hended⟩
    · rw [hsame]
      exact h
    · rw [hended, Dotless, (ended_same s i).1]
      exact h
  | scheduleProcessors behave =>
    intro n hn
    apply h
    apply pass_names behave s.mProcessors.toList s
    rcases scheduled_pass s behave with hsame | hsame
    · rwa [ProcessorManager.stepped, hsame] at hn
    · rwa [ProcessorManager.stepped, hsame] at hn
  | ended i =>
    show Dotless (s.ended i)
    rw [Dotless, (ended_same s i).1]
    exact h

theorem integrity_stepped (hdotless : Dotless s) (h : Integrity s) {a : Call}
    (hunused : Unused s a) : Integrity (s.stepped a) := by
  cases a with
  | createProcessorGeneric factory sName =>
    show Integrity (s.createProcessorGeneric factory sName).2
    by_cases hdot : '.' ∈ sName.toList
    · rw [generic_illegal hdot]
      exact h
    · rw [generic_entered hdotless hdot]
      cases factory with
      | some e => exact h
      | none => exact integrity_enter h (hunused hdot rfl)
  | createProcessor known factory sType sName =>
    show Integrity (s.createProcessor known factory sType sName).2
    rcases create_cases s known factory sType sName with ⟨e, herror⟩ | ⟨-, hnew, hentered⟩
    · rw [herror]
      exact h
    · rw [hentered]
      exact integrity_enter h hnew
  | stopProcessor sIn =>
    show Integrity (s.stopProcessor sIn).2
    rcases stop_cases s sIn with hsame | ⟨i, hended⟩
    · rw [hsame]
      exact h
    · rw [hended]
      exact integrity_ended h i
  | scheduleProcessors behave => exact integrity_scheduled h behave
  | ended i => exact integrity_ended h i

/-- A call refuses a name in use exactly when it does not go on to make a component under it. -/
theorem refuses_unused (hdotless : Dotless s) (a : Call) : Refuses s a ↔ Unused s a := by
  cases a with
  | createProcessorGeneric factory sName =>
    constructor
    · intro hrefuses hdot hmade hused
      rcases (hrefuses hused).1 with ⟨e, he⟩
      rw [generic_entered hdotless hdot, hmade] at he
      cases he
    · intro hunused hused
      by_cases hdot : '.' ∈ sName.toList
      · rw [generic_illegal hdot]
        exact ⟨⟨_, rfl⟩, rfl⟩
      · rw [generic_entered hdotless hdot]
        cases hfactory : factory with
        | some e => exact ⟨⟨e, rfl⟩, rfl⟩
        | none => exact absurd hused (hunused hdot hfactory)
  | createProcessor known factory sType sName =>
    refine iff_of_true ?_ trivial
    intro hused
    rcases create_cases s known factory sType sName with ⟨e, herror⟩ | ⟨-, hnew, -⟩
    · rw [herror]
      exact ⟨⟨e, rfl⟩, rfl⟩
    · exact absurd hused hnew
  | stopProcessor sIn => exact Iff.rfl
  | scheduleProcessors behave => exact Iff.rfl
  | ended i => exact Iff.rfl

theorem sweeps_stepped (h : Integrity s) (a : Call) : Sweeps s a := by
  cases a with
  | scheduleProcessors behave => exact sweeps_scheduled h behave
  | _ => trivial

theorem soundAll_unused (calls : List Call) (hdotless : Dotless s) (h : Integrity s) :
    SoundAll s calls ↔ UnusedAll s calls := by
  induction calls generalizing s with
  | nil => exact iff_of_true h trivial
  | cons a calls ih =>
    have hstep := refuses_unused hdotless a
    constructor
    · rintro ⟨-, hrefuses, -, hrest⟩
      have hunused := hstep.mp hrefuses
      exact ⟨hunused, (ih (dotless_stepped hdotless a)
        (integrity_stepped hdotless h hunused)).mp hrest⟩
    · rintro ⟨hunused, hrest⟩
      exact ⟨h, hstep.mpr hunused, sweeps_stepped h a, (ih (dotless_stepped hdotless a)
        (integrity_stepped hdotless h hunused)).mpr hrest⟩

/-- The registry of a manager is sound exactly in the runs in which `createProcessorGeneric` makes
no component under a name in use. -/
theorem registry_sound (sParent : String) (calls : List Call) :
    SoundAll (ProcessorManager.new sParent) calls ↔ UnusedAll (ProcessorManager.new sParent) calls :=
  soundAll_unused calls (dotless_new sParent) (integrity_new sParent)

/-- A second component under one name takes the entry of the first. -/
theorem generic_overwrites : ¬ SoundAll (ProcessorManager.new "core")
    [.createProcessorGeneric none "reader", .createProcessorGeneric none "reader"] := by
  rintro ⟨-, -, -, -, hrefuses, -⟩
  rcases (hrefuses (by decide +kernel)).1 with ⟨e, he⟩
  have hok : ((((ProcessorManager.new "core").stepped
      (.createProcessorGeneric none "reader")).createProcessorGeneric none "reader").1.toOption) =
      some 1 := by decide +kernel
  rw [he] at hok
  cases hok

end Sirannon.Manager
