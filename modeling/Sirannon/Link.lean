import Sirannon.Routing

/-!
# Links

A component in asks for the component out of its url at run time and has itself
routed to. What is linked is kept in three places: a dictionary of urls, the
routing of out, and a flag of in. The destructor of in goes by the dictionary.
-/

set_option autoImplicit false

namespace Sirannon.Link
open Bits Std Routing

/-- `linked` is the component its initialisation found. Components are numbered as they are
created. -/
structure InLink where
  url : String
  bUrl : Bool
  linked : Option ℕ

structure OutLink where
  url : String
  proc : MediaProcessor ℕ

structure Links where
  created : ℕ
  ins : ℕ → Option InLink
  outs : ℕ → Option OutLink
  mDict : String → Option ℕ

def Links.new : Links := ⟨0, fun _ => none, fun _ => none, fun _ => none⟩

def Links.newIn (s : Links) (url : String) : Links :=
  { s with created := s.created+1, ins := Function.update s.ins s.created (some ⟨url, false, none⟩) }

def Links.newOut (s : Links) (url : String) : Links :=
  { s with created := s.created+1, outs := Function.update s.outs s.created (some ⟨url, .new⟩) }

def OutLink.setRoute (o : OutLink) (xroute : ℤ) (proc : ℕ) : OutLink :=
  { o with proc := o.proc.setRoute xroute proc }

def OutLink.clearRoute (o : OutLink) (proc : ℕ) : OutLink :=
  { o with proc := o.proc.clearRoute proc }

def Links.setIn (s : Links) (i : ℕ) (l : InLink) : Links :=
  { s with ins := Function.update s.ins i (some l) }

def Links.setOut (s : Links) (a : ℕ) (f : OutLink → OutLink) : Links :=
  { s with outs := Function.update s.outs a ((s.outs a).map f) }

/-- `InLink::init`, with the error it raises. -/
def Links.initIn (s : Links) (i : ℕ) : Option SirannonException × Links :=
  match s.ins i with
  | none => (none, s)
  | some l =>
    if l.url = "" then (none, s.setIn i { l with bUrl := false })
    else match s.mDict l.url with
      | none => (some (runtimeError s!"No component linked with url({l.url})"),
        s.setIn i { l with bUrl := true })
      | some pOut => (none, (s.setIn i { l with bUrl := true, linked := some pOut }).setOut pOut
        (·.setRoute 0 i))

/-- `OutLink::init`. -/
def Links.initOut (s : Links) (a : ℕ) : Links :=
  match s.outs a with
  | none => s
  | some o =>
    if o.url = "" then s else { s with mDict := Function.update s.mDict o.url (some a) }

def Links.clearLink (s : Links) (i : ℕ) (l : InLink) : Links :=
  if l.bUrl then
    match s.mDict l.url with
    | none => s
    | some pOut => s.setOut pOut (·.clearRoute i)
  else s

/-- The destructor of `InLink`. -/
def Links.deleteIn (s : Links) (i : ℕ) : Links :=
  match s.ins i with
  | none => s
  | some l => { s.clearLink i l with ins := Function.update s.ins i none }

attribute [grind =] Links.deleteIn

/-- The destructor of `OutLink`. -/
def Links.deleteOut (s : Links) (a : ℕ) : Links :=
  match s.outs a with
  | none => s
  | some o => { s with
      outs := Function.update s.outs a none
      mDict := if o.url = "" then s.mDict else Function.update s.mDict o.url none }

attribute [grind =] Links.deleteOut

inductive Step
  | newIn (url : String)
  | newOut (url : String)
  | initIn (i : ℕ)
  | initOut (a : ℕ)
  | deleteIn (i : ℕ)
  | deleteOut (a : ℕ)

def Links.stepped (s : Links) : Step → Links
  | .newIn url => s.newIn url
  | .newOut url => s.newOut url
  | .initIn i => (s.initIn i).2
  | .initOut a => s.initOut a
  | .deleteIn i => s.deleteIn i
  | .deleteOut a => s.deleteOut a

/-! ## What should hold -/

def Links.Alive (s : Links) (i : ℕ) : Prop := (s.ins i).isSome ∨ (s.outs i).isSome

/-- `i` is somewhere in the routing of the live component `a`. -/
def Links.Routes (s : Links) (a i : ℕ) : Prop :=
  ∃ o, s.outs a = some o ∧ ∃ x, i ∈ o.proc.routes x

/-- No routing and no entry of the dictionary has a destroyed component, and a component whose
initialisation found one is routed to as long as that one lives. -/
structure Sound (s : Links) : Prop where
  routes : ∀ a i, s.Routes a i → s.Alive i
  entries : ∀ u a, s.mDict u = some a → s.Alive a
  linked : ∀ i l a o, s.ins i = some l → l.linked = some a → s.outs a = some o →
    i ∈ o.proc.routes 0

def SoundAll (s : Links) : List Step → Prop
  | [] => Sound s
  | a::steps => Sound s ∧ SoundAll (s.stepped a) steps

/-- A component `in` that is destroyed is routed to by none but the component its url stands for. -/
def Released (s : Links) : Step → Prop
  | .deleteIn i => ∀ l, s.ins i = some l → ∀ a, s.Routes a i → s.mDict l.url = some a
  | _ => True

def ReleasedAll (s : Links) : List Step → Prop
  | [] => True
  | a::steps => Released s a ∧ ReleasedAll (s.stepped a) steps

/-! ## What always holds -/

/-- What no step breaks. -/
structure Kept (s : Links) : Prop where
  fresh : ∀ i, s.created ≤ i → s.ins i = none ∧ s.outs i = none
  apart : ∀ i, s.ins i = none ∨ s.outs i = none
  entries : ∀ u a, s.mDict u = some a → u ≠ "" ∧ ∃ o, s.outs a = some o ∧ o.url = u
  linked : ∀ i l a o, s.ins i = some l → l.linked = some a → s.outs a = some o →
    i ∈ o.proc.routes 0
  past : ∀ i l a, s.ins i = some l → l.linked = some a → a < s.created
  known : ∀ a i, s.Routes a i → i < s.created ∧ s.outs i = none
  flagged : ∀ a i l, s.Routes a i → s.ins i = some l → l.bUrl = true ∧ l.url ≠ ""

variable {s : Links}

theorem setOut_outs (s : Links) (a b : ℕ) (f : OutLink → OutLink) :
    (s.setOut a f).outs b = if b = a then (s.outs a).map f else s.outs b := by
  by_cases h : b = a
  · rw [if_pos h, h]
    exact Function.update_self ..
  · rw [if_neg h]
    exact Function.update_of_ne h ..

theorem routes_setRoute {a b i j : ℕ} (h : (s.setOut a (·.setRoute 0 i)).Routes b j) :
    s.Routes b j ∨ b = a ∧ j = i := by
  rcases h with ⟨o, ho, x, hx⟩
  rw [setOut_outs] at ho
  by_cases hb : b = a
  · rw [if_pos hb] at ho
    rcases Option.map_eq_some_iff.mp ho with ⟨o', ho', rfl⟩
    have hj : j ∈ (o'.proc.setRoute 0 i).routes x := hx
    rw [setRoute_routes] at hj
    by_cases h0 : 0 = x
    · rw [if_pos h0, List.mem_append, List.mem_singleton] at hj
      rcases hj with hj | hj
      · exact .inl ⟨o', by rw [hb, ho'], 0, hj⟩
      · exact .inr ⟨hb, hj⟩
    · rw [if_neg h0] at hj
      exact .inl ⟨o', by rw [hb, ho'], x, hj⟩
  · rw [if_neg hb] at ho
    exact .inl ⟨o, ho, x, hx⟩

theorem setIn_ins (s : Links) (i j : ℕ) (l : InLink) :
    (s.setIn i l).ins j = if j = i then some l else s.ins j := Function.update_apply ..

theorem Kept.lt_created (h : Kept s) {i : ℕ} (hi : s.Alive i) : i < s.created := by
  by_contra hge
  rcases h.fresh i (by omega) with ⟨hin, hout⟩
  rcases hi with hi | hi
  · simp [hin] at hi
  · simp [hout] at hi

theorem kept_new : Kept Links.new := by
  constructor
  · exact fun i _ => ⟨rfl, rfl⟩
  · exact fun i => .inl rfl
  · exact fun u a hu => by cases hu
  · exact fun i l a o hi => by cases hi
  · exact fun i l a hi => by cases hi
  · exact fun a i ⟨o, ho, _⟩ => by cases ho
  · exact fun a i l _ hi => by cases hi

theorem kept_newIn (h : Kept s) (url : String) : Kept (s.newIn url) := by
  have hins (i : ℕ) : (s.newIn url).ins i =
      if i = s.created then some ⟨url, false, none⟩ else s.ins i := Function.update_apply ..
  constructor
  · intro i hi
    have hlt : s.created+1 ≤ i := hi
    rw [hins, if_neg (by omega)]
    exact h.fresh i (by omega)
  · intro i
    rw [hins]
    by_cases hi : i = s.created
    · exact .inr (h.fresh i (by omega)).2
    · rw [if_neg hi]
      exact h.apart i
  · exact h.entries
  · intro i l a o hi hl ho
    rw [hins] at hi
    split_ifs at hi with hnew
    · cases hi
      cases hl
    · exact h.linked i l a o hi hl ho
  · intro i l a hi hl
    rw [hins] at hi
    split_ifs at hi with hnew
    · cases hi
      cases hl
    · have hlt := h.past i l a hi hl
      show a < s.created+1
      omega
  · intro a i hr
    have hknown := h.known a i hr
    exact ⟨Nat.lt_succ_of_lt hknown.1, hknown.2⟩
  · intro a i l hr hi
    have hknown := h.known a i hr
    rw [hins, if_neg (by omega)] at hi
    exact h.flagged a i l hr hi

theorem newOut_outs (s : Links) (url : String) (a : ℕ) : (s.newOut url).outs a =
    if a = s.created then some ⟨url, .new⟩ else s.outs a := Function.update_apply ..

theorem newOut_routes (s : Links) (url : String) {a i : ℕ} (hr : (s.newOut url).Routes a i) :
    s.Routes a i := by
  rcases hr with ⟨o, ho, x, hx⟩
  rw [newOut_outs] at ho
  split_ifs at ho with hnew
  · cases ho
    rw [show (MediaProcessor.new : MediaProcessor ℕ).routes x = [] from
      empty_routes TreeMap.isEmpty_emptyc x] at hx
    cases hx
  · exact ⟨o, ho, x, hx⟩

theorem kept_newOut (h : Kept s) (url : String) : Kept (s.newOut url) := by
  have houts := newOut_outs s url
  constructor
  · intro i hi
    have hlt : s.created+1 ≤ i := hi
    rw [houts, if_neg (by omega)]
    exact h.fresh i (by omega)
  · intro i
    rw [houts]
    by_cases hi : i = s.created
    · exact .inl (h.fresh i (by omega)).1
    · rw [if_neg hi]
      exact h.apart i
  · intro u a hu
    rcases h.entries u a hu with ⟨hne, o, ho, hurl⟩
    have hlt := h.lt_created (i := a) (.inr (by rw [ho]; rfl))
    rw [houts, if_neg (by omega)]
    exact ⟨hne, o, ho, hurl⟩
  · intro i l a o hi hl ho
    have hlt := h.past i l a hi hl
    rw [houts, if_neg (by omega)] at ho
    exact h.linked i l a o hi hl ho
  · intro i l a hi hl
    exact Nat.lt_succ_of_lt (h.past i l a hi hl)
  · intro a i hr
    have hknown := h.known a i (newOut_routes s url hr)
    rw [houts, if_neg (by omega)]
    exact ⟨Nat.lt_succ_of_lt hknown.1, hknown.2⟩
  · intro a i l hr hi
    exact h.flagged a i l (newOut_routes s url hr) hi

theorem outs_none (h : Kept s) {i : ℕ} {l : InLink} (hi : s.ins i = some l) : s.outs i = none := by
  rcases h.apart i with hin | hout
  · rw [hi] at hin
    cases hin
  · exact hout

/-- A component `in` whose initialisation does not find another one. -/
theorem kept_setIn (h : Kept s) {i : ℕ} {l l' : InLink} (hi : s.ins i = some l)
    (hlinked : l'.linked = l.linked)
    (hflag : ∀ a, s.Routes a i → l'.bUrl = true ∧ l'.url ≠ "") : Kept (s.setIn i l') := by
  have hnone := outs_none h hi
  have hlt := h.lt_created (i := i) (.inl (by rw [hi]; rfl))
  constructor
  · intro j hj
    have hle : s.created ≤ j := hj
    rw [setIn_ins, if_neg (by omega)]
    exact h.fresh j hle
  · intro j
    rw [setIn_ins]
    by_cases hj : j = i
    · exact .inr (by rw [hj]; exact hnone)
    · rw [if_neg hj]
      exact h.apart j
  · exact h.entries
  · intro j k a o hj hl ho
    rw [setIn_ins] at hj
    split_ifs at hj with hji
    · cases hj
      rw [hji]
      exact h.linked i l a o hi (hlinked.symm.trans hl) ho
    · exact h.linked j k a o hj hl ho
  · intro j k a hj hl
    rw [setIn_ins] at hj
    split_ifs at hj with hji
    · cases hj
      exact h.past i l a hi (hlinked.symm.trans hl)
    · exact h.past j k a hj hl
  · exact h.known
  · intro a j k hr hj
    rw [setIn_ins] at hj
    split_ifs at hj with hji
    · cases hj
      rw [hji] at hr
      exact hflag a hr
    · exact h.flagged a j k hr hj

/-- The entry of `b` after another component was set or cleared in the routing of `a`. -/
theorem setOut_entry {a b : ℕ} {f : OutLink → OutLink} {o : OutLink}
    (ho : (s.setOut a f).outs b = some o) :
    ∃ o', s.outs b = some o' ∧ (b = a ∧ o = f o' ∨ b ≠ a ∧ o = o') := by
  rw [setOut_outs] at ho
  split_ifs at ho with hb
  · rcases Option.map_eq_some_iff.mp ho with ⟨o', ho', rfl⟩
    exact ⟨o', by rw [hb, ho'], .inl ⟨hb, rfl⟩⟩
  · exact ⟨o, ho, .inr ⟨hb, rfl⟩⟩

theorem setOut_none {a b : ℕ} {f : OutLink → OutLink} :
    (s.setOut a f).outs b = none ↔ s.outs b = none := by
  rw [setOut_outs]
  by_cases hb : b = a
  · rw [if_pos hb, Option.map_eq_none_iff, hb]
  · rw [if_neg hb]

theorem routes_stays {o : OutLink} {i j : ℕ} (hj : j ∈ o.proc.routes 0) :
    j ∈ (o.setRoute 0 i).proc.routes 0 := by
  show j ∈ (o.proc.setRoute 0 i).routes 0
  rw [setRoute_routes, if_pos rfl]
  exact List.mem_append_left _ hj

theorem routes_added (o : OutLink) (i : ℕ) : i ∈ (o.setRoute 0 i).proc.routes 0 := by
  show i ∈ (o.proc.setRoute 0 i).routes 0
  rw [setRoute_routes, if_pos rfl]
  simp

/-- A component `in` whose initialisation finds another one has itself routed to. -/
theorem kept_linked (h : Kept s) {i a : ℕ} {l : InLink} (hi : s.ins i = some l)
    (ha : s.Alive a) (hurl : l.url ≠ "") :
    Kept ((s.setIn i { l with bUrl := true, linked := some a }).setOut a (·.setRoute 0 i)) := by
  have hnone := outs_none h hi
  have hlt := h.lt_created (i := i) (.inl (by rw [hi]; rfl))
  have halt := h.lt_created ha
  have hins (j : ℕ) : ((s.setIn i { l with bUrl := true, linked := some a }).setOut a
      (·.setRoute 0 i)).ins j =
      if j = i then some { l with bUrl := true, linked := some a } else s.ins j :=
    setIn_ins s i j _
  constructor
  · intro j hj
    have hle : s.created ≤ j := hj
    rw [hins, if_neg (by omega), setOut_none]
    exact h.fresh j hle
  · intro j
    rw [hins, setOut_none]
    by_cases hj : j = i
    · exact .inr (by rw [hj]; exact hnone)
    · rw [if_neg hj]
      exact h.apart j
  · intro u b hu
    rcases h.entries u b hu with ⟨hne, o, ho, hou⟩
    refine ⟨hne, ?_⟩
    rw [setOut_outs]
    by_cases hb : b = a
    · exact ⟨o.setRoute 0 i, by rw [if_pos hb, ← hb]; exact congrArg _ ho, hou⟩
    · exact ⟨o, by rw [if_neg hb]; exact ho, hou⟩
  · intro j k b o hj hk ho
    rw [hins] at hj
    rcases setOut_entry ho with ⟨o', ho', ⟨hb, rfl⟩ | ⟨hb, rfl⟩⟩
    · split_ifs at hj with hji
      · rw [hji]
        exact routes_added o' i
      · exact routes_stays (h.linked j k b o' hj hk ho')
    · split_ifs at hj with hji
      · cases hj
        cases hk
        exact absurd rfl hb
      · exact h.linked j k b o hj hk ho'
  · intro j k b hj hk
    rw [hins] at hj
    split_ifs at hj with hji
    · cases hj
      cases hk
      exact halt
    · exact h.past j k b hj hk
  · intro b j hr
    rw [setOut_none]
    rcases routes_setRoute hr with hr | ⟨-, rfl⟩
    · exact h.known b j hr
    · exact ⟨hlt, hnone⟩
  · intro b j k hr hj
    rw [hins] at hj
    split_ifs at hj with hji
    · cases hj
      exact ⟨rfl, hurl⟩
    · rcases routes_setRoute hr with hr | ⟨-, rfl⟩
      · exact h.flagged b j k hr hj
      · exact absurd rfl hji

theorem kept_initIn (h : Kept s) (i : ℕ) : Kept (s.initIn i).2 := by
  unfold Links.initIn
  cases hi : s.ins i with
  | none => exact h
  | some l =>
    show Kept (if l.url = "" then _ else _ : Option SirannonException × Links).2
    by_cases hurl : l.url = ""
    · rw [if_pos hurl]
      have hkept : Kept (s.setIn i { l with bUrl := false }) :=
        kept_setIn h hi rfl fun a hr => absurd hurl (h.flagged a i l hr hi).2
      exact hkept
    · rw [if_neg hurl]
      cases hout : s.mDict l.url with
      | none =>
        have hkept : Kept (s.setIn i { l with bUrl := true }) :=
          kept_setIn h hi rfl fun a _ => ⟨rfl, hurl⟩
        exact hkept
      | some a =>
        rcases h.entries l.url a hout with ⟨-, o, ho, -⟩
        exact kept_linked h hi (.inr (by rw [ho]; rfl)) hurl

theorem kept_initOut (h : Kept s) (a : ℕ) : Kept (s.initOut a) := by
  unfold Links.initOut
  cases ho : s.outs a with
  | none => exact h
  | some o =>
    show Kept (if o.url = "" then s else _)
    by_cases hurl : o.url = ""
    · rw [if_pos hurl]
      exact h
    · rw [if_neg hurl]
      refine ⟨h.fresh, h.apart, ?_, h.linked, h.past, h.known, h.flagged⟩
      intro u b hu
      have hentry : (if u = o.url then some a else s.mDict u) = some b := by
        rw [← hu]
        exact (Function.update_apply ..).symm
      split_ifs at hentry with hu'
      · cases hentry
        exact ⟨by rw [hu']; exact hurl, o, ho, hu'.symm⟩
      · exact h.entries u b hentry

theorem deleteOut_outs {a : ℕ} {o : OutLink} (ho : s.outs a = some o) (b : ℕ) :
    (s.deleteOut a).outs b = if b = a then none else s.outs b := by
  unfold Links.deleteOut
  rw [ho]
  exact Function.update_apply ..

theorem deleteOut_same {a : ℕ} {o : OutLink} (ho : s.outs a = some o) :
    (s.deleteOut a).ins = s.ins ∧ (s.deleteOut a).created = s.created := by
  unfold Links.deleteOut
  rw [ho]
  exact ⟨rfl, rfl⟩

theorem deleteOut_routes {a b i : ℕ} {o : OutLink} (ho : s.outs a = some o)
    (hr : (s.deleteOut a).Routes b i) : s.Routes b i := by
  rcases hr with ⟨o', ho', hx⟩
  rw [deleteOut_outs ho] at ho'
  split_ifs at ho' with hb
  exact ⟨o', ho', hx⟩

theorem deleteOut_entry {a b : ℕ} {o : OutLink} {u : String} (h : Kept s) (ho : s.outs a = some o)
    (hu : (s.deleteOut a).mDict u = some b) : s.mDict u = some b ∧ u ≠ o.url := by
  unfold Links.deleteOut at hu
  rw [ho] at hu
  have hentry : (if o.url = "" then s.mDict u else if u = o.url then none else s.mDict u) =
      some b := by
    rw [← hu]
    by_cases hurl : o.url = ""
    · simp [hurl]
    · simp [hurl, Function.update_apply]
  split_ifs at hentry with hurl hsame
  · exact ⟨hentry, fun hu => (h.entries u b hentry).1 (hu.trans hurl)⟩
  · exact ⟨hentry, hsame⟩

theorem kept_deleteOut (h : Kept s) (a : ℕ) : Kept (s.deleteOut a) := by
  cases ho : s.outs a with
  | none =>
    unfold Links.deleteOut
    rw [ho]
    exact h
  | some o =>
    have houts := deleteOut_outs ho
    rcases deleteOut_same ho with ⟨hins, hcreated⟩
    constructor
    · intro i hi
      rw [hcreated] at hi
      rw [hins, houts]
      split_ifs
      · exact ⟨(h.fresh i hi).1, rfl⟩
      · exact h.fresh i hi
    · intro i
      rw [hins, houts]
      split_ifs
      · exact .inr rfl
      · exact h.apart i
    · intro u b hu
      rcases deleteOut_entry h ho hu with ⟨hentry, hne⟩
      rcases h.entries u b hentry with ⟨hu', o', ho', hou⟩
      have hb : b ≠ a := by
        rintro rfl
        rw [ho] at ho'
        cases ho'
        exact hne hou.symm
      rw [houts, if_neg hb]
      exact ⟨hu', o', ho', hou⟩
    · intro i l b o' hi hl ho'
      rw [hins] at hi
      rw [houts] at ho'
      split_ifs at ho'
      exact h.linked i l b o' hi hl ho'
    · intro i l b hi hl
      rw [hins] at hi
      rw [hcreated]
      exact h.past i l b hi hl
    · intro b i hr
      have hknown := h.known b i (deleteOut_routes ho hr)
      rw [hcreated, houts]
      split_ifs
      · exact ⟨hknown.1, rfl⟩
      · exact hknown
    · intro b i l hr hi
      rw [hins] at hi
      exact h.flagged b i l (deleteOut_routes ho hr) hi

/-- The component the destructor of `in` goes to, with the link taken out of its routing. -/
theorem deleteIn_out {i : ℕ} {l : InLink} (hi : s.ins i = some l) (b : ℕ) :
    (s.deleteIn i).outs b = if l.bUrl = true ∧ s.mDict l.url = some b then
      (s.outs b).map (·.clearRoute i) else s.outs b := by
  unfold Links.deleteIn
  rw [hi]
  show (s.clearLink i l).outs b = _
  unfold Links.clearLink
  cases l.bUrl with
  | false => simp
  | true =>
    cases s.mDict l.url with
    | none => simp
    | some a =>
      show (s.setOut a (·.clearRoute i)).outs b = _
      rw [setOut_outs]
      by_cases hb : b = a
      · simp [hb]
      · simp [hb, Ne.symm hb]

theorem clearLink_same (s : Links) (i : ℕ) (l : InLink) :
    (s.clearLink i l).ins = s.ins ∧ (s.clearLink i l).created = s.created ∧
      (s.clearLink i l).mDict = s.mDict := by
  unfold Links.clearLink
  cases l.bUrl with
  | false => exact ⟨rfl, rfl, rfl⟩
  | true => cases s.mDict l.url <;> exact ⟨rfl, rfl, rfl⟩

theorem deleteIn_same {i : ℕ} {l : InLink} (hi : s.ins i = some l) :
    (∀ j, (s.deleteIn i).ins j = if j = i then none else s.ins j) ∧
      (s.deleteIn i).created = s.created ∧ (s.deleteIn i).mDict = s.mDict := by
  have hsame := clearLink_same s i l
  unfold Links.deleteIn
  rw [hi]
  refine ⟨?_, hsame.2⟩
  intro j
  rw [← hsame.1]
  exact Function.update_apply ..

theorem clearRoute_listed {o : OutLink} {i j : ℕ} {x : ℤ} :
    j ∈ (o.clearRoute i).proc.routes x ↔ j ∈ o.proc.routes x ∧ j ≠ i := by
  show j ∈ (o.proc.clearRoute i).routes x ↔ _
  rw [clearRoute_routes, List.mem_filter]
  simp

/-- Only the link between `in` and the component of its url goes. -/
theorem deleteIn_routes {i b j : ℕ} {l : InLink} (hi : s.ins i = some l) :
    (s.deleteIn i).Routes b j ↔
      s.Routes b j ∧ ¬ (l.bUrl = true ∧ s.mDict l.url = some b ∧ j = i) := by
  unfold Links.Routes
  rw [deleteIn_out hi]
  by_cases hb : l.bUrl = true ∧ s.mDict l.url = some b
  · rw [if_pos hb]
    constructor
    · rintro ⟨o, ho, x, hx⟩
      rcases Option.map_eq_some_iff.mp ho with ⟨o', ho', rfl⟩
      rw [clearRoute_listed] at hx
      exact ⟨⟨o', ho', x, hx.1⟩, fun hall => hx.2 hall.2.2⟩
    · rintro ⟨⟨o, ho, x, hx⟩, hne⟩
      exact ⟨o.clearRoute i, by rw [ho]; rfl, x,
        clearRoute_listed.mpr ⟨hx, fun hj => hne ⟨hb.1, hb.2, hj⟩⟩⟩
  · rw [if_neg hb]
    constructor
    · intro hr
      exact ⟨hr, fun hall => hb ⟨hall.1, hall.2.1⟩⟩
    · rintro ⟨hr, -⟩
      exact hr

theorem deleteIn_entry {i b : ℕ} {l : InLink} {o : OutLink} (hi : s.ins i = some l)
    (ho : s.outs b = some o) : ∃ o', (s.deleteIn i).outs b = some o' ∧ o'.url = o.url ∧
      ∀ x j, j ≠ i → (j ∈ o'.proc.routes x ↔ j ∈ o.proc.routes x) := by
  rw [deleteIn_out hi]
  by_cases hb : l.bUrl = true ∧ s.mDict l.url = some b
  · rw [if_pos hb, ho]
    refine ⟨o.clearRoute i, rfl, rfl, ?_⟩
    intro x j hj
    rw [clearRoute_listed]
    simp [hj]
  · rw [if_neg hb, ho]
    exact ⟨o, rfl, rfl, fun x j _ => Iff.rfl⟩

theorem deleteIn_none {i b : ℕ} {l : InLink} (hi : s.ins i = some l) :
    (s.deleteIn i).outs b = none ↔ s.outs b = none := by
  rw [deleteIn_out hi]
  split_ifs
  · exact Option.map_eq_none_iff
  · exact Iff.rfl

theorem kept_deleteIn (h : Kept s) (i : ℕ) : Kept (s.deleteIn i) := by
  cases hi : s.ins i with
  | none =>
    unfold Links.deleteIn
    rw [hi]
    exact h
  | some l =>
    rcases deleteIn_same hi with ⟨hins, hcreated, hdict⟩
    constructor
    · intro j hj
      rw [hcreated] at hj
      rw [hins, deleteIn_none hi]
      split_ifs
      · exact ⟨rfl, (h.fresh j hj).2⟩
      · exact h.fresh j hj
    · intro j
      rw [hins, deleteIn_none hi]
      split_ifs
      · exact .inl rfl
      · exact h.apart j
    · intro u b hu
      rw [hdict] at hu
      rcases h.entries u b hu with ⟨hne, o, ho, hou⟩
      rcases deleteIn_entry hi ho with ⟨o', ho', hou', -⟩
      exact ⟨hne, o', ho', hou'.trans hou⟩
    · intro j k b o hj hk ho
      rw [hins] at hj
      split_ifs at hj with hji
      cases hb : s.outs b with
      | none =>
        rw [(deleteIn_none hi).mpr hb] at ho
        cases ho
      | some o₁ =>
        rcases deleteIn_entry hi hb with ⟨o', ho', -, hsame⟩
        rw [ho'] at ho
        cases ho
        exact (hsame 0 j hji).mpr (h.linked j k b o₁ hj hk hb)
    · intro j k b hj hk
      rw [hins] at hj
      split_ifs at hj
      rw [hcreated]
      exact h.past j k b hj hk
    · intro b j hr
      have hknown := h.known b j ((deleteIn_routes hi).mp hr).1
      rw [hcreated, deleteIn_none hi]
      exact hknown
    · intro b j k hr hj
      rw [hins] at hj
      split_ifs at hj
      exact h.flagged b j k ((deleteIn_routes hi).mp hr).1 hj

theorem kept_stepped (h : Kept s) (a : Step) : Kept (s.stepped a) := by
  cases a with
  | newIn url => exact kept_newIn h url
  | newOut url => exact kept_newOut h url
  | initIn i => exact kept_initIn h i
  | initOut a => exact kept_initOut h a
  | deleteIn i => exact kept_deleteIn h i
  | deleteOut a => exact kept_deleteOut h a

/-! ## When no link dangles -/

/-- What is routed to by some component is alive. -/
def Live (s : Links) : Prop := ∀ a i, s.Routes a i → s.Alive i

theorem sound_live (h : Kept s) : Sound s ↔ Live s := by
  constructor
  · intro hsound
    exact hsound.routes
  · intro hlive
    refine ⟨hlive, ?_, h.linked⟩
    intro u a hu
    rcases h.entries u a hu with ⟨-, o, ho, -⟩
    exact .inr (by rw [ho]; rfl)

theorem alive_in (h : Kept s) {a i : ℕ} (hr : s.Routes a i) (hi : s.Alive i) :
    (s.ins i).isSome := by
  rcases hi with hi | hi
  · exact hi
  · rw [(h.known a i hr).2] at hi
    cases hi

theorem live_deleteIn (h : Kept s) (hlive : Live s) (i : ℕ) :
    Live (s.deleteIn i) ↔ Released s (.deleteIn i) := by
  cases hi : s.ins i with
  | none =>
    have hsame : s.deleteIn i = s := by
      unfold Links.deleteIn
      rw [hi]
    rw [hsame]
    constructor
    · intro _ l hl
      rw [hi] at hl
      cases hl
    · intro _
      exact hlive
  | some l =>
    rcases deleteIn_same hi with ⟨hins, -, -⟩
    constructor
    · intro hafter l' hl' a hr
      rw [hi] at hl'
      cases hl'
      by_contra hother
      have hstill : (s.deleteIn i).Routes a i :=
        (deleteIn_routes hi).mpr ⟨hr, fun hall => hother hall.2.1⟩
      have halive := alive_in (kept_deleteIn h i) hstill (hafter a i hstill)
      rw [hins, if_pos rfl] at halive
      cases halive
    · intro hreleased a j hr
      rcases (deleteIn_routes hi).mp hr with ⟨hold, hne⟩
      have hji : j ≠ i := by
        rintro rfl
        exact hne ⟨(h.flagged a j l hold hi).1, hreleased l hi a hold, rfl⟩
      left
      rw [hins, if_neg hji]
      exact alive_in h hold (hlive a j hold)

theorem live_initIn (h : Kept s) (hlive : Live s) (i : ℕ) : Live (s.initIn i).2 := by
  unfold Links.initIn
  cases hi : s.ins i with
  | none => exact hlive
  | some l =>
    have halive (l' : InLink) (j : ℕ) (hj : s.Alive j) : (s.setIn i l').Alive j := by
      rcases hj with hj | hj
      · left
        rw [setIn_ins]
        split_ifs
        · rfl
        · exact hj
      · exact .inr hj
    have hset (l' : InLink) : Live (s.setIn i l') := fun a j hr => halive l' j (hlive a j hr)
    by_cases hurl : l.url = ""
    · simp only [if_pos hurl]
      exact hset _
    · simp only [if_neg hurl]
      cases hout : s.mDict l.url with
      | none => exact hset _
      | some a =>
        intro b j hr
        left
        show ((s.setIn i { l with bUrl := true, linked := some a }).ins j).isSome
        rcases routes_setRoute hr with hr | ⟨-, rfl⟩
        · rw [setIn_ins]
          split_ifs
          · rfl
          · exact alive_in h hr (hlive b j hr)
        · rw [setIn_ins, if_pos rfl]
          rfl

theorem live_stepped (h : Kept s) (hlive : Live s) (a : Step) :
    Live (s.stepped a) ↔ Released s a := by
  cases a with
  | newIn url =>
    refine iff_of_true ?_ trivial
    intro a i hr
    left
    show ((s.newIn url).ins i).isSome
    rw [show (s.newIn url).ins i = if i = s.created then some ⟨url, false, none⟩ else s.ins i from
      Function.update_apply ..]
    split_ifs
    · rfl
    · exact alive_in h hr (hlive a i hr)
  | newOut url =>
    refine iff_of_true ?_ trivial
    intro a i hr
    have hold := newOut_routes s url hr
    exact .inl (alive_in h hold (hlive a i hold))
  | initIn i => exact iff_of_true (live_initIn h hlive i) trivial
  | initOut a =>
    refine iff_of_true ?_ trivial
    have hsame : (s.initOut a).outs = s.outs ∧ (s.initOut a).ins = s.ins := by
      unfold Links.initOut
      cases s.outs a with
      | none => exact ⟨rfl, rfl⟩
      | some o =>
        show (if o.url = "" then s else _).outs = s.outs ∧ (if o.url = "" then s else _).ins = s.ins
        split_ifs <;> exact ⟨rfl, rfl⟩
    intro b i hr
    have hold : s.Routes b i := by
      unfold Links.Routes at hr ⊢
      rwa [show (s.stepped (.initOut a)).outs = s.outs from hsame.1] at hr
    left
    rw [show (s.stepped (.initOut a)).ins = s.ins from hsame.2]
    exact alive_in h hold (hlive b i hold)
  | deleteIn i => exact live_deleteIn h hlive i
  | deleteOut a =>
    refine iff_of_true ?_ trivial
    intro b i hr
    cases ho : s.outs a with
    | none =>
      have hsame : s.stepped (.deleteOut a) = s := by
        show s.deleteOut a = s
        unfold Links.deleteOut
        rw [ho]
      rw [hsame] at hr ⊢
      exact hlive b i hr
    | some o =>
      have hold := deleteOut_routes ho hr
      left
      rw [show (s.stepped (.deleteOut a)).ins = s.ins from (deleteOut_same ho).1]
      exact alive_in h hold (hlive b i hold)

theorem soundAll_released (steps : List Step) (h : Kept s) (hsound : Sound s) :
    SoundAll s steps ↔ ReleasedAll s steps := by
  induction steps generalizing s with
  | nil => exact iff_of_true hsound trivial
  | cons a steps ih =>
    have hkept := kept_stepped h a
    have hstep := live_stepped h ((sound_live h).mp hsound) a
    rw [← sound_live hkept] at hstep
    constructor
    · rintro ⟨-, hrest⟩
      have hnext : Sound (s.stepped a) := by
        cases steps with
        | nil => exact hrest
        | cons b steps => exact hrest.1
      exact ⟨hstep.mp hnext, (ih hkept hnext).mp hrest⟩
    · rintro ⟨hreleased, hrest⟩
      have hnext := hstep.mpr hreleased
      exact ⟨hsound, (ih hkept hnext).mpr hrest⟩

theorem sound_new : Sound Links.new := by
  rw [sound_live kept_new]
  rintro a i ⟨o, ho, -⟩
  cases ho

/-- Links never dangle exactly in the runs in which each component `in` is destroyed while it is
routed to by none but the component its url stands for. -/
theorem links_sound (steps : List Step) :
    SoundAll Links.new steps ↔ ReleasedAll Links.new steps :=
  soundAll_released steps kept_new sound_new

/-- A second component with the url takes it over; a second one takes it along. -/
theorem second_out_dangles :
    ¬ SoundAll Links.new [.newOut "live", .initOut 0, .newIn "live", .initIn 1, .newOut "live",
      .initOut 2, .deleteIn 1] ∧
    ¬ SoundAll Links.new [.newOut "live", .newOut "live", .initOut 0, .initOut 1, .newIn "live",
      .initIn 2, .deleteOut 0, .deleteIn 2] := by
  constructor
  · rintro ⟨-, -, -, -, -, -, -, hlast⟩
    have halive := hlast.routes 0 1 ⟨_, rfl, 0, by decide +kernel⟩
    revert halive
    rintro (h | h) <;> cases h
  · rintro ⟨-, -, -, -, -, -, -, -, hlast⟩
    have halive := hlast.routes 1 2 ⟨_, rfl, 0, by decide +kernel⟩
    revert halive
    rintro (h | h) <;> cases h

/-! ## One component for each url -/

/-- No url belongs to two live components `out`. -/
def Distinct (s : Links) : Prop := ∀ a b o o', s.outs a = some o → s.outs b = some o' →
  o.url = o'.url → o.url ≠ "" → a = b

def DistinctAll (s : Links) : List Step → Prop
  | [] => Distinct s
  | a::steps => Distinct s ∧ DistinctAll (s.stepped a) steps

/-- A component that routes to another is the one the url of both stands for. -/
def Registered (s : Links) : Prop := ∀ a i o, s.Routes a i → s.outs a = some o →
  o.url ≠ "" ∧ s.mDict o.url = some a ∧ ∀ l, s.ins i = some l → l.url = o.url

end Sirannon.Link
