import Mathlib.Tactic

/-!
# Computations with state and errors

A computation either returns a value or stops with an error, and in both
cases leaves a state behind. A triple bounds both exits of a computation; the
rules below follow the shape of a program, one for each way to build it.
-/

set_option autoImplicit false

namespace StateError

variable {ε σ α β : Type}

/-- From a state in `P`, returning lands in `Q` and stopping lands in `E`. -/
structure Triple (P : σ → Prop) (x : EStateM ε σ α) (Q : α → σ → Prop) (E : ε → σ → Prop) :
    Prop where
  exits : ∀ s, P s → match x.run s with
    | .ok a s' => Q a s'
    | .error e s' => E e s'

theorem triple_pure {P : σ → Prop} {Q : α → σ → Prop} {E : ε → σ → Prop} (a : α)
    (h : ∀ s, P s → Q a s) : Triple P (pure a) Q E := ⟨h⟩

theorem triple_throw {P : σ → Prop} {Q : α → σ → Prop} {E : ε → σ → Prop} (e : ε)
    (h : ∀ s, P s → E e s) : Triple P (throw e) Q E := ⟨h⟩

theorem triple_modify {P : σ → Prop} {Q : Unit → σ → Prop} {E : ε → σ → Prop}
    (f : σ → σ) (h : ∀ s, P s → Q () (f s)) : Triple P (modify f) Q E := ⟨h⟩

theorem triple_bind {P : σ → Prop} {R : α → σ → Prop} {Q : β → σ → Prop} {E : ε → σ → Prop}
    {x : EStateM ε σ α} {f : α → EStateM ε σ β} (hx : Triple P x R E)
    (hf : ∀ a, Triple (R a) (f a) Q E) : Triple P (x >>= f) Q E := by
  constructor
  intro s hs
  have hr := hx.exits s hs
  simp only [EStateM.run, bind, EStateM.bind] at hr ⊢
  cases hxs : x s with
  | ok a s' =>
    rw [hxs] at hr
    exact (hf a).exits s' hr
  | error e s' =>
    rw [hxs] at hr
    exact hr

theorem triple_get_bind {P : σ → Prop} {Q : β → σ → Prop} {E : ε → σ → Prop}
    {f : σ → EStateM ε σ β} (h : ∀ t, P t → Triple (· = t) (f t) Q E) :
    Triple P (get >>= f) Q E := ⟨fun s hs => (h s hs).exits s rfl⟩

theorem triple_modify_bind {P R : σ → Prop} {Q : β → σ → Prop} {E : ε → σ → Prop}
    {g : σ → σ} {f : Unit → EStateM ε σ β} (hg : ∀ s, P s → R (g s))
    (hf : Triple R (f ()) Q E) : Triple P (modify g >>= f) Q E :=
  triple_bind (triple_modify g hg) fun _ => hf

theorem triple_ofExcept_bind {P : σ → Prop} {Q : β → σ → Prop} {E : ε → σ → Prop}
    {x : Except ε α} {f : α → EStateM ε σ β} (herror : ∀ e, x = .error e → ∀ s, P s → E e s)
    (hok : ∀ a, x = .ok a → Triple P (f a) Q E) :
    Triple P ((ofExcept x : EStateM ε σ α) >>= f) Q E := by
  cases hx : x with
  | error e => exact ⟨fun s hs => herror e hx s hs⟩
  | ok a => exact ⟨fun s hs => (hok a hx).exits s hs⟩

theorem triple_ite {P : σ → Prop} {Q : α → σ → Prop} {E : ε → σ → Prop} {c : Prop} [Decidable c]
    {x y : EStateM ε σ α} (ht : c → Triple P x Q E) (hf : ¬ c → Triple P y Q E) :
    Triple P (if c then x else y) Q E := by
  by_cases h : c
  · rw [if_pos h]
    exact ht h
  · rw [if_neg h]
    exact hf h

theorem triple_conseq {P P' : σ → Prop} {Q Q' : α → σ → Prop} {E E' : ε → σ → Prop}
    {x : EStateM ε σ α} (h : Triple P x Q E) (hP : ∀ s, P' s → P s)
    (hQ : ∀ a s, Q a s → Q' a s) (hE : ∀ e s, E e s → E' e s) : Triple P' x Q' E' := by
  constructor
  intro s hs
  have hr := h.exits s (hP s hs)
  cases hxs : x.run s with
  | ok a s' =>
    rw [hxs] at hr
    exact hQ a s' hr
  | error e s' =>
    rw [hxs] at hr
    exact hE e s' hr

/-- A fact about the start state is available throughout the computation. -/
theorem triple_of_state {P : σ → Prop} {Q : α → σ → Prop} {E : ε → σ → Prop}
    {x : EStateM ε σ α} (h : ∀ s, P s → Triple (· = s) x Q E) : Triple P x Q E :=
  ⟨fun s hs => (h s hs).exits s rfl⟩

theorem triple_at {P : σ → Prop} {Q : α → σ → Prop} {E : ε → σ → Prop} {x : EStateM ε σ α}
    (h : Triple P x Q E) {s : σ} (hs : P s) : Triple (· = s) x Q E :=
  triple_conseq h (fun _ ht => ht ▸ hs) (fun _ _ hq => hq) fun _ _ he => he

theorem triple_ok {P : σ → Prop} {Q : α → σ → Prop} {E : ε → σ → Prop} {x : EStateM ε σ α}
    (h : Triple P x Q E) {s s' : σ} {a : α} (hs : P s) (hx : x.run s = .ok a s') : Q a s' := by
  have hr := h.exits s hs
  rw [hx] at hr
  exact hr

theorem triple_error {P : σ → Prop} {Q : α → σ → Prop} {E : ε → σ → Prop} {x : EStateM ε σ α}
    (h : Triple P x Q E) {s s' : σ} {e : ε} (hs : P s) (hx : x.run s = .error e s') : E e s' := by
  have hr := h.exits s hs
  rw [hx] at hr
  exact hr

/-- A run of a sequence that returns is a run of its parts. -/
theorem run_bind_ok {x : EStateM ε σ α} {f : α → EStateM ε σ β} {s s' : σ} {b : β} :
    (x >>= f).run s = .ok b s' ↔ ∃ a t, x.run s = .ok a t ∧ (f a).run t = .ok b s' := by
  simp only [EStateM.run, bind, EStateM.bind]
  cases hxs : x s with
  | ok a t => simp
  | error e t => simp

theorem run_bind_of_ok {x : EStateM ε σ α} {f : α → EStateM ε σ β} {s t : σ} {a : α}
    (h : x.run s = .ok a t) : (x >>= f).run s = (f a).run t := by
  simp only [EStateM.run, bind, EStateM.bind] at h ⊢
  rw [h]

theorem run_get_bind {f : σ → EStateM ε σ β} (s : σ) : (get >>= f).run s = (f s).run s := rfl

theorem run_modify_bind {g : σ → σ} {f : Unit → EStateM ε σ β} (s : σ) :
    (modify g >>= f).run s = (f ()).run (g s) := rfl

theorem run_pure_bind {f : α → EStateM ε σ β} (a : α) (s : σ) :
    (pure a >>= f).run s = (f a).run s := rfl

theorem run_bind_of_error {x : EStateM ε σ α} {f : α → EStateM ε σ β} {s t : σ} {e : ε}
    (h : x.run s = .error e t) : (x >>= f).run s = .error e t := by
  simp only [EStateM.run, bind, EStateM.bind] at h ⊢
  rw [h]

theorem run_ofExcept_bind {x : Except ε α} {a : α} {f : α → EStateM ε σ β} (h : x = .ok a)
    (s : σ) : ((ofExcept x : EStateM ε σ α) >>= f).run s = (f a).run s := by
  rw [h]
  rfl

theorem run_ofExcept_error {x : Except ε α} {e : ε} {f : α → EStateM ε σ β} (h : x = .error e)
    (s : σ) : ((ofExcept x : EStateM ε σ α) >>= f).run s = .error e s := by
  rw [h]
  rfl

/-! ## Computations along a relation -/

/-- The state a computation leaves behind, however it ends. -/
def after : EStateM.Result ε σ α → σ
  | .ok _ s => s
  | .error _ s => s

theorem triple_of_after {P I : σ → Prop} {x : EStateM ε σ α}
    (h : ∀ s, P s → I (after (x.run s))) : Triple P x (fun _ => I) (fun _ => I) := by
  constructor
  intro s hs
  have hr := h s hs
  cases hxs : x.run s with
  | ok a t =>
    rw [hxs] at hr
    exact hr
  | error e t =>
    rw [hxs] at hr
    exact hr

theorem triple_after {P I : σ → Prop} {x : EStateM ε σ α}
    (h : Triple P x (fun _ => I) (fun _ => I)) {s : σ} (hs : P s) : I (after (x.run s)) := by
  have hr := h.exits s hs
  cases hxs : x.run s with
  | ok a t =>
    rw [hxs] at hr
    exact hr
  | error e t =>
    rw [hxs] at hr
    exact hr

/-- However it ends, the computation moves the state along `R`. -/
def Along (R : σ → σ → Prop) (x : EStateM ε σ α) : Prop := ∀ s, R s (after (x.run s))

variable {R : σ → σ → Prop}

theorem along_get_bind {g : σ → EStateM ε σ β} (hg : ∀ s, Along R (g s)) :
    Along R (get >>= g) := fun s => hg s s

theorem along_ite {c : Prop} [Decidable c] {x y : EStateM ε σ α} (hx : Along R x)
    (hy : Along R y) : Along R (if c then x else y) := by
  by_cases h : c
  · rw [if_pos h]
    exact hx
  · rw [if_neg h]
    exact hy

section
variable [IsPreorder σ R]

theorem along_pure (a : α) : Along R (pure a : EStateM ε σ α) := refl_of R

theorem along_throw (e : ε) : Along R (throw e : EStateM ε σ α) := refl_of R

theorem along_ofExcept (x : Except ε α) : Along R (ofExcept x : EStateM ε σ α) := by
  intro s
  cases x <;> exact refl_of R s

theorem along_bind {x : EStateM ε σ α} {g : α → EStateM ε σ β} (hx : Along R x)
    (hg : ∀ a, Along R (g a)) : Along R (x >>= g) := by
  intro s
  have hs := hx s
  simp only [EStateM.run, bind, EStateM.bind] at hs ⊢
  cases hxs : x s with
  | ok a t =>
    rw [hxs] at hs
    exact trans_of R hs (hg a t)
  | error e t =>
    rw [hxs] at hs
    exact hs

theorem along_ofExcept_bind {x : Except ε α} {g : α → EStateM ε σ β}
    (hg : ∀ a, x = .ok a → Along R (g a)) : Along R ((ofExcept x : EStateM ε σ α) >>= g) := by
  intro s
  cases hx : x with
  | error e => exact refl_of R s
  | ok a => exact hg a hx s

theorem along_forM {f : α → EStateM ε σ Unit} (as : List α) (hf : ∀ a, Along R (f a)) :
    Along R (forM as f) := by
  induction as with
  | nil => exact along_pure ()
  | cons a as ih =>
    rw [List.forM_cons]
    exact along_bind (hf a) fun _ => ih

theorem along_modify_bind {h : σ → σ} {g : Unit → EStateM ε σ β} (hh : ∀ s, R s (h s))
    (hg : Along R (g ())) : Along R (modify h >>= g) := fun s => trans_of R (hh s) (hg (h s))

end

/-- A property that every move along `R` keeps is kept. -/
theorem along_keeps {P : σ → Prop} {x : EStateM ε σ α} (hx : Along R x)
    (hP : ∀ s t, R s t → P s → P t) : Triple P x (fun _ => P) (fun _ => P) := by
  apply triple_of_after
  intro s hs
  exact hP s _ (hx s) hs

end StateError
