import Mathlib.Data.List.TakeWhile
import Sirannon.HTTPHeader

/-!
# Parameters from the command line

A dollar sign with a number in the value of a parameter stands for an argument
of the command line. The value is edited in place, and how much of it a number
takes is computed from the number again.
-/

set_option autoImplicit false

namespace Sirannon.CommandLine
open Bits HTTP MachineInt

def dollar : UInt8 := 36

def zero : UInt8 := 48

/-! ## The loop -/

def find (val : Bytes) (iPos : ℕ) : Option ℕ :=
  ((val.drop iPos).findIdx? (· = dollar)).map (iPos + ·)

def argument (argv : List Bytes) (iIndex : ℤ) : Bytes := argv.getD (iIndex-1).toNat []

def shown (val : Bytes) : String := String.ofList (val.map fun b => Char.ofNat b.toNat)

/-- The index is looked at again for the text of the error. -/
def indexError (argv : List Bytes) (iLine : ℕ) (val : Bytes) (iPos : ℕ) (iIndex : ℤ) :
    SirannonException :=
  if argv.length < iIndex then
    valueError s!"XML: no matching command line argument for ${iIndex}"
  else valueError s!"XML: '{shown val}' pos({iPos}/{iIndex}) index({val.length}), illegal command line argument specification on line {iLine}"

/-- One round of the loop: the value and the position to go on from, if there is one. -/
def round (argv : List Bytes) (iLine : ℕ) (val : Bytes) (iPos : ℕ) :
    Except SirannonException (Option (Bytes × ℕ)) :=
  match find val iPos with
  | none => .ok none
  | some iPos =>
    if val.length ≤ iPos+1 then .error (valueError "XML: '$' without number following")
    else if val.getD (iPos+1) 0 = dollar then .ok (some (val, iPos+2))
    else
      let iIndex := atoi (val.drop (iPos+1))
      if iIndex < 1 ∨ argv.length < iIndex then .error (indexError argv iLine val iPos iIndex)
      else
        let iDiff := (iIndex/10+1).toNat
        .ok (some (val.take iPos ++ argument argv iIndex ++ val.drop (iPos+(1+iDiff)),
          iPos+(argument argv iIndex).length))

/-- The values and positions the loop goes through, and how it ends if it does. -/
structure Trace where
  visited : List (Bytes × ℕ)
  result : Option (Except SirannonException Bytes)

def loop (argv : List Bytes) (iLine : ℕ) : ℕ → Bytes → ℕ → Trace
  | 0, _, _ => ⟨[], none⟩
  | fuel+1, val, iPos =>
    match round argv iLine val iPos with
    | .error e => ⟨[(val, iPos)], some (.error e)⟩
    | .ok none => ⟨[(val, iPos)], some (.ok val)⟩
    | .ok (some (val', iPos')) =>
      let rest := loop argv iLine fuel val' iPos'
      ⟨(val, iPos)::rest.visited, rest.result⟩

attribute [grind =] loop

def substitute (argv : List Bytes) (iLine : ℕ) (val : Bytes) : Trace :=
  loop argv iLine (val.length+1) val 0

/-! ## What is meant -/

def digits (t : Bytes) : Bytes := t.takeWhile isDigit

/-- A number of an argument, without leading zero. -/
def Legal (argc : ℕ) (t : Bytes) : Prop :=
  digits t ≠ [] ∧ t.head? ≠ some zero ∧ decimal (digits t) ≤ argc

instance (argc : ℕ) (t : Bytes) : Decidable (Legal argc t) := inferInstanceAs (Decidable (_ ∧ _))

/-- The text in front of the next dollar sign, and the text behind it. -/
def plain (left : Bytes) : Bytes := left.takeWhile (· ≠ dollar)

def behind (left : Bytes) : Option Bytes := (left.dropWhile (· ≠ dollar)).tail?

variable {argv : List Bytes} {argc iLine : ℕ} {text left t : Bytes}

theorem plain_clean (left : Bytes) : dollar ∉ plain left := by
  intro h
  have hne := List.mem_takeWhile_imp h
  simp at hne

theorem behind_none (h : behind left = none) : plain left = left ∧ dollar ∉ left := by
  have hplain : plain left = left := by
    have hrest : left.dropWhile (· ≠ dollar) = [] := by
      cases hdrop : left.dropWhile (· ≠ dollar) with
      | nil => rfl
      | cons b t =>
        rw [behind, hdrop] at h
        cases h
    have hsplit := List.takeWhile_append_dropWhile (p := (· ≠ dollar)) (l := left)
    rw [hrest, List.append_nil] at hsplit
    exact hsplit
  refine ⟨hplain, ?_⟩
  rw [← hplain]
  exact plain_clean left

theorem behind_some (h : behind left = some t) : left = plain left ++ dollar::t := by
  have hsplit := List.takeWhile_append_dropWhile (p := (· ≠ dollar)) (l := left)
  cases hdrop : left.dropWhile (· ≠ dollar) with
  | nil =>
    rw [behind, hdrop] at h
    cases h
  | cons b t' =>
    rw [behind, hdrop] at h
    have htail : t' = t := Option.some.inj h
    have hfirst := List.head?_dropWhile_not (· ≠ dollar) left
    rw [hdrop] at hfirst
    have hb : b = dollar := by simpa using hfirst
    rw [hdrop, hb, htail] at hsplit
    exact hsplit.symm

theorem behind_length (h : behind left = some t) : t.length < left.length := by
  rw [behind_some h, List.length_append, List.length_cons]
  omega

/-- The text done and the text left at each dollar sign, and the text in the end unless a dollar
sign has nothing to stand for. -/
def expand (argv : List Bytes) (done left : Bytes) : List (Bytes × Bytes) × Option Bytes :=
  match h : behind left with
  | none => ([(done, left)], some (done ++ left))
  | some t =>
    if t.head? = some dollar then
      let rest := expand argv (done ++ plain left ++ [dollar, dollar]) t.tail
      ((done, left)::rest.1, rest.2)
    else if Legal argv.length t then
      let rest := expand argv (done ++ plain left ++ argument argv (decimal (digits t)))
        (t.dropWhile isDigit)
      ((done, left)::rest.1, rest.2)
    else ([(done, left)], none)
termination_by left.length
decreasing_by
  · have := behind_length h
    rw [List.length_tail]
    omega
  · have := behind_length h
    have := (List.dropWhile_suffix isDigit (l := t)).length_le
    omega

attribute [grind =] expand

/-- The texts behind the dollar signs that are not one of a pair, up to the first that has nothing
to stand for. -/
def marks (argc : ℕ) (left : Bytes) : List Bytes :=
  match h : behind left with
  | none => []
  | some t =>
    if t.head? = some dollar then marks argc t.tail
    else if Legal argc t then t::marks argc (t.dropWhile isDigit)
    else [t]
termination_by left.length
decreasing_by
  · have := behind_length h
    rw [List.length_tail]
    omega
  · have := behind_length h
    have := (List.dropWhile_suffix isDigit (l := t)).length_le
    omega

/-- A number is read as one of its width, and nothing else is read as a number. -/
def Readable (argc : ℕ) (t : Bytes) : Prop :=
  if Legal argc t then decimal (digits t) < 20 ∨ t.dropWhile isDigit = []
  else ¬(1 ≤ atoi t ∧ atoi t ≤ argc)

/-- At each round the value is the text done and the text left, and the end is the same. -/
def Same (loop : Trace) (text : List (Bytes × Bytes) × Option Bytes) : Prop :=
  loop.visited.map (fun v => (v.1.take v.2, v.1.drop v.2)) = text.1 ∧
    loop.result.map Except.toOption = some text.2

/-! ## Numbers -/

theorem decimal_snoc (ds : Bytes) (b : UInt8) : decimal (ds ++ [b]) = 10*decimal ds+(b.toNat-48) := by
  simp [decimal]

theorem digit_bounds {b : UInt8} (h : isDigit b = true) : 48 ≤ b.toNat ∧ b.toNat ≤ 57 := by
  simp only [isDigit, Bool.and_eq_true, decide_eq_true_eq, UInt8.le_iff_toNat_le] at h
  exact h

theorem decimal_high (ds : Bytes) (h : ∀ b ∈ ds, isDigit b = true) : decimal ds < 10^ds.length := by
  induction ds using List.reverseRecOn with
  | nil => decide
  | append_singleton ds b ih =>
    have hb := digit_bounds (h b (by simp))
    have hds := ih fun c hc => h c (by simp [hc])
    rw [decimal_snoc, List.length_append, List.length_singleton, pow_succ]
    omega

theorem decimal_low (ds : Bytes) (h : ∀ b ∈ ds, isDigit b = true) (hsome : ds ≠ [])
    (hlead : ds.head? ≠ some zero) : 10^(ds.length-1) ≤ decimal ds := by
  induction ds using List.reverseRecOn with
  | nil => exact absurd rfl hsome
  | append_singleton ds b ih =>
    have hb := digit_bounds (h b (by simp))
    rw [decimal_snoc, List.length_append, List.length_singleton, Nat.add_sub_cancel]
    cases hds : ds with
    | nil =>
      rw [hds] at hlead
      have hne : b ≠ zero := by simpa using hlead
      have hne' : b.toNat ≠ 48 := fun heq => hne (UInt8.toNat_inj.mp heq)
      show 1 ≤ 10*0+(b.toNat-48)
      omega
    | cons c cs =>
      have hfirst : ds.head? ≠ some zero := by
        rw [hds] at hlead ⊢
        exact hlead
      have hlow := ih (fun c hc => h c (by simp [hc])) (by simp [hds]) hfirst
      rw [hds] at hlow
      rw [List.length_cons, Nat.add_sub_cancel] at hlow
      rw [List.length_cons, pow_succ]
      omega

theorem digits_all (t : Bytes) : ∀ b ∈ digits t, isDigit b = true := fun _ hb =>
  List.mem_takeWhile_imp hb

theorem digits_head (h : digits t ≠ []) : (digits t).head? = t.head? := by
  cases t with
  | nil => rfl
  | cons b t =>
    rw [digits, List.takeWhile_cons] at h ⊢
    split_ifs at h ⊢
    · rfl
    · exact absurd rfl h

/-- The width computed from a number is right below 20, and too large from there on. -/
theorem legal_width (h : Legal argc t) : 1 ≤ decimal (digits t) ∧
    (decimal (digits t) < 20 → decimal (digits t)/10+1 = (digits t).length) ∧
    (20 ≤ decimal (digits t) → (digits t).length < decimal (digits t)/10+1) := by
  rcases h with ⟨hsome, hlead, _⟩
  have hlow := decimal_low (digits t) (digits_all t) hsome (by rw [digits_head hsome]; exact hlead)
  have hhigh := decimal_high (digits t) (digits_all t)
  have hpos := List.length_pos_iff.mpr hsome
  generalize decimal (digits t) = n at hlow hhigh ⊢
  generalize (digits t).length = w at hlow hhigh hpos ⊢
  match w, hpos with
  | 1, _ =>
    norm_num at hlow hhigh
    omega
  | 2, _ =>
    norm_num at hlow hhigh
    omega
  | k+3, _ =>
    have hk : k < 10^k := Nat.lt_pow_self (by decide)
    have hpow : 10^(k+3-1) = 100*10^k := by
      rw [show k+3-1 = k+2 by omega, pow_add]
      ring
    rw [hpow] at hlow
    omega

theorem legal_atoi (h : Legal argc t) (hargc : argc < 2^31) : atoi t = decimal (digits t) := by
  rcases h with ⟨hsome, _, hhigh⟩
  cases t with
  | nil => exact absurd rfl hsome
  | cons b t =>
    have hb : isDigit b = true := by
      by_contra hnot
      rw [digits, List.takeWhile_cons_of_neg hnot] at hsome
      exact hsome rfl
    rw [atoi, strtol_front hb, ← digits, int32_of_range]
    · omega
    · omega
    · omega

theorem digits_split (t : Bytes) : digits t ++ t.dropWhile isDigit = t :=
  List.takeWhile_append_dropWhile

theorem drop_digits (t : Bytes) : t.drop (digits t).length = t.dropWhile isDigit := by
  have h : (digits t ++ t.dropWhile isDigit).drop (digits t).length = t.dropWhile isDigit :=
    List.drop_left
  rwa [digits_split] at h

/-! ## A round -/

theorem find_none {done : Bytes} (h : dollar ∉ left) : find (done ++ left) done.length = none := by
  rw [find, List.drop_left, Option.map_eq_none_iff, List.findIdx?_eq_none_iff]
  intro b hb
  apply decide_eq_false
  rintro rfl
  exact h hb

theorem find_some {done : Bytes} (h : dollar ∉ text) :
    find (done ++ (text ++ dollar::t)) done.length = some (done.length+text.length) := by
  have hfirst : (text ++ dollar::t).findIdx? (· = dollar) = some text.length := by
    rw [List.findIdx?_append, List.findIdx?_eq_none_iff.mpr]
    · simp [List.findIdx?_cons]
    · intro b hb
      apply decide_eq_false
      rintro rfl
      exact h hb
  rw [find, List.drop_left, hfirst]
  rfl

/-- What a round does at the next dollar sign. -/
theorem round_dollar (argv : List Bytes) (iLine : ℕ) (t done : Bytes) (h : dollar ∉ text) :
    ∃ e₁ e₂, round argv iLine (done ++ (text ++ dollar::t)) done.length =
      if t = [] then .error e₁
      else if t.head? = some dollar then
        .ok (some (done ++ (text ++ dollar::t), (done ++ text).length+2))
      else if atoi t < 1 ∨ argv.length < atoi t then .error e₂
      else .ok (some ((done ++ text) ++ argument argv (atoi t) ++ t.drop (atoi t/10+1).toNat,
        (done ++ text).length+(argument argv (atoi t)).length)) := by
  have hval : done ++ (text ++ dollar::t) = (done ++ text) ++ dollar::t := by
    rw [List.append_assoc]
  have hdrop : ∀ n, (done ++ (text ++ dollar::t)).drop (done.length+text.length+(1+n)) =
      t.drop n := by
    intro n
    rw [hval, ← List.length_append, ← List.drop_drop, List.drop_left, Nat.add_comm,
      List.drop_succ_cons]
  have hbehind : (done ++ (text ++ dollar::t)).drop (done.length+text.length+1) = t := hdrop 0
  have htake : (done ++ (text ++ dollar::t)).take (done.length+text.length) = done ++ text := by
    rw [hval, ← List.length_append, List.take_left]
  have hnext : (done ++ (text ++ dollar::t)).getD (done.length+text.length+1) 0 =
      t.head?.getD 0 := by
    rw [List.getD_eq_getElem?_getD, ← Nat.add_zero (done.length+text.length+1),
      ← List.getElem?_drop, hbehind, List.head?_eq_getElem?]
  have hlength : (done ++ (text ++ dollar::t)).length ≤ done.length+text.length+1 ↔ t = [] := by
    rw [← List.length_eq_zero_iff]
    simp only [List.length_append, List.length_cons]
    omega
  refine ⟨valueError "XML: '$' without number following", indexError argv iLine
    (done ++ (text ++ dollar::t)) (done.length+text.length) (atoi t), ?_⟩
  rw [round, find_some h]
  dsimp only
  have hcount : (done ++ text).length = done.length+text.length := List.length_append
  rw [hnext, hbehind, hdrop, htake, hcount]
  by_cases hnil : t = []
  · rw [if_pos (hlength.mpr hnil), if_pos hnil]
  · rw [if_neg (fun hle => hnil (hlength.mp hle)), if_neg hnil]
    have hhead : t.head?.getD 0 = dollar ↔ t.head? = some dollar := by
      cases t with
      | nil => exact absurd rfl hnil
      | cons b t => simp
    by_cases hdollar : t.head? = some dollar
    · rw [if_pos (hhead.mpr hdollar), if_pos hdollar]
    · rw [if_neg (fun heq => hdollar (hhead.mp heq)), if_neg hdollar]

/-! ## The rounds against the text -/

theorem expand_last {done : Bytes} (h : behind left = none) :
    expand argv done left = ([(done, left)], some (done ++ left)) := by
  rw [expand]
  split
  · rfl
  · rename_i hsome
    rw [h] at hsome
    cases hsome

theorem expand_pair {done : Bytes} (h : behind left = some t) (hpair : t.head? = some dollar) :
    expand argv done left =
      ((done, left)::(expand argv (done ++ plain left ++ [dollar, dollar]) t.tail).1,
        (expand argv (done ++ plain left ++ [dollar, dollar]) t.tail).2) := by
  rw [expand]
  split
  · rename_i hnone
    rw [h] at hnone
    cases hnone
  · rename_i t' hsome
    obtain rfl : t = t' := Option.some.inj (h.symm.trans hsome)
    rw [if_pos hpair]

theorem expand_number {done : Bytes} (h : behind left = some t) (hpair : t.head? ≠ some dollar)
    (hlegal : Legal argv.length t) :
    expand argv done left =
      ((done, left)::(expand argv (done ++ plain left ++ argument argv (decimal (digits t)))
          (t.dropWhile isDigit)).1,
        (expand argv (done ++ plain left ++ argument argv (decimal (digits t)))
          (t.dropWhile isDigit)).2) := by
  rw [expand]
  split
  · rename_i hnone
    rw [h] at hnone
    cases hnone
  · rename_i t' hsome
    obtain rfl : t = t' := Option.some.inj (h.symm.trans hsome)
    rw [if_neg hpair, if_pos hlegal]

theorem expand_illegal {done : Bytes} (h : behind left = some t) (hpair : t.head? ≠ some dollar)
    (hlegal : ¬Legal argv.length t) : expand argv done left = ([(done, left)], none) := by
  rw [expand]
  split
  · rename_i hnone
    rw [h] at hnone
    cases hnone
  · rename_i t' hsome
    obtain rfl : t = t' := Option.some.inj (h.symm.trans hsome)
    rw [if_neg hpair, if_neg hlegal]

theorem expand_head (argv : List Bytes) (done left : Bytes) :
    (expand argv done left).1.head? = some (done, left) := by
  rw [expand]
  split
  · rfl
  · split_ifs <;> rfl

theorem marks_last (h : behind left = none) : marks argc left = [] := by
  rw [marks]
  split
  · rfl
  · rename_i hsome
    rw [h] at hsome
    cases hsome

theorem marks_some (h : behind left = some t) : marks argc left =
    if t.head? = some dollar then marks argc t.tail
    else if Legal argc t then t::marks argc (t.dropWhile isDigit)
    else [t] := by
  rw [marks]
  split
  · rename_i hnone
    rw [h] at hnone
    cases hnone
  · rename_i t' hsome
    obtain rfl : t = t' := Option.some.inj (h.symm.trans hsome)
    rfl

theorem loop_head (argv : List Bytes) (iLine fuel : ℕ) (val : Bytes) (iPos : ℕ) :
    (loop argv iLine (fuel+1) val iPos).visited.head? = some (val, iPos) := by
  rw [loop]
  split <;> rfl

theorem same_cons {done val : Bytes} {iPos : ℕ} {rest : Trace}
    {after : List (Bytes × Bytes) × Option Bytes} (htake : val.take iPos = done)
    (hdrop : val.drop iPos = left) :
    Same ⟨(val, iPos)::rest.visited, rest.result⟩ ((done, left)::after.1, after.2) ↔
      Same rest after := by
  rw [Same, Same, List.map_cons, htake, hdrop, List.cons_inj_right]

/-- Two rounds and texts are the same only if they begin with the same text left. -/
theorem same_left {done val : Bytes} {iPos fuel : ℕ}
    (h : Same (loop argv iLine (fuel+1) val iPos) (expand argv done left)) :
    val.drop iPos = left := by
  have hheads := congrArg List.head? h.1
  rw [List.head?_map, loop_head, expand_head] at hheads
  exact (Prod.mk.inj (Option.some.inj hheads)).2

theorem atoi_nil : atoi [] = 0 := int32_of_range 0 (by decide) (by decide)

theorem pair_text (hb : behind left = some t) (hpair : t.head? = some dollar) (done : Bytes) :
    done ++ left = done ++ plain left ++ [dollar, dollar] ++ t.tail ∧
      (done ++ plain left).length+2 = (done ++ plain left ++ [dollar, dollar]).length := by
  constructor
  · obtain ⟨t', rfl⟩ : ∃ t', t = dollar::t' := List.head?_eq_some_iff.mp hpair
    conv_lhs => rw [behind_some hb]
    simp
  · have hcount : (done ++ plain left ++ [dollar, dollar]).length =
        (done ++ plain left).length+[dollar, dollar].length := List.length_append
    rw [hcount]
    rfl

theorem loop_expand (hargc : argv.length < 2^31) (fuel : ℕ) (done left : Bytes)
    (hfuel : left.length < fuel) :
    Same (loop argv iLine fuel (done ++ left) done.length) (expand argv done left) ↔
      ∀ t ∈ marks argv.length left, Readable argv.length t := by
  induction fuel generalizing done left with
  | zero => omega
  | succ fuel ih =>
    have htake : (done ++ left).take done.length = done := List.take_left
    have hdrop : (done ++ left).drop done.length = left := List.drop_left
    cases hb : behind left with
    | none =>
      have hround : round argv iLine (done ++ left) done.length = .ok none := by
        rw [round, find_none (behind_none hb).2]
      rw [expand_last hb, marks_last hb, loop, hround]
      simp [Same, Except.toOption]
    | some t =>
      have hleft := behind_some hb
      have hshort := behind_length hb
      rcases round_dollar argv iLine t done (plain_clean left) with ⟨e₁, e₂, hround⟩
      rw [← hleft] at hround
      rw [marks_some hb, loop, hround]
      by_cases hpair : t.head? = some dollar
      · have hnil : t ≠ [] := by
          rintro rfl
          cases hpair
        rcases pair_text hb hpair done with ⟨hval, hlength⟩
        have hrest := ih (done ++ plain left ++ [dollar, dollar]) t.tail (by
          rw [List.length_tail]
          omega)
        rw [← hval, ← hlength] at hrest
        rw [if_neg hnil, if_pos hpair, if_pos hpair, expand_pair hb hpair]
        exact (same_cons htake hdrop).trans hrest
      · rw [if_neg hpair, if_neg hpair]
        by_cases hlegal : Legal argv.length t
        · have hatoi := legal_atoi hlegal hargc
          rcases legal_width hlegal with ⟨hpos, hnarrow, hwide⟩
          have hnil : t ≠ [] := by
            rintro rfl
            exact hlegal.1 rfl
          have hargs := hlegal.2.2
          rw [if_neg hnil, if_pos hlegal, if_neg (by omega), expand_number hb hpair hlegal, hatoi,
            List.forall_mem_cons]
          have hwidth : ((decimal (digits t) : ℤ)/10+1).toNat = decimal (digits t)/10+1 := by omega
          have hlength : (done ++ plain left).length+(argument argv (decimal (digits t))).length =
              (done ++ plain left ++ argument argv (decimal (digits t))).length :=
            List.length_append.symm
          have hreadable : Readable argv.length t ↔
              decimal (digits t) < 20 ∨ t.dropWhile isDigit = [] := by
            rw [Readable, if_pos hlegal]
          have hdigits := drop_digits t
          have hlast := (List.dropWhile_suffix isDigit (l := t)).length_le
          rw [hwidth, hlength, hreadable]
          by_cases hgood : decimal (digits t) < 20 ∨ t.dropWhile isDigit = []
          · have hrest : t.drop (decimal (digits t)/10+1) = t.dropWhile isDigit := by
              rcases hgood with hsmall | hend
              · rw [hnarrow hsmall, hdigits]
              · rw [hend, List.drop_eq_nil_iff]
                have hwhole : t.length ≤ (digits t).length := by
                  rw [← List.drop_eq_nil_iff, hdigits, hend]
                by_cases hsmall : decimal (digits t) < 20
                · rw [hnarrow hsmall]
                  exact hwhole
                · exact hwhole.trans (hwide (by omega)).le
            rw [hrest, same_cons htake hdrop, ih _ _ (by omega)]
            exact (and_iff_right hgood).symm
          · rw [not_or] at hgood
            constructor
            · intro hsame
              exfalso
              rw [same_cons htake hdrop] at hsame
              obtain ⟨fuel, rfl⟩ : ∃ n, fuel = n+1 := ⟨fuel-1, by omega⟩
              have hleft' := same_left hsame
              rw [List.drop_left, ← hdigits] at hleft'
              have hlengths := congrArg List.length hleft'
              have hsome : 0 < (t.dropWhile isDigit).length := List.length_pos_iff.mpr hgood.2
              have hwide' := hwide (by omega)
              rw [← hdigits, List.length_drop] at hsome
              rw [List.length_drop, List.length_drop] at hlengths
              omega
            · intro hall
              exact absurd hall.1 (not_or.mpr hgood)
        · have hreadable : Readable argv.length t ↔ ¬(1 ≤ atoi t ∧ atoi t ≤ argv.length) := by
            rw [Readable, if_neg hlegal]
          rw [if_neg hlegal, expand_illegal hb hpair hlegal, List.forall_mem_singleton, hreadable]
          by_cases hnil : t = []
          · rw [if_pos hnil, hnil, atoi_nil]
            simp [Same, htake, Except.toOption]
          · rw [if_neg hnil]
            by_cases hrange : atoi t < 1 ∨ argv.length < atoi t
            · rw [if_pos hrange]
              constructor
              · intro _
                omega
              · intro _
                simp [Same, htake, Except.toOption]
            · rw [if_neg hrange]
              constructor
              · intro hsame
                exfalso
                have hsome := List.length_pos_iff.mpr hnil
                obtain ⟨fuel, rfl⟩ : ∃ n, fuel = n+1 := ⟨fuel-1, by omega⟩
                have hlengths := congrArg List.length hsame.1
                rw [List.length_map, List.length_cons, List.length_singleton] at hlengths
                have hnone := List.eq_nil_of_length_eq_zero (Nat.succ.inj hlengths)
                have hhead := loop_head argv iLine fuel (done ++ plain left ++
                  argument argv (atoi t) ++ t.drop (atoi t/10+1).toNat)
                  ((done ++ plain left).length+(argument argv (atoi t)).length)
                rw [hnone] at hhead
                cases hhead
              · intro hnot
                exact absurd ⟨by omega, by omega⟩ hnot

/-! ## The loop ends -/

theorem loop_ends (fuel : ℕ) (done left : Bytes) (hfuel : left.length < fuel) :
    (loop argv iLine fuel (done ++ left) done.length).result ≠ none := by
  induction fuel generalizing done left with
  | zero => omega
  | succ fuel ih =>
    cases hb : behind left with
    | none =>
      have hround : round argv iLine (done ++ left) done.length = .ok none := by
        rw [round, find_none (behind_none hb).2]
      rw [loop, hround]
      simp
    | some t =>
      have hleft := behind_some hb
      have hshort := behind_length hb
      rcases round_dollar argv iLine t done (plain_clean left) with ⟨e₁, e₂, hround⟩
      rw [← hleft] at hround
      rw [loop, hround]
      split_ifs with hnil hpair hrange
      · simp
      · rcases pair_text hb hpair done with ⟨hval, hlength⟩
        have hrest := ih (done ++ plain left ++ [dollar, dollar]) t.tail (by
          rw [List.length_tail]
          omega)
        rw [← hval, ← hlength] at hrest
        exact hrest
      · simp
      · have hrest := ih (done ++ plain left ++ argument argv (atoi t))
          (t.drop (atoi t/10+1).toNat) (by
            rw [List.length_drop]
            omega)
        have hcount : (done ++ plain left ++ argument argv (atoi t)).length =
            (done ++ plain left).length+(argument argv (atoi t)).length := List.length_append
        rw [hcount] at hrest
        exact hrest

/-- The loop ends, and each number stands for its argument with nothing else changed. -/
def Faithful (argv : List Bytes) (iLine : ℕ) (val : Bytes) : Prop :=
  (substitute argv iLine val).result ≠ none ∧
    Same (substitute argv iLine val) (expand argv [] val)

theorem substitute_iff (argv : List Bytes) (iLine : ℕ) (val : Bytes) (hargc : argv.length < 2^31) :
    Faithful argv iLine val ↔ ∀ t ∈ marks argv.length val, Readable argv.length t := by
  rw [Faithful, substitute, ← loop_expand hargc (val.length+1) [] val (Nat.lt_succ_self _)]
  exact and_iff_right (loop_ends (val.length+1) [] val (Nat.lt_succ_self _))

/-- `$1` with one argument. -/
theorem substitute_iff_one : Faithful [[97]] 1 [36, 49] := by
  apply (substitute_iff [[97]] 1 [36, 49] (by decide)).mpr
  have hbehind : behind [36, 49] = some [49] := by decide
  rw [marks_some hbehind, if_neg (by decide), if_pos (by decide), marks_last (by decide)]
  intro t ht
  rw [List.mem_singleton.mp ht, Readable, if_pos (by decide)]
  exact Or.inl (by decide)

/-- Of `$20x` with twenty arguments the `x` is lost. -/
theorem substitute_twenty :
    (substitute (List.replicate 20 [97]) 1 [36, 50, 48, 120]).result.map Except.toOption =
        some (some [97]) ∧
      (expand (List.replicate 20 [97]) [] [36, 50, 48, 120]).2 = some [97, 120] := by
  constructor
  · decide +kernel
  · have hbehind : behind [36, 50, 48, 120] = some [50, 48, 120] := by decide
    rw [expand_number hbehind (by decide) (by decide)]
    dsimp only
    rw [expand_last (by decide)]
    decide +kernel

end Sirannon.CommandLine
