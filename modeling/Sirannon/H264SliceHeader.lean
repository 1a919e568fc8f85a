import Sirannon.H264Parsing

/-!
# Slice headers

The bytes put into a unit against the emulation of start codes are taken out
again, unless one of them is followed by `00 03`: then the `03` goes too. The
header of a slice is read from what is left.
-/

set_option autoImplicit false

namespace Sirannon.H264
open ByteMemory BitString Bits MachineInt StateError

/-! ## The bytes of a unit -/

/-- What a unit carries, without the bytes put in against emulation. -/
def rbsp : Bytes → Bytes
  | 0::0::3::bs => 0::0::rbsp bs
  | b::bs => b::rbsp bs
  | [] => []

/-- No byte put in is followed by `00 03`. -/
def Plain : Bytes → Prop
  | 0::0::3::bs => (∀ rest, bs ≠ 0::3::rest) ∧ Plain bs
  | _::bs => Plain bs
  | [] => True

variable {a b c : UInt8} {bs : Bytes}

theorem rbsp_cons (h : ¬ (a = 0 ∧ b = 0 ∧ c = 3)) : rbsp (a::b::c::bs) = a::rbsp (b::c::bs) := by
  rw [rbsp]
  intro _ ha h'
  cases h'
  exact h ⟨ha, rfl, rfl⟩

theorem plain_cons (h : ¬ (a = 0 ∧ b = 0 ∧ c = 3)) : Plain (a::b::c::bs) ↔ Plain (b::c::bs) := by
  rw [Plain]
  intro _ ha h'
  cases h'
  exact h ⟨ha, rfl, rfl⟩

theorem rbsp_short : rbsp [a, b] = [a, b] := by
  simp [rbsp]

/-- The last three bytes read, as a number. -/
def window (a b c : UInt8) : ℕ := a.toNat*2^16+b.toNat*2^8+c.toNat

theorem window_eq_three : window a b c = 3 ↔ a = 0 ∧ b = 0 ∧ c = 3 := by
  rw [window]
  constructor
  · intro h
    refine ⟨UInt8.toNat_inj.mp ?_, UInt8.toNat_inj.mp ?_, UInt8.toNat_inj.mp ?_⟩
    · show a.toNat = 0
      omega
    · show b.toNat = 0
      omega
    · show c.toNat = 3
      omega
  · rintro ⟨rfl, rfl, rfl⟩
    rfl

variable {src : Memory} {m : ℕ}

def flushed (iVal : ℕ) : Bytes :=
  [UInt8.ofNat (iVal/2^16), UInt8.ofNat (iVal/2^8), UInt8.ofNat iVal]

theorem flushed_window {iVal : ℕ} (h : iVal%2^24 = window a b c) : flushed iVal = [a, b, c] := by
  have ha := a.toNat_lt
  have hb := b.toNat_lt
  have hc := c.toNat_lt
  rw [window] at h
  have heq : ∀ (n : ℕ) (x : UInt8), n%2^8 = x.toNat → UInt8.ofNat n = x := by
    intro n x hx
    apply UInt8.toNat_inj.mp
    rw [UInt8.toNat_ofNat']
    exact hx
  rw [flushed, heq _ a, heq _ b, heq _ c]
  · omega
  · omega
  · omega

/-- One byte more in the window. -/
theorem window_step {iVal : ℕ} (h : iVal%2^24 = window a b c) (y : UInt8) :
    UInt8.ofNat ((iVal*2^8%2^32+y.toNat)/2^24) = a ∧
      (iVal*2^8%2^32+y.toNat)%2^24 = window b c y := by
  have ha := a.toNat_lt
  have hb := b.toNat_lt
  have hc := c.toNat_lt
  have hy := y.toNat_lt
  rw [window] at h ⊢
  constructor
  · apply UInt8.toNat_inj.mp
    rw [UInt8.toNat_ofNat']
    omega
  · omega

def putOut (src : Memory) (m fuel i iVal : ℕ) : Bytes :=
  (unemulateLoop src m fuel i iVal).1 ++ flushed (unemulateLoop src m fuel i iVal).2

theorem putOut_end {fuel i iVal : ℕ} (hval : iVal%2^24 = window a b c) (hend : fuel = 0 ∨ ¬ i < m) :
    putOut src m fuel i iVal = [a, b, c] := by
  have hloop : unemulateLoop src m fuel i iVal = ([], iVal) := by
    cases fuel with
    | zero => rfl
    | succ fuel =>
      rw [unemulateLoop, if_neg]
      rcases hend with hend | hend
      · cases hend
      · exact hend
  rw [putOut, hloop, flushed_window hval, List.nil_append]

theorem putOut_step {fuel i iVal : ℕ} (hval : iVal%2^24 = window a b c) (hi : i < m)
    (hnone : ¬ (a = 0 ∧ b = 0 ∧ c = 3)) :
    putOut src m (fuel+1) i iVal = a::putOut src m fuel (i+1) (iVal*2^8%2^32+(src i).toNat) ∧
      (iVal*2^8%2^32+(src i).toNat)%2^24 = window b c (src i) := by
  have hthree : window a b c ≠ 3 := fun h => hnone (window_eq_three.mp h)
  rcases window_step hval (src i) with ⟨hout, hnext⟩
  refine ⟨?_, hnext⟩
  rw [putOut, unemulateLoop, if_pos hi]
  simp only [hval, hthree, decide_false, Bool.false_eq_true, if_false]
  rw [hout, List.cons_append, putOut]

theorem putOut_emulation {fuel i iVal : ℕ} (hval : iVal%2^24 = window 0 0 3) (hi : i < m) :
    putOut src m (fuel+1) i iVal = 0::putOut src m fuel (i+1+1)
        ((iVal/2^8*2^8+(src i).toNat)*2^8%2^32+(src (i+1)).toNat) ∧
      ((iVal/2^8*2^8+(src i).toNat)*2^8%2^32+(src (i+1)).toNat)%2^24 =
        window 0 (src i) (src (i+1)) := by
  have hthree : window 0 0 3 = 3 := rfl
  have hkept : (iVal/2^8*2^8+(src i).toNat)%2^24 = window 0 0 (src i) := by
    have hbyte := (src i).toNat_lt
    have hzero : window 0 0 (src i) = (src i).toNat := by simp [window]
    omega
  rcases window_step hkept (src (i+1)) with ⟨hout, hnext⟩
  refine ⟨?_, hnext⟩
  rw [putOut, unemulateLoop, if_pos hi]
  simp only [hval, hthree, decide_true, if_true]
  rw [hout, List.cons_append, putOut]

theorem putOut_first {fuel i iVal : ℕ} (hval : iVal%2^24 = window a b c) :
    [a] <+: putOut src m fuel i iVal := by
  cases fuel with
  | zero => exact ⟨[b, c], (putOut_end hval (Or.inl rfl)).symm⟩
  | succ fuel =>
    by_cases hi : i < m
    · by_cases hthree : a = 0 ∧ b = 0 ∧ c = 3
      · rcases hthree with ⟨rfl, rfl, rfl⟩
        rcases putOut_emulation hval hi with ⟨hout, -⟩
        exact ⟨_, hout.symm⟩
      · rcases putOut_step hval hi hthree with ⟨hout, -⟩
        exact ⟨_, hout.symm⟩
    · exact ⟨[b, c], (putOut_end hval (Or.inr hi)).symm⟩

theorem putOut_second {fuel i iVal : ℕ} (hval : iVal%2^24 = window a b c) :
    [a, b] <+: putOut src m fuel i iVal := by
  cases fuel with
  | zero => exact ⟨[c], (putOut_end hval (Or.inl rfl)).symm⟩
  | succ fuel =>
    by_cases hi : i < m
    · by_cases hthree : a = 0 ∧ b = 0 ∧ c = 3
      · rcases hthree with ⟨rfl, rfl, rfl⟩
        rcases putOut_emulation hval hi with ⟨hout, hnext⟩
        rw [hout, List.cons_prefix_cons]
        exact ⟨rfl, putOut_first hnext⟩
      · rcases putOut_step hval hi hthree with ⟨hout, hnext⟩
        rw [hout, List.cons_prefix_cons]
        exact ⟨rfl, putOut_first hnext⟩
    · exact ⟨[c], (putOut_end hval (Or.inr hi)).symm⟩

/-- The window goes out, without a byte put in against emulation. -/
theorem putOut_window {fuel i iVal : ℕ} (hval : iVal%2^24 = window a b c) :
    rbsp [a, b, c] <+: putOut src m fuel i iVal := by
  by_cases hthree : a = 0 ∧ b = 0 ∧ c = 3
  · rcases hthree with ⟨rfl, rfl, rfl⟩
    exact putOut_second hval
  · rw [rbsp_cons hthree, rbsp_short]
    cases fuel with
    | zero => exact ⟨[], (putOut_end hval (Or.inl rfl)).symm⟩
    | succ fuel =>
      by_cases hi : i < m
      · rcases putOut_step hval hi hthree with ⟨hout, hnext⟩
        rw [hout, List.cons_prefix_cons]
        exact ⟨rfl, putOut_second hnext⟩
      · exact ⟨[], (putOut_end hval (Or.inr hi)).symm⟩

theorem load_next {n i : ℕ} (h : i < n) : load src i (n-i) = src i::load src (i+1) (n-(i+1)) := by
  rw [show n-i = n-(i+1)+1 by omega, load]

theorem putOut_plain {n fuel i iVal : ℕ} (hn : n ≤ m) (hfuel : m ≤ i+fuel)
    (hval : iVal%2^24 = window a b c) (hplain : Plain (a::b::c::load src i (n-i))) :
    rbsp (a::b::c::load src i (n-i)) <+: putOut src m fuel i iVal := by
  induction fuel generalizing i iVal a b c with
  | zero =>
    rw [Nat.sub_eq_zero_of_le (by omega)]
    exact putOut_window hval
  | succ fuel ih =>
    by_cases hi : i < n
    · rw [load_next hi] at hplain ⊢
      by_cases hthree : a = 0 ∧ b = 0 ∧ c = 3
      · rcases hthree with ⟨rfl, rfl, rfl⟩
        rcases putOut_emulation hval (hi.trans_le hn) with ⟨hout, hnext⟩
        rw [hout, rbsp, List.cons_prefix_cons]
        refine ⟨rfl, ?_⟩
        by_cases hlast : i+1 < n
        · rw [load_next hlast] at hplain ⊢
          have hfree : ¬ ((0 : UInt8) = 0 ∧ src i = 0 ∧ src (i+1) = 3) := by
            rintro ⟨-, h0, h3⟩
            exact hplain.1 _ (by rw [h0, h3])
          rw [← rbsp_cons hfree]
          exact ih (by omega) hnext ((plain_cons hfree).mpr hplain.2)
        · have hone : rbsp [src i] = [src i] := by simp [rbsp]
          rw [Nat.sub_eq_zero_of_le (Nat.le_of_not_lt hlast), load, hone]
          exact putOut_second hnext
      · rcases putOut_step hval (hi.trans_le hn) hthree with ⟨hout, hnext⟩
        rw [hout, rbsp_cons hthree, List.cons_prefix_cons]
        exact ⟨rfl, ih (by omega) hnext ((plain_cons hthree).mp hplain)⟩
    · rw [Nat.sub_eq_zero_of_le (Nat.le_of_not_lt hi)]
      exact putOut_window hval

theorem window_lt : window a b c % 2^24 = window a b c := by
  have ha := a.toNat_lt
  have hb := b.toNat_lt
  have hc := c.toNat_lt
  rw [window]
  omega

/-- Of a unit that is plain at first, what that part carries comes out first. -/
theorem unemulate_plain {n : ℕ} (hn : n ≤ m) (hplain : Plain (load src 0 n)) :
    rbsp (load src 0 n) <+: H264_unemulate src m := by
  have hwindow : H264_unemulate src m = putOut src m m 3 (window (src 0) (src 1) (src 2)) := rfl
  rw [hwindow]
  by_cases hthree : 3 ≤ n
  · have hload : load src 0 n = src 0::src 1::src 2::load src 3 (n-3) := by
      conv_lhs => rw [← Nat.add_sub_cancel' hthree, load_add]
      rfl
    rw [hload] at hplain ⊢
    exact putOut_plain hn (Nat.le_add_left m 3) window_lt hplain
  · have hshort : rbsp (load src 0 n) <+: [src 0, src 1] := by
      interval_cases n
      · exact ⟨_, rfl⟩
      · exact ⟨[src 1], by simp [load, rbsp]⟩
      · exact ⟨[], by simp [load, rbsp]⟩
    exact hshort.trans (putOut_second window_lt)

/-- A byte put in and followed by `00 03`. -/
example : rbsp [0, 0, 3, 0, 3, 7, 8] = [0, 0, 0, 3, 7, 8] ∧
    H264_unemulate (store zeroed 0 [0, 0, 3, 0, 3, 7, 8]) 7 = [0, 0, 0, 7, 8] := by decide

/-! ## The parts of a longer unit -/

theorem rbsp_first (a : UInt8) (bs : Bytes) : ∃ rest, rbsp (a::bs) = a::rest := by
  rw [rbsp.eq_def]
  split
  · rename_i heq
    cases heq
    exact ⟨_, rfl⟩
  · rename_i heq
    cases heq
    exact ⟨_, rfl⟩
  · rename_i heq
    cases heq

theorem rbsp_second (a b : UInt8) (bs : Bytes) : ∃ rest, rbsp (a::b::bs) = a::b::rest := by
  cases bs with
  | nil => exact ⟨[], rbsp_short⟩
  | cons c bs =>
    by_cases h : a = 0 ∧ b = 0 ∧ c = 3
    · rcases h with ⟨rfl, rfl, rfl⟩
      exact ⟨rbsp bs, rfl⟩
    · rcases rbsp_first b (c::bs) with ⟨rest, hrest⟩
      exact ⟨rest, by rw [rbsp_cons h, hrest]⟩

theorem rbsp_append (xs ys : Bytes) : rbsp xs <+: rbsp (xs++ys) := by
  match xs with
  | [] => exact ⟨_, rfl⟩
  | [a] =>
    rcases rbsp_first a ys with ⟨rest, hrest⟩
    exact ⟨rest, by rw [List.singleton_append, hrest]; simp [rbsp]⟩
  | [a, b] =>
    rcases rbsp_second a b ys with ⟨rest, hrest⟩
    exact ⟨rest, by rw [rbsp_short]; exact hrest.symm⟩
  | a::b::c::xs =>
    by_cases h : a = 0 ∧ b = 0 ∧ c = 3
    · rcases h with ⟨rfl, rfl, rfl⟩
      rcases rbsp_append xs ys with ⟨rest, hrest⟩
      exact ⟨rest, by simp [rbsp, ← hrest]⟩
    · rcases rbsp_append (b::c::xs) ys with ⟨rest, hrest⟩
      refine ⟨rest, ?_⟩
      rw [List.cons_append, List.cons_append, List.cons_append, rbsp_cons h, rbsp_cons h,
        List.cons_append, hrest]
      rfl

theorem plain_append {xs ys : Bytes} (hplain : Plain (xs++ys)) : Plain xs := by
  match xs with
  | [] => trivial
  | [a] => simp [Plain]
  | [a, b] => simp [Plain]
  | a::b::c::xs =>
    by_cases h : a = 0 ∧ b = 0 ∧ c = 3
    · rcases h with ⟨rfl, rfl, rfl⟩
      refine ⟨fun rest hrest => hplain.1 (rest++ys) (by rw [hrest]; rfl), ?_⟩
      exact plain_append hplain.2
    · have hrest : Plain ((b::c::xs)++ys) := (plain_cons h).mp hplain
      exact (plain_cons h).mpr (plain_append hrest)

theorem plain_of_not_mem {bs : Bytes} (h : 3 ∉ bs) : Plain bs := by
  match bs with
  | [] => trivial
  | [a] => simp [Plain]
  | [a, b] => simp [Plain]
  | a::b::c::bs =>
    have hthree : ¬ (a = 0 ∧ b = 0 ∧ c = 3) := fun heq => h (by simp [heq.2.2])
    exact (plain_cons hthree).mpr (plain_of_not_mem fun hmem => h (List.mem_cons_of_mem a hmem))

theorem rbsp_length (bs : Bytes) : 2*bs.length ≤ 3*(rbsp bs).length := by
  match bs with
  | [] => simp
  | [a] => simp [rbsp]
  | [a, b] => simp [rbsp]
  | a::b::c::bs =>
    by_cases h : a = 0 ∧ b = 0 ∧ c = 3
    · rcases h with ⟨rfl, rfl, rfl⟩
      have ih := rbsp_length bs
      simp only [rbsp, List.length_cons]
      omega
    · have ih := rbsp_length (b::c::bs)
      rw [rbsp_cons h]
      simp only [List.length_cons] at ih ⊢
      omega

/-! ## The header -/

namespace SliceHeader

variable (sps : SPS) (iType : ℕ) (h : SliceHeader) (colour_plane_id : ℕ)

def colourBits : List Bool :=
  if sps.residual_colour_transform_flag ≠ 0 then ofNat 2 colour_plane_id else []

def fieldBits : List Bool := if sps.frame_mbs_only_flag = 0 then ofNat 1 h.field_pic_flag else []

def bottomBits : List Bool := if h.field_pic_flag ≠ 0 then ofNat 1 h.bottom_field_flag else []

def idrBits : List Bool := if iType = NAL_UNIT_TYPE_SLICE_IDR then ue h.idr_pic_id else []

def lsbBits : List Bool :=
  if sps.pic_order_cnt_type = 0 then
    ofNat (sps.log2_max_pic_order_cnt_lsb_minus4+4) h.pic_order_cnt_lsb
  else []

/-- The header of a slice of type `iType` up to the count. -/
def bits : List Bool :=
  ue h.first_mb_in_slice ++ (ue h.slice_type ++ (ue h.pic_parameter_set ++
    (colourBits sps colour_plane_id ++ (ofNat (sps.log2_max_frame_num_minus4+4) h.frame_num ++
      (h.fieldBits sps ++ (h.bottomBits ++ (h.idrBits iType ++ h.lsbBits sps)))))))

/-- Each value fits in its field, and a flag that is not sent is zero. -/
structure Fits : Prop where
  first_mb_in_slice : h.first_mb_in_slice+1 < 2^32
  slice_type : h.slice_type+1 < 2^32
  pic_parameter_set : h.pic_parameter_set+1 < 2^32
  colour_plane_id : colour_plane_id < 2^2
  frame_num : h.frame_num < 2^(sps.log2_max_frame_num_minus4+4)
  field_pic_flag : h.field_pic_flag < 2^1
  frame : sps.frame_mbs_only_flag ≠ 0 → h.field_pic_flag = 0
  bottom_field_flag : h.bottom_field_flag < 2^1
  top : h.field_pic_flag = 0 → h.bottom_field_flag = 0
  idr_pic_id : h.idr_pic_id+1 < 2^32
  pic_order_cnt_lsb : h.pic_order_cnt_lsb < 2^(sps.log2_max_pic_order_cnt_lsb_minus4+4)

/-- The slice once the header has been read into the record. -/
def into (nal : NAL_t) : SliceHeader :=
  { h with
    idr_pic_id :=
      if nal.nal_unit_type = NAL_UNIT_TYPE_SLICE_IDR then h.idr_pic_id else nal.idr_pic_id
    pic_order_cnt_lsb :=
      if nal.pic_order_cnt_type = 0 then h.pic_order_cnt_lsb else nal.pic_order_cnt_lsb }

end SliceHeader

/-- The widths of fields that a parameter set can declare. -/
structure Widths (sps : SPS) : Prop where
  frame_num : sps.log2_max_frame_num_minus4 ≤ 12
  pic_order_cnt_lsb : sps.log2_max_pic_order_cnt_lsb_minus4 ≤ 12

/-- Wherever `bs` comes next, `x` takes it and gives `v`. -/
def Parses {α : Type} (x : Reading α) (bs : List Bool) (v : α) : Prop :=
  ∀ o q rest, o.Next q (bs++rest) → ∃ o', x.run o = .ok v o' ∧ o'.Next (q+bs.length) rest

variable {α β : Type} {xs ys : List Bool}

theorem parses_pure (v : α) : Parses (pure v) [] v := fun o _ _ h => ⟨o, rfl, h⟩

theorem parses_bind {x : Reading α} {f : α → Reading β} {v : α} {w : β} (hx : Parses x xs v)
    (hf : Parses (f v) ys w) : Parses (x >>= f) (xs++ys) w := by
  intro o q rest h
  rw [List.append_assoc] at h
  rcases hx o q (ys++rest) h with ⟨o', hrun, h'⟩
  rcases hf o' (q+xs.length) rest h' with ⟨o'', hrun', h''⟩
  refine ⟨o'', ?_, ?_⟩
  · rw [run_bind_of_ok hrun, hrun']
  · rw [List.length_append, ← Nat.add_assoc]
    exact h''

theorem parses_read {n v : ℕ} (hn : n ≤ 32) (hv : v < 2^n) : Parses (read n) (ofNat n v) v := by
  intro o q rest h
  have hmod : n%2^8 = n := Nat.mod_eq_of_lt (by omega)
  rcases h.read_field hn hv with ⟨hvalue, hnext⟩
  refine ⟨(o.read n).2, ?_, by rwa [ofNat_length]⟩
  rw [read, run_get_bind, hmod, hvalue]
  rfl

theorem parses_uev {v : ℕ} (hv : v+1 < 2^32) : Parses read_uev (ue v) v := by
  intro o q rest h
  rcases h.read_uev hv with ⟨o', hread, hnext⟩
  refine ⟨o', ?_, hnext⟩
  rw [read_uev, run_get_bind, run_ofExcept_bind hread]
  rfl

theorem parses_discard {x : Reading α} {v : α} (hx : Parses x xs v) :
    Parses (discard x) xs () := by
  intro o q rest h
  rcases hx o q rest h with ⟨o', hrun, h'⟩
  refine ⟨o', ?_, h'⟩
  show (x >>= fun _ => pure ()).run _ = _
  rw [run_bind_of_ok hrun]
  rfl

theorem parses_given {c : Prop} [Decidable c] {x : Reading Unit} (hx : c → Parses x xs ()) :
    Parses (given c x) (if c then xs else []) () := by
  rw [given]
  by_cases h : c
  · rw [if_pos h, if_pos h]
    exact hx h
  · rw [if_neg h, if_neg h]
    exact parses_pure ()

theorem parses_readIf {c : Prop} [Decidable c] {x : Reading ℕ} {v iDefault : ℕ}
    (hx : c → Parses x xs v) :
    Parses (readIf c x iDefault) (if c then xs else []) (if c then v else iDefault) := by
  rw [readIf]
  by_cases h : c
  · rw [if_pos h, if_pos h, if_pos h]
    exact hx h
  · rw [if_neg h, if_neg h, if_neg h]
    exact parses_pure iDefault

/-- A value that is zero when it is not sent. -/
theorem parses_zero {c : Prop} [Decidable c] {x : Reading ℕ} {v : ℕ} (hx : c → Parses x xs v)
    (hzero : ¬ c → v = 0) : Parses (readIf c x 0) (if c then xs else []) v := by
  have hvalue : (if c then v else 0) = v := by
    by_cases h : c
    · rw [if_pos h]
    · rw [if_neg h, hzero h]
  have hread : Parses (readIf c x 0) (if c then xs else []) (if c then v else 0) :=
    parses_readIf hx
  rwa [hvalue] at hread

variable {nal : NAL_t} {colour_plane_id : ℕ}

theorem parseSlice_parses {h : SliceHeader} (hfits : h.Fits nal.toSPS colour_plane_id)
    (hwidths : Widths nal.toSPS) :
    Parses (parseSlice nal) (h.bits nal.toSPS nal.nal_unit_type colour_plane_id) (h.into nal) := by
  have hframe : nal.log2_max_frame_num_minus4+4 ≤ 32 := by
    have hle := hwidths.frame_num
    omega
  have hlsb : nal.log2_max_pic_order_cnt_lsb_minus4+4 ≤ 32 := by
    have hle := hwidths.pic_order_cnt_lsb
    omega
  rw [parseSlice, SliceHeader.bits, ← List.append_nil (h.lsbBits nal.toSPS)]
  apply parses_bind (parses_uev hfits.first_mb_in_slice)
  apply parses_bind (parses_uev hfits.slice_type)
  apply parses_bind (parses_uev hfits.pic_parameter_set)
  apply parses_bind (parses_given fun _ => parses_discard (parses_read (by decide)
    hfits.colour_plane_id))
  apply parses_bind (parses_read hframe hfits.frame_num)
  apply parses_bind (parses_zero (fun _ => parses_read (by decide) hfits.field_pic_flag) hfits.frame)
  apply parses_bind (parses_zero (fun _ => parses_read (by decide) hfits.bottom_field_flag)
    fun hflag => hfits.top (not_not.mp hflag))
  apply parses_bind (parses_readIf fun _ => parses_uev hfits.idr_pic_id)
  apply parses_bind (parses_readIf fun _ => parses_read hlsb hfits.pic_order_cnt_lsb)
  exact parses_pure _

/-! ## Slices -/

/-- A unit in memory, and what its header says. -/
structure Slice where
  pBuffer : Memory
  iSize : ℕ
  header : SliceHeader
  colour_plane_id : ℕ

namespace Slice

def payload (s : Slice) : Bytes :=
  load s.pBuffer (H264_header_size s.pBuffer) (s.iSize-H264_header_size s.pBuffer)

/-- The bits of the header under a parameter set. -/
def bits (s : Slice) (sps : SPS) : List Bool :=
  s.header.bits sps (H264_NAL_type s.pBuffer) s.colour_plane_id

/-- The record when the header of the unit is parsed. -/
def headed (s : Slice) (nal : NAL_t) : NAL_t :=
  { nal with
    nal_unit_type := H264_NAL_type s.pBuffer
    nal_ref_idc := H264_NAL_idc s.pBuffer
    svc := 0 }

/-- Some beginning of the unit that holds the header has no `03` to be dropped by mistake. -/
def Legible (s : Slice) (sps : SPS) : Prop :=
  ∃ n, s.bits sps <+: ofBytes (rbsp (s.payload.take n)) ∧ Plain (s.payload.take n)

end Slice

variable {sps : SPS}

theorem ue_short_length {v : ℕ} (hv : v+1 < 2^32) : (ue v).length ≤ 63 := by
  have hshort := ue_short hv
  rw [ue_length]
  omega

theorem header_length {h : SliceHeader} {iType : ℕ} (hfits : h.Fits sps colour_plane_id)
    (hwidths : Widths sps) : (h.bits sps iType colour_plane_id).length ≤ 288 := by
  have h1 := ue_short_length hfits.first_mb_in_slice
  have h2 := ue_short_length hfits.slice_type
  have h3 := ue_short_length hfits.pic_parameter_set
  have h4 : (SliceHeader.colourBits sps colour_plane_id).length ≤ 2 := by
    rw [SliceHeader.colourBits]
    split_ifs <;> simp
  have h5 : (h.fieldBits sps).length ≤ 1 := by
    rw [SliceHeader.fieldBits]
    split_ifs <;> simp
  have h6 : h.bottomBits.length ≤ 1 := by
    rw [SliceHeader.bottomBits]
    split_ifs <;> simp
  have h7 : (h.idrBits iType).length ≤ 63 := by
    rw [SliceHeader.idrBits]
    split_ifs
    · exact ue_short_length hfits.idr_pic_id
    · exact Nat.zero_le 63
  have h8 : (h.lsbBits sps).length ≤ 16 := by
    have hle := hwidths.pic_order_cnt_lsb
    rw [SliceHeader.lsbBits]
    split_ifs
    · rw [ofNat_length]
      omega
    · exact Nat.zero_le 16
  have h9 := hwidths.frame_num
  rw [SliceHeader.bits]
  simp only [List.length_append, ofNat_length]
  omega

theorem unemulate_length (src : Memory) (m : ℕ) : (H264_unemulate src m).length ≤ m+3 := by
  have hloop : ∀ fuel i iVal, (unemulateLoop src m fuel i iVal).1.length ≤ fuel := by
    intro fuel
    induction fuel with
    | zero => exact fun _ _ => Nat.zero_le 0
    | succ fuel ih =>
      intro i iVal
      rw [unemulateLoop]
      by_cases hi : i < m
      · rw [if_pos hi]
        exact Nat.succ_le_succ (ih _ _)
      · rw [if_neg hi]
        exact Nat.zero_le _
  rw [H264_unemulate, List.length_append]
  exact Nat.add_le_add_right (hloop m 3 _) 3

/-- The buffer on the stack, read from its start. -/
theorem next_new (pStack : Memory) {bytes : Bytes} {bs rest : List Bool}
    (hbits : ofBytes bytes = bs++rest) (hsize : 8*bytes.length < 2^64) :
    (IBits.new (store pStack 0 bytes) bytes.length).Next 0 (bs++rest) where
  ahead := by
    have hstart : (IBits.new pStack bytes.length).Ahead (8*0) [] := IBits.ahead_new ..
    rw [← hbits]
    exact IBits.ahead_store hstart bytes
  inside := by
    rw [← hbits, ofBytes_length, Nat.zero_add]
    exact Nat.le_refl (8*bytes.length)
  size := hsize

/-- The header is in the first bytes, which is all that is looked at. -/
theorem legible_front {s : Slice} (hfits : s.header.Fits sps s.colour_plane_id)
    (hwidths : Widths sps) (hlegible : s.Legible sps) :
    ∃ n, n ≤ min s.payload.length 324 ∧ s.bits sps <+: ofBytes (rbsp (s.payload.take n)) ∧
      Plain (s.payload.take n) := by
  rcases hlegible with ⟨n, hbits, hplain⟩
  by_cases hn : n ≤ min s.payload.length 324
  · exact ⟨n, hn, hbits, hplain⟩
  · by_cases hlong : s.payload.length ≤ 324
    · have hall : s.payload.take n = s.payload.take s.payload.length := by
        rw [List.take_length, List.take_of_length_le (by omega)]
      rw [hall] at hbits hplain
      exact ⟨s.payload.length, le_min le_rfl hlong, hbits, hplain⟩
    · have hsplit : s.payload.take n = s.payload.take 324 ++ (s.payload.take n).drop 324 := by
        conv_lhs => rw [← List.take_append_drop 324 (s.payload.take n), List.take_take]
        rw [min_eq_left (by omega)]
      rw [hsplit] at hbits hplain
      have hfront : ofBytes (rbsp (s.payload.take 324)) <+:
          ofBytes (rbsp (s.payload.take 324 ++ (s.payload.take n).drop 324)) := by
        rcases rbsp_append (s.payload.take 324) ((s.payload.take n).drop 324) with ⟨rest, hrest⟩
        exact ⟨ofBytes rest, by rw [← hrest, ofBytes_append]⟩
      have hheader : (s.bits sps).length ≤ 288 := header_length hfits hwidths
      have hrbsp := rbsp_length (s.payload.take 324)
      rw [List.length_take_of_le (by omega)] at hrbsp
      refine ⟨324, le_min (by omega) le_rfl, ?_, plain_append hplain⟩
      apply List.prefix_of_prefix_length_le hbits hfront
      rw [ofBytes_length]
      omega

/-- The header is read as it stands in the unit. -/
theorem H264_parse_SLICE_legible {s : Slice} (pStack : Memory) (hsize : s.iSize < 2^32)
    (hheader : H264_header_size s.pBuffer ≤ s.iSize)
    (hfits : s.header.Fits nal.toSPS s.colour_plane_id) (hwidths : Widths nal.toSPS)
    (hlegible : s.Legible nal.toSPS) :
    H264_parse_SLICE pStack s.pBuffer s.iSize (s.headed nal) =
      .ok { s.headed nal with toSliceHeader := s.header.into (s.headed nal) } := by
  have hfits' : s.header.Fits (s.headed nal).toSPS s.colour_plane_id := hfits
  have hwidths' : Widths (s.headed nal).toSPS := hwidths
  have hrest : uint32 (s.iSize-H264_header_size s.pBuffer) =
      s.iSize-H264_header_size s.pBuffer := by
    rw [← Nat.cast_sub hheader]
    exact uint32_of_range _ (by omega)
  rcases legible_front hfits hwidths hlegible with ⟨n, hn, hbits, hplain⟩
  rw [Slice.payload, load_length] at hn
  rw [Slice.payload, load_take _ _ _ _ (hn.trans (Nat.min_le_left _ _))] at hbits hplain
  have hshift : load (fun i => s.pBuffer (H264_header_size s.pBuffer+i)) 0 n = _ :=
    load_shift s.pBuffer (H264_header_size s.pBuffer) 0 n
  rw [Nat.add_zero] at hshift
  rw [← hshift] at hbits hplain
  rcases unemulate_plain hn hplain with ⟨more, hmore⟩
  rcases hbits with ⟨rest, hbits⟩
  have hlength := unemulate_length (fun i => s.pBuffer (H264_header_size s.pBuffer+i))
    (min (s.iSize-H264_header_size s.pBuffer) 324)
  have hall : ofBytes (H264_unemulate (fun i => s.pBuffer (H264_header_size s.pBuffer+i))
      (min (s.iSize-H264_header_size s.pBuffer) 324)) = s.bits nal.toSPS ++ (rest ++ ofBytes more) := by
    rw [← hmore, ofBytes_append, ← hbits, List.append_assoc]
  have hnext := next_new pStack hall (by omega)
  rcases parseSlice_parses hfits' hwidths' _ 0 _ hnext with ⟨o', hrun, -⟩
  rw [H264_parse_SLICE, emulation, hrest, hrun, stored]

end Sirannon.H264
