import Sirannon.TSDemultiplexer

/-!
# How far the tables make one read

The fields of a table say where the next ones are. A table lies inside its
slice when every field that is looked at does, up to the one that ends the
parsing.
-/

set_option autoImplicit false

namespace Sirannon.Demultiplexing
open Bits BitString ByteMemory Media StateError

/-- The `n` bits at bit `off`, as a number. -/
def field (buf : Memory) (off n : ℕ) : ℕ := value (bits buf off n)

/-! ## The reader -/

/-- The reader stands at bit `p` and read nothing behind it. -/
structure Reader.At (r : Reader) (buf : Memory) (p : ℕ) : Prop where
  loaded : r.bits.Loaded
  pos : r.bits.pos = p
  buf : r.bits.buf = buf
  extent : 8*r.extent < p+8

/-- The reader read all bytes up to bit `p`. -/
structure Reader.ReadTo (r : Reader) (buf : Memory) (p : ℕ) : Prop extends r.At buf p where
  all : p ≤ 8*r.extent

theorem loaded_end {b : IBits} (h : b.Loaded) : b.pos ≤ 8*b.v ∧ 8*b.v < b.pos+8 := by
  have hlt := h.1
  have hv := h.2
  rw [IBits.pos]
  omega

theorem reader_new (buf : Memory) (iSize : ℤ) : (Reader.new buf iSize).At buf 0 := by
  rcases IBits.ahead_new buf iSize.toNat with ⟨hloaded, hpos, -⟩
  exact ⟨hloaded, hpos, rfl, by simp [Reader.new]⟩

theorem Reader.At.read {r : Reader} {buf : Memory} {p : ℕ} (h : r.At buf p) (n q : ℕ)
    (hn : 0 < n ∧ n ≤ 32 ∧ q = p+n) : ∃ r', r.read n = (field buf p n, r') ∧ r'.ReadTo buf q := by
  rcases hn with ⟨h₀, hn, rfl⟩
  rcases IBits.read_spec r.bits n h.loaded hn with ⟨hval, hloaded, hpos, hbuf, -⟩
  rw [h.pos] at hpos
  have hend := loaded_end hloaded
  have hextent := h.extent
  refine ⟨(r.read n).2, ?_, ⟨⟨hloaded, hpos, hbuf.trans h.buf, ?_⟩, ?_⟩⟩
  · rw [Reader.read, hval, h.pos, h.buf]
    rfl
  · show 8*max r.extent (r.bits.read n).2.v < p+n+8
    omega
  · show p+n ≤ 8*max r.extent (r.bits.read n).2.v
    omega

theorem Reader.At.seek {r : Reader} {buf : Memory} {p : ℕ} (h : r.At buf p) (n q : ℕ)
    (hq : q = p+8*n) : (r.seek n).At buf q := by
  subst hq
  rcases IBits.seek_spec r.bits n h.loaded with ⟨hloaded, hpos, hbuf, -⟩
  have hextent := h.extent
  refine ⟨hloaded, hpos.trans (by rw [h.pos]), hbuf.trans h.buf, ?_⟩
  show 8*r.extent < p+8*n+8
  omega

/-- How far a reader read that stands at bit `p`. -/
theorem extent_le {r : Reader} {buf : Memory} {p : ℕ} {k : ℤ} (h : r.ReadTo buf p)
    (hp : 8*k < p+8) (hk : p ≤ 8*k) (n : ℤ) : (r.extent : ℤ) ≤ n ↔ k ≤ n := by
  have h₀ := h.extent
  have h₁ := h.all
  have heq : (r.extent : ℤ) = k := by omega
  rw [heq]

/-! ## The channels of a PAT -/

/-- `k` entries follow at byte `off`, and the checksum. -/
def ChannelsInside (buf : Memory) (n : ℤ) : ℕ → ℕ → Prop
  | off, 0 => (off+4 : ℕ) ≤ n
  | off, k+1 => (off+3 : ℕ) ≤ n ∧
      (field buf (8*off+16) 3 = 0x07 → ChannelsInside buf n (off+4) k)

def PATInside (iID : ℤ) (buf : Memory) (n : ℤ) : Prop :=
  1 ≤ n ∧ (field buf 0 8 = 0 →
  2 ≤ n ∧ (field buf 8 8 = 0 →
  3 ≤ n ∧ (field buf 16 4 = 0xB →
  4 ≤ n ∧ (5 ≤ field buf 20 12 →
  6 ≤ n ∧ ((iID < 0 ∨ iID = field buf 32 16) →
  7 ≤ n ∧ (field buf 48 2 = 0x03 →
  9 ≤ n ∧ ChannelsInside buf n 9 ((field buf 20 12-6)/4)))))))

theorem channels_first {buf : Memory} {n : ℤ} {off k : ℕ} (h : ChannelsInside buf n off k) :
    (off+3 : ℕ) ≤ n := by
  cases k with
  | zero =>
    have : ((off+4 : ℕ) : ℤ) ≤ n := h
    omega
  | succ k => exact h.1

theorem parseChannels_extent {buf : Memory} {r : Reader} {off : ℕ} (fuel iLength : ℕ)
    (s : TSDemultiplexer) (n : ℤ) (h : r.At buf (8*off)) (hfuel : iLength < 4*fuel) :
    ((parseChannels fuel iLength r s).1.extent : ℤ) ≤ n ↔
      ChannelsInside buf n off ((iLength-1)/4) := by
  induction fuel generalizing iLength r s off with
  | zero => omega
  | succ fuel ih =>
    rw [parseChannels]
    by_cases hmore : 4 < iLength
    · rcases h.read 16 (8*off+16) (by omega) with ⟨r₁, h₁, hr₁⟩
      rcases hr₁.read 3 (8*off+19) (by omega) with ⟨r₂, h₂, hr₂⟩
      rcases hr₂.read 13 (8*(off+4)) (by omega) with ⟨r₃, h₃, hr₃⟩
      have hcount : (iLength-1)/4 = (iLength-4-1)/4+1 := by omega
      simp only [if_pos hmore, h₁, h₂, h₃]
      rw [hcount, ChannelsInside]
      by_cases hmark : field buf (8*off+16) 3 = 0x07
      · rw [if_neg (not_not.mpr hmark)]
        rw [ih (iLength-4) _ hr₃.toAt (by omega)]
        constructor
        · intro hinside
          have hfirst := channels_first hinside
          exact ⟨by push_cast at hfirst ⊢; omega, fun _ => hinside⟩
        · intro hinside
          exact hinside.2 hmark
      · rw [if_pos hmark, extent_le (k := (off+3 : ℕ)) hr₂ (by omega) (by omega)]
        constructor
        · intro hinside
          exact ⟨hinside, fun h => absurd h hmark⟩
        · intro hinside
          exact hinside.1
    · rcases h.read 32 (8*off+32) (by omega) with ⟨r₁, h₁, hr₁⟩
      have hcount : (iLength-1)/4 = 0 := by omega
      simp only [if_neg hmore, h₁]
      rw [hcount, ChannelsInside]
      exact extent_le hr₁ (by omega) (by omega) n

/-- A test that fails ends the parsing. -/
theorem inside_stop {P Q : Prop} {x k n : ℤ} (h : ¬ P) (hx : x ≤ n ↔ k ≤ n) :
    x ≤ n ↔ k ≤ n ∧ (P → Q) := by
  rw [hx]
  constructor
  · intro hk
    exact ⟨hk, fun hP => absurd hP h⟩
  · intro hk
    exact hk.1

/-- Behind a test that passes the parsing goes on. -/
theorem inside_more {P Q : Prop} {x k n : ℤ} (h : P) (hQ : Q → k ≤ n) (hx : x ≤ n ↔ Q) :
    x ≤ n ↔ k ≤ n ∧ (P → Q) := by
  rw [hx]
  constructor
  · intro q
    exact ⟨hQ q, fun _ => q⟩
  · intro hk
    exact hk.2 h

theorem setID_iff (s : TSDemultiplexer) (iID : ℕ) :
    (s.setID iID).iID ≠ iID ↔ ¬ (s.iID < 0 ∨ s.iID = iID) := by
  rw [TSDemultiplexer.setID]
  by_cases h : s.iID < 0
  · simp [h]
  · simp [h]

theorem parsePAT_extent (s : TSDemultiplexer) (buf : Memory) (n : ℤ) :
    ((s.parsePAT buf n).1.extent : ℤ) ≤ n ↔ PATInside s.iID buf n := by
  rcases (reader_new buf n).read 8 8 (by omega) with ⟨r₁, h₁, hr₁⟩
  rcases hr₁.read 8 16 (by omega) with ⟨r₂, h₂, hr₂⟩
  rcases hr₂.read 4 20 (by omega) with ⟨r₃, h₃, hr₃⟩
  rcases hr₃.read 12 32 (by omega) with ⟨r₄, h₄, hr₄⟩
  rcases hr₄.read 16 48 (by omega) with ⟨r₅, h₅, hr₅⟩
  rcases hr₅.read 2 50 (by omega) with ⟨r₆, h₆, hr₆⟩
  rcases hr₆.read 5 55 (by omega) with ⟨r₇, h₇, hr₇⟩
  rcases hr₇.read 1 56 (by omega) with ⟨r₈, h₈, hr₈⟩
  rcases hr₈.read 8 64 (by omega) with ⟨r₉, h₉, hr₉⟩
  rcases hr₉.read 8 72 (by omega) with ⟨r₁₀, h₁₀, hr₁₀⟩
  simp only [TSDemultiplexer.parsePAT, h₁, h₂, h₃, h₄, h₅, h₆, h₇, h₈, h₉, h₁₀]
  rw [PATInside]
  by_cases hpointer : field buf 0 8 = 0
  swap
  · rw [if_pos hpointer]
    exact inside_stop hpointer (extent_le hr₁ (by omega) (by omega) n)
  rw [if_neg (not_not.mpr hpointer)]
  apply inside_more hpointer (by omega)
  by_cases htable : field buf 8 8 = 0
  swap
  · rw [if_pos htable]
    exact inside_stop htable (extent_le hr₂ (by omega) (by omega) n)
  rw [if_neg (not_not.mpr htable)]
  apply inside_more htable (by omega)
  by_cases hsyn : field buf 16 4 = 0xB
  swap
  · rw [if_pos hsyn]
    exact inside_stop hsyn (extent_le hr₃ (by omega) (by omega) n)
  rw [if_neg (not_not.mpr hsyn)]
  apply inside_more hsyn (by omega)
  by_cases hlength : field buf 20 12 < 5
  · rw [if_pos hlength]
    exact inside_stop (not_le.mpr hlength) (extent_le hr₄ (by omega) (by omega) n)
  rw [if_neg hlength]
  apply inside_more (not_lt.mp hlength) (by omega)
  by_cases hID : s.iID < 0 ∨ s.iID = field buf 32 16
  swap
  · rw [if_pos ((setID_iff s _).mpr hID)]
    exact inside_stop hID (extent_le hr₅ (by omega) (by omega) n)
  rw [if_neg fun h => (setID_iff s _).mp h hID]
  apply inside_more hID (by omega)
  by_cases hmark : field buf 48 2 = 0x03
  swap
  · rw [if_pos hmark]
    exact inside_stop hmark (extent_le hr₆ (by omega) (by omega) n)
  rw [if_neg (not_not.mpr hmark)]
  apply inside_more hmark (by omega)
  have hat : r₁₀.At buf (8*9) := hr₁₀.toAt
  have hchannels := parseChannels_extent (field buf 20 12)
    (field buf 20 12-5) { s.setID (field buf 32 16) with
      iVersion := field buf 50 5 } n hat (by omega)
  rw [hchannels]
  have hcount : field buf 20 12-5-1 = field buf 20 12-6 := Nat.sub_sub _ _ _
  rw [hcount]
  constructor
  · intro hinside
    have hfirst := channels_first hinside
    exact ⟨by push_cast at hfirst; omega, hinside⟩
  · intro hinside
    exact hinside.2

/-! ## The streams of a PMT -/

/-- `iLength` bytes of the section are left at byte `off`. -/
inductive StreamsInside (buf : Memory) (n : ℤ) : ℕ → ℤ → Prop
  | checksum {off : ℕ} {iLength : ℤ} (h : iLength ≤ 4) (hn : (off+4 : ℕ) ≤ n) :
      StreamsInside buf n off iLength
  | unmarked {off : ℕ} {iLength : ℤ} (h : 4 < iLength) (hmark : field buf (8*off+8) 3 ≠ 0x07)
      (hn : (off+2 : ℕ) ≤ n) : StreamsInside buf n off iLength
  | uninformed {off : ℕ} {iLength : ℤ} (h : 4 < iLength) (hmark : field buf (8*off+8) 3 = 0x07)
      (hinfo : field buf (8*off+24) 6 ≠ 0x3C) (hn : (off+4 : ℕ) ≤ n) :
      StreamsInside buf n off iLength
  | entry {off : ℕ} {iLength : ℤ} (h : 4 < iLength) (hmark : field buf (8*off+8) 3 = 0x07)
      (hinfo : field buf (8*off+24) 6 = 0x3C)
      (hrest : StreamsInside buf n (off+5+field buf (8*off+30) 10)
        (iLength-(5+field buf (8*off+30) 10))) : StreamsInside buf n off iLength

def PMTInside (iChannel : ℤ) (buf : Memory) (n : ℤ) : Prop :=
  1 ≤ n ∧ (field buf 0 8 = 0 →
  2 ≤ n ∧ (field buf 8 8 = 0x02 →
  3 ≤ n ∧ (field buf 16 4 = 0x0B →
  4 ≤ n ∧ (5 ≤ field buf 20 12 →
  6 ≤ n ∧ (iChannel = field buf 32 16 →
  7 ≤ n ∧ (field buf 48 2 = 0x3 →
  12 ≤ n ∧ (field buf 88 6 = 0x3C →
  13 ≤ n ∧ (0 ≤ (field buf 20 12 : ℤ)-(9+field buf 94 10) →
  StreamsInside buf n (13+field buf 94 10) (field buf 20 12-(9+field buf 94 10))))))))))

theorem streams_first {buf : Memory} {n iLength : ℤ} {off : ℕ}
    (h : StreamsInside buf n off iLength) : (off+2 : ℕ) ≤ n := by
  induction h with
  | checksum h hn => omega
  | unmarked h hmark hn => exact hn
  | uninformed h hmark hinfo hn => omega
  | entry h hmark hinfo hrest ih => omega

theorem streams_unmarked {buf : Memory} {n iLength : ℤ} {off : ℕ} (h : 4 < iLength)
    (hmark : field buf (8*off+8) 3 ≠ 0x07) :
    StreamsInside buf n off iLength ↔ ((off+2 : ℕ) : ℤ) ≤ n := by
  constructor
  · exact streams_first
  · exact .unmarked h hmark

theorem streams_uninformed {buf : Memory} {n iLength : ℤ} {off : ℕ} (h : 4 < iLength)
    (hmark : field buf (8*off+8) 3 = 0x07) (hinfo : field buf (8*off+24) 6 ≠ 0x3C) :
    StreamsInside buf n off iLength ↔ ((off+4 : ℕ) : ℤ) ≤ n := by
  constructor
  · intro hinside
    cases hinside with
    | checksum h' hn => exact hn
    | unmarked h' hmark' hn => exact absurd hmark hmark'
    | uninformed h' hmark' hinfo' hn => exact hn
    | entry h' hmark' hinfo' hrest => exact absurd hinfo' hinfo
  · exact .uninformed h hmark hinfo

theorem streams_entry {buf : Memory} {n iLength : ℤ} {off : ℕ} (h : 4 < iLength)
    (hmark : field buf (8*off+8) 3 = 0x07) (hinfo : field buf (8*off+24) 6 = 0x3C) :
    StreamsInside buf n off iLength ↔ StreamsInside buf n (off+5+field buf (8*off+30) 10)
      (iLength-(5+field buf (8*off+30) 10)) := by
  constructor
  · intro hinside
    cases hinside with
    | checksum h' hn => omega
    | unmarked h' hmark' hn => exact absurd hmark hmark'
    | uninformed h' hmark' hinfo' hn => exact absurd hinfo hinfo'
    | entry h' hmark' hinfo' hrest => exact hrest
  · exact .entry h hmark hinfo

theorem streams_checksum {buf : Memory} {n iLength : ℤ} {off : ℕ} (h : iLength ≤ 4) :
    StreamsInside buf n off iLength ↔ ((off+4 : ℕ) : ℤ) ≤ n := by
  constructor
  · intro hinside
    cases hinside with
    | checksum h' hn => exact hn
    | unmarked h' hmark hn => omega
    | uninformed h' hmark hinfo hn => omega
    | entry h' hmark hinfo hrest => omega
  · exact .checksum h

theorem parseStreams_extent {buf : Memory} {r : Reader} {off : ℕ} (iPMT fuel : ℕ) (iLength : ℤ)
    (s : TSDemultiplexer) (n : ℤ) (h : r.At buf (8*off)) (hpos : 0 < fuel)
    (hfuel : iLength < 5*fuel) :
    ((parseStreams iPMT fuel iLength r s).1.extent : ℤ) ≤ n ↔ StreamsInside buf n off iLength := by
  induction fuel generalizing iLength r s off with
  | zero => omega
  | succ fuel ih =>
    rw [parseStreams]
    by_cases hmore : 4 < iLength
    · rcases h.read 8 (8*off+8) (by omega) with ⟨r₁, h₁, hr₁⟩
      rcases hr₁.read 3 (8*off+11) (by omega) with ⟨r₂, h₂, hr₂⟩
      rcases hr₂.read 13 (8*off+24) (by omega) with ⟨r₃, h₃, hr₃⟩
      rcases hr₃.read 6 (8*off+30) (by omega) with ⟨r₄, h₄, hr₄⟩
      rcases hr₄.read 10 (8*off+40) (by omega) with ⟨r₅, h₅, hr₅⟩
      simp only [if_pos hmore, h₁, h₂, h₃, h₄, h₅]
      by_cases hmark : field buf (8*off+8) 3 = 0x07
      · rw [if_neg (not_not.mpr hmark)]
        by_cases hinfo : field buf (8*off+24) 6 = 0x3C
        · rw [if_neg (not_not.mpr hinfo), streams_entry hmore hmark hinfo]
          have hseek := hr₅.toAt.seek (field buf (8*off+30) 10)
            (8*(off+5+field buf (8*off+30) 10)) (by omega)
          exact ih _ _ hseek (by omega) (by omega)
        · rw [if_pos hinfo, streams_uninformed hmore hmark hinfo]
          exact extent_le hr₄ (by omega) (by omega) n
      · rw [if_pos hmark, streams_unmarked hmore hmark]
        exact extent_le hr₂ (by omega) (by omega) n
    · rcases h.read 32 (8*off+32) (by omega) with ⟨r₁, h₁, hr₁⟩
      simp only [if_neg hmore, h₁]
      rw [streams_checksum (not_lt.mp hmore)]
      exact extent_le hr₁ (by omega) (by omega) n

theorem parsePMT_extent (s : TSDemultiplexer) (buf : Memory) (n : ℤ) (iPMT : ℕ) (pPMT : PMT) :
    ((s.parsePMT buf n iPMT pPMT).1.extent : ℤ) ≤ n ↔ PMTInside pPMT.iChannel buf n := by
  rcases (reader_new buf n).read 8 8 (by omega) with ⟨r₁, h₁, hr₁⟩
  rcases hr₁.read 8 16 (by omega) with ⟨r₂, h₂, hr₂⟩
  rcases hr₂.read 4 20 (by omega) with ⟨r₃, h₃, hr₃⟩
  rcases hr₃.read 12 32 (by omega) with ⟨r₄, h₄, hr₄⟩
  rcases hr₄.read 16 48 (by omega) with ⟨r₅, h₅, hr₅⟩
  rcases hr₅.read 2 50 (by omega) with ⟨r₆, h₆, hr₆⟩
  rcases hr₆.read 5 55 (by omega) with ⟨r₇, h₇, hr₇⟩
  rcases hr₇.read 1 56 (by omega) with ⟨r₈, h₈, hr₈⟩
  rcases hr₈.read 8 64 (by omega) with ⟨r₉, h₉, hr₉⟩
  rcases hr₉.read 8 72 (by omega) with ⟨r₁₀, h₁₀, hr₁₀⟩
  rcases hr₁₀.read 3 75 (by omega) with ⟨r₁₁, h₁₁, hr₁₁⟩
  rcases hr₁₁.read 13 88 (by omega) with ⟨r₁₂, h₁₂, hr₁₂⟩
  rcases hr₁₂.read 6 94 (by omega) with ⟨r₁₃, h₁₃, hr₁₃⟩
  rcases hr₁₃.read 10 104 (by omega) with ⟨r₁₄, h₁₄, hr₁₄⟩
  simp only [TSDemultiplexer.parsePMT, h₁, h₂, h₃, h₄, h₅, h₆, h₇, h₈, h₉, h₁₀, h₁₁, h₁₂, h₁₃, h₁₄]
  rw [PMTInside]
  by_cases hpointer : field buf 0 8 = 0
  swap
  · rw [if_pos hpointer]
    exact inside_stop hpointer (extent_le hr₁ (by omega) (by omega) n)
  rw [if_neg (not_not.mpr hpointer)]
  apply inside_more hpointer (by omega)
  by_cases htable : field buf 8 8 = 0x02
  swap
  · rw [if_pos htable]
    exact inside_stop htable (extent_le hr₂ (by omega) (by omega) n)
  rw [if_neg (not_not.mpr htable)]
  apply inside_more htable (by omega)
  by_cases hsyn : field buf 16 4 = 0x0B
  swap
  · rw [if_pos hsyn]
    exact inside_stop hsyn (extent_le hr₃ (by omega) (by omega) n)
  rw [if_neg (not_not.mpr hsyn)]
  apply inside_more hsyn (by omega)
  by_cases hlength : field buf 20 12 < 5
  · rw [if_pos hlength]
    exact inside_stop (not_le.mpr hlength) (extent_le hr₄ (by omega) (by omega) n)
  rw [if_neg hlength]
  apply inside_more (not_lt.mp hlength) (by omega)
  by_cases hchannel : pPMT.iChannel = field buf 32 16
  swap
  · rw [if_pos hchannel]
    exact inside_stop hchannel (extent_le hr₅ (by omega) (by omega) n)
  rw [if_neg (not_not.mpr hchannel)]
  apply inside_more hchannel (by omega)
  by_cases hmark : field buf 48 2 = 0x3
  swap
  · rw [if_pos hmark]
    exact inside_stop hmark (extent_le hr₆ (by omega) (by omega) n)
  rw [if_neg (not_not.mpr hmark)]
  apply inside_more hmark (by omega)
  by_cases hinfo : field buf 88 6 = 0x3C
  swap
  · rw [if_pos hinfo]
    exact inside_stop hinfo (extent_le hr₁₃ (by omega) (by omega) n)
  rw [if_neg (not_not.mpr hinfo)]
  apply inside_more hinfo (by omega)
  by_cases hshort : (field buf 20 12 : ℤ)-
      (9+field buf 94 10) < 0
  · rw [if_pos hshort]
    have hseek : (r₁₄.seek (field buf 94 10)).extent =
      r₁₄.extent := rfl
    rw [hseek]
    exact inside_stop (not_le.mpr hshort) (extent_le hr₁₄ (by omega) (by omega) n)
  rw [if_neg hshort]
  have hseek := hr₁₄.toAt.seek (field buf 94 10) (8*(13+field buf 94 10)) (by omega)
  have hstreams := parseStreams_extent iPMT (field buf 20 12)
    (field buf 20 12-(9+field buf 94 10)) (s.setPMT iPMT fun pPMT =>
      { pPMT with iVersion := field buf 50 5, iPCR := field buf 75 13 }) n hseek
  apply inside_more (not_lt.mp hshort)
  · intro hinside
    have hfirst := streams_first hinside
    omega
  · exact hstreams (by omega) (by omega)

end Sirannon.Demultiplexing
