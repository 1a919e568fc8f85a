import Sirannon.FFmpegMultiplexer

/-!
# Chunks in place of a file

The multiplexer keeps pace with the place of the writer. As long as what is
written back goes where the writer is, chunks and file agree; the chunk held
back at the end is never sent away.
-/

set_option autoImplicit false

namespace Sirannon.FFmpeg
open Bits SeekableFile

def FFmpegMultiplexer.current (s : FFmpegMultiplexer) : Bytes := s.pCurrent.getD []

structure Tracks (s : FFmpegMultiplexer) (f : File UInt8) (p : Place) : Prop where
  iPos : s.iPos = p.stop
  iDelta : s.iDelta = p.delta
  front : s.routed.flatten.length = p.start
  chunk : p.start+s.current.length = p.stop
  heeds : s.bIgnore = false
  turned : s.bBackwards = p.back
  size : f.bytes.length = p.stop
  position : f.pos = p.pos
  atEnd : p.back = false → p.pos = p.stop
  inside : p.back = true → s.pCurrent ≠ none ∧ p.start ≤ p.pos ∧ p.pos ≤ p.stop ∧ p.stop ≤ p.pos+p.delta

/-- What was sent away and what is held back is what stands in the file. -/
def Agrees (s : FFmpegMultiplexer) (f : File UInt8) : Prop := s.routed.flatten ++ s.current = f.bytes

theorem tracks_new : Tracks FFmpegMultiplexer.new File.new Place.new where
  iPos := rfl
  iDelta := rfl
  front := rfl
  chunk := rfl
  heeds := rfl
  turned := rfl
  size := rfl
  position := rfl
  atEnd := fun _ => rfl
  inside := fun h => by cases h

theorem flatten_toList (routed : List Bytes) (chunk : Option Bytes) :
    (routed ++ chunk.toList).flatten = routed.flatten ++ chunk.getD [] := by
  cases chunk with
  | none => simp
  | some bs => simp

variable {s s' : FFmpegMultiplexer} {f : File UInt8} {p : Place} {a : Call}

/-! ## Writing at the end -/

def FFmpegMultiplexer.appended (s : FFmpegMultiplexer) (bs : Bytes) : FFmpegMultiplexer where
  iPos := s.iPos+bs.length
  iDelta := s.iDelta
  pCurrent := some bs
  bIgnore := s.bIgnore
  bBackwards := s.bBackwards
  routed := s.routed ++ s.pCurrent.toList

theorem appended_called (h : Tracks s f p) (hp : p.back = false) (bs : Bytes) :
    s.called (.write bs) = .ok (s.appended bs) := by
  have hs : s.bBackwards = false := h.turned.trans hp
  simp [FFmpegMultiplexer.called, FFmpegMultiplexer.processBuffer, h.heeds, hs,
    FFmpegMultiplexer.appended]

theorem appended_tracks (h : Tracks s f p) (hp : p.back = false) (bs : Bytes) :
    Tracks (s.appended bs) (f.write bs) (p.called (.write bs)) := by
  have hpos := h.position.trans (h.atEnd hp)
  have hfile : (f.write bs).bytes = f.bytes ++ bs := by
    rw [File.write, hpos, ← h.size, overwrite_end]
  have hplace : p.called (.write bs) =
      { p with pos := p.stop+bs.length, start := p.stop, stop := p.stop+bs.length } := by
    simp [Place.called, hp]
  rw [hplace]
  constructor
  · show s.iPos+bs.length = _
    rw [h.iPos]
    push_cast
    rfl
  · exact h.iDelta
  · show (s.routed ++ s.pCurrent.toList).flatten.length = p.stop
    rw [flatten_toList, List.length_append, h.front]
    exact h.chunk
  · rfl
  · exact h.heeds
  · exact h.turned
  · rw [hfile, List.length_append, h.size]
  · show f.pos+bs.length = p.stop+bs.length
    rw [hpos]
  · intro _
    rfl
  · intro hback
    rw [show p.back = true from hback] at hp
    cases hp

theorem appended_agrees (h : Tracks s f p) (hp : p.back = false) (hf : Agrees s f) (bs : Bytes) :
    Agrees (s.appended bs) (f.write bs) := by
  have hpos := h.position.trans (h.atEnd hp)
  show (s.routed ++ s.pCurrent.toList).flatten ++ bs = (f.write bs).bytes
  rw [File.write, hpos, ← h.size, overwrite_end, flatten_toList, ← hf]
  rfl

/-! ## Writing back -/

def FFmpegMultiplexer.patched (s : FFmpegMultiplexer) (bs : Bytes) : FFmpegMultiplexer :=
  { s with pCurrent := some (overwrite s.current ((s.current.length : ℤ)-s.iDelta).toNat bs) }

theorem written_empty (h : Tracks s f p) (hp : p.back = true) : s.called (.write []) = .ok s := by
  have hs : s.bBackwards = true := h.turned.trans hp
  obtain ⟨chunk, hchunk⟩ := Option.ne_none_iff_exists'.1 (h.inside hp).1
  have hdelta := h.iDelta
  simp only [FFmpegMultiplexer.called, FFmpegMultiplexer.processBuffer, h.heeds, hs, hchunk,
    List.length_nil]
  rw [if_neg (by simp), if_pos trivial, if_neg (by omega), if_pos trivial]

theorem empty_tracks (h : Tracks s f p) (hp : p.back = true) :
    Tracks s (f.write []) (p.called (.write [])) := by
  have hfile : f.write [] = f := by
    rw [File.write, overwrite_nil]
    rfl
  have hplace : p.called (.write []) = p := by
    rw [Place.called, if_pos hp]
    rfl
  rw [hfile, hplace]
  exact h

/-- Only a write in front of the chunk does not return. -/
theorem patched_called {bs : Bytes} (h : Tracks s f p) (hi : Issues p (.write bs)) (hp : p.back = true)
    (hbs : bs ≠ []) :
    s.called (.write bs) = if p.delta ≤ p.stop-p.start then .ok (s.patched bs)
      else .error (undefinedBehaviour "write in front of the chunk") := by
  have hs : s.bBackwards = true := h.turned.trans hp
  obtain ⟨hsome, -, -, hfar⟩ := h.inside hp
  obtain ⟨chunk, hchunk⟩ := Option.ne_none_iff_exists'.1 hsome
  have hcurrent : s.current = chunk := by
    rw [FFmpegMultiplexer.current, hchunk]
    rfl
  have hlength := h.chunk
  have hdelta := h.iDelta
  have hend := hi hp
  rw [hcurrent] at hlength
  simp only [FFmpegMultiplexer.called, FFmpegMultiplexer.processBuffer, h.heeds, hs, hchunk,
    FFmpegMultiplexer.patched, hcurrent]
  rw [if_neg (by simp), if_pos trivial, if_neg (by omega), if_neg hbs]
  by_cases hr : p.delta ≤ p.stop-p.start
  · rw [if_pos hr, if_neg (by omega)]
  · rw [if_neg hr, if_pos (by omega)]

theorem patched_tracks {bs : Bytes} (h : Tracks s f p) (hi : Issues p (.write bs))
    (hp : p.back = true) : Tracks (s.patched bs) (f.write bs) (p.called (.write bs)) := by
  have hplace : p.called (.write bs) = { p with pos := p.pos+bs.length } := by
    simp [Place.called, hp]
  obtain ⟨-, hstart, hstop, hfar⟩ := h.inside hp
  have hlength := h.chunk
  have hdelta := h.iDelta
  have hend := hi hp
  rw [hplace]
  constructor
  · exact h.iPos
  · exact h.iDelta
  · exact h.front
  · show p.start+(overwrite s.current _ bs).length = p.stop
    rw [overwrite_length (by omega), hlength]
  · exact h.heeds
  · exact h.turned
  · show (overwrite f.bytes f.pos bs).length = p.stop
    rw [overwrite_length, h.size]
    rw [h.position, h.size]
    exact hend
  · show f.pos+bs.length = p.pos+bs.length
    rw [h.position]
  · intro hfront
    rw [show p.back = false from hfront] at hp
    cases hp
  · intro _
    show some _ ≠ none ∧ p.start ≤ p.pos+bs.length ∧ p.pos+bs.length ≤ p.stop ∧
      p.stop ≤ p.pos+bs.length+p.delta
    exact ⟨by simp, by omega, hend, by omega⟩

/-- At the right distance, what is written in the chunk is written in the file. -/
theorem patched_agrees {bs : Bytes} (h : Tracks s f p) (hp : p.back = true)
    (hd : p.delta = p.stop-p.pos) (hf : Agrees s f) : Agrees (s.patched bs) (f.write bs) := by
  obtain ⟨-, hstart, hstop, -⟩ := h.inside hp
  have hlength := h.chunk
  have hdelta := h.iDelta
  have hfront := h.front
  show s.routed.flatten ++ overwrite s.current _ bs = overwrite f.bytes f.pos bs
  have hpos : ((s.current.length : ℤ)-s.iDelta).toNat = f.pos-s.routed.flatten.length := by
    rw [h.position]
    omega
  rw [hpos, ← overwrite_append s.routed.flatten s.current bs (by rw [h.position]; omega), hf]

/-! ## Seeking -/

def FFmpegMultiplexer.sought (s : FFmpegMultiplexer) (pos : ℕ) (back : Bool) : FFmpegMultiplexer :=
  { s with iDelta := s.iPos-pos, bBackwards := back }

theorem sought_called {pos : ℕ} (h : Tracks s f p) (hi : Issues p (.seek pos)) :
    s.called (.seek pos) = .ok (s.sought pos (decide (pos < p.stop))) := by
  have hpos := h.iPos
  have hlength := h.chunk
  obtain ⟨hstart, hstop⟩ : p.start ≤ pos ∧ pos ≤ p.stop := hi
  simp only [FFmpegMultiplexer.called, FFmpegMultiplexer.seekBuffer]
  by_cases hback : pos < p.stop
  · rw [if_pos (by omega), decide_eq_true hback]
    cases hchunk : s.pCurrent with
    | none =>
      simp only [FFmpegMultiplexer.current, hchunk, Option.getD_none, List.length_nil] at hlength
      omega
    | some chunk =>
      simp only [FFmpegMultiplexer.current, hchunk, Option.getD_some] at hlength
      simp only
      rw [if_neg (by omega), FFmpegMultiplexer.sought, ← hchunk]
      rfl
  · rw [if_neg (by omega), if_pos (by omega), decide_eq_false hback]
    simp only [Except.map, FFmpegMultiplexer.sought]
    rw [← h.heeds]

theorem sought_tracks {pos : ℕ} (h : Tracks s f p) (hi : Issues p (.seek pos)) :
    Tracks (s.sought pos (decide (pos < p.stop))) (f.seek pos) (p.called (.seek pos)) := by
  obtain ⟨hstart, hstop⟩ : p.start ≤ pos ∧ pos ≤ p.stop := hi
  have hpos := h.iPos
  have hlength := h.chunk
  constructor
  · exact h.iPos
  · show s.iPos-pos = ((p.stop-pos : ℕ) : ℤ)
    omega
  · exact h.front
  · exact h.chunk
  · exact h.heeds
  · rfl
  · exact h.size
  · rfl
  · intro hfront
    have hnot : ¬pos < p.stop := of_decide_eq_false hfront
    show pos = p.stop
    omega
  · intro hback
    have hlt : pos < p.stop := of_decide_eq_true hback
    show s.pCurrent ≠ none ∧ p.start ≤ pos ∧ pos ≤ p.stop ∧ p.stop ≤ pos+(p.stop-pos)
    refine ⟨fun hnone => ?_, hstart, hstop, by omega⟩
    simp only [FFmpegMultiplexer.current, hnone, Option.getD_none, List.length_nil] at hlength
    omega

def FFmpegMultiplexer.told (s : FFmpegMultiplexer) : FFmpegMultiplexer := { s with iDelta := s.iPos-0 }

theorem told_tracks (h : Tracks s f p) : Tracks s.told f (p.called .tell) := by
  have hpos := h.iPos
  constructor
  · exact h.iPos
  · show s.iPos-0 = (p.stop : ℤ)
    omega
  · exact h.front
  · exact h.chunk
  · exact h.heeds
  · exact h.turned
  · exact h.size
  · exact h.position
  · exact h.atEnd
  · intro hback
    obtain ⟨hsome, hstart, hstop, -⟩ := h.inside hback
    show s.pCurrent ≠ none ∧ p.start ≤ p.pos ∧ p.pos ≤ p.stop ∧ p.stop ≤ p.pos+p.stop
    exact ⟨hsome, hstart, hstop, by omega⟩

/-! ## One call -/

theorem called_tracks (h : Tracks s f p) (hi : Issues p a) (hr : Reaches p a) :
    ∃ s', s.called a = .ok s' ∧ Tracks s' (called f a) (p.called a) := by
  cases a with
  | write bs =>
    by_cases hp : p.back = true
    · by_cases hbs : bs = []
      · subst hbs
        exact ⟨s, written_empty h hp, empty_tracks h hp⟩
      · have hreach := hr hp hbs
        exact ⟨s.patched bs, by rw [patched_called h hi hp hbs, if_pos hreach],
          patched_tracks h hi hp⟩
    · have hfront : p.back = false := by simpa using hp
      exact ⟨s.appended bs, appended_called h hfront bs, appended_tracks h hfront bs⟩
  | seek pos => exact ⟨_, sought_called h hi, sought_tracks h hi⟩
  | tell => exact ⟨s.told, rfl, told_tracks h⟩

/-- A call that returns has not written in front of the chunk. -/
theorem called_reaches (h : Tracks s f p) (hi : Issues p a) (hs : s.called a = .ok s') : Reaches p a := by
  cases a with
  | write bs =>
    intro hp hbs
    rw [patched_called h hi hp hbs] at hs
    by_contra hfar
    rw [if_neg hfar] at hs
    cases hs
  | seek pos => trivial
  | tell => trivial

theorem places_reaches (h : Tracks s f p) (hp : Places p a) : Reaches p a := by
  cases a with
  | write bs =>
    intro hback hbs
    have hdelta : p.delta = p.stop-p.pos := hp hback hbs
    have hin := h.inside hback
    omega
  | seek pos => trivial
  | tell => trivial

theorem called_agrees (h : Tracks s f p) (hi : Issues p a) (hp : Places p a) (hf : Agrees s f)
    (hs : s.called a = .ok s') : Agrees s' (called f a) := by
  cases a with
  | write bs =>
    by_cases hback : p.back = true
    · by_cases hbs : bs = []
      · subst hbs
        rw [written_empty h hback] at hs
        cases hs
        show s.routed.flatten ++ s.current = overwrite f.bytes f.pos []
        rw [overwrite_nil]
        exact hf
      · rw [patched_called h hi hback hbs, if_pos (places_reaches h hp hback hbs)] at hs
        cases hs
        exact patched_agrees h hback (hp hback hbs) hf
    · have hfront : p.back = false := by simpa using hback
      rw [appended_called h hfront] at hs
      cases hs
      exact appended_agrees h hfront hf bs
  | seek pos =>
    rw [sought_called h hi] at hs
    cases hs
    exact hf
  | tell =>
    cases hs
    exact hf

/-! ## All calls -/

theorem run_tracks {calls : List Call} (h : Tracks s f p) (hi : IssuedFrom p calls)
    (hr : ReachedFrom p calls) :
    ∃ s', FFmpegMultiplexer.run calls s = .ok s' ∧
      Tracks s' (calls.foldl called f) (calls.foldl Place.called p) := by
  induction calls generalizing s f p with
  | nil => exact ⟨s, rfl, h⟩
  | cons a calls ih =>
    obtain ⟨s', hs, h'⟩ := called_tracks h hi.1 hr.1
    obtain ⟨last, hlast, hend⟩ := ih h' hi.2 hr.2
    refine ⟨last, ?_, hend⟩
    rw [FFmpegMultiplexer.run, hs]
    exact hlast

theorem run_reached {calls : List Call} (h : Tracks s f p) (hi : IssuedFrom p calls)
    (hs : FFmpegMultiplexer.run calls s = .ok s') : ReachedFrom p calls := by
  induction calls generalizing s f p with
  | nil => trivial
  | cons a calls ih =>
    rw [FFmpegMultiplexer.run] at hs
    cases hcall : s.called a with
    | error e =>
      rw [hcall] at hs
      cases hs
    | ok next =>
      rw [hcall] at hs
      have hreach := called_reaches h hi.1 hcall
      obtain ⟨same, hsame, h'⟩ := called_tracks h hi.1 hreach
      rw [hcall] at hsame
      cases hsame
      exact ⟨hreach, ih h' hi.2 hs⟩

theorem run_agrees {calls : List Call} (h : Tracks s f p) (hi : IssuedFrom p calls)
    (hp : PlacedFrom p calls) (hf : Agrees s f) :
    ∃ s', FFmpegMultiplexer.run calls s = .ok s' ∧
      Tracks s' (calls.foldl called f) (calls.foldl Place.called p) ∧
      Agrees s' (calls.foldl called f) := by
  induction calls generalizing s f p with
  | nil => exact ⟨s, rfl, h, hf⟩
  | cons a calls ih =>
    obtain ⟨s', hs, h'⟩ := called_tracks h hi.1 (places_reaches h hp.1)
    obtain ⟨last, hlast, hend⟩ := ih h' hi.2 hp.2 (called_agrees h hi.1 hp.1 hf hs)
    refine ⟨last, ?_, hend⟩
    rw [FFmpegMultiplexer.run, hs]
    exact hlast

theorem muxed_eq {calls : List Call} (h : FFmpegMultiplexer.run calls FFmpegMultiplexer.new = .ok s) :
    muxed calls = .ok s.routed := by
  rw [muxed, h]
  rfl

theorem emulated_of_placed {calls : List Call} (hi : Issued calls) (hp : Placed calls)
    (hl : Flushed calls) : Emulated calls := by
  obtain ⟨s, hrun, h, hf⟩ := run_agrees tracks_new hi hp rfl
  refine ⟨s.routed, muxed_eq hrun, ?_⟩
  have hchunk := h.chunk
  have hempty : s.current = [] := by
    apply List.eq_nil_of_length_eq_zero
    have hend : (calls.foldl Place.called Place.new).start =
        (calls.foldl Place.called Place.new).stop := hl
    omega
  show _ = (calls.foldl called File.new).bytes
  rw [← hf, hempty, List.append_nil]

/-- The chunk held back is missing. -/
theorem flushed_of_emulated {calls : List Call} (hi : Issued calls) (he : Emulated calls) :
    Flushed calls ∧ Reached calls := by
  obtain ⟨routed, hmuxed, hbytes⟩ := he
  cases hrun : FFmpegMultiplexer.run calls FFmpegMultiplexer.new with
  | error e =>
    rw [muxed, hrun] at hmuxed
    cases hmuxed
  | ok s =>
    rw [muxed_eq hrun] at hmuxed
    cases hmuxed
    have hreach := run_reached tracks_new hi hrun
    obtain ⟨same, hsame, h⟩ := run_tracks tracks_new hi hreach
    rw [hrun] at hsame
    cases hsame
    constructor
    · have hlength : s.routed.flatten.length = (calls.foldl called File.new).bytes.length :=
        congrArg List.length hbytes
      rw [h.front, h.size] at hlength
      exact hlength
    · exact hreach

/-- Chunks stand for the file when the last one is empty and each write back goes where the writer
is. They never do when the last one is not empty. -/
theorem chunks_as_file {calls : List Call} (hi : Issued calls) :
    (Placed calls ∧ Flushed calls → Emulated calls) ∧
    (Emulated calls → Flushed calls ∧ Reached calls) := by
  constructor
  · rintro ⟨hp, hl⟩
    exact emulated_of_placed hi hp hl
  · exact flushed_of_emulated hi

/-- A writer that goes back once, asks where it is, returns, and ends with an empty write. -/
def boxed : List Call := [.write [0, 0, 7], .seek 1, .write [9], .tell, .seek 3, .write []]

theorem boxed_as_file : Issued boxed ∧ Placed boxed ∧ Flushed boxed ∧
    (file boxed).bytes = [0, 9, 7] ∧ Emulated boxed :=
  have hi : Issued boxed := by
    simp [Issued, boxed, IssuedFrom, Issues, Place.called, Place.new]
  have hp : Placed boxed := by
    simp [Placed, boxed, PlacedFrom, Places, Place.called, Place.new]
  have hl : Flushed boxed := by
    simp [Flushed, boxed, place, Place.called, Place.new]
  ⟨hi, hp, hl, rfl, (chunks_as_file hi).1 ⟨hp, hl⟩⟩

/-- One write and the end: nothing was sent away. -/
theorem one_write_not_as_file :
    Issued [.write [1, 2, 3]] ∧ muxed [.write [1, 2, 3]] = .ok [] ∧
      (file [.write [1, 2, 3]]).bytes = [1, 2, 3] ∧ ¬Emulated [.write [1, 2, 3]] := by
  refine ⟨?_, rfl, rfl, ?_⟩
  · simp [Issued, IssuedFrom, Issues, Place.new]
  · rintro ⟨routed, hmuxed, hbytes⟩
    cases hmuxed
    cases hbytes

end Sirannon.FFmpeg
