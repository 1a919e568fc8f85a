import Mathlib.Data.List.TakeWhile
import Sirannon.HTTPReceiving

/-!
# Requests back to back

Requests that are written one after another are received one by one, however
the stream is cut: each with its fields and its content, and nothing else.
-/

set_option autoImplicit false

namespace Sirannon.HTTP
open Bits MachineInt

/-! ## What the expressions match -/

/-- A text without an end of a line. -/
def NoLineEnd (s : Bytes) : Prop := ¬ crlf <:+: s

theorem noLineEnd_cons {b : UInt8} {s : Bytes} :
    NoLineEnd (b::s) ↔ ¬ crlf <+: b::s ∧ NoLineEnd s := by
  rw [NoLineEnd, NoLineEnd, List.infix_cons_iff, not_or]

theorem noLineEnd_nil : NoLineEnd [] := by
  intro hinfix
  have hnil := List.infix_nil.mp hinfix
  cases hnil

theorem noLineEnd_append {s t : Bytes} (hs : 13 ∉ s) (ht : NoLineEnd t) : NoLineEnd (s ++ t) := by
  induction s with
  | nil => exact ht
  | cons b s ih =>
    rw [List.cons_append, noLineEnd_cons]
    refine ⟨?_, ih fun hmem => hs (List.mem_cons_of_mem _ hmem)⟩
    intro hcrlf
    rw [crlf, List.cons_prefix_cons] at hcrlf
    exact hs (hcrlf.1 ▸ List.mem_cons_self ..)

theorem noLineEnd_plain {s : Bytes} (hs : 13 ∉ s) : NoLineEnd s := by
  have happend := noLineEnd_append hs noLineEnd_nil
  rwa [List.append_nil] at happend

theorem search_here {α : Type} {expression : Bytes → Option α} {s : Bytes} {m : α}
    (h : expression s = some m) : search expression s = some m := by
  cases s with
  | nil => exact h
  | cons b s => rw [search, h]

theorem run_append {p : UInt8 → Bool} {xs : Bytes} {b : UInt8} (s : Bytes) (hne : xs ≠ [])
    (hxs : ∀ x ∈ xs, p x = true) (hb : p b = false) : run p (xs ++ b::s) = some (xs, b::s) := by
  have htake : (xs ++ b::s).takeWhile p = xs := by
    rw [List.takeWhile_append_of_pos hxs, List.takeWhile_cons_of_neg (by simp [hb]),
      List.append_nil]
  have hdrop : (xs ++ b::s).dropWhile p = b::s := by
    rw [List.dropWhile_append_of_pos hxs, List.dropWhile_cons_of_neg (by simp [hb])]
  rw [run, htake, hdrop, if_neg hne]

theorem expect_append (word s : Bytes) : expect word (word ++ s) = some s := by
  rw [expect, if_pos (List.prefix_append word s), List.drop_left]

theorem upToLineEnd_append {v : Bytes} (s : Bytes) (hv : NoLineEnd v) :
    upToLineEnd (v ++ crlf ++ s) = some (v, s) := by
  induction v with
  | nil =>
    have hexpect : expect crlf (13::10::s) = some s := expect_append crlf s
    show upToLineEnd (13::10::s) = some ([], s)
    rw [upToLineEnd, hexpect]
  | cons b v ih =>
    rcases noLineEnd_cons.mp hv with ⟨hfirst, hrest⟩
    have hnone : expect crlf (b::(v ++ crlf ++ s)) = none := by
      rw [expect, if_neg]
      intro hcrlf
      cases v with
      | nil =>
        rw [crlf, List.cons_prefix_cons] at hcrlf
        have hlf := List.cons_prefix_cons.mp hcrlf.2
        exact absurd hlf.1 (by decide)
      | cons c v =>
        rw [crlf, List.cons_prefix_cons] at hcrlf
        have hlf := List.cons_prefix_cons.mp hcrlf.2
        apply hfirst
        rw [crlf, hcrlf.1, hlf.1]
        exact List.prefix_append [b, c] v
    rw [List.cons_append, List.cons_append, upToLineEnd, hnone, ih hrest]
    rfl

theorem cstr_self {s : Bytes} (hs : 0 ∉ s) : cstr s = s := by
  rw [cstr, List.takeWhile_eq_self_iff]
  intro b hb
  have hne : b ≠ 0 := fun hzero => hs (hzero ▸ hb)
  simpa using hne

/-! ## Requests -/

structure Request where
  sCommand : Bytes
  sUrl : Bytes
  sProtocol : Bytes
  fields : List (Bytes × Bytes)
  content : Bytes
  deriving DecidableEq, Repr

namespace Request

def line (r : Request) : Bytes := r.sCommand ++ 32::(r.sUrl ++ 32::r.sProtocol)

/-- The header without the empty line at its end. -/
def lines (r : Request) : Bytes := r.line ++ crlf ++ r.fields.flatMap HTTPConnection.field

def header (r : Request) : Bytes := r.lines ++ crlf

def bytes (r : Request) : Bytes := r.header ++ r.content

def sent (r : Request) : Fields := r.fields.foldl (fun m f => Fields.assign f.1 f.2 m) []

/-- A word of a request line: printable and not empty. -/
structure Word (p : UInt8 → Bool) (s : Bytes) : Prop where
  nonempty : s ≠ []
  chars : ∀ b ∈ s, p b = true
  zero : 0 ∉ s

structure FieldFormed (f : Bytes × Bytes) : Prop where
  key : Word isName f.1
  line : NoLineEnd f.2
  zero : 0 ∉ f.2

/-- A content, if any, has its length declared in decimal. -/
def LengthDeclared (r : Request) : Prop :=
  match r.sent.find HTTPConnection.lengthKey with
  | none => r.content = []
  | some v => v ≠ [] ∧ (∀ b ∈ v, isDigit b = true) ∧ decimal v = r.content.length

structure WellFormed (r : Request) : Prop where
  command : Word isWord r.sCommand
  url : Word isGraph r.sUrl
  protocol : Word isGraph r.sProtocol
  fields : ∀ f ∈ r.fields, FieldFormed f
  length : r.LengthDeclared
  fits : r.header.length+r.content.length < iBuffer

end Request

open Request

theorem word_plain {p : UInt8 → Bool} {s : Bytes} (hs : Word p s) (hp : p 13 = false) : 13 ∉ s := by
  intro hmem
  have htrue := hs.chars 13 hmem
  rw [hp] at htrue
  cases htrue

theorem headExpression_words {sCommand sUrl sProtocol : Bytes} (hcommand : Word isWord sCommand)
    (hurl : Word isGraph sUrl) (hprotocol : Word isGraph sProtocol) (s : Bytes) :
    headExpression (sCommand ++ 32::(sUrl ++ 32::sProtocol) ++ crlf ++ s) =
      some ⟨sCommand, sUrl, sProtocol, s⟩ := by
  have hline : sCommand ++ 32::(sUrl ++ 32::sProtocol) ++ crlf ++ s =
      sCommand ++ 32::(sUrl ++ 32::(sProtocol ++ 13::10::s)) := by
    simp [crlf]
  have hspace : ∀ t, expect [32] (32::t) = some t := expect_append [32]
  have hend : expect crlf (13::10::s) = some s := expect_append crlf s
  rw [hline, headExpression, run_append _ hcommand.nonempty hcommand.chars (by decide)]
  dsimp only [Option.bind_eq_bind, Option.bind_some]
  rw [hspace, Option.bind_some, run_append _ hurl.nonempty hurl.chars (by decide)]
  dsimp only [Option.bind_some]
  rw [hspace, Option.bind_some, run_append _ hprotocol.nonempty hprotocol.chars (by decide)]
  dsimp only [Option.bind_some]
  rw [hend, Option.bind_some]

theorem headExpression_line {r : Request} (hr : WellFormed r) (s : Bytes) :
    headExpression (r.line ++ crlf ++ s) = some ⟨r.sCommand, r.sUrl, r.sProtocol, s⟩ :=
  headExpression_words hr.command hr.url hr.protocol s

theorem bodyExpression_field {f : Bytes × Bytes} (hf : FieldFormed f) (s : Bytes) :
    bodyExpression (HTTPConnection.field f ++ s) = some ⟨f.1, f.2, s⟩ := by
  have hfield : HTTPConnection.field f ++ s = f.1 ++ 58::32::(f.2 ++ crlf ++ s) := by
    simp [HTTPConnection.field]
  have hcolon : ∀ t, expect [58, 32] (58::32::t) = some t := expect_append [58, 32]
  rw [hfield, bodyExpression, run_append _ hf.key.nonempty hf.key.chars (by decide)]
  dsimp only [Option.bind_eq_bind, Option.bind_some]
  rw [hcolon, Option.bind_some, upToLineEnd_append s hf.line]
  rfl

theorem field_zero {f : Bytes × Bytes} (hf : FieldFormed f) : 0 ∉ HTTPConnection.field f := by
  simp only [HTTPConnection.field, crlf, List.mem_append, List.mem_cons, List.not_mem_nil, or_false]
  rintro (((h | h) | h) | h)
  · exact hf.key.zero h
  · exact absurd h (by decide)
  · exact hf.zero h
  · exact absurd h (by decide)

theorem fields_zero {fields : List (Bytes × Bytes)} (hfields : ∀ f ∈ fields, FieldFormed f) :
    0 ∉ fields.flatMap HTTPConnection.field := by
  intro hmem
  rcases List.mem_flatMap.mp hmem with ⟨f, hf, hzero⟩
  exact field_zero (hfields f hf) hzero

theorem line_zero {r : Request} (hr : WellFormed r) : 0 ∉ r.line := by
  simp only [Request.line, List.mem_append, List.mem_cons]
  rintro (h | h | h | h | h)
  · exact hr.command.zero h
  · exact absurd h (by decide)
  · exact hr.url.zero h
  · exact absurd h (by decide)
  · exact hr.protocol.zero h

theorem lines_zero {r : Request} (hr : WellFormed r) : 0 ∉ r.lines := by
  simp only [Request.lines, List.mem_append, not_or]
  exact ⟨⟨line_zero hr, by decide⟩, fields_zero hr.fields⟩

/-- The loop over the lines reads back the fields. -/
theorem parseFields_fields {fields : List (Bytes × Bytes)}
    (hfields : ∀ f ∈ fields, FieldFormed f) {fuel : ℕ} (hfuel : fields.length < fuel)
    (mFields : Fields) :
    parseFields fuel (fields.flatMap HTTPConnection.field) mFields =
      (true, fields.foldl (fun m f => Fields.assign f.1 f.2 m) mFields) := by
  induction fields generalizing fuel mFields with
  | nil =>
    cases fuel with
    | zero => rfl
    | succ fuel => rw [List.flatMap_nil, parseFields, if_pos rfl, List.foldl_nil]
  | cons f fields ih =>
    cases fuel with
    | zero => exact absurd hfuel (Nat.not_lt_zero _)
    | succ fuel =>
      have hf := hfields f (List.mem_cons_self ..)
      have hrest : ∀ g ∈ fields, FieldFormed g := fun g hg => hfields g (List.mem_cons_of_mem _ hg)
      have hne : (f::fields).flatMap HTTPConnection.field ≠ [] := by
        rw [List.flatMap_cons, HTTPConnection.field]
        simp
      have hsearch := search_here (bodyExpression_field hf (fields.flatMap HTTPConnection.field))
      rw [parseFields, if_neg hne, cstr_self (fields_zero hfields), List.flatMap_cons, hsearch]
      dsimp only
      rw [List.length_append, Nat.add_sub_cancel, List.drop_left]
      exact ih hrest (Nat.lt_of_succ_lt_succ hfuel) _

theorem fields_length (fields : List (Bytes × Bytes)) :
    fields.length ≤ (fields.flatMap HTTPConnection.field).length := by
  induction fields with
  | nil => exact Nat.zero_le _
  | cons f fields ih =>
    rw [List.flatMap_cons, List.length_append, List.length_cons, HTTPConnection.field, crlf]
    simp only [List.length_append, List.length_cons, List.length_nil]
    omega

/-! ## The end of a header -/

open HTTPConnection

theorem scan_line {line : Bytes} (s : Bytes) {p last : ℤ} (hne : line ≠ [])
    (hline : NoLineEnd line) (hp : last+2 ≤ p) :
    scan (line ++ crlf ++ s) p last = scan s (p+line.length+2) (p+line.length) := by
  induction line generalizing p with
  | nil => exact absurd rfl hne
  | cons a line ih =>
    rcases noLineEnd_cons.mp hline with ⟨hfirst, hrest⟩
    cases line with
    | nil =>
      show scan (a::13::10::s) p last = _
      rw [scan, if_neg fun hmark => absurd hmark.2 (by decide), scan, if_pos ⟨rfl, rfl⟩,
        if_neg (by omega), scan_skip (by decide)]
      have hthree : p+1+1+1 = p+([a] : Bytes).length+2 := by
        simp only [List.length_cons, List.length_nil]
        ring
      rw [hthree]
      rfl
    | cons b line =>
      have hnot : ¬ (a = 13 ∧ b = 10) := by
        rintro ⟨rfl, rfl⟩
        exact hfirst (List.prefix_append [13, 10] line)
      have hscan := ih (List.cons_ne_nil b line) hrest (p := p+1) (by omega)
      show scan (a::b::(line ++ crlf ++ s)) p last = _
      rw [scan, if_neg hnot]
      rw [List.cons_append, List.cons_append] at hscan
      have hlength : p+((a::b::line).length : ℤ) = p+1+((b::line).length : ℤ) := by
        simp only [List.length_cons]
        push_cast
        ring
      rw [hscan, hlength]

theorem field_line {f : Bytes × Bytes} (hf : FieldFormed f) :
    f.1 ++ [58, 32] ++ f.2 ≠ [] ∧ NoLineEnd (f.1 ++ [58, 32] ++ f.2) := by
  constructor
  · simp
  · apply noLineEnd_append _ hf.line
    intro hmem
    rcases List.mem_append.mp hmem with hmem | hmem
    · exact word_plain hf.key (by decide) hmem
    · exact absurd hmem (by decide)

/-- Past the lines of the fields, the empty line is the end. -/
theorem scan_fields {fields : List (Bytes × Bytes)} (hfields : ∀ f ∈ fields, FieldFormed f)
    (s : Bytes) (l : ℤ) :
    scan (fields.flatMap field ++ crlf ++ s) (l+2) l =
      (true, l+2+(fields.flatMap field).length) := by
  induction fields generalizing l with
  | nil =>
    show scan (13::10::s) (l+2) l = _
    rw [scan, if_pos ⟨rfl, rfl⟩, if_pos rfl]
    simp
  | cons f fields ih =>
    have hf := hfields f (List.mem_cons_self ..)
    have hrest : ∀ g ∈ fields, FieldFormed g := fun g hg => hfields g (List.mem_cons_of_mem _ hg)
    rcases field_line hf with ⟨hne, hline⟩
    have hsplit : (f::fields).flatMap field ++ crlf ++ s =
        (f.1 ++ [58, 32] ++ f.2) ++ crlf ++ (fields.flatMap field ++ crlf ++ s) := by
      simp [field]
    have hlength : ((f::fields).flatMap field).length =
        (f.1 ++ [58, 32] ++ f.2).length+2+(fields.flatMap field).length := by
      rw [List.flatMap_cons, List.length_append, field, List.length_append]
      rfl
    rw [hsplit, scan_line _ hne hline le_rfl, ih hrest, hlength]
    congr 1
    push_cast
    ring

theorem scan_header {r : Request} (hr : WellFormed r) (s : Bytes) :
    scan (r.bytes ++ s) 0 (-2) = (true, (r.lines.length : ℤ)) := by
  have hne : r.line ≠ [] := by simp [Request.line]
  have hline : NoLineEnd r.line := by
    apply noLineEnd_plain
    simp only [Request.line, List.mem_append, List.mem_cons]
    rintro (h | h | h | h | h)
    · exact word_plain hr.command (by decide) h
    · exact absurd h (by decide)
    · exact word_plain hr.url (by decide) h
    · exact absurd h (by decide)
    · exact word_plain hr.protocol (by decide) h
  have hsplit : r.bytes ++ s =
      r.line ++ crlf ++ (r.fields.flatMap field ++ crlf ++ (r.content ++ s)) := by
    simp [Request.bytes, Request.header, Request.lines]
  rw [hsplit, scan_line _ hne hline (by norm_num), scan_fields hr.fields, Request.lines,
    List.length_append, List.length_append]
  congr 1
  push_cast
  show _ = (r.line.length : ℤ)+2+_
  ring

/-! ## The length of the content -/

theorem strtol_digits {v : Bytes} (hdigits : ∀ b ∈ v, isDigit b = true)
    (hsmall : decimal v < 2^63) : strtol v = decimal v := by
  have htake : v.takeWhile isDigit = v := List.takeWhile_eq_self_iff.mpr hdigits
  cases v with
  | nil => rfl
  | cons b v =>
    rw [strtol_front (hdigits b (List.mem_cons_self ..)), htake]
    omega

theorem decimal_digits {v : Bytes} (hdigits : ∀ b ∈ v, isDigit b = true)
    (hsmall : decimal v < 2^31) : atoi v = decimal v := by
  rw [atoi, strtol_digits hdigits (by omega), int32_of_range]
  · omega
  · exact_mod_cast hsmall

theorem declared_length {r : Request} (hr : WellFormed r) :
    uint32 (atoi (r.sent.value lengthKey)) = r.content.length := by
  have hdeclared := hr.length
  have hfits := hr.fits
  have hbuffer : iBuffer = 64000 := rfl
  rw [LengthDeclared] at hdeclared
  rw [Fields.value]
  cases hfind : r.sent.find lengthKey with
  | none =>
    rw [hfind] at hdeclared
    have hempty : r.content = [] := hdeclared
    rw [hempty]
    simp [atoi, strtol, decimal, int32, uint32]
  | some v =>
    rw [hfind] at hdeclared
    rcases hdeclared with ⟨-, hdigits, hvalue⟩
    rw [Option.getD_some, decimal_digits hdigits (by omega), hvalue, uint32_of_range]
    omega

/-! ## One message -/

open Connection StateError

/-- What a caller reads after a call. -/
structure Message where
  sCommand : Bytes
  sUrl : Bytes
  sProtocol : Bytes
  mFields : Fields
  content : Bytes
  iContent : ℕ
  deriving DecidableEq, Repr

def message (h : HTTPConnection) : Message :=
  ⟨h.sCommand, h.sUrl, h.sProtocol, h.mFields, h.content, h.iContent⟩

def Request.message (r : Request) (mFields : Fields) : Message :=
  ⟨r.sCommand, r.sUrl, r.sProtocol, mFields, r.content, r.content.length⟩

/-- Between calls: `S` is what has been received too much and what is still to come. -/
structure Ready (S : Bytes) (h : HTTPConnection) : Prop where
  message : h.iMessage ≤ h.iOffset
  offset : h.iOffset < iBuffer
  rest : h.pRcvBuffer.drop h.iMessage ++ pending h.pConnection = S
  clean : Clean h.pConnection

variable {S : Bytes} {h : HTTPConnection} {r : Request}

theorem shifted_ready (hready : Ready S h) : h.shifted.stream = S ∧ Clean h.shifted.pConnection ∧
    h.shifted.iOffset < iBuffer := by
  have hoffset := hready.offset
  rw [iOffset] at hoffset
  rw [shifted]
  by_cases hshift : h.iMessage < h.iOffset
  · rw [if_pos hshift]
    refine ⟨hready.rest, hready.clean, ?_⟩
    show (h.pRcvBuffer.drop h.iMessage).length < iBuffer
    rw [List.length_drop]
    omega
  · rw [if_neg hshift]
    have hnil : h.pRcvBuffer.drop h.iMessage = [] := List.drop_eq_nil_of_le (not_lt.mp hshift)
    refine ⟨?_, hready.clean, by simp [iOffset, iBuffer]⟩
    rw [← hready.rest, hnil]
    rfl

theorem parse_request (hr : WellFormed r) (htext : h.text = r.lines) :
    parseRequestHeader.run h = .ok (int32 h.iHeader)
      { h.terminated with
        sCommand := r.sCommand
        sUrl := r.sUrl
        sProtocol := r.sProtocol
        mFields := r.sent } := by
  have hsearch : search headExpression r.lines =
      some ⟨r.sCommand, r.sUrl, r.sProtocol, r.fields.flatMap field⟩ :=
    search_here (headExpression_line hr (r.fields.flatMap field))
  have hsuffix : r.lines.drop (r.lines.length-(r.fields.flatMap field).length) =
      r.fields.flatMap field := by
    rw [Request.lines, List.length_append, Nat.add_sub_cancel, List.drop_left]
  have hfuel : r.fields.length < r.lines.length+1 := by
    have hlength := fields_length r.fields
    rw [Request.lines, List.length_append]
    omega
  rw [parseRequestHeader, run_get_bind, run_modify_bind, htext, cstr_self (lines_zero hr),
    hsearch]
  dsimp only
  rw [hsuffix, parseFields_fields hr.fields hfuel]
  rfl

/-- The buffer and what is pending, from the content on. -/
structure Holding (r : Request) (more : Bytes) (h : HTTPConnection) : Prop where
  header : h.iHeader = r.header.length
  content : h.iContent = r.content.length
  message : h.iMessage = r.header.length+r.content.length
  offset : h.iOffset < iBuffer
  come : r.header.length ≤ h.iOffset
  rest : h.pRcvBuffer.drop r.header.length ++ pending h.pConnection = r.content ++ more
  clean : Clean h.pConnection

theorem holding_done {more : Bytes} (hh : Holding r more h) (hle : h.iMessage ≤ h.iOffset) :
    h.content = r.content ∧ Ready more h := by
  have hrest := hh.rest
  have hlength : r.content.length ≤ (h.pRcvBuffer.drop r.header.length).length := by
    rw [hh.message, iOffset] at hle
    rw [List.length_drop]
    omega
  have htake : (h.pRcvBuffer.drop r.header.length).take r.content.length = r.content := by
    have hlonger : ((h.pRcvBuffer.drop r.header.length) ++ pending h.pConnection).take
        r.content.length = (h.pRcvBuffer.drop r.header.length).take r.content.length :=
      List.take_append_of_le_length hlength
    rw [← hlonger, hrest, List.take_left]
  have hdrop : (h.pRcvBuffer.drop r.header.length).drop r.content.length ++
      pending h.pConnection = more := by
    rw [← List.drop_append_of_le_length hlength, hrest, List.drop_left]
  constructor
  · rw [HTTPConnection.content, hh.header, hh.content, htake]
  · refine ⟨hle, hh.offset, ?_, hh.clean⟩
    rw [hh.message, ← List.drop_drop, hdrop]

/-- What is missing of the content comes in. -/
theorem completed_holding {more : Bytes} (hh : Holding r more h) (hmore : h.iOffset < h.iMessage)
    (hfits : h.iMessage < iBuffer) :
    (receiveSmartWhole h.pConnection (h.iMessage-h.iOffset)).1 =
        .ok ((h.iMessage-h.iOffset : ℕ) : ℤ) ∧
      Holding r more h.completed ∧ h.completed.iMessage ≤ h.completed.iOffset := by
  have hrest := hh.rest
  have hcome := hh.come
  have hmessage := hh.message
  have hlengths := congrArg List.length hrest
  rw [List.length_append, List.length_append, List.length_drop] at hlengths
  have henough : h.iMessage-h.iOffset ≤ (pending h.pConnection).length := by
    rw [iOffset] at hcome hmore ⊢
    omega
  rcases receiveWhole_clean h.pConnection.bBlocking h.pConnection.arrivals []
    hh.clean henough with ⟨hdata, hleft, hclean⟩
  rw [List.nil_append] at hdata
  have hlen : (receiveWhole h.pConnection.bBlocking h.pConnection.arrivals
      (h.iMessage-h.iOffset) []).data.length = h.iMessage-h.iOffset := by
    rw [hdata, List.length_take]
    exact Nat.min_eq_left henough
  have hbuffer : h.completed.pRcvBuffer =
      h.pRcvBuffer ++ (pending h.pConnection).take (h.iMessage-h.iOffset) :=
    (if_pos hlen).trans (congrArg (h.pRcvBuffer ++ ·) hdata)
  have hoffset : h.completed.iOffset = h.iMessage := by
    rw [iOffset, hbuffer, List.length_append, List.length_take, Nat.min_eq_left henough]
    exact Nat.add_sub_cancel' hmore.le
  refine ⟨if_pos hlen, ⟨hh.header, hh.content, hh.message, ?_, ?_, ?_, hclean⟩, hoffset.ge⟩
  · rw [hoffset]
    exact hfits
  · rw [hoffset]
    omega
  · have hpending : pending h.completed.pConnection =
        (pending h.pConnection).drop (h.iMessage-h.iOffset) := hleft
    rw [hpending, hbuffer, List.drop_append_of_le_length hcome, List.append_assoc,
      List.take_append_drop, hrest]

theorem receiveContent_run {more : Bytes} (hh : Holding r more h) (hfits : h.iMessage < iBuffer) :
    ∃ h', receiveContent.run h = .ok true h' ∧ Holding r more h' ∧ h'.iMessage ≤ h'.iOffset ∧
      h'.sCommand = h.sCommand ∧ h'.sUrl = h.sUrl ∧ h'.sProtocol = h.sProtocol ∧
      h'.mFields = h.mFields ∧ h'.iMessage = h.iMessage := by
  rw [receiveContent, run_get_bind, if_neg (not_lt.mpr hfits.le)]
  by_cases hmore : h.iOffset < h.iMessage
  · rcases completed_holding hh hmore hfits with ⟨hstatus, hholding, hle⟩
    have hpos : (0 : ℤ) < ((h.iMessage-h.iOffset : ℕ) : ℤ) := by omega
    rw [if_pos hmore, run_modify_bind, run_ofExcept_bind hstatus]
    refine ⟨h.completed, ?_, hholding, hle, rfl, rfl, rfl, rfl, rfl⟩
    show EStateM.Result.ok (decide _) _ = _
    rw [decide_eq_true hpos]
  · rw [if_neg hmore]
    exact ⟨h, rfl, hh, not_lt.mp hmore, rfl, rfl, rfl, rfl, rfl⟩

theorem header_length (r : Request) : r.header.length = r.lines.length+2 := by
  rw [Request.header, List.length_append]
  rfl

/-- From the header found to the length known. -/
theorem measured_holding {more : Bytes} (hr : WellFormed r) (hstream : h.stream = r.bytes ++ more)
    (hlast : h.pLastMarker = r.lines.length) (hcome : h.pLastMarker+2 ≤ h.iOffset)
    (hoffset : h.iOffset < iBuffer) (hclean : Clean h.pConnection) :
    Holding r more (measured
      { ({ h with iHeader := (h.pLastMarker+2).toNat } : HTTPConnection).terminated with
        sCommand := r.sCommand
        sUrl := r.sUrl
        sProtocol := r.sProtocol
        mFields := r.sent }) := by
  have hlength := header_length r
  have hfits := hr.fits
  have hbuffer : iBuffer = 64000 := rfl
  have hheader : (h.pLastMarker+2).toNat = r.header.length := by omega
  have hset : (h.pRcvBuffer.set h.pLastMarker.toNat 0).drop r.header.length =
      h.pRcvBuffer.drop r.header.length := List.drop_set_of_lt (by omega)
  have hcome' : r.header.length ≤ h.pRcvBuffer.length := by
    rw [iOffset] at hcome
    omega
  refine ⟨hheader, declared_length hr, ?_, ?_, ?_, ?_, hclean⟩
  · show uint32 ((h.pLastMarker+2).toNat+uint32 (atoi (r.sent.value lengthKey))) = _
    rw [hheader, declared_length hr, ← Nat.cast_add, uint32_of_range]
    omega
  · show (h.pRcvBuffer.set _ _).length < iBuffer
    rw [List.length_set]
    exact hoffset
  · show r.header.length ≤ (h.pRcvBuffer.set _ _).length
    rw [List.length_set]
    exact hcome'
  · show (h.pRcvBuffer.set _ _).drop _ ++ pending h.pConnection = _
    rw [hset]
    rw [stream, Request.bytes, List.append_assoc] at hstream
    have hdrop := congrArg (List.drop r.header.length) hstream
    rwa [List.drop_append_of_le_length hcome', List.drop_left] at hdrop

/-- A call takes the next request off the stream. -/
theorem receiveMessage_request {more : Bytes} (hr : WellFormed r)
    (hready : Ready (r.bytes ++ more) h) :
    ∃ iStatus h', (receiveMessage true).run h = .ok iStatus h' ∧ 0 < iStatus ∧
      message h' = r.message (r.sent.touch lengthKey) ∧ Ready more h' := by
  rcases shifted_ready hready with ⟨hstream, hclean, hoffset⟩
  have hresumed := shifted_resumed h
  rw [hstream] at hresumed
  have hlength := header_length r
  have hfits := hr.fits
  have hbuffer : iBuffer = 64000 := rfl
  rcases findMarker_finds (iBuffer+1) hresumed hclean (scan_header hr more) (by omega) hoffset
    (by omega) with ⟨h₁, hfound, hlast, hstream₁, hoffset₁, hcome₁, hclean₁, -⟩
  rw [← hlast] at hcome₁
  have htext : ({ h₁ with iHeader := (h₁.pLastMarker+2).toNat } : HTTPConnection).text =
      r.lines := by
    show h₁.pRcvBuffer.take h₁.pLastMarker.toNat = r.lines
    have htake := congrArg (List.take h₁.pLastMarker.toNat) hstream₁
    rw [iOffset] at hcome₁
    rw [stream, List.take_append_of_le_length (by omega), hlast, Int.toNat_natCast, Request.bytes,
      Request.header, List.append_assoc, List.append_assoc, List.take_left] at htake
    rwa [hlast, Int.toNat_natCast]
  have hparse := parse_request hr htext
  have hholding := measured_holding hr hstream₁ hlast hcome₁ hoffset₁ hclean₁
  have hmessage := hholding.message
  rcases receiveContent_run hholding (by omega) with
    ⟨h₂, hcontent, hholding₂, hle₂, hcommand, hurl, hprotocol, hfields, hsame⟩
  rcases holding_done hholding₂ hle₂ with ⟨hbytes, hnext⟩
  have hheader : (0 : ℤ) ≤ int32 ((h₁.pLastMarker+2).toNat : ℕ) := by
    rw [int32_of_range] <;> omega
  refine ⟨int32 h₂.iMessage, h₂, ?_, ?_, ?_, hnext⟩
  · rw [receiveMessage, receive, run_modify_bind, run_bind_of_ok hfound, if_pos rfl,
      run_modify_bind, run_bind_of_ok hparse, run_get_bind, if_neg (not_lt.mpr hheader),
      run_modify_bind, if_pos rfl, run_bind_of_ok hcontent, run_get_bind, if_pos rfl]
    rfl
  · rw [hholding₂.message, int32_of_range] <;> omega
  · rw [message, hcommand, hurl, hprotocol, hfields, hbytes, hholding₂.content]
    rfl

/-! ## The whole stream -/

/-- What a caller reads from call to call, up to the first that fails. -/
def messages : ℕ → HTTPConnection → List Message
  | 0, _ => []
  | n+1, h =>
    match (receiveMessage true).run h with
    | .ok iStatus h' => if 0 < iStatus then message h'::messages n h' else []
    | .error _ _ => []

theorem receiveOnce_silent (bBlocking : Bool) (arrivals : List Arrival) (n : ℕ)
    (hclean : Undisturbed bBlocking arrivals) (hnil : arrivals.flatMap Arrival.data = []) :
    (receiveOnce bBlocking arrivals n).iVal = 0 := by
  induction arrivals with
  | nil => rfl
  | cons a rest ih =>
    have hrest : Undisturbed bBlocking rest := fun a ha => hclean a (List.mem_cons_of_mem _ ha)
    rw [List.flatMap_cons, List.append_eq_nil_iff] at hnil
    rcases hclean a (List.mem_cons_self ..) with ⟨bs, rfl⟩ | ⟨rfl, hb⟩
    · have hempty : bs = [] := hnil.1
      rw [receiveOnce, if_pos hempty]
      exact ih hrest hnil.2
    · rw [receiveOnce, if_pos hb]
      exact ih hrest hnil.2

/-- Where nothing is left, no message is received. -/
theorem messages_nil (n : ℕ) (hready : Ready [] h) : messages n h = [] := by
  cases n with
  | zero => rfl
  | succ n =>
    rcases shifted_ready hready with ⟨hstream, hclean, -⟩
    rw [stream, List.append_eq_nil_iff] at hstream
    have hmarker : marker h.shifted.pRcvBuffer h.shifted.pLastMarker =
        (false, h.shifted.pLastMarker) := by
      rw [marker, hstream.1, List.drop_nil, scan]
    have hsilent := receiveOnce_silent h.shifted.pConnection.bBlocking
      h.shifted.pConnection.arrivals h.shifted.room hclean hstream.2
    rw [messages, receiveMessage, receive, run_modify_bind, findMarker]
    cases hstatus : (receiveRaw h.shifted.pConnection h.shifted.room).1 with
    | error e =>
      rw [run_bind_of_error]
      rw [run_get_bind, run_modify_bind, hmarker, if_neg Bool.false_ne_true, run_modify_bind]
      exact run_ofExcept_error hstatus _
    | ok iBytes =>
      have hzero : iBytes ≤ 0 := by
        by_contra hpos
        have hval : 0 < (receiveOnce _ _ _).iVal := evaluateStatus_ok hstatus (not_le.mp hpos)
        rw [hsilent] at hval
        exact lt_irrefl _ hval
      rw [run_bind_of_ok (a := false)]
      · rw [if_neg Bool.false_ne_true]
        rfl
      · rw [run_get_bind, run_modify_bind, hmarker, if_neg Bool.false_ne_true, run_modify_bind,
          run_ofExcept_bind hstatus, if_pos hzero]
        rfl

theorem messages_ready (rs : List Request) (hrs : ∀ r ∈ rs, WellFormed r) {n : ℕ}
    (hn : rs.length ≤ n) (hready : Ready (rs.flatMap Request.bytes) h) :
    messages n h = rs.map fun r => r.message (r.sent.touch lengthKey) := by
  induction rs generalizing n h with
  | nil => exact messages_nil n hready
  | cons r rs ih =>
    cases n with
    | zero => exact absurd hn (by simp)
    | succ n =>
      rw [List.flatMap_cons] at hready
      rcases receiveMessage_request (hrs r (List.mem_cons_self ..)) hready with
        ⟨iStatus, h', hrun, hpos, hmessage, hnext⟩
      rw [messages, hrun]
      dsimp only
      rw [if_pos hpos, hmessage, List.map_cons]
      congr 1
      exact ih (fun r hr => hrs r (List.mem_cons_of_mem _ hr)) (Nat.le_of_succ_le_succ hn) hnext

/-- However a stream of requests is cut, the messages are the requests, with these fields. -/
def Framed (fields : Request → Fields) : Prop :=
  ∀ (rs : List Request) (c : ConnectionInterface) (sApplication : String) (n : ℕ),
    (∀ r ∈ rs, WellFormed r) → Clean c → pending c = rs.flatMap Request.bytes → rs.length ≤ n →
      messages n (new c sApplication) = rs.map fun r => r.message (fields r)

/-- A request without a Content-Length gets an empty one. -/
theorem framed : Framed fun r => r.sent.touch lengthKey := by
  intro rs c sApplication n hrs hclean hpending hn
  apply messages_ready rs hrs hn
  refine ⟨le_rfl, by simp [new, iOffset, iBuffer], ?_, hclean⟩
  rw [← hpending]
  rfl

def bareRequest : Request where
  sCommand := [71, 69, 84]
  sUrl := [47]
  sProtocol := [72]
  fields := []
  content := []

theorem bareRequest_formed : WellFormed bareRequest where
  command := ⟨by simp [bareRequest], by simp [bareRequest, isWord], by simp [bareRequest]⟩
  url := ⟨by simp [bareRequest], by simp [bareRequest, isGraph, isSpace], by simp [bareRequest]⟩
  protocol := ⟨by simp [bareRequest], by simp [bareRequest, isGraph, isSpace], by simp [bareRequest]⟩
  fields := by simp [bareRequest]
  length := show bareRequest.content = [] from rfl
  fits := by decide

theorem fields_not_sent : ¬ Framed Request.sent := by
  intro hframed
  let c : ConnectionInterface := ⟨true, false, [.bytes bareRequest.bytes], [], [], ""⟩
  have hclean : Clean c := fun a ha => Or.inl ⟨_, List.mem_singleton.mp ha⟩
  have hformed : ∀ r ∈ [bareRequest], WellFormed r := by
    intro r hr
    rw [List.mem_singleton.mp hr]
    exact bareRequest_formed
  have hsent := hframed [bareRequest] c "HTTP/1.1" 1 hformed hclean
    (by simp [pending, c, Arrival.data]) le_rfl
  have hready : Ready ([bareRequest].flatMap Request.bytes) (new c "HTTP/1.1") :=
    ⟨le_rfl, by simp [new, iOffset, iBuffer], by simp [pending, c, Arrival.data, new], hclean⟩
  have hread := messages_ready [bareRequest] hformed (n := 1) le_rfl hready
  rw [hsent] at hread
  exact absurd hread (by decide)

end Sirannon.HTTP
