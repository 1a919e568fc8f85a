import Sirannon.HTTPSafety
import Sirannon.HTTPSending

/-!
# What a receiver reads

The fields a receiver reads out of a header are counted against the bytes of
the header, so a field that was cut off on the way cannot come back whole.
-/

set_option autoImplicit false

namespace Sirannon.HTTP.HTTPConnection
open Bits MachineInt Connection StateError Request

/-! ## Matches -/

theorem search_some {α : Type} {expression : Bytes → Option α} {s : Bytes} {m : α}
    (h : search expression s = some m) :
    ∃ before rest, s = before ++ rest ∧ expression rest = some m := by
  induction s with
  | nil => exact ⟨[], [], rfl, h⟩
  | cons b s ih =>
    rw [search] at h
    cases hhere : expression (b::s) with
    | some m' =>
      rw [hhere] at h
      obtain rfl := Option.some.inj h
      exact ⟨[], b::s, rfl, hhere⟩
    | none =>
      rw [hhere] at h
      rcases ih h with ⟨before, rest, rfl, hrest⟩
      exact ⟨b::before, rest, rfl, hrest⟩

theorem run_some {p : UInt8 → Bool} {s xs rest : Bytes} (h : HTTP.run p s = some (xs, rest)) :
    s = xs ++ rest ∧ xs ≠ [] ∧ ∀ x ∈ xs, p x = true := by
  rw [HTTP.run] at h
  split at h
  · cases h
  case isFalse hne =>
    rcases Prod.mk.inj (Option.some.inj h) with ⟨rfl, rfl⟩
    exact ⟨List.takeWhile_append_dropWhile.symm, hne, fun x hx => List.mem_takeWhile_imp hx⟩

theorem expect_some {word s rest : Bytes} (h : expect word s = some rest) : s = word ++ rest := by
  rw [expect] at h
  split at h
  case isTrue hprefix =>
    obtain rfl := Option.some.inj h
    exact (List.prefix_append_drop hprefix)
  · cases h

theorem upToLineEnd_some {s v rest : Bytes} (h : upToLineEnd s = some (v, rest)) :
    s = v ++ crlf ++ rest := by
  induction s generalizing v with
  | nil => cases h
  | cons b s ih =>
    rw [upToLineEnd] at h
    cases hend : expect crlf (b::s) with
    | some suffix =>
      rw [hend] at h
      rcases Prod.mk.inj (Option.some.inj h) with ⟨rfl, rfl⟩
      exact expect_some hend
    | none =>
      rw [hend] at h
      rcases Option.map_eq_some_iff.mp h with ⟨⟨v', rest'⟩, hrest, heq⟩
      rcases Prod.mk.inj heq with ⟨rfl, rfl⟩
      rw [ih hrest]
      rfl

theorem bodyExpression_some {s : Bytes} {m : Pair} (h : bodyExpression s = some m) :
    s = field (m.sKey, m.sValue) ++ m.suffix ∧ m.sKey ≠ [] := by
  simp only [bodyExpression, Option.bind_eq_bind, Option.bind_eq_some_iff] at h
  rcases h with ⟨⟨sKey, s₁⟩, hkey, s₂, hcolon, ⟨sValue, suffix⟩, hvalue, heq⟩
  obtain rfl := Option.some.inj heq
  dsimp only at hcolon ⊢
  rcases run_some hkey with ⟨hs, hne, -⟩
  rw [hs, expect_some hcolon, upToLineEnd_some hvalue]
  exact ⟨by simp [field], hne⟩

/-- The words of the first line of a request, and the end of the line before the suffix. -/
theorem headExpression_some {s : Bytes} {m : Head} (h : headExpression s = some m) :
    (∃ before, s = before ++ crlf ++ m.suffix) ∧ (0 ∉ s → Word isWord m.sCommand ∧
      Word isGraph m.sUrl) := by
  simp only [headExpression, Option.bind_eq_bind, Option.bind_eq_some_iff] at h
  rcases h with ⟨⟨sCommand, s₁⟩, hcommand, s₂, hspace, ⟨sUrl, s₃⟩, hurl, s₄, hspace', ⟨sProtocol,
    s₅⟩, hprotocol, suffix, hend, heq⟩
  obtain rfl := Option.some.inj heq
  dsimp only at hspace hspace' hend ⊢
  rcases run_some hcommand with ⟨hs, hne, hchars⟩
  rcases run_some hurl with ⟨hs₂, hne', hchars'⟩
  rw [hs, expect_some hspace, hs₂, expect_some hspace', (run_some hprotocol).1, expect_some hend]
  constructor
  · exact ⟨sCommand ++ ([32] ++ (sUrl ++ ([32] ++ sProtocol))), by simp⟩
  · intro hzero
    simp only [List.mem_append, not_or] at hzero
    exact ⟨⟨hne, hchars, hzero.1⟩, hne', hchars', hzero.2.2.1⟩

theorem replyExpression_some {s : Bytes} {m : ReplyHead} (h : replyExpression s = some m) :
    (∃ before, s = before ++ crlf ++ m.suffix) ∧ (0 ∉ s → Word isGraph m.sStatus) := by
  simp only [replyExpression, Option.bind_eq_bind, Option.bind_eq_some_iff] at h
  rcases h with ⟨⟨sProtocol, s₁⟩, hprotocol, s₂, hspace, ⟨iStatus, s₃⟩, hnumber, s₄, hspace',
    ⟨sStatus, s₅⟩, hstatus, suffix, hend, heq⟩
  obtain rfl := Option.some.inj heq
  dsimp only at hspace hspace' hend ⊢
  rcases run_some hstatus with ⟨hs₄, hne, hchars⟩
  rw [(run_some hprotocol).1, expect_some hspace, (run_some hnumber).1, expect_some hspace', hs₄,
    expect_some hend]
  constructor
  · exact ⟨sProtocol ++ ([32] ++ (iStatus ++ ([32] ++ sStatus))), by simp⟩
  · intro hzero
    simp only [List.mem_append, not_or] at hzero
    exact ⟨hne, hchars, hzero.2.2.2.2.1⟩

theorem cstr_zero (s : Bytes) : 0 ∉ cstr s := by
  intro hmem
  have hpos := List.mem_takeWhile_imp hmem
  simp at hpos

theorem cstr_length_le (s : Bytes) : (cstr s).length ≤ s.length :=
  (List.takeWhile_sublist _).length_le

/-! ## The fields that are read -/

/-- What a field that was read looks like. -/
def Readable (f : Bytes × Bytes) : Prop := f.1 ≠ [] ∧ 0 ∉ f.2

/-- The step of the loop: a field and what it takes away of the text. -/
theorem search_field {s : Bytes} {m : Pair} (h : search bodyExpression (cstr s) = some m) :
    Readable (m.sKey, m.sValue) ∧
      (s.drop ((cstr s).length-m.suffix.length)).length+weight (m.sKey, m.sValue) ≤ s.length := by
  rcases search_some h with ⟨before, rest, hsplit, hmatch⟩
  rcases bodyExpression_some hmatch with ⟨hrest, hne⟩
  have hzero := cstr_zero s
  have hlength := cstr_length_le s
  rw [hsplit, hrest] at hzero hlength ⊢
  constructor
  · refine ⟨hne, fun hmem => hzero ?_⟩
    simp [field, hmem]
  · rw [List.length_append, List.length_append, field_length] at hlength ⊢
    rw [List.length_drop]
    omega

theorem parseFields_weights {fuel : ℕ} {s : Bytes} {mFields mRead : Fields} {bMatched : Bool}
    (h : parseFields fuel s mFields = (bMatched, mRead)) :
    weights mRead ≤ weights mFields+s.length := by
  induction fuel generalizing s mFields with
  | zero =>
    obtain rfl := (Prod.mk.inj h).2
    omega
  | succ fuel ih =>
    rw [parseFields] at h
    split at h
    · obtain rfl := (Prod.mk.inj h).2
      omega
    · split at h
      · obtain rfl := (Prod.mk.inj h).2
        omega
      case h_2 m hmatch =>
        have hassign := weights_assign m.sKey m.sValue mFields
        have htaken := (search_field hmatch).2
        have hrest := ih h
        omega

theorem parseFields_readable {fuel : ℕ} {s : Bytes} {mFields mRead : Fields} {bMatched : Bool}
    (h : parseFields fuel s mFields = (bMatched, mRead)) (hall : ∀ f ∈ mFields, Readable f) :
    ∀ f ∈ mRead, Readable f := by
  induction fuel generalizing s mFields with
  | zero =>
    obtain rfl := (Prod.mk.inj h).2
    exact hall
  | succ fuel ih =>
    rw [parseFields] at h
    split at h
    · obtain rfl := (Prod.mk.inj h).2
      exact hall
    · split at h
      · obtain rfl := (Prod.mk.inj h).2
        exact hall
      case h_2 m hmatch =>
        apply ih h
        intro f hf
        rcases assign_mem hf with rfl | hf
        · exact (search_field hmatch).1
        · exact hall f hf

/-! ## Both parse functions -/

structure Words where
  sCommand : Bytes
  sUrl : Bytes
  sProtocol : Bytes
  iStatus : ℕ
  sStatus : Bytes

def words (h : HTTPConnection) : Words :=
  ⟨h.sCommand, h.sUrl, h.sProtocol, h.iStatus, h.sStatus⟩

def entered (h : HTTPConnection) (w : Words) (mFields : Fields) : HTTPConnection :=
  { h with
    sCommand := w.sCommand
    sUrl := w.sUrl
    sProtocol := w.sProtocol
    iStatus := w.iStatus
    sStatus := w.sStatus
    mFields := mFields }

/-- The expression of the first line, what follows it and the words it gives. -/
structure FirstLine (α : Type) where
  expression : Bytes → Option α
  suffix : α → Bytes
  enter : α → Words → Words

def parseWith {α : Type} (l : FirstLine α) : Receiving ℤ := do
  let h ← get
  modify terminated
  match search l.expression (cstr h.text) with
  | none => return -1
  | some m => do
    let suffix := h.text.drop ((cstr h.text).length-(l.suffix m).length)
    let r := parseFields (h.text.length+1) suffix []
    modify fun h => h.entered (l.enter m h.words) r.2
    if r.1 then return int32 h.iHeader else return -1

def requestLine : FirstLine Head where
  expression := headExpression
  suffix := Head.suffix
  enter m w := { w with sCommand := m.sCommand, sUrl := m.sUrl, sProtocol := m.sProtocol }

def replyLine : FirstLine ReplyHead where
  expression := replyExpression
  suffix := ReplyHead.suffix
  enter m w := { w with
    sProtocol := m.sProtocol
    iStatus := uint32 (atoi m.iStatus)
    sStatus := m.sStatus }

theorem parseRequestHeader_with : parseRequestHeader = parseWith requestLine := by
  funext h
  show parseRequestHeader.run h = (parseWith requestLine).run h
  rw [parseRequestHeader, parseWith, run_get_bind, run_modify_bind, run_get_bind, run_modify_bind]
  cases hmatch : search headExpression (cstr h.text) with
  | none => simp only [requestLine, hmatch]
  | some m =>
    simp only [requestLine, hmatch]
    rfl

theorem parseReplyHeader_with : parseReplyHeader = parseWith replyLine := by
  funext h
  show parseReplyHeader.run h = (parseWith replyLine).run h
  rw [parseReplyHeader, parseWith, run_get_bind, run_modify_bind, run_get_bind, run_modify_bind]
  cases hmatch : search replyExpression (cstr h.text) with
  | none => simp only [replyLine, hmatch]
  | some m =>
    simp only [replyLine, hmatch]
    rfl

/-! ## What a call that returns has read -/

/-- The end of the header at `q` and what was read before it. -/
structure Read {α : Type} (l : FirstLine α) (S : Bytes) (bContent : Bool) (h : HTTPConnection)
    (q : ℤ) (m : α) (mRead : Fields) : Prop where
  marker : scan S 0 (-2) = (true, q)
  first : 0 ≤ q
  head : search l.expression (cstr (S.take q.toNat)) = some m
  fields : parseFields ((S.take q.toNat).length+1) ((S.take q.toNat).drop
    ((cstr (S.take q.toNat)).length-(l.suffix m).length)) [] = (true, mRead)
  map : h.mFields = mRead.touch lengthKey
  content : h.iContent = uint32 (atoi (mRead.value lengthKey))
  words : ∃ w, h.words = l.enter m w
  room : bContent = true → uint32 ((q+2).toNat+h.iContent) ≤ iBuffer

/-- What the search and the content leave alone. -/
structure SameRead (h h' : HTTPConnection) : Prop where
  fields : h'.mFields = h.mFields
  words : h'.words = h.words
  content : h'.iContent = h.iContent

instance : IsPreorder HTTPConnection SameRead where
  refl _ := ⟨rfl, rfl, rfl⟩
  trans _ _ _ h h' :=
    ⟨h'.fields.trans h.fields, h'.words.trans h.words, h'.content.trans h.content⟩

theorem findMarker_same (fuel : ℕ) : Along SameRead (findMarker fuel) := by
  induction fuel with
  | zero => exact along_pure false
  | succ fuel ih =>
    rw [findMarker]
    apply along_get_bind
    intro h
    apply along_modify_bind
    · exact fun _ => ⟨rfl, rfl, rfl⟩
    · apply along_ite
      · exact along_pure true
      · apply along_modify_bind
        · exact fun _ => ⟨rfl, rfl, rfl⟩
        · apply along_bind
          · exact along_ofExcept _
          · intro iBytes
            exact along_ite (along_pure false) ih

theorem receiveContent_ok {h h' : HTTPConnection} {bComplete : Bool}
    (hrun : receiveContent.run h = .ok bComplete h') : h.iMessage ≤ iBuffer ∧ SameRead h h' := by
  rw [receiveContent, run_get_bind] at hrun
  by_cases hlarge : iBuffer < h.iMessage
  · rw [if_pos hlarge] at hrun
    cases hrun
  · rw [if_neg hlarge] at hrun
    refine ⟨not_lt.mp hlarge, ?_⟩
    by_cases hmore : h.iOffset < h.iMessage
    · rw [if_pos hmore, run_modify_bind] at hrun
      rcases run_bind_ok.mp hrun with ⟨iStatus, h₁, hstatus, hreturn⟩
      cases hdata : (receiveSmartWhole h.pConnection (h.iMessage-h.iOffset)).1 with
      | error e =>
        rw [hdata] at hstatus
        cases hstatus
      | ok i =>
        rw [hdata] at hstatus
        cases hstatus
        cases hreturn
        exact ⟨rfl, rfl, rfl⟩
    · rw [if_neg hmore] at hrun
      cases hrun
      exact ⟨rfl, rfl, rfl⟩

/-- The end of a call, once the content is measured. -/
theorem rest_ok {bContent : Bool} {h h' : HTTPConnection} {iRet : ℤ}
    (hrun : (do
      let bComplete ← if bContent then receiveContent else pure true
      let h ← get
      if bComplete then return int32 h.iMessage else return -1 : Receiving ℤ).run h =
        .ok iRet h') : SameRead h h' ∧ (bContent = true → h.iMessage ≤ iBuffer) := by
  dsimp only at hrun
  cases bContent with
  | false =>
    rw [if_neg Bool.false_ne_true, run_pure_bind, run_get_bind] at hrun
    cases hrun
    exact ⟨⟨rfl, rfl, rfl⟩, fun h => by cases h⟩
  | true =>
    rw [if_pos rfl] at hrun
    rcases run_bind_ok.mp hrun with ⟨bComplete, h₁, hcontent, hrest⟩
    rcases receiveContent_ok hcontent with ⟨hroom, hsame⟩
    rw [run_get_bind] at hrest
    refine ⟨?_, fun _ => hroom⟩
    cases bComplete with
    | false =>
      cases hrest
      exact hsame
    | true =>
      cases hrest
      exact hsame

theorem receive_read {α : Type} {l : FirstLine α} {bContent : Bool} {h h' : HTTPConnection}
    {iRet : ℤ} (hrun : (receive (parseWith l) bContent).run h = .ok iRet h')
    (hoffset : h.iOffset < iBuffer) (hwritten : h.written = []) (hempty : h.mFields = [])
    (hne : h'.mFields ≠ []) : ∃ q m mRead, Read l h.shifted.stream bContent h' q m mRead := by
  have hresumed := shifted_resumed h
  have hwithin : Within h.shifted := by
    apply shifted_within (Or.inl hoffset) hoffset.le
    rw [hwritten]
    exact fun w hw => by cases hw
  have hshifted : h.shifted.mFields = [] := by
    rw [← hempty, shifted]
    split <;> rfl
  rw [receive, run_modify_bind] at hrun
  rcases run_bind_ok.mp hrun with ⟨bMessage, h₁, hfind, hrun⟩
  have hfound := triple_ok (findMarker_within h.shifted.stream (iBuffer+1)) ⟨hresumed, hwithin⟩ hfind
  have hsame := findMarker_same (iBuffer+1) h.shifted
  rw [hfind] at hsame
  cases bMessage with
  | false =>
    rw [if_neg Bool.false_ne_true] at hrun
    cases hrun
    exact absurd (hsame.fields.trans hshifted) hne
  | true =>
    have hf := hfound.2 rfl
    have htext := found_text hf
    rw [headerOf, hf.marker] at htext
    rw [if_pos rfl, run_modify_bind] at hrun
    rcases run_bind_ok.mp hrun with ⟨iStatus, h₂, hparse, hrun⟩
    rw [run_get_bind] at hrun
    by_cases hstatus : iStatus < 0
    · rw [if_pos hstatus] at hrun
      cases hrun
    rw [if_neg hstatus, run_modify_bind] at hrun
    rw [parseWith, run_get_bind, run_modify_bind] at hparse
    have htext' : ({ h₁ with iHeader := (h₁.pLastMarker+2).toNat } : HTTPConnection).text =
      h.shifted.stream.take h₁.pLastMarker.toNat := htext
    rw [htext'] at hparse
    cases hmatch : search l.expression (cstr (h.shifted.stream.take h₁.pLastMarker.toNat)) with
    | none =>
      rw [hmatch] at hparse
      cases hparse
      exact absurd (by decide) hstatus
    | some m =>
      rw [hmatch] at hparse
      simp only [run_modify_bind] at hparse
      rcases hfields : parseFields ((h.shifted.stream.take h₁.pLastMarker.toNat).length+1)
        ((h.shifted.stream.take h₁.pLastMarker.toNat).drop
          ((cstr (h.shifted.stream.take h₁.pLastMarker.toNat)).length-(l.suffix m).length)) [] with
        ⟨bMatched, mRead⟩
      rw [hfields] at hparse
      cases bMatched with
      | false =>
        cases hparse
        exact absurd (by decide) hstatus
      | true =>
        cases hparse
        rcases rest_ok hrun with ⟨hsame', hroom⟩
        refine ⟨h₁.pLastMarker, m, mRead, hf.marker, hf.first, hmatch, hfields, hsame'.fields,
          hsame'.content, ⟨_, hsame'.words⟩, ?_⟩
        rw [hsame'.content]
        exact hroom

/-! ## Bytes of a header -/

/-- The header ends where an end of a line stands. -/
theorem scan_crlf {s : Bytes} {p last q : ℤ} (h : scan s p last = (true, q)) :
    crlf <+: s.drop (q-p).toNat := by
  induction s generalizing p last with
  | nil => cases h
  | cons a s ih =>
    cases s with
    | nil => cases h
    | cons b s =>
      have hbounds := scan_bounds h
      rw [scan] at h
      split_ifs at h with hmark hend
      · have hq : p = q := congrArg Prod.snd h
        rw [hmark.1, hmark.2, hq, sub_self]
        exact List.prefix_append [13, 10] s
      · have hle := (scan_bounds h).1
        rw [show (q-p).toNat = (q-(p+1)).toNat+1 by omega, List.drop_succ_cons]
        exact ih h
      · have hle := (scan_bounds h).1
        rw [show (q-p).toNat = (q-(p+1)).toNat+1 by omega, List.drop_succ_cons]
        exact ih h

theorem prefix_drop_getElem {s : Bytes} {n : ℕ} (h : crlf <+: s.drop n) :
    s[n]? = some 13 ∧ s[n+1]? = some 10 := by
  rcases h with ⟨rest, hrest⟩
  have hfirst : (s.drop n)[0]? = some 13 := by rw [← hrest]; rfl
  have hsecond : (s.drop n)[1]? = some 10 := by rw [← hrest]; rfl
  rw [List.getElem?_drop] at hfirst hsecond
  exact ⟨hfirst, hsecond⟩

/-- Zeros behind a header do not move its end. -/
theorem marker_inside {header : Bytes} {n : ℕ} {q : ℤ}
    (h : scan (header ++ List.replicate n 0) 0 (-2) = (true, q)) :
    q.toNat+2 ≤ header.length := by
  have hcrlf := (prefix_drop_getElem (scan_crlf h)).2
  rw [sub_zero] at hcrlf
  by_contra hover
  rw [List.getElem?_append_right (by omega), List.getElem?_replicate] at hcrlf
  split at hcrlf
  · exact absurd (Option.some.inj hcrlf) (by decide)
  · cases hcrlf

/-- What follows the end of a line starts behind the first line. -/
theorem suffix_short {line body before suffix : Bytes} {n : ℕ} (hline : 13 ∉ line)
    (h : (line ++ crlf ++ body).take n = before ++ crlf ++ suffix) :
    suffix.length+line.length+2 ≤ n := by
  have hlength := congrArg List.length h
  have hle : ((line ++ crlf ++ body).take n).length ≤ n := by
    rw [List.length_take]
    exact Nat.min_le_left _ _
  have hat : ((line ++ crlf ++ body).take n)[before.length]? = some 13 := by
    rw [h, List.append_assoc, List.getElem?_append_right le_rfl, Nat.sub_self]
    rfl
  have hbehind : line.length ≤ before.length := by
    by_contra hinside
    rw [List.getElem?_take_of_lt, List.append_assoc, List.getElem?_append_left (by omega)] at hat
    · exact hline (List.mem_of_getElem? hat)
    · by_contra hout
      rw [List.getElem?_eq_none (by omega)] at hat
      cases hat
  rw [h] at hle
  simp only [List.length_append, crlf, List.length_cons, List.length_nil] at hle
  omega

/-! ## Weights -/

theorem mem_touch {mFields : Fields} {f : Bytes × Bytes} (h : f ∈ mFields) :
    f ∈ mFields.touch lengthKey := by
  have hassign : ∀ {m : Fields}, m.find lengthKey = none → f ∈ m → f ∈ m.assign lengthKey [] := by
    intro m
    induction m with
    | nil => exact fun _ hf => by cases hf
    | cons g m ih =>
      intro hnone hf
      rw [Fields.find, Option.map_eq_none_iff, List.find?_cons] at hnone
      split at hnone
      · cases hnone
      case h_2 hne =>
        have hkey : lengthKey ≠ g.1 := fun heq => by simp [heq] at hne
        rw [Fields.assign, if_neg hkey]
        split_ifs
        · exact List.mem_cons_of_mem _ hf
        · rcases List.mem_cons.mp hf with rfl | hf
          · exact List.mem_cons_self
          · exact List.mem_cons_of_mem g
              (ih (by rw [Fields.find, hnone, Option.map_none]) hf)
  rw [Fields.touch]
  split
  case h_1 hnone => exact hassign hnone h
  · exact h

theorem touch_readable {mFields : Fields} (h : ∀ f ∈ mFields, Readable f) :
    ∀ f ∈ mFields.touch lengthKey, Readable f := by
  intro f hf
  rw [Fields.touch] at hf
  split at hf
  · rcases assign_mem hf with rfl | hf
    · exact ⟨by decide +kernel, List.not_mem_nil⟩
    · exact h f hf
  · exact h f hf

theorem touch_value (mFields : Fields) :
    (mFields.touch lengthKey).value lengthKey = mFields.value lengthKey := by
  rw [Fields.touch]
  split
  case h_1 hnone => rw [Fields.value, find_assign, Fields.value, hnone]; rfl
  · rfl

/-- Only an empty length can be made up by a receiver. -/
theorem touch_weights {mFields mRead : Fields}
    (h : mRead.touch lengthKey = mFields.touch lengthKey) (hgiven : mFields.find lengthKey ≠ some []) :
    weights mFields ≤ weights mRead := by
  cases hfind : mFields.find lengthKey with
  | none =>
    have hsent : mFields.touch lengthKey = mFields.assign lengthKey [] := by
      rw [Fields.touch, hfind]
    have hweight := weights_assign_new [] hfind
    rw [← hsent, ← h] at hweight
    cases hread : mRead.find lengthKey with
    | none =>
      have hweight' := weights_assign_new [] hread
      rw [Fields.touch, hread] at hweight
      dsimp only at hweight
      omega
    | some v =>
      rw [Fields.touch, hread] at hweight
      dsimp only at hweight
      omega
  | some v =>
    have hsent : mFields.touch lengthKey = mFields := by rw [Fields.touch, hfind]
    rw [hsent] at h
    cases hread : mRead.find lengthKey with
    | none =>
      rw [Fields.touch, hread] at h
      rw [← h, find_assign] at hgiven
      exact absurd rfl hgiven
    | some v' =>
      rw [Fields.touch, hread] at h
      exact le_of_eq (congrArg weights h.symm)

theorem tempFields_length {mFields : Fields} (h : ∀ f ∈ mFields, 0 ∉ f.1 ∧ 0 ∉ f.2) :
    (mFields.flatMap tempField).length = (mFields.map fun f => min (weight f) 1023).sum := by
  induction mFields with
  | nil => rfl
  | cons f mFields ih =>
    rcases h f List.mem_cons_self with ⟨hkey, hvalue⟩
    rw [List.flatMap_cons, List.length_append, tempField_length, cstr_self hkey, cstr_self hvalue,
      ih fun g hg => h g (List.mem_cons_of_mem f hg), List.map_cons, List.sum_cons]

theorem mins_le (mFields : Fields) :
    (mFields.map fun f => min (weight f) 1023).sum ≤ weights mFields := by
  induction mFields with
  | nil => exact le_rfl
  | cons f mFields ih =>
    simp only [weights, List.map_cons, List.sum_cons] at ih ⊢
    omega

/-- If nothing was lost, no field was cut. -/
theorem all_short {mFields : Fields}
    (h : weights mFields ≤ (mFields.map fun f => min (weight f) 1023).sum) :
    ∀ f ∈ mFields, weight f ≤ 1023 := by
  induction mFields with
  | nil => exact fun f hf => by cases hf
  | cons g mFields ih =>
    have hrest := mins_le mFields
    simp only [weights, List.map_cons, List.sum_cons] at h hrest ih
    intro f hf
    rcases List.mem_cons.mp hf with rfl | hf
    · omega
    · exact ih (by omega) f hf

end Sirannon.HTTP.HTTPConnection
