import Mathlib.Data.String.Basic
import Sirannon.HTTPReading

/-!
# Headers from one connection to another

A header comes back as it was sent exactly when its first line is made of
words, each field fits in the small buffer and all of it in the large one.
-/

set_option autoImplicit false

namespace Sirannon.HTTP.HTTPConnection
open Bits MachineInt Connection StateError Request

/-- The status or the command and URL, as the receiver has them. -/
def Outgoing.Matches (h : HTTPConnection) : Outgoing → Prop
  | .reply iStatus sStatus => h.iStatus = iStatus ∧ h.sStatus = sStatus
  | .message sCommand sUrl => h.sCommand = sCommand ∧ h.sUrl = sUrl

/-- Whatever content of this size follows, and however the stream is cut. -/
def RoundTrips (o : Outgoing) (sProtocol : Bytes) (mFields : Fields) (iSize : ℕ)
    (bContent : Bool) : Prop :=
  ∀ (c peer : ConnectionInterface) (pData more : Bytes) (sApplication : String), c.sends = [] →
    c.out = [] → pData.length = iSize → Clean peer →
      (∃ iRet, (o.send sProtocol c pData mFields).1 = .ok iRet) ∧
        (pending peer = (o.send sProtocol c pData mFields).2.out ++ more →
          ∃ iRet h, (o.receive bContent).run (new peer sApplication) = .ok iRet h ∧
            o.Matches h ∧ h.mFields = (withLength mFields iSize).touch lengthKey ∧
            h.iContent = iSize)

def Outgoing.Formed : Outgoing → Prop
  | .reply _ sStatus => Word isGraph sStatus
  | .message sCommand sUrl => Word isWord sCommand ∧ Word isGraph sUrl

def headerLength (o : Outgoing) (sProtocol : Bytes) (mFields : Fields) : ℕ :=
  (o.words sProtocol).length+weights mFields+4

/-- What a header must be like to come back. -/
structure Sendable (o : Outgoing) (sProtocol : Bytes) (mFields : Fields) (iSize : ℕ)
    (bContent : Bool) : Prop where
  head : o.Formed
  readable : ∀ f ∈ withLength mFields iSize, Readable f
  short : ∀ f ∈ withLength mFields iSize, weight f ≤ 1023
  fits : headerLength o sProtocol (withLength mFields iSize) < iSndBuffer
  length : iSize = 0 → uint32 (atoi (mFields.value lengthKey)) = 0
  room : bContent = true →
    uint32 (headerLength o sProtocol (withLength mFields iSize)+iSize) ≤ iBuffer

/-- The arguments as the callers give them: a map, and strings of the characters allowed. -/
structure Given (o : Outgoing) (sProtocol : Bytes) (mFields : Fields) (iSize : ℕ) : Prop where
  protocol : Word isGraph sProtocol
  ordered : Ordered mFields
  keys : ∀ f ∈ mFields, ∀ b ∈ f.1, isName b = true
  values : ∀ f ∈ mFields, 13 ∉ f.2 ∧ 10 ∉ f.2
  size : iSize < 2^32
  status : ∀ iStatus sStatus, o = .reply iStatus sStatus → iStatus < 2^31

/-! ## Numbers -/

theorem toList_loop (bs : ByteArray) (i : ℕ) (r : Bytes) :
    ByteArray.toList.loop bs i r = r.reverse ++ bs.data.toList.drop i := by
  by_cases hmore : i < bs.size
  · have hmore' : i < bs.data.toList.length := by
      rw [Array.length_toList]
      exact hmore
    have hget : bs.get! i = bs.data.toList[i] := by
      show bs.data[i]! = _
      rw [getElem!_pos bs.data i hmore, Array.getElem_toList]
    rw [ByteArray.toList.loop, if_pos hmore, toList_loop bs (i+1), List.reverse_cons,
      List.drop_eq_getElem_cons hmore', hget, List.append_assoc]
    rfl
  · have hdone : bs.data.toList.drop i = [] := by
      rw [List.drop_eq_nil_iff, Array.length_toList]
      exact not_lt.mp hmore
    rw [ByteArray.toList.loop, if_neg hmore, hdone, List.append_nil]
termination_by bs.size-i

theorem toList_data (bs : ByteArray) : bs.toList = bs.data.toList := by
  rw [ByteArray.toList, toList_loop]
  rfl

theorem ascii_data (s : String) : ascii s = s.toUTF8.data.toList := toList_data _

/-- Digits are bytes of their own. -/
theorem utf8Encode_digits {cs : List Char} (h : ∀ c ∈ cs, c.isDigit = true) :
    cs.utf8Encode.data.toList = cs.map fun c => c.val.toUInt8 := by
  induction cs with
  | nil => simp
  | cons c cs ih =>
    have hdigit := h c List.mem_cons_self
    have hsize : c.utf8Size = 1 := by
      simp only [Char.isDigit, Bool.and_eq_true, decide_eq_true_eq] at hdigit
      rw [Char.utf8Size_eq_one_iff]
      exact UInt32.le_trans hdigit.2 (by decide)
    rw [List.utf8Encode_cons, ByteArray.toList_data_append, List.utf8Encode_singleton,
      List.toList_data_toByteArray, String.utf8EncodeChar_eq_singleton hsize,
      ih fun d hd => h d (List.mem_cons_of_mem c hd)]
    rfl

/-- What `%u` and `%d` print of a number that is not negative. -/
theorem ascii_toString (n : ℕ) :
    ascii (toString n) = (Nat.toDigits 10 n).map fun c => c.val.toUInt8 := by
  rw [ascii, String.toUTF8, toList_data, Nat.toString_eq_ofList_toDigits,
    String.toByteArray_ofList]
  exact utf8Encode_digits fun c hc => Nat.isDigit_of_mem_toDigits (by omega) (by omega) hc

theorem digit_value {c : Char} (h : c.isDigit = true) :
    isDigit c.val.toUInt8 = true ∧ c.val.toUInt8.toNat-48 = c.toNat-48 := by
  simp only [Char.isDigit, Bool.and_eq_true, decide_eq_true_eq] at h
  have hlow := UInt32.le_iff_toNat_le.mp h.1
  have hhigh := UInt32.le_iff_toNat_le.mp h.2
  have hlow' : 48 ≤ c.val.toNat := hlow
  have hhigh' : c.val.toNat ≤ 57 := hhigh
  have hbyte : c.val.toUInt8.toNat = c.val.toNat := by
    rw [UInt32.toNat_toUInt8]
    omega
  constructor
  · rw [isDigit, Bool.and_eq_true, decide_eq_true_eq, decide_eq_true_eq, UInt8.le_iff_toNat_le,
      UInt8.le_iff_toNat_le, hbyte]
    exact ⟨hlow', hhigh'⟩
  · rw [hbyte]
    rfl

theorem decimal_chars {cs : List Char} (h : ∀ c ∈ cs, c.isDigit = true) (n : ℕ) :
    (cs.map fun c => c.val.toUInt8).foldl (fun n b => 10*n+(b.toNat-48)) n =
      Nat.ofDigitChars 10 cs n := by
  induction cs generalizing n with
  | nil => rfl
  | cons c cs ih =>
    rw [List.map_cons, List.foldl_cons, (digit_value (h c List.mem_cons_self)).2,
      ih fun d hd => h d (List.mem_cons_of_mem c hd)]
    rfl

theorem decimal_toString (n : ℕ) : decimal (ascii (toString n)) = n := by
  rw [ascii_toString, decimal, decimal_chars fun c hc =>
    Nat.isDigit_of_mem_toDigits (by omega) (by omega) hc, Nat.ofDigitChars_ten_toDigits]

theorem toString_digits (n : ℕ) : Word isDigit (ascii (toString n)) := by
  have hchars : ∀ b ∈ ascii (toString n), isDigit b = true := by
    intro b hb
    rw [ascii_toString] at hb
    rcases List.mem_map.mp hb with ⟨c, hc, rfl⟩
    exact (digit_value (Nat.isDigit_of_mem_toDigits (by omega) (by omega) hc)).1
  refine ⟨?_, hchars, fun hzero => absurd (hchars 0 hzero) (by decide)⟩
  rw [ascii_toString]
  simp [Nat.toDigits_ne_nil]

theorem atoi_toString {n : ℕ} (h : n < 2^32) : uint32 (atoi (ascii (toString n))) = n := by
  have hvalue := decimal_toString n
  rw [atoi, strtol_digits (toString_digits n).chars (by omega), hvalue, uint32_int32,
    uint32_of_range n h]

/-! ## A header that is received -/

/-- The rest of the content comes in. -/
theorem receiveContent_runs {h : HTTPConnection} (hroom : h.iMessage ≤ iBuffer)
    (hcome : h.iMessage ≤ h.iOffset+(pending h.pConnection).length) (hclean : Clean h.pConnection) :
    ∃ h', receiveContent.run h = .ok true h' ∧ SameRead h h' := by
  rw [receiveContent, run_get_bind, if_neg (not_lt.mpr hroom)]
  by_cases hmore : h.iOffset < h.iMessage
  · have henough : h.iMessage-h.iOffset ≤ (pending h.pConnection).length := by omega
    have hdata := (receiveWhole_clean h.pConnection.bBlocking h.pConnection.arrivals [] hclean
      henough).1
    have hlen : (receiveWhole h.pConnection.bBlocking h.pConnection.arrivals
        (h.iMessage-h.iOffset) []).data.length = h.iMessage-h.iOffset := by
      rw [hdata, List.nil_append, List.length_take]
      exact Nat.min_eq_left henough
    have hstatus : (receiveSmartWhole h.pConnection (h.iMessage-h.iOffset)).1 =
        .ok ((h.iMessage-h.iOffset : ℕ) : ℤ) := if_pos hlen
    have hpos : (0 : ℤ) < ((h.iMessage-h.iOffset : ℕ) : ℤ) := by omega
    rw [if_pos hmore, run_modify_bind, run_ofExcept_bind hstatus]
    refine ⟨h.completed, ?_, rfl, rfl, rfl⟩
    show EStateM.Result.ok (decide _) _ = _
    rw [decide_eq_true hpos]
  · rw [if_neg hmore]
    exact ⟨h, rfl, rfl, rfl, rfl⟩

/-- What a stream must be like to be received. -/
structure Receivable {α : Type} (l : FirstLine α) (S : Bytes) (bContent : Bool) (q : ℕ) (m : α)
    (mRead : Fields) : Prop where
  marker : scan S 0 (-2) = (true, (q : ℤ))
  inside : q+2 < iBuffer
  head : search l.expression (cstr (S.take q)) = some m
  fields : parseFields ((S.take q).length+1)
    ((S.take q).drop ((cstr (S.take q)).length-(l.suffix m).length)) [] = (true, mRead)
  room : bContent = true → uint32 ((q+2 : ℕ)+uint32 (atoi (mRead.value lengthKey))) ≤ iBuffer
  come : uint32 ((q+2 : ℕ)+uint32 (atoi (mRead.value lengthKey))) ≤ S.length

theorem parseWith_run {α : Type} {l : FirstLine α} {S : Bytes} {bContent : Bool} {q : ℕ} {m : α}
    {mRead : Fields} (hr : Receivable l S bContent q m mRead) {h : HTTPConnection}
    (htext : h.text = S.take q) :
    (parseWith l).run h =
      .ok (int32 h.iHeader) (h.terminated.entered (l.enter m h.terminated.words) mRead) := by
  rw [parseWith, run_get_bind, run_modify_bind, htext, hr.head]
  dsimp only
  rw [run_modify_bind, hr.fields]
  rfl

/-- The header has been read, and `S` is what was received and what is still to come. -/
structure HeaderRead (S : Bytes) (q : ℕ) (mRead : Fields) (h : HTTPConnection) : Prop where
  fields : h.mFields = mRead.touch lengthKey
  content : h.iContent = uint32 (atoi (mRead.value lengthKey))
  header : h.iHeader = q+2
  message : h.iMessage = uint32 (h.iHeader+h.iContent)
  inside : h.iHeader ≤ h.iOffset
  offset : h.iOffset < iBuffer
  rest : h.pRcvBuffer.drop h.iHeader ++ pending h.pConnection = S.drop h.iHeader
  clean : Clean h.pConnection

/-- The end of `receive`, behind the header. -/
def finish (bContent : Bool) : Receiving ℤ := do
  let bComplete ← if bContent then receiveContent else pure true
  let h ← get
  if bComplete then return int32 h.iMessage else return -1

/-- Up to the end of the header the content is not looked at. -/
theorem receive_header {α : Type} {l : FirstLine α} {S : Bytes} {bContent : Bool} {q : ℕ} {m : α}
    {mRead : Fields} (hr : Receivable l S bContent q m mRead) {h : HTTPConnection}
    (hstream : h.shifted.stream = S) (hclean : Clean h.shifted.pConnection)
    (hoffset : h.shifted.iOffset < iBuffer) :
    ∃ h' w, HeaderRead S q mRead h' ∧ h'.words = l.enter m w ∧
      (receive (parseWith l) bContent).run h = (finish bContent).run h' := by
  have hresumed := shifted_resumed h
  rw [hstream] at hresumed
  have hinside := hr.inside
  rcases findMarker_finds (iBuffer+1) hresumed hclean hr.marker (by omega) hoffset (by omega) with
    ⟨h₁, hfind, hlast, hwhole, hoffset', hcome, hclean', -⟩
  have hin : q+2 ≤ h₁.pRcvBuffer.length := by
    rw [iOffset] at hcome
    omega
  have htext : h₁.text = S.take q := by
    rw [text, hlast, Int.toNat_natCast, ← hwhole, stream, List.take_append_of_le_length (by omega)]
  have hheader : (h₁.pLastMarker+2).toNat = q+2 := by omega
  have hset : (h₁.pRcvBuffer.set h₁.pLastMarker.toNat 0).drop (q+2) = h₁.pRcvBuffer.drop (q+2) := by
    rw [List.drop_set, if_pos (by omega)]
  have hsmall : q+2 < 64000 := hinside
  have hpos : ¬ int32 ((h₁.pLastMarker+2).toNat : ℕ) < 0 := by
    rw [hheader, int32_of_range] <;> omega
  generalize hbefore : ({ h₁ with iHeader := (h₁.pLastMarker+2).toNat } : HTTPConnection) = h₂
  have hparse := parseWith_run hr (h := h₂) (by rw [← hbefore]; exact htext)
  have hneg : ¬ int32 h₂.iHeader < 0 := by
    rw [← hbefore]
    exact hpos
  refine ⟨measured (h₂.terminated.entered (l.enter m h₂.terminated.words) mRead),
    h₂.terminated.words, ?_, rfl, ?_⟩
  · rw [← hbefore]
    constructor
    · rfl
    · rfl
    · exact hheader
    · rfl
    · show (h₁.pLastMarker+2).toNat ≤ (h₁.pRcvBuffer.set _ _).length
      rw [hheader, List.length_set]
      exact hin
    · show (h₁.pRcvBuffer.set _ _).length < iBuffer
      rw [List.length_set]
      exact hoffset'
    · show (h₁.pRcvBuffer.set _ _).drop (h₁.pLastMarker+2).toNat ++ pending h₁.pConnection =
        S.drop (h₁.pLastMarker+2).toNat
      rw [hheader, hset, ← hwhole, stream, List.drop_append_of_le_length hin]
    · exact hclean'
  · rw [receive, run_modify_bind, run_bind_of_ok hfind, if_pos rfl, run_modify_bind, hbefore,
      run_bind_of_ok hparse, run_get_bind]
    dsimp only
    rw [if_neg hneg, run_modify_bind]
    rfl

theorem receive_runs {α : Type} {l : FirstLine α} {S : Bytes} {bContent : Bool} {q : ℕ} {m : α}
    {mRead : Fields} (hr : Receivable l S bContent q m mRead) {h : HTTPConnection}
    (hready : Ready S h) :
    ∃ iRet h', (receive (parseWith l) bContent).run h = .ok iRet h' ∧
      h'.mFields = mRead.touch lengthKey ∧
      h'.iContent = uint32 (atoi (mRead.value lengthKey)) ∧ ∃ w, h'.words = l.enter m w := by
  rcases shifted_ready hready with ⟨hstream, hclean, hoffset⟩
  rcases receive_header hr hstream hclean hoffset with ⟨h₁, w, hread, hwords, hrun⟩
  cases bContent with
  | false => exact ⟨_, h₁, hrun, hread.fields, hread.content, w, hwords⟩
  | true =>
    have hmessage : h₁.iMessage = uint32 ((q+2 : ℕ)+uint32 (atoi (mRead.value lengthKey))) := by
      rw [hread.message, hread.header, hread.content]
    have hlength := congrArg List.length hread.rest
    have hin := hread.inside
    rw [iOffset] at hin
    rw [List.length_append, List.length_drop, List.length_drop] at hlength
    rcases receiveContent_runs (by rw [hmessage]; exact hr.room rfl) (by
      have hcome := hr.come
      rw [hmessage, iOffset]
      omega) hread.clean with ⟨h₂, hcontent, hsame⟩
    rw [finish, if_pos rfl, run_bind_of_ok hcontent] at hrun
    exact ⟨_, h₂, hrun, hsame.fields.trans hread.fields, hsame.content.trans hread.content, w,
      hsame.words.trans hwords⟩

/-! ## A header that is sent -/

/-- A first line and what its expression makes of it, given what follows. -/
structure Spoken {α : Type} (l : FirstLine α) (line : Bytes) (m : Bytes → α) : Prop where
  nonempty : line ≠ []
  plain : 13 ∉ line
  zero : 0 ∉ line
  head : ∀ s, l.expression (line ++ crlf ++ s) = some (m s)
  suffix : ∀ s, l.suffix (m s) = s

theorem receivable_header {α : Type} {l : FirstLine α} {line : Bytes} {m : Bytes → α}
    (hspoken : Spoken l line m) {mFields mRead : Fields} (hfields : ∀ f ∈ mFields, FieldFormed f)
    (hread : mFields.foldl (fun m f => Fields.assign f.1 f.2 m) [] = mRead) {iSize : ℕ}
    {bContent : Bool} {rest : Bytes}
    (hlength : uint32 (atoi (mRead.value lengthKey)) = iSize) (hrest : iSize ≤ rest.length)
    (hfits : line.length+weights mFields+4 < iSndBuffer)
    (hroom : bContent = true → uint32 ((line.length+weights mFields+4 : ℕ)+iSize) ≤ iBuffer) :
    Receivable l (line ++ crlf ++ mFields.flatMap field ++ crlf ++ rest) bContent
      (line.length+2+weights mFields) (m (mFields.flatMap field)) mRead := by
  have hcrlf : crlf.length = 2 := rfl
  have hweights := fields_weight mFields
  have htake : (line ++ crlf ++ mFields.flatMap field ++ crlf ++ rest).take
      (line.length+2+weights mFields) = line ++ crlf ++ mFields.flatMap field := by
    rw [List.append_assoc _ crlf rest]
    apply List.take_left'
    simp only [List.length_append, hcrlf, hweights]
  have hzero : 0 ∉ line ++ crlf ++ mFields.flatMap field := by
    simp only [List.mem_append, not_or]
    exact ⟨⟨hspoken.zero, by decide⟩, fields_zero hfields⟩
  have hend : line.length+2+weights mFields+2 = line.length+weights mFields+4 := by omega
  constructor
  · have hsplit : line ++ crlf ++ mFields.flatMap field ++ crlf ++ rest =
        line ++ crlf ++ (mFields.flatMap field ++ crlf ++ rest) := by simp
    rw [hsplit, scan_line _ hspoken.nonempty (noLineEnd_plain hspoken.plain) (by norm_num),
      scan_fields hfields, hweights]
    congr 1
    push_cast
    ring
  · rw [hend]
    exact hfits
  · rw [htake, cstr_self hzero]
    exact search_here (hspoken.head _)
  · have hdrop : (line ++ crlf ++ mFields.flatMap field).drop
        ((line ++ crlf ++ mFields.flatMap field).length-(mFields.flatMap field).length) =
        mFields.flatMap field := by
      rw [List.length_append, Nat.add_sub_cancel, List.drop_left]
    have hfuel : mFields.length < (line ++ crlf ++ mFields.flatMap field).length+1 := by
      have hcount := fields_length mFields
      rw [List.length_append]
      omega
    rw [htake, cstr_self hzero, hspoken.suffix, hdrop, parseFields_fields hfields hfuel, hread]
  · intro hcontent
    rw [hlength, hend]
    exact hroom hcontent
  · rw [hlength, hend, uint32_add]
    simp only [List.length_append, hcrlf, hweights]
    have hmod := Nat.mod_le (line.length+weights mFields+4+iSize) (2^32)
    omega

theorem replyExpression_words {sProtocol iStatus sStatus : Bytes}
    (hprotocol : Word isGraph sProtocol) (hnumber : Word isDigit iStatus)
    (hstatus : Word isGraph sStatus) (s : Bytes) :
    replyExpression (sProtocol ++ 32::(iStatus ++ 32::sStatus) ++ crlf ++ s) =
      some ⟨sProtocol, iStatus, sStatus, s⟩ := by
  have hline : sProtocol ++ 32::(iStatus ++ 32::sStatus) ++ crlf ++ s =
      sProtocol ++ 32::(iStatus ++ 32::(sStatus ++ 13::10::s)) := by
    simp [crlf]
  have hspace : ∀ t, expect [32] (32::t) = some t := expect_append [32]
  have hend : expect crlf (13::10::s) = some s := expect_append crlf s
  rw [hline, replyExpression, run_append _ hprotocol.nonempty hprotocol.chars (by decide)]
  dsimp only [Option.bind_eq_bind, Option.bind_some]
  rw [hspace, Option.bind_some, run_append _ hnumber.nonempty hnumber.chars (by decide)]
  dsimp only [Option.bind_some]
  rw [hspace, Option.bind_some, run_append _ hstatus.nonempty hstatus.chars (by decide)]
  dsimp only [Option.bind_some]
  rw [hend, Option.bind_some]

/-- Three words with a space between them. -/
theorem words_plain {p q r : UInt8 → Bool} {s t u : Bytes} (hs : Word p s) (ht : Word q t)
    (hu : Word r u) (hp : p 13 = false) (hq : q 13 = false) (hr : r 13 = false) :
    13 ∉ s ++ 32::(t ++ 32::u) ∧ 0 ∉ s ++ 32::(t ++ 32::u) := by
  simp only [List.mem_append, List.mem_cons, not_or]
  exact ⟨⟨word_plain hs hp, by decide, word_plain ht hq, by decide, word_plain hu hr⟩,
    hs.zero, by decide, ht.zero, by decide, hu.zero⟩

theorem spoken_reply {sProtocol sStatus : Bytes} (hprotocol : Word isGraph sProtocol)
    (hstatus : Word isGraph sStatus) (iStatus : ℕ) :
    Spoken replyLine ((Outgoing.reply iStatus sStatus).words sProtocol)
      fun s => ⟨sProtocol, ascii (toString iStatus), sStatus, s⟩ := by
  rcases words_plain hprotocol (toString_digits iStatus) hstatus (by decide) (by decide) (by decide)
    with ⟨hplain, hzero⟩
  rw [Outgoing.words, cstr_self hprotocol.zero, cstr_self hstatus.zero]
  exact ⟨by simp, hplain, hzero,
    replyExpression_words hprotocol (toString_digits iStatus) hstatus, fun _ => rfl⟩

theorem spoken_message {sProtocol sCommand sUrl : Bytes} (hprotocol : Word isGraph sProtocol)
    (hcommand : Word isWord sCommand) (hurl : Word isGraph sUrl) :
    Spoken requestLine ((Outgoing.message sCommand sUrl).words sProtocol)
      fun s => ⟨sCommand, sUrl, sProtocol, s⟩ := by
  rcases words_plain hcommand hurl hprotocol (by decide) (by decide) (by decide) with ⟨hplain, hzero⟩
  rw [Outgoing.words, cstr_self hcommand.zero, cstr_self hurl.zero, cstr_self hprotocol.zero]
  exact ⟨by simp, hplain, hzero, headExpression_words hcommand hurl hprotocol, fun _ => rfl⟩

/-- The key that a content adds is one more name. -/
theorem given_keys {o : Outgoing} {sProtocol : Bytes} {mFields : Fields} {iSize : ℕ}
    (hgiven : Given o sProtocol mFields iSize) :
    ∀ f ∈ withLength mFields iSize, (∀ b ∈ f.1, isName b = true) ∧ 13 ∉ f.2 := by
  intro f hf
  rw [withLength] at hf
  split at hf
  · exact ⟨hgiven.keys f hf, (hgiven.values f hf).1⟩
  · rcases assign_mem hf with rfl | hf
    · have hname : ∀ b ∈ lengthKey, isName b = true := by
        rw [lengthKey, ascii_data]
        exact List.all_eq_true.mp (by decide)
      exact ⟨hname, word_plain (toString_digits iSize) (by decide)⟩
    · exact ⟨hgiven.keys f hf, (hgiven.values f hf).1⟩

theorem key_zero {sKey : Bytes} (h : ∀ b ∈ sKey, isName b = true) : 0 ∉ sKey :=
  fun hzero => absurd (h 0 hzero) (by decide)

theorem withLength_value {o : Outgoing} {sProtocol : Bytes} {mFields : Fields} {iSize : ℕ}
    (hgiven : Given o sProtocol mFields iSize)
    (hlength : iSize = 0 → uint32 (atoi (mFields.value lengthKey)) = 0) :
    uint32 (atoi ((withLength mFields iSize).value lengthKey)) = iSize := by
  rw [withLength]
  by_cases hempty : iSize = 0
  · rw [if_pos hempty, hlength hempty, hempty]
  · rw [if_neg hempty, Fields.value, find_assign]
    exact atoi_toString hgiven.size

theorem sendable_roundTrips {o : Outgoing} {sProtocol : Bytes} {mFields : Fields} {iSize : ℕ}
    {bContent : Bool} (hgiven : Given o sProtocol mFields iSize)
    (h : Sendable o sProtocol mFields iSize bContent) :
    RoundTrips o sProtocol mFields iSize bContent := by
  have hkeys := given_keys hgiven
  have hfields : ∀ f ∈ withLength mFields iSize, FieldFormed f := by
    intro f hf
    rcases hkeys f hf with ⟨hchars, hplain⟩
    rcases h.readable f hf with ⟨hne, hzero⟩
    exact ⟨⟨hne, hchars, key_zero hchars⟩, noLineEnd_plain hplain, hzero⟩
  have htemps : (withLength mFields iSize).flatMap tempField =
      (withLength mFields iSize).flatMap field :=
    tempFields_short fun f hf => ⟨key_zero (hkeys f hf).1, (hfields f hf).zero, h.short f hf⟩
  have hfits := h.fits
  rw [headerLength, iSndBuffer] at hfits
  have hcrlf : (o.words sProtocol ++ crlf).length = (o.words sProtocol).length+2 := by
    rw [List.length_append]
    rfl
  have hline : snprintf iSndBuffer (o.words sProtocol ++ crlf) = o.words sProtocol ++ crlf := by
    rw [snprintf, List.take_of_length_le]
    rw [hcrlf, iSndBuffer]
    omega
  intro c peer pData more sApplication hsends hout hdata hclean
  have hcompose : compose (snprintf iSndBuffer (o.words sProtocol ++ crlf)) pData.length mFields =
      .ok (o.words sProtocol ++ crlf ++ (withLength mFields pData.length).flatMap field ++ crlf) := by
    rw [hline, compose_fits, hdata, htemps]
    rw [hdata, htemps, fields_weight, hcrlf, iSndBuffer]
    omega
  rcases send_all hsends hcompose with ⟨hsent, hwritten⟩
  refine ⟨hsent, ?_⟩
  intro hpending
  have hready : Ready (o.words sProtocol ++ crlf ++ (withLength mFields iSize).flatMap field ++ crlf ++
      (pData ++ more)) (new peer sApplication) := by
    refine ⟨le_rfl, by simp [new, iOffset, iBuffer], ?_, hclean⟩
    show pending peer = _
    rw [hpending, Outgoing.send, hwritten, hout, hdata]
    simp
  have hvalue := withLength_value hgiven h.length
  have hrest : iSize ≤ (pData ++ more).length := by
    rw [List.length_append, hdata]
    omega
  have hordered : Ordered ([] ++ withLength mFields iSize) :=
    withLength_ordered hgiven.ordered iSize
  have hassigned := foldl_assign hordered
  cases o with
  | reply iStatus sStatus =>
    have hreceivable := receivable_header (spoken_reply hgiven.protocol h.head iStatus) hfields
      hassigned hvalue hrest h.fits h.room
    rcases receive_runs hreceivable hready with ⟨iRet, h', hrun, hmap, hcontent, w, hwords⟩
    refine ⟨iRet, h', ?_, ?_, hmap, hcontent.trans hvalue⟩
    · rw [Outgoing.receive, receiveReply, parseReplyHeader_with]
      exact hrun
    · have hstatus := congrArg Words.iStatus hwords
      have hatoi := atoi_toString ((hgiven.status iStatus sStatus rfl).trans (by norm_num))
      exact ⟨hstatus.trans hatoi, congrArg Words.sStatus hwords⟩
  | message sCommand sUrl =>
    have hreceivable := receivable_header (spoken_message hgiven.protocol h.head.1 h.head.2) hfields
      hassigned hvalue hrest h.fits h.room
    rcases receive_runs hreceivable hready with ⟨iRet, h', hrun, hmap, hcontent, w, hwords⟩
    refine ⟨iRet, h', ?_, ?_, hmap, hcontent.trans hvalue⟩
    · rw [Outgoing.receive, receiveMessage, parseRequestHeader_with]
      exact hrun
    · exact ⟨congrArg Words.sCommand hwords, congrArg Words.sUrl hwords⟩

/-! ## A header that comes back -/

theorem text_behind {text before suffix : Bytes} (h : cstr text = before ++ crlf ++ suffix) :
    text = before ++ crlf ++ text.drop ((cstr text).length-suffix.length) := by
  rcases List.takeWhile_prefix (l := text) (· ≠ 0) with ⟨behind, hbehind⟩
  have htext : text = before ++ crlf ++ (suffix ++ behind) := by
    rw [← List.append_assoc, ← h]
    exact hbehind.symm
  have hlength : (cstr text).length-suffix.length = (before ++ crlf).length := by
    rw [h, List.length_append, Nat.add_sub_cancel]
  rw [hlength]
  nth_rewrite 2 [htext]
  rw [List.drop_left]
  exact htext

/-- What has come back tells about the header that was sent. -/
theorem read_sendable {α : Type} {l : FirstLine α} {line : Bytes} {mFields mRead : Fields}
    {iSize : ℕ} {bContent : Bool} {q : ℤ} {m : α} {h : HTTPConnection}
    (hread : Read l (line ++ crlf ++ mFields.flatMap tempField ++ crlf ++ List.replicate iSize 0)
      bContent h q m mRead)
    (hend : ∃ before, cstr ((line ++ crlf ++ mFields.flatMap tempField ++ crlf ++
      List.replicate iSize 0).take q.toNat) = before ++ crlf ++ l.suffix m)
    (hline : 13 ∉ line) (hkeys : ∀ f ∈ mFields, 0 ∉ f.1)
    (hmap : h.mFields = mFields.touch lengthKey) (hgiven : mFields.find lengthKey ≠ some []) :
    (∀ f ∈ mFields, Readable f) ∧ (∀ f ∈ mFields, weight f ≤ 1023) ∧
      q = line.length+2+weights mFields ∧
      (mFields.flatMap tempField).length = weights mFields := by
  have htouch : mRead.touch lengthKey = mFields.touch lengthKey := hread.map.symm.trans hmap
  have hreadable : ∀ f ∈ mFields, Readable f := by
    intro f hf
    have hall := touch_readable (parseFields_readable hread.fields fun f hf => by cases hf)
    exact hall f (htouch ▸ mem_touch hf)
  have htemps := tempFields_length fun f hf => ⟨hkeys f hf, (hreadable f hf).2⟩
  have hmins := mins_le mFields
  have hfirst := hread.first
  have hinside := marker_inside hread.marker
  simp only [List.length_append, show crlf.length = 2 from rfl] at hinside
  -- What the loop starts with follows the end of a line, so it lies behind the first line.
  rcases hend with ⟨before, hcstr⟩
  have hsplit := text_behind hcstr
  rw [List.append_assoc (line ++ crlf), List.append_assoc (line ++ crlf)] at hsplit
  have hshort := suffix_short hline hsplit
  have hloop := parseFields_weights hread.fields
  have hweights := touch_weights htouch hgiven
  rw [← List.append_assoc (line ++ crlf), ← List.append_assoc (line ++ crlf)] at hshort
  simp only [weights, List.map_nil, List.sum_nil] at hloop
  simp only [weights] at hweights hmins
  have hall : ∀ f ∈ mFields, weight f ≤ 1023 := by
    apply all_short
    rw [weights]
    omega
  refine ⟨hreadable, hall, ?_, ?_⟩
  · rw [weights]
    omega
  · rw [weights]
    omega

/-- A connection that takes and brings everything at once. -/
def atOnce (bs : Bytes) : ConnectionInterface where
  bBlocking := true
  bThrow := false
  arrivals := [.bytes bs]
  sends := []
  out := []
  strError := ""

theorem send_composed {c : ConnectionInterface} (hsends : c.sends = []) {sLine pData : Bytes}
    {mFields : Fields} {iRet : ℤ} (h : (send c sLine pData mFields).1 = .ok iRet) :
    compose sLine pData.length mFields =
      .ok (sLine ++ (withLength mFields pData.length).flatMap tempField ++ crlf) ∧
      sLine.length+((withLength mFields pData.length).flatMap tempField).length+2 < iSndBuffer ∧
      (send c sLine pData mFields).2.out =
        c.out ++ (sLine ++ (withLength mFields pData.length).flatMap tempField ++ crlf) ++ pData := by
  cases hcompose : compose sLine pData.length mFields with
  | error e =>
    rw [send, hcompose] at h
    cases h
  | ok header =>
    rcases compose_ok hcompose with ⟨hheader, hfits⟩
    rw [← hheader]
    refine ⟨rfl, ?_, (send_all hsends hcompose).2⟩
    rw [hheader, List.length_append, List.length_append] at hfits
    exact hfits

theorem formed_plain {o : Outgoing} {sProtocol : Bytes} (hprotocol : Word isGraph sProtocol)
    (h : o.Formed) : 13 ∉ o.words sProtocol := by
  cases o with
  | reply iStatus sStatus => exact (spoken_reply hprotocol h iStatus).plain
  | message sCommand sUrl => exact (spoken_message hprotocol h.1 h.2).plain

theorem withLength_find {mFields : Fields} {iSize : ℕ}
    (h : iSize = 0 → mFields.find lengthKey ≠ some []) :
    (withLength mFields iSize).find lengthKey ≠ some [] := by
  rw [withLength]
  by_cases hempty : iSize = 0
  · rw [if_pos hempty]
    exact h hempty
  · rw [if_neg hempty, find_assign]
    exact fun hnil => (toString_digits iSize).nonempty (Option.some.inj hnil)

/-- The bytes on the way when the content is all zeros. -/
def onTheWay (o : Outgoing) (sProtocol : Bytes) (mFields : Fields) (iSize : ℕ) : Bytes :=
  o.words sProtocol ++ crlf ++ (withLength mFields iSize).flatMap tempField ++ crlf ++
    List.replicate iSize 0

theorem returned_sendable {α : Type} {l : FirstLine α} {o : Outgoing} {sProtocol : Bytes}
    {mFields mRead : Fields} {iSize : ℕ} {bContent : Bool} {q : ℤ} {m : α} {h : HTTPConnection}
    (hgiven : Given o sProtocol mFields iSize)
    (hlength : iSize = 0 → mFields.find lengthKey ≠ some [])
    (hread : Read l (onTheWay o sProtocol mFields iSize) bContent h q m mRead)
    (hend : ∃ before, cstr ((onTheWay o sProtocol mFields iSize).take q.toNat) =
      before ++ crlf ++ l.suffix m)
    (hformed : o.Formed) (hmap : h.mFields = (withLength mFields iSize).touch lengthKey)
    (hcontent : h.iContent = iSize)
    (hfits : (o.words sProtocol ++ crlf).length+
      ((withLength mFields iSize).flatMap tempField).length+2 < iSndBuffer) :
    Sendable o sProtocol mFields iSize bContent := by
  have hkeys := given_keys hgiven
  rcases read_sendable hread hend (formed_plain hgiven.protocol hformed)
    (fun f hf => key_zero (hkeys f hf).1) hmap (withLength_find hlength) with
    ⟨hreadable, hshort, hq, htemps⟩
  have hheader : (q+2).toNat = headerLength o sProtocol (withLength mFields iSize) := by
    rw [headerLength]
    omega
  refine ⟨hformed, hreadable, hshort, ?_, ?_, ?_⟩
  · rw [htemps, List.length_append] at hfits
    rw [headerLength]
    simp only [show crlf.length = 2 from rfl] at hfits
    omega
  · intro hempty
    have hvalue := congrArg (fun m : Fields => m.value lengthKey) (hread.map.symm.trans hmap)
    simp only [touch_value] at hvalue
    have hread' := hread.content
    rw [hcontent, hvalue, withLength, if_pos hempty] at hread'
    rw [← hread', hempty]
  · intro hwhole
    have hroom := hread.room hwhole
    rwa [hheader, hcontent] at hroom

theorem touch_nonempty (mFields : Fields) (sKey : Bytes) : mFields.touch sKey ≠ [] := by
  intro hnil
  have hfind : (mFields.touch sKey).find sKey ≠ none := by
    rw [Fields.touch]
    split
    · rw [find_assign]
      exact Option.some_ne_none _
    case h_2 v hsome =>
      rw [hsome]
      exact Option.some_ne_none _
  rw [hnil] at hfind
  exact hfind rfl

theorem snprintf_whole {sText : Bytes} {n : ℕ} (h : (snprintf n sText).length+1 < n) :
    snprintf n sText = sText := by
  rw [snprintf, List.length_take] at h
  rw [snprintf, List.take_of_length_le]
  omega

theorem roundTrips_sendable {o : Outgoing} {sProtocol : Bytes} {mFields : Fields} {iSize : ℕ}
    {bContent : Bool} (hgiven : Given o sProtocol mFields iSize)
    (hlength : iSize = 0 → mFields.find lengthKey ≠ some [])
    (h : RoundTrips o sProtocol mFields iSize bContent) :
    Sendable o sProtocol mFields iSize bContent := by
  have hsize : (List.replicate iSize (0 : UInt8)).length = iSize := List.length_replicate
  rcases h (atOnce []) (atOnce (o.send sProtocol (atOnce []) (List.replicate iSize 0) mFields).2.out)
    (List.replicate iSize 0) [] "" rfl rfl hsize (fun a ha => Or.inl ⟨_, List.mem_singleton.mp ha⟩)
    with ⟨⟨iSent, hsent⟩, hreceived⟩
  rcases send_composed rfl hsent with ⟨-, hfits, hout⟩
  rcases hreceived (by simp [pending, atOnce, Arrival.data]) with
    ⟨iRet, h', hrun, hmatches, hmap, hcontent⟩
  have hline : snprintf iSndBuffer (o.words sProtocol ++ crlf) = o.words sProtocol ++ crlf :=
    snprintf_whole (by omega)
  rw [hline, hsize] at hfits
  have hstream : (new (atOnce (o.send sProtocol (atOnce []) (List.replicate iSize 0) mFields).2.out)
      "").shifted.stream = onTheWay o sProtocol mFields iSize := by
    show [] ++ pending (atOnce _) = _
    rw [Outgoing.send, hout, hline, hsize, onTheWay]
    simp [pending, atOnce, Arrival.data]
  have hne : h'.mFields ≠ [] := hmap ▸ touch_nonempty _ _
  cases o with
  | reply iStatus sStatus =>
    rw [Outgoing.receive, receiveReply, parseReplyHeader_with] at hrun
    rcases receive_read hrun (by simp [new, iOffset, iBuffer]) rfl rfl hne with ⟨q, m, mRead, hread⟩
    rw [hstream] at hread
    rcases search_some hread.head with ⟨before, rest, hcstr, hmatch⟩
    rcases replyExpression_some hmatch with ⟨⟨before', hrest⟩, hword⟩
    have hzero := cstr_zero ((onTheWay (.reply iStatus sStatus) sProtocol mFields iSize).take q.toNat)
    rw [hcstr, List.mem_append, not_or] at hzero
    rcases hread.words with ⟨w, hwords⟩
    have hstatus : m.sStatus = sStatus := (congrArg Words.sStatus hwords).symm.trans hmatches.2
    refine returned_sendable hgiven hlength hread ⟨before ++ before', ?_⟩ (hstatus ▸ hword hzero.2)
      hmap hcontent hfits
    rw [hcstr, hrest]
    simp [replyLine]
  | message sCommand sUrl =>
    rw [Outgoing.receive, receiveMessage, parseRequestHeader_with] at hrun
    rcases receive_read hrun (by simp [new, iOffset, iBuffer]) rfl rfl hne with ⟨q, m, mRead, hread⟩
    rw [hstream] at hread
    rcases search_some hread.head with ⟨before, rest, hcstr, hmatch⟩
    rcases headExpression_some hmatch with ⟨⟨before', hrest⟩, hword⟩
    have hzero := cstr_zero ((onTheWay (.message sCommand sUrl) sProtocol mFields iSize).take q.toNat)
    rw [hcstr, List.mem_append, not_or] at hzero
    rcases hread.words with ⟨w, hwords⟩
    have hcommand : m.sCommand = sCommand := (congrArg Words.sCommand hwords).symm.trans hmatches.1
    have hurl : m.sUrl = sUrl := (congrArg Words.sUrl hwords).symm.trans hmatches.2
    refine returned_sendable hgiven hlength hread ⟨before ++ before', ?_⟩
      (hcommand ▸ hurl ▸ hword hzero.2) hmap hcontent hfits
    rw [hcstr, hrest]
    simp [requestLine]

/-- An empty length that a caller puts in itself is what a receiver adds to a header without
one, so what is cut off elsewhere could be made up for by it. -/
theorem header_round_trip {o : Outgoing} {sProtocol : Bytes} {mFields : Fields} {iSize : ℕ}
    (bContent : Bool) (hgiven : Given o sProtocol mFields iSize) :
    (Sendable o sProtocol mFields iSize bContent → RoundTrips o sProtocol mFields iSize bContent) ∧
      ((iSize = 0 → mFields.find lengthKey ≠ some []) →
        RoundTrips o sProtocol mFields iSize bContent →
          Sendable o sProtocol mFields iSize bContent) :=
  ⟨sendable_roundTrips hgiven, roundTrips_sendable hgiven⟩

/-! ## Two replies -/

def rtsp : Bytes := ascii "RTSP/1.0"

def sequenceFields : Fields := [(ascii "CSeq", ascii "2")]

theorem sequence_given (iStatus : ℕ) (sStatus : Bytes) (h : iStatus < 2^31) :
    Given (.reply iStatus sStatus) rtsp sequenceFields 0 where
  protocol := by
    rw [rtsp, ascii_data]
    exact ⟨by decide, List.all_eq_true.mp (by decide), by decide⟩
  ordered := List.pairwise_singleton _ _
  keys := by
    simp only [sequenceFields, ascii_data, List.mem_singleton, forall_eq]
    exact List.all_eq_true.mp (by decide)
  values := by
    simp only [sequenceFields, ascii_data]
    decide
  size := by norm_num
  status := by
    intro i s heq
    cases heq
    exact h

theorem header_round_trip_ok : RoundTrips (.reply 200 (ascii "OK")) rtsp sequenceFields 0 true := by
  apply (header_round_trip true (sequence_given 200 _ (by norm_num))).1
  exact {
    head := by
      rw [ascii_data]
      exact ⟨by decide, List.all_eq_true.mp (by decide), by decide⟩
    readable := by
      intro f hf
      obtain rfl := List.mem_singleton.mp hf
      rw [ascii_data, ascii_data]
      exact ⟨by decide, by decide⟩
    short := by decide +kernel
    fits := by decide +kernel
    length := fun _ => by decide +kernel
    room := fun _ => by decide +kernel }

/-- The text of a refusal is more than one word. -/
theorem refusal_not_read :
    ¬ RoundTrips (.reply 456 (ascii "Header Field Not Valid")) rtsp sequenceFields 0 true := by
  intro hround
  have hfind : sequenceFields.find lengthKey ≠ some [] := by
    simp only [sequenceFields, lengthKey, ascii_data]
    decide
  have hsendable := roundTrips_sendable (sequence_given 456 _ (by norm_num)) (fun _ => hfind) hround
  have hspace : (32 : UInt8) ∈ ascii "Header Field Not Valid" := by
    rw [ascii_data]
    decide
  exact absurd (hsendable.head.chars 32 hspace) (by decide)

end Sirannon.HTTP.HTTPConnection
