import Sirannon.RTSPSession

/-!
# Answers of an RTSP session

A request is answered once as long as its handling raises nothing. What can
raise is a URL that names no media, a media that cannot be described, and above
all a track that is set up a second time: its transmitter has its name already.
-/

set_option autoImplicit false

namespace Sirannon.RTSP
open Bits MachineInt HTTP HTTPConnection Url SDP Manager StateError

/-! ## Answers -/

structure Reply where
  iStatus : ℕ
  sStatus : String
  pData : Bytes
  mFields : Fields

/-- The reply as it stands on the connection, with nothing of it cut off. -/
def Reply.bytes (a : Reply) (r : Request) : Bytes :=
  (Outgoing.reply a.iStatus (ascii a.sStatus)).words r.sProtocol ++ crlf ++
    (withLength a.mFields a.pData.length).flatMap field ++ crlf ++ a.pData

/-- The transport has the form accepted, and the track is one of the last description. -/
def Announced (s : RTSPSession) (r : Request) : Prop :=
  transportExpression (cstr (r.mFields.value (ascii "Transport"))) ≠ none ∧
    ∃ u n, URL_parse r.sUrl .NO .NO = .ok u ∧ trackNumber u.sMedia = some n ∧
      1 ≤ n ∧ n ≤ s.announced

/-- One reply was written for the request. -/
structure Answered (r : Request) (s s' : RTSPSession) (a : Reply) : Prop where
  written : s'.out = s.out ++ a.bytes r
  sequence : a.mFields.find cseq = r.mFields.find cseq
  setup : r.sCommand = ascii "SETUP" → r.mFields.find cseq ≠ none →
    (a.iStatus = 200 ↔ Announced s r)

/-- Two transmitters of one track would have one name. -/
def OnePerTrack (s : RTSPSession) : Prop :=
  ∀ p, s.pStreamer = some p → ∀ i < p.oProcessorManager.created,
    ∀ j < p.oProcessorManager.created, p.oProcessorManager.deleted i = 0 →
      p.oProcessorManager.deleted j = 0 →
        p.oProcessorManager.sName i = p.oProcessorManager.sName j → i = j

/-- What may come next: a request, a scheduling pass over the transmitters, or the end of one. -/
inductive Step
  | request (r : Request) (w : Circumstances)
  | process (behave : ℕ → Scheduled)
  | ended (i : ℕ)

def RTSPSession.managed (s : RTSPSession) (f : ProcessorManager → ProcessorManager) : RTSPSession :=
  { s with pStreamer := s.pStreamer.map fun p =>
    { p with oProcessorManager := f p.oProcessorManager } }

def RTSPSession.stepped (server : Server) (s : RTSPSession) : Step → RTSPSession
  | .request r w => after ((requestHandler server r w).run s)
  | .process behave => s.managed fun m => (m.scheduleProcessors behave).2
  | .ended i => s.managed fun m => m.ended i

/-- Every request up to the first `TEARDOWN` is answered. -/
def AnsweredAll (server : Server) (s : RTSPSession) : List Step → Prop
  | [] => OnePerTrack s
  | .request r w::steps => OnePerTrack s ∧
      (s.bStop = false → ∃ s' a, (requestHandler server r w).run s = .ok () s' ∧
        Answered r s s' a) ∧
      AnsweredAll server (s.stepped server (.request r w)) steps
  | a::steps => OnePerTrack s ∧ AnsweredAll server (s.stepped server a) steps

/-! ## The condition -/

/-- The parts of the request that the reply repeats are not too long to be sent back. -/
def Fits (r : Request) : Prop :=
  (r.mFields.value cseq).length ≤ 1015 ∧
    r.sProtocol.length+(r.mFields.value cseq).length ≤ 62000

instance (r : Request) : Decidable (Fits r) := inferInstanceAs (Decidable (_ ∧ _))

/-- A track that is described has no transmitter yet, and its transmitter can be set to work. -/
def TrackFree (s : RTSPSession) (p : ProxyStreamer) (n : ℤ) (w : Circumstances) : Prop :=
  ∀ pDesc, 1 ≤ n → s.oSDP[(n-1).toNat]? = some pDesc → n ≤ s.announced ∧
    '.' ∉ (sTransmitterName pDesc).toList ∧
    sTransmitterName pDesc ∉ p.oProcessorManager.mProcessors ∧ w.transmitter = none

/-- The media can be described, in a text whose length fits in 32 bits. -/
def Describable (server : Server) (s : RTSPSession) (p : ProxyStreamer) : Prop :=
  ∃ c, SDPConstruct server.strop p.container (s.transportStreams || s.oFormat == .TS) = .ok c ∧
    (ascii (SDPString c.container)).length < 2^32

def NamesTrack (r : Request) (ok : ℤ → Prop) : Prop :=
  ∃ u n, URL_parse r.sUrl .NO .NO = .ok u ∧ trackNumber u.sMedia = some n ∧ ok n

/-- What the command needs where it gets so far. -/
structure Handles (server : Server) (s : RTSPSession) (p : ProxyStreamer) (r : Request)
    (w : Circumstances) : Prop where
  describe : r.sCommand = ascii "DESCRIBE" →
    position (ascii "application/sdp") (r.mFields.value (ascii "Accept")) ≠ none →
      Describable server s p
  setup : r.sCommand = ascii "SETUP" →
    transportExpression (cstr (r.mFields.value (ascii "Transport"))) ≠ none →
      NamesTrack r fun n => TrackFree s p n w
  play : r.sCommand = ascii "PLAY" → NamesTrack r fun n => n = 0 → w.streamer = none
  pause : r.sCommand = ascii "PAUSE" → w.streamer = none

def Ready (server : Server) (s : RTSPSession) (r : Request) (w : Circumstances) : Prop :=
  ∃ s' p, (openMedia server r).run s = .ok () s' ∧ s'.pStreamer = some p ∧ Fits r ∧
    (r.mFields.find cseq ≠ none → Handles server s' p r w)

def ReadyAll (server : Server) (s : RTSPSession) : List Step → Prop
  | [] => True
  | .request r w::steps => (s.bStop = false → Ready server s r w) ∧
      ReadyAll server (s.stepped server (.request r w)) steps
  | a::steps => ReadyAll server (s.stepped server a) steps

/-! ## Replies that fit -/

variable {server : Server} {s : RTSPSession} {r : Request} {w : Circumstances}

/-- Fields that go through the small buffer, and how much they weigh together. -/
structure Small (n : ℕ) (mFields : Fields) : Prop where
  light : weights mFields ≤ n
  each : ∀ f ∈ mFields, 0 ∉ f.1 ∧ 0 ∉ f.2 ∧ weight f ≤ 1023

/-- The texts in the fields of the replies. -/
def texts : List String :=
  ["Public", "DESCRIBE, SETUP, TEARDOWN, PLAY, PAUSE", "Content-Type", "application/sdp", "Session",
    "Transport", "RTP/AVP;unicast;client_port=", ";server_port="]

theorem texts_plain : ∀ sText ∈ texts,
    0 ∉ ascii sText ∧ (ascii sText).length = sText.length ∧ ascii sText ≠ cseq := by
  decide +kernel

theorem keys_plain : (0 ∉ lengthKey ∧ lengthKey.length = 14) ∧ 0 ∉ cseq ∧ cseq.length = 4 := by
  decide +kernel

theorem small_assign {n : ℕ} {mFields : Fields} (h : Small n mFields) (k : ℕ) {sKey sValue : Bytes}
    (hkey : 0 ∉ sKey) (hvalue : 0 ∉ sValue) (hweight : sKey.length+sValue.length+4 ≤ k)
    (hk : k ≤ 1023) : Small (n+k) (Fields.assign sKey sValue mFields) := by
  have hsame : weight (sKey, sValue) = sKey.length+sValue.length+4 := rfl
  constructor
  · have hsum := weights_assign sKey sValue mFields
    have hlight := h.light
    omega
  · intro f hf
    rcases assign_mem hf with rfl | hf
    · exact ⟨hkey, hvalue, by omega⟩
    · exact h.each f hf

theorem number_plain (n : ℕ) : 0 ∉ ascii (toString n) := (toString_digits n).zero

theorem number_short {n : ℕ} (h : n < 2^32) : (ascii (toString n)).length ≤ 10 := by
  rw [ascii_toString, List.length_map, Nat.length_toDigits_le_iff (by omega) (by omega)]
  omega

theorem small_length {n iSize : ℕ} {mFields : Fields} (h : Small n mFields) (hsize : iSize < 2^32) :
    Small (n+28) (withLength mFields iSize) := by
  have hlight := h.light
  rw [withLength]
  split_ifs
  · exact ⟨by omega, h.each⟩
  · have hshort := number_short hsize
    obtain ⟨hplain, hkey⟩ := keys_plain.1
    exact small_assign h 28 hplain (number_plain iSize) (by omega) (by omega)

theorem value_plain (r : Request) (sKey : Bytes) : 0 ∉ r.mFields.value sKey := by
  rw [Fields.value, Fields.find]
  cases hfound : List.find? (fun field => field.1 = sKey) r.mFields with
  | none => simp
  | some f => exact r.fields_plain f (List.mem_of_find?_eq_some hfound)

theorem small_sequence (hfits : Fits r) :
    Small ((r.mFields.value cseq).length+8) (sequenceOf r) := by
  have hempty : Small 0 [] := ⟨Nat.le_refl 0, fun f hf => nomatch hf⟩
  obtain ⟨hplain, hkey⟩ := keys_plain.2
  have hlong := hfits.1
  have hsmall := small_assign hempty ((r.mFields.value cseq).length+8) hplain
    (value_plain r cseq) (by omega) (by omega)
  rwa [Nat.zero_add] at hsmall

/-- A field of another name is found as before. -/
theorem find_other {sKey sOther : Bytes} (sValue : Bytes) (mFields : Fields) (h : sKey ≠ sOther) :
    (Fields.assign sKey sValue mFields).find sOther = Fields.find mFields sOther := by
  induction mFields with
  | nil => simp [Fields.assign, Fields.find, h]
  | cons f mFields ih =>
    rw [Fields.find] at ih ⊢
    rw [Fields.assign]
    split_ifs with heq hlt
    · simp [Fields.find, h, ← heq]
    · simp [Fields.find, List.find?_cons, h]
    · rw [Fields.find, List.find?_cons, List.find?_cons]
      split
      · rfl
      · exact ih

theorem find_sequence (hseq : r.mFields.find cseq ≠ none) :
    (sequenceOf r).find cseq = r.mFields.find cseq := by
  rw [sequenceOf, find_assign, Fields.value]
  cases hfind : r.mFields.find cseq with
  | none => exact absurd hfind hseq
  | some v => rfl

/-- A text for the status. -/
def Short (sStatus : String) : Prop := 0 ∉ ascii sStatus ∧ (ascii sStatus).length ≤ 40

instance (sStatus : String) : Decidable (Short sStatus) := inferInstanceAs (Decidable (_ ∧ _))

/-- The texts of the states. -/
def statuses : List String :=
  ["OK", "Bad Request", "Not Found", "Header Field Not Valid", "Aggregate Operation Not Allowed",
    "Only Aggregate Operation Allowed", "Unsupported Transport", "Not implemented"]

theorem statuses_short : ∀ sStatus ∈ statuses, Short sStatus := by decide +kernel

theorem ok_short : Short "OK" := statuses_short "OK" (by simp [statuses])

theorem sendReply_sent {n iStatus : ℕ} (hstatus : iStatus < 2^32) {sStatus : String}
    (htext : Short sStatus) {pData : Bytes} {mFields : Fields}
    (hsmall : Small n (withLength mFields pData.length)) (hroom : r.sProtocol.length+n ≤ 63900) :
    (sendReply r iStatus sStatus pData mFields).run s =
      .ok () { s with out := s.out ++ (Reply.mk iStatus sStatus pData mFields).bytes r } := by
  have hwords : ((Outgoing.reply iStatus (ascii sStatus)).words r.sProtocol).length ≤
      r.sProtocol.length+52 := by
    have hdigits := number_short hstatus
    have hlength := htext.2
    rw [Outgoing.words, cstr_self r.protocol_plain, cstr_self htext.1]
    simp only [List.length_append, List.length_cons]
    omega
  have hcrlf : crlf.length = 2 := rfl
  have hline : snprintf iSndBuffer ((Outgoing.reply iStatus (ascii sStatus)).words r.sProtocol ++
      crlf) = (Outgoing.reply iStatus (ascii sStatus)).words r.sProtocol ++ crlf := by
    rw [snprintf, List.take_of_length_le]
    rw [List.length_append, iSndBuffer]
    omega
  have hfields := tempFields_short hsmall.each
  have hlight := hsmall.light
  have hcompose : compose ((Outgoing.reply iStatus (ascii sStatus)).words r.sProtocol ++ crlf)
      pData.length mFields = .ok ((Outgoing.reply iStatus (ascii sStatus)).words r.sProtocol ++
        crlf ++ (withLength mFields pData.length).flatMap field ++ crlf) := by
    rw [compose_fits, hfields]
    rw [hfields, fields_weight, List.length_append, iSndBuffer]
    omega
  rw [sendReply, hline, run_ofExcept_bind hcompose]
  simp only [Reply.bytes, List.append_assoc]
  rfl

/-- A reply for the request was written, and nothing else was. -/
def Replies (r : Request) (s : RTSPSession) (iStatus : ℕ) (x : Handling Unit) : Prop :=
  ∃ s' : RTSPSession, ∃ a : Reply, x.run s = .ok () s' ∧ s'.out = s.out ++ a.bytes r ∧
    a.mFields.find cseq = r.mFields.find cseq ∧ a.iStatus = iStatus

theorem replies_plain (hfits : Fits r) (hseq : r.mFields.find cseq ≠ none) {iStatus : ℕ}
    (hstatus : iStatus < 2^32) {sStatus : String} (htext : sStatus ∈ statuses) :
    Replies r s iStatus (sendReply r iStatus sStatus [] (sequenceOf r)) := by
  have hroom := hfits.2
  exact ⟨_, _, sendReply_sent hstatus (statuses_short _ htext) (small_sequence hfits) (by omega), rfl,
    find_sequence hseq, rfl⟩

/-! ## Commands -/

theorem replies_same {s t : RTSPSession} {iStatus : ℕ} {x y : Handling Unit} (hout : t.out = s.out)
    (hrun : x.run s = y.run t) (h : Replies r t iStatus y) : Replies r s iStatus x := by
  rcases h with ⟨s', a, hok, hwritten, hfind, hstatus⟩
  exact ⟨s', a, hrun.trans hok, hout ▸ hwritten, hfind, hstatus⟩

theorem options_replies (hfits : Fits r) (hseq : r.mFields.find cseq ≠ none) :
    Replies r s 200 (handleOPTIONS r) := by
  have hroom := hfits.2
  obtain ⟨hpublic, hkey, hother⟩ := texts_plain "Public" (by simp [texts])
  obtain ⟨hmethods, hvalue, -⟩ :=
    texts_plain "DESCRIBE, SETUP, TEARDOWN, PLAY, PAUSE" (by simp [texts])
  have hsmall := small_assign (small_sequence hfits) 50 hpublic hmethods
    (by rw [hkey, hvalue]; decide) (by omega)
  refine ⟨_, _, sendReply_sent (by omega) ok_short hsmall (by omega), rfl, ?_, rfl⟩
  show Fields.find (Fields.assign _ _ _) cseq = _
  rw [find_other _ _ hother, find_sequence hseq]

theorem teardown_replies (hfits : Fits r) (hseq : r.mFields.find cseq ≠ none) :
    Replies r s 200 (handleTEARDOWN r) := by
  have hplain : Replies r s 200 (sendReply r 200 "OK" [] (sequenceOf r)) :=
    replies_plain hfits hseq (by omega) (by simp [statuses])
  rcases hplain with ⟨s', a, hok, hwritten, hfind, hstatus⟩
  refine ⟨{ s' with bStop := true }, a, ?_, hwritten, hfind, hstatus⟩
  rw [handleTEARDOWN, run_bind_of_ok hok]
  rfl

theorem describe_replies {p : ProxyStreamer} (hfits : Fits r) (hseq : r.mFields.find cseq ≠ none)
    (hdescribable : position (ascii "application/sdp") (r.mFields.value (ascii "Accept")) ≠ none →
      Describable server s p) : ∃ iStatus, Replies r s iStatus (handleDESCRIBE server p r) := by
  unfold handleDESCRIBE
  by_cases haccept : position (ascii "application/sdp") (r.mFields.value (ascii "Accept")) = none
  · rw [if_pos haccept]
    exact ⟨456, replies_plain hfits hseq (by omega) (by simp [statuses])⟩
  · rw [if_neg haccept]
    rcases hdescribable haccept with ⟨c, hconstruct, hsize⟩
    have hroom := hfits.2
    obtain ⟨hcontent, hkey, hother⟩ := texts_plain "Content-Type" (by simp [texts])
    obtain ⟨hsdp, hvalue, -⟩ := texts_plain "application/sdp" (by simp [texts])
    have hsmall := small_length (small_assign (small_sequence hfits) 40 hcontent hsdp
      (by rw [hkey, hvalue]; decide) (by omega)) hsize
    refine ⟨200, replies_same (t := { s with oSDP := c.container, announced := c.iStream-1 }) rfl
      ?_ ⟨_, _, sendReply_sent (by omega) ok_short hsmall (by omega), rfl, ?_, rfl⟩⟩
    · rw [run_get_bind, run_ofExcept_bind hconstruct]
      rfl
    · show Fields.find (Fields.assign _ _ _) cseq = _
      rw [find_other _ _ hother, find_sequence hseq]

/-- What a URL that names a track does to the session. -/
def RTSPSession.renamed (s : RTSPSession) (u : Parsed) : RTSPSession :=
  { s with sApp := u.sApp, oFormat := u.oFormat, iTarget := u.iTarget }

theorem analyzeUrl1_run {u : Parsed} {n : ℤ} (hparse : URL_parse r.sUrl .NO .NO = .ok u)
    (htrack : trackNumber u.sMedia = some n) (s : RTSPSession) :
    ∃ v, (analyzeUrl1 r).run s = .ok n (s.renamed v) := by
  rcases parse_formats hparse s.oFormat s.iTarget with ⟨v, hv, hmedia⟩
  refine ⟨v, ?_⟩
  rw [analyzeUrl1, run_get_bind, run_ofExcept_bind hv, run_modify_bind, hmedia, htrack]
  rfl

theorem createTransmitter_run {p : ProxyStreamer} (pDesc : MediaDescriptor)
    (hdot : '.' ∉ (sTransmitterName pDesc).toList)
    (hunused : sTransmitterName pDesc ∉ p.oProcessorManager.mProcessors)
    (hraises : w.transmitter = none) (s : RTSPSession) :
    (createTransmitter p pDesc w).run s = .ok () { s with
      pStreamer := some ⟨p.oProcessorManager.enter (sTransmitterName pDesc), p.container⟩ } := by
  rw [createTransmitter, create_unused hdot rfl hunused, hraises]
  rfl

theorem uint32_small (x : ℤ) : uint32 x < 2^32 := by
  rw [uint32]
  omega

theorem response_plain (clientPort serverPort : ℤ) : 0 ∉ transportResponse clientPort serverPort ∧
    (transportResponse clientPort serverPort).length ≤ 100 := by
  obtain ⟨hhead, hheadLength, -⟩ := texts_plain "RTP/AVP;unicast;client_port=" (by simp [texts])
  obtain ⟨htail, htailLength, -⟩ := texts_plain ";server_port=" (by simp [texts])
  have hshort (x : ℤ) : (ascii (toString (uint32 x))).length ≤ 10 := number_short (uint32_small x)
  have hone := hshort clientPort
  have htwo := hshort (clientPort+1)
  have hthree := hshort serverPort
  have hfour := hshort (serverPort+1)
  rw [transportResponse]
  constructor
  · simp only [List.mem_append, List.mem_cons, not_or]
    exact ⟨⟨hhead, number_plain _⟩, by decide, ⟨⟨number_plain _, htail⟩, number_plain _⟩,
      by decide, number_plain _⟩
  · simp only [List.length_append, List.length_cons, hheadLength, htailLength]
    rw [show "RTP/AVP;unicast;client_port=".length = 28 from rfl,
      show ";server_port=".length = 13 from rfl]
    omega

theorem setup_replies {p : ProxyStreamer} (hfits : Fits r) (hseq : r.mFields.find cseq ≠ none)
    (hbound : s.announced ≤ s.oSDP.length)
    (hnamed : transportExpression (cstr (r.mFields.value (ascii "Transport"))) ≠ none →
      NamesTrack r fun n => TrackFree s p n w) :
    ∃ iStatus, Replies r s iStatus (handleSETUP p r w) ∧ (iStatus = 200 ↔ Announced s r) := by
  unfold handleSETUP
  cases htransport : transportExpression (cstr (r.mFields.value (ascii "Transport"))) with
  | none =>
    refine ⟨461, replies_plain hfits hseq (by omega) (by simp [statuses]), ?_⟩
    refine iff_of_false (by omega) ?_
    rintro ⟨haccepted, -⟩
    exact haccepted htransport
  | some port =>
    rcases hnamed (by simp [htransport]) with ⟨u, n, hparse, htrack, hfree⟩
    have hannounced : Announced s r ↔ 1 ≤ n ∧ n ≤ s.announced := by
      constructor
      · rintro ⟨-, u', n', hparse', htrack', hn⟩
        rw [hparse] at hparse'
        cases hparse'
        rw [htrack] at htrack'
        cases htrack'
        exact hn
      · intro hn
        exact ⟨by simp [htransport], u, n, hparse, htrack, hn⟩
    rcases analyzeUrl1_run hparse htrack s with ⟨v, hv⟩
    rw [hannounced]
    have hstart {iStatus : ℕ} {x : ℤ → Handling Unit} (h : Replies r (s.renamed v) iStatus (x n)) :
        Replies r s iStatus (analyzeUrl1 r >>= x) := replies_same (t := s.renamed v) rfl (run_bind_of_ok hv) h
    by_cases hnegative : n < 0
    · refine ⟨404, hstart ?_, iff_of_false (by omega) (by omega)⟩
      rw [if_pos hnegative]
      exact replies_plain hfits hseq (by omega) (by simp [statuses])
    by_cases hzero : n = 0
    · refine ⟨459, hstart ?_, iff_of_false (by omega) (by omega)⟩
      rw [if_neg hnegative, if_pos hzero]
      exact replies_plain hfits hseq (by omega) (by simp [statuses])
    cases hdesc : s.oSDP[(n-1).toNat]? with
    | none =>
      have hout := List.getElem?_eq_none_iff.mp hdesc
      refine ⟨404, hstart ?_, iff_of_false (by omega) (by omega)⟩
      rw [if_neg hnegative, if_neg hzero]
      have hrun : Replies r (s.renamed v) 404 (sendReply r 404 "Not Found" [] (sequenceOf r)) :=
        replies_plain hfits hseq (by omega) (by simp [statuses])
      refine replies_same rfl ?_ hrun
      rw [run_get_bind]
      simp only [RTSPSession.renamed, hdesc]
    | some pDesc =>
      rcases hfree pDesc (by omega) hdesc with ⟨hwithin, hdot, hunused, hraises⟩
      refine ⟨200, hstart ?_, iff_of_true rfl ⟨by omega, hwithin⟩⟩
      rw [if_neg hnegative, if_neg hzero]
      have hroom := hfits.2
      have hresponse := response_plain (atoi port) w.iPort
      have htoken := number_short s.iToken.isLt
      obtain ⟨hsession, hsessionLength, hsessionOther⟩ := texts_plain "Session" (by simp [texts])
      obtain ⟨hkey, hkeyLength, hkeyOther⟩ := texts_plain "Transport" (by simp [texts])
      rw [show "Session".length = 7 from rfl] at hsessionLength
      rw [show "Transport".length = 9 from rfl] at hkeyLength
      have hsmall := small_assign (small_assign (small_sequence hfits) 30 hsession
        (number_plain s.iToken.val) (by omega) (by omega)) 120 hkey hresponse.1 (by omega)
        (by omega)
      have hreply (t : RTSPSession) : Replies r t 200 (sendReply r 200 "OK" []
          (((sequenceOf r).assign (ascii "Session") (ascii (toString s.iToken.val))).assign
            (ascii "Transport") (transportResponse (atoi port) w.iPort))) := by
        refine ⟨_, _, sendReply_sent (by omega) ok_short hsmall (by omega), rfl, ?_, rfl⟩
        show Fields.find (Fields.assign _ _ _) cseq = _
        rw [find_other _ _ hkeyOther, find_other _ _ hsessionOther, find_sequence hseq]
      refine replies_same (t := { s.renamed v with
          oSDP := s.oSDP.set (n-1).toNat { pDesc with clientPort := atoi port, serverPort := w.iPort }
          pStreamer := some ⟨p.oProcessorManager.enter (sTransmitterName pDesc), p.container⟩ })
        rfl ?_ (hreply _)
      rw [run_get_bind]
      simp only [RTSPSession.renamed, hdesc]
      rw [run_modify_bind]
      exact run_bind_of_ok (createTransmitter_run
        { pDesc with clientPort := atoi port, serverPort := w.iPort } hdot hunused hraises _)

theorem play_replies (hfits : Fits r) (hseq : r.mFields.find cseq ≠ none)
    (hnamed : NamesTrack r fun n => n = 0 → w.streamer = none) :
    ∃ iStatus, Replies r s iStatus (handlePLAY r w) := by
  rcases hnamed with ⟨u, n, hparse, htrack, hplays⟩
  rcases analyzeUrl1_run hparse htrack s with ⟨v, hv⟩
  unfold handlePLAY
  have hstart {iStatus : ℕ} {x : ℤ → Handling Unit} (h : Replies r (s.renamed v) iStatus (x n)) :
      Replies r s iStatus (analyzeUrl1 r >>= x) := replies_same (t := s.renamed v) rfl (run_bind_of_ok hv) h
  by_cases hnegative : n < 0
  · refine ⟨404, hstart ?_⟩
    rw [if_pos hnegative]
    exact replies_plain hfits hseq (by omega) (by simp [statuses])
  by_cases hpositive : 0 < n
  · refine ⟨460, hstart ?_⟩
    rw [if_neg hnegative, if_pos hpositive]
    exact replies_plain hfits hseq (by omega) (by simp [statuses])
  · refine ⟨200, hstart ?_⟩
    rw [if_neg hnegative, if_neg hpositive, hplays (by omega)]
    exact replies_plain hfits hseq (by omega) (by simp [statuses])

theorem pause_replies (hfits : Fits r) (hseq : r.mFields.find cseq ≠ none)
    (hpauses : w.streamer = none) : Replies r s 200 (handlePAUSE r w) := by
  rw [handlePAUSE, hpauses]
  exact replies_plain hfits hseq (by omega) (by simp [statuses])

theorem unnumbered_replies (hfits : Fits r) (hseq : r.mFields.find cseq = none) :
    Replies r s 400 (sendReply r 400 "Bad Request" [] []) := by
  have hroom := hfits.2
  have hempty : Small 0 [] := ⟨Nat.le_refl 0, fun f hf => nomatch hf⟩
  have htext : "Bad Request" ∈ statuses := by simp [statuses]
  exact ⟨_, _, sendReply_sent (by omega) (statuses_short _ htext) hempty (by omega), rfl, by rw [hseq]; rfl, rfl⟩

/-! ## What handling keeps -/

structure Kept (s : RTSPSession) : Prop where
  manager : ∀ p, s.pStreamer = some p →
    Integrity p.oProcessorManager ∧ Dotless p.oProcessorManager
  bound : s.announced ≤ s.oSDP.length

theorem kept_new (transportStreams : Bool) (iToken : Fin (2^32)) :
    Kept (RTSPSession.new transportStreams iToken) :=
  ⟨fun _ hp => (nomatch hp), Nat.le_refl 0⟩

theorem kept_one (h : Kept s) : OnePerTrack s := by
  intro p hp i hi j hj hlive hlive' hname
  exact live_names (h.manager p hp).1 hi hj hlive hlive' hname

def Keeps (s t : RTSPSession) : Prop := Kept s → Kept t

instance : IsPreorder RTSPSession Keeps where
  refl _ h := h
  trans _ _ _ hst htu h := htu (hst h)

theorem sendReply_keeps {r : Request} {iStatus : ℕ} {sStatus : String} {pData : Bytes}
    {mFields : Fields} : Along Keeps (sendReply r iStatus sStatus pData mFields) := by
  apply along_ofExcept_bind
  intro header _ s h
  exact ⟨h.manager, h.bound⟩

theorem analyzeUrl_keeps (r : Request) : Along Keeps (analyzeUrl r) := by
  apply along_get_bind
  intro t
  apply along_ofExcept_bind
  intro u _ s h
  exact ⟨h.manager, h.bound⟩

theorem analyzeUrl1_keeps (r : Request) : Along Keeps (analyzeUrl1 r) := by
  apply along_get_bind
  intro t
  apply along_ofExcept_bind
  intro u _
  apply along_modify_bind
  · intro s h
    exact ⟨h.manager, h.bound⟩
  · cases trackNumber u.sMedia with
    | none => exact along_throw _
    | some iTrack => exact along_pure _

theorem newStreamer_keeps (server : Server) : Along Keeps (newStreamer server) := by
  apply along_get_bind
  intro t
  apply along_ofExcept_bind
  intro container _ s h
  refine ⟨?_, h.bound⟩
  intro p hp
  cases hp
  exact ⟨integrity_new "streamer", dotless_new "streamer"⟩

theorem openMedia_keeps (server : Server) (r : Request) : Along Keeps (openMedia server r) := by
  apply along_bind
  · apply along_get_bind
    intro t
    exact along_ite (analyzeUrl_keeps r) (along_pure ())
  · intro _
    apply along_get_bind
    intro t
    exact along_ite (newStreamer_keeps server) (along_pure ())

theorem describe_keeps (server : Server) (p : ProxyStreamer) (r : Request) :
    Along Keeps (handleDESCRIBE server p r) := by
  apply along_ite sendReply_keeps
  apply along_get_bind
  intro t
  apply along_ofExcept_bind
  intro c hc
  apply along_modify_bind
  · intro s h
    have hbound := construct_bounded hc
    refine ⟨h.manager, ?_⟩
    show c.iStream-1 ≤ c.container.length
    omega
  · exact sendReply_keeps

theorem createTransmitter_keeps {p : ProxyStreamer}
    (hp : Integrity p.oProcessorManager ∧ Dotless p.oProcessorManager) (pDesc : MediaDescriptor)
    (w : Circumstances) : Along Keeps (createTransmitter p pDesc w) := by
  apply along_modify_bind
  · intro s h
    refine ⟨?_, h.bound⟩
    intro q hq
    cases hq
    rcases create_cases p.oProcessorManager (fun _ => true) none "rtp-transmitter"
      (sTransmitterName pDesc) with ⟨e, herror⟩ | ⟨hdot, hnew, hentered⟩
    · rw [herror]
      exact hp
    · rw [hentered]
      exact ⟨integrity_enter hp.1 hnew, dotless_enter hp.2 hdot⟩
  · refine along_bind (along_ofExcept _) fun _ => ?_
    cases w.transmitter with
    | some e => exact along_throw e
    | none => exact along_pure ()

theorem setup_keeps {p : ProxyStreamer}
    (hp : Integrity p.oProcessorManager ∧ Dotless p.oProcessorManager) (r : Request)
    (w : Circumstances) : Along Keeps (handleSETUP p r w) := by
  unfold handleSETUP
  cases transportExpression (cstr (r.mFields.value (ascii "Transport"))) with
  | none => exact sendReply_keeps
  | some port =>
    refine along_bind (analyzeUrl1_keeps r) fun iTrack => ?_
    apply along_ite sendReply_keeps
    apply along_ite sendReply_keeps
    apply along_get_bind
    intro t
    cases t.oSDP[(iTrack-1).toNat]? with
    | none => exact sendReply_keeps
    | some pDesc =>
      apply along_modify_bind
      · intro s h
        refine ⟨h.manager, ?_⟩
        show s.announced ≤ (s.oSDP.set _ _).length
        rw [List.length_set]
        exact h.bound
      · exact along_bind (createTransmitter_keeps hp _ w) fun _ => sendReply_keeps

theorem play_keeps (r : Request) (w : Circumstances) : Along Keeps (handlePLAY r w) := by
  refine along_bind (analyzeUrl1_keeps r) fun iTrack => ?_
  apply along_ite sendReply_keeps
  apply along_ite sendReply_keeps
  cases w.streamer with
  | some e => exact along_throw e
  | none => exact sendReply_keeps

theorem pause_keeps (r : Request) (w : Circumstances) : Along Keeps (handlePAUSE r w) := by
  unfold handlePAUSE
  cases w.streamer with
  | some e => exact along_throw e
  | none => exact sendReply_keeps

theorem teardown_keeps (r : Request) : Along Keeps (handleTEARDOWN r) := by
  refine along_bind sendReply_keeps fun _ => ?_
  intro s h
  exact ⟨h.manager, h.bound⟩

theorem command_keeps {p : ProxyStreamer}
    (hp : Integrity p.oProcessorManager ∧ Dotless p.oProcessorManager) (server : Server)
    (r : Request) (w : Circumstances) : Along Keeps (handleCommand server p r w) := by
  apply along_ite sendReply_keeps
  apply along_ite sendReply_keeps
  apply along_ite (describe_keeps server p r)
  apply along_ite (setup_keeps hp r w)
  apply along_ite (play_keeps r w)
  apply along_ite (pause_keeps r w)
  exact along_ite (teardown_keeps r) sendReply_keeps

theorem request_keeps (server : Server) (r : Request) (w : Circumstances) :
    Triple Kept (requestHandler server r w) (fun _ => Kept) (fun _ => Kept) := by
  refine triple_bind (along_keeps (openMedia_keeps server r) fun s t hmove h => hmove h) fun _ => ?_
  apply triple_get_bind
  intro t ht
  cases hstreamer : t.pStreamer with
  | none => exact triple_pure () fun s hs => hs ▸ ht
  | some p =>
    exact triple_at (along_keeps (command_keeps (ht.manager p hstreamer) server r w)
      fun s t hmove h => hmove h) ht

theorem kept_stepped (h : Kept s) (a : Step) : Kept (s.stepped server a) := by
  cases a with
  | request r w => exact triple_after (request_keeps server r w) h
  | process behave =>
    refine ⟨?_, h.bound⟩
    intro q hq
    rcases Option.map_eq_some_iff.mp hq with ⟨p, hp, rfl⟩
    have hmanager := h.manager p hp
    exact ⟨integrity_scheduled hmanager.1 behave,
      dotless_stepped hmanager.2 (.scheduleProcessors behave)⟩
  | ended i =>
    refine ⟨?_, h.bound⟩
    intro q hq
    rcases Option.map_eq_some_iff.mp hq with ⟨p, hp, rfl⟩
    have hmanager := h.manager p hp
    exact ⟨integrity_ended hmanager.1 i, dotless_stepped hmanager.2 (.ended i)⟩

/-! ## Runs -/

/-- Nothing was written, and no media described. -/
def Quiet (s t : RTSPSession) : Prop := t.out = s.out ∧ t.announced = s.announced

instance : IsPreorder RTSPSession Quiet where
  refl _ := ⟨rfl, rfl⟩
  trans _ _ _ hst htu := ⟨htu.1.trans hst.1, htu.2.trans hst.2⟩

theorem openMedia_quiet (server : Server) (r : Request) : Along Quiet (openMedia server r) := by
  apply along_bind
  · apply along_get_bind
    intro t
    apply along_ite
    · apply along_get_bind
      intro u
      apply along_ofExcept_bind
      intro v _ s
      exact ⟨rfl, rfl⟩
    · exact along_pure ()
  · intro _
    apply along_get_bind
    intro t
    apply along_ite
    · apply along_get_bind
      intro u
      apply along_ofExcept_bind
      intro v _ s
      exact ⟨rfl, rfl⟩
    · exact along_pure ()

theorem commands_differ : ascii "OPTIONS" ≠ ascii "SETUP" ∧ ascii "DESCRIBE" ≠ ascii "SETUP" := by
  decide +kernel

theorem command_replies {p : ProxyStreamer} (h : Kept s) (hfits : Fits r)
    (hhandles : r.mFields.find cseq ≠ none → Handles server s p r w) :
    ∃ iStatus, Replies r s iStatus (handleCommand server p r w) ∧
      (r.sCommand = ascii "SETUP" → r.mFields.find cseq ≠ none →
        (iStatus = 200 ↔ Announced s r)) := by
  unfold handleCommand
  by_cases hseq : r.mFields.find cseq = none
  · rw [if_pos hseq]
    exact ⟨400, unnumbered_replies hfits hseq, fun _ hsome => absurd hseq hsome⟩
  rw [if_neg hseq]
  have hready := hhandles hseq
  by_cases hoptions : r.sCommand = ascii "OPTIONS"
  · rw [if_pos hoptions]
    exact ⟨200, options_replies hfits hseq,
      fun hsetup => absurd (hoptions.symm.trans hsetup) commands_differ.1⟩
  rw [if_neg hoptions]
  by_cases hdescribe : r.sCommand = ascii "DESCRIBE"
  · rw [if_pos hdescribe]
    rcases describe_replies hfits hseq (hready.describe hdescribe) with ⟨iStatus, hreplies⟩
    exact ⟨iStatus, hreplies,
      fun hsetup => absurd (hdescribe.symm.trans hsetup) commands_differ.2⟩
  rw [if_neg hdescribe]
  by_cases hsetup : r.sCommand = ascii "SETUP"
  · rw [if_pos hsetup]
    rcases setup_replies hfits hseq h.bound (hready.setup hsetup) with ⟨iStatus, hreplies, hstatus⟩
    exact ⟨iStatus, hreplies, fun _ _ => hstatus⟩
  rw [if_neg hsetup]
  by_cases hplay : r.sCommand = ascii "PLAY"
  · rw [if_pos hplay]
    rcases play_replies hfits hseq (hready.play hplay) with ⟨iStatus, hreplies⟩
    exact ⟨iStatus, hreplies, fun hother => absurd hother hsetup⟩
  rw [if_neg hplay]
  by_cases hpause : r.sCommand = ascii "PAUSE"
  · rw [if_pos hpause]
    exact ⟨200, pause_replies hfits hseq (hready.pause hpause), fun hother => absurd hother hsetup⟩
  rw [if_neg hpause]
  by_cases hteardown : r.sCommand = ascii "TEARDOWN"
  · rw [if_pos hteardown]
    exact ⟨200, teardown_replies hfits hseq, fun hother => absurd hother hsetup⟩
  · rw [if_neg hteardown]
    exact ⟨501, replies_plain hfits hseq (by omega) (by simp [statuses]),
      fun hother => absurd hother hsetup⟩

theorem request_answered (h : Kept s) (hready : Ready server s r w) :
    ∃ s' a, (requestHandler server r w).run s = .ok () s' ∧ Answered r s s' a := by
  rcases hready with ⟨t, p, hopen, hstreamer, hfits, hhandles⟩
  have hquiet := openMedia_quiet server r s
  rw [hopen] at hquiet
  have ht : Kept t := by
    have hkept := triple_after (along_keeps (openMedia_keeps server r)
      fun s t hmove h => hmove h) h
    rwa [hopen] at hkept
  rcases command_replies ht hfits hhandles with ⟨iStatus, ⟨s', a, hrun, hwritten, hfind, hstatus⟩,
    hsetup⟩
  refine ⟨s', a, ?_, ?_, hfind, ?_⟩
  · rw [requestHandler, run_bind_of_ok hopen, run_get_bind, hstreamer]
    exact hrun
  · rw [hwritten]
    exact congrArg (· ++ a.bytes r) hquiet.1
  · intro hcommand hseq
    rw [hstatus, hsetup hcommand hseq, Announced, Announced]
    have hannounced : t.announced = s.announced := hquiet.2
    rw [hannounced]

theorem answeredAll_ready (steps : List Step) (h : Kept s) (hready : ReadyAll server s steps) :
    AnsweredAll server s steps := by
  induction steps generalizing s with
  | nil => exact kept_one h
  | cons a steps ih =>
    cases a with
    | request r w =>
      exact ⟨kept_one h, fun hopen => request_answered h (hready.1 hopen),
        ih (kept_stepped h _) hready.2⟩
    | process behave => exact ⟨kept_one h, ih (kept_stepped h _) hready⟩
    | ended i => exact ⟨kept_one h, ih (kept_stepped h _) hready⟩

/-- In every run whose requests find what they need, each request is answered once, up to the first
`TEARDOWN`. -/
theorem requests_answered (server : Server) (transportStreams : Bool) (iToken : Fin (2^32))
    (steps : List Step)
    (hready : ReadyAll server (RTSPSession.new transportStreams iToken) steps) :
    AnsweredAll server (RTSPSession.new transportStreams iToken) steps :=
  answeredAll_ready steps (kept_new transportStreams iToken) hready

/-! ## A client -/

def video : MediaDescriptor where
  content := .video
  codec := .mp2v
  extra_data := []
  samplerate := 0
  channels := 0
  payload := 0
  clientPort := 0
  serverPort := 0
  track := ""
  sdp := ""

/-- One media, of one stream. -/
def film : Server where
  strop := fun _ _ => .ok ""
  streams := fun u => if u.sMedia = ascii "film.mpg" then .ok [video]
    else .error (ioError "could not open file")

def request (sCommand sUrl : Bytes) (sKey sValue : Bytes) (hvalue : 0 ∉ sValue) : Request where
  sCommand := sCommand
  sUrl := sUrl
  sProtocol := ascii "RTSP/1.0"
  mFields := [(cseq, [49]), (sKey, sValue)]
  protocol_plain := by decide +kernel
  fields_plain := by
    intro f hf
    rcases List.mem_cons.mp hf with rfl | hf
    · show (0 : UInt8) ∉ [49]
      decide
    · rwa [List.mem_singleton.mp hf]

def describe : Request := request (ascii "DESCRIBE") (ascii "rtsp://host/FILE/film.mpg")
  (ascii "Accept") (ascii "application/sdp") (by decide +kernel)

def setup : Request := request (ascii "SETUP") (ascii "rtsp://host/FILE/film.mpg/track1")
  (ascii "Transport") (ascii "RTP/AVP;unicast;client_port=5000-5001") (by decide +kernel)

def calm : Circumstances := ⟨49152, none, none⟩

theorem openMedia_first {u : Parsed} {container : List MediaDescriptor} (hmedia : s.sMedia = [])
    (hstreamer : s.pStreamer = none) (hparse : URL_parse r.sUrl s.oFormat s.iTarget = .ok u)
    (hstreams : server.streams u = .ok container) :
    (openMedia server r).run s = .ok () { s with
      sApp := u.sApp
      oFormat := u.oFormat
      iTarget := u.iTarget
      sMedia := u.sMedia
      pStreamer := some ⟨ProcessorManager.new "streamer", container⟩ } := by
  have hname : (nameMedia r).run s = .ok () { s with
      sApp := u.sApp, oFormat := u.oFormat, iTarget := u.iTarget, sMedia := u.sMedia } := by
    rw [nameMedia, run_get_bind, if_pos hmedia, analyzeUrl, run_get_bind, run_ofExcept_bind hparse]
    rfl
  rw [openMedia, run_bind_of_ok hname, makeStreamer, run_get_bind, hstreamer, newStreamer]
  simp only [Option.isNone_none, if_pos]
  rw [run_get_bind, run_ofExcept_bind hstreams]
  rfl

theorem openMedia_again {p : ProxyStreamer} (hmedia : s.sMedia ≠ []) (hstreamer : s.pStreamer = some p) :
    (openMedia server r).run s = .ok () s := by
  have hname : (nameMedia r).run s = .ok () s := by
    rw [nameMedia, run_get_bind, if_neg hmedia]
    rfl
  rw [openMedia, run_bind_of_ok hname, makeStreamer, run_get_bind, hstreamer]
  rfl

def described : RTSPSession :=
  (RTSPSession.new false 0).stepped film (.request describe calm)

theorem describe_ready : Ready film (RTSPSession.new false 0) describe calm := by
  have hparse : (URL_parse describe.sUrl .NO .NO).toOption =
    some ⟨ascii "FILE", .NO, .NO, ascii "film.mpg"⟩ := by decide +kernel
  have hstreams : film.streams ⟨ascii "FILE", .NO, .NO, ascii "film.mpg"⟩ = .ok [video] := if_pos rfl
  refine ⟨_, _, openMedia_first rfl rfl (ok_of_toOption hparse) hstreams, rfl, by decide +kernel,
    fun _ => ⟨?_, ?_, ?_, ?_⟩⟩
  · intro _ _
    have hconstruct : ((SDPConstruct film.strop [video] false).toOption.map fun c =>
      decide ((ascii (SDPString c.container)).length < 2^32)) = some true := by decide +kernel
    rcases Option.map_eq_some_iff.mp hconstruct with ⟨c, hc, hsize⟩
    exact ⟨c, ok_of_toOption hc, of_decide_eq_true hsize⟩
  · intro hcommand
    exact absurd hcommand (by decide +kernel)
  · intro hcommand
    exact absurd hcommand (by decide +kernel)
  · intro _
    rfl

theorem setup_ready : Ready film described setup calm := by
  have hfree : (described.pStreamer.map fun p =>
    decide ("track1-transmitter" ∉ p.oProcessorManager.mProcessors)) = some true := by decide +kernel
  rcases Option.map_eq_some_iff.mp hfree with ⟨p, hp, hunused⟩
  refine ⟨described, p, openMedia_again (by decide +kernel) hp, hp, by decide +kernel,
    fun _ => ⟨?_, ?_, ?_, ?_⟩⟩
  · intro hcommand
    exact absurd hcommand (by decide +kernel)
  · intro _ _
    have hparse : (URL_parse setup.sUrl .NO .NO).toOption =
      some ⟨ascii "FILE", .NO, .NO, ascii "film.mpg/track1"⟩ := by decide +kernel
    refine ⟨⟨ascii "FILE", .NO, .NO, ascii "film.mpg/track1"⟩, 1, ok_of_toOption hparse,
      by decide +kernel, ?_⟩
    intro pDesc _ hdesc
    have htrack : described.oSDP[0]?.map MediaDescriptor.track = some "track1" := by decide +kernel
    have hdesc' : described.oSDP[0]? = some pDesc := hdesc
    rw [hdesc'] at htrack
    have hname : sTransmitterName pDesc = "track1-transmitter" := by
      rw [sTransmitterName, Option.some.inj htrack]
      rfl
    rw [hname]
    exact ⟨by decide +kernel, by decide +kernel, of_decide_eq_true hunused, rfl⟩
  · intro hcommand
    exact absurd hcommand (by decide +kernel)
  · intro _
    rfl

/-- A track that is set up once. -/
theorem first_setup_answered : AnsweredAll film (RTSPSession.new false 0)
    [.request describe calm, .request setup calm] :=
  requests_answered film false 0 _ ⟨fun _ => describe_ready, fun _ => setup_ready, trivial⟩

/-- A track that is set up twice. -/
theorem second_setup_unanswered : ¬ AnsweredAll film (RTSPSession.new false 0)
    [.request describe calm, .request setup calm, .request setup calm] := by
  rintro ⟨-, -, -, -, -, hthird, -⟩
  rcases hthird (by decide +kernel) with ⟨s', a, hrun, -⟩
  have herror : ((match (requestHandler film setup calm).run
      (described.stepped film (.request setup calm)) with
    | .ok _ _ => true
    | .error _ _ => false) : Bool) = false := by decide +kernel
  have hrun' : (requestHandler film setup calm).run
    (described.stepped film (.request setup calm)) = .ok () s' := hrun
  rw [hrun'] at herror
  cases herror

end Sirannon.RTSP
