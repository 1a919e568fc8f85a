import Sirannon.Bits

/-!
# Session descriptions

What a client is told of a media: a track for each stream that has a codec with
a name of its own, numbered from one. The streams of other codecs stay in the
container without a description.
-/

set_option autoImplicit false

namespace Sirannon.SDP
open Bits

inductive Content
  | video
  | audio
  | mixed
  deriving DecidableEq, Repr

/-- `other` are the codecs that have no name here, and none at all. -/
inductive Codec
  | mp4v
  | avc
  | mp1v
  | mp2v
  | mp4a
  | mp2a
  | mp1a
  | anb
  | awb
  | ac3
  | other
  deriving DecidableEq, Repr

structure MediaDescriptor where
  content : Content
  codec : Codec
  extra_data : List UInt8
  samplerate : ℤ
  channels : ℤ
  payload : ℤ
  clientPort : ℤ
  serverPort : ℤ
  track : String
  sdp : String
  deriving DecidableEq, Repr

/-- How a codec is called, its payload type where that is fixed, and whether it is described further
by the stream's extra data. -/
structure Encoding where
  sCodec : String
  iPayload : Option ℤ
  bStrop : Bool
  deriving DecidableEq, Repr

def encoding : Content → Codec → Option Encoding
  | .video, .mp4v => some ⟨"MP4V-ES", none, true⟩
  | .video, .avc => some ⟨"H264", none, true⟩
  | .video, .mp1v => some ⟨"MPV", some 32, false⟩
  | .video, .mp2v => some ⟨"MPV", some 32, false⟩
  | .audio, .mp4a => some ⟨"mpeg4-generic", none, true⟩
  | .audio, .mp2a => some ⟨"MPA", some 14, false⟩
  | .audio, .mp1a => some ⟨"MPA", some 14, false⟩
  | .audio, .anb => some ⟨"AMR", none, false⟩
  | .audio, .awb => some ⟨"AMR-WB", none, false⟩
  | .audio, .ac3 => some ⟨"ac3", none, false⟩
  | _, _ => none

/-- The buffer holds fifteen characters. -/
def sTimestamp (pDesc : MediaDescriptor) : String :=
  if pDesc.content = .video then "90000"
  else String.ofList (s!"{pDesc.samplerate}/{pDesc.channels}".toList.take 15)

def trackText (sType : String) (iPort : ℕ) (iPayload : ℤ) (sCodec sTimestamp : String)
    (iStream : ℕ) (sStrop : String) : String :=
  s!"m={sType} {iPort} RTP/AVP {iPayload}\r\n" ++
  s!"a=rtpmap:{iPayload} {sCodec}/{sTimestamp}\r\n" ++
  s!"a=control:track{iStream}\r\n" ++
  (if sStrop = "" then "" else s!"a=fmtp:{iPayload} {sStrop}\r\n")

/-- The container so far, and the numbers of the next track and payload type. -/
structure Construction where
  container : List MediaDescriptor
  iStream : ℕ
  iDynamicPayload : ℤ
  deriving DecidableEq, Repr

/-- What `mp4vStrop`, `AVCMovStrop` and `AACStrop` make of the extra data. -/
abbrev Strop := Codec → List UInt8 → Except SirannonException String

def addTrack (strop : Strop) (iPort : ℕ) (c : Construction) (pSrcDesc : MediaDescriptor) :
    Except SirannonException Construction :=
  match encoding pSrcDesc.content pSrcDesc.codec with
  | none => .ok { c with container := c.container ++ [pSrcDesc] }
  | some e =>
    match (if e.bStrop then strop pSrcDesc.codec pSrcDesc.extra_data else .ok "") with
    | .error e => .error e
    | .ok sStrop =>
      let iPayload := e.iPayload.getD c.iDynamicPayload
      let sType := if pSrcDesc.content = .video then "video" else "audio"
      .ok
        { container := c.container ++
            [{ pSrcDesc with
              payload := iPayload
              clientPort := iPort
              sdp := trackText sType iPort iPayload e.sCodec (sTimestamp pSrcDesc) c.iStream sStrop
              track := "track" ++ toString c.iStream }]
          iStream := c.iStream+1
          iDynamicPayload :=
            if e.iPayload = none then c.iDynamicPayload+1 else c.iDynamicPayload }

def addTracks (strop : Strop) (iPort : ℕ) :
    List MediaDescriptor → Construction → Except SirannonException Construction
  | [], c => .ok c
  | pSrcDesc::rest, c =>
    match addTrack strop iPort c pSrcDesc with
    | .error e => .error e
    | .ok c => addTracks strop iPort rest c

/-- A transport stream is one track. Its route and what else a new descriptor starts with is not
looked at. -/
def transportTrack (iPort : ℕ) : MediaDescriptor where
  content := .mixed
  codec := .other
  extra_data := []
  samplerate := 0
  channels := 0
  payload := 33
  clientPort := iPort
  serverPort := 0
  track := ""
  sdp := s!"m=video {iPort} RTP/AVP 33\r\n" ++ "a=rtpmap:33 MP2T/90000\r\n" ++
    "a=control:track1\r\n"

/-- The port is zero wherever this is called; it then stays the same for all tracks. -/
def SDPConstruct (strop : Strop) (pSrcContainer : List MediaDescriptor) (bMP2TS : Bool) :
    Except SirannonException Construction :=
  if bMP2TS then .ok ⟨[transportTrack 0], 2, 96⟩
  else addTracks strop 0 pSrcContainer ⟨[], 1, 96⟩

def SDPString (pSDP : List MediaDescriptor) : String :=
  "v=0\r\nc=IN IP4 127.0.0.1\r\ns= \r\nt=0 0\r\n" ++ String.join (pSDP.map MediaDescriptor.sdp)

/-! ## Tracks -/

variable {strop : Strop} {c c' : Construction}

theorem addTrack_numbered {iPort : ℕ} {pSrcDesc : MediaDescriptor}
    (h : addTrack strop iPort c pSrcDesc = .ok c') :
    ∃ pDesc, c'.container = c.container ++ [pDesc] ∧
      (c'.iStream = c.iStream ∧ encoding pSrcDesc.content pSrcDesc.codec = none ∨
        c'.iStream = c.iStream+1 ∧ pDesc.track = "track" ++ toString c.iStream) := by
  unfold addTrack at h
  cases he : encoding pSrcDesc.content pSrcDesc.codec with
  | none =>
    rw [he] at h
    cases h
    exact ⟨pSrcDesc, rfl, .inl ⟨rfl, rfl⟩⟩
  | some e =>
    rw [he] at h
    simp only at h
    split at h
    · cases h
    · cases h
      exact ⟨_, rfl, .inr ⟨rfl, rfl⟩⟩

/-- There are never more tracks than streams. -/
theorem tracks_bounded {iPort : ℕ} {rest : List MediaDescriptor}
    (h : addTracks strop iPort rest c = .ok c') (hc : c.iStream ≤ c.container.length+1) :
    c'.iStream ≤ c'.container.length+1 := by
  induction rest generalizing c with
  | nil =>
    cases h
    exact hc
  | cons pSrcDesc rest ih =>
    rw [addTracks] at h
    cases hone : addTrack strop iPort c pSrcDesc with
    | error e =>
      rw [hone] at h
      cases h
    | ok d =>
      rw [hone] at h
      apply ih h
      rcases addTrack_numbered hone with ⟨pDesc, hcontainer, ⟨hstream, -⟩ | ⟨hstream, -⟩⟩
      · rw [hcontainer, hstream, List.length_append]
        omega
      · rw [hcontainer, hstream, List.length_append, List.length_singleton]
        omega

theorem construct_bounded {pSrcContainer : List MediaDescriptor} {bMP2TS : Bool}
    (h : SDPConstruct strop pSrcContainer bMP2TS = .ok c) : c.iStream ≤ c.container.length+1 := by
  unfold SDPConstruct at h
  split_ifs at h
  · cases h
    exact Nat.le_refl 2
  · exact tracks_bounded h (Nat.le_refl 1)

end Sirannon.SDP
