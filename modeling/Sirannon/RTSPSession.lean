import Sirannon.HTTPRoundTrip
import Sirannon.ProcessorManager
import Sirannon.SDP
import Sirannon.Url

/-!
# RTSP sessions

A session answers the requests of one client, one after the other. The first
request names the media; a streamer is made for it that has a transmitter for
each track the client sets up. An error ends the thread that answers.
-/

set_option autoImplicit false

namespace Sirannon.RTSP
open Bits MachineInt HTTP HTTPConnection Url SDP Manager StateError

/-! ## Requests -/

/-- A request as it was received: strings that end at their first zero hold none. -/
structure Request where
  sCommand : Bytes
  sUrl : Bytes
  sProtocol : Bytes
  mFields : Fields
  protocol_plain : 0 ∉ sProtocol
  fields_plain : ∀ f ∈ mFields, 0 ∉ f.2

/-- What else goes into handling a request: the port the server finds, and what the transmitter and
the streamer raise when they are set to work. -/
structure Circumstances where
  iPort : ℤ
  transmitter : Option SirannonException
  streamer : Option SirannonException

/-- `"/track"`. -/
def trackWord : Bytes := ascii "/track"

/-- The expression `(?:/track(\d+))?`, at the end. -/
def trackExpression (s : Bytes) : Option (Option Bytes) :=
  if s = [] then some none
  else
    match expect trackWord s with
    | some digits => if digits ≠ [] ∧ digits.all isDigit then some (some digits) else none
    | none => none

/-- The expression `RTP/AVP;unicast;client_port=(\d+)\-(\d+)`; the first port is of use. -/
def transportExpression (s : Bytes) : Option Bytes := do
  let s ← expect (ascii "RTP/AVP;unicast;client_port=") s
  let (port, s) ← run isDigit s
  let s ← expect [45] s
  let (_, s) ← run isDigit s
  if s = [] then some (port ++ 45::[]) else none

/-- The track a media part asks for; zero is none. -/
def trackNumber (sTrack : Bytes) : Option ℤ :=
  (shortest trackExpression (cstr sTrack)).map fun m =>
    match m.2 with
    | none => 0
    | some digits => atoi digits

/-! ## The session -/

/-- The components besides the transmitters have other names than these, and are left out. -/
structure ProxyStreamer where
  oProcessorManager : ProcessorManager
  container : List MediaDescriptor

/-- `announced` is the number of tracks in the last description sent. What is written to the
connection is collected in `out`. -/
structure RTSPSession where
  sApp : Bytes
  sMedia : Bytes
  oFormat : MuxType
  iTarget : TargetType
  transportStreams : Bool
  iToken : Fin (2^32)
  pStreamer : Option ProxyStreamer
  oSDP : List MediaDescriptor
  announced : ℕ
  bStop : Bool
  out : Bytes

def RTSPSession.new (transportStreams : Bool) (iToken : Fin (2^32)) : RTSPSession where
  sApp := ascii "RTSP"
  sMedia := []
  oFormat := .NO
  iTarget := .NO
  transportStreams := transportStreams
  iToken := iToken
  pStreamer := none
  oSDP := []
  announced := 0
  bStop := false
  out := []

abbrev Handling := EStateM SirannonException RTSPSession

/-- What the session works with: how extra data is described, and the streams of the media that a
streamer finds, or what making it raises. -/
structure Server where
  strop : Strop
  streams : Parsed → Except SirannonException (List MediaDescriptor)

def sendReply (r : Request) (iStatus : ℕ) (sStatus : String) (pData : Bytes) (mFields : Fields) :
    Handling Unit := do
  let header ← ofExcept (compose
    (snprintf iSndBuffer ((Outgoing.reply iStatus (ascii sStatus)).words r.sProtocol ++ crlf))
    pData.length mFields)
  modify fun s => { s with out := s.out ++ header ++ pData }

def analyzeUrl (r : Request) : Handling Unit := do
  let s ← get
  let u ← ofExcept (URL_parse r.sUrl s.oFormat s.iTarget)
  modify fun s =>
    { s with sApp := u.sApp, oFormat := u.oFormat, iTarget := u.iTarget, sMedia := u.sMedia }

def newStreamer (server : Server) : Handling Unit := do
  let s ← get
  let container ← ofExcept (server.streams ⟨s.sApp, s.oFormat, s.iTarget, s.sMedia⟩)
  modify fun s => { s with pStreamer := some ⟨ProcessorManager.new "streamer", container⟩ }

def analyzeUrl1 (r : Request) : Handling ℤ := do
  let s ← get
  let u ← ofExcept (URL_parse r.sUrl s.oFormat s.iTarget)
  modify fun s => { s with sApp := u.sApp, oFormat := u.oFormat, iTarget := u.iTarget }
  match trackNumber u.sMedia with
  | none => throw (valueError s!"Invalid URL: {text r.sUrl}")
  | some iTrack => pure iTrack

def cseq : Bytes := ascii "CSeq"

/-- The fields every answer starts with. -/
def sequenceOf (r : Request) : Fields := Fields.assign cseq (r.mFields.value cseq) []

def handleOPTIONS (r : Request) : Handling Unit :=
  sendReply r 200 "OK" []
    ((sequenceOf r).assign (ascii "Public") (ascii "DESCRIBE, SETUP, TEARDOWN, PLAY, PAUSE"))

def handleDESCRIBE (server : Server) (pStreamer : ProxyStreamer) (r : Request) : Handling Unit := do
  if position (ascii "application/sdp") (r.mFields.value (ascii "Accept")) = none then
    sendReply r 456 "Header Field Not Valid" [] (sequenceOf r)
  else
    let s ← get
    let c ← ofExcept (SDPConstruct server.strop pStreamer.container
      (s.transportStreams || s.oFormat == .TS))
    modify fun s => { s with oSDP := c.container, announced := c.iStream-1 }
    sendReply r 200 "OK" (ascii (SDPString c.container))
      ((sequenceOf r).assign (ascii "Content-Type") (ascii "application/sdp"))

def sTransmitterName (pDesc : MediaDescriptor) : String := pDesc.track ++ "-transmitter"

/-- The type is registered, and making such a component raises nothing. -/
def createTransmitter (pStreamer : ProxyStreamer) (pDesc : MediaDescriptor) (w : Circumstances) :
    Handling Unit := do
  let made := pStreamer.oProcessorManager.createProcessor (fun _ => true) none "rtp-transmitter"
    (sTransmitterName pDesc)
  modify fun s => { s with pStreamer := some { pStreamer with oProcessorManager := made.2 } }
  let _ ← ofExcept made.1
  match w.transmitter with
  | some e => throw e
  | none => pure ()

/-- The ports are printed as unsigned numbers. -/
def transportResponse (clientPort serverPort : ℤ) : Bytes :=
  ascii "RTP/AVP;unicast;client_port=" ++ ascii (toString (uint32 clientPort)) ++ 45::
    (ascii (toString (uint32 (clientPort+1))) ++ ascii ";server_port=" ++
      ascii (toString (uint32 serverPort)) ++ 45::ascii (toString (uint32 (serverPort+1))))

/-- A missing field is not noticed, the end it is compared with is that of another map; it then
reads as an empty one. -/
def handleSETUP (pStreamer : ProxyStreamer) (r : Request) (w : Circumstances) : Handling Unit := do
  match transportExpression (cstr (r.mFields.value (ascii "Transport"))) with
  | none => sendReply r 461 "Unsupported Transport" [] (sequenceOf r)
  | some port =>
    let iTrack ← analyzeUrl1 r
    if iTrack < 0 then sendReply r 404 "Not Found" [] (sequenceOf r)
    else if iTrack = 0 then sendReply r 459 "Aggregate Operation Not Allowed" [] (sequenceOf r)
    else
      let s ← get
      match s.oSDP[(iTrack-1).toNat]? with
      | none => sendReply r 404 "Not Found" [] (sequenceOf r)
      | some pDesc =>
        let pDesc := { pDesc with clientPort := atoi port, serverPort := w.iPort }
        modify fun s => { s with oSDP := s.oSDP.set (iTrack-1).toNat pDesc }
        createTransmitter pStreamer pDesc w
        sendReply r 200 "OK" []
          (((sequenceOf r).assign (ascii "Session") (ascii (toString s.iToken.val))).assign
            (ascii "Transport") (transportResponse pDesc.clientPort pDesc.serverPort))

/-- The fields are those of the answer, which has no range. -/
def handlePLAY (r : Request) (w : Circumstances) : Handling Unit := do
  let iTrack ← analyzeUrl1 r
  if iTrack < 0 then sendReply r 404 "Not Found" [] (sequenceOf r)
  else if 0 < iTrack then
    sendReply r 460 "Only Aggregate Operation Allowed" [] (sequenceOf r)
  else
    match w.streamer with
    | some e => throw e
    | none => sendReply r 200 "OK" [] (sequenceOf r)

def handlePAUSE (r : Request) (w : Circumstances) : Handling Unit :=
  match w.streamer with
  | some e => throw e
  | none => sendReply r 200 "OK" [] (sequenceOf r)

def handleTEARDOWN (r : Request) : Handling Unit := do
  sendReply r 200 "OK" [] (sequenceOf r)
  modify fun s => { s with bStop := true }

def handleUNSUPPORTED (r : Request) : Handling Unit :=
  sendReply r 501 "Not implemented" [] (sequenceOf r)

def handleCommand (server : Server) (pStreamer : ProxyStreamer) (r : Request) (w : Circumstances) :
    Handling Unit :=
  if r.mFields.find cseq = none then sendReply r 400 "Bad Request" [] []
  else if r.sCommand = ascii "OPTIONS" then handleOPTIONS r
  else if r.sCommand = ascii "DESCRIBE" then handleDESCRIBE server pStreamer r
  else if r.sCommand = ascii "SETUP" then handleSETUP pStreamer r w
  else if r.sCommand = ascii "PLAY" then handlePLAY r w
  else if r.sCommand = ascii "PAUSE" then handlePAUSE r w
  else if r.sCommand = ascii "TEARDOWN" then handleTEARDOWN r
  else handleUNSUPPORTED r

/-- The media is taken from the first URL that has one. -/
def nameMedia (r : Request) : Handling Unit := do
  let s ← get
  if s.sMedia = [] then analyzeUrl r else pure ()

def makeStreamer (server : Server) : Handling Unit := do
  let s ← get
  if s.pStreamer.isNone then newStreamer server else pure ()

def openMedia (server : Server) (r : Request) : Handling Unit := do
  nameMedia r
  makeStreamer server

/-- One turn of the loop. -/
def requestHandler (server : Server) (r : Request) (w : Circumstances) : Handling Unit := do
  openMedia server r
  let s ← get
  match s.pStreamer with
  | none => pure ()
  | some pStreamer => handleCommand server pStreamer r w

end Sirannon.RTSP
