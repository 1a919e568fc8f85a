import Sirannon.HTTPRoundTrip
import Sirannon.Url

/-!
# URLs of a client

A client puts the protocol in front of the URL it is given where it is missing,
and takes the URL apart into protocol, server, port, application and media part.
-/

set_option autoImplicit false

namespace Sirannon.Url
open Bits HTTP HTTPConnection

/-! ## The functions of the source -/

def URL_exists (sUrl sProtocol : Bytes) : Bool :=
  if sProtocol.length ≠ 4 then false else (cstr sUrl).take 7 = sProtocol ++ scheme

def URL_canonize (sUrl sProtocol : Bytes) : Bytes :=
  if URL_exists sUrl sProtocol = true then sUrl else sProtocol ++ (scheme ++ sUrl)

/-- The expression `(:\d+)?` before another one. The port is known by what follows the colon. -/
def portExpression {α : Type} (rest : Bytes → Option α) : Bytes → Option (Option Bytes × α)
  | 58::s =>
    let digits := s.takeWhile isDigit
    match if digits = [] then none else rest (s.drop digits.length) with
    | some m => some (some s, m)
    | none => (rest (58::s)).map (none, ·)
  | s => (rest s).map (none, ·)

/-- The expression `/(\S+?)/(\S+)`. -/
def appExpression : Bytes → Option (Bytes × Bytes)
  | 47::s => shortest mediaExpression s
  | _ => none

/-- The expression `(\w+)://(\S+?)(:\d+)?/(\S+?)/(\S+)`. -/
def locationExpression (s : Bytes) : Option (Bytes × Bytes × Option Bytes × Bytes × Bytes) :=
  let sProtocol := s.takeWhile isWord
  let behind := s.drop sProtocol.length
  if sProtocol ≠ [] ∧ scheme <+: behind then
    (shortest (portExpression appExpression) (behind.drop 3)).map (sProtocol, ·)
  else none

structure Location where
  sProtocol : Bytes
  sServer : Bytes
  iPort : ℤ
  sApp : Bytes
  sMedia : Bytes
  deriving DecidableEq, Repr

def defaultPort (sProtocol : Bytes) : ℤ :=
  if sProtocol = ascii "rtmp" then 1935 else if sProtocol = ascii "rtsp" then 554 else 80

/-- The overload of `URL_parse` with a server and an application. -/
def URL_parse_location (sUrl : Bytes) : Except SirannonException Location :=
  match locationExpression (cstr sUrl) with
  | none => .error (syntaxError s!"Invalid URL: {text (cstr sUrl)}")
  | some (sProtocol, sServer, sPort, sApp, sMedia) => .ok {
      sProtocol := sProtocol
      sServer := sServer
      iPort := match sPort with
        | some sPort => atoi sPort
        | none => defaultPort sProtocol
      sApp := sApp
      sMedia := URL_hack sMedia }

/-! ## Addresses -/

inductive Protocol
  | rtmp | rtmpt | rtsp | http
  deriving DecidableEq, Repr

def Protocol.name : Protocol → Bytes
  | rtmp => ascii "rtmp"
  | rtmpt => ascii "rtmpt"
  | rtsp => ascii "rtsp"
  | http => ascii "http"

/-- A name in which these separators, blanks and the end of a text do not occur. -/
structure Name (separators : List UInt8) (s : Bytes) : Prop where
  nonempty : s ≠ []
  graph : ∀ b ∈ s, isGraph b = true
  text : (0 : UInt8) ∉ s
  apart : ∀ b ∈ s, b ∉ separators

/-- A decimal number that is an `int`. -/
structure Decimal (v : Bytes) : Prop where
  nonempty : v ≠ []
  digits : ∀ b ∈ v, isDigit b = true
  small : decimal v < 2^31

structure Address where
  server : Bytes
  port : Option Bytes
  app : Bytes
  media : Bytes
  serverName : Name [58, 47] server
  portNumber : ∀ v ∈ port, Decimal v
  appName : Name [47, 64] app
  mediaName : Name [] media
  honest : position dummy media = none

/-- `server[:port]/app/media`. -/
def Address.text (a : Address) : Bytes :=
  a.server ++ (match a.port with | none => [] | some v => 58::v) ++ 47::(a.app ++ 47::a.media)

def Address.location (a : Address) (p : Protocol) : Location where
  sProtocol := p.name
  sServer := a.server
  iPort := match a.port with
    | none => defaultPort p.name
    | some v => decimal v
  sApp := a.app
  sMedia := a.media

/-- The address comes back, with the protocol given or not, and a URL is canonised once. -/
def Faithful (p : Protocol) (a : Address) : Prop :=
  URL_parse_location (URL_canonize (p.name ++ (scheme ++ a.text)) p.name) = .ok (a.location p) ∧
  URL_parse_location (URL_canonize a.text p.name) = .ok (a.location p) ∧
  ∀ sUrl, URL_canonize (URL_canonize sUrl p.name) p.name = URL_canonize sUrl p.name

/-! ## What is taken for a group -/

section
variable {α : Type} {rest : Bytes → Option α} {p t v : Bytes} {m : α}

theorem shortest_whole (hne : p ≠ []) (hgraph : ∀ b ∈ p, isGraph b = true)
    (hbefore : ∀ b ∈ p, ∀ u, rest (b::u) = none) (ht : rest t = some m) :
    shortest rest (p++t) = some (p, m) := by
  induction p with
  | nil => exact absurd rfl hne
  | cons b p ih =>
    rw [List.cons_append, shortest, if_pos (hgraph b List.mem_cons_self)]
    cases p with
    | nil =>
      rw [List.nil_append, ht]
    | cons c p =>
      have hnone : rest (c::p++t) = none :=
        hbefore c (List.mem_cons_of_mem b List.mem_cons_self) (p++t)
      rw [hnone, ih (by simp) (fun d hd => hgraph d (List.mem_cons_of_mem b hd))
        fun d hd => hbefore d (List.mem_cons_of_mem b hd)]
      rfl

theorem media_whole (h : Name [] p) : mediaExpression (47::p) = some p := by
  have hall : p.all isGraph = true := List.all_eq_true.mpr h.graph
  rw [mediaExpression, if_pos ⟨h.nonempty, hall⟩]

theorem app_whole {sApp sMedia : Bytes} (happ : Name [47, 64] sApp) (hmedia : Name [] sMedia) :
    appExpression (47::(sApp ++ 47::sMedia)) = some (sApp, sMedia) := by
  apply shortest_whole happ.nonempty happ.graph
  · intro b hb u
    have hslash : b ≠ 47 := by
      rintro rfl
      exact happ.apart 47 hb (by decide)
    unfold mediaExpression
    split
    · next heq => exact absurd (List.cons.inj heq).1 hslash
    · rfl
  · exact media_whole hmedia

theorem port_none {b : UInt8} (hb : b ≠ 58) (u : Bytes) :
    portExpression rest (b::u) = (rest (b::u)).map (none, ·) := by
  unfold portExpression
  split
  · next heq => exact absurd (List.cons.inj heq).1 hb
  · rfl

theorem port_whole (hv : Decimal v) (hm : rest (47::t) = some m) :
    portExpression rest (58::(v ++ 47::t)) = some (some (v ++ 47::t), m) := by
  have hdigits : (v ++ 47::t).takeWhile isDigit = v := by
    rw [List.takeWhile_append_of_pos hv.digits, List.takeWhile_cons_of_neg (by decide),
      List.append_nil]
  rw [portExpression]
  simp only [hdigits, if_neg hv.nonempty, List.drop_left, hm]

theorem atoi_port (hv : Decimal v) (t : Bytes) : atoi (v ++ 47::t) = decimal v := by
  have hdigits : (v ++ 47::t).takeWhile isDigit = v := by
    rw [List.takeWhile_append_of_pos hv.digits, List.takeWhile_cons_of_neg (by decide),
      List.append_nil]
  have hsmall : (decimal v : ℤ) < 2^31 := by exact_mod_cast hv.small
  have hvalue : strtol (v ++ 47::t) = decimal v := by
    rcases List.exists_cons_of_ne_nil hv.nonempty with ⟨b, v', hv'⟩
    have hfront : isDigit b = true := hv.digits b (by rw [hv']; exact List.mem_cons_self)
    have hwhole : v ++ 47::t = b::(v' ++ 47::t) := by rw [hv']; rfl
    rw [hwhole, strtol_front hfront, ← hwhole, hdigits]
    omega
  rw [atoi, hvalue, MachineInt.int32_of_range _ (by omega) hsmall]

/-- What stands between the server and the application. -/
def portText : Option Bytes → Bytes
  | none => []
  | some v => 58::v

theorem server_whole {server : Bytes} {port : Option Bytes} {sApp sMedia : Bytes}
    (hserver : Name [58, 47] server) (hport : ∀ v ∈ port, Decimal v) (happ : Name [47, 64] sApp)
    (hmedia : Name [] sMedia) :
    shortest (portExpression appExpression)
        (server ++ (portText port ++ 47::(sApp ++ 47::sMedia))) =
      some (server, port.map (· ++ 47::(sApp ++ 47::sMedia)), sApp, sMedia) := by
  apply shortest_whole hserver.nonempty hserver.graph
  · intro b hb u
    have hapart := hserver.apart b hb
    simp only [List.mem_cons, List.not_mem_nil, or_false, not_or] at hapart
    rw [port_none hapart.1]
    unfold appExpression
    split
    · next heq => exact absurd (List.cons.inj heq).1 hapart.2
    · rfl
  · cases port with
    | none =>
      show portExpression appExpression (47::(sApp ++ 47::sMedia)) = _
      rw [port_none (by decide), app_whole happ hmedia]
      rfl
    | some v => exact port_whole (hport v rfl) (app_whole happ hmedia)

end

/-! ## The whole URL -/

theorem name_facts (p : Protocol) : p.name ≠ [] ∧ (∀ b ∈ p.name, isWord b = true) ∧
    (0 : UInt8) ∉ p.name ∧ (p.name.length = 4 ↔ p ≠ .rtmpt) := by
  cases p with
  | rtmp => decide +kernel
  | rtmpt => decide +kernel
  | rtsp => decide +kernel
  | http => decide +kernel

theorem cstr_text {s : Bytes} (h : (0 : UInt8) ∉ s) : cstr s = s := by
  rw [cstr, List.takeWhile_eq_self_iff]
  intro b hb
  rw [decide_eq_true_eq]
  rintro rfl
  exact h hb

theorem cstr_append {s : Bytes} (h : (0 : UInt8) ∉ s) (t : Bytes) :
    cstr (s++t) = s ++ cstr t := by
  apply List.takeWhile_append_of_pos
  intro b hb
  rw [decide_eq_true_eq]
  rintro rfl
  exact h hb

theorem address_text (a : Address) :
    a.text = a.server ++ (portText a.port ++ 47::(a.app ++ 47::a.media)) := by
  rw [Address.text, List.append_assoc]
  rfl

theorem address_ended (a : Address) : (0 : UInt8) ∉ a.text := by
  have hport : (0 : UInt8) ∉ portText a.port := by
    cases hp : a.port with
    | none => exact List.not_mem_nil
    | some v =>
      intro hzero
      rcases List.mem_cons.mp hzero with heq | hmem
      · exact absurd heq (by decide)
      · exact absurd ((a.portNumber v hp).digits 0 hmem) (by decide)
  rw [address_text]
  simp only [List.mem_append, List.mem_cons, not_or]
  exact ⟨a.serverName.text, hport, by decide, a.appName.text, by decide, a.mediaName.text⟩

theorem hack_none {m : Bytes} (h : position dummy m = none) : URL_hack m = m := by
  rw [URL_hack, h]

/-- A URL with a protocol is taken apart as it was put together. -/
theorem parse_location (p : Protocol) (a : Address) :
    URL_parse_location (p.name ++ (scheme ++ a.text)) = .ok (a.location p) := by
  rcases name_facts p with ⟨hne, hword, hzero, -⟩
  have hscheme : (0 : UInt8) ∉ scheme := by decide
  have htext : cstr (p.name ++ (scheme ++ a.text)) = p.name ++ (scheme ++ a.text) := by
    rw [cstr_append hzero, cstr_append hscheme, cstr_text (address_ended a)]
  have hprotocol : (p.name ++ (scheme ++ a.text)).takeWhile isWord = p.name := by
    rw [List.takeWhile_append_of_pos hword]
    show p.name ++ (58::_).takeWhile isWord = _
    rw [List.takeWhile_cons_of_neg (by decide), List.append_nil]
  have hlocation : locationExpression (p.name ++ (scheme ++ a.text)) =
      some (p.name, a.server, a.port.map (· ++ 47::(a.app ++ 47::a.media)), a.app, a.media) := by
    have hbehind : (scheme ++ a.text).drop 3 = a.text := rfl
    rw [locationExpression]
    simp only [hprotocol, List.drop_left]
    rw [if_pos ⟨hne, List.prefix_append _ _⟩, hbehind, address_text,
      server_whole a.serverName a.portNumber a.appName a.mediaName]
    rfl
  rw [URL_parse_location, htext, hlocation]
  dsimp only
  rw [hack_none a.honest, Address.location]
  cases hp : a.port with
  | none => rfl
  | some v =>
    have hport := atoi_port (a.portNumber v hp) (a.app ++ 47::a.media)
    rw [Option.map_some]
    dsimp only
    rw [hport]

/-! ## The protocol in front -/

theorem exists_prefixed {sProtocol : Bytes} (hlength : sProtocol.length = 4)
    (hzero : (0 : UInt8) ∉ sProtocol) (s : Bytes) :
    URL_exists (sProtocol ++ (scheme ++ s)) sProtocol = true := by
  have hscheme : (0 : UInt8) ∉ scheme := by decide
  rw [URL_exists, if_neg (not_not.mpr hlength), cstr_append hzero, cstr_append hscheme,
    ← List.append_assoc, decide_eq_true_eq]
  apply List.take_left'
  rw [List.length_append, hlength]
  rfl

theorem canonize_once {sProtocol : Bytes} (hlength : sProtocol.length = 4)
    (hzero : (0 : UInt8) ∉ sProtocol) (sUrl : Bytes) :
    URL_canonize (URL_canonize sUrl sProtocol) sProtocol = URL_canonize sUrl sProtocol := by
  have hexists : URL_exists (URL_canonize sUrl sProtocol) sProtocol = true := by
    rw [URL_canonize]
    by_cases h : URL_exists sUrl sProtocol = true
    · rw [if_pos h]
      exact h
    · rw [if_neg h]
      exact exists_prefixed hlength hzero sUrl
  rw [URL_canonize, if_pos hexists]

/-- A name of another length is put in front each time. -/
theorem canonize_longer {sProtocol : Bytes} (hlength : sProtocol.length ≠ 4) (sUrl : Bytes) :
    URL_canonize sUrl sProtocol = sProtocol ++ (scheme ++ sUrl) := by
  rw [URL_canonize, URL_exists, if_pos hlength, if_neg Bool.false_ne_true]

/-- The bytes that separate nothing in a URL. -/
def plain (b : UInt8) : Bool := b ≠ 58 ∧ b ≠ 47

theorem word_plain {b : UInt8} (h : isWord b = true) : plain b = true := by
  rcases b with ⟨b⟩
  revert b
  decide

/-- The first separator of an address is not followed by two slashes. -/
theorem address_bare (p : Protocol) (a : Address) : URL_exists a.text p.name = false := by
  rw [URL_exists]
  by_cases hlength : p.name.length ≠ 4
  · rw [if_pos hlength]
  · rw [if_neg hlength, cstr_text (address_ended a), decide_eq_false_iff_not]
    intro htake
    have hwhole : a.text = p.name ++ (scheme ++ a.text.drop 7) := by
      rw [← List.append_assoc, ← htake, List.take_append_drop]
    rw [address_text] at hwhole
    have hname : ∀ b ∈ p.name, plain b = true := by
      intro b hb
      exact word_plain ((name_facts p).2.1 b hb)
    have hserver : ∀ b ∈ a.server, plain b = true := by
      intro b hb
      have hapart := a.serverName.apart b hb
      simp only [List.mem_cons, List.not_mem_nil, or_false, not_or] at hapart
      simp [plain, hapart]
    have hsame : a.server = p.name := by
      have hfront := congrArg (List.takeWhile plain) hwhole
      rw [List.takeWhile_append_of_pos hserver, List.takeWhile_append_of_pos hname] at hfront
      cases hp : a.port with
      | none =>
        rw [hp] at hfront
        simpa [portText, scheme, plain] using hfront
      | some v =>
        rw [hp] at hfront
        simpa [portText, scheme, plain] using hfront
    rw [hsame] at hwhole
    have hrest := List.append_cancel_left hwhole
    cases hp : a.port with
    | none =>
      rw [hp] at hrest
      exact absurd (List.cons.inj hrest).1 (by decide)
    | some v =>
      rw [hp] at hrest
      have hdecimal := a.portNumber v hp
      rcases List.exists_cons_of_ne_nil hdecimal.nonempty with ⟨b, v', hv⟩
      have hdigit := hdecimal.digits b (by rw [hv]; exact List.mem_cons_self)
      rw [hv] at hrest
      have hslash : b = 47 := (List.cons.inj (List.cons.inj hrest).2).1
      rw [hslash] at hdigit
      exact absurd hdigit (by decide)

theorem canonize_faithful_iff (p : Protocol) (a : Address) : Faithful p a ↔ p ≠ .rtmpt := by
  rcases name_facts p with ⟨-, -, hzero, hfour⟩
  constructor
  · rintro ⟨-, -, honce⟩
    by_contra hrtmpt
    have hlength : p.name.length ≠ 4 := fun h => hfour.mp h hrtmpt
    have htwice := honce []
    rw [canonize_longer hlength, canonize_longer hlength] at htwice
    have hsizes := congrArg List.length htwice
    simp only [List.length_append] at hsizes
    have hthree : scheme.length = 3 := rfl
    omega
  · intro hrtmpt
    have hlength := hfour.mpr hrtmpt
    refine ⟨?_, ?_, canonize_once hlength hzero⟩
    · rw [URL_canonize, if_pos (exists_prefixed hlength hzero a.text)]
      exact parse_location p a
    · rw [URL_canonize, address_bare, if_neg Bool.false_ne_true]
      exact parse_location p a

/-- `server/app/media`. -/
def shortAddress : Address where
  server := ascii "server"
  port := none
  app := ascii "app"
  media := ascii "media"
  serverName := ⟨by decide +kernel, by decide +kernel, by decide +kernel, by decide +kernel⟩
  portNumber := fun v hv => absurd hv (by simp)
  appName := ⟨by decide +kernel, by decide +kernel, by decide +kernel, by decide +kernel⟩
  mediaName := ⟨by decide +kernel, by decide +kernel, by decide +kernel, by decide +kernel⟩
  honest := by decide +kernel

/-- The protocol is put in front a second time, and taken for the server. -/
theorem rtmpt_twice : ¬Faithful .rtmpt shortAddress ∧
    URL_parse_location (URL_canonize (ascii "rtmpt://server/app/media") (ascii "rtmpt")) =
      .ok ⟨ascii "rtmpt", ascii "rtmpt:", 80, ascii "/server", ascii "app/media"⟩ := by
  have hparse :
      URL_parse_location (URL_canonize (ascii "rtmpt://server/app/media") (ascii "rtmpt")) =
        .ok ⟨ascii "rtmpt", ascii "rtmpt:", 80, ascii "/server", ascii "app/media"⟩ :=
    ok_of_toOption (by decide +kernel)
  refine ⟨?_, hparse⟩
  rintro ⟨hfull, -, -⟩
  have htext : Protocol.rtmpt.name ++ (scheme ++ shortAddress.text) =
      ascii "rtmpt://server/app/media" := by decide +kernel
  have hname : Protocol.rtmpt.name = ascii "rtmpt" := rfl
  rw [htext, hname, hparse] at hfull
  have hserver := congrArg Location.sServer (Except.ok.inj hfull)
  exact absurd hserver (by decide +kernel)

end Sirannon.Url
