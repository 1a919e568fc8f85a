import Sirannon.HTTPConnection

/-!
# URLs

What a client asks for is an application, an option and a media part. The
expression of the source takes the shortest application, and for it the
shortest option, for which what follows matches too.
-/

set_option autoImplicit false

namespace Sirannon.Url
open Bits HTTP

/-! ## Searching -/

/-- `string::find`. -/
def position (word : Bytes) : Bytes → Option ℕ
  | [] => if word = [] then some 0 else none
  | b::s => if word <+: b::s then some 0 else (position word s).map (·+1)

/-- `"/"` and `"://"`. -/
def slash : Bytes := [47]
def scheme : Bytes := [58, 47, 47]

/-- `"/DUMMY"`. -/
def dummy : Bytes := [47, 68, 85, 77, 77, 89]

def URL_hack (sMedia : Bytes) : Bytes :=
  match position dummy sMedia with
  | some iHack => sMedia.take iHack
  | none => sMedia

/-- Where the path of a URL starts. -/
def URL_reduce (sUrl : Bytes) : ℕ :=
  if sUrl.head? = some 47 then 0
  else
    match position scheme sUrl with
    | some iPos1 =>
      match position slash (sUrl.drop (iPos1+3)) with
      | some iPos2 => iPos1+3+iPos2
      | none => 0
    | none => (position slash sUrl).getD 0

/-! ## Options -/

/-- The types of container that an option can ask for. -/
inductive MuxType
  | NO
  | TS
  | M3U
  | FLV
  | WEBM
  deriving DecidableEq, Repr

inductive TargetType
  | NO
  | IPAD1
  | IPHONE4
  | YOUTUBE
  deriving DecidableEq, Repr

def lower (b : UInt8) : UInt8 := if 65 ≤ b ∧ b ≤ 90 then b+32 else b

/-- `strncasecmp` over the length of the option: the beginning of a word is enough. -/
def abbreviates (sOpt word : Bytes) : Bool := sOpt.map lower <+: word.map lower

def text (s : Bytes) : String := String.ofList (s.map fun b => Char.ofNat b.toNat)

/-- The option as the error shows it runs on to the end of the URL. -/
def URL_option (sOpt sRest : Bytes) :
    Except SirannonException (MuxType × TargetType) :=
  if abbreviates sOpt [84, 83] then .ok (.TS, .NO)
  else if abbreviates sOpt [77, 51, 85] then .ok (.M3U, .NO)
  else if abbreviates sOpt [70, 76, 86] then .ok (.FLV, .NO)
  else if abbreviates sOpt [87, 69, 66, 77] then .ok (.WEBM, .NO)
  else if abbreviates sOpt [73, 80, 65, 68] then .ok (.TS, .IPAD1)
  else if abbreviates sOpt [73, 80, 72, 79, 78, 69] then .ok (.TS, .IPHONE4)
  else if abbreviates sOpt [89, 79, 85, 84, 85, 66, 69] then .ok (.WEBM, .YOUTUBE)
  else .error (valueError s!"Unsupported option({text (sOpt++sRest)})")

/-! ## The expression -/

/-- The expression `\S+?` before an expression that takes all that is left. -/
def shortest {α : Type} (rest : Bytes → Option α) : Bytes → Option (Bytes × α)
  | [] => none
  | b::s =>
    if isGraph b then
      match rest s with
      | some m => some ([b], m)
      | none => (shortest rest s).map fun m => (b::m.1, m.2)
    else none

/-- The expression `/(\S+)`. -/
def mediaExpression : Bytes → Option Bytes
  | 47::s => if s ≠ [] ∧ s.all isGraph then some s else none
  | _ => none

/-- The expression `(?:@(\S+?))?/(\S+)`. -/
def optionExpression : Bytes → Option (Option Bytes × Bytes)
  | 64::s => (shortest mediaExpression s).map fun m => (some m.1, m.2)
  | s => (mediaExpression s).map fun m => (none, m)

/-- The expression `/(\S+?)(?:@(\S+?))?/(\S+)`. -/
def urlExpression : Bytes → Option (Bytes × Option Bytes × Bytes)
  | 47::s => shortest optionExpression s
  | _ => none

structure Parsed where
  sApp : Bytes
  oFormat : MuxType
  iTarget : TargetType
  sMedia : Bytes
  deriving DecidableEq, Repr

/-- The format and the target are those of before where the URL has no option. -/
def URL_parse (sUrl : Bytes) (oFormat : MuxType) (iTarget : TargetType) :
    Except SirannonException Parsed :=
  match urlExpression (cstr (sUrl.drop (URL_reduce sUrl))) with
  | none => .error (syntaxError s!"Invalid URL: {text (cstr sUrl)}")
  | some (sApp, none, sMedia) => .ok ⟨sApp, oFormat, iTarget, URL_hack sMedia⟩
  | some (sApp, some sOpt, sMedia) =>
    match URL_option sOpt (47::sMedia) with
    | .error e => .error e
    | .ok (oFormat, iTarget) => .ok ⟨sApp, oFormat, iTarget, URL_hack sMedia⟩

/-! ## Formats -/

/-- The format and the target a URL is parsed with are of no account for its media part. -/
theorem parse_formats {sUrl : Bytes} {oFormat : MuxType} {iTarget : TargetType} {u : Parsed}
    (h : URL_parse sUrl oFormat iTarget = .ok u) (oOther : MuxType) (iOther : TargetType) :
    ∃ v, URL_parse sUrl oOther iOther = .ok v ∧ v.sMedia = u.sMedia := by
  unfold URL_parse at h ⊢
  split at h
  · cases h
  · cases h
    exact ⟨_, rfl, rfl⟩
  · cases hoption : URL_option _ _ with
    | error e =>
      rw [hoption] at h
      cases h
    | ok m =>
      rw [hoption] at h
      cases h
      exact ⟨_, rfl, rfl⟩

theorem ok_of_toOption {α : Type} {x : Except SirannonException α} {a : α}
    (h : x.toOption = some a) : x = .ok a := by
  cases x with
  | error e => cases h
  | ok b => rw [Option.some.inj h]

end Sirannon.Url
