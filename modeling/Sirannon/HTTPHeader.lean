import Sirannon.Bits
import Sirannon.MachineInt

/-!
# HTTP headers

The regular expressions of the source are searched for from the left. None of
their classes holds the character that must follow it, so a run of a class is
taken whole and there is nothing to go back to. Strings end at their first zero.
-/

set_option autoImplicit false

namespace Sirannon.HTTP
open Bits MachineInt

abbrev Bytes := List UInt8

/-! ## Characters -/

def isDigit (b : UInt8) : Bool := 48 ≤ b && b ≤ 57

/-- The class `\w`. -/
def isWord (b : UInt8) : Bool :=
  isDigit b || (65 ≤ b && b ≤ 90) || (97 ≤ b && b ≤ 122) || b == 95

/-- The class `[\w\-]`. -/
def isName (b : UInt8) : Bool := isWord b || b == 45

def isSpace (b : UInt8) : Bool := b == 32 || (9 ≤ b && b ≤ 13)

/-- The class `\S`. -/
def isGraph (b : UInt8) : Bool := !isSpace b

def cstr (text : Bytes) : Bytes := text.takeWhile (· ≠ 0)

/-! ## Expressions -/

/-- The leftmost place where an expression matches. -/
def search {α : Type} (expression : Bytes → Option α) : Bytes → Option α
  | [] => expression []
  | b::s =>
    match expression (b::s) with
    | some m => some m
    | none => search expression s

/-- A run of a class that is not empty, and what follows it. -/
def run (p : UInt8 → Bool) (s : Bytes) : Option (Bytes × Bytes) :=
  if s.takeWhile p = [] then none else some (s.takeWhile p, s.dropWhile p)

def expect (word s : Bytes) : Option Bytes :=
  if word <+: s then some (s.drop word.length) else none

def crlf : Bytes := [13, 10]

structure Head where
  sCommand : Bytes
  sUrl : Bytes
  sProtocol : Bytes
  suffix : Bytes
  deriving DecidableEq, Repr

/-- The expression `(\w+) (\S+) (\S+)\r\n`. -/
def headExpression (s : Bytes) : Option Head := do
  let (sCommand, s) ← run isWord s
  let s ← expect [32] s
  let (sUrl, s) ← run isGraph s
  let s ← expect [32] s
  let (sProtocol, s) ← run isGraph s
  let suffix ← expect crlf s
  some ⟨sCommand, sUrl, sProtocol, suffix⟩

structure ReplyHead where
  sProtocol : Bytes
  iStatus : Bytes
  sStatus : Bytes
  suffix : Bytes
  deriving DecidableEq, Repr

/-- The expression `(\S+) (\d+) (\S+)\r\n`. -/
def replyExpression (s : Bytes) : Option ReplyHead := do
  let (sProtocol, s) ← run isGraph s
  let s ← expect [32] s
  let (iStatus, s) ← run isDigit s
  let s ← expect [32] s
  let (sStatus, s) ← run isGraph s
  let suffix ← expect crlf s
  some ⟨sProtocol, iStatus, sStatus, suffix⟩

/-- The shortest text before the end of a line; a dot matches every character. -/
def upToLineEnd : Bytes → Option (Bytes × Bytes)
  | [] => none
  | b::s =>
    match expect crlf (b::s) with
    | some suffix => some ([], suffix)
    | none => (upToLineEnd s).map fun m => (b::m.1, m.2)

structure Pair where
  sKey : Bytes
  sValue : Bytes
  suffix : Bytes
  deriving DecidableEq, Repr

/-- The expression `([\w\-]+): (.*?)\r\n`. -/
def bodyExpression (s : Bytes) : Option Pair := do
  let (sKey, s) ← run isName s
  let s ← expect [58, 32] s
  let (sValue, suffix) ← upToLineEnd s
  some ⟨sKey, sValue, suffix⟩

/-! ## Fields -/

/-- A map from strings to strings, in the order of the keys. -/
abbrev Fields := List (Bytes × Bytes)

def Fields.assign (sKey sValue : Bytes) : Fields → Fields
  | [] => [(sKey, sValue)]
  | field::fields =>
    if sKey = field.1 then (sKey, sValue)::fields
    else if sKey < field.1 then (sKey, sValue)::field::fields
    else field::Fields.assign sKey sValue fields

attribute [grind =] Fields.assign

def Fields.find (fields : Fields) (sKey : Bytes) : Option Bytes :=
  (List.find? (fun field => field.1 = sKey) fields).map Prod.snd

/-- Looking a key up makes an empty field of a missing one. -/
def Fields.touch (fields : Fields) (sKey : Bytes) : Fields :=
  match fields.find sKey with
  | none => fields.assign sKey []
  | some _ => fields

attribute [grind =] Fields.touch

def Fields.value (fields : Fields) (sKey : Bytes) : Bytes := (fields.find sKey).getD []

/-- The loop over the lines of the header; it ends early where no field is found. -/
def parseFields : ℕ → Bytes → Fields → Bool × Fields
  | 0, _, mFields => (true, mFields)
  | fuel+1, sMessage, mFields =>
    if sMessage = [] then (true, mFields)
    else
      match search bodyExpression (cstr sMessage) with
      | none => (false, mFields)
      | some m => parseFields fuel
          (sMessage.drop ((cstr sMessage).length-m.suffix.length)) (mFields.assign m.sKey m.sValue)

/-! ## Numbers -/

def decimal (digits : Bytes) : ℕ := digits.foldl (fun n b => 10*n+(b.toNat-48)) 0

/-- Numbers that do not fit are taken to the nearest that does. -/
def strtol (s : Bytes) : ℤ :=
  match s.dropWhile isSpace with
  | 45::s => max (-2^63) (-(decimal (s.takeWhile isDigit) : ℤ))
  | 43::s => min (2^63-1) (decimal (s.takeWhile isDigit))
  | s => min (2^63-1) (decimal (s.takeWhile isDigit))

def atoi (s : Bytes) : ℤ := int32 (strtol s)

theorem digit_not_space {b : UInt8} (h : isDigit b = true) : ¬isSpace b = true := by
  simp only [isDigit, Bool.and_eq_true, decide_eq_true_eq] at h
  simp only [isSpace, Bool.or_eq_true, Bool.and_eq_true, decide_eq_true_eq, beq_iff_eq]
  have hlow := UInt8.le_iff_toNat_le.mp h.1
  rintro (rfl | ⟨-, hhigh⟩)
  · exact absurd hlow (by decide)
  · have hhigh' := UInt8.le_iff_toNat_le.mp hhigh
    have hchain := hlow.trans hhigh'
    exact absurd hchain (by decide)

/-- A text that begins with a digit. -/
theorem strtol_front {b : UInt8} {s : Bytes} (h : isDigit b = true) :
    strtol (b::s) = min (2^63-1) (decimal ((b::s).takeWhile isDigit) : ℤ) := by
  rw [strtol, List.dropWhile_cons_of_neg (digit_not_space h)]
  split
  case h_1 t heq =>
    rw [(List.cons.inj heq).1] at h
    exact absurd h (by decide)
  case h_2 t heq =>
    rw [(List.cons.inj heq).1] at h
    exact absurd h (by decide)
  case h_3 => rfl

end Sirannon.HTTP
