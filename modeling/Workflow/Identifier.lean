import Workflow.Number.Numeral
import Workflow.Text.Quoted

/-!
# Identifiers

Definitions, runs and templates carry 128-bit identifiers.  They are written as
32 lower-case hexadecimal digits in five groups, and read with the marks `urn:`
and `uuid:`, surrounding braces and all hyphens left aside.
-/

namespace Workflow

/-- What is said of a text that is no integer: at most 200 characters of it are shown. -/
def Numeral.unreadable (base : Nat) (s : String) : String :=
  "invalid literal for int() with base " ++ Nat.repr base ++ ": " ++ Text.quoteStart 200 s

structure Uuid where
  value : Nat
  inRange : value < Nat.pow 2 128
  deriving DecidableEq, Repr

/-- Why a text is no identifier. -/
inductive UuidFault where
  | malformed
  | notHexadecimal (digits : String)
  | outOfRange
  deriving DecidableEq, Repr

namespace Uuid

/-! ## Text -/

/-- The identifier with the given low 128 bits. -/
def ofNat (n : Nat) : Uuid := ⟨n % Nat.pow 2 128, Nat.mod_lt _ (Nat.two_pow_pos 128)⟩

instance : Inhabited Uuid := ⟨ofNat 0⟩

/-- Groups of hexadecimal digits joined by hyphens. -/
def grouped : List Nat → List Char → List (List Char)
  | [], _ => []
  | n :: sizes, cs => cs.take n :: grouped sizes (cs.drop n)

def text (u : Uuid) : String :=
  String.ofList (List.intercalate ['-'] (grouped [8, 4, 4, 4, 12] (Text.hex 32 u.value)))

/-- How an identifier is shown as a key. -/
def literal (u : Uuid) : String := "UUID('" ++ u.text ++ "')"

/-- Removes every occurrence of a mark, from the left; `skip` characters belong to
the occurrence being removed. -/
def removeMark (mark : List Char) : Nat → List Char → List Char
  | _, [] => []
  | skip + 1, _ :: rest => removeMark mark skip rest
  | 0, c :: rest =>
    if mark.isPrefixOf (c :: rest) then removeMark mark (mark.length - 1) rest
    else c :: removeMark mark 0 rest

def isBrace (c : Char) : Bool := c = '\x7b' || c = '\x7d'

/-- The digits of an identifier without marks, braces and hyphens. -/
def bareDigits (s : String) : List Char :=
  let cs := removeMark "uuid:".toList 0 (removeMark "urn:".toList 0 s.toList)
  let cs := ((cs.dropWhile isBrace).reverse.dropWhile isBrace).reverse
  cs.filter (· ≠ '-')

def ofText (s : String) : Except UuidFault Uuid :=
  let digits := bareDigits s
  if digits.length ≠ 32 then .error .malformed
  else
    match Numeral.integer? 16 (String.ofList digits) with
    | none => .error (.notHexadecimal (String.ofList digits))
    | some (.negSucc _) => .error .outOfRange
    | some (.ofNat n) => if h : n < Nat.pow 2 128 then .ok ⟨n, h⟩ else .error .outOfRange

end Uuid

namespace UuidFault

def message : UuidFault → String
  | malformed => "badly formed hexadecimal UUID string"
  | notHexadecimal digits => Numeral.unreadable 16 digits
  | outOfRange => "int is out of range (need a 128-bit value)"

end UuidFault

end Workflow
