import Workflow.Number.Numeral
import Workflow.Number.Shortest
import Workflow.Text.Quoted
import Workflow.Value.Basic

/-!
# Values in messages

A message shows a value as a literal: `None`, `True`, `1.0`, a quoted text,
`[1, 'a']` or `{'a': None}`.  A text that is shown bare has no quotes.  An integer
of more digits than are read is not written either, and what holds one is not.
-/

namespace Workflow.Value

/-! ## Algorithm -/

def intText (n : Int) : String :=
  if n < 0 then "-" ++ Nat.repr n.natAbs else Nat.repr n.natAbs

def commaSeparated (parts : List String) : String := String.intercalate ", " parts

mutual

def literal : Value → String
  | null => "None"
  | bool true => "True"
  | bool false => "False"
  | int n => intText n
  | float x => x.text
  | text s => Text.quote s
  | list items => "[" ++ commaSeparated (itemLiterals items) ++ "]"
  | object ms => "\x7b" ++ commaSeparated (memberLiterals ms) ++ "\x7d"
  | numbered key v => "\x7b" ++ intText key ++ ": " ++ literal v ++ "\x7d"
  | foreign => "<object>"

def itemLiterals : List Value → List String
  | [] => []
  | v :: rest => literal v :: itemLiterals rest

def memberLiterals : List (String × Value) → List String
  | [] => []
  | (k, v) :: rest => (Text.quote k ++ ": " ++ literal v) :: memberLiterals rest

end

/-- A value as it stands in running text: a text without quotes, all else as a literal. -/
def bare : Value → String
  | text s => s
  | v => literal v

/-- An integer that has no more digits than are read. -/
def isWritableInt (n : Int) : Bool := n.natAbs < Nat.pow 10 Numeral.maxDigits

mutual

/-- Whether a value can be written, at every depth. -/
def isWritable : Value → Bool
  | int n => isWritableInt n
  | null | bool _ | float _ | text _ | foreign => true
  | list items => allWritable items
  | object ms => membersWritable ms
  | numbered key v => isWritableInt key && isWritable v

def allWritable : List Value → Bool
  | [] => true
  | v :: rest => isWritable v && allWritable rest

def membersWritable : List (String × Value) → Bool
  | [] => true
  | (_, v) :: rest => isWritable v && membersWritable rest

end

/-- The name of a value's kind. -/
def kindName : Value → String
  | null => "NoneType"
  | bool _ => "bool"
  | int _ => "int"
  | float _ => "float"
  | text _ => "str"
  | list _ => "list"
  | object _ => "dict"
  | numbered .. => "dict"
  | foreign => "object"

end Workflow.Value
