import Workflow.Number.Numeral
import Workflow.Value.Literal

/-!
# JSON text of a value

Members stand in their order, an integer is written in full, a double always has
a point or an exponent, and only quotes, backslashes and control characters are
escaped.  What has no document form is written as null.
-/

namespace Workflow.Value

/-! ## Algorithm -/

def jsonEscape (c : Char) : List Char :=
  if c = '"' ∨ c = '\\' then ['\\', c]
  else if c.toNat < 0x20 then '\\' :: 'u' :: Text.hex 4 c.toNat
  else [c]

def jsonText (s : String) : String :=
  String.ofList ('"' :: s.toList.flatMap jsonEscape ++ ['"'])

mutual

def json : Value → String
  | null => "null"
  | bool true => "true"
  | bool false => "false"
  | int n => intText n
  | float x => if x.isNaN then "NaN" else x.text
  | text s => jsonText s
  | list items => "[" ++ commaSeparated (itemsJson items) ++ "]"
  | object ms => "\x7b" ++ commaSeparated (membersJson ms) ++ "\x7d"
  | numbered key v => "\x7b" ++ jsonText (intText key) ++ ": " ++ json v ++ "\x7d"
  | foreign => "null"

def itemsJson : List Value → List String
  | [] => []
  | v :: rest => json v :: itemsJson rest

def membersJson : List (String × Value) → List String
  | [] => []
  | (k, v) :: rest => (jsonText k ++ ": " ++ json v) :: membersJson rest

end

end Workflow.Value
