import Workflow.Number.Numeral
import Workflow.Value.Basic

/-!
# Reading JSON text

A number with a fraction or an exponent is a double and any other an integer, of
at most 4300 digits.  Of two members of one name the later one counts.  A lone
surrogate, a control character within a text and anything after the value are
refused.  The word `NaN` is no JSON, but some readers take it for a double that is
not a number.
-/

namespace Workflow.Value.Parser

/-! ## Characters and texts -/

def isSpace (c : Char) : Bool := c = ' ' || c = '\n' || c = '\r' || c = '\t'

def skip (cs : List Char) : List Char := cs.dropWhile isSpace

def hexDigit? (c : Char) : Option Nat :=
  if '0' ≤ c ∧ c ≤ '9' then some (c.toNat - 48)
  else if 'a' ≤ c ∧ c ≤ 'f' then some (c.toNat - 87)
  else if 'A' ≤ c ∧ c ≤ 'F' then some (c.toNat - 55)
  else none

/-- The number that four hexadecimal digits write. -/
def unit? (a b c d : Char) : Option Nat := do
  let a ← hexDigit? a
  let b ← hexDigit? b
  let c ← hexDigit? c
  let d ← hexDigit? d
  pure (((a * 16 + b) * 16 + c) * 16 + d)

def simpleEscape? : Char → Option Char
  | '"' => some '"'
  | '\\' => some '\\'
  | '/' => some '/'
  | 'b' => some (Char.ofNat 8)
  | 'f' => some (Char.ofNat 12)
  | 'n' => some '\n'
  | 'r' => some '\r'
  | 't' => some '\t'
  | _ => none

/-- The rest of a text after its opening quote, and what follows the closing one. -/
def textFrom (read : List Char) : List Char → Option (String × List Char)
  | [] => none
  | '"' :: rest => some (String.ofList read.reverse, rest)
  | '\\' :: 'u' :: a :: b :: c :: d :: rest =>
    match unit? a b c d with
    | none => none
    | some n =>
      if 0xD800 ≤ n ∧ n < 0xDC00 then
        match rest with
        | '\\' :: 'u' :: e :: f :: g :: h :: rest' =>
          match unit? e f g h with
          | none => none
          | some m =>
            if 0xDC00 ≤ m ∧ m < 0xE000 then
              textFrom (Char.ofNat (0x10000 + (n - 0xD800) * 0x400 + (m - 0xDC00)) :: read) rest'
            else none
        | _ => none
      else if 0xDC00 ≤ n ∧ n < 0xE000 then none
      else textFrom (Char.ofNat n :: read) rest
  | '\\' :: c :: rest =>
    match simpleEscape? c with
    | none => none
    | some c' => textFrom (c' :: read) rest
  | c :: rest => if c.toNat < 0x20 then none else textFrom (c :: read) rest

/-! ## Numbers -/

def digits (cs : List Char) : List Char × List Char :=
  (cs.takeWhile Char.isDigit, cs.dropWhile Char.isDigit)

/-- A fraction, if there is one: its digits and the rest. -/
def fraction? : List Char → Option (List Char × List Char)
  | '.' :: rest => if (digits rest).1.isEmpty then none else some (digits rest)
  | cs => some ([], cs)

def exponentDigits? (negative : Bool) (cs : List Char) : Option (Option Int × List Char) :=
  let (ds, rest) := digits cs
  if ds.isEmpty then none
  else
    let n : Int := Nat.ofDigitChars 10 ds 0
    some (some (if negative then -n else n), rest)

/-- An exponent, if there is one, and the rest. -/
def exponent? : List Char → Option (Option Int × List Char)
  | c :: rest =>
    if c = 'e' ∨ c = 'E' then
      match rest with
      | '-' :: rest => exponentDigits? true rest
      | '+' :: rest => exponentDigits? false rest
      | rest => exponentDigits? false rest
    else some (none, c :: rest)
  | [] => some (none, [])

def number? (cs : List Char) : Option (Value × List Char) := do
  let negative := cs.head? == some '-'
  let (whole, rest) := digits (if negative then cs.drop 1 else cs)
  if whole.isEmpty || (whole.head? == some '0' && whole.length > 1) then none
  let (fraction, rest) ← fraction? rest
  let (exponent, rest) ← exponent? rest
  let n := Nat.ofDigitChars 10 (whole ++ fraction) 0
  if fraction.isEmpty && exponent.isNone then
    if Numeral.maxDigits < whole.length then none
    pure (.int (if negative then -(n : Int) else n), rest)
  else
    let x ← Binary64.ofDecimal? negative n (exponent.getD 0 - fraction.length)
    pure (.float x, rest)

/-! ## Values -/

def literal? (name : String) (v : Value) (cs : List Char) : Option (Value × List Char) :=
  if name.toList.isPrefixOf cs then some (v, cs.drop name.length) else none

/-- How deep lists and objects may be nested. -/
def maxDepth : Nat := 960

mutual

/-- A value, and the rest; `room` is the depth to which it may be nested, and `loose` is
whether `NaN` is read. -/
def value? (loose : Bool) : Nat → Nat → List Char → Option (Value × List Char)
  | 0, _, _ => none
  | fuel + 1, room, cs =>
    match skip cs with
    | [] => none
    | '"' :: rest => (textFrom [] rest).map fun (s, rest) => (.text s, rest)
    | '[' :: rest =>
      if room = 0 then none
      else match skip rest with
        | ']' :: rest => some (.list [], rest)
        | rest => (items? loose fuel (room - 1) rest).map fun (vs, rest) => (.list vs, rest)
    | '\x7b' :: rest =>
      if room = 0 then none
      else match skip rest with
        | '\x7d' :: rest => some (.object [], rest)
        | rest =>
          (members? loose fuel (room - 1) rest).map fun (ms, rest) => (.object (Assoc.ofList ms), rest)
    | 'n' :: rest => literal? "null" .null ('n' :: rest)
    | 't' :: rest => literal? "true" (.bool true) ('t' :: rest)
    | 'f' :: rest => literal? "false" (.bool false) ('f' :: rest)
    | 'N' :: rest => if loose then literal? "NaN" (.float .nan) ('N' :: rest) else none
    | cs => number? cs

def items? (loose : Bool) : Nat → Nat → List Char → Option (List Value × List Char)
  | 0, _, _ => none
  | fuel + 1, room, cs =>
    match value? loose fuel room cs with
    | none => none
    | some (v, rest) =>
      match skip rest with
      | ',' :: rest => (items? loose fuel room rest).map fun (vs, rest) => (v :: vs, rest)
      | ']' :: rest => some ([v], rest)
      | _ => none

def members? (loose : Bool) : Nat → Nat → List Char → Option (List (String × Value) × List Char)
  | 0, _, _ => none
  | fuel + 1, room, cs =>
    match skip cs with
    | '"' :: rest =>
      match textFrom [] rest with
      | none => none
      | some (key, rest) =>
        match skip rest with
        | ':' :: rest =>
          match value? loose fuel room rest with
          | none => none
          | some (v, rest) =>
            match skip rest with
            | ',' :: rest =>
              (members? loose fuel room rest).map fun (ms, rest) => ((key, v) :: ms, rest)
            | '\x7d' :: rest => some ([(key, v)], rest)
            | _ => none
        | _ => none
    | _ => none

end

end Parser

/-- The value that a text writes; none if anything stands after it. -/
def read? (loose : Bool) (s : String) : Option Value :=
  match Parser.value? loose (2 * s.length + 2) Parser.maxDepth s.toList with
  | some (v, rest) => if (Parser.skip rest).isEmpty then some v else none
  | none => none

/-- The value that a JSON text writes. -/
def parse? (s : String) : Option Value := read? false s

end Workflow.Value
