import Workflow.Text.Printable

/-!
# Quoted text

A text is quoted with single quotes, or with double ones if it holds a single
quote and no double one.  The quote in use and the backslash take a backslash;
a character without a glyph is written by its code point.
-/

namespace Workflow.Text

/-! ## Algorithm -/

/-- At least `width` lower-case hexadecimal digits. -/
def hex (width n : Nat) : List Char :=
  let digits := Nat.toDigits 16 n
  List.replicate (width - digits.length) '0' ++ digits

def escape (mark c : Char) : List Char :=
  if c = mark ∨ c = '\\' then ['\\', c]
  else if c = '\n' then ['\\', 'n']
  else if c = '\r' then ['\\', 'r']
  else if c = '\t' then ['\\', 't']
  else if isPrintable c then [c]
  else if c.toNat < 0x100 then '\\' :: 'x' :: hex 2 c.toNat
  else if c.toNat < 0x10000 then '\\' :: 'u' :: hex 4 c.toNat
  else '\\' :: 'U' :: hex 8 c.toNat

def quoteMark (s : String) : Char :=
  if s.toList.contains '\'' && !s.toList.contains '"' then '"' else '\''

def quote (s : String) : String :=
  let mark := quoteMark s
  String.ofList (mark :: s.toList.flatMap (escape mark) ++ [mark])

/-- The first characters of a quoted text. -/
def quoteStart (length : Nat) (s : String) : String := String.ofList ((quote s).toList.take length)

end Workflow.Text
