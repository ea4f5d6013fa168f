import Workflow.Number.Binary64
import Workflow.Text.Blank
import Workflow.Text.DecimalDigit

/-!
# Reading numerals

Numbers are read from text leniently: white space around them is dropped, the
digits may be of any script, and an underscore may stand between two digits.
-/

namespace Workflow.Numeral

/-! ## Characters -/

/-- White space around a numeral; the separators of fields and records are none. -/
def isPadding (c : Char) : Bool :=
  if c.toNat < 128 then c = ' ' || (9 ≤ c.toNat && c.toNat ≤ 13) else Text.isBlankChar c

def trim (s : String) : List Char :=
  ((s.toList.dropWhile isPadding).reverse.dropWhile isPadding).reverse

/-- The value of a character as a digit of the given base. -/
def digitOf? (base : Nat) (c : Char) : Option Nat :=
  let value :=
    if 'a' ≤ c ∧ c ≤ 'z' then some (c.toNat - 'a'.toNat + 10)
    else if 'A' ≤ c ∧ c ≤ 'Z' then some (c.toNat - 'A'.toNat + 10)
    else Text.digitValue? c
  value.filter (· < base)

/-- The digits of a run in which single underscores may stand between digits. -/
def digits? (base : Nat) : List Char → Option (List Nat)
  | [] => none
  | [c] => (digitOf? base c).map ([·])
  | c :: '_' :: rest => do
    let d ← digitOf? base c
    let ds ← digits? base rest
    pure (d :: ds)
  | c :: rest => do
    let d ← digitOf? base c
    let ds ← digits? base rest
    pure (d :: ds)

def valueOf (base : Nat) (ds : List Nat) : Nat := ds.foldl (fun n d => base * n + d) 0

/-- A leading sign, and the rest. -/
def sign : List Char → Bool × List Char
  | '-' :: rest => (true, rest)
  | '+' :: rest => (false, rest)
  | cs => (false, cs)

/-! ## Integers -/

/-- Drops the mark `0x` of base sixteen, which an underscore may follow.  Its zero may be
of any script. -/
def dropMark (base : Nat) : List Char → List Char
  | zero :: x :: rest =>
    if base = 16 ∧ Text.digitValue? zero = some 0 ∧ (x = 'x' ∨ x = 'X') then
      match rest with
      | '_' :: rest => rest
      | rest => rest
    else zero :: x :: rest
  | cs => cs

def integer? (base : Nat) (s : String) : Option Int := do
  let (negative, cs) := sign (trim s)
  let ds ← digits? base (dropMark base cs)
  let n : Int := valueOf base ds
  pure (if negative then -n else n)

/-- The number of digits up to which a decimal integer is read from a text. -/
def maxDigits : Nat := 4300

/-- The number of leading digits of a text, if there are too many of them. -/
def overlong? (s : String) : Option Nat := do
  let (_, cs) := sign (trim s)
  let ds ← digits? 10 (cs.takeWhile fun c => Text.isDecimal c || c = '_')
  if maxDigits < ds.length then some ds.length else none

/-! ## Decimal fractions -/

def isExponentMark (c : Char) : Bool := c = 'e' || c = 'E'

/-- A run of digits that may be empty. -/
def run? (cs : List Char) : Option (List Nat) := if cs.isEmpty then some [] else digits? 10 cs

def exponent? : List Char → Option Int
  | [] => some 0
  | _ :: cs => do
    let (negative, cs) := sign cs
    let ds ← digits? 10 cs
    let n : Int := valueOf 10 ds
    pure (if negative then -n else n)

/-- The double nearest to a decimal numeral, which may have a fraction and an exponent. -/
def real? (s : String) : Option Binary64 := do
  let (negative, cs) := sign (trim s)
  let body := cs.takeWhile (!isExponentMark ·)
  let e ← exponent? (cs.dropWhile (!isExponentMark ·))
  let whole ← run? (body.takeWhile (· ≠ '.'))
  let fraction ← run? ((body.dropWhile (· ≠ '.')).drop 1)
  if whole.isEmpty && fraction.isEmpty then none
  Binary64.ofDecimal? negative (valueOf 10 (whole ++ fraction)) (e - fraction.length)

/-- Whether a text writes a double, be it infinite or no number. -/
def isReal (s : String) : Bool :=
  let (_, cs) := sign (trim s)
  (real? s).isSome || ["inf", "infinity", "nan"].contains ((String.ofList cs).map Char.toLower)

end Workflow.Numeral
