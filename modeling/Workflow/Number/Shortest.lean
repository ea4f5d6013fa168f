import Workflow.Number.Binary64

/-!
# The shortest decimal text of a double

The digits written for a double are the fewest that read back as it; of two such
numerals of equal length the nearer one is written.  For 1, 2, … 17 digits the
two neighbours of the value on that decimal grid are tried, and the first grid
with a hit wins.

    x.shortest = some (c, p) → ofDecimal? x.negative c p = some x
-/

namespace Workflow.Binary64

/-! ## Algorithm -/

/-- The least `p ≥ start` with `n / d < 10 ^ p`, looked for in `fuel` steps. -/
def magnitudeFrom (n d : Nat) (start : Int) : Nat → Int
  | 0 => start
  | fuel + 1 =>
    let below := if 0 ≤ start then n < d * Nat.pow 10 start.toNat else n * Nat.pow 10 (-start).toNat < d
    if below then start else magnitudeFrom n d (start + 1) fuel

/-- The power of ten just above a positive double: `10 ^ (p - 1) ≤ x < 10 ^ p`. -/
def magnitude (x : Binary64) : Int :=
  let (n, d) := x.ratio
  -- the power of ten is estimated from below by log₁₀ 2 > 301 / 1000
  let e : Int := (n.log2 : Int) - d.log2 - 1
  magnitudeFrom n d (Int.fdiv (e * (if 0 ≤ e then 301 else 302)) 1000) 10

/-- The two neighbours of the value among the multiples of `10 ^ place`, the nearer first. -/
def neighbours (x : Binary64) (place : Int) : List Nat :=
  let (n, d) := x.ratio
  let (n, d) := if 0 ≤ place then (n, d * Nat.pow 10 place.toNat) else (n * Nat.pow 10 (-place).toNat, d)
  let low := n / d
  if roundDiv n d = low then [low, low + 1] else [low + 1, low]

/-- The numeral on the grid of `10 ^ place` that reads back, if there is one. -/
def onGrid? (x : Binary64) (place : Int) : Option (Nat × Int) :=
  ((neighbours x place).find? fun c => ofDecimal? x.negative c place = some x).map (·, place)

/-- The shortest numeral that reads back: its digits and the place of the last one. -/
def shortest (x : Binary64) : Option (Nat × Int) :=
  let p := x.magnitude
  (List.range 17).findSome? fun (n : Nat) => onGrid? x (p - (n + 1))

/-! ## Text -/

/-- How a decimal numeral is laid out. -/
structure Layout where
  /-- decimal points after fewer digits than this are written in place -/
  pointBelow : Int
  /-- numerals with more leading zeros than this take an exponent -/
  zerosBelow : Int
  /-- digits that an exponent has at least -/
  exponentDigits : Nat
  /-- digits that a fraction before an exponent has at least -/
  fractionDigits : Nat

/-- Numerals are positional from `0.0001` up to `10 ^ 16`, and an exponent has a sign
and two digits. -/
def standard : Layout := ⟨16, 4, 2, 0⟩

def zeros (n : Nat) : String := String.ofList (List.replicate n '0')

/-- The text of `0.d₁d₂… * 10 ^ point`, given the digits `d₁d₂…`. -/
def layOut (layout : Layout) (digits : List Char) (point : Int) : String :=
  if point ≤ -layout.zerosBelow ∨ layout.pointBelow < point then
    let written := String.ofList (digits.drop 1)
    let fraction := written ++ zeros (layout.fractionDigits - written.length)
    let mark := if fraction.isEmpty then "" else "." ++ fraction
    let e := point - 1
    let e' := Nat.repr e.natAbs
    String.ofList (digits.take 1) ++ mark ++ "e" ++ (if e < 0 then "-" else "+")
      ++ zeros (layout.exponentDigits - e'.length) ++ e'
  else if point ≤ 0 then "0." ++ zeros (-point).toNat ++ String.ofList digits
  else
    let whole := digits.take point.toNat
    let fraction := digits.drop point.toNat
    String.ofList whole ++ zeros (point.toNat - whole.length) ++ "."
      ++ (if fraction.isEmpty then "0" else String.ofList fraction)

def dropZeros (digits : List Char) : List Char :=
  (digits.reverse.dropWhile (· = '0')).reverse

def text (x : Binary64) : String :=
  let sign := if x.negative then "-" else ""
  if x.isNaN then "nan"
  else
    match if x.isZero then none else x.shortest with
    | none => sign ++ "0.0"
    | some (c, place) =>
      let digits := Nat.toDigits 10 c
      sign ++ layOut standard (dropZeros digits) (place + digits.length)

end Workflow.Binary64
