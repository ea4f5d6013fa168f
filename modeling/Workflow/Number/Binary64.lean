/-!
# Doubles as exact dyadic numbers

A finite double is a sign, a coefficient below `2 ^ 53` and a power of two.  All
arithmetic is exact on naturals followed by one rounding to the nearest double,
ties to the even coefficient, so no law about it rests on machine floats.  The
exponents beyond those of finite doubles are kept for what is not a number; it
compares as neither more nor less than anything, and no arithmetic is done on it.

    roundDiv n d is the integer nearest to n / d, a tie going to the even one
    ofRatio? s n d is the double nearest to ± n / d, or none beyond the largest
-/

namespace Workflow

/-- The number `± coefficient * 2 ^ exponent`.  A zero keeps its sign. -/
structure Binary64 where
  negative : Bool
  coefficient : Nat
  exponent : Int
  deriving DecidableEq, Repr, Inhabited

namespace Binary64

/-! ## Algorithm -/

/-- The integer nearest to `n / d`; of two equally near ones the even. -/
def roundDiv (n d : Nat) : Nat :=
  let q := n / d
  let r := n % d
  if 2 * r < d then q
  else if d < 2 * r then q + 1
  else if q % 2 = 0 then q else q + 1

def zero (negative : Bool) : Binary64 := ⟨negative, 0, -1074⟩

/-- The ratio `n / (d * 2 ^ e)` as a numerator and a denominator. -/
def scale (n d : Nat) (e : Int) : Nat × Nat :=
  if 0 ≤ e then (n, d * Nat.pow 2 e.toNat) else (n * Nat.pow 2 (-e).toNat, d)

/-- The power of two of the last place of `n / d`: the coefficient then has 53
bits, or fewer for a number below the normal range. -/
def lastPlace (n d : Nat) : Int :=
  let e : Int := (n.log2 : Int) - d.log2 - 52
  let (n', d') := scale n d e
  max (if n' / d' < Nat.pow 2 52 then e - 1 else e) (-1074)

/-- The double nearest to `± n / d`; none if it would be beyond the largest. -/
def ofRatio? (negative : Bool) (n d : Nat) : Option Binary64 :=
  if n = 0 then some (zero negative)
  else
    let e := lastPlace n d
    let (n', d') := scale n d e
    let c := roundDiv n' d'
    let (c, e) := if c = Nat.pow 2 53 then (Nat.pow 2 52, e + 1) else (c, e)
    if 971 < e then none else some ⟨negative, c, e⟩

def ofInt? (n : Int) : Option Binary64 := ofRatio? (n < 0) n.natAbs 1

/-- The double nearest to `± digits * 10 ^ place`. -/
def ofDecimal? (negative : Bool) (digits : Nat) (place : Int) : Option Binary64 :=
  let size : Int := (Nat.toDigits 10 digits).length
  if digits = 0 ∨ size + place < -400 then some (zero negative)
  else if 400 < size + place then none
  else if 0 ≤ place then ofRatio? negative (digits * Nat.pow 10 place.toNat) 1
  else ofRatio? negative digits (Nat.pow 10 (-place).toNat)

/-- The magnitude as a numerator and a denominator. -/
def ratio (x : Binary64) : Nat × Nat :=
  if 0 ≤ x.exponent then (x.coefficient * Nat.pow 2 x.exponent.toNat, 1)
  else (x.coefficient, Nat.pow 2 (-x.exponent).toNat)

def isZero (x : Binary64) : Bool := x.coefficient = 0

def isNaN (x : Binary64) : Bool := 971 < x.exponent

def nan : Binary64 := ⟨false, Nat.pow 2 52 + Nat.pow 2 51, 972⟩

/-- Less than zero or equal to it, which what is not a number never is. -/
def atMostZero (x : Binary64) : Bool := !x.isNaN && (x.negative || x.isZero)

/-- The integer part, toward zero. -/
def truncate (x : Binary64) : Int :=
  let (n, d) := x.ratio
  if x.negative then -((n / d : Nat) : Int) else ((n / d : Nat) : Int)

def mul? (x y : Binary64) : Option Binary64 :=
  let (n, d) := x.ratio
  let (n', d') := y.ratio
  ofRatio? (x.negative != y.negative) (n * n') (d * d')

/-- The double nearest to the number rounded to one decimal place. -/
def roundTenth? (x : Binary64) : Option Binary64 :=
  let (n, d) := x.ratio
  ofRatio? x.negative (roundDiv (10 * n) d) 10

/-! ## Lemmas -/

theorem roundDiv_le (n d : Nat) : roundDiv n d ≤ n / d + 1 := by
  simp only [roundDiv]
  split
  · omega
  · split
    · omega
    · split <;> omega

end Binary64

end Workflow
