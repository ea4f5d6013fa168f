import Workflow.Graph.Basic

/-!
# Placement on the canvas

A step without a stored place is put somewhere on the canvas.  A stream of draws
from `[0, 1)` decides where: a coordinate is the draw's share of the extent, to
one decimal place, and a place takes two draws, first for `x` and then for `y`.
-/

namespace Workflow.Editor

/-- The extent of the region in which steps are placed.  It is looked at only when a step
has to be placed. -/
structure Canvas where
  width : Value
  height : Value
  deriving DecidableEq, Repr

namespace Canvas

/-- The extent unless another is given: 400 by 300. -/
def standard : Canvas := ⟨.float ⟨false, 400 * Nat.pow 2 44, -44⟩, .float ⟨false, 300 * Nat.pow 2 44, -44⟩⟩

instance : Inhabited Canvas := ⟨standard⟩

/-- A zero without its sign. -/
def unsignedZero (x : Binary64) : Binary64 := if x.isZero then Binary64.zero false else x

/-- The product of two doubles to one decimal place; none if it is too large. -/
def share? (x y : Binary64) : Option Binary64 := do
  let share ← Binary64.mul? x y
  (unsignedZero share).roundTenth?

/-- The share of an extent that a draw stands for.  The product of two integers is exact. -/
def coordinate (extent : Value) (draw : Number) : Except Fault Number :=
  match extent.quantity?, draw with
  | none, _ => .error .notNumber
  | some (.int n), .int k => .ok (.int (n * k))
  | some a, b =>
    match a.toFloat?.bind fun x => b.toFloat?.bind (share? x) with
    | some x => .ok (.float x)
    | none => .error .integerTooLarge

/-- The place that two draws stand for. -/
def position (canvas : Canvas) (x y : Number) : Except Fault Position := do
  let x ← coordinate canvas.width x
  let y ← coordinate canvas.height y
  pure ⟨x.toValue, y.toValue⟩

end Canvas

end Workflow.Editor
