import Workflow.Assoc
import Workflow.Number.Binary64

/-!
# Document values

The configuration of a step is a document: null, truth values, unbounded
integers, doubles, texts, lists and objects whose members keep their order.  A
graph that is built in memory may hold more than a document does, namely a
mapping under an integer key or a value that has no document form at all.
-/

namespace Workflow

inductive Value where
  | null
  | bool (b : Bool)
  | int (n : Int)
  | float (x : Binary64)
  | text (s : String)
  | list (items : List Value)
  | object (members : List (String × Value))
  /-- a mapping with one entry, under an integer key -/
  | numbered (key : Int) (value : Value)
  /-- a value without a document form; it stands only for values that are equal to their copies,
  on which the results about what is read back rely -/
  | foreign
  deriving Repr, Inhabited

/-- The members of an object. -/
abbrev Config := List (String × Value)

namespace Value

/-! ## Equality -/

mutual

def decEq : (a b : Value) → Decidable (a = b)
  | .null, b => match b with
    | .null => isTrue rfl
    | .bool _ | .int _ | .float _ | .text _ | .list _ | .object _ | .numbered .. | .foreign =>
      isFalse nofun
  | .bool x, b => match b with
    | .bool y => if h : x = y then isTrue (h ▸ rfl) else isFalse (fun e => h (Value.bool.inj e))
    | .null | .int _ | .float _ | .text _ | .list _ | .object _ | .numbered .. | .foreign =>
      isFalse nofun
  | .int x, b => match b with
    | .int y => if h : x = y then isTrue (h ▸ rfl) else isFalse (fun e => h (Value.int.inj e))
    | .null | .bool _ | .float _ | .text _ | .list _ | .object _ | .numbered .. | .foreign =>
      isFalse nofun
  | .float x, b => match b with
    | .float y => if h : x = y then isTrue (h ▸ rfl) else isFalse (fun e => h (Value.float.inj e))
    | .null | .bool _ | .int _ | .text _ | .list _ | .object _ | .numbered .. | .foreign =>
      isFalse nofun
  | .text x, b => match b with
    | .text y => if h : x = y then isTrue (h ▸ rfl) else isFalse (fun e => h (Value.text.inj e))
    | .null | .bool _ | .int _ | .float _ | .list _ | .object _ | .numbered .. | .foreign =>
      isFalse nofun
  | .list xs, b => match b with
    | .list ys => match decEqItems xs ys with
      | isTrue h => isTrue (h ▸ rfl)
      | isFalse h => isFalse (fun e => h (Value.list.inj e))
    | .null | .bool _ | .int _ | .float _ | .text _ | .object _ | .numbered .. | .foreign =>
      isFalse nofun
  | .object xs, b => match b with
    | .object ys => match decEqMembers xs ys with
      | isTrue h => isTrue (h ▸ rfl)
      | isFalse h => isFalse (fun e => h (Value.object.inj e))
    | .null | .bool _ | .int _ | .float _ | .text _ | .list _ | .numbered .. | .foreign =>
      isFalse nofun
  | .numbered k x, b => match b with
    | .numbered l y => match decEq x y with
      | isTrue h =>
        if h' : k = l then isTrue (h ▸ h' ▸ rfl) else isFalse (fun e => h' (Value.numbered.inj e).1)
      | isFalse h => isFalse (fun e => h (Value.numbered.inj e).2)
    | .null | .bool _ | .int _ | .float _ | .text _ | .list _ | .object _ | .foreign =>
      isFalse nofun
  | .foreign, b => match b with
    | .foreign => isTrue rfl
    | .null | .bool _ | .int _ | .float _ | .text _ | .list _ | .object _ | .numbered .. =>
      isFalse nofun

def decEqItems : (xs ys : List Value) → Decidable (xs = ys)
  | [], [] => isTrue rfl
  | [], _ :: _ => isFalse nofun
  | _ :: _, [] => isFalse nofun
  | x :: xs, y :: ys => match decEq x y, decEqItems xs ys with
    | isTrue h, isTrue h' => isTrue (h ▸ h' ▸ rfl)
    | isFalse h, _ => isFalse (fun e => h (List.cons.inj e).1)
    | _, isFalse h => isFalse (fun e => h (List.cons.inj e).2)

def decEqMembers : (xs ys : List (String × Value)) → Decidable (xs = ys)
  | [], [] => isTrue rfl
  | [], _ :: _ => isFalse nofun
  | _ :: _, [] => isFalse nofun
  | (k, x) :: xs, (l, y) :: ys => match decEq x y, decEqMembers xs ys with
    | isTrue h, isTrue h' =>
      if hk : k = l then isTrue (h ▸ h' ▸ hk ▸ rfl)
      else isFalse (fun e => hk (Prod.mk.inj (List.cons.inj e).1).1)
    | isFalse h, _ => isFalse (fun e => h (Prod.mk.inj (List.cons.inj e).1).2)
    | _, isFalse h => isFalse (fun e => h (List.cons.inj e).2)

end

instance : DecidableEq Value := decEq

/-! ## Views -/

/-- A text, or null if there is none. -/
def ofText? : Option String → Value
  | none => null
  | some s => text s

def members? : Value → Option Config
  | object ms => some ms
  | _ => none

/-- The member of an object under a key. -/
def field? (key : String) : Value → Option Value
  | object ms => Assoc.find? key ms
  | _ => none

/-- A member, null if it is missing. -/
def «at» (ms : Config) (key : String) : Value := (Assoc.find? key ms).getD .null

/-- Nothing, zero and what is empty count as absent. -/
def isTruthy : Value → Bool
  | null => false
  | bool b => b
  | int n => n ≠ 0
  | float x => !x.isZero
  | text s => !s.isEmpty
  | list items => !items.isEmpty
  | object ms => !ms.isEmpty
  | numbered .. => true
  | foreign => true

/-- The first value, unless it counts as absent. -/
def orElse (v w : Value) : Value := if v.isTruthy then v else w

mutual

/-- Whether a value has a document form at every depth. -/
def isDocument : Value → Bool
  | null | bool _ | int _ | float _ | text _ => true
  | list items => areDocuments items
  | object ms => membersAreDocuments ms
  | numbered .. => false
  | foreign => false

def areDocuments : List Value → Bool
  | [] => true
  | v :: rest => isDocument v && areDocuments rest

def membersAreDocuments : List (String × Value) → Bool
  | [] => true
  | (_, v) :: rest => isDocument v && membersAreDocuments rest

end

end Value

/-! ## Numbers -/

/-- A number as it is written in a document. -/
inductive Number where
  | int (n : Int)
  | float (x : Binary64)
  deriving DecidableEq, Repr, Inhabited

namespace Number

def toValue : Number → Value
  | int n => .int n
  | float x => .float x

/-- The nearest double; none if the integer is too large. -/
def toFloat? : Number → Option Binary64
  | int n => Binary64.ofInt? n
  | float x => some x

def isNaN : Number → Bool
  | int _ => false
  | float x => x.isNaN

def atMostZero : Number → Bool
  | int n => n ≤ 0
  | float x => x.atMostZero

/-- The exact number, as a numerator and a denominator. -/
def ratio : Number → Int × Nat
  | int n => (n, 1)
  | float x =>
    let (n, d) := x.ratio
    (if x.negative then -(n : Int) else n, d)

/-- Whether two numbers are equal, be they written as an integer or as a double.  What is not
a number is the same as itself alone, as it is for a container that holds it. -/
def same (a b : Number) : Bool :=
  let (m, c) := a.ratio
  let (n, d) := b.ratio
  if a.isNaN || b.isNaN then a = b else m * d = n * c

/-- The integer that is equal to a number, if there is one. -/
def integral? : Number → Option Int
  | int n => some n
  | float x =>
    let (n, d) := (float x).ratio
    if x.isNaN then none else if n % d = 0 then some (n / d) else none

end Number

namespace Value

/-- Truth values are no numbers. -/
def number? : Value → Option Number
  | .int n => some (.int n)
  | .float x => some (.float x)
  | _ => none

/-! ## Equality by number -/

/-- The number one for true, zero for false. -/
def ofBit (b : Bool) : Int := if b then 1 else 0

/-- The number that a value is equal to, if there is one. -/
def quantity? : Value → Option Number
  | .bool b => some (.int (ofBit b))
  | v => v.number?

mutual

/-- Whether two values are equal, numbers and truth values by what they count and objects
regardless of the order of their members. -/
def same : Value → Value → Bool
  | .list vs, .list ws => sameItems vs ws
  | .object ms, .object ns => ms.length = ns.length && sameMembers ms ns
  | v, w =>
    match quantity? v, quantity? w with
    | some a, some b => a.same b
    | _, _ => v = w

def sameItems : List Value → List Value → Bool
  | [], [] => true
  | v :: vs, w :: ws => same v w && sameItems vs ws
  | _, _ => false

/-- Whether the second object has the members of the first. -/
def sameMembers : List (String × Value) → List (String × Value) → Bool
  | [], _ => true
  | (k, v) :: rest, ns =>
    (match Assoc.find? k ns with
      | some w => same v w
      | none => false) && sameMembers rest ns

end

/-- Lists and objects are no keys. -/
def isKey : Value → Bool
  | .list _ | .object _ | .numbered .. => false
  | .null | .bool _ | .int _ | .float _ | .text _ | .foreign => true

/-- The one form of all values that are equal as keys. -/
def key (v : Value) : Value :=
  match (quantity? v).bind Number.integral? with
  | some n => .int n
  | none => v

/-- Sets an entry under a key; of equal keys the first is kept. -/
def setEntry {α : Type} (entries : List (Value × Value × α)) (e : Value × α) :
    List (Value × Value × α) :=
  let shown := ((Assoc.find? e.1.key entries).map Prod.fst).getD e.1
  Assoc.put e.1.key (shown, e.2) entries

/-- The mapping that a sequence of entries leaves: of equal keys the first, with the value
of the last. -/
def merge {α : Type} (entries : List (Value × α)) : List (Value × α) :=
  (entries.foldl setEntry []).map Prod.snd

/-! ## Lemmas -/

@[simp] theorem same_int (m n : Int) : same (.int m) (.int n) = decide (m = n) := by
  simp [same, quantity?, number?, Number.same, Number.ratio, Number.isNaN]

@[simp] theorem same_text (s t : String) : same (.text s) (.text t) = decide (s = t) := by
  simp [same, quantity?, number?]

@[simp] theorem key_text (s : String) : key (.text s) = .text s := rfl

@[simp] theorem key_int (n : Int) : key (.int n) = .int n := rfl

end Value

end Workflow
