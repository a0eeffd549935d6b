import LiveScope.Fault
import LiveScope.Number

/-!
# Values

A value is a scalar, a reference to an object of the data model, or a function. Objects and
functions are compared by identity: an object is its place in the model, a function its name.
-/

namespace LiveScope

/-- The place of an object in the data model. -/
abbrev ObjectId := Nat

/-- A value that flows through bindings and expressions. -/
inductive Value where
  /-- A missing or deleted value. -/
  | null
  /-- A truth value. -/
  | bool (value : Bool)
  /-- A number. -/
  | number (value : Float)
  /-- A text. -/
  | text (value : String)
  /-- A map or list of the data model. -/
  | object (id : ObjectId)
  /-- A callable value, known by its name. -/
  | function (name : String)
deriving Repr

namespace Value

instance : Inhabited Value := ⟨null⟩

/-- The object, if this is one. -/
def object? : Value → Option ObjectId
  | object id => some id
  | _ => none

/-- The object of a value that is one. -/
theorem object?_eq_some_iff {v : Value} {id : ObjectId} : v.object? = some id ↔ v = object id := by
  constructor
  · intro h
    cases v with
    | object id' => exact congrArg object (Option.some.inj h)
    | null | bool | number | text | function => cases h
  · rintro rfl
    rfl

/-- The text, if this is one. -/
def text? : Value → Option String
  | text s => some s
  | _ => none

/-- The number, if this is one. -/
def number? : Value → Option Float
  | number x => some x
  | _ => none

/-- Whether this is null. -/
def isNull : Value → Bool
  | null => true
  | _ => false

/-- Null, false, zero, NaN and the empty text count as false, all else as true. -/
def truthy : Value → Bool
  | null => false
  | bool b => b
  | number x => x != 0 && !x.isNaN
  | text s => !s.isEmpty
  | object _ | function _ => true

/-- The number that arithmetic sees. -/
def toNumber : Value → Float
  | null => 0
  | bool b => if b then 1 else 0
  | number x => x
  | text s => Number.ofText s
  | object _ | function _ => 0.0 / 0.0

/-- Equality of values of one type: numbers as numbers, objects and functions by identity. -/
def same : Value → Value → Bool
  | null, null => true
  | bool a, bool b => a == b
  | number x, number y => x == y
  | text s, text t => s == t
  | object a, object b => a == b
  | function f, function g => f == g
  | _, _ => false

/-- The equality of the operators `==` and `!=`: numbers are compared with texts and truth values
as numbers, all else like `same`. -/
def looseEq (a b : Value) : Bool :=
  match a, b with
  | number _, text _ | number _, bool _ | text _, number _ | bool _, number _ =>
    a.toNumber == b.toNumber
  | _, _ => a.same b

end Value

end LiveScope
