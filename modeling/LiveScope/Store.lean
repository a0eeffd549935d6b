import LiveScope.Dict
import LiveScope.Value

/-!
# Stores

What an object of the data model holds: a map from keys to values, or a list. Both are read and
written by textual keys. The keys of a list are the numerals of its indices, in any spelling in
plain digits, and `length`; reading a missing key gives null, and writing past the end fills the gap
with nulls.
-/

namespace LiveScope

/-- The content of an object. -/
inductive Store where
  /-- A map from texts. -/
  | map (entries : Dict Value)
  /-- A list. -/
  | list (items : List Value)

namespace Store

instance : Inhabited Store := ⟨map Dict.empty⟩

/-- The key under which a list shows its length. -/
def lengthKey : String := "length"

/-- The index that a key denotes: a nonempty run of decimal digits, of a number below `2 ^ 64`. -/
def index? (key : String) : Option Nat :=
  let cs := key.toList
  if cs.isEmpty || cs.any (fun c => (Decimal.digit? c).isNone) then none
  else
    let n := Decimal.natural 0 cs
    if n < Nat.pow 2 64 then some n else none

/-- The key of an index. -/
def indexKey (index : Nat) : String := index.repr

/-- Whether this is a list. -/
def isList : Store → Bool
  | list _ => true
  | map _ => false

/-- The kind of an object with this content. -/
def kind (s : Store) : Kind := if s.isList then .list else .map

/-- The number of entries or elements. -/
def size : Store → Nat
  | map entries => entries.size
  | list items => items.length

/-- The value at a key, null if there is none. -/
def get (s : Store) (key : String) : Value :=
  match s with
  | map entries => (entries.find? key).getD .null
  | list items =>
    if key = lengthKey then .number (Number.ofNat items.length)
    else ((index? key).bind (items[·]?)).getD .null

/-- Whether there is something at a key. -/
def contains (s : Store) (key : String) : Bool :=
  match s with
  | map entries => entries.contains key
  | list items => key == lengthKey || (index? key).any (· < items.length)

/-- The keys, ascending in a map and by index in a list. -/
def keys : Store → List String
  | map entries => entries.keys
  | list items => (List.range items.length).map indexKey

/-- The values in the order of their keys. -/
def values : Store → List Value
  | map entries => entries.values
  | list items => items

/-- The keys with their values. -/
def entries (s : Store) : List (String × Value) := s.keys.zip s.values

/-- What a write changed. -/
inductive Written where
  /-- The value at the key alone. -/
  | key
  /-- The length of a list too, which is now this one. -/
  | resized (length : Nat)
deriving DecidableEq, Repr

/-- A list cut or filled with nulls to a length. -/
def resize (items : List Value) (length : Nat) : List Value :=
  items.take length ++ List.replicate (length - items.length) .null

/-- The length that a value denotes: a natural number. -/
def length? (v : Value) : Option Nat :=
  match Number.integer? v.toNumber with
  | some (.ofNat n) => some n
  | _ => none

/-- Writes a value at a key. In a list the key is an index, or `length`, which cuts or fills the
list; `text` gives the text of a value that is no length. -/
def write (text : Value → String) (s : Store) (key : String) (value : Value) :
    Except Fault (Store × Written) :=
  match s with
  | map entries => .ok (map (entries.insert key value), .key)
  | list items =>
    if key = lengthKey then
      match length? value with
      | some n => .ok (list (resize items n), .resized n)
      | none => .error (.invalidLength (text value))
    else match index? key with
      | none => .error (.notIndex key)
      | some i =>
        if i < items.length then .ok (list (items.set i value), .key)
        else .ok (list (resize items i ++ [value]), .resized (i + 1))

/-- Deletes the value at a key. An element of a list becomes null. -/
def erase (s : Store) (key : String) : Except Fault Store :=
  match s with
  | map entries => .ok (map (entries.erase key))
  | list items =>
    match index? key with
    | none => .error (.undeletable key)
    | some i => .ok (list (items.set i .null))

/-- Appends a value to a list. -/
def push (s : Store) (value : Value) : Except Fault Store :=
  match s with
  | map _ => .error .pushOnMap
  | list items => .ok (list (items ++ [value]))

/-- Takes the last element off a list, if it has one. -/
def pop (s : Store) : Except Fault (Option Value × Store) :=
  match s with
  | map _ => .error .popOnMap
  | list items => .ok (items.getLast?, list items.dropLast)

end Store

end LiveScope
