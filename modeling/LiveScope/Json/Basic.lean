/-!
# JSON documents

A document as a tree. Integers that fit in 64 bits are kept apart from other numbers, because they
are written differently. The members of an object are in ascending order of their names.
-/

namespace LiveScope

/-- A JSON document. -/
inductive Json where
  /-- The document `null`. -/
  | null
  /-- A truth value. -/
  | bool (value : Bool)
  /-- A number written without point and exponent. -/
  | integer (value : Int)
  /-- Any other number. -/
  | float (value : Float)
  /-- A string. -/
  | text (value : String)
  /-- An array. -/
  | array (items : List Json)
  /-- An object, its members in ascending order of their names. -/
  | object (members : List (String × Json))

namespace Json

instance : Inhabited Json := ⟨null⟩

/-- The member of an object with a name. -/
def member? (name : String) : Json → Option Json
  | object members => members.lookup name
  | _ => none

/-- The string, if the document is one. -/
def text? : Json → Option String
  | text s => some s
  | _ => none

/-- The items of an array; any other document has none. -/
def items : Json → List Json
  | array items => items
  | _ => []

end Json

end LiveScope
