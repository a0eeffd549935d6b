import LiveScope.Json.Basic
import LiveScope.Model.Scope

/-!
# Data in and out of the model

`Datum` describes data to be put into a model, `Model.build` makes the objects for it. The other
way, `Model.toJson` writes a value as JSON, up to a limit of nesting, `Model.snapshot` copies a
value out of the model, and `Model.text` gives the text that templates show.
-/

namespace LiveScope

/-- Data to be put into a model. -/
inductive Datum where
  | null
  | bool (value : Bool)
  | number (value : Float)
  | text (value : String)
  /-- A function. -/
  | function (name : String)
  /-- A value that exists and has a name. -/
  | named (name : String)
  /-- A new list. -/
  | list (items : List Datum)
  /-- A new map. -/
  | map (members : List (String × Datum))

instance : Inhabited Datum := ⟨.null⟩

/-- A copy of a value that does not change with the model. An object that cannot be written as JSON
is only known by its kind. -/
inductive Snapshot where
  | null
  | bool (value : Bool)
  | number (value : Float)
  | text (value : String)
  | function (name : String)
  | deep (kind : Kind)
  | list (items : List Snapshot)
  | map (members : List (String × Snapshot))

instance : Inhabited Snapshot := ⟨.null⟩

mutual

/-- The data that a JSON document describes. -/
def Json.toDatum : Json → Datum
  | null => .null
  | bool b => .bool b
  | integer n => .number (Number.ofInt n)
  | float x => .number x
  | text s => .text s
  | array items => .list (toDatumItems items)
  | object members => .map (toDatumMembers members)

/-- The data that the items of an array describe. -/
def Json.toDatumItems : List Json → List Datum
  | [] => []
  | item :: items => item.toDatum :: toDatumItems items

/-- The data that the members of an object describe. -/
def Json.toDatumMembers : List (String × Json) → List (String × Datum)
  | [] => []
  | (name, value) :: members => (name, value.toDatum) :: toDatumMembers members

end

namespace Model

mutual

/-- The value that data describe, and the model with the objects made for it; `named` gives the
values that have names. -/
def build (named : String → Value) : Datum → Model → Value × Model
  | .null, m => (.null, m)
  | .bool b, m => (.bool b, m)
  | .number x, m => (.number x, m)
  | .text s, m => (.text s, m)
  | .function name, m => (.function name, m)
  | .named name, m => (named name, m)
  | .list items, m =>
    let (items, m) := buildItems named items m
    let (o, m) := m.add (.list items)
    (.object o, m)
  | .map members, m =>
    let (members, m) := buildMembers named members m
    let (o, m) := m.add (.map (Dict.ofList members))
    (.object o, m)

/-- The values of the items of a list. -/
def buildItems (named : String → Value) : List Datum → Model → List Value × Model
  | [], m => ([], m)
  | item :: items, m =>
    let (v, m) := build named item m
    let (vs, m) := buildItems named items m
    (v :: vs, m)

/-- The values of the members of a map. -/
def buildMembers (named : String → Value) :
    List (String × Datum) → Model → List (String × Value) × Model
  | [], m => ([], m)
  | (key, item) :: members, m =>
    let (v, m) := build named item m
    let (vs, m) := buildMembers named members m
    ((key, v) :: vs, m)

end

/-- The value of a JSON document, with fresh objects. -/
def ofJson (json : Json) (m : Model) : Value × Model := m.build (fun _ => .null) json.toDatum

/-- The text of a value inside the lists of `path`, at most `fuel` lists further in. -/
def textWithin (m : Model) : Nat → List ObjectId → Value → String
  | _, _, .null => ""
  | _, _, .bool b => if b then "true" else "false"
  | _, _, .number x => Number.text x
  | _, _, .text s => s
  | _, _, .function _ => "[function]"
  | 0, _, .object _ => ""
  | fuel + 1, path, .object o =>
    match m.store o with
    | .map _ => "[object]"
    | .list items =>
      if path.contains o then "" else ",".intercalate (items.map (m.textWithin fuel (o :: path)))

/-- The text of a value, as concatenation and templates show it: null is empty, a list shows its
elements separated by commas. Lists nested without end have no text: here a list shows nothing where
it comes up within itself, so that no text goes deeper than there are objects. -/
def text (m : Model) (v : Value) : String := m.textWithin (m.objects.size + 1) [] v

/-- A number as JSON: an integral one below `2 ^ 53` as an integer; infinities and NaN have no form
and become null. -/
def numberToJson (x : Float) : Json :=
  match Number.integer? x with
  | some n => if n.natAbs < Nat.pow 2 53 then .integer n else .float x
  | none => if x.isFinite then .float x else .null

/-- The content of an object as JSON, given how its values are written. -/
def storeToJson (toJson : Value → Except Fault Json) : Store → Except Fault Json
  | .map entries => do
    return .object (← entries.entries.mapM fun (key, v) => do return (key, ← toJson v))
  | .list items => do return .array (← items.mapM toJson)

/-- A value as JSON, with at most `levels` containers around any part of it. -/
def toJsonWithin (m : Model) : Nat → Value → Except Fault Json
  | _, .null => .ok .null
  | _, .bool b => .ok (.bool b)
  | _, .number x => .ok (numberToJson x)
  | _, .text s => .ok (.text s)
  | _, .function _ => .ok .null
  | 0, .object _ => .error .nestedData
  | levels + 1, .object o => storeToJson (m.toJsonWithin levels) (m.store o)

/-- A value as JSON. -/
def toJson (m : Model) (v : Value) : Except Fault Json := m.toJsonWithin maxDepth v

/-- An object as JSON; it is the first container itself. -/
def objectToJson (m : Model) (o : ObjectId) : Except Fault Json :=
  storeToJson (m.toJsonWithin (maxDepth - 1)) (m.store o)

/-- A copy of a value, at most `levels` containers deep. -/
def snapshotWithin (m : Model) : Nat → Value → Snapshot
  | _, .null => .null
  | _, .bool b => .bool b
  | _, .number x => .number x
  | _, .text s => .text s
  | _, .function name => .function name
  | 0, .object o => .deep (m.store o).kind
  | levels + 1, .object o =>
    match m.objectToJson o with
    | .error _ => .deep (m.store o).kind
    | .ok _ =>
      match m.store o with
      | .map entries => .map (entries.entries.map fun (key, v) => (key, m.snapshotWithin levels v))
      | .list items => .list (items.map (m.snapshotWithin levels))

/-- A copy of a value. -/
def snapshot (m : Model) (v : Value) : Snapshot := m.snapshotWithin maxDepth v

end Model

/-- The object that plain data become; what is neither a map nor a list is refused. -/
def Model.ofPlain (json : Json) : Edit ObjectId := do
  let (v, m) := (← get).ofJson json
  match v.object? with
  | some o =>
    set m
    return o
  | none => throw (.notContainer (m.kind v))

end LiveScope
