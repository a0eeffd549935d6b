import LiveScope.World.Dispatch

/-!
# Controllers

A controller stands between the root of a program's data and those who build views from spec rows:
it knows which callbacks and dialogs there are and whether views can be switched. A failing callback
is noted and gives null, so that it cannot stop what called it; a failing dialog or view switch is a
failure of the controller.
-/

namespace LiveScope

variable {γ : Type}

/-- A controller. -/
structure Controller where
  /-- The root of the data. -/
  data : ObjectId
  /-- The names of the callbacks. -/
  callbacks : List String := []
  /-- The names of the dialogs. -/
  dialogs : List String := []
  /-- Whether there is a view switch. -/
  hasViewSwitch : Bool := false
deriving Repr

namespace Controller

/-- A controller of data that are a map or a list. -/
def new (data : Value) : Edit Controller := do return { data := ← Model.proxy data }

/-- Calls a callback, whose work is done by `invoke`. -/
def callBack (listen : Listener γ) (c : Controller) (name : String) (invoke : Act γ Value) :
    Act γ Value := do
  if c.callbacks.contains name then
    tryCatch invoke fun _ => do
      Act.run (listen (.warning (.callback name)))
      return .null
  else throw (.unknownCallback name)

/-- Opens a dialog, whose work is done by `invoke`. -/
def openDialog (c : Controller) (name : String) (invoke : Act γ Unit) : Act γ Unit := do
  if c.dialogs.contains name then tryCatch invoke fun fault => throw (.dialogFailed name fault)
  else throw (.unknownDialog name)

/-- Switches to a view, which is done by `invoke`. -/
def showView (c : Controller) (name : String) (invoke : Act γ Unit) : Act γ Unit := do
  if c.hasViewSwitch then tryCatch invoke fun fault => throw (.viewFailed name fault)
  else throw .noViewSwitch

/-- The names of a dotted path; empty ones do not count. -/
def segments (path : String) : List String :=
  (go [] path.toList).filter (!·.isEmpty)
where
  /-- Splits at points, `current` being the name read so far in reverse. -/
  go (current : List Char) : List Char → List String
    | [] => [String.ofList current.reverse]
    | '.' :: cs => String.ofList current.reverse :: go [] cs
    | c :: cs => go (c :: current) cs

/-- The object at a dotted path below the root. Every object on the way gets a binding whose
enclosing scope is the object before it. -/
def bind (c : Controller) (path : String) : Edit ObjectId :=
  (segments path).foldlM Model.child c.data

end Controller

end LiveScope
