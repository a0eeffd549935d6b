import LiveScope.Model.Liveness

/-!
# Scopes

Each sigil `$` before a name leads one scope up: to the enclosing scope that was set for the
binding, as long as it is alive, else to the object in the member `parent`. Reading a variable
(`Model.lookup`) and finding the owner of a name to subscribe to (`Model.resolve`) take the same
walk; the second gives every scope on the way a binding.
-/

namespace LiveScope

/-- A change of the model that can fail; what it did before it failed stays done. -/
abbrev Edit (α : Type) : Type := ExceptT Fault (StateM Model) α

/-- The member that holds the enclosing scope of an object without a scope link. -/
def parentKey : String := "parent"

namespace Model

/-- The enclosing scope that was set for an object, if it is alive. -/
def parent? (m : Model) (o : ObjectId) : Option ObjectId :=
  ((m.binding? o).bind (·.parent)).filter fun p => m.isAlive p && m.isBound p

/-- The enclosing scope of an object. -/
def enclosing? (m : Model) (o : ObjectId) : Option ObjectId :=
  m.parent? o <|> (m.get o parentKey).object?

/-- The member of a value with a name; only objects have members. -/
def memberOf (m : Model) (v : Value) (name : String) : Value :=
  v.object?.elim .null (m.get · name)

/-- The value `hops` scopes above a value. -/
def climb (m : Model) (src : ScopedName) : Nat → Value → Except Fault Value
  | 0, v => .ok v
  | hops + 1, v =>
    match v.object?.bind m.enclosing? with
    | some p => m.climb src hops (.object p)
    | none => .error (.noEnclosingScope src.text)

/-- The value of a scope reference. Without sigils and with one it is a member of `data`; sigils
without a name refer to the scope itself. -/
def lookup (m : Model) (data : Value) (src : ScopedName) : Except Fault Value :=
  if src.sigils = 0 then .ok (m.memberOf data src.name)
  else if maxDepth < src.sigils then .error (.deepVariable src.text)
  else do
    let scope ← m.climb src (src.sigils - 1) data
    return if src.name.isEmpty then scope else m.memberOf scope src.name

/-- Finds the owner of a name, at most `hops` scopes up, and gives every scope on the way a
binding. -/
def resolveFrom (name : String) : (hops sigils : Nat) → ObjectId → Edit ObjectId
  | _, 0, o => pure o
  | 0, sigils + 1, _ => throw (.scopeChain (ScopedName.text ⟨sigils + 1, name⟩))
  | hops + 1, sigils + 1, o => do
    match (← get).enclosing? o with
    | some p =>
      modify (·.ensureBinding p)
      resolveFrom name hops sigils p
    | none => throw (.noParentScope (ScopedName.text ⟨sigils + 1, name⟩))

/-- The owner of a name as seen from an object. -/
def resolve (o : ObjectId) (n : ScopedName) : Edit ObjectId :=
  resolveFrom n.name maxDepth n.sigils o

/-- Sets or clears the enclosing scope of an object. -/
def setParent (o : ObjectId) (parent : Option ObjectId) : Edit Unit :=
  if parent = some o then throw .ownParent
  else modify (·.modifyBinding o fun b => { b with parent })

/-- The object that a value is, with a binding. -/
def proxy (v : Value) : Edit ObjectId := do
  match v.object? with
  | some o =>
    modify (·.ensureBinding o)
    return o
  | none => throw (.notBindable ((← get).kind v))

/-- The object that a value is, with a binding whose enclosing scope is `parent`. -/
def proxyWithin (v : Value) (parent : ObjectId) : Edit ObjectId := do
  let o ← proxy v
  setParent o (some parent)
  return o

/-- The object at a key of an object, with the latter as its enclosing scope. -/
def child (o : ObjectId) (key : String) : Edit ObjectId := do
  let v := (← get).get o key
  tryCatch (proxyWithin v o) fun fault => throw (.member key fault)

/-- Gives an object its first binding; with `keys`, only changes of these are told of. -/
def bind (v : Value) (keys : Option (List String)) : Edit ObjectId := do
  match v.object? with
  | some o =>
    if (← get).isBound o then throw .alreadyBound
    modify (·.modifyObject o fun x => { x with binding := some { keys } })
    return o
  | none => throw (.notBindable ((← get).kind v))

end Model

end LiveScope
