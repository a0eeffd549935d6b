import LiveScope.Diagnostics
import LiveScope.Session.Step

/-!
# The state of a session

What a session remembers between steps: its named values, what its steps have registered under
labels, and the log of the current step.
-/

namespace LiveScope.Session

/-- Why a step has no result. -/
inductive Failure where
  /-- It names something that does not exist, or that is not what it needs. -/
  | absent
  /-- The operation failed. -/
  | fault (fault : Fault)

/-- The result of a step. -/
abbrev Outcome : Type := Except Failure Snapshot

/-- An entry of the log. -/
inductive Entry where
  /-- A function was told a value. -/
  | value (label : String) (v : Snapshot)
  /-- A function was told the value of a field or member. -/
  | member (label name : String) (v : Snapshot)
  /-- A watcher was told of a change of an object, shown by its name if it has one. -/
  | change (label key : String) (v : Snapshot) (object : Option String)
  /-- A function ran a step. -/
  | ran (label : String) (outcome : Outcome)
  /-- A failure was noted. -/
  | warning (warning : Warning)
  /-- A callback of a controller was called. -/
  | callback (name : String) (args : List Snapshot)
  /-- A dialog was opened. -/
  | dialog (name : String)
  /-- A view was switched to. -/
  | view (name : String)

/-- A registered function: its label, on how many calls it will still run its steps, and these. -/
structure Registered where
  /-- The label in the log. -/
  label : String
  /-- The calls left. -/
  remaining : Nat
  /-- The steps. -/
  script : List Step

/-- A controller and the name of the function that switches its views. -/
structure Stage where
  /-- The controller. -/
  controller : Controller
  /-- What a view switch does. -/
  view : Option String

/-- What a session remembers. -/
structure State where
  /-- The named values. -/
  names : Dict Value := Dict.empty
  /-- The connections by label. -/
  subscriptions : Dict SubscriptionId := Dict.empty
  /-- The watchers by label. -/
  watchers : Dict Nat := Dict.empty
  /-- The numbers of registrations by label, none for a formula without fields. -/
  binds : Dict (Option Nat) := Dict.empty
  /-- The setters by label. -/
  setters : Dict Setter := Dict.empty
  /-- The spec rows by label. -/
  rows : Dict BoundRow := Dict.empty
  /-- The controllers by name. -/
  stages : Dict Stage := Dict.empty
  /-- The registered functions, each at its place. -/
  callbacks : Array Registered := #[]
  /-- The log of the current step, the latest entry first. -/
  log : List Entry := []

/-- A model with a session as its client. -/
abbrev Run : Type := World State

/-- What a step does: a change of the run that may have no result. -/
abbrev Play (α : Type) : Type := ExceptT Failure (StateM Run) α

/-- Adds an entry to the log. -/
def note (entry : Entry) (run : Run) : Run :=
  { run with client := { run.client with log := entry :: run.client.log } }

/-- The first name of an object, in ascending order of the names. -/
def nameOf? (run : Run) (o : ObjectId) : Option String :=
  (run.client.names.entries.find? fun (_, v) => v.object? == some o).map (·.1)

namespace Play

/-- Changes what the session remembers. -/
def remember (f : State → State) : Play Unit :=
  modify fun run => { run with client := f run.client }

/-- What the session remembers. -/
def state : Play State := do return (← get).client

/-- An operation of the library. -/
def act {α : Type} (a : Act State α) : Play α := fun run =>
  match a run with
  | (.ok x, run) => (.ok x, run)
  | (.error fault, run) => (.error (.fault fault), run)

/-- An operation of the library on the model alone. -/
def edit {α : Type} (e : Edit α) : Play α := act (Act.edit e)

/-- What is found in a table of the session; it has to be there. -/
def find {α : Type} (table : State → Dict α) (key : String) : Play α := do
  match (table (← state)).find? key with
  | some x => return x
  | none => throw .absent

/-- The value with a name. -/
def value (name : String) : Play Value := find State.names name

/-- The object with a name. -/
def object (name : String) : Play ObjectId := do
  match (← value name).object? with
  | some o => return o
  | none => throw .absent

/-- The object with a name, with a binding. -/
def proxy (name : String) : Play ObjectId := do edit (Model.proxy (← value name))

/-- The values that data describe. -/
def build (data : Datum) : Play Value := do
  let names := (← state).names
  edit (modifyGet (·.build (fun name => (names.find? name).getD .null) data))

/-- Gives a value a name, which holds it; a value that had the name is no longer held. -/
def assign (name : String) (v : Value) : Play Unit := do
  let old := ((← state).names.find? name).getD .null
  edit (modify fun m => (m.holdAll v.holds).releaseAll old.holds)
  remember fun s => { s with names := s.names.insert name v }

/-- Gives a value a name, if there is one to give. -/
def assignOptional (name : Option String) (v : Value) : Play Unit :=
  match name with
  | some name => assign name v
  | none => return

/-- A copy of a value, as it is now. -/
def snapshot (v : Value) : Play Snapshot := do return (← get).model.snapshot v

/-- Registers a function. -/
def register (hook : Hook) : Play CallbackId := do
  let id := (← state).callbacks.size
  remember fun s =>
    { s with callbacks := s.callbacks.push ⟨hook.label, hook.times, hook.script⟩ }
  return id

end Play

end LiveScope.Session
