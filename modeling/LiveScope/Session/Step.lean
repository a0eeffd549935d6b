import LiveScope.Json.Basic
import LiveScope.Model.Snapshot

/-!
# Steps of a session

A session is a script of operations on named values. A step says what is done and names the value it
is done on. Functions registered by a step have a label under which the log shows what they are
told, and may run steps of their own.
-/

namespace LiveScope.Session

mutual

/-- A function to be told of changes: its label in the log, and the steps that it runs on at most
so many calls. -/
inductive Hook where
  | mk (label : String) (times : Nat) (script : List Step)

/-- What a step does. An optional `name` stores the resulting value. -/
inductive Action where
  /-- Makes a value. -/
  | new (data : Datum) (name : Option String)
  /-- Forgets a name. -/
  | drop
  /-- Shows the value. -/
  | snapshot
  /-- Writes the value as JSON. -/
  | json
  /-- Writes the object as JSON. -/
  | objectJson
  /-- Gives the text of the value. -/
  | text
  /-- Compares with another named value. -/
  | same (other : String)
  /-- Calls a function. -/
  | call (args : List Datum)
  /-- Evaluates an expression or template in the scope of the value. -/
  | eval (src : String) (template : Bool) (this : Datum) (name : Option String)
  | describeObject
  | describeBinding
  | describeProxy
  | describeController (controller : String)
  | describeRow (row : String)
  /-- Writes a key and tells nobody. -/
  | insert (key : String) (data : Datum)
  /-- Deletes a key and tells nobody. -/
  | remove (key : String)
  /-- Appends to a list and tells nobody. -/
  | append (data : Datum)
  /-- Reads a key without a binding. -/
  | read (key : String) (name : Option String)
  | contains (key : String)
  | inspect
  /-- Gives the value a binding, within the scope of another one if there is a `parent`. -/
  | proxy (parent : Option String)
  /-- Gives the value its first binding, restricted to some keys. -/
  | bind (keys : Option (List String))
  | hasBinding
  | child (key : String) (name : Option String)
  | get (key : String)
  | set (key : String) (data : Datum)
  | delete (key : String)
  | push (data : Datum)
  | pop
  | getValue (key : String)
  | setValue (key : String) (data : Datum)
  | deleteValue (key : String)
  | resolve (key : String)
  | parent
  | setParent (parent : Option String)
  | count
  | connect (key : String) (hook : Hook)
  /-- Disconnects what was connected under a label. -/
  | disconnect (label : String)
  /-- Disconnects by the written form of a subscription id. -/
  | disconnectText (id : String)
  | watch (hook : Hook)
  | unwatch (label : String)
  | bindProperty (key : String) (hook : Hook)
  | bindObject (key : String) (hook : Hook)
  | bindExpr (src : String) (template : Bool) (this : Datum) (hook : Hook)
  | bindFields (fields : List String) (hook : Hook)
  /-- Writes through the setter of a bound property. -/
  | setter (label : String) (data : Datum)
  | unbind (label : String)
  | unbindAll
  | bindRow (row : Json) (hook : Hook)
  | unbindRow (label : String)
  | dropRow (label : String)
  | controller (controller : String) (callbacks dialogs : List String) (view : Option String)
  | callBack (controller name : String) (args : List Datum)
  | openDialog (controller name : String)
  | showView (controller name : String)
  | controllerData (controller : String) (name : Option String)
  | controllerBind (controller path : String) (name : Option String)

/-- A step: the name of the value it is done on, and what is done. -/
inductive Step where
  | mk (on : String) (action : Action)

end

instance : Inhabited Step := ⟨.mk "" .drop⟩

/-- The label of a function. -/
def Hook.label : Hook → String
  | mk label _ _ => label

/-- On how many calls a function runs its steps. -/
def Hook.times : Hook → Nat
  | mk _ times _ => times

/-- The steps that a function runs. -/
def Hook.script : Hook → List Step
  | mk _ _ script => script

/-- The name of the value a step is done on. -/
def Step.on : Step → String
  | mk on _ => on

/-- What a step does. -/
def Step.action : Step → Action
  | mk _ action => action

mutual

/-- How often the functions registered by an action can run their steps, those of the functions
registered by these steps included. -/
def Action.runs : Action → Nat
  | .connect _ hook | .watch hook | .bindProperty _ hook | .bindObject _ hook
  | .bindExpr _ _ _ hook | .bindFields _ hook | .bindRow _ hook => hook.runs
  | _ => 0

/-- How often a function can run its steps, and those registered by these steps theirs. -/
def Hook.runs : Hook → Nat
  | .mk _ times script => times * (1 + scriptRuns script)

/-- How often the functions registered by a step can run their steps. -/
def Step.runs : Step → Nat
  | .mk _ action => action.runs

/-- How often the functions registered by several steps can run their steps. -/
def scriptRuns : List Step → Nat
  | [] => 0
  | step :: steps => step.runs + scriptRuns steps

end

end LiveScope.Session
