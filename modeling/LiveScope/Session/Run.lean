import LiveScope.Session.State
import LiveScope.Session.Stock

/-!
# Running a session

`perform` does one step; it is told which listener hears of the changes. The listener of a session
writes every notice into the log, and then runs the steps of the function that was told, which may
cause further notices. Each such run uses up one of the calls allowed to a function, so the nesting
is bounded by the number of runs that the steps of the session allow together.
-/

namespace LiveScope.Session

open Play

/-- Texts as a list. -/
def texts (ss : List String) : Snapshot := .list (ss.map .text)

/-- A count. -/
def number (n : Nat) : Snapshot := .number (Number.ofNat n)

/-- A name, or null. -/
def nameOrNull (name : Option String) : Snapshot := name.elim .null .text

/-- The content of an object without a binding. -/
def inspect (m : Model) (o : ObjectId) : Snapshot :=
  let s := m.store o
  .map [("bound", .bool (m.isBound o)), ("empty", .bool (s.size == 0)),
    ("entries", .list (s.entries.map fun (key, v) => .list [.text key, m.snapshot v])),
    ("keys", texts s.keys), ("len", number s.size), ("list", .bool s.isList),
    ("values", .list (s.values.map m.snapshot))]

/-- The content of an object as its proxy shows it. -/
def inspectProxy (m : Model) (o : ObjectId) : Snapshot :=
  let s := m.store o
  .map [("again", .bool true), ("empty", .bool (s.size == 0)), ("keys", texts s.keys),
    ("len", number s.size), ("value", m.snapshot (.object o))]

/-- How much is subscribed to an object. -/
def inspectCounts (m : Model) (o : ObjectId) : Snapshot :=
  .map [("binds", number (m.bindCount o)), ("empty", .bool (m.handlerCount o == 0)),
    ("len", number (m.handlerCount o))]

/-- A silent change of an object. -/
def silently {α : Type} (o : ObjectId) (f : Model → Store → Except Fault (α × Store)) : Play α :=
  edit (Proxy.update o f)

/-- The names of the fields of a formula. -/
def fieldNames (names : List ScopedName) : List String := names.map (·.text)

/-- Does what an action says to the value named `on`. -/
def act (listen : Listener State) (on : String) : Action → Play Snapshot
  | .new data name => do
    assignOptional name (← build data)
    return .null
  | .drop => do
    match (← state).names.find? on with
    | some v =>
      remember fun s => { s with names := s.names.erase on }
      edit (modify (·.releaseAll v.holds))
      return .bool true
    | none => return .bool false
  | .snapshot => do Play.snapshot (← value on)
  | .json => do
    let v ← value on
    let json ← edit (do (← get).toJson v)
    return .text json.print
  | .objectJson => do
    let o ← object on
    let json ← edit (do (← get).objectToJson o)
    return .text json.print
  | .text => do
    let v ← value on
    return .text ((← get).model.text v)
  | .same other => do
    let a ← value on
    let b ← value other
    return .list [.bool (a.same b), .bool (a.looseEq b)]
  | .call args => do
    match ← value on with
    | .function name =>
      let args ← args.mapM build
      let v ← edit (do invoke (← get) name args)
      Play.snapshot v
    | _ => throw .absent
  | .eval src template this name => do
    let data ← value on
    let this ← build this
    let e ← edit (if template then Expr.ofTemplate src else Expr.ofSource src : Except Fault Expr)
    let v ← edit (do e.eval (← get) data this)
    assignOptional name v
    Play.snapshot v
  | .describeObject => do
    let o ← object on
    return .text ((← get).model.describe o)
  | .describeBinding => do
    let o ← proxy on
    return .text ((← get).model.describeBinding o)
  | .describeProxy => do
    let o ← proxy on
    return .text ((← get).model.describeProxy o)
  | .describeController name => do
    let stage ← find State.stages name
    return .text (stage.controller.describe (← get).model)
  | .describeRow label => do
    let row ← find State.rows label
    return .text row.describe
  | .insert key data => do
    let o ← object on
    let v ← build data
    silently o fun m s => do return ((), (← s.write m.text key v).1)
    return .null
  | .remove key => do
    let o ← object on
    silently o fun _ s => do return ((), ← s.erase key)
    return .null
  | .append data => do
    let o ← object on
    let v ← build data
    silently o fun _ s => do
      let s ← s.push v
      return (number s.size, s)
  | .read key name => do
    let o ← object on
    let v := (← get).model.get o key
    assignOptional name v
    Play.snapshot v
  | .contains key => do
    let o ← object on
    return .bool (((← get).model.store o).contains key)
  | .inspect => do
    let o ← object on
    return Session.inspect (← get).model o
  | .proxy parent => do
    let parent ← parent.mapM proxy
    let v ← value on
    let o ← edit (match parent with
      | some p => Model.proxyWithin v p
      | none => Model.proxy v)
    return inspectProxy (← get).model o
  | .bind keys => do
    let v ← value on
    let _ ← edit (Model.bind v keys)
    return .null
  | .hasBinding => do
    let v ← value on
    return .bool (v.object?.any (← get).model.isBound)
  | .child key name => do
    let o ← proxy on
    let c ← edit (Model.child o key)
    assignOptional name (.object c)
    Play.snapshot (.object c)
  | .get key => do
    let o ← proxy on
    Play.snapshot ((← get).model.get o key)
  | .set key data => do
    let o ← proxy on
    let v ← build data
    Play.act (Proxy.set listen o key v)
    return .null
  | .delete key => do
    let o ← proxy on
    Play.act (Proxy.delete listen o key)
    return .null
  | .push data => do
    let o ← proxy on
    let v ← build data
    return number (← Play.act (Proxy.push listen o v))
  | .pop => do
    let o ← proxy on
    Play.snapshot (← Play.act (Proxy.pop listen o))
  | .getValue key => do
    let o ← proxy on
    Play.snapshot (← edit (Model.getValue o (.ofString key)))
  | .setValue key data => do
    let o ← proxy on
    let v ← build data
    Play.act (Scope.setValue listen o (.ofString key) v)
    return .null
  | .deleteValue key => do
    let o ← proxy on
    Play.act (Scope.deleteValue listen o (.ofString key))
    return .null
  | .resolve key => do
    let o ← proxy on
    let n := ScopedName.ofString key
    let owner ← edit (Model.resolve o n)
    return .list [nameOrNull (nameOf? (← get) owner), .text n.name]
  | .parent => do
    let o ← proxy on
    match (← get).model.parent? o with
    | some p => return .map [("parent", nameOrNull (nameOf? (← get) p))]
    | none => return .null
  | .setParent parent => do
    let parent ← parent.mapM proxy
    let o ← proxy on
    edit (Model.setParent o parent)
    return .null
  | .count => do
    let o ← proxy on
    return inspectCounts (← get).model o
  | .connect key hook => do
    let o ← proxy on
    let callback ← register hook
    let id ← edit (modifyGet (·.connect o key (.report ⟨callback, none⟩)))
    remember fun s => { s with subscriptions := s.subscriptions.insert hook.label id }
    return .text id.text
  | .disconnect label => do
    let id ← find State.subscriptions label
    let o ← proxy on
    return .bool (← edit (modifyGet (·.disconnect o id)))
  | .disconnectText text => do
    let o ← proxy on
    let id ← edit (SubscriptionId.ofText text : Except Fault SubscriptionId)
    return .bool (← edit (modifyGet (·.disconnect o id)))
  | .watch hook => do
    let o ← proxy on
    let callback ← register hook
    let id ← edit (modifyGet (·.watch o (.report callback)))
    remember fun s => { s with watchers := s.watchers.insert hook.label id }
    return .null
  | .unwatch label => do
    let id ← find State.watchers label
    let o ← proxy on
    return .bool (← edit (modifyGet (·.unwatch o id)))
  | .bindProperty key hook => do
    let o ← proxy on
    let callback ← register hook
    let n := ScopedName.ofString key
    let id ← edit (Model.bindProperty o n callback)
    remember fun s =>
      { s with
        binds := s.binds.insert hook.label (some id)
        setters := s.setters.insert hook.label ⟨o, n⟩ }
    return .null
  | .bindObject key hook => do
    let o ← proxy on
    let callback ← register hook
    let n := ScopedName.ofString key
    let id ← Play.act (Scope.bindObject listen o n callback)
    remember fun s =>
      { s with
        binds := s.binds.insert hook.label (some id)
        setters := s.setters.insert hook.label ⟨o, n⟩ }
    return .null
  | .bindExpr src template this hook => do
    let o ← proxy on
    let this ← build this
    let callback ← register hook
    let bound ← Play.act <|
      if template then Scope.bindTemplate listen o src this ⟨callback, none⟩
      else Scope.bindExpr listen o src this ⟨callback, none⟩
    remember fun s => { s with binds := s.binds.insert hook.label bound.id }
    return .map [("fields", texts (fieldNames bound.fields)), ("live", .bool bound.id.isSome),
      ("value", ← Play.snapshot bound.value)]
  | .bindFields fields hook => do
    let o ← proxy on
    let callback ← register hook
    let names := ScopedName.sorted (fields.map .ofString)
    let id ← edit (Model.bindFields o names fun n => .report ⟨callback, some n.text⟩)
    remember fun s => { s with binds := s.binds.insert hook.label id }
    return .bool id.isSome
  | .setter label data => do
    let setter ← find State.setters label
    let v ← build data
    Play.act (setter.set listen v)
    return .null
  | .unbind label => do
    match ← find State.binds label with
    | some id => do
      let o ← proxy on
      return .bool (← edit (modifyGet (·.unbind o id)))
    | none => return .text "never live"
  | .unbindAll => do
    let o ← proxy on
    edit (modify (·.unbindAll o))
    return .null
  | .bindRow json hook => do
    let o ← proxy on
    let callback ← register hook
    let row ← Play.act (BoundRow.bind listen o json callback)
    let old := (← state).rows.find? hook.label
    remember fun s => { s with rows := s.rows.insert hook.label row }
    edit (modify fun m => old.elim m (·.drop m))
    let m := (← get).model
    return .map [("initial", .map (row.values.map m.snapshot).entries),
      ("live", number row.ids.length)]
  | .unbindRow label => do
    let row ← find State.rows label
    let row ← edit (modifyGet row.unbind)
    remember fun s => { s with rows := s.rows.insert label row }
    return .map [("live", number row.ids.length), ("members", number row.values.size)]
  | .dropRow label => do
    match (← state).rows.find? label with
    | some row =>
      remember fun s => { s with rows := s.rows.erase label }
      edit (modify row.drop)
      return .bool true
    | none => return .bool false
  | .controller name callbacks dialogs view => do
    let data ← value on
    let c ← edit (Controller.new data)
    let c := { c with callbacks, dialogs, hasViewSwitch := view.isSome }
    let old := ((← state).stages.find? name).map fun s => Hold.object s.controller.data
    edit (modify fun m => (m.hold (.object c.data)).releaseAll old.toList)
    remember fun s => { s with stages := s.stages.insert name ⟨c, view⟩ }
    return .null
  | .callBack controller name args => do
    let stage ← find State.stages controller
    let args ← args.mapM build
    let v ← Play.act <| stage.controller.callBack listen name do
      let m ← Act.model
      Act.run (note (.callback name (args.map m.snapshot)))
      invoke m name args
    Play.snapshot v
  | .openDialog controller name => do
    let stage ← find State.stages controller
    Play.act <| stage.controller.openDialog name do
      Act.run (note (.dialog name))
      let _ ← invoke (← Act.model) name []
    return .null
  | .showView controller name => do
    let stage ← find State.stages controller
    Play.act <| stage.controller.showView name do
      Act.run (note (.view name))
      let _ ← invoke (← Act.model) (stage.view.getD "") []
    return .null
  | .controllerData controller name => do
    let stage ← find State.stages controller
    let v := Value.object stage.controller.data
    assignOptional name v
    Play.snapshot v
  | .controllerBind controller path name => do
    let stage ← find State.stages controller
    let o ← edit (stage.controller.bind path)
    assignOptional name (.object o)
    Play.snapshot (.object o)

/-- Does a step. -/
def perform (listen : Listener State) (step : Step) : Run → Outcome × Run :=
  act listen step.on step.action

/-- Logs a notice: the label of the function told, if one was told, and the entry. -/
def record (notice : Notice) (run : Run) : Run :=
  let label (callback : CallbackId) : String :=
    (run.client.callbacks[callback]?.map (·.label)).getD ""
  let entry : Entry := match notice with
    | .value callback v => .value (label callback) (run.model.snapshot v)
    | .member callback name v => .member (label callback) name (run.model.snapshot v)
    | .change callback key v o =>
      .change (label callback) key (run.model.snapshot v) (nameOf? run o)
    | .warning warning => .warning warning
  note entry run

/-- The function that a notice is for. -/
def callback? : Notice → Option CallbackId
  | .value callback _ | .member callback _ _ | .change callback _ _ _ => some callback
  | .warning _ => none

/-- The steps to be run by the function that a notice is for, under its label, and the run with one
call fewer allowed to it. -/
def due? (notice : Notice) (run : Run) : Option (String × List Step × Run) := do
  let callback ← callback? notice
  let registered ← run.client.callbacks[callback]?
  if registered.remaining = 0 then none
  else
    let callbacks := run.client.callbacks.modify callback fun r =>
      { r with remaining := r.remaining - 1 }
    some (registered.label, registered.script,
      { run with client := { run.client with callbacks } })

/-- The listener of a session, for notices nested up to `depth` runs of steps deep. -/
def listener : Nat → Listener State
  | 0 => record
  | depth + 1 => fun notice run =>
    let run := record notice run
    match due? notice run with
    | none => run
    | some (label, script, run) =>
      script.foldl (fun run step =>
        let (outcome, run) := perform (listener depth) step run
        note (.ran label outcome) run) run

/-- What a step leaves behind: its result, its log, and the numbers of handlers and registrations of
the object it was done on. -/
structure Reply where
  /-- The result. -/
  outcome : Outcome
  /-- The log, in order. -/
  log : List Entry
  /-- The numbers of handlers and of registrations, if there is a binding. -/
  counts : Option (Nat × Nat)

/-- The numbers of handlers and registrations of a named object with a binding. -/
def counts? (run : Run) (name : String) : Option (Nat × Nat) := do
  let v ← run.client.names.find? name
  let o ← v.object?
  let b ← run.model.binding? o
  some (b.size, b.registrations.length)

/-- Runs steps one after the other. -/
def runSteps (listen : Listener State) : List Step → Run → List Reply
  | [], _ => []
  | step :: steps, run =>
    let (outcome, run) := perform listen step run
    let reply : Reply := ⟨outcome, run.client.log.reverse, counts? run step.on⟩
    reply :: runSteps listen steps { run with client := { run.client with log := [] } }

/-- Runs a session from an empty model. -/
def play (steps : List Step) : List Reply :=
  runSteps (listener (scriptRuns steps)) steps ⟨{}, {}⟩

end LiveScope.Session
