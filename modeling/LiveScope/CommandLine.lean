import LiveScope.Json.Reader
import LiveScope.World.Controller
import LiveScope.World.Row

/-!
# The command line

Two commands: `eval` binds an expression or template to a JSON data model, prints its value, applies
writes and prints every value computed again; `parse` prints the tokens, the tree and the fields of
a source. `Arguments.read` reads the arguments, `CommandLine.execute` does what they say, given the
contents of the files they name.
-/

namespace LiveScope.CommandLine

/-- What the command `eval` is told. -/
structure EvalOptions where
  /-- The expression or template. -/
  source : String
  /-- Whether the source is a template. -/
  template : Bool
  /-- The file of the data model; without one the data are an empty map. -/
  data : Option String
  /-- The file of the spec row. -/
  row : Option String
  /-- The dotted path of the scope below the root of the data. -/
  path : String
  /-- The writes, each a key, an equals sign and JSON. -/
  writes : List String

/-- A command. -/
inductive Command where
  | eval (options : EvalOptions)
  | parse (source : String) (template : Bool)

/-- What the arguments ask for. -/
inductive Usage where
  /-- To run a command. -/
  | run (command : Command)
  /-- To explain the usage. -/
  | help
  /-- Nothing: they make no sense. -/
  | wrong

namespace Arguments

/-- The names of the commands. -/
inductive Name where
  | eval
  | parse
deriving DecidableEq

/-- What is read of the arguments of a command. -/
structure Partial where
  /-- The sources, or the files, in the order given. -/
  sources : List String := []
  /-- Whether a source is to be read as a template. -/
  template : Bool := false
  /-- The data to bind to. -/
  data : Option String := none
  /-- The row. -/
  row : Option String := none
  /-- The path in the data. -/
  path : Option String := none
  /-- The writes to be made, in the order given. -/
  writes : List String := []

/-- The options that take a value. -/
inductive Setting where
  | data
  | row
  | path
  | write

/-- The option of a name, for a command that has it. -/
def option? (name : Name) (long : String) : Option Setting :=
  match name, long with
  | .eval, "data" => some .data
  | .eval, "row" => some .row
  | .eval, "path" => some .path
  | .eval, "watch-set" => some .write
  | _, _ => none

/-- Sets an option. All but writes can be set only once, and the name of a file is not empty. -/
def Partial.setOption? (p : Partial) (option : Setting) (value : String) : Option Partial :=
  match option with
  | .data => if p.data.isSome || value.isEmpty then none else some { p with data := some value }
  | .row => if p.row.isSome || value.isEmpty then none else some { p with row := some value }
  | .path => if p.path.isSome then none else some { p with path := some value }
  | .write => some { p with writes := p.writes ++ [value] }

/-- Adds a source; a command has one. -/
def Partial.addSource? (p : Partial) (source : String) : Option Partial :=
  if p.sources.isEmpty then some { p with sources := [source] } else none

/-- The command that the arguments make up when all are read. -/
def Partial.usage (p : Partial) (name : Name) : Usage :=
  match p.sources with
  | [source] =>
    match name with
    | .eval =>
      .run (.eval ⟨source, p.template, p.data, p.row, p.path.getD "", p.writes⟩)
    | .parse => .run (.parse source p.template)
  | _ => .wrong

/-- How an argument is written. -/
inductive Form where
  /-- A plain word. -/
  | word
  /-- The mark after which all arguments are plain words. -/
  | escape
  /-- A long option with the value after its equals sign. -/
  | long (name : String) (value : Option String)
  /-- A cluster of short options. -/
  | short (letters : List Char)

/-- The form of an argument. -/
def form (arg : String) : Form :=
  match arg.toList with
  | ['-', '-'] => .escape
  | '-' :: '-' :: cs =>
    let name := String.ofList (cs.takeWhile (· != '='))
    match cs.dropWhile (· != '=') with
    | [] => .long name none
    | _ :: value => .long name (some (String.ofList value))
  | '-' :: c :: cs => .short (c :: cs)
  | _ => .word

/-- What a cluster of short options means. -/
inductive Cluster where
  /-- Only more log output. -/
  | verbose
  /-- A request to explain the usage. -/
  | help
  /-- Something unknown. -/
  | unknown

/-- The meaning of a cluster of short options; `version` says whether there is one for the
version. -/
def cluster (version : Bool) : List Char → Cluster
  | [] => .verbose
  | c :: cs =>
    if c = 'v' then cluster version cs
    else if c = 'h' ∨ (version ∧ c = 'V') then .help
    else .unknown

/-- Reads the arguments of a command. -/
def readCommand (name : Name) (p : Partial) : List String → Usage
  | [] => p.usage name
  | arg :: args =>
    match form arg with
    | .word =>
      match p.addSource? arg with
      | some p => readCommand name p args
      | none => .wrong
    | .escape =>
      match args.foldlM Partial.addSource? p with
      | some p => p.usage name
      | none => .wrong
    | .short letters =>
      match cluster false letters with
      | .verbose => readCommand name p args
      | .help => .help
      | .unknown => .wrong
    | .long long value =>
      match option? name long, value, args with
      | some option, some value, args =>
        match p.setOption? option value with
        | some p => readCommand name p args
        | none => .wrong
      | some option, none, value :: args =>
        match form value, p.setOption? option value with
        | .word, some p => readCommand name p args
        | _, _ => .wrong
      | some _, none, [] => .wrong
      | none, none, args =>
        if long = "template" then
          if p.template then .wrong else readCommand name { p with template := true } args
        else if long = "verbose" then readCommand name p args
        else if long = "help" then .help
        else .wrong
      | none, some _, _ => .wrong

/-- Reads the arguments of `help`: at most the name of a command, itself included. -/
def helpOn : List String → Usage
  | [] => .help
  | [name] => if name ∈ ["eval", "parse", "help"] then .help else .wrong
  | _ => .wrong

/-- Reads all arguments. -/
def read : List String → Usage
  | [] => .wrong
  | arg :: args =>
    match form arg with
    | .word =>
      if arg = "eval" then readCommand .eval {} args
      else if arg = "parse" then readCommand .parse {} args
      else if arg = "help" then helpOn args
      else .wrong
    | .escape => .wrong
    | .short letters =>
      match cluster true letters with
      | .verbose => read args
      | .help => .help
      | .unknown => .wrong
    | .long name none =>
      if name = "verbose" then read args
      else if name = "help" ∨ name = "version" then .help
      else .wrong
    | .long _ (some _) => .wrong

end Arguments

/-- Why a command fails: what was being done, and the cause, if it is one of the library's. -/
structure Failure where
  /-- What was being done, or the fault itself if there is no more to say. -/
  headline : String
  /-- The cause. -/
  cause : Option Fault := none

/-- The text of a failure; the lines of a cause are indented. -/
def Failure.text (f : Failure) : String :=
  match f.cause with
  | none => f.headline
  | some fault =>
    let indented := fault.message.toList.flatMap fun c =>
      if c = '\n' then "\n    ".toList else [c]
    f.headline ++ "\n\nCaused by:\n    " ++ String.ofList indented

/-- A text in single quotes. -/
def inQuotes (s : String) : String := "'" ++ s ++ "'"

/-- What a command does: it prints lines and may fail, and what it printed stays. -/
abbrev Action (α : Type) : Type := ExceptT Failure (StateM (World (List String))) α

/-- Prints a line. -/
def print (line : String) (w : World (List String)) : World (List String) :=
  { w with client := line :: w.client }

/-- The listener that prints every value, as JSON if it can be written so, else as text. -/
def printer : Listener (List String) := fun notice w =>
  match notice with
  | .value _ v =>
    match w.model.toJson v with
    | .ok json => print json.print w
    | .error _ => print (w.model.text v) w
  | _ => w

/-- An operation of the library, with what it is for. -/
def attempt {α : Type} (headline : String) (act : Act (List String) α) : Action α := fun w =>
  match act w with
  | (.ok a, w) => (.ok a, w)
  | (.error fault, w) => (.error ⟨headline, some fault⟩, w)

/-- The JSON document in a file. -/
def readFile (files : String → Option String) (name : String) : Action Json := do
  match files name with
  | none => throw { headline := "open " ++ inQuotes name }
  | some content =>
    match Json.read? Json.defaultDepth content with
    | some json => return json
    | none => throw { headline := "parse JSON " ++ inQuotes name }

/-- The key and the JSON text of a write. -/
def splitWrite? (write : String) : Option (String × String) :=
  let cs := write.toList
  match cs.dropWhile (· != '=') with
  | [] => none
  | _ :: json => some (String.ofList (cs.takeWhile (· != '=')), String.ofList json)

/-- Applies a write to a scope. -/
def applyWrite (scope : ObjectId) (write : String) : Action Unit := do
  match splitWrite? write with
  | none => throw { headline := "--watch-set " ++ inQuotes write ++ " is not KEY=JSON" }
  | some (key, text) =>
    match Json.read? Json.defaultDepth text with
    | none => throw { headline := "parse value for " ++ inQuotes key }
    | some json =>
      attempt ("write " ++ inQuotes key) do
        let v ← Act.edit (modifyGet (·.ofJson json))
        Scope.setValue printer scope (.ofString key) v

/-- Runs the command `eval`. -/
def runEval (files : String → Option String) (o : EvalOptions) : Action Unit := do
  let data ← match o.data with
    | some name => readFile files name
    | none => pure (.object [])
  let row ← match o.row with
    | some name => readFile files name
    | none => pure .null
  let row ← attempt "" (Act.edit (modifyGet (·.ofJson row)))
  let controller ← attempt "bind data model" <| Act.edit do
    let data ← modifyGet (·.ofJson data)
    let controller ← Controller.new data
    modify (·.hold (.object controller.data))
    return controller
  let scope ← attempt ("resolve scope " ++ inQuotes o.path) (Act.edit (controller.bind o.path))
  let _ ← attempt ("bind " ++ inQuotes o.source) do
    Act.edit (modify (·.hold (.object scope)))
    if o.template then Scope.bindTemplate printer scope o.source row ⟨0, none⟩
    else Scope.bindExpr printer scope o.source row ⟨0, none⟩
  o.writes.forM (applyWrite scope)

/-- Turns a fault into a failure with nothing more to say. -/
def orFail {α : Type} : Except Fault α → Action α
  | .ok a => return a
  | .error fault => throw { headline := fault.message }

/-- A number in a column of width four. -/
def column (n : Nat) : String :=
  let ds := n.repr.toList
  String.ofList (List.replicate (4 - ds.length) ' ' ++ ds)

/-- Runs the command `parse`. -/
def runParse (source : String) (template : Bool) : Action Unit := do
  let tokens ← orFail <|
    if template then Template.tokens 0 source.toList else Token.scan 0 source.toList
  for token in tokens do
    if token.kind ≠ .space then
      modify (print (column token.offset ++ " " ++ token.kind.label ++ " " ++ token.src))
  let e ← orFail (Expr.parse tokens)
  modify (print ("tree: " ++ e.display))
  modify (print ("fields: " ++ ", ".intercalate (e.fields.map (·.text))))

/-- What a run of the program shows. -/
structure Outcome where
  /-- The exit code. -/
  code : Nat
  /-- The standard output. -/
  output : String
  /-- The text of the failure. -/
  failure : Option String

/-- Runs the program with arguments, given the contents of the files that exist. -/
def execute (files : String → Option String) (args : List String) : Outcome :=
  match Arguments.read args with
  | .wrong => ⟨2, "", none⟩
  | .help => ⟨0, "", none⟩
  | .run command =>
    let action := match command with
      | .eval o => runEval files o
      | .parse source template => runParse source template
    let (r, w) := action ⟨{}, []⟩
    let output := String.join (w.client.reverse.map (· ++ "\n"))
    match r with
    | .ok () => ⟨0, output, none⟩
    | .error f => ⟨1, output, some f.text⟩

/-- The files that the arguments name. -/
def fileNames (args : List String) : List String :=
  match Arguments.read args with
  | .run (.eval o) => o.data.toList ++ o.row.toList
  | _ => []

end LiveScope.CommandLine
