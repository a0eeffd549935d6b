import LiveScope.Model.Snapshot

/-!
# Stock functions

What the functions of a session do. The part of a function's name before a `#` decides, so that two
functions can do the same and still differ.
-/

namespace LiveScope.Session

/-- The part of a function's name that decides what it does. -/
def stockName (name : String) : String := String.ofList (name.toList.takeWhile (· != '#'))

/-- The result of a function: `echo` gives its first argument, `sum` adds the arguments from left
to right, `join` puts their texts together, `argc` counts them, `fail` fails, and any other gives
null. -/
def invoke (m : Model) (name : String) (args : List Value) : Except Fault Value :=
  match stockName name with
  | "echo" => .ok (args.head?.getD .null)
  | "sum" => .ok (.number (args.foldl (fun x v => x + v.toNumber) 0))
  | "join" => .ok (.text ("|".intercalate (args.map m.text)))
  | "argc" => .ok (.number (Number.ofNat args.length))
  | "fail" => .error (.consumer (name ++ " failed"))
  | _ => .ok .null

end LiveScope.Session
