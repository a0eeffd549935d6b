import LiveScope.CommandLine

/-!
# The program

Reads the files that the arguments name, runs the command line on them, and shows the outcome.
-/

open LiveScope

/-- The content of a file, or nothing if there is none to be read. -/
def fileContent (name : String) : IO (Option String) := do
  try
    let bytes ← IO.FS.readBinFile name
    return some ((String.fromUTF8? bytes).getD "\x00")
  catch _ => return none

/-- Runs the program. -/
def main (args : List String) : IO UInt32 := do
  let contents ← (CommandLine.fileNames args).mapM fun name => do
    return (name, ← fileContent name)
  let outcome := CommandLine.execute (fun name => (contents.lookup name).join) args
  IO.print outcome.output
  if let some text := outcome.failure then IO.eprintln ("Error: " ++ text)
  return UInt32.ofNat outcome.code
