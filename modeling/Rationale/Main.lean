/-
  Rationale — the program.

  Fetches the file with the settings, the environment and the store, hands them
  to `run`, and shows the outcome.  A store is a file that holds its JSON form.
-/
import Rationale.CommandLine
import Rationale.Json.Store
import Rationale.Json.Text

namespace Rationale.Main

/-- The text of a file, if it can be read. -/
def readFile? (path : String) : IO (Option String) := do
  try
    return some (← IO.FS.readFile path)
  catch _ =>
    return none

/-- The variables of the environment that hold settings. -/
def environment : IO (List (String × String)) := do
  let names := ["STORE_PATH", "DEFAULT_COUNT", "INCLUDE_URLS"]
  let found ← names.mapM fun name => do
    return (← IO.getEnv ("WARRANT_" ++ name)).map (name, ·)
  return found.filterMap id

/-- The path with the home directory for a tilde in front. -/
def expand (path : String) : IO String := do
  match path.toList, ← IO.getEnv "HOME" with
  | '~' :: '/' :: rest, some home => return home ++ "/" ++ String.ofList rest
  | _, _ => return path

/-- The store in a file; a file that is missing is made first. -/
def openStore (path : String) : IO Store := do
  match ← readFile? path with
  | none =>
    IO.FS.writeFile path ((Json.obj []).compact ++ "\n")
    return {}
  | some text =>
    match (Json.parse? text).bind Store.ofJson? with
    | some db => return db
    | none => throw (IO.userError ("failed to open store at " ++ Text.quoted path))

/-- The store that the arguments and the settings name, if they are accepted. -/
def storeFor (args : List String) (file : Option String) (vars : List (String × String)) :
    IO Store := do
  match Invocation.parse args, Settings.load file vars with
  | .ok _, .ok settings => openStore (← expand settings.storePath)
  | _, _ => return {}

/-- Prints an outcome, with warnings and errors apart from the output. -/
def print (o : Outcome) : IO Unit := do
  for w in o.warnings do
    IO.eprintln w.message
  if let some j := o.output then
    IO.println j.pretty
  if let some e := o.error then
    IO.eprintln ("Error: " ++ e)
    for cause in o.causes do
      IO.eprintln ("Caused by: " ++ cause)

end Rationale.Main

open Rationale in
def main (args : List String) : IO UInt32 := do
  let file ← match Invocation.parse args with
    | .ok invocation => Main.readFile? invocation.config
    | .error _ => pure none
  let vars ← Main.environment
  let outcome := run args file vars (← Main.storeFor args file vars)
  Main.print outcome
  return outcome.exit.toUInt32
