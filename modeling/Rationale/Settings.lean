/-
  Rationale — the settings of the program.

  Settings come from a file and from the environment, which wins.  The case of
  a key does not matter, and a key may be a path into a value (`keyOf`).

  * `Settings.ofLayer` refuses a value that does not fit its setting; keys that
    are no setting are passed over.
-/
import Rationale.Settings.Document

namespace Rationale

/-- Keys with their values. -/
abbrev Layer : Type :=
  List (String × SettingValue)

/-! ## Keys -/

namespace KeyPath

/-- How far a path has been read: names come after points, indices stand in
    brackets. -/
inductive Progress where
  | point
  | name
  | bracket
  | minus
  | index
  | closed
deriving DecidableEq, Repr

def isNameChar (c : Char) : Bool :=
  c.isAlphanum || c ∈ ['_', '-', ' ']

/-- Reads one more character. -/
def step? : Progress → Char → Option Progress
  | .point, c => if isNameChar c then some .name else none
  | .name, c =>
    if isNameChar c then some .name
    else if c = '.' then some .point
    else if c = '[' then some .bracket
    else none
  | .bracket, c => if c = '-' then some .minus else if c.isDigit then some .index else none
  | .minus, c => if c.isDigit then some .index else none
  | .index, c => if c.isDigit then some .index else if c = ']' then some .closed else none
  | .closed, c => if c = '.' then some .point else if c = '[' then some .bracket else none

/-- The text is a path: names, with indices behind them. -/
def isPath (cs : List Char) : Bool :=
  match cs.foldlM step? .point with
  | some .name | some .closed => true
  | _ => false

end KeyPath

/-- The key that a name stands for, in lower case, and whether the name leads
    further, into the value of the key. -/
def keyOf (name : String) : String × Bool :=
  let cs := name.toList
  let key := cs.takeWhile KeyPath.isNameChar
  if KeyPath.isPath cs then ((String.ofList key).toLower, key ≠ cs) else (name.toLower, false)

/-- The entries by their keys; a value into which a name leads has parts. -/
def Layer.ofEntries (entries : List (String × SettingValue)) : Layer :=
  entries.map fun (name, v) =>
    let (key, leadsOn) := keyOf name
    (key, if leadsOn then .compound else v)

/-! ## Settings -/

structure Settings where
  storePath : String := "~/.local/share/warrant/warrant.db"
  /-- The length of a page, if none is asked for. -/
  defaultCount : Nat := 20
  /-- Always give the URLs of writ quotes. -/
  includeUrls : Bool := false
deriving DecidableEq, Repr

/-- Why there are no settings. -/
inductive SettingsFault where
  | unreadable
  | unfit
deriving DecidableEq, Repr

def SettingsFault.text : SettingsFault → String
  | unreadable => "failed to read config file"
  | unfit => "failed to deserialise WarrantConfig"

namespace Settings

/-- The value of a key as `read` takes it, or `default` if the key is missing. -/
def get {α : Type} (layer : Layer) (key : String) (read : SettingValue → Option α) (default : α) :
    Except SettingsFault α :=
  match layer.lookup key with
  | none => .ok default
  | some v =>
    match read v with
    | some a => .ok a
    | none => .error .unfit

/-- The settings of a layer. -/
def ofLayer (layer : Layer) : Except SettingsFault Settings := do
  let defaults : Settings := {}
  let storePath ← get layer "store_path" SettingValue.string? defaults.storePath
  let defaultCount ← get layer "default_count" SettingValue.nat? defaults.defaultCount
  let includeUrls ← get layer "include_urls" SettingValue.switch? defaults.includeUrls
  return { storePath, defaultCount, includeUrls }

/-- The layer of an environment. -/
def environment (env : List (String × String)) : Layer :=
  .ofEntries (env.map fun (name, value) => (name, .text value))

/-- The settings of an environment over those of a file, if there is a file. -/
def load (file : Option String) (env : List (String × String)) :
    Except SettingsFault Settings :=
  match file with
  | none => ofLayer (environment env)
  | some text =>
    match SettingsFile.parse? text with
    | none => .error .unreadable
    | some entries => ofLayer (environment env ++ .ofEntries entries)

end Settings

end Rationale
