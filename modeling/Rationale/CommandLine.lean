/-
  Rationale — the command line.

  `Invocation.parse` reads the arguments and `run` does what they ask for, on a
  store that is given to it.  Reading stops at the first argument that asks for
  help or that does not fit.

  * an option has its value behind an equals sign or in the next argument,
    which then must not look like an option itself;
  * the argument `--` ends the options;
  * `Outcome` is all that a run shows: the exit code, what is printed, and an
    error with its causes.
-/
import Rationale.Json.Justification
import Rationale.Settings
import Rationale.Store.Read

namespace Rationale

open Query Text

/-! ## Arguments -/

/-- The options for reading a page. -/
structure PageOptions where
  filters : List String := []
  sorts : List String := []
  count : Option Nat := none
  isContinuation : Bool := false
  includeUrls : Bool := false
deriving DecidableEq, Repr

inductive Command where
  /-- Makes sure that there is a store. -/
  | init
  | justifications (options : PageOptions)
  | locatorStatus (locator : Id)
deriving DecidableEq, Repr

/-- Why the arguments are no command. -/
inductive Stop where
  | help
  | refused
deriving DecidableEq, Repr

/-- An option with the value behind its equals sign. -/
inductive Arg where
  | long (name : List Char) (value : Option (List Char))
  | short (name : Char) (rest : List Char)
  /-- The end of the options. -/
  | escape
  | plain (text : String)
deriving DecidableEq, Repr

namespace Arg

def ofString (s : String) : Arg :=
  match s.toList with
  | ['-', '-'] => escape
  | '-' :: '-' :: cs =>
    match splitFirst? '=' cs with
    | some (name, value) => long name (some value)
    | none => long cs none
  | '-' :: c :: cs => short c cs
  | _ => plain s

/-- What an option that is no option of the command stands for. -/
def helpOr (a : Arg) : Stop :=
  if a = long "help".toList none then .help
  else
    match a with
    | short 'h' _ => .help
    | _ => .refused

end Arg

/-- The value of an option, and the arguments behind it. -/
def optionValue (attached : Option (List Char)) (rest : List String) :
    Option (String × List String) :=
  match attached, rest with
  | some v, rest => some (String.ofList v, rest)
  | none, [] => none
  | none, v :: rest =>
    match Arg.ofString v with
    | .plain _ => some (v, rest)
    | _ => none

theorem length_of_optionValue {attached : Option (List Char)} {rest rest' : List String}
    {v : String} (h : optionValue attached rest = some (v, rest')) :
    rest'.length ≤ rest.length := by
  unfold optionValue at h
  split at h
  · simp only [Option.some.injEq, Prod.mk.injEq] at h
    simp [← h.2]
  · cases h
  · split at h
    · simp only [Option.some.injEq, Prod.mk.injEq] at h
      simp [← h.2]
    · cases h

namespace PageOptions

/-- Takes the value of an option that has one; the count only once. -/
def take (o : PageOptions) (name : List Char) (value : String) : Option PageOptions :=
  if name = "filter".toList then some { o with filters := o.filters ++ [value] }
  else if name = "sort".toList then some { o with sorts := o.sorts ++ [value] }
  else if name = "count".toList ∧ o.count = none then
    (word? value).map fun n => { o with count := some n }
  else none

/-- Sets a switch that is not set yet. -/
def switch (o : PageOptions) (name : List Char) : Option PageOptions :=
  if name = "continuation".toList ∧ !o.isContinuation then some { o with isContinuation := true }
  else if name = "include-urls".toList ∧ !o.includeUrls then some { o with includeUrls := true }
  else none

/-- The names of the options that have a value. -/
def valued : List (List Char) :=
  ["filter".toList, "sort".toList, "count".toList]

/-- Reads options behind those already read. -/
def parse (o : PageOptions) : List String → Except Stop PageOptions
  | [] => .ok o
  | arg :: args =>
    match Arg.ofString arg with
    | .plain _ => .error .refused
    | .escape => if args = [] then .ok o else .error .refused
    | .long name attached =>
      if name ∈ valued then
        match h : optionValue attached args with
        | none => .error .refused
        | some (value, rest) =>
          have : rest.length ≤ args.length := length_of_optionValue h
          match o.take name value with
          | some o => parse o rest
          | none => .error .refused
      else if attached = none then
        match o.switch name with
        | some o => parse o args
        | none => .error (Arg.long name none).helpOr
      else .error .refused
    | a => .error a.helpOr
termination_by args => args.length

end PageOptions

namespace Command

/-- A command without options or values. -/
def parseInit : List String → Except Stop Command
  | [] => .ok init
  | arg :: args =>
    match Arg.ofString arg with
    | .escape => if args = [] then .ok init else .error .refused
    | a => .error a.helpOr

/-- The one value of the command; behind `--` it may look like an option. -/
def parseLocator (value : Option Id) (escaped : Bool) : List String → Except Stop Command
  | [] =>
    match value with
    | some i => .ok (locatorStatus i)
    | none => .error .refused
  | arg :: args =>
    match if escaped then Arg.plain arg else Arg.ofString arg with
    | .escape => parseLocator value true args
    | .plain v =>
      match value, int64? v with
      | none, some i => parseLocator (some i) escaped args
      | _, _ => .error .refused
    | a => .error a.helpOr

def ofName (name : String) (args : List String) : Except Stop Command :=
  match name with
  | "init" => parseInit args
  | "justifications" => justifications <$> PageOptions.parse {} args
  | "locator-status" => parseLocator none false args
  | "help" =>
    match args with
    | [] => .error .help
    | [topic] =>
      if topic ∈ ["init", "justifications", "locator-status", "help"] then .error .help
      else .error .refused
    | _ => .error .refused
  | _ => .error .refused

end Command

/-- A command and the file with the settings for it. -/
structure Invocation where
  config : String
  command : Command
deriving DecidableEq, Repr

namespace Invocation

/-- Reads arguments, where the file may have been given already. -/
def parseFrom (config : Option String) : List String → Except Stop Invocation
  | [] => .error .refused
  | arg :: args =>
    let withConfig (attached : Option (List Char)) : Except Stop Invocation :=
      match h : optionValue attached args with
      | some (file, rest) =>
        have : rest.length ≤ args.length := length_of_optionValue h
        if config = none then parseFrom (some file) rest else .error .refused
      | none => .error .refused
    match Arg.ofString arg with
    | .escape => .error .refused
    | .plain name => do
      return ⟨config.getD "warrant.toml", ← Command.ofName name args⟩
    | .long name attached =>
      if name = "config".toList then withConfig attached
      else if name = "version".toList ∧ attached = none then .error .help
      else .error (Arg.long name attached).helpOr
    | .short 'c' [] => withConfig none
    | .short 'c' ('=' :: file) => withConfig (some file)
    | .short 'c' file => withConfig (some file)
    | .short 'V' _ => .error .help
    | a => .error a.helpOr
termination_by args => args.length

/-- Reads the arguments of the program. -/
def parse (args : List String) : Except Stop Invocation :=
  parseFrom none args

end Invocation

/-! ## Running -/

/-- What a run shows. -/
structure Outcome where
  exit : Nat
  output : Option Json := none
  error : Option String := none
  causes : List String := []
  warnings : List Warning := []

namespace Outcome

def printed (j : Json) : Outcome :=
  { exit := 0, output := some j }

def failed (error : String) (causes : List String) : Outcome :=
  { exit := 1, error := some error, causes }

/-- The outcome of reading the arguments alone. -/
def ofStop : Stop → Outcome
  | .help => { exit := 0 }
  | .refused => { exit := 2 }

/-- The outcome of asking a store for something. -/
def ofLogged {α : Type} [JsonForm α] (context : String) (x : Logged α) : Outcome :=
  let o := match x.result with
    | .ok a => printed (JsonForm.toJson a)
    | .error fault => failed context fault.causes
  { o with warnings := x.warnings }

end Outcome

/-- Adds arguments to a request one by one, up to the first that is refused. -/
def addArgs (option : String) (add : Request → List String → Except Fault Request) (r : Request) :
    List String → Except Outcome Request
  | [] => .ok r
  | arg :: args =>
    match add r [arg] with
    | .ok r => addArgs option add r args
    | .error fault =>
      .error (.failed ("bad --" ++ option ++ " " ++ quoted arg) [fault.text])

/-- The request for a page. -/
def PageOptions.request (o : PageOptions) (s : Settings) : Except Outcome Request := do
  let r : Request := { count := o.count.getD s.defaultCount }
  let r ← addArgs "filter" Request.withFilterArgs r o.filters
  let r ← addArgs "sort" Request.withSortArgs r o.sorts
  return { r with
    isContinuation := o.isContinuation
    includeUrls := o.includeUrls || s.includeUrls }

/-- Does what a command asks for. -/
def Command.run (c : Command) (s : Settings) (db : Store) : Outcome :=
  match c with
  | .init => { exit := 0 }
  | .justifications o =>
    match o.request s with
    | .error outcome => outcome
    | .ok r => .ofLogged "failed to read justifications" (db.read r.plan r)
  | .locatorStatus i =>
    .ofLogged ("failed to read status of url locator " ++ ofInt64 i) (db.locatorStatus i)

/-- Runs the program on its arguments, a file with settings, an environment and
    a store. -/
def run (args : List String) (file : Option String) (env : List (String × String))
    (db : Store) : Outcome :=
  match Invocation.parse args with
  | .error stop => .ofStop stop
  | .ok invocation =>
    match Settings.load file env with
    | .error fault => .failed fault.text []
    | .ok settings => invocation.command.run settings db

end Rationale
