/-
  Rationale — composing queries from parts.

  A query under construction is a computation that binds arguments on the way
  and returns text.  An argument gets the next number (`bind`); a fragment that
  is embedded (`splice`) has its placeholders moved behind the arguments bound
  so far.

  How an argument shows in the text is a matter of `Style`.  A query is sent
  with a placeholder for each argument (`numbered`), and it means what it is
  with the arguments themselves in their places (`inPlace`).

  * `Composing.fragment` ends the construction;
  * `bind_run`, `splice_run` say what one step returns and binds.
-/
import Rationale.Sql.Fragment

namespace Rationale.Sql

/-- The placeholder of argument number `n`. -/
def placeholder (n : Nat) : String :=
  "?" ++ n.repr

/-! ## Styles -/

/-- How arguments show in the text of a query. -/
structure Style where
  /-- An argument with its number. -/
  argument : Nat → Value → String
  /-- A fragment behind a number of other arguments. -/
  embedded : Nat → Fragment → String

/-- Arguments show as placeholders. -/
def Style.numbered : Style where
  argument n _ := placeholder n
  embedded n f := renumber f.sql n

/-- Arguments show as themselves, as `ρ` writes them. -/
def Style.inPlace (ρ : Value → String) : Style where
  argument _ v := ρ v
  embedded _ f := f.inPlace ρ

/-- A computation that binds arguments. -/
abbrev Composing (α : Type) : Type :=
  ReaderT Style (StateM (List Value)) α

namespace Composing

variable {α : Type}

/-- Binds an argument and returns what shows it. -/
def bind (v : Value) : Composing String := fun style args =>
  (style.argument (args.length + 1) v, args ++ [v])

/-- Binds a list of arguments and returns what shows them, separated by commas. -/
def bindAll (vs : List Value) : Composing String := do
  return ", ".intercalate (← vs.mapM bind)

/-- Embeds a fragment. -/
def splice (f : Fragment) : Composing String := fun style args =>
  (style.embedded args.length f, args ++ f.args)

/-- The text that a construction returns, with the arguments that it bound. -/
def fragment (c : Composing String) : Fragment :=
  let (sql, args) := (c.run .numbered).run []
  ⟨sql, args⟩

/-- The text that a construction returns with the arguments in their places. -/
def inPlace (ρ : Value → String) (c : Composing String) : String :=
  ((c.run (.inPlace ρ)).run []).1

theorem bind_run (v : Value) (style : Style) (args : List Value) :
    ((bind v).run style).run args = (style.argument (args.length + 1) v, args ++ [v]) := rfl

theorem splice_run (f : Fragment) (style : Style) (args : List Value) :
    ((splice f).run style).run args = (style.embedded args.length f, args ++ f.args) := rfl

end Composing

/-! ## Steps given as data -/

/-- A step of a construction. -/
inductive Step where
  | bind (v : Value)
  | bindAll (vs : List Value)
  | splice (f : Fragment)

def Step.run : Step → Composing String
  | bind v => Composing.bind v
  | bindAll vs => Composing.bindAll vs
  | splice f => Composing.splice f

/-- The text that each step returns, and all arguments that they bound. -/
def runSteps (steps : List Step) : List String × List Value :=
  ((steps.mapM Step.run).run .numbered).run []

end Rationale.Sql
