/-
  Rationale — what a read leaves to chance.

  A database returns rows in the order that a statement asks for, and rows that
  tie as it comes across them.  That depends on the plan that it makes for the
  statement.  A read evaluates the query of its page six times, in four
  statements with a plan for each, and where a page is cut short among rows that
  tie, these need not find the same justifications.  Of the compounds that rows
  tell of, it depends on a hash function which is looked at first.

  Nothing is promised about either.  So a read is given a `Chance`, which has an
  order for all of this, and what is said about reads is said for every chance.

  * `Chance.level`: what ties comes in one order throughout.
-/
import Rationale.Vocabulary

namespace Rationale

/-- The order in which things with ids come: those of lower rank first. -/
abbrev Rank : Type :=
  Id → Int

/-- Things come in the order of their table. -/
def Rank.asStored : Rank :=
  fun _ => 0

/-- Things come with their ids descending. -/
def Rank.backwards : Rank :=
  fun i => -i.toInt

/-- What the query of a page is evaluated for. -/
inductive Use where
  /-- The justifications of the page. -/
  | page
  /-- Their order, once they have been joined with their bases. -/
  | listing
  /-- The justifications from which targets are followed. -/
  | targets
  /-- The justifications whose counters are found. -/
  | counters
  /-- The justifications whose targets are read, if these are propositions. -/
  | targetPropositions
  /-- The same for their roots. -/
  | rootPropositions
deriving DecidableEq, Repr

/-- The orders in which compounds are looked at. -/
structure Hashing where
  compounds : Rank
  mixed : Rank

/-- Compounds are looked at in the order in which rows tell of them. -/
def Hashing.asTold : Hashing :=
  ⟨.asStored, .asStored⟩

structure Chance where
  /-- The order in which an evaluation comes across rows. -/
  found : Use → Rank
  /-- How the compounds are hashed that belong to what it finds. -/
  hashed : Use → Hashing

/-- All evaluations come across rows in one order. -/
def Chance.level (ρ : Rank) : Chance :=
  ⟨fun _ => ρ, fun _ => .asTold⟩

end Rationale
