/-
  Rationale — the justifications that a page touches.

  An `Index` holds the page, the justifications to which its targets lead, and
  those that counter it.  A justification that is in more than one of these
  lists is taken from the first.

  The chain of a media excerpt are the justifications whose targets lead to it.
  From each justification a walk goes along targets to the first media excerpt
  that is a basis, if there is one (`excerptOf?`), and puts all that it passed
  into the chain of that excerpt.

  * `chains` lists the chains, and `walkWarnings` the walks that were abandoned
    or came round to where they had been;
  * `paraphrasedExcerptIds`, `statementIds`, `creatorIds` and `writQuoteIds`
    are what has to be looked up to fill the justifications in.
-/
import Rationale.Ascending
import Rationale.Graph.Walk
import Rationale.Justification

namespace Rationale

/-- The media excerpt of an atom that is known by its id alone. -/
def BasisAtom.excerptId? (a : BasisAtom) : Option Id :=
  match a.entity with
  | .sourceExcerptParaphrase (.entity { excerpt := .mediaExcerpt (.ref i), .. }) => some i
  | _ => none

structure Index where
  page : List Justification
  targets : List Justification
  counters : List Justification

namespace Index

variable (ix : Index)

/-! ## Nodes -/

def justifications : List Justification :=
  ix.page ++ ix.targets ++ ix.counters

def node? (i : Id) : Option Justification :=
  ix.justifications.find? (·.id = i)

/-- The ids of all nodes. -/
def ids : List Id :=
  ascending (ix.justifications.map (·.id))

/-- The nodes, each once. -/
def nodes : List Justification :=
  ix.ids.filterMap ix.node?

/-- The justifications that counter the node `i`. -/
def countersOf (i : Id) : List Justification :=
  ix.counters.filter (·.target.id = i)

theorem node?_isSome_iff {ix : Index} {i : Id} : (ix.node? i).isSome = true ↔ i ∈ ix.ids := by
  simp [node?, ids]

theorem id_of_node? {ix : Index} {i : Id} {j : Justification} (h : ix.node? i = some j) :
    j.id = i := by
  simpa using List.find?_some h

/-! ## Chains of media excerpts -/

/-- Where a walk that looks for a media excerpt goes on. -/
def afterBasis? (j : Justification) : Option Id :=
  if j.basis.type = .mediaExcerpt then none else j.target.justificationId?

/-- The walk from `i` to the first media excerpt. -/
def excerptWalk (i : Id) : Graph.Walk Id :=
  Graph.walk (fun k => (ix.node? k).bind afterBasis?) ix.ids i

/-- The media excerpt to which targets lead from `i`. -/
def excerptOf? (i : Id) : Option Id := do
  let last ← (ix.excerptWalk i).path.getLast?
  let j ← ix.node? last
  j.basis.mediaExcerptId?

/-- The walks that come to the media excerpt `e`, by where they start. -/
def startsOf (e : Id) : List Id :=
  ix.ids.filter fun i => ix.excerptOf? i = some e

/-- Each media excerpt that a walk comes to, with the members of its chain: all
    that is passed on the walks to it. -/
def chains : List (Id × List Id) :=
  (ascending (ix.ids.filterMap ix.excerptOf?)).map fun e =>
    (e, ascending ((ix.startsOf e).flatMap fun i => (ix.excerptWalk i).path))

/-- The warnings about the walk from `i`. -/
def walkWarningsFrom (i : Id) : List Warning :=
  match (ix.excerptWalk i).exit with
  | none => []
  | some k => if k ∈ ix.ids then [.walkLoops i] else [.walkAbandoned i k]

def walkWarnings : List Warning :=
  ix.ids.flatMap ix.walkWarningsFrom

/-! ## What has to be looked up -/

/-- The media excerpts that paraphrases of a mixed basis restate. -/
def paraphrasedExcerptIds : List Id :=
  ascending <| ix.nodes.flatMap fun j =>
    match j.basis with
    | .justificationBasisCompound (.entity c) => c.atoms.filterMap (·.excerptId?)
    | _ => []

/-- The statements that are a target or a root. -/
def statementIds : List Id :=
  ascending <| ix.nodes.flatMap fun j =>
    (if j.target.type = .statement then [j.target.id] else []) ++
      if j.rootTarget.type = .statement then [j.rootTarget.id] else []

def creatorIds : List Id :=
  ascending (ix.nodes.map fun j => j.creator.id (·.id))

/-- The writ quotes at hand that are a basis. -/
def writQuoteIds : List Id :=
  ascending <| ix.nodes.filterMap fun j =>
    match j.basis with
    | .writQuote (.entity q) => some q.id
    | _ => none

end Index

end Rationale
