/-
  Rationale — filling in the justifications of a page.

  What an index knows by id alone is filled in from `Lookups`.  From each
  justification of the page a walk goes along targets through the index; its
  justifications are filled in (`hydrate`) from the page on, and then nested
  into each other as targets (`nest`) from the far end back.

  * a justification that lacks what it names is a fault, and so is a walk that
    comes back to itself;
  * `checked` looks at each justification once its target is in it: targets
    that lead to a shared media excerpt must lead to the one in the lookups,
    and a broken polarity rule gives a warning;
  * counters go to the page alone, and keep their target as an id.
-/
import Rationale.Index

namespace Rationale

/-- What was looked up for a page. -/
structure Lookups where
  propositions : Id → Option Proposition
  statements : Id → Option Statement
  mediaExcerpts : Id → Option MediaExcerpt
  users : Id → Option UserBlurb
  /-- The URLs of writ quotes, if they were asked for. -/
  writQuoteUrls : Option (Id → List WritQuoteUrl)
  /-- Media excerpts with the members of their chains. -/
  chains : List (Id × List Id)

namespace Lookups

variable (l : Lookups)

/-- The media excerpt to whose chain a justification belongs. -/
def sharedExcerpt? (i : Id) : Option Id :=
  ((l.chains.filter fun (_, members) => i ∈ members).map (·.1)).max?

/-! ## Filling in -/

/-- The entity of that kind under the id `i`, which has to be there. -/
def required {α : Type} (kind : EntityKind) (i : Id) : Option α → Except Fault α
  | some a => .ok a
  | none => .error (.integrity (.notLoaded kind i))

def proposition (p : Relation Proposition) : Except Fault (Relation Proposition) :=
  let i := p.id (·.id)
  .entity <$> required .proposition i (l.propositions i)

def statement (s : Relation Statement) : Except Fault (Relation Statement) :=
  let i := s.id (·.id)
  .entity <$> required .statement i (l.statements i)

def target : Target → Except Fault Target
  | .proposition p => .proposition <$> l.proposition p
  | .statement s => .statement <$> l.statement s
  | .justification j => .ok (.justification j)

def rootTarget : RootTarget → Except Fault RootTarget
  | .proposition p => .proposition <$> l.proposition p
  | .statement s => .statement <$> l.statement s

/-- A media excerpt that a paraphrase restates, if it is there. -/
def excerpt : SourceExcerpt → SourceExcerpt
  | .mediaExcerpt (.ref i) => .mediaExcerpt (.ofLookup i (l.mediaExcerpts i))
  | e => e

def atom (a : BasisAtom) : BasisAtom :=
  match a.entity with
  | .sourceExcerptParaphrase (.entity p) =>
    { a with
      entity := .sourceExcerptParaphrase (.entity { p with excerpt := l.excerpt p.excerpt }) }
  | _ => a

/-- A quote with its URLs, if they were asked for. -/
def quote (q : WritQuote) : WritQuote :=
  match l.writQuoteUrls with
  | some urls => { q with urls := some (urls q.id) }
  | none => q

def basis : Basis → Except Fault Basis
  | .mediaExcerpt (.ref i) =>
    (.mediaExcerpt <| .entity ·) <$> required .mediaExcerpt i (l.mediaExcerpts i)
  | .writQuote (.entity q) => .ok (.writQuote (.entity (l.quote q)))
  | .justificationBasisCompound (.entity c) =>
    .ok (.justificationBasisCompound (.entity { c with atoms := c.atoms.map l.atom }))
  | b => .ok b

def creator (u : Relation UserBlurb) : Except Fault (Relation UserBlurb) :=
  let i := u.id (·.id)
  .entity <$> required .user i (l.users i)

/-- The justification with all filled in that it names, but for a
    justification that is its target. -/
def hydrate (j : Justification) : Except Fault Justification := do
  let target ← l.target j.target
  let rootTarget ← l.rootTarget j.rootTarget
  let basis ← l.basis j.basis
  let creator ← l.creator j.creator
  return { j with target, rootTarget, basis, creator }

/-! ## Checking -/

/-- Targets that lead to a shared media excerpt reach the one looked up. -/
def reaches (j : Justification) (e : Id) : Bool :=
  (l.mediaExcerpts e).isSome && j.reachedExcerpt?.any (·.id = e)

/-- The justification, once it has been found in order. -/
def checked (j : Justification) : Logged Justification := do
  match l.sharedExcerpt? j.id with
  | some e => if !l.reaches j e then Logged.fail (.integrity (.excerptNotReached j.id e))
  | none => pure ()
  Logged.warn j.polarityWarnings
  return j

/-- Nests each justification into the one before it, as its target. -/
def nest : Justification → List Justification → Logged Justification
  | j, [] => l.checked j
  | j, t :: ts => do
    let target ← nest t ts
    l.checked { j with target := .justification (.entity target) }

end Lookups

/-! ## Assembling -/

namespace Index

variable (ix : Index) (l : Lookups)

/-- The target that is still to be filled in. -/
def openTarget? (j : Justification) : Option Id :=
  match j.target with
  | .justification (.ref i) => some i
  | _ => none

/-- The walk from `i` along targets. -/
def targetWalk (i : Id) : Graph.Walk Id :=
  Graph.walk (fun k => (ix.node? k).bind openTarget?) ix.ids i

/-- The node `i` filled in, with its target still as it is in the index. -/
def shell (i : Id) : Except Fault Justification :=
  match ix.node? i with
  | some j => l.hydrate j
  | none => .error (.integrity (.notInIndex i))

/-- The walk has to end, or be left for a node that is not in the index; the
    latter gives a warning. -/
def leave (w : Graph.Walk Id) : Logged Unit :=
  match w.path.getLast?, w.exit with
  | some last, some i =>
    if i ∈ ix.ids then Logged.fail (.integrity (.targetCycle i w.path))
    else Logged.warn [.targetNotLoaded last i]
  | _, _ => pure ()

/-- The node `i`, with all its targets nested in it. -/
def assembleNode (i : Id) : Logged Justification := do
  let w := ix.targetWalk i
  match ← Logged.ofExcept (w.path.mapM (ix.shell l)) with
  | [] => Logged.fail (.integrity (.notInIndex i))
  | j :: targets =>
    ix.leave w
    l.nest j targets

/-- The node `i` as a counter. -/
def assembleCounter (i : Id) : Logged Justification := do
  let j ← Logged.ofExcept (ix.shell l i)
  Logged.warn j.polarityWarnings
  return j

/-- The node `i` of the page, with its counters. -/
def assembleWithCounters (i : Id) : Logged Justification := do
  let j ← ix.assembleNode l i
  let counters ← (ix.countersOf i).mapM fun c => ix.assembleCounter l c.id
  return { j with counters }

/-- The page, in its order. -/
def assemble : Logged (List Justification) :=
  ix.page.mapM fun j => ix.assembleWithCounters l j.id

end Index

end Rationale
