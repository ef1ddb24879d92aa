/-
  Rationale — from rows to justifications.

  Rows repeat: a justification comes once for each atom of its basis, and an
  atom may come more than once.  `Gathered` holds what the rows have told so
  far, and of everything that has an id only what was told first.

  * `reconstruct` gives each justification once, in the order of their first
    rows, with the compounds and quotes that they rest on; all else is left as
    ids;
  * compounds are finished in the order in which they are hashed, and the first
    that cannot be is the fault that is told;
  * the atoms of a compound are in the order of their positions;
  * an atom whose entity is not live is left out.
-/
import Rationale.Resolution
import Rationale.Store.Joined

namespace Rationale

open Time

/-! ## Decoding -/

def PropositionRow.decode (r : PropositionRow) : Except Fault Proposition :=
  return ⟨r.id, r.text, r.creatorId, ← Instant.decode r.created⟩

/-- A quote with its writ; its URLs are not part of it yet. -/
def JoinedQuote.decode (q : JoinedQuote) : Except Fault WritQuote :=
  return {
    id := q.quote.id
    quoteText := q.quote.quoteText
    writ := ⟨q.quote.writId, q.writTitle⟩
    creatorId := q.quote.creatorId
    created := ← Instant.decode q.quote.created
    urls := none }

def JoinedParaphrase.decode (p : JoinedParaphrase) : Except Fault SourceExcerptParaphrase := do
  let proposition ← p.proposition.mapM PropositionRow.decode
  let type ← Coded.decode p.excerptType
  let quote ← p.quote.mapM JoinedQuote.decode
  return {
    id := p.id
    proposition := .ofLookup p.propositionId proposition
    excerpt := .resolve type p.excerptId quote fun _ => none }

/-- An atom of that type, unless its entity is missing. -/
def JoinedAtom.decode (a : JoinedAtom) (type : AtomType) : Except Fault (Option BasisAtom) :=
  match type with
  | .proposition =>
    a.proposition.mapM fun p =>
      return ⟨a.id, .proposition (.entity (← p.decode)), a.orderPosition⟩
  | .sourceExcerptParaphrase =>
    a.paraphrase.mapM fun p =>
      return ⟨a.id, .sourceExcerptParaphrase (.entity (← p.decode)), a.orderPosition⟩

/-- A justification whose relations are all ids. -/
def JustificationRow.decode (r : JustificationRow) : Except Fault Justification := do
  let rootTargetType ← Coded.decode r.rootTargetType
  let rootPolarity ← Coded.decode r.rootPolarity
  let targetType ← Coded.decode r.targetType
  let basisType ← Coded.decode r.basisType
  let polarity ← Coded.decode r.polarity
  let created ← Instant.decode r.created
  return {
    id := r.id
    rootTarget := .resolve {} rootTargetType r.rootTargetId
    rootPolarity
    target := .resolve {} targetType r.targetId
    basis := .resolve {} basisType r.basisId
    polarity
    creator := .ref r.creatorId
    created
    counters := [] }

/-! ## Gathering -/

/-- An atom with the id of its compound and the entity that it stands for. -/
structure GatheredAtom where
  compoundId : Id
  type : AtomType
  entityId : Id
  atom : BasisAtom

/-- What rows have told, in the order in which they did. -/
structure Gathered where
  justifications : List Justification := []
  compounds : List CompoundRow := []
  compoundAtoms : List (Id × CompoundAtom) := []
  quotes : List WritQuote := []
  mixed : List CompoundRow := []
  mixedAtoms : List GatheredAtom := []

namespace Gathered

def addJustification (g : Gathered) (r : JustificationRow) : Except Fault Gathered := do
  if g.justifications.any (·.id = r.id) then return g
  return { g with justifications := g.justifications ++ [← r.decode] }

def addCompound (g : Gathered) (c : CompoundRow) : Gathered :=
  if g.compounds.any (·.id = c.id) then g
  else { g with compounds := g.compounds ++ [c] }

def addCompoundAtom (g : Gathered) (compound : Id) (position : Int64) (r : PropositionRow) :
    Except Fault Gathered := do
  if g.compoundAtoms.any fun (c, a) => c = compound && a.proposition.id = r.id then return g
  let p ← r.decode
  return { g with compoundAtoms := g.compoundAtoms ++ [(compound, ⟨p, position⟩)] }

def addQuote (g : Gathered) (q : JoinedQuote) : Except Fault Gathered := do
  if g.quotes.any (·.id = q.quote.id) then return g
  return { g with quotes := g.quotes ++ [← q.decode] }

def addMixed (g : Gathered) (c : CompoundRow) : Gathered :=
  if g.mixed.any (·.id = c.id) then g
  else { g with mixed := g.mixed ++ [c] }

def addMixedAtom (g : Gathered) (compound : Id) (a : JoinedAtom) : Except Fault Gathered := do
  let type : AtomType ← Coded.decode a.entityType
  if g.mixedAtoms.any fun m => m.compoundId = compound && m.type = type && m.entityId = a.entityId
  then return g
  match ← a.decode type with
  | none => return g
  | some atom =>
    return { g with mixedAtoms := g.mixedAtoms ++ [⟨compound, type, a.entityId, atom⟩] }

/-- Adds what a row tells of the proposition compound of its basis. -/
def addCompoundOf (g : Gathered) (r : JoinedRow) : Except Fault Gathered :=
  match r.compound, r.compoundAtom with
  | none, _ => return g
  | some c, none => return g.addCompound c
  | some c, some (position, p) => (g.addCompound c).addCompoundAtom c.id position p

/-- Adds what a row tells of the mixed compound of its basis. -/
def addMixedOf (g : Gathered) (r : JoinedRow) : Except Fault Gathered :=
  match r.mixed, r.mixedAtom with
  | none, _ => return g
  | some c, none => return g.addMixed c
  | some c, some a => (g.addMixed c).addMixedAtom c.id a

/-- Adds all that a row tells. -/
def add (g : Gathered) (r : JoinedRow) : Except Fault Gathered := do
  let g ← g.addJustification r.justification
  let g ← g.addCompoundOf r
  let g ← match r.quote with
    | none => pure g
    | some q => g.addQuote q
  g.addMixedOf r

/-! ## Finishing -/

/-- The lower position, or of two at one position the lower proposition. -/
def atomOrder (a b : CompoundAtom) : Bool :=
  a.orderPosition < b.orderPosition ||
    (a.orderPosition = b.orderPosition && a.proposition.id ≤ b.proposition.id)

/-- The lower position, or of two at one position the lower atom. -/
def mixedAtomOrder (a b : BasisAtom) : Bool :=
  a.orderPosition < b.orderPosition || (a.orderPosition = b.orderPosition && a.id ≤ b.id)

def compound (g : Gathered) (c : CompoundRow) : Except Fault PropositionCompound :=
  return {
    id := c.id
    creatorId := c.creatorId
    created := ← Instant.decode c.created
    atoms := ((g.compoundAtoms.filter (·.1 = c.id)).map (·.2)).mergeSort atomOrder }

def mixedCompound (g : Gathered) (c : CompoundRow) : Except Fault BasisCompound :=
  return {
    id := c.id
    creatorId := c.creatorId
    created := ← Instant.decode c.created
    atoms := ((g.mixedAtoms.filter (·.compoundId = c.id)).map (·.atom)).mergeSort mixedAtomOrder }

/-- Compounds in the order in which they are looked at. -/
def hashed (ρ : Rank) (cs : List CompoundRow) : List CompoundRow :=
  cs.mergeSort fun c d => ρ c.id ≤ ρ d.id

/-- The justifications, on the bases that the rows have told of. -/
def finish (h : Hashing) (g : Gathered) : Except Fault (List Justification) := do
  let compounds ← (hashed h.compounds g.compounds).mapM g.compound
  let mixed ← (hashed h.mixed g.mixed).mapM g.mixedCompound
  let lookups : BasisLookups := {
    propositionCompounds := fun i => compounds.find? (·.id = i)
    writQuotes := fun i => g.quotes.find? (·.id = i)
    basisCompounds := fun i => mixed.find? (·.id = i) }
  return g.justifications.map fun j =>
    { j with basis := .resolve lookups j.basis.type j.basis.id }

end Gathered

/-- The justifications that rows tell of. -/
def reconstruct (h : Hashing) (rows : List JoinedRow) : Except Fault (List Justification) := do
  (← rows.foldlM Gathered.add {}).finish h

end Rationale
