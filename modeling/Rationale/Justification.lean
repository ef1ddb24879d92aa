/-
  Rationale — justifications.

  A justification offers a basis for or against a target.  The target is a
  proposition, a statement, or another justification, which is then countered.
  Every justification belongs to one root, the proposition or statement that
  its targets lead to, and has a polarity towards its target and one towards
  its root.

  * `Justification.chain` is the justification followed by the justifications
    nested in it as targets;
  * `polarityViolation` checks the polarities of one justification against its
    target; `polarityViolation_eq_none_iff_of_counter` says what it accepts.
-/
import Rationale.Entity

namespace Rationale

open Time

/-! ## Bases, targets and roots -/

/-- What a justification rests on. -/
inductive Basis where
  | propositionCompound (c : Relation PropositionCompound)
  | writQuote (q : Relation WritQuote)
  | mediaExcerpt (e : Relation MediaExcerpt)
  | justificationBasisCompound (c : Relation BasisCompound)
deriving DecidableEq, Repr

namespace Basis

def type : Basis → BasisType
  | propositionCompound _ => .propositionCompound
  | writQuote _ => .writQuote
  | mediaExcerpt _ => .mediaExcerpt
  | justificationBasisCompound _ => .justificationBasisCompound

def id : Basis → Id
  | propositionCompound c => c.id (·.id)
  | writQuote q => q.id (·.id)
  | mediaExcerpt e => e.id (·.id)
  | justificationBasisCompound c => c.id (·.id)

/-- The media excerpt that is the basis, if it is one. -/
def mediaExcerptId? : Basis → Option Id
  | mediaExcerpt e => some (e.id (·.id))
  | _ => none

end Basis

/-- What a justification of the kind `ι` supports or opposes. -/
inductive TargetOf (ι : Type) where
  | proposition (p : Relation Proposition)
  | statement (s : Relation Statement)
  | justification (j : Relation ι)

/-- The proposition or statement that a line of targets ends at. -/
inductive RootTarget where
  | proposition (p : Relation Proposition)
  | statement (s : Relation Statement)

namespace RootTarget

def type : RootTarget → RootTargetType
  | proposition _ => .proposition
  | statement _ => .statement

def id : RootTarget → Id
  | proposition p => p.id (·.id)
  | statement s => s.id (·.id)

end RootTarget

/-! ## Justifications -/

structure Justification where
  id : Id
  rootTarget : RootTarget
  rootPolarity : Polarity
  target : TargetOf Justification
  basis : Basis
  polarity : Polarity
  creator : Relation UserBlurb
  created : Instant
  /-- The justifications that target this one, the oldest first. -/
  counters : List Justification

abbrev Target : Type :=
  TargetOf Justification

namespace TargetOf

def type {ι : Type} : TargetOf ι → TargetType
  | .proposition _ => .proposition
  | .statement _ => .statement
  | .justification _ => .justification

def id : TargetOf Justification → Id
  | .proposition p => p.id (·.id)
  | .statement s => s.id (·.id)
  | .justification j => j.id (·.id)

/-- The justification that is the target, if it is one. -/
def justificationId? : TargetOf Justification → Option Id
  | .justification j => some (j.id (·.id))
  | _ => none

end TargetOf

namespace Justification

/-- The justification counters another one. -/
def isCounter (j : Justification) : Bool :=
  j.target.type = .justification

/-- The justification, its target if that is a justification at hand, the
    target of that one, and so on. -/
def chain : Justification → List Justification
  | j@⟨_, _, _, .justification (.entity t), _, _, _, _, _⟩ => j :: t.chain
  | j => [j]

/-- The first media excerpt at hand that is a basis on the chain. -/
def reachedExcerpt? (j : Justification) : Option MediaExcerpt :=
  j.chain.findSome? fun
    | { basis := .mediaExcerpt (.entity e), .. } => some e
    | _ => none

/-! ## Polarity -/

/-- The rule about polarities that the justification breaks.  A target that is
    not at hand is checked as far as it can be. -/
def polarityViolation (j : Justification) : Option PolarityViolation :=
  match j.target with
  | .proposition _ | .statement _ =>
    if j.rootPolarity = j.polarity then none else some .rootMismatch
  | .justification target =>
    if j.polarity ≠ .negative then some .nonNegativeCounter
    else
      match target with
      | .entity countered =>
        if j.rootPolarity = countered.rootPolarity.negate then none
        else some .unnegatedRootPolarity
      | .ref _ => none

/-- The warning that the justification breaks a rule. -/
def polarityWarnings (j : Justification) : List Warning :=
  match j.polarityViolation with
  | some v => [.polarity j.id v]
  | none => []

theorem polarityViolation_eq_none_iff_of_counter {j t : Justification}
    (h : j.target = .justification (.entity t)) :
    j.polarityViolation = none ↔
      j.polarity = .negative ∧ j.rootPolarity = t.rootPolarity.negate := by
  simp only [polarityViolation, h]
  by_cases hn : j.polarity = .negative <;> by_cases hr : j.rootPolarity = t.rootPolarity.negate <;>
    simp [hn, hr]

theorem polarityViolation_eq_none_iff_of_not_counter {j : Justification}
    (h : j.isCounter = false) : j.polarityViolation = none ↔ j.rootPolarity = j.polarity := by
  simp only [isCounter, TargetOf.type] at h
  simp only [polarityViolation]
  split <;> simp_all

end Justification

end Rationale
