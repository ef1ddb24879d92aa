/-
  Rationale — the JSON form of justifications.

  A justification is a record with its target and its counters nested in it, to
  any depth.
-/
import Rationale.Json.Entity
import Rationale.Justification

namespace Rationale

open Json JsonForm

instance : JsonForm Basis where
  toJson
    | .propositionCompound c => tagged "type" "PROPOSITION_COMPOUND" (toJson c)
    | .writQuote q => tagged "type" "WRIT_QUOTE" (toJson q)
    | .mediaExcerpt e => tagged "type" "MEDIA_EXCERPT" (toJson e)
    | .justificationBasisCompound c => tagged "type" "JUSTIFICATION_BASIS_COMPOUND" (toJson c)
  ofJson? j := do
    match ← j.union? "type" with
    | ("PROPOSITION_COMPOUND", v) => .propositionCompound <$> ofJson? v.1
    | ("WRIT_QUOTE", v) => .writQuote <$> ofJson? v.1
    | ("MEDIA_EXCERPT", v) => .mediaExcerpt <$> ofJson? v.1
    | ("JUSTIFICATION_BASIS_COMPOUND", v) => .justificationBasisCompound <$> ofJson? v.1
    | _ => none

instance : JsonForm RootTarget where
  toJson
    | .proposition p => tagged "type" "PROPOSITION" (toJson p)
    | .statement s => tagged "type" "STATEMENT" (toJson s)
  ofJson? j := do
    match ← j.union? "type" with
    | ("PROPOSITION", v) => .proposition <$> ofJson? v.1
    | ("STATEMENT", v) => .statement <$> ofJson? v.1
    | _ => none

namespace TargetOf

variable {ι : Type}

def toJsonWith (toJson : ι → Json) : TargetOf ι → Json
  | proposition p => tagged "type" "PROPOSITION" (JsonForm.toJson p)
  | statement s => tagged "type" "STATEMENT" (JsonForm.toJson s)
  | justification j => tagged "type" "JUSTIFICATION" (j.toJsonWith toJson)

/-- A target whose justification is read by `read`. -/
def ofJsonWith? (j : Json) (read : Within j → Option ι) : Option (TargetOf ι) := do
  match ← j.union? "type" with
  | ("PROPOSITION", v) => proposition <$> JsonForm.ofJson? v.1
  | ("STATEMENT", v) => statement <$> JsonForm.ofJson? v.1
  | ("JUSTIFICATION", v) => justification <$> Relation.ofJsonWith? v.1 fun t => read (v.inner t)
  | _ => none

end TargetOf

namespace Justification

def toJson : Justification → Json
  | ⟨id, rootTarget, rootPolarity, target, basis, polarity, creator, created, counters⟩ =>
    .obj [("id", JsonForm.toJson id), ("root_target", JsonForm.toJson rootTarget),
      ("root_polarity", JsonForm.toJson rootPolarity),
      ("target",
        match target with
        | .justification (.entity t) =>
          tagged "type" "JUSTIFICATION" (tagged "kind" "entity" t.toJson)
        | .justification (.ref i) =>
          tagged "type" "JUSTIFICATION" (tagged "kind" "ref" (JsonForm.toJson i))
        | .proposition p => tagged "type" "PROPOSITION" (JsonForm.toJson p)
        | .statement s => tagged "type" "STATEMENT" (JsonForm.toJson s)),
      ("basis", JsonForm.toJson basis), ("polarity", JsonForm.toJson polarity),
      ("creator", JsonForm.toJson creator), ("created", JsonForm.toJson created),
      ("counter_justifications", .arr (counters.attach.map fun ⟨c, _⟩ => c.toJson))]
termination_by j => sizeOf j

/-- The target is written as any target is. -/
theorem toJson_eq (j : Justification) :
    j.toJson =
      .obj [("id", JsonForm.toJson j.id), ("root_target", JsonForm.toJson j.rootTarget),
        ("root_polarity", JsonForm.toJson j.rootPolarity),
        ("target", j.target.toJsonWith toJson), ("basis", JsonForm.toJson j.basis),
        ("polarity", JsonForm.toJson j.polarity), ("creator", JsonForm.toJson j.creator),
        ("created", JsonForm.toJson j.created),
        ("counter_justifications", .arr (j.counters.map toJson))] := by
  rcases j with ⟨_, _, _, _ | _ | (_ | _), _, _, _, _, _⟩ <;> rw [toJson] <;>
    simp only [List.map_attach_eq_pmap, List.pmap_eq_map] <;> rfl

def ofJson? (j : Json) : Option Justification := do
  let p ← j.parts? ["id", "root_target", "root_polarity", "target", "basis", "polarity", "creator",
    "created", "counter_justifications"]
  let t ← p.lookup "target"
  let cs ← p.lookup "counter_justifications"
  return {
    id := ← p.get? "id"
    rootTarget := ← p.get? "root_target"
    rootPolarity := ← p.get? "root_polarity"
    target := ← TargetOf.ofJsonWith? t.1 fun v => ofJson? v.1
    basis := ← p.get? "basis"
    polarity := ← p.get? "polarity"
    creator := ← p.get? "creator"
    created := ← p.get? "created"
    counters := ← (← cs.1.elements?).mapM fun v => ofJson? v.1 }
termination_by sizeOf j
decreasing_by
  · exact (t.inner v).2
  · exact (cs.inner v).2

end Justification

instance : JsonForm Justification := ⟨Justification.toJson, Justification.ofJson?⟩

instance : JsonForm Target where
  toJson := TargetOf.toJsonWith toJson
  ofJson? j := TargetOf.ofJsonWith? j fun v => ofJson? v.1

end Rationale
