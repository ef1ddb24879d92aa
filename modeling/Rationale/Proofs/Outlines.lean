/-
  Rationale — reconstruction, one justification at a time.

  The outline of a justification is what reconstruction makes of its own rows:
  the decoded row, with the compound or the quote that it rests on.  Rows of
  other justifications make no difference, although compounds and quotes may
  be shared and are told of over and over.

  * `Store.outline`: a justification, made from its row and its links;
  * `reconstruct_joined`: the rows of many justifications are reconstructed if
    and only if each has an outline, and then to these outlines.
-/
import Rationale.Proofs.Gathering
import Rationale.Proofs.Keys

namespace Rationale

open Gather Time

namespace Store

variable (db : Store)

/-! ## Outlines -/

/-- The live propositions of a compound, with their positions. -/
def compoundPropositions (c : CompoundRow) : List (Int64 × PropositionRow) :=
  (db.propositionAtoms c).filterMap fun a =>
    (db.propositions.row? a.propositionId).map (a.orderPosition, ·)

def compoundOf (c : CompoundRow) : Except Fault PropositionCompound := do
  let atoms ← (db.compoundPropositions c).mapM fun a =>
    (fun p => ⟨p, a.1⟩) <$> PropositionRow.decode a.2
  return {
    id := c.id
    creatorId := c.creatorId
    created := ← Instant.decode c.created
    atoms := atoms.mergeSort Gathered.atomOrder }

/-- The atoms of a mixed compound, the first of each entity. -/
def distinctAtoms (c : CompoundRow) : List BasisAtomRow :=
  firsts (fun a => (a.entityType, a.entityId)) (db.mixedAtoms c)

/-- What an atom stands for, unless that is not live. -/
def atomOf (a : BasisAtomRow) : Except Fault (Option BasisAtom) := do
  (db.joinedAtom a).decode (← Coded.decode a.entityType)

def mixedOf (c : CompoundRow) : Except Fault BasisCompound := do
  let atoms ← (db.distinctAtoms c).mapM db.atomOf
  return {
    id := c.id
    creatorId := c.creatorId
    created := ← Instant.decode c.created
    atoms := atoms.reduceOption.mergeSort Gathered.mixedAtomOrder }

/-- The quote that is the basis, if it and its writ are live. -/
def quoteOf? (j : JustificationRow) : Option JoinedQuote :=
  (db.basisQuote? j).bind db.joinedQuote?

/-- The justification on its basis, with all else as ids. -/
def outline (j : JustificationRow) : Except Fault Justification := do
  let x ← j.decode
  let compound ← (db.basisProposition? j).mapM db.compoundOf
  let quote ← (db.quoteOf? j).mapM JoinedQuote.decode
  let mixed ← (db.basisMixed? j).mapM db.mixedOf
  let lookups : BasisLookups := {
    propositionCompounds := fun _ => compound
    writQuotes := fun _ => quote
    basisCompounds := fun _ => mixed }
  return { x with basis := .resolve lookups x.basis.type x.basis.id }

/-! ## What the rows of a justification tell -/

variable {db : Store} {j : JustificationRow} {r : JoinedRow}

/-- The rows of many justifications are those of each. -/
theorem mem_justificationRows {ids : List Id}
    {order : JustificationRow → JustificationRow → Bool} :
    r ∈ db.justificationRows ids order ↔
      (r.justification ∈ db.justifications.live ∧ r.justification.id ∈ ids) ∧
        r ∈ db.joined r.justification := by
  simp only [justificationRows, List.mem_mergeSort, List.mem_flatMap, List.mem_filter,
    decide_eq_true_eq]
  constructor
  · rintro ⟨j, hj, hr⟩
    rw [justification_of_mem_joined hr]
    exact ⟨hj, hr⟩
  · rintro ⟨hj, hr⟩
    exact ⟨_, hj, hr⟩

theorem compound_of_mem_joined (h : r ∈ db.joined j) : r.compound = db.basisProposition? j := by
  simp only [joined, List.mem_flatMap, List.mem_map] at h
  obtain ⟨_, _, _, _, rfl⟩ := h
  rfl

theorem quote_of_mem_joined (h : r ∈ db.joined j) : r.quote = db.quoteOf? j := by
  simp only [joined, List.mem_flatMap, List.mem_map] at h
  obtain ⟨_, _, _, _, rfl⟩ := h
  rfl

theorem mixed_of_mem_joined (h : r ∈ db.joined j) : r.mixed = db.basisMixed? j := by
  simp only [joined, List.mem_flatMap, List.mem_map] at h
  obtain ⟨_, _, _, _, rfl⟩ := h
  rfl

/-- A basis is of one type only. -/
theorem basisMixed?_eq_none {c : CompoundRow} (h : db.basisProposition? j = some c) :
    db.basisMixed? j = none := by
  unfold basisProposition? Table.typed? at h
  split at h
  · rename_i htype
    rw [basisMixed?, Table.typed?, if_neg]
    rw [htype]
    decide
  · cases h

theorem basisProposition?_eq_none {c : CompoundRow} (h : db.basisMixed? j = some c) :
    db.basisProposition? j = none := by
  cases hp : db.basisProposition? j with
  | none => rfl
  | some d =>
    rw [basisMixed?_eq_none hp] at h
    cases h

theorem orNone_nil {α : Type} : orNone ([] : List α) = [none] := rfl

theorem flatMap_orNone {α β : Type} {f : Option α → List β} (h : f none = []) (as : List α) :
    (orNone as).flatMap f = as.flatMap fun a => f (some a) := by
  cases as with
  | nil => simp [orNone, h]
  | cons a as => simp [orNone, List.flatMap_map]

theorem flatMap_compoundAtom? (j : JustificationRow) :
    (db.joined j).flatMap (·.compoundAtom?.toList) =
      (db.basisProposition? j).elim [] fun c => (db.compoundPropositions c).map (c.id, ·) := by
  cases hc : db.basisProposition? j with
  | none =>
    rw [Option.elim_none, List.flatMap_eq_nil_iff]
    intro r hr
    rw [JoinedRow.compoundAtom?, compound_of_mem_joined hr, hc]
    rfl
  | some c =>
    have hm := basisMixed?_eq_none hc
    simp only [joined, hm, hc, Option.elim_none, Option.elim_some, orNone_nil, List.map_cons,
      List.map_nil, List.flatMap_assoc, List.flatMap_cons, List.flatMap_nil, List.append_nil]
    rw [flatMap_orNone, compoundPropositions, List.map_filterMap,
      List.filterMap_eq_flatMap_toList]
    · rfl
    · rfl

theorem flatMap_mixedAtom? (j : JustificationRow) :
    (db.joined j).flatMap (·.mixedAtom?.toList) =
      (db.basisMixed? j).elim [] fun c =>
        (db.mixedAtoms c).map fun a => (c.id, db.joinedAtom a) := by
  cases hc : db.basisMixed? j with
  | none =>
    rw [Option.elim_none, List.flatMap_eq_nil_iff]
    intro r hr
    rw [JoinedRow.mixedAtom?, mixed_of_mem_joined hr, hc]
    rfl
  | some c =>
    have hp := basisProposition?_eq_none hc
    simp only [joined, hp, hc, Option.elim_none, Option.elim_some, orNone_nil, List.flatMap_cons,
      List.flatMap_nil, List.append_nil, List.flatMap_map]
    rw [flatMap_orNone]
    · rw [List.map_eq_flatMap]
      rfl
    · rfl

/-! ## What the rows of many justifications tell -/

/-- The rows of the justifications, one after the other. -/
def allJoined (db : Store) (js : List JustificationRow) : List JoinedRow :=
  js.flatMap db.joined

variable {js : List JustificationRow} {c : CompoundRow}

theorem firsts_justification (h : (js.map (·.id)).Nodup) :
    firsts (·.id) ((db.allJoined js).map (·.justification)) = js := by
  rw [allJoined, List.map_flatMap, firsts_flatMap_of_const (x := id)]
  · exact List.map_id js
  · intro j _ hnil
    exact joined_ne_nil db j (List.map_eq_nil_iff.1 hnil)
  · intro j _ a ha
    obtain ⟨r, hr, rfl⟩ := List.mem_map.1 ha
    exact justification_of_mem_joined hr
  · exact h

/-- Looking up among things that rows tell of. -/
theorem find?_told {α : Type} {part : JoinedRow → Option α} (link : JustificationRow → Option α)
    (hpart : ∀ j, ∀ r ∈ db.joined j, part r = link j) {key : α → Id} {f : Id → Option α}
    (hf : ∀ j a, link j = some a → f (key a) = some a) {i : Id}
    (hi : ∀ a, f i = some a → ∃ j ∈ js, link j = some a ∧ key a = i) :
    ((db.allJoined js).flatMap fun r => (part r).toList).find? (key · = i) = f i := by
  refine Table.find?_eq_of_forall ?_ ?_
  · intro a ha
    obtain ⟨r, hr, ha⟩ := List.mem_flatMap.1 ha
    obtain ⟨j, -, hr⟩ := List.mem_flatMap.1 hr
    rw [hpart j r hr, Option.mem_toList] at ha
    exact hf j a ha
  · intro a ha
    obtain ⟨j, hj, hlink, hkey⟩ := hi a ha
    obtain ⟨r, hr⟩ := List.exists_mem_of_ne_nil _ (joined_ne_nil db j)
    refine ⟨List.mem_flatMap.2 ⟨r, List.mem_flatMap.2 ⟨j, hj, hr⟩, ?_⟩, hkey⟩
    rw [hpart j r hr, Option.mem_toList]
    exact hlink

/-- No proposition is in a compound twice. -/
theorem nodup_compoundPropositions (hk : db.Keyed) (c : CompoundRow) :
    ((db.compoundPropositions c).map fun a => a.2.id).Nodup := by
  have hatoms : (db.propositionAtoms c).Pairwise fun a b => a.propositionId ≠ b.propositionId := by
    refine ((List.pairwise_map.1 hk.compoundAtoms).filter _).imp_of_mem fun ha hb hab heq => ?_
    have hac := of_decide_eq_true (List.mem_filter.1 ha).2
    have hbc := of_decide_eq_true (List.mem_filter.1 hb).2
    exact hab (by rw [hac, hbc, heq])
  refine List.pairwise_map.2 (hatoms.filterMap _ fun a b hab x hx y hy hxy => hab ?_)
  obtain ⟨p, hp, rfl⟩ := Option.map_eq_some_iff.1 hx
  obtain ⟨q, hq, rfl⟩ := Option.map_eq_some_iff.1 hy
  rw [← Table.id_of_row? hp, ← Table.id_of_row? hq]
  exact hxy

/-- What the rows tell of the atoms of one compound. -/
theorem filter_compoundAtoms (hk : db.Keyed) (hj : j ∈ js) (hc : db.basisProposition? j = some c) :
    (firsts (fun a : Id × Int64 × PropositionRow => (a.1, a.2.2.id))
        ((db.allJoined js).flatMap (·.compoundAtom?.toList))).filter (fun a => a.1 = c.id) =
      (db.compoundPropositions c).map (c.id, ·) := by
  have hlive : ∀ i d, db.basisProposition? i = some d → d ∈ db.propositionCompounds.live :=
    fun i d hd => (hk.propositionCompounds.typed?_eq_some.1 hd).1
  rw [allJoined, List.flatMap_assoc, funext flatMap_compoundAtom?,
    filter_firsts_flatMap Prod.fst CompoundRow.id ?_ ?_ hj hc ?_]
  · refine firsts_eq_self ?_
    rw [List.map_map]
    have h := (nodup_compoundPropositions hk c).map (f := fun i => (c.id, i)) fun i k hik =>
      (Prod.mk.inj hik).2
    rwa [List.map_map] at h
  · intro d a ha
    obtain ⟨_, _, rfl⟩ := List.mem_map.1 ha
    rfl
  · intro a b hab
    exact (Prod.mk.inj hab).1
  · intro i _ d hd hid
    exact hk.propositionCompounds.eq_of_id_eq (hlive i d hd) (hlive j c hc) hid

theorem filter_mixedAtoms (hk : db.Keyed) (hj : j ∈ js) (hc : db.basisMixed? j = some c) :
    (firsts Gathered.atomKey ((db.allJoined js).flatMap (·.mixedAtom?.toList))).filter
        (fun a => a.1 = c.id) =
      (db.distinctAtoms c).map fun a => (c.id, db.joinedAtom a) := by
  have hlive : ∀ i d, db.basisMixed? i = some d → d ∈ db.basisCompounds.live :=
    fun i d hd => (hk.basisCompounds.typed?_eq_some.1 hd).1
  rw [allJoined, List.flatMap_assoc, funext flatMap_mixedAtom?,
    filter_firsts_flatMap Prod.fst CompoundRow.id ?_ ?_ hj hc ?_]
  · rw [firsts_map, distinctAtoms]
    refine congrArg _ (firsts_congr ?_ _)
    intro a b
    simp [Gathered.atomKey, joinedAtom]
  · intro d a ha
    obtain ⟨_, _, rfl⟩ := List.mem_map.1 ha
    rfl
  · intro a b hab
    exact (Prod.mk.inj hab).1
  · intro i _ d hd hid
    exact hk.basisCompounds.eq_of_id_eq (hlive i d hd) (hlive j c hc) hid

end Store

end Rationale
