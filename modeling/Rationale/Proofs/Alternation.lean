/-
  Rationale — polarities along a chain of targets.

  A justification is checked against its target alone.  Along a chain that ends at
  a justification of a proposition or statement these checks make one rule: each
  step away from the end is negative and turns the polarity towards the root, so
  that it depends on the distance to the end only.

  * `forall_getElem?_reverse_cons`: places of a list that are counted from its end;
  * `chain_induction`: from the end of a chain to its start;
  * `polarities_alternate_iff`: no rule is broken on a chain if and only if the
    polarities alternate along it.
-/
import Mathlib.Logic.Function.Iterate
import Rationale.Proofs.Polarities

namespace Rationale

/-- What holds at the places of a list, counted from its end. -/
theorem forall_getElem?_reverse_cons {α : Type} {P : Nat → α → Prop} {a : α} {as : List α} :
    (∀ k b, (a :: as).reverse[k]? = some b → P k b) ↔
      P as.length a ∧ ∀ k b, as.reverse[k]? = some b → P k b := by
  rw [List.reverse_cons]
  constructor
  · intro h
    refine ⟨h _ _ (by simp), fun k b hb => h k b ?_⟩
    rw [List.getElem?_append_left (List.getElem?_eq_some_iff.1 hb).1, hb]
  · rintro ⟨ha, has⟩ k b hb
    rw [List.getElem?_append] at hb
    split at hb
    · exact has k b hb
    · rename_i hk
      rw [List.getElem?_singleton, Option.ite_none_right_eq_some] at hb
      obtain ⟨hzero, ⟨⟩⟩ := hb
      rw [List.length_reverse] at hk hzero
      obtain rfl : k = as.length := by omega
      exact ha

namespace Justification

variable {x t root : Justification}

theorem sizeOf_nested_lt (h : x.target = .justification (.entity t)) : sizeOf t < sizeOf x := by
  cases x
  simp only at h
  subst h
  simp only [mk.sizeOf_spec, TargetOf.justification.sizeOf_spec, Relation.entity.sizeOf_spec]
  omega

/-- Induction along a chain, from its end. -/
@[elab_as_elim]
theorem chain_induction {P : Justification → Prop} (last : ∀ x : Justification, x.Unnested → P x)
    (step : ∀ x t : Justification, x.target = .justification (.entity t) → P t → P x)
    (x : Justification) : P x := by
  by_cases hx : x.Unnested
  · exact last x hx
  · simp only [Unnested, ne_eq, not_forall, not_not] at hx
    obtain ⟨t, ht⟩ := hx
    exact step x t ht (chain_induction last step t)
termination_by sizeOf x
decreasing_by exact sizeOf_nested_lt ht

/-- **Polarities alternate along a chain** that ends at a justification of a
    proposition or statement, if and only if no justification of the chain breaks a
    rule: all but the last are negative, and the polarity towards the root is that of
    the last, turned once for each step that it is away. -/
theorem polarities_alternate_iff (hlast : x.chain.getLast? = some root)
    (hroot : root.isCounter = false) :
    (∀ y ∈ x.chain, y.polarityViolation = none) ↔
      (∀ y ∈ x.chain.dropLast, y.polarity = .negative) ∧
      ∀ k y, x.chain.reverse[k]? = some y → y.rootPolarity = Polarity.negate^[k] root.polarity := by
  induction x using chain_induction with
  | last x hx =>
    rw [chain_of_unnested hx, List.getLast?_singleton, Option.some.injEq] at hlast
    subst hlast
    rw [chain_of_unnested hx, List.forall_mem_singleton,
      polarityViolation_eq_none_iff_of_not_counter hroot, forall_getElem?_reverse_cons]
    simp
  | step x t ht ih =>
    obtain ⟨ts, hts⟩ := t.exists_chain_eq_cons
    have hchain := chain_of_nested ht
    rw [hchain, hts, List.getLast?_cons_cons, ← hts] at hlast
    rw [hchain, List.forall_mem_cons, ih hlast, polarityViolation_eq_none_iff_of_counter ht,
      forall_getElem?_reverse_cons, hts, List.dropLast_cons_cons, List.forall_mem_cons]
    -- the target is as far from the end as the chain behind it is long
    have hturn (hpolarities : ∀ k y, (t :: ts).reverse[k]? = some y →
        y.rootPolarity = Polarity.negate^[k] root.polarity) :
        t.rootPolarity.negate = Polarity.negate^[(t :: ts).length] root.polarity := by
      rw [hpolarities ts.length t (by simp), List.length_cons, Function.iterate_succ_apply']
    constructor
    · rintro ⟨⟨hnegative, hpolarity⟩, hnegatives, hpolarities⟩
      exact ⟨⟨hnegative, hnegatives⟩, hpolarity.trans (hturn hpolarities), hpolarities⟩
    · rintro ⟨⟨hnegative, hnegatives⟩, hpolarity, hpolarities⟩
      exact ⟨⟨hnegative, hpolarity.trans (hturn hpolarities).symm⟩, hnegatives, hpolarities⟩

/-- A reason for a proposition. -/
def reason : Justification :=
  ⟨1, .proposition (.ref 1), .positive, .proposition (.ref 1), .writQuote (.ref 1), .positive,
    .ref 1, .newYear, []⟩

/-- An objection to an objection to it. -/
def reply : Justification :=
  ⟨3, .proposition (.ref 1), .positive, .justification (.entity
    ⟨2, .proposition (.ref 1), .negative, .justification (.entity reason), .writQuote (.ref 2),
      .negative, .ref 1, .newYear, []⟩), .writQuote (.ref 3), .negative, .ref 1, .newYear, []⟩

theorem polarities_alternate_reply :
    reply.chain.length = 3 ∧ reply.chain.getLast? = some reason ∧
    reason.isCounter = false ∧ (∀ y ∈ reply.chain, y.polarityViolation = none) ∧
    ((∀ y ∈ reply.chain, y.polarityViolation = none) ↔
      (∀ y ∈ reply.chain.dropLast, y.polarity = .negative) ∧
      ∀ k y, reply.chain.reverse[k]? = some y →
        y.rootPolarity = Polarity.negate^[k] reason.polarity) :=
  ⟨rfl, rfl, rfl, by decide, polarities_alternate_iff rfl rfl⟩

end Justification

end Rationale
