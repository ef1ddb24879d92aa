/-
  Rationale — what is logged of broken polarity rules.

  A justification that targets another one has to be negative, and its polarity
  towards the root the other way round (`Opposes`); one that does not has a single
  polarity.  Each justification that is nested is looked at with its target in it,
  the innermost first, and then what counters a justification of the page.  That
  is looked at while its target is an id, so nothing compares its polarity towards
  the root with that of the justification that it counters.

  * `polarityViolation_eq_none_iff`: which rules are checked;
  * `polarityWarnings_of_assemble`: the warnings about polarities, one by one;
  * `polarity_not_logged_iff`: what it says of a page that there are none;
  * `counter_not_opposed`: what it does not say.
-/
import Rationale.Proofs.Refusals

namespace Rationale

variable {ix : Index} {l : Lookups} {x y : Justification} {ys : List Justification} {i : Id}

/-- The warning is about polarities. -/
def Warning.isPolarity : Warning → Bool
  | polarity .. => true
  | _ => false

/-! ## Rules -/

namespace Justification

/-- The rule about a justification and another one that it targets. -/
def Opposes (x t : Justification) : Prop :=
  x.polarity = .negative ∧ x.rootPolarity = t.rootPolarity.negate

/-- No justification is nested in it as its target. -/
def Unnested (x : Justification) : Prop :=
  ∀ t, x.target ≠ .justification (.entity t)

/-- **The rules that are checked**: root polarities only where the target is at
    hand. -/
theorem polarityViolation_eq_none_iff :
    x.polarityViolation = none ↔
      (∀ t, x.target = .justification (.entity t) → x.Opposes t) ∧
      (x.isCounter = true → x.polarity = .negative) ∧
      (x.isCounter = false → x.rootPolarity = x.polarity) := by
  cases ht : x.target with
  | proposition | statement =>
    have hc : x.isCounter = false := by simp [isCounter, ht, TargetOf.type]
    simp [polarityViolation_eq_none_iff_of_not_counter hc, hc]
  | justification r =>
    have hc : x.isCounter = true := by simp [isCounter, ht, TargetOf.type]
    cases r with
    | entity t =>
      rw [polarityViolation_eq_none_iff_of_counter ht]
      constructor
      · rintro ⟨hneg, hroot⟩
        refine ⟨fun t' ht' => ?_, fun _ => hneg, fun hc' => ?_⟩
        · cases ht'
          exact ⟨hneg, hroot⟩
        · rw [hc] at hc'
          cases hc'
      · exact fun h => h.1 t rfl
    | ref i => simp [polarityViolation, ht, hc]

theorem polarityWarnings_eq_nil_iff : x.polarityWarnings = [] ↔ x.polarityViolation = none := by
  unfold polarityWarnings
  cases x.polarityViolation <;> simp

theorem filter_polarityWarnings (x : Justification) :
    x.polarityWarnings.filter Warning.isPolarity = x.polarityWarnings := by
  unfold polarityWarnings
  cases x.polarityViolation <;> rfl

theorem chain_of_unnested (h : x.Unnested) : x.chain = [x] := by
  rw [chain_eq]
  cases ht : x.target with
  | proposition | statement => rfl
  | justification r =>
    cases r with
    | entity t => exact absurd ht (h t)
    | ref i => rfl

end Justification

/-! ## Warnings of traversals -/

/-- What a traversal logs is what is logged at each element. -/
theorem Logged.filter_warnings_mapM {α β : Type} {f : α → Logged β} {p : Warning → Bool}
    {told : β → List Warning} {as : List α} {bs : List β}
    (hf : ∀ a ∈ as, ∀ b, (f a).result = .ok b → (f a).warnings.filter p = told b)
    (h : (as.mapM f).result = .ok bs) : (as.mapM f).warnings.filter p = bs.flatMap told := by
  induction as generalizing bs with
  | nil =>
    cases h
    rfl
  | cons a as ih =>
    rw [List.mapM_cons, Logged.result_bind] at h
    obtain ⟨b, hb, h⟩ := bind_eq_ok.1 h
    rw [Logged.result_bind] at h
    obtain ⟨bs', hbs, h⟩ := bind_eq_ok.1 h
    cases h
    rw [List.mapM_cons, Logged.warnings_bind_ok hb, Logged.warnings_bind_ok hbs,
      List.filter_append, hf a (by simp) b hb, Logged.warnings_pure, List.append_nil,
      ih (fun a ha => hf a (by simp [ha])) hbs, List.flatMap_cons]

/-! ## One justification -/

namespace Lookups

theorem chain_nested (y z : Justification) (zs : List Justification) :
    (nested y (z :: zs)).chain = nested y (z :: zs) :: (nested z zs).chain := by
  rw [Justification.chain_eq]
  rfl

/-- The innermost justification is looked at first. -/
theorem nestedWarnings_eq (h : ∀ z ∈ y :: ys, z.Unnested) :
    nestedWarnings y ys = (nested y ys).chain.reverse.flatMap (·.polarityWarnings) := by
  induction ys generalizing y with
  | nil =>
    rw [nested, Justification.chain_of_unnested (h y (by simp))]
    simp [nestedWarnings]
  | cons z zs ih =>
    rw [nestedWarnings, ih fun w hw => h w (List.mem_cons_of_mem _ hw), chain_nested,
      List.reverse_cons, List.flatMap_append]
    simp

end Lookups

namespace Index

theorem leave_not_polarity (w : Graph.Walk Id) :
    (ix.leave w).warnings.filter Warning.isPolarity = [] := by
  unfold leave
  split
  · split <;> rfl
  · rfl

variable (hopen : ∀ x ∈ ix.justifications, x.Unnested)

include hopen

theorem unnested_of_shell (h : ix.shell l i = .ok y) : y.Unnested := by
  obtain ⟨x, hx, hy⟩ := IndexOf.exists_node_of_shell h
  obtain ⟨t, ht, _, -, _, -, _, -, rfl⟩ := Lookups.hydrate_eq_ok.1 hy
  intro s hs
  rcases Lookups.target_eq_ok ht with ⟨p, a, -, -, rfl⟩ | ⟨p, a, -, -, rfl⟩ | ⟨r, hr, rfl⟩
  · cases hs
  · cases hs
  · exact hopen x (List.mem_of_find?_eq_some hx) s (hr.trans hs)

theorem filter_warnings_assembleNode (h : (ix.assembleNode l i).result = .ok x) :
    (ix.assembleNode l i).warnings.filter Warning.isPolarity =
      x.chain.reverse.flatMap (·.polarityWarnings) := by
  obtain ⟨y, ys, hpath, hleave, rfl, hpassed⟩ := assembleNode_eq_ok.1 h
  have hunnested : ∀ z ∈ y :: ys, z.Unnested := fun z hz => by
    obtain ⟨k, -, hk⟩ := exists_of_mem_mapM hpath hz
    exact unnested_of_shell hopen hk
  have hwarnings : (ix.assembleNode l i).warnings =
      (ix.leave (ix.targetWalk i)).warnings ++ Lookups.nestedWarnings y ys := by
    unfold assembleNode
    dsimp only
    rw [hpath, Logged.ofExcept_ok_bind]
    dsimp only
    rw [Logged.warnings_bind_ok hleave, Lookups.nest_of_allPassed hpassed]
  rw [hwarnings, List.filter_append, leave_not_polarity, List.nil_append,
    Lookups.nestedWarnings_eq hunnested, List.filter_flatMap]
  simp only [Justification.filter_polarityWarnings]

omit hopen in
theorem filter_warnings_assembleCounter (h : (ix.assembleCounter l i).result = .ok x) :
    (ix.assembleCounter l i).warnings.filter Warning.isPolarity = x.polarityWarnings := by
  rw [assembleCounter_result] at h
  unfold assembleCounter
  rw [h, Logged.ofExcept_ok_bind]
  show (x.polarityWarnings ++ []).filter _ = _
  rw [List.append_nil, Justification.filter_polarityWarnings]

theorem filter_warnings_assembleWithCounters
    (h : (ix.assembleWithCounters l i).result = .ok x) :
    (ix.assembleWithCounters l i).warnings.filter Warning.isPolarity =
      (x.chain.reverse ++ x.counters).flatMap (·.polarityWarnings) := by
  obtain ⟨y, cs, hy, hcs, rfl⟩ := assembleWithCounters_eq_ok.1 h
  have hcounters : ((ix.countersOf i).mapM fun c => ix.assembleCounter l c.id).result = .ok cs := by
    rw [Logged.result_mapM]
    simpa only [assembleCounter_result] using hcs
  -- the rules do not look at what counters a justification
  have hchain : (Justification.chain { y with counters := cs }).reverse.flatMap
      (·.polarityWarnings) = y.chain.reverse.flatMap (·.polarityWarnings) := by
    rw [Justification.chain_eq, Justification.chain_eq y, List.reverse_cons, List.reverse_cons,
      List.flatMap_append, List.flatMap_append]
    rfl
  have htold := Logged.filter_warnings_mapM (fun c _ x hx => filter_warnings_assembleCounter hx)
    hcounters
  rw [assembleWithCounters, Logged.warnings_bind_ok hy, Logged.warnings_bind_ok hcounters,
    Logged.warnings_pure, List.append_nil, List.filter_append,
    filter_warnings_assembleNode hopen hy, htold, List.flatMap_append, hchain]

/-! ## Pages -/

variable {out : List Justification}

/-- **The warnings about polarities**: those of all that is nested in a
    justification of the page, the innermost first, and then those of what counters
    it. -/
theorem polarityWarnings_of_assemble (h : (ix.assemble l).result = .ok out) :
    (ix.assemble l).warnings.filter Warning.isPolarity =
      out.flatMap fun x => (x.chain.reverse ++ x.counters).flatMap (·.polarityWarnings) :=
  Logged.filter_warnings_mapM
    (fun _ _ _ hx => filter_warnings_assembleWithCounters hopen hx) h

theorem unnested_of_counter (h : (ix.assemble l).result = .ok out) (hx : x ∈ out)
    (hy : y ∈ x.counters) : y.Unnested := by
  obtain ⟨p, -, hp⟩ := exists_mem_left_of_forall₂ (assemble_eq_ok.1 h) hx
  obtain ⟨_, cs, -, hcs, rfl⟩ := assembleWithCounters_eq_ok.1 hp
  obtain ⟨c, -, hc⟩ := exists_of_mem_mapM hcs hy
  exact unnested_of_shell hopen hc

/-- **What it says of a page that no broken polarity rule was logged**: that each
    justification opposes the one that is nested in it, that all that counter another
    one are negative, and that all others have a single polarity. -/
theorem polarity_not_logged_iff (h : (ix.assemble l).result = .ok out) :
    (∀ i v, Warning.polarity i v ∉ (ix.assemble l).warnings) ↔ ∀ x ∈ out,
      (∀ y ∈ x.chain, ∀ t, y.target = .justification (.entity t) → y.Opposes t) ∧
      (∀ y ∈ x.chain ++ x.counters, y.isCounter = true → y.polarity = .negative) ∧
      (∀ y ∈ x.chain ++ x.counters, y.isCounter = false → y.rootPolarity = y.polarity) := by
  have hnone : (∀ i v, Warning.polarity i v ∉ (ix.assemble l).warnings) ↔
      ∀ x ∈ out, ∀ y ∈ x.chain ++ x.counters, y.polarityViolation = none := by
    have htold := polarityWarnings_of_assemble hopen h
    trans (ix.assemble l).warnings.filter Warning.isPolarity = []
    · rw [List.filter_eq_nil_iff]
      constructor
      · intro hnone w hw hpolarity
        cases w with
        | polarity i v => exact hnone i v hw
        | walkAbandoned | walkLoops | targetNotLoaded | onlyErrors => cases hpolarity
      · exact fun hnone i v hw => hnone _ hw rfl
    · rw [htold]
      simp only [List.flatMap_eq_nil_iff, List.mem_append, List.mem_reverse,
        Justification.polarityWarnings_eq_nil_iff]
  rw [hnone]
  refine forall₂_congr fun x hx => ?_
  simp only [Justification.polarityViolation_eq_none_iff]
  constructor
  · intro hall
    exact ⟨fun y hy => (hall y (List.mem_append_left _ hy)).1, fun y hy => (hall y hy).2.1,
      fun y hy => (hall y hy).2.2⟩
  · rintro ⟨hnested, hnegative, hsingle⟩ y hy
    refine ⟨fun t ht => ?_, hnegative y hy, hsingle y hy⟩
    rcases List.mem_append.1 hy with hy | hy
    · exact hnested y hy t ht
    · exact absurd ht (unnested_of_counter hopen h hx hy t)

omit hopen

/-- A justification, and one that counters it with the same polarity towards the
    root. -/
def objection : Index where
  page := [⟨1, .proposition (.ref 1), .positive, .proposition (.ref 1), .writQuote (.ref 1),
    .positive, .ref 1, .newYear, []⟩]
  targets := []
  counters := [⟨2, .proposition (.ref 1), .positive, .justification (.ref 1), .writQuote (.ref 1),
    .negative, .ref 1, .newYear, []⟩]

theorem unnested_objection : ∀ x ∈ objection.justifications, x.Unnested := by
  simp [objection, justifications, Justification.Unnested]

theorem exists_assemble_objection : ∃ x c, (objection.assemble .sample).result = .ok [x] ∧
    x.counters = [c] ∧ c.target.justificationId? = some x.id ∧
    c.rootPolarity = .positive ∧ x.rootPolarity = .positive := by
  have h : (objection.assemble .sample).result.toOption.map (·.map fun x => (x.id, x.rootPolarity,
      x.counters.map fun c => (c.target.justificationId?, c.rootPolarity))) =
        some [(1, .positive, [(some 1, .positive)])] := by
    decide +kernel
  obtain ⟨out, hout, h⟩ := Option.map_eq_some_iff.1 h
  obtain ⟨x, xs, rfl, hx, hxs⟩ := List.map_eq_cons_iff.1 h
  cases List.map_eq_nil_iff.1 hxs
  simp only [Prod.mk.injEq] at hx
  obtain ⟨hid, hroot, hx⟩ := hx
  obtain ⟨c, cs, hc, hcx, hcs⟩ := List.map_eq_cons_iff.1 hx
  cases List.map_eq_nil_iff.1 hcs
  obtain ⟨htarget, hcroot⟩ := Prod.mk.inj hcx
  exact ⟨x, c, toOption_eq_some.1 hout, hc, htarget.trans (congrArg some hid.symm), hcroot, hroot⟩

theorem polarity_not_logged_iff_objection :
    (∀ x ∈ objection.justifications, x.Unnested) ∧
    ∃ out, (objection.assemble .sample).result = .ok out ∧
      ((∀ i v, Warning.polarity i v ∉ (objection.assemble .sample).warnings) ↔ ∀ x ∈ out,
        (∀ y ∈ x.chain, ∀ t, y.target = .justification (.entity t) → y.Opposes t) ∧
        (∀ y ∈ x.chain ++ x.counters, y.isCounter = true → y.polarity = .negative) ∧
        (∀ y ∈ x.chain ++ x.counters, y.isCounter = false → y.rootPolarity = y.polarity)) := by
  obtain ⟨x, c, h, -⟩ := exists_assemble_objection
  exact ⟨unnested_objection, [x], h, polarity_not_logged_iff unnested_objection h⟩

/-- **A counter need not oppose what it counters**, without anything being logged. -/
theorem counter_not_opposed : ∃ out, (objection.assemble .sample).result = .ok out ∧
    (∀ i v, Warning.polarity i v ∉ (objection.assemble .sample).warnings) ∧
    ∃ x ∈ out, ∃ c ∈ x.counters, c.target.justificationId? = some x.id ∧ ¬ c.Opposes x := by
  obtain ⟨x, c, h, hc, htarget, hcroot, hxroot⟩ := exists_assemble_objection
  have hquiet : (objection.assemble .sample).warnings = [] := by decide +kernel
  refine ⟨[x], h, fun i v => by rw [hquiet]; simp, x, by simp, c, by simp [hc], htarget, ?_⟩
  rintro ⟨-, hopposed⟩
  rw [hcroot, hxroot] at hopposed
  cases hopposed

end Index

end Rationale
