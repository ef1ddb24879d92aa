/-
  Rationale — justifications filled in and nested.

  Filling in puts entities in the places of ids, under their own ids, and so a
  justification stays the justification of its row.  Nesting puts justifications
  in the places of their ids in the same way, once they pass their checks.

  * `row_of_hydrate`: the row is kept;
  * `nest_eq_ok`: a line of justifications is nested as it is, if every one of
    them passes its check with its targets in it.
-/
import Rationale.Assembly
import Rationale.Proofs.Decoding

namespace Rationale

/-! ## Filling in -/

namespace Lookups

variable {l : Lookups} {j x : Justification}

/-- Everything is found under its own id. -/
structure Keyed (l : Lookups) : Prop where
  propositions : ∀ i p, l.propositions i = some p → p.id = i
  statements : ∀ i s, l.statements i = some s → s.id = i
  mediaExcerpts : ∀ i e, l.mediaExcerpts i = some e → e.id = i
  users : ∀ i u, l.users i = some u → u.id = i

theorem required_eq_ok {α : Type} {kind : EntityKind} {i : Id} {o : Option α} {a : α} :
    required kind i o = .ok a ↔ o = some a := by
  cases o <;> simp [required]

theorem proposition_eq_ok {p p' : Relation Proposition} :
    l.proposition p = .ok p' ↔ ∃ a, l.propositions (p.id (·.id)) = some a ∧ p' = .entity a := by
  simp only [proposition, map_eq_ok, required_eq_ok, eq_comm (a := p')]

theorem statement_eq_ok {s s' : Relation Statement} :
    l.statement s = .ok s' ↔ ∃ a, l.statements (s.id (·.id)) = some a ∧ s' = .entity a := by
  simp only [statement, map_eq_ok, required_eq_ok, eq_comm (a := s')]

theorem creator_eq_ok {u u' : Relation UserBlurb} :
    l.creator u = .ok u' ↔ ∃ a, l.users (u.id (·.id)) = some a ∧ u' = .entity a := by
  simp only [creator, map_eq_ok, required_eq_ok, eq_comm (a := u')]

theorem hydrate_eq_ok :
    l.hydrate j = .ok x ↔ ∃ target, l.target j.target = .ok target ∧
      ∃ rootTarget, l.rootTarget j.rootTarget = .ok rootTarget ∧
      ∃ basis, l.basis j.basis = .ok basis ∧
      ∃ creator, l.creator j.creator = .ok creator ∧
      x = { j with target, rootTarget, basis, creator } := by
  simp only [hydrate, bind_eq_ok, pure_eq_ok, eq_comm (a := x)]

/-- A target that was filled in: it is an entity, unless it is a justification. -/
theorem target_eq_ok {t t' : Target} (h : l.target t = .ok t') :
    (∃ p a, t = .proposition p ∧ l.propositions (p.id (·.id)) = some a ∧
        t' = .proposition (.entity a)) ∨
      (∃ s a, t = .statement s ∧ l.statements (s.id (·.id)) = some a ∧
        t' = .statement (.entity a)) ∨
      ∃ r, t = .justification r ∧ t' = .justification r := by
  cases t with
  | proposition p =>
    obtain ⟨p', hp, rfl⟩ := map_eq_ok.1 h
    obtain ⟨a, ha, rfl⟩ := proposition_eq_ok.1 hp
    exact .inl ⟨p, a, rfl, ha, rfl⟩
  | statement s =>
    obtain ⟨s', hs, rfl⟩ := map_eq_ok.1 h
    obtain ⟨a, ha, rfl⟩ := statement_eq_ok.1 hs
    exact .inr (.inl ⟨s, a, rfl, ha, rfl⟩)
  | justification r =>
    cases h
    exact .inr (.inr ⟨r, rfl, rfl⟩)

theorem target_keeps (hl : l.Keyed) {t t' : Target} (h : l.target t = .ok t') :
    t'.type = t.type ∧ t'.id = t.id := by
  rcases target_eq_ok h with ⟨p, a, rfl, ha, rfl⟩ | ⟨s, a, rfl, ha, rfl⟩ | ⟨r, rfl, rfl⟩
  · exact ⟨rfl, hl.propositions _ a ha⟩
  · exact ⟨rfl, hl.statements _ a ha⟩
  · exact ⟨rfl, rfl⟩

theorem rootTarget_keeps (hl : l.Keyed) {t t' : RootTarget} (h : l.rootTarget t = .ok t') :
    t'.type = t.type ∧ t'.id = t.id := by
  cases t with
  | proposition p =>
    obtain ⟨p', hp, rfl⟩ := map_eq_ok.1 h
    obtain ⟨a, ha, rfl⟩ := proposition_eq_ok.1 hp
    exact ⟨rfl, hl.propositions _ a ha⟩
  | statement s =>
    obtain ⟨s', hs, rfl⟩ := map_eq_ok.1 h
    obtain ⟨a, ha, rfl⟩ := statement_eq_ok.1 hs
    exact ⟨rfl, hl.statements _ a ha⟩

theorem quote_id (q : WritQuote) : (l.quote q).id = q.id := by
  unfold quote
  split <;> rfl

theorem basis_keeps (hl : l.Keyed) {b b' : Basis} (h : l.basis b = .ok b') :
    b'.type = b.type ∧ b'.id = b.id := by
  unfold basis at h
  split at h
  · obtain ⟨e, he, rfl⟩ := map_eq_ok.1 h
    exact ⟨rfl, hl.mediaExcerpts _ e (required_eq_ok.1 he)⟩
  · cases h
    exact ⟨rfl, quote_id _⟩
  · cases h
    exact ⟨rfl, rfl⟩
  · cases h
    exact ⟨rfl, rfl⟩

theorem creator_keeps (hl : l.Keyed) {u u' : Relation UserBlurb} (h : l.creator u = .ok u') :
    u'.id (·.id) = u.id (·.id) := by
  obtain ⟨a, ha, rfl⟩ := creator_eq_ok.1 h
  exact hl.users _ a ha

/-- **Filling in keeps the row.** -/
theorem row_of_hydrate (hl : l.Keyed) (h : l.hydrate j = .ok x) :
    x.row = j.row ∧ x.created = j.created := by
  obtain ⟨t, ht, r, hr, b, hb, c, hc, rfl⟩ := hydrate_eq_ok.1 h
  obtain ⟨ht, ht'⟩ := target_keeps hl ht
  obtain ⟨hr, hr'⟩ := rootTarget_keeps hl hr
  obtain ⟨hb, hb'⟩ := basis_keeps hl hb
  refine ⟨?_, rfl⟩
  simp only [Justification.row, ht, ht', hr, hr', hb, hb', creator_keeps hl hc]

theorem id_of_hydrate (h : l.hydrate j = .ok x) : x.id = j.id := by
  obtain ⟨_, _, _, _, _, _, _, _, rfl⟩ := hydrate_eq_ok.1 h
  rfl

/-! ## Checks -/

/-- The justification passes its check. -/
def Passed (l : Lookups) (j : Justification) : Prop :=
  ∀ e, l.sharedExcerpt? j.id = some e → l.reaches j e = true

theorem checked_eq_ok : (l.checked j).result = .ok x ↔ x = j ∧ l.Passed j := by
  unfold checked Passed
  cases l.sharedExcerpt? j.id with
  | none =>
    simp only [Logged.result_bind, Logged.result_warn, ok_bind, Logged.result_pure,
      Except.ok.injEq, eq_comm (a := j), reduceCtorEq, false_implies, implies_true, and_true]
  | some e =>
    dsimp only
    cases hr : l.reaches j e with
    | false =>
      simp only [Bool.not_false, if_true, Logged.result_bind, Logged.result_fail,
        Option.some.injEq, forall_eq', hr, Bool.false_eq_true, and_false, iff_false]
      exact fun h => nomatch h
    | true =>
      simp only [Bool.not_true, Bool.false_eq_true, if_false, Logged.result_bind,
        Logged.result_warn, ok_bind, Logged.result_pure, Except.ok.injEq, eq_comm (a := j),
        Option.some.injEq, forall_eq', hr, and_true]

/-! ## Nesting -/

/-- Each justification as the target of the one before it. -/
def nested : Justification → List Justification → Justification
  | j, [] => j
  | j, t :: ts => { j with target := .justification (.entity (nested t ts)) }

@[simp]
theorem nested_id (j : Justification) (ts : List Justification) : (nested j ts).id = j.id := by
  cases ts <;> rfl

/-- The justification passes its check, and so do all that are nested in it. -/
def AllPassed (l : Lookups) : Justification → List Justification → Prop
  | j, [] => l.Passed j
  | j, t :: ts => l.Passed (nested j (t :: ts)) ∧ AllPassed l t ts

/-- The polarity rules that are broken, from the innermost target on. -/
def nestedWarnings : Justification → List Justification → List Warning
  | j, [] => j.polarityWarnings
  | j, t :: ts => nestedWarnings t ts ++ (nested j (t :: ts)).polarityWarnings

theorem nest_eq_ok {ts : List Justification} :
    (l.nest j ts).result = .ok x ↔ x = nested j ts ∧ l.AllPassed j ts := by
  induction ts generalizing j x with
  | nil => exact checked_eq_ok
  | cons t ts ih =>
    rw [nest, Logged.result_bind, bind_eq_ok]
    simp only [ih, checked_eq_ok, AllPassed]
    constructor
    · rintro ⟨_, ⟨rfl, hts⟩, rfl, hj⟩
      exact ⟨rfl, hj, hts⟩
    · rintro ⟨rfl, hj, hts⟩
      exact ⟨_, ⟨rfl, hts⟩, rfl, hj⟩

theorem checked_of_passed (h : l.Passed j) : l.checked j = ⟨.ok j, j.polarityWarnings⟩ := by
  have hwarn : (do Logged.warn j.polarityWarnings; return j : Logged Justification) =
      ⟨.ok j, j.polarityWarnings⟩ :=
    Logged.ext rfl (List.append_nil _)
  unfold checked
  cases he : l.sharedExcerpt? j.id with
  | none => exact hwarn
  | some e =>
    dsimp only
    rw [h e he]
    exact hwarn

/-- What is nested and logged, if all pass their checks. -/
theorem nest_of_allPassed {ts : List Justification} (h : l.AllPassed j ts) :
    l.nest j ts = ⟨.ok (nested j ts), nestedWarnings j ts⟩ := by
  induction ts generalizing j with
  | nil => exact checked_of_passed h
  | cons t ts ih =>
    have hj : l.checked (nested j (t :: ts)) = _ := checked_of_passed h.1
    rw [nest, ih h.2]
    refine Logged.ext ?_ ?_
    · rw [Logged.result_bind, ok_bind]
      exact congrArg (·.result) hj
    · rw [Logged.warnings_bind_ok rfl, nestedWarnings]
      exact congrArg (nestedWarnings t ts ++ ·.warnings) hj

end Lookups

end Rationale
