/-
  Rationale — what a database takes.

  A database takes a statement unless it has too many arguments.  The readers
  bind an argument for each id, and two for each pair of a quote and a URL.  So
  a reader comes to what there is to be found as long as it is not asked for too
  much at once, and is refused by the database otherwise.

  * `length_args_byIds`, `length_args_urlTargetsByPair` and their like: how many
    arguments a statement has;
  * `PageQuery.Fits.targetRows` and its like: the longest of the statements about
    a page is that for propositions;
  * `readUsers_eq_ok` and its like: the readers;
  * `mediaExcerptsAt_eq_ok`, `writQuoteUrlsAt_eq_ok`: those that send several
    statements.
-/
import Rationale.Proofs.Outcome
import Rationale.Proofs.Queries
import Rationale.Store.Readers

namespace Rationale

open Query Sql

/-! ## Sending -/

namespace Sql.Fragment

variable {f : Fragment} {α : Type} {x : Except Fault α} {a : α}

/-- The database takes the statement. -/
def Fits (f : Fragment) : Prop :=
  f.args.length ≤ argumentLimit

instance (f : Fragment) : Decidable f.Fits :=
  inferInstanceAs (Decidable (_ ≤ _))

theorem send_of_fits (h : f.Fits) : f.send = .ok () :=
  if_pos h

theorem send_of_not_fits (h : ¬ f.Fits) : f.send = .error (.tooManyArguments f.sql) :=
  if_neg h

theorem send_eq_ok : f.send = .ok () ↔ f.Fits := by
  by_cases h : f.Fits
  · simp [send_of_fits h, h]
  · simp [send_of_not_fits h, h]

/-- What is done once a statement was taken. -/
theorem send_bind_eq_ok : (f.send >>= fun _ => x) = .ok a ↔ f.Fits ∧ x = .ok a := by
  rw [bind_eq_ok]
  exact ⟨fun ⟨_, hf, hx⟩ => ⟨send_eq_ok.1 hf, hx⟩, fun ⟨hf, hx⟩ => ⟨(), send_of_fits hf, hx⟩⟩

end Sql.Fragment

/-! ## Arguments -/

namespace Query

theorem length_args_justificationRows (source : Fragment) (order : String) :
    (justificationRows source order).args.length = source.args.length + 6 := by
  have hargs : (justificationRows source order).args =
      [code BasisType.propositionCompound, code BasisType.writQuote,
        code BasisType.justificationBasisCompound, code AtomType.proposition,
        code AtomType.sourceExcerptParaphrase, code SourceExcerptType.writQuote] ++ source.args := rfl
  rw [hargs, List.length_append, Nat.add_comm]
  rfl

variable (candidates : Fragment)

theorem length_args_targetRows :
    (targetRows candidates).args.length = candidates.args.length + 7 := by
  have hargs : (Composing.fragment (targetIds candidates)).args =
      code TargetType.justification :: candidates.args := rfl
  rw [targetRows, length_args_justificationRows, hargs, List.length_cons]

theorem length_args_counterRows :
    (counterRows candidates).args.length = candidates.args.length + 7 := by
  have hargs : (Composing.fragment (counterIds candidates)).args =
      code TargetType.justification :: candidates.args := rfl
  rw [counterRows, length_args_justificationRows, hargs, List.length_cons]

variable (text : String → String) (ids : List Id)

/-- Values that are bound together are bound one after the other. -/
theorem args_bindAll (vs bound : List Value) :
    (((Composing.bindAll vs).run .numbered).run bound).2 = bound ++ vs := by
  have hargs : (((vs.mapM Composing.bind).run .numbered).run bound).2 =
      bound ++ vs.flatMap fun v => [v] := args_mapM (fun _ _ => rfl) vs bound
  rw [List.flatMap_singleton'] at hargs
  exact hargs

theorem length_args_byIds : (byIds text ids).args.length = ids.length := by
  have hargs : (byIds text ids).args = ids.map .integer := args_bindAll _ []
  rw [hargs, List.length_map]

theorem length_args_statementsById : (statementsById ids).args.length = ids.length + 1 := by
  have hargs : (statementsById ids).args = code SentenceType.proposition :: ids.map .integer :=
    args_bindAll _ [code SentenceType.proposition]
  rw [hargs, List.length_cons, List.length_map]

theorem length_args_urlTargetsByPair (pairs : List (Id × Id)) :
    (urlTargetsByPair pairs).args.length = 2 * pairs.length := by
  have hargs : (urlTargetsByPair pairs).args =
      pairs.flatMap fun p => [.integer p.1, .integer p.2] := by
    have hpair : ∀ p args, (((bindPair p).run .numbered).run args).2 =
        args ++ [.integer p.1, .integer p.2] :=
      fun p args => List.append_assoc args [.integer p.1] [.integer p.2]
    exact args_mapM hpair pairs []
  rw [hargs, List.length_flatMap]
  simp [Nat.mul_comm]

/-! ## The statements about a page -/

/-- The database takes all statements about the page. -/
def PageQuery.Fits (q : PageQuery) : Prop :=
  (propositionRows q.candidates).Fits

instance (q : PageQuery) : Decidable q.Fits :=
  inferInstanceAs (Decidable (Fragment.Fits _))

namespace PageQuery.Fits

variable {q : PageQuery} (h : q.Fits)

include h

theorem length_le : q.candidates.args.length + 7 ≤ argumentLimit := by
  have hlength : (propositionRows q.candidates).args.length ≤ argumentLimit := h
  rw [length_args_propositionRows] at hlength
  unfold argumentLimit at hlength ⊢
  omega

theorem primaryRows : (Query.primaryRows q.candidates q.columns).Fits := by
  rw [Fragment.Fits, Query.primaryRows, length_args_justificationRows]
  exact Nat.le_of_succ_le h.length_le

theorem targetRows : (Query.targetRows q.candidates).Fits := by
  rw [Fragment.Fits, length_args_targetRows]
  exact h.length_le

theorem counterRows : (Query.counterRows q.candidates).Fits := by
  rw [Fragment.Fits, length_args_counterRows]
  exact h.length_le

end PageQuery.Fits

end Query

/-! ## Readers -/

theorem fits_byIds {text : String → String} {ids : List Id} :
    (byIds text ids).Fits ↔ ids.length ≤ argumentLimit := by
  rw [Fragment.Fits, length_args_byIds]

theorem fits_statementsById {ids : List Id} :
    (statementsById ids).Fits ↔ ids.length < argumentLimit := by
  rw [Fragment.Fits, length_args_statementsById]
  exact Iff.rfl

theorem fits_urlTargetsByPair {pairs : List (Id × Id)} :
    (urlTargetsByPair pairs).Fits ↔ 2 * pairs.length ≤ argumentLimit := by
  rw [Fragment.Fits, length_args_urlTargetsByPair]

namespace Store

variable {db : Store} {ids quotes : List Id}

theorem readStatements_eq_ok {ss : List (Id × Statement)} :
    db.readStatements ids = .ok ss ↔ ids.length < argumentLimit ∧ db.findStatements ids = .ok ss :=
  Fragment.send_bind_eq_ok.trans (and_congr_left' fits_statementsById)

theorem readUsers_eq_ok {us : List (Id × UserBlurb)} :
    db.readUsers ids = .ok us ↔ ids.length ≤ argumentLimit ∧ db.findUsers ids = .ok us :=
  Fragment.send_bind_eq_ok.trans (and_congr_left' fits_byIds)

theorem readUrls_eq_ok {us : List (Id × List Url)} :
    db.readUrls quotes = .ok us ↔ quotes.length ≤ argumentLimit ∧ us = db.findUrls quotes := by
  refine Fragment.send_bind_eq_ok.trans (and_congr fits_byIds ?_)
  exact ⟨fun h => (Except.ok.inj h).symm, fun h => h ▸ rfl⟩

end Store

section

variable {db : ReadStep → Store} {ids quotes : List Id}

/-- **Media excerpts are read** if there are not too many of them, nor too many
    locators of them, and all of them are found. -/
theorem mediaExcerptsAt_eq_ok {es : List (Id × MediaExcerpt)} :
    (mediaExcerptsAt db ids).result = .ok es ↔ ids.length ≤ argumentLimit ∧
      ((excerptTables db).locatorsOf ids).length ≤ argumentLimit ∧
      ((excerptTables db).findMediaExcerpts ids).result = .ok es := by
  rw [mediaExcerptsAt_eq]
  simp only [Logged.result_bind, Logged.result_ofExcept, Fragment.send_bind_eq_ok,
    mediaExcerptsById, locatorsByExcerpt, citationsByExcerpt, attemptsByLocator, fits_byIds,
    List.length_map]
  tauto

/-- **The URLs of quotes are read** if there are not too many quotes, nor too many
    URLs of them. -/
theorem writQuoteUrlsAt_eq_ok {us : List (Id × List WritQuoteUrl)} :
    writQuoteUrlsAt db quotes = .ok us ↔ quotes.length ≤ argumentLimit ∧
      2 * (urlPairs ((urlTables db).findUrls quotes)).length ≤ argumentLimit ∧
      us = (urlTables db).findWritQuoteUrls quotes := by
  rw [writQuoteUrlsAt_eq, Fragment.send_bind_eq_ok, Fragment.send_bind_eq_ok]
  refine and_congr fits_byIds (and_congr fits_urlTargetsByPair ?_)
  exact ⟨fun h => (Except.ok.inj h).symm, fun h => h ▸ rfl⟩

end

end Rationale
