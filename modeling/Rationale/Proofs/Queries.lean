/-
  Rationale — the queries of a page are closed and bind what they mean.

  Every part of the candidate query shows its arguments in the order in which
  it binds them, and so does the query.  The queries made about the candidates
  bind arguments of their own, and these show in other places than the order in
  which they are bound suggests, some of them twice.

  * `PageQuery.ordered`: the candidate query has its arguments in order;
  * `covered_justificationQuery` and its like: a query made about something that
    stands for what it is composed of does so as well;
  * `PageQuery.queries_standFor`: so all queries of a page do.
-/
import Rationale.Proofs.Composition
import Rationale.Query.Projection

namespace Rationale.Query

open Sql

/-! ## Names -/

theorem Column.plain_name (c : Column) : Plain c.name := by
  cases c <;> exact .literal rfl rfl

theorem SortColumn.plain_keyword (c : SortColumn) : Plain c.keyword := by
  unfold keyword
  split <;> exact .literal rfl rfl

theorem plain_symbol (c : Value.Comparison) : Plain c.symbol := by
  cases c <;> exact .literal rfl rfl

theorem Place.plain_column (p : Place) : Plain p.column := by
  cases p <;> exact .literal rfl rfl

section

variable {ρ : Value → String} {all : List Value} {table : String}

theorem shows_projection (cs : List SortColumn) :
    Shows ρ all [] (projection cs) (projection cs) := by
  refine ShowsAll.intercalate (.cons (.literal rfl rfl) (.map fun c _ => ?_)) (.literal rfl rfl)
  have hname : Shows ρ all [] c.column.name c.column.name := .plain c.column.plain_name
  exact (((Shows.literal rfl rfl).after hname).after (.literal rfl rfl)).after hname

theorem shows_orderBy (htable : Plain table) (cs : List SortColumn) :
    Shows ρ all [] (orderBy cs table) (orderBy cs table) := by
  refine ShowsAll.intercalate (.map fun c _ => ?_) (.literal rfl rfl)
  exact ((((Shows.plain htable).after (.literal rfl rfl)).after
    (.plain c.column.plain_name)).after (.literal rfl rfl)).after (.plain c.plain_keyword)

end

/-! ## Selections -/

theorem ordered_bindAll (vs : List Value) : Ordered (Composing.bindAll vs) :=
  (Ordered.mapM fun v _ => .argument v).next fun _ _ _ _ _ h => h.intercalate (.literal rfl rfl)

set_option maxRecDepth 4000 in
theorem ordered_basisAtoms (type : AtomType) : Ordered (basisAtoms type) :=
  (Ordered.argument _).next₂ (.argument _) fun _ _ _ _ _ _ _ _ h h' =>
    (((Shows.literal rfl rfl).append h).after (.literal rfl rfl)).append h'

set_option maxRecDepth 4000 in
theorem Path.ordered {place : Place} (path : Path place) : Ordered path.joins := by
  induction path with
  | self => exact .pure fun _ _ => .literal rfl rfl
  | compoundBasis | quoteBasis | excerptBasis =>
    exact (Ordered.argument _).next fun _ _ _ _ _ h =>
      ((Shows.literal rfl rfl).append h).after (.literal rfl rfl)
  | basisProposition | basisParaphrase =>
    exact (ordered_basisAtoms _).next fun _ _ _ _ _ h => h.after (.literal rfl rfl)
  | compoundAtom _ ih | paraphrasing _ ih | writ _ ih | quoteUrl _ ih | excerptUrl _ ih =>
    exact ih.next fun _ _ _ _ _ h => h.after (.literal rfl rfl)
  | paraphrasedQuote _ ih | paraphrasedExcerpt _ ih =>
    exact ih.next₂ (.argument _) fun _ _ _ _ _ _ _ _ h h' =>
      ((h.after (.literal rfl rfl)).append h').after (.literal rfl rfl)

set_option maxRecDepth 4000 in
theorem Selection.ordered (cs : List SortColumn) (s : Selection) : Ordered (s.composing cs) := by
  cases s with
  | every =>
    exact .pure fun _ _ =>
      ((Shows.literal rfl rfl).append (shows_projection cs)).after (.literal rfl rfl)
  | reaching place path values =>
    exact path.ordered.next₂ (ordered_bindAll values) fun _ _ _ _ _ _ _ _ hjoins hlist =>
      ((((((((Shows.literal rfl rfl).after (shows_projection cs)).after (.literal rfl rfl)).append
        hjoins).after (.literal rfl rfl)).after (.plain place.plain_column)).after
        (.literal rfl rfl)).append hlist).after (.literal rfl rfl)

/-! ## Conditions -/

section

variable {table : String} (htable : Plain table)

include htable

theorem Test.ordered (t : Test) : Ordered (t.sql table) := by
  exact (Ordered.argument t.value).next fun _ _ _ _ _ h =>
    ((((((Shows.plain htable).after (.literal rfl rfl)).after
      (.plain t.column.plain_name)).after (.literal rfl rfl)).after
      (.plain (plain_symbol t.comparison))).after (.literal rfl rfl)).append h

theorem RowCondition.ordered_conjunction (ts : List Test) :
    Ordered (conjunction table ts) :=
  (Ordered.mapM fun t _ => t.ordered htable).next fun _ _ _ _ _ h =>
    ((Shows.literal rfl rfl).append (h.intercalate (.literal rfl rfl))).after (.literal rfl rfl)

theorem RowCondition.ordered_disjunction (ds : List (List Test)) :
    Ordered (disjunction table ds) :=
  (Ordered.mapM fun ts _ => ordered_conjunction htable ts).next fun _ _ _ _ _ h =>
    ((Shows.literal rfl rfl).append (h.intercalate (.literal rfl rfl))).after (.literal rfl rfl)

theorem RowCondition.shows_present {ρ : Value → String} {all : List Value} (cs : List Column) :
    ShowsAll ρ all [] (cs.map fun k => table ++ "." ++ k.name ++ " IS NOT NULL")
      (cs.map fun k => table ++ "." ++ k.name ++ " IS NOT NULL") :=
  .map fun k _ => (((Shows.plain htable).after (.literal rfl rfl)).after
    (.plain k.plain_name)).after (.literal rfl rfl)

theorem RowCondition.ordered (c : RowCondition) : Ordered (c.sql table) := by
  obtain ⟨present, continued⟩ := c
  cases continued with
  | none =>
    exact .pure fun _ _ =>
      ((shows_present htable present).append .nil).intercalate (.literal rfl rfl)
  | some ds =>
    show Ordered (disjunction table ds >>= fun d => pure (" AND ".intercalate (_ ++ [d])))
    exact (ordered_disjunction htable ds).next fun _ _ _ _ _ h =>
      (((shows_present htable present).append (.cons h .nil)).intercalate (.literal rfl rfl)).congr
        (List.append_nil _)

end

/-! ## Candidates -/

set_option maxRecDepth 4000 in
/-- **Candidate queries show their arguments in order.** -/
theorem PageQuery.ordered (q : PageQuery) : Ordered q.composing := by
  obtain ⟨as, hmembers⟩ := Ordered.mapM (l := q.selections) fun s _ => (s.ordered q.columns).splice
  have htable : Plain "lj" := .literal rfl rfl
  obtain ⟨as', hcondition⟩ := (q.condition.ordered htable).splice
  refine ⟨_, fun ρ all args => .bind (hmembers ρ all args) fun ts us =>
    .bind (hcondition ρ all (args ++ as)) fun t u =>
    .map (.argument (.integer (Int64.ofNat q.limit))) fun t' u' hlimit hcondition hmembers => ?_⟩
  rw [← range'_append, ← range'_append, ← List.append_assoc]
  have hunion := hmembers.intercalate (s := "\n      UNION\n      ") (.literal rfl rfl)
  exact (((((((Shows.literal rfl rfl).append hunion).after (.literal rfl rfl)).append
    hcondition).after (.literal rfl rfl)).after (shows_orderBy htable q.columns)).after
    (.literal rfl rfl)).append hlimit

/-! ## Projections -/

variable {c : Composing String} {order : String}

set_option maxRecDepth 100000 in
/-- The texts of kinds are bound first and show last. -/
theorem covered_justificationQuery (h : Covered c) (horder : ∀ ρ all, Shows ρ all [] order order)
    (hfits : (Composing.fragment c).args.length + 6 < 2 ^ 64) :
    Covered (justificationQuery (Composing.fragment c) order) := by
  obtain ⟨ns, hns, hsource⟩ := h.exists_splice
  obtain ⟨as, has, hagrees⟩ : ∃ as : List Value, as.length = (Composing.fragment c).args.length + 6 ∧
      ∀ ρ all, Agrees ρ all [] as (justificationQuery (Composing.fragment c) order)
        (justificationQuery (Composing.fragment c) order)
        (Shows ρ all (ns.map (· + 6) ++ [1, 2, 3, 4, 5, 6])) := by
    refine ⟨_, ?_, fun ρ all => .bind (.argument _) fun _ _ => .bind (.argument _) fun _ _ =>
      .bind (.argument _) fun _ _ => .bind (.argument _) fun _ _ => .bind (.argument _) fun _ _ =>
      .bind (.argument _) fun _ _ => .map (hsource ρ all _) fun _ _ hsource hquote hparaphrase
        hproposition hjbc hwq hpc => ?_⟩
    · simp
    · have hcolumns : Plain justificationColumns := .literal rfl rfl
      refine Shows.congr ((Shows.literal rfl rfl).after (.plain hcolumns)
        |>.after (.literal rfl rfl) |>.append hsource
        |>.after (.literal rfl rfl) |>.append hpc
        |>.after (.literal rfl rfl) |>.append hwq
        |>.after (.literal rfl rfl) |>.append hjbc
        |>.after (.literal rfl rfl) |>.append hproposition
        |>.after (.literal rfl rfl) |>.append hparaphrase
        |>.after (.literal rfl rfl) |>.append hquote
        |>.after (.literal rfl rfl) |>.after (horder ρ all)) ?_
      simp
  refine covered_of_agrees hagrees (fun n => ?_) (by omega)
  simp only [has, List.mem_append, mem_map_add_iff hns, List.mem_cons, List.not_mem_nil, or_false]
  omega

set_option maxRecDepth 4000 in
/-- The kind of a target is bound once and shows twice. -/
theorem covered_targetIds (h : Covered c)
    (hfits : (Composing.fragment c).args.length + 1 < 2 ^ 64) :
    Covered (targetIds (Composing.fragment c)) := by
  obtain ⟨ns, hns, hcandidates⟩ := h.exists_splice
  refine covered_of_agrees (fun ρ all => .bind (.argument _) fun _ _ =>
    .map (hcandidates ρ all _) fun _ _ hcandidates hkind =>
      (Shows.literal rfl rfl).append hkind
        |>.after (.literal rfl rfl) |>.append hcandidates
        |>.after (.literal rfl rfl) |>.append hkind
        |>.after (.literal rfl rfl)) (fun n => ?_) ?_
  · simp only [List.mem_append, mem_map_add_iff hns, List.mem_singleton, List.length_append,
      List.length_singleton, List.length_nil, List.nil_append]
    omega
  · simp only [List.length_append, List.length_singleton]
    omega

set_option maxRecDepth 4000 in
theorem covered_counterIds (h : Covered c)
    (hfits : (Composing.fragment c).args.length + 1 < 2 ^ 64) :
    Covered (counterIds (Composing.fragment c)) := by
  obtain ⟨ns, hns, hcandidates⟩ := h.exists_splice
  refine covered_of_agrees (fun ρ all => .bind (.argument _) fun _ _ =>
    .map (hcandidates ρ all _) fun _ _ hcandidates hkind =>
      (Shows.literal rfl rfl).append hkind
        |>.after (.literal rfl rfl) |>.append hcandidates
        |>.after (.literal rfl rfl)) (fun n => ?_) ?_
  · simp only [List.mem_append, mem_map_add_iff hns, List.mem_singleton, List.length_append,
      List.length_singleton, List.length_nil, List.nil_append]
    omega
  · simp only [List.length_append, List.length_singleton]
    omega

set_option maxRecDepth 4000 in
/-- The candidates are embedded twice. -/
theorem covered_propositionQuery (h : Covered c)
    (hfits : 2 * (Composing.fragment c).args.length + 2 < 2 ^ 64) :
    Covered (propositionQuery (Composing.fragment c)) := by
  obtain ⟨ns, hns, hcandidates⟩ := h.exists_splice
  refine covered_of_agrees (fun ρ all => .bind (.argument _) fun _ _ =>
    .bind (hcandidates ρ all _) fun _ _ => .bind (.argument _) fun _ _ =>
    .map (hcandidates ρ all _) fun _ _ hroots hroot htargets htarget =>
      (Shows.literal rfl rfl).append htarget
        |>.after (.literal rfl rfl) |>.append htargets
        |>.after (.literal rfl rfl) |>.append hroot
        |>.after (.literal rfl rfl) |>.append hroots
        |>.after (.literal rfl rfl)) (fun n => ?_) ?_
  · simp only [List.mem_append, mem_map_add_iff hns, List.mem_singleton, List.length_append,
      List.length_singleton, List.length_nil, List.nil_append]
    omega
  · simp only [List.length_append, List.length_singleton]
    omega

/-! ## The queries of a page -/

/-- The arguments of the candidate query, part by part. -/
theorem PageQuery.args_candidates (q : PageQuery) : q.candidates.args =
    (q.selections.flatMap fun s => (s.fragment q.columns).args) ++
      (Composing.fragment (q.condition.sql "lj")).args ++ [.integer (Int64.ofNat q.limit)] := by
  have hmembers := args_mapM_splice (fun s : Selection => s.fragment q.columns) q.selections
    .numbered []
  rw [List.nil_append] at hmembers
  rw [← hmembers]
  rfl

theorem length_args_propositionRows (f : Fragment) :
    (propositionRows f).args.length = 2 * f.args.length + 2 := by
  have hargs : (propositionRows f).args =
      ([code TargetType.proposition] ++ f.args) ++ [code RootTargetType.proposition] ++ f.args := rfl
  simp only [hargs, List.length_append, List.length_singleton]
  omega

/-- **The queries of a page are closed and bind what they mean.**  The candidate
    query has its placeholders in order, one for each of its arguments.  It and
    the queries made about it have placeholders for all of their arguments and
    for nothing else, and with the arguments in their places they are what they
    are composed of; so is every part of them.  The longest list of arguments
    has to be one that memory can hold, so that all their numbers fit a word. -/
theorem PageQuery.queries_standFor (q : PageQuery)
    (hfits : (propositionRows q.candidates).args.length < 2 ^ 63) :
    q.candidates.placeholders = List.range' 1 q.candidates.args.length ∧
    q.candidates.StandsFor q.composing ∧
    (∀ s ∈ q.selections, (s.fragment q.columns).StandsFor (s.composing q.columns)) ∧
    (Composing.fragment (q.condition.sql "lj")).StandsFor (q.condition.sql "lj") ∧
    (primaryRows q.candidates q.columns).StandsFor
      (justificationQuery q.candidates (orderBy q.columns "j")) ∧
    (Composing.fragment (targetIds q.candidates)).StandsFor (targetIds q.candidates) ∧
    (targetRows q.candidates).StandsFor
      (justificationQuery (Composing.fragment (targetIds q.candidates)) "j.justification_id") ∧
    (Composing.fragment (counterIds q.candidates)).StandsFor (counterIds q.candidates) ∧
    (counterRows q.candidates).StandsFor
      (justificationQuery (Composing.fragment (counterIds q.candidates))
        "j.created, j.justification_id") ∧
    (propositionRows q.candidates).StandsFor (propositionQuery q.candidates) := by
  have hfits : 2 * q.candidates.args.length + 8 < 2 ^ 64 := by
    rw [length_args_propositionRows] at hfits
    omega
  have hlength := congrArg List.length q.args_candidates
  rw [List.length_append, List.length_append, List.length_singleton] at hlength
  have hj : Plain "j" := .literal rfl rfl
  have hlj : Plain "lj" := .literal rfl rfl
  have hq : Covered q.composing :=
    q.ordered.covered (show q.candidates.args.length < 2 ^ 64 by omega)
  have htargets : Covered (targetIds q.candidates) :=
    covered_targetIds hq (show q.candidates.args.length + 1 < 2 ^ 64 by omega)
  have hcounters : Covered (counterIds q.candidates) :=
    covered_counterIds hq (show q.candidates.args.length + 1 < 2 ^ 64 by omega)
  refine ⟨?_, hq.standsFor, fun s hs => ?_, ?_, ?_, htargets.standsFor, ?_, hcounters.standsFor,
    ?_, ?_⟩
  · have hshows := q.ordered.shows (show q.candidates.args.length < 2 ^ 64 by omega) fun _ => ""
    exact hshows.placeholders_eq.1
  · have hmember := (List.sublist_flatten_of_mem (List.mem_map_of_mem hs
      (f := fun s : Selection => (s.fragment q.columns).args))).length_le
    rw [← List.flatMap_def] at hmember
    exact ((s.ordered q.columns).covered
      (show (s.fragment q.columns).args.length < 2 ^ 64 by omega)).standsFor
  · exact ((q.condition.ordered hlj).covered (by omega)).standsFor
  · exact (covered_justificationQuery hq (fun _ _ => shows_orderBy hj _)
      (show q.candidates.args.length + 6 < 2 ^ 64 by omega)).standsFor
  · exact (covered_justificationQuery htargets (fun _ _ => .literal rfl rfl)
      (show q.candidates.args.length + 1 + 6 < 2 ^ 64 by omega)).standsFor
  · exact (covered_justificationQuery hcounters (fun _ _ => .literal rfl rfl)
      (show q.candidates.args.length + 1 + 6 < 2 ^ 64 by omega)).standsFor
  · exact (covered_propositionQuery hq
      (show 2 * q.candidates.args.length + 2 < 2 ^ 64 by omega)).standsFor

/-- What comes after a justification among those that rest on two writs, or that
    have one of two ids. -/
def Request.afterBoundary : Request :=
  { sorts := [⟨"polarity", some .desc, some "POSITIVE"⟩, ⟨"id", none, some "4"⟩],
    count := 5, isContinuation := true : Request }
    |>.withFilter .writId (.many ["1", "2"])
    |>.withFilter .justificationId (.many ["5", "6"])

theorem PageQuery.queries_standFor_afterBoundary : ∃ q, Request.afterBoundary.compile = .ok q ∧
    (propositionRows q.candidates).args.length < 2 ^ 63 ∧
    q.candidates.placeholders = List.range' 1 14 ∧
    q.candidates.StandsFor q.composing ∧
    (propositionRows q.candidates).StandsFor (propositionQuery q.candidates) := by
  obtain ⟨q, hq, hlength⟩ : ∃ q, Request.afterBoundary.compile = .ok q ∧
      q.candidates.args.length = 14 := ⟨_, rfl, by decide +kernel⟩
  have hfits : (propositionRows q.candidates).args.length < 2 ^ 63 := by
    rw [length_args_propositionRows, hlength]
    decide
  obtain ⟨hplaceholders, hcandidates, -, -, -, -, -, -, -, hpropositions⟩ :=
    q.queries_standFor hfits
  rw [hlength] at hplaceholders
  exact ⟨q, hq, hfits, hplaceholders, hcandidates, hpropositions⟩

end Rationale.Query
