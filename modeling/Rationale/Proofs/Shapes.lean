/-
  Rationale — requests of one shape have one text.

  What a request asks for shows in its queries as numbered placeholders alone.
  Which texts are put together depends on its shape (`Request.SameShape`): the
  filters and how many values each has, the sort columns, and whether it is a
  continuation.  And no text has a quote, so no part of a query is ever read as
  a literal.

  * `quoteless_renumber`: moving placeholders brings no quote in;
  * `Unison`: two constructions that return the same, whatever is bound, with
    one rule for each way to build a construction;
  * `sameShape_of_compile`: requests of one shape have queries of one shape;
  * `Request.texts_of_sameShape`: all their texts are the same.
-/
import Mathlib.Data.List.Forall2
import Rationale.Proofs.Outcome
import Rationale.Proofs.Queries

namespace Rationale.Sql

open Composing

/-! ## Quotes -/

/-- The text has no quote, with which a literal would start. -/
def Quoteless (t : String) : Prop :=
  '\x27' ∉ t.toList

instance (t : String) : Decidable (Quoteless t) :=
  inferInstanceAs (Decidable (_ ∉ _))

namespace Quoteless

variable {s t : String}

theorem literal {cs : List Char} (hs : s = String.ofList cs)
    (hcs : (cs.all fun c => c ≠ '\x27') = true) : Quoteless s := by
  rw [Quoteless, hs, String.toList_ofList]
  intro hmem
  have hne := List.all_eq_true.1 hcs _ hmem
  exact absurd rfl (of_decide_eq_true hne)

theorem plain (h : Plain s) : Quoteless s := by
  simp only [Plain, Sql.plain, Bool.and_eq_true, List.all_eq_true, decide_eq_true_eq] at h
  intro hmem
  exact (h.1 _ hmem).2 rfl

theorem append (hs : Quoteless s) (ht : Quoteless t) : Quoteless (s ++ t) := by
  rw [Quoteless, String.toList_append, List.mem_append]
  exact fun h => h.elim hs ht

theorem intercalate {ts : List String} (hs : Quoteless s) (hts : ∀ t ∈ ts, Quoteless t) :
    Quoteless (s.intercalate ts) := by
  induction ts with
  | nil =>
    have hempty : Quoteless "" := .literal rfl rfl
    exact hempty
  | cons t ts ih =>
    have ht := hts t List.mem_cons_self
    cases ts with
    | nil => exact ht
    | cons u us =>
      have hrest := ih fun v hv => hts v (List.mem_cons_of_mem t hv)
      rw [String.intercalate_cons_cons]
      exact (ht.append hs).append hrest

end Quoteless

theorem Quoteless.placeholder (n : Nat) : Quoteless (Sql.placeholder n) := by
  have htext : (Sql.placeholder n).toList = (Piece.placeholder n).write := by
    simp [Sql.placeholder, Piece.write, Nat.repr_eq_ofList_toDigits]
  rw [Quoteless, htext]
  exact quote_not_mem_placeholder n

/-- **Moving placeholders brings no quote in.** -/
theorem quoteless_renumber {t : String} (h : Quoteless t) (k : Nat) : Quoteless (renumber t k) := by
  rw [Quoteless, ← List.count_eq_zero, count_quote_renumber]
  exact List.count_eq_zero.2 h

/-! ## Constructions in unison -/

/-- The fragments differ in the values of their arguments alone, and their one
    text has no quote. -/
structure Fragment.SameText (f g : Fragment) : Prop where
  sql : f.sql = g.sql
  length : f.args.length = g.args.length
  quoteless : Quoteless f.sql

/-- Behind as many arguments, `c` and `d` return the same, of which `P` holds,
    and bind as many. -/
def Unison {α : Type} (P : α → Prop) (c d : Composing α) : Prop :=
  ∀ args args' : List Value, args.length = args'.length →
    ((c.run .numbered).run args).1 = ((d.run .numbered).run args').1 ∧
    ((c.run .numbered).run args).2.length = ((d.run .numbered).run args').2.length ∧
    P ((c.run .numbered).run args).1

namespace Unison

variable {α β : Type} {P : α → Prop} {Q : β → Prop}

theorem pure {a : α} (h : P a) : Unison P (pure a) (pure a) :=
  fun _ _ hlength => ⟨rfl, hlength, h⟩

/-- One step and then others, which may make use of what it returns. -/
theorem bind {c d : Composing α} {f g : α → Composing β} (hc : Unison P c d)
    (hf : ∀ a, P a → Unison Q (f a) (g a)) : Unison Q (c >>= f) (d >>= g) := by
  intro args args' hlength
  obtain ⟨hsame, hbound, hP⟩ := hc args args' hlength
  have hnext := hf _ hP _ _ hbound
  rw [hsame] at hnext
  have hrun : ((c >>= f).run .numbered).run args =
      ((f ((d.run .numbered).run args').1).run .numbered).run ((c.run .numbered).run args).2 := by
    rw [← hsame]
    rfl
  rw [hrun]
  exact hnext

/-- One step, and what is made of what it returns. -/
theorem map {c d : Composing α} {f : α → β} (hc : Unison P c d) (hf : ∀ a, P a → Q (f a)) :
    Unison Q (c >>= fun a => Pure.pure (f a)) (d >>= fun a => Pure.pure (f a)) :=
  hc.bind fun a ha => .pure (hf a ha)

/-- Any two arguments show as the same placeholder. -/
theorem argument (v w : Value) : Unison Quoteless (Composing.bind v) (Composing.bind w) := by
  intro args args' hlength
  refine ⟨?_, ?_, ?_⟩
  · show placeholder (args.length + 1) = placeholder (args'.length + 1)
    rw [hlength]
  · show (args ++ [v]).length = (args' ++ [w]).length
    rw [List.length_append, List.length_append, hlength]
    rfl
  · exact .placeholder (args.length + 1)

theorem splice {f g : Fragment} (h : f.SameText g) :
    Unison Quoteless (Composing.splice f) (Composing.splice g) := by
  intro args args' hlength
  refine ⟨?_, ?_, ?_⟩
  · show renumber f.sql args.length = renumber g.sql args'.length
    rw [h.sql, hlength]
  · show (args ++ f.args).length = (args' ++ g.args).length
    rw [List.length_append, List.length_append, hlength, h.length]
  · exact quoteless_renumber h.quoteless args.length

theorem mapM {γ δ : Type} {f : γ → Composing String} {g : δ → Composing String} {l : List γ}
    {l' : List δ} (h : List.Forall₂ (fun a b => Unison Quoteless (f a) (g b)) l l') :
    Unison (fun ts => ∀ t ∈ ts, Quoteless t) (l.mapM f) (l'.mapM g) := by
  induction h with
  | nil => exact .pure (by simp)
  | cons hab _ ih =>
    rw [List.mapM_cons, List.mapM_cons]
    refine hab.bind fun t ht => ih.map fun ts hts => ?_
    intro u hu
    rcases List.mem_cons.1 hu with rfl | hu
    · exact ht
    · exact hts u hu

/-- **Constructions in unison end in fragments with one text.** -/
theorem fragment {c d : Composing String} (h : Unison Quoteless c d) :
    (Composing.fragment c).SameText (Composing.fragment d) := by
  obtain ⟨hsame, hbound, hquoteless⟩ := h [] [] rfl
  exact ⟨hsame, hbound, hquoteless⟩

theorem bindAll {vs ws : List Value} (h : vs.length = ws.length) :
    Unison Quoteless (Composing.bindAll vs) (Composing.bindAll ws) := by
  have hsteps : List.Forall₂ (fun v w => Unison Quoteless (Composing.bind v) (Composing.bind w))
      vs ws := List.forall₂_iff_zip.2 ⟨h, fun _ => .argument _ _⟩
  exact (mapM hsteps).map fun ts hts => .intercalate (.literal rfl rfl) hts

end Unison

end Rationale.Sql

namespace Rationale.Query

open Sql

/-! ## Shapes -/

/-- The column without the value of the boundary. -/
def SortColumn.unbounded (c : SortColumn) : SortColumn :=
  { c with value := none }

/-- The requests have the same filters with as many values each, the same sort
    columns in the same directions, and both or neither is a continuation. -/
structure Request.SameShape (r r' : Request) : Prop where
  filters : ∀ name,
    (r.filters name).map (·.values.length) = (r'.filters name).map (·.values.length)
  sorts : (resolve r.sorts).toOption.map (·.map SortColumn.unbounded) =
    (resolve r'.sorts).toOption.map (·.map SortColumn.unbounded)
  isContinuation : r.isContinuation = r'.isContinuation

/-- The selections look on one path, for as many values. -/
inductive Selection.SameShape : Selection → Selection → Prop
  | every : SameShape .every .every
  | reaching {place path vs ws} : vs.length = ws.length →
      SameShape (.reaching place path vs) (.reaching place path ws)

structure Test.SameShape (t u : Test) : Prop where
  column : t.column = u.column
  comparison : t.comparison = u.comparison

structure RowCondition.SameShape (c d : RowCondition) : Prop where
  present : c.present = d.present
  continued : Option.Rel (List.Forall₂ (List.Forall₂ Test.SameShape)) c.continued d.continued

structure PageQuery.SameShape (q q' : PageQuery) : Prop where
  selections : List.Forall₂ Selection.SameShape q.selections q'.selections
  columns : q.columns.map SortColumn.unbounded = q'.columns.map SortColumn.unbounded
  condition : q.condition.SameShape q'.condition

/-! ## Requests of one shape -/

variable {r r' : Request} {q q' : PageQuery} {cs cs' : List SortColumn}

theorem length_filterValues {name : FilterName} {value : FilterValue} {vs : List Value}
    (h : filterValues name value = .ok vs) : vs.length = value.values.length := by
  unfold filterValues at h
  split at h
  · cases h
  · exact (List.Forall₂.length_eq (mapM_eq_ok.1 h)).symm

theorem sameShape_of_paths {place : Place} (paths : List (Path place)) {vs ws : List Value}
    (h : vs.length = ws.length) :
    List.Forall₂ Selection.SameShape (paths.map fun path => .reaching place path vs)
      (paths.map fun path => .reaching place path ws) := by
  rw [List.forall₂_map_left_iff, List.forall₂_map_right_iff, List.forall₂_same]
  exact fun _ _ => .reaching h

theorem sameShape_of_selectionsFor {fs fs' : Filters} {names : List FilterName}
    (hfs : ∀ name, (fs name).map (·.values.length) = (fs' name).map (·.values.length))
    {ss ss' : List Selection} (hs : selectionsFor fs names = .ok ss)
    (hs' : selectionsFor fs' names = .ok ss') : List.Forall₂ Selection.SameShape ss ss' := by
  induction names generalizing ss ss' with
  | nil =>
    cases hs
    cases hs'
    exact .nil
  | cons name names ih =>
    have hname := hfs name
    rw [selectionsFor] at hs hs'
    cases hf : fs name with
    | none =>
      rw [hf, Option.map_none] at hname
      rw [hf] at hs
      rw [Option.map_eq_none_iff.1 hname.symm] at hs'
      exact ih hs hs'
    | some value =>
      rw [hf, Option.map_some] at hname
      obtain ⟨value', hf', hcount⟩ := Option.map_eq_some_iff.1 hname.symm
      rw [hf] at hs
      rw [hf'] at hs'
      obtain ⟨vs, hvs, hs⟩ := bind_eq_ok.1 hs
      obtain ⟨rest, hrest, hs⟩ := bind_eq_ok.1 hs
      obtain ⟨ws, hws, hs'⟩ := bind_eq_ok.1 hs'
      obtain ⟨rest', hrest', hs'⟩ := bind_eq_ok.1 hs'
      cases hs
      cases hs'
      have hlength : vs.length = ws.length := by
        rw [length_filterValues hvs, length_filterValues hws, hcount]
      exact List.rel_append (sameShape_of_paths name.paths hlength) (ih hrest hrest')

theorem sameShape_of_selections {fs fs' : Filters}
    (hfs : ∀ name, (fs name).map (·.values.length) = (fs' name).map (·.values.length))
    {ss ss' : List Selection} (hs : selections fs = .ok ss) (hs' : selections fs' = .ok ss') :
    List.Forall₂ Selection.SameShape ss ss' := by
  have hnone : ∀ name, (fs name).isNone = (fs' name).isNone := by
    intro name
    have hname := congrArg Option.isNone (hfs name)
    rwa [Option.isNone_map, Option.isNone_map] at hname
  unfold selections at hs hs'
  simp only [hnone] at hs
  by_cases hall : (FilterName.all.all fun name => (fs' name).isNone) = true
  · rw [if_pos hall] at hs hs'
    cases hs
    cases hs'
    exact .cons .every .nil
  · rw [if_neg hall] at hs hs'
    exact sameShape_of_selectionsFor hfs hs hs'

theorem eq_of_unbounded_eq {c c' : SortColumn} (h : c.unbounded = c'.unbounded) :
    c.column = c'.column ∧ c.direction = c'.direction := by
  have hcolumn := congrArg SortColumn.column h
  have hdirection := congrArg SortColumn.direction h
  exact ⟨hcolumn, hdirection⟩

/-- Conditions with the same columns come after their boundaries alike. -/
theorem sameShape_of_after {ps ps' : List (SortColumn × Value)}
    (h : List.Forall₂ (fun p p' => p.1.unbounded = p'.1.unbounded) ps ps') :
    List.Forall₂ (List.Forall₂ Test.SameShape) (after ps) (after ps') := by
  induction h with
  | nil => exact .nil
  | @cons p p' ps ps' hp _ ih =>
    obtain ⟨hcolumn, hdirection⟩ := eq_of_unbounded_eq hp
    refine .cons (.cons ⟨hcolumn, ?_⟩ .nil) ?_
    · show p.1.comparison = p'.1.comparison
      rw [SortColumn.comparison, SortColumn.comparison, hdirection]
    · rw [List.forall₂_map_left_iff, List.forall₂_map_right_iff]
      exact ih.imp fun _ _ htests => .cons ⟨hcolumn, rfl⟩ htests

theorem forall₂_zip_of_unbounded {vs ws : List Value}
    (hcs : cs.map SortColumn.unbounded = cs'.map SortColumn.unbounded)
    (hvs : cs.length = vs.length) (hws : cs'.length = ws.length) :
    List.Forall₂ (fun p p' => p.1.unbounded = p'.1.unbounded) (cs.zip vs) (cs'.zip ws) := by
  have hzip : ∀ {ds : List SortColumn} {us : List Value}, ds.length = us.length →
      (ds.zip us).map (fun p => p.1.unbounded) = ds.map SortColumn.unbounded := by
    intro ds us hlength
    have hfst := List.map_fst_zip (Nat.le_of_eq hlength)
    calc (ds.zip us).map (fun p => p.1.unbounded)
        = ((ds.zip us).map Prod.fst).map SortColumn.unbounded := by rw [List.map_map]; rfl
      _ = ds.map SortColumn.unbounded := by rw [hfst]
  have hsame := (hzip hvs).trans (hcs.trans (hzip hws).symm)
  rw [← List.forall₂_eq_eq_eq, List.forall₂_map_left_iff, List.forall₂_map_right_iff] at hsame
  exact hsame

theorem sameShape_of_rowCondition
    (hcs : cs.map SortColumn.unbounded = cs'.map SortColumn.unbounded) {b : Bool}
    {c c' : RowCondition} (hc : rowCondition cs b = .ok c) (hc' : rowCondition cs' b = .ok c') :
    c.SameShape c' := by
  have hpresent : cs.map (·.column) = cs'.map (·.column) := by
    have hcolumns := congrArg (List.map SortColumn.column) hcs
    simpa only [List.map_map, Function.comp_def, SortColumn.unbounded] using hcolumns
  unfold rowCondition at hc hc'
  cases b with
  | false =>
    cases hc
    cases hc'
    exact ⟨hpresent, .none⟩
  | true =>
    obtain ⟨vs, hvs, hc⟩ := bind_eq_ok.1 hc
    obtain ⟨ws, hws, hc'⟩ := bind_eq_ok.1 hc'
    cases hc
    cases hc'
    refine ⟨hpresent, .some (sameShape_of_after ?_)⟩
    have hvs := List.Forall₂.length_eq (mapM_eq_ok.1 hvs)
    have hws := List.Forall₂.length_eq (mapM_eq_ok.1 hws)
    exact forall₂_zip_of_unbounded hcs hvs hws

/-- **Requests of one shape have queries of one shape.** -/
theorem sameShape_of_compile (h : r.SameShape r') (hq : r.compile = .ok q)
    (hq' : r'.compile = .ok q') : q.SameShape q' := by
  obtain ⟨cs, hcs, hq⟩ := bind_eq_ok.1 hq
  obtain ⟨ss, hss, hq⟩ := bind_eq_ok.1 hq
  obtain ⟨c, hc, hq⟩ := bind_eq_ok.1 hq
  obtain ⟨cs', hcs', hq'⟩ := bind_eq_ok.1 hq'
  obtain ⟨ss', hss', hq'⟩ := bind_eq_ok.1 hq'
  obtain ⟨c', hc', hq'⟩ := bind_eq_ok.1 hq'
  cases hq
  cases hq'
  have hcolumns := h.sorts
  rw [hcs, hcs'] at hcolumns
  have hcolumns := Option.some.inj hcolumns
  rw [h.isContinuation] at hc
  exact ⟨sameShape_of_selections h.filters hss hss', hcolumns,
    sameShape_of_rowCondition hcolumns hc hc'⟩

/-! ## Texts of one shape -/

theorem projection_unbounded (cs : List SortColumn) :
    projection (cs.map SortColumn.unbounded) = projection cs := by
  simp only [projection, List.filter_map, List.map_map]
  rfl

theorem orderBy_unbounded (cs : List SortColumn) (table : String) :
    orderBy (cs.map SortColumn.unbounded) table = orderBy cs table := by
  simp only [orderBy, List.map_map]
  rfl

theorem projection_congr (h : cs.map SortColumn.unbounded = cs'.map SortColumn.unbounded) :
    projection cs = projection cs' := by
  rw [← projection_unbounded cs, h, projection_unbounded]

theorem orderBy_congr (h : cs.map SortColumn.unbounded = cs'.map SortColumn.unbounded)
    (table : String) : orderBy cs table = orderBy cs' table := by
  rw [← orderBy_unbounded cs, h, orderBy_unbounded]

theorem quoteless_projection (cs : List SortColumn) : Quoteless (projection cs) := by
  refine .intercalate (.literal rfl rfl) fun t ht => ?_
  rcases List.mem_cons.1 ht with rfl | ht
  · exact .literal rfl rfl
  · obtain ⟨c, -, rfl⟩ := List.mem_map.1 ht
    have hname := Quoteless.plain c.column.plain_name
    exact (((Quoteless.literal rfl rfl).append hname).append (.literal rfl rfl)).append hname

theorem quoteless_orderBy {table : String} (htable : Quoteless table) (cs : List SortColumn) :
    Quoteless (orderBy cs table) := by
  refine .intercalate (.literal rfl rfl) fun t ht => ?_
  obtain ⟨c, -, rfl⟩ := List.mem_map.1 ht
  exact (((htable.append (.literal rfl rfl)).append (.plain c.column.plain_name)).append
    (.literal rfl rfl)).append (.plain c.plain_keyword)

set_option maxRecDepth 4000 in
theorem unison_basisAtoms (type : AtomType) :
    Unison Quoteless (basisAtoms type) (basisAtoms type) :=
  (Unison.argument _ _).bind fun _ hkind => (Unison.argument _ _).map fun _ htype =>
    (((Quoteless.literal rfl rfl).append hkind).append (.literal rfl rfl)).append htype

set_option maxRecDepth 4000 in
theorem Path.unison {place : Place} (path : Path place) :
    Unison Quoteless path.joins path.joins := by
  induction path with
  | self => exact .pure (.literal rfl rfl)
  | compoundBasis | quoteBasis | excerptBasis =>
    exact (Unison.argument _ _).map fun _ h =>
      ((Quoteless.literal rfl rfl).append h).append (.literal rfl rfl)
  | basisProposition | basisParaphrase =>
    exact (unison_basisAtoms _).map fun _ h => h.append (.literal rfl rfl)
  | compoundAtom _ ih | paraphrasing _ ih | writ _ ih | quoteUrl _ ih | excerptUrl _ ih =>
    exact ih.map fun _ h => h.append (.literal rfl rfl)
  | paraphrasedQuote _ ih | paraphrasedExcerpt _ ih =>
    exact ih.bind fun _ h => (Unison.argument _ _).map fun _ h' =>
      ((h.append (.literal rfl rfl)).append h').append (.literal rfl rfl)

set_option maxRecDepth 4000 in
theorem Selection.SameShape.unison {s s' : Selection} (h : s.SameShape s')
    (hcs : cs.map SortColumn.unbounded = cs'.map SortColumn.unbounded) :
    Unison Quoteless (s.composing cs) (s'.composing cs') := by
  have hprojected := quoteless_projection cs'
  cases h with
  | every =>
    rw [Selection.composing, Selection.composing, projection_congr hcs]
    exact .pure (((Quoteless.literal rfl rfl).append hprojected).append (.literal rfl rfl))
  | @reaching place path vs ws hlength =>
    rw [Selection.composing, Selection.composing, projection_congr hcs]
    have hcolumn := Quoteless.plain place.plain_column
    exact path.unison.bind fun _ hjoins => (Unison.bindAll hlength).map fun _ hlist =>
      ((((((((Quoteless.literal rfl rfl).append hprojected).append (.literal rfl rfl)).append
        hjoins).append (.literal rfl rfl)).append hcolumn).append
        (.literal rfl rfl)).append hlist).append (.literal rfl rfl)

section

variable {table : String} (htable : Quoteless table)

include htable

theorem Test.SameShape.unison {t u : Test} (h : t.SameShape u) :
    Unison Quoteless (t.sql table) (u.sql table) := by
  have hname := Quoteless.plain u.column.plain_name
  have hsymbol := Quoteless.plain (plain_symbol u.comparison)
  rw [Test.sql, Test.sql, h.column, h.comparison]
  exact (Unison.argument _ _).map fun _ hp =>
    (((((htable.append (.literal rfl rfl)).append hname).append (.literal rfl rfl)).append
      hsymbol).append (.literal rfl rfl)).append hp

theorem RowCondition.unison_conjunction {ts us : List Test}
    (h : List.Forall₂ Test.SameShape ts us) :
    Unison Quoteless (conjunction table ts) (conjunction table us) :=
  (Unison.mapM (h.imp fun _ _ htu => htu.unison htable)).map fun _ hts =>
    ((Quoteless.literal rfl rfl).append (.intercalate (.literal rfl rfl) hts)).append
      (.literal rfl rfl)

theorem RowCondition.unison_disjunction {ds es : List (List Test)}
    (h : List.Forall₂ (List.Forall₂ Test.SameShape) ds es) :
    Unison Quoteless (disjunction table ds) (disjunction table es) :=
  (Unison.mapM (h.imp fun _ _ htu => unison_conjunction htable htu)).map fun _ hds =>
    ((Quoteless.literal rfl rfl).append (.intercalate (.literal rfl rfl) hds)).append
      (.literal rfl rfl)

theorem RowCondition.SameShape.unison {c d : RowCondition} (h : c.SameShape d) :
    Unison Quoteless (c.sql table) (d.sql table) := by
  have hpresent : ∀ t ∈ d.present.map fun k => table ++ "." ++ k.name ++ " IS NOT NULL",
      Quoteless t := by
    intro t ht
    obtain ⟨k, -, rfl⟩ := List.mem_map.1 ht
    exact ((htable.append (.literal rfl rfl)).append (.plain k.plain_name)).append
      (.literal rfl rfl)
  obtain ⟨present, continued⟩ := c
  obtain ⟨present', continued'⟩ := d
  obtain ⟨rfl, hcontinued⟩ := h
  cases hcontinued with
  | none => exact .pure (.intercalate (.literal rfl rfl) (by simpa using hpresent))
  | @some ds es hds =>
    show Unison Quoteless (disjunction table ds >>= fun d => pure (" AND ".intercalate (_ ++ [d])))
      (disjunction table es >>= fun d => pure (" AND ".intercalate (_ ++ [d])))
    refine (unison_disjunction htable hds).map fun d hd => .intercalate (.literal rfl rfl) ?_
    intro t ht
    rcases List.mem_append.1 ht with ht | ht
    · exact hpresent t ht
    · cases List.mem_singleton.1 ht
      exact hd

end

set_option maxRecDepth 4000 in
theorem PageQuery.SameShape.unison (h : q.SameShape q') :
    Unison Quoteless q.composing q'.composing := by
  have hmember : ∀ s s' : Selection, s.SameShape s' →
      Unison Quoteless (Composing.splice (s.fragment q.columns))
        (Composing.splice (s'.fragment q'.columns)) :=
    fun _ _ hs => .splice (hs.unison h.columns).fragment
  have hmembers := Unison.mapM (h.selections.imp hmember)
  have hlj : Quoteless "lj" := .literal rfl rfl
  have hcondition := Unison.splice (h.condition.unison hlj).fragment
  have horder := quoteless_orderBy hlj q'.columns
  unfold PageQuery.composing
  rw [orderBy_congr h.columns]
  exact hmembers.bind fun _ hmembers => hcondition.bind fun _ hcondition =>
    (Unison.argument _ _).map fun _ hlimit =>
      ((((((Quoteless.literal rfl rfl).append (.intercalate (.literal rfl rfl) hmembers)).append
        (.literal rfl rfl)).append hcondition).append (.literal rfl rfl)).append horder).append
        (.literal rfl rfl) |>.append hlimit

/-! ## Queries about candidates -/

variable {f g : Fragment} {order : String}

set_option maxRecDepth 100000 in
theorem sameText_justificationRows (h : f.SameText g) (horder : Quoteless order) :
    (justificationRows f order).SameText (justificationRows g order) := by
  have hcolumns : Quoteless justificationColumns := .literal rfl rfl
  refine Unison.fragment ?_
  exact (Unison.argument _ _).bind fun _ hpc => (Unison.argument _ _).bind fun _ hwq =>
    (Unison.argument _ _).bind fun _ hjbc => (Unison.argument _ _).bind fun _ hproposition =>
    (Unison.argument _ _).bind fun _ hparaphrase => (Unison.argument _ _).bind fun _ hquote =>
    (Unison.splice h).map fun _ hsource =>
      (Quoteless.literal rfl rfl).append hcolumns
        |>.append (.literal rfl rfl) |>.append hsource
        |>.append (.literal rfl rfl) |>.append hpc
        |>.append (.literal rfl rfl) |>.append hwq
        |>.append (.literal rfl rfl) |>.append hjbc
        |>.append (.literal rfl rfl) |>.append hproposition
        |>.append (.literal rfl rfl) |>.append hparaphrase
        |>.append (.literal rfl rfl) |>.append hquote
        |>.append (.literal rfl rfl) |>.append horder

set_option maxRecDepth 4000 in
theorem sameText_targetIds (h : f.SameText g) :
    (Composing.fragment (targetIds f)).SameText (Composing.fragment (targetIds g)) :=
  Unison.fragment <| (Unison.argument _ _).bind fun _ hkind => (Unison.splice h).map
    fun _ hcandidates =>
      (Quoteless.literal rfl rfl).append hkind
        |>.append (.literal rfl rfl) |>.append hcandidates
        |>.append (.literal rfl rfl) |>.append hkind
        |>.append (.literal rfl rfl)

set_option maxRecDepth 4000 in
theorem sameText_counterIds (h : f.SameText g) :
    (Composing.fragment (counterIds f)).SameText (Composing.fragment (counterIds g)) :=
  Unison.fragment <| (Unison.argument _ _).bind fun _ hkind => (Unison.splice h).map
    fun _ hcandidates =>
      (Quoteless.literal rfl rfl).append hkind
        |>.append (.literal rfl rfl) |>.append hcandidates
        |>.append (.literal rfl rfl)

set_option maxRecDepth 4000 in
theorem sameText_propositionRows (h : f.SameText g) :
    (propositionRows f).SameText (propositionRows g) :=
  Unison.fragment <| (Unison.argument _ _).bind fun _ htarget => (Unison.splice h).bind
    fun _ htargets => (Unison.argument _ _).bind fun _ hroot => (Unison.splice h).map
    fun _ hroots =>
      (Quoteless.literal rfl rfl).append htarget
        |>.append (.literal rfl rfl) |>.append htargets
        |>.append (.literal rfl rfl) |>.append hroot
        |>.append (.literal rfl rfl) |>.append hroots
        |>.append (.literal rfl rfl)

/-! ## The queries of two requests -/

/-- **Requests of one shape have one text.**  Whatever the values of their
    filters, the values of their boundaries and their counts are, the candidate
    query and the queries made about the candidates are the same but for the
    values of their arguments; so is every part that is spliced into another.
    And none of these texts has a quote, with which a literal would start. -/
theorem Request.texts_of_sameShape (h : r.SameShape r') (hq : r.compile = .ok q)
    (hq' : r'.compile = .ok q') :
    q.candidates.SameText q'.candidates ∧
    List.Forall₂ (fun s s' => (s.fragment q.columns).SameText (s'.fragment q'.columns))
      q.selections q'.selections ∧
    (Composing.fragment (q.condition.sql "lj")).SameText
      (Composing.fragment (q'.condition.sql "lj")) ∧
    (primaryRows q.candidates q.columns).SameText (primaryRows q'.candidates q'.columns) ∧
    (Composing.fragment (targetIds q.candidates)).SameText
      (Composing.fragment (targetIds q'.candidates)) ∧
    (targetRows q.candidates).SameText (targetRows q'.candidates) ∧
    (Composing.fragment (counterIds q.candidates)).SameText
      (Composing.fragment (counterIds q'.candidates)) ∧
    (counterRows q.candidates).SameText (counterRows q'.candidates) ∧
    (propositionRows q.candidates).SameText (propositionRows q'.candidates) := by
  have hshape := sameShape_of_compile h hq hq'
  have hcandidates : q.candidates.SameText q'.candidates := hshape.unison.fragment
  have htargets := sameText_targetIds hcandidates
  have hcounters := sameText_counterIds hcandidates
  have hlj : Quoteless "lj" := .literal rfl rfl
  have hj : Quoteless "j" := .literal rfl rfl
  refine ⟨hcandidates, ?_, (hshape.condition.unison hlj).fragment, ?_, htargets, ?_, hcounters, ?_,
    sameText_propositionRows hcandidates⟩
  · exact hshape.selections.imp fun _ _ hs => (hs.unison hshape.columns).fragment
  · unfold primaryRows
    rw [orderBy_congr hshape.columns]
    exact sameText_justificationRows hcandidates (quoteless_orderBy hj _)
  · exact sameText_justificationRows htargets (.literal rfl rfl)
  · exact sameText_justificationRows hcounters (.literal rfl rfl)

/-- What comes after a boundary among the justifications that rest on two pages. -/
def Request.restingOn (url url' boundary : String) (count : Nat) : Request :=
  { sorts := [⟨"polarity", some .desc, some boundary⟩], count, isContinuation := true : Request }
    |>.withFilter .url (.many [url, url'])

theorem Request.texts_of_sameShape_restingOn : ∃ q q',
    (restingOn "http://a.test/?1" "http://b.test" "POSITIVE" 5).SameShape
      (restingOn "' OR ?2 = ?2 --" "it's" "') --" 7) ∧
    (restingOn "http://a.test/?1" "http://b.test" "POSITIVE" 5).compile = .ok q ∧
    (restingOn "' OR ?2 = ?2 --" "it's" "') --" 7).compile = .ok q' ∧
    q.candidates.SameText q'.candidates ∧
    (propositionRows q.candidates).SameText (propositionRows q'.candidates) := by
  have hshape : (restingOn "http://a.test/?1" "http://b.test" "POSITIVE" 5).SameShape
      (restingOn "' OR ?2 = ?2 --" "it's" "') --" 7) :=
    ⟨fun name => by cases name <;> rfl, rfl, rfl⟩
  obtain ⟨q, hq⟩ : ∃ q,
    (restingOn "http://a.test/?1" "http://b.test" "POSITIVE" 5).compile = .ok q := ⟨_, rfl⟩
  obtain ⟨q', hq'⟩ : ∃ q', (restingOn "' OR ?2 = ?2 --" "it's" "') --" 7).compile = .ok q' :=
    ⟨_, rfl⟩
  obtain ⟨hcandidates, -, -, -, -, -, -, -, hpropositions⟩ := texts_of_sameShape hshape hq hq'
  exact ⟨q, q', hshape, hq, hq', hcandidates, hpropositions⟩

end Rationale.Query
