/-
  Rationale — which requests are accepted.

  A request is `Meaningful` if its sorts name different columns, its filters have
  values of their kinds, and a continuation has a boundary.  It asks for this part
  by part: `Request.demands` lists what is asked, in the order in which it is
  looked at, and `Demand.Breaks` says with which fault a demand is not met.

  A run `Checks` a list of demands if it stops at the first one that is broken
  (`FirstBroken`), with its fault; runs one after the other check one list after
  the other.

  * `resolveAfter_eq_ok`: which columns a specification resolves to;
  * `checks_compile`: a request checks its demands, in their order;
  * `meaningful_iff`: it is meaningful if none is broken;
  * `accepted_iff`: so it is accepted if it is meaningful, and otherwise refused
    with the first fault.
-/
import Rationale.Proofs.Boundaries
import Rationale.Proofs.TimestampForms

namespace Rationale.Query

open Sql Text Time

variable {α β : Type} {f : Fault} {name : FilterName} {value : FilterValue} {raw : String}
  {s : SortDescription} {c : Column} {sorts before : List SortDescription} {used : List Column}
  {cs : List SortColumn} {filters : Filters}

/-! ## Meaningful requests -/

/-- The property stands for the column. -/
def SortDescription.Names (s : SortDescription) (c : Column) : Prop :=
  columnName s.property = c.name

/-- The text is a value of a column of that kind. -/
def ColumnKind.Admits : ColumnKind → String → Prop
  | text, _ => True
  | integer, raw => WritesInt64 raw.toList
  | timestamp, raw => ∃ t, Instant.Spells raw t

structure Request.Meaningful (r : Request) : Prop where
  sortable : ∀ s ∈ r.sorts, ∃ c, s.Names c
  different : r.sorts.Pairwise fun s t => columnName s.property ≠ columnName t.property
  filled : ∀ name value, r.filters name = some value → value.values ≠ []
  ids : ∀ name value, r.filters name = some value → name.takesIds = true →
    ∀ raw ∈ value.values, WritesId raw.toList
  bounded : r.isContinuation = true → r.sorts ≠ [] ∧
    ∀ s ∈ r.sorts, ∃ c raw, s.Names c ∧ s.value = some raw ∧ c.kind.Admits raw

/-! ## Demands -/

/-- Something that is asked of a request. -/
inductive Demand where
  /-- The entry names a column that none of the entries before it names. -/
  | column (before : List SortDescription) (s : SortDescription)
  /-- The filter has a value. -/
  | filled (name : FilterName) (value : FilterValue)
  /-- The value is one of the filter. -/
  | value (name : FilterName) (raw : String)
  /-- The entry has a value of its column. -/
  | boundary (s : SortDescription)

/-- The demand is not met, and this is the fault. -/
inductive Demand.Breaks : Demand → Fault → Prop
  | unknown {before : List SortDescription} {s : SortDescription} : (∀ c, ¬ s.Names c) →
    Breaks (.column before s) (.sort (.unknownProperty s.property))
  | repeated {before : List SortDescription} {s : SortDescription} {c : Column} : s.Names c →
    (∃ t ∈ before, t.Names c) → Breaks (.column before s) (.sort (.repeated s.property))
  | noValues {name : FilterName} {value : FilterValue} : value.values = [] →
    Breaks (.filled name value) (.filter (.noValues name))
  | notAnId {name : FilterName} {raw : String} : name.takesIds = true → ¬ WritesId raw.toList →
    Breaks (.value name raw) (.filter (.notAnId name raw))
  | noBoundary {s : SortDescription} {c : Column} : s.Names c → s.value = none →
    Breaks (.boundary s) (.sort (.noBoundary c.name))
  | notAnInteger {s : SortDescription} {c : Column} {raw : String} : s.Names c →
    s.value = some raw → c.kind = .integer → ¬ WritesInt64 raw.toList →
    Breaks (.boundary s) (.sort (.notAnInteger c.name raw))
  | notATimestamp {s : SortDescription} {c : Column} {raw : String} : s.Names c →
    s.value = some raw → c.kind = .timestamp → (∀ t, ¬ Instant.Spells raw t) →
    Breaks (.boundary s) (.sort (.notATimestamp c.name raw))

def Demand.Met (d : Demand) : Prop :=
  ∀ f, ¬ d.Breaks f

/-- The first of the demands that is broken is broken with that fault. -/
inductive FirstBroken : List Demand → Fault → Prop
  | here {d ds f} : d.Breaks f → FirstBroken (d :: ds) f
  | later {d ds f} : d.Met → FirstBroken ds f → FirstBroken (d :: ds) f

/-- The demands on the entries of a specification, after others. -/
def columnDemands (before : List SortDescription) : List SortDescription → List Demand
  | [] => []
  | s :: sorts => .column before s :: columnDemands (s :: before) sorts

def filterDemands (filters : Filters) (name : FilterName) : List Demand :=
  match filters name with
  | none => []
  | some value => .filled name value :: value.values.map (.value name)

/-- The entries by which a page is sorted. -/
def keySorts : List SortDescription → List SortDescription
  | [] => [{ property := "id" }]
  | sorts => sorts

/-- What is asked of a request, in the order in which it is looked at. -/
def Request.demands (r : Request) : List Demand :=
  columnDemands [] r.sorts ++ FilterName.all.flatMap (filterDemands r.filters) ++
    if r.isContinuation then (keySorts r.sorts).map .boundary else []

/-! ## What breaks a demand -/

variable {d : Demand} {ds es : List Demand}

theorem named?_eq_some_iff {n : String} : Column.named? n = some c ↔ n = c.name := by
  constructor
  · intro h
    have hname := List.find?_some h
    exact (of_decide_eq_true hname).symm
  · rintro rfl
    exact Column.named?_name c

theorem named?_eq_none_iff {n : String} : Column.named? n = none ↔ ∀ c : Column, n ≠ c.name := by
  simp only [Option.eq_none_iff_forall_ne_some, ne_eq, named?_eq_some_iff]

/-- A property stands for no more than one column. -/
theorem SortDescription.Names.unique {k : Column} (h : s.Names c) (h' : s.Names k) : c = k := by
  have hc := named?_eq_some_iff.2 h
  rw [named?_eq_some_iff.2 h'] at hc
  exact (Option.some.inj hc).symm

/-- A demand is broken in one way only. -/
theorem Demand.Breaks.unique {g : Fault} (h : d.Breaks f) (h' : d.Breaks g) : f = g := by
  cases h with
  | unknown hno =>
    cases h' with
    | unknown => rfl
    | repeated hc => exact absurd hc (hno _)
  | repeated hc =>
    cases h' with
    | unknown hno => exact absurd hc (hno _)
    | repeated => rfl
  | noValues => cases h'; rfl
  | notAnId => cases h'; rfl
  | noBoundary hc hnone =>
    cases h' with
    | noBoundary hc' => rw [hc.unique hc']
    | notAnInteger _ hsome => rw [hnone] at hsome; cases hsome
    | notATimestamp _ hsome => rw [hnone] at hsome; cases hsome
  | notAnInteger hc hraw hkind =>
    cases h' with
    | noBoundary _ hnone => rw [hraw] at hnone; cases hnone
    | notAnInteger hc' hraw' =>
      cases hraw.symm.trans hraw'
      rw [hc.unique hc']
    | notATimestamp hc' _ hkind' => rw [hc.unique hc', hkind'] at hkind; cases hkind
  | notATimestamp hc hraw hkind =>
    cases h' with
    | noBoundary _ hnone => rw [hraw] at hnone; cases hnone
    | notAnInteger hc' _ hkind' => rw [hc.unique hc', hkind'] at hkind; cases hkind
    | notATimestamp hc' hraw' =>
      cases hraw.symm.trans hraw'
      rw [hc.unique hc']

/-- A broken demand is a fault of a sort or of a filter. -/
theorem Demand.Breaks.kind (h : d.Breaks f) :
    (∃ cause, f = .sort cause) ∨ ∃ cause, f = .filter cause := by
  cases h with
  | noValues => exact .inr ⟨_, rfl⟩
  | notAnId => exact .inr ⟨_, rfl⟩
  | _ => exact .inl ⟨_, rfl⟩

theorem met_column_iff : (Demand.column before s).Met ↔
    (∃ c, s.Names c) ∧ ∀ t ∈ before, columnName t.property ≠ columnName s.property := by
  constructor
  · intro h
    have hname : ∃ c, s.Names c := by
      by_contra hno
      exact h _ (.unknown (not_exists.1 hno))
    refine ⟨hname, fun t ht hsame => ?_⟩
    obtain ⟨c, hc⟩ := hname
    exact h _ (.repeated hc ⟨t, ht, hsame.trans hc⟩)
  · rintro ⟨⟨c, hc⟩, hdifferent⟩ f h
    cases h with
    | unknown hno => exact hno c hc
    | repeated hk h =>
      obtain ⟨t, ht, htk⟩ := h
      exact hdifferent t ht (Eq.trans htk hk.symm)

theorem met_filled_iff : (Demand.filled name value).Met ↔ value.values ≠ [] := by
  constructor
  · exact fun h hnil => h _ (.noValues hnil)
  · intro hne f h
    cases h with
    | noValues hnil => exact hne hnil

theorem met_value_iff :
    (Demand.value name raw).Met ↔ (name.takesIds = true → WritesId raw.toList) := by
  constructor
  · intro h hids
    by_contra hnot
    exact h _ (.notAnId hids hnot)
  · intro hid f h
    cases h with
    | notAnId hids hnot => exact hnot (hid hids)

theorem met_boundary_iff (hc : s.Names c) :
    (Demand.boundary s).Met ↔ ∃ raw, s.value = some raw ∧ c.kind.Admits raw := by
  constructor
  · intro h
    cases hvalue : s.value with
    | none => exact absurd (.noBoundary hc hvalue) (h _)
    | some raw =>
      refine ⟨raw, rfl, ?_⟩
      cases hkind : c.kind with
      | text => exact trivial
      | integer =>
        by_contra hnot
        exact h _ (.notAnInteger hc hvalue hkind hnot)
      | timestamp =>
        by_contra hnot
        exact h _ (.notATimestamp hc hvalue hkind (not_exists.1 hnot))
  · rintro ⟨raw, hraw, hadmits⟩ f h
    cases h with
    | noBoundary _ hnone => rw [hraw] at hnone; cases hnone
    | notAnInteger hc' hraw' hkind hnot =>
      cases hc.unique hc'
      cases hraw.symm.trans hraw'
      rw [hkind] at hadmits
      exact hnot hadmits
    | notATimestamp hc' hraw' hkind hnot =>
      cases hc.unique hc'
      cases hraw.symm.trans hraw'
      rw [hkind] at hadmits
      exact hadmits.elim hnot

/-! ## The first broken demand -/

theorem firstBroken_cons : FirstBroken (d :: ds) f ↔ d.Breaks f ∨ d.Met ∧ FirstBroken ds f := by
  constructor
  · intro h
    cases h with
    | here h => exact .inl h
    | later hd h => exact .inr ⟨hd, h⟩
  · rintro (h | ⟨hd, h⟩)
    · exact .here h
    · exact .later hd h

theorem FirstBroken.exists_breaks (h : FirstBroken ds f) : ∃ d ∈ ds, d.Breaks f := by
  induction h with
  | @here d ds f h => exact ⟨d, by simp, h⟩
  | later _ _ ih =>
    obtain ⟨d, hd, h⟩ := ih
    exact ⟨d, by simp [hd], h⟩

theorem exists_firstBroken_iff : (∃ f, FirstBroken ds f) ↔ ¬ ∀ d ∈ ds, d.Met := by
  induction ds with
  | nil =>
    refine iff_of_false ?_ (by simp)
    rintro ⟨f, h⟩
    cases h
  | cons d ds ih =>
    simp only [firstBroken_cons, exists_or, exists_and_left, ih, List.forall_mem_cons, Demand.Met]
    by_cases hd : ∃ f, d.Breaks f
    · exact iff_of_true (.inl hd) fun h => hd.elim h.1
    · have hmet : ∀ f, ¬ d.Breaks f := not_exists.1 hd
      simp [hmet]

/-- Demands that are looked at after others count if those are met. -/
theorem firstBroken_append :
    FirstBroken (ds ++ es) f ↔ FirstBroken ds f ∨ (∀ d ∈ ds, d.Met) ∧ FirstBroken es f := by
  induction ds with
  | nil =>
    refine ⟨fun h => .inr ⟨by simp, h⟩, ?_⟩
    rintro (h | ⟨-, h⟩)
    · cases h
    · exact h
  | cons d ds ih =>
    rw [List.cons_append, firstBroken_cons, firstBroken_cons, ih, List.forall_mem_cons]
    tauto

/-! ## Runs that check demands -/

/-- The run stops at the first demand that is broken. -/
def Checks (x : Except Fault α) (ds : List Demand) : Prop :=
  ∀ f, x = .error f ↔ FirstBroken ds f

theorem checks_ok (a : α) : Checks (.ok a) [] := by
  intro f
  refine iff_of_false (fun h => nomatch h) fun h => ?_
  cases h

theorem checks_of_breaks (h : d.Breaks f) : Checks (.error f : Except Fault α) (d :: ds) := by
  intro g
  rw [firstBroken_cons]
  constructor
  · intro hg
    cases hg
    exact .inl h
  · rintro (hg | ⟨hmet, -⟩)
    · rw [h.unique hg]
    · exact absurd h (hmet f)

theorem checks_of_met {x : Except Fault α} (h : d.Met) (hx : Checks x ds) : Checks x (d :: ds) := by
  intro f
  rw [hx f, firstBroken_cons]
  refine ⟨fun hf => .inr ⟨h, hf⟩, ?_⟩
  rintro (hf | ⟨-, hf⟩)
  · exact absurd hf (h f)
  · exact hf

theorem Checks.exists_ok_iff {x : Except Fault α} (h : Checks x ds) :
    (∃ a, x = .ok a) ↔ ∀ d ∈ ds, d.Met := by
  have hfault : (∃ f, x = .error f) ↔ ¬ ∀ d ∈ ds, d.Met :=
    (exists_congr h).trans exists_firstBroken_iff
  rw [exists_error_iff] at hfault
  exact not_iff_not.1 hfault

/-- Runs one after the other check one list after the other. -/
theorem Checks.bind {x : Except Fault α} {g : α → Except Fault β} (hx : Checks x ds)
    (hg : ∀ a, x = .ok a → Checks (g a) es) : Checks (x >>= g) (ds ++ es) := by
  intro f
  rw [bind_eq_error, firstBroken_append, hx f, ← hx.exists_ok_iff]
  refine or_congr_right ?_
  constructor
  · rintro ⟨a, ha, hga⟩
    exact ⟨⟨a, ha⟩, (hg a ha f).1 hga⟩
  · rintro ⟨⟨a, ha⟩, hbroken⟩
    exact ⟨a, ha, (hg a ha f).2 hbroken⟩

/-- What is made of the result is no matter. -/
theorem Checks.bind_pure {x : Except Fault α} {g : α → β} (hx : Checks x ds) :
    Checks (x >>= fun a => pure (g a)) ds := by
  have h : Checks (x >>= fun a => pure (g a)) (ds ++ []) := hx.bind fun a _ => checks_ok (g a)
  rwa [List.append_nil] at h

/-- A traversal checks the demands of its elements, in their order. -/
theorem checks_mapM {g : α → Except Fault β} {ds : γ → List Demand} {l : List γ} {l' : List α}
    (h : List.Forall₂ (fun c a => Checks (g a) (ds c)) l l') :
    Checks (l'.mapM g) (l.flatMap ds) := by
  induction h with
  | nil => exact checks_ok []
  | cons ha _ ih =>
    rw [List.mapM_cons, List.flatMap_cons]
    exact ha.bind fun b _ => ih.bind_pure

/-! ## Columns -/

/-- The column, with its direction and its boundary, that the entry stands for. -/
def SortDescription.ResolvesTo (s : SortDescription) (d : SortColumn) : Prop :=
  s.Names d.column ∧ d.direction = s.direction.getD .asc ∧ d.value = s.value

theorem forall₂_of_resolveAfter (h : resolveAfter used sorts = .ok cs) :
    List.Forall₂ SortDescription.ResolvesTo sorts cs := by
  induction sorts generalizing used cs with
  | nil =>
    cases h
    exact .nil
  | cons s sorts ih =>
    rw [resolveAfter] at h
    split at h
    · cases h
    · rename_i c hc
      split at h
      · cases h
      · obtain ⟨rest, hrest, h⟩ := bind_eq_ok.1 h
        cases h
        exact .cons ⟨named?_eq_some_iff.1 hc, rfl, rfl⟩ (ih hrest)

/-- **Which columns a specification resolves to.** -/
theorem resolveAfter_eq_ok : resolveAfter used sorts = .ok cs ↔
    List.Forall₂ SortDescription.ResolvesTo sorts cs ∧ (cs.map (·.column)).Nodup ∧
      ∀ d ∈ cs, d.column ∉ used := by
  refine ⟨fun h => ⟨forall₂_of_resolveAfter h, nodup_of_resolveAfter h⟩, ?_⟩
  rintro ⟨hall, hnodup, hused⟩
  induction hall generalizing used with
  | nil => rfl
  | @cons s d sorts cs hsd _ ih =>
    obtain ⟨hname, hdirection, hvalue⟩ := hsd
    rw [List.map_cons, List.nodup_cons] at hnodup
    obtain ⟨hd, hused⟩ := List.forall_mem_cons.1 hused
    have hrest : resolveAfter (d.column :: used) sorts = .ok cs := by
      refine ih hnodup.2 fun e he hmem => ?_
      rcases List.mem_cons.1 hmem with heq | hmem
      · exact hnodup.1 (List.mem_map.2 ⟨e, he, heq⟩)
      · exact hused e he hmem
    rw [resolveAfter, named?_eq_some_iff.2 hname]
    simp only [if_neg hd, hrest, ok_bind, ← hdirection, ← hvalue]
    rfl

theorem forall₂_of_resolve (h : resolve sorts = .ok cs) :
    List.Forall₂ SortDescription.ResolvesTo (keySorts sorts) cs := by
  cases sorts with
  | nil =>
    cases h
    exact .cons ⟨rfl, rfl, rfl⟩ .nil
  | cons s sorts => exact forall₂_of_resolveAfter h

theorem keySorts_ne_nil (sorts : List SortDescription) : keySorts sorts ≠ [] := by
  cases sorts with
  | nil => exact List.cons_ne_nil _ _
  | cons s sorts => exact List.cons_ne_nil s sorts

/-- There is always a column to sort by. -/
theorem ne_nil_of_resolve (h : resolve sorts = .ok cs) : cs ≠ [] := by
  rintro rfl
  have hall := forall₂_of_resolve h
  cases hkey : keySorts sorts with
  | nil => exact keySorts_ne_nil sorts hkey
  | cons s rest =>
    rw [hkey] at hall
    cases hall

/-- The entries of a specification are looked at in their order. -/
theorem checks_resolveAfter (hused : ∀ c, c ∈ used ↔ ∃ t ∈ before, t.Names c) :
    Checks (resolveAfter used sorts) (columnDemands before sorts) := by
  induction sorts generalizing used before with
  | nil => exact checks_ok []
  | cons s sorts ih =>
    rw [resolveAfter, columnDemands]
    split
    · rename_i hnone
      exact checks_of_breaks (.unknown (named?_eq_none_iff.1 hnone))
    · rename_i c hc
      have hname : s.Names c := named?_eq_some_iff.1 hc
      split
      · rename_i hmem
        exact checks_of_breaks (.repeated hname ((hused c).1 hmem))
      · rename_i hmem
        have hmet : (Demand.column before s).Met :=
          met_column_iff.2 ⟨⟨c, hname⟩, fun t ht hsame =>
            hmem ((hused c).2 ⟨t, ht, hsame.trans hname⟩)⟩
        refine checks_of_met hmet (Checks.bind_pure (ih fun k => ?_))
        rw [List.mem_cons, hused k, List.exists_mem_cons_iff]
        refine or_congr_left ⟨?_, fun hk => hk.unique hname⟩
        rintro rfl
        exact hname

theorem checks_resolve (sorts : List SortDescription) :
    Checks (resolve sorts) (columnDemands [] sorts) := by
  cases sorts with
  | nil => exact checks_ok _
  | cons s sorts => exact checks_resolveAfter (by simp)

/-! ## Filters -/

theorem checks_filterValue (name : FilterName) (raw : String) :
    Checks (filterValue name raw) [.value name raw] := by
  unfold filterValue
  split
  · rename_i hids
    split
    · rename_i n hn
      have hid : WritesId raw.toList := id_isSome_iff.1 (by rw [hn]; rfl)
      exact checks_of_met (met_value_iff.2 fun _ => hid) (checks_ok _)
    · rename_i hnone
      have hid : ¬ WritesId raw.toList := by
        rw [← id_isSome_iff, hnone]
        exact Bool.false_ne_true
      exact checks_of_breaks (.notAnId hids hid)
  · rename_i hids
    exact checks_of_met (met_value_iff.2 fun h => absurd h hids) (checks_ok _)

theorem checks_filterValues (name : FilterName) (value : FilterValue) :
    Checks (filterValues name value) (.filled name value :: value.values.map (.value name)) := by
  unfold filterValues
  split
  · rename_i hnil
    exact checks_of_breaks (.noValues hnil)
  · rename_i hne
    refine checks_of_met (met_filled_iff.2 hne) ?_
    rw [List.map_eq_flatMap]
    exact checks_mapM (List.forall₂_same.2 fun raw _ => checks_filterValue name raw)

theorem checks_selectionsFor (filters : Filters) (names : List FilterName) :
    Checks (selectionsFor filters names) (names.flatMap (filterDemands filters)) := by
  induction names with
  | nil => exact checks_ok []
  | cons name names ih =>
    rw [selectionsFor, List.flatMap_cons]
    cases hvalue : filters name with
    | none =>
      rw [filterDemands, hvalue]
      exact ih
    | some value =>
      rw [filterDemands, hvalue]
      exact (checks_filterValues name value).bind fun vs _ => ih.bind_pure

theorem checks_selections (filters : Filters) :
    Checks (selections filters) (FilterName.all.flatMap (filterDemands filters)) := by
  unfold selections
  split
  · rename_i hnone
    have hnil : FilterName.all.flatMap (filterDemands filters) = [] := by
      refine List.flatMap_eq_nil_iff.2 fun name hname => ?_
      have hname := List.all_eq_true.1 hnone name hname
      rw [filterDemands, Option.isNone_iff_eq_none.1 hname]
    rw [hnil]
    exact checks_ok _
  · exact checks_selectionsFor filters FilterName.all

/-! ## Boundaries -/

theorem checks_boundary {d : SortColumn} (h : s.ResolvesTo d) :
    Checks d.boundary [.boundary s] := by
  obtain ⟨hname, -, hvalue⟩ := h
  unfold SortColumn.boundary
  rw [hvalue]
  split
  · rename_i hnone
    exact checks_of_breaks (.noBoundary hname hnone)
  · rename_i raw hraw
    have hadmits : d.column.kind.Admits raw → (Demand.boundary s).Met :=
      fun h => (met_boundary_iff hname).2 ⟨raw, hraw, h⟩
    split
    · rename_i hkind
      rw [hkind] at hadmits
      exact checks_of_met (hadmits trivial) (checks_ok _)
    · rename_i hkind
      rw [hkind] at hadmits
      split
      · rename_i n hn
        exact checks_of_met (hadmits (int64?_isSome_iff.1 (by rw [hn]; rfl))) (checks_ok _)
      · rename_i hnone
        have hint : ¬ WritesInt64 raw.toList := by
          rw [← int64?_isSome_iff, hnone]
          exact Bool.false_ne_true
        exact checks_of_breaks (.notAnInteger hname hraw hkind hint)
    · rename_i hkind
      rw [hkind] at hadmits
      split
      · rename_i t ht
        exact checks_of_met (hadmits ⟨t, Instant.read_eq_ok.1 ht⟩) (checks_ok _)
      · rename_i cause hcause
        have hnot : ∀ t, ¬ Instant.Spells raw t := by
          intro t ht
          rw [← Instant.read_eq_ok, hcause] at ht
          cases ht
        exact checks_of_breaks (.notATimestamp hname hraw hkind hnot)

theorem checks_rowCondition (hcs : resolve sorts = .ok cs) (isContinuation : Bool) :
    Checks (rowCondition cs isContinuation)
      (if isContinuation then (keySorts sorts).map .boundary else []) := by
  cases isContinuation with
  | false => exact checks_ok _
  | true =>
    have hall := (forall₂_of_resolve hcs).imp fun s d h => checks_boundary h
    rw [rowCondition, if_pos rfl, if_pos rfl, List.map_eq_flatMap (f := Demand.boundary)]
    exact (checks_mapM hall).bind_pure

/-! ## Requests -/

/-- **A request is looked at in the order of its demands.** -/
theorem checks_compile (r : Request) : Checks r.compile r.demands := by
  unfold Request.compile Request.demands
  rw [List.append_assoc]
  refine (checks_resolve r.sorts).bind fun cs hcs => ?_
  refine (checks_selections r.filters).bind fun ss _ => ?_
  exact (checks_rowCondition hcs r.isContinuation).bind_pure

theorem met_columnDemands_iff : (∀ d ∈ columnDemands before sorts, d.Met) ↔
    (∀ s ∈ sorts, ∃ c, s.Names c) ∧
      (sorts.Pairwise fun s t => columnName s.property ≠ columnName t.property) ∧
      ∀ t ∈ before, ∀ s ∈ sorts, columnName t.property ≠ columnName s.property := by
  induction sorts generalizing before with
  | nil => simp [columnDemands]
  | cons s sorts ih =>
    rw [columnDemands, List.forall_mem_cons, met_column_iff, ih, List.pairwise_cons]
    simp only [List.forall_mem_cons, forall_and]
    tauto

theorem met_filterDemands_iff : (∀ d ∈ FilterName.all.flatMap (filterDemands filters), d.Met) ↔
    (∀ name value, filters name = some value → value.values ≠ []) ∧
      ∀ name value, filters name = some value → name.takesIds = true →
        ∀ raw ∈ value.values, WritesId raw.toList := by
  have hname : ∀ name, (∀ d ∈ filterDemands filters name, d.Met) ↔
      ∀ value, filters name = some value → value.values ≠ [] ∧
        (name.takesIds = true → ∀ raw ∈ value.values, WritesId raw.toList) := by
    intro name
    unfold filterDemands
    cases hvalue : filters name with
    | none => simp
    | some value =>
      simp only [List.forall_mem_cons, List.forall_mem_map, met_filled_iff, met_value_iff,
        Option.some.injEq, forall_eq']
      exact and_congr_right fun _ => ⟨fun h hids raw hraw => h raw hraw hids,
        fun h raw hraw hids => h hids raw hraw⟩
  constructor
  · intro h
    have hall : ∀ name, ∀ d ∈ filterDemands filters name, d.Met := fun name d hd =>
      h d (List.mem_flatMap.2 ⟨name, FilterName.mem_all name, hd⟩)
    exact ⟨fun name value hvalue => ((hname name).1 (hall name) value hvalue).1,
      fun name value hvalue => ((hname name).1 (hall name) value hvalue).2⟩
  · rintro ⟨hfilled, hids⟩ d hd
    obtain ⟨name, -, hd⟩ := List.mem_flatMap.1 hd
    exact (hname name).2
      (fun value hvalue => ⟨hfilled name value hvalue, hids name value hvalue⟩) d hd

/-- The entry of an empty specification has no value. -/
theorem met_boundaryDemands_iff (hnames : ∀ s ∈ sorts, ∃ c, s.Names c) :
    (∀ d ∈ (keySorts sorts).map Demand.boundary, d.Met) ↔ sorts ≠ [] ∧
      ∀ s ∈ sorts, ∃ c raw, s.Names c ∧ s.value = some raw ∧ c.kind.Admits raw := by
  have hmet : ∀ s ∈ sorts, (Demand.boundary s).Met ↔
      ∃ c raw, s.Names c ∧ s.value = some raw ∧ c.kind.Admits raw := by
    intro s hs
    obtain ⟨c, hc⟩ := hnames s hs
    rw [met_boundary_iff hc]
    constructor
    · rintro ⟨raw, hraw, hadmits⟩
      exact ⟨c, raw, hc, hraw, hadmits⟩
    · rintro ⟨k, raw, hk, hraw, hadmits⟩
      cases hk.unique hc
      exact ⟨raw, hraw, hadmits⟩
  cases sorts with
  | nil =>
    have hid : ({ property := "id" } : SortDescription).Names .justificationId := rfl
    simp [keySorts, met_boundary_iff hid]
  | cons s sorts =>
    rw [keySorts.eq_2 _ (List.cons_ne_nil s sorts), List.forall_mem_map]
    exact ⟨fun h => ⟨List.cons_ne_nil _ _, fun t ht => (hmet t ht).1 (h t ht)⟩,
      fun h t ht => (hmet t ht).2 (h.2 t ht)⟩

/-- **A request is meaningful if no demand is broken.** -/
theorem meaningful_iff (r : Request) : r.Meaningful ↔ ∀ d ∈ r.demands, d.Met := by
  simp only [Request.demands, List.forall_mem_append, met_columnDemands_iff, met_filterDemands_iff]
  constructor
  · intro h
    refine ⟨⟨⟨h.sortable, h.different, by simp⟩, h.filled, h.ids⟩, ?_⟩
    split
    · rename_i hc
      exact (met_boundaryDemands_iff h.sortable).2 (h.bounded hc)
    · simp
  · rintro ⟨⟨⟨hsortable, hdifferent, -⟩, hfilled, hids⟩, hboundary⟩
    refine ⟨hsortable, hdifferent, hfilled, hids, fun hc => ?_⟩
    rw [if_pos hc] at hboundary
    exact (met_boundaryDemands_iff hsortable).1 hboundary

/-- Meaningful requests have a query. -/
theorem exists_compile_iff (r : Request) : (∃ q, r.compile = .ok q) ↔ r.Meaningful :=
  (checks_compile r).exists_ok_iff.trans (meaningful_iff r).symm

/-- **A request is accepted if it is meaningful**, and otherwise refused with the
    first fault of its sorts, its filters and its boundary, in this order. -/
theorem Request.accepted_iff (r : Request) :
    ((∃ q, r.compile = .ok q) ↔ r.Meaningful) ∧
      (∀ f, r.compile = .error f ↔ FirstBroken r.demands f) ∧
      ∀ f, r.compile = .error f → (∃ cause, f = .sort cause) ∨ ∃ cause, f = .filter cause := by
  refine ⟨exists_compile_iff r, checks_compile r, fun f hf => ?_⟩
  obtain ⟨d, -, hd⟩ := ((checks_compile r f).1 hf).exists_breaks
  exact hd.kind

end Rationale.Query
