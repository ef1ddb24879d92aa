/-
  Rationale — resuming after a justification that was returned.

  A page can be continued after any justification that some read returned, from
  what the justification itself says: for each sort column a text with the
  property, the direction and the value (`WritesSort`).  On the way from the row
  to the reader and back, values are decoded, read off entities, printed, parsed
  and encoded again; and what the condition of the continuation compares with is
  what the row had in the first place.

  * `Presents.row_eq`: a justification that is shown anywhere on a page is its row;
  * `exists_sorts`: the texts say a specification with the same columns and
    directions, and with the row for its boundary;
  * `args_fragment_condition`: the arguments of a condition are the values of its
    tests;
  * `bound_of_read`: so every column is compared with the value that is stored.
-/
import Mathlib.Data.List.Infix
import Rationale.Proofs.Acceptance
import Rationale.Proofs.Arguments
import Rationale.Proofs.Consistency
import Rationale.Proofs.Continuations
import Rationale.Proofs.Showing

namespace Rationale

open Query Sql Store Time

variable {db : Store} {ch : Chance} {r : Request} {cs : List SortColumn}
  {sorts : List SortDescription}
  {texts : List String} {out : List Justification} {x y : Justification} {j : JustificationRow}
  {k : Column} {d : SortColumn} {v text : String} {includeUrls : Bool}

/-! ## Shown justifications are their rows -/

namespace Store

theorem Presents.row_eq (h : db.Presents includeUrls j x)
    (hj : ∃ t : Instant, j.created = t.stored) : x.row = j := by
  obtain ⟨y, hy, hxy, htarget⟩ := h
  have hrow : y.row = j := hy.shown.row_eq hj
  have htype : x.target.type = y.target.type ∧ x.target.id = y.target.id := by
    rcases htarget with heq | ⟨t, ht, hid⟩
    · rw [heq]
      exact ⟨rfl, rfl⟩
    · obtain ⟨htype, hid⟩ := JustificationRow.targetId?_eq_some.1 hid
      rw [← hrow] at htype hid
      rw [ht]
      exact ⟨(Coded.text_injective htype).symm, hid.symm⟩
  rw [hxy]
  simp only [Justification.row] at hrow ⊢
  rw [htype.1, htype.2]
  exact hrow

end Store

/-! ## Values as texts -/

/-- The text is what the justification says in the column: a number in decimal, an
    enumeration by its text, the timestamp in any of its spellings. -/
inductive Justification.Writes (x : Justification) : Column → String → Prop
  | justificationId : Writes x .justificationId (Text.ofInt64 x.id)
  | created {v : String} : Instant.Spells v x.created → Writes x .created v
  | polarity : Writes x .polarity (Coded.text x.polarity)
  | rootPolarity : Writes x .rootPolarity (Coded.text x.rootPolarity)
  | rootTargetType : Writes x .rootTargetType (Coded.text x.rootTarget.type)
  | rootTargetId : Writes x .rootTargetId (Text.ofInt64 x.rootTarget.id)
  | targetType : Writes x .targetType (Coded.text x.target.type)
  | targetId : Writes x .targetId (Text.ofInt64 x.target.id)
  | basisType : Writes x .basisType (Coded.text x.basis.type)
  | basisId : Writes x .basisId (Text.ofInt64 x.basis.id)
  | creatorUserId : Writes x .creatorUserId (Text.ofInt64 (x.creator.id (·.id)))

/-- The text is the column, the direction and the value of the justification, as a sort. -/
def Justification.WritesSort (x : Justification) (d : SortColumn) (text : String) : Prop :=
  ∃ p dir v, text = sortText p dir v ∧ columnName p = d.column.name ∧
    Coded.read? dir = some d.direction ∧ x.Writes d.column v

theorem Justification.Writes.gives (h : x.Writes k v) : x.Gives k v := by
  cases h with
  | created h => exact Instant.read_eq_ok.2 h
  | justificationId | rootTargetId | targetId | basisId | creatorUserId =>
    exact gives_integer rfl rfl
  | polarity | rootPolarity | rootTargetType | targetType | basisType => rfl

/-! ## Properties -/

namespace Query

theorem mem_columnName {p : String} (hne : p ≠ "id") {c : Char} (hc : c.isUpper = false)
    (h : c ∈ p.toList) : c ∈ (columnName p).toList := by
  rw [columnName, if_neg hne, String.toList_ofList, List.mem_flatMap]
  exact ⟨c, h, by simp [hc]⟩

/-- A property that stands for a column can be written before a colon. -/
theorem plain_property {p : String} (h : columnName p = k.name) :
    p.toList ≠ [] ∧ ':' ∉ p.toList := by
  have hname : k.name.toList ≠ [] ∧ ':' ∉ k.name.toList := by
    cases k <;> decide
  by_cases hid : p = "id"
  · rw [hid]
    decide
  · rw [← h] at hname
    refine ⟨fun hnil => hname.1 ?_, fun hcolon => hname.2 (mem_columnName hid rfl hcolon)⟩
    rw [columnName, if_neg hid, hnil]
    rfl

/-- The texts of a justification say a specification with the columns and directions
    of `cs`, whose boundary is the row of the justification. -/
theorem exists_sorts (h : List.Forall₂ x.WritesSort cs texts) : ∃ ss cs',
    List.Forall₂ (fun text s => SortDescription.parse text = .ok s) texts ss ∧
      List.Forall₂ SortDescription.ResolvesTo ss cs' ∧
      cs'.map (fun d => (d.column, d.direction)) = cs.map (fun d => (d.column, d.direction)) ∧
      BoundedBy cs' x.row.sortRow := by
  induction h with
  | nil => exact ⟨[], [], .nil, .nil, rfl, fun d hd => nomatch hd⟩
  | @cons d text cs texts hd _ ih =>
    obtain ⟨p, dir, v, rfl, hp, hdir, hv⟩ := hd
    obtain ⟨ss, cs', hss, hcs', hsame, hbounded⟩ := ih
    obtain ⟨hne, hcolon⟩ := plain_property hp
    refine ⟨⟨p, some d.direction, some v⟩ :: ss, ⟨d.column, d.direction, some v⟩ :: cs',
      .cons (parse_sortText hne hcolon hdir) hss, .cons ⟨hp, rfl, rfl⟩ hcs', ?_, ?_⟩
    · rw [List.map_cons, List.map_cons, hsame]
    · refine List.forall_mem_cons.2 ⟨?_, hbounded⟩
      exact Justification.boundary_of_gives (d := ⟨d.column, d.direction, some v⟩) rfl hv.gives

/-! ## The condition of a continuation -/

/-- Each column is compared in the disjunct of its own, and in those after it. -/
theorem columns_after (cs : List SortColumn) (b : SortRow) :
    (after (cs.map fun d => (d, b d.column))).map (·.map (·.column)) =
      (cs.map (·.column)).inits.tail := by
  induction cs with
  | nil => rfl
  | cons d cs ih =>
    rw [List.map_cons, List.map_cons, List.inits_cons, List.tail_cons]
    have hinits : (cs.map (·.column)).inits = [] :: (cs.map (·.column)).inits.tail := by
      cases cs.map (·.column) <;> rfl
    rw [hinits, ← ih, after]
    simp only [List.map_cons, List.map_nil, List.map_map, Function.comp_def]

theorem value_of_mem_after {b : SortRow} {ts : List Test} {t : Test}
    (hts : ts ∈ after (cs.map fun d => (d, b d.column))) (ht : t ∈ ts) : t.value = b t.column := by
  induction cs generalizing ts with
  | nil => cases hts
  | cons d cs ih =>
    rw [List.map_cons, after] at hts
    rcases List.mem_cons.1 hts with rfl | hts
    · cases List.mem_singleton.1 ht
      rfl
    · obtain ⟨ts', hts', rfl⟩ := List.mem_map.1 hts
      rcases List.mem_cons.1 ht with rfl | ht
      · rfl
      · exact ih hts' ht

end Query

/-! ## Arguments of a condition -/

namespace Sql.Composing

variable {α β γ : Type}

/-- Whatever has been bound before, the construction binds these arguments. -/
def Binds (c : Composing α) (as : List Value) : Prop :=
  ∀ style args, ((c.run style).run args).2 = args ++ as

theorem binds_pure (a : α) : Binds (pure a) [] :=
  fun _ args => (List.append_nil args).symm

theorem binds_bind (v : Value) : Binds (bind v) [v] :=
  fun _ _ => rfl

theorem Binds.bind {c : Composing α} {f : α → Composing β} {as as' : List Value}
    (hc : Binds c as) (hf : ∀ a, Binds (f a) as') : Binds (c >>= f) (as ++ as') := by
  intro style args
  show (((f _).run style).run ((c.run style).run args).2).2 = _
  rw [hf, hc, List.append_assoc]

theorem Binds.bind_pure {c : Composing α} {as : List Value} (hc : Binds c as) (f : α → β) :
    Binds (c >>= fun a => pure (f a)) as := by
  have h := hc.bind fun a => binds_pure (f a)
  rwa [List.append_nil] at h

theorem binds_mapM {f : α → Composing β} {g : α → List Value} (h : ∀ a, Binds (f a) (g a))
    (l : List α) : Binds (l.mapM f) (l.flatMap g) := by
  induction l with
  | nil => exact binds_pure []
  | cons a l ih =>
    rw [List.mapM_cons, List.flatMap_cons]
    exact (h a).bind fun b => ih.bind_pure _

theorem Binds.args_fragment {c : Composing String} {as : List Value} (h : Binds c as) :
    (fragment c).args = as :=
  h .numbered []

end Sql.Composing

namespace Query

open Composing

theorem Test.binds (table : String) (t : Test) : Binds (t.sql table) [t.value] :=
  (binds_bind t.value).bind_pure _

theorem RowCondition.binds_conjunction (table : String) (ts : List Test) :
    Binds (conjunction table ts) (ts.map (·.value)) := by
  rw [List.map_eq_flatMap]
  exact (binds_mapM (Test.binds table) ts).bind_pure _

/-- **The arguments of a condition are the values of its tests**, in their order. -/
theorem RowCondition.args_fragment (table : String) (c : RowCondition) :
    (Composing.fragment (c.sql table)).args =
      (c.continued.getD []).flatMap fun ts => ts.map (·.value) := by
  refine Binds.args_fragment ?_
  unfold RowCondition.sql
  cases c.continued with
  | none => exact (binds_pure _).bind_pure _
  | some ds =>
    simp only [pure_bind]
    exact ((binds_mapM (binds_conjunction table) ds).bind_pure _).bind_pure _

end Query

/-! ## Resuming -/

theorem Query.columns_eq_of_map {cs' : List SortColumn}
    (h : cs'.map (fun d => (d.column, d.direction)) = cs.map (fun d => (d.column, d.direction))) :
    cs'.map (·.column) = cs.map (·.column) := by
  simpa [Function.comp_def] using congrArg (List.map Prod.fst) h

/-- The texts of a justification are a specification that is accepted, with the
    columns and directions of the one that they are for. -/
theorem Query.resolve_of_writesSort (hcs : resolve sorts = .ok cs)
    (htexts : List.Forall₂ x.WritesSort cs texts) : ∃ ss cs',
    List.Forall₂ (fun text s => SortDescription.parse text = .ok s) texts ss ∧
      resolve ss = .ok cs' ∧
      cs'.map (fun d => (d.column, d.direction)) = cs.map (fun d => (d.column, d.direction)) ∧
      BoundedBy cs' x.row.sortRow := by
  obtain ⟨ss, cs', hss, hcs', hsame, hbounded⟩ := exists_sorts htexts
  have hcolumns := columns_eq_of_map hsame
  have hnodup : (cs'.map (·.column)).Nodup := by
    rw [hcolumns]
    exact nodup_of_resolve hcs
  have hafter : resolveAfter [] ss = .ok cs' :=
    resolveAfter_eq_ok.2 ⟨hcs', hnodup, by simp⟩
  refine ⟨ss, cs', hss, ?_, hsame, hbounded⟩
  cases ss with
  | nil =>
    -- there is no empty specification among those that sort by something
    cases hcs'
    exact absurd (List.map_eq_nil_iff.1 hcolumns.symm) (ne_nil_of_resolve hcs)
  | cons s ss => exact hafter

/-- **Whatever was returned can be handed back as a boundary.**  The texts of a
    justification on a page, one for each sort column, are accepted as the sorts of
    a continuation, in the order of these columns; and each occurrence of a column
    in its condition is compared with the value that is stored in the row. -/
theorem bound_of_read (base : Request) (hk : db.Keyed) (ht : db.Stamped)
    (h : (db.read ch r).result = .ok out) (hx : x ∈ out) (hy : x.Includes y)
    (hcs : resolve sorts = .ok cs) (htexts : List.Forall₂ y.WritesSort cs texts)
    (hfilters : ∃ ss, selections base.filters = .ok ss) :
    ∃ j ∈ db.justifications.live, j.id = y.id ∧
      ∃ r' q ds,
        Request.withSortArgs { base with sorts := [], isContinuation := true } texts = .ok r' ∧
        r'.compile = .ok q ∧
        q.columns.map (fun d => (d.column, d.direction)) =
          cs.map (fun d => (d.column, d.direction)) ∧
        q.condition.continued = some ds ∧
        ds.map (·.map (·.column)) = (cs.map (·.column)).inits.tail ∧
        (∀ ts ∈ ds, ∀ t ∈ ts, t.value = j.sortRow t.column) ∧
        (Composing.fragment (q.condition.sql "lj")).args = ds.flatMap (·.map (·.value)) := by
  obtain ⟨ss, hss⟩ := hfilters
  obtain ⟨k, hlive, hkx⟩ := exists_sketched hk h hx
  obtain ⟨j, hj, hjy⟩ := hkx.exists_presents hlive hy
  obtain ⟨entries, cs', hentries, hcs', hsame, hbounded⟩ := resolve_of_writesSort hcs htexts
  rw [hjy.row_eq (ht j hj)] at hbounded
  have hcolumns := columns_eq_of_map hsame
  have hcondition : rowCondition cs' true =
      .ok ⟨cs'.map (·.column), some (after (cs'.map fun d => (d, j.sortRow d.column)))⟩ := by
    rw [rowCondition, if_pos rfl, mapM_boundary hbounded, ok_bind, zip_map_self]
    rfl
  have hcompile : Request.compile { base with sorts := entries, isContinuation := true } =
      .ok ⟨ss, cs', _, min base.count maxCount⟩ :=
    compile_eq_ok.2 ⟨cs', hcs', ss, hss, _, hcondition, rfl⟩
  refine ⟨j, hj, hjy.id.symm, _, _, _, withSortArgs_eq_ok.2 ⟨entries, hentries, rfl⟩, hcompile,
    hsame, rfl, ?_, ?_, ?_⟩
  · rw [columns_after, hcolumns]
  · exact fun ts hts t ht => value_of_mem_after hts ht
  · exact RowCondition.args_fragment "lj" _

theorem Store.stamped_debate : Store.debate.Stamped := by
  have hstored : "2024-01-01T00:00:00+00:00" = Instant.newYear.stored := by decide +kernel
  have hcreated : ∀ j ∈ Store.debate.justifications.live,
      j.created = "2024-01-01T00:00:00+00:00" := by decide
  exact fun j hj => ⟨.newYear, (hcreated j hj).trans hstored⟩

/-- The justification that is nested in the second one of the debate, by its time
    of creation as it was in New York, and then by its id. -/
theorem bound_of_read_debate : let ch := Chance.level .asStored
    ∃ x y, (Store.debate.read ch (oneRequest 2)).result = .ok [x] ∧
    x.Includes y ∧ y.id = 1 ∧
    List.Forall₂ y.WritesSort [⟨.created, .desc, none⟩, ⟨.justificationId, .asc, none⟩]
      ["created:descending:2023-12-31T19:00:00-05:00", "id:asc:1"] ∧
    ∃ r' q ds, Request.withSortArgs { count := 2, isContinuation := true }
        ["created:descending:2023-12-31T19:00:00-05:00", "id:asc:1"] = .ok r' ∧
      r'.compile = .ok q ∧ q.condition.continued = some ds ∧
      ds.map (·.map (·.column)) = [[.created], [.created, .justificationId]] ∧
      ∃ j ∈ Store.debate.justifications.live, j.id = 1 ∧
        ∀ ts ∈ ds, ∀ t ∈ ts, t.value = j.sortRow t.column := by
  intro ch
  obtain ⟨x, hx, -⟩ := exists_single_of_live (i := 2) Store.wellFormed_debate Store.small_debate ch
    (by decide)
  obtain ⟨y, hy, hid, hcreated⟩ : ∃ y, x.target = .justification (.entity y) ∧ y.id = 1 ∧
      y.created = .newYear := by
    have hnested : ((Store.debate.read ch (oneRequest 2)).result.toOption.getD []).map
        (fun x => x.chain[1]?.map fun y => (y.id, y.created)) = [some (1, .newYear)] := by
      decide +kernel
    rw [hx] at hnested
    obtain ⟨hnested, -⟩ := List.cons.inj hnested
    obtain ⟨y, hy, hvalues⟩ := Option.map_eq_some_iff.1 hnested
    obtain ⟨hid, hcreated⟩ := Prod.mk.inj hvalues
    exact ⟨y, Justification.target_of_chain hy, hid, hcreated⟩
  have hspells : Instant.Spells "2023-12-31T19:00:00-05:00" y.created := by
    rw [hcreated]
    exact Instant.read_eq_ok.1 (by decide +kernel)
  have htexts : List.Forall₂ y.WritesSort [⟨.created, .desc, none⟩, ⟨.justificationId, .asc, none⟩]
      ["created:descending:2023-12-31T19:00:00-05:00", "id:asc:1"] := by
    have hwrites := Justification.Writes.justificationId (x := y)
    rw [hid] at hwrites
    exact .cons ⟨"created", "descending", _, rfl, rfl, rfl, .created hspells⟩
      (.cons ⟨"id", "asc", "1", rfl, rfl, rfl, hwrites⟩ .nil)
  have hcs : resolve [⟨"created", some .desc, none⟩, ⟨"id", none, none⟩] =
      .ok [⟨.created, .desc, none⟩, ⟨.justificationId, .asc, none⟩] := rfl
  obtain ⟨j, hj, hjy, r', q, ds, hr', hq, -, hds, hcolumns, hvalues, -⟩ :=
    bound_of_read { count := 2 } Store.wellFormed_debate.keyed Store.stamped_debate hx
      (List.mem_singleton.2 rfl) (.target hy (.self y)) hcs htexts ⟨_, rfl⟩
  exact ⟨x, y, hx, .target hy (.self y), hid, htexts, r', q, ds, hr', hq, hds, hcolumns,
    j, hj, hjy.trans hid, hvalues⟩

end Rationale
