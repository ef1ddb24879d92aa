/-
  Rationale — a justification reads the same on every page.

  Where rows that tie come in a fixed order, a page is found again whenever its
  query is evaluated (`Chance.Fixed.findsPage`).  Then it shows portraits, and
  there is one portrait of a justification at most.  So what is shown of a
  justification depends on the store and on whether URLs were asked for, and on
  nothing else of the request.

  * `candidates_one`: the request for one justification has that one candidate,
    if it is live, and none if not, and this leaves nothing to chance;
  * `alike_on_every_page`: two pages show the same of a justification, and so
    does a read of it alone, which is refused if and only if it is not there.
-/
import Rationale.Proofs.Faults
import Rationale.Proofs.Pages
import Rationale.Proofs.Portraits

namespace Rationale

open Query Store

variable {db : Store} {ch ch' : Chance} {r s : Request} {q : PageQuery}
  {out out' : List Justification} {x y : Justification} {i : Id} {j : JustificationRow}

/-! ## Fixed orders -/

/-- Rows that tie come in one order, whatever they are found for. -/
def Chance.Fixed (ch : Chance) : Prop :=
  ∀ u, ch.found u = ch.found .page

theorem Chance.fixed_level (ρ : Rank) : (Chance.level ρ).Fixed := fun _ => rfl

theorem Chance.Fixed.findsPage (h : ch.Fixed) (u : Use) : db.FindsPage ch q u :=
  findsPage_of_found_eq (h u)

/-- What a page shows then is the portrait of a live justification. -/
theorem exists_portrayed (hk : db.Keyed) (hch : ch.Fixed) (h : (db.read ch r).result = .ok out)
    (hx : x ∈ out) : ∃ j ∈ db.justifications.live, db.Portrays r.includeUrls j x := by
  by_cases hn : r.effectiveCount = 0
  · rw [read_of_count_eq_zero hn] at h
    cases h
    cases hx
  · obtain ⟨q, hq, -⟩ := (read_eq_ok hk hn).1 h
    obtain ⟨j, hj, hjx⟩ := exists_mem_left_of_forall₂
      (portraits_of_read hk hn hq (hch.findsPage _) (hch.findsPage _) h) hx
    exact ⟨j, live_of_mem_page hj, hjx⟩

/-! ## Two pages -/

/-- **Two pages show the same of a justification.** -/
theorem eq_of_pages (hk : db.Keyed) (hch : ch.Fixed) (hch' : ch'.Fixed)
    (hurls : r.includeUrls = s.includeUrls) (hr : (db.read ch r).result = .ok out)
    (hs : (db.read ch' s).result = .ok out') (hx : x ∈ out) (hy : y ∈ out')
    (hxy : x.id = y.id) : x = y := by
  obtain ⟨j, hj, hjx⟩ := exists_portrayed hk hch hr hx
  obtain ⟨k, hk', hky⟩ := exists_portrayed hk hch' hs hy
  have hjk : j.id = k.id := by rw [← hjx.id, hxy, hky.id]
  obtain rfl := hk.justifications.eq_of_id_eq hj hk' hjk
  rw [← hurls] at hky
  exact hjx.unique hk hky

/-! ## One justification -/

theorem effectiveCount_one (i : Id) : (oneRequest i).effectiveCount = 1 := rfl

/-- The request for one justification is accepted. -/
theorem compile_one (i : Id) : (oneRequest i).compile =
    .ok ⟨[.reaching .justification .self [.integer i]], [⟨.justificationId, .asc, none⟩],
      ⟨[.justificationId], none⟩, 1⟩ :=
  compile_eq_ok.2 ⟨_, rfl, _, selections_only (filterValue_ofInt64 rfl i), _, rfl, rfl⟩

theorem exists_compile_one (i : Id) : ∃ q, (oneRequest i).compile = .ok q :=
  ⟨_, compile_one i⟩

/-- The database takes the statements about it. -/
theorem fits_one (hq : (oneRequest i).compile = .ok q) : q.Fits := by
  rw [compile_one] at hq
  cases hq
  rw [PageQuery.Fits, Sql.Fragment.Fits, length_args_propositionRows]
  exact of_decide_eq_true rfl

theorem matches_one : db.Matches j (oneRequest i).filters ↔ j.id = i := by
  have hids : FilterName.justificationId.takesIds = true := rfl
  refine (matches_only hids).trans ⟨fun hrests => ?_, ?_⟩
  · cases hrests
    rfl
  · rintro rfl
    exact .self

section

variable (hk : db.Keyed) (hq : (oneRequest i).compile = .ok q)

include hk hq

theorem mem_eligible_one : j ∈ db.eligible q ↔ j ∈ db.justifications.live ∧ j.id = i := by
  rw [mem_eligible_first hk hq rfl, matches_one]

/-- There is none that it could tie with. -/
theorem unique_one : Unique q.columns (· ∈ db.eligible q) := by
  intro j k hj hk' _
  obtain ⟨hj, rfl⟩ := (mem_eligible_one hk hq).1 hj
  obtain ⟨hk', hkj⟩ := (mem_eligible_one hk hq).1 hk'
  exact hk.justifications.eq_of_id_eq hj hk' hkj.symm

/-- **The one candidate**, if it is live. -/
theorem candidates_one (ch : Chance) (u : Use) :
    db.candidates (q.use ch u) = (db.justifications.row? i).toList := by
  rw [candidates_eq_take (unique_one hk hq), limit_of_compile hq]
  cases h : db.eligible q with
  | nil =>
    have hnone : db.justifications.row? i = none :=
      Table.row?_eq_none_iff.2 fun j hj hid => by
        have hmem := (mem_eligible_one hk hq).2 ⟨hj, hid⟩
        rw [h] at hmem
        cases hmem
    rw [hnone]
    rfl
  | cons j js =>
    obtain ⟨hj, hid⟩ := (mem_eligible_one hk hq).1 (h ▸ List.mem_cons_self : j ∈ db.eligible q)
    rw [hk.justifications.row?_eq_some.2 ⟨hj, hid⟩]
    rfl

theorem page_one (ch : Chance) :
    db.page (q.use ch .page) (ch.found .listing) = (db.justifications.row? i).toList := by
  have hunique := unique_one hk hq
  rw [page_eq_take hk hunique, ← candidates_eq_take hunique ch .page, candidates_one hk hq]

end

theorem readOne_of_missing (hk : db.Keyed) (h : ∀ j ∈ db.justifications.live, j.id ≠ i) :
    (db.readOne ch i).result = .error (.noEntity .justification i) := by
  obtain ⟨q, hq⟩ := exists_compile_one i
  have hnone : db.justifications.row? i = none := Table.row?_eq_none_iff.2 h
  have hempty : db.candidates (q.use ch .page) = [] := by
    rw [candidates_one hk hq, hnone]
    rfl
  have hread : (db.read ch (oneRequest i)).result = .ok [] :=
    (read_eq_ok hk (by simp [effectiveCount_one])).2
      ⟨q, hq, .inl ⟨(fits_one hq).primaryRows, hempty, rfl⟩⟩
  rw [readOne, Logged.result_bind, hread]
  rfl

/-- The page of what is live has it alone. -/
theorem portrait_of_read_one (hk : db.Keyed) (hj : j ∈ db.justifications.live)
    (h : (db.read ch (oneRequest j.id)).result = .ok out) :
    ∃ x, out = [x] ∧ db.Portrays false j x := by
  obtain ⟨q, hq⟩ := exists_compile_one j.id
  have hunique := unique_one hk hq
  have hpage := portraits_of_read hk (by simp [effectiveCount_one]) hq
    (findsPage_of_unique hunique ch _) (findsPage_of_unique hunique ch _) h
  rw [page_one hk hq, show db.justifications.row? j.id = some j from
    hk.justifications.row?_id hj] at hpage
  obtain ⟨x, _, hjx, hrest, rfl⟩ := List.forall₂_cons_left_iff.1 hpage
  cases hrest
  exact ⟨x, rfl, hjx⟩

/-- What is live is read, or its page has a fault. -/
theorem readOne_of_live (hk : db.Keyed) (hj : j ∈ db.justifications.live) :
    (∃ x, (db.readOne ch j.id).result = .ok x ∧ db.Portrays false j x) ∨
      ∃ e, (db.read ch (oneRequest j.id)).result = .error e ∧
        (db.readOne ch j.id).result = .error e := by
  rw [readOne, Logged.result_bind]
  cases h : (db.read ch (oneRequest j.id)).result with
  | error e => exact .inr ⟨e, rfl, rfl⟩
  | ok out =>
    obtain ⟨x, rfl, hjx⟩ := portrait_of_read_one hk hj h
    exact .inl ⟨x, rfl, hjx⟩

/-- In a well-formed store what is live is read, if the store is small. -/
theorem exists_single_of_live (hw : db.WellFormed) (hs : db.Small) (ch : Chance)
    (hi : ∃ j ∈ db.justifications.live, j.id = i) :
    ∃ x, (db.read ch (oneRequest i)).result = .ok [x] ∧ x.id = i := by
  obtain ⟨j, hj, rfl⟩ := hi
  obtain ⟨q, hq⟩ := exists_compile_one j.id
  obtain ⟨out, hout⟩ := exists_page hw hq (hw.takes_of_small hs (fits_one hq))
    (findsPage_of_unique (unique_one hw.keyed hq) ch _)
  obtain ⟨x, rfl, hjx⟩ := portrait_of_read_one hw.keyed hj hout
  exact ⟨x, hout, hjx.id⟩

/-- What is read of one justification is its portrait. -/
theorem portrait_of_readOne (hk : db.Keyed) (h : (db.readOne ch i).result = .ok x) :
    ∃ j ∈ db.justifications.live, j.id = i ∧ db.Portrays false j x := by
  by_cases hlive : ∃ j ∈ db.justifications.live, j.id = i
  · obtain ⟨j, hj, rfl⟩ := hlive
    rcases readOne_of_live hk hj with ⟨y, hy, hjy⟩ | ⟨e, -, he⟩
    · rw [h] at hy
      cases hy
      exact ⟨j, hj, rfl, hjy⟩
    · rw [h] at he
      cases he
  · push Not at hlive
    rw [readOne_of_missing hk hlive] at h
    cases h

/-- **One justification is refused if and only if it is not there.** -/
theorem readOne_eq_noEntity_iff (hk : db.Keyed) {kind : EntityKind} {k : Id} :
    (db.readOne ch i).result = .error (.noEntity kind k) ↔
      kind = .justification ∧ k = i ∧ ∀ j ∈ db.justifications.live, j.id ≠ i := by
  constructor
  · intro h
    by_cases hlive : ∃ j ∈ db.justifications.live, j.id = i
    · obtain ⟨j, hj, rfl⟩ := hlive
      rcases readOne_of_live hk hj with ⟨y, hy, -⟩ | ⟨e, hread, he⟩
      · rw [h] at hy
        cases hy
      · rw [h] at he
        cases he
        exact absurd hread ((internal_read (compile_one j.id)).ne kind k)
    · push Not at hlive
      rw [readOne_of_missing hk hlive] at h
      cases h
      exact ⟨rfl, rfl, hlive⟩
  · rintro ⟨rfl, rfl, hmissing⟩
    exact readOne_of_missing hk hmissing

/-! ## Every page -/

/-- **A justification reads the same on every page**, and alone.  Two pages that
    both give URLs, or both do not, show the same of it, if rows that tie come in
    a fixed order.  A read of it alone is refused if and only if it is not live,
    and shows what every page without URLs shows of it. -/
theorem alike_on_every_page (hk : db.Keyed) :
    (∀ (ch ch' : Chance) (r s : Request) (out out' : List Justification), ch.Fixed → ch'.Fixed →
      r.includeUrls = s.includeUrls →
      (db.read ch r).result = .ok out → (db.read ch' s).result = .ok out' →
        ∀ x ∈ out, ∀ y ∈ out', x.id = y.id → x = y) ∧
    ∀ (ch : Chance) (i : Id),
      (∀ kind k, (db.readOne ch i).result = .error (.noEntity kind k) ↔
        kind = .justification ∧ k = i ∧ ∀ j ∈ db.justifications.live, j.id ≠ i) ∧
      ∀ x, (db.readOne ch i).result = .ok x → x.id = i ∧
        ∀ (ch' : Chance) (r : Request) (out : List Justification), ch'.Fixed →
          r.includeUrls = false →
          (db.read ch' r).result = .ok out → ∀ y ∈ out, y.id = i → y = x := by
  refine ⟨fun ch ch' r s out out' hch hch' hurls hr hs x hx y hy =>
      eq_of_pages hk hch hch' hurls hr hs hx hy,
    fun ch i => ⟨fun kind k => readOne_eq_noEntity_iff hk, fun x hx => ?_⟩⟩
  obtain ⟨j, hj, rfl, hjx⟩ := portrait_of_readOne hk hx
  refine ⟨hjx.id, fun ch' r out hch' hurls hr y hy hid => ?_⟩
  obtain ⟨k, hk', hky⟩ := exists_portrayed hk hch' hr hy
  have hkj : k.id = j.id := by rw [← hky.id, hid]
  obtain rfl := hk.justifications.eq_of_id_eq hk' hj hkj
  rw [hurls] at hky
  exact hky.unique hk hjx

/-- The newest justifications that rest on a media excerpt. -/
def Query.Request.newestOnExcerpt : Request :=
  { filters := Filters.only .mediaExcerptId (.one "1"), count := 5,
    sorts := [⟨"created", some .desc, none⟩, ⟨"id", some .desc, none⟩] }

theorem alike_on_every_page_debate :
    let ch := Chance.level .asStored
    let ch' := Chance.level .backwards
    debate.Keyed ∧ ch.Fixed ∧ ch'.Fixed ∧
    (∃ x y, (debate.read ch .newestOnExcerpt).result = .ok [x] ∧
      (debate.read ch' (oneRequest 2)).result = .ok [y] ∧ x = y) ∧
    (∃ x y, (debate.readOne ch' 2).result = .ok x ∧
      (debate.read ch .newestOnExcerpt).result = .ok [y] ∧ x.id = 2 ∧ y = x) ∧
    (debate.readOne ch 7).result = .error (.noEntity .justification 7) := by
  intro ch ch'
  have hch : ch.Fixed := Chance.fixed_level _
  have hch' : ch'.Fixed := Chance.fixed_level _
  obtain ⟨hpages, hone⟩ := alike_on_every_page wellFormed_debate.keyed
  obtain ⟨x, hx, hxid⟩ : ∃ x, (debate.read ch .newestOnExcerpt).result = .ok [x] ∧ x.id = 2 :=
    exists_single_of_ids (by decide +kernel)
  obtain ⟨y, hy, hyid⟩ : ∃ y, (debate.read ch' (oneRequest 2)).result = .ok [y] ∧ y.id = 2 :=
    exists_single_of_ids (by decide +kernel)
  have hz : (debate.readOne ch' 2).result = .ok y := by
    rw [readOne, Logged.result_bind, hy]
    rfl
  refine ⟨wellFormed_debate.keyed, hch, hch', ⟨x, y, hx, hy, ?_⟩, ⟨y, x, hz, hx, hyid, ?_⟩, ?_⟩
  · exact hpages ch ch' .newestOnExcerpt (oneRequest 2) [x] [y] hch hch' rfl hx hy x (by simp) y
      (by simp) (by rw [hxid, hyid])
  · exact ((hone ch' 2).2 y hz).2 ch .newestOnExcerpt [x] hch rfl hx x (by simp) hxid
  · exact ((hone ch 7).1 _ _).2 ⟨rfl, rfl, by decide⟩

end Rationale
