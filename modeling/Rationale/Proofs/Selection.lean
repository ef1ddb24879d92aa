/-
  Rationale — what justifications are filtered by, declaratively.

  `Rests db j name v`: the justification `j` rests on something that the filter
  `name` knows by the value `v`.  There is one rule for each way from a
  justification through live rows to what it rests on; rules that go on from a
  quote count for a quote that is the basis and for one that is paraphrased.

  * `rests_iff`: these ways are the paths of the filters;
  * `mem_matching_iff`: what the selections of a request select are the live
    justifications that match its filters (`Matches`).
-/
import Rationale.Proofs.Keys
import Rationale.Proofs.Outcome
import Rationale.Store.Reach

namespace Rationale

open Sql Query

/-! ## Accepted requests -/

namespace Query

variable {r : Request} {q : PageQuery} {cs : List SortColumn}

theorem compile_eq_ok :
    r.compile = .ok q ↔ ∃ cs, resolve r.sorts = .ok cs ∧
      ∃ ss, selections r.filters = .ok ss ∧
      ∃ c, rowCondition cs r.isContinuation = .ok c ∧ q = ⟨ss, cs, c, r.effectiveCount⟩ := by
  simp only [Request.compile, bind_eq_ok, pure_eq_ok, eq_comm (a := q)]

theorem columns_of_compile (h : r.compile = .ok q) (hs : resolve r.sorts = .ok cs) :
    q.columns = cs := by
  obtain ⟨cs', hs', ss, -, c, -, rfl⟩ := compile_eq_ok.1 h
  rw [hs] at hs'
  cases hs'
  rfl

theorem limit_of_compile (h : r.compile = .ok q) : q.limit = r.effectiveCount := by
  obtain ⟨cs, -, ss, -, c, -, rfl⟩ := compile_eq_ok.1 h
  rfl

end Query

/-! ## What a justification rests on -/

/-- The basis of the justification is the thing of that type with the id `i`. -/
def JustificationRow.BasedOn (j : JustificationRow) (type : BasisType) (i : Id) : Prop :=
  j.basisType = Coded.text type ∧ j.basisId = i

/-- The paraphrase restates the excerpt of that type with the id `i`. -/
def ParaphraseRow.Restates (s : ParaphraseRow) (type : SourceExcerptType) (i : Id) : Prop :=
  s.excerptType = Coded.text type ∧ s.excerptId = i

namespace Store

variable (db : Store) (j : JustificationRow)

/-- A live mixed compound is the basis, and the thing of that type with the id
    `i` is an atom of it. -/
inductive HasAtom (type : AtomType) (i : Id) : Prop
  | mk {c a} : c ∈ db.basisCompounds.live → j.BasedOn .justificationBasisCompound c.id →
      a ∈ db.basisAtoms → a.compoundId = c.id → a.entityType = Coded.text type →
      a.entityId = i → HasAtom type i

/-- The live paraphrase `s` is an atom of the basis. -/
def HasParaphrase (s : ParaphraseRow) : Prop :=
  s ∈ db.paraphrases.live ∧ db.HasAtom j .sourceExcerptParaphrase s.id

/-- The live quote `q` is the basis or restated by a paraphrase in it. -/
inductive HasQuote (q : WritQuoteRow) : Prop
  | basis : q ∈ db.writQuotes.live → j.BasedOn .writQuote q.id → HasQuote q
  | paraphrased {s} : q ∈ db.writQuotes.live → db.HasParaphrase j s →
      s.Restates .writQuote q.id → HasQuote q

/-- The live media excerpt `e` is the basis. -/
def HasExcerpt (e : MediaExcerptRow) : Prop :=
  e ∈ db.mediaExcerpts.live ∧ j.BasedOn .mediaExcerpt e.id

inductive Rests : FilterName → Value → Prop
  | self : Rests .justificationId (.integer j.id)
  | compoundAtom {c a p} : c ∈ db.propositionCompounds.live →
      j.BasedOn .propositionCompound c.id → a ∈ db.compoundAtoms → a.compoundId = c.id →
      p ∈ db.propositions.live → a.propositionId = p.id → Rests .propositionId (.integer p.id)
  | atom {p} : p ∈ db.propositions.live → db.HasAtom j .proposition p.id →
      Rests .propositionId (.integer p.id)
  | paraphrasing {s p} : db.HasParaphrase j s → p ∈ db.propositions.live →
      s.propositionId = p.id → Rests .propositionId (.integer p.id)
  | compound {c} : c ∈ db.propositionCompounds.live → j.BasedOn .propositionCompound c.id →
      Rests .propositionCompoundId (.integer c.id)
  | excerpt {e} : db.HasExcerpt j e → Rests .mediaExcerptId (.integer e.id)
  | paraphrasedExcerpt {s e} : db.HasParaphrase j s → e ∈ db.mediaExcerpts.live →
      s.Restates .mediaExcerpt e.id → Rests .mediaExcerptId (.integer e.id)
  | quote {q} : db.HasQuote j q → Rests .writQuoteId (.integer q.id)
  | writ {q w} : db.HasQuote j q → w ∈ db.writs.live → q.writId = w.id →
      Rests .writId (.integer w.id)
  | paraphrase {s} : db.HasParaphrase j s → Rests .sourceExcerptParaphraseId (.integer s.id)
  | quoteUrl {q l u} : db.HasQuote j q → l ∈ db.writQuoteUrls.live → l.writQuoteId = q.id →
      u ∈ db.urls.live → l.urlId = u.id → Rests .url (.text u.url)
  | excerptUrl {e l u} : db.HasExcerpt j e → l ∈ db.urlLocators.live →
      l.mediaExcerptId = e.id → u ∈ db.urls.live → l.urlId = u.id → Rests .url (.text u.url)

/-- The justification has a value of a filter, or there are no filters. -/
def Matches (filters : Filters) : Prop :=
  (∀ name, filters name = none) ∨
    ∃ name value, filters name = some value ∧
      ∃ raw ∈ value.values, ∃ v, filterValue name raw = .ok v ∧ db.Rests j name v

end Store

/-! ## Paths -/

namespace Store

variable {db : Store} {j : JustificationRow}

theorem mem_compoundBasis (h : db.Keyed) {c : CompoundRow} :
    c ∈ db.reach j .compoundBasis ↔
      c ∈ db.propositionCompounds.live ∧ j.BasedOn .propositionCompound c.id := by
  show c ∈ (db.basisProposition? j).toList ↔ _
  rw [Option.mem_toList, basisProposition?, h.propositionCompounds.typed?_eq_some,
    eq_comm (b := j.basisId)]
  rfl

theorem mem_quoteBasis (h : db.Keyed) {q : WritQuoteRow} :
    q ∈ db.reach j .quoteBasis ↔ q ∈ db.writQuotes.live ∧ j.BasedOn .writQuote q.id := by
  show q ∈ (db.basisQuote? j).toList ↔ _
  rw [Option.mem_toList, basisQuote?, h.writQuotes.typed?_eq_some,
    eq_comm (b := j.basisId)]
  rfl

theorem mem_excerptBasis (h : db.Keyed) {e : MediaExcerptRow} :
    e ∈ db.reach j .excerptBasis ↔ db.HasExcerpt j e := by
  show e ∈ (db.basisExcerpt? j).toList ↔ _
  rw [Option.mem_toList, basisExcerpt?, h.mediaExcerpts.typed?_eq_some,
    eq_comm (b := j.basisId)]
  rfl

/-- The atoms of the mixed compound that is the basis. -/
theorem hasAtom_iff (h : db.Keyed) {type : AtomType} {i : Id} :
    db.HasAtom j type i ↔ ∃ c, db.basisMixed? j = some c ∧
      ∃ a ∈ db.mixedAtoms c, a.entityType = Coded.text type ∧ a.entityId = i := by
  constructor
  · rintro ⟨hlive, hbasis, ha, hac, htype, hi⟩
    exact ⟨_, h.basisCompounds.typed?_eq_some.2 ⟨hlive, hbasis.1, hbasis.2.symm⟩, _,
      List.mem_filter.2 ⟨ha, by simpa using hac⟩, htype, hi⟩
  · rintro ⟨c, hc, a, ha, htype, hi⟩
    obtain ⟨hlive, hbasis, hid⟩ := h.basisCompounds.typed?_eq_some.1 hc
    obtain ⟨ha, hac⟩ := List.mem_filter.1 ha
    exact .mk hlive ⟨hbasis, hid.symm⟩ ha (by simpa using hac) htype hi

/-- A row to which atoms of one type lead. -/
theorem mem_atoms (h : db.Keyed) {α : Type} [HasId α] {t : Table α} (ht : t.Keyed)
    {type : AtomType} {r : α} :
    r ∈ ((db.basisMixed? j).toList.flatMap fun c =>
        (db.mixedAtoms c).filterMap fun a => t.typed? type a.entityType a.entityId) ↔
      r ∈ t.live ∧ db.HasAtom j type (HasId.id r) := by
  simp only [List.mem_flatMap, List.mem_filterMap, Option.mem_toList,
    ht.typed?_eq_some, hasAtom_iff h]
  constructor
  · rintro ⟨c, hc, a, ha, hr, htype, hid⟩
    exact ⟨hr, c, hc, a, ha, htype, hid.symm⟩
  · rintro ⟨hr, c, hc, a, ha, htype, hid⟩
    exact ⟨c, hc, a, ha, hr, htype, hid.symm⟩

theorem mem_basisProposition (h : db.Keyed) {p : PropositionRow} :
    p ∈ db.reach j .basisProposition ↔
      p ∈ db.propositions.live ∧ db.HasAtom j .proposition p.id :=
  mem_atoms h h.propositions

theorem mem_basisParaphrase (h : db.Keyed) {s : ParaphraseRow} :
    s ∈ db.reach j .basisParaphrase ↔ db.HasParaphrase j s :=
  mem_atoms h h.paraphrases

theorem mem_paraphrasedQuote (h : db.Keyed) {q : WritQuoteRow} :
    q ∈ db.reach j (.paraphrasedQuote .basisParaphrase) ↔
      ∃ s, db.HasParaphrase j s ∧ q ∈ db.writQuotes.live ∧ s.Restates .writQuote q.id := by
  refine (List.mem_filterMap (f := db.paraphrasedQuote?)).trans ?_
  refine exists_congr fun s => and_congr (mem_basisParaphrase h) ?_
  rw [paraphrasedQuote?, h.writQuotes.typed?_eq_some, eq_comm (b := s.excerptId)]
  rfl

theorem mem_paraphrasedExcerpt (h : db.Keyed) {e : MediaExcerptRow} :
    e ∈ db.reach j (.paraphrasedExcerpt .basisParaphrase) ↔
      ∃ s, db.HasParaphrase j s ∧ e ∈ db.mediaExcerpts.live ∧ s.Restates .mediaExcerpt e.id := by
  refine (List.mem_filterMap (f := db.paraphrasedExcerpt?)).trans ?_
  refine exists_congr fun s => and_congr (mem_basisParaphrase h) ?_
  rw [paraphrasedExcerpt?, h.mediaExcerpts.typed?_eq_some, eq_comm (b := s.excerptId)]
  rfl

/-- A quote is had on one of two paths. -/
theorem hasQuote_iff (h : db.Keyed) {q : WritQuoteRow} :
    db.HasQuote j q ↔
      q ∈ db.reach j .quoteBasis ∨ q ∈ db.reach j (.paraphrasedQuote .basisParaphrase) := by
  rw [mem_quoteBasis h, mem_paraphrasedQuote h]
  constructor
  · rintro (⟨hq, hj⟩ | ⟨hq, hs, hsq⟩)
    · exact .inl ⟨hq, hj⟩
    · exact .inr ⟨_, hs, hq, hsq⟩
  · rintro (⟨hq, hj⟩ | ⟨s, hs, hq, hsq⟩)
    · exact .basis hq hj
    · exact .paraphrased hq hs hsq

/-! ## Lists of linked rows -/

theorem mem_propositionsOf (h : db.Keyed) {c : CompoundRow} {p : PropositionRow} :
    p ∈ ((db.propositionAtoms c).filterMap fun a => db.propositions.row? a.propositionId) ↔
      ∃ a ∈ db.compoundAtoms, a.compoundId = c.id ∧ p ∈ db.propositions.live ∧
        a.propositionId = p.id := by
  simp only [List.mem_filterMap, propositionAtoms, List.mem_filter, decide_eq_true_eq,
    h.propositions.row?_eq_some, and_assoc]
  refine exists_congr ?_
  intro a
  rw [eq_comm (b := p.id)]
  rfl

theorem mem_quoteUrls (h : db.Keyed) {q : Id} {u : UrlRow} :
    u ∈ db.quoteUrls q ↔
      ∃ l ∈ db.writQuoteUrls.live, l.writQuoteId = q ∧ u ∈ db.urls.live ∧ l.urlId = u.id := by
  simp only [List.mem_filterMap, quoteUrls, List.mem_filter, decide_eq_true_eq,
    h.urls.row?_eq_some, and_assoc]
  refine exists_congr ?_
  intro l
  rw [eq_comm (b := u.id)]
  rfl

theorem mem_locatorUrls (h : db.Keyed) {e : Id} {u : UrlRow} :
    u ∈ (db.locators e).map (·.2) ↔
      ∃ l ∈ db.urlLocators.live, l.mediaExcerptId = e ∧ u ∈ db.urls.live ∧ l.urlId = u.id := by
  simp only [List.mem_map, List.mem_filterMap, locators, List.mem_filter, decide_eq_true_eq,
    Option.map_eq_some_iff, h.urls.row?_eq_some]
  constructor
  · rintro ⟨⟨l, u'⟩, ⟨l', ⟨hl, he⟩, u'', ⟨hu, hid⟩, heq⟩, rfl⟩
    cases heq
    exact ⟨l, hl, he, hu, hid.symm⟩
  · rintro ⟨l, hl, he, hu, hid⟩
    exact ⟨(l, u), ⟨l, ⟨hl, he⟩, u, ⟨hu, hid.symm⟩, rfl⟩, rfl⟩

/-! ## Going on from what is reached -/

theorem mem_compoundAtom (h : db.Keyed) {p : PropositionRow} :
    p ∈ db.reach j (.compoundAtom .compoundBasis) ↔
      ∃ c : CompoundRow, c ∈ db.reach j .compoundBasis ∧ ∃ a ∈ db.compoundAtoms,
        a.compoundId = c.id ∧ p ∈ db.propositions.live ∧ a.propositionId = p.id :=
  List.mem_flatMap.trans (exists_congr fun _ => and_congr_right fun _ => mem_propositionsOf h)

theorem mem_paraphrasing (h : db.Keyed) {p : PropositionRow} :
    p ∈ db.reach j (.paraphrasing .basisParaphrase) ↔
      ∃ s, db.HasParaphrase j s ∧ p ∈ db.propositions.live ∧ s.propositionId = p.id := by
  refine (List.mem_filterMap
    (f := fun s : ParaphraseRow => db.propositions.row? s.propositionId)).trans ?_
  refine exists_congr fun s => and_congr (mem_basisParaphrase h) ?_
  rw [h.propositions.row?_eq_some, eq_comm (b := p.id)]
  rfl

theorem mem_writ (h : db.Keyed) {path : Path .writQuote} {w : WritRow} :
    w ∈ db.reach j (.writ path) ↔
      ∃ q : WritQuoteRow, q ∈ db.reach j path ∧ w ∈ db.writs.live ∧ q.writId = w.id := by
  refine (List.mem_filterMap (f := fun q : WritQuoteRow => db.writs.row? q.writId)).trans ?_
  refine exists_congr fun q => and_congr_right fun _ => ?_
  rw [h.writs.row?_eq_some, eq_comm (b := w.id)]
  rfl

theorem mem_quoteUrl (h : db.Keyed) {path : Path .writQuote} {u : UrlRow} :
    u ∈ db.reach j (.quoteUrl path) ↔
      ∃ q : WritQuoteRow, q ∈ db.reach j path ∧ ∃ l ∈ db.writQuoteUrls.live,
        l.writQuoteId = q.id ∧ u ∈ db.urls.live ∧ l.urlId = u.id :=
  List.mem_flatMap.trans (exists_congr fun _ => and_congr_right fun _ => mem_quoteUrls h)

theorem mem_excerptUrl (h : db.Keyed) {u : UrlRow} :
    u ∈ db.reach j (.excerptUrl .excerptBasis) ↔
      ∃ e, db.HasExcerpt j e ∧ ∃ l ∈ db.urlLocators.live,
        l.mediaExcerptId = e.id ∧ u ∈ db.urls.live ∧ l.urlId = u.id :=
  List.mem_flatMap.trans (exists_congr fun _ =>
    and_congr (mem_excerptBasis h) (mem_locatorUrls h))

/-! ## The rules are the paths -/

/-- A path of the filter leads to a row with the value. -/
def Leads (db : Store) (j : JustificationRow) (name : FilterName) (v : Value) : Prop :=
  ∃ path ∈ name.paths, ∃ r ∈ db.reach j path, name.place.value r = v

theorem Rests.leads (h : db.Keyed) {name : FilterName} {v : Value} (hv : db.Rests j name v) :
    db.Leads j name v := by
  cases hv with
  | self => exact ⟨.self, .head _, j, .head _, rfl⟩
  | compoundAtom hc hj ha hac hp hap =>
    exact ⟨.compoundAtom .compoundBasis, .head _, _,
      (mem_compoundAtom h).2 ⟨_, (mem_compoundBasis h).2 ⟨hc, hj⟩, _, ha, hac, hp, hap⟩, rfl⟩
  | atom hp ha =>
    exact ⟨.basisProposition, .tail _ (.head _), _, (mem_basisProposition h).2 ⟨hp, ha⟩,
      rfl⟩
  | paraphrasing hs hp hsp =>
    exact ⟨.paraphrasing .basisParaphrase, .tail _ (.tail _ (.head _)), _,
      (mem_paraphrasing h).2 ⟨_, hs, hp, hsp⟩, rfl⟩
  | compound hc hj =>
    exact ⟨.compoundBasis, .head _, _, (mem_compoundBasis h).2 ⟨hc, hj⟩, rfl⟩
  | excerpt he =>
    exact ⟨.excerptBasis, .head _, _, (mem_excerptBasis h).2 he, rfl⟩
  | paraphrasedExcerpt hs he hse =>
    exact ⟨.paraphrasedExcerpt .basisParaphrase, .tail _ (.head _), _,
      (mem_paraphrasedExcerpt h).2 ⟨_, hs, he, hse⟩, rfl⟩
  | quote hq =>
    rcases (hasQuote_iff h).1 hq with hq | hq
    · exact ⟨_, .head _, _, hq, rfl⟩
    · exact ⟨_, .tail _ (.head _), _, hq, rfl⟩
  | writ hq hw hqw =>
    rcases (hasQuote_iff h).1 hq with hq | hq
    · exact ⟨_, .head _, _, (mem_writ h).2 ⟨_, hq, hw, hqw⟩, rfl⟩
    · exact ⟨_, .tail _ (.head _), _, (mem_writ h).2 ⟨_, hq, hw, hqw⟩, rfl⟩
  | paraphrase hs =>
    exact ⟨.basisParaphrase, .head _, _, (mem_basisParaphrase h).2 hs, rfl⟩
  | quoteUrl hq hl hlq hu hlu =>
    rcases (hasQuote_iff h).1 hq with hq | hq
    · exact ⟨_, .head _, _, (mem_quoteUrl h).2 ⟨_, hq, _, hl, hlq, hu, hlu⟩,
        rfl⟩
    · exact ⟨_, .tail _ (.tail _ (.head _)), _, (mem_quoteUrl h).2 ⟨_, hq, _, hl, hlq, hu, hlu⟩,
        rfl⟩
  | excerptUrl he hl hle hu hlu =>
    exact ⟨.excerptUrl .excerptBasis, .tail _ (.head _), _,
      (mem_excerptUrl h).2 ⟨_, he, _, hl, hle, hu, hlu⟩, rfl⟩

theorem eq_of_mem_pair {α : Type} {a b x : α} (h : x ∈ [a, b]) : x = a ∨ x = b := by
  simpa using h

theorem eq_of_mem_triple {α : Type} {a b c x : α} (h : x ∈ [a, b, c]) : x = a ∨ x = b ∨ x = c := by
  simpa using h

theorem Leads.rests (h : db.Keyed) {name : FilterName} {v : Value} (hv : db.Leads j name v) :
    db.Rests j name v := by
  obtain ⟨path, hpath, r, hr, rfl⟩ := hv
  cases name with
  | justificationId =>
    obtain rfl := List.mem_singleton.1 hpath
    obtain rfl := List.mem_singleton.1 hr
    exact .self
  | propositionId =>
    rcases eq_of_mem_triple hpath with rfl | rfl | rfl
    · obtain ⟨c, hc, a, ha, hac, hp, hap⟩ := (mem_compoundAtom h).1 hr
      obtain ⟨hc, hj⟩ := (mem_compoundBasis h).1 hc
      exact .compoundAtom hc hj ha hac hp hap
    · obtain ⟨hp, ha⟩ := (mem_basisProposition h).1 hr
      exact .atom hp ha
    · obtain ⟨s, hs, hp, hsp⟩ := (mem_paraphrasing h).1 hr
      exact .paraphrasing hs hp hsp
  | propositionCompoundId =>
    obtain rfl := List.mem_singleton.1 hpath
    obtain ⟨hc, hj⟩ := (mem_compoundBasis h).1 hr
    exact .compound hc hj
  | mediaExcerptId =>
    rcases eq_of_mem_pair hpath with rfl | rfl
    · exact .excerpt ((mem_excerptBasis h).1 hr)
    · obtain ⟨s, hs, he, hse⟩ := (mem_paraphrasedExcerpt h).1 hr
      exact .paraphrasedExcerpt hs he hse
  | writQuoteId =>
    rcases eq_of_mem_pair hpath with rfl | rfl
    · exact .quote ((hasQuote_iff h).2 (.inl hr))
    · exact .quote ((hasQuote_iff h).2 (.inr hr))
  | writId =>
    rcases eq_of_mem_pair hpath with rfl | rfl
    · obtain ⟨q, hq, hw, hqw⟩ := (mem_writ h).1 hr
      exact .writ ((hasQuote_iff h).2 (.inl hq)) hw hqw
    · obtain ⟨q, hq, hw, hqw⟩ := (mem_writ h).1 hr
      exact .writ ((hasQuote_iff h).2 (.inr hq)) hw hqw
  | sourceExcerptParaphraseId =>
    obtain rfl := List.mem_singleton.1 hpath
    exact .paraphrase ((mem_basisParaphrase h).1 hr)
  | url =>
    rcases eq_of_mem_triple hpath with rfl | rfl | rfl
    · obtain ⟨q, hq, l, hl, hlq, hu, hlu⟩ := (mem_quoteUrl h).1 hr
      exact .quoteUrl ((hasQuote_iff h).2 (.inl hq)) hl hlq hu hlu
    · obtain ⟨e, he, l, hl, hle, hu, hlu⟩ := (mem_excerptUrl h).1 hr
      exact .excerptUrl he hl hle hu hlu
    · obtain ⟨q, hq, l, hl, hlq, hu, hlu⟩ := (mem_quoteUrl h).1 hr
      exact .quoteUrl ((hasQuote_iff h).2 (.inr hq)) hl hlq hu hlu

/-- **The rules are the paths of the filters.** -/
theorem rests_iff (h : db.Keyed) {name : FilterName} {v : Value} :
    db.Rests j name v ↔ db.Leads j name v :=
  ⟨Rests.leads h, Leads.rests h⟩

end Store

/-! ## The selections of a request -/

namespace Query

variable {filters : Filters} {name : FilterName} {names : List FilterName}
  {ss : List Selection} {s : Selection}

theorem mem_filterValues {value : FilterValue} {vs : List Value}
    (h : filterValues name value = .ok vs) {v : Value} :
    v ∈ vs ↔ ∃ raw ∈ value.values, filterValue name raw = .ok v := by
  unfold filterValues at h
  split at h
  · cases h
  · constructor
    · exact exists_of_mem_mapM h
    · rintro ⟨raw, hraw, hv⟩
      obtain ⟨w, hw, hok⟩ := exists_mem_of_mapM h hraw
      rw [hv] at hok
      exact Except.ok.inj hok ▸ hw

theorem mem_selectionsFor (h : selectionsFor filters names = .ok ss) :
    s ∈ ss ↔ ∃ name ∈ names, ∃ value, filters name = some value ∧
      ∃ vs, filterValues name value = .ok vs ∧
        ∃ path ∈ name.paths, s = .reaching name.place path vs := by
  induction names generalizing ss with
  | nil =>
    cases h
    simp
  | cons name names ih =>
    rw [selectionsFor] at h
    simp only [List.mem_cons, or_and_right, exists_or, exists_eq_left]
    split at h
    · rename_i hnone
      simp [ih h, hnone]
    · rename_i value hvalue
      obtain ⟨vs, hvs, h⟩ := bind_eq_ok.1 h
      obtain ⟨rest, hrest, h⟩ := bind_eq_ok.1 h
      cases h
      rw [List.mem_append, ih hrest, List.mem_map]
      refine or_congr_left ?_
      constructor
      · rintro ⟨path, hpath, rfl⟩
        exact ⟨value, hvalue, vs, hvs, path, hpath, rfl⟩
      · rintro ⟨value', hvalue', vs', hvs', path, hpath, rfl⟩
        rw [hvalue] at hvalue'
        cases hvalue'
        rw [hvs] at hvs'
        cases hvs'
        exact ⟨path, hpath, rfl⟩

/-- The values of a filter of an accepted request can be read. -/
theorem exists_filterValues (h : selectionsFor filters names = .ok ss) (hn : name ∈ names)
    {value : FilterValue} (hv : filters name = some value) :
    ∃ vs, filterValues name value = .ok vs := by
  induction names generalizing ss with
  | nil => simp at hn
  | cons name' names ih =>
    rw [selectionsFor] at h
    split at h
    · rename_i hnone
      rcases List.mem_cons.1 hn with rfl | hn
      · rw [hv] at hnone
        cases hnone
      · exact ih h hn
    · rename_i value' hvalue
      obtain ⟨vs, hvs, h⟩ := bind_eq_ok.1 h
      obtain ⟨rest, hrest, h⟩ := bind_eq_ok.1 h
      rcases List.mem_cons.1 hn with rfl | hn
      · rw [hv] at hvalue
        cases hvalue
        exact ⟨vs, hvs⟩
      · exact ih hrest hn

/-- An id is read back as a value of a filter. -/
theorem filterValue_ofInt64 (h : name.takesIds = true) (i : Id) :
    filterValue name (Text.ofInt64 i) = .ok (.integer i) := by
  rw [filterValue, if_pos h, Text.trim_ofInt64, Text.ofInt64, Text.intOfChars?_repr,
    Option.bind_some, Text.int64OfInt?_toInt]

/-- There is one filter only. -/
def Filters.only (name : FilterName) (value : FilterValue) : Filters :=
  Filters.set (fun _ => none) name value

theorem Filters.only_eq_some_iff {name name' : FilterName} {value value' : FilterValue} :
    Filters.only name value name' = some value' ↔ name' = name ∧ value' = value := by
  show (if name' = name then some value else none) = some value' ↔ _
  split
  · rename_i hname
    simp [hname, eq_comm (a := value)]
  · rename_i hname
    simp [hname]

theorem selections_of_values {value : FilterValue} {vs : List Value}
    (h : filterValues name value = .ok vs) : selections (Filters.only name value) =
      .ok (name.paths.map fun path => .reaching name.place path vs) := by
  cases name <;>
    simp [selections, Filters.only, Filters.set, FilterName.all, selectionsFor, h, ok_bind]

theorem selections_only {raw : String} {v : Value} (h : filterValue name raw = .ok v) :
    selections (Filters.only name (.one raw)) =
      .ok (name.paths.map fun path => .reaching name.place path [v]) := by
  refine selections_of_values ?_
  rw [filterValues, FilterValue.values, if_neg (by simp), List.mapM_cons, h]
  rfl

/-- A value that is given several times. -/
theorem filterValues_replicate {raw : String} {v : Value} (h : filterValue name raw = .ok v)
    {n : Nat} (hn : n ≠ 0) :
    filterValues name (.many (List.replicate n raw)) = .ok (List.replicate n v) := by
  rw [filterValues, FilterValue.values, if_neg (by simpa using hn), mapM_eq_ok]
  clear hn
  induction n with
  | zero => exact .nil
  | succ n ih => exact .cons h ih

end Query

namespace Store

variable {db : Store} {j : JustificationRow}

theorem selects_reaching {place : Place} {path : Path place} {vs : List Value} :
    db.selects j (.reaching place path vs) = true ↔ ∃ r ∈ db.reach j path, place.value r ∈ vs := by
  rw [selects, List.any_eq_true]
  refine exists_congr fun r => and_congr_right fun _ => ?_
  rw [decide_eq_true_eq]

/-- A value of the filter leads to the justification. -/
def Answers (db : Store) (j : JustificationRow) (name : FilterName) (value : FilterValue) : Prop :=
  ∃ raw ∈ value.values, ∃ v, filterValue name raw = .ok v ∧ db.Leads j name v

/-- What the filters select answers one of them. -/
theorem exists_selects_iff {filters : Filters} {ss : List Selection}
    (hs : selectionsFor filters FilterName.all = .ok ss) :
    (∃ s ∈ ss, db.selects j s = true) ↔
      ∃ name value, filters name = some value ∧ db.Answers j name value := by
  simp only [mem_selectionsFor hs]
  constructor
  · rintro ⟨s, ⟨name, -, value, hvalue, vs, hvs, path, hpath, rfl⟩, hsel⟩
    obtain ⟨r, hr, hv⟩ := selects_reaching.1 hsel
    obtain ⟨raw, hraw, hok⟩ := (mem_filterValues hvs).1 hv
    exact ⟨name, value, hvalue, raw, hraw, _, hok, path, hpath, r, hr, rfl⟩
  · rintro ⟨name, value, hvalue, raw, hraw, v, hok, path, hpath, r, hr, rfl⟩
    obtain ⟨vs, hvs⟩ := exists_filterValues hs (FilterName.mem_all name) hvalue
    refine ⟨_, ⟨name, FilterName.mem_all name, value, hvalue, vs, hvs, path, hpath, rfl⟩, ?_⟩
    exact selects_reaching.2 ⟨r, hr, (mem_filterValues hvs).2 ⟨raw, hraw, hok⟩⟩

/-- Some selection of a request selects the justification. -/
theorem selected_iff (h : db.Keyed) {filters : Filters} {ss : List Selection}
    (hs : selections filters = .ok ss) :
    (∃ s ∈ ss, db.selects j s = true) ↔ db.Matches j filters := by
  rw [selections] at hs
  split at hs
  · rename_i hnone
    cases hs
    have hall : ∀ name, filters name = none := by
      simpa [FilterName.mem_all] using hnone
    simp [selects, Matches, hall]
  · rename_i hsome
    have hnot : ¬ ∀ name, filters name = none := by
      intro hall
      exact hsome (by simp [hall])
    simp only [exists_selects_iff hs, Matches, Answers, rests_iff h, hnot, false_or]

/-- **The live justifications that match the filters.** -/
theorem mem_matching_iff (h : db.Keyed) {filters : Filters} {ss : List Selection}
    (hs : selections filters = .ok ss) :
    j ∈ db.matching ss ↔ j ∈ db.justifications.live ∧ db.Matches j filters := by
  rw [mem_matching, selected_iff h hs]

/-- What a filter alone finds has one of its values. -/
theorem matches_only_iff {name : FilterName} {value : FilterValue} :
    db.Matches j (Filters.only name value) ↔
      ∃ raw ∈ value.values, ∃ v, filterValue name raw = .ok v ∧ db.Rests j name v := by
  constructor
  · rintro (hnone | ⟨name', value', hvalue, hrests⟩)
    · have hsome : Filters.only name value name = some value :=
        Filters.only_eq_some_iff.2 ⟨rfl, rfl⟩
      rw [hnone] at hsome
      cases hsome
    · obtain ⟨rfl, rfl⟩ := Filters.only_eq_some_iff.1 hvalue
      exact hrests
  · exact fun hrests => .inr ⟨name, value, Filters.only_eq_some_iff.2 ⟨rfl, rfl⟩, hrests⟩

/-- What is found by one id rests on what has that id. -/
theorem matches_only {name : FilterName} (hids : name.takesIds = true) {i : Id} :
    db.Matches j (Filters.only name (.one (Text.ofInt64 i))) ↔ db.Rests j name (.integer i) := by
  rw [matches_only_iff]
  simp [FilterValue.values, filterValue_ofInt64 hids]

end Store

end Rationale
