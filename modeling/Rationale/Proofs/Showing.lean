/-
  Rationale — what a justification shows is what it is found by.

  A filter finds a justification by joins of its own, and what the page then
  shows of its basis comes from other joins, regrouped and filled in later.
  They agree: a justification on a page is selected by an id if and only if the
  id is to be seen in its basis, at the place that belongs to the filter.

  * `Basis.Shows`: the places of a basis, one rule for each;
  * `Fills.shows_iff`: they are the ways to what a justification rests on;
  * `selected_iff_shows`: so for all that a page includes, at any depth.
-/
import Rationale.Proofs.Bases

namespace Rationale

open Query Store Lookups Time

/-! ## What is to be seen -/

/-- The basis shows the id `i` at a place that belongs to a filter. -/
inductive Basis.Shows (b : Basis) : FilterName → Id → Prop
  | compound {c} : b = .propositionCompound (.entity c) → Shows b .propositionCompoundId c.id
  | compoundAtom {c a} : b = .propositionCompound (.entity c) → a ∈ c.atoms →
      Shows b .propositionId a.proposition.id
  | atom {c a p} : b = .justificationBasisCompound (.entity c) → a ∈ c.atoms →
      a.entity = .proposition (.entity p) → Shows b .propositionId p.id
  | paraphrasing {s p} : b.HasParaphrase s → s.proposition = .entity p →
      Shows b .propositionId p.id
  | excerpt {e} : b = .mediaExcerpt (.entity e) → Shows b .mediaExcerptId e.id
  | paraphrasedExcerpt {s e} : b.HasParaphrase s → s.excerpt = .mediaExcerpt (.entity e) →
      Shows b .mediaExcerptId e.id
  | writ {w} : b = .writQuote (.entity w) → Shows b .writId w.writ.id
  | paraphrasedWrit {s w} : b.HasParaphrase s → s.excerpt = .writQuote (.entity w) →
      Shows b .writId w.writ.id
  | paraphrase {s} : b.HasParaphrase s → Shows b .sourceExcerptParaphraseId s.id

/-- The filters whose ids have a place in a basis. -/
def FilterName.shown : List FilterName :=
  [.propositionId, .propositionCompoundId, .mediaExcerptId, .writId, .sourceExcerptParaphraseId]

/-- `y` is `x` itself, or one of the targets and counters in it, at any depth. -/
inductive Justification.Includes : Justification → Justification → Prop
  | self x : Includes x x
  | target {x t y} : x.target = .justification (.entity t) → Includes t y → Includes x y
  | counter {x c y} : c ∈ x.counters → Includes c y → Includes x y

/-! ## What an outline shows -/

namespace Store

variable {db : Store} {j : JustificationRow} {x y : Justification}

section

variable (hk : db.Keyed) (h : db.outline j = .ok y) {i : Id}

include hk h

theorem shows_compound_iff :
    y.basis.Shows .propositionCompoundId i ↔ db.Rests j .propositionCompoundId (.integer i) := by
  constructor
  · intro hi
    cases hi with
    | compound hc =>
      obtain ⟨r, hr, hrc⟩ := (compound_of_outline_iff h).1 hc
      obtain ⟨hlive, htype, hid⟩ := hk.propositionCompounds.typed?_eq_some.1 hr
      rw [id_of_compoundOf hrc]
      exact .compound hlive ⟨htype, hid.symm⟩
  · intro hi
    cases hi with
    | compound hlive hbased =>
      have hr := hk.propositionCompounds.typed?_eq_some.2 ⟨hlive, hbased.1, hbased.2.symm⟩
      obtain ⟨c, hrc⟩ := (outlined_iff.2 ⟨y, h⟩).compound _ hr
      rw [← id_of_compoundOf hrc]
      exact .compound ((compound_of_outline_iff h).2 ⟨_, hr, hrc⟩)

/-- The paraphrases in a basis are the live ones that are atoms of it. -/
theorem paraphrase_of_outline_iff {s : SourceExcerptParaphrase} :
    y.basis.HasParaphrase s ↔
      ∃ r, db.HasParaphrase j r ∧ (db.joinedParaphrase r).decode = .ok s := by
  constructor
  · rintro ⟨c, hc, b, hb, hs⟩
    rcases exists_row_of_atom hk h hc hb with ⟨_, _, -, -, -, hp⟩ | ⟨r, s', hr, hdecode, hs'⟩
    · rw [hs] at hp
      cases hp
    · rw [hs] at hs'
      cases hs'
      exact ⟨r, hr, hdecode⟩
  · rintro ⟨r, hr, hdecode⟩
    obtain ⟨s', hdecode', hs'⟩ := exists_atom_of_paraphrase hk h hr
    rw [hdecode] at hdecode'
    cases hdecode'
    exact hs'

theorem shows_proposition_iff :
    y.basis.Shows .propositionId i ↔ db.Rests j .propositionId (.integer i) := by
  constructor
  · intro hi
    cases hi with
    | compoundAtom hc ha =>
      obtain ⟨r, hr, hrc⟩ := (compound_of_outline_iff h).1 hc
      obtain ⟨hlive, htype, hid⟩ := hk.propositionCompounds.typed?_eq_some.1 hr
      obtain ⟨a, hmem, hac, p, hp, hpi⟩ := (mem_compoundOf hrc).1 ⟨_, ha, rfl⟩
      obtain ⟨hp, hpa⟩ := hk.propositions.row?_eq_some.1 hp
      rw [← hpi]
      exact .compoundAtom hlive ⟨htype, hid.symm⟩ hmem hac hp hpa.symm
    | atom hc ha hp =>
      rcases exists_row_of_atom hk h hc ha with ⟨r, p, hr, hatom, hdecode, hp'⟩ | ⟨_, _, -, -, hs⟩
      · rw [hp] at hp'
        cases hp'
        rw [PropositionRow.id_of_decode hdecode]
        exact .atom hr hatom
      · rw [hp] at hs
        cases hs
    | paraphrasing hs hp =>
      obtain ⟨r, hr, hdecode⟩ := (paraphrase_of_outline_iff hk h).1 hs
      obtain ⟨p, hlive, hrp, hid⟩ := (proposition_of_paraphrase_iff hdecode hk).1 ⟨_, hp, rfl⟩
      rw [← hid]
      exact .paraphrasing hr hlive hrp
  · intro hi
    cases hi with
    | compoundAtom hlive hbased ha hac hp hap =>
      have hr := hk.propositionCompounds.typed?_eq_some.2 ⟨hlive, hbased.1, hbased.2.symm⟩
      obtain ⟨c, hrc⟩ := (outlined_iff.2 ⟨y, h⟩).compound _ hr
      obtain ⟨a', ha', hid⟩ := (mem_compoundOf hrc).2
        ⟨_, ha, hac, _, hk.propositions.row?_eq_some.2 ⟨hp, hap.symm⟩, rfl⟩
      rw [← hid]
      exact .compoundAtom ((compound_of_outline_iff h).2 ⟨_, hr, hrc⟩) ha'
    | atom hp hatom =>
      obtain ⟨c, hc, b, hb, p, hdecode, hbp⟩ := exists_atom_of_proposition hk h hp hatom
      rw [← PropositionRow.id_of_decode hdecode]
      exact .atom hc hb hbp
    | paraphrasing hs hp hsp =>
      obtain ⟨s, hdecode, hs⟩ := exists_atom_of_paraphrase hk h hs
      obtain ⟨p, hp, hid⟩ := (proposition_of_paraphrase_iff hdecode hk).2 ⟨_, hp, hsp, rfl⟩
      rw [← hid]
      exact .paraphrasing hs hp

theorem shows_writ_iff : y.basis.Shows .writId i ↔ db.Rests j .writId (.integer i) := by
  constructor
  · intro hi
    cases hi with
    | writ hw =>
      obtain ⟨q, hq, hbased, w, hlive, hqw, hid⟩ := (writ_of_outline_iff hk h).1 ⟨_, hw, rfl⟩
      rw [← hid]
      exact .writ (.basis hq hbased) hlive hqw
    | paraphrasedWrit hs hw =>
      obtain ⟨r, hr, hdecode⟩ := (paraphrase_of_outline_iff hk h).1 hs
      obtain ⟨q, hq, hrq, w, hlive, hqw, hid⟩ := (quote_of_paraphrase_iff hdecode hk).1 ⟨_, hw, rfl⟩
      rw [← hid]
      exact .writ (.paraphrased hq hr hrq) hlive hqw
  · intro hi
    cases hi with
    | writ hquote hlive hqw =>
      cases hquote with
      | basis hq hbased =>
        obtain ⟨w, hw, hid⟩ := (writ_of_outline_iff hk h).2 ⟨_, hq, hbased, _, hlive, hqw, rfl⟩
        rw [← hid]
        exact .writ hw
      | paraphrased hq hr hrq =>
        obtain ⟨s, hdecode, hs⟩ := exists_atom_of_paraphrase hk h hr
        obtain ⟨w, hw, hid⟩ :=
          (quote_of_paraphrase_iff hdecode hk).2 ⟨_, hq, hrq, _, hlive, hqw, rfl⟩
        rw [← hid]
        exact .paraphrasedWrit hs hw

theorem shows_paraphrase_iff :
    y.basis.Shows .sourceExcerptParaphraseId i ↔
      db.Rests j .sourceExcerptParaphraseId (.integer i) := by
  constructor
  · intro hi
    cases hi with
    | paraphrase hs =>
      obtain ⟨r, hr, hdecode⟩ := (paraphrase_of_outline_iff hk h).1 hs
      rw [id_of_paraphrase hdecode]
      exact .paraphrase hr
  · intro hi
    cases hi with
    | paraphrase hr =>
      obtain ⟨s, hdecode, hs⟩ := exists_atom_of_paraphrase hk h hr
      rw [← id_of_paraphrase hdecode]
      exact .paraphrase hs

end

end Store

/-! ## What is filled in -/

namespace Lookups

variable {l : Lookups} {b b' : Basis} {name : FilterName} {i : Id}

theorem quote_writ (w : WritQuote) : (l.quote w).writ = w.writ := by
  unfold quote
  split <;> rfl

theorem atom_eq_proposition_iff {a : BasisAtom} {p : Relation Proposition} :
    (l.atom a).entity = .proposition p ↔ a.entity = .proposition p := by
  obtain ⟨i, entity, position⟩ := a
  cases entity with
  | proposition p' => simp [atom]
  | sourceExcerptParaphrase s => cases s <;> simp [atom]

theorem excerpt_eq_entity_iff {s : SourceExcerpt} (hne : ∀ e, s ≠ .mediaExcerpt (.entity e))
    {e : MediaExcerpt} : l.excerpt s = .mediaExcerpt (.entity e) ↔
      ∃ i, s = .mediaExcerpt (.ref i) ∧ l.mediaExcerpts i = some e := by
  cases s with
  | writQuote w => simp [excerpt]
  | mediaExcerpt r =>
    cases r with
    | entity e' => exact absurd rfl (hne e')
    | ref i => cases hi : l.mediaExcerpts i <;> simp [excerpt, hi, Relation.ofLookup]

theorem excerpt_eq_quote_iff {e : SourceExcerpt} {w : Relation WritQuote} :
    l.excerpt e = .writQuote w ↔ e = .writQuote w := by
  cases e with
  | writQuote w' => simp [excerpt]
  | mediaExcerpt e => cases e <;> simp [excerpt]

variable (h : l.basis b = .ok b')

include h

theorem basis_eq_compound_iff {c : Relation PropositionCompound} :
    b' = .propositionCompound c ↔ b = .propositionCompound c := by
  rcases basis_eq_ok h with ⟨i, e, rfl, -, rfl⟩ | ⟨w, rfl, rfl⟩ | ⟨m, rfl, rfl⟩ | ⟨rfl, -⟩ <;> simp

theorem basis_eq_quote_iff {w' : WritQuote} :
    b' = .writQuote (.entity w') ↔ ∃ w, b = .writQuote (.entity w) ∧ w' = l.quote w := by
  rcases basis_eq_ok h with ⟨i, e, rfl, -, rfl⟩ | ⟨w, rfl, rfl⟩ | ⟨m, rfl, rfl⟩ | ⟨rfl, -, hne, -⟩
  · simp
  · simp [eq_comm (a := w')]
  · simp
  · simp [hne]

/-- A media excerpt that was known by its id has been found. -/
theorem basis_eq_excerpt_iff (hne : ∀ e, b ≠ .mediaExcerpt (.entity e)) {e : MediaExcerpt} :
    b' = .mediaExcerpt (.entity e) ↔
      ∃ i, b = .mediaExcerpt (.ref i) ∧ l.mediaExcerpts i = some e := by
  rcases basis_eq_ok h with ⟨i, e', rfl, he, rfl⟩ | ⟨w, rfl, rfl⟩ | ⟨m, rfl, rfl⟩ | ⟨rfl, hne', -⟩
  · simp [he]
  · simp
  · simp
  · simp [hne, hne']

omit h

/-- **What is filled in shows what was shown**, but for media excerpts. -/
theorem shows_of_hydrate {y x : Justification} (h : l.hydrate y = .ok x)
    (hname : name ≠ .mediaExcerptId) : x.basis.Shows name i ↔ y.basis.Shows name i := by
  obtain ⟨_, -, _, -, b, hb, _, -, hx⟩ := hydrate_eq_ok.1 h
  have hbasis : x.basis = b := by rw [hx]
  rw [← hbasis] at hb
  constructor
  · intro hi
    cases hi with
    | compound hc => exact .compound ((basis_eq_compound_iff hb).1 hc)
    | compoundAtom hc ha => exact .compoundAtom ((basis_eq_compound_iff hb).1 hc) ha
    | atom hc ha hp =>
      obtain ⟨c, hy, rfl⟩ := (basis_eq_mixed_iff hb).1 hc
      obtain ⟨a, ha', rfl⟩ := List.mem_map.1 ha
      exact .atom hy ha' (atom_eq_proposition_iff.1 hp)
    | paraphrasing hs hp =>
      obtain ⟨s, hy, rfl⟩ := (hasParaphrase_of_hydrate h).1 hs
      exact .paraphrasing hy hp
    | excerpt | paraphrasedExcerpt => exact absurd rfl hname
    | writ hw =>
      obtain ⟨w, hy, rfl⟩ := (basis_eq_quote_iff hb).1 hw
      rw [quote_writ]
      exact .writ hy
    | paraphrasedWrit hs hw =>
      obtain ⟨s, hy, rfl⟩ := (hasParaphrase_of_hydrate h).1 hs
      exact .paraphrasedWrit hy (excerpt_eq_quote_iff.1 hw)
    | paraphrase hs =>
      obtain ⟨s, hy, rfl⟩ := (hasParaphrase_of_hydrate h).1 hs
      exact (Basis.Shows.paraphrase hy :)
  · intro hi
    cases hi with
    | compound hc => exact .compound ((basis_eq_compound_iff hb).2 hc)
    | compoundAtom hc ha => exact .compoundAtom ((basis_eq_compound_iff hb).2 hc) ha
    | atom hc ha hp =>
      exact .atom ((basis_eq_mixed_iff hb).2 ⟨_, hc, rfl⟩) (List.mem_map_of_mem ha)
        (atom_eq_proposition_iff.2 hp)
    | paraphrasing hs hp =>
      exact .paraphrasing ((hasParaphrase_of_hydrate h).2 ⟨_, hs, rfl⟩) hp
    | excerpt | paraphrasedExcerpt => exact absurd rfl hname
    | writ hw =>
      rw [← quote_writ (l := l)]
      exact .writ ((basis_eq_quote_iff hb).2 ⟨_, hw, rfl⟩)
    | paraphrasedWrit hs hw =>
      exact .paraphrasedWrit ((hasParaphrase_of_hydrate h).2 ⟨_, hs, rfl⟩)
        (excerpt_eq_quote_iff.2 hw)
    | @paraphrase s hs =>
      have hx := (hasParaphrase_of_hydrate h).2 ⟨s, hs, rfl⟩
      exact (Basis.Shows.paraphrase hx :)

end Lookups

/-! ## What a justification shows -/

namespace Store

variable {db : Store} {includeUrls : Bool} {known : List JustificationRow} {j : JustificationRow}
  {x y : Justification}
  {name : FilterName} {i : Id} {f : Id → Option Proposition} {e : MediaExcerpt}

theorem excerpt_of_lookups (h : (db.lookups f includeUrls).mediaExcerpts i = some e) :
    e.id = i ∧ ∃ r ∈ db.mediaExcerpts.live, r.id = i := by
  obtain ⟨r, hr, he⟩ := Option.bind_eq_some_iff.1 h
  have hid : r.id = i := Table.id_of_row? hr
  refine ⟨?_, r, Table.mem_live_of_row? hr, hid⟩
  obtain ⟨_, -, hdecode⟩ := bind_eq_ok.1 (toOption_eq_some.1 he)
  rw [id_of_mediaExcerpt hdecode, hid]

/-- What the store has under each id has that id. -/
theorem keyed_lookups (db : Store) (includeUrls : Bool) :
    (db.lookups db.proposition? includeUrls).Keyed where
  propositions i p hp := by
    obtain ⟨r, hr, hp⟩ := Option.bind_eq_some_iff.1 hp
    rw [PropositionRow.id_of_decode (toOption_eq_some.1 hp)]
    exact Table.id_of_row? hr
  statements i s hs := by
    obtain ⟨e, he, hs⟩ := Option.bind_eq_some_iff.1 hs
    exact id_of_statement? he (toOption_eq_some.1 hs)
  mediaExcerpts i e he := (excerpt_of_lookups he).1
  users i u hu := by
    obtain ⟨r, hr, rfl⟩ := Option.map_eq_some_iff.1 hu
    exact Table.id_of_row? hr

/-- **What is filled in is shown as its row.** -/
theorem Fills.shown (h : db.Fills includeUrls j x) : j.Shown x := by
  obtain ⟨y, hjy, hyx⟩ := h.hydrated
  obtain ⟨hrow, hcreated⟩ := row_of_hydrate (keyed_lookups db includeUrls) hyx
  refine ⟨?_, ?_⟩
  · rw [hrow, hcreated, row_of_outline hjy]
  · rw [hcreated]
    exact (decode_of_outline hjy).1

/-- The media excerpt that is the basis is shown. -/
theorem basis_eq_excerpt_iff (hjy : db.outline j = .ok y)
    (hyx : (db.lookups f includeUrls).hydrate y = .ok x) :
    x.basis = .mediaExcerpt (.entity e) ↔ j.BasedOn .mediaExcerpt j.basisId ∧
      (db.lookups f includeUrls).mediaExcerpts j.basisId = some e := by
  obtain ⟨_, -, _, -, b, hb, _, -, hx⟩ := hydrate_eq_ok.1 hyx
  have hne : ∀ e, y.basis ≠ .mediaExcerpt (.entity e) := fun e he => by
    cases ((excerpt_of_outline_iff hjy).1 he).2
  rw [show x.basis = b by rw [hx], Lookups.basis_eq_excerpt_iff hb hne]
  simp only [excerpt_of_outline_iff hjy, Relation.ref.injEq]
  simp

/-- The media excerpt of a paraphrase is shown. -/
theorem excerpt_eq_entity_iff {r : ParaphraseRow} {s : SourceExcerptParaphrase}
    (h : (db.joinedParaphrase r).decode = .ok s) :
    (db.lookups f includeUrls).excerpt s.excerpt = .mediaExcerpt (.entity e) ↔
      r.Restates .mediaExcerpt r.excerptId ∧
        (db.lookups f includeUrls).mediaExcerpts r.excerptId = some e := by
  have hne : ∀ e, s.excerpt ≠ .mediaExcerpt (.entity e) := fun e he => by
    cases ((excerpt_of_paraphrase_iff h).1 he).2
  rw [Lookups.excerpt_eq_entity_iff hne]
  simp only [excerpt_of_paraphrase_iff h, Relation.ref.injEq]
  simp

/-- Media excerpts are shown if they are live. -/
theorem Fills.shows_excerpt_iff (hk : db.Keyed) (h : db.Fills includeUrls j x) :
    x.basis.Shows .mediaExcerptId i ↔ db.Rests j .mediaExcerptId (.integer i) := by
  obtain ⟨y, hjy, hyx⟩ := h.hydrated
  constructor
  · intro hi
    cases hi with
    | excerpt he =>
      obtain ⟨hbased, he⟩ := (basis_eq_excerpt_iff hjy hyx).1 he
      obtain ⟨hid, r, hr, hri⟩ := excerpt_of_lookups he
      rw [hid, ← hri]
      exact .excerpt ⟨hr, hri ▸ hbased⟩
    | paraphrasedExcerpt hs he =>
      obtain ⟨s, hy, rfl⟩ := (hasParaphrase_of_hydrate hyx).1 hs
      obtain ⟨r, hr, hdecode⟩ := (paraphrase_of_outline_iff hk hjy).1 hy
      obtain ⟨hrestates, he⟩ := (excerpt_eq_entity_iff hdecode).1 he
      obtain ⟨hid, m, hm, hmi⟩ := excerpt_of_lookups he
      rw [hid, ← hmi]
      exact .paraphrasedExcerpt hr hm (hmi ▸ hrestates)
  · intro hi
    cases hi with
    | excerpt he =>
      obtain ⟨-, htype, hid⟩ := he
      obtain ⟨_, -, _, -, b, hb, _, -, hx⟩ := hydrate_eq_ok.1 hyx
      rw [(excerpt_of_outline_iff hjy).2 ⟨⟨htype, rfl⟩, rfl⟩] at hb
      obtain ⟨e, he, hbe⟩ := map_eq_ok.1 hb
      rw [← hid, ← (excerpt_of_lookups (required_eq_ok.1 he)).1]
      refine .excerpt ?_
      rw [hx, hbe]
    | @paraphrasedExcerpt r _ hr _ hrestates =>
      obtain ⟨htype, hid⟩ := hrestates
      obtain ⟨s, hdecode, hs⟩ := exists_atom_of_paraphrase hk hjy hr
      have hxs := (hasParaphrase_of_hydrate hyx).2 ⟨s, hs, rfl⟩
      have hexcerpt := (excerpt_of_paraphrase_iff hdecode).2 ⟨⟨htype, rfl⟩, rfl⟩
      cases he : (db.lookups db.proposition? includeUrls).mediaExcerpts r.excerptId with
      | none =>
        refine absurd ?_ (h.excerpts _ hxs r.excerptId)
        rw [hexcerpt, Lookups.excerpt, he]
        rfl
      | some e =>
        rw [← hid, ← (excerpt_of_lookups he).1]
        exact .paraphrasedExcerpt hxs ((excerpt_eq_entity_iff hdecode).2 ⟨⟨htype, rfl⟩, he⟩)

/-- **What is shown of a justification is what it rests on.** -/
theorem Fills.shows_iff (hk : db.Keyed) (h : db.Fills includeUrls j x)
    (hname : name ∈ FilterName.shown) :
    x.basis.Shows name i ↔ db.Rests j name (.integer i) := by
  obtain ⟨y, hjy, hyx⟩ := h.hydrated
  cases name with
  | mediaExcerptId => exact h.shows_excerpt_iff hk
  | propositionId =>
    exact (shows_of_hydrate hyx (by decide)).trans (shows_proposition_iff hk hjy)
  | propositionCompoundId =>
    exact (shows_of_hydrate hyx (by decide)).trans (shows_compound_iff hk hjy)
  | writId => exact (shows_of_hydrate hyx (by decide)).trans (shows_writ_iff hk hjy)
  | sourceExcerptParaphraseId =>
    exact (shows_of_hydrate hyx (by decide)).trans (shows_paraphrase_iff hk hjy)
  | justificationId | writQuoteId | url => exact absurd hname (by decide)

/-! ## What is on a page -/

/-- `x` is `j` filled in, whether or not a justification is nested in it as its
    target, and whatever counters it has. -/
def Presents (db : Store) (includeUrls : Bool) (j : JustificationRow) (x : Justification) : Prop :=
  ∃ y, db.Fills includeUrls j y ∧ x = { y with target := x.target, counters := x.counters } ∧
    (x.target = y.target ∨ ∃ t, x.target = .justification (.entity t) ∧ j.targetId? = some t.id)

theorem Fills.presents (h : db.Fills includeUrls j x) : db.Presents includeUrls j x :=
  ⟨x, h, by cases x; rfl, .inl rfl⟩

/-- The target of a justification that was filled in is none that is at hand. -/
theorem Fills.target_ne (h : db.Fills includeUrls j x) (t : Justification) :
    x.target ≠ .justification (.entity t) := by
  obtain ⟨z, hjz, hzx⟩ := h.hydrated
  obtain ⟨t', ht, _, -, _, -, _, -, rfl⟩ := hydrate_eq_ok.1 hzx
  intro htarget
  rcases target_eq_ok ht with ⟨_, _, _, _, rfl⟩ | ⟨_, _, _, _, rfl⟩ | ⟨r, hz, rfl⟩
  · cases htarget
  · cases htarget
  · cases htarget
    exact (openTarget?_of_outline hjz).2 _ hz

theorem Fills.counters (h : db.Fills includeUrls j x) : x.counters = [] := by
  obtain ⟨z, hjz, hzx⟩ := h.hydrated
  obtain ⟨-, -, hcounters, -⟩ := decode_of_outline hjz
  obtain ⟨_, -, _, -, _, -, _, -, rfl⟩ := hydrate_eq_ok.1 hzx
  exact hcounters

/-- Nothing is nested in a justification that was filled in. -/
theorem Fills.eq_of_includes (h : db.Fills includeUrls j x) (hy : x.Includes y) : y = x := by
  cases hy with
  | self => rfl
  | target htarget => exact absurd htarget (h.target_ne _)
  | counter hc =>
    rw [h.counters] at hc
    cases hc

theorem Fills.exists_presents (h : db.Fills includeUrls j x) (hj : j ∈ db.justifications.live)
    (hy : x.Includes y) : ∃ k ∈ db.justifications.live, db.Presents includeUrls k y := by
  obtain rfl := h.eq_of_includes hy
  exact ⟨j, hj, h.presents⟩

theorem Depicts.presents (h : db.Depicts includeUrls known j x) : db.Presents includeUrls j x := by
  cases h with
  | ends hx _ => exact hx.presents
  | step hx _ htarget hy => exact ⟨_, hx, rfl, .inr ⟨_, rfl, by rw [htarget, hy.id]⟩⟩

theorem Depicts.exists_presents (hknown : ∀ t ∈ known, t ∈ db.justifications.live)
    (h : db.Depicts includeUrls known j x) (hj : j ∈ db.justifications.live)
    (hy : x.Includes y) : ∃ k ∈ db.justifications.live, db.Presents includeUrls k y := by
  induction h with
  | ends hx _ => exact hx.exists_presents hj hy
  | step hx ht htarget hz ih =>
    cases hy with
    | self => exact ⟨_, hj, (Depicts.step hx ht htarget hz).presents⟩
    | target hz hy =>
      cases hz
      exact ih (hknown _ ht) hy
    | counter hc hy => exact hx.exists_presents hj (.counter hc hy)

/-- **All that a sketch includes is a live justification**, filled in. -/
theorem Sketched.exists_presents (h : db.Sketched includeUrls j x)
    (hj : j ∈ db.justifications.live) (hy : x.Includes y) :
    ∃ k ∈ db.justifications.live, db.Presents includeUrls k y := by
  obtain ⟨known, counters, hknown, hcounters, z, cs, hz, hcs, rfl⟩ := h
  cases hy with
  | self =>
    obtain ⟨w, hw, hzw, htarget⟩ := hz.presents
    exact ⟨j, hj, w, hw, by rw [hzw], htarget⟩
  | target htarget hy => exact hz.exists_presents hknown hj (.target htarget hy)
  | counter hc hy =>
    obtain ⟨k, hk, hkc⟩ := exists_mem_left_of_forall₂ hcs hc
    exact hkc.exists_presents (mem_countersOf.1 (hcounters k hk)).1 hy

theorem Presents.id (h : db.Presents includeUrls j x) : x.id = j.id := by
  obtain ⟨y, hy, hxy, -⟩ := h
  rw [hxy]
  exact hy.id

/-- `x` has the basis of a live justification that was filled in. -/
def BasisFilled (db : Store) (includeUrls : Bool) (x : Justification) : Prop :=
  ∃ j ∈ db.justifications.live, j.id = x.id ∧ ∃ y, db.Fills includeUrls j y ∧ y.basis = x.basis

theorem Sketched.basisFilled (h : db.Sketched includeUrls j x) (hj : j ∈ db.justifications.live)
    (hy : x.Includes y) : db.BasisFilled includeUrls y := by
  obtain ⟨k, hk, hky⟩ := h.exists_presents hj hy
  have hid := hky.id
  obtain ⟨z, hz, hyz, -⟩ := hky
  exact ⟨k, hk, hid.symm, z, hz, by rw [hyz]⟩

end Store

/-! ## Searching -/

variable {db : Store} {ch : Chance} {r s : Request} {out : List Justification} {x y : Justification}
  {j : JustificationRow} {name : FilterName} {ss : List Selection} {q : PageQuery} {i : Id}

theorem FilterName.takesIds_of_shown (h : name ∈ shown) : name.takesIds = true := by
  revert name
  decide

/-- What a page includes shows what the justification rests on. -/
theorem shows_iff_rests (hk : db.Keyed) (h : (db.read ch r).result = .ok out) (hx : x ∈ out)
    (hy : x.Includes y) (hj : j ∈ db.justifications.live) (hid : j.id = y.id)
    (hname : name ∈ FilterName.shown) :
    y.basis.Shows name i ↔ db.Rests j name (.integer i) := by
  obtain ⟨k, hk', hkx⟩ := exists_sketched hk h hx
  obtain ⟨j', hj', hid', z, hz, hbasis⟩ := hkx.basisFilled hk' hy
  obtain rfl := hk.justifications.eq_of_id_eq hj hj' (hid.trans hid'.symm)
  rw [← hbasis]
  exact hz.shows_iff hk hname

/-- **What a justification is found by is what it shows.**  The filter by an id
    is accepted, and it selects a justification that some page includes if and
    only if the basis that the page shows of it has the id at a place of the
    filter; and so a search from its start on is for these justifications. -/
theorem selected_iff_shows (hk : db.Keyed) (h : (db.read ch r).result = .ok out) (hx : x ∈ out)
    (hy : x.Includes y) (hj : j ∈ db.justifications.live) (hid : j.id = y.id)
    (hname : name ∈ FilterName.shown) (i : Id) :
    (∃ ss, selections (Filters.only name (.one (Text.ofInt64 i))) = .ok ss ∧
      (j ∈ db.matching ss ↔ y.basis.Shows name i)) ∧
    ∀ s q, Request.filters s = Filters.only name (.one (Text.ofInt64 i)) →
      s.isContinuation = false → s.compile = .ok q →
        (j ∈ db.eligible q ↔ y.basis.Shows name i) := by
  have hids := FilterName.takesIds_of_shown hname
  rw [shows_iff_rests hk h hx hy hj hid hname, ← matches_only hids]
  constructor
  · have hss := selections_only (filterValue_ofInt64 hids i)
    exact ⟨_, hss, (mem_matching_iff hk hss).trans (and_iff_right hj)⟩
  · intro s q hfilters hfirst hq
    rw [← hfilters]
    exact (mem_eligible_first hk hq hfirst).trans (and_iff_right hj)

theorem selected_iff_shows_debate : debate.Keyed ∧
    ∃ x, (debate.read (.level .asStored) (oneRequest 2)).result = .ok [x] ∧ x.Includes x ∧
      ∃ j ∈ debate.justifications.live, j.id = x.id ∧ .mediaExcerptId ∈ FilterName.shown ∧
        (∃ ss, selections (Filters.only .mediaExcerptId (.one (Text.ofInt64 1))) = .ok ss ∧
          j ∈ debate.matching ss) ∧ x.basis.Shows .mediaExcerptId 1 := by
  have hk := wellFormed_debate.keyed
  obtain ⟨x, hx, hxid⟩ : ∃ x,
      (debate.read (.level .asStored) (oneRequest 2)).result = .ok [x] ∧ x.id = 2 :=
    exists_single_of_ids (by decide +kernel)
  obtain ⟨j, hj, hid⟩ : ∃ j ∈ debate.justifications.live, j.id = 2 := by decide
  have hjx : j.id = x.id := by rw [hid, hxid]
  obtain ⟨⟨ss, hss, hiff⟩, -⟩ := selected_iff_shows hk hx (List.mem_singleton.2 rfl) (.self x) hj
    hjx (by decide : .mediaExcerptId ∈ FilterName.shown) 1
  have hmem : j ∈ debate.matching ss := by
    rw [selections_only (filterValue_ofInt64 rfl 1)] at hss
    cases hss
    have hall : ∀ j ∈ debate.justifications.live, j.id = 2 → j ∈ debate.matching
        (FilterName.mediaExcerptId.paths.map fun path => .reaching _ path [.integer 1]) := by
      decide +kernel
    exact hall j hj hid
  exact ⟨hk, x, hx, .self x, j, hj, hjx, by decide, ⟨ss, hss, hmem⟩, hiff.1 hmem⟩

end Rationale
