/-
  Rationale — what an outline has for its basis.

  The basis of an outline is the row that the justification is based on, if
  that is live and can be decoded, with its atoms regrouped from the joined
  rows.  Each part of it is one of the store, and each live part is in it.

  * `compound_of_outline_iff`, `quote_of_outline_iff`, `mixed_of_outline_iff`,
    `excerpt_of_outline_iff`: one for each type of basis;
  * `mem_compoundOf`, `exists_row_of_atom`, `exists_atom_of_paraphrase`: atoms
    and the rows behind them;
  * `proposition_of_paraphrase_iff`, `quote_of_paraphrase_iff`,
    `excerpt_of_paraphrase_iff`: what is known of a paraphrase.
-/
import Rationale.Proofs.Pages
import Rationale.Proofs.Portraits

namespace Rationale

open Query Time

/-! ## The basis of an outline -/

namespace Store

variable {db : Store} {includeUrls : Bool} {j : JustificationRow} {x y : Justification}

theorem basis_of_outline_eq (h : db.outline j = .ok x) :
    ∃ type : BasisType, j.basisType = Coded.text type ∧
      ∃ compound, (db.basisProposition? j).mapM db.compoundOf = .ok compound ∧
      ∃ quote, (db.quoteOf? j).mapM JoinedQuote.decode = .ok quote ∧
      ∃ mixed, (db.basisMixed? j).mapM db.mixedOf = .ok mixed ∧
      x.basis = .resolve {
        propositionCompounds := fun _ => compound
        writQuotes := fun _ => quote
        basisCompounds := fun _ => mixed } type j.basisId := by
  obtain ⟨y, hy, c, hc, w, hw, m, hm, rfl⟩ := outline_eq_ok.1 h
  obtain ⟨htype, hid⟩ := JustificationRow.basis_of_row (JustificationRow.row_of_decode hy)
  exact ⟨y.basis.type, htype.symm, c, hc, w, hw, m, hm, by rw [hid]⟩

theorem some_of_mapM {α β : Type} {f : α → Except Fault β} {o : Option α} {p : Option β} {b : β}
    (h : o.mapM f = .ok p) : p = some b ↔ ∃ a, o = some a ∧ f a = .ok b := by
  rcases option_mapM_eq_ok.1 h with ⟨rfl, rfl⟩ | ⟨a, b', rfl, rfl, hab⟩
  · simp
  · simp [hab]

section

variable (h : db.outline j = .ok x)

include h

/-- The compound that is the basis. -/
theorem compound_of_outline_iff {c : PropositionCompound} :
    x.basis = .propositionCompound (.entity c) ↔
      ∃ r, db.basisProposition? j = some r ∧ db.compoundOf r = .ok c := by
  obtain ⟨type, htype, compound, hc, _, -, _, -, hb⟩ := basis_of_outline_eq h
  rw [hb, ← some_of_mapM hc]
  cases type with
  | propositionCompound => cases compound <;> simp [Basis.resolve, Relation.ofLookup]
  | writQuote | mediaExcerpt | justificationBasisCompound =>
    rw [basisProposition?, Table.typed?_eq_none htype (by decide)] at hc
    cases hc
    simp [Basis.resolve]

theorem quote_of_outline_iff {w : WritQuote} :
    x.basis = .writQuote (.entity w) ↔
      ∃ q, db.quoteOf? j = some q ∧ q.decode = .ok w := by
  obtain ⟨type, htype, _, -, quote, hw, _, -, hb⟩ := basis_of_outline_eq h
  rw [hb, ← some_of_mapM hw]
  cases type with
  | writQuote => cases quote <;> simp [Basis.resolve, Relation.ofLookup]
  | propositionCompound | mediaExcerpt | justificationBasisCompound =>
    rw [quoteOf?, basisQuote?, Table.typed?_eq_none htype (by decide)] at hw
    cases hw
    simp [Basis.resolve]

theorem mixed_of_outline_iff {c : BasisCompound} :
    x.basis = .justificationBasisCompound (.entity c) ↔
      ∃ r, db.basisMixed? j = some r ∧ db.mixedOf r = .ok c := by
  obtain ⟨type, htype, _, -, _, -, mixed, hm, hb⟩ := basis_of_outline_eq h
  rw [hb, ← some_of_mapM hm]
  cases type with
  | justificationBasisCompound => cases mixed <;> simp [Basis.resolve, Relation.ofLookup]
  | propositionCompound | writQuote | mediaExcerpt =>
    rw [basisMixed?, Table.typed?_eq_none htype (by decide)] at hm
    cases hm
    simp [Basis.resolve]

/-- A media excerpt that is the basis is known by its id. -/
theorem excerpt_of_outline_iff {e : Relation MediaExcerpt} :
    x.basis = .mediaExcerpt e ↔ j.BasedOn .mediaExcerpt j.basisId ∧ e = .ref j.basisId := by
  obtain ⟨type, htype, _, -, _, -, _, -, hb⟩ := basis_of_outline_eq h
  rw [hb, JustificationRow.BasedOn, htype]
  cases type <;> simp [Basis.resolve, Relation.ofLookup, Coded.text, eq_comm (a := e)]

end

/-- A quote that was read is one with a live writ. -/
theorem exists_writ_iff (hk : db.Keyed) {o : Option WritQuoteRow} {P : WritQuoteRow → Prop}
    (ho : ∀ q, o = some q ↔ q ∈ db.writQuotes.live ∧ P q)
    (hdecode : ∀ q, o.bind db.joinedQuote? = some q → ∃ w, q.decode = .ok w) {i : Id} :
    (∃ w : WritQuote, (∃ q, o.bind db.joinedQuote? = some q ∧ q.decode = .ok w) ∧ w.writ.id = i) ↔
      ∃ q ∈ db.writQuotes.live, P q ∧ ∃ w ∈ db.writs.live, q.writId = w.id ∧ w.id = i := by
  constructor
  · rintro ⟨w, ⟨j, hj, hjw⟩, rfl⟩
    obtain ⟨q, hq, hqj⟩ := Option.bind_eq_some_iff.1 hj
    obtain ⟨r, hr, rfl⟩ := Option.map_eq_some_iff.1 hqj
    obtain ⟨_, -, rfl⟩ := JoinedQuote.decode_eq_ok.1 hjw
    obtain ⟨hr, hid⟩ := hk.writs.row?_eq_some.1 hr
    obtain ⟨hq, hP⟩ := (ho q).1 hq
    exact ⟨q, hq, hP, r, hr, hid.symm, hid⟩
  · rintro ⟨q, hq, hP, r, hr, hid, rfl⟩
    have hj : o.bind db.joinedQuote? = some ⟨q, r.title⟩ := by
      rw [(ho q).2 ⟨hq, hP⟩, Option.bind_some, joinedQuote?,
        hk.writs.row?_eq_some.2 ⟨hr, hid.symm⟩]
      rfl
    obtain ⟨w, hw⟩ := hdecode _ hj
    refine ⟨w, ⟨_, hj, hw⟩, ?_⟩
    obtain ⟨_, -, rfl⟩ := JoinedQuote.decode_eq_ok.1 hw
    exact hid

/-- The quote that is the basis is shown with its writ if both are live. -/
theorem writ_of_outline_iff (hk : db.Keyed) (h : db.outline j = .ok x) {i : Id} :
    (∃ w, x.basis = .writQuote (.entity w) ∧ w.writ.id = i) ↔
      ∃ q ∈ db.writQuotes.live, j.BasedOn .writQuote q.id ∧
        ∃ w ∈ db.writs.live, q.writId = w.id ∧ w.id = i := by
  simp only [quote_of_outline_iff h]
  refine exists_writ_iff hk (fun q => ?_) (outlined_iff.2 ⟨x, h⟩).quote
  rw [basisQuote?, hk.writQuotes.typed?_eq_some]
  exact and_congr_right fun _ => and_congr_right fun _ => eq_comm

/-! ## Atoms -/

theorem id_of_compoundOf {r : CompoundRow} {c : PropositionCompound} (h : db.compoundOf r = .ok c) :
    c.id = r.id := by
  obtain ⟨_, -, h⟩ := bind_eq_ok.1 h
  obtain ⟨_, -, h⟩ := bind_eq_ok.1 h
  cases h
  rfl

/-- The propositions of a compound. -/
theorem mem_compoundOf {r : CompoundRow} {c : PropositionCompound} (hc : db.compoundOf r = .ok c)
    {i : Id} : (∃ a ∈ c.atoms, a.proposition.id = i) ↔
      ∃ a ∈ db.compoundAtoms, a.compoundId = r.id ∧
        ∃ p, db.propositions.row? a.propositionId = some p ∧ p.id = i := by
  obtain ⟨atoms, hatoms, hc⟩ := bind_eq_ok.1 hc
  obtain ⟨_, -, hc⟩ := bind_eq_ok.1 hc
  cases hc
  simp only [List.mem_mergeSort]
  constructor
  · rintro ⟨b, hb, rfl⟩
    obtain ⟨⟨position, p⟩, hp, hpb⟩ := exists_of_mem_mapM hatoms hb
    obtain ⟨x, hx, rfl⟩ := map_eq_ok.1 hpb
    obtain ⟨a, ha, hap⟩ := List.mem_filterMap.1 hp
    obtain ⟨ha, hac⟩ := List.mem_filter.1 ha
    obtain ⟨p', hp', heq⟩ := Option.map_eq_some_iff.1 hap
    cases heq
    exact ⟨a, ha, of_decide_eq_true hac, p, hp', (PropositionRow.id_of_decode hx).symm⟩
  · rintro ⟨a, ha, hac, p, hp, rfl⟩
    have hmem : (a.orderPosition, p) ∈ db.compoundPropositions r :=
      List.mem_filterMap.2 ⟨a, List.mem_filter.2 ⟨ha, decide_eq_true hac⟩, by rw [hp]; rfl⟩
    obtain ⟨b, hb, hpb⟩ := exists_mem_of_mapM hatoms hmem
    obtain ⟨x, hx, rfl⟩ := map_eq_ok.1 hpb
    exact ⟨_, hb, PropositionRow.id_of_decode hx⟩

/-- The atoms of a mixed compound come from rows, the first of each entity. -/
theorem mem_mixedOf {r : CompoundRow} {c : BasisCompound} (hc : db.mixedOf r = .ok c)
    {b : BasisAtom} : b ∈ c.atoms ↔ ∃ a ∈ db.distinctAtoms r, db.atomOf a = .ok (some b) := by
  obtain ⟨os, hos, hc⟩ := bind_eq_ok.1 hc
  obtain ⟨_, -, hc⟩ := bind_eq_ok.1 hc
  cases hc
  rw [List.mem_mergeSort, List.reduceOption_mem_iff]
  constructor
  · exact exists_of_mem_mapM hos
  · rintro ⟨a, ha, hab⟩
    obtain ⟨o, ho, hao⟩ := exists_mem_of_mapM hos ha
    rw [hab] at hao
    cases hao
    exact ho

/-- There is an atom of the entity if and only if there is a first one. -/
theorem hasAtom_iff_distinct (hk : db.Keyed) {type : AtomType} {i : Id} :
    db.HasAtom j type i ↔ ∃ r, db.basisMixed? j = some r ∧
      ∃ a ∈ db.distinctAtoms r, a.entityType = Coded.text type ∧ a.entityId = i := by
  rw [hasAtom_iff hk]
  refine exists_congr fun r => and_congr_right fun _ => ?_
  constructor
  · rintro ⟨a, ha, htype, hid⟩
    obtain ⟨b, hb, hkey⟩ := Gather.exists_mem_firsts (fun a => (a.entityType, a.entityId)) ha
    obtain ⟨htype', hid'⟩ := Prod.mk.inj hkey
    exact ⟨b, hb, htype'.trans htype, hid'.trans hid⟩
  · rintro ⟨a, ha, h⟩
    exact ⟨a, Gather.mem_of_mem_firsts ha, h⟩

theorem atomOf_of_proposition (hk : db.Keyed) {a : BasisAtomRow} {r : PropositionRow}
    (hr : db.atomProposition? a = some r) :
    db.atomOf a =
      (fun p => some ⟨a.id, .proposition (.entity p), a.orderPosition⟩) <$> r.decode := by
  obtain ⟨-, htype, -⟩ := hk.propositions.typed?_eq_some.1 hr
  rw [atomOf, htype, Coded.decode_text, ok_bind]
  show (db.atomProposition? a).mapM _ = _
  rw [hr, Option.mapM_some]
  cases r.decode <;> rfl

theorem atomOf_of_paraphrase (hk : db.Keyed) {a : BasisAtomRow} {r : ParaphraseRow}
    (hr : db.atomParaphrase? a = some r) :
    db.atomOf a = (fun s => some ⟨a.id, .sourceExcerptParaphrase (.entity s), a.orderPosition⟩) <$>
      (db.joinedParaphrase r).decode := by
  obtain ⟨-, htype, -⟩ := hk.paraphrases.typed?_eq_some.1 hr
  rw [atomOf, htype, Coded.decode_text, ok_bind]
  show ((db.atomParaphrase? a).map db.joinedParaphrase).mapM _ = _
  rw [hr, Option.map_some, Option.mapM_some]
  cases (db.joinedParaphrase r).decode <;> rfl

/-- An atom is a live proposition or a live paraphrase. -/
theorem link_of_atomOf {a : BasisAtomRow} {b : BasisAtom} (h : db.atomOf a = .ok (some b)) :
    (∃ r, db.atomProposition? a = some r) ∨ ∃ r, db.atomParaphrase? a = some r := by
  obtain ⟨type, -, h⟩ := bind_eq_ok.1 h
  cases type with
  | proposition =>
    obtain ⟨r, hr, -⟩ := (some_of_mapM h).1 rfl
    exact .inl ⟨r, hr⟩
  | sourceExcerptParaphrase =>
    obtain ⟨_, hjoined, -⟩ := (some_of_mapM h).1 rfl
    obtain ⟨r, hr, -⟩ := Option.map_eq_some_iff.1 hjoined
    exact .inr ⟨r, hr⟩

/-! ## The atoms of an outline -/

section

variable (hk : db.Keyed) (h : db.outline j = .ok x)

include hk h

/-- What the atoms of an outline are. -/
theorem exists_row_of_atom {c : BasisCompound}
    (hc : x.basis = .justificationBasisCompound (.entity c)) {b : BasisAtom} (hb : b ∈ c.atoms) :
    (∃ r p, r ∈ db.propositions.live ∧ db.HasAtom j .proposition r.id ∧ r.decode = .ok p ∧
        b.entity = .proposition (.entity p)) ∨
      ∃ r s, db.HasParaphrase j r ∧ (db.joinedParaphrase r).decode = .ok s ∧
        b.entity = .sourceExcerptParaphrase (.entity s) := by
  obtain ⟨m, hm, hmc⟩ := (mixed_of_outline_iff h).1 hc
  obtain ⟨a, ha, hab⟩ := (mem_mixedOf hmc).1 hb
  rcases link_of_atomOf hab with ⟨r, hr⟩ | ⟨r, hr⟩
  · rw [atomOf_of_proposition hk hr] at hab
    obtain ⟨p, hp, hpb⟩ := map_eq_ok.1 hab
    obtain ⟨hlive, htype, hid⟩ := hk.propositions.typed?_eq_some.1 hr
    cases hpb
    exact .inl ⟨r, p, hlive, (hasAtom_iff_distinct hk).2 ⟨m, hm, a, ha, htype, hid.symm⟩, hp, rfl⟩
  · rw [atomOf_of_paraphrase hk hr] at hab
    obtain ⟨s, hs, hsb⟩ := map_eq_ok.1 hab
    obtain ⟨hlive, htype, hid⟩ := hk.paraphrases.typed?_eq_some.1 hr
    cases hsb
    exact .inr ⟨r, s, ⟨hlive, (hasAtom_iff_distinct hk).2 ⟨m, hm, a, ha, htype, hid.symm⟩⟩, hs, rfl⟩

/-- There is a place in an outline for each atom. -/
theorem exists_place_of_hasAtom {type : AtomType} {i : Id} (hatom : db.HasAtom j type i) :
    ∃ c, x.basis = .justificationBasisCompound (.entity c) ∧ ∃ a : BasisAtomRow,
      a.entityType = Coded.text type ∧ a.entityId = i ∧
        ∃ o, db.atomOf a = .ok o ∧ ∀ b ∈ o, b ∈ c.atoms := by
  obtain ⟨m, hm, a, ha, htype, hid⟩ := (hasAtom_iff_distinct hk).1 hatom
  obtain ⟨c, hmc⟩ := (outlined_iff.2 ⟨x, h⟩).mixed m hm
  obtain ⟨os, hos, -⟩ := bind_eq_ok.1 hmc
  obtain ⟨o, -, ho⟩ := exists_mem_of_mapM hos ha
  refine ⟨c, (mixed_of_outline_iff h).2 ⟨m, hm, hmc⟩, a, htype, hid, o, ho, ?_⟩
  rintro b rfl
  exact (mem_mixedOf hmc).2 ⟨a, ha, ho⟩

theorem exists_atom_of_proposition {r : PropositionRow} (hr : r ∈ db.propositions.live)
    (hatom : db.HasAtom j .proposition r.id) :
    ∃ c, x.basis = .justificationBasisCompound (.entity c) ∧ ∃ b ∈ c.atoms, ∃ p,
      r.decode = .ok p ∧ b.entity = .proposition (.entity p) := by
  obtain ⟨c, hc, a, htype, hid, o, ho, hmem⟩ := exists_place_of_hasAtom hk h hatom
  have hrow : db.atomProposition? a = some r :=
    hk.propositions.typed?_eq_some.2 ⟨hr, htype, hid.symm⟩
  rw [atomOf_of_proposition hk hrow] at ho
  obtain ⟨p, hp, rfl⟩ := map_eq_ok.1 ho
  exact ⟨c, hc, _, hmem _ rfl, p, hp, rfl⟩

theorem exists_atom_of_paraphrase {r : ParaphraseRow} (hr : db.HasParaphrase j r) :
    ∃ s, (db.joinedParaphrase r).decode = .ok s ∧ x.basis.HasParaphrase s := by
  obtain ⟨c, hc, a, htype, hid, o, ho, hmem⟩ := exists_place_of_hasAtom hk h hr.2
  have hrow : db.atomParaphrase? a = some r :=
    hk.paraphrases.typed?_eq_some.2 ⟨hr.1, htype, hid.symm⟩
  rw [atomOf_of_paraphrase hk hrow] at ho
  obtain ⟨s, hs, rfl⟩ := map_eq_ok.1 ho
  exact ⟨s, hs, c, hc, _, hmem _ rfl, rfl⟩

end

/-! ## Paraphrases -/

section

variable {r : ParaphraseRow} {s : SourceExcerptParaphrase}
  (h : (db.joinedParaphrase r).decode = .ok s)

include h

theorem decode_joinedParaphrase_eq :
    ∃ type : SourceExcerptType, r.excerptType = Coded.text type ∧
      ∃ proposition, (db.propositions.row? r.propositionId).mapM PropositionRow.decode =
          .ok proposition ∧
      ∃ quote, ((db.paraphrasedQuote? r).bind db.joinedQuote?).mapM JoinedQuote.decode = .ok quote ∧
      s = ⟨r.id, .ofLookup r.propositionId proposition,
        .resolve type r.excerptId quote fun _ => none⟩ := by
  obtain ⟨proposition, hproposition, h⟩ := bind_eq_ok.1 h
  obtain ⟨type, htype, h⟩ := bind_eq_ok.1 h
  obtain ⟨quote, hquote, h⟩ := bind_eq_ok.1 h
  cases h
  exact ⟨type, exact_sourceExcerptType.decode_eq_ok.1 htype, proposition, hproposition, quote,
    hquote, rfl⟩

theorem id_of_paraphrase : s.id = r.id := by
  obtain ⟨_, -, _, -, _, -, rfl⟩ := decode_joinedParaphrase_eq h
  rfl

/-- The proposition of a paraphrase is shown if it is live. -/
theorem proposition_of_paraphrase_iff (hk : db.Keyed) {i : Id} :
    (∃ p, s.proposition = .entity p ∧ p.id = i) ↔
      ∃ p ∈ db.propositions.live, r.propositionId = p.id ∧ p.id = i := by
  obtain ⟨_, -, proposition, hproposition, _, -, rfl⟩ := decode_joinedParaphrase_eq h
  have hof (p : Proposition) :
      Relation.ofLookup r.propositionId proposition = .entity p ↔ proposition = some p := by
    cases proposition <;> simp [Relation.ofLookup]
  simp only [hof, some_of_mapM hproposition]
  constructor
  · rintro ⟨p, ⟨a, ha, hap⟩, rfl⟩
    obtain ⟨ha, hid⟩ := hk.propositions.row?_eq_some.1 ha
    exact ⟨a, ha, hid.symm, (PropositionRow.id_of_decode hap).symm⟩
  · rintro ⟨a, ha, hid, rfl⟩
    have ha := hk.propositions.row?_eq_some.2 ⟨ha, hid.symm⟩
    obtain ⟨p, hp⟩ := exists_of_option_mapM ⟨_, hproposition⟩ ha
    exact ⟨p, ⟨a, ha, hp⟩, PropositionRow.id_of_decode hp⟩

/-- The quote of a paraphrase is shown with its writ if both are live. -/
theorem quote_of_paraphrase_iff (hk : db.Keyed) {i : Id} :
    (∃ w, s.excerpt = .writQuote (.entity w) ∧ w.writ.id = i) ↔
      ∃ q ∈ db.writQuotes.live, r.Restates .writQuote q.id ∧
        ∃ w ∈ db.writs.live, q.writId = w.id ∧ w.id = i := by
  obtain ⟨type, htype, _, -, quote, hquote, rfl⟩ := decode_joinedParaphrase_eq h
  have hresolve (w : WritQuote) :
      SourceExcerpt.resolve type r.excerptId quote (fun _ => none) = .writQuote (.entity w) ↔
        quote = some w := by
    cases type with
    | writQuote => cases quote <;> simp [SourceExcerpt.resolve, Relation.ofLookup]
    | mediaExcerpt =>
      rw [paraphrasedQuote?, Table.typed?_eq_none htype (by decide)] at hquote
      cases hquote
      simp [SourceExcerpt.resolve]
  simp only [hresolve, some_of_mapM hquote]
  rw [exists_writ_iff hk (fun q => ?_) fun q => exists_of_option_mapM ⟨_, hquote⟩]
  rw [paraphrasedQuote?, hk.writQuotes.typed?_eq_some]
  exact and_congr_right fun _ => and_congr_right fun _ => eq_comm

/-- The media excerpt of a paraphrase is known by its id. -/
theorem excerpt_of_paraphrase_iff {e : Relation MediaExcerpt} :
    s.excerpt = .mediaExcerpt e ↔ r.Restates .mediaExcerpt r.excerptId ∧ e = .ref r.excerptId := by
  obtain ⟨type, htype, _, -, _, -, rfl⟩ := decode_joinedParaphrase_eq h
  rw [ParaphraseRow.Restates, htype]
  cases type <;>
    simp [SourceExcerpt.resolve, Relation.ofLookup, Coded.text, eq_comm (a := e)]

end

end Store

end Rationale
