/-
  Rationale — the rows of many justifications, reconstructed.

  What the rows of many justifications tell of one of them is what its own rows
  tell: the decoded rows are there in their order, and looking up a basis finds
  the compound or the quote that is linked, made of its own atoms alone.

  * `compound_eq`, `mixedCompound_eq`: the compounds that are gathered;
  * `reconstruct_joined`: justifications are reconstructed if and only if each
    has an outline, and then to these outlines.
-/
import Rationale.Proofs.Decoding
import Rationale.Proofs.Outlines

namespace Rationale.Store

open Gather Gathered Time

variable {db : Store} {js : List JustificationRow} {j : JustificationRow} {c : CompoundRow}
  {g : Gathered}

/-! ## What is gathered -/

theorem mapM_justifications (hids : (js.map (·.id)).Nodup) (hg : ToldBy (db.allJoined js) {} g) :
    js.mapM JustificationRow.decode = .ok g.justifications := by
  have h := hg.justifications
  rwa [foldlM_keepJustification, firsts_justification hids] at h

theorem find?_compounds (hk : db.Keyed) (hg : ToldBy (db.allJoined js) {} g) (hj : j ∈ js)
    (htype : j.basisType = Coded.text BasisType.propositionCompound) :
    g.compounds.find? (·.id = j.basisId) = db.basisProposition? j := by
  have hrow : db.basisProposition? j = db.propositionCompounds.row? j.basisId := if_pos htype
  rw [keepCompound_eq_ok.1 hg.compounds, find?_firsts, hrow]
  refine find?_told db.basisProposition? (fun _ _ => compound_of_mem_joined) ?_ ?_
  · intro i c hc
    exact hk.propositionCompounds.row?_id (hk.propositionCompounds.typed?_eq_some.1 hc).1
  · intro c hc
    exact ⟨j, hj, hrow ▸ hc, Table.id_of_row? hc⟩

theorem find?_mixed (hk : db.Keyed) (hg : ToldBy (db.allJoined js) {} g) (hj : j ∈ js)
    (htype : j.basisType = Coded.text BasisType.justificationBasisCompound) :
    g.mixed.find? (·.id = j.basisId) = db.basisMixed? j := by
  have hrow : db.basisMixed? j = db.basisCompounds.row? j.basisId := if_pos htype
  rw [keepCompound_eq_ok.1 hg.mixed, find?_firsts, hrow]
  refine find?_told db.basisMixed? (fun _ _ => mixed_of_mem_joined) ?_ ?_
  · intro i c hc
    exact hk.basisCompounds.row?_id (hk.basisCompounds.typed?_eq_some.1 hc).1
  · intro c hc
    exact ⟨j, hj, hrow ▸ hc, Table.id_of_row? hc⟩

theorem quote_of_quoteOf? {q : JoinedQuote} (h : db.quoteOf? j = some q) :
    db.basisQuote? j = some q.quote ∧ db.joinedQuote? q.quote = some q := by
  obtain ⟨w, hw, hq⟩ := Option.bind_eq_some_iff.1 h
  obtain ⟨v, -, rfl⟩ := Option.map_eq_some_iff.1 hq
  exact ⟨hw, hq⟩

/-- The quote that is the basis, decoded, is found among all quotes. -/
theorem mapM_quoteOf? (hk : db.Keyed) (hg : ToldBy (db.allJoined js) {} g) (hj : j ∈ js)
    (htype : j.basisType = Coded.text BasisType.writQuote) :
    (db.quoteOf? j).mapM JoinedQuote.decode = .ok (g.quotes.find? (·.id = j.basisId)) := by
  have hrow : db.quoteOf? j = (db.writQuotes.row? j.basisId).bind db.joinedQuote? := by
    rw [quoteOf?, basisQuote?, Table.typed?, if_pos htype]
  have h := hg.quotes
  rw [foldlM_keepQuote] at h
  have hfind := mapM_find?_eq_ok (p := (·.quote.id = j.basisId)) (q := (·.id = j.basisId))
    (fun q w hw => by rw [JoinedQuote.id_of_decode hw]) h
  rw [find?_firsts, find?_told db.quoteOf? (fun _ _ => quote_of_mem_joined)
    (f := fun i => (db.writQuotes.row? i).bind db.joinedQuote?)] at hfind
  · rwa [hrow]
  · intro i q hq
    obtain ⟨hw, hjoin⟩ := quote_of_quoteOf? hq
    show (db.writQuotes.row? (HasId.id q.quote)).bind db.joinedQuote? = some q
    rw [hk.writQuotes.row?_id (hk.writQuotes.typed?_eq_some.1 hw).1, Option.bind_some, hjoin]
  · intro q hq
    refine ⟨j, hj, hrow ▸ hq, ?_⟩
    exact (hk.writQuotes.typed?_eq_some.1 (quote_of_quoteOf? (hrow ▸ hq)).1).2.2

/-! ## Compounds -/

theorem compound_eq (hk : db.Keyed) (hg : ToldBy (db.allJoined js) {} g) (hj : j ∈ js)
    (hc : db.basisProposition? j = some c) : g.compound c = db.compoundOf c := by
  have h := mapM_filter_eq_ok (p := fun a => a.1 = c.id) (q := fun a => a.1 = c.id)
    (fun a _ b hb => by obtain ⟨p, -, rfl⟩ := map_eq_ok.1 hb; rfl)
    (foldlM_keepCompoundAtom _ ▸ hg.compoundAtoms)
  rw [filter_compoundAtoms hk hj hc, List.mapM_map] at h
  have hatoms := mapM_map_eq_ok (g := fun a => (fun p => (⟨p, a.1⟩ : CompoundAtom)) <$>
    PropositionRow.decode a.2) (h := Prod.snd) (fun a _ b hb => ?_) h
  · rw [compoundOf, hatoms]
    rfl
  · obtain ⟨p, hp, rfl⟩ := map_eq_ok.1 hb
    rw [hp]
    rfl

/-! ## Mixed compounds -/

/-- An atom is nothing if and only if its entity is missing. -/
theorem decode_eq_none_iff {a : JoinedAtom} {type : AtomType} :
    a.decode type = .ok none ↔
      match type with
      | .proposition => a.proposition = none
      | .sourceExcerptParaphrase => a.paraphrase = none := by
  cases type with
  | proposition =>
    simp only [JoinedAtom.decode, option_mapM_eq_ok, reduceCtorEq, false_and, and_false,
      exists_false, or_false, and_true]
  | sourceExcerptParaphrase =>
    simp only [JoinedAtom.decode, option_mapM_eq_ok, reduceCtorEq, false_and, and_false,
      exists_false, or_false, and_true]

theorem decodeMixedAtom_eq_none {a : Id × JoinedAtom} :
    decodeMixedAtom a = .ok none ↔
      ∃ type : AtomType, a.2.entityType = Coded.text type ∧ a.2.decode type = .ok none := by
  rw [decodeMixedAtom_eq_ok]
  constructor
  · rintro ⟨type, htype, b, hb, hnone⟩
    obtain rfl := Option.map_eq_none_iff.1 hnone.symm
    exact ⟨type, htype, hb⟩
  · rintro ⟨type, htype, hb⟩
    exact ⟨type, htype, none, hb, rfl⟩

/-- Atoms of one entity are missing it alike. -/
theorem decode_joinedAtom_eq_none {a b : BasisAtomRow} (htype : a.entityType = b.entityType)
    (hid : a.entityId = b.entityId) {type : AtomType} :
    (db.joinedAtom a).decode type = .ok none ↔ (db.joinedAtom b).decode type = .ok none := by
  rw [decode_eq_none_iff, decode_eq_none_iff]
  cases type with
  | proposition => simp only [joinedAtom, atomProposition?, htype, hid]
  | sourceExcerptParaphrase => simp only [joinedAtom, atomParaphrase?, htype, hid]

theorem exists_joinedAtom {a : Id × JoinedAtom}
    (ha : a ∈ (db.allJoined js).flatMap (·.mixedAtom?.toList)) :
    ∃ j ∈ js, ∃ c, db.basisMixed? j = some c ∧
      ∃ b ∈ db.mixedAtoms c, a = (c.id, db.joinedAtom b) := by
  rw [allJoined, List.flatMap_assoc, funext flatMap_mixedAtom?, List.mem_flatMap] at ha
  obtain ⟨j, hj, ha⟩ := ha
  cases hc : db.basisMixed? j with
  | none => simp [hc] at ha
  | some c =>
    rw [hc] at ha
    obtain ⟨b, hb, rfl⟩ := List.mem_map.1 ha
    exact ⟨j, hj, c, hc, b, hb, rfl⟩

theorem foldlM_mixedAtoms :
    ((db.allJoined js).flatMap (·.mixedAtom?.toList)).foldlM keepMixedAtom [] =
      List.reduceOption <$> (firsts atomKey
        ((db.allJoined js).flatMap (·.mixedAtom?.toList))).mapM decodeMixedAtom := by
  refine foldlM_keepMixedAtom fun a ha b hb hab hnone => ?_
  obtain ⟨_, _, _, _, a, _, rfl⟩ := exists_joinedAtom ha
  obtain ⟨_, _, _, _, b, _, rfl⟩ := exists_joinedAtom hb
  obtain ⟨htype, hid⟩ := Prod.mk.inj (Prod.mk.inj hab).2
  obtain ⟨type, ht, hnone⟩ := decodeMixedAtom_eq_none.1 hnone
  refine decodeMixedAtom_eq_none.2 ⟨type, ?_, (decode_joinedAtom_eq_none htype hid).1 hnone⟩
  rw [← ht]
  exact htype.symm

theorem mixedCompound_eq (hk : db.Keyed) (hg : ToldBy (db.allJoined js) {} g) (hj : j ∈ js)
    (hc : db.basisMixed? j = some c) : g.mixedCompound c = db.mixedOf c := by
  have hkey : ∀ a m, decodeMixedAtom a = .ok (some m) →
      decide (m.compoundId = c.id) = decide (a.1 = c.id) := by
    intro a m hm
    obtain ⟨type, -, b, -, hb⟩ := decodeMixedAtom_eq_ok.1 hm
    obtain ⟨b, rfl, rfl⟩ := Option.map_eq_some_iff.1 hb.symm
    rfl
  obtain ⟨os, hos, hred⟩ := map_eq_ok.1 (foldlM_mixedAtoms ▸ hg.mixedAtoms)
  obtain ⟨os', hos', hred'⟩ := exists_mapM_filter hkey hos
  rw [filter_mixedAtoms hk hj hc, List.mapM_map] at hos'
  have hatoms := mapM_map_eq_ok (g := db.atomOf) (h := Option.map (·.atom))
    (fun a _ o ho => ?_) hos'
  · rw [mixedOf, hatoms, mixedCompound, ok_bind, List.reduceOption_map, hred', hred]
  · obtain ⟨type, htype, b, hb, rfl⟩ := decodeMixedAtom_eq_ok.1 ho
    have htype : a.entityType = Coded.text type := htype
    have hb : (db.joinedAtom a).decode type = .ok b := hb
    rw [atomOf, htype, Coded.decode_text, ok_bind, hb]
    cases b <;> rfl

/-! ## Finishing -/

/-- The compound that is the basis, filled in, is found among all compounds. -/
theorem mapM_basisProposition? (hk : db.Keyed) (hg : ToldBy (db.allJoined js) {} g) (hj : j ∈ js)
    (htype : j.basisType = Coded.text BasisType.propositionCompound)
    {compounds : List PropositionCompound} (h : g.compounds.mapM g.compound = .ok compounds) :
    (db.basisProposition? j).mapM db.compoundOf = .ok (compounds.find? (·.id = j.basisId)) := by
  have hfind := mapM_find?_eq_ok (p := (·.id = j.basisId)) (q := (·.id = j.basisId))
    (fun c x hx => ?_) h
  · rw [find?_compounds hk hg hj htype] at hfind
    cases hc : db.basisProposition? j with
    | none => rwa [hc] at hfind
    | some c =>
      rw [hc] at hfind
      rwa [Option.mapM_some, ← compound_eq hk hg hj hc]
  · rw [id_of_compound hx]

theorem mapM_basisMixed? (hk : db.Keyed) (hg : ToldBy (db.allJoined js) {} g) (hj : j ∈ js)
    (htype : j.basisType = Coded.text BasisType.justificationBasisCompound)
    {mixed : List BasisCompound} (h : g.mixed.mapM g.mixedCompound = .ok mixed) :
    (db.basisMixed? j).mapM db.mixedOf = .ok (mixed.find? (·.id = j.basisId)) := by
  have hfind := mapM_find?_eq_ok (p := (·.id = j.basisId)) (q := (·.id = j.basisId))
    (fun c x hx => ?_) h
  · rw [find?_mixed hk hg hj htype] at hfind
    cases hc : db.basisMixed? j with
    | none => rwa [hc] at hfind
    | some c =>
      rw [hc] at hfind
      rwa [Option.mapM_some, ← mixedCompound_eq hk hg hj hc]
  · rw [id_of_mixedCompound hx]

/-- What is gathered is finished as outlines. -/
theorem mapM_outline_of_finish {η : Hashing} (hk : db.Keyed) (hids : (js.map (·.id)).Nodup)
    (hg : ToldBy (db.allJoined js) {} g) {out : List Justification} (h : g.finish η = .ok out) :
    js.mapM db.outline = .ok out := by
  obtain ⟨compounds, hcompounds, mixed, hmixed, rfl⟩ := (finish_eq_ok (once_of_toldBy hg)).1 h
  refine mapM_map_eq_ok ?_ (mapM_justifications hids hg)
  intro j hj x hx
  rw [outline, hx, ok_bind]
  obtain ⟨_, _, _, bt, _, _, _, _, _, hbt, _, _, rfl⟩ := JustificationRow.decode_eq_ok.1 hx
  cases bt with
  | propositionCompound =>
    have hq : db.quoteOf? j = none := by
      rw [quoteOf?, basisQuote?, Table.typed?_eq_none hbt (by decide), Option.bind_none]
    have hm : db.basisMixed? j = none := Table.typed?_eq_none hbt (by decide)
    rw [mapM_basisProposition? hk hg hj hbt hcompounds, hq, hm]
    rfl
  | writQuote =>
    have hc : db.basisProposition? j = none := Table.typed?_eq_none hbt (by decide)
    have hm : db.basisMixed? j = none := Table.typed?_eq_none hbt (by decide)
    rw [mapM_quoteOf? hk hg hj hbt, hc, hm]
    rfl
  | mediaExcerpt =>
    have hc : db.basisProposition? j = none := Table.typed?_eq_none hbt (by decide)
    have hq : db.quoteOf? j = none := by
      rw [quoteOf?, basisQuote?, Table.typed?_eq_none hbt (by decide), Option.bind_none]
    have hm : db.basisMixed? j = none := Table.typed?_eq_none hbt (by decide)
    rw [hc, hq, hm]
    rfl
  | justificationBasisCompound =>
    have hc : db.basisProposition? j = none := Table.typed?_eq_none hbt (by decide)
    have hq : db.quoteOf? j = none := by
      rw [quoteOf?, basisQuote?, Table.typed?_eq_none hbt (by decide), Option.bind_none]
    rw [mapM_basisMixed? hk hg hj hbt hmixed, hc, hq]
    rfl

/-! ## Rows of justifications that have outlines -/

theorem outline_eq_ok {x : Justification} :
    db.outline j = .ok x ↔ ∃ y, j.decode = .ok y ∧
      ∃ compound, (db.basisProposition? j).mapM db.compoundOf = .ok compound ∧
      ∃ quote, (db.quoteOf? j).mapM JoinedQuote.decode = .ok quote ∧
      ∃ mixed, (db.basisMixed? j).mapM db.mixedOf = .ok mixed ∧
      x = { y with basis := .resolve {
        propositionCompounds := fun _ => compound
        writQuotes := fun _ => quote
        basisCompounds := fun _ => mixed } y.basis.type y.basis.id } := by
  simp only [outline, bind_eq_ok, pure_eq_ok, eq_comm (a := x)]

theorem exists_of_option_mapM {α β : Type} {f : α → Except Fault β} {o : Option α}
    (h : ∃ p, o.mapM f = .ok p) {a : α} (ha : o = some a) : ∃ b, f a = .ok b := by
  obtain ⟨p, hp⟩ := h
  rw [ha, Option.mapM_some] at hp
  obtain ⟨b, hb, -⟩ := map_eq_ok.1 hp
  exact ⟨b, hb⟩

/-- What an outline is made of. -/
structure Outlined (db : Store) (j : JustificationRow) : Prop where
  row : ∃ y, j.decode = .ok y
  compound : ∀ c, db.basisProposition? j = some c → ∃ x, db.compoundOf c = .ok x
  quote : ∀ q, db.quoteOf? j = some q → ∃ x, JoinedQuote.decode q = .ok x
  mixed : ∀ c, db.basisMixed? j = some c → ∃ x, db.mixedOf c = .ok x

theorem outlined_iff : db.Outlined j ↔ ∃ x, db.outline j = .ok x := by
  constructor
  · rintro ⟨⟨y, hy⟩, hc, hq, hm⟩
    obtain ⟨c, hc⟩ := exists_option_mapM_eq_ok hc
    obtain ⟨q, hq⟩ := exists_option_mapM_eq_ok hq
    obtain ⟨m, hm⟩ := exists_option_mapM_eq_ok hm
    exact ⟨_, outline_eq_ok.2 ⟨y, hy, c, hc, q, hq, m, hm, rfl⟩⟩
  · rintro ⟨x, hx⟩
    obtain ⟨y, hy, c, hc, q, hq, m, hm, -⟩ := outline_eq_ok.1 hx
    exact ⟨⟨y, hy⟩, fun _ => exists_of_option_mapM ⟨c, hc⟩, fun _ => exists_of_option_mapM ⟨q, hq⟩,
      fun _ => exists_of_option_mapM ⟨m, hm⟩⟩

theorem exists_decodeCompoundAtom {x : PropositionCompound} (hx : db.compoundOf c = .ok x)
    {a : Int64 × PropositionRow} (ha : a ∈ db.compoundPropositions c) :
    ∃ b, decodeCompoundAtom (c.id, a) = .ok b := by
  obtain ⟨atoms, hatoms, -⟩ := bind_eq_ok.1 hx
  obtain ⟨b, -, hb⟩ := exists_mem_of_mapM hatoms ha
  obtain ⟨p, hp, -⟩ := map_eq_ok.1 hb
  exact ⟨_, map_eq_ok.2 ⟨p, hp, rfl⟩⟩

theorem exists_decodeMixedAtom {x : BasisCompound} (hx : db.mixedOf c = .ok x)
    {a : BasisAtomRow} (ha : a ∈ db.distinctAtoms c) :
    ∃ o, decodeMixedAtom (c.id, db.joinedAtom a) = .ok o := by
  obtain ⟨atoms, hatoms, -⟩ := bind_eq_ok.1 hx
  obtain ⟨o, -, ho⟩ := exists_mem_of_mapM hatoms ha
  obtain ⟨type, htype, ho⟩ := bind_eq_ok.1 ho
  exact ⟨_, decodeMixedAtom_eq_ok.2 ⟨type, exact_atomType.decode_eq_ok.1 htype, o, ho, rfl⟩⟩

theorem exists_compoundAtom {a : Id × Int64 × PropositionRow}
    (ha : a ∈ (db.allJoined js).flatMap (·.compoundAtom?.toList)) :
    ∃ j ∈ js, ∃ c, db.basisProposition? j = some c ∧
      ∃ b ∈ db.compoundPropositions c, a = (c.id, b) := by
  rw [allJoined, List.flatMap_assoc, funext flatMap_compoundAtom?, List.mem_flatMap] at ha
  obtain ⟨j, hj, ha⟩ := ha
  cases hc : db.basisProposition? j with
  | none => simp [hc] at ha
  | some c =>
    rw [hc] at ha
    obtain ⟨b, hb, rfl⟩ := List.mem_map.1 ha
    exact ⟨j, hj, c, hc, b, hb, rfl⟩

/-- Justifications that have outlines can be gathered. -/
theorem exists_toldBy (hk : db.Keyed) (h : ∀ j ∈ js, db.Outlined j) :
    ∃ g, ToldBy (db.allJoined js) {} g := by
  have hmem : ∀ r ∈ db.allJoined js, ∃ j ∈ js, r ∈ db.joined j := fun r hr => List.mem_flatMap.1 hr
  obtain ⟨xs, hxs⟩ : ∃ xs, ((db.allJoined js).map (·.justification)).foldlM keepJustification [] =
      .ok xs := by
    rw [foldlM_keepJustification]
    apply exists_mapM_eq_ok
    intro a ha
    obtain ⟨r, hr, rfl⟩ := List.mem_map.1 (mem_of_mem_firsts ha)
    obtain ⟨j, hj, hr⟩ := hmem r hr
    rw [justification_of_mem_joined hr]
    exact (h j hj).row
  obtain ⟨as, has⟩ : ∃ as, ((db.allJoined js).flatMap (·.compoundAtom?.toList)).foldlM
      keepCompoundAtom [] = .ok as := by
    rw [foldlM_keepCompoundAtom]
    apply exists_mapM_eq_ok
    intro a ha
    obtain ⟨j, hj, c, hc, b, hb, rfl⟩ := exists_compoundAtom (mem_of_mem_firsts ha)
    obtain ⟨x, hx⟩ := (h j hj).compound c hc
    exact exists_decodeCompoundAtom hx hb
  obtain ⟨qs, hqs⟩ : ∃ qs, ((db.allJoined js).flatMap (·.quote.toList)).foldlM keepQuote [] =
      .ok qs := by
    rw [foldlM_keepQuote]
    apply exists_mapM_eq_ok
    intro q hq
    obtain ⟨r, hr, hq⟩ := List.mem_flatMap.1 (mem_of_mem_firsts hq)
    obtain ⟨j, hj, hr⟩ := hmem r hr
    rw [quote_of_mem_joined hr, Option.mem_toList] at hq
    exact (h j hj).quote q hq
  obtain ⟨mas, hmas⟩ : ∃ mas, ((db.allJoined js).flatMap (·.mixedAtom?.toList)).foldlM
      keepMixedAtom [] = .ok mas := by
    rw [foldlM_mixedAtoms]
    have hall : ∀ a ∈ firsts atomKey ((db.allJoined js).flatMap (·.mixedAtom?.toList)),
        ∃ o, decodeMixedAtom a = .ok o := by
      intro a ha
      obtain ⟨j, hj, c, hc, b, -, rfl⟩ := exists_joinedAtom (mem_of_mem_firsts ha)
      -- the first atom of an entity is one of those that the compound is made of
      have hfirst := List.mem_filter (p := fun a => a.1 = c.id).2 ⟨ha, by simp⟩
      rw [filter_mixedAtoms hk hj hc] at hfirst
      obtain ⟨b', hb', hbb⟩ := List.mem_map.1 hfirst
      obtain ⟨x, hx⟩ := (h j hj).mixed c hc
      rw [← hbb]
      exact exists_decodeMixedAtom hx hb'
    obtain ⟨os, hos⟩ := exists_mapM_eq_ok hall
    exact ⟨_, map_eq_ok.2 ⟨os, hos, rfl⟩⟩
  exact ⟨⟨xs, _, as, qs, _, mas⟩, hxs, keepCompound_eq_ok.2 rfl, has, hqs,
    keepCompound_eq_ok.2 rfl, hmas⟩

theorem exists_finish {η : Hashing} (hk : db.Keyed) (h : ∀ j ∈ js, db.Outlined j)
    (hg : ToldBy (db.allJoined js) {} g) : ∃ out, g.finish η = .ok out := by
  have hmem : ∀ r ∈ db.allJoined js, ∃ j ∈ js, r ∈ db.joined j := fun r hr => List.mem_flatMap.1 hr
  obtain ⟨compounds, hcompounds⟩ : ∃ compounds, g.compounds.mapM g.compound = .ok compounds := by
    rw [keepCompound_eq_ok.1 hg.compounds]
    apply exists_mapM_eq_ok
    intro c hc
    obtain ⟨r, hr, hc⟩ := List.mem_flatMap.1 (mem_of_mem_firsts hc)
    obtain ⟨j, hj, hr⟩ := hmem r hr
    rw [compound_of_mem_joined hr, Option.mem_toList] at hc
    rw [compound_eq hk hg hj hc]
    exact (h j hj).compound c hc
  obtain ⟨mixed, hmixed⟩ : ∃ mixed, g.mixed.mapM g.mixedCompound = .ok mixed := by
    rw [keepCompound_eq_ok.1 hg.mixed]
    apply exists_mapM_eq_ok
    intro c hc
    obtain ⟨r, hr, hc⟩ := List.mem_flatMap.1 (mem_of_mem_firsts hc)
    obtain ⟨j, hj, hr⟩ := hmem r hr
    rw [mixed_of_mem_joined hr, Option.mem_toList] at hc
    rw [mixedCompound_eq hk hg hj hc]
    exact (h j hj).mixed c hc
  exact ⟨_, (finish_eq_ok (once_of_toldBy hg)).2 ⟨compounds, hcompounds, mixed, hmixed, rfl⟩⟩

/-- **Reconstruction takes justifications one at a time**: rows of others make
    no difference to the outline of any. -/
theorem reconstruct_joined {η : Hashing} (hk : db.Keyed) (hids : (js.map (·.id)).Nodup)
    {out : List Justification} :
    reconstruct η (db.allJoined js) = .ok out ↔ js.mapM db.outline = .ok out := by
  rw [reconstruct_eq_ok]
  constructor
  · rintro ⟨g, hg, hout⟩
    exact mapM_outline_of_finish hk hids hg hout
  · intro hout
    have h : ∀ j ∈ js, db.Outlined j := by
      intro j hj
      obtain ⟨x, -, hx⟩ := exists_mem_of_mapM hout hj
      exact outlined_iff.2 ⟨x, hx⟩
    obtain ⟨g, hg⟩ := exists_toldBy hk h
    obtain ⟨out', hout'⟩ := exists_finish hk h hg
    have heq := mapM_outline_of_finish hk hids hg hout'
    rw [hout] at heq
    cases heq
    exact ⟨g, hg, hout'⟩

end Rationale.Store
