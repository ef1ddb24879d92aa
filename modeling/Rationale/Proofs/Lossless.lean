/-
  Rationale — what is written of a justification reads back.

  Each record reads back part by part, under the names that it was written
  with, and each union by its tag.  Statements nest in statements, and
  justifications in justifications, so these read back by induction on the
  proof that their timestamps are of the years 0 to 9999.

  * `Statement.InYears`, `Justification.InYears`: the timestamps of what is
    nested count too;
  * `Justification.ofJson?_obj`: reading a justification, one level deep;
  * `Justification.lossless`: a justification reads back.
-/
import Rationale.Json.Justification
import Rationale.Proofs.JsonForms

namespace Rationale

open Json JsonForm Time

/-! ## People -/

instance : Lossless UserBlurb where
  ofJson?_toJson _ := by
    unfold instJsonFormUserBlurb
    simp [List.lookup_cons]

instance : Lossless Persorg where
  ofJson?_toJson _ := by
    unfold instJsonFormPersorg
    simp [List.lookup_cons]

/-! ## Propositions and statements -/

instance : Dated Proposition where
  InYears p := InYears p.created

instance : Lossless Proposition where
  ofJson?_toJson {p} h := by
    have h : InYears p.created := h
    unfold instJsonFormProposition
    simp [List.lookup_cons, h]

/-- All timestamps in a statement, and in those nested in it, are of the years
    0 to 9999. -/
inductive Statement.InYears : Statement → Prop where
  | intro {s : Statement} (created : Dated.InYears s.created)
      (proposition : ∀ p, s.sentence = .proposition p → Dated.InYears p)
      (statement : ∀ t, s.sentence = .statement (.entity t) → t.InYears) : s.InYears

instance : Dated Statement where
  InYears := Statement.InYears

/-- A sentence reads back if the statement that it holds does. -/
theorem SentenceOf.ofJsonWith?_toJsonWith {σ : Type} {write : σ → Json} {read : Json → Option σ}
    {s : SentenceOf σ} (hp : ∀ p, s = .proposition p → InYears p)
    (hs : ∀ t, s = .statement (.entity t) → read (write t) = some t) :
    (ofJsonWith? (s.toJsonWith write) fun v => read v.1) = some s := by
  cases s with
  | proposition p =>
    have h := hp p rfl
    simp [toJsonWith, ofJsonWith?, h]
  | statement r =>
    have h : (Relation.ofJsonWith? (r.toJsonWith write) fun v => read v.1) = some r :=
      Relation.ofJsonWith?_toJsonWith fun t ht => hs t (by rw [ht])
    simp [toJsonWith, ofJsonWith?, Within.inner, h]

namespace Statement

theorem ofJson?_obj (members : List (String × Json)) :
    ofJson? (.obj members) = do
      let sentence ← members.lookup "sentence"
      return {
        id := ← (members.lookup "statement_id").bind JsonForm.ofJson?
        speaker := ← (members.lookup "speaker").bind JsonForm.ofJson?
        sentence := ← SentenceOf.ofJsonWith? sentence fun v => ofJson? v.1
        creatorId := ← (members.lookup "creator_user_id").bind JsonForm.ofJson?
        created := ← (members.lookup "created").bind JsonForm.ofJson? } := by
  rw [ofJson?, parts?_obj, Option.bind_eq_bind, Option.bind_some]
  simp only [get?_partsOf]
  rw [← lookup_partsOf members "sentence"]
  cases (partsOf members).lookup "sentence" with
  | none => rfl
  | some sentence => rfl

@[simp]
theorem mk_parts (s : Statement) : mk s.id s.speaker s.sentence s.creatorId s.created = s := by
  cases s
  rfl

theorem ofJson?_toJson {s : Statement} (h : s.InYears) : ofJson? s.toJson = some s := by
  induction h with
  | @intro s created proposition _ ih =>
    have hs : (SentenceOf.ofJsonWith? (s.sentence.toJsonWith toJson) fun v => ofJson? v.1) =
        some s.sentence := SentenceOf.ofJsonWith?_toJsonWith proposition ih
    rw [toJson_eq, ofJson?_obj]
    simp [List.lookup_cons, created, hs]

end Statement

instance : Lossless Statement where
  ofJson?_toJson := Statement.ofJson?_toJson

/-! ## Writs and URLs -/

instance : Lossless Writ where
  ofJson?_toJson _ := by
    unfold instJsonFormWrit
    simp [List.lookup_cons]

instance : Lossless Url where
  ofJson?_toJson _ := by
    unfold instJsonFormUrl
    simp [List.lookup_cons]

instance : Lossless UrlTargetAnchor where
  ofJson?_toJson _ := by
    unfold instJsonFormUrlTargetAnchor
    simp [List.lookup_cons]

instance : Lossless UrlTarget where
  ofJson?_toJson _ := by
    unfold instJsonFormUrlTarget
    simp [List.lookup_cons]

instance : NonNull UrlTarget where
  toJson_ne_null _ h := nomatch h

instance : Lossless WritQuoteUrl where
  ofJson?_toJson _ := by
    unfold instJsonFormWritQuoteUrl
    simp [List.lookup_cons]

instance : Dated WritQuote where
  InYears q := InYears q.created

instance : Lossless WritQuote where
  ofJson?_toJson {q} h := by
    have h : InYears q.created := h
    unfold instJsonFormWritQuote
    simp [List.lookup_cons, h]

/-! ## Media excerpts -/

instance : Dated Window where
  InYears w := InYears w.earliest ∧ InYears w.latest

instance : Lossless Window where
  ofJson?_toJson {w} h := by
    obtain ⟨he, hl⟩ := h
    unfold instJsonFormWindow
    simp [List.lookup_cons, he, hl]

instance : Dated LocatorStatus where
  InYears
    | .neverTried => True
    | .neverFound notFound => InYears notFound
    | .found _ found => InYears found
    | .previouslyFound _ found notFound => InYears found ∧ InYears notFound

instance : Lossless LocatorStatus where
  ofJson?_toJson {s} h := by
    unfold instJsonFormLocatorStatus
    cases s with
    | neverTried => simp [Json.get?, field?]
    | neverFound notFound =>
      have h : InYears notFound := h
      simp [Json.get?, field?, List.lookup_cons, h]
    | found quotation found =>
      have h : InYears found := h
      simp [Json.get?, field?, List.lookup_cons, h]
    | previouslyFound quotation found notFound =>
      obtain ⟨hf, hn⟩ := h
      simp [Json.get?, field?, List.lookup_cons, hf, hn]

instance : Dated UrlLocator where
  InYears l := InYears l.status

instance : Lossless UrlLocator where
  ofJson?_toJson {l} h := by
    have h : InYears l.status := h
    unfold instJsonFormUrlLocator
    simp [List.lookup_cons, h]

instance : Lossless Source where
  ofJson?_toJson _ := by
    unfold instJsonFormSource
    simp [List.lookup_cons]

instance : Lossless Citation where
  ofJson?_toJson _ := by
    unfold instJsonFormCitation
    simp [List.lookup_cons]

instance : Dated MediaExcerpt where
  InYears e := InYears e.created ∧ InYears e.locators

instance : Lossless MediaExcerpt where
  ofJson?_toJson {e} h := by
    obtain ⟨hc, hl⟩ := h
    unfold instJsonFormMediaExcerpt
    simp [List.lookup_cons, hc, hl]

/-! ## Paraphrases -/

instance : Dated SourceExcerpt where
  InYears
    | .writQuote q => InYears q
    | .mediaExcerpt e => InYears e

instance : Lossless SourceExcerpt where
  ofJson?_toJson {e} h := by
    unfold instJsonFormSourceExcerpt
    cases e with
    | writQuote q =>
      have h : InYears q := h
      simp [h]
    | mediaExcerpt e =>
      have h : InYears e := h
      simp [h]

instance : Dated SourceExcerptParaphrase where
  InYears p := InYears p.proposition ∧ InYears p.excerpt

instance : Lossless SourceExcerptParaphrase where
  ofJson?_toJson {p} h := by
    obtain ⟨hp, he⟩ := h
    unfold instJsonFormSourceExcerptParaphrase
    simp [List.lookup_cons, hp, he]

/-! ## Compounds -/

instance : Dated CompoundAtom where
  InYears a := InYears a.proposition

instance : Lossless CompoundAtom where
  ofJson?_toJson {a} h := by
    have h : InYears a.proposition := h
    unfold instJsonFormCompoundAtom
    simp [List.lookup_cons, h]

instance : Dated PropositionCompound where
  InYears c := InYears c.created ∧ InYears c.atoms

instance : Lossless PropositionCompound where
  ofJson?_toJson {c} h := by
    obtain ⟨hc, ha⟩ := h
    unfold instJsonFormPropositionCompound
    simp [List.lookup_cons, hc, ha]

instance : Dated BasisAtomEntity where
  InYears
    | .proposition p => InYears p
    | .sourceExcerptParaphrase p => InYears p

instance : Lossless BasisAtomEntity where
  ofJson?_toJson {a} h := by
    unfold instJsonFormBasisAtomEntity
    cases a with
    | proposition p =>
      have h : InYears p := h
      simp [h]
    | sourceExcerptParaphrase p =>
      have h : InYears p := h
      simp [h]

instance : Dated BasisAtom where
  InYears a := InYears a.entity

instance : Lossless BasisAtom where
  ofJson?_toJson {a} h := by
    have h : InYears a.entity := h
    unfold instJsonFormBasisAtom
    simp [List.lookup_cons, h]

instance : Dated BasisCompound where
  InYears c := InYears c.created ∧ InYears c.atoms

instance : Lossless BasisCompound where
  ofJson?_toJson {c} h := by
    obtain ⟨hc, ha⟩ := h
    unfold instJsonFormBasisCompound
    simp [List.lookup_cons, hc, ha]

instance : Dated Basis where
  InYears
    | .propositionCompound c => InYears c
    | .writQuote q => InYears q
    | .mediaExcerpt e => InYears e
    | .justificationBasisCompound c => InYears c

instance : Lossless Basis where
  ofJson?_toJson {b} h := by
    unfold instJsonFormBasis
    cases b with
    | propositionCompound c =>
      have h : InYears c := h
      simp [h]
    | writQuote q =>
      have h : InYears q := h
      simp [h]
    | mediaExcerpt e =>
      have h : InYears e := h
      simp [h]
    | justificationBasisCompound c =>
      have h : InYears c := h
      simp [h]

/-! ## Justifications -/

instance : Dated RootTarget where
  InYears
    | .proposition p => InYears p
    | .statement s => InYears s

instance : Lossless RootTarget where
  ofJson?_toJson {r} h := by
    unfold instJsonFormRootTarget
    cases r with
    | proposition p =>
      have h : InYears p := h
      simp [h]
    | statement s =>
      have h : InYears s := h
      simp [h]

/-- All timestamps in a justification, and in those nested in it as targets or
    counters, are of the years 0 to 9999. -/
inductive Justification.InYears : Justification → Prop where
  | intro {j : Justification} (root : Dated.InYears j.rootTarget)
      (proposition : ∀ p, j.target = .proposition p → Dated.InYears p)
      (statement : ∀ s, j.target = .statement s → Dated.InYears s)
      (target : ∀ t, j.target = .justification (.entity t) → t.InYears)
      (basis : Dated.InYears j.basis) (created : Dated.InYears j.created)
      (counters : ∀ c ∈ j.counters, c.InYears) : j.InYears

/-- A target reads back if the justification that it holds does. -/
theorem TargetOf.ofJsonWith?_toJsonWith {ι : Type} {write : ι → Json} {read : Json → Option ι}
    {t : TargetOf ι} (hp : ∀ p, t = .proposition p → InYears p)
    (hs : ∀ s, t = .statement s → InYears s)
    (hj : ∀ j, t = .justification (.entity j) → read (write j) = some j) :
    (ofJsonWith? (t.toJsonWith write) fun v => read v.1) = some t := by
  cases t with
  | proposition p =>
    have h := hp p rfl
    simp [toJsonWith, ofJsonWith?, h]
  | statement s =>
    have h := hs s rfl
    simp [toJsonWith, ofJsonWith?, h]
  | justification r =>
    have h : (Relation.ofJsonWith? (r.toJsonWith write) fun v => read v.1) = some r :=
      Relation.ofJsonWith?_toJsonWith fun j hr => hj j (by rw [hr])
    simp [toJsonWith, ofJsonWith?, Within.inner, h]

namespace Justification

theorem ofJson?_obj (members : List (String × Json)) :
    ofJson? (.obj members) = do
      let target ← members.lookup "target"
      let counters ← members.lookup "counter_justifications"
      return {
        id := ← (members.lookup "id").bind JsonForm.ofJson?
        rootTarget := ← (members.lookup "root_target").bind JsonForm.ofJson?
        rootPolarity := ← (members.lookup "root_polarity").bind JsonForm.ofJson?
        target := ← TargetOf.ofJsonWith? target fun v => ofJson? v.1
        basis := ← (members.lookup "basis").bind JsonForm.ofJson?
        polarity := ← (members.lookup "polarity").bind JsonForm.ofJson?
        creator := ← (members.lookup "creator").bind JsonForm.ofJson?
        created := ← (members.lookup "created").bind JsonForm.ofJson?
        counters := ← (← counters.elements?).mapM fun v => ofJson? v.1 } := by
  rw [ofJson?, parts?_obj, Option.bind_eq_bind, Option.bind_some]
  simp only [get?_partsOf]
  rw [← lookup_partsOf members "target", ← lookup_partsOf members "counter_justifications"]
  cases (partsOf members).lookup "target" with
  | none => rfl
  | some target =>
    cases (partsOf members).lookup "counter_justifications" with
    | none => rfl
    | some counters => rfl

@[simp]
theorem mk_parts (j : Justification) :
    mk j.id j.rootTarget j.rootPolarity j.target j.basis j.polarity j.creator j.created
      j.counters = j := by
  cases j
  rfl

/-- **A justification reads back** from its JSON form, if its timestamps are of
    the years 0 to 9999. -/
theorem lossless {j : Justification} (h : j.InYears) : ofJson? j.toJson = some j := by
  induction h with
  | @intro j root proposition statement _ basis created _ iht ihc =>
    have ht : (TargetOf.ofJsonWith? (j.target.toJsonWith toJson) fun v => ofJson? v.1) =
        some j.target := TargetOf.ofJsonWith?_toJsonWith proposition statement iht
    obtain ⟨vs, he, hm⟩ := exists_elements? (j.counters.map toJson)
    have hc : (vs.mapM fun v => ofJson? v.1) = some j.counters := by
      rw [hm, mapM_map_eq_some ihc]
    rw [toJson_eq, ofJson?_obj]
    simp [List.lookup_cons, root, basis, created, ht, he, hc, -List.mapM_subtype]

/-- The middle of the leap second at the end of 2016. -/
def leapSecond : Instant :=
  ⟨daysBeforeYear 2017 * 86400 - 1, 1500000000, by decide, by decide⟩

/-- Rests on a quote with marks of its own and a line break. -/
def supported : Justification :=
  ⟨1, .proposition (.ref 8), .positive, .proposition (.ref 8),
    .writQuote (.entity ⟨4, "\"So\"\n\u2026", ⟨5, ""⟩, 9, leapSecond, some [⟨⟨6, "u"⟩, none⟩]⟩),
    .positive, .entity ⟨9, "Ada"⟩, leapSecond, []⟩

/-- Counters the objection, which is not at hand. -/
def rejoinder : Justification :=
  ⟨3, .proposition (.ref 8), .positive, .justification (.ref 2),
    .propositionCompound (.ref 7), .negative, .ref 9, leapSecond, []⟩

/-- Counters a justification at hand, and was itself countered. -/
def objection : Justification :=
  ⟨2, .proposition (.ref 8), .negative, .justification (.entity supported),
    .mediaExcerpt (.entity ⟨10, "", 9, leapSecond,
      [⟨11, ⟨6, "u"⟩, .previouslyFound none ⟨leapSecond, leapSecond⟩ ⟨leapSecond, leapSecond⟩⟩],
      [⟨⟨12, "d"⟩, none⟩]⟩),
    .negative, .ref 9, leapSecond, [rejoinder]⟩

theorem lossless_objection : objection.InYears ∧ ofJson? objection.toJson = some objection := by
  have ht : Rationale.InYears leapSecond :=
    (by decide : 0 ≤ leapSecond.year ∧ leapSecond.year ≤ 9999)
  have hsupported : supported.InYears := by
    refine .intro (fun _ h => nomatch h) ?_ (fun _ h => nomatch h) (fun _ h => nomatch h) ?_ ht
      (fun _ h => nomatch h)
    · rintro p ⟨⟩ _ ⟨⟩
    · rintro q ⟨⟩
      exact ht
  have hrejoinder : rejoinder.InYears := by
    refine .intro (fun _ h => nomatch h) (fun _ h => nomatch h) (fun _ h => nomatch h) ?_
      (fun _ h => nomatch h) ht (fun _ h => nomatch h)
    rintro _ ⟨⟩
  have hobjection : objection.InYears := by
    refine .intro (fun _ h => nomatch h) (fun _ h => nomatch h) (fun _ h => nomatch h) ?_ ?_ ht ?_
    · rintro t ⟨⟩
      exact hsupported
    · rintro e ⟨⟩
      exact ⟨ht, List.forall_mem_singleton.2 ⟨⟨ht, ht⟩, ht, ht⟩⟩
    · exact List.forall_mem_singleton.2 hrejoinder
  exact ⟨hobjection, lossless hobjection⟩

end Justification

end Rationale
