/-
  Rationale — well-formed stores.

  In a well-formed store the texts that stand for something can be decoded, and
  what a live justification names is live: its creator, its root and its media
  excerpts.  A target is the root, or a justification with the same root, and no
  line of targets comes back to where it was.  A target that is a justification
  need not be live.

  * `Readable.exists_outline`: every live justification has an outline;
  * `Readable.exists_findStatements` and its like: a lookup finds what is there.
-/
import Mathlib.Logic.Relation
import Rationale.Proofs.Reading

namespace Rationale

open Time

/-! ## What can be decoded -/

/-- The text is the text of an `α`. -/
def Coded.Accepts (α : Type) [Coded α] (s : String) : Prop :=
  ∃ a : α, Coded.decode s = .ok a

/-- The text is a timestamp. -/
def Time.Instant.Accepts (s : String) : Prop :=
  ∃ t, Instant.decode s = .ok t

instance (α : Type) [Coded α] (s : String) : Decidable (Coded.Accepts α s) :=
  decidable_of_iff _ exists_ok_iff_isOk.symm

instance (s : String) : Decidable (Instant.Accepts s) :=
  decidable_of_iff _ exists_ok_iff_isOk.symm

namespace Store

/-- All that is read as a kind or as a timestamp can be decoded. -/
structure Readable (db : Store) : Prop where
  justifications : ∀ j ∈ db.justifications.live,
    Coded.Accepts RootTargetType j.rootTargetType ∧ Coded.Accepts Polarity j.rootPolarity ∧
      Coded.Accepts TargetType j.targetType ∧ Coded.Accepts BasisType j.basisType ∧
      Coded.Accepts Polarity j.polarity ∧ Instant.Accepts j.created
  propositions : ∀ p ∈ db.propositions.live, Instant.Accepts p.created
  statements : ∀ s ∈ db.statements.live,
    Coded.Accepts SentenceType s.sentenceType ∧ Instant.Accepts s.created
  writQuotes : ∀ q ∈ db.writQuotes.live, Instant.Accepts q.created
  mediaExcerpts : ∀ e ∈ db.mediaExcerpts.live, Instant.Accepts e.created
  attempts : ∀ a ∈ db.attempts, Instant.Accepts a.completeAt ∧ Coded.Accepts Verdict a.verdict
  paraphrases : ∀ s ∈ db.paraphrases.live, Coded.Accepts SourceExcerptType s.excerptType
  propositionCompounds : ∀ c ∈ db.propositionCompounds.live, Instant.Accepts c.created
  basisCompounds : ∀ c ∈ db.basisCompounds.live, Instant.Accepts c.created
  basisAtoms : ∀ a ∈ db.basisAtoms, Coded.Accepts AtomType a.entityType

/-! ## Well-formed stores -/

/-- The root is a live proposition, or a live statement of a live speaker. -/
inductive HasRoot (db : Store) (j : JustificationRow) : Prop
  | proposition {p} : j.rootTargetType = Coded.text RootTargetType.proposition →
      p ∈ db.propositions.live → p.id = j.rootTargetId → HasRoot db j
  | statement {s u} : j.rootTargetType = Coded.text RootTargetType.statement →
      s ∈ db.statements.live → s.id = j.rootTargetId →
      u ∈ db.persorgs.live → u.id = s.speakerId → HasRoot db j

structure WellFormed (db : Store) : Prop where
  keyed : db.Keyed
  readable : db.Readable
  creator : ∀ j ∈ db.justifications.live, ∃ u ∈ db.users.live, u.id = j.creatorId
  root : ∀ j ∈ db.justifications.live, db.HasRoot j
  target_root : ∀ j ∈ db.justifications.live, j.targetType ≠ Coded.text TargetType.justification →
    j.targetType = j.rootTargetType ∧ j.targetId = j.rootTargetId
  countered_root : ∀ j t, db.Counters j t →
    j.rootTargetType = t.rootTargetType ∧ j.rootTargetId = t.rootTargetId
  acyclic : ∀ j, ¬ Relation.TransGen db.Counters j j
  basis_excerpt : ∀ j ∈ db.justifications.live, j.basisType = Coded.text BasisType.mediaExcerpt →
    ∃ e ∈ db.mediaExcerpts.live, e.id = j.basisId
  paraphrased_excerpt : ∀ s ∈ db.paraphrases.live,
    s.excerptType = Coded.text SourceExcerptType.mediaExcerpt →
    ∃ e ∈ db.mediaExcerpts.live, e.id = s.excerptId

variable {db : Store} {j : JustificationRow}

instance : Decidable (db.HasRoot j) :=
  decidable_of_iff
    ((j.rootTargetType = Coded.text RootTargetType.proposition ∧
        ∃ p ∈ db.propositions.live, p.id = j.rootTargetId) ∨
      j.rootTargetType = Coded.text RootTargetType.statement ∧
        ∃ s ∈ db.statements.live, s.id = j.rootTargetId ∧ ∃ u ∈ db.persorgs.live, u.id = s.speakerId)
    ⟨by
      rintro (⟨htype, p, hp, hid⟩ | ⟨htype, s, hs, hid, u, hu, hsu⟩)
      · exact .proposition htype hp hid
      · exact .statement htype hs hid hu hsu,
    by
      rintro (⟨htype, hp, hid⟩ | ⟨htype, hs, hid, hu, hsu⟩)
      · exact .inl ⟨htype, _, hp, hid⟩
      · exact .inr ⟨htype, _, hs, hid, _, hu, hsu⟩⟩

/-- What is to be shown of counters and their targets, over the live rows. -/
theorem forall_counters {P : JustificationRow → JustificationRow → Prop}
    (h : ∀ j ∈ db.justifications.live, ∀ t ∈ db.justifications.live, j.targetId? = some t.id → P j t)
    (j t : JustificationRow) (hjt : db.Counters j t) : P j t :=
  h j hjt.1 t hjt.2.1 hjt.2.2

/-! ## Outlines -/

namespace Readable

variable (h : db.Readable)

include h

theorem exists_decode_proposition {p : PropositionRow} (hp : p ∈ db.propositions.live) :
    ∃ x, p.decode = .ok x := by
  obtain ⟨t, ht⟩ := h.propositions p hp
  exact ⟨_, PropositionRow.decode_eq_ok.2 ⟨t, Instant.decode_eq_ok.1 ht, rfl⟩⟩

theorem exists_decode_quote {q : JoinedQuote} (hq : q.quote ∈ db.writQuotes.live) :
    ∃ x, q.decode = .ok x := by
  obtain ⟨t, ht⟩ := h.writQuotes q.quote hq
  exact ⟨_, JoinedQuote.decode_eq_ok.2 ⟨t, Instant.decode_eq_ok.1 ht, rfl⟩⟩

theorem exists_decode (hj : j ∈ db.justifications.live) : ∃ x, j.decode = .ok x := by
  obtain ⟨⟨rt, hrt⟩, ⟨rp, hrp⟩, ⟨tt, htt⟩, ⟨bt, hbt⟩, ⟨p, hp⟩, ⟨t, ht⟩⟩ := h.justifications j hj
  exact JustificationRow.exists_decode_iff.2
    ⟨⟨rt, exact_rootTargetType.decode_eq_ok.1 hrt⟩, ⟨rp, exact_polarity.decode_eq_ok.1 hrp⟩,
      ⟨tt, exact_targetType.decode_eq_ok.1 htt⟩, ⟨bt, exact_basisType.decode_eq_ok.1 hbt⟩,
      ⟨p, exact_polarity.decode_eq_ok.1 hp⟩, ⟨t, Instant.decode_eq_ok.1 ht⟩⟩

theorem exists_compoundOf {c : CompoundRow} (hc : c ∈ db.propositionCompounds.live) :
    ∃ x, db.compoundOf c = .ok x := by
  obtain ⟨t, ht⟩ := h.propositionCompounds c hc
  have hatoms : ∃ as, ((db.compoundPropositions c).mapM fun a =>
      (fun p => (⟨p, a.1⟩ : CompoundAtom)) <$> PropositionRow.decode a.2) = .ok as := by
    apply exists_mapM_eq_ok
    intro a ha
    obtain ⟨b, -, hb⟩ := List.mem_filterMap.1 ha
    obtain ⟨p, hp, rfl⟩ := Option.map_eq_some_iff.1 hb
    obtain ⟨x, hx⟩ := h.exists_decode_proposition (Table.mem_live_of_row? hp)
    exact ⟨_, map_eq_ok.2 ⟨x, hx, rfl⟩⟩
  obtain ⟨as, has⟩ := hatoms
  simp only [compoundOf, has, ht, ok_bind]
  exact ⟨_, rfl⟩

theorem exists_decode_joinedQuote {q : WritQuoteRow} {w : JoinedQuote}
    (hq : q ∈ db.writQuotes.live) (hw : db.joinedQuote? q = some w) : ∃ x, w.decode = .ok x := by
  obtain ⟨_, -, rfl⟩ := Option.map_eq_some_iff.1 hw
  exact h.exists_decode_quote hq

theorem exists_decode_paraphrase {p : ParaphraseRow} (hp : p ∈ db.paraphrases.live) :
    ∃ x, (db.joinedParaphrase p).decode = .ok x := by
  obtain ⟨type, htype⟩ := h.paraphrases p hp
  obtain ⟨proposition, hproposition⟩ : ∃ o, (db.joinedParaphrase p).proposition.mapM
      PropositionRow.decode = .ok o :=
    exists_option_mapM_eq_ok fun a ha => h.exists_decode_proposition (Table.mem_live_of_row? ha)
  obtain ⟨quote, hquote⟩ : ∃ o, (db.joinedParaphrase p).quote.mapM JoinedQuote.decode = .ok o := by
    apply exists_option_mapM_eq_ok
    intro w hw
    obtain ⟨q, hq, hw⟩ := Option.bind_eq_some_iff.1 hw
    exact h.exists_decode_joinedQuote (Table.mem_live_of_typed? hq) hw
  have htype : Coded.decode (db.joinedParaphrase p).excerptType = .ok type := htype
  simp only [JoinedParaphrase.decode, hproposition, htype, hquote, ok_bind]
  exact ⟨_, rfl⟩

theorem exists_atomOf {a : BasisAtomRow} (ha : a ∈ db.basisAtoms) : ∃ o, db.atomOf a = .ok o := by
  obtain ⟨type, htype⟩ := h.basisAtoms a ha
  rw [atomOf, htype, ok_bind]
  cases type with
  | proposition =>
    apply exists_option_mapM_eq_ok
    intro p hp
    obtain ⟨x, hx⟩ := h.exists_decode_proposition (Table.mem_live_of_typed? hp)
    rw [hx, ok_bind]
    exact ⟨_, rfl⟩
  | sourceExcerptParaphrase =>
    apply exists_option_mapM_eq_ok
    intro p hp
    obtain ⟨s, hs, rfl⟩ := Option.map_eq_some_iff.1 hp
    obtain ⟨x, hx⟩ := h.exists_decode_paraphrase (Table.mem_live_of_typed? hs)
    rw [hx, ok_bind]
    exact ⟨_, rfl⟩

theorem exists_mixedOf {c : CompoundRow} (hc : c ∈ db.basisCompounds.live) :
    ∃ x, db.mixedOf c = .ok x := by
  obtain ⟨t, ht⟩ := h.basisCompounds c hc
  obtain ⟨as, has⟩ : ∃ as, (db.distinctAtoms c).mapM db.atomOf = .ok as := by
    refine exists_mapM_eq_ok fun a ha => h.exists_atomOf ?_
    exact (List.mem_filter.1 (Gather.mem_of_mem_firsts ha)).1
  simp only [mixedOf, has, ht, ok_bind]
  exact ⟨_, rfl⟩

/-- **Every live justification has an outline.** -/
theorem exists_outline (hj : j ∈ db.justifications.live) : ∃ x, db.outline j = .ok x := by
  refine outlined_iff.1 ⟨h.exists_decode hj, ?_, ?_, ?_⟩
  · intro c hc
    exact h.exists_compoundOf (Table.mem_live_of_typed? hc)
  · intro w hw
    obtain ⟨q, hq, hw⟩ := Option.bind_eq_some_iff.1 hw
    exact h.exists_decode_joinedQuote (Table.mem_live_of_typed? hq) hw
  · intro c hc
    exact h.exists_mixedOf (Table.mem_live_of_typed? hc)

theorem exists_outlines {js : List JustificationRow}
    (hjs : ∀ j ∈ js, j ∈ db.justifications.live) : ∃ xs, js.mapM db.outline = .ok xs :=
  exists_mapM_eq_ok fun j hj => h.exists_outline (hjs j hj)

end Readable

/-! ## Lookups -/

variable {ids : List Id} {i : Id}

/-- A lookup is complete if something was found for every id. -/
theorem complete_of_mem {α β : Type} {kind : EntityKind} {l : List α} {key : α → Id} {value : α → β}
    (h : ∀ i ∈ ids, ∃ a ∈ l, key a = i) :
    complete kind ids (l.map fun a => (key a, value a)) =
      .ok (l.map fun a => (key a, value a)) := by
  refine complete_eq_ok_iff.2 ⟨rfl, ?_⟩
  intro i hi
  obtain ⟨a, ha, rfl⟩ := h i hi
  rw [Option.isSome_iff_ne_none, ne_eq, List.lookup_eq_none_iff]
  intro hnone
  have hne := hnone (key a, value a) (List.mem_map_of_mem ha)
  simp at hne

/-- The rows with the ids are among those looked up. -/
theorem exists_mem_filterMap_row? {α : Type} [HasId α] {t : Table α}
    (h : ∀ i ∈ ids, ∃ a ∈ t.live, HasId.id a = i) :
    ∀ i ∈ ids, ∃ a ∈ (ascending ids).filterMap t.row?, HasId.id a = i := by
  intro i hi
  obtain ⟨a, ha⟩ := Option.isSome_iff_exists.1 (Table.row?_isSome_iff.2 (h i hi))
  exact ⟨a, List.mem_filterMap.2 ⟨i, mem_ascending.2 hi, ha⟩, Table.id_of_row? ha⟩

theorem exists_findUsers (h : ∀ i ∈ ids, ∃ u ∈ db.users.live, u.id = i) :
    ∃ found, db.findUsers ids = .ok found :=
  ⟨_, complete_of_mem (exists_mem_filterMap_row? h)⟩

theorem exists_findStatements (h : ∀ i ∈ ids, ∃ s, db.statement? i = some (.ok s)) :
    ∃ found, db.findStatements ids = .ok found := by
  obtain ⟨ss, hss⟩ : ∃ ss, ((ascending ids).filterMap db.statement?).mapM id = .ok ss := by
    apply exists_mapM_eq_ok
    intro e he
    obtain ⟨i, hi, he⟩ := List.mem_filterMap.1 he
    obtain ⟨s, hs⟩ := h i (mem_ascending.1 hi)
    rw [hs] at he
    cases he
    exact ⟨s, rfl⟩
  refine ⟨_, bind_eq_ok.2 ⟨ss, hss, complete_of_mem ?_⟩⟩
  intro i hi
  obtain ⟨s, hs⟩ := h i hi
  obtain ⟨s', hs', hse⟩ :=
    exists_mem_of_mapM hss (List.mem_filterMap.2 ⟨i, mem_ascending.2 hi, hs⟩)
  exact ⟨s', hs', id_of_statement? hs hse⟩

/-- What is read with a date can be read if the date can. -/
theorem exists_dated_iff {α : Type} (f : Instant → α) {created : String} :
    (∃ a, (do return f (← Instant.decode created) : Except Fault α) = .ok a) ↔
      Instant.Accepts created := by
  constructor
  · rintro ⟨a, ha⟩
    obtain ⟨t, ht, -⟩ := bind_eq_ok.1 ha
    exact ⟨t, ht⟩
  · rintro ⟨t, ht⟩
    rw [ht, ok_bind]
    exact ⟨_, rfl⟩

/-- A media excerpt can be read if its date can, whatever attempts there were. -/
theorem exists_mediaExcerpt_iff {as : List Attempt} {r : MediaExcerptRow} :
    (∃ e, db.mediaExcerpt as r = .ok e) ↔ Instant.Accepts r.created :=
  exists_dated_iff _

theorem exists_findMediaExcerpts
    (hh : ∃ as, db.history ((db.locatorsOf ids).map (·.1.id)) = .ok as)
    (h : ∀ i ∈ ids, ∃ r, db.mediaExcerpts.row? i = some r ∧ Instant.Accepts r.created) :
    ∃ found, (db.findMediaExcerpts ids).result = .ok found := by
  obtain ⟨as, has⟩ := hh
  obtain ⟨es, hes⟩ : ∃ es, ((ascending ids).filterMap db.mediaExcerpts.row?).mapM
      MediaExcerptRow.decode = .ok es := by
    apply exists_mapM_eq_ok
    intro r hr
    obtain ⟨i, hi, hr⟩ := List.mem_filterMap.1 hr
    obtain ⟨r', hr', ht⟩ := h i (mem_ascending.1 hi)
    rw [hr] at hr'
    cases hr'
    exact (exists_dated_iff _).2 ht
  refine ⟨_, findMediaExcerpts_handedOut.2 ⟨as, has, es, hes, complete_of_mem ?_⟩⟩
  intro i hi
  obtain ⟨r, hr, -⟩ := h i hi
  obtain ⟨e, he, hre⟩ := exists_mem_of_mapM hes (List.mem_filterMap.2 ⟨i, mem_ascending.2 hi, hr⟩)
  exact ⟨_, List.mem_map_of_mem he, (MediaExcerptRow.id_of_decode hre).trans (Table.id_of_row? hr)⟩

namespace Readable

variable (h : db.Readable)

include h

theorem exists_statement {e : Except Fault Statement} (he : db.statement? i = some e) :
    ∃ s, e = .ok s := by
  obtain ⟨s, hs, he⟩ := Option.bind_eq_some_iff.1 he
  obtain ⟨speaker, -, he⟩ := Option.bind_eq_some_iff.1 he
  cases he
  obtain ⟨⟨type, htype⟩, ⟨t, ht⟩⟩ := h.statements s (Table.mem_live_of_row? hs)
  obtain ⟨p, hp⟩ : ∃ p, (db.propositions.typed? SentenceType.proposition s.sentenceType
      s.sentenceId).mapM PropositionRow.decode = .ok p :=
    exists_option_mapM_eq_ok fun a ha => h.exists_decode_proposition (Table.mem_live_of_typed? ha)
  simp only [htype, hp, ht, ok_bind]
  exact ⟨_, rfl⟩

theorem exists_findStatements (hids : ∀ i ∈ ids, ∃ e, db.statement? i = some e) :
    ∃ found, db.findStatements ids = .ok found := by
  apply Store.exists_findStatements
  intro i hi
  obtain ⟨e, he⟩ := hids i hi
  obtain ⟨s, rfl⟩ := h.exists_statement he
  exact ⟨s, he⟩

theorem exists_history (ids : List Id) : ∃ as, db.history ids = .ok as := by
  apply exists_mapM_eq_ok
  intro a ha
  rw [List.mem_mergeSort, List.mem_filter] at ha
  obtain ⟨⟨t, ht⟩, ⟨v, hv⟩⟩ := h.attempts a ha.1
  simp only [AttemptRow.decode, ht, hv, ok_bind]
  exact ⟨_, rfl⟩

theorem exists_findMediaExcerpts (hids : ∀ i ∈ ids, ∃ e ∈ db.mediaExcerpts.live, e.id = i) :
    ∃ found, (db.findMediaExcerpts ids).result = .ok found := by
  refine Store.exists_findMediaExcerpts (h.exists_history _) fun i hi => ?_
  obtain ⟨r, hr⟩ := Option.isSome_iff_exists.1 (Table.row?_isSome_iff.2 (hids i hi))
  exact ⟨r, hr, h.mediaExcerpts r (Table.mem_live_of_row? hr)⟩

end Readable

end Store

end Rationale
