/-
  Rationale — what is at hand and what stays an id.

  A page gives whatever a justification names as an entity if it can, and by
  its id if not.  What must be there is always at hand: the creator, the root,
  what is the target if that is no justification, and media excerpts.  Anything
  else is at hand if and only if it is live, where a writ quote needs its writ.
  Either way the id is the one in the row that names it.

  * `Relation.Stands`: what one relation shows of the rows of a table;
  * `JustificationRow.Names` and its like: what an entity shows of its row, and
    of the rows that this names;
  * `references_of_read`: so for all that a page includes, at any depth.
-/
import Rationale.Proofs.Consistency
import Rationale.Proofs.Showing

namespace Rationale

open Query Lookups Store Time

/-! ## One relation -/

namespace Relation

variable {ρ α : Type} [HasId ρ]

/-- The other end is the row of `t` with the id `i`, shown as `shows` says. -/
def AtHand (t : List ρ) (shows : ρ → α → Prop) (i : Id) (r : Relation α) : Prop :=
  ∃ a, r = .entity a ∧ ∃ row ∈ t, HasId.id row = i ∧ shows row a

/-- The other end is at hand if and only if a row of `t` has the id `i`. -/
structure Stands (t : List ρ) (shows : ρ → α → Prop) (i : Id) (r : Relation α) : Prop where
  hydrated : r.isHydrated = true ↔ ∃ row ∈ t, HasId.id row = i
  entity : ∀ a, r = .entity a → ∃ row ∈ t, HasId.id row = i ∧ shows row a
  ref : ∀ k, r = .ref k → k = i

variable {t : List ρ} {shows : ρ → α → Prop} {i : Id}

theorem stands_ofLookup {found : Option α}
    (hsome : ∀ a, found = some a → ∃ row ∈ t, HasId.id row = i ∧ shows row a)
    (hnone : found = none → ∀ row ∈ t, HasId.id row ≠ i) :
    Stands t shows i (.ofLookup i found) := by
  cases found with
  | none =>
    refine ⟨⟨nofun, ?_⟩, nofun, ?_⟩
    · rintro ⟨row, hrow, hid⟩
      exact absurd hid (hnone rfl row hrow)
    · rintro k ⟨⟩
      rfl
  | some a =>
    obtain ⟨row, hrow, hid, hshows⟩ := hsome a rfl
    refine ⟨⟨fun _ => ⟨row, hrow, hid⟩, fun _ => rfl⟩, ?_, nofun⟩
    rintro _ ⟨⟩
    exact ⟨row, hrow, hid, hshows⟩

theorem Stands.exists_entity {r : Relation α} (h : Stands t shows i r)
    (hrow : ∃ row ∈ t, HasId.id row = i) : ∃ a, r = .entity a := by
  cases r with
  | entity a => exact ⟨a, rfl⟩
  | ref k => cases h.hydrated.2 hrow

/-- What has no row is left as its id. -/
theorem Stands.eq_ref {r : Relation α} (h : Stands t shows i r)
    (hmissing : ∀ row ∈ t, HasId.id row ≠ i) : r = .ref i := by
  cases r with
  | entity a =>
    obtain ⟨row, hrow, hid, -⟩ := h.entity a rfl
    exact absurd hid (hmissing row hrow)
  | ref k => rw [h.ref k rfl]

/-- What was looked up and decoded, and then filled in by `g`. -/
theorem stands_of_mapM {β γ : Type} {o : Option β} {f : β → Except Fault γ} {found : Option γ}
    (g : γ → α) (h : o.mapM f = .ok found)
    (hsome : ∀ b c, o = some b → f b = .ok c → ∃ row ∈ t, HasId.id row = i ∧ shows row (g c))
    (hnone : o = none → ∀ row ∈ t, HasId.id row ≠ i) :
    Stands t shows i (.ofLookup i (found.map g)) := by
  rcases option_mapM_eq_ok.1 h with ⟨rfl, rfl⟩ | ⟨b, c, rfl, rfl, hbc⟩
  · exact stands_ofLookup nofun fun _ => hnone rfl
  · refine stands_ofLookup ?_ nofun
    rintro _ ⟨⟩
    exact hsome b c rfl hbc

end Relation

/-! ## What is named -/

/-- `p` is what the row says. -/
def PropositionRow.Says (r : PropositionRow) (p : Proposition) : Prop :=
  r.decode = .ok p

namespace Store

variable (db : Store)

/-- The live quotes whose writs are live. -/
def writtenQuotes : List WritQuoteRow :=
  db.writQuotes.live.filter fun q => (db.writs.row? q.writId).isSome

structure NamesQuote (r : WritQuoteRow) (w : WritQuote) : Prop where
  id : w.id = r.id
  writ : w.writ.id = r.writId
  creator : w.creatorId = r.creatorId
  urls : ∀ us, w.urls = some us → ∀ u ∈ us,
    (∃ l ∈ db.writQuoteUrls.live, l.writQuoteId = r.id ∧ l.urlId = u.url.id) ∧
      ∀ t, u.target = some t → t.writQuoteId = r.id ∧ t.urlId = u.url.id ∧
        ∃ tr ∈ db.urlTargets.live, tr.id = t.id ∧ tr.writQuoteId = r.id ∧ tr.urlId = u.url.id

structure NamesExcerpt (r : MediaExcerptRow) (e : MediaExcerpt) : Prop where
  id : e.id = r.id
  creator : e.creatorId = r.creatorId
  locators : ∀ l ∈ e.locators, ∃ lr ∈ db.urlLocators.live,
    lr.id = l.id ∧ lr.mediaExcerptId = r.id ∧ lr.urlId = l.url.id
  citations : ∀ c ∈ e.citations, ∃ cr ∈ db.citations.live,
    cr.mediaExcerptId = r.id ∧ cr.sourceId = c.source.id

/-- A sentence is at hand if and only if it is a live proposition. -/
inductive NamesSentence (r : StatementRow) : Sentence → Prop
  | proposition {p} : r.sentenceType = Coded.text SentenceType.proposition →
      p.Stands db.propositions.live PropositionRow.Says r.sentenceId →
      NamesSentence r (.proposition p)
  | statement : r.sentenceType = Coded.text SentenceType.statement →
      NamesSentence r (.statement (.ref r.sentenceId))

structure NamesStatement (r : StatementRow) (s : Statement) : Prop where
  id : s.id = r.id
  speaker : s.speaker.id = r.speakerId
  creator : s.creatorId = r.creatorId
  sentence : db.NamesSentence r s.sentence

/-- A media excerpt is at hand, and a quote if it and its writ are live. -/
inductive NamesSource (r : ParaphraseRow) : SourceExcerpt → Prop
  | writQuote {w} : r.excerptType = Coded.text SourceExcerptType.writQuote →
      w.Stands db.writtenQuotes db.NamesQuote r.excerptId → NamesSource r (.writQuote w)
  | mediaExcerpt {e} : r.excerptType = Coded.text SourceExcerptType.mediaExcerpt →
      e.AtHand db.mediaExcerpts.live db.NamesExcerpt r.excerptId → NamesSource r (.mediaExcerpt e)

structure NamesParaphrase (r : ParaphraseRow) (s : SourceExcerptParaphrase) : Prop where
  id : s.id = r.id
  proposition : s.proposition.Stands db.propositions.live PropositionRow.Says r.propositionId
  excerpt : db.NamesSource r s.excerpt

/-- What is listed as an atom is at hand. -/
inductive NamesAtom (r : BasisAtomRow) : BasisAtomEntity → Prop
  | proposition {p} : r.entityType = Coded.text AtomType.proposition →
      p.AtHand db.propositions.live PropositionRow.Says r.entityId → NamesAtom r (.proposition p)
  | paraphrase {s} : r.entityType = Coded.text AtomType.sourceExcerptParaphrase →
      s.AtHand db.paraphrases.live db.NamesParaphrase r.entityId →
      NamesAtom r (.sourceExcerptParaphrase s)

structure NamesCompound (r : CompoundRow) (c : PropositionCompound) : Prop where
  id : c.id = r.id
  creator : c.creatorId = r.creatorId
  atoms : ∀ a ∈ c.atoms, ∃ ar ∈ db.compoundAtoms,
    ar.compoundId = r.id ∧ ar.orderPosition = a.orderPosition ∧
      ∃ p ∈ db.propositions.live, p.id = ar.propositionId ∧ p.Says a.proposition

structure NamesMixed (r : CompoundRow) (c : BasisCompound) : Prop where
  id : c.id = r.id
  creator : c.creatorId = r.creatorId
  atoms : ∀ a ∈ c.atoms, ∃ ar ∈ db.basisAtoms,
    ar.compoundId = r.id ∧ ar.id = a.id ∧ ar.orderPosition = a.orderPosition ∧
      db.NamesAtom ar a.entity

/-- A media excerpt is at hand, and anything else if it is live. -/
inductive NamesBasis (j : JustificationRow) : Basis → Prop
  | propositionCompound {c} : j.basisType = Coded.text BasisType.propositionCompound →
      c.Stands db.propositionCompounds.live db.NamesCompound j.basisId →
      NamesBasis j (.propositionCompound c)
  | writQuote {w} : j.basisType = Coded.text BasisType.writQuote →
      w.Stands db.writtenQuotes db.NamesQuote j.basisId → NamesBasis j (.writQuote w)
  | mediaExcerpt {e} : j.basisType = Coded.text BasisType.mediaExcerpt →
      e.AtHand db.mediaExcerpts.live db.NamesExcerpt j.basisId → NamesBasis j (.mediaExcerpt e)
  | mixed {c} : j.basisType = Coded.text BasisType.justificationBasisCompound →
      c.Stands db.basisCompounds.live db.NamesMixed j.basisId →
      NamesBasis j (.justificationBasisCompound c)

/-- A root is at hand. -/
inductive NamesRoot (j : JustificationRow) : RootTarget → Prop
  | proposition {p} : j.rootTargetType = Coded.text RootTargetType.proposition →
      p.AtHand db.propositions.live PropositionRow.Says j.rootTargetId →
      NamesRoot j (.proposition p)
  | statement {s} : j.rootTargetType = Coded.text RootTargetType.statement →
      s.AtHand db.statements.live db.NamesStatement j.rootTargetId → NamesRoot j (.statement s)

/-- A target is at hand, or is a justification. -/
inductive NamesTarget (j : JustificationRow) : Target → Prop
  | proposition {p} : j.targetType = Coded.text TargetType.proposition →
      p.AtHand db.propositions.live PropositionRow.Says j.targetId → NamesTarget j (.proposition p)
  | statement {s} : j.targetType = Coded.text TargetType.statement →
      s.AtHand db.statements.live db.NamesStatement j.targetId → NamesTarget j (.statement s)
  | justification {k} : j.targetType = Coded.text TargetType.justification →
      k.id (·.id) = j.targetId → NamesTarget j (.justification k)

structure NamesJustification (j : JustificationRow) (x : Justification) : Prop where
  id : x.id = j.id
  creator : x.creator.AtHand db.users.live (fun u b => b.id = u.id) j.creatorId
  rootTarget : db.NamesRoot j x.rootTarget
  target : db.NamesTarget j x.target
  basis : db.NamesBasis j x.basis

end Store

/-! ## What the store has under an id -/

namespace Store

variable {db : Store} {includeUrls : Bool} {j : JustificationRow} {x y : Justification} {i : Id}

theorem atHand_proposition {p : Proposition} (h : db.proposition? i = some p) :
    (Relation.entity p).AtHand db.propositions.live PropositionRow.Says i := by
  obtain ⟨r, hr, hp⟩ := Option.bind_eq_some_iff.1 h
  exact ⟨p, rfl, r, Table.mem_live_of_row? hr, Table.id_of_row? hr,
    toOption_eq_some.1 hp⟩

/-- A proposition is at hand if it is live. -/
theorem stands_proposition {o : Option PropositionRow} {found : Option Proposition}
    (h : o.mapM PropositionRow.decode = .ok found)
    (ho : ∀ r, o = some r ↔ r ∈ db.propositions.live ∧ r.id = i) :
    (Relation.ofLookup i found).Stands db.propositions.live PropositionRow.Says i := by
  rw [← Option.map_id' (x := found)]
  refine Relation.stands_of_mapM (fun a => a) h (fun r p hr hp => ?_) fun hnone r hr hid => ?_
  · obtain ⟨hlive, hid⟩ := (ho r).1 hr
    exact ⟨r, hlive, hid, hp⟩
  · rw [(ho r).2 ⟨hr, hid⟩] at hnone
    cases hnone

theorem namesSentence {r : StatementRow} {type : SentenceType} {p : Option Proposition}
    (hk : db.Keyed) (htype : r.sentenceType = Coded.text type)
    (h : (db.propositions.typed? SentenceType.proposition r.sentenceType r.sentenceId).mapM
      PropositionRow.decode = .ok p) :
    db.NamesSentence r (.resolve type r.sentenceId p) := by
  cases type with
  | statement => exact .statement htype
  | proposition =>
    refine .proposition htype (stands_proposition h fun r => ?_)
    rw [hk.propositions.typed?_eq_some]
    exact and_congr_right fun _ => and_iff_right htype

theorem atHand_statement (hk : db.Keyed) {f : Id → Option Proposition} {s : Statement}
    (h : (db.lookups f includeUrls).statements i = some s) :
    (Relation.entity s).AtHand db.statements.live db.NamesStatement i := by
  obtain ⟨e, he, hs⟩ := Option.bind_eq_some_iff.1 h
  obtain ⟨r, hr, he⟩ := Option.bind_eq_some_iff.1 he
  obtain ⟨u, hu, he⟩ := Option.bind_eq_some_iff.1 he
  cases he
  obtain ⟨type, htype, hs⟩ := bind_eq_ok.1 (toOption_eq_some.1 hs)
  obtain ⟨p, hp, hs⟩ := bind_eq_ok.1 hs
  obtain ⟨t, -, hs⟩ := bind_eq_ok.1 hs
  cases hs
  exact ⟨_, rfl, r, Table.mem_live_of_row? hr, Table.id_of_row? hr, rfl, Table.id_of_row? hu, rfl,
    namesSentence hk (exact_sentenceType.decode_eq_ok.1 htype) hp⟩

theorem atHand_user {f : Id → Option Proposition} {u : UserBlurb}
    (h : (db.lookups f includeUrls).users i = some u) :
    (Relation.entity u).AtHand db.users.live (fun u b => b.id = u.id) i := by
  obtain ⟨r, hr, rfl⟩ := Option.map_eq_some_iff.1 h
  exact ⟨_, rfl, r, Table.mem_live_of_row? hr, Table.id_of_row? hr, rfl⟩

theorem namesExcerpt {as : List Attempt} {r : MediaExcerptRow} {e : MediaExcerpt}
    (h : db.mediaExcerpt as r = .ok e) : db.NamesExcerpt r e := by
  obtain ⟨t, -, h⟩ := bind_eq_ok.1 h
  cases h
  refine ⟨rfl, rfl, fun l hl => ?_, fun c hc => ?_⟩
  · obtain ⟨⟨lr, u⟩, hlu, rfl⟩ := List.mem_map.1 hl
    obtain ⟨_, he, hlu⟩ := mem_locatorsOf.1 hlu
    cases List.mem_singleton.1 he
    obtain ⟨lr', hlr, hlu⟩ := List.mem_filterMap.1 hlu
    obtain ⟨u', hu, hlu⟩ := Option.map_eq_some_iff.1 hlu
    cases hlu
    obtain ⟨hlr, hexcerpt⟩ := List.mem_filter.1 hlr
    exact ⟨lr, hlr, rfl, of_decide_eq_true hexcerpt, (Table.id_of_row? hu).symm⟩
  · obtain ⟨cr, hcr, hc⟩ := List.mem_filterMap.1 (List.mem_mergeSort.1 hc)
    obtain ⟨s, hs, rfl⟩ := Option.map_eq_some_iff.1 hc
    obtain ⟨hcr, hexcerpt⟩ := List.mem_filter.1 hcr
    exact ⟨cr, hcr, of_decide_eq_true hexcerpt, (Table.id_of_row? hs).symm⟩

theorem atHand_excerpt {f : Id → Option Proposition} {e : MediaExcerpt}
    (h : (db.lookups f includeUrls).mediaExcerpts i = some e) :
    (Relation.entity e).AtHand db.mediaExcerpts.live db.NamesExcerpt i := by
  obtain ⟨r, hr, he⟩ := Option.bind_eq_some_iff.1 h
  obtain ⟨as, -, he⟩ := bind_eq_ok.1 (toOption_eq_some.1 he)
  exact ⟨e, rfl, r, Table.mem_live_of_row? hr, Table.id_of_row? hr, namesExcerpt he⟩

/-! ## Quotes -/

theorem mem_writtenQuotes {q : WritQuoteRow} :
    q ∈ db.writtenQuotes ↔ q ∈ db.writQuotes.live ∧ ∃ j, db.joinedQuote? q = some j := by
  rw [writtenQuotes, List.mem_filter, joinedQuote?, ← Option.isSome_iff_exists, Option.isSome_map]

theorem namesQuote {q : JoinedQuote} {w : WritQuote} (h : q.decode = .ok w) :
    db.NamesQuote q.quote w := by
  obtain ⟨_, -, rfl⟩ := JoinedQuote.decode_eq_ok.1 h
  exact ⟨rfl, rfl, rfl, nofun⟩

/-- The URLs of a quote are those that are attached to it. -/
theorem NamesQuote.quote {f : Id → Option Proposition} {r : WritQuoteRow} {w : WritQuote}
    (h : db.NamesQuote r w) : db.NamesQuote r ((db.lookups f includeUrls).quote w) := by
  unfold Lookups.quote
  split
  · rename_i urls hurls
    refine ⟨h.id, h.writ, h.creator, ?_⟩
    rintro _ ⟨⟩ u hu
    have hof : urls = db.writQuoteUrlsOf := by
      unfold lookups at hurls
      split at hurls <;> cases hurls
      rfl
    rw [hof, h.id] at hu
    obtain ⟨v, hv, rfl⟩ := List.mem_map.1 hu
    obtain ⟨ur, hur, rfl⟩ := List.mem_map.1 hv
    obtain ⟨l, hl, hur⟩ := List.mem_filterMap.1 (List.mem_mergeSort.1 hur)
    obtain ⟨hl, hquote⟩ := List.mem_filter.1 hl
    refine ⟨⟨l, hl, of_decide_eq_true hquote, (Table.id_of_row? hur).symm⟩, fun t ht => ?_⟩
    obtain ⟨tr, htr, rfl⟩ := Option.map_eq_some_iff.1 ht
    obtain ⟨hlive, hmem⟩ := List.mem_filter.1 (List.mem_mergeSort.1 (List.mem_of_mem_head? htr))
    simp only [Bool.and_eq_true, decide_eq_true_eq] at hmem
    exact ⟨hmem.1, hmem.2, tr, hlive, rfl, hmem⟩
  · exact h

/-- A quote is at hand if it and its writ are live. -/
theorem stands_quote {o : Option WritQuoteRow} {found : Option WritQuote}
    (h : (o.bind db.joinedQuote?).mapM JoinedQuote.decode = .ok found)
    (ho : ∀ q, o = some q ↔ q ∈ db.writQuotes.live ∧ q.id = i) (g : WritQuote → WritQuote)
    (hg : ∀ r w, db.NamesQuote r w → db.NamesQuote r (g w)) :
    (Relation.ofLookup i (found.map g)).Stands db.writtenQuotes db.NamesQuote i := by
  refine Relation.stands_of_mapM _ h (fun q w hq hw => ?_) fun hnone q hq hid => ?_
  · obtain ⟨r, hr, hq⟩ := Option.bind_eq_some_iff.1 hq
    obtain ⟨hlive, hid⟩ := (ho r).1 hr
    refine ⟨r, mem_writtenQuotes.2 ⟨hlive, q, hq⟩, hid, hg r w ?_⟩
    obtain ⟨v, -, rfl⟩ := Option.map_eq_some_iff.1 hq
    exact namesQuote hw
  · obtain ⟨hlive, v, hv⟩ := mem_writtenQuotes.1 hq
    rw [(ho q).2 ⟨hlive, hid⟩, Option.bind_some, hv] at hnone
    cases hnone

/-! ## Compounds -/

theorem namesCompound {r : CompoundRow} {c : PropositionCompound} (h : db.compoundOf r = .ok c) :
    db.NamesCompound r c := by
  obtain ⟨as, has, h⟩ := bind_eq_ok.1 h
  obtain ⟨t, -, h⟩ := bind_eq_ok.1 h
  cases h
  refine ⟨rfl, rfl, fun a ha => ?_⟩
  obtain ⟨⟨position, p⟩, hp, hpa⟩ := exists_of_mem_mapM has (List.mem_mergeSort.1 ha)
  obtain ⟨b, hb, rfl⟩ := map_eq_ok.1 hpa
  obtain ⟨ar, har, hrow⟩ := List.mem_filterMap.1 hp
  obtain ⟨p', hp', hrow⟩ := Option.map_eq_some_iff.1 hrow
  cases hrow
  obtain ⟨har, hcompound⟩ := List.mem_filter.1 har
  exact ⟨ar, har, of_decide_eq_true hcompound, rfl, p, Table.mem_live_of_row? hp', Table.id_of_row? hp',
    hb⟩

/-- The excerpt of a paraphrase, filled in. -/
theorem namesSource (hk : db.Keyed) {f : Id → Option Proposition} {r : ParaphraseRow}
    {type : SourceExcerptType} {found : Option WritQuote}
    (htype : r.excerptType = Coded.text type)
    (h : ((db.paraphrasedQuote? r).bind db.joinedQuote?).mapM JoinedQuote.decode = .ok found)
    (hne : ∀ i, (db.lookups f includeUrls).excerpt
      (.resolve type r.excerptId found fun _ => none) ≠ .mediaExcerpt (.ref i)) :
    db.NamesSource r
      ((db.lookups f includeUrls).excerpt (.resolve type r.excerptId found fun _ => none)) := by
  cases type with
  | writQuote =>
    rw [← Option.map_id' (x := found)]
    refine .writQuote htype (stands_quote h (fun q => ?_) (fun w => w) fun _ _ hq => hq)
    rw [paraphrasedQuote?, hk.writQuotes.typed?_eq_some]
    exact and_congr_right fun _ => and_iff_right htype
  | mediaExcerpt =>
    have hexcerpt : (db.lookups f includeUrls).excerpt
        (.resolve .mediaExcerpt r.excerptId found fun _ => none) =
          .mediaExcerpt
            (.ofLookup r.excerptId ((db.lookups f includeUrls).mediaExcerpts r.excerptId)) :=
      rfl
    rw [hexcerpt] at hne ⊢
    cases he : (db.lookups f includeUrls).mediaExcerpts r.excerptId with
    | none => exact absurd (by rw [he]; rfl) (hne r.excerptId)
    | some e => exact .mediaExcerpt htype (atHand_excerpt he)

theorem namesParaphrase (hk : db.Keyed) {f : Id → Option Proposition} {r : ParaphraseRow}
    {s : SourceExcerptParaphrase} (h : (db.joinedParaphrase r).decode = .ok s)
    (hne : ∀ i, (db.lookups f includeUrls).excerpt s.excerpt ≠ .mediaExcerpt (.ref i)) :
    db.NamesParaphrase r { s with excerpt := (db.lookups f includeUrls).excerpt s.excerpt } := by
  obtain ⟨type, htype, p, hp, w, hw, rfl⟩ := decode_joinedParaphrase_eq h
  exact ⟨rfl, stands_proposition hp fun _ => hk.propositions.row?_eq_some,
    namesSource hk htype hw hne⟩

/-- An atom, filled in. -/
theorem namesAtom (hk : db.Keyed) {f : Id → Option Proposition} {a : BasisAtomRow} {b : BasisAtom}
    (h : db.atomOf a = .ok (some b))
    (hne : ∀ s, ((db.lookups f includeUrls).atom b).entity = .sourceExcerptParaphrase (.entity s) →
      ∀ i, s.excerpt ≠ .mediaExcerpt (.ref i)) :
    a.id = ((db.lookups f includeUrls).atom b).id ∧
      a.orderPosition = ((db.lookups f includeUrls).atom b).orderPosition ∧
      db.NamesAtom a ((db.lookups f includeUrls).atom b).entity := by
  rcases link_of_atomOf h with ⟨r, hr⟩ | ⟨r, hr⟩
  · rw [atomOf_of_proposition hk hr] at h
    obtain ⟨p, hp, hb⟩ := map_eq_ok.1 h
    cases hb
    obtain ⟨hlive, htype, hid⟩ := hk.propositions.typed?_eq_some.1 hr
    exact ⟨rfl, rfl, .proposition htype ⟨p, rfl, r, hlive, hid, hp⟩⟩
  · rw [atomOf_of_paraphrase hk hr] at h
    obtain ⟨s, hs, hb⟩ := map_eq_ok.1 h
    cases hb
    obtain ⟨hlive, htype, hid⟩ := hk.paraphrases.typed?_eq_some.1 hr
    exact ⟨rfl, rfl, .paraphrase htype ⟨_, rfl, r, hlive, hid, namesParaphrase hk hs (hne _ rfl)⟩⟩

/-- A mixed compound, filled in. -/
theorem namesMixed (hk : db.Keyed) {f : Id → Option Proposition} {r : CompoundRow}
    {c : BasisCompound} (h : db.mixedOf r = .ok c)
    (hne : ∀ a ∈ c.atoms.map (db.lookups f includeUrls).atom, ∀ s,
      a.entity = .sourceExcerptParaphrase (.entity s) → ∀ i, s.excerpt ≠ .mediaExcerpt (.ref i)) :
    db.NamesMixed r { c with atoms := c.atoms.map (db.lookups f includeUrls).atom } := by
  refine ⟨?_, ?_, fun a ha => ?_⟩
  · obtain ⟨_, -, h⟩ := bind_eq_ok.1 h
    obtain ⟨_, -, h⟩ := bind_eq_ok.1 h
    cases h
    rfl
  · obtain ⟨_, -, h⟩ := bind_eq_ok.1 h
    obtain ⟨_, -, h⟩ := bind_eq_ok.1 h
    cases h
    rfl
  · obtain ⟨b, hb, rfl⟩ := List.mem_map.1 ha
    obtain ⟨ar, har, hab⟩ := (mem_mixedOf h).1 hb
    obtain ⟨har, hcompound⟩ := List.mem_filter.1 (Gather.mem_of_mem_firsts har)
    exact ⟨ar, har, of_decide_eq_true hcompound, namesAtom hk hab (hne _ ha)⟩

/-! ## Justifications -/

/-- **The basis of a justification**, filled in. -/
theorem Fills.namesBasis (hk : db.Keyed) (h : db.Fills includeUrls j x) :
    db.NamesBasis j x.basis := by
  have hexcerpts := h.excerpts
  obtain ⟨y, hjy, hyx⟩ := h.hydrated
  obtain ⟨_, -, _, -, b, hb, _, -, hx⟩ := hydrate_eq_ok.1 hyx
  have hbasis : x.basis = b := by rw [hx]
  rw [← hbasis] at hb
  obtain ⟨type, htype, c, hc, w, hw, m, hm, hy⟩ := basis_of_outline_eq hjy
  rw [hy] at hb
  cases type with
  | propositionCompound =>
    have hxb : x.basis = .propositionCompound (.ofLookup j.basisId c) := (Except.ok.inj hb).symm
    rw [hxb, ← Option.map_id' (x := c)]
    refine .propositionCompound htype (Relation.stands_of_mapM (fun a => a) hc (fun r c hr hrc => ?_)
      fun hnone r hr hid => ?_)
    · obtain ⟨hlive, -, hid⟩ := hk.propositionCompounds.typed?_eq_some.1 hr
      exact ⟨r, hlive, hid, namesCompound hrc⟩
    · rw [basisProposition?, hk.propositionCompounds.typed?_eq_some.2 ⟨hr, htype, hid⟩] at hnone
      cases hnone
  | writQuote =>
    have hxb : x.basis = .writQuote
        (.ofLookup j.basisId (w.map (db.lookups db.proposition? includeUrls).quote)) := by
      cases w <;> exact (Except.ok.inj hb).symm
    rw [hxb]
    refine .writQuote htype (stands_quote hw (fun q => ?_) _ fun _ _ hq => hq.quote)
    rw [basisQuote?, hk.writQuotes.typed?_eq_some]
    exact and_congr_right fun _ => and_iff_right htype
  | mediaExcerpt =>
    obtain ⟨e, he, hxb⟩ := map_eq_ok.1 hb
    rw [← hxb]
    exact .mediaExcerpt htype (atHand_excerpt (required_eq_ok.1 he))
  | justificationBasisCompound =>
    have hxb : x.basis = .justificationBasisCompound (.ofLookup j.basisId (m.map fun c =>
        { c with atoms := c.atoms.map (db.lookups db.proposition? includeUrls).atom })) := by
      cases m <;> exact (Except.ok.inj hb).symm
    rw [hxb]
    refine .mixed htype (Relation.stands_of_mapM _ hm (fun r c hr hrc => ?_)
      fun hnone r hr hid => ?_)
    · obtain ⟨hlive, -, hid⟩ := hk.basisCompounds.typed?_eq_some.1 hr
      rw [(some_of_mapM hm).2 ⟨r, hr, hrc⟩] at hxb
      exact ⟨r, hlive, hid, namesMixed hk hrc fun a ha s hs => hexcerpts s ⟨_, hxb, a, ha, hs⟩⟩
    · rw [basisMixed?, hk.basisCompounds.typed?_eq_some.2 ⟨hr, htype, hid⟩] at hnone
      cases hnone

theorem Fills.namesRoot (hk : db.Keyed) (h : db.Fills includeUrls j x) :
    db.NamesRoot j x.rootTarget := by
  obtain ⟨y, hjy, hyx⟩ := h.hydrated
  obtain ⟨_, -, t, ht, _, -, _, -, hx⟩ := hydrate_eq_ok.1 hyx
  obtain ⟨htype, hid⟩ := rootTarget_of_outline hjy
  rw [hx]
  cases hroot : y.rootTarget with
  | proposition p =>
    rw [hroot] at ht htype hid
    obtain ⟨p', hp, rfl⟩ := map_eq_ok.1 ht
    obtain ⟨a, ha, rfl⟩ := proposition_eq_ok.1 hp
    exact .proposition htype.symm (hid ▸ atHand_proposition ha)
  | statement s =>
    rw [hroot] at ht htype hid
    obtain ⟨s', hs, rfl⟩ := map_eq_ok.1 ht
    obtain ⟨a, ha, rfl⟩ := statement_eq_ok.1 hs
    exact .statement htype.symm (hid ▸ atHand_statement hk ha)

theorem Fills.namesTarget (hk : db.Keyed) (h : db.Fills includeUrls j x) :
    db.NamesTarget j x.target := by
  obtain ⟨y, hjy, hyx⟩ := h.hydrated
  obtain ⟨t, ht, _, -, _, -, _, -, hx⟩ := hydrate_eq_ok.1 hyx
  obtain ⟨htype, hid⟩ := target_of_outline hjy
  rw [hx]
  rcases target_eq_ok ht with ⟨p, a, hy, ha, rfl⟩ | ⟨s, a, hy, ha, rfl⟩ | ⟨r, hy, rfl⟩
  · rw [hy] at htype hid
    exact .proposition htype.symm (hid ▸ atHand_proposition ha)
  · rw [hy] at htype hid
    exact .statement htype.symm (hid ▸ atHand_statement hk ha)
  · rw [hy] at htype hid
    exact .justification htype.symm hid

/-- **A justification that was filled in shows what its row names.** -/
theorem Fills.names (hk : db.Keyed) (h : db.Fills includeUrls j x) :
    db.NamesJustification j x := by
  refine ⟨h.id, ?_, h.namesRoot hk, h.namesTarget hk, h.namesBasis hk⟩
  obtain ⟨y, hjy, hyx⟩ := h.hydrated
  obtain ⟨_, -, _, -, _, -, c, hc, hx⟩ := hydrate_eq_ok.1 hyx
  obtain ⟨u, hu, rfl⟩ := creator_eq_ok.1 hc
  have hcreator : y.creator.id (·.id) = j.creatorId :=
    congrArg JustificationRow.creatorId (row_of_outline hjy)
  rw [hx]
  exact hcreator ▸ atHand_user hu

/-- It does so with a target nested in it. -/
theorem Presents.names (hk : db.Keyed) (h : db.Presents includeUrls j x) :
    db.NamesJustification j x := by
  obtain ⟨y, hy, hxy, htarget⟩ := h
  have hnames := hy.names hk
  rw [hxy]
  refine ⟨hnames.id, hnames.creator, hnames.rootTarget, ?_, hnames.basis⟩
  rcases htarget with htarget | ⟨t, htarget, hj⟩
  · show db.NamesTarget j x.target
    rw [htarget]
    exact hnames.target
  · obtain ⟨htype, hid⟩ := JustificationRow.targetId?_eq_some.1 hj
    show db.NamesTarget j x.target
    rw [htarget]
    exact .justification htype hid.symm

end Store

/-! ## What is read -/

variable {db : Store} {ch : Chance} {r : Request} {out : List Justification} {x y : Justification}

/-- **What is at hand and what stays an id.**  All that a page includes, at any
    depth, is a live justification, and it shows what the row names: as an
    entity where that must be there or is live, and with the id of the row. -/
theorem references_of_read (hk : db.Keyed) (h : (db.read ch r).result = .ok out) (hx : x ∈ out)
    (hy : x.Includes y) : ∃ j ∈ db.justifications.live, db.NamesJustification j y := by
  obtain ⟨j, hj, hjx⟩ := exists_sketched hk h hx
  obtain ⟨k, hk', hky⟩ := hjx.exists_presents hj hy
  exact ⟨k, hk', hky.names hk⟩

/-- A justification of a statement of a deleted proposition, on a live quote of a
    deleted writ: the statement is at hand, and what it says and the quote stay
    ids. -/
theorem references_of_read_inquiry : Store.inquiry.Keyed ∧
    ∃ x, (Store.inquiry.read (.level .backwards) (oneRequest 3)).result = .ok [x] ∧ x.Includes x ∧
      x.basis = .writQuote (.ref 2) ∧
      ∃ s, x.rootTarget = .statement (.entity s) ∧ s.sentence = .proposition (.ref 3) := by
  have hk := Store.wellFormed_inquiry.keyed
  obtain ⟨x, hx, hid⟩ := exists_single_of_live (i := 3) Store.wellFormed_inquiry
    Store.small_inquiry (.level .backwards) (by decide)
  obtain ⟨j, hj, hnames⟩ := references_of_read hk hx (List.mem_singleton.2 rfl) (.self x)
  obtain ⟨hbasisType, hbasisId, hrootType, hrootId⟩ :=
    (by decide : ∀ j ∈ Store.inquiry.justifications.live, j.id = 3 →
      j.basisType = "WRIT_QUOTE" ∧ j.basisId = 2 ∧ j.rootTargetType = "STATEMENT" ∧
        j.rootTargetId = 1) j hj (hnames.id.symm.trans hid)
  refine ⟨hk, x, hx, .self x, ?_, ?_⟩
  · have hbasis := hnames.basis
    generalize x.basis = b at hbasis
    cases hbasis with
    | writQuote _ hw =>
      rw [hbasisId] at hw
      rw [hw.eq_ref (by decide +kernel)]
    | propositionCompound htype | mediaExcerpt htype | mixed htype =>
      exact absurd (hbasisType.symm.trans htype) (by decide)
  · have hroot := hnames.rootTarget
    generalize x.rootTarget = t at hroot
    cases hroot with
    | proposition htype => exact absurd (hrootType.symm.trans htype) (by decide)
    | statement _ hs =>
      obtain ⟨s, rfl, row, hrow, -, hstatement⟩ := hs
      obtain ⟨hsentenceType, hsentenceId⟩ :=
        (by decide : ∀ row ∈ Store.inquiry.statements.live,
          row.sentenceType = "PROPOSITION" ∧ row.sentenceId = 3) row hrow
      refine ⟨s, rfl, ?_⟩
      have hsentence := hstatement.sentence
      generalize s.sentence = n at hsentence
      cases hsentence with
      | statement htype => exact absurd (hsentenceType.symm.trans htype) (by decide)
      | proposition _ hp =>
        rw [hsentenceId] at hp
        rw [hp.eq_ref (by decide)]

end Rationale
