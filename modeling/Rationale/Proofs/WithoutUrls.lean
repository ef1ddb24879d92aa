/-
  Rationale — asking for URLs adds URLs, and nothing else.

  `withoutUrls` takes the URLs away from all quotes: from those that are a
  basis and those that are paraphrased by an atom of one, in a justification,
  in what it targets and in what counters it.  Rows tell of no URLs, so these
  come in only where quotes are filled in, and nothing after that looks at
  them.  So each step of a read goes with `withoutUrls`.

  * `plain_of_reconstruct`: rows tell of no URLs;
  * `Lookups.hydrate_withoutUrls`, `Lookups.nest_withoutUrls`,
    `Index.assemble_withoutUrls`: filling in goes with it, and so do nesting
    and assembling;
  * `readAt_withoutUrls`: a page that was not asked for URLs is the page with
    URLs, without them, faults and warnings included, unless the database refuses
    a statement about URLs;
  * `read_withoutUrls`: the same of two reads that hash compounds in different
    orders;
  * `read_crowded_refused`: a page that can only be read without its URLs.
-/
import Rationale.Proofs.Hashing
import Rationale.Proofs.QuoteUrls
import Rationale.Proofs.Refusals

namespace Rationale

open Query Sql

/-! ## Taking URLs away -/

def WritQuote.withoutUrls (w : WritQuote) : WritQuote :=
  { w with urls := none }

namespace SourceExcerpt

def withoutUrls : SourceExcerpt → SourceExcerpt
  | writQuote (.entity w) => writQuote (.entity w.withoutUrls)
  | e => e

/-- The quote at hand, if it is one. -/
def quotes : SourceExcerpt → List WritQuote
  | writQuote (.entity w) => [w]
  | _ => []

end SourceExcerpt

namespace BasisAtom

def withoutUrls (a : BasisAtom) : BasisAtom :=
  match a.entity with
  | .sourceExcerptParaphrase (.entity p) =>
    { a with
      entity := .sourceExcerptParaphrase (.entity { p with excerpt := p.excerpt.withoutUrls }) }
  | _ => a

/-- The quote that is paraphrased, if it is at hand. -/
def quotes (a : BasisAtom) : List WritQuote :=
  match a.entity with
  | .sourceExcerptParaphrase (.entity p) => p.excerpt.quotes
  | _ => []

end BasisAtom

namespace Basis

def withoutUrls : Basis → Basis
  | writQuote (.entity w) => writQuote (.entity w.withoutUrls)
  | justificationBasisCompound (.entity c) =>
    justificationBasisCompound (.entity { c with atoms := c.atoms.map BasisAtom.withoutUrls })
  | b => b

/-- All quotes at hand. -/
def quotes : Basis → List WritQuote
  | writQuote (.entity w) => [w]
  | justificationBasisCompound (.entity c) => c.atoms.flatMap BasisAtom.quotes
  | _ => []

end Basis

/-- The target, with a justification that is at hand replaced. -/
def TargetOf.mapEntity (f : Justification → Justification) : Target → Target
  | .justification (.entity t) => .justification (.entity (f t))
  | t => t

namespace Justification

def withoutUrls : Justification → Justification
  | ⟨id, rootTarget, rootPolarity, target, basis, polarity, creator, created, counters⟩ =>
    { id, rootTarget, rootPolarity
      target :=
        match target with
        | .justification (.entity t) => .justification (.entity t.withoutUrls)
        | .justification (.ref i) => .justification (.ref i)
        | .proposition p => .proposition p
        | .statement s => .statement s
      basis := basis.withoutUrls
      polarity, creator, created
      counters := counters.attach.map fun ⟨c, _⟩ => c.withoutUrls }
termination_by j => sizeOf j

theorem withoutUrls_eq (x : Justification) :
    x.withoutUrls = {
      x with
      target := x.target.mapEntity withoutUrls
      basis := x.basis.withoutUrls
      counters := x.counters.map withoutUrls } := by
  rcases x with ⟨_, _, _, _ | _ | (_ | _), _, _, _, _, _⟩ <;> rw [withoutUrls] <;>
    simp only [List.map_attach_eq_pmap, List.pmap_eq_map] <;> rfl

variable (x : Justification)

@[simp]
theorem withoutUrls_id : x.withoutUrls.id = x.id := by
  rw [withoutUrls_eq]

@[simp]
theorem withoutUrls_target : x.withoutUrls.target = x.target.mapEntity withoutUrls := by
  rw [withoutUrls_eq]

@[simp]
theorem withoutUrls_basis : x.withoutUrls.basis = x.basis.withoutUrls := by
  rw [withoutUrls_eq]

@[simp]
theorem withoutUrls_counters : x.withoutUrls.counters = x.counters.map withoutUrls := by
  rw [withoutUrls_eq]

end Justification

/-! ## What is left -/

variable {b : Basis} {a : BasisAtom} {x y : Justification} {l : Lookups} {ix : Index}

theorem BasisAtom.quotes_withoutUrls (a : BasisAtom) :
    a.withoutUrls.quotes = a.quotes.map WritQuote.withoutUrls := by
  rcases a with ⟨_, _ | (⟨_, _, (_ | _) | _⟩ | _), _⟩ <;> rfl

/-- The quotes are still there, without their URLs. -/
theorem Basis.quotes_withoutUrls (b : Basis) :
    b.withoutUrls.quotes = b.quotes.map WritQuote.withoutUrls := by
  rcases b with _ | (_ | _) | _ | (c | _)
  case justificationBasisCompound.entity =>
    simp only [withoutUrls, quotes, List.flatMap_map, List.map_flatMap, BasisAtom.quotes_withoutUrls]
  all_goals rfl

theorem Basis.urls_of_withoutUrls {w : WritQuote} (h : w ∈ b.withoutUrls.quotes) :
    w.urls = none := by
  rw [quotes_withoutUrls] at h
  obtain ⟨w, -, rfl⟩ := List.mem_map.1 h
  rfl

/-- URLs are taken away once. -/
theorem BasisAtom.withoutUrls_withoutUrls (a : BasisAtom) :
    a.withoutUrls.withoutUrls = a.withoutUrls := by
  rcases a with ⟨_, _ | (⟨_, _, (_ | _) | _⟩ | _), _⟩ <;> rfl

theorem Basis.withoutUrls_withoutUrls (b : Basis) : b.withoutUrls.withoutUrls = b.withoutUrls := by
  rcases b with _ | (_ | _) | _ | (c | _)
  case justificationBasisCompound.entity =>
    simp [withoutUrls, Function.comp_def, BasisAtom.withoutUrls_withoutUrls]
  all_goals rfl

theorem Justification.withoutUrls_withoutUrls (x : Justification) :
    x.withoutUrls.withoutUrls = x.withoutUrls := by
  induction x using withoutUrls.induct with
  | case1 id rootTarget rootPolarity target basis polarity creator created counters ht hcs =>
    have htarget : (target.mapEntity withoutUrls).mapEntity withoutUrls =
        target.mapEntity withoutUrls := by
      rcases target with _ | _ | (t | _)
      case justification.entity =>
        exact congrArg (fun u => (TargetOf.justification (.entity u) : Target)) ht
      all_goals rfl
    have hcounters : (counters.map withoutUrls).map withoutUrls = counters.map withoutUrls := by
      rw [List.map_map]
      exact List.map_congr_left hcs
    rw [withoutUrls_eq ⟨id, rootTarget, rootPolarity, target, basis, polarity, creator, created,
      counters⟩, withoutUrls_eq]
    simp only [htarget, hcounters, Basis.withoutUrls_withoutUrls]

/-- What is left includes nothing but what is left of what was included. -/
theorem Justification.exists_of_includes_withoutUrls (h : x.withoutUrls.Includes y) :
    ∃ z, x.Includes z ∧ y = z.withoutUrls := by
  generalize hx : x.withoutUrls = x' at h
  induction h generalizing x with
  | self => exact ⟨x, .self x, hx.symm⟩
  | @target x' t y ht _ ih =>
    subst hx
    rw [withoutUrls_target] at ht
    rcases htarget : x.target with _ | _ | (u | _) <;> rw [htarget] at ht <;> cases ht
    obtain ⟨z, hz, rfl⟩ := ih rfl
    exact ⟨z, .target htarget hz, rfl⟩
  | @counter x' c y hc _ ih =>
    subst hx
    rw [withoutUrls_counters] at hc
    obtain ⟨d, hd, rfl⟩ := List.mem_map.1 hc
    obtain ⟨z, hz, rfl⟩ := ih rfl
    exact ⟨z, .counter hd hz, rfl⟩

/-! ## What rows tell -/

/-- No quote has URLs, and no other justification is at hand. -/
structure Justification.Plain (x : Justification) : Prop where
  target : ∀ t, x.target ≠ .justification (.entity t)
  counters : x.counters = []
  basis : x.basis.withoutUrls = x.basis

theorem JoinedQuote.withoutUrls_of_decode {q : JoinedQuote} {w : WritQuote}
    (h : q.decode = .ok w) : w.withoutUrls = w := by
  obtain ⟨_, -, rfl⟩ := JoinedQuote.decode_eq_ok.1 h
  rfl

theorem JoinedParaphrase.withoutUrls_of_decode {p : JoinedParaphrase} {s : SourceExcerptParaphrase}
    (h : p.decode = .ok s) : s.excerpt.withoutUrls = s.excerpt := by
  obtain ⟨_, -, h⟩ := bind_eq_ok.1 h
  obtain ⟨type, -, h⟩ := bind_eq_ok.1 h
  obtain ⟨quote, hquote, h⟩ := bind_eq_ok.1 h
  cases h
  rcases option_mapM_eq_ok.1 hquote with ⟨-, rfl⟩ | ⟨q, w, -, rfl, hw⟩
  · cases type <;> rfl
  · cases type with
    | writQuote =>
      exact congrArg (fun w => SourceExcerpt.writQuote (.entity w))
        (JoinedQuote.withoutUrls_of_decode hw)
    | mediaExcerpt => rfl

theorem JoinedAtom.withoutUrls_of_decode {j : JoinedAtom} {type : AtomType}
    (h : j.decode type = .ok (some a)) : a.withoutUrls = a := by
  cases type with
  | proposition =>
    rcases option_mapM_eq_ok.1 h with ⟨-, ha⟩ | ⟨p, _, -, ha, hp⟩
    · cases ha
    · cases ha
      obtain ⟨_, -, hp⟩ := bind_eq_ok.1 hp
      cases hp
      rfl
  | sourceExcerptParaphrase =>
    rcases option_mapM_eq_ok.1 h with ⟨-, ha⟩ | ⟨p, _, -, ha, hp⟩
    · cases ha
    · cases ha
      obtain ⟨s, hs, hp⟩ := bind_eq_ok.1 hp
      cases hp
      have hexcerpt := JoinedParaphrase.withoutUrls_of_decode hs
      simp only [BasisAtom.withoutUrls, hexcerpt]

namespace Gathered

variable {g : Gathered} {rows : List JoinedRow}

theorem withoutUrls_of_quote (h : ToldBy rows {} g) {w : WritQuote} (hw : w ∈ g.quotes) :
    w.withoutUrls = w := by
  rcases Gather.exists_of_mem_gather h.quotes hw with hw | ⟨q, -, hq⟩
  · cases hw
  · obtain ⟨w, hw, hqw⟩ := map_eq_ok.1 hq
    cases hqw
    exact JoinedQuote.withoutUrls_of_decode hw

theorem withoutUrls_of_mixedAtom (h : ToldBy rows {} g) {m : GatheredAtom}
    (hm : m ∈ g.mixedAtoms) : m.atom.withoutUrls = m.atom := by
  rcases Gather.exists_of_mem_gather h.mixedAtoms hm with hm | ⟨a, -, ha⟩
  · cases hm
  · obtain ⟨type, -, atom, hatom, hm⟩ := decodeMixedAtom_eq_ok.1 ha
    obtain ⟨b, rfl, rfl⟩ := Option.map_eq_some_iff.1 hm.symm
    exact JoinedAtom.withoutUrls_of_decode hatom

theorem withoutUrls_of_mixedCompound (h : ToldBy rows {} g) {r : CompoundRow} {c : BasisCompound}
    (hc : g.mixedCompound r = .ok c) : c.atoms.map BasisAtom.withoutUrls = c.atoms := by
  obtain ⟨_, -, hc⟩ := bind_eq_ok.1 hc
  cases hc
  refine (List.map_congr_left fun a ha => ?_).trans (List.map_id _)
  rw [List.mem_mergeSort] at ha
  obtain ⟨m, hm, rfl⟩ := List.mem_map.1 ha
  exact withoutUrls_of_mixedAtom h (List.mem_filter.1 hm).1

end Gathered

/-- A basis has no URLs if nothing that is at hand has any. -/
theorem Basis.withoutUrls_resolve {bs : BasisLookups}
    (hquotes : ∀ i, ∀ w ∈ bs.writQuotes i, w.withoutUrls = w)
    (hmixed : ∀ i, ∀ c ∈ bs.basisCompounds i, c.atoms.map BasisAtom.withoutUrls = c.atoms)
    (type : BasisType) (i : Id) : (resolve bs type i).withoutUrls = resolve bs type i := by
  cases type with
  | propositionCompound | mediaExcerpt => rfl
  | writQuote =>
    cases hw : bs.writQuotes i with
    | none => simp [resolve, hw, Relation.ofLookup, withoutUrls]
    | some w => simp [resolve, hw, Relation.ofLookup, withoutUrls, hquotes i w hw]
  | justificationBasisCompound =>
    cases hc : bs.basisCompounds i with
    | none => simp [resolve, hc, Relation.ofLookup, withoutUrls]
    | some c => simp [resolve, hc, Relation.ofLookup, withoutUrls, hmixed i c hc]

/-- **Rows tell of no URLs.** -/
theorem plain_of_reconstruct {η : Hashing} {rows : List JoinedRow} {xs : List Justification}
    (h : reconstruct η rows = .ok xs) (hx : x ∈ xs) : x.Plain := by
  obtain ⟨g, hg, hfinish⟩ := reconstruct_eq_ok.1 h
  obtain ⟨compounds, -, mixed, hmixed, rfl⟩ :=
    (Gathered.finish_eq_ok (Gathered.once_of_toldBy hg)).1 hfinish
  obtain ⟨y, hy, rfl⟩ := List.mem_map.1 hx
  obtain ⟨r, hr⟩ : ∃ r : JustificationRow, r.decode = .ok y := by
    rcases Gather.exists_of_mem_gather hg.justifications hy with hy | ⟨r, -, hr⟩
    · cases hy
    · obtain ⟨y, hy, hry⟩ := map_eq_ok.1 hr
      cases hry
      exact ⟨r, hy⟩
  obtain ⟨_, _, type, _, _, _, -, -, -, -, -, -, rfl⟩ := JustificationRow.decode_eq_ok.1 hr
  refine { target := ?_, counters := rfl, basis := Basis.withoutUrls_resolve ?_ ?_ _ _ }
  · cases type <;> simp [TargetOf.resolve, Relation.ofLookup]
  · exact fun i w hw => Gathered.withoutUrls_of_quote hg (List.mem_of_find?_eq_some hw)
  · intro i c hc
    obtain ⟨m, -, hm⟩ := exists_of_mem_mapM hmixed (List.mem_of_find?_eq_some hc)
    exact Gathered.withoutUrls_of_mixedCompound hg hm

/-! ## Filling in -/

namespace Lookups

/-- The same lookups, where URLs were not asked for. -/
def withoutUrls (l : Lookups) : Lookups :=
  { l with writQuoteUrls := none }

theorem withoutUrls_quote (w : WritQuote) :
    (l.quote w).withoutUrls = w.withoutUrls := by
  unfold quote
  split <;> rfl

theorem withoutUrls_excerpt {e : SourceExcerpt} (h : e.withoutUrls = e) :
    (l.excerpt e).withoutUrls = l.excerpt e := by
  rcases e with _ | (_ | i)
  case mediaExcerpt.ref => cases hi : l.mediaExcerpts i <;> simp [excerpt, hi, Relation.ofLookup,
    SourceExcerpt.withoutUrls]
  all_goals exact h

theorem withoutUrls_atom (h : a.withoutUrls = a) : (l.atom a).withoutUrls = l.atom a := by
  rcases a with ⟨_, _ | (p | _), _⟩
  case sourceExcerptParaphrase.entity =>
    have hexcerpt : p.excerpt.withoutUrls = p.excerpt := by
      obtain ⟨_, _, excerpt⟩ := p
      simpa [BasisAtom.withoutUrls] using h
    simp only [atom, BasisAtom.withoutUrls, withoutUrls_excerpt hexcerpt]
  all_goals rfl

theorem basis_withoutUrls (h : b.withoutUrls = b) :
    l.withoutUrls.basis b = Basis.withoutUrls <$> l.basis b := by
  rcases b with _ | (w | _) | (_ | i) | (c | _)
  case writQuote.entity =>
    have hw : w.withoutUrls = w := by simpa [Basis.withoutUrls] using h
    show Except.ok (Basis.writQuote (.entity w)) =
      .ok (.writQuote (.entity (l.quote w).withoutUrls))
    rw [withoutUrls_quote, hw]
  case mediaExcerpt.ref =>
    simp only [basis, withoutUrls]
    cases l.mediaExcerpts i <;> rfl
  case justificationBasisCompound.entity =>
    have hatoms : c.atoms.map BasisAtom.withoutUrls = c.atoms := by
      simp only [Basis.withoutUrls, Basis.justificationBasisCompound.injEq,
        Relation.entity.injEq] at h
      exact congrArg BasisCompound.atoms h
    have hmap :
        (c.atoms.map l.atom).map BasisAtom.withoutUrls = c.atoms.map l.withoutUrls.atom := by
      rw [List.map_map]
      refine List.map_congr_left fun a ha => withoutUrls_atom ?_
      exact List.map_inj_left.1 (hatoms.trans (List.map_id _).symm) a ha
    show Except.ok (Basis.justificationBasisCompound _) = .ok (.justificationBasisCompound _)
    rw [hmap]
  all_goals rfl

theorem target_withoutUrls {t : Target} (h : ∀ u, t ≠ .justification (.entity u)) :
    l.withoutUrls.target t = TargetOf.mapEntity Justification.withoutUrls <$> l.target t := by
  rcases t with p | s | (u | _)
  case justification.entity => exact absurd rfl (h u)
  case proposition =>
    show TargetOf.proposition <$> l.proposition p = _ <$> TargetOf.proposition <$> l.proposition p
    cases l.proposition p <;> rfl
  case statement =>
    show TargetOf.statement <$> l.statement s = _ <$> TargetOf.statement <$> l.statement s
    cases l.statement s <;> rfl
  all_goals rfl

/-- **Filling in goes with taking URLs away.** -/
theorem hydrate_withoutUrls (hx : x.Plain) :
    l.withoutUrls.hydrate x = Justification.withoutUrls <$> l.hydrate x := by
  simp only [hydrate, basis_withoutUrls hx.basis, target_withoutUrls hx.target, map_bind,
    bind_map_left, map_pure, Justification.withoutUrls_eq, hx.counters]
  rfl

/-! ## Checking and nesting -/

section

open Justification

theorem polarityWarnings_withoutUrls (x : Justification) :
    x.withoutUrls.polarityWarnings = x.polarityWarnings := by
  have hviolation : x.withoutUrls.polarityViolation = x.polarityViolation := by
    rw [withoutUrls_eq]
    rcases x with ⟨_, _, _, _ | _ | (t | _), _, _, _, _, _⟩
    case justification.entity =>
      simp only [polarityViolation, TargetOf.mapEntity]
      rw [withoutUrls_eq t]
    all_goals rfl
  rw [polarityWarnings, hviolation, withoutUrls_eq]
  rfl

theorem chain_withoutUrls (x : Justification) :
    x.withoutUrls.chain = x.chain.map Justification.withoutUrls := by
  fun_induction chain x with
  | case1 _ _ _ t _ _ _ _ _ ih =>
    rw [chain_eq, withoutUrls_target]
    exact congrArg (List.cons _) ih
  | case2 x hx =>
    rw [chain_eq, withoutUrls_target]
    rcases x with ⟨_, _, _, _ | _ | (t | _), _, _, _, _, _⟩
    case justification.entity => exact absurd rfl (hx _ _ _ _ _ _ _ _ _)
    all_goals rfl

theorem reachedExcerpt?_withoutUrls (x : Justification) :
    x.withoutUrls.reachedExcerpt? = x.reachedExcerpt? := by
  rw [reachedExcerpt?, reachedExcerpt?, chain_withoutUrls, List.findSome?_map]
  congr 1
  funext y
  rw [Function.comp_apply, withoutUrls_eq]
  rcases y with ⟨_, _, _, _, _ | (_ | _) | (_ | _) | (_ | _), _, _, _, _⟩ <;> rfl

/-- Checking sees no URLs. -/
theorem checked_withoutUrls (x : Justification) :
    l.withoutUrls.checked x.withoutUrls = Justification.withoutUrls <$> l.checked x := by
  have hreaches : ∀ e, l.withoutUrls.reaches x.withoutUrls e = l.reaches x e := fun e => by
    rw [reaches, reaches, reachedExcerpt?_withoutUrls]
    rfl
  have hshared : l.withoutUrls.sharedExcerpt? x.id = l.sharedExcerpt? x.id := rfl
  simp only [checked, hshared, hreaches, polarityWarnings_withoutUrls, withoutUrls_id]
  cases l.sharedExcerpt? x.id with
  | none => simp only [map_bind, map_pure]
  | some e =>
    dsimp only
    split <;> simp only [map_bind, map_pure]

end

/-- **Nesting goes with taking URLs away.** -/
theorem nest_withoutUrls (x : Justification) (ts : List Justification) :
    l.withoutUrls.nest x.withoutUrls (ts.map Justification.withoutUrls) =
      Justification.withoutUrls <$> l.nest x ts := by
  induction ts generalizing x with
  | nil => exact checked_withoutUrls x
  | cons t ts ih =>
    have htarget : ∀ u : Justification,
        { x.withoutUrls with target := .justification (.entity u.withoutUrls) } =
          { x with target := .justification (.entity u) : Justification }.withoutUrls := fun u => by
      rw [Justification.withoutUrls_eq x]
      exact (Justification.withoutUrls_eq { x with target := .justification (.entity u) }).symm
    rw [List.map_cons, nest, nest, ih, bind_map_left, map_bind]
    refine bind_congr fun u => ?_
    rw [htarget, checked_withoutUrls]

end Lookups

/-! ## Assembling -/

namespace Index

variable (hix : ∀ x ∈ ix.justifications, x.Plain)

include hix

theorem shell_withoutUrls (i : Id) :
    ix.shell l.withoutUrls i = Justification.withoutUrls <$> ix.shell l i := by
  unfold shell
  cases hx : ix.node? i with
  | none => rfl
  | some x => exact l.hydrate_withoutUrls (hix x (List.mem_of_find?_eq_some hx))

theorem assembleNode_withoutUrls (i : Id) :
    ix.assembleNode l.withoutUrls i = Justification.withoutUrls <$> ix.assembleNode l i := by
  have hpath := mapM_map_eq (l := (ix.targetWalk i).path) fun k _ =>
    shell_withoutUrls (l := l) hix k
  simp only [assembleNode, hpath, Logged.ofExcept_map, bind_map_left, map_bind]
  refine bind_congr fun xs => ?_
  cases xs with
  | nil => rfl
  | cons x xs => simp only [List.map_cons, Lookups.nest_withoutUrls, map_bind]

theorem assembleCounter_withoutUrls (i : Id) :
    ix.assembleCounter l.withoutUrls i = Justification.withoutUrls <$> ix.assembleCounter l i := by
  simp only [assembleCounter, shell_withoutUrls hix, Logged.ofExcept_map, bind_map_left, map_bind,
    map_pure, Lookups.polarityWarnings_withoutUrls]

theorem assembleWithCounters_withoutUrls (i : Id) :
    ix.assembleWithCounters l.withoutUrls i =
      Justification.withoutUrls <$> ix.assembleWithCounters l i := by
  have hcounters := mapM_map_eq (l := ix.countersOf i) fun c _ =>
    assembleCounter_withoutUrls (l := l) hix c.id
  have hwith : ∀ (x : Justification) cs,
      { x.withoutUrls with counters := cs.map Justification.withoutUrls } =
        { x with counters := cs : Justification }.withoutUrls := fun x cs => by
    simp only [Justification.withoutUrls_eq]
  simp only [assembleWithCounters, assembleNode_withoutUrls hix, hcounters, bind_map_left, map_bind,
    map_pure, hwith]

/-- **Assembling goes with taking URLs away.** -/
theorem assemble_withoutUrls :
    ix.assemble l.withoutUrls = List.map Justification.withoutUrls <$> ix.assemble l :=
  mapM_map_eq fun x _ => assembleWithCounters_withoutUrls hix x.id

end Index

/-! ## Lookups -/

section

variable (db : ReadStep → Store) (ps : List Proposition)

/-- The database takes the statements about the URLs of what an index names. -/
def Index.UrlsFit (ix : Index) : Prop :=
  ix.writQuoteIds.length ≤ argumentLimit ∧
    2 * (urlPairs ((urlTables db).findUrls ix.writQuoteIds)).length ≤ argumentLimit

/-- It refuses no other of those that look up URLs. -/
theorem Index.not_urlsFit_of_error {e : Fault}
    (h : writQuoteUrlsAt db ix.writQuoteIds = .error e) : ¬ ix.UrlsFit db := by
  intro hfits
  rw [writQuoteUrlsAt_eq_ok.2 ⟨hfits.1, hfits.2, rfl⟩] at h
  cases h

/-- URLs are looked up after all else. -/
theorem lookupsAt_true (ix : Index) : lookupsAt db ix ps true = do
    let l ← lookupsAt db ix ps false
    let us ← Logged.ofExcept (writQuoteUrlsAt db ix.writQuoteIds)
    return { l with writQuoteUrls := some fun i => (us.lookup i).getD [] } := by
  simp only [lookupsAt, bind_assoc, pure_bind, if_true, Bool.false_eq_true, if_false,
    Logged.ofExcept_ok_bind, Logged.ofExcept_map, bind_map_left]
  rfl

theorem withoutUrls_lookupsAt (ix : Index) :
    Lookups.withoutUrls <$> lookupsAt db ix ps false = lookupsAt db ix ps false := by
  simp only [lookupsAt, map_bind, map_pure]
  rfl

end

/-! ## Reading -/

/-- The second run gives what the first does, without URLs; or else there are too
    many of these, and the first run is refused. -/
def Strips (fits : Prop) (x y : Logged (List Justification)) : Prop :=
  y = List.map Justification.withoutUrls <$> x ∨ ¬ fits ∧ Refused x.result

section

variable {α : Type} {fits : Prop}

/-- It does so after steps that are the same in both. -/
theorem Strips.bind {p : Logged α} {f g : α → Logged (List Justification)}
    (h : ∀ a, p.result = .ok a → Strips fits (f a) (g a)) : Strips fits (p >>= f) (p >>= g) := by
  cases hp : p.result with
  | error e =>
    refine .inl ?_
    rw [map_bind]
    refine Logged.bind_congr fun a ha => ?_
    rw [hp] at ha
    cases ha
  | ok a =>
    rcases h a hp with heq | ⟨hfits, hrefused⟩
    · refine .inl ?_
      rw [map_bind]
      refine Logged.bind_congr fun b hb => ?_
      rw [hp] at hb
      cases hb
      exact heq
    · refine .inr ⟨hfits, ?_⟩
      rwa [Logged.result_bind, hp, ok_bind]

variable {db : ReadStep → Store} {ch : Chance} {r : Request} {includeUrls : Bool}

/-- The flag has no part in what is asked of the page. -/
theorem strips_readAt
    (h : ∀ q, r.compile = .ok q → ∀ ix : Index, pageAt db ch q = .ok ix.page →
      targetsAt db ch q = .ok ix.targets → countersAt db ch q = .ok ix.counters →
      (∀ x ∈ ix.justifications, x.Plain) → ∀ ps, Strips fits
        (lookupsAt db ix ps includeUrls >>= ix.assemble) (lookupsAt db ix ps false >>= ix.assemble)) :
    Strips fits (readAt db ch { r with includeUrls })
      (readAt db ch { r with includeUrls := false }) := by
  change Strips fits (ite (r.effectiveCount = 0) _ _) (ite (r.effectiveCount = 0) _ _)
  split
  · exact .inl rfl
  refine .bind fun q hq => .bind fun page hpage => ?_
  split
  · exact .inl rfl
  refine .bind fun targets htargets => .bind fun counters hcounters => .bind fun ps _ => ?_
  refine h q hq ⟨page, targets, counters⟩ hpage htargets hcounters (fun x hx => ?_) ps
  have hrows : Index.Reconstructed ⟨page, targets, counters⟩ _ _ _ :=
    ⟨⟨_, (Sql.Fragment.send_bind_eq_ok.1 hpage).2⟩, ⟨_, (Sql.Fragment.send_bind_eq_ok.1 htargets).2⟩,
      ⟨_, (Sql.Fragment.send_bind_eq_ok.1 hcounters).2⟩⟩
  obtain ⟨rows, η, xs, hxs, hx⟩ := hrows.exists_rows hx
  exact plain_of_reconstruct hxs hx

/-- A page that was not asked for URLs has none. -/
theorem withoutUrls_readAt :
    readAt db ch { r with includeUrls := false } =
      List.map Justification.withoutUrls <$> readAt db ch { r with includeUrls := false } := by
  have hstrips : Strips True (readAt db ch { r with includeUrls := false })
      (readAt db ch { r with includeUrls := false }) := by
    refine strips_readAt fun q _ ix _ _ _ hix ps => .inl ?_
    rw [map_bind]
    conv_lhs => rw [← withoutUrls_lookupsAt, bind_map_left]
    exact bind_congr fun l => Index.assemble_withoutUrls hix
  exact hstrips.resolve_right fun h => h.1 trivial

variable (db ch r)

/-- The database takes the statements about the URLs of what a page names, if the
    read comes to them. -/
def UrlsFit : Prop :=
  ∀ q, r.compile = .ok q → ∀ ix : Index, pageAt db ch q = .ok ix.page →
    targetsAt db ch q = .ok ix.targets → countersAt db ch q = .ok ix.counters → ix.UrlsFit db

/-- **A page that was not asked for URLs is the page without its URLs**, whatever
    was written between the steps, unless the database refuses to look them up. -/
theorem readAt_withoutUrls :
    Strips (UrlsFit db ch r) (readAt db ch { r with includeUrls := true })
      (readAt db ch { r with includeUrls := false }) := by
  refine strips_readAt fun q hq ix hpage htargets hcounters hix ps => ?_
  rw [lookupsAt_true, bind_assoc]
  refine .bind fun l hl => ?_
  cases hus : writQuoteUrlsAt db ix.writQuoteIds with
  | error e =>
    have hrefused : Refused (writQuoteUrlsAt db ix.writQuoteIds) := by
      have hsound : Sound (writQuoteUrlsAt db ix.writQuoteIds) := by
        rw [writQuoteUrlsAt_eq]
        exact .sent (.sent (sound_ok _))
      refine hsound.resolve_left fun ⟨us, hok⟩ => ?_
      rw [hus] at hok
      cases hok
    refine .inr ⟨fun hfits => ?_, ?_⟩
    · exact Index.not_urlsFit_of_error db hus (hfits q hq ix hpage htargets hcounters)
    · rw [bind_assoc, Logged.result_bind, Logged.result_ofExcept]
      rw [hus] at hrefused
      exact hrefused.bind _
  | ok us =>
    obtain ⟨-, _, -, _, -, _, -, rfl⟩ := lookupsAt_eq_ok.1 hl
    refine .inl ?_
    rw [bind_assoc, Logged.ofExcept_ok_bind, pure_bind, ← Index.assemble_withoutUrls hix]
    rfl

end

/-! ## Two reads -/

/-- Both runs fail, with the same fault or with two that are excused; or they find
    pages that are one and the same when the URLs of all quotes are taken away. -/
inductive SameButUrls (excused : Fault → Fault → Prop) :
    Except Fault (List Justification) → Except Fault (List Justification) → Prop
  | failed {e e' : Fault} : e = e' ∨ excused e e' → SameButUrls excused (.error e) (.error e')
  | found {full bare : List Justification} :
      full.map Justification.withoutUrls = bare.map Justification.withoutUrls →
      SameButUrls excused (.ok full) (.ok bare)

theorem map_withoutUrls_withoutUrls (out : List Justification) :
    (out.map Justification.withoutUrls).map Justification.withoutUrls =
      out.map Justification.withoutUrls := by
  rw [List.map_map]
  exact List.map_congr_left fun x _ => x.withoutUrls_withoutUrls

theorem SameButUrls.of_alike {R : Fault → Fault → Prop} {x y : Except Fault (List Justification)}
    (h : Alike R (List.map Justification.withoutUrls <$> x) y) : SameButUrls R x y := by
  cases x with
  | error e =>
    rcases h with rfl | ⟨_, e', hR, he, rfl⟩
    · exact .failed (.inl rfl)
    · cases he
      exact .failed (.inr hR)
  | ok out =>
    rcases h with rfl | ⟨e, _, -, h, -⟩
    · exact .found (map_withoutUrls_withoutUrls out).symm
    · cases h

/-- **Asking for URLs adds URLs, and nothing else**, or it is refused.  Reads with
    the flag and without it come across rows in the same order, as they send the
    same statements, but each may hash compounds in an order of its own.  Either
    both have the same fault, or different ones about compounds that cannot be
    decoded, or their pages are the same but for URLs; and they give the same
    warnings.  Or the database does not take the statements about URLs, as they
    have too many arguments.  No quote of a page that was not asked for URLs has
    any. -/
theorem read_withoutUrls (db : Store) (found : Use → Rank) (hashed hashed' : Use → Hashing)
    (r : Request) :
    let full := db.read ⟨found, hashed⟩ { r with includeUrls := true }
    let bare := db.read ⟨found, hashed'⟩ { r with includeUrls := false }
    (SameButUrls (fun e e' => hashed ≠ hashed' ∧ db.Garbles e e') full.result bare.result ∧
        full.warnings = bare.warnings ∨
      ¬ UrlsFit (fun _ => db) ⟨found, hashed⟩ r ∧ Refused full.result) ∧
    ∀ out, bare.result = .ok out → out.map Justification.withoutUrls = out ∧
      ∀ x ∈ out, ∀ y, x.Includes y → ∀ w ∈ y.basis.quotes, w.urls = none := by
  intro full bare
  refine ⟨?_, fun out hout => ?_⟩
  · refine (readAt_withoutUrls (fun _ => db) ⟨found, hashed⟩ r).imp_left fun hstrips => ?_
    obtain ⟨hresult, hwarnings⟩ :=
      db.read_alike found hashed hashed' { r with includeUrls := false }
    rw [Store.read, hstrips] at hresult hwarnings
    rw [Logged.result_map] at hresult
    rw [Logged.warnings_map] at hwarnings
    exact ⟨.of_alike hresult, hwarnings⟩
  · have hbare : bare = List.map Justification.withoutUrls <$> bare := withoutUrls_readAt
    rw [hbare, Logged.result_map] at hout
    obtain ⟨out, -, rfl⟩ := map_eq_ok.1 hout
    refine ⟨map_withoutUrls_withoutUrls out, fun x hx y hy w hw => ?_⟩
    obtain ⟨x, -, rfl⟩ := List.mem_map.1 hx
    obtain ⟨z, -, rfl⟩ := Justification.exists_of_includes_withoutUrls hy
    rw [Justification.withoutUrls_basis] at hw
    exact Basis.urls_of_withoutUrls hw

/-! ## Too many URLs -/

namespace Store

/-- A quote at so many URLs. -/
def crowded (n : ℕ) : Store :=
  let ids := (List.range n).map Int64.ofNat
  { sample [⟨.sample 1, none⟩] with
    urls := ids.map fun i => ⟨⟨i, Text.ofInt64 i, "2024-01-01T00:00:00+00:00"⟩, none⟩
    writQuoteUrls := ids.map fun i => ⟨⟨1, i, "2024-01-01T00:00:00+00:00"⟩, none⟩ }

variable {n : ℕ}

theorem nodup_map_ofNat (hn : n < 2 ^ 63) : ((List.range n).map Int64.ofNat).Nodup := by
  refine List.nodup_range.map_on fun k hk m hm h => ?_
  rw [List.mem_range] at hk hm
  have htoInt := congrArg Int64.toInt h
  rw [Int64.toInt_ofNat_of_lt (by omega), Int64.toInt_ofNat_of_lt (by omega)] at htoInt
  exact Int.ofNat_inj.1 htoInt

theorem keyed_crowded (hn : n < 2 ^ 63) : (crowded n).Keyed := by
  have hsample : (sample [⟨.sample 1, none⟩]).Keyed := by constructor <;> decide
  have hids := nodup_map_ofNat hn
  exact { hsample with
    urls := by
      have hmap : (crowded n).urls.rows.map (·.id) = (List.range n).map Int64.ofNat := by
        simp [crowded, Table.rows]
      exact (congrArg List.Nodup hmap).mpr hids
    url_texts := by
      have hmap : (crowded n).urls.rows.map (·.url) =
          ((List.range n).map Int64.ofNat).map Text.ofInt64 := by
        simp [crowded, Table.rows]
      rw [hmap]
      refine hids.map fun i k h => ?_
      have hread := congrArg Text.int64? h
      rw [Text.int64?_text, Text.int64?_text] at hread
      exact Option.some.inj hread
    writQuoteUrls := by
      have hmap : (crowded n).writQuoteUrls.rows.map (fun r => (r.writQuoteId, r.urlId)) =
          ((List.range n).map Int64.ofNat).map (1, ·) := by
        simp [crowded, Table.rows]
      rw [hmap]
      exact hids.map (Prod.mk_right_injective 1) }

theorem length_urlPairs_crowded (hn : n < 2 ^ 63) {quotes : List Id} (h : 1 ∈ quotes) :
    n ≤ (urlPairs ((crowded n).findUrls quotes)).length := by
  have hsub :
      ((List.range n).map Int64.ofNat).map (1, ·) ⊆ urlPairs ((crowded n).findUrls quotes) := by
    intro p hp
    obtain ⟨i, hi, rfl⟩ := List.mem_map.1 hp
    refine mem_urlPairs.2 ⟨h, ⟨i, Text.ofInt64 i⟩, (mem_urlsOf (keyed_crowded hn)).2 ?_, rfl⟩
    exact ⟨⟨1, i, "2024-01-01T00:00:00+00:00"⟩, Table.mem_live.2 (List.mem_map_of_mem hi), rfl,
      ⟨i, Text.ofInt64 i, "2024-01-01T00:00:00+00:00"⟩,
      Table.mem_live.2 (List.mem_map_of_mem hi), rfl, rfl⟩
  have hle := (((nodup_map_ofNat hn).map (Prod.mk_right_injective 1)).subperm hsub).length_le
  simpa using hle

/-- Its only justification rests on the quote. -/
theorem outline_crowded : ∃ x, (crowded n).outline (.sample 1) = .ok x ∧
    (match x.basis with
    | .writQuote (.entity q) => some q.id
    | _ => none) = some 1 := by
  -- the URLs have no part in it
  have houtline : ((sample [⟨.sample 1, none⟩]).outline (.sample 1)).toOption.bind (fun x =>
      match x.basis with
      | .writQuote (.entity q) => some q.id
      | _ => none) = some 1 := by decide +kernel
  obtain ⟨x, hx, hid⟩ := Option.bind_eq_some_iff.1 houtline
  exact ⟨x, toOption_eq_some.1 hx, hid⟩

/-- The read with URLs does not come to its end if there are too many. -/
theorem read_crowded_ne_ok (hn : n < 2 ^ 63) (hmany : argumentLimit < 2 * n) {ch : Chance}
    {out : List Justification} : ((crowded n).read ch (oneWithUrls 1)).result ≠ .ok out := by
  intro hout
  have hk := keyed_crowded hn
  obtain ⟨q, hq, hread⟩ := (read_eq_ok hk (by decide)).1 hout
  have hcandidates : (crowded n).candidates (q.use ch .page) = [.sample 1] :=
    candidates_one hk hq ch .page
  rcases hread with ⟨-, he, -⟩ | ⟨-, ix, l, h⟩
  · rw [hcandidates] at he
    cases he
  obtain ⟨ps, -, hl⟩ := h.lookups
  have hfits := (lookupsAt_eq_ok.1 hl).1.urls rfl
  obtain ⟨x, hx, hid⟩ := outline_crowded (n := n)
  have hlisted : .sample 1 ∈ IndexOf.listed (crowded n) ch q := by
    refine List.mem_append_left _ (List.mem_append_left _ ((mem_page hk).2 ?_))
    rw [hcandidates]
    exact List.mem_singleton.2 rfl
  have hmem : 1 ∈ ix.writQuoteIds := by
    rw [Index.writQuoteIds, mem_ascending, List.mem_filterMap]
    exact ⟨x, h.index.mem_nodes_of_listed hk hlisted hx, hid⟩
  have hlength := length_urlPairs_crowded hn hmem
  simp only [urlTables_const] at hfits
  omega

end Store

/-- What is asked for is found, but not with its URLs. -/
theorem read_crowded_refused : let ch := Chance.level .asStored
    (Store.crowded 16384).Keyed ∧
    (∃ x, ((Store.crowded 16384).read ch (Store.oneRequest 1)).result = .ok [x] ∧ x.id = 1) ∧
    Refused ((Store.crowded 16384).read ch (oneWithUrls 1)).result := by
  intro ch
  have hfound : ∃ x, ((Store.crowded 16384).read ch (Store.oneRequest 1)).result = .ok [x] ∧
      x.id = 1 := exists_single_of_ids (by decide +kernel)
  refine ⟨Store.keyed_crowded (by omega), hfound, ?_⟩
  obtain ⟨x, hx, -⟩ := hfound
  rcases readAt_withoutUrls (fun _ => Store.crowded 16384) ch (Store.oneRequest 1) with
    hstrips | hrefused
  · -- the page with its URLs would have to be there as well
    have hresult := congrArg Logged.result hstrips
    rw [Logged.result_map] at hresult
    obtain ⟨out, hout, -⟩ := map_eq_ok.1 (hresult.symm.trans hx)
    exact absurd hout (Store.read_crowded_ne_ok (by omega) (by decide))
  · exact hrefused.2

end Rationale
