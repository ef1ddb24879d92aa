/-
  Rationale — what the faults of a read are about.

  A fault is internal unless it says that there is no entity with some id.
  Decoding, looking up and assembling have internal faults only: what is
  missing there is a breach of integrity, since it was named by a row.

  * `internal_reconstruct`, `internal_lookupsAt`, `internal_assemble`: the
    faults of the parts of a read;
  * `internal_read`: a read of an accepted request has internal faults only.
-/
import Rationale.Proofs.Reading

namespace Rationale

open Query

variable {α β : Type}

/-- The run does not end because there is no entity with some id. -/
structure Internal (x : Except Fault α) : Prop where
  ne : ∀ kind i, x ≠ .error (.noEntity kind i)

/-! ## Runs -/

theorem internal_ok (a : α) : Internal (.ok a) :=
  ⟨fun _ _ h => nomatch h⟩

theorem internal_bind {x : Except Fault α} {f : α → Except Fault β} (hx : Internal x)
    (hf : ∀ a, Internal (f a)) : Internal (x >>= f) := by
  cases x with
  | error e => exact ⟨fun kind i h => hx.ne kind i (by cases h; rfl)⟩
  | ok a => exact hf a

theorem internal_map {x : Except Fault α} {f : α → β} (hx : Internal x) : Internal (f <$> x) := by
  cases x with
  | error e => exact ⟨fun kind i h => hx.ne kind i (by cases h; rfl)⟩
  | ok a => exact internal_ok (f a)

theorem internal_mapM {f : α → Except Fault β} (l : List α) (hf : ∀ a ∈ l, Internal (f a)) :
    Internal (l.mapM f) := by
  induction l with
  | nil => exact internal_ok []
  | cons a l ih =>
    rw [List.mapM_cons]
    refine internal_bind (hf a (by simp)) fun b => ?_
    exact internal_bind (ih fun c hc => hf c (by simp [hc])) fun bs => internal_ok _

theorem internal_option_mapM {f : α → Except Fault β} (o : Option α) (hf : ∀ a, Internal (f a)) :
    Internal (o.mapM f) := by
  cases o with
  | none => exact internal_ok none
  | some a =>
    rw [Option.mapM_some]
    exact internal_map (hf a)

theorem internal_foldlM {f : β → α → Except Fault β} (hf : ∀ b a, Internal (f b a)) (l : List α)
    (b : β) : Internal (l.foldlM f b) := by
  induction l generalizing b with
  | nil => exact internal_ok b
  | cons a l ih =>
    rw [List.foldlM_cons]
    exact internal_bind (hf b a) ih

/-! ## Decoding -/

theorem internal_decode [Coded α] (s : String) : Internal (Coded.decode s : Except Fault α) := by
  unfold Coded.decode
  split <;> exact ⟨fun _ _ h => nomatch h⟩

theorem internal_instant (s : String) : Internal (Time.Instant.decode s) := by
  unfold Time.Instant.decode
  split <;> exact ⟨fun _ _ h => nomatch h⟩

theorem internal_proposition (r : PropositionRow) : Internal r.decode :=
  internal_bind (internal_instant _) fun _ => internal_ok _

theorem internal_quote (q : JoinedQuote) : Internal q.decode :=
  internal_bind (internal_instant _) fun _ => internal_ok _

theorem internal_paraphrase (p : JoinedParaphrase) : Internal p.decode := by
  refine internal_bind (internal_option_mapM _ internal_proposition) fun _ => ?_
  refine internal_bind (internal_decode _) fun _ => ?_
  exact internal_bind (internal_option_mapM _ internal_quote) fun _ => internal_ok _

theorem internal_atom (a : JoinedAtom) (type : AtomType) : Internal (a.decode type) := by
  cases type with
  | proposition =>
    refine internal_option_mapM _ fun p => ?_
    exact internal_bind (internal_proposition p) fun _ => internal_ok _
  | sourceExcerptParaphrase =>
    refine internal_option_mapM _ fun p => ?_
    exact internal_bind (internal_paraphrase p) fun _ => internal_ok _

theorem internal_justification (r : JustificationRow) : Internal r.decode := by
  refine internal_bind (internal_decode _) fun _ => ?_
  refine internal_bind (internal_decode _) fun _ => ?_
  refine internal_bind (internal_decode _) fun _ => ?_
  refine internal_bind (internal_decode _) fun _ => ?_
  refine internal_bind (internal_decode _) fun _ => ?_
  exact internal_bind (internal_instant _) fun _ => internal_ok _

/-! ## Reconstruction -/

namespace Gathered

theorem internal_addJustification (g : Gathered) (r : JustificationRow) :
    Internal (g.addJustification r) := by
  unfold addJustification
  split
  · exact internal_ok g
  · exact internal_bind (internal_justification r) fun _ => internal_ok _

theorem internal_addCompoundAtom (g : Gathered) (i : Id) (position : Int64) (r : PropositionRow) :
    Internal (g.addCompoundAtom i position r) := by
  unfold addCompoundAtom
  split
  · exact internal_ok g
  · exact internal_bind (internal_proposition r) fun _ => internal_ok _

theorem internal_addQuote (g : Gathered) (q : JoinedQuote) : Internal (g.addQuote q) := by
  unfold addQuote
  split
  · exact internal_ok g
  · exact internal_bind (internal_quote q) fun _ => internal_ok _

theorem internal_addMixedAtom (g : Gathered) (i : Id) (a : JoinedAtom) :
    Internal (g.addMixedAtom i a) := by
  refine internal_bind (internal_decode a.entityType) fun type => ?_
  split
  · exact internal_ok g
  · refine internal_bind (internal_atom a type) fun o => ?_
    cases o <;> exact internal_ok _

theorem internal_addCompoundOf (g : Gathered) (r : JoinedRow) : Internal (g.addCompoundOf r) := by
  unfold addCompoundOf
  split
  · exact internal_ok g
  · exact internal_ok _
  · exact internal_addCompoundAtom ..

theorem internal_addMixedOf (g : Gathered) (r : JoinedRow) : Internal (g.addMixedOf r) := by
  unfold addMixedOf
  split
  · exact internal_ok g
  · exact internal_ok _
  · exact internal_addMixedAtom ..

theorem internal_add (g : Gathered) (r : JoinedRow) : Internal (g.add r) := by
  refine internal_bind (internal_addJustification g _) fun g => ?_
  refine internal_bind (internal_addCompoundOf g r) fun g => ?_
  split
  · exact internal_addMixedOf g r
  · exact internal_bind (internal_addQuote g _) fun g => internal_addMixedOf g r

theorem internal_finish (η : Hashing) (g : Gathered) : Internal (g.finish η) := by
  refine internal_bind (internal_mapM _ fun c _ => ?_) fun _ => ?_
  · exact internal_bind (internal_instant _) fun _ => internal_ok _
  · refine internal_bind (internal_mapM _ fun c _ => ?_) fun _ => internal_ok _
    exact internal_bind (internal_instant _) fun _ => internal_ok _

end Gathered

theorem internal_reconstruct (η : Hashing) (rows : List JoinedRow) :
    Internal (reconstruct η rows) :=
  internal_bind (internal_foldlM Gathered.internal_add rows {}) (Gathered.internal_finish η)

/-! ## Lookups -/

namespace Store

variable (db : Store)

theorem internal_complete (kind : EntityKind) (ids : List Id) (found : List (Id × α)) :
    Internal (complete kind ids found) := by
  unfold complete
  split <;> exact ⟨fun _ _ h => nomatch h⟩

theorem internal_findStatements (ids : List Id) : Internal (db.findStatements ids) := by
  refine internal_bind (internal_mapM _ fun e he => ?_) fun _ => internal_complete ..
  obtain ⟨i, -, he⟩ := List.mem_filterMap.1 he
  obtain ⟨s, -, he⟩ := Option.bind_eq_some_iff.1 he
  obtain ⟨speaker, -, he⟩ := Option.bind_eq_some_iff.1 he
  cases he
  refine internal_bind (internal_decode _) fun _ => ?_
  refine internal_bind (internal_option_mapM _ internal_proposition) fun _ => ?_
  exact internal_bind (internal_instant _) fun _ => internal_ok _

theorem internal_history (ids : List Id) : Internal (db.history ids) := by
  refine internal_mapM _ fun r _ => ?_
  refine internal_bind (internal_instant _) fun _ => ?_
  exact internal_bind (internal_decode _) fun _ => internal_ok _

theorem internal_findMediaExcerpts (ids : List Id) :
    Internal (db.findMediaExcerpts ids).result := by
  simp only [findMediaExcerpts, putTogether, Logged.result_bind, Logged.result_ofExcept,
    Logged.result_warn]
  refine internal_bind (internal_history db _) fun _ => ?_
  refine internal_bind (internal_mapM _ fun r _ => ?_) fun _ => internal_complete ..
  exact internal_bind (internal_instant _) fun _ => internal_ok _

end Store

/-- What is done once a statement was taken; a refusal is about no entity. -/
theorem internal_sent {f : Sql.Fragment} {x : Except Fault α} (hx : Internal x) :
    Internal (f.send >>= fun _ => x) := by
  refine internal_bind ?_ fun _ => hx
  unfold Sql.Fragment.send
  split
  · exact internal_ok ()
  · exact ⟨fun _ _ h => nomatch h⟩

theorem internal_lookupsAt (db : ReadStep → Store) (ix : Index) (ps : List Proposition)
    (includeUrls : Bool) : Internal (lookupsAt db ix ps includeUrls).result := by
  simp only [lookupsAt, mediaExcerptsAt_eq, Store.readStatements, Store.readUsers,
    writQuoteUrlsAt_eq, Logged.result_bind, Logged.result_ofExcept, Logged.result_warn, ok_bind]
  refine internal_bind ?_ fun _ => internal_bind ?_ fun _ => internal_bind ?_ fun _ =>
    internal_bind ?_ fun _ => internal_ok _
  · refine internal_sent (internal_sent (internal_sent (internal_sent ?_)))
    exact Store.internal_findMediaExcerpts ..
  · exact internal_sent (Store.internal_findStatements ..)
  · exact internal_sent (Store.internal_complete ..)
  · split
    · exact internal_map (internal_sent (internal_sent (internal_ok _)))
    · exact internal_ok none

/-! ## Assembling -/

namespace Lookups

variable (l : Lookups)

theorem internal_required (kind : EntityKind) (i : Id) (o : Option α) :
    Internal (required kind i o) := by
  cases o <;> exact ⟨fun _ _ h => nomatch h⟩

theorem internal_hydrate (j : Justification) : Internal (l.hydrate j) := by
  refine internal_bind ?_ fun _ => internal_bind ?_ fun _ => internal_bind ?_ fun _ => ?_
  · cases j.target with
    | proposition p => exact internal_map (internal_map (internal_required ..))
    | statement s => exact internal_map (internal_map (internal_required ..))
    | justification t => exact internal_ok _
  · cases j.rootTarget <;> exact internal_map (internal_map (internal_required ..))
  · unfold basis
    split
    · exact internal_map (internal_required ..)
    · exact internal_ok _
    · exact internal_ok _
    · exact internal_ok _
  · exact internal_bind (internal_map (internal_required ..)) fun _ => internal_ok _

theorem internal_checked (j : Justification) : Internal (l.checked j).result := by
  unfold checked
  split
  · split
    · exact ⟨fun _ _ h => nomatch h⟩
    · exact internal_ok _
  · exact internal_ok _

theorem internal_nest (j : Justification) (ts : List Justification) :
    Internal (l.nest j ts).result := by
  induction ts generalizing j with
  | nil => exact l.internal_checked j
  | cons t ts ih =>
    rw [nest, Logged.result_bind]
    exact internal_bind (ih t) fun _ => l.internal_checked _

end Lookups

namespace Index

variable (ix : Index) (l : Lookups)

theorem internal_shell (i : Id) : Internal (ix.shell l i) := by
  unfold shell
  split
  · exact l.internal_hydrate _
  · exact ⟨fun _ _ h => nomatch h⟩

theorem internal_leave (w : Graph.Walk Id) : Internal (ix.leave w).result := by
  unfold leave
  split
  · split
    · exact ⟨fun _ _ h => nomatch h⟩
    · exact internal_ok _
  · exact internal_ok _

theorem internal_assembleNode (i : Id) : Internal (ix.assembleNode l i).result := by
  simp only [assembleNode, Logged.result_bind, Logged.result_ofExcept]
  refine internal_bind (internal_mapM _ fun k _ => ix.internal_shell l k) fun js => ?_
  cases js with
  | nil =>
    exact ⟨fun _ _ h => nomatch h⟩
  | cons j ts =>
    rw [Logged.result_bind]
    exact internal_bind (ix.internal_leave _) fun _ => l.internal_nest j ts

theorem internal_assemble : Internal (ix.assemble l).result := by
  rw [assemble, Logged.result_mapM]
  refine internal_mapM _ fun j _ => ?_
  simp only [assembleWithCounters, Logged.result_bind, Logged.result_mapM, assembleCounter_result]
  refine internal_bind (ix.internal_assembleNode l j.id) fun _ => ?_
  exact internal_bind (internal_mapM _ fun c _ => ix.internal_shell l c.id) fun _ => internal_ok _

end Index

/-! ## Reads -/

/-- **A read of an accepted request has internal faults only.** -/
theorem internal_read {db : Store} {ch : Chance} {r : Request} {q : PageQuery}
    (hq : r.compile = .ok q) : Internal (db.read ch r).result := by
  rw [Store.read, readAt]
  split
  · exact internal_ok []
  · simp only [hq, Logged.result_bind, Logged.result_ofExcept, ok_bind]
    refine internal_bind (internal_sent (internal_reconstruct ..)) fun page => ?_
    split
    · exact internal_ok []
    · simp only [Logged.result_bind, Logged.result_ofExcept]
      refine internal_bind (internal_sent (internal_reconstruct ..)) fun _ => ?_
      refine internal_bind (internal_sent (internal_reconstruct ..)) fun _ => ?_
      refine internal_bind (internal_sent (internal_mapM _ fun p _ => internal_proposition p))
        fun _ => ?_
      exact internal_bind (internal_lookupsAt ..) fun _ => Index.internal_assemble ..

end Rationale
