/-
  Rationale — reads and the order in which compounds are hashed.

  Rows are gathered as they come.  Only then are compounds decoded, in the order
  in which they are hashed, and the first that cannot be decoded is the fault that
  is told.  So if there are several, it depends on that order of which of them the
  fault is; and nothing else does.

  * `Gathered.finish_alike`, `reconstruct_alike`: what is gathered is finished
    alike, or faults are told of compounds of one kind;
  * `readAt_alike`: so two reads that find the same rows have the same page and
    the same warnings, or the same fault, or each the fault of a compound.
-/
import Rationale.Proofs.Outlines
import Rationale.Store.Read

namespace Rationale

open Gather Time

variable {α β : Type}

/-! ## Compounds that cannot be decoded -/

/-- The fault is that of one of the compounds. -/
def Undecoded (cs : List CompoundRow) (e : Fault) : Prop :=
  ∃ c ∈ cs, Instant.decode c.created = .error e

/-- Both faults are of proposition compounds, or both of mixed ones. -/
def Garbled (compounds mixed : List CompoundRow) (e e' : Fault) : Prop :=
  Undecoded compounds e ∧ Undecoded compounds e' ∨ Undecoded mixed e ∧ Undecoded mixed e'

theorem Undecoded.mono {cs ds : List CompoundRow} {e : Fault} (h : Undecoded cs e)
    (hsub : cs ⊆ ds) : Undecoded ds e := by
  obtain ⟨c, hc, he⟩ := h
  exact ⟨c, hsub hc, he⟩

theorem Garbled.mono {cs ds ms ns : List CompoundRow} {e e' : Fault} (h : Garbled cs ms e e')
    (hc : cs ⊆ ds) (hm : ms ⊆ ns) : Garbled ds ns e e' :=
  h.imp (And.imp (·.mono hc) (·.mono hc)) (And.imp (·.mono hm) (·.mono hm))

/-- Two runs have the same result, or each has a fault, which may be another one. -/
def Alike (excused : Fault → Fault → Prop) (x y : Except Fault α) : Prop :=
  x = y ∨ ∃ e e', excused e e' ∧ x = .error e ∧ y = .error e'

theorem Alike.imp {R S : Fault → Fault → Prop} {x y : Except Fault α} (h : Alike R x y)
    (hRS : ∀ e e', R e e' → S e e') : Alike S x y :=
  h.imp_right fun ⟨e, e', hR, hx, hy⟩ => ⟨e, e', hRS e e' hR, hx, hy⟩

theorem Alike.sent {R : Fault → Fault → Prop} {x y : Except Fault α} (h : Alike R x y)
    (s : Sql.Fragment) : Alike R (s.send >>= fun _ => x) (s.send >>= fun _ => y) := by
  cases s.send with
  | error e => exact .inl rfl
  | ok _ => exact h

/-! ## Finishing -/

namespace Gathered

variable {g : Gathered} {c : CompoundRow} {e : Fault}

theorem compound_eq_error : g.compound c = .error e ↔ Instant.decode c.created = .error e :=
  map_eq_error

theorem mixedCompound_eq_error :
    g.mixedCompound c = .error e ↔ Instant.decode c.created = .error e :=
  map_eq_error

theorem exists_mapM_hashed_eq_ok {f : CompoundRow → Except Fault α} {ρ : Rank}
    {cs : List CompoundRow} :
    (∃ xs, (hashed ρ cs).mapM f = .ok xs) ↔ ∃ xs, cs.mapM f = .ok xs := by
  constructor
  · rintro ⟨xs, h⟩
    obtain ⟨ys, hys, -⟩ := exists_mapM_perm (hashed_perm ρ cs) h
    exact ⟨ys, hys⟩
  · rintro ⟨xs, h⟩
    obtain ⟨ys, hys, -⟩ := exists_mapM_perm (hashed_perm ρ cs).symm h
    exact ⟨ys, hys⟩

/-- **The fault is that of a compound**, and of a mixed one only if all others can
    be decoded. -/
theorem undecoded_of_finish {η : Hashing} (h : g.finish η = .error e) :
    Undecoded g.compounds e ∨
      (∃ cs, g.compounds.mapM g.compound = .ok cs) ∧ Undecoded g.mixed e := by
  rcases bind_eq_error.1 h with h | ⟨cs, hcs, h⟩
  · obtain ⟨c, hc, hce⟩ := exists_of_mapM_eq_error h
    exact .inl ⟨c, (hashed_perm _ _).mem_iff.1 hc, compound_eq_error.1 hce⟩
  · refine .inr ⟨exists_mapM_hashed_eq_ok.1 ⟨cs, hcs⟩, ?_⟩
    rcases bind_eq_error.1 h with h | ⟨ms, -, h⟩
    · obtain ⟨c, hc, hce⟩ := exists_of_mapM_eq_error h
      exact ⟨c, (hashed_perm _ _).mem_iff.1 hc, mixedCompound_eq_error.1 hce⟩
    · cases h

theorem not_undecoded_of_mapM {cs : List PropositionCompound}
    (h : g.compounds.mapM g.compound = .ok cs) : ¬ Undecoded g.compounds e := by
  rintro ⟨c, hc, hce⟩
  obtain ⟨x, -, hx⟩ := exists_mem_of_mapM h hc
  rw [compound_eq_error.2 hce] at hx
  cases hx

/-- **Hashing decides which fault is told**, and nothing else. -/
theorem finish_alike (ho : g.Once) (η η' : Hashing) :
    Alike (Garbled g.compounds g.mixed) (g.finish η) (g.finish η') := by
  cases h : g.finish η with
  | ok xs => exact .inl ((finish_eq_ok ho).2 ((finish_eq_ok ho).1 h)).symm
  | error e =>
    cases h' : g.finish η' with
    | ok xs =>
      rw [(finish_eq_ok ho).2 ((finish_eq_ok ho).1 h')] at h
      cases h
    | error e' =>
      refine .inr ⟨e, e', ?_, rfl, rfl⟩
      rcases undecoded_of_finish h with hc | ⟨⟨cs, hcs⟩, hm⟩ <;>
        rcases undecoded_of_finish h' with hc' | ⟨⟨cs', hcs'⟩, hm'⟩
      · exact .inl ⟨hc, hc'⟩
      · exact absurd hc (not_undecoded_of_mapM hcs')
      · exact absurd hc' (not_undecoded_of_mapM hcs)
      · exact .inr ⟨hm, hm'⟩

end Gathered

open Gathered

variable {rows : List JoinedRow}

theorem reconstruct_alike (rows : List JoinedRow) (η η' : Hashing) :
    Alike (Garbled (rows.flatMap (·.compound.toList)) (rows.flatMap (·.mixed.toList)))
      (reconstruct η rows) (reconstruct η' rows) := by
  unfold reconstruct
  cases h : rows.foldlM Gathered.add {} with
  | error e => exact .inl rfl
  | ok g =>
    have hg := foldlM_add.1 h
    have hcompounds := keepCompound_eq_ok.1 hg.compounds
    have hmixed := keepCompound_eq_ok.1 hg.mixed
    exact (finish_alike (once_of_toldBy hg) η η').imp fun e e' hgarbled => hgarbled.mono
      (fun c hc => mem_of_mem_firsts (hcompounds ▸ hc))
      (fun c hc => mem_of_mem_firsts (hmixed ▸ hc))

/-! ## Reads -/

/-- Both faults are of live compounds of one kind that cannot be decoded. -/
def Store.Garbles (db : Store) : Fault → Fault → Prop :=
  Garbled db.propositionCompounds.live db.basisCompounds.live

/-- Rows of justifications tell of live compounds. -/
theorem Store.reconstruct_justificationRows_alike (db : Store) (ids : List Id)
    (order : JustificationRow → JustificationRow → Bool) (η η' : Hashing) :
    Alike db.Garbles (reconstruct η (db.justificationRows ids order))
      (reconstruct η' (db.justificationRows ids order)) := by
  refine (reconstruct_alike _ η η').imp fun e e' h => h.mono ?_ ?_
  · intro c hc
    obtain ⟨r, hr, hc⟩ := List.mem_flatMap.1 hc
    rw [compound_of_mem_joined (mem_justificationRows.1 hr).2] at hc
    exact Table.mem_live_of_typed? (Option.mem_toList.1 hc)
  · intro c hc
    obtain ⟨r, hr, hc⟩ := List.mem_flatMap.1 hc
    rw [mixed_of_mem_joined (mem_justificationRows.1 hr).2] at hc
    exact Table.mem_live_of_typed? (Option.mem_toList.1 hc)

namespace Logged

/-- The same for runs that give warnings. -/
def Alike (excused : Fault → Fault → Prop) (x y : Logged α) : Prop :=
  Rationale.Alike excused x.result y.result ∧ x.warnings = y.warnings

variable {R S : Fault → Fault → Prop}

theorem Alike.refl (x : Logged α) : x.Alike R x :=
  ⟨.inl rfl, rfl⟩

theorem Alike.of_eq {x y : Logged α} (h : x = y) : x.Alike R y :=
  h ▸ .refl x

/-- What is alike is bound alike. -/
theorem Alike.bind {x y : Except Fault α} {f g : α → Logged β} (h : Rationale.Alike R x y)
    (hf : ∀ a, (f a).Alike R (g a)) : (ofExcept x >>= f).Alike R (ofExcept y >>= g) := by
  rcases h with rfl | ⟨e, e', hR, rfl, rfl⟩
  · cases x with
    | error e => exact .of_eq rfl
    | ok a =>
      rw [ofExcept_ok_bind, ofExcept_ok_bind]
      exact hf a
  · exact ⟨.inr ⟨e, e', hR, rfl, rfl⟩, rfl⟩

end Logged

variable (db : ReadStep → Store) (found : Use → Rank) (η η' : Use → Hashing)

/-- **Two reads that come across rows in the same order are alike**, however
    compounds are hashed. -/
theorem readAt_alike (r : Query.Request) :
    (readAt db ⟨found, η⟩ r).Alike (fun e e' => ∃ s, (db s).Garbles e e')
      (readAt db ⟨found, η'⟩ r) := by
  have hrows : ∀ s ids order θ θ', Alike (fun e e' => ∃ s, (db s).Garbles e e')
      (reconstruct θ ((db s).justificationRows ids order))
      (reconstruct θ' ((db s).justificationRows ids order)) := fun s ids order θ θ' =>
    ((db s).reconstruct_justificationRows_alike ids order θ θ').imp fun _ _ h => ⟨s, h⟩
  unfold readAt
  split
  · exact .refl _
  refine .bind (.inl rfl) fun q => .bind (.sent (hrows ..) _) fun page => ?_
  split
  · exact .refl _
  exact .bind (.sent (hrows ..) _) fun targets => .bind (.sent (hrows ..) _) fun counters =>
    .bind (.inl rfl) fun ps => .refl _

/-- They are the same if compounds are hashed in the same order as well. -/
theorem Store.read_alike (db : Store) (r : Query.Request) :
    (db.read ⟨found, η⟩ r).Alike (fun e e' => η ≠ η' ∧ db.Garbles e e')
      (db.read ⟨found, η'⟩ r) := by
  by_cases hsame : η = η'
  · rw [hsame]
    exact .refl _
  · have halike := readAt_alike (fun _ => db) found η η' r
    exact ⟨halike.1.imp fun e e' ⟨_, h⟩ => ⟨hsame, h⟩, halike.2⟩

end Rationale
