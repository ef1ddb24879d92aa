/-
  Rationale — walks in a graph in which a node has at most one successor.

  A walk starts at a node and goes from successor to successor.  It passes only
  nodes of a given list, and none of them twice; so it ends at a node without a
  successor, or leaves the list.

  * `nodup_path`, `mem_of_mem_path`: what a walk passes;
  * `exit_not_mem`: a walk is left only to a node that it may not pass, because
    that is not in the list or was passed before.
-/

namespace Rationale.Graph

variable {α : Type} [DecidableEq α]

/-- The nodes passed, and the successor of the last one that could not be. -/
structure Walk (α : Type) where
  path : List α
  exit : Option α
deriving DecidableEq, Repr

/-- The nodes of `free` but `i`. -/
def without (free : List α) (i : α) : List α :=
  free.filter (· ≠ i)

@[simp]
theorem mem_without {free : List α} {i x : α} : x ∈ without free i ↔ x ∈ free ∧ x ≠ i := by
  simp [without]

theorem length_without_lt {free : List α} {i : α} (h : i ∈ free) :
    (without free i).length < free.length :=
  List.length_filter_lt_length_iff_exists.2 ⟨i, h, by simp⟩

/-- The walk from `i` that passes only nodes of `free`. -/
def walk (next : α → Option α) (free : List α) (i : α) : Walk α :=
  if _h : i ∈ free then
    match next i with
    | none => ⟨[i], none⟩
    | some k =>
      let rest := walk next (without free i) k
      ⟨i :: rest.path, rest.exit⟩
  else ⟨[], some i⟩
termination_by free.length
decreasing_by exact length_without_lt ‹_›

variable {next : α → Option α}

theorem walk_of_not_mem {free : List α} {i : α} (h : i ∉ free) :
    walk next free i = ⟨[], some i⟩ := by
  rw [walk.eq_def, dif_neg h]

theorem walk_of_end {free : List α} {i : α} (h : i ∈ free) (hn : next i = none) :
    walk next free i = ⟨[i], none⟩ := by
  rw [walk.eq_def, dif_pos h, hn]

theorem walk_of_step {free : List α} {i k : α} (h : i ∈ free) (hn : next i = some k) :
    walk next free i =
      ⟨i :: (walk next (without free i) k).path, (walk next (without free i) k).exit⟩ := by
  rw [walk.eq_def, dif_pos h, hn]

/-- What holds of a walk that cannot start, of one that ends, and of one that
    goes on if it holds of the rest, holds of every walk. -/
theorem walk_induction (next : α → Option α) {motive : List α → α → Prop}
    (outside : ∀ free i, i ∉ free → motive free i)
    (ends : ∀ free i, i ∈ free → next i = none → motive free i)
    (step : ∀ free i k, i ∈ free → next i = some k → motive (without free i) k →
      motive free i)
    (free : List α) (i : α) : motive free i := by
  if h : i ∈ free then
    match hn : next i with
    | none => exact ends free i h hn
    | some k => exact step free i k h hn (walk_induction next outside ends step _ k)
  else exact outside free i h
termination_by free.length
decreasing_by exact length_without_lt h

theorem mem_of_mem_path {free : List α} {i x : α} (h : x ∈ (walk next free i).path) :
    x ∈ free := by
  induction free, i using walk_induction next with
  | outside free i hi => simp [walk_of_not_mem hi] at h
  | ends free i hi hn =>
    rw [walk_of_end hi hn] at h
    simp_all
  | step free i k hi hn ih =>
    rw [walk_of_step hi hn] at h
    rcases List.mem_cons.1 h with rfl | h
    · exact hi
    · exact (mem_without.1 (ih h)).1

theorem nodup_path (free : List α) (i : α) : (walk next free i).path.Nodup := by
  induction free, i using walk_induction next with
  | outside free i hi => simp [walk_of_not_mem hi]
  | ends free i hi hn => simp [walk_of_end hi hn]
  | step free i k hi hn ih =>
    rw [walk_of_step hi hn]
    refine List.nodup_cons.2 ⟨fun h => ?_, ih⟩
    simpa using mem_of_mem_path h

theorem exit_not_mem {free : List α} {i x : α} (h : (walk next free i).exit = some x) :
    x ∉ free ∨ x ∈ (walk next free i).path := by
  induction free, i using walk_induction next with
  | outside free i hi =>
    rw [walk_of_not_mem hi] at h
    cases h
    exact .inl hi
  | ends free i hi hn =>
    rw [walk_of_end hi hn] at h
    cases h
  | step free i k hi hn ih =>
    rw [walk_of_step hi hn] at h ⊢
    rcases ih h with hx | hx
    · by_cases hxi : x = i
      · exact .inr (by simp [hxi])
      · exact .inl fun hm => hx (mem_without.2 ⟨hm, hxi⟩)
    · exact .inr (List.mem_cons_of_mem _ hx)

end Rationale.Graph
