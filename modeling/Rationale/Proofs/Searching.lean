/-
  Rationale — what a search finds.

  A search finds its seeds and all nodes to which edges lead from them, and
  nothing else.  What holds of it at every time (`Search.Of`) says this of the
  nodes that have left the queue, and at the end the queue is empty.

  * `Search.Of.of_step?`: every step keeps this;
  * `steps_run`: there are at most as many steps as there is to do;
  * `mem_found_run`: the nodes found are those to which edges lead.
-/
import Mathlib.Data.List.Nodup
import Mathlib.Logic.Relation
import Rationale.Graph.Search

namespace Rationale.Graph

variable {α : Type} [DecidableEq α] {edges : List (α × α)} {seeds is : List α} {i k : α}

/-- One of the edges leads from `i` to `k`. -/
def Edge (edges : List (α × α)) (i k : α) : Prop :=
  (i, k) ∈ edges

theorem mem_successors : k ∈ successors edges i ↔ Edge edges i k := by
  simp [successors, Edge]

namespace Search

variable {s s' t : Search α}

/-! ## Adding -/

theorem mem_found_add : k ∈ (s.add i).found ↔ k ∈ s.found ∨ k = i := by
  unfold add
  split
  · rename_i hi
    exact ⟨.inl, fun h => h.elim id fun hk => hk ▸ hi⟩
  · simp

theorem mem_queue_add : k ∈ (s.add i).queue ↔ k ∈ s.queue ∨ k = i ∧ k ∉ s.found := by
  unfold add
  split
  · rename_i hi
    exact ⟨.inl, fun h => h.elim id fun hk => absurd (hk.1 ▸ hi) hk.2⟩
  · rename_i hi
    simp only [List.mem_append, List.mem_singleton]
    exact or_congr_right ⟨fun hk => ⟨hk, hk ▸ hi⟩, And.left⟩

theorem nodup_add (h : s.found.Nodup) : (s.add i).found.Nodup := by
  unfold add
  split
  · exact h
  · rename_i hi
    exact List.nodup_append.2 ⟨h, List.nodup_singleton i, fun a ha b hb => by
      rw [List.mem_singleton.1 hb]
      exact fun hai => hi (hai ▸ ha)⟩

theorem mem_found_foldl_add : k ∈ (is.foldl add s).found ↔ k ∈ s.found ∨ k ∈ is := by
  induction is generalizing s with
  | nil => simp
  | cons i is ih => rw [List.foldl_cons, ih, mem_found_add, or_assoc, List.mem_cons]

theorem mem_queue_foldl_add :
    k ∈ (is.foldl add s).queue ↔ k ∈ s.queue ∨ k ∈ is ∧ k ∉ s.found := by
  induction is generalizing s with
  | nil => simp
  | cons i is ih =>
    rw [List.foldl_cons, ih, mem_queue_add, mem_found_add, List.mem_cons]
    by_cases hk : k = i
    · simp [hk]
    · simp [hk]

theorem nodup_foldl_add (h : s.found.Nodup) : (is.foldl add s).found.Nodup := by
  induction is generalizing s with
  | nil => exact h
  | cons i is ih => exact ih (nodup_add h)

/-! ## At every time -/

/-- What holds of a search from `seeds` at every time. -/
structure Of (edges : List (α × α)) (seeds : List α) (s : Search α) : Prop where
  nodup : s.found.Nodup
  queued : ∀ i ∈ s.queue, i ∈ s.found
  seeded : ∀ i ∈ seeds, i ∈ s.found
  reached : ∀ k ∈ s.found, ∃ i ∈ seeds, Relation.ReflTransGen (Edge edges) i k
  followed : ∀ i ∈ s.found, i ∉ s.queue → ∀ k, Edge edges i k → k ∈ s.found

theorem of_start (edges : List (α × α)) (seeds : List α) : Of edges seeds (start seeds) where
  nodup := nodup_foldl_add List.nodup_nil
  queued i hi := mem_found_foldl_add.2 ((mem_queue_foldl_add.1 hi).imp_right And.left)
  seeded i hi := mem_found_foldl_add.2 (.inr hi)
  reached k hk := ⟨k, (mem_found_foldl_add.1 hk).resolve_left List.not_mem_nil, .refl⟩
  followed i hi hout := by
    refine absurd (mem_queue_foldl_add.2 (.inr ⟨?_, List.not_mem_nil⟩)) hout
    exact (mem_found_foldl_add.1 hi).resolve_left List.not_mem_nil

theorem step?_eq_some : s.step? edges = some s' ↔ ∃ i queue, s.queue = i :: queue ∧
    s' = (successors edges i).foldl add { s with queue } := by
  unfold step?
  cases hq : s.queue with
  | nil => simp
  | cons i queue =>
    constructor
    · rintro ⟨⟩
      exact ⟨i, queue, rfl, rfl⟩
    · rintro ⟨_, _, ⟨⟩, rfl⟩
      rfl

theorem step?_eq_none : s.step? edges = none ↔ s.queue = [] := by
  unfold step?
  cases s.queue <;> simp

/-- **A step keeps what holds of a search.** -/
theorem Of.of_step? (h : Of edges seeds s) (hs : s.step? edges = some s') : Of edges seeds s' := by
  obtain ⟨i, queue, hq, rfl⟩ := step?_eq_some.1 hs
  have hi : i ∈ s.found := h.queued i (by simp [hq])
  refine ⟨nodup_foldl_add h.nodup, ?_, ?_, ?_, ?_⟩
  · intro k hk
    refine mem_found_foldl_add.2 ((mem_queue_foldl_add.1 hk).imp ?_ And.left)
    exact fun hk => h.queued k (by rw [hq]; exact List.mem_cons_of_mem i hk)
  · exact fun k hk => mem_found_foldl_add.2 (.inl (h.seeded k hk))
  · intro k hk
    rcases mem_found_foldl_add.1 hk with hk | hk
    · exact h.reached k hk
    · obtain ⟨c, hc, hci⟩ := h.reached i hi
      exact ⟨c, hc, hci.tail (mem_successors.1 hk)⟩
  · intro m hm hout k hmk
    by_cases hmi : m = i
    · -- the node taken off the queue
      rw [hmi] at hmk
      exact mem_found_foldl_add.2 (.inr (mem_successors.2 hmk))
    · have hfound : m ∈ s.found := by
        by_contra hnew
        have hmem := (mem_found_foldl_add.1 hm).resolve_left hnew
        exact hout (mem_queue_foldl_add.2 (.inr ⟨hmem, hnew⟩))
      have hout : m ∉ s.queue := by
        rw [hq, List.mem_cons, not_or]
        exact ⟨hmi, fun hmem => hout (mem_queue_foldl_add.2 (.inl hmem))⟩
      exact mem_found_foldl_add.2 (.inl (h.followed m hfound hout k hmk))

/-! ## To the end -/

/-- From one search to another in `n` steps. -/
inductive Steps (edges : List (α × α)) : Nat → Search α → Search α → Prop
  | none {s : Search α} : Steps edges 0 s s
  | step {n : Nat} {s s' t : Search α} :
      s.step? edges = some s' → Steps edges n s' t → Steps edges (n + 1) s t

theorem Of.of_steps {n : Nat} (h : Of edges seeds s) (hs : Steps edges n s t) :
    Of edges seeds t := by
  induction hs with
  | none => exact h
  | step hstep _ ih => exact ih (h.of_step? hstep)

/-- **A search comes to its end**, in no more steps than there is to do. -/
theorem steps_run (edges : List (α × α)) (s : Search α) :
    ∃ n ≤ s.todo edges, Steps edges n s (s.run edges) ∧ (s.run edges).queue = [] := by
  induction s using run.induct edges with
  | case1 s hs =>
    rw [run, hs]
    exact ⟨0, Nat.zero_le _, .none, step?_eq_none.1 hs⟩
  | case2 s s' hs ih =>
    obtain ⟨n, hn, hsteps, hend⟩ := ih
    have htodo := todo_step? hs
    rw [run, hs]
    exact ⟨n + 1, by omega, .step hs hsteps, hend⟩

theorem todo_start (h : ∀ i ∈ seeds, i ∈ edges.map (·.2)) :
    (start seeds).todo edges ≤ edges.length := by
  refine Nat.le_trans (todo_foldl_add h) ?_
  simp [todo]

/-- **A search finds the nodes to which edges lead** from its seeds. -/
theorem mem_found_run : k ∈ ((start seeds).run edges).found ↔
    ∃ i ∈ seeds, Relation.ReflTransGen (Edge edges) i k := by
  obtain ⟨n, -, hsteps, hend⟩ := steps_run edges (start seeds)
  have h : Of edges seeds ((start seeds).run edges) := (of_start edges seeds).of_steps hsteps
  constructor
  · exact h.reached k
  · rintro ⟨i, hi, hik⟩
    induction hik with
    | refl => exact h.seeded i hi
    | tail _ hedge ih => exact h.followed _ ih (by simp [hend]) _ hedge

end Search

end Rationale.Graph
