/-
  Rationale — searches along the edges of a graph.

  A search finds nodes and queues them, and each step takes the next one off
  the queue and adds its successors, but for those found before.  So a node is
  queued at most once, wherever the edges lead: in circles, to one node from
  many, or to nodes without edges of their own.

  * `Search.todo_step?`: with every step less is left to do, and so the search
    (`Search.run`) ends.
-/

namespace Rationale.Graph

variable {α : Type} [DecidableEq α]

/-- The ends of the edges from `i`. -/
def successors (edges : List (α × α)) (i : α) : List α :=
  (edges.filter (·.1 = i)).map (·.2)

/-- The nodes found so far, and those of them whose successors are not added yet. -/
structure Search (α : Type) where
  queue : List α
  found : List α
deriving DecidableEq, Repr

namespace Search

variable (edges : List (α × α))

/-- Adds a node, unless it was found before. -/
def add (s : Search α) (i : α) : Search α :=
  if i ∈ s.found then s else ⟨s.queue ++ [i], s.found ++ [i]⟩

def start (seeds : List α) : Search α :=
  seeds.foldl add ⟨[], []⟩

def step? (s : Search α) : Option (Search α) :=
  match s.queue with
  | [] => none
  | i :: queue => some ((successors edges i).foldl add { s with queue })

/-- The nodes in the queue, and the edges that may still lead to a new one. -/
def todo (s : Search α) : Nat :=
  s.queue.length + (edges.filter (·.2 ∉ s.found)).length

variable {edges} {s s' : Search α} {i : α}

theorem todo_add (h : i ∈ edges.map (·.2)) : (s.add i).todo edges ≤ s.todo edges := by
  unfold add
  split
  · exact Nat.le_refl _
  · rename_i hi
    obtain ⟨e, he, rfl⟩ := List.mem_map.1 h
    have hsub : (edges.filter (·.2 ∉ s.found ++ [e.2])).length <
        (edges.filter (·.2 ∉ s.found)).length := by
      have heq : edges.filter (·.2 ∉ s.found ++ [e.2]) =
          (edges.filter (·.2 ∉ s.found)).filter (·.2 ≠ e.2) := by
        rw [List.filter_filter]
        refine List.filter_congr fun x _ => ?_
        simp [and_comm]
      rw [heq]
      exact List.length_filter_lt_length_iff_exists.2
        ⟨e, List.mem_filter.2 ⟨he, by simpa using hi⟩, by simp⟩
    simp only [todo, List.length_append, List.length_singleton]
    omega

theorem todo_foldl_add {is : List α} (h : ∀ i ∈ is, i ∈ edges.map (·.2)) :
    (is.foldl add s).todo edges ≤ s.todo edges := by
  induction is generalizing s with
  | nil => exact Nat.le_refl _
  | cons i is ih =>
    rw [List.foldl_cons]
    exact Nat.le_trans (ih fun k hk => h k (List.mem_cons_of_mem i hk)) (todo_add (h i (by simp)))

theorem todo_step? (h : s.step? edges = some s') : s'.todo edges < s.todo edges := by
  unfold step? at h
  split at h
  · cases h
  · rename_i i queue hq
    cases h
    have hends : ∀ k ∈ successors edges i, k ∈ edges.map (·.2) := fun k hk =>
      (List.filter_sublist.map _).subset hk
    refine Nat.lt_of_le_of_lt (todo_foldl_add hends) ?_
    simp [todo, hq]

variable (edges)

/-- The search from `s` to its end. -/
def run (s : Search α) : Search α :=
  match _h : s.step? edges with
  | none => s
  | some s' => run s'
termination_by s.todo edges
decreasing_by exact todo_step? _h

end Search

end Rationale.Graph
