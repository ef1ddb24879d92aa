/-
  Rationale — what a walk is, step by step.

  `Passes next i path exit`: from `i` one comes along `path`, and then to `exit`
  if there is a successor to come to.

  * `passes_walk`: this is what a walk does that starts at a free node;
  * `walk_eq_of_passes`: and what does this is the walk;
  * `mem_path_of_next`: a walk does not stop before a free node;
  * `mem_path_iff`: a walk passes all free nodes to which steps lead;
  * `exit_mem_iff`: it is left for a free node if steps lead round in a circle;
  * `walk_eq_of_closed`: nodes to which a walk does not come make no difference.
-/
import Mathlib.Logic.Relation
import Rationale.Graph.Walk

namespace Rationale.Graph

variable {α : Type}

inductive Passes (next : α → Option α) : α → List α → Option α → Prop
  | ends {i} : next i = none → Passes next i [i] none
  | leaves {i k} : next i = some k → Passes next i [i] (some k)
  | step {i k path exit} : next i = some k → Passes next k path exit →
      Passes next i (i :: path) exit

theorem Passes.exists_cons {next : α → Option α} {i : α} {path : List α} {exit : Option α}
    (h : Passes next i path exit) : ∃ rest, path = i :: rest := by
  cases h <;> exact ⟨_, rfl⟩

/-- A walk is left by a step from where it passed. -/
theorem Passes.exists_of_exit {next : α → Option α} {i k : α} {path : List α}
    (h : Passes next i path (some k)) : ∃ x ∈ path, next x = some k := by
  generalize he : some k = exit at h
  induction h with
  | ends hn => cases he
  | leaves hn =>
    cases he
    exact ⟨_, List.mem_singleton.2 rfl, hn⟩
  | step hn hp ih =>
    obtain ⟨x, hx, hxk⟩ := ih he
    exact ⟨x, List.mem_cons_of_mem _ hx, hxk⟩

/-- From where it passed one comes to the same exit. -/
theorem Passes.of_mem {next : α → Option α} {i k : α} {path : List α} {exit : Option α}
    (h : Passes next i path exit) (hk : k ∈ path) :
    ∃ rest, Passes next k rest exit ∧ rest.Sublist path := by
  induction h with
  | ends hn =>
    cases List.mem_singleton.1 hk
    exact ⟨_, .ends hn, List.Sublist.refl _⟩
  | leaves hn =>
    cases List.mem_singleton.1 hk
    exact ⟨_, .leaves hn, List.Sublist.refl _⟩
  | step hn hp ih =>
    rcases List.mem_cons.1 hk with rfl | hk
    · exact ⟨_, .step hn hp, List.Sublist.refl _⟩
    · obtain ⟨rest, hrest, hsub⟩ := ih hk
      exact ⟨rest, hrest, hsub.cons _⟩

/-- A step from where it passed goes on along the path, or leaves it. -/
theorem Passes.mem_tail {next : α → Option α} {i x k : α} {path : List α} {exit : Option α}
    (h : Passes next i path exit) (hx : x ∈ path) (hn : next x = some k) :
    k ∈ path.tail ∨ exit = some k := by
  induction h with
  | ends hi =>
    cases List.mem_singleton.1 hx
    rw [hi] at hn
    cases hn
  | leaves hi =>
    cases List.mem_singleton.1 hx
    exact .inr (hi.symm.trans hn)
  | step hi hp ih =>
    obtain ⟨rest, rfl⟩ := hp.exists_cons
    rcases List.mem_cons.1 hx with rfl | hx
    · rw [hi] at hn
      cases hn
      exact .inl (by simp)
    · exact (ih hx).imp_left fun hk => List.mem_cons_of_mem _ hk

/-- A step to a free node. -/
def Goes (next : α → Option α) (free : List α) (i k : α) : Prop :=
  next i = some k ∧ k ∈ free

/-- Steps lead to where a path is left, if that is free. -/
theorem Passes.transGen {next : α → Option α} {free path : List α} {i k : α}
    (h : Passes next i path (some k)) (hfree : path ⊆ free) (hk : k ∈ free) :
    Relation.TransGen (Goes next free) i k := by
  generalize he : some k = exit at h
  induction h with
  | ends hn => cases he
  | leaves hn =>
    cases he
    exact .single ⟨hn, hk⟩
  | step hn hp ih =>
    obtain ⟨rest, rfl⟩ := hp.exists_cons
    have hfree := (List.cons_subset.1 hfree).2
    exact .head ⟨hn, hfree (by simp)⟩ (ih hfree he)

/-- Steps lead to all of a path. -/
theorem Passes.reflTransGen {next : α → Option α} {free path : List α} {i k : α}
    {exit : Option α} (h : Passes next i path exit) (hfree : path ⊆ free) (hk : k ∈ path) :
    Relation.ReflTransGen (Goes next free) i k := by
  induction h with
  | ends hn =>
    cases List.mem_singleton.1 hk
    exact .refl
  | leaves hn =>
    cases List.mem_singleton.1 hk
    exact .refl
  | step hn hp ih =>
    obtain ⟨rest, rfl⟩ := hp.exists_cons
    have hfree := (List.cons_subset.1 hfree).2
    rcases List.mem_cons.1 hk with rfl | hk
    · exact .refl
    · exact .head ⟨hn, hfree (by simp)⟩ (ih hfree hk)

/-- Steps lead on along a path that is left for good, and not back. -/
theorem Passes.mem_tail_of_transGen {next : α → Option α} {free path : List α} {i k : α}
    {exit : Option α} (h : Passes next i path exit) (hexit : ∀ m ∈ exit, m ∉ free)
    (hik : Relation.TransGen (Goes next free) i k) : k ∈ path.tail := by
  have hgo : ∀ {x k}, x ∈ path → Goes next free x k → k ∈ path.tail := fun hx hgo =>
    (h.mem_tail hx hgo.1).resolve_right fun he => hexit _ he hgo.2
  induction hik with
  | single hgo' =>
    obtain ⟨rest, rfl⟩ := h.exists_cons
    exact hgo (by simp) hgo'
  | tail _ hgo' ih => exact hgo (List.mem_of_mem_tail ih) hgo'

variable [DecidableEq α] {next : α → Option α} {free : List α} {i x k : α}

theorem passes_walk (h : i ∈ free) :
    Passes next i (walk next free i).path (walk next free i).exit := by
  induction free, i using walk_induction next with
  | outside free i hi => exact absurd h hi
  | ends free i hi hn =>
    rw [walk_of_end hi hn]
    exact .ends hn
  | step free i k hi hn ih =>
    rw [walk_of_step hi hn]
    by_cases hk : k ∈ without free i
    · exact .step hn (ih hk)
    · rw [walk_of_not_mem hk]
      exact .leaves hn

theorem head_mem_path (h : i ∈ free) : i ∈ (walk next free i).path := by
  cases hn : next i with
  | none => simp [walk_of_end h hn]
  | some k => simp [walk_of_step h hn]

/-- What passes free nodes only, none of them twice, and stops where it has to is
    the walk. -/
theorem walk_eq_of_passes {path : List α} {exit : Option α} (hp : Passes next i path exit)
    (hnodup : path.Nodup) (hfree : path ⊆ free) (hexit : ∀ k ∈ exit, k ∉ free ∨ k ∈ path) :
    walk next free i = ⟨path, exit⟩ := by
  induction hp generalizing free with
  | ends hn => exact walk_of_end (hfree (by simp)) hn
  | @leaves i k hn =>
    have hk : k ∉ without free i := by
      rw [mem_without]
      rintro ⟨hmem, hne⟩
      rcases hexit k rfl with hout | hback
      · exact hout hmem
      · exact hne (List.mem_singleton.1 hback)
    rw [walk_of_step (hfree (by simp)) hn, walk_of_not_mem hk]
  | @step i k path exit hn hp ih =>
    obtain ⟨hi, hnodup⟩ := List.nodup_cons.1 hnodup
    have hrest : walk next (without free i) k = ⟨path, exit⟩ := by
      apply ih hnodup
      · intro x hx
        exact mem_without.2 ⟨hfree (by simp [hx]), fun hxi => hi (hxi ▸ hx)⟩
      · intro x hx
        by_cases hxi : x = i
        · exact .inl (by simp [hxi])
        · rcases hexit x hx with hout | hback
          · exact .inl fun hmem => hout (mem_without.1 hmem).1
          · exact .inr ((List.mem_cons.1 hback).resolve_left hxi)
    rw [walk_of_step (hfree (by simp)) hn, hrest]

/-- **A walk does not stop before a free node.** -/
theorem mem_path_of_next (hx : x ∈ (walk next free i).path) (hn : next x = some k)
    (hk : k ∈ free) : k ∈ (walk next free i).path := by
  induction free, i using walk_induction next with
  | outside free i hi => simp [walk_of_not_mem hi] at hx
  | ends free i hi hi' =>
    rw [walk_of_end hi hi', List.mem_singleton] at hx
    rw [hx, hi'] at hn
    cases hn
  | step free i l hi hl ih =>
    rw [walk_of_step hi hl] at hx ⊢
    by_cases hki : k = i
    · simp [hki]
    · have hfree : k ∈ without free i := mem_without.2 ⟨hk, hki⟩
      refine List.mem_cons_of_mem _ ?_
      rcases List.mem_cons.1 hx with rfl | hx
      · rw [hl] at hn
        cases hn
        exact head_mem_path hfree
      · exact ih hx hfree

/-- **A walk passes all free nodes to which steps lead.** -/
theorem mem_path_iff (hi : i ∈ free) :
    k ∈ (walk next free i).path ↔ Relation.ReflTransGen (Goes next free) i k := by
  constructor
  · exact (passes_walk hi).reflTransGen fun _ => mem_of_mem_path
  · intro h
    induction h with
    | refl => exact head_mem_path hi
    | tail _ hgo ih => exact mem_path_of_next ih hgo.1 hgo.2

/-- **A walk is left for a free node if steps lead round in a circle**: it comes
    back to where it was. -/
theorem exit_mem_iff (hi : i ∈ free) :
    (∃ k ∈ (walk next free i).exit, k ∈ free) ↔ ∃ k,
      Relation.ReflTransGen (Goes next free) i k ∧ Relation.TransGen (Goes next free) k k := by
  have hp : Passes next i (walk next free i).path (walk next free i).exit := passes_walk hi
  constructor
  · rintro ⟨k, hexit, hk⟩
    have hback := (exit_not_mem hexit).resolve_left fun hout => hout hk
    obtain ⟨rest, hrest, hsub⟩ := hp.of_mem hback
    rw [Option.mem_def.1 hexit] at hrest
    exact ⟨k, (mem_path_iff hi).1 hback,
      hrest.transGen (fun _ hm => mem_of_mem_path (hsub.subset hm)) hk⟩
  · rintro ⟨k, hik, hkk⟩
    refine Classical.byContradiction fun hgood => ?_
    obtain ⟨rest, hrest, hsub⟩ := hp.of_mem ((mem_path_iff hi).2 hik)
    have htail := hrest.mem_tail_of_transGen (fun m hm hfree => hgood ⟨m, hm, hfree⟩) hkk
    obtain ⟨tail, rfl⟩ := hrest.exists_cons
    exact (List.nodup_cons.1 ((nodup_path ..).sublist hsub)).1 htail

/-- **Nodes to which a walk does not come make no difference.** -/
theorem walk_eq_of_closed {next' : α → Option α} {free' : List α} (hsub : free' ⊆ free)
    (hnext : ∀ x ∈ free', next' x = next x)
    (hclosed : ∀ x ∈ free', ∀ k ∈ next x, k ∈ free → k ∈ free') (hi : i ∈ free → i ∈ free') :
    walk next' free' i = walk next free i := by
  induction free, i using walk_induction next generalizing free' with
  | outside free i hout => rw [walk_of_not_mem hout, walk_of_not_mem fun h => hout (hsub h)]
  | ends free i hfree hn =>
    rw [walk_of_end hfree hn, walk_of_end (hi hfree) (by rw [hnext i (hi hfree), hn])]
  | step free i k hfree hn ih =>
    have hi := hi hfree
    have hrest : walk next' (without free' i) k = walk next (without free i) k := by
      apply ih
      · exact fun x hx => mem_without.2 ⟨hsub (mem_without.1 hx).1, (mem_without.1 hx).2⟩
      · exact fun x hx => hnext x (mem_without.1 hx).1
      · intro x hx l hl hfree
        obtain ⟨hfree, hne⟩ := mem_without.1 hfree
        exact mem_without.2 ⟨hclosed x (mem_without.1 hx).1 l hl hfree, hne⟩
      · intro hk
        obtain ⟨hk, hne⟩ := mem_without.1 hk
        exact mem_without.2 ⟨hclosed i hi k hn hk, hne⟩
    rw [walk_of_step hfree hn, walk_of_step hi (by rw [hnext i hi, hn]), hrest]

end Rationale.Graph
