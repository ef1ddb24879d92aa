/-
  Rationale — text with placeholders.

  The texts of which queries are composed have no quotes, no question marks of
  their own, and none starts with a digit.  Such texts are read as they were
  written, wherever they stand.

  * `Clean.pieces_write`: clean pieces are read back;
  * `Shows ρ args ns t u`: the text `t` has the placeholders `ns`, which are
    placeholders of arguments `args`, and with these in their places it is `u`;
  * `Shows.append`, `Shows.intercalate`, `Shows.splice`: texts are put together
    in either form at once.
-/
import Rationale.Proofs.Scanning

namespace Rationale.Sql

/-! ## Reading what was written -/

/-- Pieces that are read as they are written. -/
inductive Clean : List Piece → Prop
  | nil : Clean []
  | char {c ps} : c ≠ '?' → c ≠ '\x27' → Clean ps → Clean (.char c :: ps)
  | placeholder {n ps} : n < 2 ^ 64 → NoDigit (ps.flatMap Piece.write) → Clean ps →
      Clean (.placeholder n :: ps)

variable {ps qs : List Piece}

theorem Clean.scanned (h : Clean ps) : Scanned .plain ps := by
  induction h with
  | nil => exact .plain
  | char hquestion hquote _ ih => exact .char hquestion (by rwa [if_neg hquote])
  | placeholder hn hnext _ ih => exact .placeholder hn hnext ih

/-- **Clean pieces are read back.** -/
theorem Clean.pieces_write (h : Clean ps) : pieces (write ps) = ps := by
  rw [pieces, write, String.toList_ofList]
  exact h.scanned.piecesFrom_write

/-- Clean pieces have no question mark without a number. -/
theorem Clean.bare_not_mem (h : Clean ps) : .bare ∉ ps := by
  induction h with
  | nil => simp
  | char _ _ _ ih => simpa using ih
  | placeholder _ _ _ ih => simpa using ih

theorem Clean.append (hp : Clean ps) (hq : Clean qs) (hnext : NoDigit (qs.flatMap Piece.write)) :
    Clean (ps ++ qs) := by
  induction hp with
  | nil => exact hq
  | char hquestion hquote _ ih => exact .char hquestion hquote ih
  | placeholder hn hhead _ ih =>
    refine .placeholder hn ?_ ih
    rw [List.append_eq, List.flatMap_append]
    exact hhead.append hnext

/-- Placeholders stay placeholders when they are moved, if their numbers fit. -/
theorem Clean.shift {k : Nat} (h : Clean ps)
    (hfits : ∀ n ∈ ps.filterMap Piece.number?, n + k < 2 ^ 64) : Clean (ps.map (.shift k)) := by
  induction h with
  | nil => exact .nil
  | char hquestion hquote _ ih => exact .char hquestion hquote (ih hfits)
  | placeholder _ hnext _ ih =>
    refine .placeholder (hfits _ (by simp [Piece.number?])) ?_ (ih fun n hn => hfits n ?_)
    · rw [NoDigit, head?_write_shift]
      exact hnext
    · simp only [List.filterMap_cons, Piece.number?, List.mem_cons]
      exact .inr hn

/-! ## Moving placeholders -/

theorem Piece.number?_shift (k : Nat) (p : Piece) :
    (p.shift k).number? = p.number?.map (· + k) := by
  cases p <;> rfl

variable {ρ : Value → String} {args bs all : List Value}

/-- The arguments behind others. -/
theorem getElem?_behind (hall : args ++ bs <+: all) {k : Nat} (hk : k < bs.length) :
    all[k + args.length]? = bs[k]? := by
  obtain ⟨rest, rfl⟩ := hall
  rw [List.append_assoc, List.getElem?_append_right (Nat.le_add_left _ _), Nat.add_sub_cancel,
    List.getElem?_append_left hk]

/-- A placeholder that was moved has the argument that it had. -/
theorem Piece.inPlace_shift (hall : args ++ bs <+: all) {p : Piece}
    (hp : ∀ n ∈ p.number?, 0 < n ∧ n ≤ bs.length) :
    (p.shift args.length).inPlace ρ all = p.inPlace ρ bs := by
  cases p with
  | char c => rfl
  | bare => rfl
  | placeholder n =>
    obtain ⟨hpos, hle⟩ := hp n rfl
    obtain ⟨k, rfl⟩ := Nat.exists_eq_succ_of_ne_zero (Nat.pos_iff_ne_zero.1 hpos)
    have hk : k < bs.length := hle
    obtain ⟨v, hv⟩ : ∃ v, bs[k]? = some v := ⟨_, List.getElem?_eq_getElem hk⟩
    rw [shift, show k.succ + args.length = (k + args.length) + 1 by omega, inPlace, inPlace,
      getElem?_behind hall hk, hv]

/-! ## Text and what it stands for -/

/-- The pieces `ps` are the text `t` with the placeholders `ns`, and the text `u`
    with the arguments in their places. -/
structure Spells (ρ : Value → String) (args : List Value) (ps : List Piece) (ns : List Nat)
    (t u : String) : Prop where
  clean : Clean ps
  head : NoDigit (ps.flatMap Piece.write)
  bound : ∀ n ∈ ns, 0 < n ∧ n ≤ args.length
  numbers : ps.filterMap Piece.number? = ns
  text : write ps = t
  inPlace : String.ofList (ps.flatMap (Piece.inPlace ρ args)) = u

/-- The text `t` has the placeholders `ns`, and it is `u` with the arguments in
    their places. -/
def Shows (ρ : Value → String) (args : List Value) (ns : List Nat) (t u : String) : Prop :=
  ∃ ps, Spells ρ args ps ns t u

/-- A text with nothing in it that reads as part of a placeholder. -/
def plain (cs : List Char) : Bool :=
  cs.all (fun c => c ≠ '?' && c ≠ '\x27') && !cs.head?.any Char.isDigit

def Plain (s : String) : Prop :=
  plain s.toList = true

variable {ns ns' : List Nat} {t u t' u' s : String}

/-- A text is plain if it is written out with plain characters. -/
theorem Plain.literal {cs : List Char} (hs : s = String.ofList cs) (hcs : plain cs = true) :
    Plain s := by
  rw [Plain, hs, String.toList_ofList]
  exact hcs

namespace Shows

theorem congr (h : Shows ρ args ns t u) (hns : ns = ns') : Shows ρ args ns' t u :=
  hns ▸ h

theorem plain (h : Plain s) : Shows ρ args [] s s := by
  simp only [Plain, Sql.plain, Bool.and_eq_true, List.all_eq_true, decide_eq_true_eq,
    Bool.not_eq_true'] at h
  obtain ⟨hall, hhead⟩ := h
  have hwrite : ∀ cs : List Char, (cs.map Piece.char).flatMap Piece.write = cs := fun cs => by
    simp [List.flatMap_map, Piece.write]
  refine ⟨s.toList.map .char, ⟨?_, ?_, by simp, ?_, ?_, ?_⟩⟩
  · generalize s.toList = cs at hall
    induction cs with
    | nil => exact .nil
    | cons c cs ih =>
      obtain ⟨hquestion, hquote⟩ := hall c List.mem_cons_self
      exact .char hquestion hquote (ih fun d hd => hall d (List.mem_cons_of_mem c hd))
  · rw [hwrite]
    intro c hc
    rw [Option.mem_def.1 hc] at hhead
    exact hhead
  · simp [List.filterMap_map, Function.comp_def, Piece.number?]
  · rw [write, hwrite, String.ofList_toList]
  · simp [List.flatMap_map, Piece.inPlace, Piece.write]

theorem literal {cs : List Char} (hs : s = String.ofList cs) (hcs : Sql.plain cs = true) :
    Shows ρ args [] s s :=
  plain (.literal hs hcs)

theorem argument {k : Nat} {v : Value} (h : args[k]? = some v) (hfits : args.length < 2 ^ 64) :
    Shows ρ args [k + 1] (placeholder (k + 1)) (ρ v) := by
  obtain ⟨hk, -⟩ := List.getElem?_eq_some_iff.1 h
  refine ⟨[.placeholder (k + 1)], ⟨.placeholder (by omega) ?_ .nil, ?_, ?_, rfl, ?_, ?_⟩⟩
  · simp [NoDigit]
  · simp [NoDigit, Piece.write]
  · simpa using Nat.succ_le_of_lt hk
  · simp [write, Piece.write, placeholder, Nat.repr_eq_ofList_toDigits]
  · simp [Piece.inPlace, h]

/-- **Texts are put together in either form.** -/
theorem append (h : Shows ρ args ns t u) (h' : Shows ρ args ns' t' u') :
    Shows ρ args (ns ++ ns') (t ++ t') (u ++ u') := by
  obtain ⟨ps, hps⟩ := h
  obtain ⟨qs, hqs⟩ := h'
  refine ⟨ps ++ qs, ⟨hps.clean.append hqs.clean hqs.head, ?_, ?_, ?_, ?_, ?_⟩⟩
  · rw [List.flatMap_append]
    exact hps.head.append hqs.head
  · intro n hn
    exact (List.mem_append.1 hn).elim (hps.bound n) (hqs.bound n)
  · rw [List.filterMap_append, hps.numbers, hqs.numbers]
  · rw [← hps.text, ← hqs.text]
    simp [write]
  · rw [← hps.inPlace, ← hqs.inPlace]
    simp

/-- A text without placeholders is added. -/
theorem after (h : Shows ρ args ns t u) (h' : Shows ρ args [] t' u') :
    Shows ρ args ns (t ++ t') (u ++ u') :=
  (h.append h').congr (List.append_nil ns)

/-- **A fragment is moved behind other arguments** and stands for the same. -/
theorem splice {f : Fragment} (h : Shows ρ f.args ns f.sql u) (hall : args ++ f.args <+: all)
    (hfits : all.length < 2 ^ 64) :
    Shows ρ all (ns.map (· + args.length)) (renumber f.sql args.length) u := by
  obtain ⟨ps, hps⟩ := h
  have hlength : args.length + f.args.length ≤ all.length := by
    simpa using hall.length_le
  have hshift : Clean (ps.map (.shift args.length)) := by
    refine hps.clean.shift fun n hn => ?_
    have hn := (hps.bound n (hps.numbers ▸ hn)).2
    omega
  refine ⟨ps.map (.shift args.length), ⟨hshift, ?_, ?_, ?_, ?_, ?_⟩⟩
  · rw [NoDigit, head?_write_shift]
    exact hps.head
  · simp only [List.mem_map]
    rintro _ ⟨n, hn, rfl⟩
    have hn := hps.bound n hn
    omega
  · rw [List.filterMap_map, ← hps.numbers, List.map_filterMap]
    exact List.filterMap_congr fun p _ => p.number?_shift args.length
  · rw [← hps.text, renumber, hps.clean.pieces_write]
    split
    · rename_i hzero
      rw [hzero, List.map_congr_left fun p _ => p.shift_zero, List.map_id']
    · rfl
  · rw [← hps.inPlace, List.flatMap_map]
    refine congrArg String.ofList (List.flatMap_congr fun p hp => ?_)
    refine Piece.inPlace_shift hall fun n hn => hps.bound n ?_
    rw [← hps.numbers]
    exact List.mem_filterMap.2 ⟨p, hp, hn⟩

/-- What a text is with the arguments of a fragment in place. -/
theorem inPlace_eq {f : Fragment} (h : Shows ρ f.args ns f.sql u) : f.inPlace ρ = u := by
  obtain ⟨ps, hps⟩ := h
  rw [Fragment.inPlace, ← hps.text, hps.clean.pieces_write]
  exact hps.inPlace

/-- **The placeholders of a fragment** are read as they were written. -/
theorem placeholders_eq {f : Fragment} (h : Shows ρ args ns f.sql u) :
    f.placeholders = ns ∧ .bare ∉ pieces f.sql := by
  obtain ⟨ps, hps⟩ := h
  rw [Fragment.placeholders, ← hps.text, hps.clean.pieces_write]
  exact ⟨hps.numbers, hps.clean.bare_not_mem⟩

end Shows

/-- Texts one after the other, with all their placeholders. -/
inductive ShowsAll (ρ : Value → String) (args : List Value) :
    List Nat → List String → List String → Prop
  | nil : ShowsAll ρ args [] [] []
  | cons {ns ns' t u ts us} : Shows ρ args ns t u → ShowsAll ρ args ns' ts us →
      ShowsAll ρ args (ns ++ ns') (t :: ts) (u :: us)

namespace ShowsAll

variable {ts us ts' us' : List String}

theorem append (h : ShowsAll ρ args ns ts us) (h' : ShowsAll ρ args ns' ts' us') :
    ShowsAll ρ args (ns ++ ns') (ts ++ ts') (us ++ us') := by
  induction h with
  | nil => exact h'
  | cons ht _ ih =>
    rw [List.append_assoc]
    exact .cons ht ih

/-- Texts without placeholders. -/
theorem map {α : Type} {f : α → String} {l : List α} (h : ∀ a ∈ l, Shows ρ args [] (f a) (f a)) :
    ShowsAll ρ args [] (l.map f) (l.map f) := by
  induction l with
  | nil => exact .nil
  | cons a l ih =>
    have hl := ih fun b hb => h b (List.mem_cons_of_mem a hb)
    exact .cons (h a List.mem_cons_self) hl

theorem intercalate (h : ShowsAll ρ args ns ts us) (hs : Plain s) :
    Shows ρ args ns (s.intercalate ts) (s.intercalate us) := by
  induction h with
  | nil => exact .literal rfl rfl
  | cons ht hts ih =>
    cases hts with
    | nil => exact ht.congr (List.append_nil _).symm
    | cons =>
      rw [String.intercalate_cons_cons, String.intercalate_cons_cons]
      exact (ht.after (.plain hs)).append ih

end ShowsAll

end Rationale.Sql
