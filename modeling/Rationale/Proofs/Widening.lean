/-
  Rationale — what one filter more does to a page.

  Filters widen a page: it has what any of them leads to.  But a request has at
  most one filter of a name, so a filter that is given again does not widen the
  page, it replaces what was given before: of each name only the last text
  counts (`LastGiven`).

  * `parse_filterFlags`: what the flags of a command line give;
  * `filters_of_request`: the filters of a request are the last ones given;
  * `mem_matching_of_request`: what is selected answers one of them;
  * `matching_of_filter_more`: one filter more selects what it leads to beside
    what was selected, except by a filter of its name;
  * `matching_of_filter_again`: and that can be lost.
-/
import Rationale.CommandLine
import Rationale.Proofs.Progress
import Rationale.Proofs.Selection

namespace Rationale

open Query

variable {db : Store} {j : JustificationRow} {o : PageOptions} {s : Settings} {r r' : Request}
  {fs : Filters} {ss : List Selection} {name name' : FilterName} {value value' : FilterValue}
  {text : String} {texts : List String}

/-! ## Flags -/

/-- A text that reads as a filter does not look like an option. -/
theorem Query.head_of_parseFilter (h : parseFilter text = .ok (name, value)) :
    text.toList.head? ≠ some '-' := by
  intro hdash
  obtain ⟨cs, hcs⟩ := List.head?_eq_some_iff.1 hdash
  unfold parseFilter at h
  split at h
  · cases h
  · rename_i key values hsplit
    split at h
    · cases h
    · rename_i name' hread
      have hexact : Coded.Exact FilterName := by decide
      have hkey : String.ofList key = Coded.text name' :=
        hexact.decode_eq_ok.1 (Coded.decode_eq_ok.2 hread)
      have hhead : key.head? = some '-' := by
        rw [hcs] at hsplit
        unfold splitFirst? at hsplit
        split at hsplit
        · cases hsplit
        · cases hsplit
          rfl
      have hnone : (Coded.text name').toList.head? ≠ some '-' := by
        cases name' <;> decide
      rw [← hkey, String.toList_ofList] at hnone
      exact hnone hhead

theorem Arg.ofString_of_head (h : text.toList.head? ≠ some '-') :
    Arg.ofString text = .plain text := by
  unfold Arg.ofString
  split <;> simp_all

/-- The option for filters, once for each text. -/
def filterFlags (texts : List String) : List String :=
  texts.flatMap fun text => ["--filter", text]

theorem PageOptions.parse_filter (h : Arg.ofString text = .plain text) (args : List String) :
    o.parse ("--filter" :: text :: args) =
      PageOptions.parse { o with filters := o.filters ++ [text] } args := by
  have hflag : Arg.ofString "--filter" = .long "filter".toList none := by decide
  have hvalue : optionValue none (text :: args) = some (text, args) := by
    simp only [optionValue, h]
  rw [PageOptions.parse]
  simp only [hflag]
  rw [if_pos (by decide)]
  split
  · rename_i hnone
    rw [hvalue] at hnone
    cases hnone
  · rename_i value rest hsome
    rw [hvalue] at hsome
    cases hsome
    simp [PageOptions.take]

/-- **Flags with texts that read as filters give these texts**, behind those given already. -/
theorem PageOptions.parse_filterFlags (args : List String)
    (h : ∀ text ∈ texts, ∃ name value, parseFilter text = .ok (name, value)) :
    o.parse (filterFlags texts ++ args) =
      PageOptions.parse { o with filters := o.filters ++ texts } args := by
  induction texts generalizing o with
  | nil => simp [filterFlags]
  | cons text texts ih =>
    obtain ⟨name, value, htext⟩ := h text (by simp)
    have hplain := Arg.ofString_of_head (head_of_parseFilter htext)
    have hcons : filterFlags (text :: texts) ++ args =
        "--filter" :: text :: (filterFlags texts ++ args) := rfl
    rw [hcons, parse_filter hplain, ih fun text' htext' => h text' (by simp [htext'])]
    simp

/-- The command of such a line. -/
theorem Invocation.parse_filterFlags (texts : List String)
    (h : ∀ text ∈ texts, ∃ name value, parseFilter text = .ok (name, value)) :
    parse ("justifications" :: filterFlags texts) =
      .ok ⟨"warrant.toml", .justifications { filters := texts }⟩ := by
  have hname : Arg.ofString "justifications" = .plain "justifications" := by decide
  have hoptions := PageOptions.parse_filterFlags (o := {}) [] h
  rw [List.append_nil, List.nil_append, PageOptions.parse] at hoptions
  rw [parse, parseFrom]
  simp only [hname, Command.ofName, hoptions]
  rfl

/-! ## The last texts -/

/-- Some text has the name. -/
def Given (name : FilterName) (texts : List String) : Prop :=
  ∃ text ∈ texts, ∃ value, parseFilter text = .ok (name, value)

/-- The last text that has the name gives it the value. -/
inductive LastGiven (name : FilterName) (value : FilterValue) : List String → Prop
  | head {text : String} {texts : List String} : parseFilter text = .ok (name, value) →
      ¬ Given name texts → LastGiven name value (text :: texts)
  | tail {text : String} {texts : List String} : LastGiven name value texts →
      LastGiven name value (text :: texts)

theorem given_cons (h : parseFilter text = .ok (name', value')) :
    Given name (text :: texts) ↔ name = name' ∨ Given name texts := by
  simp [Given, h, eq_comm (a := name)]

theorem LastGiven.given (h : LastGiven name value texts) : Given name texts := by
  induction h with
  | head htext => exact ⟨_, by simp, _, htext⟩
  | tail _ ih =>
    obtain ⟨text, htext, hread⟩ := ih
    exact ⟨text, by simp [htext], hread⟩

theorem lastGiven_cons (h : parseFilter text = .ok (name', value')) :
    LastGiven name value (text :: texts) ↔
      LastGiven name value texts ∨ name = name' ∧ value = value' ∧ ¬ Given name texts := by
  constructor
  · rintro (⟨htext, hnot⟩ | hlast)
    · rw [h] at htext
      cases htext
      exact .inr ⟨rfl, rfl, hnot⟩
    · exact .inl hlast
  · rintro (hlast | ⟨rfl, rfl, hnot⟩)
    · exact .tail hlast
    · exact .head h hnot

/-- The last of some texts with the name is given, if there is one. -/
theorem exists_lastGiven (h : Given name texts) : ∃ value, LastGiven name value texts := by
  induction texts with
  | nil =>
    obtain ⟨text, htext, -⟩ := h
    cases htext
  | cons text texts ih =>
    by_cases hlater : Given name texts
    · obtain ⟨value, hlast⟩ := ih hlater
      exact ⟨value, .tail hlast⟩
    · obtain ⟨text', htext', value, hread⟩ := h
      rcases List.mem_cons.1 htext' with rfl | htext'
      · exact ⟨value, .head hread hlater⟩
      · exact absurd ⟨text', htext', value, hread⟩ hlater

/-! ## The request of a command line -/

theorem addArgs_cons {option : String} {add : Request → List String → Except Fault Request}
    {args : List String} :
    addArgs option add r (text :: args) = .ok r' ↔
      ∃ r₁, add r [text] = .ok r₁ ∧ addArgs option add r₁ args = .ok r' := by
  rw [addArgs]
  cases add r [text] with
  | error fault => simp
  | ok r₁ => simp

/-- The next text of the filters. -/
theorem addArgs_filter_cons :
    addArgs "filter" Request.withFilterArgs r (text :: texts) = .ok r' ↔
      ∃ name value, parseFilter text = .ok (name, value) ∧
        addArgs "filter" Request.withFilterArgs (r.withFilter name value) texts = .ok r' := by
  simp only [addArgs_cons, Request.withFilterArgs, bind_eq_ok, Except.ok.injEq]
  constructor
  · rintro ⟨r₁, ⟨⟨name, value⟩, htext, rfl⟩, h⟩
    exact ⟨name, value, htext, h⟩
  · rintro ⟨name, value, htext, h⟩
    exact ⟨_, ⟨⟨name, value⟩, htext, rfl⟩, h⟩

theorem addArgs_append {option : String} {add : Request → List String → Except Fault Request}
    (args args' : List String) :
    addArgs option add r (args ++ args') =
      addArgs option add r args >>= fun r => addArgs option add r args' := by
  induction args generalizing r with
  | nil => rfl
  | cons arg args ih =>
    rw [List.cons_append, addArgs, addArgs]
    cases add r [arg] with
    | error fault => rfl
    | ok r => exact ih

theorem filters_withFilter :
    (r.withFilter name' value').filters name = some value ↔
      name = name' ∧ value = value' ∨ name ≠ name' ∧ r.filters name = some value := by
  show (if name = name' then some value' else r.filters name) = some value ↔ _
  by_cases hname : name = name'
  · simp [hname, eq_comm (a := value)]
  · simp [hname]

/-- The filters after some texts: the last ones given, then those before. -/
theorem filters_of_addArgs (h : addArgs "filter" Request.withFilterArgs r texts = .ok r') :
    r'.filters name = some value ↔
      LastGiven name value texts ∨ ¬ Given name texts ∧ r.filters name = some value := by
  induction texts generalizing r with
  | nil =>
    cases h
    constructor
    · intro hvalue
      exact .inr ⟨fun ⟨_, hmem, _⟩ => List.not_mem_nil hmem, hvalue⟩
    · rintro (hlast | ⟨-, hvalue⟩)
      · cases hlast
      · exact hvalue
  | cons text texts ih =>
    obtain ⟨name', value', htext, h⟩ := addArgs_filter_cons.1 h
    -- this text counts only if none behind it has its name
    rw [ih h, lastGiven_cons htext, given_cons htext, filters_withFilter]
    grind

/-- Sorts are added to any filters, which they leave as they are. -/
theorem addArgs_sort {args : List String}
    (h : addArgs "sort" Request.withSortArgs r args = .ok r') :
    r'.filters = r.filters ∧
      ∀ fs, addArgs "sort" Request.withSortArgs { r with filters := fs } args =
        .ok { r' with filters := fs } := by
  induction args generalizing r with
  | nil =>
    cases h
    exact ⟨rfl, fun _ => rfl⟩
  | cons arg args ih =>
    obtain ⟨r₁, h₁, h⟩ := addArgs_cons.1 h
    obtain ⟨d, hd, h₁⟩ := bind_eq_ok.1 h₁
    cases h₁
    refine ⟨(ih h).1, fun fs => addArgs_cons.2 ⟨_, ?_, (ih h).2 fs⟩⟩
    rw [Request.withSortArgs, hd]
    rfl

theorem request_eq_ok :
    o.request s = .ok r ↔
      ∃ r₁, addArgs "filter" Request.withFilterArgs { count := o.count.getD s.defaultCount }
        o.filters = .ok r₁ ∧
      ∃ r₂, addArgs "sort" Request.withSortArgs r₁ o.sorts = .ok r₂ ∧
        r = { r₂ with
          isContinuation := o.isContinuation
          includeUrls := o.includeUrls || s.includeUrls } := by
  simp only [PageOptions.request, bind_eq_ok, pure_eq_ok, eq_comm (a := r)]

/-- **The filters of a request are the last ones given.** -/
theorem filters_of_request (h : o.request s = .ok r) :
    r.filters name = some value ↔ LastGiven name value o.filters := by
  obtain ⟨r₁, h₁, r₂, h₂, rfl⟩ := request_eq_ok.1 h
  show r₂.filters name = some value ↔ _
  rw [(addArgs_sort h₂).1, filters_of_addArgs h₁]
  simp

/-- With one filter more there is a request, too. -/
theorem request_of_filter_more (h : o.request s = .ok r)
    (htext : parseFilter text = .ok (name, value)) :
    PageOptions.request { o with filters := o.filters ++ [text] } s =
      .ok (r.withFilter name value) := by
  obtain ⟨r₁, h₁, r₂, h₂, rfl⟩ := request_eq_ok.1 h
  obtain ⟨hfilters, hsorts⟩ := addArgs_sort h₂
  refine request_eq_ok.2 ⟨r₁.withFilter name value, ?_, r₂.withFilter name value, ?_, rfl⟩
  · rw [addArgs_append, h₁, ok_bind]
    exact addArgs_filter_cons.2 ⟨name, value, htext, rfl⟩
  · rw [Request.withFilter, Request.withFilter, hfilters]
    exact hsorts _

/-- The last filter given is the new one, or one of another name before it. -/
theorem lastGiven_concat (hr : o.request s = .ok r) (htext : parseFilter text = .ok (name, value)) :
    LastGiven name' value' (o.filters ++ [text]) ↔
      name' = name ∧ value' = value ∨ name' ≠ name ∧ LastGiven name' value' o.filters := by
  have hr' := request_of_filter_more hr htext
  calc LastGiven name' value' (o.filters ++ [text])
      ↔ (r.withFilter name value).filters name' = some value' := (filters_of_request hr').symm
    _ ↔ name' = name ∧ value' = value ∨ name' ≠ name ∧ r.filters name' = some value' :=
      filters_withFilter
    _ ↔ _ := by rw [filters_of_request hr]

/-- Texts that give a request give some filter. -/
theorem exists_lastGiven_of_request (hne : o.filters ≠ []) (h : o.request s = .ok r) :
    ∃ name value, LastGiven name value o.filters := by
  obtain ⟨r₁, h₁, -⟩ := request_eq_ok.1 h
  obtain ⟨text, texts, htexts⟩ := List.exists_cons_of_ne_nil hne
  rw [htexts] at h₁ ⊢
  obtain ⟨name, value, htext, -⟩ := addArgs_filter_cons.1 h₁
  exact ⟨name, exists_lastGiven ⟨text, by simp, value, htext⟩⟩

/-! ## What the filters select -/

namespace Query

theorem exists_selectionsFor {names : List FilterName}
    (h : ∀ name value, fs name = some value → ∃ vs, filterValues name value = .ok vs) :
    ∃ ss, selectionsFor fs names = .ok ss := by
  induction names with
  | nil => exact ⟨[], rfl⟩
  | cons name names ih =>
    obtain ⟨rest, hrest⟩ := ih
    rw [selectionsFor]
    cases hname : fs name with
    | none => exact ⟨rest, hrest⟩
    | some value =>
      obtain ⟨vs, hvs⟩ := h name value hname
      exact ⟨_, bind_eq_ok.2 ⟨vs, hvs, bind_eq_ok.2 ⟨rest, hrest, rfl⟩⟩⟩

theorem selections_of_some (h : fs name = some value) :
    selections fs = selectionsFor fs FilterName.all := by
  refine if_neg fun hall => ?_
  have hnone := List.all_eq_true.1 hall name (FilterName.mem_all name)
  rw [h] at hnone
  cases hnone

/-- Values that can be read make a filter that can be added. -/
theorem exists_selections_withFilter {vs : List Sql.Value} (h : selections r.filters = .ok ss)
    (hvs : filterValues name value = .ok vs) :
    ∃ ss', selections (r.withFilter name value).filters = .ok ss' := by
  have hnew : (r.withFilter name value).filters name = some value :=
    filters_withFilter.2 (.inl ⟨rfl, rfl⟩)
  rw [selections_of_some hnew]
  refine exists_selectionsFor fun name' value' h' => ?_
  rcases filters_withFilter.1 h' with ⟨rfl, rfl⟩ | ⟨-, hold⟩
  · exact ⟨vs, hvs⟩
  · rw [selections_of_some hold] at h
    exact exists_filterValues h (FilterName.mem_all name') hold

end Query

/-- **What is selected answers one of the last filters given.** -/
theorem mem_matching_of_request (hne : o.filters ≠ []) (hr : o.request s = .ok r)
    (hss : selections r.filters = .ok ss) :
    j ∈ db.matching ss ↔ j ∈ db.justifications.live ∧
      ∃ name value, LastGiven name value o.filters ∧ db.Answers j name value := by
  obtain ⟨name, value, hlast⟩ := exists_lastGiven_of_request hne hr
  rw [selections_of_some ((filters_of_request hr).2 hlast)] at hss
  simp only [Store.mem_matching, Store.exists_selects_iff hss, filters_of_request hr]

/-! ## One filter more -/

/-- **One filter more widens a page, but replaces a filter of its name.**  Where
    texts give a request, they give one with a text more.  It selects what
    answers the new filter, and what answers the last given of another name; so
    nothing is lost if the name has not been given before. -/
theorem matching_of_filter_more {vs : List Sql.Value} (hne : o.filters ≠ [])
    (hr : o.request s = .ok r) (hss : selections r.filters = .ok ss)
    (htext : parseFilter text = .ok (name, value)) (hvs : filterValues name value = .ok vs)
    (db : Store) :
    ∃ r' ss', PageOptions.request { o with filters := o.filters ++ [text] } s = .ok r' ∧
      selections r'.filters = .ok ss' ∧
      (∀ j, j ∈ db.matching ss ↔ j ∈ db.justifications.live ∧
        ∃ name value, LastGiven name value o.filters ∧ db.Answers j name value) ∧
      (∀ j, j ∈ db.matching ss' ↔ j ∈ db.justifications.live ∧
        (db.Answers j name value ∨ ∃ name' value', name' ≠ name ∧
          LastGiven name' value' o.filters ∧ db.Answers j name' value')) ∧
      (¬ Given name o.filters → db.matching ss ⊆ db.matching ss') := by
  have hr' := request_of_filter_more hr htext
  obtain ⟨ss', hss'⟩ := exists_selections_withFilter hss hvs
  have hbefore : ∀ j, j ∈ db.matching ss ↔ j ∈ db.justifications.live ∧
      ∃ name value, LastGiven name value o.filters ∧ db.Answers j name value :=
    fun j => mem_matching_of_request hne hr hss
  have hafter : ∀ j, j ∈ db.matching ss' ↔ j ∈ db.justifications.live ∧
      (db.Answers j name value ∨ ∃ name' value', name' ≠ name ∧
        LastGiven name' value' o.filters ∧ db.Answers j name' value') := by
    intro j
    rw [mem_matching_of_request (by simp) hr' hss']
    refine and_congr_right fun _ => ⟨?_, ?_⟩
    · rintro ⟨name', value', h, hj⟩
      rcases (lastGiven_concat hr htext).1 h with ⟨rfl, rfl⟩ | ⟨hother, h⟩
      · exact .inl hj
      · exact .inr ⟨name', value', hother, h, hj⟩
    · rintro (hj | ⟨name', value', hother, h, hj⟩)
      · exact ⟨name, value, (lastGiven_concat hr htext).2 (.inl ⟨rfl, rfl⟩), hj⟩
      · exact ⟨name', value', (lastGiven_concat hr htext).2 (.inr ⟨hother, h⟩), hj⟩
  refine ⟨_, ss', hr', hss', hbefore, hafter, ?_⟩
  intro hnew j hj
  obtain ⟨hlive, name', value', h, hj⟩ := (hbefore j).1 hj
  refine (hafter j).2 ⟨hlive, .inr ⟨name', value', ?_, h, hj⟩⟩
  rintro rfl
  exact hnew h.given

theorem matching_of_filter_more_excerpt :
    ∃ r ss r' ss', PageOptions.request { filters := ["justificationId=1"] } {} = .ok r ∧
      selections r.filters = .ok ss ∧
      PageOptions.request { filters := ["justificationId=1", "mediaExcerptId=1"] } {} = .ok r' ∧
      selections r'.filters = .ok ss' ∧ Store.debate.matching ss ⊆ Store.debate.matching ss' := by
  have hone : parseFilter "justificationId=1" = .ok (.justificationId, .one "1") := rfl
  have hmore : parseFilter "mediaExcerptId=1" = .ok (.mediaExcerptId, .one "1") := rfl
  obtain ⟨r', ss', hr', hss', -, -, hwider⟩ := matching_of_filter_more
    (o := { filters := ["justificationId=1"] }) (s := {}) (by decide) rfl rfl hmore rfl Store.debate
  refine ⟨_, _, r', ss', rfl, rfl, hr', hss', hwider ?_⟩
  rw [given_cons hone]
  simp [Given]

/-- A filter that is given again takes a justification from the page. -/
theorem matching_of_filter_again :
    ∃ o o' r r' ss ss',
      Invocation.parse ["justifications", "--filter", "justificationId=1"] =
        .ok ⟨"warrant.toml", .justifications o⟩ ∧
      Invocation.parse ["justifications", "--filter", "justificationId=1",
        "--filter", "justificationId=2"] = .ok ⟨"warrant.toml", .justifications o'⟩ ∧
      o.request {} = .ok r ∧ o'.request {} = .ok r' ∧
      selections r.filters = .ok ss ∧ selections r'.filters = .ok ss' ∧
      (Store.debate.matching ss).map (·.id) = [1] ∧
      (Store.debate.matching ss').map (·.id) = [2] := by
  have hone : parseFilter "justificationId=1" = .ok (.justificationId, .one "1") := rfl
  have htwo : parseFilter "justificationId=2" = .ok (.justificationId, .one "2") := rfl
  refine ⟨_, _, _, _, _, _, Invocation.parse_filterFlags ["justificationId=1"] ?_,
    Invocation.parse_filterFlags ["justificationId=1", "justificationId=2"] ?_,
    rfl, rfl, rfl, rfl, by decide, by decide⟩
  · intro text htext
    obtain rfl := List.mem_singleton.1 htext
    exact ⟨_, _, hone⟩
  · intro text htext
    rcases Store.eq_of_mem_pair htext with rfl | rfl
    · exact ⟨_, _, hone⟩
    · exact ⟨_, _, htwo⟩

end Rationale
