import CompileHost.Proofs.HotReload.Bootstrap
import CompileHost.Proofs.Text.Filling

/-!
# The words of the template

The words of the template are filled in one after the other, and a word is looked for in the values
of the words before it as well.  In the template itself no word touches another, and none is part of
another name.  So the bootstrap is the template with all words filled in at once, each with its
value after the later words have been filled in there.

* `settled`: the values as they come out.
* `fill_eq_fillAtOnce`: one after the other and at once.
* `fillAtOnce_settled`: when the values come out as they are.
* `HotReloader.snippet_eq_fillAtOnce`: the bootstrap of a component.
-/

namespace CompileHost

namespace HotReload

open Text

variable {table : List (String × String)} {names : List (List Char)} {cs rest run : List Char}
  {c : Char}

/-! ## One after the other -/

/-- The words of a table with what they come to stand for if they are filled in one after the
other. -/
def settled : List (String × String) → List (String × String)
  | [] => []
  | (word, value) :: later => (word, String.ofList (fill later value.toList)) :: settled later

theorem fill_nil (cs : List Char) : fill [] cs = cs :=
  rfl

theorem fill_cons (word value : String) (table : List (String × String)) (cs : List Char) :
    fill ((word, value) :: table) cs = fill table (replaceWord word.toList value.toList cs) :=
  rfl

theorem fill_append (table more : List (String × String)) (cs : List Char) :
    fill (table ++ more) cs = fill more (fill table cs) :=
  List.foldl_append

theorem fill_of_absent (h : ∀ row ∈ table, ¬ row.1.toList <:+: cs) : fill table cs = cs := by
  induction table with
  | nil => rfl
  | cons row table ih =>
    rw [List.forall_mem_cons] at h
    rw [fill_cons, replaceWord_of_absent h.1, ih h.2]

/-- The values come out as they are if those of the words in the text hold no later word. -/
theorem fillAtOnce_settled (h : table.Pairwise fun row later =>
      row.1.toList <:+: cs → ¬ later.1.toList <:+: row.2.toList) :
    fillAtOnce (settled table) cs = fillAtOnce table cs := by
  refine replace_congr fun before later hSuffix => congrArg _ ?_
  induction table with
  | nil => rfl
  | cons row table ih =>
    obtain ⟨hRow, hTable⟩ := List.pairwise_cons.1 h
    by_cases hHere : row.1.toList <+: later
    · have hInfix : row.1.toList <:+: cs := hHere.isInfix.trans hSuffix.isInfix
      have hValue : fill table row.2.toList = row.2.toList :=
        fill_of_absent fun other hOther => hRow other hOther hInfix
      rw [settled, anyOf_cons_of_starts hHere, anyOf_cons_of_starts hHere, hValue,
        String.ofList_toList]
    · rw [settled, anyOf_cons_of_not_starts hHere, anyOf_cons_of_not_starts hHere, ih hTable]

/-! ## Words that stand apart -/

/-- A character that words are made of. -/
def isWordLetter (c : Char) : Bool :=
  c.isUpper || c == '_'

/-- Words that can be told apart, if they are looked for in this order. -/
structure AreWords (names : List (List Char)) : Prop where
  nonempty : ∀ name ∈ names, name ≠ []
  letters : ∀ name ∈ names, name.all isWordLetter = true
  apart : names.Pairwise fun name later => ¬ name <:+: later

/-- A text that is a word itself, or holds none. -/
def IsWordOrFree (names : List (List Char)) (run : List Char) : Prop :=
  run ∈ names ∨ ∀ name ∈ names, ¬ name <:+: run

instance (names : List (List Char)) (run : List Char) : Decidable (IsWordOrFree names run) :=
  inferInstanceAs (Decidable (_ ∨ _))

/-- A text in which every word stands between other characters. -/
def Spaced (names : List (List Char)) (cs : List Char) : Prop :=
  ∀ run ∈ cs.splitOnP (!isWordLetter ·), IsWordOrFree names run

instance (names : List (List Char)) (cs : List Char) : Decidable (Spaced names cs) :=
  inferInstanceAs (Decidable (∀ run ∈ _, _))

theorem spaced_append_cons_iff (hc : isWordLetter c = false) :
    Spaced names (cs ++ c :: rest) ↔ Spaced names cs ∧ Spaced names rest := by
  have hEnds : (!isWordLetter c) = true := by rw [hc, Bool.not_false]
  rw [Spaced, List.splitOnP_append_cons cs rest hEnds, List.forall_mem_append]
  rfl

/-- The names of the words of a table. -/
def namesOf (table : List (String × String)) : List (List Char) :=
  table.map (·.1.toList)

theorem namesOf_settled (table : List (String × String)) :
    namesOf (settled table) = namesOf table := by
  induction table with
  | nil => rfl
  | cons row table ih => exact congrArg (row.1.toList :: ·) ih

namespace AreWords

theorem tail {name : List Char} (h : AreWords (name :: names)) : AreWords names where
  nonempty := (List.forall_mem_cons.1 h.nonempty).2
  letters := (List.forall_mem_cons.1 h.letters).2
  apart := (List.pairwise_cons.1 h.apart).2

theorem ne_empty (h : AreWords (namesOf table)) : ∀ row ∈ table, row.1 ≠ "" := by
  intro row hRow hEmpty
  exact h.nonempty row.1.toList (List.mem_map_of_mem hRow) (hEmpty ▸ rfl)

theorem not_mem (h : AreWords (namesOf table)) (hc : isWordLetter c = false) :
    ∀ row ∈ table, c ∉ row.1.toList := by
  intro row hRow hMem
  rw [List.all_eq_true.1 (h.letters row.1.toList (List.mem_map_of_mem hRow)) c hMem] at hc
  cases hc

theorem spaced_nil (h : AreWords names) : Spaced names [] := by
  intro run hRun
  rw [List.mem_singleton.1 hRun]
  exact .inr fun name hName hInfix => h.nonempty name hName (List.infix_nil.1 hInfix)

theorem spaced_lines (h : AreWords names) {lines : List (List Char)}
    (hLines : ∀ line ∈ lines, Spaced names line) :
    Spaced names (lines.flatMap (· ++ ['\n'])) := by
  induction lines with
  | nil => exact h.spaced_nil
  | cons line lines ih =>
    rw [List.forall_mem_cons] at hLines
    rw [List.flatMap_cons, List.append_assoc, List.singleton_append]
    exact (spaced_append_cons_iff rfl).2 ⟨hLines.1, ih hLines.2⟩

theorem spaced_tabs (h : AreWords names) (depth : Nat) (hSpaced : Spaced names cs) :
    Spaced names (List.replicate depth '\t' ++ cs) := by
  induction depth with
  | zero => exact hSpaced
  | succ depth ih =>
    have hTab : isWordLetter '\t' = false := rfl
    exact (spaced_append_cons_iff hTab).2 ⟨h.spaced_nil, ih⟩

theorem fill_append_cons (h : AreWords (namesOf table)) (hc : isWordLetter c = false)
    (cs rest : List Char) :
    fill table (cs ++ c :: rest) = fill table cs ++ c :: fill table rest := by
  induction table generalizing cs rest with
  | nil => rfl
  | cons row table ih =>
    have hWord : row.1 ≠ "" := h.ne_empty row List.mem_cons_self
    have hSplit := replaceWord_append_cons hWord (h.not_mem hc row List.mem_cons_self) row.2
    rw [fill_cons, fill_cons, fill_cons, hSplit, ih h.tail]

theorem fill_run (h : AreWords (namesOf table)) (hRun : IsWordOrFree (namesOf table) run) :
    fill table run = fillAtOnce (settled table) run := by
  induction table with
  | nil => exact (fillAtOnce_nil run).symm
  | cons row table ih =>
    rw [fill_cons, settled]
    by_cases hHere : row.1.toList <:+: run
    · -- the word is part of the run, so it is the whole run
      have hWhole : run = row.1.toList := by
        rcases hRun with hMem | hNone
        · refine (List.mem_cons.1 hMem).resolve_right fun hLater => ?_
          exact (List.pairwise_cons.1 h.apart).1 run hLater hHere
        · exact absurd hHere (hNone row.1.toList List.mem_cons_self)
      have hWord : row.1 ≠ "" := h.ne_empty row List.mem_cons_self
      rw [hWhole, replaceWord_self hWord, fillAtOnce_word hWord, String.toList_ofList]
    · have hTail : IsWordOrFree (namesOf table) run := by
        refine hRun.imp (fun hMem => ?_) fun hNone => (List.forall_mem_cons.1 hNone).2
        exact (List.mem_cons.1 hMem).resolve_left fun hWhole => hHere (hWhole ▸ List.infix_rfl)
      rw [replaceWord_of_absent hHere, fillAtOnce_cons_of_absent hHere, ih h.tail hTail]

/-- In a text in which words stand apart, filling them in one after the other is filling them in at
once with the values that come out. -/
theorem fill_eq_fillAtOnce (h : AreWords (namesOf table)) (hSpaced : Spaced (namesOf table) cs) :
    fill table cs = fillAtOnce (settled table) cs := by
  induction hLength : cs.length using Nat.strongRecOn generalizing cs with
  | ind length ih =>
    subst hLength
    by_cases hOne : ∃ c ∈ cs, isWordLetter c = false
    · obtain ⟨c, hMem, hc⟩ := hOne
      obtain ⟨before, rest, rfl⟩ := List.append_of_mem hMem
      obtain ⟨hSpacedBefore, hSpacedRest⟩ := (spaced_append_cons_iff hc).1 hSpaced
      have hBefore := ih before.length (by simp) hSpacedBefore rfl
      have hRest := ih rest.length (by simp; omega) hSpacedRest rfl
      have hSettled : AreWords (namesOf (settled table)) := by rwa [namesOf_settled]
      rw [h.fill_append_cons hc, hBefore, hRest,
        fillAtOnce_append_cons hSettled.ne_empty (hSettled.not_mem hc)]
    · have hLetters : ∀ c ∈ cs, (!isWordLetter c) = false := by
        intro c hMem
        rw [Bool.not_eq_false', ← Bool.not_eq_false]
        exact fun hc => hOne ⟨c, hMem, hc⟩
      rw [Spaced, List.splitOnP_eq_singleton hLetters] at hSpaced
      exact h.fill_run (hSpaced cs List.mem_cons_self)

end AreWords

/-! ## The template -/

/-- All words of the template, in the order in which they are filled in. -/
def wordNames : List (List Char) :=
  ["HOTRELOADAPI".toList, "HOTRELOADNAME".toList, "UDMODULE".toList, "COMPONENT_BASE".toList,
    "FRAMEWORK".toList, "COMP_ID".toList]

theorem areWords_wordNames : AreWords wordNames where
  nonempty := by decide
  letters := by decide
  apart := by decide

theorem spaced_templateLines (template : HotReloadTemplate) :
    ∀ line ∈ template.opening ++ template.closing, Spaced wordNames line.toList := by
  cases template <;>
    simp only [HotReloadTemplate.opening, HotReloadTemplate.closing, HotReloadTemplate.commonLines,
      wordNames, List.cons_append, List.nil_append, List.forall_mem_cons]
  all_goals
    -- the characters of the literals, which are costly to decode
    repeat rw [String.toList_ofList]
    decide +kernel

theorem spaced_strategyLines (strategy : HotReloadStrategy) :
    ∀ line ∈ strategy.lines, Spaced wordNames line.toList := by
  cases strategy <;> simp only [HotReloadStrategy.lines, wordNames, List.forall_mem_cons]
  all_goals
    repeat rw [String.toList_ofList]
    decide +kernel

/-- In the template every word stands apart. -/
theorem spaced_text (template : HotReloadTemplate) (strategy : HotReloadStrategy) :
    Spaced wordNames (template.text strategy) := by
  obtain ⟨hOpening, hClosing⟩ := List.forall_mem_append.1 (spaced_templateLines template)
  refine areWords_wordNames.spaced_lines ?_
  simp only [List.forall_mem_append, List.forall_mem_map]
  refine ⟨⟨hOpening, fun line hLine => ?_⟩, hClosing⟩
  exact areWords_wordNames.spaced_tabs _ (spaced_strategyLines strategy line hLine)

/-- What the words of the template stand for. -/
def wordTable (t : FileTree) (directory : String) (runtime : HotReloadRuntime) (id : String) :
    List (String × String) :=
  words t directory runtime ++ [("COMP_ID", id)]

/-- The template that a runtime asks for. -/
def templateOf (runtime : HotReloadRuntime) : List Char :=
  runtime.capabilities.template.text runtime.capabilities.strategy

end HotReload

namespace HotReloader

open HotReload Text

variable {t : FileTree} {directory : String} {runtime : HotReloadRuntime}
  {excluded : List String} {reloader : HotReloader}

theorem toList_bootstrap (t : FileTree) (directory : String) (runtime : HotReloadRuntime) :
    (HotReload.bootstrap t directory runtime).toList =
      fill (words t directory runtime) (templateOf runtime) :=
  String.toList_ofList

theorem toList_snippet (hOf : HotReloader.of t directory runtime excluded = .ok reloader)
    (id : String) :
    (reloader.snippet id).toList =
      fill (wordTable t directory runtime id) (templateOf runtime) := by
  rw [snippet, String.toList_ofList, (of_eq_ok hOf).1, toList_bootstrap, wordTable, fill_append,
    fill_cons, fill_nil]

/-- **The words of the template.**  A bootstrap is the template with all words filled in at once,
each with its value after the later words have been filled in there.  So they stand for what the
runtime says if no value of a word of the template holds a word that is filled in later. -/
theorem snippet_eq_fillAtOnce (hOf : HotReloader.of t directory runtime excluded = .ok reloader)
    (id : String) :
    (reloader.snippet id).toList =
        fillAtOnce (settled (wordTable t directory runtime id)) (templateOf runtime) ∧
      (((wordTable t directory runtime id).Pairwise fun row later =>
          row.1.toList <:+: templateOf runtime → ¬ later.1.toList <:+: row.2.toList) →
        (reloader.snippet id).toList =
          fillAtOnce (wordTable t directory runtime id) (templateOf runtime)) := by
  have hWords : AreWords (namesOf (wordTable t directory runtime id)) := areWords_wordNames
  have hSpaced : Spaced (namesOf (wordTable t directory runtime id)) (templateOf runtime) :=
    spaced_text _ _
  have hAtOnce : (reloader.snippet id).toList =
      fillAtOnce (settled (wordTable t directory runtime id)) (templateOf runtime) := by
    rw [toList_snippet hOf, hWords.fill_eq_fillAtOnce hSpaced]
  exact ⟨hAtOnce, fun hLater => hAtOnce.trans (fillAtOnce_settled hLater)⟩

/-- A value may hold a word that has been filled in before. -/
theorem snippet_eq_fillAtOnce_earlier_word :
    let t : FileTree := ⟨[], []⟩
    let runtime : HotReloadRuntime := { framework := "HOTRELOADAPI" }
    let table := wordTable t "/" runtime "1"
    ∃ reloader, HotReloader.of t "/" runtime [] = .ok reloader ∧
      (table.Pairwise fun row later =>
        row.1.toList <:+: templateOf runtime → ¬ later.1.toList <:+: row.2.toList) ∧
      (reloader.snippet "1").toList = fillAtOnce (settled table) (templateOf runtime) ∧
      (reloader.snippet "1").toList = fillAtOnce table (templateOf runtime) := by
  intro t runtime table
  have hLater : table.Pairwise fun row later => ¬ later.1.toList <:+: row.2.toList := by
    decide +kernel
  have hUsed := hLater.imp fun {row later} hNone (_ : row.1.toList <:+: templateOf runtime) => hNone
  obtain ⟨hSettled, hAtOnce⟩ := @snippet_eq_fillAtOnce t "/" runtime [] _ rfl "1"
  exact ⟨_, rfl, hUsed, hSettled, hAtOnce hUsed⟩

/-- The name of a module is taken for a word of the template. -/
theorem module_name_taken_for_word :
    let t : FileTree := ⟨[], []⟩
    let runtime : HotReloadRuntime := {
      hotReloadApi := "FRAMEWORK"
      capabilities := { rerender := false, wrapsPlainModules := false } }
    let table := wordTable t "/" runtime "1"
    ∃ reloader, HotReloader.of t "/" runtime [] = .ok reloader ∧
      (reloader.snippet "1").toList ≠ fillAtOnce table (templateOf runtime) := by
  intro t runtime table
  refine ⟨_, rfl, ?_⟩
  rw [@toList_snippet t "/" runtime [] _ rfl]
  have hText : templateOf runtime = HotReloadTemplate.text .component .update := rfl
  rw [hText]
  simp only [HotReloadTemplate.text, HotReloadTemplate.opening, HotReloadTemplate.closing,
    HotReloadTemplate.commonLines, HotReloadStrategy.lines, List.cons_append, List.nil_append,
    List.map_cons, List.map_nil]
  repeat rw [String.toList_ofList]
  decide +kernel

end HotReloader

end CompileHost
