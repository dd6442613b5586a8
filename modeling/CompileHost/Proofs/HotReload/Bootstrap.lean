import CompileHost.HotReload.Bootstrap
import CompileHost.Proofs.Text.Cutting
import Mathlib.Data.List.TakeWhile

/-!
# What the bootstrap adds to a module

Whatever the runtime decides is filled in behind the first line of the template, so no setting can
leave the bootstrap empty.  Putting it into a module drops nothing but white space, and so always
leaves more visible characters than there were.

* `visible_splice`: the visible characters of a module with code put into it.
* `HotReloader.guard_prefix_snippet`: every bootstrap opens with the question whether there is hot
  reload.
* `HotReloader.inject_ne`: a module never looks the same with the bootstrap in it.
-/

namespace CompileHost

namespace Text

/-- The number of characters that can be seen. -/
def visible (cs : List Char) : Nat :=
  cs.countP (!isBlank ·)

@[simp]
theorem visible_append (cs ds : List Char) : visible (cs ++ ds) = visible cs + visible ds :=
  List.countP_append

@[simp]
theorem visible_reverse (cs : List Char) : visible cs.reverse = visible cs :=
  List.countP_reverse

theorem visible_dropWhile (cs : List Char) : visible (cs.dropWhile isBlank) = visible cs := by
  have hDropped : visible (cs.takeWhile isBlank) = 0 := by
    rw [visible, List.countP_eq_zero]
    intro c hc
    simp [List.mem_takeWhile_imp hc]
  calc visible (cs.dropWhile isBlank)
      = visible (cs.takeWhile isBlank ++ cs.dropWhile isBlank) := by
        rw [visible_append, hDropped, Nat.zero_add]
    _ = visible cs := by rw [List.takeWhile_append_dropWhile]

theorem visible_trim (cs : List Char) : visible (trim cs) = visible cs := by
  rw [trim, stripBoth, dropEndWhile, visible_reverse, visible_dropWhile, visible_reverse,
    visible_dropWhile]

/-! ## Replacing words behind a beginning without them -/

/-- A beginning that does not hold the first character of a word. -/
def AvoidsStart (word start : List Char) : Prop :=
  ∃ first rest, word = first :: rest ∧ first ∉ start

theorem prefix_cutAfter {first : Char} {rest value start : List Char} (hFirst : first ∉ start)
    (before : Option Char) (cs : List Char) :
    start <+: (cutAfter (literally (first :: rest)) before 0 (start ++ cs)).flatMap
      (Sum.elim (fun c => [c]) fun _ => value) := by
  induction start generalizing before with
  | nil => exact List.nil_prefix
  | cons c start ih =>
    rw [List.mem_cons, not_or] at hFirst
    have hNone : literally (first :: rest) before (c :: (start ++ cs)) = none := by
      simp [literally, startsWith, stripStart?, hFirst.1]
    rw [List.cons_append, cutAfter, hNone]
    exact (List.prefix_cons_inj c).2 (ih hFirst.2 (some c))

/-- The beginning stays. -/
theorem prefix_replaceWord {word value start cs : List Char} (hAvoids : AvoidsStart word start)
    (hStart : start <+: cs) : start <+: replaceWord word value cs := by
  obtain ⟨first, wordRest, rfl, hFirst⟩ := hAvoids
  obtain ⟨rest, rfl⟩ := hStart
  rw [replaceWord, replace_eq]
  exact prefix_cutAfter hFirst none rest

end Text

namespace HotReload

open Text

/-- What every bootstrap opens with. -/
def guard : List Char := "if (module.hot) \x7b".toList

theorem guard_prefix_text (template : HotReloadTemplate) (strategy : HotReloadStrategy) :
    guard <+: template.text strategy := by
  cases template <;> exact List.prefix_append _ _

theorem prefix_fill {start cs : List Char} {words : List (String × String)}
    (hAvoids : ∀ pair ∈ words, AvoidsStart pair.1.toList start) (hStart : start <+: cs) :
    start <+: fill words cs := by
  induction words generalizing cs with
  | nil => exact hStart
  | cons pair words ih =>
    rw [List.forall_mem_cons] at hAvoids
    exact ih hAvoids.2 (prefix_replaceWord hAvoids.1 hStart)

theorem avoidsStart_guard {t : FileTree} {directory : String} {r : HotReloadRuntime} :
    ∀ pair ∈ words t directory r, AvoidsStart pair.1.toList guard := by
  simp only [words, List.forall_mem_cons, List.not_mem_nil, false_implies, implies_true, and_true]
  refine ⟨⟨'H', _, rfl, ?_⟩, ⟨'H', _, rfl, ?_⟩, ⟨'U', _, rfl, ?_⟩, ⟨'C', _, rfl, ?_⟩,
    ⟨'F', _, rfl, ?_⟩⟩
  all_goals decide

theorem guard_prefix_bootstrap (t : FileTree) (directory : String) (r : HotReloadRuntime) :
    guard <+: (bootstrap t directory r).toList := by
  rw [bootstrap, String.toList_ofList]
  exact prefix_fill avoidsStart_guard (guard_prefix_text _ _)

/-- Only white space is lost where code is put into a module. -/
theorem visible_splice (text snippet : String) :
    visible (splice text snippet).toList = visible text.toList + visible snippet.toList := by
  unfold splice
  split
  · rename_i before rest hCut
    rw [eq_append_of_splitBefore? hCut]
    simp only [String.toList_append, String.toList_ofList, visible_append]
    omega
  · simp only [String.toList_append, String.toList_ofList, visible_append, visible_trim]
    have hBreak : visible "\n".toList = 0 := by decide
    rw [hBreak, Nat.add_zero]

end HotReload

namespace HotReloader

open HotReload Text

/-- A reloader with a bootstrap that has been rendered from a template. -/
def IsRendered (reloader : HotReloader) : Prop :=
  ∃ t directory runtime excluded, HotReloader.of t directory runtime excluded = .ok reloader

theorem of_eq_ok {t : FileTree} {directory : String} {runtime : HotReloadRuntime}
    {excluded : List String} {reloader : HotReloader}
    (hOf : HotReloader.of t directory runtime excluded = .ok reloader) :
    reloader.bootstrap = HotReload.bootstrap t directory runtime ∧
      Exclusion.of excluded = .ok reloader.exclusion := by
  unfold HotReloader.of at hOf
  cases hExclusion : Exclusion.of excluded with
  | error e =>
    rw [hExclusion] at hOf
    cases hOf
  | ok exclusion =>
    rw [hExclusion] at hOf
    rw [← Except.ok.inj hOf]
    exact ⟨rfl, rfl⟩

theorem IsRendered.guard_prefix_snippet {reloader : HotReloader} (hr : reloader.IsRendered)
    (id : String) : guard <+: (reloader.snippet id).toList := by
  obtain ⟨t, directory, runtime, excluded, hOf⟩ := hr
  rw [snippet, String.toList_ofList, (of_eq_ok hOf).1]
  exact prefix_replaceWord ⟨'C', _, rfl, by decide⟩ (guard_prefix_bootstrap t directory runtime)

theorem IsRendered.inject_ne {reloader : HotReloader} (hr : reloader.IsRendered)
    (text id : String) : reloader.inject text id ≠ text := by
  intro hEq
  obtain ⟨rest, hSnippet⟩ := hr.guard_prefix_snippet id
  have hVisible := visible_splice text (reloader.snippet id)
  rw [← inject, hEq, ← hSnippet, visible_append] at hVisible
  have hGuard : 0 < visible guard := by decide
  omega

end HotReloader

end CompileHost
