import CompileHost.Text.Blank
import Mathlib.Data.List.TakeWhile

/-!
# Runs of white space

A text begins with a run of white space, and goes on with another character or not at all.

* `exists_run`, `append_cons_inj_of_run`: there is one such run, and only one.
* `takeWhile_run`, `dropWhile_run`: a run of any kind is what is taken, and what is dropped.
* `trim_run_append`, `trimEnd_append_cons`, `trimEnd_run`: trimming, run by run.
* `stripBoth_between`: what is put around a text is stripped off again.
-/

namespace CompileHost.Text

variable {run run' rest rest' cs : List Char} {b c c' : Char}

/-- A run of white space, which may be empty. -/
def IsRun (run : List Char) : Prop :=
  ∀ c ∈ run, isBlank c = true

theorem isRun_singleton (hc : isBlank c = true) : IsRun [c] :=
  List.forall_mem_singleton.2 hc

theorem not_isRun_append_cons (hc : isBlank c = false) : ¬ IsRun (run ++ c :: rest) := by
  intro hRun
  rw [hRun c (List.mem_append_right _ List.mem_cons_self)] at hc
  cases hc

/-- A text begins with some white space, or none, behind which it does not go on. -/
theorem exists_run (cs : List Char) :
    ∃ run rest, cs = run ++ rest ∧ IsRun run ∧ rest.head?.all (!isBlank ·) = true := by
  refine ⟨cs.takeWhile isBlank, cs.dropWhile isBlank, List.takeWhile_append_dropWhile.symm,
    fun c hc => List.mem_takeWhile_imp hc, ?_⟩
  have hStop := List.head?_dropWhile_not isBlank cs
  cases hHead : (cs.dropWhile isBlank).head? with
  | none => rfl
  | some c => simpa [hHead] using hStop

theorem all_of_all {first : Option Char} {p q : Char → Bool} (hAll : first.all p = true)
    (h : ∀ c, p c = true → q c = true) : first.all q = true := by
  cases first with
  | none => rfl
  | some c => exact h c hAll

theorem all_head?_append {p : Char → Bool} (hFirst : cs.head?.all p = true)
    (hEnd : rest.head?.all p = true) : (cs ++ rest).head?.all p = true := by
  cases cs with
  | nil => exact hEnd
  | cons c cs => exact hFirst

/-- Something holds of the first character of a text if it holds of a whole run, and of the first
character behind it. -/
theorem all_head?_run_append {p : Char → Bool} (hRun : ∀ c ∈ run, p c = true)
    (hEnd : rest.head?.all p = true) : (run ++ rest).head?.all p = true :=
  all_head?_append ((Option.all_eq_true _ _).2 fun c hc => hRun c (List.mem_of_head? hc)) hEnd

section Ends

variable {p : Char → Bool} (hRun : ∀ c ∈ run, p c = true) (hEnd : rest.head?.all (!p ·) = true)
include hRun hEnd

theorem takeWhile_run : (run ++ rest).takeWhile p = run := by
  have hNone : rest.takeWhile p = [] := by
    cases rest with
    | nil => rfl
    | cons c rest => exact List.takeWhile_cons_of_neg (by simpa using hEnd)
  rw [List.takeWhile_append_of_pos hRun, hNone, List.append_nil]

theorem dropWhile_run : (run ++ rest).dropWhile p = rest := by
  rw [List.dropWhile_append_of_pos hRun]
  cases rest with
  | nil => rfl
  | cons c rest => exact List.dropWhile_cons_of_neg (by simpa using hEnd)

end Ends

/-- A text begins with one run of white space only. -/
theorem append_cons_inj_of_run (hRun : IsRun run)
    (hc : isBlank c = false) (hRun' : IsRun run') (hc' : isBlank c' = false)
    (hText : run ++ c :: rest = run' ++ c' :: rest') : run = run' ∧ c = c' ∧ rest = rest' := by
  have hTake := congrArg (List.takeWhile isBlank) hText
  have hDrop := congrArg (List.dropWhile isBlank) hText
  rw [takeWhile_run hRun (by simpa using hc), takeWhile_run hRun' (by simpa using hc')] at hTake
  rw [dropWhile_run hRun (by simpa using hc), dropWhile_run hRun' (by simpa using hc')] at hDrop
  exact ⟨hTake, (List.cons.inj hDrop).1, (List.cons.inj hDrop).2⟩

/-- Where a character stands in a text that is in two parts with another one between them. -/
theorem append_cons_cases {front back : List Char} (hText : cs ++ c :: rest = front ++ b :: back) :
    (∃ mid, cs = front ++ b :: mid ∧ back = mid ++ c :: rest) ∨
      (front = cs ∧ b = c ∧ back = rest) ∨
      ∃ mid, front = cs ++ c :: mid ∧ rest = mid ++ b :: back := by
  rcases List.append_eq_append_iff.1 hText with ⟨mid, rfl, hRest⟩ | ⟨mid, rfl, hBack⟩
  · cases mid with
    | nil =>
      obtain ⟨rfl, rfl⟩ := List.cons.inj hRest
      exact .inr (.inl ⟨List.append_nil cs, rfl, rfl⟩)
    | cons d mid =>
      obtain ⟨rfl, rfl⟩ := List.cons.inj hRest
      exact .inr (.inr ⟨mid, rfl, rfl⟩)
  · cases mid with
    | nil =>
      obtain ⟨rfl, rfl⟩ := List.cons.inj hBack
      exact .inr (.inl ⟨(List.append_nil front).symm, rfl, rfl⟩)
    | cons d mid =>
      obtain ⟨rfl, rfl⟩ := List.cons.inj hBack
      exact .inl ⟨mid, rfl, rfl⟩

/-! ## Trimming -/

theorem trimEnd_append_cons (hc : isBlank c = false) (cs rest : List Char) :
    trimEnd (cs ++ c :: rest) = cs ++ c :: trimEnd rest := by
  have hStop : (c :: cs.reverse).dropWhile isBlank = c :: cs.reverse :=
    List.dropWhile_cons_of_neg (by simp [hc])
  have hDrop : (rest.reverse ++ c :: cs.reverse).dropWhile isBlank =
      rest.reverse.dropWhile isBlank ++ c :: cs.reverse := by
    rw [List.dropWhile_append, hStop]
    split
    next hEmpty => rw [List.isEmpty_iff.1 hEmpty, List.nil_append]
    · rfl
  rw [trimEnd, dropEndWhile, List.reverse_append, List.reverse_cons, List.append_assoc,
    List.singleton_append, hDrop]
  simp [trimEnd, dropEndWhile]

theorem trimEnd_run (hRun : IsRun run) : trimEnd run = [] := by
  rw [trimEnd, dropEndWhile, List.reverse_eq_nil_iff, List.dropWhile_eq_nil_iff]
  exact fun c hc => hRun c (List.mem_reverse.1 hc)

theorem trim_run_append (hRun : IsRun run) (hEnd : rest.head?.all (!isBlank ·) = true) :
    trim (run ++ rest) = trimEnd rest := by
  rw [trim, stripBoth, dropWhile_run hRun hEnd]
  rfl

/-- A text is stripped of what is put around it. -/
theorem stripBoth_between {p : Char → Bool} {front back : List Char}
    (hFront : ∀ c ∈ front, p c = true) (hBack : ∀ c ∈ back, p c = true)
    (hFirst : cs.head?.all (!p ·) = true) (hLast : cs.getLast?.all (!p ·) = true) :
    stripBoth p (front ++ (cs ++ back)) = cs := by
  cases cs with
  | nil =>
    have hAll : (front ++ back).dropWhile p = [] :=
      List.dropWhile_eq_nil_iff.2 (List.forall_mem_append.2 ⟨hFront, hBack⟩)
    rw [stripBoth, List.nil_append, hAll]
    rfl
  | cons c cs =>
    have hFrontDrop : (front ++ (c :: cs ++ back)).dropWhile p = c :: cs ++ back :=
      dropWhile_run hFront hFirst
    have hBackDrop : (back.reverse ++ (c :: cs).reverse).dropWhile p = (c :: cs).reverse := by
      refine dropWhile_run (fun d hd => hBack d (List.mem_reverse.1 hd)) ?_
      rwa [List.head?_reverse]
    rw [stripBoth, hFrontDrop, dropEndWhile, List.reverse_append, hBackDrop, List.reverse_reverse]

/-- Nothing is trimmed of a text that neither begins nor ends with white space. -/
theorem trim_eq_self (hFirst : cs.head?.all (!isBlank ·) = true)
    (hLast : cs.getLast?.all (!isBlank ·) = true) : trim cs = cs := by
  have hTrim : stripBoth isBlank ([] ++ (cs ++ [])) = cs :=
    stripBoth_between nofun nofun hFirst hLast
  rwa [List.nil_append, List.append_nil] at hTrim

end CompileHost.Text
