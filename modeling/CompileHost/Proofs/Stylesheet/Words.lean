import CompileHost.Proofs.Stylesheet.Comments
import CompileHost.Text.Blank
import Mathlib.Data.List.TakeWhile

/-!
# The words of a stylesheet

The words of a stylesheet are the runs of characters between blanks, marks and comments.  A space
that goes beside a mark never stands between two words.  A comment, a tab or a line break may, and
it leaves nothing behind, so that the words on its two sides become one.  Two characters that come
together in this way may even open or close a comment, by which more words are lost.

* `words`: the words of a stylesheet.
* `Tightens.words_eq`: words stay when spaces go.
* `Fuses`: something dropped stands between two words.
* `words_minify`: the words of a small stylesheet, and when they are those of the original.
-/

namespace CompileHost.Stylesheet

open Text Relation

variable {a b cs rest front back run : List Char} {c d e : Char}

/-! ## Words -/

def isWordChar (c : Char) : Bool :=
  !(isBlank c || c ∈ ['{', '}', ':', ';', ',', '!'])

/-- The longest runs of characters of words. -/
def wordRuns (cs : List Char) : List (List Char) :=
  (cs.splitOnP fun c => !isWordChar c).filter (· ≠ [])

/-- A text with a space in place of each comment. -/
def blankComments (cs : List Char) : List Char :=
  replace (reading comment?) (fun _ => [' ']) cs

/-- The words of a stylesheet. -/
def words (cs : List Char) : List (List Char) :=
  wordRuns (blankComments cs)

theorem isWordChar_of_isLoose (h : isLoose c = true) : isWordChar c = false := by
  have hAll : [' ', '{', '}', ':', ';', ',', '!'].all (!isWordChar ·) = true := rfl
  simpa using List.all_eq_true.1 hAll c (of_decide_eq_true h)

theorem isWordChar_of_isBreak (h : isBreak c = true) : isWordChar c = false := by
  simp only [isBreak, Bool.or_eq_true, beq_iff_eq] at h
  rcases h with (rfl | rfl) | rfl <;> rfl

theorem wordRuns_nil : wordRuns [] = [] :=
  rfl

theorem wordRuns_append_cons (hc : isWordChar c = false) (front back : List Char) :
    wordRuns (front ++ c :: back) = wordRuns front ++ wordRuns back := by
  have hEnds : (fun c => !isWordChar c) c = true := Bool.not_eq_true' _ ▸ hc
  rw [wordRuns, List.splitOnP_append_cons front back hEnds, List.filter_append]
  rfl

theorem wordRuns_cons_of_not (hc : isWordChar c = false) (cs : List Char) :
    wordRuns (c :: cs) = wordRuns cs :=
  wordRuns_append_cons hc [] cs

theorem wordRuns_append_of_not (hRun : ∀ c ∈ run, isWordChar c = false) (cs : List Char) :
    wordRuns (run ++ cs) = wordRuns cs := by
  induction run with
  | nil => rfl
  | cons c run ih =>
    rw [List.forall_mem_cons] at hRun
    rw [List.cons_append, wordRuns_cons_of_not hRun.1, ih hRun.2]

theorem splitOnP_cons_of_word (hc : isWordChar c = true) (cs : List Char) :
    ∃ run runs, cs.splitOnP (fun c => !isWordChar c) = run :: runs ∧
      (c :: cs).splitOnP (fun c => !isWordChar c) = (c :: run) :: runs := by
  obtain ⟨run, runs, hSplit⟩ :=
    List.exists_cons_of_ne_nil (List.splitOnP_ne_nil (fun c => !isWordChar c) cs)
  refine ⟨run, runs, hSplit, ?_⟩
  rw [List.splitOnP_cons_eq_if_modifyHead, if_neg (by simp [hc]), hSplit]
  rfl

/-- A character of a word begins a new word, or belongs to the one that follows it. -/
theorem length_wordRuns_cons (hc : isWordChar c = true) (cs : List Char) :
    (wordRuns (c :: cs)).length =
      (wordRuns cs).length + if cs.head?.any isWordChar then 0 else 1 := by
  obtain ⟨run, runs, hSplit, hCons⟩ := splitOnP_cons_of_word hc cs
  rw [wordRuns, wordRuns, hCons, hSplit]
  cases cs with
  | nil =>
    obtain ⟨rfl, rfl⟩ := List.cons.inj hSplit
    rfl
  | cons d cs =>
    cases hd : isWordChar d with
    | true =>
      obtain ⟨more, _, -, hMore⟩ := splitOnP_cons_of_word hd cs
      rw [hMore] at hSplit
      obtain ⟨rfl, rfl⟩ := List.cons.inj hSplit
      simp [hd]
    | false =>
      rw [List.splitOnP_cons_eq_if_modifyHead, if_pos (by simp [hd])] at hSplit
      obtain ⟨rfl, rfl⟩ := List.cons.inj hSplit
      simp [hd]

theorem flatten_wordRuns (cs : List Char) : (wordRuns cs).flatten = cs.filter isWordChar := by
  rw [wordRuns, List.flatten_filter_ne_nil]
  induction cs with
  | nil => rfl
  | cons c cs ih =>
    cases hc : isWordChar c with
    | true =>
      obtain ⟨run, runs, hSplit, hCons⟩ := splitOnP_cons_of_word hc cs
      rw [hSplit] at ih
      rw [hCons, List.filter_cons_of_pos hc, ← ih]
      rfl
    | false =>
      rw [List.splitOnP_cons_eq_if_modifyHead, if_pos (by simp [hc]), List.flatten_cons, ih,
        List.filter_cons_of_neg (by simp [hc]), List.nil_append]

/-- A word goes over the joint of two texts. -/
def joins (front back : List Char) : Bool :=
  front.getLast?.any isWordChar && back.head?.any isWordChar

theorem joins_cons_cons (c d : Char) (front back : List Char) :
    joins (c :: d :: front) back = joins (d :: front) back := by
  rw [joins, joins, List.getLast?_cons_cons]

/-- Two texts have as many words apart as together, but for a word that goes over the joint. -/
theorem length_wordRuns_append (front back : List Char) :
    (wordRuns front).length + (wordRuns back).length =
      (wordRuns (front ++ back)).length + if joins front back then 1 else 0 := by
  induction front with
  | nil => rw [wordRuns_nil, List.length_nil, Nat.zero_add, List.nil_append]; rfl
  | cons c front ih =>
    rw [List.cons_append]
    cases hc : isWordChar c with
    | false =>
      have hSame : joins (c :: front) back = joins front back := by
        cases front with
        | nil => simp [joins, hc]
        | cons d front => exact joins_cons_cons c d front back
      rw [wordRuns_cons_of_not hc, wordRuns_cons_of_not hc, hSame, ih]
    | true =>
      rw [length_wordRuns_cons hc, length_wordRuns_cons hc]
      cases front with
      | nil =>
        have hSame : joins [c] back = back.head?.any isWordChar := by simp [joins, hc]
        rw [hSame, List.nil_append]
        cases back.head?.any isWordChar <;> simp [wordRuns_nil] <;> omega
      | cons d front =>
        rw [joins_cons_cons, Nat.add_right_comm, ih, Nat.add_right_comm]
        rfl

theorem wordRuns_append (h : joins front back = false) :
    wordRuns (front ++ back) = wordRuns front ++ wordRuns back := by
  cases hFront : front.getLast? with
  | none =>
    rw [List.getLast?_eq_none_iff.1 hFront]
    rfl
  | some c =>
    obtain ⟨front, rfl⟩ := List.getLast?_eq_some_iff.1 hFront
    cases back with
    | nil => rw [List.append_nil, wordRuns_nil, List.append_nil]
    | cons d back =>
      cases hc : isWordChar c with
      | false =>
        rw [← List.append_cons, wordRuns_append_cons hc, wordRuns_append_cons hc, wordRuns_nil,
          List.append_nil]
      | true =>
        have hd : isWordChar d = false := by simpa [joins, hc] using h
        rw [wordRuns_append_cons hd, wordRuns_cons_of_not hd]

/-! ## Texts with the same words -/

/-- Two texts have the same words behind any other text. -/
def SameWords (a b : List Char) : Prop :=
  ∀ front, wordRuns (front ++ a) = wordRuns (front ++ b)

namespace SameWords

theorem refl (a : List Char) : SameWords a a :=
  fun _ => rfl

theorem cons (c : Char) (h : SameWords a b) : SameWords (c :: a) (c :: b) := by
  intro front
  rw [List.append_cons, List.append_cons front c b]
  exact h (front ++ [c])

/-- A run of characters between words stands for a space. -/
theorem of_run (hRun : ∀ c ∈ run, isWordChar c = false) (hNonempty : run ≠ [])
    (h : SameWords a b) : SameWords (run ++ a) (' ' :: b) := by
  intro front
  obtain ⟨c, run, rfl⟩ := List.exists_cons_of_ne_nil hNonempty
  rw [List.forall_mem_cons] at hRun
  rw [List.cons_append, wordRuns_append_cons hRun.1, wordRuns_append_cons (c := ' ') rfl,
    wordRuns_append_of_not hRun.2]
  exact congrArg _ (h [])

end SameWords

theorem Sheds.sameWords (h : Sheds a b) : SameWords a b := by
  have hSpace : isWordChar ' ' = false := rfl
  intro before
  cases h with
  | @behind front c back hc =>
    have hMark := isWordChar_of_isLoose hc
    rw [← List.append_assoc, ← List.append_assoc, wordRuns_append_cons hMark,
      wordRuns_append_cons hMark, wordRuns_cons_of_not hSpace]
  | @before front c back hc =>
    have hMark := isWordChar_of_isLoose hc
    rw [← List.append_assoc, ← List.append_assoc, wordRuns_append_cons hMark,
      wordRuns_append_cons hSpace, wordRuns_cons_of_not hMark]

theorem blankComments_of_read {u : Unit} (h : comment? cs = some (u, rest)) :
    blankComments cs = ' ' :: blankComments rest :=
  replace_of_read consumes_comment? h

theorem blankComments_of_none (h : comment? (c :: cs) = none) :
    blankComments (c :: cs) = c :: blankComments cs :=
  replace_cons_of_none h

theorem isPlain_of_isBreak (h : isBreak c = true) : isPlain c = true := by
  simp only [isBreak, Bool.or_eq_true, beq_iff_eq] at h
  rcases h with (rfl | rfl) | rfl <;> rfl

theorem blankComments_append_of_plain (hRun : ∀ c ∈ run, isPlain c = true) (cs : List Char) :
    blankComments (run ++ cs) = run ++ blankComments cs := by
  induction run with
  | nil => rfl
  | cons c run ih =>
    rw [List.forall_mem_cons] at hRun
    rw [List.cons_append, blankComments_of_none (comment?_cons_of_plain hRun.1), ih hRun.2]
    rfl

/-- A space that goes within a comment is not seen, and any other goes beside a mark still. -/
theorem Sheds.sameWords_blankComments (h : Sheds a b) :
    SameWords (blankComments a) (blankComments b) := by
  obtain ⟨front, c, d, e, back, rfl, rfl, hLoose, hStep⟩ := h.exists_pair
  have hPlain := fun x hx => isPlain_of_isLoose (hLoose x hx)
  simp only [List.forall_mem_cons] at hPlain
  obtain ⟨hc, hd, he, -⟩ := hPlain
  clear h
  induction hLength : front.length using Nat.strongRecOn generalizing front with
  | ind length ih =>
    subst hLength
    cases hFront : comment? front with
    | some found =>
      obtain ⟨u, behind⟩ := found
      have hShorter := consumes_comment?.length_lt hFront
      rw [blankComments_of_read (comment?_append_of_some hc hFront _),
        blankComments_of_read (comment?_append_of_some he hFront _)]
      exact (ih behind.length hShorter behind rfl).cons ' '
    | none =>
      cases front with
      | nil =>
        rw [List.nil_append, List.nil_append, blankComments_of_none (comment?_cons_of_plain hc),
          blankComments_of_none (comment?_cons_of_plain hd),
          blankComments_of_none (comment?_cons_of_plain he)]
        exact (hStep _).sameWords
      | cons x front =>
        have hSame := comment?_append_of_none hc hd he hFront back
        cases hHere : comment? (x :: front ++ e :: back) with
        | some found =>
          rw [hHere] at hSame
          rw [blankComments_of_read hSame, blankComments_of_read hHere]
          exact .refl _
        | none =>
          rw [hHere] at hSame
          rw [List.cons_append] at hSame hHere ⊢
          rw [List.cons_append, blankComments_of_none hSame, blankComments_of_none hHere]
          exact (ih front.length (Nat.lt_succ_self _) front rfl).cons x

/-- Words stay when spaces go. -/
theorem Tightens.words_eq (h : Tightens a b) : words a = words b := by
  induction h with
  | refl => rfl
  | tail _ hStep ih => exact ih.trans (hStep.sameWords_blankComments [])

theorem Tightens.wordRuns_eq (h : Tightens a b) : wordRuns a = wordRuns b := by
  induction h with
  | refl => rfl
  | tail _ hStep ih => exact ih.trans (hStep.sameWords [])

/-! ## What the first step drops between words -/

/-- The characters that the first step keeps, and the places where it drops something. -/
def outline (cs : List Char) : List (Char ⊕ Unit) :=
  cut (reading dropped?) cs

/-- The characters alone. -/
def kept (pieces : List (Char ⊕ Unit)) : List Char :=
  pieces.flatMap (Sum.elim (fun c => [c]) fun _ => [])

/-- The characters, with a space wherever something is dropped. -/
def spaced (pieces : List (Char ⊕ Unit)) : List Char :=
  pieces.flatMap (Sum.elim (fun c => [c]) fun _ => [' '])

/-- Something is dropped between two characters of words that have nothing else between them. -/
def Fuses (cs : List Char) : Prop :=
  ∃ before after, outline cs = before ++ .inr () :: after ∧ joins (kept before) (kept after) = true

/-- The same for pieces behind some characters. -/
def FusesBehind (front : List Char) (pieces : List (Char ⊕ Unit)) : Prop :=
  ∃ before after, pieces = before ++ .inr () :: after ∧
    joins (front ++ kept before) (kept after) = true

variable {pieces : List (Char ⊕ Unit)}

theorem kept_append (before after : List (Char ⊕ Unit)) :
    kept (before ++ after) = kept before ++ kept after :=
  List.flatMap_append

theorem dropComments_eq_kept (cs : List Char) : dropComments cs = kept (outline cs) := by
  rw [dropComments_eq, replace_eq]
  rfl

theorem joins_append (hBack : back ≠ []) (front rest : List Char) :
    joins (front ++ back) rest = joins back rest := by
  rw [joins, joins, List.getLast?_append_of_ne_nil front hBack]

theorem ne_nil_of_joins (h : joins front back = true) : front ≠ [] := by
  rintro rfl
  cases h

theorem not_fusesBehind_nil : ¬ FusesBehind front [] := by
  rintro ⟨before, after, hText, -⟩
  exact absurd hText (by simp)

theorem fusesBehind_inl : FusesBehind front (.inl c :: pieces) ↔ FusesBehind (front ++ [c]) pieces := by
  constructor
  · rintro ⟨before, after, hText, hJoins⟩
    cases before with
    | nil => cases hText
    | cons piece before =>
      obtain ⟨rfl, rfl⟩ := List.cons.inj hText
      refine ⟨before, after, rfl, ?_⟩
      rwa [List.append_assoc]
  · rintro ⟨before, after, rfl, hJoins⟩
    refine ⟨.inl c :: before, after, rfl, ?_⟩
    rwa [List.append_assoc] at hJoins

theorem FusesBehind.of_nil (h : FusesBehind [] pieces) (front : List Char) :
    FusesBehind front pieces := by
  obtain ⟨before, after, rfl, hJoins⟩ := h
  rw [List.nil_append] at hJoins
  refine ⟨before, after, rfl, ?_⟩
  rwa [joins_append (ne_nil_of_joins hJoins)]

theorem fusesBehind_inr : FusesBehind front (.inr () :: pieces) ↔
    joins front (kept pieces) = true ∨ FusesBehind [] pieces := by
  constructor
  · rintro ⟨before, after, hText, hJoins⟩
    cases before with
    | nil =>
      obtain ⟨-, rfl⟩ := List.cons.inj hText
      rw [kept, List.flatMap_nil, List.append_nil] at hJoins
      exact .inl hJoins
    | cons piece before =>
      obtain ⟨rfl, rfl⟩ := List.cons.inj hText
      change joins (front ++ kept before) (kept after) = true at hJoins
      by_cases hBefore : kept before = []
      · rw [hBefore, List.append_nil] at hJoins
        have hKept : kept (before ++ .inr () :: after) = kept after := by
          rw [kept_append, hBefore]
          rfl
        exact .inl (hKept ▸ hJoins)
      · rw [joins_append hBefore] at hJoins
        exact .inr ⟨before, after, rfl, hJoins⟩
  · rintro (hJoins | hLater)
    · refine ⟨[], pieces, rfl, ?_⟩
      rwa [kept, List.flatMap_nil, List.append_nil]
    · obtain ⟨before, after, rfl, hJoins⟩ := hLater.of_nil front
      exact ⟨.inr () :: before, after, rfl, hJoins⟩

/-- Without the spaces there are no more words, and the same ones unless some are fused. -/
theorem wordRuns_kept (front : List Char) (pieces : List (Char ⊕ Unit)) :
    (wordRuns (front ++ kept pieces)).length ≤ (wordRuns (front ++ spaced pieces)).length ∧
      (wordRuns (front ++ kept pieces) = wordRuns (front ++ spaced pieces) ↔
        ¬ FusesBehind front pieces) := by
  induction pieces generalizing front with
  | nil => exact ⟨Nat.le_refl _, iff_of_true rfl not_fusesBehind_nil⟩
  | cons piece pieces ih =>
    cases piece with
    | inl c =>
      have hKept : front ++ kept (.inl c :: pieces) = front ++ [c] ++ kept pieces :=
        (List.append_assoc front [c] (kept pieces)).symm
      have hSpaced : front ++ spaced (.inl c :: pieces) = front ++ [c] ++ spaced pieces :=
        (List.append_assoc front [c] (spaced pieces)).symm
      rw [hKept, hSpaced, fusesBehind_inl]
      exact ih (front ++ [c])
    | inr u =>
      have hSpaced : wordRuns (front ++ spaced (.inr u :: pieces)) =
          wordRuns front ++ wordRuns (spaced pieces) :=
        wordRuns_append_cons (c := ' ') rfl front (spaced pieces)
      obtain ⟨hLess, hSame⟩ := ih []
      rw [List.nil_append, List.nil_append] at hLess hSame
      have hCount := length_wordRuns_append front (kept pieces)
      change (wordRuns (front ++ kept pieces)).length ≤ _ ∧ (wordRuns (front ++ kept pieces) = _ ↔ _)
      rw [hSpaced, fusesBehind_inr, List.length_append]
      refine ⟨by omega, ?_⟩
      cases hJoins : joins front (kept pieces) with
      | true =>
        rw [hJoins, if_pos rfl] at hCount
        refine iff_of_false (fun hEq => ?_) (fun hNot => hNot (.inl rfl))
        have hLength := congrArg List.length hEq
        rw [List.length_append] at hLength
        omega
      | false =>
        rw [wordRuns_append hJoins, List.append_cancel_left_eq, hSame]
        simp

/-- In the words of a stylesheet, what the first step drops separates. -/
theorem words_eq_spaced (cs : List Char) : words cs = wordRuns (spaced (outline cs)) := by
  have hSpaced : spaced (outline cs) = replace (reading dropped?) (fun _ => [' ']) cs :=
    (replace_eq _ _ cs).symm
  suffices h : SameWords (blankComments cs) (replace (reading dropped?) (fun _ => [' ']) cs) by
    rw [hSpaced]
    exact h []
  refine replace_induction (motive := fun cs out => SameWords (blankComments cs) out)
    consumes_dropped? (.refl []) ?_ ?_ cs
  · intro c cs hNone ih
    rw [blankComments_of_none (dropped?_eq_none_iff.1 hNone).1]
    exact ih.cons c
  · intro cs u rest hRead ih
    rcases Option.or_eq_some_iff.1 hRead with hComment | ⟨-, hBreaks⟩
    · rw [blankComments_of_read hComment]
      exact ih.cons ' '
    · obtain ⟨⟨c, hHead, hc⟩, rfl⟩ := breaks?_eq_some_iff.1 hBreaks
      obtain ⟨cs, rfl⟩ := List.head?_eq_some_iff.1 hHead
      have hRun : ∀ d ∈ (c :: cs).takeWhile isBreak, isBreak d = true := fun d hd =>
        List.mem_takeWhile_imp hd
      have hText := List.takeWhile_append_dropWhile (p := isBreak) (l := c :: cs)
      have hBlank := blankComments_append_of_plain (fun d hd => isPlain_of_isBreak (hRun d hd))
        ((c :: cs).dropWhile isBreak)
      rw [hText] at hBlank
      rw [hBlank]
      refine ih.of_run (fun d hd => isWordChar_of_isBreak (hRun d hd)) ?_
      rw [List.takeWhile_cons_of_pos hc]
      exact List.cons_ne_nil _ _

/-! ## Comments that are put together -/

/-- Behind a character of a word, the next one has nothing dropped in front of it. -/
theorem exists_of_not_fusesBehind (hc : isWordChar c = true) (hd : isWordChar d = true)
    (h : ¬ FusesBehind [c] pieces) (hKept : kept pieces = d :: rest) :
    ∃ more, pieces = .inl d :: more ∧ kept more = rest := by
  cases pieces with
  | nil => cases hKept
  | cons piece pieces =>
    cases piece with
    | inl e =>
      obtain ⟨rfl, hRest⟩ := List.cons.inj hKept
      exact ⟨pieces, rfl, hRest⟩
    | inr u =>
      have hBehind : kept pieces = d :: rest := hKept
      refine absurd (fusesBehind_inr.2 (.inl ?_)) h
      rw [hBehind]
      simp [joins, hc, hd]

theorem not_fusesBehind_of_inl (h : ¬ FusesBehind [] (.inl c :: pieces)) :
    ¬ FusesBehind [c] pieces ∧ ¬ FusesBehind [] pieces := by
  rw [fusesBehind_inl] at h
  exact ⟨h, fun hLater => h (hLater.of_nil [c])⟩

/-- What closes a comment among the characters that are kept has closed one before. -/
theorem infix_of_infix_kept {before : Option Char} (hCuts : Cuts (reading dropped?) before cs pieces)
    (h : ¬ FusesBehind [] pieces) (hClosed : ['*', '/'] <:+: kept pieces) :
    ['*', '/'] <:+: cs := by
  induction hCuts with
  | done => exact hClosed
  | @plain before c cs pieces hNone hRest ih =>
    obtain ⟨hBehind, hLater⟩ := not_fusesBehind_of_inl h
    change ['*', '/'] <:+: c :: kept pieces at hClosed
    rw [List.infix_cons_iff, List.cons_prefix_cons] at hClosed ⊢
    rcases hClosed with ⟨rfl, rest, hKept⟩ | hClosed
    · obtain ⟨more, rfl, -⟩ := exists_of_not_fusesBehind rfl rfl hBehind hKept.symm
      cases hRest with
      | plain => exact .inl ⟨rfl, List.singleton_prefix_cons_iff.2 rfl⟩
    · exact .inr (ih hLater hClosed)
  | found hText hFound hRest ih =>
    have hLater : ¬ FusesBehind [] _ := fun hLater => h (fusesBehind_inr.2 (.inr hLater))
    rw [hText, List.append_cons]
    exact (ih hLater hClosed).trans (List.suffix_append _ _).isInfix

/-- Where no words are fused, no comment is put together. -/
theorem not_holdsComment_kept {before : Option Char}
    (hCuts : Cuts (reading dropped?) before cs pieces) (h : ¬ FusesBehind [] pieces) :
    ¬ HoldsComment (kept pieces) := by
  induction hCuts with
  | done =>
    rintro ⟨body, hInfix⟩
    exact absurd (List.infix_nil.1 hInfix) (by simp)
  | @plain before c cs pieces hNone hRest ih =>
    obtain ⟨hBehind, hLater⟩ := not_fusesBehind_of_inl h
    change ¬ HoldsComment (c :: kept pieces)
    rw [holdsComment_cons_iff, not_or, not_not]
    refine ⟨?_, ih hLater⟩
    rw [comment?_eq_none_iff]
    intro behind hText hClosed
    obtain ⟨rfl, hKept⟩ := List.cons.inj hText
    obtain ⟨more, rfl, rfl⟩ := exists_of_not_fusesBehind rfl rfl hBehind hKept
    cases hRest with
    | @plain _ _ cs _ hNoneBehind hRestBehind =>
      obtain ⟨-, hMore⟩ := not_fusesBehind_of_inl hLater
      have hHere : dropped? ('/' :: '*' :: cs) = none := Option.map_eq_none_iff.1 hNone
      refine comment?_eq_none_iff.1 (dropped?_eq_none_iff.1 hHere).1 cs rfl ?_
      exact infix_of_infix_kept hRestBehind hMore hClosed
  | found hText hFound hRest ih =>
    exact ih fun hLater => h (fusesBehind_inr.2 (.inr hLater))

theorem blankComments_of_not_holdsComment (h : ¬ HoldsComment cs) : blankComments cs = cs := by
  refine replace_of_none fun _ later hSuffix => Option.map_eq_none_iff.2 ?_
  by_contra hComment
  exact h (holdsComment_iff.2 ⟨later, hSuffix, hComment⟩)

/-- A comment takes characters of words along. -/
theorem length_filter_blankComments (cs : List Char) :
    ((blankComments cs).filter isWordChar).length ≤ (cs.filter isWordChar).length ∧
      (HoldsComment cs →
        ((blankComments cs).filter isWordChar).length < (cs.filter isWordChar).length) := by
  refine replace_induction (motive := fun cs out =>
      (out.filter isWordChar).length ≤ (cs.filter isWordChar).length ∧ (HoldsComment cs →
        (out.filter isWordChar).length < (cs.filter isWordChar).length))
    consumes_comment? ⟨Nat.le_refl _, ?_⟩ ?_ ?_ cs
  · rintro ⟨body, hInfix⟩
    exact absurd (List.infix_nil.1 hInfix) (by simp)
  · rintro c cs hNone ⟨hLess, hComment⟩
    rw [holdsComment_cons_iff, or_iff_right (not_not.2 hNone), List.filter_cons, List.filter_cons]
    cases isWordChar c with
    | true => exact ⟨Nat.succ_le_succ hLess, fun h => Nat.succ_lt_succ (hComment h)⟩
    | false => exact ⟨hLess, hComment⟩
  · rintro cs u rest hRead ⟨hLess, -⟩
    obtain ⟨body, rfl⟩ := exists_of_comment? hRead
    have hSpace : isWordChar ' ' = false := rfl
    have hSlash : isWordChar '/' = true := rfl
    have hStar : isWordChar '*' = true := rfl
    simp only [List.singleton_append, List.filter_cons, List.filter_append, hSpace, hSlash, hStar,
      if_true, Bool.false_eq_true, if_false, List.length_cons, List.length_append]
    omega

theorem filter_spaced (pieces : List (Char ⊕ Unit)) :
    (spaced pieces).filter isWordChar = (kept pieces).filter isWordChar := by
  rw [spaced, kept, List.filter_flatMap, List.filter_flatMap]
  congr 1
  funext piece
  cases piece <;> rfl

/-- **The words of a small stylesheet.**  They are the runs that are left when comments, tabs and
line breaks are struck out, and so those of the stylesheet exactly if none of these stands, alone
or with others, between two characters of words. -/
theorem words_minify (css : String) :
    wordRuns (minify css).toList = wordRuns (dropComments css.toList) ∧
      (words (minify css).toList = words css.toList ↔ ¬ Fuses css.toList) := by
  have hText : (minify css).toList = tighten (dropComments css.toList) := String.toList_ofList
  have hTightens := tightens_tighten (dropComments css.toList)
  rw [hText, ← hTightens.wordRuns_eq, ← hTightens.words_eq]
  refine ⟨rfl, ?_⟩
  have hCuts : Cuts (reading dropped?) none css.toList (outline css.toList) :=
    (cuts_iff (staysWithin_reading fun _ _ _ => consumes_dropped?.length_lt)).2 rfl
  have hFuses : FusesBehind [] (outline css.toList) ↔ Fuses css.toList := Iff.rfl
  have hKept := (wordRuns_kept [] (outline css.toList)).2
  rw [List.nil_append, List.nil_append, hFuses] at hKept
  rw [dropComments_eq_kept, words_eq_spaced css.toList, ← hKept, words]
  by_cases hComment : HoldsComment (kept (outline css.toList))
  · -- the characters of the comment are lost, and so two words have been fused
    have hLost := (length_filter_blankComments _).2 hComment
    refine iff_of_false (fun hSame => ?_) fun hSame => ?_
    · have hFlat := congrArg List.flatten hSame
      rw [flatten_wordRuns, flatten_wordRuns, filter_spaced] at hFlat
      rw [hFlat] at hLost
      exact Nat.lt_irrefl _ hLost
    · exact not_holdsComment_kept hCuts (hFuses.not.2 (hKept.1 hSame)) hComment
  · rw [blankComments_of_not_holdsComment hComment]

/-- A line break between two words. -/
theorem line_break_fuses_words :
    let css := "a\nb{}"
    minify css = "ab{}" ∧ words (minify css).toList ≠ words css.toList := by
  decide +kernel

end CompileHost.Stylesheet
