import CompileHost.Proofs.Text.Replacing
import CompileHost.Stylesheet
import Mathlib.Data.List.Chain
import Mathlib.Logic.Relation

/-!
# Spaces that go

Once comments, tabs and line breaks are gone from a stylesheet, the other steps only drop spaces,
one by one, each beside another space or beside a mark.  A space that goes from a text without
double spaces brings two other characters together, and what is dropped later never has two such
characters side by side.  So no step puts together what an earlier one has dropped.

* `Sheds`, `Tightens`: one space goes, and then the next.
* `tightens_tighten`: all that the later steps do.
* `Tight`, `tight_tighten`: the later steps leave nothing behind that one of them would drop.
* `Tight.tighten_eq`: the later steps leave such a text alone.
-/

namespace CompileHost.Stylesheet

open Text Relation

variable {α : Type} {p : List Char → Option (α × List Char)} {f : α → List Char}
  {a b cs rest word : List Char} {c : Char} {marks : List Char}

/-! ## One space after the other -/

/-- A character beside which a space may go. -/
def isLoose (c : Char) : Bool :=
  c ∈ [' ', '{', '}', ':', ';', ',', '!']

/-- A space goes, and the character behind it or before it is another space or a mark. -/
inductive Sheds : List Char → List Char → Prop where
  | behind (front : List Char) {c : Char} (back : List Char) (hc : isLoose c = true) :
      Sheds (front ++ c :: ' ' :: back) (front ++ c :: back)
  | before (front : List Char) {c : Char} (back : List Char) (hc : isLoose c = true) :
      Sheds (front ++ ' ' :: c :: back) (front ++ c :: back)

/-- Some spaces go, one after the other. -/
abbrev Tightens : List Char → List Char → Prop :=
  ReflTransGen Sheds

theorem Sheds.cons (c : Char) (h : Sheds a b) : Sheds (c :: a) (c :: b) := by
  cases h with
  | behind front back hc => exact .behind (c :: front) back hc
  | before front back hc => exact .before (c :: front) back hc

theorem Tightens.cons (c : Char) (h : Tightens a b) : Tightens (c :: a) (c :: b) :=
  h.lift (c :: ·) fun _ _ => Sheds.cons c

theorem Tightens.append (front : List Char) (h : Tightens a b) :
    Tightens (front ++ a) (front ++ b) := by
  induction front with
  | nil => exact h
  | cons c front ih => exact ih.cons c

theorem Sheds.exists_split (h : Sheds a b) :
    ∃ front back, a = front ++ ' ' :: back ∧ b = front ++ back := by
  cases h with
  | behind front back _ => exact ⟨front ++ [_], back, List.append_cons .., List.append_cons ..⟩
  | before front back _ => exact ⟨front, _, rfl, rfl⟩

/-- Two characters give way to one, whatever follows. -/
theorem Sheds.exists_pair (h : Sheds a b) :
    ∃ front c d e back, a = front ++ c :: d :: back ∧ b = front ++ e :: back ∧
      (∀ x ∈ [c, d, e], isLoose x = true) ∧ ∀ rest, Sheds (c :: d :: rest) (e :: rest) := by
  have hSpace : isLoose ' ' = true := rfl
  cases h with
  | @behind front c back hc =>
    exact ⟨front, c, ' ', c, back, rfl, rfl, by simp [hc, hSpace], fun rest => .behind [] rest hc⟩
  | @before front c back hc =>
    exact ⟨front, ' ', c, c, back, rfl, rfl, by simp [hc, hSpace], fun rest => .before [] rest hc⟩

theorem Sheds.sublist (h : Sheds a b) : b.Sublist a := by
  obtain ⟨front, back, rfl, rfl⟩ := h.exists_split
  exact (List.sublist_cons_self ' ' back).append_left front

theorem Tightens.sublist (h : Tightens a b) : b.Sublist a := by
  induction h with
  | refl => exact .refl a
  | tail _ hStep ih => exact hStep.sublist.trans ih

/-- A replacement tightens a text if it does so wherever something is read. -/
theorem tightens_replace (hp : Consumes p)
    (hRead : ∀ cs x rest, p cs = some (x, rest) → Tightens cs (f x ++ rest)) (cs : List Char) :
    Tightens cs (replace (reading p) f cs) := by
  refine replace_induction (motive := Tightens) hp .refl (fun c _ _ ih => ih.cons c) ?_ cs
  exact fun cs x rest hHere ih => (hRead cs x rest hHere).trans (ih.append (f x))

/-! ## What the steps read -/

/-- Reads one of some marks with a space behind it. -/
def markThenSpace? (marks : List Char) : List Char → Option (Char × List Char)
  | c :: ' ' :: rest => if c ∈ marks then some (c, rest) else none
  | _ => none

theorem markThenSpace?_eq_some_iff :
    markThenSpace? marks cs = some (c, rest) ↔ cs = c :: ' ' :: rest ∧ c ∈ marks := by
  fun_cases markThenSpace? marks cs <;> grind

theorem spacedMark?_eq_some_iff :
    spacedMark? cs = some (c, rest) ↔ cs = ' ' :: c :: ' ' :: rest ∧ c ∈ ['{', ':', '}'] := by
  fun_cases spacedMark? cs <;> grind

theorem spaces?_eq_none_iff : spaces? cs = none ↔ ¬ [' ', ' '] <+: cs := by
  rw [spaces?, ite_eq_right_iff, ← startsWith_iff]
  exact forall_congr' fun _ => iff_of_false (Option.some_ne_none _) id

theorem spaces?_eq_some_iff {u : Unit} :
    spaces? cs = some (u, rest) ↔ [' ', ' '] <+: cs ∧ rest = cs.dropWhile (· = ' ') := by
  rw [spaces?, Option.ite_none_right_eq_some, ← startsWith_iff, Option.some_inj, Prod.mk.injEq,
    and_iff_right rfl, eq_comm (b := rest)]
  rfl

theorem consumes_markThenSpace? (marks : List Char) : Consumes (markThenSpace? marks) := by
  intro cs c rest hRead
  obtain ⟨rfl, -⟩ := markThenSpace?_eq_some_iff.1 hRead
  exact ⟨[c, ' '], List.cons_ne_nil _ _, rfl⟩

theorem consumes_spacedMark? : Consumes spacedMark? := by
  intro cs c rest hRead
  obtain ⟨rfl, -⟩ := spacedMark?_eq_some_iff.1 hRead
  exact ⟨[' ', c, ' '], List.cons_ne_nil _ _, rfl⟩

theorem consumes_spaces? : Consumes spaces? := by
  intro cs u rest hRead
  obtain ⟨⟨behind, rfl⟩, rfl⟩ := spaces?_eq_some_iff.1 hRead
  exact ⟨_, List.cons_ne_nil _ _, (List.takeWhile_append_dropWhile (p := (· = ' '))).symm⟩

theorem tightenColons_eq (cs : List Char) :
    tightenColons cs = replace (reading (markThenSpace? [':'])) (fun c => [c]) cs := by
  rw [tightenColons, replaceWord_eq_replace]
  refine replace_reading_congr (fun cs => ?_) cs
  cases hRead : markThenSpace? [':'] cs with
  | some read =>
    obtain ⟨c, rest⟩ := read
    obtain ⟨rfl, hc⟩ := markThenSpace?_eq_some_iff.1 hRead
    obtain rfl := List.mem_singleton.1 hc
    have hWord : word? ": ".toList (':' :: ' ' :: rest) = some ((), rest) :=
      word?_eq_some_iff.2 rfl
    rw [hWord]
    rfl
  | none =>
    have hNone : word? ": ".toList cs = none := by
      rw [Option.eq_none_iff_forall_ne_some]
      rintro ⟨u, rest⟩ hWord
      have hText : cs = ':' :: ' ' :: rest := word?_eq_some_iff.1 hWord
      rw [markThenSpace?_eq_some_iff.2 ⟨hText, List.mem_singleton_self ':'⟩] at hRead
      cases hRead
    rw [hNone]
    rfl

theorem tightenSeparators_eq (cs : List Char) :
    tightenSeparators cs = replace (reading (markThenSpace? [';', ','])) (fun c => [c]) cs := by
  have hReader : spacedSeparator? = markThenSpace? [';', ','] := by
    funext cs
    fun_cases spacedSeparator? cs <;> grind [markThenSpace?]
  rw [tightenSeparators, hReader]

/-! ## Each step drops spaces -/

theorem tightens_squeezeSpaces (cs : List Char) : Tightens cs (squeezeSpaces cs) := by
  refine tightens_replace consumes_spaces? (fun cs u rest hRead => ?_) cs
  obtain ⟨⟨behind, rfl⟩, rfl⟩ := spaces?_eq_some_iff.1 hRead
  have hDrop : ∀ cs, Tightens (' ' :: cs) (' ' :: cs.dropWhile (· = ' ')) := by
    intro cs
    induction cs with
    | nil => exact .refl
    | cons c cs ih =>
      by_cases hc : c = ' '
      · subst hc
        exact .head (.behind [] cs rfl) ih
      · rw [List.dropWhile_cons_of_neg (by simpa using hc)]
  exact hDrop (' ' :: behind)

theorem tightens_tightenMarks (cs : List Char) : Tightens cs (tightenMarks cs) := by
  refine tightens_replace consumes_spacedMark? (fun cs c rest hRead => ?_) cs
  obtain ⟨rfl, hc⟩ := spacedMark?_eq_some_iff.1 hRead
  have hLoose : isLoose c = true := by
    revert hc
    simp only [List.mem_cons, List.not_mem_nil, or_false]
    rintro (rfl | rfl | rfl) <;> rfl
  exact .head (.before [] _ hLoose) (.single (.behind [] rest hLoose))

theorem tightens_markThenSpace (hMarks : ∀ c ∈ marks, isLoose c = true) (cs : List Char) :
    Tightens cs (replace (reading (markThenSpace? marks)) (fun c => [c]) cs) := by
  refine tightens_replace (consumes_markThenSpace? marks) (fun cs c rest hRead => ?_) cs
  obtain ⟨rfl, hc⟩ := markThenSpace?_eq_some_iff.1 hRead
  exact .single (.behind [] rest (hMarks c hc))

theorem tightens_tightenColons (cs : List Char) : Tightens cs (tightenColons cs) := by
  rw [tightenColons_eq]
  exact tightens_markThenSpace (List.all_eq_true.1 rfl) cs

theorem tightens_tightenSeparators (cs : List Char) : Tightens cs (tightenSeparators cs) := by
  rw [tightenSeparators_eq]
  exact tightens_markThenSpace (List.all_eq_true.1 rfl) cs

theorem tightens_tightenBangs (cs : List Char) : Tightens cs (tightenBangs cs) := by
  rw [tightenBangs, replaceWord_eq_replace]
  refine tightens_replace (consumes_word? (by decide)) (fun cs u rest hRead => ?_) cs
  rw [word?_eq_some_iff.1 hRead]
  exact .single (.before [] rest rfl)

/-- The steps behind the first. -/
def tighten (cs : List Char) : List Char :=
  tightenBangs (tightenSeparators (tightenColons (tightenMarks (squeezeSpaces cs))))

theorem tightens_tighten (cs : List Char) : Tightens cs (tighten cs) :=
  (tightens_squeezeSpaces cs).trans <| (tightens_tightenMarks _).trans <|
    (tightens_tightenColons _).trans <| (tightens_tightenSeparators _).trans <|
      tightens_tightenBangs _

/-! ## What is not put together again -/

/-- Of any two characters side by side in a word, one is a space. -/
abbrev Apart (word : List Char) : Prop :=
  word.IsChain fun c d => c = ' ' ∨ d = ' '

theorem infix_of_infix_append (hApart : Apart word) (hJoint : ∀ c ∈ a.getLast?, ∀ d ∈ b.head?,
      ¬ (c = ' ' ∨ d = ' ')) (h : word <:+: a ++ b) : word <:+: a ∨ word <:+: b := by
  rcases List.infix_append_iff.1 h with hLeft | hRight | ⟨left, right, rfl, hLeft, hRight⟩
  · exact .inl hLeft
  · exact .inr hRight
  · obtain ⟨front, rfl⟩ := hLeft
    obtain ⟨behind, rfl⟩ := hRight
    cases hLast : left.getLast? with
    | none =>
      rw [List.getLast?_eq_none_iff.1 hLast, List.nil_append]
      exact .inr (List.prefix_append right behind).isInfix
    | some c =>
      cases hHead : right.head? with
      | none =>
        rw [List.head?_eq_none_iff.1 hHead, List.append_nil]
        exact .inl (List.suffix_append front left).isInfix
      | some d =>
        -- the word has two characters side by side that the joint keeps apart
        have hSpace := (List.isChain_append.1 hApart).2.2 c hLast d hHead
        refine absurd hSpace (hJoint c ?_ d ?_)
        · rw [List.getLast?_append, hLast]
          rfl
        · rw [List.head?_append, hHead]
          rfl

/-- A space that goes from a text without double spaces puts no such word together. -/
theorem Sheds.infix_of_infix (h : Sheds a b) (hDouble : ¬ [' ', ' '] <:+: a) (hApart : Apart word)
    (hWord : word <:+: b) : word <:+: a := by
  obtain ⟨front, back, rfl, rfl⟩ := h.exists_split
  have hJoint : ∀ c ∈ front.getLast?, ∀ d ∈ back.head?, ¬ (c = ' ' ∨ d = ' ') := by
    rintro c hc d hd (rfl | rfl)
    · obtain ⟨front, rfl⟩ := List.getLast?_eq_some_iff.1 hc
      exact hDouble ⟨front, back, by simp⟩
    · obtain ⟨back, rfl⟩ := List.head?_eq_some_iff.1 hd
      exact hDouble ⟨front, back, by simp⟩
  rcases infix_of_infix_append hApart hJoint hWord with hLeft | hRight
  · exact hLeft.trans (List.prefix_append _ _).isInfix
  · exact hRight.trans ((List.suffix_cons ' ' back).trans (List.suffix_append _ _)).isInfix

theorem Tightens.infix_of_infix (h : Tightens a b) (hDouble : ¬ [' ', ' '] <:+: a)
    (hApart : Apart word) (hWord : word <:+: b) : word <:+: a := by
  induction h using ReflTransGen.head_induction_on with
  | refl => exact hWord
  | head hStep _ ih =>
    have hStill := fun hWord => hDouble (hStep.infix_of_infix hDouble (by decide) hWord)
    exact hStep.infix_of_infix hDouble hApart (ih hStill)

/-- None of some words occurs in a text. -/
def Lacks (words : List (List Char)) (cs : List Char) : Prop :=
  ∀ word ∈ words, ¬ word <:+: cs

theorem Lacks.append {words more : List (List Char)} (h : Lacks words a)
    (hDouble : [' ', ' '] ∈ words) (hApart : ∀ word ∈ words, Apart word) (hStep : Tightens a b)
    (hMore : Lacks more b) : Lacks (words ++ more) b := by
  intro word hWord
  rcases List.mem_append.1 hWord with hOld | hNew
  · exact fun hInfix => h word hOld (hStep.infix_of_infix (h _ hDouble) (hApart word hOld) hInfix)
  · exact hMore word hNew

/-! ## Nothing is left to drop -/

theorem not_infix_squeezeSpaces (cs : List Char) : ¬ [' ', ' '] <:+: squeezeSpaces cs := by
  suffices h : ([' '] <+: squeezeSpaces cs → [' '] <+: cs) ∧ ¬ [' ', ' '] <:+: squeezeSpaces cs
    from h.2
  refine replace_induction
    (motive := fun cs out => ([' '] <+: out → [' '] <+: cs) ∧ ¬ [' ', ' '] <:+: out)
    consumes_spaces? ⟨id, by decide⟩ ?_ ?_ cs
  · rintro c cs hNone ⟨hHead, hOut⟩
    refine ⟨fun h => List.singleton_prefix_cons_iff.2 (List.singleton_prefix_cons_iff.1 h), ?_⟩
    rw [List.infix_cons_iff, List.cons_prefix_cons]
    rintro (⟨rfl, hSpace⟩ | hLater)
    · exact spaces?_eq_none_iff.1 hNone (List.cons_prefix_cons.2 ⟨rfl, hHead hSpace⟩)
    · exact hOut hLater
  · rintro cs u rest hRead ⟨hHead, hOut⟩
    obtain ⟨hStarts, rfl⟩ := spaces?_eq_some_iff.1 hRead
    refine ⟨fun _ => (List.prefix_append [' '] [' ']).trans hStarts, ?_⟩
    rw [List.singleton_append, List.infix_cons_iff, List.cons_prefix_cons]
    rintro (⟨-, hSpace⟩ | hLater)
    · obtain ⟨behind, hBehind⟩ := hHead hSpace
      have hStop := List.head?_dropWhile_not (fun c => decide (c = ' ')) cs
      rw [← hBehind] at hStop
      cases hStop
    · exact hOut hLater

theorem not_infix_tightenMarks (hDouble : ¬ [' ', ' '] <:+: cs) (hc : c ∈ ['{', ':', '}']) :
    ¬ [' ', c, ' '] <:+: tightenMarks cs := by
  -- what is read begins with a space, and so does what it was written for
  suffices h : ([' '] <+: tightenMarks cs → [' '] <+: cs) ∧
      ([c, ' '] <+: tightenMarks cs → [c, ' '] <+: cs ∨ [' '] <+: cs) ∧
        ¬ [' ', c, ' '] <:+: tightenMarks cs from h.2.2
  revert hDouble
  refine replace_induction
    (motive := fun cs out => ¬ [' ', ' '] <:+: cs → ([' '] <+: out → [' '] <+: cs) ∧
      ([c, ' '] <+: out → [c, ' '] <+: cs ∨ [' '] <+: cs) ∧ ¬ [' ', c, ' '] <:+: out)
    consumes_spacedMark? (fun _ => ⟨id, .inl, by simp⟩) ?_ ?_ cs
  · intro d cs hNone ih hDouble
    rw [List.infix_cons_iff, not_or] at hDouble
    obtain ⟨hHead, hMark, hOut⟩ := ih hDouble.2
    refine ⟨fun h => List.singleton_prefix_cons_iff.2 (List.singleton_prefix_cons_iff.1 h), ?_, ?_⟩
    · rw [List.cons_prefix_cons]
      rintro ⟨rfl, hSpace⟩
      exact .inl (List.cons_prefix_cons.2 ⟨rfl, hHead hSpace⟩)
    · rw [List.infix_cons_iff, List.cons_prefix_cons]
      rintro (⟨rfl, hHere⟩ | hLater)
      · rcases hMark hHere with ⟨rest, rfl⟩ | hSpace
        · exact Option.some_ne_none _ ((spacedMark?_eq_some_iff.2 ⟨rfl, hc⟩).symm.trans hNone)
        · exact hDouble.1 (List.cons_prefix_cons.2 ⟨rfl, hSpace⟩)
      · exact hOut hLater
  · intro cs d rest hRead ih hDouble
    obtain ⟨rfl, hd⟩ := spacedMark?_eq_some_iff.1 hRead
    have hRest : ¬ [' ', ' '] <:+: rest := fun h =>
      hDouble (h.trans (List.suffix_append [' ', d, ' '] rest).isInfix)
    have hStarts : [' '] <+: ' ' :: d :: ' ' :: rest := List.prefix_append _ _
    refine ⟨fun _ => hStarts, fun _ => .inr hStarts, ?_⟩
    rw [List.singleton_append, List.infix_cons_iff, List.cons_prefix_cons]
    rintro (⟨rfl, -⟩ | hLater)
    · revert hd
      decide
    · exact (ih hRest).2.2 hLater

theorem not_infix_markThenSpace (hDouble : ¬ [' ', ' '] <:+: cs) (hMarks : ' ' ∉ marks)
    (hc : c ∈ marks) :
    ¬ [c, ' '] <:+: replace (reading (markThenSpace? marks)) (fun c => [c]) cs := by
  suffices h : ([' '] <+: replace (reading (markThenSpace? marks)) (fun c => [c]) cs →
      [' '] <+: cs) ∧
        ¬ [c, ' '] <:+: replace (reading (markThenSpace? marks)) (fun c => [c]) cs from h.2
  revert hDouble
  refine replace_induction
    (motive := fun cs out => ¬ [' ', ' '] <:+: cs →
      ([' '] <+: out → [' '] <+: cs) ∧ ¬ [c, ' '] <:+: out)
    (consumes_markThenSpace? marks) (fun _ => ⟨id, by simp⟩) ?_ ?_ cs
  · intro d cs hNone ih hDouble
    rw [List.infix_cons_iff, not_or] at hDouble
    obtain ⟨hHead, hOut⟩ := ih hDouble.2
    refine ⟨fun h => List.singleton_prefix_cons_iff.2 (List.singleton_prefix_cons_iff.1 h), ?_⟩
    rw [List.infix_cons_iff, List.cons_prefix_cons]
    rintro (⟨rfl, hSpace⟩ | hLater)
    · obtain ⟨rest, rfl⟩ := hHead hSpace
      exact Option.some_ne_none _ ((markThenSpace?_eq_some_iff.2 ⟨rfl, hc⟩).symm.trans hNone)
    · exact hOut hLater
  · intro cs d rest hRead ih hDouble
    obtain ⟨rfl, hd⟩ := markThenSpace?_eq_some_iff.1 hRead
    have hRest : ¬ [' ', ' '] <:+: ' ' :: rest := fun h =>
      hDouble (h.trans (List.suffix_cons d _).isInfix)
    rw [List.infix_cons_iff, not_or] at hRest
    obtain ⟨hHead, hOut⟩ := ih hRest.2
    rw [List.singleton_append]
    constructor
    · intro h
      obtain rfl := List.singleton_prefix_cons_iff.1 h
      exact absurd hd hMarks
    · rw [List.infix_cons_iff, List.cons_prefix_cons]
      rintro (⟨-, hSpace⟩ | hLater)
      · exact hRest.1 (List.cons_prefix_cons.2 ⟨rfl, hHead hSpace⟩)
      · exact hOut hLater

theorem not_infix_tightenBangs (hDouble : ¬ [' ', ' '] <:+: cs) :
    ¬ " !".toList <:+: tightenBangs cs := by
  rw [tightenBangs, replaceWord_eq_replace]
  suffices h : (['!'] <+: replace (reading (word? " !".toList)) (fun _ => "!".toList) cs →
      ['!'] <+: cs ∨ [' '] <+: cs) ∧
        ¬ [' ', '!'] <:+: replace (reading (word? " !".toList)) (fun _ => "!".toList) cs from h.2
  revert hDouble
  refine replace_induction
    (motive := fun cs out => ¬ [' ', ' '] <:+: cs →
      (['!'] <+: out → ['!'] <+: cs ∨ [' '] <+: cs) ∧ ¬ [' ', '!'] <:+: out)
    (consumes_word? (by decide)) (fun _ => ⟨.inl, by simp⟩) ?_ ?_ cs
  · intro d cs hNone ih hDouble
    rw [List.infix_cons_iff, not_or] at hDouble
    obtain ⟨hHead, hOut⟩ := ih hDouble.2
    refine ⟨fun h => .inl (List.singleton_prefix_cons_iff.2 (List.singleton_prefix_cons_iff.1 h)),
      ?_⟩
    rw [List.infix_cons_iff, List.cons_prefix_cons]
    rintro (⟨rfl, hBang⟩ | hLater)
    · rcases hHead hBang with ⟨rest, rfl⟩ | hSpace
      · exact Option.some_ne_none ((), rest) ((word?_eq_some_iff.2 rfl).symm.trans hNone)
      · exact hDouble.1 (List.cons_prefix_cons.2 ⟨rfl, hSpace⟩)
    · exact hOut hLater
  · intro cs u rest hRead ih hDouble
    obtain rfl := word?_eq_some_iff.1 hRead
    have hRest : ¬ [' ', ' '] <:+: rest := fun h =>
      hDouble (h.trans (List.suffix_append [' ', '!'] rest).isInfix)
    refine ⟨fun _ => .inr ⟨'!' :: rest, rfl⟩, ?_⟩
    change ¬ [' ', '!'] <:+: '!' :: _
    rw [List.infix_cons_iff, List.cons_prefix_cons]
    rintro (⟨hFalse, -⟩ | hLater)
    · revert hFalse
      decide
    · exact (ih hRest).2 hLater

/-- What the steps behind the first look for. -/
def loosePatterns : List (List Char) :=
  ["  ", " \x7b ", " : ", " \x7d ", ": ", "; ", ", ", " !"].map String.toList

/-- Nothing of that is left in a text. -/
abbrev Tight (cs : List Char) : Prop :=
  Lacks loosePatterns cs

theorem lacks_tightenMarks (hDouble : ¬ [' ', ' '] <:+: cs) :
    Lacks (['{', ':', '}'].map fun c => [' ', c, ' ']) (tightenMarks cs) :=
  List.forall_mem_map.2 fun _ => not_infix_tightenMarks hDouble

theorem lacks_tightenColons (hDouble : ¬ [' ', ' '] <:+: cs) :
    Lacks ([':'].map fun c => [c, ' ']) (tightenColons cs) := by
  rw [tightenColons_eq]
  exact List.forall_mem_map.2 fun _ => not_infix_markThenSpace hDouble (by decide)

theorem lacks_tightenSeparators (hDouble : ¬ [' ', ' '] <:+: cs) :
    Lacks ([';', ','].map fun c => [c, ' ']) (tightenSeparators cs) := by
  rw [tightenSeparators_eq]
  exact List.forall_mem_map.2 fun _ => not_infix_markThenSpace hDouble (by decide)

theorem tight_tighten (cs : List Char) : Tight (tighten cs) := by
  have hSpaces : Lacks [[' ', ' ']] (squeezeSpaces cs) :=
    List.forall_mem_singleton.2 (not_infix_squeezeSpaces cs)
  have hMarks := hSpaces.append (by decide) (by decide) (tightens_tightenMarks _)
    (lacks_tightenMarks (hSpaces _ (by decide)))
  have hColons := hMarks.append (by decide) (by decide) (tightens_tightenColons _)
    (lacks_tightenColons (hMarks _ (by decide)))
  have hSeparators := hColons.append (by decide) (by decide) (tightens_tightenSeparators _)
    (lacks_tightenSeparators (hColons _ (by decide)))
  have hBangs := not_infix_tightenBangs (hSeparators _ (by decide))
  exact hSeparators.append (by decide) (by decide) (tightens_tightenBangs _)
    (List.forall_mem_singleton.2 hBangs)

/-! ## Texts that are left alone -/

theorem replace_of_lacks {words : List (List Char)} (h : Lacks words cs)
    (hRead : ∀ cs x rest, p cs = some (x, rest) → ∃ word ∈ words, word <+: cs) :
    replace (reading p) f cs = cs := by
  refine replace_of_none fun _ later hSuffix => Option.map_eq_none_iff.2 ?_
  rw [Option.eq_none_iff_forall_ne_some]
  rintro ⟨x, rest⟩ hHere
  obtain ⟨word, hWord, hPrefix⟩ := hRead later x rest hHere
  exact h word hWord (hPrefix.isInfix.trans hSuffix.isInfix)

theorem replace_markThenSpace_of_tight (h : Tight cs)
    (hMarks : ∀ c ∈ marks, [c, ' '] ∈ loosePatterns) :
    replace (reading (markThenSpace? marks)) (fun c => [c]) cs = cs := by
  refine replace_of_lacks h fun cs c rest hRead => ?_
  obtain ⟨rfl, hc⟩ := markThenSpace?_eq_some_iff.1 hRead
  exact ⟨[c, ' '], hMarks c hc, List.prefix_append _ _⟩

/-- The steps behind the first leave a tight text alone. -/
theorem Tight.tighten_eq (h : Tight cs) : tighten cs = cs := by
  have hSpaces : squeezeSpaces cs = cs := by
    refine replace_of_lacks h fun cs u rest hRead => ?_
    exact ⟨"  ".toList, by decide, (spaces?_eq_some_iff.1 hRead).1⟩
  have hMarks : tightenMarks cs = cs := by
    have hLoose : ∀ c ∈ ['{', ':', '}'], [' ', c, ' '] ∈ loosePatterns := by
      rw [List.forall_mem_cons, List.forall_mem_cons, List.forall_mem_singleton]
      decide
    refine replace_of_lacks h fun cs c rest hRead => ?_
    obtain ⟨rfl, hc⟩ := spacedMark?_eq_some_iff.1 hRead
    exact ⟨[' ', c, ' '], hLoose c hc, List.prefix_append _ _⟩
  have hColons : tightenColons cs = cs := by
    rw [tightenColons_eq]
    exact replace_markThenSpace_of_tight h (List.forall_mem_singleton.2 (by decide))
  have hSeparators : tightenSeparators cs = cs := by
    have hLoose : ∀ c ∈ [';', ','], [c, ' '] ∈ loosePatterns := by
      rw [List.forall_mem_cons, List.forall_mem_singleton]
      decide
    rw [tightenSeparators_eq, replace_markThenSpace_of_tight h hLoose]
  have hBangs : tightenBangs cs = cs := by
    rw [tightenBangs, replaceWord_eq_replace]
    refine replace_of_lacks h fun cs u rest hRead => ?_
    exact ⟨" !".toList, by decide, rest, (word?_eq_some_iff.1 hRead).symm⟩
  rw [tighten, hSpaces, hMarks, hColons, hSeparators, hBangs]

end CompileHost.Stylesheet
