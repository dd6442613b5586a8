import CompileHost.Preprocess.Directive
import CompileHost.Proofs.Text.Blanks
import CompileHost.Proofs.Text.Cutting
import CompileHost.Proofs.Text.Places

/-!
# Directives as they are written

A directive is written as a keyword behind an `@`, with an argument behind it, in a comment that
holds nothing else.  The argument is the condition or the name that the keyword asks for; behind the
other keywords it is a remark.

* `Keyword.directive`: what each of the keywords stands for.
* `Written`: a keyword and its argument, with blanks around them.
* `cuts_line`, `cuts_comment`, `cuts_markup`: what is written is cut out of a text as the directive
  that it stands for.
-/

namespace CompileHost

open Text

/-! ## Keywords -/

inductive Keyword where
  | ifHolds
  | ifDefined
  | ifNotDefined
  | otherwise
  | endIf
  | exclude
  | endExclude
  | echo
  deriving DecidableEq

namespace Keyword

def text : Keyword → String
  | ifHolds => "if"
  | ifDefined => "ifdef"
  | ifNotDefined => "ifndef"
  | otherwise => "else"
  | endIf => "endif"
  | exclude => "exclude"
  | endExclude => "endexclude"
  | echo => "echo"

/-- What a keyword stands for with an argument. -/
def directive (argument : List Char) : Keyword → Directive
  | ifHolds => .opening (.parse argument)
  | ifDefined => .opening (.isDefined (String.ofList argument))
  | ifNotDefined => .opening (.isNotDefined (String.ofList argument))
  | otherwise => .otherwise
  | endIf => .closing
  | exclude => .exclude
  | endExclude => .endExclude
  | echo => .echo (String.ofList argument)

theorem isWord_of_mem_text (keyword : Keyword) : ∀ c ∈ keyword.text.toList, isWord c = true := by
  rw [← List.all_eq_true]
  cases keyword <;> decide +kernel

theorem text_ne_echo {keyword : Keyword} (h : keyword ≠ echo) : keyword.text ≠ "echo" := by
  revert h
  cases keyword <;> decide

theorem of?_text (keyword : Keyword) {argument : List Char} (hTrim : trim argument = argument) :
    Directive.of? keyword.text argument = some (keyword.directive argument) := by
  have hName : Condition.nameOf argument = String.ofList argument := congrArg String.ofList hTrim
  cases keyword <;> simp [Directive.of?, text, directive, hName]

end Keyword

/-! ## Blanks around a keyword and its argument -/

theorem isLineBlank_iff {c : Char} : isLineBlank c = true ↔ c = ' ' ∨ c = '\t' := by
  rw [isLineBlank, Bool.or_eq_true, beq_iff_eq, beq_iff_eq]

theorem all_not_isLineBlank {first : Option Char} (h : first.all (!isBlank ·) = true) :
    first.all (!isLineBlank ·) = true := by
  refine all_of_all h fun c hBlank => ?_
  rw [Bool.not_eq_true'] at hBlank ⊢
  by_contra hLine
  rcases isLineBlank_iff.1 (Bool.of_not_eq_false hLine) with rfl | rfl <;> cases hBlank

/-- A keyword and its argument, with blanks in front of the `@` and on both sides of the
argument. -/
structure Written where
  margin : List Char
  keyword : Keyword
  gap : List Char
  argument : List Char
  ending : List Char
  isLineBlank_of_mem : ∀ c ∈ margin ++ gap ++ ending, isLineBlank c = true
  /-- The keyword is a whole word. -/
  endsWord : (gap ++ argument).head?.all (!isWord ·) = true
  first : argument.head?.all (!isBlank ·) = true
  last : argument.getLast?.all (!isBlank ·) = true

namespace Written

/-- One blank in front of the `@`, and one behind the keyword. -/
def close (keyword : Keyword) (argument : List Char)
    (first : argument.head?.all (!isBlank ·) = true)
    (last : argument.getLast?.all (!isBlank ·) = true) : Written where
  margin := [' ']
  keyword
  gap := [' ']
  argument
  ending := []
  isLineBlank_of_mem := List.all_eq_true.1 rfl
  endsWord := rfl
  first
  last

/-- The text behind the keyword. -/
def behind (w : Written) : List Char :=
  w.gap ++ (w.argument ++ w.ending)

def text (w : Written) : List Char :=
  w.margin ++ '@' :: (w.keyword.text.toList ++ w.behind)

/-- The text on a line of a script. -/
def onLine (w : Written) (indent lineEnd : List Char) : List Char :=
  indent ++ ("//".toList ++ (w.text ++ lineEnd))

/-- The text as a comment of a script. -/
def inComment (w : Written) : List Char :=
  "/*".toList ++ (w.text ++ "*/".toList)

/-- The text as a comment of markup. -/
def inMarkup (w : Written) : List Char :=
  "<!--".toList ++ (w.text ++ "-->".toList)

def directive (w : Written) : Directive :=
  w.keyword.directive w.argument

variable (w : Written) {mark rest : List Char}

theorem isLineBlank_margin : ∀ c ∈ w.margin, isLineBlank c = true := fun c hc =>
  w.isLineBlank_of_mem c (List.mem_append_left _ (List.mem_append_left _ hc))

theorem isLineBlank_gap : ∀ c ∈ w.gap, isLineBlank c = true := fun c hc =>
  w.isLineBlank_of_mem c (List.mem_append_left _ (List.mem_append_right _ hc))

theorem isLineBlank_ending : ∀ c ∈ w.ending, isLineBlank c = true := fun c hc =>
  w.isLineBlank_of_mem c (List.mem_append_right _ hc)

/-- Of what holds of blanks, all of the text behind the keyword has it if the argument does. -/
theorem forall_mem_behind {p : Char → Prop} (hBlank : ∀ c, isLineBlank c = true → p c)
    (hArgument : ∀ c ∈ w.argument, p c) : ∀ c ∈ w.behind, p c := by
  rw [behind, List.forall_mem_append, List.forall_mem_append]
  exact ⟨fun c hc => hBlank c (w.isLineBlank_gap c hc), hArgument,
    fun c hc => hBlank c (w.isLineBlank_ending c hc)⟩

theorem stripBoth_behind : stripBoth isLineBlank w.behind = w.argument :=
  stripBoth_between w.isLineBlank_gap w.isLineBlank_ending (all_not_isLineBlank w.first)
    (all_not_isLineBlank w.last)

theorem of?_behind :
    Directive.of? w.keyword.text (stripBoth isLineBlank w.behind) = some w.directive := by
  rw [w.stripBoth_behind]
  exact w.keyword.of?_text (trim_eq_self w.first w.last)

theorem all_head?_behind (hRest : rest.head?.all (!isWord ·) = true) :
    (w.behind ++ rest).head?.all (!isWord ·) = true := by
  rw [behind, ← List.append_assoc, List.append_assoc]
  refine all_head?_append w.endsWord (all_head?_run_append (fun c hc => ?_) hRest)
  rcases isLineBlank_iff.1 (w.isLineBlank_ending c hc) with rfl | rfl <;> rfl

/-- The keyword is read if no word begins behind all that is written. -/
theorem keyword?_text (mark : List Char) (hRest : rest.head?.all (!isWord ·) = true) :
    Directive.keyword? mark (mark ++ (w.text ++ rest)) =
      some (w.keyword.text, w.behind ++ rest) := by
  have hAt : (w.text ++ rest).dropWhile isLineBlank =
      '@' :: (w.keyword.text.toList ++ (w.behind ++ rest)) := by
    rw [text, List.append_assoc, List.cons_append, List.append_assoc]
    exact dropWhile_run w.isLineBlank_margin rfl
  have hEnds := w.all_head?_behind hRest
  rw [Directive.keyword?, stripStart?_eq_some_iff.2 rfl, Option.bind_some, hAt]
  change some (String.ofList (List.takeWhile isWord _), List.dropWhile isWord _) = _
  rw [takeWhile_run w.keyword.isWord_of_mem_text hEnds,
    dropWhile_run w.keyword.isWord_of_mem_text hEnds, String.ofList_toList]

end Written

/-! ## Comments that are read -/

namespace Directive

variable {w : Written} {cs indent lineEnd rest : List Char}

theorem inComment?_written (hArgument : '*' ∉ w.argument) (rest : List Char) :
    inComment? (w.inComment ++ rest) = some (w.directive, rest) := by
  have hBehind : ∀ c ∈ w.behind, decide (c ≠ '*') = true := by
    refine w.forall_mem_behind (fun c hc => ?_) fun c hc => ?_
    · rcases isLineBlank_iff.1 hc with rfl | rfl <;> rfl
    · exact decide_eq_true (ne_of_mem_of_not_mem hc hArgument)
  simp only [Written.inComment, List.append_assoc]
  rw [inComment?, w.keyword?_text "/*".toList rfl, Option.bind_some]
  dsimp only
  rw [dropWhile_run hBehind rfl, takeWhile_run hBehind rfl, stripStart?_eq_some_iff.2 rfl,
    Option.bind_some, w.of?_behind]
  rfl

theorem endsLine_iff {c : Char} : endsLine c = true ↔ c = '\n' ∨ c = '\r' := by
  rw [endsLine, Bool.or_eq_true, beq_iff_eq, beq_iff_eq]

theorem cases_of_afterLine? (h : afterLine? cs = some rest) :
    cs = [] ∧ rest = [] ∨ cs = '\n' :: rest ∨ cs = '\r' :: '\n' :: rest := by
  revert h
  fun_cases afterLine? cs with
  | case1 =>
    rintro ⟨⟩
    exact .inl ⟨rfl, rfl⟩
  | case2 cs =>
    rintro ⟨⟩
    exact .inr (.inl rfl)
  | case3 cs =>
    rintro ⟨⟩
    exact .inr (.inr rfl)
  | case4 => rintro ⟨⟩

theorem onLine?_written (hIndent : ∀ c ∈ indent, isLineBlank c = true) (hEcho : w.keyword ≠ .echo)
    (hArgument : ∀ c ∈ w.argument, endsLine c = false)
    (hEnd : afterLine? (lineEnd ++ rest) = some rest) :
    onLine? (w.onLine indent lineEnd ++ rest) = some (w.directive, rest) := by
  have hStop : (lineEnd ++ rest).head?.all endsLine = true := by
    rcases cases_of_afterLine? hEnd with ⟨hText, -⟩ | hText | hText <;> rw [hText] <;> rfl
  have hBehind : ∀ c ∈ w.behind, (!endsLine c) = true := by
    refine w.forall_mem_behind (fun c hc => ?_) fun c hc => ?_
    · rcases isLineBlank_iff.1 hc with rfl | rfl <;> rfl
    · rw [hArgument c hc, Bool.not_false]
  have hWord : (lineEnd ++ rest).head?.all (!isWord ·) = true := by
    refine all_of_all hStop fun c hc => ?_
    rcases endsLine_iff.1 hc with rfl | rfl <;> rfl
  have hMore : (lineEnd ++ rest).head?.all (!!endsLine ·) = true :=
    all_of_all hStop fun c hc => by rw [hc, Bool.not_not]
  simp only [Written.onLine, List.append_assoc]
  rw [onLine?, dropWhile_run hIndent rfl, w.keyword?_text "//".toList hWord, Option.bind_some]
  dsimp only
  rw [dropWhile_run hBehind hMore, takeWhile_run hBehind hMore, hEnd, Option.bind_some,
    if_neg (Keyword.text_ne_echo hEcho), w.of?_behind]
  rfl

/-- The end of a comment does not begin in front of where it is put. -/
theorem isFirst_closing {cs : List Char} (hNone : ¬ "-->".toList <:+: cs) (rest : List Char) :
    IsFirst "-->".toList cs ("-->".toList ++ rest) where
  found := List.prefix_append _ _
  first := by
    rintro later hSuffix hLater hStarts
    -- the end begins and ends with different characters
    match later with
    | [] => exact hLater rfl
    | [x] => simp [List.cons_prefix_cons] at hStarts
    | [x, y] => simp [List.cons_prefix_cons] at hStarts
    | x :: y :: z :: later =>
      have hHere : "-->".toList <+: x :: y :: z :: later := by
        simpa [List.cons_prefix_cons] using hStarts
      exact hNone (hHere.isInfix.trans hSuffix.isInfix)

theorem inMarkup?_written (hArgument : '\n' ∉ w.argument) (hEnd : ¬ "-->".toList <:+: w.behind)
    (rest : List Char) :
    inMarkup? (w.inMarkup ++ rest) = some (w.directive, rest) := by
  have hBehind : ∀ c ∈ w.behind, c ≠ '\n' := by
    refine w.forall_mem_behind (fun c hc => ?_) fun c hc => ne_of_mem_of_not_mem hc hArgument
    rcases isLineBlank_iff.1 hc with rfl | rfl <;> decide
  have hLine : w.behind.contains '\n' = false := by
    simpa using fun hMem => hBehind _ hMem rfl
  have hCut : splitBefore? "-->".toList (w.behind ++ ("-->".toList ++ rest)) =
      some (w.behind, "-->".toList ++ rest) :=
    (isFirst_closing hEnd rest).splitBefore?_eq
  simp only [Written.inMarkup, List.append_assoc]
  rw [inMarkup?, w.keyword?_text "<!--".toList rfl, Option.bind_some]
  dsimp only
  rw [hCut, Option.bind_some]
  dsimp only
  rw [hLine, if_neg Bool.false_ne_true, w.of?_behind]
  rfl

/-! ## Pieces of a text -/

variable {before : Option Char} {pieces : List (Char ⊕ Directive)}

/-- A directive that fills a line goes with the end of the line. -/
theorem cuts_line (hBefore : before.all (· = '\n') = true)
    (hIndent : ∀ c ∈ indent, isLineBlank c = true) (hEcho : w.keyword ≠ .echo)
    (hArgument : ∀ c ∈ w.argument, endsLine c = false)
    (hEnd : afterLine? (lineEnd ++ rest) = some rest)
    (hRest : Cuts (recogniser .script) (w.onLine indent lineEnd).getLast? rest pieces) :
    Cuts (recogniser .script) before (w.onLine indent lineEnd ++ rest)
      (.inr w.directive :: pieces) := by
  have hRead := onLine?_written hIndent hEcho hArgument hEnd
  refine Cuts.read ?_ hRead (by simp [Written.onLine]) hRest
  simp only [recogniser, hBefore, if_true, reading, hRead, Option.map_some, Option.some_or]

/-- A directive that fills a comment of a script. -/
theorem cuts_comment (hArgument : '*' ∉ w.argument)
    (hRest : Cuts (recogniser .script) (some '/') rest pieces) :
    Cuts (recogniser .script) before (w.inComment ++ rest) (.inr w.directive :: pieces) := by
  have hLast : w.inComment.getLast? = some '/' := by
    rw [Written.inComment, List.getLast?_append, List.getLast?_append]
    rfl
  have hLine : onLine? (w.inComment ++ rest) = none := rfl
  refine Cuts.read ?_ (inComment?_written hArgument rest) (List.cons_ne_nil _ _) (hLast ▸ hRest)
  simp only [recogniser, reading, hLine, Option.map_none, ite_self, Option.none_or]

/-- A directive that fills a comment of markup. -/
theorem cuts_markup (hArgument : '\n' ∉ w.argument) (hEnd : ¬ "-->".toList <:+: w.behind)
    (hRest : Cuts (recogniser .markup) (some '>') rest pieces) :
    Cuts (recogniser .markup) before (w.inMarkup ++ rest) (.inr w.directive :: pieces) := by
  have hLast : w.inMarkup.getLast? = some '>' := by
    rw [Written.inMarkup, List.getLast?_append, List.getLast?_append]
    rfl
  exact Cuts.read rfl (inMarkup?_written hArgument hEnd rest) (List.cons_ne_nil _ _)
    (hLast ▸ hRest)

end Directive

end CompileHost
