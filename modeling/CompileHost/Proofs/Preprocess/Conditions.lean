import CompileHost.Preprocess.Condition
import CompileHost.Proofs.Text.Blanks

/-!
# What conditions mean

A comparison is written as a name, an operator with any white space around it, and a value, which
can have quotes around it.  Whatever is in the value, quotes and operators too, the condition that
is read asks whether the name stands for just this value.

* `Identifier`, `Operand`, `Comparison`: the parts, and how they are written.
* `Operand.unquote_written`: the value of an operand is found again.
* `Comparison.parse_written`: a comparison is read back.
* `holds_parse`: what comparisons and negations ask.
-/

namespace CompileHost.Condition

open Text

variable {c : Char} {cs rest : List Char}

/-! ## Names -/

theorem isBlank_of_isNameChar (hc : isNameChar c = true) : isBlank c = false := by
  rcases Bool.or_eq_true_iff.1 hc with hWord | hUnderscore
  · exact isBlank_of_isAlphanum hWord
  · rw [eq_of_beq hUnderscore]
    rfl

theorem not_isNameChar_of_blank (hc : isBlank c = true) : isNameChar c = false := by
  by_contra hName
  rw [isBlank_of_isNameChar (Bool.of_not_eq_false hName)] at hc
  cases hc

theorem isNameChar_of_isNameStart (hc : isNameStart c = true) : isNameChar c = true := by
  rcases Bool.or_eq_true_iff.1 hc with hLetter | hUnderscore
  · exact Bool.or_eq_true_iff.2 (.inl (Bool.or_eq_true_iff.2 (.inl hLetter)))
  · exact Bool.or_eq_true_iff.2 (.inr hUnderscore)

/-- A word that begins with a letter or an underscore. -/
structure Identifier where
  first : Char
  more : List Char
  isStart : isNameStart first = true
  areNameChars : ∀ c ∈ more, isNameChar c = true

namespace Identifier

def chars (name : Identifier) : List Char :=
  name.first :: name.more

/-- The name as a text. -/
def text (name : Identifier) : String :=
  String.ofList name.chars

theorem isNameChar_of_mem (name : Identifier) : ∀ c ∈ name.chars, isNameChar c = true :=
  List.forall_mem_cons.2 ⟨isNameChar_of_isNameStart name.isStart, name.areNameChars⟩

theorem not_blank_of_mem (name : Identifier) (hc : c ∈ name.chars) : isBlank c = false :=
  isBlank_of_isNameChar (name.isNameChar_of_mem c hc)

theorem all_getLast?_chars (name : Identifier) :
    name.chars.getLast?.all (!isBlank ·) = true := by
  rw [Option.all_eq_true]
  intro c hLast
  simp [name.not_blank_of_mem (List.mem_of_getLast? hLast)]

theorem trim_chars (name : Identifier) : trim name.chars = name.chars :=
  trim_eq_self (by simp [chars, name.not_blank_of_mem List.mem_cons_self]) name.all_getLast?_chars

theorem trim_cons_chars (name : Identifier) (hc : isBlank c = false) :
    trim (c :: name.chars) = c :: name.chars := by
  refine trim_eq_self (by simp [hc]) ?_
  rw [chars, List.getLast?_cons_cons]
  exact name.all_getLast?_chars

end Identifier

/-! ## Values -/

theorem not_blank_of_isQuote (hc : isQuote c = true) : isBlank c = false ∧ c ≠ '=' := by
  rcases isQuote_iff.1 hc with rfl | rfl <;> decide

/-- Whether a value can do without quotes. -/
structure IsPlain (value : List Char) : Prop where
  head : ∃ c, value.head? = some c ∧ isQuote c = false ∧ isBlank c = false ∧ c ≠ '='
  last : ∃ c, value.getLast? = some c ∧ isQuote c = false ∧ isBlank c = false

/-- A value on one line, with or without quotes. -/
inductive Operand where
  | quoted (quote : Char) (value : List Char) (isQuote : isQuote quote = true)
      (onLine : '\n' ∉ value)
  | plain (value : List Char) (isPlain : IsPlain value) (onLine : '\n' ∉ value)

namespace Operand

def value : Operand → List Char
  | quoted _ value _ _ => value
  | plain value _ _ => value

def written : Operand → List Char
  | quoted quote value _ _ => quote :: value ++ [quote]
  | plain value _ _ => value

theorem onLine (operand : Operand) : '\n' ∉ operand.value := by
  cases operand with
  | quoted _ _ _ onLine => exact onLine
  | plain _ _ onLine => exact onLine

theorem unquote_quoted {quote : Char} (hQuote : isQuote quote = true) (value : List Char) :
    unquote (quote :: value ++ [quote]) = value := by
  simp [unquote, hQuote]

theorem unquote_of_isPlain (hPlain : IsPlain cs) : unquote cs = cs := by
  obtain ⟨c, hHead, hc, -⟩ := hPlain.head
  obtain ⟨d, hLast, hd, -⟩ := hPlain.last
  obtain ⟨rest, rfl⟩ := List.head?_eq_some_iff.1 hHead
  simp only [unquote, hc, Bool.false_eq_true, if_false]
  rw [hLast]
  simp only [hd, Bool.false_eq_true, if_false]

/-- The value of an operand is what is written between the quotes, if there are any. -/
theorem unquote_written (operand : Operand) : unquote operand.written = operand.value := by
  cases operand with
  | quoted quote value hQuote _ => exact unquote_quoted hQuote value
  | plain value hPlain _ => exact unquote_of_isPlain hPlain

theorem exists_written (operand : Operand) :
    ∃ c rest, operand.written = c :: rest ∧ isBlank c = false ∧ c ≠ '=' := by
  cases operand with
  | quoted quote value hQuote _ =>
    exact ⟨quote, value ++ [quote], rfl, not_blank_of_isQuote hQuote⟩
  | plain value hPlain _ =>
    obtain ⟨c, hHead, -, hc, hOther⟩ := hPlain.head
    obtain ⟨rest, hValue⟩ := List.head?_eq_some_iff.1 hHead
    exact ⟨c, rest, hValue, hc, hOther⟩

theorem getLast?_written (operand : Operand) :
    ∃ c, operand.written.getLast? = some c ∧ isBlank c = false := by
  cases operand with
  | quoted quote value hQuote _ =>
    exact ⟨quote, List.getLast?_concat, (not_blank_of_isQuote hQuote).1⟩
  | plain value hPlain _ =>
    obtain ⟨c, hLast, -, hc⟩ := hPlain.last
    exact ⟨c, hLast, hc⟩

end Operand

/-! ## Comparisons -/

inductive Operator where
  | doubleEquals
  | equals
  | differs

namespace Operator

def written : Operator → List Char
  | doubleEquals => "==".toList
  | equals => "=".toList
  | differs => "!=".toList

/-- The answer to a comparison of two texts, given whether they are equal. -/
def answer (operator : Operator) (same : Bool) : Bool :=
  match operator with
  | differs => !same
  | _ => same

theorem operator?_written (operator : Operator) (hRest : rest.head?.all (· != '=') = true) :
    operator? (operator.written ++ rest) = some (operator.answer true, rest) := by
  cases operator with
  | doubleEquals => rfl
  | differs => rfl
  | equals =>
    cases rest with
    | nil => rfl
    | cons c rest =>
      have hc : c ≠ '=' := by simpa using hRest
      exact operator?.eq_3 (c :: rest) fun cs hText => hc (List.cons.inj hText).1

/-- An operator does not go on with a name, nor with white space. -/
theorem exists_written (operator : Operator) :
    ∃ c rest, operator.written = c :: rest ∧ isNameChar c = false ∧ isBlank c = false := by
  cases operator with
  | doubleEquals => exact ⟨'=', ['='], rfl, by decide⟩
  | equals => exact ⟨'=', [], rfl, by decide⟩
  | differs => exact ⟨'!', ['='], rfl, by decide⟩

end Operator

structure Comparison where
  name : Identifier
  before : List Char
  operator : Operator
  after : List Char
  operand : Operand
  isRun_before : IsRun before
  isRun_after : IsRun after

namespace Comparison

/-- The operator and the value. -/
def tail (comparison : Comparison) : List Char :=
  comparison.operator.written ++ (comparison.after ++ comparison.operand.written)

def written (comparison : Comparison) : List Char :=
  comparison.name.chars ++ (comparison.before ++ comparison.tail)

/-- The condition that is meant. -/
def condition (comparison : Comparison) : Condition :=
  let value := String.ofList comparison.operand.value
  if comparison.operator.answer true then isText comparison.name.text value
  else isNotText comparison.name.text value

variable (comparison : Comparison)

theorem all_head?_before :
    (comparison.before ++ comparison.tail).head?.all (!isNameChar ·) = true := by
  obtain ⟨c, rest, hOperator, hc, -⟩ := comparison.operator.exists_written
  refine all_head?_run_append (fun d hd => ?_) (by simp [tail, hOperator, hc])
  simp [not_isNameChar_of_blank (comparison.isRun_before d hd)]

theorem takeWhile_written : comparison.written.takeWhile isNameChar = comparison.name.chars :=
  takeWhile_run comparison.name.isNameChar_of_mem comparison.all_head?_before

theorem dropWhile_written :
    (comparison.written.dropWhile isNameChar).dropWhile isBlank = comparison.tail := by
  have hName : comparison.written.dropWhile isNameChar = comparison.before ++ comparison.tail :=
    dropWhile_run comparison.name.isNameChar_of_mem comparison.all_head?_before
  obtain ⟨c, rest, hOperator, -, hc⟩ := comparison.operator.exists_written
  rw [hName]
  exact dropWhile_run comparison.isRun_before (by simp [tail, hOperator, hc])

theorem dropWhile_after :
    (comparison.after ++ comparison.operand.written).dropWhile isBlank =
      comparison.operand.written := by
  obtain ⟨c, rest, hOperand, hc, -⟩ := comparison.operand.exists_written
  exact dropWhile_run comparison.isRun_after (by simp [hOperand, hc])

theorem all_head?_after :
    (comparison.after ++ comparison.operand.written).head?.all (· != '=') = true := by
  obtain ⟨c, rest, hOperand, -, hc⟩ := comparison.operand.exists_written
  refine all_head?_run_append (fun d hd => ?_) (by simp [hOperand, hc])
  have hBlank := comparison.isRun_after d hd
  rw [bne_iff_ne]
  rintro rfl
  cases hBlank

theorem comparison?_written : comparison? comparison.written = some comparison.condition := by
  have hStart : comparison.written.head?.any isNameStart = true := comparison.name.isStart
  have hLine : comparison.operand.value.contains '\n' = false := by
    simpa using comparison.operand.onLine
  rw [comparison?, hStart, comparison.takeWhile_written, comparison.dropWhile_written, tail,
    comparison.operator.operator?_written comparison.all_head?_after]
  simp only [Bool.not_true, Bool.false_eq_true, if_false, Option.bind_some]
  rw [comparison.dropWhile_after, comparison.operand.unquote_written, hLine,
    if_neg Bool.false_ne_true]
  exact (apply_ite some _ _ _).symm

theorem trim_written : trim comparison.written = comparison.written := by
  obtain ⟨c, hLast, hc⟩ := comparison.operand.getLast?_written
  refine trim_eq_self ?_ ?_
  · have hFirst := comparison.name.not_blank_of_mem List.mem_cons_self
    simp [written, Identifier.chars, hFirst]
  · simp [written, tail, List.getLast?_append, hLast, hc]

/-- A comparison is read as it is meant. -/
theorem parse_written : parse comparison.written = comparison.condition := by
  rw [parse, comparison.trim_written, comparison.comparison?_written]

end Comparison

/-! ## What is asked -/

theorem comparison?_chars (name : Identifier) : comparison? name.chars = none := by
  have hAll : name.chars.dropWhile isNameChar = [] :=
    List.dropWhile_eq_nil_iff.2 name.isNameChar_of_mem
  rw [comparison?, hAll]
  split <;> rfl

theorem parse_chars (name : Identifier) : parse name.chars = isTrue name.text := by
  rw [parse, name.trim_chars, comparison?_chars]
  dsimp only
  split
  next more hMark =>
    have hStart := name.isStart
    rw [(List.cons.inj hMark).1] at hStart
    cases hStart
  · rw [nameOf, name.trim_chars]
    rfl

theorem parse_not (name : Identifier) : parse ('!' :: name.chars) = isNotTrue name.text := by
  have hNone : comparison? ('!' :: name.chars) = none := rfl
  rw [parse, name.trim_cons_chars (by decide), hNone]
  change isNotTrue (nameOf name.chars) = isNotTrue name.text
  rw [nameOf, name.trim_chars]
  rfl

/-- **What conditions ask.**  A comparison asks whether the name stands for exactly the value, and
the negation of a name asks for the opposite of what the name asks for. -/
theorem holds_parse (defs : Definitions) :
    (∀ comparison : Comparison, (parse comparison.written).holds defs =
      comparison.operator.answer
        (defs[comparison.name.text]? = some (String.ofList comparison.operand.value))) ∧
      ∀ name : Identifier, (parse ('!' :: name.chars)).holds defs =
        !(parse name.chars).holds defs := by
  constructor
  · intro comparison
    rw [comparison.parse_written, Comparison.condition]
    cases comparison.operator with
    | doubleEquals => rfl
    | equals => rfl
    | differs => exact decide_not
  · intro name
    rw [parse_chars, parse_not]
    rfl

/-- The comparison `V != 'it's a == "b"'`, whose value holds quotes of both kinds and an operator. -/
def comparedSpelling : Comparison where
  name := ⟨'V', [], rfl, List.forall_mem_nil _⟩
  before := [' ']
  operator := .differs
  after := [' ']
  operand := .quoted '\'' "it's a == \"b\"".toList rfl (by decide +kernel)
  isRun_before := isRun_singleton rfl
  isRun_after := isRun_singleton rfl

/-- The comparison is about its whole value, and a name that stands for nothing differs from it. -/
theorem holds_parse_spelling :
    let written := "V != 'it's a == \"b\"'".toList
    (parse written).holds (.ofList [("V", "it's a == \"b\"")]) = false ∧
      (parse written).holds ∅ = true ∧
        (parse "!V".toList).holds ∅ = !(parse "V".toList).holds ∅ := by
  have hWritten : comparedSpelling.written = "V != 'it's a == \"b\"'".toList := by decide +kernel
  have hHeld := (holds_parse (.ofList [("V", "it's a == \"b\"")])).1 comparedSpelling
  have hUndefined := (holds_parse ∅).1 comparedSpelling
  rw [hWritten] at hHeld hUndefined
  refine ⟨hHeld.trans (by decide +kernel), hUndefined.trans (by decide +kernel), ?_⟩
  exact (holds_parse ∅).2 comparedSpelling.name

example : parse "V = it's".toList = isText "V" "it's" := by
  decide +kernel

end CompileHost.Condition
