import CompileHost.Proofs.Text.Cutting
import CompileHost.Proofs.Text.Places

/-!
# Filling in words

A table gives words the texts that they stand for.  All of them are filled in at once if the words
are looked for in the text alone, and never in what has been filled in.  A character that no word
holds keeps the texts on its two sides apart, so that each can be filled in on its own.

* `fillAtOnce`: a text with the words of a table filled in.
* `replaceWord_eq`: to replace one word is to fill in a table of one row.
* `fillAtOnce_append_cons`: the two sides of a character that no word holds.
-/

namespace CompileHost.Text

variable {before : Option Char} {cs : List Char} {c : Char} {table : List (String × String)}
  {word value : String}

/-- Recognises a word of a table, the first one of the table if there are more, and gives what it
stands for. -/
def anyOf : List (String × String) → Recogniser String
  | [], _, _ => none
  | (word, value) :: table, before, cs =>
    if startsWith cs word.toList then some (value, word.toList.length) else anyOf table before cs

/-- Fills in the words of a table from the left.  What has been filled in is not looked at. -/
def fillAtOnce (table : List (String × String)) (cs : List Char) : List Char :=
  replace (anyOf table) String.toList cs

theorem anyOf_cons_of_starts (h : word.toList <+: cs) :
    anyOf ((word, value) :: table) before cs = some (value, word.toList.length) := by
  rw [anyOf, if_pos (startsWith_iff.2 h)]

theorem anyOf_cons_of_not_starts (h : ¬ word.toList <+: cs) :
    anyOf ((word, value) :: table) before cs = anyOf table before cs := by
  rw [anyOf, if_neg (startsWith_iff.not.2 h)]

theorem blind_anyOf (table : List (String × String)) : Blind (anyOf table) := by
  intro before other cs
  induction table with
  | nil => rfl
  | cons row table ih => rw [anyOf, anyOf, ih]

theorem staysWithin_anyOf (hWords : ∀ row ∈ table, row.1 ≠ "") : StaysWithin (anyOf table) := by
  intro before cs x size hSome
  induction table with
  | nil => cases hSome
  | cons row table ih =>
    rw [List.forall_mem_cons] at hWords
    by_cases hHere : row.1.toList <+: cs
    · rw [anyOf_cons_of_starts hHere] at hSome
      obtain ⟨-, rfl⟩ := Prod.mk.inj (Option.some.inj hSome)
      have hNonempty : row.1.toList ≠ [] := by simpa using hWords.1
      exact ⟨List.length_pos_iff.2 hNonempty, hHere.length_le⟩
    · rw [anyOf_cons_of_not_starts hHere] at hSome
      exact ih hWords.2 hSome

theorem stopsAt_anyOf (hc : ∀ row ∈ table, c ∉ row.1.toList) : StopsAt (anyOf table) c := by
  intro before cs rest
  induction table with
  | nil => rfl
  | cons row table ih =>
    rw [List.forall_mem_cons] at hc
    have hStarts : startsWith (cs ++ c :: rest) row.1.toList = startsWith cs row.1.toList := by
      rw [Bool.eq_iff_iff, startsWith_iff, startsWith_iff, prefix_append_cons_iff hc.1]
    rw [anyOf, anyOf, hStarts, ih hc.2]

/-- The two sides of a character that no word holds. -/
theorem fillAtOnce_append_cons (hWords : ∀ row ∈ table, row.1 ≠ "")
    (hc : ∀ row ∈ table, c ∉ row.1.toList) (cs rest : List Char) :
    fillAtOnce table (cs ++ c :: rest) = fillAtOnce table cs ++ c :: fillAtOnce table rest :=
  replace_append_cons (staysWithin_anyOf hWords) (blind_anyOf table) (stopsAt_anyOf hc) _ cs rest

theorem fillAtOnce_nil (cs : List Char) : fillAtOnce [] cs = cs :=
  replace_of_none fun _ _ _ => rfl

/-- A word that does not occur needs no row. -/
theorem fillAtOnce_cons_of_absent (h : ¬ word.toList <:+: cs) :
    fillAtOnce ((word, value) :: table) cs = fillAtOnce table cs := by
  refine replace_congr fun before later hSuffix => ?_
  have hNone : ¬ word.toList <+: later := fun hPrefix =>
    h (hPrefix.isInfix.trans hSuffix.isInfix)
  rw [anyOf_cons_of_not_starts hNone]

/-- The first word of a table is filled in whole. -/
theorem fillAtOnce_word (hWord : word ≠ "") :
    fillAtOnce ((word, value) :: table) word.toList = value.toList := by
  have hNonempty : word.toList ≠ [] := by simpa using hWord
  obtain ⟨taken, last, hText⟩ : ∃ taken last, word.toList = taken ++ last :: [] :=
    ⟨_, _, (List.dropLast_concat_getLast hNonempty).symm⟩
  have hFound : anyOf ((word, value) :: table) none (taken ++ last :: []) =
      some (value, taken.length + 1) := by
    rw [← hText, anyOf_cons_of_starts List.prefix_rfl, hText, List.length_append]
    rfl
  rw [fillAtOnce, replace_eq, cut, hText, cutAfter_of_found hFound]
  exact List.append_nil value.toList

/-- To replace one word is to fill in a table of one row. -/
theorem replaceWord_eq (word value : String) (cs : List Char) :
    replaceWord word.toList value.toList cs = fillAtOnce [(word, value)] cs := by
  refine replace_congr fun before later _ => ?_
  rw [literally, anyOf]
  split <;> rfl

theorem replaceWord_append_cons (hWord : word ≠ "") (hc : c ∉ word.toList) (value : String)
    (cs rest : List Char) :
    replaceWord word.toList value.toList (cs ++ c :: rest) =
      replaceWord word.toList value.toList cs ++
        c :: replaceWord word.toList value.toList rest := by
  have hRows : ∀ row ∈ [(word, value)], row.1 ≠ "" := by simpa using hWord
  have hRow : ∀ row ∈ [(word, value)], c ∉ row.1.toList := by simpa using hc
  rw [replaceWord_eq, replaceWord_eq, replaceWord_eq, fillAtOnce_append_cons hRows hRow]

theorem replaceWord_of_absent (h : ¬ word.toList <:+: cs) (value : String) :
    replaceWord word.toList value.toList cs = cs := by
  rw [replaceWord_eq, fillAtOnce_cons_of_absent h, fillAtOnce_nil]

theorem replaceWord_self (hWord : word ≠ "") (value : String) :
    replaceWord word.toList value.toList word.toList = value.toList := by
  rw [replaceWord_eq, fillAtOnce_word hWord]

end CompileHost.Text
