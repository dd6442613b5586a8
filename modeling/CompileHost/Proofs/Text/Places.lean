import CompileHost.Text.Scan
import Mathlib.Data.List.Infix

/-!
# Places of a word

A word stands at a place of a text if the text goes on with it from there.

* `IsFirst`, `splitBefore?_eq_some_iff`, `splitBefore?_eq_none_iff`: the first place of a word,
  where a text is cut.
* `prefix_append_cons_iff`: a character that a word does not hold ends its places.
* `splitBefore?_append_cons`: the first place on the two sides of such a character.
* `splitBefore?_append`: the first place in a text that goes on with the word.
-/

namespace CompileHost.Text

variable {word cs before rest tail : List Char} {c : Char}

/-! ## The first place of a word -/

/-- A word stands behind `before`, and at no place in front of that. -/
structure IsFirst (word before rest : List Char) : Prop where
  found : word <+: rest
  first : ∀ later, later <:+ before → later ≠ [] → ¬ word <+: later ++ rest

theorem startsWith_iff : startsWith cs word = true ↔ word <+: cs := by
  rw [startsWith, Option.isSome_iff_exists]
  simp only [stripStart?_eq_some_iff]
  exact exists_congr fun rest => eq_comm

theorem isFirst_nil : IsFirst word [] rest ↔ word <+: rest := by
  refine ⟨IsFirst.found, fun hFound => ⟨hFound, fun later hSuffix hLater => ?_⟩⟩
  exact absurd (List.suffix_nil.1 hSuffix) hLater

theorem isFirst_cons :
    IsFirst word (c :: before) rest ↔
      ¬ word <+: c :: (before ++ rest) ∧ IsFirst word before rest := by
  constructor
  · intro h
    refine ⟨h.first (c :: before) List.suffix_rfl (List.cons_ne_nil _ _), h.found, ?_⟩
    exact fun later hSuffix => h.first later (hSuffix.trans (List.suffix_cons c before))
  · rintro ⟨hHere, h⟩
    refine ⟨h.found, fun later hSuffix hLater => ?_⟩
    rcases List.suffix_cons_iff.1 hSuffix with rfl | hSuffix
    · exact hHere
    · exact h.first later hSuffix hLater

theorem splitBefore?_of_starts (h : word <+: cs) : splitBefore? word cs = some ([], cs) := by
  cases cs with
  | nil =>
    rw [List.prefix_nil.1 h]
    rfl
  | cons c cs => rw [splitBefore?, if_pos (startsWith_iff.2 h)]

theorem splitBefore?_cons_of_not_starts (h : ¬ word <+: c :: cs) :
    splitBefore? word (c :: cs) =
      (splitBefore? word cs).map fun (before, rest) => (c :: before, rest) := by
  rw [splitBefore?, if_neg (startsWith_iff.not.2 h)]

theorem IsFirst.splitBefore?_eq (h : IsFirst word before rest) :
    splitBefore? word (before ++ rest) = some (before, rest) := by
  induction before with
  | nil => exact splitBefore?_of_starts h.found
  | cons c before ih =>
    obtain ⟨hHere, hRest⟩ := isFirst_cons.1 h
    rw [List.cons_append, splitBefore?_cons_of_not_starts hHere, ih hRest]
    rfl

theorem isFirst_of_splitBefore? (h : splitBefore? word cs = some (before, rest)) :
    IsFirst word before rest := by
  induction cs generalizing before with
  | nil =>
    obtain ⟨hWord, hPair⟩ := Option.ite_none_right_eq_some.1 h
    obtain ⟨rfl, rfl⟩ := Prod.mk.inj (Option.some.inj hPair)
    exact isFirst_nil.2 (List.isEmpty_iff.1 hWord ▸ List.prefix_rfl)
  | cons c cs ih =>
    by_cases hHere : word <+: c :: cs
    · rw [splitBefore?_of_starts hHere] at h
      obtain ⟨rfl, rfl⟩ := Prod.mk.inj (Option.some.inj h)
      exact isFirst_nil.2 hHere
    · rw [splitBefore?_cons_of_not_starts hHere] at h
      obtain ⟨⟨front, behind⟩, hCut, hPair⟩ := Option.map_eq_some_iff.1 h
      obtain ⟨rfl, rfl⟩ := Prod.mk.inj hPair
      rw [eq_append_of_splitBefore? hCut] at hHere
      exact isFirst_cons.2 ⟨hHere, ih hCut⟩

/-- A text is cut at the first place of a word. -/
theorem splitBefore?_eq_some_iff :
    splitBefore? word cs = some (before, rest) ↔
      cs = before ++ rest ∧ IsFirst word before rest := by
  constructor
  · exact fun h => ⟨eq_append_of_splitBefore? h, isFirst_of_splitBefore? h⟩
  · rintro ⟨rfl, hFirst⟩
    exact hFirst.splitBefore?_eq

theorem splitBefore?_eq_none_iff : splitBefore? word cs = none ↔ ¬ word <:+: cs := by
  induction cs with
  | nil => simp [splitBefore?]
  | cons c cs ih =>
    rw [List.infix_cons_iff, not_or]
    by_cases hHere : word <+: c :: cs
    · simp [splitBefore?_of_starts hHere, hHere]
    · rw [splitBefore?_cons_of_not_starts hHere, Option.map_eq_none_iff, ih, and_iff_right hHere]

/-! ## Places and what stands behind them -/

/-- No place of a word reaches over a character that the word does not hold. -/
theorem prefix_append_cons_iff (hc : c ∉ word) : word <+: cs ++ c :: rest ↔ word <+: cs := by
  refine ⟨fun h => ?_, fun h => h.trans (List.prefix_append cs _)⟩
  have hWhole : cs ++ [c] <+: cs ++ c :: rest := ⟨rest, List.append_assoc cs [c] rest⟩
  rcases List.prefix_or_prefix_of_prefix h hWhole with hWord | hCs
  · rcases List.prefix_concat_iff.1 hWord with rfl | hWord
    · exact absurd (List.mem_append_right cs List.mem_cons_self) hc
    · exact hWord
  · exact absurd (hCs.subset (List.mem_append_right cs List.mem_cons_self)) hc

/-- The first place of a word on the two sides of a character that the word does not hold. -/
theorem splitBefore?_append_cons (hc : c ∉ word) (hWord : word ≠ []) :
    splitBefore? word (cs ++ c :: rest) =
      match splitBefore? word cs with
      | some (before, behind) => some (before, behind ++ c :: rest)
      | none => (splitBefore? word rest).map fun (before, behind) => (cs ++ c :: before, behind) := by
  induction cs with
  | nil =>
    have hHere : ¬ word <+: c :: rest := by
      rwa [← List.nil_append (c :: rest), prefix_append_cons_iff hc, List.prefix_nil]
    have hNone : splitBefore? word [] = none := by
      rwa [splitBefore?_eq_none_iff, List.infix_nil]
    rw [List.nil_append, splitBefore?_cons_of_not_starts hHere, hNone]
    rfl
  | cons d cs ih =>
    have hHereIff : word <+: (d :: cs) ++ c :: rest ↔ word <+: d :: cs := prefix_append_cons_iff hc
    rw [List.cons_append] at hHereIff ⊢
    by_cases hHere : word <+: d :: cs
    · rw [splitBefore?_of_starts hHere, splitBefore?_of_starts (hHereIff.2 hHere)]
      rfl
    · rw [splitBefore?_cons_of_not_starts hHere,
        splitBefore?_cons_of_not_starts (hHereIff.not.2 hHere), ih]
      cases splitBefore? word cs with
      | some found => rfl
      | none =>
        cases splitBefore? word rest <;> rfl

/-- A text is cut in one way at the first place of a character. -/
theorem append_cons_inj_of_first {part front behind rest : List Char} (hPart : c ∉ part)
    (hOther : c ∉ front) :
    part ++ c :: behind = front ++ c :: rest ↔ part = front ∧ behind = rest := by
  constructor
  · intro hText
    rcases List.append_eq_append_iff.1 hText with ⟨more, rfl, hMore⟩ | ⟨more, rfl, hMore⟩
    · rcases List.cons_eq_append_iff.1 hMore with ⟨rfl, hRest⟩ | ⟨more, rfl, -⟩
      · exact ⟨(List.append_nil _).symm, (List.cons.inj hRest).2.symm⟩
      · exact absurd (List.mem_append_right _ List.mem_cons_self) hOther
    · rcases List.cons_eq_append_iff.1 hMore with ⟨rfl, hRest⟩ | ⟨more, rfl, -⟩
      · exact ⟨List.append_nil _, (List.cons.inj hRest).2⟩
      · exact absurd (List.mem_append_right _ List.mem_cons_self) hPart
  · rintro ⟨rfl, rfl⟩
    rfl

/-- No place of a word reaches over the end of a text whose last character it does not hold. -/
theorem prefix_append_iff (hLast : ∀ c ∈ cs.getLast?, c ∉ word) (hNonempty : cs ≠ []) :
    word <+: cs ++ tail ↔ word <+: cs := by
  have hc : cs.getLast hNonempty ∉ word :=
    hLast _ (List.getLast?_eq_getLast_of_ne_nil hNonempty)
  rw [← List.dropLast_concat_getLast hNonempty, List.append_assoc, List.singleton_append,
    prefix_append_cons_iff hc, prefix_append_cons_iff hc]

/-- The first place of a word in a text with a line behind it that begins with the word. -/
theorem splitBefore?_append (hLast : ∀ c ∈ cs.getLast?, c ∉ word) (hTail : word <+: tail) :
    splitBefore? word (cs ++ tail) =
      some (match splitBefore? word cs with
        | some (before, rest) => (before, rest ++ tail)
        | none => (cs, tail)) := by
  induction cs with
  | nil =>
    rw [List.nil_append, splitBefore?_of_starts hTail, splitBefore?]
    cases word <;> rfl
  | cons c cs ih =>
    have hHereIff : word <+: c :: (cs ++ tail) ↔ word <+: c :: cs :=
      prefix_append_iff hLast (List.cons_ne_nil c cs)
    rw [List.cons_append]
    by_cases hHere : word <+: c :: cs
    · rw [splitBefore?_of_starts hHere, splitBefore?_of_starts (hHereIff.2 hHere)]
      rfl
    · have hLastBehind : ∀ x ∈ cs.getLast?, x ∉ word := fun x hx =>
        hLast x (List.mem_getLast?_cons hx)
      rw [splitBefore?_cons_of_not_starts hHere,
        splitBefore?_cons_of_not_starts (hHereIff.not.2 hHere), ih hLastBehind]
      cases splitBefore? word cs <;> rfl

end CompileHost.Text
