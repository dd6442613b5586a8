import CompileHost.Text.Scan

/-!
# Cuts from the left

The pieces into which a text is cut are determined by the recogniser: at each place that the cut
has come to, either something is recognised, and it is taken whole, or nothing is, and the next
character is a piece of its own.

* `Cuts`: these two rules.
* `cuts_iff`: `cut` follows them, and nothing else does.
* `replace_congr`: when two recognisers lead to the same text.
* `replace_append_cons`: the two sides of a character that a recogniser does not see beyond.
-/

namespace CompileHost.Text

variable {α β : Type} {m : Recogniser α} {f : α → List Char} {before : Option Char} {c : Char}
  {cs rest : List Char} {pieces more : List (Char ⊕ α)}

/-- The pieces of a text that stands behind the character `before`. -/
inductive Cuts (m : Recogniser α) : Option Char → List Char → List (Char ⊕ α) → Prop where
  | done {before : Option Char} : Cuts m before [] []
  | plain {before : Option Char} {c : Char} {cs : List Char} {pieces : List (Char ⊕ α)}
      (hNone : m before (c :: cs) = none) (hRest : Cuts m (some c) cs pieces) :
      Cuts m before (c :: cs) (.inl c :: pieces)
  | found {before : Option Char} {taken : List Char} {last : Char} {cs rest : List Char} {x : α}
      {pieces : List (Char ⊕ α)} (hText : cs = taken ++ last :: rest)
      (hFound : m before cs = some (x, taken.length + 1)) (hRest : Cuts m (some last) rest pieces) :
      Cuts m before cs (.inr x :: pieces)

/-- What is recognised takes at least one character, and no more than there are. -/
def StaysWithin (m : Recogniser α) : Prop :=
  ∀ before cs x size, m before cs = some (x, size) → 0 < size ∧ size ≤ cs.length

/-- What reads at least one character stays within the text. -/
theorem staysWithin_reading {p : List Char → Option (α × List Char)}
    (hRead : ∀ cs x rest, p cs = some (x, rest) → rest.length < cs.length) :
    StaysWithin (reading p) := by
  intro before cs x size hSome
  obtain ⟨⟨y, rest⟩, hp, hEq⟩ := Option.map_eq_some_iff.1 hSome
  have hLess := hRead cs y rest hp
  cases hEq
  omega

/-- What reads from the beginning of a text hands back the rest behind what is taken. -/
theorem eq_of_reading {p : List Char → Option (α × List Char)}
    (hRead : ∀ cs x rest, p cs = some (x, rest) → ∃ taken, taken ≠ [] ∧ cs = taken ++ rest)
    {taken rest : List Char} {last : Char} {x : α}
    (hFound : reading p before (taken ++ last :: rest) = some (x, taken.length + 1)) :
    p (taken ++ last :: rest) = some (x, rest) := by
  obtain ⟨⟨y, behind⟩, hSome, hPair⟩ := Option.map_eq_some_iff.1 hFound
  obtain ⟨rfl, hSize⟩ := Prod.mk.inj hPair
  obtain ⟨front, hFront, hText⟩ := hRead _ y behind hSome
  have hPositive : 0 < front.length := List.length_pos_iff.2 hFront
  have hLength := congrArg List.length hText
  simp only [List.length_append, List.length_cons] at hLength hSize
  rw [← List.singleton_append, ← List.append_assoc] at hText
  rw [hSome, List.append_inj_right' hText (by omega)]

/-- What is read from the beginning of a text is a piece of it. -/
theorem Cuts.read {p : List Char → Option (α × List Char)} {taken rest : List Char} {x : α}
    (hFound : m before (taken ++ rest) = reading p before (taken ++ rest))
    (hRead : p (taken ++ rest) = some (x, rest)) (hTaken : taken ≠ [])
    (hRest : Cuts m taken.getLast? rest pieces) :
    Cuts m before (taken ++ rest) (.inr x :: pieces) := by
  obtain ⟨front, last, rfl⟩ : ∃ front last, taken = front ++ [last] :=
    ⟨_, _, (List.dropLast_concat_getLast hTaken).symm⟩
  rw [List.getLast?_concat] at hRest
  have hSize : (front ++ [last] ++ rest).length - rest.length = front.length + 1 := by
    rw [List.length_append, Nat.add_sub_cancel, List.length_append, List.length_singleton]
  refine .found (List.append_assoc front [last] rest) ?_ hRest
  rw [hFound, reading, hRead]
  exact congrArg (fun size => some (x, size)) hSize

/-- The cut goes on behind what has been taken. -/
theorem cutAfter_taken (m : Recogniser α) (before : Option Char) (taken : List Char) (last : Char)
    (rest : List Char) :
    cutAfter m before (taken.length + 1) (taken ++ last :: rest) =
      cutAfter m (some last) 0 rest := by
  induction taken generalizing before with
  | nil => rfl
  | cons c taken ih => exact ih (some c)

theorem cutAfter_of_none {c : Char} (hNone : m before (c :: cs) = none) :
    cutAfter m before 0 (c :: cs) = .inl c :: cutAfter m (some c) 0 cs := by
  rw [cutAfter, hNone]

theorem cutAfter_of_found {taken rest : List Char} {last : Char} {x : α}
    (hFound : m before (taken ++ last :: rest) = some (x, taken.length + 1)) :
    cutAfter m before 0 (taken ++ last :: rest) = .inr x :: cutAfter m (some last) 0 rest := by
  cases taken with
  | nil =>
    rw [List.nil_append] at hFound ⊢
    rw [cutAfter, hFound]
    rfl
  | cons c taken =>
    rw [List.cons_append] at hFound ⊢
    rw [cutAfter, hFound]
    exact congrArg _ (cutAfter_taken m (some c) taken last rest)

theorem Cuts.eq_cutAfter (h : Cuts m before cs pieces) : pieces = cutAfter m before 0 cs := by
  induction h with
  | done => rfl
  | plain hNone hRest ih => rw [cutAfter_of_none hNone, ih]
  | found hText hFound hRest ih =>
    subst hText
    rw [cutAfter_of_found hFound, ih]

theorem cuts_cutAfter (hm : StaysWithin m) (before : Option Char) (cs : List Char) :
    Cuts m before cs (cutAfter m before 0 cs) := by
  induction hLength : cs.length using Nat.strongRecOn generalizing before cs with
  | ind length ih =>
    cases cs with
    | nil => exact .done
    | cons c cs =>
      rw [List.length_cons] at hLength
      cases hHere : m before (c :: cs) with
      | none =>
        rw [cutAfter_of_none hHere]
        exact .plain hHere (ih cs.length (by omega) _ cs rfl)
      | some found =>
        obtain ⟨x, size⟩ := found
        obtain ⟨hPositive, hWithin⟩ := hm before (c :: cs) x size hHere
        have hLast : size - 1 < (c :: cs).length := by omega
        -- the text is what is taken, with its last character set apart, and what is behind it
        obtain ⟨taken, last, rest, hText, hTaken⟩ : ∃ taken last rest,
            c :: cs = taken ++ last :: rest ∧ taken.length = size - 1 := by
          refine ⟨(c :: cs).take (size - 1), (c :: cs)[size - 1], (c :: cs).drop size, ?_, ?_⟩
          · have hDrop := List.drop_eq_getElem_cons hLast
            rw [show size - 1 + 1 = size by omega] at hDrop
            rw [← hDrop, List.take_append_drop]
          · rw [List.length_take]
            omega
        have hSize : size = taken.length + 1 := by omega
        have hRest : rest.length < length := by
          have h := congrArg List.length hText
          rw [List.length_append, List.length_cons, List.length_cons] at h
          omega
        rw [hText, hSize] at hHere
        rw [hText, cutAfter_of_found hHere]
        exact .found rfl hHere (ih rest.length hRest (some last) rest rfl)

/-- The pieces of a text are those that `cut` finds. -/
theorem cuts_iff (hm : StaysWithin m) : Cuts m none cs pieces ↔ pieces = cut m cs := by
  constructor
  · exact Cuts.eq_cutAfter
  · rintro rfl
    exact cuts_cutAfter hm none cs

/-! ## Replacing what is recognised -/

theorem replace_eq (m : Recogniser α) (f : α → List Char) (cs : List Char) :
    replace m f cs = (cut m cs).flatMap (Sum.elim (fun c => [c]) f) := by
  unfold replace
  congr 1
  funext piece
  cases piece <;> rfl

/-- Recognisers that give the same at every place of a text replace the same in it. -/
theorem replace_congr {other : Recogniser β} {g : β → List Char}
    (h : ∀ before later, later <:+ cs →
      (m before later).map (Prod.map f id) = (other before later).map (Prod.map g id)) :
    replace m f cs = replace other g cs := by
  rw [replace_eq, replace_eq, cut, cut]
  generalize none = before, 0 = skip
  induction cs generalizing before skip with
  | nil => rfl
  | cons c cs ih =>
    have hBehind := ih fun before later hSuffix =>
      h before later (hSuffix.trans (List.suffix_cons c cs))
    cases skip with
    | succ skip => exact hBehind (some c) skip
    | zero =>
      have hHere := h before (c :: cs) List.suffix_rfl
      rw [cutAfter, cutAfter]
      cases hFound : m before (c :: cs) with
      | none =>
        rw [hFound] at hHere
        rw [Option.map_eq_none_iff.1 hHere.symm]
        exact congrArg _ (hBehind (some c) 0)
      | some found =>
        rw [hFound] at hHere
        obtain ⟨⟨y, size⟩, hOther, hPair⟩ := Option.map_eq_some_iff.1 hHere.symm
        obtain ⟨hWritten, rfl⟩ := Prod.mk.inj hPair
        rw [hOther, List.flatMap_cons, List.flatMap_cons, Sum.elim_inr, Sum.elim_inr, hWritten]
        exact congrArg _ (hBehind (some c) _)

theorem replace_of_none (h : ∀ before later, later <:+ cs → m before later = none) :
    replace m f cs = cs := by
  rw [replace_eq, cut]
  generalize none = before
  induction cs generalizing before with
  | nil => rfl
  | cons c cs ih =>
    have hBehind := ih fun before later hSuffix =>
      h before later (hSuffix.trans (List.suffix_cons c cs))
    rw [cutAfter_of_none (h before (c :: cs) List.suffix_rfl)]
    exact congrArg (c :: ·) (hBehind (some c))

/-- A recogniser that does not look at the character before a place. -/
def Blind (m : Recogniser α) : Prop :=
  ∀ before other cs, m before cs = m other cs

/-- A recogniser never sees beyond a character. -/
def StopsAt (m : Recogniser α) (c : Char) : Prop :=
  ∀ before cs rest, m before (cs ++ c :: rest) = m before cs

theorem Blind.cutAfter_eq (hBlind : Blind m) (before : Option Char) (cs : List Char) :
    cutAfter m before 0 cs = cut m cs := by
  cases cs with
  | nil => rfl
  | cons c cs => rw [cut, cutAfter, cutAfter, hBlind before none]

theorem StaysWithin.eq_none (hm : StaysWithin m) (before : Option Char) : m before [] = none := by
  rw [Option.eq_none_iff_forall_ne_some]
  rintro ⟨x, size⟩ hSome
  obtain ⟨hPositive, hSize⟩ := hm before [] x size hSome
  exact Nat.not_lt_of_le hSize hPositive

theorem Cuts.append_cons (hm : StaysWithin m) (hStops : StopsAt m c)
    (hRest : Cuts m (some c) rest more) (h : Cuts m before cs pieces) :
    Cuts m before (cs ++ c :: rest) (pieces ++ .inl c :: more) := by
  induction h with
  | done => exact .plain ((hStops _ [] rest).trans (hm.eq_none _)) hRest
  | plain hNone _ ih => exact .plain ((hStops _ _ rest).trans hNone) ih
  | @found before taken last cs behind x pieces hText hFound _ ih =>
    refine .found ?_ ((hStops _ _ rest).trans hFound) ih
    rw [hText, List.append_assoc, List.cons_append]

/-- What a recogniser does on the two sides of a character that it stops at. -/
theorem replace_append_cons (hm : StaysWithin m) (hBlind : Blind m) (hStops : StopsAt m c)
    (f : α → List Char) (cs rest : List Char) :
    replace m f (cs ++ c :: rest) = replace m f cs ++ c :: replace m f rest := by
  have hRest : Cuts m (some c) rest (cut m rest) :=
    hBlind.cutAfter_eq (some c) rest ▸ cuts_cutAfter hm (some c) rest
  have hCuts : Cuts m none (cs ++ c :: rest) (cut m cs ++ .inl c :: cut m rest) :=
    Cuts.append_cons hm hStops hRest ((cuts_iff hm).2 rfl)
  rw [replace_eq, replace_eq, replace_eq, ← (cuts_iff hm).1 hCuts, List.flatMap_append,
    List.flatMap_cons]
  rfl

end CompileHost.Text
