import CompileHost.Proofs.Text.Cutting
import CompileHost.Proofs.Text.Places

/-!
# What a replacement makes of a text

A replacement goes over a text from the left.  Where its reader reads something, the text that
stands for it is written, and the replacement goes on behind what was read; any other character is
copied.

* `replace_induction`: what holds between a text and what a replacement makes of it.
* `replace_eq_self_iff`: a replacement that makes texts shorter leaves a text alone exactly if
  nothing in it is read.
* `replaceWord_eq_replace`: the replacement of a word as that of what a reader reads.
-/

namespace CompileHost.Text

variable {α : Type} {p : List Char → Option (α × List Char)} {f : α → List Char} {c : Char}
  {cs rest : List Char} {x : α}

/-- A reader takes some characters from the front of a text and hands back the rest. -/
def Consumes (p : List Char → Option (α × List Char)) : Prop :=
  ∀ cs x rest, p cs = some (x, rest) → ∃ taken, taken ≠ [] ∧ cs = taken ++ rest

theorem Consumes.length_lt (hp : Consumes p) (hRead : p cs = some (x, rest)) :
    rest.length < cs.length := by
  obtain ⟨taken, hTaken, rfl⟩ := hp cs x rest hRead
  have hPositive : 0 < taken.length := List.length_pos_iff.2 hTaken
  rw [List.length_append]
  omega

theorem Consumes.eq_none (hp : Consumes p) : p [] = none := by
  rw [Option.eq_none_iff_forall_ne_some]
  rintro ⟨x, rest⟩ hRead
  exact Nat.not_lt_zero _ (hp.length_lt hRead)

theorem blind_reading (p : List Char → Option (α × List Char)) : Blind (reading p) :=
  fun _ _ _ => rfl

theorem reading_of_read {before : Option Char} (hRead : p cs = some (x, rest)) :
    reading p before cs = some (x, cs.length - rest.length) := by
  rw [reading, hRead]
  rfl

theorem replace_nil (p : List Char → Option (α × List Char)) (f : α → List Char) :
    replace (reading p) f [] = [] :=
  rfl

theorem replace_cons_of_none (hNone : p (c :: cs) = none) :
    replace (reading p) f (c :: cs) = c :: replace (reading p) f cs := by
  have hHere : reading p none (c :: cs) = none := Option.map_eq_none_iff.2 hNone
  rw [replace_eq, replace_eq, cut, cutAfter_of_none hHere, (blind_reading p).cutAfter_eq]
  rfl

theorem replace_of_read (hp : Consumes p) (hRead : p cs = some (x, rest)) :
    replace (reading p) f cs = f x ++ replace (reading p) f rest := by
  obtain ⟨taken, hTaken, rfl⟩ := hp cs x rest hRead
  obtain ⟨front, last, rfl⟩ : ∃ front last, taken = front ++ [last] :=
    ⟨_, _, (List.dropLast_concat_getLast hTaken).symm⟩
  rw [List.append_assoc, List.singleton_append] at hRead ⊢
  have hSize : (front ++ last :: rest).length - rest.length = front.length + 1 := by
    rw [List.length_append, List.length_cons]
    omega
  have hHere : reading p none (front ++ last :: rest) = some (x, front.length + 1) := by
    rw [reading_of_read hRead, hSize]
  rw [replace_eq, replace_eq, cut, cutAfter_of_found hHere, (blind_reading p).cutAfter_eq,
    List.flatMap_cons]
  rfl

/-- Readers that read the same, and for which the same is written, replace the same. -/
theorem replace_reading_congr {β : Type} {q : List Char → Option (β × List Char)}
    {g : β → List Char}
    (h : ∀ cs, (p cs).map (Prod.map f id) = (q cs).map (Prod.map g id)) (cs : List Char) :
    replace (reading p) f cs = replace (reading q) g cs := by
  refine replace_congr fun before later _ => ?_
  have hWritten : ∀ {γ : Type} (r : List Char → Option (γ × List Char)) (e : γ → List Char),
      (reading r before later).map (Prod.map e id) =
        ((r later).map (Prod.map e id)).map fun found =>
          (found.1, later.length - found.2.length) := by
    intro γ r e
    rw [reading, Option.map_map, Option.map_map]
    rfl
  rw [hWritten, hWritten, h]

/-- What holds between a text and what a replacement makes of it, if it is kept where a character
is copied and where something is read. -/
theorem replace_induction {motive : List Char → List Char → Prop} (hp : Consumes p)
    (nil : motive [] [])
    (plain : ∀ c cs, p (c :: cs) = none → motive cs (replace (reading p) f cs) →
      motive (c :: cs) (c :: replace (reading p) f cs))
    (found : ∀ cs x rest, p cs = some (x, rest) → motive rest (replace (reading p) f rest) →
      motive cs (f x ++ replace (reading p) f rest)) (cs : List Char) :
    motive cs (replace (reading p) f cs) := by
  induction hLength : cs.length using Nat.strongRecOn generalizing cs with
  | ind length ih =>
    subst hLength
    cases hRead : p cs with
    | some read =>
      obtain ⟨x, rest⟩ := read
      rw [replace_of_read hp hRead]
      exact found cs x rest hRead (ih rest.length (hp.length_lt hRead) rest rfl)
    | none =>
      cases cs with
      | nil => exact nil
      | cons c cs =>
        rw [replace_cons_of_none hRead]
        exact plain c cs hRead (ih cs.length (Nat.lt_succ_self _) cs rfl)

/-! ## Replacements that make a text shorter -/

/-- What stands for something read is shorter than what was read. -/
def Shortens (p : List Char → Option (α × List Char)) (f : α → List Char) : Prop :=
  ∀ cs x rest, p cs = some (x, rest) → (f x).length + rest.length < cs.length

theorem length_replace_le (hp : Consumes p) (hShort : Shortens p f) (cs : List Char) :
    (replace (reading p) f cs).length ≤ cs.length := by
  refine replace_induction (motive := fun cs out => out.length ≤ cs.length) hp (Nat.le_refl 0)
    (fun c cs _ ih => Nat.succ_le_succ ih) ?_ cs
  intro cs x rest hRead ih
  have hLess := hShort cs x rest hRead
  rw [List.length_append]
  omega

theorem replace_eq_self_of_length_le (hp : Consumes p) (hShort : Shortens p f) (cs : List Char)
    (hLength : cs.length ≤ (replace (reading p) f cs).length) :
    replace (reading p) f cs = cs := by
  revert hLength
  refine replace_induction (motive := fun cs out => cs.length ≤ out.length → out = cs) hp
    (fun _ => rfl) (fun c cs _ ih hLength => ?_) (fun cs x rest hRead _ hLength => ?_) cs
  · rw [ih (Nat.le_of_succ_le_succ hLength)]
  · have hLess := hShort cs x rest hRead
    have hRest := length_replace_le hp hShort rest
    rw [List.length_append] at hLength
    omega

/-- Such a replacement leaves a text alone exactly if nothing in it is read. -/
theorem replace_eq_self_iff (hp : Consumes p) (hShort : Shortens p f) (cs : List Char) :
    replace (reading p) f cs = cs ↔ ∀ later, later <:+ cs → p later = none := by
  constructor
  · refine replace_induction
      (motive := fun cs out => out = cs → ∀ later, later <:+ cs → p later = none)
      hp ?_ ?_ ?_ cs
    · intro _ later hSuffix
      rw [List.suffix_nil.1 hSuffix]
      exact hp.eq_none
    · intro c cs hNone ih hSame later hSuffix
      rcases List.suffix_cons_iff.1 hSuffix with rfl | hSuffix
      · exact hNone
      · exact ih (List.cons.inj hSame).2 later hSuffix
    · intro cs x rest hRead _ hSame
      have hLess := hShort cs x rest hRead
      have hRest := length_replace_le hp hShort rest
      have hLength := congrArg List.length hSame
      rw [List.length_append] at hLength
      omega
  · intro hNone
    exact replace_of_none fun _ later hSuffix => Option.map_eq_none_iff.2 (hNone later hSuffix)

/-! ## Words -/

/-- Reads a fixed word. -/
def word? (word : List Char) (cs : List Char) : Option (Unit × List Char) :=
  (stripStart? word cs).map fun rest => ((), rest)

theorem word?_eq_some_iff {word : List Char} {u : Unit} :
    word? word cs = some (u, rest) ↔ cs = word ++ rest := by
  rw [word?, ← stripStart?_eq_some_iff, Option.map_eq_some_iff]
  constructor
  · rintro ⟨_, hRest, hPair⟩
    obtain ⟨-, rfl⟩ := Prod.mk.inj hPair
    exact hRest
  · exact fun hRest => ⟨rest, hRest, rfl⟩

theorem consumes_word? {word : List Char} (hWord : word ≠ []) : Consumes (word? word) :=
  fun _ _ _ hRead => ⟨word, hWord, word?_eq_some_iff.1 hRead⟩

/-- To replace a word is to replace what a reader reads. -/
theorem replaceWord_eq_replace (word value cs : List Char) :
    replaceWord word value cs = replace (reading (word? word)) (fun _ => value) cs := by
  refine replace_congr fun before later _ => ?_
  rw [literally, startsWith]
  cases hRead : stripStart? word later with
  | none =>
    rw [reading, word?, hRead]
    rfl
  | some rest =>
    obtain rfl := stripStart?_eq_some_iff.1 hRead
    have hSize : (word ++ rest).length - rest.length = word.length := by
      rw [List.length_append, Nat.add_sub_cancel]
    rw [reading_of_read (word?_eq_some_iff.2 rfl), hSize]
    rfl

end CompileHost.Text
