/-!
# Cutting a text at the places that a recogniser finds

A recogniser looks at a place of a text: at the character before it and at the text that follows.
`cut` walks over a text from the left, takes the first place that is recognised, goes on behind
what was recognised there, and leaves every other character alone.  What is recognised never
overlaps, and never is looked at again.
-/

namespace CompileHost.Text

/-- What stands at a place, and the number of characters that it takes, at least one. -/
abbrev Recogniser (α : Type) := Option Char → List Char → Option (α × Nat)

/-- `cut` behind the character `before`, of which the first `skip` characters are spoken for. -/
def cutAfter {α : Type} (m : Recogniser α) (before : Option Char) :
    Nat → List Char → List (Char ⊕ α)
  | _, [] => []
  | skip + 1, c :: cs => cutAfter m (some c) skip cs
  | 0, c :: cs =>
    match m before (c :: cs) with
    | some (found, size) => .inr found :: cutAfter m (some c) (size - 1) cs
    | none => .inl c :: cutAfter m (some c) 0 cs

/-- The text as plain characters and the things recognised between them. -/
def cut {α : Type} (m : Recogniser α) (cs : List Char) : List (Char ⊕ α) :=
  cutAfter m none 0 cs

/-- Puts in place of everything recognised the text that `f` makes of it. -/
def replace {α : Type} (m : Recogniser α) (f : α → List Char) (cs : List Char) : List Char :=
  (cut m cs).flatMap fun
    | .inl c => [c]
    | .inr found => f found

/-- Whether anything is recognised. -/
def occurs {α : Type} (m : Recogniser α) (cs : List Char) : Bool :=
  (cut m cs).any (·.isRight)

/-- A recogniser that reads from a place and hands back the text behind what it has read. -/
def reading {α : Type} (p : List Char → Option (α × List Char)) : Recogniser α := fun _ cs =>
  (p cs).map fun (found, rest) => (found, cs.length - rest.length)

/-- What follows a given beginning. -/
def stripStart? {α : Type} [DecidableEq α] : List α → List α → Option (List α)
  | [], cs => some cs
  | _ :: _, [] => none
  | w :: ws, c :: cs => if w = c then stripStart? ws cs else none

theorem stripStart?_eq_some_iff {α : Type} [DecidableEq α] {word cs rest : List α} :
    stripStart? word cs = some rest ↔ cs = word ++ rest := by
  fun_induction stripStart? word cs with
  | case1 cs => simp
  | case2 w ws => simp
  | case3 w ws cs ih => simp [ih]
  | case4 w ws c cs h => simp [Ne.symm h]

/-- Whether a text begins with another. -/
def startsWith (cs word : List Char) : Bool :=
  (stripStart? word cs).isSome

/-- Recognises a fixed word. -/
def literally (word : List Char) : Recogniser Unit := fun _ cs =>
  if startsWith cs word then some ((), word.length) else none

/-- Replaces every occurrence of a word, from the left and without overlap. -/
def replaceWord (word value : List Char) (cs : List Char) : List Char :=
  replace (literally word) (fun _ => value) cs

/-- Cuts a text at the first occurrence of a word: what stands before it, and the text from the
word on. -/
def splitBefore? (word : List Char) : List Char → Option (List Char × List Char)
  | [] => if word.isEmpty then some ([], []) else none
  | c :: cs =>
    if startsWith (c :: cs) word then some ([], c :: cs)
    else (splitBefore? word cs).map fun (before, rest) => (c :: before, rest)

theorem eq_append_of_splitBefore? {word cs before rest : List Char}
    (h : splitBefore? word cs = some (before, rest)) : cs = before ++ rest := by
  induction cs generalizing before with
  | nil =>
    rw [splitBefore?] at h
    split at h
    · cases h
      rfl
    · cases h
  | cons c cs ih =>
    rw [splitBefore?] at h
    split at h
    · cases h
      rfl
    · obtain ⟨⟨b, r⟩, hb, he⟩ := Option.map_eq_some_iff.1 h
      cases he
      rw [ih hb]
      rfl

section Pieces

variable {α : Type}

/-- Pieces with a separator between each two. -/
def joinWith (sep : α) : List (List α) → List α
  | [] => []
  | [piece] => piece
  | piece :: rest => piece ++ sep :: joinWith sep rest

theorem joinWith_cons {sep : α} {pieces : List (List α)} (piece : List α) (h : pieces ≠ []) :
    joinWith sep (piece :: pieces) = piece ++ sep :: joinWith sep pieces := by
  cases pieces with
  | nil => exact absurd rfl h
  | cons p ps => rfl

theorem joinWith_cons_cons (sep a : α) (piece : List α) (pieces : List (List α)) :
    joinWith sep ((a :: piece) :: pieces) = a :: joinWith sep (piece :: pieces) := by
  cases pieces <;> rfl

variable [DecidableEq α]

/-- The pieces between the occurrences of a separator; always at least one piece. -/
def splitAt (sep : α) : List α → List (List α)
  | [] => [[]]
  | a :: as =>
    if a = sep then [] :: splitAt sep as
    else
      match splitAt sep as with
      | [] => [[a]]
      | piece :: pieces => (a :: piece) :: pieces

theorem splitAt_ne_nil (sep : α) (as : List α) : splitAt sep as ≠ [] := by
  fun_cases splitAt sep as <;> simp

/-- Nothing is lost between the pieces. -/
theorem joinWith_splitAt (sep : α) (as : List α) : joinWith sep (splitAt sep as) = as := by
  fun_induction splitAt sep as with
  | case1 => rfl
  | case2 as ih =>
    rw [joinWith_cons _ (splitAt_ne_nil _ as), ih]
    rfl
  | case3 a as _ h _ => exact absurd h (splitAt_ne_nil _ as)
  | case4 a as _ piece pieces h ih => rw [joinWith_cons_cons, ← h, ih]

/-- No piece holds the separator. -/
theorem not_mem_of_mem_splitAt {sep : α} {as piece : List α} (h : piece ∈ splitAt sep as) :
    sep ∉ piece := by
  fun_induction splitAt sep as generalizing piece with
  | case1 => simp_all
  | case2 as ih =>
    rcases List.mem_cons.1 h with rfl | h
    · exact List.not_mem_nil
    · exact ih h
  | case3 a as _ he _ => exact absurd he (splitAt_ne_nil _ as)
  | case4 a as ha first pieces he ih =>
    rw [he] at ih
    rcases List.mem_cons.1 h with rfl | h
    · simp [Ne.symm ha, ih List.mem_cons_self]
    · exact ih (List.mem_cons_of_mem _ h)

end Pieces

end CompileHost.Text
