import CompileHost.Markup.Minify
import CompileHost.Proofs.Text.LowerCase
import CompileHost.Proofs.Text.Replacing
import Mathlib.Data.List.TakeWhile

/-!
# The places at which quotes go

Quotes go around a value when a name ends directly before its `=`, the value needs no quotes, and
no value behind it can be counted to the same name.  The last only happens where the characters
that may stand in names include `=` and a quote: a name is then as long as it can be, and of the
values along it only the last loses its quotes.

* `LosesQuotes`: the rule for one place, which looks at the text before it and behind it.
* `Unquoted`: what a text becomes if the rule is followed at each of its places.
* `unquoted_removeQuotes`: this is what one goes through by searching for names from the left.
-/

namespace CompileHost.Markup

open Text

variable {surround before after cs later rest value name run more text out : List Char} {c : Char}

/-! ## Values that need no quotes -/

/-- A value that reads the same without quotes. -/
def IsPlainValue (value : List Char) : Prop :=
  value ≠ [] ∧ ∀ c ∈ value, isPlainValueChar c = true

/-- Reads `=` and a value between quotes that it does not need. -/
def assigned? : List Char → Option (List Char × List Char)
  | '=' :: cs => plainValue? cs
  | _ => none

theorem isPlainValueChar_of_isQuote (h : isQuote c = true) : isPlainValueChar c = false := by
  simp [isPlainValueChar, h]

theorem not_of_isPlainValueChar (h : isPlainValueChar c = true) :
    isBlank c = false ∧ isQuote c = false ∧ c ≠ '=' ∧ c ≠ '>' := by
  simp only [isPlainValueChar, Bool.not_eq_true', Bool.or_eq_false_iff, beq_eq_false_iff_ne] at h
  obtain ⟨⟨⟨⟨⟨hBlank, hQuote⟩, hEquals⟩, -⟩, hClose⟩, -⟩ := h
  exact ⟨hBlank, hQuote, hEquals, hClose⟩

theorem IsPlainValue.quote_notMem (h : IsPlainValue value) (hQuote : isQuote c = true) :
    c ∉ value := by
  intro hMem
  rw [(not_of_isPlainValueChar (h.2 c hMem)).2.1] at hQuote
  cases hQuote

theorem plainValue?_eq_some_iff :
    plainValue? cs = some (value, rest) ↔
      ∃ q, isQuote q = true ∧ IsPlainValue value ∧ cs = q :: (value ++ q :: rest) := by
  cases cs with
  | nil => simp [plainValue?]
  | cons q cs =>
    simp only [plainValue?, Option.ite_none_right_eq_some, Option.some.injEq, Prod.mk.injEq]
    constructor
    · rintro ⟨⟨hQuote, hNonempty, hClosed⟩, rfl, rfl⟩
      refine ⟨q, hQuote, ⟨hNonempty, fun c => List.mem_takeWhile_imp⟩, ?_⟩
      obtain ⟨behind, hBehind⟩ := List.head?_eq_some_iff.1 hClosed
      rw [hBehind, List.drop_one, List.tail_cons, ← hBehind, List.takeWhile_append_dropWhile]
    · rintro ⟨q, hQuote, ⟨hNonempty, hPlain⟩, hText⟩
      obtain ⟨rfl, rfl⟩ := List.cons.inj hText
      have hStop := isPlainValueChar_of_isQuote hQuote
      have hTake : (value ++ q :: rest).takeWhile isPlainValueChar = value := by
        rw [List.takeWhile_append_of_pos hPlain, List.takeWhile_cons_of_neg (by simp [hStop]),
          List.append_nil]
      have hDrop : (value ++ q :: rest).dropWhile isPlainValueChar = q :: rest := by
        rw [List.dropWhile_append_of_pos hPlain, List.dropWhile_cons_of_neg (by simp [hStop])]
      rw [hTake, hDrop]
      exact ⟨⟨hQuote, hNonempty, rfl⟩, rfl, rfl⟩

theorem assigned?_eq_some_iff :
    assigned? cs = some (value, rest) ↔
      ∃ q, isQuote q = true ∧ IsPlainValue value ∧ cs = '=' :: q :: (value ++ q :: rest) := by
  unfold assigned?
  split
  · rw [plainValue?_eq_some_iff]
    simp only [List.cons.injEq, true_and]
  next hOther =>
    refine iff_of_false (by simp) ?_
    rintro ⟨q, -, -, rfl⟩
    exact hOther _ rfl

theorem assigned?_cons_of_ne (h : c ≠ '=') (cs : List Char) : assigned? (c :: cs) = none := by
  rw [Option.eq_none_iff_forall_ne_some]
  rintro ⟨value, rest⟩ hRead
  obtain ⟨q, -, -, hText⟩ := assigned?_eq_some_iff.1 hRead
  exact h (List.cons.inj hText).1

theorem exists_of_assigned? (h : assigned? cs = some (value, rest)) :
    ∃ taken, taken ≠ [] ∧ cs = taken ++ rest ∧ ∀ c ∈ taken, isBlank c = false := by
  obtain ⟨q, hQuote, ⟨-, hPlain⟩, rfl⟩ := assigned?_eq_some_iff.1 h
  refine ⟨'=' :: q :: (value ++ [q]), by simp, by simp, ?_⟩
  simp only [List.forall_mem_cons, List.forall_mem_append]
  have hBlank := isBlank_of_isQuote hQuote
  exact ⟨rfl, hBlank, fun c hc => (not_of_isPlainValueChar (hPlain c hc)).1, hBlank, by simp⟩

/-! ## Names -/

/-- A character with which a name begins. -/
def startsName (surround : List Char) (c : Char) : Bool :=
  c.isAlpha || c == '_' || surround.contains c

/-- A character that may stand further on in a name. -/
def continuesName (surround : List Char) (c : Char) : Bool :=
  isWord c || c == '.' || c == '-' || surround.contains c

/-- White space and a name. -/
def IsName (surround name : List Char) : Prop :=
  ∃ blank first run, name = blank :: first :: run ∧ isBlank blank = true ∧
    startsName surround first = true ∧ ∀ c ∈ run, continuesName surround c = true

/-- Behind the value that begins a text, another is reached through characters of names. -/
def Joined (surround cs : List Char) : Prop :=
  ∃ more later, cs = more ++ later ∧ more ≠ [] ∧
    (∀ c ∈ more, continuesName surround c = true) ∧ assigned? later ≠ none

/-- The quotes of the value that begins the text `after` go if the text `before` precedes it. -/
structure LosesQuotes (surround before after : List Char) : Prop where
  name : ∃ front name, before = front ++ name ∧ IsName surround name
  value : assigned? after ≠ none
  last : ¬ Joined surround after

theorem isWord_of_isAlpha (h : c.isAlpha = true) : isWord c = true := by
  rw [isWord, if_pos (toNat_lt_of_isAlpha h), isAsciiWord, Char.isAlphanum, h]
  rfl

theorem continuesName_of_startsName (h : startsName surround c = true) :
    continuesName surround c = true := by
  simp only [startsName, Bool.or_eq_true, beq_iff_eq] at h
  simp only [continuesName, Bool.or_eq_true]
  rcases h with (hAlpha | rfl) | hSurround
  · exact .inl (.inl (.inl (isWord_of_isAlpha hAlpha)))
  · exact .inl (.inl (.inl rfl))
  · exact .inr hSurround

namespace IsName

theorem ne_nil (h : IsName surround name) : name ≠ [] := by
  obtain ⟨blank, first, run, rfl, -⟩ := h
  exact List.cons_ne_nil _ _

theorem head_isBlank (h : IsName surround (c :: name)) : isBlank c = true := by
  obtain ⟨blank, first, run, hText, hBlank, -⟩ := h
  rwa [(List.cons.inj hText).1]

theorem continuesName_of_mem (h : IsName surround (c :: name)) {d : Char} (hd : d ∈ name) :
    continuesName surround d = true := by
  obtain ⟨blank, first, run, hText, -, hFirst, hRun⟩ := h
  rw [(List.cons.inj hText).2] at hd
  rcases List.mem_cons.1 hd with rfl | hd
  · exact continuesName_of_startsName hFirst
  · exact hRun d hd

end IsName

/-! ## What the search for a name finds -/

theorem attributeAt?_eq (cs : List Char) (size : Nat) :
    attributeAt? cs size = (assigned? (cs.drop size)).map fun (value, rest) =>
      (cs.take size ++ '=' :: value, rest) := by
  rw [attributeAt?]
  cases cs.drop size with
  | nil => rfl
  | cons c later =>
    by_cases hc : c = '='
    · subst hc
      rfl
    · rw [assigned?_cons_of_ne hc]
      split
      next hText => exact absurd (List.cons.inj hText).1 hc
      · rfl

/-- The search goes from the longest name to the shortest one. -/
theorem longestAttribute?_eq_some_iff {size : Nat} {x : List Char × List Char} :
    longestAttribute? cs size = some x ↔ ∃ length, length ≤ size ∧ attributeAt? cs length = some x ∧
      ∀ longer, length < longer → longer ≤ size → attributeAt? cs longer = none := by
  induction size with
  | zero =>
    rw [longestAttribute?]
    constructor
    · intro hRead
      exact ⟨0, Nat.le_refl 0, hRead, fun longer hLess hMost => by omega⟩
    · rintro ⟨length, hMost, hRead, -⟩
      rwa [Nat.le_zero.1 hMost] at hRead
  | succ size ih =>
    rw [longestAttribute?, Option.or_eq_some_iff, ih]
    constructor
    · rintro (hRead | ⟨hNone, length, hMost, hRead, hLongest⟩)
      · exact ⟨size + 1, Nat.le_refl _, hRead, fun longer hLess hMost => by omega⟩
      · refine ⟨length, by omega, hRead, fun longer hLess hLonger => ?_⟩
        rcases Nat.lt_or_eq_of_le hLonger with hLonger | rfl
        · exact hLongest longer hLess (by omega)
        · exact hNone
    · rintro ⟨length, hMost, hRead, hLongest⟩
      rcases Nat.lt_or_eq_of_le hMost with hMost | rfl
      · exact .inr ⟨hLongest _ hMost (Nat.le_refl _), length, by omega, hRead,
          fun longer hLess hLonger => hLongest longer hLess (by omega)⟩
      · exact .inl hRead

theorem longestAttribute?_eq_none_iff {size : Nat} :
    longestAttribute? cs size = none ↔ ∀ length ≤ size, attributeAt? cs length = none := by
  induction size with
  | zero => simp [longestAttribute?]
  | succ size ih =>
    rw [longestAttribute?, Option.or_eq_none_iff, ih]
    constructor
    · rintro ⟨hNone, hShorter⟩ length hLength
      rcases Nat.lt_or_eq_of_le hLength with hLength | rfl
      · exact hShorter length (by omega)
      · exact hNone
    · exact fun h => ⟨h _ (Nat.le_refl _), fun length hLength => h length (by omega)⟩

/-- The places that a run reaches are those before which all characters belong to it. -/
theorem length_le_takeWhile_iff {p : Char → Bool} {length : Nat} (hLength : length ≤ cs.length) :
    length ≤ (cs.takeWhile p).length ↔ ∀ c ∈ cs.take length, p c = true := by
  constructor
  · intro h c hc
    have hTake : cs.take length = (cs.takeWhile p).take length := by
      conv_lhs => rw [← List.takeWhile_append_dropWhile (p := p) (l := cs)]
      rw [List.take_append_of_le_length h]
    rw [hTake] at hc
    exact List.mem_takeWhile_imp (List.mem_of_mem_take hc)
  · intro h
    have hTake : cs.takeWhile p = cs.take length ++ (cs.drop length).takeWhile p := by
      conv_lhs => rw [← List.take_append_drop length cs]
      exact List.takeWhile_append_of_pos h
    rw [hTake, List.length_append, List.length_take]
    omega

/-- The name that is searched for is the longest, and so no other value follows along it. -/
theorem longestAttribute?_run_eq_some_iff :
    longestAttribute? cs (cs.takeWhile (continuesName surround)).length = some (text, rest) ↔
      ∃ run later value, cs = run ++ later ∧ (∀ c ∈ run, continuesName surround c = true) ∧
        assigned? later = some (value, rest) ∧ text = run ++ '=' :: value ∧
          ¬ Joined surround later := by
  rw [longestAttribute?_eq_some_iff]
  constructor
  · rintro ⟨length, hMost, hRead, hLongest⟩
    have hLength : length ≤ cs.length := hMost.trans (List.takeWhile_sublist _).length_le
    rw [attributeAt?_eq, Option.map_eq_some_iff] at hRead
    obtain ⟨⟨value, behind⟩, hValue, hPair⟩ := hRead
    obtain ⟨rfl, rfl⟩ := Prod.mk.inj hPair
    refine ⟨cs.take length, cs.drop length, value, (List.take_append_drop length cs).symm,
      (length_le_takeWhile_iff hLength).1 hMost, hValue, rfl, ?_⟩
    rintro ⟨more, later, hText, hMore, hContinues, hLater⟩
    have hPositive : 0 < more.length := List.length_pos_iff.2 hMore
    have hWhole : cs = (cs.take length ++ more) ++ later := by
      rw [List.append_assoc, ← hText, List.take_append_drop]
    have hSize : (cs.take length ++ more).length = length + more.length := by
      rw [List.length_append, List.length_take_of_le hLength]
    have hTake : cs.take (length + more.length) = cs.take length ++ more := by
      conv_lhs => rw [hWhole, ← hSize, List.take_left]
    have hDrop : cs.drop (length + more.length) = later := by
      conv_lhs => rw [hWhole, ← hSize, List.drop_left]
    have hLonger : length + more.length ≤ cs.length := by
      have hWholeSize := congrArg List.length hWhole
      rw [List.length_append, hSize] at hWholeSize
      omega
    have hReached := (length_le_takeWhile_iff (p := continuesName surround) hLonger).2 (by
      rw [hTake]
      exact List.forall_mem_append.2 ⟨(length_le_takeWhile_iff hLength).1 hMost, hContinues⟩)
    have hNone := hLongest _ (by omega) hReached
    rw [attributeAt?_eq, hDrop, Option.map_eq_none_iff] at hNone
    exact hLater hNone
  · rintro ⟨run, later, value, rfl, hRun, hValue, rfl, hLast⟩
    refine ⟨run.length, ?_, ?_, ?_⟩
    · exact (length_le_takeWhile_iff (by simp)).2 (by rwa [List.take_left])
    · rw [attributeAt?_eq, List.drop_left, List.take_left, hValue]
      rfl
    · intro longer hLess hMost
      by_contra hRead
      rw [attributeAt?_eq, Option.map_eq_none_iff] at hRead
      have hLength := hMost.trans (List.takeWhile_sublist _).length_le
      rw [List.length_append] at hLength
      obtain ⟨size, rfl⟩ := Nat.exists_eq_add_of_le (Nat.le_of_lt hLess)
      rw [List.drop_length_add_append] at hRead
      have hReached := (length_le_takeWhile_iff (by rwa [List.length_append])).1 hMost
      rw [List.take_length_add_append, List.forall_mem_append] at hReached
      refine hLast ⟨later.take size, later.drop size, (List.take_append_drop _ _).symm, ?_,
        hReached.2, hRead⟩
      rw [← List.length_pos_iff, List.length_take_of_le (by omega)]
      omega

theorem quotedAttribute?_eq_some_iff :
    quotedAttribute? surround cs = some (text, rest) ↔
      ∃ name later value, cs = name ++ later ∧ IsName surround name ∧
        assigned? later = some (value, rest) ∧ text = name ++ '=' :: value ∧
          ¬ Joined surround later := by
  constructor
  · intro hRead
    unfold quotedAttribute? at hRead
    split at hRead
    next blank first cs =>
      rw [Option.ite_none_right_eq_some, Bool.and_eq_true, Option.map_eq_some_iff] at hRead
      obtain ⟨⟨hBlank, hFirst⟩, ⟨text, behind⟩, hLongest, hPair⟩ := hRead
      obtain ⟨rfl, rfl⟩ := Prod.mk.inj hPair
      obtain ⟨run, later, value, rfl, hRun, hValue, rfl, hLast⟩ :=
        longestAttribute?_run_eq_some_iff.1 hLongest
      exact ⟨blank :: first :: run, later, value, rfl, ⟨blank, first, run, rfl, hBlank, hFirst, hRun⟩,
        hValue, rfl, hLast⟩
    · cases hRead
  · rintro ⟨_, later, value, rfl, ⟨blank, first, run, rfl, hBlank, hFirst, hRun⟩, hValue, rfl, hLast⟩
    have hLongest := longestAttribute?_run_eq_some_iff.2
      ⟨run, later, value, rfl, hRun, hValue, rfl, hLast⟩
    change (if isBlank blank && startsName surround first then _ else none) = _
    rw [hBlank, hFirst, Bool.and_self, if_pos rfl]
    exact Option.map_eq_some_iff.2 ⟨_, hLongest, rfl⟩

theorem quotedAttribute?_eq_none_iff :
    quotedAttribute? surround cs = none ↔
      ∀ name later, cs = name ++ later → IsName surround name → assigned? later = none := by
  constructor
  · rintro hNone _ later rfl ⟨blank, first, run, rfl, hBlank, hFirst, hRun⟩
    change (if isBlank blank && startsName surround first then _ else none) = none at hNone
    rw [hBlank, hFirst, Bool.and_self, if_pos rfl, Option.map_eq_none_iff,
      longestAttribute?_eq_none_iff] at hNone
    have hReached : run.length ≤ ((run ++ later).takeWhile (continuesName surround)).length :=
      (length_le_takeWhile_iff (by simp)).2 (by rwa [List.take_left])
    have hHere : attributeAt? (run ++ later) run.length = none := hNone run.length hReached
    rwa [attributeAt?_eq, List.drop_left, Option.map_eq_none_iff] at hHere
  · intro hNone
    unfold quotedAttribute?
    split
    next blank first cs =>
      rw [ite_eq_right_iff]
      intro hName
      rw [Bool.and_eq_true] at hName
      rw [Option.map_eq_none_iff, longestAttribute?_eq_none_iff]
      intro length hMost
      have hLength : length ≤ cs.length := hMost.trans (List.takeWhile_sublist _).length_le
      rw [attributeAt?_eq, Option.map_eq_none_iff]
      refine hNone (blank :: first :: cs.take length) _ ?_ ⟨blank, first, _, rfl, hName.1, hName.2,
        (length_le_takeWhile_iff hLength).1 hMost⟩
      rw [List.cons_append, List.cons_append, List.take_append_drop]
    · rfl

theorem consumes_quotedAttribute? : Consumes (quotedAttribute? surround) := by
  intro cs text rest hRead
  obtain ⟨name, later, value, rfl, hName, hValue, -, -⟩ := quotedAttribute?_eq_some_iff.1 hRead
  obtain ⟨taken, -, rfl, -⟩ := exists_of_assigned? hValue
  exact ⟨name ++ taken, by simp [hName.ne_nil], (List.append_assoc _ _ _).symm⟩

/-! ## The rule, place by place -/

/-- What a text becomes, behind the text `before`, if all quotes go that the rule names. -/
inductive Unquoted (surround : List Char) : List Char → List Char → List Char → Prop
  | done (before : List Char) : Unquoted surround before [] []
  | copied {before cs out : List Char} {c : Char} (keeps : ¬ LosesQuotes surround before (c :: cs))
      (behind : Unquoted surround (before ++ [c]) cs out) :
      Unquoted surround before (c :: cs) (c :: out)
  | dropped {before taken rest value out : List Char}
      (loses : LosesQuotes surround before (taken ++ rest))
      (reads : assigned? (taken ++ rest) = some (value, rest))
      (behind : Unquoted surround (before ++ taken) rest out) :
      Unquoted surround before (taken ++ rest) ('=' :: value ++ out)

theorem Unquoted.append
    (hKeeps : ∀ front c back, name = front ++ c :: back →
      ¬ LosesQuotes surround (before ++ front) (c :: back ++ cs))
    (hBehind : Unquoted surround (before ++ name) cs out) :
    Unquoted surround before (name ++ cs) (name ++ out) := by
  induction name generalizing before with
  | nil => simpa using hBehind
  | cons c name ih =>
    refine .copied (by simpa using hKeeps [] c name rfl) (ih ?_ (by simpa using hBehind))
    intro front d back hText
    simpa using hKeeps (c :: front) d back (congrArg (c :: ·) hText)

/-- A name that begins in the text `before` reaches a value in the text behind. -/
def Pending (surround before cs : List Char) : Prop :=
  ∃ front begun name later, before = front ++ begun ∧ begun ≠ [] ∧ cs = name ++ later ∧
    IsName surround (begun ++ name) ∧ assigned? later ≠ none

theorem LosesQuotes.pending (h : LosesQuotes surround before cs) : Pending surround before cs := by
  obtain ⟨front, name, rfl, hName⟩ := h.name
  exact ⟨front, name, [], cs, rfl, hName.ne_nil, rfl, by rwa [List.append_nil], h.value⟩

theorem not_pending_nil : ¬ Pending surround [] cs := by
  rintro ⟨front, begun, name, later, hText, hBegun, -⟩
  exact hBegun (List.append_eq_nil_iff.1 hText.symm).2

/-- Where no name begins that reaches a value, a character more begins none. -/
theorem not_pending_concat (hNone : quotedAttribute? surround (c :: cs) = none)
    (h : ¬ Pending surround before (c :: cs)) : ¬ Pending surround (before ++ [c]) cs := by
  rintro ⟨front, begun, name, later, hText, hBegun, rfl, hName, hValue⟩
  rcases List.append_eq_append_iff.1 hText with ⟨more, rfl, hLast⟩ | ⟨more, rfl, rfl⟩
  · -- the name begins with the character itself
    rcases List.cons_eq_append_iff.1 hLast with ⟨rfl, rfl⟩ | ⟨_, rfl, hNil⟩
    · exact hValue (quotedAttribute?_eq_none_iff.1 hNone (c :: name) later rfl hName)
    · exact hBegun (List.append_eq_nil_iff.1 hNil.symm).2
  · by_cases hMore : more = []
    · subst hMore
      exact hValue (quotedAttribute?_eq_none_iff.1 hNone (c :: name) later rfl hName)
    · exact h ⟨front, more, c :: name, later, rfl, hMore, rfl, by simpa using hName, hValue⟩

/-- A name that goes on beyond the place of a value joins it with the next one. -/
theorem IsName.joined {part taken : List Char} (h : IsName surround (part ++ (taken ++ more)))
    (hPart : part ≠ []) (hTaken : taken ≠ []) (hValue : assigned? later ≠ none) :
    Joined surround (taken ++ (more ++ later)) := by
  obtain ⟨blank, part, rfl⟩ := List.exists_cons_of_ne_nil hPart
  refine ⟨taken ++ more, later, (List.append_assoc _ _ _).symm, by simp [hTaken], ?_, hValue⟩
  intro c hc
  exact h.continuesName_of_mem (List.mem_append_right part hc)

/-- Behind the longest name and its value, no name is left over that begins before. -/
theorem not_pending_append {taken : List Char} (hName : IsName surround name)
    (hBlank : ∀ c ∈ taken, isBlank c = false) (hTaken : taken ≠ [])
    (hLast : ¬ Joined surround (taken ++ rest))
    (h : ¬ Pending surround before (name ++ (taken ++ rest))) :
    ¬ Pending surround (before ++ (name ++ taken)) rest := by
  rintro ⟨front, begun, more, later, hText, hBegun, rfl, hMore, hValue⟩
  have hOutside : ¬ begun <:+ taken := by
    rintro ⟨_, rfl⟩
    obtain ⟨blank, begun, rfl⟩ := List.exists_cons_of_ne_nil hBegun
    have hNot := hBlank blank (by simp)
    rw [hMore.head_isBlank] at hNot
    cases hNot
  rcases List.append_eq_append_iff.1 hText with ⟨part, rfl, hPart⟩ | ⟨part, rfl, rfl⟩
  · rcases List.append_eq_append_iff.1 hPart with ⟨inner, -, rfl⟩ | ⟨inner, -, rfl⟩
    · exact hOutside (List.suffix_append _ _)
    · -- the name begins within the one that was found
      have hInner : inner ≠ [] := fun hNil => hOutside (by rw [hNil, List.nil_append])
      rw [List.append_assoc] at hMore
      exact hLast (hMore.joined hInner hTaken hValue)
  · rw [List.append_assoc, List.append_assoc] at hMore
    by_cases hPart : part = []
    · -- the name begins where the one that was found does
      rw [hPart, List.nil_append] at hMore
      exact hLast (hMore.joined hName.ne_nil hTaken hValue)
    · exact h ⟨front, part, name ++ (taken ++ more), later, rfl, hPart, by simp, hMore, hValue⟩

/-- Behind a text in which no name is left over, the search for names follows the rule. -/
theorem unquoted_replace (h : ¬ Pending surround before cs) :
    Unquoted surround before cs (replace (reading (quotedAttribute? surround)) id cs) := by
  induction hLength : cs.length using Nat.strongRecOn generalizing before cs with
  | ind length ih =>
    subst hLength
    cases hRead : quotedAttribute? surround cs with
    | none =>
      cases cs with
      | nil => exact .done before
      | cons c cs =>
        rw [replace_cons_of_none hRead]
        exact .copied (fun hLoses => h hLoses.pending)
          (ih cs.length (Nat.lt_succ_self _) (not_pending_concat hRead h) rfl)
    | some read =>
      obtain ⟨text, rest⟩ := read
      rw [replace_of_read consumes_quotedAttribute? hRead]
      have hLess := consumes_quotedAttribute?.length_lt hRead
      obtain ⟨name, later, value, rfl, hName, hValue, rfl, hLast⟩ :=
        quotedAttribute?_eq_some_iff.1 hRead
      obtain ⟨taken, hTaken, rfl, hBlank⟩ := exists_of_assigned? hValue
      have hNone : assigned? (taken ++ rest) ≠ none := by simp [hValue]
      rw [id, List.append_assoc]
      refine .append ?_ (.dropped ⟨⟨before, name, rfl, hName⟩, hNone, hLast⟩ hValue ?_)
      · -- a value that the name runs along keeps its quotes
        rintro front c back rfl hLoses
        cases front with
        | nil =>
          have hHead : isBlank c = true := hName.head_isBlank
          refine hLoses.value (assigned?_cons_of_ne ?_ _)
          rintro rfl
          cases hHead
        | cons d front =>
          refine hLoses.last ?_
          rw [← List.append_nil (c :: back)] at hName
          exact hName.joined (List.cons_ne_nil _ _) (List.cons_ne_nil _ _) hNone
      · rw [List.append_assoc]
        exact ih rest.length hLess (not_pending_append hName hBlank hTaken hLast h) rfl

/-- **Quotes go exactly where the rule says.** -/
theorem unquoted_removeQuotes (surround : List String) (cs : List Char) :
    Unquoted (surround.flatMap String.toList) [] cs (removeQuotes surround cs) :=
  unquoted_replace not_pending_nil

end CompileHost.Markup
