import CompileHost.Proofs.Markup.Quotes

/-!
# The text outside tags

A tag goes from a `<` to the next `>`.  The steps that make attributes smaller search for them in
the whole of a text, so that they also find what looks like an attribute between tags.

* `outside`: the characters outside tags.
* `Trims`: a text from which something goes at the places where something is found.
* `Trims.outside_eq_iff`: as long as no bracket goes, the text outside tags is kept exactly if all
  these places lie in tags.
* `outside_minify_iff`: the three steps for attributes.
-/

namespace CompileHost.Markup

open Text

variable {cs run kept taken rest out before : List Char} {c : Char} {opened : Bool}
  {P : List Char → List Char → Prop}

/-! ## Tags -/

def isBracket (c : Char) : Bool :=
  c == '<' || c == '>'

def brackets (cs : List Char) : List Char :=
  cs.filter isBracket

/-- Whether a bracket stands open behind `c`, if one is `opened` before it. -/
def opensTag (opened : Bool) (c : Char) : Bool :=
  (opened || c == '<') && c != '>'

/-- The first character of a text is in a tag, if a bracket is `opened` before it.  This depends on
the text because a bracket that is never closed begins no tag. -/
def BeginsInTag (opened : Bool) (cs : List Char) : Prop :=
  (opened = true ∨ cs.head? = some '<') ∧ '>' ∈ cs

instance (opened : Bool) (cs : List Char) : Decidable (BeginsInTag opened cs) :=
  inferInstanceAs (Decidable (_ ∧ _))

/-- The characters outside tags behind a place. -/
def outsideFrom : Bool → List Char → List Char
  | _, [] => []
  | opened, c :: cs =>
    (if BeginsInTag opened (c :: cs) then [] else [c]) ++ outsideFrom (opensTag opened c) cs

/-- The characters outside tags. -/
def outside (cs : List Char) : List Char :=
  outsideFrom false cs

/-- The place between two parts of a text is in a tag. -/
def InTag (before after : List Char) : Prop :=
  BeginsInTag (before.foldl opensTag false) after

/-- The places with `P` are all in tags. -/
def StaysInTags (P : List Char → List Char → Prop) (cs : List Char) : Prop :=
  ∀ before after, cs = before ++ after → P before after → InTag before after

theorem opensTag_of_not_isBracket (hc : isBracket c = false) : opensTag opened c = opened := by
  simp only [isBracket, Bool.or_eq_false_iff] at hc
  simp [opensTag, hc.1, bne, hc.2]

theorem foldl_opensTag_of_not_isBracket (hRun : ∀ c ∈ run, isBracket c = false) :
    run.foldl opensTag opened = opened := by
  induction run with
  | nil => rfl
  | cons c run ih =>
    rw [List.forall_mem_cons] at hRun
    rw [List.foldl_cons, opensTag_of_not_isBracket hRun.1, ih hRun.2]

theorem mem_append_of_not_isBracket (hRun : ∀ c ∈ run, isBracket c = false) (cs : List Char) :
    '>' ∈ run ++ cs ↔ '>' ∈ cs := by
  rw [List.mem_append, or_iff_right]
  intro hMem
  cases hRun _ hMem

/-- A run without brackets is in a tag as a whole or not at all. -/
theorem beginsInTag_append_iff (hRun : ∀ c ∈ run, isBracket c = false) (hNonempty : run ≠ [])
    (cs : List Char) : BeginsInTag opened (run ++ cs) ↔ opened = true ∧ '>' ∈ cs := by
  obtain ⟨c, run, rfl⟩ := List.exists_cons_of_ne_nil hNonempty
  have hOther : c ≠ '<' := by
    rintro rfl
    cases hRun _ List.mem_cons_self
  rw [BeginsInTag, mem_append_of_not_isBracket hRun]
  simp [hOther]

theorem outsideFrom_append (hRun : ∀ c ∈ run, isBracket c = false) (cs : List Char) :
    outsideFrom opened (run ++ cs) =
      (if opened = true ∧ '>' ∈ cs then [] else run) ++ outsideFrom opened cs := by
  induction run with
  | nil => simp
  | cons c run ih =>
    have hInTag : BeginsInTag opened ((c :: run) ++ cs) ↔ opened = true ∧ '>' ∈ cs :=
      beginsInTag_append_iff hRun (List.cons_ne_nil c run) cs
    rw [List.forall_mem_cons] at hRun
    rw [List.cons_append] at hInTag ⊢
    rw [outsideFrom, opensTag_of_not_isBracket hRun.1, ih hRun.2]
    simp only [hInTag]
    split <;> rfl

theorem brackets_append (hRun : ∀ c ∈ run, isBracket c = false) (cs : List Char) :
    brackets (run ++ cs) = brackets cs := by
  rw [brackets, List.filter_append, List.filter_eq_nil_iff.2 (by simpa using hRun)]
  rfl

theorem brackets_cons_inj {other : List Char} :
    brackets (c :: cs) = brackets (c :: other) ↔ brackets cs = brackets other := by
  cases hc : isBracket c <;> simp [brackets, hc]

theorem mem_iff_of_brackets_eq {other : List Char} (h : brackets cs = brackets other) :
    '>' ∈ cs ↔ '>' ∈ other := by
  have hMem : ∀ text : List Char, '>' ∈ text ↔ '>' ∈ brackets text := fun text => by
    simp [brackets, isBracket]
  rw [hMem cs, h, ← hMem]

theorem beginsInTag_cons_iff_of_brackets_eq {other : List Char} (h : brackets cs = brackets other) :
    BeginsInTag opened (c :: cs) ↔ BeginsInTag opened (c :: other) := by
  simp [BeginsInTag, mem_iff_of_brackets_eq h]

/-! ## Places in tags -/

/-- The places with `P` behind the text `before` are all in tags. -/
def StaysBehind (P : List Char → List Char → Prop) (before cs : List Char) : Prop :=
  ∀ front back, cs = front ++ back → P (before ++ front) back → InTag (before ++ front) back

theorem StaysBehind.here (h : StaysBehind P before cs) (hHere : P before cs) : InTag before cs := by
  have hPlace := h [] cs rfl
  rw [List.append_nil] at hPlace
  exact hPlace hHere

theorem staysBehind_nil (hNone : ¬ P before []) : StaysBehind P before [] := by
  intro front back hText hHere
  obtain ⟨rfl, rfl⟩ := List.append_eq_nil_iff.1 hText.symm
  rw [List.append_nil] at hHere
  exact absurd hHere hNone

theorem staysBehind_cons_iff :
    StaysBehind P before (c :: cs) ↔
      (P before (c :: cs) → InTag before (c :: cs)) ∧ StaysBehind P (before ++ [c]) cs := by
  constructor
  · intro h
    refine ⟨h.here, fun front back hText => ?_⟩
    have hPlace := h (c :: front) back (congrArg (c :: ·) hText)
    rwa [List.append_cons] at hPlace
  · rintro ⟨hHere, hBehind⟩ front back hText
    rcases List.cons_eq_append_iff.1 hText with ⟨rfl, rfl⟩ | ⟨front, rfl, hBack⟩
    · rwa [List.append_nil]
    · rw [List.append_cons]
      exact hBehind front back hBack

/-- The places of a run in a tag are all in that tag. -/
theorem staysBehind_append_iff (hRun : ∀ c ∈ run, isBracket c = false)
    (hInTag : before.foldl opensTag false = true ∧ '>' ∈ cs) :
    StaysBehind P before (run ++ cs) ↔ StaysBehind P (before ++ run) cs := by
  induction run generalizing before with
  | nil => rw [List.nil_append, List.append_nil]
  | cons c run ih =>
    have hHere : InTag before ((c :: run) ++ cs) :=
      (beginsInTag_append_iff hRun (List.cons_ne_nil c run) cs).2 hInTag
    rw [List.forall_mem_cons] at hRun
    have hOpened : (before ++ [c]).foldl opensTag false = true := by
      rw [List.foldl_append, hInTag.1, List.foldl_cons, opensTag_of_not_isBracket hRun.1,
        List.foldl_nil]
    rw [List.cons_append] at hHere ⊢
    rw [staysBehind_cons_iff, and_iff_right fun _ => hHere, ih hRun.2 ⟨hOpened, hInTag.2⟩,
      ← List.append_cons]

/-! ## Texts from which something goes -/

/-- What is left of a text, behind the text `before`, if something goes exactly at the places with
`P`.  What is kept there holds no bracket. -/
inductive Trims (P : List Char → List Char → Prop) : List Char → List Char → List Char → Prop
  | done {before : List Char} (none : ¬ P before []) : Trims P before [] []
  | copied {before cs out : List Char} {c : Char} (none : ¬ P before (c :: cs))
      (behind : Trims P (before ++ [c]) cs out) : Trims P before (c :: cs) (c :: out)
  | trimmed {before taken kept rest out : List Char} (found : P before (taken ++ rest))
      (sublist : kept.Sublist taken) (shorter : kept.length < taken.length)
      (plain : ∀ c ∈ kept, isBracket c = false) (behind : Trims P (before ++ taken) rest out) :
      Trims P before (taken ++ rest) (kept ++ out)

theorem Trims.sublist (h : Trims P before cs out) : out.Sublist cs := by
  induction h with
  | done => exact .slnil
  | copied _ _ ih => exact ih.cons_cons _
  | trimmed _ sublist _ _ _ ih => exact sublist.append ih

/-- Where no bracket goes, none is among what is taken. -/
theorem not_isBracket_of_brackets_eq (hKept : ∀ c ∈ kept, isBracket c = false)
    (hSublist : out.Sublist rest) (hSame : brackets (kept ++ out) = brackets (taken ++ rest)) :
    (∀ c ∈ taken, isBracket c = false) ∧ brackets out = brackets rest := by
  rw [brackets_append hKept, brackets, brackets, List.filter_append] at hSame
  have hLess := (hSublist.filter isBracket).length_le
  have hLengths := congrArg List.length hSame
  rw [List.length_append] at hLengths
  have hNil : taken.filter isBracket = [] := List.length_eq_zero_iff.1 (by omega)
  rw [hNil, List.nil_append] at hSame
  exact ⟨by simpa using List.filter_eq_nil_iff.1 hNil, hSame⟩

theorem Trims.outsideFrom_sublist (h : Trims P before cs out) (hSame : brackets out = brackets cs)
    (opened : Bool) : (outsideFrom opened out).Sublist (outsideFrom opened cs) := by
  induction h generalizing opened with
  | done => exact .refl _
  | @copied before cs out c none behind ih =>
    have hBehind := brackets_cons_inj.1 hSame
    rw [outsideFrom, outsideFrom]
    simp only [beginsInTag_cons_iff_of_brackets_eq hBehind]
    exact (ih hBehind _).append_left _
  | trimmed found sublist shorter plain behind ih =>
    obtain ⟨hTaken, hRest⟩ := not_isBracket_of_brackets_eq plain behind.sublist hSame
    rw [outsideFrom_append plain, outsideFrom_append hTaken]
    simp only [mem_iff_of_brackets_eq hRest]
    refine .append ?_ (ih hRest _)
    split
    · exact .refl _
    · exact sublist

/-- **The text outside tags.**  As long as no bracket goes, it is kept exactly if all places at
which something goes are in tags. -/
theorem Trims.outsideFrom_eq_iff (h : Trims P before cs out) (hSame : brackets out = brackets cs) :
    outsideFrom (before.foldl opensTag false) out = outsideFrom (before.foldl opensTag false) cs ↔
      StaysBehind P before cs := by
  induction h with
  | done none => exact iff_of_true rfl (staysBehind_nil none)
  | @copied before cs out c none behind ih =>
    have hBehind := brackets_cons_inj.1 hSame
    have hStep := ih hBehind
    rw [List.foldl_append] at hStep
    rw [outsideFrom, outsideFrom, staysBehind_cons_iff, and_iff_right fun hFound => absurd hFound none]
    simp only [beginsInTag_cons_iff_of_brackets_eq hBehind, List.append_cancel_left_eq]
    exact hStep
  | @trimmed before taken kept rest out found sublist shorter plain behind ih =>
    obtain ⟨hTaken, hRest⟩ := not_isBracket_of_brackets_eq plain behind.sublist hSame
    have hStep := ih hRest
    rw [List.foldl_append, foldl_opensTag_of_not_isBracket hTaken] at hStep
    rw [outsideFrom_append plain, outsideFrom_append hTaken]
    simp only [mem_iff_of_brackets_eq hRest]
    by_cases hInTag : before.foldl opensTag false = true ∧ '>' ∈ rest
    · rw [if_pos hInTag, if_pos hInTag, List.nil_append, List.nil_append, hStep,
        staysBehind_append_iff hTaken hInTag]
    · rw [if_neg hInTag, if_neg hInTag]
      refine iff_of_false (fun hEqual => ?_) fun hPlaces => ?_
      · -- what goes is missing outside, and nothing takes its place
        have hLess := (behind.outsideFrom_sublist hRest (before.foldl opensTag false)).length_le
        have hLengths := congrArg List.length hEqual
        rw [List.length_append, List.length_append] at hLengths
        omega
      · have hNonempty : taken ≠ [] := List.length_pos_iff.1 (by omega)
        exact hInTag ((beginsInTag_append_iff hTaken hNonempty rest).1 (hPlaces.here found))

theorem Trims.outside_eq_iff (h : Trims P [] cs out) (hSame : brackets out = brackets cs) :
    outside out = outside cs ↔ StaysInTags P cs :=
  h.outsideFrom_eq_iff hSame

theorem eq_iff_of_sublist {α : Type} {first second third : List α} (hFirst : first.Sublist second)
    (hSecond : second.Sublist third) : first = third ↔ first = second ∧ second = third := by
  constructor
  · rintro rfl
    have hSame := hFirst.antisymm hSecond
    exact ⟨hSame, hSame.symm⟩
  · rintro ⟨rfl, rfl⟩
    rfl

/-! ## The steps for attributes -/

/-- What is written for something read is its beginning, and holds no bracket. -/
def KeepsStart {α : Type} (p : List Char → Option (α × List Char)) (f : α → List Char) : Prop :=
  ∀ cs x rest, p cs = some (x, rest) →
    (∀ c ∈ f x, isBracket c = false) ∧ ∃ dropped, dropped ≠ [] ∧ cs = f x ++ dropped ++ rest

theorem trims_replace {α : Type} {p : List Char → Option (α × List Char)} {f : α → List Char}
    (hp : KeepsStart p f) (before cs : List Char) :
    Trims (fun _ after => p after ≠ none) before cs (replace (reading p) f cs) := by
  have hConsumes : Consumes p := by
    intro cs x rest hRead
    obtain ⟨-, dropped, hDropped, rfl⟩ := hp cs x rest hRead
    exact ⟨f x ++ dropped, by simp [hDropped], rfl⟩
  refine replace_induction (motive := fun cs out => ∀ before, Trims _ before cs out) hConsumes
    (fun before => .done (by simp [hConsumes.eq_none])) ?_ ?_ cs before
  · intro c cs hNone ih before
    exact .copied (by simp [hNone]) (ih _)
  · intro cs x rest hRead ih before
    obtain ⟨hPlain, dropped, hDropped, rfl⟩ := hp cs x rest hRead
    have hPositive : 0 < dropped.length := List.length_pos_iff.2 hDropped
    have hFound : p (f x ++ dropped ++ rest) ≠ none := Option.ne_none_iff_exists'.2 ⟨_, hRead⟩
    refine .trimmed hFound (List.sublist_append_left _ _) ?_ hPlain (ih _)
    rw [List.length_append]
    omega

/-- A bracket is told from any other character by what holds of neither bracket. -/
theorem isBracket_of_other {p : Char → Bool} (hOpen : p '<' = false) (hClose : p '>' = false)
    (h : p c = true) : isBracket c = false := by
  rw [isBracket, Bool.or_eq_false_iff, beq_eq_false_iff_ne, beq_eq_false_iff_ne]
  constructor
  · rintro rfl
    rw [hOpen] at h
    cases h
  · rintro rfl
    rw [hClose] at h
    cases h

theorem eq_of_plainName? {blank : Char} {name : List Char}
    (h : plainName? cs = some (blank, name, rest)) :
    cs = blank :: (name ++ '=' :: rest) ∧ ∀ c ∈ blank :: name, isBracket c = false := by
  unfold plainName? at h
  split at h
  next first cs =>
    split at h
    next behind hBehind =>
      obtain ⟨hBlank, hTriple⟩ := Option.ite_none_right_eq_some.1 h
      simp only [Option.some.injEq, Prod.mk.injEq] at hTriple
      obtain ⟨rfl, rfl, rfl⟩ := hTriple
      refine ⟨by rw [← hBehind, List.takeWhile_append_dropWhile], ?_⟩
      rw [List.forall_mem_cons]
      exact ⟨isBracket_of_other rfl rfl hBlank, fun c hc =>
        isBracket_of_other rfl rfl (List.mem_takeWhile_imp hc)⟩
    · cases h
  · cases h

theorem keepsStart_emptyAttribute? : KeepsStart emptyAttribute? fun _ => [] := by
  intro cs u rest hRead
  obtain ⟨⟨blank, name, behind⟩, hName, hQuotes⟩ := Option.bind_eq_some_iff.1 hRead
  obtain ⟨rfl, -⟩ := eq_of_plainName? hName
  refine ⟨by simp, ?_⟩
  dsimp only at hQuotes
  split at hQuotes
  · cases hQuotes
  · split at hQuotes
    · cases hQuotes
      exact ⟨blank :: (name ++ ['=', '"', '"']), by simp, by simp⟩
    · cases hQuotes
      exact ⟨blank :: (name ++ ['=', '\'', '\'']), by simp, by simp⟩
    · cases hQuotes

theorem exists_of_quotedText? (h : quotedText? cs = some rest) :
    ∃ dropped, cs = dropped ++ rest := by
  unfold quotedText? at h
  split at h
  next q cs =>
    obtain ⟨-, hClosed⟩ := Option.ite_none_right_eq_some.1 h
    split at hClosed
    next last behind hBehind =>
      cases hClosed
      refine ⟨q :: (cs.takeWhile (· ≠ q) ++ [last]), ?_⟩
      rw [List.cons_append, List.append_assoc, List.singleton_append, ← hBehind,
        List.takeWhile_append_dropWhile]
    · cases hClosed
  · cases h

theorem keepsStart_booleanAttribute? : KeepsStart booleanAttribute? id := by
  intro cs kept rest hRead
  obtain ⟨⟨blank, name, behind⟩, hName, hValue⟩ := Option.bind_eq_some_iff.1 hRead
  obtain ⟨rfl, hPlain⟩ := eq_of_plainName? hName
  obtain ⟨-, hValue⟩ := Option.ite_none_right_eq_some.1 hValue
  obtain ⟨rest, hQuoted, hPair⟩ := Option.map_eq_some_iff.1 hValue
  obtain ⟨rfl, rfl⟩ := Prod.mk.inj hPair
  obtain ⟨dropped, rfl⟩ := exists_of_quotedText? hQuoted
  exact ⟨hPlain, '=' :: dropped, List.cons_ne_nil _ _, by simp⟩

/-- Where quotes go, the value stays, and it holds no bracket. -/
theorem Unquoted.trims {surround : List Char} (h : Unquoted surround before cs out) :
    Trims (LosesQuotes surround) before cs out := by
  induction h with
  | done before => exact .done fun hLoses => hLoses.value rfl
  | copied keeps _ ih => exact .copied keeps ih
  | @dropped before taken rest value out loses reads behind ih =>
    obtain ⟨q, hQuote, ⟨-, hPlain⟩, hText⟩ := assigned?_eq_some_iff.1 reads
    have hTaken : taken = '=' :: (q :: value ++ [q]) :=
      List.append_cancel_right (hText.trans (by simp))
    refine .trimmed loses ?_ ?_ ?_ ih
    · rw [hTaken]
      exact (List.sublist_append_of_sublist_left (List.sublist_cons_self q value)).cons_cons '='
    · simp [hTaken]
    · rw [List.forall_mem_cons]
      exact ⟨rfl, fun c hc => isBracket_of_other rfl rfl (hPlain c hc)⟩

/-! ## Minified texts -/

/-- The options by which nothing is done but to make attributes smaller. -/
def trimmingAttributes (surround : List String) : Options where
  removeComments := false
  useShortDoctype := false
  removeOptionalTags := false
  collapseWhitespace := false
  customAttrSurround := surround

/-- **Steps that stay in tags.**  As long as no bracket goes with the value of an attribute, making
attributes smaller keeps the text outside tags exactly if all that each of the three steps finds is
in tags. -/
theorem outside_minify_iff (surround : List String) (html : String)
    (hBrackets : brackets (minify (trimmingAttributes surround) html).toList =
      brackets html.toList) :
    outside (minify (trimmingAttributes surround) html).toList = outside html.toList ↔
      let filled := removeEmptyAttributes html.toList
      let collapsed := collapseBooleanAttributes filled
      StaysInTags (fun _ after => emptyAttribute? after ≠ none) html.toList ∧
        StaysInTags (fun _ after => booleanAttribute? after ≠ none) filled ∧
          StaysInTags (LosesQuotes (surround.flatMap String.toList)) collapsed := by
  have hText : (minify (trimmingAttributes surround) html).toList = removeQuotes surround
      (collapseBooleanAttributes (removeEmptyAttributes html.toList)) := by
    rw [minify, String.toList_ofList]
    rfl
  have hEmpty := trims_replace keepsStart_emptyAttribute? [] html.toList
  have hBoolean := trims_replace keepsStart_booleanAttribute? [] (removeEmptyAttributes html.toList)
  have hQuotes := (unquoted_removeQuotes surround
    (collapseBooleanAttributes (removeEmptyAttributes html.toList))).trims
  change Trims _ [] html.toList (removeEmptyAttributes html.toList) at hEmpty
  change Trims _ [] (removeEmptyAttributes html.toList)
    (collapseBooleanAttributes (removeEmptyAttributes html.toList)) at hBoolean
  rw [hText] at hBrackets ⊢
  dsimp only
  generalize removeEmptyAttributes html.toList = filled at *
  generalize collapseBooleanAttributes filled = collapsed at *
  generalize removeQuotes surround collapsed = out at *
  obtain ⟨hOut, hBelow⟩ := (eq_iff_of_sublist (hQuotes.sublist.filter isBracket)
    ((hBoolean.sublist.trans hEmpty.sublist).filter isBracket)).1 hBrackets
  obtain ⟨hCollapsed, hFilled⟩ := (eq_iff_of_sublist (hBoolean.sublist.filter isBracket)
    (hEmpty.sublist.filter isBracket)).1 hBelow
  have hFirst := hEmpty.outsideFrom_sublist hFilled false
  have hSecond := hBoolean.outsideFrom_sublist hCollapsed false
  have hThird := hQuotes.outsideFrom_sublist hOut false
  calc outside out = outside html.toList
      ↔ outside out = outside collapsed ∧ outside collapsed = outside filled ∧
          outside filled = outside html.toList := by
        rw [outside, outside, eq_iff_of_sublist hThird (hSecond.trans hFirst),
          eq_iff_of_sublist hSecond hFirst]
        rfl
    _ ↔ _ := by
        rw [hQuotes.outside_eq_iff hOut, hBoolean.outside_eq_iff hCollapsed,
          hEmpty.outside_eq_iff hFilled]
        exact ⟨fun ⟨h3, h2, h1⟩ => ⟨h1, h2, h3⟩, fun ⟨h1, h2, h3⟩ => ⟨h3, h2, h1⟩⟩

/-- Attributes in a tag, and what looks much like them behind it. -/
theorem outside_minify_iff_of_tag :
    let html := "<p class=\"\" hidden='x' id=\"a\">k=\"v\" <b>1 < 2</b> x = 'y' <"
    brackets (minify (trimmingAttributes ["@"]) html).toList = brackets html.toList ∧
      StaysInTags (LosesQuotes ['@'])
        (collapseBooleanAttributes (removeEmptyAttributes html.toList)) := by
  intro html
  have hBrackets : brackets (minify (trimmingAttributes ["@"]) html).toList =
      brackets html.toList := by
    decide +kernel
  have hOutside : outside (minify (trimmingAttributes ["@"]) html).toList = outside html.toList := by
    decide +kernel
  exact ⟨hBrackets, ((outside_minify_iff ["@"] html hBrackets).1 hOutside).2.2⟩

/-- A text about an attribute, outside all tags. -/
theorem code_sample_loses_attribute :
    let html := "<p>use class=\"\" here</p>"
    outside html.toList = "use class=\"\" here".toList ∧
      outside (minify (trimmingAttributes ["@", ":"]) html).toList = "use here".toList := by
  decide +kernel

end CompileHost.Markup
