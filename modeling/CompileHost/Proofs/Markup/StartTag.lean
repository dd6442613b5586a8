import CompileHost.Proofs.Markup.Quotes

/-!
# Start tags and how they are read

A start tag has a name, attributes with their values in quotes, and at its end a slash if it closes
itself.  It is read a character at a time, and a reader must understand values without quotes, too:
such a value goes on to the next white space or to the `>`.

* `StartTag.text`: a tag as it is written.
* `readTag?`: what a reader of tags gets from a text.
* `Reader.Settled`: the states between two attributes, with `Settled.read_attribute`,
  `Settled.read_bareAttribute` and `Settled.answer?_ending`, by which a reader gets through a tag.
* `readTag?_text`: a tag is read as it was meant.
-/

namespace CompileHost.Markup

open Text

variable {tag name value run : List Char} {attributes : List (List Char × List Char)} {c q : Char}

/-! ## Tags as they are written -/

def isNameChar (c : Char) : Bool :=
  !(isBlank c || isQuote c || c == '=' || c == '>' || c == '/')

/-- A name with a value between quotes, and the white space before and within it. -/
structure Attribute where
  /-- The white space that sets the attribute off. -/
  margin : List Char
  name : List Char
  /-- The white space before `=`. -/
  spaceBefore : List Char
  /-- The white space behind `=`. -/
  spaceBehind : List Char
  quote : Char
  value : List Char
  margin_ne_nil : margin ≠ []
  isBlank_of_mem : ∀ c ∈ margin ++ spaceBefore ++ spaceBehind, isBlank c = true
  name_ne_nil : name ≠ []
  isNameChar_of_mem : ∀ c ∈ name, isNameChar c = true
  isQuote_quote : isQuote quote = true
  quote_notMem : quote ∉ value

namespace Attribute

/-- The text up to `=`. -/
def opening (a : Attribute) : List Char :=
  a.margin ++ a.name ++ a.spaceBefore

def text (a : Attribute) : List Char :=
  a.opening ++ '=' :: (a.spaceBehind ++ a.quote :: (a.value ++ [a.quote]))

def reading (a : Attribute) : List Char × List Char :=
  (a.name, a.value)

end Attribute

/-- A tag that opens an element. -/
structure StartTag where
  name : List Char
  attributes : List Attribute
  /-- The white space behind the attributes. -/
  margin : List Char
  selfClosing : Bool
  isNameChar_of_mem : ∀ c ∈ name, isNameChar c = true
  isBlank_of_mem : ∀ c ∈ margin, isBlank c = true

/-- What a tag says. -/
structure TagReading where
  name : List Char
  attributes : List (List Char × List Char)
  selfClosing : Bool
  deriving DecidableEq

namespace StartTag

/-- The text behind the attributes. -/
def ending (t : StartTag) : List Char :=
  t.margin ++ if t.selfClosing then ['/', '>'] else ['>']

theorem margin_eq_nil_of_ending {t : StartTag} (h : t.ending = ['/', '>']) : t.margin = [] := by
  cases hMargin : t.margin with
  | nil => rfl
  | cons c margin =>
    have hBlank := t.isBlank_of_mem c (by simp [hMargin])
    rw [ending, hMargin, List.cons_append] at h
    rw [(List.cons.inj h).1] at hBlank
    cases hBlank

def text (t : StartTag) : String :=
  String.ofList ('<' :: t.name ++ (t.attributes.flatMap Attribute.text ++ t.ending))

def reading (t : StartTag) : TagReading :=
  ⟨t.name, t.attributes.map Attribute.reading, t.selfClosing⟩

end StartTag

/-! ## Reading -/

/-- Where in a tag a reader is, with what it has read of the present attribute. -/
inductive Mode where
  | outside
  | tagName
  /-- Before an attribute or the end; a slash may just have been read. -/
  | gap (slash : Bool)
  | name (name : List Char)
  /-- Behind a name and white space. -/
  | named (name : List Char)
  /-- Behind `=`. -/
  | assigned (name : List Char)
  | quoted (name : List Char) (quote : Char) (value : List Char)
  | plain (name value : List Char)
  | closed (slash : Bool)
  | failed
  deriving DecidableEq

/-- What a reader has read of a tag: its name, its attributes, and where it is. -/
structure Reader where
  tag : List Char := []
  attributes : List (List Char × List Char) := []
  mode : Mode := .outside

namespace Reader

/-- A complete attribute, behind which the reader is in `mode`. -/
def add (r : Reader) (name value : List Char) (mode : Mode) : Reader :=
  { r with attributes := r.attributes ++ [(name, value)], mode }

def step (r : Reader) (c : Char) : Reader :=
  match r.mode with
  | .outside => { r with mode := if c = '<' then .tagName else .failed }
  | .tagName =>
    if isBlank c then { r with mode := .gap false }
    else if c = '/' then { r with mode := .gap true }
    else if c = '>' then { r with mode := .closed false }
    else { r with tag := r.tag ++ [c] }
  | .gap slash =>
    if isBlank c then { r with mode := .gap false }
    else if c = '/' then { r with mode := .gap true }
    else if c = '>' then { r with mode := .closed slash }
    else { r with mode := .name [c] }
  | .name name =>
    if isBlank c then { r with mode := .named name }
    else if c = '=' then { r with mode := .assigned name }
    else if c = '/' then r.add name [] (.gap true)
    else if c = '>' then r.add name [] (.closed false)
    else { r with mode := .name (name ++ [c]) }
  | .named name =>
    if isBlank c then r
    else if c = '=' then { r with mode := .assigned name }
    else if c = '/' then r.add name [] (.gap true)
    else if c = '>' then r.add name [] (.closed false)
    else r.add name [] (.name [c])
  | .assigned name =>
    if isBlank c then r
    else if isQuote c then { r with mode := .quoted name c [] }
    else if c = '>' then r.add name [] (.closed false)
    else { r with mode := .plain name [c] }
  | .quoted name quote value =>
    if c = quote then r.add name value (.gap false)
    else { r with mode := .quoted name quote (value ++ [c]) }
  | .plain name value =>
    if isBlank c then r.add name value (.gap false)
    else if c = '>' then r.add name value (.closed false)
    else { r with mode := .plain name (value ++ [c]) }
  | .closed _ => { r with mode := .failed }
  | .failed => r

def read (r : Reader) (cs : List Char) : Reader :=
  cs.foldl step r

/-- What was read, if that is a tag and nothing else. -/
def answer? (r : Reader) : Option TagReading :=
  match r.mode with
  | .closed slash => some ⟨r.tag, r.attributes, slash⟩
  | _ => none

end Reader

/-- Reads a tag. -/
def readTag? (cs : List Char) : Option TagReading :=
  (Reader.read {} cs).answer?

/-! ## Getting through a tag -/

theorem not_of_isNameChar (h : isNameChar c = true) :
    isBlank c = false ∧ isQuote c = false ∧ c ≠ '=' ∧ c ≠ '>' ∧ c ≠ '/' := by
  simpa [isNameChar, and_assoc] using h

namespace Reader

variable {r : Reader}

theorem read_append (r : Reader) (front back : List Char) :
    r.read (front ++ back) = (r.read front).read back :=
  List.foldl_append

theorem read_cons (r : Reader) (c : Char) (cs : List Char) : r.read (c :: cs) = (r.step c).read cs :=
  rfl

theorem read_nil (r : Reader) : r.read [] = r :=
  rfl

/-- The states of a reader between two attributes. -/
inductive Settled : Reader → List Char → List (List Char × List Char) → Prop
  | tagName (tag : List Char) : Settled ⟨tag, [], .tagName⟩ tag []
  | gap (tag : List Char) (attributes : List (List Char × List Char)) :
      Settled ⟨tag, attributes, .gap false⟩ tag attributes
  | plain (tag : List Char) (attributes : List (List Char × List Char)) (name value : List Char) :
      Settled ⟨tag, attributes, .plain name value⟩ tag (attributes ++ [(name, value)])

/-- The reader is in a value without quotes, which may go on. -/
def inPlain (r : Reader) : Bool :=
  match r.mode with
  | .plain _ _ => true
  | _ => false

/-- Characters that do not change the state of a reader. -/
theorem read_of_step_eq (hStep : ∀ c ∈ run, r.step c = r) : r.read run = r := by
  induction run with
  | nil => rfl
  | cons c run ih =>
    rw [List.forall_mem_cons] at hStep
    rw [read_cons, hStep.1, ih hStep.2]

/-- Characters that a reader collects in its state. -/
theorem read_collect (state : List Char → Reader)
    (hStep : ∀ begun, ∀ c ∈ run, (state begun).step c = state (begun ++ [c])) (begun : List Char) :
    (state begun).read run = state (begun ++ run) := by
  induction run generalizing begun with
  | nil => rw [List.append_nil, read_nil]
  | cons c run ih =>
    have hRest : ∀ begun, ∀ d ∈ run, (state begun).step d = state (begun ++ [d]) :=
      fun begun d hd => hStep begun d (List.mem_cons_of_mem c hd)
    rw [read_cons, hStep begun c List.mem_cons_self, ih hRest, List.append_assoc,
      List.singleton_append]

theorem read_tagName (hName : ∀ c ∈ name, isNameChar c = true) :
    read ⟨[], attributes, .tagName⟩ name = ⟨name, attributes, .tagName⟩ := by
  refine read_collect (fun begun => ⟨begun, attributes, .tagName⟩) (fun begun c hc => ?_) []
  obtain ⟨hBlank, -, -, hClose, hSlash⟩ := not_of_isNameChar (hName c hc)
  simp [step, hBlank, hClose, hSlash]

theorem Settled.step_blank (h : Settled r tag attributes) (hc : isBlank c = true) :
    r.step c = ⟨tag, attributes, .gap false⟩ := by
  cases h <;> simp [step, add, hc]

theorem Settled.read_margin (h : Settled r tag attributes) (hRun : ∀ c ∈ run, isBlank c = true)
    (hNonempty : run ≠ []) : r.read run = ⟨tag, attributes, .gap false⟩ := by
  obtain ⟨c, run, rfl⟩ := List.exists_cons_of_ne_nil hNonempty
  rw [List.forall_mem_cons] at hRun
  rw [read_cons, h.step_blank hRun.1]
  exact read_of_step_eq fun d hd => (Settled.gap tag attributes).step_blank (hRun.2 d hd)

theorem read_name (hName : ∀ c ∈ name, isNameChar c = true) (hNonempty : name ≠ []) :
    read ⟨tag, attributes, .gap false⟩ name = ⟨tag, attributes, .name name⟩ := by
  obtain ⟨c, name, rfl⟩ := List.exists_cons_of_ne_nil hNonempty
  rw [List.forall_mem_cons] at hName
  obtain ⟨hBlank, -, -, hClose, hSlash⟩ := not_of_isNameChar hName.1
  have hBegin : step ⟨tag, attributes, .gap false⟩ c = ⟨tag, attributes, .name [c]⟩ := by
    simp [step, hBlank, hClose, hSlash]
  rw [read_cons, hBegin]
  refine read_collect (fun begun => ⟨tag, attributes, .name begun⟩) (fun begun d hd => ?_) [c]
  obtain ⟨hBlank, -, hEquals, hClose, hSlash⟩ := not_of_isNameChar (hName.2 d hd)
  simp [step, hBlank, hEquals, hClose, hSlash]

/-- White space may stand between a name and `=`. -/
theorem read_equals (hRun : ∀ c ∈ run, isBlank c = true) :
    read ⟨tag, attributes, .name name⟩ (run ++ ['=']) = ⟨tag, attributes, .assigned name⟩ := by
  have hEquals : isBlank '=' = false := rfl
  cases run with
  | nil => simp [read, step, hEquals]
  | cons c run =>
    rw [List.forall_mem_cons] at hRun
    have hSpace : step ⟨tag, attributes, .name name⟩ c = ⟨tag, attributes, .named name⟩ := by
      simp [step, hRun.1]
    have hMore : read ⟨tag, attributes, .named name⟩ run = ⟨tag, attributes, .named name⟩ :=
      read_of_step_eq fun d hd => by simp [step, hRun.2 d hd]
    rw [List.cons_append, read_cons, hSpace, read_append, hMore]
    simp [read, step, hEquals]

theorem Settled.read_opening (h : Settled r tag attributes) (a : Attribute) :
    r.read (a.opening ++ ['=']) = ⟨tag, attributes, .assigned a.name⟩ := by
  have hBlank := a.isBlank_of_mem
  rw [List.forall_mem_append, List.forall_mem_append] at hBlank
  rw [Attribute.opening, List.append_assoc, List.append_assoc, read_append, read_append,
    h.read_margin hBlank.1.1 a.margin_ne_nil, read_name a.isNameChar_of_mem a.name_ne_nil,
    read_equals hBlank.1.2]

theorem read_quoted (hRun : q ∉ run) :
    read ⟨tag, attributes, .quoted name q []⟩ run = ⟨tag, attributes, .quoted name q run⟩ := by
  refine read_collect (fun begun => ⟨tag, attributes, .quoted name q begun⟩)
    (fun begun c hc => ?_) []
  have hOther : c ≠ q := fun hSame => hRun (hSame ▸ hc)
  simp [step, hOther]

theorem read_plain (hValue : IsPlainValue value) :
    read ⟨tag, attributes, .assigned name⟩ value = ⟨tag, attributes, .plain name value⟩ := by
  obtain ⟨hNonempty, hPlain⟩ := hValue
  obtain ⟨c, value, rfl⟩ := List.exists_cons_of_ne_nil hNonempty
  rw [List.forall_mem_cons] at hPlain
  obtain ⟨hBlank, hQuote, -, hClose⟩ := not_of_isPlainValueChar hPlain.1
  have hBegin : step ⟨tag, attributes, .assigned name⟩ c = ⟨tag, attributes, .plain name [c]⟩ := by
    simp [step, hBlank, hQuote, hClose]
  rw [read_cons, hBegin]
  refine read_collect (fun begun => ⟨tag, attributes, .plain name begun⟩) (fun begun d hd => ?_) [c]
  obtain ⟨hBlank, -, -, hClose⟩ := not_of_isPlainValueChar (hPlain.2 d hd)
  simp [step, hBlank, hClose]

/-- An attribute with any value between its quotes. -/
theorem Settled.read_attribute (h : Settled r tag attributes) (a : Attribute)
    (hValue : a.quote ∉ value) :
    r.read (a.opening ++ '=' :: (a.spaceBehind ++ a.quote :: (value ++ [a.quote]))) =
      ⟨tag, attributes ++ [(a.name, value)], .gap false⟩ := by
  have hBlank := a.isBlank_of_mem
  rw [List.forall_mem_append] at hBlank
  have hQuote := isBlank_of_isQuote a.isQuote_quote
  have hSpace : read ⟨tag, attributes, .assigned a.name⟩ a.spaceBehind =
      ⟨tag, attributes, .assigned a.name⟩ :=
    read_of_step_eq fun c hc => by simp [step, hBlank.2 c hc]
  have hOpen : step ⟨tag, attributes, .assigned a.name⟩ a.quote =
      ⟨tag, attributes, .quoted a.name a.quote []⟩ := by
    simp [step, hQuote, a.isQuote_quote]
  have hClose : read ⟨tag, attributes, .quoted a.name a.quote value⟩ [a.quote] =
      ⟨tag, attributes ++ [(a.name, value)], .gap false⟩ := by
    simp [read, step, add]
  rw [List.append_cons, read_append, h.read_opening, read_append, hSpace, read_cons, hOpen,
    read_append, read_quoted hValue, hClose]

/-- An attribute with a value without quotes. -/
theorem Settled.read_bareAttribute (h : Settled r tag attributes) (a : Attribute)
    (hValue : IsPlainValue value) :
    r.read (a.opening ++ '=' :: value) = ⟨tag, attributes, .plain a.name value⟩ := by
  rw [List.append_cons, read_append, h.read_opening, read_plain hValue]

/-- At the end of a tag everything is read as it was meant, except for a slash directly behind a
value without quotes. -/
theorem Settled.answer?_ending (h : Settled r tag attributes) (t : StartTag)
    {expected : List (List Char × List Char)} :
    (r.read t.ending).answer? = some ⟨tag, expected, t.selfClosing⟩ ↔
      attributes = expected ∧ (t.ending = ['/', '>'] → r.inPlain = false) := by
  have hSlash : isBlank '/' = false := rfl
  have hClose : isBlank '>' = false := rfl
  by_cases hMargin : t.margin = []
  · rw [StartTag.ending, hMargin, List.nil_append]
    cases t.selfClosing with
    | false => cases h <;> simp [read, step, add, answer?, hClose]
    | true => cases h <;> simp [read, step, add, answer?, inPlain, hClose, hSlash]
  · have hOther : t.ending ≠ ['/', '>'] := fun hEnding =>
      hMargin (StartTag.margin_eq_nil_of_ending hEnding)
    rw [and_iff_left fun hEnding => absurd hEnding hOther, StartTag.ending, read_append,
      h.read_margin t.isBlank_of_mem hMargin]
    cases t.selfClosing with
    | false => simp [read, step, answer?, hClose]
    | true => simp [read, step, answer?, hClose, hSlash]

theorem Settled.read_attributes (h : r.Settled tag attributes) (hOpen : r.inPlain = false)
    (more : List Attribute) :
    (r.read (more.flatMap Attribute.text)).Settled tag (attributes ++ more.map Attribute.reading) ∧
      (r.read (more.flatMap Attribute.text)).inPlain = false := by
  induction more generalizing r attributes with
  | nil => exact ⟨by simpa [read] using h, hOpen⟩
  | cons a more ih =>
    have hRead := h.read_attribute a a.quote_notMem
    rw [List.flatMap_cons, Attribute.text, read_append, hRead, List.map_cons,
      List.append_cons attributes a.reading]
    exact ih (.gap tag (attributes ++ [a.reading])) rfl

end Reader

/-- A tag is read as it was meant. -/
theorem readTag?_text (t : StartTag) : readTag? t.text.toList = some t.reading := by
  have hStart : Reader.read {} ('<' :: t.name) = ⟨t.name, [], .tagName⟩ :=
    Reader.read_tagName t.isNameChar_of_mem
  obtain ⟨hSettled, hOpen⟩ :=
    (Reader.Settled.tagName t.name).read_attributes rfl t.attributes
  rw [readTag?, StartTag.text, String.toList_ofList, Reader.read_append, hStart, Reader.read_append,
    StartTag.reading, hSettled.answer?_ending]
  exact ⟨rfl, fun _ => hOpen⟩

end CompileHost.Markup
