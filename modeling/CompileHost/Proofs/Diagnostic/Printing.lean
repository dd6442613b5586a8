import CompileHost.Diagnostic.Format
import CompileHost.Proofs.Text.Replacing
import Mathlib.Data.List.TakeWhile

/-!
# The printers of diagnostics

A diagnostic has a text of its own, and a list of diagnostics is printed by a loop that writes the
same places and words once more, with or without colours.  What the loop prints is made of pieces,
and of these only the words for the severities depend on the style.

Colours are taken out of a text by striking out every escape sequence of a colour.  An escape
sequence that is printed stands between texts that no such sequence reaches into, whatever the
files and messages hold, so that the two styles are the same without colours.

* `format_eq_pieces`: what is printed, piece by piece.
* `bare_line`: a printed line without colours.
* `printers_agree`: the text of one diagnostic, of many, and the two styles.
-/

namespace CompileHost

open Text

/-! ## Pieces -/

/-- A piece of what is printed: a text that is the same in every style, or a severity. -/
inductive PrintedPiece where
  | fixed (text : String)
  | severity (severity : Severity)

/-- A piece as a text, with a word for each severity. -/
def PrintedPiece.text (word : Severity → String) : PrintedPiece → String
  | fixed text => text
  | severity s => word s

/-- Pieces as one text. -/
def PrintedPiece.join (word : Severity → String) (pieces : List PrintedPiece) : String :=
  String.join (pieces.map (text word))

theorem PrintedPiece.join_append (word : Severity → String) (front back : List PrintedPiece) :
    join word (front ++ back) = join word front ++ join word back := by
  rw [join, join, join, List.map_append, String.join_append]

/-- The line of a diagnostic. -/
def Diagnostic.pieces (d : Diagnostic) : List PrintedPiece :=
  [.fixed d.location, .severity d.severity, .fixed (": " ++ d.message ++ "\n")]

theorem Diagnostic.join_pieces (word : Severity → String) (d : Diagnostic) :
    PrintedPiece.join word d.pieces =
      d.location ++ (word d.severity ++ (": " ++ d.message ++ "\n")) := by
  simp [PrintedPiece.join, Diagnostic.pieces, PrintedPiece.text]

theorem Diagnostic.printAfter_eq (style : DiagnosticStyle) (printed : String) (d : Diagnostic) :
    printAfter style printed d =
      printed ++ PrintedPiece.join (Severity.label style) d.pieces := by
  obtain ⟨severity, file, line, message⟩ := d
  rw [join_pieces, printAfter, location]
  cases file with
  | none => simp [String.append_assoc]
  | some file => cases line <;> simp [String.append_assoc]

namespace Diagnostics

/-- The lines of diagnostics. -/
def linePieces (ds : Diagnostics) : List PrintedPiece :=
  ds.flatMap Diagnostic.pieces

theorem linePieces_cons (d : Diagnostic) (ds : Diagnostics) :
    linePieces (d :: ds) = d.pieces ++ linePieces ds := rfl

/-- The lines of diagnostics, and a line that counts them if it is asked for. -/
def pieces (summary : Bool) (ds : Diagnostics) : List PrintedPiece :=
  ds.linePieces ++
    if summary && !ds.isEmpty then [.fixed (ds.summary.text ++ "\n")] else []

theorem foldl_printAfter (style : DiagnosticStyle) (printed : String) (ds : Diagnostics) :
    ds.foldl (Diagnostic.printAfter style) printed =
      printed ++ PrintedPiece.join (Severity.label style) ds.linePieces := by
  induction ds generalizing printed with
  | nil => exact String.append_empty.symm
  | cons d ds ih =>
    rw [List.foldl_cons, ih, Diagnostic.printAfter_eq, linePieces_cons,
      PrintedPiece.join_append, String.append_assoc]

theorem format_eq_pieces (style : DiagnosticStyle) (ds : Diagnostics) :
    ds.format style = PrintedPiece.join (Severity.label style) (ds.pieces style.summary) := by
  rw [format, pieces, foldl_printAfter, String.empty_append, PrintedPiece.join_append]
  split
  · simp [PrintedPiece.join, PrintedPiece.text, String.append_assoc]
  · exact String.append_empty.symm

/-- Without colours, the lines are the texts of the diagnostics. -/
theorem join_name_linePieces (ds : Diagnostics) :
    PrintedPiece.join Severity.name ds.linePieces =
      String.join (ds.map fun d => d.text ++ "\n") := by
  induction ds with
  | nil => rfl
  | cons d ds ih =>
    rw [linePieces_cons, PrintedPiece.join_append, ih, Diagnostic.join_pieces, List.map_cons,
      String.join_cons, Diagnostic.text]
    simp only [String.append_assoc]

end Diagnostics

/-! ## Colours -/

/-- Reads the escape sequence of a colour: its beginning, the digits of a number, and an `m`. -/
def colour? (cs : List Char) : Option (Unit × List Char) :=
  (stripStart? ['\x1b', '['] cs).bind fun behind => word? ['m'] (behind.dropWhile Char.isDigit)

/-- The text of an escape sequence. -/
def colourText (digits : List Char) : List Char :=
  ['\x1b', '['] ++ digits ++ ['m']

theorem colour?_eq_some_iff {cs rest : List Char} {u : Unit} :
    colour? cs = some (u, rest) ↔
      ∃ digits, (∀ c ∈ digits, c.isDigit = true) ∧ cs = colourText digits ++ rest := by
  rw [colour?, Option.bind_eq_some_iff]
  simp only [stripStart?_eq_some_iff, word?_eq_some_iff]
  constructor
  · rintro ⟨behind, rfl, hEnd⟩
    refine ⟨behind.takeWhile Char.isDigit, fun c => List.mem_takeWhile_imp, ?_⟩
    have hBehind := List.takeWhile_append_dropWhile (p := Char.isDigit) (l := behind)
    rw [hEnd] at hBehind
    rw [colourText, List.append_assoc, List.append_assoc, hBehind]
  · rintro ⟨digits, hDigits, rfl⟩
    refine ⟨digits ++ 'm' :: rest, by simp [colourText], ?_⟩
    rw [List.dropWhile_append_of_pos hDigits, List.dropWhile_cons_of_neg (by decide)]
    rfl

theorem consumes_colour? : Consumes colour? := by
  intro cs u rest hRead
  obtain ⟨digits, -, hText⟩ := colour?_eq_some_iff.1 hRead
  exact ⟨colourText digits, by simp [colourText], hText⟩

/-- A character that stands in no escape sequence of a colour. -/
def EndsColours (c : Char) : Prop :=
  c ∉ ['\x1b', '[', 'm'] ∧ c.isDigit = false

instance (c : Char) : Decidable (EndsColours c) :=
  inferInstanceAs (Decidable (_ ∧ _))

theorem EndsColours.not_mem_colourText {c : Char} (hc : EndsColours c) {digits : List Char}
    (hDigits : ∀ c ∈ digits, c.isDigit = true) : c ∉ colourText digits := by
  have hNone : c ∉ digits := fun hMem => Bool.false_ne_true (hc.2.symm.trans (hDigits c hMem))
  have hMarks := hc.1
  simp only [List.mem_cons, List.not_mem_nil, or_false, not_or] at hMarks
  simp [colourText, hNone, hMarks]

theorem stopsAt_colour? {c : Char} (hc : EndsColours c) : StopsAt (reading colour?) c := by
  intro before cs rest
  cases hRead : colour? cs with
  | some read =>
    obtain ⟨u, behind⟩ := read
    obtain ⟨digits, hDigits, rfl⟩ := colour?_eq_some_iff.1 hRead
    have hLater : colour? (colourText digits ++ behind ++ c :: rest) =
        some (u, behind ++ c :: rest) :=
      colour?_eq_some_iff.2 ⟨digits, hDigits, List.append_assoc _ _ _⟩
    rw [reading_of_read hRead, reading_of_read hLater]
    simp only [List.length_append]
    congr 2
    omega
  | none =>
    have hLater : colour? (cs ++ c :: rest) = none := by
      rw [Option.eq_none_iff_forall_ne_some] at hRead ⊢
      rintro ⟨u, behind⟩ hSome
      obtain ⟨digits, hDigits, hText⟩ := colour?_eq_some_iff.1 hSome
      have hPrefix : colourText digits <+: cs ++ c :: rest := ⟨behind, hText.symm⟩
      rw [prefix_append_cons_iff (hc.not_mem_colourText hDigits)] at hPrefix
      obtain ⟨later, hCs⟩ := hPrefix
      exact hRead ((), later) (colour?_eq_some_iff.2 ⟨digits, hDigits, hCs.symm⟩)
    rw [reading, reading, hRead, hLater]
    rfl

/-- The characters of a text without the escape sequences of colours. -/
def bare (cs : List Char) : List Char :=
  replace (reading colour?) (fun _ => []) cs

theorem bare_append_cons {c : Char} (hc : EndsColours c) (cs rest : List Char) :
    bare (cs ++ c :: rest) = bare cs ++ c :: bare rest :=
  replace_append_cons (staysWithin_reading fun _ _ _ hRead => consumes_colour?.length_lt hRead)
    (blind_reading colour?) (stopsAt_colour? hc) _ cs rest

theorem bare_label (style : DiagnosticStyle) (s : Severity) :
    bare (s.label style).toList = s.name.toList := by
  rw [Severity.label]
  split <;> cases s <;> decide +kernel

/-- A location is empty, or ends in a space. -/
theorem bare_location_append (d : Diagnostic) (rest : List Char) :
    bare (d.location.toList ++ rest) = bare d.location.toList ++ bare rest := by
  have hEnds : d.location = "" ∨ ∃ front, d.location.toList = front ++ [' '] := by
    rw [Diagnostic.location]
    split
    · rename_i file line _ _
      exact Or.inr ⟨(file ++ ":" ++ toString line ++ ":").toList, by simp⟩
    · rename_i file _ _
      exact Or.inr ⟨(file ++ ":").toList, by simp⟩
    · exact Or.inl rfl
  rcases hEnds with hEmpty | ⟨front, hFront⟩
  · rw [hEmpty]
    rfl
  · have hSpace : EndsColours ' ' := by decide
    rw [hFront, List.append_assoc, List.singleton_append, bare_append_cons hSpace,
      bare_append_cons hSpace, List.append_assoc]
    rfl

/-- A line without colours, and what follows it. -/
theorem bare_line (style : DiagnosticStyle) (d : Diagnostic) (rest : List Char) :
    bare ((PrintedPiece.join (Severity.label style) d.pieces).toList ++ rest) =
      bare d.location.toList ++ (d.severity.name.toList ++
        ':' :: ' ' :: (bare d.message.toList ++ '\n' :: bare rest)) := by
  have hText : (PrintedPiece.join (Severity.label style) d.pieces).toList ++ rest =
      d.location.toList ++ ((d.severity.label style).toList ++
        ':' :: ([] ++ ' ' :: (d.message.toList ++ '\n' :: rest))) := by
    rw [Diagnostic.join_pieces]
    simp
  rw [hText, bare_location_append, bare_append_cons (by decide), bare_append_cons (by decide),
    bare_append_cons (by decide), bare_label]
  rfl

namespace Diagnostics

theorem bare_lines_congr (style other : DiagnosticStyle) (ds : Diagnostics) (rest : List Char) :
    bare ((PrintedPiece.join (Severity.label style) ds.linePieces).toList ++ rest) =
      bare ((PrintedPiece.join (Severity.label other) ds.linePieces).toList ++ rest) := by
  induction ds with
  | nil => rfl
  | cons d ds ih =>
    rw [linePieces_cons, PrintedPiece.join_append, PrintedPiece.join_append,
      String.toList_append, String.toList_append, List.append_assoc, List.append_assoc,
      bare_line, bare_line, ih]

/-- A text without the escape sequences of colours. -/
def uncoloured (text : String) : String :=
  String.ofList (bare text.toList)

theorem uncoloured_format_congr (style other : DiagnosticStyle)
    (hSummary : style.summary = other.summary) (ds : Diagnostics) :
    uncoloured (ds.format style) = uncoloured (ds.format other) := by
  have hCount (word : Severity → String) (text : String) :
      PrintedPiece.join word [.fixed text] = text := by
    simp [PrintedPiece.join, PrintedPiece.text]
  rw [uncoloured, uncoloured, format_eq_pieces, format_eq_pieces, hSummary, pieces,
    PrintedPiece.join_append, PrintedPiece.join_append, String.toList_append,
    String.toList_append]
  split
  · rw [hCount, hCount, bare_lines_congr style other]
  · exact congrArg String.ofList (bare_lines_congr style other ds [])

/-- **The printers agree.**  Without colours and without a count, the lines are the texts of the
diagnostics, one to a line; the text of all of them is that and, unless there are none, the count.
In the two styles the same pieces are printed, with the names of the severities in one, and with
the names in their colours in the other.  When all colours are struck out of both, those that
files and messages bring along as well as the others, the same text is left. -/
theorem printers_agree (ds : Diagnostics) :
    ds.format { coloured := false, summary := false } =
        String.join (ds.map fun d => d.text ++ "\n") ∧
      ds.text = ds.format { coloured := false, summary := false } ++
        (if ds = [] then "" else ds.summary.text ++ "\n") ∧
      ∀ summary,
        ds.format { coloured := false, summary } =
            PrintedPiece.join Severity.name (ds.pieces summary) ∧
          ds.format { coloured := true, summary } =
            PrintedPiece.join (fun s => inColour s.colour s.name) (ds.pieces summary) ∧
          uncoloured (ds.format { coloured := true, summary }) =
            uncoloured (ds.format { coloured := false, summary }) := by
  have hPlain (summary : Bool) : ds.format { coloured := false, summary } =
      PrintedPiece.join Severity.name (ds.pieces summary) :=
    format_eq_pieces _ ds
  have hLines : ds.format { coloured := false, summary := false } =
      PrintedPiece.join Severity.name ds.linePieces := by
    rw [hPlain, pieces, PrintedPiece.join_append]
    exact String.append_empty
  refine ⟨hLines.trans (join_name_linePieces ds), ?_, fun summary => ⟨hPlain summary, ?_, ?_⟩⟩
  · rw [hLines, text, DiagnosticStyle.plain, hPlain, pieces, PrintedPiece.join_append]
    cases ds with
    | nil => rfl
    | cons d ds => simp [PrintedPiece.join, PrintedPiece.text]
  · exact format_eq_pieces _ ds
  · exact uncoloured_format_congr { summary } { coloured := false, summary } rfl ds

end Diagnostics

end CompileHost
