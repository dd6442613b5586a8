import CompileHost.Proofs.HotReload.Bootstrap
import CompileHost.Proofs.Text.Places

/-!
# Where the bootstrap goes

A module that has been emitted may end in a line that refers to its source map.  Code is put in
front of the first mark of such a reference that the module holds.  That is where its last line
begins, unless the mark stands in a line before it, in a string or in a comment; the code then goes
to the middle of that line.

* `splice_before_last_line_iff`: when code goes to the front of the last line.
* `HotReloader.IsRendered.inject_before_last_line_iff`: when a bootstrap does.
-/

namespace CompileHost

namespace HotReload

open Text

variable {body tail : String}

/-! ## The last line of a module -/

/-- A text that another line may follow. -/
def EndsLine (cs : List Char) : Prop :=
  ∀ c ∈ cs.getLast?, c = '\n'

instance (cs : List Char) : Decidable (EndsLine cs) :=
  Option.decidableForallMem cs.getLast?

/-- Where code goes in a module that ends in a reference to a source map. -/
theorem splice_append (hBody : EndsLine body.toList) (hTail : sourceMapMark <+: tail.toList)
    (snippet : String) :
    (splice (body ++ tail) snippet).toList =
      match splitBefore? sourceMapMark body.toList with
      | some (before, rest) => before ++ (snippet.toList ++ rest) ++ tail.toList
      | none => body.toList ++ snippet.toList ++ tail.toList := by
  have hLast : ∀ c ∈ body.toList.getLast?, c ∉ sourceMapMark := by
    intro c hc
    rw [hBody c hc]
    decide
  unfold splice
  rw [String.toList_append, splitBefore?_append hLast hTail]
  cases splitBefore? sourceMapMark body.toList with
  | none => simp only [String.toList_append, String.toList_ofList]
  | some found =>
    simp only [String.toList_append, String.toList_ofList, List.append_assoc]

/-- **The last line.**  Code goes in front of the last line, which refers to the source map, exactly
if it commutes with what stands from the first mark on in the lines before: if there is no mark, for
one, or no code. -/
theorem splice_before_last_line_iff (hBody : EndsLine body.toList)
    (hTail : sourceMapMark <+: tail.toList) (snippet : String) :
    splice (body ++ tail) snippet = body ++ snippet ++ tail ↔
      ∀ before rest, body.toList = before ++ rest → IsFirst sourceMapMark before rest →
        snippet.toList ++ rest = rest ++ snippet.toList := by
  rw [← String.toList_inj, splice_append hBody hTail, String.toList_append, String.toList_append]
  cases hCut : splitBefore? sourceMapMark body.toList with
  | none =>
    refine iff_of_true rfl fun before rest hText hFirst => ?_
    rw [hText, hFirst.splitBefore?_eq] at hCut
    cases hCut
  | some found =>
    obtain ⟨before, rest⟩ := found
    obtain ⟨hText, hFirst⟩ := splitBefore?_eq_some_iff.1 hCut
    have hSame : before ++ (snippet.toList ++ rest) ++ tail.toList =
        body.toList ++ snippet.toList ++ tail.toList ↔
          snippet.toList ++ rest = rest ++ snippet.toList := by
      rw [hText, List.append_cancel_right_eq, List.append_assoc, List.append_cancel_left_eq]
    rw [hSame]
    constructor
    · intro hCommutes front behind hText' hFirst'
      rw [hText', hFirst'.splitBefore?_eq] at hCut
      obtain ⟨rfl, rfl⟩ := Prod.mk.inj (Option.some.inj hCut)
      exact hCommutes
    · exact fun hAll => hAll before rest hText hFirst

/-- A line that holds the beginning of a mark. -/
theorem splice_before_last_line_comment :
    let body := "//# source\n"
    let tail := "//# sourceMappingURL=a.js.map\n"
    EndsLine body.toList ∧ sourceMapMark <+: tail.toList ∧
      splice (body ++ tail) "f();\n" = body ++ "f();\n" ++ tail := by
  intro body tail
  have hBody : EndsLine body.toList := by decide
  have hTail : sourceMapMark <+: tail.toList := by decide
  refine ⟨hBody, hTail, (splice_before_last_line_iff hBody hTail "f();\n").2 ?_⟩
  intro before rest hText hFirst
  have hNone : ¬ sourceMapMark <:+: body.toList := by decide
  exact absurd (hText ▸ hFirst.found.isInfix.trans (List.suffix_append before rest).isInfix) hNone

/-- Code in the middle of a string. -/
theorem splice_into_string :
    let body := "a = '//# sourceMappingURL';\n"
    let tail := "//# sourceMappingURL=a.js.map\n"
    EndsLine body.toList ∧ sourceMapMark <+: tail.toList ∧
      splice (body ++ tail) "f();\n" ≠ body ++ "f();\n" ++ tail := by
  decide

end HotReload

namespace HotReloader

open HotReload Text

/-- A bootstrap goes in front of the last line unless the mark stands in a line before that. -/
theorem IsRendered.inject_before_last_line_iff {reloader : HotReloader} (hr : reloader.IsRendered)
    {body tail : String} (hBody : EndsLine body.toList) (hTail : sourceMapMark <+: tail.toList)
    (id : String) :
    reloader.inject (body ++ tail) id = body ++ reloader.snippet id ++ tail ↔
      ¬ sourceMapMark <:+: body.toList := by
  rw [inject, ← String.toList_inj, splice_append hBody hTail, String.toList_append,
    String.toList_append, ← splitBefore?_eq_none_iff]
  cases hCut : splitBefore? sourceMapMark body.toList with
  | none => exact iff_of_true rfl rfl
  | some found =>
    obtain ⟨before, rest⟩ := found
    obtain ⟨hText, hFirst⟩ := splitBefore?_eq_some_iff.1 hCut
    refine iff_of_false (fun hSame => ?_) (Option.some_ne_none _)
    rw [hText, List.append_cancel_right_eq, List.append_assoc, List.append_cancel_left_eq] at hSame
    -- the bootstrap does not begin as a mark does
    obtain ⟨behindGuard, hSnippet⟩ := hr.guard_prefix_snippet id
    obtain ⟨behindMark, rfl⟩ := hFirst.found
    rw [← hSnippet] at hSame
    cases hSame

end HotReloader

end CompileHost
