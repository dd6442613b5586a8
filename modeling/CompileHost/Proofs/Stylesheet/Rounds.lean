import CompileHost.Proofs.Stylesheet.Comments

/-!
# A second round over a stylesheet

What has been made small stays as it is, unless a comment has come about where comments, tabs and
line breaks went: the characters on the two sides of them may open or close one.  A second round
then takes that comment for one of the author and drops it.

* `minify_minify_iff`: when a second round changes nothing, and what one round leaves.
* `comment_put_together`: a comment that one round leaves.
-/

namespace CompileHost.Stylesheet

open Text

theorem toList_minify (css : String) :
    (minify css).toList = tighten (dropComments css.toList) :=
  String.toList_ofList

/-- A small stylesheet is left alone exactly if it holds no comment. -/
theorem tighten_dropComments_eq_self_iff {cs : List Char} (hTight : Tight cs)
    (hBreaks : ∀ c ∈ cs, isBreak c = false) :
    tighten (dropComments cs) = cs ↔ ¬ HoldsComment cs := by
  constructor
  · intro hSame hComment
    have hLength := (tightens_tighten (dropComments cs)).sublist.length_le
    rw [hSame] at hLength
    have hDropped : dropComments cs = cs :=
      replace_eq_self_of_length_le consumes_dropped? shortens_dropped? cs hLength
    exact (dropComments_eq_self_iff.1 hDropped).1 hComment
  · intro hNone
    rw [dropComments_eq_self_iff.2 ⟨hNone, hBreaks⟩, hTight.tighten_eq]

/-- **A second round.**  It changes nothing exactly if no comment is put together when comments,
tabs and line breaks are struck out.  One round leaves no tab, no line break and no space that a
step would drop, and it leaves a comment only in that case. -/
theorem minify_minify_iff (css : String) :
    (minify (minify css) = minify css ↔ ¬ HoldsComment (dropComments css.toList)) ∧
      (HoldsComment (minify css).toList ↔ HoldsComment (dropComments css.toList)) ∧
        Tight (minify css).toList ∧ ∀ c ∈ (minify css).toList, isBreak c = false := by
  have hTightens := tightens_tighten (dropComments css.toList)
  have hTight := tight_tighten (dropComments css.toList)
  have hBreaks : ∀ c ∈ tighten (dropComments css.toList), isBreak c = false := fun c hc =>
    isBreak_of_mem_dropComments (hTightens.sublist.subset hc)
  rw [← String.toList_inj, toList_minify, toList_minify,
    tighten_dropComments_eq_self_iff hTight hBreaks, hTightens.holdsComment_iff]
  exact ⟨Iff.rfl, Iff.rfl, hTight, hBreaks⟩

/-- A comment goes from the middle of what then is another one. -/
theorem comment_put_together :
    let css := "//**/* x */"
    minify css = "/* x */" ∧ minify (minify css) = "" := by
  decide +kernel

/-- Steps that bring marks together. -/
example : minify "a  \x7b\t\x7b b :  c ! \x7d  " = "a \x7b\x7b b:c!\x7d" := by
  decide +kernel

end CompileHost.Stylesheet
