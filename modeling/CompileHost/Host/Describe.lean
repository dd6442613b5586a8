import CompileHost.Host.Basic
import CompileHost.Text.Quoted

/-!
# Hosts in one line

One-line descriptions of a host and of its processor.
-/

namespace CompileHost

/-- Named parts of something, and whether there are more that are not shown. -/
def describeParts (name : String) (parts : List (String × String)) (more : Bool) : String :=
  let shown := parts.map (fun (field, text) => field ++ ": " ++ text) ++ if more then [".."] else []
  name ++ " \x7b " ++ ", ".intercalate shown ++ " \x7d"

def CanonicalPath.describe (p : CanonicalPath) : String :=
  "CanonicalPath(" ++ Text.quoted p.text ++ ")"

def Layout.describe (l : Layout) : String :=
  describeParts "DirectoryRoots"
    [("source_root", l.sourceRoot.describe),
     ("output_root", l.outputRoot.describe),
     ("current_dir", l.currentDirectory.describe)] false

def Markup.Options.describe (o : Markup.Options) : String :=
  describeParts "HtmlMinifyOptions"
    [("remove_comments", toString o.removeComments),
     ("use_short_doctype", toString o.useShortDoctype),
     ("remove_optional_tags", toString o.removeOptionalTags),
     ("collapse_whitespace", toString o.collapseWhitespace),
     ("remove_empty_attributes", toString o.removeEmptyAttributes),
     ("remove_attribute_quotes", toString o.removeAttributeQuotes),
     ("collapse_boolean_attributes", toString o.collapseBooleanAttributes),
     ("custom_attr_surround",
      "[" ++ ", ".intercalate (o.customAttrSurround.map Text.quoted) ++ "]")] false

def ArtifactProcessor.describe (a : ArtifactProcessor) : String :=
  describeParts "ArtifactPostProcessor"
    [("html_options", a.markupOptions.describe),
     ("minify_css", toString a.minifiesStylesheets),
     ("hmr", toString a.hotReload.isSome),
     ("tracked", toString a.tracker.size)] true

def Host.describe {P N : Type} (h : Host P N) : String :=
  describeParts "Host"
    [("roots", h.layout.describe),
     ("two_phase", toString h.twoPhase),
     ("cache", h.cache.summary),
     ("outputs", toString h.store.size),
     ("failed", toString h.failed)] true

end CompileHost
