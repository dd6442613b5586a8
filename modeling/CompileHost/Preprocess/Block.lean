import CompileHost.Preprocess.Directive

/-!
# Blocks of directives

A condition opens a block that keeps its text or drops it, and every `@else` turns that round; an
excluded block keeps nothing.  Text is kept where all blocks around it keep theirs.  A closing
directive that does not fit the innermost block has no effect, and a block that is not closed goes
on to the end of the text.
-/

namespace CompileHost

inductive Block where
  | conditional (keeps : Bool)
  | excluded
  deriving DecidableEq

def Block.keeps : Block → Bool
  | conditional keeps => keeps
  | excluded => false

/-- What stands in a text: characters and directives. -/
abbrev Piece := Char ⊕ Directive

namespace Preprocess

/-- The open blocks, the innermost first, behind a directive. -/
def stepBlocks (defs : Definitions) (blocks : List Block) : Directive → List Block
  | .opening condition => .conditional (condition.holds defs) :: blocks
  | .otherwise =>
    match blocks with
    | .conditional keeps :: outer => .conditional (!keeps) :: outer
    | _ => blocks
  | .closing =>
    match blocks with
    | .conditional _ :: outer => outer
    | _ => blocks
  | .exclude => .excluded :: blocks
  | .endExclude =>
    match blocks with
    | .excluded :: outer => outer
    | _ => blocks
  | .echo _ => blocks

/-- What a piece puts into the text where text is kept. -/
def pieceText (defs : Definitions) : Piece → List Char
  | .inl c => [c]
  | .inr (.echo name) => ((defs[name]?).getD "").toList
  | .inr _ => []

/-- The text that is left of some pieces inside of some blocks. -/
def keptText (defs : Definitions) : List Block → List Piece → List Char
  | _, [] => []
  | blocks, piece :: rest =>
    let text := if blocks.all Block.keeps then pieceText defs piece else []
    match piece with
    | .inl _ => text ++ keptText defs blocks rest
    | .inr d => text ++ keptText defs (stepBlocks defs blocks d) rest

/-- A text with all its directives carried out. -/
def process (defs : Definitions) (kind : SourceKind) (text : String) : String :=
  String.ofList (keptText defs [] (Text.cut (Directive.recogniser kind) text.toList))

end Preprocess

end CompileHost
