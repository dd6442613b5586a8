import CompileHost.Preprocess.Block
import CompileHost.Proofs.Preprocess.Keywords

/-!
# The blocks of a text

The directives of a text nest its parts into blocks.  A `Blocks` is such a nesting.  What a piece
does where it stands, and whether a block is closed, is part of its type, so that the same pieces
never nest in two ways; and what is left of a text is defined by recursion over its blocks, without
a look at the blocks around.

* `Inside.role`: what a piece does directly inside of a block.
* `exists_blocks`, `pieces_append_inj`: pieces nest in some way, and in no other, for the first one
  determines the kind of the blocks (`exists_first`).
* `keptText_pieces`: the stack of open blocks keeps what the recursion keeps.
* `process_eq_text`: all of this together, for every text.
-/

namespace CompileHost

open Text

/-! ## Directives are cut out of the text -/

namespace Directive

theorem length_lt_of_keyword? {mark cs rest : List Char} {keyword : String}
    (h : keyword? mark cs = some (keyword, rest)) : rest.length < cs.length := by
  obtain ⟨behind, hMark, hKeyword⟩ := Option.bind_eq_some_iff.1 h
  have hLength := congrArg List.length (stripStart?_eq_some_iff.1 hMark)
  have hBlank := (behind.dropWhile_suffix isLineBlank).length_le
  split at hKeyword
  · rename_i text hAt
    cases hKeyword
    have hWord := (text.dropWhile_suffix isWord).length_le
    rw [hAt, List.length_cons] at hBlank
    rw [List.length_append] at hLength
    omega
  · cases hKeyword

theorem length_le_of_afterLine? {cs rest : List Char} (h : afterLine? cs = some rest) :
    rest.length ≤ cs.length := by
  rcases cases_of_afterLine? h with ⟨rfl, rfl⟩ | rfl | rfl
  · exact Nat.le_refl _
  · exact Nat.le_succ _
  · exact Nat.le_add_right _ 2

theorem length_lt_of_onLine? {cs rest : List Char} {d : Directive}
    (h : onLine? cs = some (d, rest)) : rest.length < cs.length := by
  obtain ⟨⟨keyword, text⟩, hKeyword, hLine⟩ := Option.bind_eq_some_iff.1 h
  obtain ⟨behind, hEnd, hDirective⟩ := Option.bind_eq_some_iff.1 hLine
  have hStart := (cs.dropWhile_suffix isLineBlank).length_le
  have hText := length_lt_of_keyword? hKeyword
  have hRest := (text.dropWhile_suffix (!endsLine ·)).length_le
  have hBehind := length_le_of_afterLine? hEnd
  split at hDirective
  · cases hDirective
  · obtain ⟨d', -, hEq⟩ := Option.map_eq_some_iff.1 hDirective
    cases hEq
    omega

theorem length_lt_of_inComment? {cs rest : List Char} {d : Directive}
    (h : inComment? cs = some (d, rest)) : rest.length < cs.length := by
  obtain ⟨⟨keyword, text⟩, hKeyword, hComment⟩ := Option.bind_eq_some_iff.1 h
  obtain ⟨behind, hEnd, hDirective⟩ := Option.bind_eq_some_iff.1 hComment
  obtain ⟨d', -, hEq⟩ := Option.map_eq_some_iff.1 hDirective
  have hText := length_lt_of_keyword? hKeyword
  have hRest := (text.dropWhile_suffix (· ≠ '*')).length_le
  have hBehind := congrArg List.length (stripStart?_eq_some_iff.1 hEnd)
  rw [List.length_append] at hBehind
  cases hEq
  omega

theorem length_lt_of_inMarkup? {cs rest : List Char} {d : Directive}
    (h : inMarkup? cs = some (d, rest)) : rest.length < cs.length := by
  obtain ⟨⟨keyword, text⟩, hKeyword, hComment⟩ := Option.bind_eq_some_iff.1 h
  obtain ⟨⟨argument, behind⟩, hEnd, hDirective⟩ := Option.bind_eq_some_iff.1 hComment
  have hText := length_lt_of_keyword? hKeyword
  have hBehind := congrArg List.length (eq_append_of_splitBefore? hEnd)
  rw [List.length_append] at hBehind
  dsimp only at hDirective
  split at hDirective
  · cases hDirective
  · obtain ⟨d', -, hEq⟩ := Option.map_eq_some_iff.1 hDirective
    cases hEq
    rw [List.length_drop]
    omega

theorem staysWithin_recogniser (kind : SourceKind) : StaysWithin (recogniser kind) := by
  cases kind with
  | markup => exact staysWithin_reading fun _ _ _ h => length_lt_of_inMarkup? h
  | script =>
    intro before cs d size h
    rcases Option.or_eq_some_iff.1 h with hLine | ⟨-, hComment⟩
    · split at hLine
      · exact staysWithin_reading (fun _ _ _ h => length_lt_of_onLine? h) before cs d size hLine
      · cases hLine
    · exact staysWithin_reading (fun _ _ _ h => length_lt_of_inComment? h) before cs d size hComment

end Directive

namespace Preprocess

/-! ## Pieces inside of blocks -/

/-- The innermost block that something stands in, if any. -/
inductive Inside where
  | text
  | conditional
  | excluded

inductive Opener where
  | conditional (condition : Condition)
  | excluded

/-- What the body of a block stands in. -/
def Opener.inside : Opener → Inside
  | conditional _ => .conditional
  | excluded => .excluded

/-- Whether the first part of a block is kept. -/
def Opener.keeps (defs : Definitions) : Opener → Bool
  | conditional condition => condition.holds defs
  | excluded => false

/-- A piece that neither opens nor closes a block. -/
inductive Item where
  | char (c : Char)
  | echo (name : String)
  | turn
  | stray

/-- What an item puts into the text where text is kept. -/
def Item.text (defs : Definitions) : Item → List Char
  | char c => [c]
  | echo name => ((defs[name]?).getD "").toList
  | turn => []
  | stray => []

/-- Whether the innermost block keeps its text behind an item. -/
def Item.keepsBehind : Item → Bool → Bool
  | turn, keeps => !keeps
  | _, keeps => keeps

inductive Role where
  | item (a : Item)
  | opens (o : Opener)
  | closes

/-- What a piece does.  An `@else` and the closing directives look at the innermost block, and
have no effect if that is not of their kind. -/
def Inside.role : Inside → Piece → Role
  | _, .inl c => .item (.char c)
  | _, .inr (.echo name) => .item (.echo name)
  | _, .inr (.opening condition) => .opens (.conditional condition)
  | _, .inr .exclude => .opens .excluded
  | conditional, .inr .otherwise => .item .turn
  | conditional, .inr .closing => .closes
  | excluded, .inr .endExclude => .closes
  | _, .inr _ => .item .stray

/-! ## Nested blocks -/

/-- What stands directly inside of a block, or of none, up to the directive that closes the block,
or else up to the end of the text. -/
inductive Blocks : Inside → Bool → Type where
  | finish {i : Inside} : Blocks i false
  | close {i : Inside} (p : Piece) (hRole : i.role p = .closes) : Blocks i true
  | item {i : Inside} {closed : Bool} (p : Piece) (a : Item) (hRole : i.role p = .item a)
      (rest : Blocks i closed) : Blocks i closed
  | block {i : Inside} {closed : Bool} (p : Piece) (o : Opener) (hRole : i.role p = .opens o)
      (body : Blocks o.inside true) (rest : Blocks i closed) : Blocks i closed
  | unclosed {i : Inside} (p : Piece) (o : Opener) (hRole : i.role p = .opens o)
      (body : Blocks o.inside false) : Blocks i false

namespace Blocks

/-- The pieces in the order of the text. -/
def pieces {i : Inside} {closed : Bool} : Blocks i closed → List Piece
  | finish => []
  | close p _ => [p]
  | item p _ _ rest => p :: rest.pieces
  | block p _ _ body rest => p :: (body.pieces ++ rest.pieces)
  | unclosed p _ _ body => p :: body.pieces

/-- What is left of the text if every block around keeps its own; `keeps` is what the innermost
block does at the beginning. -/
def text (defs : Definitions) {i : Inside} {closed : Bool} : Blocks i closed → Bool → List Char
  | finish, _ => []
  | close _ _, _ => []
  | item _ a _ rest, keeps =>
    (if keeps then a.text defs else []) ++ rest.text defs (a.keepsBehind keeps)
  | block _ o _ body rest, keeps =>
    (if keeps then body.text defs (o.keeps defs) else []) ++ rest.text defs keeps
  | unclosed _ o _ body, keeps => if keeps then body.text defs (o.keeps defs) else []

/-! ## Pieces nest in one way -/

variable {i : Inside} {closed closed' : Bool}

theorem exists_blocks (i : Inside) (pieces : List Piece) :
    (∃ b : Blocks i false, b.pieces = pieces) ∨
      ∃ (b : Blocks i true) (rest : List Piece), b.pieces ++ rest = pieces := by
  induction hLength : pieces.length using Nat.strongRecOn generalizing i pieces with
  | ind length ih =>
    subst hLength
    cases pieces with
    | nil => exact Or.inl ⟨finish, rfl⟩
    | cons p rest =>
      cases hRole : i.role p with
      | closes => exact Or.inr ⟨close p hRole, rest, rfl⟩
      | item a =>
        rcases ih rest.length (by simp) i rest rfl with ⟨b, rfl⟩ | ⟨b, tail, rfl⟩
        · exact Or.inl ⟨item p a hRole b, rfl⟩
        · exact Or.inr ⟨item p a hRole b, tail, rfl⟩
      | opens o =>
        -- the body comes first, and what is behind it is shorter still
        rcases ih rest.length (by simp) o.inside rest rfl with ⟨body, rfl⟩ | ⟨body, behind, rfl⟩
        · exact Or.inl ⟨unclosed p o hRole body, rfl⟩
        · have hLess : behind.length < (p :: (body.pieces ++ behind)).length := by
            rw [List.length_cons, List.length_append]
            omega
          rcases ih behind.length hLess i behind rfl with ⟨b, rfl⟩ | ⟨b, tail, rfl⟩
          · exact Or.inl ⟨block p o hRole body b, rfl⟩
          · refine Or.inr ⟨block p o hRole body b, tail, ?_⟩
            rw [Blocks.pieces, List.cons_append, List.append_assoc]

/-- A closing directive is there only if there is something to close. -/
theorem exists_closes {b : Blocks i closed} (hClosed : closed = true) :
    ∃ p, i.role p = .closes := by
  induction b with
  | finish => cases hClosed
  | unclosed => cases hClosed
  | close p hRole => exact ⟨p, hRole⟩
  | item p a hRole rest ih => exact ih hClosed
  | block p o hRole body rest ihBody ih => exact ih hClosed

section First

variable {b : Blocks i closed} {p : Piece} {tail pieces : List Piece}

theorem eq_finish (hPieces : b.pieces ++ tail = []) :
    (⟨closed, b⟩ : Σ closed, Blocks i closed) = ⟨false, finish⟩ ∧ tail = [] := by
  cases b with
  | finish => exact ⟨rfl, hPieces⟩
  | _ => cases hPieces

variable (hTail : closed = true ∨ tail = [])
include hTail

/-- Blocks whose first piece is `p`: the piece does one of four things, and they go on with it. -/
theorem exists_first (hPieces : b.pieces ++ tail = p :: pieces) :
    (∃ hRole : i.role p = .closes, (⟨closed, b⟩ : Σ closed, Blocks i closed) =
        ⟨true, close p hRole⟩ ∧ tail = pieces) ∨
      (∃ (a : Item) (hRole : i.role p = .item a) (rest : Blocks i closed),
        b = item p a hRole rest ∧ rest.pieces ++ tail = pieces) ∨
      (∃ (o : Opener) (hRole : i.role p = .opens o) (body : Blocks o.inside true)
        (rest : Blocks i closed),
        b = block p o hRole body rest ∧ body.pieces ++ (rest.pieces ++ tail) = pieces) ∨
      ∃ (o : Opener) (hRole : i.role p = .opens o) (body : Blocks o.inside false),
        (⟨closed, b⟩ : Σ closed, Blocks i closed) = ⟨false, unclosed p o hRole body⟩ ∧
          body.pieces ++ tail = pieces := by
  cases b with
  | finish => cases hPieces.symm.trans (hTail.resolve_left nofun)
  | close q hRole =>
    obtain ⟨rfl, hRest⟩ := List.cons.inj hPieces
    exact .inl ⟨hRole, rfl, hRest⟩
  | item q a hRole rest =>
    obtain ⟨rfl, hRest⟩ := List.cons.inj hPieces
    exact .inr (.inl ⟨a, hRole, rest, rfl, hRest⟩)
  | block q o hRole body rest =>
    obtain ⟨rfl, hRest⟩ := List.cons.inj hPieces
    rw [List.append_eq, List.append_assoc] at hRest
    exact .inr (.inr (.inl ⟨o, hRole, body, rest, rfl, hRest⟩))
  | unclosed q o hRole body =>
    obtain ⟨rfl, hRest⟩ := List.cons.inj hPieces
    exact .inr (.inr (.inr ⟨o, hRole, body, rfl, hRest⟩))

theorem eq_close (hRole : i.role p = .closes) (hPieces : b.pieces ++ tail = p :: pieces) :
    (⟨closed, b⟩ : Σ closed, Blocks i closed) = ⟨true, close p hRole⟩ ∧ tail = pieces := by
  obtain ⟨_, hSame⟩ | ⟨a, hOther, -⟩ | ⟨o, hOther, -⟩ | ⟨o, hOther, -⟩ :=
    exists_first hTail hPieces
  · exact hSame
  all_goals cases hRole.symm.trans hOther

theorem exists_item {a : Item} (hRole : i.role p = .item a)
    (hPieces : b.pieces ++ tail = p :: pieces) :
    ∃ rest : Blocks i closed, b = item p a hRole rest ∧ rest.pieces ++ tail = pieces := by
  obtain ⟨hOther, -⟩ | ⟨a', hOther, hSame⟩ | ⟨o, hOther, -⟩ | ⟨o, hOther, -⟩ :=
    exists_first hTail hPieces
  case inr.inl =>
    cases hRole.symm.trans hOther
    exact hSame
  all_goals cases hRole.symm.trans hOther

theorem exists_body {o : Opener} (hRole : i.role p = .opens o)
    (hPieces : b.pieces ++ tail = p :: pieces) :
    (∃ (body : Blocks o.inside true) (rest : Blocks i closed),
        b = block p o hRole body rest ∧ body.pieces ++ (rest.pieces ++ tail) = pieces) ∨
      ∃ body : Blocks o.inside false,
        (⟨closed, b⟩ : Σ closed, Blocks i closed) = ⟨false, unclosed p o hRole body⟩ ∧
          body.pieces ++ tail = pieces := by
  obtain ⟨hOther, -⟩ | ⟨a, hOther, -⟩ | ⟨o', hOther, hSame⟩ | ⟨o', hOther, hSame⟩ :=
    exists_first hTail hPieces
  case inr.inr.inl =>
    cases hRole.symm.trans hOther
    exact .inl hSame
  case inr.inr.inr =>
    cases hRole.symm.trans hOther
    exact .inr hSame
  all_goals cases hRole.symm.trans hOther

end First

/-- Pieces nest in one way only, whatever follows where a block is closed. -/
theorem pieces_append_inj {b : Blocks i closed} {b' : Blocks i closed'} {tail tail' : List Piece}
    (hTail : closed = true ∨ tail = []) (hTail' : closed' = true ∨ tail' = [])
    (hPieces : b.pieces ++ tail = b'.pieces ++ tail') :
    (⟨closed, b⟩ : Σ closed, Blocks i closed) = ⟨closed', b'⟩ ∧ tail = tail' := by
  induction b generalizing closed' tail tail' with
  | finish =>
    obtain rfl : tail = [] := hTail.resolve_left nofun
    obtain ⟨hSame, rfl⟩ := eq_finish hPieces.symm
    exact ⟨hSame.symm, rfl⟩
  | close p hRole =>
    obtain ⟨hSame, rfl⟩ := eq_close hTail' hRole hPieces.symm
    exact ⟨hSame.symm, rfl⟩
  | item p a hRole rest ih =>
    obtain ⟨rest', rfl, hRest⟩ := exists_item hTail' hRole hPieces.symm
    obtain ⟨hSame, rfl⟩ := ih hTail hTail' hRest.symm
    cases hSame
    exact ⟨rfl, rfl⟩
  | block p o hRole body rest ihBody ih =>
    rw [pieces, List.cons_append, List.append_assoc] at hPieces
    rcases exists_body hTail' hRole hPieces.symm with
      ⟨body', rest', rfl, hBehind⟩ | ⟨body', hSame, hBehind⟩
    · obtain ⟨hBody, hRest⟩ := ihBody (.inl rfl) (.inl rfl) hBehind.symm
      obtain ⟨hSame, rfl⟩ := ih hTail hTail' hRest
      cases hBody
      cases hSame
      exact ⟨rfl, rfl⟩
    · cases hSame
      obtain ⟨hBody, -⟩ := ihBody (.inl rfl) hTail' hBehind.symm
      cases hBody
  | unclosed p o hRole body ihBody =>
    rcases exists_body hTail' hRole hPieces.symm with
      ⟨body', rest', rfl, hBehind⟩ | ⟨body', hSame, hBehind⟩
    · obtain ⟨hBody, -⟩ := ihBody hTail (.inl rfl) hBehind.symm
      cases hBody
    · cases hSame
      obtain ⟨hBody, rfl⟩ := ihBody hTail hTail' hBehind.symm
      cases hBody
      exact ⟨rfl, rfl⟩

end Blocks

/-! ## The stack of open blocks -/

/-- The open blocks inside of `i`, which keeps its text or does not, with the blocks around it. -/
inductive OpenBlocks : Inside → Bool → List Block → List Block → Prop where
  | text : OpenBlocks .text true [] []
  | conditional (keeps : Bool) (outer : List Block) :
      OpenBlocks .conditional keeps (.conditional keeps :: outer) outer
  | excluded (outer : List Block) : OpenBlocks .excluded false (.excluded :: outer) outer

section Stack

variable (defs : Definitions) {i : Inside} {keeps : Bool} {blocks outer : List Block} {p : Piece}

theorem OpenBlocks.all (h : OpenBlocks i keeps blocks outer) :
    blocks.all Block.keeps = (outer.all Block.keeps && keeps) := by
  cases h with
  | text => rfl
  | conditional => exact Bool.and_comm ..
  | excluded => exact (Bool.and_false _).symm

/-- An item puts its text in, and at most turns the innermost block round. -/
theorem OpenBlocks.keptText_item (h : OpenBlocks i keeps blocks outer) {a : Item}
    (hRole : i.role p = .item a) (rest : List Piece) :
    ∃ blocks', OpenBlocks i (a.keepsBehind keeps) blocks' outer ∧
      keptText defs blocks (p :: rest) =
        (if blocks.all Block.keeps then a.text defs else []) ++ keptText defs blocks' rest := by
  cases p with
  | inl c =>
    cases hRole
    exact ⟨blocks, h, rfl⟩
  | inr d =>
    cases h with
    | text => cases d <;> cases hRole <;> exact ⟨[], .text, rfl⟩
    | excluded => cases d <;> cases hRole <;> exact ⟨_, .excluded outer, rfl⟩
    | conditional => cases d <;> cases hRole <;> exact ⟨_, .conditional _ outer, rfl⟩

theorem OpenBlocks.keptText_opens (h : OpenBlocks i keeps blocks outer) {o : Opener}
    (hRole : i.role p = .opens o) (rest : List Piece) :
    ∃ blocks', OpenBlocks o.inside (o.keeps defs) blocks' blocks ∧
      keptText defs blocks (p :: rest) = keptText defs blocks' rest := by
  cases p with
  | inl c => cases hRole
  | inr d =>
    have hNone : ∀ text : List Char,
        (if blocks.all Block.keeps then [] else []) ++ text = text := by
      intro text
      split <;> rfl
    cases h <;> cases d <;> cases hRole
    all_goals first
      | exact ⟨_, .conditional _ _, hNone _⟩
      | exact ⟨_, .excluded _, hNone _⟩

theorem OpenBlocks.keptText_closes (h : OpenBlocks i keeps blocks outer)
    (hRole : i.role p = .closes) (rest : List Piece) :
    keptText defs blocks (p :: rest) = keptText defs outer rest := by
  cases p with
  | inl c => cases hRole
  | inr d =>
    cases h <;> cases d <;> cases hRole
    all_goals simp [keptText, pieceText, stepBlocks]

/-- The stack keeps of some blocks what they keep by themselves, unless a block around keeps
nothing, and is back at the blocks around when the innermost block is closed. -/
theorem keptText_pieces {closed : Bool} (b : Blocks i closed)
    (h : OpenBlocks i keeps blocks outer) {tail : List Piece} (hTail : closed = true ∨ tail = []) :
    keptText defs blocks (b.pieces ++ tail) =
      (if outer.all Block.keeps then b.text defs keeps else []) ++ keptText defs outer tail := by
  induction b generalizing keeps blocks outer tail with
  | finish =>
    obtain rfl : tail = [] := hTail.resolve_left nofun
    simp [Blocks.pieces, Blocks.text, keptText]
  | close p hRole =>
    rw [Blocks.pieces, List.singleton_append, h.keptText_closes defs hRole]
    simp [Blocks.text]
  | item p a hRole rest ih =>
    obtain ⟨blocks', hNext, hText⟩ := h.keptText_item defs hRole (rest.pieces ++ tail)
    rw [Blocks.pieces, List.cons_append, hText, ih hNext hTail, h.all, Blocks.text]
    cases outer.all Block.keeps <;> simp
  | block p o hRole body rest ihBody ih =>
    obtain ⟨blocks', hNext, hText⟩ :=
      h.keptText_opens defs hRole (body.pieces ++ (rest.pieces ++ tail))
    rw [Blocks.pieces, List.cons_append, List.append_assoc, hText, ihBody hNext (Or.inl rfl),
      ih h hTail, h.all, Blocks.text]
    cases outer.all Block.keeps <;> simp
  | unclosed p o hRole body ihBody =>
    obtain rfl : tail = [] := hTail.resolve_left nofun
    obtain ⟨blocks', hNext, hText⟩ := h.keptText_opens defs hRole (body.pieces ++ [])
    rw [Blocks.pieces, List.cons_append, hText, ihBody hNext (Or.inr rfl), h.all, Blocks.text]
    cases outer.all Block.keeps <;> simp [keptText]

end Stack

/-! ## Whole texts -/

/-- **What is left of a text.**  Cut at its directives, from the left and without overlap, a text
nests into blocks in exactly one way, and what is left of it is what the recursion over these
blocks leaves. -/
theorem process_eq_text (defs : Definitions) (kind : SourceKind) (text : String) :
    ∃ blocks : Blocks .text false,
      (∀ other : Blocks .text false,
        Cuts (Directive.recogniser kind) none text.toList other.pieces ↔ other = blocks) ∧
      process defs kind text = String.ofList (blocks.text defs true) := by
  have hCuts : ∀ other : Blocks .text false,
      Cuts (Directive.recogniser kind) none text.toList other.pieces ↔
        other.pieces = cut (Directive.recogniser kind) text.toList :=
    fun _ => cuts_iff (Directive.staysWithin_recogniser kind)
  rcases Blocks.exists_blocks .text (cut (Directive.recogniser kind) text.toList) with
    ⟨blocks, hBlocks⟩ | ⟨blocks, -⟩
  · refine ⟨blocks, fun other => ?_, ?_⟩
    · rw [hCuts, ← hBlocks]
      constructor
      · intro hPieces
        have hSame := congrArg (· ++ ([] : List Piece)) hPieces
        obtain ⟨hEq, -⟩ := Blocks.pieces_append_inj (Or.inr rfl) (Or.inr rfl) hSame
        cases hEq
        rfl
      · rintro rfl
        rfl
    · have hKept := keptText_pieces defs blocks .text (Or.inr rfl)
      rw [List.append_nil] at hKept
      rw [process, ← hBlocks, hKept]
      simp [keptText]
  · obtain ⟨p, hRole⟩ := Blocks.exists_closes (b := blocks) rfl
    cases p with
    | inl c => cases hRole
    | inr d => cases d <;> cases hRole

/-- An excluded part, and a condition, inside of a condition. -/
def nestedBlocks : Blocks .text false :=
  .block (.inr (.opening (.isDefined "V"))) (.conditional (.isDefined "V")) rfl
    (.item (.inl 'a') (.char 'a') rfl <|
     .block (.inr (.opening (.isText "V" "1"))) (.conditional (.isText "V" "1")) rfl
      (.item (.inl 'b') (.char 'b') rfl <|
       .item (.inr .otherwise) .turn rfl <|
       .item (.inl 'c') (.char 'c') rfl <|
       .close (.inr .closing) rfl) <|
     .block (.inr .exclude) .excluded rfl
      (.item (.inr .otherwise) .stray rfl <|
       .item (.inl 'd') (.char 'd') rfl <|
       .close (.inr .endExclude) rfl) <|
     .item (.inr (.echo "V")) (.echo "V") rfl <|
     .item (.inr .otherwise) .turn rfl <|
     .item (.inl 'e') (.char 'e') rfl <|
     .close (.inr .closing) rfl) <|
  .item (.inl 'f') (.char 'f') rfl
  .finish

def nestedText : String :=
  "// @ifdef V\na/* @if V = '1'*/b/* @else */c/* @endif */" ++
    "/* @exclude *//* @else */d/* @endexclude *//* @echo V*//* @else */e/* @endif */f"

/-- The text is cut at its comments, into what their keywords stand for. -/
theorem cuts_nestedText :
    Cuts (Directive.recogniser .script) none nestedText.toList nestedBlocks.pieces := by
  let plain (keyword : Keyword) : Written := .close keyword [] rfl rfl
  let named (keyword : Keyword) : Written := .close keyword ['V'] rfl rfl
  let asked : Written := .close .ifHolds "V = '1'".toList rfl rfl
  have hParts : nestedText.toList =
      (named .ifDefined).onLine [] ['\n'] ++ 'a' :: (asked.inComment ++
        'b' :: ((plain .otherwise).inComment ++ 'c' :: ((plain .endIf).inComment ++
        ((plain .exclude).inComment ++ ((plain .otherwise).inComment ++
        'd' :: ((plain .endExclude).inComment ++ ((named .echo).inComment ++
        ((plain .otherwise).inComment ++ 'e' :: ((plain .endIf).inComment ++
        ['f']))))))))) := by
    decide +kernel
  have hLine : ∀ c ∈ ['V'], Directive.endsLine c = false := List.forall_mem_singleton.2 rfl
  have hPlain : ∀ keyword, '*' ∉ (plain keyword).argument := fun _ => List.not_mem_nil
  have hNamed : '*' ∉ (named .echo).argument := mt List.mem_singleton.1 (by decide)
  rw [hParts]
  refine Directive.cuts_line rfl (List.forall_mem_nil _) (by decide) hLine rfl ?_
  exact .plain (by decide +kernel) <|
    Directive.cuts_comment (w := asked) (by decide) <| .plain rfl <|
    Directive.cuts_comment (hPlain _) <| .plain rfl <| Directive.cuts_comment (hPlain _) <|
    Directive.cuts_comment (hPlain _) <| Directive.cuts_comment (hPlain _) <| .plain rfl <|
    Directive.cuts_comment (hPlain _) <| Directive.cuts_comment hNamed <|
    Directive.cuts_comment (hPlain _) <| .plain rfl <| Directive.cuts_comment (hPlain _) <|
    .plain rfl .done

/-- What is left of the text if the name stands for the value that is asked for, and if it stands
for nothing. -/
theorem process_eq_text_nested :
    Cuts (Directive.recogniser .script) none nestedText.toList nestedBlocks.pieces ∧
      process (.ofList [("V", "1")]) .script nestedText = "ab1f" ∧
        process ∅ .script nestedText = "ef" := by
  have hText : ∀ defs : Definitions,
      process defs .script nestedText = String.ofList (nestedBlocks.text defs true) := by
    intro defs
    obtain ⟨blocks, hUnique, hProcess⟩ := process_eq_text defs .script nestedText
    rw [(hUnique nestedBlocks).1 cuts_nestedText, hProcess]
  refine ⟨cuts_nestedText, (hText _).trans ?_, (hText _).trans ?_⟩ <;> decide +kernel

/-- Inside of an excluded part neither `@else` nor `@endif` has an effect. -/
example : process ∅ .script
    "a/* @ifdef X */b/* @exclude */c/* @else */d/* @endif */e/* @endexclude */f/* @else */g" =
      "ag" := by
  decide +kernel

end Preprocess

end CompileHost
