import CompileHost.Settings.Value
import CompileHost.Text.Quoted

/-!
# Reading settings

A decoder reads a value of a type from a settings value, or tells why it cannot.  Records are read
from objects, whose unknown fields are passed over, and from lists, which give the fields in their
order; a field that is not given keeps its default.  Of several faults the first one counts.
-/

namespace CompileHost

inductive DecodeError where
  /-- A value of another kind was expected. -/
  | wrongKind (found : Value) (expected : String)
  /-- An object stands for a choice, and has not exactly one field. -/
  | notOneField
  | unknownChoice (name : String) (choices : List String)
  | repeatedField (name : String)
  | tooManyItems (count : Nat)
  /-- Neither a switch nor a table of definitions. -/
  | noDefinitions

/-- A value in an error message. -/
def Value.describe : Value → String
  | .null => "null"
  | .bool b => "boolean `" ++ toString b ++ "`"
  | .integer n => "integer `" ++ toString n ++ "`"
  | .float x => "floating point `" ++ x.text ++ "`"
  | .text s => "string " ++ Text.quoted s
  | .list _ => "sequence"
  | .object _ => "map"

namespace DecodeError

/-- The wording of an error. -/
def message : DecodeError → String
  | wrongKind found expected => "invalid type: " ++ found.describe ++ ", expected " ++ expected
  | notOneField => "invalid value: map, expected map with a single key"
  | unknownChoice name choices =>
    "unknown variant `" ++ name ++ "`, expected one of " ++
      ", ".intercalate (choices.map fun c => "`" ++ c ++ "`")
  | repeatedField name => "duplicate field `" ++ name ++ "`"
  | tooManyItems count => "invalid length " ++ toString count ++ ", expected fewer elements in array"
  | noDefinitions => "data did not match any variant of untagged enum PreprocessRepr"

end DecodeError

abbrev Decoder (α : Type) := Value → Except DecodeError α

namespace Decoder

def bool : Decoder Bool
  | .bool b => .ok b
  | v => .error (.wrongKind v "a boolean")

def text (expected : String) : Decoder String
  | .text s => .ok s
  | v => .error (.wrongKind v expected)

def string : Decoder String := text "a string"

def path : Decoder String := text "path string"

/-- Nothing, or a value. -/
def optional {α : Type} (d : Decoder α) : Decoder (Option α)
  | .null => .ok none
  | v => (d v).map some

def list {α : Type} (d : Decoder α) : Decoder (List α)
  | .list items => items.mapM d
  | v => .error (.wrongKind v "a sequence")

def fields : Decoder (List (String × Value))
  | .object fields => .ok fields
  | v => .error (.wrongKind v "a map")

/-- One of several named choices.  It is given by its name, or by an object with that one name and
nothing else. -/
def choice {α : Type} (choices : List (String × α)) : Decoder α
  | .text name => named name
  | .object [(name, content)] =>
    (named name).bind fun a =>
      match content with
      | .null => .ok a
      | v => .error (.wrongKind v "unit")
  | .object _ => .error .notOneField
  | v => .error (.wrongKind v "string or map")
where
  named (name : String) : Except DecodeError α :=
    match choices.find? (·.1 = name) with
    | some (_, a) => .ok a
    | none => .error (.unknownChoice name (choices.map (·.1)))

/-- A field of a record: its names, the first of which counts, and how it is set. -/
structure Field (σ : Type) where
  names : List String
  set : Value → σ → Except DecodeError σ

/-- A field with one name. -/
def Field.named {σ α : Type} (name : String) (d : Decoder α) (put : σ → α → σ) : Field σ where
  names := [name]
  set v s := (d v).map (put s)

/-- Reads the fields of an object one by one; `seen` are those read before. -/
def readFields {σ : Type} (known : List (Field σ)) :
    List String → List (String × Value) → σ → Except DecodeError σ
  | _, [], s => .ok s
  | seen, (name, v) :: rest, s =>
    match known.find? (·.names.contains name) with
    | none => readFields known seen rest s
    | some f =>
      let first := f.names.headD name
      if seen.contains first then .error (.repeatedField first)
      else (f.set v s).bind fun s => readFields known (first :: seen) rest s

/-- Reads the fields in their order. -/
def readItems {σ : Type} : List (Field σ) → List Value → σ → Except DecodeError σ
  | f :: known, v :: rest, s => (f.set v s).bind fun s => readItems known rest s
  | _, _, s => .ok s

/-- A record, which starts from its defaults. -/
def record {σ : Type} (name : String) (known : List (Field σ)) (defaults : σ) : Decoder σ
  | .object fields => readFields known [] fields defaults
  | .list items =>
    (readItems known items defaults).bind fun s =>
      if known.length < items.length then .error (.tooManyItems items.length) else .ok s
  | v => .error (.wrongKind v ("struct " ++ name))

end Decoder

end CompileHost
