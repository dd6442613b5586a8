import CompileHost.Environment
import CompileHost.Settings.Decode

/-!
# Where definitions come from

Texts are processed with the environment variables, with a table of definitions, or not at all.
-/

namespace CompileHost

inductive DefinitionSource where
  | none
  | environment
  | table (definitions : Definitions)

namespace DefinitionSource

/-- Reads `false`, `true` for the environment, or an object of texts. -/
def decode : Decoder DefinitionSource
  | .bool false => .ok .none
  | .bool true => .ok .environment
  | .object fields =>
    match fields.mapM fun (name, v) =>
        match v with
        | .text s => some (name, s)
        | _ => Option.none with
    | some pairs => .ok (.table (.ofList pairs))
    | Option.none => .error .noDefinitions
  | _ => .error .noDefinitions

/-- The definitions to process texts with, if they are to be processed. -/
def definitions? (env : Environment) : DefinitionSource → Option Definitions
  | none => Option.none
  | environment => some env.definitions
  | table definitions => some definitions

end DefinitionSource

end CompileHost
