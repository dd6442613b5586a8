import CompileHost.HotReload.Runtime
import CompileHost.Settings.Definitions
import CompileHost.Settings.Target

/-!
# Settings of a host

What a host is told once, before it starts.  Hot reload is on by default, except in production.
-/

namespace CompileHost

structure Settings where
  currentDirectory : String := "."
  outputDirectory : String := "."
  sourceDirectory : String := "."
  target : Target := .es5
  definitions : DefinitionSource := .none
  /-- Options of markup minification that differ from the defaults. -/
  markupOverrides : List (String × Value) := []
  minifiesStylesheets : Bool := false
  hotReloadExcluded : List String := []
  hotReload : Bool
  /-- Whether the case of names counts; found out if it is not said. -/
  caseSensitive : Option Bool := none
  runtime : HotReloadRuntime := {}

namespace Environment

/-- Whether this is a production run. -/
def isProduction (env : Environment) : Bool :=
  env.entries.any fun (name, value) =>
    name = "NODE_ENV" && value = Text.utf8Bytes "production"

end Environment

namespace Settings

/-- The settings of a host that is told nothing. -/
def default (env : Environment) : Settings :=
  { hotReload := !env.isProduction }

/-- The settings by name, in the order in which a list gives them. -/
def fields : List (Decoder.Field Settings) :=
  [.named "currentDir" .path fun s d => { s with currentDirectory := d },
   .named "outDir" .path fun s d => { s with outputDirectory := d },
   .named "rootDir" .path fun s d => { s with sourceDirectory := d },
   .named "target" Target.decode fun s t => { s with target := t },
   .named "preprocess" DefinitionSource.decode fun s d => { s with definitions := d },
   .named "htmlMinify" .fields fun s o => { s with markupOverrides := o },
   .named "minifyCss" .bool fun s b => { s with minifiesStylesheets := b },
   { names := ["hmrExclude", "excludeHmrFiles"]
     set := fun v s =>
      (Decoder.list .string v).map fun names => { s with hotReloadExcluded := names } },
   .named "hmr" .bool fun s b => { s with hotReload := b },
   .named "caseSensitive" (.optional .bool) fun s b => { s with caseSensitive := b },
   .named "runtime" HotReloadRuntime.decode fun s r => { s with runtime := r }]

/-- Reads settings over the defaults. -/
def decode (env : Environment) : Decoder Settings :=
  .record "HostConfig" fields (default env)

end Settings

end CompileHost
