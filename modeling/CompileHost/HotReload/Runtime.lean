import CompileHost.Settings.Decode

/-!
# The runtime of hot reload

The code that swaps a component talks to a few modules, whose names are settings, as is what they
can do.
-/

namespace CompileHost

/-- What the runtime can do. -/
structure RuntimeCapabilities where
  rerender : Bool := true
  reload : Bool := true
  wrapsPlainModules : Bool := true
  deriving DecidableEq

/-- The modules that take part in hot reload. -/
structure HotReloadRuntime where
  framework : String := "vue"
  componentBase : String := "Vue"
  hotReloadApi : String := "vue-hot-reload-api"
  updateModule : String := "ud"
  /-- The directory of modules that are not installed at the top. -/
  fallbackDirectory : String := "vue-tsify/node_modules"
  capabilities : RuntimeCapabilities := {}
  deriving DecidableEq

namespace RuntimeCapabilities

def decode : Decoder RuntimeCapabilities :=
  .record "RuntimeCapabilities"
    [.named "rerender" .bool fun c b => { c with rerender := b },
     .named "reload" .bool fun c b => { c with reload := b },
     .named "wrapsPlainModules" .bool fun c b => { c with wrapsPlainModules := b }]
    {}

end RuntimeCapabilities

namespace HotReloadRuntime

def decode : Decoder HotReloadRuntime :=
  .record "RuntimeAdapter"
    [.named "framework" .string fun r s => { r with framework := s },
     .named "componentBase" .string fun r s => { r with componentBase := s },
     .named "hotReloadApi" .string fun r s => { r with hotReloadApi := s },
     .named "updateModule" .string fun r s => { r with updateModule := s },
     .named "helperFallbackDir" .string fun r s => { r with fallbackDirectory := s },
     .named "capabilities" RuntimeCapabilities.decode fun r c => { r with capabilities := c }]
    {}

end HotReloadRuntime

end CompileHost
