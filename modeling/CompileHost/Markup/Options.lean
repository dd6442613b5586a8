import CompileHost.Settings.Decode

/-!
# Options of markup minification

All steps are on by default.  Settings may override single options by name; names that are not
options are passed over.
-/

namespace CompileHost.Markup

structure Options where
  removeComments : Bool := true
  useShortDoctype : Bool := true
  removeOptionalTags : Bool := true
  collapseWhitespace : Bool := true
  removeEmptyAttributes : Bool := true
  removeAttributeQuotes : Bool := true
  collapseBooleanAttributes : Bool := true
  /-- Characters of these texts may stand in attribute names. -/
  customAttrSurround : List String := ["@", ":"]
  deriving DecidableEq

namespace Options

/-- The options by name. -/
def fields : List (Decoder.Field Options) :=
  [.named "removeComments" .bool fun o b => { o with removeComments := b },
   .named "useShortDoctype" .bool fun o b => { o with useShortDoctype := b },
   .named "removeOptionalTags" .bool fun o b => { o with removeOptionalTags := b },
   .named "collapseWhitespace" .bool fun o b => { o with collapseWhitespace := b },
   .named "removeEmptyAttributes" .bool fun o b => { o with removeEmptyAttributes := b },
   .named "removeAttributeQuotes" .bool fun o b => { o with removeAttributeQuotes := b },
   .named "collapseBooleanAttributes" .bool fun o b => { o with collapseBooleanAttributes := b },
   .named "customAttrSurround" (.list .string) fun o names => { o with customAttrSurround := names }]

/-- The defaults with some options overridden. -/
def override (overrides : List (String × Value)) : Except DecodeError Options :=
  Decoder.record "HtmlMinifyOptions" fields {} (.object overrides)

/-- The options as an object. -/
def toValue (o : Options) : Value :=
  .object
    [("removeComments", .bool o.removeComments),
     ("useShortDoctype", .bool o.useShortDoctype),
     ("removeOptionalTags", .bool o.removeOptionalTags),
     ("collapseWhitespace", .bool o.collapseWhitespace),
     ("removeEmptyAttributes", .bool o.removeEmptyAttributes),
     ("removeAttributeQuotes", .bool o.removeAttributeQuotes),
     ("collapseBooleanAttributes", .bool o.collapseBooleanAttributes),
     ("customAttrSurround", .list (o.customAttrSurround.map .text))]

end Options

end CompileHost.Markup
