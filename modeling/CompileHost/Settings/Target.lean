import CompileHost.Settings.Decode

/-!
# Target versions

The version of the language that sources are parsed for.
-/

namespace CompileHost

inductive Target where
  | es3
  | es5
  | es2015
  | es2016
  | es2017
  | es2018
  | es2019
  | es2020
  | es2021
  | es2022
  | esnext
  deriving DecidableEq

namespace Target

def name : Target → String
  | es3 => "es3"
  | es5 => "es5"
  | es2015 => "es2015"
  | es2016 => "es2016"
  | es2017 => "es2017"
  | es2018 => "es2018"
  | es2019 => "es2019"
  | es2020 => "es2020"
  | es2021 => "es2021"
  | es2022 => "es2022"
  | esnext => "esnext"

/-- All names of versions; `es6` is another name of `es2015`. -/
def choices : List (String × Target) :=
  [("es3", es3), ("es5", es5), ("es2015", es2015), ("es6", es2015), ("es2016", es2016),
   ("es2017", es2017), ("es2018", es2018), ("es2019", es2019), ("es2020", es2020),
   ("es2021", es2021), ("es2022", es2022), ("esnext", esnext)]

def decode : Decoder Target :=
  .choice choices

end Target

end CompileHost
