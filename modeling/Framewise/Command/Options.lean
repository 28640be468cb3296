import Framewise.Check.Requests

/-!
# Options of the command line

What a command line asks for, and the check that a draft of it passes: the fields of a request
for views, then the switches and the paths of the logs.
-/

namespace Framewise.Command

/-- What a command line asks for. -/
structure Options where
  views : ViewRequest := {}
  range : FrameRange := {}
  printKeys : Bool := false
  json : Bool := false
  serve : Bool := false
  help : Bool := false
  paths : List String := []
deriving DecidableEq

/-- The fields of options. -/
def optionFields (path : Check.Path) (fields : Check.Fields) : Check.Checked Options :=
  let part {α : Type} := @Check.field α path fields
  ((((((Check.viewsFields path fields).map fun r =>
      fun printKeys json serve help paths =>
        { views := r.views, range := r.range, printKeys, json, serve, help, paths : Options }).ap
    (part "printKeys" Check.flag)).ap
    (part "json" Check.flag)).ap
    (part "serve" Check.flag)).ap
    (part "help" Check.flag)).ap
    (part "paths" (Check.orElse [] (Check.arrayOf Check.nonEmptyText)))

/-- Options as a document would give them. -/
def checkOptions (v : Option Json) : Check.Checked Options :=
  Check.objectOf optionFields [] v

/-- Options as a document. -/
def Options.document (o : Options) : Json :=
  .object (o.views.fields ++ o.range.fields ++
    [("printKeys", .bool o.printKeys), ("json", .bool o.json), ("serve", .bool o.serve),
     ("help", .bool o.help), ("paths", Json.strings o.paths)])

end Framewise.Command
