import Framewise.Journal
import Framewise.Json.Printer
import Framewise.Service.Address
import Framewise.Service.Request
import Framewise.Text.Units

/-!
# Reports on requests

The log gets one entry for each request whose path begins with `/api`. It names the method, the
path, the status and the time taken, and then says something about the document of the answer:
a summary of the fields worth a look, or, if the environment asks for it, the beginning of the
document itself.
-/

namespace Framewise.Service

/-- How the service behaves. -/
structure Settings where
  /-- Answers may be kept by those who ask. -/
  caching : Bool := false
  /-- Documents are logged instead of their summaries. -/
  logDocuments : Bool := false
deriving DecidableEq, Repr

/-- The behaviour that an environment asks for. -/
def Settings.ofEnvironment (env : Environment) : Settings where
  caching := env "NODE_ENV" = some "production"
  logDocuments := env "LOG_API_BODY" = some "true"

/-! ### Summaries -/

/-- The field of a document, if it is a truth value. -/
def boolField? (name : String) (v : Json) : Option (String × Json) :=
  match v.field? name with
  | some (.bool b) => some (name, .bool b)
  | _ => none

/-- The field of a document, if it is a string. -/
def textField? (name : String) (v : Json) : Option (String × Json) :=
  match v.field? name with
  | some (.string s) => some (name, .string s)
  | _ => none

/-- The field of a document, if it is a number. -/
def numberField? (name : String) (v : Json) : Option (String × Json) :=
  match v.field? name with
  | some (.number x) => some (name, .number x)
  | _ => none

/-- The number of sources of a document. -/
def sourcesCount? (v : Json) : Option (String × Json) :=
  match v.field? "sources" with
  | some (.array items) => some ("sourcesCount", Json.ofNat items.length)
  | some (.object fields) => some ("sourcesCount", Json.ofNat fields.length)
  | _ => none

/-- The fields of a document that are worth a look. -/
def summaryFields (v : Json) : List (String × Json) :=
  [boolField? "success" v, textField? "error" v, textField? "name" v, numberField? "count" v,
    numberField? "frameCount" v, sourcesCount? v].filterMap id

/-- How many units of a document the log shows. -/
def shownUnits : Nat := 2000

/-- The beginning of a text; of one that is cut, the length is added. -/
def shorten (text : String) : String :=
  if Text.width text ≤ shownUnits then text
  else String.ofList (Text.takeUnits shownUnits text.toList) ++ "... (" ++
    Number.natText (Text.width text) ++ " chars)"

/-- What the log says about a document. -/
def remark? (settings : Settings) (v : Json) : Option String :=
  if settings.logDocuments then some (shorten v.compact)
  else
    match summaryFields v with
    | [] => none
    | fields => some (Json.object fields).compact

/-! ### Entries -/

/-- What the log tells about a request. -/
structure Report where
  method : Method
  path : String
  status : Nat
  remark : Option String := none
deriving DecidableEq, Repr

/-- The entry for a request that took so long. -/
def Report.entry (r : Report) (milliseconds : Nat) : LogEntry :=
  ⟨"express", r.method.name ++ " " ++ r.path ++ " " ++ Number.natText r.status ++ " in " ++
    Number.natText milliseconds ++ "ms" ++ match r.remark with
      | none => ""
      | some remark => " :: " ++ remark⟩

/-- Whether requests for a path are logged. -/
def isLogged (path : String) : Bool :=
  "/api".toList.isPrefixOf path.toList

/-- The report on an answered request, if it is logged. -/
def Report.of? (settings : Settings) (request : Request) (status : Nat)
    (document : Option Json) : Option Report :=
  if isLogged request.path then
    some ⟨request.method, request.path, status, document.bind (remark? settings)⟩
  else none

example : (summaryFields (.object [("count", Json.ofNat 3), ("name", .null),
    ("sources", .array [.null])])).map Prod.fst = ["count", "sourcesCount"] := by decide

example : ({ method := .get, path := "/api/keys", status := 200 } : Report).entry 0 =
    ⟨"express", "GET /api/keys 200 in 0ms"⟩ := by decide +kernel

end Framewise.Service
