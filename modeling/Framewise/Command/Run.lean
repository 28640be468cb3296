import Framewise.Command.Arguments
import Framewise.Command.Usage
import Framewise.Journal
import Framewise.Json.Printer
import Framewise.Service.Address
import Framewise.Store
import Framewise.View.Build
import Framewise.View.Document
import Framewise.View.Table

/-!
# Running a command line

`run` turns a command line and what it may read into what it writes and the exit code. Nothing
is reported about logs until all of them have been loaded. The keys are written before views
are built, and the views before the service starts, so an error in a later step does not take
them back.
-/

namespace Framewise.Command

/-- What a run may read: files, standard input and the environment. -/
structure Surroundings where
  directory : String → Option Text.Chunk := fun _ => none
  input : List Text.Chunk := []
  environment : Service.Environment := fun _ => none

/-- What a run is going to read: files, or standard input. -/
structure Needs where
  paths : List String := []
  input : Bool := false
deriving DecidableEq, Repr

/-- What the run of a command line is going to read. -/
def needs (argv : List String) : Needs :=
  match parseArguments argv with
  | .error _ => {}
  | .ok o => if o.help then {} else { paths := o.paths, input := o.paths = [] }

/-- What a run leaves: the exit code, what was written, and the store to serve, if any. -/
structure Outcome where
  code : Nat := 0
  output : String := ""
  notices : List Notice := []
  serving : Option (Store × Service.Address) := none

/-- An error that ends the run. -/
def failure (output : String) (notices : List Notice) (message : String) : Outcome :=
  { code := 1, output, notices := notices ++ [.text ("error: " ++ message ++ "\n")] }

/-- The entry about a loaded log. -/
def loadedEntry (l : Log.Loaded) : LogEntry :=
  ⟨"reader", l.name ++ ": " ++ Number.natText l.records.length ++ " frames from " ++
    Number.natText l.lineCount ++ " lines"⟩

/-- The keys, one on a line. -/
def keyListing (keys : List String) : String :=
  String.join (keys.map (· ++ "\n"))

/-- Views as they are written: as tables, or as one JSON document. No views are no text. -/
def viewText (json : Bool) (views : List View) : String :=
  if views.isEmpty then ""
  else if json then
    (Json.object [("views", View.documents views)]).nameNonFinite.pretty ++ "\n"
  else View.renderAll views ++ "\n"

/-- The entry about the address that the service listens on. -/
def servingEntry (a : Service.Address) : LogEntry :=
  ⟨"frame-stats", "serving on " ++ a.host ++ ":" ++ Number.natText a.port⟩

/-- Start the service after everything has been written, if it is asked for. -/
def serve (o : Options) (environment : Service.Environment) (sources : Sources)
    (output : String) (notices : List Notice) : Outcome :=
  if o.serve then
    match Service.Address.ofEnvironment environment with
    | .ok address =>
      { output, notices := notices ++ [.entry (servingEntry address)]
        serving := some (Store.ofSources sources, address) }
    | .error e => failure output notices e.message
  else { output, notices }

/-- Answer the options with logs that have been loaded. -/
def answer (o : Options) (environment : Service.Environment) (loaded : List Log.Loaded) :
    Outcome :=
  let notices := loaded.map fun l => Notice.entry (loadedEntry l)
  let sources := Log.sources loaded
  let keys := sources.keys
  let frames := sources.align (keys ++ o.views.keys) o.range
  let listing := if o.printKeys then keyListing keys else ""
  match buildViews frames o.views with
  | .ok views => serve o environment sources (listing ++ viewText o.json views) notices
  | .error s => failure listing notices s.message

/-- Run a command line. -/
def run (argv : List String) (s : Surroundings) : Outcome :=
  match parseArguments argv with
  | .error e =>
    { code := 1
      notices := [.text ("error: " ++ e.message ++ "\n"), .text "Run with --help for usage.\n"] }
  | .ok o =>
    if o.help then { output := usage }
    else match Log.loadAll s.directory s.input o.paths with
      | .ok loaded => answer o s.environment loaded
      | .error e => failure "" [] e.message

end Framewise.Command
