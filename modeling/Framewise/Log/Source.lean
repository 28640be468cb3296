import Framewise.Log.Reader
import Framewise.Text.Chunk

/-!
# Loading logs

A source is a log with a name. It is loaded from chunks, or from files that a directory
gives for paths. Loading is all or nothing: the first log that is missing or cannot be read
fails the whole.
-/

namespace Framewise

/-- Loaded logs: for each name its completed records, in order. -/
abbrev Sources := OrderedMap String (List Record)

namespace Log

/-- The name of the log that comes from standard input. -/
def standardInput : String := "stdin"

/-- A log that has been read to its end. -/
structure Loaded where
  name : String
  records : List Record
  bytesRead : Nat
  lineCount : Nat
deriving DecidableEq, Repr

/-- Read a log from chunks. An open line at the end is a line like the others. -/
def load (name : String) (chunks : List Text.Chunk) : Except ParseError Loaded :=
  let (ended, last) := Text.LineStream.run {} chunks
  let lines := if last.remainder = [] then ended else ended ++ [String.ofList last.remainder]
  match readRecords (some name) lines with
  | (records, none) => .ok ⟨name, records, last.bytesRead, lines.length⟩
  | (_, some e) => .error e

/-- Read a log that is one text. -/
def loadText (name text : String) : Except ParseError Loaded :=
  load name [.text text]

/-- Why loading failed. -/
inductive LoadError where
  | noFile (path : String)
  | unreadable (e : ParseError)
deriving DecidableEq, Repr

/-- What a failure says. -/
def LoadError.message : LoadError → String
  | .noFile path => "ENOENT: no such file or directory, open '" ++ path ++ "'"
  | .unreadable e => e.message

/-- Read a file as one text. -/
def loadFile (directory : String → Option Text.Chunk) (path : String) : Except LoadError Loaded :=
  match directory path with
  | none => .error (.noFile path)
  | some content => (loadText path content.decode).mapError .unreadable

/-- Read the files of all paths, in order, each as often as it is named. -/
def loadFiles (directory : String → Option Text.Chunk) : List String → Except LoadError (List Loaded)
  | [] => .ok []
  | path :: paths =>
    (loadFile directory path).bind fun first =>
      (loadFiles directory paths).map (first :: ·)

/-- Read the files of all paths, or standard input where there is no path. -/
def loadAll (directory : String → Option Text.Chunk) (input : List Text.Chunk)
    (paths : List String) : Except LoadError (List Loaded) :=
  if paths = [] then ((load standardInput input).mapError .unreadable).map ([·])
  else loadFiles directory paths

/-- Loaded logs by name. A repeated name has the records of its last log. -/
def sources (loaded : List Loaded) : Sources :=
  OrderedMap.ofList (loaded.map fun l => (l.name, l.records))

end Log

end Framewise
