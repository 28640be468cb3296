import Framewise.Log.Line
import Framewise.OrderedMap

/-!
# Reading a log

A `Reader` takes the lines of a log one at a time. A frame start closes the record in progress
and hands it back; the metrics after it belong to the next record, under their own names until
the first camera section and under camera-qualified names from then on. A record that is
still open when the log ends is never handed back.

A line that cannot be read changes nothing but the count of lines, so a reader can go on after
an error.
-/

namespace Framewise

/-- The metrics of one frame. -/
abbrev Record := OrderedMap String Float

namespace Log

/-! ### Errors -/

/-- A line of a log that cannot be read, and where it stands. -/
structure ParseError where
  fault : Fault
  token : String
  source : Option String
  lineNumber : Option Nat
deriving DecidableEq, Repr

/-- A message behind its place: the name of the source and the number of the line, as far as
they are known. -/
def locate (source lineNumber : Option String) (message : String) : String :=
  let place := String.intercalate ":"
    (source.toList ++ (lineNumber.map ("line " ++ ·)).toList)
  if place = "" then message else place ++ ": " ++ message

/-- What an error says. -/
def ParseError.message (e : ParseError) : String :=
  locate e.source (e.lineNumber.map Number.natText) e.fault.message

/-- The number that a token denotes, or an error without a place. -/
def parseNumber (token : String) : Except ParseError Float :=
  match Number.parse? token with
  | some x => .ok x
  | none => .error ⟨.badNumber token, token, none, none⟩

/-! ### The reader -/

/-- The state between two lines. -/
structure Reader where
  /-- The name of the log, if it has one. -/
  source : Option String := none
  /-- The record in progress. -/
  frame : Option Record := none
  /-- The number of camera sections so far. -/
  camera : Nat := 0
  /-- The number of lines so far. -/
  lineNumber : Nat := 0
deriving DecidableEq, Repr

namespace Reader

/-- Forget everything but the name of the log. -/
def reset (r : Reader) : Reader :=
  { source := r.source }

/-- A fault of the current line as an error. -/
def fail (r : Reader) (m : Misread) : ParseError :=
  ⟨m.fault, m.token, r.source, some r.lineNumber⟩

/-- Start a frame with its first entry. The record in progress is complete; the sections
before it are counted no further. -/
def startFrame (r : Reader) (key : String) (value : Float) : Reader :=
  { r with
    frame := some (OrderedMap.empty.insert key value)
    camera := if r.frame.isSome then 0 else r.camera }

/-- Enter a metric into the record in progress, or into a new one. -/
def addMetric (r : Reader) (name : String) (value : Float) : Reader :=
  { r with frame := some ((r.frame.getD OrderedMap.empty).insert (qualify name r.camera) value) }

/-- Take a line that has been counted, without its terminator. -/
def take (r : Reader) (line : List Char) : Reader × Except ParseError (Option Record) :=
  match LineKind.of line with
  | .frameStart =>
    match readFrameStart line with
    | .ok (key, value) => (r.startFrame key value, .ok r.frame)
    | .error m => (r, .error (r.fail m))
  | .cameraSection => ({ r with camera := r.camera + 1 }, .ok none)
  | .metric =>
    match readMetric line with
    | .ok (name, value) => (r.addMetric name value, .ok none)
    | .error m => (r, .error (r.fail m))
  | .other => (r, .ok none)

/-- Take the next line: the state after it, and the record that it completes, if any. -/
def push (r : Reader) (line : String) : Reader × Except ParseError (Option Record) :=
  { r with lineNumber := r.lineNumber + 1 }.take (Text.dropTerminator line.toList)

/-- Every line counts, whether or not it can be read. -/
theorem lineNumber_push (r : Reader) (line : String) :
    (r.push line).1.lineNumber = r.lineNumber + 1 := by
  simp only [push, take]
  split <;> (try split) <;> rfl

/-- A line that cannot be read leaves the record and the camera as they were. -/
theorem push_error {r : Reader} {line : String} {e : ParseError}
    (h : (r.push line).2 = .error e) :
    (r.push line).1 = { r with lineNumber := r.lineNumber + 1 } := by
  simp only [push, take] at h ⊢
  split at h <;> (try split at h) <;> simp_all

end Reader

/-! ### Whole logs -/

/-- How far a log has been read: the records so far in reverse, and the error that stopped the
reading, if there was one. -/
structure Progress where
  reader : Reader
  records : List Record := []
  stop : Option ParseError := none

namespace Progress

/-- Read one more line, unless an error has stopped the reading. -/
def step (p : Progress) (line : String) : Progress :=
  match p.stop with
  | some _ => p
  | none =>
    match p.reader.push line with
    | (reader, .ok (some record)) => { p with reader, records := record :: p.records }
    | (reader, .ok none) => { p with reader }
    | (reader, .error e) => { p with reader, stop := some e }

end Progress

/-- The completed records of a log in order, up to the first line that cannot be read, and the
error of this line. -/
def readRecords (source : Option String) (lines : List String) :
    List Record × Option ParseError :=
  let p := lines.foldl Progress.step { reader := { source } }
  (p.records.reverse, p.stop)

/-- The completed records of a log that is one text, all of whose lines can be read. -/
def readText (source : Option String) (text : String) : Except ParseError (List Record) :=
  match readRecords source (Text.splitLines text) with
  | (records, none) => .ok records
  | (_, some e) => .error e

end Log

end Framewise
