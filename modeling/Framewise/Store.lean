import Framewise.Frames.Aligned

/-!
# The store

The logs that the service answers from. The list of all keys is kept with them, so that it need
not be collected for every answer; that it is the list of their keys is part of the type.
-/

namespace Framewise

/-- Loaded logs and all their keys. -/
structure Store where
  sources : Sources
  keys : List String := sources.keys
  keys_eq : keys = sources.keys := by rfl

namespace Store

/-- A store of loaded logs. -/
def ofSources (sources : Sources) : Store :=
  { sources }

/-- Add a log, or replace the one of the same name. -/
def insert (s : Store) (name : String) (records : List Record) : Store :=
  ofSources (s.sources.insert name records)

/-- Whether there is a log of this name. -/
def contains (s : Store) (name : String) : Bool :=
  s.sources.contains name

/-- Name and number of frames of each log. -/
def summary (s : Store) : List SourceSummary :=
  s.sources.summary

/-- The series of the given keys, or of all keys, in every log. -/
def align (s : Store) (keys : Option (List String)) (range : FrameRange) : Frames :=
  s.sources.align (keys.getD s.keys) range

end Store

end Framewise
