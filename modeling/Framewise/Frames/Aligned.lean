import Framewise.Frames.Range
import Framewise.Log.Source
import Framewise.Series
import Framewise.Text.Units

/-!
# Aligned frames

`Frames` has, for each source and each requested key, the series of the key's values, one
entry for each frame of the source. All series of a source are cut to the same range, so their
entries stay aligned.
-/

namespace Framewise

/-- The series of one source, by key. -/
abbrev Columns := OrderedMap String Series

/-- The columns of each source. -/
abbrev Frames := OrderedMap String Columns

namespace Columns

/-- The series of a key; an absent key has an empty one. -/
def series (columns : Columns) (key : String) : Series :=
  (columns.get? key).getD []

/-- The columns of a list of records: each key once, at its first place, with the value that
each record has for it. -/
def ofRecords (records : List Record) (keys : List String) : Columns :=
  OrderedMap.ofList (keys.map fun key => (key, records.map (·.get? key)))

end Columns

/-- A source in a summary. -/
structure SourceSummary where
  name : String
  frameCount : Nat
deriving DecidableEq, Repr

namespace Sources

/-- All keys that some record of some source has, in ascending order of their units. -/
def keys (sources : Sources) : List String :=
  Text.sortByUnits ((sources.entries.flatMap fun s => s.2.flatMap OrderedMap.keys).eraseDups)

/-- Name and number of frames of each source. -/
def summary (sources : Sources) : List SourceSummary :=
  sources.entries.map fun s => ⟨s.1, s.2.length⟩

/-- The series of the given keys in every source, cut to a range. -/
def align (sources : Sources) (keys : List String) (range : FrameRange) : Frames :=
  sources.mapWithKey fun _ records =>
    (Columns.ofRecords records keys).mapWithKey fun _ series => range.cut series

end Sources

end Framewise
