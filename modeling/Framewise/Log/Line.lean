import Framewise.Number.Numeral
import Framewise.Number.Layout
import Framewise.Text.Lines

/-!
# Lines of a log

A viewer log has three kinds of lines that matter, told apart by how they begin:

* `Stats Viewer …` starts a frame. Its last two words are a key and a value.
* `Stats Camera …` starts the section of the next camera.
* Four blanks start a metric: a name, blanks, and a value without blanks.

All other lines are passed over. `FrameStart.read` and `Metric.read` take the second and the
third kind apart; a `Fault` says why a line is not of its form.
-/

namespace Framewise.Log

/-- The beginning of a line that starts a frame. -/
def frameMarker : String := "Stats Viewer"

/-- The beginning of a line that starts a camera section. -/
def cameraMarker : String := "Stats Camera"

/-- The beginning of a metric line. -/
def metricIndent : String := "    "

/-- The kinds of lines. -/
inductive LineKind where
  | frameStart
  | cameraSection
  | metric
  | other
deriving DecidableEq, Repr

/-- Whether a line begins with a marker. -/
def startsWith (line : List Char) (marker : String) : Bool :=
  marker.toList.isPrefixOf line

/-- The kind of a line. -/
def LineKind.of (line : List Char) : LineKind :=
  if startsWith line frameMarker then .frameStart
  else if startsWith line cameraMarker then .cameraSection
  else if startsWith line metricIndent then .metric
  else .other

/-! ### Faults -/

/-- Why a line cannot be read. -/
inductive Fault where
  | badNumber (token : String)
  | noValue
  | tooFewWords (count : Nat)
deriving DecidableEq, Repr

/-- What a fault is called. -/
def Fault.message : Fault → String
  | .badNumber token => "invalid numeric value \"" ++ token ++ "\""
  | .noValue => "metric line has no value"
  | .tooFewWords count => "frame start needs at least 4 tokens, got " ++ Number.natText count

/-- A fault with the text that has it. -/
structure Misread where
  fault : Fault
  token : String
deriving DecidableEq, Repr

/-- A value, which must be a numeral. -/
def readValue (word : List Char) : Except Misread Float :=
  let token := String.ofList word
  match Number.parse? token with
  | some x => .ok x
  | none => .error ⟨.badNumber token, token⟩

/-! ### Frame starts and metrics -/

/-- The key and the value of a frame start: its last two words, of at least four. -/
def readFrameStart (line : List Char) : Except Misread (String × Float) :=
  let words := Text.words line
  match words.reverse with
  | value :: key :: _ :: _ :: _ => (readValue value).map (String.ofList key, ·)
  | _ => .error ⟨.tooFewWords words.length, String.ofList line⟩

/-- The name and the value of a metric: what stands before and after the last run of blanks.
A name goes over no line break. -/
def readMetric (line : List Char) : Except Misread (String × Float) :=
  let content := Text.trim line
  match Text.splitLast? content with
  | some (name, value) =>
    if name.any Text.isLineBreak then .error ⟨.noValue, String.ofList content⟩
    else (readValue value).map (String.ofList name, ·)
  | none => .error ⟨.noValue, String.ofList content⟩

/-- The key of a metric in the section of a camera, given the camera's number as text. -/
def cameraKey (name number : String) : String :=
  name ++ " Camera " ++ number

/-- The key of a metric after `camera` camera sections. Before the first section the name is
the key. -/
def qualify (name : String) (camera : Nat) : String :=
  if camera = 0 then name else cameraKey name (Number.natText camera)

/-- A line is of the kind that its marker says. -/
theorem LineKind.of_eq_metric_iff (line : List Char) :
    LineKind.of line = .metric ↔ startsWith line metricIndent := by
  unfold LineKind.of
  constructor
  · intro h
    split at h
    · simp at h
    · split at h
      · simp at h
      · split at h
        · assumption
        · simp at h
  · intro h
    match line with
    | [] => simp [startsWith, metricIndent] at h
    | c :: cs =>
      have hc : ' ' = c := by
        have h' : [' ', ' ', ' ', ' '].isPrefixOf (c :: cs) = true := h
        exact (List.cons_prefix_cons.1 (List.isPrefixOf_iff_prefix.1 h')).1
      subst hc
      have h1 : startsWith (' ' :: cs) frameMarker = false := rfl
      have h2 : startsWith (' ' :: cs) cameraMarker = false := rfl
      simp [h, h1, h2]

example : LineKind.of "Stats Viewer 1".toList = .frameStart ∧
    LineKind.of "\tDraw calls 1".toList = .other := by decide

end Framewise.Log
