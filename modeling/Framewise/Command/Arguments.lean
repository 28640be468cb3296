import Framewise.Command.Options

/-!
# Reading the command line

Arguments are read from left to right into a `Draft`. One that does not begin with a dash is a
path, and everything after a bare `--` is. All others are options. An option with one value may
have it behind an equals sign; otherwise values are the arguments that follow, whatever they
look like. The draft is checked when all arguments have been read.

Scanning stops at the first argument that is wrong, the check at the first issue.
-/

namespace Framewise.Command

/-! ### Words -/

/-- Options without a value. -/
inductive Switch where
  | printKeys
  | json
  | serve
  | help
  | timeseriesSum
  | cumulativeTimeseriesSum
  | statsSum
deriving DecidableEq, Repr

/-- Options whose value is a key. -/
inductive KeyList where
  | timeseries
  | cumulativeTimeseries
  | hist
  | stats
deriving DecidableEq, Repr

/-- The two bounds of the range. -/
inductive Bound where
  | start
  | stop
deriving DecidableEq, Repr

/-- What an option word stands for. -/
inductive Setting where
  | switch (s : Switch)
  | key (l : KeyList)
  | ratio
  | window
  | plot
  | bound (b : Bound)
deriving DecidableEq, Repr

/-- The number of values that a setting takes. -/
def Setting.arity : Setting → Nat
  | .switch _ => 0
  | .key _ => 1
  | .ratio => 2
  | .window => 2
  | .plot => 3
  | .bound _ => 1

/-- The option words. Both spellings of the cumulative ones are known. -/
def settings : List (String × Setting) :=
  [("--print_keys", .switch .printKeys),
   ("--json", .switch .json),
   ("--serve", .switch .serve),
   ("--help", .switch .help),
   ("-h", .switch .help),
   ("--timeseries_sum", .switch .timeseriesSum),
   ("--commulative_timeseries_sum", .switch .cumulativeTimeseriesSum),
   ("--cumulative_timeseries_sum", .switch .cumulativeTimeseriesSum),
   ("--stats_sum", .switch .statsSum),
   ("--timeseries", .key .timeseries),
   ("--commulative_timeseries", .key .cumulativeTimeseries),
   ("--cumulative_timeseries", .key .cumulativeTimeseries),
   ("--hist", .key .hist),
   ("--stats", .key .stats),
   ("--hist_ratio", .ratio),
   ("--stdev_hist", .window),
   ("--plot", .plot),
   ("--begin_frame", .bound .start),
   ("--end_frame", .bound .stop)]

/-- What an option word stands for, if it is one. -/
def Setting.of? (word : String) : Option Setting :=
  valueOf? word settings

/-! ### Errors -/

/-- What is wrong with a command line. -/
inductive UsageError where
  | unknownOption (word : String)
  | takesNoValue (word : String)
  | takesManyValues (word : String) (count : Nat)
  | needsValues (word : String) (count : Nat)
  | badNumber (word value : String)
  | invalid (issue : Check.Issue)
deriving DecidableEq, Repr

/-- What an error says. -/
def UsageError.message : UsageError → String
  | .unknownOption word => "Unknown option: " ++ word
  | .takesNoValue word => word ++ " does not take a value"
  | .takesManyValues word count =>
    word ++ " takes " ++ Number.natText count ++ " values and cannot use " ++ word ++ "=value"
  | .needsValues word count =>
    word ++ " requires " ++ Number.natText count ++ " value" ++ (if count = 1 then "" else "s")
  | .badNumber word value => "Invalid " ++ word ++ " value: " ++ value
  | .invalid issue => "Invalid options: " ++ issue.message

/-! ### Drafts -/

/-- What has been read of a command line. -/
structure Draft where
  timeseries : List String := []
  timeseriesSum : Bool := false
  cumulativeTimeseries : List String := []
  cumulativeTimeseriesSum : Bool := false
  hist : List String := []
  histRatio : List (String × String) := []
  stdevHist : List (String × Float) := []
  plot : List (String × String × String) := []
  stats : List String := []
  statsSum : Bool := false
  start : Option Float := none
  stop : Option Float := none
  printKeys : Bool := false
  json : Bool := false
  serve : Bool := false
  help : Bool := false
  paths : List String := []

namespace Draft

/-- Turn a switch on. -/
def turnOn (d : Draft) : Switch → Draft
  | .printKeys => { d with printKeys := true }
  | .json => { d with json := true }
  | .serve => { d with serve := true }
  | .help => { d with help := true }
  | .timeseriesSum => { d with timeseriesSum := true }
  | .cumulativeTimeseriesSum => { d with cumulativeTimeseriesSum := true }
  | .statsSum => { d with statsSum := true }

/-- Add a key to a list. -/
def addKey (d : Draft) (key : String) : KeyList → Draft
  | .timeseries => { d with timeseries := d.timeseries ++ [key] }
  | .cumulativeTimeseries => { d with cumulativeTimeseries := d.cumulativeTimeseries ++ [key] }
  | .hist => { d with hist := d.hist ++ [key] }
  | .stats => { d with stats := d.stats ++ [key] }

/-- Set a bound. -/
def setBound (d : Draft) (x : Float) : Bound → Draft
  | .start => { d with start := some x }
  | .stop => { d with stop := some x }

/-- Add paths. -/
def addPaths (d : Draft) (paths : List String) : Draft :=
  { d with paths := d.paths ++ paths }

/-- A value that must be a number. -/
def number (read : String → Option Float) (word value : String) : Except UsageError Float :=
  match read value with
  | some x => .ok x
  | none => .error (.badNumber word value)

/-- Enter the values of an option word, as many as its setting takes. -/
def enter (d : Draft) (word : String) : Setting → List String → Except UsageError Draft
  | .key l, [key] => .ok (d.addKey key l)
  | .ratio, [first, second] => .ok { d with histRatio := d.histRatio ++ [(first, second)] }
  | .window, [key, scale] =>
    (number Number.parseLiteral? word scale).map fun x =>
      { d with stdevHist := d.stdevHist ++ [(key, x)] }
  | .plot, [x, y, aggregation] => .ok { d with plot := d.plot ++ [(x, y, aggregation)] }
  | .bound b, [value] => (number Number.parseInteger? word value).map fun x => d.setBound x b
  | .switch s, _ => .ok (d.turnOn s)
  | _, _ => .ok d

/-- The draft as a document. -/
def document (d : Draft) : Json :=
  .object <|
    [("timeseries", Json.strings d.timeseries),
     ("timeseriesSum", .bool d.timeseriesSum),
     ("cumulativeTimeseries", Json.strings d.cumulativeTimeseries),
     ("cumulativeTimeseriesSum", .bool d.cumulativeTimeseriesSum),
     ("hist", Json.strings d.hist),
     ("histRatio", .array (d.histRatio.map fun p => Json.strings [p.1, p.2])),
     ("stdevHist", .array (d.stdevHist.map fun p => .array [.string p.1, .number p.2])),
     ("plot", .array (d.plot.map fun p => Json.strings [p.1, p.2.1, p.2.2])),
     ("stats", Json.strings d.stats),
     ("statsSum", .bool d.statsSum),
     ("printKeys", .bool d.printKeys),
     ("json", .bool d.json),
     ("serve", .bool d.serve),
     ("help", .bool d.help),
     ("paths", Json.strings d.paths)] ++
    (d.start.map fun x => ("beginFrame", Json.number x)).toList ++
    (d.stop.map fun x => ("endFrame", Json.number x)).toList

/-- The options of a draft. -/
def check (d : Draft) : Except UsageError Options :=
  match checkOptions (some d.document) with
  | .valid o => .ok o
  | .invalid first _ => .error (.invalid first)

end Draft

/-! ### Scanning -/

/-- An option word and the value behind its equals sign, if it has one. An equals sign at the
very beginning belongs to the word. -/
def splitWord (token : String) : String × Option String :=
  match token.toList with
  | [] => (token, none)
  | c :: cs =>
    match cs.dropWhile (· ≠ '=') with
    | [] => (token, none)
    | _ :: value => (String.ofList (c :: cs.takeWhile (· ≠ '=')), some (String.ofList value))

/-- Whether an argument is an option, or the bare `--`. -/
def isOption (token : String) : Bool :=
  token.toList.head? == some '-'

/-- The values of an option word: the one behind its equals sign, or else the arguments that
follow; and how many of those are taken. -/
def takeValues (word : String) (count : Nat) (inlined : Option String) (rest : List String) :
    Except UsageError (List String × Nat) :=
  match inlined with
  | some value => if count = 1 then .ok ([value], 0) else .error (.takesManyValues word count)
  | none =>
    if rest.length < count then .error (.needsValues word count)
    else .ok (rest.take count, count)

/-- Read one option: the draft with it, and how many of the arguments after its word are its
values. -/
def readOption (d : Draft) (token : String) (rest : List String) :
    Except UsageError (Draft × Nat) :=
  let (word, inlined) := splitWord token
  match Setting.of? word with
  | none => .error (.unknownOption word)
  | some (.switch s) =>
    if inlined.isSome then .error (.takesNoValue word) else .ok (d.turnOn s, 0)
  | some setting =>
    (takeValues word setting.arity inlined rest).bind fun (values, taken) =>
      (d.enter word setting values).map (·, taken)

/-- Read all arguments. -/
def scan (d : Draft) (argv : List String) : Except UsageError Draft :=
  match argv with
  | [] => .ok d
  | token :: rest =>
    if !isOption token then scan (d.addPaths [token]) rest
    else if token = "--" then .ok (d.addPaths rest)
    else match readOption d token rest with
      | .error e => .error e
      | .ok (next, taken) => scan next (rest.drop taken)
termination_by argv.length
decreasing_by all_goals simp; try omega

/-- The options of a command line. -/
def parseArguments (argv : List String) : Except UsageError Options :=
  (scan {} argv).bind Draft.check

end Framewise.Command
