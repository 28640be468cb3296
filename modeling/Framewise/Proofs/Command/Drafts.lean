import Framewise.Command.Arguments
import Framewise.Proofs.Check.Acceptance
import Framewise.Proofs.Outcome

/-!
# Drafts of options

What is read of two command lines, one after the other, is the `join` of what is read of each. No
argument looks at what was read before it, so joining commutes with all that scanning does to a
draft. The check of a draft looks at each of its parts alone, and so a join passes if both drafts do.

* `join_assoc`, `join_empty`, `empty_join`: drafts are a monoid.
* `scan_join`: a scan adds to the draft that it starts with.
* `check_eq_ok_iff`: which drafts pass their check, and what the options are then.
* `Valid.join`: a join passes if both drafts do.
* `lacks_join`, `join_comm`: drafts of different settings commute.
-/

namespace Framewise.Command

namespace Draft

/-! ### Joining drafts -/

/-- What is read of a command line, and then of another. Lists are extended, switches stay on and the
later bound counts. -/
def join (d e : Draft) : Draft where
  timeseries := d.timeseries ++ e.timeseries
  timeseriesSum := d.timeseriesSum || e.timeseriesSum
  cumulativeTimeseries := d.cumulativeTimeseries ++ e.cumulativeTimeseries
  cumulativeTimeseriesSum := d.cumulativeTimeseriesSum || e.cumulativeTimeseriesSum
  hist := d.hist ++ e.hist
  histRatio := d.histRatio ++ e.histRatio
  stdevHist := d.stdevHist ++ e.stdevHist
  plot := d.plot ++ e.plot
  stats := d.stats ++ e.stats
  statsSum := d.statsSum || e.statsSum
  start := e.start.or d.start
  stop := e.stop.or d.stop
  printKeys := d.printKeys || e.printKeys
  json := d.json || e.json
  serve := d.serve || e.serve
  help := d.help || e.help
  paths := d.paths ++ e.paths

theorem join_empty (d : Draft) : d.join {} = d := by
  simp [join]

theorem empty_join (d : Draft) : ({} : Draft).join d = d := by
  simp [join]

theorem join_assoc (d e f : Draft) : (d.join e).join f = d.join (e.join f) := by
  simp [join, Bool.or_assoc, Option.or_assoc]

/-! ### What an argument does -/

theorem turnOn_join (d e : Draft) (s : Switch) : (d.join e).turnOn s = d.join (e.turnOn s) := by
  cases s <;> simp [turnOn, join]

theorem addKey_join (d e : Draft) (key : String) (l : KeyList) :
    (d.join e).addKey key l = d.join (e.addKey key l) := by
  cases l <;> simp [addKey, join]

theorem setBound_join (d e : Draft) (x : Float) (b : Bound) :
    (d.join e).setBound x b = d.join (e.setBound x b) := by
  cases b <;> simp [setBound, join]

theorem addPaths_join (d e : Draft) (paths : List String) :
    (d.join e).addPaths paths = d.join (e.addPaths paths) := by
  simp [addPaths, join]

/-- Values are entered alike, whatever has been read before. -/
theorem enter_join (d e : Draft) (word : String) (setting : Setting) (values : List String) :
    (d.join e).enter word setting values = (e.enter word setting values).map d.join := by
  fun_cases enter e word setting values with
  | case1 l key => exact congrArg Except.ok (addKey_join d e key l)
  | case2 first second =>
    show Except.ok _ = Except.ok _
    simp [join]
  | case3 key scale =>
    show Except.map _ _ = Except.map _ (Except.map _ _)
    rw [map_map_eq]
    congr 1
    funext x
    simp [join]
  | case4 x y aggregation =>
    show Except.ok _ = Except.ok _
    simp [join]
  | case5 b value =>
    show Except.map _ _ = Except.map _ (Except.map _ _)
    rw [map_map_eq]
    congr 1
    funext x
    exact setBound_join d e x b
  | case6 s _ => exact congrArg Except.ok (turnOn_join d e s)
  | case7 =>
    -- Any other number of values: both drafts stay as they are.
    rw [enter]
    · rfl
    all_goals assumption

/-! ### The check -/

/-- The drafts that pass their check. -/
structure Valid (d : Draft) : Prop where
  timeseries : ∀ key ∈ d.timeseries, key ≠ ""
  cumulativeTimeseries : ∀ key ∈ d.cumulativeTimeseries, key ≠ ""
  hist : ∀ key ∈ d.hist, key ≠ ""
  histRatio : ∀ p ∈ d.histRatio, p.1 ≠ "" ∧ p.2 ≠ ""
  stdevHist : ∀ p ∈ d.stdevHist, p.1 ≠ "" ∧ p.2.isFinite = true
  plot : ∀ p ∈ d.plot, p.1 ≠ "" ∧ p.2.1 ≠ "" ∧ p.2.2 ∈ Check.aggregationNames
  stats : ∀ key ∈ d.stats, key ≠ ""
  start : ∀ x ∈ d.start, Number.isInteger x = true
  stop : ∀ x ∈ d.stop, Number.isInteger x = true
  paths : ∀ path ∈ d.paths, path ≠ ""

/-- The options that a draft stands for. -/
def options (d : Draft) : Options where
  views :=
    { timeseries := d.timeseries
      timeseriesSum := d.timeseriesSum
      cumulativeTimeseries := d.cumulativeTimeseries
      cumulativeTimeseriesSum := d.cumulativeTimeseriesSum
      hist := d.hist
      histRatio := d.histRatio.map fun p => ⟨p.1, p.2⟩
      stdevHist := d.stdevHist.map fun p => ⟨p.1, p.2⟩
      plot := d.plot.map fun p => ⟨p.1, p.2.1, Check.aggregationOf p.2.2⟩
      stats := d.stats
      statsSum := d.statsSum }
  range :=
    { start := d.start.getD ({} : FrameRange).start
      stop := d.stop.getD ({} : FrameRange).stop }
  printKeys := d.printKeys
  json := d.json
  serve := d.serve
  help := d.help
  paths := d.paths

/-- The fields of the document of a draft. -/
def fields (d : Draft) : Check.Fields := fun name =>
  match d.document with
  | .object fields => valueOf? name fields
  | _ => none

theorem fields_beginFrame (d : Draft) : d.fields "beginFrame" = d.start.map Json.number := by
  unfold fields document
  cases d.start with
  | none => cases d.stop <;> rfl
  | some x => rfl

theorem fields_endFrame (d : Draft) : d.fields "endFrame" = d.stop.map Json.number := by
  unfold fields document
  cases d.start with
  | none => cases d.stop <;> rfl
  | some x => cases d.stop <;> rfl

section Check

open Check

variable {d : Draft}

theorem field_eq_valid {α β : Type} {check : Checker β} {write : α → Json} {good : α → Prop}
    {made : α → β} {name : String} {a : α} {b : β} (h : Accepts check write good made)
    (hfield : d.fields name = some (write a)) :
    field [] d.fields name check = .valid b ↔ good a ∧ made a = b := by
  unfold field
  rw [hfield]
  exact h _ a b

/-- The views of a draft are accepted if their keys, scales and aggregations are. -/
theorem viewFields_eq_valid {r : ViewRequest} : viewFields [] d.fields = .valid r ↔
    ((∀ key ∈ d.timeseries, key ≠ "") ∧ (∀ key ∈ d.cumulativeTimeseries, key ≠ "") ∧
      (∀ key ∈ d.hist, key ≠ "") ∧ (∀ p ∈ d.histRatio, p.1 ≠ "" ∧ p.2 ≠ "") ∧
      (∀ p ∈ d.stdevHist, p.1 ≠ "" ∧ p.2.isFinite = true) ∧
      (∀ p ∈ d.plot, p.1 ≠ "" ∧ p.2.1 ≠ "" ∧ p.2.2 ∈ aggregationNames) ∧
      ∀ key ∈ d.stats, key ≠ "") ∧ d.options.views = r := by
  rw [Check.viewFields_eq_valid, field_eq_valid (a := d.timeseries) accepts_keyList rfl,
    field_eq_valid (a := d.timeseriesSum) accepts_flag rfl,
    field_eq_valid (a := d.cumulativeTimeseries) accepts_keyList rfl,
    field_eq_valid (a := d.cumulativeTimeseriesSum) accepts_flag rfl,
    field_eq_valid (a := d.hist) accepts_keyList rfl,
    field_eq_valid (a := d.histRatio) (accepts_ratio.arrayOf.orElse []) rfl,
    field_eq_valid (a := d.stdevHist) (accepts_window.arrayOf.orElse []) rfl,
    field_eq_valid (a := d.plot) (accepts_plot.arrayOf.orElse []) rfl,
    field_eq_valid (a := d.stats) accepts_keyList rfl,
    field_eq_valid (a := d.statsSum) accepts_flag rfl]
  obtain ⟨timeseries, timeseriesSum, cumulative, cumulativeSum, hist, ratio, window, plot, stats,
    statsSum⟩ := r
  simp only [options, ViewRequest.mk.injEq, id, true_and]
  tauto

/-- The range of a draft is accepted if the bounds that it has are integers. -/
theorem rangeFields_eq_valid {r : FrameRange} : rangeFields [] d.fields = .valid r ↔
    ((∀ x ∈ d.start, Number.isInteger x = true) ∧ ∀ x ∈ d.stop, Number.isInteger x = true) ∧
      d.options.range = r := by
  rw [Check.rangeFields_eq_valid]
  unfold field
  rw [fields_beginFrame, fields_endFrame, accepts_integer.orElse_map, accepts_integer.orElse_map,
    Option.map_id]
  obtain ⟨start, stop⟩ := r
  simp only [options, FrameRange.mk.injEq, id]
  tauto

theorem optionFields_eq_valid {o : Options} :
    optionFields [] d.fields = .valid o ↔ d.Valid ∧ d.options = o := by
  rw [Check.optionFields_eq_valid, viewFields_eq_valid, rangeFields_eq_valid,
    field_eq_valid (a := d.printKeys) accepts_flag rfl,
    field_eq_valid (a := d.json) accepts_flag rfl,
    field_eq_valid (a := d.serve) accepts_flag rfl,
    field_eq_valid (a := d.help) accepts_flag rfl,
    field_eq_valid (a := d.paths) (accepts_nonEmptyText.arrayOf.orElse []) rfl, List.map_id]
  constructor
  · rintro ⟨⟨⟨h₁, h₂, h₃, h₄, h₅, h₆, h₇⟩, hviews⟩, ⟨⟨h₈, h₉⟩, hrange⟩, ⟨-, hkeys⟩, ⟨-, hjson⟩,
      ⟨-, hserve⟩, ⟨-, hhelp⟩, h₁₀, hpaths⟩
    refine ⟨⟨h₁, h₂, h₃, h₄, h₅, h₆, h₇, h₈, h₉, h₁₀⟩, ?_⟩
    obtain ⟨views, range, printKeys, json, serve, help, paths⟩ := o
    exact Options.mk.injEq .. ▸ ⟨hviews, hrange, hkeys, hjson, hserve, hhelp, hpaths⟩
  · rintro ⟨h, rfl⟩
    exact ⟨⟨⟨h.timeseries, h.cumulativeTimeseries, h.hist, h.histRatio, h.stdevHist, h.plot,
      h.stats⟩, rfl⟩, ⟨⟨h.start, h.stop⟩, rfl⟩, ⟨trivial, rfl⟩, ⟨trivial, rfl⟩, ⟨trivial, rfl⟩,
      ⟨trivial, rfl⟩, h.paths, rfl⟩

theorem checkOptions_document (d : Draft) :
    checkOptions (some d.document) = optionFields [] d.fields := rfl

/-- **The drafts that pass their check**, and the options that they give. -/
theorem check_eq_ok_iff {o : Options} : d.check = .ok o ↔ d.Valid ∧ d.options = o := by
  unfold check
  rw [checkOptions_document, ← optionFields_eq_valid]
  cases optionFields [] d.fields with
  | valid o' => simp
  | invalid first more => simp

/-- A draft that fails its check fails it with an issue. -/
theorem check_eq_error {e : UsageError} (h : d.check = .error e) : ∃ issue, e = .invalid issue := by
  unfold check at h
  rw [checkOptions_document] at h
  cases hfields : optionFields [] d.fields with
  | valid o =>
    rw [hfields] at h
    cases h
  | invalid first more =>
    rw [hfields] at h
    exact ⟨first, (Except.error.inj h).symm⟩

end Check

/-- A join passes its check if both drafts do. -/
theorem Valid.join {d e : Draft} (hd : d.Valid) (he : e.Valid) : (d.join e).Valid where
  timeseries := List.forall_mem_append.2 ⟨hd.timeseries, he.timeseries⟩
  cumulativeTimeseries :=
    List.forall_mem_append.2 ⟨hd.cumulativeTimeseries, he.cumulativeTimeseries⟩
  hist := List.forall_mem_append.2 ⟨hd.hist, he.hist⟩
  histRatio := List.forall_mem_append.2 ⟨hd.histRatio, he.histRatio⟩
  stdevHist := List.forall_mem_append.2 ⟨hd.stdevHist, he.stdevHist⟩
  plot := List.forall_mem_append.2 ⟨hd.plot, he.plot⟩
  stats := List.forall_mem_append.2 ⟨hd.stats, he.stats⟩
  start := by
    intro x hx
    rcases Option.or_eq_some_iff.1 hx with h | ⟨-, h⟩
    · exact he.start x h
    · exact hd.start x h
  stop := by
    intro x hx
    rcases Option.or_eq_some_iff.1 hx with h | ⟨-, h⟩
    · exact he.stop x h
    · exact hd.stop x h
  paths := List.forall_mem_append.2 ⟨hd.paths, he.paths⟩

/-! ### Drafts of different settings -/

/-- Whether nothing has been read for a setting, or no path. -/
def Lacks (d : Draft) : Option Setting → Prop
  | none => d.paths = []
  | some (.switch .printKeys) => d.printKeys = false
  | some (.switch .json) => d.json = false
  | some (.switch .serve) => d.serve = false
  | some (.switch .help) => d.help = false
  | some (.switch .timeseriesSum) => d.timeseriesSum = false
  | some (.switch .cumulativeTimeseriesSum) => d.cumulativeTimeseriesSum = false
  | some (.switch .statsSum) => d.statsSum = false
  | some (.key .timeseries) => d.timeseries = []
  | some (.key .cumulativeTimeseries) => d.cumulativeTimeseries = []
  | some (.key .hist) => d.hist = []
  | some (.key .stats) => d.stats = []
  | some .ratio => d.histRatio = []
  | some .window => d.stdevHist = []
  | some .plot => d.plot = []
  | some (.bound .start) => d.start = none
  | some (.bound .stop) => d.stop = none

/-- An empty draft lacks everything. -/
theorem lacks_empty (s : Option Setting) : ({} : Draft).Lacks s := by
  fun_cases Lacks {} s <;> rfl

theorem lacks_join {d e : Draft} {s : Option Setting} :
    (d.join e).Lacks s ↔ d.Lacks s ∧ e.Lacks s := by
  fun_cases Lacks d s with
  | case16 | case17 => simp [Lacks, join, and_comm]
  | _ => simp [Lacks, join]

/-- **Drafts commute** if nothing has been read for the same setting. -/
theorem join_comm {d e : Draft} (h : ∀ s, d.Lacks s ∨ e.Lacks s) : d.join e = e.join d := by
  have happend : ∀ {α : Type} {xs ys : List α}, xs = [] ∨ ys = [] → xs ++ ys = ys ++ xs := by
    rintro α xs ys (rfl | rfl) <;> simp
  have hor : ∀ {x y : Option Float}, x = none ∨ y = none → y.or x = x.or y := by
    rintro x y (rfl | rfl) <;> simp
  unfold join
  rw [happend (h none), happend (h (some (.key .timeseries))),
    happend (h (some (.key .cumulativeTimeseries))), happend (h (some (.key .hist))),
    happend (h (some (.key .stats))), happend (h (some .ratio)), happend (h (some .window)),
    happend (h (some .plot)), hor (h (some (.bound .start))), hor (h (some (.bound .stop)))]
  simp only [Bool.or_comm]

end Draft

/-! ### Scanning -/

/-- An option is read alike, whatever has been read before. -/
theorem readOption_join (d e : Draft) (token : String) (rest : List String) :
    readOption (d.join e) token rest =
      (readOption e token rest).map fun read => (d.join read.1, read.2) := by
  unfold readOption
  simp only
  split
  · rfl
  · split
    · rfl
    · rw [Draft.turnOn_join]
      rfl
  · next setting _ _ =>
    cases takeValues (splitWord token).1 setting.arity (splitWord token).2 rest with
    | error err => rfl
    | ok taken =>
      show Except.map _ (Draft.enter _ _ _ _) = Except.map _ (Except.map _ (Draft.enter _ _ _ _))
      rw [Draft.enter_join, map_map_eq, map_map_eq]

/-- **A scan adds to the draft that it starts with**, and it fails alike whatever that draft is. -/
theorem scan_join (d e : Draft) (argv : List String) :
    scan (d.join e) argv = (scan e argv).map d.join := by
  fun_induction scan e argv with
  | case1 e =>
    rw [scan]
    rfl
  | case2 e token rest hpath ih =>
    rw [scan, if_pos hpath, Draft.addPaths_join]
    exact ih
  | case3 e rest hoption =>
    rw [scan, if_neg hoption, if_pos rfl, Draft.addPaths_join]
    rfl
  | case4 e token rest hoption hbare err hread =>
    rw [scan, if_neg hoption, if_neg hbare, readOption_join, hread]
    rfl
  | case5 e token rest hoption hbare next taken hread ih =>
    rw [scan, if_neg hoption, if_neg hbare, readOption_join, hread]
    exact ih

theorem scan_eq (d : Draft) (argv : List String) : scan d argv = (scan {} argv).map d.join := by
  conv_lhs => rw [← d.join_empty]
  exact scan_join d {} argv

end Framewise.Command
