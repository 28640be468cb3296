import Framewise.Proofs.Frames.Alignment
import Framewise.Proofs.View.Needs
import Framewise.Proofs.View.Windows

/-!
# What views read

Views read the series of the keys that their request mentions, and no others. So it makes no
difference which other keys are aligned with them.

* `ViewRequest.mem_keys`: the listed keys of a request are those that it mentions.
* `Frames.AgreeOn.map_eq`: what is read of every source, if only series that agree are read.
* `buildViews_congr`: views of frames that agree on the keys of the request.
* `buildViews_reads`: views of aligned frames, whatever other keys are aligned, and their lines.
-/

namespace Framewise

/-! ### The keys of a request -/

/-- A key that occurs somewhere in a request. -/
inductive ViewRequest.Mentions (r : ViewRequest) : String → Prop
  | timeseries {key : String} : key ∈ r.timeseries → r.Mentions key
  | cumulativeTimeseries {key : String} : key ∈ r.cumulativeTimeseries → r.Mentions key
  | hist {key : String} : key ∈ r.hist → r.Mentions key
  | numerator {p : RatioRequest} : p ∈ r.histRatio → r.Mentions p.numerator
  | denominator {p : RatioRequest} : p ∈ r.histRatio → r.Mentions p.denominator
  | window {w : WindowRequest} : w ∈ r.stdevHist → r.Mentions w.key
  | plotX {p : PlotRequest} : p ∈ r.plot → r.Mentions p.x
  | plotY {p : PlotRequest} : p ∈ r.plot → r.Mentions p.y
  | stats {key : String} : key ∈ r.stats → r.Mentions key

/-- **The listed keys are those that the request mentions.** -/
theorem ViewRequest.mem_keys {r : ViewRequest} {key : String} : key ∈ r.keys ↔ r.Mentions key := by
  unfold keys
  simp only [List.mem_eraseDups, List.mem_append, List.mem_flatMap, List.mem_map, List.mem_cons,
    List.not_mem_nil, or_false]
  constructor
  · rintro ((((((h | h) | h) | ⟨p, hp, rfl | rfl⟩) | ⟨w, hw, rfl⟩) | ⟨p, hp, rfl | rfl⟩) | h)
    · exact .timeseries h
    · exact .cumulativeTimeseries h
    · exact .hist h
    · exact .numerator hp
    · exact .denominator hp
    · exact .window hw
    · exact .plotX hp
    · exact .plotY hp
    · exact .stats h
  · intro h
    cases h with
    | timeseries h | cumulativeTimeseries h | hist h | stats h => simp [h]
    | @numerator p hp | @denominator p hp => grind
    | @window w hw => grind
    | @plotX p hp | @plotY p hp => grind

/-! ### Frames that agree -/

/-- Columns with the same series for some keys. -/
def Columns.AgreeOn (keys : List String) (columns columns' : Columns) : Prop :=
  ∀ key ∈ keys, columns.series key = columns'.series key

/-- What is read of each key is the same, if it is read of one of the keys. -/
theorem Columns.AgreeOn.map_series {β : Type} {keys requested : List String}
    {columns columns' : Columns} (h : AgreeOn keys columns columns') (hread : requested ⊆ keys)
    (f : String → Series → β) :
    (requested.map fun key => f key (columns.series key)) =
      requested.map fun key => f key (columns'.series key) := by
  apply List.map_congr_left
  intro key hkey
  rw [h key (hread hkey)]

/-- Frames with the same sources in the same order, which agree on some keys. -/
structure Frames.AgreeOn (keys : List String) (frames frames' : Frames) : Prop where
  names : OrderedMap.keys frames = OrderedMap.keys frames'
  columns : ∀ name columns columns', frames.get? name = some columns →
    frames'.get? name = some columns' → Columns.AgreeOn keys columns columns'

namespace Frames.AgreeOn

variable {keys : List String} {frames frames' : Frames}

/-- **What is read of every source is the same**, if no other series are read. -/
theorem map_eq {β : Type} (h : AgreeOn keys frames frames') {f : String × Columns → β}
    (hf : ∀ name columns columns', Columns.AgreeOn keys columns columns' →
      f (name, columns) = f (name, columns')) :
    frames.entries.map f = frames'.entries.map f := by
  have hnames : List.Forall₂ (fun s s' => s.1 = s'.1) frames.entries frames'.entries := by
    rw [← List.forall₂_map_right_iff, ← List.forall₂_map_left_iff, List.forall₂_eq_eq_eq]
    exact h.names
  -- Sources of the same name stand in the same place, so they are compared pair by pair.
  obtain ⟨hlength, hname⟩ := List.forall₂_iff_zip.1 hnames
  rw [← List.forall₂_eq_eq_eq, List.forall₂_map_left_iff, List.forall₂_map_right_iff]
  apply List.forall₂_iff_zip.2
  refine ⟨hlength, ?_⟩
  rintro ⟨name, columns⟩ ⟨name', columns'⟩ hpair
  obtain rfl : name = name' := hname hpair
  obtain ⟨hmem, hmem'⟩ := List.of_mem_zip hpair
  apply hf
  exact h.columns name columns columns' (OrderedMap.get?_eq_some_iff.2 hmem)
    (OrderedMap.get?_eq_some_iff.2 hmem')

/-! ### Builders -/

theorem lines_congr (h : AgreeOn keys frames frames') {requested : List String}
    (hread : requested ⊆ keys) (addSum : Bool) (change : Series → Series) :
    frames.lines requested addSum change = frames'.lines requested addSum change := by
  unfold lines
  rw [List.flatMap_def, List.flatMap_def, h.map_eq]
  intro name columns columns' hagree
  have hseries : requested.map columns.series = requested.map columns'.series :=
    hagree.map_series hread fun _ series => series
  dsimp only [sourceLines]
  rw [hseries]
  congr 1
  exact hagree.map_series hread fun key series =>
    TimeLine.mk (label key name) name key _ (change series)

theorem histogramView_congr (h : AgreeOn keys frames frames') {requested : List String}
    (hread : requested ⊆ keys) :
    frames.histogramView requested = frames'.histogramView requested := by
  unfold histogramView
  rw [List.flatMap_def, List.flatMap_def, h.map_eq]
  intro name columns columns' hagree
  exact hagree.map_series hread fun key series => Tally.mk name key series.present

theorem ratioView_congr (h : AgreeOn keys frames frames') {pairs : List RatioRequest}
    (hread : ∀ p ∈ pairs, p.numerator ∈ keys ∧ p.denominator ∈ keys) :
    frames.ratioView pairs = frames'.ratioView pairs := by
  unfold ratioView
  rw [List.flatMap_def, List.flatMap_def, h.map_eq]
  intro name columns columns' hagree
  apply List.map_congr_left
  intro p hp
  obtain ⟨hnumerator, hdenominator⟩ := hread p hp
  rw [hagree _ hnumerator, hagree _ hdenominator]

/-- The first source is one of the sources. -/
theorem reference_congr (h : AgreeOn keys frames frames') {key : String} (hread : key ∈ keys) :
    frames.reference key = frames'.reference key := by
  have hseries : (frames.entries.map fun s => s.2.series key) =
      frames'.entries.map fun s => s.2.series key := by
    apply h.map_eq
    intro name columns columns' hagree
    exact hagree key hread
  rw [reference_eq, reference_eq, ← List.head?_map, ← List.head?_map, hseries]

theorem windowView_congr (h : AgreeOn keys frames frames') {w : WindowRequest}
    (hread : w.key ∈ keys) : frames.windowView w = frames'.windowView w := by
  dsimp only [windowView]
  -- The window is the same, and so is what each source has in it.
  rw [h.reference_congr hread]
  congr 1
  funext center
  congr 1
  funext deviation
  congr 1
  apply h.map_eq
  intro name columns columns' hagree
  rw [hagree _ hread]

theorem plotView_congr (h : AgreeOn keys frames frames') {plots : List PlotRequest}
    (hread : ∀ p ∈ plots, p.x ∈ keys ∧ p.y ∈ keys) :
    frames.plotView plots = frames'.plotView plots := by
  unfold plotView
  rw [List.flatMap_def, List.flatMap_def, h.map_eq]
  intro name columns columns' hagree
  apply List.map_congr_left
  intro p hp
  obtain ⟨hx, hy⟩ := hread p hp
  rw [hagree _ hx, hagree _ hy]

theorem statisticsView_congr (h : AgreeOn keys frames frames') {requested : List String}
    (hread : requested ⊆ keys) (addSum : Bool) :
    frames.statisticsView requested addSum = frames'.statisticsView requested addSum := by
  unfold statisticsView
  congr 1
  apply mapM_congr
  apply h.map_eq
  intro name columns columns' hagree
  have hseries : requested.map columns.series = requested.map columns'.series :=
    hagree.map_series hread fun _ series => series
  unfold sourceRows
  -- The row of sums reads all series at once.
  rw [hseries]
  congr 1
  apply mapM_congr
  exact hagree.map_series hread fun key series => summarize name key series.present

end Frames.AgreeOn

/-- **Views read the keys of their request only**: frames that agree on them have the same views, or
the same shortfall. -/
theorem buildViews_congr {frames frames' : Frames} {r : ViewRequest}
    (h : Frames.AgreeOn r.keys frames frames') : buildViews frames r = buildViews frames' r := by
  have htime : r.timeseries ⊆ r.keys := fun _ hkey => r.mem_keys.2 (.timeseries hkey)
  have htotals : r.cumulativeTimeseries ⊆ r.keys := fun _ hkey =>
    r.mem_keys.2 (.cumulativeTimeseries hkey)
  have hhist : r.hist ⊆ r.keys := fun _ hkey => r.mem_keys.2 (.hist hkey)
  have hratio : ∀ p ∈ r.histRatio, p.numerator ∈ r.keys ∧ p.denominator ∈ r.keys := fun _ hp =>
    ⟨r.mem_keys.2 (.numerator hp), r.mem_keys.2 (.denominator hp)⟩
  have hwindows : r.stdevHist.mapM frames.windowView = r.stdevHist.mapM frames'.windowView := by
    apply mapM_congr
    apply List.map_congr_left
    intro w hw
    exact h.windowView_congr (r.mem_keys.2 (.window hw))
  have hplot : ∀ p ∈ r.plot, p.x ∈ r.keys ∧ p.y ∈ r.keys := fun _ hp =>
    ⟨r.mem_keys.2 (.plotX hp), r.mem_keys.2 (.plotY hp)⟩
  have hstats : r.stats ⊆ r.keys := fun _ hkey => r.mem_keys.2 (.stats hkey)
  unfold buildViews Frames.timeView Frames.totalsView
  rw [h.lines_congr htime, h.lines_congr htotals, h.histogramView_congr hhist,
    h.ratioView_congr hratio, hwindows, h.plotView_congr hplot, h.statisticsView_congr hstats]

/-! ### Aligned frames -/

/-- Other keys that are aligned as well make no difference to the series of a key. -/
theorem Sources.agreeOn_align (sources : Sources) (range : FrameRange)
    {read keys keys' : List String} (hread : read ⊆ keys) (hread' : read ⊆ keys') :
    Frames.AgreeOn read (sources.align keys range) (sources.align keys' range) := by
  constructor
  · rw [names_align, names_align]
  · intro name columns columns' hcolumns hcolumns' key hkey
    rw [get?_align] at hcolumns hcolumns'
    obtain ⟨records, hrecords, rfl⟩ := Option.map_eq_some_iff.1 hcolumns
    rw [hrecords] at hcolumns'
    obtain rfl := Option.some.inj hcolumns'
    rw [Columns.series_ofRange, Columns.series_ofRange, if_pos (hread hkey), if_pos (hread' hkey)]

/-- Lines over time have an entry for each of their frames, which are numbered from zero. Other
views have no such lines. -/
def View.Full : View → Prop
  | .time _ lines => ∀ line ∈ lines, line.x = List.range line.y.length
  | .histogram .. | .plot _ | .statistics _ => True

/-- **Lines over time are full** if the series of a source are equally long. -/
theorem Frames.full_lines {frames : Frames} {keys : List String} (kind : TimeKind) (addSum : Bool)
    {change : Series → Series} (hchange : ∀ s, (change s).length = s.length)
    (hlength : ∀ s ∈ frames.entries, ∃ n, ∀ key ∈ keys, (s.2.series key).length = n) :
    (View.time kind (frames.lines keys addSum change)).Full := by
  intro line hline
  obtain ⟨⟨source, columns⟩, hsource, hmem⟩ := List.mem_flatMap.1 hline
  dsimp only [sourceLines] at hmem
  rcases List.mem_append.1 hmem with hkeys | hsum
  · obtain ⟨key, hkey, rfl⟩ := List.mem_map.1 hkeys
    obtain ⟨n, hn⟩ := hlength _ hsource
    have hlongest : Series.longest (keys.map columns.series) = n := by
      apply Series.longest_eq (List.ne_nil_of_mem (List.mem_map_of_mem hkey))
      exact List.forall_mem_map.2 hn
    rw [hlongest, hchange, hn key hkey]
  · -- The sum goes on to the end of the longest series, however long they are.
    split at hsum
    · obtain rfl := List.mem_singleton.1 hsum
      rw [hchange, Series.length_sumByFrame]
    · cases hsum

theorem Builds.full {builder : Except Shortfall View} {kind : String} (h : Builds builder kind)
    (hvalues : TimeKind.values.name ≠ kind) (htotals : TimeKind.totals.name ≠ kind) :
    ∀ v, builder = .ok v → v.Full := by
  intro v hv
  cases v with
  | time k lines =>
    cases k with
    | values => exact absurd (h _ hv) hvalues
    | totals => exact absurd (h _ hv) htotals
  | histogram kind edges histograms => trivial
  | plot lines => trivial
  | statistics rows => trivial

/-- The series of a source are cut to the same range, so they are equally long. -/
theorem Sources.length_align (sources : Sources) (keys : List String) (range : FrameRange) :
    ∀ s ∈ (sources.align keys range).entries, ∃ n, ∀ key ∈ keys, (s.2.series key).length = n := by
  rintro ⟨name, columns⟩ hs
  have hcolumns := OrderedMap.get?_eq_some_iff.2 hs
  rw [get?_align] at hcolumns
  obtain ⟨records, -, rfl⟩ := Option.map_eq_some_iff.1 hcolumns
  refine ⟨(range.cut records).length, ?_⟩
  intro key hkey
  rw [Columns.series_ofRange, if_pos hkey, List.length_map]

/-- All views are full if those with lines over time are. -/
theorem full_of_buildViews {frames : Frames} {r : ViewRequest}
    (htime : (frames.timeView r.timeseries r.timeseriesSum).Full)
    (htotals : (frames.totalsView r.cumulativeTimeseries r.cumulativeTimeseriesSum).Full)
    {views : List View} (h : buildViews frames r = .ok views) : ∀ v ∈ views, v.Full := by
  have hbuilders : ∀ builder ∈ r.builders frames, ∀ v, builder = .ok v → v.Full := by
    have hok : ∀ {view : View}, view.Full →
        ∀ v, (.ok view : Except Shortfall View) = .ok v → v.Full := by
      intro view hfull v hv
      obtain rfl := Except.ok.inj hv
      exact hfull
    unfold ViewRequest.builders
    simp only [List.forall_mem_append, forall_mem_asked, List.forall_mem_map]
    refine ⟨⟨⟨⟨⟨⟨.inr (hok htime), .inr (hok htotals)⟩, .inr ?_⟩, .inr ?_⟩, ?_⟩, .inr ?_⟩, .inr ?_⟩
    · exact (builds_sharedHistogram _ _ _).full (by decide) (by decide)
    · exact (builds_sharedHistogram _ _ _).full (by decide) (by decide)
    · intro w _
      exact (builds_windowView frames w).full (by decide) (by decide)
    · exact hok trivial
    · exact (builds_statisticsView _ _ _).full (by decide) (by decide)
  intro v hv
  apply hbuilders (.ok v) _ v rfl
  rw [builders_eq h]
  exact List.mem_map_of_mem hv

/-- **The keys of a request are all that its views read.**

* They are those that the request mentions, each once.
* Frames with the same sources that agree on them have the same views or the same shortfall.
* So it makes no difference whether only they are aligned or other keys too, such as all keys there
  are, in whatever order. In frames aligned in this way each line over time, those of sums included,
  has an entry for each of its frames. -/
theorem buildViews_reads (r : ViewRequest) :
    (r.keys.Nodup ∧ ∀ key, key ∈ r.keys ↔ r.Mentions key) ∧
    (∀ frames frames' : Frames, Frames.AgreeOn r.keys frames frames' →
      buildViews frames r = buildViews frames' r) ∧
    ∀ (sources : Sources) (range : FrameRange) (keys : List String), r.keys ⊆ keys →
      buildViews (sources.align keys range) r = buildViews (sources.align r.keys range) r ∧
      ((sources.align keys range).timeView r.timeseries r.timeseriesSum).Full ∧
      ((sources.align keys range).totalsView r.cumulativeTimeseries
        r.cumulativeTimeseriesSum).Full ∧
      ∀ views, buildViews (sources.align keys range) r = .ok views → ∀ v ∈ views, v.Full := by
  refine ⟨⟨nodup_eraseDups _, fun _ => r.mem_keys⟩, fun _ _ => buildViews_congr, ?_⟩
  intro sources range keys hkeys
  have hlength := sources.length_align keys range
  have htime : ((sources.align keys range).timeView r.timeseries r.timeseriesSum).Full := by
    apply Frames.full_lines _ _ fun _ => rfl
    intro s hs
    obtain ⟨n, hn⟩ := hlength s hs
    exact ⟨n, fun key hkey => hn key (hkeys (r.mem_keys.2 (.timeseries hkey)))⟩
  have htotals : ((sources.align keys range).totalsView r.cumulativeTimeseries
      r.cumulativeTimeseriesSum).Full := by
    apply Frames.full_lines _ _ Series.length_runningTotal
    intro s hs
    obtain ⟨n, hn⟩ := hlength s hs
    exact ⟨n, fun key hkey => hn key (hkeys (r.mem_keys.2 (.cumulativeTimeseries hkey)))⟩
  refine ⟨?_, htime, htotals, fun _ => full_of_buildViews htime htotals⟩
  exact buildViews_congr (sources.agreeOn_align range hkeys (List.Subset.refl _))

/-- A key that is not requested may be left out of the frames, and of the alignment of a log where
the requested keys have gaps. -/
theorem buildViews_reads_hidden :
    let r : ViewRequest := { timeseries := ["n", "m"], timeseriesSum := true, hist := ["m"] }
    let frames : Frames := .ofList [("a.log",
      .ofList [("n", [some 1, none]), ("hidden", [some 5]), ("m", [some 2, some 3])])]
    let frames' : Frames := .ofList [("a.log",
      .ofList [("m", [some 2, some 3]), ("n", [some 1, none])])]
    let sources : Sources := .ofList [("a.log",
      [.ofList [("n", 1), ("hidden", 5)], .ofList [("m", 3)]])]
    r.keys = ["n", "m"] ∧ buildViews frames r = buildViews frames' r ∧
      buildViews (sources.align (sources.keys ++ r.keys) {}) r =
        buildViews (sources.align r.keys {}) r ∧
      ∃ views, buildViews (sources.align (sources.keys ++ r.keys) {}) r = .ok views ∧
        ∀ v ∈ views, v.Full := by
  intro r frames frames' sources
  have hagree : Frames.AgreeOn r.keys frames frames' := by
    refine ⟨by decide, ?_⟩
    intro name columns columns' h h'
    obtain heq := List.mem_singleton.1 (OrderedMap.get?_eq_some_iff.1 h)
    obtain heq' := List.mem_singleton.1 (OrderedMap.get?_eq_some_iff.1 h')
    obtain ⟨rfl, rfl⟩ := Prod.mk.inj heq
    obtain ⟨-, rfl⟩ := Prod.mk.inj heq'
    show ∀ key ∈ r.keys, _
    decide +kernel
  obtain ⟨-, hcongr, haligned⟩ := buildViews_reads r
  obtain ⟨heq, -, -, hfull⟩ :=
    haligned sources {} (sources.keys ++ r.keys) (List.subset_append_right _ _)
  refine ⟨by decide, hcongr frames frames' hagree, heq, ?_⟩
  have hok : (buildViews (sources.align (sources.keys ++ r.keys) {}) r).toBool = true := by
    rw [heq]
    decide +kernel
  obtain ⟨views, hviews⟩ := exists_eq_ok hok
  exact ⟨views, hviews, hfull views hviews⟩

end Framewise
