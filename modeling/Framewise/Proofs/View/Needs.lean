import Framewise.Proofs.Outcome
import Framewise.Proofs.Series
import Framewise.View.Build

/-!
# What views need

Histograms need a value to count, and windows and statistics need two. The needs of a request are
listed in the order in which its views are built; building fails for the first one that is not met.

* `Wants`: a computation that fails for the first of some needs that is not met.
* `Wants.bind`, `Wants.mapM`: needs of computations one after the other.
* `wants_sourceRows`: the row of sums needs nothing that the rows of its keys do not need.
* `buildViews_complete`: when building succeeds, how it fails, and which views it gives.
-/

namespace Framewise

/-! ### Needs -/

/-- Something that has to be there before a view can be built. -/
inductive Need where
  /-- A value of one of the keys in some source. -/
  | value (keys : List String)
  /-- A finite quotient of one of the pairs in some source. -/
  | quotient (pairs : List RatioRequest)
  /-- A sample of two values. The operation is the one that fails if there is none. -/
  | sample (operation : Operation) (values : List Float)

/-- Whether frames have what is needed. -/
def Need.Met (frames : Frames) : Need → Prop
  | .value keys => ∃ s ∈ frames.entries, ∃ key ∈ keys, ∃ x, some x ∈ s.2.series key
  | .quotient pairs => ∃ s ∈ frames.entries, ∃ p ∈ pairs, ∃ (i : ℕ) (a b : Float),
      (s.2.series p.numerator)[i]? = some (some a) ∧
      (s.2.series p.denominator)[i]? = some (some b) ∧ (a / b).isFinite = true
  | .sample _ values => 2 ≤ values.length

/-- What is said of a need that is not met. -/
def Need.shortfall : Need → Shortfall
  | .value _ => ⟨.histogram, 1, 0⟩
  | .quotient _ => ⟨.ratioHistogram, 1, 0⟩
  | .sample operation values =>
    if values.length = 0 then ⟨operation, 1, 0⟩ else ⟨.stdev, 2, 1⟩

/-- The first need that is not met has this shortfall. -/
inductive FirstUnmet (frames : Frames) : List Need → Shortfall → Prop
  | here {need : Need} {needs : List Need} : ¬ need.Met frames →
      FirstUnmet frames (need :: needs) need.shortfall
  | later {need : Need} {needs : List Need} {s : Shortfall} : need.Met frames →
      FirstUnmet frames needs s → FirstUnmet frames (need :: needs) s

section

variable {frames : Frames}

theorem not_firstUnmet_nil {s : Shortfall} : ¬ FirstUnmet frames [] s := by
  intro h
  cases h

/-- A single need is the first that is not met, or there is none. -/
theorem firstUnmet_singleton {need : Need} {s : Shortfall} :
    FirstUnmet frames [need] s ↔ ¬ need.Met frames ∧ s = need.shortfall := by
  constructor
  · intro h
    cases h with
    | here hunmet => exact ⟨hunmet, rfl⟩
    | later _ hrest => exact absurd hrest not_firstUnmet_nil
  · rintro ⟨hunmet, rfl⟩
    exact .here hunmet

/-- Needs that come later matter only if all before them are met. -/
theorem firstUnmet_append {needs more : List Need} {s : Shortfall} :
    FirstUnmet frames (needs ++ more) s ↔
      FirstUnmet frames needs s ∨ (∀ need ∈ needs, need.Met frames) ∧ FirstUnmet frames more s := by
  induction needs with
  | nil => simp [not_firstUnmet_nil]
  | cons need needs ih =>
    rw [List.cons_append, List.forall_mem_cons]
    constructor
    · intro h
      cases h with
      | here hunmet => exact .inl (.here hunmet)
      | later hmet hrest =>
        rcases ih.1 hrest with hfirst | ⟨hall, hmore⟩
        · exact .inl (.later hmet hfirst)
        · exact .inr ⟨⟨hmet, hall⟩, hmore⟩
    · rintro (h | ⟨⟨hmet, hall⟩, hmore⟩)
      · cases h with
        | here hunmet => exact .here hunmet
        | later hmet hrest => exact .later hmet (ih.2 (.inl hrest))
      · exact .later hmet (ih.2 (.inr ⟨hall, hmore⟩))

/-- Either all needs are met or there is a first one that is not. -/
theorem forall_met_iff {needs : List Need} :
    (∀ need ∈ needs, need.Met frames) ↔ ∀ s, ¬ FirstUnmet frames needs s := by
  induction needs with
  | nil => simp [not_firstUnmet_nil]
  | cons need needs ih =>
    rw [List.forall_mem_cons, ih]
    constructor
    · rintro ⟨hmet, hrest⟩ s h
      cases h with
      | here hunmet => exact hunmet hmet
      | later _ hlater => exact hrest s hlater
    · intro h
      have hmet : need.Met frames := by
        by_contra hunmet
        exact h _ (.here hunmet)
      exact ⟨hmet, fun s hlater => h s (.later hmet hlater)⟩

/-! ### Computations with needs -/

/-- A computation that fails for the first need that is not met, and in no other way. -/
def Wants (frames : Frames) {α : Type} (x : Except Shortfall α) (needs : List Need) : Prop :=
  ∀ s, x = .error s ↔ FirstUnmet frames needs s

variable {α β : Type}

/-- It succeeds exactly if all needs are met. -/
theorem Wants.ok_iff {x : Except Shortfall α} {needs : List Need} (h : Wants frames x needs) :
    (∃ a, x = .ok a) ↔ ∀ need ∈ needs, need.Met frames := by
  rw [forall_met_iff]
  constructor
  · rintro ⟨a, rfl⟩ s hs
    exact absurd ((h s).2 hs) (by simp)
  · intro hall
    cases x with
    | ok a => exact ⟨a, rfl⟩
    | error s => exact absurd ((h s).1 rfl) (hall s)

/-- A value that is there needs nothing. -/
theorem wants_ok (frames : Frames) (a : α) : Wants frames (.ok a) [] := by
  intro s
  constructor
  · intro h
    cases h
  · intro h
    exact absurd h not_firstUnmet_nil

/-- Changing the result changes no need. -/
theorem Wants.map {x : Except Shortfall α} {needs : List Need} (h : Wants frames x needs)
    (f : α → β) : Wants frames (x.map f) needs := by
  intro s
  rw [← h s]
  cases x with
  | ok a => simp [Except.map]
  | error s' => simp [Except.map]

/-- **One computation after the other**: the needs of the second one come later. -/
theorem Wants.bind {x : Except Shortfall α} {f : α → Except Shortfall β} {needs more : List Need}
    (hx : Wants frames x needs) (hf : ∀ a, x = .ok a → Wants frames (f a) more) :
    Wants frames (x.bind f) (needs ++ more) := by
  intro s
  rw [firstUnmet_append, ← hx s, ← hx.ok_iff]
  cases x with
  | ok a =>
    show f a = .error s ↔ _
    rw [hf a rfl s]
    simp
  | error s' =>
    show Except.error s' = Except.error s ↔ _
    simp

/-- **One computation for each element of a list.** -/
theorem Wants.mapM {f : α → Except Shortfall β} {l : List α} {needs : List (List Need)}
    (h : List.Forall₂ (fun a needs => Wants frames (f a) needs) l needs) :
    Wants frames (l.mapM f) needs.flatten := by
  induction h with
  | nil => exact wants_ok frames []
  | cons hfirst _ ih =>
    rw [mapM_cons_eq, List.flatten_cons]
    apply hfirst.bind
    intro b _
    exact ih.map (b :: ·)

/-- The same computation for each element, with needs of its own. -/
theorem Wants.mapM_flatMap {f : α → Except Shortfall β} {needs : α → List Need}
    (h : ∀ a, Wants frames (f a) (needs a)) (l : List α) :
    Wants frames (l.mapM f) (l.flatMap needs) := by
  rw [List.flatMap_def]
  apply Wants.mapM
  rw [List.forall₂_map_right_iff]
  apply List.forall₂_same.2
  intro a _
  exact h a

/-- The same computation for each element, with one need each. -/
theorem Wants.mapM_map {f : α → Except Shortfall β} {need : α → Need}
    (h : ∀ a, Wants frames (f a) [need a]) (l : List α) :
    Wants frames (l.mapM f) (l.map need) := by
  rw [List.map_eq_flatMap]
  exact Wants.mapM_flatMap h l

/-! ### Builders -/

/-- Histograms with shared edges need a value in one of the tallies. -/
theorem sharedHistogram_eq_error_iff {kind : HistogramKind} {operation : Operation}
    {tallies : List Frames.Tally} {s : Shortfall} :
    Frames.sharedHistogram kind operation tallies = .error s ↔
      (¬ ∃ t ∈ tallies, ∃ x, x ∈ t.values) ∧ s = ⟨operation, 1, 0⟩ := by
  unfold Frames.sharedHistogram
  cases hall : tallies.flatMap Frames.Tally.values with
  | nil =>
    have hnone : ¬ ∃ t ∈ tallies, ∃ x, x ∈ t.values := by
      rintro ⟨t, ht, x, hx⟩
      have hmem : x ∈ tallies.flatMap Frames.Tally.values := List.mem_flatMap.2 ⟨t, ht, hx⟩
      rw [hall] at hmem
      cases hmem
    simp [hnone, eq_comm]
  | cons x xs =>
    have hsome : ∃ t ∈ tallies, ∃ x, x ∈ t.values := by
      obtain ⟨t, ht, hx⟩ := List.mem_flatMap.1 (hall ▸ List.mem_cons_self : x ∈ _)
      exact ⟨t, ht, x, hx⟩
    simp [hsome]

/-- Two values or more are enough; of fewer, the computation misses the first or the second. -/
theorem wants_sample {x : Except Shortfall α} {operation : Operation} {values : List Float}
    (h : ∀ s, x = .error s ↔ values.length = 0 ∧ s = ⟨operation, 1, 0⟩ ∨
      values.length = 1 ∧ s = ⟨.stdev, 2, 1⟩) :
    Wants frames x [.sample operation values] := by
  intro s
  rw [h s, firstUnmet_singleton]
  show _ ↔ ¬ 2 ≤ values.length ∧ s = if values.length = 0 then _ else _
  split
  · next hzero => simp [hzero]
  · next hpos =>
    have hone : values.length = 1 ↔ ¬ 2 ≤ values.length := by omega
    simp [hpos, hone]

/-- Histograms need a value of one of the keys in some source. -/
theorem wants_histogramView (frames : Frames) (keys : List String) :
    Wants frames (frames.histogramView keys) [.value keys] := by
  intro s
  unfold Frames.histogramView
  rw [sharedHistogram_eq_error_iff, firstUnmet_singleton]
  apply and_congr _ Iff.rfl
  apply not_congr
  constructor
  · rintro ⟨t, ht, x, hx⟩
    obtain ⟨source, hsource, htally⟩ := List.mem_flatMap.1 ht
    obtain ⟨key, hkey, rfl⟩ := List.mem_map.1 htally
    exact ⟨source, hsource, key, hkey, x, Series.mem_present.1 hx⟩
  · rintro ⟨source, hsource, key, hkey, x, hx⟩
    exact ⟨_, List.mem_flatMap.2 ⟨source, hsource, List.mem_map.2 ⟨key, hkey, rfl⟩⟩, x,
      Series.mem_present.2 hx⟩

/-- Ratio histograms need a finite quotient in some source. -/
theorem wants_ratioView (frames : Frames) (pairs : List RatioRequest) :
    Wants frames (frames.ratioView pairs) [.quotient pairs] := by
  intro s
  unfold Frames.ratioView
  rw [sharedHistogram_eq_error_iff, firstUnmet_singleton]
  apply and_congr _ Iff.rfl
  apply not_congr
  constructor
  · rintro ⟨t, ht, x, hx⟩
    obtain ⟨source, hsource, htally⟩ := List.mem_flatMap.1 ht
    obtain ⟨p, hp, rfl⟩ := List.mem_map.1 htally
    obtain ⟨i, a, b, ha, hb, hfinite, -⟩ := Series.mem_ratios.1 hx
    exact ⟨source, hsource, p, hp, i, a, b, ha, hb, hfinite⟩
  · rintro ⟨source, hsource, p, hp, i, a, b, ha, hb, hfinite⟩
    exact ⟨_, List.mem_flatMap.2 ⟨source, hsource, List.mem_map.2 ⟨p, hp, rfl⟩⟩, a / b,
      Series.mem_ratios.2 ⟨i, a, b, ha, hb, hfinite, rfl⟩⟩

/-- A window needs two values of its key in the first source. -/
theorem wants_windowView (frames : Frames) (w : WindowRequest) :
    Wants frames (frames.windowView w) [.sample .median (frames.reference w.key)] := by
  apply wants_sample
  intro s
  unfold Frames.windowView
  match frames.reference w.key with
  | [] => simp [Sample.median, Sample.require, Except.bind, Except.map, eq_comm]
  | [x] => simp [Sample.median, Sample.stdev, Sample.require, Except.bind, Except.map, eq_comm]
  | x :: y :: values =>
    have h : ¬ values.length + 1 + 1 < 2 := by omega
    simp [Sample.median, Sample.stdev, Sample.require, Except.bind, Except.map, h]

theorem wants_summarize (frames : Frames) (source key : String) (values : List Float) :
    Wants frames (summarize source key values) [.sample .min values] :=
  wants_sample (summarize_eq_error_iff source key values)

/-- Needs that are met can be left out. -/
theorem Wants.of_met {x : Except Shortfall α} {needs : List Need} (h : Wants frames x needs)
    (hmet : ∀ need ∈ needs, need.Met frames) : Wants frames x [] := by
  obtain ⟨a, rfl⟩ := h.ok_iff.2 hmet
  exact wants_ok frames a

theorem wants_rows (frames : Frames) (source : String) (columns : Columns) (keys : List String) :
    Wants frames (keys.mapM fun key => summarize source key (columns.series key).present)
      (keys.map fun key => .sample .min (columns.series key).present) :=
  .mapM_map (fun key => wants_summarize frames source key _) keys

/-- **The row of sums needs nothing more.** There is a sum for each frame where one of the keys has
a value, so where each of them has two values there are two sums. -/
theorem wants_sourceRows (frames : Frames) (source : String) (columns : Columns)
    {keys : List String} (hne : keys ≠ []) (addSum : Bool) :
    Wants frames (Frames.sourceRows source columns keys addSum)
      (keys.map fun key => .sample .min (columns.series key).present) := by
  have hrows := wants_rows frames source columns keys
  rw [← List.append_nil (keys.map _)]
  apply hrows.bind
  intro rows hok
  cases addSum with
  | false => exact wants_ok frames rows
  | true =>
    -- One key is enough, and without keys there are no rows.
    obtain ⟨key, hkey⟩ := List.exists_mem_of_ne_nil keys hne
    have htwo : 2 ≤ (columns.series key).present.length :=
      hrows.ok_iff.1 ⟨rows, hok⟩ _ (List.mem_map_of_mem hkey)
    have hsums := Series.length_present_le (List.mem_map_of_mem hkey : columns.series key ∈ _)
    have hmet : ∀ need ∈ [Need.sample .min (Series.sumOfFrames (keys.map columns.series))],
        need.Met frames := by
      intro need hneed
      obtain rfl := List.mem_singleton.1 hneed
      exact htwo.trans hsums
    exact ((wants_summarize frames source sumKey _).of_met hmet).map _

/-- The needs of statistics, source by source and key by key. -/
def Frames.rowNeeds (frames : Frames) (keys : List String) : List Need :=
  frames.entries.flatMap fun s => keys.map fun key => .sample .min (s.2.series key).present

theorem wants_statisticsView (frames : Frames) {keys : List String} (hne : keys ≠ [])
    (addSum : Bool) : Wants frames (frames.statisticsView keys addSum) (frames.rowNeeds keys) := by
  apply Wants.map
  apply Wants.mapM_flatMap
  intro s
  exact wants_sourceRows frames s.1 s.2 hne addSum

end

/-! ### Requests -/

/-- Something that is there once if a list of requests is not empty. -/
def asked {α β : Type} (requested : List α) (b : β) : List β :=
  if requested.isEmpty then [] else [b]

/-- The needs of a request, in the order in which its views are built. -/
def ViewRequest.needs (r : ViewRequest) (frames : Frames) : List Need :=
  asked r.hist (.value r.hist) ++ asked r.histRatio (.quotient r.histRatio) ++
    r.stdevHist.map (fun w => .sample .median (frames.reference w.key)) ++ frames.rowNeeds r.stats

theorem wants_unlessEmpty {frames : Frames} {α : Type} {requested : List α}
    {view : Except Shortfall View} {needs : List Need}
    (hempty : requested = [] → needs = []) (hview : requested ≠ [] → Wants frames view needs) :
    Wants frames (unlessEmpty requested view) needs := by
  cases requested with
  | nil =>
    rw [hempty rfl]
    exact wants_ok frames []
  | cons a requested => exact (hview (List.cons_ne_nil a requested)).map _

theorem wants_asked {frames : Frames} {α : Type} {requested : List α}
    {view : Except Shortfall View} {need : Need} (h : Wants frames view [need]) :
    Wants frames (unlessEmpty requested view) (asked requested need) := by
  cases requested with
  | nil => exact wants_ok frames []
  | cons a requested => exact h.map _

theorem wants_windowViews (frames : Frames) (ws : List WindowRequest) :
    Wants frames (ws.mapM frames.windowView)
      (ws.map fun w => .sample .median (frames.reference w.key)) :=
  .mapM_map (wants_windowView frames) ws

/-- **Building fails for the first need that is not met.** -/
theorem wants_buildViews (frames : Frames) (r : ViewRequest) :
    Wants frames (buildViews frames r) (r.needs frames) := by
  have hstats : Wants frames (unlessEmpty r.stats (frames.statisticsView r.stats r.statsSum))
      (frames.rowNeeds r.stats) := by
    apply wants_unlessEmpty
    · intro hnil
      unfold Frames.rowNeeds
      simp [hnil]
    · intro hne
      exact wants_statisticsView frames hne r.statsSum
  have hfree : ∀ {α : Type} (requested : List α) (view : View),
      Wants frames (unlessEmpty requested (.ok view)) [] := by
    intro α requested view
    exact wants_unlessEmpty (fun _ => rfl) fun _ => wants_ok frames view
  have hneeds : r.needs frames = [[], [], asked r.hist (.value r.hist),
      asked r.histRatio (.quotient r.histRatio),
      r.stdevHist.map (fun w => .sample .median (frames.reference w.key)), [],
      frames.rowNeeds r.stats].flatten := by
    unfold ViewRequest.needs
    simp
  rw [hneeds]
  apply Wants.map
  apply Wants.mapM
  refine .cons (hfree _ _) (.cons (hfree _ _) (.cons ?_ (.cons ?_ (.cons ?_ (.cons (hfree _ _)
    (.cons hstats .nil))))))
  · exact wants_asked (wants_histogramView frames r.hist)
  · exact wants_asked (wants_ratioView frames r.histRatio)
  · exact wants_windowViews frames r.stdevHist

/-- Frames that have what a request needs. -/
structure Frames.Suffice (frames : Frames) (r : ViewRequest) : Prop where
  hist : r.hist = [] ∨
    ∃ s ∈ frames.entries, ∃ key ∈ r.hist, ∃ x, some x ∈ s.2.series key
  histRatio : r.histRatio = [] ∨
    ∃ s ∈ frames.entries, ∃ p ∈ r.histRatio, ∃ (i : ℕ) (a b : Float),
      (s.2.series p.numerator)[i]? = some (some a) ∧
      (s.2.series p.denominator)[i]? = some (some b) ∧ (a / b).isFinite = true
  stdevHist : ∀ w ∈ r.stdevHist, ∃ first rest, frames.entries = first :: rest ∧
    2 ≤ (first.2.series w.key).present.length
  stats : r.stats = [] ∨
    ∀ s ∈ frames.entries, ∀ key ∈ r.stats, 2 ≤ (s.2.series key).present.length

theorem forall_mem_asked {α β : Type} {requested : List α} {b : β} {P : β → Prop} :
    (∀ x ∈ asked requested b, P x) ↔ requested = [] ∨ P b := by
  unfold asked
  cases requested with
  | nil => simp
  | cons a requested => simp

/-- The sample of a window is that of the first source. -/
theorem two_le_reference_iff {frames : Frames} {key : String} :
    2 ≤ (frames.reference key).length ↔ ∃ first rest, frames.entries = first :: rest ∧
      2 ≤ (first.2.series key).present.length := by
  unfold Frames.reference
  cases frames.entries with
  | nil => simp
  | cons first rest => simp

theorem suffice_iff {frames : Frames} {r : ViewRequest} :
    frames.Suffice r ↔ ∀ need ∈ r.needs frames, need.Met frames := by
  unfold ViewRequest.needs Frames.rowNeeds
  simp only [List.forall_mem_append, forall_mem_asked, List.forall_mem_map, List.forall_mem_flatMap,
    Need.Met, two_le_reference_iff]
  constructor
  · intro h
    refine ⟨⟨⟨h.hist, h.histRatio⟩, h.stdevHist⟩, ?_⟩
    intro s hs key hkey
    rcases h.stats with hnil | hall
    · rw [hnil] at hkey
      cases hkey
    · exact hall s hs key hkey
  · rintro ⟨⟨⟨hhist, hratio⟩, hwindows⟩, hstats⟩
    exact ⟨hhist, hratio, hwindows, .inr hstats⟩

/-! ### The views of a request -/

/-- What builds the views of a request, one after the other. -/
def ViewRequest.builders (r : ViewRequest) (frames : Frames) : List (Except Shortfall View) :=
  asked r.timeseries (.ok (frames.timeView r.timeseries r.timeseriesSum)) ++
    asked r.cumulativeTimeseries
      (.ok (frames.totalsView r.cumulativeTimeseries r.cumulativeTimeseriesSum)) ++
    asked r.hist (frames.histogramView r.hist) ++
    asked r.histRatio (frames.ratioView r.histRatio) ++ r.stdevHist.map frames.windowView ++
    asked r.plot (.ok (frames.plotView r.plot)) ++
    asked r.stats (frames.statisticsView r.stats r.statsSum)

/-- The kinds of the views of a request. -/
def ViewRequest.kinds (r : ViewRequest) : List String :=
  asked r.timeseries "timeseries" ++ asked r.cumulativeTimeseries "cumulative_timeseries" ++
    asked r.hist "hist" ++ asked r.histRatio "hist_ratio" ++
    r.stdevHist.map (fun _ => "stdev_hist") ++ asked r.plot "plot" ++ asked r.stats "stats"

/-- A part of the views and what builds it: if the part succeeds, so does each of its builders. -/
def Gives (part : Except Shortfall (List View)) (builders : List (Except Shortfall View)) : Prop :=
  ∀ views, part = .ok views → builders = views.map .ok

theorem gives_unlessEmpty {α : Type} (requested : List α) (view : Except Shortfall View) :
    Gives (unlessEmpty requested view) (asked requested view) := by
  intro views h
  cases requested with
  | nil =>
    obtain rfl := Except.ok.inj h
    rfl
  | cons a requested =>
    cases view with
    | error s => cases h
    | ok v =>
      obtain rfl := Except.ok.inj h
      rfl

theorem Gives.flatten {parts : List (Except Shortfall (List View))}
    {builders : List (List (Except Shortfall View))} (h : List.Forall₂ Gives parts builders)
    {vss : List (List View)} (hok : parts.mapM id = .ok vss) :
    builders.flatten = vss.flatten.map .ok := by
  have hparts : parts = vss.map .ok := by
    rw [← mapM_eq_ok.1 hok, List.map_id]
  rw [hparts, List.forall₂_map_left_iff] at h
  clear hok hparts
  induction h with
  | nil => rfl
  | cons hfirst _ ih => rw [List.flatten_cons, List.flatten_cons, List.map_append, hfirst _ rfl, ih]

/-- **The views are those that the builders of the request give**, in their order. -/
theorem builders_eq {frames : Frames} {r : ViewRequest} {views : List View}
    (h : buildViews frames r = .ok views) : r.builders frames = views.map .ok := by
  have hbuilders : r.builders frames = [
      asked r.timeseries (.ok (frames.timeView r.timeseries r.timeseriesSum)),
      asked r.cumulativeTimeseries
        (.ok (frames.totalsView r.cumulativeTimeseries r.cumulativeTimeseriesSum)),
      asked r.hist (frames.histogramView r.hist), asked r.histRatio (frames.ratioView r.histRatio),
      r.stdevHist.map frames.windowView, asked r.plot (.ok (frames.plotView r.plot)),
      asked r.stats (frames.statisticsView r.stats r.statsSum)].flatten := by
    unfold ViewRequest.builders
    simp
  obtain ⟨vss, hparts, rfl⟩ := map_eq_ok.1 h
  rw [hbuilders]
  apply Gives.flatten _ hparts
  exact .cons (gives_unlessEmpty _ _) (.cons (gives_unlessEmpty _ _)
    (.cons (gives_unlessEmpty _ _) (.cons (gives_unlessEmpty _ _)
      (.cons (fun _ => mapM_eq_ok.1) (.cons (gives_unlessEmpty _ _)
        (.cons (gives_unlessEmpty _ _) .nil))))))

/-! ### Kinds -/

/-- A builder whose view, if it gives one, is of this kind. -/
def Builds (builder : Except Shortfall View) (kind : String) : Prop :=
  ∀ v, builder = .ok v → v.kind = kind

theorem builds_ok (v : View) : Builds (.ok v) v.kind := by
  intro v' h
  obtain rfl := Except.ok.inj h
  rfl

theorem Builds.map {α : Type} {f : α → View} {kind : String} (h : ∀ a, (f a).kind = kind)
    (x : Except Shortfall α) : Builds (x.map f) kind := by
  intro v hv
  obtain ⟨a, -, rfl⟩ := map_eq_ok.1 hv
  exact h a

theorem Builds.bind {α : Type} {f : α → Except Shortfall View} {kind : String}
    (h : ∀ a, Builds (f a) kind) (x : Except Shortfall α) : Builds (x.bind f) kind := by
  intro v hv
  obtain ⟨a, -, ha⟩ := bind_eq_ok.1 hv
  exact h a v ha

theorem builds_sharedHistogram (kind : HistogramKind) (operation : Operation)
    (tallies : List Frames.Tally) :
    Builds (Frames.sharedHistogram kind operation tallies) kind.name := by
  intro v h
  unfold Frames.sharedHistogram at h
  split at h
  · cases h
  · obtain rfl := Except.ok.inj h
    rfl

theorem builds_windowView (frames : Frames) (w : WindowRequest) :
    Builds (frames.windowView w) HistogramKind.window.name := by
  unfold Frames.windowView
  apply Builds.bind
  intro center
  apply Builds.map
  intro deviation
  rfl

theorem builds_statisticsView (frames : Frames) (keys : List String) (addSum : Bool) :
    Builds (frames.statisticsView keys addSum) "stats" := by
  apply Builds.map
  intro rows
  rfl

theorem builds_asked {α : Type} (requested : List α) {builder : Except Shortfall View}
    {kind : String} (h : Builds builder kind) :
    List.Forall₂ Builds (asked requested builder) (asked requested kind) := by
  cases requested with
  | nil => exact .nil
  | cons a requested => exact .cons h .nil

theorem builds_builders (r : ViewRequest) (frames : Frames) :
    List.Forall₂ Builds (r.builders frames) r.kinds := by
  have hwindows : List.Forall₂ Builds (r.stdevHist.map frames.windowView)
      (r.stdevHist.map fun _ => "stdev_hist") := by
    rw [List.forall₂_map_left_iff, List.forall₂_map_right_iff]
    apply List.forall₂_same.2
    intro w _
    exact builds_windowView frames w
  unfold ViewRequest.builders ViewRequest.kinds
  apply List.rel_append
  · apply List.rel_append
    · apply List.rel_append
      · apply List.rel_append
        · apply List.rel_append
          · apply List.rel_append
            · exact builds_asked _ (builds_ok _)
            · exact builds_asked _ (builds_ok _)
          · exact builds_asked _ (builds_sharedHistogram _ _ _)
        · exact builds_asked _ (builds_sharedHistogram _ _ _)
      · exact hwindows
    · exact builds_asked _ (builds_ok _)
  · exact builds_asked _ (builds_statisticsView _ _ _)

/-- The views that builders give have the kinds of the builders. -/
theorem kinds_of_builds {views : List View} {kinds : List String}
    (h : List.Forall₂ Builds (views.map .ok) kinds) : views.map View.kind = kinds := by
  rw [List.forall₂_map_left_iff] at h
  induction h with
  | nil => rfl
  | cons hfirst _ ih => rw [List.map_cons, hfirst _ rfl, ih]

/-- **Views are built exactly when the frames have what the request needs.** Otherwise building
fails for the first need that is not met, in the order of the views and of the statistics' rows. The
views come in a fixed order, each one if it was asked for. -/
theorem buildViews_complete (frames : Frames) (r : ViewRequest) :
    ((∃ views, buildViews frames r = .ok views) ↔ frames.Suffice r) ∧
    (∀ s, buildViews frames r = .error s ↔ FirstUnmet frames (r.needs frames) s) ∧
    ∀ views, buildViews frames r = .ok views →
      views.map .ok = r.builders frames ∧ views.map View.kind = r.kinds := by
  refine ⟨?_, wants_buildViews frames r, ?_⟩
  · rw [suffice_iff]
    exact (wants_buildViews frames r).ok_iff
  · intro views h
    have hbuilders := builders_eq h
    have hkinds := builds_builders r frames
    rw [hbuilders] at hkinds
    exact ⟨hbuilders.symm, kinds_of_builds hkinds⟩

/-- One log with a gap: two of the seven views are not asked for, and one frame is not enough for
statistics of the metric that the other frames lack. -/
theorem buildViews_complete_gap :
    let frames : Frames := .ofList [("a.log",
      .ofList [("n", [some 1, none, some 2]), ("m", [some 4, none, none])])]
    let r : ViewRequest :=
      { timeseries := ["n"], hist := ["m"], histRatio := [⟨"n", "m"⟩],
        stdevHist := [⟨"n", 1⟩, ⟨"n", 2⟩], stats := ["n"], statsSum := true }
    (∃ views, buildViews frames r = .ok views ∧ views.map View.kind =
      ["timeseries", "hist", "hist_ratio", "stdev_hist", "stdev_hist", "stats"]) ∧
    buildViews frames { stats := ["n", "m"] } = .error ⟨.stdev, 2, 1⟩ := by
  intro frames r
  constructor
  · have hok : (buildViews frames r).toBool = true := by decide +kernel
    obtain ⟨views, hviews⟩ := exists_eq_ok hok
    obtain ⟨-, -, hall⟩ := buildViews_complete frames r
    exact ⟨views, hviews, (hall views hviews).2⟩
  · obtain ⟨-, herror, -⟩ := buildViews_complete frames { stats := ["n", "m"] }
    apply (herror _).2
    -- Statistics of the first metric have two values, those of the second one only one.
    have htwo : (Need.sample .min [1, 2]).Met frames := Nat.le_refl 2
    have hone : ¬ (Need.sample .min [4]).Met frames := by
      show ¬ 2 ≤ 1
      decide
    exact .later htwo (.here hone)

end Framewise
