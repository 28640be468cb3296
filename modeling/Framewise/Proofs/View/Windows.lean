import Framewise.Proofs.OrderedMap
import Framewise.Proofs.Outcome
import Framewise.Proofs.View.Histograms

/-!
# Windows around a median

The edges of a window lie around the median of the first source. The histogram of a source counts the
values of this source that are in the window, and nothing else. So what a window shows of a source
depends on the key's series in this source and in the first one.

* `windowView_eq_ok`: a view is that of the window around the first source's median.
* `sum_countWindow`: the counts of a source are those of its values in the window.
* `mem_window`: the histogram of a source, from its own series.
* `windowView_first`: what a view has, and that the other sources and keys have no part in it.
-/

namespace Framewise

open Number

namespace Frames

/-! ### The window -/

/-- The values of a series between two others, counted for a source. -/
def countWindow (source key : String) (s : Series) (start stop : Float) : Histogram :=
  Tally.count (Bins.linspace start stop windowEdgeCount)
    ⟨source, key, s.present.filter fun x => start ≤ x && x ≤ stop⟩

/-- The histograms of a key between two values. -/
def window (frames : Frames) (key : String) (start stop : Float) : View :=
  let edges := Bins.linspace start stop windowEdgeCount
  .histogram .window edges <| frames.entries.map fun (source, columns) =>
    Tally.count edges ⟨source, key,
      (columns.series key).present.filter fun x => start ≤ x && x ≤ stop⟩

theorem windowView_eq (frames : Frames) (key : String) (scale : Float) :
    frames.windowView ⟨key, scale⟩ =
      (Sample.median (frames.reference key)).bind fun center =>
      (Sample.stdev (frames.reference key)).map fun deviation =>
        frames.window key (center - deviation / 2 * scale) (center + deviation / 2 * scale) :=
  rfl

/-- **A view is that of the window** around the median of the first source. -/
theorem windowView_eq_ok {frames : Frames} {w : WindowRequest} {view : View} :
    frames.windowView w = .ok view ↔ ∃ center deviation,
      Sample.median (frames.reference w.key) = .ok center ∧
      Sample.stdev (frames.reference w.key) = .ok deviation ∧
      frames.window w.key (center - deviation / 2 * w.scale) (center + deviation / 2 * w.scale) =
        view := by
  rw [windowView_eq, bind_eq_ok]
  constructor
  · rintro ⟨center, hcenter, h⟩
    obtain ⟨deviation, hdeviation, hview⟩ := map_eq_ok.1 h
    exact ⟨center, deviation, hcenter, hdeviation, hview⟩
  · rintro ⟨center, deviation, hcenter, hdeviation, hview⟩
    exact ⟨center, hcenter, map_eq_ok.2 ⟨deviation, hdeviation, hview⟩⟩

theorem reference_eq (frames : Frames) (key : String) : frames.reference key =
    Series.present ((frames.entries.head?.map fun s => s.2.series key).getD []) := by
  unfold reference
  cases frames.entries with
  | nil => rfl
  | cons first rest => rfl

/-! ### Histograms of the window -/

section

variable (source key : String) (s : Series) (start stop : Float)

theorem length_countWindow : (countWindow source key s start stop).counts.length = 8 := by
  show (Bins.binCounts _ (Bins.linspace start stop windowEdgeCount)).length = 8
  rw [Bins.length_binCounts, Bins.length_linspace]
  rfl

/-- **The counts of a source** add up to the number of its values in the window. -/
theorem sum_countWindow : (countWindow source key s start stop).counts.sum =
    s.countP fun v => v.any fun x => start ≤ x && x ≤ stop := by
  have hinside : ∀ x ∈ s.present.filter fun x => start ≤ x && x ≤ stop, start ≤ x ∧ x ≤ stop := by
    intro x hx
    simpa using (List.mem_filter.1 hx).2
  have hsum := @Bins.sum_binCounts_linspace (s.present.filter fun x => start ≤ x && x ≤ stop) start
    stop 7 fun x hx => ⟨Number.not_lt_of_le (hinside x hx).1, Number.not_lt_of_le (hinside x hx).2⟩
  have hnumbers : (s.present.filter fun x => start ≤ x && x ≤ stop).countP (fun x => !x.isNaN) =
      (s.present.filter fun x => start ≤ x && x ≤ stop).length := by
    rw [List.countP_eq_length]
    intro x hx
    obtain ⟨-, hnumber, -⟩ := le_iff.1 (hinside x hx).1
    rw [hnumber]
    rfl
  show (Bins.binCounts _ (Bins.linspace start stop (7 + 2))).sum = _
  rw [hsum, hnumbers, ← List.countP_eq_length_filter, Series.countP_present]

end

theorem window_eq (frames : Frames) (key : String) (start stop : Float) :
    frames.window key start stop = .histogram .window (Bins.linspace start stop windowEdgeCount)
      (frames.entries.map fun s => countWindow s.1 key (s.2.series key) start stop) := rfl

/-- **The histogram of a source** depends on its own series only. -/
theorem mem_window {frames : Frames} {key : String} {start stop : Float} {histogram : Histogram} :
    histogram ∈ (frames.entries.map fun s => countWindow s.1 key (s.2.series key) start stop) ↔
      ∃ s, (frames.get? histogram.source).map (·.series key) = some s ∧
        histogram = countWindow histogram.source key s start stop := by
  rw [List.mem_map]
  constructor
  · rintro ⟨⟨name, columns⟩, hmem, rfl⟩
    have hget : frames.get? name = some columns := OrderedMap.get?_eq_some_iff.2 hmem
    exact ⟨columns.series key, Option.map_eq_some_iff.2 ⟨columns, hget, rfl⟩, rfl⟩
  · rintro ⟨s, hs, hhistogram⟩
    obtain ⟨columns, hget, rfl⟩ := Option.map_eq_some_iff.1 hs
    exact ⟨_, OrderedMap.get?_eq_some_iff.1 hget, hhistogram.symm⟩

/-- **A window is set by the first source alone.** Where a view succeeds, its window goes from
`center - deviation / 2 * scale` to `center + deviation / 2 * scale`, with the median and the standard
deviation of the values that the first source has for the key.

* There are 9 edges, and one histogram of 8 counts for each source, in the order of the sources.
* The counts of a source add up to the number of its values that are in the window. There are none if the
  window is empty or has an end that is NaN, and nothing is lost if it is a single point or infinite.
* Other frames whose first source has the same series of the key have a view with the same edges, and
  with the same histogram for every source that has the same series of the key in both. So the sources
  after the first one may be replaced, added or removed, and so may all series of other keys. -/
theorem windowView_first {frames : Frames} {w : WindowRequest} {view : View}
    (h : frames.windowView w = .ok view) :
    ∃ first center deviation edges histograms,
      (frames.entries.head?.map fun s => s.2.series w.key) = some first ∧
      Sample.median first.present = .ok center ∧ Sample.stdev first.present = .ok deviation ∧
      view = .histogram .window edges histograms ∧ edges.length = 9 ∧
      (histograms.map fun h => (h.label, h.source, h.key, h.counts.length, h.counts.sum)) =
        (frames.entries.map fun s => (label w.key s.1, s.1, w.key, 8,
          (s.2.series w.key).countP fun v => v.any fun x =>
            center - deviation / 2 * w.scale ≤ x && x ≤ center + deviation / 2 * w.scale)) ∧
      ∀ frames' : Frames,
        (frames'.entries.head?.map fun s => s.2.series w.key) = some first →
        ∃ histograms', frames'.windowView w = .ok (.histogram .window edges histograms') ∧
          ∀ h : Histogram, (frames'.get? h.source).map (·.series w.key) =
              (frames.get? h.source).map (·.series w.key) →
            (h ∈ histograms' ↔ h ∈ histograms) := by
  obtain ⟨center, deviation, hcenter, hdeviation, rfl⟩ := windowView_eq_ok.1 h
  cases hfirst : frames.entries.head?.map fun s => s.2.series w.key with
  | none =>
    -- Without a source there are no values that could have a median.
    rw [reference_eq, hfirst] at hcenter
    cases hcenter
  | some first =>
    have hreference : ∀ frames : Frames,
        (frames.entries.head?.map fun s => s.2.series w.key) = some first →
        frames.reference w.key = first.present := by
      intro frames hfirst
      rw [reference_eq, hfirst]
      rfl
    rw [hreference frames hfirst] at hcenter hdeviation
    refine ⟨first, center, deviation, _, _, rfl, hcenter, hdeviation, window_eq .., ?_, ?_, ?_⟩
    · exact Bins.length_linspace _ _ 9
    · rw [List.map_map]
      apply List.map_congr_left
      intro s _
      show (_, _, _, _, _) = (_, _, _, _, _)
      rw [length_countWindow, sum_countWindow]
      rfl
    · intro frames' hfirst'
      refine ⟨_, windowView_eq_ok.2 ⟨center, deviation, ?_, ?_, window_eq ..⟩, ?_⟩
      · rw [hreference frames' hfirst', hcenter]
      · rw [hreference frames' hfirst', hdeviation]
      · intro histogram hsame
        rw [mem_window, mem_window, hsame]

/-- A first source from 1 to 5 with a deviation of 2, and a second one with NaN and a value beyond the
window. The second one is removed, another is added, and the first one has a new key. -/
theorem windowView_first_changed :
    let first : Series := [some 1, some 3, some 5]
    let frames : Frames := .ofList [
      ("a", .ofList [("k", first)]),
      ("b", .ofList [("k", [some 2, some notANumber, none, some 9, some 5])]),
      ("c", .ofList [("k", [some 4])])]
    let frames' : Frames := .ofList [
      ("a", .ofList [("n", [some 7]), ("k", first)]),
      ("d", .ofList [("k", [some 0])]),
      ("c", .ofList [("k", [some 4])])]
    ∃ edges histograms histograms',
      frames.windowView ⟨"k", 2⟩ = .ok (.histogram .window edges histograms) ∧
      histograms.map (fun h => h.counts.sum) = [3, 2, 1] ∧
      frames'.windowView ⟨"k", 2⟩ = .ok (.histogram .window edges histograms') ∧
      ∀ h : Histogram, h.source = "a" ∨ h.source = "c" → (h ∈ histograms' ↔ h ∈ histograms) := by
  intro first frames frames'
  obtain ⟨view, hview⟩ := exists_eq_ok (show (frames.windowView ⟨"k", 2⟩).toBool = true by rfl)
  obtain ⟨s, center, deviation, edges, histograms, hfirst, hcenter, hdeviation, rfl, -, hsums, hall⟩ :=
    windowView_first hview
  obtain rfl : first = s := Option.some.inj hfirst
  have hsort : Sample.sort [1, 3, 5] = [1, 3, 5] := List.mergeSort_of_pairwise (by decide +kernel)
  have hmiddle : Sample.middle [1, 3, 5] = 3 := by
    unfold Sample.middle
    rw [hsort]
    decide +kernel
  obtain rfl : 3 = center := hmiddle.symm.trans (Except.ok.inj hcenter)
  obtain rfl : 2 = deviation := .trans (by decide +kernel) (Except.ok.inj hdeviation)
  obtain ⟨histograms', hview', hsame⟩ := hall frames' rfl
  have hsums := congrArg (List.map fun h => h.2.2.2.2) hsums
  rw [List.map_map] at hsums
  refine ⟨edges, histograms, histograms', hview, hsums.trans (by decide +kernel), hview', ?_⟩
  intro h hsource
  apply hsame
  rcases hsource with hsource | hsource
  · rw [hsource]
    rfl
  · rw [hsource]
    rfl

end Frames

end Framewise
