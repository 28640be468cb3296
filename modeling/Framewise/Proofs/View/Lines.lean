import Framewise.Proofs.Frames.Alignment
import Framewise.Proofs.Outcome
import Framewise.Proofs.Series
import Framewise.View.Build

/-!
# Lines and their sums

A source shows the series of each key and, if asked for, the sum over all of them. Lines over time draw
what is shown, and rows of statistics summarise the same values, though they add them up in another
way. As all series of an aligned source are equally long, it makes no difference whether they are cut to
a range before they are added or after it.

* `statisticsView_eq`: the rows of statistics are the summaries of the lines.
* `sums_agree`: what the sum over several keys is, frame by frame, in either way.
* `Series.sumByFrame_cut`: the sum of parts is the part of the sum.
* `timeView_cut`: lines of a range are parts of the lines of all frames.
-/

namespace Framewise

/-! ### What a source shows -/

namespace Frames

/-- The series that a source shows, each with its key: one for each key, and the sum over them. -/
def shown (columns : Columns) (keys : List String) (addSum : Bool) : List (String × Series) :=
  (keys.map fun key => (key, columns.series key)) ++
    if addSum then [(sumKey, Series.sumByFrame (keys.map columns.series))] else []

/-- **The rows of a source summarise what it shows**, the sum included. -/
theorem sourceRows_eq (source : String) (columns : Columns) (keys : List String) (addSum : Bool) :
    sourceRows source columns keys addSum =
      (shown columns keys addSum).mapM fun e => summarize source e.1 e.2.present := by
  have hrows : ((keys.map fun key => (key, columns.series key)).mapM fun e =>
      summarize source e.1 e.2.present) =
      keys.mapM fun key => summarize source key (columns.series key).present := List.mapM_map
  unfold sourceRows shown
  rw [mapM_append_eq, hrows]
  congr 1
  funext rows
  cases addSum with
  | false => exact congrArg Except.ok (List.append_nil rows).symm
  | true =>
    rw [if_pos rfl, if_pos rfl, mapM_cons_eq, Series.present_sumByFrame]
    cases summarize source sumKey (Series.sumOfFrames (keys.map columns.series)) with
    | error s => rfl
    | ok sum => rfl

/-- The lines of a source draw what it shows. -/
theorem map_sourceLines (source : String) (columns : Columns) (keys : List String) (addSum : Bool) :
    (sourceLines source columns keys addSum id).map (fun l => (l.source, l.key, l.y)) =
      (shown columns keys addSum).map fun e => (source, e.1, e.2) := by
  unfold sourceLines shown
  rw [List.map_append, List.map_append, List.map_map, List.map_map]
  congr 1
  cases addSum with
  | false => rfl
  | true => rfl

/-- **The rows of statistics summarise the lines over time**, each the values of one line. -/
theorem statisticsView_eq (frames : Frames) (keys : List String) (addSum : Bool) :
    frames.statisticsView keys addSum =
      ((frames.lines keys addSum id).mapM fun l => summarize l.source l.key l.y.present).map
        .statistics := by
  have hsource : ∀ s ∈ frames.entries, sourceRows s.1 s.2 keys addSum =
      (sourceLines s.1 s.2 keys addSum id).mapM fun l => summarize l.source l.key l.y.present := by
    intro s _
    rw [sourceRows_eq]
    apply mapM_congr
    have h := congrArg (List.map fun e => summarize e.1 e.2.1 e.2.2.present)
      (map_sourceLines s.1 s.2 keys addSum)
    rw [List.map_map, List.map_map] at h
    exact h.symm
  unfold statisticsView lines
  rw [mapM_flatMap_eq, mapM_congr (List.map_congr_left hsource)]
  exact (map_map_eq _ List.flatten View.statistics).symm

/-- **The two sums over several keys agree.**

* The sum drawn over time is as long as the longest series. It has a gap where every key lacks a value,
  and elsewhere the sum of the values that are there, from zero and in the order of the keys. A key that
  is repeated counts each time; one that no series belongs to has no values.
* Its values are those of the sum that goes frame by frame.
* So statistics summarise what lines over time draw, for sums and keys alike. -/
theorem sums_agree (keys : List String) :
    (∀ columns : Columns,
      let series := keys.map columns.series
      let sums := Series.sumByFrame series
      sums.length = (series.map List.length).max?.getD 0 ∧
      (∀ frame < sums.length,
        (sums[frame]? = some none ↔
          ∀ key ∈ keys, ∀ x, (columns.series key)[frame]? ≠ some (some x)) ∧
        (sums[frame]? ≠ some none →
          sums[frame]? = some (some ((Series.valuesAt series frame).foldl (· + ·) 0)))) ∧
      sums.present = Series.sumOfFrames series) ∧
    ∀ (frames : Frames) (addSum : Bool), ∃ lines,
      frames.timeView keys addSum = .time .values lines ∧
      frames.statisticsView keys addSum =
        (lines.mapM fun l => summarize l.source l.key l.y.present).map .statistics := by
  constructor
  · intro columns series sums
    refine ⟨?_, ?_, Series.present_sumByFrame series⟩
    · rw [Series.length_sumByFrame, Series.longest_eq_max]
    · intro frame hframe
      have hentry : sums[frame]? = some (if Series.valuesAt series frame = [] then none
          else some ((Series.valuesAt series frame).foldl (· + ·) 0)) := by
        rw [← Series.getElem?_sumByFrame, List.getElem?_eq_getElem hframe]
        rfl
      have hgap : Series.valuesAt series frame = [] ↔
          ∀ key ∈ keys, ∀ x, (columns.series key)[frame]? ≠ some (some x) := by
        rw [Series.valuesAt_eq_nil_iff, List.forall_mem_map]
      rw [hentry, ← hgap]
      split
      · next hnil => simp [hnil]
      · next hsome => simp [hsome]
  · intro frames addSum
    exact ⟨_, rfl, statisticsView_eq frames keys addSum⟩

/-- Series of different lengths with a frame that has a gap in all of them, a repeated key, and a key
without a series. -/
theorem sums_agree_ragged :
    let columns : Columns :=
      .ofList [("n", [some 1, none, some 3]), ("m", [none, none, some 0.5, some 4])]
    let frames : Frames := .ofList [("a", columns)]
    let keys := ["m", "n", "m", "k"]
    let sums := Series.sumByFrame (keys.map columns.series)
    sums[1]? = some none ∧ sums[2]? = some (some 4) ∧
      sums.present = Series.sumOfFrames (keys.map columns.series) ∧
      ∃ lines, frames.timeView keys true = .time .values lines ∧
        frames.statisticsView keys true =
          (lines.mapM fun l => summarize l.source l.key l.y.present).map .statistics := by
  intro columns frames keys sums
  obtain ⟨hsums, hviews⟩ := sums_agree keys
  obtain ⟨-, hentries, hpresent⟩ := hsums columns
  obtain ⟨hgap, -⟩ := hentries 1 (by decide +kernel)
  obtain ⟨-, hsum⟩ := hentries 2 (by decide +kernel)
  refine ⟨hgap.2 ?_, (hsum (by decide +kernel)).trans (by decide +kernel), hpresent,
    hviews frames true⟩
  intro key hkey x
  have hmissing : ∀ key ∈ keys, (columns.series key)[1]?.join = none := by decide +kernel
  intro hx
  exact absurd ((hmissing key hkey).symm.trans (congrArg Option.join hx)) (by simp)

end Frames

/-! ### Ranges -/

namespace Series

/-- Series of the same length with the same values in all frames are the same. -/
theorem ext_frames {s t : Series} (hlength : s.length = t.length)
    (h : ∀ frame : ℕ, s[frame]?.join = t[frame]?.join) : s = t := by
  apply List.ext_getElem hlength
  intro frame hs ht
  have hentry := h frame
  rw [List.getElem?_eq_getElem hs, List.getElem?_eq_getElem ht] at hentry
  exact hentry

variable {series : List Series} {n : ℕ} (h : ∀ s ∈ series, s.length = n)

include h

theorem valuesAt_cut (range : FrameRange) (frame : ℕ) :
    valuesAt (series.map range.cut) frame =
      if frame < FrameRange.position range.stop n - FrameRange.position range.start n then
        valuesAt series (FrameRange.position range.start n + frame)
      else [] := by
  unfold valuesAt
  rw [List.filterMap_map]
  split
  · next hlt =>
    apply List.filterMap_congr
    intro s hs
    show (range.cut s)[frame]?.join = _
    rw [FrameRange.getElem?_cut, h s hs, if_pos hlt]
  · next hge =>
    rw [List.filterMap_eq_nil_iff]
    intro s hs
    show (range.cut s)[frame]?.join = none
    rw [FrameRange.getElem?_cut, h s hs, if_neg hge]
    rfl

/-- **The sum of parts is the part of the sum**, if the series are equally long. -/
theorem sumByFrame_cut (range : FrameRange) :
    sumByFrame (series.map range.cut) = range.cut (sumByFrame series) := by
  by_cases hne : series = []
  · -- Series that are not there have any length, but their sum has none.
    subst hne
    show [] = (List.take _ []).drop _
    rw [List.take_nil, List.drop_nil]
  have hlength : (sumByFrame series).length = n := by
    rw [length_sumByFrame, longest_eq hne h]
  have hparts : ∀ s ∈ series.map range.cut, s.length =
      FrameRange.position range.stop n - FrameRange.position range.start n := by
    rw [List.forall_mem_map]
    intro s hs
    rw [FrameRange.length_cut, h s hs]
  apply ext_frames
  · rw [length_sumByFrame, FrameRange.length_cut, hlength]
    exact longest_eq (by simpa using hne) hparts
  · intro frame
    rw [getElem?_sumByFrame, valuesAt_cut h, FrameRange.getElem?_cut, hlength]
    split
    · exact (getElem?_sumByFrame series _).symm
    · rfl

end Series

/-- The part of a line that a range stands for, its frames numbered from zero. -/
def TimeLine.cut (range : FrameRange) (line : TimeLine) : TimeLine :=
  { line with x := List.range (range.cut line.y).length, y := range.cut line.y }

namespace Frames

/-- The line of a series that is drawn in full. -/
def fullLine (source key : String) (y : Series) : TimeLine :=
  ⟨label key source, source, key, List.range y.length, y⟩

section

variable {columns : Columns} {keys : List String} {n : ℕ}
  (hlength : ∀ key ∈ keys, (columns.series key).length = n)

include hlength

/-- Series of the same length are drawn in full. -/
theorem sourceLines_eq (source : String) (addSum : Bool) :
    sourceLines source columns keys addSum id =
      (shown columns keys addSum).map fun e => fullLine source e.1 e.2 := by
  dsimp only [sourceLines, shown]
  rw [List.map_append, List.map_map]
  congr 1
  · apply List.map_congr_left
    intro key hkey
    have hlongest : Series.longest (keys.map columns.series) = n := by
      apply Series.longest_eq (List.ne_nil_of_mem (List.mem_map_of_mem hkey))
      exact List.forall_mem_map.2 hlength
    show TimeLine.mk _ _ _ _ _ = TimeLine.mk _ _ _ _ _
    rw [hlongest, hlength key hkey]
    rfl
  · cases addSum with
    | false => rfl
    | true =>
      show [TimeLine.mk _ _ _ _ _] = [TimeLine.mk _ _ _ _ _]
      rw [Series.length_sumByFrame]
      rfl

/-- A source with parts of the series shows parts of what it shows else. -/
theorem shown_cut {part : Columns} {range : FrameRange}
    (hcut : ∀ key ∈ keys, part.series key = range.cut (columns.series key)) (addSum : Bool) :
    shown part keys addSum = (shown columns keys addSum).map fun e => (e.1, range.cut e.2) := by
  have hseries : keys.map part.series = (keys.map columns.series).map range.cut := by
    rw [List.map_map]
    exact List.map_congr_left hcut
  have hsum := Series.sumByFrame_cut (List.forall_mem_map.2 hlength) range
  unfold shown
  rw [hseries, hsum, List.map_append, List.map_map]
  congr 1
  · apply List.map_congr_left
    intro key hkey
    exact congrArg (Prod.mk key) (hcut key hkey)
  · cases addSum with
    | false => rfl
    | true => rfl

end

end Frames

namespace Sources

/-- What a source shows of a range are parts of what it shows of all frames. -/
theorem sourceLines_ofRange (source : String) {records : List Record} {keys requested : List String}
    (hread : requested ⊆ keys) (hfull : ({} : FrameRange).cut records = records) (addSum : Bool)
    (range : FrameRange) :
    Frames.sourceLines source (Columns.ofRange records keys range) requested addSum id =
      (Frames.sourceLines source (Columns.ofRange records keys {}) requested addSum id).map
        (TimeLine.cut range) := by
  have hseries : ∀ range, ∀ key ∈ requested, (Columns.ofRange records keys range).series key =
      (range.cut records).map (·.get? key) := by
    intro range key hkey
    rw [Columns.series_ofRange, if_pos (hread hkey)]
  have hlength : ∀ range, ∀ key ∈ requested,
      ((Columns.ofRange records keys range).series key).length = (range.cut records).length := by
    intro range key hkey
    rw [hseries range key hkey, List.length_map]
  have hcut : ∀ key ∈ requested, (Columns.ofRange records keys range).series key =
      range.cut ((Columns.ofRange records keys {}).series key) := by
    intro key hkey
    rw [hseries range key hkey, hseries {} key hkey, hfull, FrameRange.cut_map]
  rw [Frames.sourceLines_eq (hlength range), Frames.sourceLines_eq (hlength {}),
    Frames.shown_cut (hlength {}) hcut, List.map_map, List.map_map]
  rfl

/-- **Lines over time commute with the range of frames.** The lines of a range are the lines of all
frames in the same order, with the same labels, sources and keys. Each of them, those of sums included,
has the part of its values that the range stands for, and its frames are numbered from zero.

The keys of the lines are among those that are aligned, and no log is longer than the default range. -/
theorem timeView_cut (sources : Sources) {keys requested : List String} (hread : requested ⊆ keys)
    (hlength : ∀ s ∈ sources.entries, s.2.length ≤ 9007199254740991) (addSum : Bool)
    (range : FrameRange) :
    ∃ lines, (sources.align keys {}).timeView requested addSum = .time .values lines ∧
      (sources.align keys range).timeView requested addSum =
        .time .values (lines.map (TimeLine.cut range)) := by
  refine ⟨_, rfl, congrArg (View.time .values) ?_⟩
  unfold Frames.lines align OrderedMap.mapWithKey
  rw [List.flatMap_map, List.flatMap_map, List.map_flatMap, List.flatMap_def, List.flatMap_def]
  apply congrArg List.flatten
  apply List.map_congr_left
  intro s hs
  exact sourceLines_ofRange s.1 hread (FrameRange.cut_default (hlength s hs)) addSum range

/-- The last two frames of three, in one of which a key is missing, and the sum over both keys. -/
theorem timeView_cut_gap :
    let records : List Record :=
      [.ofList [("n", 1)], .ofList [("m", 2)], .ofList [("n", 3), ("m", 4)]]
    let sources : Sources := .ofList [("a.log", records)]
    let range : FrameRange := { start := -2, stop := 100 }
    ∃ lines, (sources.align ["n", "m"] {}).timeView ["n", "m"] true = .time .values lines ∧
      (sources.align ["n", "m"] range).timeView ["n", "m"] true =
        .time .values (lines.map (TimeLine.cut range)) ∧
      (lines.map (TimeLine.cut range)).map (fun l => (l.key, l.x, l.y)) =
        [("n", [0, 1], [none, some 3]), ("m", [0, 1], [some 2, some 4]),
          ("sum", [0, 1], [some 2, some 7])] := by
  intro records sources range
  have hlength : ∀ s ∈ sources.entries, s.2.length ≤ 9007199254740991 := by decide
  obtain ⟨lines, hall, hpart⟩ :=
    timeView_cut sources (List.Subset.refl ["n", "m"]) hlength true range
  refine ⟨lines, hall, hpart, ?_⟩
  obtain ⟨-, rfl⟩ := View.time.inj hall
  decide +kernel

end Sources

end Framewise
