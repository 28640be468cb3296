import Framewise.Proofs.Series
import Framewise.View.Build

/-!
# Totals carried across gaps

A running total adds the values of a series one after the other, and a gap leaves it as it is. So it
makes no difference whether gaps are left out before adding or after it, and a series can be cut
anywhere if the total is carried over the cut. Lines of totals are drawn from the same series as lines
of values, so they have the totals of those lines.

* `runningTotalFrom_eq_prefixSums`: the total at a frame is the sum of the values up to it.
* `runningTotalFrom_append`: the totals of two parts.
* `runningTotalFrom_present`: the totals of the values without the gaps.
* `getLastD_runningTotalFrom`: the last total is the sum of all values.
* `Frames.lines_eq_map`: lines drawn through a change of the series are changed lines.
* `totals_carried`: what running totals are, for a series and for the lines of a view.
-/

namespace Framewise

namespace Series

/-! ### Sums up to a frame -/

/-- The sum of the values up to each frame, one after the other from `start`, where the frame has a
value. -/
def prefixSums (start : Float) (s : Series) : Series :=
  s.mapIdx fun frame v => v.map fun _ => (present (s.take (frame + 1))).foldl (· + ·) start

@[simp] theorem prefixSums_none (start : Float) (s : Series) :
    prefixSums start (none :: s) = none :: prefixSums start s := by
  simp [prefixSums, List.mapIdx_cons]

@[simp] theorem prefixSums_some (start x : Float) (s : Series) :
    prefixSums start (some x :: s) = some (start + x) :: prefixSums (start + x) s := by
  simp [prefixSums, List.mapIdx_cons]

/-- **The total at a frame is the sum of the values up to it.** -/
theorem runningTotalFrom_eq_prefixSums (start : Float) (s : Series) :
    runningTotalFrom start s = prefixSums start s := by
  -- Each value moves the start, and the rest is counted from there.
  induction s generalizing start with
  | nil => rfl
  | cons v s ih =>
    cases v with
    | none => rw [runningTotalFrom_none, prefixSums_none, ih]
    | some x => rw [runningTotalFrom_some, prefixSums_some, ih]

/-- Sums up to a frame have the gaps of the series. -/
theorem getElem?_prefixSums_eq_none_iff (start : Float) (s : Series) (frame : ℕ) :
    (prefixSums start s)[frame]? = some none ↔ s[frame]? = some none := by
  simp [prefixSums]

/-! ### Carrying a total -/

/-- **A total is carried over a cut**: the second part is counted from the sum of the first. -/
theorem runningTotalFrom_append (start : Float) (t u : Series) :
    runningTotalFrom start (t ++ u) =
      runningTotalFrom start t ++ runningTotalFrom (t.present.foldl (· + ·) start) u := by
  induction t generalizing start with
  | nil => rfl
  | cons v t ih =>
    cases v with
    | none => simp [ih]
    | some x => simp [ih]

/-- **Gaps may be left out before adding or after it.** -/
theorem runningTotalFrom_present (start : Float) (s : Series) :
    runningTotalFrom start (s.present.map some) = (runningTotalFrom start s).present.map some := by
  induction s generalizing start with
  | nil => rfl
  | cons v s ih =>
    cases v with
    | none => simp [ih]
    | some x => simp [ih]

/-- There are as many totals as values. -/
theorem length_present_runningTotalFrom (start : Float) (s : Series) :
    (runningTotalFrom start s).present.length = s.present.length := by
  have h := congrArg List.length (runningTotalFrom_present start s)
  simpa [length_runningTotalFrom] using h.symm

/-- **The last total is the sum of all values**, and the start if there are none. -/
theorem getLastD_runningTotalFrom (start : Float) (s : Series) :
    (runningTotalFrom start s).present.getLastD start = s.present.foldl (· + ·) start := by
  induction s generalizing start with
  | nil => rfl
  | cons v s ih =>
    cases v with
    | none => simpa using ih start
    | some x =>
      rw [runningTotalFrom_some, present_some, present_some, List.getLastD_cons, List.foldl_cons, ih]

/-- The last of the totals, divided by their number, is the mean of the values. -/
theorem exists_last_total {s : Series} (h : s.present ≠ []) :
    ∃ total, (runningTotal s).present.getLast? = some total ∧
      Sample.mean s.present = .ok (total / (runningTotal s).present.length.toFloat) := by
  have hlength : (runningTotal s).present.length = s.present.length :=
    length_present_runningTotalFrom 0 s
  have hne : (runningTotal s).present ≠ [] := by
    rwa [← List.length_pos_iff, hlength, List.length_pos_iff]
  have hlast := List.getLast?_eq_some_getLast hne
  have hsum : (runningTotal s).present.getLast hne = Sample.sum s.present := by
    calc (runningTotal s).present.getLast hne = (runningTotal s).present.getLastD 0 := by
          rw [List.getLastD_eq_getLast?, hlast, Option.getD_some]
      _ = Sample.sum s.present := getLastD_runningTotalFrom 0 s
  have hmean : Sample.mean s.present = .ok (Sample.average s.present) := by
    cases hvalues : s.present with
    | nil => exact absurd hvalues h
    | cons x values => rfl
  refine ⟨_, hlast, ?_⟩
  rw [hmean, hsum, hlength]
  rfl

end Series

/-! ### Lines of totals -/

/-- A line with its series changed, over the same frames. -/
def TimeLine.change (f : Series → Series) (line : TimeLine) : TimeLine :=
  { line with y := f line.y }

/-- **Lines drawn through a change are changed lines**, those of sums included. -/
theorem Frames.lines_eq_map (frames : Frames) (keys : List String) (addSum : Bool)
    (f : Series → Series) :
    frames.lines keys addSum f = (frames.lines keys addSum id).map (TimeLine.change f) := by
  have hsource : ∀ source columns, sourceLines source columns keys addSum f =
      (sourceLines source columns keys addSum id).map (TimeLine.change f) := by
    intro source columns
    -- Neither labels nor frames of a line depend on the change, and the sum is changed like a key.
    dsimp only [sourceLines]
    rw [List.map_append, List.map_map]
    congr 1
    cases addSum with
    | false => rfl
    | true => rfl
  unfold lines
  rw [List.map_flatMap]
  simp only [hsource]

/-- **Running totals are carried across gaps.**

* The totals of a series have its length and its gaps.
* It makes no difference whether gaps are left out before adding or after it.
* Wherever a series is cut, its totals are those of the first part and then the sums of the second one
  from the last total of the first, or from zero if the first one has no value.
* If there is a value, the last total divided by the number of totals is the mean of the values.
* So lines of totals, those of sums included, have at each frame with a value the sum of the values up
  to it in the line of values at the same place. -/
theorem totals_carried :
    (∀ s : Series,
      (Series.runningTotal s).length = s.length ∧
      (∀ frame : ℕ, (Series.runningTotal s)[frame]? = some none ↔ s[frame]? = some none) ∧
      Series.runningTotal (s.present.map some) = (Series.runningTotal s).present.map some ∧
      (∀ t u : Series, s = t ++ u → Series.runningTotal s = Series.runningTotal t ++
        Series.prefixSums ((Series.runningTotal t).present.getLastD 0) u) ∧
      (s.present ≠ [] → ∃ total, (Series.runningTotal s).present.getLast? = some total ∧
        Sample.mean s.present =
          .ok (total / (Series.runningTotal s).present.length.toFloat))) ∧
    ∀ (frames : Frames) (keys : List String) (addSum : Bool), ∃ lines,
      frames.timeView keys addSum = .time .values lines ∧
      frames.totalsView keys addSum =
        .time .totals (lines.map (TimeLine.change (Series.prefixSums 0))) := by
  constructor
  · intro s
    refine ⟨Series.length_runningTotal s, ?_, Series.runningTotalFrom_present 0 s, ?_,
      Series.exists_last_total⟩
    · intro frame
      unfold Series.runningTotal
      rw [Series.runningTotalFrom_eq_prefixSums]
      exact Series.getElem?_prefixSums_eq_none_iff 0 s frame
    · rintro t u rfl
      have hlast : (Series.runningTotal t).present.getLastD 0 = t.present.foldl (· + ·) 0 :=
        Series.getLastD_runningTotalFrom 0 t
      rw [hlast, ← Series.runningTotalFrom_eq_prefixSums]
      exact Series.runningTotalFrom_append 0 t u
  · intro frames keys addSum
    refine ⟨_, rfl, congrArg (View.time .totals) ?_⟩
    rw [Frames.lines_eq_map]
    congr 2
    funext s
    exact Series.runningTotalFrom_eq_prefixSums 0 s

/-- A series that starts with a gap and is cut at another one, whose sums are rounded, and the lines of
two keys with gaps in different frames. -/
theorem totals_carried_gaps :
    let s : Series := [none, some 0.1, none, some 0.2, some 0.3]
    let frames : Frames := .ofList [("a", .ofList [("n", s), ("m", [some 1, none, some 3])])]
    s.present ≠ [] ∧
      Series.runningTotal s = Series.runningTotal [none, some 0.1, none] ++
        Series.prefixSums 0.1 [some 0.2, some 0.3] ∧
      Sample.mean s.present = .ok (0.6000000000000001 / 3) ∧
      ∃ lines, frames.timeView ["n", "m"] true = .time .values lines ∧
        frames.totalsView ["n", "m"] true =
          .time .totals (lines.map (TimeLine.change (Series.prefixSums 0))) ∧
        (lines.map (TimeLine.change (Series.prefixSums 0))).map (fun l => (l.key, l.y)) =
          [("n", [none, some 0.1, none, some 0.30000000000000004, some 0.6000000000000001]),
            ("m", [some 1, none, some 4]),
            ("sum", [some 1, some 1.1, some 4.1, some 4.3, some 4.6])] := by
  intro s frames
  obtain ⟨hseries, hviews⟩ := totals_carried
  obtain ⟨-, -, -, hcut, hmean⟩ := hseries s
  have hpresent : s.present ≠ [] := by decide +kernel
  have htotal : (Series.runningTotal [none, some 0.1, none]).present.getLastD 0 = 0.1 := by
    decide +kernel
  obtain ⟨total, hlast, htotals⟩ := hmean hpresent
  obtain ⟨lines, hvalues, hlines⟩ := hviews frames ["n", "m"] true
  refine ⟨hpresent, ?_, ?_, lines, hvalues, hlines, ?_⟩
  · rw [hcut [none, some 0.1, none] [some 0.2, some 0.3] rfl, htotal]
  · have hsum : (Series.runningTotal s).present.getLast? = some 0.6000000000000001 := by
      decide +kernel
    obtain rfl := Option.some.inj (hlast.symm.trans hsum)
    exact htotals
  · obtain ⟨-, rfl⟩ := View.time.inj hvalues
    decide +kernel

end Framewise
