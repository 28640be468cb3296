import Mathlib.Data.List.Range
import Mathlib.Data.Set.Card
import Framewise.Series

/-!
# Series frame by frame

Sums over several series: both ways to add them up go on to the end of the longest series, and at each
frame they add the values of this frame in the order of the series. No frame is left out where one of
them has a value, so both ways give the same values.

* `length_sumByFrame`, `length_runningTotal`: what is drawn has an entry for each frame.
* `present_eq_filterMap`: the values of a series, by the numbers of their frames.
* `length_ratios`: the number of quotients, by the frames of two series.
* `getElem?_sumByFrame`: a sum at a frame, by the values of this frame.
* `length_present_le`: a sum has at least as many values as each of its series.
* `present_sumByFrame`: both ways to add up series give the same values.
-/

namespace Framewise.Series

/-! ### The longest series -/

theorem foldl_max_length (series : List Series) (n : ℕ) :
    series.foldl (fun n s => max n s.length) n = max n (longest series) := by
  unfold longest
  induction series generalizing n with
  | nil => rw [List.foldl_nil, List.foldl_nil, Nat.max_zero]
  | cons s series ih =>
    rw [List.foldl_cons, List.foldl_cons, ih, ih (max 0 s.length), Nat.zero_max, Nat.max_assoc]

theorem longest_cons (s : Series) (series : List Series) :
    longest (s :: series) = max s.length (longest series) := by
  rw [longest, List.foldl_cons, foldl_max_length, Nat.zero_max]

/-- No series is longer than the longest. -/
theorem le_longest {series : List Series} {s : Series} (h : s ∈ series) :
    s.length ≤ longest series := by
  induction series with
  | nil => cases h
  | cons s' series ih =>
    rw [longest_cons]
    rcases List.mem_cons.1 h with rfl | hmem
    · exact Nat.le_max_left ..
    · exact (ih hmem).trans (Nat.le_max_right ..)

/-- Where all series are equally long the longest is as long as each. -/
theorem longest_eq {series : List Series} {n : ℕ} (hne : series ≠ [])
    (h : ∀ s ∈ series, s.length = n) : longest series = n := by
  induction series with
  | nil => exact absurd rfl hne
  | cons s series ih =>
    rw [longest_cons, h s List.mem_cons_self]
    cases series with
    | nil => exact Nat.max_zero n
    | cons s' series =>
      rw [ih (List.cons_ne_nil s' series) fun t ht => h t (List.mem_cons_of_mem _ ht), Nat.max_self]

theorem longest_eq_max (series : List Series) :
    longest series = (series.map List.length).max?.getD 0 := by
  induction series with
  | nil => rfl
  | cons s series ih =>
    rw [longest_cons, ih, List.map_cons, List.max?_cons]
    cases (series.map List.length).max? with
    | none => exact Nat.max_zero s.length
    | some n => rfl

/-! ### Lengths -/

theorem length_foldl_addSeries (series : List Series) (totals : Series) :
    (series.foldl addSeries totals).length = max totals.length (longest series) := by
  induction series generalizing totals with
  | nil => exact (Nat.max_zero _).symm
  | cons s series ih => rw [List.foldl_cons, ih, length_addSeries, longest_cons, Nat.max_assoc]

/-- The sum is as long as the longest series. -/
theorem length_sumByFrame (series : List Series) :
    (sumByFrame series).length = longest series := by
  unfold sumByFrame
  rw [length_foldl_addSeries, List.length_nil, Nat.zero_max]

theorem length_runningTotalFrom (start : Float) (s : Series) :
    (runningTotalFrom start s).length = s.length := by
  induction s generalizing start with
  | nil => rfl
  | cons v s ih =>
    cases v with
    | none => rw [runningTotalFrom_none, List.length_cons, List.length_cons, ih]
    | some x => rw [runningTotalFrom_some, List.length_cons, List.length_cons, ih]

/-- A running total has an entry for each frame. -/
theorem length_runningTotal (s : Series) : (runningTotal s).length = s.length :=
  length_runningTotalFrom 0 s

/-! ### Values by frame -/

theorem mem_present {s : Series} {x : Float} : x ∈ s.present ↔ some x ∈ s := by
  unfold present
  rw [List.mem_filterMap]
  simp

theorem ratio?_eq_some_iff {v w : Option Float} {x : Float} : ratio? v w = some x ↔
    ∃ a b, v = some a ∧ w = some b ∧ (a / b).isFinite = true ∧ x = a / b := by
  unfold ratio?
  grind

/-- The quotient of a frame, where both values are there and their quotient is finite. -/
theorem getElem?_zipWith_ratio? {numerator denominator : Series} {i : ℕ} {x : Float} :
    (List.zipWith ratio? numerator denominator)[i]? = some (some x) ↔ ∃ a b : Float,
      numerator[i]? = some (some a) ∧ denominator[i]? = some (some b) ∧
      (a / b).isFinite = true ∧ x = a / b := by
  rw [List.getElem?_zipWith_eq_some]
  constructor
  · rintro ⟨v, w, hv, hw, hquotient⟩
    obtain ⟨a, b, rfl, rfl, hfinite, hx⟩ := ratio?_eq_some_iff.1 hquotient
    exact ⟨a, b, hv, hw, hfinite, hx⟩
  · rintro ⟨a, b, ha, hb, hfinite, hx⟩
    exact ⟨some a, some b, ha, hb, ratio?_eq_some_iff.2 ⟨a, b, rfl, rfl, hfinite, hx⟩⟩

/-- The quotients are those of the frames where both values are there and their quotient is
finite. -/
theorem mem_ratios {numerator denominator : Series} {x : Float} :
    x ∈ ratios numerator denominator ↔ ∃ (i : ℕ) (a b : Float),
      numerator[i]? = some (some a) ∧ denominator[i]? = some (some b) ∧
      (a / b).isFinite = true ∧ x = a / b := by
  simp only [← getElem?_zipWith_ratio?]
  exact mem_present.trans List.mem_iff_getElem?

/-- The values of a series are those at the numbers of its frames. -/
theorem present_eq_filterMap (s : Series) {n : ℕ} (h : s.length ≤ n) :
    s.present = (List.range n).filterMap fun frame => s[frame]?.join := by
  induction s generalizing n with
  | nil => exact (List.filterMap_eq_nil_iff.2 fun _ _ => rfl).symm
  | cons v s ih =>
    rw [List.length_cons] at h
    obtain ⟨n, rfl⟩ : ∃ k, n = k + 1 := ⟨n - 1, by omega⟩
    have hshift : (fun frame => (v :: s)[frame]?.join) ∘ Nat.succ = fun frame => s[frame]?.join :=
      funext fun _ => rfl
    rw [List.range_succ_eq_map, List.filterMap_cons, List.filterMap_map, hshift,
      ← ih (Nat.le_of_succ_le_succ h)]
    cases v with
    | none => rfl
    | some x => rfl

/-- There are as many values as frames that have one. -/
theorem length_present (s : Series) :
    s.present.length = {frame : ℕ | ∃ x, s[frame]? = some (some x)}.ncard := by
  have hframes : {frame : ℕ | ∃ x, s[frame]? = some (some x)} =
      ((List.range s.length).filter fun frame => s[frame]?.join.isSome).toFinset := by
    ext frame
    simp only [Set.mem_ofPred_eq, List.coe_toFinset, List.mem_filter, List.mem_range,
      Option.isSome_iff_exists, Option.join_eq_some_iff]
    constructor
    · rintro ⟨x, hx⟩
      exact ⟨(List.getElem?_eq_some_iff.1 hx).1, x, hx⟩
    · exact And.right
  have hnodup : ((List.range s.length).filter fun frame => s[frame]?.join.isSome).Nodup :=
    List.nodup_range.filter _
  rw [hframes, Set.ncard_coe_finset, List.toFinset_card_of_nodup hnodup,
    present_eq_filterMap s (le_refl _), List.length_filterMap_eq_countP,
    List.countP_eq_length_filter]

/-- **There are as many quotients as frames** where both values are there and their quotient is
finite. -/
theorem length_ratios (numerator denominator : Series) :
    (ratios numerator denominator).length =
      {frame : ℕ | ∃ a b : Float, numerator[frame]? = some (some a) ∧
        denominator[frame]? = some (some b) ∧ (a / b).isFinite = true}.ncard := by
  have h := length_present (List.zipWith ratio? numerator denominator)
  simp only [getElem?_zipWith_ratio?] at h
  refine h.trans (congrArg Set.ncard ?_)
  ext frame
  constructor
  · rintro ⟨x, a, b, ha, hb, hfinite, -⟩
    exact ⟨a, b, ha, hb, hfinite⟩
  · rintro ⟨a, b, ha, hb, hfinite⟩
    exact ⟨a / b, a, b, ha, hb, hfinite, rfl⟩

/-! ### Sums by frame -/

/-- The values that several series have at a frame, in the order of the series. -/
def valuesAt (series : List Series) (frame : ℕ) : List Float :=
  series.filterMap fun s => s[frame]?.join

theorem foldl_addEntry_some {α : Type} (entry : α → Option Float) (l : List α) (x : Float) :
    l.foldl (fun total a => addEntry total (entry a)) (some x) =
      some ((l.filterMap entry).foldl (· + ·) x) := by
  induction l generalizing x with
  | nil => rfl
  | cons a l ih =>
    rw [List.foldl_cons, List.filterMap_cons]
    cases entry a with
    | none => exact ih x
    | some y => exact ih (x + y)

/-- **Adding entries adds the values among them**, from zero and in their order. -/
theorem foldl_addEntry {α : Type} (entry : α → Option Float) (l : List α) :
    l.foldl (fun total a => addEntry total (entry a)) none =
      if l.filterMap entry = [] then none else some ((l.filterMap entry).foldl (· + ·) 0) := by
  induction l with
  | nil => rfl
  | cons a l ih =>
    rw [List.foldl_cons, List.filterMap_cons]
    cases entry a with
    | none => exact ih
    | some y => exact foldl_addEntry_some entry l (0 + y)

theorem getElem?_foldl_addSeries (series : List Series) (totals : Series) (frame : ℕ) :
    (series.foldl addSeries totals)[frame]?.join =
      series.foldl (fun total s => addEntry total s[frame]?.join) totals[frame]?.join := by
  induction series generalizing totals with
  | nil => rfl
  | cons s series ih => rw [List.foldl_cons, List.foldl_cons, ih, getElem?_addSeries]

/-- **The sum at a frame** adds the values of this frame, and there is a gap if there are none. -/
theorem getElem?_sumByFrame (series : List Series) (frame : ℕ) :
    (sumByFrame series)[frame]?.join = if valuesAt series frame = [] then none
      else some ((valuesAt series frame).foldl (· + ·) 0) :=
  (getElem?_foldl_addSeries series [] frame).trans (foldl_addEntry _ series)

theorem valuesAt_eq_nil_iff {series : List Series} {frame : ℕ} :
    valuesAt series frame = [] ↔ ∀ s ∈ series, ∀ x, s[frame]? ≠ some (some x) := by
  unfold valuesAt
  rw [List.filterMap_eq_nil_iff]
  simp only [Option.eq_none_iff_forall_ne_some, Ne, Option.join_eq_some_iff]

/-- The sums frame by frame, without the detour over arrays. -/
theorem sumOfFrames_eq (series : List Series) :
    sumOfFrames series = (List.range (longest series)).filterMap fun frame =>
      series.foldl (fun total s => addEntry total s[frame]?.join) none := by
  unfold sumOfFrames
  simp only [List.foldl_map, List.getElem?_toArray]

/-- **A sum has at least as many values as each of its series**: there is one for each frame where
one of the series has a value. -/
theorem length_present_le {series : List Series} {s : Series} (h : s ∈ series) :
    s.present.length ≤ (sumOfFrames series).length := by
  rw [sumOfFrames_eq, present_eq_filterMap s (le_longest h), List.length_filterMap_eq_countP,
    List.length_filterMap_eq_countP]
  apply List.countP_mono_left
  intro frame _ hvalue
  obtain ⟨x, hx⟩ := Option.isSome_iff_exists.1 hvalue
  have hsome : valuesAt series frame ≠ [] :=
    List.ne_nil_of_mem (List.mem_filterMap.2 ⟨s, h, hx⟩)
  rw [foldl_addEntry]
  exact Option.isSome_iff_exists.2 ⟨_, if_neg hsome⟩

/-- **Both ways to add up series give the same values.** -/
theorem present_sumByFrame (series : List Series) :
    (sumByFrame series).present = sumOfFrames series := by
  rw [present_eq_filterMap _ (le_of_eq (length_sumByFrame series)), sumOfFrames_eq]
  exact List.filterMap_congr fun frame _ => getElem?_foldl_addSeries series [] frame

end Framewise.Series
