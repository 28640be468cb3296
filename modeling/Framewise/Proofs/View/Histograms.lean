import Framewise.Proofs.Series
import Framewise.Proofs.Statistics.Edges
import Framewise.View.Build

/-!
# Histograms with shared edges

The edges of a view go from the least value to the greatest one, so that no value of any source is
lost. The least and the greatest value are NaN as soon as one value is, though counting leaves NaN
out: then all edges are NaN, and all values end up in the first bin.

* `Extremes`: what the least and the greatest value of a list are, with and without NaN.
* `histograms_conserve`: every histogram counts each of its values once.
* `histogramView_withoutNaN_iff`: a view is that of the frames with gaps for NaN only if there is no
  NaN to leave out.
-/

namespace Framewise

open Number

/-! ### Values that are not NaN -/

namespace Series

theorem countP_present (s : Series) (p : Float → Bool) :
    s.present.countP p = s.countP fun v => v.any p := by
  unfold present
  rw [List.countP_filterMap]
  congr 1
  funext v
  cases v with
  | none | some x => rfl

/-- No quotient is NaN, so all of them are counted. -/
theorem countP_ratios (numerator denominator : Series) :
    ((numerator.ratios denominator).countP fun x => !x.isNaN) =
      {frame : ℕ | ∃ a b : Float, numerator[frame]? = some (some a) ∧
        denominator[frame]? = some (some b) ∧ (a / b).isFinite = true}.ncard := by
  rw [← length_ratios, List.countP_eq_length]
  intro x hx
  obtain ⟨_, _, _, _, _, hfinite, rfl⟩ := mem_ratios.1 hx
  rw [isNaN_of_isFinite hfinite]
  rfl

/-- A series with a gap for each NaN. -/
def withoutNaN (s : Series) : Series :=
  s.map (Option.filter fun x => !x.isNaN)

theorem present_withoutNaN (s : Series) :
    s.withoutNaN.present = s.present.filter fun x => !x.isNaN := by
  unfold present withoutNaN
  rw [List.filterMap_map, List.filter_filterMap]
  rfl

end Series

/-- Columns with a gap for each NaN. -/
def Columns.withoutNaN (columns : Columns) : Columns :=
  columns.mapWithKey fun _ s => s.withoutNaN

theorem Columns.series_withoutNaN (columns : Columns) (key : String) :
    columns.withoutNaN.series key = (columns.series key).withoutNaN := by
  unfold series withoutNaN
  rw [OrderedMap.get?_mapWithKey]
  cases columns.get? key with
  | none | some s => rfl

/-- Frames with a gap for each NaN. -/
def Frames.withoutNaN (frames : Frames) : Frames :=
  frames.mapWithKey fun _ columns => columns.withoutNaN

namespace Frames

/-! ### The least and the greatest value -/

/-- An operation on doubles that chooses the one of two values that comes before the other, or NaN if
one of them is NaN. -/
structure Chooses (choose : Float → Float → Float) (before : Float → Float → Prop) : Prop where
  isNaN : ∀ a b, (choose a b).isNaN = (a.isNaN || b.isNaN)
  choice : ∀ a b, choose a b = a ∨ choose a b = b
  chosen : ∀ a b, a.isNaN = false → b.isNaN = false →
    before (choose a b) a ∧ before (choose a b) b
  trans : ∀ a b c, before a b → before b c → before a c

/-- A choice by a strict test is one by the order that the test belongs to. -/
theorem chooses_ite {sooner before : Float → Float → Prop} [DecidableRel sooner]
    (hself : ∀ a, a.isNaN = false → before a a) (hsooner : ∀ a b, sooner a b → before a b)
    (hnot : ∀ a b, a.isNaN = false → b.isNaN = false → ¬ sooner b a → before a b)
    (htrans : ∀ a b c, before a b → before b c → before a c) :
    Chooses (fun a b => if a.isNaN then a else if b.isNaN then b else if sooner b a then b else a)
      before where
  isNaN := by
    intro a b
    cases ha : a.isNaN with
    | true => exact ha
    | false =>
      cases hb : b.isNaN with
      | true => exact hb
      | false =>
        simp only [Bool.false_eq_true, if_false]
        split
        · exact hb
        · exact ha
  choice := by
    intro a b
    grind
  chosen := by
    intro a b ha hb
    simp only [ha, hb, Bool.false_eq_true, if_false]
    split
    · next h => exact ⟨hsooner b a h, hself b hb⟩
    · next h => exact ⟨hself a ha, hnot a b ha hb h⟩
  trans := htrans

theorem chooses_lower : Chooses lower (· ≤ ·) := by
  apply chooses_ite
  · exact fun _ => le_self
  · exact fun _ _ => Number.le_of_lt
  · exact fun a b ha hb => (not_lt_iff hb ha).1
  · exact fun _ _ _ => Number.le_trans

theorem chooses_upper : Chooses upper fun a b => b ≤ a := by
  apply @chooses_ite fun b a => a < b
  · exact fun _ => le_self
  · exact fun _ _ => Number.le_of_lt
  · exact fun a b ha hb => (not_lt_iff ha hb).1
  · exact fun _ _ _ hab hbc => Number.le_trans hbc hab

namespace Chooses

variable {choose : Float → Float → Float} {before : Float → Float → Prop}
  (h : Chooses choose before)

include h

theorem isNaN_foldl (x : Float) (xs : List Float) :
    (xs.foldl choose x).isNaN = (x :: xs).any Float.isNaN := by
  induction xs generalizing x with
  | nil => simp
  | cons y xs ih =>
    rw [List.foldl_cons, ih, List.any_cons, List.any_cons, List.any_cons, h.isNaN, Bool.or_assoc]

theorem foldl_mem (x : Float) (xs : List Float) : xs.foldl choose x ∈ x :: xs := by
  induction xs generalizing x with
  | nil => exact List.mem_cons_self
  | cons y xs ih =>
    rw [List.foldl_cons]
    rcases List.mem_cons.1 (ih (choose x y)) with heq | hmem
    · rw [heq]
      rcases h.choice x y with hx | hy
      · rw [hx]
        exact List.mem_cons_self
      · rw [hy]
        exact List.mem_cons_of_mem x List.mem_cons_self
    · exact List.mem_cons_of_mem x (List.mem_cons_of_mem y hmem)

/-- The value that is chosen from a list comes before all of its values. -/
theorem before_foldl (x : Float) (xs : List Float) (hnumbers : ∀ y ∈ x :: xs, y.isNaN = false) :
    ∀ y ∈ x :: xs, before (xs.foldl choose x) y := by
  induction xs generalizing x with
  | nil =>
    intro y hy
    have hx := hnumbers x List.mem_cons_self
    have hself := (h.chosen x x hx hx).1
    rw [or_self_iff.1 (h.choice x x)] at hself
    rw [List.mem_singleton.1 hy]
    exact hself
  | cons z xs ih =>
    have hx := hnumbers x (by simp)
    have hz := hnumbers z (by simp)
    have hchosen : ∀ y ∈ choose x z :: xs, y.isNaN = false := by
      rw [List.forall_mem_cons, h.isNaN, hx, hz]
      exact ⟨rfl, fun y hy => hnumbers y (by simp [hy])⟩
    have hfirst := ih (choose x z) hchosen
    have hboth := h.chosen x z hx hz
    intro y hy
    rw [List.foldl_cons]
    rcases List.mem_cons.1 hy with rfl | hy
    · exact h.trans _ _ _ (hfirst _ List.mem_cons_self) hboth.1
    · rcases List.mem_cons.1 hy with rfl | hy
      · exact h.trans _ _ _ (hfirst _ List.mem_cons_self) hboth.2
      · exact hfirst y (List.mem_cons_of_mem _ hy)

end Chooses

/-- The ends of the range of a list of values. -/
inductive Extremes (values : List Float) (low high : Float) : Prop
  | unordered : (∃ x ∈ values, x.isNaN = true) → low.isNaN = true → high.isNaN = true →
      Extremes values low high
  | ordered : low ∈ values → high ∈ values → (∀ x ∈ values, low ≤ x ∧ x ≤ high) →
      Extremes values low high

theorem extremes_foldl (x : Float) (xs : List Float) :
    Extremes (x :: xs) (xs.foldl lower x) (xs.foldl upper x) := by
  have hlow := chooses_lower.isNaN_foldl x xs
  have hhigh := chooses_upper.isNaN_foldl x xs
  cases hNaN : (x :: xs).any Float.isNaN with
  | true => exact .unordered (List.any_eq_true.1 hNaN) (hlow.trans hNaN) (hhigh.trans hNaN)
  | false =>
    have hnumbers : ∀ y ∈ x :: xs, y.isNaN = false := by
      intro y hy
      exact Bool.eq_false_of_not_eq_true (List.any_eq_false.1 hNaN y hy)
    exact .ordered (chooses_lower.foldl_mem x xs) (chooses_upper.foldl_mem x xs) fun y hy =>
      ⟨chooses_lower.before_foldl x xs hnumbers y hy,
        chooses_upper.before_foldl x xs hnumbers y hy⟩

/-- No value is beyond the range. -/
theorem Extremes.within {values : List Float} {low high : Float} (h : Extremes values low high) :
    ∀ x ∈ values, ¬ x < low ∧ ¬ high < x := by
  intro x hx
  cases h with
  | unordered _ hlow hhigh =>
    exact ⟨not_lt_of_isNaN (.inr hlow), not_lt_of_isNaN (.inl hhigh)⟩
  | ordered _ _ hall =>
    obtain ⟨hlow, hhigh⟩ := hall x hx
    exact ⟨Number.not_lt_of_le hlow, Number.not_lt_of_le hhigh⟩

/-! ### Tallies over shared edges -/

section Shared

variable {kind : HistogramKind} {operation : Operation} {tallies : List Tally}

/-- **A view of tallies that have values** has the edges of the range of all values. -/
theorem exists_sharedHistogram (h : tallies.flatMap Tally.values ≠ []) :
    ∃ low high, Extremes (tallies.flatMap Tally.values) low high ∧
      sharedHistogram kind operation tallies = .ok (.histogram kind
        (Bins.linspace low high sharedEdgeCount)
        (tallies.map (Tally.count (Bins.linspace low high sharedEdgeCount)))) := by
  unfold sharedHistogram
  cases hall : tallies.flatMap Tally.values with
  | nil => exact absurd hall h
  | cons x xs => exact ⟨_, _, extremes_foldl x xs, rfl⟩

theorem ne_nil_of_sharedHistogram {view : View}
    (h : sharedHistogram kind operation tallies = .ok view) :
    tallies.flatMap Tally.values ≠ [] := by
  intro hnil
  unfold sharedHistogram at h
  rw [hnil] at h
  cases h

theorem sharedHistogram_eq_ok {view : View}
    (h : sharedHistogram kind operation tallies = .ok view) :
    ∃ low high, Extremes (tallies.flatMap Tally.values) low high ∧
      view = .histogram kind (Bins.linspace low high sharedEdgeCount)
        (tallies.map (Tally.count (Bins.linspace low high sharedEdgeCount))) := by
  have hne := ne_nil_of_sharedHistogram h
  obtain ⟨low, high, hextremes, hok⟩ := exists_sharedHistogram hne
  exact ⟨low, high, hextremes, Except.ok.inj (h.symm.trans hok)⟩

/-- **Each tally counts all of its values** but NaN. -/
theorem sum_count {low high : Float} (h : Extremes (tallies.flatMap Tally.values) low high)
    {t : Tally} (ht : t ∈ tallies) :
    (t.count (Bins.linspace low high sharedEdgeCount)).counts.sum =
      t.values.countP fun x => !x.isNaN := by
  apply Bins.sum_binCounts_linspace 18
  intro x hx
  exact h.within x (List.mem_flatMap.2 ⟨t, ht, hx⟩)

end Shared

/-! ### Conservation -/

/-- Edges from the least of some values to the greatest, if all of them are finite and these two are
not too far apart. -/
def Spanned (binned : Set Float) (edges : List Float) : Prop :=
  (∀ x ∈ binned, x.isFinite = true) → ∃ least ∈ binned, ∃ greatest ∈ binned,
    (∀ x ∈ binned, least ≤ x ∧ x ≤ greatest) ∧
    ((greatest - least).isFinite = true → ∃ first inner,
      edges = first :: (inner ++ [greatest]) ∧ (first == least) = true)

/-- A view with 20 edges that span the values, and with one histogram for each source and metric of a
list, in the order of this list. The histogram has 19 counts, which add up to the number beside the
source and the metric. -/
def Conserves (kind : HistogramKind) (totals : List (String × String × ℕ)) (binned : Set Float)
    (view : View) : Prop :=
  ∃ edges histograms, view = .histogram kind edges histograms ∧ edges.length = 20 ∧
    (histograms.map fun h => (h.label, h.source, h.key, h.counts.length, h.counts.sum)) =
      (totals.map fun (source, key, total) => (label key source, source, key, 19, total)) ∧
    Spanned binned edges

/-- The distance between two edges is finite if that between the least and the greatest value is. -/
theorem isFinite_step {width : Float} (h : width.isFinite = true) :
    (width / (19 : ℕ).toFloat).isFinite = true := by
  have hform : unpack (19 : ℕ).toFloat =
      .finite .positive (19 * 2 ^ 48) (-48) (Nat.mul_pos (by decide) (Nat.two_pow_pos 48)) := rfl
  apply isFinite_div h hform
  · norm_num
  · decide

theorem Extremes.spanned {values : List Float} {low high : Float} (h : Extremes values low high) :
    Spanned {x | x ∈ values} (Bins.linspace low high sharedEdgeCount) := by
  intro hfinite
  cases h with
  | unordered hNaN _ _ =>
    obtain ⟨x, hx, hNaN⟩ := hNaN
    exact absurd (hNaN.symm.trans (isNaN_of_isFinite (hfinite x hx))) (by decide)
  | ordered hlow hhigh hall =>
    refine ⟨low, hlow, high, hhigh, hall, ?_⟩
    intro hwidth
    obtain ⟨first, inner, hedges, hfirst⟩ := Bins.linspace_ends low high 18
    have hself := le_self (isNaN_of_isFinite (hfinite low hlow))
    rw [if_pos (isFinite_step hwidth)] at hfirst
    refine ⟨first, inner, hedges, ?_⟩
    rw [hfirst.beq_eq (.refl low)]
    exact beq_iff_le.2 ⟨hself, hself⟩

/-- **Views of tallies conserve values**, and there is such a view if there are values. -/
theorem conserves_of_tallies {kind : HistogramKind} {operation : Operation} {tallies : List Tally}
    {totals : List (String × String × ℕ)} {binned : Set Float}
    (htotals : (tallies.map fun t => (t.source, t.key, t.values.countP fun x => !x.isNaN)) = totals)
    (hbinned : ∀ x, x ∈ tallies.flatMap Tally.values ↔ x ∈ binned) :
    ((∃ view, sharedHistogram kind operation tallies = .ok view) ↔ ∃ x, x ∈ binned) ∧
    ∀ view, sharedHistogram kind operation tallies = .ok view →
      Conserves kind totals binned view := by
  obtain rfl : {x | x ∈ tallies.flatMap Tally.values} = binned := Set.ext hbinned
  refine ⟨⟨?_, ?_⟩, ?_⟩
  · rintro ⟨view, h⟩
    exact List.exists_mem_of_ne_nil _ (ne_nil_of_sharedHistogram h)
  · rintro ⟨x, hx⟩
    obtain ⟨_, _, _, hok⟩ := exists_sharedHistogram (List.ne_nil_of_mem hx)
    exact ⟨_, hok⟩
  intro view h
  obtain ⟨low, high, hextremes, hview⟩ := sharedHistogram_eq_ok h
  refine ⟨_, _, hview, Bins.length_linspace _ _ _, ?_, hextremes.spanned⟩
  rw [← htotals, List.map_map, List.map_map]
  apply List.map_congr_left
  intro t ht
  have hlength : (t.count (Bins.linspace low high sharedEdgeCount)).counts.length = 19 := by
    show (Bins.binCounts t.values (Bins.linspace low high sharedEdgeCount)).length = 19
    rw [Bins.length_binCounts, Bins.length_linspace]
    rfl
  show (_, _, _, _, _) = (_, _, _, _, _)
  rw [hlength, sum_count hextremes ht]
  rfl

/-- Some source reports a value for one of the keys. -/
def Reports (frames : Frames) (keys : List String) (x : Float) : Prop :=
  ∃ s ∈ frames.entries, ∃ key ∈ keys, some x ∈ s.2.series key

/-- The values of each key in each source, before they are counted. -/
def tallies (frames : Frames) (keys : List String) : List Tally :=
  frames.entries.flatMap fun s => keys.map fun key => ⟨s.1, key, (s.2.series key).present⟩

theorem mem_tallies {frames : Frames} {keys : List String} {x : Float} :
    x ∈ (frames.tallies keys).flatMap Tally.values ↔ frames.Reports keys x := by
  simp only [tallies, List.mem_flatMap, List.mem_map, Reports]
  constructor
  · rintro ⟨t, ⟨s, hs, key, hkey, rfl⟩, hx⟩
    exact ⟨s, hs, key, hkey, Series.mem_present.1 hx⟩
  · rintro ⟨s, hs, key, hkey, hx⟩
    exact ⟨_, ⟨s, hs, key, hkey, rfl⟩, Series.mem_present.2 hx⟩

/-- Two values of a pair of keys, in the same frame of a source, have this finite quotient. -/
def ReportsRatio (frames : Frames) (pairs : List RatioRequest) (x : Float) : Prop :=
  ∃ s ∈ frames.entries, ∃ p ∈ pairs, ∃ (frame : ℕ) (a b : Float),
    (s.2.series p.numerator)[frame]? = some (some a) ∧
    (s.2.series p.denominator)[frame]? = some (some b) ∧ (a / b).isFinite = true ∧ x = a / b

/-- **Histograms conserve values.** There is a view if there is a value to count, and it has one
histogram for each source and each key or pair of keys, for one source after the other.

* Its counts add up to the number of values of the key in the source that are present and not NaN. It
  makes no difference whether there are infinities among them or NaN, whether all of them are equal or
  whether they are too far apart for a finite range.
* The counts of quotients add up to the number of frames in which both values are present and their
  quotient is finite.
* The first and the last edge are the least and the greatest value, if all values are finite and so is
  their distance. -/
theorem histograms_conserve (frames : Frames) :
    (∀ keys, ((∃ view, frames.histogramView keys = .ok view) ↔ ∃ x, frames.Reports keys x) ∧
      ∀ view, frames.histogramView keys = .ok view →
        Conserves .values
          (frames.entries.flatMap fun s => keys.map fun key =>
            (s.1, key, (s.2.series key).countP fun v => v.any fun x => !x.isNaN))
          {x | frames.Reports keys x} view) ∧
    ∀ pairs, ((∃ view, frames.ratioView pairs = .ok view) ↔ ∃ x, frames.ReportsRatio pairs x) ∧
      ∀ view, frames.ratioView pairs = .ok view →
        Conserves .ratios
          (frames.entries.flatMap fun s => pairs.map fun p =>
            (s.1, p.numerator ++ " / " ++ p.denominator,
              {frame : ℕ | ∃ a b : Float,
                (s.2.series p.numerator)[frame]? = some (some a) ∧
                (s.2.series p.denominator)[frame]? = some (some b) ∧
                (a / b).isFinite = true}.ncard))
          {x | frames.ReportsRatio pairs x} view := by
  constructor
  · intro keys
    apply conserves_of_tallies
    · rw [List.map_flatMap]
      congr 1
      funext ⟨source, columns⟩
      rw [List.map_map]
      apply List.map_congr_left
      intro key _
      have hcount := Series.countP_present (columns.series key) fun x => !x.isNaN
      exact congrArg (fun total => (source, key, total)) hcount
    · exact fun x => mem_tallies
  · intro pairs
    apply conserves_of_tallies
    · rw [List.map_flatMap]
      congr 1
      funext ⟨source, columns⟩
      rw [List.map_map]
      apply List.map_congr_left
      intro p _
      have hcount := Series.countP_ratios (columns.series p.numerator) (columns.series p.denominator)
      exact congrArg (fun total => (source, p.name, total)) hcount
    · intro x
      simp only [List.mem_flatMap, List.mem_map]
      constructor
      · rintro ⟨t, ⟨s, hs, p, hp, rfl⟩, hx⟩
        exact ⟨s, hs, p, hp, Series.mem_ratios.1 hx⟩
      · rintro ⟨s, hs, p, hp, hx⟩
        exact ⟨_, ⟨s, hs, p, hp, rfl⟩, Series.mem_ratios.2 hx⟩

/-- Infinite values and NaN among the values of a key, and a frame that lacks a denominator. -/
theorem histograms_conserve_infinite :
    let frames : Frames := .ofList [
      ("a", .ofList [("k", [some 1, none, some infinity, some notANumber]), ("n", [some 0, some 2])]),
      ("b", .ofList [("k", [some 3]), ("n", [none])])]
    ∃ edges histograms edges' ratios,
      frames.histogramView ["k"] = .ok (.histogram .values edges histograms) ∧
      histograms.map (fun h => h.counts.sum) = [2, 1] ∧
      frames.ratioView [⟨"n", "k"⟩] = .ok (.histogram .ratios edges' ratios) ∧
      ratios.map (fun h => h.label) = ["n / k:a", "n / k:b"] := by
  intro frames
  obtain ⟨hvalues, hratios⟩ := histograms_conserve frames
  obtain ⟨edges, histograms, hview, -, hsums, -⟩ := (hvalues ["k"]).2 _ rfl
  obtain ⟨edges', ratios, hview', -, hlabels, -⟩ := (hratios [⟨"n", "k"⟩]).2 _ rfl
  have hsums := congrArg (List.map fun h => h.2.2.2.2) hsums
  have hlabels := congrArg (List.map fun h => h.1) hlabels
  rw [List.map_map] at hsums hlabels
  refine ⟨edges, histograms, edges', ratios, congrArg Except.ok hview, hsums.trans ?_,
    congrArg Except.ok hview', hlabels.trans ?_⟩
  · decide +kernel
  · rfl

/-! ### NaN among the values -/

/-- A tally without NaN. -/
def Tally.withoutNaN (t : Tally) : Tally :=
  { t with values := t.values.filter fun x => !x.isNaN }

theorem histogramView_eq (frames : Frames) (keys : List String) :
    frames.histogramView keys = sharedHistogram .values .histogram (frames.tallies keys) := rfl

theorem tallies_withoutNaN (frames : Frames) (keys : List String) :
    frames.withoutNaN.tallies keys = (frames.tallies keys).map Tally.withoutNaN := by
  unfold tallies withoutNaN OrderedMap.mapWithKey
  rw [List.flatMap_map, List.map_flatMap]
  congr 1
  funext ⟨source, columns⟩
  rw [List.map_map]
  apply List.map_congr_left
  intro key _
  show Tally.mk source key (columns.withoutNaN.series key).present = Tally.mk source key _
  rw [Columns.series_withoutNaN, Series.present_withoutNaN]

theorem values_withoutNaN (tallies : List Tally) :
    (tallies.map Tally.withoutNaN).flatMap Tally.values =
      (tallies.flatMap Tally.values).filter fun x => !x.isNaN := by
  rw [List.flatMap_map, List.filter_flatMap]
  rfl

/-- Where no value is NaN nothing is left out. -/
theorem map_withoutNaN {tallies : List Tally}
    (h : ∀ x ∈ tallies.flatMap Tally.values, x.isNaN = false) :
    tallies.map Tally.withoutNaN = tallies := by
  have hfixed : ∀ t ∈ tallies, t.withoutNaN = id t := by
    intro t ht
    have hvalues : (t.values.filter fun x => !x.isNaN) = t.values := by
      rw [List.filter_eq_self]
      intro x hx
      rw [h x (List.mem_flatMap.2 ⟨t, ht, hx⟩)]
      rfl
    exact congrArg (Tally.mk t.source t.key) hvalues
  rw [List.map_congr_left hfixed, List.map_id]

/-- Both tallies count as many values, each over the range of its own values. -/
theorem sum_count_withoutNaN {tallies : List Tally} {low high low' high' : Float}
    (h : Extremes (tallies.flatMap Tally.values) low high)
    (h' : Extremes ((tallies.map Tally.withoutNaN).flatMap Tally.values) low' high') {t : Tally}
    (ht : t ∈ tallies) :
    (t.withoutNaN.count (Bins.linspace low' high' sharedEdgeCount)).counts.sum =
      (t.count (Bins.linspace low high sharedEdgeCount)).counts.sum := by
  rw [sum_count h ht, sum_count h' (List.mem_map_of_mem ht)]
  simp [Tally.withoutNaN, List.countP_filter]

/-- Over edges that are NaN a tally counts all its values in the first bin. -/
theorem counts_of_isNaN {low high : Float} (hlow : low.isNaN = true) (hhigh : high.isNaN = true)
    (t : Tally) :
    (t.count (Bins.linspace low high sharedEdgeCount)).counts =
      (t.count (Bins.linspace low high sharedEdgeCount)).counts.sum :: List.replicate 18 0 := by
  have hlength : (Bins.linspace low high sharedEdgeCount).length = 20 :=
    Bins.length_linspace low high sharedEdgeCount
  have hcounts := Bins.binCounts_of_isNaN (by omega)
    (Bins.isNaN_linspace hlow hhigh sharedEdgeCount) t.values
  rw [hlength] at hcounts
  show Bins.binCounts t.values _ = (Bins.binCounts t.values _).sum :: _
  rw [hcounts, List.sum_cons, List.sum_replicate, smul_zero, Nat.add_zero]

section

variable {values : List Float} {low high : Float} (h : Extremes values low high)

include h

theorem Extremes.isNaN (hNaN : ∃ x ∈ values, x.isNaN = true) :
    low.isNaN = true ∧ high.isNaN = true := by
  cases h with
  | unordered _ hlow hhigh => exact ⟨hlow, hhigh⟩
  | ordered _ _ hall =>
    obtain ⟨x, hx, hNaN⟩ := hNaN
    obtain ⟨-, hnumber, -⟩ := le_iff.1 (hall x hx).1
    exact absurd (hNaN.symm.trans hnumber) (by decide)

theorem Extremes.isNaN_high (hnumbers : ∀ x ∈ values, x.isNaN = false) : high.isNaN = false := by
  cases h with
  | unordered hNaN _ _ =>
    obtain ⟨x, hx, hNaN⟩ := hNaN
    exact absurd (hNaN.symm.trans (hnumbers x hx)) (by decide)
  | ordered _ hhigh _ => exact hnumbers high hhigh

end

/-- **NaN among the values is not left out.** A view of some values is compared with that of the same
frames where there is a gap in place of each NaN.

* Both views succeed and have the same histograms but for their counts, and both count as many values.
* They are the same exactly if there is no NaN.
* If there is one, all edges are NaN and all values of a histogram are in its first bin. -/
theorem histogramView_withoutNaN_iff {frames : Frames} {keys : List String}
    (h : ∃ x, frames.Reports keys x ∧ x.isNaN = false) :
    ∃ edges histograms edges' histograms',
      frames.histogramView keys = .ok (.histogram .values edges histograms) ∧
      frames.withoutNaN.histogramView keys = .ok (.histogram .values edges' histograms') ∧
      (histograms.map fun h => (h.label, h.source, h.key, h.counts.sum)) =
        (histograms'.map fun h => (h.label, h.source, h.key, h.counts.sum)) ∧
      (edges = edges' ∧ histograms = histograms' ↔
        ∀ x, frames.Reports keys x → x.isNaN = false) ∧
      ((∃ x, frames.Reports keys x ∧ x.isNaN = true) →
        (∀ e ∈ edges, e.isNaN = true) ∧
        ∀ h ∈ histograms, h.counts = h.counts.sum :: List.replicate 18 0) := by
  obtain ⟨x, hx, hnumber⟩ := h
  simp only [← mem_tallies] at hx ⊢
  rw [histogramView_eq, histogramView_eq, tallies_withoutNaN]
  generalize frames.tallies keys = tallies at hx ⊢
  have hx' : x ∈ (tallies.map Tally.withoutNaN).flatMap Tally.values := by
    rw [values_withoutNaN, List.mem_filter, hnumber]
    exact ⟨hx, rfl⟩
  have hnumbers : ∀ y ∈ (tallies.map Tally.withoutNaN).flatMap Tally.values, y.isNaN = false := by
    intro y hy
    rw [values_withoutNaN, List.mem_filter, Bool.not_eq_true'] at hy
    exact hy.2
  obtain ⟨low, high, hextremes, hok⟩ :=
    @exists_sharedHistogram .values .histogram tallies (List.ne_nil_of_mem hx)
  obtain ⟨low', high', hextremes', hok'⟩ :=
    @exists_sharedHistogram .values .histogram (tallies.map Tally.withoutNaN)
      (List.ne_nil_of_mem hx')
  refine ⟨_, _, _, _, hok, hok', ?_, ⟨?_, ?_⟩, ?_⟩
  · rw [List.map_map, List.map_map, List.map_map]
    apply List.map_congr_left
    intro t ht
    show (_, _, _, _) = (_, _, _, _)
    rw [sum_count_withoutNaN hextremes hextremes' ht]
    rfl
  · rintro ⟨hsame, -⟩ y hy
    by_contra hNaN
    obtain ⟨hlow, hhigh⟩ := hextremes.isNaN ⟨y, hy, Bool.eq_true_of_not_eq_false hNaN⟩
    have hedges := Bins.isNaN_linspace hlow hhigh sharedEdgeCount
    -- The last edge of the view without NaN is one of its values, so it is not NaN.
    obtain ⟨first, inner, hends, -⟩ := Bins.linspace_ends low' high' 18
    have hlast : high' ∈ Bins.linspace low' high' sharedEdgeCount := hends ▸ by simp
    rw [← hsame] at hlast
    exact absurd ((hedges high' hlast).symm.trans (hextremes'.isNaN_high hnumbers)) (by decide)
  · intro hall
    have hself := map_withoutNaN hall
    rw [hself] at hok'
    obtain ⟨-, hsame, hsame'⟩ := View.histogram.inj (Except.ok.inj (hok.symm.trans hok'))
    exact ⟨hsame, hself.symm ▸ hsame'⟩
  · intro hNaN
    obtain ⟨hlow, hhigh⟩ := hextremes.isNaN hNaN
    refine ⟨Bins.isNaN_linspace hlow hhigh sharedEdgeCount, ?_⟩
    intro histogram hmem
    obtain ⟨t, -, rfl⟩ := List.mem_map.1 hmem
    exact counts_of_isNaN hlow hhigh t

/-- NaN between two other values. -/
theorem histogramView_withoutNaN_iff_between :
    let frames : Frames := .ofList [("a", .ofList [("k", [some 1, some notANumber, some 3])])]
    ∃ edges histograms edges' histograms',
      frames.histogramView ["k"] = .ok (.histogram .values edges histograms) ∧
      frames.withoutNaN.histogramView ["k"] = .ok (.histogram .values edges' histograms') ∧
      ¬ (edges = edges' ∧ histograms = histograms') ∧
      (∀ e ∈ edges, e.isNaN = true) ∧
      ∀ h ∈ histograms, h.counts = h.counts.sum :: List.replicate 18 0 := by
  intro frames
  have hreports : ∀ x, some x ∈ [some 1, some notANumber, some 3] → frames.Reports ["k"] x :=
    fun x hx => ⟨_, List.mem_cons_self, "k", List.mem_cons_self, hx⟩
  obtain ⟨edges, histograms, edges', histograms', hview, hview', -, hsame, hNaN⟩ :=
    histogramView_withoutNaN_iff ⟨1, hreports 1 (by simp), by decide⟩
  refine ⟨edges, histograms, edges', histograms', hview, hview', ?_,
    hNaN ⟨notANumber, hreports notANumber (by simp), by decide⟩⟩
  intro h
  exact absurd (hsame.1 h notANumber (hreports notANumber (by simp))) (by decide)

/-- The edges are not those of the frames with gaps for NaN: some values are lost to the first bin. -/
theorem not_histogramView_withoutNaN :
    ¬ ∀ (frames : Frames) (keys : List String),
      (∃ x, frames.Reports keys x ∧ x.isNaN = false) →
      frames.histogramView keys = frames.withoutNaN.histogramView keys := by
  intro h
  let frames : Frames := .ofList [("a", .ofList [("k", [some 1, some notANumber, some 3])])]
  have hreports : frames.Reports ["k"] 1 :=
    ⟨_, List.mem_cons_self, "k", List.mem_cons_self, List.mem_cons_self⟩
  have hsame := h frames ["k"] ⟨1, hreports, by decide⟩
  revert hsame
  decide +kernel

end Frames

end Framewise
