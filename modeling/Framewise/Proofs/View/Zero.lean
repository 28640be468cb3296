import Framewise.Proofs.Check.Resubmission
import Framewise.Proofs.Outcome
import Framewise.Proofs.View.Windows
import Framewise.View.Build
import Framewise.View.Document

/-!
# Views and the sign of zero

A request may lose the signs of its zeros on the way. The views that are built for it show the same
as those of the request itself: ranges and counts do not depend on these signs, and the edges that
do are shown without them.

* `align_unsigned`: the same frames are aligned.
* `windowView_unsigned`: the edges of a window may differ in the sign of zero, the counts never do.
* `buildViews_unsigned`: all views show the same, or building them fails in the same way.
-/

namespace Framewise

open Number

/-! ### Ranges -/

/-- A bound cuts at the same place without the sign of zero. -/
theorem position_unsignZero (bound : Float) (n : ℕ) :
    FrameRange.position (unsignZero bound) n = FrameRange.position bound n := by
  have h := agree_unsignZero bound
  unfold FrameRange.position
  rw [read_eq, read_eq]
  unfold Agree at h
  generalize unpack (unsignZero bound) = u, unpack bound = v at h
  cases h with
  | same u => rfl
  | zeros s t =>
    have hwhole : wholePart 0 minExponent = 0 := by
      unfold wholePart
      rw [Nat.zero_mul, Nat.zero_div]
    show (if isNegative s = true ∧ 0 < wholePart 0 minExponent then _ else _) =
      if isNegative t = true ∧ 0 < wholePart 0 minExponent then _ else _
    rw [hwhole, if_neg (by omega), if_neg (by omega)]

theorem cut_unsigned {α : Type} (range : FrameRange) (xs : List α) :
    range.unsigned.cut xs = range.cut xs := by
  unfold FrameRange.cut FrameRange.unsigned
  rw [position_unsignZero, position_unsignZero]

/-- **The same frames are aligned.** -/
theorem align_unsigned (sources : Sources) (keys : List String) (range : FrameRange) :
    sources.align keys range.unsigned = sources.align keys range := by
  unfold Sources.align
  simp only [cut_unsigned]

/-- The same keys are read. -/
theorem keys_unsigned (r : ViewRequest) : r.unsigned.keys = r.keys := by
  unfold ViewRequest.keys ViewRequest.unsigned
  rw [List.map_map]
  rfl

/-! ### Bins -/

namespace Bins

/-- Edges agree if the ends between which they are spaced do. -/
theorem linspace_agree {start start' stop stop' : Float} (hstart : Agree start start')
    (hstop : Agree stop stop') (count : ℕ) :
    (linspace start stop count).map unsignZero = (linspace start' stop' count).map unsignZero := by
  match count with
  | 0 => rfl
  | 1 =>
    show [unsignZero start] = [unsignZero start']
    rw [hstart.unsignZero_eq]
  | count + 2 =>
    have hstep := (hstop.sub hstart).div (count + 1).toFloat
    unfold linspace steps
    rw [List.map_append, List.map_append, List.map_map, List.map_map]
    congr 1
    · apply List.map_congr_left
      intro i _
      exact (hstart.add (hstep.mul (.refl _))).unsignZero_eq
    · show [unsignZero stop] = [unsignZero stop']
      rw [hstop.unsignZero_eq]

theorem binBetween?_unsignZero (first last : Float) (inner : List Float) (x : Float) :
    binBetween? (unsignZero first) (unsignZero last) (inner.map unsignZero) x =
      binBetween? first last inner x := by
  have hfirst := agree_unsignZero first
  have hlast := agree_unsignZero last
  have hinner : (fun edge : Float => decide (x ≥ edge)) ∘ unsignZero =
      fun edge => decide (x ≥ edge) := by
    funext edge
    exact decide_eq_decide.2 ((agree_unsignZero edge).le_iff (.refl x))
  have hbelow : x < unsignZero first ↔ x < first := (Agree.refl x).lt_iff hfirst
  have habove : x > unsignZero last ↔ x > last := hlast.lt_iff (.refl x)
  have hequal : (x == unsignZero last) = (x == last) := (Agree.refl x).beq_eq hlast
  unfold binBetween?
  rw [List.takeWhile_map, hinner, List.length_map, List.length_map, hequal]
  simp only [hbelow, habove]

/-- A value falls into the same bin if the edges lose the sign of zero. -/
theorem binOf?_unsignZero (edges : List Float) (x : Float) :
    binOf? (edges.map unsignZero) x = binOf? edges x := by
  match edges with
  | [] => rfl
  | [_] => rfl
  | first :: next :: more =>
    have hne : (next :: more).map unsignZero ≠ [] := by simp
    have hlast : ((next :: more).map unsignZero).getLast hne =
        unsignZero ((next :: more).getLast (List.cons_ne_nil next more)) := List.getLast_map _
    show binBetween? (unsignZero first) (((next :: more).map unsignZero).getLast hne)
      ((next :: more).map unsignZero).dropLast x = _
    rw [hlast, ← List.map_dropLast]
    exact binBetween?_unsignZero first _ _ x

/-- Counts do not depend on the signs of the edges. -/
theorem binCounts_unsignZero (values edges : List Float) :
    binCounts values (edges.map unsignZero) = binCounts values edges := by
  have h : binOf? (edges.map unsignZero) = binOf? edges := funext (binOf?_unsignZero edges)
  unfold binCounts
  rw [h, List.length_map]

theorem binCounts_agree {edges edges' : List Float}
    (h : edges.map unsignZero = edges'.map unsignZero) (values : List Float) :
    binCounts values edges = binCounts values edges' := by
  rw [← binCounts_unsignZero, h, binCounts_unsignZero]

end Bins

/-! ### What is shown -/

namespace View

/-- What is read from the text of a view. -/
def shown (v : View) : Json := v.document.nameNonFinite.readBack

/-- A number is shown without the sign of zero, by name if it is not finite. -/
theorem shown_number (x : Float) : (Json.number (unsignZero x)).nameNonFinite.readBack =
    (Json.number x).nameNonFinite.readBack := by
  have hfinite := (agree_unsignZero x).isFinite_eq
  have htwice := (agree_unsignZero x).unsignZero_eq
  unfold Json.nameNonFinite
  rw [hfinite]
  by_cases hx : x.isFinite = true
  · rw [if_pos hx, if_pos hx, Json.readBack, Json.readBack, hfinite, htwice]
  · have hsame : unsignZero x = x := by
      have hx' : ¬ (unpack x).isFinite = true := hx
      unfold unsignZero
      split
      · next s h =>
        rw [h] at hx'
        exact absurd rfl hx'
      · rfl
    rw [if_neg hx, if_neg hx, hsame]

theorem shown_numbers (xs : List Float) :
    (Json.numbers (xs.map unsignZero)).nameNonFinite.readBack =
      (Json.numbers xs).nameNonFinite.readBack := by
  unfold Json.numbers
  rw [Json.nameNonFinite, Json.nameNonFinite, Json.readBack, Json.readBack, Json.nameItems_eq_map,
    Json.nameItems_eq_map]
  congr 1
  induction xs with
  | nil => rfl
  | cons x xs ih =>
    simp only [List.map_cons, Json.readItems] at ih ⊢
    rw [shown_number, ih]

/-- Histograms with the same counts show the same if their edges agree. -/
theorem shown_histogram (kind : HistogramKind) {edges edges' : List Float}
    (h : edges.map unsignZero = edges'.map unsignZero) (histograms : List Histogram) :
    shown (.histogram kind edges histograms) = shown (.histogram kind edges' histograms) := by
  have hedges : (Json.numbers edges).nameNonFinite.readBack =
      (Json.numbers edges').nameNonFinite.readBack := by
    rw [← shown_numbers, h, shown_numbers]
  unfold shown document
  simp only [Json.nameNonFinite, Json.nameFields, Json.readBack, Json.readFields, hedges]
  rfl

end View

/-! ### Windows -/

namespace Frames

theorem shown_window (frames : Frames) (key : String) {start start' stop stop' : Float}
    (hstart : Agree start start') (hstop : Agree stop stop') :
    (frames.window key start stop).shown = (frames.window key start' stop').shown := by
  have hedges := Bins.linspace_agree hstart hstop windowEdgeCount
  have hinside : (fun x : Float => decide (start ≤ x) && decide (x ≤ stop)) =
      fun x => decide (start' ≤ x) && decide (x ≤ stop') := by
    funext x
    have hlow : start ≤ x ↔ start' ≤ x := hstart.le_iff (.refl x)
    have hhigh : x ≤ stop ↔ x ≤ stop' := (Agree.refl x).le_iff hstop
    simp only [hlow, hhigh]
  unfold window Tally.count
  simp only [hinside, Bins.binCounts_agree hedges]
  exact View.shown_histogram .window hedges _

end Frames

/-- **A window shows the same edges and has the same counts.** -/
theorem windowView_unsigned (frames : Frames) (w : WindowRequest) :
    (frames.windowView w.unsigned).map View.shown = (frames.windowView w).map View.shown := by
  obtain ⟨key, scale⟩ := w
  have hscale := agree_unsignZero scale
  unfold WindowRequest.unsigned
  rw [Frames.windowView_eq, Frames.windowView_eq]
  generalize Sample.median (frames.reference key) = center
  generalize Sample.stdev (frames.reference key) = deviation
  -- Not `rfl` for the errors: it would compute the windows before it looks at the statistics.
  cases center with
  | error s => simp only [Except.bind, Except.map]
  | ok center =>
    cases deviation with
    | error s => simp only [Except.bind, Except.map]
    | ok deviation =>
      have hhalf := (Agree.refl (deviation / 2)).mul hscale
      have hshown := Frames.shown_window frames key ((Agree.refl center).sub hhalf)
        ((Agree.refl center).add hhalf)
      simp only [Except.bind, Except.map]
      rw [hshown]

/-! ### All views -/

theorem windowViews_unsigned (frames : Frames) (ws : List WindowRequest) :
    ((ws.map WindowRequest.unsigned).mapM frames.windowView).map (List.map View.shown) =
      (ws.mapM frames.windowView).map (List.map View.shown) := by
  rw [mapM_map, mapM_map]
  induction ws with
  | nil => rfl
  | cons w ws ih => rw [List.map_cons, List.mapM_cons, List.mapM_cons, windowView_unsigned, ih]

/-- **All views show the same**, or building them fails in the same way. -/
theorem buildViews_unsigned (frames : Frames) (r : ViewRequest) :
    (buildViews frames r.unsigned).map (List.map View.shown) =
      (buildViews frames r).map (List.map View.shown) := by
  have hflatten : ∀ vss : Except Shortfall (List (List View)),
      (vss.map List.flatten).map (List.map View.shown) =
        (vss.map (List.map (List.map View.shown))).map List.flatten := by
    intro vss
    cases vss with
    | error s => rfl
    | ok vss =>
      show Except.ok (vss.flatten.map View.shown) = _
      rw [List.map_flatten]
      rfl
  unfold buildViews
  simp only
  -- Only the part of the windows differs, and it shows the same.
  rw [hflatten, hflatten, mapM_map, mapM_map]
  congr 1
  have hwindows : (r.unsigned.stdevHist.mapM frames.windowView).map (List.map View.shown) =
      (r.stdevHist.mapM frames.windowView).map (List.map View.shown) :=
    windowViews_unsigned frames r.stdevHist
  simp only [List.mapM_cons, id, hwindows]
  rfl

end Framewise
