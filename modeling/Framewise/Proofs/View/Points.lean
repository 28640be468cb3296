import Framewise.Proofs.Number.Order
import Framewise.Proofs.OrderedMap
import Framewise.Proofs.Series
import Framewise.View.Build

/-!
# Points of a plot

A plot groups the frames by the value of one series and puts together the values of the other. Its
points are collected one frame after the other, as a map in the order of insertion is, and sorted in the
end. So no frame is lost, none counts twice, and no value ends up at a point that is not its own.

* `samePoint_iff`: points are told apart by a key, which both zeros share.
* `Collected.addToPoint`, `collected_foldl`: what has been collected after some frames.
* `grouped`: the groups are those of the frames.
* `ascending_points`: sorting leaves no two points at one place.
* `points_grouped`: where the points are, and what is put together at each.
-/

namespace Framewise

open Number
open Float.Model.UnpackedFloat

/-! ### Samples -/

/-- Put together the values of a sample, which fails if there are none. -/
def Aggregation.ofSample : Aggregation → List Float → Except Shortfall Float
  | .mean => Sample.mean
  | .median => Sample.median

/-- Where there are values it does not fail. -/
theorem Aggregation.ofSample_eq_ok (aggregation : Aggregation) {values : List Float}
    (h : values ≠ []) : aggregation.ofSample values = .ok (aggregation.apply values) := by
  cases values with
  | nil => exact absurd rfl h
  | cons x values =>
    cases aggregation with
    | mean => rfl
    | median => rfl

namespace Frames

/-! ### Keys of points -/

/-- What tells points apart: the place of a value in the order of doubles. NaN has none. -/
def pointKey (x : Float) : Option (ℤ ×ₗ ℤ ×ₗ ℤ) :=
  if x.isNaN then none else some (height (unpack x))

theorem pointKey_of_isNaN {x : Float} (h : x.isNaN = true) : pointKey x = none :=
  if_pos h

theorem pointKey_of_number {x : Float} (h : x.isNaN = false) :
    pointKey x = some (height (unpack x)) := by
  unfold pointKey
  rw [h]
  rfl

/-- **Two values belong to the same point** if they have the same key. -/
theorem samePoint_iff {a b : Float} : samePoint a b = true ↔ pointKey a = pointKey b := by
  unfold samePoint
  rw [Bool.or_eq_true, Bool.and_eq_true, beq_iff]
  cases ha : a.isNaN with
  | true =>
    rw [pointKey_of_isNaN ha]
    cases hb : b.isNaN with
    | true => simp [pointKey_of_isNaN hb]
    | false => simp [pointKey_of_number hb]
  | false =>
    rw [pointKey_of_number ha]
    cases hb : b.isNaN with
    | true => simp [pointKey_of_isNaN hb]
    | false => simp [pointKey_of_number hb]

/-- Equal values are those that share a point, unless it is the point of NaN. -/
theorem beq_iff_pointKey {a b : Float} (h : a.isNaN = false ∨ b.isNaN = false) :
    (a == b) = true ↔ pointKey a = pointKey b := by
  have hNaN : (a.isNaN && b.isNaN) = false := by
    rcases h with h | h
    · rw [h, Bool.false_and]
    · rw [h, Bool.and_false]
  rw [← samePoint_iff]
  unfold samePoint
  rw [hNaN, Bool.or_false]

/-! ### Collecting points -/

/-- The values of each point by its key. -/
def byKey (points : List (Float × List Float)) : List (Option (ℤ ×ₗ ℤ ×ₗ ℤ) × List Float) :=
  points.map fun p => (pointKey p.1, p.2)

/-- Adding a value to a point is inserting its values with one more. -/
theorem byKey_addToPoint (x y : Float) (points : List (Float × List Float)) :
    byKey (addToPoint x y points) =
      upsert (pointKey x) (y :: (valueOf? (pointKey x) (byKey points)).getD []) (byKey points) := by
  induction points with
  | nil => rfl
  | cons p points ih =>
    obtain ⟨x', ys⟩ := p
    by_cases hsame : pointKey x' = pointKey x
    · have htest : samePoint x' x = true := samePoint_iff.2 hsame
      show byKey (if samePoint x' x then _ else _) = _
      rw [if_pos htest]
      simp [byKey, upsert, valueOf?, hsame]
    · have htest : ¬ samePoint x' x = true := fun h => hsame (samePoint_iff.1 h)
      show byKey (if samePoint x' x then _ else _) = _
      rw [if_neg htest]
      simp only [byKey, List.map_cons, upsert, valueOf?, hsame, if_false]
      exact congrArg (List.cons _) ih

/-- The points that have been collected from pairs of values: one for each key that occurs, with all
values of this key. The value seen last is the first one. -/
structure Collected (pairs : List (Float × Float)) (points : List (Float × List Float)) : Prop where
  distinct : ((byKey points).map Prod.fst).Nodup
  mem_keys : ∀ key, key ∈ (byKey points).map Prod.fst ↔ ∃ q ∈ pairs, pointKey q.1 = key
  values : ∀ key, (valueOf? key (byKey points)).getD [] =
    ((pairs.filter fun q => pointKey q.1 = key).map Prod.snd).reverse

/-- **One more pair** adds its value to its point. -/
theorem Collected.addToPoint {pairs : List (Float × Float)} {points : List (Float × List Float)}
    (h : Collected pairs points) (x y : Float) :
    Collected (pairs ++ [(x, y)]) (addToPoint x y points) where
  distinct := by
    rw [byKey_addToPoint]
    exact nodup_keys_upsert _ _ h.distinct
  mem_keys := by
    intro key
    have hmore : (∃ q ∈ pairs ++ [(x, y)], pointKey q.1 = key) ↔
        (∃ q ∈ pairs, pointKey q.1 = key) ∨ pointKey x = key := by
      simp [or_and_right, exists_or]
    rw [byKey_addToPoint, keys_upsert, hmore, ← h.mem_keys]
    split
    · next hold => exact (or_iff_left_of_imp fun heq => heq ▸ hold).symm
    · rw [List.mem_append, List.mem_singleton, eq_comm]
  values := by
    intro key
    -- The new pair is the last of the pairs, and its value the first of its point.
    rw [byKey_addToPoint, valueOf?_upsert, List.filter_append, List.map_append, List.reverse_append]
    by_cases hkey : pointKey x = key
    · subst hkey
      simp [h.values]
    · simp [hkey, h.values]

/-- **All pairs, one after the other.** -/
theorem collected_foldl (pairs : List (Float × Float)) :
    Collected pairs (pairs.foldl (fun points q => Frames.addToPoint q.1 q.2 points) []) := by
  induction pairs using List.reverseRecOn with
  | nil => exact ⟨.nil, by simp [byKey], fun _ => rfl⟩
  | append_singleton pairs q ih =>
    rw [List.foldl_append]
    exact ih.addToPoint q.1 q.2

/-! ### Groups of frames -/

/-- The pairs of values of two series, frame by frame. -/
def pairs (xs ys : Series) : List (Float × Float) :=
  (List.zip xs ys).filterMap fun
    | (some x, some y) => some (x, y)
    | _ => none

theorem mem_pairs {xs ys : Series} {x y : Float} : (x, y) ∈ pairs xs ys ↔
    ∃ frame : ℕ, xs[frame]? = some (some x) ∧ ys[frame]? = some (some y) := by
  unfold pairs
  rw [List.mem_filterMap]
  simp only [List.mem_iff_getElem?, List.getElem?_zip_eq_some]
  constructor
  · rintro ⟨⟨v, w⟩, ⟨frame, hv, hw⟩, h⟩
    cases v with
    | none => cases h
    | some v =>
      cases w with
      | none => cases h
      | some w =>
        obtain ⟨rfl, rfl⟩ := Prod.mk.inj (Option.some.inj h)
        exact ⟨frame, hv, hw⟩
  · rintro ⟨frame, hx, hy⟩
    exact ⟨(some x, some y), ⟨frame, hx, hy⟩, rfl⟩

/-- The second of two values, if the first one is `x`. -/
def over? (x : Float) : Option Float → Option Float → Option Float
  | some v, some y => if v == x then some y else none
  | _, _ => none

/-- The values of one series in the frames where the other one has the value `x`, in the order of the
frames. Both zeros are the same value. -/
def valuesOver (xs ys : Series) (x : Float) : List Float :=
  Series.present (List.zipWith (over? x) xs ys)

theorem valuesOver_eq (xs ys : Series) {x : Float} (hx : x.isNaN = false) :
    valuesOver xs ys x =
      ((pairs xs ys).filter fun q => pointKey q.1 = pointKey x).map Prod.snd := by
  unfold valuesOver pairs Series.present
  rw [List.filter_filterMap, List.map_filterMap, ← List.map_uncurry_zip_eq_zipWith,
    List.filterMap_map]
  congr 1
  funext ⟨v, w⟩
  cases v with
  | none => rfl
  | some v =>
    cases w with
    | none => rfl
    | some w =>
      show (if v == x then some w else none) = _
      have hsame := @beq_iff_pointKey v x (.inr hx)
      by_cases hkey : pointKey v = pointKey x
      · simp [hsame.2 hkey, hkey]
      · rw [if_neg fun h => hkey (hsame.1 h)]
        simp [hkey]

/-- Groups of the frames of two series by the values of the first one. -/
structure Grouped (xs ys : Series) (groups : List (Float × List Float)) : Prop where
  distinct : (groups.map fun p => pointKey p.1).Nodup
  mem_keys : ∀ key, key ∈ (groups.map fun p => pointKey p.1) ↔
    ∃ (frame : ℕ) (x y : Float),
      xs[frame]? = some (some x) ∧ ys[frame]? = some (some y) ∧ pointKey x = key
  values : ∀ p ∈ groups, p.1.isNaN = false → p.2 = valuesOver xs ys p.1

/-- **Frames are grouped** by the values of the first series. -/
theorem grouped (xs ys : Series) : Grouped xs ys (groupByPoint xs ys) := by
  have h := collected_foldl (pairs xs ys)
  let collected := (pairs xs ys).foldl (fun points q => Frames.addToPoint q.1 q.2 points) []
  -- Turning the values of each point around leaves the points where they are.
  have hkeys : ((groupByPoint xs ys).map fun p => pointKey p.1) =
      (byKey collected).map Prod.fst := by
    show ((collected.map fun p => (p.1, p.2.reverse)).map fun p => pointKey p.1) =
      (collected.map fun p => (pointKey p.1, p.2)).map Prod.fst
    rw [List.map_map, List.map_map]
    rfl
  constructor
  · rw [hkeys]
    exact h.distinct
  · intro key
    rw [hkeys, h.mem_keys]
    constructor
    · rintro ⟨⟨x, y⟩, hq, hkey⟩
      obtain ⟨frame, hx, hy⟩ := mem_pairs.1 hq
      exact ⟨frame, x, y, hx, hy, hkey⟩
    · rintro ⟨frame, x, y, hx, hy, hkey⟩
      exact ⟨(x, y), mem_pairs.2 ⟨frame, hx, hy⟩, hkey⟩
  · intro p hp hnumber
    obtain ⟨⟨x, ys'⟩, hmem, rfl⟩ := List.mem_map.1 hp
    have hvalues := h.values (pointKey x)
    rw [valueOf?_of_mem h.distinct (List.mem_map.2 ⟨(x, ys'), hmem, rfl⟩)] at hvalues
    rw [valuesOver_eq xs ys hnumber]
    show ys'.reverse = _
    rw [show ys' = _ from hvalues, List.reverse_reverse]

/-- A point has values if some frame belongs to it. -/
theorem valuesOver_ne_nil {xs ys : Series} {frame : ℕ} {x v y : Float} (hx : x.isNaN = false)
    (hv : xs[frame]? = some (some v)) (hy : ys[frame]? = some (some y))
    (hkey : pointKey v = pointKey x) : valuesOver xs ys x ≠ [] := by
  rw [valuesOver_eq xs ys hx]
  apply List.ne_nil_of_mem (a := y)
  apply List.mem_map.2
  exact ⟨(v, y), List.mem_filter.2 ⟨mem_pairs.2 ⟨frame, hv, hy⟩, decide_eq_true hkey⟩, rfl⟩

/-! ### Points in order -/

theorem mem_points {aggregation : Aggregation} {xs ys : Series} {q : Float × Float} :
    q ∈ points aggregation xs ys ↔
      ∃ p ∈ groupByPoint xs ys, (p.1, aggregation.apply p.2) = q := by
  unfold points
  rw [List.mem_mergeSort, List.mem_map]

/-- There is one point for each group. -/
theorem keys_points_perm (aggregation : Aggregation) (xs ys : Series) :
    (((points aggregation xs ys).map Prod.fst).map pointKey).Perm
      ((groupByPoint xs ys).map fun p => pointKey p.1) := by
  have hperm := (List.mergeSort_perm
    ((groupByPoint xs ys).map fun p => (p.1, aggregation.apply p.2))
    fun a b => !(b.1 < a.1)).map fun q => pointKey q.1
  rw [List.map_map] at hperm ⊢
  exact hperm

theorem nodup_keys_points (aggregation : Aggregation) (xs ys : Series) :
    (((points aggregation xs ys).map Prod.fst).map pointKey).Nodup :=
  (keys_points_perm aggregation xs ys).nodup_iff.2 (grouped xs ys).distinct

/-- Each frame has a point. -/
theorem exists_point_of_frame (aggregation : Aggregation) {xs ys : Series} {frame : ℕ}
    {x y : Float} (hx : xs[frame]? = some (some x)) (hy : ys[frame]? = some (some y)) :
    ∃ x' ∈ (points aggregation xs ys).map Prod.fst, pointKey x' = pointKey x := by
  apply List.mem_map.1
  apply (keys_points_perm aggregation xs ys).mem_iff.2
  exact ((grouped xs ys).mem_keys (pointKey x)).2 ⟨frame, x, y, hx, hy, rfl⟩

theorem lt_of_le_of_pointKey {a b : Float} (hle : a ≤ b) (hne : pointKey a ≠ pointKey b) :
    a < b := by
  obtain ⟨ha, hb, -⟩ := le_iff.1 hle
  rw [← not_le_iff hb ha]
  intro hge
  exact hne ((beq_iff_pointKey (.inl ha)).1 (beq_iff_le.2 ⟨hle, hge⟩))

section

variable {aggregation : Aggregation} {xs ys : Series} (hx : ∀ x, some x ∈ xs → x.isNaN = false)

include hx

/-- Each group is that of a frame. -/
theorem exists_frame_of_mem_groups {p : Float × List Float} (hp : p ∈ groupByPoint xs ys) :
    p.1.isNaN = false ∧ ∃ (frame : ℕ) (v y : Float),
      xs[frame]? = some (some v) ∧ ys[frame]? = some (some y) ∧ pointKey v = pointKey p.1 := by
  obtain ⟨frame, v, y, hv, hy, hkey⟩ :=
    ((grouped xs ys).mem_keys (pointKey p.1)).1 (List.mem_map.2 ⟨p, hp, rfl⟩)
  refine ⟨?_, frame, v, y, hv, hy, hkey⟩
  rw [pointKey_of_number (hx v (List.mem_of_getElem? hv))] at hkey
  by_contra hNaN
  rw [pointKey_of_isNaN (Bool.eq_true_of_not_eq_false hNaN)] at hkey
  cases hkey

/-- **Points are in strictly ascending order.** -/
theorem ascending_points : ((points aggregation xs ys).map Prod.fst).Pairwise (· < ·) := by
  have hnumbers : ∀ q ∈ (groupByPoint xs ys).map (fun p => (p.1, aggregation.apply p.2)),
      q.1.isNaN = false := by
    rw [List.forall_mem_map]
    intro p hp
    exact (exists_frame_of_mem_groups hx hp).1
  have hsorted : (points aggregation xs ys).Pairwise fun a b => a.1 ≤ b.1 :=
    ascending_mergeSort Prod.fst hnumbers
  have hdistinct : (points aggregation xs ys).Pairwise fun a b => pointKey a.1 ≠ pointKey b.1 := by
    have hnodup := nodup_keys_points aggregation xs ys
    rw [List.Nodup, List.pairwise_map, List.pairwise_map] at hnodup
    exact hnodup
  apply List.pairwise_map.2
  apply List.Pairwise.imp _ (hsorted.and hdistinct)
  rintro a b ⟨hle, hne⟩
  exact lt_of_le_of_pointKey hle hne

end

/-- **Points group the frames.** If no value of the first series is NaN, then for means and medians
alike:

* The points are in strictly ascending order, and each has one value.
* They stand where the first series has a value in some frame in which the second one has a value too,
  and every such frame belongs to exactly one point.
* The value of a point is the mean or the median of the values that the second series has in the frames
  of this point, in the order of the frames. There are such values, so it does not fail. -/
theorem points_grouped (aggregation : Aggregation) {xs ys : Series}
    (hx : ∀ x, some x ∈ xs → x.isNaN = false) :
    let x := (points aggregation xs ys).map Prod.fst
    let y := (points aggregation xs ys).map Prod.snd
    x.Pairwise (· < ·) ∧ y.length = x.length ∧
    (∀ v ∈ x, ∃ (frame : ℕ) (v' w : Float),
      xs[frame]? = some (some v') ∧ ys[frame]? = some (some w) ∧ (v' == v) = true) ∧
    (∀ (frame : ℕ) (v w : Float), xs[frame]? = some (some v) → ys[frame]? = some (some w) →
      ∃! j : ℕ, ∃ v', x[j]? = some v' ∧ (v == v') = true) ∧
    ∀ (j : ℕ) (v : Float), x[j]? = some v →
      ∃ w, y[j]? = some w ∧ aggregation.ofSample (valuesOver xs ys v) = .ok w := by
  intro x y
  refine ⟨ascending_points hx, ?_, ?_, ?_, ?_⟩
  · rw [List.length_map, List.length_map]
  · intro v hv
    obtain ⟨q, hq, rfl⟩ := List.mem_map.1 hv
    obtain ⟨p, hp, rfl⟩ := mem_points.1 hq
    obtain ⟨hnumber, frame, v', w, hv', hw, hkey⟩ := exists_frame_of_mem_groups hx hp
    exact ⟨frame, v', w, hv', hw, (beq_iff_pointKey (.inr hnumber)).2 hkey⟩
  · intro frame v w hv hw
    have hequal : ∀ v', (v == v') = true ↔ pointKey v = pointKey v' := fun v' =>
      beq_iff_pointKey (.inl (hx v (List.mem_of_getElem? hv)))
    obtain ⟨v', hv', hkey⟩ := exists_point_of_frame aggregation hv hw
    obtain ⟨j, hj⟩ := List.mem_iff_getElem?.1 hv'
    refine ⟨j, ⟨v', hj, (hequal v').2 hkey.symm⟩, ?_⟩
    rintro i ⟨v'', hi, hv''⟩
    -- Two points of one frame have the same key, so they are the same point.
    have hkeys : (x.map pointKey)[i]? = (x.map pointKey)[j]? := by
      rw [List.getElem?_map (l := x), List.getElem?_map (l := x), hi, hj]
      exact congrArg some (((hequal v'').1 hv'').symm.trans hkey.symm)
    have hlt : i < (x.map pointKey).length := by
      rw [List.length_map]
      exact (List.getElem?_eq_some_iff.1 hi).1
    exact (List.getElem?_inj hlt (nodup_keys_points aggregation xs ys)).1 hkeys
  · intro j v hj
    rw [List.getElem?_map] at hj
    obtain ⟨q, hq, rfl⟩ := Option.map_eq_some_iff.1 hj
    obtain ⟨p, hp, rfl⟩ := mem_points.1 (List.mem_of_getElem? hq)
    obtain ⟨hnumber, frame, v, w, hv, hw, hkey⟩ := exists_frame_of_mem_groups hx hp
    refine ⟨aggregation.apply p.2, ?_, ?_⟩
    · rw [List.getElem?_map, hq]
      rfl
    · rw [(grouped xs ys).values p hp hnumber]
      exact aggregation.ofSample_eq_ok (valuesOver_ne_nil hnumber hv hw hkey)

/-- Values that are not in order, gaps in both series, both zeros, and a last frame that only the first
series has. -/
theorem points_grouped_zeros :
    let xs : Series := [some 3, none, some 0, some 1, some (-0), some 1, some 5]
    let ys : Series := [some 10, some 6, some 2, none, some 4, some 7]
    let x := (points .mean xs ys).map Prod.fst
    let y := (points .mean xs ys).map Prod.snd
    x = [0, 1, 3] ∧ y = [3, 7, 10] ∧ x.Pairwise (· < ·) ∧
      (∃! j : ℕ, ∃ v, x[j]? = some v ∧ ((-0 : Float) == v) = true) ∧
      ∃ w, y[0]? = some w ∧ Sample.mean [2, 4] = .ok w := by
  intro xs ys x y
  have hnumbers : ∀ v ∈ xs, v.any Float.isNaN = false := by decide +kernel
  have hpoints : points .mean xs ys = [(0, 3), (1, 7), (3, 10)] := by
    have hmeans : ((groupByPoint xs ys).map fun p => (p.1, Aggregation.mean.apply p.2)) =
        [(3, 10), (0, 3), (1, 7)] := by decide +kernel
    have hfirst : (0 : Float) < 3 := by decide +kernel
    have hsecond : (1 : Float) < 3 := by decide +kernel
    have hthird : ¬ (1 : Float) < 0 := by decide +kernel
    unfold points
    rw [hmeans]
    simp [List.mergeSort, List.MergeSort.Internal.splitInTwo, hfirst, hsecond, hthird]
  obtain ⟨hascending, -, -, hone, hvalues⟩ := @points_grouped .mean xs ys fun v hv =>
    hnumbers (some v) hv
  refine ⟨congrArg (List.map Prod.fst) hpoints, congrArg (List.map Prod.snd) hpoints, hascending,
    hone 4 (-0) 4 rfl rfl, ?_⟩
  obtain ⟨w, hw, hmean⟩ := hvalues 0 0 (by rw [hpoints]; rfl)
  exact ⟨w, hw, .trans (by decide +kernel) hmean⟩

end Frames

end Framewise
