import Framewise.Proofs.Number.Overflow
import Framewise.Proofs.Statistics.Bins

/-!
# Evenly spaced edges

Evenly spaced edges end where their range ends. They start where it starts, up to the sign of zero,
or else with NaN: where the distance between two edges is not finite the first edge is NaN. So no
value of the range is below the first edge or above the last one, and all of them are counted.

* `linspace_ends`: the first and the last edge.
* `sum_binCounts_linspace`: the counts of values that are not beyond the range.
* `binCounts_of_isNaN`: between edges that are NaN all values are in the first bin.
-/

namespace Framewise

open Float.Model (UnpackedFloat)
open Float.Model.UnpackedFloat

namespace Number

variable {x y : Float}

/-! ### Arithmetic with zero and NaN -/

theorem isNaN_iff : x.isNaN = true ↔ unpack x = .notANumber := by
  show (unpack x).isNaN = true ↔ _
  cases unpack x with
  | notANumber => exact ⟨fun _ => rfl, fun _ => rfl⟩
  | infinity s | zero s | finite s m e h =>
    constructor
    · intro hNaN
      cases hNaN
    · intro hform
      cases hform

theorem isNaN_add_left (h : x.isNaN = true) (y : Float) : (x + y).isNaN = true := by
  show (unpack (repack (add .binary64 (unpack x) (unpack y)))).isNaN = true
  rw [isNaN_iff.1 h, show add .binary64 .notANumber (unpack y) = .notANumber from rfl,
    unpack_repack_notANumber]
  rfl

theorem isNaN_add_right (x : Float) (h : y.isNaN = true) : (x + y).isNaN = true := by
  have hadd : add .binary64 (unpack x) .notANumber = .notANumber := by
    cases unpack x with
    | notANumber | infinity s | zero s | finite s m e h => rfl
  show (unpack (repack (add .binary64 (unpack x) (unpack y)))).isNaN = true
  rw [isNaN_iff.1 h, hadd, unpack_repack_notANumber]
  rfl

/-- Adding zero changes the sign of zero at most. -/
theorem agree_add_zero (x : Float) : Agree (x + 0) x := by
  have hzero : UpToZero (add .binary64 (unpack x) (.zero .positive)) (unpack x) := by
    cases unpack x with
    | notANumber | infinity s | finite s m e h => exact .same _
    | zero s =>
      show UpToZero (if _ then .zero _ else .zero _) _
      split
      · exact .zeros _ _
      · exact .zeros _ _
  have hx : unpack (repack (unpack x)) = unpack x := (form_unpack x).unpack_repack
  have h := hzero.unpack_repack
  rwa [hx] at h

theorem agree_mul_zero (h : x.isFinite = true) : Agree (x * 0) 0 := by
  have hfinite : (unpack x).isFinite = true := h
  have hmul : UpToZero (mul .binary64 (unpack x) (.zero .positive)) (.zero .positive) := by
    cases hx : unpack x with
    | notANumber | infinity s =>
      rw [hx] at hfinite
      cases hfinite
    | zero s | finite s m e h => exact .zeros _ _
  have hzero : unpack (repack (.zero .positive)) = unpack 0 := unpack_repack_zero .positive
  have h := hmul.unpack_repack
  rwa [hzero] at h

theorem isNaN_mul_zero (h : x.isFinite = false) : (x * 0).isNaN = true := by
  have hfinite : (unpack x).isFinite = false := h
  have hmul : mul .binary64 (unpack x) (.zero .positive) = .notANumber := by
    cases hx : unpack x with
    | notANumber | infinity s => rfl
    | zero s | finite s m e h =>
      rw [hx] at hfinite
      cases hfinite
  show (unpack (repack (mul .binary64 (unpack x) (.zero .positive)))).isNaN = true
  rw [hmul, unpack_repack_notANumber]
  rfl

end Number

open Number

namespace Bins

/-! ### First and last edge -/

/-- **The first and the last edge.** The last one is the end of the range. The first one is its
start if the distance between two edges is finite, and NaN if it is not. -/
theorem linspace_ends (start stop : Float) (count : ℕ) :
    ∃ first inner, linspace start stop (count + 2) = first :: (inner ++ [stop]) ∧
      if ((stop - start) / (count + 1).toFloat).isFinite = true then Agree first start
      else first.isNaN = true := by
  let step := (stop - start) / (count + 1).toFloat
  let edge : ℕ → Float := fun i => start + step * i.toFloat
  refine ⟨edge 0, ((List.range count).map Nat.succ).map edge, ?_, ?_⟩
  · show (List.range (count + 1)).map edge ++ [stop] = _
    rw [List.range_succ_eq_map, List.map_cons]
    rfl
  · show if step.isFinite = true then Agree (start + step * 0) start else _
    split
    · next hstep =>
      exact ((Agree.refl start).add (agree_mul_zero hstep)).trans (agree_add_zero start)
    · next hstep => exact isNaN_add_right start (isNaN_mul_zero (Bool.eq_false_of_not_eq_true hstep))

theorem binOf?_ends (first last : Float) (inner : List Float) (x : Float) :
    binOf? (first :: (inner ++ [last])) x = binBetween? first last inner x := by
  obtain ⟨first', inner', last', h, hbins⟩ :=
    @binOf?_eq (first :: (inner ++ [last])) (by simp)
  obtain ⟨rfl, hrest⟩ := List.cons.inj h
  obtain ⟨rfl, hlast⟩ := List.append_inj' hrest rfl
  obtain rfl := List.head_eq_of_cons_eq hlast
  exact hbins x

/-- **No value of a range is lost between evenly spaced edges**, but NaN is not counted. -/
theorem sum_binCounts_linspace {values : List Float} {start stop : Float} (count : ℕ)
    (h : ∀ x ∈ values, ¬ x < start ∧ ¬ stop < x) :
    (binCounts values (linspace start stop (count + 2))).sum =
      values.countP fun x => !x.isNaN := by
  obtain ⟨first, inner, hedges, hfirst⟩ := linspace_ends start stop count
  rw [sum_binCounts, hedges]
  apply List.countP_congr
  intro x hx
  obtain ⟨hbelow, habove⟩ := h x hx
  have hbelow' : ¬ x < first := by
    split at hfirst
    · rwa [(Agree.refl x).lt_iff hfirst]
    · exact not_lt_of_isNaN (.inr hfirst)
  rw [binOf?_ends, isSome_binBetween?, Bool.not_eq_true']
  exact ⟨fun h => h.2.2, fun h => ⟨hbelow', habove, h⟩⟩

/-! ### Edges that are NaN -/

theorem isNaN_linspace {start stop : Float} (hstart : start.isNaN = true)
    (hstop : stop.isNaN = true) (count : ℕ) : ∀ e ∈ linspace start stop count, e.isNaN = true := by
  intro e he
  match count with
  | 0 => cases he
  | 1 =>
    rw [List.mem_singleton.1 he]
    exact hstart
  | count + 2 =>
    rcases List.mem_append.1 he with he | he
    · obtain ⟨i, -, rfl⟩ := List.mem_map.1 he
      exact isNaN_add_left hstart _
    · rw [List.mem_singleton.1 he]
      exact hstop

/-- Between edges that are NaN all values but NaN are in the first bin. -/
theorem binOf?_of_isNaN {edges : List Float} (htwo : 2 ≤ edges.length)
    (h : ∀ e ∈ edges, e.isNaN = true) (x : Float) :
    binOf? edges x = if x.isNaN = true then none else some 0 := by
  have htest : ∀ e ∈ edges, ¬ x < e ∧ ¬ e < x ∧ ¬ e ≤ x ∧ (x == e) = false := by
    intro e he
    have hNaN := h e he
    refine ⟨not_lt_of_isNaN (.inr hNaN), not_lt_of_isNaN (.inl hNaN), ?_, ?_⟩
    · rw [le_iff, hNaN]
      simp
    · rw [Bool.eq_false_iff, Ne, beq_iff, hNaN]
      simp
  obtain ⟨first, inner, last, rfl, hbins⟩ := binOf?_eq htwo
  obtain ⟨hbelow, -⟩ := htest first (by simp)
  obtain ⟨-, habove, -, hequal⟩ := htest last (by simp)
  have hinner : inner.takeWhile (fun e => decide (x ≥ e)) = [] := by
    cases inner with
    | nil => rfl
    | cons e inner =>
      obtain ⟨-, -, hle, -⟩ := htest e (by simp)
      exact List.takeWhile_cons_of_neg (by simpa using hle)
  rw [hbins, binBetween?, hinner, hequal]
  simp [hbelow, habove]

/-- **Between edges that are NaN** the first bin has all values, and the other bins are empty. -/
theorem binCounts_of_isNaN {edges : List Float} (htwo : 2 ≤ edges.length)
    (h : ∀ e ∈ edges, e.isNaN = true) (values : List Float) :
    binCounts values edges =
      (values.countP fun x => !x.isNaN) :: List.replicate (edges.length - 2) 0 := by
  have hbin : ∀ bin x, (binOf? edges x == some bin) = (!x.isNaN && bin == 0) := by
    intro bin x
    rw [binOf?_of_isNaN htwo h]
    cases x.isNaN with
    | true => rfl
    | false => cases bin <;> rfl
  apply List.ext_getElem?
  intro bin
  rcases Nat.lt_or_ge bin (edges.length - 1) with hlt | hge
  · rw [getElem?_binCounts values edges hlt]
    simp only [hbin]
    cases bin with
    | zero => simp
    | succ bin =>
      rw [List.getElem?_cons_succ, List.getElem?_replicate, if_pos (by omega)]
      simp
  · rw [List.getElem?_eq_none (by rw [length_binCounts]; exact hge),
      List.getElem?_eq_none (by rw [List.length_cons, List.length_replicate]; omega)]

end Bins

end Framewise
