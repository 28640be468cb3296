import Framewise.Proofs.Number.Bits

/-!
# The sign of zero

Zero has two forms, which differ in their sign only. Sums, differences, products and quotients of
doubles that agree up to the sign of zero agree in the same way, as long as the denominator is the
same, and comparing cannot tell them apart.
-/

namespace Framewise.Number

open Float.Model (UnpackedFloat Format)
open Float.Model.UnpackedFloat

/-- A double without the sign of zero. -/
def unsignZero (x : Float) : Float :=
  match unpack x with
  | .zero _ => repack (.zero .positive)
  | _ => x

/-! ### Unpacked forms -/

/-- Forms that are the same, or both zero. -/
inductive UpToZero : UnpackedFloat → UnpackedFloat → Prop
  | same (u : UnpackedFloat) : UpToZero u u
  | zeros (s t : Sign) : UpToZero (.zero s) (.zero t)

theorem upToZero_ite (p q : Prop) [Decidable p] [Decidable q] (s₁ s₂ t₁ t₂ : Sign) :
    UpToZero (if p then .zero s₁ else .zero s₂) (if q then .zero t₁ else .zero t₂) := by
  split
  · split
    · exact .zeros _ _
    · exact .zeros _ _
  · split
    · exact .zeros _ _
    · exact .zeros _ _

variable {u u' v v' : UnpackedFloat}

/-- Agreement of forms passes on: a zero in the middle makes all three zero. -/
theorem UpToZero.trans {w : UnpackedFloat} (h : UpToZero u v) (h' : UpToZero v w) :
    UpToZero u w := by
  cases h with
  | same u => exact h'
  | zeros s t =>
    cases h' with
    | same v => exact .zeros _ _
    | zeros s' t' => exact .zeros _ _

theorem UpToZero.symm (h : UpToZero u v) : UpToZero v u := by
  cases h with
  | same u => exact .same _
  | zeros s t => exact .zeros _ _

/-- An operation keeps the agreement of forms if it keeps that of zeros on either side. -/
theorem UpToZero.congr {f : UnpackedFloat → UnpackedFloat → UnpackedFloat}
    (hleft : ∀ s t v, UpToZero (f (.zero s) v) (f (.zero t) v))
    (hright : ∀ u s t, UpToZero (f u (.zero s)) (f u (.zero t)))
    (hu : UpToZero u u') (hv : UpToZero v v') : UpToZero (f u v) (f u' v') := by
  have hfirst : UpToZero (f u v) (f u' v) := by
    cases hu with
    | same u => exact .same _
    | zeros s t => exact hleft s t v
  have hsecond : UpToZero (f u' v) (f u' v') := by
    cases hv with
    | same v => exact .same _
    | zeros s t => exact hright u' s t
  exact hfirst.trans hsecond

/-- Sums of forms that agree up to the sign of zero agree. Beside zero there is the other summand,
and the sum of two zeros is a zero. -/
theorem UpToZero.add (hu : UpToZero u u') (hv : UpToZero v v') :
    UpToZero (add .binary64 u v) (add .binary64 u' v') := by
  refine hu.congr ?_ ?_ hv
  · intro s t v
    cases v with
    | notANumber => exact .same _
    | infinity s' => exact .same _
    | zero s' => exact upToZero_ite _ _ _ _ _ _
    | finite s' m e h => exact .same _
  · intro u s t
    cases u with
    | notANumber => exact .same _
    | infinity s' => exact .same _
    | zero s' => exact upToZero_ite _ _ _ _ _ _
    | finite s' m e h => exact .same _

theorem UpToZero.neg (h : UpToZero u v) : UpToZero u.neg v.neg := by
  cases h with
  | same u => exact .same _
  | zeros s t => exact .zeros _ _

theorem UpToZero.sub (hu : UpToZero u u') (hv : UpToZero v v') :
    UpToZero (sub .binary64 u v) (sub .binary64 u' v') := by
  rw [sub_eq_add_negated, sub_eq_add_negated]
  exact hu.add hv.neg

/-- Products of forms that agree up to the sign of zero agree: a factor zero gives zero or NaN,
whatever its sign. -/
theorem UpToZero.mul (hu : UpToZero u u') (hv : UpToZero v v') :
    UpToZero (mul .binary64 u v) (mul .binary64 u' v') := by
  refine hu.congr ?_ ?_ hv
  · intro s t v
    cases v with
    | notANumber => exact .same _
    | infinity s' => exact .same _
    | zero s' => exact .zeros _ _
    | finite s' m e h => exact .zeros _ _
  · intro u s t
    cases u with
    | notANumber => exact .same _
    | infinity s' => exact .same _
    | zero s' => exact .zeros _ _
    | finite s' m e h => exact .zeros _ _

/-- The sign of a zero numerator goes to a zero quotient. That of a zero denominator would go to an
infinite one. -/
theorem UpToZero.div (hu : UpToZero u u') (v : UnpackedFloat) :
    UpToZero (div .binary64 u v) (div .binary64 u' v) := by
  cases hu with
  | same u => exact .same _
  | zeros s t =>
    cases v with
    | notANumber => exact .same _
    | infinity s' => exact .zeros _ _
    | zero s' => exact .same _
    | finite s' m e h => exact .zeros _ _

/-- Comparing forms does not look at the sign of a zero. -/
theorem UpToZero.compare_eq (hu : UpToZero u u') (hv : UpToZero v v') :
    u.compare v = u'.compare v' := by
  cases hu with
  | same u =>
    cases hv with
    | same v => rfl
    | zeros s t =>
      cases u with
      | notANumber => rfl
      | infinity s' => cases s' <;> rfl
      | zero s' => rfl
      | finite s' m e h => cases s' <;> rfl
  | zeros s t =>
    cases hv with
    | same v =>
      cases v with
      | notANumber => rfl
      | infinity s' => cases s' <;> rfl
      | zero s' => rfl
      | finite s' m e h => cases s' <;> rfl
    | zeros s' t' => rfl

theorem UpToZero.isFinite_eq (h : UpToZero u u') : u.isFinite = u'.isFinite := by
  cases h with
  | same u => rfl
  | zeros s t => rfl

theorem UpToZero.isNaN_eq (h : UpToZero u u') : u.isNaN = u'.isNaN := by
  cases h with
  | same u => rfl
  | zeros s t => rfl

/-- Packing a form and unpacking it again keeps the agreement. -/
theorem UpToZero.unpack_repack (h : UpToZero u u') :
    UpToZero (unpack (repack u)) (unpack (repack u')) := by
  cases h with
  | same u => exact .same _
  | zeros s t =>
    rw [unpack_repack_zero, unpack_repack_zero]
    exact .zeros _ _

/-! ### Doubles -/

/-- Doubles that are the same up to the sign of zero. -/
def Agree (x y : Float) : Prop := UpToZero (unpack x) (unpack y)

theorem Agree.refl (x : Float) : Agree x x := .same _

theorem Agree.symm {x y : Float} (h : Agree x y) : Agree y x := UpToZero.symm h

theorem Agree.trans {x y z : Float} (h : Agree x y) (h' : Agree y z) : Agree x z :=
  UpToZero.trans h h'

/-- A double agrees with itself without the sign of zero. -/
theorem agree_unsignZero (x : Float) : Agree (unsignZero x) x := by
  unfold Agree unsignZero
  split
  · next s h =>
    rw [h, unpack_repack_zero]
    exact .zeros _ _
  · exact .same _

/-- **Doubles that agree are the same without the sign of zero.** -/
theorem Agree.unsignZero_eq {x y : Float} (h : Agree x y) : unsignZero x = unsignZero y := by
  unfold Agree at h
  generalize hx : unpack x = u, hy : unpack y = v at h
  cases h with
  | same u => rw [eq_of_unpack (hx.trans hy.symm)]
  | zeros s t =>
    unfold unsignZero
    rw [hx, hy]

section Operations

variable {x x' y y' : Float}

/-- Sums of doubles that agree up to the sign of zero agree in the same way. -/
theorem Agree.add (hx : Agree x x') (hy : Agree y y') : Agree (x + y) (x' + y') :=
  (UpToZero.add hx hy).unpack_repack

theorem Agree.sub (hx : Agree x x') (hy : Agree y y') : Agree (x - y) (x' - y') :=
  (UpToZero.sub hx hy).unpack_repack

/-- Products of doubles that agree up to the sign of zero agree. -/
theorem Agree.mul (hx : Agree x x') (hy : Agree y y') : Agree (x * y) (x' * y') :=
  (UpToZero.mul hx hy).unpack_repack

/-- Quotients with the same denominator agree if the numerators do. -/
theorem Agree.div (hx : Agree x x') (y : Float) : Agree (x / y) (x' / y) :=
  (UpToZero.div hx (unpack y)).unpack_repack

/-- Comparing doubles does not look at the sign of a zero either. -/
theorem Agree.lt_iff (hx : Agree x x') (hy : Agree y y') : x < y ↔ x' < y' := by
  show decide (((unpack x).compare (unpack y) == some .lt) = true) = true ↔
    decide (((unpack x').compare (unpack y') == some .lt) = true) = true
  rw [UpToZero.compare_eq hx hy]

theorem Agree.le_iff (hx : Agree x x') (hy : Agree y y') : x ≤ y ↔ x' ≤ y' := by
  show decide (((unpack x).compare (unpack y)).any (·.isLE) = true) = true ↔
    decide (((unpack x').compare (unpack y')).any (·.isLE) = true) = true
  rw [UpToZero.compare_eq hx hy]

/-- The test for equality does not look at the sign of a zero. -/
theorem Agree.beq_eq (hx : Agree x x') (hy : Agree y y') : (x == y) = (x' == y') := by
  show ((unpack x).compare (unpack y) == some .eq) = ((unpack x').compare (unpack y') == some .eq)
  rw [UpToZero.compare_eq hx hy]

/-- Whether a double is finite does not depend on the sign of zero. -/
theorem Agree.isFinite_eq (hx : Agree x x') : x.isFinite = x'.isFinite :=
  UpToZero.isFinite_eq hx

theorem Agree.isNaN_eq (hx : Agree x x') : x.isNaN = x'.isNaN :=
  UpToZero.isNaN_eq hx

/-- Whether a double is an integer does not depend on the sign of zero: both zeros are. -/
theorem Agree.isInteger_eq (hx : Agree x x') : isInteger x = isInteger x' := by
  unfold isInteger
  rw [read_eq, read_eq]
  unfold Agree at hx
  generalize unpack x = u, unpack x' = u' at hx
  cases hx with
  | same u => rfl
  | zeros s t => rfl

end Operations

end Framewise.Number
