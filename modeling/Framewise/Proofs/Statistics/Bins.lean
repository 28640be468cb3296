import Mathlib.Algebra.BigOperators.Group.Finset.Basic
import Framewise.Proofs.Number.Order
import Framewise.Statistics.Bins

/-!
# Bins are a partition

`binOf?` compares a value with the edges one after the other. `holds` says of a bin alone which
values belong to it. Among ascending edges the two agree, and each value from the first edge to the
last one is in exactly one bin.

* `sum_binCounts`: all counts together, whatever the edges are.
* `isSome_binOf?`, `holds_unique`, `between_of_holds`: a value between the edges has a bin, no value
  has two, and no other value has one.
* `binCounts_ascending`: what is counted in each bin.
-/

namespace Framewise.Bins

open Number

/-! ### The bin that is found -/

/-- The bins are numbered from zero, one less than there are edges. -/
theorem lt_of_binOf? {edges : List Float} {x : Float} {bin : ℕ} (h : binOf? edges x = some bin) :
    bin < edges.length - 1 := by
  match edges with
  | [] | [_] => cases h
  | first :: next :: more =>
    have hinner : (next :: more).dropLast.length = more.length := by
      rw [List.length_dropLast, List.length_cons, Nat.add_sub_cancel]
    rw [binOf?, binBetween?] at h
    show bin < more.length + 1
    split at h
    · cases h
    · split at h
      · obtain rfl := Option.some.inj h
        omega
      · obtain rfl := Option.some.inj h
        have := (List.takeWhile_prefix (fun edge => decide (x ≥ edge))
          (l := (next :: more).dropLast)).length_le
        omega

/-- Values below the first edge, values above the last one and NaN have no bin. The edges may be NaN,
which nothing is below or above. -/
theorem isSome_binBetween? {first last x : Float} {inner : List Float} :
    (binBetween? first last inner x).isSome = true ↔
      ¬ x < first ∧ ¬ last < x ∧ x.isNaN = false := by
  unfold binBetween?
  split
  · next h =>
    simp only [Bool.or_eq_true, decide_eq_true_eq, gt_iff_lt] at h
    constructor
    · intro hsome
      cases hsome
    · rintro ⟨hbelow, habove, hx⟩
      rcases h with (h | h) | h
      · exact absurd h hbelow
      · exact absurd h habove
      · exact absurd (h.symm.trans hx) (by decide)
  · next h =>
    simp only [Bool.or_eq_true, decide_eq_true_eq, gt_iff_lt, not_or, Bool.not_eq_true] at h
    constructor
    · intro _
      exact ⟨h.1.1, h.1.2, h.2⟩
    · intro _
      split <;> rfl

/-- The count of a bin is the number of values with this bin. -/
theorem getElem?_binCounts (values edges : List Float) {bin : ℕ} (h : bin < edges.length - 1) :
    (binCounts values edges)[bin]? = some (values.countP fun x => binOf? edges x == some bin) := by
  rw [binCounts, List.getElem?_map, List.getElem?_range h, Option.map_some, List.count_filterMap]

/-- **All counts together** are the number of values that have a bin. -/
theorem sum_binCounts (values edges : List Float) :
    (binCounts values edges).sum = values.countP fun x => (binOf? edges x).isSome := by
  have hbins : ∀ bin ∈ (values.filterMap (binOf? edges) : Multiset ℕ),
      bin ∈ Finset.range (edges.length - 1) := by
    intro bin hbin
    obtain ⟨x, -, hx⟩ := List.mem_filterMap.1 (Multiset.mem_coe.1 hbin)
    exact Finset.mem_range.2 (lt_of_binOf? hx)
  have hsum := Multiset.sum_count_eq_card hbins
  rw [Multiset.coe_card, List.length_filterMap_eq_countP] at hsum
  rw [← hsum]
  simp only [Multiset.coe_count]
  rfl

theorem binCounts_append (values more edges : List Float) :
    binCounts (values ++ more) edges =
      List.zipWith (· + ·) (binCounts values edges) (binCounts more edges) := by
  unfold binCounts
  rw [List.zipWith_map, List.zipWith_self, List.filterMap_append]
  apply List.map_congr_left
  intro bin _
  exact List.count_append

theorem binCounts_perm {values values' : List Float} (h : values.Perm values')
    (edges : List Float) : binCounts values edges = binCounts values' edges := by
  unfold binCounts
  apply List.map_congr_left
  intro bin _
  exact (h.filterMap _).count_eq bin

/-! ### The values of a bin -/

/-- Whether a bin holds a value: it is closed below and open above, but for the last one, which is
closed on both sides. -/
def holds (edges : List Float) (bin : ℕ) (x : Float) : Bool :=
  match edges[bin]?, edges[bin + 1]? with
  | some low, some high => low ≤ x && if bin + 2 = edges.length then x ≤ high else x < high
  | _, _ => false

theorem holds_iff {edges : List Float} {bin : ℕ} {x : Float} :
    holds edges bin x = true ↔ ∃ low high, edges[bin]? = some low ∧ edges[bin + 1]? = some high ∧
      low ≤ x ∧ if bin + 2 = edges.length then x ≤ high else x < high := by
  unfold holds
  cases hlow : edges[bin]? with
  | none => simp
  | some low =>
    cases hhigh : edges[bin + 1]? with
    | none => simp
    | some high =>
      by_cases hlast : bin + 2 = edges.length
      · simp [hlast]
      · simp [hlast]

/-- The bin of a value that is not below the edges that come before and not above the others. -/
theorem holds_of_split (before rest : List Float) {first last x : Float}
    (hlow : ∀ e ∈ first :: before, e ≤ x)
    (hhigh : rest = [] ∧ x ≤ last ∨ ∃ e more, rest = e :: more ∧ x < e) :
    holds (first :: (before ++ rest ++ [last])) before.length x = true := by
  obtain ⟨init, low, hinit⟩ : ∃ init low, first :: before = init ++ [low] :=
    ⟨_, _, (List.dropLast_append_getLast (List.cons_ne_nil first before)).symm⟩
  have hlength : before.length = init.length := by
    have := congrArg List.length hinit
    rw [List.length_cons, List.length_append] at this
    exact Nat.succ.inj this
  have hlow' : low ≤ x := hlow low (by rw [hinit]; simp)
  have hedges : first :: (before ++ rest ++ [last]) = init ++ low :: (rest ++ [last]) := by
    rw [List.append_assoc, ← List.cons_append, hinit, List.append_assoc]
    rfl
  rw [hedges, hlength, holds_iff]
  rcases hhigh with ⟨rfl, hx⟩ | ⟨e, more, rfl, hx⟩
  · exact ⟨low, last, by simp, by simp, hlow', by simpa using hx⟩
  · exact ⟨low, e, by simp, by simp, hlow', by simpa using hx⟩

/-- At least two edges are a first one, a last one, and those in between. -/
theorem binOf?_eq {edges : List Float} (htwo : 2 ≤ edges.length) :
    ∃ first inner last, edges = first :: (inner ++ [last]) ∧
      ∀ x, binOf? edges x = binBetween? first last inner x := by
  match edges with
  | [] | [_] => simp at htwo
  | first :: next :: more =>
    refine ⟨first, (next :: more).dropLast, (next :: more).getLast (by simp), ?_, fun x => rfl⟩
    rw [List.dropLast_append_getLast]

section Ascending

variable {edges : List Float} (hsorted : edges.Pairwise (· ≤ ·))

include hsorted

theorem le_of_getElem? {i j : ℕ} {low high : Float} (hij : i < j) (hlow : edges[i]? = some low)
    (hhigh : edges[j]? = some high) : low ≤ high := by
  obtain ⟨hi, rfl⟩ := List.getElem?_eq_some_iff.1 hlow
  obtain ⟨hj, rfl⟩ := List.getElem?_eq_some_iff.1 hhigh
  exact List.pairwise_iff_getElem.1 hsorted i j hi hj hij

/-- **No value is in two bins.** -/
theorem holds_unique {i j : ℕ} {x : Float} (hi : holds edges i x = true)
    (hj : holds edges j x = true) : i = j := by
  -- The upper edge of an earlier bin is not above the lower edge of a later one.
  have hearlier : ∀ i j, i < j → holds edges i x = true → ¬ holds edges j x = true := by
    intro i j hij hi hj
    obtain ⟨-, high, -, hhigh, -, hbelow⟩ := holds_iff.1 hi
    obtain ⟨low, top, hlow, htop, habove, -⟩ := holds_iff.1 hj
    obtain ⟨hj', -⟩ := List.getElem?_eq_some_iff.1 htop
    rw [if_neg (by omega)] at hbelow
    have hle : high ≤ x := by
      rcases Nat.lt_or_eq_of_le (Nat.succ_le_of_lt hij) with hlt | rfl
      · exact Number.le_trans (le_of_getElem? hsorted hlt hhigh hlow) habove
      · obtain rfl := Option.some.inj (hhigh.symm.trans hlow)
        exact habove
    exact Number.not_lt_of_le hle hbelow
  rcases Nat.lt_trichotomy i j with hij | hij | hij
  · exact absurd hj (hearlier i j hij hi)
  · exact hij
  · exact absurd hi (hearlier j i hij hj)

end Ascending

/-- Whether a value is from the first edge to the last one. -/
def spans (edges : List Float) (x : Float) : Bool :=
  match edges.head?, edges.getLast? with
  | some first, some last => first ≤ x && x ≤ last
  | _, _ => false

section

variable {first last x : Float} {inner : List Float}

theorem spans_iff : spans (first :: (inner ++ [last])) x = true ↔ first ≤ x ∧ x ≤ last := by
  have hlast : (first :: (inner ++ [last])).getLast? = some last := by
    rw [← List.cons_append, List.getLast?_concat]
  unfold spans
  rw [hlast]
  simp

variable (hsorted : (first :: (inner ++ [last])).Pairwise (· ≤ ·))

include hsorted

/-- Only values from the first edge to the last one are in a bin. -/
theorem between_of_holds {bin : ℕ} (h : holds (first :: (inner ++ [last])) bin x = true) :
    first ≤ x ∧ x ≤ last := by
  obtain ⟨low, high, hlow, hhigh, habove, hbelow⟩ := holds_iff.1 h
  have hlast : (first :: (inner ++ [last]))[inner.length + 1]? = some last := by simp
  constructor
  · cases bin with
    | zero =>
      obtain rfl := Option.some.inj hlow
      exact habove
    | succ bin => exact Number.le_trans (le_of_getElem? hsorted (Nat.succ_pos bin) rfl hlow) habove
  · split at hbelow
    · next hend =>
      have hbin : bin + 1 = inner.length + 1 := by simpa using hend
      rw [hbin, hlast] at hhigh
      obtain rfl := Option.some.inj hhigh
      exact hbelow
    · next hend =>
      obtain ⟨hlt, -⟩ := List.getElem?_eq_some_iff.1 hhigh
      have hbin : bin + 1 < inner.length + 1 := by
        simp only [List.length_cons, List.length_append, List.length_nil] at hlt hend
        omega
      exact Number.le_trans (Number.le_of_lt hbelow) (le_of_getElem? hsorted hbin hhigh hlast)

/-- **The bin that is found holds the value.** -/
theorem holds_binBetween? {bin : ℕ} (h : binBetween? first last inner x = some bin) :
    holds (first :: (inner ++ [last])) bin x = true := by
  have hall : ∀ e ∈ first :: inner, e ≤ last := by
    rw [← List.cons_append, List.pairwise_append] at hsorted
    exact fun e he => hsorted.2.2 e he last List.mem_cons_self
  obtain ⟨hfirst, hlast, -⟩ := le_iff.1 (hall first List.mem_cons_self)
  obtain ⟨hbelow, habove, hx⟩ := isSome_binBetween?.1 (Option.isSome_of_mem h)
  rw [not_lt_iff hx hfirst] at hbelow
  rw [not_lt_iff hlast hx] at habove
  unfold binBetween? at h
  split at h
  · cases h
  · split at h
    · next hequal =>
      -- The last edge belongs to the last bin.
      obtain rfl := Option.some.inj h
      obtain ⟨-, hge⟩ := beq_iff_le.1 hequal
      have hholds := holds_of_split inner [] (fun e he => Number.le_trans (hall e he) hge)
        (.inl ⟨rfl, habove⟩)
      rwa [List.append_nil] at hholds
    · obtain rfl := Option.some.inj h
      let below : Float → Bool := fun e => decide (x ≥ e)
      have hsplit : inner.takeWhile below ++ inner.dropWhile below = inner :=
        List.takeWhile_append_dropWhile
      have hlow : ∀ e ∈ first :: inner.takeWhile below, e ≤ x := by
        rw [List.forall_mem_cons]
        refine ⟨hbelow, ?_⟩
        intro e he
        exact of_decide_eq_true (List.mem_takeWhile_imp he : below e = true)
      have hhigh : inner.dropWhile below = [] ∧ x ≤ last ∨
          ∃ e more, inner.dropWhile below = e :: more ∧ x < e := by
        cases hrest : inner.dropWhile below with
        | nil => exact .inl ⟨rfl, habove⟩
        | cons e more =>
          -- Here the search has stopped, as the value is below this edge.
          have hstop := List.head?_dropWhile_not below inner
          rw [hrest] at hstop
          have hmem : e ∈ inner := by
            rw [← hsplit, hrest]
            simp
          obtain ⟨he, -, -⟩ := le_iff.1 (hall e (List.mem_cons_of_mem first hmem))
          exact .inr ⟨e, more, rfl, (not_le_iff he hx).1 (of_decide_eq_false hstop)⟩
      have hholds := holds_of_split _ _ hlow hhigh
      rwa [hsplit] at hholds

end

section

variable {edges : List Float} (htwo : 2 ≤ edges.length) (hsorted : edges.Pairwise (· ≤ ·))

include htwo hsorted

/-- The values from the first edge to the last one are those that have a bin. -/
theorem isSome_binOf? (x : Float) : (binOf? edges x).isSome = spans edges x := by
  obtain ⟨first, inner, last, rfl, hbins⟩ := binOf?_eq htwo
  have hends : first ≤ last := List.rel_of_pairwise_cons hsorted (by simp)
  obtain ⟨hfirst, hlast, -⟩ := le_iff.1 hends
  rw [Bool.eq_iff_iff, hbins, isSome_binBetween?, spans_iff]
  constructor
  · rintro ⟨hbelow, habove, hx⟩
    exact ⟨(not_lt_iff hx hfirst).1 hbelow, (not_lt_iff hlast hx).1 habove⟩
  · rintro ⟨hlow, hhigh⟩
    obtain ⟨-, hx, -⟩ := le_iff.1 hlow
    exact ⟨(not_lt_iff hx hfirst).2 hlow, (not_lt_iff hlast hx).2 hhigh, hx⟩

/-- **The bin that is found is the one that holds the value.** -/
theorem binOf?_eq_some_iff {x : Float} {bin : ℕ} :
    binOf? edges x = some bin ↔ holds edges bin x = true := by
  have hfound : ∀ bin, binOf? edges x = some bin → holds edges bin x = true := by
    intro bin h
    obtain ⟨first, inner, last, rfl, hbins⟩ := binOf?_eq htwo
    exact holds_binBetween? hsorted (hbins x ▸ h)
  have hspans : holds edges bin x = true → spans edges x = true := by
    intro h
    obtain ⟨first, inner, last, rfl, -⟩ := binOf?_eq htwo
    exact spans_iff.2 (between_of_holds hsorted h)
  constructor
  · exact hfound bin
  · intro h
    have hsome := hspans h
    rw [← isSome_binOf? htwo hsorted] at hsome
    obtain ⟨found, hbin⟩ := Option.isSome_iff_exists.1 hsome
    rw [hbin, holds_unique hsorted (hfound found hbin) h]

end

/-- **Ascending edges cut what lies between them into bins.** Edges may be repeated; in ascending
order none of them is NaN.

* There is a count for each bin, the number of the values that the bin holds.
* A value from the first edge to the last one is in exactly one bin and no other value is in any, so
  all counts together are the number of values between the edges.
* The counts of more values are added, and the order of the values does not matter. -/
theorem binCounts_ascending {edges : List Float} (htwo : 2 ≤ edges.length)
    (hsorted : edges.IsChain (· ≤ ·)) :
    (∀ values, (binCounts values edges).length = edges.length - 1 ∧
      ∀ bin < edges.length - 1,
        (binCounts values edges)[bin]? = some (values.countP (holds edges bin))) ∧
    (∀ x, (spans edges x = true → ∃! bin, holds edges bin x = true) ∧
      ∀ bin, holds edges bin x = true → spans edges x = true) ∧
    (∀ values, (binCounts values edges).sum = values.countP (spans edges)) ∧
    (∀ values more, binCounts (values ++ more) edges =
      List.zipWith (· + ·) (binCounts values edges) (binCounts more edges)) ∧
    ∀ values values', values.Perm values' → binCounts values edges = binCounts values' edges := by
  have hpairs := List.isChain_iff_pairwise.1 hsorted
  have hbin : ∀ bin x, (binOf? edges x == some bin) = holds edges bin x := by
    intro bin x
    rw [Bool.eq_iff_iff, beq_iff_eq, binOf?_eq_some_iff htwo hpairs]
  have hspans : (fun x => (binOf? edges x).isSome) = spans edges :=
    funext (isSome_binOf? htwo hpairs)
  refine ⟨?_, ?_, ?_, fun values more => binCounts_append values more edges,
    fun _ _ h => binCounts_perm h edges⟩
  · intro values
    refine ⟨length_binCounts values edges, ?_⟩
    intro bin hlt
    rw [getElem?_binCounts values edges hlt]
    simp only [hbin]
  · intro x
    rw [← isSome_binOf? htwo hpairs, Option.isSome_iff_exists]
    simp only [binOf?_eq_some_iff htwo hpairs]
    constructor
    · rintro ⟨bin, h⟩
      exact ⟨bin, h, fun other hother => holds_unique hpairs hother h⟩
    · intro bin h
      exact ⟨bin, h⟩
  · intro values
    rw [sum_binCounts, hspans]

/-- A repeated edge makes a bin that is empty, and the last edge belongs to the last bin; NaN and the
values beyond the edges are in none. -/
theorem binCounts_ascending_repeated :
    let edges : List Float := [0, 1, 1, 2]
    let values : List Float := [1, 2, 0.5, infinity, notANumber, -1, 2, -0.0]
    (binCounts values edges)[1]? = some 0 ∧ (binCounts values edges)[2]? = some 3 ∧
      values.countP (spans edges) = 5 ∧
      binCounts (values ++ [1]) edges = [2, 0, 4] := by
  intro edges values
  obtain ⟨hcounts, -, hsum, hmore, -⟩ :=
    @binCounts_ascending edges (by decide) (by decide +kernel)
  obtain ⟨-, hcount⟩ := hcounts values
  refine ⟨?_, ?_, ?_, ?_⟩
  · rw [hcount 1 (by decide)]
    decide +kernel
  · rw [hcount 2 (by decide)]
    decide +kernel
  · rw [← hsum]
    decide +kernel
  · rw [hmore]
    decide +kernel

end Framewise.Bins
