import Mathlib.Data.List.Lex
import Framewise.Frames.Aligned
import Framewise.Proofs.Json.Strings
import Framewise.Proofs.OrderedMap

/-!
# The list of all keys

The keys of all records are listed in strictly ascending order of their units. Such a list is
determined by its members.

* `ascending_sortByUnits`: sorting a list without duplicates.
* `eq_of_ascending`: ascending lists with the same members are the same.
* `mem_keys`, `ascending_keys`: what the list of all keys has, and in which order.
-/

namespace Framewise

namespace Text

/-- Texts in strictly ascending order of their units. -/
def Ascending (texts : List String) : Prop :=
  texts.Pairwise fun a b => units a < units b

/-- Texts with the same units are the same. -/
theorem units_injective {a b : String} (h : units a = units b) : a = b := by
  have hread := congrArg Json.ofUnits h
  unfold units at hread
  rw [Json.ofUnits_flatMap, Json.ofUnits_flatMap] at hread
  exact String.toList_inj.1 hread

theorem unitsLT_iff {a b : String} : unitsLT a b = true ↔ units a < units b :=
  decide_eq_true_iff

/-- Of two texts, the later one in the order of units is the one that is not before the other. -/
theorem not_unitsLT_iff {a b : String} : (!unitsLT b a) = true ↔ units a ≤ units b := by
  rw [Bool.not_eq_true', Bool.eq_false_iff, ne_eq, unitsLT_iff, not_lt]

/-- Ascending lists have no duplicates. -/
theorem Ascending.nodup {texts : List String} (h : Ascending texts) : texts.Nodup := by
  apply List.Pairwise.imp _ h
  rintro a b hlt rfl
  exact lt_irrefl _ hlt

/-- **Ascending lists with the same members are the same.** -/
theorem eq_of_ascending {as bs : List String} (has : Ascending as) (hbs : Ascending bs)
    (hmem : ∀ t, t ∈ as ↔ t ∈ bs) : as = bs := by
  have hperm : as.Perm bs := (List.perm_ext_iff_of_nodup has.nodup hbs.nodup).2 hmem
  apply hperm.eq_of_pairwise _ has hbs
  intro a b _ _ hab hba
  exact absurd hba (lt_asymm hab)

theorem mem_sortByUnits {texts : List String} {t : String} : t ∈ sortByUnits texts ↔ t ∈ texts :=
  List.mem_mergeSort

/-- **Sorting lists every text once, in ascending order**, if no text occurs twice. -/
theorem ascending_sortByUnits {texts : List String} (h : texts.Nodup) :
    Ascending (sortByUnits texts) := by
  have hsorted : (sortByUnits texts).Pairwise fun a b => (!unitsLT b a) = true := by
    apply List.pairwise_mergeSort
    · intro a b c hab hbc
      rw [not_unitsLT_iff] at hab hbc ⊢
      exact hab.trans hbc
    · intro a b
      rw [Bool.or_eq_true, not_unitsLT_iff, not_unitsLT_iff]
      exact le_total _ _
  have hnodup : (sortByUnits texts).Nodup := (List.mergeSort_perm ..).nodup_iff.2 h
  apply List.Pairwise.imp _ (List.pairwise_and_iff.2 ⟨hsorted, hnodup⟩)
  rintro a b ⟨hle, hne⟩
  rw [not_unitsLT_iff] at hle
  apply lt_of_le_of_ne hle
  intro heq
  exact hne (units_injective heq)

end Text

namespace Sources

/-- A key is listed if some record of some source has it. -/
theorem mem_keys {sources : Sources} {key : String} : key ∈ sources.keys ↔
    ∃ name records, sources.get? name = some records ∧ ∃ record ∈ records, key ∈ record.keys := by
  unfold keys
  rw [Text.mem_sortByUnits, List.mem_eraseDups, List.mem_flatMap]
  constructor
  · rintro ⟨⟨name, records⟩, hentry, hkey⟩
    obtain ⟨record, hrecord, hkey⟩ := List.mem_flatMap.1 hkey
    exact ⟨name, records, OrderedMap.get?_eq_some_iff.2 hentry, record, hrecord, hkey⟩
  · rintro ⟨name, records, hget, record, hrecord, hkey⟩
    exact ⟨(name, records), OrderedMap.get?_eq_some_iff.1 hget,
      List.mem_flatMap.2 ⟨record, hrecord, hkey⟩⟩

/-- All keys are listed in strictly ascending order. -/
theorem ascending_keys (sources : Sources) : Text.Ascending sources.keys :=
  Text.ascending_sortByUnits (nodup_eraseDups _)

end Sources

end Framewise
