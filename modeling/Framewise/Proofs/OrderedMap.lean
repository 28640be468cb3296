import Mathlib.Data.List.Induction
import Framewise.OrderedMap

/-!
# Runs of insertions

Entries that are inserted one after the other. The keys are in the order of first insertion, and
each has the value that was inserted last.

* `keys_insertAll`: the keys after a run of insertions.
* `get?_insertAll`: the values after it.
* `get?_eq_some_iff`: having a value is being an entry.
-/

namespace Framewise

/-! ### Lists without duplicates -/

section Duplicates

variable {α : Type} [DecidableEq α]

/-- One more element is kept only if it is new. -/
theorem eraseDups_concat (l : List α) (a : α) :
    (l ++ [a]).eraseDups = if a ∈ l then l.eraseDups else l.eraseDups ++ [a] := by
  rw [List.eraseDups_append]
  by_cases h : a ∈ l
  · have hremoved : [a].removeAll l = [] := by simp [List.removeAll, h]
    rw [if_pos h, hremoved, List.eraseDups_nil, List.append_nil]
  · have hkept : [a].removeAll l = [a] := by simp [List.removeAll, h]
    rw [if_neg h, hkept]
    rfl

theorem nodup_eraseDups (l : List α) : l.eraseDups.Nodup := by
  induction l using List.reverseRecOn with
  | nil => exact List.nodup_nil
  | append_singleton l a ih =>
    rw [eraseDups_concat]
    split
    · exact ih
    · next h =>
      apply List.nodup_append.2
      refine ⟨ih, by simp, ?_⟩
      intro x hx y hy heq
      obtain rfl := List.mem_singleton.1 hy
      exact h (List.mem_eraseDups.1 (heq ▸ hx))

/-- Nothing is erased where nothing occurs twice. -/
theorem eraseDups_of_nodup {l : List α} (h : l.Nodup) : l.eraseDups = l := by
  induction l using List.reverseRecOn with
  | nil => rfl
  | append_singleton l a ih =>
    obtain ⟨hl, -, hne⟩ := List.nodup_append.1 h
    have hnew : a ∉ l := by
      intro ha
      exact hne a ha a (List.mem_singleton_self a) rfl
    rw [eraseDups_concat, if_neg hnew, ih hl]

end Duplicates

/-! ### Entries by their keys -/

section Entries

variable {κ α : Type} [DecidableEq κ]

/-- The first entry of a key is one of the entries. -/
theorem mem_of_valueOf? {es : List (κ × α)} {k : κ} {a : α} (h : valueOf? k es = some a) :
    (k, a) ∈ es := by
  induction es with
  | nil => cases h
  | cons e es ih =>
    obtain ⟨k', a'⟩ := e
    rw [valueOf?] at h
    split at h
    · next hk =>
      cases hk
      cases h
      exact List.mem_cons_self
    · exact List.mem_cons_of_mem _ (ih h)

/-- Where no key occurs twice, every entry is the first one of its key. -/
theorem valueOf?_of_mem {es : List (κ × α)} (hnodup : (es.map Prod.fst).Nodup) {k : κ} {a : α}
    (h : (k, a) ∈ es) : valueOf? k es = some a := by
  induction es with
  | nil => cases h
  | cons e es ih =>
    obtain ⟨k', a'⟩ := e
    rw [List.map_cons, List.nodup_cons] at hnodup
    rw [valueOf?]
    rcases List.mem_cons.1 h with heq | hmem
    · cases heq
      rw [if_pos rfl]
    · have hne : k' ≠ k := by
        rintro rfl
        exact hnodup.1 (List.mem_map.2 ⟨_, hmem, rfl⟩)
      rw [if_neg hne]
      exact ih hnodup.2 hmem

end Entries

namespace OrderedMap

variable {κ α : Type} [DecidableEq κ]

/-- **Having a value is being an entry.** -/
theorem get?_eq_some_iff {m : OrderedMap κ α} {k : κ} {a : α} :
    m.get? k = some a ↔ (k, a) ∈ m.entries :=
  ⟨mem_of_valueOf?, valueOf?_of_mem m.distinct⟩

/-- The keys are those that have a value. -/
theorem mem_keys_iff {m : OrderedMap κ α} {k : κ} : k ∈ m.keys ↔ ∃ a, m.get? k = some a := by
  rw [← contains_iff_mem_keys, contains, Option.isSome_iff_exists]

/-! ### Insertions -/

/-- Insert entries into a map, in order. -/
def insertAll (m : OrderedMap κ α) (es : List (κ × α)) : OrderedMap κ α :=
  es.foldl (fun m e => m.insert e.1 e.2) m

theorem insertAll_append (m : OrderedMap κ α) (es es' : List (κ × α)) :
    m.insertAll (es ++ es') = (m.insertAll es).insertAll es' :=
  List.foldl_append

theorem insertAll_concat (m : OrderedMap κ α) (es : List (κ × α)) (e : κ × α) :
    m.insertAll (es ++ [e]) = (m.insertAll es).insert e.1 e.2 :=
  insertAll_append m es [e]

/-- **The keys are in the order of first insertion**, those of the map first. -/
theorem keys_insertAll (m : OrderedMap κ α) (es : List (κ × α)) :
    (m.insertAll es).keys = (m.keys ++ es.map Prod.fst).eraseDups := by
  induction es using List.reverseRecOn with
  | nil =>
    rw [List.map_nil, List.append_nil, eraseDups_of_nodup m.nodup_keys]
    rfl
  | append_singleton es e ih =>
    rw [insertAll_concat, keys_insert, List.map_append, ← List.append_assoc, List.map_singleton,
      eraseDups_concat]
    simp only [ih, List.mem_eraseDups]

/-- **A key has the value that was inserted last**, if any was, and else the one of the map. -/
theorem get?_insertAll (m : OrderedMap κ α) (es : List (κ × α)) (k : κ) :
    (m.insertAll es).get? k = (valueOf? k es.reverse).or (m.get? k) := by
  induction es using List.reverseRecOn with
  | nil => rfl
  | append_singleton es e ih =>
    rw [insertAll_concat, get?_insert, List.reverse_concat, valueOf?]
    split
    · rfl
    · exact ih

/-- Insertions under other keys leave the value of a key as it is. -/
theorem get?_insertAll_of_ne (m : OrderedMap κ α) {es : List (κ × α)} {k : κ}
    (h : ∀ e ∈ es, e.1 ≠ k) : (m.insertAll es).get? k = m.get? k := by
  have hnone : valueOf? k es.reverse = none := by
    rw [← Option.not_isSome_iff_eq_none, valueOf?_isSome_iff, List.map_reverse, List.mem_reverse]
    intro hmem
    obtain ⟨e, he, heq⟩ := List.mem_map.1 hmem
    exact h e he heq
  rw [get?_insertAll, hnone, Option.none_or]

/-- The keys of a list of entries, each at its first place. -/
theorem keys_ofList (es : List (κ × α)) : (ofList es).keys = (es.map Prod.fst).eraseDups :=
  keys_insertAll empty es

/-- The value of a key in a list of entries is that of its last entry. -/
theorem get?_ofList (es : List (κ × α)) (k : κ) : (ofList es).get? k = valueOf? k es.reverse := by
  show (insertAll empty es).get? k = _
  rw [get?_insertAll, get?_empty, Option.or_none]

/-- In a list of entries with distinct keys each entry counts. -/
theorem get?_ofList_of_nodup {es : List (κ × α)} (h : (es.map Prod.fst).Nodup) {k : κ} {a : α} :
    (ofList es).get? k = some a ↔ (k, a) ∈ es := by
  have hreverse : (es.reverse.map Prod.fst).Nodup := by
    rw [List.map_reverse]
    exact (List.reverse_perm _).nodup_iff.2 h
  rw [get?_ofList]
  constructor
  · intro hfirst
    exact List.mem_reverse.1 (mem_of_valueOf? hfirst)
  · intro hmem
    exact valueOf?_of_mem hreverse (List.mem_reverse.2 hmem)

end OrderedMap

end Framewise
