import Mathlib.Logic.Relation
import Framewise.Proofs.Frames.Keys

/-!
# All keys are the union of the records' keys

The list of all keys depends on the set of all records. Which source a record belongs to, where it
stands there and how often makes no difference.

* `units_lt_iff`: on the basic plane the order by units is that of the code points.
* `keys_eq_iff`: the list of all keys from its order and its members.
* `Rearranged.holds_iff`: one change to where records stand leaves the set of the records as it was.
* `keys_sorted_union`: the whole, for any number of changes.
-/

namespace Framewise

namespace Text

/-! ### The order by units -/

/-- A text of characters of the basic plane has its code points for units. -/
theorem units_eq_map {s : String} (h : ∀ c ∈ s.toList, c.toNat < 0x10000) :
    units s = s.toList.map Char.toNat := by
  unfold units
  generalize s.toList = cs at h
  induction cs with
  | nil => rfl
  | cons c cs ih =>
    obtain ⟨hc, hcs⟩ := List.forall_mem_cons.1 h
    rw [List.flatMap_cons, List.map_cons, ih hcs, charUnits, if_pos hc, List.singleton_append]

theorem map_toNat_lt_iff {as bs : List Char} : as.map Char.toNat < bs.map Char.toNat ↔ as < bs := by
  induction as generalizing bs with
  | nil =>
    cases bs with
    | nil => simp
    | cons b bs => simp
  | cons a as ih =>
    cases bs with
    | nil => simp
    | cons b bs =>
      have hlt : a.toNat < b.toNat ↔ a < b := Iff.rfl
      rw [List.map_cons, List.map_cons, List.cons_lt_cons_iff, List.cons_lt_cons_iff, ih, hlt,
        Char.toNat_inj]

/-- **On the basic plane the order by units is that of the code points.** -/
theorem units_lt_iff {a b : String} (ha : ∀ c ∈ a.toList, c.toNat < 0x10000)
    (hb : ∀ c ∈ b.toList, c.toNat < 0x10000) : units a < units b ↔ a < b := by
  rw [units_eq_map ha, units_eq_map hb, map_toNat_lt_iff]
  exact Iff.rfl

end Text

namespace Sources

variable {s s' : Sources} {record : Record}

/-! ### The records of all sources -/

/-- Some source has the record. -/
def Holds (sources : Sources) (record : Record) : Prop :=
  ∃ name records, sources.get? name = some records ∧ record ∈ records

/-- Some record of some source has the key. -/
def Reports (sources : Sources) (key : String) : Prop :=
  ∃ record, sources.Holds record ∧ key ∈ record.keys

theorem mem_keys_iff_reports {key : String} : key ∈ s.keys ↔ s.Reports key := by
  rw [mem_keys]
  constructor
  · rintro ⟨name, records, hget, record, hrecord, hkey⟩
    exact ⟨record, ⟨name, records, hget, hrecord⟩, hkey⟩
  · rintro ⟨record, ⟨name, records, hget, hrecord⟩, hkey⟩
    exact ⟨name, records, hget, record, hrecord, hkey⟩

/-- **The list of all keys is the one ascending list of the keys that are reported.** -/
theorem keys_eq_iff {keys : List String} :
    s.keys = keys ↔ Text.Ascending keys ∧ ∀ key, key ∈ keys ↔ s.Reports key := by
  constructor
  · rintro rfl
    exact ⟨ascending_keys s, fun _ => mem_keys_iff_reports⟩
  · rintro ⟨hascending, hmem⟩
    apply Text.eq_of_ascending (ascending_keys s) hascending
    intro key
    rw [mem_keys_iff_reports, hmem]

theorem keys_congr (h : ∀ record, s.Holds record ↔ s'.Holds record) : s.keys = s'.keys := by
  apply keys_eq_iff.2
  refine ⟨ascending_keys s', ?_⟩
  intro key
  rw [mem_keys_iff_reports]
  unfold Reports
  simp only [h]

/-! ### Rearranging -/

/-- One change to where records stand: the sources or the records of a source in another order, a
record repeated, or a record moved to another source, which may be a new one. -/
inductive Rearranged : Sources → Sources → Prop where
  | sources {s s' : Sources} (order : s.entries.Perm s'.entries) : Rearranged s s'
  | records {s : Sources} {name : String} {records records' : List Record}
      (given : s.get? name = some records) (order : records.Perm records') :
      Rearranged s (s.insert name records')
  | repeated {s : Sources} {name : String} {before behind : List Record} {record : Record}
      (given : s.get? name = some (before ++ behind)) (known : s.Holds record) :
      Rearranged s (s.insert name (before ++ record :: behind))
  | moved {s : Sources} {here there : String} {before behind before' behind' : List Record}
      {record : Record} (given : s.get? here = some (before ++ record :: behind))
      (goal : (s.get? there).getD [] = before' ++ behind') (apart : here ≠ there) :
      Rearranged s ((s.insert here (before ++ behind)).insert there (before' ++ record :: behind'))

/-- Some source other than these has the record. -/
def Besides (sources : Sources) (names : List String) (record : Record) : Prop :=
  ∃ name records, name ∉ names ∧ sources.get? name = some records ∧ record ∈ records

theorem holds_iff_besides : s.Holds record ↔ s.Besides [] record := by
  simp [Holds, Besides]

/-- Taking one more source by itself. -/
theorem besides_iff {names : List String} {name : String} (h : name ∉ names) :
    s.Besides names record ↔
      record ∈ (s.get? name).getD [] ∨ s.Besides (name :: names) record := by
  constructor
  · rintro ⟨other, records, hother, hget, hmem⟩
    by_cases hname : other = name
    · left
      rwa [← hname, hget]
    · exact .inr ⟨other, records, by simp [hname, hother], hget, hmem⟩
  · rintro (hmem | ⟨other, records, hother, hget, hmem⟩)
    · cases hget : s.get? name with
      | none =>
        rw [hget] at hmem
        cases hmem
      | some records =>
        rw [hget] at hmem
        exact ⟨name, records, h, hget, hmem⟩
    · exact ⟨other, records, fun hmem' => hother (List.mem_cons_of_mem _ hmem'), hget, hmem⟩

theorem besides_insert {names : List String} {name : String} (h : name ∈ names)
    (records : List Record) :
    Besides (s.insert name records) names record ↔ s.Besides names record := by
  have hget : ∀ other, other ∉ names → (s.insert name records).get? other = s.get? other := by
    intro other hother
    rw [OrderedMap.get?_insert, if_neg]
    rintro rfl
    exact hother h
  constructor
  · rintro ⟨other, records', hother, hsome, hmem⟩
    exact ⟨other, records', hother, (hget other hother).symm.trans hsome, hmem⟩
  · rintro ⟨other, records', hother, hsome, hmem⟩
    exact ⟨other, records', hother, (hget other hother).trans hsome, hmem⟩

/-- What replacing the records of one source does to the set of all records. -/
theorem holds_insert {name : String} (records : List Record) :
    Holds (s.insert name records) record ↔ record ∈ records ∨ s.Besides [name] record := by
  rw [holds_iff_besides, besides_iff (List.not_mem_nil (a := name)),
    besides_insert List.mem_cons_self, OrderedMap.get?_insert, if_pos rfl, Option.getD_some]

theorem holds_iff_of_get? {name : String} {records : List Record} (h : s.get? name = some records) :
    s.Holds record ↔ record ∈ records ∨ s.Besides [name] record := by
  rw [holds_iff_besides, besides_iff (List.not_mem_nil (a := name)), h, Option.getD_some]

/-- **One change leaves the set of all records as it was.** -/
theorem Rearranged.holds_iff (h : Rearranged s s') (record : Record) :
    s.Holds record ↔ s'.Holds record := by
  cases h with
  | sources order =>
    have hget : ∀ name records, s.get? name = some records ↔ s'.get? name = some records := by
      intro name records
      rw [OrderedMap.get?_eq_some_iff, OrderedMap.get?_eq_some_iff, order.mem_iff]
    simp only [Holds, hget]
  | records given order => rw [holds_insert, holds_iff_of_get? given, order.mem_iff]
  | @repeated name before behind again given known =>
    rw [holds_insert, List.mem_append, List.mem_cons, or_left_comm, ← List.mem_append, or_assoc,
      ← holds_iff_of_get? given]
    constructor
    · exact .inr
    · rintro (rfl | hholds)
      · exact known
      · exact hholds
  | @moved here there before behind before' behind' one given goal apart =>
    have hthere : there ∉ [here] := by
      rw [List.mem_singleton]
      exact apart.symm
    have hkept : Besides (s.insert here (before ++ behind)) [there] record ↔
        record ∈ before ++ behind ∨ s.Besides [here, there] record := by
      have hhere : here ∉ [there] := by
        rw [List.mem_singleton]
        exact apart
      rw [besides_iff hhere, besides_insert List.mem_cons_self, OrderedMap.get?_insert, if_pos rfl,
        Option.getD_some]
    have hnames : s.Besides [there, here] record ↔ s.Besides [here, there] record := by
      have hmem : ∀ name, name ∈ [there, here] ↔ name ∈ [here, there] := by
        intro name
        simp [or_comm]
      simp only [Besides, hmem]
    rw [holds_insert, holds_iff_of_get? given, besides_iff hthere, goal, hkept, hnames]
    simp only [List.mem_append, List.mem_cons]
    tauto

/-- Any number of changes, made or undone, leaves the list of all keys as it was. -/
theorem keys_of_rearranged (h : Relation.EqvGen Rearranged s s') : s'.keys = s.keys := by
  induction h with
  | rel s s' h => exact (keys_congr h.holds_iff).symm
  | refl s => rfl
  | symm s s' _ ih => exact ih.symm
  | trans s s' s'' _ _ ih ih' => exact ih'.trans ih

/-- **The list of all keys is the sorted union of the records' keys**, for all sources.

* It is in strictly ascending order of the units, so no key occurs twice. On the basic plane this is
  the order of the code points, and beyond it it is another.
* It has the keys that some record of some source has, and is the only ascending list that has them.
* It stays the same when sources or records are put in another order, and when records are repeated
  or moved between sources, any number of times. -/
theorem keys_sorted_union (sources : Sources) :
    Text.Ascending sources.keys ∧ sources.keys.Nodup ∧
    (∀ a b : String, (∀ c ∈ a.toList, c.toNat < 0x10000) → (∀ c ∈ b.toList, c.toNat < 0x10000) →
      (Text.units a < Text.units b ↔ a < b)) ∧
    (∃ a b : String, Text.units a < Text.units b ∧ b < a) ∧
    (∀ key, key ∈ sources.keys ↔ sources.Reports key) ∧
    (∀ keys, Text.Ascending keys → (∀ key, key ∈ keys ↔ sources.Reports key) →
      keys = sources.keys) ∧
    ∀ sources', Relation.EqvGen Rearranged sources sources' → sources'.keys = sources.keys := by
  have hascending := ascending_keys sources
  refine ⟨hascending, hascending.nodup, ?_, ?_, ?_, ?_, ?_⟩
  · exact fun a b => Text.units_lt_iff
  · exact ⟨"😀", "\uFFFD", by decide, by decide⟩
  · exact fun key => mem_keys_iff_reports
  · intro keys hkeys hmem
    exact (keys_eq_iff.2 ⟨hkeys, hmem⟩).symm
  · exact fun sources' => keys_of_rearranged

/-- A record with a character beyond the basic plane is moved to a source that is not there yet. The
key with two units stays before the one of a greater unit and a smaller code point. -/
theorem keys_sorted_union_moved :
    let wide : Record := .ofList [("😀", 1)]
    let basic : Record := .ofList [("\uFFFD", 2), ("n", 3)]
    let one : Sources := .ofList [("a", [basic, wide])]
    let two : Sources := .ofList [("a", [basic]), ("b", [wide])]
    Relation.EqvGen Rearranged one two ∧ two.keys = one.keys ∧
      one.keys = ["n", "😀", "\uFFFD"] := by
  intro wide basic one two
  have hmoved : Relation.EqvGen Rearranged one two :=
    .rel _ _ (@Rearranged.moved one "a" "b" [basic] [] [] [] wide rfl rfl (by decide))
  obtain ⟨-, -, -, -, -, honly, hkept⟩ := keys_sorted_union one
  have hkeys : one.keys = Text.sortByUnits ["\uFFFD", "n", "😀"] :=
    congrArg Text.sortByUnits (by decide +kernel)
  have hsame : ["n", "😀", "\uFFFD"] = one.keys := by
    apply honly
    · unfold Text.Ascending
      decide
    · intro key
      rw [← mem_keys_iff_reports, hkeys, Text.mem_sortByUnits]
      simp [or_comm, or_left_comm]
  exact ⟨hmoved, hkept two hmoved, hsame.symm⟩

end Sources

end Framewise
