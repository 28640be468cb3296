import Framewise.Proofs.Frames.Keys
import Framewise.Proofs.Frames.Place

/-!
# Alignment

Aligned frames have a series for each source and each requested key, and all series of a source are
cut to the same range. Nothing is lost on the way: each record in the range is the map of the
values that the series have at its place.

* `get?_ofRecords`: the series of a key, before it is cut.
* `get?_align`: the series of a source in aligned frames.
* `get?_recordAt`: the record that the series have at one place.
* `align_lossless`: what aligned frames have, and that all records can be read back.
-/

namespace Framewise

/-! ### The default range -/

/-- The default range is the whole of every list that it can reach the end of. -/
theorem FrameRange.cut_default {α : Type} {xs : List α} (h : xs.length ≤ 9007199254740991) :
    ({} : FrameRange).cut xs = xs := by
  have hstart : Number.read ({} : FrameRange).start = .finite false 0 (-1074) := by decide +kernel
  have hstop : Number.read ({} : FrameRange).stop = .finite false 9007199254740991 0 := by
    decide +kernel
  have hzero : Number.wholePart 0 (-1074) = 0 := by
    unfold Number.wholePart
    rw [Nat.zero_mul, Nat.zero_div]
  have hwhole : Number.wholePart 9007199254740991 0 = 9007199254740991 := by decide
  have hfirst : position ({} : FrameRange).start xs.length = 0 := by
    unfold position
    rw [hstart]
    simp [hzero]
  have hlast : position ({} : FrameRange).stop xs.length = xs.length := by
    unfold position
    rw [hstop]
    simp [hwhole, h]
  unfold cut
  rw [hfirst, hlast, List.drop_zero, List.take_length]

/-! ### Columns -/

namespace Columns

/-- Each requested key is there once, at its first place. -/
theorem keys_ofRecords (records : List Record) (keys : List String) :
    (ofRecords records keys).keys = keys.eraseDups := by
  unfold ofRecords
  rw [OrderedMap.keys_ofList, List.map_map]
  exact congrArg List.eraseDups (List.map_id keys)

/-- The series of a requested key has the value of every record for it. -/
theorem get?_ofRecords (records : List Record) (keys : List String) (key : String) :
    (ofRecords records keys).get? key =
      if key ∈ keys then some (records.map (·.get? key)) else none := by
  unfold ofRecords
  rw [OrderedMap.get?_ofList]
  by_cases h : key ∈ keys
  · rw [if_pos h]
    have hsome : (valueOf? key (keys.map fun k => (k, records.map (·.get? k))).reverse).isSome := by
      rw [valueOf?_isSome_iff, List.map_reverse, List.mem_reverse, List.map_map]
      exact List.mem_map.2 ⟨key, h, rfl⟩
    obtain ⟨series, hseries⟩ := Option.isSome_iff_exists.1 hsome
    obtain ⟨k, -, hk⟩ := List.mem_map.1 (List.mem_reverse.1 (mem_of_valueOf? hseries))
    obtain ⟨rfl, rfl⟩ := Prod.mk.inj hk
    exact hseries
  · rw [if_neg h, ← Option.not_isSome_iff_eq_none, valueOf?_isSome_iff, List.map_reverse,
      List.mem_reverse, List.map_map]
    intro hmem
    obtain ⟨k, hk, rfl⟩ := List.mem_map.1 hmem
    exact h hk

/-- The columns of the records in a range. -/
def ofRange (records : List Record) (keys : List String) (range : FrameRange) : Columns :=
  (ofRecords records keys).mapWithKey fun _ series => range.cut series

theorem keys_ofRange (records : List Record) (keys : List String) (range : FrameRange) :
    (ofRange records keys range).keys = keys.eraseDups := by
  unfold ofRange
  rw [OrderedMap.keys_mapWithKey, keys_ofRecords]

theorem get?_ofRange (records : List Record) (keys : List String) (range : FrameRange)
    (key : String) : (ofRange records keys range).get? key =
      if key ∈ keys then some ((range.cut records).map (·.get? key)) else none := by
  unfold ofRange
  rw [OrderedMap.get?_mapWithKey, get?_ofRecords]
  split
  · rw [Option.map_some, FrameRange.cut_map]
  · rfl

/-- A key that was not requested has an empty series. -/
theorem series_ofRange (records : List Record) (keys : List String) (range : FrameRange)
    (key : String) : (ofRange records keys range).series key =
      if key ∈ keys then (range.cut records).map (·.get? key) else [] := by
  unfold series
  rw [get?_ofRange]
  split
  · rfl
  · rfl

/-! ### Records out of columns -/

/-- The map of the keys whose series have a value at one place. -/
def recordAt (columns : Columns) (i : ℕ) : Record :=
  OrderedMap.ofList (columns.entries.filterMap fun e => e.2[i]?.join.map (e.1, ·))

theorem keys_filterMap_sublist {α β : Type} (es : List (String × α)) (f : α → Option β) :
    ((es.filterMap fun e => (f e.2).map (e.1, ·)).map Prod.fst).Sublist (es.map Prod.fst) := by
  induction es with
  | nil => exact .slnil
  | cons e es ih =>
    rw [List.filterMap_cons, List.map_cons]
    cases f e.2 with
    | none => exact ih.cons _
    | some b => exact ih.cons_cons _

/-- **The record at a place has the values of the series there.** -/
theorem get?_recordAt (columns : Columns) (i : ℕ) (key : String) :
    (columns.recordAt i).get? key = (columns.series key)[i]?.join := by
  have hnodup := columns.distinct.sublist
    (keys_filterMap_sublist columns.entries fun series => series[i]?.join)
  ext x
  unfold recordAt
  rw [OrderedMap.get?_ofList_of_nodup hnodup, List.mem_filterMap]
  unfold series
  constructor
  · rintro ⟨⟨k, s⟩, hentry, hx⟩
    obtain ⟨y, hy, heq⟩ := Option.map_eq_some_iff.1 hx
    obtain ⟨rfl, rfl⟩ := Prod.mk.inj heq
    rw [OrderedMap.get?_eq_some_iff.2 hentry]
    exact hy
  · intro hx
    cases hget : columns.get? key with
    | none =>
      rw [hget] at hx
      exact absurd hx (by simp)
    | some s =>
      rw [hget] at hx
      exact ⟨(key, s), OrderedMap.get?_eq_some_iff.1 hget, Option.map_eq_some_iff.2 ⟨x, hx, rfl⟩⟩

end Columns

/-! ### Aligned frames -/

namespace Sources

/-- The columns of each source. -/
theorem get?_align (sources : Sources) (keys : List String) (range : FrameRange) (name : String) :
    (sources.align keys range).get? name =
      (sources.get? name).map fun records => Columns.ofRange records keys range :=
  OrderedMap.get?_mapWithKey ..

/-- The sources keep their names and their order. -/
theorem names_align (sources : Sources) (keys : List String) (range : FrameRange) :
    OrderedMap.keys (sources.align keys range) = OrderedMap.keys sources :=
  OrderedMap.keys_mapWithKey ..

/-- One entry of the series of a range, in terms of the whole log. -/
theorem getElem?_column (records : List Record) (range : FrameRange) {i : ℕ}
    (h : i < FrameRange.position range.stop records.length -
      FrameRange.position range.start records.length) :
    ∃ record, records[FrameRange.position range.start records.length + i]? = some record ∧
      ∀ key, ((range.cut records).map (·.get? key))[i]? = some (record.get? key) := by
  have hbound := FrameRange.position_le range.stop records.length
  have hlt : FrameRange.position range.start records.length + i < records.length := by omega
  refine ⟨records[FrameRange.position range.start records.length + i], ?_, ?_⟩
  · exact List.getElem?_eq_getElem hlt
  · intro key
    rw [List.getElem?_map, FrameRange.getElem?_cut, if_pos h, List.getElem?_eq_getElem hlt]
    rfl

/-- **Every record can be read back** from the series of all its keys at its place. -/
theorem recordAt_all {sources : Sources} {name : String} {records : List Record}
    (hname : sources.get? name = some records) {range : FrameRange}
    (hfull : range.cut records = records) {i : ℕ} {record : Record} (hi : records[i]? = some record)
    (key : String) :
    ((Columns.ofRange records sources.keys range).recordAt i).get? key = record.get? key := by
  rw [Columns.get?_recordAt, Columns.series_ofRange, hfull]
  by_cases hkey : key ∈ sources.keys
  · rw [if_pos hkey, List.getElem?_map, hi]
    rfl
  · rw [if_neg hkey]
    -- A key that is not listed is no key of any record.
    have hnone : record.get? key = none := by
      rw [← Option.not_isSome_iff_eq_none]
      intro hsome
      apply hkey
      apply mem_keys.2
      exact ⟨name, records, hname, record, List.mem_of_getElem? hi,
        (OrderedMap.contains_iff_mem_keys record key).1 hsome⟩
    rw [hnone]
    rfl

/-- **Alignment keeps every value in its place and loses none.**

* The sources keep their names and their order. Each has every requested key once, in the order of
  first occurrence.
* All series of a source have one entry for each frame from the place of the first bound up to that
  of the second: the value that the record at this place has for the key, and a gap exactly if the
  record does not have the key.
* With all keys and the default range every series has an entry for each record, and each record is
  the map of the values at its place. No log is longer than the default range. -/
theorem align_lossless (sources : Sources) (keys : List String) (range : FrameRange) :
    OrderedMap.keys (sources.align keys range) = OrderedMap.keys sources ∧
    ∀ name records, sources.get? name = some records →
      (∃ columns first stop, (sources.align keys range).get? name = some columns ∧
        Place records.length range.start first ∧ Place records.length range.stop stop ∧
        columns.keys = keys.eraseDups ∧
        ∀ key ∈ keys, ∃ series, columns.get? key = some series ∧ series.length = stop - first ∧
          ∀ i < stop - first, ∃ record, records[first + i]? = some record ∧
            series[i]? = some (record.get? key) ∧ (series[i]? = some none ↔ key ∉ record.keys)) ∧
      (records.length ≤ 9007199254740991 →
        ∃ columns, (sources.align sources.keys {}).get? name = some columns ∧
          (∀ key ∈ sources.keys, (columns.series key).length = records.length) ∧
          ∀ i record, records[i]? = some record →
            ∀ key, (columns.recordAt i).get? key = record.get? key) := by
  refine ⟨names_align sources keys range, ?_⟩
  intro name records hname
  constructor
  · refine ⟨Columns.ofRange records keys range, FrameRange.position range.start records.length,
      FrameRange.position range.stop records.length, ?_, FrameRange.place_iff.2 rfl,
      FrameRange.place_iff.2 rfl, Columns.keys_ofRange records keys range, ?_⟩
    · rw [get?_align, hname]
      rfl
    · intro key hkey
      refine ⟨(range.cut records).map (·.get? key), ?_, ?_, ?_⟩
      · rw [Columns.get?_ofRange, if_pos hkey]
      · rw [List.length_map, FrameRange.length_cut]
      · intro i hi
        obtain ⟨record, hrecord, hentry⟩ := getElem?_column records range hi
        refine ⟨record, hrecord, hentry key, ?_⟩
        rw [hentry key, Option.some.injEq, ← Option.not_isSome_iff_eq_none]
        exact not_congr (OrderedMap.contains_iff_mem_keys record key)
  · intro hlength
    have hfull := FrameRange.cut_default hlength
    refine ⟨Columns.ofRange records sources.keys {}, ?_, ?_, ?_⟩
    · rw [get?_align, hname]
      rfl
    · intro key hkey
      rw [Columns.series_ofRange, if_pos hkey, List.length_map, hfull]
    · intro i record hi key
      exact recordAt_all hname hfull hi key

/-- A log with a gap and a NaN: the last frame alone, asked for by a fractional bound from the end,
and both frames read back. -/
theorem align_lossless_gap :
    let records : List Record := [.ofList [("n", 1), ("m", Number.notANumber)], .ofList [("n", 0)]]
    let sources : Sources := .ofList [("a.log", records)]
    let range : FrameRange := { start := -1.5, stop := Number.infinity }
    (∃ columns series, (sources.align ["m", "n", "m"] range).get? "a.log" = some columns ∧
      columns.keys = ["m", "n"] ∧ columns.get? "m" = some series ∧ series.length = 1 ∧
      series[0]? = some none) ∧
    ∃ columns, (sources.align sources.keys {}).get? "a.log" = some columns ∧
      (columns.recordAt 0).get? "m" = some Number.notANumber ∧
      (columns.recordAt 1).get? "m" = none := by
  intro records sources range
  have hname : sources.get? "a.log" = some records := rfl
  have hstart : FrameRange.position range.start records.length = 1 := by decide +kernel
  have hend : FrameRange.position range.stop records.length = 2 := by decide +kernel
  obtain ⟨-, hall⟩ := align_lossless sources ["m", "n", "m"] range
  obtain ⟨⟨columns, first, stop, hcolumns, hfirst, hstop, hkeys, hseries⟩, hback⟩ :=
    hall "a.log" records hname
  obtain rfl := (FrameRange.place_iff.1 hfirst).trans hstart
  obtain rfl := (FrameRange.place_iff.1 hstop).trans hend
  constructor
  · obtain ⟨series, hm, hlength, hentries⟩ := hseries "m" (by decide)
    obtain ⟨record, hrecord, -, hgap⟩ := hentries 0 (by decide)
    obtain rfl : OrderedMap.ofList [("n", 0)] = record := Option.some.inj hrecord
    exact ⟨columns, series, hcolumns, hkeys, hm, hlength, hgap.2 (by decide)⟩
  · obtain ⟨columns, hcolumns, -, hrecords⟩ := hback (by decide)
    refine ⟨columns, hcolumns, ?_, ?_⟩
    · rw [hrecords 0 _ rfl]
      rfl
    · rw [hrecords 1 _ rfl]
      rfl

end Sources

end Framewise
