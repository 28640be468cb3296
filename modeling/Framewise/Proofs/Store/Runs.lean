import Framewise.Proofs.Frames.Alignment
import Framewise.Store

/-!
# Runs of a store

Of all calls only an insertion changes a store. After any calls each name has the records that were
inserted last under it, and what the store answers depends on these records alone, apart from the
order in which the logs are listed.

* `sources_run`: by induction, the logs after a run.
* `current_iff`: the records that a name has after insertions.
* `SameLogs.run`, `sameLogs_insert_comm`: stores that differ in the order of their logs at most.
* `run_invariant`: what keys, summary and alignment are after any run.
-/

namespace Framewise.Store

/-! ### Calls -/

/-- What a store can be asked. -/
inductive Call where
  | insert (name : String) (records : List Record)
  | contains (name : String)
  | summary
  | keys
  | align (keys : Option (List String)) (range : FrameRange)

/-- The log that a call inserts. -/
def Call.log? : Call → Option (String × List Record)
  | .insert name records => some (name, records)
  | .contains _ | .summary | .keys | .align .. => none

/-- The store after a call. -/
def after (s : Store) : Call → Store
  | .insert name records => s.insert name records
  | .contains _ | .summary | .keys | .align .. => s

/-- The store after calls, one after the other. -/
def run (s : Store) (calls : List Call) : Store :=
  calls.foldl after s

/-- The logs that calls insert, in order. -/
def inserted (calls : List Call) : List (String × List Record) :=
  calls.filterMap Call.log?

/-- One call inserts its log, if it has one. -/
theorem sources_after (s : Store) (c : Call) :
    (s.after c).sources = s.sources.insertAll c.log?.toList := by
  cases c with
  | insert name records => rfl
  | contains name | summary | keys | align keys range => rfl

/-- **The logs after a run** are the initial ones with the logs of the calls inserted, in order. -/
theorem sources_run (s : Store) (calls : List Call) :
    (s.run calls).sources = s.sources.insertAll (inserted calls) := by
  induction calls generalizing s with
  | nil => rfl
  | cons c calls ih =>
    rw [run, List.foldl_cons, ← run, ih, sources_after, ← OrderedMap.insertAll_append]
    unfold inserted
    rw [List.filterMap_cons]
    cases c.log? with
    | none => rfl
    | some log => rfl

/-! ### Current records -/

/-- The records of a name after insertions: those that were inserted last under it, or the initial
ones if none were. -/
inductive Current (initial : Sources) (logs : List (String × List Record)) (name : String) :
    List Record → Prop
  | inserted {before later : List (String × List Record)} {records : List Record} :
      logs = before ++ (name, records) :: later → (∀ log ∈ later, log.1 ≠ name) →
        Current initial logs name records
  | initial {records : List Record} : initial.get? name = some records →
      (∀ log ∈ logs, log.1 ≠ name) → Current initial logs name records

section

variable {initial : Sources} {logs : List (String × List Record)} {name : String}
  {records : List Record}

/-- Records stay current until the next insertion under their name. -/
theorem Current.concat (h : Current initial logs name records) {log : String × List Record}
    (hlog : log.1 ≠ name) : Current initial (logs ++ [log]) name records := by
  have hmore : ∀ {later : List (String × List Record)}, (∀ l ∈ later, l.1 ≠ name) →
      ∀ l ∈ later ++ [log], l.1 ≠ name := by
    intro later hlater l hl
    rcases List.mem_append.1 hl with hmem | hlast
    · exact hlater l hmem
    · rw [List.mem_singleton.1 hlast]
      exact hlog
  cases h with
  | inserted hlogs hlater =>
    rw [hlogs, List.append_assoc, List.cons_append]
    exact .inserted rfl (hmore hlater)
  | initial hget hlogs => exact .initial hget (hmore hlogs)

/-- **The records that a name has** after insertions are its current ones. -/
theorem current_iff :
    Current initial logs name records ↔ (initial.insertAll logs).get? name = some records := by
  constructor
  · intro h
    cases h with
    | @inserted before later records hlogs hlater =>
      rw [hlogs, OrderedMap.insertAll_append]
      show (((initial.insertAll before).insert name records).insertAll later).get? name = _
      rw [OrderedMap.get?_insertAll_of_ne _ hlater, OrderedMap.get?_insert, if_pos rfl]
    | initial hget hlogs => rw [OrderedMap.get?_insertAll_of_ne initial hlogs, hget]
  · intro h
    -- From the last insertion back: it is the one that counts, or it is under another name.
    induction logs using List.reverseRecOn with
    | nil => exact .initial h fun _ hmem => absurd hmem List.not_mem_nil
    | append_singleton logs log ih =>
      obtain ⟨name', records'⟩ := log
      rw [OrderedMap.insertAll_concat, OrderedMap.get?_insert] at h
      split at h
      · next heq =>
        obtain rfl := Option.some.inj h
        obtain rfl : name' = name := heq
        exact .inserted rfl fun _ hmem => absurd hmem List.not_mem_nil
      · next hne => exact (ih h).concat hne

end

/-! ### Stores of the same logs -/

/-- Stores with the same logs, which may be listed in another order. -/
def SameLogs (s t : Store) : Prop :=
  ∀ name, s.sources.get? name = t.sources.get? name

section

variable {s t : Store}

theorem SameLogs.after (h : SameLogs s t) (c : Call) : SameLogs (s.after c) (t.after c) := by
  intro name
  rw [sources_after, sources_after, OrderedMap.get?_insertAll, OrderedMap.get?_insertAll, h name]

/-- Stores of the same logs stay so in any run. -/
theorem SameLogs.run (h : SameLogs s t) (calls : List Call) :
    SameLogs (s.run calls) (t.run calls) := by
  induction calls generalizing s t with
  | nil => exact h
  | cons c calls ih => exact ih (h.after c)

/-- Stores of the same logs have the same keys in the same order. -/
theorem SameLogs.keys_eq (h : SameLogs s t) : s.keys = t.keys := by
  rw [s.keys_eq, t.keys_eq]
  apply Text.eq_of_ascending s.sources.ascending_keys t.sources.ascending_keys
  intro key
  simp only [Sources.mem_keys, h _]

theorem SameLogs.contains_eq (h : SameLogs s t) (name : String) :
    s.contains name = t.contains name := by
  unfold Store.contains OrderedMap.contains
  rw [h name]

/-- Stores of the same logs have the same series of each log. -/
theorem SameLogs.get?_align (h : SameLogs s t) (keys : Option (List String)) (range : FrameRange)
    (name : String) : (s.align keys range).get? name = (t.align keys range).get? name := by
  unfold Store.align
  rw [Sources.get?_align, Sources.get?_align, h name, h.keys_eq]

/-- **Insertions under different names commute.** -/
theorem sameLogs_insert_comm (s : Store) {name name' : String} (records records' : List Record)
    (hne : name ≠ name') :
    SameLogs ((s.insert name records).insert name' records')
      ((s.insert name' records').insert name records) := by
  intro n
  show ((s.sources.insert name records).insert name' records').get? n =
    ((s.sources.insert name' records').insert name records).get? n
  simp only [OrderedMap.get?_insert]
  by_cases hn : name' = n
  · have hother : name ≠ n := fun h => hne (h.trans hn.symm)
    simp only [if_pos hn, if_neg hother]
  · simp only [if_neg hn]

end

/-! ### The invariant -/

/-- **No series is all gaps** if all keys are aligned over all frames. -/
theorem exists_value_of_align_all {s : Store} {range : FrameRange}
    (hfull : ∀ name records, s.sources.get? name = some records → range.cut records = records)
    {name : String} {columns : Columns} (hcolumns : (s.align none range).get? name = some columns)
    {key : String} (hkey : key ∈ columns.keys) :
    ∃ name' columns', (s.align none range).get? name' = some columns' ∧
      ∃ x, some x ∈ columns'.series key := by
  have hall : ∀ n, (s.align none range).get? n =
      (s.sources.get? n).map fun records => Columns.ofRange records s.sources.keys range := by
    intro n
    rw [← s.keys_eq]
    exact Sources.get?_align ..
  rw [hall] at hcolumns
  obtain ⟨records, -, rfl⟩ := Option.map_eq_some_iff.1 hcolumns
  rw [Columns.keys_ofRange, List.mem_eraseDups] at hkey
  obtain ⟨name', records', hname', record, hrecord, hmem⟩ := Sources.mem_keys.1 hkey
  obtain ⟨x, hx⟩ := OrderedMap.mem_keys_iff.1 hmem
  refine ⟨name', Columns.ofRange records' s.sources.keys range, ?_, x, ?_⟩
  · rw [hall, hname', Option.map_some]
  · rw [Columns.series_ofRange, if_pos hkey, hfull name' records' hname']
    exact List.mem_map.2 ⟨record, hrecord, hx⟩

/-- **What a store holds after any run.**

* Its keys are those that a record of current ones has, in strictly ascending order of their units.
  So a key that only replaced records had is gone, and one that other logs have stays.
* Its summary has each name once, in the order of first insertion, with the number of current
  records.
* Insertions under different names can be made in either order, whatever comes later: the keys, the
  names that it contains and the series of each log are the same.
* If all keys are aligned over all frames there is a value for each of them in some log. -/
theorem run_invariant (initial : Sources) (calls : List Call) :
    let logs := inserted calls
    let s := (ofSources initial).run calls
    (Text.Ascending s.keys ∧ s.keys.Nodup ∧ ∀ key, key ∈ s.keys ↔ ∃ name records,
      Current initial logs name records ∧ ∃ record ∈ records, key ∈ record.keys) ∧
    (s.summary.map SourceSummary.name =
        (OrderedMap.keys initial ++ logs.map Prod.fst).eraseDups ∧
      (s.summary.map SourceSummary.name).Nodup ∧
      ∀ source ∈ s.summary, ∃ records, Current initial logs source.name records ∧
        source.frameCount = records.length) ∧
    (∀ name name' records records' more, name ≠ name' →
      let one := ((s.insert name records).insert name' records').run more
      let other := ((s.insert name' records').insert name records).run more
      one.keys = other.keys ∧ (∀ n, one.contains n = other.contains n) ∧
        ∀ keys range n, (one.align keys range).get? n = (other.align keys range).get? n) ∧
    ∀ range : FrameRange,
      (∀ name records, Current initial logs name records → range.cut records = records) →
      ∀ name columns, (s.align none range).get? name = some columns → ∀ key ∈ columns.keys,
        ∃ name' columns', (s.align none range).get? name' = some columns' ∧
          ∃ x, some x ∈ columns'.series key := by
  intro logs s
  have hsources : s.sources = initial.insertAll logs := sources_run (ofSources initial) calls
  have hcurrent : ∀ name records,
      Current initial logs name records ↔ s.sources.get? name = some records := by
    intro name records
    rw [hsources]
    exact current_iff
  have hnames : s.summary.map SourceSummary.name = OrderedMap.keys s.sources := List.map_map ..
  refine ⟨⟨?_, ?_, ?_⟩, ⟨?_, ?_, ?_⟩, ?_, ?_⟩
  · rw [s.keys_eq]
    exact s.sources.ascending_keys
  · rw [s.keys_eq]
    exact s.sources.ascending_keys.nodup
  · intro key
    simp only [hcurrent, s.keys_eq]
    exact Sources.mem_keys
  · rw [hnames, hsources, OrderedMap.keys_insertAll]
  · rw [hnames]
    exact OrderedMap.nodup_keys _
  · intro source hsource
    obtain ⟨⟨name, records⟩, hentry, rfl⟩ := List.mem_map.1 hsource
    exact ⟨records, (hcurrent name records).2 (OrderedMap.get?_eq_some_iff.2 hentry), rfl⟩
  · intro name name' records records' more hne one other
    have hsame : SameLogs one other := (sameLogs_insert_comm s records records' hne).run more
    exact ⟨hsame.keys_eq, hsame.contains_eq, hsame.get?_align⟩
  · intro range hfull name columns hcolumns key hkey
    apply exists_value_of_align_all _ hcolumns hkey
    intro name' records' hget
    exact hfull name' records' ((hcurrent name' records').2 hget)

/-- A log that is replaced by one with other keys, its keys being read in between. -/
theorem run_invariant_replaced :
    let first : List Record := [.ofList [("n", 1)]]
    let second : List Record := [.ofList [("m", 2)], .ofList []]
    let s := (ofSources .empty).run [.insert "a.log" first, .keys, .insert "a.log" second]
    "m" ∈ s.keys ∧ "n" ∉ s.keys ∧ s.summary.map SourceSummary.name = ["a.log"] ∧
      ((s.insert "b.log" first).insert "c.log" second).keys =
        ((s.insert "c.log" second).insert "b.log" first).keys ∧
      ∃ name columns, (s.align none {}).get? name = some columns ∧
        ∃ x, some x ∈ columns.series "m" := by
  intro first second s
  have hlogs : ∀ {name records},
      Current .empty [("a.log", first), ("a.log", second)] name records →
        name = "a.log" ∧ records = second := by
    intro name records hcurrent
    have hentry := OrderedMap.get?_eq_some_iff.1 (current_iff.1 hcurrent)
    exact Prod.mk.inj (List.mem_singleton.1 hentry)
  obtain ⟨⟨-, -, hkeys⟩, ⟨hnames, -, -⟩, hcomm, hvalues⟩ :=
    run_invariant .empty [.insert "a.log" first, .keys, .insert "a.log" second]
  have hm : "m" ∈ s.keys :=
    (hkeys "m").2 ⟨"a.log", second, current_iff.2 rfl, _, List.mem_cons_self, by decide⟩
  refine ⟨hm, ?_, hnames, ?_, ?_⟩
  · intro hn
    obtain ⟨name, records, hcurrent, record, hrecord, hkey⟩ := (hkeys "n").1 hn
    obtain ⟨-, rfl⟩ := hlogs hcurrent
    revert hkey
    revert record
    decide
  · exact (hcomm "b.log" "c.log" first second [] (by decide)).1
  · apply hvalues {} _ "a.log" (Columns.ofRange second s.keys {}) rfl "m"
    · rw [Columns.keys_ofRange]
      exact List.mem_eraseDups.2 hm
    · intro name records hcurrent
      obtain ⟨-, rfl⟩ := hlogs hcurrent
      exact FrameRange.cut_default (by decide)

end Framewise.Store
