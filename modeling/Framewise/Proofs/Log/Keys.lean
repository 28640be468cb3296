import Framewise.Proofs.Frames.Keys
import Framewise.Proofs.Json.Numbers
import Framewise.Proofs.Log.Loading
import Framewise.Proofs.Log.Sessions
import Framewise.Proofs.Text.Pieces

/-!
# The keys of a log

Keys come from lines, but they never look like lines: a key is a text on one line that begins and
ends with something else than a blank. `IsKey` says so, and every way to a key keeps it.

* `isKey_of_tells`: the names that a line tells.
* `IsKey.qualify`: a name with the number of a camera.
* `Reader.keyed_act`: what a reader makes of an action, and from it `Reader.keyed_session`.
* `keyed_loadAll`, `isKey_of_mem_keys`: logs that have been loaded, and all keys of their sources.
-/

namespace Framewise.Log

/-- A text that can be a key: one line, with no blank at its beginning or its end, and not empty. -/
structure IsKey (key : String) : Prop where
  nonempty : key ≠ ""
  begins : ∀ c ∈ key.toList.head?, Text.isBlank c = false
  ends : ∀ c ∈ key.toList.getLast?, Text.isBlank c = false
  oneLine : ∀ c ∈ key.toList, Text.isLineBreak c = false

/-! ### Names of lines -/

theorem not_isLineBreak_of_not_isBlank {c : Char} (h : Text.isBlank c = false) :
    Text.isLineBreak c = false := by
  rw [Bool.eq_false_iff] at h ⊢
  intro hbreak
  exact h (Text.isBlank_of_isLineBreak hbreak)

theorem isKey_ofList {cs : List Char} (hne : cs ≠ [])
    (hbegins : ∀ c ∈ cs.head?, Text.isBlank c = false)
    (hends : ∀ c ∈ cs.getLast?, Text.isBlank c = false)
    (hline : ∀ c ∈ cs, Text.isLineBreak c = false) : IsKey (String.ofList cs) := by
  have hcs : (String.ofList cs).toList = cs := String.toList_ofList
  constructor
  · intro hempty
    rw [hempty] at hcs
    exact hne hcs.symm
  · rwa [hcs]
  · rwa [hcs]
  · rwa [hcs]

/-- A word can be a key. -/
theorem isKey_of_mem_words {line word : List Char} (h : word ∈ Text.words line) :
    IsKey (String.ofList word) := by
  obtain ⟨hne, hfree⟩ := Text.blankFree_of_mem_words h
  apply isKey_ofList hne
  · intro c hc
    exact hfree c (List.mem_of_mem_head? hc)
  · intro c hc
    exact hfree c (List.mem_of_mem_getLast? hc)
  · intro c hc
    exact not_isLineBreak_of_not_isBlank (hfree c hc)

/-- The name of a metric can be a key. -/
theorem isKey_of_splitLast? {line name word : List Char}
    (split : Text.splitLast? (Text.trim line) = some (name, word))
    (oneLine : name.any Text.isLineBreak = false) : IsKey (String.ofList name) := by
  obtain ⟨gap, hcut⟩ := Text.splitLast?_eq_some_iff.1 split
  refine isKey_ofList hcut.front_ne ?_ hcut.front_ends ?_
  · intro c hc
    exact Text.head?_trim line c (Text.head?_of_isPrefix hcut.front_isPrefix c hc)
  · exact Text.forall_eq_false oneLine

/-- The key or the name that a line tells. -/
def Entry.name? : Entry → Option String
  | .frameStart key _ => some key
  | .metric name _ => some name
  | _ => none

/-- **What a line tells is under a name that can be a key.** -/
theorem isKey_of_tells {line : List Char} {e : Entry} (h : Tells line e) :
    ∀ name ∈ e.name?, IsKey name := by
  rintro name hname
  cases h with
  | frameStart front key word kind words many number =>
    obtain rfl := Option.some.inj hname
    have hmem : key ∈ Text.words line := by
      rw [words]
      simp
    exact isKey_of_mem_words hmem
  | metric name' word kind split oneLine number =>
    obtain rfl := Option.some.inj hname
    exact isKey_of_splitLast? split oneLine
  | cameraSection | other => cases hname

/-! ### Keys of camera sections -/

/-- **A name with the number of a camera can be a key** if the name can. -/
theorem IsKey.qualify {name : String} (h : IsKey name) (camera : Nat) :
    IsKey (qualify name camera) := by
  unfold Log.qualify
  split
  · exact h
  · have htext : (cameraKey name (Number.natText camera)).toList =
        name.toList ++ (" Camera ".toList ++ Number.digits camera) := by
      rw [cameraKey, String.toList_append, String.toList_append, Number.toList_natText,
        List.append_assoc]
    have hname : name.toList ≠ [] := by
      intro hnil
      exact h.nonempty (String.toList_inj.1 hnil)
    have hdigit : ∀ c ∈ Number.digits camera, Text.isBlank c = false :=
      fun c hc => Text.not_isBlank_of_isDigit (Number.digits_isDigit hc)
    constructor
    · intro hempty
      rw [hempty] at htext
      exact hname (List.append_eq_nil_iff.1 htext.symm).1
    · rw [htext, List.head?_append_of_ne_nil _ hname]
      exact h.begins
    · rw [htext, ← List.append_assoc, List.getLast?_append_of_ne_nil _ (Number.digits_ne_nil camera)]
      intro c hc
      exact hdigit c (List.mem_of_mem_getLast? hc)
    · rw [htext]
      intro c hc
      rcases List.mem_append.1 hc with hc | hc
      · exact h.oneLine c hc
      · rcases List.mem_append.1 hc with hc | hc
        · have hplain : " Camera ".toList.any Text.isLineBreak = false := by decide
          exact Text.forall_eq_false hplain c hc
        · exact not_isLineBreak_of_not_isBlank (hdigit c hc)

end Framewise.Log

namespace Framewise

/-! ### Records -/

/-- All keys of a record can be keys of a log. -/
def Record.Keyed (record : Record) : Prop :=
  ∀ key ∈ record.keys, Log.IsKey key

theorem Record.keyed_empty : Record.Keyed .empty := by
  rintro key ⟨⟩

theorem Record.Keyed.insert {record : Record} (h : record.Keyed) {key : String}
    (hkey : Log.IsKey key) (value : Float) : Record.Keyed (OrderedMap.insert record key value) := by
  unfold Record.Keyed
  rw [OrderedMap.keys_insert]
  split
  · exact h
  · intro key' hmem
    rcases List.mem_append.1 hmem with hmem | hmem
    · exact h key' hmem
    · obtain rfl := List.mem_singleton.1 hmem
      exact hkey

namespace Log

/-! ### Readers -/

namespace Reader

/-- The keys of the record in progress, if there is one, can be keys of a log. -/
def Keyed (r : Reader) : Prop :=
  ∀ record ∈ r.frame, record.Keyed

theorem keyed_enter {r : Reader} (hr : r.Keyed) {e : Entry} (he : ∀ name ∈ e.name?, IsKey name) :
    (r.enter e).1.Keyed ∧ ∀ record ∈ (r.enter e).2, record.Keyed := by
  cases e with
  | frameStart key value =>
    refine ⟨?_, hr⟩
    rintro record ⟨⟩
    exact Record.keyed_empty.insert (he key rfl) value
  | metric name value =>
    refine ⟨?_, by rintro record ⟨⟩⟩
    rintro record ⟨⟩
    apply Record.Keyed.insert _ ((he name rfl).qualify r.camera)
    cases hframe : r.frame with
    | none => exact Record.keyed_empty
    | some record => exact hr record hframe
  | cameraSection | other => exact ⟨hr, by rintro record ⟨⟩⟩

/-- **One line.** A record that it completes has keys, and so has the record in progress. -/
theorem keyed_push {r : Reader} (hr : r.Keyed) (line : String) :
    (r.push line).1.Keyed ∧ ∀ record, (r.push line).2 = .ok (some record) → record.Keyed := by
  cases h : (r.push line).2 with
  | error e =>
    rw [push_error h]
    exact ⟨hr, by rintro record ⟨⟩⟩
  | ok completed =>
    obtain ⟨e, he⟩ := tells_of_push h
    have hpush := push_tells he r
    have henter := keyed_enter (r := { r with lineNumber := r.lineNumber + 1 }) hr
      (isKey_of_tells he)
    rw [hpush] at h ⊢
    refine ⟨henter.1, ?_⟩
    intro record hrecord
    rw [← h] at hrecord
    exact henter.2 record (Except.ok.inj hrecord)

theorem keyed_act {r : Reader} (hr : r.Keyed) (a : Action) :
    (r.act a).1.Keyed ∧ ∀ record, (r.act a).2 = .ok (some record) → record.Keyed := by
  cases a with
  | push line => exact keyed_push hr line
  | reset => exact ⟨by rintro record ⟨⟩, by rintro record ⟨⟩⟩

theorem keyed_start (source : Option String) : ({ source } : Reader).Keyed := by
  rintro record ⟨⟩

/-- **Every session**, whatever its lines are and however many of them fail. -/
theorem keyed_session (source : Option String) (actions : List Action) :
    (({ source } : Reader).session actions).1.Keyed ∧
    ∀ record ∈ returned (({ source } : Reader).session actions).2, record.Keyed := by
  have hstate : ∀ actions, (({ source } : Reader).session actions).1.Keyed :=
    session_induction (keyed_start source) fun r a hr => (keyed_act hr a).1
  refine ⟨hstate actions, ?_⟩
  intro record hmem
  obtain ⟨given, hgiven, hrecord⟩ := List.mem_filterMap.1 hmem
  obtain ⟨i, hi⟩ := List.mem_iff_getElem?.1 hgiven
  rw [getElem?_session] at hi
  obtain ⟨a, -, rfl⟩ := Option.map_eq_some_iff.1 hi
  apply (keyed_act (hstate (actions.take i)) a).2 record
  cases h : ((({ source } : Reader).session (actions.take i)).1.act a).2 with
  | error e =>
    rw [h] at hrecord
    cases hrecord
  | ok completed =>
    rw [h] at hrecord
    exact congrArg Except.ok hrecord

end Reader

/-! ### Logs -/

theorem keyed_foldl_step (lines : List String) {p : Progress} (hreader : p.reader.Keyed)
    (hrecords : ∀ record ∈ p.records, record.Keyed) :
    ∀ record ∈ (lines.foldl Progress.step p).records, record.Keyed := by
  induction lines generalizing p with
  | nil => exact hrecords
  | cons line lines ih =>
    rw [List.foldl_cons]
    have hpush := Reader.keyed_push hreader line
    have hstep : (p.step line).reader.Keyed ∧
        ∀ record ∈ (p.step line).records, record.Keyed := by
      unfold Progress.step
      split
      · exact ⟨hreader, hrecords⟩
      · generalize p.reader.push line = pushed at hpush
        obtain ⟨reader, given⟩ := pushed
        cases given with
        | error e => exact ⟨hpush.1, hrecords⟩
        | ok completed =>
          cases completed with
          | none => exact ⟨hpush.1, hrecords⟩
          | some record => exact ⟨hpush.1, List.forall_mem_cons.2 ⟨hpush.2 record rfl, hrecords⟩⟩
    exact ih hstep.1 hstep.2

theorem keyed_readRecords (source : Option String) (lines : List String) :
    ∀ record ∈ (readRecords source lines).1, record.Keyed := by
  intro record hmem
  exact keyed_foldl_step lines (Reader.keyed_start source) (by rintro record ⟨⟩) record
    (List.mem_reverse.1 hmem)

/-- The records of a log that has been loaded have keys. -/
theorem keyed_load {name : String} {chunks : List Text.Chunk} {l : Loaded}
    (h : load name chunks = .ok l) : ∀ record ∈ l.records, record.Keyed := by
  unfold load at h
  simp only at h
  split at h
  · next records hread =>
    obtain rfl := Except.ok.inj h
    have hkeyed := keyed_readRecords (some name) (if (Text.LineStream.run {} chunks).2.remainder = []
      then (Text.LineStream.run {} chunks).1
      else (Text.LineStream.run {} chunks).1 ++
        [String.ofList (Text.LineStream.run {} chunks).2.remainder])
    rw [hread] at hkeyed
    exact hkeyed
  · cases h

theorem keyed_loadFile {directory : String → Option Text.Chunk} {path : String} {l : Loaded}
    (h : loadFile directory path = .ok l) : ∀ record ∈ l.records, record.Keyed := by
  unfold loadFile at h
  split at h
  · cases h
  · exact keyed_load (mapError_eq_ok.1 h)

/-- **The records of all logs that a run loads have keys**, be they files or standard input. -/
theorem keyed_loadAll {directory : String → Option Text.Chunk} {input : List Text.Chunk}
    {paths : List String} {loaded : List Loaded} (h : loadAll directory input paths = .ok loaded) :
    ∀ l ∈ loaded, ∀ record ∈ l.records, record.Keyed := by
  unfold loadAll at h
  split at h
  · obtain ⟨l, hl, rfl⟩ := map_eq_ok.1 h
    intro l' hl'
    obtain rfl := List.mem_singleton.1 hl'
    exact keyed_load (mapError_eq_ok.1 hl)
  · rw [loadFiles_eq_mapM, mapM_eq_ok] at h
    intro l hl
    have hmem : Except.ok l ∈ paths.map (loadFile directory) := by
      rw [h]
      exact List.mem_map_of_mem hl
    obtain ⟨path, -, hpath⟩ := List.mem_map.1 hmem
    exact keyed_loadFile hpath

/-- The records of a source are those of a log that was loaded. -/
theorem exists_loaded_of_get? {loaded : List Loaded} {name : String} {records : List Record}
    (h : (sources loaded).get? name = some records) :
    ∃ l ∈ loaded, l.name = name ∧ l.records = records := by
  rw [sources, OrderedMap.get?_ofList] at h
  obtain ⟨l, hl, hentry⟩ := List.mem_map.1 (List.mem_reverse.1 (mem_of_valueOf? h))
  obtain ⟨hname, hrecords⟩ := Prod.mk.inj hentry
  exact ⟨l, hl, hname, hrecords⟩

/-- **All keys of loaded logs can be keys**, those of their records being so. -/
theorem isKey_of_mem_keys {loaded : List Loaded}
    (h : ∀ l ∈ loaded, ∀ record ∈ l.records, record.Keyed) :
    ∀ key ∈ (sources loaded).keys, IsKey key := by
  intro key hkey
  obtain ⟨name, records, hget, record, hrecord, hmem⟩ := Sources.mem_keys.1 hkey
  obtain ⟨l, hl, -, rfl⟩ := exists_loaded_of_get? hget
  exact h l hl record hrecord key hmem

end Log

end Framewise
