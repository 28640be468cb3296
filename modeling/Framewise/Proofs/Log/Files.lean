import Framewise.Proofs.Log.Faults
import Framewise.Proofs.Log.Loading
import Framewise.Proofs.OrderedMap

/-!
# The files of paths

`Holds` and `Fails` say what the file of a path can be, from its text alone. Loading the files of
paths succeeds if all of them hold logs, and else fails with the first one that does not.

* `loadFile_of_holds`, `loadFile_of_fails`: one file; `holds_or_fails`: there is no third kind.
* `loadFiles_of_holds`, `loadFiles_of_fails`: the files of all paths.
* `sources_of_paths`: the sources that logs with the names of paths make.
-/

namespace Framewise.Log

/-! ### One file -/

/-- The file of a path is a log of so many lines, all of which can be read, with these completed
records. -/
inductive Holds (directory : String → Option Text.Chunk) (path : String) :
    List Record → Nat → Prop where
  | intro {content : Text.Chunk} {entries : List Entry}
      (file : directory path = some content)
      (told : TellAll (Text.splitLines content.decode) entries) :
      Holds directory path (completed entries) (Text.splitLines content.decode).length

/-- There is no file for a path, or it has a first line that cannot be read; and what is said about
it. -/
inductive Fails (directory : String → Option Text.Chunk) (path : String) : String → Prop where
  | missing (file : directory path = none) :
      Fails directory path ("ENOENT: no such file or directory, open '" ++ path ++ "'")
  | malformed {content : Text.Chunk} (before : List String) (line : String) (after : List String)
      {entries : List Entry} {m : Misread}
      (file : directory path = some content)
      (cut : Text.splitLines content.decode = before ++ line :: after)
      (told : TellAll before entries)
      (misread : Misreads (Text.dropTerminator line.toList) m) :
      Fails directory path (path ++ ":line " ++ Number.natText (before.length + 1) ++ ": " ++
        m.fault.message)

section

variable {directory : String → Option Text.Chunk} {path : String}

theorem locate_line (source : String) (number message : String) :
    locate (some source) (some number) message =
      source ++ ":line " ++ number ++ ": " ++ message := by
  have hplace : String.intercalate ":"
      ((some source).toList ++ ((some number).map ("line " ++ ·)).toList) =
        source ++ ":line " ++ number := by
    have hmark : ":" ++ "line " = ":line " := by decide
    show String.intercalate ":" [source, "line " ++ number] = _
    rw [String.intercalate_cons_cons, String.intercalate_singleton, ← hmark,
      ← String.append_assoc, ← String.append_assoc]
  have hne : source ++ ":line " ++ number ≠ "" := by
    intro hempty
    have hlength := congrArg String.length hempty
    simp at hlength
  unfold locate
  simp only [hplace, if_neg hne]

theorem loadText_eq_ok {name text : String} {entries : List Entry}
    (told : TellAll (Text.splitLines text) entries) :
    loadText name text =
      .ok ⟨name, completed entries, text.utf8ByteSize, (Text.splitLines text).length⟩ := by
  obtain ⟨hstop, hrecords⟩ := foldl_tells told (p := { reader := { source := some name } }) rfl
  rw [List.reverse_nil, List.nil_append, completedFrom_start] at hrecords
  have hread : readRecords (some name) (Text.splitLines text) = (completed entries, none) :=
    Prod.ext hrecords hstop
  rw [loadText_eq, readText, hread]
  rfl

theorem loadText_eq_error {name text : String} {e : ParseError}
    (h : FirstFault (some name) (Text.splitLines text) e) : loadText name text = .error e := by
  have hstop := readRecords_eq_error_iff.2 h
  rw [loadText_eq, readText]
  generalize readRecords (some name) (Text.splitLines text) = read at hstop
  obtain ⟨records, stop⟩ := read
  simp only at hstop
  rw [hstop]
  rfl

theorem loadFile_of_holds {records : List Record} {lines : Nat}
    (h : Holds directory path records lines) :
    ∃ bytes, loadFile directory path = .ok ⟨path, records, bytes, lines⟩ := by
  obtain @⟨content, entries, file, told⟩ := h
  refine ⟨content.decode.utf8ByteSize, ?_⟩
  unfold loadFile
  rw [file]
  simp only
  rw [loadText_eq_ok told]
  rfl

theorem loadFile_of_fails {message : String} (h : Fails directory path message) :
    ∃ e, loadFile directory path = .error e ∧ e.message = message := by
  unfold loadFile
  cases h with
  | missing file =>
    rw [file]
    exact ⟨_, rfl, rfl⟩
  | malformed before line after file cut told misread =>
    rw [file]
    simp only
    rw [loadText_eq_error (.intro before line after cut told misread)]
    exact ⟨_, rfl, locate_line _ _ _⟩

/-- **A path has a log or fails.** -/
theorem holds_or_fails (directory : String → Option Text.Chunk) (path : String) :
    (∃ records lines, Holds directory path records lines) ∨
      ∃ message, Fails directory path message := by
  cases file : directory path with
  | none => exact .inr ⟨_, .missing file⟩
  | some content =>
    rcases tellAll_or_firstFault (some path) (Text.splitLines content.decode) with
      ⟨entries, told⟩ | ⟨e, before, line, after, cut, told, misread⟩
    · exact .inl ⟨_, _, .intro file told⟩
    · exact .inr ⟨_, .malformed before line after file cut told misread⟩

/-- No path does both. -/
theorem Holds.not_fails {records : List Record} {lines : Nat}
    (h : Holds directory path records lines) (message : String) :
    ¬ Fails directory path message := by
  intro hfails
  obtain ⟨bytes, hok⟩ := loadFile_of_holds h
  obtain ⟨e, herror, -⟩ := loadFile_of_fails hfails
  exact absurd (hok.symm.trans herror) (by simp)

end

/-! ### The files of all paths -/

/-- The first path that fails: those before it have logs. -/
inductive FirstFails (directory : String → Option Text.Chunk) (paths : List String) :
    String → Prop where
  | intro (before : List String) (path : String) (after : List String) {message : String}
      (cut : paths = before ++ path :: after)
      (good : ∀ p ∈ before, ∃ records lines, Holds directory p records lines)
      (fails : Fails directory path message) :
      FirstFails directory paths message

section

variable {directory : String → Option Text.Chunk} {paths : List String}

/-- If a path fails, one of them is the first. -/
theorem exists_firstFails {path message : String} (hmem : path ∈ paths)
    (hfails : Fails directory path message) : ∃ message, FirstFails directory paths message := by
  induction paths with
  | nil => cases hmem
  | cons p paths ih =>
    rcases holds_or_fails directory p with hholds | ⟨message', hfails'⟩
    · have hmem' : path ∈ paths := by
        rcases List.mem_cons.1 hmem with rfl | hmem'
        · obtain ⟨records, lines, hlog⟩ := hholds
          exact absurd hfails (hlog.not_fails message)
        · exact hmem'
      obtain ⟨_, before, first, after, cut, good, fails⟩ := ih hmem'
      exact ⟨_, .intro (p :: before) first after (congrArg (p :: ·) cut)
        (List.forall_mem_cons.2 ⟨hholds, good⟩) fails⟩
    · exact ⟨_, .intro [] p paths rfl (by simp) hfails'⟩

theorem loadFiles_of_fails {message : String} (h : FirstFails directory paths message) :
    ∃ e, loadFiles directory paths = .error e ∧ e.message = message := by
  obtain ⟨before, path, after, cut, good, fails⟩ := h
  obtain ⟨e, herror, hmessage⟩ := loadFile_of_fails fails
  refine ⟨e, ?_, hmessage⟩
  rw [loadFiles_eq_mapM, mapM_eq_error]
  refine ⟨before, path, after, cut, ?_, herror⟩
  intro p hp
  obtain ⟨records, lines, hlog⟩ := good p hp
  obtain ⟨bytes, hok⟩ := loadFile_of_holds hlog
  exact ⟨_, hok⟩

/-- What is loaded from paths that have logs: one for each path, in order. -/
theorem loadFiles_of_holds {records : String → List Record} {lines : String → Nat}
    (h : ∀ path ∈ paths, Holds directory path (records path) (lines path)) :
    ∃ bytes : String → Nat, loadFiles directory paths =
      .ok (paths.map fun path => ⟨path, records path, bytes path, lines path⟩) := by
  have hbytes : ∀ path, ∃ bytes, path ∈ paths →
      loadFile directory path = .ok ⟨path, records path, bytes, lines path⟩ := by
    intro path
    by_cases hmem : path ∈ paths
    · obtain ⟨bytes, hok⟩ := loadFile_of_holds (h path hmem)
      exact ⟨bytes, fun _ => hok⟩
    · exact ⟨0, fun hmem' => absurd hmem' hmem⟩
  choose bytes hbytes using hbytes
  refine ⟨bytes, ?_⟩
  rw [loadFiles_eq_mapM, mapM_eq_ok, List.map_map]
  apply List.map_congr_left
  intro path hmem
  exact hbytes path hmem

end

/-- The sources of logs that are named after their paths: each path once, with its records. -/
theorem sources_of_paths (paths : List String) (records : String → List Record)
    (bytes lines : String → Nat) :
    let loaded : List Loaded := paths.map fun path => ⟨path, records path, bytes path, lines path⟩
    OrderedMap.keys (sources loaded) = paths.eraseDups ∧
      ∀ path ∈ paths, (sources loaded).get? path = some (records path) := by
  intro loaded
  have hentries : loaded.map (fun l => (l.name, l.records)) =
      paths.map fun path => (path, records path) := by
    rw [List.map_map]
    rfl
  refine ⟨?_, ?_⟩
  · rw [sources, hentries, OrderedMap.keys_ofList, List.map_map]
    exact congrArg List.eraseDups (List.map_id paths)
  · intro path hmem
    rw [sources, hentries, OrderedMap.get?_ofList, ← List.map_reverse]
    have hfound := (valueOf?_isSome_iff path (paths.reverse.map fun p => (p, records p))).2 (by
      rw [List.map_map]
      exact List.mem_map.2 ⟨path, List.mem_reverse.2 hmem, rfl⟩)
    obtain ⟨found, hfound⟩ := Option.isSome_iff_exists.1 hfound
    obtain ⟨p, -, hp⟩ := List.mem_map.1 (mem_of_valueOf? hfound)
    obtain ⟨rfl, rfl⟩ := Prod.mk.inj hp
    exact hfound

end Framewise.Log
