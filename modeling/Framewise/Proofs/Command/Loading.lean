import Framewise.Command.Run
import Framewise.Proofs.Log.Files

/-!
# Loading is all or nothing

A run reads the files of all paths before it says anything about one of them.

* `run_eq_answer`, `run_eq_failure`: what a run makes of logs that are loaded, or not.
* `filter_aboutLog_answer`: the notices about logs, whatever else there is to be told.
* `run_loads_all_or_nothing`: the whole, for every command line with paths.
-/

namespace Framewise

namespace Command

/-! ### Runs -/

section

variable {argv : List String} {s : Surroundings} {o : Options}

/-- A run whose logs can be loaded answers with them. -/
theorem run_eq_answer {loaded : List Log.Loaded} (hparse : parseArguments argv = .ok o)
    (hhelp : o.help = false) (hload : Log.loadAll s.directory s.input o.paths = .ok loaded) :
    run argv s = answer o s.environment loaded := by
  unfold run
  rw [hparse]
  simp only [hhelp, Bool.false_eq_true, if_false, hload]

/-- A run whose logs cannot be loaded says why, and nothing else. -/
theorem run_eq_failure {e : Log.LoadError} (hparse : parseArguments argv = .ok o)
    (hhelp : o.help = false) (hload : Log.loadAll s.directory s.input o.paths = .error e) :
    run argv s = failure "" [] e.message := by
  unfold run
  rw [hparse]
  simp only [hhelp, Bool.false_eq_true, if_false, hload]

end

/-- Whether a notice is about a log that was read. -/
def aboutLog : Notice → Bool
  | .entry e => e.part = "reader"
  | .text _ => false

/-- **Each loaded log is reported once**, in order, whatever becomes of the views and the service. -/
theorem filter_aboutLog_answer (o : Options) (environment : Service.Environment)
    (loaded : List Log.Loaded) :
    (answer o environment loaded).notices.filter aboutLog =
      loaded.map fun l => .entry (loadedEntry l) := by
  have hall : (loaded.map fun l => Notice.entry (loadedEntry l)).filter aboutLog =
      loaded.map fun l => .entry (loadedEntry l) := by
    apply List.filter_eq_self.2
    intro notice hmem
    obtain ⟨l, -, rfl⟩ := List.mem_map.1 hmem
    rfl
  have hmore : ∀ notice, aboutLog notice = false →
      ((loaded.map fun l => Notice.entry (loadedEntry l)) ++ [notice]).filter aboutLog =
        loaded.map fun l => .entry (loadedEntry l) := by
    intro notice hnotice
    rw [List.filter_append, hall, List.filter_cons_of_neg (by rw [hnotice]; decide),
      List.filter_nil, List.append_nil]
  unfold answer
  simp only
  split
  · unfold serve
    split
    · split
      · exact hmore _ rfl
      · exact hmore _ rfl
    · exact hall
  · exact hmore _ rfl

/-- **Loading is all or nothing**, for every command line with paths and all files.

* If a path fails, the run fails with what is said about the first path that does. It writes nothing
  else, whatever logs came before.
* If no path does, each path is loaded once for every time it is named. Its source, of which there
  is one for each path in the order of their first places, has the completed records of its text;
  and there is one notice about it for each time, with the number of these records and of the
  lines. -/
theorem run_loads_all_or_nothing {argv : List String} {s : Surroundings} {o : Options}
    (hparse : parseArguments argv = .ok o) (hhelp : o.help = false) (hpaths : o.paths ≠ []) :
    ((∃ path ∈ o.paths, ∃ message, Log.Fails s.directory path message) →
      ∃ message, Log.FirstFails s.directory o.paths message ∧
        run argv s =
          { code := 1, output := "", notices := [.text ("error: " ++ message ++ "\n")] }) ∧
    ((∀ path ∈ o.paths, ∀ message, ¬ Log.Fails s.directory path message) →
      ∃ (records : String → List Record) (lines : String → Nat) (loaded : List Log.Loaded),
        (∀ path ∈ o.paths, Log.Holds s.directory path (records path) (lines path)) ∧
        Log.loadAll s.directory s.input o.paths = .ok loaded ∧
        OrderedMap.keys (Log.sources loaded) = o.paths.eraseDups ∧
        (∀ path ∈ o.paths, (Log.sources loaded).get? path = some (records path)) ∧
        (run argv s).notices.filter aboutLog = o.paths.map fun path =>
          .entry ⟨"reader", path ++ ": " ++ Number.natText (records path).length ++
            " frames from " ++ Number.natText (lines path) ++ " lines"⟩) := by
  have hfiles : Log.loadAll s.directory s.input o.paths = Log.loadFiles s.directory o.paths := by
    unfold Log.loadAll
    rw [if_neg hpaths]
  constructor
  · rintro ⟨path, hmem, _, hfails⟩
    obtain ⟨message, hfirst⟩ := Log.exists_firstFails hmem hfails
    obtain ⟨e, herror, rfl⟩ := Log.loadFiles_of_fails hfirst
    exact ⟨_, hfirst, run_eq_failure hparse hhelp (hfiles.trans herror)⟩
  · intro hgood
    have hholds : ∀ path, ∃ (records : List Record) (lines : Nat), path ∈ o.paths →
        Log.Holds s.directory path records lines := by
      intro path
      rcases Log.holds_or_fails s.directory path with ⟨records, lines, hlog⟩ | ⟨message, hfails⟩
      · exact ⟨records, lines, fun _ => hlog⟩
      · exact ⟨[], 0, fun hmem => absurd hfails (hgood path hmem message)⟩
    choose records lines hholds using hholds
    obtain ⟨bytes, hok⟩ := Log.loadFiles_of_holds hholds
    obtain ⟨hkeys, hget⟩ := Log.sources_of_paths o.paths records bytes lines
    have hload := hfiles.trans hok
    refine ⟨records, lines, _, hholds, hload, hkeys, hget, ?_⟩
    rw [run_eq_answer hparse hhelp hload, filter_aboutLog_answer, List.map_map]
    rfl

/-- A path that is named twice is loaded and reported twice, for one source; a bad line in the file
between hides both. -/
theorem run_loads_all_or_nothing_twice :
    let argv := ["a.log", "b.log", "a.log"]
    let s (text : String) : Surroundings :=
      { directory := fun path =>
          if path = "a.log" then some (.text "Stats Viewer : n 1\nStats Viewer : n 2\n")
          else if path = "b.log" then some (.text text)
          else none }
    parseArguments argv = .ok { paths := argv } ∧
    Log.Fails (s "x\n    7\n").directory "b.log" "b.log:line 2: metric line has no value" ∧
    run argv (s "x\n    7\n") =
      { code := 1, output := "",
        notices := [.text "error: b.log:line 2: metric line has no value\n"] } ∧
    (∃ loaded, Log.loadAll (s "x").directory [] argv = .ok loaded ∧
      OrderedMap.keys (Log.sources loaded) = ["a.log", "b.log"]) ∧
    ((run argv (s "x")).notices.filter aboutLog).length = 3 := by
  intro argv s
  have hparse : parseArguments argv = .ok { paths := argv } := by decide +kernel
  have hfails : Log.Fails (s "x\n    7\n").directory "b.log"
      "b.log:line 2: metric line has no value" := by
    refine .malformed (m := ⟨.noValue, "7"⟩) ["x"] "    7" [] rfl (by decide +kernel)
      (.cons (.other (by decide)) .nil) (.noValue (by decide) ?_)
    intro name word hsplit
    have hnone : Text.splitLast? (Text.trim (Text.dropTerminator "    7".toList)) = none := by decide
    rw [hnone] at hsplit
    cases hsplit
  have hgood : ∀ path ∈ argv, ∀ message, ¬ Log.Fails (s "x").directory path message := by
    intro path hmem message hfails'
    have hload : ∀ path ∈ argv, (Log.loadFile (s "x").directory path).toBool = true := by
      decide +kernel
    obtain ⟨l, hok⟩ := exists_eq_ok (hload path hmem)
    obtain ⟨e, herror, -⟩ := Log.loadFile_of_fails hfails'
    exact absurd (hok.symm.trans herror) (by simp)
  have hbad := (run_loads_all_or_nothing (s := s "x\n    7\n") hparse rfl (by simp [argv])).1
    ⟨"b.log", by simp [argv], _, hfails⟩
  obtain ⟨records, lines, loaded, -, hload, hkeys, -, hnotices⟩ :=
    (run_loads_all_or_nothing (s := s "x") hparse rfl (by simp [argv])).2 hgood
  refine ⟨hparse, hfails, ?_, ⟨loaded, hload, hkeys.trans (by decide)⟩, ?_⟩
  · obtain ⟨message, -, hrun⟩ := hbad
    have hnotices' : (run argv (s "x\n    7\n")).notices =
        [.text "error: b.log:line 2: metric line has no value\n"] := by decide +kernel
    rw [hrun] at hnotices' ⊢
    exact congrArg (fun notices => { code := 1, output := "", notices : Outcome }) hnotices'
  · rw [hnotices, List.length_map]
    rfl

end Command

end Framewise
