import Framewise.Proofs.Command.Agreement
import Framewise.Proofs.Log.Keys

/-!
# The listing of keys

A run that is asked for the keys writes one on a line. No key of a log looks like more than one line
or like none, so the listing can be read again.

* `splitLines_keyListing`: the lines of a listing are the keys.
* `output_listing`: what a run writes that is asked for keys only.
* `listing_lines_eq_keys`: the keys of a reader in any state, and those that a run lists.
-/

namespace Framewise

/-- Without a request for views there are none. -/
theorem buildViews_eq_nil {r : ViewRequest} (h : ¬ r.AsksForViews) (frames : Frames) :
    buildViews frames r = .ok [] := by
  simp only [ViewRequest.AsksForViews, ne_eq, not_or, not_not] at h
  obtain ⟨htime, htotals, hhist, hratio, hwindow, hplot, hstats⟩ := h
  unfold buildViews
  rw [htime, htotals, hhist, hratio, hwindow, hplot, hstats]
  rfl

namespace Command

/-- **The lines of a listing are the keys**, if they can be keys of a log. -/
theorem splitLines_keyListing {keys : List String} (h : ∀ key ∈ keys, Log.IsKey key) :
    Text.splitLines (keyListing keys) = keys := by
  apply Text.splitLines_join
  intro key hkey hfeed
  exact absurd ((h key hkey).oneLine '\n' hfeed) (by decide)

/-- Starting the service takes nothing back that was written. -/
theorem output_serve (o : Options) (environment : Service.Environment) (sources : Sources)
    (output : String) (notices : List Notice) :
    (serve o environment sources output notices).output = output := by
  unfold serve
  split
  · split
    · rfl
    · rfl
  · rfl

/-- A run that is asked for keys and for no view writes their listing, and nothing else. -/
theorem output_listing {argv : List String} {s : Surroundings} {o : Options}
    {loaded : List Log.Loaded} (hparse : parseArguments argv = .ok o) (hhelp : o.help = false)
    (hload : Log.loadAll s.directory s.input o.paths = .ok loaded) (hkeys : o.printKeys = true)
    (hnone : ¬ o.views.AsksForViews) :
    (run argv s).output = keyListing (Log.sources loaded).keys := by
  have hviews : viewText o.json [] = "" := rfl
  rw [run_eq_answer hparse hhelp hload]
  unfold answer
  simp only [buildViews_eq_nil hnone, hkeys, if_true]
  rw [output_serve, hviews, String.append_empty]

/-- **Keys can be told apart from each other and from nothing.**

* In every state that a reader can reach, whatever lines it is given and however many of them fail,
  each key of the record in progress, and of every record that it hands back, is a text on one line
  that is not empty and neither begins nor ends with a blank.
* So a run that is asked for the keys of its logs, and for no view, writes a text whose lines are
  these keys; and each of them passes the check that keys in requests have to pass. -/
theorem listing_lines_eq_keys :
    (∀ (source : Option String) (actions : List Log.Action),
      let run := ({ source } : Log.Reader).session actions
      (∀ record ∈ run.1.frame, ∀ key ∈ record.keys, Log.IsKey key) ∧
      ∀ record ∈ Log.returned run.2, ∀ key ∈ record.keys, Log.IsKey key) ∧
    ∀ (argv : List String) (s : Surroundings) (o : Options) (loaded : List Log.Loaded),
      parseArguments argv = .ok o → o.help = false →
      Log.loadAll s.directory s.input o.paths = .ok loaded →
      (o.printKeys = true → ¬ o.views.AsksForViews →
        Text.splitLines (run argv s).output = (Log.sources loaded).keys) ∧
      ∀ key ∈ (Log.sources loaded).keys, ∀ path,
        Check.nonEmptyText path (some (.string key)) = .valid key := by
  constructor
  · exact Log.Reader.keyed_session
  · intro argv s o loaded hparse hhelp hload
    have hall := Log.isKey_of_mem_keys (Log.keyed_loadAll hload)
    constructor
    · intro hkeys hnone
      rw [output_listing hparse hhelp hload hkeys hnone, splitLines_keyListing hall]
    · intro key hkey path
      exact if_neg (hall key hkey).nonempty

/-- A name with a blank inside, between wider blanks and a line break that is no line feed. -/
theorem listing_lines_eq_keys_wide :
    let argv := ["--print_keys", "a.log"]
    let s : Surroundings :=
      { directory := fun path =>
          if path = "a.log" then some (.text
            "    \u3000Draw\u00A0calls\u2028 7\r\nStats Viewer : n 1\n")
          else none }
    Text.splitLines (run argv s).output = ["Draw\u00A0calls"] ∧
      Check.nonEmptyText [] (some (.string "Draw\u00A0calls")) = .valid "Draw\u00A0calls" := by
  intro argv s
  let loaded : List Log.Loaded := [⟨"a.log", [.ofList [("Draw\u00A0calls", 7)]], 44, 2⟩]
  have hparse : parseArguments argv = .ok { printKeys := true, paths := ["a.log"] } := by
    decide +kernel
  have hload : Log.loadAll s.directory s.input ["a.log"] = .ok loaded := by decide +kernel
  have hkeys : (Log.sources loaded).keys = ["Draw\u00A0calls"] := by decide +kernel
  have hnone : ¬ ({} : ViewRequest).AsksForViews := by
    rintro (h | h | h | h | h | h | h) <;> exact h rfl
  obtain ⟨hlines, hvalid⟩ := listing_lines_eq_keys.2 argv s _ loaded hparse rfl hload
  rw [hkeys] at hlines hvalid
  exact ⟨hlines rfl hnone, hvalid _ List.mem_cons_self []⟩

end Command

end Framewise
