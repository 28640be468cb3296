import Framewise.Proofs.Command.Parts

/-!
# Command lines compose

A command line that is accepted and has no bare `--` can stand before any other one, and both mean
what they mean alone.

* `parseArguments_eq_ok_iff`: what is accepted, in terms of drafts.
* `parseArguments_scan`: what follows a command line is read into its draft.
* `parseArguments_append`: the options and the errors of one command line after another, and when
  their order does not matter.
-/

namespace Framewise.Command

/-- The options `q` are what `o` and then `p` ask for. Lists are extended and switches stay on; of the
bounds `p` has those that are `given`. -/
structure Options.Composed (o p : Options) (given : Bound → Prop) (q : Options) : Prop where
  timeseries : q.views.timeseries = o.views.timeseries ++ p.views.timeseries
  cumulativeTimeseries :
    q.views.cumulativeTimeseries = o.views.cumulativeTimeseries ++ p.views.cumulativeTimeseries
  hist : q.views.hist = o.views.hist ++ p.views.hist
  histRatio : q.views.histRatio = o.views.histRatio ++ p.views.histRatio
  stdevHist : q.views.stdevHist = o.views.stdevHist ++ p.views.stdevHist
  plot : q.views.plot = o.views.plot ++ p.views.plot
  stats : q.views.stats = o.views.stats ++ p.views.stats
  paths : q.paths = o.paths ++ p.paths
  timeseriesSum : q.views.timeseriesSum = true ↔
    o.views.timeseriesSum = true ∨ p.views.timeseriesSum = true
  cumulativeTimeseriesSum : q.views.cumulativeTimeseriesSum = true ↔
    o.views.cumulativeTimeseriesSum = true ∨ p.views.cumulativeTimeseriesSum = true
  statsSum : q.views.statsSum = true ↔ o.views.statsSum = true ∨ p.views.statsSum = true
  printKeys : q.printKeys = true ↔ o.printKeys = true ∨ p.printKeys = true
  json : q.json = true ↔ o.json = true ∨ p.json = true
  serve : q.serve = true ↔ o.serve = true ∨ p.serve = true
  help : q.help = true ↔ o.help = true ∨ p.help = true
  start : given .start → q.range.start = p.range.start
  start_before : ¬ given .start → q.range.start = o.range.start
  stop : given .stop → q.range.stop = p.range.stop
  stop_before : ¬ given .stop → q.range.stop = o.range.stop

/-- The bound of a join is the later one, if it is there. -/
theorem getD_or {x y : Option Float} {dflt : Float} :
    (y ≠ none → (y.or x).getD dflt = y.getD dflt) ∧ (y = none → (y.or x).getD dflt = x.getD dflt) := by
  cases y with
  | none => simp
  | some y => simp

/-- **The options of a join** are those of both drafts together. -/
theorem Draft.composed_join (d e : Draft) :
    d.options.Composed e.options (fun b => ¬ e.Lacks (some (.bound b))) (d.join e).options where
  timeseries := rfl
  cumulativeTimeseries := rfl
  hist := rfl
  histRatio := List.map_append
  stdevHist := List.map_append
  plot := List.map_append
  stats := rfl
  paths := rfl
  timeseriesSum := Bool.or_eq_true_iff
  cumulativeTimeseriesSum := Bool.or_eq_true_iff
  statsSum := Bool.or_eq_true_iff
  printKeys := Bool.or_eq_true_iff
  json := Bool.or_eq_true_iff
  serve := Bool.or_eq_true_iff
  help := Bool.or_eq_true_iff
  start := getD_or.1
  start_before := fun h => getD_or.2 (not_not.1 h)
  stop := getD_or.1
  stop_before := fun h => getD_or.2 (not_not.1 h)

/-! ### What is accepted -/

theorem parseArguments_eq_ok_iff {argv : List String} {o : Options} :
    parseArguments argv = .ok o ↔ ∃ d, scan {} argv = .ok d ∧ d.Valid ∧ d.options = o := by
  unfold parseArguments
  rw [bind_eq_ok]
  simp only [Draft.check_eq_ok_iff]

/-- An error that is no issue of the check is one of the scan. -/
theorem scan_of_parseArguments_error {argv : List String} {e : UsageError}
    (h : parseArguments argv = .error e) (hscan : ∀ issue, e ≠ .invalid issue) :
    scan {} argv = .error e := by
  unfold parseArguments at h
  cases hd : scan {} argv with
  | error e' =>
    rw [hd] at h
    rw [show e' = e from Except.error.inj h]
  | ok d =>
    rw [hd] at h
    obtain ⟨issue, rfl⟩ := Draft.check_eq_error h
    exact absurd rfl (hscan issue)

/-- **What follows a command line is read into its draft.** -/
theorem parseArguments_scan {a : List String} {d : Draft} (ha : scan {} a = .ok d)
    (hbare : ¬ HasBare a) (b : List String) : parseArguments (a ++ b) =
      ((scan {} b).map d.join).bind Draft.check := by
  unfold parseArguments
  rw [scan_append ha hbare, scan_eq]

/-- Groups of options for different settings can change places, whatever follows them. -/
theorem scan_swap {g h : List String} {d e : Draft} (hg : scan {} g = .ok d) (hh : scan {} h = .ok e)
    (hbareg : ¬ HasBare g) (hbareh : ¬ HasBare h) (happart : ∀ s, Gives g s → ¬ Gives h s)
    (f : Draft) (c : List String) : scan f (g ++ (h ++ c)) = scan f (h ++ (g ++ c)) := by
  have hcomm : d.join e = e.join d := by
    apply Draft.join_comm
    intro s
    by_contra hboth
    rw [not_or, ← gives_iff hg, ← gives_iff hh] at hboth
    exact happart s hboth.1 hboth.2
  have hread : ∀ {a : List String} {d' : Draft} (f' : Draft), scan {} a = .ok d' →
      scan f' a = .ok (f'.join d') := by
    intro a d' f' ha
    rw [scan_eq, ha]
    rfl
  rw [scan_append (hread f hg) hbareg, scan_append (hread _ hh) hbareh, scan_append (hread f hh) hbareh,
    scan_append (hread _ hg) hbareg, Draft.join_assoc, Draft.join_assoc, hcomm]

/-! ### One after the other -/

/-- **Command lines compose.** If `a` is accepted and no bare `--` stands where an option could, then

* an accepted command line after it is accepted with it: lists are put one after the other, switches
  are on that are on in one of the two, and a bound is the later one that is given;
* a command line that cannot be scanned fails alike after it;
* all that follows a bare `--` is taken as paths, whatever it looks like, and only the empty path is
  refused;
* groups of options that follow it can change places if they are for different settings, and so can
  options and paths. -/
theorem parseArguments_append {a : List String} {o : Options} (ha : parseArguments a = .ok o)
    (hbare : ¬ HasBare a) :
    (∀ b p, parseArguments b = .ok p → ∃ q, parseArguments (a ++ b) = .ok q ∧
      o.Composed p (fun bound => Gives b (some (.bound bound))) q) ∧
    (∀ b e, parseArguments b = .error e → (∀ issue, e ≠ .invalid issue) →
      parseArguments (a ++ b) = .error e) ∧
    (∀ paths, (∀ path ∈ paths, path ≠ "") →
      parseArguments (a ++ "--" :: paths) = .ok { o with paths := o.paths ++ paths }) ∧
    (∀ paths, "" ∈ paths → ∃ issue, parseArguments (a ++ "--" :: paths) = .error (.invalid issue)) ∧
    ∀ g h p q, parseArguments g = .ok p → parseArguments h = .ok q → ¬ HasBare g → ¬ HasBare h →
      (∀ s, Gives g s → ¬ Gives h s) →
      ∀ c, parseArguments (a ++ (g ++ (h ++ c))) = parseArguments (a ++ (h ++ (g ++ c))) := by
  obtain ⟨d, hd, hvalid, rfl⟩ := parseArguments_eq_ok_iff.1 ha
  have hpaths : ∀ paths, parseArguments (a ++ "--" :: paths) = (d.addPaths paths).check := by
    intro paths
    have hjoin := d.addPaths_join {} paths
    rw [d.join_empty] at hjoin
    rw [parseArguments_scan hd hbare, scan_bare, hjoin]
    rfl
  refine ⟨?_, ?_, ?_, ?_, ?_⟩
  · intro b p hb
    obtain ⟨e, he, hvalid', rfl⟩ := parseArguments_eq_ok_iff.1 hb
    refine ⟨(d.join e).options, ?_, ?_⟩
    · rw [parseArguments_scan hd hbare, he]
      exact Draft.check_eq_ok_iff.2 ⟨hvalid.join hvalid', rfl⟩
    · have hcomposed := d.composed_join e
      simp only [← gives_iff he] at hcomposed
      exact hcomposed
  · intro b e hb hscan
    rw [parseArguments_scan hd hbare, scan_of_parseArguments_error hb hscan]
    rfl
  · intro paths hall
    rw [hpaths, Draft.check_eq_ok_iff]
    exact ⟨{ hvalid with paths := List.forall_mem_append.2 ⟨hvalid.paths, hall⟩ }, rfl⟩
  · intro paths hempty
    cases hcheck : (d.addPaths paths).check with
    | ok o =>
      have hall := (Draft.check_eq_ok_iff.1 hcheck).1.paths
      exact absurd rfl (hall "" (List.mem_append_right _ hempty))
    | error e =>
      obtain ⟨issue, rfl⟩ := Draft.check_eq_error hcheck
      exact ⟨issue, (hpaths paths).trans hcheck⟩
  · intro g h p q hg hh hbareg hbareh happart c
    obtain ⟨dg, hdg, -, -⟩ := parseArguments_eq_ok_iff.1 hg
    obtain ⟨dh, hdh, -, -⟩ := parseArguments_eq_ok_iff.1 hh
    unfold parseArguments
    rw [scan_append hd hbare, scan_append hd hbare, scan_swap hdg hdh hbareg hbareh happart]

/-- A bare `--` that is a value ends nothing. After it, bounds and keys are given again, and what looks
like an option behind a bare `--` is a path. -/
theorem parseArguments_append_dashes :
    let a := ["--hist", "--", "--begin_frame", "2", "x.log"]
    let b := ["--end_frame=-1", "--hist", "k", "--json", "--", "--stats"]
    parseArguments a = .ok
        { views := { hist := ["--"] }, range := { start := 2 }, paths := ["x.log"] } ∧
      ¬ HasBare a ∧
      (∃ q, parseArguments (a ++ b) = .ok q ∧ q.views.hist = ["--", "k"] ∧ q.json = true ∧
        q.paths = ["x.log", "--stats"] ∧ q.range = ⟨2, -1⟩) ∧
      parseArguments (a ++ ["--end_frame", "k"]) = .error (.badNumber "--end_frame" "k") ∧
      parseArguments (a ++ (["--stats", "k"] ++ (["y.log"] ++ b))) =
        parseArguments (a ++ (["y.log"] ++ (["--stats", "k"] ++ b))) := by
  intro a b
  have hparse : parseArguments a = .ok
      { views := { hist := ["--"] }, range := { start := 2 }, paths := ["x.log"] } := by
    decide +kernel
  have ha : Consists a [.option "--hist" ["--"], .option "--begin_frame" ["2"], .path "x.log"] none :=
    ⟨by decide, rfl⟩
  obtain ⟨happend, herror, -, -, hswap⟩ := parseArguments_append hparse ha.not_hasBare
  refine ⟨hparse, ha.not_hasBare, ?_, ?_, ?_⟩
  · have hb : parseArguments b = .ok
        { views := { hist := ["k"] }, range := { stop := -1 }, json := true, paths := ["--stats"] } := by
      decide +kernel
    have hparts : Consists b [.inline "--end_frame" "-1", .option "--hist" ["k"], .option "--json" []]
        (some ["--stats"]) := ⟨by decide, rfl⟩
    obtain ⟨q, hq, hcomposed⟩ := happend b _ hb
    have hstart := hcomposed.start_before (mt hparts.gives_iff.1 (by decide))
    have hstop := hcomposed.stop (hparts.gives_iff.2 (by decide))
    exact ⟨q, hq, hcomposed.hist, hcomposed.json.2 (.inr rfl), hcomposed.paths,
      congrArg₂ FrameRange.mk hstart hstop⟩
  · apply herror
    · decide +kernel
    · intro issue h
      cases h
  · have hg : Consists ["--stats", "k"] [.option "--stats" ["k"]] none := ⟨by decide, rfl⟩
    have hh : Consists ["y.log"] [.path "y.log"] none := ⟨by decide, rfl⟩
    apply hswap _ _ { views := { stats := ["k"] } } { paths := ["y.log"] }
    · decide +kernel
    · decide +kernel
    · exact hg.not_hasBare
    · exact hh.not_hasBare
    · intro s hs hs'
      rw [hg.gives_iff] at hs
      rw [hh.gives_iff] at hs'
      rcases hs with ⟨p, hp, rfl⟩ | ⟨-, hp⟩
      · obtain rfl := List.mem_singleton.1 hp
        exact absurd hs' (by decide)
      · exact absurd rfl hp

end Framewise.Command
