import Framewise.Proofs.Command.Loading
import Framewise.Proofs.View.Needs
import Framewise.Proofs.View.Zero
import Framewise.Service.Answer

/-!
# The command line and the service agree

A command line that asks for views as JSON and a request for the same views give the same views, or
fail with the same message. The request has to carry the options as text, so what the check of the
command line has accepted must be what the service reads.

* `parseArguments_valid`: options have passed the check of requests for views.
* `read_posted`: the service reads the options that are posted to it.
* `run_agrees_with_respond`: both give the same.
-/

namespace Framewise

/-- Whether a request asks for any view. -/
def ViewRequest.AsksForViews (r : ViewRequest) : Prop :=
  r.timeseries ≠ [] ∨ r.cumulativeTimeseries ≠ [] ∨ r.hist ≠ [] ∨ r.histRatio ≠ [] ∨
    r.stdevHist ≠ [] ∨ r.plot ≠ [] ∨ r.stats ≠ []

/-! ### Views that were asked for -/

/-- **A request that asks for views gets some**: there is one for each builder of the request. -/
theorem buildViews_ne_nil {frames : Frames} {r : ViewRequest} {views : List View}
    (h : buildViews frames r = .ok views) (hasks : r.AsksForViews) : views ≠ [] := by
  rintro rfl
  have hnone : ∀ builder ∈ r.builders frames, False := by
    intro builder hmem
    rw [builders_eq h] at hmem
    cases hmem
  unfold ViewRequest.builders at hnone
  simp only [List.forall_mem_append, forall_mem_asked, List.forall_mem_map, or_false] at hnone
  obtain ⟨⟨⟨⟨⟨⟨htime, htotals⟩, hhist⟩, hratio⟩, hwindows⟩, hplot⟩, hstats⟩ := hnone
  rcases hasks with hne | hne | hne | hne | hne | hne | hne
  · exact hne htime
  · exact hne htotals
  · exact hne hhist
  · exact hne hratio
  · exact hne (List.eq_nil_iff_forall_not_mem.2 hwindows)
  · exact hne hplot
  · exact hne hstats

namespace Command

open Service

/-! ### Options as a request -/

/-- The request for the views that options ask for. -/
def Options.request (o : Options) : ViewsRequest := ⟨o.views, o.range⟩

/-- The options, posted to the service. -/
def Options.posted (o : Options) : Service.Request where
  method := .post
  target := "/api/views"
  body := .content "application/json" (.text o.request.document.compact)

/-- **The options of a command line have passed the check of requests for views.** -/
theorem parseArguments_valid {argv : List String} {o : Options} (h : parseArguments argv = .ok o) :
    ∃ fields, Check.viewsFields [] fields = .valid o.request := by
  unfold parseArguments at h
  cases hd : scan {} argv with
  | error e =>
    rw [hd] at h
    exact absurd h (by simp [Except.bind])
  | ok d =>
    rw [hd] at h
    have hcheck : d.check = .ok o := h
    unfold Draft.check at hcheck
    cases hc : checkOptions (some d.document) with
    | invalid first more =>
      rw [hc] at hcheck
      exact absurd hcheck (by simp)
    | valid o' =>
      rw [hc] at hcheck
      obtain rfl := Except.ok.inj hcheck
      have hfields : optionFields [] (fun name => valueOf? name _) = .valid o' := hc
      unfold optionFields at hfields
      simp only [Check.Checked.ap_eq_valid, Check.Checked.map_eq_valid] at hfields
      obtain ⟨_, _, ⟨_, _, ⟨_, _, ⟨_, _, ⟨_, _, ⟨r, hr, rfl⟩, -, rfl⟩, -, rfl⟩, -, rfl⟩, -, rfl⟩,
        -, rfl⟩ := hfields
      exact ⟨_, hr⟩

theorem readJson_compact {fields : List (String × Json)}
    (hsize : (Json.object fields).compact.utf8ByteSize ≤ maxJsonBytes) :
    readJson "utf-8" (.text (Json.object fields).compact) = .ok (Json.object fields).readBack := by
  have hparse := Json.parse?_compact (.object fields)
  have htext : ∃ cs, (Json.object fields).compact.toList = '\x7b' :: cs := by
    unfold Json.compact
    rw [String.toList_ofList]
    cases fields with
    | nil => exact ⟨_, rfl⟩
    | cons f fs => exact ⟨_, rfl⟩
  obtain ⟨cs, hcs⟩ := htext
  have hcharset : ("utf-8".startsWith "utf-" : Bool) = true := by decide +kernel
  have hfits : ¬ Text.Chunk.size (.text (Json.object fields).compact) > maxJsonBytes :=
    not_lt.2 hsize
  have hmark : dropMark (Text.Chunk.decode (.text (Json.object fields).compact)).toList =
      '\x7b' :: cs := by
    show dropMark (Json.object fields).compact.toList = _
    rw [hcs]
    rfl
  have hback : String.ofList ('\x7b' :: cs) = (Json.object fields).compact := by
    rw [← hcs, String.ofList_toList]
  unfold readJson
  simp only [hmark, hcharset, hfits, hback, hparse]
  rfl

/-- **The service reads the options that are posted to it.** -/
theorem read_posted {o : Options}
    (hsize : o.request.document.compact.utf8ByteSize ≤ maxJsonBytes) :
    o.posted.body.read = .ok o.request.document.readBack := by
  have htype : (MediaType.parse? "application/json").map (fun t => (t.name, t.charset)) =
      some ("application/json", "utf-8") := by decide +kernel
  obtain ⟨t, ht, hjson⟩ := Option.map_eq_some_iff.1 htype
  obtain ⟨hname, hcharset⟩ := Prod.mk.inj hjson
  show Body.read (.content "application/json" (.text o.request.document.compact)) = _
  simp only [Body.read, ht]
  rw [if_pos hname, hcharset]
  exact readJson_compact hsize

/-! ### The two ways -/

/-- The views of a JSON text. -/
def viewsOf? (text : String) : Option Json :=
  (Json.parse? text).bind (Json.field? "views")

/-- The frames that are aligned for the options. -/
def Options.frames (o : Options) (sources : Sources) : Frames :=
  sources.align (sources.keys ++ o.views.keys) o.range

/-- What the service replies to the options, built from the views as they are posted. -/
theorem respond_posted {argv : List String} {o : Options} (hparse : parseArguments argv = .ok o)
    (hsize : o.request.document.compact.utf8ByteSize ≤ maxJsonBytes) (settings : Settings)
    (store : Store) :
    let answer := (respond settings store o.posted).1
    match buildViews (o.frames store.sources) o.views.unsigned with
    | .ok views => answer.status = 200 ∧ answer.body = some (Json.object
        [("views", View.documents views), ("count", Json.ofNat views.length)]).nameNonFinite
    | .error s => answer.status = 422 ∧
        answer.body = some (.object [("error", .string s.message)]) := by
  obtain ⟨fields, hvalid⟩ := parseArguments_valid hparse
  have hroute : Route.ofPath? o.posted.path = some .views := by
    show Route.ofPath? (Request.path ⟨.post, "/api/views", .absent⟩) = some .views
    decide +kernel
  have hframes : store.align (some (store.keys ++ o.request.unsigned.views.keys))
      o.request.unsigned.range = o.frames store.sources := by
    show store.sources.align (store.keys ++ o.views.unsigned.keys) o.range.unsigned = _
    rw [align_unsigned, keys_unsigned, store.keys_eq]
    rfl
  have hreply : viewsReply store o.request.document.readBack =
      match buildViews (o.frames store.sources) o.views.unsigned with
      | .ok views => .ok [("views", View.documents views), ("count", Json.ofNat views.length)]
      | .error s => .error 422 s.message := by
    unfold viewsReply
    rw [Check.viewsRequest_document hvalid]
    simp only [hframes]
    rfl
  have hanswer : ∀ r, viewsReply store o.request.document.readBack = r →
      (respond settings store o.posted).1.status = r.status ∧
      (respond settings store o.posted).1.body = r.document.map Json.nameNonFinite := by
    intro r hr
    have hall : reply store o.posted o.request.document.readBack = (r, store, none) := by
      unfold reply
      rw [hroute, ← hr]
      rfl
    unfold respond
    rw [read_posted hsize]
    simp only [hall]
    exact ⟨trivial, rfl⟩
  intro answer
  cases hviews : buildViews (o.frames store.sources) o.views.unsigned with
  | ok views =>
    rw [hviews] at hreply
    exact hanswer _ hreply
  | error s =>
    rw [hviews] at hreply
    exact hanswer _ hreply

/-- What a run leaves that was asked for views as JSON, and for nothing else. -/
theorem run_views {argv : List String} {s : Surroundings} {o : Options} {loaded : List Log.Loaded}
    (hparse : parseArguments argv = .ok o) (hjson : o.json = true) (hhelp : o.help = false)
    (hserve : o.serve = false) (hkeys : o.printKeys = false) (hasks : o.views.AsksForViews)
    (hload : Log.loadAll s.directory s.input o.paths = .ok loaded) :
    let outcome := run argv s
    match buildViews (o.frames (Log.sources loaded)) o.views with
    | .ok views => outcome.code = 0 ∧
        outcome.output = (Json.object [("views", View.documents views)]).nameNonFinite.pretty ++ "\n"
    | .error s => outcome.code = 1 ∧
        outcome.notices.getLast? = some (.text ("error: " ++ s.message ++ "\n")) := by
  have hframes : (Log.sources loaded).align ((Log.sources loaded).keys ++ o.views.keys) o.range =
      o.frames (Log.sources loaded) := rfl
  intro outcome
  show match buildViews (o.frames (Log.sources loaded)) o.views with
    | .ok views => (run argv s).code = 0 ∧ (run argv s).output = _
    | .error s' => (run argv s).code = 1 ∧ (run argv s).notices.getLast? = _
  rw [run_eq_answer hparse hhelp hload]
  unfold answer
  simp only [hframes, hkeys, hjson, Bool.false_eq_true, if_false]
  cases hviews : buildViews (o.frames (Log.sources loaded)) o.views with
  | ok views =>
    have hne : views.isEmpty = false := by
      rw [List.isEmpty_eq_false_iff]
      exact buildViews_ne_nil hviews hasks
    unfold serve viewText
    simp only [hserve, hne, Bool.false_eq_true, if_false, if_true]
    exact ⟨trivial, String.empty_append⟩
  | error s =>
    exact ⟨rfl, List.getLast?_concat⟩

/-- What is read from the text of a list of views. -/
theorem documents_shown (views : List View) :
    (View.documents views).nameNonFinite.readBack = .array (views.map View.shown) := by
  unfold View.documents
  rw [Json.nameNonFinite, Json.readBack, Json.nameItems_eq_map]
  congr 1
  induction views with
  | nil => rfl
  | cons v views ih =>
    rw [List.map_cons, List.map_cons, Json.readItems, ih, List.map_cons]
    rfl

theorem viewsOf?_output (views : List View) :
    viewsOf? ((Json.object [("views", View.documents views)]).nameNonFinite.pretty ++ "\n") =
      some (.array (views.map View.shown)) := by
  unfold viewsOf?
  rw [Json.parse?_pretty, ← documents_shown]
  rfl

theorem viewsOf?_body (views : List View) (count : Json) :
    viewsOf? (Json.object [("views", View.documents views), ("count", count)]).nameNonFinite.compact =
      some (.array (views.map View.shown)) := by
  unfold viewsOf?
  rw [Json.parse?_compact, ← documents_shown]
  rfl

/-- A run and an answer that give the same views, or fail with the same message. -/
structure Agree (outcome : Outcome) (answer : Answer) : Prop where
  /-- No other status is given. -/
  status : outcome.code = 0 ∧ answer.status = 200 ∨ outcome.code = 1 ∧ answer.status = 422
  success : outcome.code = 0 → answer.status = 200 ∧ ∃ body views, answer.body = some body ∧
    viewsOf? outcome.output = some views ∧ viewsOf? body.compact = some views
  failure : ∀ message, (outcome.code = 1 ∧
      outcome.notices.getLast? = some (.text ("error: " ++ message ++ "\n"))) ↔
    (answer.status = 422 ∧ answer.body = some (.object [("error", .string message)]))

theorem message_injective {a b : String} (h : "error: " ++ a ++ "\n" = "error: " ++ b ++ "\n") :
    a = b := by
  have h' := congrArg String.toList h
  rw [String.toList_append, String.toList_append, String.toList_append, String.toList_append] at h'
  exact String.toList_inj.1 (List.append_cancel_left (List.append_cancel_right h'))

/-- A run and an answer that give the same views agree. -/
theorem Agree.of_views {outcome : Outcome} {answer : Answer} {body views : Json}
    (hcode : outcome.code = 0) (hstatus : answer.status = 200) (hbody : answer.body = some body)
    (houtput : viewsOf? outcome.output = some views) (hviews : viewsOf? body.compact = some views) :
    Agree outcome answer where
  status := .inl ⟨hcode, hstatus⟩
  success := by
    intro _
    exact ⟨hstatus, body, views, hbody, houtput, hviews⟩
  failure := by
    intro message
    constructor
    · rintro ⟨h, -⟩
      omega
    · rintro ⟨h, -⟩
      omega

/-- A run and an answer that fail with the same message agree. -/
theorem Agree.of_message {outcome : Outcome} {answer : Answer} {message : String}
    (hcode : outcome.code = 1)
    (hnotice : outcome.notices.getLast? = some (.text ("error: " ++ message ++ "\n")))
    (hstatus : answer.status = 422)
    (hbody : answer.body = some (.object [("error", .string message)])) :
    Agree outcome answer where
  status := .inr ⟨hcode, hstatus⟩
  success := by
    intro h
    omega
  failure := by
    intro message'
    rw [hcode, hnotice, hstatus, hbody]
    constructor
    · rintro ⟨-, h⟩
      obtain rfl := message_injective (Notice.text.inj (Option.some.inj h))
      exact ⟨rfl, rfl⟩
    · rintro ⟨-, h⟩
      simp only [Option.some.injEq, Json.object.injEq, List.cons.injEq, Prod.mk.injEq,
        Json.string.injEq, true_and, and_true] at h
      rw [h]
      exact ⟨rfl, rfl⟩

/-- **The command line and the service agree** on every command line that asks for views as JSON,
whatever logs it reads, when a service that holds the same logs is asked for the same views. -/
theorem run_agrees_with_respond {argv : List String} {s : Surroundings} {o : Options}
    {loaded : List Log.Loaded} {store : Store} (settings : Settings)
    (hparse : parseArguments argv = .ok o) (hjson : o.json = true) (hhelp : o.help = false)
    (hserve : o.serve = false) (hkeys : o.printKeys = false) (hasks : o.views.AsksForViews)
    (hload : Log.loadAll s.directory s.input o.paths = .ok loaded)
    (hstore : store.sources = Log.sources loaded)
    (hsize : o.request.document.compact.utf8ByteSize ≤ maxJsonBytes) :
    Agree (run argv s) (respond settings store o.posted).1 := by
  have hrun := run_views hparse hjson hhelp hserve hkeys hasks hload
  have hanswer := respond_posted hparse hsize settings store
  have hsame := buildViews_unsigned (o.frames store.sources) o.views
  rw [← hstore] at hrun
  simp only at hrun hanswer
  generalize run argv s = outcome at hrun
  generalize (respond settings store o.posted).1 = answer at hanswer
  -- The options and what is posted differ in the signs of zeros only: both build the views or both
  -- fail.
  cases hviews : buildViews (o.frames store.sources) o.views with
  | ok views =>
    cases hposted : buildViews (o.frames store.sources) o.views.unsigned with
    | error s =>
      rw [hviews, hposted] at hsame
      exact absurd hsame (by simp [Except.map])
    | ok views' =>
      rw [hviews, hposted] at hsame
      rw [hviews] at hrun
      rw [hposted] at hanswer
      obtain ⟨hcode, houtput⟩ := hrun
      obtain ⟨hstatus, hbody⟩ := hanswer
      have hshown : views'.map View.shown = views.map View.shown := Except.ok.inj hsame
      apply Agree.of_views hcode hstatus hbody
      · rw [houtput]
        exact viewsOf?_output views
      · rw [viewsOf?_body, hshown]
  | error s =>
    cases hposted : buildViews (o.frames store.sources) o.views.unsigned with
    | ok views' =>
      rw [hviews, hposted] at hsame
      exact absurd hsame (by simp [Except.map])
    | error s' =>
      rw [hviews, hposted] at hsame
      rw [hviews] at hrun
      rw [hposted] at hanswer
      obtain ⟨hcode, hnotice⟩ := hrun
      obtain ⟨hstatus, hbody⟩ := hanswer
      obtain rfl : s' = s := Except.error.inj hsame
      exact Agree.of_message hcode hnotice hstatus hbody

/-- A window without width: its scale loses its sign when it is posted, and both ways still count
the same values. -/
theorem run_agrees_with_respond_window :
    let argv := ["--json", "--stdev_hist", "n", "-0", "a.log"]
    let s : Surroundings := { directory := fun path =>
      if path = "a.log" then some (.text
        "Stats Viewer : n 1\nStats Viewer : n 1\nStats Viewer : n 2\n") else none }
    let o : Options :=
      { views := { stdevHist := [⟨"n", -0.0⟩] }, json := true, paths := ["a.log"] }
    let store : Store := .ofSources (.ofList [("a.log", [.ofList [("n", 1)], .ofList [("n", 1)]])])
    parseArguments argv = .ok o ∧ (run argv s).code = 0 ∧
      Agree (run argv s) (respond {} store o.posted).1 := by
  intro argv s o store
  have hparse : parseArguments argv = .ok o := by decide +kernel
  have hload : Log.loadAll s.directory s.input o.paths = .ok [⟨"a.log",
      [.ofList [("n", 1)], .ofList [("n", 1)]], 57, 3⟩] := by decide +kernel
  have hsize : o.request.document.compact.utf8ByteSize ≤ maxJsonBytes := by decide +kernel
  have hcode : (run argv s).code = 0 := by decide +kernel
  have hasks : o.views.AsksForViews := .inr (.inr (.inr (.inr (.inl (List.cons_ne_nil _ _)))))
  have hjson : o.json = true := rfl
  have hhelp : o.help = false := rfl
  have hserve : o.serve = false := rfl
  have hkeys : o.printKeys = false := rfl
  have hstore : store.sources = Log.sources [⟨"a.log",
      [.ofList [("n", 1)], .ofList [("n", 1)]], 57, 3⟩] := rfl
  clear_value argv s o store
  exact ⟨hparse, hcode, run_agrees_with_respond {} hparse hjson hhelp hserve hkeys hasks hload hstore
    hsize⟩

end Command

end Framewise
