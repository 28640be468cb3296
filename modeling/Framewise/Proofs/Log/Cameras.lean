import Framewise.Proofs.Log.Sessions

/-!
# Where camera numbers start again

A frame start sets the camera number back, but only if there is a record that it completes. So
sections that stand before everything else are still counted for the first frame.

* `session_heard`: a session as what its lines tell, without those that fail.
* `camera_listen`, `frame_listen`: what the lines of one frame do to the number and to the record.
* `idle_iff`: when no record is in progress, from the lines since the last reset.
* `frameStart_resets_iff`: when the number is set back, and which record the frame then gets.
-/

namespace Framewise.Log

/-! ### What is heard -/

namespace Entry

def isFrameStart : Entry → Bool
  | .frameStart _ _ => true
  | _ => false

/-- Whether a record is in progress after it in any case. -/
def opens (e : Entry) : Bool := e.isFrameStart || e.isMetric

def metric? : Entry → Option (String × Float)
  | .metric name value => some (name, value)
  | _ => none

end Entry

/-- What lines tell, those that cannot be read left out. -/
inductive Heard : List String → List Entry → Prop where
  | nil : Heard [] []
  | told {line : String} {lines : List String} {e : Entry} {es : List Entry} :
      Tells (Text.dropTerminator line.toList) e → Heard lines es → Heard (line :: lines) (e :: es)
  | misread {line : String} {lines : List String} {m : Misread} {es : List Entry} :
      Misreads (Text.dropTerminator line.toList) m → Heard lines es → Heard (line :: lines) es

/-- Something is heard of all lines. -/
theorem exists_heard (lines : List String) : ∃ es, Heard lines es := by
  induction lines with
  | nil => exact ⟨[], .nil⟩
  | cons line lines ih =>
    obtain ⟨es, hes⟩ := ih
    rcases (tells_or_misreads line).1 with ⟨e, he⟩ | ⟨m, hm⟩
    · exact ⟨e :: es, .told he hes⟩
    · exact ⟨es, .misread hm hes⟩

namespace Action

/-- The lines pushed since the last reset. -/
def pushed (actions : List Action) : List String :=
  actions.foldl (fun lines a =>
    match a with
    | .push line => lines ++ [line]
    | .reset => []) []

theorem pushed_push (actions : List Action) (line : String) :
    pushed (actions ++ [.push line]) = pushed actions ++ [line] := by
  rw [pushed, List.foldl_concat, ← pushed]

theorem pushed_reset (actions : List Action) : pushed (actions ++ [.reset]) = [] := by
  rw [pushed, List.foldl_concat]

end Action

namespace Reader

/-- The state after entries. -/
def listen (r : Reader) (es : List Entry) : Reader :=
  es.foldl (fun r e => (r.enter e).1) r

/-- Actions do the same to readers that differ in the count of lines only, also those that fail. -/
theorem unnumbered_act {r r' : Reader} (hsame : r.unnumbered = r'.unnumbered) (a : Action) :
    (r.act a).1.unnumbered = (r'.act a).1.unnumbered := by
  cases h : (r.act a).2 with
  | ok completed => exact (act_congr hsame h).2
  | error e =>
    cases h' : (r'.act a).2 with
    | ok completed => exact ((act_congr hsame.symm h').2).symm
    | error e' => rw [unnumbered_act_error h, unnumbered_act_error h', hsame]

/-- **A session is what its lines tell**, up to the count of lines. -/
theorem session_heard {lines : List String} {es : List Entry} (h : Heard lines es) {r r' : Reader}
    (hsame : r.unnumbered = r'.unnumbered) :
    (r.session (lines.map .push)).1.unnumbered = (r'.listen es).unnumbered := by
  induction h generalizing r r' with
  | nil => exact hsame
  | @told line lines e es he _ ih =>
    rw [List.map_cons, session_cons]
    apply ih
    show (r.push line).1.unnumbered = _
    rw [push_tells he, (unnumbered_enter _ e).1, (unnumbered_enter r' e).1, ← hsame]
    rfl
  | @misread line lines m es hm _ ih =>
    have herror := (push_eq_error_iff (r := r)).2 ⟨m, hm, rfl⟩
    rw [List.map_cons, session_cons]
    apply ih
    rw [unnumbered_act_error (a := .push line) herror, hsame]

/-- A reader remembers what it was told since the last reset, and nothing else. -/
theorem session_pushed (source : Option String) (actions : List Action) :
    (({ source } : Reader).session actions).1.unnumbered =
      (({ source } : Reader).session ((Action.pushed actions).map .push)).1.unnumbered := by
  induction actions using List.reverseRecOn with
  | nil => rfl
  | append_singleton actions a ih =>
    rw [session_concat]
    cases a with
    | push line =>
      rw [Action.pushed_push, List.map_append, session_append]
      exact unnumbered_act ih (.push line)
    | reset =>
      rw [Action.pushed_reset, act, reset, source_session]
      rfl

/-! ### Between two frame starts -/

section Frame

variable {es : List Entry} (hbody : ∀ e ∈ es, e.isFrameStart = false)

include hbody

/-- Within a frame the number goes on. -/
theorem camera_listen (r : Reader) : (r.listen es).camera = r.camera + cameras es := by
  induction es generalizing r with
  | nil => rfl
  | cons e es ih =>
    obtain ⟨he, hes⟩ := List.forall_mem_cons.1 hbody
    show ((r.enter e).1.listen es).camera = _
    rw [ih hes]
    unfold cameras
    rw [List.countP_cons]
    cases e with
    | frameStart key value => cases he
    | cameraSection =>
      show r.camera + 1 + es.countP _ = r.camera + (es.countP _ + 1)
      omega
    | metric name value => rfl
    | other => rfl

/-- Within a frame the record gets the metrics under their keys. -/
theorem frame_listen {r : Reader} {record : Record} (hframe : r.frame = some record) :
    (r.listen es).frame = some (extend record (keyed r.camera es)) := by
  induction es generalizing r record with
  | nil => exact hframe
  | cons e es ih =>
    obtain ⟨he, hes⟩ := List.forall_mem_cons.1 hbody
    show ((r.enter e).1.listen es).frame = _
    rw [keyed_cons]
    cases e with
    | frameStart key value => cases he
    | cameraSection => exact ih hes hframe
    | other => exact ih hes hframe
    | metric name value =>
      have hnext : (r.addMetric name value).frame =
          some (record.insert (qualify name r.camera) value) := by
        rw [addMetric, hframe]
        rfl
      exact ih hes hnext

end Frame

/-- A record is in progress if there was one, or if something has opened one. -/
theorem isSome_frame_listen (r : Reader) (es : List Entry) :
    (r.listen es).frame.isSome = (r.frame.isSome || es.any Entry.opens) := by
  induction es generalizing r with
  | nil => simp [listen]
  | cons e es ih =>
    show ((r.enter e).1.listen es).frame.isSome = _
    rw [ih, List.any_cons, ← Bool.or_assoc]
    congr 1
    cases e with
    | frameStart key value => simp [enter, startFrame, Entry.opens, Entry.isFrameStart]
    | metric name value => simp [enter, addMetric, Entry.opens, Entry.isMetric]
    | cameraSection => simp [enter, Entry.opens, Entry.isFrameStart, Entry.isMetric]
    | other => simp [enter, Entry.opens, Entry.isFrameStart, Entry.isMetric]

/-- **When no record is in progress**: nothing since the last reset has opened one. All camera
sections since then are counted. -/
theorem idle_iff (source : Option String) {actions : List Action} {es : List Entry}
    (h : Heard (Action.pushed actions) es) :
    let r := (({ source } : Reader).session actions).1
    (r.frame = none ↔ es.any Entry.opens = false) ∧ (r.frame = none → r.camera = cameras es) := by
  intro r
  have hlisten : r.unnumbered = (({ source } : Reader).listen es).unnumbered :=
    (session_pushed source actions).trans (session_heard h rfl)
  have hframe : r.frame = (({ source } : Reader).listen es).frame := congrArg (·.frame) hlisten
  have hcamera : r.camera = (({ source } : Reader).listen es).camera := congrArg (·.camera) hlisten
  have hsome := isSome_frame_listen { source } es
  rw [Option.isSome_none, Bool.false_or] at hsome
  have hidle : r.frame = none ↔ es.any Entry.opens = false := by
    rw [← hsome, ← hframe, Option.isSome_eq_false_iff, Option.isNone_iff_eq_none]
  refine ⟨hidle, ?_⟩
  intro hnone
  have hbody : ∀ e ∈ es, e.isFrameStart = false := by
    intro e he
    have hopens := List.any_eq_false.1 (hidle.1 hnone) e he
    rw [Entry.opens, Bool.or_eq_true, not_or, Bool.not_eq_true] at hopens
    exact hopens.1
  rw [hcamera, camera_listen hbody, Nat.zero_add]

end Reader

/-- Before the first camera section metrics have their own names. -/
theorem keyed_plain {plain : List Entry} (h : cameras plain = 0) (rest : List Entry) :
    keyed 0 (plain ++ rest) = plain.filterMap Entry.metric? ++ keyed 0 rest := by
  induction plain with
  | nil => rfl
  | cons e plain ih =>
    unfold cameras at h
    rw [List.countP_cons, Nat.add_eq_zero_iff] at h
    obtain ⟨hplain, he⟩ := h
    rw [List.cons_append, keyed_cons, List.filterMap_cons, he, ih hplain]
    cases e with
    | metric name value => rfl
    | frameStart key value | cameraSection | other => rfl

/-- A frame start that is accepted tells a key and a value. -/
theorem exists_tells_frameStart {r : Reader} {line : String} {completed : Option Record}
    (kind : LineKind.of (Text.dropTerminator line.toList) = .frameStart)
    (accepted : (r.push line).2 = .ok completed) :
    ∃ key value, Tells (Text.dropTerminator line.toList) (.frameStart key value) := by
  obtain ⟨e, he⟩ := Reader.tells_of_push accepted
  cases e with
  | frameStart key value => exact ⟨key, value, he⟩
  | cameraSection =>
    cases he with
    | cameraSection kind' => exact absurd (kind.symm.trans kind') (by decide)
  | metric name value =>
    cases he with
    | metric _ _ kind' => exact absurd (kind.symm.trans kind') (by decide)
  | other =>
    cases he with
    | other kind' => exact absurd (kind.symm.trans kind') (by decide)

/-- **A frame start sets the camera number back exactly if a record is in progress, or if there is
nothing to set back.** Let a reader in any state that can be reached accept a frame start.

* No record is in progress as long as nothing since the last reset was a frame start or a metric. So
  the number stays above zero if there were camera sections then, and nothing else that counts.
* The record of the frame depends on the lines of the frame, and on the number that was left. The
  number goes on from there, and if it is zero then metrics before the first camera section of the
  frame have their own names. -/
theorem frameStart_resets_iff (source : Option String) (actions : List Action) {line : String}
    {completed : Option Record}
    (kind : LineKind.of (Text.dropTerminator line.toList) = .frameStart)
    (accepted : ((({ source } : Reader).session actions).1.push line).2 = .ok completed) :
    let r := (({ source } : Reader).session actions).1
    let left := (r.push line).1
    (left.camera = 0 ↔ r.frame.isSome = true ∨ r.camera = 0) ∧
    (∀ es, Heard (Action.pushed actions) es →
      (left.camera = 0 ↔ es.any Entry.opens = true ∨ cameras es = 0)) ∧
    ∃ key value, Tells (Text.dropTerminator line.toList) (.frameStart key value) ∧
      ∀ body es, Heard body es → (∀ e ∈ es, e.isFrameStart = false) →
        let last := (left.session (body.map .push)).1
        last.camera = left.camera + cameras es ∧
        (∀ next record, LineKind.of (Text.dropTerminator next.toList) = .frameStart →
          (last.push next).2 = .ok record →
            record = some (recordOf (some (key, value)) left.camera es)) ∧
        (left.camera = 0 → ∀ plain rest, es = plain ++ rest → cameras plain = 0 →
          keyed left.camera es = plain.filterMap Entry.metric? ++ keyed 0 rest) := by
  intro r left
  obtain ⟨key, value, start⟩ := exists_tells_frameStart kind accepted
  have hleft : left = { r with lineNumber := r.lineNumber + 1 }.startFrame key value := by
    show (r.push line).1 = _
    rw [Reader.push_tells start]
    rfl
  have hcamera : left.camera = if r.frame.isSome then 0 else r.camera := by
    rw [hleft]
    rfl
  have hzero : left.camera = 0 ↔ r.frame.isSome = true ∨ r.camera = 0 := by
    rw [hcamera]
    cases r.frame <;> simp
  refine ⟨hzero, ?_, key, value, start, ?_⟩
  · intro es hes
    obtain ⟨hidle, hcount⟩ := Reader.idle_iff source hes
    rw [hzero]
    cases hframe : r.frame with
    | none =>
      rw [hidle.1 hframe, hcount hframe]
      simp
    | some record =>
      have hopens : es.any Entry.opens = true := by
        rw [← Bool.not_eq_false, ← hidle]
        exact fun hnone => absurd (hnone.symm.trans hframe) (by simp)
      simp [hopens]
  · intro body es hes hbody last
    have hlisten : last.unnumbered = (left.listen es).unnumbered := Reader.session_heard hes rfl
    have hstart : left.frame = some (OrderedMap.empty.insert key value) := by
      rw [hleft]
      rfl
    have hframe : last.frame = some (recordOf (some (key, value)) left.camera es) := by
      rw [show last.frame = (left.listen es).frame from congrArg (·.frame) hlisten,
        Reader.frame_listen hbody hstart]
      rfl
    refine ⟨?_, ?_, ?_⟩
    · rw [show last.camera = (left.listen es).camera from congrArg (·.camera) hlisten,
        Reader.camera_listen hbody]
    · intro next record kind' accepted'
      obtain ⟨key', value', start'⟩ := exists_tells_frameStart kind' accepted'
      rw [Reader.push_tells start'] at accepted'
      exact (Except.ok.inj accepted').symm.trans hframe
    · rintro hleft plain rest rfl hplain
      rw [hleft, keyed_plain hplain]

/-- A camera section and a line that fails before the first frame start: the number is left, and a
metric of the first frame gets it. -/
theorem frameStart_resets_iff_idle :
    let actions : List Action := [.push "Stats Camera", .push "    Draw"]
    let left := ((({} : Reader).session actions).1.push "Stats Viewer : n 1").1
    left.camera ≠ 0 ∧ ∃ key value,
      Tells (Text.dropTerminator "Stats Viewer : n 1".toList) (.frameStart key value) ∧
      some (.ofList [("n", 1), ("Draw Camera 1", 7)]) =
        some (recordOf (some (key, value)) left.camera [.metric "Draw" 7]) := by
  intro actions left
  obtain ⟨hzero, -, key, value, start, hframe⟩ := @frameStart_resets_iff none actions
    "Stats Viewer : n 1" none (by decide) (by decide +kernel)
  have hmetric : Tells (Text.dropTerminator "    Draw 7".toList) (.metric "Draw" 7) :=
    .metric "Draw".toList "7".toList (by decide) (by decide) (by decide) (by decide +kernel)
  obtain ⟨-, hrecord, -⟩ := hframe ["    Draw 7"] [.metric "Draw" 7] (.told hmetric .nil)
    (by decide)
  refine ⟨?_, key, value, start, ?_⟩
  · intro h
    exact absurd (hzero.1 h) (by decide +kernel)
  · exact hrecord "Stats Viewer : n 2" _ (by decide) (by decide +kernel)

/-- A camera section that stands before everything else is counted for the first frame. -/
theorem not_frameStart_resets : ¬ ∀ (source : Option String) (actions : List Action) (line : String)
    (completed : Option Record),
    LineKind.of (Text.dropTerminator line.toList) = .frameStart →
    ((({ source } : Reader).session actions).1.push line).2 = .ok completed →
    ((({ source } : Reader).session actions).1.push line).1.camera = 0 := by
  intro h
  have hzero := h none [.push "Stats Camera"] "Stats Viewer : n 1" none (by decide)
    (by decide +kernel)
  exact absurd hzero (by decide +kernel)

end Framewise.Log
