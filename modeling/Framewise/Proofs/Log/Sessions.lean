import Mathlib.Data.List.Induction
import Framewise.Proofs.Log.Faults

/-!
# Sessions of a reader

A session pushes lines into one reader and resets it now and then. The reader goes on after a line
that cannot be read, and nothing but the count of lines remembers that there was one.

* `act_congr`: what an action that does not fail does, whatever lines have been counted.
* `session_readable`: the session without the lines that fail, by induction over the actions.
* `lineNumber_session`: the count of lines, from the actions alone.
* `session_passes_over_failures`: what failing lines leave behind, for all sessions.
-/

namespace Framewise.Log

/-- What is done with a reader. -/
inductive Action where
  | push (line : String)
  | reset
deriving DecidableEq, Repr

namespace Action

def isPush : Action → Bool
  | .push _ => true
  | .reset => false

/-- The number of pushes since the last reset. -/
def sinceReset (actions : List Action) : Nat :=
  (actions.reverse.takeWhile isPush).length

theorem sinceReset_push (actions : List Action) (line : String) :
    sinceReset (actions ++ [.push line]) = sinceReset actions + 1 := by
  rw [sinceReset, List.reverse_concat, List.takeWhile_cons_of_pos rfl, List.length_cons, sinceReset]

theorem sinceReset_reset (actions : List Action) : sinceReset (actions ++ [.reset]) = 0 := by
  rw [sinceReset, List.reverse_concat, List.takeWhile_cons_of_neg (by decide), List.length_nil]

end Action

/-- What an action gives: a completed record, nothing, or an error. -/
abbrev Given := Except ParseError (Option Record)

/-- The records among what actions give, in order. -/
def returned (given : List Given) : List Record :=
  given.filterMap fun
    | .ok record => record
    | .error _ => none

namespace Reader

/-- Do an action: the state after it, and what it gives. -/
def act (r : Reader) : Action → Reader × Given
  | .push line => r.push line
  | .reset => (r.reset, .ok none)

/-- Do actions one after the other: the last state, and what each of them gives. -/
def session (r : Reader) : List Action → Reader × List Given
  | [] => (r, [])
  | a :: actions =>
    let (next, given) := r.act a
    let (last, more) := next.session actions
    (last, given :: more)

/-- The actions of a session without the lines that cannot be read. -/
def readable (r : Reader) (actions : List Action) : List Action :=
  ((actions.zip (r.session actions).2).filter (·.2.isOk)).map Prod.fst

/-! ### Actions one by one -/

theorem session_cons (r : Reader) (a : Action) (actions : List Action) :
    r.session (a :: actions) =
      (((r.act a).1.session actions).1, (r.act a).2 :: ((r.act a).1.session actions).2) := rfl

theorem session_append (r : Reader) (actions more : List Action) :
    r.session (actions ++ more) =
      (((r.session actions).1.session more).1,
        (r.session actions).2 ++ ((r.session actions).1.session more).2) := by
  induction actions generalizing r with
  | nil => rfl
  | cons a actions ih => rw [List.cons_append, session_cons, session_cons, ih, List.cons_append]

theorem session_concat (r : Reader) (actions : List Action) (a : Action) :
    r.session (actions ++ [a]) =
      (((r.session actions).1.act a).1, (r.session actions).2 ++ [((r.session actions).1.act a).2]) :=
  session_append r actions [a]

/-- What an action gives is what the reader gives that the actions before it have left. -/
theorem getElem?_session (r : Reader) (actions : List Action) (i : Nat) :
    (r.session actions).2[i]? =
      actions[i]?.map fun a => ((r.session (actions.take i)).1.act a).2 := by
  induction actions generalizing r i with
  | nil => rfl
  | cons a actions ih =>
    cases i with
    | zero => rfl
    | succ i => exact ih (r.act a).1 i

/-- **What holds at the start and is kept by every action holds after every session.** -/
theorem session_induction {P : Reader → Prop} {r : Reader} (start : P r)
    (kept : ∀ r a, P r → P (r.act a).1) (actions : List Action) : P (r.session actions).1 := by
  induction actions generalizing r with
  | nil => exact start
  | cons a actions ih => exact ih (kept r a start)

/-! ### The count of lines -/

theorem source_act (r : Reader) (a : Action) : (r.act a).1.source = r.source := by
  cases a with
  | reset => rfl
  | push line =>
    show (r.push line).1.source = r.source
    cases h : (r.push line).2 with
    | error e => rw [push_error h]
    | ok completed =>
      obtain ⟨e, he⟩ := tells_of_push h
      rw [push_tells he]
      cases e <;> rfl

theorem source_session (r : Reader) (actions : List Action) :
    (r.session actions).1.source = r.source :=
  session_induction (P := fun r' => r'.source = r.source) rfl
    (fun r' a h => (source_act r' a).trans h) actions

/-- **A reader has counted the lines since it was last reset**, those that failed included. -/
theorem lineNumber_session (source : Option String) (actions : List Action) :
    (({ source } : Reader).session actions).1.lineNumber = Action.sinceReset actions := by
  induction actions using List.reverseRecOn with
  | nil => rfl
  | append_singleton actions a ih =>
    rw [session_concat]
    cases a with
    | push line => rw [Action.sinceReset_push, ← ih, act, lineNumber_push]
    | reset =>
      rw [Action.sinceReset_reset]
      rfl

/-! ### Readers up to the count of lines -/

/-- A reader that has counted no lines. -/
def unnumbered (r : Reader) : Reader := { r with lineNumber := 0 }

theorem unnumbered_enter (r : Reader) (e : Entry) :
    (r.enter e).1.unnumbered = (r.unnumbered.enter e).1 ∧
      (r.enter e).2 = (r.unnumbered.enter e).2 := by
  cases e <;> exact ⟨rfl, rfl⟩

/-- An action that does not fail does the same to readers that differ in the count of lines only. -/
theorem act_congr {r r' : Reader} (hsame : r.unnumbered = r'.unnumbered) {a : Action}
    {completed : Option Record} (h : (r.act a).2 = .ok completed) :
    (r'.act a).2 = .ok completed ∧ (r.act a).1.unnumbered = (r'.act a).1.unnumbered := by
  cases a with
  | reset =>
    refine ⟨h, ?_⟩
    have hsource : r.source = r'.source := congrArg (·.source) hsame
    show ({ source := r.source } : Reader) = { source := r'.source }
    rw [hsource]
  | push line =>
    obtain ⟨e, he⟩ := tells_of_push h
    have hpush := push_tells he r
    have hpush' := push_tells he r'
    have hnext : ({ r with lineNumber := r.lineNumber + 1 } : Reader).unnumbered =
        ({ r' with lineNumber := r'.lineNumber + 1 } : Reader).unnumbered := hsame
    have hstate := unnumbered_enter { r with lineNumber := r.lineNumber + 1 } e
    have hstate' := unnumbered_enter { r' with lineNumber := r'.lineNumber + 1 } e
    rw [hnext] at hstate
    have hgiven : (r.act (.push line)).2 = (r'.act (.push line)).2 := by
      show (r.push line).2 = (r'.push line).2
      rw [hpush, hpush', hstate.2, hstate'.2]
    refine ⟨hgiven ▸ h, ?_⟩
    show (r.push line).1.unnumbered = (r'.push line).1.unnumbered
    rw [hpush, hpush', hstate.1, hstate'.1]

/-- Only pushes fail, and all that they change is the count of lines. -/
theorem unnumbered_act_error {r : Reader} {a : Action} {e : ParseError}
    (h : (r.act a).2 = .error e) : (r.act a).1.unnumbered = r.unnumbered := by
  cases a with
  | reset => cases h
  | push line =>
    show (r.push line).1.unnumbered = r.unnumbered
    rw [push_error h]
    rfl

theorem readable_cons_ok {r : Reader} {a : Action} {completed : Option Record}
    (h : (r.act a).2 = .ok completed) (actions : List Action) :
    r.readable (a :: actions) = a :: (r.act a).1.readable actions := by
  rw [readable, session_cons, List.zip_cons_cons, h, List.filter_cons_of_pos rfl, List.map_cons,
    ← readable]

theorem readable_cons_error {r : Reader} {a : Action} {e : ParseError}
    (h : (r.act a).2 = .error e) (actions : List Action) :
    r.readable (a :: actions) = (r.act a).1.readable actions := by
  rw [readable, session_cons, List.zip_cons_cons, h, List.filter_cons_of_neg Bool.false_ne_true,
    ← readable]

/-- **Without the lines that fail, a session gives what it gave, and ends in the same state**, up to
the count of lines. -/
theorem session_readable (actions : List Action) {r r' : Reader}
    (hsame : r.unnumbered = r'.unnumbered) :
    (r'.session (r.readable actions)).2 = (r.session actions).2.filter (·.isOk) ∧
      (r.session actions).1.unnumbered = (r'.session (r.readable actions)).1.unnumbered := by
  induction actions generalizing r r' with
  | nil => exact ⟨rfl, hsame⟩
  | cons a actions ih =>
    cases h : (r.act a).2 with
    | ok completed =>
      obtain ⟨hgiven, hnext⟩ := act_congr hsame h
      obtain ⟨hrest, hlast⟩ := ih hnext
      rw [readable_cons_ok h, session_cons, session_cons, h, hgiven, List.filter_cons_of_pos rfl, hrest]
      exact ⟨rfl, hlast⟩
    | error e =>
      have hnext : (r.act a).1.unnumbered = r'.unnumbered := (unnumbered_act_error h).trans hsame
      rw [readable_cons_error h, session_cons, h, List.filter_cons_of_neg Bool.false_ne_true]
      exact ih hnext

end Reader

theorem returned_filter_isOk (given : List Given) :
    returned (given.filter (·.isOk)) = returned given := by
  rw [returned, List.filterMap_filter]
  apply List.filterMap_congr
  intro g _
  cases g with
  | ok record => rfl
  | error e => rfl

/-- **Lines that fail leave nothing behind.** Let a reader go on after errors, in any session.

* After a line that fails, in every state that can be reached, the record in progress and the camera
  number are what they were. Only the count of lines has advanced.
* Without the lines that fail, the other actions give what they gave, the same records among it, and
  the record in progress and the camera number are the same in the end.
* The error of a line has its fault, the name of the log, and for its number how many lines have
  been pushed since the last reset. -/
theorem session_passes_over_failures (source : Option String) (actions : List Action) :
    let start : Reader := { source }
    let run := start.session actions
    let clean := start.session (start.readable actions)
    (∀ line e, (run.1.push line).2 = .error e →
      (run.1.push line).1 = { run.1 with lineNumber := run.1.lineNumber + 1 }) ∧
    clean.2 = run.2.filter (·.isOk) ∧
    returned clean.2 = returned run.2 ∧
    clean.1.frame = run.1.frame ∧ clean.1.camera = run.1.camera ∧
    ∀ (i : Nat) (e : ParseError), run.2[i]? = some (Except.error e) →
      ∃ (line : String) (m : Misread), actions[i]? = some (Action.push line) ∧
      Misreads (Text.dropTerminator line.toList) m ∧
      e = ⟨m.fault, m.token, source, some (Action.sinceReset (actions.take (i + 1)))⟩ := by
  intro start run clean
  obtain ⟨hgiven, hlast⟩ := start.session_readable actions rfl
  refine ⟨?_, hgiven, ?_, ?_, ?_, ?_⟩
  · intro line e h
    exact Reader.push_error h
  · rw [show clean.2 = run.2.filter (·.isOk) from hgiven, returned_filter_isOk]
  · exact (congrArg Reader.frame hlast).symm
  · exact (congrArg Reader.camera hlast).symm
  · intro i e h
    rw [Reader.getElem?_session] at h
    obtain ⟨a, ha, herror⟩ := Option.map_eq_some_iff.1 h
    cases a with
    | reset => cases herror
    | push line =>
      obtain ⟨m, hm, rfl⟩ := Reader.push_eq_error_iff.1 herror
      refine ⟨line, m, ha, hm, ?_⟩
      have hplace : actions.take (i + 1) = actions.take i ++ [.push line] := by
        rw [List.take_add_one, ha]
        rfl
      rw [Reader.source_session, Reader.lineNumber_session, hplace, Action.sinceReset_push]

/-- A metric without a value, pushed into a reader with a record in progress and a camera section:
the next frame start completes the record as if the line had not been there. -/
theorem session_passes_over_failures_metric :
    let start : Reader := { source := some "a.log" }
    let actions : List Action := [.push "x", .reset, .push "Stats Viewer : n 1", .push "Stats Camera",
      .push "    Draw", .push "    Draw 7", .push "Stats Viewer : n 2"]
    start.readable actions = [.push "x", .reset, .push "Stats Viewer : n 1", .push "Stats Camera",
      .push "    Draw 7", .push "Stats Viewer : n 2"] ∧
    returned (start.session (start.readable actions)).2 =
      [.ofList [("n", 1), ("Draw Camera 1", 7)]] ∧
    (start.session actions).2[4]? =
      some (Except.error ⟨.noValue, "Draw", some "a.log", some 3⟩) ∧
    Action.sinceReset (actions.take 5) = 3 := by
  intro start actions
  have hall := session_passes_over_failures (some "a.log") actions
  have hreturned : returned (start.session actions).2 =
      [.ofList [("n", 1), ("Draw Camera 1", 7)]] := by decide +kernel
  have hfailed : (start.session actions).2[4]? =
      some (Except.error ⟨.noValue, "Draw", some "a.log", some 3⟩) := by decide +kernel
  obtain ⟨line, m, -, -, herror⟩ := hall.2.2.2.2.2 4 _ hfailed
  refine ⟨by decide +kernel, hall.2.2.1.trans hreturned, hfailed, ?_⟩
  have hnumber := congrArg ParseError.lineNumber herror
  exact (Option.some.inj hnumber).symm

end Framewise.Log
