import Mathlib.Data.List.Forall2
import Framewise.Log.Reader
import Framewise.Proofs.Outcome

/-!
# What the lines of a log amount to

A reader keeps a record in progress and a camera number. `Tells` is what a single line tells,
without any such state, and `cut` groups what the lines tell at the frame starts: a preamble, and
one segment for each frame start.

* `push_tells`: a line that tells something can be read in every state; `tells_of_push`: no other
  line can.
* `foldl_tells`: what a reader in any state makes of lines, by induction over what they tell.
* `readRecords_eq_completed`: a log whose lines can all be read gives the record of the preamble,
  if it has metrics, and the records of all segments but the last.
-/

namespace Framewise.Log

/-! ### Entries -/

/-- What a line tells. -/
inductive Entry where
  | frameStart (key : String) (value : Float)
  | cameraSection
  | metric (name : String) (value : Float)
  | other
deriving DecidableEq, Repr

namespace Entry

def isCameraSection : Entry → Bool
  | .cameraSection => true
  | _ => false

def isMetric : Entry → Bool
  | .metric _ _ => true
  | _ => false

end Entry

/-- What a line without its terminator tells: a frame start its last two words, of at least four, a
metric its name and its value. -/
inductive Tells (line : List Char) : Entry → Prop where
  | frameStart (front : List (List Char)) (key word : List Char) {value : Float}
      (kind : LineKind.of line = .frameStart)
      (words : Text.words line = front ++ [key, word])
      (many : 2 ≤ front.length)
      (number : Number.parse? (String.ofList word) = some value) :
      Tells line (.frameStart (String.ofList key) value)
  | cameraSection (kind : LineKind.of line = .cameraSection) : Tells line .cameraSection
  | metric (name word : List Char) {value : Float}
      (kind : LineKind.of line = .metric)
      (split : Text.splitLast? (Text.trim line) = some (name, word))
      (oneLine : name.any Text.isLineBreak = false)
      (number : Number.parse? (String.ofList word) = some value) :
      Tells line (.metric (String.ofList name) value)
  | other (kind : LineKind.of line = .other) : Tells line .other

/-- What the lines of a log tell. -/
def TellAll (lines : List String) (entries : List Entry) : Prop :=
  List.Forall₂ (fun line e => Tells (Text.dropTerminator line.toList) e) lines entries

theorem readValue_eq_ok {word : List Char} {value : Float} :
    readValue word = .ok value ↔ Number.parse? (String.ofList word) = some value := by
  simp only [readValue]
  cases Number.parse? (String.ofList word) with
  | none => simp
  | some x => simp

theorem readFrameStart_eq_ok {line : List Char} {key : String} {value : Float} :
    readFrameStart line = .ok (key, value) ↔
      ∃ front k word, key = String.ofList k ∧ Text.words line = front ++ [k, word] ∧
        2 ≤ front.length ∧ Number.parse? (String.ofList word) = some value := by
  simp only [readFrameStart]
  constructor
  · intro h
    split at h
    · next word k a b more hwords =>
      obtain ⟨x, hx, hpair⟩ := map_eq_ok.1 h
      cases hpair
      refine ⟨(a :: b :: more).reverse, k, word, rfl, ?_, by simp, readValue_eq_ok.1 hx⟩
      have := congrArg List.reverse hwords
      simpa using this
    · cases h
  · rintro ⟨front, k, word, rfl, hwords, hmany, hnumber⟩
    obtain ⟨a, b, more, hfront⟩ : ∃ a b more, front.reverse = a :: b :: more := by
      rw [← List.length_reverse] at hmany
      generalize front.reverse = rev at hmany ⊢
      rcases rev with _ | ⟨a, _ | ⟨b, more⟩⟩
      · exact absurd hmany (by simp)
      · exact absurd hmany (by simp)
      · exact ⟨a, b, more, rfl⟩
    have hrev : (Text.words line).reverse = word :: k :: a :: b :: more := by
      rw [hwords]
      simp [hfront]
    rw [hrev]
    exact map_eq_ok.2 ⟨value, readValue_eq_ok.2 hnumber, rfl⟩

theorem readMetric_eq_ok {line : List Char} {name : String} {value : Float} :
    readMetric line = .ok (name, value) ↔
      ∃ n word, name = String.ofList n ∧ Text.splitLast? (Text.trim line) = some (n, word) ∧
        n.any Text.isLineBreak = false ∧ Number.parse? (String.ofList word) = some value := by
  simp only [readMetric]
  constructor
  · intro h
    split at h
    · next n word hsplit =>
      split at h
      · cases h
      · next hbreak =>
        obtain ⟨x, hx, hpair⟩ := map_eq_ok.1 h
        cases hpair
        exact ⟨n, word, rfl, hsplit, by simpa using hbreak, readValue_eq_ok.1 hx⟩
    · cases h
  · rintro ⟨n, word, rfl, hsplit, hbreak, hnumber⟩
    simp only [hsplit, hbreak]
    exact map_eq_ok.2 ⟨value, readValue_eq_ok.2 hnumber, rfl⟩

namespace Reader

/-- The state after a line that tells `e`, and the record that it completes. -/
def enter (r : Reader) : Entry → Reader × Option Record
  | .frameStart key value => (r.startFrame key value, r.frame)
  | .cameraSection => ({ r with camera := r.camera + 1 }, none)
  | .metric name value => (r.addMetric name value, none)
  | .other => (r, none)

/-- A line that tells something is read, in every state. -/
theorem push_tells {line : String} {e : Entry} (h : Tells (Text.dropTerminator line.toList) e)
    (r : Reader) :
    r.push line = (({ r with lineNumber := r.lineNumber + 1 }.enter e).1,
      .ok ({ r with lineNumber := r.lineNumber + 1 }.enter e).2) := by
  unfold push take
  cases h with
  | frameStart front key word kind words many number =>
    have hread := readFrameStart_eq_ok.2 ⟨_, _, _, rfl, words, many, number⟩
    simp only [kind, hread]
    rfl
  | cameraSection kind =>
    simp only [kind]
    rfl
  | metric name word kind split oneLine number =>
    have hread := readMetric_eq_ok.2 ⟨_, _, rfl, split, oneLine, number⟩
    simp only [kind, hread]
    rfl
  | other kind =>
    simp only [kind]
    rfl

/-- A line that is read tells something. -/
theorem tells_of_push {r : Reader} {line : String} {completed : Option Record}
    (h : (r.push line).2 = .ok completed) :
    ∃ e, Tells (Text.dropTerminator line.toList) e := by
  unfold push take at h
  cases hkind : LineKind.of (Text.dropTerminator line.toList) with
  | frameStart =>
    simp only [hkind] at h
    split at h
    · next key value hread =>
      obtain ⟨front, k, word, rfl, words, many, number⟩ := readFrameStart_eq_ok.1 hread
      exact ⟨_, .frameStart front k word hkind words many number⟩
    · cases h
  | cameraSection => exact ⟨_, .cameraSection hkind⟩
  | metric =>
    simp only [hkind] at h
    split at h
    · next name value hread =>
      obtain ⟨n, word, rfl, split, oneLine, number⟩ := readMetric_eq_ok.1 hread
      exact ⟨_, .metric n word hkind split oneLine number⟩
    · cases h
  | other => exact ⟨_, .other hkind⟩

end Reader

/-! ### Segments -/

/-- The preamble, which is what stands before the first frame start, and the segments: each frame
start with what stands between it and the next one. -/
def cut : List Entry → List Entry × List ((String × Float) × List Entry)
  | [] => ([], [])
  | .frameStart key value :: es => ([], ((key, value), (cut es).1) :: (cut es).2)
  | e :: es => (e :: (cut es).1, (cut es).2)

/-- The number of camera sections. -/
def cameras (es : List Entry) : Nat :=
  es.countP Entry.isCameraSection

/-- The metrics under their keys. The camera of a metric is the number of the sections before it,
`before` of which stand in front of the whole. -/
def keyed (before : Nat) (es : List Entry) : List (String × Float) :=
  es.zipIdx.filterMap fun (e, i) =>
    match e with
    | .metric name value => some (qualify name (before + cameras (es.take i)), value)
    | _ => none

/-- The record of a segment: its frame start, if it has one, and then its metrics. -/
def recordOf (start : Option (String × Float)) (before : Nat) (es : List Entry) : Record :=
  OrderedMap.ofList (start.toList ++ keyed before es)

/-- The records that are complete after `es`. The sections of a preamble without metrics are
counted for the first segment. -/
def completed (es : List Entry) : List Record :=
  let (preamble, segments) := cut es
  let orphaned := preamble.any Entry.isMetric
  if segments = [] then []
  else (if orphaned then [recordOf none 0 preamble] else []) ++
    segments.dropLast.mapIdx fun i (start, body) =>
      recordOf (some start) (if i = 0 ∧ ¬ orphaned then cameras preamble else 0) body

theorem keyed_cons (before : Nat) (e : Entry) (es : List Entry) :
    keyed before (e :: es) =
      (match e with
        | .metric name value => [(qualify name before, value)]
        | _ => []) ++ keyed (before + if e.isCameraSection then 1 else 0) es := by
  have hshift : ∀ i, cameras ((e :: es).take (i + 1)) =
      cameras (es.take i) + if e.isCameraSection then 1 else 0 := by
    intro i
    rw [List.take_succ_cons, cameras, List.countP_cons]
    rfl
  have htail : (es.zipIdx 1).filterMap (fun (e', i) =>
      match e' with
      | .metric name value => some (qualify name (before + cameras ((e :: es).take i)), value)
      | _ => none) = keyed (before + if e.isCameraSection then 1 else 0) es := by
    rw [keyed, List.zipIdx_succ, List.filterMap_map]
    congr 1
    funext p
    obtain ⟨e', i⟩ := p
    cases e' with
    | metric name value =>
      simp only [Function.comp_apply, hshift]
      rw [Nat.add_assoc, Nat.add_comm (cameras _)]
    | _ => rfl
  rw [keyed, List.zipIdx_cons, List.filterMap_cons, htail]
  cases e with
  | metric name value => simp [cameras, Entry.isCameraSection]
  | _ => rfl

/-! ### Runs from any state -/

/-- Enter keyed metrics into a record. -/
def extend (record : Record) (es : List (String × Float)) : Record :=
  es.foldl (fun m e => m.insert e.1 e.2) record

/-- The records that are complete after `es`, from a state in which `frame` is the record in
progress, if there is one, and `camera` sections have been counted. -/
def completedFrom (frame : Option Record) (camera : Nat) (es : List Entry) : List Record :=
  let (rest, segments) := cut es
  let started := frame.isSome || rest.any Entry.isMetric
  if segments = [] then []
  else (if started then [extend (frame.getD .empty) (keyed camera rest)] else []) ++
    segments.dropLast.mapIdx fun i (start, body) =>
      recordOf (some start) (if i = 0 ∧ ¬ started then camera + cameras rest else 0) body

/-- The last entry of a key is the one that a record keeps. -/
theorem get?_extend (record : Record) (es : List (String × Float)) (key : String) :
    (extend record es).get? key = (es.reverse.lookup key).or (record.get? key) := by
  induction es generalizing record with
  | nil => rfl
  | cons e es ih =>
    obtain ⟨k, value⟩ := e
    rw [extend, List.foldl_cons, ← extend, ih, OrderedMap.get?_insert, List.reverse_cons,
      List.lookup_append, Option.or_assoc]
    congr 1
    by_cases h : k = key
    · simp [h]
    · have hkey : (key == k) = false := beq_false_of_ne fun heq => h heq.symm
      simp [h, hkey, List.lookup_cons]

theorem get?_recordOf (start : Option (String × Float)) (before : Nat) (es : List Entry)
    (key : String) :
    (recordOf start before es).get? key =
      (start.toList ++ keyed before es).reverse.lookup key := by
  have h := get?_extend .empty (start.toList ++ keyed before es) key
  rw [OrderedMap.get?_empty, Option.or_none] at h
  exact h

theorem completedFrom_start (es : List Entry) : completedFrom none 0 es = completed es := by
  simp only [completedFrom, completed, Option.isSome_none, Bool.false_or, Nat.zero_add]
  rfl

/-- **One entry.** It completes a record or none, and what remains is complete from the state
after it. -/
theorem completedFrom_cons (r : Reader) (e : Entry) (es : List Entry) :
    completedFrom r.frame r.camera (e :: es) =
      (r.enter e).2.toList ++ completedFrom (r.enter e).1.frame (r.enter e).1.camera es := by
  cases e with
  | frameStart key value =>
    obtain ⟨source, frame, camera, lineNumber⟩ := r
    cases hsegs : (cut es).2 with
    | nil =>
      -- The last segment: what it completes is the record before it.
      cases frame with
      | none => simp [completedFrom, cut, hsegs, Reader.enter]
      | some record => simp [completedFrom, cut, hsegs, Reader.enter, extend, keyed]
    | cons next later =>
      cases frame with
      | none =>
        simp [completedFrom, cut, hsegs, Reader.enter, Reader.startFrame, List.mapIdx_cons,
          recordOf, extend, OrderedMap.ofList, cameras]
      | some record =>
        simp [completedFrom, cut, hsegs, Reader.enter, Reader.startFrame, List.mapIdx_cons,
          recordOf, extend, OrderedMap.ofList, keyed]
  | cameraSection =>
    have hcount : cameras (Entry.cameraSection :: (cut es).1) = 1 + cameras (cut es).1 := by
      rw [Nat.add_comm]
      exact List.countP_cons_of_pos rfl
    have hkeyed : keyed r.camera (Entry.cameraSection :: (cut es).1) =
        keyed (r.camera + 1) (cut es).1 := keyed_cons _ _ _
    have hmetric : Entry.isMetric .cameraSection = false := rfl
    simp only [completedFrom, cut, Reader.enter, hkeyed, List.any_cons, hmetric, Bool.false_or,
      hcount, ← Nat.add_assoc]
    rfl
  | metric name value =>
    have hkeyed : keyed r.camera (Entry.metric name value :: (cut es).1) =
        (qualify name r.camera, value) :: keyed r.camera (cut es).1 := keyed_cons _ _ _
    have hmetric : Entry.isMetric (.metric name value) = true := rfl
    simp only [completedFrom, cut, Reader.enter, Reader.addMetric, hkeyed, List.any_cons, hmetric,
      Bool.true_or, Bool.or_true, Option.isSome_some]
    simp [extend]
  | other =>
    have hcount : cameras (Entry.other :: (cut es).1) = cameras (cut es).1 :=
      List.countP_cons_of_neg (by decide)
    have hkeyed : keyed r.camera (Entry.other :: (cut es).1) = keyed r.camera (cut es).1 :=
      keyed_cons _ _ _
    have hmetric : Entry.isMetric .other = false := rfl
    simp only [completedFrom, cut, Reader.enter, hkeyed, List.any_cons, hmetric, Bool.false_or,
      hcount]
    rfl

/-- **A whole run.** Lines that all tell something are all read, and complete the records that
what they tell completes. -/
theorem foldl_tells {lines : List String} {es : List Entry} (h : TellAll lines es) {p : Progress}
    (hstop : p.stop = none) :
    (lines.foldl Progress.step p).stop = none ∧
    (lines.foldl Progress.step p).records.reverse =
      p.records.reverse ++ completedFrom p.reader.frame p.reader.camera es := by
  induction h generalizing p with
  | nil =>
    refine ⟨hstop, ?_⟩
    simp [completedFrom, cut]
  | @cons line e lines es htells hrest ih =>
    rw [List.foldl_cons]
    have hpush := Reader.push_tells htells p.reader
    have hcons := completedFrom_cons { p.reader with lineNumber := p.reader.lineNumber + 1 } e es
    generalize Reader.enter { p.reader with lineNumber := p.reader.lineNumber + 1 } e = next
      at hpush hcons
    obtain ⟨reader, done⟩ := next
    have hstep : p.step line = { p with reader, records := done.toList ++ p.records } := by
      simp only [Progress.step, hstop, hpush]
      cases done with
      | none => rfl
      | some record => rfl
    rw [hstep]
    obtain ⟨hgoes, hrecords⟩ := ih (p := { p with reader, records := done.toList ++ p.records })
      hstop
    refine ⟨hgoes, ?_⟩
    rw [hrecords, hcons, List.reverse_append, List.append_assoc]
    cases done with
    | none => rfl
    | some record => rfl

/-- A reading that has stopped stays as it is. -/
theorem foldl_stopped {p : Progress} (h : p.stop ≠ none) (lines : List String) :
    lines.foldl Progress.step p = p := by
  induction lines with
  | nil => rfl
  | cons line lines ih =>
    have hstep : p.step line = p := by
      unfold Progress.step
      cases hs : p.stop with
      | none => exact absurd hs h
      | some e => rfl
    rw [List.foldl_cons, hstep, ih]

/-- A reading that does not stop has met only lines that tell something. -/
theorem tellAll_of_foldl {lines : List String} {p : Progress}
    (h : (lines.foldl Progress.step p).stop = none) : ∃ es, TellAll lines es := by
  induction lines generalizing p with
  | nil => exact ⟨[], .nil⟩
  | cons line lines ih =>
    rw [List.foldl_cons] at h
    obtain ⟨es, hes⟩ := ih h
    have hgoes : (p.step line).stop = none := by
      cases hs : (p.step line).stop with
      | none => rfl
      | some e =>
        rw [foldl_stopped (by simp [hs])] at h
        exact absurd (hs.symm.trans h) (by simp)
    have htells : ∃ e, Tells (Text.dropTerminator line.toList) e := by
      unfold Progress.step at hgoes
      split at hgoes
      · next e hs => exact absurd (hs.symm.trans hgoes) (by simp)
      · split at hgoes
        · next reader record hpush => exact Reader.tells_of_push (congrArg Prod.snd hpush)
        · next reader hpush => exact Reader.tells_of_push (congrArg Prod.snd hpush)
        · cases hgoes
    obtain ⟨e, he⟩ := htells
    exact ⟨e :: es, .cons he hes⟩

/-- **A log amounts to its segments.** No line of a log fails exactly when every line tells
something, and the records are then those that its segments complete. In a record the last entry
of a key counts: after the entry of the frame start come the metrics, each under its name or,
after `n` camera sections, under its name with the camera's number. -/
theorem readRecords_eq_completed (source : Option String) (lines : List String) :
    ((readRecords source lines).2 = none ↔ ∃ entries, TellAll lines entries) ∧
    (∀ entries, TellAll lines entries → (readRecords source lines).1 = completed entries) ∧
    ∀ start before entries key, (recordOf start before entries).get? key =
      (start.toList ++ keyed before entries).reverse.lookup key := by
  refine ⟨⟨?_, ?_⟩, ?_, get?_recordOf⟩
  · intro h
    exact tellAll_of_foldl h
  · rintro ⟨es, hes⟩
    exact (foldl_tells hes rfl).1
  · intro es hes
    have hrecords := (foldl_tells hes (p := { reader := { source } }) rfl).2
    rw [List.reverse_nil, List.nil_append, completedFrom_start] at hrecords
    exact hrecords

/-- A camera section before the first frame counts for it, as no metric stands before it; the
frame that is still open at the end is not complete. -/
theorem readRecords_eq_completed_camera :
    TellAll ["Stats Camera", "x", "Stats Viewer : n 1", "    Draw calls 7", "Stats Viewer : n 2"]
      [.cameraSection, .other, .frameStart "n" 1, .metric "Draw calls" 7, .frameStart "n" 2] ∧
    (readRecords none ["Stats Camera", "x", "Stats Viewer : n 1", "    Draw calls 7",
      "Stats Viewer : n 2"]).1 = [.ofList [("n", 1), ("Draw calls Camera 1", 7)]] := by
  have htell : TellAll
      ["Stats Camera", "x", "Stats Viewer : n 1", "    Draw calls 7", "Stats Viewer : n 2"]
      [.cameraSection, .other, .frameStart "n" 1, .metric "Draw calls" 7, .frameStart "n" 2] :=
    .cons (.cameraSection (by decide)) <|
    .cons (.other (by decide)) <|
    .cons (.frameStart ["Stats".toList, "Viewer".toList, ":".toList] "n".toList "1".toList
      (by decide) (by decide) (by decide) (by decide +kernel)) <|
    .cons (.metric "Draw calls".toList "7".toList (by decide) (by decide) (by decide)
      (by decide +kernel)) <|
    .cons (.frameStart ["Stats".toList, "Viewer".toList, ":".toList] "n".toList "2".toList
      (by decide) (by decide) (by decide) (by decide +kernel)) <|
    .nil
  refine ⟨htell, ?_⟩
  rw [(readRecords_eq_completed none _).2.1 _ htell]
  decide +kernel

end Framewise.Log
