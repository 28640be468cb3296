import Framewise.Proofs.Log.Cameras
import Framewise.Proofs.Number.Spelled
import Framewise.Proofs.OrderedMap
import Framewise.Proofs.Table

/-!
# Camera sections do not overwrite each other

The key of a metric in a camera section is its name with the number of the camera. The number is what
stands behind the last space, so both can be told from the key, also where the name ends in the number
of a camera itself. Within a frame the record is therefore a table by section and name.

* `cameraKey_inj`: a key has one name and one number.
* `keyed_eq_map`: the keys of a frame's metrics, from their sections and names.
* `Reader.getD_frame_listen`: what the lines of a frame make of a record, or of none.
* `sections_apart`: what becomes of a metric in a camera section, in every run.
-/

namespace Framewise.Log

open Number Text

/-! ### Keys -/

/-- **A key has one name and one number**, as long as numbers are texts without blanks. -/
theorem cameraKey_inj {name name' number number' : String}
    (hnumber : ∀ c ∈ number.toList, isBlank c = false)
    (hnumber' : ∀ c ∈ number'.toList, isBlank c = false)
    (h : cameraKey name number = cameraKey name' number') : name = name' ∧ number = number' := by
  -- Behind the last blank of a key stands its number.
  have hparts : ∀ name number : String, (∀ c ∈ number.toList, isBlank c = false) →
      dropTail (fun c => !isBlank c) (cameraKey name number).toList =
          name.toList ++ " Camera ".toList ∧
        takeTail (fun c => !isBlank c) (cameraKey name number).toList = number.toList := by
    intro name number hnumber
    have hblank : ∀ c ∈ (name.toList ++ " Camera ".toList).getLast?, (!isBlank c) = false := by
      rw [List.getLast?_append_of_ne_nil _ (by decide)]
      rintro c ⟨⟩
      decide
    have htail : ∀ c ∈ number.toList, (!isBlank c) = true := by
      intro c hc
      rw [hnumber c hc]
      rfl
    rw [cameraKey, String.toList_append, String.toList_append]
    exact ⟨dropTail_append hblank htail, takeTail_append hblank htail⟩
  obtain ⟨hfront, hback⟩ := hparts name number hnumber
  obtain ⟨hfront', hback'⟩ := hparts name' number' hnumber'
  rw [h] at hfront hback
  constructor
  · exact String.toList_inj.1 (List.append_cancel_right (hfront.symm.trans hfront'))
  · exact String.toList_inj.1 (hback.symm.trans hback')

theorem blankFree_natText (n : ℕ) : ∀ c ∈ (natText n).toList, isBlank c = false := by
  rw [toList_natText]
  exact fun c hc => not_isBlank_of_isDigit (digits_isDigit hc)

theorem natText_inj {n n' : ℕ} (h : natText n = natText n') : n = n' := by
  have hdigits : digits n = digits n' := by
    rw [← toList_natText, h, toList_natText]
  rw [← digitsValue_digits n, hdigits, digitsValue_digits]

theorem cameraKey_natText_inj {name name' : String} {camera camera' : ℕ}
    (h : cameraKey name (natText camera) = cameraKey name' (natText camera')) :
    name = name' ∧ camera = camera' := by
  obtain ⟨hname, hnumber⟩ := cameraKey_inj (blankFree_natText _) (blankFree_natText _) h
  exact ⟨hname, natText_inj hnumber⟩

theorem unsignZero_of_one_le {x : Float} (h : 1 ≤ x) : unsignZero x = x := by
  unfold unsignZero
  split
  · next s hx =>
    have hzero : x = repack (.zero s) := by rw [← hx, repack_unpack]
    rw [hzero] at h
    cases s with
    | positive => exact absurd h (by decide +kernel)
    | negative => exact absurd h (by decide +kernel)
  · rfl

theorem cameraKey_text_inj {name name' : String} {x x' : Float} (hx : 1 ≤ x) (hx' : 1 ≤ x')
    (h : cameraKey name (text x) = cameraKey name' (text x')) : name = name' ∧ x = x' := by
  have hblank : ∀ x, ∀ c ∈ (text x).toList, isBlank c = false := by
    intro x
    rw [toList_text]
    exact blankFree_chars x
  obtain ⟨hname, hnumber⟩ := cameraKey_inj (hblank x) (hblank x') h
  refine ⟨hname, ?_⟩
  have hchars : chars x = chars x' := by
    rw [← toList_text, hnumber, toList_text]
  rw [← unsignZero_of_one_le hx, unsignZero_of_chars hchars, unsignZero_of_one_le hx']

/-- A key that looks like that of a metric in a camera section. -/
def HasCamera (key : String) : Prop :=
  ∃ name camera, 1 ≤ camera ∧ key = cameraKey name (natText camera)

theorem HasCamera.mem_space {key : String} (h : HasCamera key) : ' ' ∈ key.toList := by
  obtain ⟨name, camera, -, rfl⟩ := h
  rw [cameraKey, String.toList_append, String.toList_append]
  simp

/-! ### Sections -/

/-- The metrics under their sections and names. The section of a metric is the number of the sections
before it, `before` of which stand in front of the whole; before the first section it is zero. -/
def sectioned (before : ℕ) (es : List Entry) : List ((ℕ × String) × Float) :=
  es.zipIdx.filterMap fun (e, i) =>
    match e with
    | .metric name value => some ((before + cameras (es.take i), name), value)
    | _ => none

/-- The value of the last metric with the name in the section. -/
def lastIn (before : ℕ) (es : List Entry) (camera : ℕ) (name : String) : Option Float :=
  (sectioned before es).reverse.lookup (camera, name)

/-- **The keys of metrics**, from their sections and names. -/
theorem keyed_eq_map (before : ℕ) (es : List Entry) :
    keyed before es =
      (sectioned before es).map fun p => (qualify p.1.2 p.1.1, p.2) := by
  rw [keyed, sectioned, List.map_filterMap]
  congr 1
  funext p
  obtain ⟨e, i⟩ := p
  cases e with
  | metric name value => rfl
  | frameStart key value | cameraSection | other => rfl

/-- The number of the section only grows. -/
theorem le_of_mem_sectioned {before camera : ℕ} {es : List Entry} {name : String} {value : Float}
    (h : ((camera, name), value) ∈ sectioned before es) : before ≤ camera := by
  obtain ⟨⟨e, i⟩, -, hentry⟩ := List.mem_filterMap.1 h
  cases e with
  | metric name' value' =>
    obtain ⟨⟨rfl, -⟩, -⟩ := by simpa using hentry
    exact Nat.le_add_right _ _
  | frameStart key value' | cameraSection | other => cases hentry

/-- A list under other keys holds the same, if no other key becomes the one that is looked up. -/
theorem lookup_map_key {α β : Type} [BEq α] [LawfulBEq α] [BEq β] [LawfulBEq β] (f : α → β)
    {l : List (α × Float)} {key : α} (h : ∀ p ∈ l, f p.1 = f key → p.1 = key) :
    (l.map fun p => (f p.1, p.2)).lookup (f key) = l.lookup key := by
  induction l with
  | nil => rfl
  | cons p l ih =>
    obtain ⟨k, value⟩ := p
    obtain ⟨hfirst, hrest⟩ := List.forall_mem_cons.1 h
    rw [List.map_cons, List.lookup_cons, List.lookup_cons, ih hrest]
    by_cases hkey : key = k
    · rw [hkey, beq_self_eq_true, beq_self_eq_true]
    · have hother : f key ≠ f k := fun heq => hkey (hfirst heq.symm).symm
      rw [beq_false_of_ne hkey, beq_false_of_ne hother]

/-- **The last metric under a key of a section** is the last one with the name in the section, if no
metric before the first section is under this key. -/
theorem lookup_keyed {before camera : ℕ} {es : List Entry} {name : String} (hcamera : 1 ≤ camera)
    (hplain : ∀ name' value, ((0, name'), value) ∈ sectioned before es →
      name' ≠ cameraKey name (natText camera)) :
    (keyed before es).reverse.lookup (cameraKey name (natText camera)) =
      lastIn before es camera name := by
  have hqualify : ∀ name {camera}, 1 ≤ camera →
      qualify name camera = cameraKey name (natText camera) := fun _ _ hpos => if_neg (by omega)
  rw [keyed_eq_map, ← List.map_reverse, lastIn, ← hqualify name hcamera]
  refine @lookup_map_key _ _ _ _ _ _ (fun p => qualify p.2 p.1) _ (camera, name) ?_
  rintro ⟨⟨camera', name'⟩, value⟩ hmem hsame
  rw [List.mem_reverse] at hmem
  simp only [hqualify name hcamera] at hsame
  rcases Nat.eq_zero_or_pos camera' with rfl | hpos
  · exact absurd hsame (hplain name' value hmem)
  · simp only [hqualify name' hpos] at hsame
    obtain ⟨rfl, rfl⟩ := cameraKey_natText_inj hsame
    rfl

namespace Reader

/-! ### Frames -/

/-- **Within a frame** the record, or a new one, gets the metrics under their keys. -/
theorem getD_frame_listen {es : List Entry} (hbody : ∀ e ∈ es, e.isFrameStart = false) (r : Reader) :
    (r.listen es).frame.getD .empty = extend (r.frame.getD .empty) (keyed r.camera es) := by
  induction es generalizing r with
  | nil => rfl
  | cons e es ih =>
    obtain ⟨he, hes⟩ := List.forall_mem_cons.1 hbody
    show ((r.enter e).1.listen es).frame.getD .empty = _
    rw [ih hes, keyed_cons]
    cases e with
    | frameStart key value => cases he
    | cameraSection | other | metric name value => rfl

theorem getD_frame_session {body : List String} {es : List Entry} (h : Heard body es)
    (hbody : ∀ e ∈ es, e.isFrameStart = false) (r : Reader) :
    (r.session (body.map .push)).1.frame.getD .empty =
      extend (r.frame.getD .empty) (keyed r.camera es) := by
  have hframe : (r.session (body.map .push)).1.frame = (r.listen es).frame :=
    congrArg (·.frame) (session_heard h rfl)
  rw [hframe, getD_frame_listen hbody]

/-- A frame start hands back the record in progress. -/
theorem given_of_frameStart {r : Reader} {line : String} {completed : Option Record}
    (kind : LineKind.of (Text.dropTerminator line.toList) = .frameStart)
    (accepted : (r.push line).2 = .ok completed) : completed = r.frame := by
  obtain ⟨key, value, start⟩ := exists_tells_frameStart kind accepted
  rw [push_tells start] at accepted
  exact (Except.ok.inj accepted).symm

end Reader

/-! ### Runs -/

/-- **Camera sections never overwrite each other.** A key of a camera section has one name and one
number. So in every run, let the lines `body` hold no frame start.

* A metric that stands before them in a camera section is overwritten by the later ones in the same
  section with the same name, and by nothing else. With its last value it is handed back by the next
  frame start.
* If no key without a camera looks like one with a camera, neither in the record that was in progress
  before these lines nor among their metrics before the first section, then under the key of a section
  stands the last metric with the name in the section, and nothing if there is none. -/
theorem sections_apart :
    (∀ name name' camera camera', cameraKey name (natText camera) = cameraKey name' (natText camera') →
      name = name' ∧ camera = camera') ∧
    (∀ name name' (x x' : Float), 1 ≤ x → 1 ≤ x' →
      cameraKey name (text x) = cameraKey name' (text x') → name = name' ∧ x = x') ∧
    ∀ source actions body es, Heard body es → (∀ e ∈ es, e.isFrameStart = false) →
      let r := (({ source } : Reader).session actions).1
      (∀ line name value, Tells (dropTerminator line.toList) (.metric name value) → 1 ≤ r.camera →
        let last := ((r.push line).1.session (body.map .push)).1
        ∃ record : Record, last.frame = some record ∧
          record.get? (cameraKey name (natText r.camera)) =
            some ((lastIn r.camera es r.camera name).getD value) ∧
          ∀ next given, LineKind.of (dropTerminator next.toList) = .frameStart →
            (last.push next).2 = .ok given → given = some record) ∧
      ((∀ key ∈ (r.frame.getD .empty).keys, ¬ HasCamera key) →
        (∀ name value, ((0, name), value) ∈ sectioned r.camera es → ¬ HasCamera name) →
        ∀ camera name, 1 ≤ camera →
          ((r.session (body.map .push)).1.frame.getD .empty).get? (cameraKey name (natText camera)) =
            lastIn r.camera es camera name) := by
  refine ⟨fun _ _ _ _ => cameraKey_natText_inj, fun _ _ _ _ => cameraKey_text_inj, ?_⟩
  intro source actions body es hes hbody r
  refine ⟨?_, ?_⟩
  · intro line name value htells hcamera last
    have hpush := Reader.push_tells htells r
    have hqualify : qualify name r.camera = cameraKey name (natText r.camera) := if_neg (by omega)
    have hframe : (r.push line).1.frame =
        some ((r.frame.getD .empty).insert (cameraKey name (natText r.camera)) value) := by
      rw [← hqualify, hpush]
      rfl
    have hsame : (r.push line).1.camera = r.camera := by
      rw [hpush]
      rfl
    have hlast : last.frame = ((r.push line).1.listen es).frame :=
      congrArg (·.frame) (Reader.session_heard hes rfl)
    rw [Reader.frame_listen hbody hframe, hsame] at hlast
    refine ⟨_, hlast, ?_, ?_⟩
    · have hlater : ∀ name' value, ((0, name'), value) ∈ sectioned r.camera es →
          name' ≠ cameraKey name (natText r.camera) := by
        intro name' value hmem
        have := le_of_mem_sectioned hmem
        omega
      rw [get?_extend, lookup_keyed hcamera hlater, OrderedMap.get?_insert, if_pos rfl,
        Option.or_some]
    · intro next given kind accepted
      rw [Reader.given_of_frameStart kind accepted, hlast]
  · intro hkeys hplain camera name hcamera
    have hnone : (r.frame.getD .empty).get? (cameraKey name (natText camera)) = none := by
      apply Option.eq_none_iff_forall_ne_some.2
      intro value hvalue
      exact hkeys _ (OrderedMap.mem_keys_iff.2 ⟨value, hvalue⟩) ⟨name, camera, hcamera, rfl⟩
    rw [Reader.getD_frame_session hes hbody, get?_extend, lookup_keyed hcamera ?_, hnone,
      Option.or_none]
    rintro name' value hmem rfl
    exact hplain _ value hmem ⟨name, camera, hcamera, rfl⟩

/-- A name that ends in the number of a camera itself: neither its metric nor that of the next section
overwrites the one whose key it looks like. -/
theorem sections_apart_nested :
    let start := (({} : Reader).session [.push "Stats Viewer : n 1"]).1
    let first := (({} : Reader).session [.push "Stats Viewer : n 1", .push "Stats Camera"]).1
    let body := ["    Draw Camera 1 5", "Stats Camera", "    Draw 9"]
    (∃ record : Record,
      ((first.push "    Draw 7").1.session (body.map .push)).1.frame = some record ∧
        record.get? "Draw Camera 1" = some 7) ∧
    let frame := (start.session (("Stats Camera" :: "    Draw 7" :: body).map .push)).1.frame
    (frame.getD .empty).get? "Draw Camera 1" = some 7 ∧
      (frame.getD .empty).get? "Draw Camera 1 Camera 1" = some 5 ∧
      (frame.getD .empty).get? "Draw Camera 2" = some 9 := by
  intro start first body
  have hplain : ¬ HasCamera "n" := fun h => absurd h.mem_space (by decide)
  have hseven : Tells (dropTerminator "    Draw 7".toList) (.metric "Draw" 7) :=
    .metric "Draw".toList "7".toList (by decide) (by decide) (by decide) (by decide +kernel)
  have hfive : Tells (dropTerminator "    Draw Camera 1 5".toList) (.metric "Draw Camera 1" 5) :=
    .metric "Draw Camera 1".toList "5".toList (by decide) (by decide) (by decide) (by decide +kernel)
  have hnine : Tells (dropTerminator "    Draw 9".toList) (.metric "Draw" 9) :=
    .metric "Draw".toList "9".toList (by decide) (by decide) (by decide) (by decide +kernel)
  have hsection : Tells (dropTerminator "Stats Camera".toList) .cameraSection :=
    .cameraSection (by decide)
  have hbody : Heard body [.metric "Draw Camera 1" 5, .cameraSection, .metric "Draw" 9] :=
    .told hfive (.told hsection (.told hnine .nil))
  obtain ⟨-, -, hruns⟩ := sections_apart
  obtain ⟨hkept, -⟩ := hruns none [.push "Stats Viewer : n 1", .push "Stats Camera"] _ _ hbody
    (by decide)
  obtain ⟨-, htable⟩ := hruns none [.push "Stats Viewer : n 1"] _ _
    (.told hsection (.told hseven hbody)) (by decide)
  refine ⟨?_, ?_⟩
  · obtain ⟨record, hframe, hvalue, -⟩ := hkept "    Draw 7" "Draw" 7 hseven (by decide +kernel)
    exact ⟨record, hframe, hvalue.trans (by decide +kernel)⟩
  · have hkeys : ∀ key ∈ (start.frame.getD .empty).keys, ¬ HasCamera key := by
      rw [show (start.frame.getD .empty).keys = ["n"] by decide +kernel]
      exact List.forall_mem_singleton.2 hplain
    have hvalues := htable hkeys ?_
    · exact ⟨(hvalues 1 "Draw" (by decide)).trans (by decide +kernel),
        (hvalues 1 "Draw Camera 1" (by decide)).trans (by decide +kernel),
        (hvalues 2 "Draw" (by decide)).trans (by decide +kernel)⟩
    · intro name value hmem
      have hnames : ∀ p ∈ sectioned start.camera [.cameraSection, .metric "Draw" 7,
          .metric "Draw Camera 1" 5, .cameraSection, .metric "Draw" 9], p.1.1 ≠ 0 := by
        decide +kernel
      exact absurd rfl (hnames _ hmem)

end Framewise.Log
