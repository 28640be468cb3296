import Framewise.Proofs.Check.Acceptance
import Framewise.Proofs.OrderedMap

/-!
# The data of accepted requests

A check fills in what is absent and leaves out what it does not ask for. The data that it gives is
written with the fields of the request only, and the same check gives it back unchanged: what was
accepted passes the tests of its parts, and what passes them is accepted as it is written.

* `Settles`: a check of a part, and the data that it gives.
* `Joins`: a document that has the fields of two others is accepted if both are, and its issues are
  those of the first and then those of the second.
* `Settled`: the data of a whole document.
* `requests_join_and_settle`: how the five documents are joined, and that their data settles.
-/

namespace Framewise

/-! ### Data -/

/-- The fields of a request for frames, as far as they are given. -/
def FramesRequest.fields (r : FramesRequest) : List (String × Json) :=
  r.range.fields ++ (r.keys.map fun keys => ("keys", Json.strings keys)).toList

/-- The fields of a request for views over a range. -/
def ViewsRequest.fields (r : ViewsRequest) : List (String × Json) :=
  r.views.fields ++ r.range.fields

/-- What options have beside a request for views over a range. -/
structure Command.Switches where
  printKeys : Bool
  json : Bool
  serve : Bool
  help : Bool
  paths : List String

namespace Command

/-- The fields that only options have. -/
def Switches.fields (s : Switches) : List (String × Json) :=
  [("printKeys", .bool s.printKeys), ("json", .bool s.json), ("serve", .bool s.serve),
   ("help", .bool s.help), ("paths", Json.strings s.paths)]

/-- The switches in options. -/
def Options.switches (o : Options) : Switches := ⟨o.printKeys, o.json, o.serve, o.help, o.paths⟩

/-- The fields of options: those of a request for views over a range, and the switches. -/
def Options.fields (o : Options) : List (String × Json) :=
  ViewsRequest.fields ⟨o.views, o.range⟩ ++ o.switches.fields

end Command

/-- All bounds are integers, and finite. -/
structure FrameRange.Proper (r : FrameRange) : Prop where
  start : Number.isInteger r.start = true ∧ r.start.isFinite = true
  stop : Number.isInteger r.stop = true ∧ r.stop.isFinite = true

/-- All keys that are read have names, and all scales are finite. -/
structure ViewRequest.Proper (r : ViewRequest) : Prop where
  keys : ∀ key ∈ r.keys, key ≠ ""
  scales : ∀ w ∈ r.stdevHist, w.scale.isFinite = true

/-- The names of the fields of a range. -/
def FrameRange.names : List String := ["beginFrame", "endFrame"]

/-- The names of the fields of a view request. -/
def ViewRequest.names : List String :=
  ["timeseries", "timeseriesSum", "cumulativeTimeseries", "cumulativeTimeseriesSum", "hist",
   "histRatio", "stdevHist", "plot", "stats", "statsSum"]

/-- The names of the fields that only options have. -/
def Command.Switches.names : List String := ["printKeys", "json", "serve", "help", "paths"]

namespace Check

variable {α β : Type}

/-! ### Parts -/

/-- A check lets only values through that pass the test `good`, and each of these as it is written. -/
structure Settles (check : Checker α) (write : α → Json) (good : α → Prop) : Prop where
  sound : ∀ {path v a}, check path v = .valid a → good a
  accepts : Accepts check write good id

theorem settles_nonEmptyText : Settles nonEmptyText .string (· ≠ "") where
  sound := ne_empty_of_nonEmptyText
  accepts := accepts_nonEmptyText

theorem settles_boolean : Settles boolean .bool fun _ => True where
  sound _ := trivial
  accepts := accepts_boolean

theorem settles_integer : Settles integer .number fun x => Number.isInteger x = true where
  sound := test_of_numberWith
  accepts := accepts_integer

/-- A tuple settles if its items are good wherever they come from. -/
theorem settles_tupleOf {length : ℕ} {check : Path → (ℕ → Option Json) → Checked α}
    {write : β → Json} {good : β → Prop} {made : β → α} (parts : α → β)
    (haccepts : Accepts (tupleOf length check) write good made) (hmade : ∀ a, made (parts a) = a)
    (hgood : ∀ path item a, check path item = .valid a → good (parts a)) :
    Settles (tupleOf length check) (fun a => write (parts a)) fun a => good (parts a) where
  sound h := by
    obtain ⟨item, hitem⟩ := tupleOf_eq_valid h
    exact hgood _ item _ hitem
  accepts := by
    intro path a b
    rw [haccepts path (parts a) b, hmade]
    exact Iff.rfl

/-- A ratio settles as the pair of its keys. -/
theorem settles_ratio : Settles ratio (fun p => Json.strings [p.numerator, p.denominator])
    fun p => p.numerator ≠ "" ∧ p.denominator ≠ "" := by
  apply settles_tupleOf (fun p : RatioRequest => (p.numerator, p.denominator)) accepts_ratio
  · exact fun _ => rfl
  · intro path item p h
    obtain ⟨a, b, ha, hb, rfl⟩ := Checked.map_ap_eq_valid.1 h
    exact ⟨ne_empty_of_nonEmptyText ha, ne_empty_of_nonEmptyText hb⟩

/-- A window settles as the pair of its key and its scale. -/
theorem settles_window : Settles window (fun w => .array [.string w.key, .number w.scale])
    fun w => w.key ≠ "" ∧ w.scale.isFinite = true := by
  apply settles_tupleOf (fun w : WindowRequest => (w.key, w.scale)) accepts_window
  · exact fun _ => rfl
  · intro path item w h
    obtain ⟨a, b, ha, hb, rfl⟩ := Checked.map_ap_eq_valid.1 h
    exact ⟨ne_empty_of_nonEmptyText ha, test_of_numberWith hb⟩

/-- The name of an aggregation is among the choices, and is read as this aggregation. -/
theorem aggregationOf_name (a : Aggregation) :
    a.name ∈ aggregationNames ∧ aggregationOf a.name = a := by
  cases a with
  | mean => decide
  | median => decide

/-- A plot settles as its two keys and the name of its aggregation. -/
theorem settles_plot : Settles plot (fun p => Json.strings [p.x, p.y, p.aggregation.name])
    fun p => p.x ≠ "" ∧ p.y ≠ "" ∧ p.aggregation.name ∈ aggregationNames := by
  apply settles_tupleOf (fun p : PlotRequest => (p.x, p.y, p.aggregation.name)) accepts_plot
  · intro p
    show PlotRequest.mk p.x p.y (aggregationOf p.aggregation.name) = p
    rw [(aggregationOf_name p.aggregation).2]
  · intro path item p h
    obtain ⟨g, c, hg, -, rfl⟩ := Checked.ap_eq_valid.1 h
    obtain ⟨a, b, ha, hb, rfl⟩ := Checked.map_ap_eq_valid.1 hg
    exact ⟨ne_empty_of_nonEmptyText ha, ne_empty_of_nonEmptyText hb, (aggregationOf_name c).1⟩

section Parts

variable {check : Checker α} {write : α → Json} {good : α → Prop} (h : Settles check write good)

include h

/-- The items of a list that passes have passed themselves. -/
theorem Settles.arrayOf :
    Settles (arrayOf check) (fun as => .array (as.map write)) fun as => ∀ a ∈ as, good a where
  sound := by
    intro path v as has
    unfold Check.arrayOf at has
    split at has
    · intro a ha
      have hmem := List.mem_map_of_mem (f := Checked.valid) ha
      rw [← sequence_eq_valid.1 has] at hmem
      obtain ⟨item, -, hitem⟩ := List.mem_map.1 hmem
      exact h.sound hitem
    · exact absurd has reject_ne_valid
  accepts := by
    have haccepts := h.accepts.arrayOf
    rwa [List.map_id_fun] at haccepts

/-- A default has to pass too. -/
theorem Settles.orElse {dflt : α} (hdflt : good dflt) : Settles (orElse dflt check) write good where
  sound := by
    intro path v a ha
    cases v with
    | none =>
      obtain rfl := Checked.valid.inj ha
      exact hdflt
    | some v => exact h.sound ha
  accepts := h.accepts.orElse dflt

/-- A part that may be absent is accepted again where it was given, and where it was not. -/
theorem Settles.optional {path : Path} {v : Option Json} {a? : Option α}
    (ha : optional check path v = .valid a?) (path' : Path) :
    (∀ a ∈ a?, good a) ∧ Check.optional check path' (a?.map write) = .valid a? := by
  cases v with
  | none =>
    obtain rfl := Checked.valid.inj ha
    exact ⟨by simp, rfl⟩
  | some v =>
    obtain ⟨a, hpart, rfl⟩ := Checked.map_eq_valid.1 ha
    have hgood := h.sound hpart
    refine ⟨fun b hb => Option.mem_some_iff.1 hb ▸ hgood, ?_⟩
    exact Checked.map_eq_valid.2 ⟨a, (h.accepts path' a a).2 ⟨hgood, rfl⟩, rfl⟩

/-- **A field that was accepted is accepted again** as it is written, wherever it stands. -/
theorem Settles.field {path : Path} {fields : Fields} {name : String} {a : α}
    (ha : field path fields name check = .valid a) (path' : Path) {fields' : Fields}
    (hfield : fields' name = some (write a)) : field path' fields' name check = .valid a := by
  unfold Check.field
  rw [hfield]
  exact (h.accepts _ a a).2 ⟨h.sound ha, rfl⟩

end Parts

theorem forall_mem_nil {p : α → Prop} : ∀ a ∈ ([] : List α), p a := fun _ h => nomatch h

/-- A list of keys settles, an absent one as the empty list. -/
theorem settles_keyList : Settles keyList Json.strings fun keys => ∀ key ∈ keys, key ≠ "" :=
  settles_nonEmptyText.arrayOf.orElse forall_mem_nil

theorem settles_flag : Settles flag .bool fun _ => True := settles_boolean.orElse trivial

/-- A bound with a default that is an integer. -/
theorem settles_bound {dflt : Float} (h : Number.isInteger dflt = true) :
    Settles (orElse dflt integer) .number fun x => Number.isInteger x = true :=
  settles_integer.orElse h

/-! ### Objects -/

section Objects

variable {path : Path} {fields : Fields}

/-- A range that was accepted is accepted again from fields that hold it, wherever they stand. -/
theorem rangeFields_again {r : FrameRange} (h : rangeFields path fields = .valid r) (path' : Path)
    {fields' : Fields} (hfields : ∀ f ∈ r.fields, fields' f.1 = some f.2) :
    rangeFields path' fields' = .valid r := by
  obtain ⟨h₁, h₂⟩ := rangeFields_eq_valid.1 h
  simp only [FrameRange.fields, List.forall_mem_cons] at hfields
  obtain ⟨f₁, f₂, -⟩ := hfields
  exact rangeFields_eq_valid.2 ⟨(settles_bound (by decide +kernel)).field h₁ path' f₁,
    (settles_bound (by decide +kernel)).field h₂ path' f₂⟩

/-- A view request that was accepted is accepted again from fields that hold it. Each of its ten
fields settles by itself. -/
theorem viewFields_again {r : ViewRequest} (h : viewFields path fields = .valid r) (path' : Path)
    {fields' : Fields} (hfields : ∀ f ∈ r.fields, fields' f.1 = some f.2) :
    viewFields path' fields' = .valid r := by
  obtain ⟨h₁, h₂, h₃, h₄, h₅, h₆, h₇, h₈, h₉, h₁₀⟩ := viewFields_eq_valid.1 h
  simp only [ViewRequest.fields, List.forall_mem_cons] at hfields
  obtain ⟨f₁, f₂, f₃, f₄, f₅, f₆, f₇, f₈, f₉, f₁₀, -⟩ := hfields
  exact viewFields_eq_valid.2 ⟨settles_keyList.field h₁ path' f₁, settles_flag.field h₂ path' f₂,
    settles_keyList.field h₃ path' f₃, settles_flag.field h₄ path' f₄,
    settles_keyList.field h₅ path' f₅, (settles_ratio.arrayOf.orElse forall_mem_nil).field h₆ path' f₆,
    (settles_window.arrayOf.orElse forall_mem_nil).field h₇ path' f₇,
    (settles_plot.arrayOf.orElse forall_mem_nil).field h₈ path' f₈,
    settles_keyList.field h₉ path' f₉, settles_flag.field h₁₀ path' f₁₀⟩

/-- The bounds of an accepted range are integers, the default ones as well. -/
theorem rangeFields_proper {r : FrameRange} (h : rangeFields path fields = .valid r) : r.Proper := by
  obtain ⟨h₁, h₂⟩ := rangeFields_eq_valid.1 h
  have hstart := (settles_bound (by decide +kernel)).sound h₁
  have hstop := (settles_bound (by decide +kernel)).sound h₂
  exact ⟨⟨hstart, isFinite_of_isInteger hstart⟩, hstop, isFinite_of_isInteger hstop⟩

/-- The keys that an accepted view request reads have names, and its scales are finite. -/
theorem viewFields_proper {r : ViewRequest} (h : viewFields path fields = .valid r) : r.Proper := by
  obtain ⟨h₁, -, h₃, -, h₅, h₆, h₇, h₈, h₉, -⟩ := viewFields_eq_valid.1 h
  have htimeseries := settles_keyList.sound h₁
  have hcumulative := settles_keyList.sound h₃
  have hhist := settles_keyList.sound h₅
  have hratio := (settles_ratio.arrayOf.orElse forall_mem_nil).sound h₆
  have hwindow := (settles_window.arrayOf.orElse forall_mem_nil).sound h₇
  have hplot := (settles_plot.arrayOf.orElse forall_mem_nil).sound h₈
  have hstats := settles_keyList.sound h₉
  refine ⟨?_, fun w hw => (hwindow w hw).2⟩
  intro key hkey
  simp only [ViewRequest.keys, List.mem_eraseDups, List.mem_append, List.mem_flatMap, List.mem_map,
    List.mem_cons, List.not_mem_nil, or_false] at hkey
  obtain (((((hkey | hkey) | hkey) | ⟨p, hp, rfl | rfl⟩) | ⟨w, hw, rfl⟩) | ⟨p, hp, rfl | rfl⟩) | hkey :=
    hkey
  · exact htimeseries key hkey
  · exact hcumulative key hkey
  · exact hhist key hkey
  · exact (hratio p hp).1
  · exact (hratio p hp).2
  · exact (hwindow w hw).1
  · exact (hplot p hp).1
  · exact (hplot p hp).2.1
  · exact hstats key hkey

/-- The fields of a request for frames. -/
def framesFields (path : Path) (fields : Fields) : Checked FramesRequest :=
  ((rangeFields path fields).map FramesRequest.mk).ap
    (field path fields "keys" (optional (arrayOf nonEmptyText)))

theorem framesFields_eq_valid {r : FramesRequest} : framesFields path fields = .valid r ↔
    rangeFields path fields = .valid r.range ∧
    field path fields "keys" (optional (arrayOf nonEmptyText)) = .valid r.keys := by
  unfold framesFields
  rw [Checked.map_ap_eq_valid]
  constructor
  · rintro ⟨_, _, h₁, h₂, rfl⟩
    exact ⟨h₁, h₂⟩
  · rintro ⟨h₁, h₂⟩
    exact ⟨_, _, h₁, h₂, rfl⟩

/-- What options have beside a request for views over a range. -/
def switchFields (path : Path) (fields : Fields) : Checked Command.Switches :=
  let part {α : Type} := @field α path fields
  (((((part "printKeys" flag).map Command.Switches.mk).ap
    (part "json" flag)).ap
    (part "serve" flag)).ap
    (part "help" flag)).ap
    (part "paths" (orElse [] (arrayOf nonEmptyText)))

/-- The switches and the paths of a document. -/
def switches (v : Option Json) : Checked Command.Switches :=
  objectOf switchFields [] v

/-- The switches are accepted if each of them is, and the paths. -/
theorem switchFields_eq_valid {s : Command.Switches} : switchFields path fields = .valid s ↔
    field path fields "printKeys" flag = .valid s.printKeys ∧
    field path fields "json" flag = .valid s.json ∧
    field path fields "serve" flag = .valid s.serve ∧
    field path fields "help" flag = .valid s.help ∧
    field path fields "paths" (orElse [] (arrayOf nonEmptyText)) = .valid s.paths := by
  unfold switchFields
  simp only [Checked.ap_eq_valid, Checked.map_eq_valid]
  constructor
  · rintro ⟨_, _, ⟨_, _, ⟨_, _, ⟨_, _, ⟨_, h₁, rfl⟩, h₂, rfl⟩, h₃, rfl⟩, h₄, rfl⟩, h₅, rfl⟩
    exact ⟨h₁, h₂, h₃, h₄, h₅⟩
  · rintro ⟨h₁, h₂, h₃, h₄, h₅⟩
    exact ⟨_, _, ⟨_, _, ⟨_, _, ⟨_, _, ⟨_, h₁, rfl⟩, h₂, rfl⟩, h₃, rfl⟩, h₄, rfl⟩, h₅, rfl⟩

theorem viewsFields_eq_valid {r : ViewsRequest} : viewsFields path fields = .valid r ↔
    viewFields path fields = .valid r.views ∧ rangeFields path fields = .valid r.range := by
  unfold viewsFields
  rw [Checked.map_ap_eq_valid]
  constructor
  · rintro ⟨_, _, h₁, h₂, rfl⟩
    exact ⟨h₁, h₂⟩
  · rintro ⟨h₁, h₂⟩
    exact ⟨_, _, h₁, h₂, rfl⟩

/-- Options are a request for views over a range and switches. -/
theorem optionFields_eq_valid_iff {o : Command.Options} :
    Command.optionFields path fields = .valid o ↔
      viewsFields path fields = .valid ⟨o.views, o.range⟩ ∧
        switchFields path fields = .valid o.switches := by
  rw [optionFields_eq_valid, viewsFields_eq_valid, switchFields_eq_valid, and_assoc]
  exact Iff.rfl

/-- The issues of the views come before those of the range. -/
theorem issues_viewsFields (path : Path) (fields : Fields) :
    (viewsFields path fields).issues =
      (viewFields path fields).issues ++ (rangeFields path fields).issues := by
  unfold viewsFields
  rw [Checked.issues_ap, Checked.issues_map]

/-- The issues of the request come before those of the switches. -/
theorem issues_optionFields (path : Path) (fields : Fields) :
    (Command.optionFields path fields).issues =
      (viewsFields path fields).issues ++ (switchFields path fields).issues := by
  unfold Command.optionFields switchFields
  simp only [Checked.issues_ap, Checked.issues_map, List.append_assoc]

theorem switchFields_again {s : Command.Switches} (h : switchFields path fields = .valid s)
    (path' : Path) {fields' : Fields} (hfields : ∀ f ∈ s.fields, fields' f.1 = some f.2) :
    switchFields path' fields' = .valid s := by
  obtain ⟨h₁, h₂, h₃, h₄, h₅⟩ := switchFields_eq_valid.1 h
  simp only [Command.Switches.fields, List.forall_mem_cons] at hfields
  obtain ⟨f₁, f₂, f₃, f₄, f₅, -⟩ := hfields
  exact switchFields_eq_valid.2 ⟨settles_flag.field h₁ path' f₁, settles_flag.field h₂ path' f₂,
    settles_flag.field h₃ path' f₃, settles_flag.field h₄ path' f₄, settles_keyList.field h₅ path' f₅⟩

end Objects

/-! ### Documents -/

/-- A document that passes is an object whose fields pass. -/
theorem objectOf_eq_valid {check : Path → (String → Option Json) → Checked α} {path : Path}
    {v : Option Json} {a : α} (h : objectOf check path v = .valid a) :
    ∃ fields, v = some (.object fields) ∧ check path (fun name => valueOf? name fields) = .valid a := by
  unfold objectOf at h
  split at h
  · exact ⟨_, rfl, h⟩
  · exact absurd h reject_ne_valid

/-- A document with the fields of two others: it is accepted if both are, its data has the fields of the
first and then those of the second, and so have its issues. -/
structure Joins (whole first second : Checked (List (String × Json))) : Prop where
  accepted : (∃ data, whole = .valid data) ↔ (∃ data, first = .valid data) ∧ ∃ data, second = .valid data
  data : ∀ data data', first = .valid data → second = .valid data' → whole = .valid (data ++ data')
  issues : whole.issues = first.issues ++ second.issues

/-- What is accepted by a check, as data: it is accepted again as it is, it has fields of the request
only, none of them twice, and it passes the tests of its parts. What is not accepted has an issue. Other
fields than those of the request make no difference. -/
structure Settled (check : Option Json → Checked α) (fields : α → List (String × Json))
    (names : List String) (proper : α → Prop) : Prop where
  again : ∀ v a, check v = .valid a → check (some (.object (fields a))) = .valid a
  known : ∀ v a, check v = .valid a → ∀ f ∈ fields a, f.1 ∈ names
  distinct : ∀ v a, check v = .valid a → ((fields a).map Prod.fst).Nodup
  proper : ∀ v a, check v = .valid a → proper a
  issue : ∀ v, (∀ a, check v ≠ .valid a) → (check v).issues ≠ []
  ignores : ∀ fs fs', (∀ name ∈ names, valueOf? name fs = valueOf? name fs') →
    check (some (.object fs)) = check (some (.object fs'))

/-- What has no issue is accepted, and nothing else. -/
theorem Checked.exists_valid_iff {c : Checked α} : (∃ a, c = .valid a) ↔ c.issues = [] := by
  cases c with
  | valid a => exact iff_of_true ⟨a, rfl⟩ rfl
  | invalid first more => exact iff_of_false (fun ⟨_, h⟩ => nomatch h) (List.cons_ne_nil first more)

/-- That a document is accepted if both parts are follows from its issues. -/
theorem joins_of_issues {whole first second : Checked (List (String × Json))}
    (hissues : whole.issues = first.issues ++ second.issues)
    (hdata : ∀ data data', first = .valid data → second = .valid data' →
      whole = .valid (data ++ data')) : Joins whole first second where
  accepted := by
    rw [Checked.exists_valid_iff, Checked.exists_valid_iff, Checked.exists_valid_iff, hissues,
      List.append_eq_nil_iff]
  data := hdata
  issues := hissues

/-- Data settles if the check of its fields accepts it as it is written. -/
theorem settled_objectOf {check : Path → Fields → Checked α} {fields : α → List (String × Json)}
    {names : List String} {proper : α → Prop} (hnodup : names.Nodup)
    (hnames : ∀ a, ((fields a).map Prod.fst).Sublist names)
    (hagain : ∀ path read a, check path read = .valid a →
      (∀ f ∈ fields a, valueOf? f.1 (fields a) = some f.2) →
      check [] (fun name => valueOf? name (fields a)) = .valid a)
    (hproper : ∀ path read a, check path read = .valid a → proper a)
    (hignores : ∀ path read read', (∀ name ∈ names, read name = read' name) →
      check path read = check path read') :
    Settled (objectOf check []) fields names proper where
  again v a h := by
    obtain ⟨_, -, ha⟩ := objectOf_eq_valid h
    exact hagain _ _ a ha fun _ hf => valueOf?_of_mem ((hnames a).nodup hnodup) hf
  known _ a _ f hf := (hnames a).subset (List.mem_map_of_mem hf)
  distinct _ a _ := (hnames a).nodup hnodup
  proper v a h := by
    obtain ⟨_, -, ha⟩ := objectOf_eq_valid h
    exact hproper _ _ a ha
  issue v hinvalid hnone := by
    obtain ⟨a, ha⟩ := Checked.exists_valid_iff.2 hnone
    exact hinvalid a ha
  ignores _ _ h := hignores _ _ _ h

section Ignored

variable {path : Path} {read read' : Fields}

theorem rangeFields_congr (h : ∀ name ∈ FrameRange.names, read name = read' name) :
    rangeFields path read = rangeFields path read' := by
  simp only [FrameRange.names, List.forall_mem_cons] at h
  simp only [rangeFields, field, h]

/-- A view request looks at its own fields only. -/
theorem viewFields_congr (h : ∀ name ∈ ViewRequest.names, read name = read' name) :
    viewFields path read = viewFields path read' := by
  simp only [ViewRequest.names, List.forall_mem_cons] at h
  simp only [viewFields, field, h]

theorem viewsFields_congr (h : ∀ name ∈ ViewRequest.names ++ FrameRange.names,
    read name = read' name) : viewsFields path read = viewsFields path read' := by
  rw [List.forall_mem_append] at h
  unfold viewsFields
  rw [viewFields_congr h.1, rangeFields_congr h.2]

theorem framesFields_congr (h : ∀ name ∈ FrameRange.names ++ ["keys"], read name = read' name) :
    framesFields path read = framesFields path read' := by
  rw [List.forall_mem_append, List.forall_mem_singleton] at h
  simp only [framesFields, rangeFields_congr h.1, field, h.2]

theorem optionFields_congr (h : ∀ name ∈ ViewRequest.names ++ FrameRange.names ++
    Command.Switches.names, read name = read' name) :
    Command.optionFields path read = Command.optionFields path read' := by
  rw [List.forall_mem_append] at h
  obtain ⟨hviews, hswitches⟩ := h
  simp only [Command.Switches.names, List.forall_mem_cons] at hswitches
  simp only [Command.optionFields, field, viewsFields_congr hviews, hswitches]

end Ignored

theorem settled_frameRange :
    Settled frameRange FrameRange.fields FrameRange.names FrameRange.Proper := by
  apply settled_objectOf (by decide)
  · exact fun _ => List.Sublist.refl _
  · exact fun _ _ _ h hwritten => rangeFields_again h [] hwritten
  · exact fun _ _ _ => rangeFields_proper
  · exact fun _ _ _ => rangeFields_congr

theorem settled_viewRequest :
    Settled viewRequest ViewRequest.fields ViewRequest.names ViewRequest.Proper := by
  apply settled_objectOf (by decide)
  · exact fun _ => List.Sublist.refl _
  · exact fun _ _ _ h hwritten => viewFields_again h [] hwritten
  · exact fun _ _ _ => viewFields_proper
  · exact fun _ _ _ => viewFields_congr

theorem settled_viewsRequest :
    Settled viewsRequest ViewsRequest.fields (ViewRequest.names ++ FrameRange.names)
      fun r => r.views.Proper ∧ r.range.Proper := by
  apply settled_objectOf (by decide)
  · exact fun _ => List.Sublist.refl _
  · intro path read r h hwritten
    obtain ⟨hviews, hrange⟩ := viewsFields_eq_valid.1 h
    obtain ⟨hwritten, hwritten'⟩ := List.forall_mem_append.1 hwritten
    exact viewsFields_eq_valid.2 ⟨viewFields_again hviews [] hwritten,
      rangeFields_again hrange [] hwritten'⟩
  · intro path read r h
    obtain ⟨hviews, hrange⟩ := viewsFields_eq_valid.1 h
    exact ⟨viewFields_proper hviews, rangeFields_proper hrange⟩
  · exact fun _ _ _ => viewsFields_congr

theorem settled_checkOptions :
    Settled Command.checkOptions Command.Options.fields
      (ViewRequest.names ++ FrameRange.names ++ Command.Switches.names)
      fun o => o.views.Proper ∧ o.range.Proper ∧ ∀ path ∈ o.paths, path ≠ "" := by
  apply settled_objectOf (by decide)
  · exact fun _ => List.Sublist.refl _
  · intro path read o h hwritten
    obtain ⟨hviews, hswitches⟩ := optionFields_eq_valid_iff.1 h
    obtain ⟨hviews, hrange⟩ := viewsFields_eq_valid.1 hviews
    obtain ⟨hwritten, hwritten'⟩ := List.forall_mem_append.1 hwritten
    obtain ⟨hwritten, hwritten''⟩ := List.forall_mem_append.1 hwritten
    exact optionFields_eq_valid_iff.2 ⟨viewsFields_eq_valid.2 ⟨viewFields_again hviews [] hwritten,
      rangeFields_again hrange [] hwritten''⟩, switchFields_again hswitches [] hwritten'⟩
  · intro path read o h
    obtain ⟨hviews, hswitches⟩ := optionFields_eq_valid_iff.1 h
    obtain ⟨hviews, hrange⟩ := viewsFields_eq_valid.1 hviews
    obtain ⟨-, -, -, -, hpaths⟩ := switchFields_eq_valid.1 hswitches
    exact ⟨viewFields_proper hviews, rangeFields_proper hrange, settles_keyList.sound hpaths⟩
  · exact fun _ _ _ => optionFields_congr

/-- The data of a request for frames settles. Its keys are written only where they were given. -/
theorem settled_framesRequest :
    Settled framesRequest FramesRequest.fields (FrameRange.names ++ ["keys"])
      fun r => r.range.Proper ∧ ∀ keys ∈ r.keys, ∀ key ∈ keys, key ≠ "" := by
  apply @settled_objectOf _ framesFields _ _ _ (by decide)
  · intro r
    rcases r with ⟨range, _ | keys⟩
    · exact List.sublist_append_left FrameRange.names ["keys"]
    · exact List.Sublist.refl _
  · intro path read r h hwritten
    obtain ⟨hrange, hkeys⟩ := framesFields_eq_valid.1 h
    obtain ⟨hwritten, -⟩ := List.forall_mem_append.1 hwritten
    have hread : valueOf? "keys" r.fields = r.keys.map Json.strings := by
      rcases r with ⟨range, _ | keys⟩
      · rfl
      · rfl
    refine framesFields_eq_valid.2 ⟨rangeFields_again hrange [] hwritten, ?_⟩
    show optional (arrayOf nonEmptyText) [.field "keys"] (valueOf? "keys" r.fields) = _
    rw [hread]
    exact (settles_nonEmptyText.arrayOf.optional hkeys _).2
  · intro path read r h
    obtain ⟨hrange, hkeys⟩ := framesFields_eq_valid.1 h
    exact ⟨rangeFields_proper hrange, (settles_nonEmptyText.arrayOf.optional hkeys path).1⟩
  · exact fun _ _ _ => framesFields_congr

/-! ### All documents -/

/-- **Requests are joined field by field, and their data settles.**

* Of every object, a request for views over a range accepts what the request for views and the range
  accept. Its data is theirs, and its issues are those of the first and then those of the second.
* Options join a request for views over a range and their five own fields in the same way.
* Each of the five documents accepts its own data again, with the same outcome. The data has fields of
  the request only, no empty key or path, integers for bounds and finite scales. What is not accepted has
  an issue, and other fields than those of the request make no difference. -/
theorem requests_join_and_settle :
    (∀ fields : List (String × Json), let v := some (Json.object fields)
      Joins ((viewsRequest v).map ViewsRequest.fields) ((viewRequest v).map ViewRequest.fields)
        ((frameRange v).map FrameRange.fields) ∧
      Joins ((Command.checkOptions v).map Command.Options.fields)
        ((viewsRequest v).map ViewsRequest.fields) ((switches v).map Command.Switches.fields)) ∧
    Settled frameRange FrameRange.fields FrameRange.names FrameRange.Proper ∧
    Settled framesRequest FramesRequest.fields (FrameRange.names ++ ["keys"])
      (fun r => r.range.Proper ∧ ∀ keys ∈ r.keys, ∀ key ∈ keys, key ≠ "") ∧
    Settled viewRequest ViewRequest.fields ViewRequest.names ViewRequest.Proper ∧
    Settled viewsRequest ViewsRequest.fields (ViewRequest.names ++ FrameRange.names)
      (fun r => r.views.Proper ∧ r.range.Proper) ∧
    Settled Command.checkOptions Command.Options.fields
      (ViewRequest.names ++ FrameRange.names ++ Command.Switches.names)
      fun o => o.views.Proper ∧ o.range.Proper ∧ ∀ path ∈ o.paths, path ≠ "" := by
  refine ⟨?_, settled_frameRange, settled_framesRequest, settled_viewRequest, settled_viewsRequest,
    settled_checkOptions⟩
  intro fields v
  constructor
  · apply joins_of_issues
    · simp only [Checked.issues_map]
      exact issues_viewsFields [] _
    · intro data data' hfirst hsecond
      obtain ⟨views, hviews, rfl⟩ := Checked.map_eq_valid.1 hfirst
      obtain ⟨range, hrange, rfl⟩ := Checked.map_eq_valid.1 hsecond
      exact Checked.map_eq_valid.2 ⟨⟨views, range⟩, viewsFields_eq_valid.2 ⟨hviews, hrange⟩, rfl⟩
  · apply joins_of_issues
    · simp only [Checked.issues_map]
      exact issues_optionFields [] _
    · intro data data' hfirst hsecond
      obtain ⟨⟨views, range⟩, hviews, rfl⟩ := Checked.map_eq_valid.1 hfirst
      obtain ⟨⟨printKeys, json, serve, help, paths⟩, hswitches, rfl⟩ :=
        Checked.map_eq_valid.1 hsecond
      exact Checked.map_eq_valid.2 ⟨⟨views, range, printKeys, json, serve, help, paths⟩,
        optionFields_eq_valid_iff.2 ⟨hviews, hswitches⟩, rfl⟩

/-- Fields are looked at in the order of the request, not in that of the document. -/
example : (viewsRequest (some (.object [("endFrame", .number 0.5), ("hist", .null)]))).issues =
    [⟨[.field "hist"], .wrongKind .array .null⟩, ⟨[.field "endFrame"], .notInteger⟩] := by
  decide +kernel

end Check

end Framewise
