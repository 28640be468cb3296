import Framewise.Check.Requests
import Framewise.Proofs.Json.RoundTrip

/-!
# Accepted requests are accepted again

A request that a check has accepted can be written as a document, sent as text and checked again.
The second check accepts it too, and gives the same request up to the sign of zero.

* `Stable`: a check accepts again what it has accepted.
* `viewsRequest_document`: a request for views that was accepted, alone or among other fields, is
  accepted as a document of its own.
-/

namespace Framewise

open Number

/-! ### Requests without the sign of zero -/

/-- A window with its scale as text gives it. -/
def WindowRequest.unsigned (w : WindowRequest) : WindowRequest :=
  { w with scale := unsignZero w.scale }

/-- A view request with its numbers as text gives them. -/
def ViewRequest.unsigned (r : ViewRequest) : ViewRequest :=
  { r with stdevHist := r.stdevHist.map WindowRequest.unsigned }

/-- A range with its bounds as text gives them. -/
def FrameRange.unsigned (r : FrameRange) : FrameRange :=
  ⟨unsignZero r.start, unsignZero r.stop⟩

/-- A request with its numbers as text gives them. -/
def ViewsRequest.unsigned (r : ViewsRequest) : ViewsRequest :=
  ⟨r.views.unsigned, r.range.unsigned⟩

namespace Check

variable {α β γ : Type}

/-! ### Values that pass -/

theorem Checked.map_eq_valid {f : α → β} {c : Checked α} {b : β} :
    c.map f = .valid b ↔ ∃ a, c = .valid a ∧ f a = b := by
  cases c with
  | valid a => simp [Checked.map]
  | invalid first more => simp [Checked.map]

/-- An application is valid if the function and its argument both are. -/
theorem Checked.ap_eq_valid {f : Checked (α → β)} {c : Checked α} {b : β} :
    f.ap c = .valid b ↔ ∃ g a, f = .valid g ∧ c = .valid a ∧ g a = b := by
  cases f with
  | valid g =>
    cases c with
    | valid a => simp [Checked.ap]
    | invalid first more => simp [Checked.ap]
  | invalid first more =>
    cases c with
    | valid a => simp [Checked.ap]
    | invalid first' more' => simp [Checked.ap]

/-- Two parts that are put together are valid if both are. -/
theorem Checked.map_ap_eq_valid {f : α → β → γ} {c : Checked α} {d : Checked β} {r : γ} :
    (c.map f).ap d = .valid r ↔ ∃ a b, c = .valid a ∧ d = .valid b ∧ f a b = r := by
  rw [ap_eq_valid]
  constructor
  · rintro ⟨g, b, hg, hb, rfl⟩
    obtain ⟨a, ha, rfl⟩ := map_eq_valid.1 hg
    exact ⟨a, b, ha, hb, rfl⟩
  · rintro ⟨a, b, ha, hb, rfl⟩
    exact ⟨f a, b, map_eq_valid.2 ⟨a, ha, rfl⟩, hb, rfl⟩

theorem fail_ne_valid {path : Path} {problem : Problem} {a : α} :
    fail path problem ≠ .valid a := by
  unfold fail
  simp

theorem reject_ne_valid {kind : Kind} {path : Path} {v : Option Json} {a : α} :
    reject kind path v ≠ .valid a := by
  cases v with
  | none => exact fail_ne_valid
  | some v => exact fail_ne_valid

/-- A check accepts again what it has accepted, when it comes as text. Then it is `seen a` in place
of `a`. -/
def Stable (check : Checker α) (write : α → Json) (seen : α → α) : Prop :=
  ∀ path v a, check path v = .valid a →
    ∀ path', check path' (some (write a).readBack) = .valid (seen a)

/-- The check of a text lets no empty text through. -/
theorem ne_empty_of_nonEmptyText {path : Path} {v : Option Json} {s : String}
    (h : nonEmptyText path v = .valid s) : s ≠ "" := by
  unfold nonEmptyText at h
  split at h
  · split at h
    · exact absurd h fail_ne_valid
    · next hne =>
      obtain rfl := Checked.valid.inj h
      exact hne
  · exact absurd h reject_ne_valid

theorem stable_nonEmptyText : Stable nonEmptyText .string id := by
  intro path v s h path'
  exact if_neg (ne_empty_of_nonEmptyText h)

theorem stable_boolean : Stable boolean .bool id := by
  intro path v b h path'
  rfl

/-- Integers are finite. -/
theorem isFinite_of_isInteger {x : Float} (h : isInteger x = true) : x.isFinite = true := by
  unfold isInteger at h
  rw [read_eq] at h
  show (unpack x).isFinite = true
  generalize unpack x = u at h
  cases u with
  | notANumber => exact absurd h Bool.false_ne_true
  | infinity s => exact absurd h Bool.false_ne_true
  | zero s => rfl
  | finite s m e hm => rfl

/-- A number that a check accepts passes its test. -/
theorem test_of_numberWith {test : Float → Bool} {problem : Problem} {path : Path}
    {v : Option Json} {x : Float} (h : numberWith test problem path v = .valid x) :
    test x = true := by
  unfold numberWith at h
  split at h
  · split at h
    · exact absurd h reject_ne_valid
    · split at h
      · next hpass =>
        obtain rfl := Checked.valid.inj h
        exact hpass
      · exact absurd h fail_ne_valid
  · exact absurd h reject_ne_valid

/-- A check of numbers is stable if its test lets finite numbers through only, and does not look at
the sign of zero. -/
theorem stable_numberWith {test : Float → Bool} (problem : Problem)
    (hfinite : ∀ x, test x = true → x.isFinite = true)
    (hzero : ∀ x, test (unsignZero x) = test x) :
    Stable (numberWith test problem) .number unsignZero := by
  intro path v x h path'
  have hx : test x = true := test_of_numberWith h
  have hfin : (unsignZero x).isFinite = true := hfinite _ ((hzero x).trans hx)
  rw [Json.readBack, if_pos (hfinite x hx)]
  unfold numberWith
  simp only [isNaN_of_isFinite hfin, hzero, hx, Bool.false_eq_true, if_false, if_true]

theorem stable_integer : Stable integer .number unsignZero :=
  stable_numberWith _ (fun _ => isFinite_of_isInteger) fun x => (agree_unsignZero x).isInteger_eq

theorem stable_finite : Stable finite .number unsignZero :=
  stable_numberWith _ (fun _ h => h) fun x => (agree_unsignZero x).isFinite_eq

theorem stable_aggregation : Stable aggregation (fun a => .string a.name) id := by
  intro path v a h path'
  cases a with
  | mean => rfl
  | median => rfl

/-! ### Parts -/

section Parts

variable {check : Checker α} {write : α → Json} {seen : α → α}

/-- A default that passes the check itself may stand for an absent part. -/
theorem Stable.orElse (h : Stable check write seen) {dflt : α}
    (hdflt : ∀ path, check path (some (write dflt).readBack) = .valid (seen dflt)) :
    Stable (orElse dflt check) write seen := by
  intro path v a ha path'
  cases v with
  | none =>
    obtain rfl := Checked.valid.inj ha
    exact hdflt path'
  | some v => exact h path (some v) a ha path'

/-- The items of a list are accepted again one by one, wherever the list stands. -/
theorem sequence_stable (h : Stable check write seen) (path path' : Path) {vs : List Json}
    {as : List α} {k k' : ℕ}
    (has : Checked.sequence ((vs.zipIdx k).map fun (v, i) => check (path ++ [.item i]) (some v)) =
      .valid as) :
    Checked.sequence (((as.map fun a => (write a).readBack).zipIdx k').map fun (v, i) =>
      check (path' ++ [.item i]) (some v)) = .valid (as.map seen) := by
  induction vs generalizing as k k' with
  | nil =>
    obtain rfl := Checked.valid.inj has
    rfl
  | cons v vs ih =>
    rw [List.zipIdx_cons, List.map_cons, Checked.sequence, Checked.map_ap_eq_valid] at has
    obtain ⟨a, as', ha, has', rfl⟩ := has
    have hfirst := h _ _ _ ha (path' ++ [.item k'])
    rw [List.map_cons, List.zipIdx_cons, List.map_cons, Checked.sequence, ih has']
    show ((check (path' ++ [.item k']) (some (write a).readBack)).map _).ap _ = _
    rw [hfirst]
    rfl

/-- A list is accepted again if its items are. -/
theorem Stable.arrayOf (h : Stable check write seen) :
    Stable (arrayOf check) (fun as => .array (as.map write)) (List.map seen) := by
  intro path v as has path'
  unfold Check.arrayOf at has
  split at has
  · show Checked.sequence (((Json.readItems (as.map write)).zipIdx 0).map _) = _
    rw [Json.readItems_map]
    exact sequence_stable h _ path' has
  · exact absurd has reject_ne_valid

end Parts

theorem stable_keyList : Stable keyList Json.strings id := by
  have h : Stable keyList Json.strings (List.map id) :=
    Stable.orElse (Stable.arrayOf stable_nonEmptyText) fun _ => rfl
  rwa [List.map_id_fun] at h

theorem stable_flag : Stable flag .bool id := stable_boolean.orElse fun _ => rfl

/-- What a tuple that passes consists of. -/
theorem tupleOf_eq_valid {length : ℕ} {check : Path → (ℕ → Option Json) → Checked α} {path : Path}
    {v : Option Json} {a : α} (h : tupleOf length check path v = .valid a) :
    ∃ item, check path item = .valid a := by
  unfold tupleOf at h
  split at h
  · next vs =>
    split at h
    · exact absurd h fail_ne_valid
    · simp only at h
      split at h
      · cases hc : check path fun i => vs[i]? with
        | valid a' =>
          rw [hc] at h
          exact absurd h (by simp [Checked.withIssue])
        | invalid first more =>
          rw [hc] at h
          exact absurd h (by simp [Checked.withIssue])
      · exact ⟨_, h⟩
  · exact absurd h reject_ne_valid

theorem stable_ratio : Stable ratio (fun p => Json.strings [p.numerator, p.denominator]) id := by
  intro path v p h path'
  obtain ⟨item, h⟩ := tupleOf_eq_valid h
  obtain ⟨a, b, ha, hb, rfl⟩ := Checked.map_ap_eq_valid.1 h
  show ((nonEmptyText (path' ++ [.item 0]) (some (Json.string a).readBack)).map _).ap
    (nonEmptyText (path' ++ [.item 1]) (some (Json.string b).readBack)) = _
  rw [stable_nonEmptyText _ _ _ ha, stable_nonEmptyText _ _ _ hb]
  rfl

/-- A window comes back without the sign of a zero scale. -/
theorem stable_window :
    Stable window (fun w => .array [.string w.key, .number w.scale]) WindowRequest.unsigned := by
  intro path v p h path'
  obtain ⟨item, h⟩ := tupleOf_eq_valid h
  obtain ⟨a, b, ha, hb, rfl⟩ := Checked.map_ap_eq_valid.1 h
  show ((nonEmptyText (path' ++ [.item 0]) (some (Json.string a).readBack)).map _).ap
    (finite (path' ++ [.item 1]) (some (Json.number b).readBack)) = _
  rw [stable_nonEmptyText _ _ _ ha, stable_finite _ _ _ hb]
  rfl

theorem stable_plot : Stable plot (fun p => Json.strings [p.x, p.y, p.aggregation.name]) id := by
  intro path v p h path'
  obtain ⟨item, h⟩ := tupleOf_eq_valid h
  obtain ⟨g, c, hg, hc, rfl⟩ := Checked.ap_eq_valid.1 h
  obtain ⟨a, b, ha, hb, rfl⟩ := Checked.map_ap_eq_valid.1 hg
  show (((nonEmptyText (path' ++ [.item 0]) (some (Json.string a).readBack)).map _).ap
    (nonEmptyText (path' ++ [.item 1]) (some (Json.string b).readBack))).ap
    (aggregation (path' ++ [.item 2]) (some (Json.string c.name).readBack)) = _
  rw [stable_nonEmptyText _ _ _ ha, stable_nonEmptyText _ _ _ hb, stable_aggregation _ _ _ hc]
  rfl

end Check

/-! ### Requests -/

/-- A request for views as a document. -/
def ViewsRequest.document (r : ViewsRequest) : Json :=
  .object (r.views.fields ++ r.range.fields)

namespace Check

/-- What is read from the text of a request for views. -/
theorem readBack_document (r : ViewsRequest) : r.document.readBack =
    .object ((r.views.fields ++ r.range.fields).map fun f => (f.1, f.2.readBack)) := by
  have hnames : (r.views.fields ++ r.range.fields).map Prod.fst =
      ["timeseries", "timeseriesSum", "cumulativeTimeseries", "cumulativeTimeseriesSum", "hist",
        "histRatio", "stdevHist", "plot", "stats", "statsSum", "beginFrame", "endFrame"] := rfl
  unfold ViewsRequest.document
  rw [Json.readBack, Json.readFields_of_nodup]
  · rfl
  · rw [List.map_nil, List.nil_append, hnames]
    decide

/-- A bound with a default that is an integer. -/
theorem stable_bound {dflt : Float} (h : integer [] (some (.number dflt)) = .valid dflt) :
    Stable (orElse dflt integer) .number unsignZero :=
  stable_integer.orElse (stable_integer [] _ dflt h)

/-- A field that was accepted is accepted as it is written. -/
theorem Stable.field {check : Checker α} {write : α → Json} {seen : α → α}
    (hcheck : Stable check write seen) {path : Path} {fields fields' : Fields} {name : String} {a : α}
    (h : field path fields name check = .valid a) (path' : Path)
    (hfield : fields' name = some (write a).readBack) :
    field path' fields' name check = .valid (seen a) := by
  unfold Check.field
  rw [hfield]
  exact hcheck _ _ _ h _

/-- The fields of a document that are read as those of the request `r`. -/
structure Holds (fields : Fields) (r : ViewsRequest) : Prop where
  timeseries : fields "timeseries" = some (Json.strings r.views.timeseries).readBack
  timeseriesSum : fields "timeseriesSum" = some (Json.bool r.views.timeseriesSum).readBack
  cumulativeTimeseries : fields "cumulativeTimeseries" =
    some (Json.strings r.views.cumulativeTimeseries).readBack
  cumulativeTimeseriesSum : fields "cumulativeTimeseriesSum" =
    some (Json.bool r.views.cumulativeTimeseriesSum).readBack
  hist : fields "hist" = some (Json.strings r.views.hist).readBack
  histRatio : fields "histRatio" = some (Json.array (r.views.histRatio.map fun p =>
    Json.strings [p.numerator, p.denominator])).readBack
  stdevHist : fields "stdevHist" = some (Json.array (r.views.stdevHist.map fun w =>
    .array [.string w.key, .number w.scale])).readBack
  plot : fields "plot" = some (Json.array (r.views.plot.map fun p =>
    Json.strings [p.x, p.y, p.aggregation.name])).readBack
  stats : fields "stats" = some (Json.strings r.views.stats).readBack
  statsSum : fields "statsSum" = some (Json.bool r.views.statsSum).readBack
  start : fields "beginFrame" = some (Json.number r.range.start).readBack
  stop : fields "endFrame" = some (Json.number r.range.stop).readBack

/-- The document of a request holds it, once it is read from text. -/
theorem holds_document (r : ViewsRequest) :
    Holds (fun name => valueOf? name
      ((r.views.fields ++ r.range.fields).map fun f => (f.1, f.2.readBack))) r := by
  constructor <;> rfl

/-- An accepted range is accepted again from what is read of it. -/
theorem rangeFields_stable {path : Path} {fields fields' : Fields} {r : ViewsRequest}
    (h : rangeFields path fields = .valid r.range) (path' : Path) (hfields : Holds fields' r) :
    rangeFields path' fields' = .valid r.range.unsigned := by
  obtain ⟨views, range⟩ := r
  obtain ⟨start, stop, hstart, hstop, rfl⟩ := Checked.map_ap_eq_valid.1 h
  have hstart' := (stable_bound (by decide +kernel)).field hstart path' hfields.start
  have hstop' := (stable_bound (by decide +kernel)).field hstop path' hfields.stop
  unfold rangeFields
  rw [hstart', hstop']
  rfl

/-- An accepted view request is accepted again from what is read of it, field by field. -/
theorem viewFields_stable {path : Path} {fields fields' : Fields} {r : ViewsRequest}
    (h : viewFields path fields = .valid r.views) (path' : Path) (hfields : Holds fields' r) :
    viewFields path' fields' = .valid r.views.unsigned := by
  obtain ⟨views, range⟩ := r
  unfold viewFields at h
  simp only [Checked.ap_eq_valid, Checked.map_eq_valid] at h
  obtain ⟨_, statsSum, ⟨_, stats, ⟨_, plot, ⟨_, stdevHist, ⟨_, histRatio, ⟨_, hist,
    ⟨_, cumulativeSum, ⟨_, cumulative, ⟨_, timeseriesSum, ⟨timeseries, h₁, rfl⟩, h₂, rfl⟩, h₃,
    rfl⟩, h₄, rfl⟩, h₅, rfl⟩, h₆, rfl⟩, h₇, rfl⟩, h₈, rfl⟩, h₉, rfl⟩, h₁₀, rfl⟩ := h
  have h₁' := stable_keyList.field h₁ path' hfields.timeseries
  have h₂' := stable_flag.field h₂ path' hfields.timeseriesSum
  have h₃' := stable_keyList.field h₃ path' hfields.cumulativeTimeseries
  have h₄' := stable_flag.field h₄ path' hfields.cumulativeTimeseriesSum
  have h₅' := stable_keyList.field h₅ path' hfields.hist
  have h₆' := (stable_ratio.arrayOf.orElse fun _ => rfl).field h₆ path' hfields.histRatio
  have h₇' := (stable_window.arrayOf.orElse fun _ => rfl).field h₇ path' hfields.stdevHist
  have h₈' := (stable_plot.arrayOf.orElse fun _ => rfl).field h₈ path' hfields.plot
  have h₉' := stable_keyList.field h₉ path' hfields.stats
  have h₁₀' := stable_flag.field h₁₀ path' hfields.statsSum
  unfold viewFields
  simp only [h₁', h₂', h₃', h₄', h₅', h₆', h₇', h₈', h₉', h₁₀', List.map_id]
  rfl

/-- **A request for views that was accepted is accepted as a document of its own.** -/
theorem viewsRequest_document {path : Path} {fields : Fields} {r : ViewsRequest}
    (h : viewsFields path fields = .valid r) :
    viewsRequest (some r.document.readBack) = .valid r.unsigned := by
  rw [readBack_document]
  obtain ⟨views, range, hviews, hrange, rfl⟩ := Checked.map_ap_eq_valid.1 h
  have hholds := holds_document ⟨views, range⟩
  show ((viewFields [] _).map ViewsRequest.mk).ap (rangeFields [] _) = _
  rw [viewFields_stable hviews [] hholds, rangeFields_stable hrange [] hholds]
  rfl

end Check

end Framewise
