import Framewise.Command.Options
import Framewise.Proofs.Check.Resubmission

/-!
# What checks accept

A check of a document that was written from a value accepts it if the value passes a test, and then
it gives what the value stands for. `Accepts` says so with the test and the result apart from the
check, which says what is wrong and where.

* `accepts_nonEmptyText`, `accepts_boolean`, `accepts_integer`, `accepts_finite`,
  `accepts_aggregation`: single values.
* `Accepts.arrayOf`, `accepts_ratio`, `accepts_window`, `accepts_plot`: lists and tuples.
* `viewFields_eq_valid`, `rangeFields_eq_valid`, `optionFields_eq_valid`: objects.
-/

namespace Framewise

namespace Check

variable {α β γ : Type}

/-- A check accepts what `write` makes of the values that pass the test `good`, and gives `made` of
them. -/
def Accepts (check : Checker β) (write : α → Json) (good : α → Prop) (made : α → β) : Prop :=
  ∀ path a b, check path (some (write a)) = .valid b ↔ good a ∧ made a = b

/-! ### Single values -/

/-- A text is accepted if it is not empty. -/
theorem accepts_nonEmptyText : Accepts nonEmptyText .string (· ≠ "") id := by
  intro path s t
  show (if s = "" then fail path .emptyText else .valid s) = _ ↔ _
  by_cases hs : s = ""
  · simp [hs, fail_ne_valid]
  · simp [hs]

theorem accepts_boolean : Accepts boolean .bool (fun _ => True) id := by
  intro path b c
  show Checked.valid b = .valid c ↔ _
  simp

/-- A number is accepted if it passes the test. NaN is refused before that, so it must not pass. -/
theorem accepts_numberWith {test : Float → Bool} (problem : Problem)
    (hNaN : ∀ x, test x = true → x.isNaN = false) :
    Accepts (numberWith test problem) .number (fun x => test x = true) id := by
  intro path x y
  show (if x.isNaN then reject .number path _ else if test x then .valid x else fail path problem) =
    .valid y ↔ _
  cases hx : test x with
  | true =>
    rw [hNaN x hx, if_neg Bool.false_ne_true, if_pos rfl, Checked.valid.injEq]
    exact ⟨fun h => ⟨hx, h⟩, fun h => h.2⟩
  | false =>
    constructor
    · intro h
      split at h
      · exact absurd h reject_ne_valid
      · exact absurd h fail_ne_valid
    · rintro ⟨h, -⟩
      exact absurd (hx.symm.trans h) Bool.false_ne_true

theorem accepts_integer : Accepts integer .number (fun x => Number.isInteger x = true) id :=
  accepts_numberWith _ fun _ h => Number.isNaN_of_isFinite (isFinite_of_isInteger h)

theorem accepts_finite : Accepts finite .number (fun x => x.isFinite = true) id :=
  accepts_numberWith _ fun _ h => Number.isNaN_of_isFinite h

/-- The aggregation that a text names. -/
def aggregationOf (name : String) : Aggregation :=
  (Aggregation.ofName? name).getD .mean

/-- The name of an aggregation is accepted, and gives the aggregation. -/
theorem accepts_aggregation :
    Accepts aggregation .string (· ∈ aggregationNames) aggregationOf := by
  intro path name a
  show (if name ∈ aggregationNames then Checked.valid name else fail path _).map aggregationOf =
    .valid a ↔ _
  by_cases h : name ∈ aggregationNames
  · simp [h, Checked.map]
  · simp [h, Checked.map_eq_valid, fail_ne_valid]

/-! ### Lists and tuples -/

/-- A list of checked values is valid if each of them is. -/
theorem sequence_eq_valid {cs : List (Checked α)} {as : List α} :
    Checked.sequence cs = .valid as ↔ cs = as.map .valid := by
  induction cs generalizing as with
  | nil =>
    rw [Checked.sequence, Checked.valid.injEq, eq_comm, eq_comm (a := []), List.map_eq_nil_iff]
  | cons c cs ih =>
    rw [Checked.sequence, Checked.map_ap_eq_valid]
    constructor
    · rintro ⟨a, rest, rfl, hrest, rfl⟩
      rw [ih.1 hrest, List.map_cons]
    · intro h
      obtain ⟨a, rest, rfl, ha, hrest⟩ := List.map_eq_cons_iff.1 h.symm
      exact ⟨a, rest, ha.symm, ih.2 hrest.symm, rfl⟩

section Parts

variable {check : Checker β} {write : α → Json} {good : α → Prop} {made : α → β}
  (h : Accepts check write good made)

include h

/-- Each item of a list has to pass, wherever the list and its items are. -/
theorem Accepts.arrayOf : Accepts (arrayOf check) (fun as => .array (as.map write))
    (fun as => ∀ a ∈ as, good a) (List.map made) := by
  intro path as bs
  show Checked.sequence (((as.map write).zipIdx 0).map fun item =>
    check (path ++ [.item item.2]) (some item.1)) = _ ↔ _
  -- The number of an item is used for the path of its issues only, so it may start anywhere.
  generalize 0 = k
  rw [sequence_eq_valid]
  simp only
  induction as generalizing bs k with
  | nil =>
    cases bs with
    | nil => simp
    | cons b bs => simp
  | cons a as ih =>
    rw [List.map_cons, List.zipIdx_cons, List.map_cons, List.map_cons, List.forall_mem_cons]
    constructor
    · intro heq
      obtain ⟨b, rest, rfl, hb, hrest⟩ := List.map_eq_cons_iff.1 heq.symm
      obtain ⟨ha, rfl⟩ := (h _ a b).1 hb.symm
      obtain ⟨has, rfl⟩ := (ih rest (k + 1)).1 hrest.symm
      exact ⟨⟨ha, has⟩, rfl⟩
    · rintro ⟨⟨ha, has⟩, rfl⟩
      rw [List.map_cons, (ih _ (k + 1)).2 ⟨has, rfl⟩]
      exact congrArg (· :: _) ((h _ a _).2 ⟨ha, rfl⟩)

/-- A default changes nothing where the part is there. -/
theorem Accepts.orElse (dflt : β) : Accepts (orElse dflt check) write good made := by
  intro path a b
  exact h path a b

/-- A part that may be absent has to pass only if it is there. -/
theorem Accepts.orElse_map {dflt : β} {path : Path} {a? : Option α} {b : β} :
    Check.orElse dflt check path (a?.map write) = .valid b ↔
      (∀ a ∈ a?, good a) ∧ (a?.map made).getD dflt = b := by
  cases a? with
  | none =>
    show Checked.valid dflt = .valid b ↔ _
    simp
  | some a =>
    show check path (some (write a)) = .valid b ↔ _
    rw [h path a b]
    simp

/-- Both parts of a pair have to pass. -/
theorem Accepts.map_ap {α' β' : Type} {check' : Checker β'} {write' : α' → Json}
    {good' : α' → Prop} {made' : α' → β'} (h' : Accepts check' write' good' made') {f : β → β' → γ}
    {path path' : Path} {a : α} {a' : α'} {c : γ} :
    ((check path (some (write a))).map f).ap (check' path' (some (write' a'))) = .valid c ↔
      (good a ∧ good' a') ∧ f (made a) (made' a') = c := by
  rw [Checked.map_ap_eq_valid]
  constructor
  · rintro ⟨b, b', hb, hb', rfl⟩
    obtain ⟨hgood, rfl⟩ := (h _ _ _).1 hb
    obtain ⟨hgood', rfl⟩ := (h' _ _ _).1 hb'
    exact ⟨⟨hgood, hgood'⟩, rfl⟩
  · rintro ⟨⟨hgood, hgood'⟩, rfl⟩
    exact ⟨_, _, (h _ _ _).2 ⟨hgood, rfl⟩, (h' _ _ _).2 ⟨hgood', rfl⟩, rfl⟩

end Parts

theorem accepts_keyList : Accepts keyList Json.strings (fun keys => ∀ key ∈ keys, key ≠ "") id := by
  have h := (accepts_nonEmptyText.arrayOf).orElse []
  rwa [List.map_id_fun] at h

theorem accepts_flag : Accepts flag .bool (fun _ => True) id := accepts_boolean.orElse false

/-- A ratio is a pair of keys, neither of them empty. -/
theorem accepts_ratio : Accepts ratio (fun p : String × String => Json.strings [p.1, p.2])
    (fun p => p.1 ≠ "" ∧ p.2 ≠ "") fun p => ⟨p.1, p.2⟩ := by
  intro path p r
  show ((nonEmptyText _ (some (.string p.1))).map RatioRequest.mk).ap
    (nonEmptyText _ (some (.string p.2))) = _ ↔ _
  exact accepts_nonEmptyText.map_ap accepts_nonEmptyText

theorem accepts_window :
    Accepts window (fun p : String × Float => .array [.string p.1, .number p.2])
      (fun p => p.1 ≠ "" ∧ p.2.isFinite = true) fun p => ⟨p.1, p.2⟩ := by
  intro path p w
  show ((nonEmptyText _ (some (.string p.1))).map WindowRequest.mk).ap
    (finite _ (some (.number p.2))) = _ ↔ _
  exact accepts_nonEmptyText.map_ap accepts_finite

/-- A plot is a pair of keys, neither of them empty, and the name of an aggregation. -/
theorem accepts_plot :
    Accepts plot (fun p : String × String × String => Json.strings [p.1, p.2.1, p.2.2])
      (fun p => p.1 ≠ "" ∧ p.2.1 ≠ "" ∧ p.2.2 ∈ aggregationNames)
      fun p => ⟨p.1, p.2.1, aggregationOf p.2.2⟩ := by
  intro path p r
  show (((nonEmptyText _ (some (.string p.1))).map PlotRequest.mk).ap
    (nonEmptyText _ (some (.string p.2.1)))).ap (aggregation _ (some (.string p.2.2))) = _ ↔ _
  rw [Checked.ap_eq_valid]
  constructor
  · rintro ⟨g, c, hg, hc, rfl⟩
    obtain ⟨⟨hx, hy⟩, rfl⟩ := (accepts_nonEmptyText.map_ap accepts_nonEmptyText).1 hg
    obtain ⟨hname, rfl⟩ := (accepts_aggregation _ _ _).1 hc
    exact ⟨⟨hx, hy, hname⟩, rfl⟩
  · rintro ⟨⟨hx, hy, hname⟩, rfl⟩
    exact ⟨_, _, (accepts_nonEmptyText.map_ap accepts_nonEmptyText).2 ⟨⟨hx, hy⟩, rfl⟩,
      (accepts_aggregation _ _ _).2 ⟨hname, rfl⟩, rfl⟩

/-! ### Objects -/

section Objects

variable {path : Path} {fields : Fields}

/-- An object is accepted if all of its fields are. -/
theorem viewFields_eq_valid {r : ViewRequest} : viewFields path fields = .valid r ↔
    field path fields "timeseries" keyList = .valid r.timeseries ∧
    field path fields "timeseriesSum" flag = .valid r.timeseriesSum ∧
    field path fields "cumulativeTimeseries" keyList = .valid r.cumulativeTimeseries ∧
    field path fields "cumulativeTimeseriesSum" flag = .valid r.cumulativeTimeseriesSum ∧
    field path fields "hist" keyList = .valid r.hist ∧
    field path fields "histRatio" (orElse [] (arrayOf ratio)) = .valid r.histRatio ∧
    field path fields "stdevHist" (orElse [] (arrayOf window)) = .valid r.stdevHist ∧
    field path fields "plot" (orElse [] (arrayOf plot)) = .valid r.plot ∧
    field path fields "stats" keyList = .valid r.stats ∧
    field path fields "statsSum" flag = .valid r.statsSum := by
  unfold viewFields
  simp only [Checked.ap_eq_valid, Checked.map_eq_valid]
  constructor
  · rintro ⟨_, _, ⟨_, _, ⟨_, _, ⟨_, _, ⟨_, _, ⟨_, _, ⟨_, _, ⟨_, _, ⟨_, _, ⟨_, h₁, rfl⟩, h₂, rfl⟩,
      h₃, rfl⟩, h₄, rfl⟩, h₅, rfl⟩, h₆, rfl⟩, h₇, rfl⟩, h₈, rfl⟩, h₉, rfl⟩, h₁₀, rfl⟩
    exact ⟨h₁, h₂, h₃, h₄, h₅, h₆, h₇, h₈, h₉, h₁₀⟩
  · rintro ⟨h₁, h₂, h₃, h₄, h₅, h₆, h₇, h₈, h₉, h₁₀⟩
    exact ⟨_, _, ⟨_, _, ⟨_, _, ⟨_, _, ⟨_, _, ⟨_, _, ⟨_, _, ⟨_, _, ⟨_, _, ⟨_, h₁, rfl⟩, h₂, rfl⟩,
      h₃, rfl⟩, h₄, rfl⟩, h₅, rfl⟩, h₆, rfl⟩, h₇, rfl⟩, h₈, rfl⟩, h₉, rfl⟩, h₁₀, rfl⟩

theorem rangeFields_eq_valid {r : FrameRange} : rangeFields path fields = .valid r ↔
    field path fields "beginFrame" (orElse ({} : FrameRange).start integer) = .valid r.start ∧
    field path fields "endFrame" (orElse ({} : FrameRange).stop integer) = .valid r.stop := by
  unfold rangeFields
  rw [Checked.map_ap_eq_valid]
  constructor
  · rintro ⟨_, _, h₁, h₂, rfl⟩
    exact ⟨h₁, h₂⟩
  · rintro ⟨h₁, h₂⟩
    exact ⟨_, _, h₁, h₂, rfl⟩

/-- Options are accepted if all of their fields are, those of the views and of the range included.
-/
theorem optionFields_eq_valid {o : Command.Options} :
    Command.optionFields path fields = .valid o ↔
      viewFields path fields = .valid o.views ∧ rangeFields path fields = .valid o.range ∧
      field path fields "printKeys" flag = .valid o.printKeys ∧
      field path fields "json" flag = .valid o.json ∧
      field path fields "serve" flag = .valid o.serve ∧
      field path fields "help" flag = .valid o.help ∧
      field path fields "paths" (orElse [] (arrayOf nonEmptyText)) = .valid o.paths := by
  unfold Command.optionFields viewsFields
  simp only [Checked.ap_eq_valid, Checked.map_eq_valid]
  constructor
  · rintro ⟨_, _, ⟨_, _, ⟨_, _, ⟨_, _, ⟨_, _, ⟨_, ⟨_, _, ⟨_, h₁, rfl⟩, h₂, rfl⟩, rfl⟩, h₃, rfl⟩,
      h₄, rfl⟩, h₅, rfl⟩, h₆, rfl⟩, h₇, rfl⟩
    exact ⟨h₁, h₂, h₃, h₄, h₅, h₆, h₇⟩
  · rintro ⟨h₁, h₂, h₃, h₄, h₅, h₆, h₇⟩
    exact ⟨_, _, ⟨_, _, ⟨_, _, ⟨_, _, ⟨_, _, ⟨_, ⟨_, _, ⟨_, h₁, rfl⟩, h₂, rfl⟩, rfl⟩, h₃, rfl⟩,
      h₄, rfl⟩, h₅, rfl⟩, h₆, rfl⟩, h₇, rfl⟩

end Objects

end Check

end Framewise
