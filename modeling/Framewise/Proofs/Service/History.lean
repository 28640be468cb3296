import Framewise.Proofs.OrderedMap
import Framewise.Service.Answer

/-!
# What a history of requests does to the store

Of all requests only an upload that succeeds changes the store, and it does so once: it inserts
the records of its log under its name.

* `respond_cases`: the two things that one request can do.
* `serve_snd`: by induction, the store after a history holds the initial logs updated by the
  uploads that succeeded, in order.
* `serve_skip`: a request that does not succeed as an upload can be left out of a history.
* `serve_refines_uploads`: both, and what the answers to successful uploads say.
-/

namespace Framewise.Service

/-! ### Uploads of a history -/

/-- The log that a request uploads, if its body holds one that can be read. -/
def Request.uploaded? (r : Request) : Option (String × List Record) :=
  match Upload.ofBody r.body with
  | .ok (some upload) =>
    match Log.loadText upload.name upload.text with
    | .ok log => some (upload.name, log.records)
    | .error _ => none
  | _ => none

/-- An upload that was answered with success. -/
def Succeeded (r : Request) (a : Answer) : Prop :=
  r.method = .post ∧ Route.ofPath? r.path = some .upload ∧ a.status = 200

instance (r : Request) (a : Answer) : Decidable (Succeeded r a) :=
  inferInstanceAs (Decidable (_ ∧ _ ∧ _))

/-- The uploads that succeeded, in order. -/
def uploads (requests : List Request) (answers : List Answer) : List (String × List Record) :=
  (requests.zip answers).filterMap fun (r, a) => if Succeeded r a then r.uploaded? else none

/-- Insert logs, in order. -/
def insertAll (store : Store) (logs : List (String × List Record)) : Store :=
  logs.foldl (fun s log => s.insert log.1 log.2) store

/-- The number of frames of a log, as answers give it. -/
def frameCount (records : List Record) : Json :=
  (Json.ofNat records.length).nameNonFinite

/-- What the answer to a successful upload says. -/
def uploadDocument (name : String) (records : List Record) (replaced : Bool) : Json :=
  .object [("success", .bool true), ("name", .string name), ("frameCount", frameCount records),
    ("replaced", .bool replaced)]

/-! ### One request -/

theorem Refusal.status_ne_ok (r : Refusal) : r.status ≠ 200 := by
  cases r with
  | malformed => decide
  | tooLarge => decide
  | tooManyParameters => decide
  | charset name => simp [status]

/-- An upload that can be read is inserted and answered with its document; any other leaves the
store as it was and is answered with an error. -/
theorem uploadReply_cases (store : Store) (r : Request) :
    (∃ name records note, r.uploaded? = some (name, records) ∧
      (uploadReply store r.body).1.status = 200 ∧
      (uploadReply store r.body).1.document.map Json.nameNonFinite =
        some (uploadDocument name records (store.contains name)) ∧
      (uploadReply store r.body).2 = (store.insert name records, note)) ∨
    ((uploadReply store r.body).1.status ≠ 200 ∧ (uploadReply store r.body).2.1 = store) := by
  unfold uploadReply Request.uploaded?
  cases Upload.ofBody r.body with
  | error e =>
    right
    exact ⟨by simp [Reply.error], rfl⟩
  | ok found =>
    cases found with
    | none =>
      right
      exact ⟨by simp [Reply.error], rfl⟩
    | some upload =>
      simp only [Upload.load]
      cases Log.loadText upload.name upload.text with
      | error e =>
        right
        exact ⟨by simp [Reply.error], rfl⟩
      | ok log =>
        left
        exact ⟨upload.name, log.records, _, rfl, rfl, rfl, rfl⟩

theorem reply_upload (store : Store) {r : Request} (document : Json) (hmethod : r.method = .post)
    (hroute : Route.ofPath? r.path = some .upload) :
    reply store r document = uploadReply store r.body := by
  unfold reply
  rw [hroute, hmethod]
  rfl

/-- No other request changes the store. -/
theorem reply_store (store : Store) {r : Request} (document : Json)
    (h : ¬ (r.method = .post ∧ Route.ofPath? r.path = some .upload)) :
    (reply store r document).2.1 = store := by
  unfold reply
  cases hroute : Route.ofPath? r.path with
  | none => rfl
  | some route =>
    dsimp only
    by_cases hoptions : r.method = .options
    · rw [if_pos hoptions]
    · rw [if_neg hoptions]
      by_cases haccepts : route.accepts r.method = true
      · cases route with
        | upload =>
          have hpost : r.method = .post := by
            cases hmethod : r.method with
            | post => rfl
            | get | head | options | other name =>
              rw [hmethod] at haccepts
              cases haccepts
          exact absurd ⟨hpost, hroute⟩ h
        | sources | keys | frames | views => simp [haccepts]
      · simp [haccepts]

/-- A body that can be read lets its request be replied to. -/
theorem respond_of_read (settings : Settings) (store : Store) {r : Request} {document : Json}
    (h : r.body.read = .ok document) :
    (respond settings store r).1.status = (reply store r document).1.status ∧
    (respond settings store r).1.body = sentBody r.method (reply store r document).1.document ∧
    (respond settings store r).2 = (reply store r document).2.1 := by
  simp only [respond, h, true_and]

/-- **One request.** Either it is an upload that succeeds: its log is inserted, and the answer
says so. Or it is not, and the store stays as it was. -/
theorem respond_cases (settings : Settings) (store : Store) (r : Request) :
    (Succeeded r (respond settings store r).1 ∧ ∃ name records,
      r.uploaded? = some (name, records) ∧
      (respond settings store r).1.body =
        some (uploadDocument name records (store.contains name)) ∧
      (respond settings store r).2 = store.insert name records) ∨
    (¬ Succeeded r (respond settings store r).1 ∧ (respond settings store r).2 = store) := by
  cases hread : r.body.read with
  | error refusal =>
    right
    simp only [respond, hread]
    exact ⟨fun h => refusal.status_ne_ok h.2.2, trivial⟩
  | ok document =>
    obtain ⟨hstatus, hbody, hnext⟩ := respond_of_read settings store hread
    rw [hnext, hbody]
    by_cases hupload : r.method = .post ∧ Route.ofPath? r.path = some .upload
    · obtain ⟨hmethod, hroute⟩ := hupload
      rw [reply_upload store document hmethod hroute] at hstatus ⊢
      rcases uploadReply_cases store r with ⟨name, records, note, hlog, hok, hdoc, hstore⟩ |
        ⟨hfail, hstore⟩
      · left
        refine ⟨⟨hmethod, hroute, hstatus.trans hok⟩, name, records, hlog, ?_,
          congrArg Prod.fst hstore⟩
        rw [hmethod]
        exact hdoc
      · right
        exact ⟨fun h => hfail (hstatus.symm.trans h.2.2), hstore⟩
    · right
      exact ⟨fun h => hupload ⟨h.1, h.2.1⟩, reply_store store document hupload⟩

/-! ### Histories -/

theorem serve_cons (settings : Settings) (store : Store) (r : Request) (requests : List Request) :
    serve settings store (r :: requests) =
      ((respond settings store r).1 ::
          (serve settings (respond settings store r).2 requests).1,
        (serve settings (respond settings store r).2 requests).2) := rfl

/-- **The store after a history** is the initial one with the logs of the uploads that succeeded
inserted, in order. -/
theorem serve_snd (settings : Settings) (store : Store) (requests : List Request) :
    (serve settings store requests).2 =
      insertAll store (uploads requests (serve settings store requests).1) := by
  induction requests generalizing store with
  | nil => rfl
  | cons r requests ih =>
    rw [serve_cons, ih]
    rcases respond_cases settings store r with ⟨hsucc, name, records, hlog, -, hnext⟩ |
      ⟨hfail, hnext⟩
    · rw [hnext]
      simp [uploads, hsucc, hlog, insertAll]
    · rw [hnext]
      simp [uploads, hfail]

/-- Each request of a history is answered from some store. -/
theorem exists_store (settings : Settings) (store : Store) {requests : List Request} {r : Request}
    {a : Answer} (h : (r, a) ∈ requests.zip (serve settings store requests).1) :
    ∃ current, a = (respond settings current r).1 := by
  induction requests generalizing store with
  | nil => cases h
  | cons r' requests ih =>
    rw [serve_cons, List.zip_cons_cons, List.mem_cons] at h
    rcases h with heq | hmem
    · cases heq
      exact ⟨store, rfl⟩
    · exact ih _ hmem

/-- Every upload that was answered with success had a log that can be read. -/
theorem uploaded?_of_mem (settings : Settings) (store : Store) {requests : List Request}
    {r : Request} {a : Answer}
    (h : (r, a) ∈ requests.zip (serve settings store requests).1) (hsucc : Succeeded r a) :
    ∃ name records, r.uploaded? = some (name, records) := by
  obtain ⟨current, rfl⟩ := exists_store settings store h
  rcases respond_cases settings current r with ⟨-, name, records, hlog, -⟩ | ⟨hfail, -⟩
  · exact ⟨name, records, hlog⟩
  · exact absurd hsucc hfail

/-- A request in the middle of a history. -/
theorem serve_split (settings : Settings) (store : Store) (before after : List Request)
    (r : Request) :
    serve settings store (before ++ r :: after) =
      ((serve settings store before).1 ++
          (respond settings (serve settings store before).2 r).1 ::
            (serve settings (respond settings (serve settings store before).2 r).2 after).1,
        (serve settings (respond settings (serve settings store before).2 r).2 after).2) := by
  rw [serve_append]
  rfl

/-- **A request that leaves the store as it is can be left out.** The answers to all others stay
the same. -/
theorem serve_skip (settings : Settings) (store : Store) (before after : List Request)
    {r : Request}
    (h : (respond settings (serve settings store before).2 r).2 =
      (serve settings store before).2) :
    serve settings store (before ++ after) =
      ((serve settings store (before ++ r :: after)).1.eraseIdx before.length,
        (serve settings store (before ++ r :: after)).2) := by
  rw [serve_split, h, serve_append, ← length_serve settings store before,
    List.eraseIdx_append_of_length_le (Nat.le_refl _), Nat.sub_self]
  rfl

/-! ### What is listed -/

/-- Whether a listed source has this name. -/
def isNamed (name : String) (listed : Json) : Bool :=
  match listed.field? "name" with
  | some (.string n) => n = name
  | _ => false

/-- The source of this name is listed once, with this count. -/
def ListsOnce (body : Option Json) (name : String) (count : Json) : Prop :=
  ∃ listed, body = some (.object [("sources", .array listed)]) ∧
    listed.filter (isNamed name) = [.object [("name", .string name), ("frameCount", count)]]

theorem sources_insertAll (store : Store) (logs : List (String × List Record)) :
    (insertAll store logs).sources = store.sources.insertAll logs := by
  induction logs generalizing store with
  | nil => rfl
  | cons log logs ih => exact ih (store.insert log.1 log.2)

/-- Logs of other names leave the records of a name as they are. -/
theorem get?_insertAll {store : Store} {name : String} {logs : List (String × List Record)}
    (h : ∀ log ∈ logs, log.1 ≠ name) :
    (insertAll store logs).sources.get? name = store.sources.get? name := by
  rw [sources_insertAll, OrderedMap.get?_insertAll_of_ne _ h]

theorem filter_entries {κ α : Type} [DecidableEq κ] {es : List (κ × α)}
    (hnodup : (es.map Prod.fst).Nodup) {k : κ} {a : α} (h : valueOf? k es = some a) :
    es.filter (fun e => e.1 = k) = [(k, a)] := by
  induction es with
  | nil => cases h
  | cons e es ih =>
    obtain ⟨k', a'⟩ := e
    rw [List.map_cons, List.nodup_cons] at hnodup
    by_cases hk : k' = k
    · subst hk
      have ha : a' = a := by simpa [valueOf?] using h
      have hrest : es.filter (fun e => e.1 = k') = [] := by
        rw [List.filter_eq_nil_iff]
        intro e he heq
        have hfst : e.1 = k' := by simpa using heq
        have hmem : e.1 ∈ es.map Prod.fst := List.mem_map_of_mem he
        rw [hfst] at hmem
        exact hnodup.1 hmem
      simp [ha, hrest]
    · have hrest := ih hnodup.2 (by simpa [valueOf?, hk] using h)
      simp [hk, hrest]

/-- A source of the store is listed once, with the number of its records. -/
theorem listsOnce_sourcesReply {store : Store} {name : String} {records : List Record}
    (h : store.sources.get? name = some records) :
    ListsOnce ((sourcesReply store).document.map Json.nameNonFinite) name
      (frameCount records) := by
  refine ⟨store.sources.entries.map fun e =>
    .object [("name", .string e.1), ("frameCount", frameCount e.2)], ?_, ?_⟩
  · simp [sourcesReply, Reply.ok, Json.nameNonFinite, Store.summary, Sources.summary, frameCount]
  · have hnamed : ∀ e : String × List Record, isNamed name
        (.object [("name", .string e.1), ("frameCount", frameCount e.2)]) = decide (e.1 = name) :=
      fun e => rfl
    have hone := filter_entries store.sources.distinct h
    rw [List.filter_map, Function.comp_def]
    simp only [hnamed, hone, List.map_cons, List.map_nil]

/-- What GET lists of a source of the store. -/
theorem respond_sources (settings : Settings) {store : Store} {name : String}
    {records : List Record} (h : store.sources.get? name = some records) {r : Request}
    (hmethod : r.method = .get) (hroute : Route.ofPath? r.path = some .sources)
    (hok : (respond settings store r).1.status = 200) :
    ListsOnce (respond settings store r).1.body name (frameCount records) := by
  cases hread : r.body.read with
  | error refusal =>
    simp only [respond, hread] at hok
    exact absurd hok refusal.status_ne_ok
  | ok document =>
    obtain ⟨-, hbody, -⟩ := respond_of_read settings store hread
    have hreply : (reply store r document).1 = sourcesReply store := by
      unfold reply
      rw [hroute, hmethod]
      rfl
    rw [hbody, hreply, hmethod]
    exact listsOnce_sourcesReply h

/-- **A history of requests is the fold of its successful uploads.**

* The store after it is the first store with the logs of the uploads that were answered with
  success inserted, in order; each of these held a log that can be read.
* Any other request leaves the store as it was, and leaving it out of the history changes no
  other answer.
* A successful upload says whether there was a source of its name, and the number of frames that
  it says is the one listed for this name until the next successful upload under it. -/
theorem serve_refines_uploads (settings : Settings) (store : Store) (requests : List Request) :
    let answers := (serve settings store requests).1
    let last := (serve settings store requests).2
    last = insertAll store (uploads requests answers) ∧
    (∀ r a, (r, a) ∈ requests.zip answers → Succeeded r a →
      ∃ name records, r.uploaded? = some (name, records)) ∧
    ∀ before r after, requests = before ++ r :: after →
      let current := (serve settings store before).2
      let answer := (respond settings current r).1
      let next := (respond settings current r).2
      answers = (serve settings store before).1 ++ answer :: (serve settings next after).1 ∧
      (¬ Succeeded r answer → next = current ∧
        serve settings store (before ++ after) = (answers.eraseIdx before.length, last)) ∧
      (Succeeded r answer → ∃ name records, r.uploaded? = some (name, records) ∧
        next = current.insert name records ∧
        answer.body = some (uploadDocument name records (name ∈ OrderedMap.keys current.sources)) ∧
        ∀ middle get rest, after = middle ++ get :: rest →
          let later := serve settings next middle
          let listing := (respond settings later.2 get).1
          (∀ log ∈ uploads middle later.1, log.1 ≠ name) →
          get.method = .get → Route.ofPath? get.path = some .sources → listing.status = 200 →
          ListsOnce listing.body name (frameCount records)) := by
  intro answers last
  refine ⟨serve_snd settings store requests, ?_, ?_⟩
  · intro r a hmem hsucc
    exact uploaded?_of_mem settings store hmem hsucc
  · rintro before r after rfl current answer next
    refine ⟨?_, ?_, ?_⟩
    · exact congrArg Prod.fst (serve_split settings store before after r)
    · intro hfail
      have hnext : next = current := by
        rcases respond_cases settings current r with ⟨hsucc, -⟩ | ⟨-, hsame⟩
        · exact absurd hsucc hfail
        · exact hsame
      exact ⟨hnext, serve_skip settings store before after hnext⟩
    · intro hsucc
      rcases respond_cases settings current r with ⟨-, name, records, hlog, hbody, hnext⟩ |
        ⟨hfail, -⟩
      · have hcontains : current.contains name =
            decide (name ∈ OrderedMap.keys current.sources) := by
          rw [Bool.eq_iff_iff, decide_eq_true_iff]
          exact OrderedMap.contains_iff_mem_keys current.sources name
        refine ⟨name, records, hlog, hnext, hcontains ▸ hbody, ?_⟩
        intro middle get rest _ later listing hothers hmethod hroute hok
        have hget : later.2.sources.get? name = some records := by
          have hlater : later.2 = insertAll next (uploads middle later.1) :=
            serve_snd settings next middle
          have hinserted : next.sources.get? name = some records := by
            rw [show next = current.insert name records from hnext]
            show (current.sources.insert name records).get? name = _
            rw [OrderedMap.get?_insert, if_pos rfl]
          rw [hlater, get?_insertAll hothers, hinserted]
        exact respond_sources settings hget hmethod hroute hok
      · exact absurd hsucc hfail

/-- A log of two frame starts has one frame, and this is what is listed for it. Asking for the
list can be left out. -/
theorem serve_refines_uploads_listing :
    let upload : Request := ⟨.post, "/api/upload", .form [⟨"file", some "a.log",
      .text "Stats Viewer : n 1\nStats Viewer : n 2\n"⟩]⟩
    let get : Request := ⟨.get, "/api/sources", .absent⟩
    let store : Store := .ofSources .empty
    let next := (respond {} store upload).2
    Succeeded upload (respond {} store upload).1 ∧
    (respond {} next get).1.status = 200 ∧
    ListsOnce (respond {} next get).1.body "a.log" (frameCount [.ofList [("n", 1)]]) ∧
    ¬ Succeeded get (respond {} store get).1 ∧
    serve {} store ([] ++ [upload]) =
      ((serve {} store [get, upload]).1.eraseIdx 0, (serve {} store [get, upload]).2) := by
  intro upload get store next
  have hsucc : Succeeded upload (respond {} store upload).1 := by decide +kernel
  have hfail : ¬ Succeeded get (respond {} store get).1 := by decide +kernel
  have hok : (respond {} next get).1.status = 200 := by decide +kernel
  have hlog : upload.uploaded? = some ("a.log", [.ofList [("n", 1)]]) := by decide +kernel
  have hmethod : get.method = .get := rfl
  have hroute : Route.ofPath? get.path = some .sources := by decide
  -- From here on the two requests are any requests of which this is known.
  clear_value upload get
  have hlisted := ((serve_refines_uploads {} store [upload, get]).2.2 [] upload [get] rfl).2.2 hsucc
  have hskipped := ((serve_refines_uploads {} store [get, upload]).2.2 [] get [upload] rfl).2.1 hfail
  obtain ⟨name, records, huploaded, -, -, hlisted⟩ := hlisted
  cases hlog.symm.trans huploaded
  refine ⟨hsucc, hok, ?_, hfail, hskipped.2⟩
  exact hlisted [] get [] rfl (fun log hmem => nomatch hmem) hmethod hroute hok

end Framewise.Service
