import Framewise.Check.Requests
import Framewise.Service.Content
import Framewise.Service.Report
import Framewise.Service.Upload
import Framewise.Store
import Framewise.View.Build
import Framewise.View.Document

/-!
# Answering requests

`respond` answers one request from the store and gives the store after it; only an upload that
succeeds changes the store. `serve` answers requests one after the other.

A body is read before anything else. If it is refused, so is the request: such an answer is not
logged and says nothing about caching. Paths are compared without regard to letter case and to
one slash at the end. What can be read with GET can also be asked for with HEAD, which is
answered in the same way but without a body; OPTIONS is answered for every known path.
-/

namespace Framewise.Service

/-! ### Routes -/

/-- What the service can be asked for. -/
inductive Route where
  | sources
  | keys
  | frames
  | views
  | upload
deriving DecidableEq, Repr

namespace Route

/-- All routes. -/
def all : List Route := [.sources, .keys, .frames, .views, .upload]

/-- The path of a route. -/
def path : Route → String
  | .sources => "/api/sources"
  | .keys => "/api/keys"
  | .frames => "/api/frames"
  | .views => "/api/views"
  | .upload => "/api/upload"

/-- Whether a route is for GET; the others are for POST. -/
def isRead : Route → Bool
  | .sources | .keys => true
  | .frames | .views | .upload => false

/-- Whether a route has this path. -/
def hasPath (r : Route) (path : String) : Bool :=
  Text.lower path = r.path || Text.lower path = r.path ++ "/"

/-- The route of a path. -/
def ofPath? (path : String) : Option Route :=
  all.find? (·.hasPath path)

/-- Whether a route is for a method. -/
def accepts (r : Route) : Method → Bool
  | .get | .head => r.isRead
  | .post => !r.isRead
  | _ => false

end Route

/-! ### Replies -/

/-- A status and a document; without one, the body is a page or a list for people to read. -/
structure Reply where
  status : Nat := 200
  document : Option Json := none

namespace Reply

/-- A document. -/
def ok (fields : List (String × Json)) : Reply :=
  { document := some (.object fields) }

/-- An error. -/
def error (status : Nat) (message : String) : Reply :=
  { status, document := some (.object [("error", .string message)]) }

/-- Nothing is there. -/
def notFound : Reply := { status := 404 }

/-- A request document that does not pass its checks. -/
def invalid (issues : List Check.Issue) : Reply :=
  error 400 ("; ".intercalate (issues.map Check.Issue.message))

end Reply

/-- The sources of a store. -/
def sourcesReply (store : Store) : Reply :=
  .ok [("sources", .array (store.summary.map fun s =>
    .object [("name", .string s.name), ("frameCount", Json.ofNat s.frameCount)]))]

/-- The keys of a store. -/
def keysReply (store : Store) : Reply :=
  .ok [("keys", Json.strings store.keys), ("count", Json.ofNat store.keys.length)]

/-- Aligned frames. -/
def framesReply (store : Store) (document : Json) : Reply :=
  match Check.framesRequest (some document) with
  | .invalid first more => .invalid (first :: more)
  | .valid r => .ok (r.range.fields ++
      [("sources", Frames.document (store.align r.keys r.range))])

/-- Views. All keys of the store are aligned for them, and those of the request. -/
def viewsReply (store : Store) (document : Json) : Reply :=
  match Check.viewsRequest (some document) with
  | .invalid first more => .invalid (first :: more)
  | .valid r =>
    match buildViews (store.align (some (store.keys ++ r.views.keys)) r.range) r.views with
    | .ok views => .ok [("views", View.documents views), ("count", Json.ofNat views.length)]
    | .error s => .error 422 s.message

/-- What an upload leads to: the reply, the store after it, and what is logged about it. -/
def uploadReply (store : Store) (body : Body) : Reply × Store × Option LogEntry :=
  match Upload.ofBody body with
  | .error e => (.error 500 e.message, store, none)
  | .ok none => (.error 400 "No file uploaded", store, none)
  | .ok (some upload) =>
    match upload.load with
    | .error e => (.error 400 e.message, store, none)
    | .ok log =>
      let replaced := store.contains upload.name
      (.ok [("success", .bool true), ("name", .string upload.name),
          ("frameCount", Json.ofNat log.records.length), ("replaced", .bool replaced)],
        store.insert upload.name log.records,
        some ⟨"upload", (if replaced then "replaced" else "added") ++ " source " ++ upload.name ++
          " (" ++ Number.natText log.records.length ++ " frames)"⟩)

/-- The reply to a request whose body holds `document`. -/
def reply (store : Store) (request : Request) (document : Json) :
    Reply × Store × Option LogEntry :=
  match Route.ofPath? request.path with
  | none => (.notFound, store, none)
  | some route =>
    if request.method = .options then ({}, store, none)
    else if !route.accepts request.method then (.notFound, store, none)
    else match route with
      | .sources => (sourcesReply store, store, none)
      | .keys => (keysReply store, store, none)
      | .frames => (framesReply store document, store, none)
      | .views => (viewsReply store document, store, none)
      | .upload => uploadReply store request.body

/-! ### Answers -/

/-- The answer to a request: what is sent, and what is logged. -/
structure Answer where
  status : Nat
  body : Option Json
  cacheControl : Option String := none
  note : Option LogEntry := none
  report : Option Report := none

/-- What is logged about a request that took so long. -/
def Answer.entries (a : Answer) (milliseconds : Nat) : List LogEntry :=
  a.note.toList ++ (a.report.map (·.entry milliseconds)).toList

/-- The document that is sent: none in answer to HEAD, and all numbers as JSON has them. -/
def sentBody (method : Method) (document : Option Json) : Option Json :=
  if method = .head then none else document.map Json.nameNonFinite

/-- Answer a request. -/
def respond (settings : Settings) (store : Store) (request : Request) : Answer × Store :=
  match request.body.read with
  | .error refusal =>
    let reply := Reply.error refusal.status refusal.message
    ({ status := reply.status, body := sentBody request.method reply.document }, store)
  | .ok document =>
    let (reply, next, note) := reply store request document
    ({ status := reply.status
       body := sentBody request.method reply.document
       cacheControl := if settings.caching then none else some "no-store"
       note
       report := Report.of? settings request reply.status reply.document }, next)

/-- Answer requests one after the other. -/
def serve (settings : Settings) (store : Store) : List Request → List Answer × Store
  | [] => ([], store)
  | request :: requests =>
    let (answer, next) := respond settings store request
    let (answers, last) := serve settings next requests
    (answer :: answers, last)

/-- Requests that follow others are answered from the store that those leave. -/
theorem serve_append (settings : Settings) (store : Store) (requests more : List Request) :
    serve settings store (requests ++ more) =
      ((serve settings store requests).1 ++
          (serve settings (serve settings store requests).2 more).1,
        (serve settings (serve settings store requests).2 more).2) := by
  induction requests generalizing store with
  | nil => rfl
  | cons request requests ih => simp [serve, ih]

/-- Every request is answered. -/
theorem length_serve (settings : Settings) (store : Store) (requests : List Request) :
    (serve settings store requests).1.length = requests.length := by
  induction requests generalizing store with
  | nil => rfl
  | cons request requests ih => simp [serve, ih]

example : Route.ofPath? "/API/keys/" = some .keys ∧ Route.ofPath? "/api/keys//" = none := by
  decide

end Framewise.Service
