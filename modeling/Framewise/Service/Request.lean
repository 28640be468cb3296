import Framewise.Text.Chunk

/-!
# Requests

A request has a method, a target and a body. The path is what the target holds before its query
or fragment.

A form of parts may come already cut into its parts, or as the bytes that hold them.
-/

namespace Framewise.Service

/-- What a request asks to be done. -/
inductive Method where
  | get
  | head
  | post
  | options
  | other (name : String)
deriving DecidableEq, Repr

namespace Method

/-- The method of a name. -/
def ofName (name : String) : Method :=
  if name = "GET" then .get
  else if name = "HEAD" then .head
  else if name = "POST" then .post
  else if name = "OPTIONS" then .options
  else .other name

/-- The name of a method. -/
def name : Method → String
  | .get => "GET"
  | .head => "HEAD"
  | .post => "POST"
  | .options => "OPTIONS"
  | .other name => name

end Method

/-- A part of a form. One with a file name is a file, one without is a plain value. -/
structure Part where
  field : String
  fileName : Option String := none
  content : Text.Chunk
deriving DecidableEq, Repr

/-- What a request carries. -/
inductive Body where
  | absent
  | content (type : String) (data : Text.Chunk)
  | form (parts : List Part)
deriving DecidableEq, Repr

/-- A request. -/
structure Request where
  method : Method
  target : String
  body : Body := .absent
deriving DecidableEq, Repr

/-- The target without query and fragment. -/
def Request.path (r : Request) : String :=
  String.ofList (r.target.toList.takeWhile fun c => c != '?' && c != '#')

example : ({ method := .get, target := "/api/keys?x=1#y" } : Request).path = "/api/keys" := by
  decide

end Framewise.Service
