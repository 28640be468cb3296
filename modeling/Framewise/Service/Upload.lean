import Framewise.Log.Source
import Framewise.Service.Multipart

/-!
# Uploads

An upload is the one file of a form, in the field `file`. Its name is the file name without
directories, and a file without a name does not count. The parts are looked at in order, and
the first that may not be there fails the whole form, also when the file came before it.
-/

namespace Framewise.Service

/-- Why a form is no upload. -/
inductive UploadError where
  | noFieldName
  | longValue
  | unexpectedFile
  | longFile
  | noBoundary
  | unknownForm (type : String)
  | faulty (f : Multipart.Fault)
deriving DecidableEq, Repr

/-- What an error says. -/
def UploadError.message : UploadError → String
  | .noFieldName => "Field name missing"
  | .longValue => "Field value too long"
  | .unexpectedFile => "Unexpected file field"
  | .longFile => "File too large"
  | .noBoundary => "Multipart: Boundary not found"
  | .unknownForm type => "Unsupported content type: " ++ type
  | .faulty f => f.message

/-- The size at which a plain value is too long. -/
def longValueBytes : Nat := 1024 * 1024

/-- The size at which a file is too long. -/
def longFileBytes : Nat := 100 * 1024 * 1024

/-- The field that a file comes in. -/
def uploadField : String := "file"

/-- A log to be added. -/
structure Upload where
  name : String
  text : String
deriving DecidableEq, Repr

namespace Upload

/-- Look at one part, after `found` in the parts before it. -/
def step (found : Option Upload) (p : Part) : Except UploadError (Option Upload) :=
  if p.field = "" then .error .noFieldName
  else match p.fileName with
    | none => if p.content.size ≥ longValueBytes then .error .longValue else .ok found
    | some path =>
      let name := Multipart.baseName path
      if name = "" then .ok found
      else if p.field ≠ uploadField ∨ found.isSome then .error .unexpectedFile
      else if p.content.size ≥ longFileBytes then .error .longFile
      else .ok (some ⟨name, p.content.decode⟩)

/-- The upload that parts hold, if there is one. -/
def ofParts (parts : List Part) : Except UploadError (Option Upload) :=
  parts.foldlM step none

/-- The upload that a body holds, if there is one. -/
def ofBody : Body → Except UploadError (Option Upload)
  | .absent => .ok none
  | .form parts => ofParts parts
  | .content type data =>
    match MediaType.parse? type with
    | none => .ok none
    | some t =>
      if t.kind ≠ "multipart" then .ok none
      else if t.subkind ≠ "form-data" then .error (.unknownForm type)
      else match (t.parameters.parameter? "boundary").filter (· ≠ "") with
        | none => .error .noBoundary
        | some boundary =>
          let (parts, fault) := Multipart.parse boundary data.toBytes
          (ofParts parts).bind fun upload =>
            match fault with
            | none => .ok upload
            | some f => .error (.faulty f)

/-- Read the log. -/
def load (u : Upload) : Except Log.ParseError Log.Loaded :=
  Log.loadText u.name u.text

end Upload

example : Upload.ofParts [⟨"note", none, .text "x"⟩, ⟨"file", some "d/a.log", .bytes [0x41]⟩] =
    .ok (some ⟨"a.log", "A"⟩) := by rfl

end Framewise.Service
