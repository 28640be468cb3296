import Framewise.OrderedMap
import Framewise.Service.MediaType
import Framewise.Service.Request
import Framewise.Text.Utf8

/-!
# Forms as parts

A form may be written as parts: before each part, and after the last, stands a delimiter, which
is a line end, two dashes and the boundary. Two more dashes after a delimiter end the form;
a line end after it begins a part, which is header lines, an empty line and the content. What
stands before the first delimiter, or on the same line as a delimiter, is skipped.

Parts that are not form data are skipped as well. A form that breaks off, and a part whose
header is no header, are faults; the parts before a fault have been read when it is found.
-/

namespace Framewise.Service.Multipart

/-- What is wrong with a form. -/
inductive Fault where
  | unfinished
  | badHeader
deriving DecidableEq, Repr

/-- What a fault says. -/
def Fault.message : Fault → String
  | .unfinished => "Unexpected end of form"
  | .badHeader => "Malformed part header"

/-- The line end. -/
def lineEnd : List UInt8 := [0x0D, 0x0A]

/-- Two dashes. -/
def dashes : List UInt8 := [0x2D, 0x2D]

/-- What stands between parts. -/
def delimiter (boundary : String) : List UInt8 :=
  lineEnd ++ dashes ++ Text.Utf8.encode boundary

/-- Cut at every place where `pattern` stands. The pieces so far and the open piece are in
reverse; `skip` bytes still belong to the last place. -/
def cutFrom (pattern : List UInt8) :
    Nat → List (List UInt8) → List UInt8 → List UInt8 → List (List UInt8)
  | _, ended, piece, [] => (piece.reverse :: ended).reverse
  | skip + 1, ended, piece, _ :: bs => cutFrom pattern skip ended piece bs
  | 0, ended, piece, b :: bs =>
    if pattern.isPrefixOf (b :: bs) then
      cutFrom pattern (pattern.length - 1) (piece.reverse :: ended) [] bs
    else cutFrom pattern 0 ended (b :: piece) bs

/-- The pieces between the places where `pattern` stands. -/
def cut (pattern bytes : List UInt8) : List (List UInt8) :=
  cutFrom pattern 0 [] [] bytes

/-- Bytes as characters, one for each. -/
def latin (bytes : List UInt8) : String :=
  String.ofList (bytes.map fun b => Char.ofNat b.toNat)

/-! ### Headers -/

/-- Join a line that begins with a blank to the line before it. -/
def unfold : List (List Char) → List (List Char)
  | [] => []
  | line :: lines =>
    match unfold lines with
    | (c :: next) :: rest =>
      if c = ' ' ∨ c = '\t' then (line ++ c :: next) :: rest else line :: (c :: next) :: rest
    | rest => line :: rest

/-- A header line. -/
def field? (line : List Char) : Option (String × String) :=
  match line.dropWhile (· != ':') with
  | ':' :: value =>
    (token? (line.takeWhile (· != ':'))).map fun name =>
      (Text.lower name, String.ofList (trimSpaces value))
  | _ => none

/-- The header lines of a part. -/
def header? (bytes : List UInt8) : Option (List (String × String)) :=
  let lines := (cut lineEnd bytes).map fun line => (latin line).toList
  (unfold (lines.filter (· ≠ []))).mapM field?

/-- What follows the last separator of directories. -/
def baseName (name : String) : String :=
  let base := Text.takeTail (fun c => c != '/' && c != '\\') name.toList
  if base = ['.'] ∨ base = ['.', '.'] then "" else String.ofList base

/-- The part with this header. One that is called a sequence of bytes is a file, even without
a name. -/
def part? (header : List (String × String)) (content : List UInt8) : Option Part :=
  match (valueOf? "content-disposition" header).bind HeaderValue.parse? with
  | none => none
  | some disposition =>
    if disposition.head ≠ "form-data" then none
    else
      let isBytes := ((valueOf? "content-type" header).bind MediaType.parse?).map MediaType.name =
        some "application/octet-stream"
      let fileName := (disposition.parameter? "filename").filter (· ≠ "")
      some {
        field := (disposition.parameter? "name").getD ""
        fileName := if isBytes then some (fileName.getD "") else fileName
        content := .bytes content }

/-! ### Parts -/

/-- The parts of what follows each delimiter, and the fault that ends them, if there is one. -/
def partsOf : List (List UInt8) → List Part × Option Fault
  | [] => ([], some .unfinished)
  | piece :: pieces =>
    if dashes.isPrefixOf piece then ([], none)
    else if pieces = [] then ([], some .unfinished)
    else if !lineEnd.isPrefixOf piece then partsOf pieces
    else match cut (lineEnd ++ lineEnd) piece with
      | head :: first :: rest =>
        match header? head with
        | none => ([], some .badHeader)
        | some header =>
          let content := (lineEnd ++ lineEnd).intercalate (first :: rest)
          let (parts, fault) := partsOf pieces
          ((part? header content).toList ++ parts, fault)
      | _ => ([], some .badHeader)

/-- The parts of a form. -/
def parse (boundary : String) (bytes : List UInt8) : List Part × Option Fault :=
  partsOf ((cut (delimiter boundary) (lineEnd ++ bytes)).drop 1)

example : cut lineEnd [1, 0x0D, 0x0A, 2, 0x0D] = [[1], [2, 0x0D]] := by decide

example : baseName "logs/run.log" = "run.log" ∧ baseName "C:\\a" = "a" ∧ baseName ".." = "" := by
  decide

end Framewise.Service.Multipart
