import Framewise.Json.Value

/-!
# Checked values

Checking a JSON document collects everything that is wrong with it, in the order in which its
parts are looked at. `Checked` is either a value or at least one issue; `Checked.ap` puts the
issues of two parts one after the other.

An issue has a path into the document and a problem. What is absent and what is of the wrong
kind are told apart: an absent part is only missing.
-/

namespace Framewise.Check

/-! ### Issues -/

/-- The kinds of values that messages name. -/
inductive Kind where
  | string
  | number
  | nan
  | boolean
  | object
  | array
  | null
deriving DecidableEq, Repr

/-- The name of a kind. -/
def Kind.name : Kind → String
  | .string => "string"
  | .number => "number"
  | .nan => "nan"
  | .boolean => "boolean"
  | .object => "object"
  | .array => "array"
  | .null => "null"

/-- The kind of a value. -/
def Kind.of : Json → Kind
  | .null => .null
  | .bool _ => .boolean
  | .number x => if x.isNaN then .nan else .number
  | .string _ => .string
  | .array _ => .array
  | .object _ => .object

/-- What is wrong with a part of a document. -/
inductive Problem where
  | missing
  | wrongKind (expected received : Kind)
  | notInteger
  | notFinite
  | emptyText
  | tooFewItems (least : Nat)
  | tooManyItems (most : Nat)
  | notAChoice (choices : List String) (received : Kind)
  | unknownChoice (choices : List String) (received : String)
deriving DecidableEq, Repr

/-- Alternatives in a message. -/
def choicesText (choices : List String) : String :=
  String.intercalate " | " (choices.map fun c => "'" ++ c ++ "'")

/-- What a problem says. -/
def Problem.message : Problem → String
  | .missing => "Required"
  | .wrongKind expected received => "Expected " ++ expected.name ++ ", received " ++ received.name
  | .notInteger => "Expected integer, received float"
  | .notFinite => "Number must be finite"
  | .emptyText => "String must contain at least 1 character(s)"
  | .tooFewItems n => "Array must contain at least " ++ Number.natText n ++ " element(s)"
  | .tooManyItems n => "Array must contain at most " ++ Number.natText n ++ " element(s)"
  | .notAChoice choices received =>
    "Expected " ++ choicesText choices ++ ", received " ++ received.name
  | .unknownChoice choices received =>
    "Invalid enum value. Expected " ++ choicesText choices ++ ", received '" ++ received ++ "'"

/-- A step of a path. -/
inductive Step where
  | field (name : String)
  | item (index : Nat)
deriving DecidableEq, Repr

/-- A step as it is written in a path. -/
def Step.text : Step → String
  | .field name => name
  | .item index => Number.natText index

/-- A way from a document to one of its parts. -/
abbrev Path := List Step

/-- A problem and where it is. -/
structure Issue where
  path : Path
  problem : Problem
deriving DecidableEq, Repr

/-- An issue as text: its path, if it is not the whole document, and what the problem says. -/
def Issue.message (i : Issue) : String :=
  (if i.path = [] then "" else String.intercalate "." (i.path.map Step.text) ++ ": ") ++
    i.problem.message

/-! ### Checked values -/

/-- A value, or what is wrong: at least one issue. -/
inductive Checked (α : Type) where
  | valid (a : α)
  | invalid (first : Issue) (more : List Issue)
deriving DecidableEq, Repr

namespace Checked

variable {α β γ : Type}

/-- The issues, none for a value. -/
def issues : Checked α → List Issue
  | .valid _ => []
  | .invalid first more => first :: more

/-- The value, if nothing is wrong. -/
def value? : Checked α → Option α
  | .valid a => some a
  | .invalid _ _ => none

/-- Change the value. -/
def map (f : α → β) : Checked α → Checked β
  | .valid a => .valid (f a)
  | .invalid first more => .invalid first more

/-- Apply a checked function to a checked value; the issues of the function come first. -/
def ap : Checked (α → β) → Checked α → Checked β
  | .valid f, .valid a => .valid (f a)
  | .valid _, .invalid first more => .invalid first more
  | .invalid first more, .valid _ => .invalid first more
  | .invalid first more, .invalid next others => .invalid first (more ++ next :: others)

/-- An issue of its own in front of those of a value. -/
def withIssue (i : Issue) : Checked α → Checked β
  | .valid _ => .invalid i []
  | .invalid first more => .invalid i (first :: more)

/-- The values of a list; the issues in the order of the list. -/
def sequence : List (Checked α) → Checked (List α)
  | [] => .valid []
  | c :: cs => (c.map List.cons).ap (sequence cs)

@[simp] theorem issues_map (f : α → β) (c : Checked α) : (c.map f).issues = c.issues := by
  cases c <;> rfl

/-- The issues of the function come first, and none is lost. -/
@[simp] theorem issues_ap (f : Checked (α → β)) (c : Checked α) :
    (f.ap c).issues = f.issues ++ c.issues := by
  cases f <;> cases c <;> simp [ap, issues]

end Checked

/-! ### Checks of parts -/

/-- A check of a part that may be absent, given the way to it. -/
abbrev Checker (α : Type) := Path → Option Json → Checked α

/-- One issue. -/
def fail {α : Type} (path : Path) (problem : Problem) : Checked α :=
  .invalid ⟨path, problem⟩ []

/-- A part of the wrong kind, or an absent one. -/
def reject {α : Type} (expected : Kind) (path : Path) : Option Json → Checked α
  | none => fail path .missing
  | some v => fail path (.wrongKind expected (Kind.of v))

/-- A text of at least one character. -/
def nonEmptyText : Checker String
  | path, some (.string s) => if s = "" then fail path .emptyText else .valid s
  | path, v => reject .string path v

/-- A truth value. -/
def boolean : Checker Bool
  | _, some (.bool b) => .valid b
  | path, v => reject .boolean path v

/-- A number that passes a test. NaN is no number. -/
def numberWith (test : Float → Bool) (problem : Problem) : Checker Float
  | path, some (.number x) =>
    if x.isNaN then reject .number path (some (.number x))
    else if test x then .valid x
    else fail path problem
  | path, v => reject .number path v

/-- An integer. -/
def integer : Checker Float := numberWith Number.isInteger .notInteger

/-- A finite number. -/
def finite : Checker Float := numberWith Float.isFinite .notFinite

/-- One of several texts. -/
def oneOf (choices : List String) : Checker String
  | path, some (.string s) =>
    if s ∈ choices then .valid s else fail path (.unknownChoice choices s)
  | path, none => fail path .missing
  | path, some v => fail path (.notAChoice choices (Kind.of v))

/-- A part that may be absent and is then `dflt`. -/
def orElse {α : Type} (dflt : α) (check : Checker α) : Checker α
  | _, none => .valid dflt
  | path, v => check path v

/-- A part that may be absent. -/
def optional {α : Type} (check : Checker α) : Checker (Option α)
  | _, none => .valid none
  | path, v => (check path v).map some

/-- A list with the same check for every item. -/
def arrayOf {α : Type} (check : Checker α) : Checker (List α)
  | path, some (.array vs) =>
    .sequence (vs.zipIdx.map fun (v, i) => check (path ++ [.item i]) (some v))
  | path, v => reject .array path v

/-- A list of a fixed length. A shorter one is looked into no further; a longer one is, as far
as its length should be. -/
def tupleOf {α : Type} (length : Nat) (check : Path → (Nat → Option Json) → Checked α) : Checker α
  | path, some (.array vs) =>
    if vs.length < length then fail path (.tooFewItems length)
    else
      let checked := check path fun i => vs[i]?
      if length < vs.length then checked.withIssue ⟨path, .tooManyItems length⟩ else checked
  | path, v => reject .array path v

/-- An object. Fields that the check does not ask for are left out. -/
def objectOf {α : Type} (check : Path → (String → Option Json) → Checked α) : Checker α
  | path, some (.object fields) => check path fun name => valueOf? name fields
  | path, v => reject .object path v

end Framewise.Check
