import Framewise.Number.Layout
import Framewise.Number.Numeral
import Framewise.OrderedMap

/-!
# JSON values

Numbers are doubles, and objects list their fields in order. JSON has no infinite numbers and
no NaN: `nameNonFinite` writes them as strings, and `readNumber?` reads both spellings back.
-/

namespace Framewise

/-- A JSON value. -/
inductive Json where
  | null
  | bool (b : Bool)
  | number (x : Float)
  | string (s : String)
  | array (items : List Json)
  | object (fields : List (String × Json))
deriving Inhabited

namespace Json

/-- A natural number as a JSON number. -/
def ofNat (n : Nat) : Json := .number (Number.ofDecimal n 0)

/-- An array of strings. -/
def strings (ss : List String) : Json := .array (ss.map .string)

/-- An array of numbers. -/
def numbers (xs : List Float) : Json := .array (xs.map .number)

/-- An array of natural numbers. -/
def naturals (ns : List Nat) : Json := .array (ns.map ofNat)

/-- The value of a field. Only objects have fields. -/
def field? (name : String) : Json → Option Json
  | .object fields => valueOf? name fields
  | _ => none

/-! ### Numbers that JSON lacks -/

mutual

/-- Write NaN and the infinities as the strings that name them. -/
def nameNonFinite : Json → Json
  | .number x => if x.isFinite then .number x else .string (Number.text x)
  | .array items => .array (nameItems items)
  | .object fields => .object (nameFields fields)
  | .null => .null
  | .bool b => .bool b
  | .string s => .string s

/-- The items of an array after `nameNonFinite`. -/
def nameItems : List Json → List Json
  | [] => []
  | v :: vs => nameNonFinite v :: nameItems vs

/-- The fields of an object after `nameNonFinite`. -/
def nameFields : List (String × Json) → List (String × Json)
  | [] => []
  | (k, v) :: fs => (k, nameNonFinite v) :: nameFields fs

end

@[simp] theorem nameItems_eq_map (vs : List Json) : nameItems vs = vs.map nameNonFinite := by
  induction vs with
  | nil => rfl
  | cons v vs ih => rw [nameItems, ih, List.map_cons]

@[simp] theorem nameFields_eq_map (fs : List (String × Json)) :
    nameFields fs = fs.map fun f => (f.1, f.2.nameNonFinite) := by
  induction fs with
  | nil => rfl
  | cons f fs ih => rw [nameFields, ih, List.map_cons]

/-- Read a number, or the name of one that JSON lacks. -/
def readNumber? : Json → Option Float
  | .number x => some x
  | .string s =>
    if s = "NaN" then some Number.notANumber
    else if s = "Infinity" then some Number.infinity
    else if s = "-Infinity" then some (-Number.infinity)
    else none
  | _ => none

/-! ### Order of fields -/

/-- The number that a field name is, if it is one below `2 ^ 32 - 1` written without needless
zeros. -/
def index? (name : String) : Option Nat :=
  (Number.natural? name.toList).filter fun n =>
    Number.digits n = name.toList && n < 4294967295

/-- Fields with numbers for names come first, in numeric order; the others keep their order. -/
def indexFirst {α : Type} (fields : List (String × α)) : List (String × α) :=
  let indexed := fields.filterMap fun f => (index? f.1).map (·, f)
  (indexed.mergeSort fun a b => a.1 ≤ b.1).map Prod.snd ++
    fields.filter fun f => (index? f.1).isNone

example : (indexFirst [("b", 0), ("10", 1), ("2", 2), ("02", 3)]).map Prod.fst =
    ["2", "10", "b", "02"] := by cbv

end Json

end Framewise
