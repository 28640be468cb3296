/-!
# Sixteen-bit units

Lengths, order and padding of texts are counted in 16-bit units: a character beyond the
basic plane takes two of them, a lead unit below 0xDC00 and a trail unit above it. The order
by units differs from the order by code points: a character of two units comes before the
characters 0xE000 to 0xFFFF.
-/

namespace Framewise.Text

/-- The units of one character. -/
def charUnits (c : Char) : List Nat :=
  if c.toNat < 0x10000 then [c.toNat]
  else [0xD800 + (c.toNat - 0x10000) / 0x400, 0xDC00 + (c.toNat - 0x10000) % 0x400]

/-- The units of a text. -/
def units (s : String) : List Nat :=
  s.toList.flatMap charUnits

/-- The number of units of a text. -/
def width (s : String) : Nat :=
  (units s).length

/-- Order of texts by their units. -/
def unitsLT (a b : String) : Bool :=
  decide (units a < units b)

/-- The texts in ascending order of their units. -/
def sortByUnits (texts : List String) : List String :=
  texts.mergeSort fun a b => !unitsLT b a

/-- A text with blanks after it up to `w` units. -/
def padEnd (s : String) (w : Nat) : String :=
  s ++ String.ofList (List.replicate (w - width s) ' ')

/-- The longest beginning of `cs` that takes at most `n` units. -/
def takeUnits : Nat → List Char → List Char
  | _, [] => []
  | n, c :: cs =>
    if (charUnits c).length ≤ n then c :: takeUnits (n - (charUnits c).length) cs else []

/-- Code points end at 0x10FFFF. -/
theorem toNat_lt_max (c : Char) : c.toNat < 0x110000 := by
  have h := c.valid
  simp only [UInt32.isValidChar, Nat.isValidChar] at h
  change c.val.toNat < _
  omega

example : width "a😀" = 3 ∧ unitsLT "😀" "\uFFFD" = true ∧ decide ("😀" < "\uFFFD") = false := by
  decide

end Framewise.Text
