/-!
# Blank characters

Which characters count as white space between the words of a line, which ones end a line
inside a word, and the three cuts that follow from the first class: `trim` takes the blanks
off both ends, `words` gives the maximal blank-free runs, `splitLast?` separates the last
word from what stands before it.

The class is wider than ASCII: it holds every space separator of Unicode and the byte order
mark, but not NEXT LINE or ZERO WIDTH SPACE.
-/

namespace Framewise.Text

/-- Code points of the blank characters, as closed ranges in ascending order. -/
def blankRanges : List (Nat × Nat) :=
  [(0x09, 0x0D), (0x20, 0x20), (0xA0, 0xA0), (0x1680, 0x1680), (0x2000, 0x200A),
   (0x2028, 0x2029), (0x202F, 0x202F), (0x205F, 0x205F), (0x3000, 0x3000), (0xFEFF, 0xFEFF)]

/-- A character that separates words. -/
def isBlank (c : Char) : Bool :=
  blankRanges.any fun r => r.1 ≤ c.toNat && c.toNat ≤ r.2

/-- A character that ends a line: LF, CR, LINE SEPARATOR or PARAGRAPH SEPARATOR. -/
def isLineBreak (c : Char) : Bool :=
  c == '\n' || c == '\r' || c == '\u2028' || c == '\u2029'

/-- Every line break is blank, so no word holds one. -/
theorem isBlank_of_isLineBreak {c : Char} (h : isLineBreak c = true) : isBlank c = true := by
  simp only [isLineBreak, Bool.or_eq_true, beq_iff_eq] at h
  rcases h with ((rfl | rfl) | rfl) | rfl <;> decide

example : blankRanges.length = 10 ∧ (blankRanges.map fun r => r.2 - r.1 + 1).sum = 25 := by decide

example : isBlank '\u0085' = false ∧ isBlank '\u200B' = false ∧ isBlank '\u180E' = false := by
  decide

/-! ### Cuts -/

/-- Drop the longest tail of `cs` on which `p` holds. -/
def dropTail (p : Char → Bool) (cs : List Char) : List Char :=
  (cs.reverse.dropWhile p).reverse

/-- The longest tail of `cs` on which `p` holds. -/
def takeTail (p : Char → Bool) (cs : List Char) : List Char :=
  (cs.reverse.takeWhile p).reverse

/-- A text is its shortened form followed by the tail that was dropped. -/
theorem dropTail_append_takeTail (p : Char → Bool) (cs : List Char) :
    dropTail p cs ++ takeTail p cs = cs := by
  rw [dropTail, takeTail, ← List.reverse_append, List.takeWhile_append_dropWhile,
    List.reverse_reverse]

/-- A text without the blanks at its two ends. -/
def trim (cs : List Char) : List Char :=
  dropTail isBlank (cs.dropWhile isBlank)

/-- Cut `cs` at every character that satisfies `p`: the piece before the first cut and the
pieces after each cut, none of which holds such a character. -/
def cutAt (p : Char → Bool) (cs : List Char) : List Char × List (List Char) :=
  cs.foldr (fun c pieces => if p c then ([], pieces.1 :: pieces.2) else (c :: pieces.1, pieces.2))
    ([], [])

@[simp] theorem cutAt_nil (p : Char → Bool) : cutAt p [] = ([], []) := rfl

@[simp] theorem cutAt_cons (p : Char → Bool) (c : Char) (cs : List Char) :
    cutAt p (c :: cs) =
      if p c then ([], (cutAt p cs).1 :: (cutAt p cs).2)
      else (c :: (cutAt p cs).1, (cutAt p cs).2) := rfl

/-- All pieces of `cs` between the characters that satisfy `p`. -/
def pieces (p : Char → Bool) (cs : List Char) : List (List Char) :=
  (cutAt p cs).1 :: (cutAt p cs).2

/-- The maximal blank-free runs of `cs`, in order. -/
def words (cs : List Char) : List (List Char) :=
  (pieces isBlank cs).filter (· ≠ [])

/-- What stands before the last word of `cs`, with the blanks between the two taken off, and
that word. Only texts of at least two words have such a cut. The text is meant to be
trimmed: a word that ends it is then its maximal blank-free tail. -/
def splitLast? (cs : List Char) : Option (List Char × List Char) :=
  let last := takeTail (!isBlank ·) cs
  let before := dropTail isBlank (dropTail (!isBlank ·) cs)
  if before = [] ∨ last = [] then none else some (before, last)

example : words "  Stats Viewer :\u00A0n 1 ".toList =
    ["Stats".toList, "Viewer".toList, ":".toList, "n".toList, "1".toList] := by decide

example : splitLast? "Time taken  0.5".toList = some ("Time taken".toList, "0.5".toList) := by
  decide

end Framewise.Text
