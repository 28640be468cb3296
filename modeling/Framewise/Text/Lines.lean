import Framewise.Text.Blank

/-!
# Lines

A line feed ends a line. `feed` cuts a text into its ended lines and the open one after the
last line feed; `lines` counts the open one as a line unless it is empty.

Only the line feed cuts. A carriage return before it stays on the line, and
`dropTerminator` takes one terminator (LF, CR or CR LF) off a line's end.
-/

namespace Framewise.Text

/-- The character at which texts are cut into lines. -/
def isLineFeed (c : Char) : Bool := c == '\n'

/-- The ended lines of `cs`, and the open line that follows them. -/
def feed (cs : List Char) : List (List Char) × List Char :=
  ((pieces isLineFeed cs).dropLast, (pieces isLineFeed cs).getLast (by simp [pieces]))

/-- All lines of `cs`: the ended ones, and the open one when it is not empty. -/
def lines (cs : List Char) : List (List Char) :=
  let (ended, rest) := feed cs
  if rest = [] then ended else ended ++ [rest]

/-- The lines of a text. The empty text has none, and a final line feed opens no line. -/
def splitLines (text : String) : List String :=
  (lines text.toList).map String.ofList

/-- A text without one line terminator at its end. -/
def dropTerminator (cs : List Char) : List Char :=
  match cs.reverse with
  | '\n' :: '\r' :: rest => rest.reverse
  | '\n' :: rest => rest.reverse
  | '\r' :: rest => rest.reverse
  | _ => cs

@[simp] theorem feed_nil : feed [] = ([], []) := rfl

example : lines "a\n\nb".toList = [['a'], [], ['b']] ∧ lines "a\n".toList = [['a']] ∧
    lines [] = [] ∧ lines ['\n'] = [[]] := by decide

example : dropTerminator "a\r\n".toList = ['a'] ∧ dropTerminator "a\n\r".toList = ['a', '\n'] := by
  decide

end Framewise.Text
