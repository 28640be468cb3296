/-!
# UTF-8, chunk by chunk

A `Decoder` reads bytes one at a time and holds back an unfinished sequence: a lead byte and
fewer continuation bytes than it announces. The sequence is read when it is full, or when
another byte interrupts it, or at the end of the input.

A sequence that is no character gives replacement characters, one for each maximal part that
could have begun one: an unfinished but otherwise lawful sequence is one such part, and in an
unlawful sequence every byte is a part of its own. A byte order mark is a character like any
other.

Reading is a fold over the bytes, so the way they are cut into chunks cannot matter.
-/

namespace Framewise.Text.Utf8

/-- The character that stands for bytes that are no character. -/
def replacement : Char := '\uFFFD'

/-- A byte that goes on with a sequence. -/
def isContinuation (b : UInt8) : Bool :=
  0x80 ≤ b && b < 0xC0

/-- The length of the sequence that a byte announces, itself included. -/
def announced (b : UInt8) : Nat :=
  if b < 0xC0 then 1
  else if b < 0xE0 then 2
  else if b < 0xF0 then 3
  else if b < 0xF8 then 4
  else 1

/-- Whether some character begins with the lead byte `lead` and the continuation byte
`second`: no overlong form, no surrogate, nothing above the last code point. -/
def admits (lead second : UInt8) : Bool :=
  if lead < 0xC2 || 0xF4 < lead then false
  else if lead == 0xE0 then 0xA0 ≤ second
  else if lead == 0xED then second < 0xA0
  else if lead == 0xF0 then 0x90 ≤ second
  else if lead == 0xF4 then second < 0x90
  else true

/-- The code point of a lead byte and the continuation bytes after it. -/
def codePoint (lead : UInt8) (more : List UInt8) : Nat :=
  let bits := match more.length with
    | 0 => lead.toNat
    | 1 => lead.toNat % 0x20
    | 2 => lead.toNat % 0x10
    | _ => lead.toNat % 0x08
  more.foldl (fun n b => n * 0x40 + b.toNat % 0x40) bits

/-- The characters of one sequence, finished or not. -/
def readSequence : List UInt8 → List Char
  | [] => []
  | [b] => if b < 0x80 then [Char.ofNat b.toNat] else [replacement]
  | lead :: second :: more =>
    if !admits lead second then (lead :: second :: more).map fun _ => replacement
    else if more.length + 2 < announced lead then [replacement]
    else [Char.ofNat (codePoint lead (second :: more))]

/-- The state between two bytes: the bytes of the unfinished sequence, if there is one. -/
structure Decoder where
  pending : List UInt8 := []
deriving DecidableEq, Repr

namespace Decoder

/-- Read a byte that begins a sequence. -/
def start (b : UInt8) : List Char × Decoder :=
  if announced b = 1 then (readSequence [b], {}) else ([], ⟨[b]⟩)

/-- Read one byte: the characters that it settles, and the state after it. -/
def push (d : Decoder) (b : UInt8) : List Char × Decoder :=
  match d.pending with
  | [] => start b
  | lead :: more =>
    if isContinuation b then
      let sequence := lead :: more ++ [b]
      if sequence.length < announced lead then ([], ⟨sequence⟩) else (readSequence sequence, {})
    else
      let (settled, next) := start b
      (readSequence (lead :: more) ++ settled, next)

/-- One step of `feed`, on the characters read so far in reverse. -/
def step (s : List Char × Decoder) (b : UInt8) : List Char × Decoder :=
  let (settled, next) := s.2.push b
  (settled.reverse ++ s.1, next)

/-- Read a chunk of bytes: the characters that it settles, and the state after it. -/
def feed (d : Decoder) (bytes : List UInt8) : List Char × Decoder :=
  let (read, next) := bytes.foldl step ([], d)
  (read.reverse, next)

/-- The characters of the sequence that the end of the input leaves unfinished. -/
def finish (d : Decoder) : List Char :=
  readSequence d.pending

end Decoder

/-- The text of a whole byte sequence. -/
def decode (bytes : List UInt8) : List Char :=
  let (read, last) := ({} : Decoder).feed bytes
  read ++ last.finish

/-- The bytes of a text. -/
def encode (text : String) : List UInt8 :=
  text.toUTF8.toList

/-! ### Chunks -/

namespace Decoder

/-- The characters read before a step stay in front of those it adds. -/
theorem foldl_step (bytes : List UInt8) (read : List Char) (d : Decoder) :
    bytes.foldl step (read, d) =
      ((bytes.foldl step ([], d)).1 ++ read, (bytes.foldl step ([], d)).2) := by
  induction bytes generalizing read d with
  | nil => rfl
  | cons b bs ih =>
    simp only [List.foldl_cons, step]
    rw [ih, ih (_ ++ [])]
    simp

@[simp] theorem feed_nil (d : Decoder) : d.feed [] = ([], d) := rfl

/-- Two chunks read one after the other give what one chunk of both gives. -/
theorem feed_append (d : Decoder) (a b : List UInt8) :
    d.feed (a ++ b) =
      ((d.feed a).1 ++ ((d.feed a).2.feed b).1, ((d.feed a).2.feed b).2) := by
  simp only [feed, List.foldl_append]
  rw [show a.foldl step ([], d) = ((a.foldl step ([], d)).1, (a.foldl step ([], d)).2) from rfl,
    foldl_step]
  simp

end Decoder

example : decode [0x61, 0xE2, 0x82, 0xAC, 0xF0, 0x9F, 0x98, 0x80] = ['a', '€', '😀'] := by decide

example : decode [0xED, 0xA0, 0x80] = [replacement, replacement, replacement] ∧
    decode [0xE2, 0x82, 0x61] = [replacement, 'a'] ∧ decode [0xC0] = [replacement] := by decide

end Framewise.Text.Utf8
