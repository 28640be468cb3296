import Framewise.Text.Lines
import Framewise.Text.Utf8

/-!
# Lines from chunks

A log arrives in chunks of text or of bytes. A `LineStream` keeps what the chunks so far have
left open: an unfinished UTF-8 sequence and an unfinished line. Each chunk gives the lines
that it ends; the end of the input settles the open sequence and leaves the open line as the
`remainder`.

A stream can be stopped at a line. The lines of the chunk that ends this line are all given,
those of later chunks are not.
-/

namespace Framewise.Text

/-- A piece of input. -/
inductive Chunk where
  | text (s : String)
  | bytes (bs : List UInt8)
deriving DecidableEq, Repr

/-- The number of bytes of a chunk; text counts as its UTF-8 form. -/
def Chunk.size : Chunk → Nat
  | .text s => s.utf8ByteSize
  | .bytes bs => bs.length

/-- The bytes of a chunk; text has those of its UTF-8 form. -/
def Chunk.toBytes : Chunk → List UInt8
  | .text s => Utf8.encode s
  | .bytes bs => bs

/-- A chunk as a text of its own. -/
def Chunk.decode : Chunk → String
  | .text s => s
  | .bytes bs => String.ofList (Utf8.decode bs)

/-- The state between two chunks. -/
structure LineStream where
  decoder : Utf8.Decoder := {}
  remainder : List Char := []
  bytesRead : Nat := 0
  lineCount : Nat := 0
deriving DecidableEq, Repr

namespace LineStream

/-- Add text after the open line: the lines that it ends, and the state after it. -/
def append (s : LineStream) (text : List Char) : List String × LineStream :=
  let (ended, rest) := Text.feed (s.remainder ++ text)
  (ended.map String.ofList,
    { s with remainder := rest, lineCount := s.lineCount + ended.length })

/-- Read a chunk. Text between two byte chunks does not wait for an unfinished sequence. -/
def push (s : LineStream) : Chunk → List String × LineStream
  | .text t => { s with bytesRead := s.bytesRead + t.utf8ByteSize }.append t.toList
  | .bytes bs =>
    let (read, decoder) := s.decoder.feed bs
    { s with decoder, bytesRead := s.bytesRead + bs.length }.append read

/-- End the input: an unfinished sequence is read as it stands. -/
def finish (s : LineStream) : List String × LineStream :=
  { s with decoder := {} }.append s.decoder.finish

/-- Read chunks to the end of the input: all lines, and the last state. -/
def run (s : LineStream) : List Chunk → List String × LineStream
  | [] => s.finish
  | c :: cs =>
    let (ended, next) := s.push c
    let (later, last) := next.run cs
    (ended ++ later, last)

/-- What a stream with a stop gives: its lines up to the end of the chunk that reaches the
stop, or, when the stop is not reached, all of them and the last state. -/
inductive Outcome where
  | stopped (lines : List String)
  | finished (lines : List String) (last : LineStream)
deriving DecidableEq, Repr

/-- Put lines in front of an outcome. -/
def Outcome.prepend (earlier : List String) : Outcome → Outcome
  | .stopped lines => .stopped (earlier ++ lines)
  | .finished lines last => .finished (earlier ++ lines) last

/-- Read chunks until line number `stop` has been ended. Nothing is read for `stop = 0`. -/
def runUntil (s : LineStream) (stop : Nat) (chunks : List Chunk) : Outcome :=
  if stop ≤ s.lineCount then .stopped []
  else match chunks with
    | [] => let (lines, last) := s.finish; .finished lines last
    | c :: cs =>
      let (ended, next) := s.push c
      (next.runUntil stop cs).prepend ended

end LineStream

/-- The number of lines a stream has ended is what it has counted. -/
theorem LineStream.lineCount_push (s : LineStream) (c : Chunk) :
    (s.push c).2.lineCount = s.lineCount + (s.push c).1.length := by
  cases c <;> simp [push, append]

example : (LineStream.run {} [.text "a\nb", .bytes [0xE2, 0x82], .bytes [0xAC, 0x0A, 0x63]]) =
    (["a", "b€"], { remainder := ['c'], bytesRead := 8, lineCount := 2 }) := by decide

end Framewise.Text
