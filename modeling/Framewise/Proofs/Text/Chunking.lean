import Mathlib.Algebra.Ring.Nat
import Framewise.Proofs.Text.Utf8Reading
import Framewise.Text.Chunk

/-!
# Chunks leave no trace

What a stream of lines gives depends on the text of its bytes and on nothing else:

* `feed_append`: cutting a text into lines in two goes is cutting it in one.
* `received_bytes`, `received_texts`: what chunks amount to, an open sequence being kept from each
  chunk to the next.
* `LineStream.run_eq`: a run over chunks cuts what they amount to, an open line being kept as well.
-/

namespace Framewise.Text

/-! ### Lines of a text read in two goes -/

/-- Put a character in front of the first line, which may be the open one. -/
def prependChar (c : Char) (cut : List (List Char) × List Char) : List (List Char) × List Char :=
  match cut.1 with
  | [] => ([], c :: cut.2)
  | line :: lines => ((c :: line) :: lines, cut.2)

theorem feed_cons (c : Char) (cs : List Char) :
    feed (c :: cs) = if isLineFeed c then ([] :: (feed cs).1, (feed cs).2)
      else prependChar c (feed cs) := by
  rcases h : cutAt isLineFeed cs with ⟨first, more⟩
  by_cases hc : isLineFeed c = true
  · simp [feed, pieces, cutAt_cons, h, hc]
  · cases more with
    | nil => simp [feed, pieces, cutAt_cons, h, hc, prependChar]
    | cons line lines => simp [feed, pieces, cutAt_cons, h, hc, prependChar]

/-- The open line goes on with what comes next. -/
theorem feed_append (xs ys : List Char) :
    feed (xs ++ ys) =
      ((feed xs).1 ++ (feed ((feed xs).2 ++ ys)).1, (feed ((feed xs).2 ++ ys)).2) := by
  induction xs with
  | nil => simp
  | cons c xs ih =>
    rw [List.cons_append, feed_cons, feed_cons, ih]
    by_cases hc : isLineFeed c = true
    · simp [hc]
    · simp only [hc]
      cases h : (feed xs).1 with
      | nil => simp [prependChar, h, feed_cons, hc]
      | cons line lines => simp [prependChar, h]

/-! ### The text of chunks -/

/-- What chunks amount to: text as it stands, and bytes as the decoder reads them, from a state in
which a sequence may be open. -/
def received (d : Utf8.Decoder) : List Chunk → List Char
  | [] => d.finish
  | .text t :: cs => t.toList ++ received d cs
  | .bytes bs :: cs => (d.feed bs).1 ++ received (d.feed bs).2 cs

theorem received_feed (d : Utf8.Decoder) (chunks : List (List UInt8)) :
    received d (chunks.map .bytes) =
      (d.feed chunks.flatten).1 ++ (d.feed chunks.flatten).2.finish := by
  induction chunks generalizing d with
  | nil => rfl
  | cons c cs ih =>
    rw [List.map_cons, received, ih, List.flatten_cons, Utf8.Decoder.feed_append, List.append_assoc]

/-- Bytes amount to what all of them decode to, wherever they are cut. -/
theorem received_bytes (chunks : List (List UInt8)) :
    received {} (chunks.map .bytes) = Utf8.decode chunks.flatten :=
  received_feed {} chunks

/-- Texts amount to one text. -/
theorem received_texts (pieces : List String) :
    received {} (pieces.map .text) = (String.join pieces).toList := by
  induction pieces with
  | nil => rfl
  | cons t pieces ih => rw [List.map_cons, received, ih, String.join_cons, String.toList_append]

namespace LineStream

/-! ### Runs -/

/-- Text appended in two goes. -/
theorem append_append (s : LineStream) (xs ys : List Char) :
    s.append (xs ++ ys) =
      ((s.append xs).1 ++ ((s.append xs).2.append ys).1, ((s.append xs).2.append ys).2) := by
  simp only [append, ← List.append_assoc]
  rw [feed_append]
  simp [Nat.add_assoc]

theorem run_cons (s : LineStream) (c : Chunk) (cs : List Chunk) :
    s.run (c :: cs) = ((s.push c).1 ++ ((s.push c).2.run cs).1, ((s.push c).2.run cs).2) := rfl

/-- **A run cuts what the chunks amount to.** Where they were cut does not matter, not even inside a
sequence. -/
theorem run_eq (s : LineStream) (chunks : List Chunk) :
    s.run chunks =
      { s with decoder := {}, bytesRead := s.bytesRead + (chunks.map Chunk.size).sum }.append
        (received s.decoder chunks) := by
  induction chunks generalizing s with
  | nil => rfl
  | cons c cs ih =>
    rw [run_cons, ih, List.map_cons, List.sum_cons, ← Nat.add_assoc]
    cases c with
    | text t =>
      have hsplit := append_append
        { s with decoder := {}, bytesRead := s.bytesRead + t.utf8ByteSize + (cs.map Chunk.size).sum }
        t.toList (received s.decoder cs)
      exact hsplit.symm
    | bytes bs =>
      have hsplit := append_append
        { s with decoder := {}, bytesRead := s.bytesRead + bs.length + (cs.map Chunk.size).sum }
        (s.decoder.feed bs).1 (received (s.decoder.feed bs).2 cs)
      exact hsplit.symm

/-- From the start, chunks of bytes are the text that the bytes decode to. -/
theorem run_bytes_start (chunks : List (List UInt8)) :
    run {} (chunks.map .bytes) =
      append { bytesRead := chunks.flatten.length } (Utf8.decode chunks.flatten) := by
  have hsize : ((chunks.map Chunk.bytes).map Chunk.size).sum = chunks.flatten.length := by
    rw [List.map_map, List.length_flatten]
    rfl
  rw [run_eq, hsize, received_bytes, Nat.zero_add]

/-- A run over one text cuts this text. -/
theorem run_text (text : String) :
    run {} [.text text] = append { bytesRead := text.utf8ByteSize } text.toList := by
  have htext : received {} [.text text] = text.toList := List.append_nil _
  have hsize : ([Chunk.text text].map Chunk.size).sum = text.utf8ByteSize := Nat.add_zero _
  rw [run_eq, htext, hsize, Nat.zero_add]

/-- The ended lines and the open one, if it is not empty, are the lines of the text. -/
theorem lines_append (size : Nat) (text : List Char) :
    let read := append { bytesRead := size } text
    read.1 ++ (if read.2.remainder = [] then [] else [String.ofList read.2.remainder]) =
      splitLines (String.ofList text) := by
  simp only [append, splitLines, lines, String.toList_ofList, List.nil_append]
  by_cases hopen : (feed text).2 = []
  · simp [hopen]
  · simp [hopen]

end LineStream

end Framewise.Text
