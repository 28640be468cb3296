import Framewise.Log.Source
import Framewise.Proofs.Outcome
import Framewise.Proofs.Text.Chunking

/-!
# Loading reads the lines of a text

However the bytes of a log arrive, loading it is reading the lines of their text, with the number
of bytes and of lines beside the records. `load_bytes` says this of any chunks of bytes,
`loadText_eq` of a text that is there as a whole; both end in `readText`, so they give the same
records or the same error.
-/

namespace Framewise.Log

/-- A log with its counts, from its records. -/
def loadedOf (name text : String) (bytesRead : Nat) (records : List Record) : Loaded :=
  ⟨name, records, bytesRead, (Text.splitLines text).length⟩

/-- A run that has cut a text loads the lines of this text. -/
theorem load_eq_readText {name : String} {chunks : List Text.Chunk} {size : Nat}
    {text : List Char}
    (h : Text.LineStream.run {} chunks = Text.LineStream.append { bytesRead := size } text) :
    load name chunks =
      (readText (some name) (String.ofList text)).map (loadedOf name (String.ofList text) size) := by
  have hlines := Text.LineStream.lines_append size text
  have hsize : (Text.LineStream.append { bytesRead := size } text).2.bytesRead = size := rfl
  simp only [load, h]
  generalize Text.LineStream.append { bytesRead := size } text = read at hlines hsize ⊢
  have hlines' : (if read.2.remainder = [] then read.1
      else read.1 ++ [String.ofList read.2.remainder]) = Text.splitLines (String.ofList text) := by
    rw [← hlines]
    split
    · exact (List.append_nil _).symm
    · rfl
  rw [hlines', hsize, readText]
  rcases readRecords (some name) (Text.splitLines (String.ofList text)) with ⟨records, _ | e⟩
  · rfl
  · rfl

/-- Loading chunks of bytes reads the lines of the text that all bytes decode to. -/
theorem load_bytes (name : String) (chunks : List (List UInt8)) :
    load name (chunks.map .bytes) =
      (readText (some name) (String.ofList (Text.Utf8.decode chunks.flatten))).map
        (loadedOf name (String.ofList (Text.Utf8.decode chunks.flatten)) chunks.flatten.length) :=
  load_eq_readText (Text.LineStream.run_bytes_start chunks)

/-- Loading a text reads its lines. -/
theorem loadText_eq (name text : String) :
    loadText name text =
      (readText (some name) text).map (loadedOf name text text.utf8ByteSize) := by
  have h := @load_eq_readText name _ _ _ (Text.LineStream.run_text text)
  rw [String.ofList_toList] at h
  exact h

/-- Files are loaded one for each path. -/
theorem loadFiles_eq_mapM (directory : String → Option Text.Chunk) (paths : List String) :
    loadFiles directory paths = paths.mapM (loadFile directory) := by
  induction paths with
  | nil => rfl
  | cons path paths ih => rw [loadFiles, ih, mapM_cons_eq]

/-- **Chunking is invisible.** Let a log arrive in any chunks of bytes, and let `text` be what
all its bytes decode to: the one reading in which every maximal ill-formed part is one
replacement character.

* The lines, the remainder and both counts are those of a single chunk.
* The bytes are all counted, and so are the lines that were ended.
* The ended lines, with the remainder when it is not empty, are the lines of the text.
* Loading the chunks, loading the text and reading the text give the same records with these
  counts, or fail with the same error. -/
theorem load_chunks_eq_readText (name : String) (chunks : List (List UInt8)) :
    let bytes := chunks.flatten
    let text := String.ofList (Text.Utf8.decode bytes)
    let read := Text.LineStream.run {} (chunks.map .bytes)
    (∀ cs, Text.Utf8.Reads bytes cs ↔ cs = text.toList) ∧
    read = Text.LineStream.run {} [.bytes bytes] ∧
    read.2.bytesRead = bytes.length ∧
    read.2.lineCount = read.1.length ∧
    read.1 ++ (if read.2.remainder = [] then [] else [String.ofList read.2.remainder]) =
      Text.splitLines text ∧
    load name (chunks.map .bytes) =
      (readText (some name) text).map
        (fun records => ⟨name, records, bytes.length, (Text.splitLines text).length⟩) ∧
    loadText name text =
      (readText (some name) text).map
        (fun records => ⟨name, records, text.utf8ByteSize, (Text.splitLines text).length⟩) := by
  intro bytes text read
  have hread : read = Text.LineStream.append { bytesRead := bytes.length }
      (Text.Utf8.decode bytes) := Text.LineStream.run_bytes_start chunks
  have hone : Text.LineStream.run {} [.bytes bytes] =
      Text.LineStream.append { bytesRead := bytes.length } (Text.Utf8.decode bytes) := by
    have h := Text.LineStream.run_bytes_start [bytes]
    rw [List.flatten_singleton] at h
    exact h
  refine ⟨?_, ?_, ?_, ?_, ?_, ?_, ?_⟩
  · intro cs
    rw [String.toList_ofList]
    exact Text.Utf8.reads_iff
  · rw [hread, hone]
  · rw [hread]
    rfl
  · rw [hread]
    simp [Text.LineStream.append]
  · rw [hread]
    exact Text.LineStream.lines_append bytes.length (Text.Utf8.decode bytes)
  · exact load_bytes name chunks
  · exact loadText_eq name text

end Framewise.Log
