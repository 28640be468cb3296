import Framewise.Proofs.Text.Pieces

/-!
# Streams that are stopped

A stream that is stopped at a line still gives the other lines of the chunk that ends this line, and
none of later chunks.

* `LineStream.through`: chunks read without ending the input; `through_append`: in two goes.
* `finish_of_settled`: the end of the input ends no line, so the lines of a run are those of its
  chunks.
* `runUntil_through`: a stopped run from any state, by induction over the chunks.
* `runUntil_stops_at_chunk`: where a run from the start stops, and what it gives.
-/

namespace Framewise.Text.LineStream

/-! ### Chunks without an end -/

/-- Read chunks and wait for more: the lines that they end, and the state after them. -/
def through (s : LineStream) : List Chunk → List String × LineStream
  | [] => ([], s)
  | c :: cs => ((s.push c).1 ++ ((s.push c).2.through cs).1, ((s.push c).2.through cs).2)

theorem through_append (s : LineStream) (cs ds : List Chunk) :
    s.through (cs ++ ds) =
      ((s.through cs).1 ++ ((s.through cs).2.through ds).1, ((s.through cs).2.through ds).2) := by
  induction cs generalizing s with
  | nil => rfl
  | cons c cs ih => rw [List.cons_append, through, ih, through, List.append_assoc]

/-- The lines of chunks, cut behind one of them. -/
theorem through_cut (s : LineStream) (before : List Chunk) (c : Chunk) (after : List Chunk) :
    (s.through (before ++ c :: after)).1 =
      (s.through (before ++ [c])).1 ++ ((s.through (before ++ [c])).2.through after).1 := by
  rw [← List.singleton_append, ← List.append_assoc, through_append]

/-- A run reads all chunks and then ends the input. -/
theorem run_eq_through (s : LineStream) (cs : List Chunk) :
    s.run cs = ((s.through cs).1 ++ (s.through cs).2.finish.1, (s.through cs).2.finish.2) := by
  induction cs generalizing s with
  | nil => rfl
  | cons c cs ih => rw [run_cons, ih, through, List.append_assoc]

/-! ### What may be left open -/

/-- A state that chunks can lead to: an open sequence that still needs bytes, and an open line
without line feeds. -/
structure Settled (s : LineStream) : Prop where
  decoder : s.decoder.Open
  remainder : '\n' ∉ s.remainder

theorem settled_start : ({} : LineStream).Settled := ⟨Utf8.Decoder.open_empty, by simp⟩

theorem Settled.push {s : LineStream} (h : s.Settled) (c : Chunk) : (s.push c).2.Settled := by
  cases c with
  | text t => exact ⟨h.decoder, not_mem_open _⟩
  | bytes bs => exact ⟨h.decoder.feed bs, not_mem_open _⟩

theorem Settled.through {s : LineStream} (h : s.Settled) (cs : List Chunk) :
    (s.through cs).2.Settled := by
  induction cs generalizing s with
  | nil => exact h
  | cons c cs ih => exact ih (h.push c)

/-- **The end of the input ends no line**: an unfinished sequence is no line feed. -/
theorem finish_of_settled {s : LineStream} (h : s.Settled) : s.finish.1 = [] := by
  have hplain : '\n' ∉ s.remainder ++ s.decoder.finish := by
    intro hmem
    rcases List.mem_append.1 hmem with hmem | hmem
    · exact h.remainder hmem
    · exact absurd (h.decoder.finish _ hmem) (by decide)
  show (feed (s.remainder ++ s.decoder.finish)).1.map String.ofList = []
  rw [feed_open hplain, List.map_nil]

theorem run_of_settled {s : LineStream} (h : s.Settled) (cs : List Chunk) :
    (s.run cs).1 = (s.through cs).1 := by
  rw [run_eq_through, finish_of_settled (h.through cs), List.append_nil]

/-! ### Stopped runs -/

theorem runUntil_of_le {s : LineStream} {stop : Nat} (h : stop ≤ s.lineCount) (cs : List Chunk) :
    s.runUntil stop cs = .stopped [] := by
  cases cs with
  | nil => rw [runUntil, if_pos h]
  | cons c cs => rw [runUntil, if_pos h]

/-- **A run that is to stop at a line**, from a state that has not reached it. Either the chunks do
not reach it, and the run is a whole one; or one of them is the first to reach it, and the run gives
all lines up to the end of this chunk. -/
theorem runUntil_through {s : LineStream} {stop : Nat} (h : s.lineCount < stop) (cs : List Chunk) :
    (s.lineCount + (s.through cs).1.length < stop ∧
      s.runUntil stop cs = .finished (s.run cs).1 (s.run cs).2) ∨
    ∃ before c after, cs = before ++ c :: after ∧
      s.lineCount + (s.through before).1.length < stop ∧
      stop ≤ s.lineCount + (s.through (before ++ [c])).1.length ∧
      s.runUntil stop cs = .stopped (s.through (before ++ [c])).1 := by
  induction cs generalizing s with
  | nil =>
    left
    refine ⟨h, ?_⟩
    rw [runUntil, if_neg (Nat.not_le.2 h)]
    rfl
  | cons c cs ih =>
    have hstep : s.runUntil stop (c :: cs) = ((s.push c).2.runUntil stop cs).prepend (s.push c).1 := by
      rw [runUntil, if_neg (Nat.not_le.2 h)]
    have hcount := lineCount_push s c
    by_cases hreached : stop ≤ (s.push c).2.lineCount
    · right
      refine ⟨[], c, cs, rfl, h, ?_, ?_⟩
      · rw [hcount] at hreached
        simpa [through] using hreached
      · rw [hstep, runUntil_of_le hreached]
        rfl
    · rw [Nat.not_le] at hreached
      rcases ih hreached with ⟨hshort, hrun⟩ | ⟨before, d, after, rfl, hbefore, hafter, hrun⟩
      · left
        rw [hcount, Nat.add_assoc, ← List.length_append] at hshort
        refine ⟨hshort, ?_⟩
        rw [hstep, hrun, run_cons]
        rfl
      · right
        rw [hcount, Nat.add_assoc, ← List.length_append] at hbefore hafter
        refine ⟨c :: before, d, after, rfl, hbefore, hafter, ?_⟩
        rw [hstep, hrun]
        rfl

/-- **A stop gives whole chunks.** Let `whole` be the run of a stream that is not stopped; all its
lines are those that its chunks end.

* A stream that is stopped before it starts gives no line.
* If the stream has fewer lines than the stop, the run is the whole one.
* If it has enough, there is a chunk that ends the line of the stop, the chunks before it having
  ended fewer. The run stops there without a result, and gives the lines of the whole run up to the
  end of this chunk and no others. -/
theorem runUntil_stops_at_chunk (chunks : List Chunk) (n : Nat) :
    let whole := run {} chunks
    whole.1 = (through {} chunks).1 ∧
    runUntil {} 0 chunks = .stopped [] ∧
    (1 ≤ n → whole.1.length < n → runUntil {} n chunks = .finished whole.1 whole.2) ∧
    (1 ≤ n → n ≤ whole.1.length → ∃ before c after, chunks = before ++ c :: after ∧
      (through {} before).1.length < n ∧ n ≤ (through {} (before ++ [c])).1.length ∧
      whole.1 = (through {} (before ++ [c])).1 ++ (((through {} (before ++ [c])).2).through after).1 ∧
      runUntil {} n chunks = .stopped (through {} (before ++ [c])).1) := by
  intro whole
  have hlines : whole.1 = (through {} chunks).1 := run_of_settled settled_start chunks
  have hstart : ∀ k, ({} : LineStream).lineCount + k = k := Nat.zero_add
  refine ⟨hlines, runUntil_of_le (Nat.le_refl 0) chunks, ?_, ?_⟩
  · intro hn hfew
    rcases runUntil_through (s := {}) hn chunks with ⟨-, hrun⟩ | ⟨before, c, after, rfl, -, hreached, -⟩
    · exact hrun
    · rw [hlines, through_cut, List.length_append] at hfew
      rw [hstart] at hreached
      omega
  · intro hn hmany
    rcases runUntil_through (s := {}) hn chunks with
      ⟨hshort, -⟩ | ⟨before, c, after, rfl, hbefore, hreached, hrun⟩
    · rw [hstart, ← hlines] at hshort
      omega
    · refine ⟨before, c, after, rfl, ?_, ?_, ?_, hrun⟩
      · rwa [hstart] at hbefore
      · rwa [hstart] at hreached
      · rw [hlines, through_cut]

/-- The second line is ended by the second chunk, inside a character that only the third completes.
The line after it in the same chunk is given as well. -/
theorem runUntil_stops_at_chunk_inside :
    let chunks : List Chunk :=
      [.text "a\n", .bytes [0x62, 0x0A, 0x63, 0x0A, 0xE2, 0x82], .bytes [0xAC, 0x0A]]
    2 ≤ (run {} chunks).1.length ∧
    ∃ before c after, chunks = before ++ c :: after ∧
      (through {} before).1.length < 2 ∧ 2 ≤ (through {} (before ++ [c])).1.length ∧
      runUntil {} 2 chunks = .stopped (through {} (before ++ [c])).1 ∧
      runUntil {} 2 chunks = .stopped ["a", "b", "c"] := by
  intro chunks
  have hmany : 2 ≤ (run {} chunks).1.length := by decide
  obtain ⟨before, c, after, hcut, hbefore, hreached, -, hrun⟩ :=
    (runUntil_stops_at_chunk chunks 2).2.2.2 (by decide) hmany
  exact ⟨hmany, before, c, after, hcut, hbefore, hreached, hrun, by decide⟩

end Framewise.Text.LineStream
