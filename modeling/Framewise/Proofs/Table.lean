import Framewise.Proofs.Json.Numbers
import Framewise.Proofs.Text.Pieces
import Framewise.Table

/-!
# Tables can be read back

The lines of a table are as wide as each other, and its cells can be cut out of them again: a pipe that
belongs to a cell stands directly behind a backslash, and one that ends a cell behind a space. Only the
spaces at the end of a cell are lost, since cells are padded with them.

* `cutBare_cell`: where the first cell of a line ends.
* `readCell_padded`: what is read of a cell.
* `fits_widths`: no cell is wider than its column.
* `render_readable`: the lines of a table, what is read of them, and that tables which look the same
  have the same cells.
-/

namespace Framewise

/-! ### Texts of numbers -/

namespace Number

open Text (isBlank)

theorem blankFree_place (layout : Layout) {ds : List Char} (h : ∀ d ∈ ds, isBlank d = false)
    (point : ℤ) : ∀ c ∈ layout.place ds point, isBlank c = false := by
  have hzeros : ∀ n, ∀ c ∈ List.replicate n '0', isBlank c = false := by
    intro n c hc
    rw [List.eq_of_mem_replicate hc]
    rfl
  have hexponent : ∀ e, ∀ c ∈ exponentText e, isBlank c = false := by
    intro e
    refine List.forall_mem_cons.2 ⟨rfl, List.forall_mem_cons.2 ⟨?_, ?_⟩⟩
    · split <;> rfl
    · exact fun c hc => Text.not_isBlank_of_isDigit (digits_isDigit hc)
  unfold Layout.place
  simp only
  split
  · exact List.forall_mem_append.2 ⟨h, hzeros _⟩
  split
  · refine List.forall_mem_append.2 ⟨fun c hc => h c (List.mem_of_mem_take hc), ?_⟩
    exact List.forall_mem_cons.2 ⟨rfl, fun c hc => h c (List.mem_of_mem_drop hc)⟩
  split
  · exact List.forall_mem_cons.2 ⟨rfl, List.forall_mem_cons.2 ⟨rfl,
      List.forall_mem_append.2 ⟨hzeros _, h⟩⟩⟩
  · refine List.forall_mem_append.2 ⟨?_, hexponent _⟩
    match ds, h with
    | [], _ => simp
    | [d], h => exact h
    | d :: d' :: more, h =>
      obtain ⟨hd, hmore⟩ := List.forall_mem_cons.1 h
      exact List.forall_mem_cons.2 ⟨hd, List.forall_mem_cons.2 ⟨rfl, hmore⟩⟩

/-- **The text of a number holds no blank.** -/
theorem blankFree_chars (x : Float) : ∀ c ∈ chars x, isBlank c = false := by
  have hsign : ∀ negative cs, (∀ c ∈ cs, isBlank c = false) →
      ∀ c ∈ withSign negative cs, isBlank c = false := by
    intro negative cs h
    cases negative with
    | false => exact h
    | true => exact List.forall_mem_cons.2 ⟨rfl, h⟩
  unfold chars
  cases read x with
  | notANumber => exact fun c hc => by fin_cases hc <;> rfl
  | infinite negative => exact hsign _ _ fun c hc => by fin_cases hc <;> rfl
  | finite negative m e =>
    simp only
    split
    · exact List.forall_mem_singleton.2 rfl
    · apply hsign
      apply blankFree_place
      exact fun c hc => Text.not_isBlank_of_isDigit (digits_isDigit hc)

end Number

namespace Table

/-! ### Cells -/

/-- A character inside a cell. -/
def escapeChar (c : Char) : List Char :=
  if c = '|' then ['\\', '|'] else [c]

theorem toList_escape (s : String) : (escape s).toList = s.toList.flatMap escapeChar := by
  rw [escape, String.toList_ofList]
  rfl

theorem escapeChar_of_ne {c : Char} (h : c ≠ '|') : escapeChar c = [c] := if_neg h

/-- A text with `\|` undone. -/
def unescape : List Char → List Char
  | '\\' :: '|' :: cs => '|' :: unescape cs
  | c :: cs => c :: unescape cs
  | [] => []

/-- A text without the spaces at its end. -/
def strip (s : String) : String :=
  String.ofList (Text.dropTail (· = ' ') s.toList)

/-- A text without a space at its beginning. -/
def dropSpace : List Char → List Char
  | ' ' :: cs => cs
  | cs => cs

/-- What a cell of a line says: one space before it is dropped, `\|` undone, and the spaces at its end
are left out. -/
def readCell (piece : List Char) : String :=
  strip (String.ofList (unescape (dropSpace piece)))

theorem unescape_cons {c : Char} {cs : List Char} (h : c = '\\' → cs.head? ≠ some '|') :
    unescape (c :: cs) = c :: unescape cs := by
  rw [unescape.eq_def]
  split
  · next hpipe =>
    obtain ⟨rfl, rfl⟩ := List.cons.inj hpipe
    exact absurd rfl (h rfl)
  · next hcons =>
    obtain ⟨rfl, rfl⟩ := List.cons.inj hcons
    rfl
  · next hnil => cases hnil

/-- No text inside a cell begins with a pipe. -/
theorem head?_escape (cs : List Char) {rest : List Char} (h : rest.head? ≠ some '|') :
    (cs.flatMap escapeChar ++ rest).head? ≠ some '|' := by
  cases cs with
  | nil => exact h
  | cons c cs =>
    rw [List.flatMap_cons]
    unfold escapeChar
    split <;> simp_all

theorem unescape_escape (cs : List Char) {rest : List Char} (h : rest.head? ≠ some '|') :
    unescape (cs.flatMap escapeChar ++ rest) = cs ++ unescape rest := by
  induction cs with
  | nil => rfl
  | cons c cs ih =>
    rw [List.flatMap_cons, List.append_assoc]
    by_cases hc : c = '|'
    · subst hc
      show '|' :: unescape (cs.flatMap escapeChar ++ rest) = _
      rw [ih]
      rfl
    · -- A backslash of the text stays, since what is behind it is no bare pipe.
      rw [escapeChar_of_ne hc, List.singleton_append, unescape_cons fun _ => head?_escape cs h, ih]
      rfl

theorem unescape_spaces (k : ℕ) : unescape (List.replicate k ' ') = List.replicate k ' ' := by
  induction k with
  | zero => rfl
  | succ k ih => rw [List.replicate_succ, unescape_cons (by simp), ih]

theorem strip_spaces (s : String) (k : ℕ) :
    strip (String.ofList (s.toList ++ List.replicate k ' ')) = strip s := by
  unfold strip Text.dropTail
  rw [String.toList_ofList, List.reverse_append, List.reverse_replicate,
    List.dropWhile_append_of_pos]
  intro c hc
  rw [List.eq_of_mem_replicate hc]
  rfl

/-- **What is read of a cell** is its text, up to spaces at the end. -/
theorem readCell_padded (s : String) (k : ℕ) :
    readCell (' ' :: ((escape s).toList ++ List.replicate k ' ')) = strip s := by
  have hrest : (List.replicate k ' ').head? ≠ some '|' := by
    cases k with
    | zero => simp
    | succ k => simp [List.replicate_succ]
  unfold readCell
  show strip (String.ofList (unescape ((escape s).toList ++ List.replicate k ' '))) = _
  rw [toList_escape, unescape_escape _ hrest, unescape_spaces, strip_spaces]

/-! ### Cutting a line -/

/-- Cut a text at the pipes that do not stand directly behind a backslash. The flag says whether there
is one before the text. -/
def cutBare (behind : Bool) : List Char → List (List Char)
  | [] => [[]]
  | c :: cs =>
    if c = '|' ∧ behind = false then [] :: cutBare false cs
    else (cutBare (c == '\\') cs).modifyHead (c :: ·)

theorem cutBare_spaces (k : ℕ) (behind : Bool) (rest : List Char) :
    cutBare behind (List.replicate (k + 1) ' ' ++ '|' :: rest) =
      List.replicate (k + 1) ' ' :: cutBare false rest := by
  have hspace : ∀ behind cs, cutBare behind (' ' :: cs) = (cutBare false cs).modifyHead (' ' :: ·) := by
    intro behind cs
    exact if_neg (by simp)
  induction k generalizing behind with
  | zero =>
    show cutBare behind (' ' :: '|' :: rest) = _
    rw [hspace, cutBare, if_pos (by decide)]
    rfl
  | succ k ih =>
    rw [List.replicate_succ, List.cons_append, hspace, ih]
    rfl

/-- **A cell ends at the first pipe behind a space.** The pipes inside of it stand behind a
backslash. -/
theorem cutBare_cell (cs : List Char) (k : ℕ) (behind : Bool) (rest : List Char) :
    cutBare behind (cs.flatMap escapeChar ++ (List.replicate (k + 1) ' ' ++ '|' :: rest)) =
      (cs.flatMap escapeChar ++ List.replicate (k + 1) ' ') :: cutBare false rest := by
  induction cs generalizing behind with
  | nil => exact cutBare_spaces k behind rest
  | cons c cs ih =>
    rw [List.flatMap_cons, List.append_assoc]
    by_cases hc : c = '|'
    · -- The backslash is no pipe, and the pipe stands behind it. Nothing stands behind a backslash after
      -- that, even if the text before ended with one.
      subst hc
      show cutBare behind ('\\' :: '|' :: (cs.flatMap escapeChar ++ _)) = _
      rw [cutBare, if_neg (by simp), cutBare, if_neg (by simp), ih]
      rfl
    · rw [escapeChar_of_ne hc, List.singleton_append, cutBare, if_neg (fun h => hc h.1), ih]
      rfl

theorem cutBare_padded (s : String) (w : ℕ) (rest : List Char) :
    ∃ k, cutBare false (' ' :: ((Text.padEnd (escape s) w).toList ++ [' ', '|']) ++ rest) =
      (' ' :: ((escape s).toList ++ List.replicate k ' ')) :: cutBare false rest := by
  obtain ⟨k, hpad⟩ : ∃ k, (Text.padEnd (escape s) w).toList ++ [' ', '|'] ++ rest =
      s.toList.flatMap escapeChar ++ (List.replicate (k + 1) ' ' ++ '|' :: rest) := by
    refine ⟨w - Text.width (escape s), ?_⟩
    unfold Text.padEnd
    rw [String.toList_append, String.toList_ofList, toList_escape, List.replicate_succ']
    simp only [List.append_assoc, List.cons_append, List.nil_append]
  refine ⟨k + 1, ?_⟩
  rw [List.cons_append, hpad, cutBare, if_neg (by simp)]
  show (cutBare false _).modifyHead (' ' :: ·) = _
  rw [cutBare_cell, toList_escape]
  rfl

/-! ### Widths -/

theorem width_append (s t : String) : Text.width (s ++ t) = Text.width s + Text.width t := by
  unfold Text.width Text.units
  rw [String.toList_append, List.flatMap_append, List.length_append]

/-- Texts of characters with one unit each. -/
theorem width_replicate {c : Char} (h : (Text.charUnits c).length = 1) (k : ℕ) :
    Text.width (String.ofList (List.replicate k c)) = k := by
  unfold Text.width Text.units
  rw [String.toList_ofList, List.length_flatMap, List.map_replicate, h, List.sum_replicate, smul_eq_mul,
    mul_one]

theorem width_padEnd (s : String) {w : ℕ} (h : Text.width s ≤ w) :
    Text.width (Text.padEnd s w) = w := by
  unfold Text.padEnd
  rw [width_append, width_replicate (by decide), Nat.add_sub_cancel' h]

/-- Every cell of a row is at most as wide as its column. -/
def Fits (row : List String) (ws : List ℕ) : Prop :=
  List.Forall₂ (fun cell w => Text.width cell ≤ w) row ws

/-- Columns that are widened for a row are wide enough for it, and get no narrower. -/
theorem fits_widen : ∀ {row : List String} {ws : List ℕ}, row.length = ws.length →
    Fits row (List.zipWith max ws (row.map Text.width)) ∧
      List.Forall₂ (· ≤ ·) ws (List.zipWith max ws (row.map Text.width))
  | [], [], _ => ⟨.nil, .nil⟩
  | cell :: row, w :: ws, h => by
    obtain ⟨hfits, hle⟩ := fits_widen (Nat.succ.inj h)
    exact ⟨.cons (le_max_right _ _) hfits, .cons (le_max_left _ _) hle⟩

/-- What holds of columns and is kept when a column gets wider. -/
theorem forall₂_widen {α : Type} {R : α → ℕ → Prop} {as : List α} {ws ws' : List ℕ}
    (h : List.Forall₂ R as ws) (hle : List.Forall₂ (· ≤ ·) ws ws')
    (hR : ∀ a v w, R a v → v ≤ w → R a w) : List.Forall₂ R as ws' := by
  induction h generalizing ws' with
  | nil =>
    cases hle
    exact .nil
  | cons ha _ ih =>
    obtain _ | ⟨hw, hle⟩ := hle
    exact .cons (hR _ _ _ ha hw) (ih hle)

/-- **No cell is wider than its column.** -/
theorem fits_widths {columns : ℕ} {rows : List (List String)}
    (h : ∀ row ∈ rows, row.length = columns) : ∀ row ∈ rows, Fits row (widths columns rows) := by
  -- The columns are widened row by row, and fit all rows that they were widened for.
  have hfold : ∀ {rows : List (List String)} (ws : List ℕ), (∀ row ∈ rows, row.length = ws.length) →
      List.Forall₂ (· ≤ ·) ws
          (rows.foldl (fun widest row => List.zipWith max widest (row.map Text.width)) ws) ∧
        ∀ row ∈ rows, Fits row
          (rows.foldl (fun widest row => List.zipWith max widest (row.map Text.width)) ws) := by
    intro rows
    induction rows with
    | nil => exact fun _ _ => ⟨List.forall₂_refl _, by simp⟩
    | cons row rows ih =>
      intro ws h
      obtain ⟨hrow, hrows⟩ := List.forall_mem_cons.1 h
      obtain ⟨hfits, hle⟩ := fits_widen hrow
      obtain ⟨hle', hfits'⟩ := ih (List.zipWith max ws (row.map Text.width))
        (fun row' hrow' => (hrows row' hrow').trans hle.length_eq)
      exact ⟨forall₂_widen hle hle' fun _ _ _ => le_trans,
        List.forall_mem_cons.2 ⟨forall₂_widen hfits hle' fun _ _ _ => le_trans, hfits'⟩⟩
  refine (hfold _ ?_).2
  simpa using h

/-! ### Lines -/

/-- Parts with something between them, before the first and after the last are parts with something
before and after each. -/
theorem intercalate_wrapped {α : Type} (before after : List α) {xs : List (List α)} (h : xs ≠ []) :
    before ++ (after ++ before).intercalate xs ++ after =
      xs.flatMap fun x => before ++ x ++ after := by
  induction xs with
  | nil => exact absurd rfl h
  | cons x xs ih =>
    cases xs with
    | nil => simp
    | cons y ys =>
      rw [List.intercalate_cons_cons, List.flatMap_cons, ← ih (List.cons_ne_nil _ _)]
      simp only [List.append_assoc]

/-- A line is a pipe, and then the cells with a space before each, and a space and a pipe after it. -/
theorem toList_line {ws : List ℕ} {row : List String} (h : Fits row ws) (hrow : row ≠ []) :
    (line ws row).toList = '|' :: (List.zipWith Text.padEnd row ws).flatMap
      fun cell => ' ' :: (cell.toList ++ [' ', '|']) := by
  have hne : (List.zipWith Text.padEnd row ws).map String.toList ≠ [] := by
    cases h with
    | nil => exact absurd rfl hrow
    | cons => exact List.cons_ne_nil _ _
  have hwrapped := intercalate_wrapped [' '] [' ', '|'] hne
  rw [List.flatMap_map] at hwrapped
  unfold line
  rw [String.toList_append, String.toList_append, String.toList_intercalate]
  exact congrArg ('|' :: ·) hwrapped

theorem toList_rule {ws : List ℕ} (h : ws ≠ []) : (rule ws).toList =
    '|' :: ws.flatMap fun w => List.replicate (w + 2) '-' ++ ['|'] := by
  have hne : (ws.map fun w => List.replicate (w + 2) '-') ≠ [] := by simpa using h
  have hwrapped := intercalate_wrapped [] ['|'] hne
  rw [List.flatMap_map] at hwrapped
  unfold rule
  rw [String.toList_append, String.toList_append, String.toList_intercalate, List.map_map]
  simp only [Function.comp_def, String.toList_ofList]
  exact congrArg ('|' :: ·) hwrapped

theorem width_rule {ws : List ℕ} (h : ws ≠ []) :
    Text.width (rule ws) = 1 + (ws.map (· + 3)).sum := by
  have hparts : ∀ ws : List ℕ, ((ws.flatMap fun w => List.replicate (w + 2) '-' ++ ['|']).flatMap
      Text.charUnits).length = (ws.map (· + 3)).sum := by
    intro ws
    induction ws with
    | nil => rfl
    | cons w ws ih =>
      have hdashes : ((List.replicate (w + 2) '-').flatMap Text.charUnits).length = w + 2 := by
        have hwidth := width_replicate (c := '-') (by decide) (w + 2)
        rwa [Text.width, Text.units, String.toList_ofList] at hwidth
      have hpipe : (['|'].flatMap Text.charUnits).length = 1 := by decide
      rw [List.flatMap_cons, List.flatMap_append, List.length_append, ih, List.flatMap_append,
        List.length_append, hdashes, hpipe, List.map_cons, List.sum_cons]
  have hpipe : (Text.charUnits '|').length = 1 := by decide
  unfold Text.width Text.units
  rw [toList_rule h, List.flatMap_cons, List.length_append, hparts, hpipe]

/-- **All lines are as wide as the rule.** -/
theorem width_line {ws : List ℕ} {row : List String} (h : Fits row ws) (hrow : row ≠ []) :
    Text.width (line ws row) = 1 + (ws.map (· + 3)).sum := by
  have hcells : ((List.zipWith Text.padEnd row ws).flatMap
      (fun cell => ' ' :: (cell.toList ++ [' ', '|'])) |>.flatMap Text.charUnits).length =
        (ws.map (· + 3)).sum := by
    clear hrow
    induction h with
    | nil => rfl
    | @cons cell w row ws hcell _ ih =>
      have hpadded : ((Text.padEnd cell w).toList.flatMap Text.charUnits).length = w :=
        width_padEnd cell hcell
      have hspace : (Text.charUnits ' ').length = 1 := by decide
      have hend : ([' ', '|'].flatMap Text.charUnits).length = 2 := by decide
      rw [List.zipWith_cons_cons, List.flatMap_cons, List.flatMap_append, List.length_append, ih,
        List.flatMap_cons, List.length_append, List.flatMap_append, List.length_append, hpadded,
        hspace, hend, List.map_cons, List.sum_cons]
      omega
  have hpipe : (Text.charUnits '|').length = 1 := by decide
  unfold Text.width Text.units
  rw [toList_line h hrow, List.flatMap_cons, List.length_append, hcells, hpipe]

/-! ### What a line says -/

/-- Cutting a line at its bare pipes gives nothing before the first and after the last of them, and
between them cells that say `texts`. -/
def ReadsAs (line : String) (texts : List String) : Prop :=
  ∃ cells, cutBare false line.toList = [] :: cells ++ [[]] ∧ cells.map readCell = texts

/-- A line says one thing only. -/
theorem ReadsAs.unique {line : String} {texts texts' : List String} (h : ReadsAs line texts)
    (h' : ReadsAs line texts') : texts = texts' := by
  obtain ⟨cells, hcells, rfl⟩ := h
  obtain ⟨cells', hcells', rfl⟩ := h'
  rw [hcells, List.cons_append, List.cons_append] at hcells'
  rw [List.append_cancel_right (List.cons.inj hcells').2]

/-- **A line says the texts of its cells**, up to spaces at their ends. -/
theorem readsAs_line {ws : List ℕ} {texts : List String} (h : Fits (texts.map escape) ws)
    (hne : texts ≠ []) : ReadsAs (line ws (texts.map escape)) (texts.map strip) := by
  have hrow : ∀ {texts : List String} {ws : List ℕ}, Fits (texts.map escape) ws →
      ∃ cells, cutBare false ((List.zipWith Text.padEnd (texts.map escape) ws).flatMap
          fun cell => ' ' :: (cell.toList ++ [' ', '|'])) = cells ++ [[]] ∧
        cells.map readCell = texts.map strip := by
    intro texts
    induction texts with
    | nil =>
      intro ws h
      exact ⟨[], by cases h; rfl, rfl⟩
    | cons text texts ih =>
      intro ws h
      obtain _ | @⟨_, w, _, ws, -, hrest⟩ := h
      obtain ⟨cells, hcut, hread⟩ := ih hrest
      obtain ⟨k, hcell⟩ := cutBare_padded text w
        ((List.zipWith Text.padEnd (texts.map escape) ws).flatMap
          fun cell => ' ' :: (cell.toList ++ [' ', '|']))
      refine ⟨(' ' :: ((escape text).toList ++ List.replicate k ' ')) :: cells, ?_, ?_⟩
      · rw [List.map_cons, List.zipWith_cons_cons, List.flatMap_cons, hcell, hcut]
        rfl
      · rw [List.map_cons, List.map_cons, readCell_padded, hread]
  obtain ⟨cells, hcut, hread⟩ := hrow h
  refine ⟨cells, ?_, hread⟩
  rw [toList_line h (by simpa using hne), cutBare, if_pos ⟨rfl, rfl⟩, hcut]
  rfl

/-! ### The lines of a text -/

/-- The lines of a text: its pieces between line feeds. -/
def linesOf (text : String) : List String :=
  (Text.pieces Text.isLineFeed text.toList).map String.ofList

/-- Texts with a line feed between them are the lines of the whole, if no text holds one. -/
theorem linesOf_intercalate {texts : List String} (hne : texts ≠ [])
    (h : ∀ t ∈ texts, '\n' ∉ t.toList) : linesOf (String.intercalate "\n" texts) = texts := by
  have hpiece : ∀ {cs : List Char}, '\n' ∉ cs → ∀ rest, Text.cutAt Text.isLineFeed (cs ++ rest) =
      (cs ++ (Text.cutAt Text.isLineFeed rest).1, (Text.cutAt Text.isLineFeed rest).2) := by
    intro cs hcs rest
    induction cs with
    | nil => rfl
    | cons c cs ih =>
      rw [List.mem_cons, not_or] at hcs
      have hc : Text.isLineFeed c = false := beq_false_of_ne (Ne.symm hcs.1)
      rw [List.cons_append, Text.cutAt_cons, hc, ih hcs.2]
      rfl
  unfold linesOf
  induction texts with
  | nil => exact absurd rfl hne
  | cons t texts ih =>
    obtain ⟨ht, hrest⟩ := List.forall_mem_cons.1 h
    cases texts with
    | nil =>
      have hcut := hpiece ht []
      rw [List.append_nil] at hcut
      rw [String.intercalate_singleton, Text.pieces, hcut]
      simp
    | cons u texts =>
      have htext : (String.intercalate "\n" (t :: u :: texts)).toList =
          t.toList ++ '\n' :: (String.intercalate "\n" (u :: texts)).toList := by
        rw [String.intercalate_cons_cons, String.toList_append, String.toList_append,
          List.append_assoc]
        rfl
      have hfeed : Text.cutAt Text.isLineFeed ('\n' :: (String.intercalate "\n" (u :: texts)).toList) =
          ([], Text.pieces Text.isLineFeed (String.intercalate "\n" (u :: texts)).toList) := rfl
      rw [htext, Text.pieces, hpiece ht, hfeed, List.append_nil, List.map_cons,
        ih (List.cons_ne_nil _ _) hrest, String.ofList_toList]

theorem oneLine_line {ws : List ℕ} {row : List String} (hfits : Fits row ws) (hrow : row ≠ [])
    (h : ∀ cell ∈ row, '\n' ∉ cell.toList) : '\n' ∉ (line ws row).toList := by
  have hpadded : ∀ cell ∈ List.zipWith Text.padEnd row ws, '\n' ∉ cell.toList := by
    clear hrow
    induction hfits with
    | nil => simp
    | @cons cell w row ws _ _ ih =>
      obtain ⟨hcell, hrest⟩ := List.forall_mem_cons.1 h
      refine List.forall_mem_cons.2 ⟨?_, ih hrest⟩
      unfold Text.padEnd
      simp [hcell]
  rw [toList_line hfits hrow]
  simpa using hpadded

theorem oneLine_rule {ws : List ℕ} (h : ws ≠ []) : '\n' ∉ (rule ws).toList := by
  rw [toList_rule h]
  simp

/-! ### The cells of a row -/

/-- What the cells of a row show under `columns` columns: nothing where there is none. -/
def texts (columns : ℕ) (row : List Cell) : List String :=
  (List.range columns).map fun i => (row[i]?.getD .blank).format

/-- What can be read of a row: what its cells show, without spaces at the end. -/
def shown (columns : ℕ) (row : List Cell) : List String :=
  (texts columns row).map strip

theorem fit_eq (columns : ℕ) (row : List Cell) : fit columns row = (texts columns row).map escape := by
  have hcells : (row ++ List.replicate columns Cell.blank).take columns =
      (List.range columns).map fun i => row[i]?.getD .blank := by
    apply List.ext_getElem
    · simp
    · intro i hi hi'
      have hlt : i < columns := by simpa using hi'
      simp only [List.getElem_take, List.getElem_map, List.getElem_range, List.getElem_append,
        List.getElem_replicate]
      split
      · next h => rw [List.getElem?_eq_getElem h, Option.getD_some]
      · next h => rw [List.getElem?_eq_none (by omega), Option.getD_none]
  unfold fit texts
  rw [hcells, List.map_map, List.map_map]
  rfl

/-- The texts of a table are lines if the header and all text cells under it are. -/
structure Printable (header : List String) (rows : List (List Cell)) : Prop where
  columns : header ≠ []
  head : ∀ text ∈ header, '\n' ∉ text.toList
  cells : ∀ row ∈ rows, ∀ text, Cell.text text ∈ row.take header.length → '\n' ∉ text.toList

theorem Printable.texts {header : List String} {rows : List (List Cell)} (h : Printable header rows)
    {row : List Cell} (hrow : row ∈ rows) :
    ∀ text ∈ texts header.length row, '\n' ∉ text.toList := by
  have hnumber : ∀ x, '\n' ∉ (Number.text x).toList := by
    intro x hfeed
    rw [Number.toList_text] at hfeed
    exact absurd (Number.blankFree_chars x '\n' hfeed) (by decide)
  intro text htext
  obtain ⟨i, hi, rfl⟩ := List.mem_map.1 htext
  cases hcell : row[i]? with
  | none => exact List.not_mem_nil
  | some cell =>
    cases cell with
    | blank => exact List.not_mem_nil
    | text s =>
      apply h.cells row hrow
      have htake : (row.take header.length)[i]? = some (Cell.text s) := by
        rw [List.getElem?_take_of_lt (List.mem_range.1 hi), hcell]
      exact List.mem_of_getElem? htake
    | number x =>
      have hformat : Cell.format (.number x) = if Number.isInteger x || !x.isFinite
        then Number.text x else Number.text (Number.roundAt cellPlaces x) := rfl
      show '\n' ∉ (Cell.format (.number x)).toList
      rw [hformat]
      split
      · exact hnumber _
      · exact hnumber _

/-! ### Reading a table -/

/-- The widths of the columns of a table. -/
def columnWidths (header : List String) (rows : List (List Cell)) : List ℕ :=
  widths header.length (header.map escape :: rows.map (fit header.length))

theorem fits_columns (header : List String) (rows : List (List Cell)) :
    Fits (header.map escape) (columnWidths header rows) ∧
      ∀ row ∈ rows, Fits ((texts header.length row).map escape) (columnWidths header rows) := by
  have hlength : ∀ row ∈ header.map escape :: rows.map (fit header.length),
      row.length = header.length := by
    refine List.forall_mem_cons.2 ⟨List.length_map _, List.forall_mem_map.2 ?_⟩
    exact fun row _ => length_fit _ _
  obtain ⟨hhead, hrows⟩ := List.forall_mem_cons.1 (fits_widths hlength)
  refine ⟨hhead, ?_⟩
  intro row hrow
  rw [← fit_eq]
  exact List.forall_mem_map.1 hrows row hrow

section Lines

variable {header : List String} {rows : List (List Cell)} (h : Printable header rows)

include h

theorem columnWidths_ne_nil : columnWidths header rows ≠ [] := by
  intro hnil
  have hfits := (fits_columns header rows).1.length_eq
  rw [hnil, List.length_map, List.length_nil] at hfits
  exact h.columns (List.eq_nil_of_length_eq_zero hfits)

theorem texts_ne_nil (row : List Cell) : texts header.length row ≠ [] := by
  have hlength : 0 < header.length := List.length_pos_iff.2 h.columns
  intro hnil
  have htexts := congrArg List.length hnil
  rw [texts, List.length_map, List.length_range, List.length_nil] at htexts
  omega

/-- **The lines of a table**: the header, the rule, and the rows. -/
theorem linesOf_render : linesOf (render header rows) =
    line (columnWidths header rows) (header.map escape) :: rule (columnWidths header rows) ::
      rows.map fun row => line (columnWidths header rows) ((texts header.length row).map escape) := by
  have hescape : ∀ {texts : List String}, (∀ text ∈ texts, '\n' ∉ text.toList) →
      ∀ cell ∈ texts.map escape, '\n' ∉ cell.toList := by
    intro texts htexts cell hcell hfeed
    obtain ⟨text, htext, rfl⟩ := List.mem_map.1 hcell
    rw [toList_escape, List.mem_flatMap] at hfeed
    obtain ⟨c, hc, hfeed⟩ := hfeed
    unfold escapeChar at hfeed
    split at hfeed
    · simp at hfeed
    · exact htexts text htext (by rwa [List.mem_singleton.1 hfeed])
  obtain ⟨hhead, hrows⟩ := fits_columns header rows
  have hrender : render header rows = String.intercalate "\n"
      (line (columnWidths header rows) (header.map escape) :: rule (columnWidths header rows) ::
        rows.map fun row =>
          line (columnWidths header rows) ((texts header.length row).map escape)) := by
    unfold render columnWidths
    simp only [List.length_map, List.map_map, Function.comp_def, fit_eq]
  rw [hrender]
  apply linesOf_intercalate (List.cons_ne_nil _ _)
  refine List.forall_mem_cons.2 ⟨?_, List.forall_mem_cons.2 ⟨?_, List.forall_mem_map.2 ?_⟩⟩
  · exact oneLine_line hhead (by simpa using h.columns) (hescape h.head)
  · exact oneLine_rule (columnWidths_ne_nil h)
  · intro row hrow
    exact oneLine_line (hrows row hrow) (by simpa using texts_ne_nil h row) (hescape (h.texts hrow))

theorem width_linesOf : ∀ l ∈ linesOf (render header rows),
    Text.width l = 1 + ((columnWidths header rows).map (· + 3)).sum := by
  obtain ⟨hhead, hrows⟩ := fits_columns header rows
  rw [linesOf_render h]
  refine List.forall_mem_cons.2 ⟨?_, List.forall_mem_cons.2 ⟨?_, List.forall_mem_map.2 ?_⟩⟩
  · exact width_line hhead (by simpa using h.columns)
  · exact width_rule (columnWidths_ne_nil h)
  · intro row hrow
    exact width_line (hrows row hrow) (by simpa using texts_ne_nil h row)

theorem readsAs_linesOf : ∃ first second rest, linesOf (render header rows) = first :: second :: rest ∧
    ReadsAs first (header.map strip) ∧
    List.Forall₂ (fun l row => ReadsAs l (shown header.length row)) rest rows := by
  obtain ⟨hhead, hrows⟩ := fits_columns header rows
  refine ⟨_, _, _, linesOf_render h, readsAs_line hhead h.columns, ?_⟩
  rw [List.forall₂_map_left_iff, List.forall₂_same]
  intro row hrow
  exact readsAs_line (hrows row hrow) (texts_ne_nil h row)

end Lines

/-- Lines say one thing only. -/
theorem shown_unique {ls : List String} {n n' : ℕ} {rows rows' : List (List Cell)}
    (h : List.Forall₂ (fun l row => ReadsAs l (shown n row)) ls rows)
    (h' : List.Forall₂ (fun l row => ReadsAs l (shown n' row)) ls rows') :
    rows.map (shown n) = rows'.map (shown n') := by
  induction h generalizing rows' with
  | nil =>
    cases h'
    rfl
  | cons hl _ ih =>
    obtain _ | ⟨hl', hrest⟩ := h'
    rw [List.map_cons, List.map_cons, hl.unique hl', ih hrest]

/-- **Tables are aligned, and can be read back.** A table with at least one column, and without line
feeds in its texts, has a line for the header, one under it and one for each row. All lines are as
wide as each other. Cut at its bare pipes, the line of the header says the header, and each other line
what the cells of its row show, one text for each column, up to spaces at the ends. So tables that look
the same show the same. -/
theorem render_readable {header : List String} {rows : List (List Cell)} (h : Printable header rows) :
    (linesOf (render header rows)).length = rows.length + 2 ∧
    (∃ width, ∀ l ∈ linesOf (render header rows), Text.width l = width) ∧
    (∃ first second rest, linesOf (render header rows) = first :: second :: rest ∧
      ReadsAs first (header.map strip) ∧
      List.Forall₂ (fun l row => ReadsAs l (shown header.length row)) rest rows) ∧
    ∀ header' rows', Printable header' rows' → render header rows = render header' rows' →
      header.map strip = header'.map strip ∧
        rows.map (shown header.length) = rows'.map (shown header'.length) := by
  obtain ⟨first, second, rest, hlines, hfirst, hrest⟩ := readsAs_linesOf h
  refine ⟨?_, ⟨_, width_linesOf h⟩, ⟨first, second, rest, hlines, hfirst, hrest⟩, ?_⟩
  · rw [hlines, List.length_cons, List.length_cons, hrest.length_eq]
  · intro header' rows' h' heq
    obtain ⟨first', second', rest', hlines', hfirst', hrest'⟩ := readsAs_linesOf h'
    rw [← heq, hlines] at hlines'
    obtain ⟨rfl, htail⟩ := List.cons.inj hlines'
    obtain ⟨-, rfl⟩ := List.cons.inj htail
    exact ⟨hfirst.unique hfirst', shown_unique hrest hrest'⟩

/-- A pipe behind a backslash, spaces at both ends, a missing cell, and a line feed in a cell that has
no column. -/
theorem render_readable_pipes :
    let header := ["a\\|b ", ""]
    let rows : List (List Cell) := [[.text " |"], [.text "\\", .number 0.1234567, .text "\n"]]
    (linesOf (render header rows)).length = 4 ∧
      (∃ first second rest, linesOf (render header rows) = first :: second :: rest ∧
        ReadsAs first ["a\\|b", ""] ∧
        List.Forall₂ ReadsAs rest [[" |", ""], ["\\", "0.123457"]]) ∧
      ∀ cell, '\n' ∉ cell.toList → strip cell ≠ " |" →
        render header rows ≠ render header ([.text cell] :: rows.drop 1) := by
  intro header rows
  have hcells : ∀ cell, '\n' ∉ cell.toList →
      Printable header [[.text cell], [.text "\\", .number 0.1234567, .text "\n"]] := by
    intro cell hcell
    refine ⟨by decide, by decide, ?_⟩
    intro row hrow text htext
    rcases List.mem_cons.1 hrow with rfl | hrow
    · have heq : text = cell := by simpa [header] using htext
      rwa [heq]
    · obtain rfl := List.mem_singleton.1 hrow
      have heq : text = "\\" := by simpa [header] using htext
      rw [heq]
      decide
  have hshown : rows.map (shown 2) = [[" |", ""], ["\\", "0.123457"]] := by decide +kernel
  obtain ⟨hlength, -, ⟨first, second, rest, hlines, hfirst, hrest⟩, hsame⟩ :=
    render_readable (hcells " |" (by decide))
  refine ⟨hlength, ⟨first, second, rest, hlines, hfirst, ?_⟩, ?_⟩
  · rw [← hshown, List.forall₂_map_right_iff]
    exact hrest
  · intro cell hcell hne heq
    have hrows := (hsame _ _ (hcells cell hcell) heq).2
    have hfirst := congrArg (fun table => (table[0]?.getD [])[0]?) hrows
    have hstrip : strip " |" = " |" := by decide +kernel
    apply hne
    rw [← hstrip]
    exact (Option.some.inj hfirst).symm

end Table

end Framewise
