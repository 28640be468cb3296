import Framewise.Proofs.Json.Spelling

/-!
# JSON text is read back

Both ways to write a value spell it, so what is read from either text is the same.

* `compactBefore_spells`, `prettyBefore_spells`: both texts of a value spell it.
* `parse?_compact`, `parse?_pretty`: both texts of a value are read back.
* `readItems_map`, `readFields_of_nodup`: what that is for arrays and for objects.
-/

namespace Framewise.Json

open Number

/-! ### The two ways to write -/

theorem endsNumber_cons {c : Char} (h : c.isDigit = false ∧ c ≠ '.' ∧ c ≠ 'e' ∧ c ≠ 'E')
    (cs : List Char) : EndsNumber (c :: cs) := by
  rintro c' ⟨⟩
  exact h

/-- Neither the comma nor the bracket after an item goes on with a number. -/
theorem endsNumber_compactItems (rest : List Char) (vs : List Json) :
    EndsNumber (compactItems (']' :: rest) vs) := by
  cases vs with
  | nil => exact endsNumber_cons (by decide) _
  | cons v vs => exact endsNumber_cons (by decide) _

theorem endsNumber_compactFields (rest : List Char) (fs : List (String × Json)) :
    EndsNumber (compactFields ('\x7d' :: rest) fs) := by
  cases fs with
  | nil => exact endsNumber_cons (by decide) _
  | cons f fs => exact endsNumber_cons (by decide) _

mutual

/-- **The text without spaces spells its value**, whatever follows that does not go on with a
number. -/
theorem compactBefore_spells : ∀ (v : Json) {rest : List Char}, EndsNumber rest →
    Spells (compactBefore rest v) (.value v) rest
  | .null, _, _ => .null _
  | .bool true, _, _ => .isTrue _
  | .bool false, _, _ => .isFalse _
  | .number x, _, h => .number x h
  | .string s, _, _ => .string s _
  | .array [], _, _ => .noItems _
  | .array (v :: vs), rest, _ =>
    .array (compactItems_spells vs (compactBefore_spells v (endsNumber_compactItems rest vs)))
  | .object [], _, _ => .noFields _
  | .object ((_, v) :: fs), rest, _ =>
    .object (compactFields_spells fs (compactBefore_spells v (endsNumber_compactFields rest fs)))

/-- An item and the text of those after it spell a list of items. -/
theorem compactItems_spells : ∀ (vs : List Json) {cs rest : List Char} {v : Json},
    Spells cs (.value v) (compactItems (']' :: rest) vs) → Spells cs (.items (v :: vs)) rest
  | [], _, _, _, h => .lastItem rfl h rfl
  | w :: vs, _, rest, _, h => .item rfl h rfl
    (compactItems_spells vs (compactBefore_spells w (endsNumber_compactItems rest vs)))

/-- A field and the text of those after it spell a list of fields. -/
theorem compactFields_spells : ∀ (fs : List (String × Json)) {cs rest : List Char} {k : String}
    {v : Json}, Spells cs (.value v) (compactFields ('\x7d' :: rest) fs) →
    Spells (quote k ++ ':' :: cs) (.fields ((k, v) :: fs)) rest
  | [], _, _, _, _, h => .lastField rfl rfl rfl h rfl
  | (_, w) :: fs, _, rest, _, _, h => .field rfl rfl rfl h rfl
    (compactFields_spells fs (compactBefore_spells w (endsNumber_compactFields rest fs)))

end

/-- A new line is white space. -/
theorem skipSpace_newLine (depth : ℕ) (cs : List Char) :
    skipSpace (newLine depth ++ cs) = skipSpace cs := by
  refine List.dropWhile_append_of_pos ?_
  intro c hc
  rcases List.mem_cons.1 hc with rfl | hc
  · rfl
  · rw [List.eq_of_mem_replicate hc]
    rfl

theorem skipSpace_space (cs : List Char) : skipSpace (' ' :: cs) = skipSpace cs := rfl

theorem endsNumber_prettyItems (depth : ℕ) (rest : List Char) (vs : List Json) :
    EndsNumber (prettyItems depth (newLine depth ++ ']' :: rest) vs) := by
  cases vs with
  | nil => exact endsNumber_cons (by decide) _
  | cons v vs => exact endsNumber_cons (by decide) _

theorem endsNumber_prettyFields (depth : ℕ) (rest : List Char) (fs : List (String × Json)) :
    EndsNumber (prettyFields depth (newLine depth ++ '\x7d' :: rest) fs) := by
  cases fs with
  | nil => exact endsNumber_cons (by decide) _
  | cons f fs => exact endsNumber_cons (by decide) _

mutual

/-- **The indented text spells its value**, at every depth. -/
theorem prettyBefore_spells : ∀ (v : Json) (depth : ℕ) {rest : List Char}, EndsNumber rest →
    Spells (prettyBefore depth rest v) (.value v) rest
  | .null, _, _, _ => .null _
  | .bool true, _, _, _ => .isTrue _
  | .bool false, _, _, _ => .isFalse _
  | .number x, _, _, h => .number x h
  | .string s, _, _, _ => .string s _
  | .array [], _, _, _ => .noItems _
  | .array (v :: vs), depth, rest, _ =>
    .array (prettyItems_spells vs depth
      (prettyBefore_spells v (depth + 1) (endsNumber_prettyItems depth rest vs)))
  | .object [], _, _, _ => .noFields _
  | .object ((_, v) :: fs), depth, rest, _ =>
    .object (prettyFields_spells fs depth
      (prettyBefore_spells v (depth + 1) (endsNumber_prettyFields depth rest fs)))

theorem prettyItems_spells : ∀ (vs : List Json) (depth : ℕ) {cs rest : List Char} {v : Json},
    Spells cs (.value v) (prettyItems depth (newLine depth ++ ']' :: rest) vs) →
    Spells (newLine (depth + 1) ++ cs) (.items (v :: vs)) rest
  | [], depth, _, _, _, h => .lastItem (skipSpace_newLine _ _) h (skipSpace_newLine depth _)
  | w :: vs, depth, _, rest, _, h => .item (skipSpace_newLine _ _) h rfl
    (prettyItems_spells vs depth
      (prettyBefore_spells w (depth + 1) (endsNumber_prettyItems depth rest vs)))

theorem prettyFields_spells : ∀ (fs : List (String × Json)) (depth : ℕ) {cs rest : List Char}
    {k : String} {v : Json},
    Spells cs (.value v) (prettyFields depth (newLine depth ++ '\x7d' :: rest) fs) →
    Spells (newLine (depth + 1) ++ quote k ++ ':' :: ' ' :: cs) (.fields ((k, v) :: fs)) rest
  | [], depth, cs, _, k, _, h => by
    have hname : skipSpace (newLine (depth + 1) ++ quote k ++ ':' :: ' ' :: cs) =
        quote k ++ ':' :: ' ' :: cs := by
      rw [List.append_assoc, skipSpace_newLine]
      rfl
    exact .lastField hname rfl (skipSpace_space cs) h (skipSpace_newLine depth _)
  | (k', w) :: fs, depth, cs, rest, k, _, h => by
    have hname : skipSpace (newLine (depth + 1) ++ quote k ++ ':' :: ' ' :: cs) =
        quote k ++ ':' :: ' ' :: cs := by
      rw [List.append_assoc, skipSpace_newLine]
      rfl
    exact .field hname rfl (skipSpace_space cs) h rfl (prettyFields_spells fs depth
      (prettyBefore_spells w (depth + 1) (endsNumber_prettyFields depth rest fs)))

end

mutual

/-- What follows a value is written after it, as it is. -/
theorem prettyBefore_append : ∀ (v : Json) (depth : ℕ) (rest more : List Char),
    prettyBefore depth rest v ++ more = prettyBefore depth (rest ++ more) v
  | .null, _, _, _ => List.append_assoc _ _ _
  | .bool true, _, _, _ => List.append_assoc _ _ _
  | .bool false, _, _, _ => List.append_assoc _ _ _
  | .number _, _, _, _ => List.append_assoc _ _ _
  | .string _, _, _, _ => List.append_assoc _ _ _
  | .array [], _, _, _ => rfl
  | .array (v :: vs), depth, rest, more => by
    simp only [prettyBefore, List.cons_append, List.append_assoc, prettyBefore_append v,
      prettyItems_append vs]
  | .object [], _, _, _ => rfl
  | .object ((_, v) :: fs), depth, rest, more => by
    simp only [prettyBefore, List.cons_append, List.append_assoc, prettyBefore_append v,
      prettyFields_append fs]

theorem prettyItems_append : ∀ (vs : List Json) (depth : ℕ) (rest more : List Char),
    prettyItems depth rest vs ++ more = prettyItems depth (rest ++ more) vs
  | [], _, _, _ => rfl
  | v :: vs, depth, rest, more => by
    simp only [prettyItems, List.cons_append, List.append_assoc, prettyBefore_append v,
      prettyItems_append vs]

theorem prettyFields_append : ∀ (fs : List (String × Json)) (depth : ℕ) (rest more : List Char),
    prettyFields depth rest fs ++ more = prettyFields depth (rest ++ more) fs
  | [], _, _, _ => rfl
  | (_, v) :: fs, depth, rest, more => by
    simp only [prettyFields, List.cons_append, List.append_assoc, prettyBefore_append v,
      prettyFields_append fs]

end

/-- What spells a value is parsed, if only white space follows. -/
theorem parse?_of_spells {cs rest : List Char} {v : Json} (h : Spells cs (.value v) rest)
    (hrest : skipSpace rest = []) : parse? (String.ofList cs) = some v.readBack := by
  have hbegins := h.reads.begins
  obtain ⟨-, hread⟩ := h.reads
  have hvalue : value? (cs.length + 1) cs = some (v.readBack, rest) := by
    apply hread
    omega
  unfold parse?
  rw [String.toList_ofList]
  simp only
  rw [hbegins, hvalue]
  exact if_pos hrest

/-- **The text without spaces is read back.** -/
theorem parse?_compact (v : Json) : parse? v.compact = some v.readBack :=
  parse?_of_spells (@compactBefore_spells v [] (by rintro c ⟨⟩)) rfl

/-- **The indented text is read back**, with a line end after it as it is written. -/
theorem parse?_pretty (v : Json) : parse? (v.pretty ++ "\n") = some v.readBack := by
  have hends : EndsNumber ['\n'] := endsNumber_cons (by decide) []
  have htext : v.pretty ++ "\n" = String.ofList (prettyBefore 0 ['\n'] v) := by
    rw [pretty, show "\n" = String.ofList ['\n'] from rfl, ← String.ofList_append,
      prettyBefore_append, List.nil_append]
  rw [htext]
  exact parse?_of_spells (prettyBefore_spells v 0 hends) rfl

/-! ### Arrays and objects that are read back -/

/-- The items of an array are read back one by one. -/
theorem readItems_map {α : Type} (as : List α) (write : α → Json) :
    readItems (as.map write) = as.map fun a => (write a).readBack := by
  induction as with
  | nil => rfl
  | cons a as ih => rw [List.map_cons, readItems, ih, List.map_cons]

/-- A name that is new stands at the end. -/
theorem upsert_of_not_mem {k : String} {read : List (String × Json)}
    (hk : k ∉ read.map Prod.fst) (v : Json) : upsert k v read = read ++ [(k, v)] := by
  induction read with
  | nil => rfl
  | cons r read ih =>
    obtain ⟨k', v'⟩ := r
    rw [List.map_cons, List.mem_cons, not_or] at hk
    rw [upsert, if_neg (Ne.symm hk.1), ih hk.2]
    rfl

/-- The fields of an object whose names differ are read back one by one. -/
theorem readFields_of_nodup (fs read : List (String × Json))
    (h : (read.map Prod.fst ++ fs.map Prod.fst).Nodup) :
    readFields read fs = read ++ fs.map fun f => (f.1, f.2.readBack) := by
  induction fs generalizing read with
  | nil => rw [readFields, List.map_nil, List.append_nil]
  | cons f fs ih =>
    obtain ⟨k, v⟩ := f
    rw [List.map_cons, List.append_cons] at h
    have hk : k ∉ read.map Prod.fst := by
      intro hmem
      have hdisjoint := (List.nodup_append.1 (List.nodup_append.1 h).1).2.2
      exact hdisjoint k hmem k (List.mem_singleton.2 rfl) rfl
    rw [readFields, upsert_of_not_mem hk, ih, List.map_cons, ← List.append_cons]
    rw [List.map_append]
    exact h

end Framewise.Json
