import Framewise.Proofs.Command.Composition

/-!
# Spellings of a command line

The same options can be spelled in several ways: the value of an option stands behind an equals sign or
is the next argument, and the cumulative options have two words.

* `readOption_inlineError`: which words cannot have a value behind an equals sign.
* `Part.enter_respelled`: the word of an option matters only for errors.
* `parseArguments_spelling`: all spellings give the same options or the same error.
-/

namespace Framewise.Command

/-! ### Values behind an equals sign -/

/-- Both spellings of a value are the same part, up to its arguments. -/
theorem scan_inline {word : String} {setting : Setting} (h : Setting.of? word = some setting)
    (hone : setting.arity = 1) (d : Draft) (value : String) (rest : List String) :
    scan d ((word ++ "=" ++ value) :: rest) = scan d (word :: value :: rest) := by
  have harity : (Setting.of? word).map Setting.arity = some 1 := by
    rw [h, Option.map_some, hone]
  have hinline : Part.WellFormed (.inline word value) := harity
  have hoption : Part.WellFormed (.option word [value]) := harity
  calc scan d ((word ++ "=" ++ value) :: rest)
    _ = (Part.enterWord d word [value]).bind fun e => scan e rest := scan_part hinline d rest
    _ = scan d (word :: value :: rest) := (scan_part hoption d rest).symm

/-- What is wrong with a value behind an equals sign, where the word does not take just one. -/
def inlineError (word : String) : UsageError :=
  match Setting.of? word with
  | none => .unknownOption word
  | some (.switch _) => .takesNoValue word
  | some setting => .takesManyValues word setting.arity

section Refused

variable {word : String} (hword : IsWord word)
  (hmany : (Setting.of? word).map Setting.arity ≠ some 1)

include hword hmany

theorem readOption_inlineError (d : Draft) (value : String) (rest : List String) :
    readOption d (word ++ "=" ++ value) rest = .error (inlineError word) := by
  unfold readOption inlineError
  simp only [splitWord_inline hword]
  cases hs : Setting.of? word with
  | none => rfl
  | some setting =>
    rw [hs] at hmany
    cases setting with
    | switch s => rfl
    | key l | bound b => exact absurd rfl hmany
    | ratio | window | plot => rfl

theorem scan_inlineError (d : Draft) (value : String) (rest : List String) :
    scan d ((word ++ "=" ++ value) :: rest) = .error (inlineError word) := by
  rw [scan_option (isOption_inline hword value) (inline_ne_bare word value),
    readOption_inlineError hword hmany]
  rfl

end Refused

/-! ### Words with two spellings -/

/-- The two spellings of the cumulative options. -/
def spellings : List (String × String) :=
  [("--commulative_timeseries", "--cumulative_timeseries"),
   ("--commulative_timeseries_sum", "--cumulative_timeseries_sum")]

/-- Two words are the same, or the two spellings of a word. -/
def SameWord (word word' : String) : Prop :=
  word = word' ∨ (word, word') ∈ spellings ∨ (word', word) ∈ spellings

/-- Both spellings stand for the same setting. -/
theorem SameWord.setting {word word' : String} (h : SameWord word word') :
    Setting.of? word = Setting.of? word' := by
  have hall : ∀ p ∈ spellings, Setting.of? p.1 = Setting.of? p.2 := by decide
  rcases h with rfl | h | h
  · rfl
  · exact hall _ h
  · exact (hall _ h).symm

/-- The word of a setting is used for errors only. -/
theorem enter_word {d e : Draft} {word : String} {setting : Setting} {values : List String}
    (h : d.enter word setting values = .ok e) (word' : String) :
    d.enter word' setting values = .ok e := by
  -- Only the words of bounds and scales are used, where a text is no number.
  have hnumber : ∀ {read : String → Option Float} {text : String} {f : Float → Draft},
      (Draft.number read word text).map f = .ok e → (Draft.number read word' text).map f = .ok e := by
    intro read text f h
    unfold Draft.number at h ⊢
    cases hread : read text with
    | none =>
      rw [hread] at h
      cases h
    | some x =>
      rw [hread] at h
      exact h
  unfold Draft.enter at h ⊢
  split at h <;> first | exact h | exact hnumber h

namespace Part

/-- A part with the other spelling of its word. -/
inductive Respelled : Part → Part → Prop where
  | path (p : String) : Respelled (.path p) (.path p)
  | option {word word' : String} (h : SameWord word word') (values : List String) :
      Respelled (.option word values) (.option word' values)
  | inline {word word' : String} (h : SameWord word word') (value : String) :
      Respelled (.inline word value) (.inline word' value)

section

variable {p p' : Part} (h : Respelled p p')

include h

theorem wellFormed_respelled (hp : p.WellFormed) : p'.WellFormed := by
  cases h with
  | path => exact hp
  | @option word word' h values =>
    show (Setting.of? word').map Setting.arity = some values.length
    rw [← h.setting]
    exact hp
  | @inline word word' h value =>
    show (Setting.of? word').map Setting.arity = some 1
    rw [← h.setting]
    exact hp

/-- **The word of an option matters only for errors.** -/
theorem enter_respelled {d e : Draft} (henter : p.enter d = .ok e) : p'.enter d = .ok e := by
  have hword : ∀ {word word' values}, SameWord word word' → enterWord d word values = .ok e →
      enterWord d word' values = .ok e := by
    intro word word' values h henter
    unfold enterWord at henter ⊢
    rw [← h.setting]
    cases hs : Setting.of? word with
    | none =>
      rw [hs] at henter
      cases henter
    | some setting =>
      rw [hs] at henter
      exact enter_word henter word'
  cases h with
  | path => exact henter
  | option h | inline h => exact hword h henter

end

end Part

/-- Respelled parts are read to the same draft. -/
theorem foldlM_respelled {parts parts' : List Part} (h : List.Forall₂ Part.Respelled parts parts')
    {d e : Draft} (hread : parts.foldlM Part.enter d = .ok e) :
    parts'.foldlM Part.enter d = .ok e := by
  induction h generalizing d with
  | nil => exact hread
  | cons hp _ ih =>
    rw [List.foldlM_cons] at hread ⊢
    obtain ⟨next, hnext, hrest⟩ := bind_eq_ok.1 hread
    exact bind_eq_ok.2 ⟨next, Part.enter_respelled hp hnext, ih hrest⟩

/-- A command line consists of respelled parts if it is put together from them. -/
theorem Consists.respelled {argv : List String} {parts parts' : List Part}
    {paths : Option (List String)} (h : Consists argv parts paths)
    (hparts : List.Forall₂ Part.Respelled parts parts') :
    Consists (argumentsOf parts' ++ paths.elim [] ("--" :: ·)) parts' paths := by
  refine ⟨?_, rfl⟩
  have hwell := h.wellFormed
  clear h
  induction hparts with
  | nil => exact hwell
  | cons hp _ ih =>
    obtain ⟨hfirst, hmore⟩ := List.forall_mem_cons.1 hwell
    exact List.forall_mem_cons.2 ⟨Part.wellFormed_respelled hp hfirst, ih hmore⟩

/-! ### The same options -/

/-- **Spellings of a command line do not matter.**

* Behind a command line that is accepted and has no bare `--`, an option with one value may have it
  behind an equals sign or as the next argument, whatever the value is and whatever follows: the
  options, or the error, are the same.
* Where an option can stand, a value behind an equals sign is an error if the word takes none or
  several, or is unknown. It is an error about this word unless what stands before is wrong.
* A command line that is accepted consists of parts, and with the other spelling of the words of any
  of its parts it has the same options. -/
theorem parseArguments_spelling :
    (∀ a o, parseArguments a = .ok o → ¬ HasBare a → ∀ word setting value b,
      Setting.of? word = some setting → setting.arity = 1 →
      parseArguments (a ++ (word ++ "=" ++ value) :: b) =
        parseArguments (a ++ word :: value :: b)) ∧
    (∀ a parts, Consists a parts none → ∀ word value b, IsWord word →
      (Setting.of? word).map Setting.arity ≠ some 1 →
      ∃ e, parseArguments (a ++ (word ++ "=" ++ value) :: b) = .error e ∧
        ∀ o, parseArguments a = .ok o → e = inlineError word) ∧
    ∀ argv o, parseArguments argv = .ok o → ∃ parts paths, Consists argv parts paths ∧
      ∀ parts', List.Forall₂ Part.Respelled parts parts' →
        parseArguments (argumentsOf parts' ++ paths.elim [] ("--" :: ·)) = .ok o := by
  refine ⟨?_, ?_, ?_⟩
  · intro a o ha hbare word setting value b hs hone
    obtain ⟨d, hd, -, -⟩ := parseArguments_eq_ok_iff.1 ha
    unfold parseArguments
    rw [scan_append hd hbare, scan_append hd hbare, scan_inline hs hone]
  · intro a parts ha word value b hword hmany
    unfold parseArguments
    rw [ha.arguments, Option.elim_none, List.append_nil, scan_parts ha.wellFormed]
    cases hread : parts.foldlM Part.enter {} with
    | error e =>
      refine ⟨e, rfl, ?_⟩
      intro o ho
      rw [← List.append_nil (argumentsOf parts), scan_parts ha.wellFormed, hread] at ho
      cases ho
    | ok d =>
      refine ⟨inlineError word, ?_, fun _ _ => rfl⟩
      show (scan d _).bind Draft.check = _
      rw [scan_inlineError hword hmany]
      rfl
  · intro argv o ho
    obtain ⟨d, hd, hvalid, rfl⟩ := parseArguments_eq_ok_iff.1 ho
    obtain ⟨parts, paths, h⟩ := exists_consists hd
    refine ⟨parts, paths, h, ?_⟩
    intro parts' hparts
    rw [h.scan_eq] at hd
    obtain ⟨e, he, rfl⟩ := map_eq_ok.1 hd
    apply parseArguments_eq_ok_iff.2
    refine ⟨_, ?_, hvalid, rfl⟩
    rw [(h.respelled hparts).scan_eq, foldlM_respelled hparts he]
    rfl

/-- A value that looks like an option, has an equals sign of its own or is empty. -/
theorem parseArguments_spelling_dashes :
    let a := ["--commulative_timeseries", "--", "--commulative_timeseries_sum"]
    let a' := ["--cumulative_timeseries", "--", "--cumulative_timeseries_sum"]
    let o : Options :=
      { views := { cumulativeTimeseries := ["--"], cumulativeTimeseriesSum := true } }
    parseArguments a = .ok o ∧ parseArguments a' = .ok o ∧
      parseArguments (a ++ ["--hist=-=x", "--end_frame="]) =
        parseArguments (a ++ ["--hist", "-=x", "--end_frame="]) ∧
      parseArguments (a ++ ["--end_frame="]) = parseArguments (a ++ ["--end_frame", ""]) ∧
      parseArguments (a ++ ["--json=true", "x.log"]) = .error (.takesNoValue "--json") ∧
      parseArguments (a ++ ["--plot=x"]) = .error (.takesManyValues "--plot" 3) ∧
      parseArguments (a ++ ["--=x"]) = .error (.unknownOption "--") := by
  intro a a' o
  have hparse : parseArguments a = .ok o := by decide +kernel
  have ha : Consists a [.option "--commulative_timeseries" ["--"],
      .option "--commulative_timeseries_sum" []] none :=
    ⟨by decide, rfl⟩
  obtain ⟨hinline, herror, hwords⟩ := parseArguments_spelling
  have hrefused : ∀ word value b, isOption word = true → '=' ∉ word.toList →
      (Setting.of? word).map Setting.arity ≠ some 1 →
      parseArguments (a ++ (word ++ "=" ++ value) :: b) = .error (inlineError word) := by
    intro word value b hdash hequals hmany
    obtain ⟨e, he, hexact⟩ := herror a _ ha word value b ⟨hdash, hequals⟩ hmany
    rw [he, hexact o hparse]
  refine ⟨hparse, ?_, ?_, ?_, ?_, ?_, ?_⟩
  · obtain ⟨parts, paths, h, hrespelled⟩ := hwords a o hparse
    obtain ⟨rfl, rfl⟩ := ha.unique h
    exact hrespelled [.option "--cumulative_timeseries" ["--"],
      .option "--cumulative_timeseries_sum" []]
      (.cons (.option (.inr (.inl (by decide))) _) (.cons (.option (.inr (.inl (by decide))) _) .nil))
  · exact hinline a o hparse ha.not_hasBare "--hist" (.key .hist) "-=x" _ (by decide) rfl
  · exact hinline a o hparse ha.not_hasBare "--end_frame" (.bound .stop) "" _ (by decide) rfl
  · exact hrefused "--json" "true" ["x.log"] (by decide) (by decide) (by decide)
  · exact hrefused "--plot" "x" [] (by decide) (by decide) (by decide)
  · exact hrefused "--" "x" [] (by decide) (by decide) (by decide)

/-- The words with one value. -/
example : (settings.filter fun s => s.2.arity = 1).map Prod.fst =
    ["--timeseries", "--commulative_timeseries", "--cumulative_timeseries", "--hist", "--stats",
      "--begin_frame", "--end_frame"] := by
  decide

end Framewise.Command
