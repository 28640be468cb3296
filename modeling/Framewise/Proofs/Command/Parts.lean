import Framewise.Proofs.Command.Drafts
import Framewise.Proofs.OrderedMap

/-!
# Parts of a command line

A command line is made of parts: a path, an option with its values after it, or an option with its
value behind an equals sign. A bare `--` where a part could begin ends them, and paths follow. How
many arguments an option takes is known from its word, so parts are read one after the other.

* `scan_parts`: scanning is entering the parts into the draft.
* `exists_consists`, `Consists.unique`: all that can be scanned consists of parts, in one way only.
* `scan_append`: a command line without a bare `--` is read, and then what follows it.
* `gives_iff`: a draft has what the parts are about, and nothing else.
-/

namespace Framewise.Command

/-! ### Option words -/

/-- The words before an equals sign: they begin with a dash. -/
structure IsWord (word : String) : Prop where
  dash : isOption word = true
  noEquals : '=' ∉ word.toList

theorem isWord_of_setting {word : String} {setting : Setting}
    (h : Setting.of? word = some setting) : IsWord word := by
  have hall : ∀ e ∈ settings, isOption e.1 = true ∧ '=' ∉ e.1.toList := by decide
  obtain ⟨hdash, hequals⟩ := hall _ (mem_of_valueOf? h)
  exact ⟨hdash, hequals⟩

/-- A bare `--` is no option word. -/
theorem ne_bare_of_setting {word : String} {setting : Setting}
    (h : Setting.of? word = some setting) : word ≠ "--" := by
  rintro rfl
  have hnone : Setting.of? "--" = none := by decide
  rw [hnone] at h
  cases h

section Words

variable {word : String} (hword : IsWord word)

include hword

theorem exists_dash : ∃ cs, word.toList = '-' :: cs := by
  have hdash := hword.dash
  unfold isOption at hdash
  cases hcs : word.toList with
  | nil =>
    rw [hcs] at hdash
    cases hdash
  | cons c cs =>
    rw [hcs] at hdash
    have hc : c = '-' := by simpa using hdash
    exact ⟨cs, by rw [hc]⟩

theorem splitWord_word : splitWord word = (word, none) := by
  obtain ⟨cs, hcs⟩ := exists_dash hword
  have hnone : cs.dropWhile (· ≠ '=') = [] := by
    rw [List.dropWhile_eq_nil_iff]
    rintro c hc
    apply decide_eq_true
    rintro rfl
    exact hword.noEquals (by rw [hcs]; exact List.mem_cons_of_mem _ hc)
  unfold splitWord
  rw [hcs]
  simp only [hnone]

theorem splitWord_inline (value : String) :
    splitWord (word ++ "=" ++ value) = (word, some value) := by
  obtain ⟨cs, hcs⟩ := exists_dash hword
  have hno : ∀ c ∈ cs, decide (c ≠ '=') = true := by
    intro c hc
    apply decide_eq_true
    rintro rfl
    exact hword.noEquals (by rw [hcs]; exact List.mem_cons_of_mem _ hc)
  have htoken : (word ++ "=" ++ value).toList = '-' :: (cs ++ '=' :: value.toList) := by
    rw [String.toList_append, String.toList_append, hcs, List.append_assoc]
    rfl
  have hdrop : (cs ++ '=' :: value.toList).dropWhile (· ≠ '=') = '=' :: value.toList := by
    rw [List.dropWhile_append_of_pos hno]
    rfl
  have htake : (cs ++ '=' :: value.toList).takeWhile (· ≠ '=') = cs := by
    rw [List.takeWhile_append_of_pos hno]
    simp
  unfold splitWord
  rw [htoken]
  simp only [hdrop, htake]
  rw [← hcs, String.ofList_toList, String.ofList_toList]

theorem isOption_inline (value : String) : isOption (word ++ "=" ++ value) = true := by
  obtain ⟨cs, hcs⟩ := exists_dash hword
  unfold isOption
  rw [String.toList_append, String.toList_append, hcs]
  rfl

end Words

theorem inline_ne_bare (word value : String) : word ++ "=" ++ value ≠ "--" := by
  intro h
  have hmem : '=' ∈ (word ++ "=" ++ value).toList := by
    simp [String.toList_append]
  rw [h] at hmem
  exact absurd hmem (by decide)

/-- A token is its word, or its word and the value behind the equals sign. -/
theorem splitWord_eq (token : String) :
    splitWord token = (token, none) ∨ ∃ word value, splitWord token = (word, some value) ∧
      token = word ++ "=" ++ value := by
  unfold splitWord
  cases hcs : token.toList with
  | nil => exact .inl rfl
  | cons c cs =>
    simp only
    cases hdrop : cs.dropWhile (· ≠ '=') with
    | nil => exact .inl rfl
    | cons c' value =>
      right
      refine ⟨_, _, rfl, ?_⟩
      have hequals : c' = '=' := by
        have hhead := List.head?_dropWhile_not (· ≠ '=') cs
        rw [hdrop] at hhead
        simpa using hhead
      rw [hequals] at hdrop
      have hsplit : cs.takeWhile (· ≠ '=') ++ '=' :: value = cs := by
        rw [← hdrop, List.takeWhile_append_dropWhile]
      have htext : (String.ofList (c :: cs.takeWhile (· ≠ '=')) ++ "=" ++
          String.ofList value).toList = c :: (cs.takeWhile (· ≠ '=') ++ '=' :: value) := by simp
      apply String.toList_inj.1
      rw [htext, hcs, hsplit]

/-! ### Parts -/

/-- A part of a command line. -/
inductive Part where
  | path (p : String)
  | option (word : String) (values : List String)
  | inline (word value : String)
deriving DecidableEq

namespace Part

/-- The arguments of a part. -/
def arguments : Part → List String
  | .path p => [p]
  | .option word values => word :: values
  | .inline word value => [word ++ "=" ++ value]

/-- What a part is about: a setting, or paths. -/
def setting? : Part → Option Setting
  | .path _ => none
  | .option word _ => Setting.of? word
  | .inline word _ => Setting.of? word

/-- A path does not look like an option, an option has as many values as it takes, and only an option
with one value may have it behind an equals sign. -/
def WellFormed : Part → Prop
  | .path p => isOption p = false
  | .option word values => (Setting.of? word).map Setting.arity = some values.length
  | .inline word _ => (Setting.of? word).map Setting.arity = some 1

instance : DecidablePred WellFormed
  | .path p => inferInstanceAs (Decidable (isOption p = false))
  | .option word values =>
    inferInstanceAs (Decidable ((Setting.of? word).map Setting.arity = some values.length))
  | .inline word _ => inferInstanceAs (Decidable ((Setting.of? word).map Setting.arity = some 1))

/-- The values of an option word, entered into a draft. -/
def enterWord (d : Draft) (word : String) (values : List String) : Except UsageError Draft :=
  match Setting.of? word with
  | some setting => d.enter word setting values
  | none => .error (.unknownOption word)

/-- A part, entered into a draft. -/
def enter (d : Draft) : Part → Except UsageError Draft
  | .path p => .ok (d.addPaths [p])
  | .option word values => enterWord d word values
  | .inline word value => enterWord d word [value]

end Part

/-! ### Reading one part -/

section Values

variable {word value : String} {count n : ℕ} {values rest : List String}

/-- The arguments after an option word are taken if there are enough of them. -/
theorem takeValues_eq_ok : takeValues word count none rest = .ok (values, n) ↔
    count ≤ rest.length ∧ rest.take count = values ∧ count = n := by
  unfold takeValues
  simp only
  split
  · next hshort =>
    constructor
    · intro h
      cases h
    · rintro ⟨henough, -⟩
      omega
  · next henough =>
    rw [Except.ok.injEq, Prod.mk.injEq]
    exact ⟨fun h => ⟨Nat.not_lt.1 henough, h⟩, fun h => h.2⟩

/-- The value behind an equals sign is taken if the option has just one. -/
theorem takeValues_inline_eq_ok : takeValues word count (some value) rest = .ok (values, n) ↔
    count = 1 ∧ [value] = values ∧ 0 = n := by
  unfold takeValues
  simp only
  split
  · next hone =>
    rw [Except.ok.injEq, Prod.mk.injEq]
    exact ⟨fun h => ⟨hone, h⟩, fun h => h.2⟩
  · next hmany =>
    constructor
    · intro h
      cases h
    · rintro ⟨hone, -⟩
      exact absurd hone hmany

/-- An option that is no switch passes over the arguments that are taken for it. -/
theorem exists_taken {taken : Except UsageError (List String × ℕ)}
    {enter : List String → Except UsageError Draft} {next : Draft}
    (h : (taken.bind fun (values, k) => (enter values).map (·, k)) = .ok (next, n)) :
    ∃ values, taken = .ok (values, n) := by
  obtain ⟨⟨values, k⟩, htaken, henter⟩ := bind_eq_ok.1 h
  obtain ⟨e, -, heq⟩ := map_eq_ok.1 henter
  obtain ⟨-, rfl⟩ := Prod.mk.inj heq
  exact ⟨values, htaken⟩

end Values

section Reading

variable {d : Draft} {word : String} {setting : Setting} (h : Setting.of? word = some setting)

include h

theorem readOption_option {values : List String} (hlength : setting.arity = values.length)
    (rest : List String) : readOption d word (values ++ rest) =
      (Part.enterWord d word values).map fun e => (e, values.length) := by
  have hvalues : takeValues word setting.arity none (values ++ rest) =
      .ok (values, values.length) := by
    rw [takeValues_eq_ok, hlength]
    exact ⟨by simp, List.take_left, rfl⟩
  unfold readOption Part.enterWord
  simp only [splitWord_word (isWord_of_setting h), h]
  cases setting with
  | switch s =>
    obtain rfl : values = [] := List.eq_nil_of_length_eq_zero hlength.symm
    rfl
  | key l | ratio | window | plot | bound b =>
    simp only [hvalues]
    rfl

theorem readOption_inline (hone : setting.arity = 1) (value : String) (rest : List String) :
    readOption d (word ++ "=" ++ value) rest =
      (Part.enterWord d word [value]).map fun e => (e, 0) := by
  have hvalues : takeValues word setting.arity (some value) rest = .ok ([value], 0) :=
    takeValues_inline_eq_ok.2 ⟨hone, rfl, rfl⟩
  unfold readOption Part.enterWord
  simp only [splitWord_inline (isWord_of_setting h), h]
  cases setting with
  | switch s => cases hone
  | key l | ratio | window | plot | bound b =>
    simp only [hvalues]
    rfl

end Reading

/-- An option is read, and then what follows its values. -/
theorem scan_option {d : Draft} {token : String} {rest : List String}
    (hoption : isOption token = true) (hbare : token ≠ "--") :
    scan d (token :: rest) =
      (readOption d token rest).bind fun read => scan read.1 (rest.drop read.2) := by
  rw [scan, hoption, if_neg (by simp), if_neg hbare]
  cases readOption d token rest with
  | error e => rfl
  | ok read => rfl

/-- **A part is read, and then what follows it.** -/
theorem scan_part {p : Part} (hp : p.WellFormed) (d : Draft) (rest : List String) :
    scan d (p.arguments ++ rest) = (p.enter d).bind fun e => scan e rest := by
  cases p with
  | path p =>
    have hpath : isOption p = false := hp
    show scan d (p :: rest) = scan (d.addPaths [p]) rest
    rw [scan, hpath, if_pos (by simp)]
  | option word values =>
    obtain ⟨s, hs, hlength⟩ := Option.map_eq_some_iff.1 hp
    show scan d (word :: (values ++ rest)) = (Part.enterWord d word values).bind _
    rw [scan_option (isWord_of_setting hs).dash (ne_bare_of_setting hs),
      readOption_option hs hlength]
    cases Part.enterWord d word values with
    | error e => rfl
    | ok e =>
      show scan e ((values ++ rest).drop values.length) = _
      rw [List.drop_left]
      rfl
  | inline word value =>
    obtain ⟨s, hs, hone⟩ := Option.map_eq_some_iff.1 hp
    show scan d ((word ++ "=" ++ value) :: rest) = (Part.enterWord d word [value]).bind _
    rw [scan_option (isOption_inline (isWord_of_setting hs) value) (inline_ne_bare word value),
      readOption_inline hs hone]
    cases Part.enterWord d word [value] with
    | error e => rfl
    | ok e => rfl

/-! ### Reading all parts -/

/-- The arguments of parts. -/
def argumentsOf (parts : List Part) : List String :=
  parts.flatMap Part.arguments

/-- A command line consists of parts, and of a bare `--` with paths if it has one. -/
structure Consists (argv : List String) (parts : List Part) (paths : Option (List String)) :
    Prop where
  wellFormed : ∀ p ∈ parts, p.WellFormed
  arguments : argv = argumentsOf parts ++ paths.elim [] ("--" :: ·)

/-- **Parts are read one after the other**, and then what follows them. -/
theorem scan_parts {parts : List Part} (h : ∀ p ∈ parts, p.WellFormed) (d : Draft)
    (rest : List String) : scan d (argumentsOf parts ++ rest) =
      (parts.foldlM Part.enter d).bind fun e => scan e rest := by
  induction parts generalizing d with
  | nil => rfl
  | cons p parts ih =>
    obtain ⟨hp, hparts⟩ := List.forall_mem_cons.1 h
    have harguments : argumentsOf (p :: parts) ++ rest =
        p.arguments ++ (argumentsOf parts ++ rest) := List.append_assoc ..
    rw [harguments, scan_part hp, List.foldlM_cons]
    cases p.enter d with
    | error e => rfl
    | ok e => exact ih hparts e

theorem scan_bare (d : Draft) (paths : List String) :
    scan d ("--" :: paths) = .ok (d.addPaths paths) := by
  rw [scan]
  rfl

/-- **What is read of a command line** are its parts, and the paths behind a bare `--`. -/
theorem Consists.scan_eq {argv : List String} {parts : List Part} {paths : Option (List String)}
    (h : Consists argv parts paths) (d : Draft) : scan d argv =
      (parts.foldlM Part.enter d).map fun e => paths.elim e e.addPaths := by
  rw [h.arguments, scan_parts h.wellFormed]
  cases parts.foldlM Part.enter d with
  | error e => rfl
  | ok e =>
    cases paths with
    | none =>
      show scan e [] = .ok e
      rw [scan]
    | some paths => exact scan_bare e paths

/-- An option that can be read begins a part. -/
theorem exists_part {d next : Draft} {token : String} {rest : List String} {taken : ℕ}
    (h : readOption d token rest = .ok (next, taken)) :
    ∃ p : Part, p.WellFormed ∧ token :: rest = p.arguments ++ rest.drop taken := by
  unfold readOption at h
  rcases splitWord_eq token with hword | ⟨word, value, hword, rfl⟩
  · simp only [hword] at h
    split at h
    · cases h
    · next s hs =>
      obtain ⟨-, rfl⟩ := Prod.mk.inj (Except.ok.inj h)
      exact ⟨.option token [], Option.map_eq_some_iff.2 ⟨_, hs, rfl⟩, rfl⟩
    · next setting _ hs =>
      obtain ⟨values, hvalues⟩ := exists_taken h
      obtain ⟨henough, rfl, rfl⟩ := takeValues_eq_ok.1 hvalues
      refine ⟨.option token (rest.take setting.arity),
        Option.map_eq_some_iff.2 ⟨setting, hs, ?_⟩, ?_⟩
      · rw [List.length_take, Nat.min_eq_left henough]
      · show token :: rest = token :: (rest.take _ ++ rest.drop _)
        rw [List.take_append_drop]
  · simp only [hword] at h
    split at h
    · cases h
    · cases h
    · next setting _ hs =>
      obtain ⟨values, hvalues⟩ := exists_taken h
      obtain ⟨hone, -, rfl⟩ := takeValues_inline_eq_ok.1 hvalues
      exact ⟨.inline word value, Option.map_eq_some_iff.2 ⟨setting, hs, hone⟩, rfl⟩

/-- **All that can be scanned consists of parts**, up to its end or to a bare `--`. -/
theorem exists_consists {d e : Draft} {argv : List String} (h : scan d argv = .ok e) :
    ∃ parts paths, Consists argv parts paths := by
  fun_induction scan d argv with
  | case1 d => exact ⟨[], none, by simp, rfl⟩
  | case2 d p rest hpath ih =>
    obtain ⟨parts, paths, hparts, rfl⟩ := ih h
    have hp : isOption p = false := by simpa using hpath
    exact ⟨.path p :: parts, paths, List.forall_mem_cons.2 ⟨hp, hparts⟩, rfl⟩
  | case3 d rest => exact ⟨[], some rest, by simp, rfl⟩
  | case4 => cases h
  | case5 d token rest hoption hbare next taken hread ih =>
    obtain ⟨parts, paths, hparts, hrest⟩ := ih h
    obtain ⟨p, hp, htoken⟩ := exists_part hread
    refine ⟨p :: parts, paths, List.forall_mem_cons.2 ⟨hp, hparts⟩, ?_⟩
    rw [htoken, hrest]
    exact (List.append_assoc ..).symm

/-- A part begins with an argument that is no bare `--`. -/
theorem Part.arguments_ne_bare {p : Part} (hp : p.WellFormed) (rest more : List String) :
    p.arguments ++ rest ≠ "--" :: more := by
  intro h
  cases p with
  | path p =>
    obtain ⟨rfl, -⟩ := List.cons.inj h
    exact absurd hp (by decide)
  | option word values =>
    obtain ⟨s, hs, -⟩ := Option.map_eq_some_iff.1 hp
    exact ne_bare_of_setting hs (List.cons.inj h).1
  | inline word value => exact inline_ne_bare word value (List.cons.inj h).1

theorem path_ne_word {path word : String} {s : Setting} (hpath : isOption path = false)
    (hs : Setting.of? word = some s) : path ≠ word := by
  have hdash := (isWord_of_setting hs).dash
  rintro rfl
  exact absurd (hdash.symm.trans hpath) (by decide)

theorem path_ne_inline {path word value : String} {s : Setting} (hpath : isOption path = false)
    (hs : Setting.of? word = some s) : path ≠ word ++ "=" ++ value := by
  have hinline := isOption_inline (isWord_of_setting hs) value
  rintro rfl
  exact absurd (hinline.symm.trans hpath) (by decide)

/-- A word alone is not a word with a value. -/
theorem word_ne_inline {word word' value : String} {s s' : Setting}
    (hs : Setting.of? word = some s) (hs' : Setting.of? word' = some s') :
    word ≠ word' ++ "=" ++ value := by
  rintro rfl
  have hsplit := splitWord_word (isWord_of_setting hs)
  rw [splitWord_inline (isWord_of_setting hs')] at hsplit
  cases congrArg Prod.snd hsplit

/-- **A part is known from its arguments.** -/
theorem Part.arguments_injective {p q : Part} (hp : p.WellFormed) (hq : q.WellFormed)
    {rest more : List String} (h : p.arguments ++ rest = q.arguments ++ more) :
    p = q ∧ rest = more := by
  -- The first argument says how many others belong to the part, and whether its word has a value.
  cases p with
  | path p =>
    cases q with
    | path q =>
      obtain ⟨rfl, rfl⟩ := List.cons.inj h
      exact ⟨rfl, rfl⟩
    | option word values =>
      obtain ⟨s, hs, -⟩ := Option.map_eq_some_iff.1 hq
      exact absurd (List.cons.inj h).1 (path_ne_word hp hs)
    | inline word value =>
      obtain ⟨s, hs, -⟩ := Option.map_eq_some_iff.1 hq
      exact absurd (List.cons.inj h).1 (path_ne_inline hp hs)
  | option word values =>
    obtain ⟨s, hs, hlength⟩ := Option.map_eq_some_iff.1 hp
    cases q with
    | path q => exact absurd (List.cons.inj h).1.symm (path_ne_word hq hs)
    | option word' values' =>
      obtain ⟨s', hs', hlength'⟩ := Option.map_eq_some_iff.1 hq
      obtain ⟨rfl, hvalues⟩ := List.cons.inj h
      obtain rfl := Option.some.inj (hs.symm.trans hs')
      obtain ⟨rfl, rfl⟩ := List.append_inj hvalues (hlength.symm.trans hlength')
      exact ⟨rfl, rfl⟩
    | inline word' value' =>
      obtain ⟨s', hs', -⟩ := Option.map_eq_some_iff.1 hq
      exact absurd (List.cons.inj h).1 (word_ne_inline hs hs')
  | inline word value =>
    obtain ⟨s, hs, -⟩ := Option.map_eq_some_iff.1 hp
    cases q with
    | path q => exact absurd (List.cons.inj h).1.symm (path_ne_inline hq hs)
    | option word' values' =>
      obtain ⟨s', hs', -⟩ := Option.map_eq_some_iff.1 hq
      exact absurd (List.cons.inj h).1.symm (word_ne_inline hs' hs)
    | inline word' value' =>
      obtain ⟨s', hs', -⟩ := Option.map_eq_some_iff.1 hq
      obtain ⟨htoken, rfl⟩ := List.cons.inj h
      have hsplit := congrArg splitWord htoken
      rw [splitWord_inline (isWord_of_setting hs), splitWord_inline (isWord_of_setting hs')] at hsplit
      obtain ⟨rfl, hvalue⟩ := Prod.mk.inj hsplit
      obtain rfl := Option.some.inj hvalue
      exact ⟨rfl, rfl⟩

/-- **A command line consists of its parts in one way only.** -/
theorem Consists.unique {argv : List String} {parts parts' : List Part}
    {paths paths' : Option (List String)} (h : Consists argv parts paths)
    (h' : Consists argv parts' paths') : parts = parts' ∧ paths = paths' := by
  obtain ⟨hwell, rfl⟩ := h
  obtain ⟨hwell', heq⟩ := h'
  have hends : ∀ {p : Part} {parts : List Part} {paths paths' : Option (List String)},
      p.WellFormed → paths.elim [] ("--" :: ·) ≠
        p.arguments ++ (argumentsOf parts ++ paths'.elim [] ("--" :: ·)) := by
    intro p parts paths paths' hp heq
    cases paths with
    | none => cases p <;> cases heq
    | some more => exact Part.arguments_ne_bare hp _ more heq.symm
  have hcons : ∀ (p : Part) (parts : List Part) (rest : List String),
      argumentsOf (p :: parts) ++ rest = p.arguments ++ (argumentsOf parts ++ rest) :=
    fun _ _ _ => List.append_assoc ..
  induction parts generalizing parts' with
  | nil =>
    cases parts' with
    | nil =>
      refine ⟨rfl, ?_⟩
      cases paths with
      | none =>
        cases paths' with
        | none => rfl
        | some more => cases heq
      | some more =>
        cases paths' with
        | none => cases heq
        | some more' => rw [(List.cons.inj heq).2]
    | cons p parts' =>
      rw [hcons] at heq
      exact absurd heq (hends (List.forall_mem_cons.1 hwell').1)
  | cons p parts ih =>
    obtain ⟨hp, hparts⟩ := List.forall_mem_cons.1 hwell
    rw [hcons] at heq
    cases parts' with
    | nil => exact absurd heq.symm (hends hp)
    | cons p' parts' =>
      obtain ⟨hp', hparts'⟩ := List.forall_mem_cons.1 hwell'
      rw [hcons] at heq
      obtain ⟨rfl, hrest⟩ := Part.arguments_injective hp hp' heq
      obtain ⟨rfl, rfl⟩ := ih hparts hparts' hrest
      exact ⟨rfl, rfl⟩

/-- Whether a bare `--` stands where an option could. -/
def HasBare (argv : List String) : Prop :=
  ∃ parts paths, Consists argv parts (some paths)

theorem Consists.not_hasBare {argv : List String} {parts : List Part}
    (h : Consists argv parts none) : ¬ HasBare argv := by
  rintro ⟨parts', paths, h'⟩
  cases (h.unique h').2

/-- **A command line without a bare `--` is read, and then what follows it.** -/
theorem scan_append {a : List String} {d e : Draft} (ha : scan d a = .ok e) (hbare : ¬ HasBare a)
    (b : List String) : scan d (a ++ b) = scan e b := by
  obtain ⟨parts, paths, h⟩ := exists_consists ha
  cases paths with
  | some paths => exact absurd ⟨parts, paths, h⟩ hbare
  | none =>
    rw [h.scan_eq] at ha
    obtain ⟨e', he', rfl⟩ := map_eq_ok.1 ha
    rw [h.arguments, Option.elim_none, List.append_nil, scan_parts h.wellFormed, he']
    rfl

/-! ### What parts are about -/

theorem lacks_addPaths {d : Draft} {paths : List String} {s : Option Setting} :
    (d.addPaths paths).Lacks s ↔ d.Lacks s ∧ (s = none → paths = []) := by
  have hjoin := d.addPaths_join {} paths
  rw [d.join_empty] at hjoin
  rw [hjoin, Draft.lacks_join]
  fun_cases Draft.Lacks d s <;> simp [Draft.Lacks, Draft.addPaths]

/-- The values of a setting are entered for this setting. -/
theorem lacks_enter {d e : Draft} {word : String} {setting : Setting} {values : List String}
    (hlength : setting.arity = values.length) (h : d.enter word setting values = .ok e)
    {s : Option Setting} : e.Lacks s ↔ d.Lacks s ∧ some setting ≠ s := by
  have hjoin := d.enter_join {} word setting values
  rw [d.join_empty, h] at hjoin
  obtain ⟨e', he', rfl⟩ := map_eq_ok.1 hjoin.symm
  rw [Draft.lacks_join]
  -- What is entered into the empty draft is all that matters: one setting, and no other.
  suffices he : e'.Lacks s ↔ some setting ≠ s by rw [he]
  clear hjoin h
  fun_cases Draft.enter {} word setting values with
  | case1 l key =>
    obtain rfl := Except.ok.inj he'
    cases l <;> fun_cases Draft.Lacks {} s <;> simp [Draft.Lacks, Draft.addKey]
  | case2 first second =>
    obtain rfl := Except.ok.inj he'
    fun_cases Draft.Lacks {} s <;> simp [Draft.Lacks]
  | case3 key scale =>
    obtain ⟨x, -, rfl⟩ := map_eq_ok.1 he'
    fun_cases Draft.Lacks {} s <;> simp [Draft.Lacks]
  | case4 x y aggregation =>
    obtain rfl := Except.ok.inj he'
    fun_cases Draft.Lacks {} s <;> simp [Draft.Lacks]
  | case5 b value =>
    obtain ⟨x, -, rfl⟩ := map_eq_ok.1 he'
    cases b <;> fun_cases Draft.Lacks {} s <;> simp [Draft.Lacks, Draft.setBound]
  | case6 switch _ =>
    obtain rfl := Except.ok.inj he'
    cases switch <;> fun_cases Draft.Lacks {} s <;> simp [Draft.Lacks, Draft.turnOn]
  | case7 _ _ hkey hratio hwindow hplot hbound hswitch =>
    -- Some list of values has the length that the setting asks for.
    cases setting with
    | switch s => exact (hswitch s rfl).elim
    | key l =>
      obtain ⟨key, rfl⟩ := List.length_eq_one_iff.1 hlength.symm
      exact (hkey l key rfl rfl).elim
    | ratio =>
      obtain ⟨first, second, rfl⟩ := List.length_eq_two.1 hlength.symm
      exact (hratio first second rfl rfl).elim
    | window =>
      obtain ⟨key, scale, rfl⟩ := List.length_eq_two.1 hlength.symm
      exact (hwindow key scale rfl rfl).elim
    | plot =>
      obtain ⟨x, y, aggregation, rfl⟩ := List.length_eq_three.1 hlength.symm
      exact (hplot x y aggregation rfl rfl).elim
    | bound b =>
      obtain ⟨value, rfl⟩ := List.length_eq_one_iff.1 hlength.symm
      exact (hbound b value rfl rfl).elim

theorem lacks_part {d e : Draft} {p : Part} (hp : p.WellFormed) (h : p.enter d = .ok e)
    {s : Option Setting} : e.Lacks s ↔ d.Lacks s ∧ p.setting? ≠ s := by
  cases p with
  | path p =>
    obtain rfl := Except.ok.inj h
    rw [lacks_addPaths]
    simp [Part.setting?, eq_comm]
  | option word values =>
    obtain ⟨setting, hs, hlength⟩ := Option.map_eq_some_iff.1 hp
    have henter : d.enter word setting values = .ok e := by
      rw [← h]
      unfold Part.enter Part.enterWord
      simp only [hs]
    rw [lacks_enter hlength henter, Part.setting?, hs]
  | inline word value =>
    obtain ⟨setting, hs, hone⟩ := Option.map_eq_some_iff.1 hp
    have henter : d.enter word setting [value] = .ok e := by
      rw [← h]
      unfold Part.enter Part.enterWord
      simp only [hs]
    rw [lacks_enter hone henter, Part.setting?, hs]

/-- **A draft has what the parts are about, and nothing else.** -/
theorem Consists.lacks_iff {argv : List String} {parts : List Part} {paths : Option (List String)}
    (h : Consists argv parts paths) {d : Draft} (hd : scan {} argv = .ok d) {s : Option Setting} :
    d.Lacks s ↔ (∀ p ∈ parts, p.setting? ≠ s) ∧ (s = none → paths.getD [] = []) := by
  have hparts : ∀ {parts : List Part} {d e : Draft}, (∀ p ∈ parts, p.WellFormed) →
      parts.foldlM Part.enter d = .ok e →
      (e.Lacks s ↔ d.Lacks s ∧ ∀ p ∈ parts, p.setting? ≠ s) := by
    intro parts
    induction parts with
    | nil =>
      intro d e _ h
      obtain rfl := Except.ok.inj h
      simp
    | cons p parts ih =>
      intro d e hwell h
      obtain ⟨hp, hmore⟩ := List.forall_mem_cons.1 hwell
      rw [List.foldlM_cons] at h
      obtain ⟨next, hnext, hrest⟩ := bind_eq_ok.1 h
      rw [ih hmore hrest, lacks_part hp hnext, List.forall_mem_cons, and_assoc]
  rw [h.scan_eq] at hd
  obtain ⟨e, he, rfl⟩ := map_eq_ok.1 hd
  have hall := hparts h.wellFormed he
  cases paths with
  | none =>
    show e.Lacks s ↔ _
    rw [hall]
    simp [Draft.lacks_empty]
  | some paths =>
    show (e.addPaths paths).Lacks s ↔ _
    rw [lacks_addPaths, hall]
    simp [Draft.lacks_empty]

/-- Whether a command line has an option for a setting, or a path. -/
def Gives (argv : List String) (s : Option Setting) : Prop :=
  ∃ parts paths, Consists argv parts paths ∧
    ((∃ p ∈ parts, p.setting? = s) ∨ s = none ∧ paths.getD [] ≠ [])

theorem Consists.gives_iff {argv : List String} {parts : List Part} {paths : Option (List String)}
    (h : Consists argv parts paths) {s : Option Setting} :
    Gives argv s ↔ (∃ p ∈ parts, p.setting? = s) ∨ s = none ∧ paths.getD [] ≠ [] := by
  constructor
  · rintro ⟨parts', paths', h', hgives⟩
    obtain ⟨rfl, rfl⟩ := h.unique h'
    exact hgives
  · intro hgives
    exact ⟨parts, paths, h, hgives⟩

/-- **What a command line gives is what its draft has.** -/
theorem gives_iff {argv : List String} {d : Draft} (hd : scan {} argv = .ok d)
    {s : Option Setting} : Gives argv s ↔ ¬ d.Lacks s := by
  obtain ⟨parts, paths, h⟩ := exists_consists hd
  rw [h.gives_iff, h.lacks_iff hd, not_and_or]
  simp

end Framewise.Command
