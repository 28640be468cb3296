import Framewise.Proofs.Command.Listing
import Framewise.Proofs.Number.Grammar
import Framewise.Proofs.Text.Pieces

/-!
# The port of the service

A port is what its text begins with, read as an integer; what follows the digits is passed over. So
more texts are accepted than those that write a port and nothing else. A text that is not accepted
ends the run, but everything else has been written by then.

* `leadingInteger?_eq_some_iff`: what a text begins with.
* `port?_eq_some_iff`, `writesPort_iff`: the texts that are accepted, and those that write a port.
* `run_of_badPort`: a run with a port that is none.
* `port_accepted_iff`: the whole, for all environments and command lines.
-/

namespace Framewise

open Number Text

/-! ### Integers at the beginning of a text -/

namespace Number

/-- A text begins with an integer: blanks, a sign that may be left out, and digits, as many as there
are. The rest is what follows them. -/
inductive Begins (text : String) : ℤ → List Char → Prop
  | mk {left sign ds rest : List Char} {negative : Bool} (blank : ∀ c ∈ left, isBlank c = true)
      (signed : OptionalSign sign negative) (digits : Digits ds) (ends : EndsDigits rest)
      (written : text.toList = left ++ (sign ++ (ds ++ rest))) :
      Begins text (signedInt negative (digitsValue ds)) rest

theorem endsDigits_afterDigits (cs : List Char) : EndsDigits (afterDigits cs) := head?_dropWhile

/-- A sign with digits behind it begins with no blank. -/
theorem OptionalSign.not_isBlank {sign ds : List Char} {negative : Bool}
    (hsign : OptionalSign sign negative) (hdigits : Digits ds) :
    ∀ c ∈ sign ++ ds, isBlank c = false :=
  List.forall_mem_append.2 ⟨hsign.forall_mem (by decide) (by decide),
    fun c hc => not_isBlank_of_isDigit (hdigits.2 c hc)⟩

/-- An integer at the beginning of a text is read, up to the rest. -/
theorem Begins.read {text : String} {i : ℤ} {rest : List Char} (h : Begins text i rest) :
    leadingInteger? text = some i ∧
      afterDigits (takeSign (text.toList.dropWhile isBlank)).2 = rest := by
  obtain ⟨hblank, hsign, hdigits, hends, hwritten⟩ := h
  rename_i left sign ds negative
  have hdrop : text.toList.dropWhile isBlank = sign ++ (ds ++ rest) := by
    rw [hwritten, List.dropWhile_append_of_pos hblank]
    apply dropWhile_of_head?
    rw [← List.append_assoc, List.head?_append_of_ne_nil _
      (List.append_ne_nil_of_right_ne_nil sign hdigits.1)]
    exact fun c hc => hsign.not_isBlank hdigits c (List.mem_of_mem_head? hc)
  have hsplit := hsign.takeSign_append (hdigits.beginsNumber rest).noSign
  refine ⟨?_, ?_⟩
  · simp only [leadingInteger?, hdrop, hsplit, leadingDigits_append hdigits.2 hends,
      natural?_eq_some_iff.2 ⟨hdigits, rfl⟩, Option.map_some]
  · rw [hdrop, hsplit, afterDigits_append hdigits.2 hends]

/-- **What a text begins with** is read as an integer. -/
theorem leadingInteger?_eq_some_iff {text : String} {i : ℤ} :
    leadingInteger? text = some i ↔ ∃ rest, Begins text i rest := by
  constructor
  · intro h
    simp only [leadingInteger?, Option.map_eq_some_iff, natural?_eq_some_iff] at h
    obtain ⟨_, ⟨hdigits, rfl⟩, rfl⟩ := h
    obtain ⟨sign, hsign, hcs⟩ := exists_sign (text.toList.dropWhile isBlank)
    have hwritten := @List.takeWhile_append_dropWhile _ isBlank text.toList
    rw [hcs, ← leadingDigits_append_afterDigits (takeSign _).2] at hwritten
    exact ⟨_, .mk (fun c => List.mem_takeWhile_imp) hsign hdigits (endsDigits_afterDigits _)
      hwritten.symm⟩
  · rintro ⟨rest, hbegins⟩
    exact hbegins.read.1

end Number

namespace Service

/-! ### Ports -/

/-- A text writes a port and nothing else: without the blanks around it, it is digits with a sign that
may be left out, and they denote the port. -/
def WritesPort (text : String) (port : ℕ) : Prop :=
  port ≤ 65535 ∧ ∃ sign ds negative, OptionalSign sign negative ∧ Digits ds ∧
    trim text.toList = sign ++ ds ∧ signedInt negative (digitsValue ds) = port

/-- The texts that are accepted. -/
theorem port?_eq_some_iff {text : String} {port : ℕ} :
    port? text = some port ↔ port ≤ 65535 ∧ ∃ rest, Begins text port rest := by
  rw [← leadingInteger?_eq_some_iff]
  unfold port?
  constructor
  · intro h
    split at h
    · next n hn =>
      obtain ⟨⟨hlow, hhigh⟩, hport⟩ := Option.ite_none_right_eq_some.1 h
      obtain rfl := Option.some.inj hport
      rw [hn, Int.toNat_of_nonneg hlow]
      exact ⟨by omega, rfl⟩
    · cases h
  · rintro ⟨hmost, hread⟩
    rw [hread]
    simp only
    rw [if_pos (by omega), Int.toNat_natCast]

/-- **A text that writes a port** begins with it, and goes on with nothing but blanks. -/
theorem writesPort_iff {text : String} {port : ℕ} :
    WritesPort text port ↔
      port ≤ 65535 ∧ ∃ rest, Begins text port rest ∧ ∀ c ∈ rest, isBlank c = true := by
  refine and_congr_right fun _ => ?_
  constructor
  · rintro ⟨sign, ds, negative, hsign, hdigits, htrim, hvalue⟩
    have hends : EndsDigits (takeTail isBlank (text.toList.dropWhile isBlank)) := by
      intro c hc
      rw [Bool.eq_false_iff]
      intro hdigit
      have hblank := forall_mem_takeTail c (List.mem_of_mem_head? hc)
      rw [not_isBlank_of_isDigit hdigit] at hblank
      cases hblank
    have hwritten : text.toList = text.toList.takeWhile isBlank ++
        (sign ++ (ds ++ takeTail isBlank (text.toList.dropWhile isBlank))) := by
      rw [← List.append_assoc sign, ← htrim, trim, dropTail_append_takeTail,
        List.takeWhile_append_dropWhile]
    rw [← hvalue]
    exact ⟨_, .mk (fun c => List.mem_takeWhile_imp) hsign hdigits hends hwritten,
      forall_mem_takeTail⟩
  · rintro ⟨rest, hbegins, hrest⟩
    generalize hi : (port : ℤ) = i at hbegins
    obtain ⟨hblank, hsign, hdigits, hends, hwritten⟩ := hbegins
    rename_i left sign ds negative
    refine ⟨sign, ds, negative, hsign, hdigits, ?_, rfl⟩
    rw [hwritten, ← List.append_assoc sign, ← List.append_assoc, trim_surround hblank hrest,
      trim_of_blankFree (hsign.not_isBlank hdigits)]

section Environment

variable {env : Environment} {text : String}

theorem setting?_of_some {name : String} (h : env name = some text) (hne : text ≠ "") :
    setting? env name = some text := by
  rw [setting?, h, Option.filter_some, if_pos (decide_eq_true hne)]

/-- An address is that of the port that its text begins with. -/
theorem ofEnvironment_eq_ok_iff (h : env "PORT" = some text) (hne : text ≠ "") {port : ℕ} :
    (∃ a, Address.ofEnvironment env = .ok a ∧ a.port = port) ↔ port? text = some port := by
  unfold Address.ofEnvironment
  simp only [setting?_of_some h hne]
  constructor
  · rintro ⟨a, ha, rfl⟩
    split at ha
    · next p hp =>
      obtain rfl := Except.ok.inj ha
      exact hp
    · cases ha
  · intro hport
    rw [hport]
    exact ⟨_, rfl, rfl⟩

theorem ofEnvironment_eq_error (h : env "PORT" = some text) (hne : text ≠ "")
    (hport : port? text = none) : Address.ofEnvironment env = .error ⟨text⟩ := by
  unfold Address.ofEnvironment
  simp only [setting?_of_some h hne, hport]

end Environment

end Service

namespace Command

open Service

/-! ### Runs -/

/-- What a run writes that builds these views: the listing of keys, if it is asked for, and the
views. -/
def written (o : Options) (loaded : List Log.Loaded) (views : List View) : String :=
  (if o.printKeys then keyListing (Log.sources loaded).keys else "") ++ viewText o.json views

/-- The views that a run builds from logs. -/
def viewsOf (o : Options) (loaded : List Log.Loaded) : Except Shortfall (List View) :=
  buildViews ((Log.sources loaded).align ((Log.sources loaded).keys ++ o.views.keys) o.range) o.views

theorem answer_of_views {o : Options} {loaded : List Log.Loaded} {views : List View}
    (environment : Environment) (h : viewsOf o loaded = .ok views) :
    answer o environment loaded =
      serve o environment (Log.sources loaded) (written o loaded views)
        (loaded.map fun l => .entry (loadedEntry l)) := by
  unfold viewsOf at h
  unfold answer
  simp only [h]
  rfl

/-- **A run with a port that is none** says so after everything else has been written. -/
theorem run_of_badPort {argv : List String} {s : Surroundings} {o : Options}
    {loaded : List Log.Loaded} {views : List View} {e : BadPort}
    (hparse : parseArguments argv = .ok o) (hhelp : o.help = false) (hserve : o.serve = true)
    (hload : Log.loadAll s.directory s.input o.paths = .ok loaded)
    (hviews : viewsOf o loaded = .ok views) (hport : Address.ofEnvironment s.environment = .error e) :
    run argv s =
      { code := 1, output := written o loaded views
        notices := (loaded.map fun l => .entry (loadedEntry l)) ++
          [.text ("error: " ++ e.message ++ "\n")] } := by
  rw [run_eq_answer hparse hhelp hload, answer_of_views _ hviews]
  unfold serve
  rw [if_pos hserve, hport]
  rfl

/-- **The port that the service gets.** Without a value for `PORT`, or with the empty text, it is 5050.

* Every other text is accepted exactly if it begins with a port: blanks, a sign that may be left out,
  and digits that denote a number up to 65535. What follows the digits makes no difference.
* So the texts that are accepted are those that write their port and nothing else, for one text
  exactly if nothing but blanks follows the digits of a port that it begins with.
* Any other text is an error, which says the text. A run that is to serve ends with it and with the
  code 1, and it has written all that it writes without serving: the listing and all views. -/
theorem port_accepted_iff (s : Surroundings) :
    let env := s.environment
    (env "PORT" = none ∨ env "PORT" = some "" →
      ∃ a, Address.ofEnvironment env = .ok a ∧ a.port = 5050) ∧
    (∀ text, env "PORT" = some text → text ≠ "" →
      (∀ port, (∃ a, Address.ofEnvironment env = .ok a ∧ a.port = port) ↔
        port ≤ 65535 ∧ ∃ rest, Begins text port rest) ∧
      ((∀ port, (∃ a, Address.ofEnvironment env = .ok a ∧ a.port = port) ↔ WritesPort text port) ↔
        ∀ (port : ℕ) rest, port ≤ 65535 → Begins text port rest → ∀ c ∈ rest, isBlank c = true) ∧
      ((∀ (port : ℕ) rest, port ≤ 65535 → ¬ Begins text port rest) →
        ∃ e, Address.ofEnvironment env = .error e ∧ e.message = "Invalid PORT: " ++ text)) ∧
    ∀ argv o loaded views e, parseArguments argv = .ok o → o.help = false → o.serve = true →
      Log.loadAll s.directory s.input o.paths = .ok loaded → viewsOf o loaded = .ok views →
      Address.ofEnvironment env = .error e →
      run argv s =
        { code := 1, output := written o loaded views
          notices := (loaded.map fun l => .entry (loadedEntry l)) ++
            [.text ("error: " ++ e.message ++ "\n")] } ∧
      (run argv s).output = (answer { o with serve := false } env loaded).output := by
  intro env
  refine ⟨?_, ?_, ?_⟩
  · intro hnone
    have hsetting : setting? env "PORT" = none := by
      rcases hnone with hnone | hempty
      · rw [setting?, hnone]
        rfl
      · rw [setting?, hempty]
        rfl
    unfold Address.ofEnvironment
    simp only [hsetting]
    exact ⟨_, rfl, rfl⟩
  · intro text henv hne
    have haccepted : ∀ port, (∃ a, Address.ofEnvironment env = .ok a ∧ a.port = port) ↔
        port ≤ 65535 ∧ ∃ rest, Begins text port rest :=
      fun port => (ofEnvironment_eq_ok_iff henv hne).trans port?_eq_some_iff
    refine ⟨haccepted, ?_, ?_⟩
    · simp only [haccepted, writesPort_iff]
      constructor
      · intro hwritten port rest hmost hbegins
        obtain ⟨-, rest', hbegins', hblank⟩ := (hwritten port).1 ⟨hmost, rest, hbegins⟩
        rwa [← hbegins.read.2, hbegins'.read.2]
      · intro hblank port
        refine and_congr_right fun hmost => exists_congr fun rest => ?_
        exact (and_iff_left_of_imp (hblank port rest hmost)).symm
    · intro hnone
      refine ⟨_, ofEnvironment_eq_error henv hne ?_, rfl⟩
      apply Option.eq_none_iff_forall_ne_some.2
      intro port hport
      obtain ⟨hmost, rest, hbegins⟩ := port?_eq_some_iff.1 hport
      exact hnone port rest hmost hbegins
  · intro argv o loaded views e hparse hhelp hserve hload hviews hport
    have hrun := run_of_badPort hparse hhelp hserve hload hviews hport
    refine ⟨hrun, ?_⟩
    have hplain : viewsOf { o with serve := false } loaded = .ok views := hviews
    rw [hrun, answer_of_views _ hplain, output_serve]
    rfl

/-- A sign and zeros, blanks and a rest that is no port, and a number that is too large after the
listing. -/
theorem port_accepted_iff_edge :
    let s (port : String) : Surroundings :=
      { directory := fun path => if path = "a.log" then
          some (.text "Stats Viewer : n 1\nStats Viewer : n 2\n") else none
        environment := fun name => if name = "PORT" then some port else none }
    (∃ a, Address.ofEnvironment (s " +0080\t").environment = .ok a ∧ a.port = 80) ∧
    (∃ a, Address.ofEnvironment (s "8080abc").environment = .ok a ∧ a.port = 8080) ∧
    run ["--serve", "--print_keys", "a.log"] (s "65536") =
      { code := 1, output := "n\n"
        notices := [.entry ⟨"reader", "a.log: 1 frames from 2 lines"⟩,
          .text "error: Invalid PORT: 65536\n"] } := by
  intro s
  refine ⟨?_, ?_, ?_⟩
  · have hdigits : Digits "0080".toList := ⟨by decide, List.all_eq_true.1 (by decide)⟩
    have hbegins : Begins " +0080\t" (80 : ℕ) ['\t'] :=
      @Begins.mk _ [' '] _ _ _ _ (List.all_eq_true.1 (by decide)) .plus hdigits
        (by rintro c ⟨⟩; rfl) rfl
    obtain ⟨haccepted, -⟩ := (port_accepted_iff (s " +0080\t")).2.1 _ rfl (by decide)
    exact (haccepted 80).2 ⟨by decide, _, hbegins⟩
  · have hdigits : Digits "8080".toList := ⟨by decide, List.all_eq_true.1 (by decide)⟩
    have hbegins : Begins "8080abc" (8080 : ℕ) "abc".toList :=
      @Begins.mk _ [] _ _ _ _ (List.forall_mem_nil _) .absent hdigits (by rintro c ⟨⟩; rfl) rfl
    obtain ⟨haccepted, -⟩ := (port_accepted_iff (s "8080abc")).2.1 _ rfl (by decide)
    exact (haccepted 8080).2 ⟨by decide, _, hbegins⟩
  · let o : Options := { printKeys := true, serve := true, paths := ["a.log"] }
    let loaded : List Log.Loaded := [⟨"a.log", [.ofList [("n", 1)]], 38, 2⟩]
    have hparse : parseArguments ["--serve", "--print_keys", "a.log"] = .ok o := by decide +kernel
    have hload : Log.loadAll (s "65536").directory [] ["a.log"] = .ok loaded := by decide +kernel
    have hbad : Address.ofEnvironment (s "65536").environment = .error ⟨"65536"⟩ := by decide +kernel
    have houtput : written o loaded [] = "n\n" := by decide +kernel
    have hnotices : (loaded.map fun l => Notice.entry (loadedEntry l)) =
        [.entry ⟨"reader", "a.log: 1 frames from 2 lines"⟩] := by decide +kernel
    obtain ⟨hrun, -⟩ :=
      (port_accepted_iff (s "65536")).2.2 _ _ loaded [] _ hparse rfl rfl hload rfl hbad
    rw [hrun, houtput, hnotices]
    rfl

/-- A fraction is accepted, although it writes no port. -/
theorem not_port_as_written :
    ¬ ∀ (env : Environment) (a : Address), Address.ofEnvironment env = .ok a →
      (env "PORT" = none ∨ env "PORT" = some "") ∧ a.port = 5050 ∨
        ∃ text, env "PORT" = some text ∧ WritesPort text a.port := by
  intro h
  have haccepted := h (fun name => if name = "PORT" then some "80.5" else none) { port := 80 }
    (by decide +kernel)
  rcases haccepted with ⟨-, hdefault⟩ | ⟨text, htext, -, sign, ds, negative, hsign, hdigits, htrim, hvalue⟩
  · exact absurd hdefault (by decide)
  · obtain rfl := Option.some.inj htext
    have hread := integer?_eq_some_iff.2 ⟨sign, ds, negative, hsign, hdigits, htrim, hvalue⟩
    exact absurd hread (by decide)

end Command

end Framewise
