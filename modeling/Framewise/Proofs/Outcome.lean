import Mathlib.Logic.Basic

/-!
# Computations that may fail

What it means that a computation made of others succeeds: each of them does, and it gives what they
give.

* `map_eq_ok`, `map_eq_error`, `mapError_eq_ok`, `bind_eq_ok`: one computation, and one after the
  other.
* `mapM_eq_ok`, `mapM_eq_error`: one for each element of a list.
* `mapM_append_eq`, `mapM_flatMap_eq`: those of one list after those of another.
-/

namespace Framewise

variable {ε α β γ : Type}

theorem map_eq_ok {x : Except ε α} {f : α → β} {b : β} :
    x.map f = .ok b ↔ ∃ a, x = .ok a ∧ f a = b := by
  cases x with
  | error e => simp [Except.map]
  | ok a => simp [Except.map]

theorem map_eq_error {x : Except ε α} {f : α → β} {e : ε} : x.map f = .error e ↔ x = .error e := by
  cases x with
  | error e' => simp [Except.map]
  | ok a => simp [Except.map]

theorem map_map_eq (x : Except ε α) (f : α → β) (g : β → γ) :
    (x.map f).map g = x.map fun a => g (f a) := by
  cases x with
  | error e => rfl
  | ok a => rfl

theorem mapError_eq_ok {ε' : Type} {x : Except ε α} {f : ε → ε'} {a : α} :
    x.mapError f = .ok a ↔ x = .ok a := by
  cases x with
  | error e =>
    show Except.error (f e) = .ok a ↔ _
    simp
  | ok a' =>
    show Except.ok a' = .ok a ↔ _
    simp

theorem bind_eq_ok {x : Except ε α} {f : α → Except ε β} {b : β} :
    x.bind f = .ok b ↔ ∃ a, x = .ok a ∧ f a = .ok b := by
  cases x with
  | error e => simp [Except.bind]
  | ok a => simp [Except.bind]

theorem exists_eq_ok {x : Except ε α} (h : x.toBool = true) : ∃ a, x = .ok a := by
  cases x with
  | error e => cases h
  | ok a => exact ⟨a, rfl⟩

/-- One computation, and then those of the rest. -/
theorem mapM_cons_eq (f : α → Except ε β) (a : α) (l : List α) :
    (a :: l).mapM f = (f a).bind fun b => (l.mapM f).map (b :: ·) := by
  rw [List.mapM_cons]
  rfl

/-- Those of one list, and then those of another. -/
theorem mapM_append_eq (f : α → Except ε β) (l l' : List α) :
    (l ++ l').mapM f = (l.mapM f).bind fun bs => (l'.mapM f).map (bs ++ ·) := by
  rw [List.mapM_append]
  rfl

/-- Those of several lists, one list after the other. -/
theorem mapM_flatMap_eq (f : α → Except ε β) (g : γ → List α) (l : List γ) :
    (l.flatMap g).mapM f = (l.mapM fun c => (g c).mapM f).map List.flatten := by
  induction l with
  | nil => rfl
  | cons c l ih =>
    rw [List.flatMap_cons, mapM_append_eq, mapM_cons_eq, ih]
    cases (g c).mapM f with
    | error e => rfl
    | ok bs =>
      cases l.mapM fun c => (g c).mapM f with
      | error e => rfl
      | ok rest => rfl

/-- **One computation for each element**: all of them succeed. -/
theorem mapM_eq_ok {f : α → Except ε β} {l : List α} {bs : List β} :
    l.mapM f = .ok bs ↔ l.map f = bs.map .ok := by
  induction l generalizing bs with
  | nil =>
    constructor
    · intro h
      obtain rfl := Except.ok.inj h
      rfl
    · intro h
      obtain rfl := List.map_eq_nil_iff.1 h.symm
      rfl
  | cons a l ih =>
    rw [mapM_cons_eq, bind_eq_ok, List.map_cons]
    constructor
    · rintro ⟨b, hb, hrest⟩
      obtain ⟨bs, hbs, rfl⟩ := map_eq_ok.1 hrest
      rw [hb, ih.1 hbs, List.map_cons]
    · intro h
      obtain ⟨b, bs, rfl, hb, hbs⟩ := List.map_eq_cons_iff.1 h.symm
      exact ⟨b, hb.symm, map_eq_ok.2 ⟨bs, ih.2 hbs.symm, rfl⟩⟩

/-- **The first failure counts**: all computations before it succeed, and those after it do not
matter. -/
theorem mapM_eq_error {f : α → Except ε β} {l : List α} {e : ε} :
    l.mapM f = .error e ↔ ∃ before a after, l = before ++ a :: after ∧
      (∀ b ∈ before, ∃ c, f b = .ok c) ∧ f a = .error e := by
  induction l with
  | nil =>
    constructor
    · intro h
      cases h
    · rintro ⟨before, a, after, hl, -⟩
      exact absurd hl (by simp)
  | cons x l ih =>
    rw [mapM_cons_eq]
    cases hx : f x with
    | error e' =>
      show Except.error e' = .error e ↔ _
      rw [Except.error.injEq]
      constructor
      · rintro rfl
        exact ⟨[], x, l, rfl, by simp, hx⟩
      · rintro ⟨before, a, after, hl, hgood, ha⟩
        cases before with
        | nil =>
          obtain ⟨rfl, -⟩ := List.cons.inj hl
          exact Except.error.inj (hx.symm.trans ha)
        | cons b before =>
          obtain ⟨rfl, -⟩ := List.cons.inj hl
          obtain ⟨c, hc⟩ := hgood x List.mem_cons_self
          exact absurd (hx.symm.trans hc) (by simp)
    | ok c =>
      show (l.mapM f).map (c :: ·) = .error e ↔ _
      rw [map_eq_error, ih]
      constructor
      · rintro ⟨before, a, after, rfl, hgood, ha⟩
        exact ⟨x :: before, a, after, rfl, List.forall_mem_cons.2 ⟨⟨c, hx⟩, hgood⟩, ha⟩
      · rintro ⟨before, a, after, hl, hgood, ha⟩
        cases before with
        | nil =>
          obtain ⟨rfl, -⟩ := List.cons.inj hl
          exact absurd (hx.symm.trans ha) (by simp)
        | cons b before =>
          obtain ⟨rfl, rfl⟩ := List.cons.inj hl
          exact ⟨before, a, after, rfl, (List.forall_mem_cons.1 hgood).2, ha⟩

/-- Lists of the same computations have the same results. -/
theorem mapM_congr {f : α → Except ε β} {g : γ → Except ε β} {l : List α} {l' : List γ}
    (h : l.map f = l'.map g) : l.mapM f = l'.mapM g := by
  calc l.mapM f = (l.map f).mapM id := (List.mapM_map (g := id)).symm
    _ = (l'.map g).mapM id := by rw [h]
    _ = l'.mapM g := List.mapM_map (g := id)

/-- Changing all results is changing each of them. -/
theorem mapM_map (f : α → Except ε β) (g : β → γ) (l : List α) :
    (l.mapM f).map (List.map g) = l.mapM fun a => (f a).map g := by
  induction l with
  | nil => rfl
  | cons a l ih =>
    rw [mapM_cons_eq, mapM_cons_eq, ← ih]
    cases f a with
    | error e => rfl
    | ok b =>
      cases l.mapM f with
      | error e => rfl
      | ok bs => rfl

end Framewise
