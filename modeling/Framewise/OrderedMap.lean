/-!
# Maps in the order of insertion

An `OrderedMap` lists its entries in the order in which their keys were first inserted.
Inserting a key again replaces its value and keeps its place. That no key occurs twice is part
of the type, so no operation needs it as a hypothesis.

Each operation has one lemma about the list of keys and one about `get?`.
-/

namespace Framewise

/-! ### Entry lists -/

/-- Replace the value of the first entry with key `k`, or add an entry at the end. -/
def upsert {κ α : Type} [DecidableEq κ] (k : κ) (a : α) : List (κ × α) → List (κ × α)
  | [] => [(k, a)]
  | (k', a') :: es => if k' = k then (k, a) :: es else (k', a') :: upsert k a es

/-- The value of the first entry with key `k`. -/
def valueOf? {κ α : Type} [DecidableEq κ] (k : κ) : List (κ × α) → Option α
  | [] => none
  | (k', a) :: es => if k' = k then some a else valueOf? k es

section Entries

variable {κ α β : Type} [DecidableEq κ]

/-- Only a new key is added to the keys, after all others. -/
theorem keys_upsert (k : κ) (a : α) (es : List (κ × α)) :
    (upsert k a es).map Prod.fst =
      if k ∈ es.map Prod.fst then es.map Prod.fst else es.map Prod.fst ++ [k] := by
  induction es with
  | nil => simp [upsert]
  | cons e es ih =>
    obtain ⟨k', a'⟩ := e
    by_cases h : k' = k
    · simp [upsert, h]
    · have h' : ¬ k = k' := fun e => h e.symm
      simp only [upsert, h, if_false, List.map_cons, ih, List.mem_cons, h', false_or]
      split <;> simp

/-- No key occurs twice after an entry is replaced or added. -/
theorem nodup_keys_upsert (k : κ) (a : α) {es : List (κ × α)} (h : (es.map Prod.fst).Nodup) :
    ((upsert k a es).map Prod.fst).Nodup := by
  rw [keys_upsert]
  split
  · exact h
  · next hk =>
    refine List.nodup_append.2 ⟨h, by simp, fun x hx y hy e => hk ?_⟩
    rw [List.mem_singleton.1 hy] at e
    exact e ▸ hx

/-- An entry that is replaced or added changes the value of its own key only. -/
theorem valueOf?_upsert (k k' : κ) (a : α) (es : List (κ × α)) :
    valueOf? k' (upsert k a es) = if k = k' then some a else valueOf? k' es := by
  induction es with
  | nil => simp [upsert, valueOf?]
  | cons e es ih =>
    obtain ⟨k₀, a₀⟩ := e
    by_cases h₀ : k₀ = k
    · subst h₀
      by_cases h : k₀ = k' <;> simp [upsert, valueOf?, h]
    · by_cases h : k₀ = k'
      · subst h
        simpa [upsert, valueOf?, h₀] using fun e : k = k₀ => absurd e.symm h₀
      · simp [upsert, valueOf?, h₀, h, ih]

/-- A key has a value exactly when it is among the keys. -/
theorem valueOf?_isSome_iff (k : κ) (es : List (κ × α)) :
    (valueOf? k es).isSome ↔ k ∈ es.map Prod.fst := by
  induction es with
  | nil => simp [valueOf?]
  | cons e es ih =>
    obtain ⟨k', a⟩ := e
    by_cases h : k' = k
    · simp [valueOf?, h]
    · have h' : ¬ k = k' := fun e => h e.symm
      simp only [valueOf?, h, if_false, List.map_cons, List.mem_cons, h', false_or, ih]

end Entries

/-! ### Maps -/

/-- Entries with distinct keys, in the order of first insertion. -/
structure OrderedMap (κ α : Type) where
  entries : List (κ × α)
  distinct : (entries.map Prod.fst).Nodup
deriving DecidableEq, Repr

namespace OrderedMap

variable {κ α β : Type}

/-- The map without entries. -/
def empty : OrderedMap κ α := ⟨[], .nil⟩

instance : EmptyCollection (OrderedMap κ α) := ⟨empty⟩

instance : Inhabited (OrderedMap κ α) := ⟨empty⟩

/-- The keys, in the order of first insertion. -/
def keys (m : OrderedMap κ α) : List κ :=
  m.entries.map Prod.fst

/-- Change every value, knowing its key. -/
def mapWithKey (f : κ → α → β) (m : OrderedMap κ α) : OrderedMap κ β where
  entries := m.entries.map fun e => (e.1, f e.1 e.2)
  distinct := by
    rw [List.map_map]
    exact m.distinct

@[simp] theorem keys_mapWithKey (f : κ → α → β) (m : OrderedMap κ α) :
    (m.mapWithKey f).keys = m.keys := by
  simp only [keys, mapWithKey, List.map_map]
  rfl

theorem nodup_keys (m : OrderedMap κ α) : m.keys.Nodup := m.distinct

variable [DecidableEq κ]

/-- Give the key `k` the value `a`. -/
def insert (m : OrderedMap κ α) (k : κ) (a : α) : OrderedMap κ α where
  entries := upsert k a m.entries
  distinct := nodup_keys_upsert k a m.distinct

/-- The value of a key. -/
def get? (m : OrderedMap κ α) (k : κ) : Option α :=
  valueOf? k m.entries

/-- Whether a key has a value. -/
def contains (m : OrderedMap κ α) (k : κ) : Bool :=
  (m.get? k).isSome

/-- Insert all entries, in order. -/
def ofList (es : List (κ × α)) : OrderedMap κ α :=
  es.foldl (fun m e => m.insert e.1 e.2) empty

@[simp] theorem get?_empty (k : κ) : (empty : OrderedMap κ α).get? k = none := rfl

theorem get?_insert (m : OrderedMap κ α) (k k' : κ) (a : α) :
    (m.insert k a).get? k' = if k = k' then some a else m.get? k' :=
  valueOf?_upsert k k' a m.entries

/-- A key keeps its place, and a new one goes to the end. -/
theorem keys_insert (m : OrderedMap κ α) (k : κ) (a : α) :
    (m.insert k a).keys = if k ∈ m.keys then m.keys else m.keys ++ [k] :=
  keys_upsert k a m.entries

theorem contains_iff_mem_keys (m : OrderedMap κ α) (k : κ) :
    m.contains k ↔ k ∈ m.keys :=
  valueOf?_isSome_iff k m.entries

/-- Changing values changes what a key gives, and nothing else. -/
theorem get?_mapWithKey (f : κ → α → β) (m : OrderedMap κ α) (k : κ) :
    (m.mapWithKey f).get? k = (m.get? k).map (f k) := by
  obtain ⟨es, h⟩ := m
  simp only [get?, mapWithKey]
  clear h
  induction es with
  | nil => rfl
  | cons e es ih =>
    obtain ⟨k', a⟩ := e
    by_cases hk : k' = k
    · simp [valueOf?, hk]
    · simp [valueOf?, hk, ih]

end OrderedMap

example : (OrderedMap.ofList [("a", 1), ("b", 2), ("a", 3)]).entries = [("a", 3), ("b", 2)] := by
  decide

end Framewise
