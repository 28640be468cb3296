import Framewise.Proofs.Frames.Place
import Framewise.Proofs.Json.RoundTrip
import Framewise.Proofs.OrderedMap
import Framewise.View.Document

/-!
# Frames are read back from their text

Aligned frames are sent as an object of objects of arrays, in which NaN and the infinities have names.
`readFrames?` takes such a document apart again. It gives the same frames, up to the order of
sources and keys and to the sign of zero, but for a source with the reserved name.

* `readSeries?_document`: a series is read back, with its gaps and the numbers that JSON lacks.
* `readMap?_document`: so is an object, if its values are.
* `matches_reread`: what is read from an object has the keys and the values of what was written.
* `readFrom_sent_iff`: the whole. Frames are read back unless a source has the reserved name.
-/

namespace Framewise

/-! ### Numbers and series -/

namespace Number

open Float.Model.UnpackedFloat

/-- The numbers that JSON lacks. -/
theorem eq_of_isFinite_eq_false {x : Float} (h : x.isFinite = false) :
    x = notANumber ∨ x = infinity ∨ x = -infinity := by
  have hform : (unpack x).isFinite = false := h
  cases hx : unpack x with
  | notANumber => exact .inl (eq_of_unpack hx)
  | infinity s =>
    cases s with
    | positive => exact .inr (.inl (eq_of_unpack hx))
    | negative => exact .inr (.inr (eq_of_unpack (hx.trans unpack_neg_infinity.symm)))
  | zero s =>
    rw [hx] at hform
    cases hform
  | finite s m e hpos =>
    rw [hx] at hform
    cases hform

end Number

namespace Json

open Number

/-- Every number is read back, be it as a number or by its name. -/
theorem readNumber?_readBack (x : Float) :
    (Json.number x).nameNonFinite.readBack.readNumber? = some (unsignZero x) := by
  cases hx : x.isFinite with
  | true =>
    rw [nameNonFinite, if_pos hx, readBack, if_pos hx]
    rfl
  | false =>
    rw [nameNonFinite, if_neg (by rw [hx]; decide), readBack]
    rcases eq_of_isFinite_eq_false hx with rfl | rfl | rfl
    · decide +kernel
    · decide +kernel
    · decide +kernel

/-- An entry of a series: a number, or a gap. -/
def readEntry? : Json → Option (Option Float)
  | .null => some none
  | v => v.readNumber?.map some

/-- A series. -/
def readSeries? : Json → Option Series
  | .array vs => vs.mapM readEntry?
  | _ => none

/-- An object whose fields have different names and are all of one kind. -/
def readMap? {α : Type} (read : Json → Option α) : Json → Option (OrderedMap String α)
  | .object fields => do
    let entries ← fields.mapM fun f => (read f.2).map (f.1, ·)
    if h : (entries.map Prod.fst).Nodup then some ⟨entries, h⟩ else none
  | _ => none

/-- Frames: an object of objects of series. -/
def readFrames? : Json → Option Frames :=
  readMap? (readMap? readSeries?)

end Json

/-- A series as it is read back. -/
def Series.unsigned (s : Series) : Series :=
  s.map (Option.map Number.unsignZero)

namespace Json

open Number

/-- An entry of a series is read back. -/
theorem readEntry?_elim (v : Option Float) :
    readEntry? (v.elim Json.null .number).nameNonFinite.readBack = some (v.map unsignZero) := by
  cases v with
  | none => rfl
  | some x =>
    have hx := readNumber?_readBack x
    unfold readEntry?
    split
    · next hnull =>
      rw [Option.elim_some] at hnull
      rw [hnull] at hx
      cases hx
    · rw [Option.elim_some, hx]
      rfl

/-- **A series is read back**, gaps as gaps. -/
theorem readSeries?_document (s : Series) :
    readSeries? s.document.nameNonFinite.readBack = some s.unsigned := by
  have hdocument : s.document = .array (s.map fun v => v.elim .null .number) := by
    refine congrArg Json.array (List.map_congr_left ?_)
    intro v _
    cases v with
    | none => rfl
    | some x => rfl
  rw [hdocument, nameNonFinite, nameItems_eq_map, readBack, List.map_map, readItems_map,
    readSeries?, List.mapM_map]
  show (List.mapM (fun v => readEntry? (v.elim Json.null .number).nameNonFinite.readBack) s) = _
  simp only [readEntry?_elim]
  exact List.mapM_pure

/-! ### Objects -/

/-- The fields with numbers for names, beside their numbers. -/
theorem map_snd_indexed {α : Type} (fields : List (String × α)) :
    (fields.filterMap fun f => (index? f.1).map (·, f)).map Prod.snd =
      fields.filter fun f => (index? f.1).isSome := by
  induction fields with
  | nil => rfl
  | cons f fields ih =>
    rw [List.filterMap_cons, List.filter_cons]
    cases index? f.1 with
    | none => exact ih
    | some n => exact congrArg (f :: ·) ih

/-- Fields are put in order, none lost and none added. -/
theorem indexFirst_perm {α : Type} (fields : List (String × α)) :
    (indexFirst fields).Perm fields := by
  have hindexed := (List.mergeSort_perm (fields.filterMap fun f => (index? f.1).map (·, f))
    fun a b => a.1 ≤ b.1).map Prod.snd
  rw [map_snd_indexed] at hindexed
  have hsplit := List.filter_append_perm (fun f : String × α => (index? f.1).isSome) fields
  simp only [Option.not_isSome] at hsplit
  exact (hindexed.append_right _).trans hsplit

/-- The order of fields does not depend on their values. -/
theorem indexFirst_map {α β : Type} (g : α → β) (fields : List (String × α)) :
    indexFirst (fields.map fun f => (f.1, g f.2)) =
      (indexFirst fields).map fun f => (f.1, g f.2) := by
  have hindexed : ((fields.map fun f => (f.1, g f.2)).filterMap fun f => (index? f.1).map (·, f)) =
      (fields.filterMap fun f => (index? f.1).map (·, f)).map
        fun p => (p.1, p.2.1, g p.2.2) := by
    rw [List.filterMap_map, List.map_filterMap]
    apply List.filterMap_congr
    intro f _
    rw [Option.map_map]
    rfl
  unfold indexFirst
  simp only
  rw [List.map_append, hindexed, List.filter_map, ← List.map_mergeSort (r := fun a b => a.1 ≤ b.1),
    List.map_map, List.map_map]
  · rfl
  · intro p _ q _
    rfl

end Json

namespace OrderedMap

variable {α β : Type}

/-- A map as an object. -/
def document (write : α → Json) (m : OrderedMap String α) : Json :=
  .object (Json.indexFirst (m.entries.map fun e => (e.1, write e.2)))

theorem nodup_indexFirst (m : OrderedMap String α) :
    ((Json.indexFirst m.entries).map Prod.fst).Nodup :=
  ((Json.indexFirst_perm m.entries).map Prod.fst).nodup_iff.2 m.distinct

/-- A map as it is read back: its entries in the order of fields, with the values that are seen. -/
def reread (seen : α → β) (m : OrderedMap String α) : OrderedMap String β where
  entries := (Json.indexFirst m.entries).map fun e => (e.1, seen e.2)
  distinct := by
    rw [List.map_map]
    exact m.nodup_indexFirst

/-- Maps with the same keys, in any order, whose values are related. -/
structure Matches (R : α → β → Prop) (m : OrderedMap String α) (m' : OrderedMap String β) :
    Prop where
  keys : m.keys.Perm m'.keys
  values {k : String} {a : α} {b : β} : m.get? k = some a → m'.get? k = some b → R a b

theorem keys_reread (seen : α → β) (m : OrderedMap String α) : (m.reread seen).keys.Perm m.keys := by
  have hkeys : (m.reread seen).keys = (Json.indexFirst m.entries).map Prod.fst := List.map_map
  rw [hkeys]
  exact (Json.indexFirst_perm m.entries).map Prod.fst

/-- **What is read back has the keys and the values of what was written.** -/
theorem matches_reread {R : β → α → Prop} {seen : α → β} (h : ∀ a, R (seen a) a)
    (m : OrderedMap String α) : (m.reread seen).Matches R m where
  keys := keys_reread seen m
  values := by
    intro k b a hb ha
    obtain ⟨e, he, heq⟩ := List.mem_map.1 (get?_eq_some_iff.1 hb)
    cases heq
    have hmem : (e.1, e.2) ∈ m.entries := (Json.indexFirst_perm m.entries).mem_iff.1 he
    rw [get?_eq_some_iff.2 hmem] at ha
    cases ha
    exact h e.2

/-- The text of an object has a field for each entry of the map. -/
theorem readBack_document (write : α → Json) (m : OrderedMap String α) :
    (m.document write).nameNonFinite.readBack = .object ((Json.indexFirst m.entries).map
      fun e => (e.1, (write e.2).nameNonFinite.readBack)) := by
  unfold document
  rw [Json.indexFirst_map, Json.nameNonFinite, Json.nameFields_eq_map, List.map_map, Json.readBack,
    Json.readFields_of_nodup, List.nil_append, List.map_map]
  · rfl
  · rw [List.map_nil, List.nil_append, List.map_map]
    exact m.nodup_indexFirst

/-- **An object is read back**, if its values are. -/
theorem readMap?_document {read : Json → Option β} {write : α → Json} {seen : α → β}
    (h : ∀ a, read (write a).nameNonFinite.readBack = some (seen a)) (m : OrderedMap String α) :
    Json.readMap? read (m.document write).nameNonFinite.readBack = some (m.reread seen) := by
  have hread : ((Json.indexFirst m.entries).mapM fun e =>
      (read (write e.2).nameNonFinite.readBack).map (e.1, ·)) = some (m.reread seen).entries := by
    simp only [h, Option.map_some]
    exact List.mapM_pure
  rw [readBack_document, Json.readMap?, List.mapM_map]
  show (List.mapM (fun e : String × α =>
    (read (write e.2).nameNonFinite.readBack).map (e.1, ·)) _ >>= _) = _
  rw [hread]
  exact dif_pos (m.reread seen).distinct

/-- A map without a key. -/
def without (k : String) (m : OrderedMap String α) : OrderedMap String α where
  entries := m.entries.filter fun e => e.1 ≠ k
  distinct := (List.filter_sublist.map Prod.fst).nodup m.distinct

theorem mem_keys_without {k k' : String} {m : OrderedMap String α} :
    k' ∈ (m.without k).keys ↔ k' ∈ m.keys ∧ k' ≠ k := by
  simp only [keys, without, List.mem_map, List.mem_filter, decide_eq_true_eq]
  constructor
  · rintro ⟨e, ⟨he, hne⟩, rfl⟩
    exact ⟨⟨e, he, rfl⟩, hne⟩
  · rintro ⟨⟨e, he, rfl⟩, hne⟩
    exact ⟨e, ⟨he, hne⟩, rfl⟩

theorem without_of_not_mem {k : String} {m : OrderedMap String α} (h : k ∉ m.keys) :
    m.without k = m := by
  obtain ⟨es, hdistinct⟩ := m
  have hall : es.filter (fun e => e.1 ≠ k) = es := by
    rw [List.filter_eq_self]
    intro e he
    rw [decide_eq_true_eq]
    rintro rfl
    exact h (List.mem_map_of_mem he)
  simp only [without, hall]

end OrderedMap

/-! ### Frames -/

/-- Series with the same entries, up to the sign of zero. -/
def Series.Same : Series → Series → Prop :=
  List.Forall₂ (Option.Rel Number.Agree)

theorem Series.same_unsigned (s : Series) : s.unsigned.Same s := by
  unfold Series.unsigned Series.Same
  rw [List.forall₂_map_left_iff]
  apply List.forall₂_same.2
  intro v _
  cases v with
  | none => exact .none
  | some x => exact .some (Number.agree_unsignZero x)

namespace Frames

/-- Frames with the same sources, keys and series, in any order and up to the sign of zero. -/
def Same : Frames → Frames → Prop :=
  OrderedMap.Matches (OrderedMap.Matches Series.Same)

/-- The text in which frames are sent. -/
def sent (frames : Frames) : String :=
  frames.document.nameNonFinite.compact

/-- A text from which frames are read, all of them and nothing else. -/
def ReadFrom (frames : Frames) (text : String) : Prop :=
  ∃ decoded, (Json.parse? text).bind Json.readFrames? = some decoded ∧ Same decoded frames

/-- Frames as they are read back. -/
def reread (frames : Frames) : Frames :=
  (frames.without reservedName).reread (OrderedMap.reread Series.unsigned)

theorem same_reread (frames : Frames) : Same frames.reread (frames.without reservedName) :=
  OrderedMap.matches_reread (OrderedMap.matches_reread Series.same_unsigned) _

/-- The document of frames has the other sources. -/
theorem document_eq (frames : Frames) : frames.document =
    OrderedMap.document (OrderedMap.document Series.document) (frames.without reservedName) := rfl

/-- What is read from the text of frames. -/
theorem readFrames?_sent (frames : Frames) :
    (Json.parse? frames.sent).bind Json.readFrames? = some frames.reread := by
  rw [sent, Json.parse?_compact, document_eq]
  exact OrderedMap.readMap?_document (OrderedMap.readMap?_document Json.readSeries?_document) _

/-- The text does not depend on a source with the reserved name. -/
theorem sent_without (frames : Frames) : sent (frames.without reservedName) = frames.sent := by
  have hothers : reservedName ∉ (frames.without reservedName).keys := by
    intro hmem
    exact (OrderedMap.mem_keys_without.1 hmem).2 rfl
  rw [sent, sent, document_eq, document_eq, OrderedMap.without_of_not_mem hothers]

/-- A source with the reserved name is lost. -/
theorem not_readFrom_of_mem {frames : Frames} (h : reservedName ∈ frames.keys) :
    ¬ frames.ReadFrom frames.sent := by
  rintro ⟨decoded, hdecoded, hsame⟩
  rw [readFrames?_sent] at hdecoded
  cases hdecoded
  have hkeys := (same_reread frames).keys
  have hmem := hkeys.mem_iff.1 (hsame.keys.mem_iff.2 h)
  exact (OrderedMap.mem_keys_without.1 hmem).2 rfl

/-- **Frames are read back from the text in which they are sent, unless a source has the reserved
name.** Such a source is lost, since the text is that of the other sources alone. These are read back
from it: every source once, with exactly its keys, and every series with its gaps, with NaN and the
infinities, and with the other numbers up to the sign of zero. -/
theorem readFrom_sent_iff (frames : Frames) :
    ReadFrom (frames.without reservedName) frames.sent ∧
      sent (frames.without reservedName) = frames.sent ∧
      (frames.ReadFrom frames.sent ↔ reservedName ∉ frames.keys) := by
  have hothers : ReadFrom (frames.without reservedName) frames.sent :=
    ⟨_, readFrames?_sent frames, same_reread frames⟩
  refine ⟨hothers, sent_without frames, ?_⟩
  constructor
  · intro h hmem
    exact not_readFrom_of_mem hmem h
  · intro h
    rw [OrderedMap.without_of_not_mem h] at hothers
    exact hothers

/-- Of two sources, the one with the reserved name is lost. -/
theorem not_readFrom_sent_reserved :
    let frames : Frames := .ofList [("__proto__", .ofList [("a", [some 1])]),
      ("b", .ofList [("a", [some 2])])]
    ¬ frames.ReadFrom frames.sent := by
  apply not_readFrom_of_mem
  decide

end Frames

end Framewise
