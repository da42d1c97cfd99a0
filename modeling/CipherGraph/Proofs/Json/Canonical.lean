import CipherGraph.Json.Decoder
import CipherGraph.Proofs.Json.Keys
import CipherGraph.Proofs.Json.Result
import Mathlib.Data.List.Forall2

/-! # Decoding canonical forms

Of a key that is repeated the canonical form keeps the last value, while a decoder refuses a part that is given twice. So
a decoder accepts fewer values than canonical forms: those in which the parts that it decodes are given once. What is
repeated elsewhere, in members that it does not know, makes no difference. A decoder that behaves in this way is called
stable. The decoders are told by the values that they accept (`list_eq_ok_iff`, `triple_eq_ok_iff`, `variant_eq_ok_iff`),
from which their stability follows. -/

namespace CipherGraph

namespace Json

/-! ### Shapes of canonical forms -/

section Shapes
variable {v : Json}

theorem canonical_array (items : List Json) : (array items).canonical = .array (items.map canonical) := by
  rw [canonical, canonicalItems_eq]

theorem canonical_eq_array_iff {us : List Json} :
    v.canonical = .array us ↔ ∃ vs, v = .array vs ∧ us = vs.map canonical := by
  cases v with
  | array vs => simp [canonical_array, eq_comm]
  | _ => simp [canonical]

theorem canonical_eq_object_iff {us : List (String × Json)} :
    v.canonical = .object us ↔ ∃ ms, v = .object ms ∧ us = sortMembers (canonicalMembers ms) := by
  cases v with
  | object ms => simp [canonical, eq_comm]
  | _ => simp [canonical]

theorem canonical_eq_string_iff {s : String} : v.canonical = .string s ↔ v = .string s := by
  cases v <;> simp [canonical]

end Shapes

namespace Decoder
variable {α β γ σ : Type} {d : Decoder α} {v : Json}

/-! ### What is accepted -/

theorem list_eq_ok_iff {as : List α} :
    list d v = .ok as ↔ ∃ vs, v = .array vs ∧ List.Forall₂ (fun w a => d w = .ok a) vs as := by
  cases v with
  | array vs => simp [list, mapM_eq_ok_iff]
  | _ => simp [list, mismatch]

theorem element_eq_ok_iff {k : Nat} {expected : String} {items rest : List Json} {a : α} :
    element k expected d items = .ok (a, rest) ↔ ∃ w, items = w :: rest ∧ d w = .ok a := by
  cases items with
  | nil => simp [element]
  | cons w items =>
    simp only [element, map_eq_ok_iff, List.cons.injEq]
    constructor
    · rintro ⟨_, ha, heq⟩
      cases heq
      exact ⟨w, ⟨rfl, rfl⟩, ha⟩
    · rintro ⟨_, ⟨rfl, rfl⟩, ha⟩
      exact ⟨a, ha, rfl⟩

theorem nothingLeft_eq_ok_iff {length : Nat} {rest : List Json} {u : Unit} :
    nothingLeft length rest = .ok u ↔ rest = [] := by
  cases rest <;> simp [nothingLeft]

theorem triple_eq_ok_iff {da : Decoder α} {db : Decoder β} {dc : Decoder γ} {x : α × β × γ} :
    triple da db dc v = .ok x ↔
      ∃ a b c, v = .array [a, b, c] ∧ da a = .ok x.1 ∧ db b = .ok x.2.1 ∧ dc c = .ok x.2.2 := by
  unfold triple
  split
  · next items =>
    simp only [bind_eq_ok_iff, Prod.exists, element_eq_ok_iff, nothingLeft_eq_ok_iff]
    constructor
    · rintro ⟨xa, _, ⟨a, rfl, ha⟩, xb, _, ⟨b, rfl, hb⟩, xc, _, ⟨c, rfl, hc⟩, _, rfl, heq⟩
      cases heq
      exact ⟨a, b, c, rfl, ha, hb, hc⟩
    · rintro ⟨a, b, c, hitems, ha, hb, hc⟩
      cases hitems
      exact ⟨_, _, ⟨a, rfl, ha⟩, _, _, ⟨b, rfl, hb⟩, _, _, ⟨c, rfl, hc⟩, (), rfl, rfl⟩
  · next other =>
    simp only [mismatch, reduceCtorEq, false_iff, not_exists, not_and]
    exact fun a b c h => absurd h (other _)

theorem variant_eq_ok_iff {variants : List (Variant α)} {a : α} :
    variant variants v = .ok a ↔
      (∃ name alternative, v = .string name ∧ Variant.find? variants name = .ok (.plain alternative a)) ∨
      ∃ name w alternative, v = .object [(name, w)] ∧ Variant.find? variants name = .ok alternative ∧
        payload alternative w = .ok a := by
  unfold variant
  split
  · next name =>
    cases found : Variant.find? variants name with
    | error cause => simp [found]
    | ok alternative => cases alternative <;> simp [found]
  · next name w =>
    cases found : Variant.find? variants name with
    | error cause => simp [found]
    | ok alternative => simp [found]
  · next ms several =>
    simp only [reduceCtorEq, false_and, exists_false, false_or, object.injEq, false_iff, not_exists, not_and]
    exact fun name w _ h => absurd h (several name w)
  · next string _ object =>
    simp only [mismatch, reduceCtorEq, false_iff, not_or, not_exists, not_and]
    exact ⟨fun name _ h => absurd h (string name), fun _ _ _ h => absurd h (object _)⟩

theorem record_object_eq_ok_iff {r : Record σ (Step σ) α} {ms : List (String × Json)} {a : α} :
    record r (.object ms) = .ok a ↔
      ∃ s, ms.foldlM (recordMember r) r.blank = .ok s ∧ r.missing? s = none ∧ r.finish s = a := by
  rw [record, bind_eq_ok_iff]
  refine exists_congr fun s => and_congr_right fun _ => ?_
  cases r.missing? s <;> simp [pure, Except.pure]

theorem record_array_eq_ok_iff {r : Record σ (Step σ) α} {items : List Json} {a : α} :
    record r (.array items) = .ok a ↔ ∃ s, recordItems r 0 r.fields r.blank items = .ok (s, []) ∧ r.finish s = a := by
  simp only [record, bind_eq_ok_iff, Prod.exists, nothingLeft_eq_ok_iff]
  constructor
  · rintro ⟨s, _, h, -, rfl, heq⟩
    cases heq
    exact ⟨s, h, rfl⟩
  · rintro ⟨s, h, rfl⟩
    exact ⟨s, [], h, (), rfl, rfl⟩

theorem recordItems_cons_eq_ok_iff {r : Record σ (Step σ) α} {k : Nat} {f : Field σ (Step σ)}
    {fields : List (Field σ (Step σ))} {s : σ} {items : List Json} {x : σ × List Json} (needed : f.optional = false) :
    recordItems r k (f :: fields) s items = .ok x ↔
      ∃ w rest s', items = w :: rest ∧ f.step s w = .ok s' ∧ recordItems r (k + 1) fields s' rest = .ok x := by
  cases items with
  | nil => simp [recordItems, needed]
  | cons w rest =>
    rw [recordItems, bind_eq_ok_iff]
    simp

/-- What a part of a record is after some values were given to it: the first one is taken in, a further one is
refused. -/
def takeIn? (d : Decoder α) : Option α → List Json → Option (Option α)
  | known, [] => some known
  | some _, _ :: _ => none
  | none, v :: vs => (d v).toOption.bind fun a => takeIn? d (some a) vs

theorem takeIn?_cons (known : Option α) (vs : List Json) :
    takeIn? d known (v :: vs) = (takeIn? d known [v]).bind fun known => takeIn? d known vs := by
  cases known with
  | some a => rfl
  | none => cases hv : d v <;> simp [takeIn?, hv, Except.toOption]

theorem takeIn?_eq_some_iff {vs : List Json} {a : α} :
    takeIn? d none vs = some (some a) ↔ ∃ w, vs = [w] ∧ d w = .ok a := by
  match vs with
  | [] => simp [takeIn?]
  | [w] => cases hw : d w <;> simp [takeIn?, hw, Except.toOption]
  | w :: _ :: _ => cases d w <;> simp [takeIn?, Except.toOption]

/-! ### Stability -/

/-- Every item of a list has a property. -/
def EachItem (given : Json → Prop) : Json → Prop
  | .array items => ∀ v ∈ items, given v
  | _ => True

/-- The last of three items has a property. -/
def ThirdItem (given : Json → Prop) : Json → Prop
  | .array [_, _, v] => given v
  | _ => True

/-- An object repeats no key of its own; what is inside its members does not matter. -/
def DistinctMembers : Json → Prop
  | .object ms => (ms.map Prod.fst).Nodup
  | _ => True

/-- What is accepted is accepted in canonical form, with the same outcome. A value whose canonical form is accepted is
accepted itself exactly if its parts are given once, which they are in a value without repeated keys. -/
structure Stable (d : Decoder α) (given : Json → Prop) : Prop where
  canonical {v : Json} {a : α} (h : d v = .ok a) : d v.canonical = .ok a
  of_canonical {v : Json} {a : α} (once : given v) (h : d v.canonical = .ok a) : d v = .ok a
  once {v : Json} {a : α} (h : d v = .ok a) : given v
  distinct {v : Json} (h : v.DistinctKeys) : given v

/-- The value is accepted exactly if its canonical form is and its parts are given once. -/
theorem Stable.iff {given : Json → Prop} (h : Stable d given) {a : α} :
    d v = .ok a ↔ given v ∧ d v.canonical = .ok a :=
  ⟨fun ha => ⟨h.once ha, h.canonical ha⟩, fun ⟨once, ha⟩ => h.of_canonical once ha⟩

section Stable
variable {given : Json → Prop}

/-- Decoders of values without parts do not tell a value from its canonical form. -/
theorem stable_of_eq (h : ∀ v, d v.canonical = d v) : Stable d fun _ => True where
  canonical ha := (h _).trans ha
  of_canonical _ ha := (h _).symm.trans ha
  once _ := trivial
  distinct _ := trivial

theorem stable_integer (range : IntegerRange) : Stable (integer range) fun _ => True :=
  stable_of_eq fun v => by cases v <;> rfl

theorem stable_unit : Stable unit fun _ => True :=
  stable_of_eq fun v => by cases v <;> rfl

theorem Stable.map (h : Stable d given) (f : α → β) : Stable (fun v => (d v).map f) given where
  canonical hb := by
    obtain ⟨a, ha, hf⟩ := map_eq_ok_iff.mp hb
    exact map_eq_ok_iff.mpr ⟨a, h.canonical ha, hf⟩
  of_canonical once hb := by
    obtain ⟨a, ha, hf⟩ := map_eq_ok_iff.mp hb
    exact map_eq_ok_iff.mpr ⟨a, h.of_canonical once ha, hf⟩
  once hb := by
    obtain ⟨a, ha, -⟩ := map_eq_ok_iff.mp hb
    exact h.once ha
  distinct := h.distinct

theorem stable_word32 : Stable word32 fun _ => True :=
  (stable_integer .word32).map _

theorem stable_word64 : Stable word64 fun _ => True :=
  (stable_integer .word64).map _

theorem stable_list (h : Stable d given) : Stable (list d) (EachItem given) where
  canonical hv := by
    obtain ⟨vs, rfl, hvs⟩ := list_eq_ok_iff.mp hv
    refine list_eq_ok_iff.mpr ⟨_, canonical_array vs, ?_⟩
    exact List.forall₂_map_left_iff.mpr (hvs.imp fun _ _ => h.canonical)
  of_canonical once hv := by
    obtain ⟨_, hus, hvs⟩ := list_eq_ok_iff.mp hv
    obtain ⟨vs, rfl, rfl⟩ := canonical_eq_array_iff.mp hus
    refine list_eq_ok_iff.mpr ⟨vs, rfl, ?_⟩
    change ∀ v ∈ vs, given v at once
    have items := List.forall₂_map_left_iff.mp hvs
    clear hv hus hvs
    induction items with
    | nil => exact .nil
    | cons hw _ ih =>
      obtain ⟨first, later⟩ := List.forall_mem_cons.mp once
      exact .cons (h.of_canonical first hw) (ih later)
  once hv := by
    obtain ⟨vs, rfl, hvs⟩ := list_eq_ok_iff.mp hv
    show ∀ v ∈ vs, given v
    clear hv
    induction hvs with
    | nil => exact List.forall_mem_nil _
    | cons hw _ ih => exact List.forall_mem_cons.mpr ⟨h.once hw, ih⟩
  distinct {v} hv := by
    cases v with
    | array vs => exact fun w hw => h.distinct (hv.of_mem hw)
    | _ => exact trivial

/-- Where the first two items have no parts, only the third one can repeat any. -/
theorem stable_triple {da : Decoder α} {db : Decoder β} {dc : Decoder γ} (ha : Stable da fun _ => True)
    (hb : Stable db fun _ => True) (hc : Stable dc given) : Stable (triple da db dc) (ThirdItem given) where
  canonical hv := by
    obtain ⟨a, b, c, rfl, va, vb, vc⟩ := triple_eq_ok_iff.mp hv
    exact triple_eq_ok_iff.mpr ⟨_, _, _, canonical_array _, ha.canonical va, hb.canonical vb, hc.canonical vc⟩
  of_canonical once hv := by
    obtain ⟨_, _, _, hus, va, vb, vc⟩ := triple_eq_ok_iff.mp hv
    obtain ⟨vs, rfl, hvs⟩ := canonical_eq_array_iff.mp hus
    obtain ⟨a, bc, rfl, rfl, hbc⟩ := List.map_eq_cons_iff.mp hvs.symm
    obtain ⟨b, cs, rfl, rfl, hcs⟩ := List.map_eq_cons_iff.mp hbc
    obtain ⟨c, rest, rfl, rfl, hrest⟩ := List.map_eq_cons_iff.mp hcs
    cases List.map_eq_nil_iff.mp hrest
    exact triple_eq_ok_iff.mpr ⟨a, b, c, rfl, ha.of_canonical trivial va, hb.of_canonical trivial vb,
      hc.of_canonical once vc⟩
  once hv := by
    obtain ⟨a, b, c, rfl, -, -, vc⟩ := triple_eq_ok_iff.mp hv
    exact hc.once vc
  distinct {v} hv := by
    unfold ThirdItem
    split
    · exact hc.distinct (hv.of_mem (by simp))
    · exact trivial

theorem stable_payload (alternative : Variant α) : Stable (payload alternative) fun _ => True := by
  cases alternative with
  | plain _ value => exact stable_unit.map _
  | counted _ make => exact stable_word64.map make

/-- An object that repeats no key has one member exactly if one is left of it in canonical form. -/
theorem eq_of_canonical_single {ms : List (String × Json)} {name : String} {w : Json}
    (distinct : (ms.map Prod.fst).Nodup) (h : (Json.object ms).canonical = .object [(name, w)]) :
    ∃ v, ms = [(name, v)] ∧ w = v.canonical := by
  rw [Json.canonical, object.injEq, canonicalMembers_eq] at h
  have same : ((ms.map fun m => (m.1, m.2.canonical)).map Prod.fst).Nodup := by
    rw [List.map_map]
    exact distinct
  have single := List.perm_singleton.mp ((h ▸ sortMembers_perm same).symm)
  obtain ⟨⟨key, v⟩, rest, rfl, heq, hrest⟩ := List.map_eq_cons_iff.mp single
  cases List.map_eq_nil_iff.mp hrest
  cases heq
  exact ⟨v, rfl, rfl⟩

theorem stable_variant (variants : List (Variant α)) : Stable (variant variants) DistinctMembers where
  canonical hv := by
    rcases variant_eq_ok_iff.mp hv with ⟨name, alternative, rfl, found⟩ | ⟨name, w, alternative, rfl, found, hw⟩
    · exact hv
    · exact variant_eq_ok_iff.mpr (.inr ⟨name, _, alternative, rfl, found, (stable_payload _).canonical hw⟩)
  of_canonical once hv := by
    rcases variant_eq_ok_iff.mp hv with ⟨name, alternative, hs, found⟩ | ⟨name, w, alternative, ho, found, hw⟩
    · exact variant_eq_ok_iff.mpr (.inl ⟨name, alternative, canonical_eq_string_iff.mp hs, found⟩)
    · obtain ⟨ms, rfl, -⟩ := canonical_eq_object_iff.mp ho
      obtain ⟨v, rfl, rfl⟩ := eq_of_canonical_single once ho
      exact variant_eq_ok_iff.mpr
        (.inr ⟨name, v, alternative, rfl, found, (stable_payload alternative).of_canonical trivial hw⟩)
  once hv := by
    rcases variant_eq_ok_iff.mp hv with ⟨name, alternative, rfl, -⟩ | ⟨name, w, alternative, rfl, -, -⟩
    · exact trivial
    · exact List.pairwise_singleton _ _
  distinct {v} hv := by
    cases hv with
    | object distinct _ => exact distinct
    | _ => exact trivial

end Stable

end Decoder

/-! ### Parts of records -/

/-- The values of named parts: the items of a list in order, or the only values of members with these names. -/
def HasParts (v : Json) (names : List String) (parts : List Json) : Prop :=
  v = .array parts ∨ ∃ ms, v = .object ms ∧ List.Forall₂ (fun k w => valuesOf k ms = [w]) names parts

/-- None of the names is given to two members of an object. -/
def NamedOnce (names : List String) : Json → Prop
  | .object ms => ∀ k ∈ names, (valuesOf k ms).length ≤ 1
  | _ => True

section HasParts
variable {v : Json} {names : List String} {parts us : List Json}

theorem hasParts_array_iff {items : List Json} : (array items).HasParts names parts ↔ items = parts := by
  simp [HasParts]

theorem hasParts_object_iff {ms : List (String × Json)} :
    (object ms).HasParts names parts ↔ List.Forall₂ (fun k w => valuesOf k ms = [w]) names parts := by
  simp [HasParts]

theorem HasParts.unique {parts' : List Json} (h : v.HasParts names parts) (h' : v.HasParts names parts') :
    parts = parts' := by
  rcases h with rfl | ⟨ms, rfl, hparts⟩
  · exact hasParts_array_iff.mp h'
  · have same := hasParts_object_iff.mp h'
    clear h'
    induction hparts generalizing parts' with
    | nil =>
      cases same
      rfl
    | cons hw _ ih =>
      cases same with
      | cons hw' rest =>
        cases hw.symm.trans hw'
        rw [ih rest]

theorem HasParts.canonical (h : v.HasParts names parts) : v.canonical.HasParts names (parts.map Json.canonical) := by
  rcases h with rfl | ⟨ms, rfl, hparts⟩
  · exact .inl (canonical_array parts)
  · exact .inr ⟨_, by rw [Json.canonical],
      List.forall₂_map_right_iff.mpr (hparts.imp fun _ _ => valuesOf_canonical_of_eq)⟩

theorem HasParts.of_canonical (once : v.NamedOnce names) (h : v.canonical.HasParts names us) :
    ∃ parts, v.HasParts names parts ∧ us = parts.map Json.canonical := by
  rcases h with harray | ⟨_, hobject, hparts⟩
  · obtain ⟨vs, rfl, rfl⟩ := canonical_eq_array_iff.mp harray
    exact ⟨vs, .inl rfl, rfl⟩
  · obtain ⟨ms, rfl, rfl⟩ := canonical_eq_object_iff.mp hobject
    change ∀ k ∈ names, (valuesOf k ms).length ≤ 1 at once
    have parts : ∃ parts, List.Forall₂ (fun k w => valuesOf k ms = [w]) names parts ∧ us = parts.map Json.canonical := by
      clear hobject
      induction hparts with
      | nil => exact ⟨[], .nil, rfl⟩
      | cons hu _ ih =>
        obtain ⟨first, later⟩ := List.forall_mem_cons.mp once
        obtain ⟨w, hw, rfl⟩ := eq_of_valuesOf_canonical first hu
        obtain ⟨parts, hrest, rfl⟩ := ih later
        exact ⟨w :: parts, .cons hw hrest, rfl⟩
    obtain ⟨parts, hparts, eq⟩ := parts
    exact ⟨parts, .inr ⟨ms, rfl, hparts⟩, eq⟩

theorem HasParts.namedOnce (h : v.HasParts names parts) : v.NamedOnce names := by
  rcases h with rfl | ⟨ms, rfl, hparts⟩
  · exact trivial
  · show ∀ k ∈ names, (valuesOf k ms).length ≤ 1
    induction hparts with
    | nil => exact List.forall_mem_nil _
    | cons hw _ ih => exact List.forall_mem_cons.mpr ⟨by rw [hw]; exact Nat.le_refl 1, ih⟩

/-- A part of a value is one of its items, or the value of one of its members. -/
theorem HasParts.of_mem {w : Json} (h : v.HasParts names parts) (hw : w ∈ parts) :
    (∃ items, v = .array items ∧ w ∈ items) ∨ ∃ ms k, v = .object ms ∧ (k, w) ∈ ms := by
  rcases h with rfl | ⟨ms, rfl, hparts⟩
  · exact .inl ⟨parts, rfl, hw⟩
  · induction hparts with
    | nil => cases hw
    | cons hvalues _ ih =>
      rcases List.mem_cons.mp hw with rfl | hw
      · exact .inr ⟨ms, _, rfl, mem_of_mem_valuesOf (hvalues ▸ List.mem_cons_self)⟩
      · exact ih hw

/-- The parts of a value have distinct keys if the value has. -/
theorem HasParts.distinct {w : Json} (h : v.HasParts names parts) (distinct : v.DistinctKeys) (hw : w ∈ parts) :
    w.DistinctKeys := by
  rcases h.of_mem hw with ⟨items, rfl, hw⟩ | ⟨ms, k, rfl, hw⟩
  · exact distinct.of_mem hw
  · cases distinct with
    | object _ inside => exact inside _ hw

theorem DistinctKeys.namedOnce (distinct : v.DistinctKeys) : v.NamedOnce names := by
  cases distinct with
  | object distinct _ => exact fun k _ => length_valuesOf_le_one distinct
  | _ => exact trivial

end HasParts

end Json

end CipherGraph
