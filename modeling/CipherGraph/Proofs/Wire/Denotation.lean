import CipherGraph.Proofs.Wire.Agreement
import Mathlib.Data.List.Nodup

/-! # What values denote

The vocabulary of programs as it stands in generic values, told without the decoders: words for operations and roles,
numbers for slots and ends, and lists and objects around them. A value in which no key is repeated is decoded as a program
exactly if it denotes that program, and any other value is refused (`ofJson_closed`). -/

namespace CipherGraph

namespace Json

/-! ### The vocabulary -/

/-- A word stands as a string, or as the only key of an object that holds nothing under it. -/
inductive IsWord (word : String) : Json → Prop where
  | plain : IsWord word (.string word)
  | keyed : IsWord word (.object [(word, .null)])

theorem isWord_object_iff {word : String} {ms : List (String × Json)} :
    (object ms).IsWord word ↔ ms = [(word, .null)] := by
  constructor
  · intro h
    cases h with
    | keyed => rfl
  · rintro rfl
    exact .keyed

inductive DenotesOperation : Json → Operation → Prop where
  | multiply {v : Json} (h : v.IsWord "Multiply") : DenotesOperation v .multiply
  | add {v : Json} (h : v.IsWord "Add") : DenotesOperation v .add
  | relinearize {v : Json} (h : v.IsWord "Relinearize") : DenotesOperation v .relinearize
  | output {v : Json} (h : v.IsWord "OutputCiphertext") : DenotesOperation v .output
  | input {slot : Nat} (fits : slot < UInt64.size) :
    DenotesOperation (.object [("InputCiphertext", .ofNat slot)]) (.input (UInt64.ofNat slot))

inductive DenotesRole : Json → Role → Prop where
  | left {v : Json} (h : v.IsWord "Left") : DenotesRole v .left
  | right {v : Json} (h : v.IsWord "Right") : DenotesRole v .right
  | unary {v : Json} (h : v.IsWord "Unary") : DenotesRole v .unary

/-- A node is an object with its operation, or a list of the operation alone. -/
inductive DenotesNode : Json → Operation → Prop where
  | object {members : List (String × Json)} {w : Json} {op : Operation} (part : ("operation", w) ∈ members)
    (operation : w.DenotesOperation op) : DenotesNode (.object members) op
  | list {w : Json} {op : Operation} (operation : w.DenotesOperation op) : DenotesNode (.array [w]) op

/-- An edge is the list of its source, its target and its role. -/
inductive DenotesEdge : Json → Edge → Prop where
  | triple {source target : Nat} {w : Json} {r : Role} (hs : source < UInt32.size) (ht : target < UInt32.size)
    (role : w.DenotesRole r) :
    DenotesEdge (.array [.ofNat source, .ofNat target, w]) ⟨UInt32.ofNat source, UInt32.ofNat target, r⟩

/-- A program is an object with its nodes and its edges, or a list of both. -/
inductive DenotesProgram : Json → Program → Prop where
  | object {members : List (String × Json)} {nodes edges : List Json} {p : Program}
    (nodesPart : ("nodes", .array nodes) ∈ members) (edgesPart : ("edges", .array edges) ∈ members)
    (hn : List.Forall₂ DenotesNode nodes p.nodes) (he : List.Forall₂ DenotesEdge edges p.edges) :
    DenotesProgram (.object members) p
  | list {nodes edges : List Json} {p : Program} (hn : List.Forall₂ DenotesNode nodes p.nodes)
    (he : List.Forall₂ DenotesEdge edges p.edges) : DenotesProgram (.array [.array nodes, .array edges]) p

/-! ### Members of objects without repeated keys -/

theorem valuesOf_eq_singleton_iff {k : String} {w : Json} {ms : List (String × Json)}
    (distinct : (ms.map Prod.fst).Nodup) : valuesOf k ms = [w] ↔ (k, w) ∈ ms := by
  constructor
  · intro h
    exact mem_of_mem_valuesOf (h ▸ List.mem_cons_self)
  · intro h
    have found : w ∈ valuesOf k ms := List.mem_filterMap.mpr ⟨(k, w), h, if_pos rfl⟩
    have single := length_valuesOf_le_one (k := k) distinct
    match hvs : valuesOf k ms with
    | [] => simp [hvs] at found
    | [u] =>
      rw [hvs, List.mem_singleton] at found
      rw [found]
    | _ :: _ :: _ => simp [hvs] at single

namespace Decoder
variable {α β : Type} {d : Decoder α} {denotes : Json → α → Prop} {v : Json}

/-! ### What the elementary decoders accept -/

theorem unit_eq_ok_iff {u : Unit} : unit v = .ok u ↔ v = .null := by
  cases v <;> simp [unit, mismatch]

theorem integer_eq_ok_iff {range : IntegerRange} {i : Int} :
    integer range v = .ok i ↔ v = .ofInt i ∧ range.contains i = true := by
  unfold integer
  split
  · next value =>
    by_cases inside : range.contains value = true <;> simp [ofInt, inside]
    all_goals rintro rfl
    all_goals simpa using inside
  · next other =>
    simp only [mismatch, reduceCtorEq, ofInt, false_iff, not_and]
    exact fun h => absurd h (other i)

/-- A range from zero on contains the natural numbers below its size. -/
theorem contains_iff {name : String} {size : Nat} {i : Int} :
    IntegerRange.contains ⟨name, 0, size - 1⟩ i = true ↔ ∃ n, n < size ∧ i = n := by
  simp only [IntegerRange.contains, Bool.and_eq_true, decide_eq_true_eq]
  constructor
  · rintro ⟨low, high⟩
    exact ⟨i.toNat, by omega, by omega⟩
  · rintro ⟨n, small, rfl⟩
    omega

/-- What is made of a natural number that fits. -/
theorem natural_eq_ok_iff {name : String} {size : Nat} {f : Int → α} {a : α} :
    (integer ⟨name, 0, size - 1⟩ v).map f = .ok a ↔ ∃ n : Nat, n < size ∧ v = .ofNat n ∧ f n = a := by
  simp only [map_eq_ok_iff, integer_eq_ok_iff, contains_iff]
  constructor
  · rintro ⟨_, ⟨rfl, n, small, rfl⟩, rfl⟩
    exact ⟨n, small, rfl, rfl⟩
  · rintro ⟨n, small, rfl, rfl⟩
    exact ⟨n, ⟨rfl, n, small, rfl⟩, rfl⟩

theorem word32_eq_ok_iff {w : UInt32} :
    word32 v = .ok w ↔ ∃ n, n < UInt32.size ∧ v = .ofNat n ∧ UInt32.ofNat n = w :=
  natural_eq_ok_iff

theorem word64_eq_ok_iff {w : UInt64} :
    word64 v = .ok w ↔ ∃ n, n < UInt64.size ∧ v = .ofNat n ∧ UInt64.ofNat n = w :=
  natural_eq_ok_iff

/-! ### Alternatives -/

/-- A plain alternative is given by its name as a word, a counted one by an object with a number under its name. -/
inductive Spells : Variant α → Json → α → Prop where
  | plain {name : String} {a : α} {v : Json} (word : v.IsWord name) : Spells (.plain name a) v a
  | counted {name : String} {make : UInt64 → α} {n : Nat} (fits : n < UInt64.size) :
    Spells (.counted name make) (.object [(name, .ofNat n)]) (make (UInt64.ofNat n))

section Variants
variable {variants : List (Variant α)} {a : α}

theorem find?_eq_ok_iff (distinct : (variants.map Variant.name).Nodup) {name : String} {alternative : Variant α} :
    Variant.find? variants name = .ok alternative ↔ alternative ∈ variants ∧ alternative.name = name := by
  unfold Variant.find?
  constructor
  · intro h
    split at h <;> cases h
    next found => exact ⟨List.mem_of_find?_eq_some found, by simpa using List.find?_some found⟩
  · rintro ⟨listed, rfl⟩
    split
    · next other found =>
      have same : other.name = alternative.name := by simpa using List.find?_some found
      rw [List.inj_on_of_nodup_map distinct (List.mem_of_find?_eq_some found) listed same]
    · next absent => exact absurd (decide_eq_true rfl) (List.find?_eq_none.mp absent alternative listed)

theorem payload_eq_ok_iff {alternative : Variant α} {w : Json} :
    payload alternative w = .ok a ↔
      Spells alternative (.object [(alternative.name, w)]) a := by
  cases alternative with
  | plain name value =>
    simp only [payload, map_eq_ok_iff, unit_eq_ok_iff]
    constructor
    · rintro ⟨_, rfl, rfl⟩
      exact .plain .keyed
    · rintro ⟨⟨_⟩⟩
      exact ⟨(), rfl, rfl⟩
  | counted name make =>
    simp only [payload, map_eq_ok_iff, word64_eq_ok_iff]
    constructor
    · rintro ⟨_, ⟨n, fits, rfl, rfl⟩, rfl⟩
      exact .counted fits
    · rintro (_ | fits)
      exact ⟨_, ⟨_, fits, rfl, rfl⟩, rfl⟩

/-- Where the names of the alternatives are distinct, exactly what spells one of them is accepted. -/
theorem variant_eq_ok_iff_spells (distinct : (variants.map Variant.name).Nodup) :
    variant variants v = .ok a ↔ ∃ alternative ∈ variants, Spells alternative v a := by
  rw [variant_eq_ok_iff]
  simp only [find?_eq_ok_iff distinct, payload_eq_ok_iff]
  constructor
  · rintro (⟨name, _, rfl, listed, rfl⟩ | ⟨name, w, alternative, rfl, ⟨listed, rfl⟩, spelled⟩)
    · exact ⟨_, listed, .plain .plain⟩
    · exact ⟨alternative, listed, spelled⟩
  · rintro ⟨alternative, listed, spelled⟩
    cases spelled with
    | plain word =>
      cases word with
      | plain => exact .inl ⟨_, _, rfl, listed, rfl⟩
      | keyed => exact .inr ⟨_, _, _, rfl, ⟨listed, rfl⟩, .plain .keyed⟩
    | counted fits => exact .inr ⟨_, _, _, rfl, ⟨listed, rfl⟩, .counted fits⟩

end Variants

/-! ### Values without repeated keys -/

/-- As long as no key is repeated, exactly the values that denote something are accepted, as what they denote. -/
def Decides (d : Decoder α) (denotes : Json → α → Prop) : Prop :=
  ∀ v a, v.DistinctKeys → (d v = .ok a ↔ denotes v a)

theorem Decides.list (h : Decides d denotes) {vs : List Json} {as : List α} (distinct : (Json.array vs).DistinctKeys) :
    list d (.array vs) = .ok as ↔ List.Forall₂ denotes vs as := by
  have items : ∀ w ∈ vs, w.DistinctKeys := fun _ => distinct.of_mem
  simp only [list_eq_ok_iff, array.injEq, exists_eq_left']
  constructor
  · intro accepted
    refine ((List.forall₂_and_left _ _).mpr ⟨items, accepted⟩).imp fun w a hw => ?_
    exact (h w a hw.1).mp hw.2
  · intro denoted
    refine ((List.forall₂_and_left _ _).mpr ⟨items, denoted⟩).imp fun w a hw => ?_
    exact (h w a hw.1).mpr hw.2

end Decoder

end Json

namespace Decoder
open Json Json.Decoder

theorem decides_operation : Decides operation Json.DenotesOperation := by
  intro v op _
  refine (variant_eq_ok_iff_spells (by decide)).trans ?_
  simp only [Operation.variants, List.mem_cons, List.not_mem_nil, or_false]
  constructor
  · rintro ⟨alternative, rfl | rfl | rfl | rfl | rfl, spelled⟩ <;> cases spelled
    · exact .input ‹_›
    · exact .multiply ‹_›
    · exact .add ‹_›
    · exact .relinearize ‹_›
    · exact .output ‹_›
  · rintro (word | word | word | word | fits)
    · exact ⟨_, .inr (.inl rfl), .plain word⟩
    · exact ⟨_, .inr (.inr (.inl rfl)), .plain word⟩
    · exact ⟨_, .inr (.inr (.inr (.inl rfl))), .plain word⟩
    · exact ⟨_, .inr (.inr (.inr (.inr rfl))), .plain word⟩
    · exact ⟨_, .inl rfl, .counted fits⟩

theorem decides_role : Decides role Json.DenotesRole := by
  intro v r _
  refine (variant_eq_ok_iff_spells (by decide)).trans ?_
  simp only [Role.variants, List.mem_cons, List.not_mem_nil, or_false]
  constructor
  · rintro ⟨alternative, rfl | rfl | rfl, spelled⟩ <;> cases spelled
    · exact .left ‹_›
    · exact .right ‹_›
    · exact .unary ‹_›
  · rintro (word | word | word)
    · exact ⟨_, .inl rfl, .plain word⟩
    · exact ⟨_, .inr (.inl rfl), .plain word⟩
    · exact ⟨_, .inr (.inr rfl), .plain word⟩

theorem decides_edge : Decides edge Json.DenotesEdge := by
  intro v e distinct
  simp only [edge, map_eq_ok_iff, triple_eq_ok_iff, word32_eq_ok_iff, Prod.exists]
  constructor
  · rintro ⟨_, _, r, ⟨_, _, w, rfl, ⟨s, hs, rfl, rfl⟩, ⟨t, ht, rfl, rfl⟩, hr⟩, rfl⟩
    exact .triple hs ht ((decides_role w r (distinct.of_mem (by simp))).mp hr)
  · rintro (⟨hs, ht, hr⟩)
    exact ⟨_, _, _, ⟨_, _, _, rfl, ⟨_, hs, rfl, rfl⟩, ⟨_, ht, rfl, rfl⟩,
      (decides_role _ _ (distinct.of_mem (by simp))).mpr hr⟩, rfl⟩

theorem decides_node : Decides node Json.DenotesNode := by
  intro v op distinct
  rw [node_eq_ok_iff]
  constructor
  · rintro ⟨w, rfl | ⟨ms, rfl, parts⟩, hw⟩
    · exact .list ((decides_operation _ _ (distinct.of_mem (by simp))).mp hw)
    · cases distinct with
      | object distinct inside =>
        -- Without repeated keys, the only value under a key is that of a member.
        obtain ⟨part, -⟩ := List.forall₂_cons.mp parts
        have member := (valuesOf_eq_singleton_iff distinct).mp part
        exact .object member ((decides_operation _ _ (inside _ member)).mp hw)
  · rintro (⟨member, hw⟩ | hw)
    · cases distinct with
      | object distinct inside =>
        refine ⟨_, hasParts_object_iff.mpr (.cons ((valuesOf_eq_singleton_iff distinct).mpr member) .nil), ?_⟩
        exact (decides_operation _ _ (inside _ member)).mpr hw
    · exact ⟨_, hasParts_array_iff.mpr rfl, (decides_operation _ _ (distinct.of_mem (by simp))).mpr hw⟩

theorem decides_program : Decides program Json.DenotesProgram := by
  intro v p distinct
  rw [program_eq_ok_iff]
  constructor
  · rintro ⟨ns, es, parts, hn, he⟩
    -- The parts are lists before it is known whether they stand in a list or in an object.
    obtain ⟨nodes, rfl, -⟩ := list_eq_ok_iff.mp hn
    obtain ⟨edges, rfl, -⟩ := list_eq_ok_iff.mp he
    rcases parts with rfl | ⟨ms, rfl, parts⟩
    · exact .list ((decides_node.list (distinct.of_mem (by simp))).mp hn)
        ((decides_edge.list (distinct.of_mem (by simp))).mp he)
    · cases distinct with
      | object distinct inside =>
        obtain ⟨nodesPart, parts⟩ := List.forall₂_cons.mp parts
        obtain ⟨edgesPart, -⟩ := List.forall₂_cons.mp parts
        have nodesPart := (valuesOf_eq_singleton_iff distinct).mp nodesPart
        have edgesPart := (valuesOf_eq_singleton_iff distinct).mp edgesPart
        exact .object nodesPart edgesPart ((decides_node.list (inside _ nodesPart)).mp hn)
          ((decides_edge.list (inside _ edgesPart)).mp he)
  · rintro (⟨nodesPart, edgesPart, hn, he⟩ | ⟨hn, he⟩)
    · cases distinct with
      | object distinct inside =>
        refine ⟨_, _, hasParts_object_iff.mpr (.cons ?_ (.cons ?_ .nil)),
          (decides_node.list (inside _ nodesPart)).mpr hn, (decides_edge.list (inside _ edgesPart)).mpr he⟩
        · exact (valuesOf_eq_singleton_iff distinct).mpr nodesPart
        · exact (valuesOf_eq_singleton_iff distinct).mpr edgesPart
    · exact ⟨_, _, hasParts_array_iff.mpr rfl, (decides_node.list (distinct.of_mem (by simp))).mpr hn,
        (decides_edge.list (distinct.of_mem (by simp))).mpr he⟩

end Decoder

namespace Program

/-- A value in which no key is repeated is decoded exactly as the program that it denotes, and refused as undecodable if
it denotes none. -/
theorem ofJson_closed (v : Json) (distinct : v.DistinctKeys) :
    (∀ p, ofJson v = .ok p ↔ v.DenotesProgram p) ∧
    ((∀ p, ¬ v.DenotesProgram p) → ∃ reason, ofJson v = .error (.undecodable reason)) := by
  have decided (p : Program) : ofJson v = .ok p ↔ v.DenotesProgram p :=
    ofJson_eq_ok_iff.trans (Decoder.decides_program v p distinct)
  refine ⟨decided, fun nothing => ?_⟩
  cases decoded : ofJson v with
  | ok p => exact absurd ((decided p).mp decoded) (nothing p)
  | error e =>
    obtain ⟨reason, rfl⟩ := error_of_ofJson decoded
    exact ⟨reason, rfl⟩

/-- A program with its parts in another order, among members that are unknown, every spelling of its nodes, and the
largest slot and end that there are. -/
def mixedValue : Json :=
  .object [("x", .array [.null]),
    ("edges", .array [.array [.ofNat 1, .ofNat 4294967295, .object [("Left", .null)]],
      .array [.ofNat 0, .ofNat 2, .string "Unary"]]),
    ("nodes", .array [.array [.string "Add"],
      .object [("y", .bool true), ("operation", .object [("InputCiphertext", .ofNat 18446744073709551615)])],
      .array [.object [("Relinearize", .null)]]])]

/-- A program with a slot that no word of 64 bits holds. -/
def largeSlot : Json :=
  .array [.array [.array [.object [("InputCiphertext", .ofNat 18446744073709551616)]]], .array []]

theorem mixed_value_decoded :
    mixedValue.DistinctKeys ∧
      ofJson mixedValue = .ok ⟨[.add, .input 18446744073709551615, .relinearize],
        [⟨1, 4294967295, .left⟩, ⟨0, 2, .unary⟩]⟩ ∧
      largeSlot.DistinctKeys ∧ (∀ p, ¬ largeSlot.DenotesProgram p) ∧
      ∃ reason, ofJson largeSlot = .error (.undecodable reason) := by
  have distinct : mixedValue.DistinctKeys := by decide
  have distinct' : largeSlot.DistinctKeys := by decide
  obtain ⟨decoded, -⟩ := ofJson_closed mixedValue distinct
  obtain ⟨-, refused⟩ := ofJson_closed largeSlot distinct'
  have nothing : ∀ p, ¬ largeSlot.DenotesProgram p := by
    rintro p (_ | ⟨nodes, -⟩)
    obtain ⟨op, -, node, -⟩ := List.forall₂_cons_left_iff.mp nodes
    cases node with
    | list operation =>
      cases operation with
      | multiply h | add h | relinearize h | output h => simp [Json.isWord_object_iff] at h
      | input fits => exact absurd fits (by decide)
  refine ⟨distinct, (decoded _).mpr (.object (.tail _ (.tail _ (.head _))) (.tail _ (.head _)) ?_ ?_), distinct', nothing,
    refused nothing⟩
  · refine .cons (.list (.add .plain)) (.cons (.object (.tail _ (.head _)) ?_) (.cons (.list (.relinearize .keyed)) .nil))
    exact .input (by decide)
  · exact .cons (.triple (by decide) (by decide) (.left .keyed))
      (.cons (.triple (by decide) (by decide) (.unary .plain)) .nil)

end Program

end CipherGraph
