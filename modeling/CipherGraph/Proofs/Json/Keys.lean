import CipherGraph.Json.Basic
import Mathlib.Data.List.Induction
import Mathlib.Data.List.Perm.Basic

/-! # Members by key

What an object says of a key is the list of values that it gives to it. Sorting the members keeps of this list the
last value, and nothing else changes; where no key is repeated nothing is lost at all. -/

namespace CipherGraph

namespace Text

theorem precedes_iff {a b : String} : precedes a b = true ↔ bytes a < bytes b :=
  decide_eq_true_iff

theorem precedes_irrefl (a : String) : ¬precedes a a = true := by
  rw [precedes_iff]
  exact List.lt_irrefl _

theorem precedes_trans {a b c : String} (h : precedes a b = true) (h' : precedes b c = true) :
    precedes a c = true :=
  precedes_iff.mpr (List.lt_trans (precedes_iff.mp h) (precedes_iff.mp h'))

theorem precedes_of_not {a b : String} (other : b ≠ a) (h : ¬precedes a b = true) : precedes b a = true := by
  rw [precedes_iff] at h ⊢
  by_contra h'
  exact other (bytes_injective (List.le_antisymm (List.not_lt.mp h) (List.not_lt.mp h')))

end Text

namespace Json
variable {k key : String} {v : Json} {ms : List (String × Json)}

/-! ### Canonical parts -/

theorem canonicalItems_eq (items : List Json) : canonicalItems items = items.map canonical := by
  induction items with
  | nil => rfl
  | cons v rest ih => rw [canonicalItems, ih, List.map_cons]

theorem canonicalMembers_eq (ms : List (String × Json)) :
    canonicalMembers ms = ms.map fun m => (m.1, m.2.canonical) := by
  induction ms with
  | nil => rfl
  | cons m rest ih => rw [canonicalMembers, ih, List.map_cons]

/-! ### Values of a key -/

/-- The values that some members give to a key, in order. -/
def valuesOf (k : String) (ms : List (String × Json)) : List Json :=
  ms.filterMap fun m => if m.1 = k then some m.2 else none

@[simp] theorem valuesOf_nil : valuesOf k [] = [] := rfl

theorem valuesOf_cons (m : String × Json) :
    valuesOf k (m :: ms) = if m.1 = k then m.2 :: valuesOf k ms else valuesOf k ms := by
  unfold valuesOf
  by_cases h : m.1 = k <;> simp [h]

theorem valuesOf_map (f : Json → Json) : valuesOf k (ms.map fun m => (m.1, f m.2)) = (valuesOf k ms).map f := by
  induction ms with
  | nil => rfl
  | cons m rest ih =>
    rw [List.map_cons, valuesOf_cons, valuesOf_cons, ih]
    split <;> rfl

theorem valuesOf_eq_nil_iff : valuesOf k ms = [] ↔ k ∉ ms.map Prod.fst := by
  unfold valuesOf
  rw [List.filterMap_eq_nil_iff, List.mem_map, not_exists]
  exact ⟨fun h m hm => by simpa [hm.2] using h m hm.1, fun h m hm => if_neg fun same => h m ⟨hm, same⟩⟩

theorem mem_of_mem_valuesOf (h : v ∈ valuesOf k ms) : (k, v) ∈ ms := by
  obtain ⟨m, hm, hv⟩ := List.mem_filterMap.mp h
  split at hv
  · next same =>
    cases hv
    exact same ▸ hm
  · cases hv

/-- Where keys are distinct, a key has at most one value. -/
theorem length_valuesOf_le_one (distinct : (ms.map Prod.fst).Nodup) : (valuesOf k ms).length ≤ 1 := by
  induction ms with
  | nil => exact Nat.zero_le 1
  | cons m rest ih =>
    obtain ⟨new, distinct⟩ := List.nodup_cons.mp distinct
    rw [valuesOf_cons]
    split
    · next same =>
      subst same
      rw [valuesOf_eq_nil_iff.mpr new]
      exact Nat.le_refl 1
    · exact ih distinct

/-! ### Sorting -/

/-- Members in the order of their keys, none of which is repeated. -/
def Sorted (ms : List (String × Json)) : Prop :=
  ms.Pairwise fun m m' => Text.precedes m.1 m'.1 = true

theorem mem_insertMember {m : String × Json} (h : m ∈ insertMember key v ms) : m = (key, v) ∨ m ∈ ms := by
  induction ms with
  | nil => exact Or.inl (List.mem_singleton.mp h)
  | cons n rest ih =>
    unfold insertMember at h
    split at h
    · exact (List.mem_cons.mp h).imp_right (List.mem_cons_of_mem _)
    split at h
    · exact List.mem_cons.mp h
    · rcases List.mem_cons.mp h with rfl | h
      · exact Or.inr List.mem_cons_self
      · exact (ih h).imp_right (List.mem_cons_of_mem _)

theorem Sorted.insertMember (h : Sorted ms) : Sorted (insertMember key v ms) := by
  induction ms with
  | nil => exact List.pairwise_singleton _ _
  | cons n rest ih =>
    obtain ⟨before, sorted⟩ := List.pairwise_cons.mp h
    unfold Json.insertMember
    split
    · next same =>
      subst same
      exact List.pairwise_cons.mpr ⟨before, sorted⟩
    split
    · next first =>
      refine List.pairwise_cons.mpr ⟨fun m hm => ?_, h⟩
      rcases List.mem_cons.mp hm with rfl | hm
      · exact first
      · exact Text.precedes_trans first (before m hm)
    · next other later =>
      refine List.pairwise_cons.mpr ⟨fun m hm => ?_, ih sorted⟩
      rcases mem_insertMember hm with rfl | hm
      · exact Text.precedes_of_not other later
      · exact before m hm

/-- A key that comes before all others is not among them. -/
theorem valuesOf_of_precedes (h : ∀ m ∈ ms, Text.precedes k m.1 = true) : valuesOf k ms = [] := by
  refine valuesOf_eq_nil_iff.mpr fun hk => ?_
  obtain ⟨m, hm, rfl⟩ := List.mem_map.mp hk
  exact Text.precedes_irrefl _ (h m hm)

theorem valuesOf_insertMember (h : Sorted ms) :
    valuesOf k (insertMember key v ms) = if key = k then [v] else valuesOf k ms := by
  induction ms with
  | nil => rw [insertMember, valuesOf_cons]; rfl
  | cons n rest ih =>
    obtain ⟨before, sorted⟩ := List.pairwise_cons.mp h
    unfold insertMember
    split
    · next same =>
      subst same
      rw [valuesOf_cons, valuesOf_cons]
      split
      · next same =>
        subst same
        rw [valuesOf_of_precedes before]
      · rfl
    split
    · next first =>
      rw [valuesOf_cons]
      split
      · next same =>
        subst same
        rw [valuesOf_of_precedes]
        intro m hm
        rcases List.mem_cons.mp hm with rfl | hm
        · exact first
        · exact Text.precedes_trans first (before m hm)
      · rfl
    · next other _ =>
      rw [valuesOf_cons, ih sorted, valuesOf_cons]
      by_cases same : key = k
      · subst same
        simp [other]
      · simp [same]

theorem sortMembers_concat (m : String × Json) :
    sortMembers (ms ++ [m]) = insertMember m.1 m.2 (sortMembers ms) := by
  unfold sortMembers
  rw [List.foldl_append]
  rfl

theorem sorted_sortMembers (ms : List (String × Json)) : Sorted (sortMembers ms) := by
  induction ms using List.reverseRecOn with
  | nil => exact List.Pairwise.nil
  | append_singleton ms m ih => exact sortMembers_concat m ▸ ih.insertMember

/-- Of a repeated key the last value counts. -/
theorem valuesOf_sortMembers (k : String) (ms : List (String × Json)) :
    valuesOf k (sortMembers ms) = (valuesOf k ms).getLast?.toList := by
  induction ms using List.reverseRecOn with
  | nil => rfl
  | append_singleton ms m ih =>
    have last : valuesOf k (ms ++ [m]) = valuesOf k ms ++ if m.1 = k then [m.2] else [] := by
      unfold valuesOf
      rw [List.filterMap_append]
      by_cases h : m.1 = k <;> simp [h]
    rw [sortMembers_concat, valuesOf_insertMember (sorted_sortMembers ms), ih, last]
    split <;> simp

theorem insertMember_perm (new : key ∉ ms.map Prod.fst) : (insertMember key v ms).Perm ((key, v) :: ms) := by
  induction ms with
  | nil => exact .refl _
  | cons n rest ih =>
    rw [List.map_cons, List.mem_cons, not_or] at new
    unfold insertMember
    rw [if_neg (Ne.symm new.1)]
    split
    · exact .refl _
    · exact ((ih new.2).cons n).trans (.swap _ _ _)

/-- Where no key is repeated, sorting only changes the order. -/
theorem sortMembers_perm (distinct : (ms.map Prod.fst).Nodup) : (sortMembers ms).Perm ms := by
  induction ms using List.reverseRecOn with
  | nil => exact .refl _
  | append_singleton ms m ih =>
    rw [List.map_append, List.nodup_append] at distinct
    have ih := ih distinct.1
    have new : m.1 ∉ (sortMembers ms).map Prod.fst := fun h =>
      distinct.2.2 _ ((ih.map Prod.fst).mem_iff.mp h) _ (List.mem_singleton.mpr rfl) rfl
    rw [sortMembers_concat]
    have last : ([m] ++ ms).Perm (ms ++ [m]) := List.perm_append_comm
    exact (insertMember_perm new).trans ((ih.cons m).trans last)

/-! ### Distinct keys -/

/-- No object in the value repeats a key. -/
inductive DistinctKeys : Json → Prop where
  | null : DistinctKeys .null
  | bool (value : Bool) : DistinctKeys (.bool value)
  | number (value : Number) : DistinctKeys (.number value)
  | string (value : String) : DistinctKeys (.string value)
  | array {items : List Json} (h : ∀ v ∈ items, DistinctKeys v) : DistinctKeys (.array items)
  | object {members : List (String × Json)} (distinct : (members.map Prod.fst).Nodup)
    (h : ∀ m ∈ members, DistinctKeys m.2) : DistinctKeys (.object members)

theorem DistinctKeys.of_mem {vs : List Json} {w : Json} (h : (Json.array vs).DistinctKeys) (hw : w ∈ vs) :
    w.DistinctKeys := by
  cases h with
  | array h => exact h w hw

mutual

/-- Looks for repeated keys. -/
def hasDistinctKeys : Json → Bool
  | .array items => itemsHaveDistinctKeys items
  | .object members => decide (members.map Prod.fst).Nodup && membersHaveDistinctKeys members
  | _ => true

def itemsHaveDistinctKeys : List Json → Bool
  | [] => true
  | v :: rest => hasDistinctKeys v && itemsHaveDistinctKeys rest

def membersHaveDistinctKeys : List (String × Json) → Bool
  | [] => true
  | (_, v) :: rest => hasDistinctKeys v && membersHaveDistinctKeys rest

end

mutual

theorem hasDistinctKeys_iff : ∀ v : Json, v.hasDistinctKeys = true ↔ v.DistinctKeys
  | .null => iff_of_true rfl .null
  | .bool value => iff_of_true rfl (.bool value)
  | .number value => iff_of_true rfl (.number value)
  | .string value => iff_of_true rfl (.string value)
  | .array items => by
    rw [hasDistinctKeys, itemsHaveDistinctKeys_iff items]
    exact ⟨.array, fun h _ => h.of_mem⟩
  | .object members => by
    rw [hasDistinctKeys, Bool.and_eq_true, decide_eq_true_iff, membersHaveDistinctKeys_iff members]
    refine ⟨fun h => .object h.1 h.2, fun h => ?_⟩
    cases h with
    | object distinct inside => exact ⟨distinct, inside⟩

theorem itemsHaveDistinctKeys_iff : ∀ items : List Json,
    itemsHaveDistinctKeys items = true ↔ ∀ v ∈ items, v.DistinctKeys
  | [] => by simp [itemsHaveDistinctKeys]
  | v :: rest => by
    rw [itemsHaveDistinctKeys, Bool.and_eq_true, hasDistinctKeys_iff v, itemsHaveDistinctKeys_iff rest,
      List.forall_mem_cons]

theorem membersHaveDistinctKeys_iff : ∀ members : List (String × Json),
    membersHaveDistinctKeys members = true ↔ ∀ m ∈ members, m.2.DistinctKeys
  | [] => by simp [membersHaveDistinctKeys]
  | (_, v) :: rest => by
    rw [membersHaveDistinctKeys, Bool.and_eq_true, hasDistinctKeys_iff v, membersHaveDistinctKeys_iff rest,
      List.forall_mem_cons]

end

instance (v : Json) : Decidable v.DistinctKeys :=
  decidable_of_iff _ (hasDistinctKeys_iff v)

/-- The only value of a key is also its value in the canonical form. -/
theorem valuesOf_canonical_of_eq (h : valuesOf k ms = [v]) :
    valuesOf k (sortMembers (canonicalMembers ms)) = [v.canonical] := by
  rw [valuesOf_sortMembers, canonicalMembers_eq, valuesOf_map, h]
  rfl

/-- Where a key is not repeated, its value in the canonical form comes from its only value. -/
theorem eq_of_valuesOf_canonical (once : (valuesOf k ms).length ≤ 1)
    (h : valuesOf k (sortMembers (canonicalMembers ms)) = [v]) : ∃ w, valuesOf k ms = [w] ∧ v = w.canonical := by
  rw [valuesOf_sortMembers, canonicalMembers_eq, valuesOf_map] at h
  match hvs : valuesOf k ms with
  | [] => simp [hvs] at h
  | [w] =>
    rw [hvs] at h
    exact ⟨w, rfl, by simpa using h.symm⟩
  | _ :: _ :: _ => simp [hvs] at once

end Json

end CipherGraph
