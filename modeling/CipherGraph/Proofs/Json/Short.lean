import CipherGraph.Proofs.Json.Canonical
import CipherGraph.Proofs.Json.Formed

/-! # Lists that are no longer than their text

Every item of a list takes a character at least. So no list in a value that is read is longer than the text in which it
stands, and putting the value into canonical form makes no list longer. -/

namespace CipherGraph.Json

/-- No list in the value has more than `n` items. -/
inductive Short (n : Nat) : Json → Prop where
  | null : Short n .null
  | bool (value : Bool) : Short n (.bool value)
  | number (value : Number) : Short n (.number value)
  | string (value : String) : Short n (.string value)
  | array {items : List Json} (few : items.length ≤ n) (h : ∀ v ∈ items, Short n v) : Short n (.array items)
  | object {members : List (String × Json)} (h : ∀ m ∈ members, Short n m.2) : Short n (.object members)

theorem Short.mono {n n' : Nat} {v : Json} (h : v.Short n) (le : n ≤ n') : v.Short n' := by
  induction h with
  | null => exact .null
  | bool value => exact .bool value
  | number value => exact .number value
  | string value => exact .string value
  | array few _ ih => exact .array (Nat.le_trans few le) ih
  | object _ ih => exact .object ih

theorem mem_sortMembers {ms : List (String × Json)} {m : String × Json} (h : m ∈ sortMembers ms) : m ∈ ms := by
  induction ms using List.reverseRecOn with
  | nil => exact h
  | append_singleton ms last ih =>
    rw [sortMembers_concat] at h
    rcases mem_insertMember h with rfl | h
    · exact List.mem_append_right ms (List.mem_singleton.mpr rfl)
    · exact List.mem_append_left [last] (ih h)

theorem Short.canonical {n : Nat} {v : Json} (h : v.Short n) : v.canonical.Short n := by
  induction h with
  | null => exact .null
  | bool value => exact .bool value
  | number value => exact .number value
  | string value => exact .string value
  | array few _ ih =>
    rw [canonical_array]
    refine .array (by rwa [List.length_map]) fun w hw => ?_
    obtain ⟨v, hv, rfl⟩ := List.mem_map.mp hw
    exact ih v hv
  | object _ ih =>
    rw [Json.canonical, canonicalMembers_eq]
    refine .object fun m hm => ?_
    obtain ⟨m', hm', rfl⟩ := List.mem_map.mp (mem_sortMembers hm)
    exact ih m' hm'

theorem HasParts.short {n : Nat} {v w : Json} {names : List String} {parts : List Json} (h : v.HasParts names parts)
    (short : v.Short n) (hw : w ∈ parts) : w.Short n := by
  rcases h.of_mem hw with ⟨items, rfl, hw⟩ | ⟨ms, k, rfl, hw⟩
  · cases short with
    | array _ inside => exact inside w hw
  · cases short with
    | object inside => exact inside _ hw

theorem Decoder.length_le_of_list {α : Type} {n : Nat} {d : Decoder α} {v : Json} {as : List α} (h : list d v = .ok as)
    (short : v.Short n) : as.length ≤ n := by
  obtain ⟨vs, rfl, hvs⟩ := list_eq_ok_iff.mp h
  cases short with
  | array few _ => exact hvs.length_eq ▸ few

namespace Reader
variable {α : Type} {inner : Reader α} {first : Bool} {c c' : Cursor}

/-! ### Items and members -/

theorem Items.length_le {as : List α} (h : Items inner first c as c') (advances : Advances inner) :
    as.length + c'.size ≤ c.size := by
  induction h with
  | done h =>
    obtain ⟨-, rfl⟩ := hasItem_eq_false_iff.mp h
    rw [List.length_nil, Nat.zero_add]
    exact Cursor.size_skipBlanks_le _
  | item h ha _ ih =>
    have := size_of_further (hasItem_eq_true_iff.mp h).1
    have := advances _ _ _ ha
    rw [List.length_cons]
    omega

/-- Every item is found somewhere after the place where the list begins. -/
theorem Items.exists_read {as : List α} (h : Items inner first c as c') (advances : Advances inner) :
    ∀ a ∈ as, ∃ c₁ c₂, c₁.size ≤ c.size ∧ result? inner c₁ = some (a, c₂) := by
  induction h with
  | done h => exact List.forall_mem_nil _
  | item h ha _ ih =>
    have here := size_of_further (hasItem_eq_true_iff.mp h).1
    have next := advances _ _ _ ha
    refine List.forall_mem_cons.mpr ⟨⟨_, _, here, ha⟩, fun a' ha' => ?_⟩
    obtain ⟨c₁, c₂, le, read⟩ := ih a' ha'
    exact ⟨c₁, c₂, by omega, read⟩

theorem Members.exists_read {as : List (String × α)} (h : Members inner first c as c') (advances : Advances inner) :
    ∀ m ∈ as, ∃ c₁ c₂, c₁.size ≤ c.size ∧ result? inner c₁ = some (m.2, c₂) := by
  induction h with
  | done h => exact List.forall_mem_nil _
  | member h hk hcolon ha _ ih =>
    have here := size_of_further (hasKey_eq_true_iff.mp h).1
    have key := advances_key _ _ _ hk
    have colon := stays_colon _ _ _ hcolon
    have next := advances _ _ _ ha
    refine List.forall_mem_cons.mpr ⟨⟨_, _, by omega, ha⟩, fun m' hm' => ?_⟩
    obtain ⟨c₁, c₂, le, read⟩ := ih m' hm'
    exact ⟨c₁, c₂, by omega, read⟩

/-! ### Values -/

theorem Formed.short {inner : Option (Reader Json)} {ch : Char} {v : Json} (h : Formed inner ch c v c')
    (advances : ∀ r ∈ inner, Advances r)
    (inside : ∀ r ∈ inner, ∀ c v c', result? r c = some (v, c') → v.Short c.size) : v.Short c.size := by
  have next := c.size_next_le
  cases h with
  | null => exact .null
  | true => exact .bool _
  | false => exact .bool _
  | string => exact .string _
  | number => exact .number _
  | list nested h _ =>
    have few := h.length_le (advances _ nested)
    refine .array (by omega) fun v hv => ?_
    obtain ⟨c₁, c₂, le, read⟩ := h.exists_read (advances _ nested) v hv
    exact (inside _ nested _ _ _ read).mono (by omega)
  | object nested h _ =>
    refine .object fun m hm => ?_
    obtain ⟨c₁, c₂, le, read⟩ := h.exists_read (advances _ nested) m hm
    exact (inside _ nested _ _ _ read).mono (by omega)

/-- A list in a value is no longer than the text from the value on. -/
theorem short_of_tree {depth : Nat} {v : Json} (h : result? (tree depth) c = some (v, c')) : v.Short c.size := by
  induction depth generalizing c v c' with
  | zero =>
    obtain ⟨ch, -, formed⟩ := formed_of_tree h
    exact (formed.short advances_nested nofun).mono c.size_skipBlanks_le
  | succ depth ih =>
    obtain ⟨ch, -, formed⟩ := formed_of_tree h
    refine (formed.short advances_nested fun r hr c v c' h => ?_).mono c.size_skipBlanks_le
    cases hr
    exact ih h

end Reader

end CipherGraph.Json
