import CipherGraph.Proofs.Json.Canonical

/-! # Members that are read by their keys

A client takes the members that it knows from an object, whatever else is there. It sees no more of a value than its
canonical form, so that its decoders have to find the same there (`Keeps`). -/

namespace CipherGraph.Json.Decoder
variable {α β : Type} {d : Decoder α} {k : String} {v w : Json} {ms : List (String × Json)}

def string : Decoder String
  | .string s => .ok s
  | v => v.mismatch "a string"

def bool : Decoder Bool
  | .bool b => .ok b
  | v => v.mismatch "a boolean"

/-- A value that may be `null`. -/
def optional (d : Decoder α) : Decoder (Option α)
  | .null => .ok none
  | v => (d v).map some

/-- The member with a key, and what to take where there is none. -/
def memberOr (absent : Except Cause α) (k : String) (d : Decoder α) : Decoder α
  | .object ms =>
    match valuesOf k ms with
    | [] => absent
    | [v] => d v
    | _ => .error (.duplicateField k)
  | v => v.mismatch "a map"

/-- The member with a key, which has to be there. -/
def member (k : String) : Decoder α → Decoder α :=
  memberOr (.error (.missingField k)) k

/-- What is found in a value is found in its canonical form. -/
def Keeps (d : Decoder α) : Prop :=
  ∀ v a, d v = .ok a → d v.canonical = .ok a

theorem Stable.keeps {given : Json → Prop} (h : Stable d given) : Keeps d :=
  fun _ _ => h.canonical

theorem keeps_string : Keeps string :=
  fun v s h => by
    cases v with
    | string _ => exact h
    | _ => cases h

theorem keeps_bool : Keeps bool :=
  fun v b h => by
    cases v with
    | bool _ => exact h
    | _ => cases h

theorem keeps_of_ok (a : α) : Keeps fun _ => .ok a :=
  fun _ _ h => h

theorem keeps_of_error (cause : Cause) : Keeps fun _ => (.error cause : Except Cause α) :=
  fun _ _ h => nomatch h

theorem Keeps.bind {f : α → Decoder β} (h : Keeps d) (hf : ∀ a, Keeps (f a)) : Keeps fun v => d v >>= fun a => f a v := by
  intro v b hb
  obtain ⟨a, ha, hfa⟩ := bind_eq_ok_iff.mp hb
  exact bind_eq_ok_iff.mpr ⟨a, h v a ha, hf a v b hfa⟩

theorem Keeps.map (h : Keeps d) (f : α → β) : Keeps fun v => (d v).map f := by
  intro v b hb
  obtain ⟨a, ha, rfl⟩ := map_eq_ok_iff.mp hb
  exact map_eq_ok_iff.mpr ⟨a, h v a ha, rfl⟩

theorem Keeps.list (h : Keeps d) : Keeps (list d) := by
  intro v as hv
  obtain ⟨vs, rfl, hvs⟩ := list_eq_ok_iff.mp hv
  refine list_eq_ok_iff.mpr ⟨_, canonical_array vs, ?_⟩
  exact List.forall₂_map_left_iff.mpr (hvs.imp fun w a => h w a)

theorem optional_of_ne_null (other : v ≠ .null) : optional d v = (d v).map some := by
  cases v with
  | null => exact absurd rfl other
  | _ => rfl

theorem Keeps.optional (h : Keeps d) : Keeps (optional d) := by
  intro v o ho
  by_cases absent : v = .null
  · rw [absent] at ho ⊢
    exact ho
  · have other : v.canonical ≠ .null := by
      cases v with
      | null => exact absurd rfl absent
      | _ => simp [Json.canonical]
    rw [optional_of_ne_null absent] at ho
    rw [optional_of_ne_null other]
    exact h.map some v o ho

theorem Keeps.memberOr (h : Keeps d) (absent : Except Cause α) (k : String) : Keeps (memberOr absent k d) := by
  intro v a hv
  cases v with
  | object ms =>
    rw [Json.canonical]
    unfold Decoder.memberOr at hv ⊢
    dsimp only at hv ⊢
    rw [valuesOf_sortMembers, canonicalMembers_eq, valuesOf_map]
    cases values : valuesOf k ms with
    | nil =>
      rw [values] at hv
      exact hv
    | cons w rest =>
      rw [values] at hv
      cases rest with
      | nil => exact h w a hv
      | cons w' rest => cases hv
  | _ => cases hv

theorem Keeps.member (h : Keeps d) (k : String) : Keeps (member k d) :=
  h.memberOr _ k

theorem memberOr_of_value {absent : Except Cause α} (h : valuesOf k ms = [w]) :
    memberOr absent k d (.object ms) = d w := by
  unfold memberOr
  dsimp only
  rw [h]

theorem memberOr_of_absent {absent : Except Cause α} (h : valuesOf k ms = []) :
    memberOr absent k d (.object ms) = absent := by
  unfold memberOr
  dsimp only
  rw [h]

theorem member_of_value {a : α} (h : valuesOf k ms = [w]) (found : d w = .ok a) : member k d (.object ms) = .ok a :=
  (memberOr_of_value h).trans found

/-- A member is found, and then the rest. -/
theorem bind_member {f : α → Except Cause β} {a : α} {b : β} (h : valuesOf k ms = [w]) (found : d w = .ok a)
    (rest : f a = .ok b) : (member k d (.object ms) >>= f) = .ok b :=
  bind_eq_ok_iff.mpr ⟨a, member_of_value h found, rest⟩

end CipherGraph.Json.Decoder
