/-! # Catalogs

Values by name, in the order in which they were entered. No name stands twice. What a catalog holds is seen
through `find?`, and each operation says what it does to that view. -/

namespace CipherGraph

structure Catalog (α : Type) where
  entries : List (String × α) := []
  distinct : (entries.map (·.1)).Nodup := by exact List.nodup_nil

namespace Catalog
variable {α : Type}

theorem ext {d e : Catalog α} (h : d.entries = e.entries) : d = e := by
  cases d
  cases e
  cases h
  rfl

def find? (d : Catalog α) (name : String) : Option α :=
  d.entries.lookup name

theorem not_mem_of_find?_eq_none {d : Catalog α} {name : String} (h : d.find? name = none) :
    name ∉ d.entries.map (·.1) := by
  intro hm
  obtain ⟨entry, he, rfl⟩ := List.mem_map.mp hm
  have := List.lookup_eq_none_iff.mp h entry he
  simp at this

/-- A value put at the end, under a name that is free. -/
def enter (d : Catalog α) (name : String) (value : α) (free : d.find? name = none) : Catalog α where
  entries := d.entries ++ [(name, value)]
  distinct := by
    rw [List.map_append, List.nodup_append]
    refine ⟨d.distinct, by simp, ?_⟩
    rintro n hn _ hm rfl
    obtain rfl := List.mem_singleton.mp hm
    exact not_mem_of_find?_eq_none free hn

def erase (d : Catalog α) (name : String) : Catalog α where
  entries := d.entries.filter (·.1 ≠ name)
  distinct := d.distinct.sublist (List.filter_sublist.map _)

/-- A value put in place of the one with a name, if there is one. -/
def replace (d : Catalog α) (name : String) (value : α) : Catalog α where
  entries := d.entries.map fun entry => if entry.1 = name then (name, value) else entry
  distinct := by
    have names : (d.entries.map fun entry => if entry.1 = name then (name, value) else entry).map (·.1) =
        d.entries.map (·.1) := by
      rw [List.map_map]
      apply List.map_congr_left
      intro entry _
      by_cases h : entry.1 = name <;> simp [h]
    rw [names]
    exact d.distinct

/-! ### What is found -/

variable {d : Catalog α} {name : String} {value : α}

/-- A name is found with a value exactly if the two stand together. -/
theorem find?_eq_some_iff : d.find? name = some value ↔ (name, value) ∈ d.entries := by
  obtain ⟨entries, distinct⟩ := d
  show entries.lookup name = some value ↔ (name, value) ∈ entries
  induction entries with
  | nil => simp
  | cons entry rest ih =>
    obtain ⟨n, v⟩ := entry
    obtain ⟨fresh, distinct⟩ := List.nodup_cons.mp distinct
    rw [List.lookup_cons, List.mem_cons]
    by_cases hn : name = n
    · subst hn
      -- The rest may not hold the name again, so that the first entry is the only one.
      have absent : (name, value) ∉ rest := fun h => fresh (List.mem_map.mpr ⟨_, h, rfl⟩)
      simp [absent, eq_comm]
    · rw [beq_false_of_ne hn]
      simpa [hn] using ih distinct

theorem find?_enter (free : d.find? name = none) (n : String) :
    (d.enter name value free).find? n = if n = name then some value else d.find? n := by
  apply Option.ext
  intro v
  rw [find?_eq_some_iff]
  show (n, v) ∈ d.entries ++ [(name, value)] ↔ _
  rw [List.mem_append, List.mem_singleton, Prod.mk.injEq, ← find?_eq_some_iff]
  by_cases hn : n = name
  · subst hn
    simp [free, eq_comm]
  · simp [hn]

theorem find?_erase (n : String) : (d.erase name).find? n = if n = name then none else d.find? n := by
  apply Option.ext
  intro v
  rw [find?_eq_some_iff]
  show (n, v) ∈ d.entries.filter (·.1 ≠ name) ↔ _
  rw [List.mem_filter, ← find?_eq_some_iff]
  by_cases hn : n = name <;> simp [hn]

theorem find?_replace (n : String) :
    (d.replace name value).find? n = if n = name then (d.find? n).map fun _ => value else d.find? n := by
  apply Option.ext
  intro v
  rw [find?_eq_some_iff]
  show (n, v) ∈ d.entries.map (fun entry => if entry.1 = name then (name, value) else entry) ↔ _
  rw [List.mem_map]
  by_cases hn : n = name
  · subst hn
    rw [if_pos rfl, Option.map_eq_some_iff]
    constructor
    · rintro ⟨⟨m, w⟩, hm, h⟩
      by_cases hmn : m = n
      · subst hmn
        rw [if_pos rfl, Prod.mk.injEq] at h
        exact ⟨w, find?_eq_some_iff.mpr hm, h.2⟩
      · rw [if_neg hmn, Prod.mk.injEq] at h
        exact absurd h.1 hmn
    · rintro ⟨w, hw, rfl⟩
      exact ⟨(n, w), find?_eq_some_iff.mp hw, if_pos rfl⟩
  · rw [if_neg hn, find?_eq_some_iff]
    constructor
    · rintro ⟨⟨m, w⟩, hm, h⟩
      by_cases hmn : m = name
      · rw [if_pos hmn, Prod.mk.injEq] at h
        exact absurd h.1.symm hn
      · rw [if_neg hmn] at h
        exact h ▸ hm
    · intro h
      exact ⟨(n, v), h, if_neg hn⟩

/-- A value put in its own place changes nothing. -/
theorem replace_of_find?_eq_some (h : d.find? name = some value) : d.replace name value = d := by
  apply ext
  refine (List.map_congr_left fun entry he => ?_).trans (List.map_id _)
  by_cases hn : entry.1 = name
  · have hv : d.find? name = some entry.2 := find?_eq_some_iff.mpr (hn ▸ he)
    rw [if_pos hn, ← Option.some.inj (hv.symm.trans h), ← hn]
    rfl
  · rw [if_neg hn]
    rfl

end Catalog

end CipherGraph
