import CipherGraph.Session.Registry
import Mathlib.Data.List.Basic

/-! # Sessions behind handles

Where requests overlap, a request may still hold a session whose name was removed or given to another. So the
sessions are kept apart from the names: a name leads to a handle, and a handle to a session, whether or not it
still has a name. The registry is what the names lead to (`Shelf.registry`), and what is done to a shelf is
told by what it does to the registry. -/

namespace CipherGraph

namespace Catalog
variable {α β : Type}

/-- The values that a function gives something for, as what it gives. -/
def filterMap (f : α → Option β) (d : Catalog α) : Catalog β where
  entries := d.entries.filterMap fun entry => (f entry.2).map (entry.1, ·)
  distinct := by
    have names : ∀ entries : List (String × α),
        ((entries.filterMap fun entry => (f entry.2).map (entry.1, ·)).map (·.1)).Sublist
          (entries.map (·.1)) := by
      intro entries
      induction entries with
      | nil => exact .slnil
      | cons entry rest ih => cases hf : f entry.2 <;> simp [hf, ih, List.Sublist.cons]
    exact d.distinct.sublist (names d.entries)

theorem find?_filterMap {d : Catalog α} {f : α → Option β} (n : String) :
    (d.filterMap f).find? n = (d.find? n).bind f := by
  apply Option.ext
  intro w
  rw [find?_eq_some_iff, Option.bind_eq_some_iff]
  show (n, w) ∈ d.entries.filterMap (fun entry => (f entry.2).map (entry.1, ·)) ↔ _
  rw [List.mem_filterMap]
  constructor
  · rintro ⟨⟨m, v⟩, hm, h⟩
    obtain ⟨_, hf, h⟩ := Option.map_eq_some_iff.mp h
    cases h
    exact ⟨v, find?_eq_some_iff.mpr hm, hf⟩
  · rintro ⟨v, hv, hf⟩
    exact ⟨(n, v), find?_eq_some_iff.mp hv, by simp [hf]⟩

/-- What is put in place of a value is erased with its name. -/
theorem erase_replace (d : Catalog α) (name : String) (value : α) : (d.replace name value).erase name = d.erase name := by
  apply ext
  show (d.entries.map fun entry => if entry.1 = name then (name, value) else entry).filter (·.1 ≠ name) = _
  rw [List.filter_map]
  have same : ((fun entry : String × α => decide (entry.1 ≠ name)) ∘ fun entry =>
      if entry.1 = name then (name, value) else entry) = fun entry => decide (entry.1 ≠ name) := by
    funext entry
    by_cases h : entry.1 = name <;> simp [h]
  rw [same]
  refine (List.map_congr_left fun entry he => ?_).trans (List.map_id _)
  exact if_neg (by simpa using (List.mem_filter.mp he).2)

end Catalog

/-- The place where a session is kept. -/
abbrev Handle := Nat

/-- Sessions at their handles, and the handles of those that have a name. -/
structure Shelf where
  sessions : List Session
  handles : Catalog Handle
  /-- A name leads to a session. -/
  valid : ∀ name h, handles.find? name = some h → h < sessions.length
  /-- Two names do not lead to the same session. -/
  apart : ∀ m n h, handles.find? m = some h → handles.find? n = some h → m = n

namespace Shelf

/-- The sessions of a registry, each at its position. -/
def ofRegistry (r : Registry) : Shelf where
  sessions := r.entries.map (·.2)
  handles := ⟨(r.entries.map (·.1)).zipIdx, by rw [List.zipIdx_map_fst]; exact r.distinct⟩
  valid name h found := by
    have := List.snd_lt_of_mem_zipIdx (Catalog.find?_eq_some_iff.mp found)
    simpa using this
  apart m n h hm hn := by
    have hm := List.mk_mem_zipIdx_iff_getElem?.mp (Catalog.find?_eq_some_iff.mp hm)
    have hn := List.mk_mem_zipIdx_iff_getElem?.mp (Catalog.find?_eq_some_iff.mp hn)
    exact Option.some.inj (hm.symm.trans hn)

/-- What the names lead to. -/
def registry (shelf : Shelf) : Registry :=
  shelf.handles.filterMap (shelf.sessions[·]?)

/-- A session under its name, at a handle that is not in use. -/
def add (shelf : Shelf) (s : Session) (free : shelf.handles.find? s.name = none) : Shelf where
  sessions := shelf.sessions ++ [s]
  handles := shelf.handles.enter s.name shelf.sessions.length free
  valid name h found := by
    rw [List.length_append, List.length_singleton]
    rw [Catalog.find?_enter] at found
    split at found
    · cases found
      exact Nat.lt_succ_self _
    · exact Nat.lt_succ_of_lt (shelf.valid name h found)
  apart m n h hm hn := by
    rw [Catalog.find?_enter] at hm hn
    split at hm <;> split at hn
    · exact Eq.trans ‹_› (Eq.symm ‹_›)
    · cases hm
      exact absurd (shelf.valid n _ hn) (Nat.lt_irrefl _)
    · cases hn
      exact absurd (shelf.valid m _ hm) (Nat.lt_irrefl _)
    · exact shelf.apart m n h hm hn

theorem find?_of_erase {handles : Catalog Handle} {name n : String} {h : Handle}
    (found : (handles.erase name).find? n = some h) : handles.find? n = some h := by
  rw [Catalog.find?_erase] at found
  split at found
  · cases found
  · exact found

/-- The shelf without a name. Its session stays where it is. -/
def drop (shelf : Shelf) (name : String) : Shelf where
  sessions := shelf.sessions
  handles := shelf.handles.erase name
  valid n h found := shelf.valid n h (find?_of_erase found)
  apart m n h hm hn := shelf.apart m n h (find?_of_erase hm) (find?_of_erase hn)

/-- A session put in place of the one at a handle. -/
def put (shelf : Shelf) (h : Handle) (s : Session) : Shelf where
  sessions := shelf.sessions.set h s
  handles := shelf.handles
  valid name h' found := by
    rw [List.length_set]
    exact shelf.valid name h' found
  apart := shelf.apart

variable {shelf : Shelf} {name : String} {h : Handle} {s : Session}

theorem find?_registry (name : String) :
    shelf.registry.find? name = (shelf.handles.find? name).bind (shelf.sessions[·]?) :=
  Catalog.find?_filterMap name

/-- A name leads to the session at its handle. -/
theorem find?_registry_of_some (found : shelf.handles.find? name = some h) :
    ∃ s, shelf.sessions[h]? = some s ∧ shelf.registry.find? name = some s := by
  refine ⟨_, List.getElem?_eq_getElem (shelf.valid name h found), ?_⟩
  rw [find?_registry, found]
  exact List.getElem?_eq_getElem _

theorem find?_registry_of_none (found : shelf.handles.find? name = none) : shelf.registry.find? name = none := by
  rw [find?_registry, found]
  rfl

theorem registry_ofRegistry (r : Registry) : (ofRegistry r).registry = r := by
  apply Catalog.ext
  show (r.entries.map (·.1)).zipIdx.filterMap
    (fun entry => ((r.entries.map (·.2))[entry.2]?).map (entry.1, ·)) = r.entries
  have each : ∀ entry ∈ r.entries.zipIdx, (((r.entries.map (·.2))[entry.2]?).map (entry.1.1, ·)) = some entry.1 := by
    intro entry he
    rw [List.getElem?_map, List.mem_zipIdx_iff_getElem?.mp he]
    rfl
  rw [List.zipIdx_map, List.filterMap_map]
  exact (List.filterMap_congr each).trans ((List.filterMap_eq_map' ▸ List.zipIdx_map_fst 0 r.entries))

theorem registry_add (free : shelf.handles.find? s.name = none) :
    (shelf.add s free).registry = shelf.registry.enter s.name s (find?_registry_of_none free) := by
  apply Catalog.ext
  show (shelf.handles.entries ++ [(s.name, shelf.sessions.length)]).filterMap
      (fun entry => ((shelf.sessions ++ [s])[entry.2]?).map (entry.1, ·)) =
    shelf.handles.entries.filterMap (fun entry => (shelf.sessions[entry.2]?).map (entry.1, ·)) ++ [(s.name, s)]
  rw [List.filterMap_append]
  congr 1
  · refine List.filterMap_congr fun entry he => ?_
    rw [List.getElem?_append_left (shelf.valid _ _ (Catalog.find?_eq_some_iff.mpr he))]
  · simp

theorem registry_drop : (shelf.drop name).registry = shelf.registry.erase name := by
  apply Catalog.ext
  show (shelf.handles.entries.filter (·.1 ≠ name)).filterMap
      (fun entry => (shelf.sessions[entry.2]?).map (entry.1, ·)) =
    (shelf.handles.entries.filterMap fun entry => (shelf.sessions[entry.2]?).map (entry.1, ·)).filter (·.1 ≠ name)
  rw [List.filterMap_filter, List.filter_filterMap]
  refine List.filterMap_congr fun entry he => ?_
  cases shelf.sessions[entry.2]? <;> by_cases hn : entry.1 = name <;> simp [hn, Option.filter]

/-- A session that has a name is replaced in the registry. -/
theorem registry_put (found : shelf.handles.find? name = some h) :
    (shelf.put h s).registry = shelf.registry.replace name s := by
  apply Catalog.ext
  show shelf.handles.entries.filterMap (fun entry => ((shelf.sessions.set h s)[entry.2]?).map (entry.1, ·)) =
    (shelf.handles.entries.filterMap fun entry => (shelf.sessions[entry.2]?).map (entry.1, ·)).map
      fun entry => if entry.1 = name then (name, s) else entry
  rw [List.map_filterMap]
  refine List.filterMap_congr fun entry he => ?_
  have he := Catalog.find?_eq_some_iff.mpr he
  by_cases hn : entry.1 = name
  · have hh : entry.2 = h := Option.some.inj (he.symm.trans (hn ▸ found))
    rw [hh, List.getElem?_set_self (shelf.valid name h found), List.getElem?_eq_getElem (shelf.valid name h found)]
    simp [hn]
  · -- Two names never share a handle, so the entry of another name leads where it led.
    have hh : h ≠ entry.2 := fun hh => hn (shelf.apart _ _ h (hh ▸ he) found)
    rw [List.getElem?_set_ne hh]
    cases shelf.sessions[entry.2]? <;> simp [hn]

/-- A session that has no name is not in the registry. -/
theorem registry_put_of_unnamed (unnamed : ∀ name, shelf.handles.find? name ≠ some h) :
    (shelf.put h s).registry = shelf.registry := by
  apply Catalog.ext
  refine List.filterMap_congr fun entry he => ?_
  have hh : h ≠ entry.2 := fun hh => unnamed entry.1 (hh ▸ Catalog.find?_eq_some_iff.mpr he)
  show ((shelf.sessions.set h s)[entry.2]?).map (entry.1, ·) = _
  rw [List.getElem?_set_ne hh]

end Shelf

end CipherGraph
