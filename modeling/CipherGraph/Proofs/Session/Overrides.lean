import CipherGraph.Proofs.Session.Sound

/-! # Overrides in a table

Overrides stand in ascending order of their lines. So no line is overridden twice, and a table that they are entered
into has the override of a line where there is one, and what it had before where there is none. -/

namespace CipherGraph

/-! ### Overrides in order -/

namespace Overrides
variable {α : Type} {line : Int64} {value : α} {lines : Overrides α}

/-- The lines are in ascending order, each of them once. -/
def Sorted (lines : Overrides α) : Prop :=
  lines.Pairwise fun entry later => entry.1 < later.1

theorem mem_insert {entry : Int64 × α} (h : entry ∈ insert line value lines) :
    entry = (line, value) ∨ entry ∈ lines := by
  induction lines with
  | nil => exact Or.inl (List.mem_singleton.mp h)
  | cons head rest ih =>
    unfold insert at h
    split at h
    · exact List.mem_cons.mp h
    · split at h
      · exact (List.mem_cons.mp h).imp_right (List.mem_cons_of_mem _)
      · rcases List.mem_cons.mp h with rfl | h
        · exact Or.inr List.mem_cons_self
        · exact (ih h).imp_right (List.mem_cons_of_mem _)

theorem Sorted.insert (h : lines.Sorted) : (insert line value lines).Sorted := by
  induction lines with
  | nil => exact List.pairwise_singleton _ _
  | cons head rest ih =>
    obtain ⟨first, sorted⟩ := List.pairwise_cons.mp h
    unfold Overrides.insert
    split
    · next before =>
      have later : ∀ entry ∈ head :: rest, line < entry.1 := by
        intro entry he
        rcases List.mem_cons.mp he with rfl | he
        · exact before
        · exact Int64.lt_trans before (first entry he)
      exact List.pairwise_cons.mpr ⟨later, h⟩
    · split
      · next same =>
        subst same
        exact List.pairwise_cons.mpr ⟨first, sorted⟩
      · next before other =>
        have after : head.1 < line := Int64.lt_of_le_of_ne (Int64.not_lt.mp before) (Ne.symm other)
        refine List.pairwise_cons.mpr ⟨fun entry he => ?_, ih sorted⟩
        rcases mem_insert he with rfl | he
        · exact after
        · exact first entry he

theorem sorted_ofList (entries : List (Int64 × α)) : (ofList entries).Sorted :=
  List.foldlRecOn entries _ List.Pairwise.nil fun _ sorted _ _ => sorted.insert

theorem mem_of_mem_ofList {entries : List (Int64 × α)} {entry : Int64 × α} (h : entry ∈ ofList entries) :
    entry ∈ entries := by
  refine List.foldlRecOn (motive := fun sorted => ∀ entry ∈ sorted, entry ∈ entries) entries _
    (List.forall_mem_nil _) (fun sorted kept last hlast entry he => ?_) entry h
  rcases mem_insert he with rfl | he
  · exact hlast
  · exact kept entry he

theorem lookup_cons (entry : Int64 × α) (rest : Overrides α) (l : Int64) :
    List.lookup l (entry :: rest) = if l = entry.1 then some entry.2 else rest.lookup l := by
  rw [List.lookup_cons]
  split
  · next same => rw [if_pos (eq_of_beq same)]
  · next other => rw [if_neg (ne_of_beq_false other)]

/-- What stands behind an override is for other lines. -/
theorem Sorted.lookup_rest {entry : Int64 × α} (h : Sorted (entry :: lines)) : lines.lookup entry.1 = none := by
  refine List.lookup_eq_none_iff.mpr fun later hl => ?_
  have before : entry.1 < later.1 := (List.pairwise_cons.mp h).1 later hl
  exact bne_iff_ne.mpr (Int64.ne_of_lt before)

end Overrides

/-! ### Tables -/

namespace ProgramTable

theorem lookup_put (line : Int64) (p : Program) (entries : List (Int64 × Program)) (l : Int64) :
    (put line p entries).lookup l = if l = line then some p else entries.lookup l := by
  induction entries with
  | nil => exact Overrides.lookup_cons (line, p) [] l
  | cons entry rest ih =>
    obtain ⟨m, q⟩ := entry
    unfold put
    split
    · next here =>
      subst here
      rw [Overrides.lookup_cons, Overrides.lookup_cons]
      split <;> rfl
    · next other =>
      rw [Overrides.lookup_cons, Overrides.lookup_cons, ih]
      by_cases same : l = m
      · subst same
        rw [if_pos rfl, if_pos rfl, if_neg other]
      · rw [if_neg same, if_neg same]

theorem entry?_withLine (t : ProgramTable) (line : Int64) (p : Program) (l : Int64) :
    entry? (t.withLine line p) l = if l = line then some p else t.entry? l :=
  lookup_put line p t.entries l

/-- Overrides that are entered into a table stand in place of what it had for their lines. -/
theorem entry?_withLines {lines : Overrides Program} (sorted : lines.Sorted) (t : ProgramTable) (l : Int64) :
    entry? (lines.foldl (fun t entry => t.withLine entry.1 entry.2) t) l = (lines.lookup l).or (t.entry? l) := by
  induction lines generalizing t with
  | nil => rfl
  | cons entry rest ih =>
    rw [List.foldl_cons, ih (List.pairwise_cons.mp sorted).2, entry?_withLine, Overrides.lookup_cons]
    by_cases same : l = entry.1
    · -- The rest has nothing for this line, so that its entry is not replaced later.
      rw [if_pos same, if_pos same, same, sorted.lookup_rest]
      rfl
    · rw [if_neg same, if_neg same]

theorem resolve_withLines {lines : Overrides Program} (sorted : lines.Sorted) (t : ProgramTable) (l : Int64) :
    (lines.foldl (fun t entry => t.withLine entry.1 entry.2) t).resolve l = (lines.lookup l).getD (t.resolve l) := by
  unfold resolve
  rw [entry?_withLines sorted, fallback_withLines]
  cases lines.lookup l <;> rfl

end ProgramTable

end CipherGraph
