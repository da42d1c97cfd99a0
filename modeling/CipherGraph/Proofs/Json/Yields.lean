import CipherGraph.Proofs.Json.Agreement
import CipherGraph.Proofs.Json.Short

/-! # What every value that is read has in common

A reader yields values with some property if it finds no others, whatever the text, as long as that is not too long. A
record is put together part by part, so what every part keeps holds of the whole. Readers do not go back in the text, so
what is left of it is never too long. -/

namespace CipherGraph.Json.Reader
variable {α β σ : Type} {r : Reader α}

/-! ### Readers that never go back -/

theorem stays_of_fails (h : ∀ c, result? r c = none) : Stays r := by
  intro c a c' found
  rw [h] at found
  cases found

theorem stays_skipBlanks : Stays skipBlanks := by
  intro c u c' found
  cases found
  exact c.size_skipBlanks_le

theorem stays_start : Stays start := by
  intro c ch c' found
  rw [result?_start] at found
  obtain ⟨_, -, same⟩ := Option.map_eq_some_iff.mp found
  cases same
  exact c.size_skipBlanks_le

theorem stays_hasItem (first : Bool) : Stays (hasItem first) := by
  intro c more c' found
  cases more with
  | false =>
    obtain ⟨-, rfl⟩ := hasItem_eq_false_iff.mp found
    exact c.size_skipBlanks_le
  | true => exact size_of_further (hasItem_eq_true_iff.mp found).1

theorem stays_hasKey (first : Bool) : Stays (hasKey first) := by
  intro c more c' found
  cases more with
  | false =>
    obtain ⟨-, rfl⟩ := hasKey_eq_false_iff.mp found
    exact c.size_skipBlanks_le
  | true => exact size_of_further (hasKey_eq_true_iff.mp found).1

theorem Stays.within (h : Stays r) (segment : Segment) : Stays (within segment r) := by
  intro c a c' found
  rw [result?_within] at found
  exact h c a c' found

theorem stays_text : Stays text := by
  refine stays_start.bind fun ch => ?_
  split
  · exact stays_skip.bind fun _ => advances_string.stays
  · exact stays_of_fails fun _ => result?_mismatch ch _

/-! ### Values that are not kept -/

theorem stays_skipStringFrom (bound : Nat) : Stays (skipStringFrom bound) := by
  induction bound with
  | zero => exact stays_pure ()
  | succ bound ih =>
    refine advances_skipPiece.stays.bind fun more => ?_
    cases more with
    | false => exact stays_pure ()
    | true => exact ih

theorem stays_skipString : Stays skipString :=
  fun c => stays_skipStringFrom (c.size + 1) c

theorem stays_skipKey : Stays skipKey := by
  refine stays_skipBlanks.bind fun _ => stays_peek.bind fun ch => ?_
  cases ch with
  | none => exact stays_of_fails fun _ => rfl
  | some ch =>
    dsimp only
    split
    · exact stays_skip.bind fun _ => stays_skipString.bind fun _ => stays_colon
    · exact stays_of_fails fun _ => rfl

theorem stays_scalar (ch : Char) : Stays (scalar ch) := by
  have word (letters : List Char) (v : Json) : Stays (do skip; literal letters; return v) :=
    stays_skip.bind fun _ => (stays_literal letters).bind fun _ => stays_pure v
  unfold scalar
  split
  · exact word _ _
  split
  · exact word _ _
  split
  · exact word _ _
  split
  · exact stays_skip.bind fun _ => advances_string.stays.bind fun s => stays_pure _
  split
  · exact advances_number.stays.bind fun n => stays_pure _
  · exact stays_of_fails fun _ => rfl

theorem stays_skipScalar (ch : Char) : Stays (skipScalar ch) := by
  unfold skipScalar
  split
  · exact stays_skip.bind fun _ => stays_skipString
  split
  · exact (advances_numberText _).stays.bind fun _ => stays_pure ()
  · exact (stays_scalar ch).bind fun _ => stays_pure ()

theorem stays_closeBrackets (comma : Bool) (outer : List Bracket) : Stays (closeBrackets comma outer) := by
  induction outer generalizing comma with
  | nil => exact stays_pure []
  | cons b outer ih =>
    refine stays_skipBlanks.bind fun _ => stays_peek.bind fun ch => ?_
    cases ch with
    | none => exact stays_of_fails fun _ => rfl
    | some ch =>
      dsimp only
      split
      · exact stays_skip.bind fun _ => stays_pure _
      split
      · exact stays_skip.bind fun _ => ih true
      split
      · exact stays_of_fails fun _ => rfl
      · exact stays_pure _

theorem stays_ignoreFrom (bound : Nat) (outer : List Bracket) : Stays (ignoreFrom bound outer) := by
  induction bound generalizing outer with
  | zero => exact stays_pure ()
  | succ bound ih =>
    have goOn (comma : Bool) (outer : List Bracket) : Stays (goOn bound comma outer) := by
      refine (stays_closeBrackets comma outer).bind fun left => ?_
      match left with
      | [] => exact stays_pure ()
      | .list :: _ => exact ih _
      | .object :: _ => exact stays_skipKey.bind fun _ => ih _
    rw [ignoreFrom_succ]
    refine stays_start.bind fun ch => ?_
    split
    · exact stays_skip.bind fun _ => goOn _ _
    split
    · exact stays_skip.bind fun _ => goOn _ _
    · exact (stays_skipScalar ch).bind fun _ => goOn _ _

theorem stays_ignore : Stays ignore :=
  fun c => stays_ignoreFrom (c.size + 1) [] c

/-! ### Values with a property -/

/-- Every value that the reader finds in a text of at most `n` characters has a property, and no more than `n` are left
after it. -/
def Yields (n : Nat) (r : Reader α) (P : α → Prop) : Prop :=
  ∀ c a c', c.size ≤ n → result? r c = some (a, c') → c'.size ≤ n ∧ P a

section Yields
variable {n : Nat} {P : α → Prop} {I : σ → Prop}

theorem Stays.yields (h : Stays r) : Yields n r fun _ => True :=
  fun c a c' enough found => ⟨Nat.le_trans (h c a c' found) enough, trivial⟩

theorem yields_of_fails (h : ∀ c, result? r c = none) : Yields n r P := by
  intro c a c' _ found
  rw [h] at found
  cases found

theorem yields_pure {a : α} (h : P a) : Yields n (pure a) P := by
  intro c b c' enough found
  cases found
  exact ⟨enough, h⟩

theorem Yields.bind {f : α → Reader β} {Q : β → Prop} (h : Yields n r P) (hf : ∀ a, P a → Yields n (f a) Q) :
    Yields n (r >>= f) Q := by
  intro c b c' enough found
  rw [result?_bind] at found
  obtain ⟨⟨a, c₁⟩, first, rest⟩ := Option.bind_eq_some_iff.mp found
  obtain ⟨left, ha⟩ := h c a c₁ enough first
  exact hf a ha c₁ b c' left rest

/-- Where nothing is known of the first value, the rest has to do. -/
theorem Stays.bind_yields {f : α → Reader β} {Q : β → Prop} (h : Stays r) (hf : ∀ a, Yields n (f a) Q) :
    Yields n (r >>= f) Q :=
  h.yields.bind fun a _ => hf a

theorem Yields.map {Q : β → Prop} {f : α → β} (h : Yields n r P) (hf : ∀ a, P a → Q (f a)) : Yields n (f <$> r) Q := by
  rw [← bind_pure_comp]
  exact h.bind fun a ha => yields_pure (hf a ha)

theorem Yields.within (h : Yields n r P) (segment : Segment) : Yields n (within segment r) P := by
  intro c a c' enough found
  rw [result?_within] at found
  exact h c a c' enough found

/-- A closing step does not go back. -/
def Closing.Stays (closing : Closing) : Prop :=
  ∀ c c', closing c = (c', none) → c'.size ≤ c.size

theorem stays_closeList : Closing.Stays closeList := by
  intro c c' closed
  obtain ⟨-, rfl⟩ := closeList_eq_iff.mp closed
  exact Nat.le_trans c.skipBlanks.size_next_le c.size_skipBlanks_le

theorem stays_closeObject : Closing.Stays closeObject := by
  intro c c' closed
  obtain ⟨-, rfl⟩ := closeObject_eq_iff.mp closed
  exact Nat.le_trans c.skipBlanks.size_next_le c.size_skipBlanks_le

theorem Yields.enclosed (h : Yields n r P) {closing : Closing} (stays : closing.Stays) :
    Yields n (enclosed r closing) P := by
  intro c a c' enough found
  obtain ⟨c₁, inside, closed⟩ := result?_enclosed_eq_some_iff.mp found
  obtain ⟨left, ha⟩ := h c.next a c₁ (Nat.le_trans c.size_next_le enough) inside
  exact ⟨Nat.le_trans (stays c₁ c' closed) left, ha⟩

/-! ### Members and records -/

section Records
variable {member : σ → Reader σ} {record : Record σ (Step σ) α} {s : σ}

/-- What every member keeps, all of them keep. -/
theorem yields_membersFrom (keeps : ∀ s, I s → Yields n (member s) I) (bound : Nat) (first : Bool) (h : I s) :
    Yields n (membersFrom member bound first s) I := by
  induction bound generalizing first s with
  | zero => exact yields_pure h
  | succ bound ih =>
    refine ((stays_hasKey first).within _).bind_yields fun more => ?_
    split
    · exact (keeps s h).bind fun s' h' => ih false h'
    · exact yields_pure h

theorem yields_members (keeps : ∀ s, I s → Yields n (member s) I) (h : I s) : Yields n (members member s) I :=
  fun c => yields_membersFrom keeps (c.size + 1) true h c

theorem yields_recordMember (keeps : ∀ f ∈ record.fields, ∀ s, I s → Yields n (f.step s) I) (h : I s) :
    Yields n (recordMember record s) I := by
  refine advances_key.stays.bind_yields fun k => ?_
  cases known : record.field? k with
  | none => exact stays_colon.bind_yields fun _ => (stays_ignore.within _).bind_yields fun _ => yields_pure h
  | some f =>
    have field : f ∈ record.fields := List.mem_of_find?_eq_some known
    dsimp only
    split
    · exact yields_of_fails fun _ => rfl
    · exact stays_colon.bind_yields fun _ => (keeps f field s h).within _

theorem yields_recordItems (fields : List (Field σ (Step σ)))
    (keeps : ∀ f ∈ fields, ∀ s, I s → Yields n (f.step s) I) (k : Nat) (h : I s) :
    Yields n (recordItems record k fields s) I := by
  induction fields generalizing k s with
  | nil => exact yields_pure h
  | cons f rest ih =>
    obtain ⟨first, others⟩ := List.forall_mem_cons.mp keeps
    refine (stays_hasItem _).bind_yields fun more => ?_
    split
    · exact ((first s h).within _).bind fun s' h' => ih others (k + 1) h'
    · split
      · exact ih others (k + 1) h
      · exact yields_of_fails fun _ => rfl

/-- What holds before anything is known of a record and is kept by every part holds of the parts of the whole. -/
theorem yields_record (keeps : ∀ f ∈ record.fields, ∀ s, I s → Yields n (f.step s) I) (blank : I record.blank)
    (finish : ∀ s, I s → P (record.finish s)) : Yields n (Reader.record record) P := by
  refine stays_start.bind_yields fun ch => ?_
  split
  · have object : Yields n (members (recordMember record) record.blank) I :=
      yields_members (fun _ => yields_recordMember keeps) blank
    refine (object.bind fun s h => ?_).enclosed stays_closeObject
    unfold recordDone
    split
    · exact yields_of_fails fun _ => rfl
    · exact yields_pure (finish s h)
  split
  · have list : Yields n (recordItems record 0 record.fields record.blank) I := yields_recordItems _ keeps 0 blank
    exact (list.map finish).enclosed stays_closeList
  · exact yields_of_fails fun _ => result?_mismatch ch _

end Records

/-- A value in canonical form has no list that is longer than its text. -/
theorem yields_value (depth : Nat) : Yields n (value depth) (Short n) := by
  refine Yields.bind (P := Short n) (fun c v c' enough found => ?_) fun v short => yields_pure short.canonical
  exact ⟨Nat.le_trans ((advances_tree depth).stays c v c' found) enough, (short_of_tree found).mono enough⟩

theorem Yields.of_document {t : String} {a : α} (h : Yields t.length r P) (read : document r t = .ok a) : P a := by
  obtain ⟨c, found, -⟩ := document_eq_ok_iff.mp read
  exact (h _ a c (Nat.le_of_eq rfl) found).2

end Yields

end CipherGraph.Json.Reader
