import CipherGraph.Json.Tree
import CipherGraph.Proofs.Json.Token

/-! # How a value is formed

A value that `tree` finds in a text is a literal, a string or a number, or a list or an object of values found in the
same way one bracket further in. This is said once here, by the first character of the value; the proofs about other
readers of the same text take it apart. -/

namespace CipherGraph.Json.Reader
variable {α : Type} {inner : Reader α} {c c' : Cursor} {first : Bool}

/-! ### Loops -/

theorem size_of_further (h : further? first c = some c') : c'.size ≤ c.size := by
  unfold further? at h
  split at h
  · cases h
    exact c.size_skipBlanks_le
  split at h
  · cases h
    exact Nat.le_trans (Cursor.size_skipBlanks_le _) (Nat.le_trans (Cursor.size_next_le _) c.size_skipBlanks_le)
  · cases h

theorem stays_colon : Stays colon := by
  intro c a c' h
  rw [result?_colon] at h
  split at h
  · cases h
    exact Nat.le_trans (Cursor.size_next_le _) c.size_skipBlanks_le
  · cases h

theorem Items.size_le {as : List α} (h : Items inner first c as c') (advances : Advances inner) :
    c'.size ≤ c.size := by
  induction h with
  | done h =>
    obtain ⟨-, rfl⟩ := hasItem_eq_false_iff.mp h
    exact Cursor.size_skipBlanks_le _
  | item h ha _ ih =>
    have := size_of_further (hasItem_eq_true_iff.mp h).1
    have := advances _ _ _ ha
    omega

theorem Members.size_le {as : List (String × α)} (h : Members inner first c as c') (advances : Advances inner) :
    c'.size ≤ c.size := by
  induction h with
  | done h =>
    obtain ⟨-, rfl⟩ := hasKey_eq_false_iff.mp h
    exact Cursor.size_skipBlanks_le _
  | member h hk hcolon ha _ ih =>
    have := size_of_further (hasKey_eq_true_iff.mp h).1
    have := advances_key _ _ _ hk
    have := stays_colon _ _ _ hcolon
    have := advances _ _ _ ha
    omega

/-- The loop over the items ends by itself, since every item takes a character. -/
theorem items_of_itemsFrom {bound k : Nat} {read as : List α} (advances : Advances inner) (enough : c.size < bound)
    (h : result? (itemsFrom inner bound k read) c = some (as, c')) :
    ∃ rest, as = read.reverse ++ rest ∧ Items inner (k == 0) c rest c' := by
  induction bound generalizing k c read with
  | zero => omega
  | succ bound ih =>
    rw [itemsFrom, result?_bind] at h
    obtain ⟨⟨more, c₁⟩, hmore, h⟩ := Option.bind_eq_some_iff.mp h
    cases more with
    | false =>
      cases h
      exact ⟨[], by simp, .done hmore⟩
    | true =>
      simp only [↓reduceIte, result?_bind, result?_within] at h
      obtain ⟨⟨a, c₂⟩, ha, h⟩ := Option.bind_eq_some_iff.mp h
      have := size_of_further (hasItem_eq_true_iff.mp hmore).1
      have := advances _ _ _ ha
      obtain ⟨rest, rfl, hrest⟩ := ih (by dsimp only; omega) h
      exact ⟨a :: rest, by simp, .item hmore ha hrest⟩

theorem members_of_membersFrom {inner : Reader Json} {bound : Nat} {read ms : List (String × Json)}
    (advances : Advances inner) (enough : c.size < bound)
    (h : result? (membersFrom (treeMember inner) bound first read) c = some (ms, c')) :
    ∃ rest, ms.reverse = read.reverse ++ rest ∧ Members inner first c rest c' := by
  induction bound generalizing first c read with
  | zero => omega
  | succ bound ih =>
    rw [membersFrom, result?_bind, result?_within] at h
    obtain ⟨⟨more, c₁⟩, hmore, h⟩ := Option.bind_eq_some_iff.mp h
    cases more with
    | false =>
      cases h
      exact ⟨[], by simp, .done hmore⟩
    | true =>
      simp only [↓reduceIte, result?_bind, treeMember, result?_within, Option.bind_assoc] at h
      obtain ⟨⟨k, c₂⟩, hk, h⟩ := Option.bind_eq_some_iff.mp h
      obtain ⟨⟨_, c₃⟩, hcolon, h⟩ := Option.bind_eq_some_iff.mp h
      obtain ⟨⟨v, c₄⟩, hv, h⟩ := Option.bind_eq_some_iff.mp h
      have := size_of_further (hasKey_eq_true_iff.mp hmore).1
      have := advances_key _ _ _ hk
      have := stays_colon _ _ _ hcolon
      have := advances _ _ _ hv
      obtain ⟨rest, hms, hrest⟩ := ih (by dsimp only at *; omega) h
      exact ⟨(k, v) :: rest, by simpa using hms, .member hmore hk hcolon hv hrest⟩

/-! ### Values -/

/-- A value that begins with a character at a place, and the place after it. What stands inside its brackets is read by
`inner`. -/
inductive Formed (inner : Option (Reader Json)) : Char → Cursor → Json → Cursor → Prop where
  | null {c c' : Cursor} (h : result? (literal ['u', 'l', 'l']) c.next = some ((), c')) : Formed inner 'n' c .null c'
  | true {c c' : Cursor} (h : result? (literal ['r', 'u', 'e']) c.next = some ((), c')) :
    Formed inner 't' c (.bool true) c'
  | false {c c' : Cursor} (h : result? (literal ['a', 'l', 's', 'e']) c.next = some ((), c')) :
    Formed inner 'f' c (.bool false) c'
  | string {c c' : Cursor} {s : String} (h : result? string c.next = some (s, c')) :
    Formed inner '"' c (.string s) c'
  | number {ch : Char} {c c' : Cursor} {n : Number} (begins : beginsNumber ch = true)
    (h : result? number c = some (n, c')) : Formed inner ch c (.number n) c'
  | list {r : Reader Json} {c c₁ c' : Cursor} {vs : List Json} (nested : inner = some r)
    (h : Items r true c.next vs c₁) (closed : closeList c₁ = (c', none)) : Formed inner '[' c (.array vs) c'
  | object {r : Reader Json} {c c₁ c' : Cursor} {ms : List (String × Json)} (nested : inner = some r)
    (h : Members r true c.next ms c₁) (closed : closeObject c₁ = (c', none)) :
    Formed inner '\x7b' c (.object ms) c'

/-- A token after its first character. -/
theorem eq_of_token {α β : Type} {r : Reader α} {f : α → β} {b : β}
    (h : result? (do skip; let a ← r; return f a) c = some (b, c')) :
    ∃ a, result? r c.next = some (a, c') ∧ b = f a := by
  simp only [result?_bind, result?_skip, Option.bind_some] at h
  obtain ⟨⟨a, c₁⟩, ha, h⟩ := Option.bind_eq_some_iff.mp h
  cases h
  exact ⟨a, ha, rfl⟩

theorem formed_of_scalar {inner : Option (Reader Json)} {ch : Char} {v : Json}
    (h : result? (scalar ch) c = some (v, c')) : Formed inner ch c v c' := by
  unfold scalar at h
  split at h
  · next hch =>
    obtain ⟨_, token, rfl⟩ := eq_of_token h
    exact hch ▸ .null token
  split at h
  · next hch =>
    obtain ⟨_, token, rfl⟩ := eq_of_token h
    exact hch ▸ .true token
  split at h
  · next hch =>
    obtain ⟨_, token, rfl⟩ := eq_of_token h
    exact hch ▸ .false token
  split at h
  · next hch =>
    obtain ⟨_, token, rfl⟩ := eq_of_token h
    exact hch ▸ .string token
  split at h
  · next begins =>
    rw [result?_bind] at h
    obtain ⟨⟨n, c₁⟩, hn, h⟩ := Option.bind_eq_some_iff.mp h
    cases h
    exact .number begins hn
  · cases h

theorem formed_of_treeWith {inner : Option (Reader Json)} {v : Json} (advances : ∀ r ∈ inner, Advances r)
    (h : result? (treeWith inner) c = some (v, c')) :
    ∃ ch, c.skipBlanks.rest.head? = some ch ∧ Formed inner ch c.skipBlanks v c' := by
  unfold treeWith at h
  rw [result?_bind, result?_start] at h
  obtain ⟨⟨ch, c₁⟩, hstart, h⟩ := Option.bind_eq_some_iff.mp h
  obtain ⟨ch', hch, heq⟩ := Option.map_eq_some_iff.mp hstart
  cases heq
  refine ⟨ch, hch, ?_⟩
  dsimp only at h
  split at h
  · next hch =>
    subst hch
    cases inner with
    | none => cases h
    | some r =>
      rw [result?_bind] at h
      obtain ⟨⟨vs, c₁⟩, hvs, h⟩ := Option.bind_eq_some_iff.mp h
      cases h
      obtain ⟨c₁, hvs, closed⟩ := result?_enclosed_eq_some_iff.mp hvs
      obtain ⟨rest, rfl, hitems⟩ := items_of_itemsFrom (advances r rfl) (Nat.lt_succ_self _) hvs
      exact .list rfl hitems closed
  split at h
  · next hch =>
    subst hch
    cases inner with
    | none => cases h
    | some r =>
      rw [result?_bind] at h
      obtain ⟨⟨ms, c₁⟩, hms, h⟩ := Option.bind_eq_some_iff.mp h
      cases h
      obtain ⟨c₁, hms, closed⟩ := result?_enclosed_eq_some_iff.mp hms
      obtain ⟨rest, hrest, hmembers⟩ := members_of_membersFrom (advances r rfl) (Nat.lt_succ_self _) hms
      rw [hrest]
      exact .object rfl hmembers closed
  · exact formed_of_scalar h

theorem stays_literal (letters : List Char) : Stays (literal letters) := by
  induction letters with
  | nil => exact stays_pure ()
  | cons letter rest ih =>
    refine stays_peek.bind fun ch => ?_
    split
    · intro c a c' h
      cases h
    · split
      · exact stays_skip.bind fun _ => ih
      · intro c a c' h
        cases h

theorem Formed.size_lt {inner : Option (Reader Json)} {ch : Char} {v : Json} (h : Formed inner ch c v c')
    (begins : c.rest.head? = some ch) (advances : ∀ r ∈ inner, Advances r) : c'.size < c.size := by
  have next := Cursor.size_next_lt begins
  cases h with
  | null h => exact Nat.lt_of_le_of_lt (stays_literal _ _ _ _ h) next
  | true h => exact Nat.lt_of_le_of_lt (stays_literal _ _ _ _ h) next
  | false h => exact Nat.lt_of_le_of_lt (stays_literal _ _ _ _ h) next
  | string h => exact Nat.lt_trans (advances_string _ _ _ h) next
  | number _ h => exact advances_number _ _ _ h
  | @list _ _ c₁ _ _ nested h closed =>
    obtain ⟨-, rfl⟩ := closeList_eq_iff.mp closed
    have := h.size_le (advances _ nested)
    have := c₁.skipBlanks.size_next_le
    have := c₁.size_skipBlanks_le
    omega
  | @object _ _ c₁ _ _ nested h closed =>
    obtain ⟨-, rfl⟩ := closeObject_eq_iff.mp closed
    have := h.size_le (advances _ nested)
    have := c₁.skipBlanks.size_next_le
    have := c₁.size_skipBlanks_le
    omega

theorem advances_tree (depth : Nat) : Advances (tree depth) := by
  have step {inner : Option (Reader Json)} (advances : ∀ r ∈ inner, Advances r) : Advances (treeWith inner) := by
    intro c v c' h
    obtain ⟨ch, begins, formed⟩ := formed_of_treeWith advances h
    exact Nat.lt_of_lt_of_le (formed.size_lt begins advances) c.size_skipBlanks_le
  induction depth with
  | zero => exact step (by simp)
  | succ depth ih => exact step (by simpa using ih)

/-- What stands inside the brackets of a value that may be nested up to some depth. -/
def nested : Nat → Option (Reader Json)
  | 0 => none
  | depth + 1 => some (tree depth)

theorem eq_tree_of_nested {depth : Nat} {r : Reader Json} (h : nested depth = some r) : ∃ inside, r = tree inside := by
  cases depth with
  | zero => cases h
  | succ depth => exact ⟨depth, (Option.some.inj h).symm⟩

theorem advances_nested {depth : Nat} : ∀ r ∈ nested depth, Advances r := by
  cases depth with
  | zero => simp [nested]
  | succ depth => simpa [nested] using advances_tree depth

theorem formed_of_tree {depth : Nat} {v : Json} (h : result? (tree depth) c = some (v, c')) :
    ∃ ch, c.skipBlanks.rest.head? = some ch ∧ Formed (nested depth) ch c.skipBlanks v c' := by
  cases depth with
  | zero => exact formed_of_treeWith advances_nested h
  | succ depth => exact formed_of_treeWith advances_nested h

end CipherGraph.Json.Reader
