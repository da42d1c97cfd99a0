import CipherGraph.Proofs.Json.Formed

/-! # Going past a value

Where a text holds a value, `ignore` goes past it and stops at the same place. It reads less closely than `tree`: it
does not look whether the halves of surrogate pairs fit or whether a number is in range. And where `tree` calls itself
for what stands inside brackets, `ignore` keeps the open brackets on a stack, so the two are compared bracket by
bracket: what `tree` reads as one value is a number of rounds of `ignoreFrom`, after which the stack is as before. -/

namespace CipherGraph.Json.Reader
variable {c c' : Cursor}

/-! ### Strings and numbers -/

theorem result?_skipPiece : result? skipPiece c = c.rest.head?.bind fun ch =>
    if ch = '"' then some (false, c.next)
    else if ch = '\\' then
      (result? (escape (do let _ ← hexEscape; return ' ')) c.next).map fun x => (true, x.2)
    else if ch.toNat < 0x20 then none
    else some (true, c.next) := by
  unfold skipPiece
  simp only [result?_bind, result?_peek, Option.bind_some]
  cases c.rest.head? with
  | none => rfl
  | some ch =>
    simp only [Option.bind_some]
    repeat' split
    all_goals simp [Option.map_eq_bind]

/-- A hexadecimal escape of a string, its backslash being next. -/
theorem skipPiece_of_hexCode {n : Nat} (backslash : c.rest.head? = some '\\') (u : c.next.rest.head? = some 'u')
    (h : hexCode? c.next.next.rest = some n) :
    result? skipPiece c = some (true, c.next.next.next.next.next.next) := by
  rw [result?_skipPiece, backslash, Option.bind_some, if_neg (by decide), if_pos rfl, result?_escape, u]
  show Option.map _ (result? (do let _ ← hexEscape; return ' ') c.next.next) = _
  simp [result?_hexEscape, h]

theorem advances_skipPiece : Advances skipPiece := by
  intro c more c' h
  rw [result?_skipPiece] at h
  obtain ⟨ch, hch, h⟩ := Option.bind_eq_some_iff.mp h
  have next := Cursor.size_next_lt hch
  split at h
  · cases h
    exact next
  split at h
  · obtain ⟨⟨m, c₁⟩, hm, h⟩ := Option.map_eq_some_iff.mp h
    cases h
    exact Nat.lt_trans (advances_escape (advances_hexEscape.bind fun _ => stays_pure _) _ _ _ hm) next
  split at h
  · cases h
  · cases h
    exact next

theorem eq_of_secondEscape {n : Nat} (h : result? (do pairMark '\\'; pairMark 'u'; hexEscape) c = some (n, c')) :
    c.rest.head? = some '\\' ∧ c.next.rest.head? = some 'u' ∧ hexCode? c.next.next.rest = some n ∧
      c' = c.next.next.next.next.next.next := by
  simp only [result?_bind, result?_pairMark, result?_hexEscape] at h
  split at h
  · next backslash =>
    rw [Option.bind_some] at h
    split at h
    · next u =>
      obtain ⟨_, hn, h⟩ := Option.map_eq_some_iff.mp h
      cases h
      exact ⟨backslash, u, hn, rfl⟩
    · cases h
  · cases h

/-- A code is one piece, or two if it is a surrogate pair. -/
theorem skipPiece_of_unicodeEscape {ch : Char} (backslash : c.rest.head? = some '\\')
    (u : c.next.rest.head? = some 'u') (h : result? unicodeEscape c.next.next = some (ch, c')) :
    result? skipPiece c = some (true, c') ∨
      ∃ c₁, c₁.size < c.size ∧ result? skipPiece c = some (true, c₁) ∧ result? skipPiece c₁ = some (true, c') := by
  rw [result?_unicodeEscape] at h
  obtain ⟨high, hhigh, h⟩ := Option.bind_eq_some_iff.mp h
  have first := skipPiece_of_hexCode backslash u hhigh
  split at h
  · cases h
  split at h
  · obtain ⟨⟨low, c₂⟩, hlow, h⟩ := Option.bind_eq_some_iff.mp h
    obtain ⟨backslash', u', code, rfl⟩ := eq_of_secondEscape hlow
    split at h
    · simp only [Option.some.injEq, Prod.mk.injEq] at h
      obtain ⟨-, rfl⟩ := h
      exact Or.inr ⟨_, advances_skipPiece _ _ _ first, first, skipPiece_of_hexCode backslash' u' code⟩
    · cases h
  · left
    cases h
    exact first

/-- A character of a string is one piece, or the two halves of a surrogate pair. -/
theorem skipPiece_of_stringPiece {piece : Option Char} (h : result? stringPiece c = some (piece, c')) :
    result? skipPiece c = some (piece.isSome, c') ∨
      ∃ c₁, c₁.size < c.size ∧ result? skipPiece c = some (true, c₁) ∧ result? skipPiece c₁ = some (true, c') ∧
        piece.isSome := by
  rw [result?_stringPiece] at h
  obtain ⟨ch, hch, h⟩ := Option.bind_eq_some_iff.mp h
  split at h
  · next quote =>
    left
    cases h
    rw [result?_skipPiece, hch, Option.bind_some, if_pos quote]
    rfl
  split at h
  · next other backslash =>
    obtain ⟨⟨m, c₁⟩, hm, h⟩ := Option.map_eq_some_iff.mp h
    cases h
    rw [result?_escape] at hm
    obtain ⟨mark, hmark, hm⟩ := Option.bind_eq_some_iff.mp hm
    split at hm
    · next meant simple =>
      left
      cases hm
      rw [result?_skipPiece, hch, Option.bind_some, if_neg other, if_pos backslash, result?_escape, hmark,
        Option.bind_some, simple]
      rfl
    split at hm
    · next hu =>
      subst hu backslash
      refine (skipPiece_of_unicodeEscape hch hmark hm).imp id fun ⟨c₂, shorter, half, rest⟩ => ?_
      exact ⟨c₂, shorter, half, rest, rfl⟩
    · cases hm
  split at h
  · cases h
  · next other other' printable =>
    left
    cases h
    rw [result?_skipPiece, hch, Option.bind_some, if_neg other, if_neg other', if_neg printable]
    rfl

theorem skipStringFrom_of_stringFrom {bound bound' : Nat} {read : List Char} {s : String}
    (h : result? (stringFrom bound read) c = some (s, c')) (enough : c.size < bound) (enough' : c.size < bound') :
    result? (skipStringFrom bound') c = some ((), c') := by
  induction bound generalizing c read bound' with
  | zero => omega
  | succ bound ih =>
    obtain ⟨bound', rfl⟩ := Nat.exists_eq_succ_of_ne_zero (Nat.ne_zero_of_lt enough')
    rw [stringFrom, result?_bind] at h
    obtain ⟨⟨piece, c₁⟩, hpiece, h⟩ := Option.bind_eq_some_iff.mp h
    have shorter : c₁.size < c.size := advances_stringPiece _ _ _ hpiece
    rw [skipStringFrom, result?_bind]
    rcases skipPiece_of_stringPiece hpiece with skipped | ⟨c₂, shorter', half, rest, more⟩
    · rw [skipped, Option.bind_some]
      cases piece with
      | none => cases h; rfl
      | some ch => exact ih h (by dsimp only; omega) (by dsimp only; omega)
    · obtain ⟨ch, rfl⟩ := Option.isSome_iff_exists.mp more
      -- The second half of the pair is a piece of its own, for which another round is needed.
      have := advances_skipPiece _ _ _ rest
      obtain ⟨bound', rfl⟩ := Nat.exists_eq_succ_of_ne_zero (n := bound') (by omega)
      rw [half, Option.bind_some]
      simp only [↓reduceIte]
      rw [skipStringFrom, result?_bind, rest, Option.bind_some]
      exact ih h (by dsimp only; omega) (by dsimp only; omega)

theorem skipString_of_string {s : String} (h : result? string c = some (s, c')) :
    result? skipString c = some ((), c') :=
  skipStringFrom_of_stringFrom (result?_string ▸ h) (Nat.lt_succ_self _) (Nat.lt_succ_self _)

theorem skipNumber_of_number {n : Number} (h : result? number c = some (n, c')) :
    result? skipNumber c = some ((), c') := by
  rw [result?_number, result?_numberText .endInValue .invalidNumber] at h
  obtain ⟨⟨t, c₁⟩, ht, h⟩ := Option.bind_eq_some_iff.mp h
  obtain ⟨_, -, h⟩ := Option.map_eq_some_iff.mp h
  cases h
  unfold skipNumber
  simp [ht]

/-! ### Brackets -/

/-- What `ignoreFrom` does after a value or an opening bracket. -/
def goOn (bound : Nat) (comma : Bool) (outer : List Bracket) : Reader Unit := do
  let left ← closeBrackets comma outer
  match left with
  | [] => return ()
  | .list :: _ => ignoreFrom bound left
  | .object :: _ =>
    skipKey
    ignoreFrom bound left

theorem ignoreFrom_succ (bound : Nat) (outer : List Bracket) : ignoreFrom (bound + 1) outer = (do
    let ch ← start
    if ch = '[' then
      skip
      goOn bound false (.list :: outer)
    else if ch = '\x7b' then
      skip
      goOn bound false (.object :: outer)
    else
      skipScalar ch
      goOn bound true outer) := by
  rfl

theorem result?_closeBrackets (comma : Bool) (b : Bracket) (outer : List Bracket) :
    result? (closeBrackets comma (b :: outer)) c = c.skipBlanks.rest.head?.bind fun ch =>
      if comma ∧ ch = ',' then some (b :: outer, c.skipBlanks.next)
      else if ch = b.closing then result? (closeBrackets true outer) c.skipBlanks.next
      else if comma then none
      else some (b :: outer, c.skipBlanks) := by
  rw [closeBrackets]
  simp only [result?_bind, result?_skipBlanks, result?_peek, Option.bind_some]
  cases c.skipBlanks.rest.head? with
  | none => rfl
  | some ch =>
    simp only [Option.bind_some]
    repeat' split
    all_goals simp

theorem result?_goOn (bound : Nat) (comma : Bool) (outer : List Bracket) :
    result? (goOn bound comma outer) c = (result? (closeBrackets comma outer) c).bind fun x =>
      match x.1 with
      | [] => some ((), x.2)
      | .list :: _ => result? (ignoreFrom bound x.1) x.2
      | .object :: _ => (result? skipKey x.2).bind fun y => result? (ignoreFrom bound x.1) y.2 := by
  rw [goOn, result?_bind]
  congr 1
  funext x
  split <;> simp

/-- A closing bracket ends the list or object that is innermost. -/
theorem goOn_of_closing {b : Bracket} (closing : c.skipBlanks.rest.head? = some b.closing) (bound : Nat)
    (comma : Bool) (outer : List Bracket) :
    result? (goOn bound comma (b :: outer)) c = result? (goOn bound true outer) c.skipBlanks.next := by
  have other : ¬(comma ∧ b.closing = ',') := by cases b <;> simp [Bracket.closing]
  rw [result?_goOn, result?_goOn, result?_closeBrackets, closing, Option.bind_some, if_neg other, if_pos rfl]

/-- Where a further item or key begins, the brackets stay as they are. -/
theorem closeBrackets_of_further {first : Bool} {b : Bracket} {c₁ : Cursor} {ch : Char} (h : further? first c = some c₁)
    (begins : c₁.rest.head? = some ch) (other : ch ≠ b.closing) (outer : List Bracket) :
    ∃ c₂, c₂.skipBlanks = c₁ ∧ result? (closeBrackets (!first) (b :: outer)) c = some (b :: outer, c₂) := by
  unfold further? at h
  rw [result?_closeBrackets]
  cases first with
  | true =>
    cases h
    exact ⟨c.skipBlanks, c.skipBlanks_skipBlanks, by simp [begins, other]⟩
  | false =>
    rw [if_neg Bool.false_ne_true] at h
    split at h
    · next comma =>
      cases h
      exact ⟨c.skipBlanks.next, rfl, by simp [comma]⟩
    · cases h

/-- A round of `ignoreFrom` starts after the blanks in front of a value. -/
theorem result?_ignoreFrom_skipBlanks (bound : Nat) (outer : List Bracket) :
    result? (ignoreFrom (bound + 1) outer) c.skipBlanks = result? (ignoreFrom (bound + 1) outer) c := by
  rw [ignoreFrom_succ, result?_bind, result?_bind, result?_start, result?_start, Cursor.skipBlanks_skipBlanks]

theorem skipKey_of_key {k : String} {c₁ : Cursor} (quote : c.skipBlanks.rest.head? = some '"')
    (hk : result? key c.skipBlanks = some (k, c₁)) (hcolon : result? colon c₁ = some ((), c')) :
    result? skipKey c = some ((), c') := by
  rw [result?_key] at hk
  unfold skipKey
  simp only [result?_bind, result?_skipBlanks, result?_peek, Option.bind_some, quote, ↓reduceIte, result?_skip,
    skipString_of_string hk, hcolon]

/-- Where `r` reads a value, some rounds of `ignoreFrom` go past it, at most one for each of its characters. -/
def Skips (r : Reader Json) : Prop :=
  ∀ c v c', result? r c = some (v, c') → ∃ k, k + c'.size < c.size ∧ ∀ bound outer,
    result? (ignoreFrom (bound + k + 1) outer) c = result? (goOn bound true outer) c'

theorem Items.skips {r : Reader Json} {first : Bool} {vs : List Json} {c₁ : Cursor} (h : Items r first c vs c₁)
    (closed : closeList c₁ = (c', none)) (skips : Skips r) : ∃ k, k + c'.size < c.size ∧ ∀ bound outer,
      result? (goOn (bound + k) (!first) (.list :: outer)) c = result? (goOn bound true outer) c' := by
  induction h with
  | @done first c c₁ h =>
    obtain ⟨bracket, rfl⟩ := hasItem_eq_false_iff.mp h
    obtain ⟨-, rfl⟩ := closeList_eq_iff.mp closed
    rw [Cursor.skipBlanks_skipBlanks]
    have := Cursor.size_next_lt bracket
    have := c.size_skipBlanks_le
    exact ⟨0, by omega, fun bound outer => goOn_of_closing bracket _ _ _⟩
  | @item first c c₁ c₂ c₃ a rest h ha _ ih =>
    obtain ⟨further, ch, begins, other⟩ := hasItem_eq_true_iff.mp h
    obtain ⟨k, hk, item⟩ := skips _ _ _ ha
    obtain ⟨l, hl, items⟩ := ih closed
    have := size_of_further further
    refine ⟨l + k + 1, by omega, fun bound outer => ?_⟩
    obtain ⟨c₄, rfl, left⟩ := closeBrackets_of_further further begins (b := .list) other outer
    rw [result?_goOn, left, Option.bind_some, show bound + (l + k + 1) = bound + l + k + 1 by omega]
    show result? (ignoreFrom (bound + l + k + 1) _) c₄ = _
    rw [← result?_ignoreFrom_skipBlanks, item, ← items]
    rfl

theorem Members.skips {r : Reader Json} {first : Bool} {ms : List (String × Json)} {c₁ : Cursor}
    (h : Members r first c ms c₁) (closed : closeObject c₁ = (c', none)) (skips : Skips r) :
    ∃ k, k + c'.size < c.size ∧ ∀ bound outer,
      result? (goOn (bound + k) (!first) (.object :: outer)) c = result? (goOn bound true outer) c' := by
  induction h with
  | @done first c c₁ h =>
    obtain ⟨bracket, rfl⟩ := hasKey_eq_false_iff.mp h
    obtain ⟨-, rfl⟩ := closeObject_eq_iff.mp closed
    rw [Cursor.skipBlanks_skipBlanks]
    have := Cursor.size_next_lt bracket
    have := c.size_skipBlanks_le
    exact ⟨0, by omega, fun bound outer => goOn_of_closing bracket _ _ _⟩
  | @member first c c₁ c₂ c₃ c₄ c₅ key v rest h hkey hcolon hv _ ih =>
    obtain ⟨further, quote⟩ := hasKey_eq_true_iff.mp h
    obtain ⟨k, hk, value⟩ := skips _ _ _ hv
    obtain ⟨l, hl, members⟩ := ih closed
    have := size_of_further further
    have := advances_key _ _ _ hkey
    have := stays_colon _ _ _ hcolon
    refine ⟨l + k + 1, by omega, fun bound outer => ?_⟩
    obtain ⟨c₆, rfl, left⟩ := closeBrackets_of_further further quote (b := .object) (by decide) outer
    rw [result?_goOn, left, Option.bind_some, show bound + (l + k + 1) = bound + l + k + 1 by omega]
    show ((result? skipKey c₆).bind fun y => result? (ignoreFrom (bound + l + k + 1) _) y.2) = _
    rw [skipKey_of_key quote hkey hcolon, Option.bind_some, value, ← members]
    rfl

/-- One round goes past a value without brackets. -/
theorem ignoreFrom_of_skipScalar {ch : Char} (begins : c.skipBlanks.rest.head? = some ch) (list : ch ≠ '[')
    (object : ch ≠ '\x7b') (h : result? (skipScalar ch) c.skipBlanks = some ((), c')) (bound : Nat)
    (outer : List Bracket) : result? (ignoreFrom (bound + 1) outer) c = result? (goOn bound true outer) c' := by
  rw [ignoreFrom_succ, result?_bind, result?_start, begins]
  simp [list, object, h]

theorem skipScalar_of_scalar {ch : Char} {v : Json} (quote : ch ≠ '"') (digit : beginsNumber ch = false)
    (h : result? (scalar ch) c = some (v, c')) : result? (skipScalar ch) c = some ((), c') := by
  unfold skipScalar
  simp [quote, digit, h]

theorem skips_tree (depth : Nat) : Skips (tree depth) := by
  have step {depth : Nat} (inside : ∀ r ∈ nested depth, Skips r) : Skips (tree depth) := by
    intro c v c' h
    have shorter := advances_tree depth c v c' h
    obtain ⟨ch, begins, formed⟩ := formed_of_tree h
    have next := Cursor.size_next_lt begins
    have := c.size_skipBlanks_le
    cases formed with
    | list nested items closed =>
      obtain ⟨k, hk, rounds⟩ := items.skips closed (inside _ nested)
      refine ⟨k, by omega, fun bound outer => ?_⟩
      rw [ignoreFrom_succ, result?_bind, result?_start, begins, ← rounds]
      simp
    | object nested members closed =>
      obtain ⟨k, hk, rounds⟩ := members.skips closed (inside _ nested)
      refine ⟨k, by omega, fun bound outer => ?_⟩
      rw [ignoreFrom_succ, result?_bind, result?_start, begins, ← rounds]
      simp
    | null h =>
      refine ⟨0, by omega, ignoreFrom_of_skipScalar begins (by decide) (by decide) ?_⟩
      exact skipScalar_of_scalar (v := .null) (by decide) (by decide) (by simp [scalar, h])
    | true h =>
      refine ⟨0, by omega, ignoreFrom_of_skipScalar begins (by decide) (by decide) ?_⟩
      exact skipScalar_of_scalar (v := .bool true) (by decide) (by decide) (by simp [scalar, h])
    | false h =>
      refine ⟨0, by omega, ignoreFrom_of_skipScalar begins (by decide) (by decide) ?_⟩
      exact skipScalar_of_scalar (v := .bool false) (by decide) (by decide) (by simp [scalar, h])
    | string h =>
      refine ⟨0, by omega, ignoreFrom_of_skipScalar begins (by decide) (by decide) ?_⟩
      simp [skipScalar, skipString_of_string h]
    | number digit h =>
      have quote : ch ≠ '"' := by rintro rfl; cases digit
      refine ⟨0, by omega, ignoreFrom_of_skipScalar begins ?_ ?_ ?_⟩
      · rintro rfl; cases digit
      · rintro rfl; cases digit
      · simp [skipScalar, quote, digit, skipNumber_of_number h]
  induction depth with
  | zero => exact step (by simp [nested])
  | succ depth ih => exact step (by simpa [nested] using ih)

/-- Where a value stands in a text, `ignore` goes past it. -/
theorem ignore_of_tree {depth : Nat} {v : Json} (h : result? (tree depth) c = some (v, c')) :
    result? ignore c = some ((), c') := by
  obtain ⟨k, hk, rounds⟩ := skips_tree depth _ _ _ h
  show result? (ignoreFrom (c.size + 1) []) c = _
  rw [show c.size + 1 = c.size - k + k + 1 by omega, rounds, result?_goOn]
  rfl

end CipherGraph.Json.Reader
