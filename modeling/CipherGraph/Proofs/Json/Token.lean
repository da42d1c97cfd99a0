import CipherGraph.Json.Token
import CipherGraph.Proofs.Json.Result

/-! # What the readers of literals, strings and numbers find

Each reader of a token by the text that is left, and the fact that a token takes at least one character. -/

namespace CipherGraph.Json

theorem Cursor.size_next_le (c : Cursor) : c.next.size ≤ c.size := by
  cases h : c.rest with
  | nil => rw [Cursor.eq_ofList c, h]; exact Nat.le_refl _
  | cons ch rest => have := Cursor.size_next h; omega

namespace Reader
variable {α β : Type} {c c' : Cursor}

/-! ### Readers that never go back -/

/-- Reading does not go back. -/
def Stays (r : Reader α) : Prop :=
  ∀ c a c', result? r c = some (a, c') → c'.size ≤ c.size

theorem Advances.stays {r : Reader α} (h : Advances r) : Stays r :=
  fun c a c' hr => Nat.le_of_lt (h c a c' hr)

theorem Stays.bind {r : Reader α} {f : α → Reader β} (hr : Stays r) (hf : ∀ a, Stays (f a)) : Stays (r >>= f) := by
  intro c b c' h
  rw [result?_bind] at h
  obtain ⟨⟨a, c₁⟩, h₁, h₂⟩ := Option.bind_eq_some_iff.mp h
  exact Nat.le_trans (hf a c₁ b c' h₂) (hr c a c₁ h₁)

theorem Advances.bind {r : Reader α} {f : α → Reader β} (hr : Advances r) (hf : ∀ a, Stays (f a)) :
    Advances (r >>= f) := by
  intro c b c' h
  rw [result?_bind] at h
  obtain ⟨⟨a, c₁⟩, h₁, h₂⟩ := Option.bind_eq_some_iff.mp h
  exact Nat.lt_of_le_of_lt (hf a c₁ b c' h₂) (hr c a c₁ h₁)

theorem Stays.bind_advances {r : Reader α} {f : α → Reader β} (hr : Stays r) (hf : ∀ a, Advances (f a)) :
    Advances (r >>= f) := by
  intro c b c' h
  rw [result?_bind] at h
  obtain ⟨⟨a, c₁⟩, h₁, h₂⟩ := Option.bind_eq_some_iff.mp h
  exact Nat.lt_of_lt_of_le (hf a c₁ b c' h₂) (hr c a c₁ h₁)

theorem stays_pure (a : α) : Stays (pure a : Reader α) := by
  intro c b c' h
  cases h
  exact Nat.le_refl _

theorem stays_peek : Stays peek := by
  intro c a c' h
  cases h
  exact Nat.le_refl _

theorem stays_skip : Stays skip := by
  intro c a c' h
  cases h
  exact c.size_next_le

/-! ### Strings -/

/-- The number that the first four of some characters stand for, if they are hexadecimal digits. -/
def hexCode? (cs : List Char) : Option Nat :=
  match (cs.take 4).mapM Text.hexValue? with
  | some [a, b, d, e] => some (((a * 16 + b) * 16 + d) * 16 + e)
  | _ => none

theorem result?_hexEscape :
    result? hexEscape c = (hexCode? c.rest).map fun n => (n, c.next.next.next.next) := by
  unfold hexEscape hexCode?
  simp only [result?_bind, result?_get, Option.bind_some]
  split <;> simp_all

theorem result?_pairMark (mark : Char) :
    result? (pairMark mark) c = if c.rest.head? = some mark then some ((), c.next) else none := by
  unfold pairMark
  simp only [result?_bind, result?_peek, Option.bind_some]
  cases c.rest.head? with
  | none => rfl
  | some ch => by_cases h : ch = mark <;> simp [h]

theorem result?_escape (hexadecimal : Reader Char) :
    result? (escape hexadecimal) c = c.rest.head?.bind fun ch =>
      match simpleEscape? ch with
      | some m => some (m, c.next)
      | none => if ch = 'u' then result? hexadecimal c.next else none := by
  unfold escape
  simp only [result?_bind, result?_peek, Option.bind_some]
  cases c.rest.head? with
  | none => rfl
  | some ch =>
    cases h : simpleEscape? ch with
    | some m => simp [h]
    | none =>
      by_cases hu : ch = 'u'
      · subst hu
        simp [h]
      · simp [h, hu]

theorem result?_stringPiece : result? stringPiece c = c.rest.head?.bind fun ch =>
    if ch = '"' then some (none, c.next)
    else if ch = '\\' then (result? (escape unicodeEscape) c.next).map fun x => (some x.1, x.2)
    else if ch.toNat < 0x20 then none
    else some (some ch, c.next) := by
  unfold stringPiece
  simp only [result?_bind, result?_peek, Option.bind_some]
  cases c.rest.head? with
  | none => rfl
  | some ch =>
    simp only [Option.bind_some]
    repeat' split
    all_goals simp [Option.map_eq_bind]

theorem result?_unicodeEscape : result? unicodeEscape c = (hexCode? c.rest).bind fun high =>
    if 0xDC00 ≤ high ∧ high ≤ 0xDFFF then none
    else if 0xD800 ≤ high ∧ high ≤ 0xDBFF then
      (result? (do pairMark '\\'; pairMark 'u'; hexEscape) c.next.next.next.next).bind fun x =>
        if 0xDC00 ≤ x.1 ∧ x.1 ≤ 0xDFFF then
          some (Char.ofNat (0x10000 + (high - 0xD800) * 0x400 + (x.1 - 0xDC00)), x.2)
        else none
    else some (Char.ofNat high, c.next.next.next.next) := by
  unfold unicodeEscape
  simp only [result?_bind, result?_hexEscape]
  cases hexCode? c.rest with
  | none => rfl
  | some high =>
    simp only [Option.map_some, Option.bind_some]
    split
    · simp
    split
    · simp only [result?_bind, result?_hexEscape, Option.bind_assoc]
      congr; funext x; congr; funext y; congr; funext z
      split <;> simp [*]
    · simp


theorem advances_hexEscape : Advances hexEscape := by
  intro c n c' h
  rw [result?_hexEscape] at h
  obtain ⟨_, hn, h⟩ := Option.map_eq_some_iff.mp h
  cases h
  cases hr : c.rest with
  | nil => rw [hr] at hn; cases hn
  | cons ch rest =>
    have := Cursor.size_next hr
    have := c.next.size_next_le
    have := c.next.next.size_next_le
    have := c.next.next.next.size_next_le
    omega

theorem stays_pairMark (mark : Char) : Stays (pairMark mark) := by
  intro c a c' h
  rw [result?_pairMark] at h
  split at h
  · cases h
    exact c.size_next_le
  · cases h

theorem advances_unicodeEscape : Advances unicodeEscape := by
  intro c ch c' h
  rw [result?_unicodeEscape] at h
  obtain ⟨high, hhigh, h⟩ := Option.bind_eq_some_iff.mp h
  have first := advances_hexEscape c high _ (by rw [result?_hexEscape, hhigh]; rfl)
  split at h
  · cases h
  split at h
  · obtain ⟨⟨low, c₁⟩, hlow, h⟩ := Option.bind_eq_some_iff.mp h
    have second := ((stays_pairMark '\\').bind fun _ => (stays_pairMark 'u').bind fun _ =>
      advances_hexEscape.stays) _ _ _ hlow
    split at h
    · simp only [Option.some.injEq, Prod.mk.injEq] at h
      obtain ⟨-, rfl⟩ := h
      omega
    · cases h
  · cases h
    exact first

theorem advances_escape {hexadecimal : Reader Char} (h : Advances hexadecimal) : Advances (escape hexadecimal) := by
  intro c m c' hm
  rw [result?_escape] at hm
  obtain ⟨mark, hmark, hm⟩ := Option.bind_eq_some_iff.mp hm
  have next := Cursor.size_next_lt hmark
  split at hm
  · cases hm
    exact next
  split at hm
  · exact Nat.lt_trans (h _ _ _ hm) next
  · cases hm

theorem advances_stringPiece : Advances stringPiece := by
  intro c piece c' h
  rw [result?_stringPiece] at h
  obtain ⟨ch, hch, h⟩ := Option.bind_eq_some_iff.mp h
  have next := Cursor.size_next_lt hch
  split at h
  · cases h
    exact next
  split at h
  · obtain ⟨⟨m, c₁⟩, hm, h⟩ := Option.map_eq_some_iff.mp h
    cases h
    exact Nat.lt_trans (advances_escape advances_unicodeEscape _ _ _ hm) next
  split at h
  · cases h
  · cases h
    exact next

theorem size_lt_of_stringFrom {bound : Nat} {read : List Char} {s : String}
    (h : result? (stringFrom bound read) c = some (s, c')) (enough : c.size < bound) : c'.size < c.size := by
  induction bound generalizing c read with
  | zero => omega
  | succ bound ih =>
    rw [stringFrom, result?_bind] at h
    obtain ⟨⟨piece, c₁⟩, hpiece, h⟩ := Option.bind_eq_some_iff.mp h
    have shorter : c₁.size < c.size := advances_stringPiece _ _ _ hpiece
    cases piece with
    | none => cases h; exact shorter
    | some ch => exact Nat.lt_trans (ih h (by dsimp only; omega)) shorter

theorem result?_string : result? string c = result? (stringFrom (c.size + 1) []) c := rfl

theorem advances_string : Advances string :=
  fun _ _ _ h => size_lt_of_stringFrom (result?_string ▸ h) (Nat.lt_succ_self _)

theorem result?_key : result? key c = result? string c.next := by
  unfold key
  simp

theorem advances_key : Advances key := by
  intro c k c' h
  rw [result?_key] at h
  exact Nat.lt_of_lt_of_le (advances_string _ _ _ h) c.size_next_le

/-! ### Numbers -/

def signText : Reader Bool := do
  let sign ← peek
  if sign = some '-' then skip
  return sign = some '-'

def fractionText (atEnd : Cause) : Reader (Option (List Nat)) := do
  if (← peek) = some '.' then
    skip
    some <$> someDigits atEnd
  else return none

def exponentText (atEnd : Cause) : Reader (Option (Bool × List Nat)) := do
  let mark ← peek
  if mark = some 'e' ∨ mark = some 'E' then
    skip
    let sign ← peek
    if sign = some '+' ∨ sign = some '-' then skip
    let size ← someDigits atEnd
    return some (sign = some '-', size)
  else return none

theorem ite_bind {p : Prop} [Decidable p] (r s : Reader α) (f : α → Reader β) :
    (if p then r else s) >>= f = if p then r >>= f else s >>= f := by
  split <;> rfl

/-- A number is read part by part. -/
theorem numberText_eq (atEnd : Cause) : numberText atEnd = do
    let negative ← signText
    let whole ← wholeDigits atEnd
    let fraction ← fractionText atEnd
    let exponent ← exponentText atEnd
    return ⟨negative, whole, fraction, exponent⟩ := by
  unfold numberText signText fractionText exponentText
  simp only [bind_assoc, pure_bind, ite_bind]

theorem result?_someDigits (atEnd : Cause) : result? (someDigits atEnd) c = c.rest.head?.bind fun ch =>
    if Decimal.isDigit ch then
      some ((c.takeWhile Decimal.isDigit).map Decimal.digitValue, c.skipWhile Decimal.isDigit)
    else none := by
  unfold someDigits digits
  simp only [result?_bind, result?_peek, Option.bind_some]
  cases c.rest.head? with
  | none => rfl
  | some ch => by_cases h : Decimal.isDigit ch <;> simp [h]

theorem result?_wholeDigits (atEnd : Cause) : result? (wholeDigits atEnd) c =
    if c.rest.head? = some '0' then
      if c.next.rest.head?.any Decimal.isDigit then none else some ([0], c.next)
    else result? (someDigits atEnd) c := by
  unfold wholeDigits
  simp only [result?_bind, result?_peek, Option.bind_some]
  split
  · simp only [result?_bind, result?_skip, result?_peek, Option.bind_some]
    cases h : c.next.rest.head? with
    | none => simp
    | some ch => by_cases hd : Decimal.isDigit ch <;> simp [hd]
  · rfl

theorem result?_signText : result? signText c =
    some (decide (c.rest.head? = some '-'), if c.rest.head? = some '-' then c.next else c) := by
  unfold signText
  simp only [result?_bind, result?_peek, Option.bind_some]
  split <;> simp [*]

theorem result?_fractionText (atEnd : Cause) : result? (fractionText atEnd) c =
    if c.rest.head? = some '.' then (result? (someDigits atEnd) c.next).map fun x => (some x.1, x.2)
    else some (none, c) := by
  unfold fractionText
  simp only [result?_bind, result?_peek, Option.bind_some]
  split <;> simp

theorem result?_exponentText (atEnd : Cause) : result? (exponentText atEnd) c =
    if c.rest.head? = some 'e' ∨ c.rest.head? = some 'E' then
      let sign := c.next.rest.head?
      (result? (someDigits atEnd) (if sign = some '+' ∨ sign = some '-' then c.next.next else c.next)).map
        fun x => (some (decide (sign = some '-'), x.1), x.2)
    else some (none, c) := by
  unfold exponentText
  simp only [result?_bind, result?_peek, Option.bind_some]
  split
  · simp only [result?_bind, result?_skip, result?_peek, Option.bind_some]
    split <;> simp [Option.map_eq_bind]
  · rfl

/-- Where a number breaks off, only the fault depends on the cause that is given. -/
theorem result?_numberText (atEnd other : Cause) : result? (numberText atEnd) c = result? (numberText other) c := by
  simp only [numberText_eq, result?_bind, result?_wholeDigits, result?_fractionText, result?_exponentText,
    result?_someDigits]

/-- The number that a text stands for, wherever it stands. -/
def NumberText.value? (t : NumberText) : Option Number :=
  (result? (evaluate t) (Cursor.ofList [] {})).map (·.1)

theorem result?_evaluate (t : NumberText) : result? (evaluate t) c = t.value?.map fun n => (n, c) := by
  unfold NumberText.value? evaluate
  dsimp only
  repeat' split
  all_goals simp

theorem result?_number : result? number c =
    (result? (numberText .endInValue) c).bind fun x => x.1.value?.map fun n => (n, x.2) := by
  unfold number
  simp only [result?_bind, result?_evaluate]

theorem advances_someDigits (atEnd : Cause) : Advances (someDigits atEnd) := by
  intro c ds c' h
  rw [result?_someDigits] at h
  obtain ⟨ch, hch, h⟩ := Option.bind_eq_some_iff.mp h
  split at h
  · next digit =>
    cases h
    obtain ⟨rest, hrest⟩ := List.head?_eq_some_iff.mp hch
    rw [Cursor.size_eq, Cursor.rest_skipWhile, Cursor.size_eq, hrest, List.dropWhile_cons_of_pos digit]
    exact Nat.lt_succ_of_le (List.dropWhile_sublist _).length_le
  · cases h

theorem advances_wholeDigits (atEnd : Cause) : Advances (wholeDigits atEnd) := by
  intro c ds c' h
  rw [result?_wholeDigits] at h
  split at h
  · next zero =>
    split at h
    · cases h
    · cases h
      exact Cursor.size_next_lt zero
  · exact advances_someDigits atEnd c ds c' h

theorem stays_signText : Stays signText := by
  intro c a c' h
  rw [result?_signText] at h
  cases h
  split
  · exact c.size_next_le
  · exact Nat.le_refl _

theorem stays_fractionText (atEnd : Cause) : Stays (fractionText atEnd) := by
  intro c a c' h
  rw [result?_fractionText] at h
  split at h
  · obtain ⟨⟨ds, c₁⟩, hds, h⟩ := Option.map_eq_some_iff.mp h
    cases h
    exact Nat.le_trans ((advances_someDigits atEnd).stays _ _ _ hds) c.size_next_le
  · cases h
    exact Nat.le_refl _

theorem stays_exponentText (atEnd : Cause) : Stays (exponentText atEnd) := by
  intro c a c' h
  rw [result?_exponentText] at h
  split at h
  · obtain ⟨⟨ds, c₁⟩, hds, h⟩ := Option.map_eq_some_iff.mp h
    cases h
    refine Nat.le_trans ((advances_someDigits atEnd).stays _ _ _ hds) ?_
    split
    · exact Nat.le_trans c.next.size_next_le c.size_next_le
    · exact c.size_next_le
  · cases h
    exact Nat.le_refl _

theorem advances_numberText (atEnd : Cause) : Advances (numberText atEnd) := by
  rw [numberText_eq]
  exact stays_signText.bind_advances fun _ => (advances_wholeDigits atEnd).bind fun _ =>
    (stays_fractionText atEnd).bind fun _ => (stays_exponentText atEnd).bind fun _ => stays_pure _

theorem advances_number : Advances number := by
  refine (advances_numberText .endInValue).bind fun t c n c' h => ?_
  rw [result?_evaluate] at h
  obtain ⟨_, -, h⟩ := Option.map_eq_some_iff.mp h
  cases h
  exact Nat.le_refl _

end Reader

end CipherGraph.Json
