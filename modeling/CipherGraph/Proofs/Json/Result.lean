import CipherGraph.Json.Token
import CipherGraph.Proofs.Outcome

/-! # What a reader finds

A reader up to its faults: the value that it finds and the place that it leaves, or nothing. In this view the
elementary readers are told by the text that is left, and the readers put together from them by equations. Two facts
about places carry the loops: where a list or an object goes on or ends, and that reading never goes back. -/

namespace CipherGraph

namespace Json

/-! ### Places -/

namespace Cursor
variable {c : Cursor} {ch : Char} {rest : List Char}

theorem size_next (h : c.rest = ch :: rest) : c.next.size + 1 = c.size := by
  rw [eq_ofList c, h]
  rfl

theorem size_next_lt (h : c.rest.head? = some ch) : c.next.size < c.size := by
  obtain ⟨rest, hrest⟩ := List.head?_eq_some_iff.mp h
  have := size_next hrest
  omega

theorem rest_skipBlanks (c : Cursor) : c.skipBlanks.rest = c.rest.dropWhile isBlank :=
  rest_skipWhile isBlank c

theorem size_skipWhile_le (keep : Char → Bool) (c : Cursor) : (c.skipWhile keep).size ≤ c.size := by
  rw [size_eq, rest_skipWhile, size_eq]
  exact (List.dropWhile_sublist keep).length_le

theorem size_skipBlanks_le (c : Cursor) : c.skipBlanks.size ≤ c.size :=
  size_skipWhile_le isBlank c

/-- Where no character is to be skipped, nothing is. -/
theorem skipWhile_of_head {keep : Char → Bool} (h : ∀ ch, c.rest.head? = some ch → keep ch = false) :
    c.skipWhile keep = c := by
  rw [eq_ofList c] at h ⊢
  cases hr : c.rest with
  | nil => rfl
  | cons ch rest =>
    have stays : keep ch = false := h ch (by rw [hr]; rfl)
    show skipWhile.go keep (ch :: rest) _ _ _ = _
    simp [skipWhile.go, stays, ofList]

@[simp] theorem skipBlanks_skipBlanks (c : Cursor) : c.skipBlanks.skipBlanks = c.skipBlanks := by
  refine skipWhile_of_head fun ch hch => ?_
  rw [rest_skipBlanks] at hch
  have := List.head?_dropWhile_not isBlank c.rest
  rw [hch] at this
  simpa using this

end Cursor

namespace Reader
variable {α β σ : Type} {c c' : Cursor}

/-! ### Results -/

/-- What a reader finds from a place on, and the place that it leaves. -/
def result? (r : Reader α) (c : Cursor) : Option (α × Cursor) :=
  (r c).toOption

theorem result?_eq_some_iff {r : Reader α} {x : α × Cursor} : result? r c = some x ↔ r c = .ok x :=
  toOption_eq_some_iff

@[simp] theorem result?_pure (a : α) : result? (pure a) c = some (a, c) := rfl

@[simp] theorem result?_bind (r : Reader α) (f : α → Reader β) :
    result? (r >>= f) c = (result? r c).bind fun x => result? (f x.1) x.2 := by
  exact toOption_bind (r c) fun x => f x.1 x.2

@[simp] theorem result?_map (r : Reader α) (f : α → β) :
    result? (f <$> r) c = (result? r c).map fun x => (f x.1, x.2) := by
  rw [← bind_pure_comp, result?_bind]
  cases result? r c <;> rfl

@[simp] theorem result?_get : result? get c = some (c, c) := rfl

@[simp] theorem result?_set : result? (set c') c = some ((), c') := rfl

@[simp] theorem result?_throw (f : Fault) : result? (throw f : Reader α) c = none := rfl

@[simp] theorem result?_peek : result? peek c = some (c.rest.head?, c) := rfl

@[simp] theorem result?_skip : result? skip c = some ((), c.next) := rfl

@[simp] theorem result?_skipBlanks : result? skipBlanks c = some ((), c.skipBlanks) := rfl

@[simp] theorem result?_failHere (cause : Cause) : result? (failHere cause : Reader α) c = none := rfl

@[simp] theorem result?_failAhead (cause : Cause) : result? (failAhead cause : Reader α) c = none := rfl

@[simp] theorem result?_failPending (cause : Cause) : result? (failPending cause : Reader α) c = none := rfl

@[simp] theorem result?_within (segment : Segment) (r : Reader α) : result? (within segment r) c = result? r c := by
  unfold result? within
  cases r c <;> rfl

theorem result?_enclosed (body : Reader α) (closing : Closing) :
    result? (enclosed body closing) c =
      (result? body c.next).bind fun x => if (closing x.2).2.isNone then some (x.1, (closing x.2).1) else none := by
  unfold result? enclosed
  cases body c.next with
  | error f => cases hp : f.place <;> simp [hp, Except.toOption]
  | ok x => cases h : closing x.2 with
    | mk c' cause => cases cause <;> simp [h, Except.toOption]

theorem document_eq_ok_iff {r : Reader α} {t : String} {a : α} :
    document r t = .ok a ↔ ∃ c, result? r (Cursor.ofString t) = some (a, c) ∧ c.skipBlanks.rest = [] := by
  unfold document
  simp only [result?_eq_some_iff]
  cases r (Cursor.ofString t) with
  | error f => simp
  | ok x =>
    obtain ⟨b, c⟩ := x
    simp only [Except.ok.injEq, Prod.mk.injEq]
    cases hrest : c.skipBlanks.rest with
    | nil => exact ⟨fun h => ⟨c, ⟨Except.ok.inj h, rfl⟩, hrest⟩, fun ⟨_, ⟨same, _⟩, _⟩ => congrArg _ same⟩
    | cons ch rest =>
      simp only [List.isEmpty_cons, Bool.false_eq_true, ↓reduceIte, reduceCtorEq, false_iff]
      rintro ⟨_, ⟨-, rfl⟩, ended⟩
      cases hrest.symm.trans ended

/-! ### Where values begin, and where lists and objects go on -/

@[simp] theorem result?_start : result? start c = c.skipBlanks.rest.head?.map fun ch => (ch, c.skipBlanks) := by
  unfold start
  simp only [result?_bind, result?_skipBlanks, result?_peek, Option.bind_some]
  cases c.skipBlanks.rest.head? <;> rfl

@[simp] theorem result?_colon :
    result? colon c = if c.skipBlanks.rest.head? = some ':' then some ((), c.skipBlanks.next) else none := by
  unfold colon
  simp only [result?_bind, result?_skipBlanks, result?_peek, Option.bind_some]
  cases c.skipBlanks.rest.head? with
  | none => rfl
  | some ch => by_cases h : ch = ':' <;> simp [h]

/-- Where a further item or key begins: at once if it is the first, otherwise after a comma. -/
def further? (first : Bool) (c : Cursor) : Option Cursor :=
  if first then some c.skipBlanks
  else if c.skipBlanks.rest.head? = some ',' then some c.skipBlanks.next.skipBlanks
  else none

theorem hasItem_eq_false_iff {first : Bool} :
    result? (hasItem first) c = some (false, c') ↔ c.skipBlanks.rest.head? = some ']' ∧ c' = c.skipBlanks := by
  unfold hasItem
  simp only [result?_bind, result?_skipBlanks, result?_peek, Option.bind_some]
  cases h : c.skipBlanks.rest.head? with
  | none => simp
  | some ch =>
    by_cases hend : ch = ']'
    · simp [hend, eq_comm]
    · cases first
      · by_cases hc : ch = ','
        · cases hn : c.skipBlanks.next.skipBlanks.rest.head? with
          | none => simp [hc, hn]
          | some ch' => by_cases hl : ch' = ']' <;> simp [hc, hn, hl]
        · simp [hend, hc]
      · simp [hend]

theorem hasItem_eq_true_iff {first : Bool} :
    result? (hasItem first) c = some (true, c') ↔
      further? first c = some c' ∧ ∃ ch, c'.rest.head? = some ch ∧ ch ≠ ']' := by
  unfold hasItem further?
  simp only [result?_bind, result?_skipBlanks, result?_peek, Option.bind_some]
  cases h : c.skipBlanks.rest.head? with
  | none => cases first <;> simp +contextual [h, eq_comm]
  | some ch =>
    by_cases hend : ch = ']'
    · cases first <;> simp +contextual [h, hend, eq_comm]
    · cases first
      · by_cases hc : ch = ','
        · cases hn : c.skipBlanks.next.skipBlanks.rest.head? with
          | none => simp +contextual [hc, hn, eq_comm]
          | some ch' => by_cases hl : ch' = ']' <;> simp +contextual [hc, hn, hl, eq_comm]
        · simp [hend, hc]
      · simp +contextual [hend, h, eq_comm]

theorem hasKey_eq_false_iff {first : Bool} :
    result? (hasKey first) c = some (false, c') ↔ c.skipBlanks.rest.head? = some '\x7d' ∧ c' = c.skipBlanks := by
  unfold hasKey
  simp only [result?_bind, result?_skipBlanks, result?_peek, Option.bind_some]
  cases h : c.skipBlanks.rest.head? with
  | none => simp
  | some ch =>
    by_cases hend : ch = '\x7d'
    · simp [hend, eq_comm]
    · cases first
      · by_cases hc : ch = ','
        · cases hn : c.skipBlanks.next.skipBlanks.rest.head? with
          | none => simp [hc, hn]
          | some ch' =>
            by_cases hq : ch' = '"'
            · simp [hc, hn, hq]
            · by_cases hl : ch' = '\x7d' <;> simp [hc, hn, hq, hl]
        · simp [hend, hc]
      · by_cases hq : ch = '"' <;> simp [hend, hq]

theorem hasKey_eq_true_iff {first : Bool} :
    result? (hasKey first) c = some (true, c') ↔ further? first c = some c' ∧ c'.rest.head? = some '"' := by
  unfold hasKey further?
  simp only [result?_bind, result?_skipBlanks, result?_peek, Option.bind_some]
  cases h : c.skipBlanks.rest.head? with
  | none => cases first <;> simp +contextual [h, eq_comm]
  | some ch =>
    by_cases hend : ch = '\x7d'
    · cases first <;> simp +contextual [h, hend, eq_comm]
    · cases first
      · by_cases hc : ch = ','
        · cases hn : c.skipBlanks.next.skipBlanks.rest.head? with
          | none => simp +contextual [hc, hn, eq_comm]
          | some ch' =>
            by_cases hq : ch' = '"'
            · simp +contextual [hc, hn, hq, eq_comm]
            · by_cases hl : ch' = '\x7d' <;> simp +contextual [hc, hn, hq, hl, eq_comm]
        · simp [hend, hc]
      · by_cases hq : ch = '"' <;> simp +contextual [hend, h, hq, eq_comm]

theorem closeList_eq_iff :
    closeList c = (c', none) ↔ c.skipBlanks.rest.head? = some ']' ∧ c' = c.skipBlanks.next := by
  unfold closeList
  dsimp only
  split
  · next h => simp [h]
  · next h => simp [h, eq_comm]
  · next h => simp [h]
  · next ch _ other _ h => simpa [h] using fun hch => absurd hch other

theorem closeObject_eq_iff :
    closeObject c = (c', none) ↔ c.skipBlanks.rest.head? = some '\x7d' ∧ c' = c.skipBlanks.next := by
  unfold closeObject
  dsimp only
  split
  · next h => simp [h]
  · next h => simp [h, eq_comm]
  · next h => simp [h]
  · next ch _ other _ h => simpa [h] using fun hch => absurd hch other

theorem result?_enclosed_eq_some_iff {body : Reader α} {closing : Closing} {a : α} :
    result? (enclosed body closing) c = some (a, c') ↔
      ∃ c₁, result? body c.next = some (a, c₁) ∧ closing c₁ = (c', none) := by
  rw [result?_enclosed]
  constructor
  · intro h
    obtain ⟨⟨b, c₁⟩, hbody, hc⟩ := Option.bind_eq_some_iff.mp h
    split at hc
    · next closed =>
      cases hc
      exact ⟨c₁, hbody, Prod.ext rfl (Option.isNone_iff_eq_none.mp closed)⟩
    · cases hc
  · rintro ⟨c₁, hbody, hclosed⟩
    rw [hbody]
    simp [hclosed]

/-! ### Lists and objects part by part -/

section Members
variable {σ : Type} {member : σ → Reader σ} {bound : Nat} {first : Bool} {c₁ : Cursor} {s : σ}

theorem result?_members : result? (members member s) c = result? (membersFrom member (c.size + 1) true s) c := rfl

theorem membersFrom_of_member (h : result? (hasKey first) c = some (true, c₁)) :
    result? (membersFrom member (bound + 1) first s) c =
      (result? (member s) c₁).bind fun x => result? (membersFrom member bound false x.1) x.2 := by
  rw [membersFrom, result?_bind, result?_within, h, Option.bind_some]
  exact result?_bind _ _

theorem membersFrom_of_done (h : result? (hasKey first) c = some (false, c₁)) :
    result? (membersFrom member (bound + 1) first s) c = some (s, c₁) := by
  rw [membersFrom, result?_bind, result?_within, h]
  rfl

end Members

/-- Reading takes at least one character. -/
def Advances (r : Reader α) : Prop :=
  ∀ c a c', result? r c = some (a, c') → c'.size < c.size

/-- The items of a list from a place on, up to the place in front of its closing bracket. -/
inductive Items (inner : Reader α) : (first : Bool) → Cursor → List α → Cursor → Prop where
  | done {first : Bool} {c c' : Cursor} (h : result? (hasItem first) c = some (false, c')) :
    Items inner first c [] c'
  | item {first : Bool} {c c₁ c₂ c' : Cursor} {a : α} {rest : List α}
    (h : result? (hasItem first) c = some (true, c₁)) (ha : result? inner c₁ = some (a, c₂))
    (hrest : Items inner false c₂ rest c') : Items inner first c (a :: rest) c'

/-- The members of an object from a place on, up to the place in front of its closing bracket. -/
inductive Members (inner : Reader α) : (first : Bool) → Cursor → List (String × α) → Cursor → Prop where
  | done {first : Bool} {c c' : Cursor} (h : result? (hasKey first) c = some (false, c')) :
    Members inner first c [] c'
  | member {first : Bool} {c c₁ c₂ c₃ c₄ c' : Cursor} {k : String} {a : α} {rest : List (String × α)}
    (h : result? (hasKey first) c = some (true, c₁)) (hk : result? key c₁ = some (k, c₂))
    (hcolon : result? colon c₂ = some ((), c₃)) (ha : result? inner c₃ = some (a, c₄))
    (hrest : Members inner false c₄ rest c') : Members inner first c ((k, a) :: rest) c'

end Reader

end Json

end CipherGraph
