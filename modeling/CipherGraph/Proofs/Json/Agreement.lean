import CipherGraph.Json.Decoder
import CipherGraph.Json.Typed
import CipherGraph.Proofs.Json.Skipping
import Mathlib.Data.List.Forall2

/-! # Two ways to a typed value

A typed value can be read from a text, or decoded from the generic value that the text holds. A reader and a decoder
agree if, wherever a text holds a value, either both refuse it, or both accept it with the same outcome and the reader
stops where the value ends. Readers and decoders made from the same shapes agree (`agrees_integer`, `agrees_list`,
`agrees_triple`, `agrees_variant`, `agrees_record`), whatever the value: a repeated key counts for both. -/

namespace CipherGraph

namespace Json

/-! ### Steps of a record

A record and its two ways to be read: each part has a step for texts and a step for values. -/

def Field.mapStep {σ step step' : Type} (g : step → step') (f : Field σ step) : Field σ step' :=
  ⟨f.name, f.isKnown, g f.step, f.optional⟩

namespace Record
variable {σ step step' α : Type} (g : step → step') (r : Record σ step α)

/-- The record with other steps in place of its own. -/
def mapStep : Record σ step' α :=
  ⟨r.name, r.fields.map (·.mapStep g), r.blank, r.finish⟩

theorem field?_mapStep (name : String) : (r.mapStep g).field? name = (r.field? name).map (·.mapStep g) := by
  show (r.fields.map _).find? _ = _
  rw [List.find?_map]
  rfl

theorem missing?_mapStep (s : σ) : (r.mapStep g).missing? s = (r.missing? s).map (·.mapStep g) := by
  show (r.fields.map _).find? _ = _
  rw [List.find?_map]
  rfl

end Record

namespace Reader
variable {α β γ σ : Type} {c c' : Cursor}

/-- Wherever a text holds a value, the reader finds there what the decoder makes of that value. -/
def Agrees (r : Reader α) (d : Decoder α) : Prop :=
  ∀ depth c v c', result? (tree depth) c = some (v, c') → result? r c = (d v).toOption.map fun a => (a, c')

@[simp] theorem result?_mismatch (ch : Char) (expected : String) :
    result? (mismatch ch expected : Reader α) c = none := by
  unfold mismatch
  rw [result?_bind]
  cases result? (unexpected ch) c <;> rfl

/-- Of a whole text the reader makes what the decoder makes of its value. -/
theorem Agrees.document_eq_ok_iff {r : Reader α} {d : Decoder α} (h : Agrees r d) {depth : Nat} {t : String} {v : Json}
    (hv : document (tree depth) t = .ok v) {a : α} : document r t = .ok a ↔ d v = .ok a := by
  obtain ⟨c, hv, ended⟩ := Reader.document_eq_ok_iff.mp hv
  rw [Reader.document_eq_ok_iff, h _ _ _ _ hv, ← toOption_eq_some_iff]
  cases (d v).toOption with
  | none => simp
  | some b =>
    simp only [Option.map_some, Option.some.injEq, Prod.mk.injEq]
    exact ⟨fun ⟨_, same, _⟩ => same.1, fun same => ⟨c, ⟨same, rfl⟩, ended⟩⟩

/-! ### Values without parts -/

theorem Agrees.map {r : Reader α} {d : Decoder α} (h : Agrees r d) (f : α → β) :
    Agrees (f <$> r) fun v => (d v).map f := by
  intro depth c v c' hv
  rw [result?_map, h depth c v c' hv, toOption_map, Option.map_map, Option.map_map]
  rfl

/-- A step that takes in one value and keeps it. -/
theorem Agrees.step {r : Reader α} {d : Decoder α} (h : Agrees r d) (keep : σ → α → σ) (s : σ) :
    Agrees (do return keep s (← r)) fun v => do return keep s (← d v) :=
  h.map (keep s)

theorem agrees_integer (range : IntegerRange) : Agrees (integer range) (Decoder.integer range) := by
  intro depth c v c' h
  obtain ⟨ch, begins, formed⟩ := formed_of_tree h
  unfold integer
  rw [result?_bind, result?_start, begins, Option.map_some, Option.bind_some]
  cases formed with
  | @number _ _ _ n digit h =>
    simp only [digit, ↓reduceIte, result?_bind, h, Option.bind_some]
    cases n with
    | real x => rfl
    | integer i => by_cases hi : range.contains i <;> simp [inRange, Decoder.integer, hi, Except.toOption]
  | _ => simp [beginsNumber, Decimal.isDigit]; rfl

theorem agrees_unit : Agrees unit Decoder.unit := by
  intro depth c v c' h
  obtain ⟨ch, begins, formed⟩ := formed_of_tree h
  unfold unit
  rw [result?_bind, result?_start, begins, Option.map_some, Option.bind_some]
  cases formed with
  | null h =>
    simp only [↓reduceIte, result?_bind, result?_skip, Option.bind_some, h]
    rfl
  | number digit h =>
    have : ch ≠ 'n' := by rintro rfl; cases digit
    simp [this]
    rfl
  | _ => simp; rfl

theorem agrees_word32 : Agrees word32 Decoder.word32 :=
  (agrees_integer .word32).map fun i => UInt32.ofNat i.toNat

theorem agrees_word64 : Agrees word64 Decoder.word64 :=
  (agrees_integer .word64).map fun i => UInt64.ofNat i.toNat

/-! ### Lists -/

/-- Where a list goes on, it does not end. -/
theorem closeList_of_further {first : Bool} {c₁ : Cursor} (h : result? (hasItem first) c = some (true, c₁)) :
    (closeList c).2.isNone = false := by
  obtain ⟨further, ch, begins, other⟩ := hasItem_eq_true_iff.mp h
  rw [← Bool.not_eq_true]
  intro closed
  have closed : closeList c = ((closeList c).1, none) := Prod.ext rfl (Option.isNone_iff_eq_none.mp closed)
  obtain ⟨bracket, -⟩ := closeList_eq_iff.mp closed
  unfold further? at further
  split at further
  · cases further
    exact other (Option.some.inj (begins.symm.trans bracket))
  · rw [bracket] at further
    cases further

/-- Where a list is over, it ends in the same way from the blanks in front of its bracket. -/
theorem closeList_of_done {first : Bool} {c₁ : Cursor} (h : result? (hasItem first) c = some (false, c₁)) :
    closeList c = closeList c₁ := by
  obtain ⟨-, rfl⟩ := hasItem_eq_false_iff.mp h
  unfold closeList
  rw [Cursor.skipBlanks_skipBlanks]

section Items
variable {item : Reader α} {d : Decoder α} {depth : Nat} {vs : List Json} {as : List α} {c₁ : Cursor}

theorem Items.result?_itemsFrom {first : Bool} (h : Items (tree depth) first c vs c₁) (agrees : Agrees item d)
    {bound k : Nat} (enough : c.size < bound) (start : first = (k == 0)) (read : List α) :
    result? (itemsFrom item bound k read) c = (vs.mapM d).toOption.map fun as => (read.reverse ++ as, c₁) := by
  induction h generalizing bound k read with
  | done h =>
    obtain ⟨bound, rfl⟩ := Nat.exists_eq_succ_of_ne_zero (Nat.ne_zero_of_lt enough)
    subst start
    rw [itemsFrom, result?_bind, h]
    simp
  | @item first c c₂ c₃ _ v rest h hv _ ih =>
    obtain ⟨bound, rfl⟩ := Nat.exists_eq_succ_of_ne_zero (Nat.ne_zero_of_lt enough)
    subst start
    have := size_of_further (hasItem_eq_true_iff.mp h).1
    have := advances_tree _ _ _ _ hv
    rw [itemsFrom, result?_bind, h, Option.bind_some]
    simp only [↓reduceIte, result?_bind, result?_within, agrees _ _ _ _ hv, List.mapM_cons, toOption_bind]
    cases (d v).toOption with
    | none => rfl
    | some a =>
      simp only [Option.map_some, Option.bind_some]
      rw [ih (by omega) (by simp)]
      cases (rest.mapM d).toOption <;> simp

theorem agrees_list (agrees : Agrees item d) : Agrees (list item) (Decoder.list d) := by
  intro depth c v c' h
  obtain ⟨ch, begins, formed⟩ := formed_of_tree h
  unfold list
  rw [result?_bind, result?_start, begins, Option.map_some, Option.bind_some]
  cases formed with
  | @list _ _ c₁ _ vs inside items closed =>
    obtain ⟨depth, rfl⟩ := eq_tree_of_nested inside
    simp only [↓reduceIte, result?_enclosed]
    show ((result? (itemsFrom item _ 0 []) _).bind _) = _
    rw [items.result?_itemsFrom agrees (Nat.lt_succ_self _) rfl]
    show _ = (vs.mapM d).toOption.map _
    cases (vs.mapM d).toOption <;> simp [closed]
  | number digit h =>
    have : ch ≠ '[' := by rintro rfl; cases digit
    simp [this]
    rfl
  | _ => simp; rfl

/-! ### Lists of fixed length -/

/-- The end of a list from a place on, if it ends there. -/
def ends? (c : Cursor) : Option Cursor :=
  if (closeList c).2.isNone then some (closeList c).1 else none

theorem result?_enclosed_list (body : Reader α) :
    result? (enclosed body closeList) c = (result? body c.next).bind fun x => (ends? x.2).map fun e => (x.1, e) := by
  rw [result?_enclosed]
  congr 1
  funext x
  unfold ends?
  split <;> rfl

/-- A list ends where it has no items left. -/
theorem Items.ends?_eq {first : Bool} (h : Items item first c as c₁) (closed : closeList c₁ = (c', none)) :
    ends? c = if as.isEmpty then some c' else none := by
  unfold ends?
  cases h with
  | done h => rw [closeList_of_done h, closed]; rfl
  | item h _ _ => rw [closeList_of_further h]; rfl

/-- Wherever a list has some items left, the reader takes those that the decoder takes, and fails where it fails. -/
def Takes (first : Bool) (r : Reader β) (d : List Json → Except Cause (β × List Json)) : Prop :=
  ∀ depth c vs c₁, Items (tree depth) first c vs c₁ →
    match d vs with
    | .error _ => result? r c = none
    | .ok (b, rest) => ∃ c₂, Items (tree depth) false c₂ rest c₁ ∧ result? r c = some (b, c₂)

theorem takes_pure (b : β) : Takes false (pure b) fun vs => .ok (b, vs) :=
  fun _ c _ _ h => ⟨c, h, rfl⟩

theorem Takes.bind {first : Bool} {r : Reader β} {f : β → Reader γ} {d : List Json → Except Cause (β × List Json)}
    {g : β → List Json → Except Cause (γ × List Json)} (hr : Takes first r d) (hf : ∀ b, Takes false (f b) (g b)) :
    Takes first (r >>= f) fun vs => d vs >>= fun x => g x.1 x.2 := by
  intro depth c vs c₁ h
  have hr := hr depth c vs c₁ h
  cases hd : d vs with
  | error e =>
    simp only [hd] at hr ⊢
    show result? (r >>= f) c = none
    rw [result?_bind, hr]
    rfl
  | ok x =>
    simp only [hd] at hr ⊢
    obtain ⟨c₂, hrest, hx⟩ := hr
    rw [result?_bind, hx]
    exact hf x.1 depth c₂ x.2 c₁ hrest

theorem takes_element (agrees : Agrees item d) (k : Nat) (expected : String) :
    Takes (k == 0) (element k expected item) (Decoder.element k expected d) := by
  intro depth c vs c₁ h
  unfold element
  rw [result?_bind]
  cases h with
  | done h => rw [h]; rfl
  | @item _ _ _ c₂ _ v rest h hv hrest =>
    rw [h]
    simp only [Option.bind_some, ↓reduceIte, result?_within, agrees _ _ _ _ hv, Decoder.element]
    cases d v with
    | error e => rfl
    | ok a => exact ⟨c₂, hrest, rfl⟩

theorem Takes.result?_enclosed {r : Reader β} {d : List Json → Except Cause (β × List Json)} (hr : Takes true r d)
    (h : Items (tree depth) true c.next vs c₁) (closed : closeList c₁ = (c', none)) :
    result? (enclosed r closeList) c =
      (d vs).toOption.bind fun x => if x.2.isEmpty then some (x.1, c') else none := by
  rw [result?_enclosed_list]
  have hr := hr depth c.next vs c₁ h
  cases hd : d vs with
  | error e =>
    rw [hd] at hr
    rw [hr]
    rfl
  | ok x =>
    rw [hd] at hr
    obtain ⟨c₂, hrest, hx⟩ := hr
    rw [hx, Option.bind_some, hrest.ends?_eq closed]
    show _ = if x.2.isEmpty then _ else _
    split <;> rfl

end Items

theorem agrees_triple {x : Reader α} {y : Reader β} {z : Reader γ} {dx : Decoder α} {dy : Decoder β} {dz : Decoder γ}
    (hx : Agrees x dx) (hy : Agrees y dy) (hz : Agrees z dz) : Agrees (triple x y z) (Decoder.triple dx dy dz) := by
  intro depth c v c' h
  obtain ⟨ch, begins, formed⟩ := formed_of_tree h
  unfold triple
  rw [result?_bind, result?_start, begins, Option.map_some, Option.bind_some]
  cases formed with
  | @list _ _ c₁ _ vs inside items closed =>
    obtain ⟨depth, rfl⟩ := eq_tree_of_nested inside
    have takes := (takes_element hx 0 "a tuple of size 3").bind fun a => (takes_element hy 1 "a tuple of size 3").bind
      fun b => (takes_element hz 2 "a tuple of size 3").bind fun c => takes_pure (a, b, c)
    simp only [↓reduceIte]
    rw [takes.result?_enclosed items closed]
    simp only [Decoder.triple, toOption_bind, Option.bind_assoc, Option.map_bind, Function.comp_def]
    refine congrArg _ (funext fun x => congrArg _ (funext fun y => congrArg _ (funext fun z => ?_)))
    obtain ⟨z, rest⟩ := z
    cases rest <;> rfl
  | number digit h =>
    have : ch ≠ '[' := by rintro rfl; cases digit
    simp [this]
    rfl
  | _ => simp; rfl

/-! ### Variants -/

theorem result?_variantNamed (variants : List (Variant α)) (name : String) :
    result? (variantNamed variants name) c = (Variant.find? variants name).toOption.map fun v => (v, c) := by
  unfold variantNamed
  cases Variant.find? variants name <;> rfl

theorem agrees_payload (w : Variant α) : Agrees (payload w) (Decoder.payload w) := by
  cases w with
  | plain name a => exact agrees_unit.map fun _ => a
  | counted name make => exact agrees_word64.map make

/-- An alternative with its value, the only member of an object. -/
theorem result?_variant_member (variants : List (Variant α)) {depth : Nat} {c₁ c₂ c₃ : Cursor} {k : String} {v : Json}
    (begins : c.skipBlanks.rest.head? = some '\x7b') (quote : c.skipBlanks.next.skipBlanks.rest.head? = some '"')
    (hk : result? string c.skipBlanks.next.skipBlanks.next = some (k, c₁)) (hcolon : result? colon c₁ = some ((), c₂))
    (hv : result? (tree depth) c₂ = some (v, c₃)) :
    result? (variant variants) c = (Variant.find? variants k).toOption.bind fun w =>
      (Decoder.payload w v).toOption.bind fun a =>
        if c₃.skipBlanks.rest.head? = some '\x7d' then some (a, c₃.skipBlanks.next) else none := by
  unfold variant
  simp only [result?_bind, result?_start, begins, Option.map_some, Option.bind_some, Char.reduceEq, ↓reduceIte,
    result?_skip, result?_skipBlanks, result?_peek, quote, ne_eq, not_true_eq_false, hk, result?_variantNamed]
  cases Variant.find? variants k with
  | error cause => rfl
  | ok w =>
    simp only [Except.toOption, Option.map_some, Option.bind_some, hcolon, agrees_payload w _ _ _ _ hv]
    cases Decoder.payload w v with
    | error cause => rfl
    | ok a =>
      simp only [Option.map_some, Option.bind_some]
      cases c₃.skipBlanks.rest.head? with
      | none => rfl
      | some ch => by_cases h : ch = '\x7d' <;> simp [h]

theorem agrees_variant (variants : List (Variant α)) : Agrees (variant variants) (Decoder.variant variants) := by
  intro depth c v c' h
  obtain ⟨ch, begins, formed⟩ := formed_of_tree h
  cases formed with
  | @string _ _ s h =>
    unfold variant
    simp only [result?_bind, result?_start, begins, Option.map_some, Option.bind_some, ↓reduceIte, result?_skip, h,
      result?_variantNamed, Decoder.variant]
    cases Variant.find? variants s with
    | error cause => rfl
    | ok w => cases w <;> rfl
  | @object _ _ c₁ _ ms inside members closed =>
    obtain ⟨depth, rfl⟩ := eq_tree_of_nested inside
    obtain ⟨bracket, rfl⟩ := closeObject_eq_iff.mp closed
    cases members with
    | done h =>
      obtain ⟨bracket, -⟩ := hasKey_eq_false_iff.mp h
      simp [variant, begins, bracket, Decoder.variant, Except.toOption]
    | @member _ _ c₂ c₃ c₄ c₅ _ k v rest more hk hcolon hv hrest =>
      obtain ⟨further, quote⟩ := hasKey_eq_true_iff.mp more
      cases further
      rw [result?_key] at hk
      rw [result?_variant_member variants begins quote hk hcolon hv]
      cases hrest with
      | done ended =>
        obtain ⟨bracket', rfl⟩ := hasKey_eq_false_iff.mp ended
        simp only [bracket', ↓reduceIte, Decoder.variant, Cursor.skipBlanks_skipBlanks]
        cases Variant.find? variants k with
        | error cause => rfl
        | ok w => exact Option.map_eq_bind.symm
      | member more _ _ _ _ =>
        -- After a comma the object has another member, and is no alternative.
        obtain ⟨further, -⟩ := hasKey_eq_true_iff.mp more
        unfold further? at further
        simp only [Bool.false_eq_true, ↓reduceIte, Option.ite_none_right_eq_some] at further
        simp only [further.1, Option.some.injEq, Char.reduceEq, ↓reduceIte, Option.bind_fun_none, Decoder.variant]
        rfl
  | number digit h =>
    have : ch ≠ '"' := by rintro rfl; cases digit
    have : ch ≠ '\x7b' := by rintro rfl; cases digit
    simp [variant, *]
    rfl
  | _ => simp [variant, begins]; rfl

/-! ### Records -/

section Records
variable {r : Record σ (Step σ × Decoder.Step σ) α}

theorem recordMember_of_member (agrees : ∀ f ∈ r.fields, ∀ s, Agrees (f.step.1 s) (f.step.2 s)) {depth : Nat}
    {c₁ c₂ c₃ : Cursor} {k : String} {v : Json} (hk : result? key c = some (k, c₁))
    (hcolon : result? colon c₁ = some ((), c₂)) (hv : result? (tree depth) c₂ = some (v, c₃)) (s : σ) :
    result? (recordMember (r.mapStep Prod.fst) s) c =
      (Decoder.recordMember (r.mapStep Prod.snd) s (k, v)).toOption.map fun s' => (s', c₃) := by
  unfold recordMember Decoder.recordMember
  rw [result?_bind, hk, Option.bind_some]
  simp only [Record.field?_mapStep]
  cases hf : r.field? k with
  | none => simp [hcolon, ignore_of_tree hv, Except.toOption]
  | some f =>
    have known := agrees f (List.mem_of_find?_eq_some hf) s
    simp only [Option.map_some, Field.mapStep]
    split
    · rfl
    · simp [hcolon, known _ _ _ _ hv]

theorem Members.result?_membersFrom (agrees : ∀ f ∈ r.fields, ∀ s, Agrees (f.step.1 s) (f.step.2 s)) {depth : Nat}
    {first : Bool} {ms : List (String × Json)} {c₁ : Cursor} (h : Members (tree depth) first c ms c₁) {bound : Nat}
    (enough : c.size < bound) (s : σ) :
    result? (membersFrom (recordMember (r.mapStep Prod.fst)) bound first s) c =
      (ms.foldlM (Decoder.recordMember (r.mapStep Prod.snd)) s).toOption.map fun s' => (s', c₁) := by
  induction h generalizing bound s with
  | done ended =>
    obtain ⟨bound, rfl⟩ := Nat.exists_eq_succ_of_ne_zero (Nat.ne_zero_of_lt enough)
    rw [membersFrom_of_done ended]
    rfl
  | member more hk hcolon hv _ ih =>
    obtain ⟨bound, rfl⟩ := Nat.exists_eq_succ_of_ne_zero (Nat.ne_zero_of_lt enough)
    have := size_of_further (hasKey_eq_true_iff.mp more).1
    have := advances_key _ _ _ hk
    have := stays_colon _ _ _ hcolon
    have := advances_tree _ _ _ _ hv
    rw [membersFrom_of_member more, recordMember_of_member agrees hk hcolon hv, List.foldlM_cons, toOption_bind]
    cases (Decoder.recordMember (r.mapStep Prod.snd) s _).toOption with
    | none => rfl
    | some s' => exact ih (by omega) s'

theorem takes_recordItems {fields : List (Field σ (Step σ × Decoder.Step σ))} {k : Nat} (s : σ)
    (agrees : ∀ f ∈ fields, ∀ s, Agrees (f.step.1 s) (f.step.2 s)) (parts : k = 0 → fields ≠ []) :
    Takes (k == 0) (recordItems (r.mapStep Prod.fst) k (fields.map (·.mapStep Prod.fst)) s)
      (Decoder.recordItems (r.mapStep Prod.snd) k (fields.map (·.mapStep Prod.snd)) s) := by
  induction fields generalizing k s with
  | nil =>
    have : (k == 0) = false := by simpa using fun h => parts h rfl
    rw [this]
    exact takes_pure s
  | cons f fields ih =>
    have ih (s : σ) : Takes false _ _ := ih (k := k + 1) s (fun g hg => agrees g (List.mem_cons_of_mem _ hg)) (by simp)
    intro depth c vs c₁ h
    simp only [List.map_cons, recordItems, result?_bind]
    cases h with
    | done ended =>
      rw [ended, Option.bind_some]
      by_cases hf : f.optional
      · obtain ⟨bracket, rfl⟩ := hasItem_eq_false_iff.mp ended
        have rest : Items (tree depth) false c.skipBlanks [] c.skipBlanks :=
          .done (hasItem_eq_false_iff.mpr (by simpa using bracket))
        simpa [Decoder.recordItems, Field.mapStep, hf] using ih s depth _ _ _ rest
      · simp [Decoder.recordItems, Field.mapStep, hf]
    | @item _ _ _ c₂ _ v vs more hv hrest =>
      simp only [more, Option.bind_some, ↓reduceIte, result?_bind, result?_within, Decoder.recordItems, Field.mapStep,
        agrees f List.mem_cons_self s _ _ _ _ hv]
      cases f.step.2 s v with
      | error e => rfl
      | ok s' => exact ih s' depth _ _ _ hrest

/-- A record is read as an object or as a list, by its first character. -/
theorem result?_record {r : Record σ (Step σ) α} {ch : Char} (begins : c.skipBlanks.rest.head? = some ch) :
    result? (record r) c =
      if ch = '\x7b' then
        (result? (members (recordMember r) r.blank) c.skipBlanks.next).bind fun x =>
          if (r.missing? x.1).isNone ∧ (closeObject x.2).2.isNone then some (r.finish x.1, (closeObject x.2).1)
          else none
      else if ch = '[' then result? (enclosed (r.finish <$> recordItems r 0 r.fields r.blank) closeList) c.skipBlanks
      else none := by
  rw [record, result?_bind, result?_start, begins, Option.map_some, Option.bind_some]
  split
  · simp only [result?_enclosed, result?_bind, Option.bind_assoc]
    refine congrArg _ (funext fun x => ?_)
    unfold recordDone
    cases r.missing? x.1 <;> simp
  split
  · rfl
  · exact result?_mismatch ch r.expected

theorem agrees_record (agrees : ∀ f ∈ r.fields, ∀ s, Agrees (f.step.1 s) (f.step.2 s)) (parts : r.fields ≠ []) :
    Agrees (record (r.mapStep Prod.fst)) (Decoder.record (r.mapStep Prod.snd)) := by
  intro depth c v c' h
  obtain ⟨ch, begins, formed⟩ := formed_of_tree h
  rw [result?_record begins]
  cases formed with
  | @object _ _ c₁ _ ms inside members closed =>
    obtain ⟨depth, rfl⟩ := eq_tree_of_nested inside
    have blank : (r.mapStep Prod.fst).blank = r.blank := rfl
    rw [if_pos rfl, blank, result?_members, members.result?_membersFrom agrees (Nat.lt_succ_self _)]
    show _ = (Except.toOption (ms.foldlM (Decoder.recordMember (r.mapStep Prod.snd)) r.blank >>= _)).map _
    rw [toOption_bind]
    cases (ms.foldlM (Decoder.recordMember (r.mapStep Prod.snd)) r.blank).toOption with
    | none => rfl
    | some s =>
      simp only [Option.map_some, Option.bind_some, Record.missing?_mapStep, closed]
      cases r.missing? s <;> rfl
  | @list _ _ c₁ _ vs inside items closed =>
    obtain ⟨depth, rfl⟩ := eq_tree_of_nested inside
    have steps : Takes true _ _ := takes_recordItems (r := r) (k := 0) r.blank agrees fun _ => parts
    have takes := steps.bind fun s => takes_pure (r.finish s)
    rw [bind_pure_comp] at takes
    rw [if_neg (by decide), if_pos rfl]
    refine (takes.result?_enclosed items closed).trans ?_
    simp only [Decoder.record, toOption_bind, Option.bind_assoc, Option.map_bind, Function.comp_def]
    refine congrArg _ (funext fun x => ?_)
    obtain ⟨s, rest⟩ := x
    cases rest <;> rfl
  | number digit h =>
    have : ch ≠ '\x7b' := by rintro rfl; cases digit
    have : ch ≠ '[' := by rintro rfl; cases digit
    simp [*]
    rfl
  | _ => simp; rfl

end Records

end Reader

end Json

end CipherGraph
