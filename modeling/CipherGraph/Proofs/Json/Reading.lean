import CipherGraph.Proofs.Json.Formed
import CipherGraph.Proofs.Json.Spelling

/-! # Reading what is spelled

At the text of a value `tree` finds exactly the value that is spelled there, or none where the spelling has none, and
it stops at the end of that text, whatever follows. A number alone needs to know what follows it: a digit, a point or
the mark of an exponent would go on with it. -/

namespace CipherGraph.Json

/-! ### Places in a text -/

/-- The position after some characters. -/
def Position.past (p : Position) (cs : List Char) : Position :=
  cs.foldl Position.after p

@[simp] theorem Position.past_nil (p : Position) : p.past [] = p := rfl

@[simp] theorem Position.past_cons (p : Position) (ch : Char) (cs : List Char) :
    p.past (ch :: cs) = (p.after ch).past cs := rfl

theorem Position.past_append (p : Position) (cs ds : List Char) : p.past (cs ++ ds) = (p.past cs).past ds :=
  List.foldl_append

namespace Cursor
variable {p : Position} {cs rest : List Char}

@[simp] theorem rest_ofList : (ofList cs p).rest = cs := rfl

@[simp] theorem size_ofList : (ofList cs p).size = cs.length := rfl

theorem length_lt_size (ds : List Char) : cs.length < (ofList (cs ++ ds) p).size + 1 := by
  rw [size_ofList, List.length_append]
  omega

theorem skipWhile_ofList {keep : Char → Bool} (run : ∀ ch ∈ cs, keep ch = true)
    (stop : ∀ ch, rest.head? = some ch → keep ch = false) :
    (ofList (cs ++ rest) p).skipWhile keep = ofList rest (p.past cs) := by
  have go (size : Nat) (h : size = (cs ++ rest).length) :
      skipWhile.go keep (cs ++ rest) p size h = ofList rest (p.past cs) := by
    induction cs generalizing p size with
    | nil =>
      subst h
      cases rest with
      | nil => rfl
      | cons ch rest => simp [skipWhile.go, stop ch rfl, ofList]
    | cons ch cs ih =>
      obtain ⟨first, run⟩ := List.forall_mem_cons.mp run
      simp only [List.cons_append, skipWhile.go, first, ↓reduceIte]
      exact ih run _ _
  exact go _ rfl

theorem skipBlanks_ofList (b : Blanks) (stop : ∀ ch, rest.head? = some ch → isBlank ch = false) :
    (ofList (b.1 ++ rest) p).skipBlanks = ofList rest (p.past b.1) :=
  skipWhile_ofList b.2 stop

theorem takeWhile_ofList {keep : Char → Bool} (run : ∀ ch ∈ cs, keep ch = true)
    (stop : ∀ ch, rest.head? = some ch → keep ch = false) : (ofList (cs ++ rest) p).takeWhile keep = cs := by
  show (cs ++ rest).takeWhile keep = cs
  rw [List.takeWhile_append_of_pos run]
  cases rest with
  | nil => simp
  | cons ch rest => simp [stop ch rfl]

end Cursor

namespace Reader
open Cursor
variable {p : Position} {rest : List Char}

theorem result?_literal (letters : List Char) :
    result? (literal letters) (ofList (letters ++ rest) p) = some ((), ofList rest (p.past letters)) := by
  induction letters generalizing p with
  | nil => rfl
  | cons letter letters ih => simp [literal, ih]

/-! ### Strings -/

theorem result?_stringPiece_plain {ch : Char} (quote : ch ≠ '"') (backslash : ch ≠ '\\') (printable : 0x20 ≤ ch.toNat) :
    result? stringPiece (ofList (ch :: rest) p) = some (some ch, ofList rest (p.after ch)) := by
  simp [result?_stringPiece, quote, backslash, Nat.not_lt.mpr printable]

theorem result?_stringPiece_short {mark meant : Char} (h : simpleEscape? mark = some meant) :
    result? stringPiece (ofList ('\\' :: mark :: rest) p) =
      some (some meant, ofList rest ((p.after '\\').after mark)) := by
  simp [result?_stringPiece, result?_escape, h]

theorem result?_stringPiece_code {a b c d : Char} {n : Nat} (h : hexCode? [a, b, c, d] = some n) :
    result? stringPiece (ofList ('\\' :: 'u' :: a :: b :: c :: d :: rest) p) =
      let after := ofList rest (p.past ['\\', 'u', a, b, c, d])
      if Piece.isLow n then none
      else if Piece.isHigh n then
        (result? (do pairMark '\\'; pairMark 'u'; hexEscape) after).bind fun x =>
          if Piece.isLow x.1 then
            some (some (Char.ofNat (0x10000 + (n - 0xD800) * 0x400 + (x.1 - 0xDC00))), x.2)
          else none
      else some (some (Char.ofNat n), after) := by
  have code : hexCode? (a :: b :: c :: d :: rest) = some n := h
  have mark : simpleEscape? 'u' = none := rfl
  simp only [result?_stringPiece, result?_escape, mark, result?_unicodeEscape, code, rest_ofList, next_ofList_cons,
    List.head?_cons, Option.bind_some, Piece.isLow, Piece.isHigh, Bool.and_eq_true, decide_eq_true_eq]
  simp only [Char.reduceEq, ↓reduceIte]
  split
  · rfl
  split
  · rw [Option.map_bind]
    refine congrArg _ (funext fun x => ?_)
    dsimp only [Function.comp_apply]
    split <;> simp only [Option.map_some, Option.map_none]
  · rfl

theorem result?_pair_code {a b c d : Char} {n : Nat} (h : hexCode? [a, b, c, d] = some n) :
    result? (do pairMark '\\'; pairMark 'u'; hexEscape) (ofList ('\\' :: 'u' :: a :: b :: c :: d :: rest) p) =
      some (n, ofList rest (p.past ['\\', 'u', a, b, c, d])) := by
  have code : hexCode? (a :: b :: c :: d :: rest) = some n := h
  simp [result?_pairMark, result?_hexEscape, code]

/-- The first half of a pair needs a code right after it. -/
theorem result?_pair_other {ps : List Piece} (other : ∀ a b c d n h rest, ps = .code a b c d n h :: rest → False) :
    result? (do pairMark '\\'; pairMark 'u'; hexEscape) (ofList (Piece.textOf ps ++ '"' :: rest) p) = none := by
  match ps with
  | [] => simp [result?_pairMark]
  | .plain ch _ backslash _ :: ps => simp [result?_pairMark, backslash]
  | .short mark meant h :: ps =>
    have : mark ≠ 'u' := by rintro rfl; cases h
    simp [result?_pairMark, this]
  | .code a b c d n h :: ps => exact (other a b c d n h ps rfl).elim

/-- A character is read, and the string goes on. -/
theorem stringFrom_of_piece {c c₁ e : Cursor} {ch : Char} {bound : Nat} {read : List Char} {o : Option (List Char)}
    (h : result? stringPiece c = some (some ch, c₁))
    (go : result? (stringFrom bound (ch :: read)) c₁ =
      o.map fun cs => (String.ofList ((ch :: read).reverse ++ cs), e)) :
    result? (stringFrom (bound + 1) read) c =
      (o.map (ch :: ·)).map fun cs => (String.ofList (read.reverse ++ cs), e) := by
  rw [stringFrom, result?_bind, h, Option.map_map]
  refine go.trans ?_
  simp only [Function.comp_def, List.reverse_cons, List.append_assoc, List.singleton_append]

theorem stringFrom_of_error {c : Cursor} (h : result? stringPiece c = none) (bound : Nat) (read : List Char) :
    result? (stringFrom (bound + 1) read) c = none := by
  rw [stringFrom, result?_bind, h]
  rfl

theorem result?_stringFrom (ps : List Piece) {bound : Nat} {read : List Char}
    (enough : (Piece.textOf ps).length < bound) :
    result? (stringFrom bound read) (ofList (Piece.textOf ps ++ '"' :: rest) p) =
      (Piece.meaning? ps).map fun cs =>
        (String.ofList (read.reverse ++ cs), ofList rest ((p.past (Piece.textOf ps)).after '"')) := by
  obtain ⟨bound, rfl⟩ := Nat.exists_eq_succ_of_ne_zero (Nat.ne_zero_of_lt enough)
  fun_induction Piece.meaning? ps generalizing bound read p with
  | case1 => simp [stringFrom, result?_stringPiece]
  | case2 ch quote backslash printable ps ih =>
    rw [Piece.textOf_plain, List.length_cons] at enough
    obtain ⟨bound, rfl⟩ := Nat.exists_eq_succ_of_ne_zero (n := bound) (by omega)
    exact stringFrom_of_piece (result?_stringPiece_plain quote backslash printable) (ih bound (by omega))
  | case3 mark meant h ps ih =>
    rw [Piece.textOf_short, List.length_cons, List.length_cons] at enough
    obtain ⟨bound, rfl⟩ := Nat.exists_eq_succ_of_ne_zero (n := bound) (by omega)
    exact stringFrom_of_piece (result?_stringPiece_short h) (ih bound (by omega))
  | case4 a b c d n h ps low =>
    exact stringFrom_of_error ((result?_stringPiece_code h).trans (if_pos low)) bound read
  | case5 a b c d high h notLow isHigh a' b' c' d' low h' ps isLow ih =>
    simp only [Piece.textOf_code, List.length_cons] at enough
    obtain ⟨bound, rfl⟩ := Nat.exists_eq_succ_of_ne_zero (n := bound) (by omega)
    simp only [Piece.textOf_code, List.cons_append]
    refine stringFrom_of_piece ?_ (ih bound (by omega))
    rw [result?_stringPiece_code h]
    simp only [notLow, isHigh, ↓reduceIte, result?_pair_code h', isLow, Option.bind_some]
    rfl
  | case6 a b c d high h notLow isHigh a' b' c' d' low h' ps notLow' =>
    simp only [Piece.textOf_code, List.cons_append]
    refine stringFrom_of_error ?_ bound read
    rw [result?_stringPiece_code h]
    simp only [notLow, isHigh, ↓reduceIte, result?_pair_code h', notLow', Option.bind_some]
    rfl
  | case7 a b c d high h ps notLow isHigh other =>
    simp only [Piece.textOf_code, List.cons_append]
    refine stringFrom_of_error ?_ bound read
    rw [result?_stringPiece_code h]
    simp only [notLow, isHigh, ↓reduceIte, result?_pair_other other, Option.bind_none]
    rfl
  | case8 a b c d n h ps notLow notHigh ih =>
    simp only [Piece.textOf_code, List.length_cons] at enough
    obtain ⟨bound, rfl⟩ := Nat.exists_eq_succ_of_ne_zero (n := bound) (by omega)
    simp only [Piece.textOf_code, List.cons_append]
    refine stringFrom_of_piece ?_ (ih bound (by omega))
    rw [result?_stringPiece_code h]
    simp only [notLow, notHigh]
    rfl

theorem result?_string_ofList (ps : List Piece) :
    result? string (ofList (Piece.textOf ps ++ '"' :: rest) p) =
      (Piece.meaning? ps).map fun cs => (String.ofList cs, ofList rest ((p.past (Piece.textOf ps)).after '"')) := by
  rw [result?_string, result?_stringFrom ps (length_lt_size _)]
  rfl

/-! ### Numbers -/

/-- What follows does not go on with a number. -/
def EndsNumber (rest : List Char) : Prop :=
  ∀ ch, rest.head? = some ch → Decimal.isDigit ch = false ∧ ch ≠ '.' ∧ ch ≠ 'e' ∧ ch ≠ 'E'

theorem digits_head (ds : Digits) : ∃ ch tail, ds.1 = ch :: tail ∧ Decimal.isDigit ch = true := by
  obtain ⟨cs, some, all⟩ := ds
  obtain ⟨ch, tail, rfl⟩ := List.exists_cons_of_ne_nil some
  exact ⟨ch, tail, rfl, all ch List.mem_cons_self⟩

theorem result?_someDigits_ofList (ds : Digits) (atEnd : Cause)
    (stop : ∀ ch, rest.head? = some ch → Decimal.isDigit ch = false) :
    result? (someDigits atEnd) (ofList (ds.1 ++ rest) p) = some (ds.values, ofList rest (p.past ds.1)) := by
  obtain ⟨ch, tail, hds, digit⟩ := digits_head ds
  rw [result?_someDigits, takeWhile_ofList ds.2.2 stop, skipWhile_ofList ds.2.2 stop, rest_ofList, hds]
  simp [digit, Digits.values, hds]

theorem result?_exponentText_ofList (e : Option ExponentSpelling) (atEnd : Cause) (ends : EndsNumber rest) :
    result? (exponentText atEnd) (ofList (e.elim [] (·.text) ++ rest) p) =
      some (e.map (·.parts), ofList rest (p.past (e.elim [] (·.text)))) := by
  rw [result?_exponentText]
  cases e with
  | none =>
    have other : ¬(rest.head? = some 'e' ∨ rest.head? = some 'E') := by
      rintro (h | h)
      · exact (ends _ h).2.2.1 rfl
      · exact (ends _ h).2.2.2 rfl
    exact if_neg other
  | some e =>
    obtain ⟨capital, minus, size⟩ := e
    obtain ⟨ch, tail, hsize, digit⟩ := digits_head size
    have digits (p : Position) : result? (someDigits atEnd) (ofList (size.1 ++ rest) p) = _ :=
      result?_someDigits_ofList size atEnd fun ch h => (ends ch h).1
    have plus : ch ≠ '+' := by rintro rfl; cases digit
    have dash : ch ≠ '-' := by rintro rfl; cases digit
    cases minus with
    | none =>
      have unsigned : (size.1 ++ rest).head? = some ch := by rw [hsize]; rfl
      cases capital <;> simp [ExponentSpelling.text, ExponentSpelling.parts, unsigned, plus, dash, digits]
    | some minus =>
      cases capital <;> cases minus <;> simp [ExponentSpelling.text, ExponentSpelling.parts, digits]

theorem result?_fractionText_ofList (f : Option Digits) (atEnd : Cause)
    (stop : ∀ ch, rest.head? = some ch → Decimal.isDigit ch = false ∧ ch ≠ '.') :
    result? (fractionText atEnd) (ofList (f.elim [] (fun ds => '.' :: ds.1) ++ rest) p) =
      some (f.map Digits.values, ofList rest (p.past (f.elim [] fun ds => '.' :: ds.1))) := by
  rw [result?_fractionText]
  cases f with
  | none => exact if_neg fun h => (stop _ h).2 rfl
  | some ds =>
    have digits (p : Position) : result? (someDigits atEnd) (ofList (ds.1 ++ rest) p) = _ :=
      result?_someDigits_ofList ds atEnd fun ch h => (stop ch h).1
    simp [digits]

theorem result?_wholeDigits_ofList (ds : Digits) (zero : ds.1.head? = some '0' → ds.1 = ['0']) (atEnd : Cause)
    (stop : ∀ ch, rest.head? = some ch → Decimal.isDigit ch = false) :
    result? (wholeDigits atEnd) (ofList (ds.1 ++ rest) p) = some (ds.values, ofList rest (p.past ds.1)) := by
  obtain ⟨ch, tail, hds, digit⟩ := digits_head ds
  have first : (ds.1 ++ rest).head? = some ch := by rw [hds]; rfl
  rw [result?_wholeDigits, rest_ofList, first]
  split
  · next h =>
    cases h
    have alone := zero (by rw [hds]; rfl)
    have ended : rest.head?.any Decimal.isDigit = false := by
      cases h : rest.head? with
      | none => rfl
      | some ch => exact stop ch h
    simp [Digits.values, alone, ended]
    rfl
  · exact result?_someDigits_ofList ds atEnd stop

theorem result?_signText_ofList (negative : Bool) {ch : Char} (begins : rest.head? = some ch) (other : ch ≠ '-') :
    result? signText (ofList ((if negative then ['-'] else []) ++ rest) p) =
      some (negative, ofList rest (p.past (if negative then ['-'] else []))) := by
  rw [result?_signText]
  cases negative <;> simp [begins, other]

theorem result?_numberText_ofList (n : NumberSpelling) (atEnd : Cause) (ends : EndsNumber rest) :
    result? (numberText atEnd) (ofList (n.text ++ rest) p) = some (n.parts, ofList rest (p.past n.text)) := by
  obtain ⟨negative, whole, zero, fraction, exponent⟩ := n
  have stopFraction : ∀ ch, ((exponent.elim [] (·.text)) ++ rest).head? = some ch →
      Decimal.isDigit ch = false ∧ ch ≠ '.' := by
    cases exponent with
    | none => exact fun ch h => ⟨(ends ch h).1, (ends ch h).2.1⟩
    | some e =>
      obtain ⟨capital, _, _⟩ := e
      rintro ch ⟨⟩
      cases capital <;> exact ⟨rfl, fun h => by cases h⟩
  have stopWhole : ∀ ch, ((fraction.elim [] fun ds => '.' :: ds.1) ++ (exponent.elim [] (·.text) ++ rest)).head? =
      some ch → Decimal.isDigit ch = false := by
    cases fraction with
    | none => exact fun ch h => (stopFraction ch h).1
    | some ds =>
      rintro ch ⟨⟩
      rfl
  obtain ⟨ch, tail, hwhole, digit⟩ := digits_head whole
  have dash : ch ≠ '-' := by rintro rfl; cases digit
  simp only [NumberSpelling.text, List.append_assoc, numberText_eq, result?_bind]
  rw [result?_signText_ofList negative (by rw [hwhole]; rfl) dash, Option.bind_some,
    result?_wholeDigits_ofList whole zero atEnd stopWhole, Option.bind_some,
    result?_fractionText_ofList fraction atEnd stopFraction, Option.bind_some,
    result?_exponentText_ofList exponent atEnd ends, Option.bind_some]
  simp only [Position.past_append]
  rfl

theorem result?_number_ofList (n : NumberSpelling) (ends : EndsNumber rest) :
    result? number (ofList (n.text ++ rest) p) = n.parts.value?.map fun x => (x, ofList rest (p.past n.text)) := by
  rw [result?_number, result?_numberText_ofList n .endInValue ends]
  rfl

/-! ### What follows a value -/

theorem endsNumber_cons {ch : Char} (h : ch = ',' ∨ ch = ']' ∨ ch = '\x7d') : EndsNumber (ch :: rest) := by
  rintro _ ⟨⟩
  rcases h with rfl | rfl | rfl <;> decide

theorem EndsNumber.blanks (ends : EndsNumber rest) (b : Blanks) : EndsNumber (b.1 ++ rest) := by
  obtain ⟨cs, blank⟩ := b
  cases cs with
  | nil => exact ends
  | cons ch cs =>
    rintro _ ⟨⟩
    have blank := blank ch List.mem_cons_self
    simp only [isBlank, Bool.or_eq_true, beq_iff_eq] at blank
    rcases blank with ((rfl | rfl) | rfl) | rfl <;> decide

theorem endsNumber_items (items : ItemSpellings) : EndsNumber (items.text false ++ ']' :: rest) := by
  cases items with
  | done last => exact (endsNumber_cons (by simp)).blanks last
  | item comma before v items =>
    simp only [ItemSpellings.text, lead, Bool.false_eq_true, ↓reduceIte, List.append_assoc]
    exact (endsNumber_cons (by simp)).blanks comma

theorem endsNumber_members (members : MemberSpellings) : EndsNumber (members.text false ++ '\x7d' :: rest) := by
  cases members with
  | done last => exact (endsNumber_cons (by simp)).blanks last
  | member comma before key colon after v members =>
    simp only [MemberSpellings.text, lead, Bool.false_eq_true, ↓reduceIte, List.append_assoc]
    exact (endsNumber_cons (by simp)).blanks comma

/-! ### Values -/

theorem number_head (n : NumberSpelling) : ∃ ch tail, n.text = ch :: tail ∧ beginsNumber ch = true := by
  obtain ⟨negative, whole, zero, fraction, exponent⟩ := n
  obtain ⟨ch, tail, hwhole, digit⟩ := digits_head whole
  cases negative with
  | true => exact ⟨'-', _, rfl, rfl⟩
  | false => exact ⟨ch, _, by simp [NumberSpelling.text, hwhole]; rfl, by simp [beginsNumber, digit]⟩

/-- A value begins with a character that is neither blank nor the end of a list. -/
theorem spelling_head (s : Spelling) : ∃ ch tail, s.text = ch :: tail ∧ isBlank ch = false ∧ ch ≠ ']' := by
  cases s with
  | number n =>
    obtain ⟨ch, tail, h, begins⟩ := number_head n
    refine ⟨ch, tail, h, ?_, ?_⟩
    · simp only [isBlank, Bool.or_eq_false_iff, beq_eq_false_iff_ne]
      refine ⟨⟨⟨?_, ?_⟩, ?_⟩, ?_⟩ <;> (rintro rfl; cases begins)
    · rintro rfl
      cases begins
  | _ => exact ⟨_, _, rfl, by decide, by decide⟩

/-- Where a further item or key begins. -/
theorem further?_lead (first : Bool) (comma before : Blanks) {ch : Char} {tail : List Char}
    (blank : isBlank ch = false) :
    further? first (ofList (lead first comma before ++ ch :: tail) p) =
      some (ofList (ch :: tail) (p.past (lead first comma before))) := by
  have stop (b : Blanks) (p : Position) :
      (ofList (b.1 ++ ch :: tail) p).skipBlanks = ofList (ch :: tail) (p.past b.1) :=
    skipBlanks_ofList b (by rintro _ ⟨⟩; exact blank)
  cases first with
  | true => simp [further?, lead, stop]
  | false =>
    have stopComma : (ofList (comma.1 ++ ',' :: (before.1 ++ ch :: tail)) p).skipBlanks = _ :=
      skipBlanks_ofList comma (by rintro _ ⟨⟩; rfl)
    simp [further?, lead, stop, stopComma, Position.past_append]

theorem hasItem_lead (first : Bool) (comma before : Blanks) (v : Spelling) :
    result? (hasItem first) (ofList (lead first comma before ++ (v.text ++ rest)) p) =
      some (true, ofList (v.text ++ rest) (p.past (lead first comma before))) := by
  obtain ⟨ch, tail, hv, blank, bracket⟩ := spelling_head v
  rw [hv]
  exact hasItem_eq_true_iff.mpr ⟨further?_lead first comma before blank, ch, rfl, bracket⟩

theorem hasItem_last (first : Bool) (last : Blanks) :
    result? (hasItem first) (ofList (last.1 ++ ']' :: rest) p) =
      some (false, ofList (']' :: rest) (p.past last.1)) := by
  have stop : (ofList (last.1 ++ ']' :: rest) p).skipBlanks = _ := skipBlanks_ofList last (by rintro _ ⟨⟩; rfl)
  exact hasItem_eq_false_iff.mpr (by simp [stop])

theorem hasKey_lead (first : Bool) (comma before : Blanks) :
    result? (hasKey first) (ofList (lead first comma before ++ '"' :: rest) p) =
      some (true, ofList ('"' :: rest) (p.past (lead first comma before))) :=
  hasKey_eq_true_iff.mpr ⟨further?_lead first comma before rfl, rfl⟩

theorem hasKey_last (first : Bool) (last : Blanks) :
    result? (hasKey first) (ofList (last.1 ++ '\x7d' :: rest) p) =
      some (false, ofList ('\x7d' :: rest) (p.past last.1)) := by
  have stop : (ofList (last.1 ++ '\x7d' :: rest) p).skipBlanks = _ := skipBlanks_ofList last (by rintro _ ⟨⟩; rfl)
  exact hasKey_eq_false_iff.mpr (by simp [stop])

theorem tree_eq (depth : Nat) : tree depth = treeWith (nested depth) := by
  cases depth <;> rfl

theorem result?_tree {depth : Nat} {c : Cursor} {ch : Char} (begins : c.skipBlanks.rest.head? = some ch) :
    result? (tree depth) c =
      if ch = '[' then
        (nested depth).bind fun r =>
          (result? (enclosed (items r) closeList) c.skipBlanks).map fun x => (.array x.1, x.2)
      else if ch = '\x7b' then
        (nested depth).bind fun r =>
          (result? (enclosed (members (treeMember r) []) closeObject) c.skipBlanks).map
            fun x => (.object x.1.reverse, x.2)
      else result? (scalar ch) c.skipBlanks := by
  rw [tree_eq]
  unfold treeWith
  rw [result?_bind, result?_start, begins]
  simp only [Option.map_some, Option.bind_some]
  split
  · cases nested depth with
    | none => rfl
    | some r => simp [Option.map_eq_bind]
  split
  · cases nested depth with
    | none => rfl
    | some r => simp [Option.map_eq_bind]
  · rfl

/-- A value whose brackets, if any, are not looked into. -/
theorem result?_tree_scalar (depth : Nat) (b : Blanks) {ch : Char} {tail : List Char} (blank : isBlank ch = false)
    (list : ch ≠ '[') (object : ch ≠ '\x7b') :
    result? (tree depth) (ofList (b.1 ++ ch :: tail) p) = result? (scalar ch) (ofList (ch :: tail) (p.past b.1)) := by
  have stop : (ofList (b.1 ++ ch :: tail) p).skipBlanks = _ := skipBlanks_ofList b (by rintro _ ⟨⟩; exact blank)
  rw [result?_tree (by rw [stop]; rfl), if_neg list, if_neg object, stop]

theorem result?_tree_word (depth : Nat) (b : Blanks) {ch : Char} (letters : List Char) {v : Json}
    (word : scalar ch = do skip; literal letters; return v) (blank : isBlank ch = false) (list : ch ≠ '[')
    (object : ch ≠ '\x7b') : result? (tree depth) (ofList (b.1 ++ (ch :: letters ++ rest)) p) =
      some (v, ofList rest ((p.past b.1).past (ch :: letters))) := by
  rw [List.cons_append, result?_tree_scalar depth b blank list object, word]
  simp [result?_literal]

theorem result?_tree_list (depth : Nat) (b : Blanks) {tail : List Char} :
    result? (tree depth) (ofList (b.1 ++ '[' :: tail) p) =
      (nested depth).bind fun r => (result? (enclosed (items r) closeList) (ofList ('[' :: tail) (p.past b.1))).map
        fun x => (.array x.1, x.2) := by
  have stop : (ofList (b.1 ++ '[' :: tail) p).skipBlanks = _ := skipBlanks_ofList b (by rintro _ ⟨⟩; rfl)
  rw [result?_tree (by rw [stop]; rfl), if_pos rfl, stop]

theorem result?_tree_object (depth : Nat) (b : Blanks) {tail : List Char} :
    result? (tree depth) (ofList (b.1 ++ '\x7b' :: tail) p) =
      (nested depth).bind fun r =>
        (result? (enclosed (members (treeMember r) []) closeObject) (ofList ('\x7b' :: tail) (p.past b.1))).map
          fun x => (.object x.1.reverse, x.2) := by
  have stop : (ofList (b.1 ++ '\x7b' :: tail) p).skipBlanks = _ := skipBlanks_ofList b (by rintro _ ⟨⟩; rfl)
  rw [result?_tree (by rw [stop]; rfl), if_neg (by decide), if_pos rfl, stop]

theorem closeList_bracket : closeList (ofList (']' :: rest) p) = (ofList rest (p.after ']'), none) := rfl

theorem closeObject_bracket : closeObject (ofList ('\x7d' :: rest) p) = (ofList rest (p.after '\x7d'), none) := rfl

theorem scalar_number {ch : Char} (begins : beginsNumber ch = true) : scalar ch = Json.number <$> number := by
  have other (ch' : Char) (h : beginsNumber ch' = false) : ch ≠ ch' := by
    rintro rfl
    simp [begins] at h
  simp only [scalar, begins, ↓reduceIte, other 'n' rfl, other 't' rfl, other 'f' rfl, other '"' rfl, bind_pure_comp]

theorem result?_colon_ofList (b : Blanks) :
    result? colon (ofList (b.1 ++ ':' :: rest) p) = some ((), ofList rest ((p.past b.1).after ':')) := by
  have stop : (ofList (b.1 ++ ':' :: rest) p).skipBlanks = _ := skipBlanks_ofList b (by rintro _ ⟨⟩; rfl)
  simp [stop]

mutual

theorem result?_tree_spelling : (s : Spelling) → ∀ (depth : Nat) (b : Blanks) (p : Position) {rest : List Char},
    EndsNumber rest → result? (tree depth) (ofList (b.1 ++ (s.text ++ rest)) p) =
      (s.value? depth).map fun v => (v, ofList rest ((p.past b.1).past s.text))
  | .null, depth, b, p, rest, _ => result?_tree_word depth b ['u', 'l', 'l'] rfl rfl (by decide) (by decide)
  | .true, depth, b, p, rest, _ => result?_tree_word depth b ['r', 'u', 'e'] rfl rfl (by decide) (by decide)
  | .false, depth, b, p, rest, _ => result?_tree_word depth b ['a', 'l', 's', 'e'] rfl rfl (by decide) (by decide)
  | .string ps, depth, b, p, rest, _ => by
    simp only [Spelling.text, Piece.quoted, List.cons_append, List.append_assoc, List.nil_append]
    refine (result?_tree_scalar depth b rfl (by decide) (by decide)).trans ?_
    simp [scalar, Spelling.value?, result?_string_ofList, Option.map_eq_bind, Option.bind_assoc, Position.past_append]
  | .number n, depth, b, p, rest, ends => by
    obtain ⟨ch, tail, hn, begins⟩ := number_head n
    have blank : isBlank ch = false := by
      obtain ⟨_, _, h, blank, -⟩ := spelling_head (.number n)
      cases hn.symm.trans h
      exact blank
    have number := result?_number_ofList (p := p.past b.1) n ends
    simp only [Spelling.text, hn, List.cons_append] at number ⊢
    rw [result?_tree_scalar depth b blank (by rintro rfl; cases begins) (by rintro rfl; cases begins),
      scalar_number begins, result?_map, number, Spelling.value?, Option.map_map, Option.map_map]
    rfl
  | .list content, 0, b, p, rest, _ => by
    simp only [Spelling.text, List.cons_append]
    rw [result?_tree_list]
    rfl
  | .list content, depth + 1, b, p, rest, _ => by
    simp only [Spelling.text, List.cons_append, List.append_assoc, List.nil_append]
    have inside (q : Position) : result? (items (tree depth)) (ofList (content.text true ++ ']' :: rest) q) = _ :=
      result?_itemsFrom_spelling content depth _ 0 [] q rest (length_lt_size _)
    rw [result?_tree_list]
    show Option.map _ (result? (enclosed (items (tree depth)) closeList) _) = _
    rw [result?_enclosed, next_ofList_cons, inside, Spelling.value?]
    cases content.values? depth <;> simp [closeList_bracket, Position.past_append]
  | .object content, 0, b, p, rest, _ => by
    simp only [Spelling.text, List.cons_append]
    rw [result?_tree_object]
    rfl
  | .object content, depth + 1, b, p, rest, _ => by
    simp only [Spelling.text, List.cons_append, List.append_assoc, List.nil_append]
    have inside (q : Position) :
        result? (members (treeMember (tree depth)) []) (ofList (content.text true ++ '\x7d' :: rest) q) = _ :=
      result?_membersFrom_spelling content depth _ true [] q rest (length_lt_size _)
    rw [result?_tree_object]
    show Option.map _ (result? (enclosed (members (treeMember (tree depth)) []) closeObject) _) = _
    rw [result?_enclosed, next_ofList_cons, inside, Spelling.value?]
    cases content.values? depth <;> simp [closeObject_bracket, Position.past_append]

theorem result?_itemsFrom_spelling : (items : ItemSpellings) → ∀ (depth bound k : Nat) (read : List Json)
    (p : Position) (rest : List Char), (items.text (k == 0)).length < bound →
    result? (itemsFrom (tree depth) bound k read) (ofList (items.text (k == 0) ++ ']' :: rest) p) =
      (items.values? depth).map fun vs => (read.reverse ++ vs, ofList (']' :: rest) (p.past (items.text (k == 0))))
  | .done last, depth, bound, k, read, p, rest, enough => by
    obtain ⟨bound, rfl⟩ := Nat.exists_eq_succ_of_ne_zero (Nat.ne_zero_of_lt enough)
    simp [itemsFrom, ItemSpellings.text, ItemSpellings.values?, hasItem_last]
  | .item comma before v items, depth, bound, k, read, p, rest, enough => by
    obtain ⟨bound, rfl⟩ := Nat.exists_eq_succ_of_ne_zero (Nat.ne_zero_of_lt enough)
    simp only [ItemSpellings.text, List.append_assoc, List.length_append] at enough ⊢
    obtain ⟨ch, tail, hv, -⟩ := spelling_head v
    have one : 0 < v.text.length := by rw [hv]; exact Nat.succ_pos _
    rw [itemsFrom, result?_bind, hasItem_lead, Option.bind_some]
    simp only [↓reduceIte, result?_bind, result?_within]
    have ends : EndsNumber (items.text false ++ ']' :: rest) := endsNumber_items items
    have first := result?_tree_spelling v depth .none (p.past (lead (k == 0) comma before)) ends
    simp only [Blanks.none_val, List.nil_append, Position.past_nil] at first
    rw [first, ItemSpellings.values?]
    cases v.value? depth with
    | none => rfl
    | some a =>
      have go := result?_itemsFrom_spelling items depth bound (k + 1) (a :: read)
        ((p.past (lead (k == 0) comma before)).past v.text) rest (by simp; omega)
      simp only [Option.map_some, Option.bind_some]
      refine go.trans ?_
      cases items.values? depth <;> simp [Position.past_append]

theorem result?_membersFrom_spelling : (members : MemberSpellings) → ∀ (depth bound : Nat)
    (first : Bool) (read : List (String × Json)) (p : Position) (rest : List Char),
    (members.text first).length < bound →
    result? (membersFrom (treeMember (tree depth)) bound first read) (ofList (members.text first ++ '\x7d' :: rest) p) =
      (members.values? depth).map fun ms => (ms.reverse ++ read, ofList ('\x7d' :: rest) (p.past (members.text first)))
  | .done last, depth, bound, first, read, p, rest, enough => by
    obtain ⟨bound, rfl⟩ := Nat.exists_eq_succ_of_ne_zero (Nat.ne_zero_of_lt enough)
    simp [membersFrom_of_done (hasKey_last first last), MemberSpellings.text, MemberSpellings.values?]
  | .member comma before key' colon' after v members, depth, bound, first, read, p, rest, enough => by
    obtain ⟨bound, rfl⟩ := Nat.exists_eq_succ_of_ne_zero (Nat.ne_zero_of_lt enough)
    simp only [MemberSpellings.text, Piece.quoted, List.append_assoc, List.cons_append, List.nil_append,
      List.length_append, List.length_cons] at enough ⊢
    rw [membersFrom_of_member (hasKey_lead first comma before)]
    simp only [result?_bind, result?_within, treeMember, result?_key, next_ofList_cons]
    rw [result?_string_ofList, MemberSpellings.values?]
    cases Piece.meaning? key' with
    | none => rfl
    | some k =>
      simp only [Option.map_some, Option.bind_some, result?_colon_ofList]
      have ends : EndsNumber (members.text false ++ '\x7d' :: rest) := endsNumber_members members
      rw [result?_tree_spelling v depth after _ ends]
      cases v.value? depth with
      | none => rfl
      | some a =>
        simp only [Option.map_some, Option.bind_some, result?_pure]
        refine (result?_membersFrom_spelling members depth bound false ((String.ofList k, a) :: read) _ rest
          (by omega)).trans ?_
        cases members.values? depth <;> simp [Position.past_append]

end

/-- A document has the value that is spelled in it. -/
theorem document_tree_iff {t : String} {before after : Blanks} {s : Spelling}
    (h : t.toList = before.1 ++ s.text ++ after.1) {depth : Nat} {v : Json} :
    document (tree depth) t = .ok v ↔ s.value? depth = some v := by
  have none : EndsNumber [] := fun _ h => nomatch h
  have ends : EndsNumber after.1 := by simpa using none.blanks after
  have ended (p : Position) : (ofList after.1 p).skipBlanks.rest = [] := by
    have stop : (ofList (after.1 ++ []) p).skipBlanks = ofList [] (p.past after.1) :=
      skipBlanks_ofList after fun _ h => nomatch h
    rw [List.append_nil] at stop
    rw [stop, rest_ofList]
  rw [document_eq_ok_iff, Cursor.ofString, h, List.append_assoc, result?_tree_spelling s depth before {} ends]
  constructor
  · rintro ⟨c, read, -⟩
    obtain ⟨_, value, same⟩ := Option.map_eq_some_iff.mp read
    cases same
    exact value
  · intro hv
    exact ⟨_, by rw [hv]; rfl, ended _⟩

end Reader

end CipherGraph.Json
