import CipherGraph.Json.Printer
import CipherGraph.Json.Typed
import CipherGraph.Proofs.Json.Reading
import Mathlib.Data.List.Basic
import Mathlib.Data.Nat.Digits.Defs

/-! # What is printed can be read back

The text that the printer gives a value, in any layout with blanks only, is a spelling of that value, as long as its
numbers are integers that fit into words of 64 bits. So it reads back as the same value, with its members in the same
order. -/

namespace CipherGraph.Json

/-! ### Numbers -/

section Numbers

theorem isDigit_of_mem_ofNat {n : Nat} {ch : Char} (h : ch ∈ Decimal.ofNat n) : Decimal.isDigit ch = true :=
  Nat.isDigit_of_mem_toDigits (by decide) (by decide) h

def printedDigits (n : Nat) : Digits :=
  ⟨Decimal.ofNat n, Nat.toDigits_ne_nil, fun _ => isDigit_of_mem_ofNat⟩

theorem ofDigits_printedDigits (n : Nat) : Decimal.ofDigits (printedDigits n).values = n :=
  (Decimal.ofDigits_digitValue (Decimal.ofNat n)).trans (Nat.ofDigitChars_toDigits (by decide) (by decide))

/-- Only zero begins with a zero. -/
theorem ofNat_of_head_zero {n : Nat} (h : (Decimal.ofNat n).head? = some '0') : Decimal.ofNat n = ['0'] := by
  unfold Decimal.ofNat at h ⊢
  induction n using Nat.strongRecOn with
  | ind n ih =>
    by_cases small : n < 10
    · rw [Nat.toDigits_of_lt_base small] at h ⊢
      exact congrArg (fun ch => [ch]) (Option.some.inj h)
    · rw [Nat.toDigits_of_base_le (by decide) (by omega)] at h
      obtain ⟨ch, tail, hfront⟩ := List.exists_cons_of_ne_nil (Nat.toDigits_ne_nil (n := n / 10) (b := 10))
      have front := ih (n / 10) (by omega) (by rw [hfront] at h ⊢; exact h)
      have zero : n / 10 = 0 := by
        rw [← Nat.ofDigitChars_toDigits (b := 10) (n := n / 10) (by decide) (by decide), front]
        rfl
      omega

def printedInteger (i : Int) : NumberSpelling where
  negative := i < 0
  whole := printedDigits i.natAbs
  zero := ofNat_of_head_zero
  fraction := none
  exponent := none

theorem text_printedInteger (i : Int) : (printedInteger i).text = printNumber (.integer i) := by
  cases i with
  | ofNat n => simp [printedInteger, NumberSpelling.text, printNumber, Decimal.ofInt, printedDigits]
  | negSucc n => simp [printedInteger, NumberSpelling.text, printNumber, Decimal.ofInt, printedDigits]

/-- Integers that a word of 64 bits holds, signed or not. -/
def fitsWord (i : Int) : Prop :=
  Int64.minValue.toInt ≤ i ∧ i < UInt64.size

theorem value?_printedInteger {i : Int} (fits : fitsWord i) : (printedInteger i).parts.value? = some (.integer i) := by
  have whole : Reader.wholeNumber? (decide (i < 0)) (printedDigits i.natAbs).values = some i := by
    obtain ⟨low, high⟩ := fits
    unfold Reader.wholeNumber?
    rw [ofDigits_printedDigits]
    by_cases negative : i < 0
    · have : -(i.natAbs : Int) = i := by omega
      simp only [negative, decide_true, ↓reduceIte, this]
      exact if_pos ⟨by omega, low⟩
    · have : (i.natAbs : Int) = i := by omega
      simp only [negative, decide_false, Bool.false_eq_true, ↓reduceIte, this]
      exact if_pos (by omega)
  simp [Reader.NumberText.value?, Reader.evaluate, NumberSpelling.parts, printedInteger, whole]

end Numbers

/-! ### Strings -/

/-- A piece stands for a character, whatever comes after it. -/
def Piece.StandsFor (q : Piece) (ch : Char) : Prop :=
  ∀ ps, Piece.meaning? (q :: ps) = (Piece.meaning? ps).map (ch :: ·)

theorem hexCode?_hex : ∀ n < 0x20, (Text.hex 4 n).length = 4 ∧ Reader.hexCode? (Text.hex 4 n) = some n := by
  decide

theorem exists_code {ch : Char} (control : ch.toNat < 0x20) :
    ∃ q : Piece, q.text = '\\' :: 'u' :: Text.hex 4 ch.toNat ∧ q.StandsFor ch := by
  obtain ⟨four, code⟩ := hexCode?_hex ch.toNat control
  obtain ⟨a, b, c, d, digits⟩ := List.length_eq_four.mp four
  rw [digits] at code ⊢
  refine ⟨.code a b c d ch.toNat code, rfl, fun ps => ?_⟩
  have notLow : Piece.isLow ch.toNat = false := by simp [Piece.isLow]; omega
  have notHigh : Piece.isHigh ch.toNat = false := by simp [Piece.isHigh]; omega
  rw [Piece.meaning?.eq_def]
  simp [notLow, notHigh, Char.ofNat_toNat]

/-- Every character has a piece that is printed for it. -/
theorem exists_piece (ch : Char) : ∃ q : Piece, q.text = escapedChar ch ∧ q.StandsFor ch := by
  have short (mark : Char) (h : Reader.simpleEscape? mark = some ch) (same : escapedChar ch = ['\\', mark]) :
      ∃ q : Piece, q.text = escapedChar ch ∧ q.StandsFor ch :=
    ⟨.short mark ch h, same.symm, fun _ => by rw [Piece.meaning?]⟩
  have eq_of_toNat {n : Nat} (h : ch.toNat = n) : ch = Char.ofNat n := by rw [← h, Char.ofNat_toNat]
  by_cases quote : ch = '"'
  · subst quote
    exact short '"' rfl rfl
  by_cases backslash : ch = '\\'
  · subst backslash
    exact short '\\' rfl rfl
  by_cases back : ch.toNat = 0x08
  · cases eq_of_toNat back
    exact short 'b' rfl rfl
  by_cases feed : ch.toNat = 0x0C
  · cases eq_of_toNat feed
    exact short 'f' rfl rfl
  by_cases line : ch = '\n'
  · subst line
    exact short 'n' rfl rfl
  by_cases ret : ch = '\r'
  · subst ret
    exact short 'r' rfl rfl
  by_cases tab : ch = '\t'
  · subst tab
    exact short 't' rfl rfl
  by_cases control : ch.toNat < 0x20
  · have escaped : escapedChar ch = '\\' :: 'u' :: Text.hex 4 ch.toNat := by
      simp [escapedChar, quote, backslash, back, feed, line, ret, tab, control]
    rw [escaped]
    exact exists_code control
  · refine ⟨.plain ch quote backslash (by omega), ?_, fun _ => by rw [Piece.meaning?]⟩
    simp [escapedChar, Piece.text, quote, backslash, back, feed, line, ret, tab, control]

theorem exists_pieces (cs : List Char) :
    ∃ ps, Piece.textOf ps = cs.flatMap escapedChar ∧ Piece.meaning? ps = some cs := by
  induction cs with
  | nil => exact ⟨[], rfl, rfl⟩
  | cons ch cs ih =>
    obtain ⟨q, hq, meaning⟩ := exists_piece ch
    obtain ⟨ps, hps, hcs⟩ := ih
    refine ⟨q :: ps, ?_, by rw [meaning, hcs]; rfl⟩
    rw [List.flatMap_cons, ← hq, ← hps]
    rfl

theorem exists_quoted (s : String) :
    ∃ ps, Piece.quoted ps = printString s ∧ Piece.meaning? ps = some s.toList := by
  obtain ⟨ps, hps, meaning⟩ := exists_pieces s.toList
  exact ⟨ps, by rw [Piece.quoted, hps]; rfl, meaning⟩

namespace Reader
open Cursor
variable {p : Position} {rest : List Char}

/-- A printed string is read from its quote on. -/
theorem result?_string_print (s : String) :
    result? string (ofList (printString s ++ rest) p).next = some (s, ofList rest (p.past (printString s))) := by
  obtain ⟨ps, quoted, meaning⟩ := exists_quoted s
  rw [← quoted]
  simp [Piece.quoted, result?_string_ofList, meaning, Position.past_append]

theorem result?_key_print (k : String) :
    result? key (ofList (printString k ++ rest) p) = some (k, ofList rest (p.past (printString k))) := by
  rw [result?_key, result?_string_print]

theorem result?_text_print (s : String) :
    result? text (ofList (printString s ++ rest) p) = some (s, ofList rest (p.past (printString s))) := by
  have stays : (ofList (printString s ++ rest) p).skipBlanks = ofList (printString s ++ rest) p :=
    skipWhile_of_head fun ch h => by cases h; rfl
  rw [text, result?_bind, result?_start, stays]
  show result? (do skip; string) (ofList (printString s ++ rest) p) = _
  rw [result?_bind, result?_skip, Option.bind_some, result?_string_print]

theorem hasKey_print_first {k : String} :
    result? (hasKey true) (ofList (printString k ++ rest) p) = some (true, ofList (printString k ++ rest) p) :=
  hasKey_lead true .none .none

theorem hasKey_print_next {k : String} :
    result? (hasKey false) (ofList (',' :: (printString k ++ rest)) p) =
      some (true, ofList (printString k ++ rest) (p.after ',')) :=
  hasKey_lead false .none .none

end Reader

/-! ### Values -/

/-- A value whose numbers are integers of 64 bits and whose brackets are nested at most so deep. -/
inductive Exact : Nat → Json → Prop where
  | null (depth : Nat) : Exact depth .null
  | bool (depth : Nat) (value : Bool) : Exact depth (.bool value)
  | integer (depth : Nat) {i : Int} (fits : fitsWord i) : Exact depth (.number (.integer i))
  | string (depth : Nat) (value : String) : Exact depth (.string value)
  | array {depth : Nat} {items : List Json} (h : ∀ v ∈ items, Exact depth v) : Exact (depth + 1) (.array items)
  | object {depth : Nat} {members : List (String × Json)} (h : ∀ m ∈ members, Exact depth m.2) :
    Exact (depth + 1) (.object members)

/-- A layout puts blanks between tokens, and nothing else. -/
structure Layout.OnlyBlanks (layout : Layout) : Prop where
  lineBreak (depth : Nat) : ∀ ch ∈ layout.lineBreak depth, Cursor.isBlank ch = true
  colon : ∃ after : Blanks, layout.colon = ':' :: after.1

theorem Layout.onlyBlanks_compact : Layout.compact.OnlyBlanks where
  lineBreak _ _ h := nomatch h
  colon := ⟨.none, rfl⟩

theorem Layout.onlyBlanks_pretty : Layout.pretty.OnlyBlanks where
  lineBreak depth ch h := by
    rcases List.mem_cons.mp h with rfl | h
    · rfl
    · rw [(List.mem_replicate.mp h).2]
      rfl
  colon := ⟨⟨[' '], by simp [Cursor.isBlank]⟩, rfl⟩

/-- The text of a value is one of its spellings. -/
def PrintsAs (layout : Layout) (depth : Nat) (v : Json) : Prop :=
  ∀ level, ∃ s : Spelling, s.text = v.print layout level ∧ s.value? depth = some v

section Layouts
variable {layout : Layout} {depth : Nat}

theorem exists_items (blanks : layout.OnlyBlanks) (level : Nat) (last : Blanks) {vs : List Json}
    (h : ∀ v ∈ vs, PrintsAs layout depth v) : ∃ items : ItemSpellings,
      items.text false = printItems layout level vs ++ last.1 ∧ items.values? depth = some vs := by
  induction vs with
  | nil => exact ⟨.done last, rfl, rfl⟩
  | cons v vs ih =>
    obtain ⟨first, rest⟩ := List.forall_mem_cons.mp h
    obtain ⟨s, text, value⟩ := first level
    obtain ⟨items, texts, values⟩ := ih rest
    refine ⟨.item .none ⟨layout.lineBreak level, blanks.lineBreak level⟩ s items, ?_, ?_⟩
    · simp [ItemSpellings.text, lead, text, texts, printItems]
    · simp [ItemSpellings.values?, value, values]

theorem exists_members (blanks : layout.OnlyBlanks) (level : Nat) (last : Blanks) {ms : List (String × Json)}
    (h : ∀ m ∈ ms, PrintsAs layout depth m.2) : ∃ members : MemberSpellings,
      members.text false = printMembers layout level ms ++ last.1 ∧ members.values? depth = some ms := by
  obtain ⟨after, hcolon⟩ := blanks.colon
  induction ms with
  | nil => exact ⟨.done last, rfl, rfl⟩
  | cons m ms ih =>
    obtain ⟨k, v⟩ := m
    obtain ⟨first, rest⟩ := List.forall_mem_cons.mp h
    obtain ⟨s, text, value⟩ := first level
    obtain ⟨key, quoted, meaning⟩ := exists_quoted k
    obtain ⟨members, texts, values⟩ := ih rest
    refine ⟨.member .none ⟨layout.lineBreak level, blanks.lineBreak level⟩ key .none after s members,
      ?_, ?_⟩
    · simp [MemberSpellings.text, lead, text, texts, quoted, hcolon, printMembers]
    · simp [MemberSpellings.values?, meaning, value, values]

theorem printsAs_of_exact (blanks : layout.OnlyBlanks) {v : Json} (exact : Exact depth v) :
    PrintsAs layout depth v := by
  induction exact with
  | null depth => exact fun _ => ⟨.null, rfl, rfl⟩
  | bool depth value =>
    cases value with
    | true => exact fun _ => ⟨.true, rfl, rfl⟩
    | false => exact fun _ => ⟨.false, rfl, rfl⟩
  | @integer depth i fits =>
    refine fun _ => ⟨.number (printedInteger i), ?_, ?_⟩
    · rw [Spelling.text, text_printedInteger, print]
    · rw [Spelling.value?, value?_printedInteger fits, Option.map_some]
  | string depth value =>
    obtain ⟨ps, quoted, meaning⟩ := exists_quoted value
    refine fun _ => ⟨.string ps, ?_, ?_⟩
    · rw [Spelling.text, quoted, print]
    · rw [Spelling.value?, meaning, Option.map_some, String.ofList_toList]
  | @array depth items _ ih =>
    intro level
    cases items with
    | nil => exact ⟨.list (.done .none), rfl, rfl⟩
    | cons v vs =>
      obtain ⟨first, rest⟩ := List.forall_mem_cons.mp ih
      obtain ⟨s, text, value⟩ := first (level + 1)
      obtain ⟨items, texts, values⟩ :=
        exists_items blanks (level + 1) ⟨layout.lineBreak level, blanks.lineBreak level⟩ rest
      refine ⟨.list (.item .none ⟨layout.lineBreak (level + 1), blanks.lineBreak _⟩ s items), ?_, ?_⟩
      · simp [Spelling.text, ItemSpellings.text, lead, text, texts, print]
      · simp [Spelling.value?, ItemSpellings.values?, value, values]
  | @object depth members _ ih =>
    intro level
    cases members with
    | nil => exact ⟨.object (.done .none), rfl, rfl⟩
    | cons m ms =>
      obtain ⟨k, v⟩ := m
      obtain ⟨first, rest⟩ := List.forall_mem_cons.mp ih
      obtain ⟨s, text, value⟩ := first (level + 1)
      obtain ⟨key, quoted, meaning⟩ := exists_quoted k
      obtain ⟨after, hcolon⟩ := blanks.colon
      obtain ⟨members, texts, values⟩ :=
        exists_members blanks (level + 1) ⟨layout.lineBreak level, blanks.lineBreak level⟩ rest
      refine ⟨.object (.member .none ⟨layout.lineBreak (level + 1), blanks.lineBreak _⟩ key .none after s
        members), ?_, ?_⟩
      · simp [Spelling.text, MemberSpellings.text, lead, text, texts, quoted, hcolon, print]
      · simp [Spelling.value?, MemberSpellings.values?, meaning, value, values]

theorem isDocument_print (blanks : layout.OnlyBlanks) {v : Json} (exact : Exact depth v) :
    IsDocument (String.ofList (v.print layout 0)) := by
  obtain ⟨s, text, -⟩ := printsAs_of_exact blanks exact 0
  exact ⟨.none, .none, s, by simp [text]⟩

theorem document_print (blanks : layout.OnlyBlanks) {v : Json} (exact : Exact depth v) :
    Reader.document (Reader.tree depth) (String.ofList (v.print layout 0)) = .ok v := by
  obtain ⟨s, text, value⟩ := printsAs_of_exact blanks exact 0
  have spelled : (String.ofList (v.print layout 0)).toList = Blanks.none.1 ++ s.text ++ Blanks.none.1 := by simp [text]
  exact (Reader.document_tree_iff spelled).mpr value

end Layouts

end CipherGraph.Json
