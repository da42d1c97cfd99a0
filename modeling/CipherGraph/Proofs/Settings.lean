import CipherGraph.Proofs.Outcome
import CipherGraph.Settings
import Mathlib.Data.List.TakeWhile

/-! # What settings are accepted

A variable is read by a relation between its values and what they say, apart from the code that reads it: a port is a number
in decimal digits with blanks around it, and a flag is one of a few words. The settings are accepted exactly if every
variable that is set says something, and of two variables that do not, the port is reported. The address of a service tells
its host and its port, since the colon between them is the last one. -/

namespace CipherGraph

/-! ### Trimmed texts -/

namespace Text
variable {s t : String}

/-- A text is another one with blanks around it, which has no blanks at its own ends. -/
structure TrimsTo (s t : String) : Prop where
  blanks : ∃ lead trail : List Char, s.toList = lead ++ t.toList ++ trail ∧
    (∀ c ∈ lead, isBlank c = true) ∧ ∀ c ∈ trail, isBlank c = true
  first : ∀ c ∈ t.toList.head?, isBlank c = false
  last : ∀ c ∈ t.toList.getLast?, isBlank c = false

theorem head?_dropWhile {p : Char → Bool} {cs : List Char} {c : Char} (h : (cs.dropWhile p).head? = some c) :
    p c = false := by
  have stop := List.head?_dropWhile_not p cs
  rw [h] at stop
  exact stop

theorem dropWhile_append_of_head {p : Char → Bool} {lead rest : List Char} (dropped : ∀ c ∈ lead, p c = true)
    (stop : ∀ c ∈ rest.head?, p c = false) : (lead ++ rest).dropWhile p = rest := by
  rw [List.dropWhile_append_of_pos dropped]
  cases rest with
  | nil => rfl
  | cons c rest => exact List.dropWhile_cons_of_neg (by simp [stop c rfl])

theorem trimsTo_trim (s : String) : TrimsTo s (trim s) := by
  let front := s.toList.dropWhile isBlank
  let back := front.reverse.dropWhile isBlank
  have trimmed : (trim s).toList = back.reverse := String.toList_ofList
  have text : s.toList = s.toList.takeWhile isBlank ++ front := List.takeWhile_append_dropWhile.symm
  have ending : front = back.reverse ++ (front.reverse.takeWhile isBlank).reverse := by
    rw [← List.reverse_append, List.takeWhile_append_dropWhile, List.reverse_reverse]
  refine ⟨⟨s.toList.takeWhile isBlank, (front.reverse.takeWhile isBlank).reverse, ?_, fun c => List.mem_takeWhile_imp,
    fun c hc => List.mem_takeWhile_imp (List.mem_reverse.mp hc)⟩, fun c hc => ?_, fun c hc => ?_⟩
  · rw [trimmed, List.append_assoc, ← ending]
    exact text
  · -- What is first after both ends are cut is first after the front is cut.
    rw [trimmed] at hc
    have first : c ∈ front.head? := by
      rw [ending, List.head?_append, Option.mem_def.mp hc]
      rfl
    exact head?_dropWhile first
  · rw [trimmed, List.getLast?_reverse] at hc
    exact head?_dropWhile hc

/-- There is one way to trim a text. -/
theorem TrimsTo.trim_eq (h : TrimsTo s t) : trim s = t := by
  obtain ⟨⟨lead, trail, text, blankLead, blankTrail⟩, first, last⟩ := h
  have back : (t.toList ++ trail).reverse.dropWhile isBlank = t.toList.reverse := by
    rw [List.reverse_append]
    refine dropWhile_append_of_head (fun c hc => blankTrail c (List.mem_reverse.mp hc)) fun c hc => ?_
    rw [List.head?_reverse] at hc
    exact last c hc
  unfold trim
  rw [text, List.append_assoc]
  cases ht : t.toList with
  | nil =>
    have blank : ∀ c ∈ lead ++ ([] ++ trail), isBlank c = true := List.forall_mem_append.mpr ⟨blankLead, blankTrail⟩
    rw [List.dropWhile_eq_nil_iff.mpr blank, ← String.toList_inj, ht]
    rfl
  | cons c rest =>
    rw [dropWhile_append_of_head blankLead, ← ht, back, List.reverse_reverse, String.ofList_toList]
    intro c' hc'
    rw [ht] at first
    exact first c' hc'

/-- A text is split at the last place where a character stands. -/
def SplitsAtLast (c : Char) (s before after : String) : Prop :=
  s.toList = before.toList ++ c :: after.toList ∧ c ∉ after.toList

theorem SplitsAtLast.unique {c : Char} {before after before' after' : String} (h : SplitsAtLast c s before after)
    (h' : SplitsAtLast c s before' after') : before = before' ∧ after = after' := by
  -- If one split were behind the other, what is after the other would have the character.
  have same : before.toList = before'.toList ∧ after.toList = after'.toList := by
    rcases List.append_eq_append_iff.mp (h.1.symm.trans h'.1) with ⟨between, front, rest⟩ | ⟨between, front, rest⟩
    · cases between with
      | nil => exact ⟨(front.trans (List.append_nil _)).symm, (List.cons.inj rest).2⟩
      | cons d between => exact absurd (by rw [(List.cons.inj rest).2]; simp) h.2
    · cases between with
      | nil => exact ⟨front.trans (List.append_nil _), (List.cons.inj rest).2.symm⟩
      | cons d between => exact absurd (by rw [(List.cons.inj rest).2]; simp) h'.2
  exact ⟨String.toList_inj.mp same.1, String.toList_inj.mp same.2⟩

end Text

/-! ### Numbers -/

namespace Decimal
variable {word : String} {cs : List Char} {n max : Nat}

/-- The word is a number in decimal digits, with a plus sign or without. -/
def Writes (word : String) (n : Nat) : Prop :=
  ∃ digits : List Char, (word.toList = digits ∨ word.toList = '+' :: digits) ∧ digits ≠ [] ∧
    (∀ c ∈ digits, '0' ≤ c ∧ c ≤ '9') ∧ Nat.ofDigitChars 10 digits 0 = n

theorem natural?_eq_some_iff :
    natural? cs = some n ↔ cs ≠ [] ∧ (∀ c ∈ cs, '0' ≤ c ∧ c ≤ '9') ∧ Nat.ofDigitChars 10 cs 0 = n := by
  unfold natural?
  rw [ofDigits_digitValue]
  simp [isDigit, and_assoc]

theorem unsigned?_eq_some_iff : unsigned? max word = some n ↔ Writes word n ∧ n ≤ max := by
  unfold unsigned?
  simp only [Option.filter_eq_some_iff, natural?_eq_some_iff, decide_eq_true_eq]
  refine and_congr_left fun _ => ?_
  split
  · next rest signed =>
    constructor
    · exact fun digits => ⟨rest, Or.inr signed, digits⟩
    · rintro ⟨digits, plain | signed', some, decimal, value⟩
      · have sign := decimal '+' (by rw [← plain, signed]; exact List.mem_cons_self)
        exact absurd sign (by decide)
      · cases (List.cons.inj (signed.symm.trans signed')).2
        exact ⟨some, decimal, value⟩
  · next cs unsigned =>
    constructor
    · exact fun digits => ⟨_, Or.inl rfl, digits⟩
    · rintro ⟨digits, rfl | signed, written⟩
      · exact written
      · exact absurd signed (unsigned digits)

end Decimal

namespace Settings
variable {value : String} {lookup : String → Option String} {name : String}

/-! ### Variables -/

/-- The value of a variable is a port. -/
def PortText (value : String) (port : UInt16) : Prop :=
  ∃ word, Text.TrimsTo value word ∧ Decimal.Writes word port.toNat

/-- The value of a variable is a yes or no. -/
def FlagText (value : String) (flag : Bool) : Prop :=
  ∃ word, Text.TrimsTo value word ∧
    Text.lowerAscii word ∈ if flag then ["1", "true", "yes"] else ["0", "false", "no"]

theorem port?_eq_some_iff {port : UInt16} : port? value = some port ↔ PortText value port := by
  unfold port?
  simp only [Option.map_eq_some_iff, Decimal.unsigned?_eq_some_iff]
  constructor
  · rintro ⟨n, ⟨writes, fits⟩, rfl⟩
    have place : (UInt16.ofNat n).toNat = n := UInt16.toNat_ofNat_of_lt' (Nat.lt_of_le_pred (by decide) fits)
    exact ⟨_, Text.trimsTo_trim value, place.symm ▸ writes⟩
  · rintro ⟨word, trims, writes⟩
    cases trims.trim_eq
    exact ⟨port.toNat, ⟨writes, Nat.le_pred_of_lt port.toNat_lt⟩, UInt16.ofNat_toNat⟩

theorem flag?_eq_some_iff {flag : Bool} : flag? value = some flag ↔ FlagText value flag := by
  have apart : ∀ word ∈ ["0", "false", "no"], word ∉ ["1", "true", "yes"] := by decide
  have words : flag? value = some flag ↔
      Text.lowerAscii (Text.trim value) ∈ if flag then ["1", "true", "yes"] else ["0", "false", "no"] := by
    unfold flag?
    simp only [List.contains_iff_mem]
    split
    · next yes =>
      cases flag with
      | true => exact iff_of_true rfl yes
      | false => exact iff_of_false (by simp) fun no => apart _ no yes
    · next yes =>
      split
      · next no =>
        cases flag with
        | true => exact iff_of_false (by simp) yes
        | false => exact iff_of_true rfl no
      · next no =>
        cases flag with
        | true => exact iff_of_false (by simp) yes
        | false => exact iff_of_false (by simp) no
  rw [words]
  constructor
  · exact fun mem => ⟨_, Text.trimsTo_trim value, mem⟩
  · rintro ⟨word, trims, mem⟩
    cases trims.trim_eq
    exact mem

section Reading
variable {α : Type} {reads : String → α → Prop} {parse : String → Option α} {default : α}

/-- What a variable gives: its default if it is not set, and otherwise what its value is read as. -/
def Gives (set? : Option String) (reads : String → α → Prop) (default a : α) : Prop :=
  (set? = none ∧ a = default) ∨ ∃ value, set? = some value ∧ reads value a

/-- A variable is set to a value that cannot be read. -/
def Misses (set? : Option String) (reads : String → α → Prop) (value : String) : Prop :=
  set? = some value ∧ ∀ a, ¬ reads value a

theorem readVariable_eq_ok_iff (decides : ∀ value a, parse value = some a ↔ reads value a) {a : α} :
    readVariable lookup name parse default = .ok a ↔ Gives (lookup name) reads default a := by
  unfold readVariable Gives
  cases lookup name with
  | none => simp [eq_comm]
  | some value =>
    simp only [reduceCtorEq, false_and, false_or, Option.some.injEq, exists_eq_left', ← decides]
    cases parse value <;> simp

theorem readVariable_eq_error_iff (decides : ∀ value a, parse value = some a ↔ reads value a) {e : SettingsError} :
    readVariable lookup name parse default = .error e ↔ ∃ value, Misses (lookup name) reads value ∧ e = ⟨name, value⟩ := by
  unfold readVariable Misses
  cases lookup name with
  | none => simp
  | some value =>
    simp only [Option.some.injEq, ← decides, and_assoc, exists_eq_left']
    cases parse value <;> simp [eq_comm]

theorem readVariable_bind (lookup : String → Option String) (default : String) :
    readVariable lookup name some default = .ok ((lookup name).getD default) := by
  unfold readVariable
  cases lookup name <;> rfl

end Reading

/-! ### Settings -/

/-- What the variables give has to be there for every variable that is read. -/
theorem ofLookup_eq_ok_iff {s : Settings} :
    ofLookup lookup = .ok s ↔ s.bind = (lookup bindVariable).getD "127.0.0.1" ∧
      Gives (lookup portVariable) PortText 8080 s.port ∧ Gives (lookup demoVariable) FlagText true s.demo := by
  unfold ofLookup
  rw [readVariable_bind]
  simp only [bind_eq_ok_iff, readVariable_eq_ok_iff fun _ _ => port?_eq_some_iff,
    readVariable_eq_ok_iff fun _ _ => flag?_eq_some_iff, Except.ok.injEq, exists_eq_left']
  constructor
  · rintro ⟨port, hport, demo, hdemo, same⟩
    cases same
    exact ⟨rfl, hport, hdemo⟩
  · rintro ⟨bind, hport, hdemo⟩
    exact ⟨s.port, hport, s.demo, hdemo, bind ▸ rfl⟩

theorem ofLookup_eq_error_iff {e : SettingsError} :
    ofLookup lookup = .error e ↔ (∃ value, Misses (lookup portVariable) PortText value ∧ e = ⟨portVariable, value⟩) ∨
      (∃ port, Gives (lookup portVariable) PortText 8080 port) ∧
        ∃ value, Misses (lookup demoVariable) FlagText value ∧ e = ⟨demoVariable, value⟩ := by
  unfold ofLookup
  rw [readVariable_bind]
  simp only [bind_eq_error_iff, readVariable_eq_ok_iff fun _ _ => port?_eq_some_iff,
    readVariable_eq_error_iff fun _ _ => port?_eq_some_iff, readVariable_eq_ok_iff fun _ _ => flag?_eq_some_iff,
    readVariable_eq_error_iff fun _ _ => flag?_eq_some_iff, Except.ok.injEq, exists_eq_left', reduceCtorEq, false_or]
  refine or_congr_right ⟨?_, ?_⟩
  · rintro ⟨port, given, missed | ⟨demo, -, built⟩⟩
    · exact ⟨⟨port, given⟩, missed⟩
    · cases built
  · rintro ⟨⟨port, given⟩, missed⟩
    exact ⟨port, given, Or.inl missed⟩

/-! ### Addresses -/

/-- The colon before the port is the last one, for the port is written in digits. -/
theorem splitsAtLast_address (s : Settings) : Text.SplitsAtLast ':' s.address s.bind (toString s.port.toNat) := by
  constructor
  · simp [address]
  · intro colon
    rw [Nat.toString_eq_repr, Nat.toList_repr] at colon
    exact absurd (Nat.isDigit_of_mem_toDigits (by decide) (by decide) colon) (by decide)

/-- Settings come from variables exactly if each that is set can be read; they have what the variables say, and the host as
it stands. Otherwise the port is reported if it cannot be read, with the value as it stands, and the flag if only that
cannot. An address, split at its last colon, gives back the host and the port. -/
theorem ofLookup_exact (lookup : String → Option String) :
    (∀ s, ofLookup lookup = .ok s ↔ s.bind = (lookup "FHEGRAPH_BIND").getD "127.0.0.1" ∧
      Gives (lookup "FHEGRAPH_PORT") PortText 8080 s.port ∧ Gives (lookup "FHEGRAPH_DEMO") FlagText true s.demo) ∧
    (∀ e, ofLookup lookup = .error e ↔
      (∃ value, Misses (lookup "FHEGRAPH_PORT") PortText value ∧ e = ⟨"FHEGRAPH_PORT", value⟩) ∨
      (∃ port, Gives (lookup "FHEGRAPH_PORT") PortText 8080 port) ∧
        ∃ value, Misses (lookup "FHEGRAPH_DEMO") FlagText value ∧ e = ⟨"FHEGRAPH_DEMO", value⟩) ∧
    (∀ (s : Settings) host port,
      Text.SplitsAtLast ':' s.address host port ↔ host = s.bind ∧ port = toString s.port.toNat) ∧
    ∀ s s' : Settings, s.address = s'.address → s.bind = s'.bind ∧ s.port = s'.port := by
  refine ⟨fun s => ofLookup_eq_ok_iff, fun e => ofLookup_eq_error_iff, fun s host port => ⟨fun split => ?_, ?_⟩,
    fun s s' same => ?_⟩
  · exact split.unique s.splitsAtLast_address
  · rintro ⟨rfl, rfl⟩
    exact s.splitsAtLast_address
  · have split := s.splitsAtLast_address
    rw [same] at split
    obtain ⟨bind, port⟩ := split.unique s'.splitsAtLast_address
    exact ⟨bind, UInt16.toNat_inj.mp (Decimal.toString_injective port)⟩

/-- The host has blanks and colons, the port is the highest one with zeros, a sign and wide blanks, and the flag is in large
and small letters. A port beyond the highest one is reported, though the flag is no word either. -/
theorem padded_settings_exact :
    let lookup : String → Option String := fun name =>
      [("FHEGRAPH_BIND", " [::1]"), ("FHEGRAPH_PORT", "\u2003+0065535 "), ("FHEGRAPH_DEMO", "\tnO\n")].lookup name
    let beyond : String → Option String := fun name => [("FHEGRAPH_PORT", "65536"), ("FHEGRAPH_DEMO", "maybe")].lookup name
    let s : Settings := ⟨" [::1]", 65535, false⟩
    ofLookup lookup = .ok s ∧ Text.SplitsAtLast ':' s.address " [::1]" "65535" ∧
      ofLookup beyond = .error ⟨"FHEGRAPH_PORT", "65536"⟩ ∧ ∀ port, ¬ PortText "65536" port := by
  intro lookup beyond s
  obtain ⟨accepted, -, split, -⟩ := ofLookup_exact lookup
  obtain ⟨-, refused, -, -⟩ := ofLookup_exact beyond
  have port : PortText "\u2003+0065535 " 65535 := by
    refine ⟨"+0065535", ⟨⟨['\u2003'], [' '], rfl, ?_, ?_⟩, ?_, ?_⟩, "0065535".toList, Or.inr rfl, ?_, ?_, by decide⟩ <;>
      simp [Text.isBlank]
  have flag : FlagText "\tnO\n" false := by
    refine ⟨"nO", ⟨⟨['\t'], ['\n'], rfl, ?_, ?_⟩, ?_, ?_⟩, by decide +kernel⟩ <;> simp [Text.isBlank]
  have failed : ofLookup beyond = .error ⟨"FHEGRAPH_PORT", "65536"⟩ := by decide
  refine ⟨(accepted s).mpr ⟨rfl, Or.inr ⟨_, rfl, port⟩, Or.inr ⟨_, rfl, flag⟩⟩, (split s _ _).mpr ⟨rfl, by decide⟩, failed, ?_⟩
  rcases (refused _).mp failed with ⟨value, ⟨set, missed⟩, -⟩ | ⟨-, value, -, other⟩
  · cases set
    exact missed
  · exact absurd (SettingsError.mk.inj other).1 (by decide)

end Settings

end CipherGraph
