import CipherGraph.Proofs.Wire.Accepted

/-! # Programs from texts and from values

A program that is read from a text is also decoded from the generic value of that text. The converse holds for texts
that give the parts of the program once: a repeated part is refused in a text, but in the generic value its last value
counts. In a text in which no object repeats a key all parts are given once. -/

namespace CipherGraph
open Json

namespace Json

theorem parse_eq_ok_iff {t : String} {v : Json} :
    parse t = .ok v ↔ ∃ raw, Reader.document (Reader.tree Reader.documentDepth) t = .ok raw ∧ raw.canonical = v := by
  have value : Reader.value Reader.documentDepth = canonical <$> Reader.tree Reader.documentDepth := by
    unfold Reader.value
    rw [bind_pure_comp]
  unfold parse
  rw [value]
  simp only [Reader.document_eq_ok_iff, Reader.result?_map, Option.map_eq_some_iff, Prod.mk.injEq]
  constructor
  · rintro ⟨c, ⟨⟨raw, _⟩, h, rfl, rfl⟩, ended⟩
    exact ⟨raw, ⟨_, h, ended⟩, rfl⟩
  · rintro ⟨raw, ⟨c, h, ended⟩, rfl⟩
    exact ⟨c, ⟨(raw, c), h, rfl, rfl⟩, ended⟩

/-- No object that is written in the text repeats a key; keys are compared as they are read. -/
def DistinctKeysIn (t : String) : Prop :=
  ∀ v, Reader.document (Reader.tree Reader.documentDepth) t = .ok v → v.DistinctKeys

instance (t : String) : Decidable (DistinctKeysIn t) :=
  match h : Reader.document (Reader.tree Reader.documentDepth) t with
  | .ok v => decidable_of_iff v.DistinctKeys (by simp [DistinctKeysIn, h])
  | .error _ => isTrue (by simp [DistinctKeysIn, h])

/-- What the text writes for the parts of a program is written once: no object repeats a key of a part that is decoded.
Members that are not decoded can be repeated. -/
def PartsGivenOnceIn (t : String) : Prop :=
  ∀ v, Reader.document (Reader.tree Reader.documentDepth) t = .ok v → Decoder.ProgramGivenOnce v

theorem DistinctKeysIn.partsGivenOnceIn {t : String} (h : DistinctKeysIn t) : PartsGivenOnceIn t :=
  fun v hv => Decoder.stable_program.distinct (h v hv)

end Json

namespace Program

theorem ofText_eq_ok_iff {t : String} {p : Program} :
    ofText t = .ok p ↔ Json.Reader.document Reader.program t = .ok p := by
  unfold ofText
  cases Json.Reader.document Reader.program t <;> simp

theorem ofJson_eq_ok_iff {v : Json} {p : Program} : ofJson v = .ok p ↔ Decoder.program v = .ok p := by
  unfold ofJson
  cases Decoder.program v <;> simp

theorem error_of_ofJson {v : Json} {e : ProgramError} (h : ofJson v = .error e) : ∃ reason, e = .undecodable reason := by
  unfold ofJson at h
  split at h
  · cases h
  · cases h
    exact ⟨_, rfl⟩

section Texts
variable {t : String} {depth : Nat} {raw : Json} {p : Program}

theorem ofJson_of_ofText (h : Json.Reader.document (Json.Reader.tree depth) t = .ok raw) (read : ofText t = .ok p) :
    ofJson raw.canonical = .ok p :=
  ofJson_eq_ok_iff.mpr (Decoder.stable_program.canonical
    ((Reader.agrees_program.document_eq_ok_iff h).mp (ofText_eq_ok_iff.mp read)))

/-- The text of a decoded value is read as a program exactly if its parts are given once. -/
theorem ofText_iff_of_ofJson (h : Json.Reader.document (Json.Reader.tree depth) t = .ok raw)
    (decoded : ofJson raw.canonical = .ok p) : ofText t = .ok p ↔ Decoder.ProgramGivenOnce raw := by
  rw [ofText_eq_ok_iff, Reader.agrees_program.document_eq_ok_iff h, Decoder.stable_program.iff]
  exact and_iff_left (ofJson_eq_ok_iff.mp decoded)

end Texts

/-- The program of a text is the program of its generic value, as long as no key is repeated. -/
theorem ofText_agrees_ofJson {t : String} {v : Json} (h : Json.parse t = .ok v) (p : Program) :
    (ofText t = .ok p → ofJson v = .ok p) ∧ (DistinctKeysIn t → ofJson v = .ok p → ofText t = .ok p) := by
  obtain ⟨raw, hraw, rfl⟩ := parse_eq_ok_iff.mp h
  refine ⟨ofJson_of_ofText hraw, fun distinct decoded => ?_⟩
  exact (ofText_iff_of_ofJson hraw decoded).mpr (distinct.partsGivenOnceIn raw hraw)

/-- A program whose parts are spelled with an escape, with a member that is unknown. -/
def escapedText : String :=
  "\x7b \"nod\\u0065s\": [[\"Add\"], \x7b\"x\": [1e3, \x7b\"a\": null\x7d], \"operation\": " ++
    "\x7b\"InputCiphertext\": 7\x7d\x7d], \"edges\": [[1, 0, \x7b\"Left\": null\x7d]] \x7d"

theorem escaped_text_agrees : ∃ v, Json.parse escapedText = .ok v ∧ DistinctKeysIn escapedText ∧
    ofText escapedText = .ok ⟨[.add, .input 7], [⟨1, 0, .left⟩]⟩ ∧
    ofJson v = .ok ⟨[.add, .input 7], [⟨1, 0, .left⟩]⟩ := by
  have parsed : (Json.parse escapedText).toOption.isSome := by decide +kernel
  obtain ⟨v, hv⟩ := Option.isSome_iff_exists.mp parsed
  have hv := toOption_eq_some_iff.mp hv
  have distinct : DistinctKeysIn escapedText := by decide +kernel
  have read : (ofText escapedText).toOption = some ⟨[.add, .input 7], [⟨1, 0, .left⟩]⟩ := by decide +kernel
  have read := toOption_eq_some_iff.mp read
  have decoded := (ofText_agrees_ofJson hv _).1 read
  exact ⟨v, hv, distinct, (ofText_agrees_ofJson hv _).2 distinct decoded, decoded⟩

end Program

end CipherGraph
