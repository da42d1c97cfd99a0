/-! # Texts as UTF-8

The bytes of a text, and the order of texts by these bytes. Session names and the keys of a generic JSON
object are listed in this order. -/

namespace CipherGraph.Text

def bytes (s : String) : List UInt8 :=
  s.toByteArray.data.toList

/-- The text that some bytes encode, if they are UTF-8. -/
def ofBytes? (bs : List UInt8) : Option String :=
  String.fromUTF8? ⟨bs.toArray⟩

/-- Whether `a` comes before `b` when texts are ordered by their bytes. -/
def precedes (a b : String) : Bool :=
  decide (bytes a < bytes b)

theorem bytes_injective {a b : String} (h : bytes a = bytes b) : a = b :=
  String.toByteArray_inj.mp (ByteArray.ext (Array.toList_inj.mp h))

@[simp] theorem ofBytes?_bytes (s : String) : ofBytes? (bytes s) = some s := by
  show String.fromUTF8? ⟨s.toByteArray.data.toList.toArray⟩ = some s
  rw [Array.toArray_toList]
  show String.fromUTF8? s.toByteArray = some s
  rw [String.fromUTF8?, dif_pos s.isValidUTF8]
  rfl

theorem ofBytes?_eq_some_iff {bs : List UInt8} {s : String} : ofBytes? bs = some s ↔ bs = bytes s := by
  constructor
  · intro h
    unfold ofBytes? String.fromUTF8? at h
    split at h
    · cases h
      rfl
    · cases h
  · rintro rfl
    exact ofBytes?_bytes s

/-- The bytes of a text are those of its characters, one after the other. -/
theorem bytes_ofList (cs : List Char) : bytes (String.ofList cs) = cs.flatMap String.utf8EncodeChar := by
  rw [bytes, String.toByteArray_ofList, List.utf8Encode]
  simp [List.data_toByteArray]

theorem utf8EncodeChar_of_ascii {c : Char} (h : c.toNat < 128) :
    String.utf8EncodeChar c = [UInt8.ofNat c.toNat] := by
  unfold String.utf8EncodeChar
  rw [if_pos (by exact Nat.le_of_lt_succ h)]
  rfl

end CipherGraph.Text
