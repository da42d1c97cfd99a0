import CipherGraph.Text.Hexadecimal
import CipherGraph.Text.Utf8

/-! # Percent encoding

A byte of a text may be written as `%` and two hexadecimal digits. Decoding leaves a `%` that is not
followed by two such digits as it is. A text is read back if every byte of it is written as an escape. -/

namespace CipherGraph.Text

/-- The value of a hexadecimal digit, given as an ASCII byte. -/
def hexDigit? (b : UInt8) : Option UInt8 :=
  (hexValue? (Char.ofNat b.toNat)).map UInt8.ofNat

/-- The bytes that a percent-encoded sequence of bytes stands for. -/
def percentDecode : List UInt8 → List UInt8
  | [] => []
  | 0x25 :: high :: low :: rest =>
    match hexDigit? high, hexDigit? low with
    | some h, some l => (h * 16 + l) :: percentDecode rest
    | _, _ => 0x25 :: percentDecode (high :: low :: rest)
  | b :: rest => b :: percentDecode rest

/-- The text that a percent-encoded text stands for, if its bytes are UTF-8. -/
def percentDecoded? (s : String) : Option String :=
  ofBytes? (percentDecode (bytes s))

/-! ### Escapes -/

/-- Some characters write every byte of a sequence as an escape. The letters among its digits are of either case. -/
inductive Escapes : List Char → List UInt8 → Prop where
  | nil : Escapes [] []
  | cons {high low : Char} {b : UInt8} {cs : List Char} {bs : List UInt8}
      (readHigh : hexValue? high = some (b.toNat / 16)) (readLow : hexValue? low = some (b.toNat % 16))
      (rest : Escapes cs bs) : Escapes ('%' :: high :: low :: cs) (b :: bs)

/-- The byte of a digit has the value of the digit. -/
theorem hexDigit?_of_hexValue? {c : Char} {n : Nat} (h : hexValue? c = some n) :
    hexDigit? (UInt8.ofNat c.toNat) = some (UInt8.ofNat n) := by
  have byte : (UInt8.ofNat c.toNat).toNat = c.toNat :=
    UInt8.toNat_ofNat_of_lt' (Nat.lt_trans (lt_of_hexValue? h) (by decide))
  rw [hexDigit?, byte, Char.ofNat_toNat, h]
  rfl

variable {cs : List Char} {bs : List UInt8}

theorem Escapes.decode (h : Escapes cs bs) : percentDecode (cs.flatMap String.utf8EncodeChar) = bs := by
  induction h with
  | nil => rfl
  | @cons high low b cs bs readHigh readLow rest ih =>
    have join : UInt8.ofNat (b.toNat / 16) * 16 + UInt8.ofNat (b.toNat % 16) = b := by
      have := b.toNat_lt
      apply UInt8.toNat_inj.mp
      simp
      omega
    rw [List.flatMap_cons, List.flatMap_cons, List.flatMap_cons, utf8EncodeChar_of_ascii (lt_of_hexValue? readHigh),
      utf8EncodeChar_of_ascii (lt_of_hexValue? readLow)]
    show percentDecode (0x25 :: UInt8.ofNat high.toNat :: UInt8.ofNat low.toNat :: cs.flatMap String.utf8EncodeChar) = _
    simp only [percentDecode, hexDigit?_of_hexValue? readHigh, hexDigit?_of_hexValue? readLow, join, ih]

/-- There is nothing in escapes but digits and the sign in front of them. -/
theorem Escapes.mem (h : Escapes cs bs) {c : Char} (hc : c ∈ cs) : c = '%' ∨ ∃ n, hexValue? c = some n := by
  induction h with
  | nil => cases hc
  | cons readHigh readLow rest ih =>
    simp only [List.mem_cons] at hc
    rcases hc with rfl | rfl | rfl | hc
    · exact Or.inl rfl
    · exact Or.inr ⟨_, readHigh⟩
    · exact Or.inr ⟨_, readLow⟩
    · exact ih hc

/-- A text is read back from escapes of all its bytes. -/
theorem percentDecoded?_of_escapes {raw s : String} (h : Escapes raw.toList (bytes s)) :
    percentDecoded? raw = some s := by
  have read : percentDecode (bytes raw) = bytes s := by
    rw [← String.ofList_toList (s := raw), bytes_ofList]
    exact h.decode
  rw [percentDecoded?, read, ofBytes?_bytes]

end CipherGraph.Text
