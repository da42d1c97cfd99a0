/-! # Decimal digits

The characters that are decimal digits, and the number that a sequence of digits stands for. -/

namespace CipherGraph.Decimal

def isDigit (c : Char) : Bool :=
  '0' ≤ c && c ≤ '9'

def digitValue (c : Char) : Nat :=
  c.toNat - '0'.toNat

/-- The number that some digits stand for, the highest first. -/
def ofDigits (ds : List Nat) : Nat :=
  ds.foldl (fun n d => n * 10 + d) 0

theorem ofDigits_digitValue (cs : List Char) : ofDigits (cs.map digitValue) = Nat.ofDigitChars 10 cs 0 := by
  unfold ofDigits Nat.ofDigitChars
  rw [List.foldl_map]
  simp only [digitValue, Nat.mul_comm]

/-- A number is told by its digits. -/
theorem toString_injective {n m : Nat} (h : toString n = toString m) : n = m := by
  have digits : Nat.toDigits 10 n = Nat.toDigits 10 m := by
    rw [← Nat.toList_repr, ← Nat.toList_repr]
    exact congrArg String.toList h
  calc
    n = Nat.ofDigitChars 10 (Nat.toDigits 10 n) 0 := Nat.ofDigitChars_ten_toDigits.symm
    _ = Nat.ofDigitChars 10 (Nat.toDigits 10 m) 0 := by rw [digits]
    _ = m := Nat.ofDigitChars_ten_toDigits

end CipherGraph.Decimal
