/-! # Hexadecimal digits

Numbers written with sixteen digits. Letters are written small, and read in either case. -/

namespace CipherGraph.Text

/-- The lower-case hexadecimal digits of a number, at least `width` of them. -/
def hex (width n : Nat) : List Char :=
  let digits := Nat.toDigits 16 n
  List.replicate (width - digits.length) '0' ++ digits

def hexValue? (c : Char) : Option Nat :=
  if '0' ≤ c ∧ c ≤ '9' then some (c.toNat - '0'.toNat)
  else if 'a' ≤ c ∧ c ≤ 'f' then some (c.toNat - 'a'.toNat + 10)
  else if 'A' ≤ c ∧ c ≤ 'F' then some (c.toNat - 'A'.toNat + 10)
  else none

/-- A digit is an ASCII character. -/
theorem lt_of_hexValue? {c : Char} {n : Nat} (h : hexValue? c = some n) : c.toNat < 128 := by
  have below {d : Char} (ascii : d.toNat < 128) (hc : c ≤ d) : c.toNat < 128 :=
    Nat.lt_of_le_of_lt (UInt32.le_iff_toNat_le.mp hc) ascii
  unfold hexValue? at h
  split at h
  · next digit => exact below (by decide) digit.2
  · split at h
    · next small => exact below (by decide) small.2
    · split at h
      · next large => exact below (by decide) large.2
      · cases h

end CipherGraph.Text
