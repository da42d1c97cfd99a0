/-! # Blank characters

The characters with the Unicode property White_Space, and texts without them at their ends. -/

namespace CipherGraph.Text

def isBlank (c : Char) : Bool :=
  let n := c.toNat
  (9 ≤ n && n ≤ 13) || n == 0x20 || n == 0x85 || n == 0xA0 || n == 0x1680 || (0x2000 ≤ n && n ≤ 0x200A) ||
    n == 0x2028 || n == 0x2029 || n == 0x202F || n == 0x205F || n == 0x3000

def trim (s : String) : String :=
  String.ofList (((s.toList.dropWhile isBlank).reverse.dropWhile isBlank).reverse)

def isBlankText (s : String) : Bool :=
  s.toList.all isBlank

/-- A text of blanks only is one that trims to nothing. -/
theorem isBlankText_iff (s : String) : isBlankText s ↔ trim s = "" := by
  have key : ∀ l : List Char, l.all isBlank = true ↔ l.dropWhile isBlank = [] := by
    intro l
    induction l with
    | nil => simp
    | cons c r ih => by_cases h : isBlank c <;> simp_all
  have ends : ∀ l : List Char, (l.reverse.dropWhile isBlank).reverse = [] ↔ l.all isBlank = true := by
    intro l
    rw [List.reverse_eq_nil_iff, ← key, List.all_reverse]
  unfold isBlankText trim
  rw [← String.ofList_nil, String.ofList_inj, ends, key]
  constructor
  · intro h
    rw [h]
    rfl
  · intro h
    rw [key] at h
    cases hd : s.toList.dropWhile isBlank with
    | nil => rfl
    | cons c r =>
      have hc := List.head_dropWhile_not isBlank (l := s.toList) (by simp [hd])
      simp_all

def lowerAscii (s : String) : String :=
  s.map Char.toLower

end CipherGraph.Text
