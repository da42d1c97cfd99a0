import CipherGraph.Json.Printer
import Mathlib.Data.String.Basic
import Mathlib.Tactic.Ring

/-! # Lengths of texts

The length of a text is counted in bytes. No character takes more than four, and each takes one. What is printed for a
list is as long as what is printed for its items, with a comma after each but the last one. -/

namespace CipherGraph

namespace Text

theorem length_le_utf8Len (cs : List Char) : cs.length ≤ String.utf8Len cs := by
  induction cs with
  | nil => exact Nat.le_refl 0
  | cons ch cs ih =>
    have := ch.utf8Size_pos
    rw [List.length_cons, String.utf8Len_cons]
    omega

theorem utf8Len_le (cs : List Char) : String.utf8Len cs ≤ 4 * cs.length := by
  induction cs with
  | nil => exact Nat.le_refl 0
  | cons ch cs ih =>
    have := ch.utf8Size_le_four
    rw [List.length_cons, String.utf8Len_cons]
    omega

end Text

namespace Json

theorem utf8Len_printItems (level : Nat) (vs : List Json) :
    String.utf8Len (printItems .compact level vs) =
      (vs.map fun v => String.utf8Len (v.print .compact level) + 1).sum := by
  induction vs with
  | nil => rfl
  | cons v vs ih =>
    show String.utf8Len (',' :: (v.print .compact level ++ printItems .compact level vs)) = _
    rw [String.utf8Len_cons, String.utf8Len_append, ih, List.map_cons, List.sum_cons, show ','.utf8Size = 1 from rfl]
    ring

/-- The length of a list in which a value is repeated. -/
theorem utf8Len_print_replicate (level n : Nat) (v : Json) :
    String.utf8Len ((Json.array (List.replicate (n + 1) v)).print .compact level) =
      (n + 1) * (String.utf8Len (v.print .compact (level + 1)) + 1) + 1 := by
  have unbroken (level : Nat) : Layout.compact.lineBreak level = [] := rfl
  rw [List.replicate_succ, print, unbroken, unbroken, List.append_nil, List.cons_append, List.nil_append,
    List.cons_append, List.cons_append, String.utf8Len_cons, String.utf8Len_append, String.utf8Len_append,
    utf8Len_printItems, List.map_replicate, List.sum_replicate_nat, show '['.utf8Size = 1 from rfl,
    show String.utf8Len [']'] = 1 from rfl]
  ring

end Json

end CipherGraph
