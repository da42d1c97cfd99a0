import CipherGraph.Json.Basic
import CipherGraph.Json.Shape
import CipherGraph.Program.Operation

/-! # Names on the wire

The words by which operations and roles are known outside. An input carries its slot, so that it is an
object with one member; all others are strings. -/

namespace CipherGraph
open Json

def Operation.variants : List (Variant Operation) :=
  [.counted "InputCiphertext" .input, .plain "Multiply" .multiply, .plain "Add" .add,
    .plain "Relinearize" .relinearize, .plain "OutputCiphertext" .output]

def Role.variants : List (Variant Role) :=
  [.plain "Left" .left, .plain "Right" .right, .plain "Unary" .unary]

def Operation.toJson : Operation → Json
  | .input slot => .object [("InputCiphertext", .ofNat slot.toNat)]
  | op => .string op.name

def Role.toJson (r : Role) : Json :=
  .string r.name

end CipherGraph
