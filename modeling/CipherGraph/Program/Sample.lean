import CipherGraph.Program.Basic

/-! # Sample programs

The programs of the demonstration session. -/

namespace CipherGraph

def sampleSource : String :=
  "#[fhe_program(scheme = \"bfv\")]\n" ++
  "fn sum_and_product(\n" ++
  "    a: Cipher<Signed>,\n" ++
  "    b: Cipher<Signed>,\n" ++
  "    c: Cipher<Signed>,\n" ++
  "    d: Cipher<Signed>,\n" ++
  ") -> (Cipher<Signed>, Cipher<Signed>) \x7b\n" ++
  "    let x = a * b;\n" ++
  "    let y = c * d;\n" ++
  "    (x + y, x * y)\n" ++
  "\x7d\n"

namespace Program

/-- The sum and the product of two products. -/
def sample : Program where
  nodes := [.input 0, .input 1, .input 2, .input 3, .multiply, .multiply, .relinearize, .add, .relinearize,
    .multiply, .relinearize, .output, .output]
  edges := [⟨0, 4, .left⟩, ⟨1, 4, .right⟩, ⟨2, 5, .left⟩, ⟨3, 5, .right⟩, ⟨4, 6, .unary⟩, ⟨6, 7, .left⟩,
    ⟨8, 7, .right⟩, ⟨5, 8, .unary⟩, ⟨6, 9, .left⟩, ⟨8, 9, .right⟩, ⟨9, 10, .unary⟩, ⟨7, 11, .unary⟩,
    ⟨10, 12, .unary⟩]

def product : Program where
  nodes := [.input 0, .input 1, .multiply, .relinearize, .output]
  edges := [⟨0, 2, .left⟩, ⟨1, 2, .right⟩, ⟨2, 3, .unary⟩, ⟨3, 4, .unary⟩]

end Program

end CipherGraph
