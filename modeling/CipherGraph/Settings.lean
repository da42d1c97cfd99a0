import CipherGraph.Decimal.Parse
import CipherGraph.Text.Blank

/-! # Settings of the service

Three variables of the environment say where the service listens and whether it starts with the
demonstration session. A variable that is not set leaves its default. -/

namespace CipherGraph

structure Settings where
  bind : String := "127.0.0.1"
  port : UInt16 := 8080
  demo : Bool := true
  deriving DecidableEq, Repr

structure SettingsError where
  variableName : String
  value : String
  deriving DecidableEq, Repr

def SettingsError.message (e : SettingsError) : String :=
  "invalid value for " ++ e.variableName ++ ": '" ++ e.value ++ "'"

namespace Settings

def bindVariable : String := "FHEGRAPH_BIND"

def portVariable : String := "FHEGRAPH_PORT"

def demoVariable : String := "FHEGRAPH_DEMO"

/-- A port, with blanks around it. -/
def port? (value : String) : Option UInt16 :=
  (Decimal.unsigned? (UInt16.size - 1) (Text.trim value)).map UInt16.ofNat

/-- A yes or no, with blanks around it and in small letters or capitals. -/
def flag? (value : String) : Option Bool :=
  let word := Text.lowerAscii (Text.trim value)
  if ["1", "true", "yes"].contains word then some true
  else if ["0", "false", "no"].contains word then some false
  else none

/-- What a variable says, its default if it is not set, or a refusal of its value. -/
def readVariable {α : Type} (lookup : String → Option String) (name : String) (parse : String → Option α)
    (default : α) : Except SettingsError α :=
  match lookup name with
  | none => .ok default
  | some value =>
    match parse value with
    | some a => .ok a
    | none => .error ⟨name, value⟩

/-- The settings that the variables give. The port is looked at before the demonstration session. -/
def ofLookup (lookup : String → Option String) : Except SettingsError Settings := do
  let bind ← readVariable lookup bindVariable some "127.0.0.1"
  let port ← readVariable lookup portVariable port? 8080
  let demo ← readVariable lookup demoVariable flag? true
  return ⟨bind, port, demo⟩

def address (s : Settings) : String :=
  s.bind ++ ":" ++ toString s.port.toNat

end Settings

end CipherGraph
