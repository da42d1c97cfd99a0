import CipherGraph.Proofs.Json.Members
import CipherGraph.Proofs.Wire.Rendering

/-! # What a client reads

A client parses a text and takes what it knows from the value. What the service answers and the command line prints is
read back in this way: warnings, drawings and snapshots, with all that they hold. -/

namespace CipherGraph
open Json

/-! ### Texts -/

namespace Json
variable {v : Json}

theorem parse_print {layout : Layout} (blanks : layout.OnlyBlanks) (exact : Exact Reader.documentDepth v)
    (after : Blanks) : parse (String.ofList (v.print layout 0 ++ after.1)) = .ok v.canonical := by
  obtain ⟨s, text, value⟩ := printsAs_of_exact blanks exact 0
  have spelled : (String.ofList (v.print layout 0 ++ after.1)).toList = Blanks.none.1 ++ s.text ++ after.1 := by
    simp [text]
  exact parse_eq_ok_iff.mpr ⟨v, (Reader.document_tree_iff spelled).mpr value, rfl⟩

theorem parse_compact (exact : Exact Reader.documentDepth v) : parse v.compact = .ok v.canonical := by
  have single : v.compact = String.ofList (v.print .compact 0 ++ Blanks.none.1) := by
    rw [Blanks.none_val, List.append_nil]
    rfl
  rw [single]
  exact parse_print Layout.onlyBlanks_compact exact .none

theorem parse_pretty_line (exact : Exact Reader.documentDepth v) : parse (v.pretty ++ "\n") = .ok v.canonical := by
  have newline : v.pretty ++ "\n" = String.ofList (v.print .pretty 0 ++ ['\n']) := by
    rw [String.ofList_append]
    rfl
  rw [newline]
  exact parse_print Layout.onlyBlanks_pretty exact ⟨['\n'], by simp [Cursor.isBlank]⟩

end Json

/-! ### Decoders of views -/

namespace Client
open Json.Decoder

/-- A number of things. -/
def count : Json.Decoder Nat := fun v =>
  (word64 v).map UInt64.toNat

def warning : Json.Decoder Warning := fun v => do
  let kind ← member "kind" string v
  let node ← member "node" word32 v
  let role ← member "role" Decoder.role v
  if kind = "missing_operand" then return .missing node role
  else if kind = "unexpected_operand" then return .unexpected node role
  else if kind = "duplicate_operand" then return .duplicate node role (← member "count" count v)
  else .error (.unknownVariant kind ["missing_operand", "unexpected_operand", "duplicate_operand"])

def nodeKind : Json.Decoder NodeKind :=
  variant [.plain "input" .input, .plain "empty" .empty, .plain "problematic" .problematic]

def drawnNode : Json.Decoder DrawnNode := fun v => do
  return ⟨← member "id" word32 v, ← member "title" string v, ← member "type" nodeKind v⟩

def drawnEdge : Json.Decoder Edge := fun v => do
  return ⟨← member "source" word32 v, ← member "target" word32 v, ← member "role" Decoder.role v⟩

def rendering : Json.Decoder Rendering := fun v => do
  return ⟨← member "nodes" (list drawnNode) v, ← member "edges" (list drawnEdge) v,
    ← memberOr (.ok []) "warnings" (list warning) v⟩

def snapshot : Json.Decoder Snapshot := fun v => do
  return ⟨Int64.ofInt (← member "selected_line" (integer .signed64) v), ← member "selected_nodes" (list word32) v,
    ← member "graph" (optional rendering) v, ← memberOr (.ok none) "error" (fun w => (string w).map some) v,
    ← member "generation" word64 v⟩

/-! ### Views in canonical form -/

theorem keeps_count : Keeps count :=
  stable_word64.keeps.map _

theorem keeps_role : Keeps Decoder.role :=
  (stable_variant _).keeps

theorem keeps_warning : Keeps warning := by
  refine (keeps_string.member _).bind fun kind => (stable_word32.keeps.member _).bind fun node => ?_
  refine (keeps_role.member _).bind fun role => ?_
  split
  · exact keeps_of_ok _
  split
  · exact keeps_of_ok _
  split
  · exact (keeps_count.member _).bind fun n => keeps_of_ok _
  · exact keeps_of_error _

theorem keeps_drawnNode : Keeps drawnNode :=
  (stable_word32.keeps.member _).bind fun _ => (keeps_string.member _).bind fun _ =>
    ((stable_variant _).keeps.member _).bind fun _ => keeps_of_ok _

theorem keeps_drawnEdge : Keeps drawnEdge :=
  (stable_word32.keeps.member _).bind fun _ => (stable_word32.keeps.member _).bind fun _ =>
    (keeps_role.member _).bind fun _ => keeps_of_ok _

theorem keeps_rendering : Keeps rendering :=
  (keeps_drawnNode.list.member _).bind fun _ => (keeps_drawnEdge.list.member _).bind fun _ =>
    (keeps_warning.list.memberOr _ _).bind fun _ => keeps_of_ok _

theorem keeps_snapshot : Keeps snapshot :=
  ((stable_integer _).keeps.member _).bind fun _ => (stable_word32.keeps.list.member _).bind fun _ =>
    (keeps_rendering.optional.member _).bind fun _ => ((keeps_string.map some).memberOr _ _).bind fun _ =>
      (stable_word64.keeps.member _).bind fun _ => keeps_of_ok _

/-! ### Views that are read back -/

theorem count_ofNat {n : Nat} (small : n < UInt64.size) : count (.ofNat n) = .ok n := by
  have word := Decoder.word64_ofNat (UInt64.ofNat n)
  rw [UInt64.toNat_ofNat_of_lt' small] at word
  exact map_eq_ok_iff.mpr ⟨_, word, UInt64.toNat_ofNat_of_lt' small⟩

theorem warning_toJson {w : Warning} (h : w.Counted) : warning w.toJson = .ok w := by
  cases w with
  | missing node role =>
    refine bind_member rfl rfl ?_
    refine bind_member rfl (Decoder.word32_ofNat node) ?_
    exact bind_member rfl (Decoder.role_toJson role) rfl
  | unexpected node role =>
    refine bind_member rfl rfl ?_
    refine bind_member rfl (Decoder.word32_ofNat node) ?_
    exact bind_member rfl (Decoder.role_toJson role) rfl
  | duplicate node role n =>
    refine bind_member rfl rfl ?_
    refine bind_member rfl (Decoder.word32_ofNat node) ?_
    refine bind_member rfl (Decoder.role_toJson role) ?_
    exact bind_member rfl (count_ofNat h) rfl

theorem nodeKind_name (kind : NodeKind) : nodeKind (.string kind.name) = .ok kind := by
  cases kind <;> rfl

theorem drawnNode_toJson (n : DrawnNode) : drawnNode n.toJson = .ok n := by
  refine bind_member rfl (Decoder.word32_ofNat n.id) ?_
  refine bind_member rfl rfl ?_
  exact bind_member rfl (nodeKind_name n.kind) rfl

theorem drawnEdge_toRenderJson (e : Edge) : drawnEdge e.toRenderJson = .ok e := by
  refine bind_member rfl (Decoder.word32_ofNat e.source) ?_
  refine bind_member rfl (Decoder.word32_ofNat e.target) ?_
  exact bind_member rfl (Decoder.role_toJson e.role) rfl

/-- Where a drawing has no warnings, none are told. -/
theorem rendering_toJson {r : Rendering} (h : r.Counted) : rendering r.toJson = .ok r := by
  obtain ⟨nodes, edges, warnings⟩ := r
  have nodesRead := Decoder.list_map nodes fun n _ => drawnNode_toJson n
  have edgesRead := Decoder.list_map edges fun e _ => drawnEdge_toRenderJson e
  have warningsRead : memberOr (.ok []) "warnings" (list warning) (Rendering.toJson ⟨nodes, edges, warnings⟩) =
      .ok warnings := by
    cases warnings with
    | nil => exact memberOr_of_absent rfl
    | cons w ws => exact (memberOr_of_value (by rfl)).trans (Decoder.list_map _ fun w hw => warning_toJson (h w hw))
  refine bind_member (by cases warnings <;> rfl) nodesRead ?_
  refine bind_member (by cases warnings <;> rfl) edgesRead ?_
  exact bind_eq_ok_iff.mpr ⟨_, warningsRead, rfl⟩

theorem optional_rendering {drawn : Option Rendering} (h : ∀ r ∈ drawn, r.Counted) :
    optional rendering ((drawn.map (·.toJson)).getD .null) = .ok drawn := by
  cases drawn with
  | none => rfl
  | some r => exact map_eq_ok_iff.mpr ⟨r, rendering_toJson (h r rfl), rfl⟩

theorem snapshot_toJson {s : Snapshot} (h : s.Counted) : snapshot s.toJson = .ok s := by
  obtain ⟨line, selected, drawn, error, generation⟩ := s
  have lineRead := Decoder.integer_ofInt64 line
  have selectedRead := Decoder.list_map selected fun id _ => Decoder.word32_ofNat id
  have drawnRead := optional_rendering h
  have generationRead := Decoder.word64_ofNat generation
  -- The message stands between the other members, if there is one.
  have errorRead : memberOr (.ok none) "error" (fun w => (string w).map some)
      (Snapshot.toJson ⟨line, selected, drawn, error, generation⟩) = .ok error := by
    cases error with
    | none => exact memberOr_of_absent rfl
    | some e => exact (memberOr_of_value (w := .string e) rfl)
  refine bind_member (by cases error <;> rfl) lineRead ?_
  refine bind_member (by cases error <;> rfl) selectedRead ?_
  refine bind_member (by cases error <;> rfl) drawnRead ?_
  refine bind_eq_ok_iff.mpr ⟨_, errorRead, ?_⟩
  refine bind_member (by cases error <;> rfl) generationRead ?_
  rw [Int64.ofInt_toInt]
  rfl

/-! ### Texts of views -/

variable {α : Type} {d : Json.Decoder α} {v : Json} {a : α}

/-- A text is parsed, and this is what a client finds in the value. -/
def Reads (d : Json.Decoder α) (text : String) (a : α) : Prop :=
  ∃ v, parse text = .ok v ∧ d v = .ok a

theorem reads_compact (keeps : Keeps d) (exact : Exact Reader.documentDepth v) (found : d v = .ok a) :
    Reads d v.compact a :=
  ⟨v.canonical, parse_compact exact, keeps v a found⟩

end Client

end CipherGraph
