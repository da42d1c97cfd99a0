import CipherGraph.Proofs.CommandLine.Verdict
import CipherGraph.Proofs.Service.Creation
import CipherGraph.Proofs.Wire.RoundTrip

/-! # What is accepted on the command line and by the service

The same text can be given to the command line in a file, and to the service as the program of a new session. The
command line reads the program from the text. The service first reads a generic value, as a part of a larger text, and
decodes the program from that. So a repeated part is refused only by the command line, and only the service refuses an
unknown member whose value cannot be kept: a number that is too large, half a surrogate pair, or brackets nested too
deep. Apart from these, and from texts that are too long for a request, the two accept the same texts, and have the same
program from them. -/

namespace CipherGraph
open Json

/-! ### Drafts around a text -/

/-- A request for a session with a program that is given as a text. -/
def Request.creation (t : String) : Request where
  method := .post
  target := "/sessions"
  contentType := some "application/json"
  body := "\x7b\"name\":\"x\",\"graph\":" ++ t ++ "\x7d"

theorem Request.asks_creation (t : String) : (creation t).Asks .post .sessions :=
  ⟨rfl, show Route.ofTarget? "/sessions" = _ from rfl⟩

namespace Json.Reader
open Cursor

theorem result?_recordMember_print {α σ : Type} {r : Record σ (Step σ) α} {f : Field σ (Step σ)} {k : String} {s : σ}
    (known : r.field? k = some f) (new : f.isKnown s = false) {rest : List Char} (p : Position) :
    result? (recordMember r s) (ofList (printString k ++ ':' :: rest) p) =
      result? (f.step s) (ofList rest ((p.past (printString k)).after ':')) := by
  have colon : result? colon (ofList (Blanks.none.1 ++ ':' :: rest) (p.past (printString k))) = _ :=
    result?_colon_ofList .none
  rw [recordMember, result?_bind, result?_key_print, Option.bind_some, known]
  simp only [Blanks.none_val, List.nil_append, Position.past_nil] at colon
  simp [new, colon]

end Json.Reader

section Drafts
open Json.Reader Cursor
variable {t : String} {before after : Blanks} {s : Spelling}

theorem Request.body_creation (h : t.toList = before.1 ++ s.text ++ after.1) :
    (creation t).body.toList = '\x7b' :: (printString "name" ++ ':' :: (printString "x" ++
      ',' :: (printString "graph" ++ ':' :: (before.1 ++ (s.text ++ (after.1 ++ ['\x7d'])))))) := by
  simp [creation, h]
  rfl

theorem result?_draftName (v : String) (rest : List Char) (p : Position) :
    ∃ q, result? (recordMember sessionDraftRecord {})
        (ofList (printString "name" ++ ':' :: (printString v ++ rest)) p) =
      some ({ name := some v }, ofList rest q) :=
  ⟨((p.past (printString "name")).after ':').past (printString v), by
    rw [result?_recordMember_print (f := sessionDraftRecord.fields[0]) rfl rfl]
    show result? (do return ({ name := some (← text) } : SessionDraftParts)) _ = _
    rw [result?_bind, result?_text_print]
    rfl⟩

theorem result?_draftProgram (parts : SessionDraftParts) (new : parts.program.isSome = false) (before : Blanks)
    (s : Spelling) {rest : List Char} (ends : EndsNumber rest) (p : Position) :
    ∃ q, result? (recordMember sessionDraftRecord parts)
        (ofList (printString "graph" ++ ':' :: (before.1 ++ (s.text ++ rest))) p) =
      (s.value? (documentDepth - 1)).map fun v => ({ parts with program := some v.canonical }, ofList rest q) := by
  refine ⟨(((p.past (printString "graph")).after ':').past before.1).past s.text, ?_⟩
  rw [result?_recordMember_print (f := sessionDraftRecord.fields[2]) rfl new]
  show result? (do return { parts with program := some (← value (documentDepth - 1)) }) _ = _
  simp only [value, result?_bind, result?_tree_spelling s _ before _ ends]
  cases s.value? (documentDepth - 1) <;> rfl

/-- The members of the draft are its name and its program. -/
theorem result?_draftMembers (name : String) (before after : Blanks) (s : Spelling) (p : Position) :
    ∃ q, result? (members (recordMember sessionDraftRecord) sessionDraftRecord.blank)
      (ofList (printString "name" ++ ':' :: (printString name ++ ',' :: (printString "graph" ++
        ':' :: (before.1 ++ (s.text ++ (after.1 ++ ['\x7d'])))))) p) =
      (s.value? (documentDepth - 1)).map fun v =>
        ({ name := some name, program := some v.canonical }, ofList ['\x7d'] q) := by
  have ends : EndsNumber (after.1 ++ ['\x7d']) := (endsNumber_cons (.inr (.inr rfl))).blanks after
  obtain ⟨q₁, named⟩ := result?_draftName name (',' :: (printString "graph" ++
    ':' :: (before.1 ++ (s.text ++ (after.1 ++ ['\x7d']))))) p
  obtain ⟨q₂, program⟩ := result?_draftProgram { name := some name } rfl before s ends (q₁.after ',')
  refine ⟨q₂.past after.1, ?_⟩
  obtain ⟨bound, enough⟩ : ∃ bound, (ofList (printString "name" ++ ':' :: (printString name ++ ',' ::
      (printString "graph" ++ ':' :: (before.1 ++ (s.text ++ (after.1 ++ ['\x7d'])))))) p).size + 1 = bound + 3 := by
    rw [size_ofList]
    simp only [List.length_append, List.length_cons, printString]
    exact ⟨_, rfl⟩
  have blank : sessionDraftRecord.blank = {} := rfl
  rw [result?_members, enough, membersFrom_of_member hasKey_print_first, blank, named, Option.bind_some,
    membersFrom_of_member hasKey_print_next, program]
  cases s.value? (documentDepth - 1) with
  | none => rfl
  | some v => exact membersFrom_of_done (hasKey_last false after)

/-- The draft in a body that holds a name and the text of a program, if the body is not too long and the program has a
generic value. -/
theorem Request.draft_of_members {q : Request} {name : String} (json : q.contentType.any namesJson = true)
    (body : q.body.toList = '\x7b' :: (printString "name" ++ ':' :: (printString name ++
      ',' :: (printString "graph" ++ ':' :: (before.1 ++ (s.text ++ (after.1 ++ ['\x7d'])))))))
    {d : SessionDraft} :
    q.draft = .ok d ↔ q.Fits ∧ ∃ v, s.value? (documentDepth - 1) = some v ∧ d = ⟨name, "", v.canonical, []⟩ := by
  obtain ⟨place, parts⟩ := result?_draftMembers name before after s (({} : Position).after '\x7b')
  have stays (cs : List Char) (p : Position) : (ofList ('\x7b' :: cs) p).skipBlanks = ofList ('\x7b' :: cs) p :=
    skipWhile_of_head fun ch h => by cases h; rfl
  rw [draft, read_eq_ok_iff, and_iff_right json]
  refine and_congr_right fun _ => ?_
  rw [document_eq_ok_iff, Cursor.ofString, body, result?_record (by rw [stays]; rfl), if_pos rfl, stays,
    next_ofList_cons, parts]
  cases s.value? (documentDepth - 1) with
  | none => simp
  | some v =>
    simp only [Option.map_some, Option.bind_some, Option.ite_none_right_eq_some, Option.some.injEq, Prod.mk.injEq,
      exists_eq_left']
    constructor
    · rintro ⟨_, ⟨-, rfl, -⟩, -⟩
      rfl
    · rintro rfl
      exact ⟨_, ⟨⟨rfl, rfl⟩, rfl, rfl⟩, rfl⟩

theorem Request.draft_creation (h : t.toList = before.1 ++ s.text ++ after.1) {d : SessionDraft} :
    (creation t).draft = .ok d ↔
      (creation t).Fits ∧ ∃ v, s.value? (documentDepth - 1) = some v ∧ d = ⟨"x", "", v.canonical, []⟩ := by
  have json : (creation t).contentType.any namesJson = true := show namesJson "application/json" = true by
    decide +kernel
  exact draft_of_members json (body_creation h)

end Drafts

/-! ### Creations -/

section Creations
variable {t : String} {q : Request} {d : SessionDraft} {s : Session}

theorem SessionDraft.toSession_eq_ok_iff {v : Json} :
    toSession ⟨"x", "", v, []⟩ = .ok s ↔
      ∃ p, Program.ofJson v = .ok p ∧ p.InRange ∧ s = ⟨"x", "", p, .ofLineMap { fallback := p }⟩ := by
  constructor
  · intro h
    obtain ⟨-, p, lines, hp, hlines, hs⟩ := toSession_eq_ok h
    cases hlines
    obtain ⟨inRange, -, rfl⟩ := Session.create_eq_ok hs
    exact ⟨p, hp, inRange, rfl⟩
  · rintro ⟨p, hp, inRange, rfl⟩
    have named : Text.isBlankText "x" = false := by decide +kernel
    simp only [toSession, named, Bool.false_eq_true, ↓reduceIte, hp, decodeLines]
    show Session.create "x" "" p [] = _
    rw [Session.create, Program.check_eq_ok_iff.mpr inRange]
    rfl

/-- In an empty registry a request for a session is granted exactly if its draft gives a session. -/
theorem Registry.status_of_creation (hq : q.Asks .post .sessions) :
    ((start false).handle q).1.status = 200 ↔ ∃ d s, q.draft = .ok d ∧ d.toSession = .ok s := by
  rw [handle_eq, Request.status_deliver]
  constructor
  · intro granted
    rcases hq.action_of_create with ⟨d, s, hd, hs, -⟩ | ⟨e, refused⟩
    · exact ⟨d, s, hd, hs⟩
    · rw [refused] at granted
      exact absurd granted e.status_response_ne
  · rintro ⟨d, s, hd, hs⟩
    rw [hq.action_of_draft hd hs, Action.run_register_of_free (r := start false) rfl]
    rfl

theorem Registry.find?_of_creation (hq : q.Asks .post .sessions) (hd : q.draft = .ok d) (hs : d.toSession = .ok s) :
    ((start false).handle q).2.find? s.name = some s := by
  rw [handle_eq, hq.action_of_draft hd hs, Action.run_register_of_free (r := start false) rfl]
  exact (Catalog.find?_enter rfl _).trans (if_pos rfl)

end Creations

/-! ### Files -/

section Files
variable {t path : String} {p : Program}

/-- A file is validated, perhaps with warnings. -/
def Command.Accepts (path : String) (t : String) : Prop :=
  ((Command.validate path).run (.data (Text.bytes t))).code = 0 ∨
    ((Command.validate path).run (.data (Text.bytes t))).code = 2

instance : Decidable (Command.Accepts path t) :=
  inferInstanceAs (Decidable (_ ∨ _))

theorem Program.code_validate : p.validate.code = 0 ∨ p.validate.code = 2 ↔ p.InRange := by
  rw [← check_eq_ok_iff, validate]
  cases p.check with
  | error e => simp [Outcome.failure]
  | ok _ => cases p.warnings.isEmpty <;> simp

theorem Command.accepts_iff : Accepts path t ↔ ∃ p, Program.ofText t = .ok p ∧ p.InRange := by
  simp only [Accepts, Command.run, File.program, File.text, Text.ofBytes?_bytes]
  cases Program.ofText t with
  | error e => simp [Except.mapError, Outcome.ofProgram, Outcome.failure]
  | ok p => simpa [Except.mapError, Outcome.ofProgram] using Program.code_validate

end Files

/-! ### Both ways -/

/-- A new session from a text is granted in an empty registry. -/
def Request.Granted (q : Request) : Prop :=
  ((Registry.start false).handle q).1.status = 200

instance (q : Request) : Decidable q.Granted :=
  inferInstanceAs (Decidable (_ = _))

section Both
open Json.Reader
variable {t path : String}

/-- Where a text is a document, a session is created from it exactly if it is not too long and its generic value is a
program in range. -/
theorem Request.granted_iff (document : IsDocument t) :
    (creation t).Granted ↔ (creation t).Fits ∧ ∃ v p, Reader.document (tree (documentDepth - 1)) t = .ok v ∧
      Program.ofJson v.canonical = .ok p ∧ p.InRange := by
  obtain ⟨before, after, s, h⟩ := document
  rw [Granted, Registry.status_of_creation (asks_creation t)]
  simp only [draft_creation h, document_tree_iff h]
  constructor
  · rintro ⟨_, session, ⟨fits, v, hv, rfl⟩, hs⟩
    obtain ⟨p, hp, inRange, -⟩ := SessionDraft.toSession_eq_ok_iff.mp hs
    exact ⟨fits, v, p, hv, hp, inRange⟩
  · rintro ⟨fits, v, p, hv, hp, inRange⟩
    exact ⟨_, _, ⟨fits, v, hv, rfl⟩, SessionDraft.toSession_eq_ok_iff.mpr ⟨p, hp, inRange, rfl⟩⟩

/-- What the command line accepts, the service accepts as well, if the text is not too long for a request and has a
generic value one level of brackets below the top. What the service accepts, the command line accepts exactly if the
parts of the program are given once in it, whatever else is repeated. Both then have the same program. -/
theorem Request.granted_agrees_accepts (path : String) (document : IsDocument t) :
    (Command.Accepts path t → (creation t).Fits →
      ((creation t).Granted ↔ ∃ v, Reader.document (tree (documentDepth - 1)) t = .ok v)) ∧
    ((creation t).Granted → (Command.Accepts path t ↔ PartsGivenOnceIn t)) ∧
    (Command.Accepts path t → (creation t).Granted → ∃ p s, (File.data (Text.bytes t)).program path = .ok p ∧
      ((Registry.start false).handle (creation t)).2.find? "x" = some s ∧ s.program = p) := by
  have granted := granted_iff document
  obtain ⟨before, after, spelling, h⟩ := document
  refine ⟨fun accepts fits => ?_, fun hgranted => ?_, fun accepts hgranted => ?_⟩
  · obtain ⟨p, read, inRange⟩ := Command.accepts_iff.mp accepts
    refine granted.trans ⟨fun ⟨_, v, _, hv, _⟩ => ⟨v, hv⟩, fun ⟨v, hv⟩ => ?_⟩
    exact ⟨fits, v, p, hv, Program.ofJson_of_ofText hv read, inRange⟩
  · obtain ⟨-, v, p, hv, decoded, inRange⟩ := granted.mp hgranted
    have deeper : Reader.document (tree documentDepth) t = .ok v :=
      (document_tree_iff h).mpr (spelling.value?_succ ((document_tree_iff h).mp hv))
    have reads := Program.ofText_iff_of_ofJson deeper decoded
    rw [Command.accepts_iff]
    constructor
    · rintro ⟨p', read, -⟩ raw hraw
      cases deeper.symm.trans hraw
      cases decoded.symm.trans (Program.ofJson_of_ofText deeper read)
      exact reads.mp read
    · intro once
      exact ⟨p, reads.mpr (once v deeper), inRange⟩
  · obtain ⟨p, read, inRange⟩ := Command.accepts_iff.mp accepts
    obtain ⟨fits, v, _, hv, -⟩ := granted.mp hgranted
    have decoded := Program.ofJson_of_ofText hv read
    have session := SessionDraft.toSession_eq_ok_iff.mpr ⟨p, decoded, inRange, rfl⟩
    exact ⟨p, _, File.program_eq_ok_iff.mpr read, Registry.find?_of_creation (asks_creation t)
      ((draft_creation h).mpr ⟨fits, v, (document_tree_iff h).mp hv, rfl⟩) session, rfl⟩

/-- A sum that lacks its operands. Unknown members are repeated in the program and in its only node. -/
def annotatedSum : Json :=
  .object [("nodes", .array [.object [("x", .null), ("operation", .string "Add"), ("x", .bool true)]]),
    ("x", .ofNat 1), ("edges", .array []), ("x", .ofNat 2)]

theorem exact_annotatedSum (depth : Nat) : Exact (depth + 3) annotatedSum := by
  refine .object fun m hm => ?_
  simp only [List.mem_cons, List.not_mem_nil, or_false] at hm
  rcases hm with rfl | rfl | rfl | rfl
  · refine .array fun node hnode => ?_
    cases List.mem_singleton.mp hnode
    refine .object fun m hm => ?_
    simp only [List.mem_cons, List.not_mem_nil, or_false] at hm
    rcases hm with rfl | rfl | rfl
    · exact .null depth
    · exact .string depth _
    · exact .bool depth _
  · exact exact_ofNat _ (by decide)
  · exact .array nofun
  · exact exact_ofNat _ (by decide)

theorem givenOnce_annotatedSum : Decoder.ProgramGivenOnce annotatedSum := by
  refine ⟨show ∀ k ∈ ["nodes", "edges"], _ by decide, fun ns es parts => ?_⟩
  cases parts.unique (.inr ⟨_, rfl, .cons rfl (.cons rfl .nil)⟩)
  refine ⟨fun node hnode => ?_, nofun⟩
  cases List.mem_singleton.mp hnode
  refine ⟨show ∀ k ∈ ["operation"], _ by decide, fun w parts => ?_⟩
  cases parts.unique (.inr ⟨_, rfl, .cons rfl .nil⟩)
  exact trivial

theorem Request.annotated_granted_agrees_accepts :
    let t := annotatedSum.pretty
    IsDocument t ∧ ¬DistinctKeysIn t ∧ PartsGivenOnceIn t ∧ Command.Accepts "sum.json" t ∧ (creation t).Granted ∧
      ∃ p s, (File.data (Text.bytes t)).program "sum.json" = .ok p ∧
        ((Registry.start false).handle (creation t)).2.find? "x" = some s ∧ s.program = p := by
  intro t
  have document : IsDocument t := isDocument_print Layout.onlyBlanks_pretty (exact_annotatedSum 0)
  have read : Reader.document (tree documentDepth) t = .ok annotatedSum :=
    document_print Layout.onlyBlanks_pretty (exact_annotatedSum 124)
  have valued : Reader.document (tree (documentDepth - 1)) t = .ok annotatedSum :=
    document_print Layout.onlyBlanks_pretty (exact_annotatedSum 123)
  have repeated : ¬DistinctKeysIn t := fun distinct => absurd (distinct _ read) (by decide)
  have once : PartsGivenOnceIn t := by
    intro v hv
    cases read.symm.trans hv
    exact givenOnce_annotatedSum
  have posted : (creation t).Granted := by decide +kernel
  have fits : (creation t).Fits := by decide +kernel
  obtain ⟨service, commandLine, same⟩ := granted_agrees_accepts "sum.json" document
  have accepts := (commandLine posted).mpr once
  have granted := (service accepts fits).mpr ⟨_, valued⟩
  exact ⟨document, repeated, once, accepts, granted, same accepts granted⟩

/-- A part is repeated. -/
def repeatedText : String :=
  (Json.object [("nodes", .array []), ("nodes", .array []), ("edges", .array [])]).compact

/-- A number in a member that is unknown is too large. -/
def largeText : String :=
  "\x7b\"nodes\":[],\"edges\":[],\"x\":1e999\x7d"

theorem isDocument_largeText : IsDocument largeText := by
  obtain ⟨nodes, hnodes, -⟩ := exists_quoted "nodes"
  obtain ⟨edges, hedges, -⟩ := exists_quoted "edges"
  obtain ⟨x, hx, -⟩ := exists_quoted "x"
  let b : Blanks := .none
  let n : NumberSpelling := { printedInteger 1 with exponent := some ⟨false, none, printedDigits 999⟩ }
  refine ⟨b, b, .object (.member b b nodes b b (.list (.done b)) (.member b b edges b b (.list (.done b))
    (.member b b x b b (.number n) (.done b)))), ?_⟩
  simp only [Spelling.text, MemberSpellings.text, ItemSpellings.text, hnodes, hedges, hx]
  decide +kernel

/-- The service accepts a program that repeats a part, and the command line one with an unknown number that is too
large; neither accepts the other. -/
theorem Request.granted_not_iff_accepts :
    (IsDocument repeatedText ∧ (creation repeatedText).Granted ∧ ¬Command.Accepts "graph.json" repeatedText) ∧
      IsDocument largeText ∧ (creation largeText).Fits ∧ Command.Accepts "graph.json" largeText ∧
        ¬(creation largeText).Granted := by
  have exact : Exact 2 (.object [("nodes", .array []), ("nodes", .array []), ("edges", .array [])]) := by
    refine .object fun m hm => ?_
    simp only [List.mem_cons, List.not_mem_nil, or_false] at hm
    rcases hm with rfl | rfl | rfl <;> exact .array nofun
  exact ⟨⟨isDocument_print Layout.onlyBlanks_compact exact, by decide +kernel, by decide +kernel⟩,
    isDocument_largeText, by decide +kernel, by decide +kernel, by decide +kernel⟩

end Both

end CipherGraph
