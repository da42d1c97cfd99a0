import CipherGraph.Proofs.Json.Length
import CipherGraph.Proofs.Service.Acceptance
import CipherGraph.Proofs.Service.Told

/-! # What a session serves

A session serves the source and the program that it was created with until it is deleted, whatever is clicked or
selected in it. The text of the program is good for the draft of another session, which then has the same program, unless
the text is too long for a request. It can be longer than the text from which the program was read. -/

namespace CipherGraph
open Json

/-! ### Programs that are used again -/

/-- A request for a session with a name, with a program that is given as a text. -/
def Request.registration (name t : String) : Request where
  method := .post
  target := "/sessions"
  contentType := some "application/json"
  body := "\x7b\"name\":" ++ (Json.string name).compact ++ ",\"graph\":" ++ t ++ "\x7d"

theorem Request.asks_registration (name t : String) : (registration name t).Asks .post .sessions :=
  ⟨rfl, show Route.ofTarget? "/sessions" = _ from rfl⟩

/-- A draft around the text of a value, in any layout, is read exactly if the body is not too long. It has the value for
its program. -/
theorem Request.draft_registration {layout : Layout} (blanks : layout.OnlyBlanks) (name : String) {v : Json}
    (exact : Exact (Json.Reader.documentDepth - 1) v) {d : SessionDraft} :
    let q := registration name (String.ofList (v.print layout 0))
    q.draft = .ok d ↔ q.Fits ∧ d = ⟨name, "", v.canonical, []⟩ := by
  intro q
  obtain ⟨s, text, value⟩ := printsAs_of_exact blanks exact 0
  have json : q.contentType.any namesJson = true := show namesJson "application/json" = true by decide +kernel
  have body : q.body.toList = '\x7b' :: (printString "name" ++ ':' :: (printString name ++ ',' ::
      (printString "graph" ++ ':' :: (Blanks.none.1 ++ (s.text ++ (Blanks.none.1 ++ ['\x7d'])))))) := by
    rw [text]
    simp [q, registration, Json.compact, Json.print]
    rfl
  rw [draft_of_members json body, value]
  simp

namespace Program

/-- The text of a program has its generic value. -/
theorem parse_compact (p : Program) : Json.parse p.toJson.compact = .ok p.toJson.canonical :=
  parse_eq_ok_iff.mpr ⟨p.toJson, document_print Layout.onlyBlanks_compact (p.exact_toJson 123), rfl⟩

theorem draft_registration_print {layout : Layout} (blanks : layout.OnlyBlanks) (name : String) (p : Program)
    {d : SessionDraft} :
    let q := Request.registration name (String.ofList (p.toJson.print layout 0))
    q.draft = .ok d ↔ q.Fits ∧ d = ⟨name, "", p.toJson.canonical, []⟩ :=
  Request.draft_registration blanks name (p.exact_toJson 122)

end Program

namespace Registry
variable {r : Registry} {creation : Request} {d : SessionDraft} {requests : List Request}

/-- A draft that nothing is wrong with is registered with its program, where its name is free. -/
theorem handle_registration {q : Request} {p : Program} (asks : q.Asks .post .sessions) (draft : q.draft = .ok d)
    (decoded : Program.ofJson d.program = .ok p) (inRange : p.InRange) (name : Text.trim d.name ≠ "")
    (lines : ∀ entry ∈ d.lines, ∃ p, Program.ofJson entry.2 = .ok p ∧ p.InRange) (free : r.find? d.name = none) :
    (r.handle q).1 = .json 200 (p.report d.name).toJson ∧
      ∃ s, (r.handle q).2.find? d.name = some s ∧ s.program = p := by
  obtain ⟨s, hs⟩ := SessionDraft.acceptable_iff.mp ⟨name, ⟨p, decoded, inRange⟩, lines⟩
  obtain ⟨-, own, -⟩ := SessionDraft.parts_toSession hs
  have program : s.program = p := Except.ok.inj (own.symm.trans decoded)
  obtain ⟨answer, found⟩ := handle_of_free asks draft hs free
  refine ⟨?_, s, found, program⟩
  rw [answer, Session.created_eq, program, SessionDraft.name_toSession hs]

/-- Until a session is deleted, its source and its program are served as they were registered. The text in which the
program is served is read back as that program, and where it is the graph of another draft, with a name that is free and
not blank, the session of that draft is created with the same program, and a client reads the same of it. A body around
the text is such a draft exactly if it is not too long. -/
theorem registered_program_served (asks : creation.Asks .post .sessions) (draft : creation.draft = .ok d)
    (created : (r.handle creation).1.status = 200) (kept : ∀ q ∈ requests, ¬ q.AsksIn .delete .session d.name) :
    let after := ((r.handle creation).2.handleAll requests).2
    ∃ p : Program, Program.ofJson d.program = .ok p ∧
      (r.handle creation).1 = .json 200 (p.report d.name).toJson ∧
      (r.handle creation).1.Tells 200 Client.report (p.report d.name) ∧
      (∀ q : Request, q.AsksIn .get .source d.name → (after.handle q).1 = .text 200 d.source) ∧
      ∀ q : Request, q.AsksIn .get .session d.name → ∃ t, (after.handle q).1 =
          { status := 200, contentType := some "application/json", body := t } ∧
        Program.ofText t = .ok p ∧
        (∀ again d', again.Asks .post .sessions → again.draft = .ok d' → Json.parse t = .ok d'.program →
          Text.trim d'.name ≠ "" → (∀ entry ∈ d'.lines, ∃ p, Program.ofJson entry.2 = .ok p ∧ p.InRange) →
          after.find? d'.name = none →
          (after.handle again).1 = .json 200 (p.report d'.name).toJson ∧
            (after.handle again).1.Tells 200 Client.report (p.report d'.name) ∧
            ∃ s, (after.handle again).2.find? d'.name = some s ∧ s.program = p) ∧
        ∀ name, (Request.registration name t).Asks .post .sessions ∧ ∃ v, Json.parse t = .ok v ∧
          ((Request.registration name t).draft = .ok ⟨name, "", v, []⟩ ↔ (Request.registration name t).Fits) := by
  intro after
  obtain ⟨s, gestures, hs, answer, left⟩ := exists_leaves_of_created asks draft created kept
  obtain ⟨source, decoded, inRange⟩ := SessionDraft.parts_toSession hs
  have few : s.program.Few := Request.few_of_program draft decoded
  rw [Session.created_eq, SessionDraft.name_toSession hs] at answer
  refine ⟨s.program, decoded, answer, answer ▸ few.tells_report d.name, fun q hq => ?_,
    fun q hq => ⟨s.program.toJson.compact, ?_, ?_, ?_, ?_⟩⟩
  · rw [hq.handle_get (fun _ => rfl) left.session, ← source]
    rfl
  · rw [hq.handle_get (fun _ => rfl) left.session]
    rfl
  · exact Program.ofText_print Layout.onlyBlanks_compact s.program
  · intro again d' asks' draft' uses name lines free
    have decoded' : Program.ofJson d'.program = .ok s.program := by
      rw [Except.ok.inj (uses.symm.trans s.program.parse_compact)]
      exact s.program.ofJson_canonical_toJson
    obtain ⟨again, stored⟩ := handle_registration asks' draft' decoded' inRange name lines free
    exact ⟨again, again ▸ few.tells_report d'.name, stored⟩
  · intro name
    refine ⟨Request.asks_registration name _, _, s.program.parse_compact, ?_⟩
    exact (s.program.draft_registration_print Layout.onlyBlanks_compact name).trans (and_iff_left rfl)

/-- A sum with its left operand given twice, in a program that is written as a list, and a source with a quote, a line
break and a letter that is not ASCII. -/
def storedCreation : Request where
  method := .post
  target := "/sessions"
  contentType := some "application/json"
  body := "\x7b\"name\":\"x\",\"source_code\":\"\\u00e9 \\\"\\n\",\"graph\":[[[\"Add\"]," ++
    "[\x7b\"InputCiphertext\":18446744073709551615\x7d]],[[1,0,\"Left\"],[1,0,\x7b\"Left\":null\x7d]]]\x7d"

/-- A click, another one that does not name its content, and the deletion of another session. -/
def storedPast : List Request :=
  [{ method := .post, target := "/sessions/x/selection/line", contentType := some "application/json",
      body := "\x7b\"line\":3\x7d" },
    { method := .post, target := "/sessions/x/selection/line", body := "\x7b\"line\":4\x7d" },
    { method := .delete, target := "/sessions/demo" }]

/-- The served text is used under the name of the session that was deleted. -/
theorem repeated_operand_served :
    let after := (((start true).handle storedCreation).2.handleAll storedPast).2
    let source : Request := { method := .get, target := "/programs/x" }
    let program : Request := { method := .get, target := "/sessions/x" }
    let p : Program := ⟨[.add, .input 18446744073709551615], [⟨1, 0, .left⟩, ⟨1, 0, .left⟩]⟩
    (after.handle source).1 = .text 200 "é \"\n" ∧
      ∃ t, (after.handle program).1 = { status := 200, contentType := some "application/json", body := t } ∧
        Program.ofText t = .ok p ∧
        let again := Request.registration "demo" t
        (after.handle again).1 = .json 200 (p.report "demo").toJson ∧
          (after.handle again).1.Tells 200 Client.report (p.report "demo") ∧
          ∃ s, (after.handle again).2.find? "demo" = some s ∧ s.program = p := by
  intro after source program p
  have asks : storedCreation.Asks .post .sessions := ⟨rfl, rfl⟩
  have read : (storedCreation.draft.toOption.map fun d => (d.name, d.source, (Program.ofJson d.program).toOption)) =
      some ("x", "é \"\n", some p) := by
    decide +kernel
  have run : ((start true).handle storedCreation).1.status = 200 ∧ (after.find? "demo").isNone = true ∧
      (Request.registration "demo" (after.handle program).1.body).Fits := by
    decide +kernel
  obtain ⟨created, deleted, fits⟩ := run
  have kept : ∀ q ∈ storedPast, ¬ q.AsksIn .delete .session "x" := by decide +kernel
  have free := Option.isNone_iff_eq_none.mp deleted
  obtain ⟨d, draft, parts⟩ := Option.map_eq_some_iff.mp read
  simp only [Prod.mk.injEq] at parts
  obtain ⟨name, stored, decoded⟩ := parts
  rw [← name] at kept
  obtain ⟨p', decoded', -, -, sourceServed, programServed⟩ :=
    registered_program_served asks (toOption_eq_some_iff.mp draft) created kept
  have same : p' = p := Option.some.inj ((toOption_eq_some_iff.mpr decoded').symm.trans decoded)
  subst same
  rw [name] at sourceServed programServed
  have getsSource : source.AsksIn .get .source "x" := ⟨"x", ⟨rfl, by decide +kernel⟩, rfl⟩
  have getsProgram : program.AsksIn .get .session "x" := ⟨"x", ⟨rfl, by decide +kernel⟩, rfl⟩
  obtain ⟨t, served, readBack, usedAgain, registers⟩ := programServed program getsProgram
  obtain ⟨asksAgain, v, uses, draftAgain⟩ := registers "demo"
  rw [served] at fits
  have named : Text.trim "demo" ≠ "" := by decide
  have again := usedAgain _ _ asksAgain (draftAgain.mpr fits) uses named (by simp) free
  exact ⟨stored ▸ sourceServed source getsSource, t, served, readBack, again⟩

end Registry

/-! ### Programs that are too long when they are served -/

/-- A program as a client may spell it, with lists in place of objects. -/
def Program.listJson (p : Program) : Json :=
  .array [.array (p.nodes.map fun op => .array [op.toJson]), .array (p.edges.map (·.toJson))]

namespace Program
open Json.Decoder

theorem exact_listJson (p : Program) (depth : Nat) : Exact (depth + 4) p.listJson := by
  refine .array fun v hv => ?_
  simp only [List.mem_cons, List.not_mem_nil, or_false] at hv
  rcases hv with rfl | rfl
  · refine .array fun v hv => ?_
    obtain ⟨op, -, rfl⟩ := List.mem_map.mp hv
    refine .array fun v hv => ?_
    cases List.mem_singleton.mp hv
    exact op.exact_toJson depth
  · refine .array fun v hv => ?_
    obtain ⟨e, -, rfl⟩ := List.mem_map.mp hv
    exact e.exact_toJson (depth + 1)

theorem ofJson_canonical_listJson (p : Program) : ofJson p.listJson.canonical = .ok p := by
  have node (op : Operation) : Decoder.node (.array [op.toJson]) = .ok op :=
    Decoder.node_eq_ok_iff.mpr ⟨op.toJson, .inl rfl, Decoder.operation_toJson op⟩
  refine ofJson_eq_ok_iff.mpr (Decoder.stable_program.canonical (Decoder.program_eq_ok_iff.mpr ⟨_, _, .inl rfl, ?_, ?_⟩))
  · exact Decoder.list_map _ fun op _ => node op
  · exact Decoder.list_map _ fun e _ => Decoder.edge_toJson e

end Program

/-- Some inputs that all read the same slot. -/
def repeatedInput (n : Nat) : Program :=
  ⟨List.replicate n (.input 0), []⟩

theorem inRange_repeatedInput (n : Nat) : (repeatedInput n).InRange :=
  nofun

namespace Request

theorem utf8ByteSize_registration (name : String) (v : Json) :
    (registration name v.compact).body.utf8ByteSize =
      (Json.string name).compact.utf8ByteSize + String.utf8Len (v.print .compact 0) + 18 := by
  simp only [registration, String.utf8ByteSize_append, Json.compact, String.utf8ByteSize_ofList]
  have opening : "\x7b\"name\":".utf8ByteSize = 8 := by decide
  have middle : ",\"graph\":".utf8ByteSize = 9 := by decide
  have closing : "\x7d".utf8ByteSize = 1 := by decide
  omega

end Request

section Lengths
variable (n : Nat)

theorem utf8Len_listJson_repeatedInput :
    String.utf8Len ((repeatedInput (n + 1)).listJson.print .compact 0) = (n + 1) * 24 + 6 := by
  have items := utf8Len_print_replicate 1 n (.array [(Operation.input 0).toJson])
  rw [show String.utf8Len ((Json.array [(Operation.input 0).toJson]).print .compact 2) = 23 by decide] at items
  have unbroken (level : Nat) : Layout.compact.lineBreak level = [] := rfl
  have sizes : ','.utf8Size = 1 ∧ '['.utf8Size = 1 ∧ ']'.utf8Size = 1 := by decide
  simp only [Program.listJson, repeatedInput, List.map_replicate, List.map_nil, print, printItems, unbroken,
    List.nil_append, List.append_nil, List.cons_append, String.utf8Len_cons, String.utf8Len_append,
    String.utf8Len_nil, items, sizes]

theorem utf8Len_toJson_repeatedInput :
    String.utf8Len ((repeatedInput (n + 1)).toJson.print .compact 0) = (n + 1) * 36 + 22 := by
  have items := utf8Len_print_replicate 1 n (Operation.input 0).nodeToJson
  rw [show String.utf8Len ((Operation.input 0).nodeToJson.print .compact 2) = 35 by decide] at items
  have unbroken (level : Nat) : Layout.compact.lineBreak level = [] := rfl
  have sizes : ','.utf8Size = 1 ∧ '['.utf8Size = 1 ∧ ']'.utf8Size = 1 ∧ '\x7b'.utf8Size = 1 ∧ '\x7d'.utf8Size = 1 ∧
      String.utf8Len (printString "nodes") = 7 ∧ String.utf8Len (printString "edges") = 7 ∧
      String.utf8Len Layout.compact.colon = 1 := by decide
  simp only [Program.toJson, repeatedInput, List.map_replicate, List.map_nil, print, printMembers, unbroken,
    List.nil_append, List.append_nil, List.cons_append, String.utf8Len_cons, String.utf8Len_append,
    String.utf8Len_nil, items, sizes]
  omega

theorem fits_listJson_repeatedInput :
    (Request.registration "x" (repeatedInput (n + 1)).listJson.compact).Fits ↔ (n + 1) * 24 + 27 ≤ Request.bodyLimit := by
  have name : (Json.string "x").compact.utf8ByteSize = 3 := by decide
  rw [Request.Fits, Request.utf8ByteSize_registration, utf8Len_listJson_repeatedInput, name]
  omega

theorem fits_toJson_repeatedInput :
    (Request.registration "y" (repeatedInput (n + 1)).toJson.compact).Fits ↔ (n + 1) * 36 + 43 ≤ Request.bodyLimit := by
  have name : (Json.string "y").compact.utf8ByteSize = 3 := by decide
  rw [Request.Fits, Request.utf8ByteSize_registration, utf8Len_toJson_repeatedInput, name]
  omega

end Lengths

namespace Registry

/-- A program that fits into a request only if it is spelled with lists is registered once, and then served in a text
with which it is not registered again. -/
theorem refused_again {p : Program} (inRange : p.InRange) (short : (Request.registration "x" p.listJson.compact).Fits)
    (long : ¬ (Request.registration "y" p.toJson.compact).Fits) {get : Request} (gets : get.AsksIn .get .session "x") :
    let after := ((start false).handle (Request.registration "x" p.listJson.compact)).2
    ((start false).handle (Request.registration "x" p.listJson.compact)).1 = .json 200 (p.report "x").toJson ∧
      (after.handle get).1 = .json 200 p.toJson ∧ after.find? "y" = none ∧
      (after.handle (Request.registration "y" p.toJson.compact)).1 = ServiceError.bodyLength.response := by
  intro after
  have asks := Request.asks_registration "x" p.listJson.compact
  have draft := (Request.draft_registration Layout.onlyBlanks_compact "x" (p.exact_listJson 122)).mpr ⟨short, rfl⟩
  obtain ⟨answer, s, found, program⟩ := handle_registration (r := start false) asks draft p.ofJson_canonical_listJson
    inRange (show Text.trim "x" ≠ "" by decide) nofun rfl
  refine ⟨answer, ?_, ?_, ?_⟩
  · rw [gets.handle_get (fun _ => rfl) found, ← program]
    rfl
  · have created : ((start false).handle (Request.registration "x" p.listJson.compact)).1.status = 200 := by
      rw [answer]
      rfl
    obtain ⟨s, hs, -⟩ := of_created asks draft created
    have other : (Request.registration "x" p.listJson.compact).action.subject? ≠ some "y" := by
      rw [asks.action_of_draft draft hs, Action.subject?, SessionDraft.name_toSession hs]
      show some "x" ≠ some "y"
      decide
    exact (Action.find?_run_of_other other).trans rfl
  · have asks := Request.asks_registration "y" p.toJson.compact
    have json : (Request.registration "y" p.toJson.compact).contentType.any namesJson = true :=
      show namesJson "application/json" = true by decide +kernel
    have draft : (Request.registration "y" p.toJson.compact).draft = .error .bodyLength := by
      rw [Request.draft, Request.read, if_pos json, if_neg long]
    rw [asks.handle_fst (by decide), asks.action_of_undrafted draft]
    rfl

/-- Sixty thousand inputs are registered, but the text in which they are served is too long for another request. -/
theorem long_program_not_registered_again :
    let p := repeatedInput 60000
    let creation := Request.registration "x" p.listJson.compact
    let get : Request := { method := .get, target := "/sessions/x" }
    let after := ((start false).handle creation).2
    ((start false).handle creation).1 = .json 200 (p.report "x").toJson ∧
      ∃ t, (after.handle get).1 = { status := 200, contentType := some "application/json", body := t } ∧
        Program.ofText t = .ok p ∧ after.find? "y" = none ∧ Text.trim "y" ≠ "" ∧
        (Request.registration "y" t).Asks .post .sessions ∧
        (after.handle (Request.registration "y" t)).1.status = 400 := by
  have short := (fits_listJson_repeatedInput 59999).mpr (by decide)
  have long := mt (fits_toJson_repeatedInput 59999).mp (by decide)
  have gets : ({ method := .get, target := "/sessions/x" } : Request).AsksIn .get .session "x" :=
    ⟨"x", ⟨rfl, by decide +kernel⟩, rfl⟩
  obtain ⟨answer, served, free, refused⟩ := refused_again (inRange_repeatedInput 60000) short long gets
  have status : ServiceError.bodyLength.response.status = 400 := rfl
  exact ⟨answer, _, served, Program.ofText_print Layout.onlyBlanks_compact _, free, by decide,
    Request.asks_registration "y" _, refused ▸ status⟩

end Registry

end CipherGraph
