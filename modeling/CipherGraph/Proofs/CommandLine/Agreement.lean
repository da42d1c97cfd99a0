import CipherGraph.CommandLine.Arguments
import CipherGraph.Proofs.CommandLine.Verdict
import CipherGraph.Proofs.Service.Precedence
import CipherGraph.Proofs.Service.Served
import CipherGraph.Proofs.Wire.Client

/-! # What the command line draws and what the service draws

The command line prints its drawings on many lines, and the service sends them on one. They are texts of one value: what
the command shows for a line of the demonstration is what a first click on this line is answered with, and what it draws
of a program is what is drawn of a session with this program. The program is drawn exactly if the session is created. -/

namespace CipherGraph
open Json

/-! ### Texts of one value -/

namespace Json

/-- Two texts of one JSON value. -/
def SameValue (s t : String) : Prop :=
  ∃ v, parse s = .ok v ∧ parse t = .ok v

/-- What is printed on many lines and what is sent on one are texts of one value. -/
theorem sameValue_print {v : Json} (exact : Exact Reader.documentDepth v) : SameValue (v.pretty ++ "\n") v.compact :=
  ⟨v.canonical, parse_pretty_line exact, parse_compact exact⟩

end Json

/-! ### Lines as arguments -/

namespace Decimal

theorem natural?_ofNat (n : Nat) : natural? (ofNat n) = some n := by
  have digits : (ofNat n).all isDigit = true := List.all_eq_true.mpr fun _ => isDigit_of_mem_ofNat
  have some : (ofNat n).isEmpty = false := List.isEmpty_eq_false_iff.mpr Nat.toDigits_ne_nil
  unfold natural?
  rw [some, digits]
  exact congrArg Option.some (ofDigits_printedDigits n)

theorem ofNat_ne_cons {n : Nat} {ch : Char} (other : isDigit ch = false) (rest : List Char) : ofNat n ≠ ch :: rest := by
  intro same
  have digit : isDigit ch = true := isDigit_of_mem_ofNat (n := n) (same ▸ List.mem_cons_self)
  cases other.symm.trans digit

/-- A word of 64 bits, if an integer fits into one. -/
def word64? (i : Int) : Option Int64 :=
  if Int64.minValue.toInt ≤ i ∧ i ≤ Int64.maxValue.toInt then some (Int64.ofInt i) else none

theorem word64?_toInt (line : Int64) : word64? line.toInt = some line := by
  rw [word64?, if_pos ⟨line.minValue_le_toInt, line.toInt_le⟩, Int64.ofInt_toInt]

theorem signed64?_minus (cs : List Char) :
    signed64? (String.ofList ('-' :: cs)) = (natural? cs).bind fun n => word64? (-n) := by
  unfold signed64?
  rw [String.toList_ofList]
  rfl

theorem signed64?_ofNat (n : Nat) : signed64? (String.ofList (ofNat n)) = word64? n := by
  unfold signed64?
  rw [String.toList_ofList]
  split
  · next begins => exact absurd begins (ofNat_ne_cons (by decide) _)
  · next begins => exact absurd begins (ofNat_ne_cons (by decide) _)
  · rw [natural?_ofNat]
    rfl

/-- A line is read back from its digits, with a sign before them if it is negative. -/
theorem signed64?_toInt (line : Int64) : signed64? (String.ofList (ofInt line.toInt)) = some line := by
  have word := word64?_toInt line
  cases h : line.toInt with
  | ofNat n =>
    rw [h] at word
    exact (signed64?_ofNat n).trans word
  | negSucc n =>
    rw [h, ← Int.neg_ofNat_succ n] at word
    rw [ofInt, signed64?_minus, natural?_ofNat, Option.bind_some]
    exact word

end Decimal

/-- A command for a line of the demonstration names the line in digits. -/
theorem Command.parse?_demo (line : Int64) :
    parse? ["demo", "--line", String.ofList (Decimal.ofInt line.toInt)] = some (.demo line) := by
  show (Decimal.signed64? _).map Command.demo = _
  rw [Decimal.signed64?_toInt]
  rfl

/-! ### Clicks in the demonstration -/

/-- A request that clicks a line of the demonstration. -/
def Request.demoClick (line : Int64) : Request :=
  Registry.selectionPost "/sessions/demo/selection/line" (Json.object [("line", .ofInt line.toInt)]).compact

theorem Request.asksIn_demoClick (line : Int64) : (demoClick line).AsksIn .post .selectedLine "demo" :=
  ⟨"demo", ⟨rfl, show Route.ofTarget? "/sessions/demo/selection/line" = _ by decide +kernel⟩, rfl⟩

section Clicks
open Json.Reader

/-- The record of a click, to be read from a text and to be decoded from a value. -/
def lineClickSteps : Record LineClickParts (Step LineClickParts × Decoder.Step LineClickParts) LineClick where
  name := lineClickRecord.name
  fields := [⟨"line", (·.line.isSome), (fun s => do return { s with line := some (← signed64) },
    fun s v => do return { s with line := some (← (Decoder.integer .signed64 v).map Int64.ofInt) }), false⟩]
  blank := {}
  finish := lineClickRecord.finish

theorem agrees_lineClick : Agrees (record lineClickRecord) (Decoder.record (lineClickSteps.mapStep Prod.snd)) := by
  have line : Agrees signed64 fun v => (Decoder.integer .signed64 v).map Int64.ofInt := (agrees_integer .signed64).map _
  refine agrees_record (r := lineClickSteps) (List.forall_mem_cons.mpr ⟨?_, by simp⟩) (by simp [lineClickSteps])
  exact line.step fun (s : LineClickParts) l => { s with line := some l }

/-- The digits of a line are few. -/
theorem Decimal.length_ofInt_le (line : Int64) : (ofInt line.toInt).length ≤ 20 := by
  have digits {n : Nat} (few : n < 10 ^ 19) : (ofNat n).length ≤ 19 :=
    (Nat.length_toDigits_le_iff (by decide) (by decide)).mpr few
  have low := line.minValue_le_toInt
  have high := line.toInt_le
  rw [show Int64.minValue.toInt = -9223372036854775808 by decide] at low
  rw [show Int64.maxValue.toInt = 9223372036854775807 by decide] at high
  cases h : line.toInt with
  | ofNat n =>
    have same : (n : Int) = line.toInt := h.symm
    exact Nat.le_succ_of_le (digits (by omega))
  | negSucc n => exact Nat.succ_le_succ (digits (by omega))

theorem Request.fits_demoClick (line : Int64) : (demoClick line).Fits := by
  have text : (demoClick line).body.toList =
      '\x7b' :: (printString "line" ++ ':' :: (Decimal.ofInt line.toInt ++ ['\x7d'])) := by
    simp [demoClick, Registry.selectionPost, Json.compact, Json.print, Json.printMembers, Layout.compact, Json.ofInt,
      printNumber]
  have bound := Text.utf8Len_le (demoClick line).body.toList
  have digits := Decimal.length_ofInt_le line
  have key : (printString "line").length = 6 := by decide
  rw [String.utf8Len_toList, text, List.length_cons, List.length_append, List.length_cons, List.length_append, key,
    List.length_singleton] at bound
  rw [Request.Fits, Request.bodyLimit]
  omega

theorem Request.read_demoClick (line : Int64) : (demoClick line).read (record lineClickRecord) = .ok ⟨line⟩ := by
  have exact : Exact 1 (.object [("line", .ofInt line.toInt)]) := by
    refine .object fun m hm => ?_
    cases List.mem_singleton.mp hm
    exact exact_ofInt64 line 0
  have read : document (record lineClickRecord) (demoClick line).body = .ok ⟨line⟩ := by
    refine (agrees_lineClick.document_eq_ok_iff (document_print Layout.onlyBlanks_compact exact)).mpr ?_
    refine Decoder.record_object_eq_ok_iff.mpr ⟨⟨some line⟩, ?_, rfl, rfl⟩
    have member : Decoder.recordMember (lineClickSteps.mapStep Prod.snd) {} ("line", .ofInt line.toInt) =
        .ok ⟨some line⟩ := by
      show ((Decoder.integer .signed64 (.ofInt line.toInt)).map Int64.ofInt >>= fun l =>
        pure ({ line := some l } : LineClickParts)) = _
      rw [Decoder.integer_ofInt64, Except.map, Int64.ofInt_toInt]
      rfl
    rw [List.foldlM_cons]
    show (Decoder.recordMember (lineClickSteps.mapStep Prod.snd) {} ("line", .ofInt line.toInt) >>= _) = _
    rw [member]
    rfl
  have json : (demoClick line).contentType.any namesJson = true := show namesJson "application/json" = true by decide +kernel
  exact Request.read_eq_ok_iff.mpr ⟨json, fits_demoClick line, read⟩

end Clicks

/-! ### Outcomes and responses -/

/-- A command succeeds, and prints the value that a response sends. -/
def Outcome.TellsAs (outcome : Outcome) (response : Response) : Prop :=
  ∃ v : Json, outcome.code = 0 ∧ outcome.stdout = v.pretty ++ "\n" ∧ response = .json 200 v

theorem Outcome.tellsAs_value (v : Json) (log : List String) : (value v log).TellsAs (.json 200 v) :=
  ⟨v, rfl, rfl, rfl⟩

/-- What is shown after a click on a line of the demonstration. -/
def demoSnapshot (line : Int64) : Snapshot :=
  ((Selection.ofLineMap ProgramTable.demo).click line).1.snapshot

theorem counted_demoSnapshot (line : Int64) : (demoSnapshot line).Counted := by
  intro r drawn
  have view : (ProgramTable.demo.resolve line).view.toOption = some r := by
    rw [← drawn, demoSnapshot, Selection.click_fst, Selection.ofLineMap_eq, Selection.display_eq]
    rfl
  rw [toOption_eq_some_iff] at view
  obtain ⟨plain, hr, rfl⟩ := map_eq_ok_iff.mp view
  exact (Program.counted_drawing hr (ProgramTable.few_resolve_demo line).edges).markWarnings

namespace Registry

theorem handle_demoClick {line : Int64} {click : Request} (clicks : click.AsksIn .post .selectedLine "demo")
    (body : click.read (Json.Reader.record lineClickRecord) = .ok ⟨line⟩) :
    ((start true).handle click).1 = .json 200 (demoSnapshot line).toJson :=
  handle_click (s := .demo) rfl clicks body

variable {r : Registry} {creation : Request} {d : SessionDraft} {p : Program}

/-- Where nothing else is wrong with a draft, its program decides whether it is granted. -/
theorem status_of_program (asks : creation.Asks .post .sessions) (draft : creation.draft = .ok d)
    (decoded : Program.ofJson d.program = .ok p) (named : Text.trim d.name ≠ "")
    (lines : ∀ entry ∈ d.lines, ∃ p, Program.ofJson entry.2 = .ok p ∧ p.InRange) (free : r.find? d.name = none) :
    p.InRange ∧ (r.handle creation).1.status = 200 ∨ ¬ p.InRange ∧ (r.handle creation).1.status = 400 := by
  rw [asks.handle_of_draft draft]
  rcases SessionDraft.run_creation_cases (Request.sorted_lines draft) r with ⟨⟨-, ⟨q, hq, inRange⟩, -⟩, -, granted⟩ |
    ⟨-, ⟨t, taken⟩, -⟩ | ⟨flawed, bad, -⟩
  · cases decoded.symm.trans hq
    exact Or.inl ⟨inRange, granted⟩
  · cases free.symm.trans taken
  · exact Or.inr ⟨fun inRange => flawed ⟨named, ⟨p, decoded, inRange⟩, lines⟩, bad⟩

/-- A session that was created is drawn as its program is. -/
theorem handle_rendering {requests : List Request} {drawing : Request} {plain : Rendering}
    (asks : creation.Asks .post .sessions) (draft : creation.draft = .ok d)
    (decoded : Program.ofJson d.program = .ok p) (hr : p.render = .ok plain)
    (created : (r.handle creation).1.status = 200) (kept : ∀ q ∈ requests, ¬ q.AsksIn .delete .session d.name)
    (draws : drawing.AsksIn .get .rendering d.name) :
    (((r.handle creation).2.handleAll requests).2.handle drawing).1 = .json 200 plain.toJson := by
  obtain ⟨s, gestures, hs, -, left⟩ := exists_leaves_of_created asks draft created kept
  obtain ⟨-, own, -⟩ := SessionDraft.parts_toSession hs
  have program : (s.afterAll gestures).program = p := Except.ok.inj (own.symm.trans decoded)
  rw [draws.handle_get (fun _ => rfl) left.session]
  simp only [Query.run, program, hr]

end Registry

/-! ### Two ways to a drawing -/

namespace Command

theorem run_render_print {layout : Layout} (blanks : layout.OnlyBlanks) (p : Program) (path : String) :
    (render path).run (.data (Text.bytes (String.ofList (p.toJson.print layout 0)))) = p.draw :=
  Outcome.ofProgram_data (Program.ofText_print blanks p) Program.draw path

/-- The command line draws what the service draws. For every line of the demonstration it prints the value that a first
click on this line is answered with. For every program, in a text of any layout, it succeeds exactly if a session with
this program is created, and fails exactly if that is refused as a bad request; where it succeeds, it prints the value
that is drawn of the session as long as the session is not deleted. The two texts are read as one value, if the edges of
the program can be counted in a word. -/
theorem draws_what_is_served :
    (∀ (line : Int64) (file : File) (before : List Request) (click : Request),
      (∀ q ∈ before, ((Registry.start true).handle q).2 = Registry.start true) →
      click.AsksIn .post .selectedLine "demo" → click.read (Json.Reader.record lineClickRecord) = .ok ⟨line⟩ →
      let printed := (demo line).run file
      let answer := (((Registry.start true).handleAll before).2.handle click).1
      printed.TellsAs answer ∧ SameValue printed.stdout answer.body) ∧
    (∀ line, parse? ["demo", "--line", String.ofList (Decimal.ofInt line.toInt)] = some (demo line) ∧
      (Request.demoClick line).AsksIn .post .selectedLine "demo" ∧
      (Request.demoClick line).read (Json.Reader.record lineClickRecord) = .ok ⟨line⟩) ∧
    (∀ (p : Program) (layout : Layout) (path : String) (r : Registry) (creation : Request) (d : SessionDraft),
      layout.OnlyBlanks → creation.Asks .post .sessions → creation.draft = .ok d →
      Program.ofJson d.program = .ok p → Text.trim d.name ≠ "" →
      (∀ entry ∈ d.lines, ∃ p, Program.ofJson entry.2 = .ok p ∧ p.InRange) → r.find? d.name = none →
      let printed := (render path).run (.data (Text.bytes (String.ofList (p.toJson.print layout 0))))
      let answer := (r.handle creation).1
      (printed.code = 0 ↔ answer.status = 200) ∧ (printed.code = 1 ↔ answer.status = 400) ∧
      (printed.code = 0 → ∀ (requests : List Request) (drawing : Request),
        (∀ q ∈ requests, ¬ q.AsksIn .delete .session d.name) → drawing.AsksIn .get .rendering d.name →
        let drawn := (((r.handle creation).2.handleAll requests).2.handle drawing).1
        printed.TellsAs drawn ∧ (p.edgeCount < UInt64.size → SameValue printed.stdout drawn.body))) ∧
    ∀ (p : Program) (layout : Layout) (name : String), layout.OnlyBlanks →
      let creation := Request.registration name (String.ofList (p.toJson.print layout 0))
      creation.Asks .post .sessions ∧
        ∃ v, (creation.draft = .ok ⟨name, "", v, []⟩ ↔ creation.Fits) ∧ Program.ofJson v = .ok p := by
  refine ⟨?_, fun line => ⟨parse?_demo line, Request.asksIn_demoClick line, Request.read_demoClick line⟩, ?_, ?_⟩
  · intro line file before click unchanged clicks body printed answer
    have told : answer = .json 200 (demoSnapshot line).toJson := by
      show (((Registry.start true).handleAll before).2.handle click).1 = _
      rw [Registry.handleAll_of_unchanged unchanged]
      exact Registry.handle_demoClick clicks body
    rw [told]
    exact ⟨Outcome.tellsAs_value _ _, sameValue_print ((counted_demoSnapshot line).exact 123)⟩
  · intro p layout path r creation d blanks asks draft decoded named lines free printed answer
    have printedEq : printed = p.draw := run_render_print blanks p path
    rw [printedEq]
    rcases Registry.status_of_program asks draft decoded named lines free with ⟨inRange, granted⟩ | ⟨dangling, bad⟩
    · obtain ⟨plain, hr, draws⟩ := Program.draw_of_inRange inRange
      rw [draws]
      refine ⟨iff_of_true rfl granted, iff_of_false nofun fun bad => ?_, fun _ requests drawing kept asked => ?_⟩
      · cases granted.symm.trans bad
      · intro drawn
        have told : drawn = .json 200 plain.toJson :=
          Registry.handle_rendering asks draft decoded hr granted kept asked
        rw [told]
        exact ⟨Outcome.tellsAs_value _ _, fun few => sameValue_print ((Program.counted_drawing hr few).exact 124)⟩
    · obtain ⟨reason, fails⟩ := p.draw_of_not_inRange dangling
      rw [fails]
      refine ⟨iff_of_false nofun fun granted => ?_, iff_of_true rfl bad, nofun⟩
      cases granted.symm.trans bad
  · intro p layout name blanks creation
    refine ⟨Request.asks_registration name _, _, ?_, p.ofJson_canonical_toJson⟩
    exact (p.draft_registration_print blanks name).trans (and_iff_left rfl)

/-- A sum that lacks its right operand is drawn and served with a warning, also after a click, and one whose left operand
does not exist is refused by both. A line before the first one is drawn as it is served after the list was asked for. -/
theorem unfinished_sum_drawn_as_served :
    let sum : Program := ⟨[.input 7, .add], [⟨0, 1, .left⟩]⟩
    let dangling : Program := ⟨[.add], [⟨3, 0, .left⟩]⟩
    let drawing : Request := { method := .get, target := "/sessions/x/render" }
    let click := Registry.selectionPost "/sessions/x/selection/line" "\x7b\"line\":3\x7d"
    let list : Request := { method := .get, target := "/sessions" }
    let text (p : Program) := String.ofList (p.toJson.print .pretty 0)
    let run (p : Program) := (render "sum.json").run (.data (Text.bytes (text p)))
    let created (p : Program) := (Registry.start true).handle (Request.registration "x" (text p))
    (run sum).code = 0 ∧ (created sum).1.status = 200 ∧
      SameValue (run sum).stdout (((created sum).2.handleAll [click]).2.handle drawing).1.body ∧
      (run dangling).code = 1 ∧ (created dangling).1.status = 400 ∧
      SameValue ((demo (-3)).run .missing).stdout
        (((Registry.start true).handleAll [list]).2.handle (Request.demoClick (-3))).1.body := by
  intro sum dangling drawing click list text run created
  obtain ⟨lines, clicks, programs, drafts⟩ := draws_what_is_served
  have named : Text.trim "x" ≠ "" := by decide
  have free : (Registry.start true).find? "x" = none := rfl
  have kept : ∀ q ∈ [click], ¬ q.AsksIn .delete .session "x" := by decide +kernel
  have asked : drawing.AsksIn .get .rendering "x" := ⟨"x", ⟨rfl, by decide +kernel⟩, rfl⟩
  have served (p : Program) (fits : (Request.registration "x" (text p)).Fits) :
      ((run p).code = 0 ↔ (created p).1.status = 200) ∧
      ((run p).code = 1 ↔ (created p).1.status = 400) ∧
      ((run p).code = 0 → p.edgeCount < UInt64.size →
        SameValue (run p).stdout (((created p).2.handleAll [click]).2.handle drawing).1.body) := by
    obtain ⟨asks, _, draft, decoded⟩ := drafts p .pretty "x" Layout.onlyBlanks_pretty
    obtain ⟨granted, refused, drawn⟩ := programs p .pretty "sum.json" _ _ _ Layout.onlyBlanks_pretty asks
      (draft.mpr fits) decoded
      named nofun free
    dsimp only [run, created, text]
    exact ⟨granted, refused, fun code few => (drawn code [click] drawing kept asked).2 few⟩
  have draws (p : Program) : run p = p.draw := run_render_print Layout.onlyBlanks_pretty p "sum.json"
  have drawnCode : (run sum).code = 0 := draws sum ▸ rfl
  have refusedCode : (run dangling).code = 1 := draws dangling ▸ rfl
  obtain ⟨granted, -, drawn⟩ := served sum (by decide +kernel)
  obtain ⟨-, refused, -⟩ := served dangling (by decide +kernel)
  have unchanged : ∀ q ∈ [list], ((Registry.start true).handle q).2 = Registry.start true := by
    intro q hq
    cases List.mem_singleton.mp hq
    have asksList : list.Asks .get .sessions := ⟨rfl, show Route.ofTarget? "/sessions" = _ from rfl⟩
    rw [Registry.handle_eq, asksList.action_of_get rfl]
    rfl
  obtain ⟨-, clicked, body⟩ := clicks (-3)
  exact ⟨drawnCode, granted.mp drawnCode, drawn drawnCode (by decide), refusedCode, refused.mp refusedCode,
    (lines (-3) .missing [list] _ unchanged clicked body).2⟩

end Command

end CipherGraph
