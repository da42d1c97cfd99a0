import CipherGraph.Proofs.Json.Length
import CipherGraph.Proofs.Json.Yields
import CipherGraph.Proofs.Service.Sound
import CipherGraph.Proofs.Session.Overrides
import CipherGraph.Proofs.Wire.Agreement

/-! # Drafts of sessions

The draft of a session is read from a body whose length is limited. Its lines are in order, and its programs are small
enough for their nodes and edges to be counted in a word. So are all programs that are shown later: no request leads to
a larger one. -/

namespace CipherGraph

/-! ### Drafts that are read -/

/-- The lines of a draft are in order, and no list in its programs has more than `n` items. -/
structure SessionDraft.Tidy (n : Nat) (d : SessionDraft) : Prop where
  sorted : d.lines.Sorted
  program : d.program.Short n
  lines : ∀ entry ∈ d.lines, entry.2.Short n

/-- What is known of a draft so far is tidy. -/
structure SessionDraftParts.Tidy (n : Nat) (parts : SessionDraftParts) : Prop where
  program : ∀ v ∈ parts.program, v.Short n
  lines : ∀ lines ∈ parts.lines, lines.Sorted ∧ ∀ entry ∈ lines, entry.2.Short n

namespace Json.Reader
variable {n : Nat}

theorem stays_lineKey : Stays lineKey := by
  refine stays_skip.bind fun _ => stays_peek.bind fun ch => ?_
  cases ch with
  | none => exact (stays_of_fails fun _ => rfl).within _
  | some ch =>
    dsimp only
    split
    · refine (advances_number.stays.within _).bind fun x => ?_
      cases x with
      | real value => exact (stays_of_fails fun _ => rfl).within _
      | integer value =>
        have inRange : Stays (inRange .signed64 (.integer value)) := by
          unfold inRange
          dsimp only
          split
          · exact stays_pure _
          · exact stays_of_fails fun _ => rfl
        refine Stays.within (inRange.bind fun line => stays_peek.bind fun ch => ?_) _
        split
        · exact stays_skip.bind fun _ => stays_pure _
        · exact stays_of_fails fun _ => rfl
    · exact (stays_of_fails fun _ => rfl).within _

theorem yields_lineMember (depth : Nat) (read : List (Int64 × Json)) (h : ∀ entry ∈ read, entry.2.Short n) :
    Yields n (lineMember depth read) fun entries => ∀ entry ∈ entries, entry.2.Short n := by
  refine stays_lineKey.bind_yields fun line => stays_colon.bind_yields fun _ => ?_
  exact ((yields_value depth).within _).bind fun v short => yields_pure (List.forall_mem_cons.mpr ⟨short, h⟩)

theorem yields_lineValues (depth : Nat) :
    Yields n (lineValues depth) fun lines => lines.Sorted ∧ ∀ entry ∈ lines, entry.2.Short n := by
  refine stays_start.bind_yields fun ch => ?_
  split
  · have entries : Yields n (members (lineMember depth) []) fun entries => ∀ entry ∈ entries, entry.2.Short n :=
      yields_members (yields_lineMember depth) (List.forall_mem_nil _)
    refine (entries.enclosed stays_closeObject).bind fun entries short => yields_pure ⟨Overrides.sorted_ofList _, ?_⟩
    exact fun entry he => short entry (List.mem_reverse.mp (Overrides.mem_of_mem_ofList he))
  · exact yields_of_fails fun _ => result?_mismatch ch _

/-- The lines of a draft are in order, also where a line is repeated in the text, and no list in its programs is longer
than the text. -/
theorem yields_sessionDraft : Yields n (record sessionDraftRecord) (SessionDraft.Tidy n) := by
  refine yields_record (I := SessionDraftParts.Tidy n) ?_ ⟨nofun, nofun⟩ ?_
  · simp only [sessionDraftRecord, List.forall_mem_cons, List.not_mem_nil, false_imp_iff, implies_true, and_true]
    refine ⟨fun s h => ?_, fun s h => ?_, fun s h => ?_, fun s h => ?_⟩
    · exact stays_text.bind_yields fun _ => yields_pure ⟨h.program, h.lines⟩
    · exact stays_text.bind_yields fun _ => yields_pure ⟨h.program, h.lines⟩
    · refine (yields_value _).bind fun v short => yields_pure ⟨fun v' same => ?_, h.lines⟩
      cases same
      exact short
    · refine (yields_lineValues _).bind fun lines tidy => yields_pure ⟨h.program, fun lines' same => ?_⟩
      cases same
      exact tidy
  · intro parts h
    have lines : (parts.lines.getD []).Sorted ∧ ∀ entry ∈ parts.lines.getD [], entry.2.Short n := by
      cases known : parts.lines with
      | none => exact ⟨List.Pairwise.nil, List.forall_mem_nil _⟩
      | some lines => exact h.lines lines known
    refine ⟨lines.1, ?_, lines.2⟩
    show (parts.program.getD .null).Short n
    cases known : parts.program with
    | none => exact .null
    | some v => exact h.program v known

end Json.Reader

theorem Request.tidy_draft {q : Request} {d : SessionDraft} (hd : q.draft = .ok d) : d.Tidy q.body.length :=
  Json.Reader.yields_sessionDraft.of_document (read_eq_ok_iff.mp hd).2.2

theorem Request.sorted_lines {q : Request} {d : SessionDraft} (hd : q.draft = .ok d) : d.lines.Sorted :=
  (tidy_draft hd).sorted

/-! ### Programs of drafts -/

section
variable {lines : Overrides Json} {programs : Overrides Program}

theorem lines_decodeLines (h : decodeLines lines = .ok programs) : programs.map (·.1) = lines.map (·.1) := by
  induction lines generalizing programs with
  | nil =>
    cases h
    rfl
  | cons entry rest ih =>
    obtain ⟨p, decoded, -, hrest, rfl⟩ := decodeLines_cons_eq_ok_iff.mp h
    rw [List.map_cons, List.map_cons, ih hrest]

theorem sorted_decodeLines (h : decodeLines lines = .ok programs) (sorted : lines.Sorted) : programs.Sorted := by
  have places := List.pairwise_map.mpr sorted
  rw [← lines_decodeLines h] at places
  exact List.pairwise_map.mp places

/-- The program of a line is decoded from the value of the line. -/
theorem lookup_decodeLines (h : decodeLines lines = .ok programs) (line : Int64) :
    (lines.lookup line).map Program.ofJson = (programs.lookup line).map .ok := by
  induction lines generalizing programs with
  | nil =>
    cases h
    rfl
  | cons entry rest ih =>
    obtain ⟨p, decoded, hp, hrest, rfl⟩ := decodeLines_cons_eq_ok_iff.mp h
    rw [Overrides.lookup_cons, Overrides.lookup_cons]
    split
    · exact congrArg some hp
    · exact ih hrest

end

/-- A new session shows, for a line, the program that is decoded from the value that the draft has for the line, or from
that of its program if it has none. -/
theorem SessionDraft.selection_toSession {d : SessionDraft} {s : Session} (sorted : d.lines.Sorted)
    (h : d.toSession = .ok s) :
    ∃ table : ProgramTable, s.selection = .ofLineMap table ∧
      ∀ line, Program.ofJson ((d.lines.lookup line).getD d.program) = .ok (table.resolve line) := by
  obtain ⟨-, p, programs, hp, hlines, hs⟩ := toSession_eq_ok h
  obtain ⟨-, -, rfl⟩ := Session.create_eq_ok hs
  refine ⟨_, rfl, fun line => ?_⟩
  have decoded := lookup_decodeLines hlines line
  rw [ProgramTable.resolve_withLines (sorted_decodeLines hlines sorted)]
  cases own : d.lines.lookup line with
  | none =>
    rw [own] at decoded
    rw [Option.map_eq_none_iff.mp decoded.symm]
    exact hp
  | some v =>
    rw [own] at decoded
    obtain ⟨q, hq, same⟩ := Option.map_eq_some_iff.mp decoded.symm
    rw [hq]
    exact same.symm

/-! ### Small programs -/

/-- The nodes and the edges can be counted in a word. -/
structure Program.Few (p : Program) : Prop where
  nodes : p.nodeCount < UInt64.size
  edges : p.edgeCount < UInt64.size

theorem Program.few_of_short {v : Json} {p : Program} {n : Nat} (h : ofJson v = .ok p) (short : v.Short n)
    (small : n < UInt64.size) : p.Few := by
  obtain ⟨ns, es, parts, nodes, edges⟩ := Decoder.program_eq_ok_iff.mp (ofJson_eq_ok_iff.mp h)
  have nodesShort : ns.Short n := parts.short short List.mem_cons_self
  have edgesShort : es.Short n := parts.short short (List.mem_cons_of_mem _ List.mem_cons_self)
  exact ⟨Nat.lt_of_le_of_lt (Json.Decoder.length_le_of_list nodes nodesShort) small,
    Nat.lt_of_le_of_lt (Json.Decoder.length_le_of_list edges edgesShort) small⟩

namespace Request
variable {q : Request} {d : SessionDraft} {p : Program}

theorem length_of_draft (hd : q.draft = .ok d) : q.body.length < UInt64.size := by
  have fits : q.body.utf8ByteSize ≤ bodyLimit := (read_eq_ok_iff.mp hd).2.1
  have length := Text.length_le_utf8Len q.body.toList
  rw [String.utf8Len_toList, String.length_toList] at length
  exact Nat.lt_of_le_of_lt (Nat.le_trans length fits) (by decide)

theorem few_of_program (hd : q.draft = .ok d) (h : Program.ofJson d.program = .ok p) : p.Few :=
  Program.few_of_short h (tidy_draft hd).program (length_of_draft hd)

/-- What a draft has for a line, or for all lines without a program of their own, is small. -/
theorem few_of_line (hd : q.draft = .ok d) (line : Int64)
    (h : Program.ofJson ((d.lines.lookup line).getD d.program) = .ok p) : p.Few := by
  cases own : d.lines.lookup line with
  | none =>
    rw [own] at h
    exact few_of_program hd h
  | some v =>
    rw [own] at h
    obtain ⟨before, after, entries, -⟩ := List.lookup_eq_some_iff.mp own
    exact Program.few_of_short h ((tidy_draft hd).lines (line, v) (by simp [entries])) (length_of_draft hd)

end Request

/-- The program that a session shows is small, and so is that of every line. -/
structure Session.Few (s : Session) : Prop where
  shown : s.selection.program.Few
  lines : ∀ line, (s.selection.lineMap.resolve line).Few

theorem Session.few_of_fresh {s : Session} {table : ProgramTable} (fresh : s.selection = .ofLineMap table)
    (lines : ∀ line, (table.resolve line).Few) : s.Few := by
  rw [Selection.ofLineMap_eq] at fresh
  constructor <;> rw [fresh]
  · exact lines _
  · exact lines

theorem Request.few_toSession {q : Request} {d : SessionDraft} {s : Session} (hd : q.draft = .ok d)
    (hs : d.toSession = .ok s) : s.Few := by
  obtain ⟨table, fresh, resolved⟩ := SessionDraft.selection_toSession (sorted_lines hd) hs
  exact Session.few_of_fresh fresh fun line => few_of_line hd line (resolved line)

/-- The programs of the demonstration are small. -/
theorem ProgramTable.few_resolve_demo (line : Int64) : (demo.resolve line).Few := by
  have all : ∀ entry ∈ demo.entries, entry.2.nodeCount < UInt64.size ∧ entry.2.edgeCount < UInt64.size := by decide
  unfold resolve entry?
  cases found : demo.entries.lookup line with
  | none => exact ⟨by decide, by decide⟩
  | some p =>
    obtain ⟨before, after, entries, -⟩ := List.lookup_eq_some_iff.mp found
    obtain ⟨nodes, edges⟩ := all (line, p) (by simp [entries])
    exact ⟨nodes, edges⟩

namespace Session

theorem few_run {s : Session} (h : s.Few) (q : Query) : (q.run s).2.Few := by
  cases q with
  | rendering =>
    simp only [Query.run]
    split <;> exact h
  | click line =>
    have table : (s.selection.click line).1.lineMap = s.selection.lineMap := Selection.lineMap_after (.click line)
    have shown : (s.selection.click line).1.program = s.selection.lineMap.resolve line := by
      rw [Selection.click_fst, Selection.display_eq]
      rfl
    exact ⟨shown ▸ h.lines line, table ▸ h.lines⟩
  | select ids => exact ⟨h.shown, h.lines⟩
  | _ => exact h

theorem lasting_few : Lasting fun _ s => s.Few where
  demo := few_of_fresh rfl ProgramTable.few_resolve_demo
  drafted := Request.few_toSession
  queried query h := few_run h query

end Session

end CipherGraph
