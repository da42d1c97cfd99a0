import CipherGraph.Proofs.Service.Overrides
import CipherGraph.Proofs.Wire.Agreement

/-! # Why a creation is refused

A draft goes through checks in a fixed order: its name is looked at first, then all its programs are decoded, then their
edges are checked, and only then the name has to be free. Programs of lines are looked at in ascending order of lines. A
creation that is refused is refused for the first check that fails. -/

namespace CipherGraph

/-! ### Faults of lines -/

namespace Overrides
variable {α β : Type} {check : α → Except ProgramError β} {lines : Overrides α} {entry : Int64 × α} {e : ServiceError}

/-- What a check finds wrong with an entry, told with its line. -/
def fault? (check : α → Except ProgramError β) (entry : Int64 × α) : Option ServiceError :=
  match check entry.2 with
  | .ok _ => none
  | .error cause => some (.lineProgram entry.1 cause)

theorem fault?_eq_some_iff :
    fault? check entry = some e ↔ ∃ cause, check entry.2 = .error cause ∧ e = .lineProgram entry.1 cause := by
  unfold fault?
  cases check entry.2 <;> simp [eq_comm]

/-- Of the faults of lines, the first one is at the smallest line. -/
theorem Sorted.exists_first_fault (sorted : lines.Sorted) (h : lines.findSome? (fault? check) = some e) :
    ∃ entry ∈ lines, ∃ cause, check entry.2 = .error cause ∧ e = .lineProgram entry.1 cause ∧
      ∀ other ∈ lines, other.1 < entry.1 → ∀ cause, check other.2 ≠ .error cause := by
  obtain ⟨before, entry, after, rfl, fault, unfaulted⟩ := List.findSome?_eq_some_iff.mp h
  obtain ⟨cause, failed, rfl⟩ := fault?_eq_some_iff.mp fault
  refine ⟨entry, by simp, cause, failed, rfl, fun other ho lower cause failed => ?_⟩
  rcases List.mem_append.mp ho with earlier | later
  · cases (unfaulted other earlier).symm.trans (fault?_eq_some_iff.mpr ⟨cause, failed, rfl⟩)
  · obtain ⟨-, ordered, -⟩ := List.pairwise_append.mp sorted
    rcases List.mem_cons.mp later with rfl | later
    · exact Int64.lt_irrefl lower
    · exact Int64.lt_asymm lower ((List.pairwise_cons.mp ordered).1 other later)

end Overrides

section
open Overrides
variable {lines : Overrides Json} {programs : Overrides Program} {e : ServiceError}

theorem findSome?_of_decodeLines (h : decodeLines lines = .error e) : lines.findSome? (fault? Program.ofJson) = some e := by
  induction lines with
  | nil => cases h
  | cons entry rest ih =>
    obtain ⟨line, v⟩ := entry
    rw [decodeLines] at h
    rw [List.findSome?_cons, fault?]
    cases hp : Program.ofJson v with
    | error cause =>
      rw [hp] at h
      exact congrArg some (Except.error.inj h)
    | ok p =>
      rw [hp] at h
      cases hrest : decodeLines rest with
      | error e' =>
        rw [hrest] at h
        cases h
        exact ih hrest
      | ok decoded =>
        rw [hrest] at h
        cases h

theorem findSome?_of_checkLines (h : Session.checkLines programs = .error e) :
    programs.findSome? (fault? Program.check) = some e := by
  induction programs with
  | nil => cases h
  | cons entry rest ih =>
    obtain ⟨line, p⟩ := entry
    rw [Session.checkLines] at h
    rw [List.findSome?_cons, fault?]
    cases hp : p.check with
    | error cause =>
      rw [hp] at h
      exact congrArg some (Except.error.inj h)
    | ok _ =>
      rw [hp] at h
      exact ih h

/-- The check of what a value is decoded as. -/
def Program.checkJson (v : Json) : Except ProgramError Unit :=
  ofJson v >>= check

theorem Program.checkJson_of_decoded {v : Json} {p : Program} (hp : ofJson v = .ok p) : checkJson v = p.check := by
  rw [checkJson, hp]
  rfl

/-- Faults of decoded programs are told with the lines of their values. -/
theorem findSome?_decodeLines (h : decodeLines lines = .ok programs) :
    programs.findSome? (fault? Program.check) = lines.findSome? (fault? Program.checkJson) := by
  induction lines generalizing programs with
  | nil =>
    cases h
    rfl
  | cons entry rest ih =>
    obtain ⟨p, decoded, hp, hrest, rfl⟩ := decodeLines_cons_eq_ok_iff.mp h
    rw [List.findSome?_cons, List.findSome?_cons, ih hrest, fault?, fault?, Program.checkJson_of_decoded hp]

namespace Program
variable {p : Program} {e : ProgramError}

theorem error_of_check (h : p.check = .error e) : ∃ edge, e = .dangling edge := by
  unfold check at h
  split at h
  · cases h
    exact ⟨_, rfl⟩
  · cases h

end Program

end

/-! ### Checks -/

inductive DraftCheck where
  | named
  | decodes
  | lineDecodes (line : Int64)
  | inRange
  | lineInRange (line : Int64)
  | nameFree
  deriving DecidableEq, Repr

namespace DraftCheck

def stage : DraftCheck → Nat
  | named => 0
  | decodes => 1
  | lineDecodes _ => 2
  | inRange => 3
  | lineInRange _ => 4
  | nameFree => 5

/-- The line that a check is about, if it is about one. -/
def line : DraftCheck → Int64
  | lineDecodes line => line
  | lineInRange line => line
  | _ => 0

/-- The order in which checks are made: by stage, and in a stage by line. -/
def Before (a b : DraftCheck) : Prop :=
  a.stage < b.stage ∨ a.stage = b.stage ∧ a.line < b.line

/-- A check of a draft fails with an error, whatever other checks find. -/
inductive Fails (r : Registry) (d : SessionDraft) : DraftCheck → ServiceError → Prop where
  | blank (h : Text.trim d.name = "") : Fails r d named .blankName
  | undecodable {e : ProgramError} (h : Program.ofJson d.program = .error e) : Fails r d decodes (.program e)
  | lineUndecodable {line : Int64} {v : Json} {e : ProgramError} (mem : (line, v) ∈ d.lines)
    (h : Program.ofJson v = .error e) : Fails r d (lineDecodes line) (.lineProgram line e)
  | dangling {p : Program} {e : ProgramError} (decoded : Program.ofJson d.program = .ok p) (h : p.check = .error e) :
    Fails r d inRange (.program e)
  | lineDangling {line : Int64} {v : Json} {p : Program} {e : ProgramError} (mem : (line, v) ∈ d.lines)
    (decoded : Program.ofJson v = .ok p) (h : p.check = .error e) :
    Fails r d (lineInRange line) (.lineProgram line e)
  | taken {s : Session} (h : r.find? d.name = some s) : Fails r d nameFree (.takenName d.name)

/-- A check fails, and none that is made before it. -/
structure FailsFirst (r : Registry) (d : SessionDraft) (check : DraftCheck) (e : ServiceError) : Prop where
  fails : Fails r d check e
  passed : ∀ earlier e', earlier.Before check → ¬ Fails r d earlier e'

/-- No check of the first stages fails. -/
def Clear (r : Registry) (d : SessionDraft) (stages : Nat) : Prop :=
  ∀ check e, Fails r d check e → stages ≤ check.stage

section
variable {r : Registry} {d : SessionDraft} {check : DraftCheck} {e : ServiceError} {stages : Nat}

theorem clear_zero : Clear r d 0 :=
  fun _ _ _ => Nat.zero_le _

theorem Clear.succ (h : Clear r d stages) (passed : ∀ check e, check.stage = stages → ¬ Fails r d check e) :
    Clear r d (stages + 1) :=
  fun check e fails => Nat.lt_of_le_of_ne (h check e fails) fun here => passed check e here.symm fails

theorem Clear.named (h : Clear r d 0) (named : Text.trim d.name ≠ "") : Clear r d 1 := by
  refine h.succ fun check e here fails => ?_
  cases fails with
  | blank unnamed => exact named unnamed
  | _ => simp [stage] at here

theorem Clear.decoded (h : Clear r d 1) {p : Program} (hp : Program.ofJson d.program = .ok p) : Clear r d 2 := by
  refine h.succ fun check e here fails => ?_
  cases fails with
  | undecodable failed => cases hp.symm.trans failed
  | _ => simp [stage] at here

theorem Clear.linesDecoded (h : Clear r d 2) {programs : Overrides Program}
    (hl : decodeLines d.lines = .ok programs) : Clear r d 3 := by
  refine h.succ fun check e here fails => ?_
  cases fails with
  | lineUndecodable mem failed =>
    obtain ⟨q, hq, -⟩ := mem_of_decodeLines hl mem
    cases hq.symm.trans failed
  | _ => simp [stage] at here

theorem Clear.inRange (h : Clear r d 3) {p : Program} (hp : Program.ofJson d.program = .ok p)
    (checked : p.check = .ok ()) : Clear r d 4 := by
  refine h.succ fun check e here fails => ?_
  cases fails with
  | dangling decoded failed =>
    cases hp.symm.trans decoded
    cases checked.symm.trans failed
  | _ => simp [stage] at here

theorem Clear.linesInRange (h : Clear r d 4) {programs : Overrides Program} (hl : decodeLines d.lines = .ok programs)
    (inRange : ∀ entry ∈ programs, entry.2.InRange) : Clear r d 5 := by
  refine h.succ fun check e here fails => ?_
  cases fails with
  | lineDangling mem decoded failed =>
    obtain ⟨q, hq, mem⟩ := mem_of_decodeLines hl mem
    cases hq.symm.trans decoded
    cases (Program.check_eq_ok_iff.mpr (inRange _ mem)).symm.trans failed
  | _ => simp [stage] at here

/-- A check fails first if the stages before its own are clear and, in its own, all checks of smaller lines pass. -/
theorem Fails.first_of_least (fails : Fails r d check e) (clear : Clear r d check.stage)
    (least : ∀ other e', Fails r d other e' → other.stage = check.stage → ¬ other.line < check.line) :
    FailsFirst r d check e := by
  refine ⟨fails, fun earlier e' before fails => ?_⟩
  rcases before with lower | ⟨here, smaller⟩
  · exact absurd (clear earlier e' fails) (Nat.not_le_of_lt lower)
  · exact least earlier e' fails here smaller

theorem Fails.first_of_alone (fails : Fails r d check e) (clear : Clear r d check.stage)
    (alone : ∀ other, other.stage = check.stage → other = check) : FailsFirst r d check e := by
  refine fails.first_of_least clear fun other e' _ here smaller => ?_
  rw [alone other here] at smaller
  exact Int64.lt_irrefl smaller

/-- What is wrong with a draft itself is told as a bad request, and only a name that is taken as a conflict. -/
theorem Fails.status (fails : Fails r d check e) : e.response.status = if check = nameFree then 409 else 400 := by
  cases fails with
  | undecodable h =>
    obtain ⟨reason, rfl⟩ := Program.error_of_ofJson h
    rfl
  | lineUndecodable mem h => rfl
  | dangling decoded h =>
    obtain ⟨d, rfl⟩ := Program.error_of_check h
    rfl
  | _ => rfl

/-- Where the program of a draft is decoded and that of some line is not, the smallest such line fails first. -/
theorem FailsFirst.of_undecodable_line (h : FailsFirst r d check e) (named : Text.trim d.name ≠ "")
    (decoded : ∃ p, Program.ofJson d.program = .ok p) {line : Int64} {v : Json} {e' : ProgramError}
    (mem : (line, v) ∈ d.lines) (undecodable : Program.ofJson v = .error e') :
    ∃ first v e', first ≤ line ∧ (first, v) ∈ d.lines ∧ Program.ofJson v = .error e' ∧ e = .lineProgram first e' := by
  obtain ⟨fails, passed⟩ := h
  have here : Fails r d (lineDecodes line) (.lineProgram line e') := .lineUndecodable mem undecodable
  cases fails with
  | blank unnamed => exact absurd unnamed named
  | undecodable failed =>
    obtain ⟨p, hp⟩ := decoded
    cases hp.symm.trans failed
  | lineUndecodable mem failed =>
    refine ⟨_, _, _, Int64.not_lt.mp fun larger => ?_, mem, failed, rfl⟩
    exact passed (lineDecodes line) _ (Or.inr ⟨rfl, larger⟩) here
  | dangling _ _ => exact absurd here (passed _ _ (Or.inl (Nat.lt_succ_self 2)))
  | lineDangling _ _ _ => exact absurd here (passed _ _ (Or.inl (Nat.lt_add_of_pos_right (Nat.zero_lt_succ 1))))
  | taken _ => exact absurd here (passed _ _ (Or.inl (Nat.lt_add_of_pos_right (Nat.zero_lt_succ 2))))

end

end DraftCheck

/-! ### Refused drafts -/

namespace SessionDraft
open DraftCheck
variable {d : SessionDraft} {e : ServiceError} {p : Program} {programs : Overrides Program} {s : Session} {r : Registry}

/-- Where all programs are decoded, a session that is not created is refused for the first edge that dangles. -/
theorem exists_failsFirst_of_create (sorted : d.lines.Sorted) (decoded : Clear r d 3)
    (hp : Program.ofJson d.program = .ok p) (hl : decodeLines d.lines = .ok programs)
    (h : Session.create d.name d.source p programs = .error e) : ∃ check, FailsFirst r d check e := by
  unfold Session.create at h
  cases hc : p.check with
  | error cause =>
    rw [hc] at h
    cases h
    exact ⟨_, Fails.first_of_alone (.dangling hp hc) decoded (by rintro ⟨⟩ <;> simp [stage])⟩
  | ok _ =>
    have inRange := decoded.inRange hp hc
    cases hlc : Session.checkLines programs with
    | ok _ =>
      simp only [hc, hlc] at h
      cases h
    | error e' =>
      simp only [hc, hlc] at h
      cases h
      have fault := (findSome?_decodeLines hl).symm.trans (findSome?_of_checkLines hlc)
      obtain ⟨⟨line, v⟩, mem, cause, failed, rfl, least⟩ := sorted.exists_first_fault fault
      obtain ⟨q, hq, -⟩ := mem_of_decodeLines hl mem
      rw [Program.checkJson_of_decoded hq] at failed
      refine ⟨_, Fails.first_of_least (.lineDangling mem hq failed) inRange fun other e' fails here => ?_⟩
      cases fails with
      | lineDangling mem hq failed =>
        exact fun smaller => least _ mem smaller _ ((Program.checkJson_of_decoded hq).trans failed)
      | _ => simp [stage] at here

/-- A draft from which no session comes is refused for the first check that it fails. -/
theorem exists_failsFirst (sorted : d.lines.Sorted) (h : d.toSession = .error e) (r : Registry) :
    ∃ check, FailsFirst r d check e := by
  have start : Clear r d 0 := clear_zero
  unfold toSession at h
  by_cases blank : Text.isBlankText d.name = true
  · rw [if_pos blank] at h
    cases h
    have unnamed := (Text.isBlankText_iff d.name).mp blank
    exact ⟨_, Fails.first_of_alone (.blank unnamed) start (by rintro ⟨⟩ <;> simp [stage])⟩
  rw [if_neg blank] at h
  have named := start.named fun unnamed => blank ((Text.isBlankText_iff d.name).mpr unnamed)
  cases hp : Program.ofJson d.program with
  | error cause =>
    rw [hp] at h
    cases h
    exact ⟨_, Fails.first_of_alone (.undecodable hp) named (by rintro ⟨⟩ <;> simp [stage])⟩
  | ok p =>
    have decoded := named.decoded hp
    cases hl : decodeLines d.lines with
    | error e' =>
      rw [hp, hl] at h
      cases h
      obtain ⟨⟨line, v⟩, mem, cause, failed, rfl, least⟩ := sorted.exists_first_fault (findSome?_of_decodeLines hl)
      refine ⟨_, Fails.first_of_least (.lineUndecodable mem failed) decoded fun other e' fails here => ?_⟩
      cases fails with
      | lineUndecodable mem failed => exact fun smaller => least _ mem smaller _ failed
      | _ => simp [stage] at here
    | ok programs =>
      rw [hp, hl] at h
      exact exists_failsFirst_of_create sorted (decoded.linesDecoded hl) hp hl h

/-- Whatever is wrong with a draft itself is told as a bad request. -/
theorem status_of_error (sorted : d.lines.Sorted) (h : d.toSession = .error e) : e.response.status = 400 := by
  -- In an empty registry every name is free.
  obtain ⟨check, first⟩ := exists_failsFirst sorted h {}
  rw [first.fails.status, if_neg]
  rintro rfl
  rcases first.fails with ⟨⟩ | ⟨⟩ | ⟨⟩ | ⟨⟩ | ⟨⟩ | ⟨taken⟩
  cases taken

/-- A draft from which a session comes can only fail to have a free name. -/
theorem failsFirst_nameFree {t : Session} (hs : d.toSession = .ok s) (taken : r.find? d.name = some t) :
    FailsFirst r d nameFree (.takenName d.name) := by
  obtain ⟨blank, p, programs, hp, hl, hcreate⟩ := toSession_eq_ok hs
  obtain ⟨inRange, linesInRange, -⟩ := Session.create_eq_ok hcreate
  have named : Clear r d 1 := clear_zero.named fun unnamed => by
    cases blank.symm.trans ((Text.isBlankText_iff d.name).mpr unnamed)
  have inRange := ((named.decoded hp).linesDecoded hl).inRange hp (Program.check_eq_ok_iff.mpr inRange)
  exact Fails.first_of_alone (.taken taken) (inRange.linesInRange hl linesInRange) (by rintro ⟨⟩ <;> simp [stage])

/-- What comes of a draft: its session, a conflict over its name, or a bad request for the first check that fails. -/
theorem run_creation_cases (sorted : d.lines.Sorted) (r : Registry) :
    (d.Acceptable ∧ r.find? d.name = none ∧ (d.creation.run r).1.status = 200) ∨
      (d.Acceptable ∧ (∃ t, r.find? d.name = some t) ∧ (d.creation.run r).1.status = 409 ∧
        ∃ e, FailsFirst r d nameFree e ∧ (d.creation.run r).1 = e.response) ∨
      ¬ d.Acceptable ∧ (d.creation.run r).1.status = 400 ∧
        ∃ check e, FailsFirst r d check e ∧ (d.creation.run r).1 = e.response := by
  cases hs : d.toSession with
  | ok s =>
    have acceptable := acceptable_iff.mpr ⟨s, hs⟩
    cases found : r.find? d.name with
    | none => exact Or.inl ⟨acceptable, rfl, by rw [(run_creation_of_free hs found).1]; rfl⟩
    | some t =>
      have answer := run_creation_of_taken hs found
      exact Or.inr (Or.inl ⟨acceptable, ⟨t, rfl⟩, by rw [answer]; rfl, _, failsFirst_nameFree hs found, answer⟩)
  | error e =>
    have answer : (d.creation.run r).1 = e.response := by
      rw [creation_of_error hs]
      rfl
    obtain ⟨check, first⟩ := exists_failsFirst sorted hs r
    refine Or.inr (Or.inr ⟨fun acceptable => ?_, ?_, check, e, first, answer⟩)
    · obtain ⟨s, hs'⟩ := acceptable_iff.mp acceptable
      cases hs.symm.trans hs'
    · rw [answer]
      exact status_of_error sorted hs

end SessionDraft

/-! ### Creations -/

/-- What a client reads of a session that was created from a draft: its name, how many nodes and edges its program has,
and the warnings of the program. -/
theorem Request.tells_creation {q : Request} {r : Registry} {d : SessionDraft} (draft : q.draft = .ok d)
    (acceptable : d.Acceptable) (free : r.find? d.name = none) :
    ∃ p, Program.ofJson d.program = .ok p ∧ (d.creation.run r).1.Tells 200 Client.report (p.report d.name) := by
  obtain ⟨s, hs⟩ := SessionDraft.acceptable_iff.mp acceptable
  obtain ⟨-, decoded, -⟩ := SessionDraft.parts_toSession hs
  rw [(SessionDraft.run_creation_of_free hs free).1, Session.created_eq, SessionDraft.name_toSession hs]
  exact ⟨s.program, decoded, (few_of_program draft decoded).tells_report d.name⟩

/-- A creation is granted exactly if nothing is wrong with its draft and the name is free, and a client then reads what
was created. Otherwise it is refused for the first check that fails, and a client reads this reason. So a program of a
line that cannot be decoded is reported, at the smallest such line, before any edge that dangles, and a conflict is
reported only for a draft that nothing else is wrong with. -/
theorem Registry.creation_reports_first (r : Registry) {d : SessionDraft} (sorted : d.lines.Sorted) :
    let answer := (d.creation.run r).1
    (∀ q : Request, q.Asks .post .sessions → q.draft = .ok d → (r.handle q).1 = answer ∧
      (answer.status = 200 → ∃ p, Program.ofJson d.program = .ok p ∧
        answer.Tells 200 Client.report (p.report d.name))) ∧
    (answer.status = 200 ↔ d.Acceptable ∧ r.find? d.name = none) ∧
    (answer.status ≠ 200 → ∃ check e, DraftCheck.FailsFirst r d check e ∧ answer = e.response ∧
      answer.Tells e.refusal.kind.status Client.refusal (e.refusal.kind.code, e.refusal.message, false)) ∧
    (answer.status = 409 ↔ d.Acceptable ∧ ∃ t, r.find? d.name = some t) ∧
    ∀ line v e, Text.trim d.name ≠ "" → (∃ p, Program.ofJson d.program = .ok p) → (line, v) ∈ d.lines →
      Program.ofJson v = .error e → ∃ first v' e', first ≤ line ∧ (first, v') ∈ d.lines ∧
        Program.ofJson v' = .error e' ∧ answer = (ServiceError.lineProgram first e').response := by
  intro answer
  have decodes (acceptable : d.Acceptable) {line : Int64} {v : Json} {e : ProgramError} (mem : (line, v) ∈ d.lines) :
      Program.ofJson v ≠ .error e := by
    obtain ⟨q, hq, -⟩ := acceptable.lines _ mem
    rw [hq]
    exact nofun
  have tells (e : ServiceError) (told : answer = e.response) :
      answer.Tells e.refusal.kind.status Client.refusal (e.refusal.kind.code, e.refusal.message, false) :=
    told ▸ e.refusal.tells_response
  have handled (q : Request) (asks : q.Asks .post .sessions) (draft : q.draft = .ok d) : (r.handle q).1 = answer :=
    congrArg Prod.fst (asks.handle_of_draft draft r)
  rcases SessionDraft.run_creation_cases sorted r with ⟨acceptable, free, granted⟩ |
    ⟨acceptable, ⟨t, taken⟩, conflict, e, first, told⟩ | ⟨flawed, bad, check, e, first, told⟩
  · refine ⟨fun q asks draft => ⟨handled q asks draft, fun _ => Request.tells_creation draft acceptable free⟩,
      iff_of_true granted ⟨acceptable, free⟩, fun refused => absurd granted refused, ?_,
      fun line v e _ _ mem undecodable => absurd undecodable (decodes acceptable mem)⟩
    refine iff_of_false (fun conflict => ?_) fun ⟨_, t, taken⟩ => ?_
    · cases granted.symm.trans conflict
    · cases free.symm.trans taken
  · have refused : answer.status ≠ 200 := fun granted => by cases granted.symm.trans conflict
    refine ⟨fun q asks draft => ⟨handled q asks draft, fun granted => absurd granted refused⟩,
      iff_of_false refused fun ⟨_, free⟩ => ?_, fun _ => ⟨_, e, first, told, tells e told⟩,
      iff_of_true conflict ⟨acceptable, t, taken⟩,
      fun line v e _ _ mem undecodable => absurd undecodable (decodes acceptable mem)⟩
    cases free.symm.trans taken
  · have refused : answer.status ≠ 200 := fun granted => by cases granted.symm.trans bad
    refine ⟨fun q asks draft => ⟨handled q asks draft, fun granted => absurd granted refused⟩,
      iff_of_false refused fun h => flawed h.1, fun _ => ⟨check, e, first, told, tells e told⟩,
      iff_of_false (fun conflict => ?_) fun h => flawed h.1, fun line v e' named decoded mem undecodable => ?_⟩
    · cases conflict.symm.trans bad
    · obtain ⟨smallest, v', cause, below, mem', failed, rfl⟩ := first.of_undecodable_line named decoded mem undecodable
      exact ⟨smallest, v', cause, below, mem', failed, told⟩

/-- The name is taken, an edge of the program dangles, and of the programs for two lines one is fine and one is null. -/
def hopelessCreation : Request where
  method := .post
  target := "/sessions"
  contentType := some "application/json"
  body := "\x7b\"name\":\"demo\",\"graph\":[[],[[0,0,\"Left\"]]],\"lines\":\x7b\"9\":null,\"-3\":[[],[]]\x7d\x7d"

theorem Registry.undecodable_line_reported_first :
    let answer := ((start true).handle hopelessCreation).1
    ∃ e, answer = (ServiceError.lineProgram 9 e).response ∧
      answer.Tells 400 Client.refusal ("BAD_REQUEST", "graph for line 9: " ++ e.message, false) := by
  intro answer
  have asks : hopelessCreation.Asks .post .sessions := ⟨rfl, rfl⟩
  have read : (hopelessCreation.draft.toOption.map fun d => (d.name, (Program.ofJson d.program).toOption,
      d.lines.map fun entry => (entry.1, (Program.ofJson entry.2).toOption))) =
        some ("demo", some ⟨[], [⟨0, 0, .left⟩]⟩, [(-3, some {}), (9, none)]) := by
    decide +kernel
  obtain ⟨d, draft, parts⟩ := Option.map_eq_some_iff.mp read
  simp only [Prod.mk.injEq] at parts
  obtain ⟨name, decoded, lines⟩ := parts
  have draft := toOption_eq_some_iff.mp draft
  have named : Text.trim d.name ≠ "" := name ▸ by decide
  obtain ⟨⟨line, v⟩, mem, same⟩ : ∃ entry ∈ d.lines, (entry.1, (Program.ofJson entry.2).toOption) = (9, none) :=
    List.mem_map.mp (lines ▸ List.mem_cons_of_mem _ List.mem_cons_self)
  obtain ⟨rfl, undecodable⟩ := Prod.mk.inj same
  obtain ⟨handled, -, -, -, early⟩ := creation_reports_first (start true) (Request.sorted_lines draft)
  cases hv : Program.ofJson v with
  | ok p =>
    rw [hv] at undecodable
    cases undecodable
  | error e =>
    obtain ⟨first, v', e', -, mem', failed, told⟩ := early 9 v e named ⟨_, toOption_eq_some_iff.mp decoded⟩ mem hv
    -- Only one line has no program.
    have given := List.mem_map_of_mem (f := fun entry => (entry.1, (Program.ofJson entry.2).toOption)) mem'
    rw [lines, failed] at given
    obtain rfl : first = 9 := by simpa [Except.toOption] using given
    have answered : answer = (ServiceError.lineProgram 9 e').response := (handled _ asks draft).1.trans told
    exact ⟨e', answered, answered ▸ (ServiceError.lineProgram 9 e').refusal.tells_response⟩

end CipherGraph
