import CipherGraph.Proofs.Service.Drafts
import CipherGraph.Proofs.Service.Past
import CipherGraph.Proofs.Wire.Client

/-! # What responses tell

An answer is a status and a text. What a client learns from it is what it reads in the text: the names of the sessions,
what was created, how a program is drawn, what a session shows, or why a request is refused. -/

namespace CipherGraph
open Json

/-- A response has a status and is sent as JSON, and this is what a client finds in its body. -/
structure Response.Tells {α : Type} (response : Response) (status : Nat) (d : Json.Decoder α) (a : α) : Prop where
  code : response.status = status
  json : response.contentType = some "application/json"
  body : Client.Reads d response.body a

theorem Response.tells_json {α : Type} {d : Json.Decoder α} {v : Json} {a : α} (keeps : Decoder.Keeps d)
    (exact : Exact Reader.documentDepth v) (found : d v = .ok a) (status : Nat) : (json status v).Tells status d a :=
  ⟨rfl, rfl, Client.reads_compact keeps exact found⟩

/-! ### Decoders of answers -/

namespace Client
open Json.Decoder

/-- The names of the sessions. -/
def names : Json.Decoder (List String) :=
  member "sessions" (list string)

/-- Why a request is refused: a code, a message, and whether it was successful. -/
def refusal : Json.Decoder (String × String × Bool) := fun v => do
  let code ← member "error" (member "code" string) v
  let message ← member "error" (member "message" string) v
  return (code, message, ← member "success" bool v)

def report : Json.Decoder CreationReport := fun v => do
  return ⟨← member "name" string v, ← member "node_count" count v, ← member "edge_count" count v,
    ← member "warnings" (list warning) v⟩

theorem keeps_names : Keeps names :=
  keeps_string.list.member _

theorem keeps_refusal : Keeps refusal :=
  ((keeps_string.member _).member _).bind fun _ => ((keeps_string.member _).member _).bind fun _ =>
    (keeps_bool.member _).bind fun _ => keeps_of_ok _

theorem keeps_report : Keeps report :=
  (keeps_string.member _).bind fun _ => (keeps_count.member _).bind fun _ => (keeps_count.member _).bind fun _ =>
    (keeps_warning.list.member _).bind fun _ => keeps_of_ok _

end Client

/-! ### Answers that are read back -/

/-- The list of sessions tells their names. -/
theorem Response.tells_names (names : List String) :
    (json 200 (.object [("sessions", .array (names.map .string))])).Tells 200 Client.names names := by
  refine tells_json Client.keeps_names ?_ ?_ 200
  · refine .object fun m hm => ?_
    cases List.mem_singleton.mp hm
    refine .array fun v hv => ?_
    obtain ⟨name, -, rfl⟩ := List.mem_map.mp hv
    exact .string _ _
  · exact Decoder.member_of_value rfl (CipherGraph.Decoder.list_map _ fun name _ => rfl)

theorem Refusal.tells_response (r : Refusal) :
    r.response.Tells r.kind.status Client.refusal (r.kind.code, r.message, false) := by
  refine Response.tells_json Client.keeps_refusal ?_ ?_ _
  · refine .object fun m hm => ?_
    simp only [List.mem_cons, List.not_mem_nil, or_false] at hm
    rcases hm with rfl | rfl
    · refine .object fun m hm => ?_
      simp only [List.mem_cons, List.not_mem_nil, or_false] at hm
      rcases hm with rfl | rfl <;> exact .string _ _
    · exact .bool _ _
  · rfl

theorem Program.Few.tells_report {p : Program} (few : p.Few) (name : String) :
    (Response.json 200 (p.report name).toJson).Tells 200 Client.report (p.report name) := by
  have counted := counted_warnings few.edges
  refine Response.tells_json Client.keeps_report ?_ ?_ 200
  · refine .object fun m hm => ?_
    simp only [List.mem_cons, List.not_mem_nil, or_false] at hm
    rcases hm with rfl | rfl | rfl | rfl
    · exact .string _ _
    · exact exact_ofNat _ few.nodes
    · exact exact_ofNat _ few.edges
    · refine .array fun v hv => ?_
      obtain ⟨w, hw, rfl⟩ := List.mem_map.mp hv
      exact (counted w hw).exact _
  · refine Decoder.bind_member rfl rfl ?_
    refine Decoder.bind_member rfl (Client.count_ofNat few.nodes) ?_
    refine Decoder.bind_member rfl (Client.count_ofNat few.edges) ?_
    have warningsRead := CipherGraph.Decoder.list_map _ fun w hw => Client.warning_toJson (counted w hw)
    exact Decoder.bind_member rfl warningsRead rfl

theorem Rendering.Counted.tells {r : Rendering} (h : r.Counted) :
    (Response.json 200 r.toJson).Tells 200 Client.rendering r :=
  Response.tells_json Client.keeps_rendering (h.exact _) (Client.rendering_toJson h) 200

theorem Snapshot.Counted.tells {s : Snapshot} (h : s.Counted) :
    (Response.json 200 s.toJson).Tells 200 Client.snapshot s :=
  Response.tells_json Client.keeps_snapshot (h.exact _) (Client.snapshot_toJson h) 200

/-- A sound session that shows a small program tells what it shows. -/
theorem Session.Sound.tells_shown {s : Session} (h : s.Sound) (few : s.selection.program.Few) :
    s.shown.Tells 200 Client.snapshot s.selection.snapshot := by
  obtain ⟨plain, hr, rendered, -⟩ := h.selection.drawn
  refine Snapshot.Counted.tells fun r drawn => ?_
  cases rendered.symm.trans drawn
  exact (Program.counted_drawing hr few.edges).markWarnings

/-- The session of a draft tells what it shows, after whatever clicks and choices of nodes. -/
theorem Request.tells_afterAll {q : Request} {d : SessionDraft} {s : Session} (hd : q.draft = .ok d)
    (hs : d.toSession = .ok s) (gestures : List Gesture) :
    (s.afterAll gestures).shown.Tells 200 Client.snapshot (s.afterAll gestures).selection.snapshot := by
  have sound : (s.afterAll gestures).Sound :=
    Session.afterAll_keeps (P := Session.Sound) (fun _ query h => Query.sound_run h query)
      (SessionDraft.sound_toSession hs) gestures
  have few : (s.afterAll gestures).Few :=
    Session.afterAll_keeps (P := Session.Few) (fun _ query h => Session.few_run h query) (few_toSession hd hs) gestures
  exact sound.tells_shown few.shown

end CipherGraph
