import Saltator.Client.RemoteJoin
import Saltator.Room.Snapshot

/-!
# What a join leaves behind

A join keeps the events of the resident's answer that verify. An event that is kept may cite one that is
not, so the imported state can rest on events that nobody holds. `stays_resolvable_iff` says when it does
not, and what later resolutions then find.
-/

namespace Saltator.Client

open Std
open Saltator.Outcome
open Room
open Room.Machine
open Room.Pipeline (processInner)
open StateRes (Key StateIds)
open Federation (JoinResponse)

namespace CsState

variable (cs : CsState) (s : Store) (resp : JoinResponse) (kept : List JsonObject)

/-- What an event cites once the answer is there: the join as it came, stored events that are not
rejected, and of the others what was kept. -/
def held (id : EventId) : Option (List EventId) :=
  if cs.idOf resp.roomVersion resp.event = some id then some (authEventIds resp.event)
  else match s.event[id]? with
    | some e => if e.rejected.isNone then some (authEventIds e.raw) else none
    | none => (kept.find? fun o => cs.idOf resp.roomVersion o = some id).map authEventIds

def given (server : Server) (key : Key) : Option EventId :=
  server.offered resp.roomVersion resp.event kept key

/-- Every event that the given state leads to is held or was kept. -/
def Closed (server : Server) : Prop :=
  ∀ key id, given resp kept server key = some id → Graph.Complete (cs.held s resp kept) id

/-- Sound already, or new with the answer. -/
def Comes (id : EventId) : Prop :=
  s.Sound id ∨ cs.idOf resp.roomVersion resp.event = some id ∨
    (s.event[id]? = none ∧ ∃ o ∈ kept, cs.idOf resp.roomVersion o = some id)

/-- The join reads back, and neither it nor anything new of what was kept cites an event that does not
come. -/
structure Grounded (server : Server) : Prop where
  readable : Readable cs.ruma resp.event
  join : ∀ a ∈ authEventIds resp.event, cs.Comes s resp kept a
  mapped : ∀ key id, given resp kept server key = some id → cs.Comes s resp kept id
  cited : ∀ o ∈ kept, ∀ id, cs.idOf resp.roomVersion o = some id → s.event[id]? = none →
    ∀ a ∈ authEventIds o, cs.Comes s resp kept a

end CsState

section Import

variable {cs : CsState} {resp : JoinResponse} {kept : List JsonObject} {cmd : ImportRoom} {s t : Store}

theorem cites_eq_held (imports : Imports cs resp.roomVersion resp.event kept cmd)
    (imported : Imported s cmd t) : t.cites = cs.held s resp kept := by
  funext id
  have own : cs.idOf resp.roomVersion resp.event = some id ↔ id = cmd.joinEventId := by
    rw [imports.own, Option.some.injEq, eq_comm]
  have record := imported.event id
  by_cases join : id = cmd.joinEventId
  · rw [if_pos join] at record
    simp [Store.cites, CsState.held, record, own.2 join, joinRecord, imports.raw]
  · rw [if_neg join] at record
    unfold Store.cites CsState.held
    rw [if_neg (own.not.2 join), record]
    rcases (s.putSupport_event_cases cmd.events id).1 with ⟨absent, ev, mem, rfl, support⟩ | same
    · rw [support, absent, imports.first ev mem]
      rfl
    · rw [same]
      cases old : s.event[id]? with
      | some e => rfl
      | none =>
        -- What was kept would have been stored.
        cases found : kept.find? fun o => cs.idOf resp.roomVersion o = some id with
        | none => rfl
        | some o =>
          have named : cs.idOf resp.roomVersion o = some id := by simpa using List.find?_some found
          have stored := (s.putSupport_event_cases cmd.events id).2
            (imports.listed o (List.mem_of_find?_eq_some found) id named)
          rw [same, old] at stored
          cases stored

theorem Grounded.brings {server : Server} (imports : Imports cs resp.roomVersion resp.event kept cmd)
    (state : ∀ entry ∈ cmd.state, CsState.given resp kept server entry.1 = some entry.2)
    (readable : ∀ o ∈ kept, Readable cs.ruma o) (grounded : cs.Grounded s resp kept server) :
    (bringsWhole cs.ruma).importRoom s cmd := by
  have comes : ∀ id, cs.Comes s resp kept id →
      s.Sound id ∨ id = cmd.joinEventId ∨ Brought s cmd.events id := by
    rintro id (sound | own | ⟨absent, o, mem, named⟩)
    · exact .inl sound
    · exact .inr (.inl (some_unique own imports.own))
    · exact .inr (.inr ⟨absent, imports.listed o mem id named⟩)
  refine ⟨⟨?_, fun a cited => ?_⟩, fun entry mem => comes _ (grounded.mapped _ _ (state entry mem)),
    fun ev mem absent => ?_⟩
  · rw [imports.raw]
    exact grounded.readable
  · rw [imports.raw] at cited
    exact comes a (grounded.join a cited)
  · have found := imports.first ev mem
    have kept' := List.mem_of_find?_eq_some found
    have named : cs.idOf resp.roomVersion ev.raw = some ev.eventId := by simpa using List.find?_some found
    exact ⟨readable _ kept', fun a cited => comes a (grounded.cited _ kept' _ named absent a cited)⟩

end Import

theorem applyImport_accepted {s : Store} {cmd : ImportRoom}
    (fresh : ¬ ((∃ m, s.room[cmd.roomId]? = some m) ∧ s.onTimeline cmd.joinEventId)) :
    Effect s (.importRoom cmd) (applyImport s cmd).1 ∧
      ∃ seq, (applyImport s cmd).2 = .accepted cmd.joinEventId seq := by
  rw [← Option.isSome_iff_exists] at fresh
  unfold applyImport
  rw [if_neg (by rwa [Bool.and_eq_true])]
  exact ⟨.importRoom fresh, _, rfl⟩

theorem verified_readable {n : Node Unit} {version : RoomVersion} {o : JsonObject}
    (h : n.verifyPduAt version o) : Readable n.server.ruma o := by
  unfold Node.verifyPduAt at h
  rw [Bool.and_eq_true] at h
  cases valid : validatePdu n.server.ruma o version with
  | error e => simp [valid, Except.isOk, Except.toBool] at h
  | ok pdu => simp [Readable, (validatePdu_eq_ok valid).1, Except.isOk, Except.toBool]

section Join

variable {cs : CsState} {fed : FederationState} {w after : Shards} {room named : RoomId} {user : UserId}
  {via : List String} {resp : JoinResponse}

/-- **A joined room stays resolvable** exactly where every event that the given state leads to is held or
was kept. Where the answer is also grounded, and so are the imports before and after, no later resolution
misses an event. -/
theorem stays_resolvable_iff (h : cs.joinRemote (some fed) w room user via = .ok after)
    (answered : cs.answerOf fed w room user via = .ok resp) (fresh : ¬ cs.Known w resp)
    (about : strProp resp.event "room_id" = some named) :
    ((cs.forRoom after named).Resolvable named ↔
      cs.Closed (cs.forRoom w named) resp (cs.kept fed (cs.trusted fed w resp) room resp)
        (cs.node fed (cs.trusted fed w resp) room).server) ∧
    (cs.Grounded (cs.forRoom w named) resp (cs.kept fed (cs.trusted fed w resp) room resp)
        (cs.node fed (cs.trusted fed w resp) room).server →
      ∀ pool, Config.Runs cs.ruma (bringsWhole cs.ruma).Holds Config.init ⟨cs.forRoom w named, pool⟩ →
      ∀ c, Config.Runs cs.ruma (bringsWhole cs.ruma).Holds ⟨cs.forRoom after named, pool⟩ c →
      ∀ keys fuel raw version room isCreate relay rejectMissingAuth missing,
        processInner cs.ruma keys c.store fuel raw version room isCreate relay rejectMissingAuth ≠
          .error (.stateRes (.missingEvent missing))) := by
  obtain ⟨cmd, computed, -, rooms⟩ := joinRemote_computed h answered
  have imports : Imports cs _ _ _ _ := importRoom_imports rfl computed
  obtain ⟨-, map, entries, values⟩ := importRoom_state computed
  rw [← List.filter_append] at imports values
  obtain rfl : cmd.roomId = named := some_unique imports.room about
  have now : cs.forRoom after cmd.roomId = (applyImport (cs.forRoom w cmd.roomId) cmd).1 := after_shard rooms
  rcases applyImport_cases (cs.forRoom w cmd.roomId) cmd with ⟨⟨m, known⟩, placed, -⟩ | ⟨new, imported⟩
  · exact absurd ⟨cmd.roomId, cmd.joinEventId, m, imports.room, imports.own, known, placed⟩ fresh
  obtain ⟨step, seq, accepted⟩ := applyImport_accepted new
  rw [← now] at step
  refine ⟨?_, fun grounded pool reached c run keys fuel raw version room' isCreate relay reject missing => ?_⟩
  · have presented := import_presents computed (Prod.ext rfl accepted)
    rw [← List.filter_append] at presented
    rw [now, Store.Resolvable, cites_eq_held imports imported]
    constructor
    · rintro ⟨state, presented', complete⟩
      obtain rfl := presented'.unique presented
      exact complete
    · exact fun closed => ⟨_, presented, closed⟩
  · have brings : (bringsWhole cs.ruma).importRoom (cs.forRoom w cmd.roomId) cmd := by
      refine Grounded.brings imports (fun entry mem => ?_) (fun o mem => ?_) grounded
      · rw [entries] at mem
        exact (values entry.1).symm.trans (OrdMap.mem_toList.1 mem)
      · exact verified_readable (kept_verifies mem)
    exact processInner_ne_missing (run_whole_import reached step trivial brings run)

end Join

/-! ## Two answers -/

theorem stays_resolvable_sample : ∃ after,
    sampleCsState.joinRemote (some (sampleResident .null)) sampleShards "!r:x" "@a:x" ["y"] =
      .ok after ∧ (sampleCsState.forRoom after "!r:x").Resolvable "!r:x" := by
  obtain ⟨resp, after, answered, joined, h⟩ := exists_joined .null (fun resp _ =>
    let u := sampleCsState.trusted (sampleResident .null) sampleShards resp
    let kept := sampleCsState.kept (sampleResident .null) u "!r:x" resp
    decide (strProp resp.event "room_id" = some "!r:x") &&
      decide (sampleCsState.held Store.empty resp kept "$h" = some ["$c"]) &&
      decide (sampleCsState.held Store.empty resp kept "$c" = some []) &&
      decide (sampleCsState.idOf resp.roomVersion resp.event = some "$h") &&
      decide (kept.map (sampleCsState.idOf resp.roomVersion) = [some "$c"])) (by decide +kernel)
  simp only [Bool.and_eq_true, decide_eq_true_eq] at h
  obtain ⟨⟨⟨⟨about, join⟩, create⟩, own⟩, kept⟩ := h
  refine ⟨after, joined, (stays_resolvable_iff joined answered ?_ about).1.2 fun key id found => ?_⟩
  · rintro ⟨named, id, m, -, -, known, -⟩
    simp [CsState.forRoom, sampleShards, Store.empty] at known
  · -- The state maps the join and the create event, and the join cites the create event.
    have founded : Graph.Complete _ "$c" := (Graph.complete_iff create).2 (by simp)
    have entered : Graph.Complete _ "$h" := (Graph.complete_iff join).2 (by simpa using founded)
    unfold CsState.given Server.offered at found
    split at found
    · obtain rfl : "$h" = id := some_unique own found
      exact entered
    · obtain ⟨o, last, named⟩ := Option.bind_eq_some_iff.1 found
      have mem := (List.mem_filter.1 (List.mem_of_getLast? last)).1
      have listed := List.mem_map_of_mem (f := sampleCsState.idOf resp.roomVersion) mem
      rw [kept, List.mem_singleton] at listed
      obtain rfl : id = "$c" := some_unique named listed
      exact founded

def sampleForeign : JsonObject :=
  Ruma.samplePdu "p" "m.room.member" (some "@z:z") "@z:z" [("membership", .string "join")] ["$c"] ["$c"] 2

def sampleCiting : JsonObject :=
  Ruma.samplePdu "t" "m.room.topic" (some "") "@a:x" [] ["$c", "$p"] ["$p"] 3

def sampleHoley : FederationState :=
  { sampleResident .null with
    answer
      | .get _ _ => .ok sampleTemplate
      | .put _ _ _ => .ok (.object [("auth_chain", .array [.object sampleForeign]), ("event", .null),
          ("state", .array [.object Ruma.sampleCreate, .object sampleCiting])]) }

def sampleNaming (hash : String) : JsonObject :=
  Ruma.samplePdu hash "m.room.name" (some "") "@a:x" [("name", .string hash)] ["$c", "$h"] ["$h"] 3

/-- The foreign event is dropped and the topic stays, so the room is not resolvable. The first two events
that fork it are accepted and refused: the resolution misses what was dropped. -/
theorem dropped_event_missed : ∃ resp after s',
    sampleCsState.answerOf sampleHoley sampleShards "!r:x" "@a:x" ["y"] = .ok resp ∧
    sampleCsState.joinRemote (some sampleHoley) sampleShards "!r:x" "@a:x" ["y"] = .ok after ∧
    ¬ (sampleCsState.forRoom after "!r:x").Resolvable "!r:x" ∧
    (Server.sample ["x"]).serve (fun _ _ => True) 9 (sampleCsState.forRoom after "!r:x")
      (.ingest (sampleNaming "n") false) = some s' ∧ s'.onTimeline "$n" ∧
    processInner Ruma.sample (Server.sample ["x"]).keys s' 9 (sampleNaming "o") .v11 "!r:x" false false
      false = .error (.stateRes (.missingEvent "$p")) := by
  have h : (sampleCsState.answerOf sampleHoley sampleShards "!r:x" "@a:x" ["y"]).toOption.any
      (fun _ : JoinResponse =>
        (sampleCsState.joinRemote (some sampleHoley) sampleShards "!r:x" "@a:x" ["y"]).toOption.any
          fun after : Shards =>
            (((sampleCsState.forRoom after "!r:x").room["!r:x"]?).any fun m : RoomMeta =>
              ((sampleCsState.forRoom after "!r:x").resolveGroup 2 "!r:x" m.currentGroup).toOption.any
                fun map : StateIds => decide (map[("m.room.topic", "")]? = some "$t")) &&
            decide ((sampleCsState.forRoom after "!r:x").cites "$t" = some ["$c", "$p"]) &&
            decide ((sampleCsState.forRoom after "!r:x").cites "$p" = none) &&
            ((Server.sample ["x"]).serve (fun _ _ => True) 9 (sampleCsState.forRoom after "!r:x")
              (.ingest (sampleNaming "n") false)).any fun s' : Store => s'.onTimeline "$n" &&
                match processInner Ruma.sample (Server.sample ["x"]).keys s' 9 (sampleNaming "o") .v11
                  "!r:x" false false false with
                | .error e => decide (e = .stateRes (.missingEvent "$p"))
                | .ok _ => false) = true := by
    decide +kernel
  obtain ⟨resp, answered, h⟩ := (Option.any_eq_true _ _).1 h
  obtain ⟨after, joined, h⟩ := (Option.any_eq_true _ _).1 h
  simp only [Bool.and_eq_true, Option.any_eq_true, decide_eq_true_eq] at h
  obtain ⟨⟨⟨⟨m, known, map, read, topic⟩, cites⟩, dropped⟩, s', served, placed, failed⟩ := h
  refine ⟨resp, after, s', toOption_eq_some.1 answered, toOption_eq_some.1 joined, ?_, served, placed, ?_⟩
  · rintro ⟨state, ⟨m', known', reads⟩, complete⟩
    obtain rfl := some_unique known known'
    obtain ⟨map', read', values⟩ := reads 0
    obtain rfl := ok_unique (toOption_eq_some.1 read) read'
    have whole := complete _ "$t" ((values _).symm.trans topic)
    have below := (whole.edge ⟨_, cites, by simp⟩ : Graph.Complete _ "$p").known
    rw [dropped] at below
    cases below
  · split at failed
    · rename_i e stopped
      rw [stopped, of_decide_eq_true failed]
    · cases failed

end Saltator.Client
