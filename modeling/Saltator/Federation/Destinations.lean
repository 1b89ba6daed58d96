import Saltator.Room.Serving

/-!
# Where an event is sent to

The delivery worker looks the destinations of an event up when it comes by the event on the timeline,
which may be long after the event was appended. It goes by the room's current state at that time: the
servers of the joined users, and for an event that takes a user out of the room, or invites one, that
user's server.
-/

namespace Saltator.Federation

open Room (Store StoredEvent membershipOf)
open Room.Serving

section Model

variable (ruma : Ruma) (serverName : String)

def serverOf (user : String) : Option String :=
  if ruma.isUserId user then some (Ruma.userServerName user) else none

def authorServer (stored : StoredEvent) : Option String :=
  (strProp stored.raw "sender").bind (serverOf ruma)

def affectedServer (stored : StoredEvent) : Option String :=
  if strProp stored.raw "type" = some "m.room.member" ∧
      membershipOf stored ∈ [some "leave", some "ban", some "invite"] then
    (strProp stored.raw "state_key").bind (serverOf ruma)
  else none

/-- The destinations of an event, with the room's servers where they could be read. Events are sent
that this server authored, or put into the room for their author. -/
def destinationsOf (stored : StoredEvent) (servers : Option (List String)) : List String :=
  if stored.imported then []
  else if authorServer ruma stored ≠ some serverName ∧ stored.relay = false then []
  else
    let destinations := (servers.getD []).filter fun d => authorServer ruma stored ≠ some d
    match affectedServer ruma stored with
    | none => destinations
    | some target =>
      if target ≠ serverName ∧ authorServer ruma stored ≠ some target ∧ target ∉ destinations then
        destinations ++ [target]
      else destinations

/-- A read that does not go through. -/
inductive ReadFault where
  | event
  | servers
  deriving DecidableEq

def eventDestinations (s : Store) (fuel : Nat) (room : RoomId) (id : EventId)
    (fault : Option ReadFault) : Option (JsonObject × List String) :=
  if fault = some .event then none
  else
    (s.event[id]?).map fun stored =>
      let servers :=
        if fault = some .servers then none
        else (remoteServersInRoom ruma s fuel room serverName).toOption
      (stored.raw, destinationsOf ruma serverName stored servers)

/-- The server is to get the event, going by the room's current state. -/
structure Destined (s : Store) (room : RoomId) (stored : StoredEvent) (d : String) : Prop where
  new : stored.imported = false
  originated : authorServer ruma stored = some serverName ∨ stored.relay = true
  elsewhere : d ≠ serverName
  other : authorServer ruma stored ≠ some d
  concerned : InRoom ruma s room d ∨ affectedServer ruma stored = some d

/-- Two records of an event that do not differ in what its destinations go by. -/
structure Alike (stored stored' : StoredEvent) : Prop where
  imported : stored.imported = stored'.imported
  relay : stored.relay = stored'.relay
  author : authorServer ruma stored = authorServer ruma stored'
  affected : affectedServer ruma stored = affectedServer ruma stored'

end Model

section Spec

variable {ruma : Ruma} {serverName : String} {s s' : Store} {fuel : Nat} {room : RoomId} {id : EventId}
  {stored : StoredEvent} {servers dests : List String} {raw : JsonObject} {d : String}

theorem mem_destinationsOf
    (listed : remoteServersInRoom ruma s fuel room serverName = .ok servers) :
    d ∈ destinationsOf ruma serverName stored (some servers) ↔
      Destined ruma serverName s room stored d := by
  have joined : d ∈ servers ↔ d ≠ serverName ∧ InRoom ruma s room d :=
    mem_remoteServersInRoom listed
  unfold destinationsOf
  split
  · rename_i imported
    refine ⟨fun mem => by simp at mem, fun h => ?_⟩
    rw [h.new] at imported
    cases imported
  rename_i new
  split
  · rename_i foreign
    refine ⟨fun mem => by simp at mem, fun h => ?_⟩
    rcases h.originated with authored | relayed
    · exact absurd authored foreign.1
    · rw [relayed] at foreign
      cases foreign.2
  rename_i originated
  have ours : authorServer ruma stored = some serverName ∨ stored.relay = true := by
    grind
  dsimp only
  constructor
  · intro mem
    split at mem
    · grind [Destined]
    · grind [Destined]
  · intro h
    obtain ⟨-, -, elsewhere, other, concerned⟩ := h
    split <;> grind

theorem Destined.alike {stored' : StoredEvent} (h : Destined ruma serverName s room stored d)
    (alike : Alike ruma stored stored')
    (concerned : InRoom ruma s' room d ∨ affectedServer ruma stored' = some d) :
    Destined ruma serverName s' room stored' d :=
  ⟨alike.imported ▸ h.new, alike.author ▸ alike.relay ▸ h.originated, h.elsewhere,
    alike.author ▸ h.other, concerned⟩

theorem eventDestinations_eq_some
    (found : eventDestinations ruma serverName s fuel room id none = some (raw, dests)) :
    ∃ stored, s.event[id]? = some stored ∧ raw = stored.raw ∧ dests = destinationsOf ruma serverName
      stored (remoteServersInRoom ruma s fuel room serverName).toOption := by
  obtain ⟨stored, held, same⟩ := Option.map_eq_some_iff.1 found
  obtain ⟨rfl, rfl⟩ := Prod.mk.inj same
  exact ⟨stored, held, rfl, rfl⟩

theorem mem_eventDestinations (listed : remoteServersInRoom ruma s fuel room serverName = .ok servers)
    (found : eventDestinations ruma serverName s fuel room id none = some (raw, dests)) :
    ∃ stored, s.event[id]? = some stored ∧ raw = stored.raw ∧
      ∀ d, d ∈ dests ↔ Destined ruma serverName s room stored d := by
  obtain ⟨stored, held, same, rfl⟩ := eventDestinations_eq_some found
  refine ⟨stored, held, same, fun d => ?_⟩
  rw [listed]
  exact mem_destinationsOf listed

theorem nodup_destinationsOf {servers : Option (List String)} (nodup : (servers.getD []).Nodup) :
    (destinationsOf ruma serverName stored servers).Nodup := by
  unfold destinationsOf
  split
  · exact List.nodup_nil
  split
  · exact List.nodup_nil
  dsimp only
  have kept := nodup.filter fun d => decide (authorServer ruma stored ≠ some d)
  split
  · exact kept
  split
  · rename_i new
    exact kept.append (List.nodup_singleton _) (by simpa using new.2.2)
  · exact kept

theorem nodup_eventDestinations {fault : Option ReadFault}
    (found : eventDestinations ruma serverName s fuel room id fault = some (raw, dests)) :
    dests.Nodup := by
  unfold eventDestinations at found
  split at found
  · cases found
  · obtain ⟨stored, held, same⟩ := Option.map_eq_some_iff.1 found
    obtain ⟨-, rfl⟩ := Prod.mk.inj same
    refine nodup_destinationsOf ?_
    split
    · exact List.nodup_nil
    · cases listed : remoteServersInRoom ruma s fuel room serverName with
      | error e => exact List.nodup_nil
      | ok servers => exact nodup_remoteServersInRoom listed

end Spec

/-- The destinations of an event go by its record and by whose users are joined when the event is
examined. Of two examinations, one has a server and the other has not exactly if the server is a
destination at the one, has no joined user at the other, and is concerned in no other way. -/
theorem destinations_at_examination (ruma : Ruma) (serverName : String) (s s' : Store)
    (fuel fuel' : Nat) (room : RoomId) (id : EventId) (raw raw' : JsonObject)
    (servers servers' dests dests' : List String)
    (listed : remoteServersInRoom ruma s fuel room serverName = .ok servers)
    (listed' : remoteServersInRoom ruma s' fuel' room serverName = .ok servers')
    (found : eventDestinations ruma serverName s fuel room id none = some (raw, dests))
    (found' : eventDestinations ruma serverName s' fuel' room id none = some (raw', dests')) :
    (∃ stored, s.event[id]? = some stored ∧ raw = stored.raw ∧
      ∀ d, d ∈ dests ↔ Destined ruma serverName s room stored d) ∧
    ∀ stored stored', s.event[id]? = some stored → s'.event[id]? = some stored' →
      Alike ruma stored stored' → ∀ d, (d ∈ dests ∧ d ∉ dests' ↔ Destined ruma serverName s room stored d ∧
          ¬ InRoom ruma s' room d ∧ affectedServer ruma stored ≠ some d) := by
  have now := mem_eventDestinations listed found
  refine ⟨now, fun stored stored' held held' alike d => ?_⟩
  obtain ⟨stored₁, held₁, -, mem⟩ := now
  obtain ⟨stored₂, held₂, -, mem'⟩ := mem_eventDestinations listed' found'
  obtain rfl := some_unique held held₁
  obtain rfl := some_unique held' held₂
  rw [mem, mem']
  constructor
  · rintro ⟨here, gone⟩
    refine ⟨here, fun joined => gone ?_, fun affected => gone ?_⟩
    · exact here.alike alike (.inl joined)
    · exact here.alike alike (.inr (alike.affected ▸ affected))
  · rintro ⟨here, left, unaffected⟩
    refine ⟨here, fun still => ?_⟩
    rcases still.concerned with joined | affected
    · exact left joined
    · exact unaffected (alike.affected.trans affected)

/-! ## A sample room -/

section Samples

open Room (Call Server Runs Serial serveAll_runs)

def sampleRules : JsonObject :=
  Ruma.samplePdu "k" "m.room.join_rules" (some "") "@a:x" [("join_rule", .string "public")]
    ["$c", "$j"] ["$j"] 3

def sampleMessage (hash : String) (prev : EventId) (depth : Nat) : JsonObject :=
  Ruma.samplePdu hash "m.room.message" none "@a:x" [("body", .string "hello")] ["$c", "$j"] [prev] depth

def sampleVisitor (hash membership : String) (auth : List EventId) (prev : EventId) (depth : Nat) :
    JsonObject :=
  Ruma.signedBy "y" (Ruma.samplePdu hash "m.room.member" (some "@b:y") "@b:y"
    [("membership", .string membership)] auth [prev] depth)

def sampleOpening : List Call :=
  [.ingest Ruma.sampleCreate false, .ingest Ruma.sampleJoin false, .ingest sampleRules false,
    .ingest (sampleMessage "m" "$k" 4) false]

def sampleVisit : List Call :=
  [.ingest (sampleVisitor "b" "join" ["$c", "$k"] "$m" 5) false, .ingest (sampleMessage "n" "$b" 6) false]

def sampleDeparture : List Call :=
  [.ingest (sampleVisitor "l" "leave" ["$c", "$b"] "$n" 7) false]

def sampleServe (s : Store) (calls : List Call) : Option Store :=
  (Server.sample ["x", "y"]).serveAll (fun _ _ => True) 9 s calls

theorem sampleServe_runs {s t : Store} {calls : List Call} (served : sampleServe s calls = some t) :
    Runs (Serial Ruma.sample) s t :=
  (serveAll_runs served).mono fun _ _ h => h.1

def sampleSentTo (s : Store) (id : EventId) : Option (List String) :=
  (eventDestinations Ruma.sample "x" s 9 "!r:x" id none).map Prod.snd

/-- A message goes to a server whose first user joined after it, and does not go to one that has left
by the time it is examined. -/
theorem destinations_change : ∃ opening visit departure,
    Runs (Serial Ruma.sample) Store.empty opening ∧ Runs (Serial Ruma.sample) opening visit ∧
    Runs (Serial Ruma.sample) visit departure ∧
    sampleSentTo opening "$m" = some [] ∧ sampleSentTo visit "$m" = some ["y"] ∧
    sampleSentTo visit "$n" = some ["y"] ∧ sampleSentTo departure "$n" = some [] := by
  have found : (sampleServe Store.empty sampleOpening).any (fun opening =>
      sampleSentTo opening "$m" == some [] &&
      (sampleServe opening sampleVisit).any fun visit =>
        sampleSentTo visit "$m" == some ["y"] && sampleSentTo visit "$n" == some ["y"] &&
        (sampleServe visit sampleDeparture).any fun departure =>
          sampleSentTo departure "$n" == some []) = true := by
    decide +kernel
  simp only [Option.any_eq_true, Bool.and_eq_true, beq_iff_eq] at found
  obtain ⟨opening, opened, early, visit, visited, ⟨late, spoken⟩, departure, departed, missed⟩ := found
  exact ⟨opening, visit, departure, sampleServe_runs opened, sampleServe_runs visited,
    sampleServe_runs departed, early, late, spoken, missed⟩

def sampleAlike (stored stored' : StoredEvent) : Bool :=
  stored.imported == stored'.imported && stored.relay == stored'.relay &&
    authorServer Ruma.sample stored == authorServer Ruma.sample stored' &&
    affectedServer Ruma.sample stored == affectedServer Ruma.sample stored'

/-- Examined while `@b:y` is in the room, and again after it left. -/
theorem destinations_at_examination_visit : ∃ visit departure stored,
    visit.event["$n"]? = some stored ∧ Destined Ruma.sample "x" visit "!r:x" stored "y" ∧
    ¬ InRoom Ruma.sample departure "!r:x" "y" := by
  have found : (sampleServe Store.empty (sampleOpening ++ sampleVisit)).any (fun visit =>
      (remoteServersInRoom Ruma.sample visit 9 "!r:x" "x").toOption.any fun _ =>
      (eventDestinations Ruma.sample "x" visit 9 "!r:x" "$n" none).any fun sent =>
      (sampleServe visit sampleDeparture).any fun departure =>
      (remoteServersInRoom Ruma.sample departure 9 "!r:x" "x").toOption.any fun _ =>
      (eventDestinations Ruma.sample "x" departure 9 "!r:x" "$n" none).any fun sent' =>
      (visit.event["$n"]?).any fun stored => (departure.event["$n"]?).any fun stored' =>
        sampleAlike stored stored' && decide ("y" ∈ sent.2) && decide ("y" ∉ sent'.2)) = true := by
    decide +kernel
  simp only [Option.any_eq_true, Bool.and_eq_true, beq_iff_eq, decide_eq_true_iff, sampleAlike,
    Outcome.toOption_eq_some] at found
  obtain ⟨visit, -, servers, listed, ⟨raw, dests⟩, sent, departure, -, servers', listed',
    ⟨raw', dests'⟩, sent', stored, held, stored', held', ⟨⟨⟨⟨imported, relay⟩, author⟩, affected⟩,
    here⟩, gone⟩ := found
  have policy := destinations_at_examination Ruma.sample "x" visit departure 9 9 "!r:x" "$n" raw raw'
    servers servers' dests dests' listed listed' sent sent'
  obtain ⟨destined, left, -⟩ := (policy.2 stored stored' held held'
    ⟨imported, relay, author, affected⟩ "y").1 ⟨here, gone⟩
  exact ⟨visit, departure, stored, held, destined, left⟩

end Samples

end Saltator.Federation
