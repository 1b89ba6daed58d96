import Saltator.Lib.Replicas
import Saltator.Room.Coverage

/-!
# The room server on several nodes

Every node that hosts a shard runs the pipeline itself: under a lock of its own for the room, from
the store it has applied so far. The command it proposes names the state groups and the extremities
that were right for that store, and it is applied to whatever the log has come to. `Unraced` says
when the two agree enough. The imports of a room and of a segment take no lock; they choose their
group and their extremity only when they are applied.
-/

namespace Saltator.Room

open Std
open Saltator.Outcome Saltator.Loop Saltator.Replicas
open Machine (Effect plain Appended acceptedRecord applyRejected applyRejected_event
  applyRejected_group applyRejected_frame applyAccepted_spec)
open Pipeline

/-- What a call proposes: the command and, for an event, what the pipeline computed with it. -/
structure Work where
  cmd : RoomCommand
  decision : Option Decision

/-- The store of a shard, with the work applied so far and the responses, the newest first. -/
structure Ledger where
  store : Store
  log : List (Work × RoomResponse)

def Ledger.empty : Ledger := ⟨Store.empty, []⟩

def Computes (ruma : Ruma) (room : RoomId) (s : Store) (cmd : RoomCommand) (d : Decision) : Prop :=
  ∃ server raw version isCreate relay rejectMissingAuth fuel,
    server.Lawful ∧ server.ruma = ruma ∧ Routed server s raw version room isCreate ∧
    processInner server.ruma server.keys s fuel raw version room isCreate relay rejectMissingAuth =
      .ok (.inr d) ∧ plain cmd = .append d.cmd

/-- The imports that take no lock. -/
inductive Imports (ruma : Ruma) (s : Store) : RoomCommand → Prop
  | room {server : Server} {version : RoomVersion} {join : JsonObject}
      {state authChain : List JsonObject} {cmd : ImportRoom} (hserver : server.ruma = ruma)
      (h : server.importRoom version join state authChain = .ok cmd) :
      Imports ruma s (.importRoom cmd)
  | segment {server : Server} {fuel : Nat} {room : RoomId} {state authChain chain : List JsonObject}
      {cmd : ImportSegment} (hserver : server.ruma = ruma)
      (h : server.importSegment s fuel room state authChain chain = .ok cmd) :
      Imports ruma s (.importSegment cmd)

/-- Runs of the pipeline, each under the lock of its room, and work that `starts` without a lock.
Commands are applied where they meet `P` with the store they were computed from. -/
def shard (ruma : Ruma) (starts : Store → RoomCommand → Prop)
    (P : Store → Store → RoomCommand → Prop) : Protocol RoomId Ledger Work where
  reads room l w := ∃ d, w.decision = some d ∧ Computes ruma room l.store w.cmd d
  starts l w := w.decision = none ∧ starts l.store w.cmd
  applies base w l m := P base.store l.store w.cmd ∧ ∃ engine response,
    Machine.apply engine l.store w.cmd = .ok (m.store, response) ∧ m.log = (w, response) :: l.log

/-- Nothing that a new event was computed from has moved on: the room has no extremity that the
reading did not have, if the event is accepted, and no state group that the reading did not have,
if it is accepted or brings groups of its own. -/
def Unraced (base s : Store) (cmd : RoomCommand) : Prop :=
  ∀ a, plain cmd = .append a → s.event[a.eventId]? = none →
    (a.rejected = none → ∀ tip ∈ s.extremities a.roomId, tip ∈ base.extremities a.roomId) ∧
      (a.rejected = none ∨ a.newGroups ≠ [] → ∀ (id : Nat) (g : StateGroup),
        s.group[(a.roomId, id)]? = some g → (base.group[(a.roomId, id)]?).isSome)

theorem Unraced.refl (s : Store) (cmd : RoomCommand) : Unraced s s cmd :=
  fun _ _ _ => ⟨fun _ _ htip => htip, fun _ _ _ hg => by simp [hg]⟩

/-! ## What the pipeline established -/

section Computes

variable {ruma : Ruma} {room : RoomId} {base s t : Store} {cmd : RoomCommand} {d : Decision}

theorem Computes.roomId (h : Computes ruma room s cmd d) : d.cmd.roomId = room := by
  obtain ⟨_, _, _, _, _, _, _, _, _, _, hp, _⟩ := h
  obtain ⟨_, _, _, _, _, _, _, hjudged⟩ := processInner_cases hp
  cases hjudged <;> rfl

theorem Computes.plain_eq (h : Computes ruma room s cmd d) : plain cmd = .append d.cmd := by
  obtain ⟨_, _, _, _, _, _, _, _, _, _, _, hplain⟩ := h
  exact hplain

theorem Computes.freshIn (h : Computes ruma room s cmd d) :
    Fresh s d.cmd.roomId d.cmd.newGroups d.cmd.nextGroup ∧
      (s.room[d.cmd.roomId]? = none → d.cmd.rejected.isSome → d.cmd.newGroups = []) := by
  obtain ⟨_, _, _, _, _, _, _, _, _, _, hp, hplain⟩ := h
  exact processInner_freshIn hp hplain ⟨rfl, fun _ => rfl⟩ d.cmd hplain

theorem Computes.listed (h : Computes ruma room s cmd d) :
    (∀ prev ∈ prevEventIds d.cmd.raw, (s.event[prev]?).isSome) ∧ ListedFrom s d.cmd := by
  obtain ⟨_, _, _, _, _, _, _, _, _, _, hp, _⟩ := h
  exact (processInner_append hp).2

theorem Routed.create_keyed {server : Server} {raw raw' : JsonObject} {version : RoomVersion}
    {keys : PublicKeyMap} {pdu : Pdu} {id : EventId} (routed : Routed server s raw version room true)
    (lawful : server.Lawful) (hvet : vet server.ruma keys version raw = .ok (raw', pdu)) :
    (Event.stateKey (⟨id, pdu⟩ : IdentifiedPdu)).isSome := by
  obtain ⟨-, hkey, -⟩ := routed.create lawful
  obtain ⟨views, hkept⟩ := vet_views hvet
  have hkey' := (strProp_congr ((hkept lawful.ruma).1 "state_key" (by decide))).trans hkey
  change (pdu.stateKey).isSome
  rw [views.stateKey, hkey']
  rfl

theorem Computes.materializes (h : Computes ruma room base cmd d) (le : base.GroupsLe t)
    (accepted : d.cmd.rejected = none) (stored : Stored t d.cmd.roomId d.cmd.newGroups) :
    Materializes t d.cmd.roomId d.cmd.stateGroupAfter d.after := by
  have hroom := h.roomId
  obtain ⟨server, raw, version, isCreate, relay, reject, fuel, lawful, rfl, routed, hp, -⟩ := h
  obtain ⟨raw', pdu, id, hvet, _, _, _, hjudged⟩ := processInner_cases hp
  rw [hroom] at stored ⊢
  refine hjudged.materializes (fun _ => le _) (fun hcreate => ?_) accepted stored
  subst hcreate
  exact routed.create_keyed lawful hvet

end Computes

/-! ## The step -/

/-- What later stores keep of an earlier one. -/
structure Store.Precedes (s t : Store) : Prop where
  group : s.GroupsLe t
  room : ∀ room : RoomId, (s.room[room]?).isSome → (t.room[room]?).isSome
  event : ∀ id : EventId, (s.event[id]?).isSome → (t.event[id]?).isSome

theorem Store.Precedes.refl (s : Store) : s.Precedes s :=
  ⟨fun _ _ hg => hg, fun _ h => h, fun _ h => h⟩

theorem Store.Precedes.trans {s t u : Store} (h : s.Precedes t) (h' : t.Precedes u) : s.Precedes u :=
  ⟨fun key g hg => h'.group key g (h.group key g hg), fun room hs => h'.room room (h.room room hs),
    fun id hs => h'.event id (h.event id hs)⟩

theorem precedes_onCore (s : Store) : OnCore fun t => s.Precedes t :=
  fun _ => ⟨fun h => ⟨h.group, h.room, h.event⟩, fun h => ⟨h.group, h.room, h.event⟩⟩

theorem known_insert {s t : Store} (room : RoomId) (roomMeta : RoomMeta)
    (hroom : t.room = s.room.insert room roomMeta) {r : RoomId} (h : (s.room[r]?).isSome) :
    (t.room[r]?).isSome := by
  rw [hroom, OrdMap.getElem?_insert']
  split
  · rfl
  · exact h

theorem known_effect {s t : Store} {cmd : RoomCommand} (heff : Effect s cmd t) {room : RoomId}
    (h : (s.room[room]?).isSome) : (t.room[room]?).isSome := by
  cases heff with
  | idle => exact h
  | tick => exact h
  | @rejected a _ _ _ =>
    cases known : s.room[a.roomId]? with
    | none => rwa [Machine.applyRejected_unknown known]
    | some m =>
      rw [Machine.applyRejected_room known]
      split
      · rfl
      · exact h
  | accepted _ _ happly =>
    obtain ⟨roomMeta, _, hroom⟩ := (applyAccepted_spec happly).room
    exact known_insert _ roomMeta hroom h
  | importRoom _ => exact known_insert _ _ rfl h
  | @importSegment cmd m known =>
    obtain ⟨-, hroom, -⟩ := Machine.segmentRows_frame s m cmd
    refine known_insert cmd.roomId (Machine.segmentMeta m (Machine.segmentRows s m cmd) cmd) ?_ h
    rw [← hroom]
    rfl
  | @importHistory cmd m known =>
    obtain ⟨-, hroom, -⟩ := Machine.historyRows_frame s m cmd
    refine known_insert cmd.roomId { m with
      historyFrontier := Machine.stillMissing m (Machine.historyRows s m cmd)
      nextHistoryIdx := (Machine.historyRows s m cmd).idx } ?_ h
    rw [← hroom]
    rfl

section Append

variable {ruma : Ruma} {room : RoomId} {base s t : Store} {cmd : RoomCommand} {d : Decision}

theorem Computes.groups (h : Computes ruma room base cmd d) (hbase : GroupsOk base)
    (hs : GroupsOk s) (before : base.Precedes s) (unraced : Unraced base s cmd)
    (heff : Effect s (.append d.cmd) t) : GroupsOk t ∧ s.Precedes t := by
  obtain ⟨fresh, unknown⟩ := h.freshIn
  have hplain := h.plain_eq
  have known : s.room[d.cmd.roomId]? = none → d.cmd.rejected.isSome → d.cmd.newGroups = [] := by
    intro hroom
    refine unknown (Option.not_isSome_iff_eq_none.1 fun hknown => ?_)
    simpa [hroom] using before.room d.cmd.roomId hknown
  have below : s.event[d.cmd.eventId]? = none → d.cmd.rejected = none ∨ d.cmd.newGroups ≠ [] →
      ∀ (id : Nat) (g : StateGroup), s.group[(d.cmd.roomId, id)]? = some g →
        id < base.nextGroup d.cmd.roomId := by
    intro absent brings id g hg
    obtain ⟨g', hg'⟩ := Option.isSome_iff_exists.1 ((unraced d.cmd hplain absent).2 brings id g hg)
    exact hbase.lt_nextGroup hg'
  obtain ⟨hok, hle⟩ := groups_append hs before.group fresh known below heff
  exact ⟨hok, hle, fun _ => known_effect heff, fun _ => stored_effect heff⟩

theorem event_append {a : AppendEvent} (heff : Effect s (.append a) t) {id : EventId}
    {e : StoredEvent} (he : s.event[id]? = some e) : t.event[id]? = some e := by
  rcases heff.event_cases id with hsame | ⟨e', _, touched⟩
  · exact hsame.trans he
  · cases touched with
    | rejected absent _ => simp [he] at absent
    | accepted absent _ => simp [he] at absent
    | support listed _ => simp [Machine.supportOf] at listed

end Append

/-! ## Runs of the pipeline on several nodes -/

def Recorded (ruma : Ruma) (log : List (Work × RoomResponse)) (s : Store) (room : RoomId)
    (id : EventId) : Prop :=
  ∃ w d base seq e, (w, RoomResponse.accepted id seq) ∈ log ∧ w.decision = some d ∧
    Computes ruma room base w.cmd d ∧ s.event[id]? = some e ∧
    Materializes s room e.stateGroupAfter d.after

/-- No accepted event is lost. -/
structure Intact (ruma : Ruma) (log : List (Work × RoomResponse)) (s : Store) : Prop where
  groups : GroupsOk s
  rooted : Rooted s
  covered : ∀ room id, s.Accepted room id → s.Covered room id
  recorded : ∀ room id, s.Accepted room id → Recorded ruma log s room id

theorem intact_onCore (ruma : Ruma) (log : List (Work × RoomResponse)) : OnCore (Intact ruma log) := by
  have core {s : Store} {room : RoomId} {id : EventId} :
      Recorded ruma log s.core room id ↔ Recorded ruma log s room id := by
    have same {group : Nat} {map : StateRes.StateIds} :
        Materializes s.core room group map ↔ Materializes s room group map :=
      ⟨fun h => h.mono fun _ _ hg => hg, fun h => h.mono fun _ _ hg => hg⟩
    simp only [Recorded, same]
    rfl
  refine fun s => ⟨fun h => ?_, fun h => ?_⟩
  · exact ⟨(groupsOk_onCore s).1 h.groups, (rooted_onCore s).1 h.rooted, h.covered,
      fun room id hid => core.2 (h.recorded room id hid)⟩
  · exact ⟨(groupsOk_onCore s).2 h.groups, (rooted_onCore s).2 h.rooted, h.covered,
      fun room id hid => core.1 (h.recorded room id hid)⟩

section Pipelines

variable {ruma : Ruma} {log : List (Work × RoomResponse)} {room : RoomId} {base s t : Store}
  {w : Work} {d : Decision} {response : RoomResponse} {id : EventId}

theorem Recorded.append (h : Recorded ruma log s room id) (entry : Work × RoomResponse)
    {a : AppendEvent} (heff : Effect s (.append a) t) (le : s.GroupsLe t) :
    Recorded ruma (entry :: log) t room id := by
  obtain ⟨w, d, base, seq, e, hlog, hw, computes, he, map⟩ := h
  exact ⟨w, d, base, seq, e, List.mem_cons_of_mem _ hlog, hw, computes, event_append heff he,
    map.mono fun _ => le _⟩

theorem Computes.recorded (h : Computes ruma room base w.cmd d) (hw : w.decision = some d)
    (accepted : d.cmd.rejected = none) (le : base.GroupsLe t) (happended : Appended s d.cmd t)
    (seq : Nat) :
    Recorded ruma ((w, .accepted d.cmd.eventId seq) :: log) t d.cmd.roomId d.cmd.eventId := by
  have stored := GroupsOk.stored_putGroups h.freshIn.1.nodup happended.group
  have hroom := h.roomId
  refine ⟨w, d, base, seq, acceptedRecord d.cmd (s.seq + 1), List.mem_cons_self, hw, hroom ▸ h, ?_,
    h.materializes le accepted stored⟩
  simp [happended.event]

theorem Computes.intact (h : Computes ruma room base w.cmd d) (hw : w.decision = some d)
    (hbase : GroupsOk base) (hs : Intact ruma log s) (before : base.Precedes s)
    (unraced : Unraced base s w.cmd) (answered : Machine.Answered s d.cmd t response) :
    Intact ruma ((w, response) :: log) t ∧ s.Precedes t := by
  have heff := answered.effect
  obtain ⟨hok, after⟩ := h.groups hbase hs.groups before unraced heff
  obtain ⟨held, listed⟩ := h.listed
  have rooted := rooted_append hs.rooted (fun prev hprev => before.event prev (held prev hprev)) heff
  have tips := tips_append listed (fun absent => (unraced d.cmd h.plain_eq absent).1) heff
  have covered (room : RoomId) (id : EventId) (hid : s.Covered room id) : t.Covered room id :=
    hid.kept (prevsKept_append heff) (tips room)
  have recorded (room : RoomId) (id : EventId) (hid : Recorded ruma log s room id) :
      Recorded ruma ((w, response) :: log) t room id := hid.append _ heff after.group
  refine ⟨⟨hok, rooted, fun room id hid => ?_, fun room id hid => ?_⟩, after⟩
  · cases answered with
    | duplicate => exact covered room id (hs.covered room id hid)
    | rejected absent _ =>
      exact covered room id (hs.covered room id ((accepted_applyRejected absent room id).1 hid))
    | accepted absent hrejected happly =>
      have happended := applyAccepted_spec happly
      rcases (accepted_insert hs.rooted absent happended room id).1 hid with hid | ⟨rfl, rfl⟩
      · exact covered room id (hs.covered room id hid)
      · refine .of_mem ?_
        rw [extremities_appended happended, if_pos rfl, listed hrejected]
        exact .inl rfl
  · cases answered with
    | duplicate => exact recorded room id (hs.recorded room id hid)
    | rejected absent _ =>
      exact recorded room id (hs.recorded room id ((accepted_applyRejected absent room id).1 hid))
    | @accepted _ seq absent hrejected happly =>
      have happended := applyAccepted_spec happly
      rcases (accepted_insert hs.rooted absent happended room id).1 hid with hid | ⟨rfl, rfl⟩
      · exact recorded room id (hs.recorded room id hid)
      · have le : base.GroupsLe t := fun key g hg => after.group key g (before.group key g hg)
        exact h.recorded hw hrejected le happended seq

end Pipelines

theorem pipelines_sound (ruma : Ruma) :
    Group.Sound (shard ruma (fun _ _ => False) Unraced) (fun l => Intact ruma l.log l.store)
      (fun l m => l.store.Precedes m.store)
      (fun base w => ∃ room d, w.decision = some d ∧ Computes ruma room base.store w.cmd d) where
  refl l := .refl l.store
  trans := .trans
  reads _ := fun ⟨d, hw, computes⟩ => ⟨_, d, hw, computes⟩
  starts _ h := h.2.elim
  applies hbase hl le := by
    rintro ⟨room, d, hw, computes⟩ ⟨unraced, engine, response, happly, hlog⟩
    obtain ⟨t, same, answered⟩ := Machine.apply_append_answered computes.plain_eq happly
    obtain ⟨intact, after⟩ := computes.intact hw hbase.groups hl le unraced answered
    rw [hlog]
    exact ⟨(intact_onCore ruma _).congr same intact, (precedes_onCore _).congr same after⟩

theorem intact_empty (ruma : Ruma) : Intact ruma [] Store.empty := by
  have none (room : RoomId) (id : EventId) : ¬ Store.empty.Accepted room id := by
    rintro ⟨⟨e, he, _⟩, _⟩
    simp [Store.empty] at he
  exact ⟨groupsOk_empty, rooted_empty, fun room id hid => absurd hid (none room id),
    fun room id hid => absurd hid (none room id)⟩

/-- **No update is lost across nodes** where none is raced: in every interleaving of pipeline runs on
any nodes whose commands all meet the store they were computed from, every accepted event is an
extremity of its room or an ancestor of one, and its state group still stands for the state that was
computed with it. -/
theorem replicas_lose_nothing {ι : Type} [DecidableEq ι] {ruma : Ruma} {g : Group ι RoomId Ledger Work}
    (run : Group.Runs (shard ruma (fun _ _ => False) Unraced) (Group.init Ledger.empty) g) :
    ∀ l ∈ g.history, ∀ room id, l.store.Accepted room id →
      (∃ tip ∈ l.store.extremities room, tip = id ∨ Ancestor l.store tip id) ∧
      ∃ w d base seq e, (w, RoomResponse.accepted id seq) ∈ l.log ∧ w.decision = some d ∧
        Computes ruma room base w.cmd d ∧ l.store.event[id]? = some e ∧
        SettlesTo .outOfFuel (fun fuel => l.store.resolveGroup fuel room e.stateGroupAfter)
          (.ok d.after) := by
  intro l hl room id hid
  have intact := (Group.Runs.invariant (pipelines_sound ruma) (intact_empty ruma) run).holds l hl
  obtain ⟨w, d, base, seq, e, hlog, hw, computes, he, map⟩ := intact.recorded room id hid
  exact ⟨intact.covered room id hid, w, d, base, seq, e, hlog, hw, computes, he, map.settles⟩

/-! ### Evaluated runs -/

def Ledger.compute (server : Server) (fuel : Nat) (l : Ledger) (raw : JsonObject) : Option Work :=
  match server.ingestPdu l.store fuel raw false with
  | .ok (.inr d) => some ⟨.append d.cmd, some d⟩
  | _ => none

def Ledger.commit (l : Ledger) (w : Work) : Option Ledger :=
  match Machine.apply l.store l.store w.cmd with
  | .ok (s, response) => some ⟨s, (w, response) :: l.log⟩
  | .error _ => none

/-- An event that arrives, where its command meets `ok`. -/
def Ledger.ingest (server : Server) (ok : Store → RoomCommand → Bool) (fuel : Nat) (l : Ledger)
    (raw : JsonObject) : Option Ledger :=
  ((l.compute server fuel raw).filter fun w => ok l.store w.cmd).bind l.commit

section Evaluated

variable {server : Server} {fuel : Nat} {starts : Store → RoomCommand → Prop}
  {P : Store → Store → RoomCommand → Prop} {base l m : Ledger} {raw : JsonObject} {w : Work}

variable (starts P) in
theorem Ledger.compute_reads (lawful : server.Lawful) (h : l.compute server fuel raw = some w) :
    ∃ room, (shard server.ruma starts P).reads room l w := by
  unfold Ledger.compute at h
  split at h
  · rename_i d hd
    obtain rfl := Option.some.inj h
    rw [Server.ingestPdu, bind_eq_ok] at hd
    obtain ⟨⟨version, room, isCreate⟩, hclass, hp⟩ := hd
    exact ⟨room, d, rfl, server, raw, version, isCreate, false, false, fuel, lawful, rfl,
      .ingested hclass, hp, rfl⟩
  · simp at h

theorem Ledger.commit_applies {ruma : Ruma} (h : l.commit w = some m)
    (hP : P base.store l.store w.cmd) : (shard ruma starts P).applies base w l m := by
  unfold Ledger.commit at h
  split at h
  · rename_i s response happly
    obtain rfl := Option.some.inj h
    exact ⟨hP, l.store, response, happly, rfl⟩
  · simp at h

theorem Ledger.commit_log (h : l.commit w = some m) : ∃ response, m.log = (w, response) :: l.log := by
  unfold Ledger.commit at h
  split at h
  · rename_i s response _
    obtain rfl := Option.some.inj h
    exact ⟨response, rfl⟩
  · simp at h

variable {ι : Type} [DecidableEq ι] {g : Group ι RoomId Ledger Work} {set : List EventId}

variable (starts P) in
theorem Ledger.ingests_run (lawful : server.Lawful) {ok : Store → RoomCommand → Bool}
    (hP : ∀ s cmd, ok s cmd → P s s cmd) (i : ι) {raws : List JsonObject}
    (h : raws.foldlM (Ledger.ingest server ok fuel) l = some m) {past : List Ledger}
    (run : Group.Runs (shard server.ruma starts P) g (.rest l past)) :
    ∃ past, Group.Runs (shard server.ruma starts P) g (.rest m past) := by
  induction raws generalizing l past with
  | nil =>
    obtain rfl : l = m := by simpa using h
    exact ⟨past, run⟩
  | cons raw raws ih =>
    simp only [List.foldlM_cons, Option.bind_eq_bind, Option.bind_eq_some_iff] at h
    obtain ⟨l', hfirst, hrest⟩ := h
    obtain ⟨w, hw, hcommit⟩ := Option.bind_eq_some_iff.1 hfirst
    obtain ⟨hw, hok⟩ := Option.filter_eq_some_iff.1 hw
    obtain ⟨room, hread⟩ := Ledger.compute_reads starts P lawful hw
    exact ih hrest (run.alone i hread (Ledger.commit_applies hcommit (hP _ _ hok)))

theorem ancestor_mem {s : Store} {a b : EventId}
    (h : ((a :: set).all fun a => (s.event[a]?).all fun e => (prevEventIds e.raw).all set.contains) =
      true) (behind : Ancestor s a b) : b ∈ set := by
  have step {x y : EventId} (hx : x ∈ a :: set)
      (edge : ∃ e : StoredEvent, s.event[x]? = some e ∧ y ∈ prevEventIds e.raw) : y ∈ set := by
    obtain ⟨e, he, hy⟩ := edge
    have := List.all_eq_true.1 h x hx
    rw [he, Option.all_some, List.all_eq_true] at this
    simpa using this y hy
  induction behind with
  | single edge => exact step List.mem_cons_self edge
  | tail _ edge ih => exact step (List.mem_cons_of_mem _ ih) edge

theorem not_covered {s : Store} {room : RoomId} {tip id : EventId}
    (tips : s.extremities room = [tip]) (closed : ((tip :: set).all fun a =>
      (s.event[a]?).all fun e => (prevEventIds e.raw).all set.contains) = true)
    (h : id ∉ tip :: set) : ¬ s.Covered room id := by
  rintro ⟨top, htop, behind⟩
  rw [tips, List.mem_singleton] at htop
  subst htop
  rcases behind with rfl | behind
  · exact h List.mem_cons_self
  · exact h (List.mem_cons_of_mem _ (ancestor_mem closed behind))

end Evaluated

theorem replicas_lose_nothing_join : ∃ l : Ledger, l.store.Accepted "!r:x" "$j" ∧
    (∃ tip ∈ l.store.extremities "!r:x", tip = "$j" ∨ Ancestor l.store tip "$j") ∧
    ∃ w d base seq e, (w, RoomResponse.accepted "$j" seq) ∈ l.log ∧ w.decision = some d ∧
      Computes Ruma.sample "!r:x" base w.cmd d ∧ l.store.event["$j"]? = some e ∧
      SettlesTo .outOfFuel (fun fuel => l.store.resolveGroup fuel "!r:x" e.stateGroupAfter)
        (.ok d.after) := by
  have h : ([Ruma.sampleCreate, Ruma.sampleJoin].foldlM
      (Ledger.ingest (Server.sample ["x"]) (fun _ _ => true) 9) Ledger.empty).any (fun l =>
        l.store.roomSeq[("!r:x", 2)]? == some "$j" &&
        (l.store.event["$j"]?).any fun e => e.rejected.isNone) = true := by decide +kernel
  obtain ⟨l, hl, hp⟩ := (Option.any_eq_true _ _).1 h
  simp only [Bool.and_eq_true, beq_iff_eq, Option.any_eq_true, Option.isNone_iff_eq_none] at hp
  obtain ⟨hrow, hevent⟩ := hp
  obtain ⟨past, run⟩ := Ledger.ingests_run (g := Group.init Ledger.empty)
    (fun _ _ => False) Unraced (Server.sample_lawful ["x"]) (fun s cmd _ => Unraced.refl s cmd) true hl .refl
  exact ⟨l, ⟨hevent, 2, hrow⟩, replicas_lose_nothing run l List.mem_cons_self "!r:x" "$j" ⟨hevent, 2, hrow⟩⟩

def sampleState (hash eventType : String) : JsonObject :=
  Ruma.samplePdu hash eventType (some "") "@a:x" [] ["$c", "$j"] ["$j"] 3

/-- Two nodes compute a state event each from the same store. When both are applied, the first is
behind no extremity, and its state group holds the state of the second. -/
theorem raced_event_lost : ∃ g : Group Bool RoomId Ledger Work,
    Group.Runs (shard Ruma.sample (fun _ _ => False) fun _ _ _ => True) (Group.init Ledger.empty) g ∧
    (∀ i room, g.locked i room = none) ∧ ∃ l ∈ g.history.head?, l.store.Accepted "!r:x" "$t" ∧
      (¬ ∃ tip ∈ l.store.extremities "!r:x", tip = "$t" ∨ Ancestor l.store tip "$t") ∧
      ∃ w d seq e map, (w, RoomResponse.accepted "$t" seq) ∈ l.log ∧ w.decision = some d ∧
        l.store.event["$t"]? = some e ∧
        SettlesTo .outOfFuel (fun fuel => l.store.resolveGroup fuel "!r:x" e.stateGroupAfter)
          (.ok map) ∧ map ≠ d.after := by
  have h : ([Ruma.sampleCreate, Ruma.sampleJoin].foldlM
      (Ledger.ingest (Server.sample ["x"]) (fun _ _ => true) 9) Ledger.empty).any (fun l =>
        (l.compute (Server.sample ["x"]) 9 (sampleState "t" "m.room.topic")).any fun w =>
        (l.compute (Server.sample ["x"]) 9 (sampleState "n" "m.room.name")).any fun v =>
        w.decision.any fun d => (l.commit w).any fun m => (m.commit v).any fun n =>
          m.log.head?.any (fun p => p.2 == .accepted "$t" 3) &&
          n.store.extremities "!r:x" == ["$n"] && n.store.roomSeq[("!r:x", 3)]? == some "$t" &&
          (["$n", "$j", "$c"].all fun a => (n.store.event[a]?).all fun e =>
            (prevEventIds e.raw).all ["$j", "$c"].contains) &&
          (n.store.event["$t"]?).any (fun e => e.rejected.isNone &&
            (n.store.resolveGroup 9 "!r:x" e.stateGroupAfter).toOption.any
              fun map => map != d.after)) = true := by decide +kernel
  obtain ⟨l, hl, hp⟩ := (Option.any_eq_true _ _).1 h
  obtain ⟨w, hw, hp⟩ := (Option.any_eq_true _ _).1 hp
  obtain ⟨v, hv, hp⟩ := (Option.any_eq_true _ _).1 hp
  obtain ⟨d, hd, hp⟩ := (Option.any_eq_true _ _).1 hp
  obtain ⟨m, hm, hp⟩ := (Option.any_eq_true _ _).1 hp
  obtain ⟨n, hn, hp⟩ := (Option.any_eq_true _ _).1 hp
  simp only [Bool.and_eq_true, beq_iff_eq, Option.any_eq_true, Option.isNone_iff_eq_none,
    bne_iff_ne, toOption_eq_some] at hp
  obtain ⟨⟨⟨⟨⟨p, hfirst, hresponse⟩, tips⟩, row⟩, closed⟩, e, he, accepted, map, hmap, hne⟩ := hp
  obtain ⟨past, run⟩ : ∃ past, Group.Runs (shard Ruma.sample (fun _ _ => False) fun _ _ _ => True)
      (Group.init Ledger.empty) (.rest l past) :=
    Ledger.ingests_run _ _ (Server.sample_lawful ["x"]) (fun _ _ _ => trivial) true hl .refl
  obtain ⟨first, hread⟩ := Ledger.compute_reads (fun _ _ => False) (fun _ _ _ => True)
    (Server.sample_lawful ["x"]) hw
  obtain ⟨second, hread'⟩ := Ledger.compute_reads (fun _ _ => False) (fun _ _ _ => True)
    (Server.sample_lawful ["x"]) hv
  have run := run.raced (i := true) (j := false) (t := m) (u := n) (by decide) hread hread'
    (Ledger.commit_applies hm trivial) (Ledger.commit_applies hn trivial)
  refine ⟨_, run, fun _ _ => rfl, n, rfl, ⟨⟨e, he, accepted⟩, 3, row⟩, ?_, w, d, 3, e, map, ?_,
    hd, he, ?_, hne⟩
  · exact not_covered tips closed (by decide)
  · obtain ⟨response, hlog⟩ := Ledger.commit_log hm
    obtain ⟨later, hlog'⟩ := Ledger.commit_log hn
    obtain rfl : (w, response) = p := by simpa [hlog] using hfirst
    rw [hlog', hlog, ← hresponse]
    exact List.mem_cons_of_mem _ List.mem_cons_self
  · exact (resolveGroup_materializes hmap).settles

end Saltator.Room
