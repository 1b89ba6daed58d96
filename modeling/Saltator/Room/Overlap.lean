import Saltator.Room.Replicated

/-!
# Imports among the runs of the pipeline

The imports take no lock, so that one may be computed before a run of the pipeline and be applied
while that run is under way. An import chooses its state group and its extremity when it is applied,
and nothing that was there is lost, except that a room which is imported again starts over from the
join: the resident's state supersedes what was held.
-/

namespace Saltator.Room

open Std
open Saltator.Outcome Saltator.Replicas
open Machine (Effect plain applyAccepted_spec)
open Pipeline

/-- The stored groups are well formed and the stored events named after their hashes. -/
structure Registered (ruma : Ruma) (s : Store) : Prop where
  groups : GroupsOk s
  hashed : Hashed ruma s

def Proposed (ruma : Ruma) (base : Store) (w : Work) : Prop :=
  (∃ room d, w.decision = some d ∧ Computes ruma room base w.cmd d) ∨
    (w.decision = none ∧ Imports ruma base w.cmd)

/-- The room is imported again: the join is its only extremity. -/
def Reimports (s : Store) (cmd : RoomCommand) (room : RoomId) (t : Store) : Prop :=
  ∃ c : ImportRoom, cmd = .importRoom c ∧ c.roomId = room ∧ (s.room[room]?).isSome ∧
    t.extremities room = [c.joinEventId]

section Step

variable {ruma : Ruma} {room : RoomId} {base s t : Store} {cmd : RoomCommand} {d : Decision} {w : Work}

theorem Computes.hashNamed (h : Computes ruma room s cmd d) : HashNamed ruma cmd := by
  obtain ⟨_, _, _, _, _, _, _, _, rfl, _, hp, hplain⟩ := h
  exact processInner_hashNamed hp hplain

theorem Imports.hashNamed (h : Imports ruma s cmd) : HashNamed ruma cmd := by
  cases h with
  | room hserver h => exact hserver ▸ importRoom_hashNamed h
  | segment hserver h => exact hserver ▸ importSegment_hashNamed h

theorem Imports.not_append (h : Imports ruma s cmd) (a : AppendEvent) : plain cmd ≠ .append a := by
  cases h <;> simp [plain]

theorem Imports.plain_eq (h : Imports ruma s cmd) : plain cmd = cmd := by
  cases h <;> rfl

theorem Proposed.hashNamed (h : Proposed ruma base w) : HashNamed ruma w.cmd := by
  rcases h with ⟨_, _, _, computes⟩ | ⟨_, imports⟩
  · exact computes.hashNamed
  · exact imports.hashNamed

theorem Proposed.registered (h : Proposed ruma base w) (hbase : Registered ruma base)
    (hs : Registered ruma s) (before : base.Precedes s) (unraced : Unraced base s w.cmd)
    (heff : Effect s (plain w.cmd) t) : Registered ruma t ∧ s.Precedes t := by
  have named : HashNamed ruma (plain w.cmd) := by
    simpa only [HashNamed, carried_plain] using h.hashNamed
  have hashed := hashed_effect hs.hashed named heff
  rcases h with ⟨_, d, _, computes⟩ | ⟨_, imports⟩
  · obtain ⟨hok, after⟩ :=
      computes.groups hbase.groups hs.groups before unraced (computes.plain_eq ▸ heff)
    exact ⟨⟨hok, hashed⟩, after⟩
  · obtain ⟨hok, hle⟩ :=
      groups_effect hs.groups (fun a ha => absurd ha (imports.not_append a)) heff
    exact ⟨⟨hok, hashed⟩, hle, fun _ => known_effect heff, fun _ => stored_effect heff⟩

theorem Proposed.tips (h : Proposed ruma base w) (unraced : Unraced base s w.cmd)
    (heff : Effect s (plain w.cmd) t) (room : RoomId) :
    (∀ tip ∈ s.extremities room, t.Covered room tip) ∨ Reimports s w.cmd room t := by
  rcases h with ⟨_, d, _, computes⟩ | ⟨_, imports⟩
  · left
    refine tips_append computes.listed.2 (fun absent => (unraced d.cmd computes.plain_eq absent).1) ?_ room
    exact computes.plain_eq ▸ heff
  · rcases extremities_import imports.not_append heff room with kept | again
    · exact .inl fun tip htip => .of_mem (kept tip htip)
    · rw [imports.plain_eq] at again
      exact .inr again

theorem Proposed.covered (h : Proposed ruma base w) (hs : Registered ruma s)
    (unraced : Unraced base s w.cmd) (apart : Collisionless ruma s w.cmd)
    (heff : Effect s (plain w.cmd) t) {id : EventId} (hid : s.Covered room id) :
    t.Covered room id ∨ Reimports s w.cmd room t := by
  have named : HashNamed ruma (plain w.cmd) := by
    simpa only [HashNamed, carried_plain] using h.hashNamed
  have apart : Collisionless ruma s (plain w.cmd) := by
    simpa only [Collisionless, carried_plain] using apart
  exact (h.tips unraced heff room).imp_left fun tips =>
    hid.kept (prevsKept_effect hs.hashed named apart heff) tips

theorem Computes.covers {response : RoomResponse} {id : EventId} {seq : Nat}
    (h : Computes ruma room base cmd d) (answered : Machine.Answered s d.cmd t response)
    (hresponse : response = .accepted id seq) : t.Covered d.cmd.roomId id := by
  subst hresponse
  cases answered with
  | accepted absent hrejected happly =>
    refine .of_mem ?_
    rw [extremities_appended (applyAccepted_spec happly), if_pos rfl, h.listed.2 hrejected]
    exact .inl rfl

end Step

/-! ## Runs -/

/-- A command that is applied where nothing raced it and no hash collides. -/
def Undisturbed (ruma : Ruma) (base s : Store) (cmd : RoomCommand) : Prop :=
  Unraced base s cmd ∧ Collisionless ruma s cmd

theorem registered_onCore (ruma : Ruma) : OnCore (Registered ruma) := fun s =>
  ⟨fun h => ⟨(groupsOk_onCore s).1 h.groups, h.hashed⟩,
    fun h => ⟨(groupsOk_onCore s).2 h.groups, h.hashed⟩⟩

theorem covered_onCore (room : RoomId) (id : EventId) : OnCore fun s => s.Covered room id :=
  fun _ => Iff.rfl

theorem proposals_sound (ruma : Ruma) :
    Group.Sound (shard ruma (Imports ruma) (Undisturbed ruma)) (fun l => Registered ruma l.store)
      (fun l m => l.store.Precedes m.store) (fun base w => Proposed ruma base.store w) where
  refl l := .refl l.store
  trans := .trans
  reads _ := fun ⟨d, hw, computes⟩ => .inl ⟨_, d, hw, computes⟩
  starts _ h := .inr h
  applies hbase hl le proposed := by
    rintro ⟨settled, engine, response, happly, -⟩
    obtain ⟨t, heff, same⟩ := Machine.apply_effect happly
    obtain ⟨registered, after⟩ := proposed.registered hbase hl le settled.1 heff
    exact ⟨(registered_onCore ruma).congr same registered, (precedes_onCore _).congr same after⟩

theorem registered_empty (ruma : Ruma) : Registered ruma Store.empty :=
  ⟨groupsOk_empty, fun id e he => by simp [Store.empty] at he⟩

/-- **Imports lose nothing** where nothing is raced: in every interleaving of pipeline runs and
imports, on any nodes, a state group keeps its contents, an event that the pipeline accepts is among
the extremities of its room or behind one, and it stays there until the room is imported again. -/
theorem imports_keep_ancestry {ι : Type} [DecidableEq ι] {ruma : Ruma} {g : Group ι RoomId Ledger Work}
    (run : Group.Runs (shard ruma (Imports ruma) (Undisturbed ruma)) (Group.init Ledger.empty) g) :
    (g.history.Pairwise fun later l => ∀ (room : RoomId) (id : Nat) (group : StateGroup),
      l.store.group[(room, id)]? = some group → later.store.group[(room, id)]? = some group) ∧
    g.history.IsChain fun next l => ∃ w response, next.log = (w, response) :: l.log ∧
      (∀ d id seq, w.decision = some d → response = .accepted id seq → next.store.Covered d.cmd.roomId id) ∧
      ∀ room id, l.store.Covered room id →
        next.store.Covered room id ∨ Reimports l.store w.cmd room next.store := by
  have kept := Group.Runs.invariant (proposals_sound ruma) (registered_empty ruma) run
  refine ⟨kept.sorted.imp fun le room id => le.group (room, id), kept.chained.imp ?_⟩
  rintro next l ⟨base, w, -, hl, -, proposed, ⟨unraced, apart⟩, engine, response, happly, hlog⟩
  refine ⟨w, response, hlog, fun d id seq hw hresponse => ?_, fun room id hid => ?_⟩
  · rcases proposed with ⟨room, d', hw', computes⟩ | ⟨hw', _⟩
    · obtain rfl := some_unique hw' hw
      obtain ⟨t, same, answered⟩ := Machine.apply_append_answered computes.plain_eq happly
      exact (covered_onCore _ id).congr same (computes.covers answered hresponse)
    · simp [hw] at hw'
  · obtain ⟨t, heff, same⟩ := Machine.apply_effect happly
    rcases proposed.covered hl unraced apart heff hid with hid | ⟨c, hcmd, hroom, known, tips⟩
    · exact .inl ((covered_onCore room id).congr same hid)
    · have core : OnCore fun t => t.extremities room = [c.joinEventId] := fun _ => Iff.rfl
      exact .inr ⟨c, hcmd, hroom, known, core.congr same tips⟩

/-! ### Evaluated runs -/

theorem sampleServer_ruma : (Server.sample ["x"]).ruma = Ruma.sample := rfl

def Store.apart (s : Store) (cmd : RoomCommand) : Bool :=
  (carried cmd).all fun c =>
    (s.event[c.1]?).all fun e => prevEventIds e.raw == prevEventIds c.2

theorem collisionless_of_apart {ruma : Ruma} {s : Store} {cmd : RoomCommand}
    (h : s.apart cmd = true) : Collisionless ruma s cmd := by
  intro c hc e he _ _ _ _
  have := List.all_eq_true.1 h c hc
  simpa [he] using this

theorem imports_keep_ancestry_segment : ∃ l m : Ledger, l.store.Accepted "!r:x" "$j" ∧
    l.store.roomSeq[("!r:x", 3)]? = none ∧ m.store.roomSeq[("!r:x", 3)]? = some "$f" ∧
    m.store.Covered "!r:x" "$j" ∧
    ∀ (room : RoomId) (id : Nat) (group : StateGroup), l.store.group[(room, id)]? = some group →
      m.store.group[(room, id)]? = some group := by
  have h : ([Ruma.sampleCreate, Ruma.sampleJoin].foldlM
      (Ledger.ingest (Server.sample ["x"]) Store.apart 9) Ledger.empty).any (fun l =>
        ((Server.sample ["x"]).importSegment l.store 9 "!r:x" [Ruma.sampleCreate, Ruma.sampleJoin] []
          [sampleState "f" "m.room.topic"]).toOption.any fun c => l.store.apart (.importSegment c) &&
        (l.commit ⟨.importSegment c, none⟩).any fun m =>
          l.store.extremities "!r:x" == ["$j"] && l.store.roomSeq[("!r:x", 2)]? == some "$j" &&
          l.store.roomSeq[("!r:x", 3)]?.isNone && m.store.roomSeq[("!r:x", 3)]? == some "$f" &&
          (l.store.event["$j"]?).any fun e => e.rejected.isNone) = true := by decide +kernel
  obtain ⟨l, hl, hp⟩ := (Option.any_eq_true _ _).1 h
  obtain ⟨c, hc, hp⟩ := (Option.any_eq_true _ _).1 hp
  obtain ⟨apart, hp⟩ := Bool.and_eq_true_iff.1 hp
  obtain ⟨m, hm, hp⟩ := (Option.any_eq_true _ _).1 hp
  simp only [Bool.and_eq_true, beq_iff_eq, Option.any_eq_true, Option.isNone_iff_eq_none] at hp
  obtain ⟨⟨⟨⟨tips, row⟩, before⟩, after⟩, accepted⟩ := hp
  obtain ⟨past, run⟩ := Ledger.ingests_run (g := Group.init Ledger.empty)
    (Imports Ruma.sample) (Undisturbed Ruma.sample) (Server.sample_lawful ["x"])
    (fun s cmd apart => ⟨.refl s cmd, collisionless_of_apart apart⟩) true hl .refl
  have imports : Imports Ruma.sample l.store (.importSegment c) :=
    .segment sampleServer_ruma (toOption_eq_some.1 hc)
  have run := run.loose true (w := ⟨.importSegment c, none⟩) ⟨rfl, imports⟩
    (Ledger.commit_applies hm ⟨.refl _ _, collisionless_of_apart apart⟩)
  obtain ⟨sorted, chained⟩ := imports_keep_ancestry run
  obtain ⟨response, hlog⟩ := Ledger.commit_log hm
  obtain ⟨w, _, hlog', -, kept⟩ := List.isChain_cons_cons.1 chained |>.1
  obtain ⟨rfl, -⟩ := Prod.mk.inj (List.cons.inj (hlog.symm.trans hlog')).1
  have covered : l.store.Covered "!r:x" "$j" := .of_mem (by rw [tips]; exact List.mem_cons_self)
  refine ⟨l, m, ⟨accepted, 2, row⟩, before, after, (kept "!r:x" "$j" covered).resolve_right ?_,
    (List.pairwise_cons.1 sorted).1 l List.mem_cons_self⟩
  rintro ⟨c', hcmd, -⟩
  exact nomatch hcmd

def sampleRejoin : JsonObject :=
  Ruma.samplePdu "k" "m.room.member" (some "@a:x") "@a:x" [("membership", .string "join")]
    ["$c", "$j"] ["$j"] 3

/-- On one node: a room that is imported again loses its last event, and a segment that is imported
while a state event is computed loses its state group and its place behind the extremities. -/
theorem imports_drop_ancestry : (∃ (g : Group Unit RoomId Ledger Work) (l m : Ledger) (past : List Ledger),
      Group.Runs (shard Ruma.sample (Imports Ruma.sample) fun _ _ _ => True)
        (Group.init Ledger.empty) g ∧ g.history = m :: l :: past ∧
      l.store.Accepted "!r:x" "$m" ∧ l.store.Covered "!r:x" "$m" ∧
      m.store.Accepted "!r:x" "$m" ∧ ¬ m.store.Covered "!r:x" "$m") ∧
    ∃ (g : Group Unit RoomId Ledger Work) (m n : Ledger) (past : List Ledger),
      Group.Runs (shard Ruma.sample (Imports Ruma.sample) fun _ _ _ => True)
        (Group.init Ledger.empty) g ∧ g.history = n :: m :: past ∧
      m.store.Accepted "!r:x" "$f" ∧ m.store.Covered "!r:x" "$f" ∧ ¬ n.store.Covered "!r:x" "$f" ∧
      ∃ group group' : StateGroup, m.store.group[("!r:x", 3)]? = some group ∧
        n.store.group[("!r:x", 3)]? = some group' ∧ group ≠ group' := by
  constructor
  · have h : ([Ruma.sampleCreate, Ruma.sampleJoin, sampleState "m" "m.room.topic"].foldlM
        (Ledger.ingest (Server.sample ["x"]) (fun _ _ => true) 9) Ledger.empty).any (fun l =>
          ((Server.sample ["x"]).importRoom .v11 sampleRejoin
            [Ruma.sampleCreate, Ruma.sampleJoin] []).toOption.any fun c =>
          (l.commit ⟨.importRoom c, none⟩).any fun m =>
            l.store.extremities "!r:x" == ["$m"] && l.store.roomSeq[("!r:x", 3)]? == some "$m" &&
            ((l.store.event["$m"]?).any fun e => e.rejected.isNone) &&
            m.store.roomSeq[("!r:x", 3)]? == some "$m" &&
            ((m.store.event["$m"]?).any fun e => e.rejected.isNone) &&
            m.store.extremities "!r:x" == ["$k"] &&
            ["$k", "$j", "$c"].all fun a => (m.store.event[a]?).all fun e =>
              (prevEventIds e.raw).all ["$j", "$c"].contains) = true := by decide +kernel
    obtain ⟨l, hl, hp⟩ := (Option.any_eq_true _ _).1 h
    obtain ⟨c, hc, hp⟩ := (Option.any_eq_true _ _).1 hp
    obtain ⟨m, hm, hp⟩ := (Option.any_eq_true _ _).1 hp
    simp only [Bool.and_eq_true, beq_iff_eq, Option.any_eq_true, Option.isNone_iff_eq_none] at hp
    obtain ⟨⟨⟨⟨⟨⟨before, row⟩, accepted⟩, row'⟩, accepted'⟩, tips⟩, closed⟩ := hp
    obtain ⟨past, run⟩ := Ledger.ingests_run (g := Group.init Ledger.empty)
      (Imports Ruma.sample) (fun _ _ _ => True) (Server.sample_lawful ["x"])
      (fun _ _ _ => trivial) () hl .refl
    have imports : Imports Ruma.sample l.store (.importRoom c) :=
      .room sampleServer_ruma (toOption_eq_some.1 hc)
    have run := run.loose () (w := ⟨.importRoom c, none⟩) ⟨rfl, imports⟩ (Ledger.commit_applies hm trivial)
    exact ⟨_, l, m, past, run, rfl, ⟨accepted, 3, row⟩,
      .of_mem (by rw [before]; exact List.mem_cons_self), ⟨accepted', 3, row'⟩,
      not_covered tips closed (by decide)⟩
  · have h : ([Ruma.sampleCreate, Ruma.sampleJoin].foldlM
        (Ledger.ingest (Server.sample ["x"]) (fun _ _ => true) 9) Ledger.empty).any (fun l =>
          (l.compute (Server.sample ["x"]) 9 (sampleState "t" "m.room.name")).any fun w =>
          ((Server.sample ["x"]).importSegment l.store 9 "!r:x"
            [Ruma.sampleCreate, Ruma.sampleJoin] [] [sampleState "f" "m.room.topic"]).toOption.any fun c =>
          (l.commit ⟨.importSegment c, none⟩).any fun m => (m.commit w).any fun n =>
            m.store.roomSeq[("!r:x", 3)]? == some "$f" &&
            ((m.store.event["$f"]?).any fun e => e.rejected.isNone) &&
            (m.store.extremities "!r:x").contains "$f" && n.store.extremities "!r:x" == ["$t"] &&
            (["$t", "$j", "$c"].all fun a => (n.store.event[a]?).all fun e =>
              (prevEventIds e.raw).all ["$j", "$c"].contains) &&
            (m.store.group[("!r:x", 3)]?).any fun group =>
              (n.store.group[("!r:x", 3)]?).any fun group' => group != group') = true := by
      decide +kernel
    obtain ⟨l, hl, hp⟩ := (Option.any_eq_true _ _).1 h
    obtain ⟨w, hw, hp⟩ := (Option.any_eq_true _ _).1 hp
    obtain ⟨c, hc, hp⟩ := (Option.any_eq_true _ _).1 hp
    obtain ⟨m, hm, hp⟩ := (Option.any_eq_true _ _).1 hp
    obtain ⟨n, hn, hp⟩ := (Option.any_eq_true _ _).1 hp
    simp only [Bool.and_eq_true, beq_iff_eq, Option.any_eq_true, Option.isNone_iff_eq_none,
      bne_iff_ne] at hp
    obtain ⟨⟨⟨⟨⟨row, accepted⟩, before⟩, tips⟩, closed⟩, group, hgroup, group', hgroup', hne⟩ := hp
    obtain ⟨past, run⟩ := Ledger.ingests_run (g := Group.init Ledger.empty)
      (Imports Ruma.sample) (fun _ _ _ => True) (Server.sample_lawful ["x"])
      (fun _ _ _ => trivial) () hl .refl
    obtain ⟨room, hread⟩ := Ledger.compute_reads (Imports Ruma.sample) (fun _ _ _ => True)
      (Server.sample_lawful ["x"]) hw
    have imports : Imports Ruma.sample l.store (.importSegment c) :=
      .segment sampleServer_ruma (toOption_eq_some.1 hc)
    have run := run.overtaken () (t := m) (u := n) hread (v := ⟨.importSegment c, none⟩)
      ⟨rfl, imports⟩ (Ledger.commit_applies hm trivial) (Ledger.commit_applies hn trivial)
    exact ⟨_, m, n, l :: past, run, rfl, ⟨accepted, 3, row⟩, .of_mem (List.contains_iff_mem.1 before),
      not_covered tips closed (by decide), group, group', hgroup, hgroup', hne⟩

end Saltator.Room
