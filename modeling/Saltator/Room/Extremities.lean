import Saltator.Room.Birth
import Saltator.Room.Frontier
import Saltator.Room.Rejection

/-!
# Forward extremities

An accepted event takes its direct prev events off the room's extremities. `tips_accepted_iff` says
when that is enough for the extremities to stay the tips of the accepted events: when every
extremity behind the new event is one of its direct prev events. Behind a rejected prev event an
extremity is missed, as `rejected_prev_keeps_extremity` shows.
-/

namespace Saltator.Room

open Std
open Saltator.Outcome
open Machine (Effect plain Appended acceptedMeta acceptedRecord applyRejected
  rejectedRecord applyRejected_event applyRejected_frame applyAccepted_spec)
open Pipeline

def Store.extremities (s : Store) (room : RoomId) : List EventId :=
  (s.room[room]?.map RoomMeta.extremities).getD []

def Store.Accepted (s : Store) (room : RoomId) (id : EventId) : Prop :=
  (∃ e : StoredEvent, s.event[id]? = some e ∧ e.rejected = none) ∧
    ∃ n : Nat, s.roomSeq[(room, n)]? = some id

/-- An accepted event of the room that is no proper ancestor of another one. Paths follow the prev
events of all stored events, rejected ones included. -/
def Store.Tip (s : Store) (room : RoomId) (id : EventId) : Prop :=
  s.Accepted room id ∧ ∀ other, s.Accepted room other → other ≠ id → ¬ Ancestor s other id

def Behind (s : Store) (prevs : List EventId) (id : EventId) : Prop :=
  ∃ prev ∈ prevs, id = prev ∨ Ancestor s prev id

/-- Reached from the prev event `prev` through events the room did not accept, `prev` included. -/
def Store.HiddenBehind (s : Store) (room : RoomId) (prev id : EventId) : Prop :=
  Relation.TransGen (fun a b => ¬ s.Accepted room a ∧
    ∃ e : StoredEvent, s.event[a]? = some e ∧ b ∈ prevEventIds e.raw) prev id

/-- An extremity of the room that lies behind prev events the room did not accept is itself a direct
prev event. -/
def RetiresTips (s : Store) (room : RoomId) (prevs : List EventId) : Prop :=
  ∀ id ∈ s.extremities room, ∀ prev ∈ prevs, s.HiddenBehind room prev id → id ∈ prevs

/-- Prev events are stored, timeline rows name accepted events and are numbered up to the shard's
counter. -/
structure Rooted (s : Store) : Prop where
  closed : ∀ (id : EventId) (e : StoredEvent), s.event[id]? = some e →
    ∀ prev ∈ prevEventIds e.raw, (s.event[prev]?).isSome
  rows : ∀ (room : RoomId) (n : Nat) (id : EventId), s.roomSeq[(room, n)]? = some id →
    n ≤ s.seq ∧ ∃ e : StoredEvent, s.event[id]? = some e ∧ e.rejected = none

def TipsOnly (s : Store) : Prop := ∀ room id, id ∈ s.extremities room ↔ s.Tip room id

/-! ## A new event -/

section NewEvent

variable {s t : Store} {new : EventId} {record : StoredEvent} {cmd : AppendEvent}

theorem ancestor_insert (base : Rooted s) (absent : s.event[new]? = none)
    (held : ∀ prev ∈ prevEventIds record.raw, (s.event[prev]?).isSome)
    (hevent : t.event = s.event.insert new record) :
    (∀ a b, a ≠ new → (Ancestor t a b ↔ Ancestor s a b)) ∧
      ∀ b, Ancestor t new b ↔ Behind s (prevEventIds record.raw) b := by
  have stored : ∀ {id : EventId}, (s.event[id]?).isSome → id ≠ new := by
    rintro id known rfl
    simp [absent] at known
  have other : ∀ a b, a ≠ new → (Ancestor t a b ↔ Ancestor s a b) := by
    intro a b ha
    refine Graph.transGen_congr_of_unlisted (fun a b ha => ?_) (fun a b _ edge => ?_) ha
    · rw [hevent, OrdMap.getElem?_insert', if_neg ha]
    · obtain ⟨e, he, hb⟩ := edge
      exact stored (base.closed a e he b hb)
  refine ⟨other, fun b => ?_⟩
  have edge : ∀ c, (∃ e : StoredEvent, t.event[new]? = some e ∧ c ∈ prevEventIds e.raw) ↔
      c ∈ prevEventIds record.raw := by
    simp [hevent]
  constructor
  · intro h
    obtain ⟨c, first, rest⟩ := Relation.TransGen.head'_iff.1 h
    have hc := (edge c).1 first
    refine ⟨c, hc, ?_⟩
    obtain same | more := Relation.reflTransGen_iff_eq_or_transGen.1 rest
    · exact .inl same
    · exact .inr ((other c b (stored (held c hc))).1 more)
  · rintro ⟨c, hc, rfl | more⟩
    · exact .single ((edge b).2 hc)
    · exact .head ((edge c).2 hc) ((other c b (stored (held c hc))).2 more)

theorem Rooted.insert (base : Rooted s) (absent : s.event[new]? = none)
    (held : ∀ prev ∈ prevEventIds record.raw, (s.event[prev]?).isSome)
    (hevent : t.event = s.event.insert new record)
    (hrows : ∀ (room : RoomId) (n : Nat) (id : EventId), t.roomSeq[(room, n)]? = some id →
      s.roomSeq[(room, n)]? = some id ∨ (id = new ∧ record.rejected = none ∧ n ≤ t.seq))
    (hseq : s.seq ≤ t.seq) : Rooted t := by
  have kept : ∀ {id : EventId}, (s.event[id]?).isSome → (t.event[id]?).isSome := by
    intro id known
    rw [hevent, OrdMap.getElem?_insert']
    split
    · rfl
    · exact known
  constructor
  · intro id e he prev hprev
    rw [hevent, OrdMap.getElem?_insert'] at he
    split at he
    · obtain rfl := Option.some.inj he
      exact kept (held prev hprev)
    · exact kept (base.closed id e he prev hprev)
  · intro room n id row
    obtain old | ⟨rfl, accepted, bound⟩ := hrows room n id row
    · obtain ⟨bound, e, he, accepted⟩ := base.rows room n id old
      refine ⟨bound.trans hseq, e, ?_, accepted⟩
      rw [hevent, OrdMap.getElem?_insert', if_neg, he]
      rintro rfl
      simp [absent] at he
    · exact ⟨bound, record, by simp [hevent], accepted⟩

theorem accepted_insert (base : Rooted s)
    (absent : s.event[cmd.eventId]? = none) (happended : Appended s cmd t) (room : RoomId)
    (id : EventId) :
    t.Accepted room id ↔ s.Accepted room id ∨ (id = cmd.eventId ∧ room = cmd.roomId) := by
  have record : ∀ {id : EventId}, id ≠ cmd.eventId → t.event[id]? = s.event[id]? := by
    intro id hid
    rw [happended.event, OrdMap.getElem?_insert', if_neg hid]
  have row : ∀ n : Nat, t.roomSeq[(room, n)]? =
      if room = cmd.roomId ∧ n = s.seq + 1 then some cmd.eventId else s.roomSeq[(room, n)]? := by
    intro n
    rw [happended.roomSeq, OrdMap.getElem?_insert']
    simp only [Prod.mk.injEq]
  constructor
  · rintro ⟨⟨e, he, accepted⟩, n, hn⟩
    rw [row] at hn
    split at hn
    · rename_i hrow
      exact .inr ⟨(Option.some.inj hn).symm, hrow.1⟩
    · obtain ⟨-, e', he', _⟩ := base.rows room n id hn
      have hid : id ≠ cmd.eventId := by
        rintro rfl
        simp [absent] at he'
      exact .inl ⟨⟨e, record hid ▸ he, accepted⟩, n, hn⟩
  · rintro (⟨⟨e, he, accepted⟩, n, hn⟩ | ⟨rfl, rfl⟩)
    · have hid : id ≠ cmd.eventId := by
        rintro rfl
        simp [absent] at he
      obtain ⟨bound, -⟩ := base.rows room n id hn
      refine ⟨⟨e, (record hid).trans he, accepted⟩, n, ?_⟩
      rw [row, if_neg (by omega), hn]
    · exact ⟨⟨acceptedRecord cmd (s.seq + 1), by simp [happended.event], rfl⟩, s.seq + 1,
        by simp [row]⟩

theorem tip_insert (base : Rooted s) (absent : s.event[cmd.eventId]? = none)
    (held : ∀ prev ∈ prevEventIds cmd.raw, (s.event[prev]?).isSome)
    (happended : Appended s cmd t) (room : RoomId) (id : EventId) :
    t.Tip room id ↔ if room = cmd.roomId then
      id = cmd.eventId ∨ (s.Tip room id ∧ ¬ Behind s (prevEventIds cmd.raw) id)
    else s.Tip room id := by
  obtain ⟨old, new⟩ := ancestor_insert base absent held happended.event
  have accepted := accepted_insert base absent happended room
  have stored : ∀ {a : EventId}, s.Accepted room a → a ≠ cmd.eventId := by
    rintro a ⟨⟨e, he, _⟩, _⟩ rfl
    simp [absent] at he
  -- The new event is behind no event that was there.
  have unlisted : ∀ a, a ≠ cmd.eventId → ¬ Ancestor s a cmd.eventId := by
    intro a _ h
    obtain ⟨b, _, e, he, hb⟩ := Relation.TransGen.tail'_iff.1 h
    simpa [absent] using base.closed b e he _ hb
  unfold Store.Tip
  rw [accepted id]
  split
  · rename_i hroom
    constructor
    · rintro ⟨(hid | ⟨rfl, -⟩), behind⟩
      · refine .inr ⟨⟨hid, fun other hother hne h => ?_⟩, fun h => ?_⟩
        · exact behind other ((accepted other).2 (.inl hother)) hne
            ((old other id (stored hother)).2 h)
        · exact behind cmd.eventId ((accepted _).2 (.inr ⟨rfl, hroom⟩)) (stored hid).symm
            ((new id).2 h)
      · exact .inl rfl
    · rintro (rfl | ⟨⟨hid, behind⟩, notBehind⟩)
      · refine ⟨.inr ⟨rfl, hroom⟩, fun other _ hne h => ?_⟩
        exact unlisted other hne ((old other _ hne).1 h)
      · refine ⟨.inl hid, fun other hother hne h => ?_⟩
        obtain hother | ⟨rfl, -⟩ := (accepted other).1 hother
        · exact behind other hother hne ((old other id (stored hother)).1 h)
        · exact notBehind ((new id).1 h)
  · rename_i hroom
    simp only [accepted, hroom, and_false, or_false]
    refine and_congr_right fun _ => forall₂_congr fun other hother => ?_
    rw [old other id (stored hother)]

end NewEvent

/-! ## The step -/

theorem mem_newExtremities {roomMeta : Option RoomMeta} {event : IdentifiedPdu} {id : EventId} :
    id ∈ (newExtremities roomMeta event).toList ↔ id = event.eventId ∨
      (id ∈ (roomMeta.map RoomMeta.extremities).getD [] ∧ id ∉ Event.prevEvents event) := by
  have erased : ∀ (l : List EventId) (ext : OrdSet EventId),
      id ∈ l.foldl (fun ext id => ext.erase id) ext ↔ id ∈ ext ∧ id ∉ l := by
    intro l
    induction l with
    | nil => simp
    | cons a l ih =>
      intro ext
      rw [List.foldl_cons, ih, ExtTreeSet.mem_erase, List.mem_cons, not_or]
      have : compare a id ≠ .eq ↔ ¬ id = a :=
        not_congr (LawfulEqOrd.compare_eq_iff_eq.trans eq_comm)
      rw [this]
      tauto
  rw [OrdSet.mem_toList', newExtremities, OrdSet.mem_insert', erased, OrdSet.mem_extend]
  simp

variable {s t : Store}

theorem extremities_insert {room : RoomId} {roomMeta : RoomMeta}
    (hroom : t.room = s.room.insert room roomMeta) (r : RoomId) :
    t.extremities r = if r = room then roomMeta.extremities else s.extremities r := by
  unfold Store.extremities
  rw [hroom, OrdMap.getElem?_insert']
  split <;> rfl

variable {cmd : AppendEvent}

theorem extremities_appended (h : Appended s cmd t) (room : RoomId) :
    t.extremities room = if room = cmd.roomId then cmd.newExtremities else s.extremities room := by
  obtain ⟨roomMeta, hmeta, hroom⟩ := h.room
  have same : roomMeta.extremities = cmd.newExtremities := by
    unfold acceptedMeta at hmeta
    split at hmeta
    · exact Except.ok.inj hmeta ▸ rfl
    · split at hmeta
      · simp at hmeta
      · exact Except.ok.inj hmeta ▸ rfl
  rw [extremities_insert hroom, same]

theorem extremities_applyRejected (s : Store) (cmd : AppendEvent) (rejected : Rejected)
    (room : RoomId) : (applyRejected s cmd rejected).extremities room = s.extremities room := by
  unfold Store.extremities
  cases known : s.room[cmd.roomId]? with
  | none => rw [Machine.applyRejected_unknown known]
  | some m =>
    rw [Machine.applyRejected_room known]
    split
    · rename_i hroom
      rw [hroom, known]
      rfl
    · rfl

theorem retiresTips_iff {s : Store} (tips : TipsOnly s) (room : RoomId) (prevs : List EventId) :
    RetiresTips s room prevs ↔ ∀ id ∈ s.extremities room, Behind s prevs id → id ∈ prevs := by
  constructor
  · rintro h id hid ⟨prev, hprev, rfl | path⟩
    · exact hprev
    · obtain rfl | hidden := Graph.transGen_avoids ((tips room id).1 hid).2 path
      · exact hprev
      · exact h id hid prev hprev hidden
  · intro h id hid prev hprev hidden
    exact h id hid ⟨prev, hprev, .inr (Relation.TransGen.mono (fun _ _ edge => edge.2) _ _ hidden)⟩

theorem tips_accepted_iff (base : Rooted s) (tips : TipsOnly s) (absent : s.event[cmd.eventId]? = none)
    (held : ∀ prev ∈ prevEventIds cmd.raw, (s.event[prev]?).isSome)
    (listed : ∀ id, id ∈ cmd.newExtremities ↔ id = cmd.eventId ∨
      (id ∈ s.extremities cmd.roomId ∧ id ∉ prevEventIds cmd.raw)) (happended : Appended s cmd t) :
    TipsOnly t ↔ RetiresTips s cmd.roomId (prevEventIds cmd.raw) := by
  have step := tip_insert base absent held happended
  rw [retiresTips_iff tips]
  constructor
  · intro h id hid behind
    have hne : id ≠ cmd.eventId := by
      rintro rfl
      obtain ⟨⟨⟨e, he, _⟩, _⟩, _⟩ := (tips _ _).1 hid
      simp [absent] at he
    by_contra hprev
    have hin : id ∈ t.extremities cmd.roomId := by
      rw [extremities_appended happended, if_pos rfl, listed]
      exact .inr ⟨hid, hprev⟩
    have htip := (step cmd.roomId id).1 ((h cmd.roomId id).1 hin)
    rw [if_pos rfl] at htip
    obtain heq | ⟨_, notBehind⟩ := htip
    · exact hne heq
    · exact notBehind behind
  · intro h room id
    rw [extremities_appended happended, step]
    split
    · rename_i hroom
      subst hroom
      rw [listed]
      refine or_congr_right ?_
      rw [← tips cmd.roomId id]
      refine and_congr_right fun hid => not_congr ⟨fun hprev => ⟨id, hprev, .inl rfl⟩, h id hid⟩
    · exact tips room id

theorem accepted_applyRejected {s : Store} {rejected : Rejected}
    (absent : s.event[cmd.eventId]? = none) (room : RoomId) (id : EventId) :
    (applyRejected s cmd rejected).Accepted room id ↔ s.Accepted room id := by
  unfold Store.Accepted
  rw [(applyRejected_frame s cmd rejected).1, applyRejected_event, OrdMap.getElem?_insert']
  refine and_congr_left fun _ => ?_
  split
  · rename_i hid
    simp [hid, absent, rejectedRecord]
  · rfl

theorem tips_rejected {s : Store} {rejected : Rejected} (base : Rooted s)
    (tips : TipsOnly s) (absent : s.event[cmd.eventId]? = none)
    (held : ∀ prev ∈ prevEventIds cmd.raw, (s.event[prev]?).isSome) :
    TipsOnly (applyRejected s cmd rejected) := by
  obtain ⟨old, -⟩ := ancestor_insert base absent held applyRejected_event
  intro room id
  rw [extremities_applyRejected, tips]
  unfold Store.Tip
  rw [accepted_applyRejected absent]
  refine and_congr_right fun _ => forall_congr' fun other => ?_
  rw [accepted_applyRejected absent]
  refine forall_congr' fun ⟨⟨e, he, _⟩, _⟩ => ?_
  rw [old other id]
  rintro rfl
  simp [absent] at he

theorem rooted_append {a : AppendEvent} (base : Rooted s)
    (held : ∀ prev ∈ prevEventIds a.raw, (s.event[prev]?).isSome)
    (heff : Effect s (.append a) t) : Rooted t := by
  cases heff with
  | idle => exact base
  | @rejected _ rejected absent _ =>
    obtain ⟨hrows, -, hseq, -⟩ := applyRejected_frame s a rejected
    exact base.insert absent held applyRejected_event (fun room n id row => .inl (hrows ▸ row)) hseq.ge
  | accepted absent _ happly =>
    have happended := applyAccepted_spec happly
    refine base.insert absent held happended.event (fun room n id row => ?_) (by simp [happended.seq])
    rw [happended.roomSeq, OrdMap.getElem?_insert'] at row
    split at row
    · rename_i hrow
      obtain ⟨-, rfl⟩ := Prod.mk.inj hrow
      exact .inr ⟨(Option.some.inj row).symm, rfl, happended.seq.ge⟩
    · exact .inl row

/-! ## Runs -/

/-- The command is what the pipeline computes for a submitted event, and an event it accepts retires
the tips behind it. -/
def SubmitsRetiring (s : Store) (cmd : RoomCommand) : Prop :=
  Submits (fun _ _ _ _ _ _ => True) s cmd ∧
    ∀ a, plain cmd = .append a → a.rejected = none → RetiresTips s a.roomId (prevEventIds a.raw)

theorem processInner_append {ruma : Ruma} {keys : PublicKeyMap} {s : Store} {fuel : Nat}
    {raw : JsonObject} {version : RoomVersion} {room : RoomId}
    {isCreate relay rejectMissingAuth : Bool} {d : Decision}
    (h : processInner ruma keys s fuel raw version room isCreate relay rejectMissingAuth =
      .ok (.inr d)) : s.event[d.cmd.eventId]? = none ∧
      (∀ prev ∈ prevEventIds d.cmd.raw, (s.event[prev]?).isSome) ∧
      (d.cmd.rejected = none → ∀ id, id ∈ d.cmd.newExtremities ↔ id = d.cmd.eventId ∨
        (id ∈ s.extremities d.cmd.roomId ∧ id ∉ prevEventIds d.cmd.raw)) := by
  obtain ⟨raw', pdu, id, hvet, _, absent, _, hjudged⟩ := processInner_cases h
  have cited : prevEventIds raw' = Event.prevEvents (⟨id, pdu⟩ : IdentifiedPdu) :=
    (vet_views hvet).1.prevEvents.symm
  cases hjudged with
  | chainRejected prevs =>
    exact ⟨absent, fun p hp => fetchPrevs_held prevs p (cited ▸ hp), by simp [rejectedCommand]⟩
  | stateRejected passed =>
    exact ⟨absent, fun p hp => fetchPrevs_held passed.prevs p (cited ▸ hp),
      by simp [rejectedCommand]⟩
  | accepted passed =>
    refine ⟨absent, fun p hp => fetchPrevs_held passed.prevs p (cited ▸ hp), fun _ x => ?_⟩
    change x ∈ (newExtremities s.room[room]? ⟨id, pdu⟩).toList ↔
      x = id ∨ (x ∈ s.extremities room ∧ x ∉ prevEventIds raw')
    rw [mem_newExtremities, cited]
    rfl

theorem retiring_effect {cmd : RoomCommand} (h : Rooted s ∧ TipsOnly s)
    (retiring : SubmitsRetiring s cmd) (heff : Effect s (plain cmd) t) :
    Rooted t ∧ TipsOnly t := by
  obtain ⟨base, tips⟩ := h
  obtain ⟨⟨server, raw, version, room, isCreate, relay, reject, fuel, d, _, _, _, hp, hplain⟩,
    retires⟩ := retiring
  obtain ⟨absent, held, listed⟩ := processInner_append hp
  rw [hplain] at heff
  refine ⟨rooted_append base held heff, ?_⟩
  cases heff with
  | idle => exact tips
  | rejected _ _ => exact tips_rejected base tips absent held
  | accepted _ hrejected happly =>
    exact (tips_accepted_iff base tips absent held (listed hrejected) (applyAccepted_spec happly)).2
      (retires d.cmd hplain hrejected)

theorem rooted_onCore : OnCore Rooted :=
  fun _ => ⟨fun h => ⟨h.closed, h.rows⟩, fun h => ⟨h.closed, h.rows⟩⟩

theorem rooted_empty : Rooted Store.empty := by
  refine ⟨fun id e he => ?_, fun room n id row => ?_⟩
  · simp [Store.empty] at he
  · simp [Store.empty] at row

/-- **The extremities are the tips.** Where every accepted event of a run retires the tips behind it,
a room's extremities are its accepted events that are no ancestor of another one. -/
theorem extremities_are_tips {s : Store} (run : Runs SubmitsRetiring Store.empty s) (room : RoomId) :
    (∀ id, id ∈ s.extremities room ↔ s.Tip room id) ∧
      ∀ a ∈ s.extremities room, ∀ b ∈ s.extremities room, b ≠ a → ¬ Ancestor s b a := by
  have empty : Rooted Store.empty ∧ TipsOnly Store.empty := by
    refine ⟨rooted_empty, fun room id => ⟨fun h => ?_, fun h => ?_⟩⟩
    · simp [Store.extremities, Store.empty] at h
    · obtain ⟨⟨⟨e, he, _⟩, _⟩, _⟩ := h
      simp [Store.empty] at he
  have onCore : OnCore fun s => Rooted s ∧ TipsOnly s :=
    fun s => and_congr (rooted_onCore s) Iff.rfl
  obtain ⟨-, tips⟩ := Runs.invariant onCore (fun _ _ _ h hP heff => retiring_effect h hP heff) run empty
  refine ⟨tips room, fun a ha b hb hne => ?_⟩
  exact ((tips room a).1 ha).2 b ((tips room b).1 hb).1 hne

def namesTips (s : Store) (cmd : RoomCommand) : Bool :=
  match plain cmd with
  | .append a => a.rejected.isSome || (s.extremities a.roomId).all (prevEventIds a.raw).contains
  | _ => false

def appends (_ : Store) (cmd : RoomCommand) : Bool :=
  match plain cmd with
  | .append _ => true
  | _ => false

def sampleReply (prevs : List EventId) : JsonObject :=
  Ruma.samplePdu "m" "m.room.message" none "@a:x" [] ["$c", "$j"] prevs 4

def sampleReplies (prevs : List EventId) : List Call :=
  [.ingest Ruma.sampleCreate false, .ingest Ruma.sampleJoin false, .ingest sampleIntruder false,
    .ingest (sampleReply prevs) false]

/-- The reply names the tip and the rejected event. -/
theorem extremities_are_tips_reply : ∃ s : Store, s.isRejected "$i" ∧
    s.extremities "!r:x" = ["$m"] ∧ ∀ id, id ∈ s.extremities "!r:x" ↔ s.Tip "!r:x" id := by
  have h : ((Server.sample ["x"]).serveAll (fun s cmd => namesTips s cmd = true) 9 Store.empty
      (sampleReplies ["$i", "$j"])).any (fun s => s.isRejected "$i" &&
        s.extremities "!r:x" == ["$m"]) = true := by decide +kernel
  obtain ⟨s, hs, hp⟩ := (Option.any_eq_true _ _).1 h
  rw [Bool.and_eq_true, beq_iff_eq] at hp
  have run : Runs SubmitsRetiring Store.empty s := by
    refine (serveAll_submits (Server.sample_lawful ["x"]) (fun s cmd hP => ?_)
      (fun _ _ _ _ _ _ _ _ _ _ _ _ _ => trivial) hs).mono fun s cmd ⟨submits, named⟩ =>
        ⟨submits, fun a hplain accepted id hid _ _ _ => ?_⟩
    · unfold namesTips at hP
      split at hP
      · rename_i a ha
        exact ⟨a, ha⟩
      · simp at hP
    · simp only [namesTips, hplain, accepted, Option.isSome_none, Bool.false_or,
        List.all_eq_true] at named
      simpa using named id hid
  exact ⟨s, hp.1, hp.2, (extremities_are_tips run "!r:x").1⟩

/-- The reply names the rejected event only: the join stays an extremity, though it is an ancestor of
the reply. -/
theorem rejected_prev_keeps_extremity : ∃ s : Store,
    Runs (Submits fun _ _ _ _ _ _ => True) Store.empty s ∧ s.isRejected "$i" ∧
      "$j" ∈ s.extremities "!r:x" ∧ "$m" ∈ s.extremities "!r:x" ∧ s.Accepted "!r:x" "$m" ∧
      Ancestor s "$m" "$j" ∧ ¬ s.Tip "!r:x" "$j" := by
  have h : ((Server.sample ["x"]).serveAll (fun s cmd => appends s cmd = true) 9 Store.empty
      (sampleReplies ["$i"])).any (fun s => s.isRejected "$i" &&
        s.extremities "!r:x" == ["$j", "$m"] && s.roomSeq[("!r:x", 3)]? == some "$m" &&
        ((s.event["$m"]?).any fun e => e.rejected.isNone && "$i" ∈ prevEventIds e.raw) &&
        ((s.event["$i"]?).any fun e => "$j" ∈ prevEventIds e.raw)) = true := by decide +kernel
  obtain ⟨s, hs, hp⟩ := (Option.any_eq_true _ _).1 h
  simp only [Bool.and_eq_true, beq_iff_eq, Option.any_eq_true, Option.isNone_iff_eq_none,
    decide_eq_true_eq] at hp
  obtain ⟨⟨⟨⟨rejected, tips⟩, row⟩, reply, hreply, accepted, hi⟩, intruder, hintruder, hj⟩ := hp
  have behind : Ancestor s "$m" "$j" := .head ⟨reply, hreply, hi⟩ (.single ⟨intruder, hintruder, hj⟩)
  have landed : s.Accepted "!r:x" "$m" := ⟨⟨reply, hreply, accepted⟩, 3, row⟩
  refine ⟨s, ?_, rejected, by simp [tips], by simp [tips], landed, behind, fun tip => ?_⟩
  · refine (serveAll_submits (Server.sample_lawful ["x"]) (fun s cmd hP => ?_)
      (fun _ _ _ _ _ _ _ _ _ _ _ _ _ => trivial) hs).mono fun _ _ => And.left
    unfold appends at hP
    split at hP
    · rename_i a ha
      exact ⟨a, ha⟩
    · simp at hP
  · exact tip.2 "$m" landed (by decide) behind

end Saltator.Room
