import Saltator.Room.Runs

/-!
# Redactions and the order they arrive in

A redaction of a stored event is decided at once. One that overtook its target waits as pending, and
a target has a single slot for it: a redaction by someone with the redact power level takes the slot
from whoever has it, any other one takes it only when it is free. The slot is judged when the target
has arrived, and the redactions that lost it are forgotten. So the target is redacted exactly when a
valid redaction arrives after it or the one in the slot is valid (`Tracks.redactedBy_isSome`).
-/

namespace Saltator.Room

open Std
open Saltator.Outcome
open Machine (plain redactTable putRedact)
open Pipeline
open StateRes (StateIds)

def namedTarget (ruma : Ruma) (event : IdentifiedPdu) : Option EventId :=
  if Event.eventType event = "m.room.redaction" then
    (strProp (Event.content event) "redacts").filter ruma.isEventId
  else none

/-- An accepted event: its id and body as they are stored, the event it redacts, and whether its
sender held the redact power level in the state before it. -/
structure Submission where
  id : EventId
  raw : JsonObject
  redacts : Option EventId
  mayRedact : Bool

def submissionOf (ruma : Ruma) (s : Store) (version : RoomVersion) (pdu : Pdu) (d : Decision) :
    Submission :=
  let event : IdentifiedPdu := ⟨d.cmd.eventId, pdu⟩
  { id := d.cmd.eventId
    raw := d.cmd.raw
    redacts := namedTarget ruma event
    mayRedact :=
      (senderMayRedact ruma version event d.before (fetchFor ruma s event)).toOption == some true }

/-- The redaction may redact an event with this body: it is of the same room, and by the same sender
or by someone with the redact power level. -/
def MayRedact (target : JsonObject) (r : Submission) : Prop :=
  (strProp target "room_id").isSome ∧ strProp r.raw "room_id" = strProp target "room_id" ∧
    (strProp r.raw "sender" = strProp target "sender" ∨ r.mayRedact = true)

instance (target : JsonObject) (r : Submission) : Decidable (MayRedact target r) :=
  inferInstanceAs (Decidable (_ ∧ _ ∧ _))

def Valid (t r : Submission) : Prop := r.redacts = some t.id ∧ MayRedact t.raw r

instance (t r : Submission) : Decidable (Valid t r) := inferInstanceAs (Decidable (_ ∧ _))

/-- Who holds the target's slot after these submissions: the last redaction with the redact power
level, or else the first redaction. -/
def winner (target : EventId) (log : List Submission) : Option Submission :=
  let naming := log.filter fun r => r.redacts = some target
  (naming.filter Submission.mayRedact).getLast?.or naming.head?

/-- The pipeline accepts an event and computes this append. -/
inductive Accepts (server : Server) (s : Store) : Submission → AppendEvent → Prop
  | mk {raw raw' : JsonObject} {version : RoomVersion} {room : RoomId}
      {isCreate relay rejectMissingAuth : Bool} {fuel : Nat} {pdu : Pdu} {d : Decision}
      (routed : Routed server s raw version room isCreate)
      (h : processInner server.ruma server.keys s fuel raw version room isCreate relay
        rejectMissingAuth = .ok (.inr d))
      (hvet : vet server.ruma server.keys version raw = .ok (raw', pdu))
      (accepted : d.cmd.rejected = none) :
      Accepts server s (submissionOf server.ruma s version pdu d) d.cmd

/-- Events appended one after another, with the accepted ones in the order they arrived. -/
inductive Appends (start : Store) : List Submission → Store → Prop
  | nil : Appends start [] start
  | accepted {log : List Submission} {engine s s' : Store} {server : Server} {r : Submission}
      {a : AppendEvent} {cmd : RoomCommand} {response : RoomResponse}
      (before : Appends start log s) (lawful : server.Lawful) (h : Accepts server s r a)
      (hplain : plain cmd = .append a) (happly : Machine.apply engine s cmd = .ok (s', response)) :
      Appends start (log ++ [r]) s'
  | rejected {log : List Submission} {engine s s' : Store} {server : Server} {a : AppendEvent}
      {cmd : RoomCommand} {response : RoomResponse} (before : Appends start log s)
      (h : Produced server s cmd) (hplain : plain cmd = .append a)
      (hrejected : a.rejected.isSome)
      (happly : Machine.apply engine s cmd = .ok (s', response)) : Appends start log s'

/-! ## The slot -/

theorem winner_append (target : EventId) (log : List Submission) (r : Submission) :
    winner target (log ++ [r]) =
      if r.redacts = some target then
        if !r.mayRedact && (winner target log).isSome then winner target log else some r
      else winner target log := by
  unfold winner
  by_cases hr : r.redacts = some target
  · cases hm : r.mayRedact with
    | true => simp [List.filter_append, hr, hm]
    | false =>
      cases hn : log.filter fun r => r.redacts = some target with
      | nil => simp [List.filter_append, hr, hm, hn]
      | cons first naming => simp [List.filter_append, hr, hm, hn]
  · simp [List.filter_append, hr]

theorem winner_mem {target : EventId} {log : List Submission} {w : Submission}
    (h : winner target log = some w) : w ∈ log ∧ w.redacts = some target := by
  have hnaming : w ∈ log.filter fun r => r.redacts = some target := by
    unfold winner at h
    rcases Option.or_eq_some_iff.1 h with h | ⟨_, h⟩
    · exact List.mem_of_mem_filter (List.mem_of_getLast? h)
    · exact List.mem_of_head? h
  simpa using hnaming

/-! ## What the pipeline computes -/

section Pipeline

variable {server : Server} {s : Store} {raw : JsonObject} {version : RoomVersion} {room : RoomId}
  {isCreate : Bool}

theorem Routed.roomId (routed : Routed server s raw version room isCreate) (lawful : server.Lawful)
    (htype : strProp raw "type" ≠ some "m.room.create") : strProp raw "room_id" = some room := by
  have classified : ∀ {raw version room isCreate}, classify server.ruma s raw =
      .ok (version, room, isCreate) → strProp raw "type" ≠ some "m.room.create" →
      strProp raw "room_id" = some room := by
    intro raw version room isCreate h htype
    rcases classify_cases h with ⟨hshape, _⟩ | ⟨_, _, hroom, _⟩
    · simp only [createShaped, Bool.and_eq_true, beq_iff_eq] at hshape
      exact absurd hshape.1 htype
    · exact hroom
  have signed : ∀ {raw signed}, server.sign version raw = .ok signed →
      strProp signed "type" = strProp raw "type" ∧ strProp signed "room_id" = strProp raw "room_id" := by
    intro raw signed hsign
    have same := lawful.sign_lookup _ _ _ hsign
    exact ⟨strProp_congr (same "type" (by decide)), strProp_congr (same "room_id" (by decide))⟩
  cases routed with
  | ingested h => exact classified h htype
  | resident h hsign =>
    rcases hsign with rfl | hsign
    · exact classified h htype
    · obtain ⟨htype', hroom⟩ := signed hsign
      exact hroom.trans (classified h (htype' ▸ htype))
  | sent hroom hsign => exact (signed hsign).2.trans hroom
  | created hshape hsign =>
    simp only [createShaped, Bool.and_eq_true, beq_iff_eq] at hshape
    exact absurd ((signed hsign).1.trans hshape.1) htype

/-- What a redaction tells the state machine: nothing when it names no event, a pending record when
the event it names is not stored, and otherwise the decision. -/
structure Directs (s : Store) (r : Submission) (directive : Option String) : Prop where
  unnamed : r.redacts = none → directive = none
  sigil : ∀ target, r.redacts = some target → target.toList.head? = some '$'
  pending : ∀ target, r.redacts = some target → s.event[target]? = none →
    directive = some (RedactDirective.pending target r.mayRedact).encode
  settled : ∀ (target : EventId) (e : StoredEvent), r.redacts = some target →
    s.event[target]? = some e →
    directive = if e.rejected = none ∧ MayRedact e.raw r then
      some (RedactDirective.applies target).encode else none

theorem redactsOf_directs (lawful : server.ruma.Lawful) (event : IdentifiedPdu)
    (views : Pdu.Views raw event.pdu)
    (hroom : event.pdu.eventType ≠ "m.room.create" → strProp raw "room_id" = some room)
    {before : StateIds} {fetch : EventId → Option IdentifiedPdu} {directive : Option String}
    (h : redactsOf server.ruma s version room event before fetch = .ok directive) :
    Directs s ⟨event.eventId, raw, namedTarget server.ruma event,
      (senderMayRedact server.ruma version event before fetch).toOption == some true⟩ directive := by
  unfold redactsOf at h
  by_cases htype : Event.eventType event = "m.room.redaction"
  · rw [if_pos htype] at h
    have hroom' : strProp raw "room_id" = some room := by
      apply hroom
      change Event.eventType event ≠ _
      rw [htype]
      decide
    unfold redactionDirective at h
    have hnamed : namedTarget server.ruma event =
        (strProp (Event.content event) "redacts").filter server.ruma.isEventId := if_pos htype
    cases hfilter : (strProp (Event.content event) "redacts").filter server.ruma.isEventId with
    | none =>
      rw [hfilter] at h hnamed
      obtain rfl := Except.ok.inj h
      constructor <;> simp [hnamed]
    | some target =>
      rw [hfilter] at h hnamed
      have hsigil := lawful.event_id_sigil target (Option.filter_eq_some_iff.1 hfilter).2
      refine ⟨by simp [hnamed], ?_, ?_, ?_⟩
      · intro target' htarget
        obtain rfl := some_unique hnamed htarget
        exact hsigil
      · intro target' htarget absent
        obtain rfl := some_unique hnamed htarget
        simp only [absent, bind_eq_ok, pure_eq_ok] at h
        obtain ⟨mayRedact, hmay, rfl⟩ := h
        cases mayRedact <;> simp [hmay]
      · intro target' e htarget stored
        obtain rfl := some_unique hnamed htarget
        simp only [stored] at h
        by_cases hrej : e.rejected.isSome
        · rw [if_pos hrej] at h
          obtain rfl := Except.ok.inj h
          rw [if_neg]
          rintro ⟨hnone, _⟩
          simp [hnone] at hrej
        · rw [if_neg hrej, bind_eq_ok] at h
          obtain ⟨parsed, hparsed, h⟩ := h
          rw [parseStored, bind_eq_ok] at hparsed
          obtain ⟨pdu, hpdu, hparsed⟩ := hparsed
          rw [ofFormat, mapError_eq_ok] at hpdu
          obtain rfl := pure_eq_ok.1 hparsed
          have tviews := Pdu.fromCanonical_views hpdu
          have hnone : e.rejected = none := by simpa using hrej
          simp only [hnone, true_and]
          split at h
          · rename_i hother
            obtain rfl := pure_eq_ok.1 h
            rw [if_neg]
            rintro ⟨_, hsame, _⟩
            apply hother
            change pdu.roomId = some room
            rw [tviews.roomId, ← hsame, hroom']
          · rename_i hsame
            rw [not_not] at hsame
            have hsame' : strProp e.raw "room_id" = some room := tviews.roomId.symm.trans hsame
            have hsender : strProp raw "sender" = strProp e.raw "sender" ↔
                Event.sender (⟨target, pdu⟩ : IdentifiedPdu) = Event.sender event := by
              rw [views.sender, tviews.sender]
              exact ⟨fun h => (Option.some.inj h).symm, fun h => congrArg some h.symm⟩
            simp only [MayRedact, hsame', hroom', hsender, Option.isSome_some, true_and]
            split at h
            · rename_i hown
              obtain rfl := pure_eq_ok.1 h
              simp [hown]
            · rename_i hown
              obtain ⟨mayRedact, hmay, h⟩ := bind_eq_ok.1 h
              cases mayRedact with
              | false =>
                obtain rfl := pure_eq_ok.1 h
                simp [hown, hmay]
              | true =>
                obtain rfl := pure_eq_ok.1 h
                simp [hmay]
  · rw [if_neg htype] at h
    obtain rfl := Except.ok.inj h
    have hnone : namedTarget server.ruma event = none := if_neg htype
    constructor <;> simp [hnone]

theorem Accepts.spec {r : Submission} {a : AppendEvent} (lawful : server.Lawful)
    (h : Accepts server s r a) :
    a.eventId = r.id ∧ a.raw = r.raw ∧ a.rejected = none ∧ s.event[r.id]? = none ∧
      r.id.toList.head? = some '$' ∧ (strProp r.raw "sender").isSome ∧ Directs s r a.redacts := by
  obtain @⟨_, _, _, _, _, _, _, _, pdu, _, routed, hp, hvet, accepted⟩ := h
  obtain ⟨_, _, id, hvet', hid, hnew, _, hjudged⟩ := processInner_cases hp
  obtain ⟨rfl, rfl⟩ := Prod.mk.inj (ok_unique hvet hvet')
  obtain ⟨views, hkept⟩ := vet_views hvet
  have hsigil : id.toList.head? = some '$' := by
    obtain ⟨hash, _, rfl, _⟩ := Ruma.eventId_eq_ok.1 hid
    simp
  cases hjudged with
  | chainRejected => simp [rejectedCommand] at accepted
  | stateRejected => simp [rejectedCommand] at accepted
  | accepted passed hafter hcurrent hredacts =>
    refine ⟨rfl, rfl, rfl, hnew, hsigil, by simp [submissionOf, acceptedCommand, views.sender], ?_⟩
    refine redactsOf_directs lawful.ruma ⟨id, pdu⟩ views (fun htype => ?_) hredacts
    have same := (hkept lawful.ruma).1
    rw [strProp_congr (same "room_id" (by decide))]
    refine routed.roomId lawful fun hraw => htype ?_
    have := (strProp_congr (same "type" (by decide))).trans hraw
    simpa [views.eventType] using this

end Pipeline

/-! ## The table -/

theorem redactTable_target {s : Store} {r : Submission} {a : AppendEvent} (hid : a.eventId = r.id)
    (directs : Directs s r a.redacts) (target : EventId) :
    (redactTable s a)[target]? =
      if r.redacts = some target then
        match s.event[target]? with
        | none =>
          if !r.mayRedact && (s.redact[target]?).isSome then s.redact[target]?
          else some (RedactDirective.pending r.id r.mayRedact).encode
        | some e =>
          if e.rejected = none ∧ MayRedact e.raw r then some (RedactDirective.applies r.id).encode
          else s.redact[target]?
      else s.redact[target]? := by
  unfold redactTable
  cases hr : r.redacts with
  | none => simp [directs.unnamed hr]
  | some named =>
    have hsigil : named.toList.head? ≠ some '?' := by
      rw [directs.sigil named hr]
      decide
    cases he : s.event[named]? with
    | none =>
      rw [directs.pending named hr he]
      simp only [putRedact, RedactDirective.decode_pending, hid]
      by_cases hkeep : (!r.mayRedact && s.redact.contains named) = true
      · rw [if_pos hkeep]
        grind
      · rw [if_neg hkeep, OrdMap.getElem?_insert']
        grind
    | some e =>
      rw [directs.settled named e hr he]
      by_cases hmay : e.rejected = none ∧ MayRedact e.raw r
      · simp only [if_pos hmay, putRedact, RedactDirective.decode_applies hsigil, hid,
          OrdMap.getElem?_insert']
        grind
      · simp only [if_neg hmay]
        grind

/-! ## Runs -/

def pendingEntry (r : Submission) : String := (RedactDirective.pending r.id r.mayRedact).encode

/-- The store after a log, seen from one target: the accepted events are stored as they were sent;
while the target is absent its record is the slot; once it is there, the last valid redaction that
came after it has replaced the slot. -/
structure Tracks (target : EventId) (log : List Submission) (s : Store) : Prop where
  held : ∀ r ∈ log, r.id.toList.head? = some '$' ∧ (strProp r.raw "sender").isSome ∧
    ∃ e : StoredEvent, s.event[r.id]? = some e ∧ e.raw = r.raw ∧ e.rejected = none
  absent : s.event[target]? = none → s.redact[target]? = (winner target log).map pendingEntry
  arrived : ∀ before t after, log = before ++ t :: after → t.id = target → s.redact[target]? =
      (((after.filter fun r => Valid t r).getLast?.map fun r =>
        (RedactDirective.applies r.id).encode).or ((winner target (before ++ [t])).map pendingEntry))

namespace Tracks

variable {target : EventId} {log : List Submission} {s s' : Store} {a : AppendEvent}

theorem congr (h : Tracks target log s) (same : s.core = s'.core) : Tracks target log s' := by
  have hevent := Store.event_of_core same
  have hredact := Store.redact_of_core same
  exact ⟨hevent ▸ h.held, hevent ▸ hredact ▸ h.absent, hredact ▸ h.arrived⟩

theorem rejected (h : Tracks target log s) {rejected : Rejected}
    (new : s.event[a.eventId]? = none) :
    Tracks target log (Machine.applyRejected s a rejected) := by
  obtain ⟨_, _, _, hredact⟩ := Machine.applyRejected_frame s a rejected
  refine ⟨?_, ?_, ?_⟩
  · intro r hr
    obtain ⟨hsigil, hsender, e, he, hbody⟩ := h.held r hr
    refine ⟨hsigil, hsender, e, ?_, hbody⟩
    rw [Machine.applyRejected_event, OrdMap.getElem?_insert', if_neg, he]
    intro heq
    simp [heq, new] at he
  · intro hnone
    rw [hredact]
    apply h.absent
    rw [Machine.applyRejected_event, OrdMap.getElem?_insert'] at hnone
    split at hnone
    · simp at hnone
    · exact hnone
  · rw [hredact]
    exact h.arrived

theorem accepted (h : Tracks target log s) {r : Submission} {seq : Nat}
    (hid : a.eventId = r.id) (hraw : a.raw = r.raw) (new : s.event[r.id]? = none)
    (hsigil : r.id.toList.head? = some '$') (hsender : (strProp r.raw "sender").isSome)
    (directs : Directs s r a.redacts) (happly : Machine.applyAccepted s a = .ok (s', seq)) :
    Tracks target (log ++ [r]) s' := by
  have happended := Machine.applyAccepted_spec happly
  have hevent : ∀ id : EventId, s'.event[id]? =
      if id = r.id then some (Machine.acceptedRecord a (s.seq + 1)) else s.event[id]? := by
    intro id
    rw [happended.event, hid, OrdMap.getElem?_insert']
  have hredact := redactTable_target hid directs target
  rw [← happended.redact] at hredact
  refine ⟨?_, ?_, ?_⟩
  · intro q hq
    rw [hevent]
    rcases List.mem_append.1 hq with hq | hq
    · obtain ⟨hqsigil, hqsender, e, he, hbody⟩ := h.held q hq
      refine ⟨hqsigil, hqsender, e, ?_, hbody⟩
      rw [if_neg, he]
      intro heq
      simp [heq, new] at he
    · obtain rfl := List.mem_singleton.1 hq
      exact ⟨hsigil, hsender, _, if_pos rfl, hraw, rfl⟩
  · intro hnone
    have hold : s.event[target]? = none := by
      rw [hevent] at hnone
      split at hnone
      · simp at hnone
      · exact hnone
    rw [hredact, hold, h.absent hold, winner_append]
    grind [pendingEntry]
  · intro before t after hlog ht
    subst ht
    rcases List.eq_nil_or_concat after with rfl | ⟨after, last, rfl⟩
    · obtain ⟨rfl, hlast⟩ := List.append_inj' hlog rfl
      obtain rfl := List.head_eq_of_cons_eq hlast
      rw [hredact, new, h.absent new, winner_append]
      grind [pendingEntry]
    · have hsplit : log ++ [r] = (before ++ t :: after) ++ [last] := by simpa using hlog
      obtain ⟨rfl, hlast⟩ := List.append_inj' hsplit rfl
      obtain rfl := List.head_eq_of_cons_eq hlast
      obtain ⟨_, _, e, he, hbody, hnone⟩ := h.held t (by simp)
      rw [hredact, he, h.arrived before t after rfl rfl]
      simp only [List.concat_eq_append, List.filter_append, List.filter_singleton, hbody, hnone, true_and]
      by_cases hvalid : Valid t r
      · simp [hvalid, hvalid.1, hvalid.2]
      · have hnot : ¬ (r.redacts = some t.id ∧ MayRedact t.raw r) := hvalid
        simp only [hvalid, decide_false]
        grind

theorem redactedBy_isSome {before after : List Submission} {t : Submission}
    (h : Tracks t.id (before ++ t :: after) s) :
    (s.redactedBy t.id).isSome ↔ (∃ r ∈ after, Valid t r) ∨
      ∃ w, winner t.id (before ++ [t]) = some w ∧ Valid t w := by
  obtain ⟨_, hsender, e, he, hbody, hnone⟩ := h.held t (by simp)
  obtain ⟨sender, hsender⟩ := Option.isSome_iff_exists.1 hsender
  have hentry := h.arrived before t after rfl rfl
  cases hlast : (after.filter fun r => Valid t r).getLast? with
  | some r =>
    rw [hlast] at hentry
    have hr := List.mem_of_getLast? hlast
    simp only [List.mem_filter, decide_eq_true_eq] at hr
    have hsigil : r.id.toList.head? ≠ some '?' := by
      rw [(h.held r (by simp [hr.1])).1]
      decide
    refine iff_of_true ?_ (.inl ⟨r, hr.1, hr.2⟩)
    rw [Store.redactedBy, hentry]
    simp [RedactDirective.decode_applies hsigil]
  | none =>
    rw [hlast] at hentry
    have hlate : ¬ ∃ r ∈ after, Valid t r := by
      rintro ⟨r, hr, hvalid⟩
      have hmem : r ∈ after.filter fun r => Valid t r := by simp [hr, hvalid]
      rw [List.getLast?_eq_none_iff.1 hlast] at hmem
      simp at hmem
    cases hwinner : winner t.id (before ++ [t]) with
    | none =>
      rw [hwinner] at hentry
      refine iff_of_false ?_ (by simp [hlate])
      rw [Store.redactedBy, hentry]
      simp
    | some w =>
      rw [hwinner] at hentry
      obtain ⟨hw, hnames⟩ := winner_mem hwinner
      obtain ⟨_, _, ew, hew, hwbody, _⟩ := h.held w (by grind)
      have hdecide : s.redactedBy t.id = if MayRedact t.raw w then some w.id else none := by
        rw [Store.redactedBy, hentry]
        simp only [Option.map_none, Option.none_or, Option.map_some, pendingEntry,
          RedactDirective.decode_pending, he, hew, hnone, hbody, hwbody, hsender, MayRedact]
        generalize strProp t.raw "room_id" = room
        cases room <;> grind
      have hvalid : Valid t w ↔ MayRedact t.raw w := and_iff_right hnames
      rw [hdecide]
      grind

end Tracks

theorem Appends.tracks {start s : Store} {log : List Submission} {target : EventId}
    (run : Appends start log s) (hredact : start.redact[target]? = none) : Tracks target log s := by
  induction run with
  | nil => exact ⟨by simp, fun _ => by simpa [winner] using hredact, by simp⟩
  | @accepted log engine s s' server r a cmd response before lawful h hplain happly ih =>
    obtain ⟨hid, hraw, haccepted, new, hsigil, hsender, directs⟩ := h.spec lawful
    obtain ⟨t, same, hcase⟩ := Machine.apply_append_cases hplain happly (hid ▸ new)
    rcases hcase with ⟨rejected, hrejected, _⟩ | ⟨_, seq, happly⟩
    · simp [haccepted] at hrejected
    · exact (ih.accepted hid hraw new hsigil hsender directs happly).congr same
  | @rejected log engine s s' server a cmd response before h hplain hrejected happly ih =>
    have new : s.event[a.eventId]? = none := by
      cases h with
      | append routed hp =>
        obtain ⟨_, _, id, _, _, hnew, _, hjudged⟩ := processInner_cases hp
        obtain rfl := RoomCommand.append.inj hplain
        cases hjudged <;> exact hnew
      | stamped routed hp =>
        obtain ⟨_, _, id, _, _, hnew, _, hjudged⟩ := processInner_cases hp
        obtain rfl := RoomCommand.append.inj hplain
        cases hjudged <;> exact hnew
      | _ => simp [plain] at hplain
    obtain ⟨t, same, hcase⟩ := Machine.apply_append_cases hplain happly new
    rcases hcase with ⟨_, _, rfl⟩ | ⟨hnone, _⟩
    · exact (ih.rejected new).congr same
    · simp [hnone] at hrejected

/-- **When the order of arrival does not matter.** After any events appended in any order, among
them the target, the target is redacted exactly if some redaction of it is valid, if and only if a
valid one arrived after the target, or none arrived before it, or the one that held the target's
slot when it arrived is valid. -/
theorem redaction_order {start s : Store} {before after : List Submission} {t : Submission}
    (run : Appends start (before ++ t :: after) s) (hredact : start.redact[t.id]? = none) :
    ((s.redactedBy t.id).isSome ↔ ∃ r ∈ before ++ t :: after, Valid t r) ↔
      (∃ r ∈ after, Valid t r) ∨ (∀ r ∈ before ++ [t], ¬ Valid t r) ∨
        ∃ w, winner t.id (before ++ [t]) = some w ∧ Valid t w := by
  rw [(run.tracks hredact).redactedBy_isSome]
  have hwinner : ∀ w, winner t.id (before ++ [t]) = some w → w ∈ before ++ [t] :=
    fun w hw => (winner_mem hw).1
  grind

/-! ## Evaluated runs -/

/-- Ingest an event that is accepted. -/
def Server.submit (server : Server) (fuel : Nat) (s : Store) (raw : JsonObject) :
    Option (Submission × Store) := do
  let (version, room, isCreate) ← (classify server.ruma s raw).toOption
  let (_, pdu) ← (vet server.ruma server.keys version raw).toOption
  let outcome ← (processInner server.ruma server.keys s fuel raw version room isCreate false
    false).toOption
  let d ← outcome.getRight?
  if d.cmd.rejected.isSome then none
  else
    let (s', _) ← (Machine.apply s s (.append d.cmd)).toOption
    return (submissionOf server.ruma s version pdu d, s')

def Server.submitAll (server : Server) (fuel : Nat) :
    Store → List JsonObject → Option (List Submission × Store)
  | s, [] => some ([], s)
  | s, raw :: raws => do
    let (r, s) ← server.submit fuel s raw
    let (log, s) ← server.submitAll fuel s raws
    return (r :: log, s)

section Submit

variable {server : Server} {fuel : Nat} {start s s' : Store} {log : List Submission}

theorem Appends.submit (run : Appends start log s) (lawful : server.Lawful) {raw : JsonObject}
    {r : Submission} (h : server.submit fuel s raw = some (r, s')) :
    Appends start (log ++ [r]) s' := by
  simp only [Server.submit, Option.bind_eq_bind, Option.bind_eq_some_iff, toOption_eq_some,
    Prod.exists] at h
  obtain ⟨version, room, isCreate, hclass, raw', pdu, hvet, outcome, hp, d, hd, h⟩ := h
  obtain rfl := Sum.getRight?_eq_some_iff.1 hd
  split at h
  · simp at h
  · rename_i hrejected
    simp only [Option.bind_eq_some_iff, toOption_eq_some, Prod.exists] at h
    obtain ⟨t, response, happly, h⟩ := h
    obtain ⟨rfl, rfl⟩ := some_pair h
    exact .accepted run lawful (.mk (.ingested hclass) hp hvet (by simpa using hrejected)) rfl happly

theorem Appends.submitAll (run : Appends start log s) (lawful : server.Lawful)
    {raws : List JsonObject} {later : List Submission}
    (h : server.submitAll fuel s raws = some (later, s')) : Appends start (log ++ later) s' := by
  induction raws generalizing log s later with
  | nil =>
    obtain ⟨rfl, rfl⟩ := some_pair h
    simpa using run
  | cons raw raws ih =>
    simp only [Server.submitAll, Option.bind_eq_bind, Option.bind_eq_some_iff, Prod.exists] at h
    obtain ⟨r, t, hfirst, rest, u, hrest, h⟩ := h
    obtain ⟨rfl, rfl⟩ := some_pair h
    simpa using ih (run.submit lawful hfirst) hrest

theorem exists_appends (raws : List JsonObject) (target : JsonObject)
    (p : List Submission → Submission → Store → Bool)
    (h : ((Server.sample ["x"]).submitAll 30 Store.empty raws).any (fun r =>
      ((Server.sample ["x"]).submit 30 r.2 target).any fun q => p r.1 q.1 q.2) = true) :
    ∃ before t s, Appends Store.empty (before ++ [t]) s ∧ p before t s = true := by
  obtain ⟨⟨before, s⟩, hs, h⟩ := (Option.any_eq_true _ _).1 h
  obtain ⟨⟨t, s'⟩, ht, hp⟩ := (Option.any_eq_true _ _).1 h
  have lawful := Server.sample_lawful ["x"]
  exact ⟨before, t, s', (Appends.nil.submitAll lawful hs).submit lawful ht, hp⟩

end Submit

def sampleRedaction (hash : String) (sender : UserId) (authEvents prevEvents : List EventId) : JsonObject :=
  Ruma.samplePdu hash "m.room.redaction" none sender [("redacts", .string "$t")] authEvents prevEvents 6

def sampleTarget (sender : UserId) (authEvents prevEvents : List EventId) : JsonObject :=
  Ruma.samplePdu "t" "m.room.message" none sender [] authEvents prevEvents 6

theorem redaction_order_overtaken : ∃ before t s, Appends Store.empty (before ++ [t]) s ∧
    t.id = "$t" ∧ (∃ r ∈ before, Valid t r) ∧ (s.redactedBy "$t").isSome := by
  obtain ⟨before, t, s, run, hp⟩ := exists_appends
    [Ruma.sampleCreate, Ruma.sampleJoin, sampleRedaction "r" "@a:x" ["$c", "$j"] ["$j"]]
    (sampleTarget "@a:x" ["$c", "$j"] ["$j"])
    (fun before t _ => t.id = "$t" ∧ (winner "$t" (before ++ [t])).any (fun w => Valid t w) ∧
      before.any fun r => Valid t r) (by decide +kernel)
  obtain ⟨hid, hwinner, hvalid⟩ := of_decide_eq_true hp
  obtain ⟨w, hw, hwvalid⟩ := (Option.any_eq_true _ _).1 hwinner
  obtain ⟨r, hr, hrvalid⟩ := List.any_eq_true.1 hvalid
  have redacted := (redaction_order run (by simp [Store.empty])).2
    (.inr (.inr ⟨w, hid ▸ hw, of_decide_eq_true hwvalid⟩))
  exact ⟨before, t, s, run, hid, ⟨r, hr, of_decide_eq_true hrvalid⟩,
    hid ▸ redacted.2 ⟨r, by simp [hr], of_decide_eq_true hrvalid⟩⟩

/-- Two redactions overtake their target: the first by a user who may not redact it, the second by
its own sender. The first keeps the slot, and the target stays as it is. -/
theorem redaction_suppressed : ∃ before t s, Appends Store.empty (before ++ [t]) s ∧ t.id = "$t" ∧
    (∃ r ∈ before, Valid t r) ∧ s.redactedBy "$t" = none := by
  obtain ⟨before, t, s, run, hp⟩ := exists_appends [Ruma.sampleCreate, Ruma.sampleJoin,
      Ruma.samplePdu "k" "m.room.join_rules" (some "") "@a:x" [("join_rule", .string "public")]
        ["$c", "$j"] ["$j"] 3,
      Ruma.samplePdu "l" "m.room.member" (some "@b:x") "@b:x" [("membership", .string "join")]
        ["$c", "$k"] ["$k"] 4,
      Ruma.samplePdu "n" "m.room.member" (some "@c:x") "@c:x" [("membership", .string "join")]
        ["$c", "$k"] ["$l"] 5,
      sampleRedaction "r" "@b:x" ["$c", "$l"] ["$n"],
      sampleRedaction "s" "@c:x" ["$c", "$n"] ["$n"]]
    (sampleTarget "@c:x" ["$c", "$n"] ["$n"])
    (fun before t s => t.id = "$t" ∧ (before.any fun r => Valid t r) ∧ s.redactedBy "$t" = none)
    (by decide +kernel)
  obtain ⟨hid, hvalid, hnone⟩ := of_decide_eq_true hp
  obtain ⟨r, hr, hrvalid⟩ := List.any_eq_true.1 hvalid
  exact ⟨before, t, s, run, hid, ⟨r, hr, of_decide_eq_true hrvalid⟩, hnone⟩

end Saltator.Room
