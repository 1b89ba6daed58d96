import Saltator.Client.Permission

/-!
# The power of a sender

State resolution orders power events by the power of their senders, which it reads out of the power levels
that an event cites by itself. The rules that authorise the event read the same content, and take levels that
are encoded as strings up to version 9. The order does without those.
-/

namespace Saltator.Client

open Std
open Saltator.Outcome
open Auth
open StateRes (firstPowerLevels senderPowerAt userLevelIn defaultUserLevel require_eq_ok)

section Power

variable {E : Type} [Event E] {ruma : Ruma} {version : RoomVersion} {fetch : EventId → Option E}
  {event create levels : E} {user : UserId} {content : JsonObject} {ids : List EventId}

def IsPowerLevels (e : E) : Prop :=
  Event.eventType e = "m.room.power_levels" ∧ Event.stateKey e = some ""

instance (e : E) : Decidable (IsPowerLevels e) :=
  inferInstanceAs (Decidable (_ ∧ _))

def SamePower (ruma : Ruma) (version : RoomVersion) (fetch : EventId → Option E) (create event : E)
    (levels : Option E) : Prop :=
  ∃ power, RoomPowerLevels.resolve ruma version create levels = .ok power ∧
    senderPowerAt fetch version event (creators ruma version create) = .ok (power.user (Event.sender event))

/-- Of the user's own level and the default one, the first that is there is no string, or it gives what is
read in its place. -/
def ReadsAlike (content : JsonObject) (user : UserId) : Prop :=
  (∀ s, entryOf content "users" user = some (.string s) → parseI64 s = some (defaultUserLevel content)) ∧
  (entryOf content "users" user = none →
    ∀ s, content.lookup "users_default" = some (.string s) → parseI64 s = some 0)

/-! ## The levels that an event cites -/

theorem firstPowerLevels_cases {found : Option (EventId × E)} (h : firstPowerLevels fetch ids = .ok found) :
    (found = none ∧ ∀ id ∈ ids, ∀ e, fetch id = some e → ¬ IsPowerLevels e) ∨
      ∃ id e, found = some (id, e) ∧ id ∈ ids ∧ fetch id = some e ∧ IsPowerLevels e := by
  induction ids with
  | nil => exact .inl ⟨(Except.ok.inj h).symm, by simp⟩
  | cons id ids ih =>
    rw [firstPowerLevels, bind_eq_ok] at h
    obtain ⟨e, required, h⟩ := h
    have held := require_eq_ok.1 required
    split at h
    · rename_i own
      exact .inr ⟨id, e, (pure_eq_ok.1 h).symm, List.mem_cons_self, held, own⟩
    · rename_i other
      obtain ⟨rfl, absent⟩ | ⟨a, e', rfl, mem, held', own⟩ := ih h
      · refine .inl ⟨rfl, fun a mem e' held' => ?_⟩
        rcases List.mem_cons.1 mem with rfl | mem
        · obtain rfl := some_unique held held'
          exact other
        · exact absent a mem e' held'
      · exact .inr ⟨a, e', rfl, List.mem_cons_of_mem _ mem, held', own⟩

/-! ## The two readings -/

theorem userLevelIn_eq : userLevelIn content user =
    ((entryOf content "users" user).bind Json.asInteger).getD (defaultUserLevel content) := by
  unfold userLevelIn entryOf objProp
  cases content.lookup "users" with
  | none => rfl
  | some v => cases v <;> rfl

theorem levelValue_cases {lenient : Bool} {v : Json} (level : (levelValue lenient v).isSome) :
    (∃ i, v = .integer i) ∨ ∃ s i, v = .string s ∧ parseI64 s = some i ∧ levelValue lenient v = some i := by
  cases v with
  | integer i => exact .inl ⟨i, rfl⟩
  | string s =>
    obtain ⟨i, read⟩ := Option.isSome_iff_exists.1 level
    cases lenient with
    | false => cases read
    | true => exact .inr ⟨s, i, rfl, read, read⟩
  | _ => simp [levelValue] at level

theorem entryOf_level (shaped : WellShaped ruma version content) {v : Json}
    (entry : entryOf content "users" user = some v) :
    (levelValue version.lenientPowerLevels v).isSome := by
  obtain ⟨users, found, own⟩ := Option.bind_eq_some_iff.1 entry
  obtain ⟨members, rfl, valid⟩ := shaped.users users found
  exact (valid (user, v) (mem_of_lookup own)).2

theorem level_eq_iff (shaped : WellShaped ruma version content) (unique : UniqueNames content) :
    userLevelIn content user = (levelAt version content "users" user).getD
      ((scalarAt version content "users_default").getD 0) ↔ ReadsAlike content user := by
  rw [userLevelIn_eq, levelAt_eq unique]
  cases entry : entryOf content "users" user with
  | none =>
    rw [ReadsAlike, entry]
    simp only [Option.bind_none, Option.getD_none, reduceCtorEq, false_implies, implies_true, true_and,
      forall_true_left, defaultUserLevel, scalarAt]
    cases default : content.lookup "users_default" with
    | none => simp
    | some v =>
      have level := shaped.scalars "users_default" (by simp [scalarLevels]) v default
      obtain ⟨i, rfl⟩ | ⟨s, i, rfl, read, value⟩ := levelValue_cases level
      · simp [Json.asInteger, levelValue]
      · simp only [Option.bind_some, value, Json.asInteger, Option.getD_none, Option.getD_some,
          Option.some.injEq, Json.string.injEq, forall_eq', read]
        exact eq_comm
  | some v =>
    rw [ReadsAlike, entry]
    obtain ⟨i, rfl⟩ | ⟨s, i, rfl, read, value⟩ := levelValue_cases (entryOf_level shaped entry)
    · simp [Json.asInteger, levelValue]
    · simp only [Option.bind_some, value, Json.asInteger, Option.getD_none, Option.getD_some,
        Option.some.injEq, Json.string.injEq, forall_eq', read, reduceCtorEq, false_implies, and_true]
      exact eq_comm

theorem readsAlike_of_privileged (shaped : WellShaped ruma version content)
    (privileged : version.privilegedCreators = true) : ReadsAlike content user := by
  have strict : version.lenientPowerLevels = false := by
    cases version <;> first | rfl | cases privileged
  constructor
  · intro s entry
    have level := entryOf_level shaped entry
    rw [strict] at level
    cases level
  · intro _ s default
    have level := shaped.scalars "users_default" (by simp [scalarLevels]) _ default
    rw [strict] at level
    cases level

end Power

/-- **The two readings of a sender's power** are the same exactly if the content reads alike. Without power
levels they are always the same. -/
theorem same_power_iff {E : Type} [Event E] {ruma : Ruma} {version : RoomVersion}
    {fetch : EventId → Option E} {create event : E} {power : PowerLevel}
    (answers : senderPowerAt fetch version event (creators ruma version create) = .ok power) :
    (∀ levels before, IsPowerLevels levels → UniqueNames (Event.content levels) →
      checkStateDependent ruma version levels before = .ok () →
      (∃ id ∈ Event.authEvents event, fetch id = some levels) →
      (∀ id ∈ Event.authEvents event, ∀ e, fetch id = some e → IsPowerLevels e → e = levels) →
      (SamePower ruma version fetch create event (some levels) ↔
        ReadsAlike (Event.content levels) (Event.sender event))) ∧
    ((∀ id ∈ Event.authEvents event, ∀ e, fetch id = some e → ¬ IsPowerLevels e) →
      SamePower ruma version fetch create event none) := by
  by_cases root : (version.privilegedCreators &&
      (creators ruma version create).contains (Event.sender event)) = true
  · -- The sender is a creator above all levels.
    have infinite : senderPowerAt fetch version event (creators ruma version create) = .ok .infinite := by
      rw [senderPowerAt, if_pos root]
    refine ⟨fun levels before isLevels unique accepted cited only => ?_, fun absent => ?_⟩
    · have shaped := wellShaped_of_accepted isLevels.1 accepted
      obtain ⟨resolved, resolves⟩ := shaped.resolves create
      have reads := reads_of_resolve resolves
      refine iff_of_true ⟨resolved, resolves, ?_⟩
        (readsAlike_of_privileged shaped (Bool.and_eq_true_iff.1 root).1)
      rw [infinite, RoomPowerLevels.user, reads.version_eq, reads.creators_eq, if_pos root]
    · refine ⟨_, rfl, ?_⟩
      rw [infinite, RoomPowerLevels.user, if_pos root]
  · have reads := answers
    rw [senderPowerAt, if_neg root] at reads
    obtain ⟨found, first, reads⟩ := bind_eq_ok.1 reads
    refine ⟨fun levels before isLevels unique accepted cited only => ?_, fun absent => ?_⟩
    · obtain ⟨-, absent⟩ | ⟨id, e, rfl, mem, held, own⟩ := firstPowerLevels_cases first
      · obtain ⟨id, mem, held⟩ := cited
        exact absurd isLevels (absent id mem levels held)
      obtain rfl := only id mem e held own
      have shaped := wellShaped_of_accepted isLevels.1 accepted
      obtain ⟨resolved, resolves⟩ := shaped.resolves create
      have read := reads_of_resolve resolves
      have rules : resolved.user (Event.sender event) =
          .int ((levelAt version (Event.content e) "users" (Event.sender event)).getD
            ((scalarAt version (Event.content e) "users_default").getD 0)) := by
        rw [RoomPowerLevels.user, read.version_eq, read.creators_eq, if_neg root, read.users,
          read.hasPlEvent, read.usersDefault]
        cases levelAt version (Event.content e) "users" (Event.sender event) <;> rfl
      rw [← level_eq_iff shaped unique]
      obtain rfl := pure_eq_ok.1 reads
      constructor
      · rintro ⟨resolved', resolves', same⟩
        obtain rfl := ok_unique resolves resolves'
        exact PowerLevel.int.inj ((ok_unique answers same).trans rules)
      · intro same
        exact ⟨resolved, resolves, by rw [answers, rules, same]⟩
    · obtain ⟨rfl, -⟩ | ⟨id, e, -, mem, held, own⟩ := firstPowerLevels_cases first
      · refine ⟨_, rfl, ?_⟩
        obtain rfl := pure_eq_ok.1 reads
        rw [answers, RoomPowerLevels.user, if_neg root]
        cases creates : (creators ruma version create).contains (Event.sender event) with
        | false => simp
        | true =>
          rw [creates, Bool.and_true, Bool.not_eq_true] at root
          simp [root]
      · exact absurd own (absent id mem e held)

/-! ## A moderator's event -/

def sampleModerator (level : Json) : IdentifiedPdu :=
  sampleEvent "$p" "m.room.power_levels" "" "@a:x"
    [("users", .object [("@a:x", .integer 100), ("@b:x", level)])]

def sampleModeratorTopic : IdentifiedPdu :=
  let event := sampleEvent "$t" "m.room.topic" "" "@b:x" []
  { event with pdu := { event.pdu with authEvents := ["$p"] } }

def sampleCited (level : Json) (id : EventId) : Option IdentifiedPdu :=
  if id = "$p" then some (sampleModerator level) else none

def sampleUnmoderated : StateView IdentifiedPdu := fun t sk =>
  List.lookup (t, sk) [(("m.room.create", ""), sampleCreateEvent), (("m.room.member", "@a:x"),
      sampleEvent "$j" "m.room.member" "@a:x" "@a:x" [("membership", .string "join")])]

theorem same_power_number : SamePower Ruma.sample .v11 (sampleCited (.integer 50)) sampleCreateEvent
    sampleModeratorTopic (some (sampleModerator (.integer 50))) := by
  have answers : senderPowerAt (sampleCited (.integer 50)) .v11 sampleModeratorTopic
      (creators Ruma.sample .v11 sampleCreateEvent) = .ok (.int 50) := by decide +kernel
  have entry : entryOf (Event.content (sampleModerator (.integer 50))) "users"
      (Event.sender sampleModeratorTopic) = some (.integer 50) := rfl
  refine ((same_power_iff answers).1 (sampleModerator (.integer 50)) sampleUnmoderated ⟨rfl, rfl⟩
    ⟨by decide, by simp [sampleModerator, sampleEvent, Event.content]⟩ (by decide +kernel)
    ⟨"$p", by decide, rfl⟩ ?_).2 ⟨fun s found => ?_, fun absent => ?_⟩
  · intro id mem e held _
    obtain rfl := List.mem_singleton.1 mem
    exact (Option.some.inj held).symm
  · cases entry.symm.trans found
  · cases entry.symm.trans absent

/-- The moderator's level is encoded as a string, and counts as 0 in the order of the events. -/
theorem string_power_ordered_low :
    checkStateDependent Ruma.sample .v9 (sampleModerator (.string "50")) sampleUnmoderated = .ok () ∧
    senderPowerAt (sampleCited (.string "50")) .v9 sampleModeratorTopic
      (creators Ruma.sample .v9 sampleCreateEvent) = .ok (.int 0) ∧
    (∃ power, RoomPowerLevels.resolve Ruma.sample .v9 sampleCreateEvent
      (some (sampleModerator (.string "50"))) = .ok power ∧ power.user "@b:x" = .int 50) ∧
    ¬ SamePower Ruma.sample .v9 (sampleCited (.string "50")) sampleCreateEvent sampleModeratorTopic
      (some (sampleModerator (.string "50"))) := by
  have ordered : senderPowerAt (sampleCited (.string "50")) .v9 sampleModeratorTopic
      (creators Ruma.sample .v9 sampleCreateEvent) = .ok (.int 0) := by decide +kernel
  have resolved : (RoomPowerLevels.resolve Ruma.sample .v9 sampleCreateEvent
      (some (sampleModerator (.string "50")))).toOption.any
        (fun power => decide (power.user "@b:x" = .int 50)) = true := by decide +kernel
  obtain ⟨power, resolves, level⟩ := (Option.any_eq_true _ _).1 resolved
  rw [toOption_eq_some] at resolves
  have level := of_decide_eq_true level
  refine ⟨by decide +kernel, ordered, ⟨power, resolves, level⟩, ?_⟩
  rintro ⟨power', resolves', same⟩
  obtain rfl := ok_unique resolves resolves'
  have differ := ok_unique ordered same
  rw [show Event.sender sampleModeratorTopic = "@b:x" from rfl, level] at differ
  cases differ

end Saltator.Client
