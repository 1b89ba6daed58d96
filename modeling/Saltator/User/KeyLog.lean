import Saltator.Shard.Apps
import Saltator.User.MachineSpec

/-!
# The device-list change log and the memberships

A join or a departure changes who tracks a user's devices, so it is logged next to the changes of the
device lists themselves. `LogAgrees` says that the log and the membership rows tell the same story.
Two commands overwrite a row without a look at it: a remote invite or knock that is recorded over a
join leaves the log behind.
-/

namespace Saltator.User

open Std
open Saltator.Outcome
open Machine

/-- What a row of the log says about a pair: that the user joined the room, or left it. -/
def KeyChangeEntry.transition (entry : KeyChangeEntry) (userId : UserId) (roomId : RoomId) : Option Bool :=
  if entry.userId = userId then (entry.membership.filter fun m => m.1 = roomId).map Prod.snd
  else none

namespace Store

def transitions (s : Store) (userId : UserId) (roomId : RoomId) : List Bool :=
  s.keyChange.vals.filterMap fun entry => entry.transition userId roomId

/-- The most recent membership entry of the pair says joined. -/
def loggedJoined (s : Store) (userId : UserId) (roomId : RoomId) : Bool :=
  (s.transitions userId roomId).getLast?.getD false

/-- The rows of the log in `(since, upto]`, oldest first. -/
def keyChanges (s : Store) (since upto : Nat) : List KeyChangeEntry :=
  (s.keyChange.rows fun seq => succSaturating since ≤ seq ∧ seq < succSaturating upto).map Prod.snd

def joined (s : Store) (userId : UserId) (roomId : RoomId) : Bool :=
  s.membership[(userId, roomId)]?.any fun m => m.membership = "join"

end Store

/-- The log agrees with the rows, and its keys are sequence numbers given out before. -/
structure LogAgrees (s : Store) : Prop where
  past : ∀ seq ∈ s.keyChange, seq ≤ s.seq
  agrees : ∀ userId roomId, s.loggedJoined userId roomId = s.joined userId roomId

def KeepsLog (s : Store) : UserCommand → Prop
  | .recordRemoteInvite userId roomId .. | .recordRemoteKnock userId roomId .. =>
    s.joined userId roomId = false
  | _ => True

/-! ## Rows and entries -/

section Rows

variable {s t : Store} {userId : UserId} {roomId : RoomId} {userId' : UserId} {roomId' : RoomId}

theorem loggedJoined_congr (h : t.keyChange = s.keyChange) :
    t.loggedJoined userId roomId = s.loggedJoined userId roomId := by
  unfold Store.loggedJoined Store.transitions
  rw [h]

theorem joined_congr (h : t.membership = s.membership) :
    t.joined userId roomId = s.joined userId roomId := by
  unfold Store.joined
  rw [h]

theorem loggedJoined_insert {seq : Nat} {entry : KeyChangeEntry}
    (past : ∀ seq' ∈ s.keyChange, seq' < seq) (h : t.keyChange = s.keyChange.insert seq entry) :
    t.loggedJoined userId roomId =
      (entry.transition userId roomId).getD (s.loggedJoined userId roomId) := by
  have last : ∀ seq' ∈ s.keyChange, compare seq' seq = .lt := fun seq' mem =>
    Nat.compare_eq_lt.2 (past seq' mem)
  unfold Store.loggedJoined Store.transitions
  rw [h, OrdMap.vals_insert_last last, List.filterMap_append]
  cases htr : entry.transition userId roomId with
  | none => simp [htr]
  | some b => simp [htr]

theorem joined_insert {row : MembershipEntry}
    (h : t.membership = s.membership.insert (userId, roomId) row) :
    t.joined userId' roomId' =
      if userId' = userId ∧ roomId' = roomId then decide (row.membership = "join")
      else s.joined userId' roomId' := by
  unfold Store.joined
  rw [h, OrdMap.getElem?_insert']
  by_cases same : userId' = userId ∧ roomId' = roomId
  · rw [if_pos same, if_pos (Prod.ext same.1 same.2)]
    rfl
  · rw [if_neg same, if_neg fun eq => same ⟨congrArg Prod.fst eq, congrArg Prod.snd eq⟩]

theorem transition_record {b : Bool} :
    KeyChangeEntry.transition ⟨userId, some (roomId, b)⟩ userId' roomId' =
      if userId' = userId ∧ roomId' = roomId then some b else none := by
  unfold KeyChangeEntry.transition
  by_cases user : userId = userId'
  · by_cases room : roomId = roomId'
    · simp [user, room, Option.filter]
    · simp [user, room, Ne.symm room, Option.filter]
  · simp [user, Ne.symm user]

theorem LogAgrees.record (h : LogAgrees s) (userId : UserId) (roomId : RoomId)
    (row : MembershipEntry) (seq : t.seq = s.seq + 1)
    (rows : t.membership = s.membership.insert (userId, roomId) row)
    (log : t.keyChange =
      if s.joined userId roomId = decide (row.membership = "join") then s.keyChange
      else s.keyChange.insert (s.seq + 1) ⟨userId, some (roomId, decide (row.membership = "join"))⟩) :
    LogAgrees t := by
  have before : ∀ seq' ∈ s.keyChange, seq' < s.seq + 1 := fun seq' mem =>
    Nat.lt_succ_of_le (h.past seq' mem)
  split at log
  · rename_i kept
    constructor
    · intro seq' mem
      rw [log] at mem
      exact seq ▸ (before seq' mem).le
    · intro userId' roomId'
      rw [loggedJoined_congr log, h.agrees, joined_insert rows]
      split
      · rename_i same
        rw [same.1, same.2, kept]
      · rfl
  · constructor
    · intro seq' mem
      rw [log, ExtTreeMap.mem_insert] at mem
      obtain new | old := mem
      · exact (LawfulEqOrd.eq_of_compare new).symm.trans seq.symm |>.le
      · exact seq ▸ (before seq' old).le
    · intro userId' roomId'
      rw [loggedJoined_insert before log, joined_insert rows, h.agrees, transition_record]
      split <;> rfl

end Rows

/-! ## Commands that say nothing about memberships -/

/-- The membership rows stay, and the log gains at most one row, about a device list. -/
structure Quiet (s t : Store) : Prop where
  membership : t.membership = s.membership
  seq : s.seq ≤ t.seq
  log : t.keyChange = s.keyChange ∨
    ∃ userId, s.seq < t.seq ∧ t.keyChange = s.keyChange.insert t.seq ⟨userId, none⟩

section Quiet

variable {serde : SerdeJson} {e s t : Store} {r : UserResponse}

theorem LogAgrees.quiet (h : LogAgrees s) (q : Quiet s t) : LogAgrees t := by
  obtain same | ⟨userId, later, log⟩ := q.log
  · constructor
    · intro seq mem
      rw [same] at mem
      exact (h.past seq mem).trans q.seq
    · intro userId' roomId'
      rw [loggedJoined_congr same, joined_congr q.membership, h.agrees]
  · constructor
    · intro seq mem
      rw [log, ExtTreeMap.mem_insert] at mem
      obtain new | old := mem
      · exact (LawfulEqOrd.eq_of_compare new).symm.le
      · exact (h.past seq old).trans q.seq
    · intro userId' roomId'
      have before : ∀ seq' ∈ s.keyChange, seq' < t.seq := fun seq' mem =>
        (h.past seq' mem).trans_lt later
      rw [loggedJoined_insert before log, joined_congr q.membership, h.agrees]
      simp [KeyChangeEntry.transition]

theorem Quiet.of_eq (membership : t.membership = s.membership) (log : t.keyChange = s.keyChange)
    (seq : t.seq = s.seq) : Quiet s t := ⟨membership, seq.ge, .inl log⟩

theorem Quiet.logKeyChange (userId : UserId) (membership : t.membership = s.membership)
    (log : t.keyChange = s.keyChange) (seq : t.seq = s.seq) : Quiet s (t.logKeyChange userId) :=
  ⟨membership, seq ▸ Nat.le_succ _, .inr ⟨userId, seq ▸ Nat.lt_succ_self _, by
    simp only [Store.logKeyChange, Store.emitUserChange, Store.putKeyChange, log]⟩⟩

theorem quiet_logoutDevices (userId : UserId) (keep : Option DeviceId)
    (membership : t.membership = s.membership) (log : t.keyChange = s.keyChange)
    (seq : t.seq = s.seq) : Quiet s (logoutDevices e t userId keep) := by
  have deleted := deleteDevicesExcept_frame (e := e) (s := t) userId keep
  unfold logoutDevices
  generalize deleteDevicesExcept e t userId keep = x at deleted ⊢
  obtain ⟨u, any⟩ := x
  dsimp only at deleted ⊢
  have rows : u.membership = s.membership := by rw [deleted]; exact membership
  have log' : u.keyChange = s.keyChange := by rw [deleted]; exact log
  have seq' : u.seq = s.seq := by rw [deleted]; exact seq
  split
  · exact .logKeyChange userId rows log' seq'
  · exact .of_eq rows log' seq'

theorem seq_queueToDevice (messages : List ToDeviceMessage) : s.seq ≤ (queueToDevice e s messages).seq := by
  refine List.foldlRecOn (motive := fun t : Store => s.seq ≤ t.seq) messages _ le_rfl
    fun t ih m _ => ?_
  unfold queueMessage
  dsimp only
  generalize (if m.deviceId = "*" then _ else _ : List DeviceId) = deviceIds
  split
  · exact ih
  · exact ih.trans (Nat.le_succ _)

theorem seq_queueEdus (entries : List OutboundEdu) : s.seq ≤ (entries.foldl queueEdu s).seq :=
  List.foldlRecOn (motive := fun t : Store => s.seq ≤ t.seq) entries _ le_rfl
    fun _ ih _ _ => ih.trans (Nat.le_succ _)

def UserCommand.writesMembership : UserCommand → Bool
  | .applyRoomChanges .. | .recordRemoteInvite .. | .recordRemoteKnock .. | .recordRemoteLeave ..
  | .forgetRoom .. => true
  | _ => false

theorem quiet_of_cases {u : Store} {userId : UserId} (step : t = u ∨ t = u.logKeyChange userId)
    (rows : u.membership = s.membership) (log : u.keyChange = s.keyChange) (seq : u.seq = s.seq) : Quiet s t := by
  obtain rfl | rfl := step
  · exact .of_eq rows log seq
  · exact .logKeyChange userId rows log seq

theorem apply_quiet {cmd : UserCommand} (other : cmd.writesMembership = false)
    (h : apply serde e s cmd = .ok (t, r)) : Quiet s t := by
  have shape := apply_frame h
  cases cmd with
  | applyRoomChanges | recordRemoteInvite | recordRemoteKnock | recordRemoteLeave | forgetRoom =>
    simp [UserCommand.writesMembership] at other
  | deleteDevice userId deviceId =>
    obtain rfl := eq_of_ok h
    have deleted := deleteDevice_frame (e := e) (s := s) userId deviceId
    exact quiet_of_cases (deleteOneDevice_cases e s userId deviceId) (by rw [deleted]; rfl) (by rw [deleted]; rfl)
      (by rw [deleted]; rfl)
  | deleteAllDevices userId =>
    obtain rfl := eq_of_ok h
    exact quiet_logoutDevices userId none rfl rfl rfl
  | changePassword | adminSetPassword =>
    obtain rfl | ⟨account, hash, -, rfl | ⟨keep, rfl⟩⟩ := setsPassword_cases h rfl
    · exact .of_eq rfl rfl rfl
    · exact .of_eq rfl rfl rfl
    · exact quiet_logoutDevices _ keep rfl rfl rfl
  | deactivate userId =>
    obtain ⟨rfl, -⟩ | ⟨account, -, h⟩ := withAccount_eq_ok h
    · exact .of_eq rfl rfl rfl
    obtain rfl := eq_of_ok h
    exact quiet_logoutDevices userId none rfl rfl rfl
  | upsertDevice userId deviceId displayName ts =>
    obtain rfl := eq_of_ok h
    exact .logKeyChange userId rfl rfl rfl
  | setDeviceName userId deviceId displayName =>
    obtain rfl := eq_of_ok h
    unfold setDeviceName
    split
    · exact .of_eq rfl rfl rfl
    · exact .logKeyChange userId rfl rfl rfl
  | recordKeyChange userId =>
    obtain rfl := eq_of_ok h
    exact .logKeyChange userId rfl rfl rfl
  | putAccountData userId roomId dataType json =>
    obtain rfl := eq_of_ok h
    exact ⟨rfl, Nat.le_succ _, .inl rfl⟩
  | uploadKeys userId deviceId deviceKeys oneTimeKeys fallbackKeys =>
    obtain rfl := eq_of_ok h
    have logged : Quiet s (putDeviceKeys s userId deviceId deviceKeys) := by
      unfold putDeviceKeys
      split
      · exact .logKeyChange userId rfl rfl rfl
      · exact .of_eq rfl rfl rfl
    unfold uploadKeys
    dsimp only
    rw [uploadFallbacks_frame, uploadOneTimeKeys_frame]
    exact ⟨logged.membership, logged.seq, logged.log⟩
  | setCrossSigningKeys userId master selfSigning userSigning =>
    obtain rfl := eq_of_ok h
    unfold setCrossSigningKeys
    dsimp only
    rw [putCrossSigning_frame]
    exact .logKeyChange userId rfl rfl rfl
  | addSignatures userId targets =>
    obtain rfl := eq_of_ok h
    obtain ⟨u, signed, step⟩ := addSignatures_cases serde s userId targets
    exact quiet_of_cases step (by rw [signed]; rfl) (by rw [signed]; rfl) (by rw [signed]; rfl)
  | sendToDevice messages =>
    obtain rfl := eq_of_ok h
    exact ⟨by rw [shape]; rfl, seq_queueToDevice messages, .inl (by rw [shape]; rfl)⟩
  | sendToDeviceDeduped origin messageId tsMs messages =>
    refine ⟨by rw [shape]; rfl, ?_, .inl (by rw [shape]; rfl)⟩
    obtain rfl := eq_of_ok h
    unfold sendToDeviceDeduped
    split
    · exact le_rfl
    · refine le_of_eq_of_le ?_ (seq_queueToDevice messages)
      rw [foldl_frame (F := fun s t => { s with
        toDeviceSeen := t.toDeviceSeen, toDeviceSeenIdx := t.toDeviceSeenIdx }) (fun _ => rfl)
        (fun _ _ => rfl) (fun s t u hst htu => htu.trans (by rw [hst]))]
  | queueOutboundEdus entries =>
    obtain rfl := eq_of_ok h
    exact ⟨by rw [shape]; rfl, seq_queueEdus entries, .inl (by rw [shape]; rfl)⟩
  | _ => exact .of_eq (by rw [shape]; rfl) (by rw [shape]; rfl) (by rw [shape]; rfl)

end Quiet

/-! ## Commands that write memberships -/

section Writes

variable {serde : SerdeJson} {e s t : Store} {r : UserResponse} {cmd : UserCommand}

theorem applyRoomChange_eq (s : Store) (c : MembershipChange) : applyRoomChange s c =
      if s.membership[(c.userId, c.roomId)]?.any fun m => c.roomSeq ≤ m.roomSeq then s
      else { s with
        seq := s.seq + 1
        emits := s.emits ++ [(s.seq + 1, ⟨c.userId⟩)]
        keyChange :=
          if s.joined c.userId c.roomId = decide (c.membership = "join") then s.keyChange
          else s.keyChange.insert (s.seq + 1) ⟨c.userId, some (c.roomId, decide (c.membership = "join"))⟩
        membership := s.membership.insert (c.userId, c.roomId)
          ⟨c.membership, c.eventId, c.sender, c.roomSeq, s.seq + 1, false⟩ } := by
  unfold applyRoomChange
  dsimp only
  split
  · rfl
  · split
    · rename_i transition
      rw [if_neg (show ¬ s.joined c.userId c.roomId = _ from transition)]
      rfl
    · rename_i same
      rw [if_pos (show s.joined c.userId c.roomId = _ from not_not.1 same)]
      rfl

theorem LogAgrees.applyRoomChange (h : LogAgrees s) (c : MembershipChange) :
    LogAgrees (applyRoomChange s c) := by
  rw [applyRoomChange_eq]
  split
  · exact h
  · exact h.record _ _ _ rfl rfl rfl

theorem LogAgrees.recordRemote_iff (h : LogAgrees s) {membership : String}
    (pending : membership ≠ "join") {userId : UserId} {roomId : RoomId} {sender : UserId}
    {eventId : String} {strippedState : List Bytes} :
    LogAgrees (recordRemote s membership userId roomId sender eventId strippedState).1 ↔
      s.joined userId roomId = false := by
  have rows : (recordRemote s membership userId roomId sender eventId strippedState).1.membership =
      s.membership.insert (userId, roomId) ⟨membership, eventId, sender, 0, s.seq + 1, false⟩ := rfl
  constructor
  · intro kept
    have after := kept.agrees userId roomId
    rw [joined_insert rows, if_pos ⟨rfl, rfl⟩] at after
    calc s.joined userId roomId = s.loggedJoined userId roomId := (h.agrees userId roomId).symm
      _ = decide (membership = "join") := after
      _ = false := decide_eq_false pending
  · intro apart
    refine h.record userId roomId _ rfl rows ?_
    rw [apart, if_pos (decide_eq_false pending).symm]
    rfl

theorem LogAgrees.recordRemoteLeave (h : LogAgrees s) (userId : UserId) (roomId : RoomId) :
    LogAgrees (recordRemoteLeave s userId roomId).1 := by
  refine h.record userId roomId ⟨"leave", "", userId, 0, s.seq + 1, false⟩ ?_ ?_ ?_
  · unfold Machine.recordRemoteLeave
    dsimp only
    split <;> rfl
  · unfold Machine.recordRemoteLeave
    dsimp only
    split <;> rfl
  · unfold Machine.recordRemoteLeave
    change (if s.joined userId roomId = true then (_ : Store) else _).keyChange =
      if s.joined userId roomId = false then _ else _
    cases s.joined userId roomId with
    | true => rfl
    | false => rfl

theorem LogAgrees.forgetRoom (h : LogAgrees s) (userId : UserId) (roomId : RoomId) :
    LogAgrees (forgetRoom s userId roomId).1 := by
  unfold Machine.forgetRoom
  split
  · exact h
  · rename_i entry found
    refine ⟨h.past, fun userId' roomId' => (h.agrees userId' roomId').trans (Eq.symm ?_)⟩
    refine (joined_insert (s := s) rfl).trans ?_
    split
    · rename_i same
      rw [same.1, same.2, Store.joined, found]
      rfl
    · rfl

theorem LogAgrees.apply (h : LogAgrees s) (safe : KeepsLog s cmd)
    (applied : apply serde e s cmd = .ok (t, r)) : LogAgrees t := by
  cases hwrites : cmd.writesMembership with
  | false => exact h.quiet (apply_quiet hwrites applied)
  | true =>
    cases cmd with
    | applyRoomChanges source uptoSeq changes =>
      obtain rfl := eq_of_ok applied
      unfold applyRoomChanges
      split
      · exact h
      · have folded : LogAgrees (changes.foldl Machine.applyRoomChange s) :=
          List.foldlRecOn (motive := LogAgrees) changes _ h fun _ ih c _ => ih.applyRoomChange c
        exact ⟨folded.past, folded.agrees⟩
    | recordRemoteInvite userId roomId sender eventId strippedState =>
      obtain rfl := eq_of_ok applied
      exact (h.recordRemote_iff (by decide)).2 safe
    | recordRemoteKnock userId roomId sender eventId strippedState =>
      obtain rfl := eq_of_ok applied
      exact (h.recordRemote_iff (by decide)).2 safe
    | recordRemoteLeave userId roomId =>
      obtain rfl := eq_of_ok applied
      exact h.recordRemoteLeave userId roomId
    | forgetRoom userId roomId =>
      obtain rfl := eq_of_ok applied
      exact h.forgetRoom userId roomId
    | _ => simp [UserCommand.writesMembership] at hwrites

theorem LogAgrees.migrate (h : LogAgrees s) {target : Nat} (migrated : migrate e s target = .ok t) :
    LogAgrees t := by
  have shape := migrate_frame migrated
  have kept : Quiet s t := .of_eq (by rw [shape]) (by rw [shape]) (by rw [shape])
  exact h.quiet kept

/-- The log has grown past the sequence number, and its rows up to there are those of before. -/
structure LogExtends (s t : Store) : Prop where
  seq : s.seq ≤ t.seq
  kept : ∀ n ≤ s.seq, t.keyChange[n]? = s.keyChange[n]?

theorem LogExtends.refl (s : Store) : LogExtends s s := ⟨le_rfl, fun _ _ => rfl⟩

theorem LogExtends.trans {u : Store} (h : LogExtends s t) (h' : LogExtends t u) : LogExtends s u :=
  ⟨h.seq.trans h'.seq, fun n old => (h'.kept n (old.trans h.seq)).trans (h.kept n old)⟩

theorem LogExtends.of_insert {seq : Nat} {entry : KeyChangeEntry} (later : s.seq < seq)
    (upto : seq ≤ t.seq) (log : t.keyChange = s.keyChange.insert seq entry) : LogExtends s t := by
  refine ⟨by omega, fun n old => ?_⟩
  rw [log, OrdMap.getElem?_insert', if_neg (by omega)]

theorem LogExtends.of_eq (seq : s.seq ≤ t.seq) (log : t.keyChange = s.keyChange) : LogExtends s t :=
  ⟨seq, fun _ _ => by rw [log]⟩

theorem Quiet.extends (q : Quiet s t) : LogExtends s t := by
  obtain same | ⟨userId, later, log⟩ := q.log
  · exact .of_eq q.seq same
  · exact .of_insert later le_rfl log

theorem applyRoomChange_extends (c : MembershipChange) : LogExtends s (applyRoomChange s c) := by
  rw [applyRoomChange_eq]
  split
  · exact .refl s
  · by_cases same : s.joined c.userId c.roomId = decide (c.membership = "join")
    · exact .of_eq (Nat.le_succ _) (if_pos same)
    · exact .of_insert (Nat.lt_succ_self _) le_rfl (if_neg same)

theorem apply_extends (applied : apply serde e s cmd = .ok (t, r)) : LogExtends s t := by
  cases hwrites : cmd.writesMembership with
  | false => exact (apply_quiet hwrites applied).extends
  | true =>
    cases cmd with
    | applyRoomChanges source uptoSeq changes =>
      obtain rfl := eq_of_ok applied
      unfold applyRoomChanges
      split
      · exact .refl s
      · have folded : LogExtends s (changes.foldl Machine.applyRoomChange s) :=
          List.foldlRecOn (motive := LogExtends s) changes _ (.refl s) fun _ ih c _ =>
            ih.trans (applyRoomChange_extends c)
        exact ⟨folded.seq, folded.kept⟩
    | recordRemoteInvite userId roomId sender eventId strippedState =>
      obtain rfl := eq_of_ok applied
      exact .of_eq (Nat.le_succ _) rfl
    | recordRemoteKnock userId roomId sender eventId strippedState =>
      obtain rfl := eq_of_ok applied
      exact .of_eq (Nat.le_succ _) rfl
    | recordRemoteLeave userId roomId =>
      obtain rfl := eq_of_ok applied
      unfold recordRemoteLeave
      dsimp only
      split
      · exact .of_insert (Nat.lt_succ_self _) le_rfl rfl
      · exact .of_eq (Nat.le_succ _) rfl
    | forgetRoom userId roomId =>
      obtain rfl := eq_of_ok applied
      unfold forgetRoom
      split <;> exact .of_eq le_rfl rfl
    | _ => simp [UserCommand.writesMembership] at hwrites

theorem seq_le_apply (applied : apply serde e s cmd = .ok (t, r)) : s.seq ≤ t.seq :=
  (apply_extends applied).seq

end Writes

/-! ## Runs -/

section Run

open Shard (applyEntry)

variable {serde : SerdeJson} {s t : Shard.State (UserApp serde)}

def EntryKeepsLog (serde : SerdeJson) (_e s : Shard.State (UserApp serde))
    (entry : Shard.Entry UserCommand) : Prop :=
  match entry.payload with
  | .normal cmd => KeepsLog s.app cmd
  | _ => True

theorem LogAgrees.empty : LogAgrees .empty where
  past seq mem := by simp [Store.empty] at mem
  agrees _ _ := rfl

theorem LogAgrees.run (h : LogAgrees s.app)
    (run : Batch.Runs (applyEntry (UserApp serde)) (EntryKeepsLog serde) s t) : LogAgrees t.app := by
  refine Batch.Runs.invariant (I := fun _ s : Shard.State (UserApp serde) => LogAgrees s.app)
    (fun _ _ h => h) (fun e s entry t r h safe applied => ?_) run h
  unfold EntryKeepsLog at safe
  cases Shard.applyEntry_reaches applied with
  | idle same => exact same ▸ h
  | command payload step =>
    rw [payload] at safe
    exact h.apply safe step
  | migration payload next known migrated => exact h.migrate migrated

/-- **The change log agrees with the memberships** in every state of a run in which no remote invite
or knock is recorded over a join. -/
theorem run_log_agrees {s : Shard.State (UserApp serde)}
    (run : Batch.Runs (applyEntry (UserApp serde)) (EntryKeepsLog serde) (.fresh .empty) s)
    (userId : UserId) (roomId : RoomId) :
    s.app.loggedJoined userId roomId = s.app.joined userId roomId :=
  (LogAgrees.empty.run run).agrees userId roomId

theorem run_extends {P : Shard.State (UserApp serde) → Shard.State (UserApp serde) →
    Shard.Entry UserCommand → Prop}
    (run : Batch.Runs (applyEntry (UserApp serde)) P s t) : LogExtends s.app t.app := by
  refine Batch.Runs.invariant (I := fun _ t : Shard.State (UserApp serde) => LogExtends s.app t.app)
    (fun _ _ h => h) (fun e t entry u r h _ applied => ?_) run (.refl _)
  cases Shard.applyEntry_reaches applied with
  | idle same => exact same ▸ h
  | command payload step => exact h.trans (apply_extends step)
  | migration payload next known migrated =>
    have shape := migrate_frame migrated
    exact h.trans (.of_eq (by rw [shape]) (by rw [shape]))

/-- The rows of a window are what has joined the log since its beginning: no row that was written after
its end is in it. -/
theorem transitions_window {s t u : Store} {upto : Nat} (past : LogAgrees s) (past' : LogAgrees t)
    (grown : LogExtends s t) (later : LogExtends t u) (sized : t.seq < 2 ^ 64 - 1) (reached : t.seq ≤ upto)
    (none_between : ∀ n ∈ u.keyChange, t.seq < n → upto < n) (userId : UserId) (roomId : RoomId) :
    t.transitions userId roomId = s.transitions userId roomId ++
      (u.keyChanges s.seq upto).filterMap fun entry => entry.transition userId roomId := by
  have start := grown.seq
  have window : (u.keyChange.rows fun n => succSaturating s.seq ≤ n ∧ n < succSaturating upto) =
      t.keyChange.rows fun n => s.seq < n := by
    refine OrdMap.eq_of_sorted (u.keyChange.ordered_keys_toList.filter _)
      (t.keyChange.ordered_keys_toList.filter _) ?_
    rintro ⟨n, entry⟩
    rw [OrdMap.mem_rows, OrdMap.mem_rows, decide_eq_true_eq, decide_eq_true_eq]
    unfold succSaturating
    constructor
    · rintro ⟨row, first, last⟩
      have old : n ≤ t.seq := by
        by_contra new
        have := none_between n (OrdMap.mem_iff_getElem?.2 ⟨entry, row⟩) (by omega)
        omega
      exact ⟨(later.kept n old).symm.trans row, by omega⟩
    · rintro ⟨row, first⟩
      have old := past'.past n (OrdMap.mem_iff_getElem?.2 ⟨entry, row⟩)
      exact ⟨(later.kept n old).trans row, by omega, by omega⟩
  have parts : t.keyChange.toList = s.keyChange.toList ++ t.keyChange.rows fun n => s.seq < n := by
    refine OrdMap.eq_of_sorted t.keyChange.ordered_keys_toList
      (List.pairwise_append.2 ⟨s.keyChange.ordered_keys_toList,
        t.keyChange.ordered_keys_toList.filter _, ?_⟩) ?_
    · rintro ⟨n, entry⟩ old ⟨n', entry'⟩ new
      have row := OrdMap.mem_toList.1 old
      have below := past.past n (OrdMap.mem_iff_getElem?.2 ⟨entry, row⟩)
      have above := of_decide_eq_true (OrdMap.mem_rows.1 new).2
      exact Nat.compare_eq_lt.2 (by omega)
    · rintro ⟨n, entry⟩
      rw [List.mem_append, OrdMap.mem_rows, OrdMap.mem_toList, OrdMap.mem_toList, decide_eq_true_eq]
      by_cases old : n ≤ s.seq
      · rw [grown.kept n old]
        exact ⟨.inl, fun h => h.elim id fun h => absurd h.2 (by omega)⟩
      · refine ⟨fun row => .inr ⟨row, by omega⟩, fun h => h.elim (fun row => ?_) And.left⟩
        exact absurd (past.past n (OrdMap.mem_iff_getElem?.2 ⟨entry, row⟩)) old
  rw [Store.transitions, OrdMap.vals, parts, List.map_append, List.filterMap_append, Store.keyChanges, window]
  rfl

/-- Whether a user is in a room at the end of a window: what the last row about that says, or as it was
before. -/
theorem joined_window {s t u : Store} {upto : Nat} (past : LogAgrees s) (past' : LogAgrees t)
    (grown : LogExtends s t) (later : LogExtends t u) (sized : t.seq < 2 ^ 64 - 1) (reached : t.seq ≤ upto)
    (none_between : ∀ n ∈ u.keyChange, t.seq < n → upto < n) (userId : UserId) (roomId : RoomId) :
    t.joined userId roomId = (((u.keyChanges s.seq upto).filterMap fun entry =>
      entry.transition userId roomId).getLast?).getD (s.joined userId roomId) := by
  rw [← past'.agrees, ← past.agrees, Store.loggedJoined, Store.loggedJoined,
    transitions_window past past' grown later sized reached none_between, List.getLast?_append]
  cases ((u.keyChanges s.seq upto).filterMap fun entry => entry.transition userId roomId).getLast? <;> rfl

def sampleJoined : Shard.Entry UserCommand :=
  ⟨⟨1, 1, 1⟩, .normal (.applyRoomChanges "r" 1 [⟨"@a:x", "!r:y", "join", "$j", "@a:x", 1⟩])⟩

def sampleInvited : Shard.Entry UserCommand :=
  ⟨⟨1, 1, 2⟩, .normal (.recordRemoteInvite "@a:x" "!r:y" "@b:y" "$i" [])⟩

def sampleLeft : Shard.Entry UserCommand :=
  ⟨⟨1, 1, 2⟩, .normal (.recordRemoteLeave "@a:x" "!r:y")⟩

theorem run_log_agrees_left : ∃ s : Shard.State (UserApp SerdeJson.sample),
    s.app.transitions "@a:x" "!r:y" = [true, false] ∧
    s.app.loggedJoined "@a:x" "!r:y" = s.app.joined "@a:x" "!r:y" := by
  have h : (Shard.apply (UserApp SerdeJson.sample) (.fresh .empty) [sampleJoined, sampleLeft]
      ).toOption.any (fun x => decide (x.1.app.transitions "@a:x" "!r:y" = [true, false])) =
      true := by
    decide +kernel
  obtain ⟨⟨s, rs⟩, applied, h⟩ := (Option.any_eq_true _ _).1 h
  refine ⟨s, of_decide_eq_true h, run_log_agrees (.batch .refl (toOption_eq_some.1 applied) ?_) _ _⟩
  intro u entry mem
  obtain rfl | mem := List.mem_cons.1 mem
  · trivial
  · obtain rfl := List.mem_singleton.1 mem
    trivial

/-- The row of a join becomes an invite, and the log still says joined. -/
theorem invite_over_join : ∃ s : Shard.State (UserApp SerdeJson.sample),
    Batch.Runs (applyEntry (UserApp SerdeJson.sample)) (fun _ _ _ => True) (.fresh .empty) s ∧
    s.app.loggedJoined "@a:x" "!r:y" = true ∧ s.app.joined "@a:x" "!r:y" = false := by
  have h : (Shard.apply (UserApp SerdeJson.sample) (.fresh .empty) [sampleJoined, sampleInvited]
      ).toOption.any (fun x => x.1.app.loggedJoined "@a:x" "!r:y" &&
        !x.1.app.joined "@a:x" "!r:y") = true := by
    decide +kernel
  obtain ⟨⟨s, rs⟩, applied, h⟩ := (Option.any_eq_true _ _).1 h
  rw [Bool.and_eq_true, Bool.not_eq_true'] at h
  exact ⟨s, .batch .refl (toOption_eq_some.1 applied) fun _ _ _ => trivial, h⟩

end Run

end Saltator.User
