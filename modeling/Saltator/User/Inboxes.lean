import Saltator.User.History
import Saltator.User.KeyLog
import Saltator.User.RowKeys
import Saltator.User.Scans

/-!
# Device inboxes

A message waits in the inbox of every device that it is addressed to until the device acknowledges it.
A transaction of another server is recorded, so that it is delivered once however often it is submitted;
the records older than an hour are pruned. What an inbox ought to hold is read off the history
(`inbox`), and `inboxes_deliver` says that it holds that, where the scans find what the batch wrote and
no device's rows lie among those of another.
-/

namespace Saltator.User

open Machine
open Saltator.Outcome
open OrdMap (Covers)
open Shard (Plain)

inductive InboxEvent where
  /-- A transaction was submitted, by its origin and message id. -/
  | submitted (txn : String × String) (tsMs : Nat)
  | queued (device : UserId × DeviceId) (seq : Nat) (json : Bytes)
  | acked (device : UserId × DeviceId) (upTo : Nat)
  /-- The device was deleted. -/
  | dropped (device : UserId × DeviceId)
  deriving DecidableEq

def targets (s : Store) (m : ToDeviceMessage) : List DeviceId :=
  if m.deviceId = "*" then (s.devicesOf m.userId).map fun r => r.1.2
  else if s.device.contains (m.userId, m.deviceId) then [m.deviceId]
  else []

/-- Every message goes to each of its devices, with the next number after `seq` if there are any. -/
def deliveries (s : Store) : Nat → List ToDeviceMessage → List InboxEvent
  | _, [] => []
  | seq, m :: messages =>
    if (targets s m).isEmpty then deliveries s seq messages
    else ((targets s m).map fun deviceId => .queued (m.userId, deviceId) (seq + 1) m.json) ++
      deliveries s (seq + 1) messages

def inboxEvents (s : Store) (cmd : UserCommand) (t : Store) (_ : UserResponse) : List InboxEvent :=
  match cmd with
  | .sendToDevice messages => deliveries s s.seq messages
  | .sendToDeviceDeduped origin messageId tsMs messages =>
    .submitted (origin, messageId) tsMs ::
      if s.toDeviceSeen.contains (origin, messageId) then [] else deliveries s s.seq messages
  | .ackToDevice userId deviceId upTo => [.acked (userId, deviceId) upTo]
  | _ => (s.device.toList.filter fun r => !t.device.contains r.1).map fun r => .dropped r.1

def receive (device : UserId × DeviceId) (queue : List (Nat × Bytes)) : InboxEvent → List (Nat × Bytes)
  | .submitted .. => queue
  | .queued device' seq json => if device' = device then queue ++ [(seq, json)] else queue
  | .acked device' upTo =>
    if device' = device then queue.filter fun m => succSaturating upTo ≤ m.1 else queue
  | .dropped device' => if device' = device then [] else queue

@[simp] theorem receive_queued {device device' : UserId × DeviceId} {queue : List (Nat × Bytes)}
    {seq : Nat} {json : Bytes} : receive device queue (.queued device' seq json) =
      if device' = device then queue ++ [(seq, json)] else queue := rfl

/-- The messages queued for a device and not acknowledged, in queue order. -/
def inbox (device : UserId × DeviceId) (history : List InboxEvent) : List (Nat × Bytes) :=
  history.foldl (receive device) []

def submissions (history : List InboxEvent) : List ((String × String) × Nat) :=
  history.filterMap fun
    | .submitted txn tsMs => some (txn, tsMs)
    | _ => none

def boxRows (table : OrdMap (UserId × DeviceId × Nat) Bytes) (device : UserId × DeviceId) :
    List (Nat × Bytes) :=
  (table.rows fun k => k.1 = device.1 ∧ k.2.1 = device.2).map fun r => (r.1.2.2, r.2)

/-- Pending to-device events for a device past `since`, oldest first. -/
def Store.toDeviceEvents (s : Store) (userId : UserId) (deviceId : DeviceId) (since : Nat) :
    List (Nat × Bytes) :=
  (s.toDevice.rows fun k => k.1 = userId ∧ k.2.1 = deviceId ∧ succSaturating since ≤ k.2.2).map
    fun r => (r.1.2.2, r.2)

section Scans

variable (e s : Store)

/-- Of an inbox that is to be deleted, the scan finds every row. -/
def InboxCovered (userId : UserId) (deviceId : DeviceId) : Prop :=
  Covers (fun k => k.1 = userId ∧ k.2.1 = deviceId) e.toDevice s.toDevice

def InboxesCovered (userId : UserId) (keep : Option DeviceId) : Prop :=
  ∀ deviceId, (userId, deviceId) ∈ e.device → (userId, deviceId) ∈ s.device →
    keep ≠ some deviceId → InboxCovered e s userId deviceId

def InboxScans : UserCommand → Prop
  | .sendToDevice messages => SameInboxes e s messages
  | .sendToDeviceDeduped origin messageId _ messages =>
    s.toDeviceSeen.contains (origin, messageId) = false → SameInboxes e s messages
  | .ackToDevice userId deviceId upTo =>
    Covers (fun k => k.1 = userId ∧ k.2.1 = deviceId ∧ k.2.2 < succSaturating upTo) e.toDevice s.toDevice
  | .deleteDevice userId deviceId =>
    (userId, deviceId) ∈ s.device → InboxCovered e s userId deviceId
  | .deleteAllDevices userId => InboxesCovered e s userId none
  | .changePassword userId _ logoutOthers keepDevice =>
    logoutOthers = true → ∀ account, s.getAccount userId = .ok (some account) →
      InboxesCovered e s userId (some keepDevice)
  | .adminSetPassword userId _ logoutDevices =>
    logoutDevices = true → ∀ account, s.getAccount userId = .ok (some account) →
      account.state ≠ .deactivated → InboxesCovered e s userId none
  | .deactivate userId =>
    ∀ account, s.getAccount userId = .ok (some account) → InboxesCovered e s userId none
  | _ => True

/-- The scans find what the batch wrote, and the rows of the devices they are about only. -/
structure InboxesFound (cmd : UserCommand) : Prop where
  scans : InboxScans e s cmd
  plain : cmd.PlainDevices

variable {s} in
theorem InboxScans.same (cmd : UserCommand) : InboxScans s s cmd := by
  have covered : ∀ userId deviceId, InboxCovered s s userId deviceId := fun _ _ _ mem _ => mem
  cases cmd with
  | sendToDevice messages => exact fun _ _ _ => rfl
  | sendToDeviceDeduped origin messageId ts messages => exact fun _ _ _ _ => rfl
  | ackToDevice userId deviceId upTo => exact fun _ mem _ => mem
  | deleteDevice userId deviceId => exact fun _ => covered _ _
  | deleteAllDevices userId => exact fun _ _ _ _ => covered _ _
  | changePassword userId hash logoutOthers keepDevice => exact fun _ _ _ _ _ _ _ => covered _ _
  | adminSetPassword userId hash logoutDevices => exact fun _ _ _ _ _ _ _ _ => covered _ _
  | deactivate userId => exact fun _ _ _ _ _ _ => covered _ _
  | _ => exact trivial

end Scans

/-! ## Transactions -/

section Transactions

variable {e s t : Store} {txn : String × String} {past : List ((String × String) × Nat)}

/-- A transaction was submitted first at `ts`, and no submission since is more than the horizon later. -/
def InHorizon (past : List ((String × String) × Nat)) (txn : String × String) (ts : Nat) : Prop :=
  ∃ before after, past = before ++ (txn, ts) :: after ∧ txn ∉ before.map Prod.fst ∧
    ∀ later ∈ after, later.2 ≤ ts + toDeviceSeenHorizonMs

/-- What the records say about the past: nothing of a transaction that was never submitted, and of one
within its horizon, that it was submitted then. -/
structure Remembered (e s : Store) (past : List ((String × String) × Nat)) : Prop where
  unseen : ∀ txn, txn ∉ past.map Prod.fst →
    txn ∉ s.toDeviceSeen ∧ ∀ ts, (ts, txn) ∉ s.toDeviceSeenIdx ∧ (ts, txn) ∉ e.toDeviceSeenIdx
  seen : ∀ txn ts, InHorizon past txn ts → txn ∈ s.toDeviceSeen ∧
    ∀ ts', (ts', txn) ∈ s.toDeviceSeenIdx ∨ (ts', txn) ∈ e.toDeviceSeenIdx → ts' = ts

theorem Remembered.cut (h : Remembered e s past) : Remembered s s past where
  unseen txn new := ⟨(h.unseen txn new).1, fun ts => ⟨((h.unseen txn new).2 ts).1,
    ((h.unseen txn new).2 ts).1⟩⟩
  seen txn ts within := ⟨(h.seen txn ts within).1, fun ts' mem =>
    (h.seen txn ts within).2 ts' (.inl (mem.elim id id))⟩

theorem Remembered.congr (h : Remembered e s past) (seen : t.toDeviceSeen = s.toDeviceSeen)
    (index : t.toDeviceSeenIdx = s.toDeviceSeenIdx) : Remembered e t past where
  unseen := by rw [seen, index]; exact h.unseen
  seen := by rw [seen, index]; exact h.seen

/-- The entries of the index that a submission at `tsMs` prunes. -/
def staleSeen (e : Store) (tsMs : Nat) : List (Nat × String × String) :=
  e.toDeviceSeenIdx.toList.filter fun k => k.1 < tsMs - toDeviceSeenHorizonMs

def recordSeen (e s : Store) (txn : String × String) (tsMs : Nat) : Store :=
  { s with
    toDeviceSeen := (staleSeen e tsMs).foldl (fun m k => m.erase k.2) (s.toDeviceSeen.insert txn tsMs)
    toDeviceSeenIdx :=
      (staleSeen e tsMs).foldl (fun i k => i.erase k) (s.toDeviceSeenIdx.insert (tsMs, txn)) }

theorem sendToDeviceDeduped_eq (origin messageId : String) (tsMs : Nat) (messages : List ToDeviceMessage) :
    (sendToDeviceDeduped e s origin messageId tsMs messages).1 =
      if s.toDeviceSeen.contains (origin, messageId) then s
      else queueToDevice e (recordSeen e s (origin, messageId) tsMs) messages := by
  unfold sendToDeviceDeduped
  split
  · rfl
  · have pruned := List.foldl_hom₂ (staleSeen e tsMs)
      (fun record index => { s with toDeviceSeen := record, toDeviceSeenIdx := index })
      (fun record k => record.erase k.2) (fun index k => index.erase k)
      (fun s k => { s with
        toDeviceSeenIdx := s.toDeviceSeenIdx.erase k
        toDeviceSeen := s.toDeviceSeen.erase k.2 })
      (s.toDeviceSeen.insert (origin, messageId) tsMs)
      (s.toDeviceSeenIdx.insert (tsMs, origin, messageId)) fun _ _ _ => rfl
    exact congrArg (fun u => queueToDevice e u messages) pruned

theorem inHorizon_append {ts ts' : Nat} {txn' : String × String} :
    InHorizon (past ++ [(txn', ts')]) txn ts ↔ (txn = txn' ∧ ts = ts' ∧ txn ∉ past.map Prod.fst) ∨
        InHorizon past txn ts ∧ ts' ≤ ts + toDeviceSeenHorizonMs := by
  constructor
  · rintro ⟨before, after, cut, first, within⟩
    obtain ⟨rfl, rfl, same⟩ | ⟨rest, rfl, rfl⟩ := Batch.append_singleton_eq.1 cut
    · obtain ⟨rfl, rfl⟩ := Prod.mk.inj same
      exact .inl ⟨rfl, rfl, first⟩
    · exact .inr ⟨⟨before, rest, rfl, first, fun later mem =>
        within later (List.mem_append_left _ mem)⟩, within (txn', ts') (by simp)⟩
  · rintro (⟨rfl, rfl, first⟩ | ⟨⟨before, after, rfl, first, within⟩, later⟩)
    · exact ⟨past, [], rfl, first, nofun⟩
    · refine ⟨before, after ++ [(txn', ts')], by simp, first, fun x mem => ?_⟩
      obtain mem | mem := List.mem_append.1 mem
      · exact within x mem
      · rw [List.mem_singleton.1 mem]
        exact later

/-- A submission that is dropped, since its transaction is remembered. -/
theorem Remembered.drop (h : Remembered e s past) {ts : Nat} (known : txn ∈ s.toDeviceSeen) :
    Remembered e s (past ++ [(txn, ts)]) := by
  constructor
  · intro txn' new
    rw [List.map_append, List.mem_append, not_or] at new
    exact h.unseen txn' new.1
  · intro txn' ts' within
    obtain ⟨rfl, rfl, new⟩ | ⟨within, -⟩ := inHorizon_append.1 within
    · exact absurd known (h.unseen _ new).1
    · exact h.seen txn' ts' within

theorem Remembered.take (h : Remembered e s past) {ts : Nat} (new : txn ∉ s.toDeviceSeen) :
    Remembered e (recordSeen e s txn ts) (past ++ [(txn, ts)]) := by
  have index : ∀ {ts' txn'}, (ts', txn') ∈ (recordSeen e s txn ts).toDeviceSeenIdx →
      (ts', txn') = (ts, txn) ∨ (ts', txn') ∈ s.toDeviceSeenIdx := by
    intro ts' txn' mem
    exact OrdSet.mem_insert'.1 (OrdSet.mem_foldl_erase.1 mem).1
  have record : ∀ txn', txn' ∈ (recordSeen e s txn ts).toDeviceSeen ↔
      (txn' = txn ∨ txn' ∈ s.toDeviceSeen) ∧ txn' ∉ (staleSeen e ts).map Prod.snd := by
    intro txn'
    refine (OrdMap.mem_foldl_erase Prod.snd _ _ txn').trans (and_congr_left' ?_)
    rw [Std.ExtTreeMap.mem_insert, Std.LawfulEqOrd.compare_eq_iff_eq, eq_comm]
  constructor
  · intro txn' unseen
    rw [List.map_append, List.mem_append, not_or] at unseen
    obtain ⟨absent, entries⟩ := h.unseen txn' unseen.1
    have other : txn' ≠ txn := by simpa using unseen.2
    refine ⟨fun mem => ?_, fun ts' => ⟨fun mem => ?_, (entries ts').2⟩⟩
    · exact ((record txn').1 mem).1.elim other absent
    · obtain same | old := index mem
      · exact other (Prod.mk.inj same).2
      · exact (entries ts').1 old
  · intro txn' ts' within
    obtain ⟨rfl, rfl, first⟩ | ⟨within, later⟩ := inHorizon_append.1 within
    · obtain ⟨-, entries⟩ := h.unseen txn' first
      refine ⟨(record txn').2 ⟨.inl rfl, fun stale => ?_⟩, fun ts'' mem => ?_⟩
      · obtain ⟨⟨ts'', txn''⟩, listed, rfl⟩ := List.mem_map.1 stale
        exact (entries ts'').2 (OrdSet.mem_toList'.1 (List.mem_filter.1 listed).1)
      · obtain mem | mem := mem
        · obtain same | old := index mem
          · exact (Prod.mk.inj same).1
          · exact absurd old (entries ts'').1
        · exact absurd mem (entries ts'').2
    · obtain ⟨known, entries⟩ := h.seen txn' ts' within
      refine ⟨(record txn').2 ⟨.inr known, fun stale => ?_⟩, fun ts'' mem => ?_⟩
      · obtain ⟨⟨ts'', txn''⟩, listed, rfl⟩ := List.mem_map.1 stale
        obtain ⟨stored, old⟩ := List.mem_filter.1 listed
        obtain rfl := entries ts'' (.inr (OrdSet.mem_toList'.1 stored))
        have old : ts'' < ts - toDeviceSeenHorizonMs := of_decide_eq_true old
        omega
      · obtain mem | mem := mem
        · obtain same | old := index mem
          · exact absurd ((Prod.mk.inj same).2 ▸ known) new
          · exact entries ts'' (.inl old)
        · exact entries ts'' (.inr mem)

end Transactions

/-! ## Queues -/

section Queues

variable {e s t : Store} {device : UserId × DeviceId} {seq : Nat} {json : Bytes}
  {table : OrdMap (UserId × DeviceId × Nat) Bytes} {userId : UserId} {deviceId : DeviceId}

theorem boxRows_insert (below : ∀ n, (userId, deviceId, n) ∈ table → n < seq) :
    boxRows (table.insert (userId, deviceId, seq) json) device =
      receive device (boxRows table device) (.queued (userId, deviceId) seq json) := by
  obtain ⟨user, name⟩ := device
  unfold boxRows
  rw [receive_queued]
  by_cases here : (userId, deviceId) = (user, name)
  · obtain ⟨rfl, rfl⟩ := Prod.mk.inj here
    rw [if_pos rfl, OrdMap.rows_insert_last (by simp), List.map_append]
    · rfl
    · rintro ⟨user', name', n⟩ mem own
      obtain ⟨rfl, rfl⟩ := of_decide_eq_true own
      rw [compare_mk_left, compare_mk_left]
      exact Nat.compare_eq_lt.2 (below n mem)
  · rw [if_neg here]
    refine congrArg _ (OrdMap.rows_congr fun k own => ?_)
    rw [OrdMap.getElem?_insert', if_neg]
    rintro rfl
    exact here (Prod.ext (of_decide_eq_true own).1 (of_decide_eq_true own).2)

theorem boxRows_queue {ids : List DeviceId} (nodup : ids.Nodup)
    (below : ∀ deviceId ∈ ids, ∀ n, (userId, deviceId, n) ∈ table → n < seq) :
    boxRows (ids.foldl (fun inbox deviceId => inbox.insert (userId, deviceId, seq) json) table) device =
      (ids.map fun deviceId => .queued (userId, deviceId) seq json).foldl (receive device)
        (boxRows table device) := by
  induction ids generalizing table with
  | nil => rfl
  | cons deviceId ids ih =>
    obtain ⟨new, nodup⟩ := List.nodup_cons.1 nodup
    rw [List.foldl_cons, ih nodup, List.map_cons, List.foldl_cons,
      boxRows_insert (below deviceId List.mem_cons_self)]
    intro other mem n stored
    rw [Std.ExtTreeMap.mem_insert, Std.LawfulEqOrd.compare_eq_iff_eq] at stored
    obtain same | old := stored
    · obtain rfl := (Prod.mk.inj (Prod.mk.inj same).2).1
      exact absurd mem new
    · exact below other (List.mem_cons_of_mem _ mem) n old

theorem nodup_targets (m : ToDeviceMessage) : (targets s m).Nodup := by
  unfold targets
  split
  · have keys := OrdMap.rows_keys_nodup s.device fun k => k.1 = m.userId
    have distinct := keys.map_on (f := Prod.snd) fun k mem k' mem' same => by
      have own := of_decide_eq_true (OrdMap.mem_rows_keys.1 mem).2
      have own' := of_decide_eq_true (OrdMap.mem_rows_keys.1 mem').2
      exact Prod.ext (own.trans own'.symm) same
    rwa [List.map_map] at distinct
  · split
    · exact List.nodup_singleton _
    · exact List.nodup_nil

/-- The numbers of the queued messages have been given out. -/
def Numbered (s : Store) : Prop := ∀ k ∈ s.toDevice, k.2.2 ≤ s.seq

def queueCopies (s : Store) (m : ToDeviceMessage) (ids : List DeviceId) : Store :=
  { s with
    seq := s.seq + 1
    emits := s.emits ++ [(s.seq + 1, ⟨m.userId⟩)]
    toDevice := ids.foldl (fun inbox deviceId =>
      inbox.insert (m.userId, deviceId, s.seq + 1) m.json) s.toDevice }

theorem queueMessage_eq (devices : t.device = s.device) (m : ToDeviceMessage) : queueMessage s t m =
      if (targets s m).isEmpty then t else queueCopies t m (targets s m) := by
  have same : (if m.deviceId = "*" then (s.devicesOf m.userId).map fun r => r.1.2
      else if t.device.contains (m.userId, m.deviceId) then [m.deviceId] else []) = targets s m := by
    rw [devices]
    rfl
  unfold queueMessage
  dsimp only
  rw [same]
  rfl

theorem Numbered.queueCopies (numbered : Numbered s) (m : ToDeviceMessage) (ids : List DeviceId) :
    Numbered (queueCopies s m ids) := by
  intro k stored
  obtain ⟨v, stored⟩ := OrdMap.mem_iff_getElem?.1 stored
  obtain ⟨deviceId, -, rfl, -⟩ | ⟨-, kept⟩ := OrdMap.foldl_insert_cases
    (fun deviceId => (m.userId, deviceId, s.seq + 1)) (fun _ => m.json) ids s.toDevice k
  · exact le_rfl
  · have old := kept.symm.trans stored
    exact (numbered k (OrdMap.mem_iff_getElem?.2 ⟨v, old⟩)).trans (Nat.le_succ _)

theorem boxRows_queueToDevice (messages : List ToDeviceMessage) (devices : t.device = s.device)
    (numbered : Numbered t) :
    (∀ device, boxRows (queueToDevice s t messages).toDevice device =
      (deliveries s t.seq messages).foldl (receive device) (boxRows t.toDevice device)) ∧
      Numbered (queueToDevice s t messages) := by
  induction messages generalizing t with
  | nil => exact ⟨fun _ => rfl, numbered⟩
  | cons m messages ih =>
    rw [queueToDevice, List.foldl_cons, ← queueToDevice, queueMessage_eq devices]
    simp only [deliveries]
    split
    · exact ih devices numbered
    · have devices' : (queueCopies t m (targets s m)).device = s.device := devices
      obtain ⟨rest, final⟩ := ih devices' (numbered.queueCopies m (targets s m))
      refine ⟨fun device => (rest device).trans ?_, final⟩
      have below : ∀ deviceId ∈ targets s m, ∀ n, (m.userId, deviceId, n) ∈ t.toDevice →
          n < t.seq + 1 := fun _ _ n stored => Nat.lt_succ_of_le (numbered _ stored)
      rw [List.foldl_append, ← boxRows_queue (nodup_targets m) below]
      rfl

theorem rows_eraseRows_covers {α β : Type} [Ord α] [Std.TransOrd α] [Std.LawfulEqOrd α]
    [DecidableEq α] {m e : OrdMap α β} {p q : α → Bool} (h : Covers q e m) :
    (m.eraseRows (e.rows q)).rows p = (m.rows p).filter fun r => !q r.1 := by
  rw [OrdMap.eraseRows_covers (fun _ mem => mem) h, OrdMap.rows_eraseRows]

theorem boxRows_ack {upTo : Nat}
    (covers : Covers (fun k => k.1 = userId ∧ k.2.1 = deviceId ∧ k.2.2 < succSaturating upTo)
      e.toDevice s.toDevice) :
    boxRows (ackToDevice e s userId deviceId upTo).1.toDevice device =
      receive device (boxRows s.toDevice device) (.acked (userId, deviceId) upTo) := by
  obtain ⟨user, name⟩ := device
  unfold boxRows ackToDevice receive
  dsimp only
  rw [rows_eraseRows_covers covers]
  by_cases here : (userId, deviceId) = (user, name)
  · obtain ⟨rfl, rfl⟩ := Prod.mk.inj here
    rw [if_pos rfl, List.filter_map]
    refine congrArg _ (List.filter_congr fun r mem => ?_)
    obtain ⟨user, name⟩ := of_decide_eq_true (OrdMap.mem_rows.1 mem).2
    simp only [Function.comp_apply, user, name, true_and, ← decide_not, not_lt]
  · rw [if_neg here]
    refine congrArg _ (List.filter_eq_self.2 fun r mem => ?_)
    obtain ⟨user, name⟩ := of_decide_eq_true (OrdMap.mem_rows.1 mem).2
    rw [Bool.not_eq_true', decide_eq_false_iff_not]
    rintro ⟨user', name', -⟩
    exact here (Prod.ext (user'.symm.trans user) (name'.symm.trans name))

theorem toDeviceEvents_eq (since : Nat) : s.toDeviceEvents userId deviceId since =
    (boxRows s.toDevice (userId, deviceId)).filter fun m => succSaturating since ≤ m.1 := by
  unfold Store.toDeviceEvents boxRows OrdMap.rows
  rw [List.filter_map, List.filter_filter]
  refine congrArg _ (List.filter_congr fun r _ => ?_)
  rw [Bool.eq_iff_iff]
  simp
  tauto

/-! ## Deleted devices -/

/-- The devices that `t` no longer has took their inboxes along, and the other inboxes are as in `s`. -/
def Dropped (s t : Store) : Prop :=
  ∀ device, boxRows t.toDevice device =
    if device ∈ s.device ∧ device ∉ t.device then [] else boxRows s.toDevice device

theorem Dropped.of_kept (devices : ∀ k ∈ s.device, k ∈ t.device) (inboxes : t.toDevice = s.toDevice) :
    Dropped s t := by
  intro device
  rw [inboxes, if_neg fun gone => gone.2 (devices device gone.1)]

theorem boxRows_deleteDevice (found : (userId, deviceId) ∈ t.device)
    (covers : InboxCovered e t userId deviceId) :
    boxRows (deleteDevice e t userId deviceId).1.toDevice device =
      if device = (userId, deviceId) then [] else boxRows t.toDevice device := by
  obtain ⟨row, found⟩ := OrdMap.mem_iff_getElem?.1 found
  obtain ⟨user, name⟩ := device
  unfold deleteDevice
  rw [found]
  unfold boxRows
  dsimp only [Store.dropTokens]
  rw [rows_eraseRows_covers covers]
  split
  · rename_i here
    obtain ⟨rfl, rfl⟩ := Prod.mk.inj here
    rw [List.map_eq_nil_iff, List.filter_eq_nil_iff]
    intro r mem
    have own := (OrdMap.mem_rows.1 mem).2
    simpa using own
  · rename_i other
    refine congrArg _ (List.filter_eq_self.2 fun r mem => ?_)
    obtain ⟨user, name⟩ := of_decide_eq_true (OrdMap.mem_rows.1 mem).2
    rw [Bool.not_eq_true', decide_eq_false_iff_not]
    rintro ⟨user', name'⟩
    exact other (Prod.ext (user.symm.trans user') (name.symm.trans name'))

theorem Dropped.deleteDevice (h : Dropped s t) (below : Deleted t s)
    (covers : (userId, deviceId) ∈ s.device → InboxCovered e s userId deviceId) :
    Dropped s (deleteDevice e t userId deviceId).1 := by
  by_cases found : (userId, deviceId) ∈ t.device
  · have there := below.device _ found
    have covers' : InboxCovered e t userId deviceId := fun k mem own =>
      covers there k (below.toDevice k mem) own
    intro device
    rw [boxRows_deleteDevice found covers', h device]
    have devices : device ∈ (Machine.deleteDevice e t userId deviceId).1.device ↔
        device ≠ (userId, deviceId) ∧ device ∈ t.device := by
      obtain ⟨row, found⟩ := OrdMap.mem_iff_getElem?.1 found
      unfold Machine.deleteDevice
      rw [found]
      exact Std.ExtTreeMap.mem_erase.trans (and_congr_left' (not_congr (by
        rw [Std.LawfulEqOrd.compare_eq_iff_eq, eq_comm])))
    grind
  · have same : (Machine.deleteDevice e t userId deviceId).1 = t := by
      unfold Machine.deleteDevice
      rw [Std.ExtTreeMap.getElem?_eq_none found]
    rw [same]
    exact h

theorem Dropped.logoutDevices {keep : Option DeviceId} (h : Dropped s t) (below : Deleted t s)
    (covers : InboxesCovered e s userId keep) :
    Deleted (logoutDevices e t userId keep) s ∧ Dropped s (logoutDevices e t userId keep) := by
  have rounds : Deleted (deleteDevicesExcept e t userId keep).1 s ∧
      Dropped s (deleteDevicesExcept e t userId keep).1 := by
    rw [deleteDevicesExcept_eq]
    refine List.foldlRecOn (motive := fun x : Store × Bool => Deleted x.1 s ∧ Dropped s x.1) _ _
      ⟨below, h⟩ fun x ih k scanned => ⟨ih.1.round k, ?_⟩
    obtain ⟨stored, own⟩ := OrdMap.mem_rows_keys.1 scanned
    obtain ⟨user, name⟩ := k
    obtain rfl : user = userId := of_decide_eq_true own
    unfold deleteRound
    split
    · exact ih.2
    · rename_i other
      exact ih.2.deleteDevice ih.1 fun here => covers name stored here other
  unfold Machine.logoutDevices
  generalize deleteDevicesExcept e t userId keep = x at rounds
  obtain ⟨u, any⟩ := x
  dsimp only at rounds ⊢
  split
  · exact ⟨⟨rounds.1.device, rounds.1.oneTimeKey, rounds.1.toDevice, rounds.1.pusher,
      rounds.1.fallbackKey⟩, rounds.2⟩
  · exact rounds

theorem foldl_dropped (device : UserId × DeviceId) (gone : List (UserId × DeviceId)) (queue : List (Nat × Bytes)) :
    (gone.map InboxEvent.dropped).foldl (receive device) queue =
      if device ∈ gone then [] else queue := by
  induction gone generalizing queue with
  | nil => rfl
  | cons k gone ih =>
    rw [List.map_cons, List.foldl_cons, ih]
    simp only [receive, List.mem_cons]
    grind

end Queues

/-! ## Commands -/

section Commands

variable {serde : SerdeJson} {e s t : Store} {r : UserResponse} {k : UserId × DeviceId}

theorem submissions_deliveries (seq : Nat) (messages : List ToDeviceMessage) :
    submissions (deliveries s seq messages) = [] := by
  induction messages generalizing seq with
  | nil => rfl
  | cons m messages ih =>
    rw [deliveries]
    split
    · exact ih seq
    · rw [submissions, List.filterMap_append, List.filterMap_map]
      refine List.append_eq_nil_iff.2 ⟨List.filterMap_eq_nil_iff.2 fun _ _ => rfl, ih (seq + 1)⟩

/-- What a command does to the records and the inboxes is what its events say. -/
structure InboxStep (e s t : Store) (events : List InboxEvent) : Prop where
  inboxes : ∀ device, boxRows t.toDevice device = events.foldl (receive device) (boxRows s.toDevice device)
  numbered : Numbered t
  remembered : ∀ past, Remembered e s past → Remembered e t (past ++ submissions events)

theorem InboxStep.drops (numbered : Numbered s) (dropped : Dropped s t)
    (inboxes : ∀ k ∈ t.toDevice, k ∈ s.toDevice) (seq : s.seq ≤ t.seq)
    (seen : t.toDeviceSeen = s.toDeviceSeen) (index : t.toDeviceSeenIdx = s.toDeviceSeenIdx) :
    InboxStep e s t
      ((s.device.toList.filter fun r => !t.device.contains r.1).map fun r => .dropped r.1) := by
  constructor
  · intro device
    have gone : device ∈ (s.device.toList.filter fun r => !t.device.contains r.1).map Prod.fst ↔
        device ∈ s.device ∧ device ∉ t.device := by
      refine (OrdMap.mem_rows_keys (m := s.device) (p := fun k => !t.device.contains k)).trans
        (and_congr_right' ?_)
      rw [Bool.not_eq_true', ← Bool.not_eq_true, Std.ExtTreeMap.contains_iff_mem]
    rw [dropped device]
    have events := foldl_dropped device
      ((s.device.toList.filter fun r => !t.device.contains r.1).map Prod.fst)
      (boxRows s.toDevice device)
    rw [List.map_map] at events
    rw [← if_congr gone rfl rfl]
    exact events.symm
  · exact fun k mem => (numbered k (inboxes k mem)).trans seq
  · intro past remembered
    have silent : submissions ((s.device.toList.filter fun r => !t.device.contains r.1).map
        fun r => .dropped r.1) = [] := by
      rw [submissions, List.filterMap_map]
      exact List.filterMap_eq_nil_iff.2 fun _ _ => rfl
    rw [silent, List.append_nil]
    exact remembered.congr seen index

theorem InboxStep.delivers {messages : List ToDeviceMessage} (before : List InboxEvent)
    (numbered : Numbered s) (scans : SameInboxes e s messages) (devices : t.device = s.device)
    (inboxes : t.toDevice = s.toDevice) (seq : t.seq = s.seq)
    (silent : ∀ device queue, before.foldl (receive device) queue = queue)
    (remembered : ∀ past, Remembered e s past → Remembered e t (past ++ submissions before)) :
    InboxStep e s (queueToDevice e t messages) (before ++ deliveries s s.seq messages) := by
  have numbered' : Numbered t := by
    intro k mem
    rw [inboxes] at mem
    exact seq ▸ numbered k mem
  obtain ⟨queued, later⟩ := boxRows_queueToDevice messages devices numbered'
  have shape := queueToDevice_frame (e := s) (s := t) messages
  rw [queueToDevice_congr scans]
  refine ⟨fun device => ?_, later, fun past known => ?_⟩
  · rw [List.foldl_append, silent, queued device, inboxes, seq]
  · have told : submissions (before ++ deliveries s s.seq messages) = submissions before := by
      rw [submissions, List.filterMap_append]
      exact (congrArg _ (submissions_deliveries s.seq messages)).trans (List.append_nil _)
    rw [told]
    exact (remembered past known).congr (by rw [shape]) (by rw [shape])

theorem mem_device_writeSession {c : SessionCmd} (written : writeSession s c = .ok t)
    (mem : k ∈ s.device) : k ∈ t.device := by
  rw [writeSession_device written, Std.ExtTreeMap.mem_insert]
  exact .inr mem

theorem mem_device_register {userId : UserId} {passwordHash : Option String} {ts : Nat}
    {session : Option SessionCmd} {registrationToken : Option String}
    (applied : applyRegister s userId passwordHash ts session registrationToken = .ok (t, r))
    (mem : k ∈ s.device) : k ∈ t.device := by
  obtain ⟨rfl, -⟩ | ⟨u, -, -, consumed, -, opened⟩ := applyRegister_eq_ok applied
  · exact mem
  have there : k ∈ (enrol u userId passwordHash ts).device := by
    rw [consumeRegToken_frame consumed]
    exact mem
  cases session with
  | none =>
    obtain rfl : t = enrol u userId passwordHash ts := opened
    exact there
  | some c => exact mem_device_writeSession opened there

theorem mem_device_createSession {c : SessionCmd} (applied : apply serde e s (.createSession c) = .ok (t, r))
    (mem : k ∈ s.device) : k ∈ t.device := by
  obtain ⟨rfl, -⟩ | ⟨-, written, -⟩ := createSession_eq_ok applied
  · exact mem
  · exact mem_device_writeSession written mem

theorem mem_device_refreshSession {old : Hash} {c : SessionCmd}
    (applied : apply serde e s (.refreshSession old c) = .ok (t, r)) (mem : k ∈ s.device) : k ∈ t.device := by
  obtain ⟨rfl, -⟩ | ⟨_, -, -, written, -⟩ := refreshSession_eq_ok applied
  · exact mem
  · exact mem_device_writeSession written mem

theorem mem_device_setDeviceName {userId : UserId} {deviceId : DeviceId} {displayName : Option String}
    (mem : k ∈ s.device) : k ∈ (setDeviceName s userId deviceId displayName).1.device := by
  unfold setDeviceName
  split
  · exact mem
  · exact Std.ExtTreeMap.mem_insert.2 (.inr mem)

section Departures

variable {userId : UserId} {deviceId : DeviceId} {hash : String} {logout : Bool}

theorem dropped_putAccount (account : Account) : Dropped s (s.putAccount userId account) :=
  .of_kept (fun _ mem => mem) rfl

theorem deleteDevice_left (scans : InboxScans e s (.deleteDevice userId deviceId))
    (applied : apply serde e s (.deleteDevice userId deviceId) = .ok (t, r)) : Deleted t s ∧ Dropped s t := by
  obtain rfl := eq_of_ok applied
  have below : Deleted (Machine.deleteDevice e s userId deviceId).1 s := Deleted.refl.step
  have dropped := (Dropped.of_kept (fun _ mem => mem) rfl).deleteDevice .refl scans
  unfold deleteOneDevice
  dsimp only
  split
  · exact ⟨⟨below.device, below.oneTimeKey, below.toDevice, below.pusher, below.fallbackKey⟩, dropped⟩
  · exact ⟨below, dropped⟩

theorem changePassword_left (scans : InboxScans e s (.changePassword userId hash logout deviceId))
    (applied : apply serde e s (.changePassword userId hash logout deviceId) = .ok (t, r)) :
    Deleted t s ∧ Dropped s t := by
  obtain ⟨rfl, -⟩ | ⟨account, known, applied⟩ := withAccount_eq_ok applied
  · exact ⟨.refl, .of_kept (fun _ mem => mem) rfl⟩
  obtain rfl := eq_of_ok applied
  dsimp only
  split
  · rename_i others
    exact (dropped_putAccount _).logoutDevices .putAccount (scans others account known)
  · exact ⟨.putAccount, dropped_putAccount _⟩

theorem adminSetPassword_left (scans : InboxScans e s (.adminSetPassword userId hash logout))
    (applied : apply serde e s (.adminSetPassword userId hash logout) = .ok (t, r)) :
    Deleted t s ∧ Dropped s t := by
  obtain ⟨rfl, -⟩ | ⟨account, known, applied⟩ := withAccount_eq_ok applied
  · exact ⟨.refl, .of_kept (fun _ mem => mem) rfl⟩
  split at applied
  · obtain rfl := eq_of_ok applied
    exact ⟨.refl, .of_kept (fun _ mem => mem) rfl⟩
  rename_i live
  obtain rfl := eq_of_ok applied
  dsimp only
  split
  · rename_i out
    exact (dropped_putAccount _).logoutDevices .putAccount (scans out account known live)
  · exact ⟨.putAccount, dropped_putAccount _⟩

theorem deactivate_left (scans : InboxScans e s (.deactivate userId))
    (applied : apply serde e s (.deactivate userId) = .ok (t, r)) : Deleted t s ∧ Dropped s t := by
  obtain ⟨rfl, -⟩ | ⟨account, known, applied⟩ := withAccount_eq_ok applied
  · exact ⟨.refl, .of_kept (fun _ mem => mem) rfl⟩
  obtain rfl := eq_of_ok applied
  exact (dropped_putAccount _).logoutDevices .putAccount (scans account known)

end Departures

theorem deduped_step {origin messageId : String} {tsMs : Nat} {messages : List ToDeviceMessage}
    (numbered : Numbered s) (scans : InboxScans e s (.sendToDeviceDeduped origin messageId tsMs messages)) :
    InboxStep e s (sendToDeviceDeduped e s origin messageId tsMs messages).1
      (inboxEvents s (.sendToDeviceDeduped origin messageId tsMs messages) t r) := by
  rw [sendToDeviceDeduped_eq]
  simp only [inboxEvents]
  by_cases seen : (origin, messageId) ∈ s.toDeviceSeen
  · have hit := Std.ExtTreeMap.contains_iff_mem.2 seen
    rw [if_pos hit, if_pos hit]
    exact ⟨fun _ => rfl, numbered, fun past known => known.drop seen⟩
  · rw [← Std.ExtTreeMap.contains_iff_mem] at seen
    rw [if_neg seen, if_neg seen]
    exact .delivers [.submitted (origin, messageId) tsMs] numbered
      (scans (Bool.eq_false_iff.2 seen)) rfl rfl rfl (fun _ _ => rfl) fun past known =>
      known.take fun mem => seen (Std.ExtTreeMap.contains_iff_mem.2 mem)

theorem inbox_apply {cmd : UserCommand} (numbered : Numbered s) (scans : InboxScans e s cmd)
    (applied : apply serde e s cmd = .ok (t, r)) : InboxStep e s t (inboxEvents s cmd t r) := by
  have shape := apply_frame applied
  have seq := seq_le_apply applied
  have grows (devices : ∀ k ∈ s.device, k ∈ t.device) (inboxes : t.toDevice = s.toDevice)
      (seen : t.toDeviceSeen = s.toDeviceSeen) (index : t.toDeviceSeenIdx = s.toDeviceSeenIdx) :=
    InboxStep.drops (e := e) numbered (.of_kept devices inboxes) (by rw [inboxes]; exact fun _ h => h)
      seq seen index
  have shrinks (left : Deleted t s ∧ Dropped s t) (seen : t.toDeviceSeen = s.toDeviceSeen)
      (index : t.toDeviceSeenIdx = s.toDeviceSeenIdx) :=
    InboxStep.drops (e := e) numbered left.2 left.1.toDevice seq seen index
  cases cmd with
  | sendToDevice messages =>
    obtain rfl := eq_of_ok applied
    exact .delivers [] numbered scans rfl rfl rfl (fun _ _ => rfl) fun past known =>
      (List.append_nil past).symm ▸ known
  | sendToDeviceDeduped origin messageId tsMs messages =>
    obtain rfl := eq_of_ok applied
    exact deduped_step numbered scans
  | ackToDevice userId deviceId upTo =>
    obtain rfl := eq_of_ok applied
    refine ⟨fun device => boxRows_ack scans, fun k mem => numbered k (OrdMap.mem_eraseRows.1 mem).1, ?_⟩
    intro past remembered
    exact (List.append_nil past).symm ▸ remembered.congr rfl rfl
  -- devices that go take their inboxes with them
  | deleteDevice userId deviceId =>
    exact shrinks (deleteDevice_left scans applied) (by rw [shape]; rfl) (by rw [shape]; rfl)
  | deleteAllDevices userId =>
    refine shrinks ?_ (by rw [shape]; rfl) (by rw [shape]; rfl)
    obtain rfl := eq_of_ok applied
    exact (Dropped.of_kept (fun _ mem => mem) rfl).logoutDevices .refl scans
  | changePassword userId passwordHash logoutOthers keepDevice =>
    exact shrinks (changePassword_left scans applied) (by rw [shape]; rfl) (by rw [shape]; rfl)
  | adminSetPassword userId passwordHash logout =>
    exact shrinks (adminSetPassword_left scans applied) (by rw [shape]; rfl) (by rw [shape]; rfl)
  | deactivate userId =>
    exact shrinks (deactivate_left scans applied) (by rw [shape]; rfl) (by rw [shape]; rfl)
  -- and no other command takes one
  | register userId passwordHash ts session =>
    rw [Machine.apply] at applied
    refine grows (fun _ => mem_device_register applied) ?_ ?_ ?_ <;> rw [shape] <;> rfl
  | registerWithToken userId passwordHash ts session registrationToken =>
    rw [Machine.apply] at applied
    refine grows (fun _ => mem_device_register applied) ?_ ?_ ?_ <;> rw [shape] <;> rfl
  | createSession c =>
    refine grows (fun _ => mem_device_createSession applied) ?_ ?_ ?_ <;> rw [shape] <;> rfl
  | refreshSession old c =>
    refine grows (fun _ => mem_device_refreshSession applied) ?_ ?_ ?_ <;> rw [shape] <;> rfl
  | upsertDevice userId deviceId displayName ts =>
    refine grows (fun k mem => ?_) ?_ ?_ ?_
    · obtain rfl := eq_of_ok applied
      exact Std.ExtTreeMap.mem_insert.2 (.inr mem)
    all_goals rw [shape]; rfl
  | setDeviceName userId deviceId displayName =>
    refine grows (fun k mem => ?_) ?_ ?_ ?_
    · obtain rfl := eq_of_ok applied
      exact mem_device_setDeviceName mem
    all_goals rw [shape]; rfl
  | _ =>
    refine grows ?_ ?_ ?_ ?_
    · rw [shape]
      exact fun _ mem => mem
    all_goals rw [shape]; rfl

end Commands

/-! ## Runs -/

section Run

open Shard (applyEntry)

variable {serde : SerdeJson} {e s t : Shard.State (UserApp serde)} {history : List InboxEvent}

/-- What a run's history says about the store. -/
structure Delivered (e s : Store) (history : List InboxEvent) : Prop where
  inboxes : ∀ device, boxRows s.toDevice device = inbox device history
  numbered : Numbered s
  remembered : Remembered e s (submissions history)

theorem Delivered.step {e s t : Store} {events : List InboxEvent} (h : Delivered e s history)
    (step : InboxStep e s t events) : Delivered e t (history ++ events) where
  inboxes device := by
    rw [step.inboxes, h.inboxes, inbox, inbox, List.foldl_append]
  numbered := step.numbered
  remembered := by
    rw [submissions, List.filterMap_append]
    exact step.remembered _ h.remembered

theorem Delivered.empty : Delivered .empty .empty [] := by
  refine ⟨fun _ => ?_, fun k mem => ?_, ⟨fun txn _ => ⟨fun mem => ?_, fun ts => ⟨fun mem => ?_,
    fun mem => ?_⟩⟩, fun txn ts within => ?_⟩⟩
  · simp [boxRows, OrdMap.rows, Store.empty, inbox]
  · simp [Store.empty] at mem
  · simp [Store.empty] at mem
  · simp [Store.empty] at mem
  · simp [Store.empty] at mem
  · obtain ⟨before, after, cut, -⟩ := within
    simp [submissions] at cut

theorem UserRun.delivered
    (run : UserRun InboxesFound (fun _ _ _ => True) inboxEvents serde e s history) :
    Delivered e.app s.app history := by
  refine UserRun.invariant (I := Delivered) Delivered.empty ?_ ?_ ?_ run
  · exact fun h => ⟨h.inboxes, h.numbered, h.remembered.cut⟩
  · intro e s t cmd r history h found applied
    exact h.step (inbox_apply h.numbered found.scans applied)
  · intro e s t target history h _ migrated
    have shape := migrate_frame migrated
    refine ⟨?_, ?_, h.remembered.congr (by rw [shape]) (by rw [shape])⟩
    · rw [shape]
      exact h.inboxes
    · rw [shape]
      exact h.numbered

theorem submitted_once {e s t : Store} {past : List ((String × String) × Nat)} {r : UserResponse}
    {origin messageId : String} {tsMs : Nat} {messages : List ToDeviceMessage} (h : Remembered e s past)
    (applied : apply serde e s (.sendToDeviceDeduped origin messageId tsMs messages) = .ok (t, r)) :
    ((origin, messageId) ∉ past.map Prod.fst →
      inboxEvents s (.sendToDeviceDeduped origin messageId tsMs messages) t r =
        .submitted (origin, messageId) tsMs :: deliveries s s.seq messages) ∧
    ∀ first, InHorizon past (origin, messageId) first → t = s ∧
      inboxEvents s (.sendToDeviceDeduped origin messageId tsMs messages) t r =
        [.submitted (origin, messageId) tsMs] := by
  constructor
  · intro new
    have unseen := (h.unseen (origin, messageId) new).1
    rw [← Std.ExtTreeMap.contains_iff_mem] at unseen
    simp only [inboxEvents, if_neg unseen]
  · intro first within
    have seen := (h.seen (origin, messageId) first within).1
    rw [← Std.ExtTreeMap.contains_iff_mem] at seen
    refine ⟨?_, by simp only [inboxEvents, if_pos seen]⟩
    rw [eq_of_ok applied, sendToDeviceDeduped_eq, if_pos seen]

def txnEntry (logId : Shard.LogId) (origin messageId : String) (tsMs : Nat)
    (messages : List ToDeviceMessage) : Shard.Entry UserCommand :=
  ⟨logId, .normal (.sendToDeviceDeduped origin messageId tsMs messages)⟩

/-- **Inboxes deliver.** In a run whose scans of devices and inboxes find what the batch wrote, and in
which no user, device or origin has a zero byte in its name, reading an inbox from a position on gives the messages queued for the device past it and not acknowledged, in
queue order. A transaction is delivered when it is submitted first, each of its messages once to each
device that it is addressed to, and again submitted within its horizon it delivers nothing. -/
theorem inboxes_deliver (run : UserRun InboxesFound (fun _ _ _ => True) inboxEvents serde e s history) :
    (∀ userId deviceId since, Plain userId → Plain deviceId → s.app.toDeviceEvents userId deviceId since =
      (inbox (userId, deviceId) history).filter fun m => succSaturating since ≤ m.1) ∧
    ∀ logId origin messageId tsMs messages t r,
      applyEntry (UserApp serde) e s (txnEntry logId origin messageId tsMs messages) = .ok (t, r) →
      ((origin, messageId) ∉ (submissions history).map Prod.fst →
        entryEvents inboxEvents s (txnEntry logId origin messageId tsMs messages) t r =
          .submitted (origin, messageId) tsMs :: deliveries s.app s.app.seq messages) ∧
      ∀ first, InHorizon (submissions history) (origin, messageId) first →
        t.app = s.app ∧
        entryEvents inboxEvents s (txnEntry logId origin messageId tsMs messages) t r =
          [.submitted (origin, messageId) tsMs] := by
  have delivered := run.delivered
  refine ⟨fun userId deviceId since _ _ => (toDeviceEvents_eq since).trans
    (congrArg (List.filter _) (delivered.inboxes (userId, deviceId))), ?_⟩
  intro logId origin messageId tsMs messages t r applied
  obtain ⟨⟨app, answer⟩, step, told⟩ := bind_eq_ok.1 applied
  obtain ⟨rfl, rfl⟩ := ok_pair told
  have step : apply serde e.app s.app (.sendToDeviceDeduped origin messageId tsMs messages) =
      .ok (app, answer) := step
  exact submitted_once delivered.remembered step

def sampleDevice : Shard.Entry UserCommand :=
  ⟨⟨1, 1, 1⟩, .normal (.register "@a:x" none 0 (some ⟨"@a:x", "D", none, 7, none, none, 0⟩))⟩

def sampleTxn (tsMs : Nat) : Shard.Entry UserCommand :=
  txnEntry ⟨1, 1, 2⟩ "o" "m" tsMs [⟨"@a:x", "*", [1]⟩]

def sampleTold : List InboxEvent := [.submitted ("o", "m") 5, .queued ("@a:x", "D") 1 [1]]

theorem inboxes_deliver_twice : ∃ s t : Shard.State (UserApp .sample), s.app.toDeviceEvents "@a:x" "D" 0 =
      ((inbox ("@a:x", "D") sampleTold).filter fun m => succSaturating 0 ≤ m.1) ∧
    (∃ r, applyEntry (UserApp .sample) s s (sampleTxn 9) = .ok (t, r)) ∧ t.app = s.app := by
  have h : (Batch.record (applyEntry (UserApp .sample)) (entryEvents inboxEvents)
      (.fresh Store.empty, []) ([sampleDevice, sampleTxn 5].map fun entry =>
        [entry])).toOption.any (fun x => decide (x.2 = sampleTold) &&
          (applyEntry (UserApp .sample) x.1 x.1 (sampleTxn 9)).toOption.isSome) = true := by
    decide +kernel
  obtain ⟨⟨s, history⟩, applied, checks⟩ := (Option.any_eq_true _ _).1 h
  obtain ⟨told, again⟩ := Bool.and_eq_true_iff.1 checks
  obtain rfl := of_decide_eq_true told
  obtain ⟨⟨t, r⟩, next⟩ := Option.isSome_iff_exists.1 again
  have next := toOption_eq_some.1 next
  have meets : ∀ (s : Shard.State (UserApp .sample)) (entry : Shard.Entry UserCommand),
      entry ∈ [sampleDevice, sampleTxn 5] → EntryMeets InboxesFound (fun _ _ _ => True) s s entry := by
    intro s entry mem
    simp only [List.mem_cons, List.not_mem_nil, or_false] at mem
    obtain rfl | rfl := mem
    · exact ⟨trivial, by decide +kernel⟩
    · exact ⟨fun _ _ _ _ => rfl, by decide +kernel⟩
  have run : UserRun InboxesFound (fun _ _ _ => True) inboxEvents .sample s s sampleTold :=
    Batch.Recorded.start.singly (toOption_eq_some.1 applied) meets
  have within : InHorizon (submissions sampleTold) ("o", "m") 5 := ⟨[], [], rfl, by simp, nofun⟩
  obtain ⟨read, once⟩ := inboxes_deliver run
  exact ⟨s, t, read "@a:x" "D" 0 (by decide +kernel) (by decide +kernel), ⟨r, next⟩, ((once _ _ _ _ _ t r next).2 5 within).1⟩

/-- The device is registered in the batch that carries the transaction, and misses its message. -/
theorem batch_misses_device : ∃ e s : Shard.State (UserApp .sample),
    UserRun (fun _ _ _ => True) (fun _ _ _ => True) inboxEvents .sample e s sampleTold ∧
    inbox ("@a:x", "D") sampleTold = [(1, [1])] ∧
    s.app.toDeviceEvents "@a:x" "D" 0 = [] := by
  have h : (Batch.recordBatch (applyEntry (UserApp .sample)) (entryEvents inboxEvents)
      (.fresh Store.empty) (.fresh Store.empty, []) [sampleDevice, sampleTxn 5]).toOption.any (fun x =>
        decide (x.2 = sampleTold) && decide (x.1.app.toDeviceEvents "@a:x" "D" 0 = [])) = true := by
    decide +kernel
  obtain ⟨⟨s, history⟩, applied, checks⟩ := (Option.any_eq_true _ _).1 h
  obtain ⟨told, missed⟩ := Bool.and_eq_true_iff.1 checks
  obtain rfl := of_decide_eq_true told
  have run : UserRun (fun _ _ _ => True) (fun _ _ _ => True) inboxEvents .sample _ s _ :=
    Batch.Recorded.start.batch (toOption_eq_some.1 applied) fun _ entry _ => by
      unfold EntryMeets
      split <;> trivial
  exact ⟨_, s, run, by decide, of_decide_eq_true missed⟩

end Run

end Saltator.User
