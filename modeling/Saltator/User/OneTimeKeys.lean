import Saltator.Lib.Batch
import Saltator.User.MachineSpec
import Saltator.User.RowKeys

/-!
# One-time keys

A claim hands out the oldest key that its scan finds and deletes it. The scan sees the store as it
was when the batch began, so a second claim in the same batch finds the deleted key again.
`one_time_keys_once` says that this is the only way in which a key is handed out twice, as long as no
device's rows lie among those of another; `claim_twice_in_one_command` is an instance of it.
-/

namespace Saltator.User

open Std
open Saltator.Outcome
open Machine

/-- User, device and key id. -/
abbrev OtkSlot := UserId × DeviceId × String

/-- What a command does to one-time keys, in order. -/
inductive KeyAction where
  | upload (slot : OtkSlot)
  | claim (req : ClaimRequest)
  deriving DecidableEq

def UserCommand.keyActions : UserCommand → List KeyAction
  | .uploadKeys userId deviceId _ oneTimeKeys _ =>
    oneTimeKeys.map fun key => .upload (userId, deviceId, key.1)
  | .claimKeys claims => claims.map .claim
  | _ => []

inductive KeyEvent where
  | uploaded (slot : OtkSlot)
  | handedOut (slot : OtkSlot)
  deriving DecidableEq

/-- The event of an action in a batch that began in `e`. A claim that finds no one-time key has
none, whether or not it falls back to another key. -/
def KeyAction.event (e : Store) : KeyAction → Option KeyEvent
  | .upload slot => some (.uploaded slot)
  | .claim req => (oldestKey e req).map fun r => .handedOut r.1

/-- The events of a batch that began in `e`. -/
def keyEvents (e : Store) (actions : List KeyAction) : List KeyEvent :=
  actions.filterMap (KeyAction.event e)

def ClaimRequest.Asks (req : ClaimRequest) (slot : OtkSlot) : Prop :=
  slot.1 = req.userId ∧ slot.2.1 = req.deviceId ∧ ofAlgorithm req.algorithm slot.2.2

/-- Of two claims that ask for a key the store held when the batch began, the second follows an
upload of that key. -/
def Uncontended (e : Store) (actions : List KeyAction) : Prop :=
  ∀ before mid after req req', actions = before ++ .claim req :: (mid ++ .claim req' :: after) →
    ∀ slot entry, e.oneTimeKey[slot]? = some entry → req.Asks slot → req'.Asks slot →
      KeyAction.upload slot ∈ mid

/-- No claims contend for a key, and no user or device has a zero byte in its name. -/
structure KeysApart (e : Store) (cmds : List UserCommand) : Prop where
  uncontended : Uncontended e (cmds.flatMap UserCommand.keyActions)
  plain : ∀ cmd ∈ cmds, cmd.PlainDevices

/-- The stores that batches lead to from a fresh shard, with what became of one-time keys on the
way. Each batch meets `P`. -/
inductive KeyRun (serde : SerdeJson) (P : Store → List UserCommand → Prop) :
    Store → List KeyEvent → Prop
  | fresh : KeyRun serde P Store.empty []
  | batch {s t : Store} {history : List KeyEvent} {cmds : List UserCommand}
      {rs : List UserResponse} (run : KeyRun serde P s history)
      (applied : Batch.applyBatch (apply serde) s cmds = .ok (t, rs))
      (meets : P s cmds) :
      KeyRun serde P t (history ++ keyEvents s (cmds.flatMap UserCommand.keyActions))

/-- Handed out, and not uploaded since. -/
def Spent (history : List KeyEvent) (slot : OtkSlot) : Prop :=
  ∃ before after, history = before ++ .handedOut slot :: after ∧ KeyEvent.uploaded slot ∉ after

/-- Nothing is handed out while it is spent. -/
def Once (history : List KeyEvent) : Prop :=
  ∀ before after slot, history = before ++ .handedOut slot :: after → ¬ Spent before slot

/-! ## Histories -/

section History

variable {history events : List KeyEvent} {slot : OtkSlot}

theorem spent_append (h : Spent (history ++ events) slot) :
    Spent events slot ∨ (Spent history slot ∧ KeyEvent.uploaded slot ∉ events) := by
  obtain ⟨before, after, cut, notUploaded⟩ := h
  obtain ⟨more, rfl, rfl⟩ | ⟨more, rfl, tail⟩ := List.append_eq_append_iff.1 cut
  · exact .inl ⟨more, after, rfl, notUploaded⟩
  · cases more with
    | nil =>
      rw [List.nil_append] at tail
      exact .inl ⟨[], after, tail.symm, notUploaded⟩
    | cons event more =>
      obtain ⟨rfl, rfl⟩ := List.cons.inj tail
      change KeyEvent.uploaded slot ∉ more ++ events at notUploaded
      rw [List.mem_append, not_or] at notUploaded
      exact .inr ⟨⟨before, more, rfl, notUploaded.1⟩, notUploaded.2⟩

theorem once_snoc {event : KeyEvent} (h : Once history)
    (unspent : ∀ slot, event = .handedOut slot → ¬ Spent history slot) :
    Once (history ++ [event]) := by
  intro before after slot cut
  obtain rfl | ⟨rest, last, rfl⟩ := List.eq_nil_or_concat after
  · obtain ⟨rfl, same⟩ := List.append_inj' cut rfl
    exact unspent slot (List.singleton_inj.1 same)
  · have cut' : history ++ [event] = (before ++ .handedOut slot :: rest) ++ [last] := by
      simpa using cut
    exact h before rest slot (List.append_inj' cut' rfl).1

end History

/-! ## One batch -/

section OneBatch

variable {serde : SerdeJson} {e s t : Store} {r : UserResponse} {history : List KeyEvent}
  {slot : OtkSlot} {cmd : UserCommand}

theorem oldestKey_spec {req : ClaimRequest} {entry : OtkEntry}
    (h : oldestKey e req = some (slot, entry)) :
    e.oneTimeKey[slot]? = some entry ∧ req.Asks slot := by
  have listed := List.argmin_mem h
  rw [List.mem_filter, Store.oneTimeKeysOf, OrdMap.mem_rows] at listed
  obtain ⟨⟨stored, scope⟩, algorithm⟩ := listed
  obtain ⟨user, device⟩ := of_decide_eq_true scope
  exact ⟨stored, user, device, algorithm⟩

theorem once_batch {actions : List KeyAction} (quiet : Uncontended e actions) (once : Once history)
    (gone : ∀ slot, Spent history slot → e.oneTimeKey[slot]? = none) :
    Once (history ++ keyEvents e actions) := by
  suffices general : ∀ todo done, actions = done ++ todo → Once (history ++ keyEvents e done) →
      Once (history ++ keyEvents e actions) from general actions [] rfl (by simpa [keyEvents])
  intro todo
  induction todo with
  | nil =>
    rintro done rfl h
    simpa using h
  | cons action todo ih =>
    intro done cut h
    refine ih (done ++ [action]) (by simp [cut]) ?_
    rw [keyEvents, List.filterMap_append, ← List.append_assoc]
    cases hevent : action.event e with
    | none => simpa [keyEvents, List.filterMap_cons, hevent] using h
    | some event =>
      simp only [List.filterMap_cons, hevent, List.filterMap_nil]
      refine once_snoc h fun slot heq spent => ?_
      subst heq
      -- The claim found the key in the store the batch began in.
      obtain ⟨req, rfl⟩ : ∃ req, action = .claim req := by
        cases action with
        | upload => simp [KeyAction.event] at hevent
        | claim req => exact ⟨req, rfl⟩
      obtain ⟨⟨slot', entry⟩, hit, heq⟩ := Option.map_eq_some_iff.1 hevent
      obtain rfl := KeyEvent.handedOut.inj heq
      obtain ⟨stored, asks⟩ := oldestKey_spec hit
      obtain inBatch | ⟨earlier, -⟩ := spent_append spent
      · -- An earlier claim of the batch found the same key.
        obtain ⟨before, after, split, notUploaded⟩ := inBatch
        obtain ⟨first, rest, rfl, -, hrest⟩ := List.filterMap_eq_append_iff.1 split
        obtain ⟨skipped, other, more, rfl, hnone, hother, hmore⟩ :=
          List.filterMap_eq_cons_iff.1 hrest
        obtain ⟨req', rfl⟩ : ∃ req', other = .claim req' := by
          cases other with
          | upload => simp [KeyAction.event] at hother
          | claim req' => exact ⟨req', rfl⟩
        obtain ⟨⟨slot', entry'⟩, hit', heq'⟩ := Option.map_eq_some_iff.1 hother
        obtain rfl := KeyEvent.handedOut.inj heq'
        obtain ⟨-, asks'⟩ := oldestKey_spec hit'
        have uploaded := quiet (first ++ skipped) more todo req' req (by simp [cut]) slot' entry
          stored asks' asks
        refine notUploaded ?_
        rw [← hmore]
        exact List.mem_filterMap.2 ⟨_, uploaded, rfl⟩
      · simp [gone _ earlier] at stored

/-! ### The stored keys -/

/-- No key is added. -/
def KeepsOut (s t : Store) : Prop :=
  ∀ slot : OtkSlot, (t.oneTimeKey[slot]?).isSome → (s.oneTimeKey[slot]?).isSome

theorem keepsOut_of_eq (h : t.oneTimeKey = s.oneTimeKey) : KeepsOut s t := by
  intro slot stored
  rwa [h] at stored

theorem deleteDevice_keepsOut (userId : UserId) (deviceId : DeviceId) :
    KeepsOut s (deleteDevice e s userId deviceId).1 := by
  unfold deleteDevice
  split
  · exact fun _ h => h
  · intro slot stored
    dsimp only at stored
    rw [OrdMap.getElem?_eraseRows] at stored
    split at stored
    · simp at stored
    · exact stored

theorem deleteDevicesExcept_keepsOut (userId : UserId) (keep : Option DeviceId) :
    KeepsOut s (deleteDevicesExcept e s userId keep).1 := by
  refine List.foldlRecOn (motive := fun x : Store × Bool => KeepsOut s x.1) (e.devicesOf userId) _
    (fun _ h => h) fun x ih row _ => ?_
  dsimp only
  split
  · exact ih
  · exact fun slot stored => ih slot (deleteDevice_keepsOut userId row.1.2 slot stored)

theorem logoutDevices_keepsOut (userId : UserId) (keep : Option DeviceId) :
    KeepsOut s (logoutDevices e s userId keep) := by
  have deleted := deleteDevicesExcept_keepsOut (e := e) (s := s) userId keep
  unfold logoutDevices
  generalize deleteDevicesExcept e s userId keep = x at deleted ⊢
  dsimp only
  split
  · exact deleted
  · exact deleted

theorem uploadOneTimeKeys_stored {userId : UserId} {deviceId : DeviceId} {keys : List (String × Bytes)}
    (h : ((uploadOneTimeKeys e s userId deviceId keys).store.oneTimeKey[slot]?).isSome) :
    (s.oneTimeKey[slot]?).isSome ∨ ∃ key ∈ keys, slot = (userId, deviceId, key.1) := by
  refine List.foldlRecOn (motive := fun x : UploadRun => (x.store.oneTimeKey[slot]?).isSome →
    (s.oneTimeKey[slot]?).isSome ∨ ∃ key ∈ keys, slot = (userId, deviceId, key.1)) keys _ .inl
    (fun x ih key hkey stored => ?_) h
  unfold uploadKey at stored
  split at stored
  · dsimp only at stored
    rw [OrdMap.getElem?_insert'] at stored
    split at stored
    · rename_i here
      exact .inr ⟨key, hkey, here⟩
    · exact ih stored
  · exact ih stored

theorem claimKeys_stored {claims : List ClaimRequest}
    (h : ((claimKeys e s claims).1.oneTimeKey[slot]?).isSome) :
    (s.oneTimeKey[slot]?).isSome ∧ KeyEvent.handedOut slot ∉ keyEvents e (claims.map .claim) := by
  have loop : ∀ (claims : List ClaimRequest) (x : Store × List ClaimedKey),
      ((claims.foldl (claimStep e) x).1.oneTimeKey[slot]?).isSome →
      (x.1.oneTimeKey[slot]?).isSome ∧ KeyEvent.handedOut slot ∉ keyEvents e (claims.map .claim) := by
    intro claims
    induction claims with
    | nil => exact fun _ stored => ⟨stored, by simp [keyEvents]⟩
    | cons req claims ih =>
      intro x stored
      obtain ⟨stored, later⟩ := ih _ stored
      have one : (x.1.oneTimeKey[slot]?).isSome ∧
          (oldestKey e req).map (fun r => KeyEvent.handedOut r.1) ≠ some (.handedOut slot) := by
        simp only [claimStep] at stored
        unfold claimKey at stored
        split at stored
        · rename_i key entry hit
          dsimp only at stored
          rw [OrdMap.getElem?_erase'] at stored
          split at stored
          · simp at stored
          · rename_i other
            refine ⟨stored, ?_⟩
            rw [hit]
            simpa using fun same : key = slot => other same.symm
        · rename_i miss
          refine ⟨?_, by simp [miss]⟩
          unfold claimFallback at stored
          dsimp only at stored
          split at stored
          · exact stored
          · dsimp only at stored
            split at stored
            · exact stored
            · exact stored
      refine ⟨one.1, fun mem => ?_⟩
      rw [keyEvents, List.map_cons, List.filterMap_cons] at mem
      split at mem
      · exact later mem
      · rename_i event hevent
        obtain rfl | mem := List.mem_cons.1 mem
        · exact one.2 hevent
        · exact later mem
  exact loop claims (s, []) h

theorem apply_stored (h : apply serde e s cmd = .ok (t, r))
    (stored : (t.oneTimeKey[slot]?).isSome) : (KeyEvent.uploaded slot ∈ keyEvents e cmd.keyActions ∧
        ∀ slot', KeyEvent.handedOut slot' ∉ keyEvents e cmd.keyActions) ∨
      ((s.oneTimeKey[slot]?).isSome ∧ KeyEvent.handedOut slot ∉ keyEvents e cmd.keyActions) := by
  have idle : cmd.keyActions = [] → KeepsOut s t → (s.oneTimeKey[slot]?).isSome ∧
      KeyEvent.handedOut slot ∉ keyEvents e cmd.keyActions := by
    intro none keeps
    refine ⟨keeps slot stored, ?_⟩
    simp [none, keyEvents]
  have same := congrArg Store.oneTimeKey (apply_frame h)
  cases cmd with
  | uploadKeys userId deviceId deviceKeys oneTimeKeys fallbackKeys =>
    obtain rfl := eq_of_ok h
    have fallback := congrArg Store.oneTimeKey (uploadFallbacks_frame userId deviceId fallbackKeys
      (s := (uploadOneTimeKeys e (putDeviceKeys s userId deviceId deviceKeys) userId deviceId
        oneTimeKeys).store))
    change (uploadKeys e s userId deviceId deviceKeys oneTimeKeys fallbackKeys).1.oneTimeKey = _ at fallback
    rw [fallback] at stored
    have device : (putDeviceKeys s userId deviceId deviceKeys).oneTimeKey = s.oneTimeKey := by
      unfold putDeviceKeys
      split <;> rfl
    have noClaim : ∀ slot', KeyEvent.handedOut slot' ∉ keyEvents e
        (UserCommand.uploadKeys userId deviceId deviceKeys oneTimeKeys fallbackKeys).keyActions := by
      simp [UserCommand.keyActions, keyEvents, KeyAction.event]
    obtain old | ⟨key, hkey, rfl⟩ := uploadOneTimeKeys_stored stored
    · rw [device] at old
      exact .inr ⟨old, noClaim slot⟩
    · refine .inl ⟨?_, noClaim⟩
      simp only [UserCommand.keyActions, keyEvents, List.filterMap_map, List.mem_filterMap]
      exact ⟨key, hkey, rfl⟩
  | claimKeys claims =>
    obtain rfl := eq_of_ok h
    exact .inr (claimKeys_stored stored)
  | deleteDevice userId deviceId =>
    obtain rfl := eq_of_ok h
    refine .inr (idle rfl ?_)
    have deleted := deleteDevice_keepsOut (e := e) (s := s) userId deviceId
    unfold deleteOneDevice
    generalize deleteDevice e s userId deviceId = x at deleted ⊢
    dsimp only
    split
    · exact deleted
    · exact deleted
  | deleteAllDevices userId =>
    obtain rfl := eq_of_ok h
    exact .inr (idle rfl (logoutDevices_keepsOut userId none))
  | changePassword | adminSetPassword =>
    refine .inr (idle rfl ?_)
    obtain rfl | ⟨account, hash, -, rfl | ⟨keep, rfl⟩⟩ := setsPassword_cases h rfl
    · exact keepsOut_of_eq rfl
    · exact keepsOut_of_eq rfl
    · exact logoutDevices_keepsOut _ keep
  | deactivate userId =>
    refine .inr (idle rfl ?_)
    obtain ⟨rfl, -⟩ | ⟨account, -, h⟩ := withAccount_eq_ok h
    · exact keepsOut_of_eq rfl
    · obtain rfl := eq_of_ok h
      exact logoutDevices_keepsOut userId none
  | _ => exact .inr (idle rfl (keepsOut_of_eq same))

theorem spent_command (h : apply serde e s cmd = .ok (t, r))
    (gone : ∀ slot, Spent history slot → s.oneTimeKey[slot]? = none) :
    ∀ slot, Spent (history ++ keyEvents e cmd.keyActions) slot → t.oneTimeKey[slot]? = none := by
  intro slot spent
  by_contra stored
  obtain ⟨uploaded, noClaim⟩ | ⟨kept, notHandedOut⟩ :=
    apply_stored h (Option.isSome_iff_ne_none.2 stored)
  · obtain ⟨before, after, split, -⟩ | ⟨-, notUploaded⟩ := spent_append spent
    · exact noClaim slot (by simp [split])
    · exact notUploaded uploaded
  · obtain ⟨before, after, split, -⟩ | ⟨earlier, -⟩ := spent_append spent
    · exact notHandedOut (by simp [split])
    · simp [gone slot earlier] at kept

theorem spent_batch {cmds : List UserCommand} {rs : List UserResponse}
    (h : Batch.applyFrom (apply serde) e s cmds = .ok (t, rs))
    (gone : ∀ slot, Spent history slot → s.oneTimeKey[slot]? = none) :
    ∀ slot, Spent (history ++ keyEvents e (cmds.flatMap UserCommand.keyActions)) slot →
      t.oneTimeKey[slot]? = none := by
  induction cmds generalizing s history rs with
  | nil =>
    obtain ⟨rfl, -⟩ := ok_pair h
    simpa [keyEvents] using gone
  | cons cmd cmds ih =>
    obtain ⟨u, first, rest, happly, hrest, -⟩ := (Batch.applyFrom_cons_ok _).1 h
    have later := ih hrest (spent_command happly gone)
    intro slot spent
    refine later slot ?_
    rw [List.append_assoc, keyEvents, keyEvents, ← List.filterMap_append]
    simpa [keyEvents] using spent

end OneBatch

/-! ## Runs -/

section Run

variable {serde : SerdeJson} {s : Store} {history : List KeyEvent}

def keyTrace (serde : SerdeJson) : Store → List (List UserCommand) → Option (Store × List KeyEvent)
  | s, [] => some (s, [])
  | s, cmds :: batches =>
    match Batch.applyBatch (apply serde) s cmds with
    | .error _ => none
    | .ok (t, _) => (keyTrace serde t batches).map fun x =>
        (x.1, keyEvents s (cmds.flatMap UserCommand.keyActions) ++ x.2)

theorem keyTrace_run {P : Store → List UserCommand → Prop} {batches : List (List UserCommand)}
    {t : Store} {events : List KeyEvent} (h : keyTrace serde s batches = some (t, events))
    (meets : ∀ s, ∀ cmds ∈ batches, P s cmds)
    (run : KeyRun serde P s history) : KeyRun serde P t (history ++ events) := by
  induction batches generalizing s history events with
  | nil =>
    obtain ⟨rfl, rfl⟩ := some_pair h
    simpa using run
  | cons cmds batches ih =>
    unfold keyTrace at h
    split at h
    · simp at h
    · rename_i u rs applied
      obtain ⟨⟨t', more⟩, hmore, heq⟩ := Option.map_eq_some_iff.1 h
      obtain ⟨rfl, rfl⟩ := Prod.mk.inj heq
      rw [← List.append_assoc]
      exact ih hmore (fun s b hb => meets s b (List.mem_cons_of_mem _ hb))
        (run.batch applied (meets s cmds List.mem_cons_self))

theorem uncontended_of_length {e : Store} {actions : List KeyAction} (h : actions.length ≤ 1) :
    Uncontended e actions := by
  rintro before mid after req req' rfl
  simp only [List.length_append, List.length_cons] at h
  omega

def sampleUpload : UserCommand := .uploadKeys "@a:x" "D" none [("alg:1", [1])] []

def sampleClaim : ClaimRequest := ⟨"@a:x", "D", "alg"⟩

end Run

end Saltator.User
