import Mathlib.Data.Prod.Lex
import Saltator.User.History
import Saltator.User.RowKeys
import Saltator.User.Scans

/-!
# Key backups

A backup version counts its sessions and stamps every change of them, and keeps the best key that was
uploaded for a session. All of it is bookkeeping by hand: `BackupStep` says what a command does to the
books, and `backups_kept` that they are right in every run in which a backup command scans what it is
applied to.

A key that was deleted is forgotten, so a worse one may be stored after it (`worse_after_deletion`).
-/

namespace Saltator.User

open Machine
open Saltator.Outcome

/-- User, version, room and session. -/
abbrev BackupSlot := UserId × Nat × RoomId × String

/-- What becomes of a user's backups. -/
inductive BackupEvent where
  | minted (userId : UserId) (version : Nat)
  | uploaded (slot : BackupSlot) (json : Bytes)
  | deleted (slot : BackupSlot)
  deriving DecidableEq

def Store.backupKeysOf (s : Store) (userId : UserId) (version : Nat) : List (BackupSlot × Bytes) :=
  s.backupKey.rows fun k => k.1 = userId ∧ k.2.1 = version

/-- What a command does to backups: uploads to a version that is there, and deletions of the sessions
that are stored. -/
def backupEvents (s : Store) (cmd : UserCommand) (_ : Store) (r : UserResponse) : List BackupEvent :=
  match cmd, r with
  | .createBackupVersion userId _ _, .backupVersion version => [.minted userId version]
  | .putBackupKeys userId version keys, _ =>
    if (s.backupMeta userId version).isSome then
      keys.map fun key => .uploaded (userId, version, key.1, key.2.1) key.2.2
    else []
  | .deleteBackupVersion userId version, _ =>
    if (s.backupMeta userId version).isSome then
      (s.backupKeysOf userId version).map fun r => .deleted r.1
    else []
  | .deleteBackupKeys userId version roomId sessionId, _ =>
    if (s.backupMeta userId version).isSome then
      (backupKeysToDelete s s userId version roomId sessionId).map fun r => .deleted r.1
    else []
  | _, _ => []

def mintedVersions (history : List BackupEvent) : List (UserId × Nat) :=
  history.filterMap fun
    | .minted userId version => some (userId, version)
    | _ => none

/-- The key was uploaded for the session, which has not been deleted since. -/
def Offered (history : List BackupEvent) (slot : BackupSlot) (json : Bytes) : Prop :=
  ∃ before after, history = before ++ .uploaded slot json :: after ∧ BackupEvent.deleted slot ∉ after

def keyRank (serde : SerdeJson) (json : Bytes) : Bool ×ₗ Int ×ₗ Int :=
  let (verified, index, forwarded) := backupFields serde json
  toLex (!verified, toLex (index, forwarded))

def UserCommand.isBackup : UserCommand → Bool
  | .createBackupVersion .. | .updateBackupVersion .. | .deleteBackupVersion .. | .putBackupKeys ..
  | .deleteBackupKeys .. => true
  | _ => false

/-- A backup command scans what it would scan in the state that it is applied to, and the sessions of
its user and rooms only. -/
def BackupScans (e s : Store) (cmd : UserCommand) : Prop :=
  cmd.isBackup → SameScans e s cmd ∧ cmd.PlainBackups

/-! ## Ranks and offers -/

section Offers

variable {serde : SerdeJson} {history : List BackupEvent} {slot : BackupSlot} {json : Bytes}
  {keys : OrdMap BackupSlot Bytes} {event : BackupEvent}

theorem backupKeyWins_iff {new old : Bytes} :
    backupKeyWins serde new old = true ↔ keyRank serde new < keyRank serde old := by
  unfold backupKeyWins keyRank
  obtain ⟨newVerified, newIndex, newForwarded⟩ := backupFields serde new
  obtain ⟨oldVerified, oldIndex, oldForwarded⟩ := backupFields serde old
  simp only [Prod.Lex.toLex_lt_toLex]
  simp only [Bool.lt_iff]
  cases newVerified <;> cases oldVerified <;> grind

theorem offered_append_singleton : Offered (history ++ [event]) slot json ↔
      event = .uploaded slot json ∨ event ≠ .deleted slot ∧ Offered history slot json := by
  constructor
  · rintro ⟨before, after, cut, kept⟩
    obtain rfl | ⟨rest, last, rfl⟩ := List.eq_nil_or_concat after
    · exact .inl (List.singleton_inj.1 (List.append_inj' cut rfl).2)
    · have cut' : history ++ [event] = (before ++ .uploaded slot json :: rest) ++ [last] := by
        simpa using cut
      obtain ⟨rfl, same⟩ := List.append_inj' cut' rfl
      obtain rfl := List.singleton_inj.1 same
      rw [List.concat_eq_append, List.mem_append, List.mem_singleton, not_or] at kept
      exact .inr ⟨fun gone => kept.2 gone.symm, before, rest, rfl, kept.1⟩
  · rintro (rfl | ⟨other, before, after, rfl, kept⟩)
    · exact ⟨history, [], rfl, List.not_mem_nil⟩
    · refine ⟨before, after ++ [event], by simp, ?_⟩
      rw [List.mem_append, List.mem_singleton, not_or]
      exact ⟨kept, Ne.symm other⟩

/-- The stored keys are the best on offer. -/
structure BestKept (serde : SerdeJson) (keys : OrdMap BackupSlot Bytes) (history : List BackupEvent) :
    Prop where
  best : ∀ slot json, keys[slot]? = some json → Offered history slot json ∧
    ∀ json', Offered history slot json' → keyRank serde json ≤ keyRank serde json'
  kept : ∀ slot json, Offered history slot json → slot ∈ keys

theorem BestKept.mono (h : BestKept serde keys history) (idle : ∀ slot json, event ≠ .uploaded slot json)
    (idle' : ∀ slot, event ≠ .deleted slot) : BestKept serde keys (history ++ [event]) := by
  have same : ∀ slot json, Offered (history ++ [event]) slot json ↔ Offered history slot json := by
    intro slot json
    rw [offered_append_singleton]
    exact ⟨fun offered => (offered.resolve_left (idle slot json)).2, fun old => .inr ⟨idle' slot, old⟩⟩
  constructor
  · intro slot json stored
    obtain ⟨offered, least⟩ := h.best slot json stored
    exact ⟨(same slot json).2 offered, fun json' other => least json' ((same slot json').1 other)⟩
  · intro slot json offered
    exact h.kept slot json ((same slot json).1 offered)

theorem BestKept.insert (h : BestKept serde keys history)
    (wins : ∀ old, keys[slot]? = some old → keyRank serde json < keyRank serde old) :
    BestKept serde (keys.insert slot json) (history ++ [.uploaded slot json]) := by
  constructor
  · intro slot' json' stored
    rw [OrdMap.getElem?_insert'] at stored
    split at stored
    · rename_i here
      obtain rfl := here
      obtain rfl := Option.some.inj stored
      refine ⟨offered_append_singleton.2 (.inl rfl), fun other offered => ?_⟩
      obtain same | ⟨-, offered⟩ := offered_append_singleton.1 offered
      · obtain ⟨-, rfl⟩ := BackupEvent.uploaded.inj same
        exact le_rfl
      · obtain ⟨old, found⟩ := OrdMap.mem_iff_getElem?.1 (h.kept _ _ offered)
        exact ((wins old found).trans_le ((h.best _ _ found).2 other offered)).le
    · rename_i elsewhere
      obtain ⟨offered, least⟩ := h.best slot' json' stored
      refine ⟨offered_append_singleton.2 (.inr ⟨nofun, offered⟩), fun other offered => ?_⟩
      obtain same | ⟨-, offered⟩ := offered_append_singleton.1 offered
      · exact absurd (BackupEvent.uploaded.inj same).1.symm elsewhere
      · exact least other offered
  · intro slot' json' offered
    rw [Std.ExtTreeMap.mem_insert, Std.LawfulEqOrd.compare_eq_iff_eq]
    obtain same | ⟨-, offered⟩ := offered_append_singleton.1 offered
    · exact .inl (BackupEvent.uploaded.inj same).1
    · exact .inr (h.kept slot' json' offered)

theorem BestKept.decline (h : BestKept serde keys history)
    {old : Bytes} (found : keys[slot]? = some old) (loses : keyRank serde old ≤ keyRank serde json) :
    BestKept serde keys (history ++ [.uploaded slot json]) := by
  constructor
  · intro slot' json' stored
    obtain ⟨offered, least⟩ := h.best slot' json' stored
    refine ⟨offered_append_singleton.2 (.inr ⟨nofun, offered⟩), fun other offered => ?_⟩
    obtain same | ⟨-, offered⟩ := offered_append_singleton.1 offered
    · obtain ⟨rfl, rfl⟩ := BackupEvent.uploaded.inj same
      obtain rfl := some_unique found stored
      exact loses
    · exact least other offered
  · intro slot' json' offered
    obtain same | ⟨-, offered⟩ := offered_append_singleton.1 offered
    · obtain ⟨rfl, -⟩ := BackupEvent.uploaded.inj same
      exact OrdMap.mem_iff_getElem?.2 ⟨old, found⟩
    · exact h.kept slot' json' offered

theorem BestKept.erase (h : BestKept serde keys history) :
    BestKept serde (keys.erase slot) (history ++ [.deleted slot]) := by
  constructor
  · intro slot' json' stored
    rw [OrdMap.getElem?_erase'] at stored
    split at stored
    · cases stored
    · rename_i elsewhere
      obtain ⟨offered, least⟩ := h.best slot' json' stored
      refine ⟨offered_append_singleton.2 (.inr ⟨?_, offered⟩), fun other offered => ?_⟩
      · intro same
        exact elsewhere (BackupEvent.deleted.inj same).symm
      · exact least other ((offered_append_singleton.1 offered).resolve_left nofun).2
  · intro slot' json' offered
    obtain ⟨other, offered⟩ := (offered_append_singleton.1 offered).resolve_left nofun
    obtain ⟨v, found⟩ := OrdMap.mem_iff_getElem?.1 (h.kept slot' json' offered)
    refine OrdMap.mem_iff_getElem?.2 ⟨v, ?_⟩
    rw [OrdMap.getElem?_erase', if_neg fun same => other (congrArg BackupEvent.deleted same.symm)]
    exact found

theorem BestKept.eraseRows (h : BestKept serde keys history) (l : List (BackupSlot × Bytes)) :
    BestKept serde (keys.eraseRows l) (history ++ l.map fun r => .deleted r.1) := by
  induction l generalizing keys history with
  | nil => simpa [OrdMap.eraseRows] using h
  | cons r l ih =>
    have erased : BestKept serde (keys.erase r.1) (history ++ [.deleted r.1]) := h.erase
    have next := ih erased
    rwa [List.append_assoc] at next

end Offers

/-! ## Uploads -/

section Uploads

variable {serde : SerdeJson} {start : Store} {userId : UserId} {version : Nat} {r : BackupRun}
  {key : RoomId × String × Bytes} {history : List BackupEvent}

/-- A session has a better key than it had, or a first one. -/
def Improved (serde : SerdeJson) (old new : Option Bytes) : Prop :=
  ∃ json, new = some json ∧ ∀ json', old = some json' → keyRank serde json < keyRank serde json'

theorem Improved.ne {old new : Option Bytes} (h : Improved serde old new) : old ≠ new := by
  rintro rfl
  obtain ⟨json, rfl, less⟩ := h
  exact lt_irrefl _ (less json rfl)

theorem Improved.trans {a b c : Option Bytes} (h : Improved serde a b) (h' : Improved serde b c) :
    Improved serde a c := by
  obtain ⟨json, rfl, less⟩ := h
  obtain ⟨json', rfl, less'⟩ := h'
  exact ⟨json', rfl, fun old found => (less' json rfl).trans (less old found)⟩

theorem putBackupKey_cases (serde : SerdeJson) (userId : UserId) (version : Nat) (r : BackupRun)
    (key : RoomId × String × Bytes) :
    (putBackupKey serde userId version r key = r ∧
      ∃ old, r.store.backupKey[(userId, version, key.1, key.2.1)]? = some old ∧
        keyRank serde old ≤ keyRank serde key.2.2) ∨
    (∃ count, putBackupKey serde userId version r key =
        ⟨{ r.store with
          backupKey := r.store.backupKey.insert (userId, version, key.1, key.2.1) key.2.2 },
          count, true⟩ ∧
      Improved serde (r.store.backupKey[(userId, version, key.1, key.2.1)]?) (some key.2.2) ∧
      (count = r.count ∧ (userId, version, key.1, key.2.1) ∈ r.store.backupKey ∨
        count = r.count + 1 ∧ (userId, version, key.1, key.2.1) ∉ r.store.backupKey)) := by
  unfold putBackupKey
  dsimp only
  split
  · rename_i absent
    refine .inr ⟨_, rfl, ⟨_, rfl, fun old found => ?_⟩, .inr ⟨rfl, ?_⟩⟩
    · rw [absent] at found
      cases found
    · intro mem
      obtain ⟨v, found⟩ := OrdMap.mem_iff_getElem?.1 mem
      rw [absent] at found
      cases found
  · rename_i old found
    split
    · rename_i wins
      refine .inr ⟨_, rfl, ⟨_, rfl, fun old' found' => ?_⟩, .inl ⟨rfl, ?_⟩⟩
      · obtain rfl := some_unique found found'
        exact backupKeyWins_iff.1 wins
      · exact OrdMap.mem_iff_getElem?.2 ⟨old, found⟩
    · rename_i loses
      exact .inl ⟨rfl, old, found, not_lt.1 fun less => loses (backupKeyWins_iff.2 less)⟩

/-- Part of an upload to a version: the count is right, no session got worse, and what changed got
better. -/
structure Uploading (serde : SerdeJson) (userId : UserId) (version : Nat) (start : Store)
    (r : BackupRun) : Prop where
  count : r.count = (r.store.backupKeysOf userId version).length
  grows : ∀ slot : BackupSlot, r.store.backupKey[slot]? = start.backupKey[slot]? ∨
    (slot.1 = userId ∧ slot.2.1 = version) ∧
      Improved serde (start.backupKey[slot]?) (r.store.backupKey[slot]?)
  idle : r.changed = false → r.store.backupKey = start.backupKey
  moved : r.changed = true → ∃ slot : BackupSlot, (slot.1 = userId ∧ slot.2.1 = version) ∧
    Improved serde (start.backupKey[slot]?) (r.store.backupKey[slot]?)

theorem Uploading.step (h : Uploading serde userId version start r) :
    Uploading serde userId version start (putBackupKey serde userId version r key) := by
  obtain ⟨same, -⟩ | ⟨count, same, better, counted⟩ :=
    putBackupKey_cases serde userId version r key
  · rw [same]
    exact h
  rw [same]
  have now : ∀ slot : BackupSlot,
      (r.store.backupKey.insert (userId, version, key.1, key.2.1) key.2.2)[slot]? =
        r.store.backupKey[slot]? ∨ (slot.1 = userId ∧ slot.2.1 = version) ∧
      Improved serde (r.store.backupKey[slot]?)
        ((r.store.backupKey.insert (userId, version, key.1, key.2.1) key.2.2)[slot]?) := by
    intro slot
    rw [OrdMap.getElem?_insert']
    split
    · rename_i here
      obtain rfl := here
      exact .inr ⟨⟨rfl, rfl⟩, better⟩
    · exact .inl rfl
  have later : ∀ slot : BackupSlot, (slot.1 = userId ∧ slot.2.1 = version) ∧
        Improved serde (start.backupKey[slot]?) (r.store.backupKey[slot]?) →
      (slot.1 = userId ∧ slot.2.1 = version) ∧ Improved serde (start.backupKey[slot]?)
        ((r.store.backupKey.insert (userId, version, key.1, key.2.1) key.2.2)[slot]?) := by
    rintro slot ⟨own, before⟩
    obtain kept | ⟨-, after⟩ := now slot
    · exact ⟨own, kept.symm ▸ before⟩
    · exact ⟨own, before.trans after⟩
  constructor
  · obtain ⟨rfl, known⟩ | ⟨rfl, fresh⟩ := counted
    · exact h.count.trans (OrdMap.length_rows_insert_old known).symm
    · rw [h.count]
      exact (OrdMap.length_rows_insert_new fresh (by simp)).symm
  · intro slot
    obtain kept | improved := h.grows slot
    · obtain kept' | ⟨own, improved⟩ := now slot
      · exact .inl (kept'.trans kept)
      · exact .inr ⟨own, kept ▸ improved⟩
    · exact .inr (later slot improved)
  · exact nofun
  · intro _
    by_cases changed : r.changed = true
    · obtain ⟨slot, improved⟩ := h.moved changed
      exact ⟨slot, later slot improved⟩
    · refine ⟨(userId, version, key.1, key.2.1), ⟨rfl, rfl⟩, ?_⟩
      rw [← h.idle (by simpa using changed), OrdMap.getElem?_insert', if_pos rfl]
      exact better

theorem BestKept.putBackupKey (h : BestKept serde r.store.backupKey history) (userId : UserId)
    (version : Nat) (key : RoomId × String × Bytes) :
    BestKept serde (putBackupKey serde userId version r key).store.backupKey
      (history ++ [.uploaded (userId, version, key.1, key.2.1) key.2.2]) := by
  obtain ⟨same, old, found, loses⟩ | ⟨count, same, ⟨json, self, wins⟩, -⟩ :=
    putBackupKey_cases serde userId version r key
  · rw [same]
    exact h.decline found loses
  · rw [same]
    obtain rfl := Option.some.inj self
    exact h.insert wins

theorem Uploading.loop (keys : List (RoomId × String × Bytes))
    (h : Uploading serde userId version start r) :
    Uploading serde userId version start (keys.foldl (Machine.putBackupKey serde userId version) r) :=
  List.foldlRecOn keys _ h fun _ ih _ _ => ih.step

theorem BestKept.putBackupKeys (keys : List (RoomId × String × Bytes))
    (h : BestKept serde r.store.backupKey history) :
    BestKept serde (keys.foldl (Machine.putBackupKey serde userId version) r).store.backupKey
      (history ++ keys.map fun key => .uploaded (userId, version, key.1, key.2.1) key.2.2) := by
  induction keys generalizing r history with
  | nil => simpa using h
  | cons key keys ih =>
    have next := ih (h.putBackupKey userId version key)
    rwa [List.append_assoc] at next

end Uploads

/-! ## Commands -/

/-- The books of a store: each version counts its sessions, and no session is left of a version that is
deleted, or was never there. -/
structure Booked (s : Store) : Prop where
  count : ∀ userId version m, s.backupVersion[(userId, version)]? = some m →
    m.count = (s.backupKeysOf userId version).length
  live : ∀ slot ∈ s.backupKey, ∃ m, s.backupMeta slot.1 slot.2.1 = some m

/-- What a command does to the books. -/
structure BackupStep (serde : SerdeJson) (s t : Store) (events : List BackupEvent) : Prop where
  booked : Booked t
  stamped : ∀ userId version m m', s.backupMeta userId version = some m →
    t.backupMeta userId version = some m' →
    (s.backupKeysOf userId version = t.backupKeysOf userId version → m'.etag = m.etag) ∧
      (s.backupKeysOf userId version ≠ t.backupKeysOf userId version → m.etag < m'.etag)
  best : ∀ history, BestKept serde s.backupKey history → BestKept serde t.backupKey (history ++ events)
  versions : ∀ k, k ∈ t.backupVersion ↔ k ∈ s.backupVersion ∨ k ∈ mintedVersions events
  fresh : ∀ k ∈ mintedVersions events, k ∉ s.backupVersion
  once : (mintedVersions events).Nodup

section Commands

variable {serde : SerdeJson} {e s t : Store} {userId : UserId} {version : Nat}
  {m m' : BackupVersionMeta} {events : List BackupEvent}

theorem backupMeta_eq_some : s.backupMeta userId version = some m ↔
    s.backupVersion[(userId, version)]? = some m ∧ m.deleted = false := by
  rw [Store.backupMeta, Option.filter_eq_some_iff, Bool.not_eq_true']

theorem BackupStep.idle (h : Booked s) (versions : t.backupVersion = s.backupVersion)
    (keys : t.backupKey = s.backupKey)
    (best : ∀ history, BestKept serde s.backupKey history → BestKept serde s.backupKey (history ++ events))
    (unminted : mintedVersions events = []) : BackupStep serde s t events := by
  have sessions : ∀ userId version, t.backupKeysOf userId version = s.backupKeysOf userId version :=
    fun _ _ => by rw [Store.backupKeysOf, keys, Store.backupKeysOf]
  have metas : ∀ userId version, t.backupMeta userId version = s.backupMeta userId version :=
    fun _ _ => by rw [Store.backupMeta, versions, Store.backupMeta]
  constructor
  · constructor
    · intro userId version m stored
      rw [versions] at stored
      rw [sessions]
      exact h.count userId version m stored
    · intro slot mem
      rw [metas]
      exact h.live slot (keys ▸ mem)
  · intro userId version m m' before after
    rw [metas, before] at after
    obtain rfl := Option.some.inj after
    exact ⟨fun _ => rfl, fun changed => absurd (sessions userId version).symm changed⟩
  · rw [keys]
    exact best
  · simp [versions, unminted]
  · simp [unminted]
  · simp [unminted]

theorem BackupStep.rewrite (h : Booked s) (live : s.backupMeta userId version = some m)
    (versions : t.backupVersion = s.backupVersion.insert (userId, version) m')
    (elsewhere : ∀ slot : BackupSlot, ¬(slot.1 = userId ∧ slot.2.1 = version) →
      t.backupKey[slot]? = s.backupKey[slot]?)
    (count : m'.count = (t.backupKeysOf userId version).length)
    (gone : m'.deleted = true → t.backupKeysOf userId version = [])
    (stamp : m'.deleted = false →
      (s.backupKeysOf userId version = t.backupKeysOf userId version → m'.etag = m.etag) ∧
        (s.backupKeysOf userId version ≠ t.backupKeysOf userId version → m.etag < m'.etag))
    (best : ∀ history, BestKept serde s.backupKey history → BestKept serde t.backupKey (history ++ events))
    (unminted : mintedVersions events = []) : BackupStep serde s t events := by
  have others : ∀ userId' version', (userId', version') ≠ (userId, version) →
      t.backupKeysOf userId' version' = s.backupKeysOf userId' version' := by
    intro userId' version' other
    refine OrdMap.rows_congr fun slot selected => elsewhere slot fun own => other ?_
    obtain ⟨rfl, rfl⟩ := of_decide_eq_true selected
    exact Prod.ext own.1 own.2
  have metas : ∀ userId' version', (userId', version') ≠ (userId, version) →
      t.backupMeta userId' version' = s.backupMeta userId' version' := by
    intro userId' version' other
    rw [Store.backupMeta, versions, OrdMap.getElem?_insert', if_neg other, Store.backupMeta]
  have here : t.backupVersion[(userId, version)]? = some m' := by
    rw [versions, OrdMap.getElem?_insert', if_pos rfl]
  constructor
  · constructor
    · intro userId' version' stored found
      by_cases same : (userId', version') = (userId, version)
      · obtain ⟨rfl, rfl⟩ := Prod.mk.inj same
        obtain rfl := some_unique here found
        exact count
      · rw [versions, OrdMap.getElem?_insert', if_neg same] at found
        rw [others userId' version' same]
        exact h.count userId' version' stored found
    · intro slot mem
      by_cases same : (slot.1, slot.2.1) = (userId, version)
      · obtain ⟨rfl, rfl⟩ := Prod.mk.inj same
        refine ⟨m', backupMeta_eq_some.2 ⟨here, ?_⟩⟩
        by_contra deleted
        obtain ⟨json, stored⟩ := OrdMap.mem_iff_getElem?.1 mem
        have listed : (slot, json) ∈ t.backupKeysOf slot.1 slot.2.1 :=
          OrdMap.mem_rows.2 ⟨stored, by simp⟩
        rw [gone (by simpa using deleted)] at listed
        exact List.not_mem_nil listed
      · rw [metas _ _ same]
        refine h.live slot (OrdMap.mem_iff_getElem?.2 ?_)
        rw [← elsewhere slot fun own => same (Prod.ext own.1 own.2)]
        exact OrdMap.mem_iff_getElem?.1 mem
  · intro userId' version' before after found found'
    by_cases same : (userId', version') = (userId, version)
    · obtain ⟨rfl, rfl⟩ := Prod.mk.inj same
      obtain rfl := some_unique live found
      obtain ⟨stored, kept⟩ := backupMeta_eq_some.1 found'
      obtain rfl := some_unique here stored
      exact stamp kept
    · rw [metas _ _ same, found] at found'
      obtain rfl := Option.some.inj found'
      exact ⟨fun _ => rfl, fun changed => absurd (others _ _ same).symm changed⟩
  · exact best
  · intro k
    have known : (userId, version) ∈ s.backupVersion :=
      OrdMap.mem_iff_getElem?.2 ⟨m, (backupMeta_eq_some.1 live).1⟩
    rw [versions, Std.ExtTreeMap.mem_insert, Std.LawfulEqOrd.compare_eq_iff_eq, unminted]
    grind
  · simp [unminted]
  · simp [unminted]

theorem next_version_unused (userId : UserId) :
    (userId, ((s.backupVersion.rows fun k => k.1 = userId).getLast?.map fun r => r.1.2).getD 0 + 1) ∉
      s.backupVersion := by
  intro mem
  obtain ⟨r, last, own, le⟩ := OrdMap.le_getLast_rows (p := fun k => k.1 = userId) mem (by simp)
  rw [last] at mem le
  obtain ⟨⟨userId', version⟩, m⟩ := r
  obtain rfl : userId' = userId := of_decide_eq_true own
  rw [compare_mk_left, Nat.isLE_compare] at le
  have le : version + 1 ≤ version := le
  omega

theorem backupKeysToDelete_rows (roomId : Option RoomId) (sessionId : Option String) :
    ∃ q : BackupSlot → Bool, (∀ k, q k → k.1 = userId ∧ k.2.1 = version) ∧
      backupKeysToDelete s s userId version roomId sessionId = s.backupKey.rows q := by
  cases roomId with
  | none =>
    cases sessionId with
    | none =>
      exact ⟨fun k => k.1 = userId ∧ k.2.1 = version, fun k => of_decide_eq_true, rfl⟩
    | some sessionId => exact ⟨fun _ => false, nofun, by simp [backupKeysToDelete, OrdMap.rows]⟩
  | some roomId =>
    cases sessionId with
    | none =>
      refine ⟨fun k => k.1 = userId ∧ k.2.1 = version ∧ k.2.2.1 = roomId, fun k selected => ?_, rfl⟩
      obtain ⟨user, version, -⟩ := of_decide_eq_true selected
      exact ⟨user, version⟩
    | some sessionId =>
      refine ⟨fun k => k = (userId, version, roomId, sessionId), fun k selected => ?_, ?_⟩
      · rw [of_decide_eq_true selected]
        exact ⟨rfl, rfl⟩
      · exact (OrdMap.rows_single s.backupKey _).symm

theorem deleted_elsewhere {q : BackupSlot → Bool} (own : ∀ k, q k → k.1 = userId ∧ k.2.1 = version)
    (slot : BackupSlot) (other : ¬(slot.1 = userId ∧ slot.2.1 = version)) :
    (s.backupKey.eraseRows (s.backupKey.rows q))[slot]? = s.backupKey[slot]? := by
  rw [OrdMap.getElem?_eraseRows, if_neg]
  intro listed
  exact other (own slot (OrdMap.mem_rows_keys.1 listed).2)

theorem mintedVersions_map {α : Type} {f : α → BackupEvent} (l : List α)
    (h : ∀ a userId version, f a ≠ .minted userId version) : mintedVersions (l.map f) = [] := by
  refine List.filterMap_eq_nil_iff.2 fun event mem => ?_
  obtain ⟨a, -, rfl⟩ := List.mem_map.1 mem
  split
  · rename_i userId version minted
    exact absurd minted (h a userId version)
  · rfl

theorem Booked.create (h : Booked s) (algorithm : String) (authData : Bytes) :
    BackupStep serde s (createBackupVersion s s userId algorithm authData).1 [.minted userId
        (((s.backupVersion.rows fun k => k.1 = userId).getLast?.map fun r => r.1.2).getD 0 + 1)] := by
  have unused := next_version_unused (s := s) userId
  unfold createBackupVersion
  dsimp only
  generalize ((s.backupVersion.rows fun k => k.1 = userId).getLast?.map fun r => r.1.2).getD 0 + 1 =
    version at unused ⊢
  have old : ∀ userId' version', (userId', version') ∈ s.backupVersion →
      (userId', version') ≠ (userId, version) := fun _ _ mem same => unused (same ▸ mem)
  have empty : s.backupKeysOf userId version = [] := by
    refine List.eq_nil_iff_forall_not_mem.2 fun r mem => unused ?_
    obtain ⟨stored, own⟩ := OrdMap.mem_rows.1 mem
    obtain ⟨m, live⟩ := h.live r.1 (OrdMap.mem_iff_getElem?.2 ⟨_, stored⟩)
    obtain ⟨rfl, rfl⟩ := of_decide_eq_true own
    exact OrdMap.mem_iff_getElem?.2 ⟨m, (backupMeta_eq_some.1 live).1⟩
  have metas : ∀ userId' version', (userId', version') ≠ (userId, version) →
      (s.putBackupMeta userId version ⟨algorithm, authData, 0, 0, false⟩).backupMeta userId' version' =
        s.backupMeta userId' version' := by
    intro userId' version' other
    rw [Store.backupMeta, Store.putBackupMeta, OrdMap.getElem?_insert', if_neg other, Store.backupMeta]
  constructor
  · constructor
    · intro userId' version' m stored
      rw [Store.putBackupMeta, OrdMap.getElem?_insert'] at stored
      split at stored
      · rename_i same
        obtain ⟨rfl, rfl⟩ := Prod.mk.inj same
        obtain rfl := Option.some.inj stored
        exact (congrArg List.length empty).symm
      · exact h.count userId' version' m stored
    · intro slot mem
      obtain ⟨m, live⟩ := h.live slot mem
      have known := OrdMap.mem_iff_getElem?.2 ⟨m, (backupMeta_eq_some.1 live).1⟩
      exact ⟨m, (metas _ _ (old _ _ known)).trans live⟩
  · intro userId' version' before after found found'
    have known := OrdMap.mem_iff_getElem?.2 ⟨before, (backupMeta_eq_some.1 found).1⟩
    rw [metas _ _ (old _ _ known), found] at found'
    obtain rfl := Option.some.inj found'
    exact ⟨fun _ => rfl, fun changed => absurd rfl changed⟩
  · intro history kept
    exact kept.mono nofun nofun
  · intro k
    rw [Store.putBackupMeta, Std.ExtTreeMap.mem_insert, Std.LawfulEqOrd.compare_eq_iff_eq]
    simp only [mintedVersions, List.filterMap_cons, List.filterMap_nil, List.mem_singleton]
    grind
  · intro k mem
    obtain rfl := List.mem_singleton.1 mem
    exact unused
  · exact List.nodup_singleton _

theorem Booked.update (h : Booked s) (algorithm : String) (authData : Bytes) :
    BackupStep serde s (updateBackupVersion s userId version algorithm authData).1 [] := by
  have best : ∀ history, BestKept serde s.backupKey history →
      BestKept serde s.backupKey (history ++ []) := fun _ kept => by rwa [List.append_nil]
  unfold updateBackupVersion
  split
  · exact .idle h rfl rfl best rfl
  · rename_i m live
    obtain ⟨stored, kept⟩ := backupMeta_eq_some.1 live
    refine .rewrite h live rfl (fun _ _ => rfl) (h.count _ _ m stored) (fun deleted => ?_)
      (fun _ => ⟨fun _ => rfl, fun changed => absurd rfl changed⟩) best rfl
    rw [show m.deleted = true from deleted] at kept
    cases kept

theorem Booked.deleteVersion (h : Booked s) : BackupStep serde s (deleteBackupVersion s s userId version).1
      (if (s.backupMeta userId version).isSome then
        (s.backupKeysOf userId version).map fun r => .deleted r.1
      else []) := by
  cases live : s.backupMeta userId version with
  | none =>
    simp only [deleteBackupVersion, live]
    exact .idle h rfl rfl (fun _ kept => by simpa using kept) rfl
  | some m =>
    simp only [deleteBackupVersion, live, Option.isSome_some, if_true]
    have total := OrdMap.length_rows_erase (m := s.backupKey)
      (p := fun k => k.1 = userId ∧ k.2.1 = version) fun _ selected => selected
    have empty : (s.backupKey.eraseRows (s.backupKeysOf userId version)).rows
        (fun k => k.1 = userId ∧ k.2.1 = version) = [] :=
      List.eq_nil_of_length_eq_zero (Nat.add_eq_right.1 total)
    refine .rewrite h live rfl (deleted_elsewhere fun k => of_decide_eq_true) ?_ (fun _ => empty)
      (fun alive => by simp at alive) (fun history kept => kept.eraseRows _)
      (mintedVersions_map _ fun _ _ _ minted => by simp at minted)
    exact (congrArg List.length empty).symm

theorem Booked.put (h : Booked s) (keys : List (RoomId × String × Bytes)) :
    BackupStep serde s (putBackupKeys serde s userId version keys).1
      (if (s.backupMeta userId version).isSome then
        keys.map fun key => .uploaded (userId, version, key.1, key.2.1) key.2.2
      else []) := by
  cases live : s.backupMeta userId version with
  | none =>
    simp only [putBackupKeys, live]
    exact .idle h rfl rfl (fun _ kept => by simpa using kept) rfl
  | some m =>
    simp only [putBackupKeys, live, Option.isSome_some, if_true]
    obtain ⟨stored, alive⟩ := backupMeta_eq_some.1 live
    have start : Uploading serde userId version s ⟨s, m.count, false⟩ :=
      ⟨h.count _ _ m stored, fun _ => .inl rfl, fun _ => rfl, nofun⟩
    have loop := start.loop keys
    have frame := putBackupKeys_loop_frame serde userId version keys ⟨s, m.count, false⟩
    have best : ∀ history, BestKept serde s.backupKey history → BestKept serde
        (keys.foldl (putBackupKey serde userId version) ⟨s, m.count, false⟩).store.backupKey
        (history ++ keys.map fun key => .uploaded (userId, version, key.1, key.2.1) key.2.2) :=
      fun _ kept => kept.putBackupKeys (r := ⟨s, m.count, false⟩) keys
    have unminted := mintedVersions_map
      (f := fun key => .uploaded (userId, version, key.1, key.2.1) key.2.2) keys nofun
    generalize keys.foldl (putBackupKey serde userId version) ⟨s, m.count, false⟩ = r at *
    split
    · rename_i changed
      have elsewhere : ∀ slot : BackupSlot, ¬(slot.1 = userId ∧ slot.2.1 = version) →
          r.store.backupKey[slot]? = s.backupKey[slot]? :=
        fun slot other => (loop.grows slot).resolve_right fun moved => other moved.1
      have versions : (r.store.putBackupMeta userId version
          { m with count := r.count, etag := m.etag + 1 }).backupVersion =
          s.backupVersion.insert (userId, version) { m with count := r.count, etag := m.etag + 1 } := by
        rw [frame]
        rfl
      refine .rewrite h live versions elsewhere loop.count (fun deleted => ?_) (fun _ => ⟨?_, ?_⟩)
        best unminted
      · rw [show m.deleted = true from deleted] at alive
        cases alive
      · intro same
        obtain ⟨slot, own, improved⟩ := loop.moved changed
        exact absurd (OrdMap.getElem?_of_rows same (decide_eq_true own)) improved.ne
      · intro _
        exact Nat.lt_succ_self _
    · rename_i unchanged
      have keys := loop.idle (by simpa using unchanged)
      exact .idle h (by rw [frame]) keys (fun history kept => keys ▸ best history kept) unminted

theorem Booked.deleteKeys (h : Booked s) (roomId : Option RoomId) (sessionId : Option String) :
    BackupStep serde s (deleteBackupKeys s s userId version roomId sessionId).1
      (if (s.backupMeta userId version).isSome then
        (backupKeysToDelete s s userId version roomId sessionId).map fun r => .deleted r.1
      else []) := by
  cases live : s.backupMeta userId version with
  | none =>
    simp only [deleteBackupKeys, live]
    exact .idle h rfl rfl (fun _ kept => by simpa using kept) rfl
  | some m =>
    simp only [deleteBackupKeys, live, Option.isSome_some, if_true]
    obtain ⟨stored, alive⟩ := backupMeta_eq_some.1 live
    obtain ⟨q, own, rows⟩ : ∃ q : BackupSlot → Bool, (∀ k, q k → k.1 = userId ∧ k.2.1 = version) ∧
        backupKeysToDelete s s userId version roomId sessionId = s.backupKey.rows q :=
      backupKeysToDelete_rows roomId sessionId
    rw [rows]
    have best : ∀ history, BestKept serde s.backupKey history →
        BestKept serde (s.backupKey.eraseRows (s.backupKey.rows q))
          (history ++ (s.backupKey.rows q).map fun r => .deleted r.1) :=
      fun history kept => kept.eraseRows _
    have unminted : mintedVersions ((s.backupKey.rows q).map fun r => .deleted r.1) = [] :=
      mintedVersions_map _ fun _ _ _ minted => by simp at minted
    split
    · rename_i none
      rw [List.isEmpty_iff.1 none] at best unminted ⊢
      exact .idle h rfl rfl best unminted
    · rename_i some
      have total := OrdMap.length_rows_erase (m := s.backupKey)
        (p := fun k => k.1 = userId ∧ k.2.1 = version) fun k selected => decide_eq_true (own k selected)
      have positive := List.length_pos_iff.2 fun none => some (List.isEmpty_iff.2 none)
      have counted := h.count _ _ m stored
      rw [Store.backupKeysOf] at counted
      refine .rewrite h live rfl (deleted_elsewhere own) ?_ (fun deleted => ?_) (fun _ => ⟨?_, ?_⟩)
        best unminted
      · change m.count - (s.backupKey.rows q).length = _
        rw [Store.backupKeysOf]
        change _ = ((s.backupKey.eraseRows (s.backupKey.rows q)).rows _).length
        omega
      · rw [show m.deleted = true from deleted] at alive
        cases alive
      · intro same
        have lengths := congrArg List.length same
        change (s.backupKey.rows _).length = ((s.backupKey.eraseRows (s.backupKey.rows q)).rows _).length
          at lengths
        omega
      · intro _
        exact Nat.lt_succ_self _

/-- **What a command does to the books**, if it scans what it is applied to. -/
theorem Booked.apply (h : Booked s) {cmd : UserCommand} {r : UserResponse}
    (scans : BackupScans e s cmd) (applied : apply serde e s cmd = .ok (t, r)) :
    BackupStep serde s t (backupEvents s cmd t r) := by
  have shape := apply_frame applied
  have best : ∀ history, BestKept serde s.backupKey history →
      BestKept serde s.backupKey (history ++ []) := fun _ kept => by rwa [List.append_nil]
  cases cmd with
  | createBackupVersion userId algorithm authData =>
    rw [apply_eq (scans rfl).1] at applied
    obtain ⟨rfl, rfl⟩ := ok_pair applied
    exact h.create algorithm authData
  | updateBackupVersion userId version algorithm authData =>
    obtain ⟨rfl, rfl⟩ := ok_pair applied
    exact h.update algorithm authData
  | deleteBackupVersion userId version =>
    rw [apply_eq (scans rfl).1] at applied
    obtain ⟨rfl, rfl⟩ := ok_pair applied
    exact h.deleteVersion
  | putBackupKeys userId version keys =>
    obtain ⟨rfl, rfl⟩ := ok_pair applied
    exact h.put keys
  | deleteBackupKeys userId version roomId sessionId =>
    rw [apply_eq (scans rfl).1] at applied
    obtain ⟨rfl, rfl⟩ := ok_pair applied
    exact h.deleteKeys roomId sessionId
  | _ => exact .idle h (by rw [shape]; rfl) (by rw [shape]; rfl) best rfl

end Commands

/-! ## Runs -/

section Run

open Shard (applyEntry)

variable {serde : SerdeJson} {e s t : Shard.State (UserApp serde)} {history : List BackupEvent}

/-- The books of a run. -/
structure Kept (serde : SerdeJson) (s : Store) (history : List BackupEvent) : Prop where
  booked : Booked s
  best : BestKept serde s.backupKey history
  versions : ∀ k, k ∈ s.backupVersion ↔ k ∈ mintedVersions history
  once : (mintedVersions history).Nodup

theorem Kept.empty : Kept serde .empty [] := by
  constructor
  · constructor
    · intro userId version m stored
      simp [Store.empty] at stored
    · intro slot mem
      simp [Store.empty] at mem
  · constructor
    · intro slot json stored
      simp [Store.empty] at stored
    · rintro slot json ⟨before, after, cut, -⟩
      simp at cut
  · intro k
    simp [Store.empty, mintedVersions]
  · exact List.nodup_nil

theorem Kept.step {s t : Store} {events : List BackupEvent} (h : Kept serde s history)
    (step : BackupStep serde s t events) : Kept serde t (history ++ events) where
  booked := step.booked
  best := step.best history h.best
  versions k := by
    rw [step.versions, h.versions, mintedVersions, mintedVersions, mintedVersions,
      List.filterMap_append, List.mem_append]
  once := by
    rw [mintedVersions, List.filterMap_append]
    exact h.once.append step.once fun k before now => step.fresh k now ((h.versions k).2 before)

theorem UserRun.kept
    (run : UserRun BackupScans (fun _ _ _ => True) backupEvents serde e s history) :
    Kept serde s.app history := by
  refine UserRun.invariant (I := fun _ s history => Kept serde s history) Kept.empty id ?_ ?_ run
  · intro e s t cmd r history h scans applied
    exact h.step (h.booked.apply scans applied)
  · intro e s t target history h _ migrated
    have shape := migrate_frame migrated
    have best : ∀ history, BestKept serde s.backupKey history →
        BestKept serde s.backupKey (history ++ []) := fun _ kept => by rwa [List.append_nil]
    have step : BackupStep serde s t [] := .idle h.booked (by rw [shape]) (by rw [shape]) best rfl
    rw [← List.append_nil history]
    exact h.step step

/-- **Key backups keep their books.** In a run whose backup commands scan what they are applied to, and
name no user or room with a zero byte, a version counts its sessions, no version number is minted twice, the stored keys are the best of those
uploaded since the session was last deleted, and the stamp of a version moves on exactly when its
sessions change, as long as the version is there. -/
theorem backups_kept (run : UserRun BackupScans (fun _ _ _ => True) backupEvents serde e s history) :
    (∀ userId version m, s.app.backupVersion[(userId, version)]? = some m →
      m.count = (s.app.backupKeysOf userId version).length) ∧
    (mintedVersions history).Nodup ∧
    (∀ slot json, s.app.backupKey[slot]? = some json → Offered history slot json ∧
      ∀ json', Offered history slot json' → keyRank serde json ≤ keyRank serde json') ∧
    (∀ slot json, Offered history slot json → slot ∈ s.app.backupKey) ∧
    ∀ entry t r, EntryMeets BackupScans (fun _ _ _ => True) e s entry →
      applyEntry (UserApp serde) e s entry = .ok (t, r) →
      ∀ userId version m m', s.app.backupMeta userId version = some m →
        t.app.backupMeta userId version = some m' →
        (s.app.backupKeysOf userId version = t.app.backupKeysOf userId version → m'.etag = m.etag) ∧
          (s.app.backupKeysOf userId version ≠ t.app.backupKeysOf userId version → m.etag < m'.etag) := by
  have kept := run.kept
  refine ⟨kept.booked.count, kept.once, kept.best.best, kept.best.kept, ?_⟩
  intro entry t r meets applied
  have did : EntryDid backupEvents e s entry t.app (entryEvents backupEvents s entry t r) :=
    applyEntry_did applied
  have idle : t.app.backupVersion = s.app.backupVersion → t.app.backupKey = s.app.backupKey →
      BackupStep serde s.app t.app [] := fun versions keys =>
    .idle kept.booked versions keys (fun _ best => by rwa [List.append_nil]) rfl
  unfold EntryMeets at meets
  cases did with
  | command payload step told =>
    rw [payload] at meets
    exact (kept.booked.apply meets step).stamped
  | migration payload step silent =>
    have shape := migrate_frame step
    exact (idle (by rw [shape]) (by rw [shape])).stamped
  | nothing same silent => exact (idle (by rw [same]) (by rw [same])).stamped

def sampleSlot : BackupSlot := ("@a:x", 1, "!r", "s")

def sampleBackup : Shard.Entry UserCommand := ⟨⟨1, 1, 1⟩, .normal (.createBackupVersion "@a:x" "m" [])⟩

def sampleVerified : Bytes := "\x7b\"is_verified\":true\x7d".toUTF8.toList

def sampleUnverified : Bytes := "\x7b\"is_verified\":false\x7d".toUTF8.toList

def SerdeJson.sampleKeys : SerdeJson where
  fromSlice bytes :=
    if bytes = sampleVerified then some (.object [("is_verified", .bool true)])
    else if bytes = sampleUnverified then some (.object [("is_verified", .bool false)])
    else none
  toVec _ := none

def sampleSave (json : Bytes) : Shard.Entry UserCommand :=
  ⟨⟨1, 1, 2⟩, .normal (.putBackupKeys "@a:x" 1 [("!r", "s", json)])⟩

def sampleForget : Shard.Entry UserCommand :=
  ⟨⟨1, 1, 3⟩, .normal (.deleteBackupKeys "@a:x" 1 (some "!r") (some "s"))⟩

theorem backups_kept_saved : ∃ s : Shard.State (UserApp .sampleKeys),
    s.app.backupKey[sampleSlot]? = some sampleVerified ∧
    ∀ json', Offered [.minted "@a:x" 1, .uploaded sampleSlot sampleUnverified,
        .uploaded sampleSlot sampleVerified] sampleSlot json' →
      keyRank .sampleKeys sampleVerified ≤ keyRank .sampleKeys json' := by
  have h : (Batch.record (applyEntry (UserApp .sampleKeys)) (entryEvents backupEvents)
      (.fresh Store.empty, []) ([sampleBackup, sampleSave sampleUnverified,
        sampleSave sampleVerified].map fun entry => [entry])).toOption.any (fun x =>
          decide (x.2 = [.minted "@a:x" 1, .uploaded sampleSlot sampleUnverified,
            .uploaded sampleSlot sampleVerified]) &&
          decide (x.1.app.backupKey[sampleSlot]? = some sampleVerified)) = true := by
    decide +kernel
  obtain ⟨⟨s, history⟩, applied, checks⟩ := (Option.any_eq_true _ _).1 h
  obtain ⟨told, stored⟩ := Bool.and_eq_true_iff.1 checks
  obtain rfl := of_decide_eq_true told
  have stored := of_decide_eq_true stored
  have meets : ∀ (s : Shard.State (UserApp .sampleKeys)) (entry : Shard.Entry UserCommand),
      entry ∈ [sampleBackup, sampleSave sampleUnverified, sampleSave sampleVerified] →
        EntryMeets BackupScans (fun _ _ _ => True) s s entry := by
    intro s entry mem
    simp only [List.mem_cons, List.not_mem_nil, or_false] at mem
    obtain rfl | rfl | rfl := mem
    · exact fun _ => ⟨rfl, by decide +kernel⟩
    · exact fun _ => ⟨trivial, by decide +kernel⟩
    · exact fun _ => ⟨trivial, by decide +kernel⟩
  have run : UserRun BackupScans (fun _ _ _ => True) backupEvents .sampleKeys s s _ :=
    Batch.Recorded.start.singly (toOption_eq_some.1 applied) meets
  exact ⟨s, stored, ((backups_kept run).2.2.1 _ _ stored).2⟩

/-- A verified key is uploaded, its session is deleted, and an unverified key is stored in its place. -/
theorem worse_after_deletion : ∃ s : Shard.State (UserApp .sampleKeys),
    UserRun (fun _ _ _ => True) (fun _ _ _ => True) backupEvents .sampleKeys s s
      [.minted "@a:x" 1, .uploaded sampleSlot sampleVerified, .deleted sampleSlot,
        .uploaded sampleSlot sampleUnverified] ∧
    s.app.backupKey[sampleSlot]? = some sampleUnverified ∧
    keyRank .sampleKeys sampleVerified < keyRank .sampleKeys sampleUnverified := by
  have h : (Batch.record (applyEntry (UserApp .sampleKeys)) (entryEvents backupEvents)
      (.fresh Store.empty, []) ([sampleBackup, sampleSave sampleVerified, sampleForget,
        sampleSave sampleUnverified].map fun entry => [entry])).toOption.any (fun x =>
          decide (x.2 = [.minted "@a:x" 1, .uploaded sampleSlot sampleVerified,
            .deleted sampleSlot, .uploaded sampleSlot sampleUnverified]) &&
          decide (x.1.app.backupKey[sampleSlot]? = some sampleUnverified)) = true := by
    decide +kernel
  obtain ⟨⟨s, history⟩, applied, checks⟩ := (Option.any_eq_true _ _).1 h
  obtain ⟨told, stored⟩ := Bool.and_eq_true_iff.1 checks
  obtain rfl := of_decide_eq_true told
  have run : UserRun (fun _ _ _ => True) (fun _ _ _ => True) backupEvents .sampleKeys s s _ :=
    Batch.Recorded.start.singly (toOption_eq_some.1 applied) fun _ entry _ => by
      unfold EntryMeets
      split <;> trivial
  exact ⟨s, run, of_decide_eq_true stored, backupKeyWins_iff.1 (by decide +kernel)⟩

end Run

end Saltator.User
