import Saltator.Room.Machine

/-!
# What a room command scans

The one scan of the machine is behind the transaction prune, which only deletes what it finds.
-/

namespace Saltator.Room

open Std
open Machine
open Saltator.Outcome

section Scans

variable (e s : Store)

def staleTxns (cutoff : Nat) : List (Nat × TxnKey) := e.txnIdx.keys.filter fun k => k.1 < cutoff

/-- The prune drops the same rows whether it scans `e` or `s`. -/
structure SamePrune (key : TxnKey) (cutoff : Nat) : Prop where
  index : ∀ k ∈ s.txnIdx, k.1 < cutoff → k ∈ e.txnIdx
  record : ∀ k, k ∈ s.txn ∨ k = key →
    (k ∈ (staleTxns e cutoff).map Prod.snd ↔ k ∈ (staleTxns s cutoff).map Prod.snd)

def SameScans : RoomCommand → Prop
  | .appendStamped cmd txn =>
    s.event.contains cmd.eventId = false → cmd.rejected = none →
      SamePrune e s (txnKey txn.userId txn.deviceId txn.scope txn.txnId) (txn.ts - txnHorizonMs)
  | _ => True

end Scans

section Apply

variable {e s t : Store} {txn : TxnStamp} {k : TxnKey} {cmd : RoomCommand} {r : RoomResponse}

theorem foldl_dropTxn (l : List (Nat × TxnKey)) (s : Store) :
    l.foldl dropTxn s = { s with
      txnIdx := l.foldl (fun m k => m.erase k) s.txnIdx
      txn := l.foldl (fun m k => m.erase k.2) s.txn
      txnEcho := (l.foldl dropTxn s).txnEcho } := by
  induction l generalizing s with
  | nil => rfl
  | cons entry l ih =>
    have head : dropTxn s entry = { s with
        txnIdx := s.txnIdx.erase entry, txn := s.txn.erase entry.2
        txnEcho := (dropTxn s entry).txnEcho } := by
      unfold dropTxn
      dsimp only
      split <;> rfl
    rw [List.foldl_cons, List.foldl_cons, List.foldl_cons, ih]
    generalize dropTxn s entry = u at head ⊢
    rw [head]

theorem txnEcho_foldl_dropTxn (l : List (Nat × TxnKey)) (s : Store) (id : EventId) :
    (l.foldl dropTxn s).txnEcho[id]? =
      if ∃ k ∈ l.map Prod.snd, s.txn[k]? = some id then none else s.txnEcho[id]? := by
  induction l generalizing s with
  | nil => simp
  | cons entry l ih =>
    have txn : (dropTxn s entry).txn = s.txn.erase entry.2 := by
      unfold dropTxn
      dsimp only
      split <;> rfl
    have echo : (dropTxn s entry).txnEcho[id]? =
        if s.txn[entry.2]? = some id then none else s.txnEcho[id]? := by
      unfold dropTxn
      dsimp only
      cases found : s.txn[entry.2]? with
      | none => simp
      | some stale =>
        dsimp only
        rw [OrdMap.getElem?_erase']
        grind
    have dropped : (∃ k ∈ (entry :: l).map Prod.snd, s.txn[k]? = some id) ↔
        s.txn[entry.2]? = some id ∨ ∃ k ∈ l.map Prod.snd, (s.txn.erase entry.2)[k]? = some id := by
      rw [List.map_cons]
      constructor
      · rintro ⟨k, hk, found⟩
        by_cases same : k = entry.2
        · exact .inl (same ▸ found)
        · refine .inr ⟨k, (List.mem_cons.1 hk).resolve_left same, ?_⟩
          rw [OrdMap.getElem?_erase', if_neg same, found]
      · rintro (found | ⟨k, hk, found⟩)
        · exact ⟨entry.2, List.mem_cons_self, found⟩
        · rw [OrdMap.getElem?_erase'] at found
          split at found
          · simp at found
          · exact ⟨k, List.mem_cons_of_mem _ hk, found⟩
    rw [List.foldl_cons, ih, txn, echo]
    by_cases head : s.txn[entry.2]? = some id
    · rw [if_pos (dropped.2 (.inl head))]
      simp [head]
    · simp only [dropped, head, false_or, if_false]

theorem putTxn_congr {eventId : EventId} (txns : t.txn = s.txn) (idx : t.txnIdx = s.txnIdx)
    (h : SamePrune e s (txnKey txn.userId txn.deviceId txn.scope txn.txnId) (txn.ts - txnHorizonMs)) :
    putTxn e t txn eventId = putTxn s t txn eventId := by
  unfold putTxn
  extract_lets key u cutoff
  have stale : ∀ e : Store, (e.txnIdx.keys.filter fun k => k.1 < cutoff) = staleTxns e cutoff :=
    fun _ => rfl
  have record : ∀ k ∈ u.txn,
      k ∈ (staleTxns e cutoff).map Prod.snd ↔ k ∈ (staleTxns s cutoff).map Prod.snd := by
    intro k hk
    refine h.record k ?_
    obtain ⟨v, hv⟩ := OrdMap.mem_iff_getElem?.1 hk
    have inserted : u.txn[k]? = if k = key then some eventId else t.txn[k]? :=
      OrdMap.getElem?_insert'
    rw [inserted] at hv
    split at hv
    · rename_i same
      exact .inr same
    · exact .inl (txns ▸ OrdMap.mem_iff_getElem?.2 ⟨v, hv⟩)
  have index : ∀ k ∈ u.txnIdx, k ∈ (staleTxns e cutoff).map (fun k => k) ↔
      k ∈ (staleTxns s cutoff).map fun k => k := by
    intro k hk
    simp only [List.map_id', staleTxns, List.mem_filter, ExtTreeMap.mem_keys, decide_eq_true_eq]
    refine and_congr_left fun old => ⟨fun _ => ?_, fun there => h.index k there old⟩
    -- the new entry is not old enough to be dropped
    obtain same | there := ExtTreeMap.mem_insert.1 hk
    · obtain rfl := LawfulEqOrd.eq_of_compare same
      omega
    · exact idx ▸ there
  have echo : ((staleTxns e cutoff).foldl dropTxn u).txnEcho =
      ((staleTxns s cutoff).foldl dropTxn u).txnEcho := by
    apply ExtTreeMap.ext_getElem?
    intro id
    rw [txnEcho_foldl_dropTxn, txnEcho_foldl_dropTxn]
    have same : (∃ k ∈ (staleTxns e cutoff).map Prod.snd, u.txn[k]? = some id) ↔
        ∃ k ∈ (staleTxns s cutoff).map Prod.snd, u.txn[k]? = some id :=
      exists_congr fun k => and_congr_left fun hk =>
        record k (OrdMap.mem_iff_getElem?.2 ⟨_, hk⟩)
    simp only [same]
  rw [stale, stale, foldl_dropTxn, foldl_dropTxn (staleTxns s cutoff), echo,
    OrdMap.foldl_erase_congr record, OrdMap.foldl_erase_congr index]

theorem applyAppend_txn {cmd : AppendEvent} (h : applyAppend s cmd = .ok (t, r)) :
    t.txn = s.txn ∧ t.txnIdx = s.txnIdx := by
  unfold applyAppend at h
  split at h
  · obtain ⟨rfl, -⟩ := ok_pair h
    exact ⟨rfl, rfl⟩
  split at h
  · obtain ⟨rfl, -⟩ := ok_pair h
    unfold applyRejected
    dsimp only
    split
    · exact ⟨rfl, rfl⟩
    · split <;> exact ⟨rfl, rfl⟩
  · obtain ⟨⟨u, seq⟩, accepted, h⟩ := bind_eq_ok.1 h
    obtain ⟨rfl, -⟩ := ok_pair h
    rw [applyAccepted, bind_eq_ok] at accepted
    obtain ⟨roomMeta, -, accepted⟩ := accepted
    obtain ⟨rfl, -⟩ := ok_pair accepted
    exact ⟨rfl, rfl⟩

theorem apply_eq (h : SameScans e s cmd) : apply e s cmd = apply s s cmd := by
  cases cmd with
  | appendStamped cmd txn =>
    simp only [apply, applyAppendStamped]
    cases applied : applyAppend s cmd with
    | error fault => rfl
    | ok x =>
      obtain ⟨t, r⟩ := x
      obtain ⟨txns, idx⟩ := applyAppend_txn applied
      cases r with
      | accepted eventId seq =>
        have landed : s.event.contains cmd.eventId = false ∧ cmd.rejected = none := by
          unfold applyAppend at applied
          grind
        simp only [ok_bind, putTxn_congr txns idx (h landed.1 landed.2)]
      | _ => rfl
  | _ => rfl

end Apply

end Saltator.Room
