import Mathlib.Data.Finset.Sort
import Mathlib.Tactic.Common

/-!
# Ordered maps and sets

The containers of the source are B-trees: iteration follows the key order, and two maps with the
same entries are equal. `Std.ExtTreeMap` and `Std.ExtTreeSet` have exactly that behaviour. This
module fixes the order on pairs and collects the few facts about values and bulk insertion that the
library does not state.
-/

namespace Saltator

open Std

/-- Pairs are compared lexicographically, as tuples are in the source. -/
instance instOrdProd {α β : Type} [Ord α] [Ord β] : Ord (α × β) := lexOrd

theorem compare_mk {α β : Type} [Ord α] [Ord β] (a c : α) (b d : β) :
    compare (a, b) (c, d) = (compare a c).then (compare b d) := rfl

theorem compare_mk_left {α β : Type} [Ord α] [ReflOrd α] [Ord β] {a : α} {b c : β} :
    compare (a, b) (a, c) = compare b c := by
  change compareLex (compareOn Prod.fst) (compareOn Prod.snd) (a, b) (a, c) = _
  simp [compareLex, compareOn]

abbrev OrdMap (α β : Type) [Ord α] := ExtTreeMap α β compare

abbrev OrdSet (α : Type) [Ord α] := ExtTreeSet α compare

/-! The orders of the composite keys, each under a name of its own. -/

instance instTransOrdPair : TransOrd (String × String) := inferInstance
instance instTransOrdTriple : TransOrd (String × String × String) := inferInstance
instance instTransOrdQuadruple : TransOrd (String × String × String × String) := inferInstance
instance instTransOrdIndexed : TransOrd (String × Nat) := inferInstance
instance instTransOrdPairIndexed : TransOrd (String × String × Nat) := inferInstance
instance instTransOrdVersioned : TransOrd (String × Nat × String × String) := inferInstance
instance instTransOrdStamped : TransOrd (Nat × String) := inferInstance
instance instTransOrdStampedPair : TransOrd (Nat × String × String) := inferInstance
instance instTransOrdStampedQuadruple : TransOrd (Nat × String × String × String × String) := inferInstance

/-! ## Rows that may repeat a key -/

section LastWord

variable {α β γ : Type} [DecidableEq α] {k : α} {rows : List (α × β)} {v : β}

def lastOf : List (α × β) → α → Option β
  | [], _ => none
  | r :: rows, k => (lastOf rows k).or (if k = r.1 then some r.2 else none)

theorem lastOf_append (rows rows' : List (α × β)) (k : α) :
    lastOf (rows ++ rows') k = (lastOf rows' k).or (lastOf rows k) := by
  induction rows with
  | nil => simp [lastOf]
  | cons r rows ih => rw [List.cons_append, lastOf, lastOf, ih, Option.or_assoc]

theorem mem_of_lastOf (h : lastOf rows k = some v) : (k, v) ∈ rows := by
  induction rows with
  | nil => cases h
  | cons r rows ih =>
    rcases Option.or_eq_some_iff.1 h with h | ⟨-, h⟩
    · exact List.mem_cons_of_mem _ (ih h)
    · obtain ⟨rfl, rfl⟩ := Option.ite_none_right_eq_some.1 h |>.imp id Option.some.inj
      exact List.mem_cons_self

theorem lastOf_ne_none (h : (k, v) ∈ rows) : lastOf rows k ≠ none := by
  induction rows with
  | nil => cases h
  | cons r rows ih =>
    rw [lastOf, Ne, Option.or_eq_none_iff]
    rintro ⟨quiet, other⟩
    rcases List.mem_cons.1 h with rfl | h
    · simp at other
    · exact ih h quiet

theorem lastOf_flatMap_eq_none {f : γ → List (α × β)} {l : List γ} :
    lastOf (l.flatMap f) k = none ↔ ∀ r ∈ l, lastOf (f r) k = none := by
  induction l with
  | nil => simp [lastOf]
  | cons r l ih => simp [lastOf_append, ih, and_comm]

theorem lastOf_flatMap {δ : Type} [Ord δ] [TransOrd δ] {l : List (δ × γ)}
    (sorted : l.Pairwise fun a b => compare a.1 b.1 = .lt) {f : δ × γ → List (α × β)} :
    lastOf (l.flatMap f) k = some v ↔ ∃ r ∈ l, lastOf (f r) k = some v ∧
        ∀ r' ∈ l, compare r.1 r'.1 = .lt → lastOf (f r') k = none := by
  induction l with
  | nil => simp [lastOf]
  | cons a l ih =>
    obtain ⟨first, sorted⟩ := List.pairwise_cons.1 sorted
    rw [List.flatMap_cons, lastOf_append, Option.or_eq_some_iff, ih sorted, lastOf_flatMap_eq_none]
    constructor
    · rintro (⟨r, mem, word, last⟩ | ⟨quiet, word⟩)
      · refine ⟨r, List.mem_cons_of_mem _ mem, word, fun r' mem' later => ?_⟩
        rcases List.mem_cons.1 mem' with rfl | mem'
        · rw [OrientedCmp.gt_of_lt (first r mem)] at later
          cases later
        · exact last r' mem' later
      · refine ⟨a, List.mem_cons_self, word, fun r' mem' later => ?_⟩
        rcases List.mem_cons.1 mem' with rfl | mem'
        · rw [ReflOrd.compare_self] at later
          cases later
        · exact quiet r' mem'
    · rintro ⟨r, mem, word, last⟩
      rcases List.mem_cons.1 mem with rfl | mem
      · exact .inr ⟨fun r' mem' => last r' (List.mem_cons_of_mem _ mem') (first r' mem'), word⟩
      · exact .inl ⟨r, mem, word, fun r' mem' => last r' (List.mem_cons_of_mem _ mem')⟩

end LastWord

variable {α β γ : Type} [Ord α] [TransOrd α]

namespace OrdMap

def vals (m : OrdMap α β) : List β := m.toList.map Prod.snd

variable {m : OrdMap α β} {v : β} {k : α}

theorem mem_toList [LawfulEqOrd α] : (k, v) ∈ m.toList ↔ m[k]? = some v :=
  ExtTreeMap.mem_toList_iff_getElem?_eq_some

theorem mem_vals [LawfulEqOrd α] : v ∈ m.vals ↔ ∃ k : α, m[k]? = some v := by
  simp only [vals, List.mem_map, Prod.exists, exists_eq_right]
  exact exists_congr fun k => OrdMap.mem_toList

theorem mem_iff_getElem? : k ∈ m ↔ ∃ v, m[k]? = some v := by
  rw [ExtTreeMap.mem_iff_isSome_getElem?, Option.isSome_iff_exists]

theorem getElem?_insert' [LawfulEqOrd α] [DecidableEq α] {k a : α} :
    (m.insert k v)[a]? = if a = k then some v else m[a]? := by
  rw [ExtTreeMap.getElem?_insert]
  by_cases h : a = k
  · subst h; simp
  · have : compare k a ≠ .eq := fun hc => h (LawfulEqOrd.eq_of_compare hc).symm
    simp [h, this]

def extend (m : OrdMap α β) (rows : List (α × β)) : OrdMap α β :=
  rows.foldl (fun m r => m.insert r.1 r.2) m

theorem getElem?_extend [LawfulEqOrd α] [DecidableEq α] (m : OrdMap α β) (rows : List (α × β)) (k : α) :
    (OrdMap.extend m rows)[k]? = (lastOf rows k).or m[k]? := by
  induction rows generalizing m with
  | nil => rfl
  | cons r rows ih =>
    calc (OrdMap.extend m (r :: rows))[k]? = (OrdMap.extend (m.insert r.1 r.2) rows)[k]? := rfl
      _ = (lastOf rows k).or (if k = r.1 then some r.2 else m[k]?) := by rw [ih, getElem?_insert']
      _ = (lastOf (r :: rows) k).or m[k]? := by
        rw [lastOf, Option.or_assoc]
        split <;> rfl

theorem foldl_insert_cases [LawfulEqOrd α] [DecidableEq α] (key : γ → α) (value : γ → β)
    (l : List γ) (m : OrdMap α β) (k : α) :
    (∃ e ∈ l, key e = k ∧ (l.foldl (fun m e => m.insert (key e) (value e)) m)[k]? = some (value e)) ∨
    ((∀ e ∈ l, key e ≠ k) ∧ (l.foldl (fun m e => m.insert (key e) (value e)) m)[k]? = m[k]?) := by
  induction l generalizing m with
  | nil => simp
  | cons e l ih =>
    rw [List.foldl_cons]
    rcases ih (m.insert (key e) (value e)) with ⟨e', he', hk, hv⟩ | ⟨hk, hv⟩
    · exact .inl ⟨e', List.mem_cons_of_mem _ he', hk, hv⟩
    · rw [hv, getElem?_insert']
      by_cases h : k = key e
      · exact .inl ⟨e, List.mem_cons_self, h.symm, if_pos h⟩
      · refine .inr ⟨fun e' he' => ?_, if_neg h⟩
        rcases List.mem_cons.1 he' with rfl | he'
        · exact Ne.symm h
        · exact hk e' he'

theorem foldl_insert_toList [LawfulEqOrd α] [DecidableEq α] (m : OrdMap α β) :
    m.toList.foldl (fun m e => m.insert e.1 e.2) ∅ = m := by
  refine ExtTreeMap.ext_getElem? fun k => ?_
  rcases foldl_insert_cases Prod.fst Prod.snd m.toList ∅ k with ⟨e, he, rfl, hv⟩ | ⟨hk, hv⟩
  · exact hv.trans (OrdMap.mem_toList.1 he).symm
  · rw [hv, ExtTreeMap.getElem?_empty]
    by_contra hne
    obtain ⟨v, hm⟩ := Option.ne_none_iff_exists'.1 (Ne.symm hne)
    exact hk (k, v) (OrdMap.mem_toList.2 hm) rfl

theorem getElem?_erase' [LawfulEqOrd α] [DecidableEq α] {k a : α} :
    (m.erase k)[a]? = if a = k then none else m[a]? := by
  rw [ExtTreeMap.getElem?_erase]
  by_cases h : a = k
  · subst h; simp
  · have : compare k a ≠ .eq := fun hc => h (LawfulEqOrd.eq_of_compare hc).symm
    simp [h, this]

theorem eq_of_sorted {l l' : List (α × β)} (h : l.Pairwise fun a b => compare a.1 b.1 = .lt)
    (h' : l'.Pairwise fun a b => compare a.1 b.1 = .lt) (mem : ∀ r, r ∈ l ↔ r ∈ l') : l = l' := by
  have : Std.Irrefl fun a b : α × β => compare a.1 b.1 = .lt := ⟨fun a => by simp⟩
  have : Std.Antisymm fun a b : α × β => compare a.1 b.1 = .lt :=
    ⟨fun a b hab hba => by simp [OrientedCmp.gt_of_lt hab] at hba⟩
  exact h.eq_of_mem_iff h' mem

theorem toList_insert_last [LawfulEqOrd α] [DecidableEq α]
    (last : ∀ k' ∈ m, compare k' k = .lt) : (m.insert k v).toList = m.toList ++ [(k, v)] := by
  have fresh : k ∉ m := fun h => by simpa using last k h
  refine eq_of_sorted (ExtTreeMap.ordered_keys_toList (t := m.insert k v)) ?_ ?_
  · refine List.pairwise_append.2 ⟨m.ordered_keys_toList, List.pairwise_singleton _ _, ?_⟩
    rintro ⟨k', v'⟩ mem row hrow
    obtain rfl := List.mem_singleton.1 hrow
    exact last k' (mem_iff_getElem?.2 ⟨v', OrdMap.mem_toList.1 mem⟩)
  · rintro ⟨k', v'⟩
    rw [List.mem_append, List.mem_singleton, OrdMap.mem_toList, OrdMap.mem_toList, getElem?_insert']
    by_cases same : k' = k
    · obtain rfl := same
      rw [ExtTreeMap.getElem?_eq_none fresh]
      simp [eq_comm]
    · simp [same]

theorem vals_insert_last [LawfulEqOrd α] [DecidableEq α]
    (last : ∀ k' ∈ m, compare k' k = .lt) : OrdMap.vals (m.insert k v) = OrdMap.vals m ++ [v] := by
  rw [vals, toList_insert_last last, List.map_append]
  rfl

theorem foldl_erase [LawfulEqOrd α] [DecidableEq α] (key : γ → α) (l : List γ) (m : OrdMap α β)
    (k : α) : (l.foldl (fun m e => m.erase (key e)) m)[k]? =
      if k ∈ l.map key then none else m[k]? := by
  induction l generalizing m with
  | nil => simp
  | cons e l ih =>
    rw [List.foldl_cons, ih, getElem?_erase']
    simp only [List.map_cons, List.mem_cons]
    grind

theorem mem_foldl_erase [LawfulEqOrd α] [DecidableEq α] (key : γ → α) (l : List γ) (m : OrdMap α β)
    (k : α) : k ∈ l.foldl (fun m e => m.erase (key e)) m ↔ k ∈ m ∧ k ∉ l.map key := by
  rw [mem_iff_getElem?, foldl_erase, mem_iff_getElem?]
  split
  · rename_i listed
    simp [listed]
  · rename_i unlisted
    simp [unlisted]

theorem foldl_erase_congr [LawfulEqOrd α] [DecidableEq α] {key : γ → α} {l l' : List γ}
    (h : ∀ k ∈ m, k ∈ l.map key ↔ k ∈ l'.map key) :
    l.foldl (fun m e => m.erase (key e)) m = l'.foldl (fun m e => m.erase (key e)) m := by
  apply ExtTreeMap.ext_getElem?
  intro k
  rw [foldl_erase, foldl_erase]
  by_cases hk : k ∈ m
  · simp only [h k hk]
  · simp [ExtTreeMap.getElem?_eq_none hk]

def rows (m : OrdMap α β) (p : α → Bool) : List (α × β) := m.toList.filter fun r => p r.1

variable {p : α → Bool}

theorem mem_rows [LawfulEqOrd α] : (k, v) ∈ m.rows p ↔ m[k]? = some v ∧ p k := by
  rw [rows, List.mem_filter, OrdMap.mem_toList]

theorem rows_congr [LawfulEqOrd α] {m m' : OrdMap α β}
    (h : ∀ k, p k → m[k]? = m'[k]?) : m.rows p = m'.rows p := by
  refine eq_of_sorted (m.ordered_keys_toList.filter _) (m'.ordered_keys_toList.filter _) ?_
  rintro ⟨k, v⟩
  rw [mem_rows, mem_rows]
  exact and_congr_left fun selected => by rw [h k selected]

theorem rows_insert_last [LawfulEqOrd α] [DecidableEq α]
    (selected : p k) (last : ∀ k' ∈ m, p k' → compare k' k = .lt) :
    rows (m.insert k v) p = m.rows p ++ [(k, v)] := by
  refine eq_of_sorted
    (ExtTreeMap.ordered_keys_toList (t := m.insert k v) |>.filter _) ?_ ?_
  · refine List.pairwise_append.2 ⟨m.ordered_keys_toList.filter _, List.pairwise_singleton _ _, ?_⟩
    rintro ⟨k', v'⟩ mem row hrow
    obtain rfl := List.mem_singleton.1 hrow
    obtain ⟨stored, selected'⟩ := mem_rows.1 mem
    exact last k' (mem_iff_getElem?.2 ⟨v', stored⟩) selected'
  · rintro ⟨k', v'⟩
    rw [mem_rows, getElem?_insert', List.mem_append, mem_rows, List.mem_singleton]
    by_cases same : k' = k
    · obtain rfl := same
      have fresh : m[k']? = none := by
        rw [ExtTreeMap.getElem?_eq_none]
        intro mem
        simpa using last k' mem selected
      simp [fresh, selected, eq_comm]
    · simp [same]

theorem getElem?_of_rows [LawfulEqOrd α] {m m' : OrdMap α β}
    (h : m.rows p = m'.rows p) (selected : p k) : m[k]? = m'[k]? := by
  refine Option.ext fun v => ?_
  have listed : (k, v) ∈ m.rows p ↔ (k, v) ∈ m'.rows p := by rw [h]
  rw [mem_rows, mem_rows] at listed
  simpa [selected] using listed

def eraseRows (m : OrdMap α β) (l : List (α × γ)) : OrdMap α β := l.foldl (fun m r => m.erase r.1) m

theorem getElem?_eraseRows [LawfulEqOrd α] [DecidableEq α] {l : List (α × γ)}
    : (m.eraseRows l)[k]? = if k ∈ l.map Prod.fst then none else m[k]? :=
  foldl_erase Prod.fst l m k

/-- Of the selected keys, `e` holds every one that `s` holds. -/
def Covers (p : α → Bool) (e s : OrdMap α β) : Prop := ∀ k ∈ s, p k → k ∈ e

theorem mem_rows_keys [LawfulEqOrd α] : k ∈ (m.rows p).map Prod.fst ↔ k ∈ m ∧ p k := by
  simp only [List.mem_map, Prod.exists, exists_and_right, exists_eq_right, mem_rows,
    ExtTreeMap.mem_iff_isSome_getElem?, Option.isSome_iff_exists]

theorem eraseRows_covers [LawfulEqOrd α] [DecidableEq α] {m e s : OrdMap α β}
    (below : ∀ k ∈ m, k ∈ s) (h : Covers p e s) : m.eraseRows (e.rows p) = m.eraseRows (s.rows p) := by
  refine foldl_erase_congr fun k hk => ?_
  rw [mem_rows_keys, mem_rows_keys]
  exact and_congr_left fun hp => ⟨fun _ => below k hk, fun _ => h k (below k hk) hp⟩

/-- The selected keys that `s` holds, among those that a covering map holds. -/
theorem rows_keys_covers [LawfulEqOrd α] [DecidableEq α] {e s : OrdMap α β} (h : Covers p e s) :
    ((e.rows p).map Prod.fst).filter (fun k => s.contains k) = (s.rows p).map Prod.fst := by
  have sorted : ∀ m : OrdMap α β, ((m.rows p).map Prod.fst).Pairwise fun a b => compare a b = .lt :=
    fun m => List.pairwise_map.2 (m.ordered_keys_toList.filter _)
  have : Std.Irrefl fun a b : α => compare a b = .lt := ⟨fun a => by simp⟩
  have : Std.Antisymm fun a b : α => compare a b = .lt :=
    ⟨fun a b hab hba => by simp [OrientedCmp.gt_of_lt hab] at hba⟩
  refine List.Pairwise.eq_of_mem_iff ((sorted e).filter _) (sorted s) fun k => ?_
  rw [List.mem_filter, mem_rows_keys, mem_rows_keys, ExtTreeMap.contains_iff_mem]
  exact ⟨fun hk => ⟨hk.2, hk.1.2⟩, fun hk => ⟨⟨h k hk.1 hk.2, hk.2⟩, hk.1⟩⟩

theorem rows_eraseRows [LawfulEqOrd α] [DecidableEq α] {p q : α → Bool} :
    (m.eraseRows (m.rows q)).rows p = (m.rows p).filter fun r => !q r.1 := by
  refine eq_of_sorted ((ExtTreeMap.ordered_keys_toList (t := m.eraseRows _)).filter _)
    ((m.ordered_keys_toList.filter _).filter _) ?_
  rintro ⟨k, v⟩
  rw [mem_rows, getElem?_eraseRows, List.mem_filter, mem_rows]
  by_cases gone : k ∈ (m.rows q).map Prod.fst
  · simp [gone, (mem_rows_keys.1 gone).2]
  · rw [if_neg gone]
    constructor
    · rintro ⟨stored, selected⟩
      refine ⟨⟨stored, selected⟩, ?_⟩
      rw [Bool.not_eq_true']
      by_contra erased
      exact gone (mem_rows_keys.2 ⟨mem_iff_getElem?.2 ⟨v, stored⟩, by simpa using erased⟩)
    · exact And.left

theorem rows_keys_nodup [LawfulEqOrd α] (m : OrdMap α β) (p : α → Bool) :
    ((m.rows p).map Prod.fst).Nodup := by
  refine List.pairwise_map.2 ((m.ordered_keys_toList.filter fun r => p r.1).imp ?_)
  intro a b lt same
  rw [same] at lt
  simp at lt

theorem length_rows [LawfulEqOrd α] {l : List α} (nodup : l.Nodup)
    (h : ∀ k, k ∈ l ↔ k ∈ m ∧ p k) : (m.rows p).length = l.length := by
  rw [← List.length_map Prod.fst]
  refine ((List.perm_ext_iff_of_nodup (rows_keys_nodup m p) nodup).2 fun k => ?_).length_eq
  rw [mem_rows_keys, h]

theorem length_rows_insert_new [LawfulEqOrd α] [DecidableEq α] (fresh : k ∉ m) (selected : p k) :
    (rows (m.insert k v) p).length = (m.rows p).length + 1 := by
  have nodup : (k :: (m.rows p).map Prod.fst).Nodup := by
    refine List.nodup_cons.2 ⟨fun mem => fresh (mem_rows_keys.1 mem).1, rows_keys_nodup m p⟩
  rw [length_rows nodup, List.length_cons, List.length_map]
  intro a
  rw [List.mem_cons, mem_rows_keys, ExtTreeMap.mem_insert, LawfulEqOrd.compare_eq_iff_eq]
  grind

theorem length_rows_insert_old [LawfulEqOrd α] [DecidableEq α]
    (known : k ∈ m) : (rows (m.insert k v) p).length = (m.rows p).length := by
  rw [length_rows (rows_keys_nodup m p), List.length_map]
  intro a
  rw [mem_rows_keys, ExtTreeMap.mem_insert, LawfulEqOrd.compare_eq_iff_eq]
  grind

theorem mem_eraseRows [LawfulEqOrd α] [DecidableEq α] {l : List (α × γ)} :
    k ∈ m.eraseRows l ↔ k ∈ m ∧ k ∉ l.map Prod.fst :=
  mem_foldl_erase Prod.fst l m k

theorem length_rows_erase [LawfulEqOrd α] [DecidableEq α] {p q : α → Bool} (sub : ∀ k, q k → p k) :
    (rows (m.eraseRows (m.rows q)) p).length + (m.rows q).length = (m.rows p).length := by
  have nodup : ((rows (m.eraseRows (m.rows q)) p).map Prod.fst ++ (m.rows q).map Prod.fst).Nodup := by
    refine (rows_keys_nodup _ _).append (rows_keys_nodup _ _) fun k mem mem' => ?_
    exact (mem_eraseRows.1 (mem_rows_keys.1 mem).1).2 mem'
  have total : (m.rows p).length = _ := length_rows nodup fun k => by
    rw [List.mem_append, mem_rows_keys, mem_eraseRows, mem_rows_keys]
    have := sub k
    tauto
  rw [total, List.length_append, List.length_map, List.length_map]

theorem rows_single [LawfulEqOrd α] [DecidableEq α] (table : OrdMap α β) (a : α) :
    (table.rows fun k => k = a) = (table[a]?.map fun v => (a, v)).toList := by
  have keys := rows_keys_nodup table fun k => k = a
  cases found : table[a]? with
  | none =>
    refine List.eq_nil_iff_forall_not_mem.2 fun r mem => ?_
    obtain ⟨stored, same⟩ := mem_rows.1 mem
    rw [of_decide_eq_true same, found] at stored
    cases stored
  | some v =>
    have listed : (a, v) ∈ table.rows fun k => k = a := mem_rows.2 ⟨found, by simp⟩
    refine List.perm_singleton.1 ((List.perm_ext_iff_of_nodup (keys.of_map _)
      (List.nodup_singleton _)).2 fun r => ?_)
    rw [List.mem_singleton]
    constructor
    · intro mem
      obtain ⟨stored, same⟩ := mem_rows.1 mem
      obtain same := of_decide_eq_true same
      rw [same, found] at stored
      exact Prod.ext same (Option.some.inj stored).symm
    · rintro rfl
      exact listed
theorem le_getLast_rows [LawfulEqOrd α] (mem : k ∈ m) (selected : p k) :
    ∃ r, (m.rows p).getLast? = some r ∧ p r.1 ∧ (compare k r.1).isLE := by
  obtain ⟨v, found⟩ := mem_iff_getElem?.1 mem
  have listed := mem_rows.2 ⟨found, selected⟩
  have : Std.Refl fun a b : α × β => (compare a.1 b.1).isLE := ⟨fun a => by simp⟩
  have ordered : (m.rows p).Pairwise fun a b => (compare a.1 b.1).isLE :=
    (m.ordered_keys_toList.filter _).imp fun lt => by simp [lt]
  have nonempty := List.ne_nil_of_mem listed
  have chosen := List.getLast_mem nonempty
  exact ⟨_, List.getLast?_eq_some_getLast nonempty, (mem_rows.1 chosen).2, ordered.rel_getLast listed⟩

theorem contains_eq_false : m.contains k = false ↔ k ∉ m := by
  rw [← Bool.not_eq_true, ExtTreeMap.contains_iff_mem]

theorem size_erase_lt (h : k ∈ m) : (m.erase k).size < m.size := by
  have nonempty : m.size ≠ 0 := fun h0 =>
    ExtTreeMap.ne_empty_of_mem h (ExtTreeMap.eq_empty_iff_size_eq_zero.2 h0)
  rw [ExtTreeMap.size_erase, if_pos (ExtTreeMap.contains_iff_mem.2 h)]
  omega

end OrdMap

namespace OrdSet

def extend (s : OrdSet α) (l : List α) : OrdSet α := l.foldl (fun s a => s.insert a) s

variable {s : OrdSet α}

theorem mem_insert' [LawfulEqOrd α] {k a : α} : a ∈ s.insert k ↔ a = k ∨ a ∈ s := by
  rw [ExtTreeSet.mem_insert]
  constructor
  · rintro (h | h)
    · exact .inl (LawfulEqOrd.eq_of_compare h).symm
    · exact .inr h
  · rintro (rfl | h)
    · exact .inl (by simp)
    · exact .inr h

variable {a : α}

theorem mem_extend [LawfulEqOrd α] {l : List α} : a ∈ extend s l ↔ a ∈ l ∨ a ∈ s := by
  induction l generalizing s with
  | nil => simp [extend]
  | cons b l ih =>
    have := ih (s := s.insert b)
    simp only [extend, List.foldl_cons] at this ⊢
    rw [this, mem_insert', List.mem_cons]
    tauto

theorem mem_foldl_erase [LawfulEqOrd α] [DecidableEq α] {l : List α} :
    a ∈ l.foldl (fun s a => s.erase a) s ↔ a ∈ s ∧ a ∉ l := by
  induction l generalizing s with
  | nil => simp
  | cons b l ih =>
    rw [List.foldl_cons, ih, ExtTreeSet.mem_erase, List.mem_cons, ne_eq, LawfulEqOrd.compare_eq_iff_eq]
    grind

theorem foldl_erase_congr [LawfulEqOrd α] [DecidableEq α] {l l' : List α}
    (h : ∀ a ∈ s, a ∈ l ↔ a ∈ l') :
    l.foldl (fun s a => s.erase a) s = l'.foldl (fun s a => s.erase a) s := by
  apply ExtTreeSet.ext_mem
  intro a
  rw [mem_foldl_erase, mem_foldl_erase]
  exact and_congr_right fun ha => not_congr (h a ha)

theorem contains_eq_false : s.contains a = false ↔ a ∉ s := by
  rw [← Bool.not_eq_true, ExtTreeSet.contains_iff_mem]

theorem size_erase_lt (h : a ∈ s) : (s.erase a).size < s.size := by
  have nonempty : s.size ≠ 0 := fun h0 =>
    ExtTreeSet.ne_empty_of_mem h (ExtTreeSet.eq_empty_iff_size_eq_zero.2 h0)
  rw [ExtTreeSet.size_erase, if_pos (ExtTreeSet.contains_iff_mem.2 h)]
  omega

theorem mem_filter' [LawfulEqOrd α] {p : α → Bool} : a ∈ s.filter p ↔ a ∈ s ∧ p a := by
  rw [ExtTreeSet.mem_filter]
  simp only [ExtTreeSet.get_eq, exists_prop]

theorem mem_toList' [LawfulEqOrd α] : a ∈ s.toList ↔ a ∈ s :=
  ExtTreeSet.mem_toList

theorem head_least [LawfulEqOrd α] {a b : α} (head : s.toList.head? = some a) (mem : b ∈ s) :
    (compare a b).isLE := by
  have sorted : s.toList.Pairwise fun a b => compare a b = .lt := ExtTreeSet.ordered_toList
  obtain ⟨rest, split⟩ : ∃ rest, s.toList = a :: rest := ⟨_, (List.cons_head?_tail head).symm⟩
  rw [split] at sorted
  rcases List.mem_cons.1 (split ▸ mem_toList'.2 mem) with rfl | later
  · simp
  · rw [(List.pairwise_cons.1 sorted).1 b later]
    rfl

theorem getLast?_toList [LawfulEqOrd α] :
    s.toList.getLast? = some a ↔ a ∈ s ∧ ∀ b ∈ s, b = a ∨ compare b a = .lt := by
  have sorted : s.toList.Pairwise fun a b => compare a b = .lt := ExtTreeSet.ordered_toList
  constructor
  · intro last
    obtain ⟨front, split⟩ := List.getLast?_eq_some_iff.1 last
    refine ⟨mem_toList'.1 (List.mem_of_getLast? last), fun b mem => ?_⟩
    rw [split] at sorted
    rcases List.mem_append.1 (split ▸ mem_toList'.2 mem) with before | own
    · exact .inr ((List.pairwise_append.1 sorted).2.2 b before a List.mem_cons_self)
    · exact .inl (List.mem_singleton.1 own)
  · rintro ⟨mem, greatest⟩
    cases last : s.toList.getLast? with
    | none =>
      rw [List.getLast?_eq_none_iff] at last
      simpa [last] using mem_toList'.2 mem
    | some b =>
      obtain ⟨front, split⟩ := List.getLast?_eq_some_iff.1 last
      rw [split] at sorted
      rcases List.mem_append.1 (split ▸ mem_toList'.2 mem) with before | own
      · have above := (List.pairwise_append.1 sorted).2.2 a before b List.mem_cons_self
        rcases greatest b (mem_toList'.1 (List.mem_of_getLast? last)) with rfl | below
        · rfl
        · rw [OrientedCmp.gt_iff_lt.symm] at below
          rw [below] at above
          cases above
      · rw [List.mem_singleton.1 own]

end OrdSet

end Saltator
