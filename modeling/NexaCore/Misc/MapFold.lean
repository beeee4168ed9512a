import Mathlib.Data.List.Nodup
import Std.Data.ExtTreeMap

/-!
# Building an ordered map entry by entry

The lookups of an extensional ordered map after the entries of a list were inserted one
after the other. Where the keys of the list are distinct, each of them has its own value;
the other keys keep theirs.
-/

namespace NexaCore.Misc

open Std List ExtTreeMap

variable {α β ε : Type} [Ord α] [TransOrd α] [LawfulEqOrd α] {m : ExtTreeMap α β} {a k : α} {b : β}

theorem getElem?_insert_eq [DecidableEq α] :
    (m.insert k b)[a]? = if a = k then some b else m[a]? := by
  rw [ExtTreeMap.getElem?_insert]
  by_cases same : a = k
  · subst same
    simp
  · rw [if_neg same, if_neg fun equal => same (LawfulEqOrd.eq_of_compare equal).symm]

theorem getElem?_erase_eq [DecidableEq α] : (m.erase k)[a]? = if a = k then none else m[a]? := by
  rw [getElem?_erase]
  by_cases same : a = k
  · subst same
    simp
  · rw [if_neg same, if_neg fun equal => same (LawfulEqOrd.eq_of_compare equal).symm]

theorem insert_eq_some {b' : β} :
    (m.insert k b)[a]? = some b' ↔ a = k ∧ b' = b ∨ a ≠ k ∧ m[a]? = some b' := by
  classical
  rw [getElem?_insert_eq]
  split <;> simp_all [eq_comm]

theorem insert_empty_eq_some {b' : β} :
    ((∅ : ExtTreeMap α β).insert k b)[a]? = some b' ↔ a = k ∧ b' = b := by
  rw [insert_eq_some, getElem?_empty]
  simp

theorem erase_eq_some : (m.erase k)[a]? = some b ↔ a ≠ k ∧ m[a]? = some b := by
  classical
  rw [getElem?_erase_eq]
  split <;> simp_all

theorem erase_of_none (absent : m[k]? = none) : m.erase k = m := by
  classical
  apply ExtTreeMap.ext_getElem?
  intro a
  rw [getElem?_erase_eq]
  split
  · rename_i same
    rw [same, absent]
  · rfl

theorem erase_insert_of_none (absent : m[k]? = none) : (m.insert k b).erase k = m := by
  classical
  apply ExtTreeMap.ext_getElem?
  intro a
  rw [getElem?_erase_eq, getElem?_insert_eq]
  split
  · rename_i same
    rw [same, absent]
  · rfl

/-- The map with the entries of the list inserted in their order. -/
def insertAll (key : ε → α) (value : ε → β) (entries : List ε) (m : ExtTreeMap α β) :
    ExtTreeMap α β :=
  entries.foldl (fun m e => m.insert (key e) (value e)) m

variable {key : ε → α} {value : ε → β} {entries : List ε}

theorem getElem?_insertAll_of_not_mem (absent : ∀ e ∈ entries, key e ≠ k) :
    (insertAll key value entries m)[k]? = m[k]? := by
  classical
  unfold insertAll
  induction entries generalizing m with
  | nil => rfl
  | cons e entries ih =>
    rw [foldl_cons, ih fun e mem => absent e (.tail _ mem),
      getElem?_insert_eq, if_neg (absent e (.head _)).symm]

theorem getElem?_insertAll_of_mem (distinct : (entries.map key).Nodup) {e : ε} (mem : e ∈ entries) :
    (insertAll key value entries m)[key e]? = some (value e) := by
  classical
  induction entries generalizing m with
  | nil => cases mem
  | cons d entries ih =>
    rw [map_cons, nodup_cons] at distinct
    obtain ⟨fresh, distinct⟩ := distinct
    rcases mem_cons.mp mem with rfl | mem
    · have absent : ∀ d ∈ entries, key d ≠ key e := fun d mem same =>
        fresh (mem_map.mpr ⟨d, mem, same⟩)
      exact (getElem?_insertAll_of_not_mem absent).trans (by rw [getElem?_insert_eq, if_pos rfl])
    · exact ih distinct mem

theorem getElem?_insertAll [DecidableEq α] :
    (insertAll key value entries m)[k]? =
      ((entries.filter (key · = k)).getLast?.map value).or m[k]? := by
  induction entries generalizing m with
  | nil => rfl
  | cons e entries ih =>
    have step : insertAll key value (e :: entries) m =
        insertAll key value entries (m.insert (key e) (value e)) := rfl
    rw [step, ih, getElem?_insert_eq, filter_cons]
    by_cases same : key e = k
    · rw [if_pos same.symm, if_pos (decide_eq_true same), getLast?_cons]
      cases (entries.filter (key · = k)).getLast? <;> rfl
    · rw [if_neg (Ne.symm same), if_neg (by simpa using same)]

theorem insertAll_eq (distinct : (entries.map key).Nodup)
    (same : ∀ a b, m[a]? = some b ↔ ∃ e ∈ entries, key e = a ∧ value e = b) :
    insertAll key value entries ∅ = m := by
  apply ExtTreeMap.ext_getElem?
  intro a
  by_cases present : ∃ e ∈ entries, key e = a
  · obtain ⟨e, mem, rfl⟩ := present
    rw [getElem?_insertAll_of_mem distinct mem, (same _ _).mpr ⟨e, mem, rfl, rfl⟩]
  · rw [getElem?_insertAll_of_not_mem fun e mem here => present ⟨e, mem, here⟩]
    cases found : m[a]? with
    | none => simp
    | some b =>
      obtain ⟨e, mem, here, -⟩ := (same a b).mp found
      exact absurd ⟨e, mem, here⟩ present

omit [LawfulEqOrd α] in
theorem nodup_map_fst_toList (m : ExtTreeMap α β) : (m.toList.map Prod.fst).Nodup := by
  rw [map_fst_toList_eq_keys]
  exact nodup_keys

omit [LawfulEqOrd α] in
theorem nodup_toList (m : ExtTreeMap α β) : m.toList.Nodup :=
  (nodup_map_fst_toList m).of_map

/-- The entries of the other keys, in their order, are those of the map without the key. -/
theorem filter_toList_ne [DecidableEq α] (m : ExtTreeMap α β) (k : α) :
    (m.toList.filter fun p => p.1 ≠ k) = (m.erase k).toList := by
  refine Perm.eq_of_pairwise (fun p q _ _ below above => ?_)
    ((ordered_keys_toList).filter _) ordered_keys_toList ?_
  · rw [OrientedCmp.gt_of_lt below] at above
    cases above
  · rw [perm_ext_iff_of_nodup ((nodup_toList m).filter _) (nodup_toList _)]
    rintro ⟨a, b⟩
    rw [mem_filter, mem_toList_iff_getElem?_eq_some,
      mem_toList_iff_getElem?_eq_some, getElem?_erase_eq]
    by_cases same : a = k
    · simp [same]
    · simp [same]

/-- A sorted list that holds every element of another one below its own elements is the
beginning of it. -/
theorem getElem?_of_sorted {l l' : List Nat} (sorted : l.Pairwise (· < ·))
    (sorted' : l'.Pairwise (· < ·)) (subset : l ⊆ l')
    (closed : ∀ a ∈ l', ∀ b ∈ l, a < b → a ∈ l) {i a : Nat} (here : l[i]? = some a) :
    l'[i]? = some a := by
  induction l generalizing l' i with
  | nil => cases here
  | cons x xs ih =>
    obtain ⟨least, rest⟩ := pairwise_cons.mp sorted
    cases l' with
    | nil => exact absurd (subset (.head _)) not_mem_nil
    | cons y ys =>
      obtain ⟨least', rest'⟩ := pairwise_cons.mp sorted'
      have same : y = x := by
        rcases mem_cons.mp (subset (.head _)) with same | later
        · exact same.symm
        · have below := least' x later
          rcases mem_cons.mp (closed y (.head _) x (.head _) below) with
            same | mem
          · exact same
          · have above := least y mem
            omega
      subst same
      cases i with
      | zero => exact here
      | succ i =>
        refine ih rest rest' (fun z mem => ?_) (fun a mem b mem' below => ?_) here
        · rcases mem_cons.mp (subset (.tail _ mem)) with equal | later
          · have above := least z mem
            omega
          · exact later
        · rcases mem_cons.mp (closed a (.tail _ mem) b
            (.tail _ mem') below) with equal | later
          · have above := least' a mem
            omega
          · exact later

end NexaCore.Misc
