import Mathlib.Tactic

/-!
# Counting the values of an ordered map

How inserting and erasing a key changes the number of values of a
`Std.TreeMap` with a given property.
-/

namespace NexaCore.Misc.TreeMapCount

open List

variable {α β : Type} [DecidableEq α] [Ord α] [Std.TransOrd α] [Std.LawfulEqOrd α]
  (t : Std.TreeMap α β) (p : β → Bool)

/-- The number of values with the property `p`. -/
def countValues : Nat := t.toList.countP (fun e => p e.2)

omit [DecidableEq α] [Std.TransOrd α] [Std.LawfulEqOrd α] in
@[simp] theorem countValues_empty : countValues (∅ : Std.TreeMap α β) p = 0 := rfl

omit [DecidableEq α] in
theorem toList_nodup : t.toList.Nodup :=
  (Std.TreeMap.distinct_keys_toList (t := t)).imp fun different equal => different (by
    rw [equal]; exact Std.ReflCmp.compare_self)

theorem toList_erase_perm (k : α) :
    (t.erase k).toList.Perm (t.toList.filter (fun e => !decide (e.1 = k))) := by
  rw [perm_ext_iff_of_nodup (toList_nodup _) ((toList_nodup t).filter _)]
  rintro ⟨a, b⟩
  rw [mem_filter, Std.TreeMap.mem_toList_iff_getElem?_eq_some,
    Std.TreeMap.mem_toList_iff_getElem?_eq_some, Std.TreeMap.getElem?_erase]
  by_cases same : a = k
  · subst same; simp
  · have : compare k a ≠ .eq := fun h => same (Std.LawfulEqOrd.eq_of_compare h).symm
    simp [this, same]

theorem countValues_erase_of_getElem? {k : α} {v : β} (found : t[k]? = some v) :
    countValues t p = countValues (t.erase k) p + (if p v then 1 else 0) := by
  have split := countP_eq_countP_filter_add t.toList (fun e => p e.2) (fun e => !decide (e.1 = k))
  have only : t.toList.filter (fun e => !!decide (e.1 = k)) = [(k, v)] := by
    have member : (k, v) ∈ t.toList :=
      Std.TreeMap.mem_toList_iff_getElem?_eq_some.mpr found
    apply List.perm_singleton.mp
    rw [perm_ext_iff_of_nodup ((toList_nodup t).filter _) (nodup_singleton _)]
    rintro ⟨a, b⟩
    simp only [mem_filter, Bool.not_not, decide_eq_true_eq, mem_singleton, Prod.mk.injEq]
    constructor
    · rintro ⟨mem, rfl⟩
      have := Std.TreeMap.mem_toList_iff_getElem?_eq_some.mp mem
      rw [found] at this
      exact ⟨rfl, (Option.some.inj this).symm⟩
    · rintro ⟨rfl, rfl⟩
      exact ⟨member, rfl⟩
  rw [countValues, countValues, (toList_erase_perm t k).countP_eq, split, only]
  simp [countP_cons]

theorem countValues_erase_le (k : α) : countValues (t.erase k) p ≤ countValues t p := by
  rw [countValues, countValues, (toList_erase_perm t k).countP_eq]
  exact Sublist.countP_le filter_sublist

theorem countValues_insert (k : α) (v : β) :
    countValues (t.insert k v) p = countValues (t.erase k) p + (if p v then 1 else 0) := by
  have found : (t.insert k v)[k]? = some v := Std.TreeMap.getElem?_insert_self
  rw [countValues_erase_of_getElem? _ p found, countValues, countValues,
    (toList_erase_perm _ k).countP_eq, (toList_erase_perm _ k).countP_eq]
  congr 1
  rw [((Std.TreeMap.toList_insert_perm (t := t) (k := k) (v := v)).filter _).countP_eq]
  simp only [filter_cons, decide_true, Bool.not_true, Bool.false_eq_true, if_false, filter_filter]
  congr 1
  apply filter_congr
  rintro ⟨a, b⟩ _
  by_cases same : a = k
  · simp [same]
  · simp [same, Ne.symm same]

end NexaCore.Misc.TreeMapCount
