import NexaCore.Kernel.Heap.Proofs.Operations

/-!
# Safety of the slab heap

In every state of the heap and its users, the live blocks, the blocks on the free lists and
the uncarved tail of the arena share no byte.
-/

namespace NexaCore.Heap

open Misc Option Prod

/-- The bytes that belong to a live block. -/
def extent (block : Nat × Layout) : Region := ⟨block.1, blockBytes block.2⟩

/-- The invariant of the heap and its users. -/
structure System.Inv (base endAddr : Nat) (s : System) (l : Lists) : Prop where
  heap : Heap.Inv base endAddr s.heap (s.live.map extent) l
  aligned : ∀ block ∈ s.live, blockAlign block.2 ∣ block.1 ∧ block.2.align ≤ pageBytes

/-- What safety of a heap over the arena from `base` to `endAddr` means, where `l` are the
contents of its free lists. -/
structure Safe (base endAddr : Nat) (s : System) (l : Lists) : Prop where
  aligned : ∀ block ∈ s.live, block.2.align ∣ block.1
  enough : ∀ block ∈ s.live, block.2.size ≤ (extent block).size
  inside : ∀ r ∈ s.live.map extent ++ l.regions, base ≤ r.start ∧ r.stop ≤ endAddr
  disjoint : (⟨s.heap.next, endAddr - s.heap.next⟩ :: (s.live.map extent ++ l.regions)).Pairwise
    Region.Apart
  chains : ∀ i head, s.heap.freeLists[i]? = some head →
    Chain s.heap.words head (l.free i) ∧ (l.free i).Nodup
  chain : Chain s.heap.words s.heap.largeFree (l.large.map fst) ∧
    (l.large.map fst).Nodup
  runs : ∀ run ∈ l.large, s.heap.words (run.1 + 8) = run.2 ∧ pageBytes ∣ run.2 ∧ 8192 ≤ run.2

namespace System.Inv

variable {base endAddr : Nat} {s s' : System} {l : Lists}

theorem safe (inv : System.Inv base endAddr s l) : Safe base endAddr s l where
  aligned block mem :=
    (align_dvd_blockAlign (inv.aligned block mem).2).trans (inv.aligned block mem).1
  enough block _ := size_le_blockBytes block.2
  inside r mem := by
    obtain ⟨first, last⟩ := inv.heap.packed.inside r mem
    exact ⟨first, last.trans inv.heap.upper⟩
  disjoint := by
    refine List.pairwise_cons.mpr ⟨fun r mem => ?_, inv.heap.packed.apart⟩
    exact .inr (inv.heap.packed.inside r mem).2
  chains i head here :=
    ⟨inv.heap.chains i head here, inv.heap.nodup_free (Vector.getElem?_eq_some_iff.mp here).1⟩
  chain := ⟨inv.heap.chain, inv.heap.nodup_large⟩
  runs run mem := by
    obtain ⟨size, -, pages, long⟩ := inv.heap.runs run mem
    exact ⟨size, pages, long⟩

theorem init {len : Nat} {words : Nat → Nat} (positive : 0 < base)
    (bound : base + len ≤ 2 ^ 64 - 4096) (start : System.init base len words = some s) :
    System.Inv base (base + len) s ⟨fun _ => [], []⟩ := by
  have sum : checkedAdd base len = some (base + len) := if_pos (by omega)
  simp only [System.init, SlabHeap.init, sum, map_some, some_inj] at start
  subst start
  have empty : (⟨fun _ => [], []⟩ : Lists).regions = [] := rfl
  refine ⟨⟨rfl, rfl, positive, le_rfl, Nat.le_add_right _ _, bound, ?_, ?_, rfl, ?_, ?_⟩, ?_⟩
  · intro i head here
    obtain ⟨below, value⟩ := Vector.getElem?_eq_some_iff.mp here
    rw [Vector.getElem_replicate] at value
    exact value.symm
  · intro i _ a mem
    cases mem
  · intro run mem
    cases mem
  · rw [empty]
    refine ⟨fun r mem => ?_, List.Pairwise.nil⟩
    cases mem
  · intro block mem
    cases mem

section

variable (inv : System.Inv base endAddr s l)

include inv

theorem allocate {layout : Layout} (taken : s.next (.allocate layout) = some s') :
    ∃ l', System.Inv base endAddr s' l' := by
  obtain ⟨result, allocated, ⟨l', kept⟩, page⟩ := inv.heap.allocate layout
  rw [System.next, allocated, map_some, some_inj] at taken
  subst taken
  refine ⟨l', ?_⟩
  by_cases block : result.1 = null
  · rw [if_pos block] at kept ⊢
    exact ⟨kept, inv.aligned⟩
  · rw [if_neg block] at kept ⊢
    refine ⟨kept.2, fun other mem => ?_⟩
    rcases List.mem_cons.mp mem with rfl | mem
    · exact ⟨kept.1, page block⟩
    · exact inv.aligned other mem

theorem free {ptr : Nat} {layout : Layout} (taken : s.next (.free ptr layout) = some s') :
    ∃ l', System.Inv base endAddr s' l' := by
  rw [System.next] at taken
  split at taken
  · rename_i mem
    obtain rfl := Option.some_inj.mp taken
    have first : (s.live.map extent).Perm
        (⟨ptr, blockBytes layout⟩ :: (s.live.erase (ptr, layout)).map extent) :=
      (List.perm_cons_erase mem).map extent
    obtain ⟨l', kept⟩ := (inv.heap.perm first).free (inv.aligned _ mem).1
    exact ⟨l', kept, fun block there => inv.aligned block (List.mem_of_mem_erase there)⟩
  · cases taken

/-- A store to a live block is outside of all words that link free blocks. -/
theorem write {address : Nat} {values : Nat → Nat}
    (taken : s.next (.write address values) = some s') : ∃ l', System.Inv base endAddr s' l' := by
  rw [System.next] at taken
  split at taken
  · rename_i live
    obtain rfl := Option.some_inj.mp taken
    obtain ⟨block, mem, first, last⟩ := live
    have enough := size_le_blockBytes block.2
    refine ⟨l, inv.heap.of_words fun r there word start stop => if_neg ?_, inv.aligned⟩
    have owned := (List.perm_cons_erase mem).map extent
    have apart := (inv.heap.perm owned).apart there
    simp only [Region.Apart, Region.stop, extent] at apart stop
    omega
  · cases taken

theorem next {action : Action} (taken : s.next action = some s') :
    ∃ l', System.Inv base endAddr s' l' := by
  cases action with
  | allocate layout => exact inv.allocate taken
  | free ptr layout => exact inv.free taken
  | write address values => exact inv.write taken

end

end System.Inv

/-- In every run of the heap and its users from a fresh arena, the state is safe, and every
allocation returns. -/
theorem slab_heap_safe {base len : Nat} {words : Nat → Nat} {s₀ s : System} {actions : List Action}
    (positive : 0 < base) (bound : base + len ≤ 2 ^ 64 - 4096)
    (start : System.init base len words = some s₀) (run : Run System.step s₀ actions s) :
    (∃ l, Safe base (base + len) s l) ∧ ∀ layout, (s.heap.allocate layout).isSome := by
  have kept : ∃ l, System.Inv base (base + len) s l := by
    refine Run.invariant (fun s => ∃ l, System.Inv base (base + len) s l) ?_ run
      ⟨_, System.Inv.init positive bound start⟩
    rintro s action s' ⟨l, inv⟩ taken
    exact inv.next taken
  obtain ⟨l, inv⟩ := kept
  refine ⟨⟨l, inv.safe⟩, fun layout => ?_⟩
  obtain ⟨result, allocated, -⟩ := inv.heap.allocate layout
  rw [allocated]
  rfl

/-- A run of three pages is freed, cut for a run of two, and its last page becomes a block. -/
def cutRun : List Action :=
  [.allocate ⟨100, 64, ⟨6, rfl⟩, by decide⟩, .allocate ⟨10000, 16, ⟨4, rfl⟩, by decide⟩,
    .write 4100 (fun _ => 7), .free 8192 ⟨10000, 16, ⟨4, rfl⟩, by decide⟩,
    .allocate ⟨5000, 16, ⟨4, rfl⟩, by decide⟩, .allocate ⟨4096, 4096, ⟨12, rfl⟩, by decide⟩]

theorem slab_heap_safe_cutRun :
    ∃ s₀ s, System.init 4096 65536 (fun _ => 0) = some s₀ ∧ Run System.step s₀ cutRun s ∧
      s.live.map fst = [16384, 8192, 4096] ∧
      (∃ l, Safe 4096 69632 s l) ∧ ∀ layout, (s.heap.allocate layout).isSome := by
  have evaluated : (System.init 4096 65536 (fun _ => 0)).any fun s₀ =>
      (cutRun.foldlM System.next s₀).any fun s => s.live.map fst = [16384, 8192, 4096] := by
    decide +kernel
  simp only [any_eq_true, decide_eq_true_eq] at evaluated
  obtain ⟨s₀, start, s, executed, live⟩ := evaluated
  have run : Run System.step s₀ cutRun s := Run.of_foldlM (fun _ _ _ taken => taken) executed
  exact ⟨s₀, s, start, run, live, slab_heap_safe (by decide) (by decide) start run⟩

end NexaCore.Heap
