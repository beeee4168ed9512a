import NexaCore.Kernel.Heap.Proofs.SizeClasses
import NexaCore.Misc.Chain
import NexaCore.Misc.Regions

/-!
# The invariant of the slab heap

`Inv base endAddr h owned lists` says that the free lists of the heap `h` hold the blocks `lists`
and that these blocks and the regions `owned`, which are not on any list, are packed below the
cursor. Each operation moves regions between the two sides: a pop makes a block of a list an owned
region, a push puts an owned region on a list, and carving makes a fresh one.
-/

namespace NexaCore.Heap

open Misc Function List Region Vector Prod

/-- The contents of the free lists: the blocks of each class, and the runs with their sizes. -/
structure Lists where
  free : Nat → List Nat
  large : List (Nat × Nat)

namespace Lists

def classRegions (l : Lists) (i : Nat) : List Region := (l.free i).map (⟨·, classBytes i⟩)

def largeRegions (l : Lists) : List Region := l.large.map fun run => ⟨run.1, run.2⟩

def regions (l : Lists) : List Region :=
  (List.range 9).flatMap l.classRegions ++ l.largeRegions

def pushFree (l : Lists) (i a : Nat) : Lists :=
  { l with free := update l.free i (a :: l.free i) }

def pushLarge (l : Lists) (a n : Nat) : Lists := { l with large := (a, n) :: l.large }

variable {l : Lists} {i a n : Nat}

theorem mem_regions_free (below : i < 9) (mem : a ∈ l.free i) : ⟨a, classBytes i⟩ ∈ l.regions :=
  mem_append_left _ (mem_flatMap.mpr
    ⟨i, mem_range.mpr below, mem_map.mpr ⟨a, mem, rfl⟩⟩)

theorem mem_regions_large (mem : (a, n) ∈ l.large) : ⟨a, n⟩ ∈ l.regions :=
  mem_append_right _ (mem_map.mpr ⟨(a, n), mem, rfl⟩)

theorem regions_pushFree (below : i < 9) :
    (l.pushFree i a).regions.Perm (⟨a, classBytes i⟩ :: l.regions) := by
  have family : (l.pushFree i a).classRegions =
      update l.classRegions i (⟨a, classBytes i⟩ :: l.classRegions i) := by
    funext j
    by_cases same : j = i
    · subst same
      simp [classRegions, pushFree]
    · simp [classRegions, pushFree, same]
  rw [regions, family]
  exact (flatMap_update_perm nodup_range (mem_range.mpr below) _ _).append_right _

end Lists

structure Inv (base endAddr : Nat) (h : SlabHeap) (owned : List Region) (l : Lists) : Prop where
  base_eq : h.base = base
  end_eq : h.endAddr = endAddr
  positive : 0 < base
  lower : base ≤ h.next
  upper : h.next ≤ endAddr
  bound : endAddr ≤ 2 ^ 64 - 4096
  chains : ∀ i head, h.freeLists[i]? = some head → Chain h.words head (l.free i)
  aligned : ∀ i, i < 9 → ∀ a ∈ l.free i, classBytes i ∣ a
  chain : Chain h.words h.largeFree (l.large.map fst)
  runs : ∀ run ∈ l.large, h.words (run.1 + 8) = run.2 ∧ pageBytes ∣ run.1 ∧ pageBytes ∣ run.2 ∧
    largeRunMin ≤ run.2
  packed : Packed base h.next (owned ++ l.regions)

namespace Inv

variable {h : SlabHeap} {owned owned' : List Region} {r : Region} {l : Lists}
  {base endAddr i a n : Nat}

/-! ## Owned regions -/

theorem perm (inv : Inv base endAddr h owned l) (same : owned.Perm owned') :
    Inv base endAddr h owned' l :=
  { inv with packed := inv.packed.perm (same.append_right _) }

theorem drop (inv : Inv base endAddr h (r :: owned) l) : Inv base endAddr h owned l :=
  { inv with packed := inv.packed.tail }

theorem split {first second : Nat} (inv : Inv base endAddr h (⟨a, first + second⟩ :: owned) l) :
    Inv base endAddr h (⟨a, first⟩ :: ⟨a + first, second⟩ :: owned) l :=
  { inv with packed := inv.packed.split }

section

variable (inv : Inv base endAddr h (r :: owned) l)

include inv

theorem apart {s : Region} (mem : s ∈ l.regions) : r.Apart s :=
  inv.packed.head_apart (mem_append_right _ mem)

theorem start_ne_zero : r.start ≠ 0 := by
  have inside := (inv.packed.inside r mem_cons_self).1
  have positive := inv.positive
  omega

theorem not_mem_free (nonempty : 0 < r.size) (below : i < 9) : r.start ∉ l.free i := by
  intro mem
  have apart := inv.apart (Lists.mem_regions_free below mem)
  have size := classBytes_pos i
  simp only [Apart, stop] at apart
  omega

theorem not_mem_large (nonempty : 0 < r.size) : r.start ∉ l.large.map fst := by
  intro mem
  obtain ⟨run, here, same⟩ := mem_map.mp mem
  have apart := inv.apart (Lists.mem_regions_large here)
  have size := (inv.runs run here).2.2.2
  simp only [Apart, stop, largeRunMin, pageBytes] at apart size
  omega

end

theorem of_words {words : Nat → Nat} (inv : Inv base endAddr h owned l)
    (same : ∀ s ∈ l.regions, ∀ word, s.start ≤ word → word + 8 ≤ s.stop →
      words word = h.words word) :
    Inv base endAddr { h with words } owned l := by
  have large : ∀ run ∈ l.large, ∀ k ≤ 8, words (run.1 + k) = h.words (run.1 + k) := by
    intro run mem k below
    have size := (inv.runs run mem).2.2.2
    simp only [largeRunMin, pageBytes] at size
    apply same _ (Lists.mem_regions_large mem)
    · exact Nat.le_add_right _ _
    · simp only [stop]
      omega
  refine { inv with chains := fun i head here => ?_, chain := ?_, runs := fun run mem => ?_ }
  · have below : i < 9 := (Vector.getElem?_eq_some_iff.mp here).1
    refine (inv.chains i head here).congr fun a mem => ?_
    have size := classBytes_pos i
    apply same _ (Lists.mem_regions_free below mem)
    · exact le_rfl
    · simp only [stop]
      omega
  · refine inv.chain.congr fun a mem => ?_
    obtain ⟨run, here, rfl⟩ := mem_map.mp mem
    exact large run here 0 (by decide)
  · obtain ⟨size, rest⟩ := inv.runs run mem
    exact ⟨(large run mem 8 (by decide)).trans size, rest⟩

theorem write (inv : Inv base endAddr h (r :: owned) l) (address value : Nat)
    (here : r.Holds address) :
    Inv base endAddr { h with words := update h.words address value } (r :: owned) l := by
  refine inv.of_words fun s mem word first last => update_of_ne ?_ _ _
  rintro rfl
  exact (inv.apart mem).not_holds here ⟨first, by omega⟩

/-! ## The lists of the classes -/

theorem exists_head (below : i < 9) : ∃ head, h.freeLists[i]? = some head :=
  ⟨_, getElem?_eq_getElem below⟩

theorem popFree_eq_none (inv : Inv base endAddr h owned l) (below : i < 9) (empty : l.free i = []) :
    h.popFree i = none := by
  obtain ⟨head, here⟩ := exists_head (h := h) below
  have chain := inv.chains i head here
  rw [empty] at chain
  rw [SlabHeap.popFree, here]
  exact if_pos chain

theorem popFree {rest : List Nat} (inv : Inv base endAddr h owned l) (below : i < 9)
    (first : l.free i = a :: rest) :
    ∃ h', h.popFree i = some (a, h') ∧ a ≠ null ∧ classBytes i ∣ a ∧
      Inv base endAddr h' (⟨a, classBytes i⟩ :: owned) { l with free := update l.free i rest } := by
  obtain ⟨head, here⟩ := exists_head (h := h) below
  have chain := inv.chains i head here
  rw [first] at chain
  obtain ⟨rfl, block, chain⟩ := chain
  have regions := Lists.regions_pushFree (l := { l with free := update l.free i rest })
    (a := head) below
  have again : Lists.pushFree { l with free := update l.free i rest } i head = l := by
    simp [Lists.pushFree, ← first]
  rw [again] at regions
  refine ⟨{ h with freeLists := h.freeLists.setIfInBounds i (h.words head) }, ?_, block,
    inv.aligned i below head (by simp [first]), ?_⟩
  · rw [SlabHeap.popFree, here]
    exact if_neg block
  · refine { inv with
      chains := fun j next there => ?_, aligned := fun j inRange b mem => ?_, packed := ?_ }
    · by_cases same : i = j
      · subst same
        rw [getElem?_setIfInBounds_self_of_lt (show i < numSizeClasses from below),
          Option.some_inj] at there
        rw [← there]
        simpa using chain
      · rw [getElem?_setIfInBounds_ne same] at there
        simpa [Ne.symm same] using inv.chains j next there
    · by_cases same : j = i
      · subst same
        simp only [update_self] at mem
        exact inv.aligned j inRange b (by simp [first, mem])
      · simp only [update_of_ne same] at mem
        exact inv.aligned j inRange b mem
    · exact inv.packed.perm ((regions.append_left owned).trans perm_middle)

/-- A push puts an owned region of the size of a class on its list. -/
theorem pushFree (inv : Inv base endAddr h (⟨a, classBytes i⟩ :: owned) l) (below : i < 9)
    (aligned : classBytes i ∣ a) : Inv base endAddr (h.pushFree i a) owned (l.pushFree i a) := by
  have size := classBytes_pos i
  obtain ⟨current, here⟩ := exists_head (h := h) below
  have stored := inv.write a current ⟨le_rfl, by simp only [stop]; omega⟩
  simp only [SlabHeap.pushFree, here]
  refine { stored with
    chains := fun j head there => ?_, aligned := fun j inRange b mem => ?_, packed := ?_ }
  · by_cases same : i = j
    · subst same
      rw [getElem?_setIfInBounds_self_of_lt (show i < numSizeClasses from below),
        Option.some_inj] at there
      simp only [Lists.pushFree, update_self, ← there]
      exact (inv.chains i _ here).push inv.start_ne_zero
        (inv.not_mem_free (by simp only; omega) below)
    · rw [getElem?_setIfInBounds_ne same] at there
      simp only [Lists.pushFree, update_of_ne (Ne.symm same)]
      exact stored.chains j head there
  · by_cases same : j = i
    · subst same
      simp only [Lists.pushFree, update_self, mem_cons] at mem
      rcases mem with rfl | mem
      · exact aligned
      · exact inv.aligned j inRange b mem
    · simp only [Lists.pushFree, update_of_ne same] at mem
      exact inv.aligned j inRange b mem
  · exact inv.packed.perm
      (((Lists.regions_pushFree below).append_left owned).trans perm_middle).symm

/-! ## The list of runs -/

theorem pushLargeRun (inv : Inv base endAddr h (⟨a, n⟩ :: owned) l) (aligned : pageBytes ∣ a)
    (pages : pageBytes ∣ n) (long : largeRunMin ≤ n) :
    Inv base endAddr (h.pushLargeRun a n) owned (l.pushLarge a n) := by
  have size : 16 < n := lt_of_lt_of_le (by decide) long
  have first := inv.write a h.largeFree ⟨le_rfl, by simp only [stop]; omega⟩
  have second := first.write (a + 8) n
    ⟨Nat.le_add_right _ _, by simp only [stop]; omega⟩
  refine { second with chain := ?_, runs := fun run mem => ?_, packed := ?_ }
  · have fresh : a ∉ l.large.map fst := inv.not_mem_large (by simp only; omega)
    refine (inv.chain.push inv.start_ne_zero fresh).congr fun b mem => update_of_ne ?_ _ _
    rintro rfl
    rcases mem_cons.mp mem with same | mem
    · simp at same
    · obtain ⟨run, here, same⟩ := mem_map.mp mem
      have apart := inv.apart (Lists.mem_regions_large here)
      have long' := (inv.runs run here).2.2.2
      simp only [Apart, stop, largeRunMin, pageBytes] at apart long'
      omega
  · rcases mem_cons.mp mem with rfl | mem
    · exact ⟨update_self _ _ _, aligned, pages, long⟩
    · exact second.runs run mem
  · exact inv.packed.perm ((perm_middle.append_left owned).trans perm_middle).symm

end Inv

end NexaCore.Heap
