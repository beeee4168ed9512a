import NexaCore.Kernel.Heap.Proofs.Invariant

/-!
# The operations of the slab heap keep its invariant

Every operation is described by the regions it takes and gives: `allocate` returns null or
an owned region of the extent of its layout, and `free` takes that region back.
-/

namespace NexaCore.Heap

open Misc Function List Region Option Nat

/-- The result of an allocation: null, or a block that is an owned region from now on. -/
def Yields (base endAddr : Nat) (owned : List Region) (size align : Nat)
    (result : Nat × SlabHeap) : Prop :=
  ∃ l, if result.1 = null then Inv base endAddr result.2 owned l
    else align ∣ result.1 ∧ Inv base endAddr result.2 (⟨result.1, size⟩ :: owned) l

namespace Inv

variable {h : SlabHeap} {owned : List Region} {l : Lists} {base endAddr i a n size align : Nat}

theorem yields_null (inv : Inv base endAddr h owned l) :
    Yields base endAddr owned size align (null, h) :=
  ⟨l, (if_pos rfl).mpr inv⟩

theorem yields (inv : Inv base endAddr h (⟨a, size⟩ :: owned) l) (aligned : align ∣ a) :
    Yields base endAddr owned size align (a, h) :=
  ⟨l, (if_neg inv.start_ne_zero).mpr ⟨aligned, inv⟩⟩

/-! ## Small blocks -/

theorem carve {k : Nat} (inv : Inv base endAddr h owned l) (page : k ≤ 12) (size : Nat) :
    h.carve size (2 ^ k) = none ∨ ∃ a h', h.carve size (2 ^ k) = some (a, h') ∧ 2 ^ k ∣ a ∧
      Inv base endAddr h' (⟨a, size⟩ :: owned) l := by
  have lower := inv.lower
  have upper := inv.upper
  have bound := inv.bound
  have small : h.next ≤ 2 ^ 64 - 4096 := by omega
  obtain ⟨above, aligned⟩ := alignUp_spec page small
  unfold SlabHeap.carve
  split
  · exact .inl rfl
  · dsimp only
    split
    · exact .inl rfl
    · rename_i newNext sum
      obtain ⟨fits, rfl⟩ : alignUp h.next (2 ^ k) + size < 2 ^ 64 ∧
          alignUp h.next (2 ^ k) + size = newNext := by
        unfold checkedAdd at sum
        split at sum
        · exact ⟨by assumption, Option.some_inj.mp sum⟩
        · cases sum
      split
      · exact .inl rfl
      · rename_i room
        rw [inv.end_eq] at room
        refine .inr ⟨_, _, rfl, aligned, { inv with lower := ?_, upper := ?_, packed := ?_ }⟩
        · simp only
          omega
        · simp only
          omega
        · exact inv.packed.beyond (lower.trans above) above le_rfl

/-- The loop over a slab: its region is cut into blocks, and each goes on the list. -/
theorem foldl_pushFree (below : i < 9) (count first : Nat)
    (inv : Inv base endAddr h (⟨a + first * classBytes i, count * classBytes i⟩ :: owned) l)
    (aligned : classBytes i ∣ a) :
    ∃ l', Inv base endAddr ((range' first count).foldl
      (fun h k => h.pushFree i (a + k * classBytes i)) h) owned l' := by
  induction count generalizing first h l with
  | zero => exact ⟨l, inv.drop⟩
  | succ count ih =>
    have size : (count + 1) * classBytes i = classBytes i + count * classBytes i := by
      rw [add_mul, one_mul, add_comm]
    rw [size] at inv
    have pushed := inv.split.pushFree below (aligned.add (Dvd.intro_left _ rfl))
    rw [add_assoc, ← succ_mul] at pushed
    exact ih (first + 1) pushed

section

variable (inv : Inv base endAddr h owned l) (below : i < 9)

include inv below

theorem refillWith {blocks : Nat} (some_blocks : 0 < blocks) :
    h.refillWith i (classBytes i) blocks = none ∨
      ∃ result, h.refillWith i (classBytes i) blocks = some result ∧
        Yields base endAddr owned (classBytes i) (classBytes i) result := by
  obtain ⟨more, rfl⟩ : ∃ more, blocks = more + 1 := ⟨blocks - 1, by omega⟩
  rcases inv.carve (k := i + 4) (by omega) (classBytes i * (more + 1)) with none | carved
  · left
    simp only [SlabHeap.refillWith, classBytes] at none ⊢
    rw [none]
  · right
    obtain ⟨run, h', carved, aligned, inv⟩ := carved
    have cut : classBytes i * (more + 1) = classBytes i + more * classBytes i := by
      rw [mul_succ, mul_comm, add_comm]
    rw [cut] at inv
    have first := inv.split.perm (List.Perm.swap _ _ _)
    obtain ⟨l', inv⟩ := foldl_pushFree below more 1 (by rwa [one_mul]) aligned
    refine ⟨(run, h'.threadBlocks i (classBytes i) run (more + 1)), ?_, inv.yields aligned⟩
    simp only [SlabHeap.refillWith, classBytes] at carved ⊢
    rw [carved]

theorem refillClass :
    Yields base endAddr owned (classBytes i) (classBytes i) (h.refillClass i) := by
  have want : 0 < if pageBytes / classBytes i = 0 then 1 else pageBytes / classBytes i := by
    split
    · exact one_pos
    · exact pos_of_ne_zero (by assumption)
  simp only [SlabHeap.refillClass, sizeClassBytes, sizeClasses_eq below]
  generalize (if pageBytes / classBytes i = 0 then 1 else pageBytes / classBytes i) = blocks at want
  rcases inv.refillWith below want with none | ⟨result, refilled, result_yields⟩
  · rw [none]
    dsimp only
    split
    · exact inv.yields_null
    · rcases inv.refillWith below one_pos with none | ⟨result, refilled, result_yields⟩
      · rw [none]
        exact inv.yields_null
      · rw [refilled]
        exact result_yields
  · rw [refilled]
    exact result_yields

/-- A small allocation: a pop, or a refill where the list is empty. -/
theorem allocateSmall :
    Yields base endAddr owned (classBytes i) (classBytes i)
      ((h.popFree i).getD (h.refillClass i)) := by
  cases list : l.free i with
  | nil =>
    rw [inv.popFree_eq_none below list]
    exact inv.refillClass below
  | cons a rest =>
    obtain ⟨h', popped, -, aligned, inv⟩ := inv.popFree below list
    rw [popped]
    exact inv.yields aligned

end

/-! ## Runs -/

section

variable (inv : Inv base endAddr h owned l)

include inv

theorem apart_of_ne {r s : Region} (here : r ∈ l.regions) (there : s ∈ l.regions) (other : r ≠ s) :
    r.Apart s :=
  inv.packed.apart.forall (mem_append_right _ here) (mem_append_right _ there) other

theorem nodup_free (below : i < 9) : (l.free i).Nodup := by
  have regions := (pairwise_append.mp inv.packed.apart).2.1
  have family := (pairwise_append.mp regions).1
  have blocks := (pairwise_flatMap.mp family).1 i (mem_range.mpr below)
  refine (pairwise_map.mp blocks).imp fun apart => ?_
  rintro rfl
  have size := classBytes_pos i
  simp only [Apart, stop] at apart
  omega

theorem nodup_large : (l.large.map Prod.fst).Nodup := by
  have regions := (pairwise_append.mp inv.packed.apart).2.1
  have runs := (pairwise_append.mp regions).2.1
  refine pairwise_map.mpr ((pairwise_map.mp runs).imp_of_mem fun here there apart same => ?_)
  have first := (inv.runs _ here).2.2.2
  have second := (inv.runs _ there).2.2.2
  simp only [Apart, stop, largeRunMin, pageBytes] at apart first second
  omega

theorem length_large : (l.large.map Prod.fst).length < h.endAddr + 1 := by
  have inside : l.large.map Prod.fst ⊆ range endAddr := by
    intro a mem
    obtain ⟨run, here, rfl⟩ := mem_map.mp mem
    have region := (inv.packed.inside _ (mem_append_right _ (Lists.mem_regions_large here))).2
    have long := (inv.runs run here).2.2.2
    have upper := inv.upper
    simp only [stop, largeRunMin, pageBytes] at region long
    exact mem_range.mpr (by omega)
  have length := (subperm_of_subset inv.nodup_large inside).length_le
  rw [length_range] at length
  have same := inv.end_eq
  omega

end

/-- The search stops at the end of the list, or at a run that is long enough, with its
predecessor. -/
theorem findRun_chain (need prev : Nat) {words : Nat → Nat} {turns cur : Nat} {nodes : List Nat}
    (chain : Chain words cur nodes) (enough : nodes.length < turns) :
    SlabHeap.findRun words need turns prev cur = some none ∨
      ∃ front a back, nodes = front ++ a :: back ∧ need ≤ words (a + 8) ∧
        SlabHeap.findRun words need turns prev cur =
          some (some ⟨front.getLastD prev, a, words a, words (a + 8)⟩) := by
  induction nodes generalizing turns prev cur with
  | nil =>
    left
    obtain ⟨turns, rfl⟩ : ∃ more, turns = more + 1 := ⟨turns - 1, by simp at enough; omega⟩
    rw [SlabHeap.findRun]
    exact if_pos chain
  | cons node nodes ih =>
    obtain ⟨rfl, block, chain⟩ := chain
    rw [length_cons] at enough
    obtain ⟨turns, rfl⟩ : ∃ more, turns = more + 1 := ⟨turns - 1, by omega⟩
    rw [SlabHeap.findRun, if_neg (show cur ≠ nullLink from block)]
    dsimp only
    split
    · rename_i long
      exact .inr ⟨[], cur, nodes, rfl, long, rfl⟩
    · have later : nodes.length < turns := by omega
      rcases ih cur chain later with none | ⟨front, a, back, rfl, long, found⟩
      · exact .inl none
      · refine .inr ⟨cur :: front, a, back, rfl, long, ?_⟩
        rw [found, getLastD_cons]

/-- The heap with the run `a` after the runs `front` taken out of the list. -/
def unlinked (h : SlabHeap) (front : List Nat) (a : Nat) : SlabHeap :=
  if front.getLastD null = null then { h with largeFree := h.words a }
  else { h with words := update h.words (front.getLastD null) (h.words a) }

/-- The word that links a run belongs to no other block, and is not the size of a run. -/
theorem link_ne (inv : Inv base endAddr h owned l) (mem : (a, n) ∈ l.large) :
    (∀ i < 9, a ∉ l.free i) ∧ ∀ run ∈ l.large, run.1 + 8 ≠ a := by
  have here := Lists.mem_regions_large mem
  have long := (inv.runs _ mem).2.2.2
  simp only [largeRunMin, pageBytes] at long
  constructor
  · intro i below block
    have small := classBytes_le below
    have size := classBytes_pos i
    simp only [pageBytes] at small
    have other : (⟨a, n⟩ : Region) ≠ ⟨a, classBytes i⟩ := by
      rw [ne_eq, mk.injEq]
      omega
    have apart := inv.apart_of_ne here (Lists.mem_regions_free below block) other
    simp only [Apart, stop] at apart
    omega
  · intro run there same
    have other : (⟨a, n⟩ : Region) ≠ ⟨run.1, run.2⟩ := by
      rw [ne_eq, mk.injEq]
      omega
    have apart := inv.apart_of_ne here (Lists.mem_regions_large there) other
    have long' := (inv.runs run there).2.2.2
    simp only [Apart, stop, largeRunMin, pageBytes] at apart long'
    omega

theorem unlink {front back : List (Nat × Nat)} (inv : Inv base endAddr h owned l)
    (runs : l.large = front ++ (a, n) :: back) :
    Inv base endAddr (unlinked h (front.map Prod.fst) a) (⟨a, n⟩ :: owned)
      { l with large := front ++ back } := by
  have regions : l.regions.Perm
      (⟨a, n⟩ :: ({ l with large := front ++ back } : Lists).regions) := by
    simp only [Lists.regions, Lists.largeRegions, runs, map_append, map_cons]
    rw [← append_assoc, ← append_assoc]
    exact perm_middle
  have packed := inv.packed.perm ((regions.append_left owned).trans perm_middle)
  have kept : ∀ run ∈ front ++ back, run ∈ l.large := by
    intro run mem
    rw [runs]
    rcases mem_append.mp mem with mem | mem
    · exact mem_append_left _ mem
    · exact mem_append_right _ (.tail _ mem)
  have chain := inv.chain
  have distinct := inv.nodup_large
  rw [runs] at chain distinct
  rcases eq_nil_or_concat' front with rfl | ⟨before, ⟨p, m⟩, rfl⟩
  · exact { inv with
      chain := chain.2.2, runs := fun run mem => inv.runs run (kept run mem), packed }
  · have here : (p, m) ∈ l.large := kept _ (by simp)
    obtain ⟨noBlock, noSize⟩ := inv.link_ne here
    have block : p ≠ null := by
      have inside := (inv.packed.inside _ (mem_append_right _ (Lists.mem_regions_large here))).1
      have positive := inv.positive
      simp only [null] at inside ⊢
      omega
    have last : ((before ++ [(p, m)]).map Prod.fst).getLastD null = p := by simp
    rw [unlinked, last, if_neg block]
    refine { inv with
      chains := fun i head list => ?_, chain := ?_, runs := fun run mem => ?_, packed }
    · have below : i < 9 := (Vector.getElem?_eq_some_iff.mp list).1
      refine (inv.chains i head list).congr fun b mem => update_of_ne ?_ _ _
      rintro rfl
      exact noBlock i below mem
    · simp only [map_append, map_cons, append_assoc, cons_append, nil_append] at chain distinct ⊢
      exact chain.unlink distinct
    · obtain ⟨size, rest⟩ := inv.runs run (kept run mem)
      exact ⟨(update_of_ne (noSize run (kept run mem)) _ _).trans size, rest⟩

/-- A run that is at least as long as needed is cut, and its rest goes back on a list. -/
theorem takeLargeRun {need : Nat} (inv : Inv base endAddr h owned l) (pages : pageBytes ∣ need) :
    ∃ result, h.takeLargeRun need = some result ∧
      Yields base endAddr owned need pageBytes result := by
  have search := findRun_chain need null inv.chain inv.length_large
  rcases search with none | ⟨front, a, back, nodes, long, found⟩
  · refine ⟨(null, h), ?_, inv.yields_null⟩
    simp only [SlabHeap.takeLargeRun, none]
    rfl
  · obtain ⟨before, rest, runs, rfl, tail⟩ := map_eq_append_iff.mp nodes
    obtain ⟨⟨start, n⟩, after, rfl, rfl, rfl⟩ := map_eq_cons_iff.mp tail
    have here : (start, n) ∈ l.large := by
      rw [runs]
      exact mem_append_right _ (.head _)
    obtain ⟨size, aligned, whole, -⟩ := inv.runs _ here
    have taken := inv.unlink runs
    unfold unlinked at taken
    simp only at size aligned whole long found
    rw [size] at long found
    obtain ⟨remainder, rfl⟩ := Nat.exists_eq_add_of_le long
    have restPages : pageBytes ∣ remainder := (Nat.dvd_add_right pages).mp whole
    have cut := taken.split.perm (List.Perm.swap _ _ _)
    have fits : start + need < 2 ^ 64 := by
      have inside := (cut.packed.inside _ (.head _)).2
      have upper := cut.upper
      have bound := cut.bound
      simp only [stop] at inside
      omega
    have next : pageBytes ∣ start + need := aligned.add pages
    simp only [SlabHeap.takeLargeRun, found, Nat.add_sub_cancel_left, addU64_of_lt fits,
      bind_eq_bind, bind_some]
    by_cases large : remainder ≥ largeRunMin
    · rw [if_pos large]
      exact ⟨_, rfl, (cut.pushLargeRun next restPages large).yields aligned⟩
    · rw [if_neg large]
      by_cases page : remainder = pageBytes
      · rw [if_pos page]
        subst page
        exact ⟨_, rfl, (cut.pushFree (i := 8) (by decide) next).yields aligned⟩
      · rw [if_neg page]
        exact ⟨_, rfl, cut.drop.yields aligned⟩

end Inv

/-! ## Calls -/

/-- The bytes that an allocation of a layout hands out. -/
def blockBytes (layout : Layout) : Nat :=
  match sizeClassIndex layout.size layout.align with
  | some i => classBytes i
  | none => (pageRoundUp layout.size).getD 0

/-- The alignment of the blocks that are handed out for a layout. -/
def blockAlign (layout : Layout) : Nat :=
  match sizeClassIndex layout.size layout.align with
  | some i => classBytes i
  | none => pageBytes

theorem size_le_blockBytes (layout : Layout) : layout.size ≤ blockBytes layout := by
  unfold blockBytes
  cases index : sizeClassIndex layout.size layout.align with
  | some i => exact (sizeClassIndex_eq_some index).2.1
  | none =>
    obtain ⟨run, rounded, enough, -⟩ := pageRoundUp_spec layout
    simpa [rounded] using enough

theorem align_dvd_blockAlign {layout : Layout} (page : layout.align ≤ pageBytes) :
    layout.align ∣ blockAlign layout := by
  unfold blockAlign
  cases index : sizeClassIndex layout.size layout.align with
  | some i => exact layout.align_dvd (sizeClassIndex_eq_some index).2.2
  | none => exact layout.align_dvd (k := 12) page

namespace Inv

variable {h : SlabHeap} {owned : List Region} {l : Lists} {base endAddr : Nat}

theorem allocate (inv : Inv base endAddr h owned l) (layout : Layout) :
    ∃ result, h.allocate layout = some result ∧
      Yields base endAddr owned (blockBytes layout) (blockAlign layout) result ∧
      (result.1 ≠ null → layout.align ≤ pageBytes) := by
  unfold SlabHeap.allocate blockBytes blockAlign
  split
  · exact ⟨_, rfl, inv.yields_null, fun block => absurd rfl block⟩
  · cases index : sizeClassIndex layout.size layout.align with
    | some i =>
      obtain ⟨below, -, align⟩ := sizeClassIndex_eq_some index
      exact ⟨_, rfl, inv.allocateSmall below, fun _ => align.trans (classBytes_le below)⟩
    | none =>
      dsimp only
      split
      · exact ⟨_, rfl, inv.yields_null, fun block => absurd rfl block⟩
      · rename_i page
        obtain ⟨run, rounded, -, pages, -⟩ := pageRoundUp_spec layout
        rw [rounded]
        dsimp only [getD_some]
        obtain ⟨⟨reused, h'⟩, taken, kept, yields⟩ := inv.takeLargeRun pages
        rw [taken]
        simp only [bind_eq_bind, bind_some]
        split
        · exact ⟨_, rfl, ⟨kept, yields⟩, fun _ => Nat.le_of_not_lt page⟩
        · rename_i block
          rw [if_pos (not_not.mp block)] at yields
          refine ⟨_, rfl, ?_, fun _ => Nat.le_of_not_lt page⟩
          have pageSize : pageBytes = 2 ^ 12 := rfl
          rw [pageSize]
          rcases yields.carve (k := 12) le_rfl run with none | ⟨a, h'', carved, aligned, inv⟩
          · rw [none]
            exact yields.yields_null
          · rw [carved]
            exact inv.yields aligned

theorem free {ptr : Nat} {layout : Layout}
    (inv : Inv base endAddr h (⟨ptr, blockBytes layout⟩ :: owned) l)
    (aligned : blockAlign layout ∣ ptr) : ∃ l', Inv base endAddr (h.free ptr layout) owned l' := by
  rw [SlabHeap.free, if_neg (show ptr ≠ null from inv.start_ne_zero)]
  unfold blockBytes at inv
  unfold blockAlign at aligned
  cases index : sizeClassIndex layout.size layout.align with
  | some i =>
    rw [index] at inv aligned
    exact ⟨_, inv.pushFree (sizeClassIndex_eq_some index).1 aligned⟩
  | none =>
    rw [index] at inv aligned
    dsimp only
    split
    · rename_i page
      obtain ⟨run, rounded, -, pages, long⟩ := pageRoundUp_spec layout
      rw [rounded] at inv ⊢
      exact ⟨_, inv.pushLargeRun aligned pages (long (sizeClassIndex_eq_none index page))⟩
    · exact ⟨l, inv.drop⟩

end Inv

end NexaCore.Heap
