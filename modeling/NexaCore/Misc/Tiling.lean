import Mathlib.Tactic

/-!
# A stream in pieces

`Tiled mark start pieces stop` says that the pieces of a stream lie one after the other from the
position `start` to the position `stop`, each with the mark of its first position and none of
them empty. Each position in between is in exactly one piece.
-/

namespace NexaCore.Misc

open List

variable {α β : Type} {mark : Nat → β}

/-- The pieces lie one after the other from `start` to `stop`. -/
def Tiled (mark : Nat → β) : Nat → List (β × List α) → Nat → Prop
  | start, [], stop => start = stop
  | start, piece :: rest, stop =>
      piece.1 = mark start ∧ piece.2 ≠ [] ∧ Tiled mark (start + piece.2.length) rest stop

/-- What the pieces hold. -/
def contents (pieces : List (β × List α)) : List α := pieces.flatMap Prod.snd

namespace Tiled

variable {start stop : Nat} {pieces : List (β × List α)}

theorem length_contents (tiled : Tiled mark start pieces stop) :
    start + (contents pieces).length = stop := by
  induction pieces generalizing start with
  | nil => exact tiled
  | cons piece rest ih =>
    have later := ih tiled.2.2
    rw [contents, flatMap_cons, length_append]
    rw [contents] at later
    omega

theorem start_le (tiled : Tiled mark start pieces stop) : start ≤ stop := by
  have total := tiled.length_contents
  omega

theorem append {middle : Nat} {others : List (β × List α)} (tiled : Tiled mark start pieces middle)
    (more : Tiled mark middle others stop) : Tiled mark start (pieces ++ others) stop := by
  induction pieces generalizing start with
  | nil =>
    obtain rfl : start = middle := tiled
    exact more
  | cons piece rest ih => exact ⟨tiled.1, tiled.2.1, ih tiled.2.2⟩

theorem map {γ : Type} {other : Nat → γ} {tiles : List (Nat × List α)}
    (tiled : Tiled id start tiles stop) :
    Tiled other start (tiles.map fun tile => (other tile.1, tile.2)) stop := by
  induction tiles generalizing start with
  | nil => exact tiled
  | cons tile rest ih => exact ⟨congrArg other tiled.1, tiled.2.1, ih tiled.2.2⟩

section

variable (tiled : Tiled mark start pieces stop)

include tiled

/-- A piece lies at a position between `start` and `stop` and has the mark of it. -/
theorem exists_position {piece : β × List α} (mem : piece ∈ pieces) :
    ∃ pos, start ≤ pos ∧ pos + piece.2.length ≤ stop ∧ piece.1 = mark pos := by
  induction pieces generalizing start with
  | nil => cases mem
  | cons first rest ih =>
    obtain ⟨marked, -, later⟩ := tiled
    rcases List.mem_cons.mp mem with rfl | mem
    · exact ⟨start, le_rfl, later.start_le, marked⟩
    · obtain ⟨pos, low, high, marked⟩ := ih later mem
      exact ⟨pos, by omega, high, marked⟩

theorem next_mark {i : Nat} {piece : β × List α} (here : pieces[i]? = some piece) :
    ∃ pos, piece.1 = mark pos ∧
      (pieces[i + 1]?.map Prod.fst).getD (mark stop) = mark (pos + piece.2.length) := by
  induction pieces generalizing start i with
  | nil => cases here
  | cons first rest ih =>
    obtain ⟨marked, -, later⟩ := tiled
    cases i with
    | zero =>
      obtain rfl : first = piece := by simpa using here
      refine ⟨start, marked, ?_⟩
      cases rest with
      | nil =>
        have finish : start + first.2.length = stop := later
        rw [finish]
        rfl
      | cons second rest => exact later.1
    | succ i => exact ih later here

theorem exists_unique_piece {pos : Nat} (low : start ≤ pos) (high : pos < stop) :
    ∃ (i first : Nat) (data : List α), pieces[i]? = some (mark first, data) ∧ start ≤ first ∧
      first + data.length ≤ stop ∧ first ≤ pos ∧ pos < first + data.length ∧
      data[pos - first]? = (contents pieces)[pos - start]? ∧
      ∀ (j : Nat) (piece : β × List α), pieces[j]? = some piece → ∃ other, piece.1 = mark other ∧
        start ≤ other ∧
        other + piece.2.length ≤ stop ∧ (other ≤ pos → pos < other + piece.2.length → j = i) := by
  induction pieces generalizing start with
  | nil =>
    have empty : start = stop := tiled
    omega
  | cons piece rest ih =>
    obtain ⟨marked, -, later⟩ := tiled
    have finish := later.start_le
    by_cases inside : pos < start + piece.2.length
    · refine ⟨0, start, piece.2, by simp [← marked], le_rfl, finish, low, inside, ?_, ?_⟩
      · rw [contents, flatMap_cons, List.getElem?_append_left (by omega)]
      · intro j other found
        cases j with
        | zero =>
          obtain rfl : piece = other := by simpa using found
          exact ⟨start, marked, le_rfl, finish, fun _ _ => rfl⟩
        | succ j =>
          obtain ⟨first, low', high', marked'⟩ := later.exists_position (mem_of_getElem? found)
          exact ⟨first, marked', by omega, high', fun before _ => absurd before (by omega)⟩
    · obtain ⟨i, first, data, found, low', high', before, after, value, unique⟩ :=
        ih later (by omega)
      refine ⟨i + 1, first, data, found, by omega, high', before, after, ?_, ?_⟩
      · have shift : pos - (start + piece.2.length) = pos - start - piece.2.length := by omega
        rw [value, contents, contents, flatMap_cons, List.getElem?_append_right (by omega), shift]
      · intro j other found'
        cases j with
        | zero =>
          obtain rfl : piece = other := by simpa using found'
          exact ⟨start, marked, le_rfl, finish, fun _ within => absurd within inside⟩
        | succ j =>
          obtain ⟨first', marked', low'', high'', same⟩ := unique j other found'
          exact ⟨first', marked', by omega, high'', fun before' after' => by
            rw [same before' after']⟩

/-- Dropping the pieces that end at or before a position leaves a tiling from at or before that
position on. -/
theorem filter {keep : β × List α → Bool} {cut : Nat} (low : start ≤ cut)
    (keeps : ∀ pos data, (mark pos, data) ∈ pieces → start ≤ pos → pos + data.length ≤ stop →
      (keep (mark pos, data) = true ↔ cut < pos + data.length)) :
    ∃ start', start ≤ start' ∧ start' ≤ cut ∧ Tiled mark start' (pieces.filter keep) stop ∧
      contents (pieces.filter keep) = (contents pieces).drop (start' - start) := by
  induction pieces generalizing start with
  | nil => exact ⟨start, le_rfl, low, tiled, by simp [contents]⟩
  | cons piece rest ih =>
    obtain ⟨marked, nonempty, later⟩ := tiled
    obtain ⟨first, data⟩ := piece
    obtain rfl : first = mark start := marked
    change Tiled mark (start + data.length) rest stop at later
    have finish := later.start_le
    have here := keeps start data (.head _) le_rfl finish
    have others : ∀ pos data', (mark pos, data') ∈ rest → start + data.length ≤ pos →
        pos + data'.length ≤ stop → (keep (mark pos, data') = true ↔ cut < pos + data'.length) :=
      fun pos data' mem after inside =>
        keeps pos data' (.tail _ mem) (by omega) inside
    by_cases kept : cut < start + data.length
    · have all : rest.filter keep = rest := by
        rw [filter_eq_self]
        intro piece mem
        obtain ⟨pos, after, inside, mark'⟩ := later.exists_position mem
        have member : (mark pos, piece.2) ∈ rest := by rwa [← mark']
        have same : piece = (mark pos, piece.2) := Prod.ext mark' rfl
        rw [same, others pos piece.2 member after inside]
        omega
      rw [filter_cons_of_pos (here.mpr kept), all]
      exact ⟨start, le_rfl, low, ⟨rfl, nonempty, later⟩, by simp⟩
    · obtain ⟨start', after, before, tiled', rest'⟩ := ih later (by omega) others
      rw [filter_cons_of_neg (fun keep => kept (here.mp keep))]
      refine ⟨start', by omega, before, tiled', ?_⟩
      have shift : start' - start = data.length + (start' - (start + data.length)) := by omega
      rw [rest', shift, ← drop_drop]
      simp [contents]

end

end Tiled

end NexaCore.Misc
