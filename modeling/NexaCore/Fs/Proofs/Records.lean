import NexaCore.Fs.Checks
import NexaCore.Fs.Proofs.InodeTable
import Mathlib

/-!
# Records of an arbitrary inode table

A record of the inode table by its layout: which bytes its fields are, and where it ends when the
table does not hold all the block pointers that it announces. What the decoder does on arbitrary
bytes with a record and a table of records, and when it panics.
-/

namespace NexaCore.Fs

open Misc List Option

/-! ## Layout -/

namespace Record

/-- The inode number of a record. The argument is the table from the start of the record on. -/
def number (r : List UInt8) : Nat := leField r 0 8

/-- The type byte of a record is that of a regular file. -/
def IsRegular (r : List UInt8) : Prop := r.getD 8 0 = 0

def size (r : List UInt8) : Nat := leField r 16 8

/-- The number of block pointers that a record announces. -/
def pointers (r : List UInt8) : Nat := leField r 48 8

/-- The number of block pointers that the table holds. -/
def pointersHeld (r : List UInt8) : Nat := min (pointers r) ((r.length - 56) / 8)

/-- Where the length of the path is. -/
def pathField (r : List UInt8) : Nat := 56 + 8 * pointersHeld r

def pathLen (r : List UInt8) : Nat := leField r (pathField r) 2

def stop (r : List UInt8) : Nat := pathField r + 2 + pathLen r

def path (r : List UInt8) : String := fromUtf8Lossy ((r.drop (pathField r + 2)).take (pathLen r))

/-- The table holds the record to its end. -/
def Complete (r : List UInt8) : Prop := stop r ≤ r.length

instance : DecidablePred IsRegular := fun r => inferInstanceAs (Decidable (r.getD 8 0 = 0))

instance : DecidablePred Complete := fun r => inferInstanceAs (Decidable (stop r ≤ r.length))

def inode (r : List UInt8) : Inode where
  inodeNumber := number r
  fileType := if IsRegular r then .regularFile else .directory
  size := size r
  blockCount := leField r 24 4
  created := leField r 32 8
  modified := leField r 40 8
  blocks := (takeBlocks (pointers r) (r.drop 56)).1
  name := basename (path r)

theorem complete_length {r : List UInt8} (complete : Complete r) : 58 ≤ r.length := by
  unfold Complete stop pathField at complete
  omega

/-- The decoder does not panic at the record: the check for 40 bytes is followed by a read of 48,
the pointers are a capacity, and one is added to the number of a complete record. -/
structure Safe (r : List UInt8) : Prop where
  fields : 40 ≤ r.length → 48 ≤ r.length
  capacity : 56 ≤ r.length → pointers r * 8 < 2 ^ 63
  successor : Complete r → number r + 1 < 2 ^ 64

/-- The buffers for the record are no larger than the limit: the capacity for its pointers, and the
one for a path that does not fit in twice its bytes. -/
structure Fits (limit : Nat) (r : List UInt8) : Prop where
  capacity : 56 ≤ r.length → pointers r * 8 ≤ limit
  path : Complete r → 2 * pathLen r < byteLen (path r) → 4 * pathLen r ≤ limit

end Record

/-- The records that the decoder of `count` records comes to; the last of them may be incomplete. -/
def recordsFrom : Nat → List UInt8 → List (List UInt8)
  | 0, _ => []
  | count + 1, r =>
      r :: if Record.Complete r then recordsFrom count (r.drop (Record.stop r)) else []

/-! ## One record -/

theorem takeLe_drop {r : List UInt8} {start width : Nat} (inside : start + width ≤ r.length) :
    takeLe width (r.drop start) = some (leField r start width, r.drop (start + width)) := by
  have enough : width ≤ (r.drop start).length := by
    rw [length_drop]
    omega
  rw [takeLe, if_pos enough, drop_drop]
  rfl

theorem takeLe_drop_eq_none {r : List UInt8} {start width : Nat} (positive : 0 < width)
    (outside : r.length < start + width) : takeLe width (r.drop start) = none := by
  have short : ¬width ≤ (r.drop start).length := by
    rw [length_drop]
    omega
  rw [takeLe, if_neg short]

theorem takeBlocks_snd (n : Nat) (data : List UInt8) :
    (takeBlocks n data).2 = data.drop (8 * min n (data.length / 8)) := by
  induction n generalizing data with
  | zero => rw [Nat.zero_min, Nat.mul_zero, drop_zero, takeBlocks]
  | succ n ih =>
    rw [takeBlocks]
    split
    · have none : data.length / 8 = 0 := by omega
      rw [none, Nat.min_zero, Nat.mul_zero, drop_zero]
    · have rest : 8 + 8 * min n ((data.drop 8).length / 8) = 8 * min (n + 1) (data.length / 8) := by
        rw [length_drop]
        omega
      simp only [ih, drop_drop, rest]

theorem takeBlocks_pointers (r : List UInt8) :
    (takeBlocks (Record.pointers r) (r.drop 56)).2 = r.drop (Record.pathField r) := by
  rw [takeBlocks_snd, length_drop, drop_drop]
  rfl

theorem deserializeInode_eq (r : List UInt8) :
    deserializeInode r =
      if r.length < 40 then some none
      else if r.length < 48 then none
      else if r.length < 56 then some none
      else if 2 ^ 63 ≤ Record.pointers r * 8 then none
      else if Record.Complete r then
        some (some (Record.inode r, Record.path r, r.drop (Record.stop r)))
      else some none := by
  rw [deserializeInode]
  by_cases short : r.length < 40
  · rw [if_pos short, if_pos short]
    rfl
  · have kind : (r.drop 8).head? = some (r.getD 8 0) := by
      rw [List.head?_drop, getD_eq_getElem?_getD, List.getElem?_eq_getElem (by omega)]
      rfl
    have first : takeLe 8 (r.drop 0) = some (leField r 0 8, r.drop 8) := takeLe_drop (by omega)
    rw [drop_zero] at first
    rw [if_neg short, if_neg short, first]
    simp only [bind_eq_bind, bind_some, kind, drop_drop, Option.pure_def]
    rw [takeLe_drop (by omega)]
    simp only [bind_some]
    rw [takeLe_drop (by omega)]
    simp only [bind_some, drop_drop]
    rw [takeLe_drop (by omega)]
    simp only [bind_some]
    by_cases torn : r.length < 48
    · rw [if_pos torn, takeLe_drop_eq_none (by decide) torn]
      rfl
    · rw [if_neg torn, takeLe_drop (by omega)]
      simp only [bind_some, length_drop]
      by_cases pointerless : r.length < 56
      · rw [if_pos (by omega), if_pos pointerless]
      · rw [if_neg (by omega), if_neg pointerless, takeLe_drop (by omega)]
        simp only [bind_some]
        have announced : leField r (8 + 8 + 8 + 4 + 4 + 8 + 8) 8 = Record.pointers r := rfl
        have held : (takeBlocks (Record.pointers r) (r.drop (8 + 8 + 8 + 4 + 4 + 8 + 8 + 8))).2 =
            r.drop (Record.pathField r) := takeBlocks_pointers r
        rw [announced, held, length_drop]
        by_cases huge : 2 ^ 63 ≤ Record.pointers r * 8
        · rw [if_pos huge, if_pos huge]
          rfl
        · rw [if_neg huge, if_neg huge]
          by_cases counted : r.length - Record.pathField r < 2
          · have incomplete : ¬Record.Complete r := by
              unfold Record.Complete Record.stop
              omega
            rw [if_pos counted, if_neg incomplete]
          · rw [if_neg counted, takeLe_drop (by omega)]
            simp only [bind_some, length_drop, drop_drop]
            by_cases complete : Record.Complete r
            · have whole : ¬r.length - (Record.pathField r + 2) <
                  leField r (Record.pathField r) 2 :=
                Nat.not_lt.mpr (Nat.le_sub_of_add_le' complete)
              rw [if_neg whole, if_pos complete]
              rfl
            · have cut : r.length - (Record.pathField r + 2) <
                  leField r (Record.pathField r) 2 := by
                unfold Record.Complete Record.stop Record.pathLen at complete
                omega
              rw [if_pos cut, if_neg complete]

section

variable {r : List UInt8}

theorem deserializeInode_complete (safe : Record.Safe r) (complete : Record.Complete r) :
    deserializeInode r = some (some (Record.inode r, Record.path r, r.drop (Record.stop r))) := by
  have long := Record.complete_length complete
  have capacity := safe.capacity (by omega)
  rw [deserializeInode_eq, if_neg (by omega), if_neg (by omega), if_neg (by omega),
    if_neg (by omega), if_pos complete]

theorem deserializeInode_incomplete (safe : Record.Safe r) (incomplete : ¬Record.Complete r) :
    deserializeInode r = some none := by
  have fields := safe.fields
  have capacity := safe.capacity
  rw [deserializeInode_eq, if_neg incomplete]
  split
  · rfl
  · rw [if_neg (by omega)]
    split
    · rfl
    · rw [if_neg (by omega)]

/-! ## The table -/

variable (count : Nat) {table : InodeTable}

theorem deserializeLoop_complete (safe : Record.Safe r) (complete : Record.Complete r)
    (bound : table.nextInode < 2 ^ 64) :
    ∃ next < 2 ^ 64, deserializeLoop (count + 1) r table =
      deserializeLoop count (r.drop (Record.stop r)) {
        inodes := table.inodes.insert (Record.number r) (Record.inode r)
        pathMap := table.pathMap.insert (Record.path r) (Record.number r)
        nextInode := next } := by
  have successor := safe.successor complete
  rw [deserializeLoop, deserializeInode_complete safe complete]
  simp only [bind_eq_bind, bind_some]
  split
  · have sum : addU64 (Record.inode r).inodeNumber 1 = some (Record.number r + 1) :=
      addU64_of_lt successor
    exact ⟨_, successor, by rw [sum]; rfl⟩
  · exact ⟨_, bound, rfl⟩

theorem deserializeLoop_incomplete (safe : Record.Safe r) (incomplete : ¬Record.Complete r) :
    deserializeLoop (count + 1) r table = some table := by
  rw [deserializeLoop, deserializeInode_incomplete safe incomplete]
  rfl

theorem deserializeLoop_of_not_safe (broken : ¬Record.Safe r) (bound : table.nextInode < 2 ^ 64) :
    deserializeLoop (count + 1) r table = none := by
  rw [deserializeLoop, deserializeInode_eq]
  by_cases short : r.length < 40
  · exact absurd ⟨by omega, by omega,
      fun complete => absurd (Record.complete_length complete) (by omega)⟩
      broken
  by_cases torn : r.length < 48
  · rw [if_neg short, if_pos torn]
    rfl
  by_cases pointerless : r.length < 56
  · exact absurd ⟨by omega, by omega,
      fun complete => absurd (Record.complete_length complete) (by omega)⟩
      broken
  by_cases huge : 2 ^ 63 ≤ Record.pointers r * 8
  · rw [if_neg short, if_neg torn, if_neg pointerless, if_pos huge]
    rfl
  by_cases complete : Record.Complete r
  · have last : 2 ^ 64 ≤ Record.number r + 1 := by
      by_contra fits
      exact broken ⟨by omega, by omega, fun _ => by omega⟩
    rw [if_neg short, if_neg torn, if_neg pointerless, if_neg huge, if_pos complete]
    have above : table.nextInode ≤ (Record.inode r).inodeNumber := by
      have number : (Record.inode r).inodeNumber = Record.number r := rfl
      omega
    have overflow : addU64 (Record.inode r).inodeNumber 1 = none := if_neg (Nat.not_lt.mpr last)
    simp only [bind_eq_bind, bind_some, if_pos above, overflow, bind_none]
  · exact absurd ⟨by omega, by omega, fun whole => absurd whole complete⟩ broken

variable {count}

theorem mem_recordsFrom_self : r ∈ recordsFrom (count + 1) r := .head _

theorem recordsFrom_complete (complete : Record.Complete r) :
    recordsFrom (count + 1) r = r :: recordsFrom count (r.drop (Record.stop r)) := by
  rw [recordsFrom, if_pos complete]

theorem recordsFrom_incomplete (incomplete : ¬Record.Complete r) :
    recordsFrom (count + 1) r = [r] := by
  rw [recordsFrom, if_neg incomplete]

/-- A table of safe records is decoded to its complete records; any other record is a panic. -/
theorem deserializeLoop_spec (bound : table.nextInode < 2 ^ 64) :
    ((∀ r' ∈ recordsFrom count r, Record.Safe r') ∧ ∃ next, deserializeLoop count r table = some {
        inodes := insertAll Record.number Record.inode
          ((recordsFrom count r).filter Record.Complete) table.inodes
        pathMap := insertAll Record.path Record.number
          ((recordsFrom count r).filter Record.Complete) table.pathMap
        nextInode := next }) ∨
    (¬∀ r' ∈ recordsFrom count r, Record.Safe r') ∧ deserializeLoop count r table = none := by
  induction count generalizing r table with
  | zero => exact .inl ⟨forall_mem_nil _, table.nextInode, rfl⟩
  | succ count ih =>
    by_cases here : Record.Safe r
    · by_cases complete : Record.Complete r
      · obtain ⟨next, bound', turn⟩ := deserializeLoop_complete count here complete bound
        rw [recordsFrom_complete complete, turn, forall_mem_cons,
          filter_cons_of_pos (by simpa using complete)]
        exact (ih bound').imp (.imp_left (⟨here, ·⟩)) (.imp_left (mt And.right))
      · rw [recordsFrom_incomplete complete, deserializeLoop_incomplete count here complete,
          filter_cons_of_neg (by simpa using complete), forall_mem_singleton]
        exact .inl ⟨here, table.nextInode, rfl⟩
    · exact .inr ⟨fun safe => here (safe r mem_recordsFrom_self),
        deserializeLoop_of_not_safe count here bound⟩

end

/-! ## Allocation -/

theorem byteLen_ofList (chars : List Char) :
    byteLen (String.ofList chars) = (chars.flatMap String.utf8EncodeChar).length := by
  rw [byteLen, utf8Bytes, String.toList_ofList]

theorem length_decodeLossy (fuel : Nat) (bytes : List UInt8) :
    ((decodeLossy fuel bytes).flatMap String.utf8EncodeChar).length ≤ 3 * bytes.length := by
  induction fuel generalizing bytes with
  | zero => exact Nat.zero_le _
  | succ fuel ih =>
    cases bytes with
    | nil => exact Nat.zero_le _
    | cons byte rest =>
      rw [decodeLossy]
      cases decoded : (byte :: rest).toByteArray.utf8DecodeChar? 0 with
      | some c =>
        have size := ByteArray.le_size_of_utf8DecodeChar?_eq_some decoded
        rw [size_toByteArray] at size
        have later := ih ((byte :: rest).drop c.utf8Size)
        rw [length_drop] at later
        simp only [flatMap_cons, length_append, String.length_utf8EncodeChar]
        omega
      | none =>
        have progress : 1 ≤ invalidLength (byte :: rest) := by
          unfold invalidLength
          repeat' split
          all_goals decide
        have width : (String.utf8EncodeChar '�').length = 3 := by decide
        have later := ih ((byte :: rest).drop (invalidLength (byte :: rest)))
        rw [length_drop] at later
        simp only [flatMap_cons, length_append, width, length_cons] at later ⊢
        omega

theorem byteLen_fromUtf8Lossy (bytes : List UInt8) :
    byteLen (fromUtf8Lossy bytes) ≤ 3 * bytes.length := by
  rw [fromUtf8Lossy, byteLen_ofList]
  exact length_decodeLossy _ _

theorem byteLen_basename (path : String) : byteLen (basename path) ≤ byteLen path := by
  rw [basename]
  split
  · rename_i slash
    obtain ⟨front, back, split⟩ := append_of_mem slash.2
    rw [byteLen, byteLen, utf8Bytes, utf8Bytes, split, flatMap_append, flatMap_cons,
      length_append, length_append]
    have one : ("/".toList.flatMap String.utf8EncodeChar).length =
      (String.utf8EncodeChar '/').length := by decide
    omega
  · have suffix : ((path.toList.reverse.takeWhile (· ≠ '/')).reverse).Sublist path.toList := by
      have front := (takeWhile_sublist (· ≠ '/') (l := path.toList.reverse)).reverse
      rwa [reverse_reverse] at front
    rw [byteLen_ofList]
    exact (suffix.flatMap _).length_le

section

variable {r : List UInt8} {limit : Nat}

theorem growth_of_le {cap len : Nat} (fits : len ≤ cap) : growth cap len = [] := by
  rw [growth, if_neg (Nat.not_lt.mpr fits)]

theorem le_of_mem_growth {cap len n : Nat} (mem : n ∈ growth cap len) : n ≤ max 8 (2 * len) := by
  fun_induction growth cap len with
  | case1 cap larger ih =>
    rcases mem_cons.mp mem with rfl | mem
    · omega
    · exact ih mem
  | case2 => cases mem

/-- A buffer that grows to at most three times its capacity doubles at most twice. -/
theorem growth_le_iff {cap len : Nat} (bound : len ≤ 3 * cap) (room : 3 * cap ≤ limit)
    (large : 16 ≤ limit) :
    (∀ n ∈ growth cap len, n ≤ limit) ↔ (2 * cap < len → 4 * cap ≤ limit) := by
  rw [growth]
  split
  · rw [growth, growth_of_le (by omega), forall_mem_cons]
    split
    · rw [forall_mem_singleton]
      omega
    · exact iff_of_true ⟨by omega, forall_mem_nil _⟩ (by omega)
  · exact iff_of_true (forall_mem_nil _) (by omega)

/-- A path is at most three times as long as its bytes in the record. -/
theorem inodeRequests_le_iff (room : 3 * (r.length - 58) ≤ limit) (large : 16 ≤ limit) :
    (∀ n ∈ inodeRequests r, n ≤ limit) ↔ Record.Fits limit r := by
  unfold inodeRequests
  by_cases short : r.length < 56
  · rw [if_pos short]
    refine iff_of_true (forall_mem_nil _) ⟨by omega, fun complete => ?_⟩
    exact absurd (Record.complete_length complete) (by omega)
  · have announced : leField r 48 8 = Record.pointers r := rfl
    have start : 56 ≤ Record.pathField r := Nat.le_add_right _ _
    have field : leField (r.drop (Record.pathField r)) 0 2 = Record.pathLen r := by
      rw [leField, drop_zero]
      rfl
    rw [if_neg short, forall_mem_cons]
    simp only [announced, takeBlocks_pointers, field, length_drop, drop_drop]
    by_cases complete : Record.Complete r
    · have bytes := byteLen_fromUtf8Lossy
        ((r.drop (Record.pathField r + 2)).take (Record.pathLen r))
      have component := byteLen_basename (Record.path r)
      rw [length_take, length_drop] at bytes
      have whole := complete
      rw [Record.Complete, Record.stop] at whole
      rw [if_neg (by omega), if_neg (by omega), cons_append, forall_mem_cons, forall_mem_append,
        growth_le_iff (by omega) (by omega) large, forall_mem_singleton]
      constructor
      · exact fun all => ⟨fun _ => all.1, fun _ => all.2.2.1⟩
      · intro fits
        refine ⟨fits.capacity (by omega), by omega, fits.path complete, ?_⟩
        exact component.trans (by unfold Record.path; omega)
    · have cut := complete
      rw [Record.Complete, Record.stop] at cut
      have pathless : ∀ requests : List Nat, (if r.length - Record.pathField r < 2 then []
          else if r.length - Record.pathField r < 2 + Record.pathLen r then [] else requests) =
            [] := by
        intro requests
        split
        · rfl
        · rw [if_pos (by omega)]
      rw [pathless]
      refine ⟨fun all => ⟨fun _ => all.1, fun whole => absurd whole complete⟩, fun fits => ?_⟩
      exact ⟨fits.capacity (by omega), forall_mem_nil _⟩

/-- The table asks for no more than the limit if no record does. -/
theorem tableRequests_le_iff {count : Nat} (room : 3 * (r.length - 58) ≤ limit)
    (large : 16 ≤ limit) (safe : ∀ r' ∈ recordsFrom count r, Record.Safe r') :
    (∀ n ∈ tableRequests count r, n ≤ limit) ↔
      ∀ r' ∈ recordsFrom count r, Record.Fits limit r' := by
  induction count generalizing r with
  | zero =>
    exact iff_of_true (forall_mem_nil _) (forall_mem_nil _)
  | succ count ih =>
    have here := safe r mem_recordsFrom_self
    rw [tableRequests]
    by_cases complete : Record.Complete r
    · rw [recordsFrom_complete complete] at safe ⊢
      have later := ih (r := r.drop (Record.stop r)) (by rw [length_drop]; omega)
        fun r' mem => safe r' (.tail _ mem)
      rw [deserializeInode_complete here complete, forall_mem_append,
        inodeRequests_le_iff room large, forall_mem_cons]
      exact and_congr_right fun _ => later
    · rw [deserializeInode_incomplete here complete, recordsFrom_incomplete complete,
        append_nil, inodeRequests_le_iff room large, forall_mem_singleton]

end

end NexaCore.Fs
