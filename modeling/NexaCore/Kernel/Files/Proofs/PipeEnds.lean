import NexaCore.Kernel.Files.Handlers
import NexaCore.Misc.MapFold

/-!
# The lifetime of pipe ends

A pipe end should be closed when the last descriptor that refers to it goes away.
`handle_fd_close` and `handle_fd_dup2` close it with any descriptor. `Permitted` is the
condition on a call under which this makes no difference, and it is exact.
-/

namespace NexaCore.Files

open Misc Std Option FileDescriptorTable PipeRing KernelState ExtTreeMap

/-- The pipe end that a kind of descriptor is. -/
def FdKind.pipeEnd? : FdKind → Option (Nat × Bool)
  | .pipe pipeId isReadEnd => some (pipeId, isReadEnd)
  | _ => none

def FileDescriptorTable.endAt (t : FileDescriptorTable) (fd : Nat) : Option (Nat × Bool) :=
  (t.get fd).bind (·.kind.pipeEnd?)

def PipeRing.isOpen (ring : PipeRing) (isReadEnd : Bool) : Bool :=
  if isReadEnd then ring.readEndOpen else ring.writeEndOpen

/-- An end is marked closed only when no descriptor refers to it: an end to which one refers
is open. -/
def EndsOpen (t : FileDescriptorTable) (r : PipeRegistry) : Prop :=
  ∀ fd pipeId isReadEnd ring, t.endAt fd = some (pipeId, isReadEnd) →
    r.pipes[pipeId]? = some ring → ring.isOpen isReadEnd = true

/-! ## Tables and registries -/

section Tables

variable {t t' : FileDescriptorTable} {r : PipeRegistry} {d : FileDescriptor} {ring : PipeRing}
  {fd fd' pipeId n : Nat} {isReadEnd : Bool}

theorem FileDescriptorTable.endAt_insert :
    (⟨t.entries.insert fd d, n⟩ : FileDescriptorTable).endAt fd' =
      if fd' = fd then d.kind.pipeEnd? else t.endAt fd' := by
  simp only [endAt, get, getElem?_insert_eq]
  split <;> rfl

theorem FileDescriptorTable.endAt_erase :
    (⟨t.entries.erase fd, n⟩ : FileDescriptorTable).endAt fd' =
      if fd' = fd then none else t.endAt fd' := by
  simp only [endAt, get, getElem?_erase_eq]
  split <;> rfl

theorem FileDescriptorTable.open_eq_ok (opened : t.open d = .ok (fd, t')) :
    ∃ n, t' = ⟨t.entries.insert fd d, n⟩ := by
  unfold FileDescriptorTable.open at opened
  split at opened
  · cases opened
  · cases opened
    exact ⟨_, rfl⟩

theorem PipeRing.isOpen_close {other : Bool} :
    (if isReadEnd then ring.closeRead.2 else ring.closeWrite.2).isOpen other =
      if other = isReadEnd then false else ring.isOpen other := by
  cases isReadEnd <;> cases other <;> rfl

namespace EndsOpen

section

variable (sound : EndsOpen t r)

include sound

/-- A descriptor added or replaced by one whose end, if it is one, is open. -/
theorem insert (isOpen : ∀ pipeId isReadEnd ring,
      d.kind.pipeEnd? = some (pipeId, isReadEnd) → r.pipes[pipeId]? = some ring →
        ring.isOpen isReadEnd = true) :
    EndsOpen ⟨t.entries.insert fd d, n⟩ r := by
  intro other pipeId isReadEnd ring here there
  rw [endAt_insert] at here
  split at here
  · exact isOpen pipeId isReadEnd ring here there
  · exact sound other pipeId isReadEnd ring here there

theorem insert_other (other : d.kind.pipeEnd? = none) : EndsOpen ⟨t.entries.insert fd d, n⟩ r := by
  refine sound.insert fun pipeId isReadEnd ring refers => ?_
  rw [other] at refers
  cases refers

theorem isOpen_of_get (here : t.get fd = some d)
    (refers : d.kind.pipeEnd? = some (pipeId, isReadEnd))
    (registered : r.pipes[pipeId]? = some ring) :
    ring.isOpen isReadEnd = true := by
  refine sound fd pipeId isReadEnd ring ?_ registered
  rw [endAt, here]
  exact refers

theorem erase : EndsOpen ⟨t.entries.erase fd, n⟩ r := by
  intro other pipeId isReadEnd ring here there
  rw [endAt_erase] at here
  split at here
  · cases here
  · exact sound other pipeId isReadEnd ring here there

theorem insert_ring {ring' : PipeRing} (here : r.pipes[pipeId]? = some ring)
    (same : ∀ isReadEnd, ring'.isOpen isReadEnd = ring.isOpen isReadEnd) :
    EndsOpen t ⟨r.pipes.insert pipeId ring', n⟩ := by
  intro fd other isReadEnd found refers there
  rcases insert_eq_some.mp there with ⟨rfl, rfl⟩ | ⟨-, there⟩
  · rw [same]
    exact sound fd other isReadEnd ring refers here
  · exact sound fd other isReadEnd found refers there

theorem create : EndsOpen t r.create.2 := by
  intro fd pipeId isReadEnd ring refers there
  rcases insert_eq_some.mp there with ⟨-, rfl⟩ | ⟨-, there⟩
  · cases isReadEnd <;> rfl
  · exact sound fd pipeId isReadEnd ring refers there

theorem remove : EndsOpen t (r.remove pipeId) := by
  intro fd other isReadEnd ring refers there
  exact sound fd other isReadEnd ring refers (erase_eq_some.mp there).2

theorem closedEnd (alone : ∀ fd, t.endAt fd ≠ some (pipeId, isReadEnd)) :
    EndsOpen t (closedEnd r pipeId isReadEnd) := by
  unfold KernelState.closedEnd
  split
  · exact sound
  · rename_i ring registered
    intro fd other isReadEnd' found refers there
    rcases insert_eq_some.mp there with ⟨rfl, rfl⟩ | ⟨-, there⟩
    · rw [isOpen_close]
      split
      · rename_i equal
        subst equal
        exact absurd refers (alone fd)
      · exact sound fd other isReadEnd' ring refers registered
    · exact sound fd other isReadEnd' found refers there

end

/-- Closing the end of a registered pipe to which a descriptor refers breaks the rule. -/
theorem not_closedEnd (registered : r.pipes[pipeId]? = some ring) (fd : Nat)
    (refers : t.endAt fd = some (pipeId, isReadEnd)) :
    ¬EndsOpen t (KernelState.closedEnd r pipeId isReadEnd) := by
  intro sound
  have isOpen := sound fd pipeId isReadEnd
    (if isReadEnd then ring.closeRead.2 else ring.closeWrite.2) refers
    (by simp [KernelState.closedEnd, registered])
  rw [PipeRing.isOpen_close, if_pos rfl] at isOpen
  cases isOpen

end EndsOpen

end Tables

namespace KernelState

variable {s s' : KernelState} {fd : Nat}

/-- The end of a registered pipe that a descriptor refers to. -/
def registeredEnd (s : KernelState) (fd : Nat) : Option (Nat × Bool) :=
  (s.fdTable.endAt fd).filter fun pipeEnd => s.pipeRegistry.pipes[pipeEnd.1]?.isSome

/-- No other descriptor refers to the pipe end of this one. -/
def Unshared (s : KernelState) (fd : Nat) : Prop :=
  ∀ pipeEnd, s.registeredEnd fd = some pipeEnd → ∀ other, other ≠ fd →
    s.fdTable.endAt other ≠ some pipeEnd

/-- The calls that close an end only with its last descriptor: `close` of an end that is not
shared, and `dup2` onto such an end from another open descriptor. -/
def Permitted (s : KernelState) : Call → Prop
  | .close fd => s.Unshared fd
  | .dup2 oldFd newFd =>
      (s.registeredEnd newFd).isSome → (s.fdTable.get oldFd).isSome ∧ oldFd ≠ newFd ∧
        s.Unshared newFd
  | _ => True

/-- What a call should keep: the rule for pipe ends, and the whole state where it is a `dup2`
that fails or duplicates a descriptor onto itself. -/
def Kept (s : KernelState) (call : Call) (ret : SyscallReturn) (s' : KernelState) : Prop :=
  EndsOpen s'.fdTable s'.pipeRegistry ∧
    ∀ oldFd newFd, call = .dup2 oldFd newFd → ret.rdx = ebadf ∨ oldFd = newFd → s' = s

theorem registeredEnd_eq_some :
    s.registeredEnd fd = some (pipeId, isReadEnd) ↔ s.fdTable.endAt fd = some (pipeId, isReadEnd) ∧
        ∃ ring, s.pipeRegistry.pipes[pipeId]? = some ring := by
  rw [registeredEnd, filter_eq_some_iff, isSome_iff_exists]

theorem unshared_of_none (free : s.registeredEnd fd = none) : s.Unshared fd := by
  intro pipeEnd refers
  rw [free] at refers
  cases refers

/-- Closing the end of a descriptor that refers to no registered pipe does nothing. -/
theorem closePipeEnd_of_none {d : FileDescriptor} (here : s.fdTable.get fd = some d)
    (none : s.registeredEnd fd = none) : s.closePipeEnd d.kind = s := by
  unfold closePipeEnd
  split
  · rename_i pipeId isReadEnd kind
    have absent : s.pipeRegistry.pipes[pipeId]? = Option.none := by
      by_contra registered
      obtain ⟨ring, registered⟩ := Option.ne_none_iff_exists'.mp registered
      have refers : s.fdTable.endAt fd = some (pipeId, isReadEnd) := by
        rw [endAt, here, bind_some, kind]
        rfl
      rw [registeredEnd_eq_some.mpr ⟨refers, ring, registered⟩] at none
      cases none
    rw [closedEnd, absent]
  · rfl

theorem closePipeEnd_of_some {d : FileDescriptor}
    (here : s.fdTable.get fd = some d) (refers : s.fdTable.endAt fd = some (pipeId, isReadEnd)) :
    s.closePipeEnd d.kind =
      { s with pipeRegistry := closedEnd s.pipeRegistry pipeId isReadEnd } := by
  rw [endAt, here, bind_some] at refers
  unfold closePipeEnd
  cases kind : d.kind with
  | pipe id isRead =>
    rw [kind, FdKind.pipeEnd?, some_inj, Prod.mk.injEq] at refers
    rw [refers.1, refers.2]
  | console | fsFile | ipcChannel => rw [kind] at refers; cases refers

theorem unshared_iff : s.Unshared fd ↔ s.registeredEnd fd = none ∨
    ∀ entry ∈ s.fdTable.entries.toList, entry.1 ≠ fd →
      entry.2.kind.pipeEnd? ≠ s.registeredEnd fd := by
  constructor
  · intro unshared
    cases registered : s.registeredEnd fd with
    | none => exact .inl rfl
    | some pipeEnd =>
      refine .inr fun entry mem different shared => unshared pipeEnd registered entry.1 different ?_
      rw [FileDescriptorTable.endAt, FileDescriptorTable.get,
        mem_toList_iff_getElem?_eq_some.mp mem]
      exact shared
  · rintro (free | others) pipeEnd registered other different shared
    · rw [free] at registered
      cases registered
    · obtain ⟨d, here, refers⟩ := bind_eq_some_iff.mp shared
      refine others (other, d) (mem_toList_iff_getElem?_eq_some.mpr here) different ?_
      rw [refers, registered]

instance : Decidable (s.Unshared fd) := decidable_of_iff' _ unshared_iff

instance (s : KernelState) (call : Call) : Decidable (s.Permitted call) :=
  match call with
  | .close fd => inferInstanceAs (Decidable (s.Unshared fd))
  | .dup2 oldFd newFd =>
      inferInstanceAs (Decidable ((s.registeredEnd newFd).isSome →
        (s.fdTable.get oldFd).isSome ∧ oldFd ≠ newFd ∧ s.Unshared newFd))
  | .pipeCreate | .dup _ | .read _ _ | .write _ _ => .isTrue trivial

/-! ## The handlers -/

theorem handlePipeCreate_endsOpen (sound : EndsOpen s.fdTable s.pipeRegistry) :
    EndsOpen s.handlePipeCreate.2.fdTable s.handlePipeCreate.2.pipeRegistry := by
  have created := sound.create
  unfold handlePipeCreate
  simp only
  split
  · exact created.remove
  · rename_i rfd withRead opened
    obtain ⟨n, rfl⟩ := open_eq_ok opened
    have fresh : ∀ pipeId isReadEnd ring isRead,
        (FdKind.pipe s.pipeRegistry.create.1 isRead).pipeEnd? = some (pipeId, isReadEnd) →
          s.pipeRegistry.create.2.pipes[pipeId]? = some ring → ring.isOpen isReadEnd = true := by
      intro pipeId isReadEnd ring isRead refers registered
      obtain ⟨rfl, rfl⟩ := Prod.mk.inj (some_inj.mp refers)
      simp only [PipeRegistry.create, getElem?_insert_eq, if_pos, some_inj] at registered
      subst registered
      cases isRead <;> rfl
    have withReadEnd : EndsOpen ⟨s.fdTable.entries.insert rfd
        ⟨.pipe s.pipeRegistry.create.1 true, .default⟩, n⟩ s.pipeRegistry.create.2 :=
      created.insert fun pipeId isReadEnd ring => fresh pipeId isReadEnd ring true
    split
    · simp only [close]
      split
      · exact withReadEnd.erase.remove
      · exact withReadEnd.remove
    · rename_i wfd withBoth openedBoth
      obtain ⟨n, rfl⟩ := open_eq_ok openedBoth
      exact withReadEnd.insert fun pipeId isReadEnd ring => fresh pipeId isReadEnd ring false

theorem handleFdDup_endsOpen (sound : EndsOpen s.fdTable s.pipeRegistry) :
    EndsOpen (s.handleFdDup fd).2.fdTable (s.handleFdDup fd).2.pipeRegistry := by
  unfold handleFdDup
  split
  · exact sound
  · rename_i newFd table duplicated
    unfold dup at duplicated
    split at duplicated
    · cases duplicated
    · rename_i old here
      obtain ⟨n, rfl⟩ := open_eq_ok duplicated
      exact sound.insert fun _ _ _ => sound.isOpen_of_get (d := old) here

theorem handleFdRead_endsOpen (sound : EndsOpen s.fdTable s.pipeRegistry) (maxLen : Nat) :
    EndsOpen (s.handleFdRead fd maxLen).2.fdTable (s.handleFdRead fd maxLen).2.pipeRegistry := by
  unfold handleFdRead
  simp only
  split
  · exact sound
  · split
    · split
      · exact sound
      · exact sound
    · split
      · exact sound
      · split
        · exact sound
        · rename_i ring here
          exact sound.insert_ring here fun _ => rfl
    · split
      · exact sound.insert_other rfl
      · exact sound
      · exact sound
    · exact sound

variable {data : List UInt8}

theorem isOpen_write {ring ring' : PipeRing} {n : Nat}
    (written : ring.write data = .ok (n, ring')) (isReadEnd : Bool) :
    ring'.isOpen isReadEnd = ring.isOpen isReadEnd := by
  unfold write at written
  split at written
  · cases written
  · split at written
    · cases written
      rfl
    · simp only at written
      split at written
      · cases written
        rfl
      · cases written
        rfl

variable {ret : SyscallReturn}

/-- A write keeps the rule, and fails with `EPIPE` only through a write end of a pipe whose read
end is closed. -/
theorem handleFdWrite_endsOpen (sound : EndsOpen s.fdTable s.pipeRegistry)
    (written : s.handleFdWrite fd data = some (ret, s')) :
    EndsOpen s'.fdTable s'.pipeRegistry ∧ (ret.rdx = epipe →
      ∃ pipeId ring, s.fdTable.endAt fd = some (pipeId, false) ∧
        s.pipeRegistry.pipes[pipeId]? = some ring ∧ ring.readEndOpen = false) := by
  unfold handleFdWrite at written
  split at written
  · cases written
    exact ⟨sound, by rintro ⟨⟩⟩
  · rename_i desc here
    split at written
    · split at written
      · cases written
        exact ⟨sound, by rintro ⟨⟩⟩
      · cases written
        exact ⟨sound, by rintro ⟨⟩⟩
    · rename_i pipeId isReadEnd kind
      split at written
      · cases written
        exact ⟨sound, by rintro ⟨⟩⟩
      · rename_i writeEnd
        split at written
        · cases written
          exact ⟨sound, by rintro ⟨⟩⟩
        · rename_i ring registered
          split at written
          · rename_i taken
            cases written
            exact ⟨sound.insert_ring registered (isOpen_write taken), by rintro ⟨⟩⟩
          · rename_i failed
            cases written
            refine ⟨sound, fun _ => ⟨pipeId, ring, ?_, registered, ?_⟩⟩
            · rw [endAt, here, bind_some, kind, Bool.eq_false_of_not_eq_true writeEnd]
              rfl
            · unfold write at failed
              split at failed
              · rename_i closed
                simpa using closed
              · split at failed
                · cases failed
                · simp only at failed
                  split at failed
                  · cases failed
                  · cases failed
    · obtain ⟨result, -, rest⟩ := map_eq_some_iff.mp written
      split at rest
      · cases rest
        exact ⟨sound.insert_other rfl, by rintro ⟨⟩⟩
      · cases rest
        exact ⟨sound, by rintro ⟨⟩⟩
      · cases rest
        exact ⟨sound, by rintro ⟨⟩⟩
    · cases written
      exact ⟨sound, by rintro ⟨⟩⟩

/-- `close` keeps the rule exactly when the end of the descriptor is not shared. -/
theorem handleFdClose_endsOpen_iff (sound : EndsOpen s.fdTable s.pipeRegistry) :
    EndsOpen (s.handleFdClose fd).2.fdTable (s.handleFdClose fd).2.pipeRegistry ↔
      s.Unshared fd := by
  cases here : s.fdTable.get fd with
  | none =>
    simp only [handleFdClose, here]
    refine iff_of_true sound (unshared_of_none ?_)
    rw [registeredEnd, endAt, here]
    rfl
  | some d =>
    have present : s.fdTable.entries.contains fd = true := by
      rw [contains_eq_isSome_getElem?]
      exact isSome_iff_exists.mpr ⟨d, here⟩
    cases registered : s.registeredEnd fd with
    | none =>
      simp only [handleFdClose, here, closePipeEnd_of_none here registered, close, present, if_true]
      exact iff_of_true sound.erase (unshared_of_none registered)
    | some pipeEnd =>
      obtain ⟨pipeId, isReadEnd⟩ := pipeEnd
      obtain ⟨refers, ring, ringAt⟩ := registeredEnd_eq_some.mp registered
      simp only [handleFdClose, here, closePipeEnd_of_some here refers,
        close, present, if_true, Unshared, registered, some_inj]
      constructor
      · rintro kept pipeEnd rfl other different shared
        refine EndsOpen.not_closedEnd ringAt other ?_ kept
        rw [endAt_erase, if_neg different]
        exact shared
      · intro unshared
        refine sound.erase.closedEnd fun other there => ?_
        rw [endAt_erase] at there
        split at there
        · cases there
        · rename_i different
          exact unshared _ rfl other different there

theorem closeTarget_of_none (free : s.registeredEnd fd = none) : s.closeTarget fd = s := by
  unfold closeTarget
  cases here : s.fdTable.get fd with
  | none => rfl
  | some d => exact closePipeEnd_of_none here free

theorem closeTarget_of_some
    (refers : s.fdTable.endAt fd = some (pipeId, isReadEnd)) :
    s.closeTarget fd = { s with pipeRegistry := closedEnd s.pipeRegistry pipeId isReadEnd } := by
  unfold closeTarget
  cases here : s.fdTable.get fd with
  | none =>
    rw [endAt, here] at refers
    cases refers
  | some d => exact closePipeEnd_of_some here refers

/-- The table after a duplication onto another number. -/
def duplicated (t : FileDescriptorTable) (newFd : Nat) (old : FileDescriptor) :
    FileDescriptorTable :=
  { t with entries := (t.entries.erase newFd).insert newFd ⟨old.kind, .default⟩ }

variable {newFd : Nat} {old : FileDescriptor}

theorem endAt_duplicated {t : FileDescriptorTable} :
    (duplicated t newFd old).endAt fd = if fd = newFd then old.kind.pipeEnd? else t.endAt fd := by
  simp only [duplicated, FileDescriptorTable.endAt, FileDescriptorTable.get, getElem?_insert_eq,
    getElem?_erase_eq]
  split <;> rfl

/-- What the duplication in the table does: nothing, where the old number is not open or is
the new one, and a replacement otherwise. -/
theorem duplicateOnto_cases (s : KernelState) (oldFd newFd : Nat) :
    (s.duplicateOnto oldFd newFd).2 = s ∧ (s.fdTable.get oldFd = none ∨ oldFd = newFd) ∨
      ∃ old, s.fdTable.get oldFd = some old ∧ oldFd ≠ newFd ∧
        s.duplicateOnto oldFd newFd =
          (.ok newFd, { s with fdTable := duplicated s.fdTable newFd old }) := by
  unfold duplicateOnto dup2
  by_cases same : oldFd = newFd
  · left
    rw [if_pos same]
    split
    · exact ⟨rfl, .inr same⟩
    · rename_i isOk
      split at isOk
      · cases isOk
        exact ⟨rfl, .inr same⟩
      · cases isOk
  · rw [if_neg same]
    cases here : s.fdTable.get oldFd with
    | none => exact .inl ⟨rfl, .inl rfl⟩
    | some old => exact .inr ⟨old, rfl, same, rfl⟩

variable {oldFd : Nat}

theorem endsOpen_duplicated {r : PipeRegistry} {t : FileDescriptorTable} (sound : EndsOpen t r)
    (here : t.get oldFd = some old) :
    EndsOpen (duplicated t newFd old) r :=
  (sound.erase (n := t.nextFd)).insert fun _ _ _ => sound.isOpen_of_get (d := old) here

/-- `dup2` keeps what it should exactly when it is permitted. -/
theorem handleFdDup2_kept_iff (sound : EndsOpen s.fdTable s.pipeRegistry) :
    s.Kept (.dup2 oldFd newFd) (s.handleFdDup2 oldFd newFd).1 (s.handleFdDup2 oldFd newFd).2 ↔
      s.Permitted (.dup2 oldFd newFd) := by
  unfold handleFdDup2
  cases registered : s.registeredEnd newFd with
  | none =>
    refine iff_of_true ?_ (by simp [Permitted, registered])
    rw [closeTarget_of_none registered]
    rcases duplicateOnto_cases s oldFd newFd with ⟨same, -⟩ | ⟨old, here, different, result⟩
    · rw [Kept, same]
      exact ⟨sound, fun _ _ _ _ => rfl⟩
    · rw [result]
      refine ⟨endsOpen_duplicated sound here, ?_⟩
      rintro oldFd' newFd' equal (failed | onto)
      · cases failed
      · cases equal
        exact absurd onto different
  | some pipeEnd =>
    obtain ⟨pipeId, isReadEnd⟩ := pipeEnd
    obtain ⟨refers, ring, ringAt⟩ := registeredEnd_eq_some.mp registered
    rw [closeTarget_of_some refers]
    simp only [Permitted, registered, isSome_some, true_implies]
    rcases duplicateOnto_cases { s with pipeRegistry := closedEnd s.pipeRegistry pipeId isReadEnd }
      oldFd newFd with ⟨same, nothing⟩ | ⟨old, here, different, result⟩
    · -- The table is as before, so `newFd` itself refers to the closed end.
      rw [Kept, same]
      refine iff_of_false (fun kept => EndsOpen.not_closedEnd ringAt newFd refers kept.1) ?_
      rintro ⟨isOpen, different, -⟩
      rcases nothing with closed | onto
      · rw [closed] at isOpen
        cases isOpen
      · exact different onto
    · rw [result, here]
      simp only [isSome_some, true_and]
      constructor
      · rintro ⟨kept, -⟩
        refine ⟨different, fun pipeEnd equal other away shared => ?_⟩
        rw [registered, some_inj] at equal
        subst equal
        refine EndsOpen.not_closedEnd ringAt other ?_ kept
        rw [endAt_duplicated, if_neg away]
        exact shared
      · rintro ⟨-, unshared⟩
        refine ⟨(endsOpen_duplicated sound here).closedEnd fun other there => ?_, ?_⟩
        · rw [endAt_duplicated] at there
          split at there
          · refine unshared _ registered oldFd different ?_
            rw [endAt, here]
            exact there
          · rename_i away
            exact unshared _ registered other away there
        · rintro oldFd' newFd' equal (failed | onto)
          · cases failed
          · cases equal
            exact absurd onto different

/-! ## Runs -/

theorem kept_iff_permitted (sound : EndsOpen s.fdTable s.pipeRegistry) {call : Call}
    {result : SyscallReturn × KernelState} (executed : s.execute call = some result) :
    s.Kept call result.1 result.2 ↔ s.Permitted call := by
  cases call with
  | pipeCreate =>
    obtain rfl := some_inj.mp executed
    refine iff_of_true ⟨handlePipeCreate_endsOpen sound, fun _ _ other => ?_⟩ trivial
    cases other
  | dup fd =>
    obtain rfl := some_inj.mp executed
    refine iff_of_true ⟨handleFdDup_endsOpen sound, fun _ _ other => ?_⟩ trivial
    cases other
  | dup2 oldFd newFd =>
    obtain rfl := some_inj.mp executed
    exact handleFdDup2_kept_iff sound
  | close fd =>
    obtain rfl := some_inj.mp executed
    rw [Kept, handleFdClose_endsOpen_iff sound]
    refine and_iff_left fun _ _ other => ?_
    cases other
  | read fd maxLen =>
    obtain rfl := some_inj.mp executed
    refine iff_of_true ⟨handleFdRead_endsOpen sound maxLen, fun _ _ other => ?_⟩ trivial
    cases other
  | write fd data =>
    refine iff_of_true ⟨(handleFdWrite_endsOpen sound executed).1, fun _ _ other => ?_⟩ trivial
    cases other

/-- In every run of permitted calls, from a state in which no end in use is closed, no end in
use is ever closed; a write fails with `EPIPE` only when no descriptor refers to the read
end; and the next call keeps the rule, and a failed `dup2` or one onto itself the whole
state, exactly when it is permitted. -/
theorem pipe_ends_open {s₀ : KernelState} {calls : List Call}
    (initial : EndsOpen s₀.fdTable s₀.pipeRegistry)
    (run : Run (step.restrict Permitted) s₀ calls s) :
    EndsOpen s.fdTable s.pipeRegistry ∧
      (∀ fd data ret s', s.handleFdWrite fd data = some (ret, s') → ret.rdx = epipe →
        ∃ pipeId, s.fdTable.endAt fd = some (pipeId, false) ∧
          ∀ other, s.fdTable.endAt other ≠ some (pipeId, true)) ∧
      ∀ call ret s', s.execute call = some (ret, s') → (s.Kept call ret s' ↔ s.Permitted call) := by
  have sound : EndsOpen s.fdTable s.pipeRegistry := by
    refine Run.invariant (fun s => EndsOpen s.fdTable s.pipeRegistry) ?_ run initial
    rintro s call s' sound ⟨permitted, taken⟩
    obtain ⟨⟨ret, after⟩, executed, rfl⟩ := map_eq_some_iff.mp taken
    exact ((kept_iff_permitted sound executed).mpr permitted).1
  refine ⟨sound, fun fd data ret s' written broken => ?_, fun call ret s' executed =>
    kept_iff_permitted sound executed⟩
  obtain ⟨pipeId, ring, refers, registered, closed⟩ :=
      (handleFdWrite_endsOpen sound written).2 broken
  refine ⟨pipeId, refers, fun other reads => ?_⟩
  have isOpen := sound other pipeId true ring reads registered
  rw [PipeRing.isOpen, if_pos rfl, closed] at isOpen
  cases isOpen

/-- Two pipes: the read end of the first is duplicated and used, that of the second is closed
with its only descriptor. -/
theorem pipe_ends_open_twoPipes :
    ∃ s, Run (step.restrict Permitted) newForTest
        [.pipeCreate, .dup 3, .write 4 [104, 105], .read 5 1, .dup2 1 0, .pipeCreate, .close 6] s ∧
      (s.handleFdWrite 4 [106]).map (·.1.rdx) = some 0 ∧
      (s.handleFdWrite 7 [106]).map (·.1.rdx) = some epipe ∧
      EndsOpen s.fdTable s.pipeRegistry := by
  obtain ⟨s, run, first, second⟩ : ∃ s, Run (step.restrict Permitted) newForTest
        [.pipeCreate, .dup 3, .write 4 [104, 105], .read 5 1, .dup2 1 0, .pipeCreate, .close 6] s ∧
      (s.handleFdWrite 4 [106]).map (·.1.rdx) = some 0 ∧
      (s.handleFdWrite 7 [106]).map (·.1.rdx) = some epipe :=
    Run.exists_of_any (fun _ _ _ => restrict_of_guarded) (by decide +kernel)
  refine ⟨s, run, first, second, (pipe_ends_open ?_ run).1⟩
  intro fd pipeId isReadEnd ring refers registered
  simp [newForTest, PipeRegistry.new] at registered

/-- Closing one of two descriptors of a read end breaks the pipe for the other, and a `dup2`
that fails, or that duplicates a write end onto itself, closes it. -/
theorem shared_pipe_end_closed :
    (∃ s, Run step newForTest [.pipeCreate, .dup 3, .close 3] s ∧
      s.fdTable.endAt 5 = some (1, true) ∧ (s.handleFdWrite 4 [106]).map (·.1.rdx) = some epipe ∧
      ¬EndsOpen s.fdTable s.pipeRegistry) ∧
    ∃ s, Run step newForTest [.pipeCreate] s ∧ (s.handleFdDup2 99 4).1.rdx = ebadf ∧
      (s.handleFdDup2 99 4).2 ≠ s ∧ (s.handleFdDup2 4 4).2 ≠ s := by
  constructor
  · obtain ⟨s, run, refers, broken, evaluated⟩ : ∃ s, Run step newForTest
        [.pipeCreate, .dup 3, .close 3] s ∧ s.fdTable.endAt 5 = some (1, true) ∧
        (s.handleFdWrite 4 [106]).map (·.1.rdx) = some epipe ∧
        s.pipeRegistry.pipes[1]?.any fun ring => ring.isOpen true = false :=
      Run.exists_of_any (fun _ _ _ taken => taken) (by decide +kernel)
    obtain ⟨ring, registered, closed⟩ := exists_of_any evaluated
    refine ⟨s, run, refers, broken, fun sound => ?_⟩
    rw [sound 5 1 true ring refers registered] at closed
    cases closed
  · obtain ⟨s, run, failed, before, first, second⟩ : ∃ s, Run step newForTest [.pipeCreate] s ∧
        (s.handleFdDup2 99 4).1.rdx = ebadf ∧
        s.pipeRegistry.pipes[1]?.map (·.isOpen false) = some true ∧
        (s.handleFdDup2 99 4).2.pipeRegistry.pipes[1]?.map (·.isOpen false) = some false ∧
        (s.handleFdDup2 4 4).2.pipeRegistry.pipes[1]?.map (·.isOpen false) = some false :=
      Run.exists_of_any (fun _ _ _ taken => taken) (by decide +kernel)
    refine ⟨s, run, failed, fun same => ?_, fun same => ?_⟩
    · rw [same, before] at first
      cases first
    · rw [same, before] at second
      cases second

end KernelState

end NexaCore.Files
