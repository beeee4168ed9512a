import NexaCore.Kernel.Basic
import Std.Data.ExtTreeMap

/-!
# Anonymous pipes

Embedding of `nexacore-kernel/src/pipe.rs`: the byte ring of a pipe with the flags of its
two ends, and the registry of all pipes.
-/

namespace NexaCore.Files

open Std

/-- `PIPE_CAPACITY` (`pipe.rs:51`). -/
def pipeCapacity : Nat := 65536

/-- `PipeError` (`pipe.rs:89-96`). -/
inductive PipeError where
  | brokenPipe
  deriving DecidableEq, Repr

/-- `PipeRing` (`pipe.rs:127-140`). -/
structure PipeRing where
  buffer : List UInt8
  capacity : Nat
  writeEndOpen : Bool
  readEndOpen : Bool
  waitersRead : List TaskId
  waitersWrite : List TaskId
  deriving DecidableEq, Repr

namespace PipeRing

/-- `PipeRing::new` (`pipe.rs:157-166`). -/
def new : PipeRing := ⟨[], pipeCapacity, true, true, [], []⟩

/-- `write` (`pipe.rs:191-215`). -/
def write (ring : PipeRing) (data : List UInt8) : Except PipeError (Nat × PipeRing) :=
  if !ring.readEndOpen then .error .brokenPipe
  else if data.isEmpty then .ok (0, ring)
  else
    let available := ring.capacity - ring.buffer.length
    if available = 0 then .ok (0, ring)
    else
      let toWrite := min data.length available
      .ok (toWrite, { ring with buffer := ring.buffer ++ data.take toWrite })

/-- `read` into a buffer of `len` bytes (`pipe.rs:254-268`); the bytes that it
places. With nothing to place the ring stays as it is. -/
def read (ring : PipeRing) (len : Nat) : List UInt8 × PipeRing :=
  let toRead := min len ring.buffer.length
  (ring.buffer.take toRead, { ring with buffer := ring.buffer.drop toRead })

/-- `drain_read_waiters` (`pipe.rs:368-370`). -/
def drainReadWaiters (ring : PipeRing) : List TaskId × PipeRing :=
  (ring.waitersRead, { ring with waitersRead := [] })

/-- `drain_write_waiters` (`pipe.rs:387-389`). -/
def drainWriteWaiters (ring : PipeRing) : List TaskId × PipeRing :=
  (ring.waitersWrite, { ring with waitersWrite := [] })

/-- `close_write` (`pipe.rs:287-290`). -/
def closeWrite (ring : PipeRing) : List TaskId × PipeRing :=
  ({ ring with writeEndOpen := false } : PipeRing).drainReadWaiters

/-- `close_read` (`pipe.rs:309-312`). -/
def closeRead (ring : PipeRing) : List TaskId × PipeRing :=
  ({ ring with readEndOpen := false } : PipeRing).drainWriteWaiters

end PipeRing

/-- `PipeRegistry` (`pipe.rs:502-507`). -/
structure PipeRegistry where
  pipes : ExtTreeMap Nat PipeRing
  nextId : Nat

namespace PipeRegistry

/-- `PipeRegistry::new` (`pipe.rs:524-529`). -/
def new : PipeRegistry := ⟨∅, 1⟩

/-- `create` (`pipe.rs:547-555`). -/
def create (r : PipeRegistry) : Nat × PipeRegistry :=
  (r.nextId, ⟨r.pipes.insert r.nextId .new, (r.nextId + 1) % 2 ^ 64⟩)

/-- `remove` (`pipe.rs:602-604`). -/
def remove (r : PipeRegistry) (id : Nat) : PipeRegistry := { r with pipes := r.pipes.erase id }

end PipeRegistry

end NexaCore.Files
