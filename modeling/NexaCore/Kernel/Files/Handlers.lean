import NexaCore.Kernel.Files.Descriptors
import NexaCore.Kernel.Files.Pipe
import NexaCore.Misc.Checked
import NexaCore.Misc.Run

/-!
# System calls on file descriptors

Embedding of the handlers of `nexacore-kernel/src/syscall_handlers.rs` that create pipes and
read, write, close and duplicate descriptors, with the parts of `console_input.rs` and
`vfs.rs` that they call. A handler returns its registers and the state after it.
-/

namespace NexaCore.Files

open Misc Std

/-! ## The console and the files -/

/-- `ConsoleInputBuffer` (`console_input.rs:42-45`); its capacity matters to `push_byte` only. -/
structure ConsoleInputBuffer where
  buffer : List UInt8
  deriving DecidableEq, Repr

/-- `read_bytes` in line-buffered mode (`console_input.rs:116-137`). -/
def ConsoleInputBuffer.readLine (input : ConsoleInputBuffer) (maxLen : Nat) :
    List UInt8 × ConsoleInputBuffer :=
  if maxLen = 0 ∨ input.buffer.isEmpty then ([], input)
  else
    let available := min input.buffer.length maxLen
    let toDrain := ((input.buffer.take available).findIdx? (· == 10)).elim available (· + 1)
    (input.buffer.take toDrain, ⟨input.buffer.drop toDrain⟩)

/-- `VfsError` (`vfs.rs:121`), the errors of the calls on open files. -/
inductive VfsError where
  | notFound
  | isADirectory
  deriving DecidableEq, Repr

/-- `FileType` (`vfs.rs:46`). -/
inductive FileType where
  | regularFile
  | directory
  deriving DecidableEq, Repr

/-- The type and the contents of an `Inode` (`vfs.rs:145`). -/
structure Inode where
  fileType : FileType
  data : List UInt8
  deriving DecidableEq, Repr

/-- `InMemoryVfs` (`vfs.rs:197`), its inodes. -/
structure InMemoryVfs where
  inodes : ExtTreeMap Nat Inode

namespace InMemoryVfs

/-- The inode of a file, which is not a directory. -/
def file (vfs : InMemoryVfs) (inodeId : Nat) : Except VfsError Inode :=
  match vfs.inodes[inodeId]? with
  | none => .error .notFound
  | some inode => if inode.fileType = .directory then .error .isADirectory else .ok inode

/-- `read_file` (`vfs.rs:705-731`). -/
def readFile (vfs : InMemoryVfs) (inodeId offset len : Nat) : Except VfsError (List UInt8) := do
  let inode ← vfs.file inodeId
  if offset ≥ inode.data.length ∨ len = 0 then return []
  else return (inode.data.drop offset).take len

/-- The contents of a file after a write (`vfs.rs:778-790`). A `Vec` cannot grow beyond
`isize::MAX` bytes. -/
def overwritten (contents : List UInt8) (offset : Nat) (data : List UInt8) : Checked (List UInt8) :=
  let stop := offset + data.length
  if stop ≤ contents.length then some (contents.take offset ++ data ++ contents.drop stop)
  else if stop < 2 ^ 63 then
    some ((contents ++ List.replicate (stop - contents.length) 0).take offset ++ data)
  else none

/-- `write_file` (`vfs.rs:755-792`). -/
def writeFile (vfs : InMemoryVfs) (inodeId offset : Nat) (data : List UInt8) :
    Checked (Except VfsError (Nat × InMemoryVfs)) :=
  match vfs.file inodeId with
  | .error e => some (.error e)
  | .ok inode =>
      if data.isEmpty then some (.ok (0, vfs))
      else
        (overwritten inode.data offset data).map fun contents =>
          .ok (data.length, ⟨vfs.inodes.insert inodeId { inode with data := contents }⟩)

/-- `file_size` (`vfs.rs:810-816`). -/
def fileSize (vfs : InMemoryVfs) (inodeId : Nat) : Except VfsError Nat := do
  return (← vfs.file inodeId).data.length

end InMemoryVfs

/-! ## The handlers -/

/-- `MAX_READ_LEN` (`syscall_handlers.rs:58`). -/
def maxReadLen : Nat := 2 ^ 20

/-- `SyscallReturn` (`syscall.rs:557`). -/
structure SyscallReturn where
  rax : Nat
  rdx : Nat
  deriving DecidableEq, Repr

/-- `SyscallReturn::ok` and `SyscallReturn::err`. -/
def SyscallReturn.ok (rax : Nat) : SyscallReturn := ⟨rax, 0⟩

def SyscallReturn.err (errno : Nat) : SyscallReturn := ⟨0, errno⟩

/-- The error numbers (`syscall.rs:604-634`). -/
def enoent : Nat := 2

def eio : Nat := 5

def ebadf : Nat := 9

def enospc : Nat := 28

def epipe : Nat := 32

def enosys : Nat := 38

/-- `KernelState` (`syscall_handlers.rs:83-96`), without the process table and the current
task, which these handlers do not use. -/
structure KernelState where
  fdTable : FileDescriptorTable
  pipeRegistry : PipeRegistry
  consoleInput : ConsoleInputBuffer
  vfs : InMemoryVfs

namespace KernelState

/-- `new_for_test` (`syscall_handlers.rs:120-132`): the root directory has the inode 1. -/
def newForTest : KernelState where
  fdTable := .newWithStdio
  pipeRegistry := .new
  consoleInput := ⟨[]⟩
  vfs := ⟨(∅ : ExtTreeMap Nat Inode).insert 1 ⟨.directory, []⟩⟩

/-- `handle_pipe_create` (`syscall_handlers.rs:206-237`). -/
def handlePipeCreate (s : KernelState) : SyscallReturn × KernelState :=
  let (pipeId, registry) := s.pipeRegistry.create
  match s.fdTable.open ⟨.pipe pipeId true, .default⟩ with
  | .error _ => (.err enospc, { s with pipeRegistry := registry.remove pipeId })
  | .ok (rfd, withRead) =>
      match withRead.open ⟨.pipe pipeId false, .default⟩ with
      | .error _ =>
          (.err enospc,
            { s with
              fdTable := (withRead.close rfd).toOption.getD withRead
              pipeRegistry := registry.remove pipeId })
      | .ok (wfd, withBoth) =>
          (⟨rfd, wfd⟩, { s with fdTable := withBoth, pipeRegistry := registry })

/-- `handle_fd_read` (`syscall_handlers.rs:271-336`). -/
def handleFdRead (s : KernelState) (fd maxLen : Nat) : (SyscallReturn × List UInt8) × KernelState :=
  let max := min maxLen maxReadLen
  match s.fdTable.get fd with
  | none => ((.err ebadf, []), s)
  | some desc =>
      match desc.kind with
      | .console readable _ =>
          if !readable then ((.err ebadf, []), s)
          else
            let (bytes, input) := s.consoleInput.readLine max
            ((.ok bytes.length, bytes), { s with consoleInput := input })
      | .pipe pipeId isReadEnd =>
          if !isReadEnd then ((.err ebadf, []), s)
          else
            match s.pipeRegistry.pipes[pipeId]? with
            | none => ((.err ebadf, []), s)
            | some ring =>
                let (bytes, ring) := ring.read max
                ((.ok bytes.length, bytes),
                  { s with pipeRegistry := { s.pipeRegistry with
                      pipes := s.pipeRegistry.pipes.insert pipeId ring } })
      | .fsFile inode offset flags =>
          match s.vfs.readFile inode offset max with
          | .ok bytes =>
              ((.ok bytes.length, bytes),
                { s with fdTable := { s.fdTable with
                    entries := s.fdTable.entries.insert fd
                      { desc with
                        kind := .fsFile inode (min (offset + bytes.length) u64Max) flags } } })
          | .error .notFound => ((.err enoent, []), s)
          | .error _ => ((.err eio, []), s)
      | .ipcChannel _ => ((.err enosys, []), s)

/-- `handle_fd_write` (`syscall_handlers.rs:369-437`). -/
def handleFdWrite (s : KernelState) (fd : Nat) (data : List UInt8) :
    Checked (SyscallReturn × KernelState) :=
  match s.fdTable.get fd with
  | none => some (.err ebadf, s)
  | some desc =>
      match desc.kind with
      | .console _ writable =>
          if !writable then some (.err ebadf, s) else some (.ok data.length, s)
      | .pipe pipeId isReadEnd =>
          if isReadEnd then some (.err ebadf, s)
          else
            match s.pipeRegistry.pipes[pipeId]? with
            | none => some (.err ebadf, s)
            | some ring =>
                match ring.write data with
                | .ok (n, ring) =>
                    some (.ok n,
                      { s with pipeRegistry := { s.pipeRegistry with
                          pipes := s.pipeRegistry.pipes.insert pipeId ring } })
                | .error .brokenPipe => some (.err epipe, s)
      | .fsFile inode offset flags =>
          let writeOffset :=
            if flags.hasAppend then (s.vfs.fileSize inode).toOption.getD offset else offset
          (s.vfs.writeFile inode writeOffset data).map fun result =>
            match result with
            | .ok (n, vfs) =>
                (.ok n,
                  { s with
                    vfs
                    fdTable := { s.fdTable with
                      entries := s.fdTable.entries.insert fd
                        { desc with
                          kind := .fsFile inode (min (writeOffset + n) u64Max) flags } } })
            | .error .notFound => (.err enoent, s)
            | .error _ => (.err eio, s)
      | .ipcChannel _ => some (.err enosys, s)

/-- The registry after the end of a pipe was closed, where the pipe is registered
(`syscall_handlers.rs:475-486`, `544-559`). -/
def closedEnd (r : PipeRegistry) (pipeId : Nat) (isReadEnd : Bool) : PipeRegistry :=
  match r.pipes[pipeId]? with
  | none => r
  | some ring =>
      { r with
        pipes := r.pipes.insert pipeId
          (if isReadEnd then ring.closeRead.2 else ring.closeWrite.2) }

/-- The state after the pipe end of a descriptor, if it is one, was closed. -/
def closePipeEnd (s : KernelState) (kind : FdKind) : KernelState :=
  match kind with
  | .pipe pipeId isReadEnd =>
      { s with pipeRegistry := closedEnd s.pipeRegistry pipeId isReadEnd }
  | _ => s

/-- `handle_fd_close` (`syscall_handlers.rs:463-492`). -/
def handleFdClose (s : KernelState) (fd : Nat) : SyscallReturn × KernelState :=
  match s.fdTable.get fd with
  | none => (.err ebadf, s)
  | some desc =>
      let s := s.closePipeEnd desc.kind
      match s.fdTable.close fd with
      | .ok table => (.ok 0, { s with fdTable := table })
      | .error _ => (.err ebadf, s)

/-- `handle_fd_dup` (`syscall_handlers.rs:513-518`). -/
def handleFdDup (s : KernelState) (fd : Nat) : SyscallReturn × KernelState :=
  match s.fdTable.dup fd with
  | .error _ => (.err ebadf, s)
  | .ok (newFd, table) => (.ok newFd, { s with fdTable := table })

/-- The state after the pipe end at `newFd`, if there is one, was closed
(`syscall_handlers.rs:544-559`). -/
def closeTarget (s : KernelState) (newFd : Nat) : KernelState :=
  match s.fdTable.get newFd with
  | none => s
  | some existing => s.closePipeEnd existing.kind

/-- The duplication in the table (`syscall_handlers.rs:561-566`). -/
def duplicateOnto (s : KernelState) (oldFd newFd : Nat) : SyscallReturn × KernelState :=
  match s.fdTable.dup2 oldFd newFd with
  | .error _ => (.err ebadf, s)
  | .ok (resultFd, table) => (.ok resultFd, { s with fdTable := table })

/-- `handle_fd_dup2` (`syscall_handlers.rs:540-566`): the end at `newFd` is closed before
`oldFd` is looked at. -/
def handleFdDup2 (s : KernelState) (oldFd newFd : Nat) : SyscallReturn × KernelState :=
  (s.closeTarget newFd).duplicateOnto oldFd newFd

inductive Call where
  | pipeCreate
  | dup (fd : Nat)
  | dup2 (oldFd newFd : Nat)
  | close (fd : Nat)
  | read (fd maxLen : Nat)
  | write (fd : Nat) (data : List UInt8)
  deriving DecidableEq, Repr

/-- The registers and the state after a call. -/
def execute (s : KernelState) : Call → Checked (SyscallReturn × KernelState)
  | .pipeCreate => some s.handlePipeCreate
  | .dup fd => some (s.handleFdDup fd)
  | .dup2 oldFd newFd => some (s.handleFdDup2 oldFd newFd)
  | .close fd => some (s.handleFdClose fd)
  | .read fd maxLen => some ((s.handleFdRead fd maxLen).1.1, (s.handleFdRead fd maxLen).2)
  | .write fd data => s.handleFdWrite fd data

def next (s : KernelState) (call : Call) : Option KernelState := (s.execute call).map Prod.snd

def step : Lts KernelState Call := .ofPartial next

end KernelState

end NexaCore.Files
