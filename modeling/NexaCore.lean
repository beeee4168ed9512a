import NexaCore.Kernel.Ipc.Proofs.Delivery
import NexaCore.Kernel.Ipc.Proofs.NoLostWakeup
import NexaCore.Kernel.Scheduling.Proofs.RunQueues
import NexaCore.Kernel.Scheduling.Proofs.Fairness
import NexaCore.Kernel.Scheduling.Proofs.Dispatch
import NexaCore.Kernel.Syscall.Proofs.Orphans
import NexaCore.Capability.Proofs.Attenuation
import NexaCore.Capability.Proofs.Enforcement
import NexaCore.Fs.Proofs.Failure
import NexaCore.Fs.Proofs.Fsck
import NexaCore.Fs.Proofs.ReadAfterWrite
import NexaCore.Fs.Proofs.RoundTrip
import NexaCore.Fs.Proofs.Untrusted
import NexaCore.Fs.V3.Proofs.Crash
import NexaCore.Fs.V3.Proofs.Merkle
import NexaCore.Kernel.Elf.Proofs.Image
import NexaCore.Kernel.Files.Proofs.PipeEnds
import NexaCore.Kernel.Heap.Proofs.Safety
import NexaCore.Net.Tcp.Proofs.Backlog
import NexaCore.Net.Tcp.Proofs.Congestion
import NexaCore.Net.Tcp.Proofs.Delivery
import NexaCore.Net.Tcp.Proofs.Reliability
import NexaCore.Net.Tcp.Proofs.Retransmission
import NexaCore.Net.Proofs.Connect
import NexaCore.Shell.Proofs.Words
import NexaCore.Init.Proofs.Processes
import NexaCore.Mesh.Proofs.Credits
import NexaCore.Mesh.Proofs.Lookup
import NexaCore.Runtime.Proofs.Bpe
import NexaCore.Tokenization.Proofs.Reversible
import NexaCore.Installer.Proofs.Updates
import NexaCore.Capability.Proofs.Revocation
import NexaCore.Display.Proofs.Focus
import NexaCore.Fs.Proofs.Damage
import NexaCore.Fs.Proofs.PathTree
import NexaCore.Kernel.Memory.Proofs.Ranges
import NexaCore.Kernel.Processes.Proofs.Reaping
import NexaCore.Net.Firewall.Proofs.Gates
import NexaCore.Net.Proofs.NextHop
import NexaCore.Script.Proofs.Equality
import NexaCore.Script.Proofs.Calendar
import NexaCore.Shell.Proofs.Substitution
