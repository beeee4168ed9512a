import NexaCore.Fs.Proofs.Calls

/-!
# Failed calls

A call that returns an error leaves the volume as it was, with one exception: a write for
which the volume has some free blocks but too few of them takes these blocks and returns
`NoSpace` without giving them back.
-/

namespace NexaCore.Fs.OnDiskVolume

open Misc

variable {computeTag : TagFunction} {v v' : OnDiskVolume}

/-- The call is a write that passes the checks before the allocation and for which the
volume has some, but too few free blocks. -/
def Interrupted (v : OnDiskVolume) : Call → Prop
  | .writeFile path offset data =>
      (∃ n inode, v.Admitted path offset data n inode) ∧ 0 < v.bitmap.freeCount ∧
        v.bitmap.freeCount < (Extent.ofWrite offset data).blockIdxs.length
  | _ => False

theorem Stored.run_of_interrupted {c : Call} (stored : v.Stored) (interrupted : v.Interrupted c) :
    ∃ v', c.run computeTag v = some (.error .noSpace, v') ∧ v'.bitmap.freeCount = 0 := by
  cases c with
  | writeFile path offset data =>
    obtain ⟨⟨n, inode, admitted⟩, some, few⟩ := interrupted
    rcases writeFile_cases computeTag stored path offset data with
      ⟨err, -, refused⟩ | ⟨empty, -⟩ | ⟨n', inode', -, ⟨newBlocks, b', enough, -⟩ | ⟨b', out, run⟩⟩
    · exact absurd admitted (refused n inode)
    · exact absurd empty admitted.nonempty
    · omega
    · exact ⟨{ v with bitmap := b' }, by rw [Call.run, run]; rfl, out.empty⟩
  | createFile | createDirectory | deleteFile | deleteDirectory => exact interrupted.elim

theorem Effect.eq_of_error {c : Call} {err : FsError}
    (effect : Effect computeTag v c (.error err) v')
    (calm : ¬v.Interrupted c) : v' = v := by
  cases effect with
  | refused => rfl
  | ranOut admitted out =>
    have empty : v.bitmap.freeCount = 0 := by
      by_contra some
      exact calm ⟨⟨_, _, admitted⟩, Nat.pos_of_ne_zero some, out.short⟩
    rw [out.same empty]

/-- On every volume reached by calls every call returns, and it leaves the volume unchanged
whenever it fails, exactly if it is not an interrupted write. -/
theorem failed_call_atomic_iff (computeTag : TagFunction) (totalBlocks : Nat) (calls : List Call)
    (v : OnDiskVolume) (reached : Reached computeTag totalBlocks calls v) (c : Call) :
    ((∃ r v', c.run computeTag v = some (r, v')) ∧
      ∀ err v', c.run computeTag v = some (.error err, v') → v' = v) ↔ ¬v.Interrupted c := by
  have stored := reached.inv.toStored
  constructor
  · rintro ⟨-, atomic⟩ interrupted
    obtain ⟨v', run, empty⟩ := stored.run_of_interrupted interrupted
    have same := atomic _ _ run
    have some : 0 < v.bitmap.freeCount := by
      cases c with
      | writeFile path offset data => exact interrupted.2.1
      | createFile | createDirectory | deleteFile | deleteDirectory => exact interrupted.elim
    rw [same] at empty
    omega
  · intro calm
    obtain ⟨r, v', run, -⟩ := stored.run_effect computeTag c
    exact ⟨⟨r, v', run⟩, fun err v'' failed => (stored.effect_of_run failed).eq_of_error calm⟩

theorem failed_call_atomic_iff_exists : ∃ v, Reached zeroTag 8 [.createFile "/a"] v ∧
    ∃ err v', (Call.createFile "/a").run zeroTag v = some (.error err, v') ∧ v' = v := by
  obtain ⟨v, reached, refused⟩ : ∃ v, Reached zeroTag 8 [.createFile "/a"] v ∧
      ((Call.createFile "/a").run zeroTag v).any fun p => p.1 = .error .fileAlreadyExists :=
    exists_reached (by decide +kernel)
  obtain ⟨⟨r, v'⟩, run, rfl⟩ := exists_of_any refused
  exact ⟨v, reached, _, v', run,
    ((failed_call_atomic_iff zeroTag 8 _ v reached (.createFile "/a")).mpr id).2 _ v' run⟩

/-- Two bytes across a block boundary on a volume with one free block. -/
theorem failed_write_keeps_block : ∃ v err v', Reached zeroTag 4 [.createFile "/a"] v ∧
    (Call.writeFile "/a" 4095 [1, 2]).run zeroTag v = some (.error err, v') ∧
    v.bitmap.freeCount = 1 ∧ v'.bitmap.freeCount = 0 := by
  obtain ⟨v, reached, before, counts⟩ : ∃ v, Reached zeroTag 4 [.createFile "/a"] v ∧
      v.bitmap.freeCount = 1 ∧ ((Call.writeFile "/a" 4095 [1, 2]).run zeroTag v).any fun p =>
        p.1 = .error .noSpace ∧ p.2.bitmap.freeCount = 0 :=
    exists_reached (by decide +kernel)
  obtain ⟨⟨r, v'⟩, run, rfl, after⟩ := exists_of_any counts
  exact ⟨v, _, v', reached, run, before, after⟩

end NexaCore.Fs.OnDiskVolume
