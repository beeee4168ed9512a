import NexaCore.Shell.Proofs.Quoting

/-!
# What a command substitution leaves behind

The inner commands of a `$(...)` run against the context of the surrounding shell.
`run_and_capture` puts the output and the working directory back, at every depth, but not the
variables and the other stream buffers.
-/

namespace NexaCore.Shell

variable {Files : Type} {host : Host Files}

/-- The working directory and the accumulated output are as before. -/
def Undisturbed (s s' : Session Files) : Prop :=
  s'.ctx.cwd = s.ctx.cwd ∧ s'.ctx.output = s.ctx.output

theorem Undisturbed.trans {s s' s'' : Session Files} (first : Undisturbed s s')
    (second : Undisturbed s' s'') : Undisturbed s s'' :=
  ⟨second.1.trans first.1, second.2.trans first.2⟩

theorem substituteTokensWith_undisturbed
    {capture : Text → Session Files → (Text × Int) × Session Files}
    (captures : ∀ inner s, Undisturbed s (capture inner s).2) (tokens : List Token)
    (s : Session Files) : Undisturbed s (substituteTokensWith capture tokens s).2 := by
  fun_induction substituteTokensWith capture tokens s with
  | case1 s => exact ⟨rfl, rfl⟩
  | case2 inner rest s r ctx ctx' others ih => exact (captures inner s).trans ih
  | case3 token rest s plain others ih => exact ih

theorem runAndCapture_undisturbed (levels : Nat) (inner : Text) (s : Session Files) :
    Undisturbed s (runAndCapture host levels inner s).2 := by
  induction levels generalizing inner s with
  | zero => exact ⟨rfl, rfl⟩
  | succ levels ih =>
    unfold runAndCapture
    split
    · exact ⟨rfl, rfl⟩
    · rename_i tokens lexed
      have nested := substituteTokensWith_undisturbed ih tokens s
      dsimp only
      split
      · exact nested
      · exact ⟨nested.1, nested.2⟩

/-- A substitution leaves the working directory and the output as they were, for every list of
tokens and every inner command, at every depth. -/
theorem substitution_undisturbed (host : Host Files) (tokens : List Token) (s : Session Files) :
    Undisturbed s (substituteTokens host tokens s).2 ∧
      ∀ levels, Undisturbed s (substituteTokensWith (runAndCapture host levels) tokens s).2 :=
  ⟨substituteTokensWith_undisturbed (runAndCapture_undisturbed maxSubstDepth) tokens s,
    fun levels => substituteTokensWith_undisturbed (runAndCapture_undisturbed levels) tokens s⟩

/-- A context with something to lose. -/
def busySession : Session Unit :=
  ⟨⟨.new, 0, ['/'], (), [1], [2], [3]⟩, []⟩

/-- `$(HOME=x true)` assigns in the surrounding shell and drops its stream buffers. -/
theorem substitution_leaks :
    let before := busySession.ctx
    let after := (substituteTokens (listingHost []) [.commandSubst "HOME=x true".toList]
      busySession).2.ctx
    before.env.get "HOME".toList = some ['/'] ∧ after.env.get "HOME".toList = some ['x'] ∧
      after.stdin = [] ∧ after.stderr = [] := by
  decide +kernel

end NexaCore.Shell
