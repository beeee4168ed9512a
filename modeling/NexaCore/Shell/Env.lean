import NexaCore.Shell.Lexer

/-!
# Variables and their expansion

The part of `nexacore-shell/src/env.rs` that a command line reads: the variables, the last exit code
and `ShellEnv::expand`. Which variables are exported and the aliases are left out.
-/

namespace NexaCore.Shell

open Misc List Nat

/-- `ShellEnv` (`env.rs:58-67`). -/
structure ShellEnv where
  vars : Text → Option Text
  lastExitCode : Int

namespace ShellEnv

def get (env : ShellEnv) (name : Text) : Option Text :=
  env.vars name

/-- `ShellEnv::set` (`env.rs:153-155`). -/
def set (env : ShellEnv) (name value : Text) : ShellEnv :=
  { env with vars := fun other => if other = name then some value else env.vars other }

/-- `ShellEnv::new` (`env.rs:94-113`). -/
def new : ShellEnv :=
  let empty : ShellEnv := ⟨fun _ => none, 0⟩
  (((empty.set "HOME".toList "/".toList).set "PATH".toList "/bin".toList).set "USER".toList
    "root".toList).set "PWD".toList "/".toList

end ShellEnv

/-- `is_ident_first` (`env.rs:496-498`). -/
def isIdentFirst (c : Char) : Bool :=
  c.isAlpha || c == '_'

/-- The parts of a specifier before and behind its first `:-`. -/
def splitDefault : Text → Option (Text × Text)
  | [] => none
  | c :: rest =>
    match c, rest with
    | ':', '-' :: value => some ([], value)
    | c, rest => (splitDefault rest).map fun parts => (c :: parts.1, parts.2)

/-- `expand_spec` (`env.rs:462-478`). -/
def ShellEnv.expandSpec (env : ShellEnv) (spec : Text) : Text :=
  match splitDefault spec with
  | none => (env.get spec).getD []
  | some (name, value) =>
    match env.get name with
    | some v => if v ≠ [] then v else value
    | none => value

/-- The loop of `expand`: what is left, and the text so far. -/
structure ExpandState where
  rest : Text
  out : Text

/-- What stands for a reference, from the character behind its `$` on, and what follows it
(`env.rs:400-449`). -/
def ShellEnv.reference (env : ShellEnv) : Text → Text × Text
  | [] => (['$'], [])
  | c :: rest =>
    if c = '$' then (['1'], rest)
    else if c = '?' then ((toString env.lastExitCode).toList, rest)
    else if c = '{' then
      (env.expandSpec (rest.takeWhile (· ≠ '}')), (rest.dropWhile (· ≠ '}')).drop 1)
    else if isIdentFirst c then
      ((env.get ((c :: rest).takeWhile isIdentChar)).getD [], (c :: rest).dropWhile isIdentChar)
    else (['$'], c :: rest)

/-- One round of the loop of `expand` (`env.rs:390-450`). -/
def ShellEnv.expandStep (env : ShellEnv) (s : ExpandState) : Except Empty ExpandState :=
  match s.rest with
  | [] => .ok s
  | ch :: rest =>
    if ch ≠ '$' then .ok ⟨rest, s.out ++ [ch]⟩
    else .ok ⟨(env.reference rest).2, s.out ++ (env.reference rest).1⟩

theorem ShellEnv.reference_shorter (env : ShellEnv) (rest : Text) :
    (env.reference rest).2.length ≤ rest.length := by
  unfold ShellEnv.reference
  split
  · exact le_rfl
  · rename_i c rest
    split
    · exact le_succ _
    split
    · exact le_succ _
    split
    · have suffix := (dropWhile_sublist (l := rest) (· ≠ '}')).length_le
      simp only [length_drop, length_cons]
      omega
    split
    · exact (dropWhile_sublist _).length_le
    · exact le_rfl

/-- The loop of `expand`. -/
def ShellEnv.expander (env : ShellEnv) : Consumer ExpandState Empty where
  left s := s.rest.length
  step := env.expandStep
  consumes := by
    intro s s' going stepped
    unfold ShellEnv.expandStep at stepped
    split at stepped
    · rename_i empty
      rw [empty] at going
      exact absurd rfl going
    · rename_i ch rest text
      rw [text, length_cons]
      split at stepped
      · cases stepped
        exact lt_succ_self _
      · cases stepped
        exact lt_succ_of_le (env.reference_shorter rest)

/-- `ShellEnv::expand` (`env.rs:385-453`). -/
def ShellEnv.expand (env : ShellEnv) (input : Text) : Text :=
  match env.expander.loop ⟨input, []⟩ with
  | .ok s => s.out

end NexaCore.Shell
