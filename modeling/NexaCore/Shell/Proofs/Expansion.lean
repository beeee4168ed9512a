import NexaCore.Shell.Executor

/-!
# What expansion makes of a text

`expand` walks over a text from left to right, so it has an equation for each way in which a text
can start. A text without references is its own expansion; without variables every reference makes
the text shorter.
-/

namespace NexaCore.Shell

open Misc List Consumer ShellEnv Nat Bool Option

namespace ShellEnv

variable (env : ShellEnv)

theorem expander_loop (rest out : Text) :
    env.expander.loop ⟨rest, out⟩ = .ok ⟨[], out ++ env.expand rest⟩ := by
  have ends : ∀ n (rest : Text), rest.length ≤ n →
      ∃ text, ∀ out, env.expander.loop ⟨rest, out⟩ = .ok ⟨[], out ++ text⟩ := by
    intro n
    induction n with
    | zero =>
      intro rest short
      have empty : rest = [] := List.length_eq_zero_iff.mp (le_zero.mp short)
      subst empty
      exact ⟨[], fun out => by rw [append_nil]; exact loop_done rfl⟩
    | succ n ih =>
      intro rest short
      cases rest with
      | nil => exact ⟨[], fun out => by rw [append_nil]; exact loop_done rfl⟩
      | cons c rest =>
        have going : ∀ out, env.expander.left ⟨c :: rest, out⟩ ≠ 0 := fun _ => succ_ne_zero _
        rw [length_cons] at short
        by_cases dollar : c ≠ '$'
        · obtain ⟨text, runs⟩ := ih rest (by omega)
          refine ⟨c :: text, fun out => ?_⟩
          have stepped : env.expander.step ⟨c :: rest, out⟩ = .ok ⟨rest, out ++ [c]⟩ := by
            simp only [expander, expandStep, if_pos dollar]
          rw [loop_next (going out) stepped, runs, append_assoc]
          rfl
        · have shorter := env.reference_shorter rest
          obtain ⟨text, runs⟩ := ih (env.reference rest).2 (by omega)
          refine ⟨(env.reference rest).1 ++ text, fun out => ?_⟩
          have stepped : env.expander.step ⟨c :: rest, out⟩ =
              .ok ⟨(env.reference rest).2, out ++ (env.reference rest).1⟩ := by
            simp only [expander, expandStep, if_neg dollar]
          rw [loop_next (going out) stepped, runs, append_assoc]
  obtain ⟨text, runs⟩ := ends rest.length rest (le_refl _)
  rw [runs, expand, runs]
  rfl

theorem expand_eq_of_loop {rest text : Text} (h : env.expander.loop ⟨rest, []⟩ = .ok ⟨[], text⟩) :
    env.expand rest = text := by
  rw [expand, h]

@[simp] theorem expand_nil : env.expand [] = [] :=
  env.expand_eq_of_loop (loop_done rfl)

theorem expand_cons {c : Char} (plain : c ≠ '$') (rest : Text) :
    env.expand (c :: rest) = c :: env.expand rest := by
  have stepped : env.expander.step ⟨c :: rest, []⟩ = .ok ⟨rest, [c]⟩ := by
    simp only [expander, expandStep, if_pos plain, nil_append]
  have going : env.expander.left ⟨c :: rest, []⟩ ≠ 0 := succ_ne_zero _
  refine env.expand_eq_of_loop ?_
  rw [loop_next going stepped, expander_loop]
  rfl

theorem expand_dollar (rest : Text) :
    env.expand ('$' :: rest) = (env.reference rest).1 ++ env.expand (env.reference rest).2 := by
  have stepped : env.expander.step ⟨'$' :: rest, []⟩ =
      .ok ⟨(env.reference rest).2, (env.reference rest).1⟩ := by
    simp only [expander, expandStep, ne_eq, not_true_eq_false, if_false, nil_append]
  have going : env.expander.left ⟨'$' :: rest, []⟩ ≠ 0 := succ_ne_zero _
  refine env.expand_eq_of_loop ?_
  rw [loop_next going stepped, expander_loop]

end ShellEnv

/-! ## Texts without references -/

/-- The characters that make a reference of the `$` before them. -/
def startsReference (c : Char) : Bool :=
  c == '$' || c == '?' || c == '{' || isIdentFirst c

/-- No `$` of a text stands before a character that makes a reference of it. -/
def noReference : Text → Bool
  | [] => true
  | c :: rest => !(c == '$' && rest.head?.any startsReference) && noReference rest

theorem reference_of_not_starts (env : ShellEnv) {rest : Text}
    (h : rest.head?.any startsReference = false) : env.reference rest = (['$'], rest) := by
  cases rest with
  | nil => rfl
  | cons c rest =>
    simp only [List.head?_cons, any_some, startsReference, or_eq_false_iff,
      beq_eq_false_iff_ne] at h
    obtain ⟨⟨⟨dollar, question⟩, brace⟩, ident⟩ := h
    simp only [reference, if_neg dollar, if_neg question, if_neg brace, ident, if_false,
      false_eq_true]

theorem expand_of_noReference (env : ShellEnv) {s : Text} (h : noReference s = true) :
    env.expand s = s := by
  induction s with
  | nil => exact env.expand_nil
  | cons c rest ih =>
    simp only [noReference, and_eq_true, not_eq_true'] at h
    obtain ⟨here, later⟩ := h
    by_cases dollar : c = '$'
    · subst dollar
      have literal : rest.head?.any startsReference = false := by simpa using here
      rw [env.expand_dollar, reference_of_not_starts env literal, ih later]
      rfl
    · rw [env.expand_cons dollar, ih later]

/-! ## Without variables -/

def ShellEnv.bare : ShellEnv :=
  ⟨fun _ => none, 0⟩

theorem splitDefault_length {spec name value : Text} (h : splitDefault spec = some (name, value)) :
    value.length ≤ spec.length := by
  induction spec generalizing name value with
  | nil => cases h
  | cons c rest ih =>
    unfold splitDefault at h
    split at h
    · cases h
      simp only [length_cons]
      omega
    · obtain ⟨parts, found, same⟩ := map_eq_some_iff.mp h
      cases same
      exact le_succ_of_le (ih found)

theorem expandSpec_bare_length (spec : Text) : (bare.expandSpec spec).length ≤ spec.length := by
  unfold expandSpec
  split
  · exact zero_le _
  · rename_i name value found
    exact splitDefault_length found

theorem reference_bare_length (rest : Text) :
    let r := ShellEnv.bare.reference rest
    r.1.length + r.2.length ≤ rest.length + 1 ∧
      (rest.head?.any startsReference = true → r.1.length + r.2.length < rest.length + 1) := by
  cases rest with
  | nil => exact ⟨le_refl _, fun h => by cases h⟩
  | cons c rest =>
    simp only [ShellEnv.reference]
    split
    · simp only [length_nil, length_cons]
      omega
    split
    · have zero : (toString ShellEnv.bare.lastExitCode).toList.length = 1 := by decide +kernel
      simp only [zero, length_cons]
      omega
    split
    · have spec := expandSpec_bare_length (rest.takeWhile (· ≠ '}'))
      have parts : (rest.takeWhile (· ≠ '}')).length + (rest.dropWhile (· ≠ '}')).length =
          rest.length := by
        rw [← length_append, takeWhile_append_dropWhile]
      simp only [length_drop, length_cons]
      omega
    split
    · have suffix := (dropWhile_sublist (l := c :: rest) isIdentChar).length_le
      simp only [ShellEnv.get, ShellEnv.bare, getD_none, length_nil] at suffix ⊢
      omega
    · rename_i dollar question brace ident
      refine ⟨le_of_eq (add_comm _ _), fun h => ?_⟩
      simp [startsReference, dollar, question, brace, ident] at h

theorem expand_bare_length (s : Text) : (bare.expand s).length ≤ s.length ∧
    (noReference s = false → (bare.expand s).length < s.length) := by
  induction length : s.length using Nat.strong_induction_on generalizing s with
  | _ n ih =>
    subst length
    cases s with
    | nil => exact ⟨le_refl _, fun h => by cases h⟩
    | cons c rest =>
      by_cases dollar : c = '$'
      · subst dollar
        obtain ⟨most, less⟩ := reference_bare_length rest
        have shorter := bare.reference_shorter rest
        obtain ⟨later, strict⟩ := ih (bare.reference rest).2.length
          (by rw [length_cons]; omega) _ rfl
        rw [expand_dollar, length_append, length_cons]
        refine ⟨by omega, fun h => ?_⟩
        simp only [noReference, and_eq_false_iff] at h
        by_cases starts : rest.head?.any startsReference = true
        · have := less starts
          omega
        · have literal : rest.head?.any startsReference = false := by simpa using starts
          have same := reference_of_not_starts bare literal
          rw [same] at strict ⊢
          rcases h with here | here
          · simp [literal] at here
          · have := strict here
            simp only [length_singleton] at this ⊢
            omega
      · obtain ⟨later, strict⟩ := ih rest.length (lt_succ_self _) rest rfl
        rw [expand_cons _ dollar, length_cons, length_cons]
        refine ⟨by omega, fun h => ?_⟩
        have here : noReference rest = false := by simpa [noReference, dollar] using h
        have := strict here
        omega

end NexaCore.Shell
