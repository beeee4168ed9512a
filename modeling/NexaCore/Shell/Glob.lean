import Mathlib
import NexaCore.Shell.Lexer

/-!
# Glob expansion

`nexacore-shell/src/glob.rs`. A pattern with a metacharacter stands for the entries of one directory
that match it, or for itself when there are none.
-/

namespace NexaCore.Shell

open List

/-- `is_glob` (`glob.rs:228-230`). -/
def isGlob (s : Text) : Bool :=
  s.contains '*' || s.contains '?' || s.contains '['

/-- `char_in_class` (`glob.rs:479-498`). -/
def charInClass (ch : Char) : Text → Bool
  | low :: '-' :: high :: rest => (low ≤ ch && ch ≤ high) || charInClass ch rest
  | c :: rest => c == ch || charInClass ch rest
  | [] => false

/-- The body of a class up to its `]`, which is no body when it comes first. -/
def classBody (pat : Text) : Option Text :=
  match pat with
  | [] => none
  | first :: rest =>
    if ']' ∈ rest then some (first :: rest.takeWhile (· ≠ ']')) else none

/-- `match_bracket` behind the `[` (`glob.rs:423-466`): whether the class matches, and how many
characters of the pattern it takes. -/
def matchBracket (pat : Text) (ch : Char) : Bool × Nat :=
  let negated := pat.head? == some '!' || pat.head? == some '^'
  match classBody (if negated then pat.drop 1 else pat) with
  | none => (ch == '[', 1)
  | some body =>
    let inClass := charInClass ch body
    (if negated then !inClass else inClass, 1 + body.length + 1 + if negated then 1 else 0)

/-- A match in progress: what is left of the pattern and of the text, and where to go on after the
last `*`, with the pattern behind it and the text that it has not swallowed. -/
structure GlobState where
  pat : Text
  txt : Text
  star : Option (Text × Text)
  /-- What is left of the text is behind the `*`. -/
  fits : ∀ pat' txt', star = some (pat', txt') → txt.length ≤ txt'.length

namespace GlobState

/-- The text that is left to the matches to come, from the last `*` on. -/
def left (s : GlobState) : Nat :=
  match s.star with
  | none => s.txt.length + 1
  | some (_, txt) => txt.length

/-- A `*`, which swallows nothing at first. -/
def atStar (s : GlobState) (pat : Text) : GlobState :=
  ⟨pat, s.txt, some (pat, s.txt), by rintro _ _ ⟨⟩; exact Nat.le_refl _⟩

/-- A character of the text that matches. -/
def onward (s : GlobState) (pat : Text) : GlobState :=
  ⟨pat, s.txt.drop 1, s.star, fun pat' txt' same => by
    have fits := s.fits pat' txt' same
    rw [length_drop]
    omega⟩

/-- The last `*` swallows one more character. -/
def backtrack (s : GlobState) : Option GlobState :=
  match s.star with
  | none => none
  | some (pat, txt) => some ⟨pat, txt.drop 1, some (pat, txt.drop 1), by
      rintro _ _ ⟨⟩; exact Nat.le_refl _⟩

/-- One round of the loop of `glob_match_chars` (`glob.rs:324-393`), nothing when the text cannot
match. -/
def next (s : GlobState) (ch : Char) : Option GlobState :=
  match s.pat with
  | [] => s.backtrack
  | '*' :: pat => some (s.atStar pat)
  | '?' :: pat => if ch = '/' then s.backtrack else some (s.onward pat)
  | '[' :: pat =>
    let found := matchBracket pat ch
    if found.1 then some (s.onward (s.pat.drop found.2)) else s.backtrack
  | c :: pat => if ch = c then some (s.onward pat) else s.backtrack

variable {s : GlobState} {ch : Char} {rest pat : Text}

theorem left_onward (text : s.txt = ch :: rest) (shorter : pat.length < s.pat.length) :
    Prod.Lex (· < ·) (· < ·) ((s.onward pat).left, (s.onward pat).pat.length)
      (s.left, s.pat.length) := by
  obtain ⟨old, txt, star, fits⟩ := s
  cases star with
  | none =>
    left
    simp only at text
    simp [GlobState.left, onward, text]
  | some star =>
    right
    exact shorter

variable {s' : GlobState}

theorem left_backtrack (text : s.txt = ch :: rest) (h : s.backtrack = some s') :
    Prod.Lex (· < ·) (· < ·) (s'.left, s'.pat.length) (s.left, s.pat.length) := by
  unfold backtrack at h
  split at h
  · cases h
  · rename_i pat txt found
    cases h
    have fits := s.fits pat txt found
    rw [text, length_cons] at fits
    left
    simp only [left, found, length_drop]
    omega

theorem left_atStar (shorter : pat.length < s.pat.length) :
    Prod.Lex (· < ·) (· < ·) ((s.atStar pat).left, (s.atStar pat).pat.length)
      (s.left, s.pat.length) := by
  have first : (s.atStar pat).left ≤ s.left := by
    simp only [left, atStar]
    split
    · exact Nat.le_succ _
    · rename_i found
      exact s.fits _ _ found
  rcases Nat.lt_or_eq_of_le first with less | same
  · exact .left _ _ less
  · rw [same]
    exact .right _ shorter

/-- Each round leaves less of the text, or as much of it and less of the pattern. -/
theorem next_left (text : s.txt = ch :: rest) (h : s.next ch = some s') :
    Prod.Lex (· < ·) (· < ·) (s'.left, s'.pat.length) (s.left, s.pat.length) := by
  unfold next at h
  split at h
  · exact left_backtrack text h
  · rename_i pat same
    cases h
    exact left_atStar (by simp [same])
  · rename_i pat same
    split at h
    · exact left_backtrack text h
    · cases h
      exact left_onward text (by simp [same])
  · rename_i pat same
    dsimp only at h
    split at h
    · cases h
      refine left_onward text ?_
      have taken : 1 ≤ (matchBracket pat ch).2 := by
        unfold matchBracket
        dsimp only
        split <;> simp only <;> omega
      rw [length_drop, same, length_cons]
      omega
    · exact left_backtrack text h
  · rename_i c pat _ _ _ same
    split at h
    · cases h
      exact left_onward text (by simp [same])
    · exact left_backtrack text h

end GlobState

/-- `glob_match_chars` (`glob.rs:316-401`). -/
def globMatchChars (s : GlobState) : Bool :=
  match _ : s.txt with
  | [] => s.pat.all (· == '*')
  | ch :: _ =>
    match _ : s.next ch with
    | none => false
    | some s' => globMatchChars s'
termination_by (s.left, s.pat.length)
decreasing_by exact GlobState.next_left ‹_› ‹_›

/-- `glob_match` (`glob.rs:264-268`). -/
def globMatch (pattern name : Text) : Bool :=
  globMatchChars ⟨pattern, name, none, by rintro _ _ ⟨⟩⟩

/-- The part of a text up to its last `/`, and the part behind it. -/
def splitLastSlash (text : Text) : Option (Text × Text) :=
  if '/' ∈ text then
    some (((text.reverse.dropWhile (· ≠ '/')).drop 1).reverse,
      (text.reverse.takeWhile (· ≠ '/')).reverse)
  else none

/-- `split_pattern` (`glob.rs:281-296`). -/
def splitPattern (pattern cwd : Text) : Text × Text :=
  match splitLastSlash pattern with
  | none => (cwd, pattern)
  | some (dir, filePat) => (if dir = [] then ['/'] else dir, filePat)

/-- Whether a pattern selects an entry of its directory (`glob.rs:187-193`): hidden ones only when
the pattern starts with a dot. -/
def globSelects (filePat name : Text) : Bool :=
  if name.head? == some '.' && !(filePat.head? == some '.') then false else globMatch filePat name

/-- The path that an entry is reported by (`glob.rs:194-201`). -/
def globPath (pattern dir name : Text) : Text :=
  if '/' ∈ pattern then (dir.reverse.dropWhile (· == '/')).reverse ++ '/' :: name else name

/-- `list_dir`, with an error read as an empty directory (`glob.rs:182`). -/
def listedEntries (listDir : Text → Except Text (List Text)) (dir : Text) : List Text :=
  match listDir dir with
  | .ok entries => entries
  | .error _ => []

/-- `expand_glob` (`glob.rs:169-211`), for the entries that each directory lists. -/
def expandGlob (pattern cwd : Text) (listDir : Text → Except Text (List Text)) : List Text :=
  if !isGlob pattern then [pattern]
  else
    let place := splitPattern pattern cwd
    let found := ((listedEntries listDir place.1).filter (globSelects place.2)).map
      (globPath pattern place.1)
    if found = [] then [pattern] else found.mergeSort fun a b => decide (a ≤ b)

end NexaCore.Shell
