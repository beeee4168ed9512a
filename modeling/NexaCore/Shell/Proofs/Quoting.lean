import NexaCore.Shell.Proofs.Expansion
import NexaCore.Shell.Proofs.Lines

/-!
# Quoted and escaped text

The lexer says which texts were quoted, the parser forgets it, and the executor expands every word
of a command. So a quoted or escaped text reaches a built-in as it is exactly when it has no
reference and, as a pattern, selects nothing but itself.
-/

namespace NexaCore.Shell

open Misc List LexState ShellEnv Bool

/-- The entries of each directory are distinct. -/
def Host.Proper {Files : Type} (host : Host Files) : Prop :=
  ∀ files dir entries, host.listDir files dir = .ok entries → entries.Nodup

/-- In every session, whatever the variables and the directories are, the line calls the built-in
once, with two arguments: its name and the text. -/
def Delivers (builtin line s : Text) : Prop :=
  ∀ (Files : Type) (host : Host Files) (session : Session Files), host.Proper →
    (host.builtins builtin).isSome →
    (runLine host line session).calls = session.calls ++ [[builtin, s]]

/-- Expansion has nothing to do with the text: it has no reference, and if it is a pattern, it
selects no entry of any directory but the one whose path it is. -/
structure Inert (s : Text) : Prop where
  references : noReference s = true
  patterns : isGlob s = true → ∀ cwd name, globSelects (splitPattern s cwd).2 name = true →
    globPath s (splitPattern s cwd).1 name = s

/-! ## Expansion of an inert text -/

theorem globPath_injective (pattern dir : Text) : Function.Injective (globPath pattern dir) := by
  intro name name' same
  unfold globPath at same
  split at same
  · exact List.cons.inj (append_cancel_left same) |>.2
  · exact same

theorem map_eq_nil_or_singleton {f : Text → Text} (injective : Function.Injective f)
    {names : List Text} (distinct : names.Nodup) {s : Text} (all : ∀ name ∈ names, f name = s) :
    names.map f = [] ∨ names.map f = [s] := by
  cases names with
  | nil => exact .inl rfl
  | cons first rest =>
    right
    cases rest with
    | nil => rw [map_singleton, all first mem_cons_self]
    | cons second rest =>
      have same : first = second := injective (by rw [all first (by simp), all second (by simp)])
      simp [same] at distinct

theorem expandGlob_inert {s : Text} (inert : Inert s) (pattern : isGlob s = true) (cwd : Text)
    {listDir : Text → Except Text (List Text)}
    (proper : ∀ dir entries, listDir dir = .ok entries → entries.Nodup) :
    expandGlob s cwd listDir = [s] := by
  have distinct : (listedEntries listDir (splitPattern s cwd).1).Nodup := by
    unfold listedEntries
    split
    · rename_i listed
      exact proper _ _ listed
    · exact nodup_nil
  rcases map_eq_nil_or_singleton (globPath_injective s (splitPattern s cwd).1)
    (distinct.filter (globSelects (splitPattern s cwd).2))
    (fun name member => inert.patterns pattern cwd name (List.mem_filter.mp member).2) with
    none | one
  · simp [expandGlob, pattern, none]
  · simp [expandGlob, pattern, one]

theorem expandCommand_inert {Files : Type} {host : Host Files} (proper : host.Proper) {s : Text}
    (inert : Inert s) (ctx : ExecContext Files) : expandCommand host [s] ctx = [s] := by
  simp only [expandCommand, flatMap_cons, flatMap_nil, append_nil,
    expand_of_noReference ctx.env inert.references]
  split
  · rename_i pattern
    exact expandGlob_inert inert pattern ctx.cwd fun dir entries => proper ctx.files dir entries
  · rfl

theorem noReference_of_plain {text : Text} (plain : ∀ c ∈ text, isPlain c = true) :
    noReference text = true := by
  induction text with
  | nil => rfl
  | cons c rest ih =>
    have other : c ≠ '$' := by
      rintro rfl
      exact absurd (plain '$' mem_cons_self) (by decide)
    simp only [noReference, beq_eq_false_iff_ne.mpr other, Bool.false_and, Bool.not_false,
      Bool.true_and]
    exact ih fun d member => plain d (mem_cons_of_mem c member)

theorem expandCommand_name {Files : Type} (host : Host Files) {name : Text} (named : PlainName name)
    (texts : List Text) (ctx : ExecContext Files) :
    expandCommand host (name :: texts) ctx = name :: expandCommand host texts ctx := by
  simp only [expandCommand, flatMap_cons,
    expand_of_noReference ctx.env (noReference_of_plain named.plain), named.noPattern,
    false_eq_true, if_false]
  rfl

/-! ## Lines with one text -/

/-- A host over no files whose directories all list the same entries. -/
def listingHost (entries : List Text) : Host Unit where
  listDir _ _ := .ok entries
  readFile _ _ := .error []
  writeFile files _ _ := (files, .error [])
  appendFile files _ _ := (files, .error [])
  builtins _ := some fun _ ctx => (ctx, 0)
  fromUtf8Lossy _ := []
  asBytes _ := []

def freshSession (env : ShellEnv) (cwd : Text) : Session Unit :=
  ⟨⟨env, 0, cwd, (), [], [], []⟩, []⟩

theorem proper_listingHost {entries : List Text} (distinct : entries.Nodup) :
    (listingHost entries).Proper := by
  intro files dir listed same
  cases same
  exact distinct

section

variable {builtin line s : Text} {token : Token}

theorem expandCommand_of_delivers (named : PlainName builtin)
    (tokenized : tokenize line = .ok [.word builtin, token]) (text : token.wordText = some s)
    (delivers : Delivers builtin line s) {entries : List Text} (distinct : entries.Nodup)
    (env : ShellEnv) (cwd : Text) :
    expandCommand (listingHost entries) [s] (freshSession env cwd).ctx = [s] := by
  have calls : (runLine (listingHost entries) line (freshSession env cwd)).calls = _ :=
    runLine_words named tokenized (.cons text .nil) (expandCommand_name _ named [s] _) rfl
  rw [delivers Unit (listingHost entries) _ (proper_listingHost distinct) rfl] at calls
  simpa using calls.symm

/-- A text that is the only word behind the name is delivered exactly when it is inert. -/
theorem delivers_iff (named : PlainName builtin)
    (tokenized : tokenize line = .ok [.word builtin, token]) (text : token.wordText = some s) :
    Delivers builtin line s ↔ Inert s := by
  constructor
  · intro delivers
    have references : noReference s = true := by
      by_contra other
      have shorter := (expand_bare_length s).2 (by simpa using other)
      have same := expandCommand_of_delivers named tokenized text delivers nodup_nil
        bare []
      have single : expandCommand (listingHost []) [s] (freshSession bare []).ctx =
          [bare.expand s] := by
        simp only [expandCommand, freshSession, listingHost, flatMap_cons, flatMap_nil,
          append_nil, expandGlob, listedEntries, filter_nil, map_nil, if_true]
        split <;> simp
      rw [single] at same
      rw [List.singleton_inj.mp same] at shorter
      omega
    refine ⟨references, fun pattern cwd name selected => ?_⟩
    have same := expandCommand_of_delivers named tokenized text delivers (nodup_singleton name)
      bare cwd
    simp only [expandCommand, freshSession, listingHost, flatMap_cons, flatMap_nil,
      append_nil, expand_of_noReference _ references, pattern, if_true, expandGlob,
      listedEntries, Bool.not_true, Bool.false_eq_true, if_false, filter_cons, selected,
      filter_nil, map_singleton] at same
    simpa using same
  · intro inert Files host session proper known
    refine runLine_words named tokenized (.cons text .nil) ?_ known
    rw [expandCommand_name host named, expandCommand_inert proper inert]

end

/-! ## Single quotes and backslashes -/

/-- A text in single quotes. -/
def quoted (s : Text) : Text :=
  '\x27' :: (s ++ ['\x27'])

theorem tokenize_quoted {builtin s : Text} (named : PlainName builtin) (free : '\x27' ∉ s) :
    tokenize (commandLine builtin (quoted s)) = .ok [.word builtin, .singleQuoted s] := by
  have inside : ∀ c ∈ s, decide (c ≠ '\x27') = true := by
    intro c member
    rw [decide_eq_true_iff]
    rintro rfl
    exact free member
  have lexed : Lexes ⟨quoted s, [], [.word builtin]⟩
      ⟨[], [], [.word builtin, .singleQuoted s]⟩ := by
    refine lexes_of_lexOne ?_
    change lexSingleQuote _ = _
    simp only [lexSingleQuote, drop_succ_cons, drop_zero,
      takeWhile_append_of_pos inside, dropWhile_append_of_pos inside]
    simp [flushWord, pushToken]
  have ends : lexer.loop ⟨[], [], [.word builtin, .singleQuoted s]⟩ =
      .ok ⟨[], [], [.word builtin, .singleQuoted s]⟩ := Consumer.loop_done rfl
  exact tokenize_commandLine named (Eq.trans lexed ends)

/-- A word of plain characters and characters with a backslash before them. -/
inductive EscapedChar where
  | plain (c : Char) (ordinary : isPlain c = true ∧ isGlob [c] = false)
  | escaped (c : Char)

namespace EscapedChar

def char : EscapedChar → Char
  | plain c _ => c
  | escaped c => c

def source : EscapedChar → Text
  | plain c _ => [c]
  | escaped c => ['\x5c', c]

end EscapedChar

theorem lexes_escaped (word : List EscapedChar) (wordBuf : Text) (tokens : List Token) :
    Lexes ⟨word.flatMap EscapedChar.source, wordBuf, tokens⟩
      ⟨[], wordBuf ++ word.map EscapedChar.char, tokens⟩ := by
  induction word generalizing wordBuf with
  | nil => rw [map_nil, append_nil]; rfl
  | cons first rest ih =>
    have later := ih (wordBuf ++ [first.char])
    rw [append_assoc] at later
    refine Lexes.trans ?_ later
    cases first with
    | plain c ordinary =>
      refine lexes_of_lexOne (lexOne_plain ordinary.1 ?_)
      cases rest with
      | nil => simp [peekNext]
      | cons second rest =>
        cases second with
        | plain d ordinary =>
          have other : d ≠ '>' := by
            rintro rfl
            exact absurd ordinary.1 (by decide)
          simpa [peekNext, EscapedChar.source] using other
        | escaped d => simp [peekNext, EscapedChar.source]
    | escaped c => exact lexes_of_lexOne rfl

theorem tokenize_escaped {builtin : Text} (named : PlainName builtin) {word : List EscapedChar}
    (nonempty : word ≠ []) :
    tokenize (commandLine builtin (word.flatMap EscapedChar.source)) =
      .ok [.word builtin, .word (word.map EscapedChar.char)] := by
  have lexed := lexes_escaped word [] [.word builtin]
  have ends : lexer.loop ⟨[], [] ++ word.map EscapedChar.char, [.word builtin]⟩ =
      .ok ⟨[], [] ++ word.map EscapedChar.char, [.word builtin]⟩ := Consumer.loop_done rfl
  rw [tokenize_commandLine named (Eq.trans lexed ends)]
  simp [flushWord, nonempty]

/-- A single-quoted text, and a word with escaped characters, reach the built-in as they are exactly
when they are inert. -/
theorem quoting_protects_iff (builtin : Text) (known : builtin ∈ builtinNames) :
    (∀ s : Text, '\x27' ∉ s →
      (Delivers builtin (commandLine builtin (quoted s)) s ↔ Inert s)) ∧
    ∀ word : List EscapedChar, word ≠ [] →
      (Delivers builtin (commandLine builtin (word.flatMap EscapedChar.source))
        (word.map EscapedChar.char) ↔ Inert (word.map EscapedChar.char)) := by
  have named := plainName_of_mem known
  refine ⟨fun s free => ?_, fun word nonempty => ?_⟩
  · exact delivers_iff named (tokenize_quoted named free) rfl
  · exact delivers_iff named (tokenize_escaped named nonempty) rfl

theorem quoting_protects_blank :
    Delivers "echo".toList (commandLine "echo".toList (quoted "a b".toList)) "a b".toList :=
  ((quoting_protects_iff "echo".toList (by decide +kernel)).1 "a b".toList (by decide +kernel)).mpr
    ⟨by decide +kernel, fun pattern => absurd pattern (by decide +kernel)⟩

/-- `echo '$HOME'` and `echo \$HOME` print the value of `HOME`. -/
theorem quoting_not_protects :
    (runLine (listingHost []) "echo \x27$HOME\x27".toList (freshSession .new [])).calls =
        [["echo".toList, "/".toList]] ∧
      (runLine (listingHost []) "echo \\$HOME".toList (freshSession .new [])).calls =
        [["echo".toList, "/".toList]] := by
  constructor <;> decide +kernel

end NexaCore.Shell
