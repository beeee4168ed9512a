import NexaCore.Shell.Lexer

/-!
# The shell parser

`nexacore-shell/src/parser.rs`: a command list of pipelines of simple commands. The parser keeps
what is left of the tokens.
-/

namespace NexaCore.Shell

open Misc Nat List

/-- `RedirectKind` (`parser.rs:35-44`). -/
inductive RedirectKind where
  | input | out | append | err
  deriving DecidableEq, Repr

/-- `Redirect` (`parser.rs:48-53`). -/
structure Redirect where
  kind : RedirectKind
  target : Text
  deriving DecidableEq, Repr

/-- `SimpleCommand` (`parser.rs:74-86`). -/
structure SimpleCommand where
  argv : List Text
  redirects : List Redirect
  envOverrides : List (Text × Text)
  deriving DecidableEq, Repr

/-- `Connector` (`parser.rs:110-120`). -/
inductive Connector where
  | semi | and | or | background
  deriving DecidableEq, Repr

/-- `Pipeline` (`parser.rs:101-106`). -/
abbrev Pipeline := List SimpleCommand

/-- `CommandList` (`parser.rs:140-146`). -/
abbrev CommandList := List (Pipeline × Option Connector)

/-- The errors of `ParseError` that the parser returns (`parser.rs:155-167`). -/
inductive ParseError where
  | missingCommand
  | emptyPipeline
  | invalidRedirect
  deriving DecidableEq, Repr

/-- `split_env_override` (`parser.rs:574-595`). -/
def splitEnvOverride (s : Text) : Option (Text × Text) :=
  match s.dropWhile (· ≠ '=') with
  | [] => none
  | _ :: value =>
    match s.takeWhile (· ≠ '=') with
    | [] => none
    | first :: others =>
      if !(first.isAlpha || first == '_') then none
      else if !others.all isIdentChar then none
      else some (first :: others, value)

/-- The text that `consume_envvar_token` makes of a specifier (`parser.rs:530-547`). -/
def envVarText (spec : Text) : Text :=
  if ':' ∈ spec ∨ spec = ['?'] ∨ spec = ['$'] then '$' :: '{' :: spec ++ ['}'] else '$' :: spec

/-- The text of a word-class token: `consume_word_token` and `consume_envvar_token`
(`parser.rs:509-547`). -/
def Token.wordText : Token → Option Text
  | .word s | .singleQuoted s | .doubleQuoted s => some s
  | .envVar spec => some (envVarText spec)
  | _ => none

/-- `next_is_word_class` (`parser.rs:493-500`). -/
def nextIsWordClass (tokens : List Token) : Bool :=
  (tokens.head?.bind Token.wordText).isSome

/-- The leading `VAR=val` words of a simple command (`parser.rs:397-408`). -/
def collectOverrides : List Token → List (Text × Text) → List (Text × Text) × List Token
  | .word w :: rest, overrides =>
    match splitEnvOverride w with
    | some override =>
      if nextIsWordClass rest then collectOverrides rest (overrides ++ [override])
      else (overrides, .word w :: rest)
    | none => (overrides, .word w :: rest)
  | tokens, overrides => (overrides, tokens)

/-- The redirect that an operator starts. -/
def Token.redirectKind : Token → Option RedirectKind
  | .redirectOut => some .out
  | .redirectAppend => some .append
  | .redirectIn => some .input
  | .redirectErr => some .err
  | _ => none

/-- What is collected of a simple command, and the tokens behind it. -/
structure Collected where
  argv : List Text
  redirects : List Redirect
  rest : List Token

/-- The words and redirects of a simple command (`parser.rs:411-464`), with `expect_word_token`
(`parser.rs:552-560`). -/
def collectWords (argv : List Text) (redirects : List Redirect) :
    List Token → Except ParseError Collected
  | [] => .ok ⟨argv, redirects, []⟩
  | token :: rest =>
    match token.redirectKind with
    | some kind =>
      match rest with
      | [] => .error .invalidRedirect
      | target :: rest =>
        match target.wordText with
        | some target => collectWords argv (redirects ++ [⟨kind, target⟩]) rest
        | none => .error .invalidRedirect
    | none =>
      match token.wordText with
      | some word => collectWords (argv ++ [word]) redirects rest
      | none => .ok ⟨argv, redirects, token :: rest⟩

/-- `parse_simple_command` (`parser.rs:388-482`). -/
def parseSimpleCommand (tokens : List Token) : Except ParseError (SimpleCommand × List Token) :=
  let overrides := collectOverrides tokens []
  match collectWords [] [] overrides.2 with
  | .error e => .error e
  | .ok collected =>
    if collected.argv = [] then .error .missingCommand
    else .ok (⟨collected.argv, collected.redirects, overrides.1⟩, collected.rest)

theorem collectOverrides_shorter (tokens : List Token) (overrides : List (Text × Text)) :
    (collectOverrides tokens overrides).2.length ≤ tokens.length := by
  induction tokens generalizing overrides with
  | nil => exact le_refl _
  | cons token rest ih =>
    cases token with
    | word w =>
      simp only [collectOverrides]
      split
      · split
        · exact le_succ_of_le (ih _)
        · exact le_refl _
      · exact le_refl _
    | _ => exact le_refl _

theorem collectWords_shorter {argv : List Text} {redirects : List Redirect} {tokens : List Token}
    {collected : Collected} (h : collectWords argv redirects tokens = .ok collected) :
    collected.rest.length ≤ tokens.length ∧
      (collected.argv ≠ argv → collected.rest.length < tokens.length) := by
  induction argv, redirects, tokens using collectWords.induct with
  | case1 argv redirects =>
    cases h
    exact ⟨le_refl _, fun differ => absurd rfl differ⟩
  | case2 argv redirects token kind operator =>
    simp only [collectWords, operator] at h
    cases h
  | case3 argv redirects token kind operator target rest text found ih =>
    simp only [collectWords, operator, found] at h
    have shorter := (ih h).1
    simp only [length_cons]
    exact ⟨by omega, fun _ => by omega⟩
  | case4 argv redirects token kind operator target rest missing =>
    simp only [collectWords, operator, missing] at h
    cases h
  | case5 argv redirects token rest plain word found ih =>
    simp only [collectWords, plain, found] at h
    have shorter := (ih h).1
    simp only [length_cons]
    exact ⟨by omega, fun _ => by omega⟩
  | case6 argv redirects token rest plain other =>
    simp only [collectWords, plain, other] at h
    cases h
    exact ⟨le_refl _, fun differ => absurd rfl differ⟩

theorem parseSimpleCommand_shorter {tokens rest : List Token} {command : SimpleCommand}
    (h : parseSimpleCommand tokens = .ok (command, rest)) : rest.length < tokens.length := by
  have overrides := collectOverrides_shorter tokens []
  unfold parseSimpleCommand at h
  dsimp only at h
  cases found : collectWords [] [] (collectOverrides tokens []).2 with
  | error e => rw [found] at h; cases h
  | ok collected =>
    rw [found] at h
    dsimp only at h
    split at h
    · cases h
    · rename_i nonempty
      cases h
      have shorter := (collectWords_shorter found).2 nonempty
      omega

/-- The loop of `parse_pipeline`: what is left, and the commands so far. -/
structure PipelineState where
  tokens : List Token
  commands : List SimpleCommand

/-- The tokens that cannot follow a `|`. -/
def Token.endsPipeline : Token → Bool
  | .pipe | .semicolon | .newline | .doubleAmpersand | .doublePipe | .ampersand => true
  | _ => false

/-- One round of the loop of `parse_pipeline` (`parser.rs:357-379`). -/
def pipelineStep (p : PipelineState) : Except ParseError PipelineState :=
  match p.tokens with
  | .pipe :: next :: rest =>
    if next.endsPipeline then .error .emptyPipeline
    else
      match parseSimpleCommand (next :: rest) with
      | .error e => .error e
      | .ok (command, rest) => .ok ⟨rest, p.commands ++ [command]⟩
  | _ => .error .emptyPipeline

theorem pipelineStep_shorter {p p' : PipelineState} (h : pipelineStep p = .ok p') :
    p'.tokens.length < p.tokens.length := by
  unfold pipelineStep at h
  split at h
  · rename_i next rest tokens
    split at h
    · cases h
    · cases parsed : parseSimpleCommand (next :: rest) with
      | error e => rw [parsed] at h; cases h
      | ok result =>
        obtain ⟨command, after⟩ := result
        rw [parsed] at h
        cases h
        rw [tokens, length_cons]
        exact lt_succ_of_lt (parseSimpleCommand_shorter parsed)
  · cases h

/-- The loop of `parse_pipeline`, as long as the next token is a `|`. -/
def pipelineLoop : Consumer PipelineState ParseError where
  left p := if p.tokens.head? = some .pipe then p.tokens.length else 0
  step := pipelineStep
  consumes := by
    intro p p' going stepped
    have shorter := pipelineStep_shorter stepped
    split at going
    · rename_i pipe
      rw [if_pos pipe]
      split <;> omega
    · exact absurd rfl going

/-- `parse_pipeline` (`parser.rs:347-380`). -/
def parsePipeline (tokens : List Token) : Except ParseError (Pipeline × List Token) :=
  if tokens.head? = some .pipe then .error .emptyPipeline
  else
    match parseSimpleCommand tokens with
    | .error e => .error e
    | .ok (command, rest) =>
      match pipelineLoop.loop ⟨rest, [command]⟩ with
      | .error e => .error e
      | .ok p => .ok (p.commands, p.tokens)

theorem parsePipeline_shorter {tokens rest : List Token} {pipeline : Pipeline}
    (h : parsePipeline tokens = .ok (pipeline, rest)) : rest.length < tokens.length := by
  unfold parsePipeline at h
  split at h
  · cases h
  cases parsed : parseSimpleCommand tokens with
  | error e => rw [parsed] at h; cases h
  | ok result =>
    obtain ⟨command, after⟩ := result
    rw [parsed] at h
    dsimp only at h
    cases looped : pipelineLoop.loop ⟨after, [command]⟩ with
    | error e => rw [looped] at h; cases h
    | ok p =>
      rw [looped] at h
      cases h
      have first := parseSimpleCommand_shorter parsed
      have later : p.tokens.length ≤ after.length :=
        pipelineLoop.loop_invariant (fun q => q.tokens.length ≤ after.length)
          (fun kept stepped => le_trans (le_of_lt (pipelineStep_shorter stepped)) kept)
          (le_refl _) looped
      omega

/-- `skip_separators` (`parser.rs:305-314`). -/
def skipSeparators : List Token → List Token
  | .semicolon :: rest | .newline :: rest => skipSeparators rest
  | tokens => tokens

/-- `consume_connector` (`parser.rs:319-339`). -/
def consumeConnector : List Token → Option Connector × List Token
  | .semicolon :: rest | .newline :: rest => (some .semi, rest)
  | .doubleAmpersand :: rest => (some .and, rest)
  | .doublePipe :: rest => (some .or, rest)
  | .ampersand :: rest => (some .background, rest)
  | tokens => (none, tokens)

/-- The loop of `parse_command_list`: what is left, the entries so far, and whether the last one had
no connector. -/
structure ListState where
  tokens : List Token
  entries : CommandList
  isLast : Bool

/-- One round of the loop of `parse_command_list` (`parser.rs:286-297`). -/
def listStep (l : ListState) : Except ParseError ListState :=
  match parsePipeline l.tokens with
  | .error e => .error e
  | .ok (pipeline, rest) =>
    let next := consumeConnector rest
    let entries := l.entries ++ [(pipeline, next.1)]
    match next.1 with
    | none => .ok ⟨next.2, entries, true⟩
    | some _ => .ok ⟨skipSeparators next.2, entries, false⟩

theorem skipSeparators_shorter (tokens : List Token) :
    (skipSeparators tokens).length ≤ tokens.length := by
  fun_induction skipSeparators tokens with
  | case1 rest ih => exact le_succ_of_le ih
  | case2 rest ih => exact le_succ_of_le ih
  | case3 tokens => exact le_refl _

theorem consumeConnector_shorter (tokens : List Token) :
    (consumeConnector tokens).2.length ≤ tokens.length := by
  unfold consumeConnector
  split <;> simp

/-- The loop of `parse_command_list`. -/
def listLoop : Consumer ListState ParseError where
  left l := if l.isLast then 0 else l.tokens.length
  step := listStep
  consumes := by
    intro l l' going stepped
    split at going
    · exact absurd rfl going
    rename_i open_
    rw [if_neg open_]
    unfold listStep at stepped
    cases parsed : parsePipeline l.tokens with
    | error e => rw [parsed] at stepped; cases stepped
    | ok result =>
      obtain ⟨pipeline, rest⟩ := result
      have first := parsePipeline_shorter parsed
      have second := consumeConnector_shorter rest
      have third := skipSeparators_shorter (consumeConnector rest).2
      rw [parsed] at stepped
      dsimp only at stepped
      split at stepped
      · cases stepped
        rw [if_pos rfl]
        omega
      · cases stepped
        dsimp only
        split <;> omega

/-- `parse` (`parser.rs:235-301`). -/
def parse (tokens : List Token) : Except ParseError CommandList :=
  match listLoop.loop ⟨skipSeparators tokens, [], false⟩ with
  | .error e => .error e
  | .ok l => .ok l.entries

end NexaCore.Shell
