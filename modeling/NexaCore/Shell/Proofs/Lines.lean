import NexaCore.Shell.Executor

/-!
# Lines of one command

A line of a built-in's name and words behind it is one command; the built-in is called once, with
the expansion of the words.
-/

namespace NexaCore.Shell

open Misc List LexState Consumer Option

/-! ## Lexing -/

/-- The lexer gets from one state to another. -/
def Lexes (st st' : LexState) : Prop :=
  lexer.loop st = lexer.loop st'

variable {st : LexState}

theorem Lexes.trans {st' st'' : LexState} (first : Lexes st st') (second : Lexes st' st'') :
    Lexes st st'' :=
  Eq.trans first second

variable {ch : Char} {rest wordBuf : Text} {tokens : List Token}

theorem lexes_of_lexOne (h : lexOne ⟨ch :: rest, wordBuf, tokens⟩ ch = .ok st) :
    Lexes ⟨ch :: rest, wordBuf, tokens⟩ st :=
  lexer.loop_next (Nat.succ_ne_zero _) h

/-- The characters that the lexer treats in a way of their own, wherever they stand. -/
def specialChars : List Char :=
  [' ', '\t', '\n', '#', '\x5c', '\x27', '\x22', '|', '>', '<', ';', '&', '$']

/-- A character that the lexer collects into a word. -/
def isPlain (c : Char) : Bool :=
  c ∉ specialChars

theorem lexOne_plain (plain : isPlain ch = true) (next : st.peekNext ≠ some '>') :
    lexOne st ch = .ok ((st.pushWordChar ch).advance 1) := by
  unfold lexOne
  split
  case h_14 => rw [if_neg next]
  case h_15 => rfl
  all_goals exact absurd plain (by decide)

variable {text : Text}

theorem lexes_plain (plain : ∀ c ∈ text, isPlain c = true) (next : rest.head? ≠ some '>') :
    Lexes ⟨text ++ rest, wordBuf, tokens⟩ ⟨rest, wordBuf ++ text, tokens⟩ := by
  induction text generalizing wordBuf with
  | nil => rw [append_nil]; rfl
  | cons c text ih =>
    have follows : peekNext ⟨c :: text ++ rest, wordBuf, tokens⟩ ≠ some '>' := by
      cases text with
      | nil => exact next
      | cons d text =>
        intro same
        have greater : d = '>' := some.inj same
        have plain := plain d (by simp)
        rw [greater] at plain
        exact absurd plain (by decide)
    have first : Lexes ⟨c :: text ++ rest, wordBuf, tokens⟩
        ⟨text ++ rest, wordBuf ++ [c], tokens⟩ :=
      lexes_of_lexOne (lexOne_plain (plain c mem_cons_self) follows)
    have later : Lexes ⟨text ++ rest, wordBuf ++ [c], tokens⟩
        ⟨rest, wordBuf ++ [c] ++ text, tokens⟩ :=
      ih fun d member => plain d (mem_cons_of_mem c member)
    rw [append_assoc] at later
    exact first.trans later

/-- The names of the built-ins (`command.rs:61-80` and `commands/`). -/
def builtinNames : List Text :=
  ["cd", "pwd", "echo", "exit", "export", "unset", "env", "alias", "type", "history", "help",
    "clear", "source", "true", "false", "ls", "cat", "cp", "mv", "rm", "mkdir", "touch", "grep",
    "head", "tail", "wc", "uname", "whoami", "hostname", "ps", "kill", "df", "find",
    "ifconfig"].map String.toList

/-- What the names of the built-ins have in common: they are runs of plain characters, with no
reference, no pattern and no override in them. -/
structure PlainName (name : Text) : Prop where
  nonempty : name ≠ []
  plain : ∀ c ∈ name, isPlain c = true
  noPattern : isGlob name = false
  noOverride : splitEnvOverride name = none

variable {name : Text}

theorem plainName_of_mem (known : name ∈ builtinNames) : PlainName name := by
  have all : ∀ name ∈ builtinNames, name ≠ [] ∧ name.all isPlain = true ∧
      isGlob name = false ∧ splitEnvOverride name = none := by decide +kernel
  obtain ⟨nonempty, plain, noPattern, noOverride⟩ := all name known
  exact ⟨nonempty, all_eq_true.mp plain, noPattern, noOverride⟩

def commandLine (name rest : Text) : Text :=
  name ++ ' ' :: rest

theorem tokenize_commandLine (named : PlainName name)
    (lexed : lexer.loop ⟨rest, [], [.word name]⟩ = .ok st) :
    tokenize (commandLine name rest) = .ok st.flushWord.tokens := by
  have first : Lexes ⟨commandLine name rest, [], []⟩ ⟨' ' :: rest, name, []⟩ := by
    have run : Lexes ⟨name ++ ' ' :: rest, [], []⟩ ⟨' ' :: rest, [] ++ name, []⟩ :=
      lexes_plain named.plain (by rw [head?_cons]; decide)
    rwa [nil_append] at run
  have blank : Lexes ⟨' ' :: rest, name, []⟩ ⟨rest, [], [.word name]⟩ := by
    refine lexes_of_lexOne ?_
    have flushed : flushWord ⟨' ' :: rest, name, []⟩ = ⟨' ' :: rest, [], [.word name]⟩ := by
      rw [flushWord, if_neg named.nonempty]
      rfl
    change Except.ok _ = _
    rw [flushed]
    rfl
  have all : lexer.loop ⟨commandLine name rest, [], []⟩ = .ok st :=
      Eq.trans (first.trans blank) lexed
  rw [tokenize, all]

/-! ## Parsing -/

/-- The texts of word-class tokens. -/
def WordTokens (tokens : List Token) (texts : List Text) : Prop :=
  List.Forall₂ (fun token text => token.wordText = some text) tokens texts

theorem redirectKind_of_wordText {token : Token} (h : token.wordText = some text) :
    token.redirectKind = none := by
  cases token <;> first | rfl | cases h

variable {texts : List Text}

theorem collectWords_words (words : WordTokens tokens texts) (argv : List Text) :
    collectWords argv [] tokens = .ok ⟨argv ++ texts, [], []⟩ := by
  induction words generalizing argv with
  | nil => rw [append_nil]; rfl
  | cons word _ ih =>
    simp only [collectWords, redirectKind_of_wordText word, word]
    rw [ih, append_assoc]
    rfl

theorem parse_words (named : PlainName name) (words : WordTokens tokens texts) :
    parse (.word name :: tokens) = .ok [([⟨name :: texts, [], []⟩], none)] := by
  have overrides : collectOverrides (.word name :: tokens) [] = ([], .word name :: tokens) := by
    simp only [collectOverrides, named.noOverride]
  have all : WordTokens (.word name :: tokens) (name :: texts) := .cons rfl words
  have command : parseSimpleCommand (.word name :: tokens) = .ok (⟨name :: texts, [], []⟩, []) := by
    simp only [parseSimpleCommand, overrides, collectWords_words all, nil_append]
    rfl
  have pipeline : parsePipeline (.word name :: tokens) = .ok ([⟨name :: texts, [], []⟩], []) := by
    have ended : pipelineLoop.loop ⟨[], [⟨name :: texts, [], []⟩]⟩ =
        .ok ⟨[], [⟨name :: texts, [], []⟩]⟩ :=
      loop_done rfl
    simp only [parsePipeline, head?_cons, command, ended, some.injEq, reduceCtorEq, if_false]
  have round : listLoop.loop ⟨.word name :: tokens, [], false⟩ =
      .ok ⟨[], [([⟨name :: texts, [], []⟩], none)], true⟩ := by
    have stepped : listLoop.step ⟨.word name :: tokens, [], false⟩ =
        .ok ⟨[], [([⟨name :: texts, [], []⟩], none)], true⟩ := by
      change listStep _ = _
      simp only [listStep, pipeline]
      rfl
    have going : listLoop.left ⟨.word name :: tokens, [], false⟩ ≠ 0 := Nat.succ_ne_zero _
    rw [loop_next going stepped]
    exact loop_done rfl
  rw [parse, show skipSeparators (.word name :: tokens) = .word name :: tokens from rfl, round]

/-! ## Running -/

section

variable {Files : Type} {host : Host Files}

theorem substituteTokensWith_words (words : WordTokens tokens texts)
    (capture : Text → Session Files → (Text × Int) × Session Files) (s : Session Files) :
    substituteTokensWith capture tokens s = (tokens, s) := by
  induction words with
  | nil => rfl
  | @cons token _ _ _ word _ ih =>
    cases token with
    | commandSubst inner => cases word
    | _ => simp only [substituteTokensWith, ih]

variable {args : List Text} {s : Session Files}

/-- The calls of a session after a command without redirects and overrides. -/
theorem executeCommandList_calls {argv : List Text}
    (expanded : expandCommand host argv s.ctx = name :: args)
    (known : (host.builtins name).isSome) :
    (executeCommandList host [([⟨argv, [], []⟩], none)] s).1.calls = s.calls ++ [name :: args] := by
  obtain ⟨handler, found⟩ := isSome_iff_exists.mp known
  simp only [executeCommandList, executeEntries, Connector.allows, executePipeline, foldl_cons,
    foldl_nil, executeCommand, expanded, resolveStdin, dispatch, found, finishOutput,
    applyOutputRedirects, reverse_nil, find?_nil, if_true]

theorem runLine_words {line : Text} (named : PlainName name)
    (tokenized : tokenize line = .ok (.word name :: tokens)) (words : WordTokens tokens texts)
    (expanded : expandCommand host (name :: texts) s.ctx = name :: args)
    (known : (host.builtins name).isSome) :
    (runLine host line s).calls = s.calls ++ [name :: args] := by
  have all : WordTokens (.word name :: tokens) (name :: texts) := .cons rfl words
  have substituted : substituteTokens host (.word name :: tokens) s = (.word name :: tokens, s) :=
    substituteTokensWith_words all _ s
  simp only [runLine, tokenized, substituted, parse_words named words]
  exact executeCommandList_calls expanded known

end

end NexaCore.Shell
