import NexaCore.Misc.Consume

/-!
# The shell lexer

`nexacore-shell/src/lexer.rs`. A text is a list of characters; the lexer keeps what is left of the
input, the word it is collecting and the tokens found so far.
-/

namespace NexaCore.Shell

open Misc List Nat

abbrev Text := List Char

/-- `Token` (`lexer.rs:45-107`). -/
inductive Token where
  | word (text : Text)
  | pipe
  | redirectOut
  | redirectAppend
  | redirectIn
  | redirectErr
  | semicolon
  | ampersand
  | doubleAmpersand
  | doublePipe
  | newline
  | singleQuoted (text : Text)
  | doubleQuoted (text : Text)
  | envVar (spec : Text)
  | commandSubst (inner : Text)
  deriving DecidableEq, Repr

/-- The errors of `LexError` that the lexer returns (`lexer.rs:116-135`). -/
inductive LexError where
  | unterminatedSingleQuote
  | unterminatedDoubleQuote
  | unterminatedCommandSubst
  deriving DecidableEq, Repr

/-- `LexState` (`lexer.rs:143-152`), with what is left of the characters in place of a position. -/
structure LexState where
  rest : Text
  wordBuf : Text
  tokens : List Token
  deriving DecidableEq, Repr

namespace LexState

def peekNext (st : LexState) : Option Char :=
  (st.rest.drop 1).head?

def advance (n : Nat) (st : LexState) : LexState :=
  { st with rest := st.rest.drop n }

def flushWord (st : LexState) : LexState :=
  if st.wordBuf = [] then st
  else { st with wordBuf := [], tokens := st.tokens ++ [.word st.wordBuf] }

def pushWordChar (c : Char) (st : LexState) : LexState :=
  { st with wordBuf := st.wordBuf ++ [c] }

/-- A token that does not touch the collected word. -/
def pushToken (token : Token) (st : LexState) : LexState :=
  { st with tokens := st.tokens ++ [token] }

def emit (token : Token) (st : LexState) : LexState :=
  st.flushWord.pushToken token

@[simp] theorem advance_rest (n : Nat) (st : LexState) : (st.advance n).rest = st.rest.drop n := rfl

@[simp] theorem pushWordChar_rest (c : Char) (st : LexState) :
    (st.pushWordChar c).rest = st.rest := rfl

@[simp] theorem pushToken_rest (token : Token) (st : LexState) :
    (st.pushToken token).rest = st.rest := rfl

@[simp] theorem flushWord_rest (st : LexState) : st.flushWord.rest = st.rest := by
  unfold flushWord
  split <;> rfl

@[simp] theorem emit_rest (token : Token) (st : LexState) : (st.emit token).rest = st.rest := by
  rw [emit, pushToken_rest, flushWord_rest]

end LexState

/-- `is_ident_char` (`lexer.rs:571-573`, `env.rs:504-506`). -/
def isIdentChar (c : Char) : Bool :=
  c.isAlphanum || c == '_'

/-- `lex_comment` (`lexer.rs:322-330`). -/
def lexComment (st : LexState) : LexState :=
  { st.flushWord with rest := st.rest.dropWhile (· ≠ '\n') }

/-- `lex_backslash` (`lexer.rs:333-342`). -/
def lexBackslash (st : LexState) : LexState :=
  match st.peekNext with
  | some next => (st.pushWordChar next).advance 2
  | none => (st.pushWordChar '\x5c').advance 1

/-- `lex_single_quote` (`lexer.rs:347-354`). -/
def lexSingleQuote (st : LexState) : Except LexError LexState :=
  let content := (st.rest.drop 1).takeWhile (· ≠ '\x27')
  match (st.rest.drop 1).dropWhile (· ≠ '\x27') with
  | [] => .error .unterminatedSingleQuote
  | _ :: rest => .ok { st.flushWord.pushToken (.singleQuoted content) with rest }

/-- The quotes that `collect_command_subst` is inside of, and the depth of its parentheses. -/
structure SubstScan where
  depth : Nat
  inSingle : Bool
  inDouble : Bool

/-- The scan of `collect_command_subst` behind the opening parenthesis (`lexer.rs:530-565`): the
text up to the matching one, and what follows it. -/
def collectCommandSubst (scan : SubstScan) (inner : Text) : Text → Except LexError (Text × Text)
  | [] => .error .unterminatedCommandSubst
  | c :: rest =>
    if c = '\x27' ∧ !scan.inDouble then
      collectCommandSubst { scan with inSingle := !scan.inSingle } (inner ++ [c]) rest
    else if c = '\x22' ∧ !scan.inSingle then
      collectCommandSubst { scan with inDouble := !scan.inDouble } (inner ++ [c]) rest
    else if c = '(' ∧ !scan.inSingle ∧ !scan.inDouble then
      collectCommandSubst { scan with depth := scan.depth + 1 } (inner ++ [c]) rest
    else if c = ')' ∧ !scan.inSingle ∧ !scan.inDouble then
      if scan.depth - 1 = 0 then .ok (inner, rest)
      else collectCommandSubst { scan with depth := scan.depth - 1 } (inner ++ [c]) rest
    else collectCommandSubst scan (inner ++ [c]) rest

variable {text found rest : Text}

theorem collectCommandSubst_shorter {scan : SubstScan} {inner : Text}
    (h : collectCommandSubst scan inner text = .ok (found, rest)) : rest.length < text.length := by
  induction text generalizing scan inner with
  | nil => cases h
  | cons c text ih =>
    simp only [collectCommandSubst] at h
    have later : ∀ {scan : SubstScan} {inner : Text},
        collectCommandSubst scan inner text = .ok (found, rest) →
          rest.length < (c :: text).length :=
      fun h => lt_succ_of_lt (ih h)
    split at h
    · exact later h
    split at h
    · exact later h
    split at h
    · exact later h
    split at h
    · split at h
      · cases h
        exact lt_succ_self _
      · exact later h
    · exact later h

/-- A substitution from its opening parenthesis on. -/
def openCommandSubst (text : Text) : Except LexError (Text × Text) :=
  collectCommandSubst ⟨1, false, false⟩ [] (text.drop 1)

/-- `lex_command_subst` (`lexer.rs:408-414`). -/
def lexCommandSubst (st : LexState) : Except LexError LexState :=
  match openCommandSubst (st.rest.drop 1) with
  | .error e => .error e
  | .ok (inner, rest) => .ok { st.flushWord.pushToken (.commandSubst inner) with rest }

/-- The loop of `lex_double_quote`. -/
structure QuoteState where
  st : LexState
  frag : Text
  emitted : Bool
  closed : Bool

/-- One round of the loop of `lex_double_quote` (`lexer.rs:370-393`). -/
def quoteStep (q : QuoteState) : Except LexError QuoteState :=
  match q.st.rest with
  | [] => .error .unterminatedDoubleQuote
  | c :: rest =>
    if c = '\x22' then .ok { q with st := q.st.advance 1, closed := true }
    else if c = '$' ∧ rest.head? = some '(' then
      let st := if q.frag = [] then q.st else q.st.pushToken (.doubleQuoted q.frag)
      match openCommandSubst rest with
      | .error e => .error e
      | .ok (inner, rest) =>
        .ok { q with
          st := { st.pushToken (.commandSubst inner) with rest }, frag := [], emitted := true }
    else .ok { q with st := q.st.advance 1, frag := q.frag ++ [c] }

/-- What is left to read up to the closing quote. -/
def QuoteState.left (q : QuoteState) : Nat :=
  if q.closed then 0 else q.st.rest.length + 1

theorem openCommandSubst_shorter (h : openCommandSubst text = .ok (found, rest)) :
    rest.length < text.length := by
  have shorter := collectCommandSubst_shorter h
  rw [length_drop] at shorter
  omega

variable {q q' : QuoteState}

theorem quoteStep_shorter (h : quoteStep q = .ok q') : q'.st.rest.length < q.st.rest.length := by
  unfold quoteStep at h
  split at h
  · cases h
  rename_i c rest text
  rw [text]
  split at h
  · cases h
    simp [text]
  split at h
  · cases found : openCommandSubst rest with
    | error e => rw [found] at h; cases h
    | ok result =>
      obtain ⟨inner, after⟩ := result
      rw [found] at h
      cases h
      exact lt_succ_of_lt (openCommandSubst_shorter found)
  · cases h
    simp [text]

/-- The loop of `lex_double_quote`. -/
def quoteLoop : Consumer QuoteState LexError where
  left := QuoteState.left
  step := quoteStep
  consumes := by
    intro q q' going stepped
    have shorter := quoteStep_shorter stepped
    unfold QuoteState.left at going ⊢
    split at going
    · exact absurd rfl going
    · rename_i opened
      rw [if_neg opened]
      split <;> omega

/-- `lex_double_quote` (`lexer.rs:365-401`). -/
def lexDoubleQuote (st : LexState) : Except LexError LexState :=
  match quoteLoop.loop ⟨st.flushWord.advance 1, [], false, false⟩ with
  | .error e => .error e
  | .ok q => .ok (if q.frag ≠ [] ∨ !q.emitted then q.st.pushToken (.doubleQuoted q.frag) else q.st)

/-- `lex_env_var` with its two forms (`lexer.rs:450-493`). -/
def lexEnvVar (st : LexState) : LexState :=
  match st.rest.drop 1 with
  | '{' :: rest =>
    { st.flushWord.pushToken (.envVar (rest.takeWhile (· ≠ '}'))) with
      rest := (rest.dropWhile (· ≠ '}')).drop 1 }
  | rest =>
    { st.flushWord.pushToken (.envVar (rest.takeWhile isIdentChar)) with
      rest := rest.dropWhile isIdentChar }

/-- An operator of one character, or of two when the next one is `second`. -/
def lexOperator (second : Char) (single double : Token) (st : LexState) : LexState :=
  if st.peekNext = some second then (st.emit double).advance 2 else (st.emit single).advance 1

/-- `lex_pipe` (`lexer.rs:417-425`). -/
def lexPipe : LexState → LexState :=
  lexOperator '|' .pipe .doublePipe

/-- `lex_redirect_out` (`lexer.rs:428-436`). -/
def lexRedirectOut : LexState → LexState :=
  lexOperator '>' .redirectOut .redirectAppend

/-- `lex_ampersand` (`lexer.rs:439-447`). -/
def lexAmpersand : LexState → LexState :=
  lexOperator '&' .ampersand .doubleAmpersand

/-- `lex_one` (`lexer.rs:278-317`). -/
def lexOne (st : LexState) (ch : Char) : Except LexError LexState :=
  match ch with
  | ' ' | '\t' => .ok (st.flushWord.advance 1)
  | '\n' => .ok ((st.emit .newline).advance 1)
  | '#' => .ok (lexComment st)
  | '\x5c' => .ok (lexBackslash st)
  | '\x27' => lexSingleQuote st
  | '\x22' => lexDoubleQuote st
  | '|' => .ok (lexPipe st)
  | '>' => .ok (lexRedirectOut st)
  | '<' => .ok ((st.emit .redirectIn).advance 1)
  | ';' => .ok ((st.emit .semicolon).advance 1)
  | '&' => .ok (lexAmpersand st)
  | '$' => if st.peekNext = some '(' then lexCommandSubst st else .ok (lexEnvVar st)
  | '2' =>
    if st.peekNext = some '>' then .ok ((st.emit .redirectErr).advance 2)
    else .ok ((st.pushWordChar ch).advance 1)
  | _ => .ok ((st.pushWordChar ch).advance 1)

/-! ## Every character is consumed -/

theorem quoteLoop_shorter (h : quoteLoop.loop q = .ok q') :
    q'.st.rest.length ≤ q.st.rest.length := by
  refine quoteLoop.loop_invariant (fun r => r.st.rest.length ≤ q.st.rest.length) ?_ (le_refl _) h
  intro r r' kept stepped
  exact le_trans (le_of_lt (quoteStep_shorter stepped)) kept

variable {st st' : LexState}

theorem lexDoubleQuote_shorter (nonempty : st.rest ≠ []) (h : lexDoubleQuote st = .ok st') :
    st'.rest.length < st.rest.length := by
  have positive := length_pos_iff.mpr nonempty
  unfold lexDoubleQuote at h
  cases found : quoteLoop.loop ⟨st.flushWord.advance 1, [], false, false⟩ with
  | error e => rw [found] at h; cases h
  | ok q =>
    have shorter := quoteLoop_shorter found
    simp only [LexState.advance_rest, LexState.flushWord_rest, length_drop] at shorter
    rw [found] at h
    dsimp only at h
    split at h
    all_goals
      cases h
      try rw [LexState.pushToken_rest]
      omega

theorem lexSingleQuote_shorter (nonempty : st.rest ≠ []) (h : lexSingleQuote st = .ok st') :
    st'.rest.length < st.rest.length := by
  have positive := length_pos_iff.mpr nonempty
  have suffix : ((st.rest.drop 1).dropWhile (· ≠ '\x27')).length ≤ (st.rest.drop 1).length :=
    (dropWhile_sublist _).length_le
  rw [length_drop] at suffix
  unfold lexSingleQuote at h
  dsimp only at h
  split at h
  · cases h
  · rename_i found
    cases h
    rw [found, length_cons] at suffix
    dsimp only
    omega

theorem lexCommandSubst_shorter (nonempty : st.rest ≠ []) (h : lexCommandSubst st = .ok st') :
    st'.rest.length < st.rest.length := by
  have positive := length_pos_iff.mpr nonempty
  unfold lexCommandSubst at h
  cases found : openCommandSubst (st.rest.drop 1) with
  | error e => rw [found] at h; cases h
  | ok result =>
    obtain ⟨inner, rest⟩ := result
    have shorter := openCommandSubst_shorter found
    rw [length_drop] at shorter
    rw [found] at h
    cases h
    dsimp only
    omega

theorem lexEnvVar_shorter (nonempty : st.rest ≠ []) :
    (lexEnvVar st).rest.length < st.rest.length := by
  have positive := length_pos_iff.mpr nonempty
  have dropped : (st.rest.drop 1).length = st.rest.length - 1 := length_drop
  unfold lexEnvVar
  split
  · rename_i rest found
    have suffix := (dropWhile_sublist (l := rest) (· ≠ '}')).length_le
    rw [found, length_cons] at dropped
    simp only [length_drop]
    omega
  · have suffix := (dropWhile_sublist (l := st.rest.drop 1) isIdentChar).length_le
    dsimp only
    omega

theorem lexOne_shorter {ch : Char} (next : st.rest.head? = some ch) (h : lexOne st ch = .ok st') :
    st'.rest.length < st.rest.length := by
  have nonempty : st.rest ≠ [] := by
    intro empty
    rw [empty] at next
    cases next
  have positive := length_pos_iff.mpr nonempty
  have operator : ∀ second single double,
      (lexOperator second single double st).rest.length < st.rest.length := by
    intro second single double
    unfold lexOperator
    split <;> simp only [LexState.advance_rest, LexState.emit_rest, length_drop] <;> omega
  unfold lexOne at h
  split at h
  case h_4 =>
    -- A comment is at least the character that starts it.
    cases h
    obtain ⟨rest, same⟩ := head?_eq_some_iff.mp next
    have suffix := (dropWhile_sublist (l := rest) (· ≠ '\n')).length_le
    simp only [lexComment, same, length_cons]
    rw [dropWhile_cons_of_pos (by decide)]
    omega
  case h_5 =>
    cases h
    unfold lexBackslash
    split <;> simp only [LexState.advance_rest, LexState.pushWordChar_rest, length_drop] <;> omega
  case h_6 => exact lexSingleQuote_shorter nonempty h
  case h_7 => exact lexDoubleQuote_shorter nonempty h
  case h_8 => cases h; exact operator ..
  case h_9 => cases h; exact operator ..
  case h_12 => cases h; exact operator ..
  case h_13 =>
    split at h
    · exact lexCommandSubst_shorter nonempty h
    · cases h
      exact lexEnvVar_shorter nonempty
  case h_14 =>
    split at h <;> cases h <;>
      simp only [LexState.advance_rest, LexState.emit_rest, LexState.pushWordChar_rest,
        length_drop] <;> omega
  all_goals
    cases h
    simp only [LexState.advance_rest, LexState.emit_rest, LexState.flushWord_rest,
      LexState.pushWordChar_rest, length_drop]
    omega

/-- The loop of `tokenize`. -/
def lexer : Consumer LexState LexError where
  left st := st.rest.length
  step st :=
    match st.rest with
    | [] => .ok st
    | ch :: _ => lexOne st ch
  consumes := by
    intro st st' going stepped
    split at stepped
    · rename_i empty
      rw [empty] at going
      exact absurd rfl going
    · rename_i ch rest text
      exact lexOne_shorter (by rw [text]; rfl) stepped

/-- `tokenize` (`lexer.rs:259-270`). -/
def tokenize (input : Text) : Except LexError (List Token) :=
  match lexer.loop ⟨input, [], []⟩ with
  | .ok st => .ok st.flushWord.tokens
  | .error e => .error e

end NexaCore.Shell
