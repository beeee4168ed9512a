import NexaCore.Shell.Proofs.Quoting

/-!
# Words with references

An unquoted word of plain characters and references. The lexer cuts it before and behind each
reference, and each piece becomes an argument of its own; the parser renders a reference as text
again, and the expander reads it back as the same reference.
-/

namespace NexaCore.Shell

open Misc List LexState ShellEnv

variable {name rest spec : Text} {piece : Piece} {word : List Piece}

/-! ## Words -/

structure IsName (name : Text) : Prop where
  first : name.head?.any isIdentFirst = true
  all : ∀ c ∈ name, isIdentChar c = true

/-- A piece of a word: plain text, `$NAME`, `${NAME}` or `${NAME:-default}`. -/
inductive Piece where
  | plain (text : Text)
  | bare (name : Text)
  | braced (name : Text)
  | default (name value : Text)

namespace Piece

def source : Piece → Text
  | plain text => text
  | bare name => '$' :: name
  | braced name => '$' :: '{' :: (name ++ ['}'])
  | default name value => '$' :: '{' :: (name ++ ':' :: '-' :: value ++ ['}'])

def token : Piece → Token
  | plain text => .word text
  | bare name | braced name => .envVar name
  | default name value => .envVar (name ++ ':' :: '-' :: value)

def Valid : Piece → Prop
  | plain text => text ≠ [] ∧ ∀ c ∈ text, isPlain c = true
  | bare name | braced name => IsName name
  | default name value => IsName name ∧ '}' ∉ value

/-- Where the next piece starts: plain text goes on to a reference, and `$NAME` to no character of a
name. -/
def Ends : Piece → Text → Prop
  | plain _, rest => rest = [] ∨ rest.head? = some '$'
  | bare _, rest => rest.head?.any isIdentChar = false
  | _, _ => True

end Piece

def wordSource (word : List Piece) : Text :=
  word.flatMap Piece.source

/-- A word in its pieces: each is as long as it can be. -/
def WellFormed : List Piece → Prop
  | [] => True
  | piece :: rest => piece.Valid ∧ piece.Ends (wordSource rest) ∧ WellFormed rest

/-! ## Lexing and parsing -/

theorem takeWhile_append_stop {p : Char → Bool} {text : Text} (inside : ∀ c ∈ text, p c = true)
    (stop : rest.head?.any p = false) :
    (text ++ rest).takeWhile p = text ∧ (text ++ rest).dropWhile p = rest := by
  rw [takeWhile_append_of_pos inside, dropWhile_append_of_pos inside]
  cases rest with
  | nil => simp
  | cons c rest =>
    have stop : p c = false := stop
    simp [stop]

theorem not_mem_of_isName (isName : IsName name) {c : Char}
    (other : isIdentChar c = false) : c ∉ name := by
  intro member
  rw [isName.all c member] at other
  cases other

theorem spec_cut (rest : Text) (free : '}' ∉ spec) :
    (spec ++ '}' :: rest).takeWhile (· ≠ '}') = spec ∧
      ((spec ++ '}' :: rest).dropWhile (· ≠ '}')).drop 1 = rest := by
  have inside : ∀ c ∈ spec, decide (c ≠ '}') = true := by
    intro c member
    rw [decide_eq_true_iff]
    rintro rfl
    exact free member
  have stop : ('}' :: rest).head?.any (fun c => decide (c ≠ '}')) = false := by simp
  obtain ⟨taken, dropped⟩ := takeWhile_append_stop inside stop
  exact ⟨taken, by rw [dropped]; rfl⟩

section

variable {wordBuf rest : Text} {tokens : List Token}

theorem lexes_braced (free : '}' ∉ spec) :
    Lexes ⟨'$' :: '{' :: (spec ++ '}' :: rest), wordBuf, tokens⟩
      ⟨rest, [], (flushWord ⟨[], wordBuf, tokens⟩).tokens ++ [.envVar spec]⟩ := by
  obtain ⟨taken, dropped⟩ := spec_cut rest free
  refine lexes_of_lexOne ?_
  change Except.ok (lexEnvVar _) = _
  simp only [lexEnvVar, drop_succ_cons, drop_zero, taken, dropped, pushToken]
  unfold flushWord
  dsimp only
  split
  · rename_i empty
    rw [empty]
  · rfl

theorem lexes_bare (isName : IsName name) (ends : rest.head?.any isIdentChar = false) :
    Lexes ⟨'$' :: (name ++ rest), wordBuf, tokens⟩
      ⟨rest, [], (flushWord ⟨[], wordBuf, tokens⟩).tokens ++ [.envVar name]⟩ := by
  obtain ⟨taken, dropped⟩ := takeWhile_append_stop isName.all ends
  have first := isName.first
  cases name with
  | nil => cases first
  | cons c name =>
    have first : isIdentFirst c = true := first
    have noParen : c ≠ '(' := by
      rintro rfl
      exact absurd first (by decide)
    have noBrace : c ≠ '{' := by
      rintro rfl
      exact absurd first (by decide)
    refine lexes_of_lexOne ?_
    have variable_ : lexOne ⟨'$' :: (c :: name ++ rest), wordBuf, tokens⟩ '$' =
        .ok (lexEnvVar ⟨'$' :: (c :: name ++ rest), wordBuf, tokens⟩) := by
      change (if some c = some '(' then _ else _) = _
      rw [if_neg (by simpa using noParen)]
    rw [variable_]
    unfold lexEnvVar
    split
    · rename_i other same
      exact absurd (cons.inj same).1 noBrace
    · simp only [drop_succ_cons, drop_zero, taken, dropped, pushToken]
      unfold flushWord
      dsimp only
      split
      · rename_i empty
        rw [empty]
      · rfl

end

theorem not_mem_spec {value : Text} (isName : IsName name) (free : '}' ∉ value) :
    '}' ∉ name ++ ':' :: '-' :: value := by
  have outside : '}' ∉ name := not_mem_of_isName isName (by decide)
  simp [outside, free]

/-- The pieces of a word become one token each; plain text is pending until the next piece. -/
theorem lexer_word (wellFormed : WellFormed word) (wordBuf : Text)
    (tokens : List Token) (pending : wordBuf = [] ∨ wordSource word = [] ∨
      (wordSource word).head? = some '$') :
    ∃ st, lexer.loop ⟨wordSource word, wordBuf, tokens⟩ = .ok st ∧
      st.flushWord.tokens =
        (flushWord ⟨[], wordBuf, tokens⟩).tokens ++ word.map Piece.token := by
  induction word generalizing wordBuf tokens with
  | nil =>
    refine ⟨⟨[], wordBuf, tokens⟩, Consumer.loop_done rfl, ?_⟩
    rw [map_nil, append_nil]
  | cons piece rest ih =>
    obtain ⟨valid, ends, later⟩ := wellFormed
    -- A reference flushes the pending text and leaves nothing pending.
    have reference : ∀ spec, piece.token = .envVar spec →
        Lexes ⟨piece.source ++ wordSource rest, wordBuf, tokens⟩ ⟨wordSource rest, [],
          (flushWord ⟨[], wordBuf, tokens⟩).tokens ++ [.envVar spec]⟩ →
        ∃ st, lexer.loop ⟨wordSource (piece :: rest), wordBuf, tokens⟩ = .ok st ∧
          st.flushWord.tokens = (flushWord ⟨[], wordBuf, tokens⟩).tokens ++
            (piece :: rest).map Piece.token := by
      intro spec token lexed
      obtain ⟨st, loop, found⟩ := ih later [] _ (.inl rfl)
      refine ⟨st, Eq.trans lexed loop, ?_⟩
      rw [found, map_cons, token]
      simp [flushWord]
    cases piece with
    | plain text =>
      have empty : wordBuf = [] := by
        obtain ⟨nonempty, plain⟩ := valid
        rcases pending with empty | empty | dollar
        · exact empty
        · exact absurd (append_eq_nil_iff.mp empty).1 nonempty
        · obtain ⟨c, text, rfl⟩ := exists_cons_of_ne_nil nonempty
          have same : c = '$' := Option.some.inj dollar
          have plain := plain c (.head _)
          rw [same] at plain
          exact absurd plain (by decide)
      subst empty
      have stop : (wordSource rest).head? ≠ some '>' := by
        rcases ends with empty | dollar
        · rw [empty]
          decide
        · rw [dollar]
          decide
      have lexed : Lexes ⟨text ++ wordSource rest, [], tokens⟩
          ⟨wordSource rest, [] ++ text, tokens⟩ :=
        lexes_plain valid.2 stop
      obtain ⟨st, loop, found⟩ := ih later ([] ++ text) tokens (.inr ends)
      refine ⟨st, Eq.trans lexed loop, ?_⟩
      rw [found]
      simp [flushWord, valid.1, Piece.token]
    | bare name => exact reference name rfl (lexes_bare valid ends)
    | braced name =>
      refine reference name rfl ?_
      have free : '}' ∉ name := not_mem_of_isName valid (by decide)
      have lexed : Lexes ⟨'$' :: '{' :: (name ++ '}' :: wordSource rest), wordBuf, tokens⟩ _ :=
        lexes_braced free
      simpa [Piece.source] using lexed
    | default name value =>
      refine reference (name ++ ':' :: '-' :: value) rfl ?_
      have lexed : Lexes ⟨'$' :: '{' :: ((name ++ ':' :: '-' :: value) ++ '}' :: wordSource rest),
          wordBuf, tokens⟩ _ := lexes_braced (not_mem_spec valid.1 valid.2)
      simpa [Piece.source] using lexed

/-- The text of the argument that a piece becomes. -/
def Piece.argument : Piece → Text
  | .plain text => text
  | .bare name | .braced name => '$' :: name
  | .default name value => '$' :: '{' :: (name ++ ':' :: '-' :: value ++ ['}'])

theorem envVarText_of_isName (isName : IsName name) : envVarText name = '$' :: name := by
  have colon : ':' ∉ name := not_mem_of_isName isName (by decide)
  have question : name ≠ ['?'] := by
    rintro rfl
    exact absurd isName.first (by decide)
  have dollar : name ≠ ['$'] := by
    rintro rfl
    exact absurd isName.first (by decide)
  simp [envVarText, colon, question, dollar]

theorem wordText_token (valid : piece.Valid) : piece.token.wordText = some piece.argument := by
  cases piece with
  | plain text => rfl
  | bare | braced => simp [Piece.token, Token.wordText, Piece.argument, envVarText_of_isName valid]
  | default name value =>
    simp [Piece.token, Token.wordText, Piece.argument, envVarText]

/-! ## Expansion -/

/-- What a piece stands for. -/
def Piece.value (env : ShellEnv) : Piece → Text
  | .plain text => text
  | .bare name | .braced name => (env.get name).getD []
  | .default name value => env.expandSpec (name ++ ':' :: '-' :: value)

section

variable (env : ShellEnv)

theorem reference_name (isName : IsName name)
    (ends : rest.head?.any isIdentChar = false) :
    env.reference (name ++ rest) = ((env.get name).getD [], rest) := by
  obtain ⟨taken, dropped⟩ := takeWhile_append_stop isName.all ends
  have first := isName.first
  cases name with
  | nil => cases first
  | cons c name =>
    have first : isIdentFirst c = true := first
    have other : ∀ d : Char, isIdentFirst d = false → c ≠ d := by
      rintro d outside rfl
      rw [first] at outside
      cases outside
    rw [cons_append] at taken dropped ⊢
    simp only [reference, if_neg (other '$' (by decide)), if_neg (other '?' (by decide)),
      if_neg (other '{' (by decide)), first, if_true, taken, dropped]

theorem reference_braced (rest : Text) (free : '}' ∉ spec) :
    env.reference ('{' :: (spec ++ '}' :: rest)) = (env.expandSpec spec, rest) := by
  obtain ⟨taken, dropped⟩ := spec_cut rest free
  rw [reference, if_neg (by decide), if_neg (by decide), if_pos rfl, taken, dropped]

theorem splitDefault_isName (isName : ∀ c ∈ name, isIdentChar c = true) :
    splitDefault name = none := by
  induction name with
  | nil => rfl
  | cons c name ih =>
    have later := ih fun d member => isName d (mem_cons_of_mem c member)
    unfold splitDefault
    split
    · exact absurd (isName ':' (.head _)) (by decide)
    · rw [later]
      rfl

theorem expand_piece (valid : piece.Valid) (ends : piece.Ends rest) :
    env.expand (piece.source ++ rest) = piece.value env ++ env.expand rest := by
  cases piece with
  | plain text =>
    have plain := valid.2
    clear valid ends
    simp only [Piece.source, Piece.value]
    induction text with
    | nil => rfl
    | cons c text ih =>
      have other : c ≠ '$' := by
        rintro rfl
        exact absurd (plain '$' (.head _)) (by decide)
      rw [cons_append, env.expand_cons other, ih fun d member => plain d (mem_cons_of_mem c member)]
      rfl
  | bare name =>
    rw [Piece.source, cons_append, env.expand_dollar, reference_name env valid ends]
    rfl
  | braced name =>
    have free : '}' ∉ name := not_mem_of_isName valid (by decide)
    have source : (Piece.braced name).source ++ rest = '$' :: '{' :: (name ++ '}' :: rest) := by
      simp [Piece.source]
    rw [source, env.expand_dollar, reference_braced env rest free,
      expandSpec, splitDefault_isName valid.all]
    rfl
  | default name value =>
    have source : (Piece.default name value).source ++ rest =
        '$' :: '{' :: ((name ++ ':' :: '-' :: value) ++ '}' :: rest) := by
      simp [Piece.source]
    rw [source, env.expand_dollar, reference_braced env rest (not_mem_spec valid.1 valid.2)]
    rfl

theorem ends_nil (piece : Piece) : piece.Ends [] := by
  cases piece with
  | plain text => exact .inl rfl
  | bare name => rfl
  | _ => trivial

theorem expand_source (valid : piece.Valid) : env.expand piece.source = piece.value env := by
  have whole := expand_piece env valid (ends_nil piece)
  rwa [append_nil, env.expand_nil, append_nil] at whole

/-- What the parser makes of a reference is expanded like the reference. -/
theorem expand_argument (valid : piece.Valid) : env.expand piece.argument = piece.value env := by
  cases piece with
  | braced name =>
    have bare : (Piece.bare name).Valid := valid
    exact expand_source env bare
  | _ => exact expand_source env valid

theorem expand_word (wellFormed : WellFormed word) :
    env.expand (wordSource word) = (word.map (Piece.value env)).flatten := by
  induction word with
  | nil => exact env.expand_nil
  | cons piece rest ih =>
    obtain ⟨valid, ends, later⟩ := wellFormed
    rw [map_cons, flatten_cons, ← ih later]
    exact expand_piece env valid ends

end

theorem valid_of_wellFormed (wellFormed : WellFormed word) : ∀ piece ∈ word, piece.Valid := by
  induction word with
  | nil => simp
  | cons piece rest ih =>
    obtain ⟨valid, _, later⟩ := wellFormed
    exact forall_mem_cons.mpr ⟨valid, ih later⟩

theorem isGlob_append (first second : Text) :
    isGlob (first ++ second) = (isGlob first || isGlob second) := by
  simp only [isGlob, contains_append]
  cases first.contains '*' <;> cases first.contains '?' <;> cases first.contains '[' <;> simp

theorem isGlob_flatten {texts : List Text} (h : isGlob texts.flatten = false) :
    ∀ text ∈ texts, isGlob text = false := by
  induction texts with
  | nil => simp
  | cons text rest ih =>
    rw [flatten_cons, isGlob_append, Bool.or_eq_false_iff] at h
    exact forall_mem_cons.mpr ⟨h.1, ih h.2⟩

theorem expandCommand_map {Files : Type} (host : Host Files) (ctx : ExecContext Files)
    {α : Type} {argument value : α → Text} {items : List α}
    (expands : ∀ item ∈ items, ctx.env.expand (argument item) = value item)
    (plain : ∀ item ∈ items, isGlob (value item) = false) :
    expandCommand host (items.map argument) ctx = items.map value := by
  induction items with
  | nil => rfl
  | cons item rest ih =>
    have later := ih (fun i member => expands i (mem_cons_of_mem item member))
      fun i member => plain i (mem_cons_of_mem item member)
    simp only [expandCommand] at later
    simp only [expandCommand, map_cons, flatMap_cons, expands item (.head _),
      plain item (.head _), Bool.false_eq_true, if_false, later]
    rfl

/-- Each piece of a word is delivered as an argument of its own, with its own expansion; together
the arguments spell the expansion of the word. -/
theorem word_delivered_in_pieces (Files : Type) (host : Host Files) (session : Session Files)
    (builtin : Text) (known : builtin ∈ builtinNames) (found : (host.builtins builtin).isSome)
    (word : List Piece) (wellFormed : WellFormed word)
    (noPattern : isGlob (session.ctx.env.expand (wordSource word)) = false) :
    (runLine host (commandLine builtin (wordSource word)) session).calls = session.calls ++
        [builtin :: word.map fun piece => session.ctx.env.expand piece.source] ∧
      (word.map fun piece => session.ctx.env.expand piece.source).flatten =
        session.ctx.env.expand (wordSource word) := by
  have named := plainName_of_mem known
  have valid := valid_of_wellFormed wellFormed
  have values : (word.map fun piece => session.ctx.env.expand piece.source) =
      word.map (Piece.value session.ctx.env) :=
    map_congr_left fun piece member => expand_source session.ctx.env (valid piece member)
  rw [values, expand_word session.ctx.env wellFormed]
  refine ⟨?_, rfl⟩
  rw [expand_word session.ctx.env wellFormed] at noPattern
  obtain ⟨st, loop, tokens⟩ := lexer_word wellFormed [] [.word builtin] (.inl rfl)
  have tokenized := tokenize_commandLine named loop
  rw [tokens] at tokenized
  have words : WordTokens (word.map Piece.token) (word.map Piece.argument) := by
    rw [WordTokens, forall₂_map_left_iff, forall₂_map_right_iff]
    exact forall₂_same.mpr fun piece member => wordText_token (valid piece member)
  refine runLine_words named tokenized words ?_ found
  rw [expandCommand_name host named]
  congr 1
  refine expandCommand_map host session.ctx
    (fun piece member => expand_argument session.ctx.env (valid piece member)) ?_
  intro piece member
  exact isGlob_flatten noPattern _ (mem_map_of_mem member)

/-- `echo a$HOME${USER:-x}` with `HOME` set to `/` and `USER` to `root`. -/
theorem word_delivered_pieces :
    (runLine (listingHost []) "echo a$HOME${USER:-x}".toList (freshSession .new [])).calls =
      [["echo".toList, "a".toList, "/".toList, "root".toList]] := by
  have home : IsName "HOME".toList := ⟨by decide +kernel, all_eq_true.mp (by decide +kernel)⟩
  have user : IsName "USER".toList := ⟨by decide +kernel, all_eq_true.mp (by decide +kernel)⟩
  have wellFormed : WellFormed
      [.plain "a".toList, .bare "HOME".toList, .default "USER".toList "x".toList] :=
    ⟨⟨by decide, all_eq_true.mp (by decide +kernel)⟩, .inr rfl, home, rfl,
      ⟨user, by decide +kernel⟩, trivial, trivial⟩
  have delivered := (word_delivered_in_pieces Unit (listingHost []) (freshSession .new [])
    "echo".toList (by decide +kernel) rfl _ wellFormed (by decide +kernel)).1
  exact delivered.trans (by decide +kernel)

/-- `echo a$HOME` has three arguments, although the word stands for `a/`. -/
theorem word_not_delivered_whole :
    (runLine (listingHost []) "echo a$HOME".toList (freshSession .new [])).calls =
        [["echo".toList, "a".toList, "/".toList]] ∧
      ShellEnv.new.expand "a$HOME".toList = "a/".toList := by
  constructor <;> decide +kernel

end NexaCore.Shell
