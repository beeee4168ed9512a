import NexaCore.Shell.Env
import NexaCore.Shell.Glob
import NexaCore.Shell.Parser

/-!
# The shell executor

`nexacore-shell/src/executor.rs`: command substitution, expansion and the execution of a command
list. The built-ins and the file system are given from outside; the calls of built-ins are recorded
beside the context, where the built-ins cannot reach them.
-/

namespace NexaCore.Shell

/-- What the executor and the built-ins share (`executor.rs:81-121`); the network and the audit log,
which the executor does not touch, are left out. -/
structure ExecContext (Files : Type) where
  env : ShellEnv
  lastExitCode : Int
  cwd : Text
  files : Files
  output : List UInt8
  stdin : List UInt8
  stderr : List UInt8

/-- A `BuiltinFn` (`executor.rs:136`). -/
abbrev BuiltinFn (Files : Type) :=
  List Text → ExecContext Files → ExecContext Files × Int

/-- What a shell is given: the file system (`FsQuery`, `glob.rs:60-122`) over some state of the
files, the built-ins, and how output is read and written as text. -/
structure Host (Files : Type) where
  listDir : Files → Text → Except Text (List Text)
  readFile : Files → Text → Except Text (List UInt8)
  writeFile : Files → Text → List UInt8 → Files × Except Text Unit
  appendFile : Files → Text → List UInt8 → Files × Except Text Unit
  builtins : Text → Option (BuiltinFn Files)
  fromUtf8Lossy : List UInt8 → Text
  asBytes : Text → List UInt8

/-- A context with the argument lists that built-ins were called with. -/
structure Session (Files : Type) where
  ctx : ExecContext Files
  calls : List (List Text)

section

variable {Files : Type} (host : Host Files)

/-- `expand_command` (`executor.rs:665-682`). -/
def expandCommand (argv : List Text) (ctx : ExecContext Files) : List Text :=
  argv.flatMap fun arg =>
    let expanded := ctx.env.expand arg
    if isGlob expanded then expandGlob expanded ctx.cwd (host.listDir ctx.files) else [expanded]

/-- `resolve_stdin` (`executor.rs:573-583`). -/
def resolveStdin (redirects : List Redirect) (files : Files) : Except Text (Option (List UInt8)) :=
  match redirects.reverse.find? (·.kind == .input) with
  | none => .ok none
  | some redirect =>
    match host.readFile files redirect.target with
    | .ok bytes => .ok (some bytes)
    | .error e => .error (redirect.target ++ ": ".toList ++ e)

/-- Whether a redirect is to the standard output, or to the standard error. -/
def RedirectKind.toStdout : RedirectKind → Bool
  | .out | .append => true
  | _ => false

/-- One redirect, which gets the bytes when no later one is to the same stream. -/
def applyRedirect (redirect : Redirect) (later : List Redirect) (stdout stderr : List UInt8)
    (files : Files) : Files × Except Text Unit :=
  let payload (same : RedirectKind → Bool) (bytes : List UInt8) :=
    if later.any fun r => same r.kind then [] else bytes
  match redirect.kind with
  | .out => host.writeFile files redirect.target (payload RedirectKind.toStdout stdout)
  | .append => host.appendFile files redirect.target (payload RedirectKind.toStdout stdout)
  | .err => host.writeFile files redirect.target (payload (· == .err) stderr)
  | .input => (files, .ok ())

/-- `apply_output_redirects` (`executor.rs:599-649`), up to the first one that fails. -/
def applyOutputRedirects (stdout stderr : List UInt8) :
    List Redirect → Files → Files × Except Text Unit
  | [], files => (files, .ok ())
  | redirect :: later, files =>
    match applyRedirect host redirect later stdout stderr files with
    | (files, .ok ()) => applyOutputRedirects stdout stderr later files
    | (files, .error e) => (files, .error (redirect.target ++ ": ".toList ++ e))

/-- A diagnostic on the output of a command. -/
def ExecContext.report (message : Text) (ctx : ExecContext Files) : ExecContext Files :=
  { ctx with output := ctx.output ++ host.asBytes ("nexacore-shell: ".toList ++ message ++ ['\n']) }

/-- The call of a built-in, or the report that there is none. -/
def dispatch (argv : List Text) (name : Text) (s : Session Files) : Session Files × Int :=
  match host.builtins name with
  | some handler =>
    let r := handler argv s.ctx
    (⟨r.1, s.calls ++ [argv]⟩, r.2)
  | none => ({ s with ctx := s.ctx.report host (name ++ ": command not found".toList) }, 127)

/-- The output redirects after a command. -/
def finishOutput (redirects : List Redirect) (s : Session Files) (code : Int) :
    Session Files × Int :=
  let r := applyOutputRedirects host s.ctx.output s.ctx.stderr redirects s.ctx.files
  let ctx := { s.ctx with files := r.1 }
  match r.2 with
  | .ok () =>
    let output := if redirects.any (·.kind.toStdout) then [] else ctx.output
    let stderr := if redirects.any (·.kind == .err) then [] else ctx.stderr
    ({ s with ctx := { ctx with output, stderr } }, code)
  | .error e => ({ s with ctx := ctx.report host e }, 1)

/-- One command of a pipeline (`executor.rs:474-546`). -/
def executeCommand (command : SimpleCommand) (s : Session Files) (lastCode : Int) :
    Session Files × Int :=
  match expandCommand host command.argv s.ctx with
  | [] => (s, lastCode)
  | name :: args =>
    let env := command.envOverrides.foldl
      (fun env override => env.set override.1 override.2) s.ctx.env
    let ctx := { s.ctx with env, output := [], stderr := [], stdin := [] }
    match resolveStdin host command.redirects ctx.files with
    | .error e => ({ s with ctx := ctx.report host e }, 1)
    | .ok bytes =>
      let r := dispatch host (name :: args) name
        { s with ctx := { ctx with stdin := bytes.getD [] } }
      finishOutput host command.redirects r.1 r.2

/-- `execute_pipeline` (`executor.rs:467-549`). -/
def executePipeline (pipeline : Pipeline) (s : Session Files) : Session Files × Int :=
  pipeline.foldl (fun r command => executeCommand host command r.1 r.2) (s, 0)

/-- Whether the connector before a pipeline lets it run (`executor.rs:282-294`). -/
def Connector.allows (before : Option Connector) (lastCode : Int) : Bool :=
  match before with
  | some .and => lastCode == 0
  | some .or => lastCode != 0
  | _ => true

/-- The loop of `execute_command_list`, with the connector of the entry before. -/
def executeEntries : CommandList → Option Connector → Session Files → Int → Session Files × Int
  | [], _, s, lastCode => (s, lastCode)
  | (pipeline, connector) :: rest, before, s, lastCode =>
    if Connector.allows before lastCode then
      let r := executePipeline host pipeline s
      let ctx := r.1.ctx
      let ctx := { ctx with lastExitCode := r.2, env := { ctx.env with lastExitCode := r.2 } }
      executeEntries rest connector { r.1 with ctx } r.2
    else executeEntries rest connector s lastCode

/-- `execute_command_list` (`executor.rs:268-302`). -/
def executeCommandList (list : CommandList) (s : Session Files) : Session Files × Int :=
  executeEntries host list none s 0

/-- `strip_trailing_newlines` (`executor.rs:447-449`). -/
def stripTrailingNewlines (text : Text) : Text :=
  (text.reverse.dropWhile (· == '\n')).reverse

/-- `substitute_tokens_at` (`executor.rs:380-400`), with what runs the inner commands. -/
def substituteTokensWith (capture : Text → Session Files → (Text × Int) × Session Files) :
    List Token → Session Files → List Token × Session Files
  | [], s => ([], s)
  | .commandSubst inner :: rest, s =>
    let r := capture inner s
    let ctx := r.2.ctx
    let ctx := { ctx with lastExitCode := r.1.2, env := { ctx.env with lastExitCode := r.1.2 } }
    let others := substituteTokensWith capture rest { r.2 with ctx }
    (.word r.1.1 :: others.1, others.2)
  | token :: rest, s =>
    let others := substituteTokensWith capture rest s
    (token :: others.1, others.2)

/-- `run_and_capture` (`executor.rs:411-441`), with the levels of nesting that are left. -/
def runAndCapture : Nat → Text → Session Files → (Text × Int) × Session Files
  | 0, _, s => (([], 2), s)
  | levels + 1, inner, s =>
    match tokenize inner with
    | .error _ => (([], 2), s)
    | .ok tokens =>
      let (tokens, s) := substituteTokensWith (runAndCapture levels) tokens s
      match parse tokens with
      | .error _ => (([], 2), s)
      | .ok list =>
        let r := executeCommandList host list { s with ctx := { s.ctx with output := [] } }
        let captured := r.1.ctx.output
        ((stripTrailingNewlines (host.fromUtf8Lossy captured), r.2),
          { r.1 with ctx := { r.1.ctx with output := s.ctx.output, cwd := s.ctx.cwd } })

/-- `MAX_SUBST_DEPTH` (`executor.rs:312`). -/
def maxSubstDepth : Nat :=
  64

/-- `substitute_tokens` (`executor.rs:371-377`). -/
def substituteTokens (tokens : List Token) (s : Session Files) : List Token × Session Files :=
  substituteTokensWith (runAndCapture host maxSubstDepth) tokens s

/-- A line through `tokenize`, `substitute_tokens`, `parse` and `execute_command_list`; nothing
happens to the session when the line has no tokens that parse. -/
def runLine (line : Text) (s : Session Files) : Session Files :=
  match tokenize line with
  | .error _ => s
  | .ok tokens =>
    let (tokens, s) := substituteTokens host tokens s
    match parse tokens with
    | .error _ => s
    | .ok list => (executeCommandList host list s).1

end

end NexaCore.Shell
