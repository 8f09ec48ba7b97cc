/-
  The command line.

  `Invocation.ofArguments` decides from the arguments what to do: answer at once, or read a script
  and perform a task on it.  `perform` does that task on the contents of the file.  Both are pure;
  reading the file and printing the response are left to the caller.

  An option takes its value from the next argument or after an equals sign.  After `--` every
  argument is the name of a script.  A request for the version or for help is granted as soon as it
  is read, whatever is wrong with the arguments around it, unless an unknown argument came first.
-/
import Tao.Run
import Tao.Tree.Outline

namespace Tao.Command

/-! ## Responses -/

/-- What the command leaves behind: its exit code and what it prints. -/
structure Response where
  code : UInt32
  stdout : String
  stderr : String
  deriving DecidableEq, Repr, Inhabited

/-- What is wrong with the arguments. -/
inductive UsageError where
  | unknownArgument (argument : String)
  | missingValue (option : String)
  | repeated (option : String)
  | conflict (one other : String)
  | missingScript
  | invalidDepth (text : String)
  deriving DecidableEq, Repr

/-- How to call the command. -/
def usage : String := "Usage: rtao [FLAGS] [OPTIONS] <script>"

/-- The wording of what is wrong with the arguments. -/
def UsageError.message : UsageError → String
  | unknownArgument argument => s!"error: unexpected argument '{argument}'"
  | missingValue option => s!"error: the option '--{option}' needs a value"
  | repeated option => s!"error: the argument '--{option}' was given more than once"
  | conflict one other => s!"error: the argument '--{one}' cannot be used with '--{other}'"
  | missingScript => "error: no script was given"
  | invalidDepth text => s!"invalid --max-depth `{text}'"

/-- The response to arguments that make no sense. -/
def UsageError.response (e : UsageError) : Response :=
  ⟨64, "", e.message ++ "\n" ++ usage ++ "\n"⟩

/-- The response to a request for the version. -/
def versionResponse : Response := ⟨0, "rtao 0.1.0\n", ""⟩

/-- The response to a request for help. -/
def helpResponse : Response :=
  let lines :=
    [ "rtao 0.1.0", "Runs a tao script", "", "USAGE:", "    rtao [FLAGS] [OPTIONS] <script>", "",
      "FLAGS:",
      "        --ast        Prints the parsed program instead of running",
      "    -h, --help       Prints help information",
      "        --tokens     Prints the token stream instead of running",
      "    -V, --version    Prints version information", "",
      "OPTIONS:",
      "        --entry <NAME>     Function called after the top-level statements [default: main]",
      "        --max-depth <N>    Maximum call depth", "",
      "ARGS:", "    <script>    ", "" ]
  ⟨0, "\n".intercalate lines, ""⟩

/-! ## Arguments -/

/-- What to do with a script. -/
inductive Task where
  | run
  | printTokens
  | printTree
  deriving DecidableEq, Repr

/-- The options that take a value. -/
inductive ValueOption where
  | maxDepth
  | entry
  deriving DecidableEq, Repr

/-- The name of an option, without its dashes. -/
def ValueOption.name : ValueOption → String
  | maxDepth => "max-depth"
  | entry => "entry"

/-- What the arguments read so far amount to. -/
structure Arguments where
  tokens : Bool := false
  tree : Bool := false
  maxDepth : Option String := none
  entry : Option String := none
  script : Option String := none
  /-- The option whose value must come next. -/
  awaiting : Option ValueOption := none
  /-- Did `--` end the options? -/
  scriptsOnly : Bool := false
  /-- The first thing wrong so far that does not stop the reading of arguments. -/
  problem : Option UsageError := none
  deriving DecidableEq, Repr, Inhabited

namespace Arguments

/-- Notes a problem, unless there is one already. -/
def complain (arguments : Arguments) (problem : UsageError) : Arguments :=
  { arguments with problem := arguments.problem.or (some problem) }

/-- Notes that an option whose value was due is left without it. -/
def abandon (arguments : Arguments) : Arguments :=
  match arguments.awaiting with
  | some option => { arguments.complain (.missingValue option.name) with awaiting := none }
  | none => arguments

/-- Gives an option its value. -/
def setValue (arguments : Arguments) (option : ValueOption) (value : String) : Arguments :=
  match option with
  | .maxDepth =>
    if arguments.maxDepth.isSome then arguments.complain (.repeated option.name)
    else { arguments with maxDepth := some value }
  | .entry =>
    if arguments.entry.isSome then arguments.complain (.repeated option.name)
    else { arguments with entry := some value }

/-- Does an argument begin an option?  A single dash does not. -/
def isOption (argument : String) : Bool := argument.startsWith "-" && argument ≠ "-"

/-- What one argument that begins an option does: it changes the arguments, or it ends their reading
    with a response. -/
def readOption (arguments : Arguments) (argument : String) : Except Response Arguments :=
  let unknown := .error (UsageError.unknownArgument argument).response
  let letters := argument.toList
  let body := letters.dropWhile (· = '-')
  if argument.startsWith "--" then
    let name := String.ofList (body.takeWhile (· ≠ '='))
    let value : Option String :=
      if body.contains '=' then
        some (String.ofList ((body.dropWhile (· ≠ '=')).dropWhile (· = '=')))
      else none
    let giveValue (option : ValueOption) : Except Response Arguments :=
      match value with
      | some value => .ok (arguments.setValue option value)
      | none => .ok { arguments with awaiting := some option }
    match name with
    | "help" => .error helpResponse
    | "version" => .error versionResponse
    | "tokens" =>
      if arguments.tokens then .ok (arguments.complain (.repeated name))
      else .ok { arguments with tokens := true }
    | "ast" =>
      if arguments.tree then .ok (arguments.complain (.repeated name))
      else .ok { arguments with tree := true }
    | "max-depth" => giveValue .maxDepth
    | "entry" => giveValue .entry
    | _ => unknown
  else
    match body with
    | 'h' :: _ => .error helpResponse
    | 'V' :: _ => .error versionResponse
    | _ => unknown

/-- Reads one more argument. -/
def readOne (arguments : Arguments) (argument : String) : Except Response Arguments :=
  let script : Except Response Arguments :=
    if arguments.script.isSome then .error (UsageError.unknownArgument argument).response
    else .ok { arguments with script := some argument }
  if arguments.scriptsOnly then script
  else if argument = "--" then .ok { arguments with scriptsOnly := true }
  else if isOption argument then arguments.abandon.readOption argument
  else
    match arguments.awaiting with
    | some option => .ok ({ arguments with awaiting := none }.setValue option argument)
    | none => script

end Arguments

/-! ## Invocations -/

/-- A number that fits into 64 bits, written in decimal digits after an optional plus sign. -/
def parseDepth (text : String) : Option Nat :=
  let digits := match text.toList with
    | '+' :: digits => digits
    | digits => digits
  if digits.isEmpty || !digits.all Char.isDigit then none
  else
    let value := digits.foldl (fun value c => value * 10 + (c.toNat - '0'.toNat)) 0
    if value < UInt64.size then some value else none

/-- What the arguments ask for. -/
inductive Invocation where
  | answer (response : Response)
  | script (file : String) (task : Task) (config : Config)
  deriving DecidableEq, Repr

/-- Judges arguments that were all read. -/
def Arguments.invocation (arguments : Arguments) : Invocation :=
  match arguments.abandon.problem, arguments.script with
  | some problem, _ => .answer problem.response
  | none, none => .answer UsageError.missingScript.response
  | none, some file =>
    if arguments.tokens && arguments.tree then
      .answer (UsageError.conflict "ast" "tokens").response
    else
      let task :=
        if arguments.tokens then .printTokens else if arguments.tree then .printTree else .run
      let config : Config := {}
      let config := { config with entryPoint := arguments.entry.getD config.entryPoint }
      match arguments.maxDepth with
      | none => .script file task config
      | some text =>
        match parseDepth text with
        | some depth => .script file task { config with maxCallDepth := depth }
        | none => .answer (UsageError.invalidDepth text).response

/-- What a list of arguments asks for. -/
def Invocation.ofArguments (arguments : List String) : Invocation :=
  match arguments.foldlM Arguments.readOne ({} : Arguments) with
  | .ok arguments => arguments.invocation
  | .error response => .answer response

/-! ## Tasks -/

/-- A number in a field of four characters, to the right or to the left. -/
def field (toRight : Bool) (n : Nat) : String :=
  let digits := toString n
  let blanks := "".pushn ' ' (4 - digits.length)
  if toRight then blanks ++ digits else digits ++ blanks

/-- The line that shows a token. -/
def tokenLine (token : Token) : String :=
  field true token.position.line ++ ":" ++ field false token.position.column ++ " "
    ++ token.display ++ "\n"

/-- The response to a failure, after what was printed before it. -/
def failure (printed : String) (error : Error) : Response :=
  ⟨if error.category = .badSyntax then 65 else 70, printed, "Error: " ++ error.message ++ "\n"⟩

/-- The response when fuel ran out. -/
def exhausted (printed : String) : Response := ⟨70, printed, "Error: out of fuel\n"⟩

/-- The response when the script cannot be read. -/
def unreadable (file reason : String) : Response :=
  ⟨66, "", s!"Error: cannot read {file}: {reason}\n"⟩

/-- Performs a task on the text of a script. -/
def perform (task : Task) (config : Config) (text : String) : Response :=
  match task with
  | .printTokens =>
    match tokenize text with
    | .ok tokens => ⟨0, String.join (tokens.map tokenLine), ""⟩
    | .error e => failure "" (.text e)
  | .printTree =>
    match parse text with
    | .ok program => ⟨0, program.outline ++ "\n", ""⟩
    | .error (.failed e) => failure "" (.text e)
    | .error .outOfFuel => exhausted ""
  | .run =>
    match runText ampleFuel text (.start config .unlimited) with
    | .ok _ m => ⟨0, m.sink.written, ""⟩
    | .error (.failed e) m => failure m.sink.written e
    | .error .outOfFuel m => exhausted m.sink.written

/-- What reading the script gave: its text, or why it could not be read. -/
inductive FileContents where
  | text (text : String)
  | unreadable (reason : String)
  deriving DecidableEq, Repr

/-- The response to an invocation, given what the files hold. -/
def Invocation.respond (contents : String → FileContents) : Invocation → Response
  | .answer response => response
  | .script file task config =>
    match contents file with
    | .text text => perform task config text
    | .unreadable reason => Command.unreadable file reason

end Tao.Command
