import Lox.Prompt

/-!
The command line.

A command line asks for the prompt, for something to be done with a file, or for one of two texts;
all else is a misuse of it. What a command does is described here for a console whose streams are
still to be written, and ends with an exit code: that of the run's status, or that of the failure
that kept the command from being carried out.
-/

namespace Lox.CommandLine

/-- What can be done with a file. -/
inductive FileAction where
  | run
  | listTokens
  | outline
  deriving DecidableEq, Repr

/-- What a command line asks for. -/
inductive Command where
  | prompt
  | file (action : FileAction) (path : String)
  | help
  | version
  deriving DecidableEq, Repr

/-- The action on the file that is the only argument of a command. -/
def fileCommand (name : String) (action : FileAction) : List String → Except Failure Command
  | [path] => .ok (.file action path)
  | _ => .error (.usage ("Usage: lox " ++ name ++ " <file.lox>"))

/-- What a command line asks for. A single argument that is no command and does not begin with a
dash is a file to run. -/
def Command.ofArguments : List String → Except Failure Command
  | [] => .ok .prompt
  | "run" :: rest => fileCommand "run" .run rest
  | "lex" :: rest => fileCommand "lex" .listTokens rest
  | "parse" :: rest => fileCommand "parse" .outline rest
  | "help" :: _ | "--help" :: _ | "-h" :: _ => .ok .help
  | "version" :: _ | "--version" :: _ | "-V" :: _ => .ok .version
  | first :: rest =>
    if rest.isEmpty && first.toList.head? != some '-' then .ok (.file .run first)
    else .error (.usage ("Unknown command: " ++ first))

/-- How the program is used. -/
def usageLines : List String := [
  "Usage: lox [command] [file]",
  "",
  "Commands:",
  "  (none)              Start the interactive prompt",
  "  <file.lox>          Run a Lox program",
  "  run <file.lox>      Run a Lox program",
  "  lex <file.lox>      Print the token stream",
  "  parse <file.lox>    Print the parsed program",
  "  help                Show this help message",
  "  version             Show version information",
  "",
  "Prompt commands: :env, :globals, :quit",
  "",
  "Environment:",
  "  RUST_LOG=<filter>   Enable tracing (e.g. lox_eval=debug)",
  "  LOX_LOG_TREE=1      Render traces as an indented tree"]

/-- The name and the number of the program's version. -/
def versionLine : String := "lox 0.1.0"

/-- Put the description of how the program is used on the error stream. -/
def writeUsage (console : Console) : Console :=
  usageLines.foldl Console.writeError console

/-- The text that the bytes of a file are. -/
def decode (bytes : ByteArray) : Except ReadFault String :=
  match String.fromUTF8? bytes with
  | some text => .ok text
  | none => .error .invalidText

/-- Do something with the text of a file. -/
def onText (fuel : Nat) (clock : Nat → Float) (action : FileAction) (text : String)
    (console : Console) : Option (Status × Console) :=
  match action with
  | .run => runSource fuel clock text console
  | .listTokens =>
    let (lines, console) := Lox.listTokens text console
    let console := Reporter.printAll console lines
    some (if Reporter.hadSourceError console then .sourceError else .ok, console)
  | .outline =>
    match outlineSource text console with
    | (some tree, console) => some (.ok, Reporter.printAll console (Text.lines tree))
    | (none, console) => some (.sourceError, console)

/-- What a command comes to: a status, or the failure that kept it from being carried out. -/
abbrev Result := Except Failure Status

/-- Do something with a file that reads as given. -/
def onFile (fuel : Nat) (clock : Nat → Float) (action : FileAction) (path : String)
    (contents : Except ReadFault ByteArray) (console : Console) : Option (Result × Console) :=
  match contents >>= decode with
  | .error fault => some (.error (.ofRead path fault), console)
  | .ok text => (onText fuel clock action text console).map fun (status, console) =>
      (.ok status, console)

/-- The session that the prompt starts with. -/
def newSession (clock : Nat → Float) (console : Console) : Session Console :=
  .start (.build [] clock defaultMaxCallDepth) console

/-- Write the prompt on the output stream. -/
def announce (console : Console) : Console :=
  console.write Prompt.text

/-- Run the prompt on the whole of an input. -/
def onInput (fuel : Nat) (clock : Nat → Float) (input : List UInt8) (console : Console) :
    Option (Result × Console) :=
  (Prompt.run fuel announce (newSession clock console) input).map fun finished =>
    let result :=
      match finished.failure with
      | some failure => .error failure
      | none => .ok .ok
    (result, finished.session.reporter)

/-- The exit code of a command, and what is on the streams when it is over. A failure is named on
the error stream; one of the command line is followed by how the program is used. -/
def conclude (result : Result) (console : Console) : Nat × Console :=
  match result with
  | .ok status => (status.exitCode, console)
  | .error failure =>
    let console := console.writeError ("error: " ++ failure.message)
    (failure.exitCode, if failure.isUsage then writeUsage (console.writeError "") else console)

/-- What a command comes to, given how files read and what the input is. -/
def perform (fuel : Nat) (clock : Nat → Float) (readFile : String → Except ReadFault ByteArray)
    (input : List UInt8) (command : Command) : Option (Result × Console) :=
  match command with
  | .prompt => onInput fuel clock input .empty
  | .file action path => onFile fuel clock action path (readFile path) .empty
  | .help => some (.ok .ok, writeUsage .empty)
  | .version => some (.ok .ok, Reporter.print Console.empty versionLine)

/-- The exit code of a command line and what it leaves on the streams, given how files read and what
the input is. -/
def run (fuel : Nat) (clock : Nat → Float) (readFile : String → Except ReadFault ByteArray)
    (input : List UInt8) (arguments : List String) : Option (Nat × Console) :=
  match Command.ofArguments arguments with
  | .error failure => some (conclude (.error failure) .empty)
  | .ok command => (perform fuel clock readFile input command).map fun (result, console) =>
      conclude result console

end Lox.CommandLine
