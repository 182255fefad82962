import Lox.CommandLine
import Std.Time.DateTime.Timestamp

/-!
The program: it reads files, lines and the clock, hands them to the command line, and writes what
that leaves on the streams.
-/

namespace Lox

/-- Readings of the clock from now on. Each comes a microsecond after the one before it. -/
def clockFromNow : IO (Nat → Float) := do
  let now ← Std.Time.Timestamp.now
  let seconds := Float.ofInt now.toNanosecondsSinceUnixEpoch.val / 1e9
  return fun reading => seconds + reading.toFloat / 1e6

/-- Why a file could not be read. -/
def readFaultOf : IO.Error → ReadFault
  | .noFileOrDirectory .. => .notFound
  | .permissionDenied .. => .permissionDenied
  | .inappropriateType _ code details | .otherError code details =>
    .other (details ++ " (os error " ++ toString code ++ ")")
  | error => .other (toString error)

/-- The bytes of a file. -/
def readBytes (path : String) : IO (Except ReadFault ByteArray) := do
  try
    return .ok (← IO.FS.readBinFile path)
  catch error =>
    return .error (readFaultOf error)

/-- Write what is on a console. -/
def flush (console : Console) : IO Console := do
  (← IO.getStdout).putStr console.output
  (← IO.getStdout).flush
  (← IO.getStderr).putStr console.errors
  return console.written

/-- The bytes of the next line of the input, with its newline; none at the end of the input. -/
partial def readLine (input : IO.FS.Stream) (line : Array UInt8) : IO (List UInt8) := do
  let bytes ← input.read 1
  match bytes.toList with
  | [] => return line.toList
  | byte :: _ =>
      if byte = 10 then return (line.push byte).toList else readLine input (line.push byte)

/-- Run the prompt on the lines of the input. -/
partial def promptLoop (session : Session Console) : IO (CommandLine.Result × Console) := do
  let console ← flush (CommandLine.announce session.reporter)
  let line ← readLine (← IO.getStdin) #[]
  let clock ← clockFromNow
  let interpreter := { session.interpreter with host := { session.interpreter.host with clock } }
  match Prompt.step ampleFuel { session with interpreter, reporter := console } line with
  | some (.next session) => promptLoop { session with reporter := ← flush session.reporter }
  | some (.ended session) => return (.ok .ok, session.reporter)
  | some (.failed failure session) => return (.error failure, session.reporter)
  | none => return (.ok .runtimeError, console)

/-- Carry out a command. -/
def carryOut (command : CommandLine.Command) : IO (CommandLine.Result × Console) := do
  let clock ← clockFromNow
  match command with
  | .prompt => promptLoop (CommandLine.newSession clock .empty)
  | .file _ path =>
    let contents ← readBytes path
    let outcome := CommandLine.perform ampleFuel clock (fun _ => contents) [] command
    return outcome.getD (.ok .runtimeError, .empty)
  | command =>
    let outcome := CommandLine.perform ampleFuel clock (fun _ => .error .notFound) [] command
    return outcome.getD (.ok .runtimeError, .empty)

end Lox

/-- The command line program. -/
def main (arguments : List String) : IO UInt32 := do
  let (result, console) ←
    match Lox.CommandLine.Command.ofArguments arguments with
    | .ok command => Lox.carryOut command
    | .error failure => pure (.error failure, Lox.Console.empty)
  let (code, console) := Lox.CommandLine.conclude result console
  let _ ← Lox.flush console
  return code.toUInt32
