/-!
Failures of the program that runs programs: files and streams that cannot be read, and command lines
that make no sense.
-/

namespace Lox

/-- Why a file could not be read. -/
inductive ReadFault where
  | notFound
  | permissionDenied
  | invalidText
  | other (reason : String)
  deriving DecidableEq, Repr

/-- Why there is no status to report. -/
inductive Failure where
  | notFound (path : String)
  | permissionDenied (path : String)
  | invalidText (path : String)
  | unreadable (path reason : String)
  | terminal (reason : String)
  | usage (text : String)
  deriving DecidableEq, Repr

namespace Failure

/-- The failure of reading a file. -/
def ofRead (path : String) : ReadFault → Failure
  | .notFound => .notFound path
  | .permissionDenied => .permissionDenied path
  | .invalidText => .invalidText path
  | .other reason => .unreadable path reason

/-- The wording of a failure. -/
def message : Failure → String
  | .notFound path => "cannot find file '" ++ path ++ "'"
  | .permissionDenied path => "permission denied reading '" ++ path ++ "'"
  | .invalidText path => "'" ++ path ++ "' contains invalid UTF-8 data"
  | .unreadable path reason => "error reading '" ++ path ++ "': " ++ reason
  | .terminal reason => "terminal I/O failed: " ++ reason
  | .usage text => text

/-- Whether the command line is at fault. -/
def isUsage : Failure → Bool
  | .usage _ => true
  | _ => false

/-- The exit code of a failure. -/
def exitCode (failure : Failure) : Nat :=
  if failure.isUsage then 64 else 74

/-- The failure of a line of input that is not UTF-8. -/
def invalidLine : Failure :=
  .terminal "stream did not contain valid UTF-8"

end Failure

end Lox
