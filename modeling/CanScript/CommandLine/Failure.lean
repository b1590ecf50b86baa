import CanScript.Session
import CanScript.Trace.Script

/-! # Failures of the command line

    Why a command did not succeed, in words and as an exit code. -/

namespace CanScript.CommandLine

/-- Why a file cannot be used. -/
inductive FileError where
  | notFound
  | notDirectory
  | isDirectory
  | other (message : String)
  deriving DecidableEq, Repr

def FileError.message : FileError → String
  | notFound => "No such file or directory (os error 2)"
  | notDirectory => "Not a directory (os error 20)"
  | isDirectory => "Is a directory (os error 21)"
  | other message => message

/-- Why a command did not succeed. -/
inductive Failure where
  /-- The arguments are not a command. -/
  | usage
  /-- The script has errors and was not run. -/
  | script (errors : Nat)
  /-- The script was run and recorded errors. -/
  | run (errors : Nat)
  | trace (error : Trace.Error)
  | session (error : SessionError)
  | file (error : FileError)
  deriving DecidableEq, Repr

namespace Failure

def exitCode : Failure → Nat
  | session _ => 1
  | usage => 2
  | script _ => 2
  | trace _ => 2
  | run _ => 3
  | file _ => 4

def message : Failure → String
  | usage => "Invalid arguments"
  | script errors => s!"Script has {errors} error(s)"
  | run errors => s!"Run recorded {errors} runtime error(s)"
  | trace error => s!"Invalid trace at {error.message}"
  | session error => s!"Executor error: {error.message}"
  | file error => s!"IO error: {error.message}"

def ofRefusal : SessionError → Failure
  | .invalidScript errors => script errors
  | error => session error

end Failure

def convertTrace (text : String) : Except Failure String :=
  (Trace.convert text).mapError .trace

end CanScript.CommandLine
